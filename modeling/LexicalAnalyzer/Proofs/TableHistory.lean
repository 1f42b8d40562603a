import LexicalAnalyzer.Proofs.Interning

/-!
The tables over a history of calls. A call looks a lexeme up in a table, and takes it in at the end
of the table if it is new there and the table is one that grows. One law says all that a call does;
what holds of every history, that entries stand once and keep their positions, follows from it call
by call.
-/
namespace LexicalAnalyzer

/-- Whether a table takes in what it does not hold. -/
def TableKind.grows : TableKind → Bool
  | .keyword | .separator => false
  | .number | .identifier => true

/-- The position that is given for a lexeme is the one at which it is found from then on. -/
theorem SymbolTable.indexOf?_intern (t : SymbolTable) (lexeme : String) :
    (t.intern lexeme).2.indexOf? lexeme = some (t.intern lexeme).1 := by
  unfold intern
  split
  · rename_i index h
    exact h
  · rename_i h
    -- The lexeme is appended, and nothing in front of it equals it.
    have hnew : lexeme ∉ t.entries := List.idxOf?_eq_none_iff.mp h
    refine List.idxOf?_eq_some_iff.mpr ⟨by simp [size], by simp [size], ?_⟩
    intro j hj
    rw [List.getElem_append_left hj]
    exact fun he => hnew (he ▸ List.getElem_mem hj)

namespace Vocabulary

/-- A call: the answer to it, and the vocabulary behind it. A refusal leaves the vocabulary that was
there before. -/
def call (v : Vocabulary) (table : TableKind) (lexeme : String) :
    Except TableError Nat × Vocabulary :=
  match v.intern table lexeme with
  | .ok (index, w) => (.ok index, w)
  | .error e => (.error e, v)

/-- The vocabulary behind calls, each made on what the one before it left, whatever its answer. -/
def callAll (v : Vocabulary) (calls : List (TableKind × String)) : Vocabulary :=
  calls.foldl (fun v (table, lexeme) => (v.call table lexeme).2) v

/-- What a call does. Its table takes in the lexeme at the end, if the table grows and does not hold
the lexeme yet; the other tables stay; and the answer is the position of the lexeme from then on. -/
structure Serves (v : Vocabulary) (table : TableKind) (lexeme : String)
    (answer : Except TableError Nat) (w : Vocabulary) : Prop where
  own : w.entries table = if table.grows = true ∧ lexeme ∉ v.entries table
    then v.entries table ++ [lexeme] else v.entries table
  others : ∀ other ≠ table, w.entries other = v.entries other
  answer : answer = match w.indexOf? table lexeme with
    | some index => .ok index
    | none => .error (.unknownEntry table lexeme)

variable {v w : Vocabulary} {table : TableKind} {lexeme : String} {answer : Except TableError Nat}

theorem serves_fixed {fixed : FixedTable} (hgrows : table.grows = false)
    (hentries : v.entries table = fixed.entries)
    (hintern : v.intern table lexeme = (fixedIndex fixed table lexeme).map (·, v)) :
    v.Serves table lexeme (v.call table lexeme).1 (v.call table lexeme).2 := by
  have hcall : v.call table lexeme = (fixedIndex fixed table lexeme, v) := by
    rw [call, hintern]
    cases fixedIndex fixed table lexeme <;> rfl
  rw [hcall]
  refine ⟨by simp [hgrows], fun _ _ => rfl, ?_⟩
  cases h : fixed.entries.idxOf? lexeme <;>
    simp [fixedIndex, FixedTable.indexOf?, indexOf?, hentries, h]

theorem serves_growing {t : SymbolTable} (hgrows : table.grows = true)
    (hv : v.entries table = t.entries) (hw : w.entries table = (t.intern lexeme).2.entries)
    (hothers : ∀ other ≠ table, w.entries other = v.entries other)
    (hintern : v.intern table lexeme = .ok ((t.intern lexeme).1, w)) :
    v.Serves table lexeme (v.call table lexeme).1 (v.call table lexeme).2 := by
  have hcall : v.call table lexeme = (.ok (t.intern lexeme).1, w) := by
    rw [call, hintern]
  have hindex : w.indexOf? table lexeme = some (t.intern lexeme).1 := by
    rw [indexOf?, hw]
    exact t.indexOf?_intern lexeme
  rw [hcall]
  refine ⟨?_, hothers, by rw [hindex]⟩
  rw [hw, hv, SymbolTable.entries_intern]
  by_cases hmem : lexeme ∈ t.entries <;> simp [hmem, hgrows]

theorem call_serves (v : Vocabulary) (table : TableKind) (lexeme : String) :
    v.Serves table lexeme (v.call table lexeme).1 (v.call table lexeme).2 := by
  cases table with
  | keyword => exact serves_fixed rfl rfl rfl
  | separator => exact serves_fixed rfl rfl rfl
  | number =>
    refine serves_growing rfl rfl rfl ?_ rfl
    intro other hne
    cases other with
    | number => exact absurd rfl hne
    | keyword | separator | identifier => rfl
  | identifier =>
    refine serves_growing rfl rfl rfl ?_ rfl
    intro other hne
    cases other with
    | identifier => exact absurd rfl hne
    | keyword | separator | number => rfl

namespace Serves

theorem grown (h : v.Serves table lexeme answer w) : v.Extends w := by
  intro other
  by_cases hother : other = table
  · subst hother
    rw [h.own]
    split
    · exact List.prefix_append _ _
    · exact List.prefix_rfl
  · simp [h.others other hother]

theorem nodup (h : v.Serves table lexeme answer w) {other : TableKind}
    (hv : (v.entries other).Nodup) : (w.entries other).Nodup := by
  by_cases hother : other = table
  · subst hother
    rw [h.own]
    split
    · rename_i hnew
      exact List.nodup_append.mpr ⟨hv, by simp, by grind⟩
    · exact hv
  · rwa [h.others other hother]

/-- Behind a call a table that grows holds the lexeme. -/
theorem answer_of_grows (h : v.Serves table lexeme answer w) (hgrows : table.grows = true) :
    ∃ index, answer = .ok index ∧ w.indexOf? table lexeme = some index := by
  have hmem : lexeme ∈ w.entries table := by
    rw [h.own]
    by_cases hold : lexeme ∈ v.entries table <;> simp [hold, hgrows]
  obtain ⟨index, hindex⟩ := Option.isSome_iff_exists.mp (List.isSome_idxOf?.mpr hmem)
  have hfound : w.indexOf? table lexeme = some index := hindex
  exact ⟨index, by rw [h.answer, hfound], hfound⟩

/-- A call is refused just when its table is fixed and does not hold the lexeme. -/
theorem answer_eq_error_iff (h : v.Serves table lexeme answer w) :
    answer = .error (.unknownEntry table lexeme) ↔
      table.grows = false ∧ lexeme ∉ v.entries table := by
  cases hgrows : table.grows with
  | true =>
    obtain ⟨index, hanswer, _⟩ := h.answer_of_grows hgrows
    simp [hanswer]
  | false =>
    have hsame : w.entries table = v.entries table := by simp [h.own, hgrows]
    rw [h.answer, indexOf?, hsame]
    cases hindex : (v.entries table).idxOf? lexeme with
    | none => simpa using hindex
    | some index =>
      have hmem : lexeme ∈ v.entries table := List.isSome_idxOf?.mp (by simp [hindex])
      simp [hmem]

/-- There is no other reason to refuse a call, and a refusal leaves all tables alone. -/
theorem of_error (h : v.Serves table lexeme answer w) {e : TableError} (he : answer = .error e) :
    e = .unknownEntry table lexeme ∧ ∀ other, w.entries other = v.entries other := by
  have hreason : e = .unknownEntry table lexeme := by
    rw [h.answer] at he
    split at he
    · cases he
    · exact (Except.error.inj he).symm
  obtain ⟨hgrows, _⟩ := h.answer_eq_error_iff.mp (hreason ▸ he)
  refine ⟨hreason, fun other => ?_⟩
  by_cases hother : other = table
  · subst hother
    simp [h.own, hgrows]
  · exact h.others other hother

end Serves

/-- Where no entry stands twice, looking up a lexeme and looking up a position are inverse. -/
theorem indexOf?_eq_some_iff (h : (v.entries table).Nodup) (s : String) (index : Nat) :
    v.indexOf? table s = some index ↔ v.resolve? table index = some s := by
  rw [indexOf?, List.idxOf?_eq_some_iff, resolve?, List.getElem?_eq_some_iff]
  constructor
  · rintro ⟨hlt, hs, _⟩
    exact ⟨hlt, hs⟩
  · rintro ⟨hlt, hs⟩
    refine ⟨hlt, hs, fun j hj hsame => ?_⟩
    have hj' : j = index := (List.getElem_inj h).mp (hsame.trans hs.symm)
    omega

theorem nodup_entries_empty (table : TableKind) : (entries {} table).Nodup := by
  cases table <;> decide

section History

variable (v : Vocabulary) (calls more : List (TableKind × String))

theorem callAll_append : v.callAll (calls ++ more) = (v.callAll calls).callAll more :=
  List.foldl_append

theorem extends_callAll : v.Extends (v.callAll calls) := by
  induction calls generalizing v with
  | nil => exact fun _ => List.prefix_rfl
  | cons c calls ih =>
    intro table
    exact ((v.call_serves c.1 c.2).grown table).trans (ih _ table)

theorem nodup_callAll (table : TableKind) (h : (v.entries table).Nodup) :
    ((v.callAll calls).entries table).Nodup := by
  induction calls generalizing v with
  | nil => exact h
  | cons c calls ih => exact ih _ ((v.call_serves c.1 c.2).nodup h)

/-- A table that does not grow is the same behind all calls. -/
theorem entries_callAll_of_fixed {table : TableKind} (h : table.grows = false) :
    (v.callAll calls).entries table = v.entries table := by
  cases table with
  | keyword | separator => rfl
  | number | identifier => cases h

end History

end Vocabulary

/-- The laws of the tables, in whatever state calls on any tables and with any lexemes have brought
them. No entry stands twice, so looking up a lexeme and looking up a position are inverse; what
stands at a position stays there whatever is called later; keywords and separators are never
changed. A call on a table that grows gives the position of its lexeme, which is appended if it was
absent, and no call changes another table. It is refused just when its table is fixed and does not
hold the lexeme, and then all tables stay as they are. -/
theorem tables_lawful_after_calls (history : List (TableKind × String)) :
    let v := Vocabulary.callAll {} history
    (∀ table, (v.entries table).Nodup) ∧
    (∀ table s index, v.indexOf? table s = some index ↔ v.resolve? table index = some s) ∧
    (∀ table s index more, v.resolve? table index = some s →
      (Vocabulary.callAll {} (history ++ more)).resolve? table index = some s) ∧
    v.entries .keyword = keywords.entries ∧ v.entries .separator = separators.entries ∧
    ∀ table s answer w, v.call table s = (answer, w) →
      (table.grows = true → ∃ index, answer = .ok index ∧ w.indexOf? table s = some index ∧
        (w.entries table = v.entries table ++ [s] ↔ s ∉ v.entries table) ∧
        (s ∈ v.entries table → w.entries table = v.entries table)) ∧
      (∀ other, other ≠ table → w.entries other = v.entries other) ∧
      (answer = .error (.unknownEntry table s) ↔ table.grows = false ∧ s ∉ v.entries table) ∧
      (∀ e, answer = .error e →
        e = .unknownEntry table s ∧ ∀ other, w.entries other = v.entries other) := by
  intro v
  have hnodup : ∀ table, (v.entries table).Nodup := fun table =>
    Vocabulary.nodup_callAll {} history table (Vocabulary.nodup_entries_empty table)
  refine ⟨hnodup, fun table s index => Vocabulary.indexOf?_eq_some_iff (hnodup table) s index, ?_,
    Vocabulary.entries_callAll_of_fixed {} history rfl,
    Vocabulary.entries_callAll_of_fixed {} history rfl, ?_⟩
  · intro table s index more hs
    rw [Vocabulary.callAll_append]
    exact (v.extends_callAll more).resolve? hs
  · intro table s answer w hcall
    have hserves : v.Serves table s answer w := by
      have hboth := v.call_serves table s
      rwa [hcall] at hboth
    refine ⟨fun hgrows => ?_, hserves.others, hserves.answer_eq_error_iff,
      fun e => hserves.of_error⟩
    obtain ⟨index, hanswer, hindex⟩ := hserves.answer_of_grows hgrows
    refine ⟨index, hanswer, hindex, ?_, ?_⟩
    · rw [hserves.own]
      by_cases hmem : s ∈ v.entries table <;> simp [hmem, hgrows]
    · intro hmem
      simp [hserves.own, hmem]

/-- A number stays while an identifier and the empty text are taken in and a word is refused as a
keyword. -/
theorem tables_lawful_after_calls_refusal :
    let history := [(TableKind.number, "1"), (.identifier, "x"), (.number, ""), (.number, "1")]
    let v := Vocabulary.callAll {} history
    v.resolve? .number 1 = some "" ∧
      (Vocabulary.callAll {} (history ++ [(.keyword, "x"), (.number, "2")])).resolve? .number 1 =
        some "" ∧
      (∃ index, (v.call .identifier "y").1 = .ok index) ∧
      (v.call .keyword "x").1 = .error (.unknownEntry .keyword "x") ∧
      ∀ other, (v.call .keyword "x").2.entries other = v.entries other := by
  intro history v
  obtain ⟨_, _, hstays, _, _, hcall⟩ := tables_lawful_after_calls history
  have hempty : v.resolve? .number 1 = some "" := by decide
  obtain ⟨hgrown, _⟩ := hcall .identifier "y" _ _ rfl
  obtain ⟨_, _, hrefused, hreason⟩ := hcall .keyword "x" _ _ rfl
  have herror := hrefused.mpr ⟨rfl, by decide⟩
  obtain ⟨index, hindex, _⟩ := hgrown rfl
  exact ⟨hempty, hstays .number "" 1 _ hempty, ⟨index, hindex⟩, herror, (hreason _ herror).2⟩

end LexicalAnalyzer
