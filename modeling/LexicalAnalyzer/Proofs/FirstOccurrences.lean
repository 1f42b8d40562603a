import LexicalAnalyzer.Proofs.TableHistory
import Mathlib.Data.List.Induction

/-!
The tables that grow, as lists of first occurrences. Taking in lexemes one after another leaves each
of them once, in the order in which they came up, and a reference has its lexeme's place in that
order. So the positions in a table come up in order too, and none is without a reference.
-/
namespace LexicalAnalyzer

section Lists

variable {α β : Type} [DecidableEq α] [DecidableEq β]

theorem eraseDups_concat (l : List α) (x : α) :
    (l ++ [x]).eraseDups = if x ∈ l then l.eraseDups else l.eraseDups ++ [x] := by
  rw [List.eraseDups_append]
  by_cases h : x ∈ l <;> simp [List.removeAll, h, List.eraseDups_cons]

theorem nodup_eraseDups (l : List α) : l.eraseDups.Nodup := by
  induction l using List.reverseRecOn with
  | nil => simp
  | append_singleton l x ih =>
    rw [eraseDups_concat]
    split
    · exact ih
    · rename_i hnew
      exact List.nodup_append.mpr ⟨ih, by simp, by grind [List.mem_eraseDups]⟩

/-- A map that keeps elements apart keeps their first occurrences. -/
theorem eraseDups_map {f : α → β} {l : List α} (hf : ∀ x ∈ l, ∀ y ∈ l, f x = f y → x = y) :
    (l.map f).eraseDups = l.eraseDups.map f := by
  induction l using List.reverseRecOn with
  | nil => simp
  | append_singleton l x ih =>
    -- Only the last element can be new, and it is new just when its image is.
    have hmem : f x ∈ l.map f ↔ x ∈ l := by
      rw [List.mem_map]
      constructor
      · rintro ⟨y, hy, he⟩
        exact hf y (by simp [hy]) x (by simp) he ▸ hy
      · intro hx
        exact ⟨x, hx, rfl⟩
    have hfront := ih fun y hy z hz => hf y (by simp [hy]) z (by simp [hz])
    rw [List.map_append, List.map_singleton, eraseDups_concat, eraseDups_concat, hfront]
    by_cases hx : x ∈ l <;> simp [hmem, hx]

theorem map_idxOf_self {l : List α} (h : l.Nodup) : l.map l.idxOf = List.range l.length := by
  refine List.ext_getElem (by simp) fun i hi _ => ?_
  rw [List.getElem_map, List.getElem_range, h.idxOf_getElem]

end Lists

/-- Lexemes taken into an empty table stand in it by their first occurrences. -/
theorem SymbolTable.entries_internAll (lexemes : List String) :
    (internAll {} lexemes).entries = lexemes.eraseDups := by
  induction lexemes using List.reverseRecOn with
  | nil => rfl
  | append_singleton lexemes s ih =>
    have hlast : internAll {} (lexemes ++ [s]) = ((internAll {} lexemes).intern s).2 :=
      internAll_append {} lexemes [s]
    rw [hlast, entries_intern, ih, eraseDups_concat]
    by_cases hs : s ∈ lexemes <;> simp [hs]

theorem lexemesOf_properTokens {kind : TokenKind} (hk : kind ≠ .error) (ts : List Token) :
    lexemesOf kind (properTokens ts) = lexemesOf kind ts := by
  rw [lexemesOf, lexemesOf, properTokens, List.filter_filter]
  congr 1
  refine List.filter_congr fun t _ => ?_
  by_cases ht : t.kind = kind <;> simp [ht, hk]

/-- The positions in a table to which references point, as they come. -/
def positionsIn (table : TableKind) (rs : List Reference) : List Nat :=
  (rs.filter (·.table = table)).map (·.index)

namespace Vocabulary

variable {v : Vocabulary} {table : TableKind} {kind : TokenKind}

theorem Refers.index_eq {r : Reference} {t : Token} (h : v.Refers r t)
    (hn : (v.entries r.table).Nodup) : r.index = (v.entries r.table).idxOf t.lexeme := by
  obtain ⟨hlt, hlexeme⟩ := List.getElem?_eq_some_iff.mp h.lexeme
  rw [← hlexeme, hn.idxOf_getElem]

/-- References into one table agree in their positions just when their tokens agree in their
lexemes. -/
theorem Refers.index_eq_iff {r q : Reference} {t u : Token} (hr : v.Refers r t)
    (hq : v.Refers q u) (hn : (v.entries r.table).Nodup) (hsame : r.table = q.table) :
    r.index = q.index ↔ t.lexeme = u.lexeme := by
  constructor
  · intro hindex
    have hlexeme := hr.lexeme
    rw [hsame, hindex, hq.lexeme] at hlexeme
    exact (Option.some.inj hlexeme).symm
  · intro hlexeme
    rw [hr.index_eq hn, hq.index_eq (hsame ▸ hn), hlexeme, hsame]

/-- The references into a table have the places of the lexemes of its kind. -/
theorem positionsIn_eq (hk : kind.table? = some table) (hn : (v.entries table).Nodup)
    {rs : List Reference} {ts : List Token} (h : List.Forall₂ v.Refers rs ts) :
    positionsIn table rs = (lexemesOf kind ts).map (v.entries table).idxOf := by
  induction h with
  | nil => rfl
  | @cons r t rs ts hr _ ih =>
    have hsame : r.table = table ↔ t.kind = kind := by
      constructor
      · rintro rfl
        exact TokenKind.eq_of_table? hr.table hk
      · rintro rfl
        exact Option.some.inj (hr.table.symm.trans hk)
    -- A pair of the kind counts on both sides, any other on neither.
    by_cases hkind : t.kind = kind
    · obtain rfl := hsame.mpr hkind
      simp only [positionsIn, lexemesOf] at ih ⊢
      simp [hkind, ih, hr.index_eq hn]
    · have htable : r.table ≠ table := fun he => hkind (hsame.mp he)
      simp only [positionsIn, lexemesOf] at ih ⊢
      simp [hkind, htable, ih]

/-- Where the table holds the lexemes of its kind by their first occurrences, the positions come up
in order. -/
theorem eraseDups_positionsIn (hk : kind.table? = some table) {rs : List Reference}
    {ts : List Token} (h : List.Forall₂ v.Refers rs ts)
    (hentries : v.entries table = (lexemesOf kind ts).eraseDups) :
    (positionsIn table rs).eraseDups = List.range (v.entries table).length := by
  have hn : (v.entries table).Nodup := by
    rw [hentries]
    exact nodup_eraseDups _
  have hmem : ∀ s ∈ lexemesOf kind ts, s ∈ v.entries table := by
    intro s hs
    rw [hentries]
    exact List.mem_eraseDups.mpr hs
  rw [positionsIn_eq hk hn h, eraseDups_map, ← hentries, map_idxOf_self hn]
  intro x hx y _ he
  exact (List.idxOf_inj (hmem x hx)).mp he

/-- In an empty vocabulary, tokens leave the first occurrences of their lexemes. -/
theorem entries_takeIn (hk : kind.table? = some table) (hgrows : table.grows = true)
    (ts : List Token) : (takeIn {} ts).entries table = (lexemesOf kind ts).eraseDups := by
  cases table with
  | keyword | separator => cases hgrows
  | number =>
    obtain rfl : kind = .number := TokenKind.eq_of_table? hk rfl
    exact SymbolTable.entries_internAll _
  | identifier =>
    obtain rfl : kind = .identifier := TokenKind.eq_of_table? hk rfl
    exact SymbolTable.entries_internAll _

theorem nodup_entries_takeIn (ts : List Token) (table : TableKind) :
    ((takeIn {} ts).entries table).Nodup := by
  cases table with
  | keyword => exact nodup_entries_empty .keyword
  | separator => exact nodup_entries_empty .separator
  | number =>
    have hk : TokenKind.number.table? = some .number := rfl
    rw [entries_takeIn hk rfl]
    exact nodup_eraseDups _
  | identifier =>
    have hk : TokenKind.identifier.table? = some .identifier := rfl
    rw [entries_takeIn hk rfl]
    exact nodup_eraseDups _

end Vocabulary

namespace Analysis

variable {a : Analysis} {ts : List Token}

/-- The positions in a table that grows come up in order. -/
theorem AccountsFor.eraseDups_positionsIn (h : a.AccountsFor ts) {table : TableKind}
    (hgrows : table.grows = true) : (positionsIn table a.references.toList).eraseDups =
      List.range (a.vocabulary.entries table).length := by
  obtain ⟨kind, hk, herror⟩ : ∃ kind : TokenKind, kind.table? = some table ∧ kind ≠ .error := by
    cases table with
    | keyword | separator => cases hgrows
    | number => exact ⟨.number, rfl, by decide⟩
    | identifier => exact ⟨.identifier, rfl, by decide⟩
  refine Vocabulary.eraseDups_positionsIn hk h.references ?_
  rw [h.vocabulary, Vocabulary.entries_takeIn hk hgrows, lexemesOf_properTokens herror]

/-- No entry of a table that grows is without a reference. -/
theorem AccountsFor.exists_reference (h : a.AccountsFor ts) {table : TableKind}
    (hgrows : table.grows = true) {index : Nat}
    (hindex : index < (a.vocabulary.entries table).length) :
    ∃ r ∈ a.references.toList, r.table = table ∧ r.index = index := by
  have hmem : index ∈ positionsIn table a.references.toList := by
    rw [← List.mem_eraseDups, h.eraseDups_positionsIn hgrows]
    exact List.mem_range.mpr hindex
  simpa [positionsIn, and_assoc] using hmem

end Analysis

/-- The tables that grow hold the distinct lexemes of their tokens, in the order of their first
occurrences. So the references into such a table, each taken when it first comes up, have the
positions from zero on, and every entry has a reference. References into one table, whichever it is,
agree in their positions just when their tokens agree in their lexemes; and the identifiers are
words that are no keywords. -/
theorem tables_list_first_occurrences (text : List Char) :
    ∃ a, Analysis.ofText text = .ok a ∧
      a.vocabulary.numbers.entries = (lexemesOf .number (tokensOf (scanText text))).eraseDups ∧
      a.vocabulary.identifiers.entries =
        (lexemesOf .identifier (tokensOf (scanText text))).eraseDups ∧
      (∀ table, table.grows = true →
        (positionsIn table a.references.toList).eraseDups =
          List.range (a.vocabulary.entries table).length ∧
        ∀ index < (a.vocabulary.entries table).length,
          ∃ r ∈ a.references.toList, r.table = table ∧ r.index = index) ∧
      List.Forall₂ a.vocabulary.Refers a.references.toList
        (properTokens (tokensOf (scanText text))) ∧
      (∀ r t q u,
        (r, t) ∈ a.references.toList.zip (properTokens (tokensOf (scanText text))) →
        (q, u) ∈ a.references.toList.zip (properTokens (tokensOf (scanText text))) →
        r.table = q.table → (r.index = q.index ↔ t.lexeme = u.lexeme)) ∧
      ∀ s ∈ a.vocabulary.identifiers.entries, IsWord s.toList ∧ s ∉ keywords.entries := by
  obtain ⟨a, ha, haccounts⟩ := Analysis.ofText_accountsFor text
  have hnodup : ∀ table, (a.vocabulary.entries table).Nodup := by
    rw [haccounts.vocabulary]
    exact Vocabulary.nodup_entries_takeIn _
  refine ⟨a, ha, ?_, ?_, ?_, haccounts.references, ?_, ?_⟩
  · rw [haccounts.vocabulary]
    have hk : TokenKind.number.table? = some .number := rfl
    exact Vocabulary.entries_takeIn hk rfl _
  · rw [haccounts.vocabulary]
    have hk : TokenKind.identifier.table? = some .identifier := rfl
    exact Vocabulary.entries_takeIn hk rfl _
  · intro table hgrows
    exact ⟨haccounts.eraseDups_positionsIn hgrows, fun _ => haccounts.exists_reference hgrows⟩
  · intro r t q u hr hq hsame
    have hrt := (List.forall₂_iff_zip.mp haccounts.references).2 hr
    have hqu := (List.forall₂_iff_zip.mp haccounts.references).2 hq
    exact hrt.index_eq_iff hqu (hnodup r.table) hsame
  · intro s hs
    obtain ⟨t, ht, hk, rfl⟩ := (haccounts.mem_identifiers s).mp hs
    have hcovers := (sound_of_mem_scanLines 1 .normal {} (lines text) t ht).covers
    rw [hk] at hcovers
    refine ⟨hcovers.1, fun hkeyword => hcovers.2 ?_⟩
    rwa [IsKeyword, String.ofList_toList]

/-- Numbers and identifiers come up again, between a keyword and a stray character. -/
theorem tables_list_first_occurrences_repeated :
    let text := "b 7 begin /* z */ a # 7\nb 8".toList
    ∃ a, Analysis.ofText text = .ok a ∧ a.vocabulary.identifiers.entries = ["b", "a"] ∧
      (positionsIn .identifier a.references.toList).eraseDups = [0, 1] ∧
      (∃ r ∈ a.references.toList, r.table = .identifier ∧ r.index = 1) ∧
      (∃ r ∈ a.references.toList, ∃ q ∈ a.references.toList, r.line = 1 ∧ q.line = 2 ∧
        (r.index = q.index ↔ "b" = "b")) ∧
      IsWord "a".toList ∧ "a" ∉ keywords.entries := by
  intro text
  obtain ⟨a, ha, _, hidentifiers, hgrown, _, hagree, hwords⟩ := tables_list_first_occurrences text
  have hlexemes : lexemesOf .identifier (tokensOf (scanText text)) = ["b", "a", "b"] := by
    decide +kernel
  have hentries : a.vocabulary.identifiers.entries = ["b", "a"] := by
    rw [hidentifiers, hlexemes]
    decide
  have htable : a.vocabulary.entries .identifier = ["b", "a"] := hentries
  obtain ⟨hpositions, hreferences⟩ := hgrown .identifier rfl
  rw [htable] at hpositions hreferences
  let r : Reference := ⟨1, .identifier, 0⟩
  let q : Reference := ⟨2, .identifier, 0⟩
  let t : Token := ⟨.identifier, "b", ⟨1, 1⟩⟩
  let u : Token := ⟨.identifier, "b", ⟨2, 1⟩⟩
  have hpairs : (Analysis.ofText text).toOption.all (fun a =>
      let pairs := a.references.toList.zip (properTokens (tokensOf (scanText text)))
      (r, t) ∈ pairs ∧ (q, u) ∈ pairs) = true := by
    decide +kernel
  obtain ⟨hr, hq⟩ : (r, t) ∈ a.references.toList.zip (properTokens (tokensOf (scanText text))) ∧
      (q, u) ∈ a.references.toList.zip (properTokens (tokensOf (scanText text))) := by
    simpa [ha, Except.toOption] using hpairs
  exact ⟨a, ha, hentries, hpositions, hreferences 1 (by decide),
    ⟨r, (List.of_mem_zip hr).1, q, (List.of_mem_zip hq).1, rfl, rfl, hagree r t q u hr hq rfl⟩,
    hwords "a" (by simp [hentries])⟩

end LexicalAnalyzer
