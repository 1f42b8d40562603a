import LexicalAnalyzer.Proofs.Diagnosis
import Mathlib.Data.List.Nodup

/-!
How far the scanner looks ahead. Between two lexemes of which the longer goes on with the shorter
there is always one at most two characters longer than the shorter, so the text from the second
character behind a token on has no say in where the token ends. Two lines that begin alike have the
same tokens up to two characters before the place where they part, and the same things are wrong
with them.
-/
namespace LexicalAnalyzer

theorem IsWord.of_isPrefix {u v : List Char} (hv : IsWord v) (hu : u <+: v) (hne : u ≠ []) :
    IsWord u := by
  cases v with
  | nil => exact hv.elim
  | cons c cs =>
    obtain ⟨t, rfl, ht⟩ := cons_of_isPrefix hu hne
    exact ⟨hv.1, fun x hx => hv.2 x (ht.subset hx)⟩

/-- The first two characters tell whether a text starts as numerals do. -/
theorem StartsNumeral.take {v : List Char} (h : StartsNumeral v) {n : Nat} (hn : 2 ≤ n) :
    StartsNumeral (v.take n) := by
  obtain ⟨n, rfl⟩ := Nat.exists_eq_add_of_le hn
  cases v with
  | nil => exact h.elim
  | cons c cs =>
    rw [Nat.add_comm 2, List.take_succ_cons]
    rcases h with hd | ⟨rfl, d, hd, hdig⟩
    · exact .inl hd
    · obtain ⟨more, rfl⟩ := List.head?_eq_some_iff.mp hd
      exact .inr ⟨rfl, d, rfl, hdig⟩

/-- Two characters or more of a numeral's body are a numeral. -/
theorem isNumeral_take {body r : List Char} (hs : StartsNumeral (body ++ r))
    (hb : ∀ c ∈ body, isNumeralChar c = true) {n : Nat} (h2 : 2 ≤ n) (hn : n ≤ body.length) :
    IsNumeral ((body ++ r).take n) := by
  have hstarts := hs.take h2
  refine ⟨hstarts, ?_⟩
  rw [List.take_append_of_le_length hn] at hstarts ⊢
  exact .plain _ hstarts.ne_nil fun c hc => hb c (List.mem_of_mem_take hc)

/-- A part of a numeral that ends in front of its sign is a numeral, and so is one that goes on for
a digit behind the sign. -/
theorem IsNumeral.exists_between {v : List Char} (hv : IsNumeral v) {k : Nat}
    (hk : k + 2 < v.length) :
    ∃ u, u <+: v ∧ IsNumeral u ∧ k < u.length ∧ u.length ≤ k + 2 := by
  have hlength : (v.take (k + 2)).length = k + 2 := List.length_take_of_le (by omega)
  have cut : IsNumeral (v.take (k + 2)) →
      ∃ u, u <+: v ∧ IsNumeral u ∧ k < u.length ∧ u.length ≤ k + 2 := fun h =>
    ⟨_, List.take_prefix _ _, h, by omega, by omega⟩
  obtain ⟨hstarts, hshape⟩ := hv
  cases hshape with
  | plain _ _ hb =>
    apply cut
    have h := isNumeral_take (r := []) (by simpa using hstarts) hb (n := k + 2) (by omega)
      (by omega)
    rwa [List.append_nil] at h
  | suffixed body suffix _ hb _ =>
    simp only [List.length_append, List.length_singleton] at hk
    exact cut (isNumeral_take hstarts hb (by omega) (by omega))
  | signed body digits mark sign digit hb hm hs hd hds =>
    have hmarked : (body ++ [mark]).length = body.length + 1 := by simp
    by_cases hshort : k + 2 ≤ body.length + 1
    · exact cut (isNumeral_take hstarts hb (by omega) (by omega))
    · by_cases hsign : k = body.length
      · -- the sign alone is no end of a numeral, so the body ends here
        refine ⟨body ++ [mark], List.prefix_append _ _, ⟨?_, .plain _ (by simp) hb⟩, ?_, ?_⟩
        · have hbody := hstarts.body
          rw [List.takeWhile_append_of_pos hb] at hbody
          simpa [isNumeralChar_eq_false_of_isSign hs] using hbody
        · omega
        · omega
      · obtain ⟨j, rfl⟩ : ∃ j, k = body.length + 1 + j := ⟨k - (body.length + 1), by omega⟩
        apply cut
        refine ⟨hstarts.take (by omega), ?_⟩
        have htake : (body ++ [mark] ++ sign :: digit :: digits).take (body.length + 1 + j + 2) =
            body ++ [mark] ++ sign :: digit :: digits.take j := by
          rw [← hmarked, Nat.add_assoc, List.take_length_add_append]
          rfl
        rw [htake]
        exact .signed body _ mark sign digit hb hm hs hd fun c hc =>
          hds c (List.mem_of_mem_take hc)

/-- Lexemes grow by two characters at most. -/
theorem IsLexeme.exists_between {v : List Char} (hv : IsLexeme v) {k : Nat} (hk : k < v.length) :
    ∃ u, u <+: v ∧ IsLexeme u ∧ k < u.length ∧ u.length ≤ k + 2 := by
  by_cases hshort : v.length ≤ k + 2
  · exact ⟨v, List.prefix_rfl, hv, hk, hshort⟩
  · have hlong : k + 2 < v.length := by omega
    rcases hv with hv | hv | hv
    · have hlength : (v.take (k + 2)).length = k + 2 := List.length_take_of_le (by omega)
      have hne : v.take (k + 2) ≠ [] := List.ne_nil_of_length_pos (by omega)
      exact ⟨_, List.take_prefix _ _, .inl (hv.of_isPrefix (List.take_prefix _ _) hne), by omega,
        by omega⟩
    · obtain ⟨u, hu, hn, hlt, hle⟩ := hv.exists_between hlong
      exact ⟨u, hu, .inr (.inl hn), hlt, hle⟩
    · have hpair := IsSeparator.of_entries (P := fun w => w.length ≤ 2) (by decide) hv
      omega

section Continuations

variable {p r w : List Char}

/-- A lexeme in front of a text has one within the first part of the text that is longer than a
given length, too, if the part is longer by two characters. -/
theorem exists_lexeme_within {v : List Char} (hv : IsLexeme v) (hp : v <+: p ++ r) {k : Nat}
    (hk : k < v.length) (hkp : k + 2 ≤ p.length) :
    ∃ u, u <+: p ∧ IsLexeme u ∧ k < u.length := by
  obtain ⟨u, hu, hl, hlt, hle⟩ := hv.exists_between hk
  exact ⟨u, List.prefix_of_prefix_length_le (hu.trans hp) (List.prefix_append p r) (by omega), hl,
    hlt⟩

/-- What is munched two characters or more before the end of a part of a text is munched whatever
that part goes on with. -/
theorem Munches.of_common (hm : Munches w (p ++ r)) (h : w.length + 2 ≤ p.length)
    (r' : List Char) : Munches w (p ++ r') := by
  generalize ht : p ++ r = text at hm
  cases hm with
  | lexeme hp hw longest =>
    subst ht
    have hwp : w <+: p :=
      List.prefix_of_prefix_length_le hp (List.prefix_append p r) (by omega)
    refine .lexeme (hwp.trans (List.prefix_append p r')) hw fun v hv hlv => ?_
    by_contra hlt
    obtain ⟨u, hu, hlu, hlonger⟩ := exists_lexeme_within hlv hv (Nat.lt_of_not_le hlt) h
    have hmax := longest u (hu.trans (List.prefix_append p r)) hlu
    omega
  | @stray c cs none =>
    cases p with
    | nil => simp at h
    | cons x p =>
      obtain ⟨rfl, rfl⟩ := List.cons.inj ht
      refine .stray fun v hv hlv => ?_
      have hpos : 0 < v.length := List.length_pos_iff.mpr hlv.ne_nil
      obtain ⟨u, hu, hlu, _⟩ := exists_lexeme_within (p := x :: p) hlv hv hpos
        (by simp only [List.length_cons, List.length_nil] at h ⊢; omega)
      exact none u (hu.trans (List.prefix_append (x :: p) r)) hlu

/-- In front of two texts that begin alike the same is munched, unless what is munched goes on into
the last two characters of the common part in both. -/
theorem Munches.eq_or_late {r' w' : List Char} (hm : Munches w (p ++ r))
    (hm' : Munches w' (p ++ r')) :
    (w = w' ∧ ∃ more, p = w ++ more) ∨
      p.length < w.length + 2 ∧ p.length < w'.length + 2 := by
  by_cases h : w.length + 2 ≤ p.length
  · obtain ⟨more, rfl⟩ : w <+: p :=
      List.prefix_of_prefix_length_le hm.isPrefix (List.prefix_append p r) (by omega)
    exact .inl ⟨(hm.of_common h r').unique hm', more, rfl⟩
  · refine .inr ⟨Nat.lt_of_not_le h, Nat.lt_of_not_le fun h' => h ?_⟩
    obtain rfl := (hm'.of_common h' r).unique hm
    exact h'

end Continuations

/-- How many characters of its line lie in front of the end of a token. -/
def Token.endOffset (t : Token) : Nat := t.position.column - 1 + t.lexeme.length

/-- The tokens that end two characters or more before a place on their line, which is given by the
number of characters in front of it. -/
def settledBefore (n : Nat) (ts : List Token) : List Token :=
  ts.filter fun t => t.endOffset + 2 ≤ n

namespace LineReading

variable {line column n : Nat} {mode last last' : Mode} {text p r r' : List Char}
  {ts ts' : List Token}

/-- A token has a character at least, so none is settled two characters before the place. -/
theorem settledBefore_eq_nil (h : LineReading line mode column text ts last) (hc : 1 ≤ column)
    (hn : n ≤ column + 1) : settledBefore n ts = [] := by
  refine List.filter_eq_nil_iff.mpr fun t ht => ?_
  have hcolumn := (h.ordered.1 t ht).2
  have hlength : 0 < t.lexeme.toList.length :=
    List.length_pos_iff.mpr (h.sound t ht).munches.ne_nil
  rw [String.length_toList] at hlength
  have hlate : ¬ t.endOffset + 2 ≤ n := by
    rw [Token.endOffset]
    omega
  simpa using hlate

theorem settledBefore_cons (t : Token) (ts : List Token) :
    settledBefore n (t :: ts) =
      if t.endOffset + 2 ≤ n then t :: settledBefore n ts else settledBefore n ts := by
  simp [settledBefore, List.filter_cons]

/-- A token that goes on into the last two characters before the place is not settled, nor is any
token behind it. -/
theorem settledBefore_token_eq_nil {w : List Char} {kind : TokenKind} (hc : 1 ≤ column)
    (hn : n + 1 < column + w.length + 2)
    (h : LineReading line .normal (column + w.length) text ts last) :
    settledBefore n (⟨kind, .ofList w, ⟨line, column⟩⟩ :: ts) = [] := by
  have hlate : ¬ (column - 1 + (String.ofList w).length + 2 ≤ n) := by
    rw [String.length_ofList]
    omega
  rw [settledBefore_cons, Token.endOffset, if_neg hlate]
  exact h.settledBefore_eq_nil (by omega) (by omega)

/-- Texts that begin with the same part have the same tokens settled before its end. -/
theorem settledBefore_eq (h : LineReading line mode column (p ++ r) ts last)
    (h' : LineReading line mode column (p ++ r') ts' last') (hc : 1 ≤ column)
    (hn : n + 1 = column + p.length) : settledBefore n ts = settledBefore n ts' := by
  induction hlen : p.length using Nat.strong_induction_on
    generalizing p mode column ts ts' last last' with
  | _ len ih =>
    by_cases hshort : p.length ≤ 2
    · rw [h.settledBefore_eq_nil hc (by omega), h'.settledBefore_eq_nil hc (by omega)]
    · rcases p with - | ⟨a, - | ⟨b, q⟩⟩
      · simp at hshort
      · simp at hshort
      simp only [List.length_cons] at hn hlen
      -- two characters decide on the rule by which a reading begins, so both begin by the same one
      cases h with
      | space h =>
        cases h' with
        | space h' => exact ih _ (by simp; omega) (p := b :: q) h h' (by omega) (by simp; omega) rfl
        | token _ hs _ _ _ _ => exact absurd rfl (hs ' ' rfl)
      | opening h =>
        cases h' with
        | opening h' => exact ih _ (by omega) h h' (by omega) (by omega) rfl
        | token _ _ ho _ _ _ => exact absurd ⟨q ++ r', rfl⟩ ho
      | @token _ _ w cs kind ts _ ht hs ho hm hk h =>
        cases h' with
        | space _ => exact absurd rfl (hs ' ' rfl)
        | opening _ => exact absurd ⟨q ++ r, rfl⟩ ho
        | @token _ _ w' cs' kind' ts' _ ht' _ _ hm' hk' h' =>
          rcases hm.eq_or_late hm' with ⟨rfl, more, hmore⟩ | ⟨hlate, hlate'⟩
          · obtain rfl := hk.unique hk'
            rw [hmore, List.append_assoc] at ht ht'
            obtain rfl := List.append_cancel_left ht
            obtain rfl := List.append_cancel_left ht'
            have hw : 0 < w.length := List.length_pos_iff.mpr hm.ne_nil
            have hsum : q.length + 1 + 1 = w.length + more.length := by
              simpa using congrArg List.length hmore
            rw [settledBefore_cons, settledBefore_cons,
              ih _ (by omega) h h' (by omega) (by omega) rfl]
          · simp only [List.length_cons] at hlate hlate'
            rw [settledBefore_token_eq_nil hc (by omega) h,
              settledBefore_token_eq_nil hc (by omega) h']
      | closing h =>
        cases h' with
        | closing h' => exact ih _ (by omega) h h' (by omega) (by omega) rfl
        | inside hx _ => exact absurd ⟨q ++ r', rfl⟩ hx
      | inside hx h =>
        cases h' with
        | closing _ => exact absurd ⟨q ++ r, rfl⟩ hx
        | inside _ h' =>
          exact ih _ (by simp; omega) (p := b :: q) h h' (by omega) (by simp; omega) rfl

end LineReading

/-- Tokens in reading order have places of their own. -/
theorem Token.position_inj {ts : List Token} (h : ts.Pairwise Token.Precedes) {s t : Token}
    (hs : s ∈ ts) (ht : t ∈ ts) (hp : s.position = t.position) : s = t := by
  have hnodup : (ts.map (·.position)).Nodup := by
    rw [List.Nodup, List.pairwise_map]
    refine h.imp ?_
    rintro s t hlt he
    simp [Token.Precedes, he, Position.compare_eq_lt_iff] at hlt
  exact List.inj_on_of_nodup_map hnodup hs ht hp

/-- The diagnostics in the places of some of the tokens are what is wrong with these. -/
theorem filter_diagnostics {ts : List Token} (h : ts.Pairwise Token.Precedes)
    (chosen : Token → Bool) :
    (ts.filterMap Token.diagnostic?).filter
        (fun d => d.position ∈ (ts.filter chosen).map (·.position)) =
      (ts.filter chosen).filterMap Token.diagnostic? := by
  rw [List.filter_filterMap, List.filterMap_filter]
  refine List.filterMap_congr fun t ht => ?_
  have hmem : t.position ∈ (ts.filter chosen).map (·.position) ↔ chosen t = true := by
    rw [List.mem_map]
    constructor
    · rintro ⟨s, hs, hp⟩
      obtain ⟨hs, hchosen⟩ := List.mem_filter.mp hs
      rwa [← Token.position_inj h hs ht hp]
    · intro hchosen
      exact ⟨t, List.mem_filter.mpr ⟨ht, hchosen⟩, rfl⟩
  cases hd : t.diagnostic? with
  | none => simp
  | some d =>
    simp only [Option.filter_some, Token.position_of_diagnostic? hd, hmem]
    by_cases hchosen : chosen t = true <;> simp [hchosen]

/-- The scanner looks two characters ahead and no farther. Two lines that begin with the same part
have the same tokens, with the same diagnostics in their places, among those that end two characters
or more before the end of that part; what the lines go on with concerns later tokens only. -/
theorem lookahead_le_two (common behind behind' : List Char) (line : Nat) (mode : Mode)
    (report report' : Report) :
    let one := scanLine (common ++ behind) line mode report
    let other := scanLine (common ++ behind') line mode report'
    let settled := settledBefore common.length
    settled one.tokens = settled other.tokens ∧
    ∃ ds es, one.report.toList = report.toList ++ ds ∧
      other.report.toList = report'.toList ++ es ∧
      ds.filter (fun d => d.position ∈ (settled one.tokens).map (·.position)) =
        es.filter (fun d => d.position ∈ (settled other.tokens).map (·.position)) := by
  intro one other settled
  have hone : LineReading line mode 1 (common ++ behind) one.tokens one.mode :=
    lineReading_scanLine _ line mode report
  have hother : LineReading line mode 1 (common ++ behind') other.tokens other.mode :=
    lineReading_scanLine _ line mode report'
  have hsame : settled one.tokens = settled other.tokens :=
    hone.settledBefore_eq hother (Nat.le_refl 1) (Nat.add_comm _ 1)
  have hdiagnostics : ∀ {ts : List Token}, ts.Pairwise Token.Precedes →
      (ts.filterMap Token.diagnostic?).filter
          (fun d => d.position ∈ (settled ts).map (·.position)) =
        (settled ts).filterMap Token.diagnostic? := fun h => filter_diagnostics h _
  refine ⟨hsame, one.tokens.filterMap Token.diagnostic?, other.tokens.filterMap Token.diagnostic?,
    toList_report_scanLine .., toList_report_scanLine .., ?_⟩
  rw [hdiagnostics hone.ordered.2, hdiagnostics hother.ordered.2, hsame]

/-- One character would not do: `1E` ends one character before the end of the common part `1E+`. -/
example :
    let token : Token := ⟨.number, "1E", ⟨1, 1⟩⟩
    token.endOffset + 1 = "1E+".length ∧
    token ∈ (scanLine "1E+x".toList 1 .normal {}).tokens ∧
    token ∉ (scanLine "1E+5".toList 1 .normal {}).tokens := by decide +kernel

end LexicalAnalyzer
