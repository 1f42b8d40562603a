import LexicalAnalyzer.Proofs.LineReading
import LexicalAnalyzer.Scan.Source

/-!
How a source text reads as a whole. Every token of it is munched by itself and has the kind of its
lexeme, tokens stand on the lines that they are found on, in reading order, and the report is what
is wrong with the tokens, one after another.
-/
namespace LexicalAnalyzer

theorem Position.compare_eq_lt_iff (p q : Position) :
    compare p q = .lt ↔ p.line < q.line ∨ p.line = q.line ∧ p.column < q.column := by
  change (compare p.line q.line).then (compare p.column q.column) = .lt ↔ _
  rw [Ordering.then_eq_lt, Nat.compare_eq_lt, Nat.compare_eq_eq, Nat.compare_eq_lt]

/-- A token is read before another one. -/
def Token.Precedes (s t : Token) : Prop := compare s.position t.position = .lt

/-- What holds of every token of a scan, wherever it stands. -/
structure Token.Sound (t : Token) : Prop where
  munches : Munches t.lexeme.toList t.lexeme.toList
  covers : t.kind.Covers t.lexeme.toList
  head_ne_space : ∀ c ∈ t.lexeme.toList.head?, c ≠ ' '

/-- A character by itself is a lexeme, unless it has no class. -/
theorem class_eq_invalid_of_not_isLexeme {c : Char} (h : ¬ IsLexeme [c]) :
    CharClass.of c = .invalid := by
  cases hclass : CharClass.of c with
  | digit =>
    have hd : c.isDigit = true := isDigit_of_class hclass
    have hshape : NumeralShape [c] :=
      .plain [c] (by simp) (by simpa using isNumeralChar_of_isDigit hd)
    exact absurd (.inr (.inl ⟨.inl hd, hshape⟩)) h
  | letter =>
    have hc : c.isAlpha = true := by grind [CharClass.of]
    exact absurd (.inl ⟨hc, by simp⟩) h
  | separator =>
    have hc : isSeparatorChar c = true := by grind [CharClass.of]
    exact absurd (.inr (.inr (isSeparator_singleton hc))) h
  | invalid => rfl

/-- A token that is no error is a lexeme. -/
theorem Token.Sound.isLexeme {t : Token} (h : t.Sound) (he : t.kind ≠ .error) :
    IsLexeme t.lexeme.toList := by
  have hk := h.covers
  cases hkind : t.kind with
  | keyword =>
    rw [hkind] at hk
    exact .inl (isWord_of_isKeyword hk)
  | identifier =>
    rw [hkind] at hk
    exact .inl hk.1
  | separator =>
    rw [hkind] at hk
    exact .inr (.inr hk)
  | number =>
    rw [hkind] at hk
    exact .inr (.inl hk)
  | error => exact absurd hkind he

/-- An error token is one character of no class, and no space. -/
theorem Token.Sound.of_error {t : Token} (h : t.Sound) (he : t.kind = .error) :
    ∃ c, t.lexeme.toList = [c] ∧ c ≠ ' ' ∧ CharClass.of c = .invalid := by
  obtain ⟨hm, hk, hs⟩ := h
  rw [he] at hk
  generalize t.lexeme.toList = w at hm hk hs
  cases hm with
  | lexeme _ hw _ => exact absurd hw hk
  | @stray c cs _ => exact ⟨c, rfl, hs c rfl, class_eq_invalid_of_not_isLexeme hk⟩

namespace LineReading

variable {line column : Nat} {mode last : Mode} {text : List Char} {ts : List Token}

theorem sound (h : LineReading line mode column text ts last) : ∀ t ∈ ts, t.Sound := by
  induction h with
  | done => simp
  | space _ ih => exact ih
  | opening _ ih => exact ih
  | @token column text w cs kind ts last ht hs ho hm hk _ ih =>
    intro t hmem
    rcases List.mem_cons.mp hmem with rfl | hmem
    · have hw : (String.ofList w).toList = w := String.toList_ofList
      refine ⟨?_, ?_, ?_⟩
      · rw [hw]
        exact hm.self
      · rwa [hw]
      · rw [hw]
        intro c hc
        obtain ⟨x, more, rfl⟩ := List.exists_cons_of_ne_nil hm.ne_nil
        subst ht
        exact hs c hc
    · exact ih t hmem
  | closing _ ih => exact ih
  | inside _ _ ih => exact ih

/-- The tokens of a line stand on it, from the column on in which its text starts, in order. -/
theorem ordered (h : LineReading line mode column text ts last) :
    (∀ t ∈ ts, t.position.line = line ∧ column ≤ t.position.column) ∧
      ts.Pairwise Token.Precedes := by
  have further : ∀ {a b : Nat} {ts : List Token}, a ≤ b →
      (∀ t ∈ ts, t.position.line = line ∧ b ≤ t.position.column) →
      ∀ t ∈ ts, t.position.line = line ∧ a ≤ t.position.column := by
    intro a b ts hab h t ht
    exact ⟨(h t ht).1, Nat.le_trans hab (h t ht).2⟩
  induction h with
  | done => simp
  | space _ ih => exact ⟨further (Nat.le_add_right _ 1) ih.1, ih.2⟩
  | opening _ ih => exact ⟨further (Nat.le_add_right _ 2) ih.1, ih.2⟩
  | @token column text w cs kind ts last _ _ _ hm _ _ ih =>
    have hw : 0 < w.length := List.length_pos_iff.mpr hm.ne_nil
    have hbehind : ∀ t ∈ ts, t.position.line = line ∧ column + 1 ≤ t.position.column :=
      further (by omega) ih.1
    refine ⟨?_, List.pairwise_cons.mpr ⟨?_, ih.2⟩⟩
    · intro t ht
      rcases List.mem_cons.mp ht with rfl | ht
      · exact ⟨rfl, Nat.le_refl _⟩
      · exact further (Nat.le_add_right column 1) hbehind t ht
    · intro t ht
      obtain ⟨hline, hcolumn⟩ := hbehind t ht
      exact (Position.compare_eq_lt_iff _ _).mpr (.inr ⟨hline.symm, hcolumn⟩)
  | closing _ ih => exact ⟨further (Nat.le_add_right _ 2) ih.1, ih.2⟩
  | inside _ _ ih => exact ⟨further (Nat.le_add_right _ 1) ih.1, ih.2⟩

end LineReading

/-- The tokens of scanned lines, in reading order. -/
def tokensOf (scanned : List ScannedLine) : List Token := scanned.flatMap (·.scan.tokens)

/-- The tokens of scanned lines, each with the number of the line that it is found on, counted from
a first number. -/
def tokensByLine (first : Nat) (scanned : List ScannedLine) : List (Nat × Token) :=
  (scanned.zipIdx first).flatMap fun (line, number) => line.scan.tokens.map fun t => (number, t)

/-- The report behind scanned lines. -/
def reportBehind (report : Report) (scanned : List ScannedLine) : Report :=
  scanned.foldl (fun _ line => line.scan.report) report

section Lines

variable (number : Nat) (mode : Mode) (report : Report) (texts : List (List Char))

theorem sound_of_mem_scanLines :
    ∀ t ∈ tokensOf (scanLines number mode report texts), t.Sound := by
  induction texts generalizing number mode report with
  | nil => simp [scanLines, tokensOf]
  | cons text texts ih =>
    intro t ht
    rcases List.mem_append.mp ht with ht | ht
    · exact (lineReading_scanLine text number mode report).sound t ht
    · exact ih _ _ _ t ht

theorem line_of_mem_scanLines :
    ∀ t ∈ tokensOf (scanLines number mode report texts), number ≤ t.position.line := by
  induction texts generalizing number mode report with
  | nil => simp [scanLines, tokensOf]
  | cons text texts ih =>
    intro t ht
    rcases List.mem_append.mp ht with ht | ht
    · exact ((lineReading_scanLine text number mode report).ordered.1 t ht).1.ge
    · have hnext := ih (number + 1) _ _ t ht
      omega

theorem pairwise_tokensOf_scanLines :
    (tokensOf (scanLines number mode report texts)).Pairwise Token.Precedes := by
  induction texts generalizing number mode report with
  | nil => simp [scanLines, tokensOf]
  | cons text texts ih =>
    obtain ⟨hline, hpairwise⟩ := (lineReading_scanLine text number mode report).ordered
    refine List.pairwise_append.mpr ⟨hpairwise, ih _ _ _, ?_⟩
    intro s hs t ht
    have hnext := line_of_mem_scanLines (number + 1) _ _ texts t ht
    have hsame := (hline s hs).1
    exact (Position.compare_eq_lt_iff _ _).mpr (.inl (by omega))

/-- Every token stands on the line that it is found on. -/
theorem tokensByLine_scanLines :
    tokensByLine number (scanLines number mode report texts) =
      (tokensOf (scanLines number mode report texts)).map fun t => (t.position.line, t) := by
  induction texts generalizing number mode report with
  | nil => rfl
  | cons text texts ih =>
    have hline := (lineReading_scanLine text number mode report).ordered.1
    have hrest := ih (number + 1) (scanLine text number mode report).mode
      (scanLine text number mode report).report
    simp only [scanLines, tokensByLine, tokensOf, List.zipIdx_cons, List.flatMap_cons,
      List.map_append] at hrest ⊢
    rw [hrest]
    congr 1
    apply List.map_congr_left
    intro t ht
    rw [(hline t ht).1]

/-- The report of a scan is the report handed in and what is wrong with the tokens, in order. -/
theorem reportBehind_scanLines :
    reportBehind report (scanLines number mode report texts) = report.recordAll
      ((tokensOf (scanLines number mode report texts)).filterMap Token.diagnostic?) := by
  induction texts generalizing number mode report with
  | nil => rfl
  | cons text texts ih =>
    rw [scanLines, tokensOf, List.flatMap_cons, List.filterMap_append, Report.recordAll_append,
      ← report_scanLine]
    exact ih _ _ _

end Lines

end LexicalAnalyzer
