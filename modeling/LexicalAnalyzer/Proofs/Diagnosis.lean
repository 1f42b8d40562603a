import LexicalAnalyzer.Failure
import LexicalAnalyzer.Proofs.Interning

/-!
The report of an analysis, told by the tokens. Error tokens and malformed numerals are reported and
nothing else is, each once, in the place of its token and in reading order. Whether an analysis is
clean can therefore be seen from its tokens and its number table.
-/
namespace LexicalAnalyzer

theorem Token.position_of_diagnostic? {t : Token} {d : Diagnostic} (h : t.diagnostic? = some d) :
    d.position = t.position := by
  obtain ⟨kind, lexeme, position⟩ := t
  cases kind with
  | error =>
    obtain rfl := Option.some.inj h
    rfl
  | number =>
    by_cases hv : isValidNumeral lexeme.toList = true
    · simp [Token.diagnostic?, hv] at h
    · simp only [Token.diagnostic?, hv] at h
      obtain rfl := Option.some.inj h
      rfl
  | keyword => cases h
  | identifier => cases h
  | separator => cases h

theorem Token.diagnostic?_eq_none_iff (t : Token) :
    t.diagnostic? = none ↔
      t.kind ≠ .error ∧ (t.kind = .number → isValidNumeral t.lexeme.toList = true) := by
  obtain ⟨kind, lexeme, position⟩ := t
  cases kind <;> simp [Token.diagnostic?]

/-- In front of a character that can start a separator no error token is made. -/
theorem Lexer.readSeparator_ne_error {lx : Lexer}
    (h : lx.rest.head?.map CharClass.of = some .separator) :
    lx.readSeparator.1 ≠ some .error := by
  unfold readSeparator
  split
  · simp
  · simp
  · simp
  · simp
  · -- a dot is followed by a digit or stands alone
    split
    · simp [readNumeral]
    · simp
  · -- the branch for other characters is the only one that makes an error token
    rename_i c cs _ _ _ _ _ hr
    have hc : isSeparatorChar c = true := by
      simp only [hr, List.head?_cons, Option.map_some, Option.some.injEq] at h
      grind [CharClass.of]
    rw [if_pos hc]
    simp
  · rename_i hr
    simp [hr] at h

theorem Report.hasErrors_eq_false_iff (r : Report) : r.hasErrors = false ↔ r.toList = [] := by
  simp [Report.hasErrors, Report.toList]

theorem Report.size_eq_length (r : Report) : r.size = r.toList.length := by
  simp [Report.size, Report.toList]

/-- Tokens in reading order are reported in reading order. -/
theorem pairwise_diagnostics {ts : List Token} (h : ts.Pairwise Token.Precedes) :
    ((ts.filterMap Token.diagnostic?).map (·.position)).Pairwise
      fun p q => compare p q = .lt := by
  rw [List.pairwise_map]
  refine h.filterMap _ fun s t hst d hd e he => ?_
  rw [Token.position_of_diagnostic? hd, Token.position_of_diagnostic? he]
  exact hst

namespace Analysis

variable {a : Analysis} {ts : List Token}

/-- An analysis has nothing to report when no token is an error and the number table holds proper
numerals only. -/
theorem hasErrors_eq_false_iff (h : a.AccountsFor ts) :
    a.hasErrors = false ↔ (∀ t ∈ ts, t.kind ≠ .error) ∧
      ∀ s ∈ a.vocabulary.numbers.entries, isValidNumeral s.toList = true := by
  rw [hasErrors, Report.hasErrors_eq_false_iff, h.report, List.filterMap_eq_nil_iff]
  simp only [Token.diagnostic?_eq_none_iff, h.mem_numbers]
  constructor
  · intro hall
    refine ⟨fun t ht => (hall t ht).1, ?_⟩
    rintro _ ⟨t, ht, hk, rfl⟩
    exact (hall t ht).2 hk
  · rintro ⟨herror, hnumber⟩ t ht
    exact ⟨herror t ht, fun hk => hnumber _ ⟨t, ht, hk, rfl⟩⟩

theorem requireClean_eq (a : Analysis) :
    a.requireClean = if a.hasErrors = false then .ok ()
      else .error (.lexical a.report.toList.length) := by
  cases he : a.hasErrors <;> simp [requireClean, he, Report.size_eq_length]

end Analysis

/-- Diagnostics are exact, complete and in order. A scan leaves the report handed in as it is and
adds what is wrong with its tokens; an error token is one character of no class, so the reading of
separators makes none. The report of a text is what is wrong with its tokens, in strictly ascending
places, and the analysis is clean just when there is no error token and every entry of the number
table is a numeral of some format. -/
theorem report_diagnoses (text : List Char) :
    (∀ chars line mode report, (scanLine chars line mode report).report.toList = report.toList ++
      (scanLine chars line mode report).tokens.filterMap Token.diagnostic?) ∧
    (∀ lx : Lexer, lx.rest.head?.map CharClass.of = some .separator →
      lx.readSeparator.1 ≠ some .error) ∧
    (∀ t ∈ tokensOf (scanText text), t.kind = .error →
      ∃ c, t.lexeme.toList = [c] ∧ c ≠ ' ' ∧ CharClass.of c = .invalid) ∧
    ∃ a, Analysis.ofText text = .ok a ∧
      a.report.toList = (tokensOf (scanText text)).filterMap Token.diagnostic? ∧
      (a.report.toList.map (·.position)).Pairwise (fun p q => compare p q = .lt) ∧
      (a.report.toList.map (·.position)).Nodup ∧
      (a.requireClean = .ok () ↔ (∀ t ∈ tokensOf (scanText text), t.kind ≠ .error) ∧
        ∀ s ∈ a.vocabulary.numbers.entries, isValidNumeral s.toList = true) ∧
      (a.requireClean ≠ .ok () →
        a.requireClean = .error (.lexical a.report.toList.length)) := by
  refine ⟨?_, fun lx => Lexer.readSeparator_ne_error, ?_, ?_⟩
  · intro chars line mode report
    rw [report_scanLine, Report.toList_recordAll]
  · intro t ht he
    exact (sound_of_mem_scanLines 1 .normal {} (lines text) t ht).of_error he
  · obtain ⟨a, ha, haccounts⟩ := Analysis.ofText_accountsFor text
    have hpairwise : (a.report.toList.map (·.position)).Pairwise fun p q => compare p q = .lt := by
      rw [haccounts.report]
      exact pairwise_diagnostics (pairwise_tokensOf_scanLines 1 .normal {} (lines text))
    refine ⟨a, ha, haccounts.report, hpairwise, ?_, ?_, ?_⟩
    · refine hpairwise.imp ?_
      rintro p _ hlt rfl
      simp [Position.compare_eq_lt_iff] at hlt
    · rw [← Analysis.hasErrors_eq_false_iff haccounts, Analysis.requireClean_eq]
      cases a.hasErrors <;> simp
    · intro hne
      rw [Analysis.requireClean_eq] at hne ⊢
      cases he : a.hasErrors <;> simp [he] at hne ⊢

/-- A stray character and a numeral with a bare exponent are reported, what the comment holds is
not. -/
theorem report_diagnoses_stray :
    let text := "x/*#é*/@1E".toList
    let t : Token := ⟨.error, "@", ⟨1, 8⟩⟩
    let pair := Lexer.ofLine "<>@".toList 1 .normal {}
    t ∈ tokensOf (scanText text) ∧ (∃ c, t.lexeme.toList = [c] ∧ c ≠ ' ' ∧
      CharClass.of c = .invalid) ∧
    pair.rest.head?.map CharClass.of = some .separator ∧ pair.readSeparator.1 ≠ some .error ∧
    ∃ a, Analysis.ofText text = .ok a ∧ a.requireClean ≠ .ok () ∧
      a.requireClean = .error (.lexical 2) := by
  intro text t pair
  have ht : t ∈ tokensOf (scanText text) := by decide +kernel
  have hpair : pair.rest.head?.map CharClass.of = some .separator := by decide
  have hcount : ((tokensOf (scanText text)).filterMap Token.diagnostic?).length = 2 := by
    decide +kernel
  obtain ⟨_, hseparator, hstray, a, ha, hreport, _, _, hclean, hfails⟩ := report_diagnoses text
  have hne : a.requireClean ≠ .ok () := fun hok => (hclean.mp hok).1 t ht rfl
  refine ⟨ht, hstray t ht rfl, hpair, hseparator pair hpair, a, ha, hne, ?_⟩
  rw [hfails hne, hreport, hcount]

end LexicalAnalyzer
