import LexicalAnalyzer.Proofs.Lexing

/-!
How a line reads, as a derivation over its characters. The rules know the two modes, the space, the
edges of comments and the longest lexeme, but no cursor and no report. A line reads in one way, the
scan of the line reads it so, and its report follows from the tokens: laws of the scan are proved by
induction over this derivation.
-/
namespace LexicalAnalyzer

/-- `LineReading line mode column text tokens last`: the text, which starts in a column of a line
and in a mode, reads as these tokens and leaves the last mode behind. -/
inductive LineReading (line : Nat) : Mode → Nat → List Char → List Token → Mode → Prop where
  | done (mode : Mode) (column : Nat) : LineReading line mode column [] [] mode
  | space {column : Nat} {cs : List Char} {ts : List Token} {last : Mode}
      (h : LineReading line .normal (column + 1) cs ts last) :
      LineReading line .normal column (' ' :: cs) ts last
  | opening {column : Nat} {cs : List Char} {ts : List Token} {last : Mode}
      (h : LineReading line .comment (column + 2) cs ts last) :
      LineReading line .normal column ('/' :: '*' :: cs) ts last
  | token {column : Nat} {text w cs : List Char} {kind : TokenKind} {ts : List Token}
      {last : Mode} (ht : text = w ++ cs) (hs : ∀ c ∈ text.head?, c ≠ ' ')
      (ho : ¬ ['/', '*'] <+: text) (hm : Munches w text) (hk : kind.Covers w)
      (h : LineReading line .normal (column + w.length) cs ts last) :
      LineReading line .normal column text (⟨kind, .ofList w, ⟨line, column⟩⟩ :: ts) last
  | closing {column : Nat} {cs : List Char} {ts : List Token} {last : Mode}
      (h : LineReading line .normal (column + 2) cs ts last) :
      LineReading line .comment column ('*' :: '/' :: cs) ts last
  | inside {column : Nat} {c : Char} {cs : List Char} {ts : List Token} {last : Mode}
      (hc : ¬ ['*', '/'] <+: c :: cs) (h : LineReading line .comment (column + 1) cs ts last) :
      LineReading line .comment column (c :: cs) ts last

namespace LineReading

variable {line column : Nat} {mode last : Mode} {text : List Char} {ts : List Token}

/-- A line reads in one way only. -/
theorem unique {ts' : List Token} {last' : Mode} (h : LineReading line mode column text ts last)
    (h' : LineReading line mode column text ts' last') : ts = ts' ∧ last = last' := by
  induction h generalizing ts' last' with
  | done mode column =>
    cases h' with
    | done => exact ⟨rfl, rfl⟩
    | token _ _ _ hm _ _ => exact absurd (List.prefix_nil.mp hm.isPrefix) hm.ne_nil
  | space _ ih =>
    cases h' with
    | space h' => exact ih h'
    | token _ hs _ _ _ _ => exact absurd rfl (hs ' ' rfl)
  | @opening column cs _ _ _ ih =>
    cases h' with
    | opening h' => exact ih h'
    | token _ _ ho _ _ _ => exact absurd ⟨cs, rfl⟩ ho
  | @token column text w cs kind ts last ht hs ho hm hk _ ih =>
    cases h' with
    | done => exact absurd (List.prefix_nil.mp hm.isPrefix) hm.ne_nil
    | space _ => exact absurd rfl (hs ' ' rfl)
    | @opening _ more => exact absurd ⟨more, rfl⟩ ho
    | @token _ _ w' cs' kind' ts' _ ht' _ _ hm' hk' h' =>
      obtain rfl := hm.unique hm'
      obtain rfl := List.append_cancel_left (ht.symm.trans ht')
      obtain rfl := hk.unique hk'
      obtain ⟨rfl, rfl⟩ := ih h'
      exact ⟨rfl, rfl⟩
  | @closing column cs _ _ _ ih =>
    cases h' with
    | closing h' => exact ih h'
    | inside hc _ => exact absurd ⟨cs, rfl⟩ hc
  | @inside column c cs _ _ hc _ ih =>
    cases h' with
    | @closing _ more => exact absurd ⟨more, rfl⟩ hc
    | inside _ h' => exact ih h'

theorem spaces (h : LineReading line .normal (column + (text.takeWhile (· == ' ')).length)
      (text.dropWhile (· == ' ')) ts last) :
    LineReading line .normal column text ts last := by
  induction text generalizing column with
  | nil => exact h
  | cons c cs ih =>
    by_cases hc : c = ' '
    · subst hc
      apply space
      apply ih
      simpa [Nat.add_assoc, Nat.add_comm 1] using h
    · simpa [hc] using h

/-- A comment is read up to the first place where it closes. -/
theorem comment_of_close {n : Nat} (hn : Lexer.closeLength? text = some n)
    (h : LineReading line .normal (column + (text.take n).length) (text.drop n) ts last) :
    LineReading line .comment column text ts last := by
  induction text generalizing column n with
  | nil => simp [Lexer.closeLength?] at hn
  | cons c cs ih =>
    by_cases hc : ['*', '/'] <+: c :: cs
    · rw [Lexer.closeLength?_of_close hc, Option.some.injEq] at hn
      obtain ⟨more, hmore⟩ := hc
      subst hn
      rw [← hmore] at h ⊢
      exact closing h
    · rw [Lexer.closeLength?_cons hc] at hn
      obtain ⟨m, hm, rfl⟩ := Option.map_eq_some_iff.mp hn
      refine inside hc (ih hm ?_)
      simpa [Nat.add_assoc, Nat.add_comm 1] using h

theorem comment_of_open (hn : Lexer.closeLength? text = none) :
    LineReading line .comment column text [] .comment := by
  induction text generalizing column with
  | nil => exact done .comment column
  | cons c cs ih =>
    by_cases hc : ['*', '/'] <+: c :: cs
    · simp [Lexer.closeLength?_of_close hc] at hn
    · rw [Lexer.closeLength?_cons hc] at hn
      exact inside hc (ih (Option.map_eq_none_iff.mp hn))

theorem of_skipSpaces {lx : Lexer} (hm : lx.mode = .normal)
    (h : LineReading line lx.skipSpaces.mode lx.skipSpaces.cursor.column lx.skipSpaces.rest ts
      last) : LineReading line lx.mode lx.cursor.column lx.rest ts last := by
  have hmode : lx.skipSpaces.mode = .normal := hm
  have hcol : lx.skipSpaces.cursor.column =
      lx.cursor.column + (lx.rest.takeWhile (· == ' ')).length := by
    have hc := lx.column_pass (lx.rest.takeWhile (· == ' ')).length
    rwa [← List.prefix_iff_eq_take.mp (List.takeWhile_prefix _)] at hc
  rw [hmode, hcol, Lexer.rest_skipSpaces] at h
  rw [hm]
  exact spaces h

/-- What is skipped before the scan settles reads as nothing. -/
theorem of_settle {lx : Lexer}
    (h : LineReading line lx.settle.mode lx.settle.cursor.column lx.settle.rest ts last) :
    LineReading line lx.mode lx.cursor.column lx.rest ts last := by
  cases hm : lx.mode with
  | normal =>
    rw [Lexer.settle, Lexer.leaveComment_of_normal hm] at h
    exact hm ▸ of_skipSpaces hm h
  | comment =>
    cases hc : Lexer.closeLength? lx.rest with
    | some n =>
      rw [Lexer.settle, Lexer.leaveComment_of_close hm hc] at h
      have hleft := of_skipSpaces (by rfl) h
      have hcol : ({ lx.pass n with mode := .normal } : Lexer).cursor.column =
          lx.cursor.column + (lx.rest.take n).length := lx.column_pass n
      have hrest : ({ lx.pass n with mode := .normal } : Lexer).rest = lx.rest.drop n :=
        lx.rest_pass n
      rw [hcol, hrest] at hleft
      exact comment_of_close hc hleft
    | none =>
      rw [Lexer.settle, Lexer.leaveComment_of_open hm hc] at h
      have hmode : (lx.pass lx.rest.length).skipSpaces.mode = .comment := hm
      rw [hmode, Lexer.rest_skipSpaces, Lexer.rest_pass, List.drop_length] at h
      cases h
      exact comment_of_open hc

theorem of_opening {lx : Lexer} {more : List Char} (hr : lx.settle.rest = '/' :: '*' :: more)
    (h : LineReading line .comment (lx.settle.cursor.column + 2) more ts last) :
    LineReading line lx.mode lx.cursor.column lx.rest ts last := by
  apply of_settle
  rw [Lexer.mode_settle (by simp [hr]), hr]
  exact opening h

theorem of_took {lx : Lexer} {kind : TokenKind} {w : List Char}
    (ho : ¬ ['/', '*'] <+: lx.settle.rest) (hm : Munches w lx.settle.rest) (hk : kind.Covers w)
    (h : LineReading lx.line .normal (lx.settle.cursor.column + w.length)
      (lx.settle.rest.drop w.length) ts last) :
    LineReading lx.line lx.mode lx.cursor.column lx.rest (lx.settle.tokenAt kind w :: ts) last := by
  have hr : lx.settle.rest ≠ [] := by
    intro hnil
    exact hm.ne_nil (List.prefix_nil.mp (hnil ▸ hm.isPrefix))
  apply of_settle
  rw [Lexer.mode_settle hr, Lexer.tokenAt, lx.settle_frame.1]
  exact token (List.prefix_iff_eq_append.mp hm.isPrefix).symm Lexer.head_settle ho hm hk h

/-- The lexer reads its line as the rules do, and its report grows by what is wrong about the
tokens. -/
theorem of_tokens (lx : Lexer) :
    LineReading lx.line lx.mode lx.cursor.column lx.rest lx.tokens.1 lx.tokens.2.mode ∧
      lx.tokens.2.report = lx.report.recordAll (lx.tokens.1.filterMap Token.diagnostic?) := by
  induction hn : lx.rest.length using Nat.strong_induction_on generalizing lx with
  | _ n ih =>
    by_cases hr : lx.settle.rest = []
    · rw [Lexer.tokens_of_end hr]
      refine ⟨of_settle ?_, by simp [lx.settle_frame.2]⟩
      rw [hr]
      exact done _ _
    · have hlt := Lexer.length_rest_readToken_settle_lt lx hr
      rw [hn] at hlt
      rcases Lexer.readToken_settle_cases hr with ⟨more, hmore, hread⟩ |
        ⟨kind, w, ho, hm, hk, hread⟩
      · have hopen : lx.settle.markStart.rest = '/' :: '*' :: more := hmore
        rw [hread] at hlt
        obtain ⟨hreading, hreport⟩ := ih _ hlt _ rfl
        have hinside : LineReading lx.settle.line .comment
            (lx.settle.markStart.pass 2).cursor.column (lx.settle.markStart.pass 2).rest _ _ :=
          hreading
        rw [lx.settle_frame.1, Lexer.column_pass, Lexer.rest_pass, hopen] at hinside
        rw [Lexer.tokens_of_opening hr hread]
        refine ⟨of_opening hmore hinside, ?_⟩
        rw [hreport, ← lx.settle_frame.2]
        rfl
      · rw [hread] at hlt
        obtain ⟨hreading, hreport⟩ := ih _ hlt _ rfl
        have hbehind : LineReading lx.settle.line lx.settle.mode
            (lx.settle.took kind w).cursor.column (lx.settle.took kind w).rest _ _ := hreading
        rw [lx.settle_frame.1, Lexer.mode_settle hr, Lexer.column_took hm.isPrefix,
          Lexer.rest_took] at hbehind
        rw [Lexer.tokens_of_token hr hread, Lexer.token_took hm.isPrefix]
        refine ⟨of_took ho hm hk hbehind, ?_⟩
        rw [hreport, ← lx.settle_frame.2, Lexer.report_took, ← Report.recordAll_append]
        congr 1
        cases hd : (lx.settle.tokenAt kind w).diagnostic? <;> simp [hd]

/-- What a line reads as is the outcome of its scan, whatever has been reported before. -/
theorem scanLine_eq (h : LineReading line mode 1 text ts last) (report : Report) :
    scanLine text line mode report =
      ⟨ts, last, report.recordAll (ts.filterMap Token.diagnostic?)⟩ := by
  obtain ⟨hreading, hreport⟩ := of_tokens (Lexer.ofLine text line mode report)
  obtain ⟨hts, hlast⟩ := h.unique hreading
  rw [← hts] at hreport
  simp only [scanLine, ← hts, ← hlast, hreport]
  rfl

end LineReading

/-- Every line reads as its scan says. -/
theorem lineReading_scanLine (text : List Char) (line : Nat) (mode : Mode) (report : Report) :
    LineReading line mode 1 text (scanLine text line mode report).tokens
      (scanLine text line mode report).mode :=
  (LineReading.of_tokens (Lexer.ofLine text line mode report)).1

theorem report_scanLine (text : List Char) (line : Nat) (mode : Mode) (report : Report) :
    (scanLine text line mode report).report = report.recordAll
      ((scanLine text line mode report).tokens.filterMap Token.diagnostic?) :=
  (LineReading.of_tokens (Lexer.ofLine text line mode report)).2

theorem toList_report_scanLine (text : List Char) (line : Nat) (mode : Mode) (report : Report) :
    (scanLine text line mode report).report.toList = report.toList ++
      (scanLine text line mode report).tokens.filterMap Token.diagnostic? := by
  rw [report_scanLine, Report.toList_recordAll]

end LexicalAnalyzer
