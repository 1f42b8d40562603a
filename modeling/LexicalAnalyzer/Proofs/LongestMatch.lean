import LexicalAnalyzer.Proofs.Lexing

/-!
The scan of a line, place by place. It comes to stand in front of each token and each opening of a
comment, and nowhere else. Wherever it stands it either enters a comment or makes exactly one token,
and that token is the longest lexeme in front, told by the languages of the lexemes alone.
-/
namespace LexicalAnalyzer

namespace Lexer

/-- Where a scan comes to stand: behind the comment and the spaces in front, and there again behind
whatever is read next. -/
inductive Reaches (lx : Lexer) : Lexer → Prop where
  | start : Reaches lx lx.settle
  | round {stand : Lexer} (h : Reaches lx stand) (hne : stand.rest ≠ []) :
      Reaches lx stand.markStart.readToken.2.settle

theorem Reaches.settled {lx stand : Lexer} (h : lx.Reaches stand) : stand.settle = stand := by
  cases h with
  | start => exact settle_settle lx
  | round _ _ => exact settle_settle _

/-- What the lexer gives depends on the place at which it settles only. -/
theorem tokens_settle (lx : Lexer) : lx.settle.tokens = lx.tokens := by
  have hs := settle_settle lx
  by_cases h : lx.settle.rest = []
  · rw [tokens_of_end h, tokens_of_end (by rwa [hs]), hs]
  · have h' : lx.settle.settle.rest ≠ [] := by rwa [hs]
    cases hr : lx.settle.markStart.readToken with
    | mk kind read =>
      have hr' : lx.settle.settle.markStart.readToken = (kind, read) := by rwa [hs]
      cases kind with
      | none => rw [tokens_of_opening h hr, tokens_of_opening h' hr']
      | some kind => rw [tokens_of_token h hr, tokens_of_token h' hr']

/-- Behind any place the scan goes on as if it had started there. -/
theorem Reaches.tokens {lx stand : Lexer} (h : lx.Reaches stand) :
    ∃ before, lx.tokens.1 = before ++ stand.tokens.1 := by
  induction h with
  | start => exact ⟨[], by rw [tokens_settle, List.nil_append]⟩
  | @round stand h hne ih =>
    obtain ⟨before, hb⟩ := ih
    have hne' : stand.settle.rest ≠ [] := by rwa [h.settled]
    cases hr : stand.markStart.readToken with
    | mk kind read =>
      have hr' : stand.settle.markStart.readToken = (kind, read) := by rwa [h.settled]
      simp only [tokens_settle]
      cases kind with
      | none => exact ⟨before, by rw [hb, tokens_of_opening hne' hr']⟩
      | some kind =>
        refine ⟨before ++ [read.token kind], ?_⟩
        rw [hb, tokens_of_token hne' hr', List.append_assoc, List.singleton_append]

end Lexer

theorem TokenKind.Covers.eq_iff {w : List Char} {kind : TokenKind} (h : kind.Covers w)
    (other : TokenKind) : kind = other ↔ other.Covers w := by
  constructor
  · rintro rfl
    exact h
  · exact h.unique

/-- Maximal munch. Wherever the scan of a line stands in front of a character, it is in normal mode
and the character is no space. There `/*` enters a comment and makes no token. Anything else makes
exactly one token, of the longest lexeme in front or else of one character, and its kind is that of
its lexeme. -/
theorem scanLine_munches (text : List Char) (line : Nat) (mode : Mode) (report : Report)
    {stand : Lexer} (h : (Lexer.ofLine text line mode report).Reaches stand)
    {c : Char} {cs : List Char} (hr : stand.rest = c :: cs) :
    stand.mode = .normal ∧ c ≠ ' ' ∧
    (['/', '*'] <+: stand.rest → ∃ inside : Lexer,
      stand.rest = '/' :: '*' :: inside.rest ∧ inside.mode = .comment ∧
      inside.report = stand.report ∧ stand.next = inside.next) ∧
    (¬ ['/', '*'] <+: stand.rest → ∃ t read before,
      stand.next = (some t, read) ∧ stand.rest = t.lexeme.toList ++ read.rest ∧
      read.mode = .normal ∧ Munches t.lexeme.toList stand.rest ∧
      (∀ kind, t.kind = kind ↔ kind.Covers t.lexeme.toList) ∧
      (scanLine text line mode report).tokens = before ++ t :: read.tokens.1) := by
  have hs : stand.settle = stand := h.settled
  have hne : stand.settle.rest ≠ [] := by simp [hs, hr]
  have hm : stand.mode = .normal := hs ▸ Lexer.mode_settle hne
  have hc : c ≠ ' ' := by
    apply Lexer.head_settle c
    rw [hs, hr]
    rfl
  refine ⟨hm, hc, ?_, ?_⟩
  · rintro ⟨more, hmore⟩
    have hopen : stand.rest = '/' :: '*' :: more := hmore.symm
    have hread := Lexer.readToken_opening (by rw [hs]; exact hopen :
      stand.settle.markStart.rest = '/' :: '*' :: more)
    refine ⟨{ stand.markStart.pass 2 with mode := .comment }, ?_, rfl, rfl, ?_⟩
    · have hrest := Lexer.rest_pass stand.markStart 2
      rw [Lexer.rest_markStart, hopen] at hrest
      rw [hopen]
      exact congrArg (fun r => '/' :: '*' :: r) hrest.symm
    · rw [Lexer.next_of_opening hne hread, hs]
  · intro ho
    obtain ⟨kind, w, hmunch, hkind, hread⟩ := Lexer.readToken_spec hr ho
    obtain ⟨before, hb⟩ := h.tokens
    rw [← hs] at hread
    have htoken : (stand.settle.took kind w).token kind = stand.tokenAt kind w := by
      rw [hs, Lexer.token_took hmunch.isPrefix]
    have hw : (stand.tokenAt kind w).lexeme.toList = w := String.toList_ofList
    refine ⟨stand.tokenAt kind w, stand.took kind w, before, ?_, ?_, ?_, ?_, ?_, ?_⟩
    · rw [Lexer.next_of_token hne hread, htoken, hs]
    · rw [hw, Lexer.rest_took]
      exact List.prefix_iff_eq_append.mp hmunch.isPrefix |>.symm
    · exact hm
    · rwa [hw]
    · rw [hw]
      exact hkind.eq_iff
    · have hscan : (scanLine text line mode report).tokens =
          (Lexer.ofLine text line mode report).tokens.1 := rfl
      rw [hscan, hb, Lexer.tokens_of_token hne hread, htoken, hs]

/-- An exponent takes one sign only, here behind a comment that is not read at all. -/
theorem scanLine_munches_signed_exponent : ∃ stand t read before,
    (Lexer.ofLine "a/*b*/1E+5E+3".toList 1 .normal {}).Reaches stand ∧
    stand.rest = "1E+5E+3".toList ∧ stand.next = (some t, read) ∧
    Munches t.lexeme.toList stand.rest ∧
    (scanLine "a/*b*/1E+5E+3".toList 1 .normal {}).tokens = before ++ t :: read.tokens.1 := by
  have h : (Lexer.ofLine "a/*b*/1E+5E+3".toList 1 .normal {}).Reaches _ :=
    .round (.round .start (by decide)) (by decide)
  obtain ⟨_, _, _, htoken⟩ := scanLine_munches _ 1 .normal {} h
    (show _ = '1' :: "E+5E+3".toList by decide)
  obtain ⟨t, read, before, hnext, _, _, hmunch, _, htokens⟩ := htoken (by decide)
  exact ⟨_, t, read, before, h, by decide, hnext, hmunch, htokens⟩

end LexicalAnalyzer
