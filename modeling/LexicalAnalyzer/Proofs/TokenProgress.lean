import LexicalAnalyzer.Proofs.CallOrder

/-!
Progress of the token loop. A lexer that is asked for a token either passes a lexeme, records what
is wrong with it and nothing else, or stands at the end of its line and stays as it is from then on.
Every round of the loop uses up characters, so the rounds and the tokens of a line are no more than
its characters allow, null characters included.
-/
namespace LexicalAnalyzer

namespace Lexer

/-- The loop of `next`, given up when it takes more than so many rounds. -/
def nextWithin : Nat → Lexer → Option (Option Token × Lexer)
  | 0, _ => none
  | rounds + 1, lx =>
    if lx.settle.rest = [] then some (none, lx.settle)
    else
      match lx.settle.markStart.readToken with
      | (some kind, read) => some (some (read.token kind), read)
      | (none, read) => nextWithin rounds read

variable {lx read : Lexer} {t : Token}

/-- As many rounds as there are characters ahead, and one for the end of the line, are enough. -/
theorem nextWithin_eq {rounds : Nat} (h : lx.rest.length < rounds) :
    nextWithin rounds lx = some lx.next := by
  induction rounds generalizing lx with
  | zero => omega
  | succ rounds ih =>
    rw [nextWithin]
    by_cases hend : lx.settle.rest = []
    · rw [if_pos hend, next_of_end hend]
    · rw [if_neg hend]
      have hlt := length_rest_readToken_settle_lt lx hend
      cases hr : lx.settle.markStart.readToken with
      | mk kind read =>
        rw [hr] at hlt
        have hless : read.rest.length < lx.rest.length := hlt
        cases kind with
        | some kind => rw [next_of_token hend hr]
        | none =>
          rw [next_of_opening hend hr]
          exact ih (by omega)

/-- A round that enters a comment reports nothing. -/
theorem report_of_opening (hend : lx.settle.rest ≠ [])
    (hr : lx.settle.markStart.readToken = (none, read)) : read.report = lx.report := by
  rcases readToken_settle_cases hend with ⟨_, _, hread⟩ | ⟨_, _, _, _, _, hread⟩
  · obtain ⟨-, rfl⟩ := Prod.mk.inj (hread.symm.trans hr)
    exact lx.settle_frame.2
  · cases hread.symm.trans hr

/-- What the lexer does for a token: at a place that it reaches without a report, it takes what is
munched there. -/
theorem exists_took_of_next (h : lx.next = (some t, read)) :
    ∃ stand kind w, lx.Steps stand ∧ stand.report = lx.report ∧ Munches w stand.rest ∧
      t = stand.tokenAt kind w ∧ read = stand.took kind w := by
  fun_induction next lx with
  | case1 => cases h
  | case2 lx hend kind read' hr =>
    rcases readToken_settle_cases hend with ⟨_, _, hread⟩ | ⟨kind', w, _, hm, _, hread⟩
    · cases hread.symm.trans hr
    · obtain ⟨hkind, hbehind⟩ := Prod.mk.inj (hread.symm.trans hr)
      obtain rfl := Option.some.inj hkind
      obtain ⟨htoken, hread'⟩ := Prod.mk.inj h
      refine ⟨lx.settle, kind', w, .settle lx, lx.settle_frame.2, hm, ?_, ?_⟩
      · rw [← Option.some.inj htoken, ← hbehind, token_took hm.isPrefix]
      · rw [← hread', hbehind]
  | case3 lx hend read' hr ih =>
    obtain ⟨stand, kind, w, hsteps, hreport, hrest⟩ := ih h
    have hread := Steps.readToken lx.settle.markStart
    rw [hr] at hread
    refine ⟨stand, kind, w, ?_, ?_, hrest⟩
    · exact (Steps.settle lx).trans ((Steps.mark _).trans (hread.trans hsteps))
    · rw [hreport, report_of_opening hend hr]

/-- Without a token the line is used up, nothing is reported, and asking again changes nothing. -/
theorem next_eq_none (h : lx.next = (none, read)) :
    read.rest = [] ∧ read.report = lx.report ∧ read.next = (none, read) := by
  fun_induction next lx with
  | case1 lx hend =>
    obtain rfl : lx.settle = read := by simpa using h
    have hsettled := lx.settle_settle
    refine ⟨hend, lx.settle_frame.2, ?_⟩
    rw [next_of_end (by rwa [hsettled]), hsettled]
  | case2 => cases h
  | case3 lx hend read' hr ih =>
    obtain ⟨hrest, hreport, hagain⟩ := ih h
    exact ⟨hrest, by rw [hreport, report_of_opening hend hr], hagain⟩

/-- A token costs a character at least. -/
theorem length_tokens_le (lx : Lexer) : lx.tokens.1.length ≤ lx.rest.length := by
  fun_induction tokens lx with
  | case1 => simp
  | case2 lx t read h ts last hts ih =>
    have hlt := length_rest_next_lt h
    rw [hts] at ih
    exact Nat.lt_of_le_of_lt ih hlt

/-- All tokens are taken when more may be taken than there are characters ahead. -/
theorem take_eq_tokens {n : Nat} (h : lx.rest.length < n) : lx.take n = lx.tokens := by
  induction n generalizing lx with
  | zero => omega
  | succ n ih =>
    rw [take, tokens]
    cases hn : lx.next with
    | mk t? read =>
      cases t? with
      | none => rfl
      | some t =>
        have hlt := length_rest_next_lt hn
        have hread : read.take n = read.tokens := ih (by omega)
        simp only [hread]

/-- Behind a token taken from where the lexer stands, the cursor has passed the lexeme, and the
lexeme is the slice. -/
theorem Placed.took {text front word w : List Char} {stand : Lexer}
    (h : stand.Placed text front word) (hm : Munches w stand.rest) (kind : TokenKind) :
    (stand.took kind w).Placed text (front ++ word) w ∧
      stand.cursor.offset < (stand.took kind w).cursor.offset := by
  have hpass := h.markStart.pass w.length
  rw [rest_markStart, ← List.prefix_iff_eq_take.mp hm.isPrefix, List.nil_append] at hpass
  have htook : (stand.took kind w).Placed text (front ++ word) w :=
    ⟨hpass.text_eq, hpass.before, hpass.offset, hpass.column, hpass.start, hpass.startColumn⟩
  refine ⟨htook, ?_⟩
  rw [htook.offset, h.offset, Cursor.byteCount_append (front ++ word)]
  exact Nat.lt_add_of_pos_right (Cursor.byteCount_pos hm.ne_nil)

/-- A lexer that a call leaves as it is stays so over any number of such calls. -/
theorem callAll_replicate {c : Call} (h : lx.call c = lx) (n : Nat) :
    lx.callAll (List.replicate n c) = lx := by
  induction n with
  | zero => rfl
  | succ n ih =>
    rw [List.replicate_succ, callAll, List.foldl_cons, h]
    exact ih

end Lexer

/-- The token loop makes progress and ends. Whatever has been called before, asking for a token
takes no more rounds than there are characters ahead, and one. A token moves the cursor on, its
lexeme is not empty and lies between the token's start and the cursor, and the report grows by what
is wrong with the token at most. Without a token the line is used up, the report is the same, and
asking again changes nothing. So a line has no more tokens than characters, whatever these are. -/
theorem next_progresses (text : List Char) (line : Nat) (mode : Mode) (report : Report)
    (calls : List Lexer.Call) :
    let fresh := Lexer.ofLine text line mode report
    let lx := fresh.callAll calls
    Lexer.nextWithin (lx.rest.length + 1) lx = some lx.next ∧
    (∀ t read, lx.next = (some t, read) →
      lx.cursor.offset < read.cursor.offset ∧ t.lexeme ≠ "" ∧
      (∃ front, read.Placed text front t.lexeme.toList) ∧
      read.cursor.slice? read.start = some t.lexeme.toList ∧
      read.report.toList = lx.report.toList ++ t.diagnostic?.toList) ∧
    (∀ read, lx.next = (none, read) →
      read.rest = [] ∧ read.cursor.offset = Cursor.byteCount text ∧ read.report = lx.report ∧
      read.next.1 = none ∧ ∀ n, read.callAll (List.replicate n .next) = read) ∧
    fresh.take (text.length + 1) = fresh.tokens ∧
    (scanLine text line mode report).tokens.length ≤ text.length := by
  intro fresh lx
  have hfresh : fresh.Placed text [] [] := Lexer.placed_ofLine text line mode report
  obtain ⟨front, word, hplaced⟩ := hfresh.steps (.callAll fresh calls)
  have hlength : fresh.rest.length < text.length + 1 := Nat.lt_succ_self _
  refine ⟨Lexer.nextWithin_eq (Nat.lt_succ_self _), ?_, ?_, Lexer.take_eq_tokens hlength,
    fresh.length_tokens_le⟩
  · intro t read h
    obtain ⟨stand, kind, w, hsteps, hreport, hm, rfl, rfl⟩ := Lexer.exists_took_of_next h
    obtain ⟨front', word', hstand⟩ := hplaced.steps hsteps
    obtain ⟨htook, hlt⟩ := hstand.took hm kind
    have hw : (stand.tokenAt kind w).lexeme.toList = w := String.toList_ofList
    rw [hw]
    refine ⟨Nat.lt_of_le_of_lt hsteps.offset_le hlt, ?_, ⟨_, htook⟩, htook.slice?_eq, ?_⟩
    · intro hempty
      rw [hempty] at hw
      exact hm.ne_nil hw.symm
    · rw [Lexer.report_took, Report.toList_recordAll, hreport]
  · intro read h
    obtain ⟨hrest, hreport, hagain⟩ := Lexer.next_eq_none h
    have hsteps : lx.Steps read := by
      have hnext := Lexer.Steps.next lx
      rwa [h] at hnext
    obtain ⟨front', word', hread⟩ := hplaced.steps hsteps
    have hstays : read.call .next = read := congrArg Prod.snd hagain
    refine ⟨hrest, ?_, hreport, ?_, Lexer.callAll_replicate hstays⟩
    · have htext := hread.text_eq
      rw [hrest, List.append_nil] at htext
      rw [hread.offset, ← htext]
    · rw [hagain]

/-- A null character is a token, not the end of its line, here behind a comment that a call from
outside has opened. -/
theorem next_progresses_null :
    let text := "/*a*/\x00".toList
    let lx := (Lexer.ofLine text 1 .normal {}).callAll [.readSeparator]
    ∃ t read last, lx.next = (some t, read) ∧ t.lexeme = "\x00" ∧
      lx.cursor.offset < read.cursor.offset ∧ read.next = (none, last) ∧ last.rest = [] := by
  intro text lx
  have hsome : lx.next.1 = some ⟨.error, "\x00", ⟨1, 6⟩⟩ := by decide +kernel
  have hnone : lx.next.2.next.1 = none := by decide +kernel
  have hlx := (next_progresses text 1 .normal {} [.readSeparator]).2.1
  have hbehind := (next_progresses text 1 .normal {} [.readSeparator, .next]).2.2.1
  refine ⟨_, lx.next.2, lx.next.2.next.2, Prod.ext hsome rfl, rfl, ?_, Prod.ext hnone rfl, ?_⟩
  · exact (hlx _ _ (Prod.ext hsome rfl)).1
  · exact (hbehind _ (Prod.ext hnone rfl)).1

end LexicalAnalyzer
