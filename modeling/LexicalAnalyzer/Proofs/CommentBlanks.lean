import LexicalAnalyzer.Proofs.LineReading
import LexicalAnalyzer.Scan.Source

/-!
Comments are blanks. A plain scan of the characters, which knows nothing of tokens, marks those that
lie in comments. With every marked character replaced by a space a text has the same tokens and the
same diagnostics, line by line, although no line of it is scanned in a comment any more.
-/
namespace LexicalAnalyzer

/-- Which characters of a text lie in comments, edges included, and the mode behind the text. -/
def commentMarks : Mode → List Char → List Bool × Mode
  | mode, [] => ([], mode)
  | .normal, '/' :: '*' :: rest =>
    let (marks, last) := commentMarks .comment rest
    (true :: true :: marks, last)
  | .comment, '*' :: '/' :: rest =>
    let (marks, last) := commentMarks .normal rest
    (true :: true :: marks, last)
  | mode, _ :: rest =>
    let (marks, last) := commentMarks mode rest
    (decide (mode = .comment) :: marks, last)

/-- The text with a space for every character that lies in a comment. -/
def blanked (mode : Mode) (text : List Char) : List Char :=
  text.zipWith (fun c inside => if inside then ' ' else c) (commentMarks mode text).1

/-- The lines scanned one by one with their comments blanked, each from normal mode. The modes
between the lines are those of the plain scan. -/
def scanBlanked : Nat → Mode → Report → List (List Char) → List ScannedLine
  | _, _, _, [] => []
  | number, mode, report, text :: rest =>
    let scan := scanLine (blanked mode text) number .normal report
    let last := (commentMarks mode text).2
    ⟨number, text, mode, { scan with mode := last }⟩ ::
      scanBlanked (number + 1) last scan.report rest

theorem commentMarks_opening (cs : List Char) :
    commentMarks .normal ('/' :: '*' :: cs) =
      (true :: true :: (commentMarks .comment cs).1, (commentMarks .comment cs).2) := rfl

theorem commentMarks_closing (cs : List Char) :
    commentMarks .comment ('*' :: '/' :: cs) =
      (true :: true :: (commentMarks .normal cs).1, (commentMarks .normal cs).2) := rfl

theorem commentMarks_space (cs : List Char) :
    commentMarks .normal (' ' :: cs) =
      (false :: (commentMarks .normal cs).1, (commentMarks .normal cs).2) := rfl

theorem commentMarks_outside {c : Char} {cs : List Char} (h : ¬ ['/', '*'] <+: c :: cs) :
    commentMarks .normal (c :: cs) =
      (false :: (commentMarks .normal cs).1, (commentMarks .normal cs).2) := by
  rw [commentMarks]
  · rfl
  · rintro more - rfl rfl
    exact h ⟨more, rfl⟩
  · simp

theorem commentMarks_inside {c : Char} {cs : List Char} (h : ¬ ['*', '/'] <+: c :: cs) :
    commentMarks .comment (c :: cs) =
      (true :: (commentMarks .comment cs).1, (commentMarks .comment cs).2) := by
  rw [commentMarks]
  · rfl
  · simp
  · rintro more - rfl rfl
    exact h ⟨more, rfl⟩

/-- A slash is no part of a longer token. -/
theorem Munches.eq_slash {w text : List Char} (hm : Munches w text) (h : '/' ∈ w) : w = ['/'] := by
  cases hm with
  | lexeme _ hw _ => exact breaks_slash w hw h
  | stray _ => rw [List.mem_singleton.mp h]

/-- No comment opens within a token. -/
theorem commentMarks_token {w cs : List Char} (hm : Munches w (w ++ cs))
    (ho : ¬ ['/', '*'] <+: w ++ cs) :
    commentMarks .normal (w ++ cs) =
      (List.replicate w.length false ++ (commentMarks .normal cs).1,
        (commentMarks .normal cs).2) := by
  by_cases hs : '/' ∈ w
  · obtain rfl := hm.eq_slash hs
    exact commentMarks_outside ho
  · clear hm ho
    induction w with
    | nil => rfl
    | cons c w ih =>
      have hc : ¬ ['/', '*'] <+: c :: (w ++ cs) := by
        rintro ⟨more, hmore⟩
        obtain ⟨rfl, _⟩ := List.cons.inj hmore
        exact hs (by simp)
      rw [List.cons_append, commentMarks_outside hc, ih fun h => hs (by simp [h])]
      rfl

theorem blanked_token {w cs : List Char} (hm : Munches w (w ++ cs))
    (ho : ¬ ['/', '*'] <+: w ++ cs) :
    blanked .normal (w ++ cs) = w ++ blanked .normal cs := by
  have hw : ∀ w : List Char, w.zipWith (fun c inside => if inside = true then ' ' else c)
      (List.replicate w.length false) = w := by
    intro w
    induction w with
    | nil => rfl
    | cons c w ih => simpa [List.replicate_succ] using ih
  rw [blanked, commentMarks_token hm ho, List.zipWith_append (by simp), hw]
  rfl

/-- Up to the first comment blanking changes nothing, and a text with its comments blanked goes on
with a space there. -/
theorem exists_blanked_split (cs : List Char) : ∃ front behind blank,
    cs = front ++ behind ∧ blanked .normal cs = front ++ blank ∧ StartsApart behind ∧
    ∀ c ∈ blank.head?, c = ' ' := by
  induction cs with
  | nil => exact ⟨[], [], [], rfl, rfl, by simp [StartsApart], by simp⟩
  | cons c cs ih =>
    by_cases ho : ['/', '*'] <+: c :: cs
    · obtain ⟨more, hmore⟩ := ho
      rw [← hmore]
      refine ⟨[], _, blanked .normal ('/' :: '*' :: more), rfl, rfl, ?_, ?_⟩
      · intro x hx
        obtain rfl : '/' = x := by simpa using hx
        exact breaks_slash
      · intro x hx
        rw [blanked, commentMarks_opening] at hx
        simpa using hx.symm
    · obtain ⟨front, behind, blank, hcs, hb, hbehind, hblank⟩ := ih
      refine ⟨c :: front, behind, blank, by rw [hcs]; rfl, ?_, hbehind, hblank⟩
      rw [blanked, commentMarks_outside ho]
      simpa [blanked] using hb

/-- A token stays what it is when the comments behind it are blanked. -/
theorem munches_blanked {w cs : List Char} (hm : Munches w (w ++ cs))
    (ho : ¬ ['/', '*'] <+: w ++ cs) :
    Munches w (w ++ blanked .normal cs) ∧ ¬ ['/', '*'] <+: w ++ blanked .normal cs := by
  obtain ⟨front, behind, blank, rfl, hb, hbehind, hblank⟩ := exists_blanked_split cs
  have hne : w ++ front ≠ [] := by simp [hm.ne_nil]
  have hapart : StartsApart blank := by
    intro c hc
    rw [hblank c hc]
    exact breaks_of_invalid (by decide)
  rw [← List.append_assoc] at hm ho
  rw [hb, ← List.append_assoc]
  constructor
  · rw [munches_append_iff hne hapart]
    exact (munches_append_iff hne hbehind).mp hm
  · have hstar : ∀ c ∈ blank.head?, c ≠ '*' := by
      intro c hc
      rw [hblank c hc]
      decide
    rw [pair_prefix_append_iff hne hstar]
    intro hp
    exact ho (hp.trans (List.prefix_append _ behind))

/-- A line reads the same from normal mode once its comments are blanked, and the plain scan knows
the mode it leaves behind. -/
theorem LineReading.blanked {line column : Nat} {mode last : Mode} {text : List Char}
    {ts : List Token} (h : LineReading line mode column text ts last) :
    LineReading line .normal column (blanked mode text) ts .normal ∧
      last = (commentMarks mode text).2 := by
  induction h with
  | done mode column =>
    refine ⟨?_, ?_⟩
    · exact .done .normal column
    · cases mode <;> rfl
  | @space column cs ts last _ ih =>
    rw [LexicalAnalyzer.blanked, commentMarks_space]
    exact ⟨.space ih.1, ih.2⟩
  | @opening column cs ts last _ ih =>
    rw [LexicalAnalyzer.blanked, commentMarks_opening]
    exact ⟨.space (.space ih.1), ih.2⟩
  | @token column text w cs kind ts last ht hs ho hm hk _ ih =>
    subst ht
    obtain ⟨hm', ho'⟩ := munches_blanked hm ho
    rw [blanked_token hm ho, commentMarks_token hm ho]
    refine ⟨.token rfl ?_ ho' hm' hk ih.1, ih.2⟩
    intro c hc
    obtain ⟨x, w, rfl⟩ := List.exists_cons_of_ne_nil hm.ne_nil
    exact hs c hc
  | @closing column cs ts last _ ih =>
    rw [LexicalAnalyzer.blanked, commentMarks_closing]
    exact ⟨.space (.space ih.1), ih.2⟩
  | @inside column c cs ts last hc _ ih =>
    rw [LexicalAnalyzer.blanked, commentMarks_inside hc]
    exact ⟨.space ih.1, ih.2⟩

theorem mode_commentEdges (mode : Mode) (column : Nat) (text : List Char) :
    (commentEdges mode column text).2 = (commentMarks mode text).2 := by
  fun_induction commentEdges mode column text with
  | case1 mode column => cases mode <;> rfl
  | case2 column rest edges last h ih =>
    rw [h] at ih
    exact ih
  | case3 column rest edges last h ih =>
    rw [h] at ih
    exact ih
  | case4 mode column c rest hopen hclose ih =>
    rw [ih, commentMarks]
    · exact hopen
    · exact hclose

/-- The edges of the comments on a line, found without tokens, end in the mode of its scan. -/
theorem mode_scanLine (text : List Char) (line : Nat) (mode : Mode) (report : Report) :
    (scanLine text line mode report).mode = (commentEdges mode 1 text).2 := by
  rw [mode_commentEdges]
  exact (lineReading_scanLine text line mode report).blanked.2

/-- Comments are blanks. Scanning lines with the mode carried from line to line gives, for every
line, the tokens and the diagnostics of the line with its comments blanked, scanned from normal
mode, and leaves the mode of the plain scan. -/
theorem scanLines_eq_scanBlanked (number : Nat) (mode : Mode) (report : Report)
    (texts : List (List Char)) :
    scanLines number mode report texts = scanBlanked number mode report texts := by
  induction texts generalizing number mode report with
  | nil => rfl
  | cons text texts ih =>
    obtain ⟨hreading, hlast⟩ := (lineReading_scanLine text number mode report).blanked
    have hblank := hreading.scanLine_eq report
    rw [← report_scanLine] at hblank
    rw [scanLines, scanBlanked, ih, hblank, ← hlast]

end LexicalAnalyzer
