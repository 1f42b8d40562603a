import LexicalAnalyzer.Proofs.OneLine

/-!
The form of line ends does not show. A line feed may have a carriage return in front of it or not,
each for itself, and line ends at the end of a text may be missing or repeated: the lines are the
same but for empty ones at the end, and so is the analysis. A carriage return in any other place
belongs to its line and is an error there, unless it stands in a comment.
-/
namespace LexicalAnalyzer

/-- The text with a carriage return in front of the chosen ones of its line feeds, which are counted
from a first number. -/
def withReturns (chosen : Nat → Bool) : Nat → List Char → List Char
  | _, [] => []
  | k, c :: rest =>
    if c = '\n' then lineEnd (chosen k) ++ withReturns chosen (k + 1) rest
    else c :: withReturns chosen k rest

theorem withReturns_of_no_feed (chosen : Nat → Bool) (k : Nat) {text : List Char}
    (h : '\n' ∉ text) : withReturns chosen k text = text := by
  induction text with
  | nil => rfl
  | cons c text ih =>
    have hc : c ≠ '\n' := (List.ne_of_not_mem_cons h).symm
    rw [withReturns, if_neg hc, ih (List.not_mem_of_not_mem_cons h)]

theorem withReturns_append_feed (chosen : Nat → Bool) (k : Nat) {line : List Char}
    (h : '\n' ∉ line) (rest : List Char) : withReturns chosen k (line ++ '\n' :: rest) =
      line ++ lineEnd (chosen k) ++ withReturns chosen (k + 1) rest := by
  induction line with
  | nil => simp [withReturns]
  | cons c line ih =>
    have hc : c ≠ '\n' := (List.ne_of_not_mem_cons h).symm
    rw [List.cons_append, withReturns, if_neg hc, ih (List.not_mem_of_not_mem_cons h)]
    rfl

/-- A line ends at its end, whichever form that has. -/
theorem lines_append_lineEnd {line : List Char} (hfeed : '\n' ∉ line)
    (hreturn : line.getLast? ≠ some '\r') (withReturn : Bool) (rest : List Char) :
    lines (line ++ lineEnd withReturn ++ rest) = line :: lines rest := by
  cases withReturn with
  | false =>
    have hend : line ++ lineEnd false ++ rest = line ++ '\n' :: rest := by simp [lineEnd]
    rw [hend, lines_append_newline hfeed, Lines.trimReturn, if_neg hreturn]
  | true =>
    have hend : line ++ lineEnd true ++ rest = (line ++ ['\r']) ++ '\n' :: rest := by
      simp [lineEnd]
    have hline : '\n' ∉ line ++ ['\r'] := by simpa using hfeed
    have htrim : Lines.trimReturn (line ++ ['\r']) = line := by simp [Lines.trimReturn]
    rw [hend, lines_append_newline hline, htrim]

/-- Line ends alone make up empty lines. -/
theorem lines_lineEnds (added : List Bool) :
    lines (added.flatMap lineEnd) = List.replicate added.length [] := by
  induction added with
  | nil => rfl
  | cons withReturn added ih =>
    have hfirst : lines (lineEnd withReturn ++ added.flatMap lineEnd) =
        [] :: lines (added.flatMap lineEnd) :=
      lines_append_lineEnd List.not_mem_nil (by simp) withReturn (added.flatMap lineEnd)
    rw [List.flatMap_cons, hfirst, ih]
    rfl

/-- However the line ends of a text are written, and whatever line ends are added to it, the lines
are the same, with empty ones behind them. -/
theorem lines_withReturns {text : List Char} (hpair : ¬ ['\r', '\n'] <:+: text)
    (hlast : text.getLast? ≠ some '\r') (chosen : Nat → Bool) (k : Nat) (added : List Bool) :
    ∃ n, lines (withReturns chosen k text ++ added.flatMap lineEnd) =
      lines text ++ List.replicate n [] := by
  induction hn : text.length using Nat.strong_induction_on generalizing text k with
  | _ n ih =>
    by_cases hfeed : '\n' ∈ text
    · obtain ⟨line, rest, rfl, hline⟩ := List.eq_append_cons_of_mem hfeed
      have hreturn : line.getLast? ≠ some '\r' := by
        intro hr
        obtain ⟨front, rfl⟩ := List.getLast?_eq_some_iff.mp hr
        exact hpair ⟨front, rest, by simp⟩
      have hrest : ¬ ['\r', '\n'] <:+: rest := fun h =>
        hpair (h.trans ⟨line ++ ['\n'], [], by simp⟩)
      have hend : rest.getLast? ≠ some '\r' := by
        intro hr
        obtain ⟨front, rfl⟩ := List.getLast?_eq_some_iff.mp hr
        exact hlast (List.getLast?_eq_some_iff.mpr ⟨line ++ '\n' :: front, by simp⟩)
      have hlt : rest.length < n := by
        simp only [List.length_append, List.length_cons] at hn
        omega
      obtain ⟨m, hm⟩ := ih _ hlt hrest hend (k + 1) rfl
      refine ⟨m, ?_⟩
      rw [withReturns_append_feed chosen k hline, List.append_assoc,
        lines_append_lineEnd hline hreturn, hm, lines_append_newline hline, Lines.trimReturn,
        if_neg hreturn]
      rfl
    · rw [withReturns_of_no_feed chosen k hfeed]
      by_cases htext : text = []
      · subst htext
        exact ⟨added.length, lines_lineEnds added⟩
      · rw [lines_of_no_feed hfeed htext]
        cases added with
        | nil => exact ⟨0, by simp [lines_of_no_feed hfeed htext]⟩
        | cons withReturn added =>
          refine ⟨added.length, ?_⟩
          rw [List.flatMap_cons, ← List.append_assoc, lines_append_lineEnd hfeed hlast,
            lines_lineEnds]
          rfl

/-- Empty lines at the end have no tokens and keep the mode. -/
theorem scanLines_blanks (number : Nat) (mode : Mode) (report : Report) (texts : List (List Char))
    (n : Nat) :
    tokensOf (scanLines number mode report (texts ++ List.replicate n [])) =
        tokensOf (scanLines number mode report texts) ∧
      modeBehind mode (scanLines number mode report (texts ++ List.replicate n [])) =
        modeBehind mode (scanLines number mode report texts) := by
  induction n with
  | zero => simp
  | succ n ih =>
    obtain ⟨htokens, hmode⟩ :=
      scanLines_blank number mode report (texts ++ List.replicate n [])
    rw [List.replicate_succ', ← List.append_assoc, htokens, hmode]
    exact ih

/-- Texts that read as the same tokens and end in the same mode have the same analysis. -/
theorem Analysis.ofText_eq {text other : List Char}
    (htokens : tokensOf (scanText text) = tokensOf (scanText other))
    (hmode : modeBehind .normal (scanText text) = modeBehind .normal (scanText other)) :
    Analysis.ofText text = Analysis.ofText other := by
  obtain ⟨b, hb, htakes, htext⟩ := Analysis.exists_ofText text
  obtain ⟨c, hc, htakes', hother⟩ := Analysis.exists_ofText other
  rw [htokens, hc] at hb
  obtain rfl := Except.ok.inj hb
  have hreport :
      reportBehind c.report (scanText text) = reportBehind c.report (scanText other) := by
    have htold := reportBehind_scanLines 1 .normal {} (lines text)
    have htold' := reportBehind_scanLines 1 .normal {} (lines other)
    rw [← scanText] at htold htold'
    rw [htakes'.report, htold, htold', htokens]
  have hbehind : modeBehind c.mode (scanText text) = modeBehind c.mode (scanText other) := by
    rw [htakes'.mode]
    exact hmode
  rw [htext, hother, hreport, hbehind]

/-- The form of line ends does not show. Where a text ends no line in a carriage return, and does
not end in one, any of its line feeds may get a carriage return in front of it, and any line ends
may be added behind it, each in either form: the analysis is the same in all its parts, and with it
the artifacts. A carriage return that belongs to the end of no line is not passed over: outside
comments it is the one token in its place, an error, with one diagnostic. -/
theorem line_end_form_is_invisible :
    (∀ text : List Char, ¬ ['\r', '\n'] <:+: text → text.getLast? ≠ some '\r' →
      ∀ (chosen : Nat → Bool) (added : List Bool), ∃ a, Analysis.ofText text = .ok a ∧
        Analysis.ofText (withReturns chosen 0 text ++ added.flatMap lineEnd) = .ok a) ∧
    ∀ front behind : List Char, behind.head? ≠ some '\n' →
      commentMode .normal front = .normal →
      let text := front ++ '\r' :: behind
      let place := Position.start.past front
      ∃ a, Analysis.ofText text = .ok a ∧
        (tokensOf (scanText text)).filter (·.position = place) = [⟨.error, "\r", place⟩] ∧
        a.report.toList.filter (·.position = place) =
          [⟨.unrecognizedCharacter, place, Diagnostic.undefinedMessage "\r"⟩] := by
  constructor
  · intro text hpair hlast chosen added
    obtain ⟨a, ha, -⟩ := Analysis.ofText_accountsFor text
    obtain ⟨n, hlines⟩ := lines_withReturns hpair hlast chosen 0 added
    obtain ⟨htokens, hmode⟩ := scanLines_blanks 1 .normal {} (lines text) n
    rw [← hlines] at htokens hmode
    exact ⟨a, ha, (Analysis.ofText_eq htokens hmode).trans ha⟩
  · intro front behind hbehind hmode text place
    obtain ⟨a, ha, -⟩ := Analysis.ofText_accountsFor text
    exact ⟨a, ha, stray_reported (c := '\r') (by decide) (by decide) (by decide)
      (fun _ => hbehind) hmode ha⟩

/-- One of two line ends in the other form, two more behind the text, and a carriage return behind a
comment that is reported all the same. -/
theorem line_end_form_is_invisible_mixed :
    let front := "x\n/* y\n*/ ".toList
    let text := front ++ '\r' :: "z".toList
    let mixed := "x\r\n/* y\n*/ \rz\r\n\n".toList
    ¬ ['\r', '\n'] <:+: text ∧ text.getLast? ≠ some '\r' ∧
      withReturns (· = 0) 0 text ++ [true, false].flatMap lineEnd = mixed ∧
      commentMode .normal front = .normal ∧ Position.start.past front = ⟨3, 4⟩ ∧
      ∃ a, Analysis.ofText text = .ok a ∧ Analysis.ofText mixed = .ok a ∧
        a.report.toList.filter (·.position = ⟨3, 4⟩) =
          [⟨.unrecognizedCharacter, ⟨3, 4⟩, "'\r' undefined identifier"⟩] := by
  intro front text mixed
  have hpair : ¬ ['\r', '\n'] <:+: text := by decide +kernel
  have hlast : text.getLast? ≠ some '\r' := by decide +kernel
  have hmixed : withReturns (· = 0) 0 text ++ [true, false].flatMap lineEnd = mixed := by
    decide +kernel
  have hmode : commentMode .normal front = .normal := by decide +kernel
  have hplace : Position.start.past front = ⟨3, 4⟩ := by decide +kernel
  obtain ⟨hforms, hstray⟩ := line_end_form_is_invisible
  obtain ⟨a, ha, hsame⟩ := hforms text hpair hlast (· = 0) [true, false]
  obtain ⟨b, hb, -, hreport⟩ := hstray front "z".toList (by decide +kernel) hmode
  obtain rfl := Except.ok.inj (ha.symm.trans hb)
  rw [hmixed] at hsame
  rw [hplace] at hreport
  exact ⟨hpair, hlast, hmixed, hmode, hplace, a, ha, hsame, hreport⟩

end LexicalAnalyzer
