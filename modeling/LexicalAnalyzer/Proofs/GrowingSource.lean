import LexicalAnalyzer.Proofs.Interning

/-!
A source that grows at its end. The lines of two texts with a line feed between them are those of
the first, perhaps an empty one, and those of the second. A scan goes on from the mode in which it
stopped, and an analysis from its tables, so what has been found in the first text stays as it is
and the second adds to it at the end.
-/
namespace LexicalAnalyzer

theorem tokensOf_append (scanned more : List ScannedLine) :
    tokensOf (scanned ++ more) = tokensOf scanned ++ tokensOf more :=
  List.flatMap_append

theorem modeBehind_append (mode : Mode) (scanned more : List ScannedLine) :
    modeBehind mode (scanned ++ more) = modeBehind (modeBehind mode scanned) more :=
  List.foldl_append

section Lines

variable (number : Nat) (mode : Mode) (report : Report) (texts : List (List Char))

/-- Lines are scanned from the mode and with the report that those in front of them leave. -/
theorem scanLines_append (more : List (List Char)) :
    scanLines number mode report (texts ++ more) = scanLines number mode report texts ++
      scanLines (number + texts.length) (modeBehind mode (scanLines number mode report texts))
        (reportBehind report (scanLines number mode report texts)) more := by
  induction texts generalizing number mode report with
  | nil => rfl
  | cons text texts ih =>
    rw [List.cons_append, scanLines, ih, List.length_cons, Nat.add_right_comm, Nat.add_assoc]
    rfl

/-- What has been reported before matters neither to the tokens of lines nor to the mode behind
them. -/
theorem scanLines_report (report' : Report) :
    tokensOf (scanLines number mode report texts) = tokensOf (scanLines number mode report' texts) ∧
      modeBehind mode (scanLines number mode report texts) =
        modeBehind mode (scanLines number mode report' texts) := by
  induction texts generalizing number mode report report' with
  | nil => exact ⟨rfl, rfl⟩
  | cons text texts ih =>
    have hline := (lineReading_scanLine text number mode report').scanLine_eq report
    obtain ⟨htokens, hmode⟩ := ih (number + 1) (scanLine text number mode report').mode
      (scanLine text number mode report).report (scanLine text number mode report').report
    simp only [scanLines, tokensOf, modeBehind, List.flatMap_cons, List.foldl_cons]
      at htokens hmode ⊢
    rw [hline] at htokens hmode ⊢
    exact ⟨by rw [htokens], hmode⟩

end Lines

/-- An empty line at the end has no tokens and keeps the mode. -/
theorem scanLines_blank (number : Nat) (mode : Mode) (report : Report)
    (texts : List (List Char)) :
    tokensOf (scanLines number mode report (texts ++ [[]])) =
        tokensOf (scanLines number mode report texts) ∧
      modeBehind mode (scanLines number mode report (texts ++ [[]])) =
        modeBehind mode (scanLines number mode report texts) := by
  rw [scanLines_append, tokensOf_append, modeBehind_append]
  simp only [scanLines, tokensOf, modeBehind, (LineReading.done _ 1).scanLine_eq]
  exact ⟨by simp, rfl⟩

/-- The scan of a text to which a line feed and more is added: the scan of the text, and then that
of the lines added, from the mode behind the text and under the numbers that follow. -/
theorem scanText_append_feed {front : List Char} (h : front.getLast? ≠ some '\r')
    (more : List Char) :
    let last := modeBehind .normal (scanText front)
    let added := scanLines (2 + front.count '\n') last {} (lines more)
    tokensOf (scanText (front ++ '\n' :: more)) = tokensOf (scanText front) ++ tokensOf added ∧
      modeBehind .normal (scanText (front ++ '\n' :: more)) = modeBehind last added := by
  intro last added
  obtain ⟨htokens, hmode⟩ : tokensOf (scanLines 1 .normal {} (lines (front ++ ['\n']))) =
      tokensOf (scanText front) ∧
      modeBehind .normal (scanLines 1 .normal {} (lines (front ++ ['\n']))) = last := by
    rcases lines_feed h with hl | hl
    · rw [hl]
      exact ⟨rfl, rfl⟩
    · rw [hl]
      exact scanLines_blank 1 .normal {} (lines front)
  have hnumber : 1 + (lines (front ++ ['\n'])).length = 2 + front.count '\n' := by
    rw [length_lines_feed]
    omega
  obtain ⟨hadded, hlast⟩ := scanLines_report (2 + front.count '\n') last
    (reportBehind {} (scanLines 1 .normal {} (lines (front ++ ['\n'])))) (lines more) {}
  rw [scanText, lines_append_feed, scanLines_append, tokensOf_append, modeBehind_append, htokens,
    hmode, hnumber, hadded, hlast]
  exact ⟨rfl, rfl⟩

namespace Analysis

variable {a b : Analysis} {ts : List Token}

/-- The analysis with references in front of its own, and with another report and mode. -/
def placed (a : Analysis) (rs : Array Reference) (report : Report) (mode : Mode) : Analysis :=
  { a with references := rs ++ a.references, report, mode }

/-- Where an analysis goes on: its tables and its mode, and nothing referenced or reported yet. -/
def seam (a : Analysis) : Analysis := { vocabulary := a.vocabulary, mode := a.mode }

/-- A token is taken in by the tables alone. -/
theorem record_placed (a : Analysis) (rs : Array Reference) (report : Report) (mode : Mode)
    (t : Token) :
    (a.placed rs report mode).record t = (a.record t).map (·.placed rs report mode) := by
  simp only [record, placed]
  cases t.kind.table? with
  | none => rfl
  | some table =>
    simp only
    cases a.vocabulary.intern table t.lexeme with
    | error e => rfl
    | ok interned => simp [Except.map]

theorem foldlM_record_placed (rs : Array Reference) (report : Report) (mode : Mode)
    (h : ts.foldlM record a = .ok b) :
    ts.foldlM record (a.placed rs report mode) = .ok (b.placed rs report mode) := by
  induction ts generalizing a with
  | nil =>
    obtain rfl := Except.ok.inj h
    rfl
  | cons t ts ih =>
    rw [List.foldlM_cons] at h ⊢
    rw [record_placed]
    cases hr : a.record t with
    | error e =>
      rw [hr] at h
      cases h
    | ok c =>
      rw [hr] at h
      exact ih h

/-- Lines taken in where an analysis goes on: their tokens are never refused, and what is wrong with
them is all that is reported. -/
theorem exists_extend_seam (a : Analysis) (number : Nat) (texts : List (List Char)) :
    let added := scanLines number a.mode {} texts
    ∃ b, (tokensOf added).foldlM record a.seam = .ok b ∧ a.seam.Takes (tokensOf added) b ∧
      ∃ c, a.seam.extend added = .ok c ∧ c.vocabulary = b.vocabulary ∧
        c.references = b.references ∧
        c.report.toList = (tokensOf added).filterMap Token.diagnostic? ∧
        c.mode = modeBehind a.mode added := by
  intro added
  have hsound := sound_of_mem_scanLines number a.mode {} texts
  obtain ⟨b, hb, htakes⟩ := foldlM_record_takes a.seam fun t ht => (hsound t ht).covers
  refine ⟨b, hb, htakes, _, extend_eq hb, rfl, rfl, ?_, ?_⟩
  · rw [htakes.report]
    exact (congrArg Report.toList (reportBehind_scanLines number a.mode {} texts)).trans
      (Report.toList_recordAll _ _)
  · rw [htakes.mode]
    rfl

end Analysis

/-- An analysis only grows at its ends when its source does. Where a text that does not end in a
carriage return is followed by a line feed and more, the references and the diagnostics are those of
the text and then those of the lines added, scanned from the mode in which the text ends, under the
numbers that follow, and taken into its tables. Those tables go on as they were, so no index, no
position and no diagnostic of the text ever changes. -/
theorem analysis_grows_at_ends {front : List Char} (h : front.getLast? ≠ some '\r')
    (more : List Char) :
    ∃ a b c, Analysis.ofText front = .ok a ∧ Analysis.ofText (front ++ '\n' :: more) = .ok b ∧
      a.seam.extend (scanLines (2 + front.count '\n') a.mode {} (lines more)) = .ok c ∧
      b.references.toList = a.references.toList ++ c.references.toList ∧
      b.report.toList = a.report.toList ++ c.report.toList ∧
      (∀ table, a.vocabulary.entries table <+: b.vocabulary.entries table) ∧
      b.vocabulary = c.vocabulary ∧ b.mode = c.mode := by
  obtain ⟨htokens, hmode⟩ := scanText_append_feed h more
  obtain ⟨x, hx, htakes, ha⟩ := Analysis.exists_ofText front
  generalize haccount : ({ x with
    report := reportBehind x.report (scanText front),
    mode := modeBehind x.mode (scanText front) } : Analysis) = a at ha
  have hlast : a.mode = modeBehind .normal (scanText front) := by
    rw [← haccount, htakes.mode]
  obtain ⟨z, hz, hztakes, c, hc, hvocabulary, hreferences, hreport, hcmode⟩ :=
    a.exists_extend_seam (2 + front.count '\n') (lines more)
  rw [← hlast] at htokens hmode
  -- Behind the tokens of the text those added are taken in as they are by themselves.
  have hwhole : (tokensOf (scanText (front ++ '\n' :: more))).foldlM Analysis.record {} =
      .ok (z.placed x.references x.report x.mode) := by
    have hplaced := Analysis.foldlM_record_placed x.references x.report x.mode hz
    rw [htokens, List.foldlM_append, hx]
    simp only [Analysis.placed, Analysis.seam, ← haccount, Array.append_empty] at hplaced ⊢
    exact hplaced
  have hb := Analysis.extend_eq hwhole
  refine ⟨a, _, c, ha, hb, hc, ?_, ?_, ?_, hvocabulary.symm, ?_⟩
  · simp [Analysis.placed, hreferences, ← haccount]
  · have hfront := (Analysis.accountsFor_of_ofText ha).report
    have hboth := (Analysis.accountsFor_of_ofText hb).report
    rw [htokens, List.filterMap_append, ← hfront, ← hreport] at hboth
    exact hboth
  · simp only [Analysis.placed, hztakes.vocabulary]
    exact Vocabulary.extends_takeIn a.vocabulary _
  · simp only [Analysis.placed, htakes.mode, hcmode]
    exact hmode

/-- A comment is left open at the seam, and behind it a number and an identifier come up. -/
theorem analysis_grows_at_ends_open_comment :
    let front := "x 1 @ /* y\n".toList
    let more := "y */ 2 x #".toList
    front.getLast? ≠ some '\r' ∧
      ∃ a b c, Analysis.ofText front = .ok a ∧ Analysis.ofText (front ++ '\n' :: more) = .ok b ∧
        a.seam.extend (scanLines 3 a.mode {} (lines more)) = .ok c ∧
        c.references.toList = [⟨3, .number, 1⟩, ⟨3, .identifier, 0⟩] ∧
        a.report.toList <+: b.report.toList := by
  intro front more
  have hseam : front.getLast? ≠ some '\r' := by decide
  obtain ⟨a, b, c, ha, hb, hc, hreferences, hreport, _⟩ := analysis_grows_at_ends hseam more
  have hfront : (Analysis.ofText front).map (fun a => a.references.toList) =
      .ok [⟨1, .identifier, 0⟩, ⟨1, .number, 0⟩] := by
    decide +kernel
  have hboth : (Analysis.ofText (front ++ '\n' :: more)).map (fun b => b.references.toList) =
      .ok ([⟨1, .identifier, 0⟩, ⟨1, .number, 0⟩] ++
        [⟨3, .number, 1⟩, ⟨3, .identifier, 0⟩]) := by
    decide +kernel
  rw [ha, Except.map, Except.ok.injEq] at hfront
  rw [hb, Except.map, Except.ok.injEq] at hboth
  have hadded : a.references.toList ++ c.references.toList =
      a.references.toList ++ [⟨3, .number, 1⟩, ⟨3, .identifier, 0⟩] := by
    rw [← hreferences, hboth, hfront]
  have hnumber : 2 + front.count '\n' = 3 := by decide
  rw [hnumber] at hc
  exact ⟨hseam, a, b, c, ha, hb, hc, List.append_cancel_left hadded, ⟨_, hreport.symm⟩⟩

end LexicalAnalyzer
