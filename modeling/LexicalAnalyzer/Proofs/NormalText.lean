import LexicalAnalyzer.Proofs.Rescanning
import LexicalAnalyzer.Proofs.Splicing

/-!
The normal text of a line: the lexemes of its tokens, joined by single spaces. Each lexeme was cut
out in front of a text that is gone, so it has to stand by itself. Then the normal text reads as the
tokens it is made of, with the same things wrong about them, and is its own normal text.
-/
namespace LexicalAnalyzer

def normalText (ts : List Token) : List Char :=
  [' '].intercalate (ts.map fun t => t.lexeme.toList)

/-- What a diagnostic says, wherever it stands. -/
def Diagnostic.content (d : Diagnostic) : DiagnosticKind × String := (d.kind, d.message)

/-- A token's lexeme by itself is scanned as the token. -/
theorem Token.Sound.scanLine_lexeme {t : Token} (h : t.Sound) (line : Nat) (report : Report) :
    (scanLine t.lexeme.toList line .normal report).tokens.map Token.content = [t.content] ∧
      (scanLine t.lexeme.toList line .normal report).mode = .normal := by
  have hreading : LineReading line .normal 1 t.lexeme.toList
      [⟨t.kind, .ofList t.lexeme.toList, ⟨line, 1⟩⟩] .normal :=
    .token (List.append_nil _).symm h.head_ne_space h.not_opening h.munches h.covers (.done _ _)
  rw [hreading.scanLine_eq report]
  simp [Token.content]

/-- The lexemes on lines of their own are scanned as the tokens, and no line leaves a comment
open. -/
theorem scanLines_lexemes {ts : List Token} (hts : ∀ t ∈ ts, t.Sound) (number : Nat)
    (report : Report) :
    let lines := scanLines number .normal report (ts.map fun t => t.lexeme.toList)
    lines.flatMap (·.scan.tokens.map Token.content) = ts.map Token.content ∧
      modeBehind .normal lines = .normal := by
  induction ts generalizing number report with
  | nil => exact ⟨rfl, rfl⟩
  | cons t ts ih =>
    obtain ⟨htoken, hmode⟩ := (hts t (by simp)).scanLine_lexeme number report
    obtain ⟨htokens, hlast⟩ := ih (fun s hs => hts s (by simp [hs])) (number + 1)
      (scanLine t.lexeme.toList number .normal report).report
    simp only [List.map_cons, scanLines, List.flatMap_cons, hmode, htoken, htokens]
    exact ⟨rfl, by rw [modeBehind, List.foldl_cons, hmode]; exact hlast⟩

theorem scanLine_normalText {ts : List Token} (hts : ∀ t ∈ ts, t.Sound) (line : Nat)
    (report : Report) :
    (scanLine (normalText ts) line .normal report).tokens.map Token.content =
        ts.map Token.content ∧
      (scanLine (normalText ts) line .normal report).mode = .normal := by
  obtain ⟨htokens, hmode⟩ :=
    scanLine_intercalate (ts.map fun t => t.lexeme.toList) line line .normal report report
  obtain ⟨hcontent, hlast⟩ := scanLines_lexemes hts line report
  exact ⟨htokens.trans hcontent, hmode.trans hlast⟩

theorem normalText_congr {ts us : List Token} (h : ts.map Token.content = us.map Token.content) :
    normalText ts = normalText us := by
  have hlexemes : ∀ vs : List Token, vs.map (fun t => t.lexeme.toList) =
      (vs.map Token.content).map fun c => c.2.toList := by
    intro vs
    rw [List.map_map]
    rfl
  rw [normalText, normalText, hlexemes ts, hlexemes us, h]

/-- What is wrong with tokens is told by what they are. -/
theorem map_content_diagnostics {ts us : List Token}
    (h : ts.map Token.content = us.map Token.content) :
    (ts.filterMap Token.diagnostic?).map Diagnostic.content =
      (us.filterMap Token.diagnostic?).map Diagnostic.content := by
  have hcontent : ∀ t : Token, t.diagnostic?.map Diagnostic.content =
      (Token.diagnostic? ⟨t.content.1, t.content.2, .unknown⟩).map Diagnostic.content := by
    intro t
    have hmoved := t.diagnostic?_relocate fun _ => .unknown
    rw [show (⟨t.content.1, t.content.2, .unknown⟩ : Token) = t.relocate fun _ => .unknown from rfl,
      hmoved, Option.map_map]
    rfl
  have hall : ∀ vs : List Token, (vs.filterMap Token.diagnostic?).map Diagnostic.content =
      (vs.map Token.content).filterMap fun c =>
        (Token.diagnostic? ⟨c.1, c.2, .unknown⟩).map Diagnostic.content := by
    intro vs
    rw [List.map_filterMap, List.filterMap_map]
    exact congrArg (vs.filterMap ·) (funext hcontent)
  rw [hall ts, hall us, h]

/-- Scanning normal text is a fixed point. The tokens of any line, error tokens and malformed
numerals included, come out of their normal text again, kind by kind and lexeme by lexeme, with the
same diagnostics in the same order, and the scan of it ends outside comments. -/
theorem normal_text_rescans (text : List Char) (line : Nat) (mode : Mode) (report : Report)
    (line' : Nat) (report' : Report) :
    let first := scanLine text line mode report
    let again := scanLine (normalText first.tokens) line' .normal report'
    again.tokens.length = first.tokens.length ∧
    again.tokens.map Token.content = first.tokens.map Token.content ∧
    again.mode = .normal ∧
    normalText again.tokens = normalText first.tokens ∧
    ∃ ds es, first.report.toList = report.toList ++ ds ∧
      again.report.toList = report'.toList ++ es ∧
      es.map Diagnostic.content = ds.map Diagnostic.content := by
  intro first again
  have hsound : ∀ t ∈ first.tokens, t.Sound := (lineReading_scanLine text line mode report).sound
  obtain ⟨hcontent, hmode⟩ := scanLine_normalText hsound line' report'
  have hlength : again.tokens.length = first.tokens.length := by
    simpa using congrArg List.length hcontent
  exact ⟨hlength, hcontent, hmode, normalText_congr hcontent,
    first.tokens.filterMap Token.diagnostic?, again.tokens.filterMap Token.diagnostic?,
    toList_report_scanLine .., toList_report_scanLine .., map_content_diagnostics hcontent⟩

/-- Spaces part what a sign, a comment or a suffix has parted before. -/
example : normalText (scanLine "1E+x </*@*/=4h5".toList 1 .normal {}).tokens =
    "1E + x < = 4h 5".toList := by decide +kernel

end LexicalAnalyzer
