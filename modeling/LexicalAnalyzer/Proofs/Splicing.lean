import LexicalAnalyzer.Proofs.CommentBlanks

/-!
Lines put together. A character of no class ends whatever stands in front of it just as the end of
a line does, so a line with such a character in it is scanned as the two lines on its sides, the
second from the mode in which the first ends. Lines joined by spaces read as the lines themselves,
scanned one by one.
-/
namespace LexicalAnalyzer

def Position.shift (n : Nat) (p : Position) : Position := { p with column := p.column + n }

/-- The token in another place. -/
def Token.relocate (f : Position → Position) (t : Token) : Token :=
  { t with position := f t.position }

def Diagnostic.relocate (f : Position → Position) (d : Diagnostic) : Diagnostic :=
  { d with position := f d.position }

/-- What a token is, wherever it stands. -/
def Token.content (t : Token) : TokenKind × String := (t.kind, t.lexeme)

/-- What a character of no class leaves behind: an error token, unless it is a space or stands in a
comment. -/
def strayTokens (mode : Mode) (c : Char) (position : Position) : List Token :=
  if mode = .normal ∧ c ≠ ' ' then [⟨.error, .ofList [c], position⟩] else []

theorem ne_of_invalid {c x : Char} (hc : CharClass.of c = .invalid)
    (hx : CharClass.of x ≠ .invalid) : c ≠ x := by
  rintro rfl
  exact hx hc

theorem Token.diagnostic?_relocate (f : Position → Position) (t : Token) :
    (t.relocate f).diagnostic? = t.diagnostic?.map (Diagnostic.relocate f) := by
  rcases t with ⟨kind, lexeme, position⟩
  cases kind with
  | number =>
    by_cases h : isValidNumeral lexeme.toList
    · simp [Token.diagnostic?, relocate, h]
    · simp [Token.diagnostic?, relocate, h, Diagnostic.relocate]
  | _ => rfl

theorem filterMap_diagnostic?_relocate (f : Position → Position) (ts : List Token) :
    (ts.map (Token.relocate f)).filterMap Token.diagnostic? =
      (ts.filterMap Token.diagnostic?).map (Diagnostic.relocate f) := by
  rw [List.filterMap_map, List.map_filterMap]
  congr 1
  funext t
  exact t.diagnostic?_relocate f

theorem filterMap_diagnostic?_strayTokens (mode : Mode) (c : Char) (position : Position) :
    (strayTokens mode c position).filterMap Token.diagnostic? =
      (strayTokens mode c position).map fun t =>
        ⟨.unrecognizedCharacter, t.position, Diagnostic.undefinedMessage t.lexeme⟩ := by
  unfold strayTokens
  split <;> rfl

namespace LineReading

variable {line column : Nat} {mode last : Mode} {text : List Char} {ts : List Token}

/-- A text reads the same on any line and from any column, but for the places of its tokens. -/
theorem relocate {f : Position → Position} {line' n : Nat}
    (hf : ∀ column, f ⟨line, column⟩ = ⟨line', column + n⟩)
    (h : LineReading line mode column text ts last) :
    LineReading line' mode (column + n) text (ts.map (Token.relocate f)) last := by
  induction h with
  | done mode column => exact done mode (column + n)
  | @space column cs ts last _ ih =>
    rw [Nat.add_right_comm] at ih
    exact space ih
  | @opening column cs ts last _ ih =>
    rw [Nat.add_right_comm] at ih
    exact opening ih
  | @token column text w cs kind ts last ht hs ho hm hk _ ih =>
    rw [Nat.add_right_comm] at ih
    rw [List.map_cons, Token.relocate, hf]
    exact token ht hs ho hm hk ih
  | @closing column cs ts last _ ih =>
    rw [Nat.add_right_comm] at ih
    exact closing ih
  | @inside column c cs ts last hc _ ih =>
    rw [Nat.add_right_comm] at ih
    exact inside hc ih

/-- A character of no class reads as itself alone, whatever is behind it. -/
theorem stray {c : Char} (hc : CharClass.of c = .invalid) {behind : List Char}
    (h : LineReading line mode (column + 1) behind ts last) :
    LineReading line mode column (c :: behind) (strayTokens mode c ⟨line, column⟩ ++ ts) last := by
  cases mode with
  | comment =>
    refine inside ?_ h
    intro hclose
    exact ne_of_invalid hc (by decide) (List.cons_prefix_cons.mp hclose).1.symm
  | normal =>
    by_cases hsp : c = ' '
    · subst hsp
      exact space h
    · rw [strayTokens, if_pos ⟨rfl, hsp⟩]
      refine token rfl ?_ ?_ (munches_invalid hc behind) ?_ h
      · rintro x ⟨⟩
        exact hsp
      · intro hopen
        exact ne_of_invalid hc (by decide) (List.cons_prefix_cons.mp hopen).1.symm
      · exact fun hl => hl.not_mem_of_invalid hc (by simp)

/-- A text that goes on with a character of no class and more behind it reads as the text up to
there, that character, and what is behind it from the mode in which the text ends. -/
theorem splice {c : Char} (hc : CharClass.of c = .invalid) {behind : List Char}
    {ts' : List Token} {last' : Mode} {place : Nat}
    (h : LineReading line mode column text ts last) (hp : place = column + text.length)
    (h' : LineReading line last (place + 1) behind ts' last') :
    LineReading line mode column (text ++ c :: behind)
      (ts ++ strayTokens last c ⟨line, place⟩ ++ ts') last' := by
  have hstar : ∀ x ∈ (c :: behind).head?, x ≠ '*' := by
    rintro x ⟨⟩
    exact ne_of_invalid hc (by decide)
  have hslash : ∀ x ∈ (c :: behind).head?, x ≠ '/' := by
    rintro x ⟨⟩
    exact ne_of_invalid hc (by decide)
  induction h with
  | done mode column =>
    subst hp
    exact stray hc h'
  | @space column cs ts last _ ih =>
    simp only [List.length_cons] at hp
    exact space (ih (by omega) h')
  | @opening column cs ts last _ ih =>
    simp only [List.length_cons] at hp
    exact opening (ih (by omega) h')
  | @token column text w cs kind ts last ht hs ho hm hk _ ih =>
    subst ht
    have hne : w ++ cs ≠ [] := by simp [hm.ne_nil]
    have hbreaks : StartsApart (c :: behind) := by
      rintro x ⟨⟩
      exact breaks_of_invalid hc
    simp only [List.length_append] at hp
    refine token (List.append_assoc w cs _) ?_ ?_ ?_ hk (ih (by omega) h')
    · obtain ⟨x, xs, hx⟩ := List.exists_cons_of_ne_nil hne
      rw [hx] at hs ⊢
      exact hs
    · rwa [pair_prefix_append_iff hne hstar]
    · rwa [munches_append_iff hne hbreaks]
  | @closing column cs ts last _ ih =>
    simp only [List.length_cons] at hp
    exact closing (ih (by omega) h')
  | @inside column x cs ts last hx _ ih =>
    simp only [List.length_cons] at hp
    refine inside ?_ (ih (by omega) h')
    intro hclose
    exact hx ((pair_prefix_append_iff (by simp) hslash).mp hclose)

end LineReading

/-- A line with a character of no class in it is scanned as the two lines on its sides. -/
theorem scanLine_append_invalid {c : Char} (hc : CharClass.of c = .invalid)
    (front behind : List Char) (line : Nat) (mode : Mode) (report : Report) :
    let first := scanLine front line mode {}
    let second := scanLine behind line first.mode {}
    let stray := strayTokens first.mode c ⟨line, front.length + 1⟩
    let shift := Position.shift (front.length + 1)
    let whole := scanLine (front ++ c :: behind) line mode report
    whole.tokens = first.tokens ++ stray ++ second.tokens.map (Token.relocate shift) ∧
    whole.mode = second.mode ∧
    whole.report.toList = report.toList ++ first.report.toList ++
      stray.map (fun t =>
        ⟨.unrecognizedCharacter, t.position, Diagnostic.undefinedMessage t.lexeme⟩) ++
      second.report.toList.map (Diagnostic.relocate shift) := by
  intro first second stray shift whole
  have hfirst : LineReading line mode 1 front first.tokens first.mode :=
    lineReading_scanLine front line mode {}
  have hsecond : LineReading line first.mode 1 behind second.tokens second.mode :=
    lineReading_scanLine behind line first.mode {}
  have hmoved : LineReading line first.mode (1 + (front.length + 1)) behind
      (second.tokens.map (Token.relocate shift)) second.mode :=
    hsecond.relocate fun _ => rfl
  rw [Nat.add_comm 1] at hmoved
  have hwhole : whole = ⟨_, second.mode, _⟩ :=
    (hfirst.splice hc (Nat.add_comm front.length 1) hmoved).scanLine_eq report
  have hreport : ∀ (text : List Char) (start : Mode), (scanLine text line start {}).report.toList =
      (scanLine text line start {}).tokens.filterMap Token.diagnostic? := by
    intro text start
    rw [toList_report_scanLine]
    rfl
  rw [hwhole]
  refine ⟨rfl, rfl, ?_⟩
  simp only [Report.toList_recordAll, List.filterMap_append, filterMap_diagnostic?_strayTokens,
    filterMap_diagnostic?_relocate, first, second, hreport, List.append_assoc]
  rfl

/-- What a line reads as depends neither on its number nor on what has been reported before. -/
theorem content_scanLine (text : List Char) (mode : Mode) (line line' : Nat)
    (report report' : Report) :
    (scanLine text line mode report).tokens.map Token.content =
      (scanLine text line' mode report').tokens.map Token.content ∧
    (scanLine text line mode report).mode = (scanLine text line' mode report').mode := by
  have h := (lineReading_scanLine text line' mode report').relocate (n := 0)
    (f := fun p => ⟨line, p.column⟩) fun _ => rfl
  rw [h.scanLine_eq report, List.map_map]
  exact ⟨rfl, rfl⟩

/-- The mode behind lines, scanned from a mode. -/
def modeBehind (mode : Mode) (scanned : List ScannedLine) : Mode :=
  scanned.foldl (fun _ line => line.scan.mode) mode

/-- Lines joined by spaces read as the lines one by one. -/
theorem scanLine_intercalate (texts : List (List Char)) (number line : Nat) (mode : Mode)
    (report report' : Report) :
    (scanLine ([' '].intercalate texts) line mode report').tokens.map Token.content =
      (scanLines number mode report texts).flatMap (·.scan.tokens.map Token.content) ∧
    (scanLine ([' '].intercalate texts) line mode report').mode =
      modeBehind mode (scanLines number mode report texts) := by
  induction texts generalizing number line mode report report' with
  | nil =>
    rw [List.intercalate_nil, (LineReading.done mode 1).scanLine_eq report']
    exact ⟨rfl, rfl⟩
  | cons text texts ih =>
    by_cases hne : texts = []
    · subst hne
      obtain ⟨htokens, hmode⟩ := content_scanLine text mode line number report' report
      simpa [scanLines, modeBehind] using ⟨htokens, hmode⟩
    · obtain ⟨htokens, hmode⟩ := content_scanLine text mode line number {} report
      obtain ⟨ihtokens, ihmode⟩ := ih (number + 1) line (scanLine text number mode report).mode
        (scanLine text number mode report).report {}
      have hspace : CharClass.of ' ' = .invalid := by decide
      obtain ⟨hall, hlast, _⟩ :=
        scanLine_append_invalid hspace text ([' '].intercalate texts) line mode report'
      have hcontent : ∀ f, Token.content ∘ Token.relocate f = Token.content := fun _ => rfl
      rw [List.intercalate_cons_of_ne_nil hne, List.append_assoc, List.singleton_append, hall,
        hlast, scanLines, List.flatMap_cons, ← ihtokens, ← htokens, hmode]
      refine ⟨?_, ihmode⟩
      simp [strayTokens, hcontent]

/-- The scan is compositional. A character of no class splits a line: what is in front of it and
what is behind it are scanned as lines of their own, the second from the mode behind the first, and
the character adds one error token with its diagnostic, unless it is a space or stands in a comment.
So lines joined by spaces read as the lines one by one. -/
theorem scanLine_composes :
    (∀ c, CharClass.of c = .invalid → ∀ front behind line mode report,
      let first := scanLine front line mode {}
      let second := scanLine behind line first.mode {}
      let stray := strayTokens first.mode c ⟨line, front.length + 1⟩
      let shift := Position.shift (front.length + 1)
      let whole := scanLine (front ++ c :: behind) line mode report
      whole.tokens = first.tokens ++ stray ++ second.tokens.map (Token.relocate shift) ∧
      whole.mode = second.mode ∧
      whole.report.toList = report.toList ++ first.report.toList ++
        stray.map (fun t =>
          ⟨.unrecognizedCharacter, t.position, Diagnostic.undefinedMessage t.lexeme⟩) ++
        second.report.toList.map (Diagnostic.relocate shift)) ∧
    ∀ texts number line mode report report',
      let whole := scanLine ([' '].intercalate texts) line mode report'
      let lines := scanLines number mode report texts
      whole.tokens.map Token.content = lines.flatMap (·.scan.tokens.map Token.content) ∧
      whole.mode = modeBehind mode lines := by
  constructor
  · intro c hc front behind line mode report
    exact scanLine_append_invalid hc front behind line mode report
  · intro texts number line mode report report'
    exact scanLine_intercalate texts number line mode report report'

/-- A tab parts a pending exponent from its digits as the end of a line does. -/
theorem scanLine_composes_tab :
    CharClass.of '\t' = .invalid ∧
    (scanLine "1E+\t5".toList 1 .normal {}).tokens =
      (scanLine "1E+".toList 1 .normal {}).tokens ++ [⟨.error, "\t", ⟨1, 4⟩⟩] ++
        (scanLine "5".toList 1 .normal {}).tokens.map (Token.relocate (Position.shift 4)) := by
  have hc : CharClass.of '\t' = .invalid := by decide
  have hmode : (scanLine "1E+".toList 1 .normal {}).mode = .normal := by decide +kernel
  have h := (scanLine_composes.1 '\t' hc "1E+".toList "5".toList 1 .normal {}).1
  rw [hmode] at h
  exact ⟨hc, h⟩

end LexicalAnalyzer
