import LexicalAnalyzer.Proofs.GrowingSource
import LexicalAnalyzer.Proofs.Lookahead

/-!
A text on one line. Line ends are characters of no class, and so are spaces, so a text reads as the
one line in which spaces stand for its line ends, every token of it moved to where it stands in the
text. What lies between two parts of a text and reads as nothing can therefore be left out of
account, and a character of no class outside comments is one error in its place.
-/
namespace LexicalAnalyzer

/-- The text on one line. A carriage return in front of a line feed belongs to the end of its line,
any other one stays. -/
def onOneLine : List Char → List Char
  | [] => []
  | '\r' :: '\n' :: rest => ' ' :: ' ' :: onOneLine rest
  | c :: rest => (if c = '\n' then ' ' else c) :: onOneLine rest

namespace Position

/-- The place behind a character. -/
def next (p : Position) (c : Char) : Position :=
  if c = '\n' then ⟨p.line + 1, 1⟩ else ⟨p.line, p.column + 1⟩

/-- The place behind a text. -/
def past (p : Position) (text : List Char) : Position := text.foldl next p

/-- Where a text starts. -/
def start : Position := ⟨1, 1⟩

theorem past_append (p : Position) (front behind : List Char) :
    p.past (front ++ behind) = (p.past front).past behind :=
  List.foldl_append

theorem past_of_no_feed (p : Position) {text : List Char} (h : '\n' ∉ text) :
    p.past text = ⟨p.line, p.column + text.length⟩ := by
  induction text generalizing p with
  | nil => rfl
  | cons c text ih =>
    have hc : c ≠ '\n' := (List.ne_of_not_mem_cons h).symm
    have hrest : '\n' ∉ text := List.not_mem_of_not_mem_cons h
    have hnext : p.next c = ⟨p.line, p.column + 1⟩ := if_neg hc
    rw [past, List.foldl_cons, hnext]
    change past _ text = _
    rw [ih _ hrest, List.length_cons, Nat.add_assoc, Nat.add_comm 1]

end Position

/-- The mode behind a text, as the plain scan of its characters finds it. -/
def commentMode (mode : Mode) (text : List Char) : Mode := (commentMarks mode text).2

theorem commentMode_eq (mode : Mode) (text : List Char) (line : Nat) (report : Report) :
    commentMode mode text = (scanLine text line mode report).mode :=
  ((lineReading_scanLine text line mode report).blanked.2).symm

/-- The plain scan may be stopped at a character of no class and taken up behind it. -/
theorem commentMode_append_invalid {c : Char} (hc : CharClass.of c = .invalid) (mode : Mode)
    (front behind : List Char) : commentMode mode (front ++ c :: behind) =
      commentMode (commentMode mode front) behind := by
  rw [commentMode_eq mode _ 1 {}, commentMode_eq mode front 1 {}, commentMode_eq _ behind 1 {}]
  exact (scanLine_append_invalid hc front behind 1 mode {}).2.1

/-- The same with a run of such characters. -/
theorem commentMode_append_run {run : List Char} (hne : run ≠ [])
    (h : ∀ c ∈ run, CharClass.of c = .invalid) (mode : Mode) (front behind : List Char) :
    commentMode mode (front ++ run ++ behind) = commentMode (commentMode mode front) behind := by
  induction run generalizing front mode with
  | nil => exact absurd rfl hne
  | cons c run ih =>
    have hc : CharClass.of c = .invalid := h c (by simp)
    rw [List.append_assoc, List.cons_append, commentMode_append_invalid hc]
    by_cases hrun : run = []
    · rw [hrun, List.nil_append]
    · exact ih hrun (fun x hx => h x (by simp [hx])) (commentMode mode front) []

theorem onOneLine_append {front behind : List Char}
    (h : front.getLast? = some '\r' → behind.head? ≠ some '\n') :
    onOneLine (front ++ behind) = onOneLine front ++ onOneLine behind := by
  fun_induction onOneLine front with
  | case1 => rfl
  | case2 rest ih =>
    have hrest : rest.getLast? = some '\r' → behind.head? ≠ some '\n' := by
      intro hr
      apply h
      simp [List.getLast?_cons, hr]
    simp [onOneLine, ih hrest]
  | case3 c rest hc ih =>
    have hrest : rest.getLast? = some '\r' → behind.head? ≠ some '\n' := by
      intro hr
      apply h
      simp [List.getLast?_cons, hr]
    have hpair : ∀ more, c = '\r' → rest ++ behind ≠ '\n' :: more := by
      rintro more rfl hmore
      cases rest with
      | nil => exact h rfl (by simp_all)
      | cons x rest =>
        obtain ⟨rfl, -⟩ := List.cons.inj hmore
        exact hc rest rfl rfl
    rw [List.cons_append, onOneLine, ih hrest]
    · rfl
    · exact hpair

@[simp] theorem length_onOneLine (text : List Char) : (onOneLine text).length = text.length := by
  fun_induction onOneLine text with
  | case1 => rfl
  | case2 rest ih => simp [ih]
  | case3 c rest _ ih => simp [ih]

theorem onOneLine_of_no_feed {text : List Char} (h : '\n' ∉ text) : onOneLine text = text := by
  fun_induction onOneLine text with
  | case1 => rfl
  | case2 rest _ => exact absurd h (by simp)
  | case3 c rest _ ih =>
    have hc : c ≠ '\n' := (List.ne_of_not_mem_cons h).symm
    rw [if_neg hc, ih (List.not_mem_of_not_mem_cons h)]

theorem strayTokens_eq_nil {mode : Mode} {c : Char} (h : mode = .comment ∨ c = ' ')
    {position : Position} : strayTokens mode c position = [] := by
  rw [strayTokens, if_neg]
  rintro ⟨hm, hc⟩
  rcases h with rfl | rfl
  · cases hm
  · exact hc rfl

namespace LineReading

variable {line column : Nat} {mode last : Mode} {text : List Char} {ts : List Token}

/-- The tokens of a text start within it. -/
theorem column_lt (h : LineReading line mode column text ts last) :
    ∀ t ∈ ts, t.position.column < column + text.length := by
  induction h with
  | done => simp
  | space _ ih | opening _ ih | closing _ ih | inside _ _ ih =>
    intro t ht
    have hlt := ih t ht
    simp only [List.length_cons]
    omega
  | @token column text w cs kind ts last ht _ _ hm _ _ ih =>
    have hw : 0 < w.length := List.length_pos_iff.mpr hm.ne_nil
    have hlength : text.length = w.length + cs.length := by rw [ht, List.length_append]
    intro t hmem
    rcases List.mem_cons.mp hmem with rfl | hmem
    · simp only
      omega
    · have hlt := ih t hmem
      omega

/-- A run of characters of no class reads as nothing where it consists of spaces or lies in a
comment. -/
theorem skip {run behind : List Char} (h : ∀ c ∈ run, CharClass.of c = .invalid)
    (hquiet : ∀ c ∈ run, mode = .comment ∨ c = ' ')
    (hb : LineReading line mode (column + run.length) behind ts last) :
    LineReading line mode column (run ++ behind) ts last := by
  induction run generalizing column with
  | nil => exact hb
  | cons c run ih =>
    rw [List.length_cons, Nat.add_comm run.length, ← Nat.add_assoc] at hb
    have hrest := ih (fun x hx => h x (by simp [hx])) (fun x hx => hquiet x (by simp [hx])) hb
    have hall := stray (h c (by simp)) hrest
    rwa [strayTokens_eq_nil (hquiet c (by simp))] at hall

/-- Two texts with such a run between them read as the two, the second from the mode in which the
first ends. -/
theorem bridge {run behind : List Char} {ts' : List Token} {last' : Mode} (hne : run ≠ [])
    (h : ∀ c ∈ run, CharClass.of c = .invalid) (hquiet : ∀ c ∈ run, last = .comment ∨ c = ' ')
    (hf : LineReading line mode column text ts last)
    (hb : LineReading line last (column + (text.length + run.length)) behind ts' last') :
    LineReading line mode column (text ++ run ++ behind) (ts ++ ts') last' := by
  cases run with
  | nil => exact absurd rfl hne
  | cons c run =>
    have hplace : column + (text.length + (c :: run).length) =
        column + text.length + 1 + run.length := by
      rw [List.length_cons]
      omega
    rw [hplace] at hb
    have hrest := skip (fun x hx => h x (by simp [hx])) (fun x hx => hquiet x (by simp [hx])) hb
    have hall := splice (h c (by simp)) hf rfl hrest
    rwa [strayTokens_eq_nil (hquiet c (by simp)), List.append_nil, ← List.cons_append,
      ← List.append_assoc] at hall

end LineReading

/-- The end of a line, with or without a carriage return. -/
def lineEnd (withReturn : Bool) : List Char := if withReturn then ['\r', '\n'] else ['\n']

theorem lineEnd_ne_nil (withReturn : Bool) : lineEnd withReturn ≠ [] := by
  cases withReturn <;> simp [lineEnd]

theorem class_of_mem_lineEnd {withReturn : Bool} :
    ∀ c ∈ lineEnd withReturn, CharClass.of c = .invalid := by
  cases withReturn <;> simp [lineEnd] <;> decide

theorem past_lineEnd (p : Position) (withReturn : Bool) :
    p.past (lineEnd withReturn) = ⟨p.line + 1, 1⟩ := by
  cases withReturn <;> rfl

/-- A text with a line feed in it is a line, the end of that line, and the rest. -/
theorem exists_lineEnd {text : List Char} (h : '\n' ∈ text) :
    ∃ front withReturn rest, text = front ++ lineEnd withReturn ++ rest ∧ '\n' ∉ front ∧
      rest.length < text.length ∧ lines text = front :: lines rest ∧
      ∃ spaces, onOneLine text = onOneLine front ++ spaces ++ onOneLine rest ∧ spaces ≠ [] ∧
        ∀ c ∈ spaces, c = ' ' := by
  obtain ⟨line, rest, rfl, hline⟩ := List.eq_append_cons_of_mem h
  have hlines := lines_append_newline hline rest
  by_cases hreturn : line.getLast? = some '\r'
  · obtain ⟨front, rfl⟩ := List.getLast?_eq_some_iff.mp hreturn
    have hfront : '\n' ∉ front := fun hm => hline (by simp [hm])
    have htrim : Lines.trimReturn (front ++ ['\r']) = front := by simp [Lines.trimReturn]
    refine ⟨front, true, rest, by simp [lineEnd], hfront, by simp; omega, by rw [hlines, htrim],
      [' ', ' '], ?_, by simp, by simp⟩
    rw [List.append_assoc, onOneLine_append (by simp)]
    simp [onOneLine]
  · have htrim : Lines.trimReturn line = line := if_neg hreturn
    refine ⟨line, false, rest, by simp [lineEnd], hline, by simp; omega, by rw [hlines, htrim],
      [' '], ?_, by simp, by simp⟩
    rw [onOneLine_append fun hr => absurd hr hreturn]
    simp [onOneLine]

theorem lines_of_no_feed {text : List Char} (h : '\n' ∉ text) (hne : text ≠ []) :
    lines text = [text] := by
  have hsplit : ∀ passed : List Char, Lines.splitFrom passed text =
      if passed.reverse ++ text = [] then [] else [passed.reverse ++ text] := by
    clear hne
    induction text with
    | nil => intro passed; simp [Lines.splitFrom]
    | cons c text ih =>
      intro passed
      have hc : c ≠ '\n' := (List.ne_of_not_mem_cons h).symm
      rw [Lines.splitFrom, if_neg hc, ih (List.not_mem_of_not_mem_cons h)]
      simp
  rw [lines, hsplit]
  simp [hne]

theorem class_of_space {c : Char} (h : c = ' ') : CharClass.of c = .invalid := by
  subst h
  decide

/-- The plain scan finds the same mode behind a text and behind the text on one line. -/
theorem commentMode_onOneLine (mode : Mode) (text : List Char) :
    commentMode mode (onOneLine text) = commentMode mode text := by
  induction hn : text.length using Nat.strong_induction_on generalizing mode text with
  | _ n ih =>
    by_cases hfeed : '\n' ∈ text
    · obtain ⟨front, withReturn, rest, rfl, hfront, hlt, -, spaces, hone, hne, hspaces⟩ :=
        exists_lineEnd hfeed
      rw [hone, commentMode_append_run hne fun c hc => class_of_space (hspaces c hc),
        commentMode_append_run (lineEnd_ne_nil _) class_of_mem_lineEnd,
        onOneLine_of_no_feed hfront, ih _ (hn ▸ hlt) _ rest rfl]
    · rw [onOneLine_of_no_feed hfeed]

/-- The tokens of a text that is read from a mode and begins in a place: those of the text on one
line, each moved to where it stands in the text. -/
def tokensFrom (mode : Mode) (p : Position) (text : List Char) : List Token :=
  (scanLine (onOneLine text) 1 mode {}).tokens.map
    (Token.relocate fun q => p.past (text.take (q.column - 1)))

/-- A text with a stretch in it that reads as nothing reads as what is in front of the stretch and,
from the mode and the place there, what is behind it. -/
theorem tokensFrom_bridge {front run run' behind : List Char} (mode : Mode) (p : Position)
    (hone : onOneLine (front ++ run ++ behind) = onOneLine front ++ run' ++ onOneLine behind)
    (hne : run' ≠ []) (h : ∀ c ∈ run', CharClass.of c = .invalid)
    (hquiet : ∀ c ∈ run', commentMode mode front = .comment ∨ c = ' ') :
    tokensFrom mode p (front ++ run ++ behind) = tokensFrom mode p front ++
      tokensFrom (commentMode mode front) (p.past (front ++ run)) behind := by
  have hlength : run'.length = run.length := by
    have hsum := congrArg List.length hone
    simp only [length_onOneLine, List.length_append] at hsum
    omega
  have hmode : (scanLine (onOneLine front) 1 mode {}).mode = commentMode mode front := by
    rw [← commentMode_eq, commentMode_onOneLine]
  have hfront := lineReading_scanLine (onOneLine front) 1 mode {}
  rw [hmode] at hfront
  have hbehind := lineReading_scanLine (onOneLine behind) 1 (commentMode mode front) {}
  have hmoved := hbehind.relocate (f := Position.shift (front.length + run.length)) fun _ => rfl
  rw [← length_onOneLine front, ← hlength] at hmoved
  have hall := (hfront.bridge hne h hquiet hmoved).scanLine_eq {}
  simp only [tokensFrom, hone, hall, List.map_append, List.map_map]
  congr 1
  · refine List.map_congr_left fun t ht => ?_
    have hlt := hfront.column_lt t ht
    rw [length_onOneLine] at hlt
    simp only [Token.relocate]
    rw [List.append_assoc, List.take_append_of_le_length (by omega)]
  · refine List.map_congr_left fun t ht => ?_
    have hpos := (hbehind.ordered.1 t ht).2
    have hplace : (front ++ run ++ behind).take
        (t.position.column + (front.length + run.length) - 1) =
        front ++ run ++ behind.take (t.position.column - 1) := by
      rw [show t.position.column + (front.length + run.length) - 1 =
        (front ++ run).length + (t.position.column - 1) by rw [List.length_append]; omega,
        List.take_length_add_append]
    simp only [Function.comp, Token.relocate, Position.shift, length_onOneLine, hlength, hplace,
      Position.past_append]

/-- A line reads as itself. -/
theorem tokensFrom_of_no_feed {text : List Char} (h : '\n' ∉ text) (number : Nat) (mode : Mode)
    (report : Report) :
    tokensFrom mode ⟨number, 1⟩ text = (scanLine text number mode report).tokens := by
  have hreading := lineReading_scanLine text 1 mode {}
  have hmoved := hreading.relocate (f := fun q => ⟨number, q.column⟩) (n := 0) fun _ => rfl
  rw [hmoved.scanLine_eq report, tokensFrom, onOneLine_of_no_feed h]
  refine List.map_congr_left fun t ht => ?_
  have hpos := (hreading.ordered.1 t ht).2
  have hlt := hreading.column_lt t ht
  have hfront : '\n' ∉ text.take (t.position.column - 1) := fun hm => h (List.mem_of_mem_take hm)
  have hcolumn : 1 + (text.take (t.position.column - 1)).length = t.position.column := by
    rw [List.length_take]
    omega
  rw [Token.relocate, Token.relocate, Position.past_of_no_feed _ hfront, hcolumn]

/-- A text scanned line by line reads as the text on one line, and leaves the mode that the plain
scan finds behind it. -/
theorem scanLines_lines (number : Nat) (mode : Mode) (report : Report) (text : List Char) :
    tokensOf (scanLines number mode report (lines text)) = tokensFrom mode ⟨number, 1⟩ text ∧
      modeBehind mode (scanLines number mode report (lines text)) = commentMode mode text := by
  induction hn : text.length using Nat.strong_induction_on
    generalizing number mode report text with
  | _ n ih =>
    by_cases hfeed : '\n' ∈ text
    · obtain ⟨front, withReturn, rest, rfl, hfront, hlt, hlines, spaces, hone, hne, hspaces⟩ :=
        exists_lineEnd hfeed
      have hbridge := tokensFrom_bridge mode ⟨number, 1⟩ hone hne
        (fun c hc => class_of_space (hspaces c hc)) fun c hc => .inr (hspaces c hc)
      have hplace : Position.past ⟨number, 1⟩ (front ++ lineEnd withReturn) = ⟨number + 1, 1⟩ := by
        rw [Position.past_append, past_lineEnd, Position.past_of_no_feed _ hfront]
      obtain ⟨htokens, hmode⟩ := ih _ (hn ▸ hlt) (number + 1) (commentMode mode front)
        (scanLine front number mode report).report rest rfl
      have hscan : scanLines number mode report (front :: lines rest) =
          ⟨number, front, mode, scanLine front number mode report⟩ ::
            scanLines (number + 1) (commentMode mode front)
              (scanLine front number mode report).report (lines rest) := by
        rw [scanLines, ← commentMode_eq]
      rw [hlines, hscan, hbridge, hplace, tokensFrom_of_no_feed hfront number mode report,
        commentMode_append_run (lineEnd_ne_nil _) class_of_mem_lineEnd, ← htokens, ← hmode]
      refine ⟨rfl, ?_⟩
      simp only [modeBehind, List.foldl_cons, ← commentMode_eq]
    · rw [tokensFrom_of_no_feed hfeed number mode report]
      by_cases htext : text = []
      · subst htext
        rw [(LineReading.done mode 1).scanLine_eq]
        exact ⟨rfl, by cases mode <;> rfl⟩
      · rw [lines_of_no_feed hfeed htext, commentMode_eq mode text number report]
        exact ⟨by simp [scanLines, tokensOf], rfl⟩

/-- A whole text reads as the text on one line. -/
theorem tokensOf_scanText (text : List Char) :
    tokensOf (scanText text) = tokensFrom .normal .start text :=
  (scanLines_lines 1 .normal {} text).1

theorem modeBehind_scanText (text : List Char) :
    modeBehind .normal (scanText text) = commentMode .normal text :=
  (scanLines_lines 1 .normal {} text).2

theorem Analysis.mode_of_ofText {text : List Char} {a : Analysis}
    (h : Analysis.ofText text = .ok a) : a.mode = commentMode .normal text := by
  obtain ⟨b, -, htakes, hb⟩ := Analysis.exists_ofText text
  obtain rfl := Except.ok.inj (h.symm.trans hb)
  rw [← modeBehind_scanText]
  exact congrArg (modeBehind · (scanText text)) htakes.mode

/-- A character of no class outside comments is an error token in its place, unless it is a space
or belongs to the end of a line. -/
theorem stray_mem_tokensOf {front behind : List Char} {c : Char}
    (hc : CharClass.of c = .invalid) (hspace : c ≠ ' ') (hfeed : c ≠ '\n')
    (hreturn : c = '\r' → behind.head? ≠ some '\n') (hmode : commentMode .normal front = .normal) :
    ⟨.error, .ofList [c], Position.start.past front⟩ ∈
      tokensOf (scanText (front ++ c :: behind)) := by
  have hone : onOneLine (front ++ c :: behind) = onOneLine front ++ c :: onOneLine behind := by
    have hbehind : onOneLine (c :: behind) = c :: onOneLine behind := by
      have happend : onOneLine ([c] ++ behind) = onOneLine [c] ++ onOneLine behind :=
        onOneLine_append (by simpa using hreturn)
      have hself : onOneLine [c] = [c] := onOneLine_of_no_feed (by simpa using hfeed.symm)
      rwa [hself] at happend
    rw [onOneLine_append fun _ => by simpa using hfeed, hbehind]
  have hscan := (scanLine_append_invalid hc (onOneLine front) (onOneLine behind) 1 .normal {}).1
  rw [← commentMode_eq, commentMode_onOneLine, hmode, strayTokens, if_pos ⟨rfl, hspace⟩] at hscan
  rw [tokensOf_scanText, tokensFrom, hone, hscan]
  refine List.mem_map.mpr ⟨_, List.mem_append_left _ (List.mem_append_right _ (by simp; rfl)), ?_⟩
  simp [Token.relocate]

/-- A token shares its place with no other one. -/
theorem filter_position_eq {ts : List Token} (h : ts.Pairwise Token.Precedes) {t : Token}
    (ht : t ∈ ts) : ts.filter (·.position = t.position) = [t] := by
  have hapart : ∀ s u : Token, s.Precedes u → s.position ≠ u.position := by
    intro s u hlt he
    simp [Token.Precedes, he, Position.compare_eq_lt_iff] at hlt
  obtain ⟨front, behind, rfl⟩ := List.append_of_mem ht
  obtain ⟨-, hbehind, hfront⟩ := List.pairwise_append.mp h
  have hfirst : front.filter (·.position = t.position) = [] := by
    refine List.filter_eq_nil_iff.mpr fun s hs => ?_
    simpa using hapart s t (hfront s hs t (by simp))
  have hlast : behind.filter (·.position = t.position) = [] := by
    refine List.filter_eq_nil_iff.mpr fun s hs => ?_
    simpa using (hapart t s ((List.pairwise_cons.mp hbehind).1 s hs)).symm
  simp [List.filter_append, hfirst, hlast]

/-- Such a character is the only token in its place, and what is reported there is that it belongs
to no token. -/
theorem stray_reported {front behind : List Char} {c : Char}
    (hc : CharClass.of c = .invalid) (hspace : c ≠ ' ') (hfeed : c ≠ '\n')
    (hreturn : c = '\r' → behind.head? ≠ some '\n') (hmode : commentMode .normal front = .normal)
    {a : Analysis} (ha : Analysis.ofText (front ++ c :: behind) = .ok a) :
    let place := Position.start.past front
    (tokensOf (scanText (front ++ c :: behind))).filter (·.position = place) =
        [⟨.error, .ofList [c], place⟩] ∧
      a.report.toList.filter (·.position = place) =
        [⟨.unrecognizedCharacter, place, Diagnostic.undefinedMessage (.ofList [c])⟩] := by
  intro place
  have hmem := stray_mem_tokensOf hc hspace hfeed hreturn hmode
  have hpairwise : (tokensOf (scanText (front ++ c :: behind))).Pairwise Token.Precedes :=
    pairwise_tokensOf_scanLines 1 .normal {} (lines (front ++ c :: behind))
  have htokens : (tokensOf (scanText (front ++ c :: behind))).filter (·.position = place) =
      [⟨.error, .ofList [c], place⟩] :=
    filter_position_eq hpairwise hmem
  have hreport := filter_diagnostics hpairwise fun t => t.position = place
  rw [htokens] at hreport
  rw [(Analysis.accountsFor_of_ofText ha).report]
  exact ⟨htokens, by simpa [Token.diagnostic?] using hreport⟩

end LexicalAnalyzer
