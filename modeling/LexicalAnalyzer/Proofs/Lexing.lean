import LexicalAnalyzer.Proofs.Munch
import LexicalAnalyzer.Scan.Line

/-!
What a lexer does to its text. Every step of it passes some number of characters, so a step is
known by that number and by what it adds to the report. Reading a token passes exactly the longest
lexeme in front, whichever of the readers is at work.
-/
namespace LexicalAnalyzer

namespace Cursor

theorem advanceBy_add (m n : Nat) (c : Cursor) :
    c.advanceBy (m + n) = (c.advanceBy m).advanceBy n := by
  induction m generalizing c with
  | zero => simp [advanceBy]
  | succ m ih => simpa [Nat.succ_add, advanceBy] using ih c.advance

/-- The bytes that a text takes. -/
def byteCount : List Char → Nat
  | [] => 0
  | c :: cs => c.utf8Size + byteCount cs

theorem byteCount_append (xs ys : List Char) :
    byteCount (xs ++ ys) = byteCount xs + byteCount ys := by
  induction xs with
  | nil => simp [byteCount]
  | cons x xs ih => simp only [List.cons_append, byteCount, ih, Nat.add_assoc]

theorem byteCount_reverse (xs : List Char) : byteCount xs.reverse = byteCount xs := by
  induction xs with
  | nil => rfl
  | cons x xs ih =>
    simp only [List.reverse_cons, byteCount_append, byteCount, ih]
    omega

theorem byteCount_pos {text : List Char} (h : text ≠ []) : 0 < byteCount text := by
  cases text with
  | nil => exact absurd rfl h
  | cons c cs => exact Nat.add_pos_left c.utf8Size_pos _

/-- The characters passed come to lie behind the cursor, and both counters count them. -/
theorem advanceBy_eq (n : Nat) (c : Cursor) :
    c.advanceBy n = ⟨(c.after.take n).reverse ++ c.before, c.after.drop n,
      c.offset + byteCount (c.after.take n), c.column + (c.after.take n).length⟩ := by
  induction n generalizing c with
  | zero => simp [advanceBy, byteCount]
  | succ n ih =>
    rw [advanceBy, ih]
    cases hc : c.after with
    | nil => simp [advance, hc, byteCount]
    | cons x rest => simp [advance, hc, byteCount, Nat.add_assoc, Nat.add_comm 1]

/-- As many bytes as a text takes are that text. -/
theorem takeBytes?_append (xs ys taken : List Char) :
    takeBytes? (xs ++ ys) (byteCount xs) taken = some (xs.reverse ++ taken) := by
  induction xs generalizing taken with
  | nil => cases ys <;> rfl
  | cons x xs ih =>
    have hx : 0 < x.utf8Size := x.utf8Size_pos
    obtain ⟨n, hn⟩ : ∃ n, x.utf8Size + byteCount xs = n + 1 :=
      ⟨_, (Nat.succ_pred_eq_of_pos (by omega)).symm⟩
    have hle : x.utf8Size ≤ n + 1 := by omega
    have hsub : n + 1 - x.utf8Size = byteCount xs := by omega
    rw [byteCount, hn, List.cons_append, takeBytes?, if_pos hle, hsub, ih]
    simp

/-- The slice from where the cursor stood is what it has passed since. -/
theorem slice?_advanceBy (n : Nat) (c : Cursor) :
    (c.advanceBy n).slice? c.offset = some (c.after.take n) := by
  have h := takeBytes?_append (c.after.take n).reverse c.before []
  rw [byteCount_reverse, List.reverse_reverse, List.append_nil] at h
  rw [advanceBy_eq, slice?, if_pos (Nat.le_add_right _ _), Nat.add_sub_cancel_left]
  exact h

end Cursor

/-- What is wrong with a token: a character that starts none is unrecognized, and a numeral of no
format is malformed. -/
def Token.diagnostic? (t : Token) : Option Diagnostic :=
  match t.kind with
  | .error =>
    some ⟨.unrecognizedCharacter, t.position, Diagnostic.undefinedMessage t.lexeme⟩
  | .number =>
    if isValidNumeral t.lexeme.toList then none
    else some ⟨.malformedNumeral, t.position, Diagnostic.undefinedMessage t.lexeme⟩
  | _ => none

namespace Report

/-- Records diagnostics in order. -/
def recordAll (r : Report) (ds : List Diagnostic) : Report := ds.foldl record r

@[simp] theorem recordAll_nil (r : Report) : r.recordAll [] = r := rfl

@[simp] theorem recordAll_append (r : Report) (ds es : List Diagnostic) :
    r.recordAll (ds ++ es) = (r.recordAll ds).recordAll es :=
  List.foldl_append

@[simp] theorem toList_recordAll (r : Report) (ds : List Diagnostic) :
    (r.recordAll ds).toList = r.toList ++ ds := by
  induction ds generalizing r with
  | nil => simp
  | cons d ds ih => simpa [recordAll] using ih (r.record d)

end Report

namespace Lexer

variable (lx : Lexer)

@[simp] theorem rest_pass (n : Nat) : (lx.pass n).rest = lx.rest.drop n :=
  Cursor.after_advanceBy n lx.cursor

@[simp] theorem rest_markStart : lx.markStart.rest = lx.rest := rfl

theorem pass_pass (m n : Nat) : (lx.pass m).pass n = lx.pass (m + n) := by
  simp [pass, Cursor.advanceBy_add]

theorem passWhile_eq_pass (p : Char → Bool) :
    lx.passWhile p = lx.pass (lx.rest.takeWhile p).length := rfl

theorem column_pass (n : Nat) :
    (lx.pass n).cursor.column = lx.cursor.column + (lx.rest.take n).length := by
  rw [pass, Cursor.advanceBy_eq]
  rfl

/-- What has been passed since the start was marked is the lexeme. -/
theorem lexeme_pass_markStart (n : Nat) : (lx.markStart.pass n).lexeme = lx.rest.take n := by
  have h := Cursor.slice?_advanceBy n lx.cursor
  simp [lexeme, pass, markStart, h, rest]

/-- The token that the lexer makes of a text in front of it. -/
def tokenAt (kind : TokenKind) (w : List Char) : Token :=
  ⟨kind, .ofList w, ⟨lx.line, lx.cursor.column⟩⟩

/-- The lexer behind a token made of the text in front of it, with what is wrong about the token in
the report. -/
def took (kind : TokenKind) (w : List Char) : Lexer :=
  { lx.markStart.pass w.length with
    report := lx.report.recordAll (lx.tokenAt kind w).diagnostic?.toList }

variable {lx} {w : List Char}

theorem lexeme_of_isPrefix (hp : w <+: lx.rest) : (lx.markStart.pass w.length).lexeme = w := by
  rw [lexeme_pass_markStart]
  exact (List.prefix_iff_eq_take.mp hp).symm

theorem token_took {kind : TokenKind} (hp : w <+: lx.rest) :
    (lx.took kind w).token kind = lx.tokenAt kind w := by
  have h : (lx.took kind w).lexeme = w := lexeme_of_isPrefix hp
  simp only [token, h]
  rfl

theorem rest_took (kind : TokenKind) : (lx.took kind w).rest = lx.rest.drop w.length :=
  rest_pass lx w.length

theorem column_took {kind : TokenKind} (hp : w <+: lx.rest) :
    (lx.took kind w).cursor.column = lx.cursor.column + w.length := by
  have hc := lx.markStart.column_pass w.length
  rw [rest_markStart, ← List.prefix_iff_eq_take.mp hp] at hc
  exact hc

theorem report_took (kind : TokenKind) : (lx.took kind w).report =
    lx.report.recordAll (lx.tokenAt kind w).diagnostic?.toList := rfl

/-- A token of a kind that is never reported leaves the report alone. -/
theorem took_of_silent {kind : TokenKind} (h : (lx.tokenAt kind w).diagnostic? = none) :
    lx.took kind w = lx.markStart.pass w.length := by
  simp only [took, h]
  rfl

theorem checkNumeral_pass (hp : w <+: lx.rest) :
    (lx.markStart.pass w.length).checkNumeral = lx.took .number w := by
  have hl := lexeme_of_isPrefix hp
  by_cases hv : isValidNumeral w = true
  · rw [took_of_silent (by simp [Token.diagnostic?, tokenAt, hv]), checkNumeral, hl, if_pos hv]
  · rw [checkNumeral, hl, if_neg hv]
    simp [took, Token.diagnostic?, tokenAt, hv, diagnoseUndefined, hl, diagnose, Report.recordAll]
    rfl

/-- The second character of a run may be where its reading begins. -/
theorem passWhile_pass_one {p : Char → Bool} {c : Char} {cs : List Char} (h : lx.rest = c :: cs)
    (hc : p c = true) : (lx.pass 1).passWhile p = lx.passWhile p := by
  rw [passWhile_eq_pass, passWhile_eq_pass, pass_pass, rest_pass, h, List.takeWhile_cons_of_pos hc]
  simp [Nat.add_comm]

theorem passSignedExponent_of_signed {mark sign digit : Char} {more : List Char}
    (hl : lx.lexeme.getLast? = some mark) (hr : lx.rest = sign :: digit :: more)
    (hx : SignsExponent mark sign digit) :
    lx.passSignedExponent = (lx.pass 1).passWhile isNumeralChar := by
  simp [passSignedExponent, hl, hr, hx.1, hx.2.1, hx.2.2]

theorem passSignedExponent_eq_self
    (hx : ∀ mark sign digit more, lx.lexeme.getLast? = some mark →
      lx.rest = sign :: digit :: more → ¬ SignsExponent mark sign digit) :
    lx.passSignedExponent = lx := by
  unfold passSignedExponent
  split
  · rename_i mark sign digit more hl hr
    have h := hx mark sign digit more hl hr
    rw [if_neg (by simpa [SignsExponent, and_assoc] using h)]
  · rfl

/-- Where a numeral may go on behind its body. -/
def behindBody (lx : Lexer) : Lexer := lx.markStart.passWhile isNumeralChar

theorem behindBody_eq_pass :
    lx.behindBody = lx.markStart.pass (lx.rest.takeWhile isNumeralChar).length := rfl

theorem rest_behindBody : lx.behindBody.rest = lx.rest.dropWhile isNumeralChar :=
  Cursor.after_skipWhile isNumeralChar lx.cursor

theorem lexeme_behindBody : lx.behindBody.lexeme = lx.rest.takeWhile isNumeralChar :=
  lexeme_of_isPrefix (List.takeWhile_prefix _)

theorem passTail_suffixed {suffix : Char} (hs : isBaseSuffix suffix = true)
    (hr : (lx.rest.dropWhile isNumeralChar).head? = some suffix)
    (hp : lx.rest.takeWhile isNumeralChar ++ [suffix] <+: lx.rest) :
    lx.behindBody.passBaseSuffix.passSignedExponent =
      lx.markStart.pass (lx.rest.takeWhile isNumeralChar ++ [suffix]).length := by
  have hsuffix : lx.behindBody.passBaseSuffix =
      lx.markStart.pass (lx.rest.takeWhile isNumeralChar ++ [suffix]).length := by
    rw [passBaseSuffix, rest_behindBody, hr, Option.any_some, if_pos hs,
      behindBody_eq_pass, pass_pass, List.length_append, List.length_singleton]
  rw [hsuffix]
  apply passSignedExponent_eq_self
  -- no suffix is an exponent mark
  intro mark sign digit more hl _ hx
  rw [lexeme_of_isPrefix hp, List.getLast?_concat] at hl
  obtain rfl : suffix = mark := by simpa using hl
  have hc := isNumeralChar_of_isExponentMark hx.1
  simp [isNumeralChar_eq_false_of_isBaseSuffix hs] at hc

theorem passBaseSuffix_behindBody
    (hs : ∀ c ∈ (lx.rest.dropWhile isNumeralChar).head?, isBaseSuffix c = false) :
    lx.behindBody.passBaseSuffix = lx.behindBody := by
  have hany : ¬ (lx.rest.dropWhile isNumeralChar).head?.any isBaseSuffix = true := by
    intro h
    obtain ⟨c, hc, hsuf⟩ := (Option.any_eq_true _ _).mp h
    simp [hs c hc] at hsuf
  rw [passBaseSuffix, rest_behindBody, if_neg hany]

theorem passTail_signed {mark sign digit : Char} {more : List Char}
    (hl : (lx.rest.takeWhile isNumeralChar).getLast? = some mark)
    (hr : lx.rest.dropWhile isNumeralChar = sign :: digit :: more)
    (hx : SignsExponent mark sign digit) :
    lx.behindBody.passBaseSuffix.passSignedExponent =
      lx.markStart.pass (lx.rest.takeWhile isNumeralChar ++
        sign :: digit :: more.takeWhile isNumeralChar).length := by
  have hs : ∀ c ∈ (lx.rest.dropWhile isNumeralChar).head?, isBaseSuffix c = false := by
    rw [hr]
    rintro c ⟨⟩
    exact isBaseSuffix_eq_false_of_isSign hx.2.1
  rw [passBaseSuffix_behindBody hs, passSignedExponent_of_signed
    (by rw [lexeme_behindBody]; exact hl) (by rw [rest_behindBody]; exact hr) hx,
    passWhile_eq_pass, rest_pass, rest_behindBody, hr, behindBody_eq_pass, pass_pass,
    pass_pass]
  congr 1
  simp only [List.drop_succ_cons, List.drop_zero, List.length_append, List.length_cons,
    List.takeWhile_cons_of_pos (isNumeralChar_of_isDigit hx.2.2)]
  omega

theorem passTail_plain
    (hs : ∀ c ∈ (lx.rest.dropWhile isNumeralChar).head?, isBaseSuffix c = false)
    (hx : ∀ mark sign digit more, (lx.rest.takeWhile isNumeralChar).getLast? = some mark →
      lx.rest.dropWhile isNumeralChar = sign :: digit :: more → ¬ SignsExponent mark sign digit) :
    lx.behindBody.passBaseSuffix.passSignedExponent =
      lx.markStart.pass (lx.rest.takeWhile isNumeralChar).length := by
  rw [passBaseSuffix_behindBody hs]
  apply passSignedExponent_eq_self
  rwa [lexeme_behindBody, rest_behindBody]

/-- Whatever is passed behind the body of a numeral, the outcome is told by the lexeme. -/
theorem readNumeral_of_passTail (hm : Munches w lx.rest)
    (hw : lx.behindBody.passBaseSuffix.passSignedExponent = lx.markStart.pass w.length) :
    lx.markStart.readNumeral = (.number, lx.took .number w) := by
  rw [behindBody] at hw
  rw [readNumeral, hw, checkNumeral_pass hm.isPrefix]

/-- Reading a numeral passes the longest lexeme, which is a numeral. -/
theorem readNumeral_spec (h : StartsNumeral lx.rest) :
    ∃ w, IsNumeral w ∧ Munches w lx.rest ∧
      lx.markStart.readNumeral = (.number, lx.took .number w) := by
  by_cases hs : ∃ suffix, (lx.rest.dropWhile isNumeralChar).head? = some suffix ∧
      isBaseSuffix suffix = true
  · obtain ⟨suffix, hr, hs⟩ := hs
    obtain ⟨hn, hm⟩ := munches_suffixed h hs hr
    exact ⟨_, hn, hm, readNumeral_of_passTail hm (passTail_suffixed hs hr hm.isPrefix)⟩
  · by_cases hx : ∃ mark sign digit more, (lx.rest.takeWhile isNumeralChar).getLast? = some mark ∧
        lx.rest.dropWhile isNumeralChar = sign :: digit :: more ∧ SignsExponent mark sign digit
    · obtain ⟨mark, sign, digit, more, hl, hr, hx⟩ := hx
      obtain ⟨hn, hm⟩ := munches_signed h hx hl hr
      exact ⟨_, hn, hm, readNumeral_of_passTail hm (passTail_signed hl hr hx)⟩
    · have hplain : ∀ c ∈ (lx.rest.dropWhile isNumeralChar).head?, isBaseSuffix c = false := by
        intro c hc
        by_contra hne
        exact hs ⟨c, hc, by simpa using hne⟩
      have hunsigned : ∀ mark sign digit more,
          (lx.rest.takeWhile isNumeralChar).getLast? = some mark →
          lx.rest.dropWhile isNumeralChar = sign :: digit :: more →
          ¬ SignsExponent mark sign digit :=
        fun mark sign digit more hl hr hc => hx ⟨mark, sign, digit, more, hl, hr, hc⟩
      obtain ⟨hn, hm⟩ := munches_plain h hplain hunsigned
      exact ⟨_, hn, hm, readNumeral_of_passTail hm (passTail_plain hplain hunsigned)⟩

/-- A dot in front of a digit may be passed before the numeral is read. -/
theorem readNumeral_pass_one {cs : List Char} (h : lx.rest = '.' :: cs) :
    (lx.pass 1).readNumeral = lx.readNumeral := by
  rw [readNumeral, readNumeral, passWhile_pass_one h (by decide)]

theorem diagnostic?_ofWord (word : String) :
    (lx.tokenAt (.ofWord word) w).diagnostic? = none := by
  unfold TokenKind.ofWord
  split <;> rfl

theorem readWord_spec {c : Char} {cs : List Char} (h : lx.rest = c :: cs)
    (hc : c.isAlpha = true) :
    ∃ kind w, Munches w lx.rest ∧ kind.Covers w ∧
      lx.markStart.readWord = (kind, lx.took kind w) := by
  have hm := munches_word hc cs
  have hw : IsWord (c :: cs.takeWhile Char.isAlphanum) :=
    ⟨hc, fun x hx => List.mem_takeWhile_imp hx⟩
  rw [← h] at hm
  have hp : (lx.markStart.pass 1).passWhile Char.isAlphanum =
      lx.markStart.pass (c :: cs.takeWhile Char.isAlphanum).length := by
    rw [passWhile_eq_pass, pass_pass, rest_pass, rest_markStart, h, List.length_cons, Nat.add_comm]
    rfl
  refine ⟨_, _, hm, covers_ofWord hw, ?_⟩
  rw [took_of_silent (diagnostic?_ofWord _), readWord, hp, lexeme_of_isPrefix hm.isPrefix]

theorem readStray_spec {c : Char} {cs : List Char} (h : lx.rest = c :: cs)
    (hc : CharClass.of c = .invalid) :
    Munches [c] lx.rest ∧ TokenKind.error.Covers [c] ∧
      lx.markStart.readStray = (.error, lx.took .error [c]) := by
  have hm := munches_invalid hc cs
  rw [← h] at hm
  refine ⟨hm, fun hl => hl.not_mem_of_invalid hc (by simp), ?_⟩
  have hl : (lx.markStart.pass 1).lexeme = [c] := lexeme_of_isPrefix (w := [c]) hm.isPrefix
  simp [readStray, took, Token.diagnostic?, tokenAt, diagnoseUndefined, hl, diagnose,
    Report.recordAll]
  rfl

theorem readSeparator_opening {cs : List Char} (h : lx.rest = '/' :: '*' :: cs) :
    lx.readSeparator = (none, { lx.pass 2 with mode := .comment }) := by
  rw [readSeparator, h]
  rfl

theorem readSeparator_pair (hw : w ∈ separatorPairs) (hp : w <+: lx.rest) :
    lx.readSeparator = (some .separator, lx.pass w.length) := by
  obtain ⟨t, ht⟩ := hp
  simp only [separatorPairs, List.mem_cons, List.not_mem_nil, or_false] at hw
  rcases hw with rfl | rfl | rfl <;> rw [readSeparator, ← ht] <;> rfl

theorem readSeparator_numeral {digit : Char} {cs : List Char} (h : lx.rest = '.' :: digit :: cs)
    (hd : digit.isDigit = true) : lx.readSeparator = (some .number, lx.readNumeral.2) := by
  rw [readSeparator, h, ← readNumeral_pass_one h]
  simp only [hd, if_true]
  rfl

theorem readSeparator_single {c : Char} {cs : List Char} (h : lx.rest = c :: cs)
    (hc : isSeparatorChar c = true) (ho : ¬ ['/', '*'] <+: c :: cs)
    (hpair : ∀ w ∈ separatorPairs, ¬ w <+: c :: cs) (hn : ¬ StartsNumeral (c :: cs)) :
    lx.readSeparator = (some .separator, lx.pass 1) := by
  rw [readSeparator, h]
  split
  · rename_i tail he
    exact absurd ⟨tail, he.symm⟩ ho
  · rename_i tail he
    exact absurd ⟨tail, he.symm⟩ (hpair ['<', '='] (by decide))
  · rename_i tail he
    exact absurd ⟨tail, he.symm⟩ (hpair ['<', '>'] (by decide))
  · rename_i tail he
    exact absurd ⟨tail, he.symm⟩ (hpair ['>', '='] (by decide))
  · rename_i digit tail he
    split
    · rename_i hd
      obtain ⟨rfl, rfl⟩ := List.cons.inj he
      exact absurd (.inr ⟨rfl, digit, rfl, hd⟩) hn
    · rfl
  · rename_i he
    obtain ⟨rfl, rfl⟩ := List.cons.inj he
    rw [if_pos hc]
  · rename_i he
    exact absurd he (by simp)

/-- Separators are not reported, so passing one is all there is to it. -/
theorem took_separator (w : List Char) : lx.took .separator w = lx.markStart.pass w.length :=
  took_of_silent rfl

theorem readSeparator_spec {c : Char} {cs : List Char} (h : lx.rest = c :: cs)
    (hc : isSeparatorChar c = true) (ho : ¬ ['/', '*'] <+: lx.rest) :
    ∃ kind w, Munches w lx.rest ∧ kind.Covers w ∧
      lx.markStart.readSeparator = (some kind, lx.took kind w) := by
  by_cases hn : StartsNumeral lx.rest
  · -- only the dot is a separator that starts a numeral
    have hdot : ∃ digit more, lx.markStart.rest = '.' :: digit :: more ∧ digit.isDigit = true := by
      rw [h] at hn
      rcases hn with hd | ⟨rfl, digit, hd, hdig⟩
      · have ha := isAlphanum_eq_false_of_isSeparatorChar hc
        simp [Char.isAlphanum, hd] at ha
      · obtain ⟨more, rfl⟩ := List.head?_eq_some_iff.mp hd
        exact ⟨digit, more, h, hdig⟩
    obtain ⟨digit, more, hr, hd⟩ := hdot
    obtain ⟨w, hw, hm, hread⟩ := readNumeral_spec hn
    exact ⟨.number, w, hm, hw, by rw [readSeparator_numeral hr hd, hread]⟩
  · by_cases hpair : ∃ w ∈ separatorPairs, w <+: lx.rest
    · obtain ⟨w, hw, hp⟩ := hpair
      have hp' : w <+: lx.markStart.rest := hp
      refine ⟨.separator, w, munches_pair hw hp, isSeparator_pair hw, ?_⟩
      rw [readSeparator_pair hw hp', took_separator]
    · have hr : lx.markStart.rest = c :: cs := h
      rw [h] at ho hn hpair ⊢
      have hpair : ∀ w ∈ separatorPairs, ¬ w <+: c :: cs := fun w hw hp => hpair ⟨w, hw, hp⟩
      refine ⟨.separator, [c], munches_single hc hn hpair, isSeparator_singleton hc, ?_⟩
      rw [readSeparator_single hr hc ho hpair hn, took_separator]
      rfl

theorem readToken_opening {cs : List Char} (h : lx.rest = '/' :: '*' :: cs) :
    lx.readToken = (none, { lx.pass 2 with mode := .comment }) := by
  have hclass : CharClass.of '/' = .separator := by decide
  simp only [readToken, h, List.head?_cons, Option.map_some, hclass]
  exact readSeparator_opening h

/-- Reading a token passes the longest lexeme in front, and its kind is the kind of that lexeme. -/
theorem readToken_spec {c : Char} {cs : List Char} (h : lx.rest = c :: cs)
    (ho : ¬ ['/', '*'] <+: lx.rest) :
    ∃ kind w, Munches w lx.rest ∧ kind.Covers w ∧
      lx.markStart.readToken = (some kind, lx.took kind w) := by
  cases hclass : CharClass.of c with
  | digit =>
    have hn : StartsNumeral lx.rest := by
      rw [h]
      exact .inl (isDigit_of_class hclass)
    obtain ⟨w, hw, hm, hread⟩ := readNumeral_spec hn
    exact ⟨.number, w, hm, hw, by simp [readToken, h, hclass, hread]⟩
  | letter =>
    have hc : c.isAlpha = true := by grind [CharClass.of]
    obtain ⟨kind, w, hm, hw, hread⟩ := readWord_spec h hc
    exact ⟨kind, w, hm, hw, by simp [readToken, h, hclass, hread]⟩
  | separator =>
    have hc : isSeparatorChar c = true := by grind [CharClass.of]
    obtain ⟨kind, w, hm, hw, hread⟩ := readSeparator_spec h hc ho
    exact ⟨kind, w, hm, hw, by simp [readToken, h, hclass, hread]⟩
  | invalid =>
    obtain ⟨hm, hw, hread⟩ := readStray_spec h hclass
    exact ⟨.error, [c], hm, hw, by simp [readToken, h, hclass, hread]⟩

@[simp] theorem rest_skipSpaces (lx : Lexer) :
    lx.skipSpaces.rest = lx.rest.dropWhile (· == ' ') :=
  Cursor.after_skipWhile _ lx.cursor

theorem closeLength?_of_close {text : List Char} (h : ['*', '/'] <+: text) :
    closeLength? text = some 2 := by
  obtain ⟨more, rfl⟩ := h
  rfl

theorem closeLength?_cons {c : Char} {text : List Char} (h : ¬ ['*', '/'] <+: c :: text) :
    closeLength? (c :: text) = (closeLength? text).map (· + 1) := by
  rw [closeLength?]
  rintro more rfl rfl
  exact h ⟨more, rfl⟩

theorem leaveComment_of_normal (h : lx.mode = .normal) : lx.leaveComment = lx := by
  rw [leaveComment, h]

theorem leaveComment_of_close {n : Nat} (h : lx.mode = .comment)
    (hc : closeLength? lx.rest = some n) :
    lx.leaveComment = { lx.pass n with mode := .normal } := by
  simp only [leaveComment, h, skipComment, hc]

/-- A comment that does not close uses up the line. -/
theorem leaveComment_of_open (h : lx.mode = .comment) (hc : closeLength? lx.rest = none) :
    lx.leaveComment = lx.pass lx.rest.length := by
  simp only [leaveComment, h, skipComment, hc]
  rw [← h]
  rfl

/-- Skipping changes neither the line's number nor the report. -/
theorem settle_frame (lx : Lexer) : lx.settle.line = lx.line ∧ lx.settle.report = lx.report := by
  cases hm : lx.mode with
  | normal =>
    rw [settle, leaveComment_of_normal hm]
    exact ⟨rfl, rfl⟩
  | comment =>
    cases hc : closeLength? lx.rest with
    | some n =>
      rw [settle, leaveComment_of_close hm hc]
      exact ⟨rfl, rfl⟩
    | none =>
      rw [settle, leaveComment_of_open hm hc]
      exact ⟨rfl, rfl⟩

theorem mode_leaveComment (h : lx.leaveComment.rest ≠ []) : lx.leaveComment.mode = .normal := by
  cases hm : lx.mode with
  | normal => rwa [leaveComment_of_normal hm]
  | comment =>
    cases hc : closeLength? lx.rest with
    | some n => rw [leaveComment_of_close hm hc]
    | none =>
      rw [leaveComment_of_open hm hc] at h
      simp at h

/-- Where the scan settles with something left it is outside comments and not at a space. -/
theorem mode_settle (h : lx.settle.rest ≠ []) : lx.settle.mode = .normal := by
  apply mode_leaveComment
  intro he
  simp [settle, he] at h

theorem head_settle : ∀ c ∈ lx.settle.rest.head?, c ≠ ' ' := by
  intro c hc
  rw [settle, rest_skipSpaces] at hc
  have hn := List.head?_dropWhile_not (· == ' ') lx.leaveComment.rest
  rw [hc] at hn
  simpa using hn

theorem skipSpaces_of_head (h : ∀ c ∈ lx.rest.head?, c ≠ ' ') : lx.skipSpaces = lx := by
  have ht : lx.rest.takeWhile (· == ' ') = [] := by
    cases hr : lx.rest with
    | nil => rfl
    | cons c cs => simp [h c (by simp [hr])]
  exact congrArg (fun n => { lx with cursor := lx.cursor.advanceBy n })
    (congrArg List.length ht)

/-- The scan settles at once. -/
theorem settle_settle (lx : Lexer) : lx.settle.settle = lx.settle := by
  have hleave : lx.settle.leaveComment = lx.settle := by
    cases hm : lx.settle.mode with
    | normal => exact leaveComment_of_normal hm
    | comment =>
      have hr : lx.settle.rest = [] := by
        by_contra hne
        simp [mode_settle hne] at hm
      rw [leaveComment_of_open hm (by rw [hr]; rfl), hr]
      rfl
  rw [settle, hleave, skipSpaces_of_head head_settle]

theorem next_of_end (h : lx.settle.rest = []) : lx.next = (none, lx.settle) := by
  rw [next, dif_pos h]

theorem next_of_token {kind : TokenKind} {read : Lexer} (h : lx.settle.rest ≠ [])
    (hr : lx.settle.markStart.readToken = (some kind, read)) :
    lx.next = (some (read.token kind), read) := by
  rw [next, dif_neg h]
  split <;> simp_all

theorem next_of_opening {read : Lexer} (h : lx.settle.rest ≠ [])
    (hr : lx.settle.markStart.readToken = (none, read)) : lx.next = read.next := by
  rw [next, dif_neg h]
  split <;> simp_all

/-- Where the lexer has settled in front of something, it enters a comment or takes what is munched
there. -/
theorem readToken_settle_cases (h : lx.settle.rest ≠ []) :
    (∃ more, lx.settle.rest = '/' :: '*' :: more ∧ lx.settle.markStart.readToken =
      (none, { lx.settle.markStart.pass 2 with mode := .comment })) ∨
    ∃ kind w, ¬ ['/', '*'] <+: lx.settle.rest ∧ Munches w lx.settle.rest ∧ kind.Covers w ∧
      lx.settle.markStart.readToken = (some kind, lx.settle.took kind w) := by
  obtain ⟨c, cs, hc⟩ := List.exists_cons_of_ne_nil h
  by_cases ho : ['/', '*'] <+: lx.settle.rest
  · obtain ⟨more, hmore⟩ := ho
    exact .inl ⟨more, hmore.symm, readToken_opening hmore.symm⟩
  · obtain ⟨kind, w, hm, hk, hread⟩ := readToken_spec hc ho
    exact .inr ⟨kind, w, ho, hm, hk, hread⟩

theorem tokens_of_end (h : lx.settle.rest = []) : lx.tokens = ([], lx.settle) := by
  rw [tokens]
  split <;> simp_all [next_of_end h]

theorem tokens_of_token {kind : TokenKind} {read : Lexer} (h : lx.settle.rest ≠ [])
    (hr : lx.settle.markStart.readToken = (some kind, read)) :
    lx.tokens = (read.token kind :: read.tokens.1, read.tokens.2) := by
  rw [tokens]
  split
  · rename_i he
    simp [next_of_token h hr] at he
  · rename_i he
    rw [next_of_token h hr, Prod.mk.injEq, Option.some.injEq] at he
    obtain ⟨rfl, rfl⟩ := he
    rfl

theorem tokens_of_opening {read : Lexer} (h : lx.settle.rest ≠ [])
    (hr : lx.settle.markStart.readToken = (none, read)) : lx.tokens = read.tokens := by
  rw [tokens, tokens, next_of_opening h hr]

end Lexer

end LexicalAnalyzer
