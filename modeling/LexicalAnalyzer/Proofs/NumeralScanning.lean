import LexicalAnalyzer.Proofs.NumeralLanguages
import LexicalAnalyzer.Proofs.Splicing

/-!
The scanner and the formats of numerals. A numeral is read by a rule that is coarser than the
formats: a body, a suffix, one signed exponent. Every word of a format has that shape and does not
end in an exponent mark, so nothing behind it but a character of a body or a suffix could prolong
it, and the scanner takes it whole.
-/
namespace LexicalAnalyzer

/-- A text that no character of a numeral's body and no suffix starts. -/
def DelimitsNumeral (text : List Char) : Prop :=
  ∀ c ∈ text.head?, isNumeralChar c = false ∧ Lexer.isBaseSuffix c = false

/-- Texts that are cut at the only place of a character are cut alike. -/
theorem eq_of_append_cons_eq {c : Char} {front behind front' behind' : List Char}
    (hf : c ∉ front) (hb : c ∉ behind) (h : front' ++ c :: behind' = front ++ c :: behind) :
    front' = front := by
  rcases List.append_eq_append_iff.mp h with ⟨t, rfl, ht⟩ | ⟨t, rfl, ht⟩
  · cases t with
    | nil => simp
    | cons x t =>
      obtain ⟨rfl, -⟩ := List.cons.inj ht
      simp at hf
  · cases t with
    | nil => simp
    | cons x t =>
      obtain ⟨-, rfl⟩ := List.cons.inj ht
      simp at hb

section Delimited

variable {w r : List Char}

/-- Only behind an exponent mark does a numeral go on with a character of no body that is no
suffix. -/
theorem NumeralShape.exponentMark_of_append {c : Char} {t : List Char}
    (h : NumeralShape (w ++ c :: t)) (hc : isNumeralChar c = false)
    (hs : Lexer.isBaseSuffix c = false) :
    ∃ mark, w.getLast? = some mark ∧ NumeralFormat.isExponentMark mark = true := by
  have hmem : c ∈ w ++ c :: t := by simp
  generalize hv : w ++ c :: t = v at h hmem
  cases h with
  | plain _ _ hb => simp [hb c hmem] at hc
  | suffixed body suffix _ hb hsuf =>
    rcases List.mem_append.mp hmem with hm | hm
    · simp [hb c hm] at hc
    · rw [List.mem_singleton.mp hm, hsuf] at hs
      cases hs
  | signed body digits mark sign digit hb hm hsign hd hds =>
    have hfront : c ∉ body ++ [mark] := fun hm => by simp [hb c hm] at hc
    have hbehind : c ∉ digit :: digits := by
      rw [List.mem_cons, not_or]
      refine ⟨?_, fun hm => by simp [hds c hm] at hc⟩
      rintro rfl
      simp [isNumeralChar_of_isDigit hd] at hc
    obtain rfl : c = sign := by
      simp only [List.mem_append, List.mem_cons] at hmem hfront hbehind
      grind
    exact ⟨mark, by rw [eq_of_append_cons_eq hfront hbehind hv]; simp, hm⟩

/-- A numeral that ends in no exponent mark is munched whole in front of a text that delimits it. -/
theorem munches_delimited (hstart : StartsNumeral w) (hshape : NumeralShape w)
    (hlast : ∀ m ∈ w.getLast?, NumeralFormat.isExponentMark m = false) (hr : DelimitsNumeral r) :
    IsNumeral w ∧ Munches w (w ++ r) := by
  refine munches_of_longest_numeral (hstart.append r) hshape (List.prefix_append w r) ?_ ?_
  · rcases prefix_append_cases (List.takeWhile_prefix isNumeralChar (l := w ++ r)) with h | h
    · exact h
    · obtain ⟨c, hc, t, ht⟩ := h
      have hbody : isNumeralChar c = true :=
        List.mem_takeWhile_imp (l := w ++ r) (by rw [ht]; simp)
      simp [(hr c hc).1] at hbody
  · intro v hv hp
    rcases prefix_append_cases hp with h | ⟨c, hc, t, rfl⟩
    · exact h.length_le
    · obtain ⟨mark, hmark, hm⟩ := hv.exponentMark_of_append (hr c hc).1 (hr c hc).2
      simp [hlast mark hmark] at hm

end Delimited

namespace NumeralFormat

open RegularExpression

variable {chars suffixes u v w : List Char} {f : NumeralFormat} {c : Char}

theorem isNumeralChar_iff_mem :
    isNumeralChar c = true ↔ c ∈ decimalDigits ++ hexLetters ++ ['.'] := by
  rw [List.mem_append, List.mem_singleton, isNumeralChar, ← isHexDigit, Bool.or_eq_true,
    isHexDigit_iff_mem, beq_iff_eq]

theorem isNumeralChar_of_mem_digits (h : u ∈ digits.matches') : ∀ c ∈ u, isNumeralChar c = true :=
  fun c hc => isNumeralChar_of_isDigit (isDigit_iff_mem.mpr ((mem_oneOrMore_oneOf.mp h).2 c hc))

/-- Digits of a base and a suffix are a body, or a body and a suffix. -/
theorem shape_of_mem_suffixed (h : w ∈ (oneOrMore (oneOf chars) * oneOf suffixes).matches')
    (hchars : chars.all isNumeralChar = true)
    (hs : suffixes.all (fun c => isNumeralChar c || Lexer.isBaseSuffix c) = true)
    (hm : suffixes.all (fun c => !isExponentMark c) = true) :
    NumeralShape w ∧ ∀ m ∈ w.getLast?, isExponentMark m = false := by
  obtain ⟨c, hc, hlast, hbody⟩ := mem_mul_oneOf.mp h
  obtain ⟨u, rfl⟩ := List.getLast?_eq_some_iff.mp hlast
  rw [List.dropLast_concat] at hbody
  obtain ⟨hne, hall⟩ := mem_oneOrMore_oneOf.mp hbody
  have hu : ∀ x ∈ u, isNumeralChar x = true := fun x hx => List.all_eq_true.mp hchars x (hall x hx)
  constructor
  · rcases Bool.or_eq_true _ _ ▸ List.all_eq_true.mp hs c hc with hn | hsuf
    · exact .plain _ (by simp) (List.forall_mem_append.mpr ⟨hu, List.forall_mem_singleton.mpr hn⟩)
    · exact .suffixed u c hne hu hsuf
  · intro m hm'
    obtain rfl : c = m := Option.some.inj (hlast.symm.trans hm')
    simpa using List.all_eq_true.mp hm c hc

/-- A word that ends in digits ends in no exponent mark. -/
theorem last_of_digits (front : List Char) (h : u ∈ digits.matches') :
    ∀ m ∈ (front ++ u).getLast?, isExponentMark m = false := by
  obtain ⟨hne, hall⟩ := mem_oneOrMore_oneOf.mp h
  rw [List.getLast?_append_of_ne_nil _ hne]
  intro m hm
  have hnone : decimalDigits.all (fun c => !isExponentMark c) = true := by decide
  simpa using List.all_eq_true.mp hnone m (hall m (List.mem_of_getLast? hm))

/-- A dot, digits, and perhaps an exponent. -/
theorem parts_of_mem_dotted (h : w ∈ (oneOf ['.'] * (digits * optional exponent)).matches') :
    ∃ u ∈ digits.matches', ∃ v ∈ (optional exponent).matches', w = '.' :: u ++ v := by
  obtain ⟨front, hfront, rest, hrest, rfl⟩ := mem_mul.mp h
  obtain ⟨u, hu, v, hv, rfl⟩ := mem_mul.mp hrest
  obtain ⟨c, hc, rfl⟩ := mem_oneOf.mp hfront
  obtain rfl := List.mem_singleton.mp hc
  exact ⟨u, hu, v, hv, rfl⟩

/-- A float is made up of an integral part with its dot, digits, and perhaps an exponent. -/
theorem parts_of_mem_float (h : w ∈ (pattern .float).matches') :
    ∃ front u v, w = front ++ u ++ v ∧ (∀ c ∈ front, isNumeralChar c = true) ∧
      u ∈ digits.matches' ∧ v ∈ (optional exponent).matches' := by
  have hdot : ∀ x ∈ ['.'], isNumeralChar x = true := List.forall_mem_singleton.mpr (by decide)
  rcases mem_add.mp h with hw | hw
  · obtain ⟨u, hu, v, hv, rfl⟩ := parts_of_mem_dotted hw
    exact ⟨['.'], u, v, rfl, hdot, hu, hv⟩
  · obtain ⟨u, hu, x, hx, rfl⟩ := mem_mul.mp hw
    rw [matches_optional_fraction] at hx
    rcases mem_add.mp hx with hx' | hx'
    · obtain ⟨u', hu', v, hv, rfl⟩ := parts_of_mem_dotted hx'
      have hfront := List.forall_mem_append.mpr ⟨isNumeralChar_of_mem_digits hu, hdot⟩
      exact ⟨u ++ ['.'], u', v, by simp, hfront, hu', hv⟩
    · exact ⟨[], u, x, rfl, by simp, hu, hx'⟩

/-- An exponent is a mark with digits behind it, or with a sign and digits behind it. -/
theorem parts_of_mem_exponent (h : v ∈ exponent.matches') : ∃ mark u, isExponentMark mark = true ∧
    u ∈ digits.matches' ∧ (v = mark :: u ∨ ∃ sign, isSign sign = true ∧ v = mark :: sign :: u) := by
  obtain ⟨mark, hmark, w, hw, rfl⟩ := mem_mul.mp h
  obtain ⟨c, hc, rfl⟩ := mem_oneOf.mp hmark
  refine ⟨c, ?_⟩
  rcases mem_optional_mul.mp hw with hw | hw
  · exact ⟨w, isExponentMark_iff_mem.mpr hc, hw, .inl rfl⟩
  · obtain ⟨sign, hsign, u, hu, rfl⟩ := mem_mul.mp hw
    obtain ⟨s, hs, rfl⟩ := mem_oneOf.mp hsign
    exact ⟨u, isExponentMark_iff_mem.mpr hc, hu, .inr ⟨s, isSign_iff_mem.mpr hs, rfl⟩⟩

/-- An exponent goes on with a body or makes it a signed one. -/
theorem shape_append_exponent {body : List Char} (hbody : ∀ c ∈ body, isNumeralChar c = true)
    (h : v ∈ exponent.matches') :
    NumeralShape (body ++ v) ∧ ∀ m ∈ (body ++ v).getLast?, isExponentMark m = false := by
  obtain ⟨mark, ds, hmark, hds, hv⟩ := parts_of_mem_exponent h
  have hmarked : ∀ c ∈ body ++ [mark], isNumeralChar c = true :=
    List.forall_mem_append.mpr
      ⟨hbody, List.forall_mem_singleton.mpr (isNumeralChar_of_isExponentMark hmark)⟩
  rcases hv with rfl | ⟨sign, hsign, rfl⟩
  · have hsplit : body ++ mark :: ds = body ++ [mark] ++ ds := by simp
    rw [hsplit]
    have hall := List.forall_mem_append.mpr ⟨hmarked, isNumeralChar_of_mem_digits hds⟩
    exact ⟨.plain _ (by simp) hall, last_of_digits _ hds⟩
  · have hlast := last_of_digits (body ++ [mark, sign]) hds
    obtain ⟨d, ds, rfl⟩ := List.exists_cons_of_ne_nil (mem_oneOrMore_oneOf.mp hds).1
    have hsplit : body ++ mark :: sign :: d :: ds = body ++ [mark] ++ sign :: d :: ds := by simp
    rw [hsplit]
    have hbehind : ∀ c ∈ ds, isNumeralChar c = true := fun c hc =>
      isNumeralChar_of_mem_digits hds c (List.mem_cons_of_mem d hc)
    refine ⟨.signed body ds mark sign d hmarked hmark hsign (isDigit_of_cons_mem hds) hbehind, ?_⟩
    simpa using hlast

/-- Every float is a body or a body with a signed exponent, and ends in a digit. -/
theorem shape_of_mem_float (h : w ∈ (pattern .float).matches') :
    NumeralShape w ∧ ∀ m ∈ w.getLast?, isExponentMark m = false := by
  obtain ⟨front, u, v, rfl, hfront, hu, hv⟩ := parts_of_mem_float h
  have hbody := List.forall_mem_append.mpr ⟨hfront, isNumeralChar_of_mem_digits hu⟩
  rcases mem_optional.mp hv with rfl | hv
  · rw [List.append_nil]
    exact ⟨.plain _ (by simp [(mem_oneOrMore_oneOf.mp hu).1]) hbody, last_of_digits front hu⟩
  · exact shape_append_exponent hbody hv

/-- Every word of a format has the shape that the scanner reads, and ends in no exponent mark. -/
theorem shape_of_mem_language (h : w ∈ f.language) :
    NumeralShape w ∧ ∀ m ∈ w.getLast?, isExponentMark m = false := by
  cases f with
  | binary => exact shape_of_mem_suffixed h.1 (by decide) (by decide) (by decide)
  | octal => exact shape_of_mem_suffixed h.1 (by decide) (by decide) (by decide)
  | decimal =>
    rcases mem_mul_optional.mp h.1 with hw | hw
    · have hne := (mem_oneOrMore_oneOf.mp hw).1
      exact ⟨.plain w hne (isNumeralChar_of_mem_digits hw), last_of_digits [] hw⟩
    · exact shape_of_mem_suffixed hw (by decide) (by decide) (by decide)
  | hexadecimal => exact shape_of_mem_suffixed h.1 (by decide) (by decide) (by decide)
  | float => exact shape_of_mem_float h.1

/-- A word with digits in front starts as numerals do. -/
theorem startsNumeral_of_mem_mul {p : RegularExpression Char}
    (h : w ∈ (oneOrMore (oneOf chars) * p).matches')
    (hchars : chars.all Char.isDigit = true) : StartsNumeral w := by
  obtain ⟨u, hu, v, hv, rfl⟩ := mem_mul.mp h
  obtain ⟨hne, hall⟩ := mem_oneOrMore_oneOf.mp hu
  obtain ⟨c, u, rfl⟩ := List.exists_cons_of_ne_nil hne
  exact .inl (List.all_eq_true.mp hchars c (hall c (by simp)))

theorem startsNumeral_of_mem_float (h : w ∈ (pattern .float).matches') : StartsNumeral w := by
  rcases mem_add.mp h with hw | hw
  · obtain ⟨u, hu, v, hv, rfl⟩ := parts_of_mem_dotted hw
    obtain ⟨d, u, rfl⟩ := List.exists_cons_of_ne_nil (mem_oneOrMore_oneOf.mp hu).1
    exact .inr ⟨rfl, d, rfl, isDigit_of_cons_mem hu⟩
  · exact startsNumeral_of_mem_mul hw (by decide)

/-- A hexadecimal numeral with a letter in front is a word, and its suffix makes it no keyword. -/
theorem isWord_of_mem_hexadecimal {cs : List Char} (h : c :: cs ∈ language .hexadecimal)
    (hc : c.isAlpha = true) : IsWord (c :: cs) ∧ ¬ IsKeyword (c :: cs) := by
  obtain ⟨last, hlast, hsome, hbody⟩ := mem_mul_oneOf.mp h.1
  constructor
  · refine ⟨hc, fun x hx => ?_⟩
    obtain ⟨body, hw⟩ := List.getLast?_eq_some_iff.mp hsome
    have hx' : x ∈ body ++ [last] := hw ▸ List.mem_cons_of_mem c hx
    rw [hw, List.dropLast_concat] at hbody
    rcases List.mem_append.mp hx' with hm | hm
    · have hall : (decimalDigits ++ hexLetters).all Char.isAlphanum = true := by decide
      exact List.all_eq_true.mp hall x ((mem_oneOrMore_oneOf.mp hbody).2 x hm)
    · have hall : ['H', 'h'].all Char.isAlphanum = true := by decide
      rw [List.mem_singleton.mp hm]
      exact List.all_eq_true.mp hall last hlast
  · intro hk
    have hall : ∀ w ∈ keywords.entries.map String.toList,
        w.getLast?.all (· ∉ ['H', 'h']) = true := by decide
    have hnone := hall _ ((ofList_mem_iff _ _).mp hk)
    rw [hsome, Option.all_some, decide_eq_true_eq] at hnone
    exact hnone hlast

/-- A word of a format starts as numerals do, but for hexadecimal ones with a letter in front. -/
theorem starts_of_mem_language (h : w ∈ f.language) :
    StartsNumeral w ∨ IsWord w ∧ ¬ IsKeyword w := by
  cases f with
  | binary => exact .inl (startsNumeral_of_mem_mul h.1 (by decide))
  | octal => exact .inl (startsNumeral_of_mem_mul h.1 (by decide))
  | decimal => exact .inl (startsNumeral_of_mem_mul h.1 (by decide))
  | hexadecimal =>
    obtain ⟨u, hu, v, hv, rfl⟩ := mem_mul.mp h.1
    obtain ⟨hne, hall⟩ := mem_oneOrMore_oneOf.mp hu
    obtain ⟨c, u, rfl⟩ := List.exists_cons_of_ne_nil hne
    rcases List.mem_append.mp (hall c (by simp)) with hc | hc
    · exact .inl (.inl (isDigit_iff_mem.mpr hc))
    · exact .inr (isWord_of_mem_hexadecimal h (isAlpha_of_isHexLetter (isHexLetter_iff_mem.mpr hc)))
  | float => exact .inl (startsNumeral_of_mem_float h.1)

end NumeralFormat

/-- A valid numeral that starts as numerals do is munched whole where it is delimited. -/
theorem munches_valid {w r : List Char} (hw : isValidNumeral w = true) (hs : StartsNumeral w)
    (hr : DelimitsNumeral r) : IsNumeral w ∧ Munches w (w ++ r) := by
  obtain ⟨f, hf⟩ := isValidNumeral_iff.mp hw
  obtain ⟨hshape, hlast⟩ := NumeralFormat.shape_of_mem_language hf
  exact munches_delimited hs hshape hlast hr

/-- A numeral's start is neither a space nor the start of a comment. -/
theorem StartsNumeral.head {w : List Char} (h : StartsNumeral w) :
    (∀ c ∈ w.head?, c ≠ ' ') ∧ ¬ ['/', '*'] <+: w := by
  cases w with
  | nil => exact h.elim
  | cons c cs =>
    constructor
    · rintro x ⟨⟩ rfl
      exact absurd h (by simp [StartsNumeral])
    · intro hp
      obtain ⟨rfl, -⟩ := List.cons_prefix_cons.mp hp
      exact absurd h (by simp [StartsNumeral])

/-- Behind a valid numeral a line is scanned as a line of its own. -/
theorem scanLine_valid {w r : List Char} (hw : isValidNumeral w = true) (hs : StartsNumeral w)
    (hr : DelimitsNumeral r) (line : Nat) (report : Report) :
    let rest := scanLine r line .normal {}
    let shift := Position.shift w.length
    let whole := scanLine (w ++ r) line .normal report
    whole.tokens = ⟨.number, .ofList w, ⟨line, 1⟩⟩ :: rest.tokens.map (Token.relocate shift) ∧
    whole.mode = rest.mode ∧
    whole.report.toList = report.toList ++ rest.report.toList.map (Diagnostic.relocate shift) := by
  intro rest shift whole
  obtain ⟨hnumeral, hmunch⟩ := munches_valid hw hs hr
  obtain ⟨hspace, hopening⟩ := (hs.append r).head
  have hrest : LineReading line .normal (1 + w.length) r (rest.tokens.map (Token.relocate shift))
      rest.mode := (lineReading_scanLine r line .normal {}).relocate fun _ => rfl
  have hreading : LineReading line .normal 1 (w ++ r)
      (⟨.number, .ofList w, ⟨line, 1⟩⟩ :: rest.tokens.map (Token.relocate shift)) rest.mode :=
    .token rfl hspace hopening hmunch hnumeral hrest
  have hwhole : whole = ⟨_, rest.mode, _⟩ := hreading.scanLine_eq report
  have hclean : (⟨.number, .ofList w, ⟨line, 1⟩⟩ : Token).diagnostic? = none := by
    simp [Token.diagnostic?, hw]
  rw [hwhole]
  refine ⟨rfl, rfl, ?_⟩
  rw [Report.toList_recordAll, List.filterMap_cons_none hclean, filterMap_diagnostic?_relocate,
    toList_report_scanLine]
  rfl

/-- A word that is no keyword is scanned as one identifier. -/
theorem scanLine_word {w : List Char} (hw : IsWord w) (hk : ¬ IsKeyword w) (line : Nat)
    (report : Report) : scanLine w line .normal report =
      ⟨[⟨.identifier, .ofList w, ⟨line, 1⟩⟩], .normal, report⟩ := by
  cases w with
  | nil => exact hw.elim
  | cons c cs =>
    have hmunch : Munches (c :: cs) (c :: cs) := by
      have h := munches_word hw.1 cs
      rwa [List.takeWhile_eq_self_iff.mpr hw.2] at h
    have hreading : LineReading line .normal 1 (c :: cs)
        [⟨.identifier, .ofList (c :: cs), ⟨line, 1⟩⟩] .normal := by
      refine .token (List.append_nil _).symm ?_ ?_ hmunch ⟨hw, hk⟩ (.done _ _)
      · rintro x ⟨⟩ rfl
        exact absurd hw.1 (by decide)
      · intro hp
        obtain ⟨rfl, -⟩ := List.cons_prefix_cons.mp hp
        exact absurd hw.1 (by decide)
    rw [hreading.scanLine_eq report]
    rfl

/-- The scanner agrees with the formats. A valid numeral that begins with a digit or a dot, with the
end of the line or a character behind it that can neither go on with its body nor be a suffix, is
scanned whole as one numeral with nothing wrong about it, and what is behind it is scanned as a line
of its own. A valid numeral that begins with a letter is one identifier. -/
theorem scanLine_takes_valid_numerals :
    (∀ w r : List Char, isValidNumeral w = true → (∃ c ∈ w.head?, c.isDigit = true ∨ c = '.') →
      (∀ c ∈ r.head?, c ∉ "0123456789ABCDEFabcdef.HhOo".toList) →
      ∀ (line : Nat) (report : Report),
        let rest := scanLine r line .normal {}
        let shift := Position.shift w.length
        let whole := scanLine (w ++ r) line .normal report
        whole.tokens = ⟨.number, .ofList w, ⟨line, 1⟩⟩ :: rest.tokens.map (Token.relocate shift) ∧
        whole.mode = rest.mode ∧
        whole.report.toList = report.toList ++ rest.report.toList.map (Diagnostic.relocate shift)) ∧
    ∀ w : List Char, isValidNumeral w = true → (∃ c ∈ w.head?, c.isAlpha = true) →
      ∀ (line : Nat) (report : Report), scanLine w line .normal report =
        ⟨[⟨.identifier, .ofList w, ⟨line, 1⟩⟩], .normal, report⟩ := by
  constructor
  · rintro w r hw ⟨c, hc, hstart⟩ hr line report
    obtain ⟨f, hf⟩ := isValidNumeral_iff.mp hw
    have hdelimits : DelimitsNumeral r := by
      intro x hx
      have hmem := hr x hx
      have hlist : "0123456789ABCDEFabcdef.HhOo".toList = NumeralFormat.decimalDigits ++
          NumeralFormat.hexLetters ++ ['.'] ++ ['H', 'h', 'O', 'o'] := by decide
      rw [hlist, List.mem_append, not_or, ← NumeralFormat.isNumeralChar_iff_mem] at hmem
      simpa [Lexer.isBaseSuffix] using hmem
    rcases NumeralFormat.starts_of_mem_language hf with hs | ⟨hword, -⟩
    · exact scanLine_valid hw hs hdelimits line report
    · cases w with
      | nil => exact hword.elim
      | cons x cs =>
        obtain rfl : x = c := Option.some.inj hc
        rcases hstart with hd | rfl
        · simp [isDigit_eq_false_of_isAlpha hword.1] at hd
        · exact absurd hword.1 (by decide)
  · rintro w hw ⟨c, hc, hletter⟩ line report
    obtain ⟨f, hf⟩ := isValidNumeral_iff.mp hw
    rcases NumeralFormat.starts_of_mem_language hf with hs | ⟨hword, hk⟩
    · cases w with
      | nil => exact hs.elim
      | cons x cs =>
        obtain rfl : x = c := Option.some.inj hc
        rcases hs with hd | ⟨rfl, -⟩
        · simp [isDigit_eq_false_of_isAlpha hletter] at hd
        · exact absurd hletter (by decide)
    · exact scanLine_word hword hk line report

/-- A float is taken whole in front of a sign and a digit, which do not prolong it. -/
theorem scanLine_takes_valid_numerals_signs :
    isValidNumeral "1.5E-3".toList = true ∧ isValidNumeral "FFh".toList = true ∧
    (scanLine "1.5E-3+7".toList 1 .normal {}).tokens =
      ⟨.number, "1.5E-3", ⟨1, 1⟩⟩ ::
        (scanLine "+7".toList 1 .normal {}).tokens.map (Token.relocate (Position.shift 6)) ∧
    scanLine "FFh".toList 1 .normal {} = ⟨[⟨.identifier, "FFh", ⟨1, 1⟩⟩], .normal, {}⟩ := by
  have hfloat : isValidNumeral "1.5E-3".toList = true := by decide +kernel
  have hhex : isValidNumeral "FFh".toList = true := by decide +kernel
  have hsign : ∀ c ∈ "+7".toList.head?, c ∉ "0123456789ABCDEFabcdef.HhOo".toList := by
    intro c hc
    obtain rfl : '+' = c := Option.some.inj hc
    decide
  have hnumber := (scanLine_takes_valid_numerals.1 "1.5E-3".toList "+7".toList hfloat
    ⟨'1', by decide, by decide⟩ hsign 1 {}).1
  have hword := scanLine_takes_valid_numerals.2 "FFh".toList hhex ⟨'F', by decide, by decide⟩ 1 {}
  exact ⟨hfloat, hhex, hnumber, hword⟩

end LexicalAnalyzer
