import LexicalAnalyzer.Numeral
import Mathlib.Computability.RegularExpressions

/-!
The numeral formats as regular languages. Each format has a pattern, and its test, which cuts a text
from both ends, answers for every text and says yes to the words of the format's language alone. The
patterns are over ASCII, where the bytes of a text are its characters.
-/
namespace LexicalAnalyzer

namespace NumeralFormat

open RegularExpression

/-- One character out of a list. -/
def oneOf (chars : List Char) : RegularExpression Char :=
  chars.foldr (fun c p => .char c + p) 0

def oneOrMore (p : RegularExpression Char) : RegularExpression Char := p * p.star

def optional (p : RegularExpression Char) : RegularExpression Char := 1 + p

def decimalDigits : List Char := "0123456789".toList

def hexLetters : List Char := "ABCDEFabcdef".toList

def digits : RegularExpression Char := oneOrMore (oneOf decimalDigits)

/-- A mark, perhaps a sign, and digits. -/
def exponent : RegularExpression Char :=
  oneOf ['E', 'e'] * (optional (oneOf ['+', '-']) * digits)

/-- What the words of a format look like. -/
def pattern : NumeralFormat → RegularExpression Char
  | .binary => oneOrMore (oneOf ['0', '1']) * oneOf ['B', 'b']
  | .octal => oneOrMore (oneOf "01234567".toList) * oneOf ['O', 'o']
  | .decimal => digits * optional (oneOf ['D', 'd'])
  | .hexadecimal => oneOrMore (oneOf (decimalDigits ++ hexLetters)) * oneOf ['H', 'h']
  | .float => oneOf ['.'] * (digits * optional exponent) +
      digits * (optional (oneOf ['.'] * digits) * optional exponent)

/-- The words of the pattern; those of the hexadecimal format have a letter in front of their
suffix. -/
def language (f : NumeralFormat) : Language Char :=
  {w | w ∈ f.pattern.matches' ∧ (f = .hexadecimal → ∃ c ∈ w.dropLast, c ∈ hexLetters)}

theorem mem_language {f : NumeralFormat} {w : List Char} : w ∈ f.language ↔
    w ∈ f.pattern.matches' ∧ (f = .hexadecimal → ∃ c ∈ w.dropLast, c ∈ hexLetters) := Iff.rfl

theorem mem_language_of_ne {f : NumeralFormat} {w : List Char} (h : f ≠ .hexadecimal) :
    w ∈ f.language ↔ w ∈ f.pattern.matches' := by
  simp [mem_language, h]

section Patterns

variable {chars w : List Char} {p q : RegularExpression Char} {c : Char}

theorem mem_mul : w ∈ (p * q).matches' ↔ ∃ u ∈ p.matches', ∃ v ∈ q.matches', u ++ v = w :=
  Language.mem_mul

theorem mem_add : w ∈ (p + q).matches' ↔ w ∈ p.matches' ∨ w ∈ q.matches' := Iff.rfl

theorem mem_optional : w ∈ (optional p).matches' ↔ w = [] ∨ w ∈ p.matches' := Iff.rfl

theorem mem_optional_mul :
    w ∈ (optional p * q).matches' ↔ w ∈ q.matches' ∨ w ∈ (p * q).matches' := by
  rw [matches'_mul, optional, matches'_add, matches'_epsilon, add_mul, one_mul]
  exact Iff.rfl

theorem mem_mul_optional :
    w ∈ (p * optional q).matches' ↔ w ∈ p.matches' ∨ w ∈ (p * q).matches' := by
  rw [matches'_mul, optional, matches'_add, matches'_epsilon, mul_add, mul_one]
  exact Iff.rfl

theorem mem_oneOf : w ∈ (oneOf chars).matches' ↔ ∃ c ∈ chars, w = [c] := by
  induction chars with
  | nil => simp [oneOf, Language.notMem_zero]
  | cons c chars ih =>
    rw [oneOf, List.foldr_cons, mem_add, ← oneOf, ih, List.exists_mem_cons_iff]
    exact Iff.rfl

theorem mem_oneOrMore_oneOf :
    w ∈ (oneOrMore (oneOf chars)).matches' ↔ w ≠ [] ∧ ∀ c ∈ w, c ∈ chars := by
  have hstar (v : List Char) : v ∈ (oneOf chars).star.matches' ↔ ∀ c ∈ v, c ∈ chars := by
    rw [matches'_star, Language.mem_kstar]
    constructor
    · rintro ⟨pieces, rfl, hpieces⟩ c hc
      obtain ⟨piece, hpiece, hcp⟩ := List.mem_flatten.mp hc
      obtain ⟨d, hd, rfl⟩ := mem_oneOf.mp (hpieces piece hpiece)
      exact List.mem_singleton.mp hcp ▸ hd
    · intro hv
      refine ⟨v.map fun c => [c], by simp [← List.flatMap_def], ?_⟩
      intro piece hpiece
      obtain ⟨c, hc, rfl⟩ := List.mem_map.mp hpiece
      exact mem_oneOf.mpr ⟨c, hv c hc, rfl⟩
  rw [oneOrMore, mem_mul]
  constructor
  · rintro ⟨u, hu, v, hv, rfl⟩
    obtain ⟨c, hc, rfl⟩ := mem_oneOf.mp hu
    exact ⟨by simp, List.forall_mem_cons.mpr ⟨hc, (hstar v).mp hv⟩⟩
  · rintro ⟨hne, hw⟩
    obtain ⟨c, v, rfl⟩ := List.exists_cons_of_ne_nil hne
    obtain ⟨hc, hv⟩ := List.forall_mem_cons.mp hw
    exact ⟨[c], mem_oneOf.mpr ⟨c, hc, rfl⟩, v, (hstar v).mpr hv, rfl⟩

theorem cons_mem_oneOf_mul :
    c :: w ∈ (oneOf chars * p).matches' ↔ c ∈ chars ∧ w ∈ p.matches' := by
  rw [mem_mul]
  constructor
  · rintro ⟨u, hu, v, hv, h⟩
    obtain ⟨d, hd, rfl⟩ := mem_oneOf.mp hu
    obtain ⟨rfl, rfl⟩ := List.cons.inj h
    exact ⟨hd, hv⟩
  · rintro ⟨hc, hw⟩
    exact ⟨[c], mem_oneOf.mpr ⟨c, hc, rfl⟩, w, hw, rfl⟩

theorem nil_notMem_oneOf_mul : [] ∉ (oneOf chars * p).matches' := by
  rintro ⟨u, hu, v, hv, h⟩
  obtain ⟨c, hc, rfl⟩ := mem_oneOf.mp hu
  exact List.cons_ne_nil _ _ h

/-- A word with a last character out of a list. -/
theorem mem_mul_oneOf : w ∈ (p * oneOf chars).matches' ↔
    ∃ c ∈ chars, w.getLast? = some c ∧ w.dropLast ∈ p.matches' := by
  rw [mem_mul]
  constructor
  · rintro ⟨u, hu, v, hv, rfl⟩
    obtain ⟨c, hc, rfl⟩ := mem_oneOf.mp hv
    exact ⟨c, hc, by simp, by simpa using hu⟩
  · rintro ⟨c, hc, hlast, hu⟩
    obtain ⟨u, rfl⟩ := List.getLast?_eq_some_iff.mp hlast
    exact ⟨u, by simpa using hu, [c], mem_oneOf.mpr ⟨c, hc, rfl⟩, rfl⟩

/-- The characters that a pattern speaks of. -/
def atoms : RegularExpression Char → List Char
  | .zero => []
  | .epsilon => []
  | .char c => [c]
  | .plus p q => atoms p ++ atoms q
  | .comp p q => atoms p ++ atoms q
  | .star p => atoms p

theorem mem_atoms_of_mem_matches (h : w ∈ p.matches') : ∀ c ∈ w, c ∈ atoms p := by
  induction p generalizing w with
  | zero => exact (Language.notMem_zero _ h).elim
  | epsilon =>
    obtain rfl : w = [] := h
    simp
  | char c =>
    obtain rfl : w = [c] := h
    simp [atoms]
  | plus p q ihp ihq =>
    intro c hc
    rcases mem_add.mp h with h | h
    · exact List.mem_append_left _ (ihp h c hc)
    · exact List.mem_append_right _ (ihq h c hc)
  | comp p q ihp ihq =>
    obtain ⟨u, hu, v, hv, rfl⟩ := mem_mul.mp h
    intro c hc
    rcases List.mem_append.mp hc with hc | hc
    · exact List.mem_append_left _ (ihp hu c hc)
    · exact List.mem_append_right _ (ihq hv c hc)
  | star p ih =>
    obtain ⟨pieces, rfl, hpieces⟩ := Language.mem_kstar.mp h
    intro c hc
    obtain ⟨piece, hpiece, hcp⟩ := List.mem_flatten.mp hc
    exact ih (hpieces piece hpiece) c hcp

end Patterns

section Classes

variable {c : Char}

/-- Characters listed in the order of their numbers make up a range. -/
theorem mem_iff_of_range {chars : List Char} {low count : Nat}
    (h : chars.map Char.toNat = List.range' low count) :
    c ∈ chars ↔ low ≤ c.toNat ∧ c.toNat < low + count := by
  have hinj : Function.Injective Char.toNat := fun _ _ => Char.toNat_inj.mp
  rw [← List.mem_map_of_injective hinj, h, List.mem_range'_1]

theorem isDigit_iff_mem : c.isDigit = true ↔ c ∈ decimalDigits := by
  rw [mem_iff_of_range (show decimalDigits.map Char.toNat = List.range' 48 10 by decide),
    Char.isDigit_iff_toNat]
  exact and_congr_right' Nat.lt_succ_iff.symm

theorem isOctalDigit_iff_mem : isOctalDigit c = true ↔ c ∈ "01234567".toList := by
  rw [mem_iff_of_range (show "01234567".toList.map Char.toNat = List.range' 48 8 by decide),
    isOctalDigit, Bool.and_eq_true, decide_eq_true_eq, decide_eq_true_eq]
  exact and_congr_right' Nat.lt_succ_iff.symm

theorem isHexLetter_iff_mem : isHexLetter c = true ↔ c ∈ hexLetters := by
  have hletters : hexLetters = "ABCDEF".toList ++ "abcdef".toList := by decide
  rw [hletters, List.mem_append,
    mem_iff_of_range (show "ABCDEF".toList.map Char.toNat = List.range' 65 6 by decide),
    mem_iff_of_range (show "abcdef".toList.map Char.toNat = List.range' 97 6 by decide),
    isHexLetter, Bool.or_eq_true, Bool.and_eq_true, Bool.and_eq_true]
  simp only [decide_eq_true_eq]
  exact or_congr (and_congr_right' Nat.lt_succ_iff.symm) (and_congr_right' Nat.lt_succ_iff.symm)

theorem isHexDigit_iff_mem : isHexDigit c = true ↔ c ∈ decimalDigits ++ hexLetters := by
  rw [isHexDigit, Bool.or_eq_true, List.mem_append, isDigit_iff_mem, isHexLetter_iff_mem]

theorem isBinaryDigit_iff_mem : isBinaryDigit c = true ↔ c ∈ ['0', '1'] := by
  simp [isBinaryDigit]

theorem isExponentMark_iff_mem : isExponentMark c = true ↔ c ∈ ['E', 'e'] := by
  simp [isExponentMark]

theorem isSign_iff_mem : isSign c = true ↔ c ∈ ['+', '-'] := by
  simp [isSign]

end Classes

section Tests

variable {chars suffixes w cs : List Char} {p q : RegularExpression Char} {c : Char}

/-- A test that answers for every text, and says yes to the words of a pattern alone. -/
def Decides (test : List Char → Option Bool) (p : RegularExpression Char) : Prop :=
  ∀ cs, ∃ answer, test cs = some answer ∧ (answer = true ↔ cs ∈ p.matches')

theorem isDigits_iff {isBaseDigit : Char → Bool} (h : ∀ {c}, isBaseDigit c = true ↔ c ∈ chars) :
    isDigits isBaseDigit cs = true ↔ cs ∈ (oneOrMore (oneOf chars)).matches' := by
  rw [mem_oneOrMore_oneOf, isDigits]
  simp [h]

theorem isSuffixed_iff {isBaseDigit : Char → Bool} (h : ∀ {c}, isBaseDigit c = true ↔ c ∈ chars) :
    isSuffixed suffixes isBaseDigit cs = true ↔
      cs ∈ (oneOrMore (oneOf chars) * oneOf suffixes).matches' := by
  rw [mem_mul_oneOf, isSuffixed]
  cases hlast : cs.getLast? with
  | none => simp
  | some last => simp [isDigits_iff h]

/-- The first character of a word of digits is a digit. -/
theorem isDigit_of_cons_mem (h : c :: w ∈ digits.matches') : c.isDigit = true :=
  isDigit_iff_mem.mpr ((mem_oneOrMore_oneOf.mp h).2 c (by simp))

theorem decides_isDecimal : Decides isDecimal? (digits * optional (oneOf ['D', 'd'])) := by
  intro cs
  rw [mem_mul_optional, mem_mul_oneOf]
  by_cases hd : ∃ c ∈ ['D', 'd'], cs.getLast? = some c
  · obtain ⟨c, hc, hlast⟩ := hd
    have hne : cs ≠ [] := by
      rintro rfl
      cases hlast
    have hcut : isDecimal? cs = some (isDigits Char.isDigit cs.dropLast) := by
      simp only [List.mem_cons, List.not_mem_nil, or_false] at hc
      rcases hc with rfl | rfl <;> simp [isDecimal?, hlast, cutLast?, hne]
    -- A suffix is no digit, so the text is not one of digits alone.
    have hdigits : cs ∉ digits.matches' := fun h => by
      have hdigit := (mem_oneOrMore_oneOf.mp h).2 c (List.mem_of_getLast? hlast)
      have hnone : ['D', 'd'].all (· ∉ decimalDigits) = true := by decide
      exact of_decide_eq_true (List.all_eq_true.mp hnone c hc) hdigit
    refine ⟨_, hcut, (isDigits_iff isDigit_iff_mem).trans ⟨fun h => .inr ⟨c, hc, hlast, h⟩, ?_⟩⟩
    exact fun h => (h.resolve_left hdigits).choose_spec.2.2
  · have hwhole : isDecimal? cs = some (isDigits Char.isDigit cs) := by
      simp only [isDecimal?]
      split
      · exact absurd ⟨'D', by simp, ‹_›⟩ hd
      · exact absurd ⟨'d', by simp, ‹_›⟩ hd
      · rfl
    refine ⟨_, hwhole, (isDigits_iff isDigit_iff_mem).trans ⟨.inl, fun h => h.resolve_right ?_⟩⟩
    rintro ⟨c, hc, hlast, _⟩
    exact hd ⟨c, hc, hlast⟩

/-- The cut of the suffix is made in a text that has one. -/
theorem isHexadecimal?_eq (cs : List Char) : isHexadecimal? cs =
    some (isSuffixed ['H', 'h'] isHexDigit cs && cs.dropLast.any isHexLetter) := by
  rw [isHexadecimal?]
  cases h : isSuffixed ['H', 'h'] isHexDigit cs with
  | false => rfl
  | true =>
    have hne : cs ≠ [] := by
      rintro rfl
      cases h
    simp [cutLast?, hne]

/-- The test of what follows an exponent mark. -/
theorem decides_signed : Decides (fun cs =>
    (if cs.head?.any isSign then cutFront? 1 cs else some cs).map (isDigits Char.isDigit))
    (optional (oneOf ['+', '-']) * digits) := by
  intro cs
  rw [mem_optional_mul]
  cases cs with
  | nil =>
    have hdigits : [] ∉ digits.matches' := fun h => (mem_oneOrMore_oneOf.mp h).1 rfl
    exact ⟨false, rfl, iff_of_false Bool.false_ne_true (not_or.mpr ⟨hdigits, nil_notMem_oneOf_mul⟩)⟩
  | cons sign rest =>
    rw [cons_mem_oneOf_mul, ← isSign_iff_mem]
    cases hsign : isSign sign with
    | false =>
      refine ⟨isDigits Char.isDigit (sign :: rest), by simp [hsign], ?_⟩
      simp [isDigits_iff isDigit_iff_mem, digits]
    | true =>
      have hdigits : sign :: rest ∉ digits.matches' := fun h => by
        have hnone : ['+', '-'].all (fun c => !c.isDigit) = true := by decide
        have hdigit := List.all_eq_true.mp hnone sign (isSign_iff_mem.mp hsign)
        simp [isDigit_of_cons_mem h] at hdigit
      refine ⟨isDigits Char.isDigit rest, by simp [hsign, cutFront?], ?_⟩
      simp only [isDigits_iff isDigit_iff_mem, true_and, hdigits, false_or]
      exact Iff.rfl

theorem decides_isExponent : Decides isExponent? exponent := by
  intro cs
  cases cs with
  | nil => exact ⟨false, rfl, iff_of_false Bool.false_ne_true nil_notMem_oneOf_mul⟩
  | cons mark rest =>
    rw [exponent, cons_mem_oneOf_mul, ← isExponentMark_iff_mem, isExponent?]
    cases isExponentMark mark with
    | false => exact ⟨false, rfl, by simp⟩
    | true =>
      obtain ⟨answer, hanswer, hiff⟩ := decides_signed rest
      exact ⟨answer, hanswer, by simp [hiff]⟩

theorem decides_endsFloat : Decides endsFloat? (optional exponent) := by
  intro cs
  cases cs with
  | nil => exact ⟨true, rfl, by simp [mem_optional]⟩
  | cons c rest =>
    obtain ⟨answer, hanswer, hiff⟩ := decides_isExponent (c :: rest)
    exact ⟨answer, hanswer, by simp [mem_optional, hiff]⟩

/-- The digits in front of a text are cut off whole, and behind them stands a word that no digit
starts. -/
theorem mem_digits_mul (hp : ∀ c v, c :: v ∈ p.matches' → c.isDigit = false) :
    cs ∈ (digits * p).matches' ↔
      cs.takeWhile Char.isDigit ≠ [] ∧ cs.dropWhile Char.isDigit ∈ p.matches' := by
  rw [mem_mul]
  constructor
  · rintro ⟨u, hu, v, hv, rfl⟩
    obtain ⟨hne, hdigits⟩ := mem_oneOrMore_oneOf.mp hu
    have htake : v.takeWhile Char.isDigit = [] ∧ v.dropWhile Char.isDigit = v := by
      cases v with
      | nil => exact ⟨rfl, rfl⟩
      | cons c v => simp [hp c v hv]
    have hall : ∀ c ∈ u, c.isDigit = true := fun c hc => isDigit_iff_mem.mpr (hdigits c hc)
    rw [List.takeWhile_append_of_pos hall, List.dropWhile_append_of_pos hall, htake.1, htake.2]
    exact ⟨by simpa using hne, hv⟩
  · rintro ⟨hne, hv⟩
    have hdigits : cs.takeWhile Char.isDigit ∈ digits.matches' :=
      mem_oneOrMore_oneOf.mpr ⟨hne, fun c hc =>
        isDigit_iff_mem.mp (List.all_eq_true.mp List.all_takeWhile c hc)⟩
    exact ⟨_, hdigits, _, hv, List.takeWhile_append_dropWhile⟩

theorem decides_startsDigits {test : List Char → Option Bool} (h : Decides test p)
    (hp : ∀ c v, c :: v ∈ p.matches' → c.isDigit = false) :
    Decides (startsDigits? test) (digits * p) := by
  intro cs
  rw [mem_digits_mul hp]
  by_cases hne : cs.takeWhile Char.isDigit = []
  · exact ⟨false, by simp [startsDigits?, hne], by simp [hne]⟩
  · have hcut : cutFront? (cs.takeWhile Char.isDigit).length cs =
        some (cs.dropWhile Char.isDigit) := by
      rw [cutFront?, if_pos (List.takeWhile_prefix Char.isDigit).length_le]
      have hsplit := List.takeWhile_append_dropWhile (p := Char.isDigit) (l := cs)
      generalize cs.takeWhile Char.isDigit = front, cs.dropWhile Char.isDigit = behind at hsplit ⊢
      rw [← hsplit, List.drop_left]
    obtain ⟨answer, hanswer, hiff⟩ := h (cs.dropWhile Char.isDigit)
    refine ⟨answer, ?_, by simp [hne, hiff]⟩
    simp [startsDigits?, hne, hcut, hanswer]

/-- A test that goes one way behind a dot and another where there is none. -/
theorem decides_dotted {dotted other : List Char → Option Bool} (h : Decides dotted p)
    (h' : Decides other q) (hq : ∀ v, '.' :: v ∉ q.matches') :
    Decides (fun | '.' :: rest => dotted rest | cs => other cs) (oneOf ['.'] * p + q) := by
  intro cs
  rw [mem_add]
  dsimp only
  split
  · rename_i rest
    obtain ⟨answer, hanswer, hiff⟩ := h rest
    exact ⟨answer, hanswer, by rw [hiff, cons_mem_oneOf_mul]; simp [hq]⟩
  · rename_i hdot
    obtain ⟨answer, hanswer, hiff⟩ := h' cs
    refine ⟨answer, hanswer, hiff.trans (or_iff_right ?_).symm⟩
    cases cs with
    | nil => exact nil_notMem_oneOf_mul
    | cons c rest =>
      rw [cons_mem_oneOf_mul]
      rintro ⟨hc, _⟩
      obtain rfl := List.mem_singleton.mp hc
      exact hdot rest rfl

theorem isExponentMark_of_cons_mem (h : c :: w ∈ (optional exponent).matches') :
    isExponentMark c = true :=
  isExponentMark_iff_mem.mpr (cons_mem_oneOf_mul.mp ((mem_optional.mp h).resolve_left (by simp))).1

theorem isDigit_eq_false_of_isExponentMark (h : isExponentMark c = true) : c.isDigit = false := by
  have hnone : ['E', 'e'].all (fun c => !c.isDigit) = true := by decide
  simpa using List.all_eq_true.mp hnone c (isExponentMark_iff_mem.mp h)

/-- What stands behind a dot. -/
theorem decides_fraction : Decides (startsDigits? endsFloat?) (digits * optional exponent) :=
  decides_startsDigits decides_endsFloat fun _ _ h =>
    isDigit_eq_false_of_isExponentMark (isExponentMark_of_cons_mem h)

/-- A fraction or none, as one choice on the dot. -/
theorem matches_optional_fraction :
    (optional (oneOf ['.'] * digits) * optional exponent).matches' =
      (oneOf ['.'] * (digits * optional exponent) + optional exponent).matches' := by
  simp only [matches'_mul, optional, matches'_add, matches'_epsilon]
  rw [add_mul, one_mul, mul_assoc, add_comm]

theorem decides_hasFraction :
    Decides hasFraction? (optional (oneOf ['.'] * digits) * optional exponent) := by
  intro cs
  rw [matches_optional_fraction]
  refine decides_dotted decides_fraction decides_endsFloat (fun v hv => ?_) cs
  exact absurd (isExponentMark_of_cons_mem hv) (by decide)

theorem decides_isFloat : Decides isFloat? (pattern .float) := by
  refine decides_dotted decides_fraction (decides_startsDigits decides_hasFraction ?_) ?_
  · intro c v hv
    rw [matches_optional_fraction] at hv
    rcases mem_add.mp hv with hv | hv
    · obtain rfl := List.mem_singleton.mp (cons_mem_oneOf_mul.mp hv).1
      rfl
    · exact isDigit_eq_false_of_isExponentMark (isExponentMark_of_cons_mem hv)
  · intro v hv
    obtain ⟨u, hu, rest, _, h⟩ := mem_mul.mp hv
    obtain ⟨c, u, rfl⟩ := List.exists_cons_of_ne_nil (mem_oneOrMore_oneOf.mp hu).1
    obtain ⟨rfl, -⟩ := List.cons.inj h
    exact absurd (isDigit_of_cons_mem hu) (by decide)

/-- Every test answers for every text, and no cut is out of range. -/
theorem exists_test (f : NumeralFormat) (cs : List Char) :
    ∃ answer, f.test? cs = some answer ∧ (answer = true ↔ cs ∈ f.language) := by
  cases f with
  | binary =>
    rw [mem_language_of_ne (by decide)]
    exact ⟨_, rfl, isSuffixed_iff isBinaryDigit_iff_mem⟩
  | octal =>
    rw [mem_language_of_ne (by decide)]
    exact ⟨_, rfl, isSuffixed_iff isOctalDigit_iff_mem⟩
  | decimal =>
    rw [mem_language_of_ne (by decide)]
    exact decides_isDecimal cs
  | hexadecimal =>
    refine ⟨_, isHexadecimal?_eq cs, ?_⟩
    rw [Bool.and_eq_true, isSuffixed_iff isHexDigit_iff_mem, List.any_eq_true]
    simp only [mem_language, pattern, isHexLetter_iff_mem, true_imp_iff]
  | float =>
    rw [mem_language_of_ne (by decide)]
    exact decides_isFloat cs

theorem ascii_of_mem_language {f : NumeralFormat} (h : cs ∈ f.language) :
    ∀ c ∈ cs, c.toNat < 0x80 := by
  have hall : ∀ g ∈ all, (atoms g.pattern).all (·.toNat < 0x80) = true := by decide
  intro c hc
  have hg : f ∈ all := by cases f <;> decide
  exact of_decide_eq_true (List.all_eq_true.mp (hall f hg) c (mem_atoms_of_mem_matches h.1 c hc))

/-- A text and its bytes are in a format together: bytes of ASCII make up characters of ASCII. -/
theorem octets_mem_language {f : NumeralFormat} :
    Utf8.octets cs ∈ f.language ↔ cs ∈ f.language := by
  constructor
  · intro h
    rwa [Utf8.octets_of_ascii (Utf8.ascii_of_octets (ascii_of_mem_language h))] at h
  · intro h
    rwa [Utf8.octets_of_ascii (ascii_of_mem_language h)]

theorem admits_iff {f : NumeralFormat} : f.admits cs = true ↔ cs ∈ f.language := by
  obtain ⟨answer, hanswer, hiff⟩ := exists_test f (Utf8.octets cs)
  rw [admits, hanswer, Option.getD_some, hiff, octets_mem_language]

end Tests

end NumeralFormat

theorem isValidNumeral_iff {cs : List Char} :
    isValidNumeral cs = true ↔ ∃ f : NumeralFormat, cs ∈ f.language := by
  rw [isValidNumeral, NumeralFormat.of?, List.find?_isSome]
  constructor
  · rintro ⟨f, _, hf⟩
    exact ⟨f, NumeralFormat.admits_iff.mp hf⟩
  · rintro ⟨f, hf⟩
    exact ⟨f, by cases f <;> decide, NumeralFormat.admits_iff.mpr hf⟩

/-- The tests of the formats decide their languages: on any text at all none of their cuts is out of
range, a format admits the words of its language and no other, and the valid numerals are the words
of the five languages together. -/
theorem formats_decide_languages :
    (∀ (f : NumeralFormat) (cs : List Char), f.test? cs ≠ none) ∧
      (∀ (f : NumeralFormat) (cs : List Char), f.admits cs = true ↔ cs ∈ f.language) ∧
      ∀ cs : List Char, isValidNumeral cs = true ↔ ∃ f : NumeralFormat, cs ∈ f.language := by
  refine ⟨fun f cs hnone => ?_, fun f cs => NumeralFormat.admits_iff, fun cs => isValidNumeral_iff⟩
  obtain ⟨answer, hanswer, -⟩ := NumeralFormat.exists_test f cs
  simp [hnone] at hanswer

end LexicalAnalyzer
