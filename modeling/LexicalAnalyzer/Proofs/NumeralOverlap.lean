import LexicalAnalyzer.Proofs.NumeralLanguages

/-!
Where the numeral formats overlap. The character in which a word ends tells its format: a base has
its own suffixes, and only decimals without a suffix and floats end in a digit. What these two have
in common are the words of digits alone, so of all orders in which the formats can be tried it only
matters which of the two comes first.
-/
namespace LexicalAnalyzer

/-- A first match stands in front of every other element that matches. -/
theorem idxOf_lt_of_find? {α : Type} [DecidableEq α] {l : List α} {p : α → Bool} {x y : α}
    (h : l.find? p = some x) (hy : p y = true) (hne : x ≠ y) : l.idxOf x < l.idxOf y := by
  obtain ⟨hx, front, behind, rfl, hfront⟩ := List.find?_eq_some_iff_append.mp h
  have hnotin {z : α} (hz : p z = true) : z ∉ front := fun hmem => by
    simpa [hz] using hfront z hmem
  rw [List.idxOf_append_of_notMem (hnotin hx), List.idxOf_append_of_notMem (hnotin hy),
    List.idxOf_cons_self, List.idxOf_cons_ne _ hne]
  omega

namespace NumeralFormat

open RegularExpression

section Endings

variable {p : RegularExpression Char} {w : List Char}

/-- The characters in which the words of a pattern can end. -/
def endings : RegularExpression Char → List Char
  | .zero => []
  | .epsilon => []
  | .char c => [c]
  | .plus p q => endings p ++ endings q
  | .comp p q => if q.matchEpsilon then endings p ++ endings q else endings q
  | .star p => endings p

theorem matchEpsilon_iff : p.matchEpsilon = true ↔ [] ∈ p.matches' :=
  p.rmatch_iff_matches' []

theorem mem_endings_of_mem_matches (h : w ∈ p.matches') : ∀ c ∈ w.getLast?, c ∈ endings p := by
  induction p generalizing w with
  | zero => exact (Language.notMem_zero _ h).elim
  | epsilon =>
    obtain rfl : w = [] := h
    simp
  | char c =>
    obtain rfl : w = [c] := h
    simp [endings]
  | plus p q ihp ihq =>
    intro c hc
    rcases mem_add.mp h with h | h
    · exact List.mem_append_left _ (ihp h c hc)
    · exact List.mem_append_right _ (ihq h c hc)
  | comp p q ihp ihq =>
    obtain ⟨u, hu, v, hv, rfl⟩ := mem_mul.mp h
    intro c hc
    rw [endings]
    -- The second part ends the word, unless it is empty.
    cases v with
    | nil =>
      rw [List.append_nil] at hc
      rw [if_pos (matchEpsilon_iff.mpr hv)]
      exact List.mem_append_left _ (ihp hu c hc)
    | cons x v =>
      rw [List.getLast?_append_of_ne_nil _ (by simp)] at hc
      have hend := ihq hv c hc
      split
      · exact List.mem_append_right _ hend
      · exact hend
  | star p ih =>
    obtain ⟨pieces, rfl, hpieces⟩ := Language.mem_kstar_iff_exists_nonempty.mp h
    intro c hc
    rcases List.eq_nil_or_concat pieces with rfl | ⟨front, last, rfl⟩
    · simp at hc
    · obtain ⟨hlast, hne⟩ := hpieces last (by simp)
      rw [List.concat_eq_append, List.flatten_append, List.flatten_singleton,
        List.getLast?_append_of_ne_nil _ hne] at hc
      exact ih hlast c hc

end Endings

/-- The two formats that have words in common. -/
def Overlap (f g : NumeralFormat) : Prop :=
  f = .decimal ∧ g = .float ∨ f = .float ∧ g = .decimal

instance (f g : NumeralFormat) : Decidable (Overlap f g) :=
  inferInstanceAs (Decidable (_ ∨ _))

variable {f g : NumeralFormat} {cs : List Char} {order : List NumeralFormat}

theorem mem_all (f : NumeralFormat) : f ∈ all := by
  cases f <;> decide

theorem ne_nil_of_mem_language (h : cs ∈ f.language) : cs ≠ [] := by
  rintro rfl
  have hnone : ∀ f ∈ all, f.pattern.matchEpsilon = false := by decide
  have hepsilon := matchEpsilon_iff.mpr h.1
  rw [hnone f (mem_all f)] at hepsilon
  cases hepsilon

/-- Formats without a word in common end in different characters. -/
theorem endings_disjoint (hne : f ≠ g) (h : ¬ Overlap f g) :
    ∀ c ∈ endings f.pattern, c ∉ endings g.pattern := by
  have hall : ∀ f ∈ all, ∀ g ∈ all, f ≠ g → ¬ Overlap f g →
      (endings f.pattern).all (· ∉ endings g.pattern) = true := by decide
  intro c hc
  exact of_decide_eq_true (List.all_eq_true.mp (hall f (mem_all f) g (mem_all g) hne h) c hc)

theorem overlap_of_mem_language (hne : f ≠ g) (hf : cs ∈ f.language) (hg : cs ∈ g.language) :
    Overlap f g := by
  by_contra h
  have hlast := List.getLast?_eq_some_getLast (ne_nil_of_mem_language hf)
  exact endings_disjoint hne h _ (mem_endings_of_mem_matches hf.1 _ hlast)
    (mem_endings_of_mem_matches hg.1 _ hlast)

/-- What is both a decimal and a float is made up of digits. -/
theorem mem_decimal_float_iff : cs ∈ language .decimal ∧ cs ∈ language .float ↔
    cs ∈ digits.matches' := by
  rw [mem_language_of_ne (by decide), mem_language_of_ne (by decide)]
  constructor
  · rintro ⟨hd, hf⟩
    refine (mem_mul_optional.mp hd).resolve_right fun hsuffixed => ?_
    obtain ⟨c, hc, hlast, -⟩ := mem_mul_oneOf.mp hsuffixed
    have hnone : ['D', 'd'].all (· ∉ endings (pattern .float)) = true := by decide
    exact of_decide_eq_true (List.all_eq_true.mp hnone c hc)
      (mem_endings_of_mem_matches hf c hlast)
  · intro h
    refine ⟨mem_mul_optional.mpr (.inl h), mem_add.mpr (.inr ?_)⟩
    -- Behind the digits there is neither a fraction nor an exponent.
    have hnothing : [] ∈ (optional (oneOf ['.'] * digits) * optional exponent).matches' :=
      mem_mul.mpr ⟨[], mem_optional.mpr (.inl rfl), [], mem_optional.mpr (.inl rfl), rfl⟩
    exact mem_mul.mpr ⟨cs, h, [], hnothing, List.append_nil cs⟩

theorem mem_language_both_iff (hne : f ≠ g) : cs ∈ f.language ∧ cs ∈ g.language ↔
    Overlap f g ∧ cs ∈ digits.matches' := by
  constructor
  · rintro ⟨hf, hg⟩
    have h := overlap_of_mem_language hne hf hg
    refine ⟨h, mem_decimal_float_iff.mp ?_⟩
    rcases h with ⟨rfl, rfl⟩ | ⟨rfl, rfl⟩
    · exact ⟨hf, hg⟩
    · exact ⟨hg, hf⟩
  · rintro ⟨⟨rfl, rfl⟩ | ⟨rfl, rfl⟩, h⟩
    · exact mem_decimal_float_iff.mpr h
    · exact (mem_decimal_float_iff.mpr h).symm

/-- Where decimals are tried before floats, the first match is the one format that admits the text,
or the decimal one where both do. -/
theorem find?_admits_iff (hall : ∀ f, f ∈ order)
    (h : order.idxOf .decimal < order.idxOf .float) : order.find? (·.admits cs) = some f ↔
      f.admits cs = true ∧ (f = .float → ¬ decimal.admits cs = true) := by
  have hfirst {g : NumeralFormat} (hg : order.find? (·.admits cs) = some g) :
      g.admits cs = true ∧ (g = .float → ¬ decimal.admits cs = true) := by
    refine ⟨(List.find?_eq_some_iff_append.mp hg).1, ?_⟩
    rintro rfl hd
    have hlt := idxOf_lt_of_find? hg hd (by decide)
    omega
  refine ⟨hfirst, fun ⟨hf, hfloat⟩ => ?_⟩
  have hsome : (order.find? (·.admits cs)).isSome = true := by
    rw [List.find?_isSome]
    exact ⟨f, hall f, hf⟩
  obtain ⟨g, hg⟩ := Option.isSome_iff_exists.mp hsome
  obtain ⟨hadmits, hchosen⟩ := hfirst hg
  by_cases hne : f = g
  · rw [hg, hne]
  · rcases overlap_of_mem_language hne (admits_iff.mp hf) (admits_iff.mp hadmits) with
      ⟨rfl, rfl⟩ | ⟨rfl, rfl⟩
    · exact absurd hf (hchosen rfl)
    · exact absurd hadmits (hfloat rfl)

theorem find?_admits_eq (hall : ∀ f, f ∈ order)
    (h : order.idxOf .decimal < order.idxOf .float) : order.find? (·.admits cs) = of? cs := by
  apply Option.ext
  intro f
  rw [find?_admits_iff hall h, of?, find?_admits_iff mem_all (by decide)]

end NumeralFormat

open NumeralFormat

/-- The formats overlap in one place only. No text is admitted by two of them, but for the decimal
and the float format, and these both admit just the texts of digits that are not empty. So all
orders in which the formats can be tried agree on every text, as long as decimals come before
floats; and no other order agrees with them. -/
theorem formats_overlap_in_digits :
    (∀ (f g : NumeralFormat) (cs : List Char), f ≠ g →
      (f.admits cs = true ∧ g.admits cs = true ↔
        (f = .decimal ∧ g = .float ∨ f = .float ∧ g = .decimal) ∧
          cs ≠ [] ∧ ∀ c ∈ cs, c ∈ "0123456789".toList)) ∧
    ∀ order : List NumeralFormat, order.Perm all →
      (order.idxOf .decimal < order.idxOf .float ↔
        ∀ cs : List Char, order.find? (·.admits cs) = of? cs) := by
  constructor
  · intro f g cs hne
    rw [admits_iff, admits_iff, mem_language_both_iff hne, digits, mem_oneOrMore_oneOf]
    exact Iff.rfl
  · intro order horder
    have hall : ∀ f, f ∈ order := fun f => horder.mem_iff.mpr (mem_all f)
    refine ⟨fun h cs => find?_admits_eq hall h, fun h => ?_⟩
    have hzero : of? ['0'] = some .decimal := by decide +kernel
    have hfloat : float.admits ['0'] = true := by decide +kernel
    exact idxOf_lt_of_find? ((h ['0']).trans hzero) hfloat (by decide)

/-- Two formats admit the digits, and the others may be tried in any place. -/
theorem formats_overlap_in_digits_shuffled :
    let order : List NumeralFormat := [.hexadecimal, .decimal, .octal, .float, .binary]
    (decimal.admits "08".toList = true ∧ float.admits "08".toList = true) ∧
      order.Perm all ∧ ∀ cs : List Char, order.find? (·.admits cs) = of? cs := by
  intro order
  obtain ⟨hoverlap, horders⟩ := formats_overlap_in_digits
  have horder : order.Perm all := by decide
  refine ⟨(hoverlap .decimal .float "08".toList (by decide)).mpr ⟨.inl ⟨rfl, rfl⟩, by simp⟩,
    horder, (horders order horder).mp (by decide)⟩

end LexicalAnalyzer
