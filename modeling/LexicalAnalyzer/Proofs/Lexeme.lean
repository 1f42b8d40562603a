import LexicalAnalyzer.Scan.Lexer
import Mathlib.Logic.Basic

/-!
The lexemes as languages: words, numerals and separators are sets of texts, said without any lexer.
A keyword is a word, numerals begin with a digit or a dot and a digit, and the separators are the
entries of their table. A character of no class occurs in none of them.
-/
namespace LexicalAnalyzer

/-- A letter, then letters and digits. -/
def IsWord : List Char → Prop
  | [] => False
  | c :: cs => c.isAlpha = true ∧ ∀ x ∈ cs, x.isAlphanum = true

def IsKeyword (w : List Char) : Prop := String.ofList w ∈ keywords.entries

def IsSeparator (w : List Char) : Prop := String.ofList w ∈ separators.entries

/-- A digit in front, or a dot and a digit. -/
def StartsNumeral : List Char → Prop
  | [] => False
  | c :: cs => c.isDigit = true ∨ c = '.' ∧ ∃ d ∈ cs.head?, d.isDigit = true

/-- A body of digits, hexadecimal letters and dots; or a body and a suffix; or a body that ends in
an exponent mark, a sign, a digit and what further body characters there are. -/
inductive NumeralShape : List Char → Prop where
  | plain (body : List Char) (hne : body ≠ []) (hb : ∀ c ∈ body, isNumeralChar c = true) :
      NumeralShape body
  | suffixed (body : List Char) (suffix : Char) (hne : body ≠ [])
      (hb : ∀ c ∈ body, isNumeralChar c = true) (hs : Lexer.isBaseSuffix suffix = true) :
      NumeralShape (body ++ [suffix])
  | signed (body digits : List Char) (mark sign digit : Char)
      (hb : ∀ c ∈ body ++ [mark], isNumeralChar c = true)
      (hm : NumeralFormat.isExponentMark mark = true) (hs : NumeralFormat.isSign sign = true)
      (hd : digit.isDigit = true) (hds : ∀ c ∈ digits, isNumeralChar c = true) :
      NumeralShape (body ++ [mark] ++ sign :: digit :: digits)

structure IsNumeral (w : List Char) : Prop where
  starts : StartsNumeral w
  shape : NumeralShape w

def IsLexeme (w : List Char) : Prop := IsWord w ∨ IsNumeral w ∨ IsSeparator w

/-- The texts that a kind of token stands for. -/
def TokenKind.Covers (w : List Char) : TokenKind → Prop
  | .keyword => IsKeyword w
  | .identifier => IsWord w ∧ ¬ IsKeyword w
  | .separator => IsSeparator w
  | .number => IsNumeral w
  | .error => ¬ IsLexeme w

theorem ofList_mem_iff (w : List Char) (entries : List String) :
    String.ofList w ∈ entries ↔ w ∈ entries.map String.toList := by
  simp only [List.mem_map]
  constructor
  · intro h
    exact ⟨_, h, String.toList_ofList⟩
  · rintro ⟨s, hs, rfl⟩
    rwa [String.ofList_toList]

/-- What holds of every separator, tried on each entry of their table. -/
theorem IsSeparator.of_entries {P : List Char → Prop}
    (h : ∀ w ∈ separators.entries.map String.toList, P w) {w : List Char} (hw : IsSeparator w) :
    P w :=
  h w ((ofList_mem_iff w _).mp hw)

instance (w : List Char) : Decidable (IsWord w) :=
  match w with
  | [] => inferInstanceAs (Decidable False)
  | c :: cs =>
    decidable_of_iff (c.isAlpha = true ∧ cs.all Char.isAlphanum = true) (by simp [IsWord])

instance (w : List Char) : Decidable (StartsNumeral w) :=
  match w with
  | [] => inferInstanceAs (Decidable False)
  | c :: cs =>
    decidable_of_iff (c.isDigit = true ∨ c = '.' ∧ cs.head?.any Char.isDigit = true)
      (by simp [StartsNumeral, Option.any_eq_true])

/-- Every keyword is a word, so a keyword is never told from an identifier by its characters. -/
theorem isWord_of_isKeyword {w : List Char} (h : IsKeyword w) : IsWord w := by
  have hall : ∀ v ∈ keywords.entries.map String.toList, IsWord v := by decide
  exact hall w ((ofList_mem_iff w _).mp h)

theorem isAlpha_iff {c : Char} : c.isAlpha = true ↔
    'A'.toNat ≤ c.toNat ∧ c.toNat ≤ 'Z'.toNat ∨ 'a'.toNat ≤ c.toNat ∧ c.toNat ≤ 'z'.toNat := by
  change (decide ('A'.val ≤ c.val ∧ c.val ≤ 'Z'.val) ||
    (decide ('a'.val ≤ c.val) && decide (c.val ≤ 'z'.val))) = true ↔ _
  simp only [Bool.or_eq_true, Bool.and_eq_true, decide_eq_true_eq, UInt32.le_iff_toNat_le]
  exact Iff.rfl

theorem isAlpha_of_isHexLetter {c : Char} (h : isHexLetter c = true) : c.isAlpha = true := by
  simp only [isHexLetter, Bool.or_eq_true, Bool.and_eq_true, decide_eq_true_eq, Char.le_def,
    UInt32.le_iff_toNat_le] at h
  have hf : 'F'.val.toNat ≤ 'Z'.toNat ∧ 'f'.val.toNat ≤ 'z'.toNat := by decide
  rw [isAlpha_iff]
  rcases h with ⟨hl, hr⟩ | ⟨hl, hr⟩
  · exact .inl ⟨hl, Nat.le_trans hr hf.1⟩
  · exact .inr ⟨hl, Nat.le_trans hr hf.2⟩

theorem isDigit_eq_false_of_isAlpha {c : Char} (h : c.isAlpha = true) : c.isDigit = false := by
  have hd : '9'.toNat < 'A'.toNat ∧ '9'.toNat < 'a'.toNat := by decide
  rw [isAlpha_iff] at h
  rw [Bool.eq_false_iff, ne_eq, Char.isDigit_iff_toNat]
  omega

theorem isAlphanum_eq_false_of_isSeparatorChar {c : Char} (h : isSeparatorChar c = true) :
    c.isAlphanum = false := by
  simp only [isSeparatorChar, List.contains_eq_mem, decide_eq_true_eq] at h
  have hall : ['+', '-', '=', '<', '>', '/', '*', ';', '.', '(', ')', ':', ','].all
      (fun x => !x.isAlphanum) = true := by decide
  simpa using List.all_eq_true.mp hall c h

theorem isNumeralChar_of_isDigit {c : Char} (h : c.isDigit = true) : isNumeralChar c = true := by
  simp [isNumeralChar, h]

theorem isNumeralChar_of_isExponentMark {c : Char} (h : NumeralFormat.isExponentMark c = true) :
    isNumeralChar c = true := by
  simp only [NumeralFormat.isExponentMark, Bool.or_eq_true, beq_iff_eq] at h
  rcases h with rfl | rfl <;> decide

theorem isNumeralChar_eq_false_of_isBaseSuffix {c : Char} (h : Lexer.isBaseSuffix c = true) :
    isNumeralChar c = false := by
  simp only [Lexer.isBaseSuffix, List.contains_eq_mem, decide_eq_true_eq] at h
  have hall : ['H', 'h', 'O', 'o'].all (fun x => !isNumeralChar x) = true := by decide
  simpa using List.all_eq_true.mp hall c h

theorem isNumeralChar_eq_false_of_isSign {c : Char} (h : NumeralFormat.isSign c = true) :
    isNumeralChar c = false := by
  simp only [NumeralFormat.isSign, Bool.or_eq_true, beq_iff_eq] at h
  rcases h with rfl | rfl <;> decide

theorem isBaseSuffix_eq_false_of_isSign {c : Char} (h : NumeralFormat.isSign c = true) :
    Lexer.isBaseSuffix c = false := by
  simp only [NumeralFormat.isSign, Bool.or_eq_true, beq_iff_eq] at h
  rcases h with rfl | rfl <;> decide

/-- A character of a numeral that is neither a dot nor a sign is a letter or a digit. -/
theorem isAlphanum_of_isNumeralChar {c : Char} (h : isNumeralChar c = true) (hd : c ≠ '.') :
    c.isAlphanum = true := by
  simp only [isNumeralChar, Bool.or_eq_true, beq_iff_eq] at h
  rcases h with (h | h) | h
  · simp [Char.isAlphanum, h]
  · simp [Char.isAlphanum, isAlpha_of_isHexLetter h]
  · exact absurd h hd

theorem IsWord.isAlphanum {w : List Char} (h : IsWord w) {c : Char} (hc : c ∈ w) :
    c.isAlphanum = true := by
  cases w with
  | nil => exact h.elim
  | cons a as =>
    rcases List.mem_cons.mp hc with rfl | hc
    · simp [Char.isAlphanum, h.1]
    · exact h.2 c hc

theorem NumeralShape.ne_nil {w : List Char} (h : NumeralShape w) : w ≠ [] := by
  cases h <;> simp_all

/-- Letters, digits, dots and signs make up the numerals. -/
theorem NumeralShape.mem {w : List Char} (h : NumeralShape w) {c : Char} (hc : c ∈ w) :
    c.isAlphanum = true ∨ c = '.' ∨ c = '+' ∨ c = '-' := by
  have body : isNumeralChar c = true → c.isAlphanum = true ∨ c = '.' ∨ c = '+' ∨ c = '-' := by
    intro hn
    by_cases hd : c = '.'
    · exact .inr (.inl hd)
    · exact .inl (isAlphanum_of_isNumeralChar hn hd)
  cases h with
  | plain _ _ hb => exact body (hb c hc)
  | suffixed b s _ hb hs =>
    rcases List.mem_append.mp hc with hc | hc
    · exact body (hb c hc)
    · have hall : ['H', 'h', 'O', 'o'].all Char.isAlphanum = true := by decide
      rw [List.mem_singleton.mp hc]
      exact .inl (List.all_eq_true.mp hall s (by simpa [Lexer.isBaseSuffix] using hs))
  | signed b digits mark sign digit hb _ hs hd hds =>
    rcases List.mem_append.mp hc with hc | hc
    · exact body (hb c hc)
    · simp only [List.mem_cons] at hc
      rcases hc with rfl | rfl | hc
      · exact .inr (.inr (by simpa [NumeralFormat.isSign] using hs))
      · exact .inl (by simp [Char.isAlphanum, hd])
      · exact body (hds c hc)

theorem IsSeparator.ne_nil {w : List Char} (h : IsSeparator w) : w ≠ [] :=
  IsSeparator.of_entries (P := (· ≠ [])) (by decide) h

/-- The characters of a separator can each start one. -/
theorem IsSeparator.isSeparatorChar {w : List Char} (h : IsSeparator w) :
    ∀ c ∈ w, isSeparatorChar c = true := by
  apply List.all_eq_true.mp
  exact IsSeparator.of_entries (P := fun w => w.all LexicalAnalyzer.isSeparatorChar = true)
    (by decide) h

theorem IsLexeme.ne_nil {w : List Char} (h : IsLexeme w) : w ≠ [] := by
  rcases h with h | h | h
  · rintro rfl
    exact h
  · exact h.shape.ne_nil
  · exact h.ne_nil

/-- Outside the separators a lexeme has letters, digits, dots and signs only. -/
theorem IsLexeme.mem {w : List Char} (h : IsLexeme w) {c : Char} (hc : c ∈ w) :
    IsSeparator w ∨ c.isAlphanum = true ∨ c = '.' ∨ c = '+' ∨ c = '-' := by
  rcases h with h | h | h
  · exact .inr (.inl (h.isAlphanum hc))
  · exact .inr (h.shape.mem hc)
  · exact .inl h

/-- A character of no class stands in no lexeme. -/
theorem IsLexeme.not_mem_of_invalid {w : List Char} (hw : IsLexeme w) {c : Char}
    (h : CharClass.of c = .invalid) : c ∉ w := by
  have hc : c.isDigit = false ∧ c.isAlpha = false ∧ LexicalAnalyzer.isSeparatorChar c = false := by
    grind [CharClass.of]
  intro hm
  rcases hw.mem hm with hw | h | rfl | rfl | rfl
  · simp [hw.isSeparatorChar c hm] at hc
  · simp [Char.isAlphanum, hc.1, hc.2.1] at h
  all_goals exact absurd hc.2.2 (by decide)

theorem IsWord.not_isNumeral {w : List Char} (h : IsWord w) : ¬ IsNumeral w := by
  intro hn
  cases w with
  | nil => exact h
  | cons c cs =>
    rcases hn.starts with hd | ⟨rfl, _⟩
    · simp [isDigit_eq_false_of_isAlpha h.1] at hd
    · exact absurd h.1 (by decide)

theorem IsSeparator.not_isWord {w : List Char} (h : IsSeparator w) : ¬ IsWord w :=
  IsSeparator.of_entries (P := fun w => ¬ IsWord w) (by decide) h

theorem IsSeparator.not_isNumeral {w : List Char} (h : IsSeparator w) : ¬ IsNumeral w :=
  fun hn => IsSeparator.of_entries (P := fun w => ¬ StartsNumeral w) (by decide) h hn.starts

/-- No text stands for tokens of two kinds. -/
theorem TokenKind.Covers.unique {w : List Char} {k l : TokenKind} (hk : k.Covers w)
    (hl : l.Covers w) : k = l := by
  have hkey := @isWord_of_isKeyword w
  have hwn := @IsWord.not_isNumeral w
  have hsw := @IsSeparator.not_isWord w
  have hsn := @IsSeparator.not_isNumeral w
  cases k <;> cases l <;> grind [TokenKind.Covers, IsLexeme]

theorem covers_ofWord {w : List Char} (h : IsWord w) :
    (TokenKind.ofWord (.ofList w)).Covers w := by
  by_cases hk : IsKeyword w
  · have hsome : (keywords.indexOf? (.ofList w)).isSome = true := List.isSome_idxOf?.mpr hk
    simpa [TokenKind.ofWord, hsome, TokenKind.Covers] using hk
  · have hnone : ¬ (keywords.indexOf? (.ofList w)).isSome = true :=
      fun hs => hk (List.isSome_idxOf?.mp hs)
    simpa [TokenKind.ofWord, hnone, TokenKind.Covers] using ⟨h, hk⟩

end LexicalAnalyzer
