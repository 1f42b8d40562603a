import LexicalAnalyzer.Proofs.Lexeme
import Mathlib.Data.List.TakeWhile

/-!
The longest lexeme in front of a text. It is found by its first character: a word goes on as far as
letters and digits do, a numeral is a run of body characters with a suffix or a signed exponent
behind it, and a separator is one of a few texts. A character that joins no longer lexeme ends
whatever stands in front of it, so the text behind it does not matter.
-/
namespace LexicalAnalyzer

/-- The longest lexeme in front of a text, or the text's first character when no lexeme stands
there. -/
inductive Munches : List Char → List Char → Prop where
  | lexeme {w text : List Char} (hp : w <+: text) (hw : IsLexeme w)
      (longest : ∀ v, v <+: text → IsLexeme v → v.length ≤ w.length) : Munches w text
  | stray {c : Char} {cs : List Char} (none : ∀ v, v <+: c :: cs → ¬ IsLexeme v) :
      Munches [c] (c :: cs)

theorem Munches.isPrefix {w text : List Char} (h : Munches w text) : w <+: text := by
  cases h with
  | lexeme hp _ _ => exact hp
  | stray _ => simp

theorem Munches.ne_nil {w text : List Char} (h : Munches w text) : w ≠ [] := by
  cases h with
  | lexeme _ hw _ => exact hw.ne_nil
  | stray _ => simp

/-- A text is munched in one way only. -/
theorem Munches.unique {v w text : List Char} (hv : Munches v text) (hw : Munches w text) :
    v = w := by
  cases hv with
  | lexeme hpv hlv maxv =>
    cases hw with
    | lexeme hpw hlw maxw =>
      have hle : v.length ≤ w.length := maxw v hpv hlv
      exact (List.prefix_of_prefix_length_le hpv hpw hle).eq_of_length
        (Nat.le_antisymm hle (maxv w hpw hlw))
    | stray none => exact absurd hlv (none v hpv)
  | stray none =>
    cases hw with
    | lexeme hpw hlw _ => exact absurd hlw (none w hpw)
    | stray _ => rfl

/-- What is munched in front of a text is munched by itself, too. -/
theorem Munches.self {w text : List Char} (h : Munches w text) : Munches w w := by
  cases h with
  | lexeme _ hw _ => exact .lexeme List.prefix_rfl hw fun v hv _ => hv.length_le
  | stray none => exact .stray fun v hv hlv => none v (hv.trans (by simp)) hlv

/-- A character that occurs in no lexeme but the one it is by itself. -/
def Breaks (c : Char) : Prop := ∀ w, IsLexeme w → c ∈ w → w = [c]

theorem breaks_slash : Breaks '/' := by
  intro w hw hc
  rcases hw.mem hc with h | h | h | h | h
  · exact IsSeparator.of_entries (P := fun w => '/' ∈ w → w = ['/']) (by decide) h hc
  all_goals exact absurd h (by decide)

theorem breaks_of_invalid {c : Char} (h : CharClass.of c = .invalid) : Breaks c :=
  fun _ hw hm => absurd hm (hw.not_mem_of_invalid h)

/-- A text that prolongs no lexeme in front of it. -/
def StartsApart (text : List Char) : Prop := ∀ c ∈ text.head?, Breaks c

/-- The prefixes of two texts put together end in the first or go on into the second. -/
theorem prefix_append_cases {p r v : List Char} (h : v <+: p ++ r) :
    v <+: p ∨ ∃ c ∈ r.head?, ∃ t, v = p ++ c :: t := by
  rcases List.prefix_or_prefix_of_prefix h (List.prefix_append p r) with hv | ⟨t, rfl⟩
  · exact .inl hv
  · cases t with
    | nil => simp
    | cons c t =>
      rw [List.prefix_append_right_inj] at h
      obtain ⟨u, rfl⟩ := h
      exact .inr ⟨c, rfl, t, rfl⟩

/-- The lexemes in front of a text are those in front of any part of it that ends where a character
breaks. -/
theorem prefix_append_iff {p r v : List Char} (hp : p ≠ []) (hr : StartsApart r)
    (hv : IsLexeme v) : v <+: p ++ r ↔ v <+: p := by
  constructor
  · intro h
    rcases prefix_append_cases h with h' | ⟨c, hc, t, rfl⟩
    · exact h'
    · have he := hr c hc _ hv (by simp)
      cases p with
      | nil => exact absurd rfl hp
      | cons a p => simp at he
  · intro h
    exact h.trans (List.prefix_append p r)

theorem munches_append_iff {p r w : List Char} (hp : p ≠ []) (hr : StartsApart r) :
    Munches w (p ++ r) ↔ Munches w p := by
  have hpre : ∀ v, IsLexeme v → (v <+: p ++ r ↔ v <+: p) := fun v hv => prefix_append_iff hp hr hv
  constructor
  · intro h
    cases p with
    | nil => exact absurd rfl hp
    | cons c p =>
      cases h with
      | lexeme hw hl longest =>
        exact .lexeme ((hpre w hl).mp hw) hl fun v hv hlv => longest v ((hpre v hlv).mpr hv) hlv
      | stray none =>
        exact .stray fun v hv hlv => none v ((hpre v hlv).mpr hv) hlv
  · intro h
    cases h with
    | lexeme hw hl longest =>
      exact .lexeme ((hpre w hl).mpr hw) hl fun v hv hlv => longest v ((hpre v hlv).mp hv) hlv
    | stray none =>
      exact .stray fun v hv hlv => none v ((hpre v hlv).mp hv) hlv

/-- Two characters do not stand across a place behind which another character stands than the
second of them. -/
theorem pair_prefix_append_iff {a b : Char} {p r : List Char} (hp : p ≠ [])
    (hr : ∀ c ∈ r.head?, c ≠ b) : [a, b] <+: p ++ r ↔ [a, b] <+: p := by
  cases p with
  | nil => exact absurd rfl hp
  | cons x p =>
    cases p with
    | cons y p => simp
    | nil =>
      cases r with
      | nil => simp
      | cons y r => simp [(hr y rfl).symm]

section Runs

variable {p : Char → Bool} {v w text : List Char} {x : Char}

/-- A prefix within a class of characters lies in the first run of that class. -/
theorem prefix_takeWhile (hv : ∀ c ∈ v, p c = true) (h : v <+: text) :
    v <+: text.takeWhile p := by
  obtain ⟨t, rfl⟩ := h
  rw [List.takeWhile_append_of_pos hv]
  exact List.prefix_append v _

/-- A prefix that leaves the class somewhere leaves it where the first run ends. -/
theorem eq_takeWhile_of_isPrefix (hv : ∀ c ∈ v, p c = true) (hx : p x = false)
    (h : v ++ x :: w <+: text) : v = text.takeWhile p ∧ x :: w <+: text.dropWhile p := by
  obtain ⟨t, rfl⟩ := h
  rw [List.append_assoc, List.takeWhile_append_of_pos hv, List.dropWhile_append_of_pos hv]
  simp [hx]

end Runs

theorem cons_of_isPrefix {c : Char} {cs v : List Char} (h : v <+: c :: cs) (hv : v ≠ []) :
    ∃ t, v = c :: t ∧ t <+: cs := by
  rcases List.prefix_cons_iff.mp h with rfl | h
  · exact absurd rfl hv
  · exact h

/-- Behind a letter the word goes on as far as letters and digits do. -/
theorem munches_word {c : Char} (hc : c.isAlpha = true) (cs : List Char) :
    Munches (c :: cs.takeWhile Char.isAlphanum) (c :: cs) := by
  have hw : IsWord (c :: cs.takeWhile Char.isAlphanum) :=
    ⟨hc, fun x hx => List.mem_takeWhile_imp hx⟩
  refine .lexeme ?_ (.inl hw) ?_
  · exact List.cons_prefix_cons.mpr ⟨rfl, List.takeWhile_prefix _⟩
  · intro v hp hv
    obtain ⟨t, rfl, ht⟩ := cons_of_isPrefix hp hv.ne_nil
    rcases hv with hv | hv | hv
    · simpa using (prefix_takeWhile hv.2 ht).length_le
    · rcases hv.starts with hd | ⟨rfl, _⟩
      · simp [isDigit_eq_false_of_isAlpha hc] at hd
      · exact absurd hc (by decide)
    · have hn := isAlphanum_eq_false_of_isSeparatorChar (hv.isSeparatorChar c (by simp))
      simp [Char.isAlphanum, hc] at hn

/-- A character of no class is munched alone. -/
theorem munches_invalid {c : Char} (hc : CharClass.of c = .invalid) (cs : List Char) :
    Munches [c] (c :: cs) := by
  refine .stray fun v hp hv => ?_
  obtain ⟨t, rfl, _⟩ := cons_of_isPrefix hp hv.ne_nil
  exact hv.not_mem_of_invalid hc (by simp)

theorem StartsNumeral.ne_nil {text : List Char} (h : StartsNumeral text) : text ≠ [] := by
  rintro rfl
  exact h

theorem StartsNumeral.append {w : List Char} (h : StartsNumeral w) (r : List Char) :
    StartsNumeral (w ++ r) := by
  cases w with
  | nil => exact h.elim
  | cons c cs =>
    rcases h with hd | ⟨rfl, d, hd, hdig⟩
    · exact .inl hd
    · cases cs with
      | nil => simp at hd
      | cons x cs => exact .inr ⟨rfl, d, by simpa using hd, hdig⟩

/-- The start of a numeral lies within its body. -/
theorem StartsNumeral.body {text : List Char} (h : StartsNumeral text) :
    StartsNumeral (text.takeWhile isNumeralChar) := by
  cases text with
  | nil => exact h.elim
  | cons c cs =>
    rcases h with hd | ⟨rfl, d, hd, hdig⟩
    · rw [List.takeWhile_cons_of_pos (isNumeralChar_of_isDigit hd)]
      exact .inl hd
    · cases cs with
      | nil => simp at hd
      | cons x cs =>
        obtain rfl : x = d := by simpa using hd
        rw [List.takeWhile_cons_of_pos (by decide),
          List.takeWhile_cons_of_pos (isNumeralChar_of_isDigit hdig)]
        exact .inr ⟨rfl, x, rfl, hdig⟩

/-- Where a numeral starts, no other lexeme but the dot stands. -/
theorem isNumeral_of_isPrefix {v text : List Char} (h : StartsNumeral text) (hp : v <+: text)
    (hv : IsLexeme v) : IsNumeral v ∨ v.length = 1 := by
  cases text with
  | nil => exact h.elim
  | cons c cs =>
    obtain ⟨t, rfl, ht⟩ := cons_of_isPrefix hp hv.ne_nil
    rcases hv with hv | hv | hv
    · rcases h with hd | ⟨rfl, _⟩
      · simp [isDigit_eq_false_of_isAlpha hv.1] at hd
      · exact absurd hv.1 (by decide)
    · exact .inl hv
    · rcases h with hd | ⟨rfl, _⟩
      · have hn := isAlphanum_eq_false_of_isSeparatorChar (hv.isSeparatorChar c (by simp))
        simp [Char.isAlphanum, hd] at hn
      · exact .inr (IsSeparator.of_entries (P := fun w => w.head? = some '.' → w.length = 1)
          (by decide) hv rfl)

/-- A sign and a digit that go on with a numeral, behind a character that ends its body. -/
def SignsExponent (mark sign digit : Char) : Prop :=
  NumeralFormat.isExponentMark mark = true ∧ NumeralFormat.isSign sign = true ∧
    digit.isDigit = true

/-- A numeral in front of a text is a part of the first body, that body with a suffix, or that body
with a sign, a digit and body characters. -/
theorem NumeralShape.prefix_cases {v text : List Char} (hv : NumeralShape v) (hp : v <+: text) :
    v <+: text.takeWhile isNumeralChar ∨
    (∃ suffix, Lexer.isBaseSuffix suffix = true ∧
      (text.dropWhile isNumeralChar).head? = some suffix ∧
      v = text.takeWhile isNumeralChar ++ [suffix]) ∨
    (∃ mark sign digit digits, SignsExponent mark sign digit ∧
      (∀ c ∈ digits, isNumeralChar c = true) ∧
      (text.takeWhile isNumeralChar).getLast? = some mark ∧
      sign :: digit :: digits <+: text.dropWhile isNumeralChar ∧
      v = text.takeWhile isNumeralChar ++ sign :: digit :: digits) := by
  cases hv with
  | plain _ _ hb => exact .inl (prefix_takeWhile hb hp)
  | suffixed body suffix _ hb hs =>
    obtain ⟨hbody, ⟨t, ht⟩⟩ :=
      eq_takeWhile_of_isPrefix hb (isNumeralChar_eq_false_of_isBaseSuffix hs) hp
    exact .inr (.inl ⟨suffix, hs, by simp [← ht], by rw [← hbody]⟩)
  | signed body digits mark sign digit hb hm hs hd hds =>
    obtain ⟨hbody, hrest⟩ :=
      eq_takeWhile_of_isPrefix hb (isNumeralChar_eq_false_of_isSign hs) hp
    exact .inr (.inr ⟨mark, sign, digit, digits, ⟨hm, hs, hd⟩, hds, by simp [← hbody], hrest,
      by rw [← hbody]⟩)

/-- A numeral that no other numeral in front of the text exceeds is munched. -/
theorem munches_of_longest_numeral {w text : List Char} (h : StartsNumeral text)
    (hw : NumeralShape w) (hp : w <+: text) (hb : text.takeWhile isNumeralChar <+: w)
    (longest : ∀ v, NumeralShape v → v <+: text → v.length ≤ w.length) :
    IsNumeral w ∧ Munches w text := by
  have hn : IsNumeral w := by
    obtain ⟨t, rfl⟩ := hb
    exact ⟨h.body.append t, hw⟩
  refine ⟨hn, .lexeme hp (.inr (.inl hn)) fun v hv hlv => ?_⟩
  rcases isNumeral_of_isPrefix h hv hlv with hv' | hv'
  · exact longest v hv'.shape hv
  · have hpos := List.length_pos_iff.mpr hw.ne_nil
    omega

section Numerals

variable {text : List Char} (h : StartsNumeral text)
include h

theorem munches_suffixed {suffix : Char} (hs : Lexer.isBaseSuffix suffix = true)
    (hr : (text.dropWhile isNumeralChar).head? = some suffix) :
    IsNumeral (text.takeWhile isNumeralChar ++ [suffix]) ∧
      Munches (text.takeWhile isNumeralChar ++ [suffix]) text := by
  obtain ⟨more, hmore⟩ := List.head?_eq_some_iff.mp hr
  apply munches_of_longest_numeral h
  · exact .suffixed _ suffix h.body.ne_nil (fun c hc => List.mem_takeWhile_imp hc) hs
  · refine ⟨more, ?_⟩
    rw [List.append_assoc, List.singleton_append, ← hmore, List.takeWhile_append_dropWhile]
  · exact List.prefix_append _ _
  · intro v hv hp
    rcases hv.prefix_cases hp with hle | ⟨_, _, _, rfl⟩ | hsigned
    · exact hle.length_le.trans (by simp)
    · simp
    · -- a sign and a suffix cannot both stand behind the body
      obtain ⟨_, sign, _, _, hx, _, _, hrest, _⟩ := hsigned
      rw [hmore, List.cons_prefix_cons] at hrest
      obtain ⟨rfl, _⟩ := hrest
      simp [isBaseSuffix_eq_false_of_isSign hx.2.1] at hs

theorem munches_signed {mark sign digit : Char} {more : List Char}
    (hx : SignsExponent mark sign digit) (hb : (text.takeWhile isNumeralChar).getLast? = some mark)
    (hr : text.dropWhile isNumeralChar = sign :: digit :: more) :
    IsNumeral (text.takeWhile isNumeralChar ++ sign :: digit :: more.takeWhile isNumeralChar) ∧
      Munches (text.takeWhile isNumeralChar ++ sign :: digit :: more.takeWhile isNumeralChar)
        text := by
  obtain ⟨body, hbody⟩ := List.getLast?_eq_some_iff.mp hb
  have hall : ∀ c ∈ text.takeWhile isNumeralChar, isNumeralChar c = true :=
    fun c hc => List.mem_takeWhile_imp hc
  apply munches_of_longest_numeral h
  · rw [hbody] at hall ⊢
    exact .signed body _ mark sign digit hall hx.1 hx.2.1 hx.2.2 fun c hc =>
      List.mem_takeWhile_imp hc
  · have he : text = text.takeWhile isNumeralChar ++ sign :: digit :: more := by
      rw [← hr, List.takeWhile_append_dropWhile]
    conv => rhs; rw [he]
    rw [List.prefix_append_right_inj]
    exact List.cons_prefix_cons.mpr ⟨rfl, List.cons_prefix_cons.mpr ⟨rfl, List.takeWhile_prefix _⟩⟩
  · exact List.prefix_append _ _
  · intro v hv hp
    rcases hv.prefix_cases hp with hle | ⟨suffix, hsuf, hhead, _⟩ | hsigned
    · exact hle.length_le.trans (by simp)
    · rw [hr] at hhead
      obtain rfl : sign = suffix := by simpa using hhead
      simp [isBaseSuffix_eq_false_of_isSign hx.2.1] at hsuf
    · obtain ⟨_, _, _, digits, _, hds, _, hrest, rfl⟩ := hsigned
      rw [hr, List.cons_prefix_cons, List.cons_prefix_cons] at hrest
      obtain ⟨rfl, rfl, hrest⟩ := hrest
      simpa using (prefix_takeWhile hds hrest).length_le

theorem munches_plain
    (hs : ∀ c ∈ (text.dropWhile isNumeralChar).head?, Lexer.isBaseSuffix c = false)
    (hx : ∀ mark sign digit more, (text.takeWhile isNumeralChar).getLast? = some mark →
      text.dropWhile isNumeralChar = sign :: digit :: more → ¬ SignsExponent mark sign digit) :
    IsNumeral (text.takeWhile isNumeralChar) ∧ Munches (text.takeWhile isNumeralChar) text := by
  apply munches_of_longest_numeral h
  · exact .plain _ h.body.ne_nil fun c hc => List.mem_takeWhile_imp hc
  · exact List.takeWhile_prefix _
  · exact List.prefix_rfl
  · intro v hv hp
    rcases hv.prefix_cases hp with hle | ⟨suffix, hsuf, hhead, _⟩ | hsigned
    · exact hle.length_le
    · simp [hs suffix hhead] at hsuf
    · obtain ⟨mark, sign, digit, _, hsign, _, hb, ⟨t, ht⟩, _⟩ := hsigned
      exact absurd hsign (hx mark sign digit _ hb ht.symm)

end Numerals

/-- A lexeme that begins with a separator character is a separator, unless a numeral starts
there. -/
theorem isSeparator_of_isPrefix {c : Char} {cs v : List Char} (hc : isSeparatorChar c = true)
    (hn : ¬ StartsNumeral (c :: cs)) (hp : v <+: c :: cs) (hv : IsLexeme v) : IsSeparator v := by
  rcases hv with hv | hv | hv
  · obtain ⟨t, rfl, _⟩ := cons_of_isPrefix hp (by rintro rfl; exact hv)
    have ha := isAlphanum_eq_false_of_isSeparatorChar hc
    simp [Char.isAlphanum, hv.1] at ha
  · obtain ⟨t, ht⟩ := hp
    exact absurd (ht ▸ hv.starts.append t) hn
  · exact hv

/-- The separators of two characters. -/
def separatorPairs : List (List Char) := [['<', '='], ['<', '>'], ['>', '=']]

theorem isSeparator_pair {w : List Char} (hw : w ∈ separatorPairs) : IsSeparator w := by
  have hall : ∀ w ∈ separatorPairs, w ∈ separators.entries.map String.toList := by decide
  exact (ofList_mem_iff w _).mpr (hall w hw)

theorem isSeparator_singleton {c : Char} (hc : isSeparatorChar c = true) : IsSeparator [c] := by
  have hall : ['+', '-', '=', '<', '>', '/', '*', ';', '.', '(', ')', ':', ','].all
      (fun x => [x] ∈ separators.entries.map String.toList) = true := by decide
  have hmem := List.all_eq_true.mp hall c (by simpa [isSeparatorChar] using hc)
  exact (ofList_mem_iff _ _).mpr (of_decide_eq_true hmem)

theorem munches_pair {w text : List Char} (hw : w ∈ separatorPairs) (hp : w <+: text) :
    Munches w text := by
  have hstart : ∃ c d, w = [c, d] ∧ isSeparatorChar c = true ∧ c.isDigit = false ∧ c ≠ '.' := by
    simp only [separatorPairs, List.mem_cons, List.not_mem_nil, or_false] at hw
    rcases hw with rfl | rfl | rfl <;> exact ⟨_, _, rfl, by decide⟩
  refine .lexeme hp (.inr (.inr (isSeparator_pair hw))) fun v hv hlv => ?_
  obtain ⟨c, d, rfl, hc, hdig, hdot⟩ := hstart
  obtain ⟨t, rfl⟩ := hp
  have hv' := isSeparator_of_isPrefix hc (by simp [StartsNumeral, hdig, hdot]) hv hlv
  exact IsSeparator.of_entries (P := fun v => v.length ≤ 2) (by decide) hv'

theorem munches_single {c : Char} {cs : List Char} (hc : isSeparatorChar c = true)
    (hn : ¬ StartsNumeral (c :: cs)) (hpair : ∀ w ∈ separatorPairs, ¬ w <+: c :: cs) :
    Munches [c] (c :: cs) := by
  refine .lexeme (by simp) (.inr (.inr (isSeparator_singleton hc))) fun v hv hlv => ?_
  have hv' := isSeparator_of_isPrefix hc hn hv hlv
  rcases IsSeparator.of_entries (P := fun v => v.length ≤ 1 ∨ v ∈ separatorPairs) (by decide) hv'
    with h | h
  · exact h
  · exact absurd hv (hpair v h)

end LexicalAnalyzer
