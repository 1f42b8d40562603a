import LexicalAnalyzer.Proofs.Interning
import Mathlib.Data.List.Basic

/-!
Lexemes scanned again. A line of lexemes with a space behind each reads as the tokens that they were
taken from, malformed numerals included, and lines that hold the tokens of a source by their
numbers read as the tokens of the source.
-/
namespace LexicalAnalyzer

/-- The lexemes of tokens, each with a space behind it. -/
def spaced (ts : List Token) : List Char := ts.flatMap fun t => t.lexeme.toList ++ [' ']

theorem spaced_cons (t : Token) (ts : List Token) :
    spaced (t :: ts) = t.lexeme.toList ++ ' ' :: spaced ts := by
  simp [spaced]

theorem Token.Sound.not_opening {t : Token} (h : t.Sound) :
    ¬ ['/', '*'] <+: t.lexeme.toList := by
  intro hp
  have hslash := h.munches.eq_slash (hp.subset (by simp))
  rw [hslash] at hp
  exact absurd hp (by decide)

/-- In front of a space a token is munched again, and it opens no comment. -/
theorem Token.Sound.before_space {t : Token} (h : t.Sound) (rest : List Char) :
    Munches t.lexeme.toList (t.lexeme.toList ++ ' ' :: rest) ∧
      ¬ ['/', '*'] <+: t.lexeme.toList ++ ' ' :: rest := by
  have hne : t.lexeme.toList ≠ [] := h.munches.ne_nil
  constructor
  · rw [munches_append_iff hne]
    · exact h.munches
    · rintro c ⟨⟩
      exact breaks_of_invalid (by decide)
  · have hstar : ∀ c ∈ (' ' :: rest).head?, c ≠ '*' := by
      rintro c ⟨⟩
      decide
    rw [pair_prefix_append_iff hne hstar]
    exact h.not_opening

/-- Lexemes with a space behind each read as the tokens that they come from. -/
theorem LineReading.exists_spaced {ts : List Token} (hts : ∀ t ∈ ts, t.Sound)
    (line column : Nat) : ∃ us, LineReading line .normal column (spaced ts) us .normal ∧
      us.map Token.content = ts.map Token.content := by
  induction ts generalizing column with
  | nil => exact ⟨[], .done _ _, rfl⟩
  | cons t ts ih =>
    have ht := hts t (by simp)
    obtain ⟨us, hus, hcontent⟩ :=
      ih (fun s hs => hts s (by simp [hs])) (column + t.lexeme.toList.length + 1)
    obtain ⟨hm, ho⟩ := ht.before_space (spaced ts)
    rw [spaced_cons]
    refine ⟨_, .token rfl ?_ ho hm ht.covers (.space hus), ?_⟩
    · obtain ⟨c, cs, hcs⟩ := List.exists_cons_of_ne_nil ht.munches.ne_nil
      have hhead := ht.head_ne_space
      rw [hcs] at hhead ⊢
      exact hhead
    · simp [Token.content, hcontent]

/-- Scanned on a line with their number, the tokens have the same marks again. -/
theorem marks_scanLine_spaced {ts : List Token} {line : Nat}
    (hts : ∀ t ∈ ts, t.Sound ∧ t.position.line = line) (report : Report) :
    (scanLine (spaced ts) line .normal report).tokens.map Token.mark = ts.map Token.mark ∧
      (scanLine (spaced ts) line .normal report).mode = .normal := by
  obtain ⟨us, hus, hcontent⟩ := LineReading.exists_spaced (fun t ht => (hts t ht).1) line 1
  rw [hus.scanLine_eq report]
  refine ⟨?_, rfl⟩
  have hmark : ∀ vs : List Token, (∀ v ∈ vs, v.position.line = line) →
      vs.map Token.mark = (vs.map Token.content).map fun c => (line, c) := by
    intro vs hvs
    rw [List.map_map]
    refine List.map_congr_left fun v hv => ?_
    simp [Token.mark, Token.content, hvs v hv]
  rw [hmark us fun u hu => (hus.ordered.1 u hu).1, hmark ts fun t ht => (hts t ht).2, hcontent]

/-- Lines that hold the tokens with their numbers read as those tokens, line by line. -/
theorem marks_scanLines_spaced {ts : List Token} (hts : ∀ t ∈ ts, t.Sound)
    (first count : Nat) (report : Report) :
    (tokensOf (scanLines first .normal report ((List.range' first count).map fun n =>
        spaced (ts.filter (·.position.line = n))))).map Token.mark =
      ((List.range' first count).flatMap fun n =>
        ts.filter (·.position.line = n)).map Token.mark := by
  induction count generalizing first report with
  | zero => rfl
  | succ count ih =>
    have hline : ∀ t ∈ ts.filter (·.position.line = first),
        t.Sound ∧ t.position.line = first := by
      intro t ht
      obtain ⟨hmem, hn⟩ := List.mem_filter.mp ht
      exact ⟨hts t hmem, by simpa using hn⟩
    obtain ⟨hmarks, hmode⟩ := marks_scanLine_spaced hline report
    rw [List.range'_succ, List.map_cons, List.flatMap_cons, scanLines, hmode, List.map_append,
      ← ih, ← hmarks, ← List.map_append]
    rfl

section Rows

variable {α : Type} {key : α → Nat} {xs : List α}

/-- The entries with the least key come first. -/
theorem filter_append_filter_ne (hs : xs.Pairwise fun x y => key x ≤ key y) {n : Nat}
    (hn : ∀ x ∈ xs, n ≤ key x) : xs.filter (key · = n) ++ xs.filter (key · ≠ n) = xs := by
  induction xs with
  | nil => rfl
  | cons x xs ih =>
    obtain ⟨hx, hrest⟩ := List.pairwise_cons.mp hs
    by_cases hk : key x = n
    · have hih := ih hrest fun y hy => hn y (by simp [hy])
      simpa [hk] using hih
    · -- no key behind is less, so none is equal
      have hpast : ∀ y ∈ xs, key y ≠ n := by
        intro y hy
        have hle := hx y hy
        have hge := hn x (by simp)
        omega
      have hnone : xs.filter (key · = n) = [] := by
        simpa [List.filter_eq_nil_iff] using hpast
      have hall : xs.filter (key · ≠ n) = xs := by
        simpa [List.filter_eq_self] using hpast
      rw [List.filter_cons_of_neg (by simpa using hk), hnone,
        List.filter_cons_of_pos (by simpa using hk), hall]
      rfl

/-- Entries in the order of their keys are read back key by key. -/
theorem flatMap_filter_key (hs : xs.Pairwise fun x y => key x ≤ key y) (first count : Nat)
    (hk : ∀ x ∈ xs, first ≤ key x ∧ key x < first + count) :
    (List.range' first count).flatMap (fun n => xs.filter (key · = n)) = xs := by
  induction count generalizing first xs with
  | zero =>
    cases xs with
    | nil => rfl
    | cons x xs =>
      have hx := hk x (by simp)
      omega
  | succ count ih =>
    have hrest : (List.range' (first + 1) count).flatMap
        (fun n => (xs.filter (key · ≠ first)).filter (key · = n)) =
          xs.filter (key · ≠ first) := by
      refine ih (hs.filter _) (first + 1) fun x hx => ?_
      obtain ⟨hmem, hne⟩ := List.mem_filter.mp hx
      have hbounds := hk x hmem
      have hother : key x ≠ first := by simpa using hne
      omega
    have hsame : (List.range' (first + 1) count).flatMap (fun n => xs.filter (key · = n)) =
        (List.range' (first + 1) count).flatMap
          fun n => (xs.filter (key · ≠ first)).filter (key · = n) := by
      refine List.flatMap_congr fun n hn => ?_
      rw [List.filter_filter]
      refine List.filter_congr fun x _ => ?_
      have hpast := (List.mem_range'_1.mp hn).1
      by_cases hx : key x = n
      · simp [hx]
        omega
      · simp [hx]
    rw [List.range'_succ, List.flatMap_cons, hsame, hrest]
    exact filter_append_filter_ne hs fun x hx => (hk x hx).1

end Rows

end LexicalAnalyzer
