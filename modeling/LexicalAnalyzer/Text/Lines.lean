/-!
Lines of a text. A line feed ends a line, and one carriage return directly in front of it belongs
to the ending. Every other carriage return stays in its line, and the end of the text opens no
further line.
-/
namespace LexicalAnalyzer

namespace Lines

/-- Drops the carriage return that a line ends in. -/
def trimReturn (line : List Char) : List Char :=
  if line.getLast? = some '\r' then line.dropLast else line

/-- Splits a text behind `passed`, the start of its first line, nearest character first. -/
def splitFrom (passed : List Char) : List Char → List (List Char)
  | [] => if passed.isEmpty then [] else [passed.reverse]
  | c :: rest =>
    if c = '\n' then trimReturn passed.reverse :: splitFrom [] rest
    else splitFrom (c :: passed) rest

end Lines

/-- The lines of a text, without their endings. -/
def lines (text : List Char) : List (List Char) := Lines.splitFrom [] text

theorem Lines.splitFrom_append (passed line rest : List Char) (h : '\n' ∉ line) :
    splitFrom passed (line ++ '\n' :: rest) =
      trimReturn (passed.reverse ++ line) :: splitFrom [] rest := by
  induction line generalizing passed with
  | nil => simp [splitFrom]
  | cons c line ih =>
    have hc : c ≠ '\n' := by
      rintro rfl
      exact h (by simp)
    rw [List.cons_append, splitFrom, if_neg hc, ih _ fun hm => h (by simp [hm])]
    simp

/-- A line ends at its line feed, and the lines of the text behind it follow. -/
theorem lines_append_newline {line : List Char} (h : '\n' ∉ line) (rest : List Char) :
    lines (line ++ '\n' :: rest) = Lines.trimReturn line :: lines rest :=
  Lines.splitFrom_append [] line rest h

/-- Lines that are each ended by a line feed, and by no carriage return before it, are those of
the text. -/
theorem lines_flatMap_newline {ls : List (List Char)}
    (h : ∀ l ∈ ls, '\n' ∉ l ∧ l.getLast? ≠ some '\r') : lines (ls.flatMap (· ++ ['\n'])) = ls := by
  induction ls with
  | nil => rfl
  | cons l ls ih =>
    obtain ⟨hfeed, hreturn⟩ := h l (by simp)
    have hrest := ih fun m hm => h m (by simp [hm])
    rw [List.flatMap_cons, List.append_assoc, List.singleton_append, lines_append_newline hfeed,
      hrest, Lines.trimReturn, if_neg hreturn]

theorem Lines.mem_of_mem_trimReturn {c : Char} {line : List Char} (h : c ∈ trimReturn line) :
    c ∈ line := by
  unfold trimReturn at h
  split at h
  · exact (List.dropLast_sublist line).mem h
  · exact h

theorem Lines.feed_not_mem_splitFrom {passed text : List Char} (h : '\n' ∉ passed) :
    ∀ line ∈ splitFrom passed text, '\n' ∉ line := by
  induction text generalizing passed with
  | nil =>
    intro line hline
    rw [splitFrom] at hline
    split at hline
    · cases hline
    · obtain rfl := List.mem_singleton.mp hline
      simpa using h
  | cons c rest ih =>
    intro line hline
    rw [splitFrom] at hline
    split at hline
    · rcases List.mem_cons.mp hline with rfl | hline
      · exact fun hc => h (by simpa using mem_of_mem_trimReturn hc)
      · exact ih (by simp) line hline
    · rename_i hc
      have hpassed : '\n' ∉ c :: passed := by
        rintro (_ | ⟨_, hmem⟩)
        · exact hc rfl
        · exact h hmem
      exact ih hpassed line hline

/-- No line holds a line feed. -/
theorem feed_not_mem_lines {text : List Char} : ∀ line ∈ lines text, '\n' ∉ line :=
  Lines.feed_not_mem_splitFrom (by simp)

/-- Behind a line feed a text is split as a text of its own. -/
theorem Lines.splitFrom_append_feed (passed front rest : List Char) :
    splitFrom passed (front ++ '\n' :: rest) =
      splitFrom passed (front ++ ['\n']) ++ splitFrom [] rest := by
  induction front generalizing passed with
  | nil => simp [splitFrom]
  | cons c front ih =>
    by_cases hc : c = '\n'
    · simp only [List.cons_append, splitFrom, if_pos hc, ih]
    · simp only [List.cons_append, splitFrom, if_neg hc, ih]

/-- A text that ends in a line feed has as many lines as line feeds. -/
theorem Lines.length_splitFrom_feed (passed front : List Char) :
    (splitFrom passed (front ++ ['\n'])).length = front.count '\n' + 1 := by
  induction front generalizing passed with
  | nil => simp [splitFrom]
  | cons c front ih =>
    by_cases hc : c = '\n'
    · simp [splitFrom, hc, ih]
    · simp [splitFrom, hc, ih]

/-- A line feed at the end ends the last line, or makes an empty line where none had begun. -/
theorem Lines.splitFrom_feed {passed front : List Char}
    (h : (passed.reverse ++ front).getLast? ≠ some '\r') :
    splitFrom passed (front ++ ['\n']) = splitFrom passed front ∨
      splitFrom passed (front ++ ['\n']) = splitFrom passed front ++ [[]] := by
  induction front generalizing passed with
  | nil =>
    rw [List.append_nil] at h
    by_cases hp : passed = []
    · subst hp
      exact .inr rfl
    · have hkeep : trimReturn passed.reverse = passed.reverse := if_neg h
      exact .inl (by simp [splitFrom, hkeep, hp])
  | cons c front ih =>
    by_cases hc : c = '\n'
    · have hrest : ([].reverse ++ front).getLast? ≠ some '\r' := by
        cases front with
        | nil => simp
        | cons d front => simpa using h
      simpa [splitFrom, hc] using ih hrest
    · have hrest : ((c :: passed).reverse ++ front).getLast? ≠ some '\r' := by simpa using h
      simpa [splitFrom, hc] using ih hrest

/-- The lines of two texts with a line feed between them. -/
theorem lines_append_feed (front rest : List Char) :
    lines (front ++ '\n' :: rest) = lines (front ++ ['\n']) ++ lines rest :=
  Lines.splitFrom_append_feed [] front rest

theorem length_lines_feed (front : List Char) :
    (lines (front ++ ['\n'])).length = front.count '\n' + 1 :=
  Lines.length_splitFrom_feed [] front

theorem lines_feed {front : List Char} (h : front.getLast? ≠ some '\r') :
    lines (front ++ ['\n']) = lines front ∨ lines (front ++ ['\n']) = lines front ++ [[]] :=
  Lines.splitFrom_feed h

end LexicalAnalyzer
