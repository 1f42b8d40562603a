import LexicalAnalyzer.Proofs.CallOrder
import LexicalAnalyzer.Proofs.CursorRefinement

/-!
Skipping a comment. Wherever a lexer stands, the comment ends behind the first `*/` ahead, and
without one it goes on to the end of the line. The plain search for that place looks at two
characters and passes one, time after time. It needs a cursor that shows what lies ahead, so it
stops at the same place on bytes and between characters.
-/
namespace LexicalAnalyzer

/-- The first `*/` of a text stands behind `inner`. -/
structure FirstClose (inner text : List Char) : Prop where
  isPrefix : inner ++ ['*', '/'] <+: text
  first : ∀ other, other ++ ['*', '/'] <+: text → inner.length ≤ other.length

theorem firstClose_nil {text : List Char} (h : ['*', '/'] <+: text) : FirstClose [] text :=
  ⟨h, fun _ _ => Nat.zero_le _⟩

theorem FirstClose.cons {c : Char} {inner text : List Char} (h : FirstClose inner text)
    (hc : ¬ ['*', '/'] <+: c :: text) : FirstClose (c :: inner) (c :: text) where
  isPrefix := (List.prefix_cons_inj c).mpr h.isPrefix
  first other hother := by
    cases other with
    | nil => exact absurd hother hc
    | cons d other =>
      have htail : other ++ ['*', '/'] <+: text := (List.cons_prefix_cons.mp hother).2
      exact Nat.succ_le_succ (h.first other htail)

namespace Lexer

variable {c : Char} {text : List Char}

/-- How many characters of a text skipping a comment passes. -/
def skippedLength (text : List Char) : Nat := (closeLength? text).getD text.length

theorem skippedLength_of_close (h : ['*', '/'] <+: text) : skippedLength text = 2 := by
  rw [skippedLength, closeLength?_of_close h, Option.getD_some]

theorem skippedLength_cons (h : ¬ ['*', '/'] <+: c :: text) :
    skippedLength (c :: text) = skippedLength text + 1 := by
  rw [skippedLength, skippedLength, closeLength?_cons h]
  cases closeLength? text <;> rfl

theorem isSome_closeLength?_iff : (closeLength? text).isSome ↔ ['*', '/'] <:+: text := by
  induction text with
  | nil => simp [closeLength?]
  | cons c text ih =>
    by_cases hc : ['*', '/'] <+: c :: text
    · simp [closeLength?_of_close hc, hc.isInfix]
    · rw [closeLength?_cons hc, Option.isSome_map, ih, List.infix_cons_iff]
      simp [hc]

theorem exists_firstClose (h : ['*', '/'] <:+: text) :
    ∃ inner, FirstClose inner text ∧ skippedLength text = inner.length + 2 := by
  induction text with
  | nil => simp at h
  | cons c text ih =>
    by_cases hc : ['*', '/'] <+: c :: text
    · exact ⟨[], firstClose_nil hc, skippedLength_of_close hc⟩
    · obtain ⟨inner, hfirst, hlength⟩ := ih ((List.infix_cons_iff.mp h).resolve_left hc)
      exact ⟨c :: inner, hfirst.cons hc, by rw [skippedLength_cons hc, hlength]; rfl⟩

theorem skippedLength_of_open (h : ¬ ['*', '/'] <:+: text) : skippedLength text = text.length := by
  have hnone : closeLength? text = none :=
    Option.not_isSome_iff_eq_none.mp (mt isSome_closeLength?_iff.mp h)
  rw [skippedLength, hnone, Option.getD_none]

end Lexer

/-- What a search in a text asks of a cursor: whether something is ahead, which character, and to
move on. -/
structure Reader (σ : Type) where
  atEnd : σ → Bool
  peek? : Nat → σ → Option Char
  advance? : σ → Option σ

namespace Reader

def ofCursor : Reader Cursor where
  atEnd := Cursor.atEnd
  peek? n c := some (c.peek n)
  advance? c := some c.advance

def ofByteCursor : Reader ByteCursor where
  atEnd := ByteCursor.atEnd
  peek? n c := c.peek? n
  advance? := ByteCursor.advance?

variable {σ : Type}

/-- Passes characters one by one until `*/` is ahead, passes that too, and says whether it found
it. The search is given up when it takes more than so many rounds. -/
def passComment? (reader : Reader σ) : Nat → σ → Option (Bool × σ)
  | 0, _ => none
  | rounds + 1, c => do
    if reader.atEnd c then return (false, c)
    if (← reader.peek? 0 c) = '*' ∧ (← reader.peek? 1 c) = '/' then
      return (true, ← reader.advance? (← reader.advance? c))
    reader.passComment? rounds (← reader.advance? c)

/-- A reader shows a text: with a place for every index, it sees there what the text goes on with,
and moves on from one to the next. -/
structure Shows (reader : Reader σ) (text : List Char) (place : Nat → σ) : Prop where
  atEnd : ∀ k, reader.atEnd (place k) = (text.drop k).isEmpty
  peek? : ∀ k n, reader.peek? n (place k) = some ((text.drop k)[n]?.getD '\x00')
  advance? : ∀ k < text.length, reader.advance? (place k) = some (place (k + 1))

/-- The null character that stands for the end of a text is no part of `*/`, so a star in front of
the end closes nothing. -/
theorem close_ahead_iff (text : List Char) :
    (text[0]?.getD '\x00' = '*' ∧ text[1]?.getD '\x00' = '/') ↔ ['*', '/'] <+: text := by
  cases text with
  | nil => simp
  | cons c text =>
    cases text with
    | nil => simp
    | cons d text => simp [List.cons_prefix_cons, eq_comm]

namespace Shows

open Lexer (closeLength? skippedLength)

variable {reader : Reader σ} {text : List Char} {place : Nat → σ} {rounds k : Nat}

theorem passComment?_of_end (h : reader.Shows text place) (hend : text.drop k = []) :
    reader.passComment? (rounds + 1) (place k) = some (false, place k) := by
  simp [passComment?, h.atEnd, hend]

theorem passComment?_of_close (h : reader.Shows text place) (hc : ['*', '/'] <+: text.drop k) :
    reader.passComment? (rounds + 1) (place k) = some (true, place (k + 2)) := by
  have hlength : 2 ≤ (text.drop k).length := hc.length_le
  rw [List.length_drop] at hlength
  have hempty : (text.drop k).isEmpty = false := by
    rw [List.isEmpty_eq_false_iff]
    intro hend
    simp [hend] at hc
  simp only [passComment?, h.atEnd, hempty, Bool.false_eq_true, if_false, h.peek?,
    Option.bind_eq_bind, Option.bind_some, if_pos ((close_ahead_iff _).mpr hc),
    h.advance? k (by omega), h.advance? (k + 1) (by omega)]
  rfl

theorem passComment?_of_other {c : Char} {rest : List Char} (h : reader.Shows text place)
    (hahead : text.drop k = c :: rest) (hc : ¬ ['*', '/'] <+: c :: rest) :
    reader.passComment? (rounds + 1) (place k) = reader.passComment? rounds (place (k + 1)) := by
  have hk : k < text.length := by
    have hlength := congrArg List.length hahead
    rw [List.length_drop, List.length_cons] at hlength
    omega
  simp only [passComment?, h.atEnd, h.peek?, h.advance? k hk, hahead, List.isEmpty_cons,
    Bool.false_eq_true, if_false, Option.bind_eq_bind, Option.bind_some,
    if_neg (mt (close_ahead_iff _).mp hc)]

/-- The search ends in time, at the first close or at the end of the text. It passes a character
only where no close begins, so none lies behind it. -/
theorem passComment?_eq (h : reader.Shows text place) (hrounds : (text.drop k).length < rounds) :
    reader.passComment? rounds (place k) =
      some ((closeLength? (text.drop k)).isSome, place (k + skippedLength (text.drop k))) := by
  induction rounds generalizing k with
  | zero => exact absurd hrounds (Nat.not_lt_zero _)
  | succ rounds ih =>
    by_cases hc : ['*', '/'] <+: text.drop k
    · rw [h.passComment?_of_close hc, Lexer.closeLength?_of_close hc,
        Lexer.skippedLength_of_close hc, Option.isSome_some]
    · cases hahead : text.drop k with
      | nil =>
        rw [h.passComment?_of_end hahead]
        rfl
      | cons c rest =>
        have hrest : text.drop (k + 1) = rest := by
          rw [← List.drop_drop, hahead, List.drop_one, List.tail_cons]
        rw [hahead] at hc hrounds
        have hless : (text.drop (k + 1)).length < rounds := by
          rw [hrest]
          exact Nat.lt_of_succ_lt_succ hrounds
        rw [h.passComment?_of_other hahead hc, ih hless, hrest, Lexer.closeLength?_cons hc,
          Lexer.skippedLength_cons hc, Option.isSome_map, Nat.add_assoc, Nat.add_comm 1]

end Shows

theorem shows_ofCursor (c : Cursor) : ofCursor.Shows c.after fun k => c.advanceBy k where
  atEnd k := by simp [ofCursor, Cursor.atEnd]
  peek? k n := by simp [ofCursor, Cursor.peek, Cursor.peek?]
  advance? k _ := congrArg some (Cursor.advanceBy_add k 1 c).symm

theorem shows_ofByteCursor {text : List Char} (h : text.length + 1 < UInt32.size) :
    ofByteCursor.Shows text fun k => .between (text.take k) (text.drop k) where
  atEnd k := ByteCursor.atEnd_between _ _
  peek? k n := by simp [ofByteCursor, ByteCursor.peek?_eq_decoded?]
  advance? k hk := by
    have hlength : (text.take k).length + 2 < UInt32.size := by
      rw [List.length_take]
      omega
    rw [List.drop_eq_getElem_cons hk, List.take_succ_eq_append_getElem hk]
    exact ByteCursor.advance?_between hlength

open Lexer (closeLength? skippedLength)

theorem passComment?_ofCursor {c : Cursor} {rounds : Nat} (h : c.after.length < rounds) :
    ofCursor.passComment? rounds c =
      some ((closeLength? c.after).isSome, c.advanceBy (skippedLength c.after)) := by
  have hfound := (shows_ofCursor c).passComment?_eq (k := 0) h
  rwa [List.drop_zero, Nat.zero_add] at hfound

/-- On bytes the search stops behind the same characters, and no step of it fails. -/
theorem passComment?_ofByteCursor {front rest : List Char} {rounds : Nat}
    (hsize : (front ++ rest).length + 1 < UInt32.size) (h : rest.length < rounds) :
    ofByteCursor.passComment? rounds (.between front rest) =
      some ((closeLength? rest).isSome, .between (front ++ rest.take (skippedLength rest))
        (rest.drop (skippedLength rest))) := by
  have hrest : (front ++ rest).drop front.length = rest := List.drop_left
  have hfound := (shows_ofByteCursor hsize).passComment?_eq (k := front.length) (by rwa [hrest])
  rwa [hrest, List.take_left, List.take_length_add_append, List.drop_length_add_append] at hfound

end Reader

namespace Cursor

/-- A cursor passes a text, and its counters count it. -/
structure Passes (c : Cursor) (passed : List Char) (last : Cursor) : Prop where
  after : c.after = passed ++ last.after
  before : last.before = passed.reverse ++ c.before
  offset : last.offset = c.offset + byteCount passed
  column : last.column = c.column + passed.length

theorem passes_advanceBy {c : Cursor} {passed : List Char} (h : passed <+: c.after) :
    c.Passes passed (c.advanceBy passed.length) := by
  obtain ⟨more, hmore⟩ := h
  rw [advanceBy_eq, ← hmore, List.take_left, List.drop_left]
  exact ⟨hmore.symm, rfl, rfl, rfl⟩

end Cursor

namespace Lexer

theorem skipComment_eq (lx : Lexer) :
    lx.skipComment = ((closeLength? lx.rest).isSome, { lx with
      cursor := lx.cursor.advanceBy (skippedLength lx.rest)
      mode := if (closeLength? lx.rest).isSome then .normal else lx.mode }) := by
  unfold skipComment skippedLength
  cases closeLength? lx.rest <;> rfl

end Lexer

/-- Skipping a comment stops at the first close. Wherever a lexer stands on its line, in either
mode: if `*/` is ahead, it passes the text up to the first one and that one, and is in normal mode;
otherwise it uses up the line and keeps its mode. It changes nothing else, and its counters count
what it passes. The search that looks at two characters and passes one comes to the same end, with
the null character for what lies behind the line, within as many rounds as there are characters
ahead, and one. It does so on the bytes of the line too, where no step of it fails. -/
theorem skipComment_stops_at_first_close (lx : Lexer) :
    (['*', '/'] <:+: lx.rest → ∃ inner last, FirstClose inner lx.rest ∧
      lx.cursor.Passes (inner ++ ['*', '/']) last ∧
      lx.skipComment = (true, { lx with cursor := last, mode := .normal })) ∧
    (¬ ['*', '/'] <:+: lx.rest → ∃ last, last.atEnd = true ∧ lx.cursor.Passes lx.rest last ∧
      lx.skipComment = (false, { lx with cursor := last })) ∧
    (∀ rounds, lx.rest.length < rounds → Reader.ofCursor.passComment? rounds lx.cursor =
      some (lx.skipComment.1, lx.skipComment.2.cursor)) ∧
    ∀ front rounds, lx.cursor = .between front lx.rest →
      (front ++ lx.rest).length + 1 < UInt32.size → lx.rest.length < rounds →
      ∃ front' rest', lx.skipComment.2.cursor = .between front' rest' ∧
        Reader.ofByteCursor.passComment? rounds (.between front lx.rest) =
          some (lx.skipComment.1, .between front' rest') := by
  rw [Lexer.skipComment_eq]
  refine ⟨fun h => ?_, fun h => ?_, fun rounds h => ?_, fun front rounds hcursor hsize h => ?_⟩
  · obtain ⟨inner, hfirst, hlength⟩ := Lexer.exists_firstClose h
    refine ⟨inner, _, hfirst, Cursor.passes_advanceBy hfirst.isPrefix, ?_⟩
    rw [Lexer.isSome_closeLength?_iff.mpr h, hlength, List.length_append]
    rfl
  · have hopen : (Lexer.closeLength? lx.rest).isSome = false :=
      Bool.eq_false_iff.mpr (mt Lexer.isSome_closeLength?_iff.mp h)
    refine ⟨_, ?_, Cursor.passes_advanceBy (List.prefix_refl _), ?_⟩
    · simp [Cursor.atEnd, Lexer.rest]
    · rw [hopen, Lexer.skippedLength_of_open h]
      rfl
  · exact Reader.passComment?_ofCursor h
  · refine ⟨_, _, ?_, Reader.passComment?_ofByteCursor hsize h⟩
    rw [hcursor]
    exact Cursor.advanceBy_between _

/-- Stars that overlap, a null character and one of two bytes stand in front of the close. Behind it
nothing closes, although a star ends the line. -/
theorem skipComment_stops_at_first_close_stars :
    let lx := (Lexer.ofLine "é/**\x00é***/ a*".toList 1 .normal {}).callAll
      [.readWord, .readSeparator]
    let behind := lx.call .skipComment
    ['*', '/'] <:+: lx.rest ∧
    (∃ inner last, FirstClose inner lx.rest ∧
      lx.skipComment = (true, { lx with cursor := last, mode := .normal }) ∧
      last.column = 11 ∧ last.offset = 12) ∧
    ¬ ['*', '/'] <:+: behind.rest ∧
    (∃ last, behind.skipComment = (false, { behind with cursor := last }) ∧
      last.atEnd = true ∧ last.column = 14) ∧
    ∃ front rest, lx.skipComment.2.cursor = .between front rest ∧
      Reader.ofByteCursor.passComment? 11 (.between "é/*".toList lx.rest) =
        some (lx.skipComment.1, .between front rest) := by
  intro lx behind
  have hclose : ['*', '/'] <:+: lx.rest := by decide +kernel
  have hopen : ¬ ['*', '/'] <:+: behind.rest := by decide +kernel
  obtain ⟨hstops, -, -, hbytes⟩ := skipComment_stops_at_first_close lx
  obtain ⟨-, huses, -⟩ := skipComment_stops_at_first_close behind
  obtain ⟨inner, last, hfirst, -, hskip⟩ := hstops hclose
  obtain ⟨last', hend, -, hskip'⟩ := huses hopen
  have hlast : last = lx.skipComment.2.cursor := by rw [hskip]
  have hlast' : last' = behind.skipComment.2.cursor := by rw [hskip']
  refine ⟨hclose, ⟨inner, last, hfirst, hskip, ?_⟩, hopen, ⟨last', hskip', hend, ?_⟩, ?_⟩
  · rw [hlast]
    decide +kernel
  · rw [hlast']
    decide +kernel
  · exact hbytes "é/*".toList 11 (by decide +kernel) (by decide +kernel) (by decide +kernel)

end LexicalAnalyzer
