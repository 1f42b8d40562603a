import LexicalAnalyzer.Proofs.Encoding

/-!
Cursors as indices. A text with an index into its characters is the plain picture of a cursor, and
each operation has its plain meaning there. The cursor between two lists of characters and the
cursor into bytes give the same answers as the index, over any calls, and stand where it stands.
-/
namespace LexicalAnalyzer

namespace Cursor

/-- What a cursor may be asked. The character at the cursor is the one no places ahead. -/
inductive Call where
  | advance | retreat | skipSpaces
  | accept (x : Char)
  | peek (n : Nat)
  | slice (start : Nat)
  deriving DecidableEq, Repr

/-- What it answers. A slice may have no text. -/
inductive Answer where
  | moved
  | accepted (yes : Bool)
  | character (c : Char)
  | text (slice : Option (List Char))
  deriving DecidableEq, Repr

/-- The text between byte position `start` and an index, if a character starts there. -/
def sliceTo? (text : List Char) (k start : Nat) : Option (List Char) :=
  ((List.range (k + 1)).find? fun j => start == byteCount (text.take j)).map fun j =>
    (text.take k).drop j

namespace Call

/-- A call to an index into a text. -/
def onIndex (text : List Char) : Call → Nat → Answer × Nat
  | advance, k => (.moved, if k < text.length then k + 1 else k)
  | retreat, k => (.moved, k - 1)
  | skipSpaces, k => (.moved, k + ((text.drop k).takeWhile (· == ' ')).length)
  | accept x, k => if text[k]? = some x then (.accepted true, k + 1) else (.accepted false, k)
  | peek n, k => (.character (text[k + n]?.getD '\x00'), k)
  | slice start, k => (.text (sliceTo? text k start), k)

/-- A call to a cursor between characters. -/
def onCharacters : Call → Cursor → Answer × Cursor
  | advance, c => (.moved, c.advance)
  | retreat, c => (.moved, c.retreat)
  | skipSpaces, c => (.moved, c.skipSpaces)
  | accept x, c => (.accepted (c.accept x).1, (c.accept x).2)
  | peek n, c => (.character (c.peek n), c)
  | slice start, c => (.text (c.slice? start), c)

/-- A call to a cursor into bytes. A slice without text leaves the cursor as it is; where another
operation has no result, all further calls have none. -/
def onBytes : Call → ByteCursor → Option (Answer × ByteCursor)
  | advance, b => b.advance?.map fun b => (.moved, b)
  | retreat, b => b.retreat?.map fun b => (.moved, b)
  | skipSpaces, b => b.skipSpaces?.map fun b => (.moved, b)
  | accept x, b => (b.accept? x).map fun answer => (.accepted answer.1, answer.2)
  | peek n, b => (b.peek? n).map fun c => (.character c, b)
  | slice start, b => some (.text (b.slice? start), b)

end Call

/-- The answers to calls one after the other, and the state behind them. -/
def answerAll {σ : Type} (call : Call → σ → Option (Answer × σ)) :
    List Call → σ → Option (List Answer × σ)
  | [], s => some ([], s)
  | c :: calls, s => do
    let (answer, s) ← call c s
    let (answers, s) ← answerAll call calls s
    return (answer :: answers, s)

/-- The cursor with `front` behind and `rest` ahead. -/
def between (front rest : List Char) : Cursor :=
  ⟨front.reverse, rest, byteCount front, front.length + 1⟩

/-- A text stands at the end of another one, from byte position `start` on. -/
def IsSlice (front : List Char) (start : Nat) (more : List Char) : Prop :=
  ∃ shorter, shorter ++ more = front ∧ start = byteCount shorter

end Cursor

namespace ByteCursor

open Cursor (byteCount)

/-- The cursor into the bytes of `front` and `rest`, where the first end. -/
def between (front rest : List Char) : ByteCursor :=
  ⟨Utf8.encode (.ofList (front ++ rest)), byteCount front, UInt32.ofNat (front.length + 1)⟩

section Between

variable (front rest : List Char) (x : Char)

theorem slice?_between (shorter more : List Char) :
    (between (shorter ++ more) rest).slice? (byteCount shorter) = some more :=
  Utf8.slice?_encode shorter more rest

@[simp] theorem passed?_between : (between front rest).passed? = some front :=
  slice?_between rest [] front

@[simp] theorem ahead?_between : (between front rest).ahead? = some rest := by
  have h := Utf8.slice?_encode front rest []
  rw [List.append_nil, ← Utf8.length_encode (front ++ rest)] at h
  exact h

@[simp] theorem atEnd_between : (between front rest).atEnd = rest.isEmpty := by
  simp only [atEnd, between, Utf8.length_encode, Cursor.byteCount_append]
  cases rest with
  | nil => simp [byteCount]
  | cons x rest =>
    have hpos := x.utf8Size_pos
    rw [byteCount]
    exact decide_eq_false (by omega)

@[simp] theorem decoded?_between (n : Nat) :
    (between front rest).decoded? n = some (rest[n]?.getD '\x00') := by
  rw [decoded?, ahead?_between, Option.map_some]

theorem source_between : (between front rest).source[(between front rest).position]? =
    (Utf8.encode (.ofList rest)).head? := by
  simp only [between, Utf8.encode_ofList_append]
  rw [← Utf8.length_encode, List.getElem?_append_right (Nat.le_refl _), Nat.sub_self,
    List.head?_eq_getElem?]

/-- An ASCII byte is the character ahead, so a look at the byte shows the same as decoding. -/
theorem peek?_eq_decoded? (n : Nat) :
    (between front rest).peek? n = (between front rest).decoded? n := by
  rw [peek?, source_between, decoded?_between]
  cases rest with
  | nil => rfl
  | cons x rest =>
    obtain ⟨b, more, hx, _⟩ := (Utf8.form_utf8EncodeChar x).starts
    rw [Utf8.encode_cons, hx, List.cons_append, List.head?_cons]
    by_cases hfast : n = 0 ∧ b < 0x80
    · simp only [if_pos hfast, Utf8.ofNat_of_ascii hx hfast.2]
      rw [hfast.1, List.getElem?_cons_zero, Option.getD_some]
    · simp only [if_neg hfast]

end Between

section Moves

variable {front rest : List Char} {x : Char}

theorem toNat_column (h : front.length + 1 < UInt32.size) :
    (between front rest).column.toNat = front.length + 1 :=
  UInt32.toNat_ofNat_of_lt h

theorem advance?_between (h : front.length + 2 < UInt32.size) :
    (between front (x :: rest)).advance? = some (between (front ++ [x]) rest) := by
  have hcolumn : (between front (x :: rest)).column.toNat + 1 < UInt32.size := by
    rw [toNat_column (by omega)]
    omega
  simp only [advance?, ahead?_between, Option.bind_eq_bind, Option.bind_some, List.head?_cons,
    if_pos hcolumn]
  simp [between, Cursor.byteCount_append, byteCount]

theorem advance?_at_end : (between front []).advance? = some (between front []) := by
  simp [advance?]

theorem retreat?_between (h : front.length + 2 < UInt32.size) :
    (between (front ++ [x]) rest).retreat? = some (between front (x :: rest)) := by
  have hcolumn : 1 ≤ (between (front ++ [x]) rest).column := by
    have hlength : (front ++ [x]).length = front.length + 1 := by simp
    have hnat : (between (front ++ [x]) rest).column.toNat = front.length + 2 := by
      rw [toNat_column (by omega), hlength]
    rw [UInt32.le_iff_toNat_le, hnat]
    simp
  have hsize : byteCount (front ++ [x]) = byteCount front + x.utf8Size := by
    simp [Cursor.byteCount_append, byteCount]
  have hposition : x.utf8Size ≤ (between (front ++ [x]) rest).position := by
    rw [between, hsize]
    exact Nat.le_add_left _ _
  simp only [retreat?, passed?_between, Option.bind_eq_bind, Option.bind_some,
    List.getLast?_concat, if_pos (And.intro hposition hcolumn)]
  simp [between, hsize]

theorem retreat?_at_start : (between [] rest).retreat? = some (between [] rest) := by
  simp [retreat?]

/-- The null character past the end is none that could be passed. -/
theorem accept?_at_end : (between front []).accept? x = some (false, between front []) := by
  simp [accept?]

theorem accept?_between (h : front.length + 2 < UInt32.size) (y : Char) :
    (between front (y :: rest)).accept? x =
      some (if y = x then (true, between (front ++ [y]) rest)
        else (false, between front (y :: rest))) := by
  by_cases hx : y = x
  · simp [accept?, peek?_eq_decoded?, advance?_between h, hx]
  · simp [accept?, peek?_eq_decoded?, hx]

theorem skipSpaces?_between (h : front.length + rest.length + 1 < UInt32.size) :
    (between front rest).skipSpaces? =
      some (between (front ++ rest.takeWhile (· == ' ')) (rest.dropWhile (· == ' '))) := by
  induction rest generalizing front with
  | nil =>
    rw [skipSpaces?_eq]
    simp [peek?_eq_decoded?]
  | cons y rest ih =>
    rw [List.length_cons] at h
    rw [skipSpaces?_eq]
    by_cases hy : y = ' '
    · subst hy
      have hmove : (between front (' ' :: rest)).advance? = _ := advance?_between (by omega)
      have hrest := @ih (front ++ [' ']) (by simp; omega)
      simp [peek?_eq_decoded?, hmove, hrest]
    · simp [peek?_eq_decoded?, hy]

theorem between_ne : between (front ++ [x]) rest ≠ between front (x :: rest) := by
  intro h
  have hposition : byteCount (front ++ [x]) = byteCount front := congrArg position h
  have hpos := x.utf8Size_pos
  rw [Cursor.byteCount_append, byteCount] at hposition
  omega

theorem slice?_eq_some_iff {start : Nat} {more : List Char} :
    (between front rest).slice? start = some more ↔ Cursor.IsSlice front start more := by
  constructor
  · intro h
    obtain ⟨hle, hstart⟩ := Utf8.boundary_of_isSome_slice? (Option.isSome_of_eq_some h)
    obtain ⟨shorter, ⟨found, rfl⟩, rfl⟩ :=
      Utf8.exists_of_isBoundary_encode (List.prefix_append front rest) hstart hle
    rw [slice?_between] at h
    exact ⟨shorter, by rw [Option.some.inj h], rfl⟩
  · rintro ⟨shorter, rfl, rfl⟩
    exact slice?_between rest shorter more

end Moves

end ByteCursor

namespace Cursor

section Between

variable {front rest : List Char} {x : Char}

theorem advance_between : (between front (x :: rest)).advance = between (front ++ [x]) rest := by
  simp [between, advance, byteCount_append, byteCount]

theorem retreat_between : (between (front ++ [x]) rest).retreat = between front (x :: rest) := by
  simp [between, retreat, byteCount_append, byteCount]

theorem between_ne : between (front ++ [x]) rest ≠ between front (x :: rest) := fun h => by
  simpa [between] using congrArg column h

theorem advanceBy_between (n : Nat) :
    (between front rest).advanceBy n = between (front ++ rest.take n) (rest.drop n) := by
  simp only [advanceBy_eq, between, byteCount_append, List.reverse_append, List.length_append,
    Nat.add_right_comm]

theorem skipSpaces_between : (between front rest).skipSpaces =
    between (front ++ rest.takeWhile (· == ' ')) (rest.dropWhile (· == ' ')) := by
  have hspaces : rest.takeWhile (· == ' ') ++ rest.dropWhile (· == ' ') = rest :=
    List.takeWhile_append_dropWhile
  have htake : (rest.takeWhile (· == ' ') ++ rest.dropWhile (· == ' ')).take
      (rest.takeWhile (· == ' ')).length = rest.takeWhile (· == ' ') := List.take_left
  have hdrop : (rest.takeWhile (· == ' ') ++ rest.dropWhile (· == ' ')).drop
      (rest.takeWhile (· == ' ')).length = rest.dropWhile (· == ' ') := List.drop_left
  rw [hspaces] at htake hdrop
  change (between front rest).advanceBy (rest.takeWhile (· == ' ')).length = _
  rw [advanceBy_between, htake, hdrop]

theorem exists_of_takeBytes? {before taken found : List Char} {n : Nat}
    (h : takeBytes? before n taken = some found) :
    ∃ near far, before = near ++ far ∧ n = byteCount near ∧ found = near.reverse ++ taken := by
  induction before generalizing n taken with
  | nil =>
    cases n with
    | zero => exact ⟨[], [], rfl, rfl, by simpa [takeBytes?] using h.symm⟩
    | succ n => cases h
  | cons y before ih =>
    cases n with
    | zero => exact ⟨[], y :: before, rfl, rfl, by simpa [takeBytes?] using h.symm⟩
    | succ n =>
      rw [takeBytes?] at h
      split at h
      · rename_i hle
        obtain ⟨near, far, rfl, hn, rfl⟩ := ih h
        refine ⟨y :: near, far, rfl, ?_, by simp⟩
        rw [byteCount]
        omega
      · cases h

theorem slice?_eq_some_iff {start : Nat} {more : List Char} :
    (between front rest).slice? start = some more ↔ IsSlice front start more := by
  constructor
  · intro h
    rw [slice?] at h
    split at h
    · rename_i hle
      obtain ⟨near, far, hfront, hn, rfl⟩ := exists_of_takeBytes? h
      have hsplit : far.reverse ++ near.reverse = front := by
        rw [← List.reverse_append, ← hfront]
        exact List.reverse_reverse front
      have hcount : byteCount front = byteCount far.reverse + byteCount near := by
        rw [← hsplit, byteCount_append, byteCount_reverse near]
      change start ≤ byteCount front at hle
      change byteCount front - start = byteCount near at hn
      exact ⟨far.reverse, by rw [List.append_nil, hsplit], by omega⟩
    · cases h
  · rintro ⟨shorter, rfl, rfl⟩
    have hle : byteCount shorter ≤ (between (shorter ++ more) rest).offset := by
      rw [between, byteCount_append]
      exact Nat.le_add_right _ _
    have hbytes : (between (shorter ++ more) rest).offset - byteCount shorter =
        byteCount more.reverse := by
      rw [between, byteCount_append, byteCount_reverse, Nat.add_sub_cancel_left]
    have htake := takeBytes?_append more.reverse shorter.reverse []
    rw [List.append_nil, List.reverse_reverse, ← List.reverse_append] at htake
    rw [slice?, if_pos hle, hbytes]
    exact htake

theorem IsSlice.unique {start : Nat} {more other : List Char} (h : IsSlice front start more)
    (ho : IsSlice front start other) : more = other := by
  obtain ⟨shorter, hfront, rfl⟩ := h
  obtain ⟨shorter', hfront', hstart⟩ := ho
  have hsame : shorter = shorter' := by
    rcases List.prefix_or_prefix_of_prefix ⟨more, hfront⟩ ⟨other, hfront'⟩ with hp | hp
    · exact (eq_of_byteCount_le hp hstart.ge).symm
    · exact eq_of_byteCount_le hp hstart.le
  subst hsame
  exact List.append_cancel_left (hfront.trans hfront'.symm)

theorem sliceTo?_eq_some_iff {start : Nat} {more : List Char} :
    sliceTo? (front ++ rest) front.length start = some more ↔ IsSlice front start more := by
  have hfound {found : List Char} (h : sliceTo? (front ++ rest) front.length start = some found) :
      IsSlice front start found := by
    obtain ⟨j, hj, rfl⟩ := Option.map_eq_some_iff.mp h
    have hle : j ≤ front.length :=
      Nat.le_of_lt_succ (List.mem_range.mp (List.mem_of_find?_eq_some hj))
    have hstart : start = byteCount ((front ++ rest).take j) := by simpa using List.find?_some hj
    rw [List.take_append_of_le_length hle] at hstart
    exact ⟨front.take j, by rw [List.take_left, List.take_append_drop], hstart⟩
  constructor
  · exact hfound
  · intro hmore
    cases h : sliceTo? (front ++ rest) front.length start with
    | some found => rw [(hfound h).unique hmore]
    | none =>
      obtain ⟨shorter, rfl, rfl⟩ := hmore
      have hnone := List.find?_eq_none.mp (Option.map_eq_none_iff.mp h) shorter.length
        (List.mem_range.mpr (by rw [List.length_append]; omega))
      simp at hnone

end Between

section Calls

variable {front rest : List Char}

/-- A call takes all three pictures of a cursor to one place, with one answer. -/
structure Call.Moves (call : Call) (front rest : List Char) (answer : Answer)
    (front' rest' : List Char) : Prop where
  text : front' ++ rest' = front ++ rest
  index : call.onIndex (front ++ rest) front.length = (answer, front'.length)
  characters : call.onCharacters (between front rest) = (answer, between front' rest')
  bytes : call.onBytes (.between front rest) = some (answer, .between front' rest')

theorem moves_advance (h : (front ++ rest).length + 1 < UInt32.size) :
    ∃ front' rest', Call.advance.Moves front rest .moved front' rest' := by
  cases rest with
  | nil =>
    refine ⟨front, [], rfl, by simp [Call.onIndex], rfl, ?_⟩
    rw [Call.onBytes, ByteCursor.advance?_at_end]
    rfl
  | cons x rest =>
    rw [List.length_append, List.length_cons] at h
    refine ⟨front ++ [x], rest, by simp, by simp [Call.onIndex], ?_, ?_⟩
    · rw [Call.onCharacters, advance_between]
    · rw [Call.onBytes, ByteCursor.advance?_between (by omega)]
      rfl

theorem moves_retreat (h : (front ++ rest).length + 1 < UInt32.size) :
    ∃ front' rest', Call.retreat.Moves front rest .moved front' rest' := by
  rcases List.eq_nil_or_concat front with rfl | ⟨front, x, rfl⟩
  · refine ⟨[], rest, rfl, rfl, rfl, ?_⟩
    rw [Call.onBytes, ByteCursor.retreat?_at_start]
    rfl
  · rw [List.concat_eq_append] at *
    rw [List.length_append, List.length_append, List.length_singleton] at h
    refine ⟨front, x :: rest, by simp, by simp [Call.onIndex], ?_, ?_⟩
    · rw [Call.onCharacters, retreat_between]
    · rw [Call.onBytes, ByteCursor.retreat?_between (by omega)]
      rfl

theorem moves_skipSpaces (h : (front ++ rest).length + 1 < UInt32.size) :
    ∃ front' rest', Call.skipSpaces.Moves front rest .moved front' rest' := by
  rw [List.length_append] at h
  refine ⟨front ++ rest.takeWhile (· == ' '), rest.dropWhile (· == ' '), ?_, ?_, ?_, ?_⟩
  · rw [List.append_assoc, List.takeWhile_append_dropWhile]
  · rw [Call.onIndex, List.drop_left, List.length_append]
  · rw [Call.onCharacters, skipSpaces_between]
  · rw [Call.onBytes, ByteCursor.skipSpaces?_between h]
    rfl

theorem moves_accept (h : (front ++ rest).length + 1 < UInt32.size) (x : Char) :
    ∃ yes front' rest', (Call.accept x).Moves front rest (.accepted yes) front' rest' := by
  cases rest with
  | nil =>
    have hend : (between front []).peek? 0 ≠ some x := by simp [between, peek?]
    refine ⟨false, front, [], rfl, by simp [Call.onIndex], ?_, ?_⟩
    · rw [Call.onCharacters, accept, if_neg hend]
    · rw [Call.onBytes, ByteCursor.accept?_at_end]
      rfl
  | cons y rest =>
    rw [List.length_append, List.length_cons] at h
    have hbytes := @ByteCursor.accept?_between front rest x (by omega) y
    by_cases hy : y = x
    · refine ⟨true, front ++ [y], rest, by simp, by simp [Call.onIndex, hy], ?_, ?_⟩
      · have hnext : (between front (y :: rest)).peek? 0 = some x := congrArg some hy
        rw [Call.onCharacters, accept, if_pos hnext, advance_between]
      · rw [Call.onBytes, hbytes, if_pos hy]
        rfl
    · refine ⟨false, front, y :: rest, rfl, by simp [Call.onIndex, hy], ?_, ?_⟩
      · simp [Call.onCharacters, accept, peek?, between, hy]
      · rw [Call.onBytes, hbytes, if_neg hy]
        rfl

theorem moves_peek (n : Nat) :
    ∃ c, (Call.peek n).Moves front rest (.character c) front rest := by
  refine ⟨rest[n]?.getD '\x00', rfl, ?_, rfl, ?_⟩
  · rw [Call.onIndex, List.getElem?_append_right (Nat.le_add_right _ _), Nat.add_sub_cancel_left]
  · rw [Call.onBytes, ByteCursor.peek?_eq_decoded?, ByteCursor.decoded?_between]
    rfl

theorem moves_slice (start : Nat) :
    ∃ text, (Call.slice start).Moves front rest (.text text) front rest := by
  have hcharacters : (between front rest).slice? start =
      sliceTo? (front ++ rest) front.length start :=
    Option.ext fun more => by rw [slice?_eq_some_iff, sliceTo?_eq_some_iff]
  have hbytes : (ByteCursor.between front rest).slice? start =
      sliceTo? (front ++ rest) front.length start :=
    Option.ext fun more => by rw [ByteCursor.slice?_eq_some_iff, sliceTo?_eq_some_iff]
  refine ⟨sliceTo? (front ++ rest) front.length start, rfl, rfl, ?_, ?_⟩
  · rw [Call.onCharacters, hcharacters]
  · rw [Call.onBytes, hbytes]

/-- The three pictures of a cursor answer a call alike and go on alike. -/
theorem exists_moves (h : (front ++ rest).length + 1 < UInt32.size) (call : Call) :
    ∃ answer front' rest', call.Moves front rest answer front' rest' := by
  cases call with
  | advance => exact ⟨_, moves_advance h⟩
  | retreat => exact ⟨_, moves_retreat h⟩
  | skipSpaces => exact ⟨_, moves_skipSpaces h⟩
  | accept x =>
    obtain ⟨yes, hmoves⟩ := moves_accept h x
    exact ⟨_, hmoves⟩
  | peek n =>
    obtain ⟨c, hmoves⟩ := @moves_peek front rest n
    exact ⟨_, _, _, hmoves⟩
  | slice start =>
    obtain ⟨text, hmoves⟩ := @moves_slice front rest start
    exact ⟨_, _, _, hmoves⟩

/-- Over any calls the three pictures of a cursor stay together. -/
theorem answerAll_between (h : (front ++ rest).length + 1 < UInt32.size) (calls : List Call) :
    ∃ answers front' rest', front' ++ rest' = front ++ rest ∧
      answerAll (fun call k => some (call.onIndex (front ++ rest) k)) calls front.length =
        some (answers, front'.length) ∧
      answerAll (fun call c => some (call.onCharacters c)) calls (between front rest) =
        some (answers, between front' rest') ∧
      answerAll Call.onBytes calls (.between front rest) =
        some (answers, .between front' rest') := by
  induction calls generalizing front rest with
  | nil => exact ⟨[], front, rest, rfl, rfl, rfl, rfl⟩
  | cons call calls ih =>
    obtain ⟨answer, front', rest', hmoves⟩ := exists_moves h call
    obtain ⟨answers, front'', rest'', htext, hindex, hcharacters, hbytes⟩ :=
      @ih front' rest' (by rw [hmoves.text]; exact h)
    rw [hmoves.text] at htext hindex
    refine ⟨answer :: answers, front'', rest'', htext, ?_, ?_, ?_⟩
    · simp [answerAll, hmoves.index, hindex]
    · simp [answerAll, hmoves.characters, hcharacters]
    · simp [answerAll, hmoves.bytes, hbytes]

end Calls

/-- A cursor between characters that stands at index `k` of a text. -/
structure Follows (text : List Char) (k : Nat) (c : Cursor) : Prop where
  text_eq : c.text = text
  offset : c.offset = (Utf8.encode (.ofList (text.take k))).length
  column : c.column = k + 1
  atEnd_iff : c.atEnd = true ↔ k = text.length
  retreat_advance : k < text.length → c.advance ≠ c ∧ c.advance.retreat = c
  advance_retreat : 0 < k → c.retreat ≠ c ∧ c.retreat.advance = c

theorem follows_between (front rest : List Char) :
    (between front rest).Follows (front ++ rest) front.length where
  text_eq := by simp [between, text]
  offset := by rw [List.take_left, Utf8.length_encode, between]
  column := rfl
  atEnd_iff := by simp [between, atEnd]
  retreat_advance hlt := by
    cases rest with
    | nil => simp at hlt
    | cons x rest =>
      rw [advance_between, retreat_between]
      exact ⟨between_ne, rfl⟩
  advance_retreat hpos := by
    rcases List.eq_nil_or_concat front with rfl | ⟨front, x, rfl⟩
    · simp at hpos
    · rw [List.concat_eq_append, retreat_between, advance_between]
      exact ⟨between_ne.symm, rfl⟩

end Cursor

namespace ByteCursor

/-- A cursor into bytes that stands at index `k` of a text. -/
structure Follows (text : List Char) (k : Nat) (b : ByteCursor) : Prop where
  source : b.source = Utf8.encode (.ofList text)
  position : b.position = (Utf8.encode (.ofList (text.take k))).length
  column : b.column.toNat = k + 1
  atEnd_iff : b.atEnd = true ↔ k = text.length
  /-- A glance at a byte shows what decoding does. -/
  decoded : ∀ n, b.peek? n = b.decoded? n
  slice : ∀ start ≤ b.position, Utf8.isBoundary b.source start →
    ∃ j ≤ k, start = (Utf8.encode (.ofList (text.take j))).length ∧
      b.slice? start = some ((text.take k).drop j)
  retreat_advance : k < text.length →
    ∃ moved, b.advance? = some moved ∧ moved ≠ b ∧ moved.retreat? = some b
  advance_retreat : 0 < k →
    ∃ moved, b.retreat? = some moved ∧ moved ≠ b ∧ moved.advance? = some b

theorem follows_between {front rest : List Char} (h : (front ++ rest).length + 1 < UInt32.size) :
    (between front rest).Follows (front ++ rest) front.length where
  source := rfl
  position := by rw [List.take_left, Utf8.length_encode, between]
  column := toNat_column (by rw [List.length_append] at h; omega)
  atEnd_iff := by simp
  decoded := peek?_eq_decoded? front rest
  slice start hle hstart := by
    obtain ⟨shorter, ⟨more, hmore⟩, rfl⟩ :=
      Utf8.exists_of_isBoundary_encode (List.prefix_append front rest) hstart hle
    have htake : (front ++ rest).take shorter.length = shorter := by
      rw [← hmore, List.append_assoc, List.take_left]
    have hdrop : ((front ++ rest).take front.length).drop shorter.length = more := by
      rw [List.take_left, ← hmore, List.drop_left]
    refine ⟨shorter.length, ?_, ?_, ?_⟩
    · rw [← hmore, List.length_append]
      exact Nat.le_add_right _ _
    · rw [htake, Utf8.length_encode]
    · rw [hdrop, slice?_eq_some_iff]
      exact ⟨shorter, hmore, rfl⟩
  retreat_advance hlt := by
    cases rest with
    | nil => simp at hlt
    | cons x rest =>
      rw [List.length_append, List.length_cons] at h
      exact ⟨_, advance?_between (by omega), between_ne, retreat?_between (by omega)⟩
  advance_retreat hpos := by
    rcases List.eq_nil_or_concat front with rfl | ⟨front, x, rfl⟩
    · simp at hpos
    · rw [List.concat_eq_append] at *
      rw [List.length_append, List.length_append, List.length_singleton] at h
      exact ⟨_, retreat?_between (by omega), between_ne.symm, advance?_between (by omega)⟩

end ByteCursor

namespace Cursor

/-- A cursor is an index into the characters of its text. Whatever it is asked, one call after the
other, the cursor into bytes and the cursor between characters give the answers that the index
gives, without ever failing, and they stand where the index stands. -/
theorem cursors_follow_index (text : List Char) (h : text.length + 1 < UInt32.size)
    (calls : List Call) :
    ∃ answers k b c,
      answerAll (fun call k => some (call.onIndex text k)) calls 0 = some (answers, k) ∧
      answerAll Call.onBytes calls (.ofChars text) = some (answers, b) ∧
      answerAll (fun call c => some (call.onCharacters c)) calls (.ofChars text) =
        some (answers, c) ∧
      k ≤ text.length ∧ b.Follows text k ∧ c.Follows text k := by
  obtain ⟨answers, front, rest, rfl, hindex, hcharacters, hbytes⟩ :=
    @answerAll_between [] text h calls
  have hle : front.length ≤ (front ++ rest).length := by simp
  exact ⟨answers, front.length, _, _, hindex, hbytes, hcharacters, hle,
    ByteCursor.follows_between h, Cursor.follows_between front rest⟩

/-- A character of two bytes, a null character in the text and the end of the text are three
different things to a cursor. -/
theorem cursors_follow_index_null :
    let text := ['é', '\x00', ' ', '=']
    let calls : List Call := [.advance, .peek 0, .accept '\x00', .slice 0, .slice 1, .skipSpaces,
      .accept '=', .peek 0, .accept '\x00', .advance, .retreat, .slice 2]
    text.length + 1 < UInt32.size ∧
      ∃ b, answerAll Call.onBytes calls (.ofChars text) =
        some ([.moved, .character '\x00', .accepted true, .text (some ['é', '\x00']), .text none,
          .moved, .accepted true, .character '\x00', .accepted false, .moved, .moved,
          .text (some ['\x00', ' '])], b) ∧ b.column.toNat = 4 ∧ b.position = 4 := by
  intro text calls
  have hlength : text.length + 1 < UInt32.size := by decide
  obtain ⟨answers, k, b, c, hindex, hbytes, hcharacters, hle, hb, hc⟩ :=
    cursors_follow_index text hlength calls
  have hanswers : answerAll (fun call k => some (call.onIndex text k)) calls 0 =
      some ([.moved, .character '\x00', .accepted true, .text (some ['é', '\x00']), .text none,
        .moved, .accepted true, .character '\x00', .accepted false, .moved, .moved,
        .text (some ['\x00', ' '])], 3) := by decide +kernel
  obtain ⟨rfl, rfl⟩ := Prod.mk.inj (Option.some.inj (hindex.symm.trans hanswers))
  refine ⟨hlength, b, hbytes, hb.column, ?_⟩
  rw [hb.position]
  decide +kernel

end Cursor

end LexicalAnalyzer
