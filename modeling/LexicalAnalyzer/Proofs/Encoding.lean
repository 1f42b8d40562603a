import LexicalAnalyzer.Proofs.LossyDecoding
import LexicalAnalyzer.Proofs.SinkWriting
import LexicalAnalyzer.Text.ByteCursor

/-!
Encoded text. A character has one of four forms as bytes, and from each of them it is read again,
whatever follows. So the bytes of a text are well-formed, the boundaries between its characters are
exactly the places where the bytes may be cut, and a slice between two of them is the text there.
-/
namespace LexicalAnalyzer

/-- A text that takes no more bytes than its own start is no longer than that. -/
theorem Cursor.eq_of_byteCount_le {front text : List Char} (h : front <+: text)
    (hle : byteCount text ≤ byteCount front) : text = front := by
  obtain ⟨more, rfl⟩ := h
  by_cases hmore : more = []
  · rw [hmore, List.append_nil]
  · have hpos := byteCount_pos hmore
    rw [byteCount_append] at hle
    omega

namespace Utf8

/-- The byte for the last six bits of a value, as it stands behind the first byte of a character. -/
def continuation (v : Nat) : UInt8 := UInt8.ofNat (v % 0x40 + 0x80)

theorem toNat_continuation (v : Nat) : (continuation v).toNat = v % 0x40 + 0x80 :=
  Nat.mod_eq_of_lt (by omega)

theorem startsCharacter_continuation (v : Nat) : startsCharacter (continuation v) = false := by
  simp only [startsCharacter, Bool.or_eq_false_iff, decide_eq_false_iff_not, UInt8.lt_iff_toNat_lt,
    UInt8.le_iff_toNat_le, toNat_continuation, UInt8.reduceToNat]
  omega

/-- The bytes of the character with number `v`, by how many there are. -/
inductive Form (v : Nat) : Bytes → Prop where
  | one {b : UInt8} (first : b.toNat = v) (below : v < 0x80) : Form v [b]
  | two {b : UInt8} (first : b.toNat = v / 0x40 + 0xC0) (above : 0x80 ≤ v) (below : v < 0x800) :
    Form v [b, continuation v]
  | three {b : UInt8} (first : b.toNat = v / 0x1000 + 0xE0) (above : 0x800 ≤ v)
    (below : v < 0x10000) (proper : v < 0xD800 ∨ 0xDFFF < v) :
    Form v [b, continuation (v / 0x40), continuation v]
  | four {b : UInt8} (first : b.toNat = v / 0x40000 + 0xF0) (above : 0x10000 ≤ v)
    (below : v < 0x110000) :
    Form v [b, continuation (v / 0x1000), continuation (v / 0x40), continuation v]

theorem form_utf8EncodeChar (c : Char) : Form c.toNat (String.utf8EncodeChar c) := by
  have hvalid : c.toNat < 0xD800 ∨ 0xDFFF < c.toNat ∧ c.toNat < 0x110000 := c.valid
  have henc : String.utf8EncodeChar c =
      if c.toNat ≤ 0x7F then [UInt8.ofNat c.toNat]
      else if c.toNat ≤ 0x7FF then
        [UInt8.ofNat (c.toNat / 0x40 % 0x20 + 0xC0), continuation c.toNat]
      else if c.toNat ≤ 0xFFFF then
        [UInt8.ofNat (c.toNat / 0x1000 % 0x10 + 0xE0), continuation (c.toNat / 0x40),
          continuation c.toNat]
      else
        [UInt8.ofNat (c.toNat / 0x40000 % 0x08 + 0xF0), continuation (c.toNat / 0x1000),
          continuation (c.toNat / 0x40), continuation c.toNat] := rfl
  rw [henc]
  generalize c.toNat = v at hvalid
  split
  · exact .one (by rw [UInt8.toNat_ofNat']; omega) (by omega)
  · split
    · refine .two ?_ (by omega) (by omega)
      rw [UInt8.toNat_ofNat']
      omega
    · split
      · refine .three ?_ (by omega) (by omega) (by omega)
        rw [UInt8.toNat_ofNat']
        omega
      · refine .four ?_ (by omega) (by omega)
        rw [UInt8.toNat_ofNat']
        omega

section Form

variable {v : Nat} {bytes : Bytes}

/-- Only the first byte of a character is one that starts a character. -/
theorem Form.starts (h : Form v bytes) : ∃ b more, bytes = b :: more ∧
    startsCharacter b = true ∧ ∀ x ∈ more, startsCharacter x = false := by
  have hstarts (b : UInt8) (hb : b.toNat < 0x80 ∨ 0xC0 ≤ b.toNat) : startsCharacter b = true := by
    simpa [startsCharacter, UInt8.lt_iff_toNat_lt, UInt8.le_iff_toNat_le] using hb
  cases h with
  | one first below => exact ⟨_, _, rfl, hstarts _ (by omega), by simp⟩
  | two first above below =>
    exact ⟨_, _, rfl, hstarts _ (by omega), by simp [startsCharacter_continuation]⟩
  | three first above below proper =>
    exact ⟨_, _, rfl, hstarts _ (by omega), by simp [startsCharacter_continuation]⟩
  | four first above below =>
    exact ⟨_, _, rfl, hstarts _ (by omega), by simp [startsCharacter_continuation]⟩

end Form

/-- A byte is read as the start of a character that has `bits` in front and whose next byte, of
`owed` ones, holds the last six bits of `v`. -/
def Opens (b : UInt8) (owed bits v : Nat) : Prop :=
  ∃ low high : UInt8, lead b = .pending ⟨owed, low, high, bits⟩ ∧
    low ≤ continuation v ∧ continuation v ≤ high

section Opens

variable {b low high : UInt8} {owed bits v : Nat}

theorem continuation_between_iff : low ≤ continuation v ∧ continuation v ≤ high ↔
    low.toNat ≤ v % 0x40 + 0x80 ∧ v % 0x40 + 0x80 ≤ high.toNat := by
  rw [UInt8.le_iff_toNat_le, UInt8.le_iff_toNat_le, toNat_continuation]

/-- Behind the second byte any continuation will do. -/
theorem continuation_between (v : Nat) : 0x80 ≤ continuation v ∧ continuation v ≤ 0xBF := by
  simp only [continuation_between_iff, UInt8.reduceToNat]
  omega

theorem opens_two (first : b.toNat = v / 0x40 + 0xC0) (above : 0x80 ≤ v) (below : v < 0x800) :
    Opens b 1 (v / 0x40) v := by
  refine ⟨0x80, 0xBF, ?_, continuation_between v⟩
  simp only [lead, UInt8.lt_iff_toNat_lt, UInt8.reduceToNat, first]
  rw [if_neg (by omega), if_neg (by omega), if_pos (by omega), Nat.add_sub_cancel]

/-- The first of three bytes keeps out overlong forms and surrogates by the range of the second. -/
theorem opens_three (first : b.toNat = v / 0x1000 + 0xE0) (above : 0x800 ≤ v)
    (below : v < 0x10000) (proper : v < 0xD800 ∨ 0xDFFF < v) :
    Opens b 2 (v / 0x1000) (v / 0x40) := by
  have hlead : lead b = if v / 0x1000 = 0 then .pending ⟨2, 0xA0, 0xBF, 0⟩
      else if v / 0x1000 = 0xD then .pending ⟨2, 0x80, 0x9F, 0xD⟩
      else .pending ⟨2, 0x80, 0xBF, v / 0x1000⟩ := by
    have hthree : v / 0x1000 + 0xE0 < 0xF0 := by omega
    simp only [lead, UInt8.lt_iff_toNat_lt, ← UInt8.toNat_inj, UInt8.reduceToNat, first]
    rw [if_neg (by omega), if_neg (by omega), if_neg (by omega), if_pos hthree,
      Nat.add_sub_cancel]
    simp
  rw [Opens, hlead]
  split
  · refine ⟨0xA0, 0xBF, by simp [*], continuation_between_iff.mpr ?_⟩
    simp only [UInt8.reduceToNat]
    omega
  · split
    · refine ⟨0x80, 0x9F, by simp [*], continuation_between_iff.mpr ?_⟩
      simp only [UInt8.reduceToNat]
      omega
    · exact ⟨0x80, 0xBF, rfl, continuation_between _⟩

/-- The first of four bytes keeps out overlong forms and values that are too great. -/
theorem opens_four (first : b.toNat = v / 0x40000 + 0xF0) (above : 0x10000 ≤ v)
    (below : v < 0x110000) : Opens b 3 (v / 0x40000) (v / 0x1000) := by
  have hlead : lead b = if v / 0x40000 = 0 then .pending ⟨3, 0x90, 0xBF, 0⟩
      else if v / 0x40000 < 4 then .pending ⟨3, 0x80, 0xBF, v / 0x40000⟩
      else if v / 0x40000 = 4 then .pending ⟨3, 0x80, 0x8F, 4⟩ else .stray := by
    have hthree : ¬ v / 0x40000 + 0xF0 < 0xF0 := by omega
    have hzero : v / 0x40000 + 0xF0 ≠ 0xE0 := by omega
    have hsurrogate : v / 0x40000 + 0xF0 ≠ 0xED := by omega
    have hrange : v / 0x40000 + 0xF0 < 0xF4 ↔ v / 0x40000 < 4 := by omega
    simp only [lead, UInt8.lt_iff_toNat_lt, ← UInt8.toNat_inj, UInt8.reduceToNat, first]
    rw [if_neg (by omega), if_neg (by omega), if_neg (by omega), if_neg hzero, if_neg hsurrogate,
      if_neg hthree, Nat.add_sub_cancel]
    simp [hrange]
  rw [Opens, hlead]
  split
  · refine ⟨0x90, 0xBF, by simp [*], continuation_between_iff.mpr ?_⟩
    simp only [UInt8.reduceToNat]
    omega
  · split
    · exact ⟨0x80, 0xBF, rfl, continuation_between _⟩
    · have hfour : v / 0x40000 = 4 := by omega
      rw [if_pos hfour, hfour]
      refine ⟨0x80, 0x8F, rfl, continuation_between_iff.mpr ?_⟩
      simp only [UInt8.reduceToNat]
      omega

theorem fits_continuation (hlow : low ≤ continuation v) (hhigh : continuation v ≤ high) :
    Pending.fits ⟨owed, low, high, bits⟩ (continuation v) = true := by
  simp [Pending.fits, hlow, hhigh]

theorem bitsWith_continuation :
    Pending.bitsWith ⟨owed, low, high, bits⟩ (continuation v) = bits * 64 + v % 0x40 := by
  have h : (continuation v).toNat - 0x80 = v % 0x40 := by
    rw [toNat_continuation]
    omega
  rw [← h]
  rfl

theorem piecesFrom_last (hlow : low ≤ continuation v) (hhigh : continuation v ≤ high)
    (rest : Bytes) : piecesFrom (some ⟨1, low, high, bits⟩) (continuation v :: rest) =
      some (Char.ofNat (bits * 64 + v % 0x40)) :: piecesFrom none rest := by
  rw [piecesFrom, if_pos (fits_continuation hlow hhigh), if_pos (Nat.le_refl 1),
    bitsWith_continuation]

theorem piecesFrom_more (hlow : low ≤ continuation v) (hhigh : continuation v ≤ high)
    (rest : Bytes) : piecesFrom (some ⟨owed + 2, low, high, bits⟩) (continuation v :: rest) =
      piecesFrom (some ⟨owed + 1, 0x80, 0xBF, bits * 64 + v % 0x40⟩) rest := by
  rw [piecesFrom, if_pos (fits_continuation hlow hhigh), if_neg (by simp), bitsWith_continuation]
  rfl

end Opens

theorem piecesFrom_ascii {b : UInt8} (h : lead b = .ascii) (rest : Bytes) :
    piecesFrom none (b :: rest) = some (Char.ofNat b.toNat) :: piecesFrom none rest := by
  simp [piecesFrom, h]

theorem piecesFrom_pending {b : UInt8} {p : Pending} (h : lead b = .pending p) (rest : Bytes) :
    piecesFrom none (b :: rest) = piecesFrom (some p) rest := by
  simp [piecesFrom, h]

/-- The bytes of a character are read as that character, whatever follows them. -/
theorem Form.piecesFrom_append {v : Nat} {bytes : Bytes} (h : Form v bytes) (rest : Bytes) :
    piecesFrom none (bytes ++ rest) = some (Char.ofNat v) :: piecesFrom none rest := by
  cases h with
  | @one b first below =>
    have hlead : lead b = .ascii := lead_of_ascii (UInt8.lt_iff_toNat_lt.mpr (by rwa [first]))
    rw [List.singleton_append, piecesFrom_ascii hlead, first]
  | two first above below =>
    obtain ⟨low, high, hlead, hlow, hhigh⟩ := opens_two first above below
    have hbits : v / 0x40 * 64 + v % 0x40 = v := by omega
    rw [List.cons_append, List.singleton_append, piecesFrom_pending hlead,
      piecesFrom_last hlow hhigh, hbits]
  | three first above below proper =>
    obtain ⟨low, high, hlead, hlow, hhigh⟩ := opens_three first above below proper
    obtain ⟨hleast, hmost⟩ := continuation_between v
    have hbits : (v / 0x1000 * 64 + v / 0x40 % 0x40) * 64 + v % 0x40 = v := by omega
    rw [List.cons_append, List.cons_append, List.singleton_append, piecesFrom_pending hlead,
      piecesFrom_more hlow hhigh, piecesFrom_last hleast hmost, hbits]
  | four first above below =>
    obtain ⟨low, high, hlead, hlow, hhigh⟩ := opens_four first above below
    obtain ⟨hleast, hmost⟩ := continuation_between (v / 0x40)
    obtain ⟨hleast', hmost'⟩ := continuation_between v
    have hbits : ((v / 0x40000 * 64 + v / 0x1000 % 0x40) * 64 + v / 0x40 % 0x40) * 64 +
        v % 0x40 = v := by omega
    rw [List.cons_append, List.cons_append, List.cons_append, List.singleton_append,
      piecesFrom_pending hlead, piecesFrom_more hlow hhigh, piecesFrom_more hleast hmost,
      piecesFrom_last hleast' hmost', hbits]

/-- An ASCII byte in front is all there is of its character. -/
theorem ofNat_of_ascii {c : Char} {b : UInt8} {more : Bytes}
    (h : String.utf8EncodeChar c = b :: more) (hb : b < 0x80) : Char.ofNat b.toNat = c := by
  have hread := (form_utf8EncodeChar c).piecesFrom_append []
  rw [h, Char.ofNat_toNat, List.append_nil, piecesFrom_ascii (lead_of_ascii hb)] at hread
  exact Option.some.inj (List.cons.inj hread).1

theorem encode_cons (c : Char) (cs : List Char) :
    encode (.ofList (c :: cs)) = String.utf8EncodeChar c ++ encode (.ofList cs) := by
  rw [encode_ofList, encode_ofList, List.flatMap_cons]

theorem encode_ofList_append (xs ys : List Char) :
    encode (.ofList (xs ++ ys)) = encode (.ofList xs) ++ encode (.ofList ys) := by
  rw [String.ofList_append, encode_append]

/-- The bytes of a text are well-formed and are read as the text. -/
theorem decode?_encode (cs : List Char) : decode? (encode (.ofList cs)) = some cs := by
  have hpieces : pieces (encode (.ofList cs)) = cs.map some := by
    induction cs with
    | nil => rfl
    | cons c cs ih =>
      rw [pieces, encode_cons, (form_utf8EncodeChar c).piecesFrom_append, Char.ofNat_toNat,
        List.map_cons, ← ih]
      rfl
  rw [decode?, hpieces, List.mapM_map]
  exact (List.mapM_pure (m := Option) (f := id)).trans (congrArg some (List.map_id cs))

/-- A text takes as many bytes as its characters do one by one. -/
theorem length_encode (cs : List Char) :
    (encode (.ofList cs)).length = Cursor.byteCount cs := by
  induction cs with
  | nil => rfl
  | cons c cs ih =>
    rw [encode_cons, List.length_append, String.length_utf8EncodeChar, ih, Cursor.byteCount]

section Boundary

/-- The end of a text is a boundary, and else it is the byte there that tells. -/
theorem isBoundary_encode (cs : List Char) (i : Nat) : isBoundary (encode (.ofList cs)) i =
    (i == (encode (.ofList cs)).length || (encode (.ofList cs))[i]?.any startsCharacter) := by
  rw [isBoundary]
  by_cases hi : i = 0
  · subst hi
    cases cs with
    | nil => rfl
    | cons c cs =>
      obtain ⟨b, more, hc, hb, _⟩ := (form_utf8EncodeChar c).starts
      rw [encode_cons, hc]
      simp [hb]
  · rw [beq_eq_false_iff_ne.mpr hi, Bool.false_or]

/-- The bytes of a text may be cut between two characters and nowhere else. -/
theorem isBoundary_encode_iff {text : List Char} {i : Nat} :
    isBoundary (encode (.ofList text)) i = true ↔
      ∃ front, front <+: text ∧ i = Cursor.byteCount front := by
  induction text generalizing i with
  | nil =>
    have hempty : encode (.ofList []) = [] := rfl
    rw [hempty]
    simp [isBoundary, Cursor.byteCount]
  | cons c cs ih =>
    obtain ⟨b, more, hc, hb, hmore⟩ := (form_utf8EncodeChar c).starts
    have hlength : c.utf8Size = more.length + 1 := by
      rw [← String.length_utf8EncodeChar, hc, List.length_cons]
    have hfronts : (∃ front, front <+: c :: cs ∧ i = Cursor.byteCount front) ↔
        i = 0 ∨ ∃ front, front <+: cs ∧ i = c.utf8Size + Cursor.byteCount front := by
      constructor
      · rintro ⟨front, hfront, rfl⟩
        rcases List.prefix_cons_iff.mp hfront with rfl | ⟨more, rfl, hmore⟩
        · exact .inl rfl
        · exact .inr ⟨more, hmore, rfl⟩
      · rintro (rfl | ⟨front, hfront, rfl⟩)
        · exact ⟨[], List.nil_prefix, rfl⟩
        · exact ⟨c :: front, List.prefix_cons_iff.mpr (.inr ⟨front, rfl, hfront⟩), rfl⟩
    rw [hfronts, isBoundary_encode, encode_cons, hc]
    -- a place within the first character, or one in the text behind it
    rcases Nat.lt_or_ge i c.utf8Size with hi | hi
    · have hbehind : ¬ ∃ front, front <+: cs ∧ i = c.utf8Size + Cursor.byteCount front := by
        rintro ⟨front, -, hfront⟩
        omega
      rw [or_iff_left hbehind]
      cases i with
      | zero => simp [hb]
      | succ j =>
        have hj : j < more.length := by omega
        have hx := hmore more[j] (List.getElem_mem hj)
        simp [List.getElem?_append_left, hj, hx]
        omega
    · obtain ⟨j, rfl⟩ := Nat.exists_eq_add_of_le hi
      have hfirst : c.utf8Size + j ≠ 0 := by omega
      have hend : (c.utf8Size + j == (b :: more ++ encode (.ofList cs)).length) =
          (j == (encode (.ofList cs)).length) := by
        rw [List.length_append, List.length_cons, ← hlength]
        simp
      have hbyte : (b :: more ++ encode (.ofList cs))[c.utf8Size + j]? =
          (encode (.ofList cs))[j]? := by
        rw [hlength, List.getElem?_append_right (by simp)]
        simp
      simp only [hfirst, false_or, Nat.add_left_cancel_iff]
      rw [← ih, isBoundary_encode, hend, hbyte]

/-- A slice between two boundaries is the text there. -/
theorem slice?_encode (front mid rest : List Char) :
    slice? (encode (.ofList (front ++ mid ++ rest))) (Cursor.byteCount front)
      (Cursor.byteCount (front ++ mid)) = some mid := by
  have hle : Cursor.byteCount front ≤ Cursor.byteCount (front ++ mid) := by
    rw [Cursor.byteCount_append]
    exact Nat.le_add_right _ _
  have hstart : isBoundary (encode (.ofList (front ++ mid ++ rest))) (Cursor.byteCount front) :=
    isBoundary_encode_iff.mpr ⟨front, by simp, rfl⟩
  have hstop : isBoundary (encode (.ofList (front ++ mid ++ rest)))
      (Cursor.byteCount (front ++ mid)) := isBoundary_encode_iff.mpr ⟨front ++ mid, by simp, rfl⟩
  have hcut : ((encode (.ofList (front ++ mid ++ rest))).take
      (Cursor.byteCount (front ++ mid))).drop (Cursor.byteCount front) = encode (.ofList mid) := by
    rw [encode_ofList_append, ← length_encode (front ++ mid), List.take_left,
      encode_ofList_append, ← length_encode, List.drop_left]
  rw [slice?, if_pos ⟨hle, hstart, hstop⟩, hcut, decode?_encode]

/-- A boundary no farther than the end of a text's start is the end of a shorter one. -/
theorem exists_of_isBoundary_encode {text front : List Char} {i : Nat} (hfront : front <+: text)
    (h : isBoundary (encode (.ofList text)) i) (hle : i ≤ Cursor.byteCount front) :
    ∃ shorter, shorter <+: front ∧ i = Cursor.byteCount shorter := by
  obtain ⟨shorter, hshorter, rfl⟩ := isBoundary_encode_iff.mp h
  refine ⟨shorter, ?_, rfl⟩
  rcases List.prefix_or_prefix_of_prefix hshorter hfront with hs | hs
  · exact hs
  · obtain rfl := Cursor.eq_of_byteCount_le hs hle
    exact List.prefix_refl _

theorem boundary_of_isSome_slice? {bytes : Bytes} {i j : Nat} (h : (slice? bytes i j).isSome) :
    i ≤ j ∧ isBoundary bytes i := by
  rw [slice?] at h
  split at h
  · rename_i hcut
    exact ⟨hcut.1, hcut.2.1⟩
  · cases h

end Boundary

end Utf8

end LexicalAnalyzer
