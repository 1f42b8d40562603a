/-!
UTF-8 read one byte at a time. A byte string is cut into pieces: each piece is a character or an
ill-formed stretch, which is the longest start of some character that the bytes there allow, and
one byte where no character starts at all. A lenient reader puts U+FFFD in the place of every
ill-formed stretch, a strict one refuses the text.
-/
namespace LexicalAnalyzer

abbrev Bytes := List UInt8

namespace Utf8

/-- A character of which some bytes are read: how many continuation bytes it still needs, the least
and the greatest value of the next one, and the bits so far. -/
structure Pending where
  owed : Nat
  low : UInt8
  high : UInt8
  bits : Nat
  deriving DecidableEq, Repr

/-- What a byte can start. -/
inductive Lead where
  | ascii | pending (p : Pending) | stray
  deriving DecidableEq, Repr

/-- The ranges keep out overlong forms, surrogates and values beyond U+10FFFF. -/
def lead (b : UInt8) : Lead :=
  if b < 0x80 then .ascii
  else if b < 0xC2 then .stray
  else if b < 0xE0 then .pending ⟨1, 0x80, 0xBF, b.toNat - 0xC0⟩
  else if b = 0xE0 then .pending ⟨2, 0xA0, 0xBF, 0⟩
  else if b = 0xED then .pending ⟨2, 0x80, 0x9F, 0xD⟩
  else if b < 0xF0 then .pending ⟨2, 0x80, 0xBF, b.toNat - 0xE0⟩
  else if b = 0xF0 then .pending ⟨3, 0x90, 0xBF, 0⟩
  else if b < 0xF4 then .pending ⟨3, 0x80, 0xBF, b.toNat - 0xF0⟩
  else if b = 0xF4 then .pending ⟨3, 0x80, 0x8F, 4⟩
  else .stray

def Pending.fits (p : Pending) (b : UInt8) : Bool := p.low ≤ b && b ≤ p.high

/-- The bits after one more continuation byte. -/
def Pending.bitsWith (p : Pending) (b : UInt8) : Nat := p.bits * 64 + (b.toNat - 0x80)

/-- The pieces of a byte string behind the pending character, `none` for an ill-formed one. -/
def piecesFrom : Option Pending → Bytes → List (Option Char)
  | none, [] => []
  | some _, [] => [none]
  | none, b :: rest =>
    match lead b with
    | .ascii => some (Char.ofNat b.toNat) :: piecesFrom none rest
    | .pending p => piecesFrom (some p) rest
    | .stray => none :: piecesFrom none rest
  | some p, b :: rest =>
    if p.fits b then
      if p.owed ≤ 1 then some (Char.ofNat (p.bitsWith b)) :: piecesFrom none rest
      else piecesFrom (some ⟨p.owed - 1, 0x80, 0xBF, p.bitsWith b⟩) rest
    else none ::
      match lead b with
      | .ascii => some (Char.ofNat b.toNat) :: piecesFrom none rest
      | .pending q => piecesFrom (some q) rest
      | .stray => none :: piecesFrom none rest

def pieces (bytes : Bytes) : List (Option Char) := piecesFrom none bytes

/-- Reads any bytes; an ill-formed piece becomes U+FFFD. -/
def decodeLossy (bytes : Bytes) : List Char :=
  (pieces bytes).map (·.getD (Char.ofNat 0xFFFD))

/-- Reads well-formed bytes only. -/
def decode? (bytes : Bytes) : Option (List Char) := (pieces bytes).mapM id

def encode (text : String) : Bytes := text.toUTF8.data.toList

/-- The bytes of characters, each as the character with its number. Bytes of characters beyond ASCII
are none of ASCII. -/
def octets (cs : List Char) : List Char :=
  (encode (.ofList cs)).map fun b => Char.ofNat b.toNat

theorem encode_ofList (cs : List Char) :
    encode (.ofList cs) = cs.flatMap String.utf8EncodeChar := by
  change (String.ofList cs).toByteArray.data.toList = _
  rw [String.toByteArray_ofList, List.utf8Encode, List.toList_data_toByteArray]

/-- The octets of one character. -/
def octetsOf (c : Char) : List Char :=
  (String.utf8EncodeChar c).map fun b => Char.ofNat b.toNat

theorem octets_eq_flatMap (cs : List Char) : octets cs = cs.flatMap octetsOf := by
  rw [octets, encode_ofList, List.map_flatMap]
  rfl

theorem octetsOf_ascii {c : Char} (h : c.toNat < 0x80) : octetsOf c = [c] := by
  have hv : c.val.toNat ≤ 0x7f := Nat.le_of_lt_succ h
  have hb : (UInt8.ofNat c.val.toNat).toNat = c.toNat := Nat.mod_eq_of_lt (by omega)
  simp only [octetsOf, String.utf8EncodeChar, hv, if_true, List.map_cons, List.map_nil, hb,
    Char.ofNat_toNat]

theorem toNat_ofNat {n : Nat} (h : n.isValidChar) : (Char.ofNat n).toNat = n := by
  rw [Char.ofNat, dif_pos h]
  rfl

/-- The last octet of a character beyond ASCII is beyond ASCII, as all of them are. -/
theorem exists_octetsOf_ge {c : Char} (h : 0x80 ≤ c.toNat) : ∃ o ∈ octetsOf c, 0x80 ≤ o.toNat := by
  have hv : ¬ c.val.toNat ≤ 0x7f := Nat.not_le_of_gt h
  have hb : (UInt8.ofNat (c.val.toNat % 0x40 + 0x80)).toNat = c.val.toNat % 0x40 + 0x80 :=
    Nat.mod_eq_of_lt (by omega)
  refine ⟨Char.ofNat (c.val.toNat % 0x40 + 0x80), List.mem_map.mpr ⟨_, ?_, by rw [hb]⟩, ?_⟩
  · simp only [String.utf8EncodeChar, hv, if_false]
    split
    · simp
    · split <;> simp
  · have ho : (Char.ofNat (c.val.toNat % 0x40 + 0x80)).toNat = c.val.toNat % 0x40 + 0x80 :=
      toNat_ofNat (.inl (by omega))
    omega

theorem octets_of_ascii {cs : List Char} (h : ∀ c ∈ cs, c.toNat < 0x80) : octets cs = cs := by
  induction cs with
  | nil => rfl
  | cons c cs ih =>
    rw [octets_eq_flatMap, List.flatMap_cons, ← octets_eq_flatMap, octetsOf_ascii (h c (by simp)),
      ih fun x hx => h x (by simp [hx])]
    rfl

theorem ascii_of_octets {cs : List Char} (h : ∀ o ∈ octets cs, o.toNat < 0x80) :
    ∀ c ∈ cs, c.toNat < 0x80 := by
  intro c hc
  refine Nat.lt_of_not_le fun hge => ?_
  obtain ⟨o, ho, hoge⟩ := exists_octetsOf_ge hge
  have hmem : o ∈ octets cs := by
    rw [octets_eq_flatMap]
    exact List.mem_flatMap.mpr ⟨c, hc, ho⟩
  exact Nat.not_lt.mpr hoge (h o hmem)

end Utf8

end LexicalAnalyzer
