import LexicalAnalyzer.Text.Utf8
import Mathlib.Logic.Basic
import Mathlib.Order.Basic

/-!
Which bytes the lenient reader takes for what. A pending character takes continuation bytes only,
and it can come to no value that is ASCII or none of a character. So an ASCII byte is always read as
itself, whatever stands in front of it, and bytes beyond ASCII are read as characters beyond ASCII,
of which there is at least one.
-/
namespace LexicalAnalyzer

namespace Utf8

namespace Pending

/-- How many values a number of continuation bytes tells apart. -/
def scale : Nat → Nat
  | 0 => 1
  | n + 1 => 64 * scale n

/-- The least value that a pending character may come to. -/
def least (p : Pending) : Nat := (p.bits * 64 + (p.low.toNat - 0x80)) * scale (p.owed - 1)

/-- The first value that is too great for it. -/
def limit (p : Pending) : Nat := (p.bits * 64 + (p.high.toNat - 0x80) + 1) * scale (p.owed - 1)

/-- It takes no ASCII byte and comes to a character beyond ASCII, which no surrogate is. -/
structure Sound (p : Pending) : Prop where
  low : 0x80 ≤ p.low
  least : 0x80 ≤ p.least
  limit : p.limit ≤ 0xD800 ∨ 0xE000 ≤ p.least ∧ p.limit ≤ 0x110000

variable {p : Pending} {b : UInt8}

theorem fits_iff : p.fits b = true ↔ p.low.toNat ≤ b.toNat ∧ b.toNat ≤ p.high.toNat := by
  simp [fits, UInt8.le_iff_toNat_le]

/-- An ASCII byte ends what is pending. -/
theorem Sound.fits_eq_false (h : p.Sound) (hb : b < 0x80) : p.fits b = false := by
  have hlow := h.low
  rw [UInt8.le_iff_toNat_le] at hlow
  rw [UInt8.lt_iff_toNat_lt] at hb
  rw [← Bool.not_eq_true, fits_iff]
  omega

/-- With one byte more the range of values is a part of what it was. -/
theorem Sound.next (h : p.Sound) (hb : p.fits b = true) (ho : ¬ p.owed ≤ 1) :
    Sound ⟨p.owed - 1, 0x80, 0xBF, p.bitsWith b⟩ := by
  obtain ⟨n, hn⟩ : ∃ n, p.owed = n + 2 := ⟨p.owed - 2, by omega⟩
  obtain ⟨hlow, hhigh⟩ := fits_iff.mp hb
  have hbits : p.bitsWith b = p.bits * 64 + (b.toNat - 0x80) := rfl
  have hge : p.least ≤ Pending.least ⟨p.owed - 1, 0x80, 0xBF, p.bitsWith b⟩ := by
    have hstep : p.bits * 64 + (p.low.toNat - 0x80) ≤ p.bitsWith b := by omega
    simpa [Pending.least, hn, scale, Nat.mul_assoc] using Nat.mul_le_mul_right (64 * scale n) hstep
  have hle : Pending.limit ⟨p.owed - 1, 0x80, 0xBF, p.bitsWith b⟩ ≤ p.limit := by
    have hstep : p.bitsWith b + 1 ≤ p.bits * 64 + (p.high.toNat - 0x80) + 1 := by omega
    have hblock : p.bitsWith b * 64 + 63 + 1 = (p.bitsWith b + 1) * 64 := by omega
    simpa [Pending.limit, hn, scale, hblock, Nat.mul_assoc] using
      Nat.mul_le_mul_right (64 * scale n) hstep
  have hfirst := h.least
  have hrange := h.limit
  exact ⟨UInt8.le_refl _, by omega, by omega⟩

/-- The last byte makes a character beyond ASCII. -/
theorem Sound.char (h : p.Sound) (hb : p.fits b = true) (ho : p.owed ≤ 1) :
    0x80 ≤ (Char.ofNat (p.bitsWith b)).toNat := by
  obtain ⟨hlow, hhigh⟩ := fits_iff.mp hb
  have hbits : p.bitsWith b = p.bits * 64 + (b.toNat - 0x80) := rfl
  have hscale : scale (p.owed - 1) = 1 := by
    rw [Nat.sub_eq_zero_of_le ho]
    rfl
  have hfirst := h.least
  have hrange := h.limit
  simp only [Pending.least, Pending.limit, hscale, Nat.mul_one] at hfirst hrange
  have hvalid : (p.bitsWith b).isValidChar := by
    rcases hrange with hr | hr
    · exact .inl (by omega)
    · exact .inr ⟨by omega, by omega⟩
  rw [toNat_ofNat hvalid]
  omega

end Pending

theorem lead_of_ascii {b : UInt8} (h : b < 0x80) : lead b = .ascii := if_pos h

theorem lt_of_lead_ascii {b : UInt8} (h : lead b = .ascii) : b < 0x80 := by
  by_contra hb
  rw [lead, if_neg hb] at h
  repeat' split at h
  all_goals cases h

theorem sound_of_lead {b : UInt8} {p : Pending} (h : lead b = .pending p) : p.Sound := by
  unfold lead at h
  repeat' split at h
  all_goals cases h
  -- what is left are the rows of the table that start a character
  all_goals
    simp only [UInt8.lt_iff_toNat_lt, ← UInt8.toNat_inj, UInt8.reduceToNat] at *
    constructor <;> simp [Pending.least, Pending.limit, Pending.scale] <;> omega

/-- Whatever is pending is a character that the bytes may still make. -/
def Expects (pending : Option Pending) : Prop := ∀ p ∈ pending, p.Sound

theorem expects_none : Expects none := by simp [Expects]

theorem expects_some {p : Pending} (h : p.Sound) : Expects (some p) := by simpa [Expects] using h

/-- A byte that does not go on with what is pending is read as if nothing were. -/
theorem piecesFrom_of_not_fits {p : Pending} {b : UInt8} (h : p.fits b = false) (rest : Bytes) :
    piecesFrom (some p) (b :: rest) = none :: piecesFrom none (b :: rest) := by
  simp only [piecesFrom, h, Bool.false_eq_true, if_false]

/-- An ASCII byte is read as itself, and ends what is in front of it. -/
theorem piecesFrom_append_ascii {pending : Option Pending} (h : Expects pending) {b : UInt8}
    (hb : b < 0x80) (front behind : Bytes) : piecesFrom pending (front ++ b :: behind) =
      piecesFrom pending front ++ some (Char.ofNat b.toNat) :: piecesFrom none behind := by
  induction front generalizing pending with
  | nil =>
    have hfirst : piecesFrom none (b :: behind) =
        some (Char.ofNat b.toNat) :: piecesFrom none behind := by
      simp [piecesFrom, lead_of_ascii hb]
    cases pending with
    | none => exact hfirst
    | some p =>
      have hp : p.Sound := h p rfl
      rw [List.nil_append, piecesFrom_of_not_fits (hp.fits_eq_false hb), hfirst]
      rfl
  | cons x front ih =>
    have hfresh : piecesFrom none (x :: front ++ b :: behind) =
        piecesFrom none (x :: front) ++ some (Char.ofNat b.toNat) :: piecesFrom none behind := by
      rw [List.cons_append, piecesFrom, piecesFrom]
      cases hx : lead x with
      | ascii => simp [ih expects_none]
      | pending p => simp [ih (expects_some (sound_of_lead hx))]
      | stray => simp [ih expects_none]
    cases pending with
    | none => exact hfresh
    | some p =>
      have hp : p.Sound := h p rfl
      cases hfits : p.fits x with
      | false =>
        rw [piecesFrom_of_not_fits hfits, List.cons_append, piecesFrom_of_not_fits hfits,
          ← List.cons_append, hfresh]
        rfl
      | true =>
        rw [List.cons_append, piecesFrom, piecesFrom, if_pos hfits, if_pos hfits]
        by_cases ho : p.owed ≤ 1
        · simp [ho, ih expects_none]
        · simp [ho, ih (expects_some (hp.next hfits ho))]

theorem piecesFrom_some_ne_nil (p : Pending) (bytes : Bytes) : piecesFrom (some p) bytes ≠ [] := by
  induction bytes generalizing p with
  | nil => simp [piecesFrom]
  | cons b bytes ih =>
    cases hfits : p.fits b with
    | false =>
      rw [piecesFrom_of_not_fits hfits]
      simp
    | true =>
      rw [piecesFrom, if_pos hfits]
      split
      · simp
      · exact ih _

/-- The character that a piece is read as. -/
def shown (piece : Option Char) : Char := piece.getD (Char.ofNat 0xFFFD)

theorem shown_some (c : Char) : shown (some c) = c := rfl

/-- Bytes beyond ASCII are read as characters beyond ASCII. -/
theorem le_shown_of_mem_piecesFrom {pending : Option Pending} (h : Expects pending) {bytes : Bytes}
    (hb : ∀ b ∈ bytes, 0x80 ≤ b) :
    ∀ piece ∈ piecesFrom pending bytes, 0x80 ≤ (shown piece).toNat := by
  have hnone : 0x80 ≤ (shown none).toNat := by simp [shown]
  induction bytes generalizing pending with
  | nil => cases pending <;> simp [piecesFrom, hnone]
  | cons b bytes ih =>
    have hrest : ∀ x ∈ bytes, 0x80 ≤ x := fun x hx => hb x (by simp [hx])
    have hfresh : ∀ piece ∈ piecesFrom none (b :: bytes), 0x80 ≤ (shown piece).toNat := by
      rw [piecesFrom]
      cases hlead : lead b with
      | ascii => exact absurd (lt_of_lead_ascii hlead) (UInt8.not_lt.mpr (hb b (by simp)))
      | pending p => exact ih (expects_some (sound_of_lead hlead)) hrest
      | stray => exact List.forall_mem_cons.mpr ⟨hnone, ih expects_none hrest⟩
    cases pending with
    | none => exact hfresh
    | some p =>
      have hp : p.Sound := h p rfl
      cases hfits : p.fits b with
      | false =>
        rw [piecesFrom_of_not_fits hfits]
        exact List.forall_mem_cons.mpr ⟨hnone, hfresh⟩
      | true =>
        rw [piecesFrom, if_pos hfits]
        by_cases ho : p.owed ≤ 1
        · have hchar := hp.char hfits ho
          rw [← shown_some (Char.ofNat (p.bitsWith b))] at hchar
          rw [if_pos ho]
          exact List.forall_mem_cons.mpr ⟨hchar, ih expects_none hrest⟩
        · rw [if_neg ho]
          exact ih (expects_some (hp.next hfits ho)) hrest

section Lossy

variable {front behind run : Bytes}

theorem decodeLossy_eq (bytes : Bytes) :
    decodeLossy bytes = (piecesFrom none bytes).map shown := rfl

/-- An ASCII byte is never lost and never gets into the way of what is around it. -/
theorem decodeLossy_append_ascii {b : UInt8} (hb : b < 0x80) (front behind : Bytes) :
    decodeLossy (front ++ b :: behind) =
      decodeLossy front ++ Char.ofNat b.toNat :: decodeLossy behind := by
  rw [decodeLossy_eq, piecesFrom_append_ascii expects_none hb, List.map_append]
  rfl

/-- Bytes may be read in two parts that meet at an ASCII byte or at an end. -/
theorem decodeLossy_append (h : (∀ b ∈ front.getLast?, b < 0x80) ∨ ∀ b ∈ behind.head?, b < 0x80) :
    decodeLossy (front ++ behind) = decodeLossy front ++ decodeLossy behind := by
  rcases h with h | h
  · rcases List.eq_nil_or_concat front with rfl | ⟨front, b, rfl⟩
    · rfl
    · have hb : b < 0x80 := h b (by simp)
      have hfirst := decodeLossy_append_ascii hb front []
      rw [List.concat_eq_append, hfirst, List.append_assoc, List.singleton_append,
        decodeLossy_append_ascii hb, List.append_assoc]
      rfl
  · cases behind with
    | nil => simp [decodeLossy, pieces, piecesFrom]
    | cons b behind =>
      have hb : b < 0x80 := h b rfl
      have hlast := decodeLossy_append_ascii hb [] behind
      rw [decodeLossy_append_ascii hb, ← List.nil_append (b :: behind), hlast]
      rfl

theorem decodeLossy_of_ascii (h : ∀ b ∈ front, b < 0x80) :
    decodeLossy front = front.map fun b => Char.ofNat b.toNat := by
  induction front with
  | nil => rfl
  | cons b front ih =>
    have hfirst := decodeLossy_append_ascii (h b (by simp)) [] front
    rw [List.nil_append] at hfirst
    rw [hfirst, ih fun x hx => h x (by simp [hx])]
    rfl

theorem decodeLossy_ne_nil (h : run ≠ []) : decodeLossy run ≠ [] := by
  obtain ⟨b, rest, rfl⟩ := List.exists_cons_of_ne_nil h
  rw [decodeLossy_eq, piecesFrom]
  cases lead b with
  | ascii => simp
  | pending p => simpa using piecesFrom_some_ne_nil p rest
  | stray => simp

theorem le_of_mem_decodeLossy (h : ∀ b ∈ run, 0x80 ≤ b) :
    ∀ c ∈ decodeLossy run, 0x80 ≤ c.toNat := by
  intro c hc
  obtain ⟨piece, hpiece, rfl⟩ := List.mem_map.mp hc
  exact le_shown_of_mem_piecesFrom expects_none h piece hpiece

end Lossy

end Utf8

end LexicalAnalyzer
