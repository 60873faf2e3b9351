import Mathlib
import QuantityCalculus.Number.Binary

/-!
# Doubles and their parts

Reading a double from its bits and taking it apart into sign, mantissa and exponent are the same.
Parts that make up a normal double are packed and taken apart again without loss, so the bits of a
normal double denote the number that they were written for.
-/
namespace QuantityCalculus

open Float.Model
open Float.Model.UnpackedFloat (unpackMantissa unpackExponent unpackSign Sign)

namespace Binary

def isNegative : Sign → Bool
  | .negative => true
  | .positive => false

/-- What the parts of a double denote. -/
def ofUnpacked : UnpackedFloat → Binary
  | .infinity s => infinity (isNegative s)
  | .notANumber => notANumber
  | .zero s => finite (isNegative s) 0 (-1074)
  | .finite s m e _ => finite (isNegative s) m e

section Bits

variable (b : BitVec Format.binary64.numBits)

theorem toNat_unpackMantissa : (unpackMantissa b).toNat = b.toNat % 2 ^ 52 := by
  simp [unpackMantissa, BitVec.extractLsb]

theorem toNat_unpackExponent : (unpackExponent b).toNat = b.toNat / 2 ^ 52 % 2 ^ 11 := by
  simp [unpackExponent, BitVec.extractLsb, Nat.shiftRight_eq_div_pow]

theorem isNegative_unpackSign :
    isNegative (Sign.ofBitVec (unpackSign b)) = (b.toNat / 2 ^ 63 % 2 == 1) := by
  have hsign : (unpackSign b).toNat = b.toNat / 2 ^ 63 % 2 := by
    simp [unpackSign, BitVec.extractLsb, Nat.shiftRight_eq_div_pow]
  have hall : ∀ c : BitVec 1, isNegative (Sign.ofBitVec c) = (c.toNat == 1) := by decide
  rw [← hsign]
  exact hall _

theorem toNat_implicit (m : BitVec 52) : (1#1 ++ m).toNat = m.toNat + 2 ^ 52 := by
  rw [BitVec.toNat_append, ← Nat.shiftLeft_add_eq_or_of_lt m.isLt]
  simp [Nat.shiftLeft_eq, Nat.add_comm]

theorem ofBits_toNat : ofBits b.toNat = ofUnpacked (UnpackedFloat.unpack Format.binary64 b) := by
  have hones : unpackExponent b = -1#_ ↔ (unpackExponent b).toNat = 2047 := BitVec.toNat_inj.symm
  have hzero : unpackExponent b = 0#_ ↔ (unpackExponent b).toNat = 0 := BitVec.toNat_inj.symm
  have hfraction : unpackMantissa b = 0#_ ↔ (unpackMantissa b).toNat = 0 := BitVec.toNat_inj.symm
  unfold ofBits UnpackedFloat.unpack
  rw [← isNegative_unpackSign, ← toNat_unpackExponent, ← toNat_unpackMantissa]
  dsimp only
  simp only [hones, hzero, hfraction]
  split
  · split
    · rfl
    · rfl
  · split
    · split
      · rename_i h
        simp only [ofUnpacked, h]
      · rename_i hfield _
        simp only [ofUnpacked, hfield]
        rfl
    · simp only [ofUnpacked, toNat_implicit]
      rfl

theorem ofFloat_eq (x : Float) : ofFloat x = ofUnpacked x.toModel.unpack :=
  ofBits_toNat x.toBits.toBitVec

end Bits

section Normal

variable {m : Nat} {e : Int}

/-- The mantissa and exponent of a normal double. -/
structure IsNormal (m : Nat) (e : Int) : Prop where
  low : 2 ^ 52 ≤ m
  high : m < 2 ^ 53
  least : -1074 ≤ e
  greatest : e ≤ 971

theorem IsNormal.pos (h : IsNormal m e) : 0 < m := Nat.lt_of_lt_of_le (by decide) h.low

/-- A normal double is packed and taken apart again without loss. -/
theorem IsNormal.unpack_pack (h : IsNormal m e) (s : Sign) :
    UnpackedFloat.unpack Format.binary64
      (UnpackedFloat.pack Format.binary64 (.finite s m e h.pos)) = .finite s m e h.pos := by
  have hlog : m.log2 = 52 := (Nat.log2_eq_iff (Nat.ne_of_gt h.pos)).mpr ⟨h.low, h.high⟩
  have hpos := h.pos
  obtain ⟨hlow, hhigh, hleast, hgreatest⟩ := h
  have hfield : (BitVec.ofNat 11 (e + 1075).toNat).toNat = (e + 1075).toNat := by
    rw [BitVec.toNat_ofNat, Nat.mod_eq_of_lt (by omega)]
  -- an exponent that is neither all ones nor zero is taken for that of a normal double
  have hones : BitVec.ofNat 11 (e + 1075).toNat ≠ -1#11 := fun heq => by
    have hnat := congrArg BitVec.toNat heq
    rw [hfield] at hnat
    change _ = 2047 at hnat
    omega
  have hzero : BitVec.ofNat 11 (e + 1075).toNat ≠ 0#11 := fun heq => by
    have hnat := congrArg BitVec.toNat heq
    rw [hfield] at hnat
    change _ = 0 at hnat
    omega
  have himplicit : (1#1 ++ BitVec.ofNat 52 m).toNat = m := by
    rw [toNat_implicit, BitVec.toNat_ofNat]
    omega
  have hbiased : (e + (Format.binary64.exponentBias : Nat) +
      (Format.binary64.mantissaBitsWithoutImplicit : Nat)).toNat = (e + 1075).toNat := by
    change (e + 1023 + 52).toNat = _
    congr 1
    omega
  unfold UnpackedFloat.pack
  dsimp only
  rw [hbiased, if_neg (by omega), if_pos (by rw [hlog]; rfl)]
  unfold UnpackedFloat.unpack
  simp only [UnpackedFloat.unpackMantissa_packComponents,
    UnpackedFloat.unpackExponent_packComponents, UnpackedFloat.unpackSign_packComponents,
    Sign.ofBitVec_toBitVec]
  rw [if_neg hones, if_neg hzero]
  simp only [himplicit, hfield]
  congr 1
  change ((e + 1075).toNat : Int) - (1023 + 52) = e
  omega

def normalBits (negative : Bool) (m : Nat) (e : Int) : Nat :=
  (if negative then 2 ^ 63 else 0) + ((e + 1075).toNat * 2 ^ 52 + (m - 2 ^ 52))

theorem IsNormal.normalBits_lt (h : IsNormal m e) (negative : Bool) :
    normalBits negative m e < 2 ^ 64 := by
  obtain ⟨hlow, hhigh, hleast, hgreatest⟩ := h
  unfold normalBits
  split
  · omega
  · omega

theorem IsNormal.ofBits_normalBits (h : IsNormal m e) (negative : Bool) :
    ofBits (normalBits negative m e) = finite negative m e := by
  obtain ⟨hlow, hhigh, hleast, hgreatest⟩ := h
  have hfield : normalBits negative m e / 2 ^ 52 % 2 ^ 11 = (e + 1075).toNat := by
    unfold normalBits
    split <;> omega
  have hfraction : normalBits negative m e % 2 ^ 52 + 2 ^ 52 = m := by
    unfold normalBits
    split <;> omega
  have hsign : (normalBits negative m e / 2 ^ 63 % 2 == 1) = negative := by
    unfold normalBits
    cases negative with
    | true => exact beq_iff_eq.mpr (by simp only [if_true]; omega)
    | false => exact beq_eq_false_iff_ne.mpr (by simp only [Bool.false_eq_true, if_false]; omega)
  unfold ofBits
  rw [hsign, hfield]
  dsimp only
  rw [if_neg (by omega), if_neg (by omega), hfraction]
  congr 1
  omega

theorem unpack_ofBits (bits : UInt64) :
    (Float.ofBits bits).toModel.unpack =
      UnpackedFloat.unpack Format.binary64 (UnpackedFloat.pack Format.binary64
        (UnpackedFloat.unpack Format.binary64 bits.toBitVec)) :=
  rfl

theorem IsNormal.eq_of_ofUnpacked (h : IsNormal m e) {negative : Bool} {x : UnpackedFloat}
    (hx : ofUnpacked x = finite negative m e) :
    ∃ s, x = .finite s m e h.pos ∧ isNegative s = negative := by
  cases x with
  | notANumber => cases hx
  | infinity s => cases hx
  | zero s =>
    cases hx
    exact absurd h.pos (Nat.lt_irrefl 0)
  | finite s m' e' hm' =>
    cases hx
    exact ⟨s, rfl, rfl⟩

theorem IsNormal.ofFloat_ofBits (h : IsNormal m e) {negative : Bool} {bits : Nat}
    (hbits : ofBits bits = finite negative m e) (hlt : bits < 2 ^ 64) :
    ofFloat (Float.ofBits (UInt64.ofNat bits)) = finite negative m e := by
  have hnat : (UInt64.ofNat bits).toBitVec.toNat = bits := by
    rw [UInt64.toNat_toBitVec, UInt64.toNat_ofNat_of_lt' hlt]
  rw [← hnat, ofBits_toNat] at hbits
  obtain ⟨s, hs, rfl⟩ := h.eq_of_ofUnpacked hbits
  rw [ofFloat_eq, unpack_ofBits, hs, h.unpack_pack]
  rfl

end Normal

end Binary

end QuantityCalculus
