import QuantityCalculus.Proofs.Number.Unpacked

/-!
# Doubles that are whole numbers

A whole number is a double exactly if it is below `2 ^ 1024` and has no bit set past the first 53.
Other than zero, such a double is normal. A number that is a double is also the one nearest to
itself, and the product of whole doubles is computed without loss if it is a double at all.
-/
namespace QuantityCalculus

open Float.Model
open Float.Model.UnpackedFloat (ExtendedMantissa Sign roundWithAccuracy shiftToTargetExponent)

namespace Binary

variable {m n p q : Nat} {e f t k : Int}

/-- The product `m · 2 ^ e` is the natural `n`. -/
def ScalesTo (m : Nat) (e : Int) (n : Nat) : Prop := m * 2 ^ e.toNat = n * 2 ^ (-e).toNat

theorem scalesTo_iff {i j : Nat} (h : (i : Int) - j = e) :
    ScalesTo m e n ↔ m * 2 ^ i = n * 2 ^ j := by
  obtain ⟨c, rfl, rfl⟩ : ∃ c, i = e.toNat + c ∧ j = (-e).toNat + c :=
    ⟨i - e.toNat, by omega, by omega⟩
  rw [pow_add, pow_add, ← mul_assoc, ← mul_assoc, Nat.mul_left_inj (Nat.two_pow_pos c).ne']
  rfl

theorem ScalesTo.mul (hm : ScalesTo m e n) (hp : ScalesTo p f q) :
    ScalesTo (m * p) (e + f) (n * q) := by
  have hsub : ((e.toNat + f.toNat : Nat) : Int) - ((-e).toNat + (-f).toNat : Nat) = e + f := by
    omega
  rw [scalesTo_iff hsub, pow_add, pow_add, mul_mul_mul_comm, mul_mul_mul_comm n]
  exact congrArg₂ (· * ·) hm hp

/-- A natural has one multiple for each exponent, so multiples are compared by their exponents. -/
theorem ScalesTo.iff_eq_mul (hp : ScalesTo p f n) (h : e ≤ f) :
    ScalesTo m e n ↔ m = p * 2 ^ (f - e).toNat := by
  have hm : ScalesTo m e n ↔ m * 2 ^ (e.toNat + (-f).toNat) = n * 2 ^ ((-e).toNat + (-f).toNat) :=
    scalesTo_iff (by omega)
  have hn : p * 2 ^ (f.toNat + (-e).toNat) = n * 2 ^ ((-f).toNat + (-e).toNat) :=
    (scalesTo_iff (by omega)).mp hp
  have hexponent : f.toNat + (-e).toNat = (f - e).toNat + (e.toNat + (-f).toNat) := by omega
  rw [hexponent, pow_add, ← mul_assoc] at hn
  rw [hm, add_comm (-e).toNat, ← hn, Nat.mul_left_inj (Nat.two_pow_pos _).ne']

theorem log2_mul_two_pow (hm : m ≠ 0) (i : Nat) : (m * 2 ^ i).log2 = m.log2 + i := by
  refine (Nat.log2_eq_iff (Nat.mul_ne_zero hm (Nat.two_pow_pos i).ne')).mpr ⟨?_, ?_⟩
  · rw [pow_add]
    exact Nat.mul_le_mul_right _ (Nat.log2_self_le hm)
  · rw [add_right_comm, pow_add]
    exact Nat.mul_lt_mul_of_pos_right Nat.lt_log2_self (Nat.two_pow_pos i)

theorem log2_le_log2_mul (hm : m ≠ 0) (hn : n ≠ 0) : m.log2 ≤ (m * n).log2 :=
  (Nat.le_log2 (Nat.mul_ne_zero hm hn)).mpr
    ((Nat.log2_self_le hm).trans (Nat.le_mul_of_pos_right m (Nat.pos_of_ne_zero hn)))

theorem ScalesTo.ne_zero (h : ScalesTo m e n) (hm : m ≠ 0) : n ≠ 0 := by
  rintro rfl
  unfold ScalesTo at h
  rw [Nat.zero_mul] at h
  exact Nat.mul_ne_zero hm (Nat.two_pow_pos _).ne' h

theorem ScalesTo.left_ne_zero (h : ScalesTo m e n) (hn : n ≠ 0) : m ≠ 0 := by
  rintro rfl
  unfold ScalesTo at h
  rw [Nat.zero_mul] at h
  exact Nat.mul_ne_zero hn (Nat.two_pow_pos _).ne' h.symm

theorem ScalesTo.log2 (h : ScalesTo m e n) (hm : m ≠ 0) : (m.log2 : Int) + e = n.log2 := by
  have hlog := congrArg Nat.log2 h
  rw [log2_mul_two_pow hm, log2_mul_two_pow (h.ne_zero hm)] at hlog
  omega

theorem IsNormal.log2 (h : IsNormal m e) : m.log2 = 52 :=
  (Nat.log2_eq_iff h.pos.ne').mpr ⟨h.low, h.high⟩

theorem IsNormal.exponent (h : IsNormal m e) (hs : ScalesTo m e n) : e = n.log2 - 52 := by
  have hlog := hs.log2 h.pos.ne'
  rw [h.log2] at hlog
  omega

/-- There are at most 1024 binary digits, and only the first 53 may be other than zero. -/
def HasDouble (k : Int) : Prop :=
  k.natAbs.log2 < 1024 ∧ 2 ^ (k.natAbs.log2 - 52) ∣ k.natAbs

instance : DecidablePred HasDouble := fun k =>
  inferInstanceAs (Decidable (k.natAbs.log2 < 1024 ∧ 2 ^ (k.natAbs.log2 - 52) ∣ k.natAbs))

theorem hasDouble_zero : HasDouble 0 := by decide

theorem IsNormal.hasDouble (h : IsNormal m e) (hs : ScalesTo m e k.natAbs) : HasDouble k := by
  have hexponent := h.exponent hs
  have hgreatest := h.greatest
  refine ⟨by omega, ?_⟩
  rcases le_total e 0 with he | he
  · rw [show k.natAbs.log2 - 52 = 0 by omega]
    exact one_dvd _
  · rw [show k.natAbs.log2 - 52 = e.toNat by omega]
    refine ⟨m, ?_⟩
    have hn := hs
    unfold ScalesTo at hn
    rw [show (-e).toNat = 0 by omega, pow_zero, mul_one] at hn
    rw [← hn, mul_comm]

theorem HasDouble.exists_isNormal (h : HasDouble k) (hk : k ≠ 0) :
    ∃ m, IsNormal m (k.natAbs.log2 - 52) ∧ ScalesTo m (k.natAbs.log2 - 52) k.natAbs := by
  have hn : k.natAbs ≠ 0 := Int.natAbs_ne_zero.mpr hk
  obtain ⟨hsize, c, hc⟩ := h
  have hwhole : ScalesTo c (k.natAbs.log2 - 52 : Nat) k.natAbs := by
    rw [scalesTo_iff (sub_zero _), pow_zero, mul_one, mul_comm]
    exact hc.symm
  have hs := (hwhole.iff_eq_mul (e := k.natAbs.log2 - 52) (by omega)).mpr rfl
  have hm := hs.left_ne_zero hn
  have hlog := hs.log2 hm
  obtain ⟨hlow, hhigh⟩ := (Nat.log2_eq_iff (k := 52) hm).mp (by omega)
  exact ⟨_, ⟨hlow, hhigh, by omega, by omega⟩, hs⟩

/-- A factor of a double is one: it has no more bits, and is no larger. -/
theorem HasDouble.of_mul (h : HasDouble (e * k)) (he : e ≠ 0) (hk : k ≠ 0) : HasDouble e := by
  have hn : e.natAbs ≠ 0 := Int.natAbs_ne_zero.mpr he
  have hpos : 0 < k.natAbs := Int.natAbs_pos.mpr hk
  obtain ⟨hsize, hbits⟩ := h
  rw [Int.natAbs_mul] at hsize hbits
  have hle : e.natAbs.log2 ≤ (e.natAbs * k.natAbs).log2 := log2_le_log2_mul hn hpos.ne'
  refine ⟨by omega, ?_⟩
  obtain ⟨i, a, ha, hea⟩ := Nat.exists_eq_two_pow_mul_odd hn
  obtain ⟨j, b, hb, hkb⟩ := Nat.exists_eq_two_pow_mul_odd hpos.ne'
  have hproduct : e.natAbs * k.natAbs = a * b * 2 ^ (i + j) := by
    rw [hea, hkb, pow_add]
    ring
  have hodd : a * b ≠ 0 := Nat.mul_ne_zero ha.pos.ne' hb.pos.ne'
  rw [hproduct, log2_mul_two_pow hodd] at hbits
  have hcoprime : (2 ^ ((a * b).log2 + (i + j) - 52)).Coprime (a * b) :=
    Nat.Coprime.pow_left _ (Nat.coprime_two_left.mpr (ha.mul hb))
  have hplaces := (Nat.pow_dvd_pow_iff_le_right (by decide)).mp
    (hcoprime.dvd_of_dvd_mul_left hbits)
  have hlog : a.log2 ≤ (a * b).log2 := log2_le_log2_mul ha.pos.ne' hb.pos.ne'
  rw [hea, mul_comm, log2_mul_two_pow ha.pos.ne']
  exact (pow_dvd_pow 2 (by omega)).mul_left a

theorem toInt?_eq_some_iff {x : Binary} : x.toInt? = some k ↔ x.toRat? = some (k : Rat) := by
  unfold toInt?
  rw [Option.bind_eq_some_iff]
  constructor
  · rintro ⟨r, hr, hint⟩
    split at hint
    · rename_i hden
      cases hint
      rw [hr, (Rat.den_eq_one_iff _).mp hden]
    · cases hint
  · intro h
    exact ⟨k, h, if_pos rfl⟩

theorem signed_eq_iff {negative : Bool} :
    signed negative m = k ↔ m = k.natAbs ∧ k = signed negative k.natAbs := by
  unfold signed
  split <;> omega

theorem signed_mul (negative : Bool) (m n : Nat) :
    signed negative (m * n) = signed negative m * n := by
  unfold signed
  split
  · rw [Int.natCast_mul, Int.neg_mul]
  · exact Int.natCast_mul m n

theorem signed_natAbs (k : Int) : signed (k < 0) k.natAbs = k := by
  unfold signed
  split
  · rename_i hk
    have hneg := of_decide_eq_true hk
    omega
  · rename_i hk
    have hnonneg := of_decide_eq_false (Bool.eq_false_of_not_eq_true hk)
    omega

theorem toInt?_finite {negative : Bool} : (finite negative m e).toInt? = some k ↔
    ScalesTo m e k.natAbs ∧ k = signed negative k.natAbs := by
  rw [toInt?_eq_some_iff, toRat?]
  unfold ScalesTo
  by_cases he : 0 ≤ e
  · rw [if_pos he, Option.some.injEq, Int.cast_inj, show (-e).toNat = 0 by omega, pow_zero,
      mul_one, signed_eq_iff]
  · have hden : 2 ^ (-e).toNat ≠ 0 := (Nat.two_pow_pos _).ne'
    rw [if_neg he, Option.some.injEq, ← Rat.mkRat_one, Rat.mkRat_eq_iff hden one_ne_zero,
      Nat.cast_one, mul_one, signed_eq_iff, Int.natAbs_mul, Int.natAbs_natCast, signed_mul,
      Int.mul_eq_mul_right_iff (Int.natCast_ne_zero.mpr hden), show e.toNat = 0 by omega,
      pow_zero, mul_one]

theorem ofBits_cases {bits : Nat} {negative : Bool} (h : ofBits bits = finite negative m e) :
    IsNormal m e ∨ m < 2 ^ 52 ∧ e = -1074 := by
  unfold ofBits at h
  dsimp only at h
  split at h
  · split at h <;> cases h
  · split at h
    · cases h
      exact .inr ⟨Nat.mod_lt _ (by decide), rfl⟩
    · cases h
      refine .inl ⟨?_, ?_, ?_, ?_⟩ <;> omega

theorem exists_isNormal_of_toInt? {x : Float} (h : (ofFloat x).toInt? = some k) (hk : k ≠ 0) :
    ∃ negative m e, ofFloat x = finite negative m e ∧ IsNormal m e ∧
      ScalesTo m e k.natAbs ∧ k = signed negative k.natAbs := by
  cases hx : ofFloat x with
  | infinity negative =>
    rw [hx] at h
    cases h
  | notANumber =>
    rw [hx] at h
    cases h
  | finite negative m e =>
    rw [hx] at h
    obtain ⟨hs, hsign⟩ := toInt?_finite.mp h
    refine ⟨negative, m, e, rfl, ?_, hs, hsign⟩
    rcases ofBits_cases hx with hnormal | ⟨hm, rfl⟩
    · exact hnormal
    · have hne := hs.left_ne_zero (Int.natAbs_ne_zero.mpr hk)
      have hlog := hs.log2 hne
      have hsize : m.log2 < 52 := (Nat.log2_lt hne).mpr hm
      omega

theorem hasDouble_of_toInt? {x : Float} (h : (ofFloat x).toInt? = some k) (hk : k ≠ 0) :
    HasDouble k := by
  obtain ⟨negative, m, e, -, hnormal, hs, -⟩ := exists_isNormal_of_toInt? h hk
  exact hnormal.hasDouble hs

theorem roundHalfEven_mul (m : Nat) (hn : 0 < n) : roundHalfEven (m * n) n = m := by
  unfold roundHalfEven
  rw [Nat.mul_div_cancel m hn, Nat.mul_mod_left]
  exact if_pos (.inl hn)

theorem lastPlace_one (hn : n ≠ 0) : lastPlace n 1 = (n.log2 : Int) - 52 := by
  have hone : Nat.log2 1 = 0 := by decide
  have hguess : (n.log2 : Int) - (0 : Nat) - 53 + 53 = n.log2 := by omega
  have hwide : 1 * 2 ^ (n.log2 : Int).toNat ≤ n := by
    rw [one_mul, Int.toNat_natCast]
    exact Nat.log2_self_le hn
  unfold lastPlace
  dsimp only
  rw [hone, hguess, if_pos (Int.natCast_nonneg _), decide_eq_true hwide, if_pos rfl]
  omega

theorem floatOfRat?_intCast (h : IsNormal m e) (hs : ScalesTo m e k.natAbs) :
    ∃ x, floatOfRat? k = some x ∧ ofFloat x = finite (k < 0) m e := by
  -- the exponent is that of the last place, so rounding finds the quotient whole
  have hsignificand : (if 0 ≤ e then roundHalfEven k.natAbs (1 * 2 ^ e.toNat)
      else roundHalfEven (k.natAbs * 2 ^ (-e).toNat) 1) = m := by
    unfold ScalesTo at hs
    split
    · rw [show (-e).toNat = 0 by omega, pow_zero, mul_one] at hs
      rw [← hs, one_mul]
      exact roundHalfEven_mul m (Nat.two_pow_pos _)
    · rw [show e.toNat = 0 by omega, pow_zero] at hs
      rw [← hs]
      exact roundHalfEven_mul m Nat.one_pos
  have hbits : nearestBits? (k < 0) k.natAbs 1 = some (normalBits (k < 0) m e) := by
    unfold nearestBits?
    rw [lastPlace_one (hs.ne_zero h.pos.ne'), ← h.exponent hs]
    dsimp only
    rw [hsignificand]
    obtain ⟨hlow, hhigh, hleast, hgreatest⟩ := h
    rw [if_neg (show ¬m < 2 ^ 52 by omega), if_pos (by omega)]
    unfold normalBits
    split
    · rfl
    · rw [Nat.zero_add]
  refine ⟨_, ?_, h.ofFloat_ofBits (h.ofBits_normalBits _) (h.normalBits_lt _)⟩
  unfold floatOfRat? nearestFloat?
  rw [Rat.num_intCast, Rat.den_intCast, hbits]
  rfl

theorem shiftRight_two_pow (m i : Nat) :
    (⟨m * 2 ^ i, false, false⟩ : ExtendedMantissa) >>> i = ⟨m, false, false⟩ := by
  induction i generalizing m with
  | zero => rw [pow_zero, mul_one]; rfl
  | succ i ih =>
    change ((⟨m * 2 ^ (i + 1), false, false⟩ : ExtendedMantissa) >>> i).shiftRightOne = _
    rw [pow_succ', ← mul_assoc, ih]
    simp [ExtendedMantissa.shiftRightOne]

/-- A normal double that was written with a smaller exponent is shifted back without loss. -/
theorem IsNormal.shiftToTargetExponent_eq (h : IsNormal m t) (he : e ≤ t) :
    shiftToTargetExponent Format.binary64 (m * 2 ^ (t - e).toNat) e .exact =
      (⟨m, false, false⟩, t) := by
  have htarget :
      Format.binary64.targetExponent (totalExponent (m * 2 ^ (t - e).toNat) e) = t := by
    have hleast := h.least
    unfold Format.targetExponent totalExponent
    rw [log2_mul_two_pow h.pos.ne', h.log2]
    change max (((52 + (t - e).toNat : Nat) : Int) + 1 + e - 53) (-1074) = t
    omega
  unfold shiftToTargetExponent UnpackedFloat.shiftToExponent
  dsimp only
  rw [htarget]
  refine Prod.ext (shiftRight_two_pow m _) ?_
  dsimp only
  omega

theorem IsNormal.roundWithAccuracy_eq (h : IsNormal m t) (he : e ≤ t) (s : Sign) :
    roundWithAccuracy Format.binary64 s (m * 2 ^ (t - e).toNat) e .exact =
      .finite s m t h.pos := by
  have hagain : shiftToTargetExponent Format.binary64 m t .exact = (⟨m, false, false⟩, t) := by
    have hzero := h.shiftToTargetExponent_eq (le_refl t)
    rwa [sub_self, Int.toNat_zero, pow_zero, mul_one] at hzero
  unfold roundWithAccuracy
  rw [h.shiftToTargetExponent_eq he]
  dsimp only
  rw [show (⟨m, false, false⟩ : ExtendedMantissa).roundedMantissa = m from rfl, hagain]
  exact dif_neg h.pos.ne'

theorem isNegative_mul (s t : Sign) : isNegative (s * t) = (isNegative s != isNegative t) := by
  cases s <;> cases t <;> rfl

theorem unpack_mul (x y : Float) : (x * y).toModel.unpack =
    UnpackedFloat.unpack Format.binary64 (UnpackedFloat.pack Format.binary64
      (UnpackedFloat.mul Format.binary64 x.toModel.unpack y.toModel.unpack)) :=
  rfl

/-- A product of normal doubles that is the natural of a normal double is computed as that one. -/
theorem ofFloat_mul {x y : Float} {a b : Bool} (hx : ofFloat x = finite a m e)
    (hy : ofFloat y = finite b n f) (hm : IsNormal m e) (hn : IsNormal n f)
    (hq : IsNormal q t) (hproduct : ScalesTo (m * n) (e + f) p) (hp : ScalesTo q t p) :
    ofFloat (x * y) = finite (a != b) q t := by
  rw [ofFloat_eq] at hx hy
  obtain ⟨s, hxs, rfl⟩ := hm.eq_of_ofUnpacked hx
  obtain ⟨r, hyr, rfl⟩ := hn.eq_of_ofUnpacked hy
  have hle : e + f ≤ t := by
    have hlog := hproduct.log2 (Nat.mul_ne_zero hm.pos.ne' hn.pos.ne')
    have hgrow := log2_le_log2_mul hm.pos.ne' hn.pos.ne'
    rw [hm.log2] at hgrow
    rw [hq.exponent hp]
    omega
  have hmul : UnpackedFloat.mul Format.binary64 (.finite s m e hm.pos) (.finite r n f hn.pos) =
      .finite (s * r) q t hq.pos := by
    rw [← hq.roundWithAccuracy_eq hle, ← (hp.iff_eq_mul hle).mp hproduct]
    rfl
  rw [ofFloat_eq, unpack_mul, hxs, hyr, hmul, hq.unpack_pack, ← isNegative_mul]
  rfl

theorem signed_bne (a b : Bool) (m n : Nat) :
    signed (a != b) (m * n) = signed a m * signed b n := by
  cases a <;> cases b <;> simp [signed]

theorem toInt?_mul_iff {x y : Float} {i j : Int} (hx : (ofFloat x).toInt? = some i)
    (hy : (ofFloat y).toInt? = some j) (hi : i ≠ 0) (hj : j ≠ 0) :
    (ofFloat (x * y)).toInt? = some (i * j) ↔ HasDouble (i * j) := by
  have hne : i * j ≠ 0 := Int.mul_ne_zero hi hj
  refine ⟨fun h => hasDouble_of_toInt? h hne, fun h => ?_⟩
  obtain ⟨a, m, e, hxm, hm, hms, hisign⟩ := exists_isNormal_of_toInt? hx hi
  obtain ⟨b, n, f, hyn, hn, hns, hjsign⟩ := exists_isNormal_of_toInt? hy hj
  obtain ⟨q, hq, hqs⟩ := h.exists_isNormal hne
  have hproduct := hms.mul hns
  rw [← Int.natAbs_mul] at hproduct
  rw [ofFloat_mul hxm hyn hm hn hq hproduct hqs, toInt?_finite]
  refine ⟨hqs, ?_⟩
  rw [Int.natAbs_mul, signed_bne, ← hisign, ← hjsign]

theorem HasDouble.exists_float (h : HasDouble k) (hk : k ≠ 0) :
    ∃ x, floatOfRat? k = some x ∧ (ofFloat x).toInt? = some k := by
  obtain ⟨m, hm, hs⟩ := h.exists_isNormal hk
  obtain ⟨x, hx, hxm⟩ := floatOfRat?_intCast hm hs
  refine ⟨x, hx, ?_⟩
  rw [hxm, toInt?_finite]
  exact ⟨hs, (signed_natAbs k).symm⟩

end Binary

end QuantityCalculus
