import QuantityCalculus.Proofs.Number.WholeDoubles

/-!
# The range of the doubles

A quotient is rounded at its last place, the power of two that leaves 53 binary digits in front.
Rounding carries over into the next power of two from half a last place below it on, so there is
a limit to what has a nearest double: half a last place above the largest double. Doubles
themselves stay below it.
-/
namespace QuantityCalculus

open scoped NaturalPowers

namespace Binary

variable {num den i j x y bound : Nat}

/-- What is at least this far from zero has no nearest double. -/
def limit : Nat := 2 ^ 1024 - 2 ^ 970

theorem roundHalfEven_le_succ (num den : Nat) : roundHalfEven num den ≤ num / den + 1 := by
  unfold roundHalfEven
  dsimp only
  split <;> omega

/-- Rounding stays below an even bound exactly if more than a half is missing to it: the half
itself goes to the even neighbour, which is the bound. -/
theorem roundHalfEven_lt_iff (hden : 0 < den) (heven : bound % 2 = 0) :
    roundHalfEven num den < bound ↔ 2 * num + den < 2 * bound * den := by
  have hdiv := Nat.div_add_mod num den
  have hmod := Nat.mod_lt num hden
  unfold roundHalfEven
  dsimp only
  rcases Nat.lt_trichotomy (num / den + 1) bound with hbelow | hnext | habove
  · -- at least two below
    obtain ⟨c, rfl⟩ : ∃ c, bound = num / den + 2 + c := ⟨bound - (num / den + 2), by omega⟩
    have hright : 2 * num + den < 2 * (num / den + 2 + c) * den := by
      nlinarith [Nat.zero_le (c * den)]
    refine iff_of_true ?_ hright
    split <;> omega
  · -- the next one is the bound, so the lower neighbour is odd
    subst hnext
    have hright : 2 * (num / den + 1) * den = 2 * (den * (num / den)) + 2 * den := by ring
    rw [hright]
    split <;> omega
  · have hlow : bound * den ≤ num :=
      (Nat.mul_le_mul_right den (by omega)).trans (Nat.div_mul_le_self num den)
    rw [mul_assoc]
    refine iff_of_false ?_ (by omega)
    split <;> omega

theorem mul_two_pow_le (h : den * 2 ^ x ≤ num * 2 ^ y) (hle : i + y ≤ x + j) :
    den * 2 ^ i ≤ num * 2 ^ j := by
  refine Nat.le_of_mul_le_mul_right ?_ (Nat.two_pow_pos y)
  calc
    den * 2 ^ i * 2 ^ y = den * 2 ^ (i + y) := by rw [pow_add, mul_assoc]
    _ ≤ den * 2 ^ (x + j) := Nat.mul_le_mul_left den (Nat.pow_le_pow_right (by decide) hle)
    _ = den * 2 ^ x * 2 ^ j := by rw [pow_add, mul_assoc]
    _ ≤ num * 2 ^ y * 2 ^ j := Nat.mul_le_mul_right _ h
    _ = num * 2 ^ j * 2 ^ y := mul_right_comm num _ _

theorem lt_mul_two_pow (h : num * 2 ^ y < den * 2 ^ x) (hle : x + j ≤ i + y) :
    num * 2 ^ j < den * 2 ^ i := by
  rw [← not_le] at h ⊢
  exact fun hreaches => h (mul_two_pow_le hreaches hle)

theorem lastPlace_eq {g : Int} (hg : (num.log2 : Int) - den.log2 = g) :
    lastPlace num den =
      max (if den * 2 ^ g.toNat ≤ num * 2 ^ (-g).toNat then g - 52 else g - 53) (-1074) := by
  have hreaches : (if 0 ≤ g then decide (den * 2 ^ g.toNat ≤ num)
      else decide (den ≤ num * 2 ^ (-g).toNat)) =
        decide (den * 2 ^ g.toNat ≤ num * 2 ^ (-g).toNat) := by
    split
    · rw [show (-g).toNat = 0 by omega, pow_zero, mul_one]
    · rw [show g.toNat = 0 by omega, pow_zero, mul_one]
  unfold lastPlace
  dsimp only
  rw [hg, show g - 53 + 53 = g by omega, hreaches]
  simp only [decide_eq_true_eq]
  congr 2
  omega

/-- A quotient below a power of two has its last place 53 places or more below that power, unless
no double has so small a last place. -/
theorem lastPlace_lt_iff (hnum : num ≠ 0) (hden : den ≠ 0) (hleast : -1022 < (i : Int) - j) :
    lastPlace num den < (i : Int) - j - 52 ↔ num * 2 ^ j < den * 2 ^ i := by
  have hbelow : num * 2 ^ den.log2 < den * 2 ^ (num.log2 + 1) := by
    rw [mul_comm den]
    exact Nat.mul_lt_mul_of_lt_of_le Nat.lt_log2_self (Nat.log2_self_le hden)
      (Nat.pos_of_ne_zero hden)
  have habove : den * 2 ^ num.log2 ≤ num * 2 ^ (den.log2 + 1) := by
    rw [mul_comm num]
    exact Nat.mul_le_mul Nat.lt_log2_self.le (Nat.log2_self_le hnum)
  obtain ⟨g, hg⟩ : ∃ g : Int, (num.log2 : Int) - den.log2 = g := ⟨_, rfl⟩
  rw [lastPlace_eq hg]
  split
  · rename_i hreaches
    by_cases hlt : g < (i : Int) - j
    · exact iff_of_true (by omega) (lt_mul_two_pow hbelow (by omega))
    · exact iff_of_false (by omega) (not_lt.mpr (mul_two_pow_le hreaches (by omega)))
  · rename_i hfalls
    by_cases hle : g ≤ (i : Int) - j
    · exact iff_of_true (by omega) (lt_mul_two_pow (not_le.mp hfalls) (by omega))
    · exact iff_of_false (by omega) (not_lt.mpr (mul_two_pow_le habove (by omega)))

/-- The quotient in units of a place, rounded to a whole number. -/
def significand (num den : Nat) (place : Int) : Nat :=
  roundHalfEven (num * 2 ^ (-place).toNat) (den * 2 ^ place.toNat)

theorem nearestBits?_isSome_iff_significand {negative : Bool} {place : Int}
    (hplace : lastPlace num den = place) :
    (nearestBits? negative num den).isSome = true ↔ significand num den place < 2 ^ 52 ∨
      (place + 1075).toNat * 2 ^ 52 + (significand num den place - 2 ^ 52) < 2047 * 2 ^ 52 := by
  have hsignificand : (if 0 ≤ place then roundHalfEven num (den * 2 ^ place.toNat)
      else roundHalfEven (num * 2 ^ (-place).toNat) den) = significand num den place := by
    unfold significand
    split
    · rw [show (-place).toNat = 0 by omega, pow_zero, mul_one]
    · rw [show place.toNat = 0 by omega, pow_zero, mul_one]
  unfold nearestBits?
  dsimp only
  rw [hplace, hsignificand]
  split
  · split
    · simp_all
    · omega
  · split
    · simp_all
    · simp_all

/-- At its last place a quotient has at most 53 binary digits, the carry of rounding apart. -/
theorem significand_le {place : Int} (hnum : num ≠ 0) (hden : den ≠ 0)
    (hplace : lastPlace num den = place) : significand num den place ≤ 2 ^ 53 := by
  have hleast : -1074 ≤ place := by
    rw [← hplace, lastPlace_eq rfl]
    exact le_max_right _ _
  have hbelow : num * 2 ^ (-place).toNat < den * 2 ^ (place.toNat + 53) :=
    (lastPlace_lt_iff hnum hden (by omega)).mp (by omega)
  rw [pow_add, ← mul_assoc] at hbelow
  exact (roundHalfEven_le_succ _ _).trans (Nat.div_lt_of_lt_mul hbelow)

theorem le_significand {place : Int} (hnum : num ≠ 0) (hden : den ≠ 0)
    (hplace : lastPlace num den = place) (hnormal : 0 ≤ place) :
    2 ^ 52 ≤ significand num den place := by
  have hpos : 0 < den * 2 ^ place.toNat :=
    Nat.mul_pos (Nat.pos_of_ne_zero hden) (Nat.two_pow_pos _)
  have habove : ¬num * 2 ^ (-place).toNat < den * 2 ^ (place.toNat + 52) := by
    rw [← lastPlace_lt_iff hnum hden (by omega)]
    omega
  rw [pow_add, ← mul_assoc] at habove
  unfold significand
  rw [← not_lt, roundHalfEven_lt_iff hpos (by decide)]
  omega

/-- Half a unit of the last place of the largest doubles. -/
def halfPlace : Nat := 2 ^ 970

theorem halfPlace_pos : 0 < halfPlace := by
  unfold halfPlace
  positivity

theorem two_pow_eq_halfPlace_mul (t : Nat) : 2 ^ (970 + t) = halfPlace * 2 ^ t := by
  rw [pow_add, halfPlace]

theorem limit_add_halfPlace : limit + halfPlace = halfPlace * 2 ^ 54 := by
  have hle : halfPlace ≤ halfPlace * 2 ^ 54 := Nat.le_mul_of_pos_right _ (by decide)
  have hlimit : limit = halfPlace * 2 ^ 54 - halfPlace := by
    rw [← two_pow_eq_halfPlace_mul]
    simp only [limit, halfPlace, Nat.reduceAdd]
  omega

theorem limit_pos : 0 < limit := by
  have hlimit := limit_add_halfPlace
  have hpos := halfPlace_pos
  omega

/-- Exactly the quotients below the limit have a nearest double. -/
theorem nearestBits?_isSome_iff (negative : Bool) (hnum : num ≠ 0) (hden : den ≠ 0) :
    (nearestBits? negative num den).isSome = true ↔ num < den * limit := by
  have hpos : 0 < den * halfPlace :=
    Nat.mul_pos (Nat.pos_of_ne_zero hden) halfPlace_pos
  have hlimit : den * limit + den * halfPlace = den * halfPlace * 2 ^ 54 := by
    rw [← mul_add, limit_add_halfPlace, mul_assoc]
  have hbinade (t : Nat) :
      lastPlace num den < (970 + t : Nat) - 52 ↔ num < den * halfPlace * 2 ^ t := by
    have hiff := @lastPlace_lt_iff num den (970 + t) 0 hnum hden (by omega)
    rwa [Int.natCast_zero, sub_zero, pow_zero, mul_one, two_pow_eq_halfPlace_mul,
      ← mul_assoc] at hiff
  obtain ⟨place, hplace⟩ : ∃ place, lastPlace num den = place := ⟨_, rfl⟩
  have hlower := hbinade 53
  have hupper := hbinade 54
  rw [hplace] at hlower hupper
  have hcarry := significand_le hnum hden hplace
  rw [nearestBits?_isSome_iff_significand hplace]
  rcases lt_trichotomy place 971 with hlt | rfl | hgt
  · have hbelow := hlower.mp (by omega)
    exact iff_of_true (by omega) (by omega)
  · -- only the carry of rounding can lead out of the last binade
    have hdigits := le_significand hnum hden hplace (by decide)
    have hsignificand : significand num den 971 = roundHalfEven num (den * halfPlace * 2) := by
      unfold significand
      rw [show (-971 : Int).toNat = 0 by decide, show (971 : Int).toNat = 970 + 1 by decide,
        two_pow_eq_halfPlace_mul 1, pow_zero, mul_one, pow_one, mul_assoc]
    have hround : roundHalfEven num (den * halfPlace * 2) < 2 ^ 53 ↔
        2 * num + den * halfPlace * 2 < 2 * 2 ^ 53 * (den * halfPlace * 2) :=
      roundHalfEven_lt_iff (Nat.mul_pos hpos Nat.two_pos) (by decide)
    rw [hsignificand] at hdigits hcarry ⊢
    omega
  · have hdigits := le_significand hnum hden hplace (by omega)
    have habove : ¬num < den * halfPlace * 2 ^ 54 := fun h => by
      have := hupper.mpr h
      omega
    exact iff_of_false (by omega) (by omega)

theorem floatOfRat?_isSome_iff {q : Rat} (hq : 0 < q) :
    (floatOfRat? q).isSome = true ↔ q < limit := by
  have hnum : 0 < q.num := Rat.num_pos.mpr hq
  unfold floatOfRat? nearestFloat?
  rw [Option.isSome_map, nearestBits?_isSome_iff _ (by omega) q.den_nz]
  have hden : (0 : Rat) < q.den := Nat.cast_pos.mpr q.den_pos
  have hvalue : q < limit ↔ (q.num : Rat) < limit * q.den := by
    rw [← div_lt_iff₀ hden, q.num_div_den]
  rw [hvalue]
  norm_cast
  rw [mul_comm limit, ← Int.ofNat_lt, Int.natAbs_of_nonneg hnum.le]

theorem signed_le (negative : Bool) (n : Nat) : signed negative n ≤ n := by
  unfold signed
  split <;> omega

theorem mul_two_pow_lt_limit {m : Nat} {e : Int} (hm : m < 2 ^ 53) (he : e ≤ 971) :
    m * 2 ^ e.toNat < limit := by
  have hplaces : e.toNat ≤ 970 + 1 := by omega
  have hlast := (Nat.pow_le_pow_right Nat.two_pos hplaces).trans_eq (two_pow_eq_halfPlace_mul 1)
  have hmost := Nat.mul_le_mul (Nat.le_sub_one_of_lt hm) hlast
  have hlimit := limit_add_halfPlace
  have hpos := halfPlace_pos
  omega

theorem lt_limit_of_toRat? {x : Float} {q : Rat} (h : (ofFloat x).toRat? = some q) :
    q < limit := by
  cases hx : ofFloat x with
  | infinity negative =>
    rw [hx] at h
    cases h
  | notANumber =>
    rw [hx] at h
    cases h
  | finite negative m e =>
    have hparts : m < 2 ^ 53 ∧ e ≤ 971 := by
      rcases ofBits_cases hx with hnormal | ⟨hm, rfl⟩
      · exact ⟨hnormal.high, hnormal.greatest⟩
      · exact ⟨by omega, by decide⟩
    have hle : q ≤ ((m * 2 ^ e.toNat : Nat) : Rat) := by
      rw [hx, toRat?] at h
      split at h
      · cases h
        exact_mod_cast signed_le negative (m * 2 ^ e.toNat)
      · cases h
        have hden : (0 : Rat) < (2 ^ (-e).toNat : Nat) := Nat.cast_pos.mpr (Nat.two_pow_pos _)
        have hgrow : m ≤ m * 2 ^ e.toNat * 2 ^ (-e).toNat := by
          rw [mul_assoc]
          exact Nat.le_mul_of_pos_right m (Nat.mul_pos (Nat.two_pow_pos _) (Nat.two_pow_pos _))
        rw [Rat.mkRat_eq_div, div_le_iff₀ hden]
        exact_mod_cast (signed_le negative m).trans (Int.ofNat_le.mpr hgrow)
    exact hle.trans_lt (Nat.cast_lt.mpr (mul_two_pow_lt_limit hparts.1 hparts.2))

end Binary

end QuantityCalculus
