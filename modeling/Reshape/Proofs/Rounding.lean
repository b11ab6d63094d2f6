/-
  Reshape.Proofs.Rounding: finite numbers are read as they are written.

  A decimal rounds to a magnitude if it lies between the middles to its two neighbours, or on one of
  them and the rank is even.
  - `ofDecimal_eq`: such a decimal is read as the magnitude.
  - `rounds_shortest`: the shortest decimal is one, since powers of ten that are close enough together
    leave one next to the magnitude, and seventeen digits are enough for that.
  - `writes_positional`, `writes_exponential`: both layouts of the digits stand for the same decimal.
  - `exists_numeral`: so that the numeral of a finite number is read as that number.
-/

import Reshape.Number.Decimal
import Reshape.Proofs.Numerals
import Mathlib.Algebra.Order.Field.Power
import Mathlib.Data.List.TakeWhile
import Mathlib.Data.Rat.Cast.Order
import Mathlib.Tactic.Linarith
import Mathlib.Tactic.Positivity
import Mathlib.Tactic.Ring

namespace Reshape.Double

/-! ## Units -/

theorem binade_pos : 0 < binade := by decide

theorem unitsPerOne_pos : 0 < unitsPerOne := by decide +kernel

/-- How far it is from a magnitude to the next one. -/
def gap (rank : Nat) : Nat := 2 ^ (rank / binade - 1)

theorem units_binades (q : Nat) {s : Nat} (hs : s < binade) : units ((q + 1) * binade + s) = (binade + s) * 2 ^ q := by
  have hdiv : ((q + 1) * binade + s) / binade = q + 1 := by
    rw [Nat.mul_comm, Nat.mul_add_div binade_pos, Nat.div_eq_of_lt hs, Nat.add_zero]
  have hmod : ((q + 1) * binade + s) % binade = s := by
    rw [Nat.mul_comm, Nat.mul_add_mod, Nat.mod_eq_of_lt hs]
  have hle : ¬ (q + 1) * binade + s < binade := by
    have hmul : binade ≤ (q + 1) * binade := Nat.le_mul_of_pos_left binade (Nat.succ_pos q)
    omega
  rw [units, if_neg hle, hdiv, hmod, Nat.add_sub_cancel]
  rfl

theorem exists_binades {rank : Nat} (h : binade ≤ rank) : ∃ q s, s < binade ∧ rank = (q + 1) * binade + s := by
  have hq : 0 < rank / binade := Nat.div_pos h binade_pos
  refine ⟨rank / binade - 1, rank % binade, Nat.mod_lt _ binade_pos, ?_⟩
  rw [Nat.sub_add_cancel hq]
  exact (Nat.div_add_mod' rank binade).symm

theorem gap_binades (q : Nat) {s : Nat} (hs : s < binade) : gap ((q + 1) * binade + s) = 2 ^ q := by
  rw [gap, Nat.mul_comm, Nat.mul_add_div binade_pos, Nat.div_eq_of_lt hs, Nat.add_zero, Nat.add_sub_cancel]

theorem gap_of_lt {rank : Nat} (h : rank < binade) : gap rank = 1 := by
  rw [gap, Nat.div_eq_of_lt h]
  rfl

theorem gap_pos (rank : Nat) : 0 < gap rank := Nat.two_pow_pos _

theorem units_succ (rank : Nat) : units (rank + 1) = units rank + gap rank := by
  by_cases hlow : rank < binade
  · rw [gap_of_lt hlow, units_of_lt (by omega), units_of_lt (by omega)]
  · obtain ⟨q, s, hs, rfl⟩ := exists_binades (Nat.le_of_not_lt hlow)
    rw [units_binades q hs, gap_binades q hs]
    by_cases hnext : s + 1 < binade
    · rw [Nat.add_assoc, units_binades q hnext]
      ring
    · have hlast : (q + 1) * binade + s + 1 = (q + 1 + 1) * binade + 0 := by
        have hs1 : s + 1 = binade := by omega
        rw [Nat.add_assoc, hs1]
        ring
      rw [hlast, units_binades (q + 1) binade_pos, pow_succ]
      have hs1 : binade = s + 1 := by omega
      rw [hs1]
      ring

theorem units_strictMono : StrictMono units := by
  refine strictMono_nat_of_lt_succ fun rank => ?_
  rw [units_succ]
  exact Nat.lt_add_of_pos_right (gap_pos rank)

/-- A magnitude is small beside ten to the sixteenth of the distance between its neighbours. -/
theorem units_lt_gaps {rank : Nat} (h : 0 < rank) :
    2 * units rank < 10 ^ 16 * (units (rank + 1) - units (rank - 1)) := by
  have hbinade : binade = 2 ^ 52 := rfl
  obtain ⟨below, rfl⟩ : ∃ below, rank = below + 1 := ⟨rank - 1, by omega⟩
  have hgaps : units (below + 1 + 1) - units (below + 1 - 1) = gap below + gap (below + 1) := by
    rw [units_succ (below + 1), units_succ below, Nat.add_sub_cancel]
    omega
  rw [hgaps]
  by_cases hlow : below + 1 < binade
  · rw [gap_of_lt hlow, gap_of_lt (by omega), units_of_lt (by omega)]
    omega
  · obtain ⟨q, s, hs, hrank⟩ := exists_binades (Nat.le_of_not_lt hlow)
    rw [hrank, gap_binades q hs, units_binades q hs, ← Nat.mul_assoc]
    have hpow : 0 < 2 ^ q := Nat.two_pow_pos q
    rcases Nat.eq_zero_or_pos s with rfl | hs0
    · -- below a power of two the distance is half of that above it
      calc 2 * (binade + 0) * 2 ^ q < 10 ^ 16 * 2 ^ q := Nat.mul_lt_mul_of_pos_right (by omega) hpow
        _ ≤ 10 ^ 16 * (gap below + 2 ^ q) := Nat.mul_le_mul_left _ (Nat.le_add_left _ _)
    · have hbelow : below = (q + 1) * binade + (s - 1) := by omega
      rw [hbelow, gap_binades q (by omega), ← two_mul, ← Nat.mul_assoc]
      exact Nat.mul_lt_mul_of_pos_right (by omega) hpow

/-! ## Nearest magnitudes -/

theorem units_rankBelow (x : Nat) : units (rankBelow x) ≤ x ∧ x < units (rankBelow x + 1) := by
  have hbinade : binade = 2 ^ 52 := rfl
  rw [units_succ]
  by_cases hlow : x < 2 * binade
  · have hlog : x.log2 - 52 = 0 := by
      rcases Nat.eq_zero_or_pos x with rfl | hx
      · rfl
      · have := (Nat.log2_lt hx.ne').mpr (show x < 2 ^ 53 by omega)
        omega
    have hrank : rankBelow x = x := by
      rw [rankBelow, hlog]
      simp
    rw [hrank, units_of_lt hlow]
    exact ⟨Nat.le_refl x, Nat.lt_add_of_pos_right (gap_pos x)⟩
  · have hx : x ≠ 0 := by omega
    obtain ⟨k, hk⟩ : ∃ k, x.log2 = 52 + k := ⟨x.log2 - 52, by
      have := (Nat.le_log2 hx).mpr (show 2 ^ 53 ≤ x by omega)
      omega⟩
    have hpow : 0 < 2 ^ k := Nat.two_pow_pos k
    have hdown : 2 ^ (52 + k) ≤ x := hk ▸ Nat.log2_self_le hx
    have hup : x < 2 ^ (52 + k + 1) := hk ▸ Nat.lt_log2_self
    have hmant : binade ≤ x / 2 ^ k ∧ x / 2 ^ k < 2 * binade := by
      rw [Nat.le_div_iff_mul_le hpow, Nat.div_lt_iff_lt_mul hpow, hbinade]
      rw [pow_succ, pow_add] at hup
      rw [pow_add] at hdown
      omega
    have hrank : rankBelow x = (k + 1) * binade + (x / 2 ^ k - binade) := by
      rw [rankBelow, hk, Nat.add_sub_cancel_left, Nat.add_mul]
      show k * binade + x / 2 ^ k = _
      omega
    have hs : x / 2 ^ k - binade < binade := by omega
    rw [hrank, units_binades k hs, gap_binades k hs, Nat.add_sub_cancel' hmant.1]
    exact ⟨Nat.div_mul_le_self x _, Nat.lt_div_mul_add hpow⟩

theorem rankBelow_eq {rank x : Nat} (hle : units rank ≤ x) (hlt : x < units (rank + 1)) : rankBelow x = rank := by
  obtain ⟨hbelow, habove⟩ := units_rankBelow x
  have h1 := units_strictMono.lt_iff_lt.mp (Nat.lt_of_le_of_lt hbelow hlt)
  have h2 := units_strictMono.lt_iff_lt.mp (Nat.lt_of_le_of_lt hle habove)
  omega

/-- A fraction is nearest to the magnitude of this rank if it lies between the middles to its neighbours,
or on one of them and the rank is even. -/
theorem nearestRank_eq {rank num den : Nat} (hrank : 0 < rank) (hden : 0 < den)
    (hlow : (units (rank - 1) + units rank) * den ≤ 2 * num) (hhigh : 2 * num ≤ (units rank + units (rank + 1)) * den)
    (hodd : rank % 2 ≠ 0 →
      (units (rank - 1) + units rank) * den < 2 * num ∧ 2 * num < (units rank + units (rank + 1)) * den) :
    nearestRank num den = rank := by
  have hprev : units (rank - 1) * den < units rank * den :=
    Nat.mul_lt_mul_of_pos_right (units_strictMono (by omega)) hden
  have hnext : units rank * den < units (rank + 1) * den :=
    Nat.mul_lt_mul_of_pos_right (units_strictMono (by omega)) hden
  have hlow' : units (rank - 1) * den + units rank * den ≤ 2 * num := by rwa [← Nat.add_mul]
  have hhigh' : 2 * num ≤ units rank * den + units (rank + 1) * den := by rwa [← Nat.add_mul]
  by_cases habove : units rank * den ≤ num
  · have hbelow : rankBelow (num / den) = rank := by
      refine rankBelow_eq ((Nat.le_div_iff_mul_le hden).mpr habove) ((Nat.div_lt_iff_lt_mul hden).mpr ?_)
      omega
    rw [nearestRank, hbelow]
    rcases Nat.lt_or_eq_of_le hhigh with hlt | heq
    · rw [Nat.compare_eq_lt.mpr hlt]
      rfl
    · rw [Nat.compare_eq_eq.mpr heq]
      by_cases heven : rank % 2 = 0
      · exact if_pos heven
      · exact absurd heq (Nat.ne_of_lt (hodd heven).2)
  · have hrank1 : rank - 1 + 1 = rank := Nat.sub_add_cancel hrank
    have hbelow : rankBelow (num / den) = rank - 1 := by
      refine rankBelow_eq ((Nat.le_div_iff_mul_le hden).mpr ?_) ((Nat.div_lt_iff_lt_mul hden).mpr ?_)
      · omega
      · rw [hrank1]
        omega
    rw [nearestRank, hbelow, hrank1]
    rcases Nat.lt_or_eq_of_le hlow with hlt | heq
    · rw [Nat.compare_eq_gt.mpr hlt]
      exact hrank1
    · rw [Nat.compare_eq_eq.mpr heq.symm]
      by_cases heven : rank % 2 = 0
      · have hodd' : ¬ (rank - 1) % 2 = 0 := by omega
        rw [nearer, if_neg hodd', hrank1]
      · exact absurd heq (Nat.ne_of_lt (hodd heven).1)

/-! ## Decimals -/

def Decimal.value (d : Decimal) : ℚ := d.significand * 10 ^ d.exponent

/-- A number rounds to the magnitude of this rank: it lies between the middles to its neighbours, or on
one of them if the rank is even. -/
structure Rounds (rank : Nat) (x : ℚ) : Prop where
  low : ((units (rank - 1) + units rank : ℕ) : ℚ) ≤ 2 * unitsPerOne * x
  high : 2 * unitsPerOne * x ≤ ((units rank + units (rank + 1) : ℕ) : ℚ)
  odd : rank % 2 ≠ 0 → ((units (rank - 1) + units rank : ℕ) : ℚ) < 2 * unitsPerOne * x ∧
    2 * unitsPerOne * x < ((units rank + units (rank + 1) : ℕ) : ℚ)

theorem ten_zpow (e : Int) : (10 : ℚ) ^ e = ((10 ^ e.toNat : ℕ) : ℚ) / ((10 ^ (-e).toNat : ℕ) : ℚ) := by
  rcases Int.le_total 0 e with he | he
  · obtain ⟨n, rfl⟩ := Int.eq_ofNat_of_zero_le he
    simp
  · obtain ⟨n, hn⟩ := Int.eq_ofNat_of_zero_le (Int.neg_nonneg.mpr he)
    obtain rfl : e = -(n : ℤ) := by omega
    simp

section
variable {bound one a b : Nat}

/-- An inequality of fractions as one of whole numbers. -/
theorem le_fraction_iff (hb : 0 < b) : (bound : ℚ) ≤ 2 * one * (a / b) ↔ bound * b ≤ 2 * (a * one) := by
  have hnum : (2 * one * a : ℚ) = ((2 * (a * one) : ℕ) : ℚ) := by
    push_cast
    ring
  rw [← mul_div_assoc, le_div_iff₀ (Nat.cast_pos.mpr hb), hnum]
  exact_mod_cast Iff.rfl

theorem fraction_le_iff (hb : 0 < b) : 2 * one * (a / b : ℚ) ≤ bound ↔ 2 * (a * one) ≤ bound * b := by
  have hnum : (2 * one * a : ℚ) = ((2 * (a * one) : ℕ) : ℚ) := by
    push_cast
    ring
  rw [← mul_div_assoc, div_le_iff₀ (Nat.cast_pos.mpr hb), hnum]
  exact_mod_cast Iff.rfl

theorem rounds_fraction_iff {rank : Nat} (hb : 0 < b) : Rounds rank (a / b) ↔
    (units (rank - 1) + units rank) * b ≤ 2 * (a * unitsPerOne) ∧
      2 * (a * unitsPerOne) ≤ (units rank + units (rank + 1)) * b ∧
      (rank % 2 ≠ 0 → (units (rank - 1) + units rank) * b < 2 * (a * unitsPerOne) ∧
        2 * (a * unitsPerOne) < (units rank + units (rank + 1)) * b) := by
  have hlow : ((units (rank - 1) + units rank : ℕ) : ℚ) ≤ 2 * unitsPerOne * (a / b) ↔ _ := le_fraction_iff hb
  have hlow' : 2 * unitsPerOne * (a / b : ℚ) ≤ ((units (rank - 1) + units rank : ℕ) : ℚ) ↔ _ := fraction_le_iff hb
  have hhigh : 2 * unitsPerOne * (a / b : ℚ) ≤ ((units rank + units (rank + 1) : ℕ) : ℚ) ↔ _ := fraction_le_iff hb
  have hhigh' : ((units rank + units (rank + 1) : ℕ) : ℚ) ≤ 2 * unitsPerOne * (a / b) ↔ _ := le_fraction_iff hb
  constructor
  · rintro ⟨hl, hh, ho⟩
    refine ⟨hlow.mp hl, hhigh.mp hh, fun hodd => ?_⟩
    obtain ⟨h1, h2⟩ := ho hodd
    exact ⟨Nat.lt_of_not_le fun h => absurd (hlow'.mpr h) (not_le.mpr h1),
      Nat.lt_of_not_le fun h => absurd (hhigh'.mpr h) (not_le.mpr h2)⟩
  · rintro ⟨hl, hh, ho⟩
    refine ⟨hlow.mpr hl, hhigh.mpr hh, fun hodd => ?_⟩
    obtain ⟨h1, h2⟩ := ho hodd
    exact ⟨lt_of_not_ge fun h => absurd (hlow'.mp h) (Nat.not_le.mpr h1),
      lt_of_not_ge fun h => absurd (hhigh'.mp h) (Nat.not_le.mpr h2)⟩

end

theorem rounds_scaled (c : Nat) (e : Int) :
    (c * 10 ^ e : ℚ) = ((scaled c 1 e).1 : ℚ) / ((scaled c 1 e).2 : ℚ) ∧ 0 < (scaled c 1 e).2 := by
  constructor
  · rw [ten_zpow, scaled, Nat.one_mul]
    push_cast [Nat.pow_eq]
    rw [mul_div_assoc]
  · rw [scaled, Nat.one_mul]
    exact Nat.pow_pos (by decide)

theorem roundsTo_iff (rank c : Nat) (e : Int) : roundsTo rank c e = true ↔ Rounds rank (c * 10 ^ e) := by
  obtain ⟨heq, hpos⟩ := rounds_scaled c e
  rw [heq, rounds_fraction_iff hpos, roundsTo]
  dsimp only
  rw [Nat.mul_left_comm (scaled c 1 e).1]
  split
  · rename_i heven
    simp [heven]
  · rename_i hodd
    simp only [Bool.and_eq_true, decide_eq_true_eq]
    exact ⟨fun ⟨hl, hh⟩ => ⟨hl.le, hh.le, fun _ => ⟨hl, hh⟩⟩, fun ⟨_, _, ho⟩ => ho hodd⟩

theorem Rounds.of_lt {rank : Nat} {x : ℚ} (hlow : ((units (rank - 1) + units rank : ℕ) : ℚ) < 2 * unitsPerOne * x)
    (hhigh : 2 * unitsPerOne * x < ((units rank + units (rank + 1) : ℕ) : ℚ)) : Rounds rank x :=
  ⟨hlow.le, hhigh.le, fun _ => ⟨hlow, hhigh⟩⟩

theorem nearer_eq (below : Nat) (toMiddle : Ordering) :
    nearer below toMiddle = below ∨ nearer below toMiddle = below + 1 := by
  unfold nearer
  split
  · exact Or.inl rfl
  · exact Or.inr rfl
  · split
    · exact Or.inl rfl
    · exact Or.inr rfl

theorem rounds_of_decimalAt? {rank : Nat} {e : Int} {d : Decimal} (h : decimalAt? rank e = some d) :
    Rounds rank d.value := by
  have hvalue : ∀ c : Nat, roundsTo rank c e = true → Rounds rank (Decimal.mk c e).value :=
    fun c => (roundsTo_iff rank c e).mp
  rw [decimalAt?] at h
  generalize scaled (units rank) unitsPerOne (-e) = fraction at h
  dsimp only at h
  generalize fraction.1 / fraction.2 = below, compare _ fraction.2 = toMiddle at h
  split at h
  · rename_i hbelow habove
    cases h
    rcases nearer_eq below toMiddle with heq | heq
    · rw [heq]
      exact hvalue below hbelow
    · rw [heq]
      exact hvalue (below + 1) habove
  · rename_i hbelow _
    cases h
    exact hvalue below hbelow
  · rename_i _ habove
    cases h
    exact hvalue (below + 1) habove
  · cases h

/-- The multiple of a power of ten below a fraction, and the next one. -/
theorem scaled_bounds (a : Nat) {b : Nat} (hb : 0 < b) (e : Int) :
    let below := (scaled a b (-e)).1 / (scaled a b (-e)).2
    (b : ℚ) * (below * 10 ^ e) ≤ a ∧ (a : ℚ) < b * ((below + 1 : ℕ) * 10 ^ e) := by
  intro below
  have hden : 0 < (scaled a b (-e)).2 := Nat.mul_pos hb (Nat.pow_pos (by decide))
  have hlow : below * (scaled a b (-e)).2 ≤ (scaled a b (-e)).1 := Nat.div_mul_le_self ..
  have hhigh : (scaled a b (-e)).1 < (below + 1) * (scaled a b (-e)).2 := by
    rw [Nat.succ_mul]
    exact Nat.lt_div_mul_add hden
  rw [scaled, neg_neg] at hlow hhigh
  dsimp only [Nat.pow_eq] at hlow hhigh
  have hm : (0 : ℚ) < ((10 ^ (-e).toNat : ℕ) : ℚ) := Nat.cast_pos.mpr (Nat.pow_pos (by decide))
  rw [ten_zpow e, ← mul_div_assoc, ← mul_div_assoc, ← mul_div_assoc, ← mul_div_assoc, div_le_iff₀ hm, lt_div_iff₀ hm]
  constructor
  · have hcast : ((below * (b * 10 ^ e.toNat) : ℕ) : ℚ) ≤ ((a * 10 ^ (-e).toNat : ℕ) : ℚ) := Nat.cast_le.mpr hlow
    push_cast at hcast ⊢
    linarith
  · have hcast : ((a * 10 ^ (-e).toNat : ℕ) : ℚ) < (((below + 1) * (b * 10 ^ e.toNat) : ℕ) : ℚ) := Nat.cast_lt.mpr hhigh
    push_cast at hcast ⊢
    linarith

/-- Where the powers of ten are closer together than the neighbours of a magnitude, one of the two next to
it rounds to it. -/
theorem exists_decimalAt? {rank : Nat} (hrank : 0 < rank) {e : Int}
    (hfine : 2 * unitsPerOne * (10 : ℚ) ^ e < ((units (rank + 1) - units (rank - 1) : ℕ) : ℚ)) :
    ∃ d, decimalAt? rank e = some d := by
  have hprev : units (rank - 1) < units rank := units_strictMono (by omega)
  have hnext : units rank < units (rank + 1) := units_strictMono (by omega)
  obtain ⟨hbelow, habove⟩ := scaled_bounds (units rank) unitsPerOne_pos e
  rw [decimalAt?]
  generalize scaled (units rank) unitsPerOne (-e) = fraction at *
  dsimp only at *
  generalize fraction.1 / fraction.2 = below at *
  by_cases hround : roundsTo rank below e = true
  · rw [hround]
    cases roundsTo rank (below + 1) e with
    | true => exact ⟨_, rfl⟩
    | false => exact ⟨_, rfl⟩
  · have hnextRounds : roundsTo rank (below + 1) e = true := by
      rw [roundsTo_iff] at hround ⊢
      have hprev' : ((units (rank - 1) : ℕ) : ℚ) < units rank := Nat.cast_lt.mpr hprev
      have hnext' : ((units rank : ℕ) : ℚ) < units (rank + 1) := Nat.cast_lt.mpr hnext
      rw [Nat.cast_sub (by omega)] at hfine
      have hlow : 2 * (unitsPerOne : ℚ) * (below * 10 ^ e) ≤ ((units (rank - 1) + units rank : ℕ) : ℚ) := by
        refine le_of_not_gt fun hlt => hround (.of_lt hlt ?_)
        push_cast
        linarith
      push_cast at habove hlow
      refine .of_lt ?_ ?_
      · push_cast
        linarith
      · push_cast
        linarith
    rw [hnextRounds]
    cases roundsTo rank below e with
    | true => exact ⟨_, rfl⟩
    | false => exact ⟨_, rfl⟩

theorem ten_pow_le {n : Nat} (hn : 0 < n) : 10 ^ ((Nat.toDigits 10 n).length - 1) ≤ n := by
  rcases Nat.eq_zero_or_pos ((Nat.toDigits 10 n).length - 1) with h | h
  · rw [h]
    exact hn
  · refine Nat.le_of_not_lt fun hlt => ?_
    have hlength := (Nat.length_toDigits_le_iff (by decide) h).mpr hlt
    omega

theorem lt_ten_pow (n : Nat) : n < 10 ^ (Nat.toDigits 10 n).length :=
  (Nat.length_toDigits_le_iff (by decide) Nat.length_toDigits_pos).mp (Nat.le_refl _)

/-- A fraction is at least the power of ten of its first digit. -/
theorem ten_zpow_le {num den : Nat} (hnum : 0 < num) (hden : 0 < den) :
    (den : ℚ) * 10 ^ (digitsBeforePoint num den - 1) ≤ num := by
  unfold digitsBeforePoint
  split
  · rename_i hle
    have hpow := ten_pow_le (Nat.div_pos hle hden)
    obtain ⟨k, hk⟩ : ∃ k, (Nat.toDigits 10 (num / den)).length = k + 1 :=
      Nat.exists_eq_succ_of_ne_zero (Nat.ne_of_gt Nat.length_toDigits_pos)
    rw [hk, Nat.add_sub_cancel, Nat.le_div_iff_mul_le hden, Nat.mul_comm] at hpow
    rw [hk]
    push_cast
    rw [add_sub_cancel_right, zpow_natCast]
    exact_mod_cast hpow
  · have hpow := lt_ten_pow (den / num)
    rw [Nat.div_lt_iff_lt_mul hnum] at hpow
    obtain ⟨c, hc⟩ : ∃ c, (Nat.toDigits 10 (den / num)).length = c + 1 :=
      Nat.exists_eq_succ_of_ne_zero (Nat.ne_of_gt Nat.length_toDigits_pos)
    rw [hc] at hpow ⊢
    dsimp only
    rw [Nat.add_sub_cancel, Nat.pow_eq]
    split
    · rename_i hle
      have hexp : (2 - ((c + 1 : ℕ) : ℤ) - 1) = -(c : ℤ) := by
        push_cast
        ring
      rw [hexp, zpow_neg, zpow_natCast, ← div_eq_mul_inv, div_le_iff₀ (by positivity)]
      exact_mod_cast hle
    · have hexp : (1 - ((c + 1 : ℕ) : ℤ) - 1) = -((c + 1 : ℕ) : ℤ) := by
        push_cast
        ring
      rw [hexp, zpow_neg, zpow_natCast, ← div_eq_mul_inv, div_le_iff₀ (by positivity), mul_comm]
      exact_mod_cast hpow.le

/-- The shortest decimal of a magnitude rounds to it. -/
theorem rounds_shortest {rank : Nat} (hrank : 0 < rank) : Rounds rank (shortest rank).value := by
  have hunits : 0 < units rank := Nat.lt_of_le_of_lt (Nat.zero_le _) (units_strictMono hrank)
  have hfirst := ten_zpow_le hunits unitsPerOne_pos
  have hfine := units_lt_gaps hrank
  rw [shortest]
  generalize digitsBeforePoint (units rank) unitsPerOne = k at *
  cases hfound : (List.range 17).findSome? fun (n : Nat) => decimalAt? rank (k - (n + 1)) with
  | some d =>
    obtain ⟨n, -, hn⟩ := List.exists_of_findSome?_eq_some hfound
    exact rounds_of_decimalAt? hn
  | none =>
    -- seventeen digits are enough
    have hseventeen : decimalAt? rank (k - 17) = none := List.findSome?_eq_none_iff.mp hfound 16 (by decide)
    have hclose : 2 * unitsPerOne * (10 : ℚ) ^ (k - 17) < ((units (rank + 1) - units (rank - 1) : ℕ) : ℚ) := by
      have hsplit : (10 : ℚ) ^ (k - 1) = 10 ^ 16 * 10 ^ (k - 17) := by
        rw [← zpow_natCast, ← zpow_add₀ (by norm_num)]
        congr 1
        push_cast
        ring
      have hcast : ((2 * units rank : ℕ) : ℚ) < ((10 ^ 16 * (units (rank + 1) - units (rank - 1)) : ℕ) : ℚ) :=
        Nat.cast_lt.mpr hfine
      rw [hsplit] at hfirst
      rw [Nat.cast_mul, Nat.cast_mul] at hcast
      push_cast at hcast
      linarith
    obtain ⟨d, hd⟩ := exists_decimalAt? hrank hclose
    rw [hseventeen] at hd
    cases hd

/-! ## Reading decimals -/

section
variable {rank m : Nat} {e : Int}

theorem Rounds.pos (hrank : 0 < rank) (h : Rounds rank (m * 10 ^ e)) : 0 < m := by
  refine Nat.pos_of_ne_zero ?_
  rintro rfl
  have hlow := h.low
  have hunits : 0 < units rank := Nat.lt_of_le_of_lt (Nat.zero_le _) (units_strictMono hrank)
  have hcast : (0 : ℚ) < ((units (rank - 1) + units rank : ℕ) : ℚ) := Nat.cast_pos.mpr (by omega)
  rw [Nat.cast_zero, zero_mul, mul_zero] at hlow
  linarith

/-- What rounds to a positive magnitude is not too small. -/
theorem Rounds.le_magnitude (hrank : 0 < rank) (h : Rounds rank (m * 10 ^ e)) {n : Nat} (hn : 2 * unitsPerOne < 10 ^ n) :
    -(n : ℤ) ≤ (Nat.toDigits 10 m).length + e := by
  refine le_of_not_gt fun hsmall => ?_
  have hone : (0 : ℚ) < 2 * unitsPerOne := mul_pos two_pos (Nat.cast_pos.mpr unitsPerOne_pos)
  have hlow : (1 : ℚ) ≤ 2 * unitsPerOne * (m * 10 ^ e) := by
    have hunits : 0 < units rank := Nat.lt_of_le_of_lt (Nat.zero_le _) (units_strictMono hrank)
    have hcast : ((1 : ℕ) : ℚ) ≤ ((units (rank - 1) + units rank : ℕ) : ℚ) := Nat.cast_le.mpr (by omega)
    rw [Nat.cast_one] at hcast
    exact hcast.trans h.low
  have hvalue : (m * 10 ^ e : ℚ) < 10 ^ (-(n : ℤ)) :=
    calc (m * 10 ^ e : ℚ) < ((10 ^ (Nat.toDigits 10 m).length : ℕ) : ℚ) * 10 ^ e :=
          mul_lt_mul_of_pos_right (Nat.cast_lt.mpr (lt_ten_pow m)) (zpow_pos (by norm_num) e)
      _ = 10 ^ (((Nat.toDigits 10 m).length : ℤ) + e) := by
          rw [zpow_add₀ (by norm_num), zpow_natCast, Nat.cast_pow, Nat.cast_ofNat]
      _ ≤ 10 ^ (-(n : ℤ)) := zpow_le_zpow_right₀ (by norm_num) hsmall.le
  have hunit : 2 * (unitsPerOne : ℚ) * 10 ^ (-(n : ℤ)) < 1 := by
    have hcast : ((2 * unitsPerOne : ℕ) : ℚ) < ((10 ^ n : ℕ) : ℚ) := Nat.cast_lt.mpr hn
    push_cast at hcast
    rwa [zpow_neg, zpow_natCast, ← div_eq_mul_inv, div_lt_one (pow_pos (by norm_num) _)]
  have hless := mul_lt_mul_of_pos_left hvalue hone
  linarith

/-- What rounds to a finite magnitude is not too large. -/
theorem Rounds.magnitude_le (hrank : 0 < rank) (hlimit : rank < rankLimit) (h : Rounds rank (m * 10 ^ e)) {n : Nat}
    (hn : units rankLimit < unitsPerOne * 10 ^ n) : (Nat.toDigits 10 m).length + e ≤ n := by
  refine le_of_not_gt fun hlarge => ?_
  have hone : (0 : ℚ) < 2 * unitsPerOne := mul_pos two_pos (Nat.cast_pos.mpr unitsPerOne_pos)
  have hvalue : (10 : ℚ) ^ n ≤ m * 10 ^ e := by
    have hfirst : (((10 ^ ((Nat.toDigits 10 m).length - 1)) : ℕ) : ℚ) ≤ m := Nat.cast_le.mpr (ten_pow_le (h.pos hrank))
    have hlength : 0 < (Nat.toDigits 10 m).length := Nat.length_toDigits_pos
    calc (10 : ℚ) ^ n = 10 ^ (n : ℤ) := (zpow_natCast 10 n).symm
      _ ≤ 10 ^ ((((Nat.toDigits 10 m).length - 1 : ℕ) : ℤ) + e) := zpow_le_zpow_right₀ (by norm_num) (by omega)
      _ = (((10 ^ ((Nat.toDigits 10 m).length - 1)) : ℕ) : ℚ) * 10 ^ e := by
          rw [zpow_add₀ (by norm_num), zpow_natCast, Nat.cast_pow, Nat.cast_ofNat]
      _ ≤ m * 10 ^ e := mul_le_mul_of_nonneg_right hfirst (zpow_pos (by norm_num) e).le
  have hhigh : 2 * (unitsPerOne : ℚ) * (m * 10 ^ e) ≤ 2 * (units rankLimit : ℕ) := by
    refine h.high.trans ?_
    have hle : units (rank + 1) ≤ units rankLimit := units_strictMono.monotone hlimit
    have hlt : units rank < units (rank + 1) := units_strictMono (Nat.lt_succ_self rank)
    have hcast : ((units rank + units (rank + 1) : ℕ) : ℚ) ≤ ((2 * units rankLimit : ℕ) : ℚ) :=
      Nat.cast_le.mpr (by omega)
    push_cast at hcast ⊢
    exact hcast
  have hlimit' : ((units rankLimit : ℕ) : ℚ) < ((unitsPerOne * 10 ^ n : ℕ) : ℚ) := Nat.cast_lt.mpr hn
  push_cast at hlimit'
  have hless := mul_le_mul_of_nonneg_left hvalue hone.le
  linarith

/-- A decimal that rounds to a magnitude is read as it. -/
theorem ofDecimal_eq (negative : Bool) (hrank : 0 < rank) (hlimit : rank < rankLimit) (h : Rounds rank (m * 10 ^ e)) :
    ofDecimal negative m e = .finite negative ⟨rank, hlimit⟩ := by
  have hm := h.pos hrank
  have hsmall := h.le_magnitude hrank (n := 330) (by decide +kernel)
  have hlarge := h.magnitude_le hrank hlimit (n := 310) (by decide +kernel)
  obtain ⟨heq, hpos⟩ := rounds_scaled m e
  rw [heq, rounds_fraction_iff hpos] at h
  obtain ⟨hlow, hhigh, hodd⟩ := h
  have hnearest := nearestRank_eq hrank hpos hlow hhigh hodd
  rw [scaled, Nat.one_mul] at hnearest
  rw [ofDecimal, if_neg (by omega), if_neg (by omega), ofRatio, hnearest, ofRank, dif_pos hlimit]

end

/-! ## Texts -/

open Number Json

theorem exists_dropEndWhile (cs : List Char) :
    ∃ k, cs = Text.dropEndWhile (· = '0') cs ++ List.replicate k '0' := by
  refine ⟨(cs.reverse.takeWhile (· = '0')).length, ?_⟩
  have hzeros : (cs.reverse.takeWhile (· = '0')).reverse =
      List.replicate (cs.reverse.takeWhile (· = '0')).length '0' := by
    rw [List.eq_replicate_iff]
    refine ⟨List.length_reverse, fun c hc => ?_⟩
    simpa using List.mem_takeWhile_imp (List.mem_reverse.mp hc)
  rw [← hzeros, Text.dropEndWhile, ← List.reverse_append, List.takeWhile_append_dropWhile, List.reverse_reverse]

/-- The text starts with a digit that is not nought, and has only digits. -/
structure Leading (ds : List Char) : Prop where
  digits : Digits ds
  first : ∃ c cs, ds = c :: cs ∧ c ≠ '0'

theorem Leading.ne_nil {ds : List Char} (h : Leading ds) : ds ≠ [] := by
  obtain ⟨c, cs, rfl, -⟩ := h.first
  nofun

theorem Leading.whole {ds es : List Char} (h : Leading ds) (hes : Digits es) : Whole (ds ++ es) := by
  obtain ⟨c, cs, rfl, hc⟩ := h.first
  refine ⟨digits_append.mpr ⟨h.digits, hes⟩, nofun, fun rest hrest => ?_⟩
  exact absurd (List.cons.inj hrest).1 hc

theorem digitsAndPoint_value {d : Decimal} (hd : 0 < d.significand) : Leading (digitsAndPoint d).1 ∧
    (decimalValue (digitsAndPoint d).1 : ℚ) * 10 ^ ((digitsAndPoint d).2 - (digitsAndPoint d).1.length) = d.value := by
  obtain ⟨k, hk⟩ := exists_dropEndWhile (natText d.significand)
  obtain ⟨c, cs, hcs, hc⟩ := natText_of_pos hd
  have hdigits := digits_natText d.significand
  have hvalue := decimalValue_natText d.significand
  have hlength := congrArg List.length hk
  unfold digitsAndPoint
  dsimp only
  generalize Text.dropEndWhile (· = '0') (natText d.significand) = ds at *
  rw [hk, digits_append] at hdigits
  rw [hk, decimalValue_append hdigits.1 hdigits.2, decimalValue_replicate, List.length_replicate, Nat.add_zero] at hvalue
  rw [List.length_append, List.length_replicate] at hlength
  refine ⟨⟨hdigits.1, ?_⟩, ?_⟩
  · cases ds with
    | nil =>
      rw [hk, List.nil_append] at hcs
      have hmem : c ∈ List.replicate k '0' := hcs ▸ List.mem_cons_self ..
      exact absurd (List.mem_replicate.mp hmem).2 hc
    | cons c' ds =>
      rw [hk] at hcs
      exact ⟨c', ds, rfl, (List.cons.inj hcs).1 ▸ hc⟩
  · have hexp : ((natText d.significand).length : ℤ) + d.exponent - ds.length = k + d.exponent := by
      rw [hlength]
      push_cast
      ring
    rw [hexp, Decimal.value, ← hvalue, zpow_add₀ (by norm_num), zpow_natCast]
    push_cast
    ring

/-- The text is a numeral with a point or an exponent, and of this value. -/
def Writes (cs : List Char) (x : ℚ) : Prop :=
  ∃ n : Numeral, n.text = cs ∧ n.IsBroken ∧ (n.significand : ℚ) * 10 ^ n.power = x

section
variable {ds : List Char} (hds : Leading ds) (point : Int)
include hds

/-- Noughts between the point and the digits. -/
theorem writes_fraction (k : Nat) :
    Writes ('0' :: '.' :: List.replicate k '0' ++ ds) (decimalValue ds * 10 ^ (-(k : ℤ) - ds.length)) := by
  have hfraction : Digits (List.replicate k '0' ++ ds) := digits_append.mpr ⟨digits_replicate k, hds.digits⟩
  have hne : List.replicate k '0' ++ ds ≠ [] := by simp [hds.ne_nil]
  have hvalue : decimalValue (['0'] ++ (List.replicate k '0' ++ ds)) = decimalValue ds := by
    rw [← List.append_assoc, show ['0'] = List.replicate 1 '0' from rfl, ← List.replicate_add,
      decimalValue_append (digits_replicate _) hds.digits, decimalValue_replicate, Nat.zero_mul, Nat.zero_add]
  have hpower : (0 : ℤ) - (List.replicate k '0' ++ ds).length = -(k : ℤ) - ds.length := by
    rw [List.length_append, List.length_replicate]
    omega
  refine ⟨⟨['0'], _, none, whole_nought, hfraction, by simp⟩, ?_, Or.inl hne, ?_⟩
  · simp [Numeral.text, fractionText, exponentText, hds.ne_nil]
  · exact congrArg₂ (fun (m : ℕ) (e : ℤ) => (m : ℚ) * 10 ^ e) hvalue hpower

/-- Noughts between the digits and the point. -/
theorem writes_whole {n : Nat} (hle : ds.length ≤ n) :
    Writes (ds ++ List.replicate (n - ds.length) '0' ++ ['.', '0']) (decimalValue ds * 10 ^ ((n : ℤ) - ds.length)) := by
  have hvalue : decimalValue (ds ++ List.replicate (n - ds.length) '0' ++ ['0']) =
      decimalValue ds * 10 ^ (n - ds.length + 1) := by
    rw [List.append_assoc, ← List.replicate_succ', decimalValue_append hds.digits (digits_replicate _),
      decimalValue_replicate, List.length_replicate, Nat.add_zero]
  have hexp : (n : ℤ) - ds.length = ((n - ds.length + 1 : ℕ) : ℤ) + -1 := by omega
  refine ⟨⟨_, ['0'], none, hds.whole (digits_replicate (n - ds.length)), digits_natText 0, by simp⟩, ?_,
    Or.inl (by simp), ?_⟩
  · simp [Numeral.text, fractionText, exponentText]
  · show (decimalValue (ds ++ List.replicate (n - ds.length) '0' ++ ['0']) : ℚ) * 10 ^ (-1 : ℤ) = _
    rw [hvalue, hexp, zpow_add₀ (by norm_num), zpow_natCast]
    push_cast
    ring

/-- The point among the digits. -/
theorem writes_mixed {n : Nat} (hpos : 0 < n) (hlt : n < ds.length) :
    Writes (ds.take n ++ '.' :: ds.drop n) (decimalValue ds * 10 ^ ((n : ℤ) - ds.length)) := by
  have htake : Leading (ds.take n) := by
    refine ⟨fun c hc => hds.digits c (List.mem_of_mem_take hc), ?_⟩
    obtain ⟨c, cs, rfl, hc⟩ := hds.first
    obtain ⟨k, rfl⟩ : ∃ k, n = k + 1 := ⟨n - 1, by omega⟩
    exact ⟨c, cs.take k, rfl, hc⟩
  have hwhole : Whole (ds.take n) := by simpa using htake.whole digits_nil
  have hfraction : Digits (ds.drop n) := fun c hc => hds.digits c (List.mem_of_mem_drop hc)
  have hpower : (0 : ℤ) - (ds.drop n).length = n - ds.length := by
    rw [List.length_drop]
    omega
  refine ⟨⟨_, _, none, hwhole, hfraction, by simp⟩, ?_, Or.inl (by simpa using hlt), ?_⟩
  · simp [Numeral.text, fractionText, exponentText, hlt]
  · exact congrArg₂ (fun (m : List Char) (e : ℤ) => (decimalValue m : ℚ) * 10 ^ e) (List.take_append_drop n ds) hpower

theorem writes_positional : Writes (positional ds point) (decimalValue ds * 10 ^ (point - ds.length)) := by
  unfold positional
  split
  · rename_i hle
    obtain ⟨k, hk⟩ := Int.eq_ofNat_of_zero_le (show 0 ≤ -point by omega)
    obtain rfl : point = -(k : ℤ) := by omega
    rw [hk, Int.toNat_natCast]
    exact writes_fraction hds k
  · rename_i hpos
    obtain ⟨n, rfl⟩ := Int.eq_ofNat_of_zero_le (show 0 ≤ point by omega)
    dsimp only [Int.toNat_natCast]
    split
    · rename_i hle
      exact writes_whole hds hle
    · exact writes_mixed hds (by omega) (by omega)

theorem writes_exponential : Writes (exponential ds point) (decimalValue ds * 10 ^ (point - ds.length)) := by
  obtain ⟨c, cs, rfl, hc⟩ := hds.first
  obtain ⟨hdigit, hcs⟩ := digits_cons.mp hds.digits
  have hwhole : Whole [c] := ⟨digits_cons.mpr ⟨hdigit, digits_nil⟩, nofun, fun rest hrest => (List.cons.inj hrest).2.symm⟩
  generalize hes : List.replicate (2 - (natText (point - 1).natAbs).length) '0' ++ natText (point - 1).natAbs = es
  have hexponent : Digits es ∧ es ≠ [] := by
    subst hes
    exact ⟨digits_append.mpr ⟨digits_replicate _, digits_natText _⟩, by simp [natText_ne_nil]⟩
  have hvalue : applySign (decide (point - 1 < 0)) (decimalValue es) = point - 1 := by
    have habs : decimalValue es = (point - 1).natAbs := by
      rw [← hes, decimalValue_append (digits_replicate _) (digits_natText _), decimalValue_replicate,
        decimalValue_natText, Nat.zero_mul, Nat.zero_add]
    rw [habs, applySign]
    by_cases hneg : point - 1 < 0
    · rw [if_pos (by simpa using hneg)]
      omega
    · rw [if_neg (by simpa using hneg)]
      omega
  refine ⟨⟨[c], cs, some (decide (point - 1 < 0), es), hwhole, hcs, ?_⟩, ?_, Or.inr (by simp), ?_⟩
  · rintro e ⟨⟩
    exact hexponent
  · subst hes
    cases cs <;> simp [Numeral.text, exponential, exponentText, fractionText]
  · have hpower : applySign (decide (point - 1 < 0)) (decimalValue es) - cs.length = point - (c :: cs).length := by
      rw [hvalue, List.length_cons]
      push_cast
      ring
    exact congrArg (fun (e : ℤ) => (decimalValue (c :: cs) : ℚ) * 10 ^ e) hpower

end

/-! ## Magnitudes -/

variable {rank : Nat}

/-- A positive magnitude is written as a numeral that stands for a number that rounds to it. -/
theorem writes_magnitudeText (hrank : 0 < rank) : ∃ x, Writes (magnitudeText rank) x ∧ Rounds rank x := by
  have hrounds := rounds_shortest hrank
  have hsignificand : 0 < (shortest rank).significand := hrounds.pos hrank
  obtain ⟨hleading, hvalue⟩ := digitsAndPoint_value hsignificand
  refine ⟨_, ?_, hrounds⟩
  rw [magnitudeText, if_neg hrank.ne', ← hvalue]
  generalize digitsAndPoint (shortest rank) = written at *
  obtain ⟨ds, point⟩ := written
  dsimp only
  split
  · exact writes_positional hleading point
  · exact writes_exponential hleading point

/-- Every finite number is written, up to its sign, as a numeral that is read as it. -/
theorem exists_numeral (hlimit : rank < rankLimit) : ∃ n : Numeral, n.text = magnitudeText rank ∧ n.IsBroken ∧
    ∀ negative, ofDecimal negative n.significand n.power = .finite negative ⟨rank, hlimit⟩ := by
  rcases Nat.eq_zero_or_pos rank with rfl | hrank
  · refine ⟨⟨['0'], ['0'], none, whole_nought, digits_natText 0, by simp⟩, rfl, Or.inl (by simp), fun negative => ?_⟩
    have hsignificand : decimalValue (['0'] ++ ['0']) = 0 := decimalValue_replicate 2
    rw [Numeral.significand, hsignificand, ofDecimal, if_pos (Or.inl rfl), zero, ofRank, dif_pos hlimit]
  · obtain ⟨x, ⟨n, htext, hbroken, rfl⟩, hrounds⟩ := writes_magnitudeText hrank
    exact ⟨n, htext, hbroken, fun negative => ofDecimal_eq negative hrank hlimit hrounds⟩

end Reshape.Double
