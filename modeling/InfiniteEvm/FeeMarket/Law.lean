import InfiniteEvm.FeeMarket.BaseFee
import Mathlib.Data.Int.Order.Lemmas

/-!
# The law of EIP-1559

`CalcGasBaseFee` divides twice, with 18 decimals, what the rule of EIP-1559 divides twice as
integers. One division by the product explains both.
-/

namespace InfiniteEvm.FeeMarket

open Library Decimals Outcomes Dec

/-- The base fee that `CalcGasBaseFee` returns for a target above zero, as numbers of units. -/
def gasBaseFee (gasUsed gasTarget denom : Nat) (baseFee minUnitGas minGasPrice : Int) : Int :=
  if gasUsed = gasTarget then baseFee
  else
    let num := ((gasUsed : Int) - gasTarget).natAbs * baseFee / (gasTarget * denom)
    if gasTarget < gasUsed then baseFee + max num minUnitGas
    else max (baseFee - num) minGasPrice

variable {gasUsed gasTarget denom : Nat} {baseFee minUnitGas minGasPrice : Dec}

/-- Unless a number has more than 315 bits, `CalcGasBaseFee` returns. -/
theorem calcGasBaseFee_eq (htarget : 0 < gasTarget) (hdenom : 0 < denom) (hfee : 0 ≤ baseFee.units)
    (hfits : calcGasBaseFee gasUsed gasTarget denom baseFee minUnitGas (some minGasPrice) ≠
      .error "Int overflow") :
    calcGasBaseFee gasUsed gasTarget denom baseFee minUnitGas (some minGasPrice) = .ok
      ⟨gasBaseFee gasUsed gasTarget denom baseFee.units minUnitGas.units minGasPrice.units⟩ := by
  unfold calcGasBaseFee gasBaseFee at *
  by_cases hequal : gasUsed = gasTarget
  · simp only [if_pos hequal]
  simp only [if_neg hequal, if_neg htarget.ne'] at hfits ⊢
  generalize ((gasUsed : Int) - gasTarget).natAbs = delta at *
  cases hmul : (ofInt delta).mul baseFee with
  | none => exact absurd (by rw [hmul]; rfl) hfits
  | some product =>
    have hnum : (product.units.tdiv gasTarget).tdiv denom =
        delta * baseFee.units / (gasTarget * denom) := by
      have hpos : 0 ≤ delta * baseFee.units := mul_nonneg (Int.natCast_nonneg delta) hfee
      rw [ofInt_mul hmul, Int.tdiv_eq_ediv_of_nonneg hpos, Int.tdiv_eq_ediv_of_nonneg
        (Int.ediv_nonneg hpos (Int.natCast_nonneg _)),
        Int.ediv_ediv_of_nonneg (Int.natCast_nonneg _)]
    rw [hmul] at hfits
    simp only [orPanic, Except.bind, quoInt, Int.natCast_eq_zero, htarget.ne', hdenom.ne',
      if_false, hnum, add, sub, units_max] at hfits ⊢
    by_cases hmore : gasTarget < gasUsed
    · split_ifs at hfits ⊢ with hroom
      · rfl
      · exact absurd rfl hfits
    · split_ifs at hfits ⊢ with hroom
      · exact congrArg Except.ok (congrArg mk (units_max ..))
      · exact absurd rfl hfits

/-- More gas in the parent does not lower the base fee. -/
theorem gasBaseFee_mono {used used' : Nat} {fee unit price : Int} (htarget : 0 < gasTarget)
    (hdenom : 0 < denom) (hfee : 0 ≤ fee) (hfloor : price ≤ fee) (hunit : 0 ≤ unit)
    (hle : used ≤ used') : gasBaseFee used gasTarget denom fee unit price ≤
      gasBaseFee used' gasTarget denom fee unit price := by
  have hprod : (0 : Int) < gasTarget * denom := by exact_mod_cast Nat.mul_pos htarget hdenom
  have hnonneg : ∀ n : Nat, 0 ≤ n * fee / (gasTarget * denom) := fun n =>
    Int.ediv_nonneg (mul_nonneg (Int.natCast_nonneg n) hfee) hprod.le
  have hmono : ∀ {m n : Nat}, m ≤ n →
      m * fee / (gasTarget * denom) ≤ n * fee / (gasTarget * denom) := fun hmn =>
    Int.ediv_le_ediv hprod (mul_le_mul_of_nonneg_right (by exact_mod_cast hmn) hfee)
  have hused := hnonneg ((used : Int) - gasTarget).natAbs
  have hrise := @hmono ((used : Int) - gasTarget).natAbs ((used' : Int) - gasTarget).natAbs
  have hfall := @hmono ((used' : Int) - gasTarget).natAbs ((used : Int) - gasTarget).natAbs
  simp only [gasBaseFee]
  split_ifs <;> omega

/-- The law of EIP-1559. -/
theorem calcGasBaseFee_law (htarget : 0 < gasTarget) (hdenom : 0 < denom)
    (hprice : 0 ≤ minGasPrice.units) (hfloor : minGasPrice.units ≤ baseFee.units)
    (hunit : 0 ≤ minUnitGas.units) :
    calcGasBaseFee gasTarget gasTarget denom baseFee minUnitGas (some minGasPrice) = .ok baseFee ∧
    ∀ gasUsed,
      calcGasBaseFee gasUsed gasTarget denom baseFee minUnitGas (some minGasPrice) ≠
        .error "Int overflow" →
      ∃ fee, calcGasBaseFee gasUsed gasTarget denom baseFee minUnitGas (some minGasPrice) =
          .ok fee ∧ minGasPrice.units ≤ fee.units ∧
        (∀ gasUsed' fee', gasUsed ≤ gasUsed' →
          calcGasBaseFee gasUsed' gasTarget denom baseFee minUnitGas (some minGasPrice) =
            .ok fee' → fee.units ≤ fee'.units) ∧
        ∀ n : Int, baseFee = .ofInt n → minUnitGas = .ofInt 1 → minGasPrice = .ofInt 0 →
          (gasTarget < gasUsed →
            fee.truncate = n + max 1 (n * (gasUsed - gasTarget) / gasTarget / denom)) ∧
          (gasUsed < gasTarget →
            fee.truncate = n - n * (gasTarget - gasUsed) / gasTarget / denom ∨
              fee.truncate = n - n * (gasTarget - gasUsed) / gasTarget / denom - 1) := by
  have hfee := hprice.trans hfloor
  refine ⟨if_pos rfl, fun gasUsed hfits => ⟨_, calcGasBaseFee_eq htarget hdenom hfee hfits, ?_, ?_,
    ?_⟩⟩
  · exact calcGasBaseFee_floor hfloor hunit (fun hzero => absurd hzero htarget.ne')
      (calcGasBaseFee_eq htarget hdenom hfee hfits)
  · intro gasUsed' fee' hle h
    rw [calcGasBaseFee_eq htarget hdenom hfee (by rw [h]; nofun)] at h
    cases h
    exact gasBaseFee_mono htarget hdenom hfee hfloor hunit hle
  · rintro n rfl rfl rfl
    have hn : 0 ≤ n := nonneg_of_mul_nonneg_left hfee precision_pos
    have hprod : (0 : Int) ≤ gasTarget * denom := by exact_mod_cast Nat.zero_le _
    generalize hdelta : ((gasUsed : Int) - gasTarget).natAbs = delta
    have hnum : delta * (n * precision) / (gasTarget * denom) / precision =
        n * delta / gasTarget / denom := by
      rw [Int.ediv_ediv_of_nonneg hprod, Int.ediv_ediv_of_nonneg (Int.natCast_nonneg _),
        ← mul_assoc, Int.mul_ediv_mul_of_pos_left _ _ precision_pos, mul_comm]
    simp only [gasBaseFee, hdelta]
    refine ⟨fun hmore => ?_, fun hless => ?_⟩
    · rw [if_neg hmore.ne', if_pos hmore, show (gasUsed : Int) - gasTarget = delta by omega, ← hnum,
        truncate_of_nonneg]
      all_goals
        simp only [ofInt, precision]
        omega
    · rw [if_neg hless.ne, if_neg hless.not_gt, show (gasTarget : Int) - gasUsed = delta by omega,
        ← hnum, truncate_of_nonneg]
      · have hsmall : delta * (n * precision) / (gasTarget * denom) ≤ n * precision := by
          have hle : (delta : Int) ≤ gasTarget * denom := by
            have htimes := Nat.le_mul_of_pos_right gasTarget hdenom
            exact_mod_cast (show delta ≤ gasTarget by omega).trans htimes
          refine Int.ediv_le_of_le_mul (by exact_mod_cast Nat.mul_pos htarget hdenom) ?_
          rw [mul_comm]
          exact mul_le_mul_of_nonneg_left hle hfee
        simp only [ofInt, precision] at hsmall ⊢
        omega
      · simp only [ofInt]
        omega

/-- Parents that used their target, twice of it, and half. -/
theorem calcGasBaseFee_law_thousand :
    calcGasBaseFee 100 100 8 (.ofInt 1000) (.ofInt 1) (some (.ofInt 0)) = .ok (.ofInt 1000) ∧
    (∃ fee, calcGasBaseFee 200 100 8 (.ofInt 1000) (.ofInt 1) (some (.ofInt 0)) = .ok fee ∧
      fee.truncate = 1125) ∧
    calcGasBaseFee 50 100 8 (.ofInt 1000) (.ofInt 1) (some (.ofInt 0)) =
      .ok ⟨9375 * 10 ^ 17⟩ := by
  obtain ⟨hequal, hlaw⟩ := @calcGasBaseFee_law 100 8 (.ofInt 1000) (.ofInt 1) (.ofInt 0)
    (by decide) (by decide) (by decide) (by decide) (by decide)
  obtain ⟨fee, hfee, -, -, hrule⟩ := hlaw 200 (by decide +kernel)
  refine ⟨hequal, ⟨fee, hfee, ?_⟩, by decide +kernel⟩
  rw [(hrule 1000 rfl rfl rfl).1 (by decide)]
  rfl

end InfiniteEvm.FeeMarket
