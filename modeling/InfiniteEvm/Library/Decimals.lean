import Mathlib.Algebra.Order.Ring.Int
import Mathlib.Tactic.Ring

/-!
# Decimals with 18 places

Numbers are kept as integer multiples of `10 ^ -18`. A product is rounded to the nearest
such number, to an even one in the middle, and is refused above 315 bits. Products with
integers are exact, and truncation is monotone, so that it passes through a maximum.
-/

namespace InfiniteEvm.Library.Decimals

variable (n : Int)

/-- A number, in units of `10 ^ -18`. -/
structure Dec where
  units : Int
  deriving DecidableEq

/-- The units of one. -/
def precision : Int := 10 ^ 18

theorem precision_pos : 0 < precision := by decide

namespace Dec

/-- An integer. -/
def ofInt (n : Int) : Dec := ⟨n * precision⟩

/-- Divide by `precision`, rounding half to even. -/
def chopNat (n : Nat) : Nat :=
  let quo := n / 10 ^ 18
  let rem := n % 10 ^ 18
  if rem < 5 * 10 ^ 17 then quo
  else if 5 * 10 ^ 17 < rem then quo + 1
  else if quo % 2 = 0 then quo
  else quo + 1

/-- The same for integers, on the absolute value. -/
def chop (n : Int) : Int := if n < 0 then -(chopNat n.natAbs : Int) else chopNat n.natAbs

/-- The product, if it has at most 315 bits. -/
def mul (a b : Dec) : Option Dec :=
  let chopped := chop (a.units * b.units)
  if chopped.natAbs < 2 ^ 315 then some ⟨chopped⟩ else none

/-- The product with an integer, if it has at most 315 bits. -/
def mulInt (d : Dec) (n : Int) : Option Dec :=
  if (d.units * n).natAbs < 2 ^ 315 then some ⟨d.units * n⟩ else none

/-- The quotient by an integer, rounded to zero. -/
def quoInt (d : Dec) (n : Int) : Option Dec := if n = 0 then none else some ⟨d.units.tdiv n⟩

/-- The sum, if it has at most 315 bits. -/
def add (a b : Dec) : Option Dec :=
  if (a.units + b.units).natAbs < 2 ^ 315 then some ⟨a.units + b.units⟩ else none

/-- The difference, if it has at most 315 bits. -/
def sub (a b : Dec) : Option Dec :=
  if (a.units - b.units).natAbs < 2 ^ 315 then some ⟨a.units - b.units⟩ else none

/-- The integer part. -/
def truncate (d : Dec) : Int := d.units.tdiv precision

/-- The next integer that is not smaller, if it has at most 315 bits. -/
def ceil (d : Dec) : Option Dec :=
  let n := if 0 < d.units.tmod precision then d.truncate + 1 else d.truncate
  if (n * precision).natAbs < 2 ^ 315 then some (ofInt n) else none

/-- The nearest integer, if it has at most 256 bits. -/
def roundInt (d : Dec) : Option Int :=
  if (chop d.units).natAbs < 2 ^ 256 then some (chop d.units) else none

/-- The larger number. -/
def max (a b : Dec) : Dec := if a.units < b.units then b else a

/-- The number with its 18 places. -/
def text (d : Dec) : String :=
  let places := toString (d.units.natAbs % 10 ^ 18)
  (if d.units < 0 then "-" else "") ++ toString (d.units.natAbs / 10 ^ 18) ++ "." ++
    String.ofList (List.replicate (18 - places.length) '0') ++ places

theorem units_max (a b : Dec) : (max a b).units = Max.max a.units b.units := by
  unfold max
  split <;> omega

theorem chopNat_mul (n : Nat) : chopNat (n * 10 ^ 18) = n := by
  have hrem : n * 10 ^ 18 % 10 ^ 18 = 0 := Nat.mul_mod_left n _
  have hquo : n * 10 ^ 18 / 10 ^ 18 = n := Nat.mul_div_cancel n (by decide)
  simp only [chopNat, hrem, hquo]
  rfl

theorem chop_mul_precision : chop (n * precision) = n := by
  have habs : (n * precision).natAbs = n.natAbs * 10 ^ 18 := Int.natAbs_mul n precision
  have hneg : n * precision < 0 ↔ n < 0 := by
    unfold precision
    omega
  unfold chop
  rw [habs, chopNat_mul]
  split <;> omega

/-- A product with an integer is exact. -/
theorem ofInt_mul {n : Int} {d e : Dec} (h : (ofInt n).mul d = some e) : e.units = n * d.units := by
  have hprod : n * precision * d.units = n * d.units * precision := by ring
  simp only [mul, ofInt, hprod, chop_mul_precision] at h
  split at h
  · cases h
    rfl
  · cases h

theorem ofInt_mul_some {n : Int} {d : Dec} (h : (n * d.units).natAbs < 2 ^ 315) :
    ∃ e, (ofInt n).mul d = some e := by
  have hprod : n * precision * d.units = n * d.units * precision := by ring
  simp only [mul, ofInt, hprod, chop_mul_precision]
  exact ⟨_, if_pos h⟩

theorem mul_ofInt (d : Dec) (n : Int) : d.mul (ofInt n) =
    if (d.units * n).natAbs < 2 ^ 315 then some ⟨d.units * n⟩ else none := by
  have hprod : d.units * (n * precision) = d.units * n * precision := by ring
  simp only [mul, ofInt, hprod, chop_mul_precision]

theorem truncate_ofInt : (ofInt n).truncate = n :=
  Int.mul_tdiv_cancel n precision_pos.ne'

theorem truncate_of_nonneg {d : Dec} (h : 0 ≤ d.units) : d.truncate = d.units / precision :=
  Int.tdiv_eq_ediv_of_nonneg h

theorem truncate_max {a b : Dec} (ha : 0 ≤ a.units) (hb : 0 ≤ b.units) :
    (max a b).truncate = Max.max a.truncate b.truncate := by
  rw [truncate_of_nonneg ha, truncate_of_nonneg hb]
  unfold max
  split
  · rename_i hlt
    rw [truncate_of_nonneg hb, max_eq_right]
    exact Int.ediv_le_ediv precision_pos hlt.le
  · rename_i hle
    rw [truncate_of_nonneg ha, max_eq_left]
    exact Int.ediv_le_ediv precision_pos (not_lt.mp hle)

/-- Truncation also passes through the maximum of an integer and a number that is not negative. -/
theorem truncate_ofInt_max {b : Dec} (hb : 0 ≤ b.units) :
    (max (ofInt n) b).truncate = Max.max n b.truncate := by
  by_cases hn : 0 ≤ n
  · have hunits : 0 ≤ (ofInt n).units := mul_nonneg hn precision_pos.le
    rw [truncate_max hunits hb, truncate_ofInt]
  · have hneg : (ofInt n).units < b.units := by
      have : (ofInt n).units < 0 := mul_neg_of_neg_of_pos (not_le.mp hn) precision_pos
      omega
    have htrunc : 0 ≤ b.truncate := by
      rw [truncate_of_nonneg hb]
      exact Int.ediv_nonneg hb precision_pos.le
    rw [max, if_pos hneg, max_eq_right (by omega)]

theorem roundInt_ofInt : (ofInt n).roundInt = if n.natAbs < 2 ^ 256 then some n else none := by
  simp only [roundInt, ofInt, chop_mul_precision]

/-- An integer is not below a number exactly if it is not below its ceiling. -/
theorem roundInt_ceil {d c : Dec} {n : Int} (hd : 0 ≤ d.units) (hc : d.ceil = some c)
    (h : c.roundInt = some n) (m : Int) : n ≤ m ↔ d.units ≤ m * precision := by
  have hquo : d.truncate = d.units / precision := truncate_of_nonneg hd
  have hrem : d.units.tmod precision = d.units % precision := Int.tmod_eq_emod_of_nonneg hd
  unfold ceil at hc
  rw [hquo, hrem, Option.ite_none_right_eq_some] at hc
  obtain ⟨-, hc⟩ := hc
  rw [← Option.some.inj hc, roundInt_ofInt, Option.ite_none_right_eq_some] at h
  have hn := Option.some.inj h.2
  unfold precision at hn ⊢
  split at hn <;> omega

/-- A price and a multiple of it are not above the same integers, unless they are equal or both
at most one. -/
theorem multiples_above_iff {a c : Int} (ha : 0 ≤ a) (hc : 0 < c) :
    (∀ n : Nat, a ≤ n * precision ↔ a * c ≤ n * precision) ↔
      c = 1 ∨ a = 0 ∨ a * c ≤ precision := by
  have hle : a ≤ a * c := le_mul_of_one_le_right ha hc
  constructor
  · intro h
    by_contra hnot
    obtain ⟨hone, hzero, hlarge⟩ : c ≠ 1 ∧ a ≠ 0 ∧ ¬ a * c ≤ precision := by tauto
    -- the least integer that is not below the price
    have hceil := (h ((a + precision - 1) / precision).toNat).mp (by unfold precision; omega)
    have hdouble : a * 2 ≤ a * c := mul_le_mul_of_nonneg_left (by omega) ha
    unfold precision at hceil hlarge
    omega
  · rintro (rfl | rfl | hsmall) n
    · rw [mul_one]
    · rw [zero_mul]
    · unfold precision at hsmall ⊢
      constructor
      · intro hn
        by_cases hn0 : n = 0
        · obtain rfl : a = 0 := by omega
          omega
        · omega
      · omega

end Dec

end InfiniteEvm.Library.Decimals
