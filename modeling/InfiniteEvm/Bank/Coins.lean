import Mathlib.Algebra.Order.Ring.Int
import Mathlib.Data.List.Basic

/-!
# Coins

The coins of the Cosmos SDK, as far as the keepers of this repository use them. A valid
list of coins has positive amounts of distinct denoms in increasing order.
-/

namespace InfiniteEvm

open List

/-- `ValidateDenom`, with the expression the SDK is configured with by default. -/
def validateDenom (denom : String) : Bool :=
  match denom.toList with
  | [] => false
  | first :: rest =>
    first.isAlpha && 2 ≤ rest.length && rest.length ≤ 127 &&
      rest.all fun c => c.isAlphanum || ['/', ':', '.', '_', '-'].contains c

/-- `Coin`: a denom and an amount. -/
abbrev Coin := String × Int

/-- `Coins`. -/
abbrev Coins := List Coin

/-- The text of a coin. -/
def Coin.text (coin : Coin) : String := toString coin.2 ++ coin.1

namespace Coins

variable {coins : Coins} {denom d : String}

/-- The text of a list of coins. -/
def text (coins : Coins) : String := ",".intercalate (coins.map Coin.text)

/-- `AmountOf`, zero for a denom that is not there. -/
def amountOf (coins : Coins) (denom : String) : Int := (coins.lookup denom).getD 0

/-- `IsValid`. -/
def isValid (coins : Coins) : Bool :=
  coins.all (fun coin => validateDenom coin.1 && 0 < coin.2) &&
    decide (coins.Pairwise fun coin coin' => coin.1 < coin'.1)

/-- `IsAllPositive`. -/
def isAllPositive (coins : Coins) : Bool := !coins.isEmpty && coins.all fun coin => 0 < coin.2

/-- The coins left by `Sub` of all there is of one denom. -/
def without (coins : Coins) (denom : String) : Coins := coins.filter fun coin => coin.1 ≠ denom

@[simp] theorem amountOf_nil (denom : String) : amountOf [] denom = 0 := rfl

theorem amountOf_cons (coin : Coin) (coins : Coins) (denom : String) :
    amountOf (coin :: coins) denom = if denom = coin.1 then coin.2 else amountOf coins denom := by
  obtain ⟨denom', amount⟩ := coin
  by_cases h : denom = denom'
  · simp [amountOf, h]
  · have hne : (denom == denom') = false := beq_false_of_ne h
    simp [amountOf, lookup_cons, h, hne]

@[simp] theorem amountOf_singleton (denom d : String) (amount : Int) :
    amountOf [(denom, amount)] d = if d = denom then amount else 0 := by
  simp [amountOf_cons]

theorem isValid_iff : coins.isValid = true ↔
    (∀ coin ∈ coins, validateDenom coin.1 = true ∧ 0 < coin.2) ∧
      coins.Pairwise fun coin coin' => coin.1 < coin'.1 := by
  simp [isValid]

theorem isValid_singleton {amount : Int} (hd : validateDenom denom = true) (ha : 0 < amount) :
    isValid [(denom, amount)] = true := by
  simp [isValid_iff, hd, ha]

theorem isValid_without (h : coins.isValid = true) (denom : String) :
    (coins.without denom).isValid = true := by
  rw [isValid_iff] at h ⊢
  refine ⟨?_, h.2.filter _⟩
  intro coin hcoin
  exact h.1 coin (mem_filter.mp hcoin).1

theorem amountOf_nonneg (h : coins.isValid = true) (denom : String) : 0 ≤ coins.amountOf denom := by
  unfold amountOf
  cases hl : coins.lookup denom with
  | none => simp
  | some amount =>
    obtain ⟨before, after, rfl, -⟩ := lookup_eq_some_iff.mp hl
    exact ((isValid_iff.mp h).1 (denom, amount) (by simp)).2.le

theorem amountOf_of_mem (h : coins.isValid = true) {coin : Coin} (hcoin : coin ∈ coins) :
    coins.amountOf coin.1 = coin.2 := by
  induction coins with
  | nil => simp at hcoin
  | cons first rest ih =>
    rw [isValid_iff, pairwise_cons] at h
    rw [amountOf_cons]
    rcases mem_cons.mp hcoin with rfl | hmem
    · rw [if_pos rfl]
    · have hne : coin.1 ≠ first.1 := by
        intro heq
        have hlt := h.2.1 coin hmem
        rw [heq] at hlt
        exact String.lt_irrefl _ hlt
      rw [if_neg hne]
      refine ih (isValid_iff.mpr ⟨?_, h.2.2⟩) hmem
      exact fun c hc => h.1 c (mem_cons_of_mem _ hc)

end Coins

end InfiniteEvm
