import InfiniteEvm.Library.MixedRadix
import InfiniteEvm.PreciseBank.Keeper
import Mathlib.Algebra.Group.Pi.Basic

/-!
# The backing of the fractions

The integer coins of the reserve are worth the fractions of all accounts and the
remainder. The parts of the operations that touch the store of the keeper and `x/bank`
are described here, each by what it does and when it fails.
-/

namespace InfiniteEvm.PreciseBank

open Library Outcomes MixedRadix FMap Coins State
open Std (ExtTreeMap)

variable {σ : Type} {p : Prop} {acc : ModuleAccount}

namespace Keeper

variable {k : Keeper σ} {s : State σ} {a b : AccAddress} {n x m : Int}

theorem conversionFactor_pos (k : Keeper σ) : 0 < k.conversionFactor :=
  k.info.conversionFactor_pos

/-- The integer coins of an account. -/
def integerBalance (k : Keeper σ) (s : State σ) (a : AccAddress) : Int :=
  k.bk.getBalance s.bank a k.integerCoinDenom

/-- What the coins of an account are worth in extended units. -/
def extendedBalance (k : Keeper σ) (s : State σ) (a : AccAddress) : Int :=
  k.integerBalance s a * k.conversionFactor + s.getFractionalBalance a

/-- What the coins in circulation are worth in extended units. -/
def circulating (k : Keeper σ) (s : State σ) : Int :=
  k.bk.getSupply s.bank k.integerCoinDenom * k.conversionFactor - s.getRemainderAmount

/-- The fractions and the remainder are less than an integer coin. -/
structure Bounded (k : Keeper σ) (s : State σ) : Prop where
  fractions : ∀ (a : AccAddress) (f : Int), s.fractionalBalances[a]? = some f →
    0 < f ∧ f < k.conversionFactor
  remainder : 0 ≤ s.getRemainderAmount ∧ s.getRemainderAmount < k.conversionFactor

/-- The integer coins of the reserve back all fractions and the remainder. -/
structure Backed (k : Keeper σ) (s : State σ) : Prop extends k.Bounded s where
  backing : k.integerBalance s k.reserve.address * k.conversionFactor =
    s.getTotalSumFractionalBalances + s.getRemainderAmount

theorem Backed.fraction (h : k.Backed s) (a : AccAddress) :
    0 ≤ s.getFractionalBalance a ∧ s.getFractionalBalance a < k.conversionFactor := by
  unfold getFractionalBalance entry
  cases hf : s.fractionalBalances[a]? with
  | none => exact ⟨le_refl 0, k.conversionFactor_pos⟩
  | some f => exact ⟨(h.fractions a f hf).1.le, (h.fractions a f hf).2⟩

/-- Fractions and a remainder that make up a unit are backed by an integer coin. -/
theorem Backed.reserve_pos (h : k.Backed s)
    (hle : k.conversionFactor ≤ s.getTotalSumFractionalBalances + s.getRemainderAmount) :
    1 ≤ k.integerBalance s k.reserve.address := by
  have hpos := k.conversionFactor_pos
  by_contra hlt
  have hle' : k.integerBalance s k.reserve.address * k.conversionFactor ≤ 0 :=
    mul_nonpos_of_nonpos_of_nonneg (by omega) hpos.le
  rw [h.backing] at hle'
  omega

theorem Backed.reserve_of_two (h : k.Backed s) (hab : a ≠ b)
    (hle : k.conversionFactor ≤ s.getFractionalBalance a + s.getFractionalBalance b) :
    1 ≤ k.integerBalance s k.reserve.address := by
  have htwo : s.getFractionalBalance a + s.getFractionalBalance b ≤
      s.getTotalSumFractionalBalances := by
    have hsum := sum_entry_le_total s.fractionalBalances (fun c => (h.fraction c).1) {a, b}
    rw [Finset.sum_pair hab] at hsum
    exact hsum
  have hrem := h.remainder
  exact h.reserve_pos (by omega)

theorem Backed.reserve_of_one (h : k.Backed s)
    (hle : k.conversionFactor ≤ s.getFractionalBalance a + s.getRemainderAmount) :
    1 ≤ k.integerBalance s k.reserve.address := by
  have hone : s.getFractionalBalance a ≤ s.getTotalSumFractionalBalances := by
    have hsum := sum_entry_le_total s.fractionalBalances (fun c => (h.fraction c).1) {a}
    rw [Finset.sum_singleton] at hsum
    exact hsum
  exact h.reserve_pos (by omega)

/-! ## Fractions -/

/-- The fractions with one of them set. -/
def setFraction (m : FMap AccAddress Int) (a : AccAddress) (x : Int) : FMap AccAddress Int :=
  if x = 0 then m.erase a else m.insert a x

theorem getElem?_setFraction (m : FMap AccAddress Int) (a b : AccAddress) (x : Int) :
    (setFraction m a x)[b]? = if b = a then (if x = 0 then none else some x) else m[b]? := by
  unfold setFraction
  by_cases hx : x = 0
  · by_cases hb : b = a
    · simp [hx, hb]
    · have hne : ¬ a = b := fun h => hb h.symm
      simp [hx, hb, ExtTreeMap.getElem?_erase, hne]
  · by_cases hb : b = a
    · simp [hx, hb]
    · have hne : ¬ a = b := fun h => hb h.symm
      simp [hx, hb, ExtTreeMap.getElem?_insert, hne]

theorem entry_setFraction (m : FMap AccAddress Int) (a b : AccAddress) (x : Int) :
    entry (setFraction m a x) b = if b = a then x else entry m b := by
  unfold entry
  rw [getElem?_setFraction]
  by_cases hb : b = a
  · by_cases hx : x = 0 <;> simp [hb, hx]
  · simp [hb]

theorem total_setFraction (m : FMap AccAddress Int) (a : AccAddress) (x : Int) :
    total (setFraction m a x) = total m - entry m a + x := by
  rw [total_change m (setFraction m a x) a]
  · rw [entry_setFraction, if_pos rfl]
  · intro b hb
    rw [getElem?_setFraction, if_neg hb]

theorem setFraction_bounds {m : FMap AccAddress Int} {c : Int}
    (h : ∀ (b : AccAddress) (f : Int), m[b]? = some f → 0 < f ∧ f < c) (hx : 0 ≤ x ∧ x < c)
    (a : AccAddress) :
    ∀ (b : AccAddress) (f : Int), (setFraction m a x)[b]? = some f → 0 < f ∧ f < c := by
  intro b f hf
  rw [getElem?_setFraction] at hf
  split at hf
  · split at hf
    · cases hf
    · cases hf
      exact ⟨lt_of_le_of_ne hx.1 (Ne.symm ‹_›), hx.2⟩
  · exact h b f hf

theorem setFractionalBalance_ends (k : Keeper σ) (s : State σ) (a : AccAddress)
    (hx : 0 ≤ x ∧ x < k.conversionFactor) :
    Ends (fun t => t = { s with fractionalBalances := setFraction s.fractionalBalances a x })
      (fun f => f = .panic .emptyAddress ∧ a = []) (k.setFractionalBalance s a x) := by
  unfold setFractionalBalance setFraction
  by_cases ha : a = []
  · simp [ha]
  · by_cases hzero : x = 0
    · simp [ha, hzero]
    · have hvalid : k.validateFractionalAmount x = true := by
        simp only [validateFractionalAmount, Bool.and_eq_true, decide_eq_true_eq]
        exact ⟨lt_of_le_of_ne hx.1 (Ne.symm hzero), hx.2⟩
      simp [ha, hzero, hvalid]

theorem setRemainderAmount_ends (k : Keeper σ) (s : State σ)
    (hx : 0 ≤ x ∧ x < k.conversionFactor) (fails : Failure → Prop) :
    Ends (fun t => t.bank = s.bank ∧ t.fractionalBalances = s.fractionalBalances ∧
      t.getRemainderAmount = x) fails (k.setRemainderAmount s x) := by
  unfold setRemainderAmount getRemainderAmount
  by_cases hzero : x = 0
  · simp [hzero]
  · have hvalid : k.validateFractionalAmount x = true := by
      simp only [validateFractionalAmount, Bool.and_eq_true, decide_eq_true_eq]
      exact ⟨lt_of_le_of_ne hx.1 (Ne.symm hzero), hx.2⟩
    simp [hzero, hvalid]

theorem subFromFractionalBalance_ends (k : Keeper σ) {f r : Int} (hf : f < k.conversionFactor)
    (hr : r < k.conversionFactor) (fails : Failure → Prop) :
    Ends (fun p => p = (f - r + borrow f r * k.conversionFactor, decide (f < r))) fails
      (k.subFromFractionalBalance f r) := by
  unfold subFromFractionalBalance borrow
  rw [if_neg (not_le.mpr hf), if_neg (not_le.mpr hr)]
  by_cases h : f < r <;> simp [h]

theorem addToFractionalBalance_ends (k : Keeper σ) {f r : Int} (hf : f < k.conversionFactor)
    (hr : r < k.conversionFactor) (fails : Failure → Prop) :
    Ends (fun p => p = (f + r - carry k.conversionFactor f r * k.conversionFactor,
        decide (k.conversionFactor ≤ f + r))) fails (k.addToFractionalBalance f r) := by
  unfold addToFractionalBalance carry
  rw [if_neg (not_le.mpr hf), if_neg (not_le.mpr hr)]
  by_cases h : k.conversionFactor ≤ f + r <;> simp [h]

/-! ## Integer coins -/

/-- Integer coins move by `delta` and their supply changes by `minted`; other coins stay. -/
def Shifted (k : Keeper σ) (bank bank' : σ) (delta : AccAddress → Int) (minted : Int) : Prop :=
  k.bk.Changed bank bank' (fun a d => if d = k.integerCoinDenom then delta a else 0)
    (fun d => if d = k.integerCoinDenom then minted else 0)

theorem Shifted.trans {bank bank' bank'' : σ} {delta delta' : AccAddress → Int}
    {minted minted' : Int} (h : k.Shifted bank bank' delta minted)
    (h' : k.Shifted bank' bank'' delta' minted') :
    k.Shifted bank bank'' (delta + delta') (minted + minted') := by
  have hsum := BankKeeper.Changed.trans h h'
  refine ⟨?_, ?_, hsum.locked⟩
  · intro a d
    rw [hsum.balance, Pi.add_apply, Pi.add_apply, Pi.add_apply]
    by_cases hd : d = k.integerCoinDenom <;> simp [hd]
  · intro d
    rw [hsum.supply, Pi.add_apply]
    by_cases hd : d = k.integerCoinDenom <;> simp [hd]

theorem shifted_refl (k : Keeper σ) (bank : σ) : k.Shifted bank bank 0 0 := by
  have h := BankKeeper.Changed.refl k.bk bank
  refine ⟨?_, ?_, h.locked⟩
  · simp
  · simp

/-- The integer coins that an account can spend. -/
def integerSpendable (k : Keeper σ) (bank : σ) (a : AccAddress) : Int :=
  k.bk.spendableCoin bank a k.integerCoinDenom

section

variable (hk : k.bk.Exact k.ak)
include hk

theorem integerSpendable_eq (bank : σ) (a : AccAddress) :
    k.integerSpendable bank a = max 0 (k.bk.getBalance bank a k.integerCoinDenom -
      (k.bk.lockedCoins bank a).amountOf k.integerCoinDenom) :=
  hk.spendable bank a k.integerCoinDenom

theorem integerSpendable_nonneg (bank : σ) (a : AccAddress) :
    0 ≤ k.integerSpendable bank a := by
  rw [integerSpendable_eq hk]
  exact le_max_left _ _

/-- Spending leaves what is spendable less by as much. -/
theorem Shifted.integerSpendable {bank bank' : σ} {delta : AccAddress → Int} {minted : Int}
    (h : k.Shifted bank bank' delta minted) (hdelta : delta a = -n)
    (hn : 0 ≤ n ∧ n ≤ k.integerSpendable bank a) :
    k.integerSpendable bank' a = k.integerSpendable bank a - n := by
  rw [integerSpendable_eq hk] at hn ⊢
  rw [integerSpendable_eq hk, h.balance, h.locked, if_pos rfl, hdelta]
  omega

/-- Everything in the reserve can be spent. -/
theorem integerSpendable_reserve (bank : σ) :
    k.bk.getBalance bank k.reserve.address k.integerCoinDenom ≤
      k.integerSpendable bank k.reserve.address := by
  rw [integerSpendable_eq hk, hk.unlocked _ _ _ k.getReserve, amountOf_nil, sub_zero]
  exact le_max_right _ _

theorem affords_iff (bank : σ) (a : AccAddress) (n : Int) :
    k.bk.Affords bank a (k.integerCoins n) ↔ n ≤ k.integerSpendable bank a := by
  unfold BankKeeper.Affords integerCoins
  constructor
  · intro h
    have hd := h k.integerCoinDenom
    rw [amountOf_singleton, if_pos rfl] at hd
    exact hd
  · intro h d
    rw [amountOf_singleton]
    split
    · rename_i hd
      rw [hd]
      exact h
    · rw [hk.spendable]
      exact le_max_left _ _

end

theorem isValid_integerCoins (k : Keeper σ) (hn : 0 < n) : (k.integerCoins n).isValid = true :=
  isValid_singleton k.info.validDenom hn

theorem credit_integerCoins (k : Keeper σ) (a : AccAddress) (n : Int) :
    credit a (k.integerCoins n) = fun b d =>
      if d = k.integerCoinDenom then (Pi.single a n : AccAddress → Int) b else 0 := by
  funext b d
  unfold credit integerCoins
  by_cases hb : b = a
  · subst hb
    simp
  · simp [hb]

/-- A payment of `m` integer coins, which is not made when there are none. -/
theorem paid_ends (hk : k.bk.Exact k.ak) (s : State σ) (onErr : BankError → Failure) [Decidable p]
    {payer : AccAddress} {delta : AccAddress → Int} {minted : Int} {x : Except Failure σ}
    (hp : p → k.bk.Pays s.bank payer (k.integerCoins m)
      (fun a d => if d = k.integerCoinDenom then delta a else 0)
      (fun d => if d = k.integerCoinDenom then minted else 0) x)
    (hnp : ¬ p → m = 0 ∧ delta = 0 ∧ minted = 0) :
    Ends (fun t => m ≤ k.integerSpendable s.bank payer ∧
        ∃ bank, t = { s with bank := bank } ∧ k.Shifted s.bank bank delta minted)
      (fun f => k.integerSpendable s.bank payer < m ∧
        ∃ text, f = onErr (.insufficientFunds text)) (s.doIf p (s.onBank onErr x)) := by
  unfold doIf
  by_cases h : p
  · rw [if_pos h]
    by_cases hpay : m ≤ k.integerSpendable s.bank payer
    · obtain ⟨bank, rfl, hchanged⟩ := (hp h).1 ((affords_iff hk s.bank payer m).mpr hpay)
      exact ⟨hpay, bank, rfl, hchanged⟩
    · obtain ⟨text, rfl⟩ := (hp h).2 (fun h => hpay ((affords_iff hk s.bank payer m).mp h))
      exact ⟨not_le.mp hpay, text, rfl⟩
  · obtain ⟨rfl, rfl, rfl⟩ := hnp h
    rw [if_neg h]
    exact ⟨integerSpendable_nonneg hk s.bank payer, s.bank, rfl, k.shifted_refl s.bank⟩

theorem transfer_ends (hk : k.bk.Exact k.ak) (s : State σ) (sender recipient : AccAddress)
    (onErr : BankError → Failure) [Decidable p] (hp : p → 0 < n ∧ m = n) (hnp : ¬ p → m = 0) :
    Ends (fun t => m ≤ k.integerSpendable s.bank sender ∧ ∃ bank, t = { s with bank := bank } ∧
        k.Shifted s.bank bank (Pi.single recipient m - Pi.single sender m) 0)
      (fun f => k.integerSpendable s.bank sender < m ∧
        ∃ text, f = onErr (.insufficientFunds text))
      (s.doIf p (s.onBank onErr
        (k.bk.sendCoins s.bank sender recipient (k.integerCoins n)))) := by
  refine paid_ends hk s onErr (fun h => ?_) fun h => by simp [hnp h]
  obtain ⟨hpos, rfl⟩ := hp h
  have hpays := hk.sendCoins s.bank sender recipient _ (k.isValid_integerCoins hpos)
  rw [credit_integerCoins, credit_integerCoins] at hpays
  convert hpays using 1
  · funext a d
    by_cases hd : d = k.integerCoinDenom <;> simp [hd]
  · simp [Pi.zero_def]

/-- A mint of `m` integer coins. -/
theorem mint_ends (hk : k.bk.Exact k.ak) (s : State σ) {name : String}
    (hacc : k.ak.getModuleAccount name = some acc) (hperm : minter ∈ acc.permissions)
    (onErr : BankError → Failure) [Decidable p] (hp : p → 0 < n ∧ m = n) (hnp : ¬ p → m = 0)
    (fails : Failure → Prop) : Ends (fun t => ∃ bank, t = { s with bank := bank } ∧
        k.Shifted s.bank bank (Pi.single acc.address m) m) fails
      (s.doIf p (s.onBank onErr (k.bk.mintCoins s.bank name (k.integerCoins n)))) := by
  unfold doIf
  by_cases h : p
  · rw [if_pos h]
    obtain ⟨hpos, rfl⟩ := hp h
    obtain ⟨bank, hmint, hchanged⟩ :=
      hk.mintCoins s.bank name acc _ hacc hperm (k.isValid_integerCoins hpos)
    rw [hmint]
    refine ⟨bank, rfl, ?_, ?_, hchanged.locked⟩
    · intro a d
      rw [hchanged.balance, credit_integerCoins]
    · intro d
      rw [hchanged.supply, integerCoins, amountOf_singleton]
  · rw [if_neg h, hnp h]
    refine ⟨s.bank, rfl, ?_⟩
    rw [Pi.single_zero]
    exact k.shifted_refl s.bank

/-- A burn of `m` integer coins. -/
theorem burn_ends (hk : k.bk.Exact k.ak) (s : State σ) {name : String}
    (hacc : k.ak.getModuleAccount name = some acc) (hperm : burner ∈ acc.permissions)
    (onErr : BankError → Failure) [Decidable p] (hp : p → 0 < n ∧ m = n) (hnp : ¬ p → m = 0) :
    Ends (fun t => m ≤ k.integerSpendable s.bank acc.address ∧
        ∃ bank, t = { s with bank := bank } ∧ k.Shifted s.bank bank (-Pi.single acc.address m) (-m))
      (fun f => k.integerSpendable s.bank acc.address < m ∧
        ∃ text, f = onErr (.insufficientFunds text))
      (s.doIf p (s.onBank onErr (k.bk.burnCoins s.bank name (k.integerCoins n)))) := by
  refine paid_ends hk s onErr (fun h => ?_) fun h => by simp [hnp h]
  obtain ⟨hpos, rfl⟩ := hp h
  have hpays := hk.burnCoins s.bank name acc _ hacc hperm (k.isValid_integerCoins hpos)
  rw [credit_integerCoins] at hpays
  convert hpays using 1
  · funext a d
    by_cases hd : d = k.integerCoinDenom <;> simp [hd]
  · funext d
    by_cases hd : d = k.integerCoinDenom <;> simp [hd, integerCoins]

end Keeper

end InfiniteEvm.PreciseBank
