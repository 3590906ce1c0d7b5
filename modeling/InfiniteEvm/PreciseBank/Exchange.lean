import InfiniteEvm.PreciseBank.Backing
import Mathlib.Algebra.Group.Pi.Lemmas
import Mathlib.Algebra.Ring.Pi
import Mathlib.Tactic.LinearCombination
import Mathlib.Tactic.Ring

/-!
# Exchanges of extended coins

Sends, mints and burns of extended coins move integer coins between the accounts and the
reserve such that the reserve still backs the fractions, and each account gains or loses
exactly the amount.
-/

namespace InfiniteEvm.PreciseBank.Keeper

open Library Outcomes MixedRadix State

variable {σ : Type} {k : Keeper σ} {s t : State σ} {a : AccAddress} {amt q : Int}

/-! ## Sends -/

/-- Each account but the reserve gains `delta` in extended units, the coins in circulation
change by `minted`, other coins stay, and the reserve backs the fractions. -/
structure Exchanged (k : Keeper σ) (s t : State σ) (delta : AccAddress → Int) (minted : Int) :
    Prop where
  extended : ∀ a, a ≠ k.reserve.address → k.extendedBalance t a = k.extendedBalance s a + delta a
  circulating : k.circulating t = k.circulating s + minted
  others : ∀ a d, d ≠ k.integerCoinDenom → k.bk.getBalance t.bank a d = k.bk.getBalance s.bank a d
  backed : k.Backed t

theorem spendableCoin_extended (ha : a ≠ k.reserve.address) (s : State σ) :
    k.spendableCoin s a k.extendedCoinDenom =
      k.integerSpendable s.bank a * k.conversionFactor + s.getFractionalBalance a := by
  simp [spendableCoin, ha, integerSpendable]

theorem getBalance_extended (ha : a ≠ k.reserve.address) (s : State σ) :
    k.getBalance s a k.extendedCoinDenom = k.extendedBalance s a := by
  simp [getBalance, ha, extendedBalance, integerBalance]

/-- An amount split into integer coins and a fraction. -/
theorem split_amount (k : Keeper σ) (hamt : 0 < amt) :
    0 ≤ amt.tdiv k.conversionFactor ∧
      (0 ≤ amt % k.conversionFactor ∧ amt % k.conversionFactor < k.conversionFactor) ∧
      amt = amt.tdiv k.conversionFactor * k.conversionFactor + amt % k.conversionFactor := by
  have hpos := k.conversionFactor_pos
  rw [Int.tdiv_eq_ediv_of_nonneg hamt.le]
  refine ⟨Int.ediv_nonneg hamt.le hpos.le, ⟨Int.emod_nonneg _ hpos.ne', Int.emod_lt_of_pos _ hpos⟩,
    ?_⟩
  rw [Int.mul_comm]
  exact (Int.mul_ediv_add_emod amt k.conversionFactor).symm

/-- What a send comes to, once integer coins moved with the borrow and the carry. -/
theorem exchanged_send (hs : k.Backed s) {sender recipient : AccAddress}
    (hsender : sender ≠ k.reserve.address) (hrecipient : recipient ≠ k.reserve.address)
    (hne : sender ≠ recipient) {r b c : Int} {bank : σ}
    (hb : 0 ≤ s.getFractionalBalance sender - r + b * k.conversionFactor ∧
      s.getFractionalBalance sender - r + b * k.conversionFactor < k.conversionFactor)
    (hc : 0 ≤ s.getFractionalBalance recipient + r - c * k.conversionFactor ∧
      s.getFractionalBalance recipient + r - c * k.conversionFactor < k.conversionFactor)
    (hbank : k.Shifted s.bank bank (Pi.single recipient (q + c) - Pi.single sender (q + b) +
      Pi.single k.reserve.address (b - c)) 0)
    (ht : t = { s with
      bank := bank
      fractionalBalances := setFraction (setFraction s.fractionalBalances sender
          (s.getFractionalBalance sender - r + b * k.conversionFactor)) recipient
        (s.getFractionalBalance recipient + r - c * k.conversionFactor) }) :
    k.Exchanged s t (Pi.single recipient (q * k.conversionFactor + r) -
      Pi.single sender (q * k.conversionFactor + r)) 0 := by
  have hinteger : ∀ a, k.integerBalance t a = k.integerBalance s a +
      ((if a = recipient then q + c else 0) - (if a = sender then q + b else 0) +
        if a = k.reserve.address then b - c else 0) := by
    intro a
    have hbalance := hbank.balance a k.integerCoinDenom
    rw [if_pos rfl, Pi.add_apply, Pi.sub_apply] at hbalance
    simp only [Pi.single_apply] at hbalance
    rw [ht]
    exact hbalance
  have hfraction : ∀ a, t.getFractionalBalance a =
      if a = recipient then s.getFractionalBalance recipient + r - c * k.conversionFactor
      else if a = sender then s.getFractionalBalance sender - r + b * k.conversionFactor
      else s.getFractionalBalance a := by
    intro a
    simp only [ht, getFractionalBalance, entry_setFraction]
  have htotal : t.getTotalSumFractionalBalances =
      s.getTotalSumFractionalBalances + (b - c) * k.conversionFactor := by
    simp only [ht, getTotalSumFractionalBalances, getFractionalBalance,
      total_setFraction, entry_setFraction, if_neg hne.symm]
    ring
  have hremainder : t.getRemainderAmount = s.getRemainderAmount := by rw [ht]; rfl
  refine ⟨?_, ?_, ?_, ⟨?_, hremainder ▸ hs.remainder⟩, ?_⟩
  · intro a ha
    unfold extendedBalance
    rw [hinteger, hfraction, Pi.sub_apply, Pi.single_apply, Pi.single_apply, if_neg ha]
    by_cases har : a = recipient
    · subst har
      rw [if_pos rfl, if_pos rfl, if_pos rfl, if_neg hne.symm, if_neg hne.symm]
      ring
    · by_cases has : a = sender
      · subst has
        rw [if_neg har, if_neg har, if_neg har, if_pos rfl, if_pos rfl, if_pos rfl]
        ring
      · rw [if_neg har, if_neg har, if_neg har, if_neg has, if_neg has, if_neg has]
        ring
  · have hsupply := hbank.supply k.integerCoinDenom
    unfold circulating
    rw [hremainder, ht]
    simp only [hsupply, if_true, add_zero]
  · intro a d hd
    have hbalance := hbank.balance a d
    rw [ht]
    simpa only [if_neg hd, add_zero] using hbalance
  · rw [ht]
    exact setFraction_bounds (setFraction_bounds hs.fractions hb sender) hc recipient
  · rw [hinteger, htotal, hremainder, if_neg hsender.symm, if_neg hrecipient.symm, if_pos rfl]
    linear_combination hs.backing

/-- A transfer, mint or burn of one coin under a flag. -/
theorem flag (b : Bool) : (b = true → (0 : Int) < 1 ∧ b.toInt = 1) ∧ (¬b = true → b.toInt = 0) := by
  cases b <;> simp

/-- The reserve can pay one coin under a flag, if it has one. -/
theorem reserve_pays (hk : k.bk.Exact k.ak) (bank : σ) (b : Bool)
    (h : b = true → 1 ≤ k.bk.getBalance bank k.reserve.address k.integerCoinDenom) :
    b.toInt ≤ k.integerSpendable bank k.reserve.address := by
  cases b with
  | false => exact integerSpendable_nonneg hk bank _
  | true => exact (h rfl).trans (integerSpendable_reserve hk bank)

theorem updateInsufficientFundsError_eq (k : Keeper σ) (s : State σ) (a : AccAddress) (amt : Int)
    (text : String) : ∃ text', k.updateInsufficientFundsError s a amt (.insufficientFunds text) =
      .err (.insufficientFunds text') := ⟨_, rfl⟩

/-- The integer coins move with the borrow and the carry, if the sender can spend them. -/
theorem transferIntegerCoins_ends (hk : k.bk.Exact k.ak) {sender recipient : AccAddress}
    (hsender : sender ≠ k.reserve.address) (hrecipient : recipient ≠ k.reserve.address)
    (hne : sender ≠ recipient) (hq : 0 ≤ q) (amt : Int) (b c : Bool)
    (hreserve : b = false → c = true → 1 ≤ k.integerBalance s k.reserve.address) :
    Ends (fun t => q + b.toInt ≤ k.integerSpendable s.bank sender ∧
        ∃ bank, t = { s with bank := bank } ∧
          k.Shifted s.bank bank (Pi.single recipient (q + c.toInt) -
            Pi.single sender (q + b.toInt) + Pi.single k.reserve.address (b.toInt - c.toInt)) 0)
      (fun f => k.integerSpendable s.bank sender < q + b.toInt ∧
        ∃ text, f = .err (.insufficientFunds text))
      (k.transferIntegerCoins s sender recipient amt (q + if b && c then 1 else 0) b c) := by
  obtain ⟨n, hn⟩ : ∃ n, n = q + if b && c then 1 else 0 := ⟨_, rfl⟩
  have hborrow : n + (b && !c).toInt = q + b.toInt := by cases b <;> cases c <;> simp [hn]
  have hcarry : n + (!b && c).toInt = q + c.toInt := by cases b <;> cases c <;> simp [hn]
  have hrest : b.toInt - c.toInt = (b && !c).toInt - (!b && c).toInt := by
    cases b <;> cases c <;> rfl
  have hflags : 0 ≤ (b && !c).toInt ∧ q ≤ n := by cases b <;> cases c <;> simp [hn]
  rw [← hn]
  refine ((transfer_ends hk s sender recipient (k.updateInsufficientFundsError s sender amt)
    (p := 0 < n) (fun h => ⟨h, rfl⟩) (fun h => by omega)).mono (fun t ht => ht) ?_).bind ?_
  · rintro f ⟨hlt, text, rfl⟩
    exact ⟨by omega, k.updateInsufficientFundsError_eq _ _ _ _⟩
  rintro _ ⟨hpay, bank, rfl, hshift⟩
  have hleft : k.integerSpendable bank sender = k.integerSpendable s.bank sender - n := by
    refine hshift.integerSpendable hk ?_ ⟨by omega, hpay⟩
    simp [hne]
  rw [hk.sendCoinsFromAccountToModule _ _ _ _ _ k.getReserve]
  refine ((transfer_ends hk _ sender k.reserve.address _ (flag (b && !c)).1 (flag _).2).mono
    (fun t ht => ht) ?_).bind ?_
  · rintro f ⟨hlt, text, rfl⟩
    rw [hleft] at hlt
    exact ⟨by omega, k.updateInsufficientFundsError_eq _ _ _ _⟩
  rintro _ ⟨hpay', bank', rfl, hshift'⟩
  rw [hleft] at hpay'
  refine (transfer_ends hk _ k.reserve.address recipient _ (flag (!b && c)).1 (flag _).2).mono ?_ ?_
  · rintro _ ⟨-, bank'', rfl, hshift''⟩
    refine ⟨by omega, bank'', rfl, ?_⟩
    convert (hshift.trans hshift').trans hshift'' using 1
    · rw [← hborrow, ← hcarry, hrest, Pi.single_add, Pi.single_add, Pi.single_sub]
      ring
    · rfl
  · rintro f ⟨hlt, -⟩
    refine absurd (reserve_pays hk bank' _ fun h => ?_) (not_le.mpr hlt)
    obtain ⟨hb, hc⟩ : b = false ∧ c = true := by simpa using h
    rw [hshift'.balance, hshift.balance, if_pos rfl]
    simpa [integerBalance, hb, hsender.symm, hrecipient.symm] using hreserve hb hc

/-- A send of extended coins between two accounts happens exactly if the sender can spend
the amount. -/
theorem sendExtendedCoins_ends (hk : k.bk.Exact k.ak) (hs : k.Backed s)
    {sender recipient : AccAddress} (hsender : sender ≠ k.reserve.address)
    (hrecipient : recipient ≠ k.reserve.address) (hne : sender ≠ recipient) (hamt : 0 < amt) :
    Ends (fun t => amt ≤ k.spendableCoin s sender k.extendedCoinDenom ∧
        k.Exchanged s t (Pi.single recipient amt - Pi.single sender amt) 0 ∧
        t.remainderAmount = s.remainderAmount)
      (fun f => (k.spendableCoin s sender k.extendedCoinDenom < amt ∧
          ∃ text, f = .err (.insufficientFunds text)) ∨
        f = .panic .emptyAddress ∧ (sender = [] ∨ recipient = []))
      (k.sendExtendedCoins s sender recipient amt) := by
  obtain ⟨hq, hr, hsplit⟩ := k.split_amount hamt
  have hfs := hs.fraction sender
  have hfr := hs.fraction recipient
  have hb := sub_bounds hfs hr
  have hc := add_bounds hfr hr
  have hcovers := le_iff (i := k.integerSpendable s.bank sender)
    (q := amt.tdiv k.conversionFactor) hfs hr
  rw [← hsplit] at hcovers
  unfold sendExtendedCoins
  rw [if_neg (not_or.mpr ⟨hsender, hrecipient⟩), if_neg hne, spendableCoin_extended hsender]
  refine (k.subFromFractionalBalance_ends hfs.2 hr.2 _).bind ?_
  rintro _ rfl
  refine (k.addToFractionalBalance_ends hfr.2 hr.2 _).bind ?_
  rintro _ rfl
  refine ((transferIntegerCoins_ends hk hsender hrecipient hne hq amt _ _ ?_).mono
    (fun t ht => ht) ?_).bind ?_
  · intro hb0 hc1
    simp only [decide_eq_false_iff_not, not_lt] at hb0
    simp only [decide_eq_true_eq] at hc1
    exact hs.reserve_of_two hne (by omega)
  · rintro f ⟨hlt, htext⟩
    rw [borrow_eq_toInt] at hcovers
    exact Or.inl ⟨not_le.mp fun h => not_le.mpr hlt (hcovers.mp h), htext⟩
  rintro _ ⟨hpay, bank, rfl, hshift⟩
  rw [← borrow_eq_toInt] at hpay hshift
  rw [← carry_eq_toInt] at hshift
  refine ((k.setFractionalBalance_ends _ sender hb).mono (fun t ht => ht) ?_).bind ?_
  · rintro f ⟨rfl, hempty⟩
    exact Or.inr ⟨rfl, Or.inl hempty⟩
  rintro _ rfl
  refine (k.setFractionalBalance_ends _ recipient hc).mono ?_ ?_
  · rintro t rfl
    have hsent := exchanged_send hs hsender hrecipient hne hb hc hshift rfl
    rw [← hsplit] at hsent
    exact ⟨hcovers.mpr hpay, hsent, rfl⟩
  · rintro f ⟨rfl, hempty⟩
    exact Or.inr ⟨rfl, Or.inr hempty⟩

/-! ## Mints and burns -/

variable {fraction remainder : Int} {m : String} {acc : ModuleAccount}

/-- What a mint or a burn of `amt` comes to, once integer coins of the account, of the
reserve and in supply changed with the fraction and the remainder. -/
theorem exchanged_issue (hs : k.Backed s) (ha : a ≠ k.reserve.address) {own reserve minted : Int}
    (hshift : k.Shifted s.bank t.bank (Pi.single a own + Pi.single k.reserve.address reserve)
      minted)
    (hfractions : t.fractionalBalances = setFraction s.fractionalBalances a fraction)
    (hremainder : t.getRemainderAmount = remainder)
    (hfraction : 0 ≤ fraction ∧ fraction < k.conversionFactor)
    (hbound : 0 ≤ remainder ∧ remainder < k.conversionFactor)
    (hown : own * k.conversionFactor + (fraction - s.getFractionalBalance a) = amt)
    (hminted : minted * k.conversionFactor - (remainder - s.getRemainderAmount) = amt)
    (hreserve : reserve * k.conversionFactor =
      (fraction - s.getFractionalBalance a) + (remainder - s.getRemainderAmount)) :
    k.Exchanged s t (Pi.single a amt) amt := by
  have hinteger : ∀ b, k.integerBalance t b = k.integerBalance s b +
      ((if b = a then own else 0) + if b = k.reserve.address then reserve else 0) := by
    intro b
    have hbalance := hshift.balance b k.integerCoinDenom
    rw [if_pos rfl, Pi.add_apply, Pi.single_apply, Pi.single_apply] at hbalance
    exact hbalance
  have hfrac : ∀ b, t.getFractionalBalance b =
      if b = a then fraction else s.getFractionalBalance b := by
    intro b
    rw [getFractionalBalance, hfractions, entry_setFraction]
    rfl
  refine ⟨?_, ?_, ?_, ⟨?_, hremainder ▸ hbound⟩, ?_⟩
  · intro b hb
    unfold extendedBalance
    rw [hinteger, hfrac, Pi.single_apply, if_neg hb]
    by_cases hba : b = a
    · subst hba
      rw [if_pos rfl, if_pos rfl, if_pos rfl]
      linear_combination hown
    · rw [if_neg hba, if_neg hba, if_neg hba]
      ring
  · unfold circulating
    rw [hremainder, hshift.supply, if_pos rfl]
    linear_combination hminted
  · intro b d hd
    rw [hshift.balance, if_neg hd, add_zero]
  · rw [hfractions]
    exact setFraction_bounds hs.fractions hfraction a
  · have htotal : t.getTotalSumFractionalBalances =
        s.getTotalSumFractionalBalances - s.getFractionalBalance a + fraction := by
      rw [getTotalSumFractionalBalances, hfractions, total_setFraction]
      rfl
    rw [hinteger, htotal, hremainder, if_neg ha.symm, if_pos rfl]
    linear_combination hs.backing + hreserve

/-- The stateful part of a mint succeeds, given that the reserve can pay a carry that the
remainder covers. -/
theorem mintWithReserve_ends (hk : k.bk.Exact k.ak) (hacc : k.ak.getModuleAccount m = some acc)
    (hperm : minter ∈ acc.permissions) (hq : 0 ≤ q)
    (hfraction : 0 ≤ fraction ∧ fraction < k.conversionFactor)
    (hremainder : 0 ≤ remainder ∧ remainder < k.conversionFactor) (c b : Bool)
    (hreserve : c = true → b = false → 1 ≤ k.integerBalance s k.reserve.address)
    (fails : Failure → Prop) :
    Ends (fun t => t.fractionalBalances = setFraction s.fractionalBalances acc.address fraction ∧
        t.getRemainderAmount = remainder ∧
        k.Shifted s.bank t.bank (Pi.single acc.address (q + c.toInt) +
          Pi.single k.reserve.address (b.toInt - c.toInt)) (q + b.toInt)) fails
      (k.mintWithReserve s m acc.address (q + if c && b then 1 else 0) fraction remainder c b) := by
  unfold mintWithReserve
  rw [hk.sendCoinsFromModuleToModule _ _ _ _ _ _ k.getReserve hacc]
  refine ((transfer_ends hk s k.reserve.address acc.address .err (flag (c && !b)).1
    (flag _).2).mono (fun t ht => ht) ?_).bind ?_
  · rintro f ⟨hlt, -⟩
    refine absurd (reserve_pays hk s.bank _ fun h => ?_) (not_le.mpr hlt)
    obtain ⟨hc, hb⟩ : c = true ∧ b = false := by simpa using h
    exact hreserve hc hb
  rintro _ ⟨-, bank, rfl, hshift⟩
  refine (mint_ends hk { s with bank := bank } hacc hperm .err
    (p := 0 < q + if c && b then 1 else 0) (fun h => ⟨h, rfl⟩) (fun h => by omega) fails).bind ?_
  rintro _ ⟨bank', rfl, hshift'⟩
  refine ((k.setFractionalBalance_ends _ acc.address hfraction).mono (fun t ht => ht) ?_).bind ?_
  · rintro f ⟨-, hempty⟩
    exact absurd hempty (k.ak.address_ne_nil hacc)
  rintro _ rfl
  refine (mint_ends hk _ k.getReserve k.mints _ (flag (b && !c)).1 (flag _).2 fails).bind ?_
  rintro _ ⟨bank'', rfl, hshift''⟩
  refine (k.setRemainderAmount_ends _ hremainder fails).mono ?_ fun f hf => hf
  rintro t ⟨hbank, hfractions, hrem⟩
  have hsupply : q + b.toInt = 0 + (q + if c && b then 1 else 0) + (b && !c).toInt := by
    cases c <;> cases b <;> simp
  have hown : q + c.toInt = (c && !b).toInt + (q + if c && b then 1 else 0) := by
    cases c <;> cases b <;> simp [add_comm]
  have hrest : b.toInt - c.toInt = (b && !c).toInt - (c && !b).toInt := by
    cases c <;> cases b <;> rfl
  refine ⟨hfractions, hrem, ?_⟩
  rw [hsupply, show t.bank = bank'' from hbank]
  convert (hshift.trans hshift').trans hshift'' using 1
  rw [hown, hrest, Pi.single_add, Pi.single_sub]
  ring

theorem ite_eq_toInt_mul (b : Bool) (x : Int) : (if b then x else 0) = b.toInt * x := by
  cases b <;> simp

theorem address_ne_reserve (hm : m ≠ moduleName) (hacc : k.ak.getModuleAccount m = some acc) :
    acc.address ≠ k.reserve.address := fun h =>
  hm (k.ak.address_inj hacc k.getReserve h)

/-- A mint of extended coins to a module other than the reserve. -/
theorem mintExtendedCoin_ends (hk : k.bk.Exact k.ak) (hs : k.Backed s)
    (hacc : k.ak.getModuleAccount m = some acc) (hperm : minter ∈ acc.permissions)
    (hm : m ≠ moduleName) (hamt : 0 < amt) (fails : Failure → Prop) :
    Ends (fun t => k.Exchanged s t (Pi.single acc.address amt) amt) fails
      (k.mintExtendedCoin s m acc amt) := by
  obtain ⟨hq, hr, hsplit⟩ := k.split_amount hamt
  have hne := address_ne_reserve hm hacc
  have hc := add_bounds (hs.fraction acc.address) hr
  have hb := sub_bounds hs.remainder hr
  rw [carry_eq_toInt] at hc
  rw [borrow_eq_toInt, ← decide_eq_decide.mpr sub_neg] at hb
  unfold mintExtendedCoin
  rw [if_neg hm]
  dsimp only
  rw [ite_eq_toInt_mul _ k.conversionFactor, ite_eq_toInt_mul _ k.conversionFactor]
  refine (mintWithReserve_ends hk hacc hperm hq hc hb _ _ ?_ fails).mono ?_ fun f hf => hf
  · intro hcarry hcovered
    simp only [decide_eq_true_eq] at hcarry
    simp only [decide_eq_false_iff_not] at hcovered
    exact hs.reserve_of_one (a := acc.address) (by omega)
  · rintro t ⟨hfractions, hremainder, hshift⟩
    refine exchanged_issue hs hne hshift hfractions hremainder hc hb ?_ ?_ ?_
    · linear_combination -hsplit
    · linear_combination -hsplit
    · ring

/-- The stateful part of a burn succeeds exactly if the account can spend the coins,
given that the reserve can pay an overflow that the fraction covers. -/
theorem burnWithReserve_ends (hk : k.bk.Exact k.ak) (hacc : k.ak.getModuleAccount m = some acc)
    (hperm : burner ∈ acc.permissions) (hne : acc.address ≠ k.reserve.address) (hq : 0 ≤ q)
    (hfraction : 0 ≤ fraction ∧ fraction < k.conversionFactor)
    (hremainder : 0 ≤ remainder ∧ remainder < k.conversionFactor) (amt : Int) (b o : Bool)
    (hreserve : b = false → o = true → 1 ≤ k.integerBalance s k.reserve.address) :
    Ends (fun t => q + b.toInt ≤ k.integerSpendable s.bank acc.address ∧
        t.fractionalBalances = setFraction s.fractionalBalances acc.address fraction ∧
        t.getRemainderAmount = remainder ∧
        k.Shifted s.bank t.bank (Pi.single acc.address (-(q + b.toInt)) +
          Pi.single k.reserve.address (b.toInt - o.toInt)) (-(q + o.toInt)))
      (fun f => k.integerSpendable s.bank acc.address < q + b.toInt ∧
        ∃ text, f = .err (.insufficientFunds text))
      (k.burnWithReserve s m acc.address amt (q + if b && o then 1 else 0) fraction remainder
        b o) := by
  unfold burnWithReserve
  rw [hk.sendCoinsFromModuleToModule _ _ _ _ _ _ hacc k.getReserve]
  refine ((transfer_ends hk s acc.address k.reserve.address
    (k.updateInsufficientFundsError s acc.address amt) (flag (b && !o)).1 (flag _).2).mono
    (fun t ht => ht) ?_).bind ?_
  · rintro f ⟨hlt, text, rfl⟩
    refine ⟨lt_of_lt_of_le hlt ?_, k.updateInsufficientFundsError_eq _ _ _ _⟩
    cases b <;> cases o <;> simp <;> omega
  rintro _ ⟨hpay, bank, rfl, hshift⟩
  have hleft : k.integerSpendable bank acc.address =
      k.integerSpendable s.bank acc.address - (b && !o).toInt := by
    refine hshift.integerSpendable hk ?_ ⟨?_, hpay⟩
    · rw [Pi.sub_apply, Pi.single_eq_of_ne hne, Pi.single_eq_same, zero_sub]
    · cases b <;> cases o <;> decide
  refine ((burn_ends hk { s with bank := bank } k.getReserve k.burns _ (flag (!b && o)).1
    (flag _).2).mono (fun t ht => ht) ?_).bind ?_
  · rintro f ⟨hlt, -⟩
    refine absurd (reserve_pays hk bank _ fun h => ?_) (not_le.mpr hlt)
    obtain ⟨hb, ho⟩ : b = false ∧ o = true := by simpa using h
    rw [hshift.balance, if_pos rfl]
    simpa [integerBalance, hb, hne.symm] using hreserve hb ho
  rintro _ ⟨-, bank', rfl, hshift'⟩
  have hleft' : k.integerSpendable bank' acc.address = k.integerSpendable bank acc.address := by
    have h := hshift'.integerSpendable (a := acc.address) (n := 0) hk
      (by rw [Pi.neg_apply, Pi.single_eq_of_ne hne])
      ⟨le_refl 0, integerSpendable_nonneg hk bank acc.address⟩
    rw [h, sub_zero]
  have hparts : (b && !o).toInt + (q + if b && o then 1 else 0) = q + b.toInt := by
    cases b <;> cases o <;> simp [add_comm]
  refine ((burn_ends hk { s with bank := bank' } hacc hperm _
    (p := (q + if b && o then 1 else 0) ≠ 0) (fun h => ⟨by omega, rfl⟩)
    (fun h => not_not.mp h)).mono (fun t ht => ht) ?_).bind ?_
  · rintro f ⟨hlt, text, rfl⟩
    refine ⟨?_, k.updateInsufficientFundsError_eq _ _ _ _⟩
    rw [hleft', hleft] at hlt
    omega
  rintro _ ⟨hpay', bank'', rfl, hshift''⟩
  rw [hleft', hleft] at hpay'
  refine ((k.setFractionalBalance_ends _ acc.address hfraction).mono (fun t ht => ht) ?_).bind ?_
  · rintro f ⟨-, hempty⟩
    exact absurd hempty (k.ak.address_ne_nil hacc)
  rintro _ rfl
  refine (k.setRemainderAmount_ends _ hremainder _).mono ?_ fun f hf => hf
  rintro t ⟨hbank, hfractions, hrem⟩
  have hsupply : -(q + o.toInt) = 0 + -(!b && o).toInt + -(q + if b && o then 1 else 0) := by
    cases b <;> cases o <;> simp
  have hrest : b.toInt - o.toInt = (b && !o).toInt - (!b && o).toInt := by
    cases b <;> cases o <;> rfl
  refine ⟨by omega, hfractions, hrem, ?_⟩
  rw [hsupply, show t.bank = bank'' from hbank]
  convert (hshift.trans hshift').trans hshift'' using 1
  rw [← hparts, hrest, Pi.single_neg, Pi.single_add, Pi.single_sub]
  ring

/-- A burn of extended coins of a module other than the reserve happens exactly if it can
spend the amount. -/
theorem burnExtendedCoin_ends (hk : k.bk.Exact k.ak) (hs : k.Backed s)
    (hacc : k.ak.getModuleAccount m = some acc) (hperm : burner ∈ acc.permissions)
    (hm : m ≠ moduleName) (hamt : 0 < amt) :
    Ends (fun t => amt ≤ k.spendableCoin s acc.address k.extendedCoinDenom ∧
        k.Exchanged s t (Pi.single acc.address (-amt)) (-amt))
      (fun f => k.spendableCoin s acc.address k.extendedCoinDenom < amt ∧
        ∃ text, f = .err (.insufficientFunds text)) (k.burnExtendedCoin s m acc amt) := by
  obtain ⟨hq, hr, hsplit⟩ := k.split_amount hamt
  have hne := address_ne_reserve hm hacc
  have hf := hs.fraction acc.address
  have hb := sub_bounds hf hr
  have ho := add_bounds hs.remainder hr
  have hcovers := le_iff (i := k.integerSpendable s.bank acc.address)
    (q := amt.tdiv k.conversionFactor) hf hr
  rw [← hsplit] at hcovers
  rw [carry_eq_toInt] at ho
  rw [borrow_eq_toInt, ← decide_eq_decide.mpr sub_neg] at hb hcovers
  unfold burnExtendedCoin
  rw [if_neg hm, spendableCoin_extended hne]
  dsimp only
  rw [ite_eq_toInt_mul _ k.conversionFactor, ite_eq_toInt_mul _ k.conversionFactor]
  refine (burnWithReserve_ends hk hacc hperm hne hq hb ho amt _ _ ?_).mono ?_ ?_
  · intro hborrow hoverflow
    simp only [decide_eq_false_iff_not] at hborrow
    simp only [decide_eq_true_eq] at hoverflow
    exact hs.reserve_of_one (a := acc.address) (by omega)
  · rintro t ⟨hpay, hfractions, hremainder, hshift⟩
    refine ⟨hcovers.mpr hpay, exchanged_issue hs hne hshift hfractions hremainder hb ho ?_ ?_ ?_⟩
    · linear_combination hsplit
    · linear_combination hsplit
    · ring
  · rintro f ⟨hlt, htext⟩
    exact ⟨not_le.mp fun h => not_le.mpr hlt (hcovers.mp h), htext⟩

end InfiniteEvm.PreciseBank.Keeper
