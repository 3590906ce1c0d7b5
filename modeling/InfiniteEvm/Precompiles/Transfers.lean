import InfiniteEvm.Precompiles.Erc20

/-!
# When transfers succeed

The standard lets a transfer succeed if the balance and the allowance suffice. The precompile
validates the coin before, which refuses an amount of zero.
-/

namespace InfiniteEvm.Erc20

open Library Keeper

variable {amount : Int}

variable {σ : Type} {k : Keeper} {bank : SendBank σ} {pair : TokenPair} {s : Tokens σ}
  {spendable : σ → AccAddress → String → Int} {toAddr : Address}

/-- `BalanceOf`, which reads the spendable coins. -/
def balanceOf (spendable : σ → AccAddress → String → Int) (pair : TokenPair) (s : Tokens σ)
    (account : Address) : Int :=
  spendable s.bank (addressBytes account) pair.denom

/-- `Allowance`. -/
def allowance (pair : TokenPair) (s : Tokens σ) (owner spender : Address) : Int :=
  s.store.getAllowance pair.getERC20Contract owner spender

/-- An enabled pair with its precompile, and a recipient to whom the bank sends exactly what the
sender can spend. -/
structure Transferable (k : Keeper) (bank : SendBank σ)
    (spendable : σ → AccAddress → String → Int) (pair : TokenPair) (s : Tokens σ)
    (toAddr : Address) : Prop where
  denom : validateDenom pair.denom = true
  instanceOf : getERC20PrecompileInstance k s.store pair.getERC20Contract = some pair
  registered : s.store.getTokenPair (s.store.getERC20Map pair.getERC20Contract) = some pair
  enabled : pair.enabled = true
  nonneg : ∀ a, 0 ≤ spendable s.bank a pair.denom
  /-- Allowances are natural numbers of 256 bits. -/
  bounded : ∀ owner spender,
    0 ≤ allowance pair s owner spender ∧ allowance pair s owner spender < 2 ^ 256
  sends : ∀ sender amount, 0 < amount →
    ((∃ t, bank.send s.bank sender (addressBytes toAddr) [(pair.denom, amount)] = .ok t) ↔
      amount ≤ spendable s.bank sender pair.denom)

theorem validateCoin_eq_none (hdenom : validateDenom pair.denom = true) :
    validateCoin (pair.denom, amount) = none ↔ 0 < amount := by
  simp [validateCoin, hdenom]

theorem sendTokens_eq_none {fromAddr : Address} {approval : List TokenEvent} :
    (sendTokens bank pair s fromAddr toAddr amount approval).2 = none ↔
      ∃ t, bank.send s.bank (addressBytes fromAddr) (addressBytes toAddr)
        [(pair.denom, amount)] = .ok t := by
  unfold sendTokens
  split <;> simp [*]

/-- An allowance is spent if it suffices and neither address is empty. -/
theorem spendAllowance_isOk (h : Transferable k bank spendable pair s toAddr)
    (fromAddr spender : Address) (hamount : 0 ≤ amount) :
    (∃ p, spendAllowance k pair s.store fromAddr spender amount = .ok p) ↔
      amount ≤ allowance pair s fromAddr spender ∧ fromAddr ≠ 0 ∧ spender ≠ 0 := by
  have hbounded := (h.bounded fromAddr spender).2
  have hset : ∀ value, 0 ≤ value → value < 2 ^ 256 →
      ((∃ t, k.setAllowanceOf s.store pair.getERC20Contract fromAddr spender value false = .ok t) ↔
        fromAddr ≠ 0 ∧ spender ≠ 0) := by
    intro value hvalue hlarge
    simp only [setAllowanceOf, h.registered, h.enabled]
    split_ifs with hdisabled howner hspender hneg hover
    all_goals simp_all
    all_goals omega
  unfold allowance at hbounded ⊢
  unfold spendAllowance
  generalize s.store.getAllowance pair.getERC20Contract fromAddr spender = prev at *
  dsimp only
  by_cases hlow : prev - amount < 0
  · rw [if_pos hlow]
    exact ⟨by rintro ⟨_, ⟨⟩⟩, fun hle => absurd hle.1 (by omega)⟩
  · -- deleting an allowance sets it to zero
    have hupdated : (if prev - amount = 0 then
        k.deleteAllowance s.store pair.getERC20Contract fromAddr spender
      else k.setAllowance s.store pair.getERC20Contract fromAddr spender (prev - amount)) =
        k.setAllowanceOf s.store pair.getERC20Contract fromAddr spender (prev - amount) false := by
      split
      · rename_i hzero
        rw [hzero]
        rfl
      · rfl
    rw [if_neg hlow, hupdated, and_iff_right (by omega),
      ← hset (prev - amount) (by omega) (by omega)]
    split <;> simp [*]

/-- The call of a precompile succeeds. -/
def Succeeds (k : Keeper) (bank : SendBank σ) (pair : TokenPair) (s : Tokens σ) (caller : Address)
    (method : Method) : Prop :=
  (call k bank s ⟨pair.getERC20Contract, caller, method⟩).2 = true

theorem succeeds_iff (h : Transferable k bank spendable pair s toAddr) {caller : Address}
    {method : Method} : Succeeds k bank pair s caller method ↔
      (handleMethod k bank pair s caller method).2 = none := by
  simp only [Succeeds, call, h.instanceOf]
  split
  · rename_i heq
    simp [heq]
  · rename_i heq
    simp [heq]

/-- A transfer succeeds as the standard says exactly if the amount is not zero, and so does a
transfer of a spender, but for the allowance of an empty address. -/
theorem transfers_standard_iff (h : Transferable k bank spendable pair s toAddr)
    (caller fromAddr : Address) (amount : Uint256) :
    ((Succeeds k bank pair s caller (.transfer toAddr amount) ↔
        amount.toNat ≤ balanceOf spendable pair s caller) ↔ amount ≠ 0) ∧
      ((Succeeds k bank pair s caller (.transferFrom fromAddr toAddr amount) ↔
          amount.toNat ≤ balanceOf spendable pair s fromAddr ∧
            amount.toNat ≤ allowance pair s fromAddr caller) ↔
        amount ≠ 0 ∧ (fromAddr ≠ 0 ∧ caller ≠ 0 ∨
          ¬ (amount.toNat ≤ balanceOf spendable pair s fromAddr ∧
            amount.toNat ≤ allowance pair s fromAddr caller))) := by
  have hvalid : validateCoin (pair.denom, (amount.toNat : Int)) = none ↔ amount ≠ 0 := by
    rw [validateCoin_eq_none h.denom, ne_eq, BitVec.toNat_eq]
    change _ ↔ ¬ amount.toNat = 0
    omega
  have hbalance := h.nonneg (addressBytes caller)
  have hnonneg := h.nonneg (addressBytes fromAddr)
  have hallowance := (h.bounded fromAddr caller).1
  rw [succeeds_iff h, succeeds_iff h]
  simp only [handleMethod, transfer, transferFrom, balanceOf]
  by_cases hzero : amount = 0
  · -- the coin is refused, although nothing is to be moved
    subst hzero
    cases hrefused : validateCoin (pair.denom, ((0 : Uint256).toNat : Int)) with
    | none => exact absurd rfl (hvalid.mp hrefused)
    | some err => simp [hbalance, hnonneg, hallowance]
  · have hpos := (validateCoin_eq_none h.denom).mp (hvalid.mpr hzero)
    rw [hvalid.mpr hzero]
    rw [sendTokens_eq_none, h.sends _ _ hpos]
    have hspend := spendAllowance_isOk h fromAddr caller hpos.le
    have hsend := h.sends (addressBytes fromAddr) _ hpos
    refine ⟨iff_of_true .rfl hzero, ?_⟩
    cases hspent : spendAllowance k pair s.store fromAddr caller amount.toNat with
    | error err =>
      simp only [hspent, reduceCtorEq, exists_false, false_iff] at hspend ⊢
      rw [and_iff_right hzero]
      refine ⟨.inr, fun hor hstandard => ?_⟩
      rcases hor with hnonempty | hshort
      · exact hspend ⟨hstandard.2, hnonempty⟩
      · exact hshort hstandard
    | ok spent =>
      simp only [hspent, Except.ok.injEq, exists_eq', true_iff] at hspend
      rw [sendTokens_eq_none, hsend]
      exact iff_of_true ⟨fun hle => ⟨hle, hspend.1⟩, And.left⟩ ⟨hzero, .inl hspend.2⟩

/-- The spendable coins of a book without locked coins. -/
def unlocked (book : Book) : AccAddress → String → Int := book.spendable fun _ => []

theorem oneToken_transferable : Transferable plainKeeper bookBank unlocked
    (pairOne "stake") oneToken 9 where
  denom := by decide +kernel
  instanceOf := by decide +kernel
  registered := by decide +kernel
  enabled := rfl
  nonneg a := le_max_left ..
  bounded _ _ := ⟨le_refl 0, show (0 : Int) < 2 ^ 256 by decide⟩
  sends sender amount _ := by
    simp only [bookBank, Book.affords, unlocked, List.all_cons, List.all_nil, Bool.and_true]
    split_ifs with hpays <;> simpa using hpays

/-- A transfer of nothing fails, although the account has a hundred coins. -/
theorem transfer_of_nothing_fails :
    balanceOf unlocked (pairOne "stake") oneToken 7 = 100 ∧
      (call plainKeeper bookBank oneToken ⟨1, 7, .transfer 9 0⟩).2 = false := by
  decide +kernel

theorem transfers_standard_iff_ten :
    Succeeds plainKeeper bookBank (pairOne "stake") oneToken 7 (.transfer 9 10) ↔
      ((10 : Uint256).toNat : Int) ≤
        balanceOf unlocked (pairOne "stake") oneToken 7 :=
  (transfers_standard_iff oneToken_transferable 7 7 10).1.mpr (by decide)

end InfiniteEvm.Erc20
