import InfiniteEvm.Bank.Book
import InfiniteEvm.PreciseBank.Exchange

/-!
# Extended coins are exact

Seen in extended units the keeper is a plain ledger: a send moves the amount from one
account to another, and a mint or a burn changes one account and what is in circulation.
-/

namespace InfiniteEvm.PreciseBank.Keeper

open Library Outcomes State

variable {σ : Type} {k : Keeper σ} {s t : State σ} {a : AccAddress} {amt : Int} {m : String}

/-- Some number of extended coins. -/
def extendedCoins (k : Keeper σ) (amt : Int) : Coins := [(k.extendedCoinDenom, amt)]

theorem isValid_extendedCoins (k : Keeper σ) (hamt : 0 < amt) :
    (k.extendedCoins amt).isValid = true :=
  Coins.isValid_singleton k.info.validExtendedDenom hamt

@[simp] theorem amountOf_extendedCoins (k : Keeper σ) (amt : Int) :
    (k.extendedCoins amt).amountOf k.extendedCoinDenom = amt := by
  simp [extendedCoins]

theorem passthroughCoins_extendedCoins (k : Keeper σ) (hamt : 0 < amt) :
    k.passthroughCoins (k.extendedCoins amt) = [] := by
  rw [passthroughCoins, amountOf_extendedCoins, if_pos hamt]
  simp [extendedCoins, Coins.without]

theorem sendCoins_extendedCoins (k : Keeper σ) (s : State σ) (sender recipient : AccAddress)
    (hamt : 0 < amt) : k.sendCoins s sender recipient (k.extendedCoins amt) =
      k.sendExtendedCoins s sender recipient amt := by
  simp only [sendCoins, k.isValid_extendedCoins hamt, k.passthroughCoins_extendedCoins hamt,
    amountOf_extendedCoins, doIf, hamt, if_true]
  rfl

theorem mintCoins_extendedCoins (k : Keeper σ) (s : State σ) {acc : ModuleAccount}
    (hm : m ≠ moduleName) (hacc : k.ak.getModuleAccount m = some acc)
    (hperm : minter ∈ acc.permissions) (hamt : 0 < amt) :
    k.mintCoins s m (k.extendedCoins amt) = k.mintExtendedCoin s m acc amt := by
  simp only [mintCoins, if_neg hm, hacc, if_pos hperm, k.isValid_extendedCoins hamt,
    k.passthroughCoins_extendedCoins hamt, amountOf_extendedCoins, doIf, hamt, if_true]
  rfl

theorem burnCoins_extendedCoins (k : Keeper σ) (s : State σ) {acc : ModuleAccount}
    (hm : m ≠ moduleName) (hacc : k.ak.getModuleAccount m = some acc)
    (hperm : burner ∈ acc.permissions) (hamt : 0 < amt) :
    k.burnCoins s m (k.extendedCoins amt) = k.burnExtendedCoin s m acc amt := by
  simp only [burnCoins, if_neg hm, hacc, if_pos hperm, k.isValid_extendedCoins hamt,
    k.passthroughCoins_extendedCoins hamt, amountOf_extendedCoins, doIf, hamt, if_true]
  rfl

/-- Only a module that may burn burns. -/
theorem burnCoins_ok {coins : Coins} (h : k.burnCoins s m coins = .ok t) :
    m ≠ moduleName ∧ ∃ acc, k.ak.getModuleAccount m = some acc ∧ burner ∈ acc.permissions := by
  unfold burnCoins at h
  split at h
  · cases h
  · rename_i hm
    refine ⟨hm, ?_⟩
    split at h
    · cases h
    · rename_i acc hacc
      split at h
      · exact ⟨acc, hacc, ‹_›⟩
      · cases h

/-- The balances that an exchange shows. -/
theorem Exchanged.getBalance {delta : AccAddress → Int} {minted : Int}
    (h : k.Exchanged s t delta minted) (hreserve : delta k.reserve.address = 0) (a : AccAddress) :
    k.getBalance t a k.extendedCoinDenom = k.getBalance s a k.extendedCoinDenom + delta a := by
  by_cases ha : a = k.reserve.address
  · subst ha
    simp [Keeper.getBalance, hreserve]
  · rw [getBalance_extended ha, getBalance_extended ha, h.extended a ha]

/-- Sends, mints and burns of extended coins change balances in extended units by exactly
the amount, and a send happens exactly if the sender can spend it. -/
theorem extended_operations_exact (k : Keeper σ) (hk : k.bk.Exact k.ak) (s : State σ)
    (hs : k.Backed s) (amt : Int) (hamt : 0 < amt) :
    (∀ sender recipient : AccAddress, sender ≠ [] → recipient ≠ [] →
      sender ≠ k.reserve.address → recipient ≠ k.reserve.address → sender ≠ recipient →
      ((∃ t, k.sendCoins s sender recipient (k.extendedCoins amt) = .ok t) ↔
        amt ≤ k.spendableCoin s sender k.extendedCoinDenom) ∧
      ∀ t, k.sendCoins s sender recipient (k.extendedCoins amt) = .ok t →
        k.getBalance t sender k.extendedCoinDenom =
          k.getBalance s sender k.extendedCoinDenom - amt ∧
        k.getBalance t recipient k.extendedCoinDenom =
          k.getBalance s recipient k.extendedCoinDenom + amt ∧
        (∀ a, a ≠ sender → a ≠ recipient →
          k.getBalance t a k.extendedCoinDenom = k.getBalance s a k.extendedCoinDenom) ∧
        t.getRemainderAmount = s.getRemainderAmount) ∧
    (∀ m acc, m ≠ moduleName → k.ak.getModuleAccount m = some acc → minter ∈ acc.permissions →
      ∃ t, k.mintCoins s m (k.extendedCoins amt) = .ok t ∧
        k.getBalance t acc.address k.extendedCoinDenom =
          k.getBalance s acc.address k.extendedCoinDenom + amt ∧
        (∀ a, a ≠ acc.address →
          k.getBalance t a k.extendedCoinDenom = k.getBalance s a k.extendedCoinDenom) ∧
        k.circulating t = k.circulating s + amt) ∧
    ∀ m t, k.burnCoins s m (k.extendedCoins amt) = .ok t →
      ∃ acc, k.ak.getModuleAccount m = some acc ∧
        k.getBalance t acc.address k.extendedCoinDenom =
          k.getBalance s acc.address k.extendedCoinDenom - amt ∧
        (∀ a, a ≠ acc.address →
          k.getBalance t a k.extendedCoinDenom = k.getBalance s a k.extendedCoinDenom) ∧
        k.circulating t = k.circulating s - amt := by
  refine ⟨?_, ?_, ?_⟩
  · intro sender recipient hs₀ hr₀ hsender hrecipient hne
    have hends := sendExtendedCoins_ends hk hs hsender hrecipient hne hamt
    rw [k.sendCoins_extendedCoins s sender recipient hamt]
    refine ⟨⟨?_, ?_⟩, ?_⟩
    · rintro ⟨t, ht⟩
      exact (hends.of_ok ht).1
    · intro hpay
      cases hres : k.sendExtendedCoins s sender recipient amt with
      | ok t => exact ⟨t, rfl⟩
      | error f =>
        rcases hends.of_error hres with ⟨hlt, -⟩ | ⟨-, hempty | hempty⟩
        · exact absurd hpay (not_le.mpr hlt)
        · exact absurd hempty hs₀
        · exact absurd hempty hr₀
    · intro t ht
      obtain ⟨-, hexchanged, hremainder⟩ := hends.of_ok ht
      have hbalance := hexchanged.getBalance (by
        rw [Pi.sub_apply, Pi.single_eq_of_ne hrecipient.symm, Pi.single_eq_of_ne hsender.symm,
          sub_zero])
      refine ⟨?_, ?_, ?_, ?_⟩
      · rw [hbalance, Pi.sub_apply, Pi.single_eq_of_ne hne, Pi.single_eq_same, zero_sub,
          sub_eq_add_neg]
      · rw [hbalance, Pi.sub_apply, Pi.single_eq_same, Pi.single_eq_of_ne hne.symm, sub_zero]
      · intro a has har
        rw [hbalance, Pi.sub_apply, Pi.single_eq_of_ne har, Pi.single_eq_of_ne has, sub_zero,
          add_zero]
      · rw [getRemainderAmount, hremainder]
        rfl
  · intro m acc hm hacc hperm
    have hends := mintExtendedCoin_ends hk hs hacc hperm hm hamt fun _ => False
    rw [k.mintCoins_extendedCoins s hm hacc hperm hamt]
    cases hres : k.mintExtendedCoin s m acc amt with
    | error f => exact (hends.of_error hres).elim
    | ok t =>
      have hexchanged := hends.of_ok hres
      have hne := (address_ne_reserve hm hacc).symm
      have hbalance := hexchanged.getBalance (by rw [Pi.single_eq_of_ne hne])
      refine ⟨t, rfl, ?_, ?_, hexchanged.circulating⟩
      · rw [hbalance, Pi.single_eq_same]
      · intro a ha
        rw [hbalance, Pi.single_eq_of_ne ha, add_zero]
  · intro m t ht
    obtain ⟨hm, acc, hacc, hperm⟩ := burnCoins_ok ht
    rw [k.burnCoins_extendedCoins s hm hacc hperm hamt] at ht
    obtain ⟨-, hexchanged⟩ := (burnExtendedCoin_ends hk hs hacc hperm hm hamt).of_ok ht
    have hne := (address_ne_reserve hm hacc).symm
    have hbalance := hexchanged.getBalance (by rw [Pi.single_eq_of_ne hne])
    refine ⟨acc, hacc, ?_, ?_, ?_⟩
    · rw [hbalance, Pi.single_eq_same, sub_eq_add_neg]
    · intro a ha
      rw [hbalance, Pi.single_eq_of_ne ha, add_zero]
    · rw [hexchanged.circulating, sub_eq_add_neg]

/-! ## A small chain -/

/-- The module accounts of the reserve and of the EVM. -/
def sampleAccounts : AccountKeeper where
  getModuleAccount m :=
    if m = moduleName then some ⟨[1], [minter, burner]⟩
    else if m = "evm" then some ⟨[2], [minter, burner]⟩
    else none
  addressString _ := "cosmos1"
  address_ne_nil m acc h := by
    split at h
    · cases h
      simp
    · split at h
      · cases h
        simp
      · cases h
  address_inj m m' acc acc' h h' heq := by
    split at h <;> split at h'
    · simp [*]
    · split at h'
      · cases h
        cases h'
        simp at heq
      · cases h'
    · split at h
      · cases h
        cases h'
        simp at heq
      · cases h
    · split at h
      · split at h'
        · simp [*]
        · cases h'
      · cases h

/-- A coin with 17 decimals in the bank. -/
def sampleInfo : EvmCoinInfo where
  denom := "uatom"
  extendedDenom := "aatom"
  decimals := 17
  validDenom := by decide +kernel
  validExtendedDenom := by decide +kernel
  supported := by decide
  extended h := by cases h

/-- The keeper of a chain with these accounts and no locked coins. -/
def sampleKeeper : Keeper Book where
  bk := Book.keeper sampleAccounts (fun _ => []) []
  ak := sampleAccounts
  info := sampleInfo
  reserve := ⟨[1], [minter, burner]⟩
  getReserve := rfl
  mints := by decide
  burns := by decide

theorem sampleKeeper_exact : sampleKeeper.bk.Exact sampleKeeper.ak :=
  Book.keeper_exact fun _ _ _ => rfl

/-- The reserve holds one integer coin for the fractions of two accounts, of which the
first has five integer coins too. -/
def sampleState : State Book where
  bank :=
    { balance := fun a d => if d = "uatom" then (if a = [1] then 1 else if a = [10] then 5 else 0)
        else 0
      supply := fun d => if d = "uatom" then 6 else 0 }
  fractionalBalances := setFraction (setFraction ∅ [10] 4) [11] 6
  remainderAmount := none

theorem sampleState_backed : sampleKeeper.Backed sampleState where
  backing := by decide +kernel
  fractions := by
    refine setFraction_bounds (setFraction_bounds ?_ ?_ _) ?_ _
    · simp
    · decide +kernel
    · decide +kernel
  remainder := by decide +kernel

theorem extended_operations_exact_borrow_and_carry :
    ∃ t, sampleKeeper.sendCoins sampleState [10] [11] (sampleKeeper.extendedCoins 7) = .ok t ∧
      sampleKeeper.getBalance t [10] "aatom" = 47 ∧
      sampleKeeper.getBalance t [11] "aatom" = 13 ∧
      ∃ u, sampleKeeper.mintCoins sampleState "evm" (sampleKeeper.extendedCoins 7) = .ok u ∧
        sampleKeeper.circulating u = sampleKeeper.circulating sampleState + 7 := by
  obtain ⟨hsend, hmint, -⟩ := extended_operations_exact sampleKeeper sampleKeeper_exact sampleState
    sampleState_backed 7 (by decide)
  obtain ⟨hiff, hall⟩ := hsend [10] [11] (by decide) (by decide) (by decide) (by decide) (by decide)
  obtain ⟨t, ht⟩ := hiff.mpr (by decide +kernel)
  obtain ⟨hsender, hrecipient, -⟩ := hall t ht
  obtain ⟨u, hu, -, -, hcirculating⟩ := hmint "evm" ⟨[2], [minter, burner]⟩ (by decide) rfl
    (by decide)
  refine ⟨t, ht, ?_, ?_, u, hu, hcirculating⟩
  · rw [show "aatom" = sampleKeeper.extendedCoinDenom from rfl, hsender]
    decide +kernel
  · rw [show "aatom" = sampleKeeper.extendedCoinDenom from rfl, hrecipient]
    decide +kernel

end InfiniteEvm.PreciseBank.Keeper
