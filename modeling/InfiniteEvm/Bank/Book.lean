import InfiniteEvm.Bank.Keeper

/-!
# A bank with a book of balances

The smallest bank with exact transfers, mints and burns. Some accounts have locked coins.
-/

namespace InfiniteEvm

/-- The balances of all accounts and the supply of all denoms. -/
structure Book where
  balance : AccAddress → String → Int
  supply : String → Int

namespace Book

/-- What an account can spend. -/
def spendable (locked : AccAddress → Coins) (book : Book) (a : AccAddress) (d : String) : Int :=
  max 0 (book.balance a d - (locked a).amountOf d)

/-- The account can pay every coin. -/
def affords (locked : AccAddress → Coins) (book : Book) (a : AccAddress) (coins : Coins) : Bool :=
  coins.all fun coin => coin.2 ≤ book.spendable locked a coin.1

/-- Do a payment if the account can pay it. -/
def pay (locked : AccAddress → Coins) (book : Book) (a : AccAddress) (coins : Coins)
    (after : Book) : Except Failure Book :=
  if book.affords locked a coins then .ok after
  else .error (.err (.insufficientFunds "spendable balance is smaller than the amount"))

/-- The book after a transfer. -/
def transfer (book : Book) (sender recipient : AccAddress) (coins : Coins) : Book where
  balance a d := book.balance a d + (credit recipient coins a d - credit sender coins a d)
  supply := book.supply

/-- The book with new coins of an account. -/
def mint (book : Book) (a : AccAddress) (coins : Coins) : Book where
  balance b d := book.balance b d + credit a coins b d
  supply d := book.supply d + coins.amountOf d

/-- The book without coins of an account. -/
def burn (book : Book) (a : AccAddress) (coins : Coins) : Book where
  balance b d := book.balance b d - credit a coins b d
  supply d := book.supply d - coins.amountOf d

/-- The book with one balance set. -/
def set (book : Book) (a : AccAddress) (coin : Coin) : Book where
  balance b d := if b = a ∧ d = coin.1 then coin.2 else book.balance b d
  supply := book.supply

/-- Something a module does, which panics if the module does not exist. -/
def asModule (ak : AccountKeeper) (m : String) (f : ModuleAccount → Except Failure Book) :
    Except Failure Book :=
  match ak.getModuleAccount m with
  | none => .error (.panic (.raised (.unknownAddress m)))
  | some acc => f acc

/-- The bank that keeps the book, and blocks the listed addresses. -/
def keeper (ak : AccountKeeper) (locked : AccAddress → Coins) (blocked : List AccAddress) :
    BankKeeper Book where
  getBalance := balance
  spendableCoin := spendable locked
  lockedCoins _ a := locked a
  getSupply := supply
  blockedAddr a := blocked.contains a
  sendCoins book sender recipient coins :=
    book.pay locked sender coins (book.transfer sender recipient coins)
  sendCoinsFromAccountToModule book sender m coins := asModule ak m fun acc =>
    book.pay locked sender coins (book.transfer sender acc.address coins)
  sendCoinsFromModuleToAccount book m recipient coins := asModule ak m fun acc =>
    book.pay locked acc.address coins (book.transfer acc.address recipient coins)
  sendCoinsFromModuleToModule book m m' coins := asModule ak m fun acc => asModule ak m' fun acc' =>
    book.pay locked acc.address coins (book.transfer acc.address acc'.address coins)
  mintCoins book m coins := asModule ak m fun acc => .ok (book.mint acc.address coins)
  burnCoins book m coins := asModule ak m fun acc =>
    book.pay locked acc.address coins (book.burn acc.address coins)
  uncheckedSetBalance book a coin := .ok (book.set a coin)

variable {ak : AccountKeeper} {locked : AccAddress → Coins} {blocked : List AccAddress}

theorem affords_iff {coins : Coins} (h : coins.isValid = true) (book : Book) (a : AccAddress) :
    book.affords locked a coins = true ↔ (keeper ak locked blocked).Affords book a coins := by
  simp only [affords, List.all_eq_true, decide_eq_true_eq, BankKeeper.Affords]
  constructor
  · intro hall d
    unfold Coins.amountOf
    cases hl : coins.lookup d with
    | none => exact le_max_left _ _
    | some amount =>
      obtain ⟨before, after, rfl, -⟩ := List.lookup_eq_some_iff.mp hl
      exact hall (d, amount) (by simp)
  · intro hall coin hcoin
    have hd := hall coin.1
    rw [Coins.amountOf_of_mem h hcoin] at hd
    exact hd

theorem pay_pays {coins : Coins} (h : coins.isValid = true) (book after : Book) (a : AccAddress)
    {delta : AccAddress → String → Int} {minted : String → Int}
    (hafter : (keeper ak locked blocked).Changed book after delta minted) :
    (keeper ak locked blocked).Pays book a coins delta minted
      (book.pay locked a coins after) := by
  unfold pay
  constructor
  · intro hpay
    rw [if_pos ((affords_iff h book a).mpr hpay)]
    exact ⟨after, rfl, hafter⟩
  · intro hpay
    rw [if_neg fun hp => hpay ((affords_iff h book a).mp hp)]
    exact ⟨_, rfl⟩

/-- The bank is exact, if module accounts have nothing locked. -/
theorem keeper_exact
    (hlocked : ∀ m acc, ak.getModuleAccount m = some acc → locked acc.address = []) :
    (keeper ak locked blocked).Exact ak where
  spendable _ _ _ := rfl
  unlocked _ m acc hacc := hlocked m acc hacc
  sendCoins book sender recipient coins h := by
    refine pay_pays h book _ sender ⟨?_, ?_, ?_⟩
    · intro a d
      rfl
    · intro d
      exact (add_zero _).symm
    · intro a
      rfl
  sendCoinsFromAccountToModule book sender m acc coins hacc := by
    simp only [keeper, asModule, hacc]
  sendCoinsFromModuleToModule book m acc m' acc' coins hacc hacc' := by
    simp only [keeper, asModule, hacc, hacc']
  mintCoins book m acc coins hacc _ _ := by
    refine ⟨book.mint acc.address coins, ?_, ?_, ?_, ?_⟩
    · simp only [keeper, asModule, hacc]
    · intro a d
      rfl
    · intro d
      rfl
    · intro a
      rfl
  burnCoins book m acc coins hacc _ h := by
    simp only [keeper, asModule, hacc]
    refine pay_pays h book _ acc.address ⟨?_, ?_, ?_⟩
    · intro a d
      exact sub_eq_add_neg _ _
    · intro d
      exact sub_eq_add_neg _ _
    · intro a
      rfl

end Book

end InfiniteEvm
