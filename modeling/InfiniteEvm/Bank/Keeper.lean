import InfiniteEvm.Bank.Coins
import InfiniteEvm.Library.Outcomes

/-!
# Bank keepers

The interface of a bank keeper, over the state it keeps, and the account keeper that
knows the module accounts. `x/bank` of the Cosmos SDK is one implementation, of which
only the documented behaviour is used here; `x/precisebank` is another, on top of it.
-/

namespace InfiniteEvm

/-- `AccAddress`. -/
abbrev AccAddress := List UInt8

/-- The errors of bank keepers, with their texts. -/
inductive BankError
  | invalidCoins (text : String)
  | unauthorized (text : String)
  | unknownAddress (text : String)
  | insufficientFunds (text : String)
  | other (text : String)
  /-- An error with another as its cause. -/
  | wrapped (text : String) (cause : BankError)
  deriving DecidableEq, Repr

/-- `errors.Is` with `ErrInsufficientFunds`. -/
def BankError.isInsufficientFunds : BankError → Bool
  | .insufficientFunds _ => true
  | .wrapped _ cause => cause.isInsufficientFunds
  | _ => false

/-- The panics of bank keepers. -/
inductive BankPanic
  /-- A panic with an error. -/
  | raised (e : BankError)
  /-- `failed to carry fractional coins`. -/
  | failedToCarry (recipient : AccAddress) (cause : BankError)
  /-- `amount is invalid`. -/
  | amountInvalid (amount : Int)
  /-- `remainder amount is invalid`. -/
  | remainderInvalid (amount : Int)
  /-- `address cannot be empty`. -/
  | emptyAddress
  /-- `currentFractionalBalance must be less than ConversionFactor`. -/
  | currentFractionalBalance
  /-- `amountToSub must be less than ConversionFactor`. -/
  | amountToSub
  /-- `amountToAdd must be less than ConversionFactor`. -/
  | amountToAdd
  /-- `NewIntFromBigInt() out of bound`. -/
  | outOfBound
  deriving DecidableEq, Repr

/-- How an operation fails. -/
inductive Failure
  | err (e : BankError)
  | panic (p : BankPanic)
  deriving DecidableEq, Repr

/-- A module account. -/
structure ModuleAccount where
  address : AccAddress
  permissions : List String

/-- `Minter`. -/
def minter : String := "minter"

/-- `Burner`. -/
def burner : String := "burner"

/-- The account keeper, as far as the bank keepers use it: the module accounts, whose
addresses are distinct and not empty. -/
structure AccountKeeper where
  getModuleAccount : String → Option ModuleAccount
  addressString : AccAddress → String
  address_ne_nil : ∀ ⦃m acc⦄, getModuleAccount m = some acc → acc.address ≠ []
  address_inj : ∀ ⦃m m' acc acc'⦄, getModuleAccount m = some acc →
    getModuleAccount m' = some acc' → acc.address = acc'.address → m = m'

/-- `GetModuleAddress`. -/
def AccountKeeper.getModuleAddress (ak : AccountKeeper) (m : String) : Option AccAddress :=
  (ak.getModuleAccount m).map ModuleAccount.address

/-- `BankKeeper`, over the state `σ`. The state of a failed operation is thrown away. -/
structure BankKeeper (σ : Type*) where
  getBalance : σ → AccAddress → String → Int
  spendableCoin : σ → AccAddress → String → Int
  lockedCoins : σ → AccAddress → Coins
  getSupply : σ → String → Int
  blockedAddr : AccAddress → Bool
  sendCoins : σ → AccAddress → AccAddress → Coins → Except Failure σ
  sendCoinsFromAccountToModule : σ → AccAddress → String → Coins → Except Failure σ
  sendCoinsFromModuleToAccount : σ → String → AccAddress → Coins → Except Failure σ
  sendCoinsFromModuleToModule : σ → String → String → Coins → Except Failure σ
  mintCoins : σ → String → Coins → Except Failure σ
  burnCoins : σ → String → Coins → Except Failure σ
  uncheckedSetBalance : σ → AccAddress → Coin → Except Failure σ

/-- What an account gets, by account and denom. -/
def credit (account : AccAddress) (coins : Coins) : AccAddress → String → Int :=
  fun a d => if a = account then coins.amountOf d else 0

theorem credit_self (account : AccAddress) (coins : Coins) (d : String) :
    credit account coins account d = coins.amountOf d := if_pos rfl

theorem credit_of_ne {account a : AccAddress} (h : a ≠ account) (coins : Coins) (d : String) :
    credit account coins a d = 0 := if_neg h

namespace BankKeeper

variable {σ : Type*} {bk : BankKeeper σ} {s t u : σ}

/-- The balances change by `delta` and the supply by `minted`. -/
structure Changed (bk : BankKeeper σ) (s t : σ) (delta : AccAddress → String → Int)
    (minted : String → Int) : Prop where
  balance : ∀ a d, bk.getBalance t a d = bk.getBalance s a d + delta a d
  supply : ∀ d, bk.getSupply t d = bk.getSupply s d + minted d
  locked : ∀ a, bk.lockedCoins t a = bk.lockedCoins s a

theorem Changed.refl (bk : BankKeeper σ) (s : σ) : bk.Changed s s 0 0 where
  balance _ _ := (add_zero _).symm
  supply _ := (add_zero _).symm
  locked _ := rfl

theorem Changed.trans {delta delta' : AccAddress → String → Int} {minted minted' : String → Int}
    (h : bk.Changed s t delta minted) (h' : bk.Changed t u delta' minted') :
    bk.Changed s u (delta + delta') (minted + minted') where
  balance a d := by rw [h'.balance, h.balance, Pi.add_apply, Pi.add_apply, add_assoc]
  supply d := by rw [h'.supply, h.supply, Pi.add_apply, add_assoc]
  locked a := (h'.locked a).trans (h.locked a)

/-- The account can pay the coins. -/
def Affords (bk : BankKeeper σ) (s : σ) (a : AccAddress) (coins : Coins) : Prop :=
  ∀ d, coins.amountOf d ≤ bk.spendableCoin s a d

/-- The operation succeeds with the given changes if `account` can pay the coins, and
fails for lack of funds otherwise. -/
def Pays (bk : BankKeeper σ) (s : σ) (account : AccAddress) (coins : Coins)
    (delta : AccAddress → String → Int) (minted : String → Int) (x : Except Failure σ) : Prop :=
  (bk.Affords s account coins → ∃ t, x = .ok t ∧ bk.Changed s t delta minted) ∧
    (¬ bk.Affords s account coins → ∃ text, x = .error (.err (.insufficientFunds text)))

/-- A bank whose transfers, mints and burns are exact: what is not locked can be spent,
module accounts have nothing locked, and operations with valid coins fail for lack of
funds only. -/
structure Exact (bk : BankKeeper σ) (ak : AccountKeeper) : Prop where
  spendable : ∀ s a d, bk.spendableCoin s a d =
    max 0 (bk.getBalance s a d - (bk.lockedCoins s a).amountOf d)
  unlocked : ∀ s m acc, ak.getModuleAccount m = some acc → bk.lockedCoins s acc.address = []
  sendCoins : ∀ s sender recipient coins, coins.isValid = true →
    bk.Pays s sender coins (credit recipient coins - credit sender coins) 0
      (bk.sendCoins s sender recipient coins)
  sendCoinsFromAccountToModule : ∀ s sender m acc coins, ak.getModuleAccount m = some acc →
    bk.sendCoinsFromAccountToModule s sender m coins = bk.sendCoins s sender acc.address coins
  sendCoinsFromModuleToModule : ∀ s m acc m' acc' coins, ak.getModuleAccount m = some acc →
    ak.getModuleAccount m' = some acc' →
    bk.sendCoinsFromModuleToModule s m m' coins = bk.sendCoins s acc.address acc'.address coins
  mintCoins : ∀ s m acc coins, ak.getModuleAccount m = some acc → minter ∈ acc.permissions →
    coins.isValid = true →
    ∃ t, bk.mintCoins s m coins = .ok t ∧ bk.Changed s t (credit acc.address coins) coins.amountOf
  burnCoins : ∀ s m acc coins, ak.getModuleAccount m = some acc → burner ∈ acc.permissions →
    coins.isValid = true →
    bk.Pays s acc.address coins (-credit acc.address coins) (-coins.amountOf)
      (bk.burnCoins s m coins)

end BankKeeper

end InfiniteEvm
