import InfiniteEvm.Bank.Keeper
import InfiniteEvm.Library.FiniteMaps
import InfiniteEvm.VM.CoinInfo

/-!
# The precisebank keeper

`contrib/x/precisebank/keeper`. An account holds integer coins in `x/bank` and a
fraction of one integer coin here. The module account of the keeper is the reserve of
the fractions. Coins of other denoms pass through to `x/bank`.
-/

namespace InfiniteEvm.PreciseBank

open Library

/-- `ModuleName`. -/
def moduleName : String := "precisebank"

/-- `Keeper`, with the coin of the chain and the module account of the reserve. -/
structure Keeper (σ : Type) where
  bk : BankKeeper σ
  ak : AccountKeeper
  info : EvmCoinInfo
  reserve : ModuleAccount
  getReserve : ak.getModuleAccount moduleName = some reserve
  mints : minter ∈ reserve.permissions
  burns : burner ∈ reserve.permissions

/-- The state of `x/bank` and the store of the keeper. -/
structure State (σ : Type) where
  bank : σ
  fractionalBalances : FMap AccAddress Int
  remainderAmount : Option Int

variable {σ : Type}

namespace State

/-- `GetFractionalBalance`. -/
def getFractionalBalance (s : State σ) (address : AccAddress) : Int :=
  FMap.entry s.fractionalBalances address

/-- `GetTotalSumFractionalBalances`. -/
def getTotalSumFractionalBalances (s : State σ) : Int := FMap.total s.fractionalBalances

/-- `GetRemainderAmount`. -/
def getRemainderAmount (s : State σ) : Int := s.remainderAmount.getD 0

/-- One operation of `x/bank`, whose error is turned into a failure by `onErr`. -/
def onBank (s : State σ) (onErr : BankError → Failure) (x : Except Failure σ) :
    Except Failure (State σ) :=
  match x with
  | .ok bank => .ok { s with bank := bank }
  | .error (.err e) => .error (onErr e)
  | .error (.panic p) => .error (.panic p)

/-- Do something under a condition. -/
def doIf (s : State σ) (p : Prop) [Decidable p] (x : Except Failure (State σ)) :
    Except Failure (State σ) :=
  if p then x else .ok s

end State

namespace Keeper

variable (k : Keeper σ)

/-- `ConversionFactor`. -/
def conversionFactor : Int := k.info.conversionFactor

/-- `IntegerCoinDenom`. -/
def integerCoinDenom : String := k.info.denom

/-- `ExtendedCoinDenom`. -/
def extendedCoinDenom : String := k.info.extendedDenom

/-- `ValidateFractionalAmount`. -/
def validateFractionalAmount (amt : Int) : Bool := 0 < amt && amt < k.conversionFactor

/-- `SetFractionalBalance`, with `DeleteFractionalBalance` for zero. -/
def setFractionalBalance (s : State σ) (address : AccAddress) (amount : Int) :
    Except Failure (State σ) :=
  if address = [] then .error (.panic .emptyAddress)
  else if amount = 0 then
    .ok { s with fractionalBalances := s.fractionalBalances.erase address }
  else if k.validateFractionalAmount amount then
    .ok { s with fractionalBalances := s.fractionalBalances.insert address amount }
  else .error (.panic (.amountInvalid amount))

/-- `SetRemainderAmount`, with `DeleteRemainderAmount` for zero. -/
def setRemainderAmount (s : State σ) (amount : Int) : Except Failure (State σ) :=
  if amount = 0 then .ok { s with remainderAmount := none }
  else if k.validateFractionalAmount amount then .ok { s with remainderAmount := some amount }
  else .error (.panic (.remainderInvalid amount))

/-! ## Balances -/

/-- `GetBalance`. The reserve shows no extended balance. The source panics if the product passes
256 bits, so integer balances are taken below `2 ^ 256 / conversionFactor`. -/
def getBalance (s : State σ) (addr : AccAddress) (denom : String) : Int :=
  if denom = k.extendedCoinDenom ∧ addr = k.reserve.address then 0
  else if denom ≠ k.extendedCoinDenom then k.bk.getBalance s.bank addr denom
  else k.bk.getBalance s.bank addr k.integerCoinDenom * k.conversionFactor +
    s.getFractionalBalance addr

/-- `SpendableCoin`, with the same bound. -/
def spendableCoin (s : State σ) (addr : AccAddress) (denom : String) : Int :=
  if denom = k.extendedCoinDenom ∧ addr = k.reserve.address then 0
  else if denom ≠ k.extendedCoinDenom then k.bk.spendableCoin s.bank addr denom
  else k.bk.spendableCoin s.bank addr k.integerCoinDenom * k.conversionFactor +
    s.getFractionalBalance addr

/-- Some number of integer coins. -/
def integerCoins (amount : Int) : Coins := [(k.integerCoinDenom, amount)]

/-- `updateInsufficientFundsError`. -/
def updateInsufficientFundsError (s : State σ) (addr : AccAddress) (amt : Int) (e : BankError) :
    Failure :=
  if e.isInsufficientFunds then
    .err (.insufficientFunds ("spendable balance " ++
      Coins.text [(k.extendedCoinDenom, k.spendableCoin s addr k.extendedCoinDenom)] ++
      " is smaller than " ++ Coin.text (k.extendedCoinDenom, amt)))
  else .err e

/-! ## Sends -/

/-- `subFromFractionalBalance`: the new fractional balance, and whether one integer coin
is borrowed for it. -/
def subFromFractionalBalance (currentFractionalBalance amountToSub : Int) :
    Except Failure (Int × Bool) :=
  if k.conversionFactor ≤ currentFractionalBalance then .error (.panic .currentFractionalBalance)
  else if k.conversionFactor ≤ amountToSub then .error (.panic .amountToSub)
  else
    let newFractionalBalance := currentFractionalBalance - amountToSub
    if newFractionalBalance < 0 then .ok (newFractionalBalance + k.conversionFactor, true)
    else .ok (newFractionalBalance, false)

/-- `addToFractionalBalance`: the new fractional balance, and whether it carries over to
one integer coin. -/
def addToFractionalBalance (currentFractionalBalance amountToAdd : Int) :
    Except Failure (Int × Bool) :=
  if k.conversionFactor ≤ currentFractionalBalance then .error (.panic .currentFractionalBalance)
  else if k.conversionFactor ≤ amountToAdd then .error (.panic .amountToAdd)
  else
    let newFractionalBalance := currentFractionalBalance + amountToAdd
    if k.conversionFactor ≤ newFractionalBalance then
      .ok (newFractionalBalance - k.conversionFactor, true)
    else .ok (newFractionalBalance, false)

/-- The stateful operations of `sendExtendedCoins` in `x/bank`: the direct transfer, and
the borrow from the sender or the carry to the recipient that goes over the reserve. -/
def transferIntegerCoins (s : State σ) (sender recipient : AccAddress) (amt integerAmt : Int)
    (senderNeedsBorrow recipientNeedsCarry : Bool) : Except Failure (State σ) := do
  let s ← s.doIf (0 < integerAmt)
    (s.onBank (k.updateInsufficientFundsError s sender amt)
      (k.bk.sendCoins s.bank sender recipient (k.integerCoins integerAmt)))
  let s ← s.doIf (senderNeedsBorrow && !recipientNeedsCarry)
    (s.onBank (k.updateInsufficientFundsError s sender amt)
      (k.bk.sendCoinsFromAccountToModule s.bank sender moduleName (k.integerCoins 1)))
  s.doIf (!senderNeedsBorrow && recipientNeedsCarry)
    (s.onBank (fun e => .panic (.failedToCarry recipient e))
      (k.bk.sendCoins s.bank k.reserve.address recipient (k.integerCoins 1)))

/-- `sendExtendedCoins`. -/
def sendExtendedCoins (s : State σ) (sender recipient : AccAddress) (amt : Int) :
    Except Failure (State σ) :=
  if sender = k.reserve.address ∨ recipient = k.reserve.address then
    let integerAmt := amt.tdiv k.conversionFactor
    if 0 < integerAmt then
      s.onBank (k.updateInsufficientFundsError s sender amt)
        (k.bk.sendCoins s.bank sender recipient (k.integerCoins integerAmt))
    else .ok s
  else if sender = recipient then .ok s
  else do
    let fractionalAmt := amt % k.conversionFactor
    let (senderNewFracBal, senderNeedsBorrow) ←
      k.subFromFractionalBalance (s.getFractionalBalance sender) fractionalAmt
    let (recipientNewFracBal, recipientNeedsCarry) ←
      k.addToFractionalBalance (s.getFractionalBalance recipient) fractionalAmt
    let integerAmt := amt.tdiv k.conversionFactor +
      if senderNeedsBorrow && recipientNeedsCarry then 1 else 0
    let s ← k.transferIntegerCoins s sender recipient amt integerAmt senderNeedsBorrow
      recipientNeedsCarry
    let s ← k.setFractionalBalance s sender senderNewFracBal
    k.setFractionalBalance s recipient recipientNewFracBal

/-- The coins that pass through to `x/bank`. -/
def passthroughCoins (amt : Coins) : Coins :=
  if 0 < amt.amountOf k.extendedCoinDenom then amt.without k.extendedCoinDenom else amt

/-- `SendCoins`. -/
def sendCoins (s : State σ) (sender recipient : AccAddress) (amt : Coins) :
    Except Failure (State σ) :=
  if amt.isValid then do
    let s ← s.doIf ((k.passthroughCoins amt).isAllPositive)
      (s.onBank .err (k.bk.sendCoins s.bank sender recipient (k.passthroughCoins amt)))
    s.doIf (0 < amt.amountOf k.extendedCoinDenom)
      (k.sendExtendedCoins s sender recipient (amt.amountOf k.extendedCoinDenom))
  else .error (.err (.invalidCoins amt.text))

/-- The panic of a module account that does not exist. -/
def moduleDoesNotExist (m : String) : Failure :=
  .panic (.raised (.unknownAddress ("module account " ++ m ++ " does not exist")))

/-- `SendCoinsFromAccountToModule`. -/
def sendCoinsFromAccountToModule (s : State σ) (sender : AccAddress) (recipientModule : String)
    (amt : Coins) : Except Failure (State σ) :=
  match k.ak.getModuleAccount recipientModule with
  | none => .error (moduleDoesNotExist recipientModule)
  | some recipientAcc =>
    if recipientModule = moduleName then
      .error (.err (.unauthorized
        ("module account " ++ moduleName ++ " is not allowed to receive funds")))
    else k.sendCoins s sender recipientAcc.address amt

/-- `SendCoinsFromModuleToAccount`. -/
def sendCoinsFromModuleToAccount (s : State σ) (senderModule : String) (recipient : AccAddress)
    (amt : Coins) : Except Failure (State σ) :=
  match k.ak.getModuleAddress senderModule with
  | none => .error (moduleDoesNotExist senderModule)
  | some senderAddr =>
    if senderModule = moduleName then
      .error (.err (.unauthorized
        ("module account " ++ moduleName ++ " is not allowed to send funds")))
    else if k.bk.blockedAddr recipient then
      .error (.err (.unauthorized
        (k.ak.addressString recipient ++ " is not allowed to receive funds")))
    else k.sendCoins s senderAddr recipient amt

/-- `SendCoinsFromModuleToModule`. Unlike the other two it does not ask whether the
sender is the reserve. -/
def sendCoinsFromModuleToModule (s : State σ) (senderModule recipientModule : String)
    (amt : Coins) : Except Failure (State σ) :=
  match k.ak.getModuleAddress senderModule with
  | none => .error (moduleDoesNotExist senderModule)
  | some senderAddr =>
    match k.ak.getModuleAccount recipientModule with
    | none => .error (moduleDoesNotExist recipientModule)
    | some recipientAcc =>
      if recipientModule = moduleName then
        .error (.err (.unauthorized
          ("module account " ++ moduleName ++ " is not allowed to receive funds")))
      else k.sendCoins s senderAddr recipientAcc.address amt

/-! ## Mints -/

/-- The stateful operations of `mintExtendedCoin`. A carry is paid by the reserve, unless
the remainder is insufficient too; then it is minted. An insufficient remainder without a
carry adds an integer coin to the reserve. -/
def mintWithReserve (s : State σ) (recipientModuleName : String) (moduleAddr : AccAddress)
    (integerMintAmount newFractionalBalance newRemainder : Int) (carries insufficient : Bool) :
    Except Failure (State σ) := do
  let s ← s.doIf (carries && !insufficient)
    (s.onBank .err (k.bk.sendCoinsFromModuleToModule s.bank moduleName recipientModuleName
      (k.integerCoins 1)))
  let s ← s.doIf (0 < integerMintAmount)
    (s.onBank .err
      (k.bk.mintCoins s.bank recipientModuleName (k.integerCoins integerMintAmount)))
  let s ← k.setFractionalBalance s moduleAddr newFractionalBalance
  let s ← s.doIf (insufficient && !carries)
    (s.onBank (fun e => .err (.wrapped
        ("failed to mint " ++ (k.integerCoins 1).text ++ " for reserve") e))
      (k.bk.mintCoins s.bank moduleName (k.integerCoins 1)))
  k.setRemainderAmount s newRemainder

/-- `mintExtendedCoin`, for a module with the account `acc`. -/
def mintExtendedCoin (s : State σ) (recipientModuleName : String) (acc : ModuleAccount)
    (amt : Int) : Except Failure (State σ) :=
  if recipientModuleName = moduleName then
    let integerMintAmount := amt.tdiv k.conversionFactor
    if 0 < integerMintAmount then
      s.onBank .err
        (k.bk.mintCoins s.bank recipientModuleName (k.integerCoins integerMintAmount))
    else .ok s
  else
    let fractionalMintAmount := amt % k.conversionFactor
    let newRemainder := s.getRemainderAmount - fractionalMintAmount
    let newFractionalBalance := s.getFractionalBalance acc.address + fractionalMintAmount
    let carries := decide (k.conversionFactor ≤ newFractionalBalance)
    let insufficient := decide (newRemainder < 0)
    k.mintWithReserve s recipientModuleName acc.address
      (amt.tdiv k.conversionFactor + if carries && insufficient then 1 else 0)
      (newFractionalBalance - if carries then k.conversionFactor else 0)
      (newRemainder + if insufficient then k.conversionFactor else 0) carries insufficient

/-- `MintCoins`. -/
def mintCoins (s : State σ) (m : String) (amt : Coins) : Except Failure (State σ) :=
  if m = moduleName then
    .error (.panic (.raised (.unauthorized ("module account " ++ m ++ " cannot be minted to"))))
  else
    match k.ak.getModuleAccount m with
    | none => .error (moduleDoesNotExist m)
    | some acc =>
      if minter ∈ acc.permissions then
        if amt.isValid then do
          let s ← s.doIf (k.passthroughCoins amt ≠ [])
            (s.onBank .err (k.bk.mintCoins s.bank m (k.passthroughCoins amt)))
          s.doIf (0 < amt.amountOf k.extendedCoinDenom)
            (k.mintExtendedCoin s m acc (amt.amountOf k.extendedCoinDenom))
        else .error (.err (.invalidCoins amt.text))
      else .error (.panic (.raised (.unauthorized
        ("module account " ++ m ++ " does not have permissions to mint tokens"))))

/-! ## Burns -/

/-- The stateful operations of `burnExtendedCoin`. A borrow is paid to the reserve, unless
the remainder overflows too; then it is burned. An overflow without a borrow burns an
integer coin of the reserve. -/
def burnWithReserve (s : State σ) (m : String) (moduleAddr : AccAddress)
    (amt integerBurnAmount newFractionalBalance newRemainder : Int)
    (requiresBorrow overflowingRemainder : Bool) : Except Failure (State σ) := do
  let s ← s.doIf (requiresBorrow && !overflowingRemainder)
    (s.onBank (k.updateInsufficientFundsError s moduleAddr amt)
      (k.bk.sendCoinsFromModuleToModule s.bank m moduleName (k.integerCoins 1)))
  let s ← s.doIf (!requiresBorrow && overflowingRemainder)
    (s.onBank (fun e => .err (.wrapped
        ("failed to burn " ++ (k.integerCoins 1).text ++ " for reserve") e))
      (k.bk.burnCoins s.bank moduleName (k.integerCoins 1)))
  let s ← s.doIf (integerBurnAmount ≠ 0)
    (s.onBank (k.updateInsufficientFundsError s moduleAddr amt)
      (k.bk.burnCoins s.bank m (k.integerCoins integerBurnAmount)))
  let s ← k.setFractionalBalance s moduleAddr newFractionalBalance
  k.setRemainderAmount s newRemainder

/-- `burnExtendedCoin`, for a module with the account `acc`. -/
def burnExtendedCoin (s : State σ) (m : String) (acc : ModuleAccount) (amt : Int) :
    Except Failure (State σ) :=
  if m = moduleName then
    let integerBurnAmount := amt.tdiv k.conversionFactor
    if 0 < integerBurnAmount then
      s.onBank .err (k.bk.burnCoins s.bank m (k.integerCoins integerBurnAmount))
    else .ok s
  else
    let fractionalBurnAmount := amt % k.conversionFactor
    let newFractionalBalance := s.getFractionalBalance acc.address - fractionalBurnAmount
    let newRemainder := s.getRemainderAmount + fractionalBurnAmount
    let requiresBorrow := decide (newFractionalBalance < 0)
    let overflowingRemainder := decide (k.conversionFactor ≤ newRemainder)
    k.burnWithReserve s m acc.address amt
      (amt.tdiv k.conversionFactor + if requiresBorrow && overflowingRemainder then 1 else 0)
      (newFractionalBalance + if requiresBorrow then k.conversionFactor else 0)
      (newRemainder - if overflowingRemainder then k.conversionFactor else 0)
      requiresBorrow overflowingRemainder

/-- `BurnCoins`. -/
def burnCoins (s : State σ) (m : String) (amt : Coins) : Except Failure (State σ) :=
  if m = moduleName then
    .error (.panic (.raised (.unauthorized ("module account " ++ m ++ " cannot be burned from"))))
  else
    match k.ak.getModuleAccount m with
    | none => .error (moduleDoesNotExist m)
    | some acc =>
      if burner ∈ acc.permissions then
        if amt.isValid then do
          let s ← s.doIf (k.passthroughCoins amt ≠ [])
            (s.onBank .err (k.bk.burnCoins s.bank m (k.passthroughCoins amt)))
          s.doIf (0 < amt.amountOf k.extendedCoinDenom)
            (k.burnExtendedCoin s m acc (amt.amountOf k.extendedCoinDenom))
        else .error (.err (.invalidCoins amt.text))
      else .error (.panic (.raised (.unauthorized
        ("module account " ++ m ++ " does not have permissions to burn tokens"))))

/-- `UncheckedSetBalance`, which passes every denom through. -/
def uncheckedSetBalance (s : State σ) (addr : AccAddress) (amt : Coin) : Except Failure (State σ) :=
  s.onBank .err (k.bk.uncheckedSetBalance s.bank addr amt)

/-- The keeper as a bank keeper. -/
def toBankKeeper : BankKeeper (State σ) where
  getBalance := k.getBalance
  spendableCoin := k.spendableCoin
  lockedCoins s addr := k.bk.lockedCoins s.bank addr
  getSupply s denom := k.bk.getSupply s.bank denom
  blockedAddr := k.bk.blockedAddr
  sendCoins := k.sendCoins
  sendCoinsFromAccountToModule := k.sendCoinsFromAccountToModule
  sendCoinsFromModuleToAccount := k.sendCoinsFromModuleToAccount
  sendCoinsFromModuleToModule := k.sendCoinsFromModuleToModule
  mintCoins := k.mintCoins
  burnCoins := k.burnCoins
  uncheckedSetBalance := k.uncheckedSetBalance

end Keeper

end InfiniteEvm.PreciseBank
