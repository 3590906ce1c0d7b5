import InfiniteEvm.Erc20.Registry
import InfiniteEvm.VM.Keeper

/-!
# Conversions

`keeper/convert.go`, `keeper/msg_server.go`, `keeper/mint.go` and `keeper/ibc_callbacks.go` of
`x/erc20`: tokens of a contract that the module does not own are escrowed for coins that it
mints, and released for coins that it burns. Each function returns what it has written also
when it fails, as it is the caller who decides what becomes of it.
-/

namespace InfiniteEvm.Erc20

open Library

/-! ## The keepers -/

/-- A log of a response. -/
structure EvmLog where
  address : String
  topics : List String
  deriving DecidableEq

/-- The response of a call. -/
structure CallResult where
  ret : Bytes
  logs : List EvmLog
  deriving DecidableEq

/-- How a call is run. -/
structure CallMode where
  commit : Bool
  callFromPrecompile : Bool
  deriving DecidableEq

/-- The EVM keeper over the state `ε`, as far as tokens are concerned. -/
structure EvmKeeper (ε : Type) where
  /-- The account of a contract exists and has code. -/
  hasCodeHash : ε → Address → Bool
  /-- `BalanceOf`: what a contract answers, if it does. -/
  balanceOf : ε → Address → Address → Option Int
  /-- A call of `transfer`: caller, contract, recipient and amount. -/
  transfer : ε → CallMode → Address → Address → Address → Int → ε × Except String CallResult
  /-- `UnpackIntoInterface` of what `transfer` returns. -/
  unpackBool : Bytes → Except String Bool

/-- What the conversions use. -/
structure Modules (σ ε : Type) where
  keeper : Keeper
  bankKeeper : BankKeeper σ
  evmKeeper : EvmKeeper ε
  isSendEnabledCoin : σ → String → Bool
  isModuleAccount : AccAddress → Bool
  /-- The account of the module. -/
  moduleAccount : AccAddress
  /-- `StringToBytes` of the address codec. -/
  stringToBytes : String → Except String Bytes
  addressText : AccAddress → String
  /-- `GetSentCoin`. -/
  getSentCoin : String → String → Coin
  /-- The text of the signature hash of `Transfer`. -/
  logTransferSigHash : String

/-- What the conversions read and write. -/
structure World (σ ε : Type) where
  registry : State
  bank : σ
  evm : ε

/-- How a conversion fails. -/
inductive Fault
  | err (text : String)
  | panic
  deriving DecidableEq

/-- `ModuleName`. -/
def moduleName : String := "erc20"

/-- A failure of the bank, under a text. -/
def bankFault (message : String) : Failure → Fault
  | .err e => .err (message ++ VM.errorText e)
  | .panic _ => .panic

namespace Modules

variable {σ ε : Type} (m : Modules σ ε)

/-- `ModuleAddress`. -/
def moduleAddress : Address := bytesToAddress m.moduleAccount

/-! ## Checks -/

/-- The loop of `validateTransferEventExists`. A log without topics is indexed out of range. -/
def findTransferEvent (token : String) : Bool → List EvmLog → Option Fault
  | true, [] => none
  | false, [] => some (.err "expected Transfer event: expected event")
  | found, log :: rest =>
    match log.topics with
    | [] => some .panic
    | topic :: _ =>
      if topic = m.logTransferSigHash then
        if log.address ≠ token then
          some (.err "Transfer event from unexpected address: unexpected event")
        else if found then some (.err "duplicate Transfer event: unexpected event")
        else findTransferEvent token true rest
      else findTransferEvent token found rest

/-- `validateTransferEventExists`. -/
def validateTransferEventExists (logs : List EvmLog) (tokenAddress : Address) : Option Fault :=
  if logs = [] then some (.err "expected Transfer event: expected event")
  else m.findTransferEvent (m.keeper.addressString tokenAddress) false logs

/-- The check of the response of `transfer`. -/
def checkResponse (res : CallResult) (contract : Address) (message : String) : Option Fault :=
  if res.ret = [] then m.validateTransferEventExists res.logs contract
  else
    match m.evmKeeper.unpackBool res.ret with
    | .error err => some (.err err)
    | .ok false => some (.err (message ++ ": internal logic error"))
    | .ok true => none

/-- `MintingEnabled`. -/
def mintingEnabled (w : World σ ε) (receiver : AccAddress) (token : String) :
    Except String TokenPair :=
  let s := w.registry.store
  if !s.params.enableErc20 then
    .error "module is currently disabled by governance: erc20 module is disabled"
  else
    match s.getTokenPairID token with
    | none | some [] =>
      .error ("token '" ++ token ++ "' not registered by id: token pair not found")
    | some id =>
      match s.getTokenPair id with
      | none => .error ("token '" ++ token ++ "' not registered: token pair not found")
      | some pair =>
        if !pair.enabled then
          .error ("minting token '" ++ token ++
            "' is not enabled by governance: erc20 token pair is disabled")
        else if m.bankKeeper.blockedAddr receiver then
          .error (m.addressText receiver ++
            " is not allowed to receive transactions: unauthorized")
        else if !m.isSendEnabledCoin w.bank pair.denom then
          .error ("minting '" ++ token ++ "' coins to an external address is currently " ++
            "disabled: send transactions are disabled")
        else .ok pair

/-! ## From tokens to coins -/

/-- The coins of `ConvertERC20IntoCoinsForNativeToken`, minted and sent to the receiver. -/
def mintConverted (w : World σ ε) (pair : TokenPair) (amount : Int) (receiver : AccAddress) :
    World σ ε × Option Fault :=
  let coins : Coins := [(pair.denom, amount)]
  let balanceCoin := m.bankKeeper.getBalance w.bank receiver pair.denom
  match m.bankKeeper.mintCoins w.bank moduleName coins with
  | .error f => (w, some (bankFault "" f))
  | .ok minted =>
    match m.bankKeeper.sendCoinsFromModuleToAccount minted moduleName receiver coins with
    | .error f => ({ w with bank := minted }, some (bankFault "" f))
    | .ok sent =>
      if m.bankKeeper.getBalance sent receiver pair.denom ≠ balanceCoin + amount then
        ({ w with bank := sent },
          some (.err "invalid coin balance: post transfer balance invariant failed"))
      else ({ w with bank := sent }, none)

/-- The escrow of `ConvertERC20IntoCoinsForNativeToken`, and what follows it. -/
def escrowTokens (w : World σ ε) (mode : CallMode) (pair : TokenPair) (amount : Int)
    (receiver : AccAddress) (sender : Address) : World σ ε × Option Fault :=
  let contract := pair.getERC20Contract
  match m.evmKeeper.balanceOf w.evm contract m.moduleAddress with
  | none => (w, some (.err "failed to retrieve balance: EVM call unexpected error"))
  | some balanceToken =>
    match m.evmKeeper.transfer w.evm mode sender contract m.moduleAddress amount with
    | (evm, .error err) => ({ w with evm }, some (.err err))
    | (evm, .ok res) =>
      match m.checkResponse res contract "failed to execute transfer" with
      | some fault => ({ w with evm }, some fault)
      | none =>
        match m.evmKeeper.balanceOf evm contract m.moduleAddress with
        | none => ({ w with evm },
            some (.err "failed to retrieve balance: EVM call unexpected error"))
        | some balanceTokenAfter =>
          if balanceTokenAfter ≠ balanceToken + amount then
            ({ w with evm }, some (.err ("invalid token balance - expected: " ++
              toString (balanceToken + amount) ++ ", actual: " ++
              toString balanceTokenAfter ++ ": post transfer balance invariant failed")))
          else m.mintConverted { w with evm } pair amount receiver

/-- The pair is deleted from the stores. -/
def deletePair (w : World σ ε) (pair : TokenPair) : World σ ε :=
  { w with registry :=
      { w.registry with store := m.keeper.deleteTokenPair w.registry.store pair } }

/-- `ConvertERC20IntoCoinsForNativeToken`. -/
def convertERC20IntoCoinsForNativeToken (w : World σ ε) (mode : CallMode) (contract : Address)
    (amount : Int) (receiver : AccAddress) (sender : Address) : World σ ε × Option Fault :=
  match m.mintingEnabled w receiver (m.keeper.addressString contract) with
  | .error err => (w, some (.err err))
  | .ok pair =>
    if !pair.isNativeERC20 then
      if pair.isNativeCoin then
        (w, some (.err "native coins manual conversion is disabled"))
      else (w, some (.err "undefined owner of contract pair"))
    else if !m.evmKeeper.hasCodeHash w.evm pair.getERC20Contract then (m.deletePair w pair, none)
    else m.escrowTokens w mode pair amount receiver sender

/-! ## From coins to tokens -/

/-- The release of `ConvertCoinNativeERC20`, once the coins are escrowed. -/
def unescrowTokens (w : World σ ε) (pair : TokenPair) (amount : Int) (receiver : Address)
    (callFromPrecompile : Bool) (balanceToken : Int) : World σ ε × Option Fault :=
  let contract := pair.getERC20Contract
  match m.evmKeeper.transfer w.evm { commit := true, callFromPrecompile } m.moduleAddress contract
      receiver amount with
  | (evm, .error err) => ({ w with evm }, some (.err err))
  | (evm, .ok res) =>
    match m.checkResponse res contract "failed to execute unescrow tokens from user" with
    | some fault => ({ w with evm }, some fault)
    | none =>
      match m.evmKeeper.balanceOf evm contract receiver with
      | none => ({ w with evm },
          some (.err "failed to retrieve balance: EVM call unexpected error"))
      | some balanceTokenAfter =>
        if balanceTokenAfter ≠ balanceToken + amount then
          ({ w with evm }, some (.err ("invalid token balance - expected: " ++
            toString (balanceToken + amount) ++ ", actual: " ++
            toString balanceTokenAfter ++ ": post transfer balance invariant failed")))
        else
          match m.bankKeeper.burnCoins w.bank moduleName [(pair.denom, amount)] with
          | .error f => ({ w with evm }, some (bankFault "failed to burn coins: " f))
          | .ok bank => ({ w with bank, evm }, none)

/-- `ConvertCoinNativeERC20`. -/
def convertCoinNativeERC20 (w : World σ ε) (pair : TokenPair) (amount : Int) (receiver : Address)
    (sender : AccAddress) (callFromPrecompile : Bool) : World σ ε × Option Fault :=
  if amount ≤ 0 then
    (w, some (.err "converted coin amount must be positive: token amount is negative"))
  else
    match m.evmKeeper.balanceOf w.evm pair.getERC20Contract receiver with
    | none => (w, some (.err "failed to retrieve balance: EVM call unexpected error"))
    | some balanceToken =>
      match m.bankKeeper.sendCoinsFromAccountToModule w.bank sender moduleName
          [(pair.denom, amount)] with
      | .error f => (w, some (bankFault "failed to escrow coins: " f))
      | .ok bank =>
        m.unescrowTokens { w with bank } pair amount receiver callFromPrecompile balanceToken

/-- `ConvertCoin`. -/
def convertCoin (w : World σ ε) (coin : Coin) (receiver : Address) (sender : AccAddress) :
    World σ ε × Option Fault :=
  match m.mintingEnabled w (addressBytes receiver) coin.1 with
  | .error err => (w, some (.err err))
  | .ok pair =>
    if pair.isNativeERC20 then
      if !m.evmKeeper.hasCodeHash w.evm pair.getERC20Contract then (m.deletePair w pair, none)
      else m.convertCoinNativeERC20 w pair coin.2 receiver sender false
    else if pair.isNativeCoin then
      (w, some (.err "native coins manual conversion is disabled"))
    else (w, some (.err "undefined owner of contract pair"))

/-! ## Callbacks of IBC -/

/-- A received transfer, with what the staking keeper and the EVM keeper answer. -/
structure ReceivedPacket where
  denom : String
  /-- `GetReceivedCoin`. -/
  coin : Coin
  receiver : String
  bondDenom : Except String String
  registerCodeHash : Option String

/-- The cases of `OnRecvPacket` by the pair of the coin. -/
def convertReceived (w : World σ ε) (packet : ReceivedPacket) (recipient : AccAddress) :
    World σ ε × Option Fault :=
  let s := w.registry.store
  match s.getTokenPair (s.getTokenPairID packet.coin.1) with
  | none =>
    if "ibc/".toList <+: packet.coin.1.toList then
      match m.keeper.registerERC20Extension (m.evmKeeper.hasCodeHash w.evm)
          packet.registerCodeHash s packet.coin.1 with
      | (store, .error err) =>
        ({ w with registry := { w.registry with store } }, some (.err err))
      | (store, .ok _) => ({ w with registry := { w.registry with store } }, none)
    else (w, none)
  | some pair =>
    if !pair.isNativeERC20 then (w, none)
    else if !pair.enabled then (w, none)
    else
      match m.mintingEnabled w recipient packet.coin.1 with
      | .error err => (w, some (.err err))
      | .ok pair =>
        m.convertCoinNativeERC20 w pair packet.coin.2 (bytesToAddress recipient) recipient false

/-- `OnRecvPacket`, where a fault is an error acknowledgement. -/
def onRecvPacket (w : World σ ε) (packet : ReceivedPacket) : World σ ε × Option Fault :=
  if !w.registry.store.params.enableErc20 then (w, none)
  else if "factory/".toList <+: packet.denom.toList then (w, none)
  else
    match packet.bondDenom with
    | .error err => (w, some (.err err))
    | .ok bondDenom =>
      if packet.coin.1 = bondDenom then (w, none)
      else
        match m.stringToBytes packet.receiver with
        | .error err => (w, some (.err ("invalid recipient: " ++ err)))
        | .ok recipient =>
          if m.isModuleAccount recipient then (w, none)
          else m.convertReceived w packet recipient

/-- The packet data of a transfer. -/
structure PacketData where
  denom : String
  amount : String
  sender : String

/-- What `ConvertCoinToERC20FromPacket` converts: a pair, an amount and the sender. -/
def refundConversion (w : World σ ε) (data : PacketData) :
    Except String (Option (TokenPair × Int × AccAddress)) :=
  let s := w.registry.store
  (m.stringToBytes data.sender).map fun sender =>
    match s.getTokenPair (s.getTokenPairID data.denom) with
    | none => none
    | some pair =>
      let coin := m.getSentCoin data.denom data.amount
      if !pair.isNativeERC20 then none
      else if !s.params.enableErc20 || !s.isDenomRegistered coin.1 then none
      else if m.isModuleAccount sender then none
      else some (pair, coin.2, sender)

/-- `ConvertCoinToERC20FromPacket`. An error of the conversion is dropped. -/
def convertCoinToERC20FromPacket (w : World σ ε) (data : PacketData) : World σ ε × Option Fault :=
  match m.refundConversion w data with
  | .error err => (w, some (.err err))
  | .ok none => (w, none)
  | .ok (some (pair, amount, sender)) =>
    match m.convertCoinNativeERC20 w pair amount (bytesToAddress sender) sender false with
    | (w, some (.err _)) => (w, none)
    | result => result

/-- The response of an acknowledgement. -/
inductive Acknowledgement
  | error
  | result

/-- `OnAcknowledgementPacket`. -/
def onAcknowledgementPacket (w : World σ ε) (data : PacketData) :
    Acknowledgement → World σ ε × Option Fault
  | .error => m.convertCoinToERC20FromPacket w data
  | .result => (w, none)

/-- `OnTimeoutPacket`. -/
def onTimeoutPacket (w : World σ ε) (data : PacketData) : World σ ε × Option Fault :=
  m.convertCoinToERC20FromPacket w data

end Modules

end InfiniteEvm.Erc20
