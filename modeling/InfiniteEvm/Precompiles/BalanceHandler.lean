import InfiniteEvm.StateDB.Commit
import InfiniteEvm.VM.CoinInfo

/-!
# The balance handler of precompile calls

`precompiles/common/balance_handler.go` and `utils.go`. Native code moves coins in the
bank; the handler reads the bank events the code emitted and changes the balances of the
state database accordingly.
-/

namespace InfiniteEvm

open Std Library SnapshotMulti

/-- An SDK event. -/
structure Event where
  type : String
  attributes : List (String × String)
  deriving DecidableEq

/-- `GetAttribute`. -/
def Event.getAttribute (event : Event) (key : String) : Option String :=
  event.attributes.lookup key

/-- What the handler uses of the SDK: the texts of addresses and coins, and the addresses
the bank blocks. -/
structure BankCodec where
  info : EvmCoinInfo
  accAddressFromBech32 : String → Except String Bytes
  parseCoinsNormalized : String → Except String Coins
  blockedAddr : Bytes → Bool

/-- A bank that knows the listed texts and blocks no address. -/
def BankCodec.ofTables (info : EvmCoinInfo) (addrs : List (String × Bytes))
    (coins : List (String × Coins)) : BankCodec where
  info := info
  accAddressFromBech32 text := match addrs.lookup text with
    | some addr => .ok addr
    | none => .error "decoding bech32 failed"
  parseCoinsNormalized text := match coins.lookup text with
    | some coins => .ok coins
    | none => .error "invalid decimal coin expression"
  blockedAddr _ := false

def eventTypeCoinSpent : String := "coin_spent"
def eventTypeCoinReceived : String := "coin_received"
def attributeKeySpender : String := "spender"
def attributeKeyReceiver : String := "receiver"
def attributeKeyAmount : String := "amount"

/-- `ParseAddress`. -/
def parseAddress (codec : BankCodec) (event : Event) (key : String) : Except String Bytes :=
  match event.getAttribute key with
  | none => .error ("event " ++ event.type.quote ++ " missing attribute " ++ key.quote)
  | some value =>
    match codec.accAddressFromBech32 value with
    | .error err => .error ("invalid address " ++ value.quote ++ ": " ++ err)
    | .ok addr => .ok addr

/-- `ParseAmount`. Its error about a missing attribute always names the spent event. -/
def parseAmount (codec : BankCodec) (event : Event) : Except String Uint256 :=
  match event.getAttribute attributeKeyAmount with
  | none => .error ("event " ++ eventTypeCoinSpent.quote ++ " missing attribute " ++
      attributeKeyAmount.quote)
  | some value =>
    match codec.parseCoinsNormalized value with
    | .error err => .error ("failed to parse coins from " ++ value.quote ++ ": " ++ err)
    | .ok coins =>
      match uint256FromBigInt
          (codec.info.convertAmountTo18Decimals (coins.amountOf codec.info.denom)) with
      | .error err => .error ("failed to convert coin amount to Uint256: " ++ err)
      | .ok amount => .ok amount

namespace StateDB

variable {K V : Type*} [Ord K] [TransOrd K]
variable (env : Env K V Event) (codec : BankCodec)

/-- One side of a transfer: parse the address under `key` and the amount, and change the
balance unless the address is blocked. -/
def applyBankEvent (role key : String) (change : StateDB K V Event → Address → Uint256 →
    StateDB K V Event) (s : StateDB K V Event) (event : Event) :
    Option String × StateDB K V Event :=
  match parseAddress codec event key with
  | .error err => (some ("failed to parse " ++ role ++ " address from event " ++
      event.type.quote ++ ": " ++ err), s)
  | .ok addr =>
    if codec.blockedAddr addr then (none, s)
    else
      match parseAmount codec event with
      | .error err => (some ("failed to parse amount from event " ++ event.type.quote ++
          ": " ++ err), s)
      | .ok amount => (none, change s (bytesToAddress addr) amount)

/-- The body of the loop of `AfterBalanceChange`. -/
def handleEvent (s : StateDB K V Event) (event : Event) : Option String × StateDB K V Event :=
  if event.type = eventTypeCoinSpent then
    applyBankEvent codec "spender" attributeKeySpender
      (fun s a amount => (s.subBalance env a amount).2) s event
  else if event.type = eventTypeCoinReceived then
    applyBankEvent codec "receiver" attributeKeyReceiver
      (fun s a amount => (s.addBalance env a amount).2) s event
  else (none, s)

/-- `IsEventProcessed`. -/
def isEventProcessed (s : StateDB K V Event) (idx : Nat) : Bool := idx < s.processedEventsCount

/-- The loop of `AfterBalanceChange` over the events from index `idx` on. -/
def handleEvents (s : StateDB K V Event) : Nat → List Event → Option String × StateDB K V Event
  | _, [] => (none, s)
  | idx, event :: rest =>
    if s.isEventProcessed idx then handleEvents s (idx + 1) rest
    else
      match s.handleEvent env codec event with
      | (some err, s) => (some err, s)
      | (none, s) => handleEvents s (idx + 1) rest

/-- `AfterBalanceChange`, on the events of the cache context from `prevEventsLen` on. -/
def afterBalanceChange (s : StateDB K V Event) (prevEventsLen : Nat) :
    Except Panic (Option String × StateDB K V Event) :=
  match s.cache with
  | none => .error .nilDereference
  | some c =>
    if c.events.length < prevEventsLen then .error .indexOutOfRange
    else .ok (s.handleEvents env codec prevEventsLen (c.events.drop prevEventsLen))

end StateDB

end InfiniteEvm
