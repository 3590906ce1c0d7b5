import InfiniteEvm.VM.Balance

/-!
# The keeper of `x/vm`

`x/vm/keeper/statedb.go`, and what it uses of `keeper.go` and `utils.go`: the accounts,
code and storage of the EVM, kept in the store of the module, in `x/auth` and behind the
bank wrapper. A method runs on a session, which is what it has read from with what it
has written so far.
-/

namespace InfiniteEvm.VM

open Library SnapshotMulti

/-- `AccountI`. -/
structure AccountI where
  address : AccAddress
  pubKey : Bytes
  accountNumber : BitVec 64
  sequence : BitVec 64
  /-- The schedule of a vesting account. -/
  vesting : Option Bytes
  deriving DecidableEq

/-- `NewBaseAccount`. -/
def newBaseAccount (address : AccAddress) (pubKey : Bytes) (accountNumber sequence : BitVec 64) :
    AccountI :=
  { address, pubKey, accountNumber, sequence, vesting := none }

/-- What stores hold, decoded by the module that owns the store. -/
inductive Value
  | raw (bytes : Bytes)
  | account (acct : AccountI)
  | book (book : Book)

abbrev Contents := Reads Bytes Value
abbrev Write := String × Bytes × Option Value

/-- A context while a method of a keeper runs. -/
structure Session (E : Type) where
  start : Contents
  writes : List Write
  events : List E

namespace Session

variable {E : Type}

/-- Before the first write. -/
def on (r : Contents) : Session E := { start := r, writes := [], events := [] }

/-- What can be read now. -/
def reads (s : Session E) : Contents := overwritten s.start s.writes

def write (s : Session E) (ws : List Write) : Session E := { s with writes := s.writes ++ ws }

/-- The method returns. -/
def done (s : Session E) (err : Option String) : Effects Bytes Value E :=
  { writes := s.writes, events := s.events, err := err }

end Session

/-- The account keeper of `x/auth`, as far as this keeper uses it. -/
structure AuthKeeper where
  getAccount : Contents → AccAddress → Option AccountI
  newAccountWithAddress : Contents → AccAddress → AccountI × List Write
  setAccount : AccountI → List Write
  removeAccount : AccountI → List Write

/-- The text of an error. -/
def errorText : BankError → String
  | .invalidCoins text => text ++ ": invalid coins"
  | .unauthorized text => text ++ ": unauthorized"
  | .unknownAddress text => text ++ ": unknown address"
  | .insufficientFunds text => text ++ ": insufficient funds"
  | .other text => text
  | .wrapped text cause => text ++ ": " ++ errorText cause

/-- The text of a failure. A panic stops a commit as an error does. -/
def failureText : Failure → String
  | .err e => errorText e
  | .panic _ => "panic"

/-- `Keeper`. The iterator lists the keys of the module's store under a key prefix. -/
structure Keeper (E : Type) where
  keccak256 : Bytes → Hash
  accountKeeper : AuthKeeper
  bankWrapper : BankWrapper (Session E)
  iterator : Contents → Bytes → List Bytes

/-! ## Keys of the store -/

def storeKey : String := "evm"

def keyPrefixCode : Bytes := [1]
def keyPrefixStorage : Bytes := [2]
def keyPrefixCodeHash : Bytes := [4]

/-- `AddressStoragePrefix`. -/
def addressStoragePrefix (addr : Address) : Bytes := keyPrefixStorage ++ addressBytes addr

/-- `StateKey`. -/
def stateKey (addr : Address) (key : Hash) : Bytes := addressStoragePrefix addr ++ hashBytes key

def codeKey (codeHash : Hash) : Bytes := keyPrefixCode ++ hashBytes codeHash

def codeHashKey (addr : Address) : Bytes := keyPrefixCodeHash ++ addressBytes addr

/-- `store.Get` of the module's store. -/
def storeGet (r : Contents) (key : Bytes) : Option Bytes :=
  match r storeKey key with
  | some (.raw bytes) => some bytes
  | _ => none

/-- `store.Set` of the module's store. -/
def storeSet (key value : Bytes) : List Write := [(storeKey, key, some (.raw value))]

/-- `store.Delete` of the module's store. -/
def storeDelete (key : Bytes) : List Write := [(storeKey, key, none)]

/-- `ParseDelegation`: the code of a delegated account is a marker and an address. -/
def isDelegation (code : Bytes) : Bool := code.length = 23 && [0xef, 0x01, 0x00] <+: code

/-! ## Single entries -/

/-- `GetState`. -/
def getState (r : Contents) (addr : Address) (key : Hash) : Hash :=
  match storeGet r (stateKey addr key) with
  | none | some [] => 0
  | some value => bytesToHash value

/-- `SetState`. -/
def setState (addr : Address) (key : Hash) (value : Bytes) : List Write :=
  storeSet (stateKey addr key) value

/-- `DeleteState`. -/
def deleteState (addr : Address) (key : Hash) : List Write :=
  storeDelete (stateKey addr key)

/-- `GetCode`. -/
def getCode (r : Contents) (codeHash : Hash) : Option Bytes :=
  storeGet r (codeKey codeHash)

/-- `SetCode`. -/
def setCode (codeHash : Hash) (code : Bytes) : List Write :=
  storeSet (codeKey codeHash) code

/-- `DeleteCode`. -/
def deleteCode (codeHash : Hash) : List Write :=
  storeDelete (codeKey codeHash)

/-- `SetCodeHash`. -/
def setCodeHash (addr : Address) (codeHash : Hash) : List Write :=
  storeSet (codeHashKey addr) (hashBytes codeHash)

/-- `DeleteCodeHash`. -/
def deleteCodeHash (addr : Address) : List Write :=
  storeDelete (codeHashKey addr)

namespace Keeper

variable {E : Type} (k : Keeper E)

/-- `EmptyCodeHash`. -/
def emptyCodeHash : Hash := k.keccak256 []

/-- `GetCodeHash`. -/
def getCodeHash (r : Contents) (addr : Address) : Hash :=
  match storeGet r (codeHashKey addr) with
  | none | some [] => k.emptyCodeHash
  | some bytes => bytesToHash bytes

/-- `IsContract`. -/
def isContract (r : Contents) (addr : Address) : Bool :=
  let code := (getCode r (k.getCodeHash r addr)).getD []
  0 < code.length && !isDelegation code

/-! ## Accounts -/

/-- `GetAccount`. A balance that is no 256-bit number counts as none. -/
def getAccount (r : Contents) (addr : Address) : Option Account :=
  (k.accountKeeper.getAccount r (addressBytes addr)).map fun acct =>
    { nonce := acct.sequence
      balance := (k.bankWrapper.spendableCoin (.on r) addr).getD 0
      codeHash := k.getCodeHash r addr }

/-- The account that `SetAccount` updates, which may be a new one. -/
def accountForUpdate (s : Session E) (addr : Address) : AccountI × Session E :=
  match k.accountKeeper.getAccount s.reads (addressBytes addr) with
  | some acct => (acct, s)
  | none =>
    let (acct, ws) := k.accountKeeper.newAccountWithAddress s.reads (addressBytes addr)
    (acct, s.write ws)

/-- The write of `SetAccount` to the code hash of an account. -/
def updateCodeHash (addr : Address) (codeHash : Hash) : List Write :=
  if codeHash = k.emptyCodeHash then deleteCodeHash addr else setCodeHash addr codeHash

/-- `SetAccount`. -/
def setAccount (r : Contents) (addr : Address) (account : Account) : Effects Bytes Value E :=
  let (acct, s) := k.accountForUpdate (.on r) addr
  let s := s.write (k.updateCodeHash addr account.codeHash)
  let s := s.write (k.accountKeeper.setAccount { acct with sequence := account.nonce })
  match k.bankWrapper.setBalance s addr account.balance with
  | .error err => s.done (some (failureText err))
  | .ok s => s.done none

/-- The keys that `ForEachStorage` visits. -/
def storageKeys (r : Contents) (addr : Address) : List Hash :=
  (k.iterator r (addressStoragePrefix addr)).map bytesToHash

/-- `DeleteAccount`. -/
def deleteAccount (r : Contents) (addr : Address) : Effects Bytes Value E :=
  match k.accountKeeper.getAccount r (addressBytes addr) with
  | none => .none
  | some acct =>
    if !k.isContract r addr then
      { writes := [], events := [], err := some "only smart contracts can be self-destructed" }
    else
      let s := (Session.on r).write (k.accountKeeper.setAccount
        (newBaseAccount (addressBytes addr) acct.pubKey acct.accountNumber acct.sequence))
      match k.bankWrapper.setBalance s addr 0 with
      | .error err => s.done (some (failureText err))
      | .ok s =>
        let s := s.write ((k.storageKeys s.reads addr).flatMap (deleteState addr))
        let s := s.write (deleteCodeHash addr)
        (s.write (k.accountKeeper.removeAccount acct)).done none

/-- The keeper as the state database uses it. -/
def env : Env Bytes Value E where
  keccak256 := k.keccak256
  getAccount := k.getAccount
  getState := getState
  getCode := getCode
  setAccount := k.setAccount
  setState _ addr key value := setState addr key (hashBytes value)
  deleteState _ addr key := deleteState addr key
  setCode _ := setCode
  deleteCode _ := deleteCode
  deleteAccount := k.deleteAccount

end Keeper

end InfiniteEvm.VM
