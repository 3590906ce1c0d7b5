import InfiniteEvm.Library.Search
import InfiniteEvm.Library.UndoLog
import InfiniteEvm.StateDB.AccessList
import InfiniteEvm.StateDB.StateObject

/-!
# The state database

`x/vm/statedb/statedb.go` and `journal.go`. The database caches accounts over a
context, journals every change so that it can be reverted, and holds the cache context
of precompile calls. Objects are reached through the database's map only, so a pointer
to an object of the source is the object's value under its address here.
-/

namespace InfiniteEvm

open Std Library SnapshotMulti UndoLog

/-- A log with the fields the database fills in. -/
structure Log where
  address : Address
  topics : List Hash
  data : Bytes
  txIndex : Nat
  index : Nat
  deriving DecidableEq

/-- `JournalEntry`: one constructor for each entry type. -/
inductive JournalEntry (E : Type*)
  | createObjectChange (account : Address)
  | resetObjectChange (prev : StateObject)
  | selfDestructChange (account : Address) (prev : Bool) (prevbalance : Uint256)
  | balanceChange (account : Address) (prev : Uint256)
  | nonceChange (account : Address) (prev : BitVec 64)
  | storageChange (account : Address) (key prevalue : Hash)
  | transientStorageChange (account : Address) (key prevalue : Hash)
  | codeChange (account : Address) (prevcode : Option Bytes) (prevhash : Hash)
  | refundChange (prev : BitVec 64)
  | addLogChange
  | accessListAddAccountChange (address : Address)
  | accessListAddSlotChange (address : Address) (slot : Hash)
  | precompileCallChange (snapshot : Int) (prevEvents : List E) (prevProcessedEventCount : Nat)
  | createContractChange (account : Address)

/-- `Dirtied`: the address an entry marks as modified. -/
def JournalEntry.dirtied {E : Type*} : JournalEntry E → Option Address
  | .createObjectChange account => some account
  | .selfDestructChange account _ _ => some account
  | .balanceChange account _ => some account
  | .nonceChange account _ => some account
  | .storageChange account _ _ => some account
  | .codeChange account _ _ => some account
  | .resetObjectChange _ => none
  | .transientStorageChange .. => none
  | .refundChange _ => none
  | .addLogChange => none
  | .accessListAddAccountChange _ => none
  | .accessListAddSlotChange .. => none
  | .precompileCallChange .. => none
  | .createContractChange _ => none

/-- The counts of changes by dirty address. -/
abbrev Dirties := FMap Address Int

/-- The counting of `append`. -/
def Dirties.mark (d : Dirties) : Option Address → Dirties
  | none => d
  | some a => d.insert a ((d[a]?).getD 0 + 1)

/-- The counting of `Revert`, which drops an address when its count gets to zero. -/
def Dirties.unmark (d : Dirties) : Option Address → Dirties
  | none => d
  | some a =>
    if (d[a]?).getD 0 - 1 = 0 then d.erase a else d.insert a ((d[a]?).getD 0 - 1)

structure Journal (E : Type*) where
  entries : List (JournalEntry E)
  dirties : Dirties

/-- `revision`. -/
structure Revision where
  id : Int
  journalIndex : Nat
  deriving DecidableEq

/-- `StateDB`, without the keeper. There is a cache context exactly when the source's
`writeCache` is set. -/
structure StateDB (K : Type*) [Ord K] (V E : Type*) where
  ctx : Context K V E
  cache : Option (CacheContext K V E)
  transientStorage : TransientStorage
  journal : Journal E
  validRevisions : List Revision
  nextRevisionID : Int
  stateObjects : FMap Address StateObject
  txIndex : Nat
  refund : BitVec 64
  logs : List Log
  accessList : AccessList
  precompileCallsCounter : BitVec 8
  processedEventsCount : Nat

namespace StateDB

variable {K V E : Type*} [Ord K] [TransOrd K]

/-- `New`. -/
def new (ctx : Context K V E) (txIndex : Nat) : StateDB K V E where
  ctx := ctx
  cache := none
  transientStorage := ∅
  journal := { entries := [], dirties := ∅ }
  validRevisions := []
  nextRevisionID := 0
  stateObjects := ∅
  txIndex := txIndex
  refund := 0
  logs := []
  accessList := AccessList.newAccessList
  precompileCallsCounter := 0
  processedEventsCount := ctx.events.length

/-- `journal.append`. -/
def append (s : StateDB K V E) (e : JournalEntry E) : StateDB K V E :=
  { s with journal :=
      { entries := s.journal.entries ++ [e], dirties := s.journal.dirties.mark e.dirtied } }

/-- `setStateObject`. -/
def setStateObject (s : StateDB K V E) (obj : StateObject) : StateDB K V E :=
  { s with stateObjects := s.stateObjects.insert obj.address obj }

variable (env : Env K V E)

/-- `getStateObject`, which loads an account from the keeper on first use. -/
def getStateObject (s : StateDB K V E) (a : Address) : Option StateObject × StateDB K V E :=
  match s.stateObjects[a]? with
  | some obj => (some obj, s)
  | none =>
    match env.getAccount s.ctx.reads a with
    | none => (none, s)
    | some account =>
      let obj := StateObject.newObject a account
      (some obj, s.setStateObject obj)

/-- The account `newObject` makes of `Account{}`. -/
def zeroAccount : Account := { nonce := 0, balance := 0, codeHash := env.emptyCodeHash }

/-- `createObject`: the new object, the one it replaces, and the database. -/
def createObject (s : StateDB K V E) (a : Address) :
    StateObject × Option StateObject × StateDB K V E :=
  let (prev, s) := s.getStateObject env a
  let newobj := StateObject.newObject a (zeroAccount env)
  match prev with
  | none => (newobj, none, (s.append (.createObjectChange a)).setStateObject newobj)
  | some obj => (newobj, some obj, (s.append (.resetObjectChange obj)).setStateObject newobj)

/-- `getOrNewStateObject`. -/
def getOrNewStateObject (s : StateDB K V E) (a : Address) : StateObject × StateDB K V E :=
  match s.getStateObject env a with
  | (some obj, s) => (obj, s)
  | (none, s) =>
    let (obj, _, s) := s.createObject env a
    (obj, s)

/-! ## Getters -/

/-- `Exist`. -/
def exist (s : StateDB K V E) (a : Address) : Bool × StateDB K V E :=
  let (obj, s) := s.getStateObject env a
  (obj.isSome, s)

/-- `Empty`. -/
def empty (s : StateDB K V E) (a : Address) : Bool × StateDB K V E :=
  let (obj, s) := s.getStateObject env a
  ((obj.map (StateObject.empty env)).getD true, s)

/-- `GetBalance`. -/
def getBalance (s : StateDB K V E) (a : Address) : Uint256 × StateDB K V E :=
  let (obj, s) := s.getStateObject env a
  ((obj.map fun o => o.account.balance).getD 0, s)

/-- `GetNonce`. -/
def getNonce (s : StateDB K V E) (a : Address) : BitVec 64 × StateDB K V E :=
  let (obj, s) := s.getStateObject env a
  ((obj.map fun o => o.account.nonce).getD 0, s)

/-- `GetCode`. -/
def getCode (s : StateDB K V E) (a : Address) : Option Bytes × StateDB K V E :=
  match s.getStateObject env a with
  | (none, s) => (none, s)
  | (some obj, s) =>
    let (code, obj) := StateObject.getCode env s.ctx.reads obj
    (code, s.setStateObject obj)

/-- `GetCodeHash`, the zero hash for no account. -/
def getCodeHash (s : StateDB K V E) (a : Address) : Hash × StateDB K V E :=
  let (obj, s) := s.getStateObject env a
  ((obj.map fun o => o.account.codeHash).getD 0, s)

/-- `GetState`. -/
def getState (s : StateDB K V E) (a : Address) (key : Hash) : Hash × StateDB K V E :=
  match s.getStateObject env a with
  | (none, s) => (0, s)
  | (some obj, s) =>
    let (value, obj) := StateObject.getState env s.ctx.reads obj key
    (value, s.setStateObject obj)

/-- `GetCommittedState`. -/
def getCommittedState (s : StateDB K V E) (a : Address) (key : Hash) : Hash × StateDB K V E :=
  match s.getStateObject env a with
  | (none, s) => (0, s)
  | (some obj, s) =>
    let (value, obj) := StateObject.getCommittedState env s.ctx.reads obj key
    (value, s.setStateObject obj)

/-- `HasSelfDestructed`. -/
def hasSelfDestructed (s : StateDB K V E) (a : Address) : Bool × StateDB K V E :=
  let (obj, s) := s.getStateObject env a
  ((obj.map fun o => o.selfDestructed).getD false, s)

/-- The `newContract` flag of an account. -/
def isNewContract (s : StateDB K V E) (a : Address) : Bool × StateDB K V E :=
  let (obj, s) := s.getStateObject env a
  ((obj.map fun o => o.newContract).getD false, s)

/-- `GetTransientState`. -/
def getTransientState (s : StateDB K V E) (a : Address) (key : Hash) : Hash :=
  s.transientStorage.get a key

/-- `AddressInAccessList`. -/
def addressInAccessList (s : StateDB K V E) (a : Address) : Bool :=
  s.accessList.containsAddress a

/-- `SlotInAccessList`. -/
def slotInAccessList (s : StateDB K V E) (a : Address) (slot : Hash) : Except Panic (Bool × Bool) :=
  s.accessList.contains a slot

/-! ## Setters -/

/-- `SetBalance` of a state object: journal the old balance, then set. -/
def setObjectBalance (s : StateDB K V E) (obj : StateObject) (amount : Uint256) :
    Uint256 × StateDB K V E :=
  (obj.account.balance,
    (s.append (.balanceChange obj.address obj.account.balance)).setStateObject
      (obj.setBalance amount))

/-- `AddBalance`, with the previous balance. -/
def addBalance (s : StateDB K V E) (a : Address) (amount : Uint256) : Uint256 × StateDB K V E :=
  let (obj, s) := s.getOrNewStateObject env a
  if amount = 0 then (obj.account.balance, s)
  else s.setObjectBalance obj (obj.account.balance + amount)

/-- `SubBalance`, with the previous balance. -/
def subBalance (s : StateDB K V E) (a : Address) (amount : Uint256) : Uint256 × StateDB K V E :=
  let (obj, s) := s.getOrNewStateObject env a
  if amount = 0 then (obj.account.balance, s)
  else s.setObjectBalance obj (obj.account.balance - amount)

/-- `SetBalance`. -/
def setBalance (s : StateDB K V E) (a : Address) (amount : Uint256) : StateDB K V E :=
  let (obj, s) := s.getOrNewStateObject env a
  (s.setObjectBalance obj amount).2

/-- `SetNonce`. -/
def setNonce (s : StateDB K V E) (a : Address) (nonce : BitVec 64) : StateDB K V E :=
  let (obj, s) := s.getOrNewStateObject env a
  (s.append (.nonceChange obj.address obj.account.nonce)).setStateObject (obj.setNonce nonce)

/-- `SetCode`, with the code the object held before. -/
def setCode (s : StateDB K V E) (a : Address) (code : Option Bytes) :
    Option Bytes × StateDB K V E :=
  let (obj, s) := s.getOrNewStateObject env a
  let (prevcode, obj') := StateObject.getCode env s.ctx.reads obj
  (obj.code,
    (s.append (.codeChange obj'.address prevcode obj'.account.codeHash)).setStateObject
      (obj'.setCode (env.keccak256 (code.getD [])) code))

/-- `SetState`, with the previous value. Nothing is journaled for an equal value. -/
def setState (s : StateDB K V E) (a : Address) (key value : Hash) : Hash × StateDB K V E :=
  let (obj, s) := s.getOrNewStateObject env a
  let (prev, obj) := StateObject.getState env s.ctx.reads obj key
  if prev = value then (prev, s.setStateObject obj)
  else
    (prev, (s.append (.storageChange obj.address key prev)).setStateObject (obj.setState key value))

/-- `SetTransientState`. -/
def setTransientState (s : StateDB K V E) (a : Address) (key value : Hash) : StateDB K V E :=
  let prev := s.getTransientState a key
  if prev = value then s
  else
    { s.append (.transientStorageChange a key prev) with
      transientStorage := s.transientStorage.set a key value }

/-- `AddRefund`. -/
def addRefund (s : StateDB K V E) (gas : BitVec 64) : StateDB K V E :=
  { s.append (.refundChange s.refund) with refund := s.refund + gas }

/-- `SubRefund`. -/
def subRefund (s : StateDB K V E) (gas : BitVec 64) : Except Panic (StateDB K V E) :=
  if s.refund < gas then .error (.refundBelowZero gas s.refund)
  else .ok { s.append (.refundChange s.refund) with refund := s.refund - gas }

/-- `AddLog`. -/
def addLog (s : StateDB K V E) (log : Log) : StateDB K V E :=
  { s.append .addLogChange with
    logs := s.logs ++ [{ log with txIndex := s.txIndex, index := s.logs.length }] }

/-- `CreateAccount`: a fresh object that keeps the balance of the one it replaces. -/
def createAccount (s : StateDB K V E) (a : Address) : StateDB K V E :=
  match s.createObject env a with
  | (_, none, s) => s
  | (newobj, some prev, s) => s.setStateObject (newobj.setBalance prev.account.balance)

/-- `CreateContract`. -/
def createContract (s : StateDB K V E) (a : Address) : Except Panic (StateDB K V E) :=
  match s.getStateObject env a with
  | (none, _) => .error .nilDereference
  | (some obj, s) =>
    if obj.newContract then .ok s
    else .ok ((s.setStateObject { obj with newContract := true }).append
      (.createContractChange a))

/-- `SelfDestruct`, with the balance before. -/
def selfDestruct (s : StateDB K V E) (a : Address) : Uint256 × StateDB K V E :=
  match s.getStateObject env a with
  | (none, s) => (0, s)
  | (some obj, s) =>
    (obj.account.balance,
      (s.append (.selfDestructChange a obj.selfDestructed obj.account.balance)).setStateObject
        { obj.setBalance 0 with selfDestructed := true })

/-- `SelfDestruct6780`: only a contract created in the same transaction is destructed. -/
def selfDestruct6780 (s : StateDB K V E) (a : Address) : (Uint256 × Bool) × StateDB K V E :=
  match s.getStateObject env a with
  | (none, s) => ((0, false), s)
  | (some obj, s) =>
    if obj.newContract then
      let (prev, s) := s.selfDestruct env a
      ((prev, true), s)
    else ((obj.account.balance, false), s)

/-- `AddAddressToAccessList`. -/
def addAddressToAccessList (s : StateDB K V E) (a : Address) : StateDB K V E :=
  let (al, added) := s.accessList.addAddress a
  if added then { s.append (.accessListAddAccountChange a) with accessList := al }
  else { s with accessList := al }

/-- `AddSlotToAccessList`. -/
def addSlotToAccessList (s : StateDB K V E) (a : Address) (slot : Hash) :
    Except Panic (StateDB K V E) :=
  (s.accessList.addSlot a slot).map fun (al, addrMod, slotMod) =>
    let s := { s with accessList := al }
    let s := if addrMod then s.append (.accessListAddAccountChange a) else s
    if slotMod then s.append (.accessListAddSlotChange a slot) else s

/-! ## Reverting -/

/-- `getStateObject(a)` followed by a change of the object, which must not be nil. -/
def modifyObject (s : StateDB K V E) (a : Address) (f : StateObject → StateObject) :
    Except Panic (StateDB K V E) :=
  match s.getStateObject env a with
  | (none, _) => .error .nilDereference
  | (some obj, s) => .ok (s.setStateObject (f obj))

/-- `RevertMultiStore`. -/
def revertMultiStore (s : StateDB K V E) (snapshot : Int) : Except Panic (StateDB K V E) :=
  match s.cache with
  | none => .error .nilDereference
  | some c =>
    match SnapshotMulti.revertToSnapshot c.multiStore snapshot with
    | none => .error (.snapshotOutOfBound snapshot)
    | some ms => .ok { s with cache := some { c with multiStore := ms } }

/-- `OverrideEvents` of the cache context's event manager. -/
def overrideEvents (s : StateDB K V E) (events : List E) : StateDB K V E :=
  { s with cache := s.cache.map fun c => { c with events := events } }

/-- `Revert` of a journal entry. -/
def revertEntry (s : StateDB K V E) : JournalEntry E → Except Panic (StateDB K V E)
  | .createObjectChange a => .ok { s with stateObjects := s.stateObjects.erase a }
  | .resetObjectChange prev => .ok (s.setStateObject prev)
  | .selfDestructChange a prev prevbalance =>
    match s.getStateObject env a with
    | (none, s) => .ok s
    | (some obj, s) =>
      .ok (s.setStateObject { obj.setBalance prevbalance with selfDestructed := prev })
  | .balanceChange a prev => s.modifyObject env a fun obj => obj.setBalance prev
  | .nonceChange a prev => s.modifyObject env a fun obj => obj.setNonce prev
  | .storageChange a key prevalue => s.modifyObject env a fun obj => obj.setState key prevalue
  | .transientStorageChange a key prevalue =>
    .ok { s with transientStorage := s.transientStorage.set a key prevalue }
  | .codeChange a prevcode prevhash =>
    s.modifyObject env a fun obj => obj.setCode prevhash prevcode
  | .refundChange prev => .ok { s with refund := prev }
  | .addLogChange =>
    if s.logs = [] then .error .indexOutOfRange else .ok { s with logs := s.logs.dropLast }
  | .accessListAddAccountChange a =>
    .ok { s with accessList := s.accessList.deleteAddress a }
  | .accessListAddSlotChange a slot =>
    (s.accessList.deleteSlot a slot).map fun al => { s with accessList := al }
  | .precompileCallChange snapshot prevEvents prevProcessed =>
    (s.revertMultiStore snapshot).map fun s =>
      { s.overrideEvents prevEvents with processedEventsCount := prevProcessed }
  | .createContractChange a =>
    s.modifyObject env a fun obj => { obj with newContract := false }

/-- One round of `journal.Revert`: undo the entry, then its dirty count. -/
def undoEntry (s : StateDB K V E) (e : JournalEntry E) : Except Panic (StateDB K V E) :=
  (s.revertEntry env e).map fun s =>
    { s with journal := { s.journal with dirties := s.journal.dirties.unmark e.dirtied } }

/-- `journal.Revert`: the entries from the last one down to the snapshot. -/
def revertJournal (s : StateDB K V E) (snapshot : Nat) : Except Panic (StateDB K V E) :=
  (undoAll (fun e s => s.undoEntry env e) (s.journal.entries.drop snapshot) s).map fun s =>
    { s with journal := { s.journal with entries := s.journal.entries.take snapshot } }

/-- `Snapshot`. -/
def snapshot (s : StateDB K V E) : Int × StateDB K V E :=
  (s.nextRevisionID,
    { s with
      nextRevisionID := s.nextRevisionID + 1
      validRevisions := s.validRevisions ++ [⟨s.nextRevisionID, s.journal.entries.length⟩] })

/-- `RevertToSnapshot`. -/
def revertToSnapshot (s : StateDB K V E) (revid : Int) : Except Panic (StateDB K V E) :=
  let idx := search s.validRevisions.length fun i =>
    ((s.validRevisions[i]?).map fun rev => decide (revid ≤ rev.id)).getD false
  match s.validRevisions[idx]? with
  | none => .error (.revisionCannotBeReverted revid)
  | some rev =>
    if rev.id ≠ revid then .error (.revisionCannotBeReverted revid)
    else (s.revertJournal env rev.journalIndex).map fun s' =>
      { s' with validRevisions := s'.validRevisions.take idx }

/-! ## Changes that are not journaled -/

/-- The fork rules `Prepare` looks at. -/
structure Rules where
  isEIP2929 : Bool
  isEIP4762 : Bool
  isShanghai : Bool

/-- The addresses `Prepare` starts its list with: sender, destination, precompiles. -/
def prepareAddresses (sender : Address) (dst : Option Address) (precompiles : List Address) :
    AccessList :=
  (sender :: (dst.toList ++ precompiles)).foldl (fun al a => (al.addAddress a).1)
    AccessList.newAccessList

/-- The slots of one address in the loop of `Prepare`. -/
def prepareSlots (address : Address) : List Hash → AccessList → Except Panic AccessList
  | [], al => .ok al
  | key :: rest, al =>
    (al.addSlot address key).bind fun (al, _) => prepareSlots address rest al

/-- The access list of the transaction in the loop of `Prepare`. -/
def prepareList : List (Address × List Hash) → AccessList → Except Panic AccessList
  | [], al => .ok al
  | (address, keys) :: rest, al =>
    (prepareSlots address keys (al.addAddress address).1).bind (prepareList rest)

/-- `Prepare`. -/
def prepare (s : StateDB K V E) (rules : Rules) (sender coinbase : Address)
    (dst : Option Address) (precompiles : List Address) (list : List (Address × List Hash)) :
    Except Panic (StateDB K V E) :=
  if rules.isEIP2929 && rules.isEIP4762 then .error .bothAccessRules
  else if rules.isEIP2929 then
    (prepareList list (prepareAddresses sender dst precompiles)).map fun al =>
      { s with
        accessList := if rules.isShanghai then (al.addAddress coinbase).1 else al
        transientStorage := ∅ }
  else .ok { s with transientStorage := ∅ }

/-- `SetStorage`. -/
def setStorage (s : StateDB K V E) (a : Address) (storage : Storage) : StateDB K V E :=
  let (obj, s) := s.getOrNewStateObject env a
  s.setStateObject (obj.setStorage storage)

/-- One address in the loop of `Finalise`. -/
def finaliseObject (deleteEmptyObjects : Bool) (objects : FMap Address StateObject)
    (a : Address) : FMap Address StateObject :=
  match objects[a]? with
  | none => objects
  | some obj =>
    if obj.selfDestructed || (deleteEmptyObjects && obj.empty env) then
      objects.erase obj.address
    else objects

/-- `Finalise`: dirty objects that self-destructed or are empty leave the cache. -/
def finalise (s : StateDB K V E) (deleteEmptyObjects : Bool) : StateDB K V E :=
  { s with stateObjects :=
      s.journal.dirties.keys.foldl (finaliseObject env deleteEmptyObjects) s.stateObjects }

end StateDB

end InfiniteEvm
