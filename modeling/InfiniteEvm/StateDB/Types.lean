import InfiniteEvm.Library.BigEndian
import InfiniteEvm.Store.SnapshotMulti

/-!
# Accounts, contexts and the keeper interface

The types of `x/vm/statedb` below the state database, and the `Keeper` interface it
reads from and commits to. A keeper method sees the contents of a context and answers
with a value, or with the writes and events it makes there.
-/

namespace InfiniteEvm

open Std Library SnapshotMulti BigEndian

abbrev Address := BitVec 160
abbrev Hash := BitVec 256
abbrev Uint256 := BitVec 256
abbrev Bytes := List UInt8

instance : TransOrd Address := BitVec.instTransOrd
instance : TransOrd Hash := BitVec.instTransOrd
instance : LawfulEqOrd Hash := BitVec.instLawfulEqOrd

/-- `Address.Bytes`. -/
def addressBytes (a : Address) : Bytes := toBytes 20 a.toNat

/-- `BytesToAddress`: the last 20 bytes, padded on the left. -/
def bytesToAddress (bytes : Bytes) : Address := BitVec.ofNat 160 (ofBytes bytes)

/-- `Hash.Bytes`. -/
def hashBytes (h : Hash) : Bytes := toBytes 32 h.toNat

/-- `BytesToHash`: the last 32 bytes, padded on the left. -/
def bytesToHash (bytes : Bytes) : Hash := BitVec.ofNat 256 (ofBytes bytes)

theorem addressBytes_inj {a b : Address} (h : addressBytes a = addressBytes b) : a = b :=
  BitVec.eq_of_toNat_eq (toBytes_inj a.isLt b.isLt h)

theorem hashBytes_inj {a b : Hash} (h : hashBytes a = hashBytes b) : a = b :=
  BitVec.eq_of_toNat_eq (toBytes_inj a.isLt b.isLt h)

theorem bytesToHash_hashBytes (h : Hash) : bytesToHash (hashBytes h) = h := by
  have hlt : h.toNat < 256 ^ 32 := h.isLt
  rw [bytesToHash, hashBytes, ofBytes_toBytes, Nat.mod_eq_of_lt hlt, BitVec.ofNat_toNat,
    BitVec.setWidth_eq]

/-- `Uint256FromBigInt`. -/
def uint256FromBigInt (i : Int) : Except String Uint256 :=
  if i < 0 then
    .error ("trying to convert negative *big.Int (" ++ toString i ++ ") to uint256.Int")
  else if 2 ^ 256 ≤ i then
    .error ("overflow trying to convert *big.Int (" ++ toString i ++ ") to uint256.Int (" ++
      toString (i % 2 ^ 256) ++ ")")
  else .ok (BitVec.ofInt 256 i)

/-- The run-time panics of the modelled code. -/
inductive Panic
  /-- `Refund counter below zero`. -/
  | refundBelowZero (gas refund : BitVec 64)
  /-- `revision id cannot be reverted`. -/
  | revisionCannotBeReverted (id : Int)
  /-- `reverting slot change, address not present in list`. -/
  | slotAddressNotPresent
  /-- A slice index out of range. -/
  | indexOutOfRange
  /-- `snapshot index out of bound`. -/
  | snapshotOutOfBound (index : Int)
  /-- A store key without a registered store. -/
  | storeNotRegistered (key : String)
  /-- A nil pointer dereference. -/
  | nilDereference
  /-- `eip2929 and eip4762 are both activated`. -/
  | bothAccessRules
  deriving DecidableEq, Repr

/-- `Account`: the fields of an account that the EVM sees. -/
structure Account where
  nonce : BitVec 64
  balance : Uint256
  codeHash : Hash
  deriving DecidableEq

/-- The writes and events of a keeper method, and its error. What was written before
an error stays written. -/
structure Effects (K V E : Type*) where
  writes : List (String × K × Option V)
  events : List E
  err : Option String

/-- `Keeper`, with the hash function the state database uses beside it. -/
structure Env (K V E : Type*) where
  keccak256 : Bytes → Hash
  getAccount : Reads K V → Address → Option Account
  getState : Reads K V → Address → Hash → Hash
  getCode : Reads K V → Hash → Option Bytes
  setAccount : Reads K V → Address → Account → Effects K V E
  setState : Reads K V → Address → Hash → Hash → List (String × K × Option V)
  deleteState : Reads K V → Address → Hash → List (String × K × Option V)
  setCode : Reads K V → Hash → Bytes → List (String × K × Option V)
  deleteCode : Reads K V → Hash → List (String × K × Option V)
  deleteAccount : Reads K V → Address → Effects K V E

section Env

variable {K V E : Type*}

/-- The keeper of a chain without accounts, which keeps nothing. -/
def Env.empty : Env K V E where
  keccak256 := fun _ => 0
  getAccount := fun _ _ => none
  getState := fun _ _ _ => 0
  getCode := fun _ _ => none
  setAccount := fun _ _ _ => { writes := [], events := [], err := none }
  setState := fun _ _ _ _ => []
  deleteState := fun _ _ _ => []
  setCode := fun _ _ _ => []
  deleteCode := fun _ _ => []
  deleteAccount := fun _ _ => { writes := [], events := [], err := none }

/-- `EmptyCodeHash`, the hash of no code. -/
def Env.emptyCodeHash (env : Env K V E) : Hash := env.keccak256 []

def Env.isEmptyCodeHash (env : Env K V E) (h : Hash) : Bool := h == env.emptyCodeHash

def Effects.none : Effects K V E := { writes := [], events := [], err := .none }

def Effects.ofWrites (writes : List (String × K × Option V)) : Effects K V E :=
  { writes := writes, events := [], err := .none }

/-- Go on with `f` on the contents left by `e`, unless `e` failed. -/
def Effects.andThen [Ord K] [DecidableEq K] (e : Effects K V E) (r : Reads K V)
    (f : Reads K V → Effects K V E) : Effects K V E :=
  match e.err with
  | some _ => e
  | .none =>
    let e' := f (overwritten r e.writes)
    { writes := e.writes ++ e'.writes, events := e.events ++ e'.events, err := e'.err }

end Env

section Context

variable {K V E : Type*} [Ord K] [TransOrd K]

/-- What the state database uses of an SDK context: its stores and its events. -/
structure Context (K : Type*) [Ord K] (V E : Type*) where
  stores : FMap String (FMap K V)
  events : List E

/-- The contents of a context. -/
def Context.reads (c : Context K V E) : Reads K V :=
  fun key k => (c.stores[key]?).bind fun st => st[k]?

/-- One write to a context, which panics if the store key is not mounted. -/
def Context.put (c : Context K V E) (w : String × K × Option V) : Except Panic (Context K V E) :=
  match c.stores[w.1]? with
  | none => .error (.storeNotRegistered w.1)
  | some st => .ok { c with stores := c.stores.insert w.1 (Overlay.put st w.2.1 w.2.2) }

/-- The cache context of precompile calls: the snapshot store and its own events. -/
structure CacheContext (K : Type*) [Ord K] (V E : Type*) where
  multiStore : SnapshotMulti.Store K V
  events : List E

def CacheContext.put (c : CacheContext K V E) (w : String × K × Option V) :
    Except Panic (CacheContext K V E) :=
  match SnapshotMulti.put c.multiStore w.1 w.2.1 w.2.2 with
  | none => .error (.storeNotRegistered w.1)
  | some ms => .ok { c with multiStore := ms }

end Context

end InfiniteEvm
