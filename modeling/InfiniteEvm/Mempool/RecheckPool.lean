import InfiniteEvm.Library.Runs
import InfiniteEvm.Mempool.Reserver

/-!
# The pool of Cosmos transactions, beside the EVM pool

`RecheckMempool` of `mempool/recheck_pool.go` reserves the signers of a transaction when it
is inserted and releases them when it leaves. It shares the tracker with the legacy pool of
EVM transactions, which holds an address while it has transactions from it.
-/

namespace InfiniteEvm.Mempool

open Tracker

open Std (ExtTreeMap)
open Library

/-- What the pool reads from a transaction. -/
structure TxReader (Tx : Type*) where
  sigVerifiable : Tx → Bool
  getSigners : Tx → Except String (List Bytes)
  getSignaturesV2 : Tx → Except String (List (String × BitVec 64))

/-- `ExtMempool`, the pool inside. -/
structure ExtMempool (P Tx : Type*) where
  insert : P → Tx → Except String P
  remove : P → Tx → Except String P
  select : P → List Tx

/-- The inner pool takes in what is inserted, and gives up what is the same as a transaction that
is removed, if there is any. -/
structure ExtMempool.Lawful {P Tx : Type*} (inner : ExtMempool P Tx) (same : Tx → Tx → Prop) :
    Prop where
  inserted : ∀ p tx p', inner.insert p tx = .ok p' → tx ∈ inner.select p'
  insert_subset : ∀ p tx p', inner.insert p tx = .ok p' →
    ∀ x ∈ inner.select p', x = tx ∨ x ∈ inner.select p
  removed : ∀ p tx p', inner.remove p tx = .ok p' →
    ∀ x, x ∈ inner.select p' ↔ x ∈ inner.select p ∧ ¬same tx x
  missing : ∀ p tx err, inner.remove p tx = .error err → ∀ x ∈ inner.select p, ¬same tx x

variable {P Tx : Type*}

/-- `signerAddressesFromTx`. -/
def signerAddressesFromTx (reader : TxReader Tx) (tx : Tx) : Except String (List Address) :=
  if !reader.sigVerifiable tx then .error "tx does not implement GetSigners"
  else
    match reader.getSigners tx with
    | .error err => .error err
    | .ok [] => .error "tx contains no signers"
    | .ok signers => .ok (signers.map bytesToAddress)

/-- `extractSignerSequences`. -/
def extractSignerSequences (reader : TxReader Tx) (tx : Tx) :
    Except String (List (String × BitVec 64)) :=
  if !reader.sigVerifiable tx then .error "tx does not implement *signing.SigVerifiableTx"
  else reader.getSignaturesV2 tx

/-- A transaction after one that failed in the sequence of a signer. -/
def followsFailed (failedAtSequence : FMap String (BitVec 64))
    (signerSeqs : List (String × BitVec 64)) : Bool :=
  signerSeqs.any fun sig =>
    match failedAtSequence[sig.1]? with
    | some failedSeq => failedSeq < sig.2
    | none => false

/-- The lowest sequence of each signer that failed. -/
def markFailed (failedAtSequence : FMap String (BitVec 64))
    (signerSeqs : List (String × BitVec 64)) : FMap String (BitVec 64) :=
  signerSeqs.foldl (fun failed sig =>
    match failed[sig.1]? with
    | some existing => if sig.2 < existing then failed.insert sig.1 sig.2 else failed
    | none => failed.insert sig.1 sig.2) failedAtSequence

/-- The two pools of a node: the inner pool and its reader, and the ids of the handles. -/
structure Pools (P Tx : Type*) where
  reader : TxReader Tx
  inner : ExtMempool P Tx
  cosmosID : Int
  evmID : Int
  distinct : cosmosID ≠ evmID

/-- The tracker, the transactions of the inner pool, and how many transactions the EVM
pool has from an address. -/
structure PoolState (P : Type*) where
  accounts : Tracker
  pool : P
  evm : FMap Address Nat

namespace Pools

variable (pools : Pools P Tx)

/-- `Insert`. The arguments say whether a context is found and what the ante handler
answers. -/
def insert (s : PoolState P) (tx : Tx) (context ante : Option String) :
    Option String × PoolState P :=
  match signerAddressesFromTx pools.reader tx with
  | .error err => (some err, s)
  | .ok addrs =>
    match hold pools.cosmosID s.accounts addrs with
    | (some err, accounts) =>
      (some ("reserving " ++ toString addrs.length ++
        " addresses for cosmos recheck pool: " ++ err), { s with accounts := accounts })
    | (none, accounts) =>
      let s := { s with accounts := accounts }
      let cleanup := { s with
        accounts := (release pools.cosmosID accounts addrs).2 }
      match context with
      | some err => (some ("fetching latest context since rechecker has none: " ++ err), s)
      | none =>
        match ante with
        | some err => (some ("ante handler failed: " ++ err), cleanup)
        | none =>
          match pools.inner.insert s.pool tx with
          | .error err => (some err, cleanup)
          | .ok pool => (none, { s with pool := pool })

/-- `removeLocked`, which panics if the removed transaction has no signers. -/
def remove (s : PoolState P) (tx : Tx) : Option (Option String × PoolState P) :=
  match pools.inner.remove s.pool tx with
  | .error err => some (some err, s)
  | .ok pool =>
    match signerAddressesFromTx pools.reader tx with
    | .error _ => none
    | .ok addrs => some (none,
        { s with
          pool := pool
          accounts := (release pools.cosmosID s.accounts addrs).2 })

/-- The loop of `runRecheck` that finds the transactions to remove: those the ante handler
refuses, and those that follow one of them in the sequence of a signer. -/
def failing (ante : Tx → Bool) : FMap String (BitVec 64) → List Tx → List Tx
  | _, [] => []
  | failedAtSequence, txn :: rest =>
    match extractSignerSequences pools.reader txn with
    | .error _ => failing ante failedAtSequence rest
    | .ok signerSeqs =>
      if !followsFailed failedAtSequence signerSeqs && ante txn then
        failing ante failedAtSequence rest
      else txn :: failing ante (markFailed failedAtSequence signerSeqs) rest

/-- One transaction in the loop of `runRecheck` that removes. -/
def removeFailed (s : PoolState P) (txn : Tx) : PoolState P :=
  match pools.inner.remove s.pool txn with
  | .error _ => s
  | .ok pool =>
    match signerAddressesFromTx pools.reader txn with
    | .error _ => { s with pool := pool }
    | .ok addrs =>
      { s with
        pool := pool
        accounts := (release pools.cosmosID s.accounts addrs).2 }

/-- `runRecheck`, which removes nothing if it is cancelled or finds no context. -/
def runRecheck (s : PoolState P) (cancelled : Bool) (ante : Tx → Bool) : PoolState P :=
  if cancelled then s
  else (pools.failing ante ∅ (pools.inner.select s.pool)).foldl pools.removeFailed s

/-- The EVM pool is given a transaction, which it accepts or refuses after it has
reserved the sender. -/
def evmAdd (s : PoolState P) (sender : Address) (accepted : Bool) : PoolState P :=
  match s.evm[sender]? with
  | some n => if accepted then { s with evm := s.evm.insert sender (n + 1) } else s
  | none =>
    match hold pools.evmID s.accounts [sender] with
    | (some _, accounts) => { s with accounts := accounts }
    | (none, accounts) =>
      if accepted then { s with accounts := accounts, evm := s.evm.insert sender 1 }
      else { s with accounts := (release pools.evmID accounts [sender]).2 }

/-- The EVM pool drops a transaction, and with the last one of a sender its reservation. -/
def evmRemove (s : PoolState P) (sender : Address) : PoolState P :=
  match s.evm[sender]? with
  | none => s
  | some n =>
    if n ≤ 1 then
      { s with
        evm := s.evm.erase sender
        accounts := (release pools.evmID s.accounts [sender]).2 }
    else { s with evm := s.evm.insert sender (n - 1) }

end Pools

/-- What can happen to the pools. -/
inductive PoolOp (Tx : Type*)
  | insert (tx : Tx) (context ante : Option String)
  | remove (tx : Tx)
  | recheck (cancelled : Bool) (ante : Tx → Bool)
  | evmAdd (sender : Address) (accepted : Bool)
  | evmRemove (sender : Address)

/-- One operation, or a panic. -/
def Pools.step (pools : Pools P Tx) (s : PoolState P) : PoolOp Tx → Option (PoolState P)
  | .insert tx context ante => some (pools.insert s tx context ante).2
  | .remove tx => (pools.remove s tx).map Prod.snd
  | .recheck cancelled ante => some (pools.runRecheck s cancelled ante)
  | .evmAdd sender accepted => some (pools.evmAdd s sender accepted)
  | .evmRemove sender => some (pools.evmRemove s sender)

end InfiniteEvm.Mempool
