import InfiniteEvm.Mempool.TxList

/-!
# The transactions offered for proposals

`TxStore` of `mempool/txpool/legacypool/tx_store.go`: the transactions of a height that passed
their recheck, by account. It is a second copy of what the pool has pending.
-/

namespace InfiniteEvm.Mempool

open Library

/-- `TxStore`. -/
structure TxStore where
  txs : FMap Address (List Transaction)
  lookup : FMap Hash Unit
  total : Nat

namespace TxStore

/-- `NewTxStore`. -/
def new : TxStore := { txs := ∅, lookup := ∅, total := 0 }

/-- The loop of `AddTxs`: the transactions that are not there yet, and the lookup with them. -/
def unknown : FMap Hash Unit → List Transaction → List Transaction × FMap Hash Unit
  | lookup, [] => ([], lookup)
  | lookup, tx :: rest =>
    if tx.hash ∈ lookup then unknown lookup rest
    else
      (tx :: (unknown (lookup.insert tx.hash ()) rest).1,
        (unknown (lookup.insert tx.hash ()) rest).2)

/-- `AddTxs`. -/
def addTxs (t : TxStore) (addr : Address) (txs : List Transaction) : TxStore where
  txs := t.txs.insert addr ((t.txs[addr]?).getD [] ++ (unknown t.lookup txs).1)
  lookup := (unknown t.lookup txs).2
  total := t.total + (unknown t.lookup txs).1.length

/-- `AddTx`. -/
def addTx (t : TxStore) (addr : Address) (tx : Transaction) : TxStore := t.addTxs addr [tx]

/-- `RemoveTxsFromNonce`. -/
def removeTxsFromNonce (t : TxStore) (addr : Address) (minNonce : Nat) : TxStore :=
  match t.txs[addr]? with
  | none => t
  | some txs =>
    let removed := txs.filter fun existing => minNonce ≤ existing.nonce
    let next := txs.filter fun existing => existing.nonce < minNonce
    { txs := if next.isEmpty then t.txs.erase addr else t.txs.insert addr next
      lookup := removed.foldl (fun lookup existing => lookup.erase existing.hash) t.lookup
      total := t.total - removed.length }

/-- `RemoveTx`. -/
def removeTx (t : TxStore) (addr : Address) (tx : Transaction) : TxStore :=
  t.removeTxsFromNonce addr tx.nonce

/-- What the store has of an account. -/
def txsOf (t : TxStore) (addr : Address) : List Transaction := (t.txs[addr]?).getD []

/-- What the pool does to the store of a height. -/
inductive Event
  | promoted (addr : Address) (tx : Transaction)
  | replaced (addr : Address) (old : Transaction)
  | removed (addr : Address) (tx : Transaction)

/-- `markTxPromoted` and `markTxRemoved` on the store. `markTxReplaced` adds nothing. -/
def apply (t : TxStore) : Event → TxStore
  | .promoted addr tx => t.addTx addr tx
  | .replaced addr old => t.removeTx addr old
  | .removed addr tx => t.removeTx addr tx

end TxStore

end InfiniteEvm.Mempool
