import InfiniteEvm.Mempool.RecheckPool
import InfiniteEvm.Mempool.TxList

/-!
# Rechecks

`TxRechecker` of `mempool/rechecker.go` and the loops that use it. A caller works on a branch of
the rechecker's context and writes it back when a transaction passes. The ante handler writes to
the branch it is given, and what it wrote stays there when it returns an error.
-/

namespace InfiniteEvm.Mempool

open Library

variable {S M Tx : Type}

/-- `sdk.Context`: the state of its multistore, and all else it carries. -/
structure Context (S M : Type) where
  store : S
  rest : M

/-- What the ante handler leaves in the multistore it was given, the context it returns, which is
over the same multistore or zero, and its error. -/
structure AnteResult (S M : Type) where
  store : S
  newCtx : Option M
  err : Option String

/-- `sdk.AnteHandler`. -/
abbrev AnteHandler (S M Tx : Type) := Context S M → Tx → AnteResult S M

/-- `RecheckEVM`, for a conversion of the transaction. -/
def recheckEVM {Tx' : Type} (anteHandler : AnteHandler S M Tx')
    (evmTxToCosmosTx : Tx → Except String Tx') (hash : Tx → String) : AnteHandler S M Tx :=
  fun ctx tx =>
    match evmTxToCosmosTx tx with
    | .error err =>
      { store := ctx.store
        newCtx := none
        err := some ("converting evm tx " ++ hash tx ++ " to cosmos tx: " ++ err) }
    | .ok cosmosTx => anteHandler ctx cosmosTx

/-- `tolerateRecheckErr`: the error of a transaction that is to be dropped. -/
def tolerateRecheckErr (err : Option String) : Option String :=
  err.filter fun text => ¬"tx nonce is higher than account nonce".toList <:+: text.toList

/-- A recheck that was made: the context, the transaction and the result. -/
structure Check (S M Tx : Type) where
  ctx : Context S M
  tx : Tx
  result : AnteResult S M

/-- The transaction passed. -/
def Check.passed (c : Check S M Tx) : Bool := c.result.err.isNone

/-! ## The passes of the legacy pool -/

/-- What the filter of a pass reads and writes: the branch, the rechecker's own context, and the
rechecks on this branch. -/
structure Branch (S M Tx : Type) where
  ctx : Context S M
  rechecker : Context S M
  checks : List (Check S M Tx)

/-- `GetContext`. -/
def Branch.getContext (rechecker : Context S M) : Branch S M Tx :=
  { ctx := rechecker, rechecker, checks := [] }

/-- The filter of a pass. The branch is written back if the transaction passed and the pass
writes at all. -/
def Branch.filter (recheck : AnteHandler S M Tx) (writes : Bool) (b : Branch S M Tx) (tx : Tx) :
    Branch S M Tx × Bool :=
  let result := recheck b.ctx tx
  ({ ctx := { store := result.store, rest := result.newCtx.getD b.ctx.rest }
     rechecker := if result.err.isNone && writes then { b.rechecker with store := result.store }
       else b.rechecker
     checks := b.checks ++ [{ ctx := b.ctx, tx, result }] },
    (tolerateRecheckErr result.err).isSome)

/-! ## The pass of the Cosmos pool -/

/-- The loop of `runRecheck`, over what the iterator gives until the cancellation is seen. A new
branch is made after each transaction that passes, and only then. -/
def recheckEach (recheck : AnteHandler S M Tx) (reader : TxReader Tx) :
    Branch S M Tx → FMap String (BitVec 64) → List Tx → Branch S M Tx
  | b, _, [] => b
  | b, failedAtSequence, txn :: rest =>
    match extractSignerSequences reader txn with
    | .error _ => recheckEach recheck reader b failedAtSequence rest
    | .ok signerSeqs =>
      if followsFailed failedAtSequence signerSeqs then
        recheckEach recheck reader b (markFailed failedAtSequence signerSeqs) rest
      else
        let result := recheck b.ctx txn
        let checks := b.checks ++ [{ ctx := b.ctx, tx := txn, result }]
        if result.err.isNone then
          let rechecker := { b.rechecker with store := result.store }
          recheckEach recheck reader { ctx := rechecker, rechecker, checks } failedAtSequence
            rest
        else
          recheckEach recheck reader
            { b with ctx := { b.ctx with store := result.store }, checks }
            (markFailed failedAtSequence signerSeqs) rest

/-- The rechecks of `runRecheck`, on the context that `Update` sets. -/
def runRecheckOn (recheck : AnteHandler S M Tx) (reader : TxReader Tx) (latest : Context S M)
    (txs : List Tx) : Branch S M Tx :=
  recheckEach recheck reader (.getContext latest) ∅ txs

end InfiniteEvm.Mempool
