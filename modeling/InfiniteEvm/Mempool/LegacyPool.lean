import InfiniteEvm.Mempool.Rechecker
import InfiniteEvm.Mempool.TxStore

/-!
# The pool of EVM transactions

`LegacyPool` of `mempool/txpool/legacypool/legacypool.go`. Transactions wait in the queue of
their account until they are executable, and are pending then. A lookup has all of them, a
tracker the next nonce of each account, and the accounts are reserved in the tracker that the
pools share. The order in which Go walks a map is part of the input.
-/

namespace InfiniteEvm.Mempool

open Library

/-- The keys of a map, in an order of which the input gives the beginning. -/
def rangeOf {K V : Type} [Ord K] [Std.TransOrd K] [DecidableEq K] (order : List K) (m : FMap K V) :
    List K :=
  order.dedup.filter (fun k => k ∈ m) ++ m.keys.filter fun k => k ∉ order

/-- `Config`, as `sanitize` leaves it. -/
structure Config where
  accountSlots : Nat
  globalSlots : Nat
  accountQueue : Nat
  globalQueue : Nat
  priceBump : Nat
  accountSlots_pos : 0 < accountSlots

/-- `DefaultConfig`. -/
def Config.default : Config where
  accountSlots := 16
  globalSlots := 4096 + 1024
  accountQueue := 64
  globalQueue := 1024
  priceBump := 10
  accountSlots_pos := by decide

/-- What the pool reads from the state of the current head. -/
structure ChainState where
  nonce : Address → Nat
  balance : Address → Nat
  balance_lt : ∀ addr, balance addr < 2 ^ 256

/-- `noncer`. What it caches of the state does not change what it answers. -/
structure Noncer where
  fallback : Address → Nat
  nonces : FMap Address Nat

namespace Noncer

/-- `newNoncer`. -/
def new (state : ChainState) : Noncer := { fallback := state.nonce, nonces := ∅ }

/-- `get`. -/
def get (n : Noncer) (addr : Address) : Nat := (n.nonces[addr]?).getD (n.fallback addr)

/-- `set`. -/
def set (n : Noncer) (addr : Address) (nonce : Nat) : Noncer :=
  { n with nonces := n.nonces.insert addr nonce }

/-- `setIfLower`. -/
def setIfLower (n : Noncer) (addr : Address) (nonce : Nat) : Noncer :=
  if n.get addr ≤ nonce then n else n.set addr nonce

end Noncer

/-- `PoolType`. -/
inductive PoolType
  | pending
  | queue

/-- `LegacyPool`, with the tracker it shares and the id of its handle. -/
structure LegacyPool (S M : Type) where
  config : Config
  currentState : ChainState
  gasLimit : Nat
  gasTip : Nat
  pending : FMap Address TxList
  queue : FMap Address TxList
  all : FMap Hash Transaction
  pendingNonces : Noncer
  id : Int
  accounts : Tracker
  rechecker : Context S M
  validPendingTxs : TxStore

namespace LegacyPool

variable {S M : Type} (pool : LegacyPool S M)

/-- The pool after `Init`. -/
def init (config : Config) (state : ChainState) (gasLimit gasTip : Nat) (id : Int)
    (accounts : Tracker) (rechecker : Context S M) : LegacyPool S M :=
  { config, currentState := state, gasLimit, gasTip, pending := ∅, queue := ∅, all := ∅
    pendingNonces := .new state, id, accounts, rechecker, validPendingTxs := .new }

/-- `Release` of one address. -/
def release (addr : Address) : LegacyPool S M :=
  { pool with accounts := (Tracker.release pool.id pool.accounts [addr]).2 }

/-- The transactions of an account in the pending list. -/
def pendingOf (addr : Address) : List Transaction :=
  ((pool.pending[addr]?).map TxList.flatten).getD []

/-- The transactions of an account in the queue. -/
def queueOf (addr : Address) : List Transaction :=
  ((pool.queue[addr]?).map TxList.flatten).getD []

/-! ## Marks -/

/-- `markTxPromoted`. -/
def markTxPromoted (addr : Address) (tx : Transaction) : LegacyPool S M :=
  { pool with validPendingTxs := pool.validPendingTxs.addTx addr tx }

/-- `markTxRemoved`. -/
def markTxRemoved (addr : Address) (tx : Transaction) : PoolType → LegacyPool S M
  | .pending => { pool with validPendingTxs := pool.validPendingTxs.removeTx addr tx }
  | .queue => pool

/-- A transaction leaves the lookup, and is marked as removed. -/
def dropTx (addr : Address) (p : PoolType) (tx : Transaction) : LegacyPool S M :=
  ({ pool with all := pool.all.erase tx.hash } : LegacyPool S M).markTxRemoved addr tx p

/-- The loops that drop what was taken out of a list. -/
def dropAll (addr : Address) (p : PoolType) (txs : List Transaction) : LegacyPool S M :=
  txs.foldl (fun pool tx => pool.dropTx addr p tx) pool

/-! ## Single transactions -/

def errAlreadyKnown : String := "already known"
def errReplaceUnderpriced : String := "replacement transaction underpriced"
def errUnderpriced : String := "transaction underpriced"
def errTxPoolOverflow : String := "txpool is full"
def errFutureReplacePending : String := "future transaction tries to replace pending"

/-- `enqueueTx`. The list of the account is made even if the transaction is refused. -/
def enqueueTx (tx : Transaction) (addAll : Bool) : LegacyPool S M × Except String Bool :=
  let list := (pool.queue[tx.sender]?).getD (.new false)
  match list.add tx pool.config.priceBump with
  | none =>
    ({ pool with queue := pool.queue.insert tx.sender list }, .error errReplaceUnderpriced)
  | some (old, list) =>
    let pool := { pool with queue := pool.queue.insert tx.sender list }
    let pool := match old with
      | some old => pool.dropTx tx.sender .queue old
      | none => pool
    let pool := if addAll then { pool with all := pool.all.insert tx.hash tx } else pool
    (pool, .ok old.isSome)

/-- The loops that give transactions back to the queue. -/
def enqueueAll (txs : List Transaction) : LegacyPool S M :=
  txs.foldl (fun pool tx => (pool.enqueueTx tx false).1) pool

/-- `promoteTx`. -/
def promoteTx (addr : Address) (tx : Transaction) : LegacyPool S M :=
  let list := (pool.pending[addr]?).getD (.new true)
  match list.add tx pool.config.priceBump with
  | none => ({ pool with pending := pool.pending.insert addr list } : LegacyPool S M).dropTx addr
      .queue tx
  | some (old, list) =>
    let pool := { pool with pending := pool.pending.insert addr list }
    let pool := match old with
      | some old => pool.dropTx addr .pending old
      | none => pool
    let pool := { pool with pendingNonces := pool.pendingNonces.set addr (tx.nonce + 1) }
    pool.markTxPromoted addr tx

/-- The deferred release of `removeTx`. -/
def releaseIfUnused (addr : Address) : LegacyPool S M :=
  if addr ∉ pool.pending && addr ∉ pool.queue then pool.release addr else pool

/-- The part of `removeTx` for a transaction in the queue. -/
def removeQueued (tx : Transaction) : LegacyPool S M :=
  match pool.queue[tx.sender]? with
  | none => pool
  | some future =>
    match future.remove tx with
    | none =>
      if future.len = 0 then { pool with queue := pool.queue.erase tx.sender } else pool
    | some (_, future) =>
      { pool with
        queue := if future.len = 0 then pool.queue.erase tx.sender
          else pool.queue.insert tx.sender future }

/-- `removeTx`, without the deferred release. -/
def removeFound (tx : Transaction) : LegacyPool S M :=
  let pool := { pool with all := pool.all.erase tx.hash }
  match (pool.pending[tx.sender]?).bind fun pending => pending.remove tx with
  | none => pool.removeQueued tx
  | some (invalids, pending) =>
    let pool := pool.markTxRemoved tx.sender tx .pending
    let pool := { pool with
      pending := if pending.len = 0 then pool.pending.erase tx.sender
        else pool.pending.insert tx.sender pending }
    let pool := pool.enqueueAll invalids
    { pool with pendingNonces := pool.pendingNonces.setIfLower tx.sender tx.nonce }

/-- `removeTx`. -/
def removeTx (hash : Hash) (unreserve : Bool) : LegacyPool S M :=
  match pool.all[hash]? with
  | none => pool
  | some tx =>
    if unreserve then (pool.removeFound tx).releaseIfUnused tx.sender else pool.removeFound tx

/-! ## New transactions -/

/-- What the slots of the lookup, the priced list and the number of changes since the last reorg
answer to a new transaction. The priced list discards transactions of the lookup. -/
inductive Room
  | free
  | underpriced
  | overflown
  | discards (drop : List Hash)

/-- `validateTx`. The checks of expenditures and authorizations are an input. -/
def validateTx (tx : Transaction) (otherChecks : Option String) : Option String :=
  if tx.nonce < pool.currentState.nonce tx.sender then
    some ("nonce too low: next nonce " ++ toString (pool.currentState.nonce tx.sender) ++
      ", tx nonce " ++ toString tx.nonce)
  else if pool.currentState.balance tx.sender < tx.cost then
    some ("insufficient funds for gas * price + value: balance " ++
      toString (pool.currentState.balance tx.sender) ++ ", tx cost " ++ toString tx.cost ++
      ", overshot " ++ toString (tx.cost - pool.currentState.balance tx.sender))
  else otherChecks

/-- `isGapped`. -/
def isGapped (tx : Transaction) : Bool :=
  let next := pool.pendingNonces.get tx.sender
  if tx.nonce ≤ next then false
  else
    match pool.queue[tx.sender]? with
    | none => true
    | some queue =>
      (List.range' next (tx.nonce - next)).any fun nonce => !queue.contains nonce

/-- The end of `add`: a pending transaction is replaced, or the new one is queued. -/
def insertTx (tx : Transaction) : LegacyPool S M × Except String Bool :=
  match pool.pending[tx.sender]? with
  | none => pool.enqueueTx tx true
  | some list =>
    if !list.contains tx.nonce then pool.enqueueTx tx true
    else
      match list.add tx pool.config.priceBump with
      | none => (pool, .error errReplaceUnderpriced)
      | some (old, list) =>
        let pool := { pool with pending := pool.pending.insert tx.sender list }
        let pool := match old with
          | some old => pool.dropTx tx.sender .pending old
          | none => pool
        ({ pool with all := pool.all.insert tx.hash tx }, .ok old.isSome)

/-- A transaction that is to be dropped is pending. -/
def isPending (tx : Transaction) : Bool :=
  (pool.pending[tx.sender]?).any fun list => list.contains tx.nonce

/-- `add`, once the sender is reserved. -/
def addReserved (tx : Transaction) : Room → LegacyPool S M × Except String Bool
  | .free => pool.insertTx tx
  | .underpriced => (pool, .error errUnderpriced)
  | .overflown => (pool, .error errTxPoolOverflow)
  | .discards hashes =>
    let drop := hashes.filterMap fun hash => pool.all[hash]?
    if pool.isGapped tx && drop.any pool.isPending then (pool, .error errFutureReplacePending)
    else
      (drop.foldl (fun pool x => pool.removeTx x.hash (x.sender ≠ tx.sender)) pool).insertTx tx

/-- `add`. A sender that was reserved for the transaction is released if it is refused. -/
def add (tx : Transaction) (otherChecks : Option String) (room : Room) :
    LegacyPool S M × Except String Bool :=
  if tx.hash ∈ pool.all then (pool, .error errAlreadyKnown)
  else
    match pool.validateTx tx otherChecks with
    | some err => (pool, .error err)
    | none =>
      if tx.sender ∈ pool.pending || tx.sender ∈ pool.queue then pool.addReserved tx room
      else
        match Tracker.hold pool.id pool.accounts [tx.sender] with
        | (some err, accounts) => ({ pool with accounts }, .error err)
        | (none, accounts) =>
          match ({ pool with accounts } : LegacyPool S M).addReserved tx room with
          | (pool, .error err) => (pool.release tx.sender, .error err)
          | result => result

/-! ## Promotion and demotion -/

/-- The queue of an account after a pass, which is deleted if it became empty. -/
def settleQueue (addr : Address) (list : TxList) : LegacyPool S M :=
  if list.len = 0 then
    let pool := { pool with queue := pool.queue.erase addr }
    if addr ∉ pool.pending then pool.release addr else pool
  else { pool with queue := pool.queue.insert addr list }

/-- One account in the loop of `promoteExecutables`. -/
def promoteAccount (recheck : AnteHandler S M Transaction) (writes : Bool)
    (state : LegacyPool S M × Branch S M Transaction) (addr : Address) :
    LegacyPool S M × Branch S M Transaction :=
  let (pool, branch) := state
  match pool.queue[addr]? with
  | none => (pool, branch)
  | some list =>
    let (forwards, list) := list.forward (pool.currentState.nonce addr)
    let pool := pool.dropAll addr .queue forwards
    let (costDrops, _, list) := list.costFilter (pool.currentState.balance addr) pool.gasLimit
    let pool := pool.dropAll addr .queue costDrops
    let (branch, recheckDrops, _, list) := list.filterSorted (Branch.filter recheck writes) branch
    let pool := pool.dropAll addr .queue recheckDrops
    let (readies, list) := list.ready (pool.pendingNonces.get addr)
    let pool := readies.foldl (fun pool tx => pool.promoteTx addr tx) pool
    let (caps, list) := list.cap pool.config.accountQueue
    let pool := pool.dropAll addr .queue caps
    (pool.settleQueue addr list, branch)

/-- `promoteExecutables`, over the accounts that are visited before a cancellation is seen. -/
def promoteExecutables (recheck : AnteHandler S M Transaction) (reset : Bool)
    (accounts : List Address) : LegacyPool S M × Branch S M Transaction :=
  let (pool, branch) :=
    accounts.foldl (promoteAccount recheck !reset) (pool, .getContext pool.rechecker)
  ({ pool with rechecker := branch.rechecker }, branch)

/-- The pending list of an account after a pass. -/
def settlePending (addr : Address) (list : TxList) : LegacyPool S M :=
  if list.len = 0 then
    let pool := { pool with pending := pool.pending.erase addr }
    if addr ∉ pool.queue then pool.release addr else pool
  else
    { pool with
      pending := pool.pending.insert addr list
      validPendingTxs := pool.validPendingTxs.addTxs addr list.flatten }

/-- One account in the loop of `demoteUnexecutables`, and the rechecks on its branch. -/
def demoteAccount (recheck : AnteHandler S M Transaction) (addr : Address) :
    LegacyPool S M × List (Check S M Transaction) :=
  match pool.pending[addr]? with
  | none => (pool, [])
  | some list =>
    let nonce := pool.currentState.nonce addr
    let (olds, list) := list.forward nonce
    let pool := pool.dropAll addr .pending olds
    let (drops, costInvalids, list) :=
      list.costFilter (pool.currentState.balance addr) pool.gasLimit
    let pool := pool.dropAll addr .pending drops
    let (branch, recheckDrops, recheckInvalids, list) :=
      list.filterSorted (Branch.filter recheck true) (.getContext pool.rechecker)
    let pool := ({ pool with rechecker := branch.rechecker } : LegacyPool S M).dropAll addr
      .pending recheckDrops
    let pool := pool.enqueueAll (costInvalids ++ recheckInvalids)
    let (gapped, list) :=
      if 0 < list.len && !list.contains nonce then list.cap 0 else ([], list)
    let pool := pool.enqueueAll gapped
    (pool.settlePending addr list, branch.checks)

/-- `demoteUnexecutables`, over the accounts that are visited before a cancellation is seen. -/
def demoteUnexecutables (recheck : AnteHandler S M Transaction) (accounts : List Address) :
    LegacyPool S M × List (List (Check S M Transaction)) :=
  accounts.foldl (fun (pool, branches) addr =>
    ((pool.demoteAccount recheck addr).1, branches ++ [(pool.demoteAccount recheck addr).2]))
    (pool, [])

/-! ## Truncation -/

/-- How many pending transactions an account has. -/
def pendingLen (addr : Address) : Nat := (pool.pendingOf addr).length

/-- The last pending transaction of an offender is dropped. -/
def capLast (addr : Address) : LegacyPool S M :=
  match pool.pending[addr]? with
  | none => pool
  | some list =>
    let (caps, list) := list.cap (list.len - 1)
    let pool := { pool with pending := pool.pending.insert addr list }
    caps.foldl (fun pool tx =>
      let pool := pool.dropTx addr .pending tx
      { pool with pendingNonces := pool.pendingNonces.setIfLower addr tx.nonce }) pool

/-- Rounds in which every offender loses a transaction, until there are few enough or the last
of them is down to the threshold. The first argument bounds the rounds. -/
def reduce (offenders : List Address) (last : Address) (threshold : Nat) :
    Nat → LegacyPool S M → Nat → LegacyPool S M × Nat
  | 0, pool, pending => (pool, pending)
  | rounds + 1, pool, pending =>
    if pool.config.globalSlots < pending ∧ threshold < pool.pendingLen last then
      reduce offenders last threshold rounds (offenders.foldl capLast pool)
        (pending - offenders.length)
    else (pool, pending)

/-- The loop of `truncatePending` over the spammers. The latest offender is the first of the
list. -/
def penalize : List Address → List Address → LegacyPool S M → Nat →
    List Address × LegacyPool S M × Nat
  | [], offenders, pool, pending => (offenders, pool, pending)
  | offender :: spammers, offenders, pool, pending =>
    if pool.config.globalSlots < pending then
      match offenders with
      | [] => penalize spammers [offender] pool pending
      | last :: _ =>
        let threshold := pool.pendingLen offender
        let (pool, pending) := reduce offenders.reverse last threshold
          (pool.pendingLen last - threshold) pool pending
        penalize spammers (offender :: offenders) pool pending
    else (offenders, pool, pending)

/-- `truncatePending`. -/
def truncatePending (order : List Address) : LegacyPool S M :=
  let accounts := rangeOf order pool.pending
  let pending := (accounts.map pool.pendingLen).sum
  let spammers := (accounts.filter fun addr => pool.config.accountSlots < pool.pendingLen addr)
    |>.insertionSort fun a b => pool.pendingLen b ≤ pool.pendingLen a
  if pending ≤ pool.config.globalSlots then pool
  else
    match penalize spammers [] pool pending with
    | ([], pool, _) => pool
    | (last :: offenders, pool, pending) =>
      (reduce (last :: offenders).reverse last pool.config.accountSlots
        (pool.pendingLen last - pool.config.accountSlots) pool pending).1

/-- The loop of `truncateQueue`, over the accounts from the oldest heartbeat on. -/
def truncateAccounts : List Address → LegacyPool S M → Nat → LegacyPool S M
  | [], pool, _ => pool
  | addr :: rest, pool, drop =>
    if drop = 0 then pool
    else
      let txs := pool.queueOf addr
      if txs.length ≤ drop then
        truncateAccounts rest (txs.foldl (fun pool tx => pool.removeTx tx.hash true) pool)
          (drop - txs.length)
      else
        (txs.reverse.take drop).foldl (fun pool tx => pool.removeTx tx.hash true) pool

/-- `truncateQueue`. -/
def truncateQueue (order : List Address) : LegacyPool S M :=
  let accounts := rangeOf order pool.queue
  let queued := (accounts.map fun addr => (pool.queueOf addr).length).sum
  truncateAccounts accounts pool (queued - pool.config.globalQueue)

/-! ## Reorgs -/

/-- A new head: its state and gas limit, and the latest context. -/
structure Head (S M : Type) where
  state : ChainState
  gasLimit : Nat
  ctx : Context S M

/-- `reset`, which reinjects nothing. An error of `StateAt` is only logged. -/
def reset : Except String (Head S M) → LegacyPool S M
  | .error _ => pool
  | .ok head =>
    { pool with
      currentState := head.state
      gasLimit := head.gasLimit
      pendingNonces := .new head.state
      rechecker := head.ctx
      validPendingTxs := .new }

/-- The nonces after a reset. `LastElement` panics on an empty list. -/
def updatePendingNonces : Option (LegacyPool S M) :=
  if pool.pending.toList.any fun entry => entry.2.len = 0 then none
  else
    some { pool with
      pendingNonces := { pool.pendingNonces with
        nonces := pool.pending.map fun _ list => list.lastNonce.getD 0 + 1 } }

/-- `reorgInput`, with the orders of the walks, and how many accounts are visited before a
cancellation of the reset is seen. -/
structure ReorgInput (S M : Type) where
  reset : Option (Except String (Head S M))
  dirtyAccounts : List Address
  cancelledAfter : Option Nat
  promoteOrder : List Address
  demoteOrder : List Address
  pendingOrder : List Address
  heartbeats : List Address

/-- The accounts that a loop visits. -/
def visited (cancelledAfter : Option Nat) (accounts : List Address) : List Address :=
  match cancelledAfter with
  | none => accounts
  | some n => accounts.take n

/-- The part of `runReorg` after a new head. -/
def revalidate (recheck : AnteHandler S M Transaction) (head : Except String (Head S M))
    (input : ReorgInput S M) : Option (LegacyPool S M) :=
  let pool := pool.reset head
  let accounts := rangeOf input.promoteOrder pool.queue
  let pool := (pool.promoteExecutables recheck true (visited input.cancelledAfter accounts)).1
  let cancelledAfter := input.cancelledAfter.map fun n => n - accounts.length
  (pool.demoteUnexecutables recheck
    (visited cancelledAfter (rangeOf input.demoteOrder pool.pending))).1.updatePendingNonces

/-- `runReorg`. -/
def runReorg (recheck : AnteHandler S M Transaction) (input : ReorgInput S M) :
    Option (LegacyPool S M) :=
  let revalidated := match input.reset with
    | none => some (pool.promoteExecutables recheck false input.dirtyAccounts).1
    | some head => pool.revalidate recheck head input
  revalidated.map fun pool =>
    (pool.truncatePending input.pendingOrder).truncateQueue input.heartbeats

/-- `SetGasTip`. -/
def setGasTip (tip : Nat) (order : List Hash) : LegacyPool S M :=
  let drop := (rangeOf order pool.all).filter fun hash =>
    (pool.all[hash]?).any fun tx => tx.gasTipCap < tip
  let after := { pool with gasTip := tip }
  if pool.gasTip < tip then drop.foldl (fun pool hash => pool.removeTx hash true) after else after

/-- `Clear`. -/
def clear : LegacyPool S M :=
  let pool := (pool.pending.keys.filter fun addr => addr ∉ pool.queue).foldl release pool
  let pool := pool.queue.keys.foldl release pool
  { pool with all := ∅, pending := ∅, queue := ∅, pendingNonces := .new pool.currentState }

/-- What can happen to the pool. -/
inductive Op (S M : Type)
  | add (tx : Transaction) (otherChecks : Option String) (room : Room)
  | removeTx (hash : Hash)
  | runReorg (input : ReorgInput S M)
  | setGasTip (tip : Nat) (order : List Hash)
  | clear

/-- One operation, or a panic. -/
def step (recheck : AnteHandler S M Transaction) (pool : LegacyPool S M) :
    Op S M → Option (LegacyPool S M)
  | .add tx otherChecks room => some (pool.add tx otherChecks room).1
  | .removeTx hash => some (pool.removeTx hash true)
  | .runReorg input => pool.runReorg recheck input
  | .setGasTip tip order => some (pool.setGasTip tip order)
  | .clear => some pool.clear

end LegacyPool

end InfiniteEvm.Mempool
