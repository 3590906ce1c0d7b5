import InfiniteEvm.Library.Trials
import InfiniteEvm.Mempool.LegacyPool

/-!
# Isolation of rechecks

Every recheck of a pass starts from what the one before left on the branch, and what passes
writes the whole branch back. So the transactions of a pass are isolated from those that fail
exactly if no recheck that fails, and that another one follows on its branch, leaves a write. The
ante handler for Ethereum transactions takes the fee before it checks the nonce.
-/

namespace InfiniteEvm.Mempool

open Library Library.Trials Check List LegacyPool Function

variable {S M Tx : Type}

/-- A recheck as a trial on the state of its branch. -/
def Check.trial (c : Check S M Tx) : Trial S :=
  { before := c.ctx.store, after := c.result.store, ok := c.passed }

/-- What the rechecks on a branch have done to it. -/
structure Tracked (recheck : AnteHandler S M Tx) (writes : Bool) (base : S)
    (b : Branch S M Tx) : Prop where
  ran : ∀ c ∈ b.checks, c.result = recheck c.ctx c.tx
  chained : Chained base (b.checks.map trial)
  ctx : b.ctx.store = reached base (b.checks.map trial)
  rechecker : b.rechecker.store = if writes then kept base (b.checks.map trial) else base

variable {recheck : AnteHandler S M Tx} {writes : Bool} {base : S} {b : Branch S M Tx}

theorem tracked_getContext (recheck : AnteHandler S M Tx) (writes : Bool)
    (rechecker : Context S M) : Tracked recheck writes rechecker.store (.getContext rechecker) := by
  refine ⟨nofun, trivial, rfl, ?_⟩
  cases writes <;> rfl

/-- One more recheck on the branch. -/
theorem Tracked.check (h : Tracked recheck writes base b) (tx : Tx) {ctx rechecker : Context S M}
    (hctx : ctx.store = (recheck b.ctx tx).store)
    (hrechecker : rechecker.store =
      if (recheck b.ctx tx).err.isNone && writes then (recheck b.ctx tx).store
      else b.rechecker.store) :
    Tracked recheck writes base
      { ctx, rechecker
        checks := b.checks ++ [{ ctx := b.ctx, tx, result := recheck b.ctx tx }] } where
  ran c hc := by
    obtain hc | hc := mem_append.mp hc
    · exact h.ran c hc
    · rw [mem_singleton.mp hc]
  chained := by
    rw [map_append]
    exact chained_concat.mpr ⟨h.chained, h.ctx⟩
  ctx := by
    rw [map_append, map_singleton, reached_concat]
    exact hctx
  rechecker := by
    rw [map_append, map_singleton, kept_concat, hrechecker, h.rechecker]
    cases writes with
    | false => simp
    | true => simp [keep, trial, passed]

/-- The filter of a pass of the legacy pool. -/
theorem Tracked.filter (h : Tracked recheck writes base b) (tx : Tx) :
    Tracked recheck writes base (Branch.filter recheck writes b tx).1 := by
  refine h.check tx rfl ?_
  split_ifs <;> rfl

/-- The loop of `runRecheck`. -/
theorem Tracked.recheckEach (h : Tracked recheck true base b) (reader : TxReader Tx)
    (failed : FMap String (BitVec 64)) (txs : List Tx) :
    Tracked recheck true base (recheckEach recheck reader b failed txs) := by
  induction txs generalizing b failed with
  | nil => exact h
  | cons txn rest ih =>
    simp only [Mempool.recheckEach]
    split
    · exact ih h failed
    · split_ifs with hfollows hpassed
      · exact ih h _
      · refine ih (h.check txn rfl ?_) _
        simp [hpassed]
      · refine ih (h.check txn rfl ?_) _
        simp [hpassed]

/-! ## The passes of the legacy pool -/

namespace LegacyPool

variable {recheck : AnteHandler S M Transaction} {b : Branch S M Transaction}

theorem tracked_filterSorted (h : Tracked recheck writes base b) (l : TxList) :
    Tracked recheck writes base (l.filterSorted (Branch.filter recheck writes) b).1 := by
  have hfold : ∀ (items : List Transaction) (b : Branch S M Transaction),
      Tracked recheck writes base b →
        Tracked recheck writes base
          (items.foldl (fun b tx => (Branch.filter recheck writes b tx).1) b) := by
    intro items
    induction items with
    | nil => exact fun b h => h
    | cons tx rest ih => exact fun b h => ih _ (h.filter tx)
  simp only [TxList.filterSorted, SortedMap.filterSorted, SortedMap.filterEach_fst]
  exact hfold _ b h

theorem tracked_promoteAccount {state : LegacyPool S M × Branch S M Transaction}
    (h : Tracked recheck writes base state.2) (addr : Address) :
    Tracked recheck writes base (promoteAccount recheck writes state addr).2 := by
  simp only [promoteAccount]
  split
  · exact h
  · exact tracked_filterSorted h _

variable (pool : LegacyPool S M) (recheck : AnteHandler S M Transaction) (addr : Address)

/-- All promotions of a pass are rechecked on one branch. -/
theorem tracked_promoteExecutables (reset : Bool) (accounts : List Address) :
    Tracked recheck (!reset) pool.rechecker.store
      (pool.promoteExecutables recheck reset accounts).2 := by
  have hloop : ∀ (accounts : List Address) (state : LegacyPool S M × Branch S M Transaction),
      Tracked recheck (!reset) pool.rechecker.store state.2 →
        Tracked recheck (!reset) pool.rechecker.store
          (accounts.foldl (promoteAccount recheck !reset) state).2 := by
    intro accounts
    induction accounts with
    | nil => exact fun state h => h
    | cons addr rest ih => exact fun state h => ih _ (tracked_promoteAccount h addr)
  exact hloop accounts (pool, .getContext pool.rechecker) (tracked_getContext ..)

theorem rechecker_dropAll (p : PoolType) (txs : List Transaction) :
    (pool.dropAll addr p txs).rechecker = pool.rechecker := by
  induction txs generalizing pool with
  | nil => rfl
  | cons tx rest ih =>
    refine (ih (pool.dropTx addr p tx)).trans ?_
    cases p <;> rfl

theorem rechecker_enqueueAll (txs : List Transaction) :
    (pool.enqueueAll txs).rechecker = pool.rechecker := by
  induction txs generalizing pool with
  | nil => rfl
  | cons tx rest ih =>
    refine (ih (pool.enqueueTx tx false).1).trans ?_
    simp only [enqueueTx]
    split
    · rfl
    · next old _ _ => cases old <;> rfl

theorem rechecker_settlePending (list : TxList) :
    (pool.settlePending addr list).rechecker = pool.rechecker := by
  simp only [settlePending]
  split_ifs <;> rfl

/-- The demotions of an account are rechecked on a branch of their own. -/
theorem tracked_demoteAccount :
    ∃ branch, Tracked recheck true pool.rechecker.store branch ∧
      (pool.demoteAccount recheck addr).2 = branch.checks ∧
      (pool.demoteAccount recheck addr).1.rechecker = branch.rechecker := by
  simp only [demoteAccount]
  split
  · exact ⟨_, tracked_getContext recheck true pool.rechecker, rfl, rfl⟩
  · refine ⟨_, ?_, rfl, ?_⟩
    · rw [rechecker_dropAll, rechecker_dropAll]
      exact tracked_filterSorted (tracked_getContext recheck true pool.rechecker) _
    · rw [rechecker_settlePending, rechecker_enqueueAll, rechecker_enqueueAll, rechecker_dropAll]

/-- All demotions of a pass: each account starts from what was written back. -/
theorem demoteUnexecutables_trials (accounts : List Address)
    (state : LegacyPool S M × List (List (Check S M Transaction))) :
    let out := accounts.foldl (fun (pool, branches) addr =>
      ((pool.demoteAccount recheck addr).1, branches ++ [(pool.demoteAccount recheck addr).2]))
      state
    ∃ branches, out.2 = state.2 ++ branches ∧
      (∀ c ∈ branches.flatten, c.result = recheck c.ctx c.tx) ∧
      out.1.rechecker.store = kept state.1.rechecker.store (branches.flatten.map trial) ∧
      (Isolated state.1.rechecker.store (branches.flatten.map trial) ↔
        ∀ checks ∈ branches, Traceless (checks.map trial)) := by
  induction accounts generalizing state with
  | nil => exact ⟨[], by simp, nofun, rfl, by simp [Isolated]⟩
  | cons addr rest ih =>
    obtain ⟨branch, htracked, hchecks, hrechecker⟩ := tracked_demoteAccount state.1 recheck addr
    obtain ⟨branches, hout, hran, hkept, hiff⟩ := ih
      ((state.1.demoteAccount recheck addr).1, state.2 ++ [(state.1.demoteAccount recheck addr).2])
    have hbase : (state.1.demoteAccount recheck addr).1.rechecker.store =
        kept state.1.rechecker.store (branch.checks.map trial) := by
      rw [hrechecker, htracked.rechecker]
      rfl
    simp only [hbase] at hkept hiff
    refine ⟨branch.checks :: branches, ?_, fun c hc => ?_, ?_, ?_⟩
    · rw [foldl_cons, hout, hchecks, append_assoc]
      rfl
    · obtain hc | hc := mem_append.mp (flatten_cons ▸ hc)
      · exact htracked.ran c hc
      · exact hran c hc
    · rw [flatten_cons, map_append, kept_append]
      exact hkept
    · rw [flatten_cons, map_append, isolated_append, hiff, forall_mem_cons,
        isolated_iff_traceless htracked.chained]

end LegacyPool

/-! ## Every pass -/

theorem Tracked.isolated_iff (h : Tracked recheck writes base b) :
    (Isolated base (b.checks.map trial) ∧ b.rechecker.store =
      if writes then kept base (b.checks.map trial) else base) ↔
      Traceless (b.checks.map trial) := by
  rw [and_iff_left h.rechecker]
  exact isolated_iff_traceless h.chained

/-- In the pass of the Cosmos pool and in the two passes of the legacy pool, all rechecks start
from, and the rechecker ends with, the effects of exactly the transactions that passed, if and
only if no recheck that failed and was followed by another one on its branch left a write. After
a new head the promotions are checked on a branch that is not written back. -/
theorem rechecks_isolated_iff (S M Tx : Type) :
    (∀ (recheck : AnteHandler S M Tx) (reader : TxReader Tx) (latest : Context S M)
        (txs : List Tx),
      let b := runRecheckOn recheck reader latest txs
      (∀ c ∈ b.checks, c.result = recheck c.ctx c.tx) ∧
        (Isolated latest.store (b.checks.map trial) ∧
            b.rechecker.store = kept latest.store (b.checks.map trial) ↔
          Traceless (b.checks.map trial))) ∧
    (∀ (pool : LegacyPool S M) (recheck : AnteHandler S M Transaction) (reset : Bool)
        (accounts : List Address),
      let out := pool.promoteExecutables recheck reset accounts
      (∀ c ∈ out.2.checks, c.result = recheck c.ctx c.tx) ∧
        (Isolated pool.rechecker.store (out.2.checks.map trial) ∧
            out.1.rechecker.store = (if !reset then
              kept pool.rechecker.store (out.2.checks.map trial)
              else pool.rechecker.store) ↔
          Traceless (out.2.checks.map trial))) ∧
    ∀ (pool : LegacyPool S M) (recheck : AnteHandler S M Transaction) (accounts : List Address),
      let out := pool.demoteUnexecutables recheck accounts
      (∀ c ∈ out.2.flatten, c.result = recheck c.ctx c.tx) ∧
        (Isolated pool.rechecker.store (out.2.flatten.map trial) ∧
            out.1.rechecker.store = kept pool.rechecker.store (out.2.flatten.map trial) ↔
          ∀ checks ∈ out.2, Traceless (checks.map trial)) := by
  refine ⟨fun recheck reader latest txs => ?_, fun pool recheck reset accounts => ?_,
    fun pool recheck accounts => ?_⟩
  · have htracked := (tracked_getContext recheck true latest).recheckEach reader ∅ txs
    exact ⟨htracked.ran, htracked.isolated_iff⟩
  · have htracked := tracked_promoteExecutables pool recheck reset accounts
    exact ⟨htracked.ran, htracked.isolated_iff⟩
  · obtain ⟨branches, hout, hran, hkept, hiff⟩ :=
      demoteUnexecutables_trials recheck accounts (pool, [])
    have hbranches : (pool.demoteUnexecutables recheck accounts).2 = branches := hout
    simp only [hbranches]
    exact ⟨hran, (and_iff_left hkept).trans hiff⟩

/-! ## A transaction with a gap -/

namespace GappedFee

/-- What the handler reads from an account. -/
structure Payer where
  balance : Nat
  nonce : Nat
  deriving DecidableEq

/-- The end of `MonoDecorator.AnteHandle`: the fees are taken, and only then `IncrementNonce`
looks at the nonce. -/
def monoAnte : AnteHandler (Address → Payer) Unit Transaction := fun ctx tx =>
  let payer := ctx.store tx.sender
  let paid := { payer with balance := payer.balance - tx.cost }
  if payer.balance < tx.cost then
    { store := ctx.store, newCtx := some (), err := some "insufficient funds" }
  else if payer.nonce < tx.nonce then
    { store := update ctx.store tx.sender paid
      newCtx := some ()
      err := some ("tx nonce: " ++ toString tx.nonce ++ ", account accountNonce: " ++
        toString payer.nonce ++ ": tx nonce is higher than account nonce") }
  else if tx.nonce < payer.nonce then
    { store := update ctx.store tx.sender paid
      newCtx := some ()
      err := some ("invalid nonce; got " ++ toString tx.nonce ++ ", expected " ++
        toString payer.nonce ++ ": tx nonce is lower than account nonce") }
  else
    { store := update ctx.store tx.sender { paid with nonce := payer.nonce + 1 }
      newCtx := some ()
      err := none }

def state : ChainState where
  nonce _ := 5
  balance _ := 100
  balance_lt _ := by decide

def gapped : Transaction := .small 1 0xa 6
def executable : Transaction := .small 2 0xb 5

/-- A pool with both transactions in the queue. -/
def pool : LegacyPool (Address → Payer) Unit :=
  let start := init .default state 100 0 0 ∅ ⟨fun _ => ⟨100, 5⟩, ()⟩
  ((start.add gapped none .free).1.add executable none .free).1

def out : LegacyPool (Address → Payer) Unit × Branch (Address → Payer) Unit Transaction :=
  pool.promoteExecutables monoAnte false [0xa, 0xb]

end GappedFee

/-- The recheck of the transaction with a gap fails and keeps it in the queue, but its fee is
gone when the next account is checked, and from the rechecker's context. -/
theorem isolation_lost :
    GappedFee.out.2.checks.map (fun c => (c.passed, c.ctx.store 0xa, c.result.store 0xa)) =
        [(false, ⟨100, 5⟩, ⟨90, 5⟩), (true, ⟨90, 5⟩, ⟨90, 5⟩)] ∧
      GappedFee.pool.rechecker.store 0xa = ⟨100, 5⟩ ∧
      GappedFee.out.1.rechecker.store 0xa = ⟨90, 5⟩ ∧
      (GappedFee.out.1.queueOf 0xa).map Transaction.nonce = [6] ∧
      ¬(Isolated GappedFee.pool.rechecker.store (GappedFee.out.2.checks.map trial) ∧
        GappedFee.out.1.rechecker.store =
          kept GappedFee.pool.rechecker.store (GappedFee.out.2.checks.map trial)) := by
  have hchecks : GappedFee.out.2.checks.map
      (fun c => (c.passed, c.ctx.store 0xa, c.result.store 0xa)) =
        [(false, ⟨100, 5⟩, ⟨90, 5⟩), (true, ⟨90, 5⟩, ⟨90, 5⟩)] := by
    decide +kernel
  have hbase : GappedFee.pool.rechecker.store 0xa = ⟨100, 5⟩ := by decide +kernel
  refine ⟨hchecks, hbase, by decide +kernel, by decide +kernel, fun ⟨hisolated, _⟩ => ?_⟩
  obtain ⟨first, rest, heq, hfirst, hrest⟩ := map_eq_cons_iff.mp hchecks
  obtain ⟨second, rest, rfl, hsecond, -⟩ := map_eq_cons_iff.mp hrest
  rw [heq] at hisolated
  -- the second recheck does not start from the base, though the first one failed
  obtain ⟨-, hstart, -⟩ := hisolated
  have hfailed : first.trial.ok = false := congrArg Prod.fst hfirst
  have hbefore : second.ctx.store 0xa = ⟨90, 5⟩ := congrArg (·.2.1) hsecond
  have hvalue := congrFun hstart 0xa
  rw [keep, hfailed, if_neg (by simp), hbase] at hvalue
  rw [show second.trial.before 0xa = second.ctx.store 0xa from rfl, hbefore] at hvalue
  cases hvalue

end InfiniteEvm.Mempool
