import InfiniteEvm.Mempool.Ordering

/-!
# The partition of the pool

After any operations the lookup is the disjoint union of the pending lists and the queues, and
the accounts with transactions are the reserved ones. The pending nonces of an account follow
each other unless a reset was cancelled: a promotion on the new state may then have been added to
a list that was not yet checked against it.
-/

namespace InfiniteEvm.Mempool

open Library List View Transaction Runs

namespace View

/-- Before an account is visited after a new head: its nonces are in order, or they were in
order for another state and the next nonce was reset. -/
def Stale (v : View) : Prop :=
  v.InOrder ∨ v.next = v.state ∧ ∃ s t, Ordered v.pending v.queue s t

/-- After the promotion: the pending nonces from the one of the state on follow each other. -/
def Afloat (v : View) : Prop :=
  ∃ lo hi, v.state ≤ lo ∧
    (∀ n, v.state ≤ n → ((∃ tx ∈ v.pending, tx.nonce = n) ↔ lo ≤ n ∧ n < hi)) ∧
    ∀ tx ∈ v.queue, hi ≤ tx.nonce ∧ v.state ≤ tx.nonce

/-- After the demotion: only the next nonce may be missing. -/
def Settled (v : View) : Prop := ∃ t, Ordered v.pending v.queue v.state t

theorem InOrder.afloat {v : View} (h : v.InOrder) : v.Afloat :=
  ⟨v.state, v.next, le_rfl, fun n _ => h.spans n,
    fun tx htx => ⟨h.above tx htx, h.le.trans (h.above tx htx)⟩⟩

theorem Stale.afloat {v : View} (h : v.Stale) (hqueue : v.queue = []) : v.Afloat := by
  obtain h | ⟨-, s, t, h⟩ := h
  · exact h.afloat
  · refine ⟨max s v.state, t, le_max_right .., fun n hn => ?_, by rw [hqueue]; exact nofun⟩
    rw [h.spans n]
    omega

theorem Afloat.settled {v : View} (h : v.Afloat) (hpending : v.pending = []) : v.Settled := by
  obtain ⟨lo, hi, -, -, hqueue⟩ := h
  rw [Settled, hpending]
  exact ⟨v.state, le_rfl, spans_nil _, fun tx htx => (hqueue tx htx).2⟩

end View

namespace LegacyPool

variable {S M : Type} {pool pool' : LegacyPool S M} {a : Address} {accounts : List Address}

theorem Promotion.afloat {readies : List Transaction} (h : Promotion a readies pool pool')
    (hstate : pool'.currentState = pool.currentState) (hs : (pool.view a).Stale) :
    (pool'.view a).Afloat := by
  obtain ho | ⟨hreset, s, t, -, hspans, habove⟩ := hs
  · exact (h.inOrder hstate ho).afloat
  · simp only [Afloat, view, hstate] at hreset hspans habove ⊢
    obtain ⟨rfl, -⟩ | ⟨first, hfirst, hlt, hready, hrest⟩ := h.next
    · refine ⟨max s (pool.currentState.nonce a), t, le_max_right .., fun n hn => ?_,
        fun x hx => ⟨habove x (h.queue x hx).1, (h.queue x hx).2⟩⟩
      simp only [h.pending, not_mem_nil, false_or]
      rw [hspans n]
      omega
    · -- what is ready starts at the nonce of the state, and all that was pending is below
      obtain ⟨x, hx, hnonce⟩ := (hready first).mpr ⟨le_rfl, hlt⟩
      have hold := habove x (h.ready x hx).1
      refine ⟨pool.currentState.nonce a, pool'.pendingNonces.get a, le_rfl, fun n hn => ?_,
        fun x hx => ⟨hrest x hx, (h.queue x hx).2⟩⟩
      simp only [h.pending, or_and_right, exists_or]
      rw [hready n, hspans n]
      omega

theorem Demotion.settled (h : Demotion a pool pool')
    (hstate : pool'.currentState = pool.currentState) (hs : (pool.view a).Afloat) :
    (pool'.view a).Settled := by
  obtain ⟨lo, hi, hlo, hspans, hqueue⟩ := hs
  obtain ⟨k, hleft, hback⟩ := h.pending
  simp only [Settled, view, hstate] at hlo hspans hqueue ⊢
  obtain hnil | ⟨x, hx, hnonce⟩ := h.first
  · rw [hnil]
    refine ⟨_, le_rfl, spans_nil _, fun y hy => ?_⟩
    obtain hy | ⟨-, hy, -⟩ := hback y hy
    · exact (hqueue y hy).2
    · exact hy
  · -- the nonce of the state is there, so the run starts at it and ends at the cut
    obtain ⟨hmem, -, hltk⟩ := (hleft x).mp hx
    have hfirst := (hspans x.nonce hnonce.ge).mp ⟨x, hmem, rfl⟩
    refine ⟨min hi k, by omega, fun n => ?_, fun y hy => ?_⟩
    · constructor
      · rintro ⟨y, hy, rfl⟩
        obtain ⟨hy, hge, hlt⟩ := (hleft y).mp hy
        have hin := (hspans y.nonce hge).mp ⟨y, hy, rfl⟩
        omega
      · rintro ⟨hge, hlt⟩
        obtain ⟨y, hy, rfl⟩ := (hspans n hge).mpr (by omega)
        exact ⟨y, (hleft y).mpr ⟨hy, hge, by omega⟩, rfl⟩
    · obtain hy | ⟨-, -, hge⟩ := hback y hy
      · exact (min_le_left ..).trans (hqueue y hy).1
      · exact (min_le_right ..).trans hge

/-! ## Loops over the accounts -/

/-- A loop that reworks one account after the other. -/
theorem rework_each {σ : Type} (poolOf : σ → LegacyPool S M) (f : σ → Address → σ)
    (before after : View → Prop) (hf : ∀ s a, Pooled none (poolOf s) →
      (∃ gone, Reworked none a gone [] (poolOf s) (poolOf (f s a))) ∧
        (before ((poolOf s).view a) → after ((poolOf (f s a)).view a))) (hnodup : accounts.Nodup)
    (s : σ) (hp : Pooled none (poolOf s)) :
    Pooled none (poolOf (accounts.foldl f s)) ∧
      (∀ a ∈ accounts, before ((poolOf s).view a) → after ((poolOf (accounts.foldl f s)).view a)) ∧
      ∀ b ∉ accounts, (poolOf (accounts.foldl f s)).view b = (poolOf s).view b := by
  induction accounts generalizing s with
  | nil => exact ⟨hp, nofun, fun _ _ => rfl⟩
  | cons addr rest ih =>
    obtain ⟨hnot, hnodup⟩ := nodup_cons.mp hnodup
    obtain ⟨⟨gone, hreworked⟩, hafter⟩ := hf s addr hp
    obtain ⟨hp', hvisited, hothers⟩ := ih hnodup (f s addr) (hreworked.pooled hp)
    rw [foldl_cons]
    refine ⟨hp', fun b hb hbefore => ?_, fun b hb => ?_⟩
    · obtain rfl | hb := mem_cons.mp hb
      · rw [hothers b hnot]
        exact hafter hbefore
      · refine hvisited b hb ?_
        rwa [hreworked.view_of_ne fun h => hnot (h ▸ hb)]
    · obtain ⟨hne, hb⟩ := not_or.mp (mem_cons.not.mp hb)
      rw [hothers b hb, hreworked.view_of_ne hne]

theorem mem_rangeOf {V : Type} (order : List Address) (m : FMap Address V) (a : Address) :
    a ∈ rangeOf order m ↔ a ∈ m := by
  simp only [rangeOf, mem_append, mem_filter, mem_dedup, Std.ExtTreeMap.mem_keys, decide_eq_true_eq]
  tauto

theorem visited_nodup (h : accounts.Nodup) (cancelled : Option Nat) :
    (visited cancelled accounts).Nodup := by
  cases cancelled with
  | none => exact h
  | some n => exact h.sublist (take_sublist n accounts)

theorem listOf_of_notMem_rangeOf {order : List Address} {lists : FMap Address TxList} {b : Address}
    (h : b ∉ rangeOf order lists) : listOf lists b = [] := by
  rw [listOf, FMap.notMem_iff_get.mp fun hmem => h ((mem_rangeOf ..).mpr hmem)]
  rfl

section

variable (hp : Pooled none pool)
include hp

/-- The promotion after a new head. -/
theorem promoteExecutables_reset (recheck : AnteHandler S M Transaction)
    (order : List Address) (cancelled : Option Nat) :
    let pool' := (pool.promoteExecutables recheck true
      (visited cancelled (rangeOf order pool.queue))).1
    Pooled none pool' ∧
      (cancelled = none → ∀ b, (pool.view b).Stale → (pool'.view b).Afloat) := by
  have hloop := rework_each (fun s : LegacyPool S M × Branch S M Transaction => s.1)
    (promoteAccount recheck !true) Stale Afloat
    (fun s a hp => by
      obtain ⟨⟨gone, hreworked⟩, readies, hpromotion⟩ :=
        promoteAccount_reworked hp recheck (!true) s.2 a
      exact ⟨⟨gone, hreworked⟩, hpromotion.afloat hreworked.state⟩)
    (visited_nodup (rangeOf_nodup order pool.queue) cancelled)
    (pool, .getContext pool.rechecker) hp
  obtain ⟨hp', hvisited, hothers⟩ := hloop
  refine ⟨⟨hp'.pending, hp'.queue, hp'.owned, hp'.apart, hp'.all, hp'.reserved, hp'.fallback⟩,
    fun hnone b hb => ?_⟩
  subst hnone
  by_cases hmem : b ∈ rangeOf order pool.queue
  · exact hvisited b hmem hb
  · exact hothers b hmem ▸ hb.afloat (listOf_of_notMem_rangeOf hmem)

/-- The demotion after a new head. -/
theorem demoteUnexecutables_reset (recheck : AnteHandler S M Transaction)
    (order : List Address) (cancelled : Option Nat) : let pool' := (pool.demoteUnexecutables recheck
      (visited cancelled (rangeOf order pool.pending))).1
    Pooled none pool' ∧
      (cancelled = none → ∀ b, (pool.view b).Afloat → (pool'.view b).Settled) := by
  have hloop := rework_each
    (fun s : LegacyPool S M × List (List (Check S M Transaction)) => s.1)
    (fun s addr =>
      ((s.1.demoteAccount recheck addr).1, s.2 ++ [(s.1.demoteAccount recheck addr).2]))
    Afloat Settled
    (fun s a hp => by
      obtain ⟨⟨gone, hreworked⟩, hdemotion⟩ := demoteAccount_reworked hp recheck a
      exact ⟨⟨gone, hreworked⟩, hdemotion.settled hreworked.state⟩)
    (visited_nodup (rangeOf_nodup order pool.pending) cancelled) (pool, []) hp
  obtain ⟨hp', hvisited, hothers⟩ := hloop
  refine ⟨hp', fun hnone b hb => ?_⟩
  subst hnone
  by_cases hmem : b ∈ rangeOf order pool.pending
  · exact hvisited b hmem hb
  · exact hothers b hmem ▸ hb.settled (listOf_of_notMem_rangeOf hmem)

/-- The nonces after a new head: no list is empty, and the next nonces follow the lists. -/
theorem updatePendingNonces_settled :
    ∃ pool', pool.updatePendingNonces = some pool' ∧ Pooled none pool' ∧
      ∀ b, (pool.view b).Settled → (pool'.view b).InOrder := by
  have hsome : ¬(pool.pending.toList.any fun entry => entry.2.len = 0) = true := by
    rw [any_eq_true]
    rintro ⟨⟨b, l⟩, hmem, hlen⟩
    have hl := Std.ExtTreeMap.mem_toList_iff_getElem?_eq_some.mp hmem
    exact (hp.pending b hl).2 (length_eq_zero_iff.mp (of_decide_eq_true hlen))
  refine ⟨{ pool with
    pendingNonces := { pool.pendingNonces with
      nonces := pool.pending.map fun _ list => list.lastNonce.getD 0 + 1 } },
    if_neg hsome, ⟨hp.pending, hp.queue, hp.owned,
    hp.apart, hp.all, hp.reserved, hp.fallback⟩, fun b hb => ?_⟩
  obtain ⟨t, hle, hspans, habove⟩ := hb
  simp only [view] at hle hspans habove
  have hnext : (((pool.pending.map fun _ list => list.lastNonce.getD 0 + 1)[b]?).getD
      (pool.pendingNonces.fallback b)) = t := by
    rw [Std.ExtTreeMap.getElem?_map, hp.fallback]
    cases hl : pool.pending[b]? with
    | none =>
      have hnil : pool.pendingOf b = [] := by rw [pendingOf, hl]; rfl
      by_contra hne
      have hlt : pool.currentState.nonce b < t := lt_of_le_of_ne hle hne
      obtain ⟨x, hx, -⟩ := (hspans _).mpr ⟨le_rfl, hlt⟩
      rw [hnil] at hx
      cases hx
    | some l =>
      have hflat : pool.pendingOf b = l.flatten := listOf_of_some hl
      obtain ⟨init, last, hlast⟩ := (eq_nil_or_concat' l.flatten).resolve_left (hp.pending b hl).2
      have hsorted : (init ++ [last]).Pairwise fun x y => x.nonce < y.nonce := hlast ▸ l.txs.sorted
      rw [hflat, hlast] at hspans
      simp only [Option.map_some, Option.getD_some, TxList.lastNonce, hlast, getLast?_concat]
      exact hspans.succ_last hsorted
  simp only [InOrder, view, Noncer.get, hnext]
  exact ⟨hle, hspans, habove⟩

/-! ## Reorgs -/

theorem reset_stale (head : Except String (Head S M)) :
    Pooled none (pool.reset head) ∧
      ∀ b, (pool.view b).InOrder → ((pool.reset head).view b).Stale := by
  cases head with
  | error err => exact ⟨hp, fun b hb => .inl hb⟩
  | ok head =>
    refine ⟨⟨hp.pending, hp.queue, hp.owned, hp.apart, hp.all, hp.reserved, rfl⟩,
      fun b hb => .inr ⟨?_, _, _, hb⟩⟩
    simp [view, reset, Noncer.get, Noncer.new]

/-- `runReorg` does not panic, and keeps the order of nonces if a reset is not cancelled. -/
theorem runReorg_keeps (recheck : AnteHandler S M Transaction)
    (input : ReorgInput S M) :
    ∃ pool', pool.runReorg recheck input = some pool' ∧ Pooled none pool' ∧
      ((input.reset.isSome → input.cancelledAfter = none) →
        (∀ b, (pool.view b).InOrder) → ∀ b, (pool'.view b).InOrder) := by
  have htruncate : ∀ pool : LegacyPool S M, Pooled none pool →
      Keeps none pool ((pool.truncatePending input.pendingOrder).truncateQueue
        input.heartbeats) := fun pool hp =>
    (truncatePending_keeps hp _).trans (truncateQueue_keeps (truncatePending_keeps hp _).pooled _)
  cases hreset : input.reset with
  | none =>
    have hpromote := promoteExecutables_keeps hp recheck false input.dirtyAccounts
    have hkeeps := hpromote.trans (htruncate _ hpromote.pooled)
    simp only [runReorg, hreset]
    exact ⟨_, rfl, hkeeps.pooled, fun _ ho b => hkeeps.order b (ho b)⟩
  | some head =>
    obtain ⟨hp₁, hstale⟩ := reset_stale hp head
    obtain ⟨hp₂, hafloat⟩ :=
      promoteExecutables_reset hp₁ recheck input.promoteOrder input.cancelledAfter
    obtain ⟨hp₃, hsettled⟩ := demoteUnexecutables_reset hp₂ recheck input.demoteOrder
      (input.cancelledAfter.map fun n =>
        n - (rangeOf input.promoteOrder (pool.reset head).queue).length)
    obtain ⟨pool', heq, hp₄, hnext⟩ := updatePendingNonces_settled hp₃
    have hkeeps := htruncate pool' hp₄
    refine ⟨_, ?_, hkeeps.pooled, fun hclean ho b => hkeeps.order b ?_⟩
    · simp only [runReorg, hreset, revalidate, heq]
      rfl
    · have hnone := hclean rfl
      refine hnext b (hsettled ?_ b (hafloat hnone b (hstale b (ho b))))
      rw [hnone]
      rfl

end

/-! ## Runs -/

/-- The operation is not a reset that is cancelled. -/
def Op.Uncancelled : Op S M → Prop
  | .runReorg input => input.reset.isSome → input.cancelledAfter = none
  | _ => True

/-- The lookup is the disjoint union of the lists, no account has a nonce twice, and the accounts
with transactions are the reserved ones. -/
structure Partitioned (pool : LegacyPool S M) : Prop where
  lookup : ∀ {h : Hash} {tx : Transaction}, pool.all[h]? = some tx ↔
    tx.hash = h ∧ ∃ a, tx ∈ pool.pendingOf a ∨ tx ∈ pool.queueOf a
  owned : ∀ {a tx}, tx ∈ pool.pendingOf a ∨ tx ∈ pool.queueOf a → tx.sender = a
  disjoint : ∀ {a b tx}, tx ∈ pool.pendingOf a → tx ∉ pool.queueOf b
  apart : ∀ {a tx tx'}, tx ∈ pool.pendingOf a → tx' ∈ pool.queueOf a → tx.nonce ≠ tx'.nonce
  reserved : ∀ a : Address, pool.accounts[a]? = some pool.id ↔
    ∃ tx, tx ∈ pool.pendingOf a ∨ tx ∈ pool.queueOf a

/-- The pending nonces of every account follow each other, and the tracker is one above. -/
structure Contiguous (pool : LegacyPool S M) : Prop where
  nonces : ∀ a, ∃ n, (pool.pendingOf a).map nonce = range' n (pool.pendingOf a).length
  next : ∀ {a last}, (pool.pendingOf a).getLast? = some last →
    pool.pendingNonces.get a = last.nonce + 1

theorem Pooled.partitioned (hp : Pooled none pool) : Partitioned pool where
  lookup {h tx} := by
    refine hp.all.trans (and_congr_right fun _ => ⟨fun hhas => ⟨_, hhas⟩, ?_⟩)
    rintro ⟨a, hhas⟩
    rwa [(hp.owned hhas).1]
  owned hhas := (hp.owned hhas).1
  disjoint {a b tx} htx htx' := by
    have ha := (hp.owned (.inl htx)).1
    have hb := (hp.owned (.inr htx')).1
    rw [← ha] at htx
    rw [← hb] at htx'
    exact hp.disjoint htx htx'
  apart := hp.apart
  reserved a := by
    rw [hp.reserved, or_iff_left (nofun : ¬none = some a)]
    exact (hp.used_iff a).symm

theorem pendingOf_sorted (pool : LegacyPool S M) (a : Address) :
    (pool.pendingOf a).Pairwise fun x y => x.nonce < y.nonce := by
  have hsorted := ((pool.pending[a]?).getD (.new true)).txs.sorted
  rwa [show ((pool.pending[a]?).getD (.new true)).txs.items = pool.pendingOf a from
    flatten_getD pool.pending a true] at hsorted

theorem contiguous_of_inOrder (h : ∀ b, (pool.view b).InOrder) : Contiguous pool where
  nonces a := by
    have hsorted := pairwise_map.mpr (pendingOf_sorted pool a)
    obtain ⟨hle, hspans, -⟩ := h a
    simp only [view] at hle hspans
    have heq : (pool.pendingOf a).map nonce = range'
        (pool.currentState.nonce a)
        (pool.pendingNonces.get a - pool.currentState.nonce a) := by
      refine hsorted.eq_of_mem_iff (pairwise_lt_range' 1) fun n => ?_
      rw [mem_map, hspans n, mem_range'_1]
      omega
    refine ⟨pool.currentState.nonce a, ?_⟩
    have hlen := congrArg length heq
    rw [length_map, length_range'] at hlen
    rw [heq, hlen]
  next {a last} hlast := by
    obtain ⟨init, heq⟩ := getLast?_eq_some_iff.mp hlast
    have hsorted := pendingOf_sorted pool a
    have hspans := (h a).spans
    simp only [view, heq] at hsorted hspans
    exact (hspans.succ_last hsorted).symm

/-- One operation. -/
theorem step_keeps (hp : Pooled none pool) (recheck : AnteHandler S M Transaction) (op : Op S M) :
    ∃ pool', step recheck pool op = some pool' ∧ Pooled none pool' ∧
      (op.Uncancelled → (∀ b, (pool.view b).InOrder) → ∀ b, (pool'.view b).InOrder) := by
  have hsome : ∀ pool', Keeps none pool pool' → ∃ pool'', some pool' = some pool'' ∧
      Pooled none pool'' ∧ (op.Uncancelled →
        (∀ b, (pool.view b).InOrder) → ∀ b, (pool''.view b).InOrder) :=
    fun pool' h => ⟨pool', rfl, h.pooled, fun _ ho b => h.order b (ho b)⟩
  cases op with
  | add tx otherChecks room => exact hsome _ (add_keeps hp tx otherChecks room)
  | removeTx hash => exact hsome _ (removeTx_keeps hp hash)
  | runReorg input => exact runReorg_keeps hp recheck input
  | setGasTip tip order => exact hsome _ (setGasTip_keeps hp tip order)
  | clear => exact hsome _ (clear_keeps hp)

theorem run_keeps (hp : Pooled none pool) (recheck : AnteHandler S M Transaction)
    (ops : List (Op S M)) :
    ∃ pool', run (step recheck) pool ops = some pool' ∧ Pooled none pool' ∧
      ((∀ op ∈ ops, op.Uncancelled) →
        (∀ b, (pool.view b).InOrder) → ∀ b, (pool'.view b).InOrder) := by
  induction ops generalizing pool with
  | nil => exact ⟨pool, rfl, hp, fun _ ho => ho⟩
  | cons op rest ih =>
    obtain ⟨pool₁, hstep, hp₁, horder⟩ := step_keeps hp recheck op
    obtain ⟨pool₂, hrun, hp₂, hrest⟩ := ih hp₁
    refine ⟨pool₂, ?_, hp₂, fun hclean ho => ?_⟩
    · rw [run_cons, hstep]
      exact hrun
    · obtain ⟨hop, hclean⟩ := forall_mem_cons.mp hclean
      exact hrest hclean (horder hop ho)

theorem init_pooled (config : Config) (state : ChainState) (gasLimit gasTip : Nat) (id : Int)
    {accounts : Tracker} (rechecker : Context S M) (hfree : ∀ a : Address, accounts[a]? ≠ some id) :
    Pooled none (init config state gasLimit gasTip id accounts rechecker) where
  pending a l hl := by simp [init] at hl
  queue a l hl := by simp [init] at hl
  owned h := by simp [Has, pendingOf, queueOf, init] at h
  apart h := by simp [pendingOf, init] at h
  all := by simp [Has, pendingOf, queueOf, init]
  reserved a := by simp [init, hfree a]
  fallback := rfl

/-- In every run the pool stays partitioned, and its pending lists are contiguous as long as no
reset is cancelled. -/
theorem partition_maintained (recheck : AnteHandler S M Transaction) (config : Config)
    (state : ChainState) (gasLimit gasTip : Nat) (id : Int) (accounts : Tracker)
    (rechecker : Context S M) (hfree : ∀ a : Address, accounts[a]? ≠ some id)
    (ops : List (Op S M)) :
    ∃ pool, run (step recheck) (init config state gasLimit gasTip id accounts rechecker)
        ops = some pool ∧
      Partitioned pool ∧ ((∀ op ∈ ops, op.Uncancelled) → Contiguous pool) := by
  obtain ⟨pool, hrun, hp, horder⟩ :=
    run_keeps (init_pooled config state gasLimit gasTip id rechecker hfree) recheck ops
  refine ⟨pool, hrun, hp.partitioned, fun hclean => contiguous_of_inOrder (horder hclean ?_)⟩
  intro b
  simp only [InOrder, view, pendingOf, queueOf, init, Noncer.get, Noncer.new]
  exact ⟨by simp, by simpa using spans_nil _, by simp⟩

/-! ## A cancelled reset -/

namespace CancelledReset

/-- A state in which all accounts have the same nonce. -/
def stateAt (nonce : Nat) : ChainState where
  nonce _ := nonce
  balance _ := 1000
  balance_lt _ := (1000#256).isLt

def firstTx : Transaction := .small 1 0xa 5
def laterTx : Transaction := .small 2 0xa 7

/-- Every transaction passes its recheck. -/
def recheck : AnteHandler Unit Unit Transaction := fun _ _ =>
  { store := (), newCtx := some (), err := none }

def start : LegacyPool Unit Unit := init .default (stateAt 5) 100 0 0 ∅ ⟨(), ()⟩

def reorg (reset : Option (Except String (Head Unit Unit))) (cancelledAfter : Option Nat) :
    Op Unit Unit :=
  .runReorg
    { reset, cancelledAfter
      dirtyAccounts := [0xa]
      promoteOrder := []
      demoteOrder := []
      pendingOrder := []
      heartbeats := [] }

/-- A transaction is pending and another is queued with a gap between them. A new head has a
state in which the gap is closed. -/
def ops (cancelledAfter : Option Nat) : List (Op Unit Unit) :=
  [.add firstTx none .free, reorg none none, .add laterTx none .free,
    reorg (some (.ok { state := stateAt 7, gasLimit := 100, ctx := ⟨(), ()⟩ })) cancelledAfter]

end CancelledReset

/-- The promotion that a reset begins with puts nonce 7 after nonce 5, and the cancellation skips
the demotion that would drop nonce 5. -/
theorem partition_lost :
    (∀ a : Address, (∅ : Tracker)[a]? ≠ some 0) ∧
      ∃ pool, run (step CancelledReset.recheck) CancelledReset.start
          (CancelledReset.ops (some 1)) = some pool ∧
        (pool.pendingOf 0xa).map nonce = [5, 7] ∧ ¬Contiguous pool := by
  refine ⟨by simp, ?_⟩
  have hrun : (run (step CancelledReset.recheck) CancelledReset.start
      (CancelledReset.ops (some 1))).map (fun pool =>
        (pool.pendingOf 0xa).map nonce) = some [5, 7] := by
    decide +kernel
  obtain ⟨pool, hpool, hnonces⟩ := Option.map_eq_some_iff.mp hrun
  refine ⟨pool, hpool, hnonces, fun h => ?_⟩
  obtain ⟨n, hn⟩ := h.nonces 0xa
  have hlen : (pool.pendingOf 0xa).length = 2 := by
    rw [← length_map nonce, hnonces]
    rfl
  rw [hnonces, hlen] at hn
  simp only [range', cons.injEq] at hn
  omega

/-- The same operations with a reset that is not cancelled. -/
theorem partition_maintained_uncancelled :
    (∀ a : Address, (∅ : Tracker)[a]? ≠ some 0) ∧
      (∀ op ∈ CancelledReset.ops none, op.Uncancelled) ∧
      ∃ pool, run (step CancelledReset.recheck) CancelledReset.start
          (CancelledReset.ops none) = some pool ∧
        Partitioned pool ∧ Contiguous pool := by
  have hfree : ∀ a : Address, (∅ : Tracker)[a]? ≠ some 0 := by simp
  have hclean : ∀ op ∈ CancelledReset.ops none, op.Uncancelled := by
    simp [CancelledReset.ops, CancelledReset.reorg, Op.Uncancelled]
  obtain ⟨pool, hrun, hpartitioned, hcontiguous⟩ := partition_maintained CancelledReset.recheck
    .default (CancelledReset.stateAt 5) 100 0 0 ∅ ⟨(), ()⟩ hfree
    (CancelledReset.ops none)
  exact ⟨hfree, hclean, pool, hrun, hpartitioned, hcontiguous hclean⟩

end LegacyPool

end InfiniteEvm.Mempool
