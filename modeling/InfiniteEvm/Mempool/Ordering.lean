import InfiniteEvm.Mempool.Accounts

/-!
# The order of nonces

The pending nonces of an account follow each other from its nonce in the state up to the next
nonce of the tracker, and queued nonces are not below it. All operations but a reset keep this
for every account, and keep the lists, the lookup and the reservations together.
-/

namespace InfiniteEvm.Mempool

open Library List Tracker FMap TxStore

/-- Pending nonces from one nonce up to another, and queued ones that are not below. -/
structure Ordered (pending queue : List Transaction) (s t : Nat) : Prop where
  le : s ≤ t
  spans : Spans pending s t
  above : ∀ tx ∈ queue, t ≤ tx.nonce

theorem Spans.below {txs txs' : List Transaction} {s t k : Nat} (h : Spans txs s t)
    (hmem : ∀ tx, tx ∈ txs' ↔ tx ∈ txs ∧ tx.nonce < k) : Spans txs' s (min t k) := by
  intro n
  constructor
  · rintro ⟨tx, htx, rfl⟩
    obtain ⟨htx, hlt⟩ := (hmem tx).mp htx
    have hin := (h tx.nonce).mp ⟨tx, htx, rfl⟩
    omega
  · intro hn
    obtain ⟨tx, htx, rfl⟩ := (h n).mpr (by omega)
    exact ⟨tx, (hmem tx).mpr ⟨htx, by omega⟩, rfl⟩

theorem Spans.nonce_mem {txs : List Transaction} {s t : Nat} (h : Spans txs s t)
    {tx : Transaction} (htx : tx ∈ txs) : s ≤ tx.nonce ∧ tx.nonce < t :=
  (h tx.nonce).mp ⟨tx, htx, rfl⟩

/-- What the pool has of an account: its lists, its nonce in the state and its next nonce. -/
structure View where
  pending : List Transaction
  queue : List Transaction
  state : Nat
  next : Nat

/-- The nonces of the account are in order. -/
def View.InOrder (v : View) : Prop := Ordered v.pending v.queue v.state v.next

namespace LegacyPool

variable {S M : Type} {pool pool' : LegacyPool S M} {a : Address} {held : Option Address}

def view (pool : LegacyPool S M) (a : Address) : View :=
  { pending := pool.pendingOf a, queue := pool.queueOf a
    state := pool.currentState.nonce a, next := pool.pendingNonces.get a }

variable {gone fresh : List Transaction} {tx : Transaction} {offenders : List Address}

theorem Reworked.view_of_ne (h : Reworked held a gone fresh pool pool') {b : Address} (hb : b ≠ a) :
    pool'.view b = pool.view b := by
  simp only [view, pendingOf, queueOf, h.pending.others b hb, h.queue.others b hb, h.state,
    h.nonces.others b hb]

/-! ## Single accounts -/

section

variable (hstate : pool'.currentState = pool.currentState)
include hstate

theorem Removal.inOrder (h : Removal tx pool pool')
    (ho : (pool.view tx.sender).InOrder) :
    (pool'.view tx.sender).InOrder := by
  obtain ⟨hle, hspans, habove⟩ := ho
  simp only [View.InOrder, view, hstate] at hle hspans habove ⊢
  obtain ⟨htx, hpending, hqueue, hnext⟩ | ⟨-, hpending, hqueue, hnext⟩ := h
  · have htx := hspans.nonce_mem htx
    rw [hnext]
    refine ⟨by omega, hspans.below hpending, fun x hx => ?_⟩
    obtain hx | ⟨-, hlt⟩ := (hqueue x).mp hx
    · exact (min_le_left ..).trans (habove x hx)
    · exact (min_le_right ..).trans hlt.le
  · rw [hnext]
    refine ⟨hle, fun n => ?_, fun x hx => habove x ((hqueue x).mp hx).1⟩
    simp only [hpending]
    exact hspans n

theorem Addition.inOrder (h : Addition tx pool pool')
   
    (hnonce : pool.currentState.nonce tx.sender ≤ tx.nonce) (ho : (pool.view tx.sender).InOrder) :
    (pool'.view tx.sender).InOrder := by
  obtain ⟨hle, hspans, habove⟩ := ho
  simp only [View.InOrder, view, hstate, h.next] at hle hspans habove ⊢
  refine ⟨hle, fun n => (h.pending n).trans (hspans n), fun y hy => ?_⟩
  obtain hy | ⟨rfl, hfree⟩ := h.queue y hy
  · exact habove y hy
  · -- the nonce is not pending, so it is not below the next one
    by_contra hlt
    obtain ⟨x, hx, heq⟩ := (hspans y.nonce).mpr ⟨hnonce, not_le.mp hlt⟩
    exact hfree x hx heq

theorem Promotion.inOrder {readies : List Transaction} (h : Promotion a readies pool pool')
    (ho : (pool.view a).InOrder) :
    (pool'.view a).InOrder := by
  obtain ⟨hle, hspans, habove⟩ := ho
  simp only [View.InOrder, view, hstate] at hle hspans habove ⊢
  obtain ⟨rfl, hnext⟩ | ⟨first, hfirst, hlt, hready, hrest⟩ := h.next
  · rw [hnext]
    refine ⟨hle, fun n => ?_, fun x hx => habove x (h.queue x hx).1⟩
    simp only [h.pending, not_mem_nil, false_or]
    exact hspans n
  · -- the queue starts at the next nonce or later, so what is ready starts there
    obtain ⟨x, hx, hnonce⟩ := (hready first).mpr ⟨le_rfl, hlt⟩
    have hge := habove x (h.ready x hx).1
    refine ⟨by omega, fun n => ?_, hrest⟩
    simp only [h.pending, or_and_right, exists_or]
    rw [hready n, hspans n]
    omega

theorem Capped.inOrder {last : Transaction} (h : Capped a last pool pool')
    (ho : (pool.view a).InOrder) :
    (pool'.view a).InOrder := by
  obtain ⟨hle, hspans, habove⟩ := ho
  simp only [View.InOrder, view, hstate, h.next, h.queue] at hle hspans habove ⊢
  have hlast := hspans.nonce_mem h.mem
  exact ⟨by omega, hspans.below h.pending, fun x hx => (min_le_left ..).trans (habove x hx)⟩

end

/-! ## The offered transactions -/

/-- The store of the pool is another one after some events. -/
def Follows (t : TxStore) (pool : LegacyPool S M) : Prop :=
  ∃ events : List Event, pool.validPendingTxs = events.foldl apply t

namespace Follows

theorem refl (pool : LegacyPool S M) : Follows pool.validPendingTxs pool := ⟨[], rfl⟩

variable {t : TxStore} (h : Follows t pool)

include h

theorem trans (h' : Follows pool.validPendingTxs pool') : Follows t pool' := by
  obtain ⟨events, h⟩ := h
  obtain ⟨events', h'⟩ := h'
  exact ⟨events ++ events', by rw [foldl_append, ← h, h']⟩

theorem event (e : Event) :
    Follows t { pool with validPendingTxs := pool.validPendingTxs.apply e } :=
  h.trans ⟨[e], rfl⟩

theorem foldl {α : Type} (f : LegacyPool S M → α → LegacyPool S M)
    (hf : ∀ pool x, Follows t pool → Follows t (f pool x)) (xs : List α) :
    Follows t (xs.foldl f pool) :=
  foldlRecOn xs f h fun pool h x _ => hf pool x h

theorem dropTx (a : Address) (p : PoolType) (tx : Transaction) :
    Follows t (pool.dropTx a p tx) := by
  cases p with
  | pending => exact h.event (.removed a tx)
  | queue => exact h

theorem dropAll (a : Address) (p : PoolType) (txs : List Transaction) :
    Follows t (pool.dropAll a p txs) :=
  h.foldl _ (fun _ tx h => h.dropTx a p tx) txs

theorem enqueueTx (tx : Transaction) (addAll : Bool) :
    Follows t (pool.enqueueTx tx addAll).1 := by
  simp only [LegacyPool.enqueueTx]
  split
  · exact h
  · split_ifs <;> split <;> exact h

theorem removeFound (tx : Transaction) : Follows t (pool.removeFound tx) := by
  simp only [LegacyPool.removeFound]
  split
  · unfold removeQueued
    split
    · exact h
    · split
      · split_ifs <;> exact h
      · exact h
  · refine foldl ?_ _ (fun _ x h => h.enqueueTx x false) _
    exact h.event (.removed tx.sender tx)

theorem removeTx (hash : Hash) (unreserve : Bool) :
    Follows t (pool.removeTx hash unreserve) := by
  simp only [LegacyPool.removeTx, releaseIfUnused]
  split
  · exact h
  · split_ifs <;> exact h.removeFound _

theorem insertTx (tx : Transaction) : Follows t (pool.insertTx tx).1 := by
  unfold LegacyPool.insertTx
  split
  · exact h.enqueueTx tx true
  · split_ifs
    · exact h.enqueueTx tx true
    · split
      · exact h
      · split
        · exact h.event (.replaced tx.sender _)
        · exact h

theorem promoteTx (a : Address) (tx : Transaction) : Follows t (pool.promoteTx a tx) := by
  simp only [LegacyPool.promoteTx]
  split
  · exact h
  · split
    · exact (h.event (.replaced a _)).event (.promoted a tx)
    · exact h.event (.promoted a tx)

theorem settleQueue (a : Address) (list : TxList) : Follows t (pool.settleQueue a list) := by
  simp only [LegacyPool.settleQueue]
  split_ifs <;> exact h

theorem promoteAccount (recheck : AnteHandler S M Transaction) (writes : Bool)
    (branch : Branch S M Transaction) (a : Address) :
    Follows t (LegacyPool.promoteAccount recheck writes (pool, branch) a).1 := by
  simp only [LegacyPool.promoteAccount]
  split
  · exact h
  · refine settleQueue (dropAll (foldl ?_ _ (fun _ tx h => h.promoteTx a tx) _) a .queue _) a _
    exact ((h.dropAll a .queue _).dropAll a .queue _).dropAll a .queue _

theorem capLast (a : Address) : Follows t (pool.capLast a) := by
  simp only [LegacyPool.capLast]
  split
  · exact h
  · refine foldl ?_ _ (fun _ tx h => ?_) _
    · exact h
    · exact h.dropTx a .pending tx

end Follows

/-! ## Operations -/

/-- An operation that keeps the pool together, and the order of every account. -/
structure Keeps (held : Option Address) (pool pool' : LegacyPool S M) : Prop where
  pooled : Pooled held pool'
  config : pool'.config = pool.config
  state : pool'.currentState = pool.currentState
  order : ∀ b, (pool.view b).InOrder → (pool'.view b).InOrder
  follows : Follows pool.validPendingTxs pool'

theorem Keeps.refl (hp : Pooled held pool) : Keeps held pool pool :=
  ⟨hp, rfl, rfl, fun _ h => h, .refl pool⟩

theorem Keeps.trans {pool'' : LegacyPool S M} (h : Keeps held pool pool')
    (h' : Keeps held pool' pool'') : Keeps held pool pool'' :=
  ⟨h'.pooled, h'.config.trans h.config, h'.state.trans h.state,
    fun b hb => h'.order b (h.order b hb), h.follows.trans h'.follows⟩

theorem Keeps.foldl {I : Type} {f : LegacyPool S M → I → LegacyPool S M}
    (hf : ∀ pool i, Pooled held pool → Keeps held pool (f pool i)) (items : List I)
    (hp : Pooled held pool) : Keeps held pool (items.foldl f pool) := by
  induction items generalizing pool with
  | nil => exact .refl hp
  | cons i rest ih => exact (hf pool i hp).trans (ih (hf pool i hp).pooled)

theorem Reworked.keeps (h : Reworked held a gone fresh pool pool') (hp : Pooled held pool)
    (ha : (pool.view a).InOrder → (pool'.view a).InOrder)
    (hfollows : Follows pool.validPendingTxs pool → Follows pool.validPendingTxs pool') :
    Keeps held pool pool' := by
  refine ⟨h.pooled hp, h.config, h.state, fun b hb => ?_, hfollows (.refl pool)⟩
  by_cases heq : b = a
  · subst heq
    exact ha hb
  · rwa [h.view_of_ne heq]

theorem removeTx_keeps (hp : Pooled none pool) (hash : Hash) :
    Keeps none pool (pool.removeTx hash true) := by
  cases hfound : pool.all[hash]? with
  | none =>
    simp only [removeTx, hfound]
    exact .refl hp
  | some tx =>
    obtain ⟨hreworked, hremoval⟩ := removeTx_reworked hp hfound
      (by simp : none = some tx.sender ↔ true = false)
    exact hreworked.keeps hp (hremoval.inOrder hreworked.state) fun h => h.removeTx hash true

/-- `SetGasTip`. -/
theorem setGasTip_keeps (hp : Pooled none pool) (tip : Nat) (order : List Hash) :
    Keeps none pool (pool.setGasTip tip order) := by
  have htip : Keeps none pool { pool with gasTip := tip } :=
    ⟨⟨hp.pending, hp.queue, hp.owned, hp.apart, hp.all, hp.reserved, hp.fallback⟩, rfl, rfl,
      fun _ h => h, .refl pool⟩
  simp only [setGasTip]
  split_ifs
  · exact htip.trans (.foldl (fun pool hash hp => removeTx_keeps hp hash) _ htip.pooled)
  · exact htip

/-- `truncateQueue`. -/
theorem truncateQueue_keeps (hp : Pooled none pool) (order : List Address) :
    Keeps none pool (pool.truncateQueue order) := by
  have hremove : ∀ (pool : LegacyPool S M) (txs : List Transaction), Pooled none pool →
      Keeps none pool (txs.foldl (fun pool tx => pool.removeTx tx.hash true) pool) :=
    fun pool txs hp => .foldl (fun pool tx hp => removeTx_keeps hp tx.hash) txs hp
  have hloop : ∀ (accounts : List Address) (pool : LegacyPool S M) (drop : Nat),
      Pooled none pool → Keeps none pool (truncateAccounts accounts pool drop) := by
    intro accounts
    induction accounts with
    | nil => exact fun pool drop hp => .refl hp
    | cons addr rest ih =>
      intro pool drop hp
      simp only [truncateAccounts]
      split_ifs
      · exact .refl hp
      · have hkeeps := hremove pool (pool.queueOf addr) hp
        exact hkeeps.trans (ih _ _ hkeeps.pooled)
      · exact hremove pool _ hp
  exact hloop _ pool _ hp

/-- `promoteExecutables` when there is no new head. -/
theorem promoteExecutables_keeps (hp : Pooled none pool) (recheck : AnteHandler S M Transaction)
    (reset : Bool) (accounts : List Address) :
    Keeps none pool (pool.promoteExecutables recheck reset accounts).1 := by
  have hloop : ∀ (accounts : List Address) (state : LegacyPool S M × Branch S M Transaction),
      Pooled none state.1 →
        Keeps none state.1 (accounts.foldl (promoteAccount recheck !reset) state).1 := by
    intro accounts
    induction accounts with
    | nil => exact fun state hp => .refl hp
    | cons addr rest ih =>
      intro state hp
      obtain ⟨⟨gone, hreworked⟩, readies, hpromotion⟩ :=
        promoteAccount_reworked hp recheck (!reset) state.2 addr
      have hkeeps := hreworked.keeps hp (hpromotion.inOrder hreworked.state)
        fun h => h.promoteAccount recheck (!reset) state.2 addr
      exact hkeeps.trans (ih _ hkeeps.pooled)
  have hkeeps := hloop accounts (pool, .getContext pool.rechecker) hp
  obtain ⟨hp', hconfig, hstate, horder, hfollows⟩ := hkeeps
  exact ⟨⟨hp'.pending, hp'.queue, hp'.owned, hp'.apart, hp'.all, hp'.reserved, hp'.fallback⟩,
    hconfig, hstate, horder, hfollows⟩

/-! ## Truncation of the pending lists -/

theorem Reworked.pendingLen_of_ne (h : Reworked held a gone fresh pool pool') {b : Address}
    (hb : b ≠ a) : pool'.pendingLen b = pool.pendingLen b := by
  simp only [pendingLen, pendingOf, h.pending.others b hb]

/-- One round: every offender has more than one transaction, and loses one. -/
theorem capLast_foldl (hnodup : offenders.Nodup) (hp : Pooled none pool)
    (hlen : ∀ o ∈ offenders, 1 < pool.pendingLen o) :
    Keeps none pool (offenders.foldl capLast pool) ∧
      (∀ o ∈ offenders, (offenders.foldl capLast pool).pendingLen o + 1 = pool.pendingLen o) ∧
      ∀ b ∉ offenders, (offenders.foldl capLast pool).pendingLen b = pool.pendingLen b := by
  induction offenders generalizing pool with
  | nil => exact ⟨.refl hp, nofun, fun _ _ => rfl⟩
  | cons offender rest ih =>
    obtain ⟨hnot, hnodup⟩ := nodup_cons.mp hnodup
    obtain ⟨hfirst, hlen⟩ := forall_mem_cons.mp hlen
    obtain ⟨last, hreworked, hcapped⟩ := capLast_reworked hp hfirst
    have hkeeps := hreworked.keeps hp (hcapped.inOrder hreworked.state)
      fun h => h.capLast offender
    have hothers : ∀ b, b ≠ offender → (pool.capLast offender).pendingLen b = pool.pendingLen b :=
      fun b hb => hreworked.pendingLen_of_ne hb
    obtain ⟨hrest, hlost, hsame⟩ := ih hnodup hkeeps.pooled (by
      intro o ho
      rw [hothers o fun h => hnot (h ▸ ho)]
      exact hlen o ho)
    rw [foldl_cons]
    refine ⟨hkeeps.trans hrest, fun o ho => ?_, fun b hb => ?_⟩
    · obtain rfl | ho := mem_cons.mp ho
      · rw [hsame o hnot]
        exact hcapped.len
      · rw [hlost o ho, hothers o fun h => hnot (h ▸ ho)]
    · obtain ⟨hne, hb⟩ := not_or.mp (mem_cons.not.mp hb)
      rw [hsame b hb, hothers b hne]

/-- The rounds leave every offender with as many transactions as the last one, and this one with
no less than the threshold. -/
theorem reduce_keeps {last : Address} (hnodup : offenders.Nodup) (hlast : last ∈ offenders)
    {threshold : Nat} (hthreshold : 0 < threshold) (rounds : Nat) (pending : Nat)
    (hp : Pooled none pool) (hleast : ∀ o ∈ offenders, pool.pendingLen last ≤ pool.pendingLen o) :
    let out := (reduce offenders last threshold rounds pool pending).1
    Keeps none pool out ∧ (∀ o ∈ offenders, out.pendingLen last ≤ out.pendingLen o) ∧
      (∀ b ∉ offenders, out.pendingLen b = pool.pendingLen b) ∧
      (threshold ≤ pool.pendingLen last → threshold ≤ out.pendingLen last) := by
  induction rounds generalizing pool pending with
  | zero => exact ⟨.refl hp, hleast, fun _ _ => rfl, fun h => h⟩
  | succ rounds ih =>
    simp only [reduce]
    split_ifs with hmore
    · obtain ⟨hround, hlost, hsame⟩ := capLast_foldl hnodup hp fun o ho => by
        have := hleast o ho
        omega
      obtain ⟨hkeeps, hleast', hsame', hbound⟩ :=
        ih (pending - offenders.length) hround.pooled fun o ho => by
          have := hlost last hlast
          have := hlost o ho
          have := hleast o ho
          omega
      refine ⟨hround.trans hkeeps, hleast', fun b hb => ?_, fun _ => hbound ?_⟩
      · rw [hsame' b hb, hsame b hb]
      · have := hlost last hlast
        omega
    · exact ⟨.refl hp, hleast, fun _ _ => rfl, fun h => h⟩

/-- The latest offender has the fewest transactions of all. -/
def Leveled (pool : LegacyPool S M) (offenders : List Address) : Prop :=
  ∀ last ∈ offenders.head?, ∀ o ∈ offenders, pool.pendingLen last ≤ pool.pendingLen o

/-- The loop over the spammers, from the one with the most transactions on. -/
theorem penalize_keeps {spammers : List Address} (offenders : List Address) (pending : Nat)
    (hp : Pooled none pool) (hnodup : (offenders ++ spammers).Nodup)
    (hmany : ∀ sp ∈ spammers, 0 < pool.pendingLen sp)
    (hsorted : spammers.Pairwise fun x y => pool.pendingLen y ≤ pool.pendingLen x)
    (hlevel : Leveled pool offenders)
    (hbelow : ∀ last ∈ offenders.head?, ∀ sp ∈ spammers,
      pool.pendingLen sp ≤ pool.pendingLen last) :
    let out := penalize spammers offenders pool pending
    Keeps none pool out.2.1 ∧ out.1.Nodup ∧ Leveled out.2.1 out.1 := by
  induction spammers generalizing offenders pool pending with
  | nil => exact ⟨.refl hp, append_nil offenders ▸ hnodup, hlevel⟩
  | cons offender rest ih =>
    obtain ⟨hoffender, hmany⟩ := forall_mem_cons.mp hmany
    obtain ⟨hfirst, hsorted⟩ := pairwise_cons.mp hsorted
    have hnodup' : ((offender :: offenders) ++ rest).Nodup := (perm_middle.nodup_iff).mp hnodup
    simp only [penalize]
    split_ifs with hmore
    · cases offenders with
      | nil =>
        refine ih [offender] pending hp hnodup' hmany hsorted ?_ ?_
        · rintro last ⟨⟩ o ho
          rw [mem_singleton.mp ho]
        · rintro last ⟨⟩ sp hsp
          exact hfirst sp hsp
      | cons last others =>
        have hoff : (last :: others).Nodup := hnodup.of_append_left
        have hnew : ∀ sp ∈ offender :: rest, sp ∉ (last :: others).reverse := by
          intro sp hsp hmem
          exact (disjoint_of_nodup_append hnodup) (mem_reverse.mp hmem) hsp
        obtain ⟨hkeeps, hleast, hsame, hbound⟩ := reduce_keeps
          (nodup_reverse.mpr hoff) (mem_reverse.mpr mem_cons_self) hoffender
          (pool.pendingLen last - pool.pendingLen offender) pending hp
          (fun o ho => hlevel last rfl o (mem_reverse.mp ho))
        have hbound := hbound (hbelow last rfl offender mem_cons_self)
        have hlens : ∀ sp ∈ offender :: rest, _ = pool.pendingLen sp := fun sp hsp =>
          hsame sp (hnew sp hsp)
        have hlen := hlens offender mem_cons_self
        obtain ⟨hkeeps', hout⟩ := ih (offender :: last :: others)
          (reduce (last :: others).reverse last (pool.pendingLen offender)
            (pool.pendingLen last - pool.pendingLen offender) pool pending).2
          hkeeps.pooled hnodup'
          (fun sp hsp => by rw [hlens sp (.tail _ hsp)]; exact hmany sp hsp)
          (hsorted.imp_of_mem fun hx hy h => by
            rwa [hlens _ (.tail _ hx), hlens _ (.tail _ hy)])
          (by
            rintro first ⟨⟩ o ho
            obtain rfl | ho := mem_cons.mp ho
            · exact le_rfl
            · have := hleast o (mem_reverse.mpr ho)
              omega)
          (by
            rintro first ⟨⟩ sp hsp
            rw [hlen, hlens sp (.tail _ hsp)]
            exact hfirst sp hsp)
        exact ⟨hkeeps.trans hkeeps', hout⟩
    · exact ⟨.refl hp, hnodup.of_append_left, hlevel⟩

theorem rangeOf_nodup {V : Type} (order : List Address) (m : FMap Address V) :
    (rangeOf order m).Nodup := by
  refine nodup_append.mpr ⟨(nodup_dedup order).filter _,
    (keys_nodup m).filter _, fun x hx y hy hxy => ?_⟩
  have hx := mem_dedup.mp (mem_of_mem_filter hx)
  simp [← hxy, hx] at hy

/-- `truncatePending`. -/
theorem truncatePending_keeps (hp : Pooled none pool) (order : List Address) :
    Keeps none pool (pool.truncatePending order) := by
  simp only [truncatePending]
  split_ifs
  · exact .refl hp
  · generalize hspam : ((rangeOf order pool.pending).filter fun addr =>
      pool.config.accountSlots < pool.pendingLen addr).insertionSort
        (fun a b => pool.pendingLen b ≤ pool.pendingLen a) = spammers
    have hperm : spammers.Perm ((rangeOf order pool.pending).filter fun addr =>
        pool.config.accountSlots < pool.pendingLen addr) :=
      hspam ▸ perm_insertionSort _ _
    have hmany : ∀ sp ∈ spammers, 0 < pool.pendingLen sp := by
      intro sp hsp
      have hmore := (mem_filter.mp (hperm.mem_iff.mp hsp)).2
      exact (Nat.zero_le _).trans_lt (of_decide_eq_true hmore)
    have hsorted : spammers.Pairwise fun x y => pool.pendingLen y ≤ pool.pendingLen x := by
      exact hspam ▸ pairwise_insertionSort _ _
    have hnodup : spammers.Nodup := hperm.nodup_iff.mpr ((rangeOf_nodup ..).filter _)
    obtain ⟨hkeeps, hnodup, hlevel⟩ := penalize_keeps []
      ((rangeOf order pool.pending).map pool.pendingLen).sum hp hnodup hmany hsorted nofun nofun
    generalize penalize spammers [] pool _ = r at hkeeps hnodup hlevel ⊢
    obtain ⟨offenders, pool', pending⟩ := r
    cases offenders with
    | nil => exact hkeeps
    | cons last others =>
      have hslots := pool'.config.accountSlots_pos
      obtain ⟨hreduce, -⟩ := reduce_keeps (nodup_reverse.mpr hnodup)
        (mem_reverse.mpr mem_cons_self) hslots
        (pool'.pendingLen last - pool'.config.accountSlots) pending hkeeps.pooled
        (fun o ho => hlevel last rfl o (mem_reverse.mp ho))
      exact hkeeps.trans hreduce

/-! ## Additions -/

theorem Pooled.used_iff (hp : Pooled held pool) (a : Address) :
    (∃ x, pool.Has a x) ↔ a ∈ pool.pending ∨ a ∈ pool.queue := by
  rw [(hp.pending a).mem_iff, (hp.queue a).mem_iff]
  exact exists_or

/-- A held account may as well be one that is used. -/
theorem Pooled.change {held' : Option Address} (hp : Pooled held pool)
    (h : ∀ b, b ∈ pool.pending ∨ b ∈ pool.queue ∨ held = some b ↔
      b ∈ pool.pending ∨ b ∈ pool.queue ∨ held' = some b) : Pooled held' pool :=
  ⟨hp.pending, hp.queue, hp.owned, hp.apart, hp.all, fun b => (hp.reserved b).trans (h b),
    hp.fallback⟩

theorem Pooled.change_used {held' : Option Address} (hp : Pooled held pool)
    (ha : a ∈ pool.pending ∨ a ∈ pool.queue) (hheld : held = none ∨ held = some a)
    (hheld' : held' = none ∨ held' = some a) : Pooled held' pool := by
  refine hp.change fun b => ?_
  by_cases hb : b = a
  · subst hb
    exact iff_of_true (or_assoc.mp (.inl ha)) (or_assoc.mp (.inl ha))
  · have hnot : ∀ held : Option Address, held = none ∨ held = some a → held ≠ some b := by
      rintro _ (rfl | rfl) h
      · cases h
      · exact hb (Option.some.inj h).symm
    rw [or_iff_left (hnot held hheld), or_iff_left (hnot held' hheld')]

/-- An operation that only takes transactions away. -/
structure Shrinks (pool pool' : LegacyPool S M) : Prop where
  has : ∀ {b x}, pool'.Has b x → pool.Has b x
  all : ∀ {h : Hash} {x : Transaction}, pool'.all[h]? = some x → pool.all[h]? = some x

theorem Reworked.shrinks (h : Reworked held a gone [] pool pool') : Shrinks pool pool' where
  has {b x} hx := by
    by_cases hb : b = a
    · subst hb
      exact ((or_iff_right not_mem_nil).mp (h.has.mp hx)).1
    · exact (has_congr (h.pending.others b hb) (h.queue.others b hb)).mp hx
  all {hash x} hx := by
    obtain ⟨hnil, -⟩ | ⟨hx, -⟩ := h.all.mp hx
    · cases hnil
    · exact hx

/-- The loop that drops what the priced list discards for a new transaction. -/
theorem discard_keeps {sender : Address} (drop : List Transaction) (hp : Pooled (some sender) pool)
    (hdrop : ∀ x ∈ drop, ∀ y, pool.all[x.hash]? = some y → y = x) :
    let pool' := drop.foldl (fun pool x => pool.removeTx x.hash (x.sender ≠ sender)) pool
    Keeps (some sender) pool pool' ∧ Shrinks pool pool' := by
  induction drop generalizing pool with
  | nil => exact ⟨.refl hp, fun h => h, fun h => h⟩
  | cons x rest ih =>
    obtain ⟨hfirst, hdrop⟩ := forall_mem_cons.mp hdrop
    have hstep : Keeps (some sender) pool (pool.removeTx x.hash (x.sender ≠ sender)) ∧
        Shrinks pool (pool.removeTx x.hash (x.sender ≠ sender)) := by
      cases hfound : pool.all[x.hash]? with
      | none =>
        simp only [removeTx, hfound]
        exact ⟨.refl hp, fun h => h, fun h => h⟩
      | some y =>
        obtain rfl := hfirst y hfound
        have hheld : some sender = some y.sender ↔ decide (y.sender ≠ sender) = false := by
          rw [Option.some_inj, decide_eq_false_iff_not, not_not]
          exact eq_comm
        obtain ⟨hreworked, hremoval⟩ := removeTx_reworked hp hfound hheld
        exact ⟨hreworked.keeps hp (hremoval.inOrder hreworked.state) fun h => h.removeTx _ _,
          hreworked.shrinks⟩
    obtain ⟨hkeeps, hshrinks⟩ := hstep
    obtain ⟨hkeeps', hshrinks'⟩ := ih hkeeps.pooled fun z hz y hy =>
      hdrop z hz y (hshrinks.all hy)
    exact ⟨hkeeps.trans hkeeps', fun h => hshrinks.has (hshrinks'.has h),
      fun h => hshrinks.all (hshrinks'.all h)⟩

/-- A sender without transactions is not refused. -/
theorem insertTx_ok (hp : Pooled held pool) (hcost : tx.cost < 2 ^ 256)
    (hunused : ∀ x, ¬pool.Has tx.sender x) : (pool.insertTx tx).2 = .ok false := by
  have hnone : pool.pending[tx.sender]? = none := by
    refine notMem_iff_get.mp fun h => ?_
    obtain ⟨x, hx⟩ := (hp.pending tx.sender).mem_iff.mp h
    exact hunused x (.inl hx)
  obtain ⟨l, heq, -⟩ := enqueueTx_new true hcost (hp.queue tx.sender)
    fun x hx => absurd (.inr hx) (hunused x)
  simp only [insertTx, hnone, heq]

/-- `add`, once the sender is reserved: it is refused and the pool is the same, or the sender has
transactions. -/
theorem addReserved_keeps (hp : Pooled (some tx.sender) pool) (hcost : tx.cost < 2 ^ 256)
    (hnew : pool.all[tx.hash]? = none) (hnonce : pool.currentState.nonce tx.sender ≤ tx.nonce)
    (room : Room) :
    Keeps (some tx.sender) pool (pool.addReserved tx room).1 ∧
      ((∃ err, pool.addReserved tx room = (pool, .error err)) ∨
        (∃ x, (pool.addReserved tx room).1.Has tx.sender x) ∧
          ((∀ x, ¬pool.Has tx.sender x) → (pool.addReserved tx room).2 = .ok false)) := by
  have hinsert : ∀ pool' : LegacyPool S M, Keeps (some tx.sender) pool pool' →
      Shrinks pool pool' → Keeps (some tx.sender) pool (pool'.insertTx tx).1 ∧
        (∃ x, (pool'.insertTx tx).1.Has tx.sender x) ∧
        ((∀ x, ¬pool.Has tx.sender x) → (pool'.insertTx tx).2 = .ok false) := by
    intro pool' hkeeps hshrinks
    have hnew' : pool'.all[tx.hash]? = none := by
      cases hfound : pool'.all[tx.hash]? with
      | none => rfl
      | some x =>
        rw [hshrinks.all hfound] at hnew
        cases hnew
    obtain ⟨⟨gone, fresh, hreworked⟩, hadded⟩ := insertTx_reworked hkeeps.pooled hcost hnew'
    have hnonce' : pool'.currentState.nonce tx.sender ≤ tx.nonce := hkeeps.state ▸ hnonce
    refine ⟨hkeeps.trans (hreworked.keeps hkeeps.pooled (hadded.inOrder hreworked.state hnonce')
      fun h => h.insertTx tx), hadded.used, fun hunused => ?_⟩
    exact insertTx_ok hkeeps.pooled hcost fun x hx => hunused x (hshrinks.has hx)
  cases room with
  | free =>
    obtain ⟨hkeeps, hrest⟩ := hinsert pool (.refl hp) ⟨fun h => h, fun h => h⟩
    exact ⟨hkeeps, .inr hrest⟩
  | underpriced | overflown => exact ⟨.refl hp, .inl ⟨_, rfl⟩⟩
  | discards hashes =>
    simp only [addReserved]
    split_ifs
    · exact ⟨.refl hp, .inl ⟨_, rfl⟩⟩
    · have hdrop : ∀ x ∈ hashes.filterMap (fun hash => pool.all[hash]?), ∀ y,
          pool.all[x.hash]? = some y → y = x := by
        intro x hx y hy
        obtain ⟨hash, -, hfound⟩ := mem_filterMap.mp hx
        obtain ⟨rfl, -⟩ := hp.all.mp hfound
        rw [hfound] at hy
        exact (Option.some.inj hy).symm
      obtain ⟨hkeeps, hshrinks⟩ := discard_keeps _ hp hdrop
      obtain ⟨hkeeps', hrest⟩ := hinsert _ hkeeps hshrinks
      exact ⟨hkeeps', .inr hrest⟩

/-- What passes `validateTx` is not below the nonce of its sender, who can pay for it. -/
theorem validateTx_eq_none {otherChecks : Option String}
    (h : pool.validateTx tx otherChecks = none) :
    pool.currentState.nonce tx.sender ≤ tx.nonce ∧ tx.cost < 2 ^ 256 := by
  simp only [validateTx] at h
  split at h
  · cases h
  · next hnonce =>
    split at h
    · cases h
    · next hbalance =>
      exact ⟨not_lt.mp hnonce,
        (not_lt.mp hbalance).trans_lt (pool.currentState.balance_lt tx.sender)⟩

theorem hold_one (id : Int) (accounts : Tracker) (a : Address) :
    (accounts[a]? = none ∧ hold id accounts [a] = (none, accounts.insert a id)) ∨
      ∃ owner, accounts[a]? = some owner ∧ hold id accounts [a] =
        (if owner = id then none else some errAlreadyReserved, accounts) := by
  cases hfound : accounts[a]? with
  | none =>
    refine .inl ⟨rfl, ?_⟩
    simp only [hold, hfound]
  | some owner =>
    refine .inr ⟨owner, rfl, ?_⟩
    simp only [hold, hfound]
    split_ifs <;> rfl

/-- `add` for a sender that the pool reserves first. -/
theorem addHeld_keeps (hp : Pooled none pool) (hcost : tx.cost < 2 ^ 256)
    (hnew : pool.all[tx.hash]? = none) (hnonce : pool.currentState.nonce tx.sender ≤ tx.nonce)
    (room : Room) (hunused : ¬(tx.sender ∈ pool.pending ∨ tx.sender ∈ pool.queue)) :
    let held := { pool with accounts := pool.accounts.insert tx.sender pool.id }
    Keeps none pool (match held.addReserved tx room with
      | (pool, .error err) => (pool.release tx.sender, Except.error err)
      | result => result).1 := by
  intro held
  have hheld : Pooled (some tx.sender) held := by
    refine ⟨hp.pending, hp.queue, hp.owned, hp.apart, hp.all, fun b => ?_, hp.fallback⟩
    rw [show held.accounts[b]? = _ from get_insert ..]
    split_ifs with hb
    · subst hb
      exact iff_of_true rfl (.inr (.inr rfl))
    · refine (hp.reserved b).trans (or_congr_right (or_congr_right ?_))
      exact iff_of_false nofun fun h => hb (Option.some.inj h)
  have hclear : ∀ x, ¬held.Has tx.sender x := fun x hx =>
    hunused ((hheld.used_iff tx.sender).mp ⟨x, hx⟩)
  obtain ⟨hkeeps, ⟨err, heq⟩ | ⟨hused, hok⟩⟩ := addReserved_keeps hheld hcost hnew hnonce room
  · -- refused: the pool is as before, and the sender is released again
    rw [heq]
    refine ⟨⟨hp.pending, hp.queue, hp.owned, hp.apart, hp.all, fun b => ?_, hp.fallback⟩, rfl,
      rfl, fun _ h => h, .refl pool⟩
    by_cases hb : b = tx.sender
    · subst hb
      refine iff_of_false release_self fun h => hunused ?_
      exact (or_assoc.mpr h).resolve_right nofun
    · have hsame : (held.release tx.sender).accounts[b]? = pool.accounts[b]? := by
        refine (release_of_ne hb).trans ?_
        exact (get_insert ..).trans (if_neg fun h => hb h.symm)
      rw [hsame]
      exact hp.reserved b
  · have hok := hok hclear
    generalize held.addReserved tx room = r at hkeeps hused hok ⊢
    obtain ⟨pool', result⟩ := r
    obtain rfl : result = .ok false := hok
    have hpooled : Pooled none pool' :=
      hkeeps.pooled.change_used ((hkeeps.pooled.used_iff _).mp hused) (.inr rfl) (.inl rfl)
    exact { hkeeps with pooled := hpooled }

/-- `add`. -/
theorem add_keeps (hp : Pooled none pool) (tx : Transaction) (otherChecks : Option String)
    (room : Room) : Keeps none pool (pool.add tx otherChecks room).1 := by
  unfold add
  split
  · exact .refl hp
  · next hknown =>
    have hnew : pool.all[tx.hash]? = none := notMem_iff_get.mp hknown
    split
    · exact .refl hp
    · next hvalid =>
      obtain ⟨hnonce, hcost⟩ := validateTx_eq_none hvalid
      split_ifs with hused
      · have hused : tx.sender ∈ pool.pending ∨ tx.sender ∈ pool.queue := by simpa using hused
        have hheld := hp.change_used hused (.inl rfl) (.inr rfl)
        obtain ⟨hkeeps, hcases⟩ := addReserved_keeps hheld hcost hnew hnonce room
        have hused' : (∃ x, (pool.addReserved tx room).1.Has tx.sender x) := by
          obtain ⟨err, heq⟩ | ⟨hused', -⟩ := hcases
          · rw [heq]
            exact (hp.used_iff _).mpr hused
          · exact hused'
        have hpooled : Pooled none (pool.addReserved tx room).1 :=
          hkeeps.pooled.change_used ((hkeeps.pooled.used_iff _).mp hused') (.inr rfl) (.inl rfl)
        exact { hkeeps with pooled := hpooled }
      · have hunused : ¬(tx.sender ∈ pool.pending ∨ tx.sender ∈ pool.queue) := by
          simpa using hused
        obtain ⟨-, heq⟩ | ⟨owner, howner, heq⟩ := hold_one pool.id pool.accounts tx.sender
        · simp only [heq]
          exact addHeld_keeps hp hcost hnew hnonce room hunused
        · have hother : owner ≠ pool.id := by
            rintro rfl
            exact hunused ((or_assoc.mpr ((hp.reserved _).mp howner)).resolve_right nofun)
          simp only [heq, if_neg hother]
          exact .refl hp

/-! ## Clearing -/

theorem release_foldl_reserved (addrs : List Address) (pool : LegacyPool S M) (b : Address) :
    (addrs.foldl release pool).accounts[b]? = some pool.id ↔
      pool.accounts[b]? = some pool.id ∧ b ∉ addrs := by
  induction addrs generalizing pool with
  | nil => simp
  | cons addr rest ih =>
    rw [foldl_cons, mem_cons, not_or]
    refine (ih (pool.release addr)).trans ?_
    by_cases hb : b = addr
    · subst hb
      exact iff_of_false (fun h => release_self h.1) fun h => h.2.1 rfl
    · rw [show (pool.release addr).accounts[b]? = pool.accounts[b]? from release_of_ne hb]
      exact and_congr_right fun _ => (and_iff_right hb).symm

theorem release_foldl_eq (addrs : List Address) (pool : LegacyPool S M) :
    ∃ accounts, addrs.foldl release pool = { pool with accounts } := by
  induction addrs generalizing pool with
  | nil => exact ⟨_, rfl⟩
  | cons addr rest ih => exact ih (pool.release addr)

/-- `Clear`. -/
theorem clear_keeps (hp : Pooled none pool) : Keeps none pool pool.clear := by
  obtain ⟨accounts, heq⟩ := release_foldl_eq
    (pool.pending.keys.filter fun addr => addr ∉ pool.queue) pool
  obtain ⟨accounts', heq'⟩ := release_foldl_eq pool.queue.keys { pool with accounts }
  have hclear : pool.clear = { pool with
      all := ∅, pending := ∅, queue := ∅, accounts := accounts'
      pendingNonces := .new pool.currentState } := by
    simp only [clear, heq, heq']
  have hpending : ∀ b, pool.clear.pendingOf b = [] := fun b => by
    rw [hclear]
    simp [pendingOf]
  have hqueue : ∀ b, pool.clear.queueOf b = [] := fun b => by
    rw [hclear]
    simp [queueOf]
  have hnone : ∀ b x, ¬pool.clear.Has b x := fun b x => by
    simp [Has, hpending b, hqueue b]
  have hreleased : ∀ b : Address, pool.clear.accounts[b]? ≠ some pool.id := by
    intro b h
    have hone := release_foldl_reserved (pool.pending.keys.filter fun addr => addr ∉ pool.queue)
      pool b
    have htwo := release_foldl_reserved pool.queue.keys { pool with accounts } b
    rw [heq] at hone
    rw [heq'] at htwo
    rw [hclear] at h
    obtain ⟨howned, hnotQueued⟩ := htwo.mp h
    obtain ⟨howned, hnotPending⟩ := hone.mp howned
    obtain hb | hb | hb := (hp.reserved b).mp howned
    · have hkey : b ∉ pool.queue := fun h => hnotQueued (Std.ExtTreeMap.mem_keys.mpr h)
      refine hnotPending (mem_filter.mpr ⟨Std.ExtTreeMap.mem_keys.mpr hb, ?_⟩)
      exact decide_eq_true hkey
    · exact hnotQueued (Std.ExtTreeMap.mem_keys.mpr hb)
    · cases hb
  have hfields : pool.clear.pending = ∅ ∧ pool.clear.queue = ∅ ∧ pool.clear.all = ∅ ∧
      pool.clear.id = pool.id := by
    rw [hclear]
    exact ⟨rfl, rfl, rfl, rfl⟩
  obtain ⟨hp', hq', hall, hid⟩ := hfields
  refine ⟨⟨fun b l hl => ?_, fun b l hl => ?_, fun h => absurd h (hnone _ _), fun htx => ?_,
    ?_, fun b => ?_, ?_⟩, ?_, ?_, fun b _ => ?_, [], ?_⟩
  · rw [hp'] at hl
    simp at hl
  · rw [hq'] at hl
    simp at hl
  · cases htx
  · rw [hall]
    exact iff_of_false (by simp) fun h => hnone _ _ h.2
  · rw [hid, hp', hq']
    refine iff_of_false (hreleased b) ?_
    simp
  · rfl
  · rw [hclear]
  · rw [hclear]
  · have hnext : pool.clear.pendingNonces.get b = pool.clear.currentState.nonce b := by
      rw [hclear]
      simp [Noncer.get, Noncer.new]
    simp only [View.InOrder, view, hpending, hqueue, hnext]
    exact ⟨le_rfl, spans_nil _, by simp⟩
  · rw [hclear]
    rfl

end LegacyPool

end InfiniteEvm.Mempool
