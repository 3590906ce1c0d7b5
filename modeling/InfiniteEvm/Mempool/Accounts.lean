import InfiniteEvm.Mempool.Pooled

/-!
# Operations on one account

Additions, removals, promotions, demotions and caps rework the transactions of one account. For
each of them: what happens to its pending list, its queue and its next nonce.
-/

namespace InfiniteEvm.Mempool

open Library List TxList FMap Branch

namespace LegacyPool

variable {S M : Type} {pool : LegacyPool S M} {a : Address} {held : Option Address}

variable {tx : Transaction} {pending : FMap Address TxList} {l l₁ l₂ l₃ : TxList}
variable {recheckDrops : List Transaction} {s : Nat} {gone : List Transaction}

section

variable (hp : Pooled held pool)
include hp

/-- Transactions of an account are told apart by their nonces. -/
theorem Pooled.eq_of_nonce {tx' : Transaction} (h : pool.Has a tx)
    (h' : pool.Has a tx') (hnonce : tx.nonce = tx'.nonce) : tx = tx' := by
  have hlist : ∀ {m : FMap Address TxList}, tx ∈ listOf m a → tx' ∈ listOf m a → tx = tx' := by
    intro m htx htx'
    rw [← flatten_getD m a true] at htx htx'
    exact SortedMap.eq_of_nonce _ htx htx' hnonce
  obtain h | h := h
  · obtain h' | h' := h'
    · exact hlist h h'
    · exact absurd hnonce (hp.apart h h')
  · obtain h' | h' := h'
    · exact absurd hnonce.symm (hp.apart h' h)
    · exact hlist h h'

theorem Pooled.disjoint (h : tx ∈ pool.pendingOf a) : tx ∉ pool.queueOf a :=
  fun h' => hp.apart h h' rfl

theorem Reworked.refl : Reworked held a [] [] pool pool where
  config := rfl
  state := rfl
  id := rfl
  nonces := .refl _
  pending := .refl (hp.pending a)
  queue := .refl (hp.queue a)
  accounts _ _ := rfl
  has := by simp
  apart := hp.apart
  of_gone := nofun
  of_fresh := nofun
  all := by simp
  reserved := hp.reserved a

/-- The account after transactions were taken out of the lookup and the others were put where
they belong. -/
theorem reworked_of_gone {queue : FMap Address TxList} {nonces : Noncer}
    {accounts : Tracker} {rechecker : Context S M} {store : TxStore}
    (hpending : Rewritten true a pool.pending pending) (hqueue : Rewritten false a pool.queue queue)
    (hnonces : Renumbered a pool.pendingNonces nonces)
    (haccounts : ∀ b : Address, b ≠ a → accounts[b]? = pool.accounts[b]?)
    (hreserved : accounts[a]? = some pool.id ↔ a ∈ pending ∨ a ∈ queue ∨ held = some a)
    (hgone : ∀ x ∈ gone, pool.Has a x)
    (hhas : ∀ x, x ∈ listOf pending a ∨ x ∈ listOf queue a ↔ pool.Has a x ∧ x ∉ gone)
    (hdisjoint : ∀ x ∈ listOf pending a, x ∉ listOf queue a) :
    Reworked held a gone [] pool
      { pool with
        pending, queue, pendingNonces := nonces, accounts, rechecker, validPendingTxs := store
        all := gone.foldl (fun all tx => all.erase tx.hash) pool.all } where
  config := rfl
  state := rfl
  id := rfl
  nonces := hnonces
  pending := hpending
  queue := hqueue
  accounts := haccounts
  has {tx} := by
    rw [or_iff_right not_mem_nil]
    exact hhas tx
  apart {tx tx'} htx htx' hnonce := by
    have heq := hp.eq_of_nonce ((hhas tx).mp (.inl htx)).1 ((hhas tx').mp (.inr htx')).1 hnonce
    rw [heq] at htx
    exact hdisjoint tx' htx htx'
  of_gone {tx} := hgone tx
  of_fresh := nofun
  all {h tx} := by
    rw [get_foldl_erase]
    simp
  reserved := hreserved

/-- The reservations of an account that was reserved and is released if it is not used. -/
theorem settle_reserved (hheld : held ≠ some a)
    (hused : a ∈ pool.pending ∨ a ∈ pool.queue) {queue : FMap Address TxList} :
    (settle pool.id pool.accounts a (a ∈ pending ∨ a ∈ queue))[a]? = some pool.id ↔
      a ∈ pending ∨ a ∈ queue ∨ held = some a := by
  have howned : pool.accounts[a]? = some pool.id := (hp.reserved a).mpr (by rwa [or_iff_left hheld])
  rw [settle_self howned, or_iff_left hheld]

end

/-! ## Removals -/

/-- A pending transaction was removed and those after it are queued again, or one was removed
from the queue. -/
def Removal (tx : Transaction) (pool pool' : LegacyPool S M) : Prop :=
  (tx ∈ pool.pendingOf tx.sender ∧
      (∀ x, x ∈ pool'.pendingOf tx.sender ↔ x ∈ pool.pendingOf tx.sender ∧ x.nonce < tx.nonce) ∧
      (∀ x, x ∈ pool'.queueOf tx.sender ↔ x ∈ pool.queueOf tx.sender ∨
        x ∈ pool.pendingOf tx.sender ∧ tx.nonce < x.nonce) ∧
      pool'.pendingNonces.get tx.sender = min (pool.pendingNonces.get tx.sender) tx.nonce) ∨
    (tx ∈ pool.queueOf tx.sender ∧
      (∀ x, x ∈ pool'.pendingOf tx.sender ↔ x ∈ pool.pendingOf tx.sender) ∧
      (∀ x, x ∈ pool'.queueOf tx.sender ↔ x ∈ pool.queueOf tx.sender ∧ x ≠ tx) ∧
      pool'.pendingNonces.get tx.sender = pool.pendingNonces.get tx.sender)

theorem exists_of_mem_listOf {m : FMap Address TxList} (h : tx ∈ listOf m a) :
    ∃ l : TxList, m[a]? = some l ∧ tx ∈ l.flatten := by
  cases hl : m[a]? with
  | none => simp [listOf, hl] at h
  | some l => exact ⟨l, rfl, listOf_of_some hl ▸ h⟩

/-- What `removeTx` does before the account may be released. -/
theorem removeFound_eq (hp : Pooled held pool) (h : pool.Has tx.sender tx) :
    ∃ (pending queue : FMap Address TxList) (nonces : Noncer) (store : TxStore),
      pool.removeFound tx =
          { pool with
            pending, queue, pendingNonces := nonces, validPendingTxs := store
            all := pool.all.erase tx.hash } ∧
        Rewritten true tx.sender pool.pending pending ∧
        Rewritten false tx.sender pool.queue queue ∧
        Renumbered tx.sender pool.pendingNonces nonces ∧
        Removal tx pool { pool with pending, queue, pendingNonces := nonces } := by
  obtain h | h := h
  · obtain ⟨l, hl, hmem⟩ := exists_of_mem_listOf h
    have hlist : pool.pendingOf tx.sender = l.flatten := listOf_of_some hl
    cases hremove : l.remove tx with
    | none => exact absurd rfl (l.remove_eq_none.mp hremove tx hmem)
    | some r =>
      obtain ⟨invalids, l'⟩ := r
      obtain ⟨-, hstrict, hcut, -, hdistinct⟩ := l.remove_eq_some hremove
      obtain ⟨hlow, hhigh⟩ := hcut (hp.pending _ hl).1
      have hback : ∀ x ∈ invalids, x ∈ pool.pendingOf tx.sender := fun x hx =>
        hlist ▸ ((hhigh x).mp hx).1
      obtain ⟨queue, hqueue, hadded⟩ :=
        enqueueAll_eq { pool with
            all := pool.all.erase tx.hash
            pending := putList pool.pending tx.sender l'
            validPendingTxs := pool.validPendingTxs.removeTx tx.sender tx }
          (hp.queue tx.sender) (fun x hx => hp.owned (.inl (hback x hx)))
          ⟨hdistinct, fun x hx y hy hnonce => hp.apart (hback x hx) hy hnonce.symm⟩
      refine ⟨putList pool.pending tx.sender l', queue,
        pool.pendingNonces.setIfLower tx.sender tx.nonce,
        pool.validPendingTxs.removeTx tx.sender tx, ?_,
        rewritten_putList _ (hstrict.trans (hp.pending _ hl).1), hadded.rewritten,
        ⟨Noncer.fallback_setIfLower .., fun b hb => ?_⟩, .inl ⟨h, fun x => ?_, fun x => ?_, ?_⟩⟩
      · simp only [removeFound, hl, Option.bind_some, hremove]
        exact congrArg (fun p : LegacyPool S M =>
          { p with pendingNonces := p.pendingNonces.setIfLower tx.sender tx.nonce }) hqueue
      · rw [Noncer.get_setIfLower, if_neg hb.symm]
      · rw [hlist, ← hlow]
        exact iff_of_eq (congrArg (x ∈ ·) (listOf_putList ..))
      · rw [hlist, ← hhigh]
        exact (hadded.mem x).trans or_comm
      · rw [Noncer.get_setIfLower, if_pos rfl]
  · obtain ⟨l, hl, hmem⟩ := exists_of_mem_listOf h
    have hlist : pool.queueOf tx.sender = l.flatten := listOf_of_some hl
    have hnone : ((pool.pending[tx.sender]?).bind fun pending => pending.remove tx) = none := by
      cases hpending : pool.pending[tx.sender]? with
      | none => rfl
      | some p =>
        have hplist : pool.pendingOf tx.sender = p.flatten := listOf_of_some hpending
        exact p.remove_eq_none.mpr fun x hx => hp.apart (hplist ▸ hx) h
    cases hremove : l.remove tx with
    | none => exact absurd rfl (l.remove_eq_none.mp hremove tx hmem)
    | some r =>
      obtain ⟨invalids, l'⟩ := r
      obtain ⟨-, hstrict, -, hloose, -⟩ := l.remove_eq_some hremove
      obtain ⟨-, hkept⟩ := hloose (hp.queue _ hl).1
      refine ⟨pool.pending, putList pool.queue tx.sender l', pool.pendingNonces,
        pool.validPendingTxs, ?_, .refl (hp.pending _),
        rewritten_putList _ (hstrict.trans (hp.queue _ hl).1), .refl _,
        .inr ⟨h, fun x => Iff.rfl, fun x => ?_, rfl⟩⟩
      · simp only [removeFound, hnone, removeQueued, hl, hremove]
        rfl
      · have hmem' := hkept x
        rw [← listOf_putList pool.queue tx.sender l', ← hlist] at hmem'
        refine hmem'.trans (and_congr_right fun hx => not_congr ⟨fun hnonce => ?_, fun heq => ?_⟩)
        · exact hp.eq_of_nonce (.inr hx) (.inr h) hnonce
        · rw [heq]

theorem Removal.disjoint (hp : Pooled held pool) {pool' : LegacyPool S M}
    (h : Removal tx pool pool') :
    (∀ x, pool'.Has tx.sender x ↔ pool.Has tx.sender x ∧ x ≠ tx) ∧
      ∀ x ∈ pool'.pendingOf tx.sender, x ∉ pool'.queueOf tx.sender := by
  obtain ⟨htx, hpending, hqueue, -⟩ | ⟨htx, hpending, hqueue, -⟩ := h
  · refine ⟨fun x => ?_, fun x hx hx' => ?_⟩
    · have heq : x ∈ pool.pendingOf tx.sender → x.nonce = tx.nonce → x = tx := fun hx =>
        hp.eq_of_nonce (.inl hx) (.inl htx)
      have hne : x ∈ pool.queueOf tx.sender → x ≠ tx := by
        rintro hx rfl
        exact hp.disjoint htx hx
      simp only [Has, hpending, hqueue]
      constructor
      · rintro (⟨hx, hlt⟩ | hx | ⟨hx, hlt⟩)
        · exact ⟨.inl hx, fun h => absurd hlt (by rw [h]; exact lt_irrefl _)⟩
        · exact ⟨.inr hx, hne hx⟩
        · exact ⟨.inl hx, fun h => absurd hlt (by rw [h]; exact lt_irrefl _)⟩
      · rintro ⟨hx | hx, hnot⟩
        · obtain hlt | hlt := Nat.lt_or_gt_of_ne fun h => hnot (heq hx h)
          · exact .inl ⟨hx, hlt⟩
          · exact .inr (.inr ⟨hx, hlt⟩)
        · exact .inr (.inl hx)
    · obtain ⟨hx, hlt⟩ := (hpending x).mp hx
      obtain hx' | ⟨-, hgt⟩ := (hqueue x).mp hx'
      · exact hp.disjoint hx hx'
      · omega
  · refine ⟨fun x => ?_, fun x hx hx' => ?_⟩
    · have hne : x ∈ pool.pendingOf tx.sender → x ≠ tx := by
        rintro hx rfl
        exact hp.disjoint hx htx
      simp only [Has, hpending, hqueue]
      tauto
    · exact hp.disjoint ((hpending x).mp hx) ((hqueue x).mp hx').1

/-- `removeTx` of a transaction in the pool, which releases its account unless it is held. -/
theorem removeTx_reworked (hp : Pooled held pool) {hash : Hash} (hfound : pool.all[hash]? = some tx)
    {unreserve : Bool} (hheld : held = some tx.sender ↔ unreserve = false) :
    Reworked held tx.sender [tx] [] pool (pool.removeTx hash unreserve) ∧
      Removal tx pool (pool.removeTx hash unreserve) := by
  have hhas := (hp.all.mp hfound).2
  obtain ⟨pending, queue, nonces, store, heq, hpending, hqueue, hnonces, hremoval⟩ :=
    removeFound_eq hp hhas
  obtain ⟨hleft, hdisjoint⟩ := hremoval.disjoint hp
  have hmem : ∀ x, x ∈ listOf pending tx.sender ∨ x ∈ listOf queue tx.sender ↔
      pool.Has tx.sender x ∧ x ∉ [tx] := by
    intro x
    rw [mem_singleton]
    exact hleft x
  have hgone : ∀ x ∈ [tx], pool.Has tx.sender x := by
    intro x hx
    rwa [mem_singleton.mp hx]
  have hused : tx.sender ∈ pool.pending ∨ tx.sender ∈ pool.queue := by
    rw [(hp.pending tx.sender).mem_iff, (hp.queue tx.sender).mem_iff]
    exact hhas.imp (fun h => ⟨tx, h⟩) fun h => ⟨tx, h⟩
  cases unreserve with
  | false =>
    simp only [removeTx, hfound, Bool.false_eq_true, if_false, heq]
    refine ⟨reworked_of_gone hp hpending hqueue hnonces (fun _ _ => rfl) ?_ hgone hmem hdisjoint,
      hremoval⟩
    have hheld := hheld.mpr rfl
    rw [hp.reserved]
    exact iff_of_true (.inr (.inr hheld)) (.inr (.inr hheld))
  | true =>
    simp only [removeTx, hfound, if_true, heq, releaseIfUnused_eq]
    refine ⟨reworked_of_gone hp hpending hqueue hnonces (fun _ hb => settle_of_ne hb) ?_ hgone
      hmem hdisjoint, hremoval⟩
    exact settle_reserved hp (fun h => by cases hheld.mp h) hused

/-! ## Additions -/

/-- The account after a transaction was added, perhaps in the place of another one. -/
theorem reworked_of_fresh (hp : Pooled (some tx.sender) pool) {queue : FMap Address TxList}
    {store : TxStore} (hcost : tx.cost < 2 ^ 256) (hnew : pool.all[tx.hash]? = none)
    (hpending : Rewritten true tx.sender pool.pending pending)
    (hqueue : Rewritten false tx.sender pool.queue queue) (hgone : ∀ x ∈ gone, pool.Has tx.sender x)
    (hhas : ∀ x, x ∈ listOf pending tx.sender ∨ x ∈ listOf queue tx.sender ↔
      x = tx ∨ pool.Has tx.sender x ∧ x ∉ gone)
    (hapart : ∀ x ∈ listOf pending tx.sender, ∀ y ∈ listOf queue tx.sender, x.nonce ≠ y.nonce) :
    Reworked (some tx.sender) tx.sender gone [tx] pool
      { pool with
        pending, queue, validPendingTxs := store
        all := (gone.foldl (fun all tx => all.erase tx.hash) pool.all).insert tx.hash tx } where
  config := rfl
  state := rfl
  id := rfl
  nonces := .refl _
  pending := hpending
  queue := hqueue
  accounts _ _ := rfl
  has {x} := by
    rw [mem_singleton]
    exact hhas x
  apart {x y} hx hy := hapart x hx y hy
  of_gone {x} := hgone x
  of_fresh {x} hx := by
    rw [mem_singleton.mp hx]
    exact ⟨rfl, hcost, hnew⟩
  all {h x} := by
    rw [get_insert, mem_singleton]
    split_ifs with heq
    · subst heq
      rw [hnew, Option.some_inj]
      constructor
      · rintro rfl
        exact .inl ⟨rfl, rfl⟩
      · rintro (⟨rfl, -⟩ | ⟨hnone, -⟩)
        · rfl
        · cases hnone
    · rw [get_foldl_erase]
      constructor
      · exact .inr
      · rintro (⟨rfl, hhash⟩ | hold)
        · exact absurd hhash heq
        · exact hold
  reserved := iff_of_true ((hp.reserved _).mpr (.inr (.inr rfl))) (.inr (.inr rfl))

/-- What an addition does to the lists of the sender. -/
structure Addition (tx : Transaction) (pool pool' : LegacyPool S M) : Prop where
  used : ∃ x, pool'.Has tx.sender x
  pending : ∀ n, (∃ x ∈ pool'.pendingOf tx.sender, x.nonce = n) ↔
    ∃ x ∈ pool.pendingOf tx.sender, x.nonce = n
  queue : ∀ y ∈ pool'.queueOf tx.sender, y ∈ pool.queueOf tx.sender ∨
    y = tx ∧ ∀ x ∈ pool.pendingOf tx.sender, x.nonce ≠ tx.nonce
  next : pool'.pendingNonces.get tx.sender = pool.pendingNonces.get tx.sender

section

variable (hp : Pooled (some tx.sender) pool) (hcost : tx.cost < 2 ^ 256)
  (hnew : pool.all[tx.hash]? = none)
include hp hcost hnew

/-- `enqueueTx` of a transaction whose nonce is not pending. -/
theorem enqueueTx_reworked (hfree : ∀ x ∈ pool.pendingOf tx.sender, x.nonce ≠ tx.nonce) :
    (∃ gone fresh, Reworked (some tx.sender) tx.sender gone fresh pool
      (pool.enqueueTx tx true).1) ∧ Addition tx pool (pool.enqueueTx tx true).1 := by
  obtain ⟨list, hlist⟩ : ∃ l, (pool.queue[tx.sender]?).getD (.new false) = l := ⟨_, rfl⟩
  have hflat : list.flatten = pool.queueOf tx.sender :=
    hlist ▸ flatten_getD pool.queue tx.sender false
  have hloose : list.strict = false := hlist ▸ strict_getD (hp.queue tx.sender)
  cases hadd : list.add tx pool.config.priceBump with
  | none =>
    -- the same list is stored again
    obtain ⟨old, hold, -⟩ := list.add_eq_none hadd hcost
    have hmem : ∀ x, x ∈ listOf (pool.queue.insert tx.sender list) tx.sender ↔
        x ∈ pool.queueOf tx.sender := by
      intro x
      rw [listOf_insert, hflat]
    simp only [enqueueTx, hlist, hadd]
    refine ⟨⟨[], [], reworked_of_gone hp (.refl (hp.pending _))
      (rewritten_insert pool.queue hloose (ne_nil_of_mem hold)) (.refl _)
      (fun _ _ => rfl) ?_ (by simp) (fun x => ?_) (fun x hx => ?_)⟩, ?_⟩
    · exact iff_of_true ((hp.reserved _).mpr (.inr (.inr rfl))) (.inr (.inr rfl))
    · rw [hmem, and_iff_left not_mem_nil]
      rfl
    · rw [hmem]
      exact hp.disjoint hx
    · exact ⟨⟨old, .inr ((hmem old).mpr (hflat ▸ hold))⟩, fun _ => .rfl,
        fun y hy => .inl ((hmem y).mp hy), rfl⟩
  | some r =>
    obtain ⟨old, list'⟩ := r
    obtain ⟨hold, hmem⟩ := list.mem_flatten_of_replaced hadd
    obtain ⟨-, hstrict, -⟩ := list.mem_flatten_of_add hadd
    have hne : list'.flatten ≠ [] := ne_nil_of_mem ((hmem tx).mpr (.inl rfl))
    have heq : (pool.enqueueTx tx true).1 =
        { pool with
          queue := pool.queue.insert tx.sender list'
          all := (old.toList.foldl (fun all tx => all.erase tx.hash) pool.all).insert
            tx.hash tx } := by
      simp only [enqueueTx, hlist, hadd]
      cases old with
      | none => rfl
      | some old => rfl
    rw [hflat] at hold hmem
    rw [← listOf_insert pool.queue tx.sender list'] at hmem
    rw [heq]
    refine ⟨⟨old.toList, [tx], reworked_of_fresh hp hcost hnew (.refl (hp.pending _))
      (rewritten_insert pool.queue (hstrict.trans hloose) hne) (fun x hx => .inr (hold x hx).1)
      (fun x => ?_) (fun x hx y hy => ?_)⟩, ?_⟩
    · have hkept : x ∈ pool.pendingOf tx.sender → x ∉ old.toList := fun hx hx' =>
        hp.disjoint hx (hold x hx').1
      rw [hmem]
      simp only [Has]
      tauto
    · obtain rfl | ⟨hy, -⟩ := (hmem y).mp hy
      · exact hfree x hx
      · exact hp.apart hx hy
    · refine ⟨⟨tx, .inr ((hmem tx).mpr (.inl rfl))⟩, fun _ => Iff.rfl, fun y hy => ?_, rfl⟩
      obtain rfl | ⟨hy, -⟩ := (hmem y).mp hy
      · exact .inr ⟨rfl, hfree⟩
      · exact .inl hy

/-- A transaction that takes the place of a pending one. -/
theorem replacePending_reworked {list list' : TxList} {old : Option Transaction}
    (hlist : pool.pending[tx.sender]? = some list) (hcontains : list.contains tx.nonce)
    {priceBump : Nat} (hadd : list.add tx priceBump = some (old, list')) (store : TxStore) :
    let pool' := { pool with
      pending := pool.pending.insert tx.sender list', validPendingTxs := store
      all := (old.toList.foldl (fun all tx => all.erase tx.hash) pool.all).insert tx.hash tx }
    Reworked (some tx.sender) tx.sender old.toList [tx] pool pool' ∧ Addition tx pool pool' := by
  have hflat : list.flatten = pool.pendingOf tx.sender := (listOf_of_some hlist).symm
  obtain ⟨same, hsame, hnonce⟩ := list.contains_iff.mp hcontains
  obtain ⟨hold, hmem⟩ := list.mem_flatten_of_replaced hadd
  obtain ⟨-, hstrict, hnonces⟩ := list.mem_flatten_of_add hadd
  have hne : list'.flatten ≠ [] := ne_nil_of_mem ((hmem tx).mpr (.inl rfl))
  rw [hflat] at hold hmem hnonces hsame
  rw [← listOf_insert pool.pending tx.sender list'] at hmem hnonces
  constructor
  · apply reworked_of_fresh hp hcost hnew
      (rewritten_insert pool.pending (hstrict.trans (hp.pending _ hlist).1) hne)
      (.refl (hp.queue _)) (fun x hx => .inl (hold x hx).1)
    · intro x
      have hkept : x ∈ pool.queueOf tx.sender → x ∉ old.toList := fun hx hx' =>
        hp.disjoint (hold x hx').1 hx
      rw [hmem]
      simp only [Has]
      tauto
    · intro x hx y hy
      obtain rfl | ⟨hx, -⟩ := (hmem x).mp hx
      · rw [← hnonce]
        exact hp.apart hsame hy
      · exact hp.apart hx hy
  · refine ⟨⟨tx, .inl ((hmem tx).mpr (.inl rfl))⟩, fun n => ⟨?_, ?_⟩, fun y hy => .inl hy, rfl⟩
    · rintro ⟨x, hx, rfl⟩
      obtain rfl | ⟨hx, -⟩ := (hnonces x).mp hx
      · exact ⟨same, hsame, hnonce⟩
      · exact ⟨x, hx, rfl⟩
    · rintro ⟨x, hx, rfl⟩
      by_cases heq : x.nonce = tx.nonce
      · exact ⟨tx, (hnonces tx).mpr (.inl rfl), heq.symm⟩
      · exact ⟨x, (hnonces x).mpr (.inr ⟨hx, heq⟩), rfl⟩

/-- `add`, once there is room. -/
theorem insertTx_reworked :
    (∃ gone fresh, Reworked (some tx.sender) tx.sender gone fresh pool (pool.insertTx tx).1) ∧
      Addition tx pool (pool.insertTx tx).1 := by
  cases hlist : pool.pending[tx.sender]? with
  | none =>
    have hfree : ∀ x ∈ pool.pendingOf tx.sender, x.nonce ≠ tx.nonce := by
      rw [pendingOf, hlist]
      simp
    simp only [insertTx, hlist]
    exact enqueueTx_reworked hp hcost hnew hfree
  | some list =>
    have hflat : list.flatten = pool.pendingOf tx.sender := (listOf_of_some hlist).symm
    by_cases hcontains : list.contains tx.nonce
    · obtain ⟨same, hsame, hnonce⟩ := list.contains_iff.mp hcontains
      simp only [insertTx, hlist, hcontains, Bool.not_true, Bool.false_eq_true, if_false]
      cases hadd : list.add tx pool.config.priceBump with
      | none =>
        exact ⟨⟨[], [], .refl hp⟩, ⟨same, .inl (hflat ▸ hsame)⟩, fun _ => .rfl,
          fun y hy => .inl hy, rfl⟩
      | some r =>
        obtain ⟨old, list'⟩ := r
        have hreplaced := replacePending_reworked hp hcost hnew hlist hcontains hadd
        cases old with
        | none | some old => exact ⟨⟨_, _, (hreplaced _).1⟩, (hreplaced _).2⟩
    · have hfree : ∀ x ∈ pool.pendingOf tx.sender, x.nonce ≠ tx.nonce := by
        intro x hx hnonce
        exact hcontains (list.contains_iff.mpr ⟨x, hflat ▸ hx, hnonce⟩)
      simp only [insertTx, hlist, hcontains, Bool.not_false, if_true]
      exact enqueueTx_reworked hp hcost hnew hfree

end

/-! ## Promotions -/

/-- What a promotion does to the lists of an account: what is ready becomes pending. -/
structure Promotion (a : Address) (readies : List Transaction) (pool pool' : LegacyPool S M) :
    Prop where
  pending : ∀ x, x ∈ pool'.pendingOf a ↔ x ∈ readies ∨ x ∈ pool.pendingOf a
  ready : ∀ x ∈ readies, x ∈ pool.queueOf a ∧ pool.currentState.nonce a ≤ x.nonce
  queue : ∀ x ∈ pool'.queueOf a, x ∈ pool.queueOf a ∧ pool.currentState.nonce a ≤ x.nonce
  next : readies = [] ∧ pool'.pendingNonces.get a = pool.pendingNonces.get a ∨
    ∃ first ≤ pool.pendingNonces.get a, first < pool'.pendingNonces.get a ∧
      Spans readies first (pool'.pendingNonces.get a) ∧
      ∀ x ∈ pool'.queueOf a, pool'.pendingNonces.get a ≤ x.nonce

/-- The passes of a promotion over a queue, from one list to the next. -/
theorem promotion_passes {l₄ l₅ : TxList}
    {forwards costDrops readies caps back back' : List Transaction} {m b : Nat}
    (hloose : l.strict = false) (hstrict : l₁.strict = l.strict)
    (hforward : Cut l.flatten forwards l₁.flatten s) (hcost : Filtered l₁ (costDrops, back, l₂))
    (hrecheck : Filtered l₂ (recheckDrops, back', l₃))
    (hready : Cut l₃.flatten readies l₄.flatten m) (hcap : Cut l₄.flatten l₅.flatten caps b) :
    (∀ x, x ∈ l₅.flatten ∨ x ∈ readies ↔
        x ∈ l.flatten ∧ x ∉ forwards ++ costDrops ++ recheckDrops ++ caps) ∧
      (∀ x ∈ forwards ++ costDrops ++ recheckDrops ++ caps, x ∈ l.flatten) ∧
      (∀ x ∈ readies, x ∉ l₅.flatten) ∧
      (∀ x, x ∈ l₅.flatten ∨ x ∈ readies → s ≤ x.nonce) ∧ ∀ x ∈ l₅.flatten, m ≤ x.nonce := by
  have hloose₁ : l₁.strict = false := hstrict.trans hloose
  have hloose₂ : l₂.strict = false := hcost.flag.trans hloose₁
  have h₁ := hforward.mem_high
  have h₂ := (hcost.loose hloose₁).2
  have h₃ := (hrecheck.loose hloose₂).2
  have h₄ := hready.mem_high
  have h₅ := hcap.mem_low
  have hforwards : ∀ x ∈ forwards, x ∈ l.flatten := fun x hx => ((hforward.low x).mp hx).1
  have hcostDrops := hcost.mem
  have hrecheckDrops := hrecheck.mem
  have hreadies : ∀ x ∈ readies, x ∈ l₃.flatten := fun x hx => ((hready.low x).mp hx).1
  have hcaps : ∀ x ∈ caps, x ∈ l₄.flatten := fun x hx => ((hcap.high x).mp hx).1
  have hhigh : ∀ x ∈ l₁.flatten, s ≤ x.nonce := fun x hx => ((hforward.high x).mp hx).2
  refine ⟨fun x => ?_, fun x => ?_, fun x hx hx' => ?_, fun x hx => ?_, fun x hx => ?_⟩
  · grind
  · grind
  · exact ((h₄ x).mp ((h₅ x).mp hx').1).2 hx
  · have hx₃ : x ∈ l₃.flatten := hx.elim (fun h => ((h₄ x).mp ((h₅ x).mp h).1).1) (hreadies x)
    exact hhigh x ((h₂ x).mp ((h₃ x).mp hx₃).1).1
  · exact ((hready.high x).mp ((h₅ x).mp hx).1).2

/-- One account in the loop of `promoteExecutables`. -/
theorem promoteAccount_reworked (hp : Pooled none pool)
    (recheck : AnteHandler S M Transaction) (writes : Bool) (branch : Branch S M Transaction)
    (a : Address) :
    (∃ gone, Reworked none a gone [] pool (promoteAccount recheck writes (pool, branch) a).1) ∧
      ∃ readies, Promotion a readies pool
        (promoteAccount recheck writes (pool, branch) a).1 := by
  cases hlist : pool.queue[a]? with
  | none =>
    have hnil : pool.queueOf a = [] := by rw [queueOf, hlist]; rfl
    simp only [promoteAccount, hlist]
    exact ⟨⟨[], .refl hp⟩, [], by simp, by simp, by simp [hnil], .inl ⟨rfl, rfl⟩⟩
  | some l =>
    have hflat : pool.queueOf a = l.flatten := listOf_of_some hlist
    have hloose : l.strict = false := (hp.queue a hlist).1
    have hreads := fun txs => dropAll_reads pool a .queue txs
    -- the lists after each pass, and the pool they were dropped from
    simp only [promoteAccount, hlist]
    have hforward := l.forward_cut (pool.currentState.nonce a)
    have hstrict : (l.forward (pool.currentState.nonce a)).2.strict = l.strict := rfl
    generalize l.forward (pool.currentState.nonce a) = r at hforward hstrict ⊢
    obtain ⟨forwards, l₁⟩ := r
    simp only [(hreads forwards).1, (hreads forwards).2.1]
    have hcost := l₁.costFilter_filtered (pool.currentState.balance a) pool.gasLimit
    generalize l₁.costFilter (pool.currentState.balance a) pool.gasLimit = r at hcost ⊢
    obtain ⟨costDrops, back, l₂⟩ := r
    have hrecheck := l₂.filterSorted_filtered (filter recheck writes) branch
    generalize l₂.filterSorted (filter recheck writes) branch = r at hrecheck ⊢
    obtain ⟨branch', recheckDrops, back', l₃⟩ := r
    simp only [dropAll_dropAll, (hreads _).2.2.2]
    obtain ⟨m, hready, hnext⟩ := l₃.ready_cut (pool.pendingNonces.get a)
    have hsorted := l₃.ready_sorted (pool.pendingNonces.get a)
    have hstrict₄ : (l₃.ready (pool.pendingNonces.get a)).2.strict = l₃.strict := rfl
    generalize l₃.ready (pool.pendingNonces.get a) = r at hready hnext hsorted hstrict₄ ⊢
    obtain ⟨readies, l₄⟩ := r
    obtain ⟨b, hcap⟩ := l₄.cap_cut pool.config.accountQueue
    have hstrict₅ : (l₄.cap pool.config.accountQueue).2.strict = l₄.strict := rfl
    obtain ⟨⟨caps, l₅⟩, hcapped⟩ : ∃ r, l₄.cap pool.config.accountQueue = r := ⟨_, rfl⟩
    rw [hcapped] at hcap hstrict₅
    obtain ⟨store, hstore⟩ := dropAll_eq pool a .queue (forwards ++ costDrops ++ recheckDrops)
    obtain ⟨hkept, hgone, hready', hlow, habove⟩ :=
      promotion_passes hloose hstrict hforward hcost hrecheck hready hcap
    have hqueued : ∀ x ∈ readies, x ∈ pool.queueOf a := fun x hx =>
      hflat ▸ ((hkept x).mp (.inr hx)).1
    obtain ⟨pending, nonces, store', hpromote, ⟨hpending, hpmem⟩, hnonces, hlast⟩ :=
      promoteAll_eq { pool with
          all := (forwards ++ costDrops ++ recheckDrops).foldl
            (fun all tx => all.erase tx.hash) pool.all
          validPendingTxs := store }
        (hp.pending a) (fun x hx => (hp.owned (.inr (hqueued x hx))).2)
        ⟨hsorted.imp Nat.ne_of_lt, fun x hx y hy => hp.apart hy (hqueued x hx)⟩
    simp only [hstore, hpromote, hcapped]
    obtain ⟨store'', hcaps⟩ := dropAll_eq { pool with
        all := (forwards ++ costDrops ++ recheckDrops).foldl
          (fun all tx => all.erase tx.hash) pool.all
        pending, pendingNonces := nonces, validPendingTxs := store' } a .queue caps
    simp only [hcaps, settleQueue_eq, ← foldl_append]
    have hrest : ∀ x, x ∈ listOf (putList pool.queue a l₅) a ↔ x ∈ l₅.flatten := by
      intro x
      rw [listOf_putList]
    have hused : a ∈ pool.queue := mem_iff_get.mpr ⟨l, hlist⟩
    have hstrict' : l₅.strict = false :=
      hstrict₅.trans (hstrict₄.trans (hrecheck.flag.trans (hcost.flag.trans
        (hstrict.trans hloose))))
    refine ⟨⟨_, reworked_of_gone hp hpending (rewritten_putList _ hstrict') hnonces
      (fun _ hb => settle_of_ne hb) (settle_reserved hp (by simp) (.inr hused))
      (fun x hx => .inr (hflat ▸ hgone x hx)) (fun x => ?_) (fun x hx hx' => ?_)⟩,
      readies, hpmem, ?_, ?_, ?_⟩
    · have hkeptx := hkept x
      have hpendingx : x ∈ pool.pendingOf a → x ∉ l.flatten := fun hx hx' =>
        hp.disjoint hx (hflat ▸ hx')
      rw [hpmem, hrest, Has, hflat]
      tauto
    · rw [hrest] at hx'
      obtain hx | hx := (hpmem x).mp hx
      · exact hready' x hx hx'
      · exact hp.disjoint hx (hflat ▸ ((hkept x).mp (.inl hx')).1)
    · exact fun x hx => ⟨hqueued x hx, hlow x (.inr hx)⟩
    · intro x hx
      have hx := (hrest x).mp hx
      exact ⟨hflat ▸ ((hkept x).mp (.inl hx)).1, hlow x (.inl hx)⟩
    · obtain ⟨hnil, -⟩ | ⟨first, hfirst, hlt, hspans, -⟩ := hnext
      · have hnil : readies = [] := hnil
        subst hnil
        exact .inl ⟨rfl, hlast⟩
      · have hm : nonces.get a = m := hlast.trans (hspans.foldl_next hlt hsorted _)
        refine .inr ⟨first, hfirst, ?_⟩
        simp only [hm]
        exact ⟨hlt, hspans, fun x hx => habove x ((hrest x).mp hx)⟩

/-! ## Demotions -/

/-- What a demotion does to the lists of an account: the pending transactions from the nonce of
the account up to some nonce are left, and others are queued. -/
structure Demotion (a : Address) (pool pool' : LegacyPool S M) : Prop where
  pending : ∃ k, (∀ x, x ∈ pool'.pendingOf a ↔
      x ∈ pool.pendingOf a ∧ pool.currentState.nonce a ≤ x.nonce ∧ x.nonce < k) ∧
    ∀ x ∈ pool'.queueOf a, x ∈ pool.queueOf a ∨
      x ∈ pool.pendingOf a ∧ pool.currentState.nonce a ≤ x.nonce ∧ k ≤ x.nonce
  first : pool'.pendingOf a = [] ∨ ∃ x ∈ pool'.pendingOf a, x.nonce = pool.currentState.nonce a

/-- A list without the nonce of the account is given back as a whole. -/
theorem gapped_pass (l : TxList) (s : Nat) {r : List Transaction × TxList}
    (hr : (if 0 < l.len && !l.contains s then l.cap 0 else ([], l)) = r) :
    r.2.strict = l.strict ∧ r.1.Pairwise (fun x y => x.nonce ≠ y.nonce) ∧
      (r.2.flatten = [] ∧ (∀ x, x ∈ r.1 ↔ x ∈ l.flatten) ∨
        r = ([], l) ∧ (l.flatten = [] ∨ ∃ x ∈ l.flatten, x.nonce = s)) := by
  by_cases hgap : (0 < l.len && !l.contains s) = true
  · rw [if_pos hgap] at hr
    subst hr
    refine ⟨rfl, l.cap_distinct 0, .inl ⟨rfl, fun x => ?_⟩⟩
    exact mem_reverse
  · rw [if_neg hgap] at hr
    subst hr
    refine ⟨rfl, .nil, .inr ⟨rfl, ?_⟩⟩
    by_cases hnil : l.flatten = []
    · exact .inl hnil
    · have hlen : 0 < l.len := length_pos_iff.mpr hnil
      exact .inr (l.contains_iff.mp (by simpa [hlen] using hgap))

section

variable {olds drops invalids recheckInvalids : List Transaction}
  (hstrict : l.strict = true) (hstrict₁ : l₁.strict = l.strict)
  (hforward : Cut l.flatten olds l₁.flatten s) (hcost : Filtered l₁ (drops, invalids, l₂))
  (hrecheck : Filtered l₂ (recheckDrops, recheckInvalids, l₃))
include hstrict hstrict₁ hforward hcost hrecheck

/-- The passes of a demotion over a pending list, from one list to the next. -/
theorem demotion_passes :
    (∀ x, x ∈ l₃.flatten ∨ x ∈ invalids ++ recheckInvalids ↔
        x ∈ l.flatten ∧ x ∉ olds ++ drops ++ recheckDrops) ∧
      (∀ x ∈ olds ++ drops ++ recheckDrops, x ∈ l.flatten) ∧
      (∀ x ∈ invalids ++ recheckInvalids, x ∉ l₃.flatten) ∧
      (invalids ++ recheckInvalids).Pairwise (fun x y => x.nonce ≠ y.nonce) ∧
      ∃ k, (∀ x, x ∈ l₃.flatten ↔ x ∈ l.flatten ∧ s ≤ x.nonce ∧ x.nonce < k) ∧
        ∀ x ∈ invalids ++ recheckInvalids, s ≤ x.nonce ∧ k ≤ x.nonce := by
  have hstrict₁ : l₁.strict = true := hstrict₁.trans hstrict
  obtain ⟨m, hcut⟩ := hcost.cut hstrict₁
  obtain ⟨m', hcut'⟩ := hrecheck.cut (hcost.flag.trans hstrict₁)
  have hlow := hcut.low
  have hhigh := hcut.high
  have hlow' := hcut'.low
  have hhigh' := hcut'.high
  have hsplit := hcost.split
  have hsplit' := hrecheck.split
  have holds := hforward.low
  have hnew := hforward.high
  have hdrops := hcost.mem
  have hdrops' := hrecheck.mem
  simp only [mem_append] at hlow hhigh hlow' hhigh' hsplit hsplit' hdrops hdrops' ⊢
  refine ⟨fun x => ?_, fun x => ?_, fun x => ?_, ?_, min m m', fun x => ?_, fun x => ?_⟩
  · grind
  · grind
  · grind
  · refine pairwise_append.mpr ⟨hcost.distinct, hrecheck.distinct, fun x hx y hy => ?_⟩
    have hx := ((hhigh x).mp (.inr hx)).2
    have hy := ((hlow y).mp ((hhigh' y).mp (.inr hy)).1).2
    omega
  · grind
  · grind

/-- All passes of a demotion: what is left in the list, what is queued and what is gone. -/
theorem demotion_lists {l₄ : TxList} {gapped : List Transaction}
    (hr : (if 0 < l₃.len && !l₃.contains s then l₃.cap 0 else ([], l₃)) = (gapped, l₄)) :
    l₄.strict = true ∧
      (∀ x, x ∈ l₄.flatten ∨ x ∈ invalids ++ recheckInvalids ++ gapped ↔
        x ∈ l.flatten ∧ x ∉ olds ++ drops ++ recheckDrops) ∧
      (∀ x ∈ invalids ++ recheckInvalids ++ gapped, x ∉ l₄.flatten) ∧
      (invalids ++ recheckInvalids ++ gapped).Pairwise (fun x y => x.nonce ≠ y.nonce) ∧
      (∃ k, (∀ x, x ∈ l₄.flatten ↔ x ∈ l.flatten ∧ s ≤ x.nonce ∧ x.nonce < k) ∧
        ∀ x ∈ invalids ++ recheckInvalids ++ gapped, s ≤ x.nonce ∧ k ≤ x.nonce) ∧
      (l₄.flatten = [] ∨ ∃ x ∈ l₄.flatten, x.nonce = s) := by
  obtain ⟨hkept, -, hback, hdistinct, k, hleft, hhigh⟩ :=
    demotion_passes hstrict hstrict₁ hforward hcost hrecheck
  obtain ⟨hstrict₄, hgapped, hcases⟩ := gapped_pass l₃ s hr
  have hstrict₃ : l₃.strict = true :=
    hrecheck.flag.trans (hcost.flag.trans (hstrict₁.trans hstrict))
  refine ⟨hstrict₄.trans hstrict₃, ?_⟩
  obtain ⟨hnil, hall⟩ | ⟨heq, hfirst⟩ := hcases
  · rw [hnil]
    refine ⟨fun x => ?_, fun x _ => not_mem_nil, ?_, ⟨s, fun x => ?_, fun x hx => ?_⟩, .inl rfl⟩
    · rw [or_iff_right not_mem_nil, ← hkept, mem_append, hall]
      exact or_comm
    · refine pairwise_append.mpr ⟨hdistinct, hgapped, fun x hx y hy => ?_⟩
      have hx := (hhigh x hx).2
      have hy := ((hleft y).mp ((hall y).mp hy)).2.2
      omega
    · refine iff_of_false not_mem_nil fun h => ?_
      omega
    · obtain hx | hx := mem_append.mp hx
      · exact ⟨(hhigh x hx).1, (hhigh x hx).1⟩
      · have hx := ((hleft x).mp ((hall x).mp hx)).2.1
        exact ⟨hx, hx⟩
  · obtain ⟨rfl, rfl⟩ := Prod.mk.inj heq
    rw [append_nil]
    exact ⟨hkept, hback, hdistinct, ⟨k, hleft, hhigh⟩, hfirst⟩

end

/-- One account in the loop of `demoteUnexecutables`, if it has a pending list. -/
theorem demotePending_reworked (hp : Pooled none pool) (recheck : AnteHandler S M Transaction)
    (hlist : pool.pending[a]? = some l) :
    (∃ gone, Reworked none a gone [] pool (pool.demoteAccount recheck a).1) ∧
      Demotion a pool (pool.demoteAccount recheck a).1 := by
  have hused : a ∈ pool.pending := mem_iff_get.mpr ⟨l, hlist⟩
  have hflat : pool.pendingOf a = l.flatten := listOf_of_some hlist
  have hstrict : l.strict = true := (hp.pending a hlist).1
  have hreads := fun txs => dropAll_reads pool a .pending txs
  simp only [demoteAccount, hlist]
  have hforward := l.forward_cut (pool.currentState.nonce a)
  have hstrict₁ : (l.forward (pool.currentState.nonce a)).2.strict = l.strict := rfl
  generalize l.forward (pool.currentState.nonce a) = r at hforward hstrict₁ ⊢
  obtain ⟨olds, l₁⟩ := r
  simp only [(hreads olds).1, (hreads olds).2.1]
  have hcost := l₁.costFilter_filtered (pool.currentState.balance a) pool.gasLimit
  generalize l₁.costFilter (pool.currentState.balance a) pool.gasLimit = r at hcost ⊢
  obtain ⟨drops, invalids, l₂⟩ := r
  simp only [dropAll_dropAll, (hreads _).2.2.1]
  have hrecheck := l₂.filterSorted_filtered (filter recheck true) (.getContext pool.rechecker)
  generalize l₂.filterSorted (filter recheck true) (.getContext pool.rechecker) = r
    at hrecheck ⊢
  obtain ⟨branch, recheckDrops, recheckInvalids, l₃⟩ := r
  obtain ⟨⟨gapped, l₄⟩, hr⟩ : ∃ r, (if 0 < l₃.len && !l₃.contains (pool.currentState.nonce a)
    then l₃.cap 0 else ([], l₃)) = r := ⟨_, rfl⟩
  obtain ⟨hstrict₄, hkept, hback, hdistinct, ⟨k, hleft, hhigh⟩, hfirst⟩ :=
    demotion_lists hstrict hstrict₁ hforward hcost hrecheck hr
  have hgone := (demotion_passes hstrict hstrict₁ hforward hcost hrecheck).2.1
  -- the dropped transactions, and those that are queued again
  obtain ⟨store₁, hstore₁⟩ := dropAll_eq pool a .pending (olds ++ drops)
  obtain ⟨store₂, hstore₂⟩ := dropAll_eq { pool with
    all := (olds ++ drops).foldl (fun all tx => all.erase tx.hash) pool.all
    rechecker := branch.rechecker, validPendingTxs := store₁ } a .pending recheckDrops
  have hpending : ∀ x ∈ invalids ++ recheckInvalids ++ gapped, x ∈ pool.pendingOf a :=
    fun x hx => hflat ▸ ((hkept x).mp (.inr hx)).1
  obtain ⟨queue, henqueue, hqueue, hqmem⟩ := enqueueAll_eq { pool with
      all := (olds ++ drops ++ recheckDrops).foldl (fun all tx => all.erase tx.hash) pool.all
      rechecker := branch.rechecker, validPendingTxs := store₂ }
    (hp.queue a) (fun x hx => hp.owned (.inl (hpending x hx)))
    ⟨hdistinct, fun x hx y hy hnonce => hp.apart (hpending x hx) hy hnonce.symm⟩
  have happend : ∀ (p : LegacyPool S M) xs ys,
      (p.enqueueAll xs).enqueueAll ys = p.enqueueAll (xs ++ ys) :=
    fun p xs ys => foldl_append.symm
  simp only [hr, hstore₁, hstore₂, happend, ← foldl_append, henqueue]
  obtain ⟨store, hstore⟩ := settlePending_eq { pool with
    all := (olds ++ drops ++ recheckDrops).foldl (fun all tx => all.erase tx.hash) pool.all
    queue, rechecker := branch.rechecker, validPendingTxs := store₂ } a l₄
  rw [hstore]
  have hrest : ∀ x, x ∈ listOf (putList pool.pending a l₄) a ↔ x ∈ l₄.flatten := by
    intro x
    rw [listOf_putList]
  refine ⟨⟨_, reworked_of_gone hp (rewritten_putList _ hstrict₄) hqueue (.refl _)
    (fun _ hb => settle_of_ne hb) (settle_reserved hp nofun (.inl hused))
    (fun x hx => .inl (hflat ▸ hgone x hx)) (fun x => ?_) (fun x hx hx' => ?_)⟩, ⟨k, ?_, ?_⟩, ?_⟩
  · have hkeptx := hkept x
    have hqueuex : x ∈ pool.queueOf a → x ∉ l.flatten := fun hx hx' =>
      hp.disjoint (hflat ▸ hx') hx
    rw [hrest, hqmem, Has, hflat]
    tauto
  · rw [hrest] at hx
    obtain hx' | hx' := (hqmem x).mp hx'
    · exact hback x hx' hx
    · exact hp.disjoint (hflat ▸ ((hkept x).mp (.inl hx)).1) hx'
  · intro x
    rw [hflat]
    exact (hrest x).trans (hleft x)
  · intro x hx
    obtain hx | hx := (hqmem x).mp hx
    · exact .inr ⟨hpending x hx, hhigh x hx⟩
    · exact .inl hx
  · refine hfirst.imp (fun hnil => (listOf_putList ..).trans hnil) ?_
    rintro ⟨x, hx, hnonce⟩
    exact ⟨x, (hrest x).mpr hx, hnonce⟩

/-- One account in the loop of `demoteUnexecutables`. -/
theorem demoteAccount_reworked (hp : Pooled none pool) (recheck : AnteHandler S M Transaction)
    (a : Address) :
    (∃ gone, Reworked none a gone [] pool (pool.demoteAccount recheck a).1) ∧
      Demotion a pool (pool.demoteAccount recheck a).1 := by
  cases hlist : pool.pending[a]? with
  | none =>
    have hnil : pool.pendingOf a = [] := by rw [pendingOf, hlist]; rfl
    simp only [demoteAccount, hlist]
    exact ⟨⟨[], .refl hp⟩, ⟨0, by simp [hnil], fun x hx => .inl hx⟩, .inl hnil⟩
  | some l => exact demotePending_reworked hp recheck hlist

/-! ## Caps -/

/-- What a cap does to the lists of an account: the last pending transaction is gone. -/
structure Capped (a : Address) (last : Transaction) (pool pool' : LegacyPool S M) : Prop where
  mem : last ∈ pool.pendingOf a
  highest : ∀ x ∈ pool.pendingOf a, x.nonce ≤ last.nonce
  pending : ∀ x, x ∈ pool'.pendingOf a ↔ x ∈ pool.pendingOf a ∧ x.nonce < last.nonce
  queue : pool'.queueOf a = pool.queueOf a
  next : pool'.pendingNonces.get a = min (pool.pendingNonces.get a) last.nonce
  len : pool'.pendingLen a + 1 = pool.pendingLen a

/-- An account with more than one pending transaction loses the last of them. -/
theorem capLast_reworked (hp : Pooled held pool) (hlen : 1 < pool.pendingLen a) :
    ∃ last, Reworked held a [last] [] pool (pool.capLast a) ∧
      Capped a last pool (pool.capLast a) := by
  obtain ⟨init, last, hflat⟩ := (eq_nil_or_concat' (pool.pendingOf a)).resolve_left (by
    intro hnil
    rw [pendingLen, hnil] at hlen
    cases hlen)
  have hmem : last ∈ pool.pendingOf a := by simp [hflat]
  obtain ⟨l, hlist, -⟩ := exists_of_mem_listOf hmem
  have hl : l.flatten = init ++ [last] := (listOf_of_some hlist).symm.trans hflat
  obtain ⟨hcaps, hinit⟩ := l.cap_last hl
  have hstrict : (l.cap (l.len - 1)).2.strict = true := (hp.pending a hlist).1
  simp only [capLast, hlist]
  generalize l.cap (l.len - 1) = r at hcaps hinit hstrict ⊢
  obtain ⟨caps, l'⟩ := r
  obtain rfl : caps = [last] := hcaps
  obtain ⟨store, hstore⟩ := dropTx_eq { pool with pending := pool.pending.insert a l' } a .pending
    last
  simp only [foldl_cons, foldl_nil, hstore]
  have hne : l'.flatten ≠ [] := by
    rw [hinit]
    rintro rfl
    rw [pendingLen, hflat] at hlen
    simp at hlen
  have hsorted : (init ++ [last]).Pairwise fun x y => x.nonce < y.nonce := hl ▸ l.txs.sorted
  have hbelow : ∀ x ∈ init, x.nonce < last.nonce := fun x hx =>
    (pairwise_append.mp hsorted).2.2 x hx last (mem_singleton.mpr rfl)
  have hleft : ∀ x, x ∈ listOf (pool.pending.insert a l') a ↔
      x ∈ pool.pendingOf a ∧ x.nonce < last.nonce := by
    intro x
    rw [listOf_insert, hinit, hflat, mem_append, mem_singleton]
    constructor
    · exact fun hx => ⟨.inl hx, hbelow x hx⟩
    · rintro ⟨hx | rfl, hlt⟩
      · exact hx
      · exact absurd hlt (lt_irrefl _)
  have hhighest : ∀ x ∈ pool.pendingOf a, x.nonce ≤ last.nonce := by
    intro x hx
    rw [hflat, mem_append, mem_singleton] at hx
    obtain hx | rfl := hx
    · exact (hbelow x hx).le
    · exact le_rfl
  have hin : a ∈ pool.pending.insert a l' := mem_iff_get.mpr ⟨l', by
    rw [get_insert, if_pos rfl]⟩
  refine ⟨last, ?_, hmem, hhighest, hleft, rfl, ?_, ?_⟩
  · refine reworked_of_gone hp (rewritten_insert _ hstrict hne) (.refl (hp.queue a))
      ⟨Noncer.fallback_setIfLower .., fun b hb => ?_⟩ (fun _ _ => rfl) ?_ (fun x hx => ?_)
      (fun x => ?_) (fun x hx => ?_)
    · exact (Noncer.get_setIfLower ..).trans (if_neg hb.symm)
    · refine iff_of_true ((hp.reserved a).mpr (.inl ?_)) (.inl hin)
      exact mem_iff_get.mpr ⟨l, hlist⟩
    · rw [mem_singleton.mp hx]
      exact .inl hmem
    · have heq : x ∈ pool.pendingOf a → (x.nonce < last.nonce ↔ x ≠ last) := fun hx =>
        ⟨fun hlt h => absurd hlt (h ▸ lt_irrefl _), fun hne => lt_of_le_of_ne (hhighest x hx)
          fun h => hne (hp.eq_of_nonce (.inl hx) (.inl hmem) h)⟩
      have hqueue : x ∈ pool.queueOf a → x ≠ last := by
        rintro hx rfl
        exact hp.disjoint hmem hx
      rw [hleft, mem_singleton, Has]
      tauto
    · exact hp.disjoint ((hleft x).mp hx).1
  · exact (Noncer.get_setIfLower ..).trans (if_pos rfl)
  · have hlen' : (listOf (pool.pending.insert a l') a).length + 1 = (pool.pendingOf a).length := by
      rw [listOf_insert, hinit, hflat, length_append]
      rfl
    exact hlen'

end LegacyPool

end InfiniteEvm.Mempool
