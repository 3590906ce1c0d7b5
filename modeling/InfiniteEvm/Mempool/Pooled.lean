import InfiniteEvm.Mempool.LegacyPool

/-!
# What the pool holds

The lookup has exactly the transactions that are pending or queued, no nonce of an account is in
both lists, and the reserved accounts are those with transactions. Every operation reworks one
account at a time and keeps this, also when a reset is cancelled.
-/

namespace InfiniteEvm.Mempool

open Library FMap List Noncer TxList

namespace LegacyPool

variable {S M : Type} {pool pool' : LegacyPool S M} {a : Address} {m'' : FMap Address TxList}

/-! ## Lists of accounts -/

/-- The transactions of an account in a map of lists. -/
def listOf (m : FMap Address TxList) (a : Address) : List Transaction :=
  ((m[a]?).map TxList.flatten).getD []

/-- The list of an account is of the given kind, and deleted if it is empty. -/
def Entry (strict : Bool) (m : FMap Address TxList) (a : Address) : Prop :=
  ∀ ⦃l : TxList⦄, m[a]? = some l → l.strict = strict ∧ l.flatten ≠ []

variable {m : FMap Address TxList} {l : TxList} {strict : Bool} {b : Address} {tx : Transaction}
variable {id : Int} {accounts : Tracker} {txs : List Transaction} {m' : FMap Address TxList}

theorem listOf_of_some (h : m[a]? = some l) : listOf m a = l.flatten := by
  rw [listOf, h]
  rfl

theorem flatten_getD (m : FMap Address TxList) (a : Address) (strict : Bool) :
    ((m[a]?).getD (.new strict)).flatten = listOf m a := by
  cases h : m[a]? with
  | none => simp [listOf, h, TxList.new, TxList.flatten, SortedMap.empty]
  | some l => simp [listOf, h]

theorem strict_getD (h : Entry strict m a) : ((m[a]?).getD (.new strict)).strict = strict := by
  cases hl : m[a]? with
  | none => rfl
  | some l => exact (h hl).1

theorem Entry.mem_iff (h : Entry strict m a) : a ∈ m ↔ ∃ tx, tx ∈ listOf m a := by
  rw [FMap.mem_iff_get]
  constructor
  · rintro ⟨l, hl⟩
    rw [listOf_of_some hl]
    exact List.exists_mem_of_ne_nil _ (h hl).2
  · rintro ⟨tx, htx⟩
    cases hl : m[a]? with
    | none => simp [listOf, hl] at htx
    | some l => exact ⟨l, rfl⟩

theorem entry_insert (hstrict : l.strict = strict) (hne : l.flatten ≠ []) :
    Entry strict (m.insert a l) a := by
  intro l' h
  rw [get_insert, if_pos rfl] at h
  cases h
  exact ⟨hstrict, hne⟩

theorem listOf_insert (m : FMap Address TxList) (a : Address) (l : TxList) :
    listOf (m.insert a l) a = l.flatten :=
  listOf_of_some (by rw [get_insert, if_pos rfl])

/-- A list is stored, or deleted if it is empty. -/
def putList (m : FMap Address TxList) (a : Address) (l : TxList) : FMap Address TxList :=
  if l.len = 0 then m.erase a else m.insert a l

theorem putList_of_ne (m : FMap Address TxList) (l : TxList) (h : b ≠ a) :
    (putList m a l)[b]? = m[b]? := by
  simp only [putList]
  split_ifs
  · rw [get_erase, if_neg h.symm]
  · rw [get_insert, if_neg h.symm]

theorem listOf_putList (m : FMap Address TxList) (a : Address) (l : TxList) :
    listOf (putList m a l) a = l.flatten := by
  simp only [putList]
  split_ifs with h
  · rw [length_eq_zero_iff.mp h, listOf, get_erase, if_pos rfl]
    rfl
  · exact listOf_insert m a l

theorem entry_putList (m : FMap Address TxList) (hstrict : l.strict = strict) :
    Entry strict (putList m a l) a := by
  intro l' h
  simp only [putList] at h
  split_ifs at h with hlen
  · rw [get_erase, if_pos rfl] at h
    cases h
  · exact entry_insert hstrict (fun hnil => hlen (by rw [len, hnil]; rfl)) h

/-- The lists of other accounts are the same, and the one of this account is well formed. -/
structure Rewritten (strict : Bool) (a : Address) (m m' : FMap Address TxList) : Prop where
  others : ∀ b : Address, b ≠ a → m'[b]? = m[b]?
  entry : Entry strict m' a

theorem Rewritten.refl (h : Entry strict m a) : Rewritten strict a m m :=
  ⟨fun _ _ => rfl, h⟩

theorem Rewritten.trans (h : Rewritten strict a m m') (h' : Rewritten strict a m' m'') :
    Rewritten strict a m m'' :=
  ⟨fun b hb => (h'.others b hb).trans (h.others b hb), h'.entry⟩

theorem Rewritten.entry_all (h : Rewritten strict a m m') (hb : Entry strict m b) :
    Entry strict m' b := by
  intro l hl
  by_cases heq : b = a
  · subst heq
    exact h.entry hl
  · exact hb ((h.others b heq).symm.trans hl)

theorem rewritten_insert (m : FMap Address TxList) (hstrict : l.strict = strict)
    (hne : l.flatten ≠ []) : Rewritten strict a m (m.insert a l) :=
  ⟨fun _ hb => (get_insert ..).trans (if_neg hb.symm), entry_insert hstrict hne⟩

theorem rewritten_putList (m : FMap Address TxList) (hstrict : l.strict = strict) :
    Rewritten strict a m (putList m a l) :=
  ⟨fun _ hb => putList_of_ne m l hb, entry_putList m hstrict⟩

/-- The tracker answers as before for the other accounts. -/
structure Renumbered (a : Address) (n n' : Noncer) : Prop where
  fallback : n'.fallback = n.fallback
  others : ∀ b ≠ a, n'.get b = n.get b

theorem Renumbered.refl (n : Noncer) : Renumbered a n n := ⟨rfl, fun _ _ => rfl⟩

/-! ## The invariant -/

/-- The account has the transaction. -/
def Has (pool : LegacyPool S M) (a : Address) (tx : Transaction) : Prop :=
  tx ∈ pool.pendingOf a ∨ tx ∈ pool.queueOf a

/-- The lists, the lookup and the reservations belong together. One account may be held for a
transaction that is being added. -/
structure Pooled (held : Option Address) (pool : LegacyPool S M) : Prop where
  pending : ∀ a, Entry true pool.pending a
  queue : ∀ a, Entry false pool.queue a
  owned : ∀ {a tx}, pool.Has a tx → tx.sender = a ∧ tx.cost < 2 ^ 256
  apart : ∀ {a tx tx'}, tx ∈ pool.pendingOf a → tx' ∈ pool.queueOf a → tx.nonce ≠ tx'.nonce
  all : ∀ {h : Hash} {tx : Transaction}, pool.all[h]? = some tx ↔
    tx.hash = h ∧ pool.Has tx.sender tx
  reserved : ∀ a : Address, pool.accounts[a]? = some pool.id ↔
    a ∈ pool.pending ∨ a ∈ pool.queue ∨ held = some a
  fallback : pool.pendingNonces.fallback = pool.currentState.nonce

/-- The pool after an operation on the transactions of one account: some are gone, and some are
new. -/
structure Reworked (held : Option Address) (a : Address) (gone fresh : List Transaction)
    (pool pool' : LegacyPool S M) : Prop where
  config : pool'.config = pool.config
  state : pool'.currentState = pool.currentState
  id : pool'.id = pool.id
  nonces : Renumbered a pool.pendingNonces pool'.pendingNonces
  pending : Rewritten true a pool.pending pool'.pending
  queue : Rewritten false a pool.queue pool'.queue
  accounts : ∀ b : Address, b ≠ a → pool'.accounts[b]? = pool.accounts[b]?
  has : ∀ {tx}, pool'.Has a tx ↔ tx ∈ fresh ∨ pool.Has a tx ∧ tx ∉ gone
  apart : ∀ {tx tx'}, tx ∈ pool'.pendingOf a → tx' ∈ pool'.queueOf a → tx.nonce ≠ tx'.nonce
  of_gone : ∀ {tx}, tx ∈ gone → pool.Has a tx
  of_fresh : ∀ {tx}, tx ∈ fresh → tx.sender = a ∧ tx.cost < 2 ^ 256 ∧ pool.all[tx.hash]? = none
  all : ∀ {h : Hash} {tx : Transaction}, pool'.all[h]? = some tx ↔
    tx ∈ fresh ∧ tx.hash = h ∨ pool.all[h]? = some tx ∧ ∀ x ∈ gone, x.hash ≠ h
  reserved : pool'.accounts[a]? = some pool'.id ↔
    a ∈ pool'.pending ∨ a ∈ pool'.queue ∨ held = some a

theorem has_congr (hpending : pool'.pending[b]? = pool.pending[b]?)
    (hqueue : pool'.queue[b]? = pool.queue[b]?) : pool'.Has b tx ↔ pool.Has b tx := by
  simp only [Has, pendingOf, queueOf, hpending, hqueue]

/-- Transactions are told apart by their hashes. -/
theorem Pooled.eq_of_hash {held : Option Address} (hp : Pooled held pool) {tx' : Transaction}
    {b' : Address} (h : pool.Has b tx) (h' : pool.Has b' tx') (hhash : tx.hash = tx'.hash) :
    tx = tx' := by
  obtain rfl := (hp.owned h).1
  obtain rfl := (hp.owned h').1
  have hone : pool.all[tx.hash]? = some tx := hp.all.mpr ⟨rfl, h⟩
  rw [hhash, hp.all.mpr ⟨rfl, h'⟩] at hone
  exact (Option.some.inj hone).symm

theorem Reworked.pooled {held : Option Address} {gone fresh : List Transaction}
    (h : Reworked held a gone fresh pool pool') (hp : Pooled held pool) : Pooled held pool' := by
  have hothers : ∀ {b tx}, b ≠ a → (pool'.Has b tx ↔ pool.Has b tx) := fun hb =>
    has_congr (h.pending.others _ hb) (h.queue.others _ hb)
  constructor
  · exact fun b => h.pending.entry_all (hp.pending b)
  · exact fun b => h.queue.entry_all (hp.queue b)
  · intro b tx htx
    by_cases hb : b = a
    · subst hb
      obtain hfresh | ⟨hold, -⟩ := h.has.mp htx
      · exact ⟨(h.of_fresh hfresh).1, (h.of_fresh hfresh).2.1⟩
      · exact hp.owned hold
    · exact hp.owned ((hothers hb).mp htx)
  · intro b tx tx' htx htx'
    by_cases hb : b = a
    · subst hb
      exact h.apart htx htx'
    · rw [pendingOf, h.pending.others b hb] at htx
      rw [queueOf, h.queue.others b hb] at htx'
      exact hp.apart htx htx'
  · intro hash tx
    rw [h.all, hp.all]
    by_cases hb : tx.sender = a
    · -- a transaction of the account: it is new, or was there and is not gone
      rw [hb, h.has]
      constructor
      · rintro (⟨hfresh, hhash⟩ | ⟨⟨hhash, hold⟩, hgone⟩)
        · exact ⟨hhash, .inl hfresh⟩
        · exact ⟨hhash, .inr ⟨hold, fun hmem => hgone tx hmem hhash⟩⟩
      · rintro ⟨hhash, hfresh | ⟨hold, hgone⟩⟩
        · exact .inl ⟨hfresh, hhash⟩
        · refine .inr ⟨⟨hhash, hold⟩, fun x hx hxhash => hgone ?_⟩
          rwa [hp.eq_of_hash hold (h.of_gone hx) (hhash.trans hxhash.symm)]
    · rw [hothers hb]
      constructor
      · rintro (⟨hfresh, -⟩ | ⟨hold, -⟩)
        · exact absurd (h.of_fresh hfresh).1 hb
        · exact hold
      · rintro ⟨hhash, hold⟩
        refine .inr ⟨⟨hhash, hold⟩, fun x hx hxhash => hb ?_⟩
        rw [hp.eq_of_hash hold (h.of_gone hx) (hhash.trans hxhash.symm)]
        exact (hp.owned (h.of_gone hx)).1
  · intro b
    by_cases hb : b = a
    · subst hb
      exact h.reserved
    · rw [h.accounts b hb, h.id, hp.reserved, FMap.mem_iff_get, FMap.mem_iff_get,
        FMap.mem_iff_get, FMap.mem_iff_get, h.pending.others b hb, h.queue.others b hb]
  · rw [h.nonces.fallback, h.state]
    exact hp.fallback

/-! ## Simple operations -/

theorem get_foldl_erase (txs : List Transaction) (all : FMap Hash Transaction) (h : Hash)
    (tx : Transaction) :
    (txs.foldl (fun all tx => all.erase tx.hash) all)[h]? = some tx ↔
      all[h]? = some tx ∧ ∀ x ∈ txs, x.hash ≠ h := by
  induction txs generalizing all with
  | nil => simp
  | cons x rest ih =>
    rw [foldl_cons, ih, get_erase]
    by_cases hx : x.hash = h
    · simp [hx]
    · simp [hx]

section

variable (pool : LegacyPool S M) (a : Address) (p : PoolType)

theorem dropTx_eq (tx : Transaction) :
    ∃ store, pool.dropTx a p tx =
      { pool with all := pool.all.erase tx.hash, validPendingTxs := store } := by
  cases p with
  | pending | queue => exact ⟨_, rfl⟩

theorem dropAll_eq (txs : List Transaction) :
    ∃ store, pool.dropAll a p txs =
      { pool with
        all := txs.foldl (fun all tx => all.erase tx.hash) pool.all
        validPendingTxs := store } := by
  induction txs generalizing pool with
  | nil => exact ⟨_, rfl⟩
  | cons tx rest ih =>
    obtain ⟨store, hstore⟩ := dropTx_eq pool a p tx
    obtain ⟨store', hrest⟩ := ih (pool.dropTx a p tx)
    refine ⟨store', ?_⟩
    rw [dropAll, foldl_cons, ← dropAll, hrest, hstore]
    rfl

theorem dropAll_dropAll (txs txs' : List Transaction) :
    (pool.dropAll a p txs).dropAll a p txs' = pool.dropAll a p (txs ++ txs') :=
  foldl_append.symm

/-- What is dropped does not change what a pass reads. -/
theorem dropAll_reads (txs : List Transaction) :
    (pool.dropAll a p txs).currentState = pool.currentState ∧
      (pool.dropAll a p txs).gasLimit = pool.gasLimit ∧
      (pool.dropAll a p txs).rechecker = pool.rechecker ∧
      (pool.dropAll a p txs).pendingNonces = pool.pendingNonces := by
  obtain ⟨store, hstore⟩ := dropAll_eq pool a p txs
  rw [hstore]
  exact ⟨rfl, rfl, rfl, rfl⟩

end

/-- The list of an account has the added transactions as well. -/
structure Added (strict : Bool) (a : Address) (txs : List Transaction)
    (m m' : FMap Address TxList) : Prop where
  rewritten : Rewritten strict a m m'
  mem : ∀ x, x ∈ listOf m' a ↔ x ∈ txs ∨ x ∈ listOf m a

/-- The transactions have nonces of their own that the list of the account does not have. -/
structure Fresh (m : FMap Address TxList) (a : Address) (txs : List Transaction) : Prop where
  distinct : txs.Pairwise fun x y => x.nonce ≠ y.nonce
  new : ∀ x ∈ txs, ∀ y ∈ listOf m a, y.nonce ≠ x.nonce

/-- A transaction with a new nonce is added to the list of the account. -/
theorem add_new (priceBump : Nat) (hcost : tx.cost < 2 ^ 256) (hentry : Entry strict m a)
    (hnew : ∀ x ∈ listOf m a, x.nonce ≠ tx.nonce) :
    ∃ l, ((m[a]?).getD (.new strict)).add tx priceBump = some (none, l) ∧
      Added strict a [tx] m (m.insert a l) := by
  obtain ⟨l, hl⟩ := add_of_get_eq_none _ priceBump
    ((SortedMap.get_eq_none _).mpr fun x hx => hnew x (flatten_getD m a strict ▸ hx)) hcost
  obtain ⟨-, hstrict, hmem⟩ := mem_flatten_of_add _ hl
  refine ⟨l, hl, rewritten_insert m (hstrict.trans (strict_getD hentry))
    (ne_nil_of_mem ((hmem tx).mpr (.inl rfl))), fun x => ?_⟩
  rw [listOf_insert, hmem, flatten_getD, mem_singleton]
  exact or_congr_right (and_iff_left_of_imp (hnew x))

theorem Added.cons (h : Added strict a [tx] m m') (h' : Added strict a txs m' m'') :
    Added strict a (tx :: txs) m m'' := by
  refine ⟨h.rewritten.trans h'.rewritten, fun x => ?_⟩
  rw [h'.mem, h.mem, mem_singleton, mem_cons]
  tauto

theorem Added.fresh (h : Added strict a [tx] m m') (hfresh : Fresh m a (tx :: txs)) :
    Fresh m' a txs := by
  obtain ⟨htx, hdistinct⟩ := pairwise_cons.mp hfresh.distinct
  refine ⟨hdistinct, fun x hx y hy => ?_⟩
  obtain hy | hy := (h.mem y).mp hy
  · rw [mem_singleton.mp hy]
    exact htx x hx
  · exact hfresh.new x (mem_cons_of_mem tx hx) y hy

/-- A transaction with a new nonce is queued. -/
theorem enqueueTx_new (addAll : Bool) (hcost : tx.cost < 2 ^ 256)
    (hentry : Entry false pool.queue tx.sender)
    (hnew : ∀ x ∈ listOf pool.queue tx.sender, x.nonce ≠ tx.nonce) :
    ∃ queue, pool.enqueueTx tx addAll =
        ({ pool with
           queue
           all := if addAll then pool.all.insert tx.hash tx else pool.all }, .ok false) ∧
      Added false tx.sender [tx] pool.queue queue := by
  obtain ⟨l, hl, hadded⟩ := add_new pool.config.priceBump hcost hentry hnew
  refine ⟨_, ?_, hadded⟩
  simp only [enqueueTx, hl]
  cases addAll with
  | false => rfl
  | true => rfl

variable (pool) in
/-- Transactions with new nonces are given back to the queue. -/
theorem enqueueAll_eq (hentry : Entry false pool.queue a)
    (howned : ∀ x ∈ txs, x.sender = a ∧ x.cost < 2 ^ 256) (hfresh : Fresh pool.queue a txs) :
    ∃ queue, pool.enqueueAll txs = { pool with queue } ∧ Added false a txs pool.queue queue := by
  induction txs generalizing pool with
  | nil => exact ⟨pool.queue, rfl, .refl hentry, fun x => by simp⟩
  | cons tx rest ih =>
    obtain ⟨⟨rfl, hcost⟩, howned⟩ := forall_mem_cons.mp howned
    obtain ⟨queue, hqueue, hadded⟩ := enqueueTx_new false hcost hentry (hfresh.new tx mem_cons_self)
    obtain ⟨queue', hrest, hadded'⟩ :=
      ih { pool with queue } hadded.rewritten.entry howned (hadded.fresh hfresh)
    refine ⟨queue', ?_, hadded.cons hadded'⟩
    rw [enqueueAll, foldl_cons, hqueue]
    exact hrest

theorem Noncer.get_set (n : Noncer) (a b : Address) (nonce : Nat) :
    (n.set a nonce).get b = if a = b then nonce else n.get b := by
  simp only [Noncer.get, Noncer.set, get_insert]
  split_ifs <;> rfl

theorem Noncer.get_setIfLower (n : Noncer) (a b : Address) (nonce : Nat) :
    (n.setIfLower a nonce).get b = if a = b then min (n.get a) nonce else n.get b := by
  simp only [setIfLower]
  split_ifs with hle hab hab
  · subst hab
    exact (min_eq_left hle).symm
  · rfl
  · rw [get_set, if_pos hab]
    exact (min_eq_right (not_le.mp hle).le).symm
  · rw [get_set, if_neg hab]

theorem Noncer.fallback_setIfLower (n : Noncer) (a : Address) (nonce : Nat) :
    (n.setIfLower a nonce).fallback = n.fallback := by
  simp only [setIfLower]
  split_ifs <;> rfl

/-- A transaction with a new nonce becomes pending. -/
theorem promoteTx_new (hcost : tx.cost < 2 ^ 256) (hentry : Entry true pool.pending a)
    (hnew : ∀ x ∈ listOf pool.pending a, x.nonce ≠ tx.nonce) :
    ∃ (pending : FMap Address TxList) (store : TxStore), pool.promoteTx a tx =
        { pool with
          pending
          pendingNonces := pool.pendingNonces.set a (tx.nonce + 1)
          validPendingTxs := store } ∧
      Added true a [tx] pool.pending pending := by
  obtain ⟨l, hl, hadded⟩ := add_new pool.config.priceBump hcost hentry hnew
  refine ⟨_, pool.validPendingTxs.addTx a tx, ?_, hadded⟩
  simp only [promoteTx, hl]
  rfl

variable (pool) in
/-- Transactions with new nonces become pending, and the last of them sets the next nonce. -/
theorem promoteAll_eq (hentry : Entry true pool.pending a) (hcost : ∀ x ∈ txs, x.cost < 2 ^ 256)
    (hfresh : Fresh pool.pending a txs) :
    ∃ (pending : FMap Address TxList) (nonces : Noncer) (store : TxStore),
      txs.foldl (fun pool tx => pool.promoteTx a tx) pool =
          { pool with pending, pendingNonces := nonces, validPendingTxs := store } ∧
        Added true a txs pool.pending pending ∧ Renumbered a pool.pendingNonces nonces ∧
        nonces.get a = txs.foldl (fun _ tx => tx.nonce + 1) (pool.pendingNonces.get a) := by
  induction txs generalizing pool with
  | nil =>
    exact ⟨pool.pending, pool.pendingNonces, pool.validPendingTxs, rfl,
      ⟨.refl hentry, fun x => by simp⟩, .refl _, rfl⟩
  | cons tx rest ih =>
    obtain ⟨hcosttx, hcost⟩ := forall_mem_cons.mp hcost
    obtain ⟨pending, store, hpending, hadded⟩ :=
      promoteTx_new hcosttx hentry (hfresh.new tx mem_cons_self)
    obtain ⟨pending', nonces, store', hrest, hadded', hnonces, hlast⟩ :=
      ih { pool with
          pending
          pendingNonces := pool.pendingNonces.set a (tx.nonce + 1)
          validPendingTxs := store }
        hadded.rewritten.entry hcost (hadded.fresh hfresh)
    refine ⟨pending', nonces, store', ?_, hadded.cons hadded',
      ⟨hnonces.fallback, fun b hb => ?_⟩, ?_⟩
    · rw [foldl_cons, hpending, hrest]
    · rw [hnonces.others b hb, Noncer.get_set, if_neg hb.symm]
    · rw [hlast, Noncer.get_set, if_pos rfl, foldl_cons]

/-! ## Reservations -/

theorem release_of_ne (h : b ≠ a) : (Tracker.release id accounts [a]).2[b]? = accounts[b]? := by
  rw [Tracker.release_getElem, if_neg]
  intro hmem
  exact h (mem_singleton.mp (Tracker.mem_of_released hmem))

theorem release_self : (Tracker.release id accounts [a]).2[a]? ≠ some id := by
  rw [Tracker.release_getElem]
  split_ifs with h
  · exact nofun
  · intro howned
    simp [Tracker.released, howned] at h

/-- The reservations after an account that was reserved was released, unless it is in use. -/
def settle (id : Int) (accounts : Tracker) (a : Address) (used : Prop) [Decidable used] : Tracker :=
  if used then accounts else (Tracker.release id accounts [a]).2

theorem settle_of_ne {used : Prop} [Decidable used] (h : b ≠ a) :
    (settle id accounts a used)[b]? = accounts[b]? := by
  simp only [settle]
  split_ifs
  · rfl
  · exact release_of_ne h

theorem settle_self {used : Prop} [Decidable used] (h : accounts[a]? = some id) :
    (settle id accounts a used)[a]? = some id ↔ used := by
  simp only [settle]
  split_ifs with hused
  · exact iff_of_true h hused
  · exact iff_of_false release_self hused

theorem mem_putList (m : FMap Address TxList) (a : Address) (l : TxList) :
    a ∈ putList m a l ↔ l.len ≠ 0 := by
  rw [FMap.mem_iff_get, putList]
  split_ifs with h
  · simp [h]
  · simp [h]

theorem settleQueue_eq (pool : LegacyPool S M) (a : Address) (l : TxList) :
    pool.settleQueue a l =
      { pool with
        queue := putList pool.queue a l
        accounts := settle pool.id pool.accounts a
          (a ∈ pool.pending ∨ a ∈ putList pool.queue a l) } := by
  have hmem := mem_putList pool.queue a l
  by_cases hlen : l.len = 0
  · have hnot : a ∉ putList pool.queue a l := fun h => hmem.mp h hlen
    by_cases hpending : a ∈ pool.pending
    · simp [settleQueue, settle, hlen, hpending, putList]
    · simp only [settle, or_iff_right hpending, if_neg hnot]
      simp [settleQueue, release, hlen, hpending, putList]
  · simp only [settle, if_pos (Or.inr (hmem.mpr hlen) : a ∈ pool.pending ∨ _)]
    simp [settleQueue, hlen, putList]

theorem settlePending_eq (pool : LegacyPool S M) (a : Address) (l : TxList) :
    ∃ store, pool.settlePending a l =
      { pool with
        pending := putList pool.pending a l
        accounts := settle pool.id pool.accounts a
          (a ∈ putList pool.pending a l ∨ a ∈ pool.queue)
        validPendingTxs := store } := by
  have hmem := mem_putList pool.pending a l
  by_cases hlen : l.len = 0
  · have hnot : a ∉ putList pool.pending a l := fun h => hmem.mp h hlen
    by_cases hqueue : a ∈ pool.queue
    · simp [settlePending, settle, hlen, hqueue, putList]
    · simp only [settle, or_iff_left hqueue, if_neg hnot]
      simp [settlePending, release, hlen, hqueue, putList]
  · simp only [settle, if_pos (Or.inl (hmem.mpr hlen) : _ ∨ a ∈ pool.queue)]
    simp [settlePending, hlen, putList]

theorem releaseIfUnused_eq (pool : LegacyPool S M) (a : Address) :
    pool.releaseIfUnused a =
      { pool with
        accounts := settle pool.id pool.accounts a (a ∈ pool.pending ∨ a ∈ pool.queue) } := by
  simp only [releaseIfUnused, settle]
  by_cases hpending : a ∈ pool.pending
  · simp [hpending]
  · by_cases hqueue : a ∈ pool.queue
    · simp [hqueue]
    · simp [hpending, hqueue, release]

end LegacyPool

end InfiniteEvm.Mempool
