import InfiniteEvm.StateDB.BankWrites
import InfiniteEvm.StateDB.CacheWrites

/-!
# Balances of the database and of the bank

The bank of the contents that native code and a commit see agrees with the database on
every address that is not dirty. Journaled changes keep it so, a flush makes it agree on
the dirty addresses too, and a commit leaves the balances of the database in the context.
-/

namespace InfiniteEvm

open Std Library SnapshotMulti UndoLog Function Observation ExtTreeMap

variable {K V E ι M : Type*} [Ord K]
variable {env : Env K V E} {books : Books K V ι M} {c : CacheContext K V E}

/-! ## Balances of an observation -/

namespace Observation

/-- What `GetBalance` answers. -/
def balance (o : Observation K V E) (a : Address) : Uint256 :=
  ((o.accounts a).map AccountView.balance).getD 0

/-- What `HasSelfDestructed` answers. -/
def dead (o : Observation K V E) (a : Address) : Bool :=
  ((o.accounts a).map AccountView.selfDestructed).getD false

variable {o : Observation K V E}

theorem balance_setAccount (a : Address) (v : AccountView) :
    (o.setAccount a (some v)).balance = update o.balance a v.balance := by
  funext b
  simp only [balance, setAccount, update_apply]
  split <;> rfl

theorem dead_setAccount (a : Address) (v : AccountView) :
    (o.setAccount a (some v)).dead = update o.dead a v.selfDestructed := by
  funext b
  simp only [dead, setAccount, update_apply]
  split <;> rfl

end Observation

variable [TransOrd K]

namespace StateDB

variable {s : StateDB K V E}

/-- Looking an object up is not observed, and making it gives an empty account. -/
theorem getOrNewStateObject_accounts (env : Env K V E) (s : StateDB K V E) (a : Address) :
    ((s.getOrNewStateObject env a).2.observe env).accounts = (s.observe env).accounts ∨
      (s.observe env).accounts a = none ∧
        ∃ v : AccountView, v.balance = 0 ∧ v.selfDestructed = false ∧ v.newContract = false ∧
          ((s.getOrNewStateObject env a).2.observe env).accounts =
            update (s.observe env).accounts a (some v) := by
  have hobs := observe_getStateObject env s a
  have hfst := getStateObject_fst env s a
  have hlook := lookup_getStateObject env s a
  unfold getOrNewStateObject
  generalize s.getStateObject env a = res at hobs hfst hlook
  obtain ⟨obj?, s'⟩ := res
  cases obj? with
  | some obj => exact Or.inl (congrArg accounts hobs)
  | none =>
    have hnone : s'.lookup env a = none := hlook
    have hfound : s'.getStateObject env a = (none, s') := by
      rw [lookup, Option.or_eq_none_iff, Option.map_eq_none_iff] at hnone
      simp only [getStateObject, hnone.1, hnone.2]
    have hcreated : (s'.createObject env a).2.2 =
        (s'.append (.createObjectChange a)).setStateObject
          (StateObject.newObject a (zeroAccount env)) := by
      simp only [createObject, hfound]
    refine Or.inr ⟨?_, (StateObject.newObject a (zeroAccount env)).view env s'.ctx.reads,
      rfl, rfl, rfl, ?_⟩
    · rw [observe_accounts, ← hfst, Option.map_none]
    · rw [hcreated, observe_setStateObject]
      change update (s'.observe env).accounts a _ = _
      rw [hobs]
      rfl

/-- Looking an object up, or making it, changes no balance. -/
theorem getOrNewStateObject_balance (env : Env K V E) (s : StateDB K V E) (a : Address) :
    ((s.getOrNewStateObject env a).2.observe env).balance = (s.observe env).balance ∧
      ((s.getOrNewStateObject env a).2.observe env).dead = (s.observe env).dead := by
  unfold balance dead
  rcases getOrNewStateObject_accounts env s a with h | ⟨hnone, v, hbalance, hdead, -, h⟩
  · rw [h]
    exact ⟨rfl, rfl⟩
  · rw [h]
    constructor <;> funext b <;> rw [update_apply] <;> split <;> rename_i heq
    · rw [heq, hnone]
      exact hbalance
    · rfl
    · rw [heq, hnone]
      exact hdead
    · rfl

/-- Setting the balance of a live object. -/
theorem setObjectBalance_balance (hs : Sound env s) {a : Address} {obj : StateObject}
    (hobj : s.lookup env a = some obj) (amount : Uint256) :
    ((s.setObjectBalance obj amount).2.observe env).balance =
        update (s.observe env).balance a amount ∧
      ((s.setObjectBalance obj amount).2.observe env).dead = (s.observe env).dead := by
  obtain rfl := lookup_address env hs.tidy hobj
  have hdead : (s.observe env).dead obj.address = obj.selfDestructed := by
    rw [dead, accounts_of_lookup hobj]
    rfl
  rw [setObjectBalance, observe_setStateObject, balance_setAccount, dead_setAccount]
  refine ⟨rfl, ?_⟩
  change update (s.observe env).dead obj.address obj.selfDestructed = _
  rw [← hdead, update_eq_self]

/-- What `AddBalance` and `SubBalance` have in common: the balance of one address changes,
unless the amount is zero. -/
theorem changeBalance_balance (hs : Sound env s) (a : Address) {amount change : Uint256}
    {t : StateDB K V E} (hzero : amount = 0 → change = 0)
    (ht : t = if amount = 0 then (s.getOrNewStateObject env a).2
      else ((s.getOrNewStateObject env a).2.setObjectBalance (s.getOrNewStateObject env a).1
        ((s.getOrNewStateObject env a).1.account.balance + change)).2) :
    (∀ b, (t.observe env).balance b = (s.observe env).balance b + if a = b then change else 0) ∧
      (t.observe env).dead = (s.observe env).dead := by
  obtain ⟨hbalance, hdead⟩ := getOrNewStateObject_balance env s a
  obtain ⟨hf, hl⟩ : Loaded env Set.univ s _ a _ := getOrNewStateObject_follows hs a
  split at ht
  · rename_i hamount
    subst ht
    refine ⟨fun b => ?_, hdead⟩
    rw [hbalance, hzero hamount, ite_self]
    exact (BitVec.add_zero _).symm
  · subst ht
    obtain ⟨hset, hsame⟩ := setObjectBalance_balance (hf.sound hs) hl
      ((s.getOrNewStateObject env a).1.account.balance + change)
    have hfound : (s.getOrNewStateObject env a).1.account.balance = (s.observe env).balance a := by
      rw [← hbalance, balance, accounts_of_lookup hl]
      rfl
    refine ⟨fun b => ?_, hsame.trans hdead⟩
    rw [hset, hbalance, hfound, update_apply]
    by_cases hb : b = a
    · subst hb
      rw [if_pos rfl, if_pos rfl]
    · rw [if_neg hb, if_neg fun h => hb h.symm]
      exact (BitVec.add_zero _).symm

theorem addBalance_balance (hs : Sound env s) (a : Address) (amount : Uint256) :
    (∀ b, ((s.addBalance env a amount).2.observe env).balance b =
        (s.observe env).balance b + if a = b then amount else 0) ∧
      ((s.addBalance env a amount).2.observe env).dead = (s.observe env).dead := by
  refine changeBalance_balance hs a id ?_
  simp only [addBalance]
  split <;> rfl

theorem subBalance_balance (hs : Sound env s) (a : Address) (amount : Uint256) :
    (∀ b, ((s.subBalance env a amount).2.observe env).balance b =
        (s.observe env).balance b + if a = b then -amount else 0) ∧
      ((s.subBalance env a amount).2.observe env).dead = (s.observe env).dead := by
  have hzero : amount = 0 → -amount = 0 := by
    rintro rfl
    exact BitVec.neg_zero 256
  refine changeBalance_balance hs a hzero ?_
  simp only [subBalance, BitVec.sub_eq_add_neg]
  split <;> rfl

end StateDB

/-! ## Agreement -/

namespace Observation

/-- The contents native code sees: those of the cache context, or those of the context
until there is one. -/
def contents (o : Observation K V E) : Reads K V :=
  match o.cache with
  | none => o.ctx.reads
  | some c => c.reads

/-- The book has the balance of every address that is not dirty. -/
def Agrees (books : Books K V ι M) (o : Observation K V E) : Prop :=
  ∀ a, a ∉ o.dirties → books.value (o.balance a) = books.entry o.contents (books.key a)

/-- The address is not dirty, or is not marked as self-destructed. -/
def Stays (o : Observation K V E) (a : Address) : Prop := a ∈ o.dirties → o.dead a = false

/-- The book has the balances of the database. -/
def Settled (books : Books K V ι M) (o : Observation K V E) : Prop :=
  ∀ a, o.Stays a → books.value (o.balance a) = books.entry o.contents (books.key a)

theorem Settled.agrees {o : Observation K V E} (h : Settled books o) : Agrees books o :=
  fun a ha => h a fun hmem => absurd hmem ha

variable {codes : Set Bytes} {o o' x : Observation K V E} {e : JournalEntry E}
  {a b : List (JournalEntry E) × Observation K V E}

/-- A change of a balance is reported as dirty. -/
theorem Change.balance_of_clean (h : Change env codes e o o') {a : Address}
    (ha : a ∉ o'.dirties) : a ∉ o.dirties ∧ o'.balance a = o.balance a := by
  obtain ⟨x, hx, rfl⟩ := h
  refine ⟨fun hmem => ha (Dirties.mem_mark _ hmem), ?_⟩
  unfold balance
  rcases hx.accounts_cases with ⟨hsame, -, -⟩ | ⟨b, v, hset, hdirtied⟩ |
    ⟨prev, v, -, hv, hset⟩ | ⟨b, v, -, hv, hset⟩
  · rw [hsame]
  · rw [hdirtied, Dirties.mem_mark_some, not_or] at ha
    rw [hset, update_of_ne fun hab => ha.1 hab.symm]
  · rw [hset, update_apply]
    split
    · rename_i hab
      rw [hab, hv]
      rfl
    · rfl
  · rw [hset, update_apply]
    split
    · rename_i hab
      rw [hab, hv]
      rfl
    · rfl

theorem recorded_balance_of_clean (h : Recorded (Change env codes) a b) {x : Address}
    (hx : x ∉ b.2.dirties) : x ∉ a.2.dirties ∧ b.2.balance x = a.2.balance x := by
  induction h with
  | refl => exact ⟨hx, rfl⟩
  | record e _ hc ih =>
    obtain ⟨hclean, hsame⟩ := hc.balance_of_clean hx
    obtain ⟨hclean', hsame'⟩ := ih hclean
    exact ⟨hclean', hsame.trans hsame'⟩

/-- Journaled changes keep agreement, as far as they see the same contents. -/
theorem Agrees.recorded (ho : a.2.Agrees books) (h : Recorded (Change env codes) a b)
    (hcontents : b.2.contents = a.2.contents) : b.2.Agrees books := by
  intro x hx
  obtain ⟨hclean, hsame⟩ := recorded_balance_of_clean h hx
  rw [hsame, hcontents]
  exact ho x hclean

end Observation

namespace StateDB

variable {s t u : StateDB K V E}

theorem contents_of_cache (hc : s.cache = some c) : (s.observe env).contents = c.reads := by
  unfold contents
  rw [show (s.observe env).cache = some c from hc]

theorem contents_of_no_cache (hc : s.cache = none) : (s.observe env).contents = s.ctx.reads := by
  unfold contents
  rw [show (s.observe env).cache = none from hc]
  rfl

theorem contents_congr (hcache : t.cache = s.cache) (hctx : t.ctx = s.ctx) :
    (t.observe env).contents = (s.observe env).contents := by
  cases hc : s.cache with
  | none => rw [contents_of_no_cache hc, contents_of_no_cache (hcache.trans hc), hctx]
  | some c => rw [contents_of_cache hc, contents_of_cache (hcache.trans hc)]

theorem newCacheContext_reads (ctx : Context K V E) : (newCacheContext ctx).reads = ctx.reads := by
  funext key k
  simp only [CacheContext.reads, newCacheContext, SnapshotMulti.get, newStore, Context.reads,
    getElem?_map, Option.bind_map]
  cases ctx.stores[key]? with
  | none => rfl
  | some st => simp [SnapshotKV.get, SnapshotKV.newStore, SnapshotKV.layers, Overlay.readStack]

/-- A new cache context shows what the context has. -/
theorem contents_getCacheContext :
    (s.getCacheContext.observe env).contents = (s.observe env).contents := by
  cases hc : s.cache with
  | some c => rw [getCacheContext_eq hc]
  | none =>
    have hnew : s.getCacheContext = { s with cache := some (newCacheContext s.ctx) } := by
      simp only [getCacheContext, hc]
    rw [hnew, contents_of_no_cache hc, contents_of_cache rfl]
    exact newCacheContext_reads s.ctx

theorem getCacheContext_agrees (h : (s.observe env).Agrees books) :
    (s.getCacheContext.observe env).Agrees books := by
  unfold getCacheContext
  cases hc : s.cache with
  | some c => exact h
  | none =>
    intro a ha
    refine (h a ha).trans ?_
    rw [contents_of_no_cache hc]
    exact congrArg (books.entry · _) (newCacheContext_reads s.ctx).symm

theorem follows_agrees (h : (s.observe env).Agrees books) (hf : Follows env Set.univ s t) :
    (t.observe env).Agrees books :=
  h.recorded hf.recorded (contents_congr hf.cache.1 hf.ctx_eq)

variable [DecidableEq K] [DecidableEq ι]

/-- A commit loop leaves the balance of a dirty object that stays. -/
theorem written_dirty (hbook : Booked env books) (law : env.Lawful)
    (hkey : Injective books.key) (hs : Tidy env s) {r r' : Reads K V}
    (h : Written env s.stateObjects s.journal.dirties.keys r r') {a : Address}
    (ha : a ∈ s.journal.dirties) (hdead : (s.observe env).dead a = false) :
    books.entry r' (books.key a) = books.value ((s.observe env).balance a) := by
  obtain ⟨-, hwalked⟩ := h.leavesBalance hbook law hkey hs.address (FMap.keys_nodup _)
  obtain ⟨obj, hobj, hleaves⟩ := hwalked a (mem_keys.mpr ha)
  have hview : (s.observe env).accounts a = some (obj.view env s.ctx.reads) := by
    rw [observe_accounts, lookup, hobj]
    rfl
  have hstays : obj.selfDestructed = false := by
    rw [dead, hview] at hdead
    exact hdead
  unfold LeavesBalance at hleaves
  rw [hstays] at hleaves
  rw [balance, hview]
  exact hleaves

/-- What a commit loop leaves in the book, for a database that agrees with it. -/
theorem written_settled (hbook : Booked env books) (law : env.Lawful)
    (hkey : Injective books.key) (hs : Tidy env s) {r r' : Reads K V}
    (hcontents : (s.observe env).contents = r) (hagrees : (s.observe env).Agrees books)
    (h : Written env s.stateObjects s.journal.dirties.keys r r') {a : Address}
    (ha : (s.observe env).Stays a) :
    books.entry r' (books.key a) = books.value ((s.observe env).balance a) := by
  by_cases hdirty : a ∈ s.journal.dirties
  · exact written_dirty hbook law hkey hs h hdirty (ha hdirty)
  · obtain ⟨hframe, -⟩ := h.leavesBalance hbook law hkey hs.address (FMap.keys_nodup _)
    rw [hagrees a hdirty, hcontents]
    refine hframe _ fun b hb heq => hdirty ?_
    rw [hkey heq]
    exact mem_keys.mp hb

/-! ## Flushes and commits -/

variable [LawfulEqOrd K]

/-- A flush writes the dirty objects over the contents, and counts every event. -/
theorem flush_written (hs : Valid env s) (h : s.flushToCacheCtx env = .ok (none, t)) :
    ∃ c k, s.cache = some c ∧
      t = { s with cache := some k, processedEventsCount := k.events.length } ∧
      Written env s.stateObjects s.journal.dirties.keys c.reads k.reads := by
  obtain ⟨c, hc⟩ : ∃ c, s.cache = some c := by
    cases hc : s.cache with
    | some c => exact ⟨c, rfl⟩
    | none =>
      simp only [flushToCacheCtx, hc] at h
      cases h
  obtain ⟨e, k, he, hk, herr, rfl⟩ := flushToCacheCtx_cases hc h
  have hwritten := commitAll_written he herr.symm
  obtain ⟨-, hreads, -⟩ := CacheContext.apply_above (hs.good.cache c hc) hk
  rw [← hreads] at hwritten
  exact ⟨c, k, hc, by rw [if_pos herr.symm], hwritten⟩

/-- A flush makes the book agree with the database. -/
theorem flush_settled (hbook : Booked env books) (law : env.Lawful)
    (hkey : Injective books.key) (hs : Valid env s)
    (hagrees : (s.observe env).Agrees books) (h : s.flushToCacheCtx env = .ok (none, t)) :
    (t.observe env).Settled books ∧ t.processedEventsCount = t.cacheEvents.length := by
  obtain ⟨c, k, hc, rfl, hwritten⟩ := flush_written hs h
  refine ⟨fun a ha => ?_, rfl⟩
  exact (written_settled hbook law hkey hs.tidy (contents_of_cache hc) hagrees hwritten ha).symm

/-- The context after `writeCache` has the contents of the cache context. -/
theorem writeCache_reads (hw : WellFormed c.multiStore) : (s.writeCache c).ctx.reads = c.reads := by
  rw [CacheContext.reads, ← parentGet_write hw]
  funext key k
  simp only [writeCache, Context.reads, getElem?_map, parentGet, Option.bind_map]
  rfl

/-- `Commit` writes the dirty objects to the context, after what the cache context has. -/
theorem commit_eq (hs : Valid env s) : ∃ u : StateDB K V E,
    (s.cache = none ∧ u = s ∨ ∃ c, s.cache = some c ∧ u = s.writeCache c) ∧
    s.commit env = ((u.commitWithCtx env u.ctx.reads).bind fun e =>
      (u.ctx.apply e).map fun ctx => (e.err, { u with ctx := ctx })) ∧
    u.stateObjects = s.stateObjects ∧ u.journal.dirties = s.journal.dirties ∧
    u.ctx.reads = (s.observe env).contents := by
  unfold commit
  cases hc : s.cache with
  | none => exact ⟨s, Or.inl ⟨rfl, rfl⟩, rfl, rfl, rfl, (contents_of_no_cache hc).symm⟩
  | some c =>
    refine ⟨s.writeCache c, Or.inr ⟨c, rfl, rfl⟩, rfl, rfl, rfl, ?_⟩
    rw [contents_of_cache hc, writeCache_reads (hs.good.cache c hc)]

/-- A commit without error writes the dirty objects over the contents. -/
theorem commit_written (hs : Valid env s) (h : s.commit env = .ok (none, t)) :
    Written env s.stateObjects s.journal.dirties.keys (s.observe env).contents t.ctx.reads := by
  obtain ⟨u, -, hu, hobjects, hdirties, hcontents⟩ := commit_eq hs
  rw [hu] at h
  rw [← hobjects, ← hdirties, ← hcontents]
  obtain ⟨e, he, h⟩ := Outcomes.bind_eq_ok.mp h
  obtain ⟨ctx', happly, h⟩ := Outcomes.map_eq_ok.mp h
  obtain ⟨herr, rfl⟩ := Prod.mk.inj h
  have hwritten := commitAll_written he herr
  rw [← Context.reads_apply happly] at hwritten
  exact hwritten

end StateDB

end InfiniteEvm
