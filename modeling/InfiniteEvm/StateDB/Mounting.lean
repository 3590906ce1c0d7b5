import InfiniteEvm.StateDB.Balances

/-!
# Mounted stores

A write panics if its store is not mounted. Nothing that the state database does unmounts
a store, so a commit whose writes go to mounted stores is carried out.
-/

namespace InfiniteEvm

open Std Library SnapshotMulti ExtTreeMap

variable {K V E : Type*} [Ord K] {e : Effects K V E}
variable {names : Set String} {ws : List (String × K × Option V)} {c : CacheContext K V E}

/-! ## Contexts -/

/-- The context has all these stores. -/
def Context.Mounts (names : Set String) (c : Context K V E) : Prop :=
  ∀ name ∈ names, name ∈ c.stores

/-- The cache context has all these stores. -/
def CacheContext.Mounts (names : Set String) (c : CacheContext K V E) : Prop :=
  ∀ name ∈ names, name ∈ c.multiStore.stores

theorem CacheContext.Mounts.forEachKey (h : c.Mounts names) (hw : WellFormed c.multiStore)
    (f : SnapshotKV.Store K V → SnapshotKV.Store K V) {name : String} (hname : name ∈ names) :
    name ∈ SnapshotMulti.forEachKey f c.multiStore.storeKeys c.multiStore.stores := by
  rw [mem_iff_isSome_getElem?, getElem?_forEachKey_of_wellFormed hw, Option.isSome_map,
    ← mem_iff_isSome_getElem?]
  exact h name hname

section

variable [TransOrd K]

theorem Context.Mounts.putAll {c : Context K V E} (h : c.Mounts names)
    (hws : ∀ w ∈ ws, w.1 ∈ names) : ∃ c', c.putAll ws = .ok c' := by
  induction ws generalizing c with
  | nil => exact ⟨c, rfl⟩
  | cons w rest ih =>
    obtain ⟨st, hst⟩ := Option.isSome_iff_exists.mp
      (mem_iff_isSome_getElem?.mp (h w.1 (hws w List.mem_cons_self)))
    have hput : c.put w =
        .ok { c with stores := c.stores.insert w.1 (Overlay.put st w.2.1 w.2.2) } := by
      rw [put, hst]
    rw [Context.putAll, hput]
    refine ih (fun name hname => ?_) fun v hv => hws v (List.mem_cons_of_mem _ hv)
    exact mem_insert.mpr (Or.inr (h name hname))

/-- Effects on mounted stores can be carried out. -/
theorem Context.Mounts.apply {c : Context K V E} (h : c.Mounts names)
    (he : ∀ w ∈ e.writes, w.1 ∈ names) : ∃ c', c.apply e = .ok c' := by
  obtain ⟨c', hc'⟩ := h.putAll he
  unfold Context.apply
  rw [hc']
  exact ⟨_, rfl⟩

namespace CacheContext

variable {c c' : CacheContext K V E}

theorem Mounts.putAll (h : c.Mounts names) (hput : c.putAll ws = .ok c') : c'.Mounts names := by
  induction ws generalizing c with
  | nil =>
    cases hput
    exact h
  | cons w rest ih =>
    unfold CacheContext.putAll CacheContext.put SnapshotMulti.put at hput
    cases hst : c.multiStore.stores[w.1]? with
    | none =>
      rw [hst] at hput
      cases hput
    | some st =>
      rw [hst] at hput
      exact ih (fun name hname => mem_insert.mpr (Or.inr (h name hname))) hput

theorem Mounts.apply (h : c.Mounts names) (happly : c.apply e = .ok c') : c'.Mounts names := by
  obtain ⟨next, hput, rfl⟩ := Outcomes.map_eq_ok.mp happly
  have hnext : next.Mounts names := h.putAll hput
  exact hnext

end CacheContext

end

/-! ## Databases -/

namespace StateDB

variable {env : Env K V E} {s t : StateDB K V E}

/-- The stores are mounted in the context, and in the cache context if there is one. -/
structure Mounted (names : Set String) (s : StateDB K V E) : Prop where
  ctx : s.ctx.Mounts names
  cache : ∀ c, s.cache = some c → c.Mounts names

section

variable (h : s.Mounted names)
include h

theorem Mounted.congr (hctx : t.ctx = s.ctx) (hcache : t.cache = s.cache) :
    t.Mounted names where
  ctx := hctx ▸ h.ctx
  cache c hc := h.cache c (hcache ▸ hc)

theorem Mounted.getCacheContext : s.getCacheContext.Mounted names := by
  unfold StateDB.getCacheContext
  split
  · exact h
  · refine ⟨h.ctx, fun c hc => ?_⟩
    cases hc
    intro name hname
    change name ∈ (s.ctx.stores.map _).map _
    rw [mem_map, mem_map]
    exact h.ctx name hname

/-- A snapshot mounts and unmounts nothing. -/
theorem Mounted.snapshot (hc : s.cache = some c)
    (hw : WellFormed c.multiStore) (hctx : t.ctx = s.ctx)
    (hcache : t.cache = some { c with multiStore := (SnapshotMulti.snapshot c.multiStore).1 }) :
    t.Mounted names := by
  refine ⟨hctx ▸ h.ctx, fun c' hc' name hname => ?_⟩
  obtain rfl := Option.some.inj (hcache.symm.trans hc')
  exact (h.cache c hc).forEachKey hw _ hname

variable [TransOrd K]

/-- The context after `writeCache` has the stores of the cache context. -/
theorem Mounted.writeCache (hc : s.cache = some c)
    (hw : WellFormed c.multiStore) : (s.writeCache c).ctx.Mounts names := by
  intro name hname
  change name ∈ (SnapshotMulti.write c.multiStore).stores.map _
  rw [mem_map]
  exact (h.cache c hc).forEachKey hw _ hname

theorem Mounted.flush [DecidableEq K] {err : Option String}
    (hflush : s.flushToCacheCtx env = .ok (err, t)) : t.Mounted names := by
  cases hc : s.cache with
  | none =>
    simp only [flushToCacheCtx, hc] at hflush
    cases hflush
  | some c =>
    obtain ⟨e, c', -, happly, -, rfl⟩ := flushToCacheCtx_cases hc hflush
    refine ⟨h.ctx, fun c'' hc'' => ?_⟩
    cases hc''
    exact (h.cache c hc).apply happly

end

variable [DecidableEq K]

/-- A commit loop without an error. -/
theorem commitAll_of_written {addrs : List Address} {r r' : Reads K V}
    (hon : ∀ obj r, (commitObject env obj r).err = none →
      ∀ w ∈ (commitObject env obj r).writes, w.1 ∈ names)
    (h : Written env s.stateObjects addrs r r') :
    ∃ e, s.commitAll env addrs r = .ok e ∧ e.err = none ∧ r' = overwritten r e.writes ∧
      ∀ w ∈ e.writes, w.1 ∈ names := by
  induction h with
  | nil r => exact ⟨_, rfl, rfl, rfl, fun _ hw => nomatch hw⟩
  | @cons a obj rest r r' hobj herr _ ih =>
    obtain ⟨e, he, hnone, hr', hnames⟩ := ih
    simp only [commitAll, hobj, herr, he]
    refine ⟨_, rfl, hnone, by rw [hr', overwritten_append], fun w hw => ?_⟩
    rcases List.mem_append.mp hw with hw | hw
    · exact hon obj r herr w hw
    · exact hnames w hw

variable [TransOrd K] [LawfulEqOrd K]

/-- A commit returns no error if its loop meets none, and its stores are mounted. -/
theorem Mounted.commit (h : s.Mounted names) (hs : Valid env s)
    (hon : ∀ obj r, (commitObject env obj r).err = none →
      ∀ w ∈ (commitObject env obj r).writes, w.1 ∈ names) {r' : Reads K V}
    (hwritten : Written env s.stateObjects s.journal.dirties.keys (s.observe env).contents r') :
    ∃ u, s.commit env = .ok (none, u) ∧ u.ctx.reads = r' := by
  obtain ⟨u, hctx, hu, hobjects, hdirties, hcontents⟩ := commit_eq hs
  have hmounts : u.ctx.Mounts names := by
    rcases hctx with ⟨-, rfl⟩ | ⟨c, hc, rfl⟩
    · exact h.ctx
    · exact h.writeCache hc (hs.good.cache c hc)
  rw [← hobjects, ← hdirties, ← hcontents] at hwritten
  obtain ⟨e, he, herr, hr', hnames⟩ := commitAll_of_written hon hwritten
  obtain ⟨ctx', hctx'⟩ := hmounts.apply hnames
  rw [hu, commitWithCtx, he]
  simp only [Except.bind, hctx', herr]
  exact ⟨_, rfl, by rw [hr']; exact Context.reads_apply hctx'⟩

end StateDB

end InfiniteEvm
