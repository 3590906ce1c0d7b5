import InfiniteEvm.StateDB.Ledger
import InfiniteEvm.StateDB.Revert

/-!
# Writes to the cache context

Writes of native code and flushes are not journaled. They stay above the layer that the
last precompile call pushed, so the entry of that call undoes them, and the record of
the journal goes on as if the call itself had made them.
-/

namespace InfiniteEvm

open Std Library SnapshotMulti UndoLog List Observation CacheContext

variable {K V E : Type*} [Ord K]

/-! ## The cache context -/

namespace CacheContext

variable {c c' c'' : CacheContext K V E}

/-- `c'` differs from `c` in the top layer and in further events. -/
structure Above (c c' : CacheContext K V E) : Prop where
  wellFormed : WellFormed c'.multiStore
  head : c'.multiStore.head = c.multiStore.head
  reverted : ∀ n : Nat, n < c.multiStore.head →
    revertToSnapshot c'.multiStore n = revertToSnapshot c.multiStore n
  events : c.events <+: c'.events

theorem Above.refl (h : WellFormed c.multiStore) : c.Above c where
  wellFormed := h
  head := rfl
  reverted _ _ := rfl
  events := prefix_rfl

theorem Above.trans (h : c.Above c') (h' : c'.Above c'') : c.Above c'' where
  wellFormed := h'.wellFormed
  head := h'.head.trans h.head
  reverted n hn := (h'.reverted n (h.head ▸ hn)).trans (h.reverted n hn)
  events := h.events.trans h'.events

section

variable (hw : WellFormed c.multiStore)
include hw

/-- Writing above a pushed layer still only adds to what was below. -/
theorem Extends.above (h : c.Extends c') (h' : c'.Above c'') :
    c.Extends c'' where
  wellFormed := h'.wellFormed
  head := h'.head.trans h.head
  reverted := by
    obtain ⟨n, hn⟩ := Int.eq_ofNat_of_zero_le hw.nonneg
    have hhead := h.head
    have hreverted := h.reverted
    rw [hn] at hhead hreverted ⊢
    rw [h'.reverted n (by omega), hreverted]
  events := h.events.trans h'.events

/-- Pushing a layer. -/
theorem extends_snapshot :
    c.Extends { c with multiStore := (SnapshotMulti.snapshot c.multiStore).1 } where
  wellFormed := snapshot_wellFormed hw
  head := rfl
  reverted := revertToSnapshot_snapshot hw
  events := prefix_rfl

variable [TransOrd K] [LawfulEqOrd K] [DecidableEq K]

theorem put_above {w : String × K × Option V}
    (h : c.put w = .ok c') : c.Above c' ∧ c'.reads = overwritten c.reads [w] ∧
      c'.events = c.events := by
  unfold put at h
  cases hput : SnapshotMulti.put c.multiStore w.1 w.2.1 w.2.2 with
  | none =>
    rw [hput] at h
    cases h
  | some ms =>
    rw [hput] at h
    cases h
    refine ⟨⟨put_wellFormed hput hw, (put_head hput).1, ?_, prefix_rfl⟩, ?_, rfl⟩
    · intro n hn
      exact revertToSnapshot_put hw hput hn
    · funext key k
      exact get_put hput key k

theorem putAll_above {ws : List (String × K × Option V)}
    (h : c.putAll ws = .ok c') : c.Above c' ∧ c'.reads = overwritten c.reads ws ∧
      c'.events = c.events := by
  induction ws generalizing c with
  | nil =>
    cases h
    exact ⟨.refl hw, rfl, rfl⟩
  | cons w rest ih =>
    obtain ⟨next, hput, h⟩ := Outcomes.bind_eq_ok.mp h
    obtain ⟨habove, hreads, hevents⟩ := put_above hw hput
    obtain ⟨habove', hreads', hevents'⟩ := ih habove.wellFormed h
    refine ⟨habove.trans habove', ?_, hevents'.trans hevents⟩
    rw [hreads', hreads, ← overwritten_append, singleton_append]

/-- Effects carried out on the cache context write its top layer and append events. -/
theorem apply_above {e : Effects K V E}
    (h : c.apply e = .ok c') : c.Above c' ∧ c'.reads = overwritten c.reads e.writes ∧
      c'.events = c.events ++ e.events := by
  obtain ⟨next, hput, rfl⟩ := Outcomes.map_eq_ok.mp h
  obtain ⟨habove, hreads, hevents⟩ := putAll_above hw hput
  refine ⟨⟨habove.wellFormed, habove.head, habove.reverted, ?_⟩, hreads, ?_⟩
  · exact hevents ▸ prefix_append _ _
  · rw [← hevents]

end

end CacheContext

variable [TransOrd K]

/-! ## Records with another cache -/

/-- The entry of a precompile call. -/
def JournalEntry.isPrecompileCall : JournalEntry E → Bool
  | .precompileCallChange .. => true
  | _ => false

namespace Observation

variable {env : Env K V E} {codes : Set Bytes} {o o' x : Observation K V E} {e : JournalEntry E}
  {a b : List (JournalEntry E) × Observation K V E}

/-- The observation with another cache context and processed count. -/
def withCache (o : Observation K V E) (c : Option (CacheContext K V E)) (processed : Nat) :
    Observation K V E :=
  { o with cache := c, processedEventsCount := processed }

/-- Changes other than precompile calls neither see nor change the cache. -/
theorem Change.withCache (h : Change env codes e o o') (he : e.isPrecompileCall = false)
    (c : Option (CacheContext K V E)) (processed : Nat) :
    o'.cache = o.cache ∧ o'.processedEventsCount = o.processedEventsCount ∧
      Change env codes e (o.withCache c processed) (o'.withCache c processed) := by
  obtain ⟨x, hx, rfl⟩ := h
  cases hx with
  | createObject a h₁ h₂ => exact ⟨rfl, rfl, _, .createObject a h₁ h₂, rfl⟩
  | resetObject prev h₁ h₂ => exact ⟨rfl, rfl, _, .resetObject prev h₁ h₂, rfl⟩
  | selfDestruct a v h₁ => exact ⟨rfl, rfl, _, .selfDestruct a v h₁, rfl⟩
  | balance a v amount h₁ => exact ⟨rfl, rfl, _, .balance a v amount h₁, rfl⟩
  | nonce a v nonce h₁ => exact ⟨rfl, rfl, _, .nonce a v nonce h₁, rfl⟩
  | storage a v key value h₁ => exact ⟨rfl, rfl, _, .storage a v key value h₁, rfl⟩
  | transient a key value => exact ⟨rfl, rfl, _, .transient a key value, rfl⟩
  | code a v code h₁ h₂ h₃ => exact ⟨rfl, rfl, _, .code a v code h₁ h₂ h₃, rfl⟩
  | refund refund => exact ⟨rfl, rfl, _, .refund refund, rfl⟩
  | addLog log => exact ⟨rfl, rfl, _, .addLog log, rfl⟩
  | addAddress a h₁ => exact ⟨rfl, rfl, _, .addAddress a h₁, rfl⟩
  | addSlot a slot al h₁ h₂ => exact ⟨rfl, rfl, _, .addSlot a slot al h₁ h₂, rfl⟩
  | precompileCall c c' processed h₁ h₂ => cases he
  | createContract a v h₁ h₂ => exact ⟨rfl, rfl, _, .createContract a v h₁ h₂, rfl⟩

/-- The events of the cache context. -/
def cacheEvents (o : Observation K V E) : List E :=
  match o.cache with
  | none => []
  | some c => c.events

/-- A precompile call has a cache context before and after it. -/
theorem Change.precompileCall (h : Change env codes e o o') (he : e.isPrecompileCall = true) :
    ∃ c c', o.cache = some c ∧ o'.cache = some c' ∧ c.Extends c' ∧
      ∀ k processed, c.Extends k → Change env codes e o (o'.withCache (some k) processed) := by
  obtain ⟨x, hx, rfl⟩ := h
  cases hx with
  | precompileCall c c' processed hc hext =>
    exact ⟨c, c', hc, rfl, hext, fun k processed' hk =>
      ⟨_, .precompileCall c k processed' hc hk, rfl⟩⟩
  | _ => cases he

/-- Along a record a cache context stays, and its events only grow. -/
theorem cacheEvents_prefix (h : Recorded (Change env codes) a b) :
    a.2.cacheEvents <+: b.2.cacheEvents ∧ (b.2.cache = none → a.2.cache = none) := by
  induction h with
  | refl => exact ⟨prefix_rfl, id⟩
  | @record log o o' e _ hc ih =>
    cases he : e.isPrecompileCall with
    | false =>
      obtain ⟨hcache, -, -⟩ := hc.withCache he none 0
      simp only [cacheEvents, hcache] at ih ⊢
      exact ih
    | true =>
      obtain ⟨c, c', hbefore, hafter, hext, -⟩ := hc.precompileCall he
      simp only [cacheEvents, hbefore, hafter] at ih ⊢
      exact ⟨ih.1.trans hext.events, fun h => by cases h⟩

/-- A record without a cache context can be made with any. -/
theorem recorded_withCache (h : Recorded (Change env codes) a b) (ha : a.2.cache = none)
    (c : Option (CacheContext K V E)) (processed : Nat) :
    b.2.cache = none ∧ b.2.processedEventsCount = a.2.processedEventsCount ∧
      Recorded (Change env codes) (a.1, a.2.withCache c processed)
        (b.1, b.2.withCache c processed) := by
  induction h with
  | refl => exact ⟨ha, rfl, .refl⟩
  | @record log o o' e _ hc ih =>
    obtain ⟨hnone, hcount, hrec⟩ := ih
    cases he : e.isPrecompileCall with
    | false =>
      obtain ⟨hcache, hcount', hchange⟩ := hc.withCache he c processed
      exact ⟨hcache.trans hnone, hcount'.trans hcount, .record e hrec hchange⟩
    | true =>
      obtain ⟨k, -, hbefore, -⟩ := hc.precompileCall he
      exact absurd (hnone.symm.trans hbefore) (Option.some_ne_none k).symm

/-- Writes above the last layer, in a record with a precompile call. -/
theorem recorded_above (h : Recorded (Change env codes) a b) (ha : a.2.Good) {i : Nat}
    (hi : a.1.length ≤ i) {e : JournalEntry E} (hcall : b.1[i]? = some e)
    (he : e.isPrecompileCall = true) {c k : CacheContext K V E} (hc : b.2.cache = some c)
    (hk : c.Above k) (processed : Nat) :
    Recorded (Change env codes) a (b.1, b.2.withCache (some k) processed) := by
  induction h with
  | refl =>
    obtain ⟨hlt, -⟩ := List.getElem?_eq_some_iff.mp hcall
    omega
  | @record log o o' last hrec hchange ih =>
    cases hlast : last.isPrecompileCall with
    | true =>
      obtain ⟨c₀, c', hbefore, hafter, hext, hredo⟩ := hchange.precompileCall hlast
      obtain rfl : c' = c := Option.some.inj (hafter.symm.trans hc)
      have hw := (StateDB.good_of_recorded hrec ha).cache c₀ hbefore
      exact .record last hrec (hredo k processed (hext.above hw hk))
    | false =>
      obtain ⟨hcache, -, hchange'⟩ := hchange.withCache hlast (some k) processed
      refine .record last (ih ?_ (hcache.symm.trans hc)) hchange'
      by_cases hlog : i < log.length
      · rw [List.getElem?_append_left hlog] at hcall
        exact hcall
      · obtain ⟨hlt, -⟩ := List.getElem?_eq_some_iff.mp hcall
        rw [List.length_append, List.length_singleton] at hlt
        obtain rfl : i = log.length := by omega
        rw [List.getElem?_concat_length] at hcall
        cases hcall
        rw [hlast] at he
        cases he

end Observation

/-! ## The database -/

namespace StateDB

variable {env : Env K V E} {codes : Set Bytes} {s t u base : StateDB K V E} {c : CacheContext K V E}

theorem Inside.trans (hst : Inside env codes s t) (htu : Inside env codes t u) :
    Inside env codes s u where
  valid := htu.valid
  ctx := htu.ctx.trans hst.ctx
  recorded := hst.recorded.trans htu.recorded
  live := fun h => htu.live (hst.live h)
  revisions := by
    obtain ⟨later, heq, hlater⟩ := hst.revisions
    obtain ⟨later', heq', hlater'⟩ := htu.revisions
    refine ⟨later ++ later', by rw [heq', heq, append_assoc], ?_⟩
    intro r hr
    rcases mem_append.mp hr with hr | hr
    · exact hlater r hr
    · exact Nat.le_trans hst.recorded.length_le (hlater' r hr)

theorem Inside.cacheEvents_prefix (h : Inside env codes s t) : s.cacheEvents <+: t.cacheEvents :=
  (Observation.cacheEvents_prefix h.recorded).1

theorem Inside.cache_eq_none (h : Inside env codes s t) (ht : t.cache = none) : s.cache = none :=
  (Observation.cacheEvents_prefix h.recorded).2 ht

/-- The state `t` is reached from `base` inside a precompile call, whose entry is the
first one after `base`. -/
structure Called (env : Env K V E) (codes : Set Bytes) (base t : StateDB K V E) : Prop where
  inside : Inside env codes base t
  call : ∃ e, t.journal.entries[base.journal.entries.length]? = some e ∧ e.isPrecompileCall = true
  cache : t.cache ≠ none

theorem Called.trans (h : Called env codes base s) (hst : Inside env codes s t) :
    Called env codes base t where
  inside := h.inside.trans hst
  call := by
    obtain ⟨e, he, hcall⟩ := h.call
    obtain ⟨es, hes⟩ := hst.recorded.exists_append
    have hes' : t.journal.entries = s.journal.entries ++ es := hes
    refine ⟨e, ?_, hcall⟩
    rw [hes', List.getElem?_append_left (List.getElem?_eq_some_iff.mp he).1, he]
  cache := fun hnone => h.cache (hst.cache_eq_none hnone)

/-- Writes above the last layer stay inside the call. -/
theorem Called.above (h : Called env codes base s) (hbase : Valid env base) {k : CacheContext K V E}
    (hc : s.cache = some c) (hk : c.Above k) (processed : Nat) :
    Called env codes base { s with cache := some k, processedEventsCount := processed } := by
  obtain ⟨e, he, hcall⟩ := h.call
  have hrec := recorded_above h.inside.recorded hbase.good (Nat.le_refl _) he hcall hc hk processed
  have hvalid := h.inside.valid
  refine ⟨⟨?_, h.inside.ctx, hrec, h.inside.live, h.inside.revisions⟩, ⟨e, he, hcall⟩,
    Option.some_ne_none k⟩
  exact
    { tidy := ⟨hvalid.tidy.address, hvalid.tidy.code⟩
      good := good_of_recorded hrec hbase.good
      ordered := hvalid.ordered
      below := hvalid.below }

/-- `GetCacheContext` keeps a database valid. -/
theorem getCacheContext_valid (hs : Valid env s) : Valid env s.getCacheContext := by
  unfold getCacheContext
  split
  · exact hs
  · exact
      { tidy := ⟨hs.tidy.address, hs.tidy.code⟩
        good := ⟨hs.good.accessList, hs.good.dirties, fun c hc => by
          cases hc
          exact newStore_wellFormed _⟩
        ordered := hs.ordered
        below := hs.below }

omit [TransOrd K] in
theorem getCacheContext_eq (hs : s.cache = some c) : s.getCacheContext = s := by
  simp only [getCacheContext, hs]

/-- A record from before the cache context becomes one with it from the start. -/
theorem Inside.getCacheContext (h : Inside env codes base s) (hs : s.cache = none) :
    Inside env codes base.getCacheContext s.getCacheContext := by
  have hbase : base.cache = none := h.cache_eq_none hs
  obtain ⟨-, hcount, hrec⟩ := recorded_withCache h.recorded hbase
    (some (newCacheContext s.ctx)) base.processedEventsCount
  have hbase' : base.getCacheContext = { base with cache := some (newCacheContext s.ctx) } := by
    simp only [StateDB.getCacheContext, hbase, h.ctx]
  have hs' : s.getCacheContext.observe env =
      (s.observe env).withCache (some (newCacheContext s.ctx)) base.processedEventsCount := by
    rw [← show s.processedEventsCount = base.processedEventsCount from hcount]
    simp only [StateDB.getCacheContext, hs]
    rfl
  have hjournal : s.getCacheContext.journal = s.journal := by
    simp only [StateDB.getCacheContext, hs]
  refine ⟨getCacheContext_valid h.valid, ?_, ?_, ?_, ?_⟩
  · simp only [StateDB.getCacheContext, hs, hbase]
    exact h.ctx
  · rw [hs', hjournal, hbase']
    exact hrec
  · simp only [StateDB.getCacheContext, hs, hbase]
    exact h.live
  · simp only [StateDB.getCacheContext, hs, hbase]
    exact h.revisions

/-- `MultiStoreSnapshot` and `AddPrecompileFn`: a layer is pushed and the call journaled,
also when the limit of calls is hit. -/
theorem addPrecompileFn_called (hs : Valid env s) (hc : s.cache = some c) :
    ∃ err t, (s.multiStoreSnapshot.bind fun p => p.2.addPrecompileFn p.1) = .ok (err, t) ∧
      Called env codes s t ∧ t.processedEventsCount = s.processedEventsCount ∧
      t.cache = some { c with multiStore := (SnapshotMulti.snapshot c.multiStore).1 } ∧
      t.stateObjects = s.stateObjects ∧ t.journal.dirties = s.journal.dirties := by
  have hw : WellFormed c.multiStore := hs.good.cache c hc
  have hcalled : ∀ counter, Called env codes s
      { s.append (.precompileCallChange (SnapshotMulti.snapshot c.multiStore).2 c.events
          s.processedEventsCount) with
        cache := some { c with multiStore := (SnapshotMulti.snapshot c.multiStore).1 }
        precompileCallsCounter := counter } := by
    intro counter
    have hrec : Recorded (Change env codes) (s.journal.entries, s.observe env)
        (s.journal.entries ++ [.precompileCallChange (SnapshotMulti.snapshot c.multiStore).2
          c.events s.processedEventsCount], _) :=
      .record _ .refl ⟨_, .precompileCall c _ s.processedEventsCount hc
        (extends_snapshot hw), rfl⟩
    refine ⟨⟨?_, rfl, hrec, id, ⟨[], (append_nil _).symm, fun _ hr => by simp at hr⟩⟩,
      ⟨_, getElem?_concat_length, rfl⟩, Option.some_ne_none _⟩
    exact
      { tidy := ⟨hs.tidy.address, hs.tidy.code⟩
        good := good_of_recorded hrec hs.good
        ordered := hs.ordered
        below := fun r hr => ⟨(hs.below r hr).1, Nat.le_trans (hs.below r hr).2 hrec.length_le⟩ }
  simp only [multiStoreSnapshot, hc, addPrecompileFn, Except.bind]
  split
  · exact ⟨_, _, rfl, hcalled _, rfl, rfl, rfl, rfl⟩
  · exact ⟨_, _, rfl, hcalled _, rfl, rfl, rfl, rfl⟩

theorem addPrecompileFn_valid (hs : Valid env s) {err : Option String}
    (h : (s.multiStoreSnapshot.bind fun p => p.2.addPrecompileFn p.1) = .ok (err, t)) :
    Valid env t := by
  cases hc : s.cache with
  | none =>
    simp only [multiStoreSnapshot, hc] at h
    cases h
  | some c =>
    obtain ⟨err', t', hcall, (hcalled : Called env Set.univ s t'), -⟩ :=
      addPrecompileFn_called hs hc
    obtain ⟨-, rfl⟩ := Prod.mk.inj (Except.ok.inj (hcall.symm.trans h))
    exact hcalled.inside.valid

variable [DecidableEq K]

/-- What a flush does, if it does not panic. -/
theorem flushToCacheCtx_cases (hc : s.cache = some c) {err : Option String}
    (h : s.flushToCacheCtx env = .ok (err, t)) :
    ∃ e k, s.commitWithCtx env c.reads = .ok e ∧ c.apply e = .ok k ∧ err = e.err ∧
      t = { s with
        cache := some k
        processedEventsCount := if e.err = none then k.events.length
          else s.processedEventsCount } := by
  simp only [flushToCacheCtx, hc] at h
  obtain ⟨e, he, h⟩ := Outcomes.bind_eq_ok.mp h
  obtain ⟨k, happly, h⟩ := Outcomes.map_eq_ok.mp h
  refine ⟨e, k, he, happly, ?_⟩
  cases herr : e.err <;> rw [herr] at h <;> cases h <;> exact ⟨rfl, rfl⟩

/-! ## Reachable states -/

/-- The states of a database: after `New`, after any run of operations that does not
revert to before it started, after a change that is not journaled, and after the steps of a
precompile call. -/
inductive Reachable (env : Env K V E) : StateDB K V E → Prop
  | new (ctx : Context K V E) (txIndex : Nat) : Reachable env (new ctx txIndex)
  | run {s t : StateDB K V E} {ops : List Op} : Reachable env s →
      (∀ op ∈ ops, op.Above s.nextRevisionID) → s.run env ops = some t → Reachable env t
  | prepare {s t : StateDB K V E} {rules : Rules} {sender coinbase : Address}
      {dst : Option Address} {precompiles : List Address} {list : List (Address × List Hash)} :
      Reachable env s → s.prepare rules sender coinbase dst precompiles list = .ok t →
      Reachable env t
  | setStorage {s : StateDB K V E} (a : Address) (storage : Storage) : Reachable env s →
      Reachable env (s.setStorage env a storage)
  | finalise {s : StateDB K V E} (deleteEmptyObjects : Bool) : Reachable env s →
      Reachable env (s.finalise env deleteEmptyObjects)
  | getCacheContext {s : StateDB K V E} : Reachable env s → Reachable env s.getCacheContext
  | addPrecompileFn {s t : StateDB K V E} {err : Option String} : Reachable env s →
      (s.multiStoreSnapshot.bind fun p => p.2.addPrecompileFn p.1) = .ok (err, t) →
      Reachable env t
  | flush {s t : StateDB K V E} {err : Option String} : Reachable env s →
      s.flushToCacheCtx env = .ok (err, t) → Reachable env t

variable [LawfulEqOrd K]

theorem flushToCacheCtx_valid (hs : Valid env s) {err : Option String}
    (h : s.flushToCacheCtx env = .ok (err, t)) : Valid env t := by
  cases hc : s.cache with
  | none =>
    simp only [flushToCacheCtx, hc] at h
    cases h
  | some c =>
    obtain ⟨e, k, -, happly, -, rfl⟩ := flushToCacheCtx_cases hc h
    have hk := (CacheContext.apply_above (hs.good.cache c hc) happly).1.wellFormed
    exact
      { tidy := ⟨hs.tidy.address, hs.tidy.code⟩
        good := ⟨hs.good.accessList, hs.good.dirties, fun c' hc' => Option.some.inj hc' ▸ hk⟩
        ordered := hs.ordered
        below := hs.below }

/-- Objects, access list, dirty addresses, snapshots and the layers of the cache context are in
order in every reachable state. -/
theorem reachable_valid (h : Reachable env s) : Valid env s := by
  induction h with
  | new ctx txIndex => exact new_valid env ctx txIndex
  | run _ hops hrun ih =>
    exact (ih.inside.run ih (Or.inr hops) (fun op _ => op.codeIn_univ) hrun).valid
  | prepare _ ht ih => exact prepare_valid ih ht
  | setStorage a storage _ ih => exact setStorage_valid ih a storage
  | finalise deleteEmptyObjects _ ih => exact finalise_valid ih deleteEmptyObjects
  | getCacheContext _ ih => exact getCacheContext_valid ih
  | addPrecompileFn _ ht ih => exact addPrecompileFn_valid ih ht
  | flush _ ht ih => exact flushToCacheCtx_valid ih ht

/-- A slot is set and a precompile called after one snapshot, and another slot set after a
second one. A third one is reverted to. -/
theorem reachable_valid_called : ∃ t : StateDB Nat Nat Unit, Valid Env.empty t ∧
    t.validRevisions.map (·.journalIndex) = [5, 7] ∧ t.stateObjects.keys = [9] ∧
    (t.stateObjects[(9 : Address)]?).map (·.dirtyStorage.toList) = some [(1, 8), (2, 3)] ∧
    t.journal.dirties.toList = [(9, 5)] ∧ t.addressInAccessList 9 = true ∧
    t.cache.map (·.multiStore.head) = some 1 := by
  have hrun : ((new ⟨∅, []⟩ 0 : StateDB Nat Nat Unit).run Env.empty
      [.addBalance 9 5, .setState 9 1 7, .addSlotToAccessList 9 1, .snapshot,
        .setState 9 1 8]).bind (fun s =>
      (s.getCacheContext.multiStoreSnapshot.bind fun p => p.2.addPrecompileFn p.1).toOption.bind
        fun p => (p.2.flushToCacheCtx Env.empty).toOption.bind fun q =>
          (q.2.run Env.empty [.snapshot, .setState 9 2 3, .snapshot, .setNonce 9 4,
            .revertToSnapshot 2]).map fun t => decide (q.2.nextRevisionID = 1 ∧
              t.validRevisions.map (·.journalIndex) = [5, 7] ∧ t.stateObjects.keys = [9] ∧
              (t.stateObjects[(9 : Address)]?).map (·.dirtyStorage.toList) = some [(1, 8), (2, 3)] ∧
              t.journal.dirties.toList = [(9, 5)] ∧ t.addressInAccessList 9 = true ∧
              t.cache.map (·.multiStore.head) = some 1)) = some true := by
    decide +kernel
  obtain ⟨s, hs, hrun⟩ := Option.bind_eq_some_iff.mp hrun
  obtain ⟨⟨err, u⟩, hu, hrun⟩ := Option.bind_eq_some_iff.mp hrun
  obtain ⟨⟨err', v⟩, hv, hrun⟩ := Option.bind_eq_some_iff.mp hrun
  obtain ⟨t, ht, hrun⟩ := Option.map_eq_some_iff.mp hrun
  rw [Outcomes.toOption_eq_some] at hu hv
  obtain ⟨hnext, hfacts⟩ := of_decide_eq_true hrun
  refine ⟨t, reachable_valid (.run (.flush (.addPrecompileFn (.getCacheContext (.run
    (.new ⟨∅, []⟩ 0) ?_ hs)) hu) hv) ?_ ht), hfacts⟩
  · simp [Op.Above]
  · change v.nextRevisionID = 1 at hnext
    simp [Op.Above, hnext]

end StateDB

end InfiniteEvm
