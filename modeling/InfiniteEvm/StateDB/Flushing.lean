import InfiniteEvm.StateDB.Balances

/-!
# Runs with flushes

Operations neither read nor change the cache context, unless they revert a precompile call.
A run of operations with flushes in between therefore ends with the objects and the journal
of the run without them, and the flushes only write to the cache context.
-/

namespace InfiniteEvm.StateDB

open Std Library SnapshotMulti UndoLog

variable {K V E : Type*} [Ord K] [TransOrd K]
variable {env : Env K V E}

/-! ## Operations and the cache context -/

/-- The database with another cache context and count of events. -/
def withCache (s : StateDB K V E) (c : Option (CacheContext K V E)) (processed : Nat) :
    StateDB K V E :=
  { s with cache := c, processedEventsCount := processed }

variable {s t : StateDB K V E} {c : Option (CacheContext K V E)} {n : Nat} (a : Address)

theorem getStateObject_withCache :
    (s.withCache c n).getStateObject env a =
      ((s.getStateObject env a).1, (s.getStateObject env a).2.withCache c n) := by
  have hobjects : (s.withCache c n).stateObjects = s.stateObjects := rfl
  have hctx : (s.withCache c n).ctx = s.ctx := rfl
  simp only [getStateObject, hobjects, hctx]
  cases s.stateObjects[a]? with
  | some obj => rfl
  | none => cases env.getAccount s.ctx.reads a <;> rfl

theorem createObject_withCache :
    (s.withCache c n).createObject env a =
      ((s.createObject env a).1, (s.createObject env a).2.1,
        (s.createObject env a).2.2.withCache c n) := by
  unfold createObject
  rw [getStateObject_withCache]
  obtain ⟨obj, u⟩ := s.getStateObject env a
  cases obj <;> rfl

theorem getOrNewStateObject_withCache :
    (s.withCache c n).getOrNewStateObject env a =
      ((s.getOrNewStateObject env a).1, (s.getOrNewStateObject env a).2.withCache c n) := by
  unfold getOrNewStateObject
  rw [getStateObject_withCache]
  obtain ⟨obj, u⟩ := s.getStateObject env a
  cases obj with
  | some obj => rfl
  | none =>
    dsimp only
    rw [createObject_withCache]

theorem selfDestruct_withCache :
    (s.withCache c n).selfDestruct env a =
      ((s.selfDestruct env a).1, (s.selfDestruct env a).2.withCache c n) := by
  unfold selfDestruct
  rw [getStateObject_withCache]
  obtain ⟨obj, u⟩ := s.getStateObject env a
  cases obj <;> rfl

theorem modifyObject_withCache (f : StateObject → StateObject) :
    (s.withCache c n).modifyObject env a f = (s.modifyObject env a f).map (·.withCache c n) := by
  unfold modifyObject
  rw [getStateObject_withCache]
  obtain ⟨obj, u⟩ := s.getStateObject env a
  cases obj <;> rfl

/-- Reverting an entry that is no precompile call. -/
theorem undoEntry_withCache {e : JournalEntry E} (he : e.isPrecompileCall = false) :
    (s.withCache c n).undoEntry env e = (s.undoEntry env e).map (·.withCache c n) := by
  have hentry : (s.withCache c n).revertEntry env e =
      (s.revertEntry env e).map (·.withCache c n) := by
    cases e with
    | selfDestructChange a prev prevbalance =>
      simp only [revertEntry]
      rw [getStateObject_withCache]
      obtain ⟨obj, u⟩ := s.getStateObject env a
      cases obj <;> rfl
    | balanceChange a prev | nonceChange a prev | storageChange a key prevalue
    | codeChange a prevcode prevhash | createContractChange a => exact modifyObject_withCache a _
    | addLogChange =>
      simp only [revertEntry]
      change (if s.logs = [] then _ else _) = _
      split <;> rfl
    | accessListAddSlotChange a slot =>
      simp only [revertEntry]
      change (s.accessList.deleteSlot a slot).map _ = _
      cases s.accessList.deleteSlot a slot <;> rfl
    | precompileCallChange snapshot prevEvents prevProcessed => cases he
    | _ => rfl
  unfold undoEntry
  rw [hentry]
  cases s.revertEntry env e <;> rfl

theorem revertToSnapshot_withCache (hcalls : ∀ e ∈ s.journal.entries, e.isPrecompileCall = false)
    (id : Int) :
    (s.withCache c n).revertToSnapshot env id =
      (s.revertToSnapshot env id).map (·.withCache c n) := by
  have hall : ∀ (es : List (JournalEntry E)) (u : StateDB K V E),
      (∀ e ∈ es, e.isPrecompileCall = false) →
      undoAll (fun e s => s.undoEntry env e) es (u.withCache c n) =
        (undoAll (fun e s => s.undoEntry env e) es u).map (·.withCache c n) := by
    intro es
    induction es with
    | nil => exact fun u _ => rfl
    | cons e rest ih =>
      intro u hes
      rw [undoAll_cons, undoAll_cons, ih u fun e' he' => hes e' (List.mem_cons_of_mem _ he')]
      cases undoAll (fun e s => s.undoEntry env e) rest u with
      | error p => rfl
      | ok v => exact undoEntry_withCache (hes e List.mem_cons_self)
  have hjournal : ∀ index : Nat, (s.withCache c n).revertJournal env index =
      (s.revertJournal env index).map (·.withCache c n) := by
    intro index
    unfold revertJournal
    change (undoAll _ (s.journal.entries.drop index) (s.withCache c n)).map _ = _
    rw [hall _ s fun e he => hcalls e (List.mem_of_mem_drop he)]
    cases undoAll (fun e s => s.undoEntry env e) (s.journal.entries.drop index) s <;> rfl
  unfold revertToSnapshot
  simp only [show (s.withCache c n).validRevisions = s.validRevisions from rfl]
  generalize search s.validRevisions.length _ = idx
  cases s.validRevisions[idx]? with
  | none => rfl
  | some rev =>
    dsimp only
    rw [hjournal]
    split
    · rfl
    · cases s.revertJournal env rev.journalIndex <;> rfl

/-- Operations do not see the cache context. -/
theorem step_withCache (hcalls : ∀ e ∈ s.journal.entries, e.isPrecompileCall = false) (op : Op) :
    (s.withCache c n).step env op = (s.step env op).map (·.withCache c n) := by
  cases op with
  | addBalance a amount | subBalance a amount =>
    simp only [step, addBalance, subBalance]
    rw [getOrNewStateObject_withCache]
    split <;> rfl
  | setBalance a amount | setNonce a nonce | setCode a code =>
    simp only [step, setBalance, setNonce, setCode]
    rw [getOrNewStateObject_withCache]
    rfl
  | setState a key value =>
    simp only [step, setState]
    rw [getOrNewStateObject_withCache]
    obtain ⟨obj, u⟩ := s.getOrNewStateObject env a
    change Except.ok (if (StateObject.getState env u.ctx.reads obj key).1 = value then _
      else _ : Hash × StateDB K V E).2 = _
    split <;> rfl
  | setTransientState a key value =>
    simp only [step, setTransientState]
    change Except.ok (if s.getTransientState a key = value then _ else _) = _
    split <;> rfl
  | subRefund gas =>
    simp only [step, subRefund]
    change (if s.refund < gas then _ else _) = _
    split <;> rfl
  | createAccount a =>
    simp only [step, createAccount]
    rw [createObject_withCache]
    obtain ⟨newobj, prev, u⟩ := s.createObject env a
    cases prev <;> rfl
  | createContract a =>
    simp only [step, createContract]
    rw [getStateObject_withCache]
    obtain ⟨obj, u⟩ := s.getStateObject env a
    cases obj with
    | none => rfl
    | some obj =>
      dsimp only
      split <;> rfl
  | selfDestruct a =>
    simp only [step]
    rw [selfDestruct_withCache]
    rfl
  | selfDestruct6780 a =>
    simp only [step, selfDestruct6780]
    rw [getStateObject_withCache]
    obtain ⟨obj, u⟩ := s.getStateObject env a
    cases obj with
    | none => rfl
    | some obj =>
      dsimp only
      rw [selfDestruct_withCache]
      split <;> rfl
  | addAddressToAccessList a =>
    simp only [step, addAddressToAccessList]
    change Except.ok (if (s.accessList.addAddress a).2 = true then _ else _) = _
    split <;> rfl
  | addSlotToAccessList a slot =>
    simp only [step, addSlotToAccessList]
    change (s.accessList.addSlot a slot).map _ = _
    cases s.accessList.addSlot a slot with
    | error p => rfl
    | ok res =>
      obtain ⟨al, addrMod, slotMod⟩ := res
      cases addrMod <;> cases slotMod <;> rfl
  | revertToSnapshot id => exact revertToSnapshot_withCache hcalls id
  | loadAccount a =>
    simp only [step]
    rw [getStateObject_withCache]
    rfl
  | loadCode a | loadState a key | loadCommittedState a key =>
    simp only [step, getCode, getState, getCommittedState]
    rw [getStateObject_withCache]
    obtain ⟨obj, u⟩ := s.getStateObject env a
    cases obj <;> rfl
  | _ => rfl

/-! ## Runs -/

variable {base : StateDB K V E}

theorem Valid.withCache (h : Valid env t)
    (hc : ∀ k, c = some k → WellFormed k.multiStore) : Valid env (t.withCache c n) where
  tidy := ⟨h.tidy.address, h.tidy.code⟩
  good := ⟨h.good.accessList, h.good.dirties, hc⟩
  ordered := h.ordered
  below := h.below

/-- No precompile call is journaled without a cache context. -/
theorem Inside.no_calls (h : Inside env Set.univ base t) (hbase : base.cache = none)
    (hcalls : ∀ e ∈ base.journal.entries, e.isPrecompileCall = false) :
    ∀ e ∈ t.journal.entries, e.isPrecompileCall = false := by
  have hrec := h.recorded.invariant
    (fun x => x.2.cache = none ∧ ∀ e ∈ x.1, e.isPrecompileCall = false) ?_ ⟨hbase, hcalls⟩
  · exact hrec.2
  · rintro log o e o' ⟨hnone, hlog⟩ hchange
    cases he : e.isPrecompileCall with
    | true =>
      obtain ⟨k, -, hbefore, -⟩ := hchange.precompileCall he
      exact absurd (hnone.symm.trans hbefore) (Option.some_ne_none k).symm
    | false =>
      refine ⟨(hchange.withCache he none 0).1.trans hnone, fun e' he' => ?_⟩
      rcases List.mem_append.mp he' with he' | he'
      · exact hlog e' he'
      · rw [List.mem_singleton.mp he', he]

variable [DecidableEq K] (env)

/-- The database `t` is reached from `s` by operations, with a flush of each database of the
list on the way. The first flush makes the cache context. -/
inductive Flushed : StateDB K V E → List Op → List (StateDB K V E) → StateDB K V E → Prop
  | done (s : StateDB K V E) : Flushed s [] [] s
  | op {s s' t : StateDB K V E} {o : Op} {ops : List Op} {points : List (StateDB K V E)} :
      s.step env o = .ok s' → Flushed s' ops points t → Flushed s (o :: ops) points t
  | flush {s s' t : StateDB K V E} {ops : List Op} {points : List (StateDB K V E)} :
      s.getCacheContext.flushToCacheCtx env = .ok (none, s') → Flushed s' ops points t →
      Flushed s ops (s :: points) t

/-- The contents before and after flushes of databases, one after the other. -/
inductive WrittenAll : List (StateDB K V E) → Reads K V → Reads K V → Prop
  | nil (r : Reads K V) : WrittenAll [] r r
  | cons {s : StateDB K V E} {points : List (StateDB K V E)} {r r₁ r₂ : Reads K V} :
      Written env s.stateObjects s.journal.dirties.keys r r₁ → WrittenAll points r₁ r₂ →
      WrittenAll (s :: points) r r₂

variable {env} [LawfulEqOrd K]

/-- A flush changes the cache context only. -/
theorem flush_withCache (ht : Valid env t) (hc : ∀ k, c = some k → WellFormed k.multiStore)
    (h : (t.withCache c n).getCacheContext.flushToCacheCtx env = .ok (none, s)) :
    ∃ k m, s = t.withCache (some k) m ∧ WellFormed k.multiStore ∧
      Written env t.stateObjects t.journal.dirties.keys ((t.withCache c n).observe env).contents
        (s.observe env).contents := by
  have hvalid := getCacheContext_valid (ht.withCache (n := n) hc)
  obtain ⟨c', k, hc', hs, hwritten⟩ := flush_written hvalid h
  obtain ⟨e, k', -, happly, -, hs'⟩ := flushToCacheCtx_cases hc' h
  have hk : k' = k := by
    have hcache := congrArg StateDB.cache (hs'.symm.trans hs)
    exact Option.some.inj hcache
  have hsame : ∀ m, { (t.withCache c n).getCacheContext with
      cache := some k, processedEventsCount := m } = t.withCache (some k) m := by
    intro m
    unfold getCacheContext
    split <;> rfl
  rw [hsame] at hs
  have hobjects : (t.withCache c n).getCacheContext.stateObjects = t.stateObjects ∧
      (t.withCache c n).getCacheContext.journal = t.journal := by
    unfold getCacheContext
    split <;> exact ⟨rfl, rfl⟩
  refine ⟨k, _, hs, hk ▸ (CacheContext.apply_above (hvalid.good.cache c' hc') happly).1.wellFormed,
    ?_⟩
  rw [hobjects.1, hobjects.2] at hwritten
  rw [← contents_getCacheContext, contents_of_cache hc', hs, contents_of_cache rfl]
  exact hwritten

/-- A run with flushes is the run without them, over another cache context. The contents
change by the flushes. -/
theorem Flushed.plain (hbase : Valid env base) (hnone : base.cache = none)
    (hcalls : ∀ e ∈ base.journal.entries, e.isPrecompileCall = false)
    (hrevisions : base.validRevisions = []) {ops : List Op} {points : List (StateDB K V E)}
    (h : Flushed env s ops points t) {s₀ : StateDB K V E} (hin : Inside env Set.univ base s₀)
    (hs : s = s₀.withCache c n) (hc : ∀ k, c = some k → WellFormed k.multiStore) :
    ∃ t₀ c' m, s₀.run env ops = some t₀ ∧ Inside env Set.univ base t₀ ∧
      t = t₀.withCache c' m ∧ (∀ k, c' = some k → WellFormed k.multiStore) ∧
      WrittenAll env points (s.observe env).contents (t.observe env).contents ∧
      ∀ p ∈ points, Tidy env p ∧ (Live base → Live p) := by
  induction h generalizing s₀ c n with
  | done s => exact ⟨s₀, c, n, rfl, hin, hs, hc, .nil _, nofun⟩
  | @op s s' t o ops points hstep _ ih =>
    rw [hs, step_withCache (hin.no_calls hnone hcalls)] at hstep
    obtain ⟨s₁, hplain, hstep⟩ := Outcomes.bind_eq_ok.mp hstep
    have hs' : s' = s₁.withCache c n := (Except.ok.inj hstep).symm
    have hin₁ : Inside env Set.univ base s₁ := by
      rcases hin.step hbase (Or.inl hrevisions) (Op.codeIn_univ o) with
        ⟨gas, he⟩ | he | ⟨id, he⟩ | ⟨u, he, hu⟩
      · cases hplain.symm.trans he
      · cases hplain.symm.trans he
      · cases hplain.symm.trans he
      · obtain rfl := Except.ok.inj (hplain.symm.trans he)
        exact hu
    obtain ⟨t₀, c', m, hrun, hin', ht, hc', hwritten, hpoints⟩ := ih hin₁ hs' hc
    refine ⟨t₀, c', m, ?_, hin', ht, hc', ?_, hpoints⟩
    · rw [run, Runs.run_cons, hplain]
      exact hrun
    · have hcontents : (s.observe env).contents = (s'.observe env).contents := by
        rw [hs, hs']
        exact contents_congr rfl (hin.ctx.trans hin₁.ctx.symm)
      rw [hcontents]
      exact hwritten
  | @flush s s' t ops points hflush _ ih =>
    subst hs
    obtain ⟨k, m, hs', hk, hwritten⟩ := flush_withCache hin.valid hc hflush
    obtain ⟨t₀, c', m', hrun, hin', ht, hc', hrest, hpoints⟩ := ih hin hs' (by
      rintro k' hk'
      cases hk'
      exact hk)
    refine ⟨t₀, c', m', hrun, hin', ht, hc', .cons hwritten hrest, ?_⟩
    intro p hp
    rcases List.mem_cons.mp hp with rfl | hp
    · exact ⟨⟨hin.valid.tidy.address, hin.valid.tidy.code⟩, hin.live⟩
    · exact hpoints p hp

end InfiniteEvm.StateDB
