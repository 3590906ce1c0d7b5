import InfiniteEvm.Precompiles.Calls
import InfiniteEvm.StateDB.CacheWrites

/-!
# Reverting precompile calls

Every open EVM call can be failed at any moment: the database goes back to what it was
when the call began, and with it the stores and the events of the cache context and the
count of processed events. The count stays within the events exactly when the database
was made on a context without events.
-/

namespace InfiniteEvm

open Std Library SnapshotMulti Outcomes List Option

variable {K V : Type*} [Ord K] {db : StateDB K V Event}
variable {env : Env K V Event} {codec : BankCodec} {res : Option String × StateDB K V Event}

namespace StateDB

variable {s t base : StateDB K V Event} {n : Nat}

/-- The processed events are among those of the cache context, or among the `n` events
of the context the database was made on. -/
def Counted (n : Nat) (s : StateDB K V Event) : Prop :=
  s.processedEventsCount ≤ max n s.cacheEvents.length

theorem Counted.of_eq (hs : Counted n s) (hcache : t.cache = s.cache)
    (hcount : t.processedEventsCount = s.processedEventsCount) : Counted n t := by
  unfold Counted cacheEvents at hs ⊢
  rw [hcache, hcount]
  exact hs

theorem getCacheContext_cacheEvents (s : StateDB K V Event) :
    s.getCacheContext.cacheEvents = s.cacheEvents ∧
      s.getCacheContext.processedEventsCount = s.processedEventsCount := by
  unfold getCacheContext cacheEvents
  cases hc : s.cache with
  | none => exact ⟨rfl, rfl⟩
  | some c => simp only [hc, and_self]

variable [TransOrd K]

/-- The calls of the stack were begun one inside the other, and each can be failed. The
base of an EVM call is the database it took its snapshot of, perhaps with the cache
context that was made since. The base of a precompile call is the database before its
entry. Every dirty address has an object. -/
def Framed (env : Env K V Event) (n : Nat) : List (Frame K V) → StateDB K V Event → Prop
  | [], s => Valid env s ∧ Counted n s ∧ Live s
  | .evm saved :: rest, s => Counted n s ∧ ∃ base : StateDB K V Event,
      (base = saved ∨ base = saved.getCacheContext) ∧ Framed env n rest base ∧
      Inside env Set.univ base.snapshot.2 s
  | .message :: rest, s => Framed env n rest s
  | .native prevEventsLen :: rest, s => Counted n s ∧
      (∀ k, prevEventsLen = some k → k ≤ s.cacheEvents.length) ∧
      ∃ base : StateDB K V Event, Framed env n rest base ∧ Called env Set.univ base s

variable {stack rest : List (Frame K V)} {prev : Option Nat} (c : CacheContext K V Event)

theorem Framed.valid (h : Framed env n stack s) : Valid env s := by
  induction stack with
  | nil => exact h.1
  | cons f rest ih =>
    cases f with
    | evm saved =>
      obtain ⟨-, base, -, -, hin⟩ := h
      exact hin.valid
    | message => exact ih h
    | native prev =>
      obtain ⟨-, -, base, -, hcalled⟩ := h
      exact hcalled.inside.valid

theorem Framed.counted (h : Framed env n stack s) : Counted n s := by
  induction stack with
  | nil => exact h.2.1
  | cons f rest ih =>
    cases f with
    | evm saved => exact h.1
    | message => exact ih h
    | native prev => exact h.1

theorem Framed.live (h : Framed env n stack s) : Live s := by
  induction stack generalizing s with
  | nil => exact h.2.2
  | cons f rest ih =>
    cases f with
    | evm saved =>
      obtain ⟨-, base, -, hrest, hin⟩ := h
      have hbase : Live base := ih hrest
      exact hin.live hbase
    | message => exact ih h
    | native prev =>
      obtain ⟨-, -, base, hrest, hcalled⟩ := h
      exact hcalled.inside.live (ih hrest)

/-- What goes on inside the innermost call keeps every call open. -/
theorem Framed.inside (h : Framed env n stack s) (hst : Inside env Set.univ s t)
    (ht : Counted n t) : Framed env n stack t := by
  induction stack with
  | nil => exact ⟨hst.valid, ht, hst.live h.2.2⟩
  | cons f rest ih =>
    cases f with
    | evm saved =>
      obtain ⟨-, base, hbase, hrest, hin⟩ := h
      exact ⟨ht, base, hbase, hrest, hin.trans hst⟩
    | message => exact ih h
    | native prev =>
      obtain ⟨-, hprev, base, hrest, hcalled⟩ := h
      refine ⟨ht, ?_, base, hrest, hcalled.trans hst⟩
      intro k hk
      exact Nat.le_trans (hprev k hk) hst.cacheEvents_prefix.length_le

/-- The calls around the innermost one are open too. -/
theorem Framed.tail {f : Frame K V} (h : Framed env n (f :: rest) s) : Framed env n rest s := by
  cases f with
  | evm saved =>
    obtain ⟨hcount, base, -, hrest, hin⟩ := h
    exact hrest.inside hin.of_snapshot hcount
  | message => exact h
  | native prev =>
    obtain ⟨hcount, -, base, hrest, hcalled⟩ := h
    exact hrest.inside hcalled.inside hcount

theorem Framed.drop (h : Framed env n stack s) (depth : Nat) :
    Framed env n (stack.drop depth) s := by
  induction depth generalizing stack with
  | zero => exact h
  | succ depth ih =>
    cases stack with
    | nil => exact h
    | cons f rest => exact ih h.tail

/-- Making the cache context keeps every call open. -/
theorem Framed.getCacheContext (h : Framed env n stack s) :
    Framed env n stack s.getCacheContext := by
  cases hs : s.cache with
  | some c =>
    rw [getCacheContext_eq hs]
    exact h
  | none =>
    induction stack generalizing s with
    | nil =>
      obtain ⟨hevents, hcount⟩ := getCacheContext_cacheEvents s
      refine ⟨getCacheContext_valid h.1, ?_, ?_⟩
      · unfold Counted
        rw [hevents, hcount]
        exact h.2.1
      · unfold StateDB.getCacheContext
        split <;> exact h.2.2
    | cons f rest ih =>
      obtain ⟨hevents, hcount⟩ := getCacheContext_cacheEvents s
      have hcounted : Counted n s.getCacheContext := by
        unfold Counted
        rw [hevents, hcount]
        exact h.counted
      cases f with
      | evm saved =>
        obtain ⟨-, base, hbase, hrest, hin⟩ := h
        have hnone : base.cache = none := hin.cache_eq_none hs
        refine ⟨hcounted, base.getCacheContext, ?_, ih hrest hnone, ?_⟩
        · rcases hbase with rfl | rfl
          · exact Or.inr rfl
          · unfold StateDB.getCacheContext at hnone
            split at hnone
            · rename_i c hc
              rw [hc] at hnone
              cases hnone
            · cases hnone
        · have hcomm : base.snapshot.2.getCacheContext = base.getCacheContext.snapshot.2 := by
            simp only [StateDB.getCacheContext, StateDB.snapshot, hnone]
          rw [← hcomm]
          exact hin.getCacheContext hs
      | message => exact ih h hs
      | native prev =>
        obtain ⟨-, -, base, -, hcalled⟩ := h
        exact absurd hs hcalled.cache

/-- Failing an open EVM call. -/
theorem Framed.revert {saved : StateDB K V Event} (h : Framed env n (.evm saved :: rest) s) :
    ∃ u, s.revertToSnapshot env saved.snapshot.1 = .ok u ∧ Framed env n rest u ∧
      u.processedEventsCount = saved.processedEventsCount ∧
      (∀ c, saved.cache = some c → u.cache = some c) ∧
      (s.cache ≠ none → u.cache = saved.getCacheContext.cache) ∧
      (u.observe env = saved.observe env ∨
        u.observe env = saved.getCacheContext.observe env) := by
  obtain ⟨-, base, hbase, hrest, hin⟩ := h
  obtain ⟨u, hu, hin', -, hobs⟩ := hin.restore hrest.valid
  have hcache : u.cache = base.cache := congrArg Observation.cache hobs
  have hcount : u.processedEventsCount = base.processedEventsCount :=
    congrArg Observation.processedEventsCount hobs
  have hid : base.snapshot.1 = saved.snapshot.1 := by
    rcases hbase with rfl | rfl
    · rfl
    · unfold StateDB.getCacheContext
      split <;> rfl
  refine ⟨u, hid ▸ hu, hrest.inside hin' (hrest.counted.of_eq hcache hcount), ?_, ?_, ?_,
    hbase.imp (hobs.trans <| congrArg _ ·) (hobs.trans <| congrArg _ ·)⟩
  · rcases hbase with rfl | rfl
    · exact hcount
    · exact hcount.trans (getCacheContext_cacheEvents saved).2
  · intro c hc
    rcases hbase with rfl | rfl
    · exact hcache.trans hc
    · rw [hcache, getCacheContext_eq hc, hc]
  · intro hsome
    rcases hbase with rfl | rfl
    · cases hbase : base.cache with
      | none =>
        exact absurd (Observation.recorded_withCache hin.recorded hbase none 0).1 hsome
      | some c => rw [hcache, getCacheContext_eq hbase]
    · exact hcache

/-! ## Steps -/

theorem handleEvent_follows (hs : Sound env s) (event : Event) :
    Follows env Set.univ s (s.handleEvent env codec event).2 := by
  unfold handleEvent
  split
  · unfold applyBankEvent
    split
    · exact hs.follows
    · split
      · exact hs.follows
      · split
        · exact hs.follows
        · exact subBalance_follows hs _ _
  · split
    · unfold applyBankEvent
      split
      · exact hs.follows
      · split
        · exact hs.follows
        · split
          · exact hs.follows
          · exact addBalance_follows hs _ _
    · exact hs.follows

theorem handleEvents_follows (hs : Sound env s) (idx : Nat) (events : List Event) :
    Follows env Set.univ s (s.handleEvents env codec idx events).2 := by
  induction events generalizing s idx with
  | nil => exact hs.follows
  | cons event rest ih =>
    have hone : Follows env Set.univ s (s.handleEvent env codec event).2 :=
      handleEvent_follows hs event
    unfold handleEvents
    split
    · exact ih hs (idx + 1)
    · generalize s.handleEvent env codec event = res at hone
      obtain ⟨err, s'⟩ := res
      cases err with
      | some err => exact hone
      | none => exact hone.trans (ih (hone.sound hs) (idx + 1))

/-- Journaled changes keep every call open. -/
theorem Framed.follows (h : Framed env n stack s) (hf : Follows env Set.univ s t) :
    Framed env n stack t :=
  h.inside (h.valid.inside.follows hf) (h.counted.of_eq hf.cache.1 hf.cache.2)

/-- Writes above the layer of a precompile call keep every call open. -/
theorem Framed.above (h : Framed env n (.native prev :: rest) s) {c k : CacheContext K V Event}
    (hc : s.cache = some c) (hk : c.Above k) {processed : Nat}
    (hcount : processed = s.processedEventsCount ∨ processed = k.events.length) :
    Framed env n (.native prev :: rest)
      { s with cache := some k, processedEventsCount := processed } := by
  obtain ⟨hcounted, hprev, base, hrest, hcalled⟩ := h
  have hevents : s.cacheEvents = c.events := by
    rw [cacheEvents, hc]
  have hlen := hk.events.length_le
  refine ⟨?_, ?_, base, hrest, hcalled.above hrest.valid hc hk processed⟩
  · unfold Counted at hcounted ⊢
    rw [hevents] at hcounted
    change processed ≤ max n k.events.length
    rcases hcount with rfl | rfl <;> omega
  · intro j hj
    have hle := hprev j hj
    rw [hevents] at hle
    exact Nat.le_trans hle hlen

/-- A computation gives what `P` says, or panics for something other than a snapshot
index. -/
abbrev Safe {α : Type*} (P : α → Prop) : Except Panic α → Prop :=
  Ends P fun p => ∀ i, p ≠ .snapshotOutOfBound i

theorem safe_putAll (ws : List (String × K × Option V)) : Safe (fun _ => True) (c.putAll ws) := by
  induction ws generalizing c with
  | nil => trivial
  | cons w rest ih =>
    have hput : Safe (fun _ => True) (c.put w) := by
      unfold CacheContext.put
      split
      · exact fun i => nofun
      · trivial
    exact hput.bind fun next _ => ih next

theorem safe_apply (e : Effects K V Event) : Safe (fun k => c.apply e = .ok k) (c.apply e) := by
  have hput : Safe (fun _ => True) (c.apply e) := (safe_putAll c e.writes).map fun _ _ => trivial
  cases hres : c.apply e with
  | ok k => rfl
  | error p =>
    rw [hres] at hput
    exact hput

/-- There is a cache context inside a precompile call. -/
theorem Framed.exists_cache (h : Framed env n (.native prev :: rest) s) :
    ∃ c, s.cache = some c ∧ WellFormed c.multiStore := by
  obtain ⟨c, hc⟩ : ∃ c, s.cache = some c := by
    obtain ⟨-, -, base, -, hcalled⟩ := h
    exact ne_none_iff_exists'.mp hcalled.cache
  exact ⟨c, hc, h.valid.good.cache c hc⟩

/-- The handler runs over the events of the cache context. -/
theorem afterBalanceChange_cases {prev : Nat} (h : s.afterBalanceChange env codec prev = .ok res) :
    ∃ c, s.cache = some c ∧ res = s.handleEvents env codec prev (c.events.drop prev) := by
  cases hc : s.cache with
  | none =>
    rw [StateDB.afterBalanceChange, hc] at h
    cases h
  | some c =>
    simp only [StateDB.afterBalanceChange, hc] at h
    split at h
    · cases h
    · exact ⟨c, rfl, (Except.ok.inj h).symm⟩

theorem afterBalanceChange_follows {prev : Nat} (hs : Sound env s)
    (h : s.afterBalanceChange env codec prev = .ok res) : Follows env Set.univ s res.2 := by
  obtain ⟨c, -, rfl⟩ := afterBalanceChange_cases h
  exact handleEvents_follows hs prev _

/-- Native code changes the cache context only. -/
theorem native_cases {t : StateDB K V Event} {e : Effects K V Event} (h : s.native e = .ok t) :
    ∃ c k, s.cache = some c ∧ c.apply e = .ok k ∧ t = { s with cache := some k } := by
  cases hc : s.cache with
  | none =>
    rw [StateDB.native, hc] at h
    cases h
  | some c =>
    simp only [StateDB.native, hc] at h
    obtain ⟨k, hk, h⟩ := Outcomes.bind_eq_ok.mp h
    exact ⟨c, k, rfl, hk, (Except.ok.inj h).symm⟩

/-- The balance handler keeps every call open. -/
theorem Framed.afterBalanceChange {prev : Nat} (h : Framed env n (.native (some prev) :: rest) s) :
    Safe (fun p => Framed env n rest p.2) (s.afterBalanceChange env codec prev) := by
  unfold StateDB.afterBalanceChange
  split
  · exact fun i => nofun
  · split
    · exact fun i => nofun
    · exact h.tail.follows (handleEvents_follows h.valid.toSound _ _)

variable [DecidableEq K]

omit [TransOrd K] in
theorem safe_commitAll (env : Env K V Event) (s : StateDB K V Event) (addrs : List Address)
    (r : Reads K V) : Safe (fun _ => True) (s.commitAll env addrs r) := by
  induction addrs generalizing r with
  | nil => trivial
  | cons a rest ih =>
    unfold commitAll
    split
    · exact fun i => nofun
    · dsimp only
      split
      · trivial
      · exact (ih _).map fun _ _ => trivial

/-- A precompile call begins with its journal entry, and then flushes. -/
theorem beginNative_eq (s : StateDB K V Event) :
    s.beginNative env =
      (s.getCacheContext.multiStoreSnapshot.bind fun p => p.2.addPrecompileFn p.1).bind fun
        | (some err, t) => .ok (some err, t)
        | (none, t) => t.flushToCacheCtx env := by
  unfold StateDB.beginNative
  cases s.getCacheContext.multiStoreSnapshot <;> rfl

variable [LawfulEqOrd K]

/-- A flush inside a precompile call keeps every call open. -/
theorem Framed.flush (h : Framed env n (.native prev :: rest) s) :
    Safe (fun p => Framed env n (.native prev :: rest) p.2) (s.flushToCacheCtx env) := by
  obtain ⟨c, hc, hw⟩ := h.exists_cache
  simp only [flushToCacheCtx, hc]
  refine (safe_commitAll env s s.journal.dirties.keys c.reads).bind fun e _ => ?_
  refine (safe_apply c e).map fun k hk => ?_
  have habove := (CacheContext.apply_above hw hk).1
  split
  · exact h.above hc habove (Or.inl rfl)
  · exact h.above hc habove (Or.inr rfl)

/-- Native writes inside a precompile call keep every call open. -/
theorem Framed.native (h : Framed env n (.native prev :: rest) s) (e : Effects K V Event) :
    Safe (Framed env n (.native prev :: rest)) (s.native e) := by
  obtain ⟨c, hc, hw⟩ := h.exists_cache
  simp only [StateDB.native, hc]
  refine (safe_apply c e).map fun k hk => ?_
  exact h.above hc (CacheContext.apply_above hw hk).1 (Or.inl rfl)

/-- A precompile call begins, with or without an error, as a new open call. -/
theorem Framed.beginNative (h : Framed env n stack s) :
    Safe (fun p => Framed env n (.native none :: stack) p.2) (s.beginNative env) := by
  have hcache := h.getCacheContext
  obtain ⟨c, hc⟩ : ∃ c, s.getCacheContext.cache = some c := by
    unfold StateDB.getCacheContext
    split
    · exact ⟨_, ‹_›⟩
    · exact ⟨_, rfl⟩
  obtain ⟨err, t, hcall, (hcalled : Called env Set.univ s.getCacheContext t), hcount, htc, -, -⟩ :=
    addPrecompileFn_called hcache.valid hc
  have hopen : Framed env n (.native none :: stack) t := by
    refine ⟨?_, nofun, s.getCacheContext, hcache, hcalled⟩
    have hcounted := hcache.counted
    unfold Counted StateDB.cacheEvents at hcounted ⊢
    rw [hcount, htc]
    rw [hc] at hcounted
    exact hcounted
  rw [beginNative_eq, hcall]
  cases err with
  | some message => exact hopen
  | none => exact hopen.flush

end StateDB

namespace Config

open StateDB

variable [TransOrd K] {cfg : Config K V} {n : Nat}

/-- Every open call can be failed. -/
def Open (env : Env K V Event) (n : Nat) (cfg : Config K V) : Prop :=
  Framed env n cfg.stack cfg.db

variable {saved : StateDB K V Event} {rest : List (Frame K V)} {cfg' : Config K V}
variable {action : Action K V}

theorem fail_safe (h : Framed env n (.evm saved :: rest) db) :
    Safe (Open env n) (fail env saved db rest) := by
  obtain ⟨u, hu, hrest, -⟩ := h.revert
  unfold fail
  rw [hu]
  exact hrest

theorem orFail_safe {stack : List (Frame K V)} {p : Option String × StateDB K V Event}
    (h : Framed env n stack p.2) (hevm : Framed env n (.evm saved :: rest) p.2) :
    Safe (Open env n) (orFail env saved rest stack p) := by
  obtain ⟨err, db⟩ := p
  cases err with
  | some message => exact fail_safe hevm
  | none => exact h

theorem init_open (ctx : Context K V Event) (txIndex : Nat) :
    (init ctx txIndex).Open env ctx.events.length :=
  ⟨new_valid env ctx txIndex, Nat.le_max_left _ _, fun _ ha => by simp [init, StateDB.new] at ha⟩

variable [DecidableEq K] [LawfulEqOrd K]

/-- Every step keeps every call open, and does not panic for a snapshot index. -/
theorem step_safe (codec : BankCodec) (h : cfg.Open env n) (action : Action K V) :
    Safe (Open env n) (cfg.step env codec action) := by
  obtain ⟨stack, s⟩ := cfg
  cases action with
  | op o plain =>
    simp only [step]
    split
    · obtain ⟨gas, hs⟩ | hs | ⟨t, hs, hf⟩ :=
        step_follows (Framed.valid h).toSound plain (Op.codeIn_univ o)
      · rw [hs]
        exact fun i => nofun
      · rw [hs]
        exact fun i => nofun
      · rw [hs]
        exact h.follows hf
    · exact h
  | enter =>
    simp only [step]
    split
    · have hin : Inside env Set.univ s s.snapshot.2 := (Framed.valid h).inside.snapshot
      have hcount : Counted n s := Framed.counted h
      exact ⟨hcount, s, Or.inl rfl, h, hin.valid.inside⟩
    · exact h
  | leave =>
    simp only [step]
    split
    · exact h.tail
    · exact h
  | revert depth =>
    simp only [step]
    split
    · rename_i saved rest heq
      refine fail_safe ?_
      rw [← heq]
      exact h.drop depth
    · exact h
  | call handled =>
    simp only [step]
    split
    · rename_i saved rest
      refine h.beginNative.bind ?_
      rintro ⟨err, db⟩ hdb
      cases err with
      | some message => exact fail_safe hdb.tail
      | none =>
        obtain ⟨hcount, -, hbase⟩ := hdb
        refine ⟨hcount, ?_, hbase⟩
        intro k hk
        split at hk
        · exact Nat.le_of_eq (some.inj hk).symm
        · cases hk
    · exact h
  | native e =>
    simp only [step]
    split
    · exact (Framed.native h e).map fun db hdb => hdb
    · exact h
  | apply =>
    simp only [step]
    split
    · exact h
    · exact h
  | applied commit =>
    simp only [step]
    split
    · rename_i prev saved rest
      split
      · exact (Framed.flush h).bind fun p hp => orFail_safe hp hp.tail
      · exact h
    · exact h
  | finish =>
    simp only [step]
    split
    · exact h.tail
    · exact (Framed.afterBalanceChange h).bind fun p hp => orFail_safe hp hp
    · exact h

/-- What a step can do. -/
inductive Stepped (env : Env K V Event) (codec : BankCodec) (cfg : Config K V) :
    Action K V → Config K V → Prop
  /-- The open calls do not allow the action. -/
  | idle {action : Action K V} : Stepped env codec cfg action cfg
  | op {o : Op} {plain : o.Plain} {t : StateDB K V Event} : cfg.evmRuns = true →
      cfg.db.step env o = .ok t → Stepped env codec cfg (.op o plain) { cfg with db := t }
  | enter : cfg.evmRuns = true → Stepped env codec cfg .enter
      { stack := .evm cfg.db :: cfg.stack, db := cfg.db.snapshot.2 }
  | leave {saved : StateDB K V Event} {rest : List (Frame K V)} :
      cfg.stack = .evm saved :: rest → Stepped env codec cfg .leave { cfg with stack := rest }
  /-- An open call fails, and the database is as when it began. -/
  | fail {action : Action K V} {depth : Nat} {saved u : StateDB K V Event}
      {rest : List (Frame K V)} : cfg.stack.drop depth = .evm saved :: rest →
      (u.observe env = saved.observe env ∨ u.observe env = saved.getCacheContext.observe env) →
      Stepped env codec cfg action { stack := rest, db := u }
  | call {handled : Bool} {saved t : StateDB K V Event} {rest : List (Frame K V)} :
      cfg.stack = .evm saved :: rest → cfg.db.beginNative env = .ok (none, t) →
      Stepped env codec cfg (.call handled)
        { stack := .native (if handled then some t.cacheEvents.length else none) :: cfg.stack
          db := t }
  | native {e : Effects K V Event} {prev : Option Nat} {rest : List (Frame K V)}
      {t : StateDB K V Event} : cfg.stack = .native prev :: rest → cfg.db.native e = .ok t →
      Stepped env codec cfg (.native e) { cfg with db := t }
  | apply {prev : Option Nat} {rest : List (Frame K V)} : cfg.stack = .native prev :: rest →
      Stepped env codec cfg .apply { cfg with stack := .message :: cfg.stack }
  | flushed {prev : Option Nat} {saved t : StateDB K V Event} {rest : List (Frame K V)} :
      cfg.stack = .message :: .native prev :: .evm saved :: rest →
      cfg.db.flushToCacheCtx env = .ok (none, t) → Stepped env codec cfg (.applied true)
        { stack := .native prev :: .evm saved :: rest, db := t }
  | kept {prev : Option Nat} {saved : StateDB K V Event} {rest : List (Frame K V)} :
      cfg.stack = .message :: .native prev :: .evm saved :: rest →
      Stepped env codec cfg (.applied false)
        { cfg with stack := .native prev :: .evm saved :: rest }
  | finish {saved : StateDB K V Event} {rest : List (Frame K V)} :
      cfg.stack = .native none :: .evm saved :: rest →
      Stepped env codec cfg .finish { cfg with stack := .evm saved :: rest }
  | handled {prev : Nat} {saved t : StateDB K V Event} {rest : List (Frame K V)} :
      cfg.stack = .native (some prev) :: .evm saved :: rest →
      cfg.db.afterBalanceChange env codec prev = .ok (none, t) →
      Stepped env codec cfg .finish { stack := .evm saved :: rest, db := t }

omit [LawfulEqOrd K] in
theorem stepped_fail (depth : Nat) (hstack : cfg.stack.drop depth = .evm saved :: rest)
    (hopen : Framed env n (.evm saved :: rest) db) (h : fail env saved db rest = .ok cfg') :
    Stepped env codec cfg action cfg' := by
  obtain ⟨u, hu, -, -, -, -, hobs⟩ := hopen.revert
  rw [fail, hu] at h
  cases h
  exact .fail hstack hobs

theorem stepped_of_step (hopen : cfg.Open env n) (h : cfg.step env codec action = .ok cfg') :
    Stepped env codec cfg action cfg' := by
  obtain ⟨stack, s⟩ := cfg
  cases action with
  | op o plain =>
    simp only [step] at h
    split at h
    · rename_i hruns
      obtain ⟨t, hs, rfl⟩ := Outcomes.map_eq_ok.mp h
      exact .op hruns hs
    · cases h
      exact .idle
  | enter =>
    simp only [step] at h
    split at h
    · rename_i hruns
      cases h
      exact .enter hruns
    · cases h
      exact .idle
  | leave =>
    simp only [step] at h
    split at h
    · cases h
      exact .leave rfl
    · cases h
      exact .idle
  | revert depth =>
    simp only [step] at h
    split at h
    · rename_i saved rest heq
      have hframed := hopen.drop depth
      rw [heq] at hframed
      exact stepped_fail depth heq hframed h
    · cases h
      exact .idle
  | call handled =>
    simp only [step] at h
    split at h
    · rename_i saved rest
      have hbegin := hopen.beginNative
      cases hres : s.beginNative env with
      | error p =>
        rw [hres] at h
        cases h
      | ok res =>
        obtain ⟨err, db⟩ := res
        rw [hres] at h hbegin
        cases err with
        | some message => exact stepped_fail 0 rfl (Framed.tail hbegin) h
        | none =>
          cases h
          exact .call rfl hres
    · cases h
      exact .idle
  | native e =>
    simp only [step] at h
    split at h
    · obtain ⟨db, hres, rfl⟩ := Outcomes.map_eq_ok.mp h
      exact .native rfl hres
    · cases h
      exact .idle
  | apply =>
    simp only [step] at h
    split at h
    · cases h
      exact .apply rfl
    · cases h
      exact .idle
  | applied commit =>
    simp only [step] at h
    split at h
    · rename_i prev saved rest
      cases commit with
      | false =>
        cases h
        exact .kept rfl
      | true =>
        have hflush := Framed.flush hopen
        cases hres : s.flushToCacheCtx env with
        | error p =>
          simp only [hres, if_true] at h
          cases h
        | ok res =>
          obtain ⟨err, db⟩ := res
          simp only [hres, if_true] at h
          rw [hres] at hflush
          cases err with
          | some message =>
            exact stepped_fail 2 rfl (Framed.tail hflush) h
          | none =>
            cases h
            exact .flushed rfl hres
    · cases h
      exact .idle
  | finish =>
    simp only [step] at h
    split at h
    · cases h
      exact .finish rfl
    · rename_i prev saved rest
      have hafter : Safe _ (s.afterBalanceChange env codec prev) := Framed.afterBalanceChange hopen
      cases hres : s.afterBalanceChange env codec prev with
      | error p =>
        rw [hres] at h
        cases h
      | ok res =>
        obtain ⟨err, db⟩ := res
        rw [hres] at h hafter
        cases err with
        | some message => exact stepped_fail 1 rfl hafter h
        | none =>
          cases h
          exact .handled rfl hres
    · cases h
      exact .idle

/-- A property holds of the database and of those that open calls began with. -/
structure Holds (P : StateDB K V Event → Prop) (cfg : Config K V) : Prop where
  db : P cfg.db
  saved : ∀ saved, .evm saved ∈ cfg.stack → P saved

/-- A property of what is observed is kept by a step if the operations, flushes, native code
and handlers keep it that the step may take. -/
theorem step_holds {P : StateDB K V Event → Prop} {n : Nat}
    (hobs : ∀ s t : StateDB K V Event, t.observe env = s.observe env → P s → P t)
    (hcache : ∀ s, P s → P s.getCacheContext)
    (hop : ∀ o plain t, action = .op o plain → cfg.db.step env o = .ok t →
      Follows env Set.univ cfg.db t → P t)
    (hcall : ∀ handled t, action = .call handled → cfg.db.beginNative env = .ok (none, t) → P t)
    (hnative : ∀ e t, action = .native e → cfg.db.native e = .ok t → P t)
    (hflush : ∀ t, action = .applied true → cfg.db.flushToCacheCtx env = .ok (none, t) → P t)
    (hafter : ∀ prev t, cfg.db.afterBalanceChange env codec prev = .ok (none, t) →
      Follows env Set.univ cfg.db t → P t)
    (hopen : cfg.Open env n) (hcfg : cfg.Holds P) (h : cfg.step env codec action = .ok cfg') :
    cfg'.Holds P := by
  have hsound : Sound env cfg.db := (Framed.valid hopen).toSound
  replace h := stepped_of_step hopen h
  obtain ⟨stack, s⟩ := cfg
  obtain ⟨hdb, hsaved⟩ := hcfg
  have hpushed : ∀ {f : Frame K V}, (∀ saved, f ≠ .evm saved) →
      ∀ saved, .evm saved ∈ f :: stack → P saved := by
    intro f hf saved hmem
    rcases mem_cons.mp hmem with heq | hmem
    · exact absurd heq.symm (hf saved)
    · exact hsaved saved hmem
  cases h with
  | idle => exact ⟨hdb, hsaved⟩
  | @op o plain t hruns hs => exact ⟨hop _ _ _ rfl hs (step_follows_of_ok hsound plain hs), hsaved⟩
  | enter =>
    refine ⟨hobs s _ rfl hdb, fun saved hmem => ?_⟩
    rcases mem_cons.mp hmem with heq | hmem
    · obtain rfl := Frame.evm.inj heq
      exact hdb
    · exact hsaved saved hmem
  | leave hstack | kept hstack | finish hstack =>
    obtain rfl : stack = _ := hstack
    exact ⟨hdb, fun saved hmem => hsaved saved (mem_cons_of_mem _ hmem)⟩
  | @fail _ depth saved u rest hstack hu =>
    have hmem : ∀ f ∈ Frame.evm saved :: rest, f ∈ stack := by
      intro f hf
      rw [← show stack.drop depth = _ from hstack] at hf
      exact mem_of_mem_drop hf
    have hbegan := hsaved saved (hmem _ mem_cons_self)
    refine ⟨?_, fun saved hrest => hsaved saved (hmem _ (mem_cons_of_mem _ hrest))⟩
    rcases hu with hu | hu
    · exact hobs _ _ hu hbegan
    · exact hobs _ _ hu (hcache _ hbegan)
  | call hstack hres => exact ⟨hcall _ _ rfl hres, hpushed fun saved => nofun⟩
  | native hstack hres => exact ⟨hnative _ _ rfl hres, hsaved⟩
  | apply hstack => exact ⟨hdb, hpushed fun saved => nofun⟩
  | flushed hstack hres =>
    obtain rfl : stack = _ := hstack
    exact ⟨hflush _ rfl hres, fun saved hmem => hsaved saved (mem_cons_of_mem _ hmem)⟩
  | handled hstack hres =>
    obtain rfl : stack = _ := hstack
    exact ⟨hafter _ _ hres (afterBalanceChange_follows hsound hres),
      fun saved hmem => hsaved saved (mem_cons_of_mem _ hmem)⟩

theorem run_open {ctx : Context K V Event} {txIndex : Nat} {actions : List (Action K V)}
    (h : (init ctx txIndex).run env codec actions = some cfg) : cfg.Open env ctx.events.length := by
  refine Runs.run_invariant (Open env ctx.events.length) (fun _ => True) ?_ (fun _ _ => trivial)
    (init_open ctx txIndex) h
  intro c action c' _ hc hstep
  have hsafe := step_safe codec hc action
  cases hres : c.step env codec action with
  | error p =>
    rw [hres] at hstep
    cases hstep
  | ok next =>
    rw [hres] at hstep hsafe
    cases hstep
    exact hsafe

theorem Open.not_outOfBound (h : cfg.Open env n) (action : Action K V) (i : Int) :
    cfg.step env codec action ≠ .error (.snapshotOutOfBound i) := by
  intro hstep
  have hsafe := step_safe codec h action
  rw [hstep] at hsafe
  exact hsafe i rfl

/-- On a context with events, failing the first precompile call leaves the cache context
without events and counts those of the context. -/
theorem run_failed_call (env : Env K V Event) (codec : BankCodec) (ctx : Context K V Event)
    (txIndex : Nat) :
    ∃ cfg : Config K V, (init ctx txIndex).run env codec [.enter, .call false, .revert 1] =
        some cfg ∧ cfg.db.processedEventsCount = ctx.events.length ∧
      ∃ c, cfg.db.cache = some c ∧ c.events = [] := by
  let saved := StateDB.new (E := Event) ctx txIndex
  obtain ⟨db, hdb⟩ : ∃ db, saved.snapshot.2.beginNative env = .ok (none, db) := ⟨_, rfl⟩
  have hevm : Framed env ctx.events.length [.evm saved] saved.snapshot.2 :=
    step_safe codec (init_open ctx txIndex) .enter
  have hcall := hevm.beginNative
  rw [hdb] at hcall
  have hcache : db.cache ≠ none := by
    obtain ⟨-, -, base, -, hcalled⟩ := hcall
    exact hcalled.cache
  obtain ⟨u, hu, -, hcount, -, hctx, -⟩ := hcall.tail.revert
  have henter : (init ctx txIndex).step env codec .enter =
      .ok { stack := [.evm saved], db := saved.snapshot.2 } := rfl
  have hbegin : Config.step env codec { stack := [.evm saved], db := saved.snapshot.2 }
      (.call false) = .ok { stack := [.native none, .evm saved], db := db } := by
    simp only [step, hdb]
    rfl
  have hfail : Config.step env codec { stack := [.native none, .evm saved], db := db }
      (.revert 1) = .ok { stack := [], db := u } := by
    simp only [step, drop_succ_cons, drop_zero, fail, hu]
    rfl
  refine ⟨{ stack := [], db := u }, ?_, hcount, newCacheContext ctx, hctx hcache, rfl⟩
  simp only [run, Runs.run_cons, Runs.run_nil, henter, hbegin, hfail, Except.toOption, Option.bind]

/-- Failing an open call restores what it found, and never panics for a snapshot index;
the processed events stay within those of the cache context in every run exactly when
the database was made on a context without events. -/
theorem revert_restores_cache_iff (env : Env K V Event) (codec : BankCodec)
    (ctx : Context K V Event) (txIndex : Nat) :
    (∀ actions cfg, (init ctx txIndex).run env codec actions = some cfg →
      (∀ action i, cfg.step env codec action ≠ .error (.snapshotOutOfBound i)) ∧
      ∀ depth saved rest, cfg.stack.drop depth = .evm saved :: rest →
        ∃ u, cfg.db.revertToSnapshot env saved.snapshot.1 = .ok u ∧
          u.processedEventsCount = saved.processedEventsCount ∧
          ∀ c, saved.cache = some c → u.cache = some c) ∧
    ((∀ actions cfg, (init ctx txIndex).run env codec actions = some cfg →
      ∀ c, cfg.db.cache = some c → cfg.db.processedEventsCount ≤ c.events.length) ↔
      ctx.events = []) := by
  refine ⟨?_, ?_, ?_⟩
  · intro actions cfg hrun
    have hopen := run_open hrun
    refine ⟨fun action i => hopen.not_outOfBound action i, ?_⟩
    intro depth saved rest hdrop
    have hframe := Framed.drop hopen depth
    rw [hdrop] at hframe
    obtain ⟨u, hu, -, hcount, hcache, -⟩ := hframe.revert
    exact ⟨u, hu, hcount, hcache⟩
  · intro hall
    obtain ⟨cfg, hrun, hcount, c, hc, hevents⟩ := run_failed_call env codec ctx txIndex
    have hle := hall _ cfg hrun c hc
    rw [hcount, hevents] at hle
    exact eq_nil_of_length_eq_zero (Nat.le_zero.mp hle)
  · intro hnil actions cfg hrun c hc
    have hcounted := Framed.counted (run_open hrun)
    unfold Counted StateDB.cacheEvents at hcounted
    rw [hnil, hc] at hcounted
    exact hcounted.trans (Nat.max_eq_right (Nat.zero_le _)).le

/-- The database is made on a context with one event. A call runs a precompile and
fails: one event is counted, and the cache context has none. -/
theorem failed_call_counts_event :
    ((init (⟨∅, [⟨"message", []⟩]⟩ : Context Nat Nat Event) 0).run Env.empty
      (.ofTables .eighteen [] []) [.enter, .call true, .revert 1]).map
        (fun cfg => (cfg.db.processedEventsCount, cfg.db.cache.map fun c => c.events.length)) =
      some (1, some 0) := by
  decide +kernel

/-- The cache context when an EVM call took its snapshot. -/
def savedCache : Frame Nat Nat → Option (CacheContext Nat Nat Event)
  | .evm saved => saved.cache
  | _ => none

/-- A context with one entry. -/
def oneEntry : Context Nat Nat Event where
  stores := (∅ : FMap String (FMap Nat Nat)).insert "bank" ((∅ : FMap Nat Nat).insert 1 10)
  events := []

/-- Native code applies a message, which calls a precompile that writes to the store. -/
def nestedWrite : List (Action Nat Nat) :=
  [.enter, .call true, .apply, .enter, .call false,
    .native ⟨[("bank", 1, some 20)], [⟨"transfer", []⟩], none⟩]

theorem revert_restores_cache_iff_nested :
    ∃ (cfg : Config Nat Nat) (saved u : StateDB Nat Nat Event),
      (init oneEntry 0).run Env.empty (.ofTables .eighteen [] []) nestedWrite = some cfg ∧
      cfg.db.cache.map (fun c => (c.reads "bank" 1, c.events.length)) = some (some 20, 1) ∧
      saved.cache.map (fun c => (c.reads "bank" 1, c.events.length)) = some (some 10, 0) ∧
      cfg.db.revertToSnapshot Env.empty saved.snapshot.1 = .ok u ∧ u.cache = saved.cache ∧
      ∀ c, cfg.db.cache = some c → cfg.db.processedEventsCount ≤ c.events.length := by
  have hrun : ((init oneEntry 0).run Env.empty (.ofTables .eighteen [] []) nestedWrite).map
      (fun cfg => (cfg.db.cache.map fun c => (c.reads "bank" 1, c.events.length),
        ((cfg.stack.drop 1).head?.bind savedCache).map fun c =>
          (c.reads "bank" 1, c.events.length))) =
        some (some (some 20, 1), some (some 10, 0)) := by
    decide +kernel
  obtain ⟨cfg, hcfg, hmap⟩ := map_eq_some_iff.mp hrun
  obtain ⟨hwritten, hsaved⟩ := Prod.mk.inj hmap
  obtain ⟨c, hc, hvalues⟩ := map_eq_some_iff.mp hsaved
  obtain ⟨frame, hhead, hframe⟩ := bind_eq_some_iff.mp hc
  obtain ⟨rest, hdrop⟩ := head?_eq_some_iff.mp hhead
  cases frame with
  | evm saved =>
    have hcached : saved.cache = some c := hframe
    obtain ⟨hrestores, hcount⟩ := revert_restores_cache_iff (Env.empty : Env Nat Nat Event)
      (.ofTables .eighteen [] []) oneEntry 0
    obtain ⟨u, hu, -, hcache⟩ := (hrestores _ cfg hcfg).2 1 saved rest hdrop
    refine ⟨cfg, saved, u, hcfg, hwritten, ?_, hu, (hcache c hcached).trans hcached.symm,
      hcount.mpr rfl _ cfg hcfg⟩
    rw [hcached, map_some, hvalues]
  | _ => cases hframe

end Config

end InfiniteEvm
