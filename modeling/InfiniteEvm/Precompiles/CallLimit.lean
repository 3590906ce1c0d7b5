import InfiniteEvm.Precompiles.Balances
import InfiniteEvm.Precompiles.Numbering

/-!
# The limit of precompile calls

`AddPrecompileFn` counts every attempt in 8 bits, also those that it refuses, and nothing
else changes the count, not even a revert. It therefore accepts the first 20 attempts,
refuses the next 235, and accepts again when the count has wrapped around.
-/

namespace InfiniteEvm

open Std Library SnapshotMulti UndoLog Outcomes List

variable {K V : Type*} [Ord K] [TransOrd K] [LawfulEqOrd K] [DecidableEq K]

/-! ## Counting -/

namespace StateDB

variable (s : StateDB K V Event)

/-- The call of `AddPrecompileFn` in `runNativeAction`. -/
def countCall : Except Panic (Option String × StateDB K V Event) :=
  s.getCacheContext.multiStoreSnapshot.bind fun (snapshot, s) => s.addPrecompileFn snapshot

theorem addPrecompileFn_spec {c : CacheContext K V Event} (hc : s.cache = some c)
    (snapshot : Int) : ∃ err u, s.addPrecompileFn snapshot = .ok (err, u) ∧
      u.precompileCallsCounter = s.precompileCallsCounter + 1 ∧
      (err.isNone ↔ s.precompileCallsCounter + 1 ≤ maxPrecompileCalls) := by
  simp only [addPrecompileFn, hc, append]
  split
  · rename_i hlimit
    exact ⟨_, _, rfl, rfl, by simpa using hlimit⟩
  · rename_i hlimit
    exact ⟨_, _, rfl, rfl, by simpa using hlimit⟩

/-- The call is counted, and accepted unless the count is then above the limit. -/
theorem countCall_spec : ∃ err u, s.countCall = .ok (err, u) ∧
    u.precompileCallsCounter = s.precompileCallsCounter + 1 ∧
    (err.isNone ↔ s.precompileCallsCounter + 1 ≤ maxPrecompileCalls) := by
  unfold countCall getCacheContext
  cases hcache : s.cache with
  | some c =>
    simp only [multiStoreSnapshot, hcache]
    exact addPrecompileFn_spec
      { s with cache := some { c with multiStore := (SnapshotMulti.snapshot c.multiStore).1 } }
      rfl (SnapshotMulti.snapshot c.multiStore).2
  | none =>
    let c := newCacheContext s.ctx
    exact addPrecompileFn_spec
      { s with cache := some { c with multiStore := (SnapshotMulti.snapshot c.multiStore).1 } }
      rfl (SnapshotMulti.snapshot c.multiStore).2

end StateDB

/-! ## Attempts in a run -/

namespace Config

open StateDB

variable (env : Env K V Event) (codec : BankCodec) (cfg : Config K V) {cfg' : Config K V}

/-- Whether `AddPrecompileFn` returns nil, if the action reaches it. -/
def attempt : Action K V → Option Bool
  | .call _ =>
    match cfg.stack with
    | .evm _ :: _ => cfg.db.countCall.toOption.map fun p => p.1.isNone
    | _ => none
  | _ => none

/-- What `AddPrecompileFn` returns in a run, up to its end or a panic. -/
def outcomes (cfg : Config K V) : List (Action K V) → List Bool
  | [] => []
  | action :: rest => (cfg.attempt action).toList ++
      match cfg.step env codec action with
      | .error _ => []
      | .ok cfg => outcomes cfg rest

variable {action : Action K V} {accepted : Bool}

theorem attempt_call (h : cfg.attempt action = some accepted) : ∃ handled saved rest err u,
      action = .call handled ∧ cfg.stack = .evm saved :: rest ∧
      cfg.db.countCall = .ok (err, u) ∧ accepted = err.isNone ∧
      u.precompileCallsCounter = cfg.db.precompileCallsCounter + 1 ∧
      (err.isNone ↔ cfg.db.precompileCallsCounter + 1 ≤ maxPrecompileCalls) := by
  cases action with
  | call handled =>
    simp only [attempt] at h
    split at h
    · rename_i saved rest hstack
      obtain ⟨err, u, hcount, hcounter, haccepted⟩ := countCall_spec cfg.db
      rw [hcount] at h
      exact ⟨handled, saved, rest, err, u, rfl, hstack, hcount, (Option.some.inj h).symm,
        hcounter, haccepted⟩
    · cases h
  | _ => cases h

/-- An attempt is accepted as long as the count is not above the limit. -/
theorem attempt_accepted (h : cfg.attempt action = some accepted) :
    accepted ↔ cfg.db.precompileCallsCounter + 1 ≤ maxPrecompileCalls := by
  obtain ⟨-, -, -, err, -, -, -, -, rfl, -, haccepted⟩ := attempt_call cfg h
  exact haccepted

/-- An attempt is counted, also if its call then fails. -/
theorem step_attempt (hattempt : cfg.attempt action = some accepted)
    (h : cfg.step env codec action = .ok cfg') :
    cfg'.db.precompileCallsCounter = cfg.db.precompileCallsCounter + 1 := by
  obtain ⟨handled, saved, rest, -, -, rfl, hstack, -⟩ := attempt_call cfg hattempt
  exact (step_call_moved env codec cfg hstack h).counter

/-- Nothing else changes the count. -/
theorem step_no_attempt (hattempt : cfg.attempt action = none)
    (h : cfg.step env codec action = .ok cfg') :
    cfg'.db.precompileCallsCounter = cfg.db.precompileCallsCounter := by
  refine (step_moved env codec cfg ?_ h).counter
  rintro handled saved rest rfl hstack
  obtain ⟨err, u, hcount, -⟩ := countCall_spec cfg.db
  simp only [attempt, hstack, hcount] at hattempt
  cases hattempt

/-- What `AddPrecompileFn` returns on its `i`-th call. -/
def accepts (i : Nat) : Bool := i % 256 ≤ 20

theorem accepts_iff (n : Nat) : accepts (n + 1) ↔ BitVec.ofNat 8 n + 1 ≤ maxPrecompileCalls := by
  simp [accepts, maxPrecompileCalls, BitVec.le_def]

/-- The answers of a run are those of the attempts numbered from its start on. -/
theorem outcomes_eq (actions : List (Action K V)) {n : Nat}
    (hn : cfg.db.precompileCallsCounter = BitVec.ofNat 8 n) :
    cfg.outcomes env codec actions =
      (range' (n + 1) (cfg.outcomes env codec actions).length).map accepts := by
  induction actions generalizing cfg n with
  | nil => rfl
  | cons action rest ih =>
    unfold outcomes
    cases hattempt : cfg.attempt action with
    | none =>
      cases hstep : cfg.step env codec action with
      | error p => rfl
      | ok cfg' =>
        apply ih cfg'
        rw [step_no_attempt env codec cfg hattempt hstep, hn]
    | some accepted =>
      have hhead : accepted = accepts (n + 1) := by
        rw [Bool.eq_iff_iff, accepts_iff, ← hn]
        exact attempt_accepted cfg hattempt
      simp only [Option.toList_some, singleton_append, length_cons,
        range'_succ, map_cons, cons.injEq]
      refine ⟨hhead, ?_⟩
      cases hstep : cfg.step env codec action with
      | error p => rfl
      | ok cfg' =>
        apply ih cfg'
        rw [step_attempt env codec cfg hattempt hstep, hn, BitVec.ofNat_add]
        rfl

/-- `AddPrecompileFn` returns nil no more often than the limit says in exactly the runs
with at most 255 attempts. -/
theorem accepted_le_iff (ctx : Context K V Event) (txIndex : Nat) (actions : List (Action K V)) :
    ((init ctx txIndex).outcomes env codec actions).count true ≤ maxPrecompileCalls.toNat ↔
      ((init ctx txIndex).outcomes env codec actions).length ≤ 255 := by
  have heq := outcomes_eq env codec (init ctx txIndex) actions (n := 0) rfl
  generalize (init ctx txIndex).outcomes env codec actions = answers at heq ⊢
  have hcount : answers.count true = (range' 1 answers.length).countP accepts := by
    rw [heq, count, countP_map, length_map, length_range']
    congr 1
    ext i
    simp
  rw [hcount]
  have hmono : ∀ {m n : Nat}, m ≤ n →
      (range' 1 m).countP accepts ≤ (range' 1 n).countP accepts := by
    intro m n hmn
    apply Sublist.countP_le
    exact range'_sublist_right.mpr hmn
  have hlimit : (range' 1 255).countP accepts = maxPrecompileCalls.toNat := by
    decide +kernel
  have hwrapped : (range' 1 256).countP accepts = maxPrecompileCalls.toNat + 1 := by
    decide +kernel
  constructor
  · by_contra hlong
    have hmore := hmono (show 256 ≤ answers.length by omega)
    omega
  · intro hshort
    exact (hmono hshort).trans_eq hlimit

/-- A contract calls a precompile in calls of their own. -/
def repeatedCalls (n : Nat) : List (Action K V) :=
  (replicate n [.enter, .call false, .finish, .leave]).flatten

theorem accepted_le_iff_thirty :
    ((init (VM.smallContext) 0).outcomes (VM.smallKeeper).env smallCodec
      (repeatedCalls 30)).count true ≤ maxPrecompileCalls.toNat :=
  (accepted_le_iff _ smallCodec _ 0 (repeatedCalls 30)).mpr (by decide +kernel)

/-- With the 256th attempt the count is zero again, and the call is the 21st accepted. -/
theorem twenty_one_accepted :
    ((init (VM.smallContext) 0).outcomes (VM.smallKeeper).env smallCodec
      (repeatedCalls 256)).count true = 21 := by
  decide +kernel

end Config

end InfiniteEvm
