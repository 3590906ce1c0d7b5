import InfiniteEvm.Mempool.Scheduler

/-!
# Stores of a height

`HeightSync` holds one store per height. A run of the reorg loop or of the recheck loop starts
a height and ends it, while callers of `GetStore` wait for the height and for its end. The
calls of a run and the steps of the callers are interleaved in any order; one run follows
another, as the loops schedule them.
-/

namespace InfiniteEvm.Mempool

open Library Runs List Option

/-! ## `HeightSync` -/

/-- `HeightSync`. Stores and channels are numbered as they are made; the height for which a
store was made is kept with it. -/
structure HeightSync where
  currentHeight : Int
  store : Nat
  heightChanged : Chan
  done : Chan
  closed : List Chan
  made : Nat
  created : List Int

variable {height : Int}

namespace HeightSync

variable (hs : HeightSync)

/-- `isHeightEnded`. -/
def isHeightEnded : Bool := hs.done ∈ hs.closed

/-- `StartNewHeight`. -/
def startNewHeight (height : Int) : Except String HeightSync :=
  if !hs.isHeightEnded then
    .error ("height " ++ toString hs.currentHeight ++ " not ended before starting new height " ++
      toString height)
  else .ok {
    currentHeight := height
    store := hs.created.length
    heightChanged := hs.made
    done := hs.made + 1
    closed := hs.closed ++ [hs.heightChanged]
    made := hs.made + 2
    created := hs.created ++ [height] }

/-- `EndCurrentHeight`. -/
def endCurrentHeight : Except String HeightSync :=
  if hs.isHeightEnded then .error ("height " ++ toString hs.currentHeight ++ " already ended")
  else .ok { hs with closed := hs.closed ++ [hs.done] }

/-- The channels were made before. -/
structure WellFormed : Prop where
  done : hs.done < hs.made
  heightChanged : hs.heightChanged < hs.made
  closed : ∀ c ∈ hs.closed, c < hs.made

variable {hs} {hs' : HeightSync}

theorem startNewHeight_eq_ok :
    hs.startNewHeight height = .ok hs' ↔ hs.isHeightEnded = true ∧ hs' = {
      currentHeight := height
      store := hs.created.length
      heightChanged := hs.made
      done := hs.made + 1
      closed := hs.closed ++ [hs.heightChanged]
      made := hs.made + 2
      created := hs.created ++ [height] } := by
  unfold startNewHeight
  cases hs.isHeightEnded with
  | false => simp
  | true => simp [eq_comm]

theorem endCurrentHeight_eq_ok : hs.endCurrentHeight = .ok hs' ↔
    hs.isHeightEnded = false ∧ hs' = { hs with closed := hs.closed ++ [hs.done] } := by
  unfold endCurrentHeight
  cases hs.isHeightEnded with
  | false => simp [eq_comm]
  | true => simp

/-- A new height is not ended. -/
theorem WellFormed.startNewHeight (h : hs.WellFormed) (hok : hs.startNewHeight height = .ok hs') :
    hs'.WellFormed ∧ hs'.isHeightEnded = false := by
  obtain ⟨-, rfl⟩ := startNewHeight_eq_ok.mp hok
  obtain ⟨hdone, hchanged, hclosed⟩ := h
  have hlt : ∀ c ∈ hs.closed ++ [hs.heightChanged], c < hs.made := by
    intro c hc
    rcases mem_append.mp hc with hc | hc
    · exact hclosed c hc
    · exact mem_singleton.mp hc ▸ hchanged
  refine ⟨⟨Nat.lt_succ_self _, Nat.lt_add_of_pos_right (by decide), fun c hc => ?_⟩, ?_⟩
  · exact Nat.lt_trans (hlt c hc) (Nat.lt_add_of_pos_right (by decide))
  · rw [isHeightEnded, decide_eq_false_iff_not]
    exact fun hmem => absurd (hlt _ hmem) (Nat.not_lt.mpr (Nat.le_succ _))

theorem WellFormed.endCurrentHeight (h : hs.WellFormed) (hok : hs.endCurrentHeight = .ok hs') :
    hs'.WellFormed ∧ hs'.isHeightEnded = true := by
  obtain ⟨-, rfl⟩ := endCurrentHeight_eq_ok.mp hok
  refine ⟨⟨h.done, h.heightChanged, fun c hc => ?_⟩, ?_⟩
  · rcases mem_append.mp hc with hc | hc
    · exact h.closed c hc
    · exact mem_singleton.mp hc ▸ h.done
  · rw [isHeightEnded, decide_eq_true_iff]
    exact mem_append_right _ (mem_singleton.mpr rfl)

/-- `New`: the first height is ended at once. -/
def new (startHeight : Int) : HeightSync where
  currentHeight := startHeight
  store := 0
  heightChanged := 0
  done := 1
  closed := [1]
  made := 2
  created := [startHeight]

end HeightSync

/-- Where a call of `GetStore` stands. -/
inductive Reader
  | looking (height : Int)
  /-- The height is reached, and its end is waited for. -/
  | reached (height : Int) (value : Nat) (done : Chan)
  /-- The height is not reached. -/
  | behind (height : Int) (heightChanged : Chan)
  | returned (height : Int) (value : Option Nat)
  /-- The height is in the past. -/
  | panicked (height : Int)

/-- An iteration of the loop of `GetStore`. -/
def HeightSync.look (hs : HeightSync) (height : Int) : Reader :=
  if height < hs.currentHeight then .panicked height
  else if hs.currentHeight = height then
    -- at genesis, no completion signal will arrive
    if hs.currentHeight = 0 then .returned height (some hs.store)
    else .reached height hs.store hs.done
  else .behind height hs.heightChanged

/-! ## Runs of the two loops -/

/-- A call to a `HeightSync`, or the end of the process. -/
inductive SyncCall
  | startNewHeight (height : Int)
  | endCurrentHeight
  | crash (text : String)

def SyncCall.isStart : SyncCall → Bool
  | .startNewHeight _ => true
  | _ => false

/-- A request to reset, with what the chain answers. -/
structure ResetRun where
  newHead : Option Int
  currentBlock : Int
  stateAt : Except String Unit
  latestContext : Except String Unit

/-- How a recheck ends. -/
inductive RecheckOutcome
  | noContext
  | cancelled
  | cancelledBeforeRemoval
  | completed

/-- A run of one of the loops. -/
inductive SyncRun
  /-- `runReorg`, whose promotions and demotions may be cut short. -/
  | reorg (reset : Option ResetRun)
  | recheck (head : Int) (outcome : RecheckOutcome)

/-- The calls of `resetInternalState`. -/
def ResetRun.resetInternalState (r : ResetRun) : List SyncCall :=
  let newHead := r.newHead.getD r.currentBlock
  match r.stateAt with
  | .error _ => []
  | .ok _ =>
    match r.latestContext with
    | .error err => [.crash ("failed to get latest context for rechecker: " ++ err)]
    | .ok _ => [.startNewHeight newHead]

/-- The calls of a run. In `runRecheck` the end of the height is deferred, so that every way out
makes it. -/
def SyncRun.calls : SyncRun → List SyncCall
  | .reorg none => []
  | .reorg (some reset) => reset.resetInternalState ++ [.endCurrentHeight]
  | .recheck head _ => [.startNewHeight head, .endCurrentHeight]

/-- The state lookup of a reset fails. -/
def SyncRun.LosesState : SyncRun → Prop
  | .reorg (some reset) => ∃ err, reset.stateAt = .error err
  | _ => False

/-- The process ends in a reset that gets no context. -/
def SyncRun.crashes : SyncRun → Bool
  | .reorg (some reset) =>
    match reset.stateAt, reset.latestContext with
    | .ok _, .error _ => true
    | _, _ => false
  | _ => false

/-! ## Interleavings -/

/-- A `HeightSync` with the calls that the active run has still to make, those that were made,
a panic or a crash that ended the process, and the callers of `GetStore`. -/
structure SyncSystem where
  hs : HeightSync
  pending : List SyncCall
  calls : List SyncCall
  panicked : Option String
  crashed : Bool
  readers : List Reader

inductive SyncAction
  /-- A run begins. -/
  | begin (r : SyncRun)
  /-- The active run makes its next call. -/
  | call
  /-- `GetStore` is called. -/
  | get (height : Int)
  | look (reader : Nat)
  /-- The channel that `GetStore` waits for is closed. -/
  | wake (reader : Nat)
  /-- The context of `GetStore` expires. -/
  | expire (reader : Nat)

namespace SyncSystem

def init (startHeight : Int) : SyncSystem where
  hs := .new startHeight
  pending := []
  calls := []
  panicked := none
  crashed := false
  readers := []

variable (s : SyncSystem)

/-- A call of the active run. -/
def call (c : SyncCall) (rest : List SyncCall) : SyncSystem :=
  match c with
  | .crash _ => { s with pending := rest, crashed := true }
  | .startNewHeight height =>
    match s.hs.startNewHeight height with
    | .ok hs => { s with hs := hs, pending := rest, calls := s.calls ++ [c] }
    | .error text => { s with pending := rest, calls := s.calls ++ [c], panicked := some text }
  | .endCurrentHeight =>
    match s.hs.endCurrentHeight with
    | .ok hs => { s with hs := hs, pending := rest, calls := s.calls ++ [c] }
    | .error text => { s with pending := rest, calls := s.calls ++ [c], panicked := some text }

/-- The reader after its channel was closed. -/
def woken (closed : List Chan) : Reader → Option Reader
  | .reached height value done =>
    if done ∈ closed then some (.returned height (some value)) else none
  | .behind height heightChanged => if heightChanged ∈ closed then some (.looking height) else none
  | _ => none

/-- The reader after its context expired. -/
def expired : Reader → Option Reader
  | .reached height value _ => some (.returned height (some value))
  | .behind height _ => some (.returned height none)
  | _ => none

/-- The reader after it looked at the height. -/
def looked : Reader → Option Reader
  | .looking height => some (s.hs.look height)
  | _ => none

/-- A step of one reader. -/
def move (reader : Nat) (f : Reader → Option Reader) : Option SyncSystem :=
  (s.readers[reader]?.bind f).map fun r => { s with readers := s.readers.set reader r }

/-- A step, unless the process has ended or what it waits for has not happened. -/
def step (a : SyncAction) : Option SyncSystem :=
  if s.crashed || s.panicked.isSome then none
  else
    match a with
    | .begin r => if s.pending.isEmpty then some { s with pending := r.calls } else none
    | .call =>
      match s.pending with
      | [] => none
      | c :: rest => some (s.call c rest)
    | .get height => some { s with readers := s.readers ++ [.looking height] }
    | .look reader => s.move reader s.looked
    | .wake reader => s.move reader (woken s.hs.closed)
    | .expire reader => s.move reader expired

/-! ## The protocol -/

/-- No panic was reached, the calls alternate, and the stores that were returned are those of
their heights. -/
structure Good : Prop where
  silent : s.panicked = none
  alternate : ∀ (k : Nat) c, s.calls[k]? = some c → (c.isStart = true ↔ k % 2 = 0)
  stores : ∀ (i : Nat) height value, s.readers[i]? = some (.returned height (some value)) →
    s.hs.created[value]? = some height

variable {s} {s' : SyncSystem}

variable {a : SyncAction} {created : List Int} {r : SyncRun} {c : SyncCall} {runs : List SyncRun}
variable {actions : List SyncAction} {f : Reader → Option Reader} {rest : List SyncCall}

theorem step_enabled (h : s.step a = some s') : s.crashed = false ∧ s.panicked = none := by
  unfold step at h
  split at h
  · cases h
  · rename_i hlive
    simpa using hlive

/-! ### The stores of the readers -/

/-- The value that a reader has is a store of its height. -/
def Holds (created : List Int) : Reader → Prop
  | .reached height value _ => created[value]? = some height
  | .returned height (some value) => created[value]? = some height
  | _ => True

/-- The store is that of the current height, and the readers have stores of their heights. -/
structure Stores (s : SyncSystem) : Prop where
  store : s.hs.created[s.hs.store]? = some s.hs.currentHeight
  readers : ∀ r ∈ s.readers, Holds s.hs.created r

theorem Holds.append {r : Reader} (h : Holds created r) (more : List Int) :
    Holds (created ++ more) r := by
  cases r with
  | reached height value done =>
    exact (List.getElem?_append_left (List.getElem?_eq_some_iff.mp h).1).trans h
  | returned height value =>
    cases value with
    | none => trivial
    | some value => exact (List.getElem?_append_left (List.getElem?_eq_some_iff.mp h).1).trans h
  | looking height => trivial
  | behind height heightChanged => trivial
  | panicked height => trivial

theorem holds_look {hs : HeightSync} (h : hs.created[hs.store]? = some hs.currentHeight)
    (height : Int) : Holds hs.created (hs.look height) := by
  unfold HeightSync.look
  split
  · trivial
  · split
    · rename_i heq
      rw [heq] at h
      split
      · exact h
      · exact h
    · trivial

theorem holds_woken {closed : List Chan} {r r' : Reader} (h : Holds created r)
    (hr : woken closed r = some r') : Holds created r' := by
  unfold woken at hr
  split at hr
  · split at hr
    · cases hr
      exact h
    · cases hr
  · split at hr
    · cases hr
      trivial
    · cases hr
  · cases hr

theorem holds_expired {r r' : Reader} (h : Holds created r) (hr : expired r = some r') :
    Holds created r' := by
  unfold expired at hr
  split at hr
  · cases hr
    exact h
  · cases hr
    trivial
  · cases hr

theorem Stores.move (h : Stores s) {reader : Nat}
    (hf : ∀ r r', Holds s.hs.created r → f r = some r' → Holds s.hs.created r')
    (hmove : s.move reader f = some s') : Stores s' := by
  obtain ⟨r', hr', rfl⟩ := map_eq_some_iff.mp hmove
  obtain ⟨r, hr, hfr⟩ := bind_eq_some_iff.mp hr'
  refine ⟨h.store, fun x hx => ?_⟩
  rcases mem_or_eq_of_mem_set hx with hx | rfl
  · exact h.readers x hx
  · exact hf r x (h.readers r (mem_of_getElem? hr)) hfr

theorem Stores.call (h : Stores s) (c : SyncCall) (rest : List SyncCall) :
    Stores (s.call c rest) := by
  unfold SyncSystem.call
  cases c with
  | crash text => exact ⟨h.store, h.readers⟩
  | startNewHeight height =>
    dsimp only
    split
    · rename_i hs hok
      obtain ⟨-, rfl⟩ := HeightSync.startNewHeight_eq_ok.mp hok
      refine ⟨?_, fun r hr => (h.readers r hr).append _⟩
      exact getElem?_concat_length
    · exact ⟨h.store, h.readers⟩
  | endCurrentHeight =>
    dsimp only
    split
    · rename_i hs hok
      obtain ⟨-, rfl⟩ := HeightSync.endCurrentHeight_eq_ok.mp hok
      exact ⟨h.store, h.readers⟩
    · exact ⟨h.store, h.readers⟩

theorem Stores.step (h : Stores s) (hstep : s.step a = some s') : Stores s' := by
  unfold SyncSystem.step at hstep
  split at hstep
  · cases hstep
  · cases a with
    | begin r =>
      dsimp only at hstep
      split at hstep
      · cases hstep
        exact ⟨h.store, h.readers⟩
      · cases hstep
    | call =>
      dsimp only at hstep
      split at hstep
      · cases hstep
      · cases hstep
        exact h.call _ _
    | get height =>
      cases hstep
      refine ⟨h.store, fun r hr => ?_⟩
      rcases mem_append.mp hr with hr | hr
      · exact h.readers r hr
      · obtain rfl := mem_singleton.mp hr
        trivial
    | look reader =>
      refine h.move (fun r r' hr hlook => ?_) hstep
      unfold looked at hlook
      split at hlook
      · cases hlook
        exact holds_look h.store _
      · cases hlook
    | wake reader => exact h.move (fun r r' hr hwake => holds_woken hr hwake) hstep
    | expire reader => exact h.move (fun r r' hr hexpire => holds_expired hr hexpire) hstep

/-! ### The calls of the runs -/

/-- The calls of a run whose state lookup does not fail. -/
theorem calls_cases (h : ¬ r.LosesState) :
    (r.crashes = false ∧ r.calls = []) ∨
    (r.crashes = false ∧ ∃ height, r.calls = [.startNewHeight height, .endCurrentHeight]) ∨
    (r.crashes = true ∧ ∃ text, r.calls = [.crash text, .endCurrentHeight]) := by
  cases r with
  | recheck head outcome => exact .inr (.inl ⟨rfl, head, rfl⟩)
  | reorg reset =>
    cases reset with
    | none => exact .inl ⟨rfl, rfl⟩
    | some reset =>
      cases hstate : reset.stateAt with
      | error err => exact absurd ⟨err, hstate⟩ h
      | ok u =>
        cases hcontext : reset.latestContext with
        | error err =>
          refine .inr (.inr ⟨?_, "failed to get latest context for rechecker: " ++ err, ?_⟩)
          · simp only [SyncRun.crashes, hstate, hcontext]
          · simp only [SyncRun.calls, ResetRun.resetInternalState, hstate, hcontext]
            rfl
        | ok u' =>
          refine .inr (.inl ⟨?_, reset.newHead.getD reset.currentBlock, ?_⟩)
          · simp only [SyncRun.crashes, hstate, hcontext]
          · simp only [SyncRun.calls, ResetRun.resetInternalState, hstate, hcontext]
            rfl

theorem not_loses_of_crashes (h : r.crashes = true) : ¬ r.LosesState := by
  cases r with
  | recheck head outcome => exact id
  | reorg reset =>
    cases reset with
    | none => exact id
    | some reset =>
      rintro ⟨err, hstate⟩
      simp [SyncRun.crashes, hstate] at h

/-- Where the calls of the active run stand. -/
inductive Turn (s : SyncSystem) : Prop
  | idle (ended : s.hs.isHeightEnded = true) (pending : s.pending = [])
  | start (ended : s.hs.isHeightEnded = true) (height : Int)
      (pending : s.pending = [.startNewHeight height, .endCurrentHeight])
  | finish (started : s.hs.isHeightEnded = false) (pending : s.pending = [.endCurrentHeight])
  | crash (ended : s.hs.isHeightEnded = true) (text : String)
      (pending : s.pending = [.crash text, .endCurrentHeight])
  | crashed (h : s.crashed = true)

/-- The calls that were made alternate, and the next one fits. -/
structure Phases (s : SyncSystem) : Prop where
  wellFormed : s.hs.WellFormed
  silent : s.panicked = none
  parity : s.hs.isHeightEnded = true ↔ s.calls.length % 2 = 0
  alternate : ∀ (k : Nat) c, s.calls[k]? = some c → (c.isStart = true ↔ k % 2 = 0)
  turn : Turn s

/-- A call that fits keeps the calls alternating. -/
theorem alternate_append {calls : List SyncCall}
    (h : ∀ (k : Nat) c, calls[k]? = some c → (c.isStart = true ↔ k % 2 = 0))
    (hc : c.isStart = true ↔ calls.length % 2 = 0) :
    ∀ (k : Nat) c', (calls ++ [c])[k]? = some c' → (c'.isStart = true ↔ k % 2 = 0) := by
  intro k c' hk
  rcases Nat.lt_trichotomy k calls.length with hlt | rfl | hgt
  · rw [getElem?_append_left hlt] at hk
    exact h k c' hk
  · rw [getElem?_concat_length] at hk
    cases hk
    exact hc
  · have hnone : (calls ++ [c])[k]? = none := by
      rw [getElem?_eq_none_iff, length_append, length_singleton]
      omega
    rw [hnone] at hk
    cases hk

theorem Phases.congr (h : Phases s) (hhs : s'.hs = s.hs) (hpending : s'.pending = s.pending)
    (hcalls : s'.calls = s.calls) (hpanicked : s'.panicked = s.panicked)
    (hcrashed : s'.crashed = s.crashed) : Phases s' := by
  constructor
  · rw [hhs]
    exact h.wellFormed
  · rw [hpanicked]
    exact h.silent
  · rw [hhs, hcalls]
    exact h.parity
  · rw [hcalls]
    exact h.alternate
  · cases h.turn with
    | idle ended pending => exact .idle (by rw [hhs, ended]) (by rw [hpending, pending])
    | start ended height pending =>
      exact .start (by rw [hhs, ended]) height (by rw [hpending, pending])
    | finish started pending => exact .finish (by rw [hhs, started]) (by rw [hpending, pending])
    | crash ended text pending => exact .crash (by rw [hhs, ended]) text (by rw [hpending, pending])
    | crashed h => exact .crashed (by rw [hcrashed, h])

theorem Phases.move (h : Phases s) {reader : Nat} (hmove : s.move reader f = some s') :
    Phases s' := by
  obtain ⟨r', -, rfl⟩ := map_eq_some_iff.mp hmove
  exact h.congr rfl rfl rfl rfl rfl

/-- Between two runs the height is ended. -/
theorem Phases.ended (h : Phases s) (hlive : s.crashed = false) (hidle : s.pending = []) :
    s.hs.isHeightEnded = true := by
  cases h.turn with
  | idle ended pending | start ended height pending | crash ended text pending => exact ended
  | finish started pending =>
    rw [hidle] at pending
    cases pending
  | crashed hcrashed =>
    rw [hlive] at hcrashed
    cases hcrashed

theorem Phases.begin (h : Phases s) (hlive : s.crashed = false) (hidle : s.pending = [])
    (hr : ¬ r.LosesState) : Phases { s with pending := r.calls } := by
  have hended := h.ended hlive hidle
  refine ⟨h.wellFormed, h.silent, h.parity, h.alternate, ?_⟩
  obtain ⟨-, hcalls⟩ | ⟨-, height, hcalls⟩ | ⟨-, text, hcalls⟩ := calls_cases hr
  · exact .idle hended hcalls
  · exact .start hended height hcalls
  · exact .crash hended text hcalls

theorem Phases.call (h : Phases s) (hlive : s.crashed = false) (hpending : s.pending = c :: rest) :
    Phases (s.call c rest) := by
  cases h.turn with
  | idle ended pending =>
    rw [pending] at hpending
    cases hpending
  | start ended height pending =>
    rw [pending] at hpending
    obtain ⟨rfl, rfl⟩ := cons.inj hpending
    obtain ⟨hs', hok⟩ : ∃ hs', s.hs.startNewHeight height = .ok hs' :=
      ⟨_, HeightSync.startNewHeight_eq_ok.mpr ⟨ended, rfl⟩⟩
    obtain ⟨hwell, hstarted⟩ := h.wellFormed.startNewHeight hok
    have heven := h.parity.mp ended
    simp only [SyncSystem.call, hok]
    refine ⟨hwell, h.silent, ?_, alternate_append h.alternate (iff_of_true rfl heven),
      .finish hstarted rfl⟩
    rw [hstarted, length_append, length_singleton]
    exact iff_of_false nofun (by omega)
  | finish started pending =>
    rw [pending] at hpending
    obtain ⟨rfl, rfl⟩ := cons.inj hpending
    obtain ⟨hs', hok⟩ : ∃ hs', s.hs.endCurrentHeight = .ok hs' :=
      ⟨_, HeightSync.endCurrentHeight_eq_ok.mpr ⟨started, rfl⟩⟩
    obtain ⟨hwell, hended⟩ := h.wellFormed.endCurrentHeight hok
    have hodd : ¬ s.calls.length % 2 = 0 := fun heven => by
      rw [h.parity.mpr heven] at started
      cases started
    simp only [SyncSystem.call, hok]
    refine ⟨hwell, h.silent, ?_, alternate_append h.alternate (iff_of_false nofun hodd),
      .idle hended rfl⟩
    rw [hended, length_append, length_singleton]
    exact iff_of_true rfl (by omega)
  | crash ended text pending =>
    rw [pending] at hpending
    obtain ⟨rfl, rfl⟩ := cons.inj hpending
    exact ⟨h.wellFormed, h.silent, h.parity, h.alternate, .crashed rfl⟩
  | crashed hcrashed =>
    rw [hlive] at hcrashed
    cases hcrashed

/-- The runs that begin in a list of steps. -/
def begun : List SyncAction → List SyncRun :=
  filterMap fun
    | .begin r => some r
    | _ => none

theorem Phases.step (h : Phases s) (hallowed : ∀ r, a = .begin r → ¬ r.LosesState)
    (hstep : s.step a = some s') : Phases s' := by
  obtain ⟨hlive, -⟩ := step_enabled hstep
  unfold SyncSystem.step at hstep
  split at hstep
  · cases hstep
  · cases a with
    | begin r =>
      dsimp only at hstep
      split at hstep
      · rename_i hidle
        cases hstep
        exact h.begin hlive (isEmpty_iff.mp hidle) (hallowed r rfl)
      · cases hstep
    | call =>
      dsimp only at hstep
      split at hstep
      · cases hstep
      · rename_i c rest hpending
        cases hstep
        exact h.call hlive hpending
    | get height =>
      cases hstep
      exact h.congr rfl rfl rfl rfl rfl
    | look reader | wake reader | expire reader => exact h.move hstep

/-! ### Runs -/

theorem stores_init (startHeight : Int) : Stores (init startHeight) :=
  ⟨rfl, fun _ hr => absurd hr not_mem_nil⟩

theorem phases_init (startHeight : Int) : Phases (init startHeight) where
  wellFormed := ⟨Nat.lt_succ_self 1, Nat.zero_lt_succ 1, fun c hc => by
    rw [mem_singleton.mp hc]
    exact Nat.lt_succ_self 1⟩
  silent := rfl
  parity := iff_of_true rfl rfl
  alternate k c hk := by simp [init] at hk
  turn := .idle rfl rfl

theorem mem_begun : r ∈ begun actions ↔ .begin r ∈ actions := by
  unfold begun
  rw [mem_filterMap]
  constructor
  · rintro ⟨a, ha, hr⟩
    cases a with
    | begin r' =>
      cases hr
      exact ha
    | call => cases hr
    | get height => cases hr
    | look reader => cases hr
    | wake reader => cases hr
    | expire reader => cases hr
  · exact fun ha => ⟨_, ha, rfl⟩

/-- Runs without a lost state keep to the protocol, in every interleaving. -/
theorem run_good {startHeight : Int} (hkept : ∀ r ∈ begun actions, ¬ r.LosesState)
    (hrun : run step (init startHeight) actions = some s) : Good s := by
  have hboth : Stores s ∧ Phases s := by
    refine run_invariant (fun s => Stores s ∧ Phases s)
      (fun a => ∀ r, a = .begin r → ¬ r.LosesState) ?_ ?_
      ⟨stores_init startHeight, phases_init startHeight⟩ hrun
    · intro s a s' hallowed hs hstep
      exact ⟨hs.1.step hstep, hs.2.step hallowed hstep⟩
    · rintro a ha r rfl
      exact hkept r (mem_begun.mpr ha)
  refine ⟨hboth.2.silent, hboth.2.alternate, fun i height value hi => ?_⟩
  exact hboth.1.readers _ (mem_of_getElem? hi)

/-- The runs of a list up to one that ends the process. -/
def live (runs : List SyncRun) : List SyncRun := runs.takeWhile fun r => !r.crashes

theorem live_cons (h : r.crashes = false) (runs : List SyncRun) :
    live (r :: runs) = r :: live runs := by
  simp [live, h]

theorem mem_live_append (h : r ∈ live runs) (more : List SyncRun) : r ∈ live (runs ++ more) := by
  induction runs with
  | nil => exact absurd h not_mem_nil
  | cons first rest ih =>
    cases hcrash : first.crashes with
    | true => simp [live, hcrash] at h
    | false =>
      rw [live_cons hcrash] at h
      rw [cons_append, live_cons hcrash]
      rcases mem_cons.mp h with rfl | h
      · exact mem_cons_self ..
      · exact mem_cons_of_mem _ (ih h)

/-- Nothing begins after a run that ends the process. -/
theorem begun_nil_of_crash
    (hcrash : s.crashed = true ∨ ∃ text, s.pending = [.crash text, .endCurrentHeight])
    (hrun : run step s actions = some s') : begun actions = [] := by
  induction actions generalizing s with
  | nil => rfl
  | cons a rest ih =>
    obtain ⟨t, hstep, hrest⟩ := bind_eq_some_iff.mp hrun
    obtain ⟨hlive, -⟩ := step_enabled hstep
    obtain ⟨text, hpending⟩ := hcrash.resolve_left (by rw [hlive]; decide)
    unfold SyncSystem.step at hstep
    split at hstep
    · cases hstep
    · cases a with
      | begin r => simp [hpending] at hstep
      | call =>
        simp only [hpending] at hstep
        cases hstep
        exact ih (.inl rfl) hrest
      | get height =>
        cases hstep
        refine ih ?_ hrest
        exact .inr ⟨text, hpending⟩
      | look reader | wake reader | expire reader =>
        obtain ⟨r, -, rfl⟩ := map_eq_some_iff.mp hstep
        refine ih ?_ hrest
        exact .inr ⟨text, hpending⟩

/-- The runs that begin are live, but for one that ends the process. -/
theorem begun_live (hrun : run step s actions = some s') :
    ∀ r ∈ begun actions, r ∈ live (begun actions) ∨ r.crashes = true := by
  induction actions generalizing s with
  | nil => exact fun r hr => absurd hr not_mem_nil
  | cons a rest ih =>
    obtain ⟨t, hstep, hrest⟩ := bind_eq_some_iff.mp hrun
    cases a with
    | begin r =>
      intro r' hr'
      change r' ∈ r :: begun rest at hr'
      change r' ∈ live (r :: begun rest) ∨ _
      cases hcrash : r.crashes with
      | false =>
        rw [live_cons hcrash]
        rcases mem_cons.mp hr' with rfl | hr'
        · exact .inl (mem_cons_self ..)
        · exact (ih hrest r' hr').imp_left (mem_cons_of_mem _)
      | true =>
        have hnone : begun rest = [] := by
          refine begun_nil_of_crash (.inr ?_) hrest
          unfold SyncSystem.step at hstep
          split at hstep
          · cases hstep
          · dsimp only at hstep
            split at hstep
            · cases hstep
              obtain ⟨hno, -⟩ | ⟨hno, -⟩ | ⟨-, htext⟩ := calls_cases (not_loses_of_crashes hcrash)
              · rw [hcrash] at hno
                cases hno
              · rw [hcrash] at hno
                cases hno
              · exact htext
            · cases hstep
        rw [hnone] at hr'
        exact .inr (mem_singleton.mp hr' ▸ hcrash)
    | call | get height | look reader | wake reader | expire reader => exact ih hrest

/-- A run whose state lookup fails only ends the height. -/
theorem calls_of_loses (h : r.LosesState) : r.calls = [.endCurrentHeight] := by
  cases r with
  | recheck head outcome => exact absurd h id
  | reorg reset =>
    cases reset with
    | none => exact absurd h id
    | some reset =>
      obtain ⟨err, hstate⟩ := h
      simp only [SyncRun.calls, ResetRun.resetInternalState, hstate]
      rfl

theorem step_begin (hlive : s.crashed = false) (hsilent : s.panicked = none)
    (hidle : s.pending = []) : s.step (.begin r) = some { s with pending := r.calls } := by
  simp [SyncSystem.step, hlive, hsilent, hidle]

theorem step_call (hlive : s.crashed = false) (hsilent : s.panicked = none)
    (hpending : s.pending = c :: rest) : s.step .call = some (s.call c rest) := by
  simp [SyncSystem.step, hlive, hsilent, hpending]

theorem call_pending (c : SyncCall) (rest : List SyncCall) : (s.call c rest).pending = rest := by
  unfold SyncSystem.call
  cases c with
  | crash text => rfl
  | startNewHeight height | endCurrentHeight =>
    dsimp only
    split <;> rfl

theorem call_crashed (hc : ∀ text, c ≠ .crash text) (rest : List SyncCall) :
    (s.call c rest).crashed = s.crashed := by
  unfold SyncSystem.call
  cases c with
  | crash text => exact absurd rfl (hc text)
  | startNewHeight height | endCurrentHeight =>
    dsimp only
    split <;> rfl

/-- A height is started and ended by the calls of a run. -/
theorem run_calls (hs : Phases s) (hlive : s.crashed = false)
    (hpending : s.pending = [.startNewHeight height, .endCurrentHeight]) :
    ∃ s', run step s [.call, .call] = some s' ∧ Phases s' ∧ s'.crashed = false ∧
      s'.pending = [] := by
  obtain ⟨t, ht⟩ : ∃ t, t = s.call (.startNewHeight height) [.endCurrentHeight] := ⟨_, rfl⟩
  have hphases : Phases t := ht ▸ hs.call hlive hpending
  have hlive' : t.crashed = false := by rw [ht, call_crashed (by simp), hlive]
  have hpending' : t.pending = [.endCurrentHeight] := by rw [ht, call_pending]
  refine ⟨t.call .endCurrentHeight [], ?_, hphases.call hlive' hpending', ?_, call_pending _ _⟩
  · rw [run_cons, step_call hlive hs.silent hpending, ← ht, bind_some, run_cons,
      step_call hlive' hphases.silent hpending']
    rfl
  · rw [call_crashed (by simp), hlive']

/-- One run after another reaches a run whose state lookup fails, and panics there. -/
theorem panics_of_loses (hs : Phases s) (hlive : s.crashed = false) (hidle : s.pending = [])
    (hloses : ∃ r ∈ live runs, r.LosesState) :
    ∃ actions s', run step s actions = some s' ∧ begun actions <+: runs ∧ s'.panicked ≠ none := by
  induction runs generalizing s with
  | nil =>
    obtain ⟨r, hr, -⟩ := hloses
    exact absurd hr not_mem_nil
  | cons r rest ih =>
    by_cases hr : r.LosesState
    · obtain ⟨t, ht⟩ : ∃ t : SyncSystem, t = { s with pending := r.calls } := ⟨_, rfl⟩
      have hpending : t.pending = [.endCurrentHeight] := by rw [ht, calls_of_loses hr]
      have hended : t.hs.isHeightEnded = true := by rw [ht, hs.ended hlive hidle]
      refine ⟨[.begin r, .call], t.call .endCurrentHeight [], ?_, prefix_append [r] rest, ?_⟩
      · rw [run_cons, step_begin hlive hs.silent hidle, ← ht, bind_some, run_cons,
          step_call (by rw [ht, hlive]) (by rw [ht, hs.silent]) hpending]
        rfl
      · simp [SyncSystem.call, HeightSync.endCurrentHeight, hended]
    · cases hcrash : r.crashes with
      | true =>
        obtain ⟨r', hr', -⟩ := hloses
        simp [live, hcrash] at hr'
      | false =>
        have hrest : ∃ r ∈ live rest, r.LosesState := by
          obtain ⟨r', hr', hloses'⟩ := hloses
          rw [live_cons hcrash] at hr'
          rcases mem_cons.mp hr' with rfl | hr'
          · exact absurd hloses' hr
          · exact ⟨r', hr', hloses'⟩
        obtain ⟨-, hcalls⟩ | ⟨-, height, hcalls⟩ | ⟨hyes, -⟩ := calls_cases hr
        · obtain ⟨actions, s', hrun, hprefix, hpanics⟩ :=
            ih (hs.begin hlive hidle hr) hlive hcalls hrest
          refine ⟨.begin r :: actions, s', ?_, prefix_cons_inj r |>.mpr hprefix, hpanics⟩
          rw [run_cons, step_begin hlive hs.silent hidle]
          exact hrun
        · obtain ⟨t, ht, hphases, hlive', hidle'⟩ :=
            run_calls (hs.begin hlive hidle hr) hlive hcalls
          obtain ⟨actions, s', hrun, hprefix, hpanics⟩ := ih hphases hlive' hidle' hrest
          refine ⟨.begin r :: ([SyncAction.call, .call] ++ actions), s', ?_,
            prefix_cons_inj r |>.mpr hprefix, hpanics⟩
          rw [run_cons, step_begin hlive hs.silent hidle, bind_some, run_append, ht]
          exact hrun
        · rw [hcrash] at hyes
          cases hyes

/-- The protocol holds in every interleaving of a sequence of runs exactly if no state lookup of a
reset fails, unless the process ended before. -/
theorem heightSync_protocol_iff (startHeight : Int) (runs : List SyncRun) :
    (∀ actions s, run step (init startHeight) actions = some s → begun actions <+: runs →
      Good s) ↔ ∀ r ∈ live runs, ¬ r.LosesState := by
  constructor
  · intro hgood r hr hloses
    obtain ⟨actions, s, hrun, hprefix, hpanics⟩ :=
      panics_of_loses (phases_init startHeight) rfl rfl ⟨r, hr, hloses⟩
    exact hpanics (hgood actions s hrun hprefix).silent
  · intro hkept actions s hrun hprefix
    refine run_good (fun r hr => ?_) hrun
    rcases begun_live hrun r hr with hr | hcrash
    · refine hkept r ?_
      obtain ⟨more, rfl⟩ := hprefix
      exact mem_live_append hr more
    · exact not_loses_of_crashes hcrash

/-- A reset whose state lookup fails ends a height that was never started. -/
theorem heightSync_panics :
    (run step (init 5) [.begin (.reorg (some ⟨some 6, 6, .error "no state", .ok ()⟩)), .call]).map
      (fun s => s.panicked) = some (some "height 5 already ended") := by
  decide +kernel

end SyncSystem

end InfiniteEvm.Mempool
