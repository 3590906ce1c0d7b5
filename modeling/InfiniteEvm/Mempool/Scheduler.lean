import InfiniteEvm.Library.Histories
import InfiniteEvm.Library.Runs

/-!
# The scheduler of rechecks

`scheduleRecheckLoop` of `RecheckMempool` runs one recheck at a time. Requests that arrive
during a run share the next one, and each caller gets the channel that this run closes. The
loop, the runs and the callers of `TriggerRecheck` take their steps in any order.
-/

namespace InfiniteEvm.Mempool

open Library Histories Runs List Option

/-- A channel that is only closed, by its number among those that were made. -/
abbrev Chan := Nat

/-- Where a call of `TriggerRecheck` stands. -/
inductive Caller
  /-- It sends the request, or waits for the loop to exit. -/
  | requesting (head : Int)
  /-- The loop has the request, and the caller waits for a channel. -/
  | awaiting (head : Int)
  | returned (head : Int) (done : Chan)
  deriving DecidableEq

/-- Where the loop stands. -/
inductive Loop
  | top
  | select
  /-- In the case of a request, at `m.recheckDoneCh <- nextDone`. -/
  | reply
  /-- In the case of the shutdown, at `<-curDone`. -/
  | drain
  | exited
  deriving DecidableEq

/-- A `runRecheck` that has not closed its channel. -/
structure Recheck where
  done : Chan
  head : Int
  cancelled : Chan
  deriving DecidableEq

/-- What happened, as far as requests are concerned. -/
inductive SchedulerEvent
  | requested (caller : Nat) (head : Int)
  | started (done : Chan) (head : Int)
  | finished (done : Chan)
  /-- A channel was closed because of the shutdown. -/
  | abandoned (done : Chan)
  deriving DecidableEq

/-- The variables of the loop, the channels that were closed, the runs and the callers. The
channels `done` and the channels for cancellation are numbered separately. -/
structure Scheduler where
  loop : Loop
  curDone : Option Chan
  nextDone : Chan
  launchNextRun : Bool
  recheckReq : Option Int
  cancelCh : Option Chan
  shutdownCh : Bool
  made : Nat
  closed : List Chan
  madeCancels : Nat
  closedCancels : List Chan
  runs : List Recheck
  callers : List Caller
  history : List SchedulerEvent
  deriving DecidableEq

namespace Scheduler

/-- After `Start`. -/
def init : Scheduler where
  loop := .top
  curDone := none
  nextDone := 0
  launchNextRun := false
  recheckReq := none
  cancelCh := none
  shutdownCh := false
  made := 1
  closed := []
  madeCancels := 0
  closedCancels := []
  runs := []
  callers := []
  history := []

/-- The steps of the callers, of the loop and of the runs. -/
inductive Action
  /-- `TriggerRecheck` is called. -/
  | trigger (head : Int)
  /-- It returns because the loop has exited. -/
  | refuse (caller : Nat)
  /-- `Close`. -/
  | close
  /-- The top of the loop. -/
  | launch
  /-- `case req := <-m.reqRecheckCh`. -/
  | receive (caller : Nat)
  /-- `m.recheckDoneCh <- nextDone`. -/
  | reply (caller : Nat)
  /-- `case <-curDone`. -/
  | observe
  /-- `case <-m.shutdownCh`. -/
  | stop
  /-- The end of the wait for the last run. -/
  | drained
  /-- A run ends, cancelled or not. -/
  | finish (r : Recheck)

variable (s : Scheduler)

/-- The launch of the next run. -/
def startRun (head : Int) : Scheduler :=
  { s with
    loop := .select
    curDone := some s.nextDone
    nextDone := s.made
    launchNextRun := false
    recheckReq := none
    cancelCh := some s.madeCancels
    made := s.made + 1
    madeCancels := s.madeCancels + 1
    runs := s.runs ++ [⟨s.nextDone, head, s.madeCancels⟩]
    history := s.history ++ [.started s.nextDone head] }

/-- `close(cancelCh)`, if a run is active and was not cancelled. -/
def cancel : Scheduler :=
  match s.curDone, s.cancelCh with
  | some _, some ch => { s with closedCancels := s.closedCancels ++ [ch] }
  | _, _ => s

/-- A request is taken in. -/
def accept (caller : Nat) (head : Int) : Scheduler :=
  { s.cancel with
    loop := .reply
    -- no run is cancelled twice
    cancelCh := if s.curDone.isSome then none else s.cancelCh
    recheckReq := some head
    launchNextRun := true
    callers := s.callers.set caller (.awaiting head)
    history := s.history ++ [.requested caller head] }

/-- `close(nextDone)` at the end of the loop. -/
def exit : Scheduler :=
  { s with
    loop := .exited
    closed := s.closed ++ [s.nextDone]
    history := s.history ++ [.abandoned s.nextDone] }

/-- A step, unless what it waits for has not happened. -/
def step : Action → Option Scheduler
  | .trigger head => some { s with callers := s.callers ++ [.requesting head] }
  | .refuse caller =>
    match s.loop, s.callers[caller]? with
    | .exited, some (.requesting head) => some { s with
        made := s.made + 1
        closed := s.closed ++ [s.made]
        callers := s.callers.set caller (.returned head s.made)
        history := s.history ++ [.abandoned s.made] }
    | _, _ => none
  | .close => some { s with shutdownCh := true }
  | .launch =>
    match s.loop with
    | .top =>
      if s.curDone.isNone && s.launchNextRun then s.recheckReq.map s.startRun
      else some { s with loop := .select }
    | _ => none
  | .receive caller =>
    match s.loop, s.callers[caller]? with
    | .select, some (.requesting head) => some (s.accept caller head)
    | _, _ => none
  | .reply caller =>
    match s.loop, s.callers[caller]? with
    | .reply, some (.awaiting head) => some { s with
        loop := .top
        callers := s.callers.set caller (.returned head s.nextDone) }
    | _, _ => none
  | .observe =>
    match s.loop, s.curDone with
    | .select, some done =>
      if done ∈ s.closed then some { s with loop := .top, curDone := none, cancelCh := none }
      else none
    | _, _ => none
  | .stop =>
    match s.loop, s.shutdownCh with
    | .select, true =>
      if s.curDone.isSome then some { s.cancel with loop := .drain } else some s.exit
    | _, _ => none
  | .drained =>
    match s.loop, s.curDone with
    | .drain, some done => if done ∈ s.closed then some s.exit else none
    | _, _ => none
  | .finish r =>
    if r ∈ s.runs then some { s with
      runs := s.runs.erase r
      closed := s.closed ++ [r.done]
      history := s.history ++ [.finished r.done] }
    else none

/-- What a step can do. -/
inductive Taken (s : Scheduler) : Scheduler → Prop
  | trigger (head : Int) : Taken s { s with callers := s.callers ++ [.requesting head] }
  | refuse (caller : Nat) (head : Int) (loop : s.loop = .exited)
      (requesting : s.callers[caller]? = some (.requesting head)) : Taken s { s with
        made := s.made + 1
        closed := s.closed ++ [s.made]
        callers := s.callers.set caller (.returned head s.made)
        history := s.history ++ [.abandoned s.made] }
  | close : Taken s { s with shutdownCh := true }
  | idle (loop : s.loop = .top) : Taken s { s with loop := .select }
  | start (head : Int) (loop : s.loop = .top) (cur : s.curDone = none)
      (launch : s.launchNextRun = true) (req : s.recheckReq = some head) : Taken s (s.startRun head)
  | receive (caller : Nat) (head : Int) (loop : s.loop = .select)
      (requesting : s.callers[caller]? = some (.requesting head)) : Taken s (s.accept caller head)
  | reply (caller : Nat) (head : Int) (loop : s.loop = .reply)
      (awaiting : s.callers[caller]? = some (.awaiting head)) : Taken s { s with
        loop := .top
        callers := s.callers.set caller (.returned head s.nextDone) }
  | observe (done : Chan) (loop : s.loop = .select) (cur : s.curDone = some done)
      (closed : done ∈ s.closed) :
      Taken s { s with loop := .top, curDone := none, cancelCh := none }
  | drain (loop : s.loop = .select) : Taken s { s.cancel with loop := .drain }
  | exit (loop : s.loop = .select ∨ s.loop = .drain) : Taken s s.exit
  | finish (r : Recheck) (active : r ∈ s.runs) : Taken s { s with
      runs := s.runs.erase r
      closed := s.closed ++ [r.done]
      history := s.history ++ [.finished r.done] }

variable {s} {s' : Scheduler} {callers : List Caller}

theorem taken_of_step {a : Action} (h : s.step a = some s') : Taken s s' := by
  cases a with
  | trigger head =>
    cases h
    exact .trigger head
  | refuse caller | receive caller | reply caller =>
    simp only [step] at h
    split at h
    · rename_i head hloop hcaller
      cases h
      constructor <;> assumption
    · cases h
  | close =>
    cases h
    exact .close
  | launch =>
    simp only [step] at h
    split at h
    · rename_i hloop
      split at h
      · rename_i hready
        obtain ⟨hcur, hlaunch⟩ := Bool.and_eq_true_iff.mp hready
        obtain ⟨head, hreq, rfl⟩ := map_eq_some_iff.mp h
        exact .start head hloop (isNone_iff_eq_none.mp hcur) hlaunch hreq
      · cases h
        exact .idle hloop
    · cases h
  | observe =>
    simp only [step] at h
    split at h
    · rename_i done hloop hcur
      split at h
      · rename_i hclosed
        cases h
        exact .observe done hloop hcur hclosed
      · cases h
    · cases h
  | stop =>
    simp only [step] at h
    split at h
    · rename_i hloop hshutdown
      split at h
      · cases h
        exact .drain hloop
      · cases h
        exact .exit (.inl hloop)
    · cases h
  | drained =>
    simp only [step] at h
    split at h
    · rename_i done hloop hcur
      split at h
      · cases h
        exact .exit (.inr hloop)
      · cases h
    · cases h
  | finish r =>
    simp only [step] at h
    split at h
    · rename_i hactive
      cases h
      exact .finish r hactive
    · cases h

/-! ## Channels -/

/-- The channels of the loop and of the runs: at most one run is active, and what will be closed
is still open. -/
structure Channels (s : Scheduler) : Prop where
  next : s.nextDone < s.made
  closed : ∀ d ∈ s.closed, d < s.made
  nodup : s.closed.Nodup
  nextOpen : s.loop ≠ .exited → s.nextDone ∉ s.closed
  runs : (s.runs = [] ∧ ∀ d, s.curDone = some d → d ∈ s.closed) ∨
    ∃ r, s.runs = [r] ∧ s.curDone = some r.done ∧ r.done ∉ s.closed ∧ r.done ≠ s.nextDone ∧
      r.done < s.made

theorem channels_init : Channels init where
  next := by decide
  closed := by decide
  nodup := by decide
  nextOpen := by decide
  runs := .inl ⟨rfl, by simp [init]⟩

theorem Taken.channels (h : Taken s s') (hs : Channels s) : Channels s' := by
  obtain ⟨h1, h2, h3, h4, h5⟩ := hs
  cases h with
  | trigger | close => exact ⟨h1, h2, h3, h4, h5⟩
  | refuse | idle | reply | observe | finish => constructor <;> grind
  | start => constructor <;> grind [startRun]
  | receive => constructor <;> grind [accept, cancel]
  | drain => constructor <;> grind [cancel]
  | exit => constructor <;> grind [Scheduler.exit]

/-- A run is cancelled once at most. -/
structure Cancels (s : Scheduler) : Prop where
  closed : ∀ c ∈ s.closedCancels, c < s.madeCancels
  nodup : s.closedCancels.Nodup
  current : ∀ c, s.cancelCh = some c → c < s.madeCancels
  currentOpen : s.loop ≠ .drain → s.loop ≠ .exited → ∀ c, s.cancelCh = some c → c ∉ s.closedCancels

theorem cancels_init : Cancels init where
  closed := by decide
  nodup := by decide
  current := by simp [init]
  currentOpen := by simp [init]

theorem Taken.cancels (h : Taken s s') (hs : Cancels s) : Cancels s' := by
  obtain ⟨h1, h2, h3, h4⟩ := hs
  cases h with
  | trigger | refuse | close | finish => exact ⟨h1, h2, h3, h4⟩
  | idle | reply | observe => constructor <;> grind
  | start => constructor <;> grind [startRun]
  | receive => constructor <;> grind [accept, cancel]
  | drain => constructor <;> grind [cancel]
  | exit => constructor <;> grind [Scheduler.exit]

/-! ## Answers -/

/-- The head is that of the request, or of one that was received after it. -/
def Requested (caller : Nat) (head head' : Int) (history : List SchedulerEvent) : Prop :=
  (head' = head ∧ .requested caller head ∈ history) ∨
    ∃ other, After (fun before => .requested caller head ∈ before) (.requested other head') history

/-- After the request, a run started for its head or a later one. -/
def Started (caller : Nat) (head : Int) (done : Chan) (head' : Int) : List SchedulerEvent → Prop :=
  After (Requested caller head head') (.started done head')

/-- After the request, a run started for its head or a later one, and finished. -/
def Served (caller : Nat) (head : Int) (done : Chan) (head' : Int) : List SchedulerEvent → Prop :=
  After (Started caller head done head') (.finished done)

section Requests

variable {caller : Nat} {head head' : Int} {history : List SchedulerEvent}

theorem Requested.mem (h : Requested caller head head' history) :
    .requested caller head ∈ history := by
  obtain ⟨-, hmem⟩ | ⟨other, before, later, rfl, hmem⟩ := h
  · exact hmem
  · exact mem_append_left _ hmem

theorem Requested.append (h : Requested caller head head' history) (more : List SchedulerEvent) :
    Requested caller head head' (history ++ more) := by
  obtain ⟨heq, hmem⟩ | ⟨other, hafter⟩ := h
  · exact .inl ⟨heq, mem_append_left _ hmem⟩
  · exact .inr ⟨other, hafter.append more⟩

/-- The number in a request. -/
def SchedulerEvent.requestedHead : SchedulerEvent → Option Int
  | .requested _ head => some head
  | _ => none

/-- If the heads of the requests never decrease, a later head is not lower. -/
theorem Requested.le (h : Requested caller head head' history)
    (hsorted : (history.filterMap SchedulerEvent.requestedHead).Pairwise (· ≤ ·)) :
    head ≤ head' := by
  obtain ⟨rfl, -⟩ | ⟨other, hafter⟩ := h
  · exact Int.le_refl _
  · exact hafter.le hsorted rfl rfl

theorem Served.le {done : Chan} (h : Served caller head done head' history)
    (hsorted : (history.filterMap SchedulerEvent.requestedHead).Pairwise (· ≤ ·)) :
    head ≤ head' := by
  obtain ⟨before, later, rfl, before', later', rfl, hrequested⟩ := h
  rw [append_assoc, filterMap_append, pairwise_append] at hsorted
  exact hrequested.le hsorted.1

end Requests

/-- The channel is closed by the next run, which is for the head of the request or a later one. -/
def Pending (s : Scheduler) (caller : Nat) (head : Int) (done : Chan) : Prop :=
  done = s.nextDone ∧ s.loop ≠ .exited ∧ s.launchNextRun = true ∧
    ∃ head', s.recheckReq = some head' ∧ Requested caller head head' s.history

/-- What holds of the channel of a request. -/
inductive Answered (s : Scheduler) (caller : Nat) (head : Int) (done : Chan) : Prop
  | pending (h : Pending s caller head done)
  | running (head' : Int) (h : Started caller head done head' s.history) (next : done ≠ s.nextDone)
      (closed : done ∉ s.closed)
  | served (head' : Int) (h : Served caller head done head' s.history)
  | abandoned (loop : s.loop = .exited) (h : .abandoned done ∈ s.history)

/-- A caller that waits for a channel waits for the loop, and every channel that was returned is
accounted for. -/
structure Answers (s : Scheduler) : Prop where
  request : s.launchNextRun = true → s.recheckReq ≠ none
  reply : ∀ (i : Nat) head, s.callers[i]? = some (.awaiting head) →
    s.loop = .reply ∧ Pending s i head s.nextDone
  unique : ∀ (i j : Nat) head head', s.callers[i]? = some (.awaiting head) →
    s.callers[j]? = some (.awaiting head') → i = j
  made : ∀ (i : Nat) head done, s.callers[i]? = some (.returned head done) → done < s.made
  answered : ∀ (i : Nat) head done, s.callers[i]? = some (.returned head done) →
    Answered s i head done

theorem answers_init : Answers init where
  request := by decide
  reply := by simp [init]
  unique := by simp [init]
  made := by simp [init]
  answered := by simp [init]

section Keep

variable {i : Nat} {head : Int} {done : Chan}

/-- Steps that leave the next run, the channels and the history alone. -/
theorem Pending.keep (h : Pending s i head done) (hloop : s'.loop ≠ .exited)
    (hnext : s'.nextDone = s.nextDone) (hlaunch : s'.launchNextRun = s.launchNextRun)
    (hreq : s'.recheckReq = s.recheckReq) (hhistory : s'.history = s.history) :
    Pending s' i head done := by
  unfold Pending
  rw [hnext, hlaunch, hreq, hhistory]
  exact ⟨h.1, hloop, h.2.2⟩

variable (h : Answered s i head done)
include h

theorem Answered.keep (hloop : s'.loop = .exited ↔ s.loop = .exited)
    (hnext : s'.nextDone = s.nextDone) (hlaunch : s'.launchNextRun = s.launchNextRun)
    (hreq : s'.recheckReq = s.recheckReq) (hclosed : s'.closed = s.closed)
    (hhistory : s'.history = s.history) : Answered s' i head done := by
  cases h with
  | pending h =>
    refine .pending (h.keep ?_ hnext hlaunch hreq hhistory)
    rw [Ne, hloop]
    exact h.2.1
  | running head' h next closed =>
    exact .running head' (hhistory ▸ h) (hnext ▸ next) (hclosed ▸ closed)
  | served head' h => exact .served head' (hhistory ▸ h)
  | abandoned loop h => exact .abandoned (hloop.mpr loop) (hhistory ▸ h)

/-- The next run starts. -/
theorem Answered.start (hs : Channels s) (hmade : done < s.made)
    (hloop : s.loop = .top) {next : Int} (hreq : s.recheckReq = some next) :
    Answered (s.startRun next) i head done := by
  cases h with
  | pending h =>
    obtain ⟨rfl, -, -, head', hreq', hrequested⟩ := h
    obtain rfl : next = head' := some.inj (hreq.symm.trans hreq')
    refine .running next (.last hrequested _) ?_ (hs.nextOpen ?_)
    · exact Nat.ne_of_lt hs.next
    · rw [hloop]
      decide
  | running head' h hnext hclosed =>
    exact .running head' (h.append _) (Nat.ne_of_lt hmade) hclosed
  | served head' h => exact .served head' (h.append _)
  | abandoned loop h =>
    rw [hloop] at loop
    cases loop

/-- Another request is received. -/
theorem Answered.receive {caller : Nat} {next : Int} (hloop : s.loop = .select) :
    Answered (s.accept caller next) i head done := by
  obtain ⟨hclosed, hnextDone⟩ : (s.accept caller next).closed = s.closed ∧
      (s.accept caller next).nextDone = s.nextDone := by
    simp only [accept, cancel]
    split <;> exact ⟨rfl, rfl⟩
  cases h with
  | pending h =>
    obtain ⟨rfl, -, -, head', hreq, hrequested⟩ := h
    refine .pending ⟨hnextDone.symm, by simp [accept], rfl, next, rfl, ?_⟩
    exact .inr ⟨caller, .last hrequested.mem _⟩
  | running head' h hnext hopen =>
    exact .running head' (h.append _) (hnextDone ▸ hnext) (hclosed ▸ hopen)
  | served head' h => exact .served head' (h.append _)
  | abandoned loop h =>
    rw [hloop] at loop
    cases loop

/-- The loop exits. -/
theorem Answered.exit : Answered s.exit i head done := by
  cases h with
  | pending h =>
    obtain ⟨rfl, -⟩ := h
    exact .abandoned rfl (mem_append_right _ (mem_singleton.mpr rfl))
  | running head' h hnext hopen =>
    refine .running head' (h.append _) hnext ?_
    simpa [Scheduler.exit] using ⟨hopen, hnext⟩
  | served head' h => exact .served head' (h.append _)
  | abandoned loop h => exact .abandoned rfl (mem_append_left _ h)

/-- A run finishes. -/
theorem Answered.finish {d : Chan} (hs' : s' = { s with
      runs := s'.runs
      closed := s.closed ++ [d]
      history := s.history ++ [.finished d] }) : Answered s' i head done := by
  rw [hs']
  cases h with
  | pending h =>
    obtain ⟨hdone, hloop, hlaunch, head', hreq, hrequested⟩ := h
    exact .pending ⟨hdone, hloop, hlaunch, head', hreq, hrequested.append _⟩
  | running head' h hnext hopen =>
    by_cases hd : done = d
    · subst hd
      exact .served head' (.last h _)
    · refine .running head' (h.append _) hnext ?_
      simpa using ⟨hopen, hd⟩
  | served head' h => exact .served head' (h.append _)
  | abandoned loop h => exact .abandoned loop (mem_append_left _ h)

/-- Another caller returns after the loop has exited. -/
theorem Answered.refuse (hmade : done < s.made) (hloop : s.loop = .exited) (hs' : s' = { s with
      made := s.made + 1
      closed := s.closed ++ [s.made]
      callers := s'.callers
      history := s.history ++ [.abandoned s.made] }) : Answered s' i head done := by
  rw [hs']
  cases h with
  | pending h => exact absurd hloop h.2.1
  | running head' h hnext hopen =>
    refine .running head' (h.append _) hnext ?_
    simpa using ⟨hopen, Nat.ne_of_lt hmade⟩
  | served head' h => exact .served head' (h.append _)
  | abandoned loop h => exact .abandoned loop (mem_append_left _ h)

end Keep

theorem getElem?_set_eq_some {i j : Nat} {c d : Caller} (h : (callers.set j d)[i]? = some c) :
    (i = j ∧ c = d) ∨ (i ≠ j ∧ callers[i]? = some c) := by
  grind

theorem getElem?_of_append {i : Nat} {c : Caller} {head : Int}
    (h : (callers ++ [.requesting head])[i]? = some c) (hc : c ≠ .requesting head) :
    callers[i]? = some c := by
  grind

/-- What holds of a caller that the loop has answered, or whose request it has. -/
def Caller.Accounted (s : Scheduler) (i : Nat) : Caller → Prop
  | .requesting _ => True
  | .awaiting head => s.loop = .reply ∧ Pending s i head s.nextDone
  | .returned head done => done < s.made ∧ Answered s i head done

/-- One caller goes on, and no other waits for a channel. -/
theorem Answers.set (hs : Answers s) {caller : Nat} {c : Caller}
    (hcallers : s'.callers = s.callers.set caller c)
    (hrequest : s'.launchNextRun = true → s'.recheckReq ≠ none)
    (hothers : ∀ (i : Nat) head, i ≠ caller → s.callers[i]? ≠ some (.awaiting head))
    (hc : Caller.Accounted s' caller c) (hmade : s.made ≤ s'.made)
    (hkeep : ∀ {i head done}, done < s.made → Answered s i head done → Answered s' i head done) :
    Answers s' := by
  have hawaiting : ∀ {i : Nat} {head}, s'.callers[i]? = some (.awaiting head) →
      i = caller ∧ c = .awaiting head := by
    intro i head hi
    obtain ⟨hi, hc⟩ | ⟨hne, hi⟩ := getElem?_set_eq_some (hcallers ▸ hi)
    · exact ⟨hi, hc.symm⟩
    · exact absurd hi (hothers i head hne)
  have hreturned : ∀ {i : Nat} {head done}, s'.callers[i]? = some (.returned head done) →
      done < s'.made ∧ Answered s' i head done := by
    intro i head done hi
    obtain ⟨rfl, rfl⟩ | ⟨-, hi⟩ := getElem?_set_eq_some (hcallers ▸ hi)
    · exact hc
    · have hdone := hs.made i head done hi
      exact ⟨Nat.lt_of_lt_of_le hdone hmade, hkeep hdone (hs.answered i head done hi)⟩
  refine ⟨hrequest, fun i head hi => ?_, fun i j head head' hi hj => ?_,
    fun i head done hi => (hreturned hi).1, fun i head done hi => (hreturned hi).2⟩
  · obtain ⟨rfl, rfl⟩ := hawaiting hi
    exact hc
  · exact (hawaiting hi).1.trans (hawaiting hj).1.symm

theorem Taken.answers (h : Taken s s') (hs : Answers s) (hchannels : Channels s) : Answers s' := by
  have ⟨hrequest, hreply, hunique, hmade, hanswered⟩ := hs
  -- outside of the reply no caller waits for a channel
  have hnone : s.loop ≠ .reply → ∀ (i : Nat) head, s.callers[i]? ≠ some (.awaiting head) :=
    fun hloop i head hi => hloop (hreply i head hi).1
  cases h with
  | trigger head =>
    refine ⟨hrequest, fun i head hi => ?_, fun i j head head' hi hj => ?_,
      fun i head done hi => ?_, fun i head done hi => ?_⟩
    · exact hreply i head (getElem?_of_append hi (by simp))
    · exact hunique i j head head' (getElem?_of_append hi (by simp))
        (getElem?_of_append hj (by simp))
    · exact hmade i head done (getElem?_of_append hi (by simp))
    · exact (hanswered i head done (getElem?_of_append hi (by simp))).keep
        Iff.rfl rfl rfl rfl rfl rfl
  | refuse caller head loop requesting =>
    have hfree := hnone (by rw [loop]; decide)
    refine hs.set rfl hrequest (fun i head' _ => hfree i head') ⟨Nat.lt_succ_self _, ?_⟩
      (Nat.le_succ _) fun hdone hold => hold.refuse hdone loop rfl
    exact .abandoned loop (mem_append_right _ (mem_singleton.mpr rfl))
  | close =>
    exact ⟨hrequest, hreply, hunique, hmade, fun i head done hi =>
      (hanswered i head done hi).keep Iff.rfl rfl rfl rfl rfl rfl⟩
  | idle loop | observe done loop cur closed =>
    have hfree := hnone (by rw [loop]; decide)
    refine ⟨hrequest, fun i head hi => absurd hi (hfree i head), hunique, hmade,
      fun i head done hi => (hanswered i head done hi).keep ?_ rfl rfl rfl rfl rfl⟩
    simp [loop]
  | start head loop cur launch req =>
    have hfree := hnone (by rw [loop]; decide)
    refine ⟨nofun, fun i head hi => absurd hi (hfree i head), hunique, fun i head done hi => ?_,
      fun i head' done hi => (hanswered i head' done hi).start hchannels (hmade i head' done hi)
        loop req⟩
    exact Nat.lt_succ_of_lt (hmade i head done hi)
  | receive caller head loop requesting =>
    have hfree := hnone (by rw [loop]; decide)
    have hmade : (s.accept caller head).made = s.made := by
      simp only [accept, cancel]
      split <;> rfl
    refine hs.set rfl nofun (fun i head' _ => hfree i head')
      ⟨rfl, rfl, nofun, rfl, head, rfl, .inl ⟨rfl, ?_⟩⟩ (Nat.le_of_eq hmade.symm)
      fun _ hold => hold.receive loop
    exact mem_append_right _ (mem_singleton.mpr rfl)
  | reply caller head loop awaiting =>
    -- the channel goes to the caller whose request the loop has
    have hpending := (hreply caller head awaiting).2
    refine hs.set rfl hrequest
      (fun i head' hne hi => hne (hunique i caller head' head hi awaiting))
      ⟨hchannels.next, .pending (hpending.keep nofun rfl rfl rfl rfl)⟩ (Nat.le_refl _)
      fun _ hold => hold.keep ?_ rfl rfl rfl rfl rfl
    simp [loop]
  | drain loop =>
    have hfree := hnone (by rw [loop]; decide)
    have hcancel : s.cancel = { s with closedCancels := s.cancel.closedCancels } := by
      unfold cancel
      split <;> rfl
    rw [hcancel]
    refine ⟨hrequest, fun i head hi => absurd hi (hfree i head), hunique, hmade,
      fun i head done hi => (hanswered i head done hi).keep ?_ rfl rfl rfl rfl rfl⟩
    simp [loop]
  | exit loop =>
    have hfree := hnone (by rcases loop with loop | loop <;> rw [loop] <;> decide)
    exact ⟨hrequest, fun i head hi => absurd hi (hfree i head), hunique, hmade,
      fun i head done hi => (hanswered i head done hi).exit⟩
  | finish r active =>
    refine ⟨hrequest, fun i head hi => ?_, hunique, hmade,
      fun i head done hi => (hanswered i head done hi).finish rfl⟩
    obtain ⟨hloop, hdone, hne, hlaunch, head', hreq, hrequested⟩ := hreply i head hi
    exact ⟨hloop, hdone, hne, hlaunch, head', hreq, hrequested.append _⟩

/-! ## Runs -/

/-- The invariant of the scheduler. -/
structure Inv (s : Scheduler) : Prop where
  channels : Channels s
  cancels : Cancels s
  answers : Answers s

theorem run_inv {actions : List Action} (h : run step init actions = some s) : Inv s := by
  refine run_invariant Inv (fun _ => True) ?_ (fun _ _ => trivial)
    ⟨channels_init, cancels_init, answers_init⟩ h
  intro s a s' _ hs hstep
  have htaken := taken_of_step hstep
  exact ⟨htaken.channels hs.channels, htaken.cancels hs.cancels,
    htaken.answers hs.answers hs.channels⟩

/-- In every interleaving, at most one run is active, no channel is closed twice, and the channel
of a request is closed after a run for its head or a later one that started after the request has
finished, or at the shutdown. -/
theorem recheck_scheduled {actions : List Action} (h : run step init actions = some s) :
    s.runs.length ≤ 1 ∧ s.closed.Nodup ∧ s.closedCancels.Nodup ∧
    ∀ (i : Nat) head done, s.callers[i]? = some (.returned head done) → done ∈ s.closed →
      (∃ head', Served i head done head' s.history ∧
        ((s.history.filterMap SchedulerEvent.requestedHead).Pairwise (· ≤ ·) → head ≤ head')) ∨
      (s.loop = .exited ∧ .abandoned done ∈ s.history) := by
  obtain ⟨hchannels, hcancels, hanswers⟩ := run_inv h
  refine ⟨?_, hchannels.nodup, hcancels.nodup, fun i head done hi hclosed => ?_⟩
  · obtain ⟨hruns, -⟩ | ⟨r, hruns, -⟩ := hchannels.runs
    · simp [hruns]
    · simp [hruns]
  · cases hanswers.answered i head done hi with
    | pending h => exact absurd hclosed (h.1 ▸ hchannels.nextOpen h.2.1)
    | running head' h next hopen => exact absurd hclosed hopen
    | served head' h => exact .inl ⟨head', h, h.le⟩
    | abandoned loop h => exact .inr ⟨loop, h⟩

/-- Two requests share a run, which starts after a first run was cancelled. A third request is
abandoned at the shutdown. -/
def sharedRun : List Action :=
  [.trigger 1, .launch, .receive 0, .reply 0, .launch, .trigger 2, .receive 1, .reply 1,
    .trigger 3, .launch, .receive 2, .reply 2, .launch, .finish ⟨0, 1, 0⟩, .observe, .launch,
    .trigger 4, .receive 3, .reply 3, .close, .finish ⟨1, 3, 1⟩, .launch, .stop, .drained]

theorem recheck_scheduled_shared : ∃ s, run step init sharedRun = some s ∧
    (∃ head', Served 1 2 1 head' s.history ∧
        ((s.history.filterMap SchedulerEvent.requestedHead).Pairwise (· ≤ ·) → 2 ≤ head')) ∧
      s.loop = .exited ∧ .abandoned 2 ∈ s.history := by
  have hsome : (run step init sharedRun).isSome = true := by decide +kernel
  obtain ⟨s, hs⟩ := isSome_iff_exists.mp hsome
  have hreturned : ∀ s ∈ run step init sharedRun,
      s.callers[1]? = some (.returned 2 1) ∧ 1 ∈ s.closed ∧ s.loop = .exited ∧
        .abandoned 1 ∉ s.history ∧ .abandoned 2 ∈ s.history := by decide +kernel
  obtain ⟨hcaller, hclosed, hloop, hkept, habandoned⟩ := hreturned s hs
  obtain ⟨-, -, -, hanswers⟩ := recheck_scheduled hs
  refine ⟨s, hs, ?_, hloop, habandoned⟩
  obtain hserved | ⟨-, hmem⟩ := hanswers 1 2 1 hcaller hclosed
  · exact hserved
  · exact absurd hmem hkept

end Scheduler

end InfiniteEvm.Mempool
