import InfiniteEvm.Library.Runs
import Mathlib.Data.List.Perm.Basic

/-!
# The insert queue

`mempool/internal/queue`. `Push` looks for room, appends and signals in three steps. The loop
takes all items at once, and sends the errors of an insertion to the subscriptions by position.
Producers and the loop take their steps in any order.
-/

namespace InfiniteEvm.Mempool

open Library Runs List Option

/-- A transaction with its subscription, by its number among those that were made. -/
abbrev InsertItem (τ : Type*) := Nat × τ

/-- What a subscription is closed with. -/
inductive InsertReply (ε : Type*)
  | nothing
  | queueFull
  | inserted (err : ε)

/-- The error of an insertion. -/
def InsertReply.error? {ε : Type*} : InsertReply ε → Option ε
  | inserted err => some err
  | _ => none

/-- Where `loop` stands. -/
inductive InsertLoop (τ : Type*)
  | top
  | waitForNewTxs
  | popping
  | inserting (batch : List (InsertItem τ))
  | replied
  | returned

/-- The items that are popped and not inserted. -/
def InsertLoop.batch {τ : Type*} : InsertLoop τ → List (InsertItem τ)
  | inserting batch => batch
  | _ => []

/-- `Queue`, with the calls of `Push` that have found room or appended, and what was appended,
inserted and sent. -/
structure InsertQueue (τ ε : Type*) where
  maxSize : Nat
  producers : Nat
  queue : List (InsertItem τ) := []
  signal : Bool := false
  done : Bool := false
  loop : InsertLoop τ := .top
  subscriptions : Nat := 0
  admitted : List (InsertItem τ) := []
  signalling : Nat := 0
  appended : List (InsertItem τ) := []
  inserted : List (InsertItem τ × ε) := []
  replies : List (Nat × InsertReply ε) := []

/-- The steps of `Push`, of `loop`, and `Close`. -/
inductive QueueStep (τ ε : Type*)
  /-- `Push` up to `isFull`. The transaction may be nil. -/
  | push (tx : Option τ)
  | append (caller : Nat)
  | signal
  /-- `loop`, with the case that it selects if it waits, and what `insert` returns. -/
  | loop (woken : Bool) (errs : List ε)
  | close

namespace InsertQueue

variable {τ ε : Type*} {q q' : InsertQueue τ ε} {steps : List (QueueStep τ ε)}
  {maxSize producers : Nat}

/-- `New`. -/
def new (maxSize producers : Nat) : InsertQueue τ ε := { maxSize, producers }

/-- A step of `loop`. A wrong number of errors ends the process. -/
def work (q : InsertQueue τ ε) (woken : Bool) (errs : List ε) : Option (InsertQueue τ ε) :=
  match q.loop with
  | .top => some { q with loop := if q.queue.isEmpty then .waitForNewTxs else .popping }
  | .waitForNewTxs =>
    if woken then
      if q.signal then some { q with signal := false, loop := .top } else none
    else if q.done then some { q with loop := .returned } else none
  | .popping => some { q with queue := [], loop := .inserting q.queue }
  | .inserting batch =>
    if errs.length = batch.length then
      some { q with
        loop := .replied
        inserted := q.inserted ++ batch.zip errs
        replies := q.replies ++ (batch.map Prod.fst).zip (errs.map .inserted) }
    else none
  | .replied => some { q with loop := if q.done then .returned else .top }
  | .returned => none

/-- `Push` returns a subscription that is closed. -/
def refuse (q : InsertQueue τ ε) (reply : InsertReply ε) : InsertQueue τ ε :=
  { q with
    subscriptions := q.subscriptions + 1
    replies := q.replies ++ [(q.subscriptions, reply)] }

/-- A step, if it can be taken. A producer makes one call at a time. -/
def step (q : InsertQueue τ ε) : QueueStep τ ε → Option (InsertQueue τ ε)
  | .push tx =>
    if q.producers ≤ q.admitted.length + q.signalling then none
    else
      match tx with
      | none => some (q.refuse .nothing)
      | some tx =>
        if q.maxSize ≤ q.queue.length then some (q.refuse .queueFull)
        else some { q with
          subscriptions := q.subscriptions + 1
          admitted := q.admitted ++ [(q.subscriptions, tx)] }
  | .append caller =>
    q.admitted[caller]?.map fun item => { q with
      admitted := q.admitted.eraseIdx caller
      queue := q.queue ++ [item]
      appended := q.appended ++ [item]
      signalling := q.signalling + 1 }
  | .signal =>
    if q.signalling = 0 then none
    else some { q with signalling := q.signalling - 1, signal := true }
  | .loop woken errs => q.work woken errs
  | .close => if q.done then none else some { q with done := true }

/-- The errors of insertions, as they were sent. -/
def results (q : InsertQueue τ ε) : List (Nat × ε) :=
  q.replies.filterMap fun r => r.2.error?.map (r.1, ·)

/-- The subscriptions that are closed, and those of items on their way. -/
def subs (q : InsertQueue τ ε) : List Nat :=
  q.replies.map Prod.fst ++ (q.loop.batch ++ q.queue ++ q.admitted).map Prod.fst

/-- What producers and subscribers can rely on between any two steps. -/
structure Delivers (q : InsertQueue τ ε) : Prop where
  /-- What was appended is inserted in this order, is popped, or is queued. -/
  fifo : q.appended = q.inserted.map Prod.fst ++ (q.loop.batch ++ q.queue)
  /-- The error that a subscription gets is that of its own transaction. -/
  own : q.results = q.inserted.map fun x => (x.1.1, x.2)
  /-- Every subscription is closed once, or has one item on its way. -/
  once : q.subs.Perm (range q.subscriptions)
  /-- The loop does not wait beside a queue with items without a signal to come. -/
  woken : q.loop = .waitForNewTxs → q.queue ≠ [] → q.signal = true ∨ 0 < q.signalling
  /-- Each producer but one may exceed the size by an item. -/
  room : q.queue.length + q.admitted.length ≤ q.maxSize - 1 + q.producers

theorem delivers_new : (new maxSize producers : InsertQueue τ ε).Delivers := by
  constructor <;> simp [new, results, subs, InsertLoop.batch]

/-- One more subscription is made. -/
theorem Delivers.once_cons (h : q.Delivers) {subs : List Nat}
    (hsubs : subs.Perm (q.subscriptions :: q.subs)) : subs.Perm (range (q.subscriptions + 1)) := by
  rw [range_succ]
  exact hsubs.trans ((h.once.cons _).trans (perm_append_singleton ..).symm)

theorem delivers_refuse {reply : InsertReply ε} (h : q.Delivers) (hreply : reply.error? = none) :
    (q.refuse reply).Delivers := by
  refine ⟨h.fifo, ?_, h.once_cons ?_, h.woken, h.room⟩
  · simpa [results, refuse, hreply] using h.own
  · simp only [subs, refuse, map_append, map_cons, map_nil, append_assoc]
    exact perm_middle

/-- The loop moves on without items. It waits only if it has found the queue empty. -/
theorem Delivers.move (h : q.Delivers) {loop : InsertLoop τ} (signal : Bool)
    (hfrom : q.loop.batch = []) (hto : loop.batch = [])
    (hwait : loop = .waitForNewTxs → q.queue = []) : { q with signal, loop }.Delivers := by
  obtain ⟨hfifo, hown, honce, -, hroom⟩ := h
  unfold subs at honce
  rw [hfrom] at hfifo honce
  refine ⟨?_, hown, ?_, fun hloop hqueue => absurd (hwait hloop) hqueue, hroom⟩
  · simpa [hto] using hfifo
  · simpa [subs, hto] using honce

theorem delivers_work {woken : Bool} {errs : List ε} (h : q.Delivers)
    (hwork : q.work woken errs = some q') : q'.Delivers := by
  unfold work at hwork
  split at hwork
  · rename_i hloop
    cases hwork
    refine h.move q.signal (by rw [hloop]; rfl) (by split <;> rfl) fun hwait => ?_
    split at hwait
    · exact isEmpty_iff.mp ‹_›
    · cases hwait
  · rename_i hloop
    split_ifs at hwork
    all_goals
      cases hwork
      exact h.move _ (by rw [hloop]; rfl) rfl (by simp)
  · rename_i hloop
    cases hwork
    obtain ⟨hfifo, hown, honce, -, hroom⟩ := h
    simp only [subs, hloop, InsertLoop.batch, nil_append] at hfifo honce
    refine ⟨?_, hown, ?_, by simp, ?_⟩
    · simpa [InsertLoop.batch] using hfifo
    · simpa [subs, InsertLoop.batch] using honce
    · dsimp only [length_nil]
      omega
  · rename_i batch hloop
    split_ifs at hwork with hlength
    cases hwork
    obtain ⟨hfifo, hown, honce, -, hroom⟩ := h
    simp only [subs, hloop, InsertLoop.batch] at hfifo honce
    have hzip : (batch.map Prod.fst).zip (errs.map InsertReply.inserted) =
        (batch.zip errs).map fun x => (x.1.1, .inserted x.2) := zip_map ..
    have hfst : (batch.zip errs).map Prod.fst = batch := map_fst_zip (by omega)
    refine ⟨?_, ?_, ?_, by simp, hroom⟩
    · simpa [InsertLoop.batch, hfst] using hfifo
    · have herror : ∀ err : ε, (InsertReply.inserted err).error? = some err := fun _ => rfl
      unfold results at hown ⊢
      simp [hzip, hown, herror, filterMap_map]
    · have hsubs : ((batch.zip errs).map fun x => x.1.1) = batch.map Prod.fst := by
        conv_rhs => rw [← hfst, List.map_map]
        rfl
      simpa [subs, InsertLoop.batch, hzip, Function.comp_def, hsubs] using honce
  · rename_i hloop
    cases hwork
    exact h.move q.signal (by rw [hloop]; rfl) (by split <;> rfl) (by split <;> simp)
  · cases hwork

theorem delivers_step {step : QueueStep τ ε} (h : q.Delivers) (hstep : q.step step = some q') :
    q'.Delivers := by
  cases step with
  | push tx =>
    cases tx with
    | none =>
      simp only [InsertQueue.step] at hstep
      split_ifs at hstep
      cases hstep
      exact delivers_refuse h rfl
    | some tx =>
      simp only [InsertQueue.step] at hstep
      split_ifs at hstep with hcalls hfull
      · cases hstep
        exact delivers_refuse h rfl
      · cases hstep
        refine ⟨h.fifo, h.own, h.once_cons ?_, h.woken, ?_⟩
        · simp only [subs, map_append, map_cons, map_nil, ← append_assoc]
          exact perm_append_singleton ..
        · have hroom := h.room
          simp only [length_append, length_singleton]
          omega
  | append caller =>
    obtain ⟨item, hitem, rfl⟩ := map_eq_some_iff.mp hstep
    obtain ⟨hlt, rfl⟩ := List.getElem?_eq_some_iff.mp hitem
    have hperm := getElem_cons_eraseIdx_perm hlt
    refine ⟨?_, h.own, ?_, fun _ _ => .inr (Nat.succ_pos _), ?_⟩
    · simp [h.fifo]
    · refine .trans ?_ h.once
      refine .append_left _ (.map _ ?_)
      rw [← append_assoc, append_assoc, singleton_append]
      exact hperm.append_left _
    · have hlength := hperm.length_eq
      have hroom := h.room
      simp only [length_append, length_cons, length_nil] at *
      omega
  | signal =>
    simp only [InsertQueue.step] at hstep
    split_ifs at hstep
    cases hstep
    exact ⟨h.fifo, h.own, h.once, fun _ _ => .inl rfl, h.room⟩
  | loop woken errs => exact delivers_work h hstep
  | close =>
    simp only [InsertQueue.step] at hstep
    split_ifs at hstep
    cases hstep
    exact ⟨h.fifo, h.own, h.once, h.woken, h.room⟩

end InsertQueue

end InfiniteEvm.Mempool
