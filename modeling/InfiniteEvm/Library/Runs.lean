import Mathlib.Data.List.Basic

/-!
# Runs of partial step functions

A step may panic, which is `none`. A run takes the steps of a list one after another
and stops at the first panic. Invariants and simulations are proved for one step and
carried to whole runs here. The last section is about steps that cannot panic.
-/

namespace InfiniteEvm.Library.Runs

variable {S T I : Type*} {items : List I} (step : S → I → Option S)

/-- The state after taking all steps, if none of them panics. -/
def run (step : S → I → Option S) : S → List I → Option S
  | s, [] => some s
  | s, i :: rest => (step s i).bind fun s' => run step s' rest

@[simp] theorem run_nil (s : S) : run step s [] = some s := rfl

@[simp] theorem run_cons (s : S) (i : I) (rest : List I) :
    run step s (i :: rest) = (step s i).bind fun s' => run step s' rest := rfl

theorem run_append (s : S) (xs ys : List I) :
    run step s (xs ++ ys) = (run step s xs).bind fun s' => run step s' ys := by
  induction xs generalizing s with
  | nil => rfl
  | cons i rest ih =>
    simp only [List.cons_append, run_cons]
    cases step s i with
    | none => rfl
    | some s' => exact ih s'

/-- A property kept by every step allowed in the run holds at its end. -/
theorem run_invariant {step : S → I → Option S} (P : S → Prop) (allowed : I → Prop)
    (hstep : ∀ s i s', allowed i → P s → step s i = some s' → P s') {s s' : S}
    (hall : ∀ i ∈ items, allowed i) (hs : P s) (hrun : run step s items = some s') : P s' := by
  induction items generalizing s with
  | nil =>
    cases hrun
    exact hs
  | cons i rest ih =>
    rw [run_cons, Option.bind_eq_some_iff] at hrun
    obtain ⟨t, ht, hrest⟩ := hrun
    exact ih (fun j hj => hall j (List.mem_cons_of_mem _ hj))
      (hstep s i t (hall i (List.mem_cons_self ..)) hs ht) hrest

/-- If one system answers every step of another and stays related to it, it answers
every run of it. -/
theorem run_simulation {stepS : S → I → Option S} {stepT : T → I → Option T} (R : S → T → Prop)
    (hstep : ∀ s t i t', R s t → stepT t i = some t' → ∃ s', stepS s i = some s' ∧ R s' t') {s : S}
    {t t' : T} (hst : R s t) (hrun : run stepT t items = some t') :
    ∃ s', run stepS s items = some s' ∧ R s' t' := by
  induction items generalizing s t with
  | nil =>
    cases hrun
    exact ⟨s, rfl, hst⟩
  | cons i rest ih =>
    rw [run_cons, Option.bind_eq_some_iff] at hrun
    obtain ⟨u, hu, hrest⟩ := hrun
    obtain ⟨s₁, hs₁, hR⟩ := hstep s t i u hst hu
    obtain ⟨s', hs', hR'⟩ := ih hR hrest
    exact ⟨s', by simp [hs₁, hs'], hR'⟩

section Total

variable {step : S → I → S} {clean : S → I → Prop}

/-- Every step of the run is clean in the state in which it is taken. -/
def Along (step : S → I → S) (clean : S → I → Prop) : S → List I → Prop
  | _, [] => True
  | s, i :: rest => clean s i ∧ Along step clean (step s i) rest

/-- A property that exactly the clean steps keep holds in all states of exactly the clean runs. -/
theorem forall_take_iff_along (P Q : S → Prop) (hQ : ∀ {s} i, Q s → Q (step s i))
    (hP : ∀ {s} i, Q s → P s → (P (step s i) ↔ clean s i)) {s : S} (hs : Q s) (hp : P s) :
    (∀ n, P ((items.take n).foldl step s)) ↔ Along step clean s items := by
  induction items generalizing s with
  | nil => simpa [Along] using hp
  | cons i rest ih =>
    constructor
    · intro h
      have hnext : P (step s i) := h 1
      exact ⟨(hP i hs hp).mp hnext, (ih (hQ i hs) hnext).mp fun n => h (n + 1)⟩
    · rintro ⟨hclean, hrest⟩ n
      cases n with
      | zero => exact hp
      | succ n => exact (ih (hQ i hs) ((hP i hs hp).mpr hclean)).mpr hrest n

end Total

end InfiniteEvm.Library.Runs
