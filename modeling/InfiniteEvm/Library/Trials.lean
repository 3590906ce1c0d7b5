import Mathlib.Data.List.Basic

/-!
# Trials on one state

Operations are tried one after the other on a state. Each starts where the one before ended,
whether that succeeded or not. What a trial should start from is the state with the effects of
exactly the successful ones before it.
-/

namespace InfiniteEvm.Library.Trials

open List

/-- A trial: the state before and after it, and whether it succeeded. -/
structure Trial (S : Type*) where
  before : S
  after : S
  ok : Bool

variable {S : Type*} {ts : List (Trial S)}

/-- The state that is to be kept. -/
def keep (s : S) (t : Trial S) : S := if t.ok then t.after else s

/-- The state with the effects of exactly the successful trials. -/
def kept (s : S) (ts : List (Trial S)) : S := ts.foldl keep s

/-- The state that the last trial left. -/
def reached (s : S) (ts : List (Trial S)) : S := ts.foldl (fun _ t => t.after) s

/-- Every trial starts where the one before ended. -/
def Chained : S → List (Trial S) → Prop
  | _, [] => True
  | s, t :: rest => t.before = s ∧ Chained t.after rest

/-- Every trial starts from the effects of the successful ones. -/
def Isolated : S → List (Trial S) → Prop
  | _, [] => True
  | s, t :: rest => t.before = s ∧ Isolated (keep s t) rest

/-- No failed trial that another one follows changed the state. -/
def Traceless : List (Trial S) → Prop
  | t :: u :: rest => (t.ok = true ∨ t.after = t.before) ∧ Traceless (u :: rest)
  | _ => True

theorem chained_concat {s : S} {t : Trial S} :
    Chained s (ts ++ [t]) ↔ Chained s ts ∧ t.before = reached s ts := by
  induction ts generalizing s with
  | nil => simp [Chained, reached]
  | cons u rest ih =>
    simp only [cons_append, Chained, ih, reached, foldl_cons, and_assoc]

theorem kept_concat (s : S) (ts : List (Trial S)) (t : Trial S) :
    kept s (ts ++ [t]) = keep (kept s ts) t := by
  simp [kept, foldl_append]

theorem reached_concat (s : S) (ts : List (Trial S)) (t : Trial S) :
    reached s (ts ++ [t]) = t.after := by
  simp [reached, foldl_append]

theorem kept_append (s : S) (ts us : List (Trial S)) : kept s (ts ++ us) = kept (kept s ts) us :=
  foldl_append

theorem isolated_append {s : S} {us : List (Trial S)} :
    Isolated s (ts ++ us) ↔ Isolated s ts ∧ Isolated (kept s ts) us := by
  induction ts generalizing s with
  | nil => simp [Isolated, kept]
  | cons t rest ih =>
    simp only [cons_append, Isolated, ih, kept, foldl_cons, and_assoc]

/-- Exactly the trials that leave no trace when they fail are isolated. -/
theorem isolated_iff_traceless {s : S} (h : Chained s ts) : Isolated s ts ↔ Traceless ts := by
  induction ts generalizing s with
  | nil => exact iff_of_true trivial trivial
  | cons t rest ih =>
    obtain ⟨hbefore, hrest⟩ := h
    cases rest with
    | nil => exact iff_of_true ⟨hbefore, trivial⟩ trivial
    | cons u rest =>
      simp only [Isolated, Traceless, hbefore, true_and]
      cases hok : t.ok with
      | true =>
        simp only [keep, hok, if_true, true_or, true_and]
        exact ih hrest
      | false =>
        simp only [keep, hok, Bool.false_eq_true, if_false, false_or]
        constructor
        · rintro ⟨hu, hisolated⟩
          have hsame : t.after = s := hrest.1.symm.trans hu
          exact ⟨hsame, (ih (hsame ▸ hrest)).mp ⟨hu, hisolated⟩⟩
        · rintro ⟨hsame, htraceless⟩
          exact (ih (hsame ▸ hrest)).mpr htraceless

end InfiniteEvm.Library.Trials
