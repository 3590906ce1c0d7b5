import Mathlib.Data.List.Basic

/-!
# Histories of events

A history is a list of events, the oldest first. `After` says that an event occurs once the
earlier part of the history has a property.
-/

namespace InfiniteEvm.Library.Histories

open List

variable {E : Type*} {P Q : List E → Prop} {e : E} {history : List E}

/-- The event occurs, after a part of the history with the property. -/
def After (P : List E → Prop) (e : E) (history : List E) : Prop :=
  ∃ before later, history = before ++ e :: later ∧ P before

theorem After.append (h : After P e history) (more : List E) : After P e (history ++ more) := by
  obtain ⟨before, later, rfl, hp⟩ := h
  exact ⟨before, later ++ more, by rw [append_assoc, cons_append], hp⟩

theorem After.last (h : P history) (e : E) : After P e (history ++ [e]) :=
  ⟨history, [], rfl, h⟩

/-- Numbers that never decrease along the history do not decrease from an event to a later one. -/
theorem After.le {number : E → Option Int} {d : E} {m n : Int}
    (h : After (fun before => d ∈ before) e history)
    (hsorted : (history.filterMap number).Pairwise (· ≤ ·))
    (hd : number d = some m) (he : number e = some n) : m ≤ n := by
  obtain ⟨before, later, rfl, hmem⟩ := h
  rw [filterMap_append, filterMap_cons_some he, pairwise_append] at hsorted
  exact hsorted.2.2 m (mem_filterMap.mpr ⟨d, hmem, hd⟩) n (mem_cons_self ..)

end InfiniteEvm.Library.Histories
