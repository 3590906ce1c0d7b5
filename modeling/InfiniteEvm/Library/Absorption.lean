import Mathlib.Data.List.Basic

/-!
# Absorption of updates

Updates of a state by key, where the last update of a key counts and updates of different
keys commute. A pass over some keys that is followed by a pass over all of them and more
leaves what the second pass alone leaves.
-/

namespace InfiniteEvm.Library.Absorption

open List

variable {ι P X Y : Type*}

/-- Carry out updates one after another. -/
def updateAll (upd : ι → P → X → X) (us : List (ι × P)) (x : X) : X :=
  us.foldl (fun x u => upd u.1 u.2 x) x

@[simp] theorem updateAll_cons (upd : ι → P → X → X) (u : ι × P) (us : List (ι × P)) (x : X) :
    updateAll upd (u :: us) x = updateAll upd us (upd u.1 u.2 x) := rfl

/-- Updates of which the last one of a key counts, in any order of the keys, as far as the
view of a state shows. -/
structure Lawful (upd : ι → P → X → X) (view : X → Y) : Prop where
  congr : ∀ {x y}, view x = view y → ∀ a p, view (upd a p x) = view (upd a p y)
  absorb : ∀ a p q x, view (upd a q (upd a p x)) = view (upd a q x)
  comm : ∀ {a b}, a ≠ b → ∀ p q x, view (upd a p (upd b q x)) = view (upd b q (upd a p x))

namespace Lawful

variable {upd : ι → P → X → X} {view : X → Y} (h : Lawful upd view)
include h

theorem updateAll_congr {x y : X} (hxy : view x = view y) (us : List (ι × P)) :
    view (updateAll upd us x) = view (updateAll upd us y) := by
  induction us generalizing x y with
  | nil => exact hxy
  | cons u rest ih => exact ih (h.congr hxy u.1 u.2)

/-- An update is absorbed by a pass over its key. -/
theorem updateAll_upd {a : ι} {gs : List (ι × P)} (ha : a ∈ gs.map Prod.fst) (p : P) (x : X) :
    view (updateAll upd gs (upd a p x)) = view (updateAll upd gs x) := by
  induction gs generalizing x with
  | nil => cases ha
  | cons g rest ih =>
    by_cases hg : g.1 = a
    · exact h.updateAll_congr (hg ▸ h.absorb g.1 p g.2 x) rest
    · have hrest : a ∈ rest.map Prod.fst := (mem_cons.mp ha).resolve_left (Ne.symm hg)
      exact (h.updateAll_congr (h.comm hg g.2 p x) rest).trans (ih hrest _)

/-- A pass is absorbed by a later one over its keys and more. -/
theorem updateAll_absorb {fs gs : List (ι × P)} (hsub : fs.map Prod.fst ⊆ gs.map Prod.fst)
    (x : X) : view (updateAll upd gs (updateAll upd fs x)) = view (updateAll upd gs x) := by
  induction fs generalizing x with
  | nil => rfl
  | cons f rest ih =>
    obtain ⟨hf, hrest⟩ := cons_subset.mp hsub
    exact (ih hrest _).trans (h.updateAll_upd hf f.2 x)

end Lawful

end InfiniteEvm.Library.Absorption
