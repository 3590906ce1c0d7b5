import Mathlib.Algebra.BigOperators.Finprod
import Mathlib.Algebra.BigOperators.Group.List.Basic

/-!
# Sums over a family with finitely many nonzero members

A change at finitely many places changes the sum of the family by what it changes there.
The places may be named by another type, as long as no two names are for one place.
-/

namespace InfiniteEvm.Library

open Function List

variable {ι α M : Type*} [AddCommGroup M] {f g : ι → M}

/-- Two families that agree outside of the places that a list names. -/
theorem finsum_of_eq_off [DecidableEq ι] {place : α → ι} (hplace : Injective place)
    {names : List α} (hnodup : names.Nodup) (hf : (support f).Finite)
    (h : ∀ i, (∀ a ∈ names, i ≠ place a) → g i = f i) :
    (support g).Finite ∧
      ∑ᶠ i, g i = ∑ᶠ i, f i + (names.map fun a => g (place a) - f (place a)).sum := by
  have hsub : support (g - f) ⊆ ((names.map place).toFinset : Set ι) := by
    intro i hi
    rw [coe_toFinset, Set.mem_ofPred_eq, mem_map]
    by_contra hnot
    refine hi (sub_eq_zero.mpr (h i fun a ha heq => hnot ⟨a, ha, heq.symm⟩))
  have hdiff : (support (g - f)).Finite := (Finset.finite_toSet _).subset hsub
  have hadd : g = f + (g - f) := (add_sub_cancel f g).symm
  constructor
  · rw [hadd]
    exact (hf.union hdiff).subset (support_add f (g - f))
  · calc ∑ᶠ i, g i = ∑ᶠ i, (f i + (g - f) i) := finsum_congr fun i => congrFun hadd i
      _ = ∑ᶠ i, f i + ∑ᶠ i, (g - f) i := finsum_add_distrib hf hdiff
      _ = ∑ᶠ i, f i + (names.map fun a => g (place a) - f (place a)).sum := by
          rw [finsum_eq_sum_of_support_subset _ hsub, sum_toFinset _ (hnodup.map hplace), map_map]
          rfl

theorem finsum_update [DecidableEq ι] (hf : (support f).Finite) (i : ι) (x : M) :
    (support (update f i x)).Finite ∧ ∑ᶠ j, update f i x j = ∑ᶠ j, f j + (x - f i) := by
  obtain ⟨hfinite, hsum⟩ := finsum_of_eq_off (g := update f i x) injective_id
    (nodup_singleton i) hf fun j hj => update_of_ne (hj i (mem_singleton_self i)) _ _
  refine ⟨hfinite, hsum.trans ?_⟩
  rw [map_singleton, sum_singleton, id, update_self]

end InfiniteEvm.Library
