import Std.Data.ExtTreeMap
import Mathlib.Algebra.BigOperators.Group.Finset.Basic
import Mathlib.Algebra.BigOperators.Group.Finset.Piecewise
import Mathlib.Algebra.Order.BigOperators.Group.Finset
import Mathlib.Data.Finset.Insert
import Mathlib.Data.List.Sort

/-!
# Finite maps with ordered keys

A Go map is used in two ways: entries are looked up, written and deleted, and the
whole map is walked in sorted key order. Both are available on extensional tree
maps. The lemmas here say what a walk does: one that writes each entry at its own
key, and one that adds the entries up.
-/

namespace InfiniteEvm.Library

open Std ExtTreeMap

/-- Finite maps compared by their entries and walked in increasing key order. -/
abbrev FMap (K : Type*) [Ord K] (V : Type*) := ExtTreeMap K V compare

namespace FMap

variable {K V W D X : Type*} (f : D → K → W → D) (read : D → K → X)

private theorem foldl_not_mem (hf : ∀ d k w k', k ≠ k' → read (f d k w) k' = read d k')
    (items : List (K × W)) (d : D) (k : K) (h : ∀ p ∈ items, p.1 ≠ k) :
    read (items.foldl (fun a p => f a p.1 p.2) d) k = read d k := by
  induction items generalizing d with
  | nil => rfl
  | cons p rest ih =>
    rw [List.foldl_cons, ih _ (fun q hq => h q (List.mem_cons_of_mem _ hq))]
    exact hf d p.1 p.2 k (h p (List.mem_cons_self ..))

private theorem foldl_mem (value : W → X) (hself : ∀ d k w, read (f d k w) k = value w)
    (hother : ∀ d k w k', k ≠ k' → read (f d k w) k' = read d k') (items : List (K × W))
    (hd : items.Pairwise fun p q => p.1 ≠ q.1) (d : D) (k : K) (w : W) (h : (k, w) ∈ items) :
    read (items.foldl (fun a p => f a p.1 p.2) d) k = value w := by
  induction items generalizing d with
  | nil => simp at h
  | cons p rest ih =>
    obtain ⟨hp, hrest⟩ := List.pairwise_cons.mp hd
    rw [List.foldl_cons]
    rcases List.mem_cons.mp h with rfl | hmem
    · rw [foldl_not_mem f read hother rest _ k (fun q hq => (hp q hq).symm)]
      exact hself d k w
    · exact ih hrest _ hmem

private theorem foldl_add [AddCommMonoid V] (items : List (K × V)) (d : V) :
    items.foldl (fun a p => a + p.2) d = d + (items.map Prod.snd).sum := by
  induction items generalizing d with
  | nil => simp
  | cons p rest ih => simp [ih, add_assoc]

variable [Ord K] [TransOrd K] {m : FMap K V}

theorem mem_iff_get {a : K} : a ∈ m ↔ ∃ v, m[a]? = some v := by
  rw [mem_iff_isSome_getElem?, Option.isSome_iff_exists]

theorem notMem_iff_get {a : K} : a ∉ m ↔ m[a]? = none := by
  rw [mem_iff_isSome_getElem?, Option.not_isSome_iff_eq_none]

variable [LawfulEqOrd K]

theorem keys_nodup (m : FMap K W) : m.keys.Nodup := by
  refine (distinct_keys (t := m)).imp ?_
  intro a b hab heq
  exact hab (LawfulEqCmp.compare_eq_iff_eq.mpr heq)

/-- The keys of a map are walked in the order of any map that has them all. -/
theorem keys_sublist {m : FMap K W} {m' : FMap K V} (h : ∀ k, k ∈ m → k ∈ m') :
    m.keys.Sublist m'.keys := by
  have hanti : Std.Antisymm fun a b : K => compare a b = .lt := by
    refine ⟨fun a b hab hba => ?_⟩
    rw [OrientedCmp.gt_of_lt hab] at hba
    cases hba
  refine List.sublist_of_subperm_of_pairwise (List.subperm_of_subset (keys_nodup m) ?_)
    ordered_keys ordered_keys
  exact fun k hk => mem_keys.mpr (h k (mem_keys.mp hk))

theorem toList_distinct (m : FMap K W) : m.toList.Pairwise fun p q => p.1 ≠ q.1 := by
  have h : m.keys.Pairwise fun a b => a ≠ b := keys_nodup m
  rw [← map_fst_toList_eq_keys, List.pairwise_map] at h
  exact h

/-- A walk that writes every entry at its own key leaves, at each key, the value of
the entry there, and what was there before when the walked map has no such entry. -/
theorem read_foldl (value : W → X) (hself : ∀ d k w, read (f d k w) k = value w)
    (hother : ∀ d k w k', k ≠ k' → read (f d k w) k' = read d k') (m : FMap K W) (d : D) (k : K) :
    read (m.foldl f d) k = (m[k]?).elim (read d k) value := by
  rw [foldl_eq_foldl_toList]
  cases h : m[k]? with
  | none =>
    apply foldl_not_mem f read hother
    rintro ⟨k', w⟩ hp rfl
    have hs := mem_toList_iff_getElem?_eq_some.mp hp
    simp [h] at hs
  | some w =>
    exact foldl_mem f read value hself hother m.toList (toList_distinct m) d k w
      (mem_toList_iff_getElem?_eq_some.mpr h)

/-- The sum of all entries, as a walk that adds them up computes it. -/
def total [AddCommMonoid V] (m : FMap K V) : V := m.foldl (fun acc _ v => acc + v) 0

/-- The entry at a key, zero when there is none. -/
def entry [Zero V] (m : FMap K V) (k : K) : V := (m[k]?).getD 0

private theorem sum_snd [AddCommMonoid V] (m : FMap K V) :
    (m.toList.map Prod.snd).sum = (m.keys.map (entry m)).sum := by
  rw [← map_fst_toList_eq_keys, List.map_map]
  congr 1
  apply List.map_congr_left
  rintro ⟨k, v⟩ hp
  simp [entry, mem_toList_iff_getElem?_eq_some.mp hp]

variable [DecidableEq K]

theorem get_insert (m : FMap K V) (k a : K) (v : V) :
    (m.insert k v)[a]? = if k = a then some v else m[a]? := by
  simp [getElem?_insert]

theorem get_erase (m : FMap K V) (k a : K) : (m.erase k)[a]? = if k = a then none else m[a]? := by
  simp [getElem?_erase]

/-- The keys as a finite set. -/
def keySet (m : FMap K V) : Finset K := m.keys.toFinset

theorem mem_keySet (m : FMap K V) (k : K) : k ∈ keySet m ↔ k ∈ m := by
  simp [keySet]

theorem entry_eq_zero [Zero V] {k : K} (h : k ∉ keySet m) : entry m k = 0 := by
  rw [mem_keySet, mem_iff_isSome_getElem?] at h
  simp [entry, Option.not_isSome_iff_eq_none.mp h]

/-- The walk adds up exactly the entries, in any order and over any larger key set. -/
theorem total_eq_sum [AddCommMonoid V] (m : FMap K V) {s : Finset K} (hs : keySet m ⊆ s) :
    total m = ∑ k ∈ s, entry m k := by
  calc
    total m = (m.keys.map (entry m)).sum := by
      rw [total, foldl_eq_foldl_toList, foldl_add, zero_add, sum_snd]
    _ = ∑ k ∈ keySet m, entry m k := (List.sum_toFinset (entry m) (keys_nodup m)).symm
    _ = ∑ k ∈ s, entry m k := Finset.sum_subset hs fun k _ hk => entry_eq_zero hk

/-- Two maps that agree away from one key have totals that differ by the two entries
there. -/
theorem total_change [AddCommGroup V] (m m' : FMap K V) (k : K)
    (h : ∀ k', k' ≠ k → m'[k']? = m[k']?) : total m' = total m - entry m k + entry m' k := by
  let s := insert k (keySet m ∪ keySet m')
  have hk : k ∈ s := Finset.mem_insert_self _ _
  have hm : keySet m ⊆ s := Finset.subset_union_left.trans (Finset.subset_insert _ _)
  have hm' : keySet m' ⊆ s := Finset.subset_union_right.trans (Finset.subset_insert _ _)
  rw [total_eq_sum m hm, total_eq_sum m' hm', ← Finset.add_sum_erase s _ hk,
    ← Finset.add_sum_erase s (entry m) hk]
  have hrest : ∑ x ∈ s.erase k, entry m' x = ∑ x ∈ s.erase k, entry m x := by
    apply Finset.sum_congr rfl
    intro x hx
    simp [entry, h x (Finset.ne_of_mem_erase hx)]
  rw [hrest, add_sub_cancel_left, add_comm]

/-- Entries that are not negative add up to at most the total. -/
theorem sum_entry_le_total [AddCommGroup V] [PartialOrder V] [IsOrderedAddMonoid V]
    (m : FMap K V) (h : ∀ k, 0 ≤ entry m k) (s : Finset K) : ∑ k ∈ s, entry m k ≤ total m := by
  rw [total_eq_sum m (s := s ∪ keySet m) Finset.subset_union_right]
  exact Finset.sum_le_sum_of_subset_of_nonneg Finset.subset_union_left fun k _ _ => h k

end FMap

end InfiniteEvm.Library
