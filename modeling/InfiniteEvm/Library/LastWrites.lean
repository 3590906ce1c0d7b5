import Mathlib.Data.List.Induction
import Mathlib.Data.List.Nodup

/-!
# Keyed writes, one after another

Items are written at their keys in the order of a list. What is read at a key afterwards
is the last item written there. A loop that keeps the keys it has seen accepts every key
once.
-/

namespace InfiniteEvm.Library.LastWrites

open List Option

variable {P K X D : Type*} {key : P → K} {items : List P} {p : P} {k : K}

/-- The keys of the items differ from each other and from those seen before. -/
def Fresh (key : P → K) (seen : List K) (items : List P) : Prop :=
  (∀ p ∈ items, key p ∉ seen) ∧ (items.map key).Nodup

@[simp] theorem fresh_nil (seen : List K) : Fresh key seen [] := ⟨by simp, .nil⟩

theorem fresh_iff_nodup : Fresh key [] items ↔ (items.map key).Nodup := by simp [Fresh]

theorem fresh_cons {seen : List K} :
    Fresh key seen (p :: items) ↔ key p ∉ seen ∧ Fresh key (key p :: seen) items := by
  simp only [Fresh, map_cons, nodup_cons, List.mem_map, mem_cons]
  grind

variable [DecidableEq K]

/-- The last item of a list with a given key. -/
def lastWrite (key : P → K) (items : List P) (k : K) : Option P :=
  items.reverse.find? fun p => key p = k

theorem mem_of_lastWrite (h : lastWrite key items k = some p) : p ∈ items ∧ key p = k :=
  ⟨mem_reverse.mp (mem_of_find?_eq_some h), by simpa using find?_some h⟩

theorem exists_lastWrite (hp : p ∈ items) : ∃ q, lastWrite key items (key p) = some q := by
  rw [← isSome_iff_exists, lastWrite, find?_isSome]
  exact ⟨p, mem_reverse.mpr hp, by simp⟩

section

variable (read : D → K → Option X) {write : D → P → D} {value : P → X}
  (hwrite : ∀ d p k, read (write d p) k = if key p = k then some (value p) else read d k)
include hwrite

theorem read_foldl (items : List P) (d : D) (k : K) :
    read (items.foldl write d) k = ((lastWrite key items k).map value).or (read d k) := by
  induction items using reverseRecOn with
  | nil => rfl
  | append_singleton items p ih =>
    rw [foldl_append, foldl_cons, foldl_nil, hwrite, ih]
    simp only [lastWrite, reverse_append, reverse_cons, reverse_nil,
      nil_append, cons_append, find?_cons]
    by_cases hp : key p = k <;> simp [hp]

theorem read_foldl_eq_some {d : D} (hd : read d k = none) {x : X} :
    read (items.foldl write d) k = some x ↔ ∃ p, lastWrite key items k = some p ∧ value p = x := by
  rw [read_foldl read hwrite, hd, or_none, map_eq_some_iff]

end

/-- Every item is the last at its key exactly if no key is written twice. -/
theorem nodup_map_iff (hd : items.Nodup) :
    (items.map key).Nodup ↔ ∀ p ∈ items, lastWrite key items (key p) = some p := by
  constructor
  · intro hkeys p hp
    obtain ⟨q, hq⟩ : ∃ q, lastWrite key items (key p) = some q := exists_lastWrite hp
    obtain ⟨hmem, hkey⟩ := mem_of_lastWrite hq
    rw [hq, inj_on_of_nodup_map hkeys hmem hp hkey]
  · intro hlast
    refine hd.map_on fun p hp q hq hkey => ?_
    have hp' := hlast p hp
    rw [hkey, hlast q hq] at hp'
    exact (some.inj hp').symm

end InfiniteEvm.Library.LastWrites
