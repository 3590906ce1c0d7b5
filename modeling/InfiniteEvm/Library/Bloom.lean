import Mathlib.Data.BitVec

/-!
# Bloom filters

An item sets the bits of its pattern. It may be in a filter if all of its bits are set there,
so that an item that was added is never missed.
-/

namespace InfiniteEvm.Library.Bloom

open BitVec

variable {A : Type*} {w : Nat} (pattern : A → BitVec w) {b b' : BitVec w} {a : A}

/-- All bits of the item are set. -/
def test (b : BitVec w) (a : A) : Bool := b &&& pattern a = pattern a

/-- The filter of a list of items. -/
def ofList (items : List A) : BitVec w := items.foldl (fun b a => b ||| pattern a) 0

/-- The union of a list of filters. -/
def union (filters : List (BitVec w)) : BitVec w := filters.foldl (· ||| ·) 0

variable {pattern}

theorem test_iff : test pattern b a = true ↔
    ∀ i, (pattern a).getLsbD i = true → b.getLsbD i = true := by
  rw [test, decide_eq_true_iff]
  constructor
  · intro h i hi
    rw [← h, getLsbD_and, Bool.and_eq_true] at hi
    exact hi.1
  · intro h
    apply eq_of_getLsbD_eq
    intro i _
    rw [getLsbD_and]
    cases hi : (pattern a).getLsbD i with
    | false => rw [Bool.and_false]
    | true => rw [h i hi, Bool.and_self]

theorem test_or_left (h : test pattern b a = true) (b' : BitVec w) :
    test pattern (b ||| b') a = true := by
  rw [test_iff] at h ⊢
  intro i hi
  rw [getLsbD_or, h i hi, Bool.true_or]

theorem test_or_right (h : test pattern b' a = true) (b : BitVec w) :
    test pattern (b ||| b') a = true := by
  rw [test_iff] at h ⊢
  intro i hi
  rw [getLsbD_or, h i hi, Bool.or_true]

theorem test_pattern (a : A) : test pattern (pattern a) a = true :=
  test_iff.mpr fun _ hi => hi

private theorem test_foldl {X : Type*} (f : X → BitVec w) (xs : List X) (b : BitVec w)
    (h : test pattern b a = true ∨ ∃ x ∈ xs, test pattern (f x) a = true) :
    test pattern (xs.foldl (fun b x => b ||| f x) b) a = true := by
  induction xs generalizing b with
  | nil => exact h.resolve_right fun ⟨x, hx, _⟩ => by simp at hx
  | cons x rest ih =>
    apply ih
    rcases h with h | ⟨y, hy, htest⟩
    · exact .inl (test_or_left h _)
    · rcases List.mem_cons.mp hy with rfl | hy
      · exact .inl (test_or_right htest _)
      · exact .inr ⟨y, hy, htest⟩

/-- An item that was added is found. -/
theorem test_ofList {items : List A} (ha : a ∈ items) :
    test pattern (ofList pattern items) a = true :=
  test_foldl pattern items 0 (.inr ⟨a, ha, test_pattern a⟩)

/-- An item that is found in a filter is found in every union with it. -/
theorem test_union {filters : List (BitVec w)} (hb : b ∈ filters)
    (h : test pattern b a = true) : test pattern (union filters) a = true :=
  test_foldl (fun b => b) filters 0 (.inr ⟨b, hb, h⟩)

end InfiniteEvm.Library.Bloom
