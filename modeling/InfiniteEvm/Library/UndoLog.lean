import Mathlib.Data.List.Basic

/-!
# Undo logs

A log of entries grows next to what can be observed of a state: each entry stands for
a change of the observation. If undoing an entry in a state takes back its change, then
undoing the log from its last entry leads back through the observations on the way.
Undoing may panic, which is an error.
-/

namespace InfiniteEvm.Library.UndoLog

open List

section UndoAll

variable {Entry S P : Type*} (undo : Entry → S → Except P S)

/-- Undo all entries, the last one first. -/
def undoAll (entries : List Entry) (s : S) : Except P S :=
  entries.foldr (fun e acc => acc.bind (undo e)) (.ok s)

@[simp] theorem undoAll_nil (s : S) : undoAll undo [] s = .ok s := rfl

theorem undoAll_cons (e : Entry) (es : List Entry) (s : S) :
    undoAll undo (e :: es) s = (undoAll undo es s).bind (undo e) := rfl

/-- Undoing the last entry first, written for a list that ends in it. -/
theorem undoAll_concat (es : List Entry) (e : Entry) (s : S) :
    undoAll undo (es ++ [e]) s = (undo e s).bind (undoAll undo es) := by
  induction es with
  | nil =>
    change (undo e s) = _
    cases undo e s <;> rfl
  | cons x xs ih =>
    rw [cons_append, undoAll_cons, ih]
    cases undo e s <;> rfl

end UndoAll

variable {Entry Obs : Type*}

/-- The log and observation `b` extend `a`, one change for each entry appended. -/
inductive Recorded (change : Entry → Obs → Obs → Prop) (a : List Entry × Obs) :
    List Entry × Obs → Prop
  | refl : Recorded change a a
  | record {log : List Entry} {o o' : Obs} (e : Entry) : Recorded change a (log, o) →
      change e o o' → Recorded change a (log ++ [e], o')

variable {change : Entry → Obs → Obs → Prop} {a b c : List Entry × Obs}

theorem Recorded.trans (hab : Recorded change a b) (hbc : Recorded change b c) :
    Recorded change a c := by
  induction hbc with
  | refl => exact hab
  | record e _ hc ih => exact .record e ih hc

/-- What every change preserves holds at the end of a record. -/
theorem Recorded.invariant (good : List Entry × Obs → Prop)
    (hstep : ∀ log o e o', good (log, o) → change e o o' → good (log ++ [e], o'))
    (h : Recorded change a b) (ha : good a) : good b := by
  induction h with
  | refl => exact ha
  | record e _ hc ih => exact hstep _ _ e _ ih hc

theorem Recorded.exists_append (h : Recorded change a b) : ∃ es, b.1 = a.1 ++ es := by
  induction h with
  | refl => exact ⟨[], (append_nil _).symm⟩
  | record e _ _ ih =>
    obtain ⟨es, hes⟩ := ih
    refine ⟨es ++ [e], ?_⟩
    rw [← append_assoc, ← hes]

theorem Recorded.length_le (h : Recorded change a b) : a.1.length ≤ b.1.length := by
  obtain ⟨es, hes⟩ := h.exists_append
  rw [hes, length_append]
  exact Nat.le_add_right ..

theorem Recorded.eq_of_length (h : Recorded change a b) (hlen : b.1.length ≤ a.1.length) :
    b = a := by
  cases h with
  | refl => rfl
  | @record log _ _ e hrec _ =>
    have hle : a.1.length ≤ log.length := hrec.length_le
    simp only [length_append, length_cons, length_nil] at hlen
    omega

section Undo

variable {S P : Type*} (undo : Entry → S → Except P S) (R : S → Obs → Prop)
  (good : List Entry × Obs → Prop)

/-- Let `R` relate states to observations, and let undoing the entry of a change take a
state back along it. Then undoing a record down to any length not below its start never
panics and leads to the observation the record had there. -/
theorem Recorded.undo_to
    (hgood : ∀ log o e o', good (log, o) → change e o o' → good (log ++ [e], o'))
    (hundo : ∀ log o e o' s, good (log, o) → change e o o' → R s o' →
      ∃ t, undo e s = .ok t ∧ R t o)
    (h : Recorded change a b) (ha : good a) {s : S} (hs : R s b.2) {n : Nat}
    (hn : a.1.length ≤ n) (hb : n ≤ b.1.length) :
    ∃ t o, undoAll undo (b.1.drop n) s = .ok t ∧ R t o ∧
      Recorded change a (b.1.take n, o) := by
  induction h generalizing s with
  | refl =>
    obtain rfl : n = a.1.length := Nat.le_antisymm hb hn
    exact ⟨s, a.2, by rw [drop_length, undoAll_nil], hs, by
      rw [take_length]
      exact .refl⟩
  | @record log o o' e hrec hc ih =>
    by_cases hlast : n = (log ++ [e]).length
    · subst hlast
      refine ⟨s, o', by rw [drop_length, undoAll_nil], hs, ?_⟩
      rw [take_length]
      exact .record e hrec hc
    · have hle : n ≤ log.length := by
        simp only [length_append, length_cons, length_nil] at hb hlast
        omega
      obtain ⟨t, ht, hR⟩ := hundo log o e o' s (hrec.invariant good hgood ha) hc hs
      obtain ⟨t₁, o₁, ht₁, hR₁, hrec₁⟩ := ih hR hle
      refine ⟨t₁, o₁, ?_, hR₁, ?_⟩
      · rw [drop_append_of_le_length hle, undoAll_concat, ht]
        exact ht₁
      · rw [take_append_of_le_length hle]
        exact hrec₁

end Undo

end InfiniteEvm.Library.UndoLog
