import Mathlib.Data.List.Basic

/-!
# Pre- and postconditions of failing computations

A computation ends with a value or with a failure. `Ends` says what holds of either, and
its rules follow the way computations are put together.
-/

namespace InfiniteEvm.Library.Outcomes

variable {ε α β : Type*} {post : α → Prop} {post' : β → Prop} {fails fails' : ε → Prop}
  {x : Except ε α}

/-- A value satisfies `post` and a failure `fails`. -/
def Ends (post : α → Prop) (fails : ε → Prop) : Except ε α → Prop
  | .ok a => post a
  | .error e => fails e

@[simp] theorem ends_ok (a : α) : Ends post fails (.ok a) ↔ post a := Iff.rfl

@[simp] theorem ends_error (e : ε) : Ends post fails (.error e) ↔ fails e := Iff.rfl

section

variable (h : Ends post fails x)
include h

theorem Ends.of_ok {a : α} (hx : x = .ok a) : post a := by
  rw [hx] at h
  exact h

theorem Ends.of_error {e : ε} (hx : x = .error e) : fails e := by
  rw [hx] at h
  exact h

theorem Ends.bind {f : α → Except ε β}
    (hf : ∀ a, post a → Ends post' fails (f a)) : Ends post' fails (x.bind f) := by
  cases x with
  | ok a => exact hf a h
  | error e => exact h

theorem Ends.map {f : α → β} (hf : ∀ a, post a → post' (f a)) :
    Ends post' fails (x.map f) := by
  cases x with
  | ok a => exact hf a h
  | error e => exact h

theorem Ends.mono {post' : α → Prop} (hpost : ∀ a, post a → post' a)
    (hfails : ∀ e, fails e → fails' e) : Ends post' fails' x := by
  cases x with
  | ok a => exact hpost a h
  | error e => exact hfails e h

end

theorem map_eq_ok {f : α → β} {b : β} : x.map f = .ok b ↔ ∃ a, x = .ok a ∧ f a = b := by
  cases x <;> simp [Except.map]

theorem bind_eq_ok {f : α → Except ε β} {b : β} :
    x.bind f = .ok b ↔ ∃ a, x = .ok a ∧ f a = .ok b := by
  cases x <;> simp [Except.bind]

theorem toOption_eq_some {a : α} : x.toOption = some a ↔ x = .ok a := by
  cases x <;> simp [Except.toOption]

/-- A run `r` is followed by a call that can also report an error of type `β`, and reports none. -/
theorem of_bind_map {γ δ : Type*} {r : Option α} {f : α → Except ε (Option β × γ)}
    {g : α → Option β × γ → δ} {d : δ}
    (h : r.bind (fun a => (f a).toOption.map fun p => (p.1, g a p)) = some (none, d)) :
    ∃ a c, r = some a ∧ f a = .ok (none, c) ∧ g a (none, c) = d := by
  obtain ⟨a, hr, h⟩ := Option.bind_eq_some_iff.mp h
  obtain ⟨⟨err, c⟩, hf, h⟩ := Option.map_eq_some_iff.mp h
  obtain ⟨rfl, hd⟩ := Prod.mk.inj h
  exact ⟨a, c, hr, toOption_eq_some.mp hf, hd⟩

end InfiniteEvm.Library.Outcomes
