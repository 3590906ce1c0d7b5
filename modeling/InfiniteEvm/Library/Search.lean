import Mathlib.Data.Nat.Basic

/-!
# Binary search

The search of Go's `sort.Search`: the smallest index below `n` at which a predicate
that stays true once it is true holds, or `n`.
-/

namespace InfiniteEvm.Library

/-- The loop of the search on the interval from `i` to `j`. Each round halves it, so
`n` rounds are enough for `n` indices. -/
def searchLoop (f : Nat → Bool) : Nat → Nat → Nat → Nat
  | 0, i, _ => i
  | fuel + 1, i, j =>
    if i < j then
      if !f ((i + j) / 2) then searchLoop f fuel ((i + j) / 2 + 1) j
      else searchLoop f fuel i ((i + j) / 2)
    else i

def search (n : Nat) (f : Nat → Bool) : Nat := searchLoop f n 0 n

private theorem searchLoop_eq {f : Nat → Bool} {m : Nat} (hlow : ∀ x < m, f x = false)
    (fuel i j : Nat) (hhigh : ∀ x, m ≤ x → x < j → f x = true)
    (hi : i ≤ m) (hj : m ≤ j) (hfuel : j - i ≤ fuel) : searchLoop f fuel i j = m := by
  induction fuel generalizing i j with
  | zero =>
    simp only [searchLoop]
    omega
  | succ fuel ih =>
    simp only [searchLoop]
    split
    · by_cases hmid : (i + j) / 2 < m
      · simp only [hlow _ hmid, Bool.not_false, if_true]
        exact ih _ _ hhigh (by omega) hj (by omega)
      · simp only [hhigh _ (Nat.le_of_not_lt hmid) (by omega), Bool.not_true,
          Bool.false_eq_true, if_false]
        exact ih _ _ (fun x hx hxj => hhigh x hx (by omega)) hi (by omega) (by omega)
    · omega

/-- The search finds the boundary between the indices where the predicate fails and
those where it holds. -/
theorem search_eq {f : Nat → Bool} {m n : Nat} (hmn : m ≤ n) (hlow : ∀ x < m, f x = false)
    (hhigh : ∀ x, m ≤ x → x < n → f x = true) : search n f = m :=
  searchLoop_eq hlow n 0 n hhigh (Nat.zero_le m) hmn (by omega)

end InfiniteEvm.Library
