import Mathlib.Algebra.Group.Nat.Hom
import Mathlib.Data.List.Induction
import Mathlib.Tactic.Ring

/-!
# Numbers as bytes

Numbers of a fixed width, most significant byte first.
-/

namespace InfiniteEvm.Library.BigEndian

open List

/-- The last `w` bytes of a number. -/
def toBytes : Nat → Nat → List UInt8
  | 0, _ => []
  | w + 1, n => toBytes w (n / 256) ++ [UInt8.ofNat n]

/-- The number that has these bytes. -/
def ofBytes (bytes : List UInt8) : Nat :=
  bytes.foldl (fun n b => n * 256 + b.toNat) 0

@[simp] theorem length_toBytes (w n : Nat) : (toBytes w n).length = w := by
  induction w generalizing n with
  | zero => rfl
  | succ w ih => rw [toBytes, length_append, ih, length_singleton]

theorem ofBytes_concat (bytes : List UInt8) (b : UInt8) :
    ofBytes (bytes ++ [b]) = ofBytes bytes * 256 + b.toNat :=
  foldl_append

theorem ofBytes_append (xs ys : List UInt8) :
    ofBytes (xs ++ ys) = ofBytes xs * 256 ^ ys.length + ofBytes ys := by
  induction ys using reverseRecOn with
  | nil => simp [ofBytes]
  | append_singleton ys b ih =>
    rw [← append_assoc, ofBytes_concat, ih, ofBytes_concat, length_append,
      length_singleton, pow_succ]
    ring

/-- Reading the bytes of a number gives what fits in them. -/
theorem ofBytes_toBytes (w n : Nat) : ofBytes (toBytes w n) = n % 256 ^ w := by
  induction w generalizing n with
  | zero => exact (Nat.mod_one n).symm
  | succ w ih =>
    have hbyte : (UInt8.ofNat n).toNat = n % 256 := UInt8.toNat_ofNat'
    rw [toBytes, ofBytes_concat, ih, hbyte, pow_succ', Nat.mod_mul]
    omega

/-- Numbers that fit are told apart by their bytes. -/
theorem toBytes_inj {w n m : Nat} (hn : n < 256 ^ w) (hm : m < 256 ^ w)
    (h : toBytes w n = toBytes w m) : n = m := by
  rw [← Nat.mod_eq_of_lt hn, ← Nat.mod_eq_of_lt hm, ← ofBytes_toBytes, h, ofBytes_toBytes]

end InfiniteEvm.Library.BigEndian
