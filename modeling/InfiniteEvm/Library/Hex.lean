import Mathlib.Data.List.Basic

/-!
# Hexadecimal text

Byte strings written with two digits a byte, of either case, and read back.
-/

namespace InfiniteEvm.Library.Hex

/-- The value of a digit. -/
def value (c : Char) : Option Nat :=
  if '0' ≤ c ∧ c ≤ '9' then some (c.toNat - 48)
  else if 'a' ≤ c ∧ c ≤ 'f' then some (c.toNat - 87)
  else if 'A' ≤ c ∧ c ≤ 'F' then some (c.toNat - 55)
  else none

/-- The digit of a value. -/
def digit (upper : Bool) (n : Nat) : Char :=
  Char.ofNat (if n < 10 then 48 + n else if upper then 55 + n else 87 + n)

/-- The bytes before the first pair that is not one of digits. -/
def decode : List Char → List UInt8
  | high :: low :: rest =>
    match value high, value low with
    | some x, some y => UInt8.ofNat (16 * x + y) :: decode rest
    | _, _ => []
  | _ => []

/-- Two digits for each byte. The case of each digit is given. -/
def encode (upper : Nat → Bool) : List UInt8 → List Char
  | [] => []
  | byte :: rest =>
    digit (upper 0) (byte.toNat / 16) :: digit (upper 1) (byte.toNat % 16) ::
      encode (fun i => upper (i + 2)) rest

theorem value_digit (upper : Bool) {n : Nat} (h : n < 16) : value (digit upper n) = some n := by
  have hall : ∀ (upper : Bool) (n : Fin 16), value (digit upper n) = some n.val := by decide
  exact hall upper ⟨n, h⟩

variable (upper : Nat → Bool) (bytes : List UInt8)

theorem decode_encode : decode (encode upper bytes) = bytes := by
  induction bytes generalizing upper with
  | nil => rfl
  | cons byte rest ih =>
    have hbyte : byte.toNat < 256 := byte.toNat_lt
    have hhigh := value_digit (upper 0) (show byte.toNat / 16 < 16 by omega)
    have hlow := value_digit (upper 1) (show byte.toNat % 16 < 16 by omega)
    simp only [encode, decode, hhigh, hlow, ih, Nat.div_add_mod, UInt8.ofNat_toNat]

@[simp] theorem length_encode : (encode upper bytes).length = 2 * bytes.length := by
  induction bytes generalizing upper with
  | nil => rfl
  | cons byte rest ih =>
    simp only [encode, List.length_cons, ih]
    omega

theorem value_of_mem_encode {c : Char} (h : c ∈ encode upper bytes) : (value c).isSome := by
  induction bytes generalizing upper with
  | nil => simp [encode] at h
  | cons byte rest ih =>
    have hbyte : byte.toNat < 256 := byte.toNat_lt
    simp only [encode, List.mem_cons] at h
    obtain rfl | rfl | hrest := h
    · simp [value_digit (upper 0) (show byte.toNat / 16 < 16 by omega)]
    · simp [value_digit (upper 1) (show byte.toNat % 16 < 16 by omega)]
    · exact ih _ hrest

end InfiniteEvm.Library.Hex
