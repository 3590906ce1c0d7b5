import InfiniteEvm.Erc20.TokenPairs

/-!
# Allowances

`keeper/allowance.go` of `x/erc20`. An allowance is stored under the concatenated addresses
of the token, the owner and the spender, and is deleted when it is zero.
-/

namespace InfiniteEvm.Erc20

open Library Store Function

/-- `AllowanceKey`. -/
def allowanceKey (erc20 owner spender : Address) : Bytes :=
  addressBytes erc20 ++ addressBytes owner ++ addressBytes spender

/-- `GetAllowance`. -/
def Store.getAllowance (s : Store) (erc20 owner spender : Address) : Int :=
  match s.allowances (allowanceKey erc20 owner spender) with
  | none => 0
  | some allowance => allowance.value

/-- Set an entry of the store of allowances, or delete it. -/
def Store.writeAllowance (s : Store) (key : Bytes) (stored : Option Allowance) : Store :=
  { s with allowances := update s.allowances key stored }

namespace Keeper

variable (k : Keeper)

/-- `NewAllowance`. -/
def newAllowance (erc20 owner spender : Address) (value : Int) : Allowance where
  erc20Address := k.addressString erc20
  owner := k.addressString owner
  spender := k.addressString spender
  value := value

/-- What is stored for an allowance, which is nothing for zero. -/
def storedAllowance (erc20 owner spender : Address) (value : Int) : Option Allowance :=
  if value = 0 then none else some (k.newAllowance erc20 owner spender value)

/-- `setAllowance`. -/
def setAllowanceOf (s : Store) (erc20 owner spender : Address) (value : Int)
    (allowDisabledTokenPair : Bool) : Except String Store :=
  match s.getTokenPair (s.getERC20Map erc20) with
  | none => .error ("token pair for address '" ++ k.addressString erc20 ++
      "' not registered: token pair not found")
  | some tokenPair =>
    if !allowDisabledTokenPair && !tokenPair.enabled then
      .error ("token pair for address '" ++ k.addressString erc20 ++
        "' is disabled: erc20 token pair is disabled")
    else if owner = 0 then .error "owner address is empty: invalid address"
    else if spender = 0 then .error "spender address is empty: invalid address"
    else if value < 0 then
      .error ("value '" ++ toString value ++ "' is less than zero: invalid allowance")
    else if 2 ^ 256 ≤ value then
      .error ("value '" ++ toString value ++
        "' is greater than max value of uint256: invalid allowance")
    else
      .ok (s.writeAllowance (allowanceKey erc20 owner spender)
        (k.storedAllowance erc20 owner spender value))

/-- `SetAllowance`. -/
def setAllowance (s : Store) (erc20 owner spender : Address) (value : Int) : Except String Store :=
  k.setAllowanceOf s erc20 owner spender value false

/-- `DeleteAllowance`. -/
def deleteAllowance (s : Store) (erc20 owner spender : Address) : Except String Store :=
  k.setAllowanceOf s erc20 owner spender 0 false

/-- `UnsafeSetAllowance`. -/
def unsafeSetAllowance (s : Store) (erc20 owner spender : Address) (value : Int) :
    Except String Store :=
  k.setAllowanceOf s erc20 owner spender value true

end Keeper

/-! ## What a write changes -/

theorem allowanceKey_inj {erc20 owner spender erc20' owner' spender' : Address}
    (h : allowanceKey erc20 owner spender = allowanceKey erc20' owner' spender') :
    erc20 = erc20' ∧ owner = owner' ∧ spender = spender' := by
  have hlength : ∀ a : Address, (addressBytes a).length = 20 := by simp [addressBytes]
  obtain ⟨hfirst, hspender⟩ := List.append_inj h (by simp [hlength])
  obtain ⟨herc20, howner⟩ := List.append_inj hfirst (by simp [hlength])
  exact ⟨addressBytes_inj herc20, addressBytes_inj howner, addressBytes_inj hspender⟩

/-- Every allowance is positive. -/
def Store.PositiveAllowances (s : Store) : Prop :=
  ∀ key allowance, s.allowances key = some allowance → 0 < allowance.value

theorem Store.getAllowance_nonneg {s : Store} (h : s.PositiveAllowances)
    (erc20 owner spender : Address) : 0 ≤ s.getAllowance erc20 owner spender := by
  simp only [getAllowance]
  cases hstored : s.allowances (allowanceKey erc20 owner spender) with
  | none => rfl
  | some allowance => exact (h _ _ hstored).le

section Write

variable {k : Keeper} {s t : Store} {erc20 owner spender : Address} {value : Int} {any : Bool}

section

variable (h : k.setAllowanceOf s erc20 owner spender value any = .ok t)
include h

/-- A write that is accepted stores a number of 256 bits, and nothing else changes. -/
theorem Keeper.setAllowanceOf_ok :
    0 ≤ value ∧ t = s.writeAllowance (allowanceKey erc20 owner spender)
      (k.storedAllowance erc20 owner spender value) := by
  simp only [setAllowanceOf] at h
  split at h
  · cases h
  · split_ifs at h with hdisabled howner hspender hnegative hlarge
    have hvalue : 0 ≤ value := by omega
    exact ⟨hvalue, (Except.ok.inj h).symm⟩

theorem Keeper.getAllowance_setAllowanceOf (e o p : Address) :
    t.getAllowance e o p =
      if e = erc20 ∧ o = owner ∧ p = spender then value else s.getAllowance e o p := by
  obtain ⟨-, rfl⟩ := setAllowanceOf_ok h
  by_cases hkey : allowanceKey e o p = allowanceKey erc20 owner spender
  · obtain ⟨rfl, rfl, rfl⟩ := allowanceKey_inj hkey
    by_cases hvalue : value = 0
    · simp [getAllowance, writeAllowance, storedAllowance, hvalue]
    · simp [getAllowance, writeAllowance, storedAllowance, hvalue, newAllowance]
  · have hother : ¬(e = erc20 ∧ o = owner ∧ p = spender) := by
      rintro ⟨rfl, rfl, rfl⟩
      exact hkey rfl
    simp [getAllowance, writeAllowance, update_of_ne hkey, hother]

theorem Keeper.setAllowanceOf_positive (hs : s.PositiveAllowances)
    : t.PositiveAllowances := by
  obtain ⟨hvalue, rfl⟩ := setAllowanceOf_ok h
  intro key allowance hstored
  by_cases hkey : key = allowanceKey erc20 owner spender
  · rw [hkey] at hstored
    simp only [writeAllowance, update_self, storedAllowance] at hstored
    split_ifs at hstored with hzero
    cases hstored
    simp only [newAllowance]
    omega
  · simp only [writeAllowance, update_of_ne hkey] at hstored
    exact hs key allowance hstored

end

end Write

end InfiniteEvm.Erc20
