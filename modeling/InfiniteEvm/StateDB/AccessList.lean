import InfiniteEvm.StateDB.Types

/-!
# The access list

`x/vm/statedb/access_list.go`: addresses point into a slice of slot sets, and an
address without slots points to `-1`. Deletions assume that they come in the reverse
order of the additions; the lemmas here say what that gives.
-/

namespace InfiniteEvm

open Std Library List

/-- `accessList`. -/
structure AccessList where
  addresses : FMap Address Int
  slots : List (FMap Hash Unit)
  deriving DecidableEq

namespace AccessList

def newAccessList : AccessList := { addresses := ∅, slots := [] }

/-- `al.slots[idx]`, which panics outside the slice. -/
def slotsAt (al : AccessList) (idx : Int) : Except Panic (FMap Hash Unit) :=
  if idx < 0 then .error .indexOutOfRange
  else match al.slots[idx.toNat]? with
    | none => .error .indexOutOfRange
    | some m => .ok m

/-- `ContainsAddress`. -/
def containsAddress (al : AccessList) (address : Address) : Bool :=
  al.addresses.contains address

/-- `Contains`: whether the address, and whether the slot is present. -/
def contains (al : AccessList) (address : Address) (slot : Hash) : Except Panic (Bool × Bool) :=
  match al.addresses[address]? with
  | none => .ok (false, false)
  | some idx =>
    if idx = -1 then .ok (true, false)
    else (al.slotsAt idx).map fun m => (true, m.contains slot)

/-- `AddAddress`, with whether the list changed. -/
def addAddress (al : AccessList) (address : Address) : AccessList × Bool :=
  if al.addresses.contains address then (al, false)
  else ({ al with addresses := al.addresses.insert address (-1) }, true)

/-- The branch of `AddSlot` for an address without slots: a new slot set at the end. -/
def pushSlot (al : AccessList) (address : Address) (slot : Hash) : AccessList where
  addresses := al.addresses.insert address al.slots.length
  slots := al.slots ++ [(∅ : FMap Hash Unit).insert slot ()]

/-- `AddSlot`, with whether the address and whether the slot was added. -/
def addSlot (al : AccessList) (address : Address) (slot : Hash) :
    Except Panic (AccessList × Bool × Bool) :=
  match al.addresses[address]? with
  | none => .ok (al.pushSlot address slot, true, true)
  | some idx =>
    if idx = -1 then .ok (al.pushSlot address slot, false, true)
    else (al.slotsAt idx).map fun m =>
      if m.contains slot then (al, false, false)
      else ({ al with slots := al.slots.set idx.toNat (m.insert slot ()) }, false, true)

/-- `DeleteSlot`. -/
def deleteSlot (al : AccessList) (address : Address) (slot : Hash) : Except Panic AccessList :=
  match al.addresses[address]? with
  | none => .error .slotAddressNotPresent
  | some idx => (al.slotsAt idx).map fun m =>
    if (m.erase slot).isEmpty then
      { addresses := al.addresses.insert address (-1), slots := al.slots.take idx.toNat }
    else { al with slots := al.slots.set idx.toNat (m.erase slot) }

/-- `DeleteAddress`. -/
def deleteAddress (al : AccessList) (address : Address) : AccessList :=
  { al with addresses := al.addresses.erase address }

/-- Every index is `-1` or inside the slice, and no slot set is empty. -/
structure WellFormed (al : AccessList) : Prop where
  index : ∀ (address : Address) (idx : Int), al.addresses[address]? = some idx →
    idx = -1 ∨ 0 ≤ idx ∧ idx < al.slots.length
  nonempty : ∀ m ∈ al.slots, m.isEmpty = false

theorem newAccessList_wellFormed : newAccessList.WellFormed where
  index := by
    intro address idx h
    simp [newAccessList] at h
  nonempty := by
    intro m hm
    simp [newAccessList] at hm

variable {al : AccessList} {address : Address}

theorem slotsAt_of_index {idx : Int} (h0 : 0 ≤ idx) (hlt : idx < al.slots.length) :
    ∃ m, al.slotsAt idx = .ok m ∧ al.slots[idx.toNat]? = some m := by
  have hlt' : idx.toNat < al.slots.length := by omega
  refine ⟨al.slots[idx.toNat], ?_, getElem?_eq_getElem hlt'⟩
  simp only [slotsAt, Int.not_lt.mpr h0, if_false, getElem?_eq_getElem hlt']

private theorem insert_addresses_index (h : al.WellFormed) {n : Nat} {new : Int}
    (hnew : new = -1 ∨ 0 ≤ new ∧ new < n) (hn : al.slots.length ≤ n) (a : Address) (idx : Int)
    (hidx : (al.addresses.insert address new)[a]? = some idx) : idx = -1 ∨ 0 ≤ idx ∧ idx < n := by
  rw [ExtTreeMap.getElem?_insert] at hidx
  split at hidx
  · cases hidx
    exact hnew
  · have := h.index a idx hidx
    omega

theorem addAddress_wellFormed (h : al.WellFormed) (address : Address) :
    (al.addAddress address).1.WellFormed := by
  unfold addAddress
  split
  · exact h
  · exact ⟨insert_addresses_index h (Or.inl rfl) (Nat.le_refl _), h.nonempty⟩

/-- An address that was added is deleted without a trace. -/
theorem deleteAddress_addAddress (h : (al.addAddress address).2 = true) :
    (al.addAddress address).1.deleteAddress address = al := by
  unfold addAddress at h ⊢
  split at h
  · cases h
  · rename_i hmem
    rw [if_neg hmem]
    simp only [deleteAddress]
    congr 1
    apply ExtTreeMap.ext_getElem?
    intro a
    rw [ExtTreeMap.getElem?_erase, ExtTreeMap.getElem?_insert]
    by_cases ha : address = a
    · subst ha
      have hnone : al.addresses[address]? = none := by
        simpa using hmem
      simp [hnone]
    · simp [ha]

theorem pushSlot_wellFormed (h : al.WellFormed) (address : Address) (slot : Hash) :
    (al.pushSlot address slot).WellFormed where
  index := by
    apply insert_addresses_index h
    · simp only [pushSlot, length_append, length_cons, length_nil]
      omega
    · simp [pushSlot]
  nonempty := by
    intro m hm
    simp only [pushSlot, mem_append, mem_singleton] at hm
    rcases hm with hm | rfl
    · exact h.nonempty m hm
    · simp

/-- Deleting the slot that opened a slot set drops the set and leaves the address
without slots. -/
theorem deleteSlot_pushSlot (al : AccessList) (address : Address) (slot : Hash) :
    (al.pushSlot address slot).deleteSlot address slot =
      .ok { al with addresses := al.addresses.insert address (-1) } := by
  have hlook : (al.pushSlot address slot).addresses[address]? = some (al.slots.length : Int) := by
    simp [pushSlot]
  have hslots : (al.pushSlot address slot).slotsAt al.slots.length =
      .ok ((∅ : FMap Hash Unit).insert slot ()) := by
    simp [slotsAt, pushSlot]
  have hempty : (((∅ : FMap Hash Unit).insert slot ()).erase slot).isEmpty = true := by
    simp [ExtTreeMap.size_insert]
  simp only [deleteSlot, hlook, hslots, Except.map, hempty, if_true, Except.ok.injEq]
  congr 1
  · apply ExtTreeMap.ext_getElem?
    intro a
    by_cases ha : address = a <;> simp [pushSlot, ExtTreeMap.getElem?_insert, ha]
  · simp [pushSlot]

/-- The three ways `AddSlot` can go on a well-formed list. It never panics, it keeps
the list well formed, and `DeleteSlot` and `DeleteAddress` take back what it reports. -/
theorem addSlot_cases (h : al.WellFormed) (address : Address) (slot : Hash) :
    al.addSlot address slot = .ok (al, false, false) ∨
    (∃ al', al.addSlot address slot = .ok (al', false, true) ∧ al'.WellFormed ∧
      al'.deleteSlot address slot = .ok al) ∨
    (∃ al', al.addSlot address slot = .ok (al', true, true) ∧ al'.WellFormed ∧
      (al.addAddress address).2 = true ∧
      al'.deleteSlot address slot = .ok (al.addAddress address).1) := by
  cases hlook : al.addresses[address]? with
  | none =>
    right
    right
    have hmem : al.addresses.contains address = false := by
      rw [← Bool.not_eq_true, ← ExtTreeMap.mem_iff_contains]
      simpa using hlook
    refine ⟨al.pushSlot address slot, by simp only [addSlot, hlook],
      pushSlot_wellFormed h address slot, by simp [addAddress, hmem], ?_⟩
    rw [deleteSlot_pushSlot]
    simp [addAddress, hmem]
  | some idx =>
    by_cases hidx : idx = -1
    · right
      left
      subst hidx
      refine ⟨al.pushSlot address slot, by simp only [addSlot, hlook, if_true],
        pushSlot_wellFormed h address slot, ?_⟩
      rw [deleteSlot_pushSlot]
      congr 2
      apply ExtTreeMap.ext_getElem?
      intro a
      by_cases ha : address = a
      · subst ha
        simp [hlook]
      · simp [ExtTreeMap.getElem?_insert, ha]
    · obtain ⟨h0, hlt⟩ := (h.index address idx hlook).resolve_left hidx
      obtain ⟨m, hm, hget⟩ := slotsAt_of_index h0 hlt
      by_cases hslot : m.contains slot = true
      · left
        simp only [addSlot, hlook, hidx, if_false, hm, Except.map, hslot, if_true]
      · right
        left
        have hne : m.isEmpty = false := h.nonempty m (List.mem_of_getElem? hget)
        have hbound : idx.toNat < al.slots.length := by omega
        have hback : (m.insert slot ()).erase slot = m := by
          apply ExtTreeMap.ext_getElem?
          intro k
          rw [ExtTreeMap.getElem?_erase, ExtTreeMap.getElem?_insert]
          by_cases hk : slot = k
          · subst hk
            have hnone : m[slot]? = none := by simpa using hslot
            simp [hnone]
          · simp [hk]
        refine ⟨{ al with slots := al.slots.set idx.toNat (m.insert slot ()) }, ?_, ?_, ?_⟩
        · simp only [addSlot, hlook, hidx, if_false, hm, Except.map, hslot, Bool.false_eq_true]
        · refine ⟨?_, ?_⟩
          · simpa using h.index
          · intro m' hm'
            rcases List.mem_or_eq_of_mem_set hm' with hm' | rfl
            · exact h.nonempty m' hm'
            · simp
        · have hat : slotsAt { al with slots := al.slots.set idx.toNat (m.insert slot ()) } idx =
              .ok (m.insert slot ()) := by
            simp only [slotsAt, Int.not_lt.mpr h0, if_false, List.getElem?_set_self hbound]
          simp only [deleteSlot, hlook, hat, Except.map, hback, hne, Bool.false_eq_true,
            if_false, List.set_set]
          obtain ⟨hb, rfl⟩ := List.getElem?_eq_some_iff.mp hget
          rw [List.set_getElem_self hb]

/-- Reading a slot of a well-formed list never panics. -/
theorem contains_ok (h : al.WellFormed) (address : Address) (slot : Hash) :
    ∃ b, al.contains address slot = .ok b := by
  unfold contains
  split
  · exact ⟨_, rfl⟩
  · rename_i idx hlook
    split
    · exact ⟨_, rfl⟩
    · rename_i hidx
      obtain ⟨h0, hlt⟩ := (h.index address idx hlook).resolve_left hidx
      obtain ⟨m, hm, -⟩ := slotsAt_of_index h0 hlt
      exact ⟨_, by rw [hm]; rfl⟩

end AccessList

end InfiniteEvm
