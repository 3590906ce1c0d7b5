import InfiniteEvm.StateDB.Types

/-!
# Reservations of addresses

`mempool/reserver`: a tracker shared by the pools, which says for each reserved address
which pool owns it. A pool holds and releases addresses under the id of its handle.
-/

namespace InfiniteEvm.Mempool

open List

open Std (ExtTreeMap LawfulEqCmp)
open Library

/-- `ReservationTracker`: the owners of the reserved addresses. -/
abbrev Tracker := FMap Address Int

namespace Tracker

def errAlreadyReserved : String := "address already reserved"

/-- `Hold` of the handle `id`. It returns at the first address that has an owner. -/
def hold (id : Int) : Tracker → List Address → Option String × Tracker
  | accounts, [] => (none, accounts)
  | accounts, addr :: rest =>
    match accounts[addr]? with
    | some owner =>
      if owner = id then (none, accounts) else (some errAlreadyReserved, accounts)
    | none => hold id (accounts.insert addr id) rest

/-- `Release` of the handle `id`. It returns at the first address it does not own. -/
def release (id : Int) : Tracker → List Address → Option String × Tracker
  | accounts, [] => (none, accounts)
  | accounts, addr :: rest =>
    match accounts[addr]? with
    | none => (some "address not reserved", accounts)
    | some owner =>
      if owner ≠ id then (some "address not owned", accounts)
      else release id (accounts.erase addr) rest

/-- The addresses that `Release` takes away. -/
def released (id : Int) : Tracker → List Address → List Address
  | _, [] => []
  | accounts, addr :: rest =>
    match accounts[addr]? with
    | none => []
    | some owner => if owner ≠ id then [] else addr :: released id (accounts.erase addr) rest

variable {id owner : Int} {accounts : Tracker} {addrs : List Address} {a : Address}

/-- Owners stay when addresses are held. -/
theorem hold_of_some (h : accounts[a]? = some owner) (addrs : List Address) :
    (hold id accounts addrs).2[a]? = some owner := by
  induction addrs generalizing accounts with
  | nil => exact h
  | cons addr rest ih =>
    unfold hold
    cases hfound : accounts[addr]? with
    | some owner' =>
      dsimp only
      split <;> exact h
    | none =>
      apply ih
      have hne : addr ≠ a := by
        rintro rfl
        rw [hfound] at h
        cases h
      rw [FMap.get_insert, if_neg hne, h]

/-- `Release` removes exactly the addresses it takes away. -/
theorem release_getElem (id : Int) (accounts : Tracker) (addrs : List Address) (a : Address) :
    (release id accounts addrs).2[a]? =
      if a ∈ released id accounts addrs then none else accounts[a]? := by
  induction addrs generalizing accounts with
  | nil => simp [release, released]
  | cons addr rest ih =>
    unfold release released
    cases hfound : accounts[addr]? with
    | none => simp
    | some owner =>
      by_cases howner : owner ≠ id
      · simp [howner]
      · simp only [howner, if_false, mem_cons, ih, FMap.get_erase]
        by_cases heq : a = addr
        · simp [heq]
        · simp [heq, Ne.symm heq]

/-- What is taken away belonged to the handle. -/
theorem owned_of_released (h : a ∈ released id accounts addrs) : accounts[a]? = some id := by
  induction addrs generalizing accounts with
  | nil => cases h
  | cons addr rest ih =>
    unfold released at h
    cases hfound : accounts[addr]? with
    | none =>
      rw [hfound] at h
      cases h
    | some owner =>
      rw [hfound] at h
      dsimp only at h
      split at h
      · cases h
      · rename_i howner
        rcases mem_cons.mp h with rfl | hmem
        · rw [hfound, not_not.mp howner]
        · have hrest := ih hmem
          rw [FMap.get_erase] at hrest
          split at hrest
          · cases hrest
          · exact hrest

theorem mem_of_released (h : a ∈ released id accounts addrs) : a ∈ addrs := by
  induction addrs generalizing accounts with
  | nil => cases h
  | cons addr rest ih =>
    unfold released at h
    split at h
    · cases h
    · split at h
      · cases h
      · rcases mem_cons.mp h with rfl | hmem
        · exact mem_cons_self
        · exact mem_cons_of_mem _ (ih hmem)

/-- A release leaves the addresses of other owners, and those it was not asked for. -/
theorem release_of_some (h : accounts[a]? = some owner) (hne : owner ≠ id ∨ a ∉ addrs) :
    (release id accounts addrs).2[a]? = some owner := by
  rw [release_getElem, if_neg, h]
  intro hmem
  rcases hne with howner | haddr
  · have hown := owned_of_released hmem
    rw [h] at hown
    exact howner (Option.some.inj hown)
  · exact haddr (mem_of_released hmem)

/-- One address is held when nothing is reported. -/
theorem hold_singleton (h : (hold id accounts [a]).1 = none) :
    (hold id accounts [a]).2[a]? = some id := by
  unfold hold at h ⊢
  cases hfound : accounts[a]? with
  | none =>
    exact ExtTreeMap.getElem?_insert_self
  | some owner =>
    rw [hfound] at h
    dsimp only at h ⊢
    split at h
    · rename_i howner
      rw [if_pos howner, hfound, howner]
    · cases h

/-! ## All or nothing -/

/-- The list starts with different addresses of one kind, and the rest are among them or of
another kind. -/
def Leads (P Q : Address → Prop) (addrs : List Address) : Prop :=
  ∃ first rest, addrs = first ++ rest ∧ first.Nodup ∧ (∀ a ∈ first, P a) ∧
    ∀ a ∈ rest, a ∈ first ∨ Q a

section Leads

variable {P Q : Address → Prop}

theorem leads_nil : Leads P Q [] := ⟨[], [], rfl, .nil, nofun, nofun⟩

theorem leads_cons_of_not (ha : ¬P a) : Leads P Q (a :: addrs) ↔ ∀ b ∈ a :: addrs, Q b := by
  constructor
  · rintro ⟨first, rest, heq, -, hfirst, hrest⟩
    cases first with
    | nil =>
      rw [heq]
      exact fun b hb => (hrest b hb).resolve_left not_mem_nil
    | cons b first =>
      cases heq
      exact absurd (hfirst a mem_cons_self) ha
  · exact fun h => ⟨[], a :: addrs, rfl, .nil, nofun, fun b hb => .inr (h b hb)⟩

theorem leads_cons (P' Q' : Address → Prop) (ha : P a) (hQ : ¬Q a)
    (hP' : ∀ b, P' b ↔ b ≠ a ∧ P b) (hQ' : ∀ b, Q' b ↔ b = a ∨ Q b) :
    Leads P Q (a :: addrs) ↔ Leads P' Q' addrs := by
  constructor
  · rintro ⟨first, rest, heq, hnodup, hfirst, hrest⟩
    cases first with
    | nil =>
      cases heq
      exact absurd ((hrest a mem_cons_self).resolve_left not_mem_nil) hQ
    | cons b first =>
      cases heq
      obtain ⟨hnot, hnodup⟩ := nodup_cons.mp hnodup
      refine ⟨first, rest, rfl, hnodup, fun b hb => ?_, fun b hb => ?_⟩
      · exact (hP' b).mpr ⟨fun h => hnot (h ▸ hb), hfirst b (mem_cons_of_mem _ hb)⟩
      · rw [hQ']
        have hb := hrest b hb
        rw [mem_cons] at hb
        tauto
  · rintro ⟨first, rest, rfl, hnodup, hfirst, hrest⟩
    refine ⟨a :: first, rest, rfl, ?_, ?_, fun b hb => ?_⟩
    · exact nodup_cons.mpr ⟨fun hmem => ((hP' a).mp (hfirst a hmem)).1 rfl, hnodup⟩
    · exact forall_mem_cons.mpr ⟨ha, fun b hb => ((hP' b).mp (hfirst b hb)).2⟩
    · have hb := hrest b hb
      rw [hQ'] at hb
      rw [mem_cons]
      tauto

end Leads

/-- A hold reports nothing and gets everything. -/
theorem hold_all_iff : ((hold id accounts addrs).1 = none ∧
    ∀ a ∈ addrs, (hold id accounts addrs).2[a]? = some id) ↔
      Leads (fun a => accounts[a]? = none) (fun a => accounts[a]? = some id) addrs := by
  induction addrs generalizing accounts with
  | nil => simp [hold, leads_nil]
  | cons addr rest ih =>
    cases hfound : accounts[addr]? with
    | some owner =>
      rw [leads_cons_of_not (by simp [hfound])]
      by_cases howner : owner = id <;> simp [hold, hfound, howner]
    | none =>
      have hheld : (hold id (accounts.insert addr id) rest).2[addr]? = some id :=
        hold_of_some (by rw [FMap.get_insert, if_pos rfl]) rest
      rw [leads_cons (fun b => (accounts.insert addr id)[b]? = none)
        (fun b => (accounts.insert addr id)[b]? = some id) hfound (by simp [hfound]), ← ih]
      · simp [hold, hfound, hheld]
      · intro b
        by_cases heq : addr = b <;> simp [FMap.get_insert, heq, eq_comm]
      · intro b
        by_cases heq : addr = b <;> simp [FMap.get_insert, heq, eq_comm]

/-- The first address that has an owner belongs to another handle. -/
def Refused (id : Int) (accounts : Tracker) (addrs : List Address) : Prop :=
  ∃ first a rest owner, addrs = first ++ a :: rest ∧ first.Nodup ∧
    (∀ b ∈ first, accounts[b]? = none) ∧ accounts[a]? = some owner ∧ owner ≠ id

/-- When a hold reports an error. -/
theorem hold_error_iff : (hold id accounts addrs).1 ≠ none ↔ Refused id accounts addrs := by
  induction addrs generalizing accounts with
  | nil => simp [hold, Refused]
  | cons addr rest ih =>
    unfold hold
    cases hfound : accounts[addr]? with
    | some owner =>
      have hsplit : (if owner = id then ((none : Option String), accounts) else
          (some errAlreadyReserved, accounts)).1 ≠ none ↔ owner ≠ id := by
        split <;> simp_all
      refine hsplit.trans ⟨fun hne => ⟨[], addr, rest, owner, rfl, .nil, by simp, hfound, hne⟩, ?_⟩
      rintro ⟨first, a, rest', owner', heq, -, hfirst, ha, hne⟩
      cases first with
      | nil =>
        cases heq
        rwa [← Option.some.inj (ha.symm.trans hfound)]
      | cons b first =>
        cases heq
        cases hfound.symm.trans (hfirst addr mem_cons_self)
    | none =>
      refine ih.trans ⟨?_, ?_⟩
      · rintro ⟨first, a, rest', owner, rfl, hnodup, hfirst, ha, hne⟩
        have hother : ∀ b ∈ first, addr ≠ b ∧ accounts[b]? = none := by
          intro b hb
          have hnone := hfirst b hb
          rw [FMap.get_insert] at hnone
          split at hnone
          · cases hnone
          · exact ⟨‹_›, hnone⟩
        rw [FMap.get_insert] at ha
        split at ha
        · exact absurd (Option.some.inj ha).symm hne
        · refine ⟨addr :: first, a, rest', owner, rfl, ?_, ?_, ha, hne⟩
          · exact nodup_cons.mpr ⟨fun hmem => (hother addr hmem).1 rfl, hnodup⟩
          · exact forall_mem_cons.mpr ⟨hfound, fun b hb => (hother b hb).2⟩
      · rintro ⟨first, a, rest', owner, heq, hnodup, hfirst, ha, hne⟩
        cases first with
        | nil =>
          cases heq
          cases hfound.symm.trans ha
        | cons b first =>
          cases heq
          obtain ⟨hnot, hnodup⟩ := nodup_cons.mp hnodup
          refine ⟨first, a, rest', owner, rfl, hnodup, fun b hb => ?_, ?_, hne⟩
          · rw [FMap.get_insert, if_neg (ne_of_mem_of_not_mem hb hnot).symm]
            exact hfirst b (mem_cons_of_mem _ hb)
          · rw [FMap.get_insert, if_neg, ha]
            rintro rfl
            cases hfound.symm.trans ha

/-- A hold that reports an error leaves the tracker only if it fails at once. -/
theorem hold_none_iff :
    ((hold id accounts addrs).1 ≠ none ∧ (hold id accounts addrs).2 = accounts) ↔
    ∃ a rest owner, addrs = a :: rest ∧ accounts[a]? = some owner ∧ owner ≠ id := by
  cases addrs with
  | nil => simp [hold]
  | cons addr rest =>
    cases hfound : accounts[addr]? with
    | some owner => by_cases howner : owner = id <;> simp [hold, hfound, howner]
    | none =>
      have hheld : (hold id (accounts.insert addr id) rest).2[addr]? = some id :=
        hold_of_some (by rw [FMap.get_insert, if_pos rfl]) rest
      have hchanged : (hold id (accounts.insert addr id) rest).2 ≠ accounts := by
        intro heq
        rw [heq, hfound] at hheld
        cases hheld
      simp [hold, hfound, hchanged]

/-- A release frees the listed addresses of the handle and no others. -/
theorem release_exact_iff : (∀ a, (release id accounts addrs).2[a]? =
    if a ∈ addrs ∧ accounts[a]? = some id then none else accounts[a]?) ↔
      Leads (fun a => accounts[a]? = some id) (fun a => accounts[a]? ≠ some id) addrs := by
  induction addrs generalizing accounts with
  | nil => simp [release, leads_nil]
  | cons addr rest ih =>
    by_cases howned : accounts[addr]? = some id
    · rw [leads_cons (fun b => (accounts.erase addr)[b]? = some id)
        (fun b => (accounts.erase addr)[b]? ≠ some id) howned (by simp [howned]), ← ih]
      · refine forall_congr' fun a => ?_
        by_cases heq : addr = a
        · subst heq
          simp [release, howned]
        · simp [release, howned, FMap.get_erase, heq, Ne.symm heq]
      · intro b
        by_cases heq : addr = b <;> simp [FMap.get_erase, heq, eq_comm]
      · intro b
        by_cases heq : addr = b <;> simp [FMap.get_erase, heq, eq_comm]
    · have hstops : (release id accounts (addr :: rest)).2 = accounts := by
        unfold release
        split
        · rfl
        · next owner hfound =>
          have hne : owner ≠ id := fun heq => howned (by rw [hfound, heq])
          rw [if_pos hne]
      rw [leads_cons_of_not howned, hstops]
      refine forall_congr' fun a => ?_
      split_ifs with hcase
      · simp [hcase]
      · simpa using fun hmem => not_and.mp hcase hmem

/-- `Hold` takes all addresses or none and `Release` frees exactly those of the handle, if and
only if no early return comes before an address that still has to change hands. -/
theorem reservations_atomic_iff (id : Int) (accounts : Tracker) (addrs : List Address) :
    ((((hold id accounts addrs).1 = none ∧
          ∀ a ∈ addrs, (hold id accounts addrs).2[a]? = some id) ∨
        ((hold id accounts addrs).1 ≠ none ∧ (hold id accounts addrs).2 = accounts)) ∧
      ∀ a, (release id accounts addrs).2[a]? =
        if a ∈ addrs ∧ accounts[a]? = some id then none else accounts[a]?) ↔
      (Leads (fun a => accounts[a]? = none) (fun a => accounts[a]? = some id) addrs ∨
        ∃ a rest owner, addrs = a :: rest ∧ accounts[a]? = some owner ∧ owner ≠ id) ∧
      Leads (fun a => accounts[a]? = some id) (fun a => accounts[a]? ≠ some id) addrs := by
  rw [hold_all_iff, hold_none_iff, release_exact_iff]

/-- The second address belongs to another pool: the first stays reserved. -/
theorem failed_hold_keeps_first :
    (hold 0 ((∅ : Tracker).insert 2 1) [1, 2]).1 = some errAlreadyReserved ∧
      ((∅ : Tracker).insert 2 1)[(1 : Address)]? = none ∧
      (hold 0 ((∅ : Tracker).insert 2 1) [1, 2]).2[(1 : Address)]? = some 0 := by
  decide +kernel

end Tracker

end InfiniteEvm.Mempool
