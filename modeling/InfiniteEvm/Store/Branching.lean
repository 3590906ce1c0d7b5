import Mathlib.Logic.Function.Basic
import InfiniteEvm.Store.Versioned

/-!
# Branches of the multi-store

`CacheMultiStore` is what a cached SDK context is made from. Here it pushes one layer
on the receiver and returns the receiver, so the branch is not a store of its own. To
say this, stores are objects behind pointers.
-/

namespace InfiniteEvm.SnapshotMulti

open Std Library Runs Function

variable {K V : Type*} [Ord K] [TransOrd K] [LawfulEqOrd K] [DecidableEq K]

/-- The multi-store objects by address. -/
abbrev Objects (K : Type*) [Ord K] (V : Type*) := Nat → Store K V

/-- `CacheMultiStore` of the store at `p`: its state after, and the pointer returned. -/
def cacheMultiStore (objects : Objects K V) (p : Nat) : Objects K V × Nat :=
  (update objects p (snapshot (objects p)).1, p)

/-- `Set` or `Delete` through the pointer `p`. -/
def putThrough (p : Nat) (objects : Objects K V) (w : String × K × Option V) :
    Option (Objects K V) :=
  (put (objects p) w.1 w.2.1 w.2.2).map (update objects p)

/-- `Write` through the pointer `p`. -/
def writeThrough (objects : Objects K V) (p : Nat) : Objects K V :=
  update objects p (write (objects p))

/-- What a list of writes through one pointer does to the store behind it, as long as
the store has a pushed layer: only the top layer changes. -/
theorem run_putThrough {p : Nat} {objects objects' : Objects K V}
    {writes : List (String × K × Option V)} (hw : WellFormed (objects p))
    (hrun : run (putThrough p) objects writes = some objects') :
    WellFormed (objects' p) ∧ (objects' p).head = (objects p).head ∧
      (objects' p).storeKeys = (objects p).storeKeys ∧
      get (objects' p) = overwritten (get (objects p)) writes ∧
      ∀ n : Nat, n < (objects p).head → truncate n (objects' p) = truncate n (objects p) := by
  induction writes generalizing objects with
  | nil =>
    cases hrun
    exact ⟨hw, rfl, rfl, rfl, fun _ _ => rfl⟩
  | cons w rest ih =>
    rw [run_cons, Option.bind_eq_some_iff] at hrun
    obtain ⟨next, hnext, hrest⟩ := hrun
    obtain ⟨t, ht, rfl⟩ := Option.map_eq_some_iff.mp hnext
    have hsame : update objects p t p = t := update_self ..
    obtain ⟨hw', hhead, hkeys, hget, htrunc⟩ := ih (by rw [hsame]; exact put_wellFormed ht hw) hrest
    rw [hsame] at hhead hkeys hget htrunc
    refine ⟨hw', hhead.trans (put_head ht).1, hkeys.trans (put_head ht).2, ?_, ?_⟩
    · have hreads : get t = fun key k =>
          if w.1 = key ∧ w.2.1 = k then w.2.2 else get (objects p) key k := by
        funext key k
        exact get_put ht key k
      rw [hget, hreads]
      rfl
    · intro n hn
      rw [htrunc n (by rw [(put_head ht).1]; exact hn), truncate_put ht hw hn]

/-- The branch and its receiver are one store. Every write through the branch is read
through the receiver at once; until `Write`, reverting to the layer the branch pushed
(or to an older snapshot) undoes the writes; `Write` keeps the reads, moves them to
the parent stores and makes every snapshot index panic. -/
theorem cacheMultiStore_shares_receiver (objects : Objects K V) (p : Nat)
    (hw : WellFormed (objects p)) (writes : List (String × K × Option V)) (after : Objects K V)
    (hrun : run (putThrough (cacheMultiStore objects p).2) (cacheMultiStore objects p).1 writes =
      some after) :
    get (after p) = overwritten (get (objects p)) writes ∧
      get (after p) = get (after (cacheMultiStore objects p).2) ∧
      (∃ t, revertToSnapshot (after p) (objects p).head = some t ∧ get t = get (objects p)) ∧
      (∀ i : Nat, i < (objects p).head →
        revertToSnapshot (after p) i = revertToSnapshot (objects p) i) ∧
      get (writeThrough after (cacheMultiStore objects p).2 p) = get (after p) ∧
      parentGet (writeThrough after (cacheMultiStore objects p).2 p) = get (after p) ∧
      ∀ key ∈ (objects p).storeKeys, ∀ i : Int,
        revertToSnapshot (writeThrough after (cacheMultiStore objects p).2 p) i = none := by
  have hpush : (cacheMultiStore objects p).1 p = (snapshot (objects p)).1 := update_self ..
  change run (putThrough p) _ writes = some after at hrun
  obtain ⟨hwf, hhead, hkeys, hget, htrunc⟩ :=
    run_putThrough (by rw [hpush]; exact snapshot_wellFormed hw) hrun
  rw [hpush] at hhead hkeys hget htrunc
  have hnonneg := hw.nonneg
  have hsucc : (snapshot (objects p)).1.head = (objects p).head + 1 := rfl
  have hwrite : writeThrough after (cacheMultiStore objects p).2 p = write (after p) :=
    update_self ..
  have hbelow : ∀ n : Nat, n ≤ (objects p).head → revertToSnapshot (after p) n =
      some (truncate n (objects p)) := by
    intro n hn
    rw [revertToSnapshot_eq hwf (by omega), htrunc n (by omega), truncate_snapshot hw hn]
  refine ⟨by rw [hget, get_snapshot hw], rfl, ?_, ?_, ?_, ?_, ?_⟩
  · obtain ⟨n, hn⟩ := Int.eq_ofNat_of_zero_le hnonneg
    refine ⟨_, ?_, congrArg get (truncate_head hw hn)⟩
    rw [hn]
    exact hbelow n (by omega)
  · intro i hi
    rw [hbelow i (by omega), revertToSnapshot_eq hw hi]
  · rw [hwrite, get_write hwf]
  · rw [hwrite, parentGet_write hwf]
  · intro key hkey i
    rw [hwrite]
    have hkey' : key ∈ (write (after p)).storeKeys := by
      change key ∈ (after p).storeKeys
      rw [hkeys]
      exact hkey
    have hzero : (write (after p)).head = 0 := rfl
    exact revertToSnapshot_eq_none (write_wellFormed hwf) hkey' (by omega)

theorem cacheMultiStore_shares_receiver_one_key :
    ∃ after : Objects Nat Nat,
      run (putThrough 0) (cacheMultiStore
        (fun _ => newStore (single "bank" (ExtTreeMap.ofList [(1, 10)]))) 0).1
        [("bank", 1, some 5)] = some after ∧
      get (after 0) "bank" 1 = some 5 ∧
      ∃ t, revertToSnapshot (after 0) 0 = some t ∧ get t "bank" 1 = some 10 := by
  obtain ⟨hget, -, ⟨t, ht, hold⟩, -⟩ := cacheMultiStore_shares_receiver
    (fun _ => newStore (single "bank" (ExtTreeMap.ofList [(1, 10)]))) 0
    (newStore_wellFormed _) [("bank", 1, some 5)] _ rfl
  exact ⟨_, rfl, congrFun (congrFun hget "bank") 1, t, ht, congrFun (congrFun hold "bank") 1⟩

/-- A value set through the branch and never written is read through the receiver; and
once the branch is written, the snapshot taken before it can no longer be reverted to. -/
theorem cacheMultiStore_not_isolated :
    let start := newStore (single "bank" (ExtTreeMap.ofList [((1 : Nat), (10 : Nat))]))
    let objects : Objects Nat Nat := fun _ => (snapshot start).1
    let branch := (cacheMultiStore objects 0).2
    let after := run (putThrough branch) (cacheMultiStore objects 0).1 [("bank", 1, some 5)]
    get (objects 0) "bank" 1 = some 10 ∧
      after.map (fun o => get (o 0) "bank" 1) = some (some 5) ∧
      after.map (fun o => (revertToSnapshot (o 0) (snapshot start).2).isSome) = some true ∧
      after.map (fun o => (revertToSnapshot (writeThrough o branch 0) (snapshot start).2).isSome) =
        some false := by
  decide +kernel

end InfiniteEvm.SnapshotMulti
