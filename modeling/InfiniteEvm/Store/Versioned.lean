import InfiniteEvm.Store.SnapshotMulti
import InfiniteEvm.Library.Runs

/-!
# The multi-store as one versioned map

What the snapshot multi-store is for: a single map from store key and key to value
that remembers its earlier versions. The nested caches are one way to keep such a
map; every run of the multi-store answers like the versioned map.
-/

namespace InfiniteEvm.SnapshotMulti

open Std Library Overlay Runs List Option ExtTreeMap

variable {K V : Type*} [Ord K] [TransOrd K]

/-- The operations of the store's users. A deletion is a `put` of nothing. -/
inductive Op (K V : Type*)
  | put (key : String) (k : K) (w : Option V)
  | snapshot
  | revert (i : Nat)
  | write

/-- One operation on the multi-store. -/
def step (s : Store K V) : Op K V → Option (Store K V)
  | .put key k w => put s key k w
  | .snapshot => some (snapshot s).1
  | .revert i => revertToSnapshot s i
  | .write => some (write s)

/-- The versioned map: what the parents hold, the version saved by each snapshot that
can still be reverted to, and the current version. -/
structure Versioned (K V : Type*) where
  parent : Reads K V
  saved : List (Reads K V)
  current : Reads K V

/-- One operation on the versioned map with the given store keys. -/
def Versioned.step [DecidableEq K] (keys : List String) (m : Versioned K V) :
    Op K V → Option (Versioned K V)
  | .put key k w =>
    if key ∈ keys then
      some { m with
        current := fun key' k' => if key = key' ∧ k = k' then w else m.current key' k' }
    else none
  | .snapshot => some { m with saved := m.saved ++ [m.current] }
  | .revert i =>
    (m.saved[i]?).map fun version =>
      { m with current := version, saved := m.saved.take i }
  | .write => some { parent := m.current, saved := [], current := m.current }

/-- The versions a multi-store holds: each prefix of its stacks is one of them. -/
def versions (s : Store K V) : Versioned K V where
  parent := parentGet s
  saved := (range s.head.toNat).map fun i => get (truncate i s)
  current := get s

/-- A well-formed store stands for the versioned map of its stacks. -/
def Represents (keys : List String) (s : Store K V) (m : Versioned K V) : Prop :=
  WellFormed s ∧ s.storeKeys = keys ∧ versions s = m

variable {s : Store K V} {keys : List String} {m m' : Versioned K V}

omit [TransOrd K] in
theorem mem_storeKeys (h : WellFormed s) (key : String) :
    key ∈ s.storeKeys ↔ ∃ st, s.stores[key]? = some st := by
  rw [h.keys, ExtTreeMap.mem_keys, mem_iff_isSome_getElem?, isSome_iff_exists]

theorem put_parentGet {t : Store K V} {key : String} {k : K} {w : Option V}
    (h : put s key k w = some t) : parentGet t = parentGet s := by
  funext key' k'
  rw [parentGet, getElem?_put h, parentGet]
  cases s.stores[key']? with
  | none => rfl
  | some st =>
    have hp : (SnapshotKV.put st k w).parent = st.parent := by
      unfold SnapshotKV.put
      split <;> rfl
    simp only [map_some, bind_some]
    split
    · rw [hp]
    · rfl

theorem parentGet_snapshot (h : WellFormed s) : parentGet (snapshot s).1 = parentGet s := by
  funext key k
  rw [parentGet, getElem?_snapshot h, parentGet]
  cases s.stores[key]? <;> rfl

theorem parentGet_truncate (n : Nat) (s : Store K V) : parentGet (truncate n s) = parentGet s := by
  funext key k
  rw [parentGet, getElem?_truncate, parentGet]
  cases s.stores[key]? <;> rfl

theorem newStore_represents (wraps : FMap String (CacheWrap K V)) :
    Represents wraps.keys (newStore wraps) (versions (newStore wraps)) :=
  ⟨newStore_wellFormed wraps, rfl, rfl⟩

variable [LawfulEqOrd K] [DecidableEq K]

section

variable (hr : Represents keys s m)
include hr

theorem step_put (key : String) (k : K) (w : Option V)
    (hm : m.step keys (.put key k w) = some m') :
    ∃ t, step s (.put key k w) = some t ∧ Represents keys t m' := by
  obtain ⟨hw, hk, rfl⟩ := hr
  have hkey : key ∈ keys := by
    by_contra hne
    simp [Versioned.step, hne] at hm
  obtain ⟨st, hst⟩ := (mem_storeKeys hw key).mp (hk ▸ hkey)
  have hput : put s key k w =
      some { s with stores := s.stores.insert key (SnapshotKV.put st k w) } :=
    (put_eq_some_iff s _ key k w).mpr ⟨st, hst, rfl⟩
  refine ⟨_, hput, put_wellFormed hput hw, hk, ?_⟩
  simp only [Versioned.step, hkey, if_true, some.injEq] at hm
  subst hm
  simp only [versions, Versioned.mk.injEq]
  refine ⟨put_parentGet hput, ?_, ?_⟩
  · apply map_congr_left
    intro i hi
    have hlt := mem_range.mp hi
    rw [truncate_put hput hw (by have := hw.nonneg; omega)]
  · funext key' k'
    exact get_put hput key' k'

omit [LawfulEqOrd K] in
theorem step_snapshot (hm : m.step keys .snapshot = some m') :
    ∃ t, step s .snapshot = some t ∧ Represents keys t m' := by
  obtain ⟨hw, hk, rfl⟩ := hr
  refine ⟨_, rfl, snapshot_wellFormed hw, hk, ?_⟩
  cases hm
  have hnonneg := hw.nonneg
  have hhead : (snapshot s).1.head.toNat = s.head.toNat + 1 := by
    simp only [snapshot]
    omega
  have htop : truncate s.head.toNat (snapshot s).1 = s := by
    rw [truncate_snapshot hw (by omega)]
    exact truncate_head hw (by omega)
  simp only [versions, Versioned.mk.injEq]
  refine ⟨parentGet_snapshot hw, ?_, get_snapshot hw⟩
  rw [hhead, range_succ, map_append, map_cons, map_nil, htop]
  congr 1
  apply map_congr_left
  intro i hi
  have hlt := mem_range.mp hi
  rw [truncate_snapshot hw (by omega)]

omit [LawfulEqOrd K] in
theorem step_revert (i : Nat) (hm : m.step keys (.revert i) = some m') :
    ∃ t, step s (.revert i) = some t ∧ Represents keys t m' := by
  obtain ⟨hw, hk, rfl⟩ := hr
  simp only [Versioned.step, map_eq_some_iff] at hm
  obtain ⟨version, hv, rfl⟩ := hm
  obtain ⟨hi, hversion⟩ := List.getElem?_eq_some_iff.mp hv
  have hlt : (i : Int) < s.head := by
    simp only [versions, List.length_map, List.length_range] at hi
    omega
  refine ⟨_, revertToSnapshot_eq hw hlt, truncate_wellFormed hw (by omega), hk, ?_⟩
  simp only [versions, Versioned.mk.injEq]
  refine ⟨parentGet_truncate i s, ?_, ?_⟩
  · change List.map _ (List.range i) = _
    rw [← List.map_take, List.take_range, Nat.min_eq_left (by omega)]
    apply List.map_congr_left
    intro j hj
    have hji := List.mem_range.mp hj
    rw [truncate_truncate s (by omega)]
  · rw [← hversion]
    simp [versions]

theorem step_write (hm : m.step keys .write = some m') :
    ∃ t, step s .write = some t ∧ Represents keys t m' := by
  obtain ⟨hw, hk, rfl⟩ := hr
  refine ⟨_, rfl, write_wellFormed hw, hk, ?_⟩
  cases hm
  simp only [versions, Versioned.mk.injEq]
  exact ⟨parentGet_write hw, rfl, get_write hw⟩

end

/-- The multi-store answers every operation the versioned map allows. -/
theorem step_represents (s : Store K V) (m : Versioned K V) (op : Op K V) (m' : Versioned K V)
    (hr : Represents keys s m) (hm : m.step keys op = some m') :
    ∃ t, step s op = some t ∧ Represents keys t m' := by
  cases op with
  | put key k w => exact step_put hr key k w hm
  | snapshot => exact step_snapshot hr hm
  | revert i => exact step_revert hr i hm
  | write => exact step_write hr hm

/-- Every run on a fresh multi-store that reverts only to live snapshots goes through
and keeps the store well formed. Its reads are those of the versioned map; reverting
to any live index gives the reads of that snapshot; `Write` leaves the current reads
in the parent stores and empties every stack. -/
theorem run_refines_versioned (wraps : FMap String (CacheWrap K V)) (ops : List (Op K V))
    (m : Versioned K V)
    (hm : run (Versioned.step wraps.keys) (versions (newStore wraps)) ops = some m) :
    ∃ s, run step (newStore wraps) ops = some s ∧ WellFormed s ∧
      s.head = m.saved.length ∧ get s = m.current ∧
      (∀ (i : Nat) (version : Reads K V), m.saved[i]? = some version →
        ∃ t, revertToSnapshot s i = some t ∧ WellFormed t ∧ t.head = i ∧ get t = version) ∧
      parentGet (write s) = get s ∧ (write s).head = 0 ∧
      ∀ (key : String) (st : SnapshotKV.Store K V), (write s).stores[key]? = some st →
        st.cacheStores = [] := by
  obtain ⟨s, hs, hw, hk, rfl⟩ := run_simulation (Represents wraps.keys)
    (fun s m op m' => step_represents s m op m') (newStore_represents wraps) hm
  have hnonneg := hw.nonneg
  refine ⟨s, hs, hw, ?_, rfl, ?_, parentGet_write hw, rfl, ?_⟩
  · simp only [versions, List.length_map, List.length_range]
    omega
  · intro i version hv
    obtain ⟨hi, hversion⟩ := List.getElem?_eq_some_iff.mp hv
    have hlt : (i : Int) < s.head := by
      simp only [versions, List.length_map, List.length_range] at hi
      omega
    refine ⟨_, revertToSnapshot_eq hw hlt, truncate_wellFormed hw (by omega), rfl, ?_⟩
    rw [← hversion]
    simp [versions]
  · intro key st hst
    rw [getElem?_write hw, map_eq_some_iff] at hst
    obtain ⟨st', -, rfl⟩ := hst
    rfl

/-- One cache store with nothing cached yet, under the given key. -/
def single (key : String) (parent : FMap K V) : FMap String (CacheWrap K V) :=
  (∅ : FMap String (CacheWrap K V)).insert key { parent := parent, cache := ∅ }

theorem run_refines_versioned_delete_set_revert :
    ∃ s : Store Nat Nat,
      run step (newStore (single "bank" (ofList [(1, 10)])))
        [.put "bank" 1 none, .snapshot, .put "bank" 1 (some 5), .snapshot] = some s ∧
      WellFormed s ∧ s.head = 2 ∧ get s "bank" 1 = some 5 ∧
      (∃ t, revertToSnapshot s 0 = some t ∧ get t "bank" 1 = none) ∧
      parentGet (write s) "bank" 1 = some 5 := by
  obtain ⟨s, hs, hw, hh, hg, hrev, hp, -, -⟩ := run_refines_versioned
    (single "bank" (ofList [(1, 10)]))
    [.put "bank" 1 none, .snapshot, .put "bank" 1 (some 5), .snapshot] _ rfl
  obtain ⟨t, ht, -, -, hget⟩ := hrev 0 _ rfl
  exact ⟨s, hs, hw, hh, by rw [hg]; rfl, ⟨t, ht, by rw [hget]; rfl⟩, by rw [hp, hg]; rfl⟩

/-- The index that `Snapshot` returned can be reverted to at once. After `Write` it is gone and
`RevertToSnapshot` panics. -/
theorem revert_lost_by_write :
    let start := newStore (single "bank" (ofList [((1 : Nat), (10 : Nat))]))
    (snapshot start).2 = 0 ∧ (run step start [.snapshot, .revert 0]).isSome = true ∧
      (run step start [.snapshot, .write, .revert 0]).isSome = false := by
  decide +kernel

end InfiniteEvm.SnapshotMulti
