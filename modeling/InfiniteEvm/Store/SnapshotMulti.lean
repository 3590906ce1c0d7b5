import InfiniteEvm.Store.SnapshotKV

/-!
# The snapshot multi-store

`x/vm/store/snapshotmulti`: one snapshot store per store key, moved together. The
source walks its ordered `storeKeys` and changes the store found under each of them.
A panic (an index out of bounds, a key that is not registered) gives `none`.
-/

namespace InfiniteEvm.SnapshotMulti

open Std Library Overlay Option

variable {K V : Type*} [Ord K]

/-- What can be read: a value or nothing under each store key and key. -/
abbrev Reads (K V : Type*) := String → K → Option V

/-- The reads after a list of writes on top of given reads. -/
def overwritten [DecidableEq K] (reads : Reads K V) (writes : List (String × K × Option V)) :
    Reads K V :=
  writes.foldl
    (fun r w key k => if w.1 = key ∧ w.2.1 = k then w.2.2 else r key k) reads

/-- `Store`: the stores by key, the ordered keys, and the common stack height. -/
structure Store (K : Type*) [Ord K] (V : Type*) where
  stores : FMap String (SnapshotKV.Store K V)
  storeKeys : List String
  head : Int

/-- A cache store handed to the constructor: its own writes over its parent. -/
structure CacheWrap (K : Type*) [Ord K] (V : Type*) where
  parent : FMap K V
  cache : Layer K V

def initialHead : Int := 0

/-- `NewStore`: a fresh snapshot store for every key, with the keys in name order. -/
def newStore (wraps : FMap String (CacheWrap K V)) : Store K V where
  stores := wraps.map fun _ w => SnapshotKV.newStore w.parent w.cache
  storeKeys := wraps.keys
  head := initialHead

/-- The loop of `Snapshot` and `Write`: change the store under each listed key. -/
def forEachKey (f : SnapshotKV.Store K V → SnapshotKV.Store K V) (keys : List String)
    (stores : FMap String (SnapshotKV.Store K V)) : FMap String (SnapshotKV.Store K V) :=
  keys.foldl (fun m key => m.modify key f) stores

/-- `Snapshot` pushes a cache on every store and returns the index below the new head. -/
def snapshot (s : Store K V) : Store K V × Int :=
  ({ s with
      stores := forEachKey (fun st => (SnapshotKV.snapshot st).1) s.storeKeys s.stores
      head := s.head + 1 },
    s.head + 1 - 1)

theorem snapshot_snd (s : Store K V) : (snapshot s).2 = s.head := Int.add_sub_cancel s.head 1

/-- The loop of `RevertToSnapshot`, which stops at the first store that panics. -/
def revertAll (target : Int) : List String → FMap String (SnapshotKV.Store K V) →
    Option (FMap String (SnapshotKV.Store K V))
  | [], stores => some stores
  | key :: rest, stores =>
    match stores[key]? with
    | none => none
    | some st =>
      match SnapshotKV.revertToSnapshot st target with
      | none => none
      | some st' => revertAll target rest (stores.insert key st')

/-- `RevertToSnapshot` pops every store to the target index. -/
def revertToSnapshot (s : Store K V) (target : Int) : Option (Store K V) :=
  (revertAll target s.storeKeys s.stores).map fun stores =>
    { s with stores := stores, head := target }

/-- The keys are those of the stores, and every stack is as high as the head says. -/
structure WellFormed (s : Store K V) : Prop where
  keys : s.storeKeys = s.stores.keys
  nonneg : 0 ≤ s.head
  height : ∀ (key : String) (st : SnapshotKV.Store K V), s.stores[key]? = some st →
    (st.cacheStores.length : Int) = s.head

theorem newStore_wellFormed (wraps : FMap String (CacheWrap K V)) :
    WellFormed (newStore wraps) where
  keys := by simp [newStore]
  nonneg := Int.le_refl _
  height := by
    intro key st h
    simp only [newStore, ExtTreeMap.getElem?_map, map_eq_some_iff] at h
    obtain ⟨w, -, rfl⟩ := h
    rfl

theorem getElem?_forEachKey (f : SnapshotKV.Store K V → SnapshotKV.Store K V)
    (keys : List String) (hn : keys.Nodup) (stores : FMap String (SnapshotKV.Store K V))
    (key : String) :
    (forEachKey f keys stores)[key]? =
      if key ∈ keys then (stores[key]?).map f else stores[key]? := by
  induction keys generalizing stores with
  | nil => simp [forEachKey]
  | cons a rest ih =>
    obtain ⟨ha, hrest⟩ := List.nodup_cons.mp hn
    change (forEachKey f rest (stores.modify a f))[key]? = _
    rw [ih hrest, ExtTreeMap.getElem?_modify]
    by_cases hk : a = key
    · subst hk
      simp [ha]
    · have hk' : key ≠ a := fun h => hk h.symm
      simp [hk, hk']

variable {s t : Store K V} {n : Nat} {key : String} {k : K} {w : Option V}

theorem storeKeys_nodup (h : WellFormed s) : s.storeKeys.Nodup := by
  rw [h.keys]
  exact FMap.keys_nodup s.stores

/-- On a well-formed store each loop visits every store exactly once. -/
theorem getElem?_forEachKey_of_wellFormed (h : WellFormed s)
    (f : SnapshotKV.Store K V → SnapshotKV.Store K V) (key : String) :
    (forEachKey f s.storeKeys s.stores)[key]? = (s.stores[key]?).map f := by
  rw [getElem?_forEachKey f s.storeKeys (storeKeys_nodup h)]
  split
  · rfl
  · rename_i hk
    rw [h.keys, ExtTreeMap.mem_keys, ExtTreeMap.mem_iff_isSome_getElem?] at hk
    simp [not_isSome_iff_eq_none.mp hk]

/-- Cut every stack down to its lowest `n` caches. -/
def truncate (n : Nat) (s : Store K V) : Store K V :=
  { s with
    stores := s.stores.map fun _ st => { st with cacheStores := st.cacheStores.take n }
    head := n }

theorem getElem?_truncate (n : Nat) (s : Store K V) (key : String) :
    (truncate n s).stores[key]? =
      (s.stores[key]?).map fun st => { st with cacheStores := st.cacheStores.take n } := by
  simp [truncate]

theorem ext (hs : ∀ key : String, s.stores[key]? = t.stores[key]?) (hk : s.storeKeys = t.storeKeys)
    (hh : s.head = t.head) : s = t := by
  cases s
  obtain rfl : _ = _ := ExtTreeMap.ext_getElem? hs
  simp_all

theorem keys_eq_of_isSome {m m' : FMap String (SnapshotKV.Store K V)}
    (h : ∀ key : String, (m'[key]?).isSome = (m[key]?).isSome) : m'.keys = m.keys := by
  have hunit : m'.map (fun _ _ => ()) = m.map (fun _ _ => ()) := by
    apply ExtTreeMap.ext_getElem?
    intro key
    have := h key
    cases h₁ : m'[key]? <;> cases h₂ : m[key]? <;> simp_all
  have := congrArg ExtTreeMap.keys hunit
  simpa using this

theorem truncate_wellFormed (h : WellFormed s) (hn : n ≤ s.head) : WellFormed (truncate n s) where
  keys := by
    change s.storeKeys = (truncate n s).stores.keys
    rw [h.keys]
    apply keys_eq_of_isSome
    intro key
    rw [getElem?_truncate, isSome_map]
  nonneg := Int.natCast_nonneg n
  height := by
    intro key st hst
    rw [getElem?_truncate, map_eq_some_iff] at hst
    obtain ⟨st', hst', rfl⟩ := hst
    have := h.height key st' hst'
    simp only [List.length_take, truncate]
    omega

theorem truncate_truncate (s : Store K V) {m : Nat} (hmn : m ≤ n) :
    truncate m (truncate n s) = truncate m s := by
  apply ext
  · intro key
    simp only [getElem?_truncate, map_map, Function.comp_def, List.take_take, Nat.min_eq_left hmn]
  · rfl
  · rfl

theorem truncate_head (h : WellFormed s) (hn : s.head = n) : truncate n s = s := by
  apply ext
  · intro key
    rw [getElem?_truncate]
    cases hst : s.stores[key]? with
    | none => rfl
    | some st =>
      have := h.height key st hst
      have hle : st.cacheStores.length ≤ n := by omega
      simp [List.take_of_length_le hle]
  · rfl
  · exact hn.symm

theorem getElem?_snapshot (h : WellFormed s) (key : String) :
    (snapshot s).1.stores[key]? = (s.stores[key]?).map fun st => (SnapshotKV.snapshot st).1 :=
  getElem?_forEachKey_of_wellFormed h _ key

theorem snapshot_wellFormed (h : WellFormed s) : WellFormed (snapshot s).1 where
  keys := by
    change s.storeKeys = _
    rw [h.keys]
    apply keys_eq_of_isSome
    intro key
    rw [getElem?_snapshot h, isSome_map]
  nonneg := by
    have := h.nonneg
    simp only [snapshot]
    omega
  height := by
    intro key st hst
    rw [getElem?_snapshot h, map_eq_some_iff] at hst
    obtain ⟨st', hst', rfl⟩ := hst
    have := h.height key st' hst'
    simp only [snapshot, SnapshotKV.snapshot_cacheStores, List.length_append, List.length_cons,
      List.length_nil]
    omega

/-- Taking a snapshot leaves everything below the pushed caches as it was. -/
theorem truncate_snapshot (h : WellFormed s) (hn : n ≤ s.head) :
    truncate n (snapshot s).1 = truncate n s := by
  apply ext
  · intro key
    rw [getElem?_truncate, getElem?_snapshot h, getElem?_truncate, map_map]
    cases hst : s.stores[key]? with
    | none => rfl
    | some st =>
      have := h.height key st hst
      have hle : n ≤ st.cacheStores.length := by omega
      simp [SnapshotKV.snapshot, List.take_append_of_le_length hle]
  · rfl
  · rfl

theorem getElem?_revertAll (n : Nat) (keys : List String) (hn : keys.Nodup)
    (stores : FMap String (SnapshotKV.Store K V))
    (h : ∀ key ∈ keys, ∃ st, stores[key]? = some st ∧ n < st.cacheStores.length) :
    ∃ stores', revertAll n keys stores = some stores' ∧ ∀ key : String,
      stores'[key]? = if key ∈ keys then (stores[key]?).map fun st =>
        { st with cacheStores := st.cacheStores.take n } else stores[key]? := by
  induction keys generalizing stores with
  | nil => exact ⟨stores, rfl, fun key => by simp⟩
  | cons a rest ih =>
    obtain ⟨ha, hrest⟩ := List.nodup_cons.mp hn
    obtain ⟨st, hst, hlt⟩ := h a (List.mem_cons_self ..)
    have hrev := SnapshotKV.revertToSnapshot_of_lt st hlt
    obtain ⟨stores', hs, hget⟩ := ih hrest
      (stores.insert a { st with cacheStores := st.cacheStores.take n }) (by
        intro key hkey
        obtain ⟨st', hst', hlt'⟩ := h key (List.mem_cons_of_mem _ hkey)
        refine ⟨st', ?_, hlt'⟩
        have hne : a ≠ key := fun he => ha (he ▸ hkey)
        simp [ExtTreeMap.getElem?_insert, hne, hst'])
    refine ⟨stores', ?_, ?_⟩
    · simp only [revertAll, hst, hrev, hs]
    · intro key
      rw [hget]
      by_cases hk : a = key
      · subst hk
        simp [ha, hst]
      · have hk' : key ≠ a := fun he => hk he.symm
        simp [ExtTreeMap.getElem?_insert, hk, hk']

section

variable (h : WellFormed s)
include h

/-- Reverting to an index below the head never panics and cuts every stack there. -/
theorem revertToSnapshot_eq (hn : n < s.head) : revertToSnapshot s n = some (truncate n s) := by
  have hall : ∀ key ∈ s.storeKeys, ∃ st, s.stores[key]? = some st ∧ n < st.cacheStores.length := by
    intro key hkey
    rw [h.keys, ExtTreeMap.mem_keys, ExtTreeMap.mem_iff_isSome_getElem?] at hkey
    obtain ⟨st, hst⟩ := isSome_iff_exists.mp hkey
    have := h.height key st hst
    exact ⟨st, hst, by omega⟩
  obtain ⟨stores', hr, hget⟩ := getElem?_revertAll n s.storeKeys (storeKeys_nodup h) s.stores hall
  simp only [revertToSnapshot, hr, map_some, some.injEq]
  apply ext
  · intro key
    rw [hget, getElem?_truncate]
    split
    · rfl
    · rename_i hk
      rw [h.keys, ExtTreeMap.mem_keys, ExtTreeMap.mem_iff_isSome_getElem?] at hk
      simp [not_isSome_iff_eq_none.mp hk]
  · rfl
  · rfl

/-- The index of a snapshot reverts to the store it was taken of. -/
theorem revertToSnapshot_snapshot : revertToSnapshot (snapshot s).1 s.head = some s := by
  obtain ⟨n, hn⟩ := Int.eq_ofNat_of_zero_le h.nonneg
  have hhead : (snapshot s).1.head = (n : Int) + 1 := by
    rw [← hn]
    rfl
  rw [hn, revertToSnapshot_eq (snapshot_wellFormed h) (by omega), truncate_snapshot h (by omega),
    truncate_head h hn]

/-- Once a key is registered, an index at or above the head panics. -/
theorem revertToSnapshot_eq_none (hk : key ∈ s.storeKeys) {target : Int}
    (ht : target < 0 ∨ s.head ≤ target) : revertToSnapshot s target = none := by
  cases hkeys : s.storeKeys with
  | nil => simp [hkeys] at hk
  | cons a rest =>
    have ha : a ∈ s.stores := by
      rw [← ExtTreeMap.mem_keys, ← h.keys, hkeys]
      exact List.mem_cons_self ..
    obtain ⟨st, hst⟩ := isSome_iff_exists.mp (ExtTreeMap.mem_iff_isSome_getElem?.mp ha)
    have hlen := h.height a st hst
    have hnone := SnapshotKV.revertToSnapshot_eq_none st target (by omega)
    simp only [revertToSnapshot, hkeys, revertAll, hst, hnone, map_none]

end

variable [TransOrd K]

/-- `Get` through `GetKVStore`. -/
def get (s : Store K V) (key : String) (k : K) : Option V :=
  (s.stores[key]?).bind fun st => SnapshotKV.get st k

/-- `Set` or `Delete` through `GetKVStore`, which panics on a key not registered. -/
def put (s : Store K V) (key : String) (k : K) (w : Option V) : Option (Store K V) :=
  (s.stores[key]?).map fun st =>
    { s with stores := s.stores.insert key (SnapshotKV.put st k w) }

/-- `Write` commits every store and resets the head. -/
def write (s : Store K V) : Store K V :=
  { s with
    stores := forEachKey SnapshotKV.commit s.storeKeys s.stores
    head := initialHead }

/-- The parent stores below all caches. -/
def parentGet (s : Store K V) (key : String) (k : K) : Option V :=
  (s.stores[key]?).bind fun st => st.parent[k]?

theorem get_snapshot (h : WellFormed s) : get (snapshot s).1 = get s := by
  funext key k
  rw [get, getElem?_snapshot h, get]
  cases s.stores[key]? with
  | none => rfl
  | some st => simp

/-- A write goes through exactly when its store key is registered. -/
theorem put_eq_some_iff (s t : Store K V) (key : String) (k : K) (w : Option V) :
    put s key k w = some t ↔ ∃ st, s.stores[key]? = some st ∧
      t = { s with stores := s.stores.insert key (SnapshotKV.put st k w) } := by
  simp only [put, map_eq_some_iff]
  constructor
  · rintro ⟨st, h, rfl⟩
    exact ⟨st, h, rfl⟩
  · rintro ⟨st, h, rfl⟩
    exact ⟨st, h, rfl⟩

section

variable (h : put s key k w = some t)
include h

theorem getElem?_put (key' : String) :
    t.stores[key']? =
      (s.stores[key']?).map fun st => if key = key' then SnapshotKV.put st k w else st := by
  obtain ⟨st, hst, rfl⟩ := (put_eq_some_iff s t key k w).mp h
  simp only [ExtTreeMap.getElem?_insert, LawfulEqCmp.compare_eq_iff_eq]
  by_cases hk : key = key'
  · subst hk
    simp [hst]
  · simp [hk]

theorem put_head : t.head = s.head ∧ t.storeKeys = s.storeKeys := by
  obtain ⟨st, -, rfl⟩ := (put_eq_some_iff s t key k w).mp h
  exact ⟨rfl, rfl⟩

theorem put_wellFormed (hs : WellFormed s) : WellFormed t where
  keys := by
    rw [(put_head h).2, hs.keys]
    apply keys_eq_of_isSome
    intro key'
    rw [getElem?_put h, isSome_map]
  nonneg := by
    rw [(put_head h).1]
    exact hs.nonneg
  height := by
    intro key' st hst
    rw [getElem?_put h, map_eq_some_iff] at hst
    obtain ⟨st', hst', rfl⟩ := hst
    rw [(put_head h).1, ← hs.height key' st' hst']
    split <;> simp

/-- A write leaves everything below the top caches as it was. -/
theorem truncate_put (hs : WellFormed s) (hn : n < s.head) : truncate n t = truncate n s := by
  apply ext
  · intro key'
    rw [getElem?_truncate, getElem?_put h, getElem?_truncate, map_map]
    cases hst : s.stores[key']? with
    | none => rfl
    | some st =>
      have hlen := hs.height key' st hst
      have hlt : n < st.cacheStores.length := by omega
      obtain ⟨h₁, h₂, h₃⟩ := SnapshotKV.put_take st k w hlt
      by_cases hk : key = key'
      · simp [hk, h₁, h₂, h₃]
      · simp [hk]
  · exact (put_head h).2
  · rfl

variable [LawfulEqOrd K] [DecidableEq K]

theorem get_put (key' : String) (k' : K) :
    get t key' k' = if key = key' ∧ k = k' then w else get s key' k' := by
  obtain ⟨st, hst, -⟩ := (put_eq_some_iff s t key k w).mp h
  rw [get, getElem?_put h, get]
  by_cases hk : key = key'
  · subst hk
    simp [hst, SnapshotKV.get_put]
  · cases s.stores[key']? with
    | none => simp [hk]
    | some st' => simp [hk]

end

section

variable (h : WellFormed s)
include h

/-- A write leaves what every index reverts to. -/
theorem revertToSnapshot_put (hput : put s key k w = some t) (hn : n < s.head) :
    revertToSnapshot t n = revertToSnapshot s n := by
  have hhead := (put_head hput).1
  rw [revertToSnapshot_eq (put_wellFormed hput h) (by omega), revertToSnapshot_eq h hn,
    truncate_put hput h hn]

theorem getElem?_write (key : String) :
    (write s).stores[key]? = (s.stores[key]?).map SnapshotKV.commit :=
  getElem?_forEachKey_of_wellFormed h _ key

theorem write_wellFormed : WellFormed (write s) where
  keys := by
    change s.storeKeys = _
    rw [h.keys]
    apply keys_eq_of_isSome
    intro key
    rw [getElem?_write h, isSome_map]
  nonneg := Int.le_refl _
  height := by
    intro key st hst
    rw [getElem?_write h, map_eq_some_iff] at hst
    obtain ⟨st', -, rfl⟩ := hst
    rfl

variable [LawfulEqOrd K] [DecidableEq K]

theorem get_write : get (write s) = get s := by
  funext key k
  rw [get, getElem?_write h, get]
  cases s.stores[key]? with
  | none => rfl
  | some st => simp

/-- `Write` leaves in the parents what the top of the stacks read before. -/
theorem parentGet_write : parentGet (write s) = get s := by
  funext key k
  rw [parentGet, getElem?_write h, get]
  cases s.stores[key]? with
  | none => rfl
  | some st => exact SnapshotKV.getElem?_commit_parent st k

end

end InfiniteEvm.SnapshotMulti
