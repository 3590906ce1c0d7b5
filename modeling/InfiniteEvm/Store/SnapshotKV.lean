import InfiniteEvm.Library.Overlay

/-!
# The snapshot store of one store key

`x/vm/store/snapshotkv`: a stack of nested cache stores over the store that was
current before the transaction. A `CacheWrap` is a write-back cache over its parent,
so the stack is a list of layers from the bottom to the top. An index out of range
panics in the source and gives `none` here.
-/

namespace InfiniteEvm.SnapshotKV

open Std Library Overlay List

variable {K V : Type*} [Ord K] [TransOrd K]

/-- `Store`: the initial cache store with the store below it, and the pushed caches. -/
structure Store (K : Type*) [Ord K] (V : Type*) where
  parent : FMap K V
  initialStore : Layer K V
  cacheStores : List (Layer K V)

/-- `NewStore` wraps a cache store and pushes nothing yet. -/
def newStore (parent : FMap K V) (store : Layer K V) : Store K V where
  parent := parent
  initialStore := store
  cacheStores := []

/-- All layers, the initial store first and `CurrentStore` last. -/
def layers (cs : Store K V) : List (Layer K V) := cs.initialStore :: cs.cacheStores

/-- `Get` through `CurrentStore`. -/
def get (cs : Store K V) (k : K) : Option V := readStack (layers cs) (fun k => cs.parent[k]?) k

/-- `Set` (or `Delete`, for `none`) through `CurrentStore`. -/
def put (cs : Store K V) (k : K) (w : Option V) : Store K V :=
  match cs.cacheStores.getLast? with
  | none => { cs with initialStore := cs.initialStore.insert k w }
  | some top => { cs with cacheStores := cs.cacheStores.dropLast ++ [top.insert k w] }

/-- `Commit` writes all layers back from top to bottom, then the initial store, and
clears the stack. -/
def commit (cs : Store K V) : Store K V where
  parent := writeBase (writeInto (collapse cs.cacheStores) cs.initialStore) cs.parent
  initialStore := ∅
  cacheStores := []

/-- `Snapshot` pushes an empty cache and returns its index. -/
def snapshot (cs : Store K V) : Store K V × Nat :=
  ({ cs with cacheStores := cs.cacheStores ++ [∅] }, cs.cacheStores.length)

/-- `RevertToSnapshot` drops the caches from the target index on. -/
def revertToSnapshot (cs : Store K V) (target : Int) : Option (Store K V) :=
  if target < 0 ∨ target ≥ cs.cacheStores.length then none
  else some { cs with cacheStores := cs.cacheStores.take target.toNat }

section

variable (cs : Store K V)

omit [TransOrd K] in
@[simp] theorem snapshot_cacheStores : (snapshot cs).1.cacheStores = cs.cacheStores ++ [∅] := rfl

@[simp] theorem get_snapshot : get (snapshot cs).1 = get cs := by
  funext k
  change readStack (layers cs ++ [∅]) _ k = _
  rw [readStack_append]
  simp [get, snapshot]

@[simp] theorem put_length (k : K) (w : Option V) :
    (put cs k w).cacheStores.length = cs.cacheStores.length := by
  unfold put
  cases h : cs.cacheStores.getLast? with
  | none => rfl
  | some top =>
    have hne : cs.cacheStores ≠ [] := by
      intro hnil
      simp [hnil] at h
    have hpos := length_pos_iff.mpr hne
    simp only [length_append, length_dropLast, length_cons, length_nil]
    omega

/-- A write changes the top of the stack only: every lower layer stays as it is. -/
theorem put_take (k : K) (w : Option V) {n : Nat} (hn : n < cs.cacheStores.length) :
    (put cs k w).cacheStores.take n = cs.cacheStores.take n ∧
      (put cs k w).initialStore = cs.initialStore ∧ (put cs k w).parent = cs.parent := by
  unfold put
  cases h : cs.cacheStores.getLast? with
  | none =>
    have hnil : cs.cacheStores = [] := getLast?_eq_none_iff.mp h
    simp [hnil] at hn
  | some top =>
    refine ⟨?_, rfl, rfl⟩
    have hle : n ≤ cs.cacheStores.dropLast.length := by
      rw [length_dropLast]; omega
    rw [take_append_of_le_length hle, dropLast_eq_take, take_take]
    congr 1
    omega

omit [TransOrd K] in
theorem revertToSnapshot_of_lt {n : Nat} (hn : n < cs.cacheStores.length) :
    revertToSnapshot cs n = some { cs with cacheStores := cs.cacheStores.take n } := by
  unfold revertToSnapshot
  rw [if_neg (by omega)]
  simp

omit [TransOrd K] in
theorem revertToSnapshot_eq_none (target : Int) (h : target < 0 ∨ target ≥ cs.cacheStores.length) :
    revertToSnapshot cs target = none :=
  if_pos h

variable [LawfulEqOrd K] [DecidableEq K]

theorem get_put (k k' : K) (w : Option V) :
    get (put cs k w) k' = if k = k' then w else get cs k' := by
  cases h : cs.cacheStores.getLast? with
  | none =>
    have hnil : cs.cacheStores = [] := getLast?_eq_none_iff.mp h
    simp [get, put, layers, hnil, read_insert]
  | some top =>
    have hs : cs.cacheStores = cs.cacheStores.dropLast ++ [top] := by
      obtain ⟨init, hi⟩ := getLast?_eq_some_iff.mp h
      simp [hi]
    have hp : layers (put cs k w) =
        (cs.initialStore :: cs.cacheStores.dropLast) ++ [top.insert k w] := by
      simp [put, h, layers]
    have hl : layers cs = (cs.initialStore :: cs.cacheStores.dropLast) ++ [top] := by
      rw [cons_append, ← hs]; rfl
    have hpar : (put cs k w).parent = cs.parent := by simp [put, h]
    rw [get, get, hp, hl, hpar, readStack_append, readStack_append]
    simp only [readStack_cons, readStack_nil, read_insert]

/-- What `Commit` leaves in the parent store is what `CurrentStore` read before. -/
theorem getElem?_commit_parent (k : K) : (commit cs).parent[k]? = get cs k := by
  simp only [commit, getElem?_writeBase, read_writeInto, read_collapse]
  rfl

@[simp] theorem get_commit : get (commit cs) = get cs := by
  funext k
  have h : get (commit cs) k = (commit cs).parent[k]? := by simp [get, layers, commit]
  rw [h, getElem?_commit_parent]

end

end InfiniteEvm.SnapshotKV
