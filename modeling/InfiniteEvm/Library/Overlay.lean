import InfiniteEvm.Library.FiniteMaps

/-!
# Stacks of write-back cache layers

A layer holds the value last written at each key it touched, with deletions kept as
entries of their own so that they hide what lies below. Layers are stacked over a
plain map. Reading goes through the stack from the top; writing a layer back into
the one below does not change what is read through it.
-/

namespace InfiniteEvm.Library.Overlay

open Std FMap ExtTreeMap

variable {K V : Type*} [Ord K] [TransOrd K] (below : K → Option V)

/-- The new value of each touched key, with `none` for a deletion. -/
abbrev Layer (K : Type*) [Ord K] (V : Type*) := FMap K (Option V)

/-- A layer answers for the keys it touched and passes the others on. -/
def read (layer : Layer K V) (below : K → Option V) (k : K) : Option V :=
  (layer[k]?).getD (below k)

@[simp] theorem read_empty : read (∅ : Layer K V) below = below := by
  funext k
  simp [read]

/-- Reads through a stack of layers listed from the bottom to the top. -/
def readStack (layers : List (Layer K V)) (below : K → Option V) : K → Option V :=
  layers.foldl (fun b layer => read layer b) below

@[simp] theorem readStack_nil : readStack ([] : List (Layer K V)) below = below := rfl

@[simp] theorem readStack_cons (layer : Layer K V) (layers : List (Layer K V))
    (below : K → Option V) :
    readStack (layer :: layers) below = readStack layers (read layer below) := rfl

theorem readStack_append (lower upper : List (Layer K V)) (below : K → Option V) :
    readStack (lower ++ upper) below = readStack upper (readStack lower below) := by
  simp [readStack, List.foldl_append]

variable [LawfulEqOrd K]

/-- Write every entry of a layer into the layer below, in key order. -/
def writeInto (layer below : Layer K V) : Layer K V :=
  layer.foldl (fun acc k w => acc.insert k w) below

theorem getElem?_writeInto (layer below : Layer K V) (k : K) :
    (writeInto layer below)[k]? = (layer[k]?).or below[k]? := by
  have h := read_foldl (fun (acc : Layer K V) k w => acc.insert k w)
    (fun (acc : Layer K V) (k : K) => acc[k]?) some
    (fun d k w => by simp)
    (fun d k w k' hk => by simp [getElem?_insert, hk]) layer below k
  rw [writeInto, h]
  cases layer[k]? <;> rfl

/-- Writing a layer into the one below keeps every read through the two of them. -/
theorem read_writeInto (layer lower : Layer K V) (below : K → Option V) :
    read (writeInto layer lower) below = read layer (read lower below) := by
  funext k
  simp only [read, getElem?_writeInto]
  cases layer[k]? <;> rfl

/-- Write the layers back one after another from the top: each layer receives what
the layers above it have written. -/
def collapse (layers : List (Layer K V)) : Layer K V :=
  layers.foldr (fun layer above => writeInto above layer) ∅

/-- The top-to-bottom write-back gathers one layer that reads like the whole stack. -/
theorem read_collapse (layers : List (Layer K V)) (below : K → Option V) :
    read (collapse layers) below = readStack layers below := by
  induction layers generalizing below with
  | nil => simp [collapse]
  | cons layer rest ih =>
    rw [collapse, List.foldr_cons, read_writeInto]
    exact ih (read layer below)

variable [DecidableEq K]

theorem read_insert (layer : Layer K V) (below : K → Option V) (k k' : K) (w : Option V) :
    read (layer.insert k w) below k' = if k = k' then w else read layer below k' := by
  simp only [read, getElem?_insert, LawfulEqCmp.compare_eq_iff_eq]
  split <;> rfl

/-- A write reaching a plain map stores a value or deletes the key. -/
def put (m : FMap K V) (k : K) : Option V → FMap K V
  | some v => m.insert k v
  | none => m.erase k

theorem getElem?_put (m : FMap K V) (k k' : K) (w : Option V) :
    (put m k w)[k']? = if k = k' then w else m[k']? := by
  cases w with
  | none =>
    simp only [put, getElem?_erase, LawfulEqCmp.compare_eq_iff_eq]
  | some v =>
    simp only [put, getElem?_insert, LawfulEqCmp.compare_eq_iff_eq]

/-- Write every entry of a layer into the plain map at the bottom of the stack. -/
def writeBase (layer : Layer K V) (m : FMap K V) : FMap K V := layer.foldl put m

/-- The plain map ends up with exactly what was read through the layer above it. -/
theorem getElem?_writeBase (layer : Layer K V) (m : FMap K V) (k : K) :
    (writeBase layer m)[k]? = read layer (fun k => m[k]?) k := by
  have h := read_foldl put (fun (acc : FMap K V) (k : K) => acc[k]?) id
    (fun d k w => by simp [getElem?_put])
    (fun d k w k' hk => by simp [getElem?_put, hk]) layer m k
  rw [writeBase, h, read]
  cases layer[k]? <;> rfl

end InfiniteEvm.Library.Overlay
