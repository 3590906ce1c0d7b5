import InfiniteEvm.Library.Runs
import InfiniteEvm.StateDB.Types
import Mathlib.Data.List.ReduceOption

/-!
# The list of transactions to gossip

`mempool/reap_list.go`. Transactions wait in the order in which they were pushed until they are
reaped. A dropped one leaves a hole in the slice, and the index keeps the hash of a reaped one
so that it is not pushed again before it is dropped.
-/

namespace InfiniteEvm.Mempool

open Library List Option FMap

/-- `txWithHash`. -/
structure TxWithHash where
  bytes : Bytes
  hash : String
  gas : BitVec 64
  deriving DecidableEq

/-- `ReapList`, with `none` for the holes. -/
structure ReapList where
  txs : List (Option TxWithHash)
  txIndex : FMap String Int

namespace ReapList

/-- `NewReapList`. -/
def new : ReapList := { txs := [], txIndex := ∅ }

/-- The entries that are not holes. -/
def live (rl : ReapList) : List TxWithHash := rl.txs.reduceOption

/-- The next transaction does not fit under a limit any more. A limit of zero is none. -/
def exceeds (maxBytes maxGas totalBytes totalGas : BitVec 64) (tx : TxWithHash) : Bool :=
  (0 < maxBytes && maxBytes < totalBytes + BitVec.ofNat 64 tx.bytes.length) ||
    (0 < maxGas && maxGas < totalGas + tx.gas)

/-- The first loop of `Reap`: what it returns, the index and `nextStart`, or a panic. -/
def reapLoop (maxBytes maxGas : BitVec 64) : List (Option TxWithHash) → BitVec 64 → BitVec 64 →
    FMap String Int → Option (List TxWithHash × FMap String Int × Nat)
  | [], _, _, index => some ([], index, 0)
  | none :: rest, totalBytes, totalGas, index =>
    (reapLoop maxBytes maxGas rest totalBytes totalGas index).map fun (result, index, next) =>
      (result, index, next + 1)
  | some tx :: rest, totalBytes, totalGas, index =>
    if exceeds maxBytes maxGas totalBytes totalGas tx then some ([], index, 0)
    else if tx.hash ∉ index then none
    else
      (reapLoop maxBytes maxGas rest (totalBytes + BitVec.ofNat 64 tx.bytes.length)
        (totalGas + tx.gas) (index.insert tx.hash (-1))).map fun (result, index, next) =>
          (tx :: result, index, next + 1)

/-- The loop that rebuilds the index from a position on, or a panic. -/
def reindex : Nat → List TxWithHash → FMap String Int → Option (FMap String Int)
  | _, [], index => some index
  | i, tx :: rest, index =>
    if tx.hash ∉ index then none else reindex (i + 1) rest (index.insert tx.hash i)

/-- `Reap`, with the entries whose bytes are returned. -/
def reap (rl : ReapList) (maxBytes maxGas : BitVec 64) : Option (ReapList × List TxWithHash) :=
  (reapLoop maxBytes maxGas rl.txs 0 0 rl.txIndex).bind fun (result, index, nextStart) =>
    let kept := (rl.txs.drop nextStart).reduceOption
    (reindex 0 kept index).map fun index => ({ txs := kept.map some, txIndex := index }, result)

/-- `push`. -/
def push (rl : ReapList) (tx : TxWithHash) : ReapList :=
  { txs := rl.txs ++ [some tx], txIndex := rl.txIndex.insert tx.hash rl.txs.length }

/-- `drop`. -/
def drop (rl : ReapList) (hash : String) : ReapList :=
  match rl.txIndex[hash]? with
  | none => rl
  | some idx =>
    { txs := if 0 ≤ idx ∧ idx < rl.txs.length then rl.txs.set idx.toNat none else rl.txs
      txIndex := rl.txIndex.erase hash }

/-- The encodings and hashes of both kinds of transactions. The gas of a Cosmos transaction is
that of a fee transaction. -/
structure Encoder (E C : Type) where
  evmTx : E → Except String Bytes
  evmHash : E → String
  evmGas : E → BitVec 64
  cosmosTx : C → Except String Bytes
  cosmosHash : Bytes → String
  feeGas : C → Option (BitVec 64)

inductive Call (E C : Type)
  | pushEVMTx (tx : E)
  | pushCosmosTx (tx : C)
  | dropEVMTx (tx : E)
  | dropCosmosTx (tx : C)
  | reap (maxBytes maxGas : BitVec 64)

section Calls

variable {E C : Type} (enc : Encoder E C)

/-- `PushEVMTx`. -/
def pushEVMTx (rl : ReapList) (tx : E) : ReapList × Option String :=
  if enc.evmHash tx ∈ rl.txIndex then (rl, none)
  else
    match enc.evmTx tx with
    | .error err => (rl, some ("encoding evm tx to bytes: " ++ err))
    | .ok bytes => (rl.push ⟨bytes, enc.evmHash tx, enc.evmGas tx⟩, none)

/-- `PushCosmosTx`. -/
def pushCosmosTx (rl : ReapList) (tx : C) : ReapList × Option String :=
  match enc.cosmosTx tx with
  | .error err => (rl, some ("encoding cosmos tx to bytes: " ++ err))
  | .ok bytes =>
    if enc.cosmosHash bytes ∈ rl.txIndex then (rl, none)
    else
      match enc.feeGas tx with
      | none => (rl, some "error getting tx gas: cosmos tx must implement sdk.FeeTx")
      | some gas => (rl.push ⟨bytes, enc.cosmosHash bytes, gas⟩, none)

/-- One call and the entries it returns, or a panic. -/
def step (rl : ReapList) : Call E C → Option (ReapList × List TxWithHash)
  | .pushEVMTx tx => some ((rl.pushEVMTx enc tx).1, [])
  | .pushCosmosTx tx => some ((rl.pushCosmosTx enc tx).1, [])
  | .dropEVMTx tx => some (rl.drop (enc.evmHash tx), [])
  | .dropCosmosTx tx =>
    match enc.cosmosTx tx with
    | .error _ => some (rl, [])
    | .ok bytes => some (rl.drop (enc.cosmosHash bytes), [])
  | .reap maxBytes maxGas => rl.reap maxBytes maxGas

/-- The list after some calls, or a panic. -/
def run : ReapList → List (Call E C) → Option ReapList :=
  Runs.run fun rl c => (rl.step enc c).map Prod.fst

/-- The hash of the transaction that a call pushes or drops. -/
def pushes : Call E C → Option String
  | .pushEVMTx tx => some (enc.evmHash tx)
  | .pushCosmosTx tx => (enc.cosmosTx tx).toOption.map enc.cosmosHash
  | _ => none

@[inherit_doc pushes]
def drops : Call E C → Option String
  | .dropEVMTx tx => some (enc.evmHash tx)
  | .dropCosmosTx tx => (enc.cosmosTx tx).toOption.map enc.cosmosHash
  | _ => none

end Calls

/-! ## The index -/

/-- The index has exactly the positions of the live entries. -/
def WellIndexed (rl : ReapList) : Prop :=
  ∀ (h : String) (i : Nat), rl.txIndex[h]? = some (i : Int) ↔
    ∃ tx, rl.txs[i]? = some (some tx) ∧ tx.hash = h

variable {rl rl' : ReapList} {tx : TxWithHash} {hash : String}

theorem mem_live : tx ∈ rl.live ↔ ∃ i : Nat, rl.txs[i]? = some (some tx) := by
  rw [live, reduceOption_mem_iff, mem_iff_getElem?]

theorem WellIndexed.mem_index (h : WellIndexed rl) (htx : tx ∈ rl.live) : tx.hash ∈ rl.txIndex := by
  obtain ⟨i, hi⟩ := mem_live.mp htx
  exact mem_iff_get.mpr ⟨i, (h tx.hash i).mpr ⟨tx, hi, rfl⟩⟩

theorem new_wellIndexed : WellIndexed new := by
  intro h i
  simp [new]

theorem push_wellIndexed (h : WellIndexed rl) (hnew : tx.hash ∉ rl.txIndex) :
    WellIndexed (rl.push tx) := by
  intro hash i
  have := h hash i
  simp only [push, get_insert]
  grind

theorem drop_wellIndexed (h : WellIndexed rl) (hash : String) : WellIndexed (rl.drop hash) := by
  unfold drop
  split
  · exact h
  · intro hash' i
    have := h hash' i
    have := h hash i
    grind

/-- No live hash occurs twice. -/
theorem WellIndexed.nodup (h : WellIndexed rl) : (rl.live.map (·.hash)).Nodup := by
  have hsame : ∀ (i j : Nat) (tx tx' : TxWithHash), rl.txs[i]? = some (some tx) →
      rl.txs[j]? = some (some tx') → tx.hash = tx'.hash → i = j := by
    intro i j tx tx' hi hj heq
    have hi := (h tx.hash i).mpr ⟨tx, hi, rfl⟩
    have hj := (h tx.hash j).mpr ⟨tx', hj, heq.symm⟩
    grind
  rw [live]
  generalize rl.txs = txs at hsame
  induction txs with
  | nil => exact .nil
  | cons entry rest ih =>
    have hrest := ih fun i j tx tx' hi hj heq =>
      Nat.succ.inj (hsame (i + 1) (j + 1) tx tx' hi hj heq)
    cases entry with
    | none => exact hrest
    | some tx =>
      rw [reduceOption_cons_of_some, map_cons, nodup_cons]
      refine ⟨fun hmem => ?_, hrest⟩
      obtain ⟨tx', htx', heq⟩ := mem_map.mp hmem
      obtain ⟨j, hj⟩ := mem_iff_getElem?.mp (reduceOption_mem_iff.mp htx')
      exact nomatch hsame 0 (j + 1) tx tx' rfl hj heq.symm

/-! ## What the calls do -/

theorem live_push (tx : TxWithHash) : (rl.push tx).live = rl.live ++ [tx] := by
  simp [live, push, reduceOption_append]

theorem reduceOption_set_sublist : ∀ (txs : List (Option TxWithHash)) (i : Nat),
    (txs.set i none).reduceOption.Sublist txs.reduceOption
  | [], _ => .refl _
  | none :: _, 0 => .refl _
  | some tx :: rest, 0 => sublist_cons_self tx rest.reduceOption
  | none :: rest, i + 1 => reduceOption_set_sublist rest i
  | some tx :: rest, i + 1 => (reduceOption_set_sublist rest i).cons_cons tx

theorem live_drop_sublist (hash : String) : (rl.drop hash).live.Sublist rl.live := by
  unfold drop
  split
  · exact .refl _
  · split_ifs
    · exact reduceOption_set_sublist _ _
    · exact .refl _

/-- The loop takes a beginning of the live entries and marks it in the index. -/
theorem reapLoop_eq (maxBytes maxGas totalBytes totalGas : BitVec 64)
    {txs : List (Option TxWithHash)} {index : FMap String Int}
    (hknown : ∀ tx ∈ txs.reduceOption, tx.hash ∈ index) :
    ∃ result index' next,
      reapLoop maxBytes maxGas txs totalBytes totalGas index = some (result, index', next) ∧
      txs.reduceOption = result ++ (txs.drop next).reduceOption ∧
      ∀ h, index'[h]? = if h ∈ result.map (·.hash) then some (-1) else index[h]? := by
  induction txs generalizing totalBytes totalGas index with
  | nil => exact ⟨[], index, 0, rfl, rfl, by simp⟩
  | cons entry rest ih =>
    cases entry with
    | none =>
      obtain ⟨result, index', next, hloop, hlive, hindex⟩ := ih totalBytes totalGas hknown
      exact ⟨result, index', next + 1, by simp [reapLoop, hloop], hlive, hindex⟩
    | some tx =>
      by_cases hexceeds : exceeds maxBytes maxGas totalBytes totalGas tx
      · exact ⟨[], index, 0, by simp [reapLoop, hexceeds], rfl, by simp⟩
      · obtain ⟨result, index', next, hloop, hlive, hindex⟩ :=
          @ih (totalBytes + BitVec.ofNat 64 tx.bytes.length) (totalGas + tx.gas)
            (index.insert tx.hash (-1)) fun tx' htx' => by
              simp [hknown tx' (mem_cons_of_mem _ htx')]
        refine ⟨tx :: result, index', next + 1, ?_, ?_, fun h => ?_⟩
        · simp [reapLoop, hexceeds, hknown tx mem_cons_self, hloop]
        · rw [reduceOption_cons_of_some, hlive]
          rfl
        · grind

/-- The index is rebuilt with the positions. -/
theorem reindex_eq (i : Nat) {txs : List TxWithHash} {index : FMap String Int}
    (hknown : ∀ tx ∈ txs, tx.hash ∈ index) (hnodup : (txs.map (·.hash)).Nodup) :
    ∃ index', reindex i txs index = some index' ∧
      (∀ (j : Nat) tx, txs[j]? = some tx → index'[tx.hash]? = some ((i + j : Nat) : Int)) ∧
      ∀ h ∉ txs.map (·.hash), index'[h]? = index[h]? := by
  induction txs generalizing i index with
  | nil => exact ⟨index, rfl, by simp, by simp⟩
  | cons tx rest ih =>
    rw [map_cons, nodup_cons] at hnodup
    obtain ⟨index', hloop, hset, hkept⟩ := @ih (i + 1) (index.insert tx.hash i)
      (fun tx' htx' => by simp [hknown tx' (mem_cons_of_mem _ htx')]) hnodup.2
    refine ⟨index', by simp [reindex, hknown tx mem_cons_self, hloop], ?_, ?_⟩
    · intro j tx' hj
      cases j with
      | zero =>
        cases hj
        rw [hkept _ hnodup.1, get_insert, if_pos rfl]
        rfl
      | succ j =>
        rw [hset j tx' hj]
        congr 2
        omega
    · intro h hmem
      rw [map_cons, mem_cons, not_or] at hmem
      rw [hkept h hmem.2, get_insert, if_neg (Ne.symm hmem.1)]

/-- `Reap` does not panic, splits the live entries and keeps what the index knows. -/
theorem reap_eq (h : WellIndexed rl) (maxBytes maxGas : BitVec 64) :
    ∃ rl' result, rl.reap maxBytes maxGas = some (rl', result) ∧ WellIndexed rl' ∧
      rl.live = result ++ rl'.live ∧ ∀ hash, hash ∈ rl'.txIndex ↔ hash ∈ rl.txIndex := by
  obtain ⟨result, index, next, hloop, hlive, hindex⟩ :=
    reapLoop_eq maxBytes maxGas 0 0 fun tx (htx : tx ∈ rl.live) => h.mem_index htx
  generalize hkept : (rl.txs.drop next).reduceOption = kept at hlive
  have hnodup := h.nodup
  have hold : ∀ tx ∈ result ++ kept, tx.hash ∈ rl.txIndex := fun tx htx =>
    h.mem_index (by rw [live, hlive]; exact htx)
  rw [live, hlive, map_append] at hnodup
  have hmem : ∀ hash, hash ∈ index ↔ hash ∈ rl.txIndex := by
    intro hash
    by_cases htaken : hash ∈ result.map (·.hash)
    · obtain ⟨tx, htx, rfl⟩ := mem_map.mp htaken
      simp [FMap.mem_iff_get, hindex, htaken, hold tx (mem_append_left _ htx)]
    · rw [FMap.mem_iff_get, FMap.mem_iff_get, hindex, if_neg htaken]
  obtain ⟨index', hreindex, hset, hrest⟩ := reindex_eq 0
    (fun tx htx => (hmem _).mpr (hold tx (mem_append_right _ htx))) hnodup.of_append_right
  refine ⟨{ txs := kept.map some, txIndex := index' }, result, ?_, ?_, ?_, ?_⟩
  · simp only [reap, hloop, bind_some, hkept, hreindex, map_some]
  · intro hash i
    constructor
    · intro hi
      by_cases hin : hash ∈ kept.map (·.hash)
      · obtain ⟨tx, htx, rfl⟩ := mem_map.mp hin
        obtain ⟨j, hj⟩ := mem_iff_getElem?.mp htx
        have := hset j tx hj
        exact ⟨tx, by grind, rfl⟩
      · rw [hrest hash hin, hindex] at hi
        split_ifs at hi with htaken
        · exact absurd (some.inj hi) (by omega)
        · obtain ⟨tx, htx, rfl⟩ := (h hash i).mp hi
          have htx : tx ∈ result ++ kept := hlive ▸ mem_live.mpr ⟨i, htx⟩
          rw [mem_append] at htx
          obtain htx | htx := htx
          · exact absurd (mem_map_of_mem htx) htaken
          · exact absurd (mem_map_of_mem htx) hin
    · rintro ⟨tx, htx, rfl⟩
      have htx : kept[i]? = some tx := by
        simpa [getElem?_map] using htx
      simpa using hset i tx htx
  · rw [live, hlive, live, reduceOption, filterMap_map]
    simp
  · intro hash
    rw [← hmem]
    by_cases hin : hash ∈ kept.map (·.hash)
    · obtain ⟨tx, htx, rfl⟩ := mem_map.mp hin
      obtain ⟨j, hj⟩ := mem_iff_getElem?.mp htx
      have := hold tx (mem_append_right _ htx)
      simp [FMap.mem_iff_get, hset j tx hj, ← hmem] at this ⊢
      exact this
    · rw [FMap.mem_iff_get, FMap.mem_iff_get, hrest hash hin]

/-! ## Whole runs -/

section Runs

variable {E C : Type} (enc : Encoder E C)

/-- What a call can do. -/
inductive Effect (rl : ReapList) (c : Call E C) : ReapList → List TxWithHash → Prop
  | same : Effect rl c rl []
  | push (tx : TxWithHash) (hnew : tx.hash ∉ rl.txIndex) (hc : pushes enc c = some tx.hash) :
      Effect rl c (rl.push tx) []
  | drop (hash : String) (hc : drops enc c = some hash) : Effect rl c (rl.drop hash) []
  | reap (rl' : ReapList) (result : List TxWithHash) (hwell : WellIndexed rl')
      (hlive : rl.live = result ++ rl'.live)
      (hindex : ∀ hash, hash ∈ rl'.txIndex ↔ hash ∈ rl.txIndex) : Effect rl c rl' result

theorem step_effect (h : WellIndexed rl) (c : Call E C) :
    ∃ rl' result, rl.step enc c = some (rl', result) ∧ Effect enc rl c rl' result := by
  cases c with
  | pushEVMTx tx =>
    simp only [step, pushEVMTx]
    split_ifs with hmem
    · exact ⟨rl, [], rfl, .same⟩
    · split
      · exact ⟨rl, [], rfl, .same⟩
      · exact ⟨_, [], rfl, .push _ hmem rfl⟩
  | pushCosmosTx tx =>
    simp only [step, pushCosmosTx]
    split
    · exact ⟨rl, [], rfl, .same⟩
    · next bytes hbytes =>
      split_ifs with hmem
      · exact ⟨rl, [], rfl, .same⟩
      · split
        · exact ⟨rl, [], rfl, .same⟩
        · exact ⟨_, [], rfl, .push _ hmem (by rw [pushes, hbytes]; rfl)⟩
  | dropEVMTx tx => exact ⟨_, [], rfl, .drop _ rfl⟩
  | dropCosmosTx tx =>
    simp only [step]
    split
    · exact ⟨rl, [], rfl, .same⟩
    · next bytes hbytes => exact ⟨_, [], rfl, .drop _ (by rw [drops, hbytes]; rfl)⟩
  | reap maxBytes maxGas =>
    obtain ⟨rl', result, hreap, hwell, hlive, hindex⟩ := reap_eq h maxBytes maxGas
    exact ⟨rl', result, hreap, .reap rl' result hwell hlive hindex⟩

variable {enc} {c : Call E C} {result : List TxWithHash}

section

variable (he : Effect enc rl c rl' result)
include he

theorem Effect.wellIndexed (h : WellIndexed rl) :
    WellIndexed rl' := by
  cases he with
  | same => exact h
  | push tx hnew _ => exact push_wellIndexed h hnew
  | drop hash _ => exact drop_wellIndexed h hash
  | reap _ _ hwell _ _ => exact hwell

/-- Live entries keep their order, and a new one comes last. -/
theorem Effect.ordered :
    ∃ new : List TxWithHash, new.length ≤ 1 ∧
      (∀ tx ∈ new, pushes enc c = some tx.hash ∧ tx.hash ∉ rl.txIndex) ∧
      (result ++ rl'.live).Sublist (rl.live ++ new) := by
  cases he with
  | same => exact ⟨[], by simp, by simp, by simp⟩
  | push tx hnew hc =>
    refine ⟨[tx], by simp, fun tx' htx' => ?_, ?_⟩
    · rw [mem_singleton.mp htx']
      exact ⟨hc, hnew⟩
    · rw [live_push, nil_append]
  | drop hash _ => exact ⟨[], by simp, by simp, by simpa using live_drop_sublist hash⟩
  | reap _ _ _ hlive _ => exact ⟨[], by simp, by simp, by simp [hlive]⟩

/-- A hash that is not live becomes live only by a push of it, and if the index has it not. -/
theorem Effect.live_of_push (htx : tx ∈ rl'.live) :
    tx ∈ rl.live ∨ pushes enc c = some tx.hash ∧ tx.hash ∉ rl.txIndex := by
  cases he with
  | same => exact .inl htx
  | push new hnew hc =>
    rw [live_push, mem_append, mem_singleton] at htx
    exact Or.imp_right (fun heq : tx = new => heq ▸ ⟨hc, hnew⟩) htx
  | drop hash _ => exact .inl ((live_drop_sublist hash).subset htx)
  | reap _ _ _ hlive _ => exact .inl (hlive ▸ mem_append_right _ htx)

/-- A hash leaves the index only by a drop of it. -/
theorem Effect.known_of_drop (hmem : hash ∈ rl.txIndex) :
    hash ∈ rl'.txIndex ∨ drops enc c = some hash := by
  cases he with
  | same => exact .inl hmem
  | push tx _ _ => exact .inl (by simp [ReapList.push, hmem])
  | drop hash' hc =>
    by_cases heq : hash' = hash
    · exact .inr (heq ▸ hc)
    · refine .inl ?_
      unfold ReapList.drop
      split
      · exact hmem
      · simp [heq, hmem]
  | reap _ _ _ _ hindex => exact .inl ((hindex hash).mpr hmem)

end

variable (enc) {calls : List (Call E C)}

/-- Runs do not panic. -/
theorem run_wellIndexed (h : WellIndexed rl) (calls : List (Call E C)) :
    ∃ rl', run enc rl calls = some rl' ∧ WellIndexed rl' := by
  induction calls generalizing rl with
  | nil => exact ⟨rl, rfl, h⟩
  | cons c rest ih =>
    obtain ⟨rl₁, result, hstep, heffect⟩ := step_effect enc h c
    obtain ⟨rl', hrun, hwell⟩ := ih (heffect.wellIndexed h)
    exact ⟨rl', by simpa [run, hstep] using hrun, hwell⟩

theorem run_cons {rl' : ReapList} (h : WellIndexed rl) {rest : List (Call E C)}
    (hrun : run enc rl (c :: rest) = some rl') :
    ∃ rl₁ result, Effect enc rl c rl₁ result ∧ WellIndexed rl₁ ∧ run enc rl₁ rest = some rl' := by
  obtain ⟨rl₁, result, hstep, heffect⟩ := step_effect enc h c
  refine ⟨rl₁, result, heffect, heffect.wellIndexed h, ?_⟩
  simpa [run, hstep] using hrun

/-- What becomes live in a run was pushed in it. -/
theorem exists_push (h : WellIndexed rl) (hrun : run enc rl calls = some rl')
    (hold : ∀ tx ∈ rl.live, tx.hash ≠ hash) (htx : tx ∈ rl'.live) (heq : tx.hash = hash) :
    ∃ a p b, calls = a ++ p :: b ∧ pushes enc p = some hash := by
  induction calls generalizing rl with
  | nil =>
    cases hrun
    exact absurd heq (hold tx htx)
  | cons c rest ih =>
    by_cases hc : pushes enc c = some hash
    · exact ⟨[], c, rest, rfl, hc⟩
    · obtain ⟨rl₁, result, heffect, hwell, hrest⟩ := run_cons enc h hrun
      obtain ⟨a, p, b, rfl, hp⟩ := ih hwell hrest fun tx htx => by
        obtain htx | ⟨hpush, -⟩ := heffect.live_of_push htx
        · exact hold tx htx
        · exact fun heq => hc (heq ▸ hpush)
      exact ⟨c :: a, p, b, rfl, hp⟩

/-- What the index knows and is not live becomes live again only by a drop and a later push. -/
theorem exists_drop_push (h : WellIndexed rl) (hrun : run enc rl calls = some rl')
    (hknown : hash ∈ rl.txIndex) (hold : ∀ tx ∈ rl.live, tx.hash ≠ hash) (htx : tx ∈ rl'.live)
    (heq : tx.hash = hash) :
    ∃ a d b p c, calls = a ++ d :: (b ++ p :: c) ∧
      drops enc d = some hash ∧ pushes enc p = some hash := by
  induction calls generalizing rl with
  | nil =>
    cases hrun
    exact absurd heq (hold tx htx)
  | cons c rest ih =>
    obtain ⟨rl₁, result, heffect, hwell, hrest⟩ := run_cons enc h hrun
    have hkeeps : ∀ tx ∈ rl₁.live, tx.hash ≠ hash := by
      intro tx htx heq
      obtain htx | ⟨-, hnew⟩ := heffect.live_of_push htx
      · exact hold tx htx heq
      · exact hnew (heq ▸ hknown)
    obtain hknown | hdrop := heffect.known_of_drop hknown
    · obtain ⟨a, d, b, p, e, rfl, hd, hp⟩ := ih hwell hrest hknown hkeeps
      exact ⟨c :: a, d, b, p, e, rfl, hd, hp⟩
    · obtain ⟨b, p, e, rfl, hp⟩ := exists_push enc hwell hrest hkeeps htx heq
      exact ⟨[], c, b, p, e, rfl, hdrop, hp⟩

/-- Calls never panic and the index follows the live entries, which are distinct and keep their
order. A reaped transaction is not reaped again before it was dropped and pushed. -/
theorem reapList_integrity (calls : List (Call E C)) :
    ∃ rl, run enc new calls = some rl ∧ WellIndexed rl ∧ (rl.live.map (·.hash)).Nodup ∧
      (∀ c, ∃ rl' result new, rl.step enc c = some (rl', result) ∧ new.length ≤ 1 ∧
        (∀ tx ∈ new, pushes enc c = some tx.hash ∧ tx.hash ∉ rl.txIndex) ∧
        (result ++ rl'.live).Sublist (rl.live ++ new)) ∧
      ∀ maxBytes maxGas rl₁ first, rl.reap maxBytes maxGas = some (rl₁, first) →
        ∀ (later : List (Call E C)) rl₂, run enc rl₁ later = some rl₂ →
          ∀ maxBytes' maxGas' rl₃ second, rl₂.reap maxBytes' maxGas' = some (rl₃, second) →
            ∀ tx ∈ first, ∀ tx' ∈ second, tx'.hash = tx.hash →
              ∃ a d b p c, later = a ++ d :: (b ++ p :: c) ∧
                drops enc d = some tx.hash ∧ pushes enc p = some tx.hash := by
  obtain ⟨rl, hrun, hwell⟩ := run_wellIndexed enc new_wellIndexed calls
  refine ⟨rl, hrun, hwell, hwell.nodup, fun c => ?_, ?_⟩
  · obtain ⟨rl', result, hstep, heffect⟩ := step_effect enc hwell c
    obtain ⟨new, hone, hnew, hsub⟩ := heffect.ordered
    exact ⟨rl', result, new, hstep, hone, hnew, hsub⟩
  · intro maxBytes maxGas rl₁ first hreap later rl₂ hlater maxBytes' maxGas' rl₃ second hreap'
      tx htx tx' htx' heq
    obtain ⟨_, _, hreap₁, hwell₁, hlive, hindex⟩ := reap_eq hwell maxBytes maxGas
    obtain ⟨rfl, rfl⟩ := Prod.mk.inj (some.inj (hreap₁.symm.trans hreap))
    obtain ⟨rl₂', hlater', hwell₂⟩ := run_wellIndexed enc hwell₁ later
    obtain rfl := some.inj (hlater'.symm.trans hlater)
    obtain ⟨_, _, hreap₂, -, hlive₂, -⟩ := reap_eq hwell₂ maxBytes' maxGas'
    obtain ⟨rfl, rfl⟩ := Prod.mk.inj (some.inj (hreap₂.symm.trans hreap'))
    have hnodup := hwell.nodup
    rw [hlive, map_append] at hnodup
    refine exists_drop_push enc hwell₁ hlater ?_ ?_ (hlive₂ ▸ mem_append_left _ htx') heq
    · exact (hindex _).mpr (hwell.mem_index (hlive ▸ mem_append_left _ htx))
    · exact fun other hother heq => disjoint_of_nodup_append hnodup
        (mem_map_of_mem htx) (heq ▸ mem_map_of_mem hother)

end Runs

/-! ## Limits -/

section Limits

variable (maxBytes maxGas : BitVec 64)

/-- A total size and a total gas that are within the limits. -/
def Within (size gas : Nat) : Prop :=
  (maxBytes = 0 ∨ size ≤ maxBytes.toNat) ∧ (maxGas = 0 ∨ gas ≤ maxGas.toNat)

/-- One of the totals is seen to be over its limit, in 64 bits. -/
def SeenOver (size gas : Nat) : Prop :=
  (maxBytes ≠ 0 ∧ maxBytes.toNat < size % 2 ^ 64) ∨ (maxGas ≠ 0 ∧ maxGas.toNat < gas % 2 ^ 64)

def sizes (txs : List TxWithHash) : Nat := (txs.map (·.bytes.length)).sum

def gases (txs : List TxWithHash) : Nat := (txs.map (·.gas.toNat)).sum

/-- The longest beginning of a list with totals within the limits, after some totals. -/
def Longest (size gas : Nat) (result txs : List TxWithHash) : Prop :=
  result <+: txs ∧ Within maxBytes maxGas (size + sizes result) (gas + gases result) ∧
    ∀ other, other <+: txs → Within maxBytes maxGas (size + sizes other) (gas + gases other) →
      other.length ≤ result.length

/-- The first entry that takes a total over its limit is seen to do so, after some totals. -/
def Noticed (size gas : Nat) (txs : List TxWithHash) : Prop :=
  ∀ first tx, first ++ [tx] <+: txs →
    Within maxBytes maxGas (size + sizes first) (gas + gases first) →
    ¬Within maxBytes maxGas (size + sizes (first ++ [tx])) (gas + gases (first ++ [tx])) →
      SeenOver maxBytes maxGas (size + sizes (first ++ [tx])) (gas + gases (first ++ [tx]))

variable {maxBytes maxGas} {size gas : Nat} {tx : TxWithHash} {txs result : List TxWithHash}

theorem exceeds_iff : exceeds maxBytes maxGas (BitVec.ofNat 64 size) (BitVec.ofNat 64 gas) tx ↔
    SeenOver maxBytes maxGas (size + tx.bytes.length) (gas + tx.gas.toNat) := by
  have hpos : ∀ b : BitVec 64, 0 < b.toNat ↔ ¬b = 0#64 := fun b => by
    rw [← BitVec.toNat_inj]
    exact Nat.pos_iff_ne_zero
  simp [exceeds, SeenOver, hpos, BitVec.lt_def]

theorem Within.of_le {size' gas' : Nat} (h : Within maxBytes maxGas size' gas')
    (hsize : size ≤ size') (hgas : gas ≤ gas') : Within maxBytes maxGas size gas :=
  ⟨h.1.imp_right hsize.trans, h.2.imp_right hgas.trans⟩

theorem SeenOver.not_within (h : SeenOver maxBytes maxGas size gas) :
    ¬Within maxBytes maxGas size gas := by
  rintro ⟨hsize, hgas⟩
  obtain ⟨hne, hover⟩ | ⟨hne, hover⟩ := h
  · have := hsize.resolve_left hne
    omega
  · have := hgas.resolve_left hne
    omega

@[simp] theorem sizes_cons : sizes (tx :: txs) = tx.bytes.length + sizes txs := by simp [sizes]

@[simp] theorem gases_cons : gases (tx :: txs) = tx.gas.toNat + gases txs := by simp [gases]

theorem longest_cons : Longest maxBytes maxGas size gas (tx :: result) (tx :: txs) ↔
    Longest maxBytes maxGas (size + tx.bytes.length) (gas + tx.gas.toNat) result txs := by
  simp only [Longest, prefix_cons_inj, sizes_cons, gases_cons, ← Nat.add_assoc]
  refine and_congr_right fun _ => and_congr_right fun _ => ?_
  constructor
  · intro h other hother hwithin
    have := h (tx :: other) (by simpa using hother) (by simpa [← Nat.add_assoc] using hwithin)
    simpa using this
  · intro h other hother hwithin
    cases other with
    | nil => simp
    | cons x other =>
      obtain ⟨rfl, hrest⟩ := cons_prefix_cons.mp hother
      have := h other hrest (by simpa [← Nat.add_assoc] using hwithin)
      simpa using this

theorem noticed_cons
    (hwithin : Within maxBytes maxGas (size + tx.bytes.length) (gas + tx.gas.toNat)) :
    Noticed maxBytes maxGas size gas (tx :: txs) ↔
      Noticed maxBytes maxGas (size + tx.bytes.length) (gas + tx.gas.toNat) txs := by
  constructor
  · intro h first last hprefix
    have := h (tx :: first) last (by simpa using hprefix)
    simpa [← Nat.add_assoc] using this
  · intro h first last hprefix
    cases first with
    | nil =>
      obtain ⟨rfl, -⟩ := cons_prefix_cons.mp hprefix
      exact fun _ hnot => absurd (by simpa [sizes, gases] using hwithin) hnot
    | cons x first =>
      obtain ⟨rfl, hrest⟩ := cons_prefix_cons.mp hprefix
      have := h first last hrest
      simpa [← Nat.add_assoc] using this

/-- An entry that is over a limit ends what is within the limits. -/
theorem longest_nil (hwithin : Within maxBytes maxGas size gas)
    (hover : ¬Within maxBytes maxGas (size + tx.bytes.length) (gas + tx.gas.toNat)) :
    Longest maxBytes maxGas size gas [] (tx :: txs) := by
  refine ⟨List.nil_prefix, by simpa [sizes, gases] using hwithin, fun other hother hother' => ?_⟩
  cases other with
  | nil => exact le_rfl
  | cons x other =>
    obtain ⟨rfl, -⟩ := cons_prefix_cons.mp hother
    simp only [sizes_cons, gases_cons] at hother'
    exact absurd (hother'.of_le (by omega) (by omega)) hover

theorem noticed_of_seenOver
    (hseen : SeenOver maxBytes maxGas (size + tx.bytes.length) (gas + tx.gas.toNat)) :
    Noticed maxBytes maxGas size gas (tx :: txs) := by
  intro first last hprefix hwithin _
  cases first with
  | nil =>
    obtain ⟨rfl, -⟩ := cons_prefix_cons.mp hprefix
    simpa [sizes, gases] using hseen
  | cons x first =>
    obtain ⟨rfl, -⟩ := cons_prefix_cons.mp hprefix
    simp only [sizes_cons, gases_cons] at hwithin
    exact absurd (hwithin.of_le (by omega) (by omega)) hseen.not_within

/-- The loop takes the longest beginning exactly if it notices where to stop. -/
theorem longest_iff {txs : List (Option TxWithHash)} {index index' : FMap String Int} {next : Nat}
    (hwithin : Within maxBytes maxGas size gas)
    (h : reapLoop maxBytes maxGas txs (BitVec.ofNat 64 size) (BitVec.ofNat 64 gas) index =
      some (result, index', next)) :
    Longest maxBytes maxGas size gas result txs.reduceOption ↔
      Noticed maxBytes maxGas size gas txs.reduceOption := by
  induction txs generalizing size gas index result next with
  | nil =>
    obtain ⟨rfl, -⟩ := Prod.mk.inj (some.inj h)
    have hlongest : Longest maxBytes maxGas size gas [] [] :=
      ⟨List.nil_prefix, by simpa [sizes, gases] using hwithin, by simp⟩
    exact iff_of_true hlongest (by simp [Noticed])
  | cons entry rest ih =>
    cases entry with
    | none =>
      obtain ⟨⟨result', index'', next'⟩, hrest, heq⟩ := map_eq_some_iff.mp h
      obtain ⟨rfl, rfl, -⟩ := heq
      exact ih hwithin hrest
    | some tx =>
      rw [reduceOption_cons_of_some]
      rw [reapLoop] at h
      split_ifs at h with hexceeds hunknown
      · obtain ⟨rfl, -⟩ := Prod.mk.inj (some.inj h)
        have hseen := exceeds_iff.mp hexceeds
        exact iff_of_true (longest_nil hwithin hseen.not_within) (noticed_of_seenOver hseen)
      · obtain ⟨⟨result', index'', next'⟩, hrest, heq⟩ := map_eq_some_iff.mp h
        obtain ⟨rfl, rfl, -⟩ := heq
        rw [longest_cons]
        by_cases hfits : Within maxBytes maxGas (size + tx.bytes.length) (gas + tx.gas.toNat)
        · rw [noticed_cons hfits]
          apply ih hfits
          simpa [BitVec.ofNat_add] using hrest
        · refine iff_of_false (fun hlongest => hfits ?_) fun hnoticed => hexceeds ?_
          · exact hlongest.2.1.of_le (by omega) (by omega)
          · rw [exceeds_iff]
            have := hnoticed [] tx (by simp) (by simpa [sizes, gases] using hwithin)
              (by simpa [sizes, gases] using hfits)
            simpa [sizes, gases] using this

/-- `Reap` returns the longest beginning of the live entries that is within the limits if and
only if the first entry that exceeds a limit does so in 64-bit arithmetic as well. -/
theorem reap_longest_iff {rl rl' : ReapList} {maxBytes maxGas : BitVec 64}
    {result : List TxWithHash} (h : rl.reap maxBytes maxGas = some (rl', result)) :
    Longest maxBytes maxGas 0 0 result rl.live ↔ Noticed maxBytes maxGas 0 0 rl.live := by
  obtain ⟨⟨result', index, next⟩, hloop, hrest⟩ := bind_eq_some_iff.mp h
  obtain ⟨index', -, heq⟩ := map_eq_some_iff.mp hrest
  obtain ⟨-, rfl⟩ := Prod.mk.inj heq
  exact longest_iff ⟨.inr (Nat.zero_le _), .inr (Nat.zero_le _)⟩ hloop

def small : TxWithHash := ⟨[1], "small", 60⟩

/-- A transaction whose gas limit takes the total past 64 bits. -/
def huge : TxWithHash := ⟨[2], "huge", -50⟩

theorem reap_wraps :
    (((new.push small).push huge).reap 0 100).map Prod.snd = some [small, huge] ∧
      gases [small, huge] = 2 ^ 64 + 10 := by
  decide +kernel

def second : TxWithHash := ⟨[3], "second", 60⟩

/-- Of two transactions with 60 gas one fits under a limit of 100. -/
theorem reap_longest_iff_second : ∃ rl',
    ((new.push small).push second).reap 0 100 = some (rl', [small]) ∧
      Longest 0 100 0 0 [small] [small, second] := by
  have hreap : (((new.push small).push second).reap 0 100).map Prod.snd = some [small] := by
    decide +kernel
  obtain ⟨⟨rl', result⟩, hreap, rfl⟩ := map_eq_some_iff.mp hreap
  refine ⟨rl', hreap, (reap_longest_iff hreap).mpr fun first tx hbeginning _ hover => ?_⟩
  generalize first ++ [tx] = txs at hbeginning hover ⊢
  have htxs : txs = [] ∨ txs = [small] ∨ txs = [small, second] := by
    have hmem : txs ∈ [small, second].inits := (mem_inits _ _).mpr hbeginning
    simpa using hmem
  unfold Within SeenOver at *
  revert hover
  rcases htxs with rfl | rfl | rfl
  · decide
  · decide
  · decide

end Limits

end ReapList

end InfiniteEvm.Mempool
