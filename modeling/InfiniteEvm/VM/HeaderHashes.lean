import InfiniteEvm.Library.Runs
import InfiniteEvm.VM.Params

/-!
# Header hashes

The last header hashes are kept in the storage of the history contract, in a ring of
`HistoryServeWindow` slots. `BLOCKHASH` reads them back. A slot tells which block wrote it
only through the window of the moment, which governance may set to any number.
-/

namespace InfiniteEvm.VM

open Library SnapshotMulti List Option Function

/-- What the functions below read of a context. -/
structure BlockContext where
  blockHeight : BitVec 64
  headerHash : Bytes
  /-- The hash of the block header, recomputed. -/
  header : Except String Bytes

/-- `HistoryStorageAddress`. -/
def historyStorageAddress : Address := 0x0000F90827F1C53a10cb7A02335B175320002935

def defaultHistoryServeWindow : BitVec 64 := 8192

/-- The window in force. -/
def historyWindow (p : Params) : BitVec 64 :=
  if 0 < p.historyServeWindow then p.historyServeWindow else defaultHistoryServeWindow

/-- The slot of a height: the last 8 bytes of the key are the ring index. -/
def ringKey (window height : BitVec 64) : Hash := (height % window).setWidth 256

section

variable {E : Type} (k : Keeper E) (cdc : ParamsCodec)

/-- The history contract is deployed. -/
def Keeper.keepsHistory (r : Contents) : Bool :=
  (k.getAccount r historyStorageAddress).isSome && k.isContract r historyStorageAddress

/-- `SetHeaderHash`, if the parameters can be read. -/
def Keeper.setHeaderHash (ctx : BlockContext) (r : Contents) : Option (List Write) :=
  (getParams cdc r).map fun p =>
    if k.keepsHistory r then
      setState historyStorageAddress (ringKey (historyWindow p) ctx.blockHeight) ctx.headerHash
    else []

/-- `GetHeaderHash`. -/
def getHeaderHash (r : Contents) (height : BitVec 64) : Option Hash :=
  (getParams cdc r).map fun p => getState r historyStorageAddress (ringKey (historyWindow p) height)

/-- `GetHashFn`. -/
def getHashFn (ctx : BlockContext) (r : Contents) (height : BitVec 64) : Option Hash :=
  if 2 ^ 63 ≤ height.toNat then some 0
  else if ctx.blockHeight = height then
    if ctx.headerHash.length ≠ 0 then some (bytesToHash ctx.headerHash)
    else
      match ctx.header with
      | .error _ => some 0
      | .ok hash => some (bytesToHash hash)
  else if height.slt ctx.blockHeight then getHeaderHash cdc r height
  else some 0

end

/-! ## Blocks and changes of the parameters -/

/-- A chain: its state and the height of the block it is in. -/
structure Chain where
  contents : Contents
  height : Nat
  isInt64 : height < 2 ^ 63

inductive ChainStep
  /-- `BeginBlock` of the next block. -/
  | beginBlock
  /-- `SetParams`, from a proposal. -/
  | updateParams (params : Params)

namespace Chain

variable {E : Type} (k : Keeper E) (cdc : ParamsCodec) (rules : ParamRules)
  (hashes : Nat → Hash)

/-- The context of block `n`. -/
def blockContext (n : Nat) : BlockContext where
  blockHeight := BitVec.ofNat 64 n
  headerHash := hashBytes (hashes n)
  header := .ok (hashBytes (hashes n))

/-- The next state. There is no block after the last height, and a panic stops the chain. -/
def step (c : Chain) : ChainStep → Option Chain
  | .beginBlock =>
    if h : c.height + 1 < 2 ^ 63 then
      (k.setHeaderHash cdc (blockContext hashes (c.height + 1)) c.contents).map fun ws =>
        { contents := overwritten c.contents ws, height := c.height + 1, isInt64 := h }
    else none
  | .updateParams p =>
    match setParams cdc rules p with
    | .error _ => some c
    | .ok ws => some { c with contents := overwritten c.contents ws }

/-- The state after a list of steps. -/
def run (c : Chain) (steps : List ChainStep) : Option Chain :=
  Runs.run (step k cdc rules hashes) c steps

/-- What `BLOCKHASH` reads at a height. -/
def blockHash (c : Chain) (h : Nat) : Option Hash :=
  getHashFn cdc (blockContext hashes c.height) c.contents (BitVec.ofNat 64 h)

/-- The slot a height has now. -/
def slot (c : Chain) (h : Nat) : Option Hash :=
  (getParams cdc c.contents).map fun p => ringKey (historyWindow p) (BitVec.ofNat 64 h)

/-- The block that a step records, with its slot. -/
def recorded (c : Chain) : ChainStep → List (Nat × Hash)
  | .beginBlock =>
    if k.keepsHistory c.contents then
      (c.slot cdc (c.height + 1)).toList.map fun slot => (c.height + 1, slot)
    else []
  | .updateParams _ => []

/-- The blocks that a run records, in order. -/
def history (c : Chain) : List ChainStep → List (Nat × Hash)
  | [] => []
  | s :: rest => recorded k cdc c s ++
      match step k cdc rules hashes c s with
      | none => []
      | some c => history c rest

/-- The block that wrote to a slot last. -/
def lastWriter (log : List (Nat × Hash)) (slot : Hash) : Option Nat :=
  (log.reverse.find? fun w => w.2 = slot).map Prod.fst

theorem lastWriter_append (log : List (Nat × Hash)) (w : Nat × Hash) (slot : Hash) :
    lastWriter (log ++ [w]) slot = if w.2 = slot then some w.1 else lastWriter log slot := by
  unfold lastWriter
  by_cases h : w.2 = slot <;> simp [h]

theorem mem_of_lastWriter {log : List (Nat × Hash)} {slot : Hash} {b : Nat}
    (h : lastWriter log slot = some b) : (b, slot) ∈ log := by
  obtain ⟨w, hw, rfl⟩ := map_eq_some_iff.mp h
  have hslot : w.2 = slot := by simpa using find?_some hw
  have hmem := mem_reverse.mp (mem_of_find?_eq_some hw)
  rw [← hslot]
  exact hmem

/-- The storage of the history contract holds the hashes of the last writers. -/
structure Mirrors (start : Nat) (c : Chain) (log : List (Nat × Hash)) : Prop where
  storage : ∀ slot, getState c.contents historyStorageAddress slot =
    ((lastWriter log slot).map hashes).getD 0
  started : ∀ w ∈ log, start < w.1
  height : start ≤ c.height

variable {k cdc rules hashes} {start : Nat} {c c' : Chain} {log : List (Nat × Hash)}

theorem getState_setState (r : Contents) (a : Address) (key value slot : Hash) :
    getState (overwritten r (setState a key (hashBytes value))) a slot =
      if key = slot then value else getState r a slot := by
  have hentries : entries (overwritten r (setState a key (hashBytes value))) =
      update (entries r) (.state a key) (some (hashBytes value)) :=
    entries_storeSet r (.state a key) (hashBytes value)
  rw [getState_eq, getState_eq, hentries]
  by_cases h : key = slot
  · rw [if_pos h, h, update_self, storedHash_hashBytes]
  · rw [if_neg h, update_of_ne]
    intro heq
    exact h (Entry.state.inj heq).2.symm

/-- What a step writes is what it records. -/
theorem step_mirrors {s : ChainStep} (hm : Mirrors hashes start c log)
    (h : step k cdc rules hashes c s = some c') :
    Mirrors hashes start c' (log ++ recorded k cdc c s) := by
  cases s with
  | beginBlock =>
    simp only [step] at h
    split at h
    · obtain ⟨ws, hws, rfl⟩ := map_eq_some_iff.mp h
      obtain ⟨p, hp, rfl⟩ := map_eq_some_iff.mp hws
      simp only [recorded, slot, hp, map_some, toList_some, map_cons, map_nil]
      have hnext : start ≤ c.height + 1 := hm.height.trans (Nat.le_succ _)
      split
      · refine ⟨fun key => ?_, ?_, hnext⟩
        · rw [lastWriter_append]
          have hread : getState (overwritten c.contents (setState historyStorageAddress
              (ringKey (historyWindow p) (BitVec.ofNat 64 (c.height + 1)))
              (hashBytes (hashes (c.height + 1))))) historyStorageAddress key = _ :=
            getState_setState c.contents historyStorageAddress _ _ key
          refine hread.trans ?_
          split
          · rfl
          · exact hm.storage key
        · intro w hw
          rcases mem_append.mp hw with hw | hw
          · exact hm.started w hw
          · rw [mem_singleton.mp hw]
            exact Nat.lt_succ_of_le hm.height
      · rw [append_nil]
        exact ⟨hm.storage, hm.started, hnext⟩
    · cases h
  | updateParams p =>
    simp only [step] at h
    rw [recorded, append_nil]
    split at h
    · cases h
      exact hm
    · rename_i ws hws
      cases h
      obtain ⟨-, bz, -, rfl⟩ := setParams_ok hws
      refine ⟨fun key => ?_, hm.started, hm.height⟩
      rw [getState_eq, entries_storeSet_params, ← getState_eq]
      exact hm.storage key

theorem run_mirrors {steps : List ChainStep} (hm : Mirrors hashes start c log)
    (h : run k cdc rules hashes c steps = some c') :
    Mirrors hashes start c' (log ++ history k cdc rules hashes c steps) := by
  induction steps generalizing c log with
  | nil =>
    cases h
    rw [history, append_nil]
    exact hm
  | cons s rest ih =>
    rw [run, Runs.run_cons, bind_eq_some_iff] at h
    obtain ⟨u, hu, hrest⟩ := h
    have hrun := ih (step_mirrors hm hu) hrest
    rw [append_assoc] at hrun
    simpa only [history, hu] using hrun

/-- For a height before that of the block, `GetHashFn` asks the history contract. -/
theorem blockHash_eq {h : Nat} (hlt : h < c.height) :
    c.blockHash cdc hashes h =
      (c.slot cdc h).map (getState c.contents historyStorageAddress) := by
  have hbound := c.isInt64
  have hh : (BitVec.ofNat 64 h).toNat = h := by
    rw [BitVec.toNat_ofNat]
    omega
  have hc : (BitVec.ofNat 64 c.height).toNat = c.height := by
    rw [BitVec.toNat_ofNat]
    omega
  have hne : BitVec.ofNat 64 c.height ≠ BitVec.ofNat 64 h := by
    intro heq
    have hnat := congrArg BitVec.toNat heq
    omega
  have hslt : (BitVec.ofNat 64 h).slt (BitVec.ofNat 64 c.height) = true := by
    rw [BitVec.slt_eq_decide, decide_eq_true_eq, BitVec.toInt_eq_toNat_of_lt (by omega),
      BitVec.toInt_eq_toNat_of_lt (by omega)]
    omega
  unfold blockHash getHashFn blockContext getHeaderHash slot
  rw [if_neg (by omega), if_neg hne, if_pos hslt, Option.map_map]
  rfl

section

variable {steps : List ChainStep}
  (hempty : ∀ slot, getState c.contents historyStorageAddress slot = 0)
  (hrun : run k cdc rules hashes c steps = some c')
include hempty hrun

/-- `BLOCKHASH` reads the hash of the block that was recorded last in the slot. -/
theorem run_blockHash {h : Nat} (hlt : h < c'.height) :
    c'.blockHash cdc hashes h = (c'.slot cdc h).map fun slot =>
      ((lastWriter (history k cdc rules hashes c steps) slot).map hashes).getD 0 := by
  have hstart : Mirrors hashes c.height c [] := ⟨hempty, nofun, Nat.le_refl _⟩
  have hm := run_mirrors hstart hrun
  rw [blockHash_eq hlt]
  apply congrArg (fun f => (c'.slot cdc h).map f)
  funext slot
  exact hm.storage slot

theorem lastWriter_started {slot : Hash} {b : Nat}
    (hb : lastWriter (history k cdc rules hashes c steps) slot = some b) : c.height < b := by
  have hstart : Mirrors hashes c.height c [] := ⟨hempty, nofun, Nat.le_refl _⟩
  have hm := run_mirrors hstart hrun
  exact hm.started _ (mem_of_lastWriter hb)

end

/-- `BLOCKHASH` is right about the last 256 blocks exactly if the last block recorded in the
slot of each is that block, or has a hash that cannot be told from its hash or from zero. -/
theorem blockHash_iff (k : Keeper E) (cdc : ParamsCodec) (rules : ParamRules)
    (hashes : Nat → Hash) (c : Chain)
    (hempty : ∀ slot, getState c.contents historyStorageAddress slot = 0)
    (steps : List ChainStep) (c' : Chain) (hrun : run k cdc rules hashes c steps = some c') :
    (∀ h v, c'.height ≤ h + 256 → h < c'.height → c'.blockHash cdc hashes h = some v →
      v = 0 ∨ c.height < h ∧ v = hashes h) ↔
    (∀ h slot b, c'.height ≤ h + 256 → h < c'.height → c'.slot cdc h = some slot →
      lastWriter (history k cdc rules hashes c steps) slot = some b →
      b = h ∨ hashes b = 0 ∨ c.height < h ∧ hashes b = hashes h) := by
  constructor
  · intro hright h slot b hnear hlt hslot hb
    have hread : c'.blockHash cdc hashes h = some (hashes b) := by
      rw [run_blockHash hempty hrun hlt, hslot, map_some, hb]
      rfl
    exact Or.inr (hright h _ hnear hlt hread)
  · intro hlast h v hnear hlt hread
    rw [run_blockHash hempty hrun hlt] at hread
    obtain ⟨slot, hslot, rfl⟩ := map_eq_some_iff.mp hread
    cases hb : lastWriter (history k cdc rules hashes c steps) slot with
    | none => exact Or.inl rfl
    | some b =>
      rcases hlast h slot b hnear hlt hslot hb with rfl | hsame
      · exact Or.inr ⟨lastWriter_started hempty hrun hb, rfl⟩
      · exact hsame

/-- An encoding of parameters where all but the window is unset. -/
def windowCodec : ParamsCodec where
  marshal p :=
    if p = { Params.zero with historyServeWindow := p.historyServeWindow } then
      .ok (hashBytes (p.historyServeWindow.setWidth 256))
    else .error "unknown parameters"
  mustUnmarshal bz :=
    some { Params.zero with historyServeWindow := (bytesToHash bz).setWidth 64 }
  roundTrip p bz h := by
    split at h
    · rename_i heq
      obtain rfl := Except.ok.inj h
      rw [bytesToHash_hashBytes, BitVec.setWidth_setWidth_of_le _ (by decide), BitVec.setWidth_eq,
        ← heq]
    · cases h

/-- Rules that no value breaks. -/
def laxRules : ParamRules where
  validEip _ := true
  activateableEips := ""
  isHexAddress _ := true
  channelIdentifierValidator _ := none

/-- Before the first block, with the history contract deployed. -/
def genesis : Chain where
  contents := overwritten (fun _ _ => none)
    (plainAuth.setAccount (newBaseAccount (addressBytes historyStorageAddress) [] 0 0) ++
      setCodeHash historyStorageAddress 5 ++ setCode 5 [1])
  height := 0
  isInt64 := by decide

/-- The window is set to one slot before the first block. -/
def oneSlot : List ChainStep :=
  [.updateParams { Params.zero with historyServeWindow := 1 }, .beginBlock, .beginBlock]

def eightSlots : List ChainStep :=
  [.updateParams { Params.zero with historyServeWindow := 8 }, .beginBlock, .beginBlock]

/-- In block 2, the hash of block 1 is that of block 2. -/
theorem blockHash_wrong :
    (run smallKeeper windowCodec laxRules (BitVec.ofNat 256) genesis oneSlot).map
      (fun c => (c.height, c.blockHash windowCodec (BitVec.ofNat 256) 1)) = some (2, some 2) := by
  decide +kernel

theorem genesis_empty (slot : Hash) : getState genesis.contents historyStorageAddress slot = 0 := by
  rfl

/-! ## A window that stays -/

/-- With a window of eight slots, the hash of block 1 is still there in block 2. -/
theorem blockHash_iff_eightSlots : ∃ c',
    run smallKeeper windowCodec laxRules (BitVec.ofNat 256) genesis eightSlots = some c' ∧
      c'.blockHash windowCodec (BitVec.ofNat 256) 1 = some 1 ∧
      ∀ h v, c'.height ≤ h + 256 → h < c'.height →
        c'.blockHash windowCodec (BitVec.ofNat 256) h = some v →
        v = 0 ∨ 0 < h ∧ v = BitVec.ofNat 256 h := by
  have hvalues : (run smallKeeper windowCodec laxRules (BitVec.ofNat 256) genesis
      eightSlots).map (fun c => (c.height, c.blockHash windowCodec (BitVec.ofNat 256) 1,
        [0, 1].map fun h => (c.slot windowCodec h).bind (lastWriter (history smallKeeper
          windowCodec laxRules (BitVec.ofNat 256) genesis eightSlots)))) =
      some (2, some 1, [none, some 1]) := by decide +kernel
  obtain ⟨c', hrun, hmap⟩ := map_eq_some_iff.mp hvalues
  simp only [Prod.mk.injEq, map_cons, map_nil, cons.injEq] at hmap
  obtain ⟨hheight, hone, hzero, hlast, -⟩ := hmap
  refine ⟨c', hrun, hone, (blockHash_iff smallKeeper windowCodec laxRules
    (BitVec.ofNat 256) genesis genesis_empty eightSlots c' hrun).mpr ?_⟩
  intro h slot b _ hlt hslot hb
  rw [hheight] at hlt
  obtain rfl | rfl : h = 0 ∨ h = 1 := by omega
  · rw [hslot, bind_some, hb] at hzero
    cases hzero
  · rw [hslot, bind_some, hb] at hlast
    exact .inl (some.inj hlast)

end Chain

end InfiniteEvm.VM
