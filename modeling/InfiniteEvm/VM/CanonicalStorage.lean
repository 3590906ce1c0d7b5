import InfiniteEvm.Precompiles.Balances
import InfiniteEvm.VM.Storage

/-!
# Canonical storage over transactions

Storage in which exactly the slots that are not zero have an entry stays so over a
transaction if no flush and no commit of it writes a dirty slot that is zero.
-/

namespace InfiniteEvm.VM

open Std Library SnapshotMulti StateDB Config Keeper

variable {k : Keeper Event} {codec : BankCodec} {ctx : Context Bytes Value Event}

/-- No dirty object that stays has a dirty slot that is zero. -/
def NoZeroSlots (s : StateDB Bytes Value Event) : Prop :=
  ∀ a ∈ s.journal.dirties.keys, ∀ obj : StateObject, s.stateObjects[a]? = some obj → NoZeroSlot obj

/-- The storage that native code and commits find is canonical. -/
structure Stored (k : Keeper Event) (s : StateDB Bytes Value Event) : Prop where
  keyed : Keyed (s.observe k.env).contents
  canonical : Canonical (s.observe k.env).contents

theorem Stored.congr {s t : StateDB Bytes Value Event} (h : Stored k s)
    (hcontents : (t.observe k.env).contents = (s.observe k.env).contents) : Stored k t where
  keyed := hcontents ▸ h.keyed
  canonical := hcontents ▸ h.canonical

theorem Stored.getCacheContext {s : StateDB Bytes Value Event} (h : Stored k s) :
    Stored k s.getCacheContext :=
  h.congr contents_getCacheContext

section Steps

variable (ha : k.accountKeeper.Lawful) (hb : BankWrites k.bankWrapper.bk)
include ha hb

variable {s t : StateDB Bytes Value Event}

/-- A flush without zero slots keeps the storage canonical. -/
theorem Stored.flush (hs : Valid k.env s) (h : Stored k s) (hslots : NoZeroSlots s)
    (hflush : s.flushToCacheCtx k.env = .ok (none, t)) : Stored k t := by
  obtain ⟨c, c', hc, rfl, hwritten⟩ := flush_written hs hflush
  obtain ⟨hkeyed, hcanonical⟩ := h
  rw [contents_of_cache hc] at hkeyed hcanonical
  constructor
  · exact (onEntries_written ha hb hwritten).keyed hkeyed
  · exact (written_canonical_iff ha hb hwritten hs.tidy.address (FMap.keys_nodup _)
      hcanonical).mpr hslots

theorem Stored.beginNative (hs : Valid k.env s) (h : Stored k s) (hslots : NoZeroSlots s)
    (hbegin : s.beginNative k.env = .ok (none, t)) : Stored k t := by
  obtain ⟨u, hcalled, hcontents, -, hobjects, hdirties, hflush⟩ := beginNative_flushed hs hbegin
  have hsame : s.getCacheContext.stateObjects = s.stateObjects ∧
      s.getCacheContext.journal.dirties = s.journal.dirties := by
    unfold StateDB.getCacheContext
    split <;> exact ⟨rfl, rfl⟩
  refine (h.getCacheContext.congr hcontents).flush ha hb hcalled.inside.valid ?_ hflush
  unfold NoZeroSlots
  rw [hobjects, hdirties, hsame.1, hsame.2]
  exact hslots

omit ha hb in
/-- Native code that leaves the store of the module alone. -/
theorem Stored.native (hs : Valid k.env s) (h : Stored k s) {e : Effects Bytes Value Event}
    (hother : ∀ w ∈ e.writes, w.1 ≠ storeKey) (hnative : s.native e = .ok t) : Stored k t := by
  obtain ⟨c, c', hc, hk, rfl⟩ := native_cases hnative
  obtain ⟨-, hreads, -⟩ := CacheContext.apply_above (hs.good.cache c hc) hk
  obtain ⟨hkeyed, hcanonical⟩ := h
  have hsame : c'.reads storeKey = c.reads storeKey := by
    rw [hreads]
    exact overwritten_of_other hother c.reads
  have hget : storeGet c'.reads = storeGet c.reads := by
    funext key
    rw [storeGet, storeGet, hsame]
  rw [contents_of_cache hc] at hkeyed hcanonical
  constructor
  · rw [contents_of_cache rfl]
    intro addr key hunder hstored
    rw [hget] at hstored
    exact hkeyed addr key hunder hstored
  · rw [contents_of_cache rfl]
    intro addr slot
    rw [getState, hget]
    exact hcanonical addr slot

end Steps

/-! ## Runs -/

/-- Flushes write no zero slot, and native code leaves the store of the module alone. -/
def KeepsSlots (cfg : Config Bytes Value) : Action Bytes Value → Prop
  | .call _ => NoZeroSlots cfg.db
  | .applied true => NoZeroSlots cfg.db
  | .native e => ∀ w ∈ e.writes, w.1 ≠ storeKey
  | _ => True

/-- The configurations of runs of a transaction whose flushes write no zero slot. -/
inductive Executes (k : Keeper Event) (codec : BankCodec) (ctx : Context Bytes Value Event)
    (txIndex : Nat) : Config Bytes Value → Prop
  | init : Executes k codec ctx txIndex (.init ctx txIndex)
  | step {cfg cfg' : Config Bytes Value} {action : Action Bytes Value} :
      Executes k codec ctx txIndex cfg → KeepsSlots cfg action →
      cfg.step k.env codec action = .ok cfg' → Executes k codec ctx txIndex cfg'

/-- The contexts after transactions of which no flush and no commit writes a zero slot. -/
inductive Committed (k : Keeper Event) (codec : BankCodec) (ctx₀ : Context Bytes Value Event) :
    Context Bytes Value Event → Prop
  | none : Committed k codec ctx₀ ctx₀
  | transaction {ctx : Context Bytes Value Event} {txIndex : Nat} {cfg : Config Bytes Value}
      {u : StateDB Bytes Value Event} : Committed k codec ctx₀ ctx →
      Executes k codec ctx txIndex cfg → NoZeroSlots cfg.db →
      cfg.db.commit k.env = .ok (.none, u) → Committed k codec ctx₀ u.ctx

section Runs

variable (ha : k.accountKeeper.Lawful) (hb : BankWrites k.bankWrapper.bk) {cfg : Config Bytes Value}
include ha hb

theorem executes_stored {txIndex : Nat} (hkeyed : Keyed ctx.reads)
    (hcanonical : Canonical ctx.reads) (h : Executes k codec ctx txIndex cfg) :
    cfg.Open k.env ctx.events.length ∧ cfg.Holds (Stored k) := by
  induction h with
  | init =>
    refine ⟨init_open ctx txIndex, ⟨?_, ?_⟩, fun _ hmem => nomatch hmem⟩
    · exact hkeyed
    · exact hcanonical
  | @step cfg cfg' action _ hkeeps hstep ih =>
    obtain ⟨hopen, hstored⟩ := ih
    have hvalid : Valid k.env cfg.db := Framed.valid hopen
    refine ⟨(step_safe codec hopen action).of_ok hstep, ?_⟩
    refine step_holds (fun s t hobs hs => hs.congr (congrArg _ hobs))
      (fun s hs => hs.getCacheContext) ?_ ?_ ?_ ?_ ?_ hopen hstored hstep
    · rintro o plain t rfl - hf
      exact hstored.db.congr (contents_congr hf.cache.1 hf.ctx_eq)
    · rintro handled t rfl hres
      exact hstored.db.beginNative ha hb hvalid hkeeps hres
    · rintro e t rfl hres
      exact hstored.db.native hvalid hkeeps hres
    · rintro t rfl hres
      exact hstored.db.flush ha hb hvalid hkeeps hres
    · intro prev t hres hf
      exact hstored.db.congr (contents_congr hf.cache.1 hf.ctx_eq)

/-- A commit leaves the storage canonical exactly if it writes no zero slot. -/
theorem commit_canonical_iff {txIndex : Nat} {u : StateDB Bytes Value Event}
    (hkeyed : Keyed ctx.reads) (hcanonical : Canonical ctx.reads)
    (h : Executes k codec ctx txIndex cfg) (hcommit : cfg.db.commit k.env = .ok (none, u)) :
    Keyed u.ctx.reads ∧ (Canonical u.ctx.reads ↔ NoZeroSlots cfg.db) := by
  obtain ⟨hopen, hstored⟩ := executes_stored ha hb hkeyed hcanonical h
  have hvalid : Valid k.env cfg.db := Framed.valid hopen
  have hwritten := commit_written hvalid hcommit
  exact ⟨(onEntries_written ha hb hwritten).keyed hstored.db.keyed,
    written_canonical_iff ha hb hwritten hvalid.tidy.address (FMap.keys_nodup _)
      hstored.db.canonical⟩

theorem committed_canonical {ctx₀ : Context Bytes Value Event} (hkeyed : Keyed ctx₀.reads)
    (hcanonical : Canonical ctx₀.reads) (h : Committed k codec ctx₀ ctx) :
    Keyed ctx.reads ∧ Canonical ctx.reads := by
  induction h with
  | none => exact ⟨hkeyed, hcanonical⟩
  | transaction _ hrun hslots hcommit ih =>
    obtain ⟨hkeyed', hiff⟩ := commit_canonical_iff ha hb ih.1 ih.2 hrun hcommit
    exact ⟨hkeyed', hiff.mpr hslots⟩

end Runs

/-- After transactions of which no flush and no commit writes a zero slot, exactly the slots
that are not zero have an entry. `ForEachStorage` then visits these slots, each once, and
the storage of an account is reported as empty exactly if all its slots are zero. A
transaction after that keeps this exactly if its commit writes no zero slot. -/
theorem storage_canonical_iff (k : Keeper Event) (ha : k.accountKeeper.Lawful)
    (hb : BankWrites k.bankWrapper.bk) (hk : k.Iterates) {T : Type} (trie : StackTrie T)
    (htrie : trie.Lawful) (codec : BankCodec) (ctx₀ ctx : Context Bytes Value Event)
    (hkeyed : Keyed ctx₀.reads) (hcanonical : Canonical ctx₀.reads)
    (h : Committed k codec ctx₀ ctx) :
    Canonical ctx.reads ∧
    (∀ addr, (∀ slot value, (slot, value) ∈ k.slots ctx.reads addr ↔
        value = getState ctx.reads addr slot ∧ value ≠ 0) ∧
      ((k.slots ctx.reads addr).map Prod.fst).Nodup ∧
      (k.isStorageEmpty ctx.reads addr = true ↔ ∀ slot, getState ctx.reads addr slot = 0) ∧
      (k.getStorageRoot trie ctx.reads addr = trie.hash trie.new ↔
        ∀ slot, getState ctx.reads addr slot = 0)) ∧
    ∀ txIndex cfg u, Executes k codec ctx txIndex cfg → cfg.db.commit k.env = .ok (none, u) →
      (Canonical u.ctx.reads ↔ NoZeroSlots cfg.db) := by
  obtain ⟨hkeyed, hcanonical⟩ := committed_canonical ha hb hkeyed hcanonical h
  have hlisted := listed_reads ctx
  refine ⟨hcanonical, fun addr => ⟨?_, ?_, ?_, ?_⟩, ?_⟩
  · exact mem_slots_of_canonical hk hlisted hkeyed hcanonical addr
  · exact nodup_slots hk hlisted hkeyed addr
  · rw [k.isStorageEmpty_iff]
    exact slots_eq_nil_iff hk hlisted hkeyed hcanonical addr
  · rw [k.getStorageRoot_iff htrie]
    exact slots_eq_nil_iff hk hlisted hkeyed hcanonical addr
  · intro txIndex cfg u hrun hcommit
    exact (commit_canonical_iff ha hb hkeyed hcanonical hrun hcommit).2

theorem smallContext_canonical :
    Keyed smallContext.reads ∧ Canonical smallContext.reads := by
  have hget : ∀ key, storeGet smallContext.reads key = none := by
    intro key
    rw [storeGet, smallContext_store]
  constructor
  · intro addr key _ hstored
    exact absurd (hget key) hstored
  · intro addr slot
    exact iff_of_false (fun hne => hne rfl) (fun hne => hne rfl)

/-- A transaction sets a slot of account 7 to 1 and back to 0. The commit leaves 32 zero
bytes, and the storage is not reported as empty, though the slot reads zero. -/
theorem zero_slot_written :
    Canonical smallContext.reads ∧
    ((init smallContext 0).run smallKeeper.env smallCodec
      [.op (.setState 7 0 1) trivial, .op (.setState 7 0 0) trivial]).bind (fun cfg =>
        (cfg.db.commit smallKeeper.env).toOption.map fun p =>
          (p.1, storeGet p.2.ctx.reads (stateKey 7 0), getState p.2.ctx.reads 7 0,
            smallKeeper.isStorageEmpty p.2.ctx.reads 7)) =
      some (none, some (hashBytes 0), 0, false) :=
  ⟨smallContext_canonical.2, by decide +kernel⟩

open Classical in
/-- The small keeper with an iterator that lists all keys. -/
noncomputable def listingKeeper : Keeper Event :=
  { smallKeeper with
    iterator := fun r keyPrefix =>
      if h : Listed r then h.toFinset.toList.filter fun key => keyPrefix <+: key else [] }

theorem listingKeeper_iterates : listingKeeper.Iterates where
  mem_iff r h keyPrefix key := by
    simp only [listingKeeper, h, dif_pos, List.mem_filter, Finset.mem_toList, decide_eq_true_eq]
    rw [and_comm]
    exact and_congr_right fun _ => Set.Finite.mem_toFinset h
  nodup r h keyPrefix := by
    simp only [listingKeeper, h, dif_pos]
    exact (Finset.nodup_toList _).filter _

/-- A trie that only knows whether it is empty. -/
def flagTrie : StackTrie Bool where
  new := false
  update _ _ _ := .ok true
  hash t := if t then 1 else 0

theorem flagTrie_lawful : flagTrie.Lawful where
  first _ _ _ := ⟨true, rfl⟩
  filled t key value t' h := by
    cases h
    decide

theorem storage_canonical_iff_one_slot :
    ∃ (cfg : Config Bytes Value) (u : StateDB Bytes Value Event),
      (init smallContext 0).run listingKeeper.env smallCodec
        [.op (.setState 7 0 1) trivial] = some cfg ∧
      cfg.db.commit listingKeeper.env = .ok (none, u) ∧
      (0, 1) ∈ listingKeeper.slots u.ctx.reads 7 ∧
      listingKeeper.isStorageEmpty u.ctx.reads 7 = false := by
  have hresult : ((init smallContext 0).run listingKeeper.env smallCodec
      [.op (.setState 7 0 1) trivial]).bind (fun cfg =>
        (cfg.db.commit listingKeeper.env).toOption.map fun p =>
          (p.1, (getState p.2.ctx.reads 7 0, cfg.db.journal.dirties.keys),
            (cfg.db.stateObjects[(7 : Address)]?).map (·.dirtyStorage.toList))) =
      some (none, (1, [7]), some [(0, 1)]) := by
    decide +kernel
  obtain ⟨cfg, u, hcfg, hcommit, hresult⟩ := Outcomes.of_bind_map hresult
  obtain ⟨hpair, hstorage⟩ := Prod.mk.inj hresult
  obtain ⟨hread, hkeys⟩ := Prod.mk.inj hpair
  obtain ⟨cfg', hstep, hrest⟩ := run_cons_eq_some hcfg
  obtain rfl : cfg' = cfg := Option.some.inj hrest
  have hslots : NoZeroSlots cfg'.db := by
    intro a ha obj hobj _ slot value hslot
    rw [hkeys, List.mem_singleton] at ha
    subst ha
    rw [hobj, Option.map_some] at hstorage
    have hmem := ExtTreeMap.mem_toList_iff_getElem?_eq_some.mpr hslot
    rw [Option.some.inj hstorage, List.mem_singleton] at hmem
    rw [(Prod.mk.inj hmem).2]
    decide
  have hcommitted : Committed listingKeeper smallCodec smallContext u.ctx :=
    .transaction .none (.step .init (by trivial) hstep) hslots hcommit
  obtain ⟨-, hvisits, -⟩ := storage_canonical_iff listingKeeper plainAuth_lawful
    smallKeeper_supplied.onStore listingKeeper_iterates flagTrie flagTrie_lawful
    smallCodec smallContext u.ctx smallContext_canonical.1 smallContext_canonical.2
    hcommitted
  obtain ⟨hmem, -, hempty, -⟩ := hvisits 7
  refine ⟨cfg', u, hcfg, hcommit, (hmem 0 1).mpr ⟨hread.symm, by decide⟩, ?_⟩
  rw [Bool.eq_false_iff, ne_eq, hempty]
  intro hzero
  have hone := hzero 0
  rw [show getState u.ctx.reads 7 0 = 1 from hread] at hone
  exact absurd hone (by decide)

end InfiniteEvm.VM
