import InfiniteEvm.Library.Runs
import InfiniteEvm.StateDB.Journaling

/-!
# Reverting to a snapshot

Runs of the operations of a state database, with snapshots and reverts nested in any
way. Reverting to a snapshot restores every observation of the moment it was taken.
-/

namespace InfiniteEvm.StateDB

open Std Library UndoLog Observation List AccessList Option AccountView

variable {K V E : Type*} [Ord K] [TransOrd K]
variable (env : Env K V E) (codes : Set Bytes) {rev : Revision}

/-- The operations on a state database: the journaled ones, snapshots and reverts, and
the getters, which may load an account, its code or a slot. -/
inductive Op
  | addBalance (a : Address) (amount : Uint256)
  | subBalance (a : Address) (amount : Uint256)
  | setBalance (a : Address) (amount : Uint256)
  | setNonce (a : Address) (nonce : BitVec 64)
  | setCode (a : Address) (code : Option Bytes)
  | setState (a : Address) (key value : Hash)
  | setTransientState (a : Address) (key value : Hash)
  | addRefund (gas : BitVec 64)
  | subRefund (gas : BitVec 64)
  | addLog (log : Log)
  | createAccount (a : Address)
  | createContract (a : Address)
  | selfDestruct (a : Address)
  | selfDestruct6780 (a : Address)
  | addAddressToAccessList (a : Address)
  | addSlotToAccessList (a : Address) (slot : Hash)
  | snapshot
  | revertToSnapshot (id : Int)
  | loadAccount (a : Address)
  | loadCode (a : Address)
  | loadState (a : Address) (key : Hash)
  | loadCommittedState (a : Address) (key : Hash)

/-- One operation. -/
def step (s : StateDB K V E) : Op → Except Panic (StateDB K V E)
  | .addBalance a amount => .ok (s.addBalance env a amount).2
  | .subBalance a amount => .ok (s.subBalance env a amount).2
  | .setBalance a amount => .ok (s.setBalance env a amount)
  | .setNonce a nonce => .ok (s.setNonce env a nonce)
  | .setCode a code => .ok (s.setCode env a code).2
  | .setState a key value => .ok (s.setState env a key value).2
  | .setTransientState a key value => .ok (s.setTransientState a key value)
  | .addRefund gas => .ok (s.addRefund gas)
  | .subRefund gas => s.subRefund gas
  | .addLog log => .ok (s.addLog log)
  | .createAccount a => .ok (s.createAccount env a)
  | .createContract a => s.createContract env a
  | .selfDestruct a => .ok (s.selfDestruct env a).2
  | .selfDestruct6780 a => .ok (s.selfDestruct6780 env a).2
  | .addAddressToAccessList a => .ok (s.addAddressToAccessList a)
  | .addSlotToAccessList a slot => s.addSlotToAccessList a slot
  | .snapshot => .ok s.snapshot.2
  | .revertToSnapshot id => s.revertToSnapshot env id
  | .loadAccount a => .ok (s.getStateObject env a).2
  | .loadCode a => .ok (s.getCode env a).2
  | .loadState a key => .ok (s.getState env a key).2
  | .loadCommittedState a key => .ok (s.getCommittedState env a key).2

/-- The state after a list of operations, if none of them panics. -/
def run (s : StateDB K V E) (ops : List Op) : Option (StateDB K V E) :=
  Runs.run (fun s op => (s.step env op).toOption) s ops

/-- The operation does not revert to a snapshot older than `floor`. -/
def Op.Above (floor : Int) : Op → Prop
  | .revertToSnapshot id => floor ≤ id
  | _ => True

/-- The operation is neither a snapshot nor a revert. -/
def Op.Plain : Op → Prop
  | .snapshot => False
  | .revertToSnapshot _ => False
  | _ => True

/-- The operation sets only code from `codes`. -/
def Op.CodeIn : Op → Prop
  | .setCode _ code => code.getD [] ∈ codes
  | _ => True

theorem Op.codeIn_univ (op : Op) : op.CodeIn Set.univ := by
  cases op <;> trivial

/-- A sound database whose valid revisions are in the order they were taken. -/
structure Valid (s : StateDB K V E) : Prop extends Sound env s where
  ordered : s.validRevisions.Pairwise fun r r' => r.id < r'.id ∧ r.journalIndex ≤ r'.journalIndex
  below : ∀ r ∈ s.validRevisions, r.id < s.nextRevisionID ∧
    r.journalIndex ≤ s.journal.entries.length

/-- The state `t` is reached from `base` without reverting past it, by operations that
set code of `codes`. -/
structure Inside (base t : StateDB K V E) : Prop where
  valid : Valid env t
  ctx : t.ctx = base.ctx
  recorded : Recorded (Change env codes)
    (base.journal.entries, base.observe env) (t.journal.entries, t.observe env)
  live : Live base → Live t
  revisions : ∃ later, t.validRevisions = base.validRevisions ++ later ∧
    ∀ r ∈ later, base.journal.entries.length ≤ r.journalIndex

variable {env} {codes} {s t u base : StateDB K V E} {list : List (Address × List Hash)} {op : Op}

theorem Valid.inside (h : Valid env s) : Inside env codes s s where
  valid := h
  ctx := rfl
  recorded := .refl
  live := id
  revisions := ⟨[], (append_nil _).symm, fun _ hr => by simp at hr⟩

theorem Follows.validRevisions_eq (h : Follows env codes s t) :
    t.validRevisions = s.validRevisions :=
  congrArg (fun f => f.2.1) h.frame

theorem Follows.nextRevisionID_eq (h : Follows env codes s t) :
    t.nextRevisionID = s.nextRevisionID :=
  congrArg (fun f => f.2.2.1) h.frame

theorem Follows.valid (h : Follows env codes s t) (hs : Valid env s) : Valid env t where
  toSound := h.sound hs.toSound
  ordered := by
    rw [h.validRevisions_eq]
    exact hs.ordered
  below := by
    rw [h.validRevisions_eq, h.nextRevisionID_eq]
    intro r hr
    exact ⟨(hs.below r hr).1, Nat.le_trans (hs.below r hr).2 h.recorded.length_le⟩

/-- A journaled change stays inside. -/
theorem Inside.follows (h : Inside env codes base s) (hf : Follows env codes s t) :
    Inside env codes base t where
  valid := hf.valid h.valid
  ctx := hf.ctx_eq.trans h.ctx
  recorded := h.recorded.trans hf.recorded
  live := fun hb => hf.live (h.live hb)
  revisions := by
    rw [hf.validRevisions_eq]
    exact h.revisions

/-- Taking a snapshot adds one revision at the end of the journal. -/
theorem Inside.snapshot (h : Inside env codes base s) : Inside env codes base s.snapshot.2 where
  valid :=
    { toSound := ⟨⟨h.valid.tidy.address, h.valid.tidy.code⟩, h.valid.good⟩
      ordered := by
        refine pairwise_append.mpr ⟨h.valid.ordered, pairwise_singleton _ _, ?_⟩
        intro r hr r' hr'
        obtain rfl := mem_singleton.mp hr'
        exact h.valid.below r hr
      below := by
        intro r hr
        change r.id < s.nextRevisionID + 1 ∧ r.journalIndex ≤ s.journal.entries.length
        rcases mem_append.mp hr with hr | hr
        · have := h.valid.below r hr
          exact ⟨by omega, this.2⟩
        · obtain rfl := mem_singleton.mp hr
          exact ⟨by simp only; omega, Nat.le_refl _⟩ }
  ctx := h.ctx
  recorded := h.recorded
  live := h.live
  revisions := by
    obtain ⟨later, heq, hlater⟩ := h.revisions
    refine ⟨later ++ [⟨s.nextRevisionID, s.journal.entries.length⟩], ?_, ?_⟩
    · change s.validRevisions ++ _ = _
      rw [heq, append_assoc]
    · intro r hr
      rcases mem_append.mp hr with hr | hr
      · exact hlater r hr
      · obtain rfl := mem_singleton.mp hr
        exact h.recorded.length_le

/-- What is inside a snapshot is inside the state it was taken of. -/
theorem Inside.of_snapshot (h : Inside env codes s.snapshot.2 t) : Inside env codes s t where
  valid := h.valid
  ctx := h.ctx
  recorded := h.recorded
  live := h.live
  revisions := by
    obtain ⟨later, heq, hlater⟩ := h.revisions
    refine ⟨⟨s.nextRevisionID, s.journal.entries.length⟩ :: later, ?_, ?_⟩
    · rw [heq, StateDB.snapshot, append_assoc]
      rfl
    · intro r hr
      rcases mem_cons.mp hr with rfl | hr
      · exact Nat.le_refl _
      · exact hlater r hr

theorem Live.dirtyExist (h : Live s) : (s.observe env).DirtyExist := by
  intro a ha hnone
  obtain ⟨obj, hobj⟩ := isSome_iff_exists.mp (ExtTreeMap.mem_iff_isSome_getElem?.mp (h a ha))
  rw [observe_accounts, lookup, hobj, some_or] at hnone
  cases hnone

/-- Undoing a change keeps dirty addresses live: a new object was not dirty before. -/
theorem live_of_undoEntry {e : JournalEntry E} {o o' : Observation K V E} (hs : Live s)
    (hexist : o.DirtyExist) (hc : Change env codes e o o')
    (hso : s.observe env = o') (hto : t.observe env = o)
    (hmem : ∀ a ∈ s.stateObjects, e ≠ .createObjectChange a → a ∈ t.stateObjects) : Live t := by
  obtain ⟨x, hx, rfl⟩ := hc
  intro a ha
  have ha' : a ∈ o.dirties := by
    rw [← hto]
    exact ha
  have hdirties : s.journal.dirties = o.dirties.mark e.dirtied := congrArg dirties hso
  refine hmem a (hs a ?_) ?_
  · rw [hdirties]
    exact Dirties.mem_mark e.dirtied ha'
  · rintro rfl
    cases hx with
    | createObject _ hnone _ => exact hexist a ha' hnone

/-- Reverting the journal inside never panics and leads to the observation the record
had at that length. -/
theorem Inside.revertJournal (h : Inside env codes base s) (hbase : Valid env base) {n : Nat}
    (hn : base.journal.entries.length ≤ n) (hs : n ≤ s.journal.entries.length) :
    ∃ t, s.revertJournal env n = .ok t ∧ Tidy env t ∧ t.frame = s.frame ∧
      t.journal.entries = s.journal.entries.take n ∧ (Live base → Live t) ∧
      Recorded (Change env codes) (base.journal.entries, base.observe env)
        (s.journal.entries.take n, t.observe env) := by
  obtain ⟨t, o, ht, ⟨rfl, htidy, hframe, hentries, hlive⟩, hrec⟩ := Recorded.undo_to
    (fun e (s : StateDB K V E) => s.undoEntry env e)
    (fun t o => t.observe env = o ∧ Tidy env t ∧ t.frame = s.frame ∧
      t.journal.entries = s.journal.entries ∧ (Live base → Live t))
    (fun x => x.2.Good ∧ (Live base → x.2.DirtyExist))
    (fun _ _ _ _ hg hc => ⟨hc.good hg.1, fun hb => hc.dirtyExist (hg.2 hb)⟩)
    (by
      rintro log o e o' t ⟨hg, hexist⟩ hc ⟨rfl, htidy, hframe, hentries, hlive⟩
      obtain ⟨u, hu, rfl, hut, huf, hue, hmem⟩ := undoEntry_of_change env htidy hg hc
      exact ⟨u, hu, rfl, hut, huf.trans hframe, hue.trans hentries,
        fun hb => live_of_undoEntry (hlive hb) (hexist hb) hc rfl rfl hmem⟩)
    h.recorded ⟨hbase.good, fun hb => hb.dirtyExist⟩ ⟨rfl, h.valid.tidy, rfl, rfl, h.live⟩ hn hs
  refine ⟨{ t with journal := { t.journal with entries := t.journal.entries.take n } },
    by rw [StateDB.revertJournal, ht]; rfl, ⟨htidy.address, htidy.code⟩, hframe, ?_, hlive, hrec⟩
  exact congrArg (take n) hentries

/-- Reverting to a revision taken inside stays inside. -/
theorem Inside.revertRevision (h : Inside env codes base s) (hbase : Valid env base) {i : Nat}
    (hrev : s.validRevisions[i]? = some rev) (hi : base.validRevisions.length ≤ i) :
    ∃ t, s.revertJournal env rev.journalIndex = .ok t ∧
      Inside env codes base { t with validRevisions := t.validRevisions.take i } := by
  obtain ⟨later, heq, hlater⟩ := h.revisions
  have hmem : rev ∈ later := by
    rw [heq, List.getElem?_append_right hi] at hrev
    exact List.mem_of_getElem? hrev
  have hbelow := h.valid.below rev (List.mem_of_getElem? hrev)
  obtain ⟨t, ht, htidy, hframe, hentries, hlive, hrec⟩ :=
    h.revertJournal hbase (hlater rev hmem) hbelow.2
  have hrevs : t.validRevisions = s.validRevisions := congrArg (fun f => f.2.1) hframe
  have hnext : t.nextRevisionID = s.nextRevisionID := congrArg (fun f => f.2.2.1) hframe
  refine ⟨t, ht, ?_⟩
  obtain ⟨hilt, hrevi⟩ := List.getElem?_eq_some_iff.mp hrev
  constructor
  · refine { tidy := ⟨htidy.address, htidy.code⟩, good := ?_, ordered := ?_, below := ?_ }
    · exact good_of_recorded hrec hbase.good
    · rw [hrevs]
      exact h.valid.ordered.sublist (List.take_sublist i _)
    · intro r hr
      rw [hrevs] at hr
      rw [hnext, hentries, List.length_take, Nat.min_eq_left hbelow.2]
      obtain ⟨j, hj, rfl⟩ := List.mem_take_iff_getElem.mp hr
      refine ⟨(h.valid.below _ (List.getElem_mem _)).1, ?_⟩
      rw [← hrevi]
      exact (List.pairwise_iff_getElem.mp h.valid.ordered j i _ hilt (by omega)).2
  · exact (congrArg Prod.fst hframe).trans h.ctx
  · rw [hentries]
    exact hrec
  · exact hlive
  · refine ⟨later.take (i - base.validRevisions.length), ?_, ?_⟩
    · rw [hrevs, heq, List.take_append, List.take_of_length_le hi]
    · intro r hr
      exact hlater r (List.mem_of_mem_take hr)

/-- The revision `RevertToSnapshot` works with, when it does not refuse the id. -/
theorem revertToSnapshot_cases (s : StateDB K V E) (env : Env K V E) (id : Int) :
    s.revertToSnapshot env id = .error (.revisionCannotBeReverted id) ∨
    ∃ (i : Nat) (rev : Revision), s.validRevisions[i]? = some rev ∧ rev.id = id ∧
      s.revertToSnapshot env id = (s.revertJournal env rev.journalIndex).map
        fun t => { t with validRevisions := t.validRevisions.take i } := by
  simp only [revertToSnapshot]
  generalize search _ _ = i
  cases hrev : s.validRevisions[i]? with
  | none => exact Or.inl rfl
  | some rev =>
    by_cases hid : rev.id = id
    · exact Or.inr ⟨i, rev, hrev, hid, by simp [hid]⟩
    · exact Or.inl (by simp [hid])

/-- The binary search finds the revision with the given id. -/
theorem revertToSnapshot_eq (hs : Valid env s) {i : Nat} (hrev : s.validRevisions[i]? = some rev) :
    s.revertToSnapshot env rev.id = (s.revertJournal env rev.journalIndex).map
      fun t => { t with validRevisions := t.validRevisions.take i } := by
  obtain ⟨hi, hrevi⟩ := List.getElem?_eq_some_iff.mp hrev
  have hpair := List.pairwise_iff_getElem.mp hs.ordered
  have hsearch : search s.validRevisions.length (fun j =>
      ((s.validRevisions[j]?).map fun r => decide (rev.id ≤ r.id)).getD false) = i := by
    apply search_eq (Nat.le_of_lt hi)
    · intro j hj
      have hlt := (hpair j i (by omega) hi hj).1
      rw [hrevi] at hlt
      rw [List.getElem?_eq_getElem (by omega), map_some, getD_some, decide_eq_false_iff_not]
      omega
    · intro j hij hj
      rw [List.getElem?_eq_getElem hj, map_some, getD_some, decide_eq_true_eq]
      rcases Nat.lt_or_eq_of_le hij with hlt | rfl
      · have := (hpair i j hi hj hlt).1
        rw [hrevi] at this
        omega
      · rw [hrevi]
  simp only [revertToSnapshot, hsearch, hrev, ne_eq, not_true_eq_false, if_false]

/-- A revert above the floor either refuses the id or stays inside. -/
theorem Inside.revertToSnapshot (h : Inside env codes base s) (hbase : Valid env base) {id : Int}
    (hid : base.validRevisions = [] ∨ base.nextRevisionID ≤ id) :
    s.revertToSnapshot env id = .error (.revisionCannotBeReverted id) ∨
    ∃ t, s.revertToSnapshot env id = .ok t ∧ Inside env codes base t := by
  rcases revertToSnapshot_cases s env id with hnone | ⟨i, rev, hrev, hrid, heq⟩
  · exact Or.inl hnone
  · right
    obtain ⟨later, hrevs, -⟩ := h.revisions
    have hi : base.validRevisions.length ≤ i := by
      rcases hid with hnil | hid
      · rw [hnil]
        exact Nat.zero_le i
      by_contra hlt
      have hmem : rev ∈ base.validRevisions := by
        rw [hrevs, getElem?_append_left (by omega)] at hrev
        exact mem_of_getElem? hrev
      have := (hbase.below rev hmem).1
      omega
    obtain ⟨t, ht, hin⟩ := h.revertRevision hbase hrev hi
    exact ⟨_, by rw [heq, ht]; rfl, hin⟩

/-- What an operation other than snapshots and reverts can do: it panics for a reason of
its own, which is never the access list's, or it is journaled. -/
theorem step_follows (hs : Sound env s) (hop : op.Plain) (hcode : op.CodeIn codes) :
    (∃ gas, s.step env op = .error (.refundBelowZero gas s.refund)) ∨
    s.step env op = .error .nilDereference ∨
    ∃ t, s.step env op = .ok t ∧ Follows env codes s t := by
  have ok : ∀ t, s.step env op = .ok t → Follows env codes s t →
      (∃ gas, s.step env op = .error (.refundBelowZero gas s.refund)) ∨
      s.step env op = .error .nilDereference ∨
      ∃ t, s.step env op = .ok t ∧ Follows env codes s t :=
    fun t ht hf => Or.inr (Or.inr ⟨t, ht, hf⟩)
  cases op with
  | addBalance a amount => exact ok _ rfl (addBalance_follows hs a amount)
  | subBalance a amount => exact ok _ rfl (subBalance_follows hs a amount)
  | setBalance a amount => exact ok _ rfl (setBalance_follows hs a amount)
  | setNonce a nonce => exact ok _ rfl (setNonce_follows hs a nonce)
  | setCode a code => exact ok _ rfl (setCode_follows hs a hcode)
  | setState a key value => exact ok _ rfl (setState_follows hs a key value)
  | setTransientState a key value => exact ok _ rfl (setTransientState_follows hs a key value)
  | addRefund gas => exact ok _ rfl (refundChange_follows hs _)
  | subRefund gas =>
    by_cases hlt : s.refund < gas
    · exact Or.inl ⟨gas, if_pos hlt⟩
    · have heq : s.step env (.subRefund gas) =
          .ok { s.append (.refundChange s.refund) with refund := s.refund - gas } := if_neg hlt
      exact ok _ heq (refundChange_follows hs _)
  | addLog log => exact ok _ rfl (addLog_follows hs log)
  | createAccount a => exact ok _ rfl (createAccount_follows hs a)
  | createContract a =>
    cases hc : s.createContract env a with
    | ok t => exact ok t hc (createContract_follows hs hc)
    | error p =>
      refine Or.inr (Or.inl (hc.trans ?_))
      unfold createContract at hc
      generalize s.getStateObject env a = res at hc
      obtain ⟨obj?, s'⟩ := res
      cases obj? with
      | none => exact hc.symm
      | some obj =>
        simp only at hc
        split at hc <;> cases hc
  | selfDestruct a => exact ok _ rfl (selfDestruct_follows hs a)
  | selfDestruct6780 a => exact ok _ rfl (selfDestruct6780_follows hs a)
  | addAddressToAccessList a => exact ok _ rfl (addAddressToAccessList_follows hs a)
  | addSlotToAccessList a slot =>
    obtain ⟨t, ht, hf⟩ := addSlotToAccessList_follows hs a slot
    exact ok t ht hf
  | snapshot => exact hop.elim
  | revertToSnapshot id => exact hop.elim
  | loadAccount a => exact ok _ rfl (getStateObject_follows hs a)
  | loadCode a => exact ok _ rfl (getCode_follows hs a)
  | loadState a key => exact ok _ rfl (getState_follows hs a key)
  | loadCommittedState a key => exact ok _ rfl (getCommittedState_follows hs a key)

theorem step_follows_of_ok (hs : Sound env s) (hop : op.Plain) (h : s.step env op = .ok t) :
    Follows env Set.univ s t := by
  obtain ⟨gas, h'⟩ | h' | ⟨t', h', hf⟩ := step_follows hs hop op.codeIn_univ
  · cases h.symm.trans h'
  · cases h.symm.trans h'
  · cases h.symm.trans h'
    exact hf

/-- What an operation above the floor can do. -/
theorem Inside.step (h : Inside env codes base s) (hbase : Valid env base)
    (hop : base.validRevisions = [] ∨ op.Above base.nextRevisionID) (hcode : op.CodeIn codes) :
    (∃ gas, s.step env op = .error (.refundBelowZero gas s.refund)) ∨
    s.step env op = .error .nilDereference ∨
    (∃ id, s.step env op = .error (.revisionCannotBeReverted id)) ∨
    ∃ t, s.step env op = .ok t ∧ Inside env codes base t := by
  by_cases hplain : op.Plain
  · rcases step_follows h.valid.toSound hplain hcode with hgas | hnil | ⟨t, ht, hf⟩
    · exact Or.inl hgas
    · exact Or.inr (Or.inl hnil)
    · exact Or.inr (Or.inr (Or.inr ⟨t, ht, h.follows hf⟩))
  · cases op with
    | snapshot => exact Or.inr (Or.inr (Or.inr ⟨_, rfl, h.snapshot⟩))
    | revertToSnapshot id =>
      rcases h.revertToSnapshot hbase hop with hnone | ht
      · exact Or.inr (Or.inr (Or.inl ⟨id, hnone⟩))
      · exact Or.inr (Or.inr (Or.inr ht))
    | _ => exact absurd trivial hplain

/-- A whole run above the floor stays inside. -/
theorem Inside.run (h : Inside env codes base s) (hbase : Valid env base) {ops : List Op}
    (hops : base.validRevisions = [] ∨ ∀ op ∈ ops, op.Above base.nextRevisionID)
    (hcodes : ∀ op ∈ ops, op.CodeIn codes) (hrun : s.run env ops = some t) :
    Inside env codes base t := by
  refine Runs.run_invariant (Inside env codes base)
    (fun op => (base.validRevisions = [] ∨ op.Above base.nextRevisionID) ∧ op.CodeIn codes) ?_
    (fun op hop => ⟨hops.imp_right fun h => h op hop, hcodes op hop⟩) h hrun
  intro s op s' hop hin hstep
  rcases hin.step hbase hop.1 hop.2 with ⟨gas, he⟩ | he | ⟨id, he⟩ | ⟨u, he, hu⟩ <;>
    rw [he] at hstep
  · cases hstep
  · cases hstep
  · cases hstep
  · cases hstep
    exact hu

/-- A fresh database is valid. -/
theorem new_valid (env : Env K V E) (ctx : Context K V E) (txIndex : Nat) :
    Valid env (new ctx txIndex) where
  tidy := ⟨fun a obj h => by simp [new] at h, fun a obj h => by simp [new] at h⟩
  good :=
    { accessList := newAccessList_wellFormed
      dirties := by
        intro a n h
        simp [observe, new] at h
      cache := by
        intro c h
        cases h }
  ordered := Pairwise.nil
  below := fun r hr => by simp [new] at hr

/-- A fresh database answers as the keeper does. -/
theorem new_accounts (ctx : Context K V E) (txIndex : Nat) (a : Address) :
    ((new ctx txIndex).observe env).accounts a = keeperView env ctx a := by
  simp [observe, lookup, new, keeperView, Function.comp_def]

/-! ## States a database can be in -/

theorem prepareSlots_wellFormed {al al' : AccessList} (h : al.WellFormed) {address : Address}
    {keys : List Hash} (heq : prepareSlots address keys al = .ok al') : al'.WellFormed := by
  induction keys generalizing al with
  | nil =>
    cases heq
    exact h
  | cons key rest ih =>
    rw [prepareSlots] at heq
    rcases addSlot_cases h address key with hadd | ⟨al₁, hadd, hwf, -⟩ |
      ⟨al₁, hadd, hwf, -⟩ <;> rw [hadd] at heq
    · exact ih h heq
    · exact ih hwf heq
    · exact ih hwf heq

theorem prepareList_wellFormed {al al' : AccessList} (h : al.WellFormed)
    (heq : prepareList list al = .ok al') : al'.WellFormed := by
  induction list generalizing al with
  | nil =>
    cases heq
    exact h
  | cons entry rest ih =>
    obtain ⟨address, keys⟩ := entry
    rw [prepareList] at heq
    obtain ⟨al₁, hslots, heq⟩ := Outcomes.bind_eq_ok.mp heq
    exact ih (prepareSlots_wellFormed (addAddress_wellFormed h address) hslots) heq

theorem addAddresses_wellFormed {al : AccessList} (h : al.WellFormed) (addresses : List Address) :
    (addresses.foldl (fun al a => (al.addAddress a).1) al).WellFormed := by
  induction addresses generalizing al with
  | nil => exact h
  | cons a rest ih => exact ih (addAddress_wellFormed h a)

theorem prepare_valid (hs : Valid env s) {rules : Rules} {sender coinbase : Address}
    {dst : Option Address} {precompiles : List Address}
    (ht : s.prepare rules sender coinbase dst precompiles list = .ok t) : Valid env t := by
  have hset : ∀ al : AccessList, al.WellFormed →
      Valid env { s with accessList := al, transientStorage := ∅ } := fun al hal =>
    { tidy := ⟨hs.tidy.address, hs.tidy.code⟩
      good := ⟨hal, hs.good.dirties, hs.good.cache⟩
      ordered := hs.ordered
      below := hs.below }
  unfold prepare at ht
  split at ht
  · cases ht
  · split at ht
    · obtain ⟨al, hlist, rfl⟩ := Outcomes.map_eq_ok.mp ht
      have hal : al.WellFormed := prepareList_wellFormed
        (addAddresses_wellFormed newAccessList_wellFormed _) hlist
      apply hset
      split
      · exact addAddress_wellFormed hal coinbase
      · exact hal
    · cases ht
      exact hset s.accessList hs.good.accessList

theorem setStorage_valid (hs : Valid env s) (a : Address) (storage : Storage) :
    Valid env (s.setStorage env a storage) := by
  obtain ⟨hf, hl⟩ : Loaded env Set.univ s _ a _ := getOrNewStateObject_follows hs.toSound a
  have h := hf.valid hs
  exact
    { tidy := setStateObject_tidy env h.tidy
        (show StateObject.CodeLoaded env _ (s.getOrNewStateObject env a).1 from
          lookup_codeLoaded env h.tidy hl)
      good := ⟨h.good.accessList, h.good.dirties, h.good.cache⟩
      ordered := h.ordered
      below := h.below }

omit [Ord K] [TransOrd K] in
theorem finaliseObjects_subset (deleteEmptyObjects : Bool) (addresses : List Address)
    {objects : FMap Address StateObject} {a : Address} {obj : StateObject}
    (hobj : (addresses.foldl (finaliseObject env deleteEmptyObjects) objects)[a]? = some obj) :
    objects[a]? = some obj := by
  induction addresses generalizing objects with
  | nil => exact hobj
  | cons b rest ih =>
    have h := ih hobj
    unfold finaliseObject at h
    split at h
    · exact h
    · split at h
      · rw [ExtTreeMap.getElem?_erase] at h
        split at h
        · cases h
        · exact h
      · exact h

theorem finalise_valid (hs : Valid env s) (deleteEmptyObjects : Bool) :
    Valid env (s.finalise env deleteEmptyObjects) where
  tidy := ⟨fun a obj h => hs.tidy.address a obj (finaliseObjects_subset deleteEmptyObjects _ h),
    fun a obj h => hs.tidy.code a obj (finaliseObjects_subset deleteEmptyObjects _ h)⟩
  good := ⟨hs.good.accessList, hs.good.dirties, hs.good.cache⟩
  ordered := hs.ordered
  below := hs.below

/-- The getters of two databases agree, and neither panics on the access list. -/
structure Agree (env : Env K V E) (s t : StateDB K V E) : Prop where
  exist : ∀ a, (s.exist env a).1 = (t.exist env a).1
  empty : ∀ a, (s.empty env a).1 = (t.empty env a).1
  balance : ∀ a, (s.getBalance env a).1 = (t.getBalance env a).1
  nonce : ∀ a, (s.getNonce env a).1 = (t.getNonce env a).1
  code : ∀ a, (s.getCode env a).1 = (t.getCode env a).1
  codeHash : ∀ a, (s.getCodeHash env a).1 = (t.getCodeHash env a).1
  state : ∀ a key, (s.getState env a key).1 = (t.getState env a key).1
  committedState : ∀ a key, (s.getCommittedState env a key).1 = (t.getCommittedState env a key).1
  transientState : ∀ a key, s.getTransientState a key = t.getTransientState a key
  refund : s.refund = t.refund
  logs : s.logs = t.logs
  selfDestructed : ∀ a, (s.hasSelfDestructed env a).1 = (t.hasSelfDestructed env a).1
  newContract : ∀ a, (s.isNewContract env a).1 = (t.isNewContract env a).1
  addressInAccessList : ∀ a, s.addressInAccessList a = t.addressInAccessList a
  slotInAccessList : ∀ a slot, ∃ b,
    s.slotInAccessList a slot = .ok b ∧ t.slotInAccessList a slot = .ok b
  dirties : s.journal.dirties = t.journal.dirties

/-! Every getter reads the observation. -/

section

variable (env : Env K V E) (s : StateDB K V E) (a : Address)

theorem exist_eq : (s.exist env a).1 = ((s.observe env).accounts a).isSome := by
  rw [observe_accounts, ← getStateObject_fst, isSome_map]
  rfl

theorem empty_eq :
    (s.empty env a).1 = (((s.observe env).accounts a).map fun v =>
      v.nonce == 0 && v.balance == 0 && env.isEmptyCodeHash v.codeHash).getD true := by
  rw [observe_accounts, ← getStateObject_fst, Option.map_map]
  rfl

theorem getBalance_eq :
    (s.getBalance env a).1 = (((s.observe env).accounts a).map balance).getD 0 := by
  rw [observe_accounts, ← getStateObject_fst, Option.map_map]
  rfl

theorem getNonce_eq : (s.getNonce env a).1 = (((s.observe env).accounts a).map nonce).getD 0 := by
  rw [observe_accounts, ← getStateObject_fst, Option.map_map]
  rfl

theorem getCodeHash_eq :
    (s.getCodeHash env a).1 = (((s.observe env).accounts a).map codeHash).getD 0 := by
  rw [observe_accounts, ← getStateObject_fst, Option.map_map]
  rfl

theorem hasSelfDestructed_eq :
    (s.hasSelfDestructed env a).1 =
      (((s.observe env).accounts a).map selfDestructed).getD false := by
  rw [observe_accounts, ← getStateObject_fst, Option.map_map]
  rfl

theorem isNewContract_eq :
    (s.isNewContract env a).1 =
      (((s.observe env).accounts a).map newContract).getD false := by
  rw [observe_accounts, ← getStateObject_fst, Option.map_map]
  rfl

theorem getCode_eq : (s.getCode env a).1 = ((s.observe env).accounts a).bind code := by
  have hctx := getStateObject_ctx env s a
  rw [observe_accounts, ← getStateObject_fst]
  unfold getCode
  generalize s.getStateObject env a = res at hctx
  obtain ⟨obj?, s'⟩ := res
  cases obj? with
  | none => rfl
  | some obj => exact hctx ▸ StateObject.getCode_fst env s'.ctx.reads obj

theorem getState_eq (key : Hash) :
    (s.getState env a key).1 =
      (((s.observe env).accounts a).map fun v => v.state key).getD 0 := by
  have hctx := getStateObject_ctx env s a
  rw [observe_accounts, ← getStateObject_fst]
  unfold getState
  generalize s.getStateObject env a = res at hctx
  obtain ⟨obj?, s'⟩ := res
  cases obj? with
  | none => rfl
  | some obj => exact hctx ▸ StateObject.getState_fst env s'.ctx.reads obj key

theorem getCommittedState_eq (key : Hash) :
    (s.getCommittedState env a key).1 =
      (((s.observe env).accounts a).map fun v => v.committed key).getD 0 := by
  have hctx := getStateObject_ctx env s a
  rw [observe_accounts, ← getStateObject_fst]
  unfold getCommittedState
  generalize s.getStateObject env a = res at hctx
  obtain ⟨obj?, s'⟩ := res
  cases obj? with
  | none => rfl
  | some obj => exact hctx ▸ StateObject.getCommittedState_fst env s'.ctx.reads obj key

end

theorem agree_of_observe_eq (hs : Sound env s) (h : s.observe env = t.observe env) :
    Agree env s t where
  exist a := by rw [exist_eq, exist_eq, h]
  empty a := by rw [empty_eq, empty_eq, h]
  balance a := by rw [getBalance_eq, getBalance_eq, h]
  nonce a := by rw [getNonce_eq, getNonce_eq, h]
  code a := by rw [getCode_eq, getCode_eq, h]
  codeHash a := by rw [getCodeHash_eq, getCodeHash_eq, h]
  state a key := by rw [getState_eq, getState_eq, h]
  committedState a key := by rw [getCommittedState_eq, getCommittedState_eq, h]
  transientState a key := congrFun (congrFun (congrArg Observation.transient h) a) key
  refund := congrArg Observation.refund h
  logs := congrArg Observation.logs h
  selfDestructed a := by rw [hasSelfDestructed_eq, hasSelfDestructed_eq, h]
  newContract a := by rw [isNewContract_eq, isNewContract_eq, h]
  addressInAccessList a := congrArg (fun o => o.accessList.containsAddress a) h
  slotInAccessList a slot := by
    obtain ⟨b, hb⟩ := AccessList.contains_ok hs.good.accessList a slot
    exact ⟨b, hb, (congrArg (fun o => o.accessList.contains a slot) h).symm.trans hb⟩
  dirties := congrArg Observation.dirties h

/-- Reverting to a snapshot from anywhere inside it puts the journal and every
observation back. -/
theorem Inside.restore (hin : Inside env codes s.snapshot.2 t) (hs : Valid env s) :
    ∃ u, t.revertToSnapshot env s.snapshot.1 = .ok u ∧ Inside env codes s u ∧
      u.journal.entries = s.journal.entries ∧ u.observe env = s.observe env := by
  obtain ⟨later, hrevs, -⟩ := hin.revisions
  have hrev : t.validRevisions[s.validRevisions.length]? =
      some ⟨s.nextRevisionID, s.journal.entries.length⟩ := by
    rw [hrevs]
    simp [StateDB.snapshot]
  obtain ⟨u, hu, hin'⟩ := hin.of_snapshot.revertRevision hs hrev (Nat.le_refl _)
  obtain ⟨u', hu', -, -, hentries, -⟩ := hin.of_snapshot.revertJournal hs (Nat.le_refl _)
    hin.recorded.length_le
  obtain rfl : u = u' := Except.ok.inj (hu.symm.trans hu')
  have heq : (u.journal.entries, u.observe env) = (s.journal.entries, s.observe env) := by
    refine hin'.recorded.eq_of_length ?_
    rw [hentries]
    exact length_take_le _ _
  exact ⟨_, by rw [StateDB.snapshot, revertToSnapshot_eq hin.valid hrev, hu]; rfl, hin',
    congrArg Prod.fst heq, congrArg Prod.snd heq⟩

/-- Take a snapshot of any valid database and run any operations that revert to later
snapshots only. Then no operation panics on the access list, and reverting to the
snapshot succeeds and makes every observation what it was when the snapshot was taken. -/
theorem revertToSnapshot_restores (env : Env K V E) (s t : StateDB K V E) (hs : Valid env s)
    (ops : List Op) (hops : ∀ op ∈ ops, op.Above (s.snapshot.1 + 1))
    (hrun : s.snapshot.2.run env ops = some t) :
    (∀ op : Op, op.Above (s.snapshot.1 + 1) → t.step env op ≠ .error .indexOutOfRange ∧
      t.step env op ≠ .error .slotAddressNotPresent) ∧
    ∃ u, t.revertToSnapshot env s.snapshot.1 = .ok u ∧ Agree env u s ∧ Valid env u ∧
      u.journal.entries = s.journal.entries := by
  have hstart : Inside env Set.univ s s.snapshot.2 := hs.inside.snapshot
  have hbase : Valid env s.snapshot.2 := hstart.valid
  have hin : Inside env Set.univ s.snapshot.2 t :=
    hbase.inside.run hbase (Or.inr hops) (fun op _ => op.codeIn_univ) hrun
  refine ⟨?_, ?_⟩
  · intro op hop
    rcases hin.step hbase (Or.inr hop) op.codeIn_univ with
      ⟨gas, he⟩ | he | ⟨id, he⟩ | ⟨u, he, -⟩ <;> rw [he] <;>
      exact ⟨by simp, by simp⟩
  · obtain ⟨u, hu, hin', hentries, hobs⟩ := hin.restore hs
    exact ⟨u, hu, agree_of_observe_eq hin'.valid.toSound hobs, hin'.valid, hentries⟩

theorem revertToSnapshot_restores_created :
    ∃ t u : StateDB Nat Nat Unit,
      (new ⟨∅, []⟩ 0).snapshot.2.run Env.empty
        [.addBalance 1 5, .snapshot, .addSlotToAccessList 1 7, .createAccount 1,
          .revertToSnapshot 1, .setState 1 2 3] = some t ∧
      (t.getBalance Env.empty 1).1 = 5 ∧ t.revertToSnapshot Env.empty 0 = .ok u ∧
      Agree Env.empty u (new ⟨∅, []⟩ 0) := by
  have hrun : ((new ⟨∅, []⟩ 0).snapshot.2.run (Env.empty : Env Nat Nat Unit)
      [.addBalance 1 5, .snapshot, .addSlotToAccessList 1 7, .createAccount 1,
        .revertToSnapshot 1, .setState 1 2 3]).map (fun t => (t.getBalance Env.empty 1).1) =
      some 5 := by
    decide +kernel
  obtain ⟨t, ht, hbalance⟩ := map_eq_some_iff.mp hrun
  obtain ⟨-, u, hu, hagree, -⟩ := revertToSnapshot_restores Env.empty (new ⟨∅, []⟩ 0) t
    (new_valid _ _ _) _ (by simp [Op.Above, snapshot, new]) ht
  exact ⟨t, u, ht, hbalance, hu, hagree⟩

end InfiniteEvm.StateDB
