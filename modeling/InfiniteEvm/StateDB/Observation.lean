import InfiniteEvm.Library.Outcomes
import Mathlib.Data.Set.Basic
import InfiniteEvm.StateDB.Database

/-!
# What can be observed of a state database

The observation of a database answers all of its getters at once, for live accounts
and for those still in the keeper. Undoing a journal entry is defined on observations,
and reverting an entry of the database does just that.
-/

namespace InfiniteEvm

open Std Library SnapshotMulti Function ExtTreeMap Option StateObject Dirties

variable {K V E : Type*} [Ord K] {a : Address}

/-- Everything the getters answer, the counts of dirty addresses, and what a
precompile call can change. -/
@[ext] structure Observation (K : Type*) [Ord K] (V E : Type*) where
  ctx : Context K V E
  accounts : Address → Option AccountView
  transient : Address → Hash → Hash
  refund : BitVec 64
  logs : List Log
  accessList : AccessList
  dirties : Dirties
  cache : Option (CacheContext K V E)
  processedEventsCount : Nat

/-- Code loaded into an object and not set since is the keeper's. -/
def StateObject.CodeLoaded {K V E : Type*} (env : Env K V E) (r : Reads K V)
    (obj : StateObject) : Prop :=
  obj.dirtyCode = false → obj.code = none ∨ obj.code = env.getCode r obj.account.codeHash

/-- The cache context `c'` is `c` with one more layer, written in any way, and more
events. -/
structure CacheContext.Extends (c c' : CacheContext K V E) : Prop where
  wellFormed : WellFormed c'.multiStore
  head : c'.multiStore.head = c.multiStore.head + 1
  reverted : revertToSnapshot c'.multiStore c.multiStore.head = some c.multiStore
  events : c.events <+: c'.events

namespace Observation

variable {o : Observation K V E}

def setAccount (o : Observation K V E) (a : Address) (v : Option AccountView) : Observation K V E :=
  { o with accounts := update o.accounts a v }

/-- Change the account at `a`, which must exist. -/
def modifyAccount (o : Observation K V E) (a : Address) (f : AccountView → AccountView) :
    Except Panic (Observation K V E) :=
  match o.accounts a with
  | none => .error .nilDereference
  | some v => .ok (o.setAccount a (some (f v)))

@[simp] theorem setAccount_accounts (o : Observation K V E) (a : Address)
    (v : Option AccountView) : (o.setAccount a v).accounts a = v :=
  update_self ..

theorem setAccount_setAccount (o : Observation K V E) (a : Address) (v w : Option AccountView) :
    (o.setAccount a v).setAccount a w = o.setAccount a w := by
  simp only [setAccount, update_idem]

theorem setAccount_self (o : Observation K V E) (a : Address) :
    o.setAccount a (o.accounts a) = o := by
  simp only [setAccount, update_eq_self]

theorem modifyAccount_setAccount (a : Address) (v : AccountView) (f : AccountView → AccountView) :
    (o.setAccount a (some v)).modifyAccount a f = .ok (o.setAccount a (some (f v))) := by
  simp only [modifyAccount, setAccount_accounts, setAccount_setAccount]

/-- Putting back the account that was there takes an account change back. -/
theorem setAccount_eq_self {v : Option AccountView} (h : o.accounts a = v) :
    o.setAccount a v = o := by
  rw [← h, setAccount_self]

theorem modifyAccount_dirties (a : Address) (f : AccountView → AccountView) (d : Dirties) :
    { o with dirties := d }.modifyAccount a f =
      (o.modifyAccount a f).map fun o => { o with dirties := d } := by
  unfold modifyAccount
  cases o.accounts a <;> rfl

variable [TransOrd K] (env : Env K V E)

/-- The account at `a` as the keeper has it. -/
def keeperView (ctx : Context K V E) (a : Address) : Option AccountView :=
  (env.getAccount ctx.reads a).map fun account =>
    (newObject a account).view env ctx.reads

/-- A new account at `a`, over the storage the keeper has for it. -/
def freshView (ctx : Context K V E) (a : Address) : AccountView :=
  (newObject a (StateDB.zeroAccount env)).view env ctx.reads

/-- What reverting an entry does to an observation. -/
def undoChange (o : Observation K V E) : JournalEntry E → Except Panic (Observation K V E)
  | .createObjectChange a => .ok (o.setAccount a (keeperView env o.ctx a))
  | .resetObjectChange prev => .ok (o.setAccount prev.address (some (prev.view env o.ctx.reads)))
  | .selfDestructChange a prev prevbalance =>
    match o.accounts a with
    | none => .ok o
    | some v =>
      .ok (o.setAccount a (some { v with selfDestructed := prev, balance := prevbalance }))
  | .balanceChange a prev => o.modifyAccount a fun v => { v with balance := prev }
  | .nonceChange a prev => o.modifyAccount a fun v => { v with nonce := prev }
  | .storageChange a key prevalue =>
    o.modifyAccount a fun v => { v with state := update v.state key prevalue }
  | .transientStorageChange a key prevalue =>
    .ok { o with transient := fun a' key' =>
      if a = a' ∧ key = key' then prevalue else o.transient a' key' }
  | .codeChange a prevcode prevhash =>
    o.modifyAccount a fun v =>
      { v with
        codeHash := prevhash
        code := resolveCode env o.ctx.reads prevhash prevcode }
  | .refundChange prev => .ok { o with refund := prev }
  | .addLogChange =>
    if o.logs = [] then .error .indexOutOfRange else .ok { o with logs := o.logs.dropLast }
  | .accessListAddAccountChange a => .ok { o with accessList := o.accessList.deleteAddress a }
  | .accessListAddSlotChange a slot =>
    (o.accessList.deleteSlot a slot).map fun al => { o with accessList := al }
  | .precompileCallChange snapshot prevEvents prevProcessed =>
    match o.cache with
    | none => .error .nilDereference
    | some c =>
      match revertToSnapshot c.multiStore snapshot with
      | none => .error (.snapshotOutOfBound snapshot)
      | some ms => .ok { o with
          cache := some { multiStore := ms, events := prevEvents }
          processedEventsCount := prevProcessed }
  | .createContractChange a => o.modifyAccount a fun v => { v with newContract := false }

/-- Undo an entry and its dirty count. -/
def undo (e : JournalEntry E) (o : Observation K V E) : Except Panic (Observation K V E) :=
  (undoChange env o e).map fun o => { o with dirties := o.dirties.unmark e.dirtied }

/-- What an operation that appends the entry `e` does to an observation, dirty counts
apart, if it sets only code from `codes`. The entry remembers what it takes to undo the
change. -/
inductive Effect (codes : Set Bytes) (o : Observation K V E) :
    JournalEntry E → Observation K V E → Prop
  | createObject (a : Address) : o.accounts a = none → keeperView env o.ctx a = none →
      Effect codes o (.createObjectChange a) (o.setAccount a (some (freshView env o.ctx a)))
  | resetObject (prev : StateObject) :
      o.accounts prev.address = some (prev.view env o.ctx.reads) →
      prev.CodeLoaded env o.ctx.reads →
      Effect codes o (.resetObjectChange prev) (o.setAccount prev.address
        (some { freshView env o.ctx prev.address with balance := prev.account.balance }))
  | selfDestruct (a : Address) (v : AccountView) : o.accounts a = some v →
      Effect codes o (.selfDestructChange a v.selfDestructed v.balance)
        (o.setAccount a (some { v with selfDestructed := true, balance := 0 }))
  | balance (a : Address) (v : AccountView) (amount : Uint256) : o.accounts a = some v →
      Effect codes o (.balanceChange a v.balance)
        (o.setAccount a (some { v with balance := amount }))
  | nonce (a : Address) (v : AccountView) (nonce : BitVec 64) : o.accounts a = some v →
      Effect codes o (.nonceChange a v.nonce) (o.setAccount a (some { v with nonce := nonce }))
  | storage (a : Address) (v : AccountView) (key value : Hash) : o.accounts a = some v →
      Effect codes o (.storageChange a key (v.state key))
        (o.setAccount a (some { v with state := update v.state key value }))
  | transient (a : Address) (key value : Hash) :
      Effect codes o (.transientStorageChange a key (o.transient a key))
        { o with transient := fun a' key' =>
            if a = a' ∧ key = key' then value else o.transient a' key' }
  | code (a : Address) (v : AccountView) (code : Option Bytes) : o.accounts a = some v →
      code.getD [] ∈ codes →
      resolveCode env o.ctx.reads v.codeHash v.code = v.code →
      Effect codes o (.codeChange a v.code v.codeHash)
        (o.setAccount a (some { v with
          codeHash := env.keccak256 (code.getD [])
          code := resolveCode env o.ctx.reads (env.keccak256 (code.getD [])) code }))
  | refund (refund : BitVec 64) :
      Effect codes o (.refundChange o.refund) { o with refund := refund }
  | addLog (log : Log) : Effect codes o .addLogChange { o with logs := o.logs ++ [log] }
  | addAddress (a : Address) : (o.accessList.addAddress a).2 = true →
      Effect codes o (.accessListAddAccountChange a)
        { o with accessList := (o.accessList.addAddress a).1 }
  | addSlot (a : Address) (slot : Hash) (al : AccessList) : al.WellFormed →
      al.deleteSlot a slot = .ok o.accessList →
      Effect codes o (.accessListAddSlotChange a slot) { o with accessList := al }
  | precompileCall (c c' : CacheContext K V E) (processed : Nat) : o.cache = some c →
      c.Extends c' →
      Effect codes o (.precompileCallChange (snapshot c.multiStore).2 c.events
          o.processedEventsCount)
        { o with cache := some c', processedEventsCount := processed }
  | createContract (a : Address) (v : AccountView) : o.accounts a = some v →
      v.newContract = false →
      Effect codes o (.createContractChange a)
        (o.setAccount a (some { v with newContract := true }))

/-- The change of an observation that goes with the entry `e`. -/
def Change (codes : Set Bytes) (e : JournalEntry E) (o o' : Observation K V E) : Prop :=
  ∃ x, Effect env codes o e x ∧ o' = { x with dirties := o.dirties.mark e.dirtied }

/-- The invariants of observations: a well-formed access list and snapshot store, and
positive dirty counts. -/
structure Good (o : Observation K V E) : Prop where
  accessList : o.accessList.WellFormed
  dirties : ∀ (a : Address) (n : Int), o.dirties[a]? = some n → 0 < n
  cache : ∀ c, o.cache = some c → WellFormed c.multiStore

end Observation

variable [TransOrd K] {d : Dirties} {b : Address}

theorem Dirties.unmark_mark (h : ∀ (a : Address) (n : Int), d[a]? = some n → 0 < n)
    (m : Option Address) : (d.mark m).unmark m = d := by
  cases m with
  | none => rfl
  | some a =>
    have hread : ((d.mark (some a))[a]?).getD 0 - 1 = (d[a]?).getD 0 := by
      simp [mark]
    simp only [unmark, hread]
    apply ext_getElem?
    intro b
    cases hd : d[a]? with
    | none =>
      by_cases hb : a = b
      · subst hb
        simp [hd]
      · simp [mark, hb, getElem?_insert, getElem?_erase]
    | some n =>
      have hn := h a n hd
      have hne : ¬ n = 0 := by omega
      by_cases hb : a = b
      · subst hb
        simp [hd, hne]
      · simp [hne, mark, hb, getElem?_insert]

theorem Dirties.mem_mark_some : b ∈ d.mark (some a) ↔ a = b ∨ b ∈ d := by
  rw [mark, mem_insert, LawfulEqCmp.compare_eq_iff_eq]

theorem Dirties.mem_mark (m : Option Address) (h : b ∈ d) : b ∈ d.mark m := by
  cases m with
  | none => exact h
  | some a => exact mem_mark_some.mpr (Or.inr h)

theorem Dirties.mark_pos (h : ∀ (a : Address) (n : Int), d[a]? = some n → 0 < n)
    (m : Option Address) (a : Address) (n : Int) (hn : (d.mark m)[a]? = some n) : 0 < n := by
  cases m with
  | none => exact h a n hn
  | some b =>
    simp only [mark, getElem?_insert, LawfulEqCmp.compare_eq_iff_eq] at hn
    split at hn
    · cases hn
      cases hb : d[b]? with
      | none => simp
      | some k =>
        have := h b k hb
        simp only [getD_some]
        omega
    · exact h a n hn

namespace Observation

variable {env : Env K V E} {codes : Set Bytes} {o o' x : Observation K V E} {e : JournalEntry E}

section

variable (h : Effect env codes o e x)
include h

theorem undoChange_of_effect : undoChange env x e = .ok o := by
  cases h with
  | createObject a hnone hkeeper =>
    simp only [undoChange, setAccount_setAccount]
    rw [show (o.setAccount a (some (freshView env o.ctx a))).ctx = o.ctx from rfl, hkeeper,
      setAccount_eq_self hnone]
  | resetObject prev hprev _ =>
    simp only [undoChange, setAccount_setAccount]
    exact congrArg Except.ok (setAccount_eq_self hprev)
  | selfDestruct a v hv =>
    simp only [undoChange, setAccount_accounts, setAccount_setAccount]
    exact congrArg Except.ok (setAccount_eq_self hv)
  | balance a v amount hv | nonce a v nonce hv =>
    rw [undoChange, modifyAccount_setAccount]
    exact congrArg Except.ok (setAccount_eq_self hv)
  | storage a v key value hv =>
    rw [undoChange, modifyAccount_setAccount]
    simp only [update_idem, update_eq_self]
    exact congrArg Except.ok (setAccount_eq_self hv)
  | transient a key value =>
    have hback : (fun a' key' => if a = a' ∧ key = key' then o.transient a key else
        if a = a' ∧ key = key' then value else o.transient a' key') = o.transient := by
      funext a' key'
      by_cases h : a = a' ∧ key = key'
      · rw [if_pos h, h.1, h.2]
      · rw [if_neg h, if_neg h]
    simp only [undoChange, hback]
  | code a v code hv _ hcode =>
    rw [undoChange, modifyAccount_setAccount]
    rw [show (o.setAccount a _).ctx = o.ctx from rfl]
    simp only [hcode]
    exact congrArg Except.ok (setAccount_eq_self hv)
  | refund refund => rfl
  | addLog log =>
    simp only [undoChange, List.append_eq_nil_iff, List.cons_ne_self, and_false, if_false,
      List.dropLast_concat]
  | addAddress a hadded =>
    simp only [undoChange, AccessList.deleteAddress_addAddress hadded]
  | addSlot a slot al _ hdel =>
    simp only [undoChange, hdel, Except.map]
  | precompileCall c c' processed hc hext =>
    have hindex : (snapshot c.multiStore).2 = c.multiStore.head := snapshot_snd c.multiStore
    simp only [undoChange, hindex, hext.reverted]
    rw [← hc]
  | createContract a v hv hnew =>
    rw [undoChange, modifyAccount_setAccount, ← hnew]
    exact congrArg Except.ok (setAccount_eq_self hv)

theorem Effect.dirties_eq : x.dirties = o.dirties := by
  cases h <;> rfl

theorem Effect.ctx_eq : x.ctx = o.ctx := by
  cases h <;> rfl

/-- A change leaves the accounts alone, or changes one account and reports it as dirtied,
or replaces an existing account or marks it as a new contract and reports nothing. -/
theorem Effect.accounts_cases :
    (x.accounts = o.accounts ∧ e.dirtied = none ∧ ∀ prev, e ≠ .resetObjectChange prev) ∨
    (∃ a v, x.accounts = update o.accounts a (some v) ∧ e.dirtied = some a) ∨
    (∃ prev v, e = .resetObjectChange prev ∧ o.accounts prev.address = some v ∧
      x.accounts = update o.accounts prev.address
        (some { freshView env o.ctx prev.address with balance := v.balance })) ∨
    ∃ a v, e = .createContractChange a ∧ o.accounts a = some v ∧
      x.accounts = update o.accounts a (some { v with newContract := true }) := by
  cases h with
  | createObject a _ _ | selfDestruct a v _ | balance a v amount _ | nonce a v nonce _
  | storage a v key value _ | code a v code _ _ _ => exact Or.inr (Or.inl ⟨a, _, rfl, rfl⟩)
  | resetObject prev hprev _ => exact Or.inr (Or.inr (Or.inl ⟨prev, _, rfl, hprev, rfl⟩))
  | createContract a v hv _ => exact Or.inr (Or.inr (Or.inr ⟨a, v, rfl, hv, rfl⟩))
  | _ => exact Or.inl ⟨rfl, rfl, fun _ => nofun⟩

end

/-- Every dirty address has an account. -/
def DirtyExist (o : Observation K V E) : Prop := ∀ a, a ∈ o.dirties → o.accounts a ≠ none

theorem update_ne_none {accounts : Address → Option AccountView} {v : AccountView}
    (h : b ≠ a → accounts b ≠ none) : update accounts a (some v) b ≠ none := by
  by_cases hb : b = a
  · rw [hb, update_self]
    exact some_ne_none v
  · rw [update_of_ne hb]
    exact h hb

theorem Change.dirtyExist (ho : o.DirtyExist) (h : Change env codes e o o') : o'.DirtyExist := by
  obtain ⟨x, hx, rfl⟩ := h
  intro b hb
  rcases hx.accounts_cases with ⟨hsame, hnone, -⟩ | ⟨a, v, hset, hdirtied⟩ |
    ⟨prev, v, rfl, -, hset⟩ | ⟨a, v, rfl, -, hset⟩
  · rw [hnone] at hb
    rw [hsame]
    exact ho b hb
  · rw [hset]
    rw [hdirtied] at hb
    refine update_ne_none fun hba => ?_
    rcases mem_mark_some.mp hb with heq | hmem
    · exact absurd heq.symm hba
    · exact ho b hmem
  · rw [hset]
    exact update_ne_none fun _ => ho b hb
  · rw [hset]
    exact update_ne_none fun _ => ho b hb

/-- Every account that is marked as self-destructed is dirty. -/
def DestructedDirty (o : Observation K V E) : Prop :=
  ∀ a v, o.accounts a = some v → v.selfDestructed = true → a ∈ o.dirties

theorem Change.destructedDirty (ho : o.DestructedDirty) (h : Change env codes e o o') :
    o'.DestructedDirty := by
  obtain ⟨x, hx, rfl⟩ := h
  intro b w hw hdead
  rcases hx.accounts_cases with ⟨hsame, -, -⟩ | ⟨a, v, hset, hdirtied⟩ |
    ⟨prev, v, rfl, -, hset⟩ | ⟨a, v, rfl, hv, hset⟩
  · rw [hsame] at hw
    exact mem_mark _ (ho b w hw hdead)
  · rw [hdirtied, mem_mark_some]
    by_cases hb : b = a
    · exact Or.inl hb.symm
    · rw [hset, update_of_ne hb] at hw
      exact Or.inr (ho b w hw hdead)
  -- The account that replaces another is not destructed.
  · by_cases hb : b = prev.address
    · rw [hset, hb, update_self] at hw
      cases hw
      cases hdead
    · rw [hset, update_of_ne hb] at hw
      exact ho b w hw hdead
  · by_cases hb : b = a
    · rw [hset, hb, update_self] at hw
      cases hw
      exact ho b v (hb ▸ hv) hdead
    · rw [hset, update_of_ne hb] at hw
      exact ho b w hw hdead

theorem undoChange_dirties (d : Dirties) : undoChange env { o with dirties := d } e =
      (undoChange env o e).map fun o => { o with dirties := d } := by
  cases e with
  | selfDestructChange a prev prevbalance =>
    simp only [undoChange]
    cases o.accounts a <;> rfl
  | balanceChange a prev | nonceChange a prev | storageChange a key prevalue
  | codeChange a prevcode prevhash | createContractChange a => exact modifyAccount_dirties a _ d
  | addLogChange =>
    simp only [undoChange]
    split <;> rfl
  | accessListAddSlotChange a slot =>
    simp only [undoChange]
    cases o.accessList.deleteSlot a slot <;> rfl
  | precompileCallChange snapshot prevEvents prevProcessed =>
    simp only [undoChange]
    cases o.cache with
    | none => rfl
    | some c =>
      cases hr : revertToSnapshot c.multiStore snapshot <;>
        simp only [hr, Except.map]
  | _ => rfl

/-- An entry undoes its change. -/
theorem undo_of_change (ho : o.Good) (h : Change env codes e o o') : undo env e o' = .ok o := by
  obtain ⟨x, hx, rfl⟩ := h
  rw [undo, undoChange_dirties, undoChange_of_effect hx]
  simp only [Except.map, unmark_mark ho.dirties]

/-- Changes keep the invariants. -/
theorem Change.good (ho : o.Good) (h : Change env codes e o o') : o'.Good := by
  obtain ⟨x, hx, rfl⟩ := h
  have hdirties := mark_pos ho.dirties e.dirtied
  cases hx with
  | addAddress a => exact ⟨AccessList.addAddress_wellFormed ho.accessList a, hdirties, ho.cache⟩
  | addSlot a slot al hal => exact ⟨hal, hdirties, ho.cache⟩
  | precompileCall c c' processed hc hext =>
    refine ⟨ho.accessList, hdirties, ?_⟩
    intro c'' hc''
    cases hc''
    exact hext.wellFormed
  | _ => exact ⟨ho.accessList, hdirties, ho.cache⟩

end Observation

namespace StateDB

variable (env : Env K V E)

/-- The object an address stands for: the live one, or a fresh one of the keeper's account. -/
def lookup (s : StateDB K V E) (a : Address) : Option StateObject :=
  (s.stateObjects[a]?).or ((env.getAccount s.ctx.reads a).map (newObject a))

/-- The observation of a database. -/
def observe (s : StateDB K V E) : Observation K V E where
  ctx := s.ctx
  accounts := fun a => (s.lookup env a).map (view env s.ctx.reads)
  transient := s.transientStorage.get
  refund := s.refund
  logs := s.logs
  accessList := s.accessList
  dirties := s.journal.dirties
  cache := s.cache
  processedEventsCount := s.processedEventsCount

/-- Every live object is kept under its own address, with code it set or loaded. -/
structure Tidy (s : StateDB K V E) : Prop where
  address : ∀ (a : Address) (obj : StateObject), s.stateObjects[a]? = some obj → obj.address = a
  code : ∀ (a : Address) (obj : StateObject), s.stateObjects[a]? = some obj →
    obj.CodeLoaded env s.ctx.reads

/-- The fields no journaled change and no revert of one touches. -/
def frame (s : StateDB K V E) : Context K V E × List Revision × Int × Nat :=
  (s.ctx, s.validRevisions, s.nextRevisionID, s.txIndex)

variable {s t : StateDB K V E} {obj : StateObject} {e : JournalEntry E}

theorem lookup_address (h : Tidy env s) (hobj : s.lookup env a = some obj) : obj.address = a := by
  unfold lookup at hobj
  cases hlive : s.stateObjects[a]? with
  | some live =>
    rw [hlive, some_or] at hobj
    obtain rfl := some.inj hobj
    exact h.address a live hlive
  | none =>
    rw [hlive, none_or, map_eq_some_iff] at hobj
    obtain ⟨account, -, rfl⟩ := hobj
    rfl

theorem lookup_codeLoaded (h : Tidy env s) (hobj : s.lookup env a = some obj) :
    obj.CodeLoaded env s.ctx.reads := by
  unfold lookup at hobj
  cases hlive : s.stateObjects[a]? with
  | some live =>
    rw [hlive, some_or] at hobj
    obtain rfl := some.inj hobj
    exact h.code a live hlive
  | none =>
    rw [hlive, none_or, map_eq_some_iff] at hobj
    obtain ⟨account, -, rfl⟩ := hobj
    exact fun _ => Or.inl rfl

theorem setStateObject_tidy (h : Tidy env s) (hcode : obj.CodeLoaded env s.ctx.reads) :
    Tidy env (s.setStateObject obj) := by
  constructor
  · intro a obj' hobj'
    simp only [setStateObject, getElem?_insert, LawfulEqCmp.compare_eq_iff_eq] at hobj'
    split at hobj'
    · cases hobj'
      assumption
    · exact h.address a obj' hobj'
  · intro a obj' hobj'
    simp only [setStateObject, getElem?_insert, LawfulEqCmp.compare_eq_iff_eq] at hobj'
    split at hobj'
    · cases hobj'
      exact hcode
    · exact h.code a obj' hobj'

theorem lookup_setStateObject (s : StateDB K V E) (obj : StateObject) (a : Address) :
    (s.setStateObject obj).lookup env a =
      if obj.address = a then some obj else s.lookup env a := by
  simp only [lookup, setStateObject, getElem?_insert, LawfulEqCmp.compare_eq_iff_eq]
  split <;> rfl

/-- Setting an object is observed at its address only. -/
theorem observe_setStateObject (s : StateDB K V E) (obj : StateObject) :
    (s.setStateObject obj).observe env =
      (s.observe env).setAccount obj.address (some (obj.view env s.ctx.reads)) := by
  have haccounts : ((s.setStateObject obj).observe env).accounts =
      update (s.observe env).accounts obj.address (some (obj.view env s.ctx.reads)) := by
    funext a
    simp only [observe, lookup_setStateObject]
    by_cases ha : obj.address = a
    · subst ha
      simp
      rfl
    · have ha' : a ≠ obj.address := fun h => ha h.symm
      simp only [ha, if_false, update_of_ne ha']
      rfl
  rw [Observation.setAccount, ← haccounts]
  rfl

/-- `getStateObject` finds the object the address stands for. -/
theorem getStateObject_fst (s : StateDB K V E) (a : Address) :
    (s.getStateObject env a).1 = s.lookup env a := by
  unfold getStateObject lookup
  cases s.stateObjects[a]? with
  | some obj => rfl
  | none => cases env.getAccount s.ctx.reads a <;> rfl

/-- `getStateObject` at most loads that object. -/
theorem getStateObject_snd (s : StateDB K V E) (a : Address) :
    (s.getStateObject env a).2 = s ∨ ∃ obj, s.lookup env a = some obj ∧
      obj.address = a ∧ (s.getStateObject env a).2 = s.setStateObject obj := by
  unfold getStateObject lookup
  cases s.stateObjects[a]? with
  | some obj => exact Or.inl rfl
  | none =>
    cases env.getAccount s.ctx.reads a with
    | none => exact Or.inl rfl
    | some account => exact Or.inr ⟨_, rfl, rfl, rfl⟩

/-- Setting an object that answers like the one before is not observed. -/
theorem observe_setStateObject_same {obj' : StateObject} (hobj : s.lookup env a = some obj)
    (ha : obj'.address = a) (hview : obj'.view env s.ctx.reads = obj.view env s.ctx.reads) :
    (s.setStateObject obj').observe env = s.observe env := by
  have hacc : (s.observe env).accounts a = some (obj.view env s.ctx.reads) := by
    simp only [observe, hobj, map_some]
  rw [observe_setStateObject, hview, ha, ← hacc, Observation.setAccount_self]

theorem observe_getStateObject (s : StateDB K V E) (a : Address) :
    (s.getStateObject env a).2.observe env = s.observe env := by
  rcases getStateObject_snd env s a with h | ⟨obj, hobj, ha, h⟩
  · rw [h]
  · rw [h]
    exact observe_setStateObject_same env hobj ha rfl

theorem getStateObject_tidy (h : Tidy env s) (a : Address) :
    Tidy env (s.getStateObject env a).2 := by
  rcases getStateObject_snd env s a with h' | ⟨obj, hobj, -, h'⟩
  · rw [h']
    exact h
  · rw [h']
    exact setStateObject_tidy env h (lookup_codeLoaded env h hobj)

theorem getStateObject_frame (s : StateDB K V E) (a : Address) :
    (s.getStateObject env a).2.frame = s.frame ∧
      (s.getStateObject env a).2.journal = s.journal := by
  rcases getStateObject_snd env s a with h' | ⟨obj, -, -, h'⟩ <;> rw [h'] <;> exact ⟨rfl, rfl⟩

theorem getStateObject_ctx (s : StateDB K V E) (a : Address) :
    (s.getStateObject env a).2.ctx = s.ctx :=
  congrArg Prod.fst (getStateObject_frame env s a).1

theorem observe_accounts (s : StateDB K V E) (a : Address) :
    (s.observe env).accounts a = (s.lookup env a).map (view env s.ctx.reads) := rfl

/-! ## Reverting an entry is undoing it -/

theorem modifyObject_observe (h : Tidy env s) (a : Address) {f : StateObject → StateObject}
    {g : AccountView → AccountView} (haddr : ∀ obj, (f obj).address = obj.address)
    (hview : ∀ obj, (f obj).view env s.ctx.reads = g (obj.view env s.ctx.reads)) :
    (s.modifyObject env a f).map (observe env) = (s.observe env).modifyAccount a g := by
  have hfst := getStateObject_fst env s a
  have hobs := observe_getStateObject env s a
  have hframe := (getStateObject_frame env s a).1
  unfold modifyObject Observation.modifyAccount
  rw [observe_accounts, ← hfst]
  generalize s.getStateObject env a = res at hfst hobs hframe
  obtain ⟨obj?, s'⟩ := res
  have hctx : s'.ctx = s.ctx := congrArg Prod.fst hframe
  cases obj? with
  | none => rfl
  | some obj =>
    have hfaddr : (f obj).address = a := (haddr obj).trans (lookup_address env h hfst.symm)
    simp only [Except.map, map_some, Except.ok.injEq]
    rw [observe_setStateObject, hobs, hctx, hfaddr, hview]

theorem revertEntry_observe (h : Tidy env s) (e : JournalEntry E) :
    (s.revertEntry env e).map (observe env) = Observation.undoChange env (s.observe env) e := by
  cases e with
  | createObjectChange a =>
    have haccounts : (observe env { s with stateObjects := s.stateObjects.erase a }).accounts =
        update (s.observe env).accounts a (Observation.keeperView env s.ctx a) := by
      funext b
      by_cases hb : a = b
      · subst hb
        simp [observe, lookup, Observation.keeperView, comp_def]
      · have hb' : b ≠ a := fun hba => hb hba.symm
        simp [observe, lookup, update_of_ne hb', getElem?_erase, hb]
    simp only [revertEntry, Observation.undoChange, Observation.setAccount, Except.map,
      Except.ok.injEq]
    rw [show (s.observe env).ctx = s.ctx from rfl, ← haccounts]
    rfl
  | resetObjectChange prev =>
    simp only [revertEntry, Observation.undoChange, Except.map, observe_setStateObject]
    rfl
  | selfDestructChange a prev prevbalance =>
    have hfst := getStateObject_fst env s a
    have hobs := observe_getStateObject env s a
    have hctx : (s.getStateObject env a).2.ctx = s.ctx :=
      congrArg Prod.fst (getStateObject_frame env s a).1
    simp only [revertEntry, Observation.undoChange]
    rw [observe_accounts, ← hfst]
    generalize s.getStateObject env a = res at hfst hobs hctx
    obtain ⟨obj?, s'⟩ := res
    cases obj? with
    | none => simp only [Except.map, map_none, hobs]
    | some obj =>
      have haddr : obj.address = a := lookup_address env h hfst.symm
      simp only [Except.map, map_some, Except.ok.injEq]
      rw [observe_setStateObject, hobs]
      change Observation.setAccount _ obj.address _ = _
      rw [haddr, hctx]
      rfl
  | balanceChange a prev | nonceChange a prev | codeChange a prevcode prevhash
  | createContractChange a =>
    exact modifyObject_observe env h a (fun _ => rfl) (fun _ => rfl)
  | storageChange a key prevalue =>
    exact modifyObject_observe env h a (fun _ => rfl)
      (fun obj => view_setState env s.ctx.reads obj key prevalue)
  | transientStorageChange a key prevalue =>
    have htransient : (s.transientStorage.set a key prevalue).get = fun a' key' =>
        if a = a' ∧ key = key' then prevalue else s.transientStorage.get a' key' := by
      funext a' key'
      exact TransientStorage.get_set s.transientStorage a a' key key' prevalue
    simp only [revertEntry, Observation.undoChange, Except.map, observe, htransient]
    rfl
  | refundChange prev => rfl
  | accessListAddAccountChange a => rfl
  | addLogChange =>
    simp only [revertEntry, Observation.undoChange]
    rw [show (s.observe env).logs = s.logs from rfl]
    split <;> rfl
  | accessListAddSlotChange a slot =>
    simp only [revertEntry, Observation.undoChange]
    rw [show (s.observe env).accessList = s.accessList from rfl]
    cases s.accessList.deleteSlot a slot <;> rfl
  | precompileCallChange snapshot prevEvents prevProcessed =>
    simp only [revertEntry, Observation.undoChange, revertMultiStore]
    rw [show (s.observe env).cache = s.cache from rfl]
    cases s.cache with
    | none => rfl
    | some c =>
      cases hr : SnapshotMulti.revertToSnapshot c.multiStore snapshot with
      | none => simp only [hr, Except.map]
      | some ms =>
        simp only [hr, Except.map]
        rfl

/-- What undoing an entry does to the objects. -/
inductive Reverts (env : Env K V E) (s : StateDB K V E) : JournalEntry E → StateDB K V E → Prop
  | erase (a : Address) :
    Reverts env s (.createObjectChange a) { s with stateObjects := s.stateObjects.erase a }
  | reset (prev : StateObject) : Reverts env s (.resetObjectChange prev) (s.setStateObject prev)
  | modify {e : JournalEntry E} (a : Address) {obj obj' : StateObject} {t : StateDB K V E}
      (hfound : s.getStateObject env a = (some obj, t))
      (hcode : ∀ r, obj.CodeLoaded env r → obj'.CodeLoaded env r) :
    Reverts env s e (t.setStateObject obj')
  | keep {e : JournalEntry E} {t : StateDB K V E} (hobjects : t.stateObjects = s.stateObjects)
      (hframe : t.frame = s.frame) (hjournal : t.journal = s.journal) : Reverts env s e t

theorem revertEntry_reverts (ht : s.revertEntry env e = .ok t) : Reverts env s e t := by
  have hmodify : ∀ {a : Address} {f : StateObject → StateObject},
      s.modifyObject env a f = .ok t →
      (∀ obj r, obj.CodeLoaded env r → (f obj).CodeLoaded env r) → Reverts env s e t := by
    intro a f hf hcode
    unfold modifyObject at hf
    split at hf
    · cases hf
    · rename_i obj u hfound
      cases hf
      exact .modify a hfound (hcode obj)
  cases e with
  | createObjectChange a =>
    cases ht
    exact .erase a
  | resetObjectChange prev =>
    cases ht
    exact .reset prev
  | selfDestructChange a prev prevbalance =>
    simp only [revertEntry] at ht
    split at ht
    · rename_i u hnone
      cases ht
      have hlookup := getStateObject_fst env s a
      have hsame := getStateObject_snd env s a
      rw [hnone] at hlookup hsame
      obtain rfl | ⟨obj, hobj, -, -⟩ := hsame
      · exact .keep rfl rfl rfl
      · cases hlookup.trans hobj
    · rename_i obj u hfound
      cases ht
      exact .modify a hfound fun _ hobj => hobj
  | balanceChange | nonceChange | storageChange | createContractChange =>
    exact hmodify ht fun _ _ hobj => hobj
  | codeChange => exact hmodify ht fun _ _ _ hdirty => by cases hdirty
  | transientStorageChange | refundChange | accessListAddAccountChange =>
    cases ht
    exact .keep rfl rfl rfl
  | addLogChange =>
    simp only [revertEntry] at ht
    split at ht
    · cases ht
    · cases ht
      exact .keep rfl rfl rfl
  | accessListAddSlotChange a slot =>
    obtain ⟨al, hd, rfl⟩ := Outcomes.map_eq_ok.mp ht
    exact .keep rfl rfl rfl
  | precompileCallChange snapshot prevEvents prevProcessed =>
    simp only [revertEntry, revertMultiStore] at ht
    split at ht
    · cases ht
    · split at ht
      · cases ht
      · cases ht
        exact .keep rfl rfl rfl

theorem Reverts.tidy (h : Tidy env s) (ht : Reverts env s e t)
    (he : ∀ prev, e = .resetObjectChange prev → prev.CodeLoaded env s.ctx.reads) :
    Tidy env t ∧ t.frame = s.frame ∧ t.journal = s.journal := by
  cases ht with
  | erase a =>
    have hsub : ∀ (b : Address) (obj : StateObject),
        (s.stateObjects.erase a)[b]? = some obj → s.stateObjects[b]? = some obj := by
      intro b obj hobj
      rw [getElem?_erase] at hobj
      split at hobj
      · cases hobj
      · exact hobj
    exact ⟨⟨fun b obj hobj => h.address b obj (hsub b obj hobj),
      fun b obj hobj => h.code b obj (hsub b obj hobj)⟩, rfl, rfl⟩
  | reset prev => exact ⟨setStateObject_tidy env h (he prev rfl), rfl, rfl⟩
  | modify a hfound hcode =>
    have hlookup := getStateObject_fst env s a
    have htidy := getStateObject_tidy env h a
    obtain ⟨hframe, hjournal⟩ := getStateObject_frame env s a
    have hctx := getStateObject_ctx env s a
    rw [hfound] at hlookup htidy hframe hjournal hctx
    refine ⟨setStateObject_tidy env htidy (hcode _ ?_), hframe, hjournal⟩
    rw [hctx]
    exact lookup_codeLoaded env h hlookup.symm
  | keep hobjects hframe hjournal =>
    have hctx : t.ctx = s.ctx := congrArg Prod.fst hframe
    refine ⟨⟨?_, ?_⟩, hframe, hjournal⟩
    · rw [hobjects]
      exact h.address
    · rw [hobjects, hctx]
      exact h.code

/-- Only the entry of a new object takes a live object away. -/
theorem Reverts.mem (ht : Reverts env s e t) (ha : a ∈ s.stateObjects)
    (hne : e ≠ .createObjectChange a) : a ∈ t.stateObjects := by
  cases ht with
  | erase b =>
    refine mem_erase.mpr ⟨fun hb => hne ?_, ha⟩
    rw [LawfulEqCmp.eq_of_compare hb]
  | reset prev => exact mem_insert.mpr (Or.inr ha)
  | modify b hfound =>
    refine mem_insert.mpr (Or.inr ?_)
    have hsnd := getStateObject_snd env s b
    rw [hfound] at hsnd
    obtain rfl | ⟨obj, -, -, rfl⟩ := hsnd
    · exact ha
    · exact mem_insert.mpr (Or.inr ha)
  | keep hobjects =>
    rw [hobjects]
    exact ha

theorem undoEntry_observe (h : Tidy env s) (e : JournalEntry E) :
    (s.undoEntry env e).map (observe env) = Observation.undo env e (s.observe env) := by
  have hrev := revertEntry_observe env h e
  unfold undoEntry Observation.undo
  rw [← hrev]
  cases s.revertEntry env e <;> rfl

/-- Undoing the entry of a change in a database takes it back along the change. -/
theorem undoEntry_of_change (h : Tidy env s) {codes : Set Bytes} {o : Observation K V E}
    (ho : o.Good) (hc : Observation.Change env codes e o (s.observe env)) :
    ∃ t, s.undoEntry env e = .ok t ∧ t.observe env = o ∧ Tidy env t ∧ t.frame = s.frame ∧
      t.journal.entries = s.journal.entries ∧
      ∀ a, a ∈ s.stateObjects → e ≠ .createObjectChange a → a ∈ t.stateObjects := by
  have hobs := undoEntry_observe env h e
  rw [Observation.undo_of_change ho hc] at hobs
  have he : ∀ prev, e = .resetObjectChange prev → prev.CodeLoaded env s.ctx.reads := by
    rintro prev rfl
    obtain ⟨x, hx, heq⟩ := hc
    have hctx : s.ctx = o.ctx := (congrArg Observation.ctx heq).trans hx.ctx_eq
    cases hx with
    | resetObject _ _ hcode =>
      rw [hctx]
      exact hcode
  obtain ⟨t, hundo, hobs⟩ := Outcomes.map_eq_ok.mp hobs
  obtain ⟨u, hr, rfl⟩ := Outcomes.map_eq_ok.mp hundo
  obtain ⟨ht, hf, hj⟩ := (revertEntry_reverts env hr).tidy env h he
  have hentries : u.journal.entries = s.journal.entries := congrArg Journal.entries hj
  exact ⟨_, hundo, hobs, ⟨ht.address, ht.code⟩, hf, hentries,
    fun a ha hne => (revertEntry_reverts env hr).mem env ha hne⟩

end StateDB

end InfiniteEvm
