import InfiniteEvm.StateDB.Observation

/-!
# Every change is journaled

An operation follows its starting state when it makes one change of the observation for
each journal entry it appends, with code from a given set. Each operation of the database
does so, and getters change nothing that can be observed.
-/

namespace InfiniteEvm.StateDB

open Std Library SnapshotMulti UndoLog Observation StateObject ExtTreeMap

variable {K V E : Type*} {env : Env K V E} {r : Reads K V} {obj obj' : StateObject}

theorem getCommittedState_codeLoaded (h : obj.CodeLoaded env r) (key : Hash) :
    (StateObject.getCommittedState env r obj key).2.CodeLoaded env r := by
  rcases StateObject.getCommittedState_snd env r obj key with heq | ⟨-, -, heq⟩
  · rw [heq]
    exact h
  · rw [heq]
    exact h

theorem getState_codeLoaded (h : obj.CodeLoaded env r) (key : Hash) :
    (StateObject.getState env r obj key).2.CodeLoaded env r := by
  rcases StateObject.getState_snd env r obj key with heq | heq
  · rw [heq]
    exact h
  · rw [heq]
    exact getCommittedState_codeLoaded h key

theorem getCode_codeLoaded (h : obj.CodeLoaded env r) :
    (StateObject.getCode env r obj).2.CodeLoaded env r := by
  unfold StateObject.getCode
  cases obj.code with
  | some code => exact h
  | none =>
    simp only
    split
    · exact h
    · exact fun _ => Or.inr rfl

variable [Ord K] {s : StateDB K V E}

/-- Every dirty address has a live object. -/
def Live (s : StateDB K V E) : Prop := ∀ a, a ∈ s.journal.dirties → a ∈ s.stateObjects

theorem live_setStateObject (h : Live s) (obj : StateObject) : Live (s.setStateObject obj) := by
  intro a ha
  exact mem_insert.mpr (Or.inr (h a ha))

/-- The later of two objects under one address stays. -/
theorem setStateObject_setStateObject (s : StateDB K V E) (h : obj.address = obj'.address) :
    (s.setStateObject obj).setStateObject obj' = s.setStateObject obj' := by
  simp only [setStateObject, StateDB.mk.injEq, and_self, and_true, true_and]
  apply ext_getElem?
  intro b
  by_cases hb : obj'.address = b <;> simp [getElem?_insert, h, hb]

variable [TransOrd K] (env) (codes : Set Bytes)

/-- The state `t` is reached from `s` by journaled changes that set code of `codes`. -/
structure Follows (s t : StateDB K V E) : Prop where
  tidy : Tidy env t
  frame : t.frame = s.frame
  cache : t.cache = s.cache ∧ t.processedEventsCount = s.processedEventsCount
  recorded : Recorded (Change env codes)
    (s.journal.entries, s.observe env) (t.journal.entries, t.observe env)
  live : Live s → Live t

/-- The invariants every operation starts from. -/
structure Sound (s : StateDB K V E) : Prop where
  tidy : Tidy env s
  good : (s.observe env).Good

variable {env} {codes} {t u : StateDB K V E} {e : JournalEntry E}

theorem good_of_recorded {a b : List (JournalEntry E) × Observation K V E}
    (h : Recorded (Change env codes) a b) (ha : a.2.Good) : b.2.Good :=
  h.invariant (fun x => x.2.Good) (fun _ _ _ _ hg hc => hc.good hg) ha

theorem Follows.sound (h : Follows env codes s t) (hs : Sound env s) : Sound env t where
  tidy := h.tidy
  good := good_of_recorded h.recorded hs.good

theorem Follows.trans (hst : Follows env codes s t) (htu : Follows env codes t u) :
    Follows env codes s u where
  tidy := htu.tidy
  frame := htu.frame.trans hst.frame
  cache := ⟨htu.cache.1.trans hst.cache.1, htu.cache.2.trans hst.cache.2⟩
  recorded := hst.recorded.trans htu.recorded
  live := fun h => htu.live (hst.live h)

theorem Follows.ctx_eq (h : Follows env codes s t) : t.ctx = s.ctx := congrArg Prod.fst h.frame

/-- A change that is neither journaled nor observed. -/
theorem follows_of_observe_eq (ht : Tidy env t) (hframe : t.frame = s.frame)
    (hjournal : t.journal = s.journal) (hobs : t.observe env = s.observe env)
    (hlive : Live s → Live t) : Follows env codes s t where
  tidy := ht
  frame := hframe
  cache := ⟨congrArg Observation.cache hobs, congrArg Observation.processedEventsCount hobs⟩
  recorded := by
    rw [hjournal, hobs]
    exact .refl
  live := hlive

theorem Sound.follows (hs : Sound env s) : Follows env codes s s :=
  follows_of_observe_eq hs.tidy rfl rfl rfl id

/-- A change of something other than an object, with its entry. -/
theorem follows_of_effect (hs : Sound env s) {x : Observation K V E}
    (hx : Effect env codes (s.observe env) e x) (hframe : t.frame = s.frame)
    (hcache : t.cache = s.cache ∧ t.processedEventsCount = s.processedEventsCount)
    (hobjects : t.stateObjects = s.stateObjects) (he : e.dirtied = none)
    (hentries : t.journal.entries = s.journal.entries ++ [e])
    (hdirties : t.journal.dirties = s.journal.dirties) (hobs : t.observe env = x) :
    Follows env codes s t where
  tidy := by
    have hctx : t.ctx = s.ctx := congrArg Prod.fst hframe
    exact ⟨by rw [hobjects]; exact hs.tidy.address, by rw [hobjects, hctx]; exact hs.tidy.code⟩
  frame := hframe
  cache := hcache
  recorded := by
    rw [hentries, hobs]
    refine .record e .refl ⟨x, hx, ?_⟩
    rw [he]
    change x = { x with dirties := s.journal.dirties }
    rw [show s.journal.dirties = x.dirties from hx.dirties_eq.symm]
  live := by
    intro h a ha
    rw [hdirties] at ha
    rw [hobjects]
    exact h a ha

/-- Journal `e`, then put an object under its address. -/
theorem follows_append_setStateObject (hs : Sound env s) (obj : StateObject)
    (hcode : obj.CodeLoaded env s.ctx.reads) (hx : Effect env codes (s.observe env) e
      ((s.observe env).setAccount obj.address (some (obj.view env s.ctx.reads))))
    (he : e.dirtied = none ∨ e.dirtied = some obj.address) :
    Follows env codes s ((s.append e).setStateObject obj) where
  tidy := by
    have htidy : Tidy env (s.append e) := ⟨hs.tidy.address, hs.tidy.code⟩
    exact setStateObject_tidy env htidy hcode
  frame := rfl
  cache := ⟨rfl, rfl⟩
  recorded := by
    refine .record e .refl ⟨_, hx, ?_⟩
    rw [observe_setStateObject]
    rfl
  live := by
    intro h a ha
    refine mem_insert.mpr ?_
    rcases he with he | he
    · have ha' : a ∈ s.journal.dirties.mark e.dirtied := ha
      rw [he] at ha'
      exact Or.inr (h a ha')
    · have ha' : a ∈ s.journal.dirties.mark e.dirtied := ha
      rw [he] at ha'
      rcases mem_insert.mp ha' with heq | hmem
      · exact Or.inl heq
      · exact Or.inr (h a hmem)

variable {a : Address}

theorem accounts_of_lookup (h : s.lookup env a = some obj) :
    (s.observe env).accounts a = some (obj.view env s.ctx.reads) := by
  rw [observe_accounts, h, Option.map_some]

/-! ## Objects -/

theorem getStateObject_follows (hs : Sound env s) (a : Address) :
    Follows env codes s (s.getStateObject env a).2 := by
  refine follows_of_observe_eq (getStateObject_tidy env hs.tidy a) (getStateObject_frame env s a).1
    (getStateObject_frame env s a).2 (observe_getStateObject env s a) ?_
  intro h
  rcases getStateObject_snd env s a with h' | ⟨obj, -, -, h'⟩
  · rw [h']
    exact h
  · rw [h']
    exact live_setStateObject h obj

theorem lookup_getStateObject (env : Env K V E) (s : StateDB K V E) (a : Address) :
    (s.getStateObject env a).2.lookup env a = (s.getStateObject env a).1 := by
  rw [getStateObject_fst]
  rcases getStateObject_snd env s a with h | ⟨obj, hobj, ha, h⟩
  · rw [h]
  · rw [h, lookup_setStateObject, if_pos ha, hobj]

/-- The object `obj` of the account `a`, loaded into `t` without a visible change. -/
structure Loaded (env : Env K V E) (codes : Set Bytes) (s t : StateDB K V E) (a : Address)
    (obj : StateObject) : Prop where
  follows : Follows env codes s t
  lookup : t.lookup env a = some obj

section

variable (h : Loaded env codes s t a obj)
include h

theorem Loaded.address : obj.address = a :=
  lookup_address env h.follows.tidy h.lookup

theorem Loaded.codeLoaded : obj.CodeLoaded env t.ctx.reads :=
  lookup_codeLoaded env h.follows.tidy h.lookup

/-- Journal `e`, then put a change of the loaded object under its address. -/
theorem Loaded.append (hs : Sound env s) (obj' : StateObject)
    (hcode : obj'.CodeLoaded env t.ctx.reads) (hx : Effect env codes (t.observe env) e
      ((t.observe env).setAccount obj'.address (some (obj'.view env t.ctx.reads))))
    (he : e.dirtied = none ∨ e.dirtied = some obj'.address) :
    Follows env codes s ((t.append e).setStateObject obj') :=
  h.follows.trans (follows_append_setStateObject (h.follows.sound hs) obj' hcode hx he)

/-- Put an object that looks like the loaded one in its place. -/
theorem Loaded.same (haddr : obj'.address = obj.address)
    (hview : obj'.view env t.ctx.reads = obj.view env t.ctx.reads)
    (hcode : obj'.CodeLoaded env t.ctx.reads) : Follows env codes s (t.setStateObject obj') :=
  h.follows.trans (follows_of_observe_eq (setStateObject_tidy env h.follows.tidy hcode) rfl rfl
    (observe_setStateObject_same env h.lookup (haddr.trans h.address) hview)
    (fun hlive => live_setStateObject hlive obj'))

end

/-- `getStateObject` finds nothing, or loads the object it returns. -/
theorem getStateObject_cases (codes : Set Bytes) (hs : Sound env s) (a : Address) :
    (∃ t, s.getStateObject env a = (none, t) ∧ Follows env codes s t ∧ t.lookup env a = none) ∨
      ∃ obj t, s.getStateObject env a = (some obj, t) ∧ Loaded env codes s t a obj := by
  have hload : Follows env codes s _ := getStateObject_follows hs a
  have hl := lookup_getStateObject env s a
  cases hres : s.getStateObject env a with
  | mk obj? t =>
    rw [hres] at hload hl
    cases obj? with
    | none => exact Or.inl ⟨t, rfl, hload, hl⟩
    | some obj => exact Or.inr ⟨obj, t, rfl, hload, hl⟩

/-- A new object at an address without an account. -/
theorem createObject_cases (codes : Set Bytes) (hs : Sound env s) (a : Address) :
    (∃ obj t, s.createObject env a = (obj, none, t) ∧ Loaded env codes s t a obj) ∨
      ∃ prev t, s.createObject env a = (newObject a (zeroAccount env), some prev,
        (t.append (.resetObjectChange prev)).setStateObject
          (newObject a (zeroAccount env))) ∧ s.lookup env a = some prev ∧
        Loaded env codes s t a prev := by
  obtain ⟨t, hfound, hload, hlook⟩ | ⟨prev, t, hfound, hload⟩ := getStateObject_cases codes hs a
  · refine Or.inl ⟨_, _, by rw [createObject, hfound], ?_, ?_⟩
    · have hkeeper : keeperView env t.ctx a = none := by
        rw [lookup, Option.or_eq_none_iff, Option.map_eq_none_iff] at hlook
        rw [keeperView, hlook.2, Option.map_none]
      refine hload.trans (follows_append_setStateObject (hload.sound hs)
        (newObject a (zeroAccount env)) (fun _ => Or.inl rfl)
        (.createObject a ?_ hkeeper) (Or.inr rfl))
      rw [observe_accounts, hlook, Option.map_none]
    · rw [lookup_setStateObject]
      exact if_pos rfl
  · have hprev := (getStateObject_fst env s a).symm.trans (congrArg Prod.fst hfound)
    exact Or.inr ⟨prev, t, by rw [createObject, hfound], hprev, hload⟩

/-- `CreateAccount` over an account keeps its balance. -/
theorem createAccount_follows (hs : Sound env s) (a : Address) :
    Follows env codes s (s.createAccount env a) := by
  obtain ⟨obj, t, hnew, hload⟩ | ⟨prev, t, hnew, -, hload⟩ := createObject_cases codes hs a
  · rw [createAccount, hnew]
    exact hload.follows
  · obtain rfl := hload.address
    rw [createAccount, hnew]
    simp only
    rw [setStateObject_setStateObject]
    · exact hload.append hs _ (fun _ => Or.inl rfl)
        (.resetObject prev (accounts_of_lookup hload.lookup) hload.codeLoaded) (Or.inl rfl)
    · rfl

/-- `getOrNewStateObject` ends with the object live under its address. -/
theorem getOrNewStateObject_loaded (codes : Set Bytes) (hs : Sound env s) (a : Address) :
    ∃ obj t, s.getOrNewStateObject env a = (obj, t) ∧ Loaded env codes s t a obj := by
  obtain ⟨t, hfound, hf, hlook⟩ | ⟨obj, t, hfound, hload⟩ := getStateObject_cases codes hs a
  · rw [getOrNewStateObject, hfound]
    obtain ⟨obj, u, hnew, hload⟩ | ⟨prev, u, -, hprev, -⟩ :=
      createObject_cases codes (hf.sound hs) a
    · simp only [hnew]
      exact ⟨obj, u, rfl, hf.trans hload.follows, hload.lookup⟩
    · rw [hlook] at hprev
      cases hprev
  · exact ⟨obj, t, by rw [getOrNewStateObject, hfound], hload⟩

theorem getOrNewStateObject_follows (hs : Sound env s) (a : Address) :
    Loaded env codes s (s.getOrNewStateObject env a).2 a (s.getOrNewStateObject env a).1 := by
  obtain ⟨obj, t, hfound, hload⟩ := getOrNewStateObject_loaded codes hs a
  rw [hfound]
  exact hload

/-! ## Setters -/

theorem Loaded.setObjectBalance (hs : Sound env s) (h : Loaded env codes s t a obj)
    (amount : Uint256) : Follows env codes s (t.setObjectBalance obj amount).2 := by
  obtain rfl := h.address
  exact h.append hs (obj.setBalance amount) h.codeLoaded
    (.balance _ _ amount (accounts_of_lookup h.lookup)) (Or.inr rfl)

theorem addBalance_follows (hs : Sound env s) (a : Address) (amount : Uint256) :
    Follows env codes s (s.addBalance env a amount).2 := by
  obtain ⟨obj, t, hfound, hload⟩ := getOrNewStateObject_loaded codes hs a
  simp only [addBalance, hfound]
  split
  · exact hload.follows
  · exact hload.setObjectBalance hs _

theorem subBalance_follows (hs : Sound env s) (a : Address) (amount : Uint256) :
    Follows env codes s (s.subBalance env a amount).2 := by
  obtain ⟨obj, t, hfound, hload⟩ := getOrNewStateObject_loaded codes hs a
  simp only [subBalance, hfound]
  split
  · exact hload.follows
  · exact hload.setObjectBalance hs _

theorem setBalance_follows (hs : Sound env s) (a : Address) (amount : Uint256) :
    Follows env codes s (s.setBalance env a amount) := by
  obtain ⟨obj, t, hfound, hload⟩ := getOrNewStateObject_loaded codes hs a
  simp only [setBalance, hfound]
  exact hload.setObjectBalance hs amount

theorem setNonce_follows (hs : Sound env s) (a : Address) (nonce : BitVec 64) :
    Follows env codes s (s.setNonce env a nonce) := by
  obtain ⟨obj, t, hfound, hload⟩ := getOrNewStateObject_loaded codes hs a
  obtain rfl := hload.address
  simp only [setNonce, hfound]
  exact hload.append hs (obj.setNonce nonce) hload.codeLoaded
    (.nonce _ _ nonce (accounts_of_lookup hload.lookup)) (Or.inr rfl)

theorem setCode_follows (hs : Sound env s) (a : Address) {code : Option Bytes}
    (hknown : code.getD [] ∈ codes) : Follows env codes s (s.setCode env a code).2 := by
  obtain ⟨obj, t, hfound, hload⟩ := getOrNewStateObject_loaded codes hs a
  obtain rfl := hload.address
  simp only [setCode, hfound]
  have haddr := StateObject.getCode_address env t.ctx.reads obj
  have hview := StateObject.view_getCode env t.ctx.reads obj
  have hcode := StateObject.getCode_fst env t.ctx.reads obj
  generalize StateObject.getCode env t.ctx.reads obj = loaded at haddr hview hcode
  obtain ⟨prevcode, obj'⟩ := loaded
  obtain rfl : prevcode = (obj.view env t.ctx.reads).code := hcode
  have hhash : obj'.account.codeHash = (obj.view env t.ctx.reads).codeHash :=
    congrArg AccountView.codeHash hview
  refine hload.append hs (obj'.setCode (env.keccak256 (code.getD [])) code)
    (fun hdirty => by cases hdirty) ?_ (Or.inr rfl)
  have haddr' : (obj'.setCode (env.keccak256 (code.getD [])) code).address = obj.address := haddr
  rw [haddr', StateObject.view_setCode, hview, hhash, show obj'.address = obj.address from haddr]
  exact .code obj.address _ code (accounts_of_lookup hload.lookup) hknown
    (StateObject.resolveCode_resolveCode env t.ctx.reads obj.account.codeHash obj.code)

section

variable (hs : Sound env s)
include hs

theorem setState_follows (a : Address) (key value : Hash) :
    Follows env codes s (s.setState env a key value).2 := by
  obtain ⟨obj, t, hfound, hload⟩ := getOrNewStateObject_loaded codes hs a
  obtain rfl := hload.address
  simp only [setState, hfound]
  have haddr := StateObject.getState_address env t.ctx.reads obj key
  have hview := StateObject.view_getState env t.ctx.reads obj key
  have hvalue := StateObject.getState_fst env t.ctx.reads obj key
  have hcode := getState_codeLoaded hload.codeLoaded key
  generalize StateObject.getState env t.ctx.reads obj key = loaded at haddr hview hvalue hcode
  obtain ⟨prev, obj'⟩ := loaded
  by_cases heq : prev = value
  · rw [if_pos heq]
    exact hload.same haddr hview hcode
  · rw [if_neg heq]
    obtain rfl : prev = (obj.view env t.ctx.reads).state key := hvalue
    refine hload.append hs (obj'.setState key value) hcode ?_ (Or.inr rfl)
    have haddr' : (obj'.setState key value).address = obj.address := haddr
    rw [haddr', StateObject.view_setState, hview, show obj'.address = obj.address from haddr]
    exact .storage obj.address _ key value (accounts_of_lookup hload.lookup)

theorem setTransientState_follows (a : Address) (key value : Hash) :
    Follows env codes s (s.setTransientState a key value) := by
  simp only [setTransientState]
  split
  · exact hs.follows
  · refine follows_of_effect hs (.transient a key value) rfl ⟨rfl, rfl⟩ rfl rfl rfl rfl ?_
    have hset : (s.transientStorage.set a key value).get = fun a' key' =>
        if a = a' ∧ key = key' then value else s.transientStorage.get a' key' := by
      funext a' key'
      exact TransientStorage.get_set s.transientStorage a a' key key' value
    simp only [observe, hset]
    rfl

theorem refundChange_follows (refund : BitVec 64) :
    Follows env codes s { s.append (.refundChange s.refund) with refund := refund } :=
  follows_of_effect hs (.refund refund) rfl ⟨rfl, rfl⟩ rfl rfl rfl rfl rfl

theorem addLog_follows (log : Log) : Follows env codes s (s.addLog log) :=
  follows_of_effect hs (.addLog { log with txIndex := s.txIndex, index := s.logs.length })
    rfl ⟨rfl, rfl⟩ rfl rfl rfl rfl rfl

theorem createContract_follows (ht : s.createContract env a = .ok t) : Follows env codes s t := by
  obtain ⟨u, hfound, -, -⟩ | ⟨obj, u, hfound, hload⟩ := getStateObject_cases codes hs a
  · rw [createContract, hfound] at ht
    cases ht
  · rw [createContract, hfound] at ht
    simp only at ht
    split at ht
    · cases ht
      exact hload.follows
    · rename_i hnew
      cases ht
      obtain rfl := hload.address
      have hfalse : obj.newContract = false := by simpa using hnew
      exact hload.append hs { obj with newContract := true } hload.codeLoaded
        (.createContract obj.address _ (accounts_of_lookup hload.lookup) hfalse) (Or.inl rfl)

theorem selfDestruct_follows (a : Address) : Follows env codes s (s.selfDestruct env a).2 := by
  obtain ⟨t, hfound, hf, -⟩ | ⟨obj, t, hfound, hload⟩ := getStateObject_cases codes hs a
  · rw [selfDestruct, hfound]
    exact hf
  · obtain rfl := hload.address
    rw [selfDestruct, hfound]
    exact hload.append hs { obj.setBalance 0 with selfDestructed := true } hload.codeLoaded
      (.selfDestruct obj.address _ (accounts_of_lookup hload.lookup)) (Or.inr rfl)

theorem selfDestruct6780_follows (a : Address) :
    Follows env codes s (s.selfDestruct6780 env a).2 := by
  obtain ⟨t, hfound, hf, -⟩ | ⟨obj, t, hfound, ⟨hf, -⟩⟩ := getStateObject_cases codes hs a
  · rw [selfDestruct6780, hfound]
    exact hf
  · rw [selfDestruct6780, hfound]
    simp only
    split
    · exact hf.trans (selfDestruct_follows (hf.sound hs) a)
    · exact hf

end

/-! ## The access list -/

theorem addAddressToAccessList_follows (hs : Sound env s) (a : Address) :
    Follows env codes s (s.addAddressToAccessList a) := by
  simp only [addAddressToAccessList]
  split
  · rename_i hadded
    exact follows_of_effect hs (.addAddress a hadded) rfl ⟨rfl, rfl⟩ rfl rfl rfl rfl rfl
  · rename_i hadded
    have hsame : (s.accessList.addAddress a).1 = s.accessList := by
      unfold AccessList.addAddress at hadded ⊢
      split <;> simp_all
    rw [hsame]
    exact hs.follows

/-- `AddSlotToAccessList` never panics on a sound database. -/
theorem addSlotToAccessList_follows (hs : Sound env s) (a : Address) (slot : Hash) :
    ∃ t, s.addSlotToAccessList a slot = .ok t ∧ Follows env codes s t := by
  have hslot : ∀ {s : StateDB K V E} {al : AccessList}, Sound env s → al.WellFormed →
      al.deleteSlot a slot = .ok s.accessList →
      Follows env codes s { s.append (.accessListAddSlotChange a slot) with accessList := al } :=
    fun hs hal hdel =>
      follows_of_effect hs (.addSlot a slot _ hal hdel) rfl ⟨rfl, rfl⟩ rfl rfl rfl rfl rfl
  rcases AccessList.addSlot_cases hs.good.accessList a slot with h | ⟨al, h, hal, hdel⟩ |
    ⟨al, h, hal, hadded, hdel⟩
  · have h' : s.accessList.addSlot a slot = .ok (s.accessList, false, false) := h
    exact ⟨s, by rw [addSlotToAccessList, h']; rfl, hs.follows⟩
  · have h' : s.accessList.addSlot a slot = .ok (al, false, true) := h
    exact ⟨_, by rw [addSlotToAccessList, h']; rfl, hslot hs hal hdel⟩
  · have h' : s.accessList.addSlot a slot = .ok (al, true, true) := h
    have haddr : Follows env codes s _ := addAddressToAccessList_follows hs a
    have hmid : s.addAddressToAccessList a =
        { s.append (.accessListAddAccountChange a) with
          accessList := (s.accessList.addAddress a).1 } := by
      exact if_pos hadded
    rw [hmid] at haddr
    exact ⟨_, by rw [addSlotToAccessList, h']; rfl, haddr.trans (hslot (haddr.sound hs) hal hdel)⟩

/-! ## Getters -/

theorem getCode_follows (hs : Sound env s) (a : Address) :
    Follows env codes s (s.getCode env a).2 := by
  obtain ⟨t, hfound, hf, -⟩ | ⟨obj, t, hfound, hload⟩ := getStateObject_cases codes hs a
  · rw [getCode, hfound]
    exact hf
  · rw [getCode, hfound]
    exact hload.same (getCode_address ..) (view_getCode ..) (getCode_codeLoaded hload.codeLoaded)

theorem getState_follows (hs : Sound env s) (a : Address) (key : Hash) :
    Follows env codes s (s.getState env a key).2 := by
  obtain ⟨t, hfound, hf, -⟩ | ⟨obj, t, hfound, hload⟩ := getStateObject_cases codes hs a
  · rw [getState, hfound]
    exact hf
  · rw [getState, hfound]
    exact hload.same (getState_address ..) (view_getState ..)
      (getState_codeLoaded hload.codeLoaded key)

theorem getCommittedState_follows (hs : Sound env s) (a : Address) (key : Hash) :
    Follows env codes s (s.getCommittedState env a key).2 := by
  obtain ⟨t, hfound, hf, -⟩ | ⟨obj, t, hfound, hload⟩ := getStateObject_cases codes hs a
  · rw [getCommittedState, hfound]
    exact hf
  · rw [getCommittedState, hfound]
    exact hload.same (getCommittedState_address ..)
      (view_getCommittedState ..)
      (getCommittedState_codeLoaded hload.codeLoaded key)

end InfiniteEvm.StateDB
