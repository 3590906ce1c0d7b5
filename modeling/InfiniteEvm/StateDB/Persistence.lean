import InfiniteEvm.StateDB.Revert
import InfiniteEvm.VM.KeeperLedger

/-!
# Committing what was observed

After a run of operations and a commit without error, a new database on the committed
context answers like the one that was committed. The exception is an account that
`CreateAccount` replaced and nothing else touched: its entry reports no dirty address,
so the account stays as the keeper had it.
-/

namespace InfiniteEvm

open AccountView Function

open Std Library SnapshotMulti JournalEntry StateObject Option Observation VM Env

variable {K V E : Type*} [Ord K] [TransOrd K] {a : Address}

/-- A ledger whose accounts have their code stored, under its hash. -/
structure Ledger.WellFormed (keccak256 : Bytes → Hash) (known : Set Bytes) (l : Ledger) :
    Prop where
  codes : l.CodesKnown keccak256 known
  stored : ∀ a account, l.account a = some account → account.codeHash ≠ keccak256 [] →
    l.code account.codeHash ≠ none

/-- The entry is that of `CreateAccount` over an account at `a`. -/
def JournalEntry.resets (e : JournalEntry E) (a : Address) : Bool :=
  match e with
  | .resetObjectChange prev => prev.address == a
  | _ => false

theorem JournalEntry.resets_of_ne {e : JournalEntry E} (h : ∀ prev, e ≠ .resetObjectChange prev)
    (a : Address) : e.resets a = false := by
  cases e with
  | resetObjectChange prev => exact absurd rfl (h prev)
  | _ => rfl

/-- The answers of an account without the mark of a new contract. -/
def AccountView.unmarked (v : AccountView) : AccountView := { v with newContract := false }

/-- Two accounts answer alike, apart from their marks. -/
structure AccountView.Same (v w : AccountView) : Prop where
  balance : v.balance = w.balance
  nonce : v.nonce = w.nonce
  code : v.code.getD [] = w.code.getD []
  codeHash : v.codeHash = w.codeHash
  state : v.state = w.state

namespace Observation

variable (env : Env K V E) (known : Set Bytes) (ctx : Context K V E)

/-- An account reads the keeper's storage below its own, and its code hash is the hash of
its code. -/
structure Proper (a : Address) (v : AccountView) : Prop where
  committed : v.committed = env.getState ctx.reads a
  known : v.code.getD [] ∈ known
  codeHash : env.keccak256 (v.code.getD []) = v.codeHash

/-- What an address that is not dirty answers, after these entries. -/
def cleanView (entries : List (JournalEntry E)) (a : Address) : Option AccountView :=
  if entries.any (resets · a) then
    (keeperView env ctx a).map fun v => { freshView env ctx a with balance := v.balance }
  else keeperView env ctx a

/-- The observation of a database with its journal, as it follows from the keeper's
answers. -/
structure Tracks (entries : List (JournalEntry E)) (o : Observation K V E) : Prop where
  sameCtx : o.ctx = ctx
  noCache : o.cache = none
  proper : ∀ a v, o.accounts a = some v → Proper env known ctx a v
  clean : ∀ a, a ∉ o.dirties → (o.accounts a).map unmarked = cleanView env ctx entries a

variable {env} {known} {ctx} {o o' x : Observation K V E} {e : JournalEntry E}
  {entries : List (JournalEntry E)}

theorem freshView_proper (hnil : [] ∈ known) (a : Address) :
    Proper env known ctx a (freshView env ctx a) := by
  have hcode : (freshView env ctx a).code = none := by
    simp [freshView, view_newObject, StateDB.zeroAccount, isEmptyCodeHash]
  constructor
  · rw [freshView, view_newObject]
  · rw [hcode]
    exact hnil
  · rw [hcode]
    rfl

variable {a : Address} {v : AccountView}

omit [TransOrd K] in
theorem proper_setAccount {P : Address → AccountView → Prop}
    (ho : ∀ b v, o.accounts b = some v → P b v) (hv : P a v) (b : Address) (w : AccountView)
    (hw : (o.setAccount a (some v)).accounts b = some w) : P b w := by
  by_cases hb : b = a
  · subst hb
    rw [setAccount_accounts] at hw
    cases hw
    exact hv
  · refine ho b w ?_
    rw [← hw]
    exact (update_of_ne hb _ _).symm

/-- Changes keep accounts proper. -/
theorem Effect.proper (hnil : [] ∈ known) (h : Effect env known o e x) (hctx : o.ctx = ctx)
    (ho : ∀ a v, o.accounts a = some v → Proper env known ctx a v) :
    ∀ a v, x.accounts a = some v → Proper env known ctx a v := by
  subst hctx
  cases h with
  | createObject a _ _ => exact proper_setAccount ho (freshView_proper hnil a)
  | resetObject prev _ _ =>
    obtain ⟨hcommitted, hknown, hhash⟩ : Proper env known o.ctx prev.address _ :=
      freshView_proper hnil prev.address
    exact proper_setAccount ho ⟨hcommitted, hknown, hhash⟩
  | selfDestruct a v hv | balance a v amount hv | nonce a v nonce hv | storage a v key value hv
  | createContract a v hv _ =>
    obtain ⟨hcommitted, hknown, hhash⟩ := ho a v hv
    exact proper_setAccount ho ⟨hcommitted, hknown, hhash⟩
  | code a v code hv hcode _ =>
    have hresolve : (resolveCode env o.ctx.reads
        (env.keccak256 (code.getD [])) code).getD [] = code.getD [] := by
      cases code with
      | some c => rfl
      | none => simp [resolveCode, isEmptyCodeHash, emptyCodeHash]
    refine proper_setAccount ho ⟨(ho a v hv).committed, ?_, ?_⟩
    · rw [hresolve]
      exact hcode
    · rw [hresolve]
  | _ => exact ho

theorem cleanView_concat (a : Address) (h : e.resets a = false) :
    cleanView env ctx (entries ++ [e]) a = cleanView env ctx entries a := by
  simp [cleanView, h]

theorem balance_of_cleanView (h : some v.unmarked = cleanView env ctx entries a) :
    ∃ kv, keeperView env ctx a = some kv ∧ kv.balance = v.balance := by
  unfold cleanView at h
  split at h
  · obtain ⟨kv, hkv, heq⟩ := map_eq_some_iff.mp h.symm
    have hbalance := congrArg AccountView.balance heq
    exact ⟨kv, hkv, hbalance⟩
  · exact ⟨_, h.symm, rfl⟩

/-- Changes keep an observation on track. -/
theorem Change.tracks (hnil : [] ∈ known) (ho : Tracks env known ctx entries o)
    (h : Change env known e o o') : Tracks env known ctx (entries ++ [e]) o' := by
  obtain ⟨x, hx, rfl⟩ := h
  have hproper := hx.proper hnil ho.sameCtx ho.proper
  refine ⟨hx.ctx_eq.trans ho.sameCtx, ?_, hproper, ?_⟩
  · cases hx with
    | precompileCall c _ _ hc _ =>
      exact absurd (ho.noCache.symm.trans hc) (some_ne_none c).symm
    | _ => exact ho.noCache
  · intro a ha
    rcases hx.accounts_cases with ⟨hsame, hnone, hreset⟩ | ⟨b, v, hset, hdirtied⟩ |
      ⟨prev, v, rfl, hv, hset⟩ | ⟨b, v, rfl, hv, hset⟩
    · rw [hnone] at ha
      rw [hsame, cleanView_concat a (resets_of_ne hreset a)]
      exact ho.clean a ha
    · have hreset : ∀ prev, e ≠ .resetObjectChange prev := by
        rintro prev rfl
        cases hdirtied
      rw [hdirtied, Dirties.mem_mark_some, not_or] at ha
      rw [hset, update_of_ne fun hab => ha.1 hab.symm, cleanView_concat a (resets_of_ne hreset a)]
      exact ho.clean a ha.2
    · by_cases hab : a = prev.address
      · subst hab
        have hclean := ho.clean prev.address ha
        rw [hv] at hclean
        obtain ⟨kv, hkv, hbalance⟩ := balance_of_cleanView hclean
        rw [hset, update_self, cleanView, hkv, ← hbalance, ho.sameCtx]
        simp [resets]
        rfl
      · have hreset : (resetObjectChange prev : JournalEntry E).resets a = false := by
          simpa [resets] using fun h : prev.address = a => hab h.symm
        rw [hset, update_of_ne hab, cleanView_concat a hreset]
        exact ho.clean a ha
    · rw [cleanView_concat a rfl, hset]
      refine Eq.trans ?_ (ho.clean a ha)
      by_cases hab : a = b
      · subst hab
        rw [update_self, hv]
        rfl
      · rw [update_of_ne hab]

/-- Every account of a well-formed ledger is proper. -/
theorem keeperView_proper (hnil : [] ∈ known)
    (hl : (env.ledger ctx.reads).WellFormed env.keccak256 known)
    (hv : keeperView env ctx a = some v) : Proper env known ctx a v := by
  obtain ⟨account, haccount, rfl⟩ := map_eq_some_iff.mp hv
  have hcode : ((newObject a account).view env ctx.reads).code =
      if account.codeHash = env.keccak256 [] then none
      else env.getCode ctx.reads account.codeHash := by
    simp [view_newObject, isEmptyCodeHash, emptyCodeHash]
  have hmatch : (((newObject a account).view env ctx.reads).code.getD []) ∈ known ∧
      env.keccak256 (((newObject a account).view env ctx.reads).code.getD []) =
        account.codeHash := by
    rw [hcode]
    split
    · rename_i hempty
      exact ⟨hnil, hempty.symm⟩
    · rename_i hne
      obtain ⟨code, hstored⟩ := ne_none_iff_exists'.mp (hl.stored a account haccount hne)
      have hread : env.getCode ctx.reads account.codeHash = some code := hstored
      rw [hread]
      exact hl.codes account.codeHash code hstored
  refine ⟨?_, hmatch.1, hmatch.2⟩
  rw [view_newObject]

end Observation

variable {obj : StateObject}

namespace StateDB

variable {env : Env K V E} {known : Set Bytes} {ctx : Context K V E} {s t : StateDB K V E}

theorem new_tracks (hnil : [] ∈ known) (txIndex : Nat)
    (hl : (env.ledger ctx.reads).WellFormed env.keccak256 known) :
    Tracks env known ctx [] ((new ctx txIndex).observe env) where
  sameCtx := rfl
  noCache := rfl
  proper := by
    intro a v hv
    rw [new_accounts] at hv
    exact keeperView_proper hnil hl hv
  clean := by
    intro a _
    rw [new_accounts]
    change _ = keeperView env ctx a
    unfold keeperView
    cases env.getAccount ctx.reads a <;> rfl

/-- The facts about a run from a new database that a commit needs. -/
theorem run_tracks (hnil : [] ∈ known)
    (hl : (env.ledger ctx.reads).WellFormed env.keccak256 known) {txIndex : Nat} {ops : List Op}
    (hops : ∀ op ∈ ops, op.CodeIn known) (hrun : (new ctx txIndex).run env ops = some s) :
    Tidy env s ∧ Live s ∧ s.ctx = ctx ∧
      Tracks env known ctx s.journal.entries (s.observe env) := by
  have hnew : Valid env (new ctx txIndex) := new_valid env ctx txIndex
  have hin : Inside env known (new ctx txIndex) s := hnew.inside.run hnew (Or.inl rfl) hops hrun
  have hlive : Live (new ctx txIndex : StateDB K V E) := by
    intro a ha
    simp [new] at ha
  refine ⟨hin.valid.tidy, hin.live hlive, hin.ctx, ?_⟩
  exact hin.recorded.invariant (fun x => Tracks env known ctx x.1 x.2)
    (fun _ _ _ _ ho hc => hc.tracks hnil ho) (new_tracks hnil txIndex hl)

/-- The account at `a` answers alike in two databases. Code is compared as bytes, so that
no code and empty code are the same. -/
structure SameAccount (env : Env K V E) (s t : StateDB K V E) (a : Address) : Prop where
  balance : (s.getBalance env a).1 = (t.getBalance env a).1
  nonce : (s.getNonce env a).1 = (t.getNonce env a).1
  code : ((s.getCode env a).1).getD [] = ((t.getCode env a).1).getD []
  codeHash : (s.getCodeHash env a).1 = (t.getCodeHash env a).1
  state : ∀ key, (s.getState env a key).1 = (t.getState env a key).1

theorem sameAccount_iff {v w : AccountView} (hs : (s.observe env).accounts a = some v)
    (ht : (t.observe env).accounts a = some w) : SameAccount env s t a ↔ v.Same w := by
  constructor
  · rintro ⟨hbalance, hnonce, hcode, hcodeHash, hstate⟩
    rw [getBalance_eq, getBalance_eq, hs, ht] at hbalance
    rw [getNonce_eq, getNonce_eq, hs, ht] at hnonce
    rw [getCode_eq, getCode_eq, hs, ht] at hcode
    rw [getCodeHash_eq, getCodeHash_eq, hs, ht] at hcodeHash
    refine ⟨hbalance, hnonce, hcode, hcodeHash, ?_⟩
    funext key
    have hkey := hstate key
    rw [getState_eq, getState_eq, hs, ht] at hkey
    exact hkey
  · rintro ⟨hbalance, hnonce, hcode, hcodeHash, hstate⟩
    constructor
    · rw [getBalance_eq, getBalance_eq, hs, ht]
      exact hbalance
    · rw [getNonce_eq, getNonce_eq, hs, ht]
      exact hnonce
    · rw [getCode_eq, getCode_eq, hs, ht]
      exact hcode
    · rw [getCodeHash_eq, getCodeHash_eq, hs, ht]
      exact hcodeHash
    · intro key
      rw [getState_eq, getState_eq, hs, ht]
      exact congrFun hstate key

theorem sameAccount_of_none (hs : (s.observe env).accounts a = none)
    (ht : (t.observe env).accounts a = none) : SameAccount env s t a := by
  constructor
  · rw [getBalance_eq, getBalance_eq, hs, ht]
  · rw [getNonce_eq, getNonce_eq, hs, ht]
  · rw [getCode_eq, getCode_eq, hs, ht]
  · rw [getCodeHash_eq, getCodeHash_eq, hs, ht]
  · intro key
    rw [getState_eq, getState_eq, hs, ht]

/-! ## The ledger after a commit -/

section Committed

variable {ctx' : Context K V E} {addrs : List Address}
  (hinj : Set.InjOn env.keccak256 known)
  (hl : (env.ledger ctx.reads).WellFormed env.keccak256 known)
  (htracks : Tracks env known ctx s.journal.entries (s.observe env))

include htracks in
/-- A live object answers for its address. -/
theorem proper_of_object (hobj : s.stateObjects[a]? = some obj) :
    Proper env known ctx a (obj.view env s.ctx.reads) := by
  refine htracks.proper a _ ?_
  rw [observe_accounts, lookup, hobj]
  rfl

include htracks in
theorem codeKnown_of_object (hobj : s.stateObjects[a]? = some obj) :
    Ledger.CodeKnown env.keccak256 known obj := by
  intro code hcode
  obtain ⟨-, hknown, hhash⟩ := proper_of_object htracks hobj
  have hview : (obj.view env s.ctx.reads).code = some code := by
    simp [view, resolveCode, hcode]
  rw [hview] at hknown hhash
  exact ⟨hknown, hhash⟩

section

variable
  (hw : Ledger.WroteAll s.stateObjects addrs (env.ledger ctx.reads) (env.ledger ctx'.reads))
  (htidy : Tidy env s)
include hinj hl htracks hw htidy

/-- An account the loop did not walk is in the ledger as before. -/
theorem keeperView_committed (ha : a ∉ addrs) : keeperView env ctx' a = keeperView env ctx a := by
  obtain ⟨haccount, hstate⟩ := hw.frame htidy.address ha
  obtain ⟨-, hkeep⟩ := hw.codes hinj (fun _ _ _ hobj => codeKnown_of_object htracks hobj) hl.codes
  have haccount' : env.getAccount ctx'.reads a = env.getAccount ctx.reads a := haccount
  have hstate' : env.getState ctx'.reads a = env.getState ctx.reads a := hstate
  rw [keeperView, haccount', keeperView]
  cases hfound : env.getAccount ctx.reads a with
  | none => rfl
  | some account =>
    have hcode : (if env.isEmptyCodeHash account.codeHash then none
        else env.getCode ctx'.reads account.codeHash) =
        if env.isEmptyCodeHash account.codeHash then none
        else env.getCode ctx.reads account.codeHash := by
      split
      · rfl
      · rename_i hne
        have hne' : account.codeHash ≠ env.keccak256 [] := by
          simpa [isEmptyCodeHash, emptyCodeHash] using hne
        obtain ⟨code, hstored⟩ := ne_none_iff_exists'.mp (hl.stored a account hfound hne')
        exact (hkeep _ code hne' hstored).trans hstored.symm
    simp only [map_some, view_newObject, hstate', hcode]

/-- The code of an object the loop walked is stored after it. -/
theorem code_of_walked (hctx : s.ctx = ctx) (ha : a ∈ addrs)
    (hobj : s.stateObjects[a]? = some obj) (hlive : obj.selfDestructed = false)
    (hne : obj.account.codeHash ≠ env.keccak256 []) {code : Bytes}
    (hcode : (obj.view env s.ctx.reads).code = some code) :
    env.getCode ctx'.reads obj.account.codeHash = some code := by
  subst hctx
  have hknown : ∀ a ∈ addrs, ∀ obj, s.stateObjects[a]? = some obj →
      Ledger.CodeKnown env.keccak256 known obj :=
    fun _ _ _ hobj => codeKnown_of_object htracks hobj
  have hkeep : env.getCode s.ctx.reads obj.account.codeHash = some code →
      env.getCode ctx'.reads obj.account.codeHash = some code :=
    (hw.codes hinj hknown hl.codes).2 _ code hne
  have hresolve : (obj.view env s.ctx.reads).code =
      obj.code.or (env.getCode s.ctx.reads obj.account.codeHash) := by
    simp [view, resolveCode, isEmptyCodeHash, emptyCodeHash, hne]
  rw [hresolve] at hcode
  cases hloaded : obj.code with
  | none =>
    rw [hloaded, none_or] at hcode
    exact hkeep hcode
  | some code' =>
    rw [hloaded, some_or] at hcode
    cases hcode
    cases hdirty : obj.dirtyCode with
    | true => exact hw.written_code hinj hknown hl.codes ha hobj hlive hdirty hloaded hne
    | false =>
      rcases htidy.code a obj hobj hdirty with hnone | hkeeper
      · rw [hloaded] at hnone
        cases hnone
      · exact hkeep (hkeeper.symm.trans hloaded)

/-- An object the loop walked answers as the ledger does after it. -/
theorem same_of_walked (hnil : [] ∈ known) (hctx : s.ctx = ctx) (hnodup : addrs.Nodup)
    (ha : a ∈ addrs) (hobj : s.stateObjects[a]? = some obj) (hlive : obj.selfDestructed = false) :
    ∃ v, keeperView env ctx' a = some v ∧ (obj.view env s.ctx.reads).Same v := by
  obtain ⟨haccount, hstate⟩ := hw.written htidy.address hnodup ha hobj hlive
  obtain ⟨hcommitted, hknown, hhash⟩ := proper_of_object htracks hobj
  have haccount' : env.getAccount ctx'.reads a = some obj.account := haccount
  refine ⟨(newObject a obj.account).view env ctx'.reads, ?_, ?_⟩
  · rw [keeperView, haccount', map_some]
  · rw [view_newObject]
    refine ⟨rfl, rfl, ?_, rfl, ?_⟩
    · by_cases hne : obj.account.codeHash = env.keccak256 []
      · have hempty := hinj hknown hnil (hhash.trans hne)
        simpa [isEmptyCodeHash, emptyCodeHash, hne] using hempty
      · cases hcode : (obj.view env s.ctx.reads).code with
        | none =>
          rw [hcode] at hhash
          exact absurd hhash.symm hne
        | some code =>
          have hfound := code_of_walked hinj hl htracks hw htidy hctx ha hobj hlive hne hcode
          simp [isEmptyCodeHash, emptyCodeHash, hne, hfound]
    · funext key
      refine Eq.trans ?_ (hstate key).symm
      change _ = (obj.dirtyStorage[key]?).getD (env.getState ctx.reads a key)
      rw [← hcommitted]
      rfl

end

/-- An account that was only replaced answers as the ledger does exactly when it had no
nonce and no code. -/
theorem same_fresh_iff {account : Account} {v : AccountView}
    (hv : v.unmarked = { freshView env ctx a with balance := account.balance }) :
    v.Same ((newObject a account).view env ctx.reads) ↔
      account.nonce = 0 ∧ account.codeHash = env.emptyCodeHash := by
  rw [freshView, view_newObject] at hv
  rw [view_newObject]
  have hbalance : v.balance = account.balance := congrArg AccountView.balance hv
  have hnonce : v.nonce = 0 := congrArg AccountView.nonce hv
  have hcodeHash : v.codeHash = env.emptyCodeHash := congrArg AccountView.codeHash hv
  have hcode : v.code = none := by
    refine (congrArg AccountView.code hv).trans ?_
    simp [zeroAccount, isEmptyCodeHash]
  have hstate : v.state = env.getState ctx.reads a := congrArg AccountView.state hv
  constructor
  · intro h
    exact ⟨h.nonce.symm.trans hnonce, h.codeHash.symm.trans hcodeHash⟩
  · rintro ⟨hnonce', hcodeHash'⟩
    refine ⟨hbalance, hnonce.trans hnonce'.symm, ?_, hcodeHash.trans hcodeHash'.symm, hstate⟩
    simp [hcode, hcodeHash', isEmptyCodeHash]

end Committed

/-- The condition under which an address is committed as it was observed: it is dirty,
or `CreateAccount` did not replace it, or the account it replaced had no nonce and no
code. -/
def Kept (env : Env K V E) (s : StateDB K V E) (a : Address) : Prop :=
  a ∉ s.journal.dirties → s.journal.entries.any (resets · a) = true →
    ∀ account, env.getAccount s.ctx.reads a = some account →
      account.nonce = 0 ∧ account.codeHash = env.emptyCodeHash

theorem sameAccount_iff_of_clean (ha : a ∉ s.journal.dirties)
    (hclean : ((s.observe env).accounts a).map unmarked = cleanView env s.ctx s.journal.entries a)
    (hkeeper : (t.observe env).accounts a = keeperView env s.ctx a) :
    SameAccount env s t a ↔ Kept env s a := by
  unfold cleanView at hclean
  split at hclean <;> rename_i hreset
  · cases hfound : env.getAccount s.ctx.reads a with
    | none =>
      rw [keeperView, hfound] at hclean hkeeper
      refine iff_of_true (sameAccount_of_none (map_eq_none_iff.mp hclean) hkeeper) ?_
      intro _ _ account haccount
      rw [hfound] at haccount
      cases haccount
    | some account =>
      rw [keeperView, hfound] at hclean hkeeper
      obtain ⟨v, hv, hfresh⟩ := map_eq_some_iff.mp hclean
      have hplain : SameAccount env s t a ↔
          account.nonce = 0 ∧ account.codeHash = env.emptyCodeHash :=
        (sameAccount_iff hv hkeeper).trans (same_fresh_iff hfresh)
      rw [hplain]
      constructor
      · intro h _ _ account' haccount'
        obtain rfl : account = account' := some.inj (hfound.symm.trans haccount')
        exact h
      · intro h
        exact h ha hreset account hfound
  · refine iff_of_true ?_ fun _ h => absurd h hreset
    cases hv : (s.observe env).accounts a with
    | none =>
      rw [hv] at hclean
      exact sameAccount_of_none hv (hkeeper.trans hclean.symm)
    | some v =>
      rw [hv] at hclean
      exact (sameAccount_iff hv (hkeeper.trans hclean.symm)).mpr ⟨rfl, rfl, rfl, rfl, rfl⟩

variable [LawfulEqOrd K] [DecidableEq K]

omit [TransOrd K] [LawfulEqOrd K] in
/-- The commit loop dereferences no nil object when every dirty address is live. -/
theorem commitAll_ok (env : Env K V E) {addrs : List Address}
    (h : ∀ a ∈ addrs, a ∈ s.stateObjects) (r : Reads K V) :
    ∃ e, s.commitAll env addrs r = .ok e := by
  induction addrs generalizing r with
  | nil => exact ⟨_, rfl⟩
  | cons a rest ih =>
    obtain ⟨obj, hobj⟩ := isSome_iff_exists.mp
      (ExtTreeMap.mem_iff_isSome_getElem?.mp (h a List.mem_cons_self))
    unfold commitAll
    simp only [hobj]
    cases (commitObject env obj r).err with
    | some err => exact ⟨_, rfl⟩
    | none =>
      obtain ⟨e, he⟩ := ih (fun b hb => h b (List.mem_cons_of_mem a hb))
        (overwritten r (commitObject env obj r).writes)
      simp only [he]
      exact ⟨_, rfl⟩

theorem commit_cases (hcache : s.cache = none) (h : s.commit env = .ok (none, t)) :
    ∃ e, s.commitWithCtx env s.ctx.reads = .ok e ∧ e.err = none ∧
      t.ctx.reads = overwritten s.ctx.reads e.writes := by
  simp only [commit, hcache] at h
  obtain ⟨e, he, h⟩ := Outcomes.bind_eq_ok.mp h
  obtain ⟨ctx', happly, h⟩ := Outcomes.map_eq_ok.mp h
  obtain ⟨herr, rfl⟩ := Prod.mk.inj h
  exact ⟨e, he, herr, Context.reads_apply happly⟩

/-- After any run of operations on a new database the commit loop finds a live object for
every dirty address. When `Commit` then succeeds, a new database on the committed
context answers as the committed one did, at every address that is not marked
self-destructed, exactly where the address is kept. -/
theorem commit_faithful_iff (env : Env K V E) (law : env.Lawful) (known : Set Bytes)
    (hnil : [] ∈ known) (hinj : Set.InjOn env.keccak256 known) (ctx : Context K V E)
    (txIndex : Nat) (hl : (env.ledger ctx.reads).WellFormed env.keccak256 known)
    (ops : List Op) (hops : ∀ op ∈ ops, op.CodeIn known) (s : StateDB K V E)
    (hrun : (new ctx txIndex).run env ops = some s) :
    (∀ a ∈ s.journal.dirties, a ∈ s.stateObjects) ∧
    (∀ r, ∃ e, s.commitWithCtx env r = .ok e) ∧
    ∀ t n, s.commit env = .ok (none, t) → ∀ a, (s.hasSelfDestructed env a).1 = false →
      (SameAccount env s (new t.ctx n) a ↔ Kept env s a) := by
  obtain ⟨htidy, hlive, hctx, htracks⟩ := run_tracks hnil hl hops hrun
  refine ⟨hlive, fun r => commitAll_ok env (fun a ha => hlive a (by simpa using ha)) r, ?_⟩
  intro t n ht a hdead
  obtain ⟨e, he, herr, hreads⟩ := commit_cases htracks.noCache ht
  have hw := commitAll_wroteAll law he herr
  rw [← hreads, hctx] at hw
  have hnew : ((new t.ctx n).observe env).accounts a = keeperView env t.ctx a :=
    new_accounts t.ctx n a
  by_cases ha : a ∈ s.journal.dirties
  · obtain ⟨obj, hobj⟩ := isSome_iff_exists.mp (ExtTreeMap.mem_iff_isSome_getElem?.mp (hlive a ha))
    have hview : (s.observe env).accounts a = some (obj.view env s.ctx.reads) := by
      rw [observe_accounts, lookup, hobj]
      rfl
    have hstays : obj.selfDestructed = false := by
      rw [hasSelfDestructed_eq, hview] at hdead
      exact hdead
    obtain ⟨v, hv, hsame⟩ := same_of_walked hinj hl htracks hw htidy hnil hctx (FMap.keys_nodup _)
      (ExtTreeMap.mem_keys.mpr ha) hobj hstays
    exact iff_of_true ((sameAccount_iff hview (hnew.trans hv)).mpr hsame) fun hclean =>
      absurd ha hclean
  · have hkeep := keeperView_committed hinj hl htracks hw htidy
      (fun hmem => ha (ExtTreeMap.mem_keys.mp hmem))
    refine sameAccount_iff_of_clean ha ?_ ?_
    · rw [hctx]
      exact htracks.clean a ha
    · rw [hctx, hnew, hkeep]

/-- `CreateAccount` over an account with 5 transactions: the database answers with nonce
0, and the committed context with nonce 5. -/
theorem reset_account_not_committed :
    ((new smallContext 0).run smallKeeper.env [.createAccount 7]).bind
      (fun s => match s.commit smallKeeper.env with
        | .ok (none, t) => some ((s.getNonce smallKeeper.env 7).1,
            ((new t.ctx 1).getNonce smallKeeper.env 7).1)
        | _ => none) = some (0, 5) := by
  decide +kernel

/-- Where the module has stored nothing, no account has code. -/
theorem wellFormed_of_no_entries {E : Type} (k : Keeper E) {r : Contents}
    (h : r storeKey = fun _ => none) : (k.env.ledger r).WellFormed k.env.keccak256 {[]} := by
  have hget : ∀ key, storeGet r key = none := by
    intro key
    rw [storeGet, h]
  constructor
  · intro codeHash code hcode
    exact absurd (hcode.symm.trans (hget _)) (by simp)
  · intro a account haccount hhash
    obtain ⟨acct, -, rfl⟩ := map_eq_some_iff.mp haccount
    refine absurd ?_ hhash
    rw [Keeper.getCodeHash, hget]
    rfl

theorem commit_faithful_iff_small :
    ∃ s t : StateDB Bytes Value Event,
      (new smallContext 0).run smallKeeper.env
        [.setNonce 7 6, .addBalance 9 3, .setState 9 1 2] = some s ∧
      s.commit smallKeeper.env = .ok (none, t) ∧
      SameAccount smallKeeper.env s (new t.ctx 1) 9 := by
  have hrun : ((new smallContext 0).run smallKeeper.env
      [.setNonce 7 6, .addBalance 9 3, .setState 9 1 2]).map
      (fun s => (match s.commit smallKeeper.env with
        | .ok (none, _) => true
        | _ => false, (s.hasSelfDestructed smallKeeper.env 9).1,
        decide (9 ∈ s.journal.dirties))) = some (true, false, true) := by
    decide +kernel
  obtain ⟨s, hs, hmap⟩ := map_eq_some_iff.mp hrun
  obtain ⟨hcommit, hmap⟩ := Prod.mk.inj hmap
  obtain ⟨hdead, hdirty⟩ := Prod.mk.inj hmap
  split at hcommit
  · rename_i t ht
    obtain ⟨-, -, hfaithful⟩ := commit_faithful_iff smallKeeper.env
      smallKeeper_lawful {[]} rfl (Set.injOn_singleton _ _) smallContext 0
      (wellFormed_of_no_entries _ smallContext_store)
      [.setNonce 7 6, .addBalance 9 3, .setState 9 1 2] (by simp [Op.CodeIn]) s hs
    refine ⟨s, t, hs, ht, (hfaithful t 1 ht 9 hdead).mpr ?_⟩
    intro hclean
    exact absurd (of_decide_eq_true hdirty) hclean
  · cases hcommit

end StateDB

end InfiniteEvm
