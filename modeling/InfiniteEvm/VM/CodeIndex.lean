import InfiniteEvm.StateDB.Persistence
import InfiniteEvm.VM.Destruction

/-!
# The index of code hashes

The keeper has the hash of the code of an account under one key prefix and the code under
another, by its hash. Every hash in the index has its code, and its account is known to
`x/auth`, whatever transactions commit. The storage of an account is under a third prefix and
may be there without either.
-/

namespace InfiniteEvm.VM

open Std Library SnapshotMulti StateDB Option Function Keeper Observation StateObject

variable {E : Type} {ws : List Write} {obj : StateObject}

/-- The keys under the prefix of code hashes are those of accounts. -/
def Indexed (r : Contents) : Prop :=
  ∀ key, keyPrefixCodeHash <+: key → storeGet r key ≠ none → ∃ addr, key = codeHashKey addr

theorem Entry.eq_codeHash_of_prefix {e : Entry} (h : keyPrefixCodeHash <+: e.key) :
    ∃ addr, e = .codeHash addr := by
  obtain ⟨rest, hrest⟩ := h
  cases e with
  | code h | state a slot => exact absurd (List.cons.inj hrest).1 (by decide)
  | codeHash a => exact ⟨a, rfl⟩

theorem OnEntries.indexed {r r' : Contents} (h : OnEntries r r') (hindexed : Indexed r) :
    Indexed r' := by
  intro key hunder hstored
  by_cases hentry : ∃ e : Entry, e.key = key
  · obtain ⟨e, rfl⟩ := hentry
    obtain ⟨addr, rfl⟩ := Entry.eq_codeHash_of_prefix hunder
    exact ⟨addr, rfl⟩
  · refine hindexed key hunder ?_
    rw [storeGet, ← h key fun e heq => hentry ⟨e, heq⟩]
    exact hstored

namespace Keeper

/-- Only the empty code has its hash. -/
def OnlyEmpty (k : Keeper E) : Prop := ∀ code, k.keccak256 code = k.emptyCodeHash → code = []

/-- The store of the module is as its methods keep it. -/
structure Kept (k : Keeper E) (r : Contents) : Prop where
  keyed : Keyed r
  indexed : Indexed r
  codes : ∀ h code, entries r (.code h) = some code → code ≠ [] ∧ k.keccak256 code = h
  coded : ∀ addr bytes, entries r (.codeHash addr) = some bytes →
    ∃ h, bytes = hashBytes h ∧ entries r (.code h) ≠ none
  account : ∀ addr, entries r (.codeHash addr) ≠ none →
    k.accountKeeper.getAccount r (addressBytes addr) ≠ none

/-- Code that is stored stays. -/
def Retains (r r' : Contents) : Prop :=
  ∀ h, entries r (.code h) ≠ none → entries r' (.code h) ≠ none

theorem Retains.trans {r r' r'' : Contents} (h : Retains r r') (h' : Retains r' r'') :
    Retains r r'' :=
  fun codeHash hstored => h' codeHash (h codeHash hstored)

/-- The code of an object goes with its hash, and is new or stored. -/
structure CodeReady (k : Keeper E) (obj : StateObject) (r : Contents) : Prop where
  hashed : ∀ code, obj.code = some code → k.keccak256 code = obj.account.codeHash
  stored : obj.account.codeHash ≠ k.emptyCodeHash →
    obj.dirtyCode = true ∧ obj.code ≠ none ∨ entries r (.code obj.account.codeHash) ≠ none

theorem CodeReady.mono {k : Keeper E} {r r' : Contents} (h : k.CodeReady obj r)
    (hretains : Retains r r') : k.CodeReady obj r' where
  hashed := h.hashed
  stored hne := (h.stored hne).imp_right (hretains _)

section Writes

variable {k : Keeper E} {r r' : Contents} {addr : Address} {obj : StateObject}

theorem Kept.code_empty (h : k.Kept r) (hempty : k.OnlyEmpty) :
    entries r (.code k.emptyCodeHash) = none := by
  cases hcode : entries r (.code k.emptyCodeHash) with
  | none => rfl
  | some code =>
    obtain ⟨hne, hhash⟩ := h.codes _ _ hcode
    exact absurd (hempty code hhash) hne

/-- The hash in the index is not the empty one, and its code is stored. -/
theorem Kept.code_of_codeHash (h : k.Kept r) (hempty : k.OnlyEmpty) {bytes : Bytes}
    (hhash : entries r (.codeHash addr) = some bytes) :
    bytes = hashBytes (k.getCodeHash r addr) ∧ k.getCodeHash r addr ≠ k.emptyCodeHash ∧
      ∃ code, entries r (.code (k.getCodeHash r addr)) = some code := by
  obtain ⟨codeHash, heq, hstored⟩ := h.coded addr bytes hhash
  have hread : k.getCodeHash r addr = codeHash := by
    rw [getCodeHash_eq, hhash, heq, storedHash_hashBytes]
  rw [← hread] at heq hstored
  refine ⟨heq, ?_, ne_none_iff_exists'.mp hstored⟩
  intro hnone
  rw [hnone] at hstored
  exact hstored (h.code_empty hempty)

/-- The code hash of an address stays, and so does its account, or the code is stored and the
account is there. -/
def Reindexed (k : Keeper E) (r r' : Contents) (a : Address) : Prop :=
  entries r' (.codeHash a) = entries r (.codeHash a) ∧
      (k.accountKeeper.getAccount r (addressBytes a) ≠ none →
        k.accountKeeper.getAccount r' (addressBytes a) ≠ none) ∨
    (∃ codeHash, entries r' (.codeHash a) = some (hashBytes codeHash) ∧
      entries r' (.code codeHash) ≠ none) ∧
    k.accountKeeper.getAccount r' (addressBytes a) ≠ none

/-- Contents that keep the codes and have each code hash as it was, or anew with its code and
its account. -/
theorem Kept.change (h : k.Kept r) (hkeys : OnEntries r r')
    (hcodes : ∀ codeHash code, entries r' (.code codeHash) = some code →
      entries r (.code codeHash) = some code ∨ code ≠ [] ∧ k.keccak256 code = codeHash)
    (hretains : Retains r r')
    (hindex : ∀ a, entries r' (.codeHash a) ≠ none → k.Reindexed r r' a) : k.Kept r' where
  keyed := hkeys.keyed h.keyed
  indexed := hkeys.indexed h.indexed
  codes := by
    intro codeHash code hstored
    obtain hold | hnew := hcodes codeHash code hstored
    · exact h.codes codeHash code hold
    · exact hnew
  coded := by
    intro a bytes hbytes
    obtain ⟨hsame, -⟩ | ⟨⟨codeHash, hhash, hstored⟩, -⟩ := hindex a (hbytes ▸ some_ne_none _)
    · obtain ⟨codeHash, heq, hstored⟩ := h.coded a bytes (hsame.symm.trans hbytes)
      exact ⟨codeHash, heq, hretains codeHash hstored⟩
    · exact ⟨codeHash, some.inj (hbytes.symm.trans hhash), hstored⟩
  account := by
    intro a hstored
    obtain ⟨hsame, hkeeps⟩ | ⟨-, haccount⟩ := hindex a hstored
    · exact hkeeps (h.account a (hsame ▸ hstored))
    · exact haccount

/-- The codes stay, and the index may change. -/
theorem Kept.reindex (h : k.Kept r) (hkeys : OnEntries r r')
    (hcode : ∀ codeHash, entries r' (.code codeHash) = entries r (.code codeHash))
    (hindex : ∀ a, entries r' (.codeHash a) ≠ none → k.Reindexed r r' a) :
    k.Kept r' ∧ Retains r r' := by
  have hretains : Retains r r' := by
    intro codeHash hstored
    rw [hcode]
    exact hstored
  refine ⟨h.change hkeys ?_ hretains hindex, hretains⟩
  intro codeHash code hstored
  exact .inl ((hcode codeHash).symm.trans hstored)

/-- The index and the codes stay, and no account is removed. -/
theorem Kept.congr (h : k.Kept r) (hkeys : OnEntries r r')
    (hcode : ∀ codeHash, entries r' (.code codeHash) = entries r (.code codeHash))
    (hhash : ∀ a, entries r' (.codeHash a) = entries r (.codeHash a))
    (haccount : ∀ a, k.accountKeeper.getAccount r a ≠ none →
      k.accountKeeper.getAccount r' a ≠ none) : k.Kept r' ∧ Retains r r' :=
  h.reindex hkeys hcode fun a _ => .inl ⟨hhash a, haccount _⟩

/-- The code hash of an account that is there is cleared, or set for a code that is stored. -/
theorem Kept.setIndex (h : k.Kept r) (hkeys : OnEntries r r') {value : Option Bytes}
    (hentries : entries r' = update (entries r) (.codeHash addr) value)
    (hvalue : value ≠ none → ∃ codeHash, value = some (hashBytes codeHash) ∧
      entries r (.code codeHash) ≠ none)
    (hown : k.accountKeeper.getAccount r' (addressBytes addr) ≠ none)
    (hothers : ∀ a, a ≠ addr → k.accountKeeper.getAccount r' (addressBytes a) =
      k.accountKeeper.getAccount r (addressBytes a)) : k.Kept r' ∧ Retains r r' := by
  have hcodes : ∀ codeHash, entries r' (.code codeHash) = entries r (.code codeHash) := by
    intro codeHash
    rw [hentries, update_of_ne (by simp)]
  refine h.reindex hkeys hcodes fun a hstored => ?_
  by_cases heq : a = addr
  · subst heq
    have hindex : entries r' (.codeHash a) = value := by
      rw [hentries, update_self]
    obtain ⟨codeHash, hhash, hcode⟩ := hvalue (hindex ▸ hstored)
    exact .inr ⟨⟨codeHash, hindex.trans hhash, (hcodes codeHash).symm ▸ hcode⟩, hown⟩
  · left
    rw [hentries, update_of_ne fun hsame => heq (Entry.codeHash.inj hsame), hothers a heq]
    exact ⟨rfl, id⟩

variable (ha : k.accountKeeper.Lawful) (hb : BankWrites k.bankWrapper.bk)

include ha in
/-- Code is set under its hash. -/
theorem Kept.setCode (h : k.Kept r) {code : Bytes} (hne : code ≠ [])
    (hr' : r' = overwritten r (setCode (k.keccak256 code) code)) :
    k.Kept r' ∧ Retains r r' ∧ entries r' (.code (k.keccak256 code)) = some code ∧
      OnEntries r r' ∧ k.accountKeeper.getAccount r' = k.accountKeeper.getAccount r := by
  have hentries : entries r' = update (entries r) (.code (k.keccak256 code)) (some code) := by
    rw [hr']
    exact entries_storeSet r (.code (k.keccak256 code)) code
  have hsets : Sets (∃ codeHash, · = .code codeHash) (VM.setCode (k.keccak256 code) code) :=
    sets_storeSet (.code _) ⟨_, rfl⟩ code
  have hkeys : OnEntries r r' := by
    rw [hr']
    exact hsets.onEntries r
  have hauth : k.accountKeeper.getAccount r' = k.accountKeeper.getAccount r := by
    rw [hr', ha.congr _ r (hsets.onStore.other (by decide) r)]
  have hretains : Retains r r' := by
    intro codeHash hstored
    rw [hentries, update_apply]
    split
    · exact some_ne_none _
    · exact hstored
  refine ⟨h.change hkeys ?_ hretains ?_, hretains, ?_, hkeys, hauth⟩
  · intro codeHash code' hstored
    rw [hentries, update_apply] at hstored
    split at hstored
    · next heq =>
      cases hstored
      exact .inr ⟨hne, (Entry.code.inj heq).symm⟩
    · exact .inl hstored
  · intro a _
    refine .inl ⟨?_, by rw [hauth]; exact id⟩
    rw [hentries, update_of_ne (by simp)]
  · rw [hentries, update_self]

include ha in
/-- Slots are set. -/
theorem Kept.setStates (h : k.Kept r) (hsets : Sets (∃ slot, · = .state addr slot) ws) :
    k.Kept (overwritten r ws) ∧ Retains r (overwritten r ws) := by
  refine h.congr (hsets.onEntries r) (fun _ => hsets.entry (by simp) r)
    (fun _ => hsets.entry (by simp) r) fun a hacct => ?_
  rw [ha.congr _ r (hsets.onStore.other (by decide) r)]
  exact hacct

include ha hb in
/-- An account is set with code that is stored. -/
theorem Kept.setAccount (h : k.Kept r) {account : Account}
    (hcode : account.codeHash ≠ k.emptyCodeHash → entries r (.code account.codeHash) ≠ none)
    (hset : (k.setAccount r addr account).err = none)
    (hr' : r' = overwritten r (k.setAccount r addr account).writes) : k.Kept r' ∧ Retains r r' := by
  obtain ⟨⟨acct, -, hauth⟩, hentries⟩ := setAccount_stores ha hb hset hr'
  have hkeys : OnEntries r r' := by
    rw [hr']
    exact (within_setAccount ha hb hset).onEntries r
  refine h.setIndex hkeys hentries (fun hvalue => ?_) ?_ fun a hne => ?_
  · unfold codeHashEntry at hvalue ⊢
    split_ifs at hvalue ⊢ with hempty
    · exact absurd rfl hvalue
    · exact ⟨account.codeHash, rfl, hcode hempty⟩
  · rw [hauth, update_self]
    exact some_ne_none _
  · rw [hauth, update_of_ne fun hsame => hne (addressBytes_inj hsame)]

include ha hb in
/-- An account is deleted with its code hash. -/
theorem Kept.deleteAccount (h : k.Kept r) (hdelete : (k.deleteAccount r addr).err = none)
    (hr' : r' = overwritten r (k.deleteAccount r addr).writes) : k.Kept r' ∧ Retains r r' := by
  cases hacct : k.accountKeeper.getAccount r (addressBytes addr) with
  | none =>
    rw [hr', deleteAccount_none hacct]
    exact ⟨h, fun _ hstored => hstored⟩
  | some acct =>
    obtain ⟨hauth, hentries⟩ := deleteAccount_stores ha hb hacct hdelete hr'
    obtain ⟨hgone, -⟩ := entries_deleteAccount ha hb hacct hdelete
    rw [← hr'] at hgone
    have hkeys : OnEntries r r' := by
      rw [hr']
      exact (within_deleteAccount ha hb hdelete).onEntries r
    refine h.reindex hkeys (fun codeHash => hentries (.code codeHash) id) fun a hstored => ?_
    have hne : a ≠ addr := by
      rintro rfl
      exact hstored hgone
    refine .inl ⟨hentries (.codeHash a) hne, ?_⟩
    rw [hauth, update_of_ne fun heq => hne (addressBytes_inj heq)]
    exact id

/-! ## Commits -/

section Commits

variable (hempty : k.OnlyEmpty)
include ha hempty

/-- The code of an object is written under its hash, and then stored if it has one. -/
theorem Kept.commitCode (h : k.Kept r) (hready : k.CodeReady obj r)
    (hr' : r' = overwritten r (commitCode k.env obj r)) :
    k.Kept r' ∧ Retains r r' ∧ (obj.account.codeHash ≠ k.emptyCodeHash →
      entries r' (.code obj.account.codeHash) ≠ none) := by
  unfold StateDB.commitCode at hr'
  split at hr'
  · next hnone =>
    rw [hr']
    refine ⟨h, fun _ hstored => hstored, fun hne => ?_⟩
    exact (hready.stored hne).resolve_left fun hnew => hnew.2 hnone
  · next code hcode =>
    have hhash : k.keccak256 code = obj.account.codeHash := hready.hashed code hcode
    split_ifs at hr' with hdirty hnil
    · -- The code that is deleted is the empty one, of which nothing is stored.
      have hnone : obj.account.codeHash = k.emptyCodeHash := by
        rw [← hhash, hnil]
        rfl
      have hentries : entries r' = update (entries r) (.code k.emptyCodeHash) none := by
        rw [hr', ← hnone]
        exact entries_storeDelete r (.code obj.account.codeHash)
      have hsame : entries r' = entries r := by
        rw [hentries, ← h.code_empty hempty, update_eq_self]
      have hsets : Sets (∃ codeHash, · = .code codeHash) (deleteCode obj.account.codeHash) :=
        sets_storeDelete (.code _) ⟨_, rfl⟩
      have hkeys : OnEntries r r' := by
        rw [hr']
        exact hsets.onEntries r
      obtain ⟨hkept, hretains⟩ := h.congr hkeys (fun _ => by rw [hsame]) (fun _ => by rw [hsame])
        (fun a hacct => by
          rw [hr']
          change k.accountKeeper.getAccount (overwritten r (deleteCode _)) a ≠ none
          rwa [ha.congr _ r (hsets.onStore.other (by decide) r)])
      exact ⟨hkept, hretains, fun hne => absurd hnone hne⟩
    · rw [← hhash] at hr' ⊢
      obtain ⟨hkept, hretains, hstored, -⟩ := h.setCode ha hnil hr'
      exact ⟨hkept, hretains, fun _ => hstored ▸ some_ne_none _⟩
    · rw [hr']
      refine ⟨h, fun _ hstored => hstored, fun hne => ?_⟩
      exact (hready.stored hne).resolve_left fun hnew => hdirty hnew.1

include hb

/-- Writing an object keeps the index. -/
theorem Kept.commitObject (h : k.Kept r) (hready : k.CodeReady obj r)
    (herr : (commitObject k.env obj r).err = none)
    (hr' : r' = overwritten r (commitObject k.env obj r).writes) : k.Kept r' ∧ Retains r r' := by
  unfold StateDB.commitObject at herr hr'
  split at herr <;> rename_i hdead
  · rw [if_pos hdead] at hr'
    obtain ⟨r₁, hwrites, hdelete, hcases⟩ := commitDestructed_cases herr
    have hbefore : k.Kept r₁ ∧ Retains r r₁ := by
      obtain ⟨rfl, -⟩ | ⟨code, r₀, hcode, hdirty, hne, hr₀, hset, hr₁⟩ := hcases
      · exact ⟨h, fun _ hstored => hstored⟩
      · have hhash : k.keccak256 code = obj.account.codeHash := hready.hashed code hcode
        rw [← hhash] at hr₀
        obtain ⟨hkept, hretains, hstored, -⟩ := h.setCode ha hne hr₀
        rw [hhash] at hstored
        obtain ⟨hkept', hretains'⟩ := hkept.setAccount ha hb
          (fun _ => hstored ▸ some_ne_none _) hset hr₁
        exact ⟨hkept', hretains.trans hretains'⟩
    obtain ⟨hkept, hretains⟩ := hbefore.1.deleteAccount ha hb hdelete (hr'.trans hwrites)
    exact ⟨hkept, hbefore.2.trans hretains⟩
  · rw [if_neg hdead] at hr'
    obtain ⟨r₁, r₂, hr₁, hset, hr₂, hwrites⟩ := commitLive_cases herr
    obtain ⟨hkept₁, hretains₁, hstored⟩ := h.commitCode ha hempty hready hr₁
    obtain ⟨hkept₂, hretains₂⟩ := hkept₁.setAccount ha hb hstored hset hr₂
    rw [hwrites] at hr'
    obtain ⟨hkept, hretains⟩ := hkept₂.setStates ha (sets_commitStorage _ _ r₂)
    rw [← hr'] at hkept hretains
    exact ⟨hkept, (hretains₁.trans hretains₂).trans hretains⟩

/-- A commit loop keeps the index. -/
theorem Kept.written {objects : FMap Address StateObject} {addrs : List Address} (h : k.Kept r)
    (hready : ∀ (a : Address) (obj : StateObject), objects[a]? = some obj → k.CodeReady obj r)
    (hwritten : Written k.env objects addrs r r') : k.Kept r' ∧ Retains r r' := by
  induction hwritten with
  | nil r => exact ⟨h, fun _ hstored => hstored⟩
  | cons hobj herr _ ih =>
    obtain ⟨hkept, hretains⟩ := h.commitObject ha hb hempty (hready _ _ hobj) herr rfl
    obtain ⟨hkept', hretains'⟩ := ih hkept fun a obj hobj => (hready a obj hobj).mono hretains
    exact ⟨hkept', hretains.trans hretains'⟩

end Commits

end Writes

end Keeper

/-! ## Runs -/

section Runs

variable {k : Keeper Event} {codec : BankCodec}

/-- Writes that leave the store of the module alone and remove no account. -/
structure Keeper.Spares (k : Keeper E) (ws : List Write) : Prop where
  other : ∀ w ∈ ws, w.1 ≠ storeKey
  accounts : ∀ r a, k.accountKeeper.getAccount r a ≠ none →
    k.accountKeeper.getAccount (overwritten r ws) a ≠ none

/-- Writes to other stores that remove no account keep the index. -/
theorem Keeper.Kept.others {k : Keeper E} {r : Contents} (h : k.Kept r)
    (hother : ∀ w ∈ ws, w.1 ≠ storeKey) (haccount : ∀ a, k.accountKeeper.getAccount r a ≠ none →
      k.accountKeeper.getAccount (overwritten r ws) a ≠ none) :
    k.Kept (overwritten r ws) ∧ Retains r (overwritten r ws) := by
  have hstore := overwritten_of_other hother r
  refine h.congr (fun key _ => congrFun hstore key) ?_ ?_ haccount
  · exact fun _ => congrFun (entries_congr hstore) _
  · exact fun _ => congrFun (entries_congr hstore) _

/-- Native code spares the store of the module and the accounts. -/
def Keeper.Allows (k : Keeper Event) : Action Bytes Value → Prop
  | .native e => k.Spares e.writes
  | _ => True

/-- In a transaction on `ctx`, the contents that a commit finds keep the index, what the keeper
had of code and all that is no entry, and every account has the hash of its code. -/
structure Coded (k : Keeper Event) (ctx : Context Bytes Value Event)
    (s : StateDB Bytes Value Event) : Prop where
  sameCtx : (s.observe k.env).ctx = ctx
  kept : k.Kept (s.observe k.env).contents
  retained : Retains ctx.reads (s.observe k.env).contents
  others : OnEntries ctx.reads (s.observe k.env).contents
  proper : ∀ a v, (s.observe k.env).accounts a = some v → Proper k.env Set.univ ctx a v

variable {ctx : Context Bytes Value Event}

variable {s t : StateDB Bytes Value Event}

section

variable (h : Coded k ctx s)
include h

theorem Coded.ready (hs : Valid k.env s) {a : Address}
    (hobj : s.stateObjects[a]? = some obj) : k.CodeReady obj (s.observe k.env).contents := by
  have hctx : s.ctx = ctx := h.sameCtx
  have hview : (s.observe k.env).accounts a = some (obj.view k.env ctx.reads) := by
    simp [StateDB.observe, StateDB.lookup, hobj, hctx]
  have hhash : k.keccak256 ((resolveCode k.env ctx.reads obj.account.codeHash
      obj.code).getD []) = obj.account.codeHash := (h.proper a _ hview).codeHash
  constructor
  · intro code hcode
    rw [hcode] at hhash
    exact hhash
  · intro hne
    cases hcode : obj.code with
    | some code =>
      cases hdirty : obj.dirtyCode with
      | true => exact .inl ⟨rfl, some_ne_none _⟩
      | false =>
        refine .inr (h.retained _ ?_)
        obtain hnone | hloaded := hs.tidy.code a obj hobj hdirty
        · exact absurd (hcode.symm.trans hnone) (some_ne_none _)
        · change k.env.getCode ctx.reads _ ≠ none
          rw [← hctx, ← hloaded, hcode]
          exact some_ne_none _
    | none =>
      refine .inr (h.retained _ fun hnone => hne ?_)
      have hread : k.env.getCode ctx.reads obj.account.codeHash = none := hnone
      rw [hcode, resolveCode, none_or, hread, ite_self] at hhash
      exact hhash.symm

theorem Coded.congr (hctx : (t.observe k.env).ctx = (s.observe k.env).ctx)
    (hcontents : (t.observe k.env).contents = (s.observe k.env).contents)
    (hproper : ∀ a v, (t.observe k.env).accounts a = some v →
      Proper k.env Set.univ ctx a v) : Coded k ctx t where
  sameCtx := hctx.trans h.sameCtx
  kept := hcontents ▸ h.kept
  retained := hcontents ▸ h.retained
  others := hcontents ▸ h.others
  proper := hproper

theorem Coded.recorded (hrecorded : UndoLog.Recorded (Change k.env Set.univ)
      (s.journal.entries, s.observe k.env) (t.journal.entries, t.observe k.env))
    (hcontents : (t.observe k.env).contents = (s.observe k.env).contents) : Coded k ctx t := by
  have hproper := hrecorded.invariant (fun x => x.2.ctx = ctx ∧
    ∀ a v, x.2.accounts a = some v → Proper k.env Set.univ ctx a v)
    (by
      rintro log o e o' ⟨hctx, ho⟩ ⟨x, hx, rfl⟩
      have hxs : ∀ a v, x.accounts a = some v → Proper k.env Set.univ ctx a v :=
        hx.proper (Set.mem_univ _) hctx ho
      exact ⟨hx.ctx_eq.trans hctx, hxs⟩) ⟨h.sameCtx, h.proper⟩
  exact h.congr (hproper.1.trans h.sameCtx.symm) hcontents hproper.2

theorem Coded.getCacheContext : Coded k ctx s.getCacheContext := by
  have hsame : (s.getCacheContext.observe k.env).ctx = (s.observe k.env).ctx ∧
      (s.getCacheContext.observe k.env).accounts = (s.observe k.env).accounts := by
    unfold StateDB.getCacheContext
    split <;> exact ⟨rfl, rfl⟩
  refine h.congr hsame.1 contents_getCacheContext ?_
  rw [hsame.2]
  exact h.proper

/-- Another cache context, whose contents keep the index and the code. -/
theorem Coded.cache {c c' : CacheContext Bytes Value Event} {n : Nat}
    (hc : s.cache = some c) (hc' : k.Kept c.reads → k.Kept c'.reads ∧ Retains c.reads c'.reads)
    (hothers : OnEntries c.reads c'.reads) :
    Coded k ctx { s with cache := some c', processedEventsCount := n } := by
  obtain ⟨hctx, hkept, hretained, hsame, hproper⟩ := h
  rw [contents_of_cache hc] at hkept hretained hsame
  obtain ⟨hkept', hretains⟩ := hc' hkept
  refine ⟨hctx, ?_, ?_, ?_, hproper⟩
  · exact hkept'
  · exact hretained.trans hretains
  · exact hsame.trans hothers

/-- Native code. -/
theorem Coded.native (hs : Valid k.env s) {e : Effects Bytes Value Event}
    (hspares : k.Spares e.writes) (hnative : s.native e = .ok t) : Coded k ctx t := by
  obtain ⟨c, c', hc, hk, rfl⟩ := native_cases hnative
  obtain ⟨-, hreads, -⟩ := CacheContext.apply_above (hs.good.cache c hc) hk
  refine h.cache (n := s.processedEventsCount) hc ?_ ?_
  · intro hkept
    rw [hreads]
    exact hkept.others hspares.other (hspares.accounts _)
  · intro key _
    rw [hreads, overwritten_of_other hspares.other]

end

/-- Before its first step a transaction finds the accounts of the keeper. -/
theorem init_coded (hempty : k.OnlyEmpty) {txIndex : Nat} (h : k.Kept ctx.reads) :
    (Config.init ctx txIndex).Holds (Coded k ctx) := by
  refine ⟨⟨rfl, h, fun _ hstored => hstored, fun _ _ => rfl, ?_⟩, fun _ hmem => nomatch hmem⟩
  intro a v hv
  obtain ⟨obj, hobj, rfl⟩ := map_eq_some_iff.mp hv
  obtain ⟨account, haccount, rfl⟩ := map_eq_some_iff.mp hobj
  obtain ⟨acct, -, rfl⟩ := map_eq_some_iff.mp haccount
  refine ⟨rfl, Set.mem_univ _, ?_⟩
  change k.keccak256 ((resolveCode k.env ctx.reads (k.getCodeHash ctx.reads a)
    none).getD []) = k.getCodeHash ctx.reads a
  cases hhash : entries ctx.reads (.codeHash a) with
  | none =>
    have hread : k.getCodeHash ctx.reads a = k.emptyCodeHash := by
      rw [getCodeHash_eq, hhash]
      rfl
    have hempty : k.env.isEmptyCodeHash k.emptyCodeHash = true := beq_self_eq_true _
    rw [hread, resolveCode, hempty]
    rfl
  | some bytes =>
    obtain ⟨-, hne, code, hcode⟩ := h.code_of_codeHash hempty hhash
    have hread : k.env.getCode ctx.reads (k.getCodeHash ctx.reads a) = some code := hcode
    have hnot : k.env.isEmptyCodeHash (k.getCodeHash ctx.reads a) = false := by
      rw [Env.isEmptyCodeHash, beq_eq_false_iff_ne]
      exact hne
    rw [resolveCode, hnot, if_neg Bool.false_ne_true, hread]
    exact (h.codes _ _ hcode).2

section Steps

variable (ha : k.accountKeeper.Lawful) (hb : BankWrites k.bankWrapper.bk) (hempty : k.OnlyEmpty)
include ha hb hempty

theorem Coded.flush {s t : StateDB Bytes Value Event} (hs : Valid k.env s) (h : Coded k ctx s)
    (hflush : s.flushToCacheCtx k.env = .ok (none, t)) : Coded k ctx t := by
  obtain ⟨c, c', hc, rfl, hwritten⟩ := flush_written hs hflush
  have hready : ∀ (a : Address) (obj : StateObject), s.stateObjects[a]? = some obj →
      k.CodeReady obj c.reads := by
    intro a obj hobj
    rw [← contents_of_cache hc]
    exact h.ready hs hobj
  exact h.cache hc (fun hkept => hkept.written ha hb hempty hready hwritten)
    (onEntries_written ha hb hwritten)

theorem Coded.beginNative {s t : StateDB Bytes Value Event} (hs : Valid k.env s)
    (h : Coded k ctx s) (hbegin : s.beginNative k.env = .ok (none, t)) : Coded k ctx t := by
  obtain ⟨u, hcalled, hcontents, -, -, -, hflush⟩ := beginNative_flushed hs hbegin
  have hu : Coded k ctx u := h.getCacheContext.recorded hcalled.inside.recorded hcontents
  exact hu.flush ha hb hempty hcalled.inside.valid hflush

/-- A step of a transaction keeps the index. -/
theorem step_coded {cfg cfg' : Config Bytes Value} {action : Action Bytes Value} {n : Nat}
    (hopen : cfg.Open k.env n) (hallows : k.Allows action) (h : cfg.Holds (Coded k ctx))
    (hstep : cfg.step k.env codec action = .ok cfg') : cfg'.Holds (Coded k ctx) := by
  have hvalid : Valid k.env cfg.db := Framed.valid hopen
  have hfollows : ∀ {t}, Follows k.env Set.univ cfg.db t → Coded k ctx t := fun hf =>
    h.db.recorded hf.recorded (contents_congr hf.cache.1 hf.ctx_eq)
  refine Config.step_holds (fun s t hobs hs => ?_) (fun s hs => hs.getCacheContext) ?_ ?_ ?_ ?_
    ?_ hopen h hstep
  · exact hs.congr (congrArg _ hobs) (congrArg _ hobs) (hobs ▸ hs.proper)
  · rintro o plain t rfl - hf
    exact hfollows hf
  · rintro handled t rfl hres
    exact h.db.beginNative ha hb hempty hvalid hres
  · rintro e t rfl hres
    exact h.db.native hvalid hallows hres
  · rintro t rfl hres
    exact h.db.flush ha hb hempty hvalid hres
  · intro prev t hres hf
    exact hfollows hf

/-- A transaction that commits keeps the index, and writes entries only. -/
theorem commit_kept {txIndex : Nat} {actions : List (Action Bytes Value)}
    {cfg : Config Bytes Value} {u : StateDB Bytes Value Event} (h : k.Kept ctx.reads)
    (hallows : ∀ action ∈ actions, k.Allows action)
    (hrun : (Config.init ctx txIndex).run k.env codec actions = some cfg)
    (hcommit : cfg.db.commit k.env = .ok (none, u)) :
    k.Kept u.ctx.reads ∧ OnEntries ctx.reads u.ctx.reads := by
  obtain ⟨hopen, hcoded⟩ := Runs.run_invariant
    (fun cfg => cfg.Open k.env ctx.events.length ∧ cfg.Holds (Coded k ctx)) k.Allows
    (fun c action c' hallow hc hstep =>
      have hok := Outcomes.toOption_eq_some.mp hstep
      ⟨(Config.step_safe codec hc.1 action).of_ok hok,
        step_coded ha hb hempty hc.1 hallow hc.2 hok⟩) hallows
    ⟨Config.init_open ctx txIndex, init_coded hempty h⟩ hrun
  have hvalid : Valid k.env cfg.db := Framed.valid hopen
  have hwritten := commit_written hvalid hcommit
  obtain ⟨hkept, -⟩ := hcoded.db.kept.written ha hb hempty
    (fun a obj hobj => hcoded.db.ready hvalid hobj) hwritten
  exact ⟨hkept, hcoded.db.others.trans (onEntries_written ha hb hwritten)⟩

end Steps

end Runs

end InfiniteEvm.VM
