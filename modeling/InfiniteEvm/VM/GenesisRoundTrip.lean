import InfiniteEvm.VM.Genesis
import InfiniteEvm.VM.HeaderHashes

/-!
# Genesis round trip of `x/vm`

An export lists the accounts of the index of code hashes. An import of it brings back their
code hashes, codes and slots. The slots of an account that is not in the index are lost, such
as those that an account wrote while its code was a delegation that it has cleared since.
-/

namespace InfiniteEvm.VM

open Std Library SnapshotMulti StateDB List Session Keeper Option Config Entry Outcomes GenesisEnv
open Erc20 (isHexAddress fromHex hexToAddress hexToAddress_addressText stripHexPrefix Metadata)

variable {E : Type} {ws : List Write} {a : Address} {s : Session E} {data : GenesisState}

/-! ## What an import writes -/

/-- The value that is written for an entry that was exported from `r`. -/
def restored (r : Contents) : Entry → Bytes
  | .state a slot => hashBytes (getState r a slot)
  | .code h => (entries r (.code h)).getD []
  | .codeHash a => (entries r (.codeHash a)).getD []

def restore (r : Contents) (e : Entry) : List Write := storeSet e.key (restored r e)

/-- Entries that are written have their value, whatever the order. -/
theorem entries_restore (r : Contents) (es : List Entry) (r' : Contents) (e : Entry) :
    entries (overwritten r' (es.flatMap (restore r))) e =
      if e ∈ es then some (restored r e) else entries r' e := by
  induction es generalizing r' with
  | nil => rfl
  | cons e' rest ih =>
    rw [flatMap_cons, overwritten_append, ih, restore, entries_storeSet, Function.update_apply]
    by_cases heq : e = e'
    · simp [heq]
    · simp [heq]

theorem onStore_restore (r : Contents) (es : List Entry) :
    OnStore storeKey (es.flatMap (restore r)) :=
  (Sets.flatMap fun e => sets_storeSet (P := fun _ => True) e trivial _).onStore

theorem Session.write_write (s : Session E) (ws ws' : List Write) :
    (s.write ws).write ws' = s.write (ws ++ ws') := by
  simp only [write, append_assoc]

theorem initStorage_eq (a : Address) (s : Session E) (storage : List State) :
    Keeper.initStorage a s storage = s.write (storage.flatMap fun state =>
      setState a (hexToHash state.key) (hashBytes (hexToHash state.value))) := by
  induction storage generalizing s with
  | nil =>
    rw [List.flatMap_nil, Session.write, List.append_nil]
    rfl
  | cons state rest ih =>
    rw [List.flatMap_cons, ← Session.write_write, ← ih]
    rfl

namespace Keeper

variable {k : Keeper E} {g : GenesisEnv} {r : Contents}

/-- The entries of an account that is exported. -/
def exported (k : Keeper E) (r : Contents) (p : Address × Hash) : List Entry :=
  [.codeHash p.1, .code p.2] ++ (k.slots r p.1).map fun slot => .state p.1 slot.1

/-- All entries that an export has. -/
def exportedEntries (k : Keeper E) (r : Contents) : List Entry :=
  (k.contracts r).flatMap (k.exported r)

section Reads

variable (hk : k.Iterates) (hlisted : Listed r) (hr : k.Kept r) (hempty : k.OnlyEmpty)
include hk hlisted hr hempty

theorem mem_exportedEntries {e : Entry} :
    e ∈ k.exportedEntries r ↔ ∃ a, entries r (.codeHash a) ≠ none ∧
      ((e = .codeHash a ∨ e = .code (k.getCodeHash r a)) ∨
        ∃ slot, entries r (.state a slot) ≠ none ∧ .state a slot = e) := by
  simp only [exportedEntries, mem_flatMap, exported, mem_append, mem_cons, not_mem_nil, or_false,
    List.mem_map, Prod.exists, mem_contracts hk hlisted hr hempty, mem_slots hk hlisted hr.keyed,
    and_assoc, exists_and_left, exists_eq_left]
  rfl

theorem codeHash_mem_exported (a : Address) :
    .codeHash a ∈ k.exportedEntries r ↔ entries r (.codeHash a) ≠ none := by
  simp [mem_exportedEntries hk hlisted hr hempty]

theorem code_mem_exported (h : Hash) :
    .code h ∈ k.exportedEntries r ↔
      ∃ a, entries r (.codeHash a) ≠ none ∧ h = k.getCodeHash r a := by
  simp [mem_exportedEntries hk hlisted hr hempty]

theorem state_mem_exported (a : Address) (slot : Hash) :
    .state a slot ∈ k.exportedEntries r ↔
      entries r (.codeHash a) ≠ none ∧ entries r (.state a slot) ≠ none := by
  simp [mem_exportedEntries hk hlisted hr hempty]

end Reads

/-! ## Import of an export -/

/-- An account that was exported is read back entry by entry. -/
theorem initAccount_export (hk : k.Iterates) (hlisted : Listed r) (hr : k.Kept r)
    (hempty : k.OnlyEmpty) {p : Address × Hash} (hp : p ∈ k.contracts r)
    (hacct : k.accountKeeper.getAccount s.reads (addressBytes p.1) ≠ none) :
    k.initAccount s (k.exportAccount g r p.1 p.2) =
      .ok (s.write ((k.exported r p).flatMap (restore r))) := by
  obtain ⟨a, h⟩ := p
  obtain ⟨hstored, rfl⟩ := (mem_contracts hk hlisted hr hempty).mp hp
  obtain ⟨bytes, hbytes⟩ := ne_none_iff_exists'.mp hstored
  obtain ⟨hhash, hnonempty, code, hcode⟩ := hr.code_of_codeHash hempty hbytes
  obtain ⟨hcodeNe, hkeccak⟩ := hr.codes _ _ hcode
  obtain ⟨acct, hacct⟩ := ne_none_iff_exists'.mp hacct
  have hread : hex2Bytes (k.exportAccount g r a (k.getCodeHash r a)).code = code := by
    rw [exportAccount, hex2Bytes_bytes2Hex, getCode_eq, hcode, getD_some]
  have haddress : hexToAddress (k.exportAccount g r a (k.getCodeHash r a)).address = a :=
    hexToAddress_addressText g.upper a
  have hstorage : (k.getAccountStorage r a).flatMap (fun state =>
      setState a (hexToHash state.key) (hashBytes (hexToHash state.value))) =
      ((k.slots r a).map fun slot => state a slot.1).flatMap (restore r) := by
    rw [getAccountStorage_eq, flatMap_map, flatMap_map]
    refine flatMap_congr fun slot hslot => ?_
    obtain ⟨-, hvalue⟩ := (mem_slots hk hlisted hr.keyed a slot.1 slot.2).mp hslot
    rw [newState, hexToHash_hashText, hexToHash_hashText, hvalue]
    rfl
  have hwrites : (k.exported r (a, k.getCodeHash r a)).flatMap (restore r) =
      setCodeHash a (k.getCodeHash r a) ++ setCode (k.getCodeHash r a) code ++
        ((k.slots r a).map fun slot => state a slot.1).flatMap (restore r) := by
    rw [exported, flatMap_append, flatMap_cons, flatMap_cons, flatMap_nil,
      append_nil, restore, restore, restored, restored, hbytes, hcode, hhash]
    rfl
  simp only [initAccount, haddress, hacct, hread, hkeccak, if_neg hnonempty, if_neg hcodeNe]
  rw [initStorage_eq, write_write, write_write, hwrites, ← hstorage]
  rfl

theorem initAccounts_export (ha : k.accountKeeper.Lawful) (hk : k.Iterates) (hlisted : Listed r)
    (hr : k.Kept r) (hempty : k.OnlyEmpty) {items : List (Address × Hash)}
    (hitems : ∀ p ∈ items, p ∈ k.contracts r) (haccounts : s.reads authStore = r authStore) :
    k.initAccounts s (items.map fun p => k.exportAccount g r p.1 p.2) =
      .ok (s.write ((items.flatMap (k.exported r)).flatMap (restore r))) := by
  induction items generalizing s with
  | nil =>
    rw [List.flatMap_nil, List.flatMap_nil, Session.write, List.append_nil]
    rfl
  | cons p rest ih =>
    have hp := hitems p (List.mem_cons_self ..)
    have hacct : k.accountKeeper.getAccount s.reads (addressBytes p.1) ≠ none := by
      rw [ha.congr _ _ haccounts]
      exact hr.account _ ((mem_contracts hk hlisted hr hempty).mp hp).1
    have hnext : (s.write ((k.exported r p).flatMap (restore r))).reads authStore =
        r authStore := by
      rw [Session.reads_write, (onStore_restore r _).other (by decide), haccounts]
    change (k.initAccount s (k.exportAccount g r p.1 p.2)).bind _ = _
    rw [initAccount_export hk hlisted hr hempty hp hacct]
    change k.initAccounts _ (rest.map _) = _
    rw [ih (fun q hq => hitems q (List.mem_cons_of_mem _ hq)) hnext, Session.write_write,
      List.flatMap_cons, List.flatMap_append]

/-- What an import does, step by step. -/
theorem initGenesis_eq_ok {t : Session E} :
    k.initGenesis g s data = .ok t ↔
      ∃ ws, setParams g.cdc g.rules data.params = .ok ws ∧ g.moduleAddress ≠ none ∧
      ∃ u, k.initAccounts (s.write ws) data.accounts = .ok u ∧
      ∃ info bz, g.loadEvmCoinInfo (u.reads bankStore) = .ok info ∧
        g.marshalCoinInfo info = .ok bz ∧ g.configure info = none ∧
        k.addPreinstalls (u.write (storeSet keyPrefixEvmCoinInfo bz)) data.preinstalls = .ok t := by
  unfold initGenesis
  cases hparams : setParams g.cdc g.rules data.params with
  | error err => simp
  | ok ws =>
    cases hmodule : g.moduleAddress with
    | none => simp
    | some addr =>
      cases haccounts : k.initAccounts (s.write ws) data.accounts with
      | error err => simp [haccounts, Except.bind]
      | ok u =>
        cases hinfo : g.loadEvmCoinInfo (u.reads bankStore) with
        | error err => simp [haccounts, hinfo, initEvmCoinInfo, Except.bind]
        | ok info =>
          cases hbz : g.marshalCoinInfo info with
          | error err =>
            simp [haccounts, hinfo, hbz, initEvmCoinInfo, Except.bind, Except.map]
          | ok bz =>
            cases hconfigure : g.configure info with
            | some err =>
              simp [haccounts, hinfo, hbz, hconfigure, initEvmCoinInfo, Except.bind, Except.map]
            | none =>
              cases hpre : k.addPreinstalls
                  (u.write (storeSet keyPrefixEvmCoinInfo bz)) data.preinstalls <;>
                simp [haccounts, hinfo, hbz, hconfigure, hpre,
                  initEvmCoinInfo, Except.bind, Except.map]

end Keeper

/-! ## The parameters -/

/-- The parameters in the store are as `SetParams` writes them. -/
def ParamsSet (g : GenesisEnv) (r : Contents) : Prop :=
  ∃ p bz, p.sortPrecompiles = p ∧ g.rules.validate p = none ∧ g.cdc.marshal p = .ok bz ∧
    storeGet r keyPrefixParams = some bz

theorem Params.sortPrecompiles_idem (p : Params) :
    p.sortPrecompiles.sortPrecompiles = p.sortPrecompiles := by
  have hsorted : (p.activeStaticPrecompiles.mergeSort (fun a b => a ≤ b)).Pairwise
      (fun a b => decide (a ≤ b) = true) := by
    refine pairwise_mergeSort ?_ ?_ _
    · intro a b c hab hbc
      exact decide_eq_true (Std.le_trans (of_decide_eq_true hab) (of_decide_eq_true hbc))
    · intro a b
      rw [Bool.or_eq_true, decide_eq_true_eq, decide_eq_true_eq]
      exact Std.le_total
  unfold Params.sortPrecompiles
  rw [mergeSort_of_pairwise hsorted]

section ParamsSet

variable {g : GenesisEnv} {r r' : Contents}

theorem ParamsSet.congr (h : ParamsSet g r)
    (hsame : r' storeKey keyPrefixParams = r storeKey keyPrefixParams) : ParamsSet g r' := by
  obtain ⟨p, bz, hsorted, hvalid, hbz, hget⟩ := h
  refine ⟨p, bz, hsorted, hvalid, hbz, ?_⟩
  rw [storeGet, hsame]
  exact hget

theorem ParamsSet.onEntries (h : ParamsSet g r) (hkeys : OnEntries r r') : ParamsSet g r' :=
  h.congr (hkeys _ keyPrefixParams_ne)

theorem paramsSet_setParams {p : Params} (h : setParams g.cdc g.rules p = .ok ws) (r : Contents) :
    ParamsSet g (overwritten r ws) := by
  obtain ⟨hvalid, bz, hbz, rfl⟩ := setParams_ok h
  refine ⟨p.sortPrecompiles, bz, p.sortPrecompiles_idem, hvalid, hbz, ?_⟩
  simp [storeGet, storeSet, overwritten]

/-- The parameters are read as they were set, and setting them again writes the same. -/
theorem ParamsSet.reads (h : ParamsSet g r) :
    ∃ p ws, getParams g.cdc r = some p ∧ g.rules.validate p = none ∧
      setParams g.cdc g.rules p = .ok ws := by
  obtain ⟨p, bz, hsorted, hvalid, hbz, hget⟩ := h
  refine ⟨p, storeSet keyPrefixParams bz, ?_, hvalid, ?_⟩
  · rw [getParams, hget]
    exact g.cdc.roundTrip p bz hbz
  · rw [setParams, hsorted, hvalid, hbz]
    rfl

end ParamsSet

/-! ## The index over genesis and messages -/

namespace Keeper

section Writes

variable {k : Keeper E} {r r' : Contents}

theorem kept_of_empty (h : r storeKey = fun _ => none) : k.Kept r := by
  have hget : ∀ key, storeGet r key = none := by
    intro key
    rw [storeGet, h]
  have hentries : ∀ e, entries r e = none := fun e => hget e.key
  constructor
  · exact fun a key _ hstored => absurd (hget key) hstored
  · exact fun key _ hstored => absurd (hget key) hstored
  · exact fun codeHash code hstored => by cases (hentries (.code codeHash)).symm.trans hstored
  · exact fun a bytes hstored => by cases (hentries (.codeHash a)).symm.trans hstored
  · exact fun a hstored => absurd (hentries (.codeHash a)) hstored

variable (ha : k.accountKeeper.Lawful)
include ha

omit ha in
theorem entries_setAside {b : UInt8} (hb : b ≠ 1 ∧ b ≠ 2 ∧ b ≠ 4) (r : Contents) (bz : Bytes) :
    entries (overwritten r (storeSet [b] bz)) = entries r := by
  funext e
  have hne : [b] ≠ e.key := by
    intro heq
    cases e with
    | code h => exact hb.1 (cons.inj heq).1
    | state a slot => exact hb.2.1 (cons.inj heq).1
    | codeHash a => exact hb.2.2 (cons.inj heq).1
  simp [entries, storeGet, storeSet, overwritten, hne]

/-- A value is set under a key of one byte that is no prefix of entries. -/
theorem Kept.setAside (h : k.Kept r) {b : UInt8} (hb : b ≠ 1 ∧ b ≠ 2 ∧ b ≠ 4) (bz : Bytes) :
    k.Kept (overwritten r (storeSet [b] bz)) := by
  have hget : ∀ key, key ≠ [b] →
      storeGet (overwritten r (storeSet [b] bz)) key = storeGet r key := by
    intro key hne
    simp [storeGet, storeSet, overwritten, Ne.symm hne]
  have hentries := entries_setAside hb r bz
  have hauth : k.accountKeeper.getAccount (overwritten r (storeSet [b] bz)) =
      k.accountKeeper.getAccount r := ha.congr _ _ ((onStore_storeSet _ _).other (by decide) r)
  constructor
  · rintro a key ⟨rest, rfl⟩ hstored
    have hother : addressStoragePrefix a ++ rest ≠ [b] :=
      fun heq => hb.2.1 (cons.inj heq).1.symm
    rw [hget _ hother] at hstored
    exact h.keyed a _ (prefix_append _ _) hstored
  · rintro key ⟨rest, rfl⟩ hstored
    have hother : keyPrefixCodeHash ++ rest ≠ [b] :=
      fun heq => hb.2.2 (cons.inj heq).1.symm
    rw [hget _ hother] at hstored
    exact h.indexed _ (prefix_append _ _) hstored
  · rw [hentries]
    exact h.codes
  · rw [hentries]
    exact h.coded
  · rw [hentries, hauth]
    exact h.account

theorem Kept.setParams {g : GenesisEnv} {p : Params} (h : k.Kept r)
    (hset : VM.setParams g.cdc g.rules p = .ok ws) : k.Kept (overwritten r ws) := by
  obtain ⟨-, bz, -, rfl⟩ := setParams_ok hset
  exact h.setAside ha (by decide) bz

/-- Code is set under its hash, for an account that is there. -/
theorem Kept.install (h : k.Kept r) {code : Bytes} (hcode : code ≠ [])
    (hacct : k.accountKeeper.getAccount r (addressBytes a) ≠ none)
    (hr' : r' = overwritten (overwritten r (setCodeHash a (k.keccak256 code)))
      (VM.setCode (k.keccak256 code) code)) : k.Kept r' ∧ OnEntries r r' := by
  -- Setting the code first leaves the same entries.
  obtain ⟨r₁, hr₁⟩ : ∃ r₁, r₁ = overwritten r (VM.setCode (k.keccak256 code) code) := ⟨_, rfl⟩
  obtain ⟨hkept, -, hstored, hkeys₁, hauth₁⟩ := h.setCode ha hcode hr₁
  have hcodeSets : Sets (· = .code (k.keccak256 code)) (VM.setCode (k.keccak256 code) code) :=
    sets_storeSet (.code _) (by rfl) code
  have hhashSets : Sets (· = .codeHash a) (setCodeHash a (k.keccak256 code)) :=
    sets_storeSet (.codeHash a) (by rfl) _
  have hentries : entries r' = Function.update (entries r₁) (.codeHash a)
      (some (hashBytes (k.keccak256 code))) := by
    have hset : entries r₁ =
        Function.update (entries r) (.code (k.keccak256 code)) (some code) := by
      rw [hr₁]
      exact entries_storeSet r (.code (k.keccak256 code)) code
    have hhash := entries_storeSet r (.codeHash a) (hashBytes (k.keccak256 code))
    rw [hset, Function.update_comm (by simp), ← hhash, hr']
    exact entries_storeSet _ (.code (k.keccak256 code)) code
  have hkeys : OnEntries r r' := by
    rw [hr']
    exact (hhashSets.onEntries r).trans (hcodeSets.onEntries _)
  have hauth : k.accountKeeper.getAccount r' = k.accountKeeper.getAccount r := by
    apply ha.congr
    rw [hr', hcodeSets.onStore.other (by decide), hhashSets.onStore.other (by decide)]
  refine ⟨(hkept.setIndex (fun key hkey => (hkeys key hkey).trans (hkeys₁ key hkey).symm) hentries
    (fun _ => ⟨_, rfl, hstored ▸ some_ne_none _⟩) (hauth ▸ hacct) fun a' _ => ?_).1, hkeys⟩
  rw [hauth, hauth₁]

end Writes

/-- The account for a token: its nonce and balance stay if it exists. -/
def erc20Account (k : Keeper E) (codeHash : Hash) (r : Contents) (erc20Addr : Address) : Account :=
  match k.getAccount r erc20Addr with
  | some acc => { codeHash, nonce := acc.nonce, balance := acc.balance }
  | none => { codeHash, nonce := 0, balance := 0 }

/-- `RegisterERC20CodeHash` of `x/erc20`. -/
def registerERC20CodeHash (k : Keeper E) (bytecode : Bytes) (r : Contents) (erc20Addr : Address) :
    Effects Bytes Value E :=
  let codeHash := k.keccak256 bytecode
  let ws := if (getCode r codeHash).getD [] = [] then setCode codeHash bytecode else []
  let r := overwritten r ws
  let set := k.setAccount r erc20Addr (k.erc20Account codeHash r erc20Addr)
  { set with writes := ws ++ set.writes }

theorem codeHash_erc20Account (k : Keeper E) (codeHash : Hash) (r : Contents) (a : Address) :
    (k.erc20Account codeHash r a).codeHash = codeHash := by
  unfold erc20Account
  split <;> rfl

end Keeper

/-- The store as genesis, messages and transactions leave it. -/
structure Settled (k : Keeper E) (g : GenesisEnv) (r : Contents) : Prop where
  kept : k.Kept r
  params : ParamsSet g r

section Settled

variable {k : Keeper E} {g : GenesisEnv} {r : Contents} {s t : Session E}

/-- Writes to other stores that remove no account. -/
theorem Settled.others (h : Settled k g r) (hother : ∀ w ∈ ws, w.1 ≠ storeKey)
    (haccount : ∀ a, k.accountKeeper.getAccount r a ≠ none →
      k.accountKeeper.getAccount (overwritten r ws) a ≠ none) : Settled k g (overwritten r ws) := by
  refine ⟨(h.kept.others hother haccount).1, h.params.congr ?_⟩
  rw [overwritten_of_other hother]

variable (ha : k.accountKeeper.Lawful)
include ha

/-- Slots of an account are set. -/
theorem Settled.setStates (h : Settled k g r) (hws : Sets (∃ slot, · = .state a slot) ws) :
    Settled k g (overwritten r ws) :=
  ⟨(h.kept.setStates ha hws).1, h.params.onEntries (hws.onEntries r)⟩

section

variable (h : Settled k g s.reads)
include h

theorem Settled.install {code : Bytes} (hcode : code ≠ [])
    (hacct : k.accountKeeper.getAccount s.reads (addressBytes a) ≠ none) :
    Settled k g ((s.write (setCodeHash a (k.keccak256 code))).write
      (setCode (k.keccak256 code) code)).reads := by
  obtain ⟨hkept, hkeys⟩ := h.kept.install ha hcode hacct rfl
  rw [reads_write, reads_write]
  exact ⟨hkept, h.params.onEntries hkeys⟩

/-- An account of a genesis file. -/
theorem Settled.initAccount (hempty : k.OnlyEmpty) {account : GenesisAccount}
    (hinit : k.initAccount s account = .ok t) : Settled k g t.reads := by
  have hstates : ∀ (a : Address) (s : Session E), Settled k g s.reads →
      Settled k g (Keeper.initStorage a s account.storage).reads := by
    intro a s hs
    rw [initStorage_eq, Session.reads_write]
    exact hs.setStates ha (.flatMap fun state => sets_storeSet (.state a _) ⟨_, rfl⟩ _)
  unfold Keeper.initAccount at hinit
  simp only at hinit
  split at hinit
  · cases hinit
  · next acct hacct =>
    cases hinit
    by_cases hcode : hex2Bytes account.code = []
    · -- Without code there is no hash to set either.
      have hhash : k.keccak256 (hex2Bytes account.code) = k.emptyCodeHash := by
        rw [hcode]
        rfl
      rw [if_pos hhash, if_pos hcode]
      exact hstates _ _ h
    · have hhash : k.keccak256 (hex2Bytes account.code) ≠ k.emptyCodeHash :=
        fun heq => hcode (hempty _ heq)
      rw [if_neg hhash, if_neg hcode]
      exact hstates _ _ (h.install ha hcode (hacct ▸ Option.some_ne_none _))

theorem Settled.initAccounts (hempty : k.OnlyEmpty) {accounts : List GenesisAccount}
    (hinit : k.initAccounts s accounts = .ok t) :
    Settled k g t.reads := by
  induction accounts generalizing s with
  | nil =>
    cases hinit
    exact h
  | cons account rest ih =>
    obtain ⟨u, hu, hrest⟩ := bind_eq_ok.mp hinit
    exact ih (h.initAccount ha hempty hu) hrest

/-- A preinstall is set up with its code. -/
theorem Settled.addPreinstall {p : Preinstall}
    (hadd : k.addPreinstall s p = .ok t) : Settled k g t.reads := by
  unfold Keeper.addPreinstall at hadd
  simp only at hadd
  split_ifs at hadd with hblank hhash hother
  split at hadd
  · cases hadd
  · cases hadd
    have hcode : fromHex p.code ≠ [] := by
      intro hnil
      rw [hnil] at hhash
      exact hhash rfl
    have hauth : ∀ {ws : List Write}, OnStore authStore ws → ∀ w ∈ ws, w.1 ≠ storeKey :=
      fun hws w hw => hws w hw ▸ by decide
    obtain ⟨haddress, hnew, hsame⟩ := ha.newAccount s.reads (addressBytes (hexToAddress p.address))
    have hset := ha.setAccount (s.write (k.accountKeeper.newAccountWithAddress s.reads
      (addressBytes (hexToAddress p.address))).2).reads (k.accountKeeper.newAccountWithAddress
        s.reads (addressBytes (hexToAddress p.address))).1
    rw [haddress] at hset
    have hsettled := h.others (hauth hnew) fun a hacct => hsame ▸ hacct
    rw [← Session.reads_write] at hsettled
    have hsettled' := hsettled.others (hauth hset.1) fun a hacct => by
      rw [hset.2, Function.update_apply]
      split
      · exact Option.some_ne_none _
      · exact hacct
    rw [← Session.reads_write] at hsettled'
    refine hsettled'.install ha hcode ?_
    rw [Session.reads_write, hset.2, Function.update_self]
    exact Option.some_ne_none _

theorem Settled.addPreinstalls {preinstalls : List Preinstall}
    (hadd : k.addPreinstalls s preinstalls = .ok t) : Settled k g t.reads := by
  induction preinstalls generalizing s with
  | nil =>
    cases hadd
    exact h
  | cons p rest ih =>
    obtain ⟨u, hu, hrest⟩ := bind_eq_ok.mp hadd
    exact ih (h.addPreinstall ha hu) hrest

end

theorem Settled.registerERC20CodeHash (hb : BankWrites k.bankWrapper.bk) (h : Settled k g r)
    {bytecode : Bytes} (hcode : bytecode ≠ [])
    (hset : (k.registerERC20CodeHash bytecode r a).err = none) :
    Settled k g (overwritten r (k.registerERC20CodeHash bytecode r a).writes) := by
  obtain ⟨r₁, hr₁, hsettled, hstored⟩ : ∃ r₁, r₁ = overwritten r
      (if (getCode r (k.keccak256 bytecode)).getD [] = [] then
        setCode (k.keccak256 bytecode) bytecode else []) ∧ Settled k g r₁ ∧
      entries r₁ (.code (k.keccak256 bytecode)) ≠ none := by
    refine ⟨_, rfl, ?_⟩
    split
    · obtain ⟨hkept, -, hstored, -⟩ := h.kept.setCode ha hcode rfl
      have hsets : Sets (∃ h, · = .code h) (setCode (k.keccak256 bytecode) bytecode) :=
        sets_storeSet (.code _) ⟨_, rfl⟩ bytecode
      exact ⟨⟨hkept, h.params.onEntries (hsets.onEntries r)⟩, hstored ▸ Option.some_ne_none _⟩
    · next hsome =>
      refine ⟨h, fun hnone => hsome ?_⟩
      have hnone : entries r (.code (k.keccak256 bytecode)) = none := hnone
      rw [getCode_eq, hnone]
      rfl
  unfold Keeper.registerERC20CodeHash at hset ⊢
  simp only at hset ⊢
  rw [overwritten_append]
  rw [← hr₁] at hset ⊢
  refine ⟨(hsettled.kept.setAccount ha hb (fun _ => ?_) hset rfl).1,
    hsettled.params.onEntries ((Keeper.within_setAccount ha hb hset).onEntries r₁)⟩
  rw [Keeper.codeHash_erc20Account]
  exact hstored

end Settled

/-! ## States that are reached -/

/-- Changes apart from transactions of the EVM: of other modules, which spare the store of this
one, and of the messages and blocks that write to it. -/
inductive Manages (k : Keeper E) (g : GenesisEnv) (r : Contents) : Contents → Prop
  | others {ws : List Write} : k.Spares ws → Manages k g r (overwritten r ws)
  | updateParams {p : Params} {ws : List Write} :
      setParams g.cdc g.rules p = .ok ws → Manages k g r (overwritten r ws)
  | registerPreinstalls {preinstalls : List Preinstall} {s : Session E} :
      k.addPreinstalls (.on r) preinstalls = .ok s → Manages k g r s.reads
  | beginBlock {block : BlockContext} {ws : List Write} :
      k.setHeaderHash g.cdc block r = some ws → Manages k g r (overwritten r ws)
  | registerToken {bytecode : Bytes} {a : Address} : bytecode ≠ [] →
      (k.registerERC20CodeHash bytecode r a).err = none →
      Manages k g r (overwritten r (k.registerERC20CodeHash bytecode r a).writes)

/-- The contexts of a chain from its genesis on. -/
inductive Reaches (k : Keeper Event) (g : GenesisEnv) (codec : BankCodec) :
    Context Bytes Value Event → Prop
  | genesis {ctx : Context Bytes Value Event} {r : Contents} {data : GenesisState}
      {s : Session Event} : r storeKey = (fun _ => none) → k.initGenesis g (.on r) data = .ok s →
      ctx.reads = s.reads → Reaches k g codec ctx
  | transaction {ctx : Context Bytes Value Event} {txIndex : Nat}
      {actions : List (Action Bytes Value)} {cfg : Config Bytes Value}
      {u : StateDB Bytes Value Event} : Reaches k g codec ctx →
      (∀ action ∈ actions, k.Allows action) →
      (init ctx txIndex).run k.env codec actions = some cfg →
      cfg.db.commit k.env = .ok (none, u) → Reaches k g codec u.ctx
  | managed {ctx ctx' : Context Bytes Value Event} : Reaches k g codec ctx →
      Manages k g ctx.reads ctx'.reads → Reaches k g codec ctx'

theorem Settled.initGenesis {k : Keeper E} {g : GenesisEnv} (ha : k.accountKeeper.Lawful)
    (hempty : k.OnlyEmpty) {r : Contents} (hr : r storeKey = fun _ => none)
    (hinit : k.initGenesis g (.on r) data = .ok s) : Settled k g s.reads := by
  obtain ⟨ws, hws, -, u, hu, info, bz, -, -, -, hs⟩ := initGenesis_eq_ok.mp hinit
  have hstart : Settled k g ((on r).write ws : Session E).reads := by
    exact ⟨(kept_of_empty hr).setParams ha hws, paramsSet_setParams hws r⟩
  have haccounts := hstart.initAccounts ha hempty hu
  have hcoin : Settled k g (u.write (storeSet keyPrefixEvmCoinInfo bz)).reads := by
    rw [reads_write]
    refine ⟨haccounts.kept.setAside ha (by decide) bz, haccounts.params.congr ?_⟩
    have hne : keyPrefixEvmCoinInfo ≠ keyPrefixParams := by decide
    simp [overwritten, storeSet, hne]
  exact hcoin.addPreinstalls ha hs

section Reaches

variable {k : Keeper Event} {g : GenesisEnv} {codec : BankCodec}
variable (ha : k.accountKeeper.Lawful) (hb : BankWrites k.bankWrapper.bk)
include ha hb

theorem Settled.manages {r r' : Contents} (h : Settled k g r) (hmanages : Manages k g r r') :
    Settled k g r' := by
  cases hmanages with
  | others hspares => exact h.others hspares.other (hspares.accounts r)
  | updateParams hset => exact ⟨h.kept.setParams ha hset, paramsSet_setParams hset r⟩
  | registerPreinstalls hadd => exact Settled.addPreinstalls ha (s := .on r) h hadd
  | beginBlock hset =>
    obtain ⟨p, -, rfl⟩ := map_eq_some_iff.mp hset
    split
    · exact h.setStates ha (sets_storeSet (.state historyStorageAddress _) ⟨_, rfl⟩ _)
    · exact h
  | registerToken hcode hset => exact h.registerERC20CodeHash ha hb hcode hset

/-- Every state of a chain is settled. -/
theorem Reaches.settled (hempty : k.OnlyEmpty) {ctx : Context Bytes Value Event}
    (h : Reaches k g codec ctx) : Settled k g ctx.reads := by
  induction h with
  | genesis hr hinit hctx =>
    rw [hctx]
    exact Settled.initGenesis ha hempty hr hinit
  | transaction _ hallows hrun hcommit ih =>
    obtain ⟨hkept, hkeys⟩ := commit_kept ha hb hempty ih.kept hallows hrun hcommit
    exact ⟨hkept, ih.params.onEntries hkeys⟩
  | managed _ hmanages ih => exact ih.manages ha hb hmanages

end Reaches

/-! ## The round trip -/

/-- The contents at an import: those of other modules, and an empty store. -/
def importing (r : Contents) : Contents :=
  fun name key => if name = storeKey then none else r name key

/-- The module account and the coin are configured. -/
def GenesisEnv.Ready (g : GenesisEnv) (r : Contents) : Prop :=
  g.moduleAddress ≠ none ∧ ∃ info bz, g.loadEvmCoinInfo (r bankStore) = .ok info ∧
    g.marshalCoinInfo info = .ok bz ∧ g.configure info = none

/-- Code hashes, the code of accounts, and slots are read as they were. -/
structure Keeper.Reproduces (k : Keeper E) (r r' : Contents) : Prop where
  codeHash : ∀ a, k.getCodeHash r' a = k.getCodeHash r a
  code : ∀ a, getCode r' (k.getCodeHash r' a) = getCode r (k.getCodeHash r a)
  state : ∀ a slot, getState r' a slot = getState r a slot

section RoundTrip

variable {k : Keeper E} {g : GenesisEnv} {r : Contents}
variable (hk : k.Iterates) (hlisted : Listed r)
include hk hlisted

/-- An export that is read back has the entries of the accounts of the index. -/
theorem import_export (ha : k.accountKeeper.Lawful) (hempty : k.OnlyEmpty) (h : Settled k g r) :
    ∃ gs, k.exportGenesis g r = some gs ∧ k.validateGenesis g gs = none ∧
      ((∃ s : Session E, k.initGenesis g (.on (importing r)) gs = .ok s) ↔ g.Ready r) ∧
      ∀ s : Session E, k.initGenesis g (.on (importing r)) gs = .ok s → ∀ e,
        entries s.reads e = if e ∈ k.exportedEntries r then some (restored r e) else none := by
  obtain ⟨p, ws, hparams, hvalid, hset⟩ := h.params.reads
  obtain ⟨-, bz, -, hws⟩ := setParams_ok hset
  have hexport : k.exportGenesis g r = some
      { accounts := (k.contracts r).map fun p => k.exportAccount g r p.1 p.2
        params := p
        preinstalls := [] } := by
    rw [exportGenesis, hparams, accounts_exportGenesis]
    rfl
  have hother : ∀ {name : String}, storeKey ≠ name →
      ((on (importing r)).write ws : Session E).reads name = r name := by
    intro name hne
    rw [reads_write, reads_on, hws, (onStore_storeSet _ _).other hne]
    exact funext fun key => if_neg (Ne.symm hne)
  have hblank : ∀ e, entries ((on (importing r)).write ws : Session E).reads e = none := by
    rw [reads_write, reads_on, hws, entries_storeSet_params]
    simp [entries, storeGet, importing]
  have haccounts := initAccounts_export (g := g) ha hk hlisted h.kept hempty
    (fun _ hmem => hmem) (hother (by decide))
  have hbank : ((((on (importing r)).write ws).write
      (((k.contracts r).flatMap (k.exported r)).flatMap (restore r)) : Session E).reads bankStore) =
      r bankStore := by
    rw [reads_write, (onStore_restore r _).other (by decide), hother (by decide)]
  refine ⟨_, hexport, ?_, ?_, ?_⟩
  · simp only [validateGenesis, validateAccounts_export hk hlisted h.kept g]
    exact hvalid
  · constructor
    · rintro ⟨s, hs⟩
      obtain ⟨ws', hws', hmodule, u, hu, info, bz, hinfo, hbz, hconfigure, -⟩ :=
        initGenesis_eq_ok.mp hs
      obtain rfl := Except.ok.inj (hset.symm.trans hws')
      obtain rfl := Except.ok.inj (haccounts.symm.trans hu)
      rw [hbank] at hinfo
      exact ⟨hmodule, info, bz, hinfo, hbz, hconfigure⟩
    · rintro ⟨hmodule, info, bz, hinfo, hbz, hconfigure⟩
      refine ⟨_, initGenesis_eq_ok.mpr ⟨ws, hset, hmodule, _, haccounts, info, bz, ?_, hbz,
        hconfigure, rfl⟩⟩
      rw [hbank, hinfo]
  · intro s hs e
    obtain ⟨ws', hws', -, u, hu, info, bz, -, -, -, hpre⟩ := initGenesis_eq_ok.mp hs
    obtain rfl := Except.ok.inj (hset.symm.trans hws')
    obtain rfl := Except.ok.inj (haccounts.symm.trans hu)
    cases hpre
    rw [reads_write, keyPrefixEvmCoinInfo, entries_setAside (by decide),
      reads_write, entries_restore, hblank]
    rfl

/-- The entries that are written back read as before, and all others as nothing. -/
theorem reproduces_iff (hempty : k.OnlyEmpty) (hr : k.Kept r) {r' : Contents}
    (hentries : ∀ e, entries r' e =
      if e ∈ k.exportedEntries r then some (restored r e) else none) :
    k.Reproduces r r' ↔
      ∀ a slot, getState r a slot ≠ 0 → k.getCodeHash r a ≠ k.emptyCodeHash := by
  have hindex : ∀ a, entries r' (.codeHash a) = entries r (.codeHash a) := by
    intro a
    rw [hentries]
    split
    · next hmem =>
      rw [codeHash_mem_exported hk hlisted hr hempty] at hmem
      obtain ⟨bytes, hbytes⟩ := ne_none_iff_exists'.mp hmem
      rw [restored, hbytes, getD_some]
    · next hmem =>
      rw [codeHash_mem_exported hk hlisted hr hempty, not_not] at hmem
      exact hmem.symm
  have hhash : ∀ a, k.getCodeHash r' a = k.getCodeHash r a := by
    intro a
    rw [getCodeHash_eq, getCodeHash_eq, hindex]
  have hinIndex : ∀ a, entries r (.codeHash a) ≠ none ↔ k.getCodeHash r a ≠ k.emptyCodeHash := by
    intro a
    constructor
    · intro hstored
      obtain ⟨bytes, hbytes⟩ := ne_none_iff_exists'.mp hstored
      exact (hr.code_of_codeHash hempty hbytes).2.1
    · intro hne hnone
      refine hne ?_
      rw [getCodeHash_eq, hnone]
      rfl
  have hcode : ∀ a, getCode r' (k.getCodeHash r' a) = getCode r (k.getCodeHash r a) := by
    intro a
    rw [hhash, getCode_eq, getCode_eq, hentries]
    split
    · next hmem =>
      obtain ⟨a', hstored, heq⟩ := (code_mem_exported hk hlisted hr hempty _).mp hmem
      obtain ⟨bytes, hbytes⟩ := ne_none_iff_exists'.mp hstored
      obtain ⟨-, -, code, hcode⟩ := hr.code_of_codeHash hempty hbytes
      rw [restored, heq, hcode, getD_some]
    · next hmem =>
      -- Nothing is stored under the hash of no code.
      have hnone : k.getCodeHash r a = k.emptyCodeHash := by
        by_contra hne
        exact hmem ((code_mem_exported hk hlisted hr hempty _).mpr ⟨a, (hinIndex a).mpr hne, rfl⟩)
      rw [hnone, hr.code_empty hempty]
  have hstate : ∀ a slot, getState r' a slot =
      if k.getCodeHash r a ≠ k.emptyCodeHash then getState r a slot else 0 := by
    intro a slot
    rw [getState_eq, hentries]
    simp only [state_mem_exported hk hlisted hr hempty, hinIndex]
    by_cases hcoded : k.getCodeHash r a ≠ k.emptyCodeHash
    · rw [if_pos hcoded]
      by_cases hslot : entries r (.state a slot) ≠ none
      · rw [if_pos ⟨hcoded, hslot⟩, restored, storedHash_hashBytes]
      · rw [if_neg fun hand => hslot hand.2, getState_eq, not_not.mp hslot]
    · rw [if_neg hcoded, if_neg fun hand => hcoded hand.1]
      rfl
  constructor
  · intro hsame a slot hne hnone
    refine hne ?_
    rw [← hsame.state, hstate, if_neg fun hcoded => hcoded hnone]
  · intro hall
    refine ⟨hhash, hcode, fun a slot => ?_⟩
    rw [hstate]
    split
    · rfl
    · next hnone => exact (not_not.mp fun hne => hnone (hall a slot hne)).symm

end RoundTrip

/-- An export of any state of a chain is valid. With the contents of the other modules kept,
an import of it brings back all code hashes, the code of all accounts and all slots exactly if the
module is configured and no account has a slot that is not zero but no code hash. -/
theorem genesis_round_trip_iff (k : Keeper Event) (ha : k.accountKeeper.Lawful)
    (hb : BankWrites k.bankWrapper.bk) (hk : k.Iterates) (hempty : k.OnlyEmpty) (g : GenesisEnv)
    (codec : BankCodec) (ctx : Context Bytes Value Event) (h : Reaches k g codec ctx) :
    ∃ gs, k.exportGenesis g ctx.reads = some gs ∧ k.validateGenesis g gs = none ∧
      ((∃ s : Session Event, k.initGenesis g (.on (importing ctx.reads)) gs = .ok s ∧
          k.Reproduces ctx.reads s.reads) ↔
        g.Ready ctx.reads ∧ ∀ a slot, getState ctx.reads a slot ≠ 0 →
          k.getCodeHash ctx.reads a ≠ k.emptyCodeHash) := by
  have hsettled := h.settled ha hb hempty
  have hlisted := listed_reads ctx
  obtain ⟨gs, hexport, hvalid, hready, hentries⟩ := import_export hk hlisted ha hempty hsettled
  refine ⟨gs, hexport, hvalid, ?_⟩
  constructor
  · rintro ⟨s, hs, hsame⟩
    exact ⟨hready.mp ⟨s, hs⟩,
      (reproduces_iff hk hlisted hempty hsettled.kept (hentries s hs)).mp hsame⟩
  · rintro ⟨hconfigured, hcoded⟩
    obtain ⟨s, hs⟩ := hready.mpr hconfigured
    exact ⟨s, hs, (reproduces_iff hk hlisted hempty hsettled.kept (hentries s hs)).mpr hcoded⟩

/-- A keeper that lists all keys, with a hash that only the empty code has. -/
noncomputable def tellingKeeper : Keeper Event :=
  { listingKeeper with
    keccak256 := fun code =>
      if code = [] then 0 else BitVec.ofNat 256 (BigEndian.ofBytes code % (2 ^ 256 - 1) + 1) }

theorem tellingKeeper_iterates : tellingKeeper.Iterates :=
  ⟨listingKeeper_iterates.mem_iff, listingKeeper_iterates.nodup⟩

theorem tellingKeeper_lawful : tellingKeeper.accountKeeper.Lawful := plainAuth_lawful

theorem tellingKeeper_bankWrites : BankWrites tellingKeeper.bankWrapper.bk :=
  smallKeeper_supplied.onStore

theorem tellingKeeper_onlyEmpty : tellingKeeper.OnlyEmpty := by
  intro code hhash
  by_contra hne
  have hzero : BitVec.ofNat 256 (BigEndian.ofBytes code % (2 ^ 256 - 1) + 1) = 0 :=
    (if_neg hne).symm.trans hhash
  have hnat := congrArg BitVec.toNat hzero
  rw [BitVec.toNat_ofNat, Nat.mod_eq_of_lt (by omega)] at hnat
  exact absurd hnat (Nat.succ_ne_zero _)

/-- A chain whose coin has 18 decimals. -/
def smallGenesis : GenesisEnv where
  upper _ _ := false
  cdc := Chain.windowCodec
  rules := Chain.laxRules
  moduleAddress := some []
  evmDenom := "drop"
  extendedDenomOptions := none
  getDenomMetaData _ _ := some
    { description := "", base := "drop", denomUnits := [⟨"Drop", 18⟩], name := "Drop"
      symbol := "DROP", display := "Drop" }
  marshalCoinInfo _ := .ok []
  configure _ := none

theorem smallGenesis_ready (r : Contents) : smallGenesis.Ready r :=
  ⟨some_ne_none _, _, _, rfl, rfl, rfl⟩

/-- The contents after a genesis without accounts. -/
def genesisContext : Context Bytes Value Event :=
  { smallContext with
    stores := smallContext.stores.insert storeKey
      (((∅ : FMap Bytes Value).insert keyPrefixParams (.raw (hashBytes 0))).insert
        keyPrefixEvmCoinInfo (.raw [])) }

theorem genesisContext_reads : genesisContext.reads = overwritten smallContext.reads
    (storeSet keyPrefixParams (hashBytes 0) ++ storeSet keyPrefixEvmCoinInfo []) := by
  funext name key
  by_cases hname : name = storeKey
  · have hempty : smallContext.reads storeKey key = none :=
      congrFun smallContext_store key
    rw [hname]
    simp only [overwritten, storeSet, cons_append, nil_append, foldl_cons,
      foldl_nil, true_and, hempty]
    simp only [genesisContext, Context.reads, ExtTreeMap.getElem?_insert_self, bind_some,
      FMap.get_insert, ExtTreeMap.getElem?_empty]
  · have hother : storeKey ≠ name := Ne.symm hname
    simp only [genesisContext, Context.reads, overwritten, storeSet, cons_append, nil_append,
      foldl_cons, foldl_nil, FMap.get_insert, hother, if_false, false_and]

theorem genesisContext_reached : Reaches tellingKeeper smallGenesis smallCodec
    genesisContext := by
  have hinit : ∃ s : Session Event, tellingKeeper.initGenesis smallGenesis
      (.on smallContext.reads) { accounts := [], params := .zero, preinstalls := [] } =
        .ok s ∧ genesisContext.reads = s.reads := by
    refine ⟨_, initGenesis_eq_ok.mpr ⟨storeSet keyPrefixParams (hashBytes 0), ?_,
      some_ne_none _, _, rfl, _, _, rfl, rfl, rfl, rfl⟩, ?_⟩
    · have hsorted : Params.zero.sortPrecompiles = .zero := by
        simp [Params.sortPrecompiles, Params.zero]
      rw [setParams, hsorted]
      rfl
    · rw [genesisContext_reads, overwritten_append, reads_write, reads_write]
      rfl
  obtain ⟨s, hs, hreads⟩ := hinit
  exact .genesis smallContext_store hs hreads

/-- Account 7 delegates to account 8 and, with that code, writes a slot. -/
def delegating : List (Action Bytes Value) :=
  [.op (.setCode 7 (some ([0xef, 0x01, 0x00] ++ addressBytes 8))) trivial,
    .op (.setState 7 0 1) trivial]

/-- It clears the delegation. -/
def clearing : List (Action Bytes Value) := [.op (.setCode 7 none) trivial]

theorem allows_op {k : Keeper Event} {actions : List (Action Bytes Value)}
    (h : ∀ action ∈ actions, ∀ e, action ≠ .native e) : ∀ action ∈ actions, k.Allows action := by
  intro action hmem
  cases action with
  | native e => exact absurd rfl (h _ hmem e)
  | _ => trivial

/-- An account writes a slot while it delegates and then clears the delegation. The slot still
reads 1, the export is valid and can be imported, and then the slot reads 0. -/
theorem cleared_delegation_slot_lost : ∃ (ctx : Context Bytes Value Event) (gs : GenesisState)
    (s : Session Event), Reaches tellingKeeper smallGenesis smallCodec ctx ∧
      getState ctx.reads 7 0 = 1 ∧
      tellingKeeper.exportGenesis smallGenesis ctx.reads = some gs ∧
      tellingKeeper.validateGenesis smallGenesis gs = none ∧
      tellingKeeper.initGenesis smallGenesis (.on (importing ctx.reads)) gs = .ok s ∧
      getState s.reads 7 0 = 0 := by
  have hresult : ((init genesisContext 0).run tellingKeeper.env smallCodec
      delegating).bind (fun cfg => (cfg.db.commit tellingKeeper.env).toOption.map fun p =>
        (p.1, ((init p.2.ctx 1).run tellingKeeper.env smallCodec clearing).bind
          fun cfg => (cfg.db.commit tellingKeeper.env).toOption.map fun q =>
            (q.1, getState q.2.ctx.reads 7 0, (storeGet q.2.ctx.reads (codeHashKey 7)).isNone))) =
      some (none, some (none, 1, true)) := by
    decide +kernel
  obtain ⟨cfg, u, hcfg, hcommit, hresult⟩ := of_bind_map hresult
  obtain ⟨cfg', u', hcfg', hcommit', hresult⟩ := of_bind_map hresult
  obtain ⟨hslot, hhash⟩ := Prod.mk.inj hresult
  have hreached : Reaches tellingKeeper smallGenesis smallCodec u'.ctx :=
    .transaction (.transaction genesisContext_reached (allows_op (by simp [delegating])) hcfg
      hcommit) (allows_op (by simp [clearing])) hcfg' hcommit'
  have hsettled := hreached.settled tellingKeeper_lawful tellingKeeper_bankWrites
    tellingKeeper_onlyEmpty
  obtain ⟨gs, hexport, hvalid, hready, hentries⟩ := import_export tellingKeeper_iterates
    (listed_reads u'.ctx) tellingKeeper_lawful tellingKeeper_onlyEmpty hsettled
  obtain ⟨s, hs⟩ := hready.mpr (smallGenesis_ready _)
  refine ⟨u'.ctx, gs, s, hreached, hslot, hexport, hvalid, hs, ?_⟩
  have hlost : state 7 0 ∉ tellingKeeper.exportedEntries u'.ctx.reads := by
    rw [state_mem_exported tellingKeeper_iterates (listed_reads u'.ctx) hsettled.kept
      tellingKeeper_onlyEmpty]
    exact fun hand => hand.1 (isNone_iff_eq_none.mp hhash)
  rw [getState_eq, hentries s hs, if_neg hlost]
  rfl

/-- A contract is deployed and writes a slot. -/
def deploying : List (Action Bytes Value) :=
  [.op (.setCode 7 (some [1])) trivial, .op (.setState 7 0 1) trivial]

set_option synthInstance.maxSize 200 in
theorem genesis_round_trip_iff_contract : ∃ (ctx : Context Bytes Value Event) (gs : GenesisState)
    (s : Session Event), Reaches tellingKeeper smallGenesis smallCodec ctx ∧
      getState ctx.reads 7 0 = 1 ∧
      tellingKeeper.exportGenesis smallGenesis ctx.reads = some gs ∧
      tellingKeeper.initGenesis smallGenesis (.on (importing ctx.reads)) gs = .ok s ∧
      tellingKeeper.Reproduces ctx.reads s.reads := by
  have hresult : ((init genesisContext 0).run tellingKeeper.env smallCodec
      deploying).bind (fun cfg => (cfg.db.commit tellingKeeper.env).toOption.map fun p =>
        (p.1, getState p.2.ctx.reads 7 0, storeGet p.2.ctx.reads (codeHashKey 7),
          (p.2.ctx.stores[storeKey]?).map fun store : FMap Bytes Value => store.keys)) =
      some (none, 1, some (hashBytes 2), some [codeKey 2, stateKey 7 0, keyPrefixParams,
        codeHashKey 7, keyPrefixEvmCoinInfo]) := by
    decide +kernel
  obtain ⟨cfg, u, hcfg, hcommit, hresult⟩ := of_bind_map hresult
  obtain ⟨hslot, hresult⟩ := Prod.mk.inj hresult
  obtain ⟨hhash, hkeys⟩ := Prod.mk.inj hresult
  obtain ⟨store, hstore, hkeys⟩ := map_eq_some_iff.mp hkeys
  have hreached : Reaches tellingKeeper smallGenesis smallCodec u.ctx :=
    .transaction genesisContext_reached (allows_op (by simp [deploying])) hcfg hcommit
  have hcoded : ∀ a slot, getState u.ctx.reads a slot ≠ 0 →
      tellingKeeper.getCodeHash u.ctx.reads a ≠ tellingKeeper.emptyCodeHash := by
    intro a slot hne
    -- The only slot with an entry is that of account 7.
    have ha : a = 7 := by
      have hmem : stateKey a slot ∈ store.keys := by
        rw [ExtTreeMap.mem_keys, ← ExtTreeMap.isSome_getElem?_iff_mem, isSome_iff_ne_none]
        intro hnone
        refine hne ?_
        rw [getState, storeGet, Context.reads, hstore, bind_some, hnone]
      have hentry : ∀ {e : Entry}, stateKey a slot = e.key → .state a slot = e :=
        fun heq => key_injective heq
      rw [hkeys] at hmem
      simp only [mem_cons, not_mem_nil, or_false] at hmem
      obtain h | h | h | h | h := hmem
      · cases hentry (e := .code 2) h
      · exact (state.inj (hentry (e := .state 7 0) h)).1
      · exact absurd (cons.inj h).1 (by decide)
      · cases hentry (e := .codeHash 7) h
      · exact absurd (cons.inj h).1 (by decide)
    rw [ha, getCodeHash_eq, show entries u.ctx.reads (.codeHash 7) = _ from hhash,
      storedHash_hashBytes]
    decide
  obtain ⟨gs, hexport, -, hiff⟩ := genesis_round_trip_iff tellingKeeper tellingKeeper_lawful
    tellingKeeper_bankWrites tellingKeeper_iterates tellingKeeper_onlyEmpty smallGenesis
    smallCodec u.ctx hreached
  obtain ⟨s, hs, hsame⟩ := hiff.mpr ⟨smallGenesis_ready _, hcoded⟩
  exact ⟨u.ctx, gs, s, hreached, hslot, hexport, hs, hsame⟩

end InfiniteEvm.VM
