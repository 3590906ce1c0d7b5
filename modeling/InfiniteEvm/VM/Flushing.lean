import InfiniteEvm.Library.Absorption
import InfiniteEvm.StateDB.Flushing
import InfiniteEvm.VM.Destruction

/-!
# Flushes and commits

What a commit loop without self-destructed objects leaves in each store: the entries of the
objects in the store of the module, the accounts in `x/auth` and the balances in the bank. A
flush is absorbed by a later commit that writes all its entries again.
-/

namespace InfiniteEvm.VM

open Std Library SnapshotMulti StateDB Absorption StateDB List Function Keeper

variable {E : Type} {points : List (StateDB Bytes Value E)} {acct : AccountI} (obj : StateObject)

/-- The last write of an account counts and writes of different accounts commute. A new
account depends on its address alone. -/
structure AuthKeeper.Orderly (ak : AuthKeeper) : Prop extends ak.Lawful where
  new_congr : ∀ r r' a, ak.newAccountWithAddress r a = ak.newAccountWithAddress r' a
  new_writes : ∀ r a, (ak.newAccountWithAddress r a).2 = []
  new_vesting : ∀ r a, (ak.newAccountWithAddress r a).1.vesting = none
  set_set : ∀ r (acct acct' : AccountI), acct.address = acct'.address →
    acct.accountNumber = acct'.accountNumber →
    overwritten (overwritten r (ak.setAccount acct)) (ak.setAccount acct') authStore =
      overwritten r (ak.setAccount acct') authStore
  set_comm : ∀ r (acct acct' : AccountI), acct.address ≠ acct'.address →
    overwritten (overwritten r (ak.setAccount acct)) (ak.setAccount acct') authStore =
      overwritten (overwritten r (ak.setAccount acct')) (ak.setAccount acct) authStore

namespace Keeper

variable (k : Keeper E)

/-- The schedule of a vesting account. -/
def vestingAt (r : Contents) (a : AccAddress) : Option Bytes :=
  (k.accountKeeper.getAccount r a).bind (·.vesting)

/-- The account that `SetAccount` writes. -/
def accountFor (r : Contents) (addr : Address) (nonce : BitVec 64) : AccountI :=
  { (k.accountForUpdate (.on r) addr).1 with sequence := nonce }

/-- The contents after `SetAccount` wrote to `x/auth`. -/
def touched (addr : Address) (nonce : BitVec 64) (r : Contents) : Contents :=
  overwritten r (k.accountKeeper.setAccount (k.accountFor r addr nonce))

/-- The bank keeps balances in its store, the last write of a balance counts and writes of
different balances commute. Coins are locked by the schedules of vesting accounts. -/
structure Puts (put : AccAddress → Int → (Bytes → Option Value) → Bytes → Option Value)
    (locks : AccAddress → Option Bytes → Coins) : Prop where
  onStore : BankWrites k.bankWrapper.bk
  written : ∀ s a amount t,
    k.bankWrapper.bk.uncheckedSetBalance s a (k.bankWrapper.info.extendedDenom, amount) = .ok t →
    t.reads bankStore = put a amount (s.reads bankStore)
  locked : ∀ s a, k.bankWrapper.bk.lockedCoins s a = locks a (k.vestingAt s.reads a)
  put_put : ∀ a amount amount' store, put a amount' (put a amount store) = put a amount' store
  put_comm : ∀ a b amount amount' store, a ≠ b →
    put a amount (put b amount' store) = put b amount' (put a amount store)

variable {k} {r r' : Contents} {addr : Address} {nonce : BitVec 64}

/-! ## Accounts -/

section Auth

variable (ha : k.accountKeeper.Orderly)
include ha

/-- An account is found, or new without a write. -/
theorem accountForUpdate_eq (r : Contents) (addr : Address) : k.accountForUpdate (.on r) addr =
    ((k.accountKeeper.getAccount r (addressBytes addr)).getD
      (k.accountKeeper.newAccountWithAddress r (addressBytes addr)).1, .on r) := by
  unfold accountForUpdate
  rw [Session.reads_on]
  cases k.accountKeeper.getAccount r (addressBytes addr) with
  | some acct => rfl
  | none =>
    dsimp only
    rw [ha.new_writes]
    rfl

theorem accountFor_address (r : Contents) (addr : Address) (nonce : BitVec 64) :
    (k.accountFor r addr nonce).address = addressBytes addr :=
  (accountForUpdate_spec ha.toLawful (Session.on r) addr).1

theorem accountFor_congr (nonce : BitVec 64)
    (h : k.accountKeeper.getAccount r (addressBytes addr) =
      k.accountKeeper.getAccount r' (addressBytes addr)) :
    k.accountFor r addr nonce = k.accountFor r' addr nonce := by
  rw [accountFor, accountForUpdate_eq ha, h, ha.new_congr r r', accountFor, accountForUpdate_eq ha]

theorem getAccount_touched (addr : Address) (nonce : BitVec 64) (r : Contents) :
    k.accountKeeper.getAccount (k.touched addr nonce r) =
      update (k.accountKeeper.getAccount r) (addressBytes addr)
        (some (k.accountFor r addr nonce)) := by
  rw [touched, (ha.setAccount r _).2, accountFor_address ha]

/-- An account that is written keeps its schedule. -/
theorem vestingAt_touched (addr : Address) (nonce : BitVec 64) (r : Contents) :
    k.vestingAt (k.touched addr nonce r) = k.vestingAt r := by
  funext a
  unfold vestingAt
  rw [getAccount_touched ha]
  by_cases haddr : a = addressBytes addr
  · rw [haddr, update_self, Option.bind_some, accountFor, accountForUpdate_eq ha]
    cases k.accountKeeper.getAccount r (addressBytes addr) with
    | some acct => rfl
    | none => exact ha.new_vesting r (addressBytes addr)
  · rw [update_of_ne haddr]

/-- What is written to `x/auth`, as updates by address. -/
theorem touched_lawful : Absorption.Lawful k.touched (fun r => r authStore) where
  congr h addr nonce := by
    unfold touched
    rw [accountFor_congr ha nonce (congrFun (ha.congr _ _ h) _)]
    exact overwritten_congr h _
  absorb addr m n r := by
    have hsame : k.accountFor (k.touched addr m r) addr n = k.accountFor r addr n := by
      rw [accountFor, accountForUpdate_eq ha, getAccount_touched ha, update_self]
      rfl
    rw [touched, hsame]
    refine ha.set_set _ _ _ ?_ rfl
    rw [accountFor_address ha, accountFor_address ha]
  comm {a b} hne m n r := by
    have hbytes : addressBytes a ≠ addressBytes b := fun heq => hne (addressBytes_inj heq)
    -- An account is found unchanged after another was written.
    have hother : ∀ {c d : Address} {l l' : BitVec 64}, addressBytes c ≠ addressBytes d →
        k.accountFor (k.touched d l r) c l' = k.accountFor r c l' := by
      intro c d l l' hcd
      refine accountFor_congr ha l' ?_
      rw [getAccount_touched ha, update_of_ne hcd]
    rw [touched, hother hbytes, touched, touched, hother hbytes.symm, touched]
    refine ha.set_comm _ _ _ ?_
    rw [accountFor_address ha, accountFor_address ha]
    exact hbytes.symm

theorem vestingAt_updateAll (us : List (Address × BitVec 64)) (r : Contents) :
    k.vestingAt (updateAll k.touched us r) = k.vestingAt r := by
  induction us generalizing r with
  | nil => rfl
  | cons u rest ih => rw [updateAll_cons, ih, vestingAt_touched ha]

end Auth

/-! ## Commit loops -/

/-- The writes of an object that stays to the store of the module. -/
def entryWrites (k : Keeper E) (obj : StateObject) : List Write :=
  commitCode k.env obj (fun _ _ => none) ++ (k.updateCodeHash obj.address obj.account.codeHash ++
    commitStorage k.env obj.address obj.dirtyStorage.toList fun _ _ => none)

theorem commitCode_eq (r r' : Contents) : commitCode k.env obj r = commitCode k.env obj r' := by
  cases obj.code with
  | none => rfl
  | some code => rfl

theorem commitStorage_eq (a : Address) (items : List (Hash × Hash)) (r r' : Contents) :
    commitStorage k.env a items r = commitStorage k.env a items r' := by
  induction items generalizing r r' with
  | nil => rfl
  | cons item rest ih =>
    rw [commitStorage_cons, commitStorage_cons]
    exact congrArg (k.env.setState r a item.1 item.2 ++ ·) (ih _ _)

theorem onStore_entryWrites : OnStore storeKey (k.entryWrites obj) := by
  intro w hw
  rcases mem_append.mp hw with hw | hw
  · exact (sets_commitCode obj _).onStore w hw
  · rcases mem_append.mp hw with hw | hw
    · exact (sets_updateCodeHash obj.address obj.account.codeHash).onStore w hw
    · exact (sets_commitStorage _ _ _).onStore w hw

/-- The balance that is written for an object. -/
def coinsOf (k : Keeper E) (locks : AccAddress → Option Bytes → Coins) (r : Contents)
    (obj : StateObject) : AccAddress × Int :=
  (addressBytes obj.address, obj.account.balance.toNat +
    (locks (addressBytes obj.address) (k.vestingAt r (addressBytes obj.address))).amountOf
      k.bankWrapper.info.denom)

variable (put : AccAddress → Int → (Bytes → Option Value) → Bytes → Option Value)
variable (locks : AccAddress → Option Bytes → Coins)

/-- The contents after objects that stay were written, store by store. -/
def lay (k : Keeper E) (os : List StateObject) (r : Contents) : Contents := fun name =>
  if name = storeKey then overwritten r (os.flatMap k.entryWrites) storeKey
  else if name = authStore then
    updateAll k.touched (os.map fun o => (o.address, o.account.nonce)) r authStore
  else if name = bankStore then updateAll put (os.map (k.coinsOf locks r)) (r bankStore)
  else r name

section Laid

variable {put} {locks}

theorem lay_store (os : List StateObject) (r : Contents) :
    k.lay put locks os r storeKey = overwritten r (os.flatMap k.entryWrites) storeKey :=
  if_pos rfl

theorem lay_auth (os : List StateObject) (r : Contents) : k.lay put locks os r authStore =
    updateAll k.touched (os.map fun o => (o.address, o.account.nonce)) r authStore :=
  (if_neg (by decide)).trans (if_pos rfl)

theorem lay_bank (os : List StateObject) (r : Contents) : k.lay put locks os r bankStore =
    updateAll put (os.map (k.coinsOf locks r)) (r bankStore) :=
  (if_neg (by decide)).trans ((if_neg (by decide)).trans (if_pos rfl))

theorem lay_other (os : List StateObject) (r : Contents) {name : String}
    (h : name ∉ moduleStores) : k.lay put locks os r name = r name := by
  simp only [moduleStores, Set.mem_insert_iff, Set.mem_singleton_iff, not_or] at h
  obtain ⟨hauth, hbank, hstore⟩ := h
  rw [lay, if_neg hstore, if_neg hauth, if_neg hbank]

/-- Contents that agree with those after the objects were written, store by store. -/
theorem eq_lay {os : List StateObject} (hstore : r' storeKey = k.lay put locks os r storeKey)
    (hauth : r' authStore = k.lay put locks os r authStore)
    (hbank : r' bankStore = k.lay put locks os r bankStore)
    (hother : ∀ name, name ∉ moduleStores → r' name = r name) : r' = k.lay put locks os r := by
  funext name
  by_cases hname : name ∈ moduleStores
  · rcases hname with rfl | rfl | rfl
    · exact hauth
    · exact hbank
    · exact hstore
  · rw [lay_other os r hname, hother name hname]

variable (ha : k.accountKeeper.Orderly) (hb : k.Puts put locks)
include ha

theorem vestingAt_lay (os : List StateObject) (r : Contents) :
    k.vestingAt (k.lay put locks os r) = k.vestingAt r := by
  rw [← vestingAt_updateAll ha (os.map fun o => (o.address, o.account.nonce)) r]
  unfold vestingAt
  rw [ha.congr _ _ (lay_auth os r)]

theorem coinsOf_lay (os : List StateObject) (r : Contents) :
    k.coinsOf locks (k.lay put locks os r) = k.coinsOf locks r := by
  funext obj
  rw [coinsOf, vestingAt_lay ha, coinsOf]

/-- Objects are written one after the other. -/
theorem lay_lay_singleton (o : StateObject) (os : List StateObject) (r : Contents) :
    k.lay put locks os (k.lay put locks [o] r) = k.lay put locks (o :: os) r := by
  refine eq_lay ?_ ?_ ?_ fun name hname => ?_
  · rw [lay_store, lay_store, flatMap_cons, overwritten_append]
    refine overwritten_congr ?_ _
    rw [lay_store, flatMap_cons, flatMap_nil, append_nil]
  · exact (touched_lawful ha).updateAll_congr (lay_auth [o] r) _
  · rw [lay_bank, lay_bank, coinsOf_lay ha, lay_bank, map_cons, updateAll_cons]
    rfl
  · rw [lay_other _ _ hname, lay_other _ _ hname]

include hb

/-- What `SetAccount` leaves, store by store. -/
theorem setAccount_lay {account : Account} (h : (k.setAccount r addr account).err = none)
    (hr' : r' = overwritten r (k.setAccount r addr account).writes) :
    r' storeKey = overwritten r (k.updateCodeHash addr account.codeHash) storeKey ∧
    r' authStore = k.touched addr account.nonce r authStore ∧
    r' bankStore = put (addressBytes addr) (account.balance.toNat +
      (locks (addressBytes addr) (k.vestingAt r (addressBytes addr))).amountOf
        k.bankWrapper.info.denom) (r bankStore) ∧
    ∀ name, name ∉ moduleStores → r' name = r name := by
  obtain ⟨t, hbalance, heffects⟩ := setAccount_ok h
  have hfirst : (k.accountForUpdate (.on r) addr).2 = .on r := by
    rw [accountForUpdate_eq ha]
  rw [hfirst] at hbalance
  change k.bankWrapper.setBalance (((Session.on r).write (k.updateCodeHash addr
    account.codeHash)).write (k.accountKeeper.setAccount (k.accountFor r addr account.nonce)))
    addr account.balance = .ok t at hbalance
  obtain ⟨wsb, hwsb, hstart, -, hreads⟩ := hb.onStore.setBalance hbalance
  rw [Session.reads_write, Session.reads_write, Session.reads_on] at hreads
  have hcode := (sets_updateCodeHash (k := k) addr account.codeHash).onStore
  have hset := (ha.setAccount r (k.accountFor r addr account.nonce)).1
  have htr : r' = t.reads := by
    rw [hr', heffects, Session.reads, hstart]
    rfl
  -- The code hash is not seen by `x/auth`.
  have hwritten : overwritten (overwritten r (k.updateCodeHash addr account.codeHash))
      (k.accountKeeper.setAccount (k.accountFor r addr account.nonce)) authStore =
      k.touched addr account.nonce r authStore :=
    overwritten_congr (hcode.other (by decide) r) _
  rw [htr]
  refine ⟨?_, ?_, ?_, fun name hname => ?_⟩
  · rw [hreads, hwsb.other (by decide), hset.other (by decide)]
  · rw [hreads, hwsb.other (by decide)]
    exact hwritten
  · have hput := hb.written _ _ _ _ (setBalance_ok hbalance)
    have hvesting : k.vestingAt (overwritten (overwritten r (k.updateCodeHash addr
        account.codeHash)) (k.accountKeeper.setAccount (k.accountFor r addr account.nonce))) =
        k.vestingAt r := by
      rw [← vestingAt_touched ha addr account.nonce r]
      unfold vestingAt
      rw [ha.congr _ _ hwritten]
    rw [hb.locked, Session.reads_write, Session.reads_write, Session.reads_on, hvesting,
      hset.other (by decide), hcode.other (by decide)] at hput
    exact hput
  · simp only [moduleStores, Set.mem_insert_iff, Set.mem_singleton_iff, not_or] at hname
    obtain ⟨hauth', hbank', hstore'⟩ := hname
    rw [hreads, hwsb.other (Ne.symm hbank'), hset.other (Ne.symm hauth'),
      hcode.other (Ne.symm hstore')]

/-- An object that stays is written as its entries, its account and its balance. -/
theorem commitLive_lay {obj : StateObject} (h : (commitLive k.env obj r).err = none) :
    overwritten r (commitLive k.env obj r).writes = k.lay put locks [obj] r := by
  obtain ⟨r₁, r₂, hr₁, hset, hr₂, hwrites⟩ := commitLive_cases h
  obtain ⟨hstore, hauth, hbank, hother⟩ := setAccount_lay ha hb hset hr₂
  have hcode : OnStore storeKey (commitCode k.env obj r) := (sets_commitCode obj r).onStore
  have hstorage : OnStore storeKey (commitStorage k.env obj.address obj.dirtyStorage.toList r₂) :=
    (sets_commitStorage _ _ _).onStore
  have hvesting : k.vestingAt r₁ = k.vestingAt r := by
    unfold vestingAt
    rw [hr₁, ha.congr _ _ (hcode.other (by decide) r)]
  rw [hwrites]
  refine eq_lay ?_ ?_ ?_ fun name hname => ?_
  · rw [lay_store, flatMap_cons, flatMap_nil, append_nil, entryWrites,
      overwritten_append, overwritten_append, commitCode_eq obj _ r,
      commitStorage_eq _ _ (fun _ _ => none) r₂, ← hr₁]
    exact overwritten_congr hstore _
  · rw [lay_auth, hstorage.other (by decide), hauth, hr₁]
    exact (touched_lawful ha).congr (hcode.other (by decide) r) _ _
  · rw [lay_bank, hstorage.other (by decide), hbank, hr₁, hcode.other (by decide), ← hr₁, hvesting]
    rfl
  · have hname' := hname
    simp only [moduleStores, Set.mem_insert_iff, Set.mem_singleton_iff, not_or] at hname'
    rw [hstorage.other (Ne.symm hname'.2.2), hother name hname, hr₁,
      hcode.other (Ne.symm hname'.2.2)]

/-- A commit loop over objects that stay. -/
theorem written_lay {objects : FMap Address StateObject} {addrs : List Address}
    (h : Written k.env objects addrs r r')
    (hlive : ∀ a ∈ addrs, ∀ obj : StateObject, objects[a]? = some obj →
      obj.selfDestructed = false) :
    r' = k.lay put locks (addrs.filterMap fun a => objects[a]?) r := by
  induction h with
  | nil r =>
    refine eq_lay ?_ ?_ ?_ fun name _ => rfl
    · rfl
    · rfl
    · rfl
  | @cons a obj rest r r' hobj herr _ ih =>
    have hstays := hlive a mem_cons_self obj hobj
    rw [filterMap_cons_some hobj, ← lay_lay_singleton ha,
      ih fun b hb => hlive b (mem_cons_of_mem _ hb)]
    rw [commitObject, hstays, if_neg Bool.false_ne_true] at herr ⊢
    rw [commitLive_lay ha hb herr]

/-- Objects that are written again with all their entries leave nothing of the first
writes. -/
theorem lay_absorb {fs gs : List StateObject} (hsub : fs.map (·.address) ⊆ gs.map (·.address))
    (hentries : ∀ w ∈ fs.flatMap k.entryWrites, ∃ w' ∈ gs.flatMap k.entryWrites,
      w'.2.1 = w.2.1) : k.lay put locks gs (k.lay put locks fs r) = k.lay put locks gs r := by
  have hon : ∀ os : List StateObject, OnStore storeKey (os.flatMap k.entryWrites) := by
    intro os w hw
    obtain ⟨o, -, hw⟩ := mem_flatMap.mp hw
    exact onStore_entryWrites o w hw
  refine eq_lay ?_ ?_ ?_ fun name hname => ?_
  · rw [lay_store, lay_store, overwritten_congr (lay_store fs r), overwritten_absorb]
    intro w hw
    obtain ⟨w', hw', hkey⟩ := hentries w hw
    exact ⟨w', hw', (hon gs w' hw').trans (hon fs w hw).symm, hkey⟩
  · have hmap : ∀ os : List StateObject,
        (os.map fun o => (o.address, o.account.nonce)).map Prod.fst = os.map (·.address) :=
      fun os => map_map ..
    rw [lay_auth, lay_auth, (touched_lawful ha).updateAll_congr (lay_auth fs r)]
    refine (touched_lawful ha).updateAll_absorb ?_ r
    rw [hmap, hmap]
    exact hsub
  · have hput : Absorption.Lawful put id :=
      { congr := fun h a amount => congrArg (put a amount) h
        absorb := fun a amount amount' store => hb.put_put a amount amount' store
        comm := fun hne amount amount' store => hb.put_comm _ _ amount amount' store hne }
    have hmap : ∀ os : List StateObject, (os.map (k.coinsOf locks r)).map Prod.fst =
        (os.map (·.address)).map addressBytes := by
      intro os
      rw [map_map, map_map]
      rfl
    rw [lay_bank, lay_bank, coinsOf_lay ha, lay_bank]
    refine hput.updateAll_absorb ?_ _
    rw [hmap, hmap]
    exact map_subset _ hsub
  · rw [lay_other _ _ hname, lay_other _ _ hname]

end Laid

end Keeper

/-! ## Runs -/

/-- No dirty object is self-destructed. -/
def Undestructed (s : StateDB Bytes Value E) : Prop :=
  ∀ a ∈ s.journal.dirties.keys, ∀ obj : StateObject, s.stateObjects[a]? = some obj →
    obj.selfDestructed = false

/-- The code of an object is written or deleted. -/
def WritesCode (obj : StateObject) : Prop := obj.code ≠ none ∧ obj.dirtyCode = true

/-- What a flush at `p` writes is written again by the commit of `s`: the objects are not
self-destructed, are still dirty with their dirty slots, and code is written under the same
hashes. -/
structure Retained (p s : StateDB Bytes Value E) : Prop where
  stays : Undestructed p
  dirty : ∀ a, a ∈ p.journal.dirties → a ∈ s.journal.dirties
  slots : ∀ a ∈ p.journal.dirties, ∀ obj obj' : StateObject, p.stateObjects[a]? = some obj →
    s.stateObjects[a]? = some obj' → ∀ slot, slot ∈ obj.dirtyStorage → slot ∈ obj'.dirtyStorage
  codes : ∀ a ∈ p.journal.dirties, ∀ obj : StateObject, p.stateObjects[a]? = some obj →
    WritesCode obj → ∃ b ∈ s.journal.dirties, ∃ obj' : StateObject,
      s.stateObjects[b]? = some obj' ∧ WritesCode obj' ∧
        obj'.account.codeHash = obj.account.codeHash

/-- The dirty objects in the order of their addresses. -/
def dirtyObjects (s : StateDB Bytes Value E) : List StateObject :=
  s.journal.dirties.keys.filterMap fun a => s.stateObjects[a]?

section Runs

variable {s p : StateDB Bytes Value E} {k : Keeper E}

theorem map_dirtyObjects (haddress : ∀ (a : Address) (obj : StateObject),
    s.stateObjects[a]? = some obj → obj.address = a) (hlive : Live s) :
    (dirtyObjects s).map (·.address) = s.journal.dirties.keys := by
  have hmap : ∀ addrs : List Address, (∀ a ∈ addrs, a ∈ s.stateObjects) →
      (addrs.filterMap fun a => s.stateObjects[a]?).map (·.address) = addrs := by
    intro addrs
    induction addrs with
    | nil => exact fun _ => rfl
    | cons a rest ih =>
      intro hmem
      obtain ⟨obj, hobj⟩ := Option.isSome_iff_exists.mp
        (ExtTreeMap.mem_iff_isSome_getElem?.mp (hmem a mem_cons_self))
      rw [filterMap_cons_some hobj, map_cons, haddress a obj hobj,
        ih fun b hb => hmem b (mem_cons_of_mem _ hb)]
  exact hmap _ fun a ha => hlive a (ExtTreeMap.mem_keys.mp ha)

variable {obj : StateObject} {r : Contents} {key : Bytes}

theorem mem_dirtyObjects :
    obj ∈ dirtyObjects s ↔ ∃ a, a ∈ s.journal.dirties ∧ s.stateObjects[a]? = some obj := by
  unfold dirtyObjects
  simp only [mem_filterMap, ExtTreeMap.mem_keys]

theorem mem_commitCode :
    (∃ w ∈ commitCode k.env obj r, w.2.1 = key) ↔
      WritesCode obj ∧ codeKey obj.account.codeHash = key := by
  unfold commitCode WritesCode
  cases obj.code with
  | none => simp
  | some code =>
    cases obj.dirtyCode with
    | false => simp
    | true =>
      by_cases hcode : code = []
      · simp [hcode, env, deleteCode, storeDelete]
      · simp [hcode, env, setCode, storeSet]

theorem mem_commitStorage {a : Address} {items : List (Hash × Hash)} :
    (∃ w ∈ commitStorage k.env a items r, w.2.1 = key) ↔
      ∃ item ∈ items, stateKey a item.1 = key := by
  induction items generalizing r with
  | nil => exact iff_of_false (fun ⟨_, hw, _⟩ => nomatch hw) fun ⟨_, hitem, _⟩ => nomatch hitem
  | cons item rest ih =>
    rw [commitStorage_cons]
    change (∃ w ∈ storeSet (stateKey a item.1) (hashBytes item.2) ++ commitStorage k.env a rest _,
      w.2.1 = key) ↔ _
    simp only [mem_append, or_and_right, exists_or, mem_cons, ih, exists_eq_left,
      storeSet, not_mem_nil, or_false]

/-- The keys of the entries of an object. -/
theorem mem_entryWrites :
    (∃ w ∈ k.entryWrites obj, w.2.1 = key) ↔
      WritesCode obj ∧ codeKey obj.account.codeHash = key ∨ codeHashKey obj.address = key ∨
        ∃ slot, slot ∈ obj.dirtyStorage ∧ stateKey obj.address slot = key := by
  have hhash : (∃ w ∈ k.updateCodeHash obj.address obj.account.codeHash, w.2.1 = key) ↔
      codeHashKey obj.address = key := by
    unfold updateCodeHash
    split
    · simp [deleteCodeHash, storeDelete]
    · simp [setCodeHash, storeSet]
  have hslots : (∃ item ∈ obj.dirtyStorage.toList, stateKey obj.address item.1 = key) ↔
      ∃ slot, slot ∈ obj.dirtyStorage ∧ stateKey obj.address slot = key := by
    constructor
    · rintro ⟨⟨slot, value⟩, hitem, hkey⟩
      have hvalue := ExtTreeMap.mem_toList_iff_getElem?_eq_some.mp hitem
      refine ⟨slot, ExtTreeMap.mem_iff_isSome_getElem?.mpr ?_, hkey⟩
      rw [hvalue]
      rfl
    · rintro ⟨slot, hslot, hkey⟩
      obtain ⟨value, hvalue⟩ :=
        Option.isSome_iff_exists.mp (ExtTreeMap.mem_iff_isSome_getElem?.mp hslot)
      exact ⟨(slot, value), ExtTreeMap.mem_toList_iff_getElem?_eq_some.mpr hvalue, hkey⟩
  unfold entryWrites
  simp only [mem_append, or_and_right, exists_or]
  rw [mem_commitCode, hhash, mem_commitStorage, hslots]

/-- The entries that a flush writes are written again. -/
theorem Retained.entries (h : Retained p s)
    (hp : ∀ (a : Address) (obj : StateObject), p.stateObjects[a]? = some obj → obj.address = a)
    (hs : ∀ (a : Address) (obj : StateObject), s.stateObjects[a]? = some obj → obj.address = a)
    (hlive : Live s) :
    ∀ w ∈ (dirtyObjects p).flatMap k.entryWrites, ∃ w' ∈ (dirtyObjects s).flatMap k.entryWrites,
      w'.2.1 = w.2.1 := by
  intro w hw
  obtain ⟨obj, hobj, hw⟩ := mem_flatMap.mp hw
  obtain ⟨a, hdirty, hobj⟩ := mem_dirtyObjects.mp hobj
  obtain ⟨obj', hobj'⟩ := Option.isSome_iff_exists.mp
    (ExtTreeMap.mem_iff_isSome_getElem?.mp (hlive a (h.dirty a hdirty)))
  have hmem' := mem_dirtyObjects.mpr ⟨a, h.dirty a hdirty, hobj'⟩
  have hwrite : ∀ {o : StateObject}, o ∈ dirtyObjects s → (∃ w' ∈ k.entryWrites o, w'.2.1 = w.2.1) →
      ∃ w' ∈ (dirtyObjects s).flatMap k.entryWrites, w'.2.1 = w.2.1 := by
    rintro o ho ⟨w', hw', hkey⟩
    exact ⟨w', mem_flatMap.mpr ⟨o, ho, hw'⟩, hkey⟩
  rcases mem_entryWrites.mp ⟨w, hw, rfl⟩ with ⟨hcode, hkey⟩ | hkey | ⟨slot, hslot, hkey⟩
  · obtain ⟨b, hb, obj'', hobj'', hcode', hhash⟩ := h.codes a hdirty obj hobj hcode
    refine hwrite (mem_dirtyObjects.mpr ⟨b, hb, hobj''⟩) (mem_entryWrites.mpr (Or.inl ⟨hcode', ?_⟩))
    rw [hhash, hkey]
  · refine hwrite hmem' (mem_entryWrites.mpr (Or.inr (Or.inl ?_)))
    rw [hs a obj' hobj', ← hp a obj hobj, hkey]
  · refine hwrite hmem' (mem_entryWrites.mpr (Or.inr (Or.inr
      ⟨slot, h.slots a hdirty obj obj' hobj hobj' slot hslot, ?_⟩)))
    rw [hs a obj' hobj', ← hp a obj hobj, hkey]

variable {put : AccAddress → Int → (Bytes → Option Value) → Bytes → Option Value}
variable {locks : AccAddress → Option Bytes → Coins}
variable (ha : k.accountKeeper.Orderly) (hb : k.Puts put locks)
include ha hb

/-- A flush is absorbed by a commit that writes again what it wrote. -/
theorem Retained.absorb (h : Retained p s) (hp : Tidy k.env p ∧ Live p)
    (hs : Tidy k.env s ∧ Live s) :
    k.lay put locks (dirtyObjects s) (k.lay put locks (dirtyObjects p) r) =
      k.lay put locks (dirtyObjects s) r := by
  refine lay_absorb ha hb ?_ (h.entries hp.1.address hs.1.address hs.2)
  rw [map_dirtyObjects hp.1.address hp.2, map_dirtyObjects hs.1.address hs.2]
  exact (FMap.keys_sublist h.dirty).subset

/-- Flushes are absorbed by a commit that writes again what they wrote. -/
theorem writtenAll_absorb {r' : Contents} (h : WrittenAll k.env points r r')
    (hs : Tidy k.env s ∧ Live s) (hpoints : ∀ p ∈ points, Retained p s ∧ Tidy k.env p ∧ Live p) :
    k.lay put locks (dirtyObjects s) r' = k.lay put locks (dirtyObjects s) r := by
  induction h with
  | nil r => rfl
  | @cons p points r r₁ r₂ hwritten _ ih =>
    obtain ⟨hretained, hp⟩ := hpoints p mem_cons_self
    have hr₁ : r₁ = k.lay put locks (dirtyObjects p) r := written_lay ha hb hwritten hretained.stays
    rw [ih fun q hq => hpoints q (mem_cons_of_mem _ hq), hr₁]
    exact hretained.absorb ha hb hp hs

omit ha hb in
/-- A second flush writes again what the first wrote. -/
theorem retained_self (h : Undestructed s) : Retained s s where
  stays := h
  dirty _ hmem := hmem
  slots a _ obj obj' hobj hobj' slot hslot := by
    obtain rfl := Option.some.inj (hobj.symm.trans hobj')
    exact hslot
  codes a hmem obj hobj hcode := ⟨a, hmem, obj, hobj, hcode, rfl⟩

/-- Flushes one after the other leave the contents as the first did. -/
theorem flushed_idle (hs : Valid k.env s) (hlive : Live s) (hstays : Undestructed s)
    {x t : StateDB Bytes Value E} (h : Flushed k.env x [] points t)
    {c : Option (CacheContext Bytes Value E)} {n : Nat} (hx : x = s.withCache c n)
    (hc : ∀ c', c = some c' → WellFormed c'.multiStore)
    (hr : (x.observe k.env).contents = k.lay put locks (dirtyObjects s) r) :
    (t.observe k.env).contents = (x.observe k.env).contents := by
  generalize hops : ([] : List Op) = ops at h
  induction h generalizing c n with
  | done x => rfl
  | op => cases hops
  | @flush x x' t ops points hflush _ ih =>
    subst hx
    obtain ⟨c', m, hx', hc', hwritten⟩ := flush_withCache hs hc hflush
    have hsame : (x'.observe k.env).contents = ((s.withCache c n).observe k.env).contents := by
      rw [written_lay ha hb hwritten hstays, hr]
      exact (retained_self hstays).absorb ha hb ⟨hs.tidy, hlive⟩ ⟨hs.tidy, hlive⟩
    rw [ih hx' (fun c'' hc'' => Option.some.inj hc'' ▸ hc') (hsame.trans hr) hops, hsame]

end Runs

theorem plainAuth_orderly : plainAuth.Orderly where
  toLawful := plainAuth_lawful
  new_congr r r' a := rfl
  new_writes r a := rfl
  new_vesting r a := rfl
  set_set r acct acct' haddr _ := by
    funext key
    simp only [plainAuth, overwritten, foldl_cons, foldl_nil, true_and, haddr]
    split <;> rfl
  set_comm r acct acct' hne := by
    funext key
    simp only [plainAuth, overwritten, foldl_cons, foldl_nil, true_and]
    by_cases h : acct.address = key
    · rw [if_neg fun heq => hne (h.trans heq.symm), if_pos h, if_pos h]
    · rw [if_neg h, if_neg h]

/-- A balance is set in the book that the store holds. -/
def putBook (a : AccAddress) (amount : Int) (store : Bytes → Option Value) : Bytes → Option Value :=
  update store [] (some (.book ((storedBook fun _ => store).set a ("drop", amount))))

theorem putBook_putBook (a b : AccAddress) (amount amount' : Int) (store : Bytes → Option Value) :
    putBook a amount (putBook b amount' store) = update store []
      (some (.book (((storedBook fun _ => store).set b ("drop", amount')).set a
        ("drop", amount)))) := by
  have hbook : storedBook (fun _ => putBook b amount' store) =
      (storedBook fun _ => store).set b ("drop", amount') := by
    simp only [storedBook, putBook, update_self]
  rw [putBook, hbook, putBook, update_idem]

theorem smallKeeper_puts : smallKeeper.Puts putBook fun _ _ => [] where
  onStore := smallKeeper_supplied.onStore
  written s a amount t h := by
    obtain ⟨book, hset, rfl⟩ := storedBank_uncheckedSetBalance h
    cases hset
    funext key
    rw [Session.keep, Session.reads_write, putBook, update_apply]
    simp only [overwritten, foldl_cons, foldl_nil, true_and, eq_comm]
    rfl
  locked s a := rfl
  put_put a amount amount' store := by
    rw [putBook_putBook, putBook]
    congr 3
    simp only [Book.set]
    congr 1
    funext b d
    split <;> rfl
  put_comm a b amount amount' store hne := by
    rw [putBook_putBook, putBook_putBook]
    congr 3
    simp only [Book.set]
    congr 1
    funext x d
    by_cases hx : x = a ∧ d = "drop"
    · rw [if_pos hx, if_neg fun hand => hne (hx.1.symm.trans hand.1), if_pos hx]
    · rw [if_neg hx, if_neg hx]

end InfiniteEvm.VM
