import InfiniteEvm.VM.KeeperLedger
import Mathlib.Data.Set.Finite.List

/-!
# Storage entries

`ForEachStorage` of the keeper and what the state database derives from it, and the
entries that a commit leaves. A commit writes every dirty slot as 32 bytes, a zero too, so
that an entry may be left for a slot that reads zero.
-/

namespace InfiniteEvm.VM

open Std Library SnapshotMulti StateDB List Entry Function

/-! ## Visiting slots -/

/-- The loop of `ForEachStorage`. The callback says whether to go on. -/
def visit {S : Type*} (cb : S → Hash → Hash → S × Bool) : List (Hash × Hash) → S → S
  | [], s => s
  | (key, value) :: rest, s =>
    match cb s key value with
    | (s, false) => s
    | (s, true) => visit cb rest s

/-- `StackTrie` of `go-ethereum`, as far as `GetStorageRoot` uses it. -/
structure StackTrie (T : Type*) where
  new : T
  update : T → Bytes → Bytes → Except String T
  hash : T → Hash

/-- The first slot goes in, and a trie with slots has not the root of an empty one. -/
structure StackTrie.Lawful {T : Type*} (trie : StackTrie T) : Prop where
  first : ∀ key value, value ≠ [] → ∃ t, trie.update trie.new key value = .ok t
  filled : ∀ t key value t', trie.update t key value = .ok t' → trie.hash t' ≠ trie.hash trie.new

variable {E T : Type}

namespace Keeper

variable (k : Keeper E)

/-- The slots that `ForEachStorage` finds. -/
def slots (r : Contents) (addr : Address) : List (Hash × Hash) :=
  (k.iterator r (addressStoragePrefix addr)).map fun key =>
    (bytesToHash key, bytesToHash ((storeGet r key).getD []))

/-- `ForEachStorage`. -/
def forEachStorage {S : Type*} (r : Contents) (addr : Address)
    (cb : S → Hash → Hash → S × Bool) (s : S) : S :=
  visit cb (k.slots r addr) s

/-- `IsStorageEmpty`. -/
def isStorageEmpty (r : Contents) (addr : Address) : Bool :=
  k.forEachStorage r addr (fun _ _ _ => (false, false)) true

/-- `GetStorageRoot`. -/
def getStorageRoot (trie : StackTrie T) (r : Contents) (addr : Address) : Hash :=
  trie.hash (k.forEachStorage r addr (fun t key value =>
    match trie.update t (hashBytes key) (hashBytes value) with
    | .error _ => (t, false)
    | .ok t => (t, true)) trie.new)

theorem isStorageEmpty_iff (r : Contents) (addr : Address) :
    k.isStorageEmpty r addr = true ↔ k.slots r addr = [] := by
  unfold isStorageEmpty forEachStorage
  cases k.slots r addr with
  | nil => simp [visit]
  | cons slot rest => simp [visit]

/-- The root is that of an empty trie exactly if there are no slots. -/
theorem getStorageRoot_iff {trie : StackTrie T} (htrie : trie.Lawful) (r : Contents)
    (addr : Address) : k.getStorageRoot trie r addr = trie.hash trie.new ↔ k.slots r addr = [] := by
  let cb : T → Hash → Hash → T × Bool := fun t key value =>
    match trie.update t (hashBytes key) (hashBytes value) with
    | .error _ => (t, false)
    | .ok t => (t, true)
  have hfilled : ∀ (items : List (Hash × Hash)) (t : T), trie.hash t ≠ trie.hash trie.new →
      trie.hash (visit cb items t) ≠ trie.hash trie.new := by
    intro items
    induction items with
    | nil => exact fun t ht => ht
    | cons item rest ih =>
      intro t ht
      cases hupdate : trie.update t (hashBytes item.1) (hashBytes item.2) with
      | error err =>
        have hstop : visit cb (item :: rest) t = t := by
          simp only [visit, cb, hupdate]
        rw [hstop]
        exact ht
      | ok t' =>
        have hgo : visit cb (item :: rest) t = visit cb rest t' := by
          simp only [visit, cb, hupdate]
        rw [hgo]
        exact ih t' (htrie.filled _ _ _ _ hupdate)
  change trie.hash (visit cb (k.slots r addr) trie.new) = _ ↔ _
  cases k.slots r addr with
  | nil => exact ⟨fun _ => rfl, fun _ => rfl⟩
  | cons slot rest =>
    have hbytes : hashBytes slot.2 ≠ [] := by
      intro hnil
      have hlen : (hashBytes slot.2).length = 32 := BigEndian.length_toBytes _ _
      rw [hnil] at hlen
      cases hlen
    obtain ⟨t, ht⟩ := htrie.first (hashBytes slot.1) (hashBytes slot.2) hbytes
    have hgo : visit cb (slot :: rest) trie.new = visit cb rest t := by
      simp only [visit, cb, ht]
    rw [hgo]
    exact iff_of_false (hfilled rest t (htrie.filled _ _ _ _ ht)) (cons_ne_nil _ _)

end Keeper

/-! ## The iterator -/

/-- Finitely many keys of the store have a value. -/
def Listed (r : Contents) : Prop := {key | storeGet r key ≠ none}.Finite

/-- The contents of a context are finite. -/
theorem listed_reads (ctx : Context Bytes Value E) : Listed ctx.reads := by
  cases hstore : ctx.stores[storeKey]? with
  | none =>
    refine Set.Finite.subset Set.finite_empty fun key hkey => hkey ?_
    rw [storeGet, Context.reads, hstore]
    rfl
  | some store =>
    refine Set.Finite.subset (finite_toSet store.keys) fun key hkey => ?_
    refine ExtTreeMap.mem_keys.mpr (ExtTreeMap.isSome_getElem?_iff_mem.mp ?_)
    rw [Option.isSome_iff_ne_none]
    intro hnone
    refine hkey ?_
    rw [storeGet, Context.reads, hstore, Option.bind_some, hnone]

variable {r : Contents} {k : Keeper E} {addr b : Address} {P : Entry → Prop}

/-- Contents stay finite. -/
theorem Listed.overwritten (h : Listed r) (ws : List Write) : Listed (overwritten r ws) := by
  induction ws generalizing r with
  | nil => exact h
  | cons w rest ih =>
    refine ih (r := SnapshotMulti.overwritten r [w]) ?_
    refine (h.union (Set.finite_singleton w.2.1)).subset fun key hkey => ?_
    by_cases heq : key = w.2.1
    · exact Or.inr heq
    · refine Or.inl fun hnone => hkey ?_
      have hsame : SnapshotMulti.overwritten r [w] storeKey key = r storeKey key :=
        if_neg fun hand => heq hand.2.symm
      rw [storeGet, hsame]
      exact hnone

/-- The iterator lists the keys under a key prefix that have a value, each once. -/
structure Keeper.Iterates (k : Keeper E) : Prop where
  mem_iff : ∀ r, Listed r → ∀ keyPrefix key,
    key ∈ k.iterator r keyPrefix ↔ keyPrefix <+: key ∧ storeGet r key ≠ none
  nodup : ∀ r, Listed r → ∀ keyPrefix, (k.iterator r keyPrefix).Nodup

theorem bytesToHash_stateKey (addr : Address) (slot : Hash) :
    bytesToHash (stateKey addr slot) = slot := by
  have hlen : (hashBytes slot).length = 32 := BigEndian.length_toBytes _ _
  have hread := bytesToHash_hashBytes slot
  rw [bytesToHash] at hread
  rw [bytesToHash, stateKey, BigEndian.ofBytes_append, hlen, BitVec.ofNat_add, hread]
  have hzero : BitVec.ofNat 256 (BigEndian.ofBytes (addressStoragePrefix addr) * 256 ^ 32) = 0 := by
    apply BitVec.eq_of_toNat_eq
    rw [BitVec.toNat_ofNat]
    exact Nat.mul_mod_left _ _
  rw [hzero]
  exact BitVec.zero_add slot

/-- The keys under the storage prefix of an account are those of its slots. -/
def Keyed (r : Contents) : Prop :=
  ∀ addr key, addressStoragePrefix addr <+: key → storeGet r key ≠ none →
    ∃ slot, key = stateKey addr slot

/-- The value of a slot is the one stored for it. -/
theorem getState_of_stored (r : Contents) (addr : Address) (slot : Hash) :
    getState r addr slot = bytesToHash ((storeGet r (stateKey addr slot)).getD []) := by
  unfold getState
  cases storeGet r (stateKey addr slot) with
  | none => rfl
  | some value =>
    cases value with
    | nil => rfl
    | cons b rest => rfl

/-- `ForEachStorage` finds the slots that have an entry. -/
theorem Keeper.mem_slots (hk : k.Iterates) (hlisted : Listed r) (hkeyed : Keyed r) (addr : Address)
    (slot value : Hash) :
    (slot, value) ∈ k.slots r addr ↔
      storeGet r (stateKey addr slot) ≠ none ∧ value = getState r addr slot := by
  rw [slots, mem_map]
  constructor
  · rintro ⟨key, hmem, heq⟩
    obtain ⟨hunder, hstored⟩ := (hk.mem_iff r hlisted _ _).mp hmem
    obtain ⟨slot', rfl⟩ := hkeyed addr key hunder hstored
    rw [bytesToHash_stateKey] at heq
    obtain ⟨rfl, rfl⟩ := Prod.mk.inj heq
    exact ⟨hstored, (getState_of_stored r addr slot').symm⟩
  · rintro ⟨hstored, rfl⟩
    refine ⟨stateKey addr slot, (hk.mem_iff r hlisted _ _).mpr ⟨prefix_append _ _, hstored⟩, ?_⟩
    rw [bytesToHash_stateKey, getState_of_stored]

/-- `ForEachStorage` visits no slot twice. -/
theorem Keeper.nodup_slots (hk : k.Iterates) (hlisted : Listed r) (hkeyed : Keyed r)
    (addr : Address) : ((k.slots r addr).map Prod.fst).Nodup := by
  rw [slots, map_map]
  refine Nodup.map_on ?_ (hk.nodup r hlisted _)
  intro key hkey key' hkey' heq
  obtain ⟨hunder, hstored⟩ := (hk.mem_iff r hlisted _ _).mp hkey
  obtain ⟨hunder', hstored'⟩ := (hk.mem_iff r hlisted _ _).mp hkey'
  obtain ⟨slot, rfl⟩ := hkeyed addr key hunder hstored
  obtain ⟨slot', rfl⟩ := hkeyed addr key' hunder' hstored'
  change bytesToHash (stateKey addr slot) = bytesToHash (stateKey addr slot') at heq
  rw [bytesToHash_stateKey, bytesToHash_stateKey] at heq
  rw [heq]

/-! ## Canonical storage -/

/-- A slot has an entry exactly if it is not zero. -/
def Canonical (r : Contents) : Prop :=
  ∀ addr slot, storeGet r (stateKey addr slot) ≠ none ↔ getState r addr slot ≠ 0

/-- In canonical storage `ForEachStorage` finds the slots that are not zero. -/
theorem Keeper.mem_slots_of_canonical (hk : k.Iterates) (hlisted : Listed r) (hkeyed : Keyed r)
    (hcanonical : Canonical r) (addr : Address) (slot value : Hash) :
    (slot, value) ∈ k.slots r addr ↔ value = getState r addr slot ∧ value ≠ 0 := by
  rw [mem_slots hk hlisted hkeyed, hcanonical addr slot]
  constructor
  · rintro ⟨hne, rfl⟩
    exact ⟨rfl, hne⟩
  · rintro ⟨rfl, hne⟩
    exact ⟨hne, rfl⟩

theorem Keeper.slots_eq_nil_iff (hk : k.Iterates) (hlisted : Listed r) (hkeyed : Keyed r)
    (hcanonical : Canonical r) (addr : Address) :
    k.slots r addr = [] ↔ ∀ slot, getState r addr slot = 0 := by
  rw [eq_nil_iff_forall_not_mem]
  constructor
  · intro hnone slot
    by_contra hne
    exact hnone (slot, getState r addr slot)
      ((mem_slots_of_canonical hk hlisted hkeyed hcanonical ..).mpr ⟨rfl, hne⟩)
  · rintro hzero ⟨slot, value⟩ hmem
    obtain ⟨rfl, hne⟩ := (mem_slots_of_canonical hk hlisted hkeyed hcanonical ..).mp hmem
    exact hne (hzero slot)

/-! ## What commits write to the store -/

/-- Keys that are not those of an entry keep their value. -/
def OnEntries (r r' : Contents) : Prop :=
  ∀ key, (∀ e : Entry, e.key ≠ key) → r' storeKey key = r storeKey key

theorem OnEntries.trans {r' r'' : Contents} (h : OnEntries r r') (h' : OnEntries r' r'') :
    OnEntries r r'' :=
  fun key hkey => (h' key hkey).trans (h key hkey)

theorem Within.onEntries {ws : List Write} (h : Within P ws) (r : Contents) :
    OnEntries r (overwritten r ws) :=
  fun _ hkey => h.get (fun e _ => hkey e) r

theorem Sets.onEntries {ws : List Write} (h : Sets P ws) (r : Contents) :
    OnEntries r (overwritten r ws) :=
  (h.within fun _ => id).onEntries r

/-- The storage prefix of an account is found in the keys of its slots only. -/
theorem Entry.eq_state_of_prefix {e : Entry} (h : addressStoragePrefix addr <+: e.key) :
    ∃ slot, e = .state addr slot := by
  obtain ⟨rest, hrest⟩ := h
  cases e with
  | code h | codeHash a => exact absurd (cons.inj hrest).1 (by decide)
  | state a slot =>
    obtain ⟨hunder, -⟩ := append_inj hrest (by simp [addressStoragePrefix, addressBytes])
    obtain rfl := addressBytes_inj (append_cancel_left hunder)
    exact ⟨slot, rfl⟩

theorem OnEntries.keyed {r' : Contents} (h : OnEntries r r') (hkeyed : Keyed r) : Keyed r' := by
  intro addr key hunder hstored
  by_cases hentry : ∃ e : Entry, e.key = key
  · obtain ⟨e, rfl⟩ := hentry
    obtain ⟨slot, rfl⟩ := eq_state_of_prefix hunder
    exact ⟨slot, rfl⟩
  · refine hkeyed addr key hunder ?_
    rw [storeGet, ← h key fun e heq => hentry ⟨e, heq⟩]
    exact hstored

namespace Keeper

variable {k : Keeper E} (ha : k.accountKeeper.Lawful) (hb : BankWrites k.bankWrapper.bk)
variable {r : Contents} {obj : StateObject}

theorem sets_commitStorage (a : Address) (items : List (Hash × Hash)) (r : Contents) :
    Sets (∃ slot, · = .state a slot) (commitStorage k.env a items r) := by
  induction items generalizing r with
  | nil => exact nofun
  | cons item rest ih =>
    rw [commitStorage_cons]
    exact (sets_storeSet (.state a item.1) ⟨_, rfl⟩ _).append (ih _)

/-- The code of an object is written under its hash. -/
theorem sets_commitCode (obj : StateObject) (r : Contents) :
    Sets (∃ h, · = .code h) (commitCode k.env obj r) := by
  unfold commitCode
  split
  · exact nofun
  · split
    · split
      · exact sets_storeDelete (.code _) ⟨_, rfl⟩
      · exact sets_storeSet (.code _) ⟨_, rfl⟩ _
    · exact nofun

include ha hb

/-- Writing an object is to its own entries and to those of codes. -/
theorem within_commitObject (h : (commitObject k.env obj r).err = none) :
    Within (fun e => e.OfAccount obj.address ∨ ∃ h, e = .code h)
      (commitObject k.env obj r).writes := by
  have hset : ∀ {r}, (k.setAccount r obj.address obj.account).err = none →
      Within (fun e => e.OfAccount obj.address ∨ ∃ h, e = .code h)
        (k.setAccount r obj.address obj.account).writes := fun herr =>
    (within_setAccount ha hb herr).mono fun _ heq => .inl (heq ▸ rfl)
  have hdeleted : ∀ {r}, (k.deleteAccount r obj.address).err = none →
      Within (fun e => e.OfAccount obj.address ∨ ∃ h, e = .code h)
        (k.deleteAccount r obj.address).writes := fun herr =>
    (within_deleteAccount ha hb herr).mono fun _ => .inl
  unfold commitObject at h ⊢
  split at h <;> rename_i hdead
  · rw [if_pos hdead]
    obtain ⟨r₁, -, hdelete, ⟨rfl, hold⟩ | ⟨code, r₀, hcode, hdirty, hne, hr₀, herr, hr₁⟩⟩ :=
      commitDestructed_cases h
    · rw [(commitDestructed_old hold r₁).2]
      exact hdeleted hdelete
    · have hsets : Sets (∃ h, · = .code h) (k.env.setCode r obj.account.codeHash code) :=
        sets_storeSet (.code _) ⟨_, rfl⟩ _
      rw [(commitDestructed_new hcode hdirty hne hr₀ herr hr₁).2]
      exact ((hsets.within fun _ => .inr).append (hset herr)).append (hdeleted hdelete)
  · rw [if_neg hdead]
    obtain ⟨r₁, r₂, hr₁, herr, hr₂, -⟩ := commitLive_cases h
    rw [(commitLive_eq hr₁ herr hr₂).2]
    exact (((sets_commitCode obj r).within fun _ => .inr).append (hset herr)).append
      ((sets_commitStorage _ _ _).within fun _ ⟨_, heq⟩ => .inl (heq ▸ rfl))

omit ha hb in
theorem overwritten_commitStorage (a : Address) (items : List (Hash × Hash)) (r : Contents) :
    overwritten r (commitStorage k.env a items r) =
      items.foldl (fun r p => overwritten r (setState a p.1 (hashBytes p.2))) r := by
  induction items generalizing r with
  | nil => rfl
  | cons item rest ih =>
    rw [commitStorage_cons, overwritten_append, ih]
    rfl

omit ha hb in
/-- The slots of a storage are written under their keys. -/
theorem entries_commitStorage (a : Address) (storage : Storage) (r : Contents) (slot : Hash) :
    entries (overwritten r (commitStorage k.env a storage.toList r)) (.state a slot) =
      (storage[slot]?).elim (entries r (.state a slot)) fun value => some (hashBytes value) := by
  have hwalk := FMap.read_foldl
    (fun (r : Contents) slot value => overwritten r (setState a slot (hashBytes value)))
    (fun r slot => entries r (.state a slot)) (fun value => some (hashBytes value))
    (fun r slot value => by
      change entries (overwritten r (storeSet (state a slot).key _)) _ = _
      rw [entries_storeSet, update_self])
    (fun r slot value slot' hne => by
      change entries (overwritten r (storeSet (state a slot).key _)) _ = _
      rw [entries_storeSet, update_of_ne fun heq => hne (state.inj heq).2.symm])
    storage r slot
  rw [ExtTreeMap.foldl_eq_foldl_toList] at hwalk
  rw [overwritten_commitStorage]
  exact hwalk

/-- An object that stays leaves an entry for every dirty slot. -/
theorem states_commitLive (h : (commitLive k.env obj r).err = none) (slot : Hash) :
    entries (overwritten r (commitLive k.env obj r).writes) (.state obj.address slot) =
      (obj.dirtyStorage[slot]?).elim (entries r (.state obj.address slot))
        fun value => some (hashBytes value) := by
  obtain ⟨r₁, r₂, rfl, hset, rfl, hwrites⟩ := commitLive_cases h
  rw [hwrites, entries_commitStorage]
  have hsame := (within_setAccount ha hb hset).entry (e := .state obj.address slot) (by simp)
    (overwritten r (commitCode k.env obj r))
  rw [(sets_commitCode obj r).entry (by simp)] at hsame
  exact congrArg (fun entry => (obj.dirtyStorage[slot]?).elim entry _) hsame

omit ha hb in
theorem states_deleteStates (addr : Address) (keys : List Hash) (r : Contents) (slot : Hash) :
    entries (overwritten r (keys.flatMap (deleteState addr))) (.state addr slot) =
      if slot ∈ keys then none else entries r (.state addr slot) := by
  induction keys generalizing r with
  | nil => rfl
  | cons key rest ih =>
    rw [flatMap_cons, overwritten_append, ih]
    change (if slot ∈ rest then none else
      entries (overwritten r (storeDelete (state addr key).key)) (.state addr slot)) = _
    rw [entries_storeDelete, update_apply]
    by_cases hslot : slot = key
    · subst hslot
      simp
    · simp [hslot]

/-- Deleting an account that exists removes its code hash, and the slots that
`ForEachStorage` finds in the store as it was. -/
theorem entries_deleteAccount {acct : AccountI}
    (hacct : k.accountKeeper.getAccount r (addressBytes addr) = some acct)
    (h : (k.deleteAccount r addr).err = none) :
    entries (overwritten r (k.deleteAccount r addr).writes) (.codeHash addr) = none ∧
      ∃ t : Session E, t.reads storeKey = r storeKey ∧ ∀ slot,
        entries (overwritten r (k.deleteAccount r addr).writes) (.state addr slot) =
          if slot ∈ k.storageKeys t.reads addr then none else entries r (.state addr slot) := by
  obtain ⟨t, wsb, -, hwsb, hreads, -, hr⟩ := deleteAccount_reads ha hb hacct h rfl
  have hset := (ha.setAccount r
    (newBaseAccount (addressBytes addr) acct.pubKey acct.accountNumber acct.sequence)).1
  have hremove := (ha.removeAccount r acct).1
  have hsame : t.reads storeKey = r storeKey := by
    rw [hreads, hwsb.other (by decide), hset.other (by decide)]
  rw [hr]
  refine ⟨?_, t, hsame, fun slot => ?_⟩
  · rw [entries_congr (hremove.other (by decide) _)]
    change entries (overwritten _ (storeDelete (codeHash addr).key)) _ = _
    rw [entries_storeDelete, update_self]
  · rw [entries_congr (hremove.other (by decide) _)]
    change entries (overwritten _ (storeDelete (codeHash addr).key)) _ = _
    rw [entries_storeDelete, update_of_ne (by simp), states_deleteStates, entries_congr hsame]

/-- Deleting an account adds no entry of a slot. -/
theorem states_deleteAccount (h : (k.deleteAccount r addr).err = none) (slot : Hash) :
    entries (overwritten r (k.deleteAccount r addr).writes) (.state addr slot) =
        entries r (.state addr slot) ∨
      entries (overwritten r (k.deleteAccount r addr).writes) (.state addr slot) = none := by
  cases hacct : k.accountKeeper.getAccount r (addressBytes addr) with
  | none =>
    rw [deleteAccount_none hacct]
    exact Or.inl rfl
  | some acct =>
    obtain ⟨-, t, -, hstates⟩ := entries_deleteAccount ha hb hacct h
    rw [hstates]
    split
    · exact Or.inr rfl
    · exact Or.inl rfl

/-- A destructed object adds no entry of a slot. -/
theorem states_commitDestructed (h : (commitDestructed k.env obj r).err = none) (slot : Hash) :
    entries (overwritten r (commitDestructed k.env obj r).writes) (.state obj.address slot) =
        entries r (.state obj.address slot) ∨
      entries (overwritten r (commitDestructed k.env obj r).writes) (.state obj.address slot) =
        none := by
  obtain ⟨r₁, hwrites, hdelete, hcases⟩ := commitDestructed_cases h
  have hbefore : entries r₁ (.state obj.address slot) = entries r (.state obj.address slot) := by
    rcases hcases with ⟨rfl, -⟩ | ⟨code, r₀, -, -, -, rfl, hset, rfl⟩
    · rfl
    · have hsets : Sets (∃ h, · = .code h) (k.env.setCode r obj.account.codeHash code) :=
        sets_storeSet (.code _) ⟨_, rfl⟩ _
      exact ((within_setAccount ha hb hset).entry (by simp) _).trans (hsets.entry (by simp) r)
  rw [hwrites, ← hbefore]
  exact states_deleteAccount ha hb hdelete slot

/-! ## Commit loops -/

omit ha hb in
/-- No dirty slot of an object that stays is zero. -/
def NoZeroSlot (obj : StateObject) : Prop :=
  obj.selfDestructed = false → ∀ slot value : Hash, obj.dirtyStorage[slot]? = some value → value ≠ 0

theorem states_commitObject_of_ne (h : (commitObject k.env obj r).err = none)
    (hne : b ≠ obj.address) (slot : Hash) :
    entries (overwritten r (commitObject k.env obj r).writes) (.state b slot) =
      entries r (.state b slot) :=
  (within_commitObject ha hb h).entry (by simp [OfAccount, hne]) r

/-- Writing an object without zero slots keeps the storage canonical. -/
theorem canonical_commitObject (h : (commitObject k.env obj r).err = none)
    (hslots : NoZeroSlot obj) (hr : Canonical r) :
    Canonical (overwritten r (commitObject k.env obj r).writes) := by
  intro b slot
  change entries _ (.state b slot) ≠ none ↔ storedHash 0 (entries _ (.state b slot)) ≠ 0
  have hold : entries r (.state b slot) ≠ none ↔ storedHash 0 (entries r (.state b slot)) ≠ 0 :=
    hr b slot
  by_cases hne : b = obj.address
  · subst hne
    unfold commitObject at h ⊢
    split at h <;> rename_i hdead
    · rw [if_pos hdead]
      rcases states_commitDestructed ha hb h slot with hsame | hnone
      · rw [hsame]
        exact hold
      · rw [hnone]
        exact iff_of_false (fun hne => hne rfl) (fun hne => hne rfl)
    · rw [if_neg hdead, states_commitLive ha hb h slot]
      cases hslot : obj.dirtyStorage[slot]? with
      | none => exact hold
      | some value =>
        refine iff_of_true (Option.some_ne_none _) ?_
        rw [Option.elim_some, storedHash_hashBytes]
        exact hslots (Bool.eq_false_iff.mpr hdead) slot value hslot
  · rw [states_commitObject_of_ne ha hb h hne]
    exact hold

variable {objects : FMap Address StateObject} {addrs : List Address} {r' : Contents}

theorem onEntries_written (h : Written k.env objects addrs r r') : OnEntries r r' := by
  induction h with
  | nil r => exact fun _ _ => rfl
  | cons _ herr _ ih => exact ((within_commitObject ha hb herr).onEntries _).trans ih

section

variable (h : Written k.env objects addrs r r')
  (haddress : ∀ (a : Address) (obj : StateObject), objects[a]? = some obj → obj.address = a)
include h haddress

theorem states_written_of_not_mem (hb' : b ∉ addrs) (slot : Hash) :
    entries r' (.state b slot) = entries r (.state b slot) := by
  induction h with
  | nil r => rfl
  | cons hobj herr _ ih =>
    obtain ⟨hne, hrest⟩ := ne_and_not_mem_of_not_mem_cons hb'
    rw [ih hrest, states_commitObject_of_ne ha hb herr]
    rw [haddress _ _ hobj]
    exact hne

/-- A dirty slot of an object that stays is left in the store. -/
theorem states_written_of_mem (hnodup : addrs.Nodup) {a : Address} (hmem : a ∈ addrs)
    (hobj : objects[a]? = some obj) (hlive : obj.selfDestructed = false) {slot value : Hash}
    (hslot : obj.dirtyStorage[slot]? = some value) :
    entries r' (.state a slot) = some (hashBytes value) := by
  induction h with
  | nil r => cases hmem
  | @cons a' obj' rest r r' hobj' herr hrest ih =>
    obtain ⟨hnot, hnodup⟩ := nodup_cons.mp hnodup
    rcases mem_cons.mp hmem with rfl | hmem
    · obtain rfl := Option.some.inj (hobj'.symm.trans hobj)
      have haddr := haddress _ _ hobj
      rw [states_written_of_not_mem ha hb hrest haddress hnot]
      unfold commitObject at herr ⊢
      rw [hlive, if_neg Bool.false_ne_true] at herr ⊢
      rw [← haddr, states_commitLive ha hb herr slot, hslot]
      rfl
    · exact ih hnodup hmem

/-- A commit loop keeps the storage canonical exactly if it writes no zero slot. -/
theorem written_canonical_iff (hnodup : addrs.Nodup) (hr : Canonical r) :
    Canonical r' ↔ ∀ a ∈ addrs, ∀ obj : StateObject, objects[a]? = some obj → NoZeroSlot obj := by
  constructor
  · intro hcanonical a hmem obj hobj hlive slot value hslot hzero
    have hentry := states_written_of_mem ha hb h haddress hnodup hmem hobj hlive hslot
    have hread := hcanonical a slot
    change entries r' (.state a slot) ≠ none ↔
      storedHash 0 (entries r' (.state a slot)) ≠ 0 at hread
    rw [hentry, storedHash_hashBytes] at hread
    exact hread.mp (Option.some_ne_none _) hzero
  · intro hslots
    clear haddress hnodup
    induction h with
    | nil r => exact hr
    | cons hobj herr _ ih =>
      refine ih (canonical_commitObject ha hb herr (hslots _ mem_cons_self _ hobj) hr) ?_
      exact fun a hmem => hslots a (mem_cons_of_mem _ hmem)

end

end Keeper

end InfiniteEvm.VM
