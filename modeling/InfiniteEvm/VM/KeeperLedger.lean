import InfiniteEvm.Precompiles.BalanceHandler
import InfiniteEvm.StateDB.BankWrites
import InfiniteEvm.VM.Keeper

/-!
# The ledger of the keeper

The keeper of `x/vm` reads back what it writes, if `x/auth` and the bank do and nothing
is locked. Each of the three has a store of its own, so that a write is seen by the getters
of its module only.
-/

namespace InfiniteEvm.VM

open Std Library SnapshotMulti Function List Option BankWrapper

/-! ## Stores -/

/-- All writes go to one store. -/
def OnStore (name : String) (ws : List Write) : Prop := ∀ w ∈ ws, w.1 = name

/-- Writes to one store leave the others alone. -/
theorem OnStore.other {name other : String} {ws : List Write} (h : OnStore name ws)
    (hne : name ≠ other) (r : Contents) : overwritten r ws other = r other :=
  overwritten_of_other (fun w hw => (h w hw).symm ▸ hne) r

theorem onStore_storeSet (key value : Bytes) : OnStore storeKey (storeSet key value) := by
  intro w hw
  rw [mem_singleton.mp hw]

theorem onStore_storeDelete (key : Bytes) : OnStore storeKey (storeDelete key) := by
  intro w hw
  rw [mem_singleton.mp hw]

/-- The entries of the module's store. -/
inductive Entry
  | code (codeHash : Hash)
  | state (addr : Address) (key : Hash)
  | codeHash (addr : Address)
  deriving DecidableEq

/-- The key of an entry. -/
def Entry.key : Entry → Bytes
  | .code h => codeKey h
  | .state addr key => stateKey addr key
  | .codeHash addr => codeHashKey addr

theorem Entry.key_injective : Injective Entry.key := by
  have hheads : ∀ {x y : UInt8} {l l' : Bytes}, x ≠ y → x :: l ≠ y :: l' :=
    fun hne heq => hne (cons.inj heq).1
  intro e e' h
  cases e with
  | code codeHash =>
    cases e' with
    | code codeHash' => rw [hashBytes_inj (append_cancel_left h)]
    | state addr key | codeHash addr => exact absurd h (hheads (by decide))
  | state addr key =>
    cases e' with
    | code codeHash | codeHash addr' => exact absurd h (hheads (by decide))
    | state addr' key' =>
      obtain ⟨haddr, hkey⟩ := append_inj h (by simp [addressStoragePrefix, addressBytes])
      rw [addressBytes_inj (append_cancel_left haddr), hashBytes_inj hkey]
  | codeHash addr =>
    cases e' with
    | code codeHash | state addr' key => exact absurd h (hheads (by decide))
    | codeHash addr' => rw [addressBytes_inj (append_cancel_left h)]

/-- What the store holds, by entry. -/
def entries (r : Contents) : Entry → Option Bytes := fun e => storeGet r e.key

theorem entries_congr {r r' : Contents} (h : r storeKey = r' storeKey) :
    entries r = entries r' := by
  funext e
  rw [entries, entries, storeGet, storeGet, h]

/-- Write a value to an entry, or remove it. -/
theorem entries_put (r : Contents) (e : Entry) (value : Option Bytes) :
    entries (overwritten r [(storeKey, e.key, value.map .raw)]) =
      update (entries r) e value := by
  funext e'
  by_cases h : e' = e
  · subst h
    cases value with
    | none | some bytes => simp [entries, storeGet, overwritten]
  · have hkey : e.key ≠ e'.key := fun heq => h (Entry.key_injective heq.symm)
    simp [entries, storeGet, overwritten, hkey, update_of_ne h]

theorem entries_storeSet (r : Contents) (e : Entry) (value : Bytes) :
    entries (overwritten r (storeSet e.key value)) = update (entries r) e (some value) :=
  entries_put r e (some value)

theorem entries_storeDelete (r : Contents) (e : Entry) :
    entries (overwritten r (storeDelete e.key)) = update (entries r) e none :=
  entries_put r e none

/-- A hash that is stored in an entry, or the default for none. -/
def storedHash (default : Hash) : Option Bytes → Hash
  | none | some [] => default
  | some bytes => bytesToHash bytes

theorem storedHash_hashBytes (default h : Hash) : storedHash default (some (hashBytes h)) = h := by
  have hcons : ∃ b rest, hashBytes h = b :: rest := exists_cons_of_length_pos (by simp [hashBytes])
  obtain ⟨b, rest, hbytes⟩ := hcons
  have hread := bytesToHash_hashBytes h
  rw [hbytes] at hread ⊢
  exact hread

theorem getState_eq (r : Contents) (addr : Address) (key : Hash) :
    getState r addr key = storedHash 0 (entries r (.state addr key)) := rfl

theorem getCode_eq (r : Contents) (h : Hash) : getCode r h = entries r (.code h) := rfl

theorem Keeper.getCodeHash_eq {E : Type} (k : Keeper E) (r : Contents) (addr : Address) :
    k.getCodeHash r addr = storedHash k.emptyCodeHash (entries r (.codeHash addr)) := rfl

/-! ## `x/auth` and the bank -/

def authStore : String := "acc"
def bankStore : String := "bank"

/-- The writes are to entries of the module, to those with a property. -/
def Sets (P : Entry → Prop) (ws : List Write) : Prop :=
  ∀ w ∈ ws, w.1 = storeKey ∧ ∃ e : Entry, P e ∧ e.key = w.2.1

/-- The writes are to `x/auth`, to the bank, or to entries of the module with a property. -/
def Within (P : Entry → Prop) (ws : List Write) : Prop :=
  ∀ w ∈ ws, w.1 = authStore ∨ w.1 = bankStore ∨ w.1 = storeKey ∧ ∃ e : Entry, P e ∧ e.key = w.2.1

section Within

variable {P Q : Entry → Prop} {ws ws' : List Write} {e : Entry}

theorem sets_storeSet (e : Entry) (he : P e) (value : Bytes) : Sets P (storeSet e.key value) := by
  intro w hw
  rw [mem_singleton.mp hw]
  exact ⟨rfl, e, he, rfl⟩

theorem sets_storeDelete (e : Entry) (he : P e) : Sets P (storeDelete e.key) := by
  intro w hw
  rw [mem_singleton.mp hw]
  exact ⟨rfl, e, he, rfl⟩

theorem Sets.append (h : Sets P ws) (h' : Sets P ws') : Sets P (ws ++ ws') :=
  forall_mem_append.mpr ⟨h, h'⟩

theorem Sets.flatMap {ι : Type} {f : ι → List Write} {l : List ι} (h : ∀ i, Sets P (f i)) :
    Sets P (l.flatMap f) := by
  intro w hw
  obtain ⟨i, -, hw⟩ := mem_flatMap.mp hw
  exact h i w hw

theorem Sets.onStore (h : Sets P ws) : OnStore storeKey ws := fun w hw => (h w hw).1

theorem Sets.within (h : Sets P ws) (hPQ : ∀ e, P e → Q e) : Within Q ws := by
  intro w hw
  obtain ⟨hstore, e, he, hkey⟩ := h w hw
  exact .inr (.inr ⟨hstore, e, hPQ e he, hkey⟩)

theorem Within.mono (h : Within P ws) (hPQ : ∀ e, P e → Q e) : Within Q ws := by
  intro w hw
  refine (h w hw).imp_right (Or.imp_right ?_)
  rintro ⟨hstore, e, he, hkey⟩
  exact ⟨hstore, e, hPQ e he, hkey⟩

theorem within_auth (h : OnStore authStore ws) : Within P ws := fun w hw => .inl (h w hw)

theorem within_bank (h : OnStore bankStore ws) : Within P ws := fun w hw => .inr (.inl (h w hw))

theorem Within.append (h : Within P ws) (h' : Within P ws') : Within P (ws ++ ws') :=
  forall_mem_append.mpr ⟨h, h'⟩

theorem Within.get (h : Within P ws) {key : Bytes} (hkey : ∀ e : Entry, P e → e.key ≠ key)
    (r : Contents) : overwritten r ws storeKey key = r storeKey key := by
  refine overwritten_of_unwritten (fun w hw hand => ?_) r
  obtain hauth | hbank | ⟨-, e, he, heq⟩ := h w hw
  · exact absurd (hauth.symm.trans hand.1) (by decide)
  · exact absurd (hbank.symm.trans hand.1) (by decide)
  · exact hkey e he (heq.trans hand.2)

/-- Entries without the property stay. -/
theorem Within.entry (h : Within P ws) (he : ¬P e) (r : Contents) :
    entries (overwritten r ws) e = entries r e := by
  have hkey : ∀ e' : Entry, P e' → e'.key ≠ e.key := fun e' he' heq =>
    he (Entry.key_injective heq ▸ he')
  rw [entries, entries, storeGet, storeGet, h.get hkey]

theorem Sets.entry (h : Sets P ws) (he : ¬P e) (r : Contents) :
    entries (overwritten r ws) e = entries r e :=
  (h.within fun _ => id).entry he r

end Within

/-- The entries of an account. -/
def Entry.OfAccount (addr : Address) : Entry → Prop
  | .code _ => False
  | .state a _ => a = addr
  | .codeHash a => a = addr

/-- Accounts are kept under their addresses, in a store of their own. -/
structure AuthKeeper.Lawful (ak : AuthKeeper) : Prop where
  congr : ∀ r r', r authStore = r' authStore → ak.getAccount r = ak.getAccount r'
  address : ∀ r a acct, ak.getAccount r a = some acct → acct.address = a
  newAccount : ∀ r a, (ak.newAccountWithAddress r a).1.address = a ∧
    OnStore authStore (ak.newAccountWithAddress r a).2 ∧
    ak.getAccount (overwritten r (ak.newAccountWithAddress r a).2) = ak.getAccount r
  setAccount : ∀ r acct, OnStore authStore (ak.setAccount acct) ∧
    ak.getAccount (overwritten r (ak.setAccount acct)) =
      update (ak.getAccount r) acct.address (some acct)
  removeAccount : ∀ r acct, OnStore authStore (ak.removeAccount acct) ∧
    ak.getAccount (overwritten r (ak.removeAccount acct)) =
      update (ak.getAccount r) acct.address none

variable {E : Type}

/-- A bank that keeps balances in a store of its own, with nothing locked. -/
structure Unlocked (bk : BankKeeper (Session E)) : Prop extends Overwrites bk where
  congr : ∀ s t, s.reads bankStore = t.reads bankStore → bk.getBalance s = bk.getBalance t
  onStore : ∀ s a coin t, bk.uncheckedSetBalance s a coin = .ok t →
    ∃ ws, OnStore bankStore ws ∧ t.start = s.start ∧ t.writes = s.writes ++ ws
  unlocked : ∀ s a, bk.lockedCoins s a = []

/-- A bank that leaves the supply alone when it overwrites a balance. -/
structure Supplied (bk : BankKeeper (Session E)) : Prop extends Unlocked bk where
  supply_congr : ∀ s t, s.reads bankStore = t.reads bankStore → bk.getSupply s = bk.getSupply t
  supply : ∀ s a coin t, bk.uncheckedSetBalance s a coin = .ok t → bk.getSupply t = bk.getSupply s

/-- The bank writes balances to a store of its own. -/
def BankWrites (bk : BankKeeper (Session E)) : Prop :=
  ∀ s a coin t, bk.uncheckedSetBalance s a coin = .ok t →
    ∃ ws, OnStore bankStore ws ∧ t.start = s.start ∧ t.writes = s.writes ++ ws

theorem Session.reads_on (r : Contents) : (Session.on r : Session E).reads = r := rfl

theorem Session.reads_write (s : Session E) (ws : List Write) :
    (s.write ws).reads = overwritten s.reads ws :=
  overwritten_append s.start s.writes ws

variable {s t : Session E} {bk : BankKeeper Book}

/-- A write of a balance is to the store of the bank. -/
theorem BankWrites.setBalance {w : BankWrapper (Session E)} (hw : BankWrites w.bk) {addr : Address}
    {amount : Uint256} (h : w.setBalance s addr amount = .ok t) :
    ∃ ws, OnStore bankStore ws ∧ t.start = s.start ∧ t.writes = s.writes ++ ws ∧
      t.reads = overwritten s.reads ws := by
  obtain ⟨ws, hws, hstart, hwrites⟩ := hw _ _ _ _ (setBalance_ok h)
  refine ⟨ws, hws, hstart, hwrites, ?_⟩
  rw [Session.reads, hstart, hwrites, overwritten_append]
  rfl

variable {w : BankWrapper (Session E)} (hw : Unlocked w.bk)
include hw

/-- What can be spent is read from the store of the bank. -/
theorem Unlocked.spendableCoin_congr (h : s.reads bankStore = t.reads bankStore) (a : Address) :
    w.spendableCoin s a = w.spendableCoin t a := by
  unfold spendableCoin bankSpendableCoin
  rw [hw.spendable, hw.spendable, hw.unlocked, hw.unlocked, hw.congr s t h]

omit hw in
/-- The store of the bank is as after the balance of an account was overwritten. -/
def Rebalanced (w : BankWrapper (Session E)) (r r' : Contents) (addr : Address)
    (amount : Uint256) : Prop :=
  ∃ s t : Session E, s.reads bankStore = r bankStore ∧ t.reads bankStore = r' bankStore ∧
    w.bk.uncheckedSetBalance s (addressBytes addr) (w.info.extendedDenom, amount.toNat) = .ok t

variable {r r' : Contents} {addr : Address} {amount : Uint256} {account : Account} {acct : AccountI}

theorem Unlocked.getBalance_rebalanced (h : Rebalanced w r r' addr amount) (x : AccAddress)
    (d : String) : w.bk.getBalance (.on r') x d =
      if x = addressBytes addr ∧ d = w.info.extendedDenom then (amount.toNat : Int)
      else w.bk.getBalance (.on r) x d := by
  obtain ⟨s, t, hs, ht, hset⟩ := h
  rw [hw.congr (.on r') t ht.symm, hw.balance _ _ _ _ hset, hw.congr (.on r) s hs.symm]

/-- An overwritten balance is what its account can spend. -/
theorem Unlocked.spendableCoin_rebalanced (h : Rebalanced w r r' addr amount) (a : Address) :
    w.spendableCoin (.on r') a = if a = addr then some amount else w.spendableCoin (.on r) a := by
  have hbalance := hw.getBalance_rebalanced h
  split <;> rename_i ha
  · subst ha
    rw [spendableCoin_eq_some_iff, bankSpendableCoin, hw.spendable, hw.unlocked,
      hbalance, if_pos ⟨rfl, rfl⟩]
    change max 0 ((amount.toNat : Int) - 0) = amount.toNat
    omega
  · have hne : addressBytes a ≠ addressBytes addr := fun heq => ha (addressBytes_inj heq)
    unfold spendableCoin bankSpendableCoin
    rw [hw.spendable, hw.spendable, hw.unlocked, hw.unlocked, hbalance,
      if_neg fun hand => hne hand.1]

/-- A write of a balance overwrites that balance. -/
theorem Unlocked.setBalance (h : w.setBalance s addr amount = .ok t) :
    w.bk.uncheckedSetBalance s (addressBytes addr) (w.info.extendedDenom, amount.toNat) =
      .ok t := by
  have hset := setBalance_ok h
  rw [hw.unlocked] at hset
  congr 2

omit hw

namespace Keeper

variable {k : Keeper E} {r r' : Contents} {addr : Address}

/-! ## Writes to the store of the module -/

/-- Writes to the store of the module are not seen by `x/auth` and the bank. -/
theorem onStore_frame {ws : List Write} (h : OnStore storeKey ws) (r : Contents) :
    overwritten r ws authStore = r authStore ∧ overwritten r ws bankStore = r bankStore :=
  ⟨h.other (by decide) r, h.other (by decide) r⟩

/-- The entry for a code hash: there is none for the empty one. -/
def codeHashEntry (k : Keeper E) (codeHash : Hash) : Option Bytes :=
  if codeHash = k.emptyCodeHash then none else some (hashBytes codeHash)

theorem storedHash_codeHashEntry (k : Keeper E) (codeHash : Hash) :
    storedHash k.emptyCodeHash (k.codeHashEntry codeHash) = codeHash := by
  unfold codeHashEntry
  split <;> rename_i hempty
  · exact hempty.symm
  · exact storedHash_hashBytes _ _

theorem entries_updateCodeHash (r : Contents) (addr : Address) (codeHash : Hash) :
    entries (overwritten r (k.updateCodeHash addr codeHash)) =
      update (entries r) (.codeHash addr) (k.codeHashEntry codeHash) := by
  unfold updateCodeHash codeHashEntry
  split
  · exact entries_storeDelete r (.codeHash addr)
  · exact entries_storeSet r (.codeHash addr) _

theorem sets_updateCodeHash (addr : Address) (codeHash : Hash) :
    Sets (· = .codeHash addr) (k.updateCodeHash addr codeHash) := by
  unfold updateCodeHash
  split
  · exact sets_storeDelete (.codeHash addr) rfl
  · exact sets_storeSet (.codeHash addr) (by rfl) (hashBytes codeHash)

theorem sets_deleteStates (addr : Address) (keys : List Hash) :
    Sets (∃ key, · = .state addr key) (keys.flatMap (deleteState addr)) :=
  .flatMap fun key => sets_storeDelete (.state addr key) ⟨key, rfl⟩

/-! ## Accounts -/

/-- `SetAccount` succeeds when the balance can be written. -/
theorem setAccount_ok (h : (k.setAccount r addr account).err = none) :
    ∃ t, k.bankWrapper.setBalance
        (((k.accountForUpdate (.on r) addr).2.write (k.updateCodeHash addr account.codeHash)).write
          (k.accountKeeper.setAccount
            { (k.accountForUpdate (.on r) addr).1 with sequence := account.nonce }))
        addr account.balance = .ok t ∧
      k.setAccount r addr account = t.done none := by
  unfold setAccount at h ⊢
  dsimp only at h ⊢
  split at h
  · cases h
  · rename_i t hbalance
    rw [hbalance]
    exact ⟨t, rfl, rfl⟩

/-- `DeleteAccount` succeeds for a contract whose balance can be written. -/
theorem deleteAccount_ok (hacct : k.accountKeeper.getAccount r (addressBytes addr) = some acct)
    (h : (k.deleteAccount r addr).err = none) :
    k.isContract r addr = true ∧ ∃ t,
      k.bankWrapper.setBalance ((Session.on r).write (k.accountKeeper.setAccount
        (newBaseAccount (addressBytes addr) acct.pubKey acct.accountNumber acct.sequence)))
        addr 0 = .ok t ∧
      k.deleteAccount r addr = (((t.write ((k.storageKeys t.reads addr).flatMap
        (deleteState addr))).write (deleteCodeHash addr)).write
          (k.accountKeeper.removeAccount acct)).done none := by
  unfold deleteAccount at h ⊢
  simp only [hacct] at h ⊢
  split at h
  · cases h
  · rename_i hcontract
    rw [if_neg hcontract]
    simp only [Bool.not_eq_true', Bool.not_eq_false] at hcontract
    split at h
    · cases h
    · rename_i t hbalance
      rw [hbalance]
      exact ⟨hcontract, t, rfl, rfl⟩

/-- Nothing is written for an account that does not exist. -/
theorem deleteAccount_none (h : k.accountKeeper.getAccount r (addressBytes addr) = none) :
    overwritten r (k.deleteAccount r addr).writes = r := by
  simp only [deleteAccount, h]
  rfl

section Writes

variable (ha : k.accountKeeper.Lawful) (hb : BankWrites k.bankWrapper.bk)
  (h : (k.setAccount r addr account).err = none)
include ha

/-- The account to update has the address, and finding it changes no account. -/
theorem accountForUpdate_spec (s : Session E) (addr : Address) :
    (k.accountForUpdate s addr).1.address = addressBytes addr ∧
      ∃ ws, OnStore authStore ws ∧ (k.accountForUpdate s addr).2 = s.write ws ∧
        k.accountKeeper.getAccount (overwritten s.reads ws) =
          k.accountKeeper.getAccount s.reads := by
  unfold accountForUpdate
  cases hacct : k.accountKeeper.getAccount s.reads (addressBytes addr) with
  | some acct =>
    refine ⟨ha.address _ _ _ hacct, [], nofun, ?_, rfl⟩
    rw [Session.write, append_nil]
  | none =>
    obtain ⟨haddr, hstore, hsame⟩ := ha.newAccount s.reads (addressBytes addr)
    exact ⟨haddr, _, hstore, rfl, hsame⟩

include hb

/-- `DeleteAccount` writes entries of its account. -/
theorem within_deleteAccount (h : (k.deleteAccount r addr).err = none) :
    Within (Entry.OfAccount addr) (k.deleteAccount r addr).writes := by
  cases hacct : k.accountKeeper.getAccount r (addressBytes addr) with
  | none =>
    simp only [deleteAccount, hacct]
    exact nofun
  | some acct =>
    obtain ⟨-, t, hbalance, heffects⟩ := deleteAccount_ok hacct h
    obtain ⟨wsb, hwsb, -, hwrites, -⟩ := hb.setBalance hbalance
    rw [heffects]
    change Within _ (((t.writes ++ _) ++ _) ++ _)
    rw [hwrites]
    have hstates : Within (Entry.OfAccount addr)
        ((k.storageKeys t.reads addr).flatMap (deleteState addr)) :=
      (sets_deleteStates addr _).within fun _ ⟨_, heq⟩ => heq ▸ rfl
    have hcode : Sets (Entry.OfAccount addr) (deleteCodeHash addr) :=
      sets_storeDelete (.codeHash addr) rfl
    exact ((((within_auth (ha.setAccount r _).1).append (within_bank hwsb)).append
      hstates).append (hcode.within fun _ => id)).append (within_auth (ha.removeAccount r acct).1)

/-- The contents that `DeleteAccount` leaves, write by write. -/
theorem deleteAccount_reads
    (hacct : k.accountKeeper.getAccount r (addressBytes addr) = some acct)
    (h : (k.deleteAccount r addr).err = none)
    (hr' : r' = overwritten r (k.deleteAccount r addr).writes) :
    ∃ t wsb,
      k.bankWrapper.setBalance ((Session.on r).write (k.accountKeeper.setAccount
        (newBaseAccount (addressBytes addr) acct.pubKey acct.accountNumber acct.sequence)))
        addr 0 = .ok t ∧
      OnStore bankStore wsb ∧
      t.reads = overwritten (overwritten r (k.accountKeeper.setAccount
        (newBaseAccount (addressBytes addr) acct.pubKey acct.accountNumber acct.sequence))) wsb ∧
      r' bankStore = t.reads bankStore ∧ r' = overwritten (overwritten (overwritten t.reads
        ((k.storageKeys t.reads addr).flatMap (deleteState addr))) (deleteCodeHash addr))
        (k.accountKeeper.removeAccount acct) := by
  obtain ⟨-, t, hbalance, heffects⟩ := deleteAccount_ok hacct h
  obtain ⟨wsb, hwsb, hstart, -, hreads⟩ := hb.setBalance hbalance
  refine ⟨t, wsb, hbalance, hwsb, hreads, (and_iff_right_of_imp fun hr => ?_).mpr ?_⟩
  · have hcode : OnStore storeKey (deleteCodeHash addr) := onStore_storeDelete _
    rw [hr, (ha.removeAccount r acct).1.other (by decide), hcode.other (by decide),
      (sets_deleteStates addr (k.storageKeys t.reads addr)).onStore.other (by decide)]
  · rw [hr', heffects, ← Session.reads_write, ← Session.reads_write, ← Session.reads_write]
    exact congrArg (overwritten · _) hstart.symm

/-- What `DeleteAccount` changes of an account that exists, in `x/auth` and in the store of
the module. -/
theorem deleteAccount_stores
    (hacct : k.accountKeeper.getAccount r (addressBytes addr) = some acct)
    (h : (k.deleteAccount r addr).err = none)
    (hr' : r' = overwritten r (k.deleteAccount r addr).writes) :
    k.accountKeeper.getAccount r' = update (k.accountKeeper.getAccount r) (addressBytes addr) none ∧
    ∀ e : Entry, ¬e.OfAccount addr → entries r' e = entries r e := by
  obtain ⟨t, wsb, -, hwsb, hreads, -, hr⟩ := deleteAccount_reads ha hb hacct h hr'
  have hcode : OnStore storeKey (deleteCodeHash addr) := onStore_storeDelete _
  constructor
  · rw [hr, (ha.removeAccount _ acct).2, ha.congr _ _ (hcode.other (by decide) _),
      ha.congr _ _ ((sets_deleteStates addr _).onStore.other (by decide) _), hreads,
      ha.congr _ _ (hwsb.other (by decide) _), (ha.setAccount r _).2, ha.address _ _ _ hacct]
    exact update_idem ..
  · intro e he
    rw [hr']
    exact (within_deleteAccount ha hb h).entry he r

include h

/-- The contents that `SetAccount` leaves, write by write. -/
theorem setAccount_reads (hr' : r' = overwritten r (k.setAccount r addr account).writes) :
    ∃ (acct : AccountI) (ws : List Write) (s t : Session E) (wsb : List Write),
      acct.address = addressBytes addr ∧ OnStore authStore ws ∧
      k.accountKeeper.getAccount (overwritten r ws) = k.accountKeeper.getAccount r ∧
      s.reads = overwritten (overwritten (overwritten r ws)
        (k.updateCodeHash addr account.codeHash))
        (k.accountKeeper.setAccount { acct with sequence := account.nonce }) ∧
      s.reads bankStore = r bankStore ∧ k.bankWrapper.setBalance s addr account.balance = .ok t ∧
      t.reads = r' ∧ OnStore bankStore wsb ∧ r' = overwritten s.reads wsb := by
  obtain ⟨haddr, ws, hws, hfound, hsame⟩ := accountForUpdate_spec ha (Session.on r) addr
  obtain ⟨t, hbalance, heffects⟩ := setAccount_ok h
  obtain ⟨wsb, hwsb, hstart, -, hreads⟩ := hb.setBalance hbalance
  have htr : t.reads = r' := by
    rw [hr', heffects, Session.reads, hstart, hfound]
    rfl
  refine ⟨_, ws, _, t, wsb, haddr, hws, hsame, ?_, ?_, hbalance, htr, hwsb, htr.symm.trans hreads⟩
  · rw [Session.reads_write, Session.reads_write, hfound, Session.reads_write]
    rfl
  · rw [Session.reads_write, (ha.setAccount r _).1.other (by decide), Session.reads_write,
      (sets_updateCodeHash addr account.codeHash).onStore.other (by decide), hfound,
      Session.reads_write, hws.other (by decide)]
    rfl

/-- What `SetAccount` changes in `x/auth` and in the store of the module. -/
theorem setAccount_stores (hr' : r' = overwritten r (k.setAccount r addr account).writes) :
    (∃ acct, acct.sequence = account.nonce ∧ k.accountKeeper.getAccount r' =
      update (k.accountKeeper.getAccount r) (addressBytes addr) (some acct)) ∧
    entries r' =
      update (entries r) (.codeHash addr) (k.codeHashEntry account.codeHash) := by
  obtain ⟨acct, ws, s, -, wsb, haddr, hws, hsame, hs, -, -, -, hwsb, hr⟩ :=
    setAccount_reads ha hb h hr'
  have hcodeStore := (sets_updateCodeHash (k := k) addr account.codeHash).onStore
  obtain ⟨hsetStore, hset⟩ := ha.setAccount
    (overwritten (overwritten r ws) (k.updateCodeHash addr account.codeHash))
    { acct with sequence := account.nonce }
  rw [hr]
  refine ⟨⟨{ acct with sequence := account.nonce }, rfl, ?_⟩, ?_⟩
  · rw [ha.congr _ _ (hwsb.other (by decide) _), hs, hset,
      ha.congr _ _ (hcodeStore.other (by decide) _), haddr, hsame]
  · rw [entries_congr (hwsb.other (by decide) _), hs,
      entries_congr (hsetStore.other (by decide) _), entries_updateCodeHash,
      entries_congr (hws.other (by decide) _)]

/-- `SetAccount` writes the code hash of its account. -/
theorem within_setAccount :
    Within (· = .codeHash addr) (k.setAccount r addr account).writes := by
  obtain ⟨-, ws, hws, hfound, -⟩ := accountForUpdate_spec ha (Session.on r) addr
  obtain ⟨t, hbalance, heffects⟩ := setAccount_ok h
  obtain ⟨wsb, hwsb, -, hwrites, -⟩ := hb.setBalance hbalance
  rw [heffects]
  change Within _ t.writes
  rw [hwrites, hfound]
  exact (((within_auth hws).append ((sets_updateCodeHash addr _).within fun _ => id)).append
    (within_auth (ha.setAccount r _).1)).append (within_bank hwsb)

end Writes

/-- What an address can spend, as far as it is a 256-bit number. -/
def balance (k : Keeper E) (r : Contents) (addr : Address) : Uint256 :=
  (k.bankWrapper.spendableCoin (.on r) addr).getD 0

/-- The coins of the denom of the EVM. -/
def coinage (k : Keeper E) : Coinage Bytes Value where
  balance r x := k.bankWrapper.bk.getBalance (.on r) x k.bankWrapper.info.extendedDenom
  supply r := k.bankWrapper.bk.getSupply (.on r) k.bankWrapper.info.extendedDenom

/-! ## The ledger -/

variable (ha : k.accountKeeper.Lawful) (hb : Unlocked k.bankWrapper.bk)
include ha hb

theorem getAccount_congr (hauth : r' authStore = r authStore) (hbank : r' bankStore = r bankStore)
    (hcode : entries r' (.codeHash addr) = entries r (.codeHash addr)) :
    k.getAccount r' addr = k.getAccount r addr := by
  unfold getAccount
  rw [ha.congr r' r hauth, k.getCodeHash_eq, k.getCodeHash_eq, hcode, hb.spendableCoin_congr (show
    (Session.on r').reads bankStore = (Session.on r).reads bankStore from hbank)]

/-- The ledger when one entry of the module's store changed. -/
theorem ledger_of_code {h : Hash} {code : Option Bytes}
    (hframe : r' authStore = r authStore ∧ r' bankStore = r bankStore)
    (hentries : entries r' = update (entries r) (.code h) code) :
    k.env.ledger r' = (k.env.ledger r).setCode h code := by
  apply Ledger.ext
  · funext a
    refine getAccount_congr ha hb hframe.1 hframe.2 ?_
    rw [hentries, update_of_ne (by simp)]
  · funext a key
    change getState r' a key = getState r a key
    rw [getState_eq, getState_eq, hentries, update_of_ne (by simp)]
  · funext h'
    change getCode r' h' = update (getCode r) h code h'
    rw [getCode_eq, hentries]
    by_cases heq : h' = h
    · rw [heq, update_self, update_self]
    · rw [update_of_ne fun hne => heq (Entry.code.inj hne), update_of_ne heq, getCode_eq]

theorem ledger_of_state {key : Hash} {value : Option Bytes}
    (hframe : r' authStore = r authStore ∧ r' bankStore = r bankStore)
    (hentries : entries r' = update (entries r) (.state addr key) value) :
    k.env.ledger r' = (k.env.ledger r).setState addr key (storedHash 0 value) := by
  apply Ledger.ext
  · funext a
    refine getAccount_congr ha hb hframe.1 hframe.2 ?_
    rw [hentries, update_of_ne (by simp)]
  · funext a key'
    change getState r' a key' = update (getState r) addr (update (getState r addr) key _) a key'
    rw [getState_eq, hentries]
    by_cases hentry : a = addr ∧ key' = key
    · obtain ⟨rfl, rfl⟩ := hentry
      rw [update_self, update_self, update_self]
    · have hne : Entry.state a key' ≠ .state addr key := by
        intro heq
        obtain ⟨haddr, hkey⟩ := Entry.state.inj heq
        exact hentry ⟨haddr, hkey⟩
      rw [update_of_ne hne, ← getState_eq]
      by_cases haddr : a = addr
      · subst haddr
        rw [update_self, update_of_ne fun hkey => hentry ⟨rfl, hkey⟩]
      · rw [update_of_ne haddr]
  · funext h
    change getCode r' h = getCode r h
    rw [getCode_eq, getCode_eq, hentries, update_of_ne (by simp)]

/-- `SetAccount` sets the balance. -/
theorem setAccount_rebalanced (h : (k.setAccount r addr account).err = none) :
    Rebalanced k.bankWrapper r (overwritten r (k.setAccount r addr account).writes) addr
      account.balance := by
  obtain ⟨-, -, s, t, -, -, -, -, -, hbank, hbalance, ht, -⟩ :=
    setAccount_reads ha hb.onStore h rfl
  exact ⟨s, t, hbank, by rw [ht], hb.setBalance hbalance⟩

theorem ledger_setAccount (h : (k.setAccount r addr account).err = none) :
    k.env.ledger (overwritten r (k.setAccount r addr account).writes) =
      (k.env.ledger r).setAccount addr account := by
  obtain ⟨⟨acct, hnonce, hauth⟩, hentries⟩ := setAccount_stores ha hb.onStore h rfl
  have hbalance := hb.spendableCoin_rebalanced (setAccount_rebalanced ha hb h)
  apply Ledger.ext
  · funext a
    change k.getAccount _ a = update (k.getAccount r) addr (some account) a
    by_cases haddr : a = addr
    · subst haddr
      rw [update_self, getAccount, hauth, update_self, map_some, hbalance, if_pos rfl,
        k.getCodeHash_eq, hentries, update_self, storedHash_codeHashEntry, hnonce]
      rfl
    · have hbytes : addressBytes a ≠ addressBytes addr := fun heq => haddr (addressBytes_inj heq)
      have hentry : Entry.codeHash a ≠ .codeHash addr := fun heq => haddr (Entry.codeHash.inj heq)
      rw [update_of_ne haddr, getAccount, getAccount, hauth, update_of_ne hbytes, hbalance, if_neg
        haddr, k.getCodeHash_eq, hentries, update_of_ne hentry, ← k.getCodeHash_eq]
  · funext a key
    change getState _ a key = getState r a key
    rw [getState_eq, hentries, update_of_ne (by simp), ← getState_eq]
  · funext code
    change getCode _ code = getCode r code
    rw [getCode_eq, hentries, update_of_ne (by simp), ← getCode_eq]

/-- `DeleteAccount` sets the balance of an account that exists to zero. -/
theorem deleteAccount_rebalanced
    (hacct : k.accountKeeper.getAccount r (addressBytes addr) = some acct)
    (h : (k.deleteAccount r addr).err = none) :
    Rebalanced k.bankWrapper r (overwritten r (k.deleteAccount r addr).writes) addr 0 := by
  obtain ⟨t, wsb, hbalance, -, -, hbank, -⟩ := deleteAccount_reads ha hb.onStore hacct h rfl
  refine ⟨_, t, ?_, hbank.symm, hb.setBalance hbalance⟩
  rw [Session.reads_write, Session.reads_on, (ha.setAccount r _).1.other (by decide)]

/-- A deleted account is gone, with nothing changed at other addresses. -/
theorem ledger_deleteAccount (h : (k.deleteAccount r addr).err = none) :
    (k.env.ledger r).Without addr
        (k.env.ledger (overwritten r (k.deleteAccount r addr).writes)) ∧
      k.getAccount (overwritten r (k.deleteAccount r addr).writes) addr = none := by
  cases hacct : k.accountKeeper.getAccount r (addressBytes addr) with
  | none =>
    rw [deleteAccount_none hacct, getAccount, hacct]
    exact ⟨⟨fun _ _ => rfl, fun _ _ => rfl, rfl⟩, rfl⟩
  | some acct =>
    obtain ⟨hauth, hentries⟩ := deleteAccount_stores ha hb.onStore hacct h rfl
    have hbalance := hb.spendableCoin_rebalanced (deleteAccount_rebalanced ha hb hacct h)
    refine ⟨⟨?_, ?_, ?_⟩, ?_⟩
    · intro b hne
      have hbytes : addressBytes b ≠ addressBytes addr := fun heq => hne (addressBytes_inj heq)
      change k.getAccount _ b = k.getAccount r b
      rw [getAccount, getAccount, hauth, update_of_ne hbytes, hbalance b, if_neg hne,
        k.getCodeHash_eq, hentries (.codeHash b) hne, ← k.getCodeHash_eq]
    · intro b hne
      funext key
      change getState _ b key = getState r b key
      rw [getState_eq, hentries (.state b key) hne, ← getState_eq]
    · funext code
      change getCode _ code = getCode r code
      rw [getCode_eq, hentries (.code code) id, ← getCode_eq]
    · rw [getAccount, hauth, update_self]
      rfl

/-- The keeper reads back what it writes, if `x/auth` does and the bank has nothing
locked. -/
theorem env_lawful : k.env.Lawful where
  setAccount _ _ _ h := ledger_setAccount ha hb h
  setState r a key value := by
    have hentries := entries_storeSet r (.state a key) (hashBytes value)
    have hledger := ledger_of_state ha hb (onStore_frame (onStore_storeSet _ _) r) hentries
    rw [storedHash_hashBytes] at hledger
    exact hledger
  setCode r codeHash code :=
    ledger_of_code ha hb (onStore_frame (onStore_storeSet _ _) r)
      (entries_storeSet r (.code codeHash) code)
  deleteCode r codeHash :=
    ledger_of_code ha hb (onStore_frame (onStore_storeDelete _) r)
      (entries_storeDelete r (.code codeHash))
  deleteAccount _ _ h := ledger_deleteAccount ha hb h

omit ha in
theorem balance_congr (h : r' bankStore = r bankStore) : k.balance r' = k.balance r := by
  funext a
  have hreads : (Session.on r' : Session E).reads bankStore =
      (Session.on r : Session E).reads bankStore := h
  rw [balance, hb.spendableCoin_congr hreads, balance]

omit ha in
theorem balance_rebalanced {amount : Uint256} (h : Rebalanced k.bankWrapper r r' addr amount) :
    k.balance r' = update (k.balance r) addr amount := by
  funext a
  rw [balance, hb.spendableCoin_rebalanced h, update_apply]
  split <;> rfl

/-- A book that is read from the store of the bank, and changed where a balance is
overwritten, is kept by the keeper. -/
theorem booked_of_rebalanced {ι M : Type*} [DecidableEq ι] {books : Books Bytes Value ι M}
    (hcongr : ∀ r r', r' bankStore = r bankStore → books.entry r' = books.entry r)
    (hset : ∀ r r' a amount, Rebalanced k.bankWrapper r r' a amount →
      books.entry r' = update (books.entry r) (books.key a) (books.value amount)) :
    Booked k.env books where
  setAccount r a account h := hset _ _ _ _ (setAccount_rebalanced ha hb h)
  setState r a key value := hcongr _ _ (onStore_frame (onStore_storeSet _ _) r).2
  setCode r codeHash code := hcongr _ _ (onStore_frame (onStore_storeSet _ _) r).2
  deleteCode r codeHash := hcongr _ _ (onStore_frame (onStore_storeDelete _) r).2
  deleteAccount r a h := by
    change books.entry (overwritten r (k.deleteAccount r a).writes) =
      if (k.getAccount r a).isSome then _ else _
    cases hacct : k.accountKeeper.getAccount r (addressBytes a) with
    | none =>
      rw [deleteAccount_none hacct, getAccount, hacct]
      rfl
    | some acct =>
      rw [getAccount, hacct, map_some, isSome_some, if_pos rfl]
      exact hset _ _ _ _ (deleteAccount_rebalanced ha hb hacct h)

/-- The keeper has the balances of accounts from the bank, and overwrites them there. -/
theorem env_banked : Banked k.env k.balance where
  toBooked := booked_of_rebalanced ha hb (fun _ _ h => balance_congr hb h)
    fun _ _ _ _ h => balance_rebalanced hb h
  account r a account h := by
    obtain ⟨acct, -, rfl⟩ := map_eq_some_iff.mp h
    rfl

omit hb in
/-- The keeper overwrites balances in the book of the bank, and leaves the supply alone. -/
theorem env_booked (hb : Supplied k.bankWrapper.bk) : Booked k.env k.coinage.books := by
  refine booked_of_rebalanced ha hb.toUnlocked ?_ ?_
  · intro r r' h
    funext i
    have hreads : (Session.on r' : Session E).reads bankStore =
        (Session.on r : Session E).reads bankStore := h
    cases i with
    | none => exact congrFun (hb.supply_congr _ _ hreads) _
    | some x => exact congrFun (congrFun (hb.congr _ _ hreads) x) _
  · intro r r' a amount h
    funext i
    rw [update_apply]
    cases i with
    | none =>
      obtain ⟨s, t, hs, ht, hset⟩ := h
      change k.bankWrapper.bk.getSupply (.on r') _ = k.bankWrapper.bk.getSupply (.on r) _
      rw [hb.supply_congr (.on r') t ht.symm, hb.supply _ _ _ _ hset,
        hb.supply_congr (.on r) s hs.symm]
    | some x =>
      refine (hb.getBalance_rebalanced h x _).trans (if_congr ?_ rfl rfl)
      rw [and_iff_left rfl]
      exact some_inj.symm

end Keeper

/-! ## A small chain -/

/-- Accounts under their addresses. -/
def plainAuth : AuthKeeper where
  getAccount r a :=
    match r authStore a with
    | some (.account acct) => if acct.address = a then some acct else none
    | _ => none
  newAccountWithAddress _ a := (newBaseAccount a [] 0 0, [])
  setAccount acct := [(authStore, acct.address, some (.account acct))]
  removeAccount acct := [(authStore, acct.address, none)]

theorem plainAuth_lawful : plainAuth.Lawful where
  congr r r' h := by
    simp only [plainAuth, h]
  address r a acct h := by
    simp only [plainAuth] at h
    split at h
    · split at h
      · rename_i haddr
        cases h
        exact haddr
      · cases h
    · cases h
  newAccount r a := ⟨rfl, nofun, rfl⟩
  setAccount r acct := by
    refine ⟨fun w hw => by rw [mem_singleton.mp hw], ?_⟩
    funext a
    by_cases ha : a = acct.address <;> simp [plainAuth, overwritten, ha, eq_comm]
  removeAccount r acct := by
    refine ⟨fun w hw => by rw [mem_singleton.mp hw], ?_⟩
    funext a
    by_cases ha : a = acct.address <;> simp [plainAuth, overwritten, ha, eq_comm]

/-- The book in the store of the bank. -/
def storedBook (r : Contents) : Book :=
  match r bankStore [] with
  | some (.book book) => book
  | _ => { balance := fun _ _ => 0, supply := fun _ => 0 }

/-- Keep a book in the store of the bank. -/
def Session.keep (s : Session E) (book : Book) : Session E :=
  s.write [(bankStore, [], some (.book book))]

theorem storedBook_keep (s : Session E) (book : Book) : storedBook (s.keep book).reads = book := by
  simp [storedBook, Session.keep, Session.reads_write, overwritten]

/-- The bank of a book that is kept in the store. -/
def storedBank (bk : BankKeeper Book) : BankKeeper (Session E) where
  getBalance s := bk.getBalance (storedBook s.reads)
  spendableCoin s := bk.spendableCoin (storedBook s.reads)
  lockedCoins s := bk.lockedCoins (storedBook s.reads)
  getSupply s := bk.getSupply (storedBook s.reads)
  blockedAddr := bk.blockedAddr
  sendCoins s a b coins := (bk.sendCoins (storedBook s.reads) a b coins).map s.keep
  sendCoinsFromAccountToModule s a m coins :=
    (bk.sendCoinsFromAccountToModule (storedBook s.reads) a m coins).map s.keep
  sendCoinsFromModuleToAccount s m b coins :=
    (bk.sendCoinsFromModuleToAccount (storedBook s.reads) m b coins).map s.keep
  sendCoinsFromModuleToModule s m m' coins :=
    (bk.sendCoinsFromModuleToModule (storedBook s.reads) m m' coins).map s.keep
  mintCoins s m coins := (bk.mintCoins (storedBook s.reads) m coins).map s.keep
  burnCoins s m coins := (bk.burnCoins (storedBook s.reads) m coins).map s.keep
  uncheckedSetBalance s a coin := (bk.uncheckedSetBalance (storedBook s.reads) a coin).map s.keep

theorem storedBank_uncheckedSetBalance {a : AccAddress} {coin : Coin}
    (h : (storedBank bk).uncheckedSetBalance s a coin = .ok t) :
    ∃ book, bk.uncheckedSetBalance (storedBook s.reads) a coin = .ok book ∧ t = s.keep book := by
  obtain ⟨book, hset, rfl⟩ := Outcomes.map_eq_ok.mp h
  exact ⟨book, hset, rfl⟩

theorem storedBank_supplied (hbk : Overwrites bk) (hlocked : ∀ book a, bk.lockedCoins book a = [])
    (hsupply : ∀ book a coin book', bk.uncheckedSetBalance book a coin = .ok book' →
      bk.getSupply book' = bk.getSupply book) :
    Supplied (storedBank bk : BankKeeper (Session E)) where
  spendable s a d := hbk.spendable _ a d
  balance s a coin t h b d := by
    obtain ⟨book, hset, rfl⟩ := storedBank_uncheckedSetBalance h
    have hbalance := hbk.balance _ _ _ _ hset b d
    rw [← storedBook_keep s book] at hbalance
    exact hbalance
  locked s a coin t h b := (hlocked _ b).trans (hlocked _ b).symm
  congr s t h := by
    simp only [storedBank, storedBook, h]
  onStore s a coin t h := by
    obtain ⟨book, -, rfl⟩ := storedBank_uncheckedSetBalance h
    exact ⟨_, fun w hw => by rw [mem_singleton.mp hw], rfl, rfl⟩
  unlocked s a := hlocked _ a
  supply_congr s t h := by
    simp only [storedBank, storedBook, h]
  supply s a coin t h := by
    obtain ⟨book, hset, rfl⟩ := storedBank_uncheckedSetBalance h
    have hsame := hsupply _ _ _ _ hset
    rw [← storedBook_keep s book] at hsame
    exact hsame

/-- A keeper on a chain with 18 decimals, where nothing is locked, with a hash that tells
short codes apart. Its iterator looks at the first slots. -/
def smallKeeper : Keeper Event where
  keccak256 code := BitVec.ofNat 256 (BigEndian.ofBytes code + 1)
  accountKeeper := plainAuth
  bankWrapper :=
    { info := .eighteen
      bk := storedBank (Book.keeper PreciseBank.Keeper.sampleAccounts (fun _ => []) [])
      addressString := fun _ => "" }
  iterator r keyPrefix :=
    ((range 4).map fun slot => keyPrefix ++ hashBytes (.ofNat 256 slot)).filter
      fun key => (storeGet r key).isSome

theorem smallKeeper_supplied : Supplied smallKeeper.bankWrapper.bk := by
  refine storedBank_supplied (book_overwrites _ _ _) (fun _ _ => rfl) ?_
  intro book a coin book' h
  cases h
  rfl

theorem smallKeeper_lawful : smallKeeper.env.Lawful :=
  Keeper.env_lawful plainAuth_lawful smallKeeper_supplied.toUnlocked

theorem smallKeeper_banked : Banked smallKeeper.env smallKeeper.balance :=
  Keeper.env_banked plainAuth_lawful smallKeeper_supplied.toUnlocked

theorem smallKeeper_booked : Booked smallKeeper.env smallKeeper.coinage.books :=
  Keeper.env_booked plainAuth_lawful smallKeeper_supplied

theorem smallKeeper_balance {r : Contents} {a : Address} {n : Nat}
    (h : (storedBook r).balance (addressBytes a) "drop" = n) (hn : n < 2 ^ 256) :
    smallKeeper.balance r a = BitVec.ofNat 256 n := by
  have hspend : smallKeeper.bankWrapper.bankSpendableCoin (.on r) (addressBytes a) = n := by
    change max 0 ((storedBook r).balance (addressBytes a) "drop" - 0) = n
    omega
  have hread := (spendableCoin_eq_some_iff smallKeeper.bankWrapper (.on r) a
    (BitVec.ofNat 256 n)).mpr (by rw [hspend, BitVec.toNat_ofNat, Nat.mod_eq_of_lt hn])
  rw [Keeper.balance, hread, getD_some]

/-- The account 7 has 100 coins. -/
def smallBook : Book where
  balance a d := if a = addressBytes 7 ∧ d = "drop" then 100 else 0
  supply d := if d = "drop" then 100 else 0

/-- The account 7 has sent 5 transactions. -/
def smallContext : Context Bytes Value Event where
  stores := ((((∅ : FMap String (FMap Bytes Value)).insert authStore
    ((∅ : FMap Bytes Value).insert (addressBytes 7)
      (.account (newBaseAccount (addressBytes 7) [] 0 5)))).insert bankStore
    ((∅ : FMap Bytes Value).insert [] (.book smallBook))).insert storeKey ∅)
  events := []

theorem smallContext_book : storedBook smallContext.reads = smallBook := by
  have hbook : smallContext.reads bankStore [] = some (.book smallBook) := by
    rw [Context.reads, smallContext, ExtTreeMap.getElem?_insert, if_neg (by decide +kernel),
      ExtTreeMap.getElem?_insert_self, bind_some, ExtTreeMap.getElem?_insert_self]
  simp only [storedBook, hbook]

/-- The store of the module is empty. -/
theorem smallContext_store : smallContext.reads storeKey = fun _ => none := by
  funext key
  simp [smallContext, Context.reads]

theorem smallContext_balance (a : Address) :
    (storedBook smallContext.reads).balance (addressBytes a) "drop" =
      (if a = 7 then 100 else 0 : Nat) := by
  have hbytes : addressBytes a = addressBytes 7 ↔ a = 7 := ⟨addressBytes_inj, congrArg _⟩
  simp only [smallContext_book, smallBook, hbytes, and_true]
  split <;> rfl

theorem smallContext_account {a : Address}
    (h : smallKeeper.env.getAccount smallContext.reads a = none) : a ≠ 7 := by
  rintro rfl
  have hsome : (smallKeeper.env.getAccount smallContext.reads 7).isSome = true := by decide +kernel
  rw [h] at hsome
  cases hsome

end InfiniteEvm.VM
