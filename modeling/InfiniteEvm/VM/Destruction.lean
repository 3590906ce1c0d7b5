import InfiniteEvm.StateDB.Mounting
import InfiniteEvm.VM.CanonicalStorage

/-!
# Committing self-destructed accounts

A commit deletes an account that is marked as self-destructed. The keeper refuses to
delete an account of `x/auth` without contract code, so the commit returns an error for an
account that destructed itself before its code was set, if it had been funded or flushed
before. In all other cases nothing is left of the account.
-/

namespace InfiniteEvm.VM

open Std Library SnapshotMulti StateDB Function Option Config List Keeper Session

variable {E : Type} {acct : AccountI}

/-- A bank that keeps balances in a store of its own, locks coins of vesting accounts only
and accepts every balance that is not negative. -/
structure Keeper.Vests (k : Keeper E) : Prop extends Overwrites k.bankWrapper.bk where
  onStore : BankWrites k.bankWrapper.bk
  congr : ∀ s t, s.reads bankStore = t.reads bankStore →
    k.bankWrapper.bk.getBalance s = k.bankWrapper.bk.getBalance t
  vesting : ∀ s a acct, k.accountKeeper.getAccount s.reads a = some acct → acct.vesting = none →
    k.bankWrapper.bk.lockedCoins s a = []
  accepts : ∀ s a amount, 0 ≤ amount → ∃ t,
    k.bankWrapper.bk.uncheckedSetBalance s a (k.bankWrapper.info.extendedDenom, amount) = .ok t

/-- What the stores hold for an address. -/
@[ext] structure Holding where
  account : Option AccountI
  codeHash : Option Bytes
  storage : Hash → Option Bytes
  coins : Int

/-- Nothing. -/
def Holding.none : Holding where
  account := .none
  codeHash := .none
  storage _ := .none
  coins := 0

namespace Keeper

variable (k : Keeper E)

/-- What is stored for an address. -/
def holding (r : Contents) (addr : Address) : Holding where
  account := k.accountKeeper.getAccount r (addressBytes addr)
  codeHash := entries r (.codeHash addr)
  storage slot := entries r (.state addr slot)
  coins := k.bankWrapper.bk.getBalance (.on r) (addressBytes addr) k.bankWrapper.info.extendedDenom

/-- Nothing is left of the account. -/
def Cleared (r : Contents) (addr : Address) : Prop := k.holding r addr = .none

/-- The session in which `SetAccount` comes to the balance. -/
def accountSession (r : Contents) (addr : Address) (account : Account) : Session E :=
  ((k.accountForUpdate (.on r) addr).2.write (k.updateCodeHash addr account.codeHash)).write
    (k.accountKeeper.setAccount
      { (k.accountForUpdate (.on r) addr).1 with sequence := account.nonce })

/-- The account of an object can be written. -/
def Settable (obj : StateObject) (r : Contents) : Prop :=
  k.bankWrapper.Takes (k.accountSession r obj.address obj.account) obj.address obj.account.balance

/-- A destructed object has new code that is not a delegation, and its account can be
written with the code, or it has no new code and nothing stored for its account, or the
account of a contract. -/
def Removable (obj : StateObject) (r : Contents) : Prop :=
  (∃ code, obj.code = some code ∧ obj.dirtyCode = true ∧ code ≠ [] ∧ isDelegation code = false ∧
    k.Settable obj (overwritten r (setCode obj.account.codeHash code))) ∨
  (∀ code, obj.code = some code → obj.dirtyCode = true → code = []) ∧
    (k.Cleared r obj.address ∨
      k.accountKeeper.getAccount r (addressBytes obj.address) ≠ none ∧
        k.isContract r obj.address = true)

variable {k} (ha : k.accountKeeper.Lawful) (hb : k.Vests)
variable {r r' : Contents} {addr b : Address} {obj : StateObject}

/-! ## Errors -/

include hb in
/-- The balance of an account without locked coins can be cleared. -/
theorem setBalance_zero {s : Session E}
    (hlocked : k.bankWrapper.bk.lockedCoins s (addressBytes addr) = []) :
    ∃ t, k.bankWrapper.setBalance s addr 0 = .ok t := by
  refine setBalance_ok_iff.mpr ⟨?_, ?_, fun _ => ?_⟩
  · rw [hlocked]
    exact Int.pow_pos (by decide)
  · rw [hlocked]
    exact hb.accepts s (addressBytes addr) 0 (Int.le_refl 0)
  · rw [BankWrapper.bankSpendableCoin, hb.spendable]
    exact Int.le_max_left _ _

include ha hb in
/-- Only a contract of `x/auth` can be deleted. -/
theorem deleteAccount_err_iff
    (hacct : k.accountKeeper.getAccount r (addressBytes addr) = some acct) :
    (k.deleteAccount r addr).err = none ↔ k.isContract r addr = true := by
  constructor
  · intro h
    exact (deleteAccount_ok hacct h).1
  · intro hcontract
    have hlocked : k.bankWrapper.bk.lockedCoins ((Session.on r).write
        (k.accountKeeper.setAccount (newBaseAccount (addressBytes addr) acct.pubKey
          acct.accountNumber acct.sequence))) (addressBytes addr) = [] := by
      refine hb.vesting _ _ (newBaseAccount (addressBytes addr) acct.pubKey acct.accountNumber
        acct.sequence) ?_ rfl
      rw [Session.reads_write, Session.reads_on, (ha.setAccount r _).2]
      exact update_self ..
    obtain ⟨t, ht⟩ := setBalance_zero hb hlocked
    unfold deleteAccount
    simp only [hacct, hcontract, ht, Bool.not_true, Bool.false_eq_true, if_false]
    rfl

theorem setAccount_err_iff :
    (k.setAccount r obj.address obj.account).err = none ↔ k.Settable obj r := by
  rw [Settable, ← setBalance_ok_iff, accountSession, setAccount]
  dsimp only
  split
  · next err h => simp [h, Session.done]
  · next t h => simp [h, Session.done]

theorem commitLive_err_iff :
    (commitLive k.env obj r).err = none ↔
      k.Settable obj (overwritten r (commitCode k.env obj r)) := by
  constructor
  · intro h
    obtain ⟨r₁, r₂, rfl, hset, -, -⟩ := commitLive_cases h
    exact setAccount_err_iff.mp hset
  · intro hset
    have herr : (commitLive k.env obj r).err = none ∧ _ :=
      commitLive_eq rfl (setAccount_err_iff.mpr hset) rfl
    exact herr.1

/-! ## Stores -/

/-- The stores that the keeper writes to. -/
def moduleStores : Set String := {authStore, bankStore, storeKey}

include ha hb

/-- Writing an object is to the stores of the keeper. -/
theorem commitObject_on (h : (commitObject k.env obj r).err = none) :
    ∀ w ∈ (commitObject k.env obj r).writes, w.1 ∈ moduleStores := by
  intro w hw
  obtain hauth | hbank | ⟨hstore, -⟩ := within_commitObject ha hb.onStore h w hw
  · exact Or.inl hauth
  · exact Or.inr (Or.inl hbank)
  · exact Or.inr (Or.inr hstore)

/-! ## Other addresses -/

/-- What is stored for an address is read from `x/auth`, the bank and its own entries. -/
theorem holding_congr (hauth : r' authStore = r authStore) (hbank : r' bankStore = r bankStore)
    (hcode : entries r' (.codeHash b) = entries r (.codeHash b))
    (hstate : ∀ slot, entries r' (.state b slot) = entries r (.state b slot)) :
    k.holding r' b = k.holding r b := by
  have hcoins := hb.congr (.on r') (.on r) hbank
  unfold holding
  rw [ha.congr r' r hauth, hcode, hcoins]
  simp only [hstate]

/-- Writes to entries of the module that are not those of an address. -/
theorem holding_of_sets {P : Entry → Prop} {ws : List Write} (hws : Sets P ws)
    (hcode : ¬P (.codeHash b)) (hstate : ∀ slot, ¬P (.state b slot)) :
    k.holding (overwritten r ws) b = k.holding r b :=
  holding_congr ha hb (onStore_frame hws.onStore r).1 (onStore_frame hws.onStore r).2
    (hws.entry hcode r) fun slot => hws.entry (hstate slot) r

omit ha in
/-- Where a balance is written, the coins of other addresses stay. -/
theorem coins_of_ne {s t : Session E} {amount : Uint256}
    (h : k.bankWrapper.setBalance s addr amount = .ok t) (hs : s.reads bankStore = r bankStore)
    (ht : r' bankStore = t.reads bankStore) (hne : b ≠ addr) :
    (k.holding r' b).coins = (k.holding r b).coins := by
  have hbytes : addressBytes b ≠ addressBytes addr := fun heq => hne (addressBytes_inj heq)
  unfold holding
  rw [hb.congr (.on r') t ht, hb.balance _ _ _ _ (setBalance_ok h),
    if_neg fun hand => hbytes hand.1,
    hb.congr s (.on r) hs]

theorem holding_setAccount {account : Account} (h : (k.setAccount r addr account).err = none)
    (hr' : r' = overwritten r (k.setAccount r addr account).writes) (hne : b ≠ addr) :
    k.holding r' b = k.holding r b := by
  obtain ⟨⟨acct, -, hauth⟩, hentries⟩ := setAccount_stores ha hb.onStore h hr'
  obtain ⟨-, -, s, t, -, -, -, -, -, hbank, hbalance, ht, -⟩ :=
    setAccount_reads ha hb.onStore h hr'
  have hbytes : addressBytes b ≠ addressBytes addr := fun heq => hne (addressBytes_inj heq)
  apply Holding.ext
  · change k.accountKeeper.getAccount r' (addressBytes b) = _
    rw [hauth, update_of_ne hbytes]
    rfl
  · change entries r' (.codeHash b) = _
    rw [hentries, update_of_ne fun heq => hne (Entry.codeHash.inj heq)]
    rfl
  · funext slot
    change entries r' (.state b slot) = _
    rw [hentries, update_of_ne (by simp)]
    rfl
  · exact coins_of_ne hb hbalance hbank (by rw [ht]) hne

/-- The bank has the balance written by `DeleteAccount`. -/
theorem deleteAccount_bank (hacct : k.accountKeeper.getAccount r (addressBytes addr) = some acct)
    (h : (k.deleteAccount r addr).err = none)
    (hr' : r' = overwritten r (k.deleteAccount r addr).writes) :
    ∃ s t : Session E, k.bankWrapper.setBalance s addr 0 = .ok t ∧
      s.reads bankStore = r bankStore ∧ r' bankStore = t.reads bankStore ∧
      k.bankWrapper.bk.lockedCoins s (addressBytes addr) = [] := by
  obtain ⟨t, wsb, hbalance, -, -, hbank, -⟩ := deleteAccount_reads ha hb.onStore hacct h hr'
  obtain ⟨hstore, hset⟩ := ha.setAccount r
    (newBaseAccount (addressBytes addr) acct.pubKey acct.accountNumber acct.sequence)
  refine ⟨_, t, hbalance, ?_, hbank, ?_⟩
  · rw [reads_write, reads_on, hstore.other (by decide)]
  · refine hb.vesting _ _ (newBaseAccount (addressBytes addr) acct.pubKey acct.accountNumber
      acct.sequence) ?_ rfl
    rw [reads_write, reads_on, hset]
    exact update_self ..

theorem holding_deleteAccount (h : (k.deleteAccount r addr).err = none)
    (hr' : r' = overwritten r (k.deleteAccount r addr).writes) (hne : b ≠ addr) :
    k.holding r' b = k.holding r b := by
  cases hacct : k.accountKeeper.getAccount r (addressBytes addr) with
  | none => rw [hr', deleteAccount_none hacct]
  | some acct =>
    obtain ⟨hauth, hentries⟩ := deleteAccount_stores ha hb.onStore hacct h hr'
    obtain ⟨s, t, hbalance, hs, ht, -⟩ := deleteAccount_bank ha hb hacct h hr'
    have hbytes : addressBytes b ≠ addressBytes addr := fun heq => hne (addressBytes_inj heq)
    apply Holding.ext
    · change k.accountKeeper.getAccount r' (addressBytes b) = _
      rw [hauth, update_of_ne hbytes]
      rfl
    · exact hentries _ hne
    · funext slot
      exact hentries _ hne
    · exact coins_of_ne hb hbalance hs ht hne

/-- Writing an object leaves what is stored for other addresses. -/
theorem holding_commitObject (h : (commitObject k.env obj r).err = none) (hne : b ≠ obj.address) :
    k.holding (overwritten r (commitObject k.env obj r).writes) b = k.holding r b := by
  unfold commitObject at h ⊢
  split at h <;> rename_i hdead
  · rw [if_pos hdead]
    obtain ⟨r₁, hwrites, hdelete, hcases⟩ := commitDestructed_cases h
    have hdeleted : (k.deleteAccount r₁ obj.address).err = none := hdelete
    rw [hwrites]
    refine (holding_deleteAccount ha hb hdeleted rfl hne).trans ?_
    rcases hcases with ⟨rfl, -⟩ | ⟨code, r₀, -, -, -, rfl, hset, hr₁⟩
    · rfl
    · have hsets : Sets (∃ h, · = .code h) (k.env.setCode r obj.account.codeHash code) :=
        sets_storeSet (.code _) ⟨_, rfl⟩ _
      exact (holding_setAccount ha hb hset hr₁ hne).trans
        (holding_of_sets ha hb hsets (by simp) (by simp))
  · rw [if_neg hdead]
    obtain ⟨r₁, r₂, hr₁, hset, hr₂, hwrites⟩ := commitLive_cases h
    rw [hwrites]
    have hstorage : k.holding (overwritten r₂ (commitStorage k.env obj.address
        obj.dirtyStorage.toList r₂)) b = k.holding r₂ b :=
      holding_of_sets ha hb (sets_commitStorage _ _ _) (by simp) (by simp [hne])
    have hcode : k.holding r₁ b = k.holding r b := by
      rw [hr₁]
      exact holding_of_sets ha hb (sets_commitCode obj r) (by simp) (by simp)
    exact (hstorage.trans (holding_setAccount ha hb hset hr₂ hne)).trans hcode

/-! ## Deleted accounts -/

/-- Nothing is left of an account of `x/auth` that is deleted. -/
theorem cleared_deleteAccount (hk : k.Iterates) (hlisted : Listed r)
    (hacct : k.accountKeeper.getAccount r (addressBytes addr) = some acct)
    (h : (k.deleteAccount r addr).err = none)
    (hr' : r' = overwritten r (k.deleteAccount r addr).writes) : k.Cleared r' addr := by
  obtain ⟨hauth, -⟩ := deleteAccount_stores ha hb.onStore hacct h hr'
  obtain ⟨hcode, t, ht, hstates⟩ := entries_deleteAccount ha hb.onStore hacct h
  obtain ⟨s, u, hbalance, -, hu, hlocked⟩ := deleteAccount_bank ha hb hacct h hr'
  rw [← hr'] at hcode hstates
  have hget : ∀ key, storeGet t.reads key = storeGet r key := fun key => by
    rw [storeGet, ht, storeGet]
  apply Holding.ext
  · change k.accountKeeper.getAccount r' (addressBytes addr) = _
    rw [hauth]
    exact update_self ..
  · exact hcode
  · funext slot
    refine (hstates slot).trans ?_
    split <;> rename_i hslot
    · rfl
    · by_contra hstored
      refine hslot (mem_map.mpr ⟨stateKey addr slot, ?_, bytesToHash_stateKey addr slot⟩)
      refine (hk.mem_iff t.reads ?_ _ _).mpr ⟨prefix_append _ _, ?_⟩
      · simpa only [Listed, hget] using hlisted
      · rw [hget]
        exact hstored
  · change k.bankWrapper.bk.getBalance (.on r') (addressBytes addr) _ = 0
    rw [hb.congr (.on r') u hu, hb.balance _ _ _ _ (setBalance_ok hbalance), if_pos ⟨rfl, rfl⟩,
      hlocked]
    rfl

/-- With its new code and its account set, an account is a contract if the code is not a
delegation. -/
theorem isContract_of_set {code : Bytes} (hne : code ≠ []) {r₀ r₁ : Contents}
    (hr₀ : r₀ = overwritten r (setCode obj.account.codeHash code))
    (hset : (k.setAccount r₀ obj.address obj.account).err = none)
    (hr₁ : r₁ = overwritten r₀ (k.setAccount r₀ obj.address obj.account).writes) :
    (∃ acct, k.accountKeeper.getAccount r₁ (addressBytes obj.address) = some acct) ∧
      k.isContract r₁ obj.address = !isDelegation code := by
  obtain ⟨⟨acct, -, hauth⟩, hentries⟩ := setAccount_stores ha hb.onStore hset hr₁
  have hcodes := entries_storeSet r (.code obj.account.codeHash) code
  have hcode : getCode r₁ (k.getCodeHash r₁ obj.address) = some code := by
    rw [getCode_eq, k.getCodeHash_eq, hentries, update_self, storedHash_codeHashEntry,
      update_of_ne (by simp), hr₀]
    exact (congrFun hcodes _).trans (update_self ..)
  refine ⟨⟨acct, by rw [hauth, update_self]⟩, ?_⟩
  have hpos : 0 < code.length := length_pos_iff.mpr hne
  rw [isContract, hcode, getD_some, decide_eq_true hpos, Bool.true_and]

/-- A destructed object is deleted without an error and without a rest exactly if it is
removable. -/
theorem commitObject_cleared_iff (hk : k.Iterates) (hlisted : Listed r)
    (hdead : obj.selfDestructed = true)
    (hr' : r' = overwritten r (commitObject k.env obj r).writes) :
    (commitObject k.env obj r).err = none ∧ k.Cleared r' obj.address ↔ k.Removable obj r := by
  rw [commitObject, if_pos hdead] at hr' ⊢
  by_cases hnew : ∃ code, obj.code = some code ∧ obj.dirtyCode = true ∧ code ≠ []
  · obtain ⟨code, hcode, hdirty, hne⟩ := hnew
    obtain ⟨r₀, hr₀⟩ : ∃ r₀, r₀ = overwritten r (setCode obj.account.codeHash code) := ⟨_, rfl⟩
    have hremovable : k.Removable obj r ↔ isDelegation code = false ∧ k.Settable obj r₀ := by
      constructor
      · rintro (⟨code', hcode', -, -, hplain, hset⟩ | ⟨hold, -⟩)
        · obtain rfl := some.inj (hcode.symm.trans hcode')
          exact ⟨hplain, hr₀ ▸ hset⟩
        · exact absurd (hold code hcode hdirty) hne
      · rintro ⟨hplain, hset⟩
        exact Or.inl ⟨code, hcode, hdirty, hne, hplain, hr₀ ▸ hset⟩
    rw [hremovable]
    rw [← setAccount_err_iff]
    by_cases hset : (k.setAccount r₀ obj.address obj.account).err = none
    · obtain ⟨r₁, hr₁⟩ : ∃ r₁, r₁ =
        overwritten r₀ (k.setAccount r₀ obj.address obj.account).writes := ⟨_, rfl⟩
      obtain ⟨herr, hwrites⟩ : ((commitDestructed k.env obj r).err = none ↔ _) ∧ _ :=
        commitDestructed_new hcode hdirty hne hr₀ hset hr₁
      obtain ⟨⟨acct, hacct⟩, hcontract⟩ := isContract_of_set ha hb hne hr₀ hset hr₁
      have hreads : r' = overwritten r₁ (k.deleteAccount r₁ obj.address).writes := by
        rw [hr', hwrites, overwritten_append, overwritten_append, hr₁, hr₀]
        rfl
      have hlisted₁ : Listed r₁ := by
        rw [hr₁, hr₀]
        exact (hlisted.overwritten _).overwritten _
      have hdelete : (k.deleteAccount r₁ obj.address).err = none ↔ isDelegation code = false := by
        rw [deleteAccount_err_iff ha hb hacct, hcontract, Bool.not_eq_true']
      constructor
      · exact fun hand => ⟨hdelete.mp (herr.mp hand.1), hset⟩
      · rintro ⟨hplain, -⟩
        have hdeleted := hdelete.mpr hplain
        exact ⟨herr.mpr hdeleted, cleared_deleteAccount ha hb hk hlisted₁ hacct hdeleted hreads⟩
    · refine iff_of_false (fun hand => ?_) (fun hand => hset hand.2)
      obtain ⟨r₁, -, -, ⟨-, hold⟩ | ⟨code', r₀', hcode', -, -, hr₀', hset', -⟩⟩ :=
        commitDestructed_cases hand.1
      · exact hne (hold code hcode hdirty)
      · obtain rfl := some.inj (hcode.symm.trans hcode')
        exact hset (hr₀.trans hr₀'.symm ▸ hset')
  · have hold : ∀ code, obj.code = some code → obj.dirtyCode = true → code = [] :=
      fun code hcode hdirty => by_contra fun hne => hnew ⟨code, hcode, hdirty, hne⟩
    obtain ⟨herr, hwrites⟩ : ((commitDestructed k.env obj r).err = none ↔ _) ∧ _ :=
      commitDestructed_old hold r
    rw [hwrites] at hr'
    have hremovable : k.Removable obj r ↔ k.Cleared r obj.address ∨
        k.accountKeeper.getAccount r (addressBytes obj.address) ≠ none ∧
          k.isContract r obj.address = true := by
      constructor
      · rintro (⟨code, hcode, hdirty, hne, -⟩ | ⟨-, hcases⟩)
        · exact absurd (hold code hcode hdirty) hne
        · exact hcases
      · exact fun hcases => Or.inr ⟨hold, hcases⟩
    rw [herr, hremovable]
    cases hacct : k.accountKeeper.getAccount r (addressBytes obj.address) with
    | none =>
      have hsame : r' = r := hr'.trans (deleteAccount_none hacct)
      have hnone : (k.deleteAccount r obj.address).err = none := by
        simp only [deleteAccount, hacct]
        rfl
      rw [hsame]
      constructor
      · exact fun hand => Or.inl hand.2
      · rintro (hcleared | ⟨hne, -⟩)
        · exact ⟨hnone, hcleared⟩
        · exact absurd rfl hne
    | some acct =>
      have hdelete := deleteAccount_err_iff ha hb hacct
      constructor
      · exact fun hand => Or.inr ⟨some_ne_none _, hdelete.mp hand.1⟩
      · rintro (hcleared | ⟨-, hcontract⟩)
        · have hnone := congrArg Holding.account hcleared
          exact absurd (hacct.symm.trans hnone) (some_ne_none _)
        · have hdeleted := hdelete.mpr hcontract
          exact ⟨hdeleted, cleared_deleteAccount ha hb hk hlisted hacct hdeleted hr'⟩

/-! ## Commit loops -/

omit ha hb in
/-- When the commit loop reaches an object, it is removable if it is destructed, and its
account can be written otherwise. -/
def ClearsAll (k : Keeper E) (objects : FMap Address StateObject) : List Address → Contents → Prop
  | [], _ => True
  | a :: rest, r => ∀ obj : StateObject, objects[a]? = some obj →
      (if obj.selfDestructed = true then k.Removable obj r
        else k.Settable obj (overwritten r (commitCode k.env obj r))) ∧
      k.ClearsAll objects rest (overwritten r (commitObject k.env obj r).writes)

variable {objects : FMap Address StateObject} {addrs : List Address}

theorem holding_written (h : Written k.env objects addrs r r')
    (haddress : ∀ (a : Address) (obj : StateObject), objects[a]? = some obj → obj.address = a)
    (hnot : b ∉ addrs) : k.holding r' b = k.holding r b := by
  induction h with
  | nil r => rfl
  | cons hobj herr _ ih =>
    obtain ⟨hne, hrest⟩ := ne_and_not_mem_of_not_mem_cons hnot
    rw [ih hrest, holding_commitObject ha hb herr]
    rw [haddress _ _ hobj]
    exact hne

/-- A commit loop meets no error and clears all destructed objects exactly if they are
removable one after the other. -/
theorem written_cleared_iff (hk : k.Iterates) (hlisted : Listed r)
    (haddress : ∀ (a : Address) (obj : StateObject), objects[a]? = some obj → obj.address = a)
    (hlive : ∀ a ∈ addrs, a ∈ objects) (hnodup : addrs.Nodup) :
    (∃ r', Written k.env objects addrs r r' ∧
      ∀ a ∈ addrs, ∀ obj : StateObject, objects[a]? = some obj → obj.selfDestructed = true →
        k.Cleared r' a) ↔ k.ClearsAll objects addrs r := by
  induction addrs generalizing r with
  | nil => exact ⟨fun _ => trivial, fun _ => ⟨r, .nil r, nofun⟩⟩
  | cons a rest ih =>
    obtain ⟨hnot, hnodup⟩ := nodup_cons.mp hnodup
    obtain ⟨obj, hobj⟩ := isSome_iff_exists.mp
      (ExtTreeMap.mem_iff_isSome_getElem?.mp (hlive a mem_cons_self))
    have haddr := haddress a obj hobj
    specialize ih (hlisted.overwritten (commitObject k.env obj r).writes)
      (fun b hb => hlive b (mem_cons_of_mem _ hb)) hnodup
    have hobject : obj.selfDestructed = true →
        ((commitObject k.env obj r).err = none ∧
          k.Cleared (overwritten r (commitObject k.env obj r).writes) a ↔ k.Removable obj r) := by
      intro hdead
      rw [← haddr]
      exact commitObject_cleared_iff ha hb hk hlisted hdead rfl
    constructor
    · rintro ⟨r', hwritten, hcleared⟩ obj' hobj'
      obtain rfl := some.inj (hobj.symm.trans hobj')
      cases hwritten with
      | cons hobj'' herr hrest =>
        obtain rfl := some.inj (hobj.symm.trans hobj'')
        refine ⟨?_, ih.mp ⟨r', hrest, fun b hb => hcleared b (mem_cons_of_mem _ hb)⟩⟩
        split <;> rename_i hdead
        · have hgone := hcleared a mem_cons_self obj hobj hdead
          rw [Cleared, holding_written ha hb hrest haddress hnot] at hgone
          exact (hobject hdead).mp ⟨herr, hgone⟩
        · rw [commitObject, if_neg hdead] at herr
          exact commitLive_err_iff.mp herr
    · intro hclears
      obtain ⟨hdone, hrest⟩ := hclears obj hobj
      obtain ⟨r', hwritten, hcleared⟩ := ih.mpr hrest
      have herr : (commitObject k.env obj r).err = none := by
        split at hdone <;> rename_i hdead
        · exact ((hobject hdead).mpr hdone).1
        · rw [commitObject, if_neg hdead]
          exact commitLive_err_iff.mpr hdone
      refine ⟨r', .cons hobj herr hwritten, fun b hmem obj' hobj' hdead => ?_⟩
      rcases mem_cons.mp hmem with rfl | hmem
      · obtain rfl := some.inj (hobj.symm.trans hobj')
        rw [if_pos hdead] at hdone
        rw [Cleared, holding_written ha hb hwritten haddress hnot]
        exact ((hobject hdead).mpr hdone).2
      · exact hcleared b hmem obj' hobj' hdead

end Keeper

/-! ## Runs -/

section Runs

variable {k : Keeper Event} {codec : BankCodec}

/-- The stores of the keeper are mounted, and destructed accounts are dirty. -/
structure Destructible (k : Keeper Event) (s : StateDB Bytes Value Event) : Prop where
  mounted : s.Mounted moduleStores
  dirty : (s.observe k.env).DestructedDirty

variable {s t : StateDB Bytes Value Event}

section

variable (h : Destructible k s)
include h

theorem Destructible.follows (hf : Follows k.env Set.univ s t) :
    Destructible k t where
  mounted := h.mounted.congr hf.ctx_eq hf.cache.1
  dirty := hf.recorded.invariant (fun x => x.2.DestructedDirty)
    (fun _ _ _ _ ho hc => hc.destructedDirty ho) h.dirty

theorem Destructible.getCacheContext : Destructible k s.getCacheContext := by
  refine ⟨h.mounted.getCacheContext, ?_⟩
  unfold StateDB.getCacheContext
  split <;> exact h.dirty

theorem Destructible.flush (hflush : s.flushToCacheCtx k.env = .ok (none, t)) :
    Destructible k t := by
  refine ⟨h.mounted.flush hflush, ?_⟩
  cases hc : s.cache with
  | none =>
    simp only [flushToCacheCtx, hc] at hflush
    cases hflush
  | some c =>
    obtain ⟨e, c', -, -, -, rfl⟩ := flushToCacheCtx_cases hc hflush
    exact h.dirty

theorem Destructible.beginNative (hs : Valid k.env s)
    (hbegin : s.beginNative k.env = .ok (none, t)) : Destructible k t := by
  obtain ⟨u, hcalled, -, ⟨c, hc, hcache⟩, -, -, hflush⟩ := beginNative_flushed hs hbegin
  have hwell := (getCacheContext_valid hs).good.cache c hc
  have hcontext := h.getCacheContext
  refine Destructible.flush ⟨?_, ?_⟩ hflush
  · exact hcontext.mounted.snapshot hc hwell hcalled.inside.ctx hcache
  · exact hcalled.inside.recorded.invariant (fun x => x.2.DestructedDirty)
      (fun _ _ _ _ ho hchange => hchange.destructedDirty ho) hcontext.dirty

theorem Destructible.native {e : Effects Bytes Value Event}
    (hnative : s.native e = .ok t) : Destructible k t := by
  obtain ⟨c, c', hc, hk, rfl⟩ := native_cases hnative
  refine ⟨⟨h.mounted.ctx, fun c'' hc'' => ?_⟩, h.dirty⟩
  cases hc''
  exact (h.mounted.cache c hc).apply hk

end

/-- A step keeps the stores mounted, and makes every account dirty that it destructs. -/
theorem step_destructible {cfg cfg' : Config Bytes Value} {action : Action Bytes Value} {n : Nat}
    (hopen : cfg.Open k.env n) (h : cfg.Holds (Destructible k))
    (hstep : cfg.step k.env codec action = .ok cfg') : cfg'.Holds (Destructible k) := by
  have hvalid : Valid k.env cfg.db := Framed.valid hopen
  refine step_holds (fun s t hobs hs => ⟨?_, hobs ▸ hs.dirty⟩)
    (fun s hs => hs.getCacheContext) ?_ ?_ ?_ ?_ ?_ hopen h hstep
  · exact hs.mounted.congr (congrArg Observation.ctx hobs) (congrArg Observation.cache hobs)
  · rintro o plain t rfl - hf
    exact h.db.follows hf
  · rintro handled t rfl hres
    exact h.db.beginNative hvalid hres
  · rintro e t rfl hres
    exact h.db.native hres
  · rintro t rfl hres
    exact h.db.flush hres
  · intro prev t hres hf
    exact h.db.follows hf

theorem run_destructible {ctx : Context Bytes Value Event} {txIndex : Nat}
    {actions : List (Action Bytes Value)} {cfg : Config Bytes Value}
    (hctx : ctx.Mounts moduleStores) (h : (init ctx txIndex).run k.env codec actions = some cfg) :
    cfg.Open k.env ctx.events.length ∧ cfg.Holds (Destructible k) := by
  refine Runs.run_invariant
    (fun cfg => cfg.Open k.env ctx.events.length ∧ cfg.Holds (Destructible k)) (fun _ => True) ?_
    (fun _ _ => trivial) ⟨init_open ctx txIndex, ?_⟩ h
  · rintro c action c' - ⟨hopen, hc⟩ hstep
    have hok := Outcomes.toOption_eq_some.mp hstep
    exact ⟨(step_safe codec hopen action).of_ok hok, step_destructible hopen hc hok⟩
  · refine ⟨⟨⟨hctx, nofun⟩, ?_⟩, fun _ hmem => nomatch hmem⟩
    -- The accounts of the keeper are not destructed.
    intro a v hv hdead
    obtain ⟨obj, hobj, rfl⟩ := map_eq_some_iff.mp hv
    obtain ⟨account, -, rfl⟩ := map_eq_some_iff.mp hobj
    cases hdead

/-- An account is reported as self-destructed if its object is. -/
theorem hasSelfDestructed_iff (s : StateDB Bytes Value Event) (a : Address) :
    (s.hasSelfDestructed k.env a).1 = true ↔
      ∃ obj : StateObject, s.stateObjects[a]? = some obj ∧ obj.selfDestructed = true := by
  unfold hasSelfDestructed getStateObject
  cases hobj : s.stateObjects[a]? with
  | some obj => simp
  | none =>
    cases k.env.getAccount s.ctx.reads a with
    | none => simp
    | some account => simp [StateObject.newObject]

/-- In every transaction, the commit returns no error and leaves nothing of the accounts that
destructed themselves exactly if each is removable, and the account of every other dirty
object can be written, when the commit loop reaches it. -/
theorem commit_clears_iff (k : Keeper Event) (ha : k.accountKeeper.Lawful) (hb : k.Vests)
    (hk : k.Iterates) (codec : BankCodec)
    (ctx : Context Bytes Value Event) (hctx : ctx.Mounts moduleStores) (txIndex : Nat)
    (actions : List (Action Bytes Value)) (cfg : Config Bytes Value)
    (h : (init ctx txIndex).run k.env codec actions = some cfg) :
    (∃ u, cfg.db.commit k.env = .ok (none, u) ∧
      ∀ a, (cfg.db.hasSelfDestructed k.env a).1 = true → k.Cleared u.ctx.reads a) ↔
    k.ClearsAll cfg.db.stateObjects cfg.db.journal.dirties.keys
      (cfg.db.observe k.env).contents := by
  obtain ⟨hopen, hholds⟩ := run_destructible hctx h
  have hvalid : Valid k.env cfg.db := Framed.valid hopen
  have hlive : Live cfg.db := Framed.live hopen
  have hlisted : Listed (cfg.db.observe k.env).contents := by
    obtain ⟨u, -, -, -, -, hcontents⟩ := commit_eq hvalid
    rw [← hcontents]
    exact listed_reads u.ctx
  rw [← written_cleared_iff ha hb hk hlisted hvalid.tidy.address
    (fun a hmem => hlive a (ExtTreeMap.mem_keys.mp hmem)) (FMap.keys_nodup _)]
  constructor
  · rintro ⟨u, hcommit, hcleared⟩
    refine ⟨u.ctx.reads, commit_written hvalid hcommit, fun a _ obj hobj hdead => ?_⟩
    exact hcleared a ((hasSelfDestructed_iff _ a).mpr ⟨obj, hobj, hdead⟩)
  · rintro ⟨r', hwritten, hcleared⟩
    obtain ⟨u, hcommit, rfl⟩ := hholds.db.mounted.commit hvalid
      (fun obj r => commitObject_on ha hb) hwritten
    refine ⟨u, hcommit, fun a hdead => ?_⟩
    obtain ⟨obj, hobj, hdead⟩ := (hasSelfDestructed_iff _ a).mp hdead
    have hview : (cfg.db.observe k.env).accounts a = some (obj.view k.env cfg.db.ctx.reads) := by
      simp [StateDB.observe, StateDB.lookup, hobj]
    exact hcleared a (ExtTreeMap.mem_keys.mpr (hholds.db.dirty a _ hview hdead)) obj hobj hdead

end Runs

/-- The account 7 has 100 coins and has sent no transaction. -/
def fundedContext : Context Bytes Value Event :=
  { smallContext with
    stores := smallContext.stores.insert authStore
      ((∅ : FMap Bytes Value).insert (addressBytes 7)
        (.account (newBaseAccount (addressBytes 7) [] 0 0))) }

/-- A constructor at the address 7, which has coins, pays them to account 8 and destructs
itself. Another, at the new address 9, first calls a precompile. Both commits return an
error, and the accounts are still there. -/
theorem destructed_constructor_refused :
    ((init fundedContext 0).run smallKeeper.env smallCodec
      [.enter, .op (.createContract 7) trivial, .op (.setNonce 7 1) trivial,
        .op (.subBalance 7 100) trivial, .op (.addBalance 8 100) trivial,
        .op (.selfDestruct6780 7) trivial, .op (.setCode 7 (some [])) trivial, .leave]).bind
      (fun cfg => (cfg.db.commit smallKeeper.env).toOption.map fun p =>
        ((cfg.db.hasSelfDestructed smallKeeper.env 7).1, p.1.isSome,
          (smallKeeper.getAccount p.2.ctx.reads 7).isSome)) = some (true, true, true) ∧
    ((init smallContext 0).run smallKeeper.env smallCodec
      [.enter, .op (.createAccount 9) trivial, .op (.createContract 9) trivial,
        .op (.setNonce 9 1) trivial, .enter, .call false, .finish, .leave,
        .op (.selfDestruct6780 9) trivial, .op (.setCode 9 (some [])) trivial, .leave]).bind
      (fun cfg => (cfg.db.commit smallKeeper.env).toOption.map fun p =>
        ((cfg.db.hasSelfDestructed smallKeeper.env 9).1, p.1.isSome,
          (smallKeeper.getAccount p.2.ctx.reads 9).isSome)) = some (true, true, true) := by
  constructor
  · decide +kernel
  · decide +kernel

theorem listingKeeper_vests : listingKeeper.Vests where
  toOverwrites := smallKeeper_supplied.toOverwrites
  onStore := smallKeeper_supplied.onStore
  congr := smallKeeper_supplied.congr
  vesting s a _ _ _ := smallKeeper_supplied.unlocked s a
  accepts _ _ _ _ := ⟨_, rfl⟩

theorem listingKeeper_settable (obj : StateObject) (r : Contents) :
    listingKeeper.Settable obj r := by
  refine ⟨?_, ⟨_, rfl⟩, fun hblocked => absurd hblocked Bool.false_ne_true⟩
  change (obj.account.balance.toNat : Int) + 0 < 2 ^ 256
  omega

/-- A contract is created at the new address 9 and destructs itself. -/
def destructing : List (Action Bytes Value) :=
  [.enter, .op (.createAccount 9) trivial, .op (.createContract 9) trivial,
    .op (.setState 9 0 1) trivial, .op (.setCode 9 (some [1])) trivial, .leave,
    .op (.selfDestruct6780 9) trivial]

theorem commit_clears_iff_contract :
    ∃ (cfg : Config Bytes Value) (u : StateDB Bytes Value Event),
      (init smallContext 0).run listingKeeper.env smallCodec destructing = some cfg ∧
      (cfg.db.hasSelfDestructed listingKeeper.env 9).1 = true ∧
      cfg.db.commit listingKeeper.env = .ok (none, u) ∧
      listingKeeper.Cleared u.ctx.reads 9 := by
  have hresult : ((init smallContext 0).run listingKeeper.env smallCodec
      destructing).map (fun cfg => ((cfg.db.hasSelfDestructed listingKeeper.env 9).1,
        cfg.db.journal.dirties.keys)) = some (true, [9]) := by
    decide +kernel
  have hobject : ((init smallContext 0).run listingKeeper.env smallCodec
      destructing).bind (fun cfg => (cfg.db.stateObjects[(9 : Address)]?).map fun obj =>
        (obj.selfDestructed, obj.dirtyCode, obj.code)) = some (true, true, some [1]) := by
    decide +kernel
  obtain ⟨cfg, hcfg, hresult⟩ := map_eq_some_iff.mp hresult
  obtain ⟨hdead, hkeys⟩ := Prod.mk.inj hresult
  rw [hcfg, bind_some] at hobject
  have hmounts : smallContext.Mounts moduleStores := by
    rintro name (rfl | rfl | rfl) <;> simp [smallContext]
  obtain ⟨u, hcommit, hcleared⟩ := (commit_clears_iff listingKeeper plainAuth_lawful
    listingKeeper_vests listingKeeper_iterates smallCodec smallContext hmounts 0 _
    cfg hcfg).mpr (by
      rw [hkeys]
      intro obj hobj
      rw [hobj, map_some] at hobject
      obtain ⟨hdestructed, hobject⟩ := Prod.mk.inj (some.inj hobject)
      obtain ⟨hdirty, hcode⟩ := Prod.mk.inj hobject
      rw [if_pos hdestructed]
      exact ⟨Or.inl ⟨[1], hcode, hdirty, by decide, by decide, listingKeeper_settable _ _⟩,
        trivial⟩)
  exact ⟨cfg, u, hcfg, hdead, hcommit, hcleared 9 hdead⟩

end InfiniteEvm.VM
