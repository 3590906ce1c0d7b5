import InfiniteEvm.StateDB.Ledger

/-!
# What a commit writes to the bank

The keeper reads and overwrites balances of the bank, one address at a time. The bank is
a book of values under keys, so that other accounts can have entries too. A commit
leaves the balance of every object that stays, takes the balance of a deleted account
away, and touches no other.
-/

namespace InfiniteEvm

open Std Library SnapshotMulti Function

variable {K V E ι M : Type*}

/-- A book of balances that contents hold: the entry of each key, the key of an address,
and the entry that stands for a balance. -/
structure Books (K V ι M : Type*) where
  entry : Reads K V → ι → M
  key : Address → ι
  value : Uint256 → M

/-- The book with the balances of addresses alone. -/
def Books.plain (bank : Reads K V → Address → Uint256) : Books K V Address Uint256 :=
  { entry := bank, key := id, value := id }

/-- The coins of one denom that contents hold: the balances of accounts, whose addresses
can have any length, and the supply. -/
structure Coinage (K V : Type*) where
  balance : Reads K V → Bytes → Int
  supply : Reads K V → Int

/-- The book of balances and supply, with the supply under a key of its own. -/
def Coinage.books (coins : Coinage K V) : Books K V (Option Bytes) Int where
  entry r x := x.elim (coins.supply r) (coins.balance r)
  key a := some (addressBytes a)
  value amount := amount.toNat

theorem Coinage.books_key (coins : Coinage K V) : Injective coins.books.key :=
  fun _ _ h => addressBytes_inj (Option.some.inj h)

variable [DecidableEq K] [DecidableEq ι]

/-- The keeper keeps the balances of its accounts in a book, and overwrites them there. -/
structure Booked (env : Env K V E) (books : Books K V ι M) : Prop where
  setAccount : ∀ r a account, (env.setAccount r a account).err = none →
    books.entry (overwritten r (env.setAccount r a account).writes) =
      update (books.entry r) (books.key a) (books.value account.balance)
  setState : ∀ r a slot x, books.entry (overwritten r (env.setState r a slot x)) = books.entry r
  setCode : ∀ r codeHash code,
    books.entry (overwritten r (env.setCode r codeHash code)) = books.entry r
  deleteCode : ∀ r codeHash, books.entry (overwritten r (env.deleteCode r codeHash)) = books.entry r
  deleteAccount : ∀ r a, (env.deleteAccount r a).err = none →
    books.entry (overwritten r (env.deleteAccount r a).writes) =
      if (env.getAccount r a).isSome then
        update (books.entry r) (books.key a) (books.value 0)
      else books.entry r

/-- The keeper has the balances of its accounts from a bank, and overwrites them there. -/
structure Banked (env : Env K V E) (bank : Reads K V → Address → Uint256) : Prop extends
    Booked env (.plain bank) where
  account : ∀ r a account, env.getAccount r a = some account → account.balance = bank r a

namespace StateDB

variable {env : Env K V E} {books : Books K V ι M} {obj : StateObject} {r : Reads K V}

/-- What writing an object leaves as its balance, from contents `r`. -/
def LeavesBalance (env : Env K V E) (books : Books K V ι M) (obj : StateObject) (r : Reads K V)
    (x : M) : Prop :=
  if obj.selfDestructed then
    x = books.value 0 ∨
      x = books.entry r (books.key obj.address) ∧ env.getAccount r obj.address = none
  else x = books.value obj.account.balance

section Object

variable (hbook : Booked env books)
include hbook

theorem book_commitStorage (a : Address) (items : List (Hash × Hash)) (r : Reads K V) :
    books.entry (overwritten r (commitStorage env a items r)) = books.entry r := by
  induction items generalizing r with
  | nil => rfl
  | cons item rest ih =>
    rw [commitStorage_cons, overwritten_append, ih, hbook.setState]

theorem book_commitCode (obj : StateObject) (r : Reads K V) :
    books.entry (overwritten r (commitCode env obj r)) = books.entry r := by
  unfold commitCode
  cases obj.code with
  | none => rfl
  | some code =>
    dsimp only
    split
    · split
      · exact hbook.deleteCode r _
      · exact hbook.setCode r _ _
    · rfl

variable [Ord K]

theorem book_commitLive (h : (commitLive env obj r).err = none) :
    books.entry (overwritten r (commitLive env obj r).writes) =
      update (books.entry r) (books.key obj.address) (books.value obj.account.balance) := by
  obtain ⟨hfirst, -, hwrites⟩ := Effects.andThen_err h
  obtain ⟨-, hset, hwrites'⟩ := Effects.andThen_err hfirst
  have haccount := hbook.setAccount _ _ _ (Effects.wrap_err hset)
  rw [commitLive, hwrites, hwrites']
  refine (book_commitStorage hbook _ _ _).trans (haccount.trans ?_)
  exact congrArg (update · _ _) (book_commitCode hbook obj r)

theorem book_commitDestructed (law : env.Lawful) (h : (commitDestructed env obj r).err = none) :
    ∃ x, books.entry (overwritten r (commitDestructed env obj r).writes) =
        update (books.entry r) (books.key obj.address) x ∧
      (x = books.value 0 ∨
        x = books.entry r (books.key obj.address) ∧ env.getAccount r obj.address = none) := by
  obtain ⟨r₁, hwrites, hdelete, hcases⟩ := commitDestructed_cases h
  rw [hwrites, hbook.deleteAccount _ _ hdelete]
  rcases hcases with ⟨rfl, -⟩ | ⟨code, r₀, -, -, -, rfl, hset, rfl⟩
  · cases haccount : env.getAccount r₁ obj.address with
    | some account => exact ⟨books.value 0, rfl, Or.inl rfl⟩
    | none => exact ⟨books.entry r₁ _, (update_eq_self _ _).symm, Or.inr ⟨rfl, rfl⟩⟩
  · have haccount := congrArg (fun l : Ledger => l.account obj.address) (law.setAccount _ _ _ hset)
    have hsome : env.getAccount _ obj.address = some obj.account := haccount.trans (update_self ..)
    refine ⟨books.value 0, ?_, Or.inl rfl⟩
    rw [hsome, Option.isSome_some, if_pos rfl, hbook.setAccount _ _ _ hset, update_idem,
      hbook.setCode]

/-- Writing an object touches its own balance only. -/
theorem book_commitObject (law : env.Lawful) (h : (commitObject env obj r).err = none) :
    ∃ x, books.entry (overwritten r (commitObject env obj r).writes) =
        update (books.entry r) (books.key obj.address) x ∧
      LeavesBalance env books obj r x := by
  unfold commitObject LeavesBalance at *
  cases hdead : obj.selfDestructed with
  | false =>
    simp only [hdead, Bool.false_eq_true, if_false] at h ⊢
    exact ⟨_, book_commitLive hbook h, rfl⟩
  | true =>
    simp only [hdead, if_true] at h ⊢
    exact book_commitDestructed hbook law h

end Object

variable [Ord K] {objects : FMap Address StateObject} {addrs : List Address} {r r' : Reads K V}

/-- A commit loop leaves the balance of every object it walks, and touches no other. -/
theorem Written.leavesBalance (hbook : Booked env books) (law : env.Lawful)
    (hkey : Injective books.key) (h : Written env objects addrs r r')
    (haddr : ∀ (a : Address) (obj : StateObject), objects[a]? = some obj → obj.address = a)
    (hnodup : addrs.Nodup) :
    (∀ i, (∀ a ∈ addrs, i ≠ books.key a) → books.entry r' i = books.entry r i) ∧
      ∀ a ∈ addrs, ∃ obj, objects[a]? = some obj ∧
        LeavesBalance env books obj r (books.entry r' (books.key a)) := by
  induction h with
  | nil r => exact ⟨fun _ _ => rfl, nofun⟩
  | @cons b obj rest r r' hobj herr _ ih =>
    obtain ⟨hb, hrest⟩ := List.nodup_cons.mp hnodup
    obtain ⟨hframe, hwalked⟩ := ih hrest
    obtain ⟨x, hx, hleaves⟩ := book_commitObject hbook law herr
    rw [haddr b obj hobj] at hx
    constructor
    · intro i hi
      obtain ⟨hib, hirest⟩ := List.forall_mem_cons.mp hi
      rw [hframe i hirest, hx, update_of_ne hib]
    · intro a ha
      rcases List.mem_cons.mp ha with rfl | hmem
      · refine ⟨obj, hobj, ?_⟩
        have hother : ∀ c ∈ rest, books.key a ≠ books.key c := fun c hc heq => hb (hkey heq ▸ hc)
        rw [hframe _ hother, hx, update_self]
        exact hleaves
      · have hne : a ≠ b := fun heq => hb (heq ▸ hmem)
        obtain ⟨obj', hobj', hleaves'⟩ := hwalked a hmem
        refine ⟨obj', hobj', ?_⟩
        have haccount := (commitObject_wrote law herr).account_of_ne a
          (fun heq => hne (heq.trans (haddr b obj hobj)))
        unfold LeavesBalance at hleaves' ⊢
        rw [haddr a obj' hobj', hx, update_of_ne fun heq => hne (hkey heq)] at hleaves'
        rw [haddr a obj' hobj']
        rw [show env.getAccount (overwritten r (commitObject env obj r).writes) a =
          env.getAccount r a from haccount] at hleaves'
        exact hleaves'

end StateDB

end InfiniteEvm
