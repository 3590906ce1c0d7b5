import InfiniteEvm.StateDB.Types

/-!
# State objects and transient storage

`x/vm/statedb/state_object.go` and `transient_storage.go`. Reading code or storage of
an object may load it from the keeper into the object; such a getter gives the value
and the object after it. The view of an object is what its getters answer.
-/

namespace InfiniteEvm

open Std Library SnapshotMulti ExtTreeMap

/-- `Storage`. -/
abbrev Storage := FMap Hash Hash

/-- `stateObject`, without the pointer back to the database. -/
structure StateObject where
  address : Address
  account : Account
  code : Option Bytes
  originStorage : Storage
  dirtyStorage : Storage
  overrideStorage : Option Storage
  dirtyCode : Bool
  selfDestructed : Bool
  newContract : Bool
  deriving DecidableEq

namespace StateObject

variable {K V E : Type*} (env : Env K V E) (r : Reads K V)

/-- `newObject`. A nil balance or code hash of the source is the zero balance or the
empty code hash here from the start. -/
def newObject (address : Address) (account : Account) : StateObject where
  address := address
  account := account
  code := none
  originStorage := ∅
  dirtyStorage := ∅
  overrideStorage := none
  dirtyCode := false
  selfDestructed := false
  newContract := false

/-- `empty`: nonce, balance and code are all zero. -/
def empty (obj : StateObject) : Bool :=
  obj.account.nonce == 0 && obj.account.balance == 0 && env.isEmptyCodeHash obj.account.codeHash

/-- `Code`, which loads the code on first use. -/
def getCode (obj : StateObject) : Option Bytes × StateObject :=
  match obj.code with
  | some code => (some code, obj)
  | none =>
    if env.isEmptyCodeHash obj.account.codeHash then (none, obj)
    else
      let code := env.getCode r obj.account.codeHash
      (code, { obj with code := code })

/-- `GetCommittedState`, which caches what it loads. -/
def getCommittedState (obj : StateObject) (key : Hash) : Hash × StateObject :=
  match obj.overrideStorage with
  | some storage => ((storage[key]?).getD 0, obj)
  | none =>
    match obj.originStorage[key]? with
    | some value => (value, obj)
    | none =>
      let value := env.getState r obj.address key
      (value, { obj with originStorage := obj.originStorage.insert key value })

/-- `GetState`, the dirty value if there is one. -/
def getState (obj : StateObject) (key : Hash) : Hash × StateObject :=
  match obj.dirtyStorage[key]? with
  | some value => (value, obj)
  | none => getCommittedState env r obj key

def setBalance (obj : StateObject) (amount : Uint256) : StateObject :=
  { obj with account := { obj.account with balance := amount } }

def setNonce (obj : StateObject) (nonce : BitVec 64) : StateObject :=
  { obj with account := { obj.account with nonce := nonce } }

def setCode (obj : StateObject) (codeHash : Hash) (code : Option Bytes) : StateObject :=
  { obj with
    code := code
    account := { obj.account with codeHash := codeHash }
    dirtyCode := true }

def setState (obj : StateObject) (key value : Hash) : StateObject :=
  { obj with dirtyStorage := obj.dirtyStorage.insert key value }

/-- `SetStorage` of an object: the whole storage replaced. -/
def setStorage (obj : StateObject) (storage : Storage) : StateObject :=
  { obj with overrideStorage := some storage, originStorage := ∅, dirtyStorage := ∅ }

end StateObject

/-- What the getters of an account answer. -/
@[ext] structure AccountView where
  nonce : BitVec 64
  balance : Uint256
  codeHash : Hash
  code : Option Bytes
  state : Hash → Hash
  committed : Hash → Hash
  selfDestructed : Bool
  newContract : Bool

namespace StateObject

variable {K V E : Type*} (env : Env K V E) (r : Reads K V) (obj : StateObject) (address : Address)

/-- The code an account with this hash and this loaded code answers with. -/
def resolveCode (codeHash : Hash) (code : Option Bytes) : Option Bytes :=
  code.or (if env.isEmptyCodeHash codeHash then none else env.getCode r codeHash)

/-- The value `GetCommittedState` answers. -/
def committedValue (address : Address) (override : Option Storage) (origin : Storage)
    (key : Hash) : Hash :=
  match override with
  | some storage => (storage[key]?).getD 0
  | none => (origin[key]?).getD (env.getState r address key)

def view (obj : StateObject) : AccountView where
  nonce := obj.account.nonce
  balance := obj.account.balance
  codeHash := obj.account.codeHash
  code := resolveCode env r obj.account.codeHash obj.code
  state := fun key => (obj.dirtyStorage[key]?).getD
    (committedValue env r obj.address obj.overrideStorage obj.originStorage key)
  committed := committedValue env r obj.address obj.overrideStorage obj.originStorage
  selfDestructed := obj.selfDestructed
  newContract := obj.newContract

/-- A new object answers from the keeper. -/
theorem view_newObject (account : Account) :
    view env r (newObject address account) =
      { nonce := account.nonce
        balance := account.balance
        codeHash := account.codeHash
        code := if env.isEmptyCodeHash account.codeHash then none
          else env.getCode r account.codeHash
        state := env.getState r address
        committed := env.getState r address
        selfDestructed := false
        newContract := false } := by
  rfl

theorem getCode_fst : (getCode env r obj).1 = resolveCode env r obj.account.codeHash obj.code := by
  unfold getCode resolveCode
  cases obj.code with
  | some code => rfl
  | none =>
    simp only [Option.none_or]
    split <;> rfl

theorem resolveCode_resolveCode (h : Hash) (code : Option Bytes) :
    resolveCode env r h (resolveCode env r h code) = resolveCode env r h code := by
  unfold resolveCode
  cases code with
  | some c => rfl
  | none =>
    split
    · rfl
    · cases env.getCode r h <;> rfl

theorem getCode_snd :
    (getCode env r obj).2 = obj ∨
      (getCode env r obj).2 =
        { obj with code := resolveCode env r obj.account.codeHash obj.code } := by
  unfold getCode resolveCode
  cases obj.code with
  | some code => exact Or.inl rfl
  | none =>
    simp only [Option.none_or]
    split
    · exact Or.inl rfl
    · exact Or.inr rfl

theorem getCommittedState_fst (key : Hash) :
    (getCommittedState env r obj key).1 = (view env r obj).committed key := by
  simp only [getCommittedState, view, committedValue]
  cases obj.overrideStorage with
  | some storage => rfl
  | none => cases obj.originStorage[key]? <;> rfl

theorem getState_fst (key : Hash) : (getState env r obj key).1 = (view env r obj).state key := by
  unfold getState
  cases h : obj.dirtyStorage[key]? with
  | some value => simp [view, h]
  | none =>
    simp only [view, h, Option.getD_none]
    exact getCommittedState_fst env r obj key

theorem getCommittedState_snd (key : Hash) :
    (getCommittedState env r obj key).2 = obj ∨
      obj.overrideStorage = none ∧ obj.originStorage[key]? = none ∧
      (getCommittedState env r obj key).2 =
        { obj with originStorage :=
            obj.originStorage.insert key (env.getState r obj.address key) } := by
  unfold getCommittedState
  cases obj.overrideStorage with
  | some storage => exact Or.inl rfl
  | none =>
    cases h : obj.originStorage[key]? with
    | some value => exact Or.inl rfl
    | none => exact Or.inr ⟨rfl, rfl, rfl⟩

theorem getState_snd (key : Hash) :
    (getState env r obj key).2 = obj ∨
      (getState env r obj key).2 = (getCommittedState env r obj key).2 := by
  unfold getState
  cases obj.dirtyStorage[key]? with
  | some value => exact Or.inl rfl
  | none => exact Or.inr rfl

/-- Loading code into an object does not change what it answers. -/
theorem view_getCode : view env r (getCode env r obj).2 = view env r obj := by
  rcases getCode_snd env r obj with h | h
  · rw [h]
  · rw [h]
    simp only [view, resolveCode_resolveCode]

theorem committedValue_insert (origin : Storage) (key : Hash) (hk : origin[key]? = none) :
    committedValue env r address none (origin.insert key (env.getState r address key)) =
      committedValue env r address none origin := by
  funext key'
  by_cases hkey : key = key'
  · subst hkey
    simp [committedValue, hk]
  · simp [committedValue, getElem?_insert, hkey]

section

variable (obj : StateObject) (key : Hash)

/-- Caching a loaded slot does not change what an object answers. -/
theorem view_getCommittedState :
    view env r (getCommittedState env r obj key).2 = view env r obj := by
  rcases getCommittedState_snd env r obj key with h | ⟨ho, hk, h⟩
  · rw [h]
  · rw [h]
    simp only [view, ho, committedValue_insert env r obj.address obj.originStorage key hk]

theorem view_getState : view env r (getState env r obj key).2 = view env r obj := by
  rcases getState_snd env r obj key with h | h
  · rw [h]
  · rw [h]
    exact view_getCommittedState env r obj key

theorem getCode_address : (getCode env r obj).2.address = obj.address := by
  rcases getCode_snd env r obj with h | h <;> rw [h]

theorem getCommittedState_address : (getCommittedState env r obj key).2.address = obj.address := by
  rcases getCommittedState_snd env r obj key with h | ⟨-, -, h⟩ <;> rw [h]

theorem getState_address : (getState env r obj key).2.address = obj.address := by
  rcases getState_snd env r obj key with h | h <;> rw [h]
  exact getCommittedState_address env r obj key

theorem view_setCode (codeHash : Hash) (code : Option Bytes) :
    view env r (obj.setCode codeHash code) =
      { view env r obj with codeHash := codeHash, code := resolveCode env r codeHash code } := rfl

theorem view_setState (value : Hash) :
    view env r (obj.setState key value) =
      { view env r obj with state := Function.update (view env r obj).state key value } := by
  have hstate : (view env r (obj.setState key value)).state =
      Function.update (view env r obj).state key value := by
    funext key'
    by_cases hk : key = key'
    · subst hk
      simp [view, setState]
    · have hk' : key' ≠ key := fun h => hk h.symm
      simp [view, setState, getElem?_insert, hk, hk']
  rw [← hstate]
  rfl

end

end StateObject

/-- `transientStorage`. -/
abbrev TransientStorage := FMap Address Storage

namespace TransientStorage

/-- `Set`: the zero value deletes, and an emptied storage is dropped. -/
def set (t : TransientStorage) (addr : Address) (key value : Hash) : TransientStorage :=
  if value = 0 then
    match t[addr]? with
    | none => t
    | some storage =>
      if (storage.erase key).isEmpty then t.erase addr else t.insert addr (storage.erase key)
  else t.insert addr (((t[addr]?).getD ∅).insert key value)

/-- `Get`. -/
def get (t : TransientStorage) (addr : Address) (key : Hash) : Hash :=
  ((t[addr]?).bind fun storage => storage[key]?).getD 0

theorem get_set (t : TransientStorage) (addr addr' : Address) (key key' value : Hash) :
    get (set t addr key value) addr' key' =
      if addr = addr' ∧ key = key' then value else get t addr' key' := by
  by_cases ha : addr = addr'
  · subst ha
    by_cases hv : value = 0
    · subst hv
      cases hst : t[addr]? with
      | none => simp [set, get, hst]
      | some storage =>
        have hread : get (set t addr key 0) addr key' = ((storage.erase key)[key']?).getD 0 := by
          by_cases he : (storage.erase key).isEmpty = true
          · have hempty : storage.erase key = ∅ := by simpa using he
            simp only [set, hst, if_true, he, get]
            simp [hempty]
          · simp only [set, hst, if_true, he, get, Bool.false_eq_true, if_false]
            simp
        rw [hread, getElem?_erase]
        by_cases hk : key = key' <;> simp [get, hst, hk]
    · have hset : set t addr key value =
          t.insert addr (((t[addr]?).getD ∅).insert key value) := if_neg hv
      by_cases hk : key = key'
      · subst hk
        simp [hset, get]
      · cases hst : t[addr]? <;>
          simp [hset, get, hk, hst, getElem?_insert]
  · have hother : (set t addr key value)[addr']? = t[addr']? := by
      unfold set
      split
      · split
        · rfl
        · split
          · simp [getElem?_erase, ha]
          · simp [getElem?_insert, ha]
      · simp [getElem?_insert, ha]
    simp [get, hother, ha]

end TransientStorage

end InfiniteEvm
