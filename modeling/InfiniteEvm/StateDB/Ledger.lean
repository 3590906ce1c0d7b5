import InfiniteEvm.StateDB.Commit

/-!
# What a commit leaves in the keeper

The ledger of a keeper is what its getters answer. For a keeper whose writes read back
exactly, writing an object is an update of the ledger, and the commit loop leaves every
dirty account that stays as its object has it and every other account as it was.
-/

namespace InfiniteEvm

open Std Library SnapshotMulti List Function Option

variable {K V E : Type*} {name : String} {ws : List (String × K × Option V)} {r : Reads K V}
variable {e : Effects K V E} {obj : StateObject} {code : Bytes} {a : Address} {addrs : List Address}

/-! ## Effects on contents -/

theorem Effects.wrap_err {message : String} (h : (e.wrap message).err = .none) : e.err = .none :=
  map_eq_none_iff.mp h

theorem Effects.wrap_eq (he : e.err = .none) (message : String) : e.wrap message = e := by
  unfold wrap
  rw [he, map_none, ← he]

variable [DecidableEq K]

theorem overwritten_append (r : Reads K V) (xs ys : List (String × K × Option V)) :
    overwritten r (xs ++ ys) = overwritten (overwritten r xs) ys :=
  foldl_append

/-- A key that is not written keeps its value. -/
theorem overwritten_of_unwritten {key : K} (h : ∀ w ∈ ws, ¬(w.1 = name ∧ w.2.1 = key))
    (r : Reads K V) : overwritten r ws name key = r name key := by
  induction ws generalizing r with
  | nil => rfl
  | cons w rest ih =>
    change overwritten (overwritten r [w]) rest name key = r name key
    rw [ih fun v hv => h v (mem_cons_of_mem _ hv)]
    exact if_neg (h w mem_cons_self)

/-- Writes to other stores leave a store alone. -/
theorem overwritten_of_other (h : ∀ w ∈ ws, w.1 ≠ name) (r : Reads K V) :
    overwritten r ws name = r name := by
  funext key
  exact overwritten_of_unwritten (fun w hw hand => h w hw hand.1) r

/-- What is read at a key depends on what was there before only if it is not written. -/
theorem overwritten_eq {key : K} {r' : Reads K V}
    (h : r name key = r' name key ∨ ∃ w ∈ ws, w.1 = name ∧ w.2.1 = key) :
    overwritten r ws name key = overwritten r' ws name key := by
  induction ws generalizing r r' with
  | nil => exact h.resolve_right fun ⟨w, hw, _⟩ => nomatch hw
  | cons w rest ih =>
    refine ih ?_
    change (if w.1 = name ∧ w.2.1 = key then w.2.2 else r name key) =
      (if w.1 = name ∧ w.2.1 = key then w.2.2 else r' name key) ∨ _
    by_cases hw : w.1 = name ∧ w.2.1 = key
    · rw [if_pos hw, if_pos hw]
      exact Or.inl rfl
    · rw [if_neg hw, if_neg hw]
      refine h.imp id ?_
      rintro ⟨v, hv, hkey⟩
      rcases mem_cons.mp hv with rfl | hv
      · exact absurd hkey hw
      · exact ⟨v, hv, hkey⟩

theorem overwritten_congr {r' : Reads K V} (h : r name = r' name)
    (ws : List (String × K × Option V)) : overwritten r ws name = overwritten r' ws name := by
  funext key
  exact overwritten_eq (Or.inl (congrFun h key))

/-- Writes to all the keys of earlier writes leave nothing of these. -/
theorem overwritten_absorb {ws' : List (String × K × Option V)}
    (h : ∀ w ∈ ws, ∃ w' ∈ ws', w'.1 = w.1 ∧ w'.2.1 = w.2.1) (r : Reads K V) :
    overwritten (overwritten r ws) ws' = overwritten r ws' := by
  funext name key
  refine overwritten_eq ?_
  by_cases hkey : ∃ w ∈ ws, w.1 = name ∧ w.2.1 = key
  · obtain ⟨w, hw, rfl, rfl⟩ := hkey
    exact Or.inr (h w hw)
  · exact Or.inl (overwritten_of_unwritten (fun w hw heq => hkey ⟨w, hw, heq⟩) r)

variable [Ord K]

theorem Effects.andThen_eq (he : e.err = .none) (r : Reads K V) (f : Reads K V → Effects K V E) :
    e.andThen r f =
      { writes := e.writes ++ (f (overwritten r e.writes)).writes
        events := e.events ++ (f (overwritten r e.writes)).events
        err := (f (overwritten r e.writes)).err } := by
  unfold andThen
  rw [he]

/-- Effects one after the other succeed when both do, and write one after the other. -/
theorem Effects.andThen_err {f : Reads K V → Effects K V E} (h : (e.andThen r f).err = .none) :
    e.err = .none ∧ (f (overwritten r e.writes)).err = .none ∧
      overwritten r (e.andThen r f).writes =
        overwritten (overwritten r e.writes) (f (overwritten r e.writes)).writes := by
  cases he : e.err with
  | some err =>
    unfold andThen at h
    simp only [he] at h
    cases h
  | none =>
    rw [andThen_eq he] at h ⊢
    exact ⟨rfl, h, overwritten_append r e.writes _⟩

section

variable [TransOrd K] [LawfulEqOrd K] {c c' : Context K V E}

theorem Context.reads_put {w : String × K × Option V} (h : c.put w = .ok c') :
    c'.reads = overwritten c.reads [w] := by
  unfold Context.put at h
  cases hst : c.stores[w.1]? with
  | none =>
    rw [hst] at h
    cases h
  | some st =>
    rw [hst] at h
    cases h
    funext key k
    simp only [reads, overwritten, foldl_cons, foldl_nil, ExtTreeMap.getElem?_insert,
      LawfulEqCmp.compare_eq_iff_eq]
    by_cases hkey : w.1 = key
    · subst hkey
      simp [hst, Overlay.getElem?_put]
    · simp [hkey]

theorem Context.reads_putAll (h : c.putAll ws = .ok c') : c'.reads = overwritten c.reads ws := by
  induction ws generalizing c with
  | nil =>
    cases h
    rfl
  | cons w rest ih =>
    obtain ⟨next, hput, h⟩ := Outcomes.bind_eq_ok.mp h
    rw [ih h, reads_put hput, ← overwritten_append, singleton_append]

/-- Carrying out effects on a context overwrites its contents. -/
theorem Context.reads_apply (h : c.apply e = .ok c') : c'.reads = overwritten c.reads e.writes := by
  obtain ⟨next, hput, rfl⟩ := Outcomes.map_eq_ok.mp h
  have hreads : next.reads = overwritten c.reads e.writes := reads_putAll hput
  exact hreads

end

/-! ## Ledgers -/

/-- What a keeper answers about accounts, storage and code. -/
@[ext] structure Ledger where
  account : Address → Option Account
  state : Address → Hash → Hash
  code : Hash → Option Bytes

namespace Ledger

def setAccount (l : Ledger) (a : Address) (account : Account) : Ledger :=
  { l with account := update l.account a (some account) }

def setState (l : Ledger) (a : Address) (key value : Hash) : Ledger :=
  { l with state := update l.state a (update (l.state a) key value) }

def setCode (l : Ledger) (codeHash : Hash) (code : Option Bytes) : Ledger :=
  { l with code := update l.code codeHash code }

/-- `l'` is `l` apart from the account and the storage at `a`. -/
structure Without (a : Address) (l l' : Ledger) : Prop where
  account : ∀ b, b ≠ a → l'.account b = l.account b
  state : ∀ b, b ≠ a → l'.state b = l.state b
  code : l'.code = l.code

theorem Without.trans {l l' l'' : Ledger} (h : l.Without a l') (h' : l'.Without a l'') :
    l.Without a l'' where
  account b hb := (h'.account b hb).trans (h.account b hb)
  state b hb := (h'.state b hb).trans (h.state b hb)
  code := h'.code.trans h.code

theorem without_setAccount (l : Ledger) (a : Address) (account : Account) :
    l.Without a (l.setAccount a account) where
  account _ hb := update_of_ne hb _ _
  state _ _ := rfl
  code := rfl

end Ledger

/-- The ledger a keeper answers from. -/
def Env.ledger (env : Env K V E) (r : Reads K V) : Ledger where
  account := env.getAccount r
  state := env.getState r
  code := env.getCode r

/-- A keeper whose writes read back exactly. -/
structure Env.Lawful (env : Env K V E) : Prop where
  setAccount : ∀ r a account, (env.setAccount r a account).err = none →
    env.ledger (overwritten r (env.setAccount r a account).writes) =
      (env.ledger r).setAccount a account
  setState : ∀ r a key value,
    env.ledger (overwritten r (env.setState r a key value)) = (env.ledger r).setState a key value
  setCode : ∀ r codeHash code,
    env.ledger (overwritten r (env.setCode r codeHash code)) =
      (env.ledger r).setCode codeHash (some code)
  deleteCode : ∀ r codeHash,
    env.ledger (overwritten r (env.deleteCode r codeHash)) = (env.ledger r).setCode codeHash none
  deleteAccount : ∀ r a, (env.deleteAccount r a).err = none →
    (env.ledger r).Without a (env.ledger (overwritten r (env.deleteAccount r a).writes)) ∧
      env.getAccount (overwritten r (env.deleteAccount r a).writes) a = none

/-- The code a commit stores for an object. -/
def storedCode (code : Bytes) : Option Bytes := if code = [] then none else some code

/-- The ledger with the code of an object, if the object changed it. -/
def Ledger.storeCode (l : Ledger) (obj : StateObject) : Ledger :=
  match obj.code with
  | none => l
  | some code =>
    if obj.dirtyCode then l.setCode obj.account.codeHash (storedCode code) else l

/-- The ledger with the slots of a storage laid over those of `a`. -/
def Ledger.storeStorage (l : Ledger) (a : Address) (storage : Storage) : Ledger where
  account := l.account
  state := update l.state a (fun key => (storage[key]?).getD (l.state a key))
  code := l.code

/-- What writing an object does to a ledger. -/
structure Ledger.Wrote (obj : StateObject) (l l' : Ledger) : Prop where
  account_of_ne : ∀ b, b ≠ obj.address → l'.account b = l.account b
  state_of_ne : ∀ b, b ≠ obj.address → l'.state b = l.state b
  account : obj.selfDestructed = false → l'.account obj.address = some obj.account
  deleted : obj.selfDestructed = true → l'.account obj.address = none
  state : obj.selfDestructed = false → ∀ key,
    l'.state obj.address key = (obj.dirtyStorage[key]?).getD (l.state obj.address key)
  code_eq : l'.code = l.code ∨ ∃ code, obj.code = some code ∧
    l'.code = update l.code obj.account.codeHash (storedCode code)
  code : obj.selfDestructed = false → obj.dirtyCode = true → ∀ code, obj.code = some code →
    l'.code obj.account.codeHash = storedCode code

/-- The ledgers a commit loop passes through. -/
inductive Ledger.WroteAll (objects : FMap Address StateObject) :
    List Address → Ledger → Ledger → Prop
  | nil (l : Ledger) : WroteAll objects [] l l
  | cons {a : Address} {obj : StateObject} {rest : List Address} {l l' l'' : Ledger} :
      objects[a]? = some obj → Wrote obj l l' → WroteAll objects rest l' l'' →
      WroteAll objects (a :: rest) l l''

namespace StateDB

/-- The contents before and after a commit loop, object by object. -/
inductive Written (env : Env K V E) (objects : FMap Address StateObject) :
    List Address → Reads K V → Reads K V → Prop
  | nil (r : Reads K V) : Written env objects [] r r
  | cons {a : Address} {obj : StateObject} {rest : List Address} {r r' : Reads K V} :
      objects[a]? = some obj → (commitObject env obj r).err = none →
      Written env objects rest (overwritten r (commitObject env obj r).writes) r' →
      Written env objects (a :: rest) r r'

variable {env : Env K V E} (law : env.Lawful)
include law

omit [Ord K] in
/-- The storage loop sets the slots of the list, one after another. -/
theorem ledger_commitStorage (a : Address) (items : List (Hash × Hash)) (r : Reads K V) :
    env.ledger (overwritten r (commitStorage env a items r)) =
      items.foldl (fun l p => l.setState a p.1 p.2) (env.ledger r) := by
  induction items generalizing r with
  | nil => rfl
  | cons item rest ih =>
    rw [commitStorage_cons, overwritten_append, ih, law.setState]
    rfl

omit law in
/-- Setting the slots of a storage is seen at its account only, where it overlays the
slots before. -/
theorem foldl_setState (a : Address) (storage : Storage) (l : Ledger) :
    storage.toList.foldl (fun l p => l.setState a p.1 p.2) l = l.storeStorage a storage := by
  have hframe : ∀ (items : List (Hash × Hash)) (l : Ledger),
      (items.foldl (fun l p => l.setState a p.1 p.2) l).account = l.account ∧
      (items.foldl (fun l p => l.setState a p.1 p.2) l).code = l.code ∧
      ∀ b, b ≠ a → (items.foldl (fun l p => l.setState a p.1 p.2) l).state b = l.state b := by
    intro items
    induction items with
    | nil => exact fun l => ⟨rfl, rfl, fun _ _ => rfl⟩
    | cons item rest ih =>
      intro l
      obtain ⟨haccount, hcode, hstate⟩ := ih (l.setState a item.1 item.2)
      refine ⟨haccount, hcode, fun b hb => ?_⟩
      rw [foldl_cons, hstate b hb]
      exact update_of_ne hb _ _
  obtain ⟨haccount, hcode, hstate⟩ := hframe storage.toList l
  have hself : (storage.toList.foldl (fun l p => l.setState a p.1 p.2) l).state a =
      fun key => (storage[key]?).getD (l.state a key) := by
    funext key
    have hwalk := FMap.read_foldl
      (fun (l : Ledger) key value => l.setState a key value) (fun l => l.state a) id
      (fun l key value => by simp [Ledger.setState])
      (fun l key value key' hkey => by simp [Ledger.setState, update_of_ne hkey.symm])
      storage l key
    rw [ExtTreeMap.foldl_eq_foldl_toList] at hwalk
    refine hwalk.trans ?_
    cases storage[key]? <;> rfl
  have hall : (storage.toList.foldl (fun l p => l.setState a p.1 p.2) l).state =
      update l.state a (fun key => (storage[key]?).getD (l.state a key)) := by
    funext b
    by_cases hb : b = a
    · rw [hb, hself, update_self]
    · rw [hstate b hb, update_of_ne hb]
  exact Ledger.ext haccount hall hcode

omit [Ord K] in
/-- The code writes of an object that stays. -/
theorem ledger_commitCode (obj : StateObject) (r : Reads K V) :
    env.ledger (overwritten r (commitCode env obj r)) = (env.ledger r).storeCode obj := by
  unfold commitCode Ledger.storeCode storedCode
  cases obj.code with
  | none => rfl
  | some code =>
    simp only
    split
    · split
      · exact law.deleteCode r obj.account.codeHash
      · exact law.setCode r obj.account.codeHash code
    · rfl

variable {s : StateDB K V E}

omit law in
/-- What an object that stays writes, if its account can be set. -/
theorem commitLive_eq {r₁ r₂ : Reads K V} (hr₁ : r₁ = overwritten r (commitCode env obj r))
    (hset : (env.setAccount r₁ obj.address obj.account).err = none)
    (hr₂ : r₂ = overwritten r₁ (env.setAccount r₁ obj.address obj.account).writes) :
    (commitLive env obj r).err = none ∧
      (commitLive env obj r).writes = commitCode env obj r ++
        (env.setAccount r₁ obj.address obj.account).writes ++
        commitStorage env obj.address obj.dirtyStorage.toList r₂ := by
  have hinner : (Effects.ofWrites (commitCode env obj r)).andThen r (fun r =>
      (env.setAccount r obj.address obj.account).wrap "failed to set account") =
      { writes := commitCode env obj r ++ (env.setAccount r₁ obj.address obj.account).writes
        events := [] ++ (env.setAccount r₁ obj.address obj.account).events
        err := none } := by
    have hreads : overwritten r (Effects.ofWrites (commitCode env obj r) : Effects K V E).writes =
        r₁ := hr₁.symm
    rw [Effects.andThen_eq rfl, hreads, Effects.wrap_eq hset, hset]
    rfl
  unfold commitLive
  rw [hinner, Effects.andThen_eq rfl]
  refine ⟨rfl, ?_⟩
  change _ ++ commitStorage env obj.address _ (overwritten r (_ ++ _)) = _
  rw [overwritten_append, ← hr₁, ← hr₂]

omit law in
/-- An object that stays writes its code, its account and its dirty slots. -/
theorem commitLive_cases (h : (commitLive env obj r).err = none) :
    ∃ r₁ r₂, r₁ = overwritten r (commitCode env obj r) ∧
      (env.setAccount r₁ obj.address obj.account).err = none ∧
      r₂ = overwritten r₁ (env.setAccount r₁ obj.address obj.account).writes ∧
      overwritten r (commitLive env obj r).writes =
        overwritten r₂ (commitStorage env obj.address obj.dirtyStorage.toList r₂) := by
  obtain ⟨hfirst, -, hwrites⟩ := Effects.andThen_err h
  obtain ⟨-, hset, hwrites'⟩ := Effects.andThen_err hfirst
  refine ⟨_, _, rfl, Effects.wrap_err hset, rfl, ?_⟩
  rw [commitLive, hwrites, hwrites']
  rfl

/-- An object that stays leaves its code, its account and its dirty slots. -/
theorem ledger_commitLive (h : (commitLive env obj r).err = none) :
    env.ledger (overwritten r (commitLive env obj r).writes) =
      (((env.ledger r).storeCode obj).setAccount obj.address obj.account).storeStorage
        obj.address obj.dirtyStorage := by
  obtain ⟨r₁, r₂, rfl, hset, rfl, hwrites⟩ := commitLive_cases h
  rw [hwrites, ledger_commitStorage law, foldl_setState, law.setAccount _ _ _ hset,
    ledger_commitCode law]

omit law in
/-- A destructed object is deleted from the contents it finds, or from those with its new
code and its account. -/
theorem commitDestructed_cases (h : (commitDestructed env obj r).err = none) :
    ∃ r₁, overwritten r (commitDestructed env obj r).writes =
        overwritten r₁ (env.deleteAccount r₁ obj.address).writes ∧
      (env.deleteAccount r₁ obj.address).err = none ∧
      (r₁ = r ∧ (∀ code, obj.code = some code → obj.dirtyCode = true → code = []) ∨
        ∃ code r₀, obj.code = some code ∧ obj.dirtyCode = true ∧ code ≠ [] ∧
          r₀ = overwritten r (env.setCode r obj.account.codeHash code) ∧
          (env.setAccount r₀ obj.address obj.account).err = none ∧
          r₁ = overwritten r₀ (env.setAccount r₀ obj.address obj.account).writes) := by
  obtain ⟨hbefore, hdelete, hwrites⟩ := Effects.andThen_err h
  refine ⟨_, hwrites, Effects.wrap_err hdelete, ?_⟩
  cases hcode : obj.code with
  | none => exact Or.inl ⟨rfl, nofun⟩
  | some code =>
    simp only [hcode] at hbefore ⊢
    split at hbefore <;> rename_i hdirty
    · obtain ⟨-, hset, hwrites'⟩ := Effects.andThen_err hbefore
      rw [Bool.and_eq_true, Bool.not_eq_true', decide_eq_false_iff_not] at hdirty
      rw [if_pos (by simp [hdirty]), hwrites']
      exact Or.inr ⟨code, _, rfl, hdirty.1, hdirty.2, rfl, Effects.wrap_err hset, rfl⟩
    · rw [if_neg hdirty]
      refine Or.inl ⟨rfl, fun code' heq hdirty' => ?_⟩
      cases heq
      simpa [hdirty'] using hdirty

omit law in
/-- A destructed object without new code is deleted. -/
theorem commitDestructed_old
    (hold : ∀ code, obj.code = some code → obj.dirtyCode = true → code = []) (r : Reads K V) :
    ((commitDestructed env obj r).err = none ↔ (env.deleteAccount r obj.address).err = none) ∧
      (commitDestructed env obj r).writes = (env.deleteAccount r obj.address).writes := by
  have heq : commitDestructed env obj r = (Effects.none : Effects K V E).andThen r fun r =>
      (env.deleteAccount r obj.address).wrap
        ("failed to delete account " ++ obj.address.toHex) := by
    unfold commitDestructed
    cases hcode : obj.code with
    | none => rfl
    | some code =>
      dsimp only
      rw [if_neg]
      intro hnew
      rw [Bool.and_eq_true, Bool.not_eq_true', decide_eq_false_iff_not] at hnew
      exact hnew.2 (hold code hcode hnew.1)
  rw [heq, Effects.andThen_eq rfl]
  exact ⟨map_eq_none_iff, rfl⟩

omit law in
/-- A destructed object with new code is deleted after its code and its account are set. -/
theorem commitDestructed_new (hcode : obj.code = some code) (hdirty : obj.dirtyCode = true)
    (hne : code ≠ []) {r₀ r₁ : Reads K V}
    (hr₀ : r₀ = overwritten r (env.setCode r obj.account.codeHash code))
    (hset : (env.setAccount r₀ obj.address obj.account).err = none)
    (hr₁ : r₁ = overwritten r₀ (env.setAccount r₀ obj.address obj.account).writes) :
    ((commitDestructed env obj r).err = none ↔ (env.deleteAccount r₁ obj.address).err = none) ∧
      (commitDestructed env obj r).writes = env.setCode r obj.account.codeHash code ++
        (env.setAccount r₀ obj.address obj.account).writes ++
        (env.deleteAccount r₁ obj.address).writes := by
  have hbefore : (if obj.dirtyCode && !(code = []) then
      (Effects.ofWrites (env.setCode r obj.account.codeHash code)).andThen r fun r =>
        (env.setAccount r obj.address obj.account).wrap "failed to set account before delete"
      else Effects.none : Effects K V E) =
      { writes := env.setCode r obj.account.codeHash code ++
          (env.setAccount r₀ obj.address obj.account).writes
        events := [] ++ (env.setAccount r₀ obj.address obj.account).events
        err := none } := by
    have hreads : overwritten r
        (Effects.ofWrites (env.setCode r obj.account.codeHash code) : Effects K V E).writes = r₀ :=
      hr₀.symm
    rw [if_pos (by simp [hdirty, hne]), Effects.andThen_eq rfl, hreads, Effects.wrap_eq hset, hset]
    rfl
  unfold commitDestructed
  simp only [hcode]
  rw [hbefore, Effects.andThen_eq rfl]
  rw [overwritten_append, ← hr₀, ← hr₁]
  exact ⟨map_eq_none_iff, rfl⟩

/-- A destructed object may leave its code, and changes nothing but its own account and
storage otherwise. -/
theorem ledger_commitDestructed (h : (commitDestructed env obj r).err = none) :
    ∃ l, (l = env.ledger r ∨ ∃ code, obj.code = some code ∧
        l = (env.ledger r).setCode obj.account.codeHash (storedCode code)) ∧
      l.Without obj.address (env.ledger (overwritten r (commitDestructed env obj r).writes)) ∧
      (env.ledger (overwritten r (commitDestructed env obj r).writes)).account obj.address =
        none := by
  obtain ⟨r₁, hwrites, hdelete, hcases⟩ := commitDestructed_cases h
  have hgone := law.deleteAccount _ _ hdelete
  rw [hwrites]
  rcases hcases with ⟨rfl, -⟩ | ⟨code, r₀, hcode, -, hne, rfl, hset, rfl⟩
  · exact ⟨_, Or.inl rfl, hgone⟩
  · refine ⟨_, Or.inr ⟨code, hcode, rfl⟩, ?_⟩
    rw [storedCode, if_neg hne, ← law.setCode r obj.account.codeHash code]
    exact ⟨(Ledger.without_setAccount _ _ _).trans (law.setAccount _ _ _ hset ▸ hgone.1), hgone.2⟩

omit law in
theorem wrote_storeObject (hlive : obj.selfDestructed = false) (l : Ledger) :
    l.Wrote obj (((l.storeCode obj).setAccount obj.address obj.account).storeStorage
      obj.address obj.dirtyStorage) := by
  have hstate : (l.storeCode obj).state = l.state ∧ (l.storeCode obj).account = l.account := by
    unfold Ledger.storeCode
    split
    · exact ⟨rfl, rfl⟩
    · split <;> exact ⟨rfl, rfl⟩
  constructor
  · intro b hb
    exact (update_of_ne hb _ _).trans (congrFun hstate.2 b)
  · intro b hb
    exact (update_of_ne hb _ _).trans (congrFun hstate.1 b)
  · intro _
    exact update_self ..
  · intro hdead
    exact absurd (hlive.symm.trans hdead) Bool.false_ne_true
  · intro _ key
    refine (congrFun (update_self ..) key).trans ?_
    exact congrArg _ (congrFun (congrFun hstate.1 obj.address) key)
  · unfold Ledger.storeCode
    split
    · exact Or.inl rfl
    · rename_i code hcode
      split
      · exact Or.inr ⟨code, hcode, rfl⟩
      · exact Or.inl rfl
  · intro _ hdirty code hcode
    rw [Ledger.storeCode, hcode]
    simp only [hdirty, if_true]
    exact update_self ..

theorem commitObject_wrote (h : (commitObject env obj r).err = none) :
    (env.ledger r).Wrote obj (env.ledger (overwritten r (commitObject env obj r).writes)) := by
  unfold commitObject at h ⊢
  cases hlive : obj.selfDestructed with
  | false =>
    simp only [hlive, Bool.false_eq_true, if_false] at h ⊢
    rw [ledger_commitLive law h]
    exact wrote_storeObject hlive _
  | true =>
    simp only [hlive, if_true] at h ⊢
    obtain ⟨l, hl, hgone, hnone⟩ := ledger_commitDestructed law h
    have hsame : l.account = (env.ledger r).account ∧ l.state = (env.ledger r).state ∧
        (l.code = (env.ledger r).code ∨ ∃ code, obj.code = some code ∧
          l.code = update (env.ledger r).code obj.account.codeHash
            (storedCode code)) := by
      rcases hl with rfl | ⟨code, hcode, rfl⟩
      · exact ⟨rfl, rfl, Or.inl rfl⟩
      · exact ⟨rfl, rfl, Or.inr ⟨code, hcode, rfl⟩⟩
    obtain ⟨haccount, hstate, hcode⟩ := hsame
    have hdead : obj.selfDestructed ≠ false := by simp [hlive]
    exact
      { account_of_ne := fun b hb => (hgone.account b hb).trans (congrFun haccount b)
        state_of_ne := fun b hb => (hgone.state b hb).trans (congrFun hstate b)
        account := fun hlive' => absurd hlive' hdead
        deleted := fun _ => hnone
        state := fun hlive' => absurd hlive' hdead
        code_eq := by
          rw [hgone.code]
          exact hcode
        code := fun hlive' => absurd hlive' hdead }

omit law in
/-- The contents a commit loop passes through, if it ends without an error. -/
theorem commitAll_written (h : s.commitAll env addrs r = .ok e) (herr : e.err = none) :
    Written env s.stateObjects addrs r (overwritten r e.writes) := by
  induction addrs generalizing r e with
  | nil =>
    cases h
    exact .nil r
  | cons a rest ih =>
    unfold commitAll at h
    cases hobj : s.stateObjects[a]? with
    | none =>
      rw [hobj] at h
      cases h
    | some obj =>
      simp only [hobj] at h
      cases hfirst : (commitObject env obj r).err with
      | some err =>
        simp only [hfirst] at h
        cases h
        rw [herr] at hfirst
        cases hfirst
      | none =>
        simp only [hfirst] at h
        cases hrest : s.commitAll env rest
            (overwritten r (commitObject env obj r).writes) with
        | error p =>
          rw [hrest] at h
          cases h
        | ok e' =>
          rw [hrest] at h
          cases h
          refine .cons hobj hfirst ?_
          rw [overwritten_append]
          exact ih hrest herr

/-- A commit loop that ends without an error wrote every object of its list. -/
theorem commitAll_wroteAll (h : s.commitAll env addrs r = .ok e) (herr : e.err = none) :
    Ledger.WroteAll s.stateObjects addrs (env.ledger r) (env.ledger (overwritten r e.writes)) := by
  have hwritten := commitAll_written h herr
  generalize overwritten r e.writes = r' at hwritten
  clear h herr
  induction hwritten with
  | nil r => exact .nil _
  | cons hobj herr _ ih => exact .cons hobj (commitObject_wrote law herr) ih

end StateDB

/-! ## What a commit loop leaves -/

namespace Ledger.WroteAll

variable {objects : FMap Address StateObject} {addrs : List Address} {l l' : Ledger}

/-- Addresses that are not walked keep their account and storage. -/
theorem frame (h : WroteAll objects addrs l l')
    (haddr : ∀ (a : Address) (obj : StateObject), objects[a]? = some obj → obj.address = a)
    {b : Address} (hb : b ∉ addrs) : l'.account b = l.account b ∧ l'.state b = l.state b := by
  induction h with
  | nil l => exact ⟨rfl, rfl⟩
  | cons hobj hw _ ih =>
    rw [mem_cons, not_or] at hb
    have hne : b ≠ _ := fun heq => hb.1 (heq.trans (haddr _ _ hobj))
    obtain ⟨haccount, hstate⟩ := ih hb.2
    exact ⟨haccount.trans (hw.account_of_ne b hne), hstate.trans (hw.state_of_ne b hne)⟩

/-- A walked object that stays leaves its account and its dirty slots. -/
theorem written (h : WroteAll objects addrs l l')
    (haddr : ∀ (a : Address) (obj : StateObject), objects[a]? = some obj → obj.address = a)
    (hnodup : addrs.Nodup) (ha : a ∈ addrs) (hobj : objects[a]? = some obj)
    (hlive : obj.selfDestructed = false) :
    l'.account a = some obj.account ∧
      ∀ key, l'.state a key = (obj.dirtyStorage[key]?).getD (l.state a key) := by
  induction h with
  | nil l => cases ha
  | @cons b obj' rest l l' l'' hobj' hw hrest ih =>
    rw [nodup_cons] at hnodup
    by_cases hab : a = b
    · subst hab
      obtain rfl : obj' = obj := some.inj (hobj'.symm.trans hobj)
      obtain ⟨haccount, hstate⟩ := hrest.frame haddr hnodup.1
      rw [haccount, hstate]
      have ha := haddr a obj' hobj
      rw [← ha]
      exact ⟨hw.account hlive, hw.state hlive⟩
    · have hne : a ≠ obj'.address := fun heq => hab (heq.trans (haddr b obj' hobj'))
      obtain ⟨haccount, hstate⟩ := ih hnodup.2 (mem_of_ne_of_mem hab ha)
      refine ⟨haccount, fun key => ?_⟩
      rw [hstate key, hw.state_of_ne a hne]

end Ledger.WroteAll

/-! ## Stored code -/

namespace Ledger

variable {keccak256 : Bytes → Hash} {known : Set Bytes} {objects : FMap Address StateObject}
  {addrs : List Address} {l l' : Ledger}

/-- Every stored code is one of `known` and is stored under its hash. -/
def CodesKnown (keccak256 : Bytes → Hash) (known : Set Bytes) (l : Ledger) : Prop :=
  ∀ h code, l.code h = some code → code ∈ known ∧ keccak256 code = h

/-- The code of an object is one of `known` and goes with its hash. -/
def CodeKnown (keccak256 : Bytes → Hash) (known : Set Bytes) (obj : StateObject) : Prop :=
  ∀ code, obj.code = some code → code ∈ known ∧ keccak256 code = obj.account.codeHash

theorem storedCode_of_ne (hne : keccak256 code ≠ keccak256 []) : storedCode code = some code := by
  rw [storedCode, if_neg]
  rintro rfl
  exact hne rfl

variable (hinj : Set.InjOn keccak256 known)
include hinj

/-- Without collisions, writing an object takes no stored code away. -/
theorem Wrote.codes (hw : Wrote obj l l') (hobj : CodeKnown keccak256 known obj)
    (hl : CodesKnown keccak256 known l) :
    CodesKnown keccak256 known l' ∧
      ∀ h code, h ≠ keccak256 [] → l.code h = some code → l'.code h = some code := by
  rcases hw.code_eq with heq | ⟨code, hcode, heq⟩
  · rw [CodesKnown, heq]
    exact ⟨hl, fun _ _ _ h => h⟩
  · obtain ⟨hknown, hhash⟩ := hobj code hcode
    rw [← hhash] at heq
    constructor
    · intro h code' h'
      rw [heq] at h'
      by_cases hh : h = keccak256 code
      · rw [hh, update_self, storedCode] at h'
        split at h'
        · cases h'
        · cases h'
          exact ⟨hknown, hh.symm⟩
      · rw [update_of_ne hh] at h'
        exact hl h code' h'
    · intro h code' hne h'
      rw [heq]
      by_cases hh : h = keccak256 code
      · obtain ⟨hknown', hhash'⟩ := hl h code' h'
        obtain rfl : code' = code := hinj hknown' hknown (hhash'.trans hh)
        rw [hh] at hne ⊢
        rw [update_self, storedCode_of_ne hne]
      · rw [update_of_ne hh]
        exact h'

section

variable (h : WroteAll objects addrs l l')
  (hobjects : ∀ a ∈ addrs, ∀ obj, objects[a]? = some obj → CodeKnown keccak256 known obj)
  (hl : CodesKnown keccak256 known l)
include h hobjects hl

theorem WroteAll.codes :
    CodesKnown keccak256 known l' ∧
      ∀ h code, h ≠ keccak256 [] → l.code h = some code → l'.code h = some code := by
  induction h with
  | nil l => exact ⟨hl, fun _ _ _ h => h⟩
  | cons hobj hw _ ih =>
    obtain ⟨hl', hkeep⟩ := hw.codes hinj (hobjects _ mem_cons_self _ hobj) hl
    obtain ⟨hl'', hkeep'⟩ := ih (fun a ha => hobjects a (mem_cons_of_mem _ ha)) hl'
    exact ⟨hl'', fun h code hne hcode => hkeep' h code hne (hkeep h code hne hcode)⟩

/-- A walked object that stays leaves the code it set. -/
theorem WroteAll.written_code (ha : a ∈ addrs) (hobj : objects[a]? = some obj)
    (hlive : obj.selfDestructed = false) (hdirty : obj.dirtyCode = true)
    (hcode : obj.code = some code) (hne : obj.account.codeHash ≠ keccak256 []) :
    l'.code obj.account.codeHash = some code := by
  induction h with
  | nil l => cases ha
  | @cons b obj' rest l l' l'' hobj' hw hrest ih =>
    have hrest' := fun a ha => hobjects a (mem_cons_of_mem b ha)
    obtain ⟨hl', -⟩ := hw.codes hinj (hobjects b mem_cons_self obj' hobj') hl
    rcases mem_cons.mp ha with rfl | hmem
    · obtain rfl : obj' = obj := some.inj (hobj'.symm.trans hobj)
      obtain ⟨hknown, hhash⟩ := hobjects a mem_cons_self obj' hobj code hcode
      refine (hrest.codes hinj hrest' hl').2 _ _ hne ?_
      rw [hw.code hlive hdirty code hcode]
      exact storedCode_of_ne (hhash ▸ hne)
    · exact ih hrest' hl' hmem

end

end Ledger

end InfiniteEvm
