import InfiniteEvm.StateDB.Journaling

/-!
# Committing and precompile calls

The rest of `x/vm/statedb/statedb.go`: writing the dirty objects to the keeper, on the
context at the end of a transaction or on the cache context before and after a
precompile call, and the journal entry of a precompile call.
-/

namespace InfiniteEvm

open Std SnapshotMulti

variable {K V E : Type*} [Ord K] [TransOrd K] [DecidableEq K]

/-- `errorsmod.Wrap` of the error of an effect. -/
def Effects.wrap (e : Effects K V E) (message : String) : Effects K V E :=
  { e with err := e.err.map fun err => message ++ ": " ++ err }

/-- The writes of a list, one after another. -/
def Context.putAll (c : Context K V E) : List (String × K × Option V) →
    Except Panic (Context K V E)
  | [] => .ok c
  | w :: rest => (c.put w).bind fun c => c.putAll rest

/-- What a keeper method did, carried out on a context. -/
def Context.apply (c : Context K V E) (e : Effects K V E) : Except Panic (Context K V E) :=
  (c.putAll e.writes).map fun c => { c with events := c.events ++ e.events }

def CacheContext.putAll (c : CacheContext K V E) : List (String × K × Option V) →
    Except Panic (CacheContext K V E)
  | [] => .ok c
  | w :: rest => (c.put w).bind fun c => c.putAll rest

/-- What a keeper method or native code did, carried out on the cache context. -/
def CacheContext.apply (c : CacheContext K V E) (e : Effects K V E) :
    Except Panic (CacheContext K V E) :=
  (c.putAll e.writes).map fun c => { c with events := c.events ++ e.events }

/-- The contents of the cache context. -/
def CacheContext.reads (c : CacheContext K V E) : Reads K V := SnapshotMulti.get c.multiStore

namespace StateDB

variable (env : Env K V E)

/-- The storage loop of `commitWithCtx`. -/
def commitStorage (a : Address) : List (Hash × Hash) → Reads K V → List (String × K × Option V)
  | [], _ => []
  | (key, value) :: rest, r =>
    let writes := if (hashBytes value).length = 0 then env.deleteState r a key
      else env.setState r a key value
    writes ++ commitStorage a rest (overwritten r writes)

omit [Ord K] [TransOrd K] in
/-- A hash has 32 bytes, so that no slot is deleted: a zero is written like any other value. -/
theorem commitStorage_cons (a : Address) (item : Hash × Hash) (rest : List (Hash × Hash))
    (r : Reads K V) : commitStorage env a (item :: rest) r =
      env.setState r a item.1 item.2 ++
        commitStorage env a rest (overwritten r (env.setState r a item.1 item.2)) := by
  have hlen : (hashBytes item.2).length ≠ 0 := by simp [hashBytes]
  rw [commitStorage, if_neg hlen]

/-- The code writes of an object that stays. -/
def commitCode (obj : StateObject) (r : Reads K V) : List (String × K × Option V) :=
  match obj.code with
  | none => []
  | some code =>
    if obj.dirtyCode then
      if code = [] then env.deleteCode r obj.account.codeHash
      else env.setCode r obj.account.codeHash code
    else []

/-- One object of `commitWithCtx` that self-destructed. New code is written first, so
that `DeleteAccount` sees a contract. -/
def commitDestructed (obj : StateObject) (r : Reads K V) : Effects K V E :=
  let before : Effects K V E :=
    match obj.code with
    | none => .none
    | some code =>
      if obj.dirtyCode && !(code = []) then
        (Effects.ofWrites (env.setCode r obj.account.codeHash code)).andThen r fun r =>
          (env.setAccount r obj.address obj.account).wrap "failed to set account before delete"
      else .none
  before.andThen r fun r =>
    (env.deleteAccount r obj.address).wrap ("failed to delete account " ++ obj.address.toHex)

/-- One object of `commitWithCtx` that stays. -/
def commitLive (obj : StateObject) (r : Reads K V) : Effects K V E :=
  ((Effects.ofWrites (commitCode env obj r)).andThen r fun r =>
    (env.setAccount r obj.address obj.account).wrap "failed to set account").andThen r fun r =>
      Effects.ofWrites (commitStorage env obj.address obj.dirtyStorage.toList r)

def commitObject (obj : StateObject) (r : Reads K V) : Effects K V E :=
  if obj.selfDestructed then commitDestructed env obj r else commitLive env obj r

/-- The loop of `commitWithCtx`. A dirty address without a live object is a nil
dereference; an error ends the loop. -/
def commitAll (s : StateDB K V E) : List Address → Reads K V → Except Panic (Effects K V E)
  | [], _ => .ok .none
  | a :: rest, r =>
    match s.stateObjects[a]? with
    | none => .error .nilDereference
    | some obj =>
      let e := commitObject env obj r
      match e.err with
      | some _ => .ok e
      | none => (commitAll s rest (overwritten r e.writes)).map fun e' =>
        { writes := e.writes ++ e'.writes, events := e.events ++ e'.events, err := e'.err }

/-- `commitWithCtx` on contents `r`. The dirty addresses come in the order of their bytes. -/
def commitWithCtx (s : StateDB K V E) (r : Reads K V) : Except Panic (Effects K V E) :=
  s.commitAll env s.journal.dirties.keys r

/-- `writeCache`: the events and the stores of the cache context go to the context. -/
def writeCache (s : StateDB K V E) (c : CacheContext K V E) : StateDB K V E :=
  { s with
    ctx :=
      { stores := (SnapshotMulti.write c.multiStore).stores.map fun _ st => st.parent
        events := s.ctx.events ++ c.events }
    cache := some { c with multiStore := SnapshotMulti.write c.multiStore } }

/-- `Commit`, with its error. -/
def commit (s : StateDB K V E) : Except Panic (Option String × StateDB K V E) :=
  let s := match s.cache with
    | none => s
    | some c => s.writeCache c
  (s.commitWithCtx env s.ctx.reads).bind fun e =>
    (s.ctx.apply e).map fun ctx => (e.err, { s with ctx := ctx })

/-- The cache context `cache` makes: a snapshot store over a branch of every store, and
a new event manager. -/
def newCacheContext (ctx : Context K V E) : CacheContext K V E where
  multiStore := newStore (ctx.stores.map fun _ st => { parent := st, cache := ∅ })
  events := []

/-- `GetCacheContext`, as what it leaves behind. -/
def getCacheContext (s : StateDB K V E) : StateDB K V E :=
  match s.cache with
  | some _ => s
  | none => { s with cache := some (newCacheContext s.ctx) }

/-- The events of the cache context. -/
def cacheEvents (s : StateDB K V E) : List E :=
  match s.cache with
  | none => []
  | some c => c.events

/-- `MultiStoreSnapshot`. -/
def multiStoreSnapshot (s : StateDB K V E) : Except Panic (Int × StateDB K V E) :=
  match s.cache with
  | none => .error .nilDereference
  | some c => .ok ((SnapshotMulti.snapshot c.multiStore).2,
      { s with cache := some { c with multiStore := (SnapshotMulti.snapshot c.multiStore).1 } })

def maxPrecompileCalls : BitVec 8 := 20

/-- `AddPrecompileFn`. The entry is journaled and counted even when the limit is hit. -/
def addPrecompileFn (s : StateDB K V E) (snapshot : Int) :
    Except Panic (Option String × StateDB K V E) :=
  match s.cache with
  | none => .error .nilDereference
  | some c =>
    let s := s.append (.precompileCallChange snapshot c.events s.processedEventsCount)
    let s := { s with precompileCallsCounter := s.precompileCallsCounter + 1 }
    if maxPrecompileCalls < s.precompileCallsCounter then
      .ok (some ("max calls to precompiles (" ++ toString maxPrecompileCalls.toNat ++
        ") reached"), s)
    else .ok (none, s)

/-- `FlushToCacheCtx`. -/
def flushToCacheCtx (s : StateDB K V E) : Except Panic (Option String × StateDB K V E) :=
  match s.cache with
  | none => .error .nilDereference
  | some c =>
    (s.commitWithCtx env c.reads).bind fun e => (c.apply e).map fun c =>
      match e.err with
      | some err => (some err, { s with cache := some c })
      | none => (none, { s with cache := some c, processedEventsCount := c.events.length })

end StateDB

end InfiniteEvm
