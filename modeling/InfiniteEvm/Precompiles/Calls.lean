import InfiniteEvm.Precompiles.BalanceHandler
import InfiniteEvm.StateDB.Revert

/-!
# Precompile calls on one state database

`runNativeAction` of `precompiles/common/precompile.go` and the EVM calls around and
inside it, as a machine over the state database with a stack of open calls. An EVM call
takes a snapshot and reverts to it when it fails. A precompile call runs inside an EVM
call; its native code writes to the cache context and may apply further messages to the
same database.
-/

namespace InfiniteEvm

open Std Library SnapshotMulti

variable {K V : Type*} [Ord K] [TransOrd K] [DecidableEq K]

namespace StateDB

variable (env : Env K V Event)

/-- The part of `runNativeAction` before the action: enter the cache context, journal the
call and flush the database. -/
def beginNative (s : StateDB K V Event) : Except Panic (Option String × StateDB K V Event) :=
  s.getCacheContext.multiStoreSnapshot.bind fun (snapshot, s) =>
    (s.addPrecompileFn snapshot).bind fun
      | (some err, s) => .ok (some err, s)
      | (none, s) => s.flushToCacheCtx env

/-- What native code did, carried out on the cache context. -/
def native (s : StateDB K V Event) (e : Effects K V Event) : Except Panic (StateDB K V Event) :=
  match s.cache with
  | none => .error .nilDereference
  | some c => (c.apply e).map fun c => { s with cache := some c }

end StateDB

/-- An open call. -/
inductive Frame (K : Type*) [Ord K] (V : Type*)
  /-- An EVM call, with the database it took its snapshot of. -/
  | evm (saved : StateDB K V Event)
  /-- A message that native code applies with `callFromPrecompile`. -/
  | message
  /-- A precompile call, with the events its balance handler skips, if it has one. -/
  | native (prevEventsLen : Option Nat)

/-- The open calls, innermost first, and the database. -/
structure Config (K : Type*) [Ord K] (V : Type*) where
  stack : List (Frame K V)
  db : StateDB K V Event

/-- What can happen next. -/
inductive Action (K V : Type*)
  /-- An operation of the EVM on the database. -/
  | op (o : StateDB.Op) (plain : o.Plain)
  /-- An EVM call begins. -/
  | enter
  /-- The innermost EVM call returns. -/
  | leave
  /-- The EVM call at this depth of the stack fails, and with it every call inside. -/
  | revert (depth : Nat)
  /-- The innermost EVM call runs a precompile, with a balance handler or without. -/
  | call (handled : Bool)
  /-- Native code writes to the cache context and emits events. -/
  | native (effects : Effects K V Event)
  /-- Native code applies a message. -/
  | apply
  /-- `ApplyMessage` returns, after flushing if it was to commit. -/
  | applied (commit : Bool)
  /-- The action of a precompile returns without an error. -/
  | finish

namespace Config

variable (env : Env K V Event) (codec : BankCodec)

/-- A new database, before any call. -/
def init (ctx : Context K V Event) (txIndex : Nat) : Config K V where
  stack := []
  db := StateDB.new ctx txIndex

/-- The EVM runs, and not native code. -/
def evmRuns (cfg : Config K V) : Bool :=
  match cfg.stack with
  | .native _ :: _ => false
  | _ => true

/-- Fail the EVM call that took its snapshot of `saved`. -/
def fail (saved db : StateDB K V Event) (rest : List (Frame K V)) : Except Panic (Config K V) :=
  (db.revertToSnapshot env saved.snapshot.1).map fun db => { stack := rest, db := db }

/-- Go on with `stack`, or fail the EVM call on an error. -/
def orFail (saved : StateDB K V Event) (rest stack : List (Frame K V)) :
    Option String × StateDB K V Event → Except Panic (Config K V)
  | (some _, db) => fail env saved db rest
  | (none, db) => .ok { stack := stack, db := db }

/-- The next configuration. An action that the open calls do not allow does nothing. -/
def step (cfg : Config K V) : Action K V → Except Panic (Config K V)
  | .op o _ =>
    if cfg.evmRuns then (cfg.db.step env o).map fun db => { cfg with db := db } else .ok cfg
  | .enter =>
    if cfg.evmRuns then .ok { stack := .evm cfg.db :: cfg.stack, db := cfg.db.snapshot.2 }
    else .ok cfg
  | .leave =>
    match cfg.stack with
    | .evm _ :: rest => .ok { cfg with stack := rest }
    | _ => .ok cfg
  | .revert depth =>
    match cfg.stack.drop depth with
    | .evm saved :: rest => fail env saved cfg.db rest
    | _ => .ok cfg
  | .call handled =>
    match cfg.stack with
    | .evm saved :: rest => (cfg.db.beginNative env).bind fun
        | (some _, db) => fail env saved db rest
        | (none, db) => .ok
            { stack := .native (if handled then some db.cacheEvents.length else none) ::
                .evm saved :: rest
              db := db }
    | _ => .ok cfg
  | .native e =>
    match cfg.stack with
    | .native _ :: _ => (cfg.db.native e).map fun db => { cfg with db := db }
    | _ => .ok cfg
  | .apply =>
    match cfg.stack with
    | .native _ :: _ => .ok { cfg with stack := .message :: cfg.stack }
    | _ => .ok cfg
  | .applied commit =>
    match cfg.stack with
    | .message :: .native prev :: .evm saved :: rest =>
      if commit then (cfg.db.flushToCacheCtx env).bind
        (orFail env saved rest (.native prev :: .evm saved :: rest))
      else .ok { cfg with stack := .native prev :: .evm saved :: rest }
    | _ => .ok cfg
  | .finish =>
    match cfg.stack with
    | .native none :: .evm saved :: rest => .ok { cfg with stack := .evm saved :: rest }
    | .native (some prevEventsLen) :: .evm saved :: rest =>
      (cfg.db.afterBalanceChange env codec prevEventsLen).bind
        (orFail env saved rest (.evm saved :: rest))
    | _ => .ok cfg

/-- The configuration after a list of actions, if none of them panics. -/
def run (cfg : Config K V) (actions : List (Action K V)) : Option (Config K V) :=
  Runs.run (fun cfg action => (cfg.step env codec action).toOption) cfg actions

end Config

end InfiniteEvm
