import InfiniteEvm.Precompiles.Calls

/-!
# What runs of calls leave alone

Most operations on a state database leave its logs, the index of its transaction and the
count of precompile calls alone. A log is added with the next index, and a revert takes logs
away from the end, so that the logs stay numbered from zero in every run of calls.
-/

namespace InfiniteEvm

open Std Library UndoLog Outcomes

variable {K V : Type*} [Ord K] {txIndex : Nat} {err : Option String}

namespace StateDB

variable {E : Type*} (env : Env K V E) (s : StateDB K V E) {t : StateDB K V E} (a : Address)

/-- What the operations on accounts, storage and the cache context leave alone. -/
def still (s : StateDB K V E) : BitVec 8 × Nat × List Log :=
  (s.precompileCallsCounter, s.txIndex, s.logs)

/-- A revert leaves the counter and the index alone, and takes logs away from the end. -/
structure Reverted (s t : StateDB K V E) : Prop where
  counter : t.precompileCallsCounter = s.precompileCallsCounter
  txIndex : t.txIndex = s.txIndex
  logs : t.logs <+: s.logs

theorem Reverted.of_still {s t : StateDB K V E} (h : t.still = s.still) : Reverted s t where
  counter := congrArg Prod.fst h
  txIndex := congrArg (fun x => x.2.1) h
  logs := by
    have hlogs : t.logs = s.logs := congrArg (fun x => x.2.2) h
    rw [hlogs]

theorem Reverted.trans {s t u : StateDB K V E} (h : Reverted s t) (h' : Reverted t u) :
    Reverted s u where
  counter := h'.counter.trans h.counter
  txIndex := h'.txIndex.trans h.txIndex
  logs := h'.logs.trans h.logs

/-! ## Numbered logs -/

/-- The logs carry their own positions and the index of the transaction. -/
def NumberedLogs (txIndex : Nat) (logs : List Log) : Prop :=
  ∀ (k : Nat) log, logs[k]? = some log → log.index = k ∧ log.txIndex = txIndex

theorem NumberedLogs.of_prefix {logs logs' : List Log} (h : NumberedLogs txIndex logs)
    (hp : logs' <+: logs) : NumberedLogs txIndex logs' :=
  fun k log hk => h k log (by
    obtain ⟨rest, rfl⟩ := hp
    rw [List.getElem?_append_left (List.getElem?_eq_some_iff.mp hk).1]
    exact hk)

theorem NumberedLogs.concat {logs : List Log} (h : NumberedLogs txIndex logs) (log : Log) :
    NumberedLogs txIndex (logs ++ [{ log with txIndex := txIndex, index := logs.length }]) := by
  intro k log' hk
  rw [List.getElem?_append] at hk
  split at hk
  · exact h k log' hk
  · obtain ⟨hzero, hlog⟩ := List.getElem?_eq_some_iff.mp hk
    rw [List.length_singleton] at hzero
    obtain rfl : k = logs.length := by omega
    simp only [Nat.sub_self, List.getElem_cons_zero] at hlog
    subst hlog
    exact ⟨rfl, rfl⟩

/-- A step keeps the counter and the index, and the logs numbered. -/
structure Moved (s t : StateDB K V E) : Prop where
  counter : t.precompileCallsCounter = s.precompileCallsCounter
  txIndex : t.txIndex = s.txIndex
  logs : NumberedLogs s.txIndex s.logs → NumberedLogs s.txIndex t.logs

theorem Reverted.moved {s t : StateDB K V E} (h : Reverted s t) : Moved s t where
  counter := h.counter
  txIndex := h.txIndex
  logs hs := hs.of_prefix h.logs

theorem Moved.of_still {s t : StateDB K V E} (h : t.still = s.still) : Moved s t :=
  (Reverted.of_still h).moved

theorem Moved.trans {s t u : StateDB K V E} (h : Moved s t) (h' : Moved t u) : Moved s u where
  counter := h'.counter.trans h.counter
  txIndex := h'.txIndex.trans h.txIndex
  logs hs := by
    have ht := h'.logs
    rw [h.txIndex] at ht
    exact ht (h.logs hs)

/-! ## Operations -/

variable [TransOrd K]

theorem getStateObject_still : (s.getStateObject env a).2.still = s.still := by
  unfold getStateObject
  split
  · rfl
  · split <;> rfl

theorem createObject_still : (s.createObject env a).2.2.still = s.still := by
  have hload := getStateObject_still env s a
  unfold createObject
  generalize s.getStateObject env a = loaded at hload ⊢
  obtain ⟨prev, u⟩ := loaded
  cases prev <;> exact hload

theorem getOrNewStateObject_still : (s.getOrNewStateObject env a).2.still = s.still := by
  have hload := getStateObject_still env s a
  unfold getOrNewStateObject
  generalize s.getStateObject env a = loaded at hload ⊢
  obtain ⟨prev, u⟩ := loaded
  cases prev with
  | some obj => exact hload
  | none => exact (createObject_still env u a).trans hload

theorem addBalance_still (amount : Uint256) : (s.addBalance env a amount).2.still = s.still := by
  have hload := getOrNewStateObject_still env s a
  unfold addBalance
  dsimp only
  split <;> exact hload

theorem subBalance_still (amount : Uint256) : (s.subBalance env a amount).2.still = s.still := by
  have hload := getOrNewStateObject_still env s a
  unfold subBalance
  dsimp only
  split <;> exact hload

theorem selfDestruct_still : (s.selfDestruct env a).2.still = s.still := by
  have hload := getStateObject_still env s a
  unfold selfDestruct
  generalize s.getStateObject env a = loaded at hload ⊢
  obtain ⟨prev, u⟩ := loaded
  cases prev <;> exact hload

theorem modifyObject_still {a : Address} {f : StateObject → StateObject}
    (h : s.modifyObject env a f = .ok t) : t.still = s.still := by
  have hload := getStateObject_still env s a
  unfold modifyObject at h
  generalize s.getStateObject env a = loaded at hload h
  obtain ⟨prev, u⟩ := loaded
  cases prev with
  | none => cases h
  | some obj =>
    cases h
    exact hload

theorem undoEntry_reverted {e : JournalEntry E} (h : s.undoEntry env e = .ok t) : Reverted s t := by
  obtain ⟨u, hentry, rfl⟩ := map_eq_ok.mp h
  suffices hu : Reverted s u from ⟨hu.counter, hu.txIndex, hu.logs⟩
  cases e with
  | selfDestructChange a prev prevbalance =>
    have hload := getStateObject_still env s a
    simp only [revertEntry] at hentry
    generalize s.getStateObject env a = loaded at hload hentry
    obtain ⟨obj, v⟩ := loaded
    cases obj <;> (obtain rfl := Except.ok.inj hentry; exact .of_still hload)
  | balanceChange a prev | nonceChange a prev | storageChange a key prevalue
  | codeChange a prevcode prevhash | createContractChange a =>
    exact .of_still (modifyObject_still env s hentry)
  | addLogChange =>
    simp only [revertEntry] at hentry
    split at hentry
    · cases hentry
    · cases hentry
      exact ⟨rfl, rfl, List.dropLast_prefix _⟩
  | accessListAddSlotChange a slot =>
    obtain ⟨al, -, rfl⟩ := map_eq_ok.mp hentry
    exact .of_still rfl
  | precompileCallChange snapshot prevEvents prevProcessed =>
    simp only [revertEntry, revertMultiStore] at hentry
    split at hentry
    · cases hentry
    · split at hentry
      · cases hentry
      · cases hentry
        exact .of_still rfl
  | _ =>
    cases hentry
    exact .of_still rfl

theorem undoAll_reverted {entries : List (JournalEntry E)}
    (h : undoAll (fun e s => s.undoEntry env e) entries s = .ok t) : Reverted s t := by
  induction entries generalizing t with
  | nil =>
    cases h
    exact .of_still rfl
  | cons e rest ih =>
    obtain ⟨u, hu, ht⟩ := bind_eq_ok.mp h
    exact (ih hu).trans (undoEntry_reverted env u ht)

theorem revertToSnapshot_reverted {id : Int} (h : s.revertToSnapshot env id = .ok t) :
    Reverted s t := by
  simp only [revertToSnapshot] at h
  split at h
  · cases h
  · split at h
    · cases h
    · obtain ⟨u, hu, rfl⟩ := map_eq_ok.mp h
      obtain ⟨v, hv, rfl⟩ := map_eq_ok.mp hu
      obtain ⟨hcounter, htxIndex, hlogs⟩ := undoAll_reverted env s hv
      exact ⟨hcounter, htxIndex, hlogs⟩

/-- Every operation of the EVM keeps the logs numbered. -/
theorem step_moved {o : Op} (h : s.step env o = .ok t) : Moved s t := by
  cases o with
  | addBalance a amount =>
    cases h
    exact .of_still (addBalance_still env s a amount)
  | subBalance a amount =>
    cases h
    exact .of_still (subBalance_still env s a amount)
  | setBalance a amount | setNonce a nonce | setCode a code =>
    cases h
    exact .of_still (getOrNewStateObject_still env s a)
  | setState a key value =>
    cases h
    have hload := getOrNewStateObject_still env s a
    apply Moved.of_still
    unfold setState
    dsimp only
    split <;> exact hload
  | setTransientState a key value =>
    cases h
    apply Moved.of_still
    unfold setTransientState
    dsimp only
    split <;> rfl
  | subRefund gas =>
    simp only [step, subRefund] at h
    split at h
    · cases h
    · cases h
      exact .of_still rfl
  | createAccount a =>
    cases h
    have hnew := createObject_still env s a
    apply Moved.of_still
    unfold createAccount
    generalize s.createObject env a = created at hnew ⊢
    obtain ⟨newobj, prev, u⟩ := created
    cases prev <;> exact hnew
  | createContract a =>
    have hload := getStateObject_still env s a
    simp only [step, createContract] at h
    generalize s.getStateObject env a = loaded at hload h
    obtain ⟨obj, u⟩ := loaded
    cases obj with
    | none => cases h
    | some obj =>
      dsimp only at h
      split at h <;> (obtain rfl := Except.ok.inj h; exact .of_still hload)
  | selfDestruct a =>
    cases h
    exact .of_still (selfDestruct_still env s a)
  | selfDestruct6780 a =>
    cases h
    have hload := getStateObject_still env s a
    apply Moved.of_still
    unfold selfDestruct6780
    generalize s.getStateObject env a = loaded at hload ⊢
    obtain ⟨obj, u⟩ := loaded
    cases obj with
    | none => exact hload
    | some obj =>
      dsimp only
      split
      · exact (selfDestruct_still env u a).trans hload
      · exact hload
  | addAddressToAccessList a =>
    cases h
    apply Moved.of_still
    unfold addAddressToAccessList
    dsimp only
    split <;> rfl
  | addSlotToAccessList a slot =>
    obtain ⟨res, hadd, rfl⟩ := Outcomes.map_eq_ok.mp h
    obtain ⟨al, addrMod, slotMod⟩ := res
    cases addrMod <;> cases slotMod <;> exact .of_still rfl
  | addLog log =>
    cases h
    exact ⟨rfl, rfl, fun hs => hs.concat log⟩
  | revertToSnapshot id => exact (revertToSnapshot_reverted env s h).moved
  | loadAccount a =>
    cases h
    exact .of_still (getStateObject_still env s a)
  | loadCode a | loadState a key | loadCommittedState a key =>
    cases h
    have hload := getStateObject_still env s a
    apply Moved.of_still
    simp only [getCode, getState, getCommittedState]
    generalize s.getStateObject env a = loaded at hload ⊢
    obtain ⟨obj, u⟩ := loaded
    cases obj <;> exact hload
  | _ =>
    cases h
    exact .of_still rfl

theorem flushToCacheCtx_still [DecidableEq K] (h : s.flushToCacheCtx env = .ok (err, t)) :
    t.still = s.still := by
  have hflush : Ends (fun p => p.2.still = s.still) (fun _ => True) (s.flushToCacheCtx env) := by
    unfold flushToCacheCtx
    split
    · trivial
    · rename_i c _
      cases s.commitWithCtx env c.reads with
      | error p => trivial
      | ok e =>
        change Ends _ _ ((c.apply e).map _)
        cases c.apply e with
        | error p => trivial
        | ok c' =>
          split <;> rfl
  exact hflush.of_ok h

end StateDB

namespace StateDB

variable (env : Env K V Event) (codec : BankCodec) (s : StateDB K V Event)
  {t : StateDB K V Event}

theorem applyBankEvent_still (role key : String)
    {change : StateDB K V Event → Address → Uint256 → StateDB K V Event}
    (hchange : ∀ a amount, (change s a amount).still = s.still)
    (event : Event) : (applyBankEvent codec role key change s event).2.still =
      s.still := by
  unfold applyBankEvent
  split
  · rfl
  · split
    · rfl
    · split
      · rfl
      · exact hchange _ _

/-- The database with one more call counted. -/
def counted (s : StateDB K V Event) : StateDB K V Event :=
  { s with precompileCallsCounter := s.precompileCallsCounter + 1 }

theorem addPrecompileFn_still {snapshot : Int} (h : s.addPrecompileFn snapshot = .ok (err, t)) :
    t.still = s.counted.still := by
  unfold addPrecompileFn at h
  split at h
  · cases h
  · dsimp only at h
    split at h <;>
    · obtain rfl := congrArg Prod.snd (Except.ok.inj h)
      rfl

variable [TransOrd K]

theorem native_still {e : Effects K V Event} (h : s.native e = .ok t) : t.still = s.still := by
  unfold native at h
  split at h
  · cases h
  · rename_i c _
    obtain ⟨c', happly, rfl⟩ := Outcomes.map_eq_ok.mp h
    rfl

theorem handleEvents_still (idx : Nat) (events : List Event) :
    (s.handleEvents env codec idx events).2.still =
      s.still := by
  induction events generalizing s idx with
  | nil => rfl
  | cons event rest ih =>
    have hone : (s.handleEvent env codec event).2.still = s.still := by
      unfold handleEvent
      split
      · apply applyBankEvent_still codec s
        exact fun a amount => subBalance_still env s a amount
      · split
        · apply applyBankEvent_still codec s
          exact fun a amount => addBalance_still env s a amount
        · rfl
    unfold handleEvents
    split
    · exact ih s (idx + 1)
    · generalize s.handleEvent env codec event = res at hone
      obtain ⟨err, u⟩ := res
      cases err with
      | some err => exact hone
      | none => exact (ih u (idx + 1)).trans hone

theorem afterBalanceChange_still {prevEventsLen : Nat}
    (h : s.afterBalanceChange env codec prevEventsLen = .ok (err, t)) : t.still = s.still := by
  unfold afterBalanceChange at h
  split at h
  · cases h
  · rename_i c _
    split at h
    · cases h
    · have ht := congrArg Prod.snd (Except.ok.inj h)
      calc t.still
          = (s.handleEvents env codec prevEventsLen
              (c.events.drop prevEventsLen)).2.still :=
            congrArg still ht.symm
        _ = s.still := handleEvents_still env codec s _ _

theorem beginNative_still [DecidableEq K] (h : s.beginNative env = .ok (err, t)) :
    t.still = s.counted.still := by
  obtain ⟨⟨snapshot, u⟩, hu, hrest⟩ := bind_eq_ok.mp h
  obtain ⟨⟨err', v⟩, hv, hflush⟩ := bind_eq_ok.mp hrest
  have hentered : u.still = s.still := by
    unfold multiStoreSnapshot getCacheContext at hu
    split at hu
    · cases hu
    · obtain rfl := congrArg Prod.snd (Except.ok.inj hu)
      cases s.cache <;> rfl
  have hcounted : u.counted.still = s.counted.still := by
    obtain ⟨hcounter, hothers⟩ := Prod.mk.inj hentered
    exact Prod.ext (congrArg (· + 1) hcounter) hothers
  have hadded := (addPrecompileFn_still u hv).trans hcounted
  cases err' with
  | some message =>
    obtain rfl := congrArg Prod.snd (Except.ok.inj hflush)
    exact hadded
  | none => exact (flushToCacheCtx_still env v hflush).trans hadded

end StateDB

/-! ## Runs of calls -/

namespace Config

open StateDB

variable [TransOrd K] (env : Env K V Event) (codec : BankCodec) (cfg : Config K V)
  {cfg' : Config K V} {saved : StateDB K V Event} {rest : List (Frame K V)}

theorem fail_moved {db : StateDB K V Event} (h : fail env saved db rest = .ok cfg') :
    Moved db cfg'.db := by
  obtain ⟨t, ht, rfl⟩ := map_eq_ok.mp h
  exact (revertToSnapshot_reverted env db ht).moved

theorem orFail_moved {stack : List (Frame K V)} {p : Option String × StateDB K V Event}
    (h : orFail env saved rest stack p = .ok cfg') : Moved p.2 cfg'.db := by
  obtain ⟨err, db⟩ := p
  cases err with
  | some err => exact fail_moved env h
  | none =>
    cases h
    exact .of_still rfl

variable [DecidableEq K]

/-- A precompile call is counted, also if it then fails. -/
theorem step_call_moved {handled : Bool} (hstack : cfg.stack = .evm saved :: rest)
    (h : cfg.step env codec (.call handled) = .ok cfg') : Moved cfg.db.counted cfg'.db := by
  simp only [step, hstack] at h
  obtain ⟨⟨err, u⟩, hbegin, hrest⟩ := bind_eq_ok.mp h
  have hu := beginNative_still env cfg.db hbegin
  cases err with
  | some err => exact (Moved.of_still hu).trans (fail_moved env hrest)
  | none =>
    cases hrest
    exact .of_still hu

/-- Nothing else changes the count. -/
theorem step_moved {action : Action K V}
    (hcall : ∀ handled saved rest, action = .call handled → cfg.stack ≠ .evm saved :: rest)
    (h : cfg.step env codec action = .ok cfg') : Moved cfg.db cfg'.db := by
  obtain ⟨stack, s⟩ := cfg
  cases action with
  | op o plain =>
    simp only [step] at h
    split at h
    · obtain ⟨t, ht, rfl⟩ := map_eq_ok.mp h
      exact StateDB.step_moved env s ht
    · cases h
      exact .of_still rfl
  | call handled =>
    simp only [step] at h
    split at h
    · exact absurd rfl (hcall _ _ _ rfl)
    · cases h
      exact .of_still rfl
  | revert depth =>
    simp only [step] at h
    split at h
    · exact fail_moved env h
    · cases h
      exact .of_still rfl
  | native e =>
    simp only [step] at h
    split at h
    · obtain ⟨t, ht, rfl⟩ := map_eq_ok.mp h
      exact .of_still (native_still s ht)
    · cases h
      exact .of_still rfl
  | applied commit =>
    simp only [step] at h
    split at h
    · split at h
      · obtain ⟨⟨err, t⟩, ht, hrest⟩ := bind_eq_ok.mp h
        exact (Moved.of_still (flushToCacheCtx_still env s ht)).trans (orFail_moved env hrest)
      · cases h
        exact .of_still rfl
    · cases h
      exact .of_still rfl
  | finish =>
    simp only [step] at h
    split at h
    · cases h
      exact .of_still rfl
    · obtain ⟨⟨err, t⟩, ht, hrest⟩ := bind_eq_ok.mp h
      exact (Moved.of_still (afterBalanceChange_still env codec s ht)).trans
        (orFail_moved env hrest)
    · cases h
      exact .of_still rfl
  | _ =>
    simp only [step] at h
    split at h <;> (obtain rfl := Except.ok.inj h; exact .of_still rfl)

/-- The logs of a database are numbered from zero throughout a run of calls, and carry the
index of its transaction. -/
theorem run_numbered {ctx : Context K V Event} {actions : List (Action K V)}
    (h : (init ctx txIndex).run env codec actions = some cfg) :
    NumberedLogs txIndex cfg.db.logs := by
  have hinv := Runs.run_invariant
    (fun cfg : Config K V => cfg.db.txIndex = txIndex ∧ NumberedLogs txIndex cfg.db.logs)
    (fun _ => True) ?_ (fun _ _ => trivial) ?_ h
  · exact hinv.2
  · rintro cfg action cfg' - ⟨htxIndex, hlogs⟩ hstep
    have hok := toOption_eq_some.mp hstep
    -- a counted call differs from the others in the counter only
    have hmoved : cfg'.db.txIndex = cfg.db.txIndex ∧
        (NumberedLogs cfg.db.txIndex cfg.db.logs → NumberedLogs cfg.db.txIndex cfg'.db.logs) := by
      by_cases hcall : ∃ handled saved rest, action = .call handled ∧ cfg.stack = .evm saved :: rest
      · obtain ⟨handled, saved, rest, rfl, hstack⟩ := hcall
        obtain ⟨-, htx, hnumbered⟩ := step_call_moved env codec cfg hstack hok
        exact ⟨htx, hnumbered⟩
      · obtain ⟨-, htx, hnumbered⟩ := step_moved env codec cfg
          (fun handled saved rest ha hstack => hcall ⟨handled, saved, rest, ha, hstack⟩) hok
        exact ⟨htx, hnumbered⟩
    rw [htxIndex] at hmoved
    exact ⟨hmoved.1, hmoved.2 hlogs⟩
  · exact ⟨rfl, fun k log hk => by simp [init, StateDB.new] at hk⟩

end Config

end InfiniteEvm
