import InfiniteEvm.Precompiles.HandledBalances
import InfiniteEvm.VM.KeeperLedger

/-!
# Balances of the bank and of the state database

Native code moves coins in the cache context only. The flush before a precompile call
makes the bank agree with the state database, and the handler after it brings the
database up to date with the events of the call. A flush also counts as processed the
events of the enclosing call that the handler has not seen yet. Balances agree after
every call if no message is applied while such events are open.
-/

namespace InfiniteEvm

open Std Library SnapshotMulti UndoLog Outcomes VM Option

variable {K V ι M : Type*} [Ord K] [TransOrd K] [LawfulEqOrd K] [DecidableEq K] [DecidableEq ι]
variable {env : Env K V Event} {codec : BankCodec} {books : Books K V ι M} {action : Action K V}

/-- The book has the balances of the database and the changes that events report which
are not processed. -/
def Observation.Owes (codec : BankCodec) (books : Books K V ι M) (o : Observation K V Event) :
    Prop :=
  ∀ a, o.Stays a → books.entry o.contents (books.key a) = books.value (o.balance a +
    BitVec.ofInt 256 (handledSum codec (o.cacheEvents.drop o.processedEventsCount) a))

namespace StateDB

variable {s t : StateDB K V Event}

/-- A precompile call begins with a flush, of a database that differs in its journal. -/
theorem beginNative_flushed (hs : Valid env s) (h : s.beginNative env = .ok (none, t)) :
    ∃ u, Called env Set.univ s.getCacheContext u ∧
      (u.observe env).contents = (s.getCacheContext.observe env).contents ∧
      (∃ c, s.getCacheContext.cache = some c ∧
        u.cache = some { c with multiStore := (SnapshotMulti.snapshot c.multiStore).1 }) ∧
      u.stateObjects = s.getCacheContext.stateObjects ∧
      u.journal.dirties = s.getCacheContext.journal.dirties ∧
      u.flushToCacheCtx env = .ok (none, t) := by
  have hvalid := getCacheContext_valid hs
  obtain ⟨c, hc⟩ : ∃ c, s.getCacheContext.cache = some c := by
    unfold StateDB.getCacheContext
    split
    · exact ⟨_, ‹_›⟩
    · exact ⟨_, rfl⟩
  obtain ⟨err, u, hcall, (hcalled : Called env Set.univ s.getCacheContext u), -, huc, hobjects,
    hdirties⟩ := addPrecompileFn_called hvalid hc
  rw [beginNative_eq, hcall] at h
  cases err with
  | some message => cases h
  | none =>
    refine ⟨u, hcalled, ?_, ⟨c, hc, huc⟩, hobjects, hdirties, h⟩
    rw [contents_of_cache huc, contents_of_cache hc]
    exact get_snapshot (hvalid.good.cache c hc)

/-- A precompile call begins with balances that agree. -/
theorem beginNative_settled (hbook : Booked env books) (law : env.Lawful)
    (hkey : Function.Injective books.key) (hs : Valid env s)
    (hagrees : (s.observe env).Agrees books) (h : s.beginNative env = .ok (none, t)) :
    (t.observe env).Settled books ∧ t.processedEventsCount = t.cacheEvents.length := by
  obtain ⟨u, hcalled, hcontents, -, -, -, hflush⟩ := beginNative_flushed hs h
  refine flush_settled hbook law hkey hcalled.inside.valid ?_ hflush
  exact (getCacheContext_agrees hagrees).recorded hcalled.inside.recorded hcontents

/-! ## The handler -/

/-- After the handler the database has the balances of the book. -/
theorem afterBalanceChange_settled (hs : Valid env s) {prev : Nat}
    (howes : (s.observe env).Owes codec books) (hprev : prev ≤ s.processedEventsCount)
    (h : s.afterBalanceChange env codec prev = .ok (none, t)) :
    (t.observe env).Settled books ∧ t.cache ≠ none := by
  obtain ⟨c, hc, hres⟩ := afterBalanceChange_cases h
  have hfollows := afterBalanceChange_follows hs.toSound h
  obtain ⟨hbalance, hdead⟩ := handleEvents_balance hs.toSound prev (c.events.drop prev)
    (congrArg Prod.fst hres).symm
  rw [← congrArg Prod.snd hres] at hbalance hdead
  rw [List.drop_drop, Nat.add_sub_cancel' hprev] at hbalance
  have hcache : t.cache = some c := hfollows.cache.1.trans hc
  refine ⟨fun a ha => ?_, hcache ▸ some_ne_none c⟩
  have hstays : (s.observe env).Stays a := by
    intro hmem
    rw [← hdead]
    exact ha (hfollows.recorded.invariant (fun x => a ∈ x.2.dirties)
      (fun _ _ _ _ hx hchange => by
        obtain ⟨y, -, rfl⟩ := hchange
        exact Dirties.mem_mark _ hx) hmem)
  have hevents : s.cacheEvents = c.events := by
    rw [cacheEvents, hc]
  rw [hbalance a, contents_congr hfollows.cache.1 hfollows.ctx_eq, howes a hstays, ← hevents]
  rfl

end StateDB

/-! ## Transfers -/

/-- The event reports `amount` for the account `a`, under `key`. -/
structure Event.Reports (codec : BankCodec) (event : Event) (type key : String) (a : Address)
    (amount : Uint256) : Prop where
  type_eq : event.type = type
  address : parseAddress codec event key = .ok (addressBytes a)
  amount_eq : parseAmount codec event = .ok amount

/-- What native code does is reported by its events. -/
def Reported (codec : BankCodec) (books : Books K V ι M) (r : Reads K V) (e : Effects K V Event) :
    Prop :=
  ∀ a balance, books.entry r (books.key a) = books.value balance →
    books.entry (overwritten r e.writes) (books.key a) =
      books.value (balance + BitVec.ofInt 256 (handledSum codec e.events a))

/-- What native code does between two calls: it moves no coins, or it transfers coins
between two accounts that are not blocked, with one spent and one received event. -/
inductive Moves (codec : BankCodec) (bank : Reads K V → Address → Uint256) (r : Reads K V)
    (e : Effects K V Event) : Prop
  | quiet : e.events.filter Event.isBank = [] → bank (overwritten r e.writes) = bank r →
      Moves codec bank r e
  | transfer (a b : Address) (amount : Uint256) (spent received : Event) :
      e.events.filter Event.isBank = [spent, received] →
      spent.Reports codec eventTypeCoinSpent attributeKeySpender a amount →
      received.Reports codec eventTypeCoinReceived attributeKeyReceiver b amount →
      codec.blockedAddr (addressBytes a) = false → codec.blockedAddr (addressBytes b) = false →
      (∀ x, bank (overwritten r e.writes) x =
        bank r x - (if a = x then amount else 0) + if b = x then amount else 0) →
      Moves codec bank r e

theorem bytesToAddress_addressBytes (a : Address) : bytesToAddress (addressBytes a) = a := by
  have hlt : a.toNat < 256 ^ 20 := a.isLt
  rw [bytesToAddress, addressBytes, BigEndian.ofBytes_toBytes, Nat.mod_eq_of_lt hlt,
    BitVec.ofNat_toNat, BitVec.setWidth_eq]

variable {bank : Reads K V → Address → Uint256} {e : Effects K V Event} {ctx : Context K V Event}

/-- The events of native code report what it moves. -/
theorem reported_of_moves {r : Reads K V} (h : Moves codec bank r e) :
    Reported codec (.plain bank) r e := by
  intro x balance hx
  change bank (overwritten r e.writes) x = balance + BitVec.ofInt 256 (handledSum codec e.events x)
  rw [handledSum, ← reportedSum_filter, ← show bank r x = balance from hx]
  cases h with
  | quiet hnone hsame =>
    rw [hnone, hsame]
    exact (BitVec.add_zero _).symm
  | transfer a b amount spent received hevents hspent hreceived hfrom hto hmoved =>
    have hout : reported codec spent = some (addressBytes a, -1 * (amount.toNat : Int)) := by
      simp [reported, reportedSide, hspent.type_eq, hspent.address, hspent.amount_eq, hfrom]
    have hin : reported codec received = some (addressBytes b, 1 * (amount.toNat : Int)) := by
      have hne : eventTypeCoinReceived ≠ eventTypeCoinSpent := by decide
      simp [reported, reportedSide, hreceived.type_eq, hreceived.address, hreceived.amount_eq,
        hto, hne]
    have hnil : reportedSum codec [] (fun addr => bytesToAddress addr = x) = 0 := rfl
    have hneg : -(if a = x then amount else 0) = if a = x then -amount else 0 := by
      split
      · rfl
      · exact BitVec.neg_zero 256
    rw [hmoved x, hevents, reportedSum_cons, reportedSum_cons, hnil, hout, hin, Int.add_zero,
      BitVec.ofInt_add, changeIn, changeIn, bytesToAddress_addressBytes,
      bytesToAddress_addressBytes, apply_ite (BitVec.ofInt 256), apply_ite (BitVec.ofInt 256),
      ofInt_amount, ofInt_neg_amount, BitVec.sub_eq_add_neg, hneg, BitVec.add_assoc]
    rfl

/-- Native code that moves coins owes the database what its events report. -/
theorem StateDB.native_owes {s t : StateDB K V Event} (hs : Valid env s)
    (howes : (s.observe env).Owes codec books)
    (hcount : s.processedEventsCount ≤ s.cacheEvents.length)
    (hreported : ∀ c, s.cache = some c → Reported codec books c.reads e) (h : s.native e = .ok t) :
    (t.observe env).Owes codec books ∧ t.processedEventsCount = s.processedEventsCount ∧
      s.cacheEvents.length ≤ t.cacheEvents.length := by
  obtain ⟨c, k, hc, hk, rfl⟩ := native_cases h
  obtain ⟨-, hreads, hevents⟩ := CacheContext.apply_above (hs.good.cache c hc) hk
  have hold : s.cacheEvents = c.events := by
    rw [StateDB.cacheEvents, hc]
  rw [hold] at hcount
  refine ⟨fun a ha => ?_, rfl, ?_⟩
  · have hbefore := howes a ha
    rw [contents_of_cache hc, show (s.observe env).cacheEvents = c.events from hold] at hbefore
    change books.entry k.reads (books.key a) = books.value ((s.observe env).balance a +
      BitVec.ofInt 256 (handledSum codec (k.events.drop s.processedEventsCount) a))
    rw [hreads, hreported c hc a _ hbefore, hevents, List.drop_append_of_le_length hcount,
      handledSum, handledSum, handledSum, reportedSum_append, BitVec.ofInt_add, ← BitVec.add_assoc]
    rfl
  · rw [hold]
    change _ ≤ k.events.length
    rw [hevents, List.length_append]
    exact Nat.le_add_right _ _

/-! ## Runs -/

namespace Config

open StateDB

variable {cfg cfg' : Config K V} {n : Nat}

/-- The actions considered: every precompile has a balance handler, native code does only
what `native` allows on the contents it finds, and messages are applied to commit. -/
def Considered (native : Reads K V → Effects K V Event → Prop) (cfg : Config K V) :
    Action K V → Prop
  | .call handled => handled = true
  | .native e => ∀ c, cfg.db.cache = some c → native c.reads e
  | .applied commit => commit = true
  | _ => True

/-- No message is applied while bank events wait for the handler. -/
def Handled (cfg : Config K V) : Action K V → Prop
  | .apply => (cfg.db.cacheEvents.drop cfg.db.processedEventsCount).filter Event.isBank = []
  | _ => True

/-- The configurations of runs on a new database in which no message is applied while bank
events wait for the handler. -/
inductive Reaches (env : Env K V Event) (codec : BankCodec)
    (native : Reads K V → Effects K V Event → Prop) (ctx : Context K V Event) (txIndex : Nat) :
    Config K V → Prop
  | init : Reaches env codec native ctx txIndex (init ctx txIndex)
  | step {cfg cfg' : Config K V} {action : Action K V} : Reaches env codec native ctx txIndex cfg →
      Considered native cfg action → Handled cfg action →
      cfg.step env codec action = .ok cfg' → Reaches env codec native ctx txIndex cfg'

/-- Every open EVM call began with balances that agree, and runs inside no native code
directly. Every open precompile call has a handler. -/
def Nested (env : Env K V Event) (books : Books K V ι M) : List (Frame K V) → Prop
  | [] => True
  | .evm saved :: rest => (saved.observe env).Agrees books ∧
      evmRuns { stack := rest, db := saved } = true ∧ Nested env books rest
  | .message :: rest => Nested env books rest
  | .native prev :: rest => prev ≠ none ∧ Nested env books rest

theorem Nested.drop {stack : List (Frame K V)} (h : Nested env books stack) (depth : Nat) :
    Nested env books (stack.drop depth) := by
  induction depth generalizing stack with
  | zero => exact h
  | succ depth ih =>
    cases stack with
    | nil => exact h
    | cons f rest =>
      cases f with
      | evm saved => exact ih h.2.2
      | message => exact ih h
      | native prev => exact ih h.2

/-- The balances in the innermost call: the bank is ahead of the database by the events
that wait for the handler, and agrees with it while the EVM runs. -/
def Top (env : Env K V Event) (codec : BankCodec) (books : Books K V ι M)
    (cfg : Config K V) : Prop :=
  match cfg.stack with
  | .native prev :: _ => (cfg.db.observe env).Owes codec books ∧
      (∀ k, prev = some k → k ≤ cfg.db.processedEventsCount) ∧
      cfg.db.processedEventsCount ≤ cfg.db.cacheEvents.length
  | _ => (cfg.db.observe env).Agrees books

theorem top_of_agrees (hruns : cfg.evmRuns = true) (h : (cfg.db.observe env).Agrees books) :
    cfg.Top env codec books := by
  unfold Top
  unfold evmRuns at hruns
  split
  · rename_i heq
    simp only [heq, Bool.false_eq_true] at hruns
  · exact h

theorem Top.agrees (h : cfg.Top env codec books) (hruns : cfg.evmRuns = true) :
    (cfg.db.observe env).Agrees books := by
  unfold Top at h
  unfold evmRuns at hruns
  split at h
  · rename_i heq
    simp only [heq, Bool.false_eq_true] at hruns
  · exact h

/-- What every step of a considered run keeps. -/
structure Balanced (env : Env K V Event) (codec : BankCodec) (books : Books K V ι M) (n : Nat)
    (cfg : Config K V) : Prop where
  opened : cfg.Open env n
  nested : Nested env books cfg.stack
  top : cfg.Top env codec books

/-- After a flush nothing waits for the handler. -/
theorem top_of_settled {db : StateDB K V Event} {prev : Option Nat} {rest : List (Frame K V)}
    (hopen : Framed env n (.native prev :: rest) db)
    (h : (db.observe env).Settled books ∧ db.processedEventsCount = db.cacheEvents.length) :
    Top env codec books { stack := .native prev :: rest, db := db } := by
  obtain ⟨hsettled, hcount⟩ := h
  obtain ⟨-, hprev, -⟩ := hopen
  refine ⟨fun a ha => ?_, fun k hk => hcount ▸ hprev k hk, Nat.le_of_eq hcount⟩
  have hnil : (db.observe env).cacheEvents.drop (db.observe env).processedEventsCount = [] :=
    List.drop_of_length_le (Nat.le_of_eq hcount.symm)
  rw [hnil, ← hsettled a ha]
  exact congrArg books.value (BitVec.add_zero _).symm

section Step

variable (hbook : Booked env books) (law : env.Lawful) (hkey : Function.Injective books.key)
  {native : Reads K V → Effects K V Event → Prop}
  (hnative : ∀ r e, native r e → Reported codec books r e)
include hbook law hkey hnative

theorem step_balanced (hcfg : cfg.Balanced env codec books n)
    (hconsidered : Considered native cfg action) (hhandled : Handled cfg action)
    (h : cfg.step env codec action = .ok cfg') : cfg'.Balanced env codec books n := by
  have hopen' : cfg'.Open env n := (step_safe codec hcfg.opened action).of_ok h
  have hstepped := stepped_of_step hcfg.opened h
  obtain ⟨hopen, hnested, htop⟩ := hcfg
  obtain ⟨stack, s⟩ := cfg
  have hvalid : Valid env s := Framed.valid hopen
  suffices hkeeps : Nested env books cfg'.stack ∧ cfg'.Top env codec books from
    ⟨hopen', hkeeps.1, hkeeps.2⟩
  cases hstepped with
  | idle => exact ⟨hnested, htop⟩
  | @op o plain t hruns hs =>
    have hf := step_follows_of_ok hvalid.toSound plain hs
    exact ⟨hnested, top_of_agrees hruns (follows_agrees (htop.agrees hruns) hf)⟩
  | enter hruns =>
    have hagrees := htop.agrees hruns
    exact ⟨⟨hagrees, hruns, hnested⟩, hagrees⟩
  | leave hstack =>
    obtain rfl : stack = _ := hstack
    obtain ⟨-, hruns, hrest⟩ := hnested
    exact ⟨hrest, top_of_agrees hruns htop⟩
  | @fail _ depth saved u rest hstack hobs =>
    have hinner := hnested.drop depth
    rw [hstack] at hinner
    obtain ⟨hagrees, hruns, hrest⟩ := hinner
    refine ⟨hrest, top_of_agrees hruns ?_⟩
    rcases hobs with hobs | hobs
    · rw [hobs]
      exact hagrees
    · rw [hobs]
      exact getCacheContext_agrees hagrees
  | call hstack hres =>
    obtain rfl : stack = _ := hstack
    obtain rfl : _ = true := hconsidered
    exact ⟨⟨some_ne_none _, hnested⟩,
      top_of_settled hopen' (beginNative_settled hbook law hkey hvalid htop hres)⟩
  | native hstack hres =>
    obtain rfl : stack = _ := hstack
    obtain ⟨howes, hprev, hcount⟩ := htop
    obtain ⟨howes', hcount', hlen⟩ :=
      native_owes hvalid howes hcount (fun c hc => hnative _ _ (hconsidered c hc)) hres
    refine ⟨hnested, howes', ?_, ?_⟩
    · intro k hk
      exact hcount' ▸ hprev k hk
    · exact hcount' ▸ hcount.trans hlen
  | apply hstack =>
    obtain rfl : stack = _ := hstack
    obtain ⟨howes, -, -⟩ := htop
    refine ⟨hnested, ?_⟩
    intro a ha
    have hsum := howes a fun hmem => absurd hmem ha
    have hnone : (s.cacheEvents.drop s.processedEventsCount).filter Event.isBank = [] := hhandled
    rw [handledSum, ← reportedSum_filter, show (s.observe env).cacheEvents.drop (s.observe
      env).processedEventsCount = s.cacheEvents.drop s.processedEventsCount from rfl, hnone] at hsum
    exact (hsum.trans (congrArg books.value (BitVec.add_zero _))).symm
  | flushed hstack hres =>
    obtain rfl : stack = _ := hstack
    exact ⟨hnested, top_of_settled hopen' (flush_settled hbook law hkey hvalid htop hres)⟩
  | kept => cases hconsidered
  | finish hstack =>
    obtain rfl : stack = _ := hstack
    exact absurd rfl hnested.1
  | handled hstack hres =>
    obtain rfl : stack = _ := hstack
    obtain ⟨howes, hprev, -⟩ := htop
    obtain ⟨hsettled, -⟩ := afterBalanceChange_settled hvalid howes (hprev _ rfl) hres
    exact ⟨hnested.2, hsettled.agrees⟩

theorem reaches_balanced {txIndex : Nat}
    (hctx : ((StateDB.new ctx txIndex).observe env).Agrees books)
    (h : Reaches env codec native ctx txIndex cfg) :
    cfg.Balanced env codec books ctx.events.length := by
  induction h with
  | init => exact ⟨init_open ctx txIndex, trivial, hctx⟩
  | step _ hconsidered hhandled hstep ih =>
    exact step_balanced hbook law hkey hnative ih hconsidered hhandled hstep

end Step

/-- The balances of a new database are those of the bank. -/
theorem init_agrees (hbank : Banked env bank)
    (hctx : ∀ a, env.getAccount ctx.reads a = none → bank ctx.reads a = 0) (txIndex : Nat) :
    ((StateDB.new ctx txIndex).observe env).Agrees (.plain bank) := by
  intro a _
  rw [contents_of_no_cache rfl, Observation.balance, new_accounts, Observation.keeperView]
  cases haccount : env.getAccount ctx.reads a with
  | none => exact (hctx a haccount).symm
  | some account => exact hbank.account _ _ _ haccount

/-- In every run of precompile calls, nested in any way, in which no message is applied
while bank events wait for the handler: when a precompile call returns without an error,
so that the EVM call around it goes on, the balances of the database and of the bank are
the same, for every account that is not marked as self-destructed. -/
theorem balances_agree_after_call (env : Env K V Event) (law : env.Lawful) (codec : BankCodec)
    (bank : Reads K V → Address → Uint256) (hbank : Banked env bank) (ctx : Context K V Event)
    (txIndex : Nat) (hctx : ∀ a, env.getAccount ctx.reads a = none → bank ctx.reads a = 0)
    (cfg cfg' : Config K V) (h : Reaches env codec (Moves codec bank) ctx txIndex cfg)
    (hnative : cfg.evmRuns = false) (hfinish : cfg.step env codec .finish = .ok cfg')
    (hreturns : cfg'.stack.length + 1 = cfg.stack.length) :
    ∃ c, cfg'.db.cache = some c ∧ ∀ a, (cfg'.db.hasSelfDestructed env a).1 = false →
      (cfg'.db.getBalance env a).1 = bank c.reads a := by
  obtain ⟨hopen, hnested, htop⟩ := reaches_balanced hbank.toBooked law Function.injective_id
    (fun _ _ hmoves => reported_of_moves hmoves) (init_agrees hbank hctx txIndex) h
  obtain ⟨stack, s⟩ := cfg
  have hvalid : Valid env s := Framed.valid hopen
  simp only [step] at hfinish
  split at hfinish
  · exact absurd rfl hnested.1
  · rename_i prev saved rest
    obtain ⟨⟨err, t⟩, hres, hfinish⟩ := Outcomes.bind_eq_ok.mp hfinish
    cases err with
    | some message =>
      obtain ⟨u, hrevert, rfl⟩ := Outcomes.map_eq_ok.mp hfinish
      simp at hreturns
    | none =>
      cases hfinish
      obtain ⟨howes, hprev, -⟩ := htop
      obtain ⟨hsettled, hcache⟩ := afterBalanceChange_settled hvalid howes (hprev prev rfl) hres
      obtain ⟨c, hc⟩ := ne_none_iff_exists'.mp hcache
      refine ⟨c, hc, fun a ha => ?_⟩
      rw [hasSelfDestructed_eq] at ha
      rw [getBalance_eq, ← contents_of_cache hc]
      exact hsettled a fun _ => ha
  · cases hfinish
    simp at hreturns

theorem run_cons_eq_some {cfg cfg' : Config K V} {rest : List (Action K V)}
    (h : cfg.run env codec (action :: rest) = some cfg') :
    ∃ next, cfg.step env codec action = .ok next ∧ next.run env codec rest = some cfg' := by
  obtain ⟨next, hstep, h⟩ := bind_eq_some_iff.mp h
  exact ⟨next, Outcomes.toOption_eq_some.mp hstep, h⟩

/-- Ten coins go from account 7 to account 9. -/
def tenCoins : Effects Bytes Value Event where
  writes := [(bankStore, [], some (.book
    ((storedBook smallContext.reads).transfer (addressBytes 7) (addressBytes 9)
      [("drop", 10)])))]
  events := [⟨eventTypeCoinSpent, [(attributeKeySpender, "seven"), (attributeKeyAmount, "10drop")]⟩,
    ⟨eventTypeCoinReceived, [(attributeKeyReceiver, "nine"), (attributeKeyAmount, "10drop")]⟩]
  err := none

/-- The texts of two accounts and of ten coins. -/
def smallCodec : BankCodec :=
  .ofTables .eighteen [("seven", addressBytes 7), ("nine", addressBytes 9)]
    [("10drop", [("drop", 10)])]

/-- Native code sends ten coins of account 7 and then applies a message that does nothing.
When the precompile returns, the database has the balances 100 and 0, and the bank 90 and
10. -/
theorem unhandled_transfer_lost :
    ((init smallContext 0).run smallKeeper.env smallCodec
      [.enter, .call true, .native tenCoins, .apply, .applied true, .finish]).map
      (fun cfg => (cfg.stack.length, (cfg.db.getBalance smallKeeper.env 7).1,
        (cfg.db.getBalance smallKeeper.env 9).1,
        cfg.db.cache.map fun c => (smallKeeper.balance c.reads 7, smallKeeper.balance c.reads 9))) =
      some (1, 100, 0, some (90, 10)) := by
  decide +kernel

theorem tenCoins_moves {r : Contents} (hr : storedBook r = storedBook smallContext.reads) :
    Moves smallCodec smallKeeper.balance r tenCoins := by
  refine .transfer 7 9 10 _ _ rfl ⟨rfl, rfl, rfl⟩ ⟨rfl, rfl, rfl⟩ rfl rfl fun a => ?_
  have hbytes : ∀ b, addressBytes a = addressBytes b ↔ a = b :=
    fun b => ⟨addressBytes_inj, congrArg _⟩
  have hbefore : _ = ((if a = 7 then 100 else 0 : Nat) : Int) := smallContext_balance a
  have hafter : (storedBook (overwritten r tenCoins.writes)).balance (addressBytes a) "drop" =
      ((if a = 7 then 90 else if a = 9 then 10 else 0 : Nat) : Int) := by
    have hbook : storedBook (overwritten r tenCoins.writes) =
        (storedBook smallContext.reads).transfer (addressBytes 7) (addressBytes 9)
          [("drop", 10)] := by
      simp [storedBook, tenCoins, overwritten]
    rw [hbook, Book.transfer]
    simp only [hbefore, credit, hbytes, Coins.amountOf_cons, if_true]
    by_cases h7 : a = 7
    · subst h7
      decide
    · simp only [h7, if_false]
      split <;> rfl
  rw [← hr] at hbefore
  rw [smallKeeper_balance hbefore (by split <;> decide),
    smallKeeper_balance hafter (by split <;> [decide; (split <;> decide)])]
  by_cases h7 : a = 7
  · subst h7
    decide
  · by_cases h9 : a = 9
    · subst h9
      decide
    · rw [if_neg h7, if_neg h7, if_neg h9, if_neg fun h => h7 h.symm, if_neg fun h => h9 h.symm]
      decide

/-- Native code applies a message and then sends ten coins. -/
def nestedTen : List (Action Bytes Value) :=
  [.enter, .call true, .apply, .applied true, .native tenCoins]

theorem balances_agree_after_call_ten :
    ∃ (cfg : Config Bytes Value) (c : CacheContext Bytes Value Event),
      (init smallContext 0).run smallKeeper.env smallCodec
        (nestedTen ++ [.finish]) = some cfg ∧ cfg.stack.length = 1 ∧
      cfg.db.cache = some c ∧ (cfg.db.getBalance smallKeeper.env 9).1 = 10 ∧
      smallKeeper.balance c.reads 9 = 10 := by
  have hcalls : ((init smallContext 0).run smallKeeper.env smallCodec
      (nestedTen.take 2)).map (fun cfg => cfg.db.cacheEvents.drop cfg.db.processedEventsCount) =
      some [] := by
    decide +kernel
  have hcall : ((init smallContext 0).run smallKeeper.env smallCodec
      nestedTen.dropLast).map (fun cfg => cfg.db.cache.map fun c => storedBook c.reads) =
      some (some (storedBook smallContext.reads)) := rfl
  have hmoved : ((init smallContext 0).run smallKeeper.env smallCodec
      nestedTen).map (fun cfg => (cfg.evmRuns, cfg.stack.length)) = some (false, 2) := by
    decide +kernel
  have hrun : ((init smallContext 0).run smallKeeper.env smallCodec
      (nestedTen ++ [.finish])).map
      (fun cfg => (cfg.stack.length, (cfg.db.getBalance smallKeeper.env 9).1,
        (cfg.db.hasSelfDestructed smallKeeper.env 9).1)) = some (1, 10, false) := by
    decide +kernel
  obtain ⟨cfg, hcfg, hmap⟩ := Option.map_eq_some_iff.mp hrun
  obtain ⟨hlen, hmap⟩ := Prod.mk.inj hmap
  obtain ⟨hbalance, hlive⟩ := Prod.mk.inj hmap
  obtain ⟨cfg₁, h₁, hrest⟩ := run_cons_eq_some hcfg
  obtain ⟨cfg₂, h₂, hrest⟩ := run_cons_eq_some hrest
  obtain ⟨cfg₃, h₃, hrest⟩ := run_cons_eq_some hrest
  obtain ⟨cfg₄, h₄, hrest⟩ := run_cons_eq_some hrest
  obtain ⟨cfg₅, h₅, hrest⟩ := run_cons_eq_some hrest
  obtain ⟨cfg₆, h₆, hrest⟩ := run_cons_eq_some hrest
  obtain rfl : cfg₆ = cfg := Option.some.inj hrest
  simp only [nestedTen, List.take, List.dropLast, run, Runs.run_cons, Runs.run_nil, h₁, h₂, h₃, h₄,
    h₅, Except.toOption, Option.bind, Option.map_some] at hcalls hcall hmoved
  obtain ⟨hnative, hlen₅⟩ := Prod.mk.inj (Option.some.inj hmoved)
  have hreaches : Reaches smallKeeper.env smallCodec
      (Moves smallCodec smallKeeper.balance) smallContext 0 cfg₅ := by
    refine .step (.step (.step (.step (.step .init (by trivial) (by trivial) h₁) (by rfl)
      (by trivial) h₂) (by trivial) ?_ h₃) (by rfl) (by trivial) h₄) ?_ (by trivial) h₅
    · rw [Handled, Option.some.inj hcalls]
      rfl
    · intro c hc
      rw [hc] at hcall
      exact tenCoins_moves (Option.some.inj (Option.some.inj hcall))
  have hctx : ∀ a, smallKeeper.env.getAccount smallContext.reads a = none →
      smallKeeper.balance smallContext.reads a = 0 := by
    intro a hnone
    have hbook := smallContext_balance a
    rw [if_neg (smallContext_account hnone)] at hbook
    exact smallKeeper_balance hbook (by decide)
  obtain ⟨c, hc, hagree⟩ := balances_agree_after_call smallKeeper.env
    smallKeeper_lawful smallCodec _ smallKeeper_banked
    smallContext 0 hctx cfg₅ cfg₆ hreaches hnative h₆ (by rw [hlen, hlen₅])
  exact ⟨cfg₆, c, hcfg, hlen, hc, hbalance, (hagree 9 hlive).symm.trans hbalance⟩

end Config

end InfiniteEvm
