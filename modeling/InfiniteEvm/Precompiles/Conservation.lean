import InfiniteEvm.Precompiles.Balances
import InfiniteEvm.StateDB.Supply

/-!
# Conservation of the supply

The EVM moves coins by value transfers and by self-destruction. Whatever calls do so, and
whichever of them fail, the balances of the database and the coins of the bank add up to
the supply, unless coins go to an account that is marked as self-destructed, or a contract
of the same transaction destructs itself in its own favour.
-/

namespace InfiniteEvm

open Std Library SnapshotMulti Observation VM List Event

variable {K V : Type*} [Ord K] [TransOrd K] [LawfulEqOrd K] [DecidableEq K]
variable {env : Env K V Event} {codec : BankCodec} {coins : Coinage K V} {rest : List (Action K V)}

/-- Native code that moves no coins and removes no account. -/
structure Quiet (env : Env K V Event) (coins : Coinage K V) (r : Reads K V)
    (e : Effects K V Event) : Prop where
  events : e.events.filter isBank = []
  balance : coins.balance (overwritten r e.writes) = coins.balance r
  supply : coins.supply (overwritten r e.writes) = coins.supply r
  account : ∀ a, env.getAccount (overwritten r e.writes) a = none → env.getAccount r a = none

theorem handledSum_of_quiet {events : List Event} (h : events.filter isBank = [])
    (a : Address) : handledSum codec events a = 0 := by
  rw [handledSum, ← reportedSum_filter, h]
  rfl

namespace Observation

variable {o o' : Observation K V Event}

/-- The events that wait for the handler move no coins. -/
def Idle (o : Observation K V Event) : Prop :=
  (o.cacheEvents.drop o.processedEventsCount).filter isBank = []

theorem Idle.congr (h : o.Idle) (hcache : o'.cache = o.cache)
    (hcount : o'.processedEventsCount = o.processedEventsCount) : o'.Idle := by
  unfold Idle cacheEvents at h ⊢
  rw [hcache, hcount]
  exact h

end Observation

namespace StateDB

variable {s t : StateDB K V Event}

/-- The coins add up, the bank has the balances of accounts that are not dirty, and
nothing waits for the handler. -/
structure Calm (env : Env K V Event) (coins : Coinage K V) (s : StateDB K V Event) : Prop where
  conserves : (s.observe env).Conserves env coins
  agrees : (s.observe env).Agrees coins.books
  idle : (s.observe env).Idle

theorem Calm.of_observe_eq (h : Calm env coins s) (hobs : t.observe env = s.observe env) :
    Calm env coins t := by
  obtain ⟨hconserves, hagrees, hidle⟩ := h
  rw [← hobs] at hconserves hagrees hidle
  exact ⟨hconserves, hagrees, hidle⟩

theorem Calm.neutral (h : Calm env coins s) (hf : Follows env Set.univ s t)
    (hn : Neutral env s t) : Calm env coins t where
  conserves := h.conserves.congr (contents_congr hf.cache.1 hf.ctx_eq) hn.balance
    fun a ha => h.conserves.dead a (hn.dead a ha)
  agrees := follows_agrees h.agrees hf
  idle := h.idle.congr hf.cache.1 hf.cache.2

theorem Calm.getCacheContext (h : Calm env coins s) : Calm env coins s.getCacheContext := by
  have hagrees := getCacheContext_agrees h.agrees
  cases hc : s.cache with
  | some c =>
    rw [getCacheContext_eq hc]
    exact h
  | none =>
    have hnew : s.getCacheContext = { s with cache := some (newCacheContext s.ctx) } := by
      simp only [StateDB.getCacheContext, hc]
    rw [hnew] at hagrees ⊢
    refine ⟨h.conserves.congr ?_ rfl h.conserves.dead, hagrees, ?_⟩
    · rw [contents_of_no_cache hc, contents_of_cache rfl]
      exact newCacheContext_reads s.ctx
    · change (drop s.processedEventsCount []).filter isBank = []
      rw [drop_nil]
      rfl

/-- A flush leaves the coins that the database has. -/
theorem flush_calm (hbook : Booked env coins.books) (law : env.Lawful) (hs : Valid env s)
    (h : (s.observe env).Conserves env coins) (hagrees : (s.observe env).Agrees coins.books)
    (hflush : s.flushToCacheCtx env = .ok (none, t)) : Calm env coins t := by
  obtain ⟨hsettled, -⟩ := flush_settled hbook law coins.books_key hs hagrees hflush
  obtain ⟨c, k, hc, rfl, hwritten⟩ := flush_written hs hflush
  obtain ⟨hfinite, htotal, hbound, hnonneg, hcovered, hdead⟩ := h
  obtain ⟨hsupply, hframe⟩ := written_frame hbook law hs.tidy hwritten
  rw [contents_of_cache hc] at htotal hbound hnonneg hcovered
  have hcontents : ({ s with cache := some k, processedEventsCount := k.events.length }
      |>.observe env).contents = k.reads := contents_of_cache rfl
  have hholdings : ({ s with cache := some k, processedEventsCount := k.events.length }
      |>.observe env).holdings coins = (s.observe env).holdings coins := by
    refine holdings_congr rfl fun x hx => ?_
    rw [hcontents, contents_of_cache hc]
    exact hframe x fun a _ heq => hx ⟨a, heq.symm⟩
  refine ⟨⟨?_, ?_, ?_, ?_, ?_, hdead⟩, hsettled.agrees, ?_⟩
  · rw [hholdings]
    exact hfinite
  · rw [hholdings, hcontents, hsupply]
    exact htotal
  · rw [hcontents, hsupply]
    exact hbound
  · exact nonneg_written hbook law hs.tidy hwritten hnonneg
  · exact covered_written hbook law hwritten hcovered
  · change (k.events.drop k.events.length).filter isBank = []
    rw [drop_length]
    rfl

section

variable (h : Calm env coins s)
include h

theorem Calm.beginNative (hbook : Booked env coins.books) (law : env.Lawful) (hs : Valid env s)
    (hbegin : s.beginNative env = .ok (none, t)) : Calm env coins t := by
  obtain ⟨u, hcalled, hcontents, -, hobjects, -, hflush⟩ := beginNative_flushed hs hbegin
  have haccounts : (u.observe env).accounts = (s.getCacheContext.observe env).accounts := by
    funext a
    rw [observe_accounts, observe_accounts, lookup, lookup, hobjects, hcalled.inside.ctx]
  obtain ⟨hbalance, hdead⟩ := neutral_of_accounts haccounts
  refine flush_calm hbook law hcalled.inside.valid ?_ ?_ hflush
  · exact h.getCacheContext.conserves.congr hcontents hbalance
      fun a ha => h.getCacheContext.conserves.dead a (hdead a ha)
  · exact h.getCacheContext.agrees.recorded hcalled.inside.recorded hcontents

/-- Quiet native code leaves all coins where they are. -/
theorem Calm.native (hs : Valid env s) {e : Effects K V Event}
    (hquiet : ∀ c, s.cache = some c → Quiet env coins c.reads e) (hnative : s.native e = .ok t) :
    Calm env coins t := by
  obtain ⟨⟨hfinite, htotal, hbound, hnonneg, hcovered, hdead⟩, hagrees, hidle⟩ := h
  obtain ⟨c, k, hc, hk, rfl⟩ := native_cases hnative
  obtain ⟨hevents, hbalance, hsupply, haccount⟩ := hquiet c hc
  obtain ⟨-, hreads, hadded⟩ := CacheContext.apply_above (hs.good.cache c hc) hk
  have hcontents : ({ s with cache := some k }.observe env).contents =
      overwritten c.reads e.writes := (contents_of_cache rfl).trans hreads
  have hholdings : ({ s with cache := some k }.observe env).holdings coins =
      (s.observe env).holdings coins := by
    refine Observation.holdings_congr rfl fun x _ => ?_
    rw [hcontents, contents_of_cache hc, hbalance]
  rw [contents_of_cache hc] at htotal hbound hnonneg hcovered
  refine ⟨⟨?_, ?_, ?_, ?_, ?_, hdead⟩, ?_, ?_⟩
  · rw [hholdings]
    exact hfinite
  · rw [hholdings, hcontents, hsupply]
    exact htotal
  · rw [hcontents, hsupply]
    exact hbound
  · rw [hcontents, hbalance]
    exact hnonneg
  · rw [hcontents]
    intro a ha
    rw [hbalance]
    exact hcovered a (haccount a ha)
  · intro a ha
    have hagrees := hagrees a ha
    rw [contents_of_cache hc] at hagrees
    rw [hcontents]
    exact hagrees.trans (congrFun hbalance (addressBytes a)).symm
  · have hold : (s.observe env).cacheEvents = c.events := by
      rw [Observation.cacheEvents, show (s.observe env).cache = some c from hc]
    unfold Observation.Idle at hidle ⊢
    rw [hold] at hidle
    change (k.events.drop s.processedEventsCount).filter isBank = []
    rw [hadded, drop_append, filter_append, append_eq_nil_iff]
    refine ⟨hidle, filter_eq_nil_iff.mpr fun event hmem => ?_⟩
    exact filter_eq_nil_iff.mp hevents event (mem_of_mem_drop hmem)

/-- The handler does nothing when nothing waits for it. -/
theorem Calm.handled (hs : Valid env s) {prev : Nat}
    (hafter : s.afterBalanceChange env codec prev = .ok (none, t)) : Calm env coins t := by
  obtain ⟨c, hc, hres⟩ := afterBalanceChange_cases hafter
  have hfollows := afterBalanceChange_follows hs.toSound hafter
  obtain ⟨hbalance, hdead⟩ := handleEvents_balance hs.toSound prev (c.events.drop prev)
    (congrArg Prod.fst hres).symm
  rw [← congrArg Prod.snd hres] at hbalance hdead
  refine h.neutral hfollows ⟨funext fun a => ?_, fun a ha => hdead ▸ ha⟩
  have hquiet : ((c.events.drop prev).drop (s.processedEventsCount - prev)).filter isBank = [] := by
    have hidle := h.idle
    have hold : (s.observe env).cacheEvents = c.events := by
      rw [Observation.cacheEvents, show (s.observe env).cache = some c from hc]
    unfold Observation.Idle at hidle
    rw [hold, filter_eq_nil_iff] at hidle
    rw [drop_drop, filter_eq_nil_iff]
    intro event hmem
    refine hidle event ?_
    have hsplit : prev + (s.processedEventsCount - prev) = s.processedEventsCount +
        (prev + (s.processedEventsCount - prev) - s.processedEventsCount) := by
      omega
    rw [hsplit, ← drop_drop] at hmem
    exact mem_of_mem_drop hmem
  rw [hbalance a, handledSum_of_quiet hquiet]
  exact BitVec.add_zero _

/-- `SubBalance` of the sender and `AddBalance` of the recipient. -/
theorem Calm.transfer (hs : Sound env s) {a b : Address}
    {amount : Uint256} (hfunds : amount ≤ (s.getBalance env a).1)
    (hlive : amount = 0 ∨ (s.hasSelfDestructed env b).1 = false) :
    Calm env coins ((s.subBalance env a amount).2.addBalance env b amount).2 := by
  rw [getBalance_eq] at hfunds
  rw [hasSelfDestructed_eq] at hlive
  have hf₁ : Follows env Set.univ s _ := subBalance_follows hs a amount
  have hf₂ : Follows env Set.univ _ _ := addBalance_follows (hf₁.sound hs) b amount
  obtain ⟨hsub, hdead₁⟩ := subBalance_balance hs a amount
  obtain ⟨hadd, hdead₂⟩ := addBalance_balance (hf₁.sound hs) b amount
  have hf := hf₁.trans hf₂
  refine ⟨?_, follows_agrees h.agrees hf, h.idle.congr hf.cache.1 hf.cache.2⟩
  exact h.conserves.transfer hfunds hlive (contents_congr hf₁.cache.1 hf₁.ctx_eq)
    (contents_congr hf.cache.1 hf.ctx_eq) hsub hadd (hdead₂.trans hdead₁)

/-- A self-destruction conserves if the coins do not go to a marked account, and not to
the contract itself if it is new. -/
theorem Calm.selfDestruct (hs : Sound env s) {c b : Address}
    (hkeeps : (s.getBalance env c).1 = 0 ∨ (s.hasSelfDestructed env b).1 = false ∧
      (b = c → (s.isNewContract env c).1 = false)) :
    Calm env coins ((((s.subBalance env c (s.getBalance env c).1).2.addBalance env b
      (s.getBalance env c).1).2.selfDestruct6780 env c).2) := by
  have hf₁ : Follows env Set.univ s _ := subBalance_follows hs c (s.getBalance env c).1
  have hf₂ : Follows env Set.univ _ _ := addBalance_follows (hf₁.sound hs) b (s.getBalance env c).1
  have hs₂ := (hf₁.trans hf₂).sound hs
  have hmoved := h.transfer hs (BitVec.le_refl (s.getBalance env c).1) (hkeeps.imp id And.left)
  rcases selfDestruct6780_cases hs₂ c with hsame | ⟨hnew, hbalance, hdead⟩
  · exact hmoved.of_observe_eq hsame
  · have hf₃ : Follows env Set.univ _ _ := selfDestruct6780_follows hs₂ c
    refine ⟨hmoved.conserves.mark ?_ (contents_congr hf₃.cache.1 hf₃.ctx_eq) hbalance hdead,
      follows_agrees hmoved.agrees hf₃, hmoved.idle.congr hf₃.cache.1 hf₃.cache.2⟩
    obtain ⟨hsub, -⟩ := subBalance_balance hs c (s.getBalance env c).1
    obtain ⟨hadd, -⟩ := addBalance_balance (hf₁.sound hs) b (s.getBalance env c).1
    have hown : (s.observe env).balance c = (s.getBalance env c).1 := by
      rw [getBalance_eq]
      rfl
    rw [hadd c, hsub c, if_pos rfl, hown]
    by_cases hb : b = c
    · -- the flag of the contract is the one it had before the transfer to itself
      rcases hkeeps with hzero | ⟨-, hold⟩
      · rw [hzero, if_pos hb]
        rfl
      · have hflag₁ := (changeBalance_newContract hs c (s.getBalance env c).1).2
        have hflag₂ := (changeBalance_newContract (hf₁.sound hs) c (s.getBalance env c).1).1
        subst hb
        rw [hflag₂, hflag₁, hold rfl] at hnew
        cases hnew
    · rw [if_neg hb, ← BitVec.sub_eq_add_neg, BitVec.sub_self]
      rfl

end

/-! ## Before the transaction and after it -/

/-- The bank before a transaction: the coins of all accounts are the supply, which a
256-bit number can hold. Every address with coins has an account, and the keeper reads all
its coins. -/
structure Opening (env : Env K V Event) (coins : Coinage K V) (r : Reads K V) : Prop where
  finite : coins.Finite r
  total : coins.total r = coins.supply r
  bound : coins.supply r < 2 ^ 256
  nonneg : ∀ x, 0 ≤ coins.balance r x
  covered : Covered env coins r
  account : ∀ a account, env.getAccount r a = some account →
    coins.balance r (addressBytes a) = account.balance.toNat

theorem new_calm {ctx : Context K V Event} (h : Opening env coins ctx.reads) (txIndex : Nat) :
    Calm env coins (new ctx txIndex) := by
  have hbalance : ∀ a, ((((new ctx txIndex).observe env).balance a).toNat : Int) =
      coins.balance ctx.reads (addressBytes a) := by
    intro a
    rw [balance, new_accounts, keeperView]
    cases haccount : env.getAccount ctx.reads a with
    | none => exact (h.covered a haccount).symm
    | some account => exact (h.account a account haccount).symm
  have hholdings : ((new ctx txIndex).observe env).holdings coins = coins.balance ctx.reads := by
    funext x
    by_cases hx : ∃ a, addressBytes a = x
    · obtain ⟨a, rfl⟩ := hx
      rw [holdings_address, hbalance]
    · exact holdings_other coins _ hx
  refine ⟨⟨?_, ?_, h.bound, h.nonneg, h.covered, ?_⟩, fun a _ => hbalance a, ?_⟩
  · rw [hholdings]
    exact h.finite
  · rw [hholdings]
    exact h.total
  · intro a ha
    rw [dead, new_accounts, keeperView] at ha
    cases haccount : env.getAccount ctx.reads a with
    | none | some account =>
      rw [haccount] at ha
      cases ha
  · change (drop ctx.events.length []).filter isBank = []
    rw [drop_nil]
    rfl

/-- A commit leaves in the bank what the database holds. -/
theorem Calm.commit (hbook : Booked env coins.books) (law : env.Lawful) (hs : Valid env s)
    (h : Calm env coins s) (hcommit : s.commit env = .ok (none, t)) :
    coins.Finite t.ctx.reads ∧ coins.total t.ctx.reads = coins.supply t.ctx.reads := by
  have hwritten := commit_written hs hcommit
  obtain ⟨hsupply, hframe⟩ := written_frame hbook law hs.tidy hwritten
  obtain ⟨-, hwalked⟩ :=
    hwritten.leavesBalance hbook law coins.books_key hs.tidy.address (FMap.keys_nodup _)
  have hholds : coins.balance t.ctx.reads = (s.observe env).holdings coins := by
    funext x
    by_cases hx : ∃ a, addressBytes a = x
    · obtain ⟨a, rfl⟩ := hx
      rw [holdings_address]
      by_cases hstays : (s.observe env).Stays a
      · exact written_settled hbook law coins.books_key hs.tidy rfl h.agrees hwritten hstays
      · -- a dirty account that is marked has no coins, in the database or in the bank
        obtain ⟨hdirty, hmarked⟩ := Classical.not_imp.mp hstays
        have hdead := eq_true_of_ne_false hmarked
        obtain ⟨obj, hobj, hleaves⟩ := hwalked a (ExtTreeMap.mem_keys.mpr hdirty)
        obtain rfl := hs.tidy.address a obj hobj
        have hview : (s.observe env).dead obj.address = obj.selfDestructed := by
          rw [dead, observe_accounts, lookup, hobj]
          rfl
        rw [h.conserves.dead _ hdead]
        unfold LeavesBalance at hleaves
        rw [← hview, hdead, if_pos rfl] at hleaves
        rcases hleaves with hzero | ⟨hsame, hnone⟩
        · exact hzero
        · exact hsame.trans (h.conserves.covered obj.address hnone)
    · rw [holdings_other coins _ hx]
      exact hframe x fun a _ heq => hx ⟨a, heq.symm⟩
  unfold Coinage.Finite Coinage.total
  rw [hholds, hsupply]
  exact ⟨h.conserves.finite, h.conserves.total⟩

end StateDB

/-! ## Transactions -/

/-- What the EVM does in a transaction. -/
inductive Move (K V : Type*)
  /-- A value transfer. -/
  | transfer (sender recipient : Address) (amount : Uint256)
  /-- `SELFDESTRUCT` of a contract. -/
  | selfDestruct (contract beneficiary : Address)
  /-- Anything else. -/
  | other (action : Action K V)

namespace Move

variable (env : Env K V Event)

/-- The actions of a move. -/
def actions (db : StateDB K V Event) : Move K V → List (Action K V)
  | .transfer sender recipient amount =>
    [.op (.subBalance sender amount) trivial, .op (.addBalance recipient amount) trivial]
  | .selfDestruct contract beneficiary =>
    let balance := (db.getBalance env contract).1
    [.op (.subBalance contract balance) trivial, .op (.addBalance beneficiary balance) trivial,
      .op (.selfDestruct6780 contract) trivial]
  | .other action => [action]

/-- A sender has the coins it transfers, and coins move in no other way. -/
def Legal (coins : Coinage K V) (db : StateDB K V Event) : Move K V → Prop
  | .transfer sender _ amount => amount ≤ (db.getBalance env sender).1
  | .selfDestruct .. => True
  | .other (.op o _) => o.KeepsBalance
  | .other (.native e) => ∀ c, db.cache = some c → Quiet env coins c.reads e
  | .other _ => True

/-- No coins go to an account that is marked as self-destructed, and a contract of the
same transaction with coins does not destruct itself in its own favour. -/
def Keeps (db : StateDB K V Event) : Move K V → Prop
  | .transfer _ recipient amount => amount = 0 ∨ (db.hasSelfDestructed env recipient).1 = false
  | .selfDestruct contract beneficiary => (db.getBalance env contract).1 = 0 ∨
      (db.hasSelfDestructed env beneficiary).1 = false ∧
        (beneficiary = contract → (db.isNewContract env contract).1 = false)
  | .other _ => True

end Move

namespace Config

open StateDB

variable {cfg cfg' : Config K V} {n : Nat}

/-- The configuration after a list of moves, if none of them panics. -/
def transact (env : Env K V Event) (codec : BankCodec) (cfg : Config K V)
    (moves : List (Move K V)) : Option (Config K V) :=
  Runs.run (fun cfg move => cfg.run env codec (move.actions env cfg.db)) cfg moves

/-- The configurations of runs of a transaction all of whose moves keep the coins. -/
inductive Transacts (env : Env K V Event) (codec : BankCodec) (coins : Coinage K V)
    (ctx : Context K V Event) (txIndex : Nat) : Config K V → Prop
  | init : Transacts env codec coins ctx txIndex (init ctx txIndex)
  | step {cfg cfg' : Config K V} {move : Move K V} : Transacts env codec coins ctx txIndex cfg →
      move.Legal env coins cfg.db → move.Keeps env cfg.db →
      cfg.run env codec (move.actions env cfg.db) = some cfg' →
      Transacts env codec coins ctx txIndex cfg'

/-- What every move keeps. -/
structure Quieted (env : Env K V Event) (coins : Coinage K V) (n : Nat) (cfg : Config K V) :
    Prop where
  opened : cfg.Open env n
  calm : cfg.Holds (Calm env coins)

theorem open_of_run {actions : List (Action K V)} (h : cfg.Open env n)
    (hrun : cfg.run env codec actions = some cfg') : cfg'.Open env n := by
  refine Runs.run_invariant (Open env n) (fun _ => True) ?_ (fun _ _ => trivial) h hrun
  intro c action c' _ hc hstep
  exact (step_safe codec hc action).of_ok (Outcomes.toOption_eq_some.mp hstep)

theorem open_of_transact {moves : List (Move K V)} (h : cfg.Open env n)
    (hrun : cfg.transact env codec moves = some cfg') : cfg'.Open env n :=
  Runs.run_invariant (Open env n) (fun _ => True) (fun _ _ _ _ hc hrun => open_of_run hc hrun)
    (fun _ _ => trivial) h hrun

theorem run_op {o : Op} {plain : o.Plain} {t : StateDB K V Event}
    (h : cfg.run env codec (.op o plain :: rest) = some cfg') (hstep : cfg.db.step env o = .ok t)
    (hruns : cfg.evmRuns = true) : { cfg with db := t }.run env codec rest = some cfg' := by
  obtain ⟨next, hnext, hrest⟩ := run_cons_eq_some h
  simp only [step, hruns, hstep, if_true] at hnext
  cases hnext
  exact hrest

/-- Operations of the EVM do nothing while native code runs. -/
theorem run_op_of_native (hruns : cfg.evmRuns = false) {o : Op} {plain : o.Plain}
    (h : cfg.run env codec (.op o plain :: rest) = some cfg') :
    cfg.run env codec rest = some cfg' := by
  obtain ⟨next, hnext, hrest⟩ := run_cons_eq_some h
  simp only [step, hruns, Bool.false_eq_true, if_false] at hnext
  cases hnext
  exact hrest

theorem action_quieted (hbook : Booked env coins.books) (law : env.Lawful)
    (hcfg : cfg.Quieted env coins n) {action : Action K V}
    (hlegal : Move.Legal env coins cfg.db (.other action))
    (h : cfg.step env codec action = .ok cfg') : cfg'.Quieted env coins n := by
  obtain ⟨hopen, hcalm⟩ := hcfg
  have hvalid : Valid env cfg.db := Framed.valid hopen
  refine ⟨(step_safe codec hopen action).of_ok h, ?_⟩
  refine step_holds (fun s t hobs hs => hs.of_observe_eq hobs) (fun s hs => hs.getCacheContext)
    ?_ ?_ ?_ ?_ ?_ hopen hcalm h
  · rintro o plain t rfl hs hf
    exact hcalm.db.neutral hf (step_neutral hvalid.toSound plain hlegal hs)
  · rintro handled t rfl hres
    exact hcalm.db.beginNative hbook law hvalid hres
  · rintro e t rfl hres
    exact hcalm.db.native hvalid hlegal hres
  · rintro t rfl hres
    exact flush_calm hbook law hvalid hcalm.db.conserves hcalm.db.agrees hres
  · intro prev t hres hf
    exact hcalm.db.handled hvalid hres

theorem move_quieted (hbook : Booked env coins.books) (law : env.Lawful)
    (hcfg : cfg.Quieted env coins n) {move : Move K V} (hlegal : move.Legal env coins cfg.db)
    (hkeeps : move.Keeps env cfg.db) (h : cfg.run env codec (move.actions env cfg.db) = some cfg') :
    cfg'.Quieted env coins n := by
  have hopen' := open_of_run hcfg.opened h
  have hsound : Sound env cfg.db := (Framed.valid hcfg.opened).toSound
  cases move with
  | other action =>
    obtain ⟨next, hnext, hrest⟩ := run_cons_eq_some h
    obtain rfl : next = cfg' := Option.some.inj hrest
    exact action_quieted hbook law hcfg hlegal hnext
  | transfer a b amount =>
    cases hruns : cfg.evmRuns with
    | false =>
      have hsame := run_op_of_native hruns (run_op_of_native hruns h)
      cases hsame
      exact hcfg
    | true =>
      have hmoved := run_op (run_op h rfl hruns) rfl hruns
      cases hmoved
      exact ⟨hopen', hcfg.calm.db.transfer hsound hlegal hkeeps, hcfg.calm.saved⟩
  | selfDestruct c b =>
    cases hruns : cfg.evmRuns with
    | false =>
      have hsame := run_op_of_native hruns (run_op_of_native hruns (run_op_of_native hruns h))
      cases hsame
      exact hcfg
    | true =>
      have hmoved := run_op (run_op (run_op h rfl hruns) rfl hruns) rfl hruns
      cases hmoved
      exact ⟨hopen', hcfg.calm.db.selfDestruct hsound hkeeps, hcfg.calm.saved⟩

/-- In every run of a transaction whose moves keep the coins, the coins of all accounts
add up to the supply after the commit if they did before. -/
theorem commit_conserves_supply (env : Env K V Event) (law : env.Lawful) (codec : BankCodec)
    (coins : Coinage K V) (hbook : Booked env coins.books) (ctx : Context K V Event)
    (txIndex : Nat) (hopening : Opening env coins ctx.reads) (cfg : Config K V)
    (h : Transacts env codec coins ctx txIndex cfg) (u : StateDB K V Event)
    (hcommit : cfg.db.commit env = .ok (none, u)) :
    coins.Finite u.ctx.reads ∧ coins.total u.ctx.reads = coins.supply u.ctx.reads := by
  have hquieted : cfg.Quieted env coins ctx.events.length := by
    clear hcommit
    induction h with
    | init =>
      exact ⟨init_open ctx txIndex, new_calm hopening txIndex, fun _ hmem => nomatch hmem⟩
    | step _ hlegal hkeeps hrun ih => exact move_quieted hbook law ih hlegal hkeeps hrun
  exact hquieted.calm.db.commit hbook law (Framed.valid hquieted.opened) hcommit

theorem smallContext_opening : Opening smallKeeper.env smallKeeper.coinage
    smallContext.reads := by
  have hbalance : smallKeeper.coinage.balance smallContext.reads =
      fun x => if x = addressBytes 7 then 100 else 0 := by
    funext x
    change (storedBook smallContext.reads).balance x "drop" = _
    rw [smallContext_book]
    simp only [smallBook, and_true]
  have hsupply : smallKeeper.coinage.supply smallContext.reads = 100 := by
    rfl
  have hother : ∀ x, x ≠ addressBytes 7 →
      smallKeeper.coinage.balance smallContext.reads x = 0 := by
    intro x hx
    rw [hbalance]
    exact if_neg hx
  refine ⟨?_, ?_, ?_, ?_, ?_, ?_⟩
  · refine (Set.finite_singleton (addressBytes 7)).subset fun x hx => ?_
    by_contra hne
    exact hx (hother x hne)
  · rw [Coinage.total, finsum_eq_single _ (addressBytes 7) hother, hbalance, hsupply]
    exact if_pos rfl
  · decide
  · intro x
    rw [hbalance]
    dsimp only
    split <;> decide
  · intro a hnone
    exact hother _ fun heq => smallContext_account hnone (addressBytes_inj heq)
  · intro a account haccount
    have hlt : (if a = 7 then 100 else 0) < 2 ^ 256 := by
      split <;> decide
    have hbytes : addressBytes a = addressBytes 7 ↔ a = 7 := ⟨addressBytes_inj, congrArg _⟩
    rw [smallKeeper_banked.account _ _ _ haccount, smallKeeper_balance (smallContext_balance
      a) hlt, BitVec.toNat_ofNat, Nat.mod_eq_of_lt hlt, hbalance]
    simp only [hbytes]
    split <;> rfl

/-- The account 7 creates a contract 9 with ten coins, which destructs itself in its own
favour. After the commit 90 coins are left, with a supply of 100. -/
theorem own_beneficiary_destroys_coins :
    ∃ (cfg : Config Bytes Value) (u : StateDB Bytes Value Event),
      (init smallContext 0).transact smallKeeper.env smallCodec
        [.other (.op (.createAccount 9) trivial), .other (.op (.createContract 9) trivial),
          .transfer 7 9 10, .selfDestruct 9 9] = some cfg ∧
      cfg.db.commit smallKeeper.env = .ok (none, u) ∧
      smallKeeper.coinage.total u.ctx.reads = 90 ∧
      smallKeeper.coinage.supply u.ctx.reads = 100 := by
  have hresult : ((init smallContext 0).transact smallKeeper.env smallCodec
      [.other (.op (.createAccount 9) trivial), .other (.op (.createContract 9) trivial),
        .transfer 7 9 10, .selfDestruct 9 9]).bind (fun cfg =>
        (cfg.db.commit smallKeeper.env).toOption.map fun p =>
          (p.1, cfg.db.journal.dirties.keys.map fun a =>
            smallKeeper.coinage.balance p.2.ctx.reads (addressBytes a) -
              smallKeeper.coinage.balance smallContext.reads
                (addressBytes a))) =
      some (none, [-10, 0]) := by
    decide +kernel
  obtain ⟨cfg, u, hcfg, hcommit, hchange⟩ := Outcomes.of_bind_map hresult
  have hsame : some smallContext.reads = some (cfg.db.observe smallKeeper.env).contents :=
    congrArg (Option.map fun cfg : Config _ _ => (cfg.db.observe smallKeeper.env).contents) hcfg
  have hvalid : Valid smallKeeper.env cfg.db := Framed.valid (open_of_transact (init_open _ _) hcfg)
  have hwritten := commit_written hvalid hcommit
  rw [← Option.some.inj hsame] at hwritten
  obtain ⟨hsupply, -⟩ := written_frame smallKeeper_booked smallKeeper_lawful hvalid.tidy hwritten
  obtain ⟨-, htotal⟩ := written_total smallKeeper_booked smallKeeper_lawful hvalid.tidy hwritten
    smallContext_opening.finite
  rw [hchange, smallContext_opening.total] at htotal
  have hhundred : smallKeeper.coinage.supply smallContext.reads = 100 := by decide +kernel
  rw [hhundred] at hsupply htotal
  exact ⟨cfg, u, hcfg, hcommit, htotal, hsupply⟩

theorem commit_conserves_supply_transfer :
    ∃ (cfg : Config Bytes Value) (u : StateDB Bytes Value Event),
      (init smallContext 0).run smallKeeper.env smallCodec
        (Move.actions smallKeeper.env (StateDB.new smallContext 0)
          (.transfer 7 9 10)) = some cfg ∧
      cfg.db.commit smallKeeper.env = .ok (none, u) ∧
      smallKeeper.coinage.balance u.ctx.reads (addressBytes 9) = 10 ∧
      smallKeeper.coinage.total u.ctx.reads =
        smallKeeper.coinage.supply u.ctx.reads := by
  have hresult : ((init smallContext 0).run smallKeeper.env smallCodec
      (Move.actions smallKeeper.env (StateDB.new smallContext 0)
        (.transfer 7 9 10))).bind (fun cfg =>
        (cfg.db.commit smallKeeper.env).toOption.map fun p =>
          (p.1, smallKeeper.coinage.balance p.2.ctx.reads (addressBytes 9))) =
      some (none, 10) := by
    decide +kernel
  obtain ⟨cfg, u, hcfg, hcommit, hnine⟩ := Outcomes.of_bind_map hresult
  have htransacts : Transacts smallKeeper.env smallCodec smallKeeper.coinage
      smallContext 0 cfg := by
    refine .step .init ?_ ?_ hcfg
    · change (10 : Uint256) ≤ ((StateDB.new smallContext 0).getBalance
        smallKeeper.env 7).1
      decide +kernel
    · exact Or.inr (by decide +kernel)
  exact ⟨cfg, u, hcfg, hcommit, hnine, (commit_conserves_supply smallKeeper.env
    smallKeeper_lawful smallCodec smallKeeper.coinage
    smallKeeper_booked smallContext 0 smallContext_opening cfg htransacts u
    hcommit).2⟩

end Config

end InfiniteEvm
