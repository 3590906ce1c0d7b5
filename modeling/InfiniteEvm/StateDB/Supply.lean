import InfiniteEvm.Library.FiniteSums
import InfiniteEvm.StateDB.Balances

/-!
# The coins of all accounts

A commit overwrites balances one by one and never touches the supply, so whether all
coins of accounts still add up to the supply depends on the balances of the database.
-/

namespace InfiniteEvm

open Std Library SnapshotMulti Function Observation StateObject

variable {K V E : Type*} {env : Env K V E} {coins : Coinage K V}

namespace Coinage

/-- Finitely many accounts have coins. -/
def Finite (coins : Coinage K V) (r : Reads K V) : Prop :=
  (support (coins.balance r)).Finite

/-- The coins of all accounts. -/
noncomputable def total (coins : Coinage K V) (r : Reads K V) : Int := ∑ᶠ x, coins.balance r x

end Coinage

theorem StateDB.getCode_funds (env : Env K V E) (r : Reads K V) (obj : StateObject) :
    (StateObject.getCode env r obj).2.account = obj.account ∧
      (StateObject.getCode env r obj).2.selfDestructed = obj.selfDestructed := by
  rcases StateObject.getCode_snd env r obj with h | h <;> rw [h] <;> exact ⟨rfl, rfl⟩

theorem StateDB.getCommittedState_funds (env : Env K V E) (r : Reads K V) (obj : StateObject)
    (key : Hash) : (StateObject.getCommittedState env r obj key).2.account = obj.account ∧
      (StateObject.getCommittedState env r obj key).2.selfDestructed = obj.selfDestructed := by
  rcases StateObject.getCommittedState_snd env r obj key with h | ⟨-, -, h⟩ <;> rw [h] <;>
    exact ⟨rfl, rfl⟩

theorem StateDB.getState_funds (env : Env K V E) (r : Reads K V) (obj : StateObject) (key : Hash) :
    (StateObject.getState env r obj key).2.account = obj.account ∧
      (StateObject.getState env r obj key).2.selfDestructed = obj.selfDestructed := by
  rcases StateObject.getState_snd env r obj key with h | h
  · rw [h]
    exact ⟨rfl, rfl⟩
  · rw [h]
    exact getCommittedState_funds env r obj key

variable [Ord K] [TransOrd K] {s' : StateDB K V E}

namespace StateDB

variable {s t u : StateDB K V E} {r r' : Reads K V}

/-! ## Operations that leave balances alone -/

/-- No balance changes, and no account is marked as self-destructed. -/
structure Neutral (env : Env K V E) (s t : StateDB K V E) : Prop where
  balance : (t.observe env).balance = (s.observe env).balance
  dead : ∀ a, (t.observe env).dead a = true → (s.observe env).dead a = true

theorem Neutral.trans (hst : Neutral env s t) (htu : Neutral env t u) : Neutral env s u where
  balance := htu.balance.trans hst.balance
  dead a h := hst.dead a (htu.dead a h)

/-- What is not seen in the accounts is neutral. -/
theorem neutral_of_accounts (h : (t.observe env).accounts = (s.observe env).accounts) :
    Neutral env s t := by
  constructor
  · unfold balance
    rw [h]
  · intro a ha
    unfold dead at ha ⊢
    rw [← h]
    exact ha

theorem neutral_getStateObject (env : Env K V E) (s : StateDB K V E) (a : Address) :
    Neutral env s (s.getStateObject env a).2 :=
  neutral_of_accounts (congrArg accounts (observe_getStateObject env s a))

theorem neutral_getOrNewStateObject (env : Env K V E) (s : StateDB K V E) (a : Address) :
    Neutral env s (s.getOrNewStateObject env a).2 := by
  obtain ⟨hbalance, hdead⟩ := getOrNewStateObject_balance env s a
  exact ⟨hbalance, fun b hb => hdead ▸ hb⟩

variable {a : Address} {obj obj' : StateObject}

/-- An object with the balance of the one it replaces, and not marked unless that one is. -/
theorem neutral_setStateObject (hs : Tidy env s) (hobj : s.lookup env a = some obj)
    (haddr : obj'.address = obj.address) (hbalance : obj'.account.balance = obj.account.balance)
    (hdead : obj'.selfDestructed = true → obj.selfDestructed = true) :
    Neutral env s (s.setStateObject obj') := by
  obtain rfl := lookup_address env hs hobj
  have hview := accounts_of_lookup hobj
  constructor
  · rw [observe_setStateObject, balance_setAccount, haddr, update_eq_self_iff, balance, hview]
    exact hbalance
  · intro b hb
    rw [observe_setStateObject, dead_setAccount, haddr, update_apply] at hb
    split at hb
    · rename_i heq
      rw [heq, dead, hview]
      exact hdead hb
    · exact hb

theorem neutral_append (env : Env K V E) (s : StateDB K V E) (e : JournalEntry E) :
    Neutral env s (s.append e) :=
  neutral_of_accounts rfl

/-- An operation that looks an object up, or makes it, and changes neither its balance nor
its mark. -/
theorem neutral_update (hs : Sound env s) (obj' : StateObject)
    (haddr : obj'.address = (s.getOrNewStateObject env a).1.address)
    (hbalance : obj'.account.balance = (s.getOrNewStateObject env a).1.account.balance)
    (hdead : obj'.selfDestructed = (s.getOrNewStateObject env a).1.selfDestructed)
    (e : JournalEntry E) :
    Neutral env s (((s.getOrNewStateObject env a).2.append e).setStateObject obj') := by
  obtain ⟨hf, hl⟩ : Loaded env Set.univ s _ a _ := getOrNewStateObject_follows hs a
  refine (neutral_getOrNewStateObject env s a).trans ((neutral_append env _ e).trans ?_)
  have htidy : Tidy env ((s.getOrNewStateObject env a).2.append e) :=
    ⟨hf.tidy.address, hf.tidy.code⟩
  exact neutral_setStateObject htidy hl haddr hbalance fun h => hdead ▸ h

theorem neutral_setNonce (hs : Sound env s) (a : Address) (nonce : BitVec 64) :
    Neutral env s (s.setNonce env a nonce) :=
  neutral_update hs ((s.getOrNewStateObject env a).1.setNonce nonce) rfl rfl rfl _

section

variable (hs : Sound env s)
include hs

theorem neutral_setCode (a : Address) (code : Option Bytes) :
    Neutral env s (s.setCode env a code).2 := by
  obtain ⟨haccount, hdead⟩ := getCode_funds env
    (s.getOrNewStateObject env a).2.ctx.reads (s.getOrNewStateObject env a).1
  have hbalance := congrArg Account.balance haccount
  exact neutral_update hs (StateObject.setCode _ (env.keccak256 (code.getD [])) code)
    (StateObject.getCode_address ..) hbalance hdead _

theorem neutral_setState (a : Address) (key value : Hash) :
    Neutral env s (s.setState env a key value).2 := by
  obtain ⟨haccount, hdead⟩ := getState_funds env
    (s.getOrNewStateObject env a).2.ctx.reads (s.getOrNewStateObject env a).1 key
  simp only [setState]
  split
  · obtain ⟨hf, hl⟩ : Loaded env Set.univ s _ a _ := getOrNewStateObject_follows hs a
    refine (neutral_getOrNewStateObject env s a).trans (neutral_setStateObject hf.tidy hl
      (StateObject.getState_address ..) (congrArg Account.balance haccount) fun h => hdead ▸ h)
  · exact neutral_update hs (StateObject.setState _ key value) (StateObject.getState_address ..)
      (congrArg Account.balance haccount) hdead _

/-- An operation on an account that exists. -/
theorem neutral_found (hfound : s.getStateObject env a = (some obj, s'))
    (haddr : obj'.address = obj.address) (hbalance : obj'.account.balance = obj.account.balance)
    (hdead : obj'.selfDestructed = true → obj.selfDestructed = true) :
    Neutral env s (s'.setStateObject obj') := by
  have hload := neutral_getStateObject env s a
  have htidy := getStateObject_tidy env hs.tidy a
  have hl := lookup_getStateObject env s a
  rw [hfound] at hload htidy hl
  exact hload.trans (neutral_setStateObject htidy hl haddr hbalance hdead)

theorem neutral_createContract (h : s.createContract env a = .ok t) :
    Neutral env s t := by
  unfold createContract at h
  cases hfound : s.getStateObject env a with
  | mk obj? s' =>
    rw [hfound] at h
    cases obj? with
    | none => cases h
    | some obj =>
      simp only at h
      split at h
      · cases h
        have hload := neutral_getStateObject env s a
        rw [hfound] at hload
        exact hload
      · cases h
        have hset : Neutral env s (s'.setStateObject { obj with newContract := true }) :=
          neutral_found hs hfound rfl rfl id
        exact hset.trans (neutral_append env _ _)

theorem neutral_createAccount (a : Address) :
    Neutral env s (s.createAccount env a) := by
  have hload := neutral_getStateObject env s a
  have htidy := getStateObject_tidy env hs.tidy a
  have hl := lookup_getStateObject env s a
  unfold createAccount createObject
  generalize s.getStateObject env a = res at hload htidy hl
  obtain ⟨obj?, s'⟩ := res
  refine Neutral.trans hload ?_
  cases obj? with
  | none =>
    have hview : (s'.observe env).accounts a = none := by
      rw [observe_accounts, hl]
      rfl
    refine (neutral_append env s' (.createObjectChange a)).trans ⟨?_, fun b hb => ?_⟩
    · rw [observe_setStateObject, balance_setAccount, update_eq_self_iff]
      change 0 = (s'.observe env).balance a
      rw [balance, hview]
      rfl
    · rw [observe_setStateObject, dead_setAccount, update_apply] at hb
      split at hb
      · cases hb
      · exact hb
  | some obj =>
    obtain rfl : obj.address = a := lookup_address env htidy hl
    change Neutral env s' (((s'.append (.resetObjectChange obj)).setStateObject
      (newObject obj.address (zeroAccount env))).setStateObject
        ((newObject obj.address (zeroAccount env)).setBalance obj.account.balance))
    rw [setStateObject_setStateObject]
    · refine (neutral_append env s' (.resetObjectChange obj)).trans ?_
      have htidy' : Tidy env (s'.append (.resetObjectChange obj)) := ⟨htidy.address, htidy.code⟩
      exact neutral_setStateObject htidy' hl rfl rfl fun h => by cases h
    · rfl

/-- A getter that loads something into an object. -/
theorem neutral_load (hfound : s.getStateObject env a = (some obj, s'))
    (haddr : obj'.address = obj.address)
    (hfunds : obj'.account = obj.account ∧ obj'.selfDestructed = obj.selfDestructed) :
    Neutral env s (s'.setStateObject obj') :=
  neutral_found hs hfound haddr (congrArg Account.balance hfunds.1) fun h => hfunds.2 ▸ h

end

/-- The operation is none of those on balances. -/
def Op.KeepsBalance : Op → Prop
  | .addBalance .. | .subBalance .. | .setBalance .. | .selfDestruct _ | .selfDestruct6780 _ =>
    False
  | _ => True

/-- An operation that is none of those on balances changes none. -/
theorem step_neutral (hs : Sound env s) {op : Op} (hplain : op.Plain) (hkeeps : op.KeepsBalance)
    (h : s.step env op = .ok t) : Neutral env s t := by
  cases op with
  | addBalance | subBalance | setBalance | selfDestruct | selfDestruct6780 => exact hkeeps.elim
  | snapshot | revertToSnapshot => exact hplain.elim
  | setNonce a nonce =>
    cases h
    exact neutral_setNonce hs a nonce
  | setCode a code =>
    cases h
    exact neutral_setCode hs a code
  | setState a key value =>
    cases h
    exact neutral_setState hs a key value
  | setTransientState a key value =>
    cases h
    simp only [setTransientState]
    split <;> exact neutral_of_accounts rfl
  | addRefund gas =>
    cases h
    exact neutral_of_accounts rfl
  | subRefund gas =>
    simp only [step, subRefund] at h
    split at h
    · cases h
    · cases h
      exact neutral_of_accounts rfl
  | addLog log =>
    cases h
    exact neutral_of_accounts rfl
  | createAccount a =>
    cases h
    exact neutral_createAccount hs a
  | createContract a => exact neutral_createContract hs h
  | addAddressToAccessList a =>
    cases h
    simp only [addAddressToAccessList]
    split <;> exact neutral_of_accounts rfl
  | addSlotToAccessList a slot =>
    obtain ⟨⟨al, addrMod, slotMod⟩, hadd, rfl⟩ := Outcomes.map_eq_ok.mp h
    cases addrMod <;> cases slotMod <;> exact neutral_of_accounts rfl
  | loadAccount a =>
    cases h
    exact neutral_getStateObject env s a
  | loadCode a | loadState a key | loadCommittedState a key =>
    cases h
    have hload := neutral_getStateObject env s a
    simp only [getCode, getState, getCommittedState]
    cases hfound : s.getStateObject env a with
    | mk obj? s' =>
      rw [hfound] at hload
      cases obj? with
      | none => exact hload
      | some obj =>
        first
        | exact neutral_load hs hfound (getCode_address ..) (getCode_funds env _ obj)
        | exact neutral_load hs hfound (getState_address ..) (getState_funds env _ obj _)
        | exact neutral_load hs hfound (getCommittedState_address ..)
            (getCommittedState_funds env _ obj _)

/-! ## Self-destruction -/

/-- Setting balances leaves the marks of new contracts. -/
theorem changeBalance_newContract (hs : Sound env s) (a : Address) (amount : Uint256) :
    (((s.addBalance env a amount).2.isNewContract env a).1 = (s.isNewContract env a).1) ∧
      (((s.subBalance env a amount).2.isNewContract env a).1 = (s.isNewContract env a).1) := by
  obtain ⟨hf, hl⟩ : Loaded env Set.univ s _ a _ := getOrNewStateObject_follows hs a
  have hfresh : ((((s.getOrNewStateObject env a).2.observe env).accounts a).map
      AccountView.newContract).getD false = (s.isNewContract env a).1 := by
    rw [isNewContract_eq]
    rcases getOrNewStateObject_accounts env s a with h | ⟨hnone, v, -, -, hnew, h⟩
    · rw [h]
    · rw [h, update_self, hnone]
      exact hnew
  rw [accounts_of_lookup hl] at hfresh
  have hset : ∀ x, (((s.getOrNewStateObject env a).2.setObjectBalance
      (s.getOrNewStateObject env a).1 x).2.isNewContract env a).1 = (s.isNewContract env a).1 := by
    intro x
    have hfound := lookup_address env hf.tidy hl
    have haddr : ((s.getOrNewStateObject env a).1.setBalance x).address = a := hfound
    rw [isNewContract_eq, setObjectBalance, observe_setStateObject, haddr, setAccount_accounts]
    exact hfresh
  have hsame : ((s.getOrNewStateObject env a).2.isNewContract env a).1 =
      (s.isNewContract env a).1 := by
    rw [isNewContract_eq, accounts_of_lookup hl]
    exact hfresh
  simp only [addBalance, subBalance]
  constructor <;> split
  · exact hsame
  · exact hset _
  · exact hsame
  · exact hset _

/-- `SelfDestruct6780` does nothing, or empties and marks a new contract. -/
theorem selfDestruct6780_cases (hs : Sound env s) (a : Address) :
    (s.selfDestruct6780 env a).2.observe env = s.observe env ∨
      (s.isNewContract env a).1 = true ∧
      ((s.selfDestruct6780 env a).2.observe env).balance = update (s.observe env).balance a 0 ∧
      ((s.selfDestruct6780 env a).2.observe env).dead =
        update (s.observe env).dead a true := by
  have hobs := observe_getStateObject env s a
  have htidy := getStateObject_tidy env hs.tidy a
  have hl := lookup_getStateObject env s a
  unfold selfDestruct6780 isNewContract
  generalize s.getStateObject env a = res at hobs htidy hl
  obtain ⟨obj?, s'⟩ := res
  cases obj? with
  | none => exact Or.inl hobs
  | some obj =>
    dsimp only at hobs htidy hl ⊢
    cases hnew : obj.newContract with
    | false =>
      exact Or.inl hobs
    | true =>
      rw [if_pos rfl]
      have hobs' := observe_getStateObject env s' a
      have hfst' := (getStateObject_fst env s' a).trans hl
      refine Or.inr ⟨hnew, ?_⟩
      unfold selfDestruct
      generalize s'.getStateObject env a = res at hobs' hfst'
      obtain ⟨obj?, s''⟩ := res
      obtain rfl : obj? = some obj := hfst'
      obtain rfl : obj.address = a := lookup_address env htidy hl
      rw [observe_setStateObject, balance_setAccount, dead_setAccount]
      change update (s''.observe env).balance obj.address 0 = _ ∧
        update (s''.observe env).dead obj.address true = _
      rw [hobs', hobs]
      exact ⟨rfl, rfl⟩

/-! ## Commit loops -/

variable [DecidableEq K]

/-- A commit loop leaves the supply, and the coins of every account that is not dirty. -/
theorem written_frame (hbook : Booked env coins.books) (law : env.Lawful) (hs : Tidy env s)
    (h : Written env s.stateObjects s.journal.dirties.keys r r') :
    coins.supply r' = coins.supply r ∧
      ∀ x, (∀ a ∈ s.journal.dirties.keys, x ≠ addressBytes a) →
        coins.balance r' x = coins.balance r x := by
  obtain ⟨hframe, -⟩ := h.leavesBalance hbook law coins.books_key hs.address (FMap.keys_nodup _)
  refine ⟨hframe none fun _ _ h => (Option.some_ne_none _ h.symm).elim, fun x hx => ?_⟩
  exact hframe (some x) fun a ha heq => hx a ha (Option.some.inj heq)

/-- The coins of all accounts change by what a commit loop changes at dirty accounts. -/
theorem written_total (hbook : Booked env coins.books) (law : env.Lawful) (hs : Tidy env s)
    (h : Written env s.stateObjects s.journal.dirties.keys r r') (hfinite : coins.Finite r) :
    coins.Finite r' ∧ coins.total r' = coins.total r +
      (s.journal.dirties.keys.map fun a =>
        coins.balance r' (addressBytes a) - coins.balance r (addressBytes a)).sum :=
  finsum_of_eq_off (fun _ _ h => addressBytes_inj h) (FMap.keys_nodup _) hfinite
    (written_frame hbook law hs h).2

/-- Every address that has coins has an account. -/
def Covered (env : Env K V E) (coins : Coinage K V) (r : Reads K V) : Prop :=
  ∀ a, env.getAccount r a = none → coins.balance r (addressBytes a) = 0

omit [TransOrd K] in
theorem covered_commitObject (hbook : Booked env coins.books) (law : env.Lawful)
    (h : Covered env coins r) (herr : (commitObject env obj r).err = none) :
    Covered env coins (overwritten r (commitObject env obj r).writes) := by
  obtain ⟨x, hentry, hleaves⟩ := book_commitObject hbook law herr
  have hwrote := commitObject_wrote law herr
  intro a hnone
  have hbalance : coins.balance (overwritten r (commitObject env obj r).writes) (addressBytes a) =
      update (coins.books.entry r) (coins.books.key obj.address) x
        (coins.books.key a) := congrFun hentry (some (addressBytes a))
  by_cases ha : a = obj.address
  · subst ha
    rw [hbalance, update_self]
    unfold LeavesBalance at hleaves
    cases hdead : obj.selfDestructed with
    | false =>
      have hsome : env.getAccount _ obj.address = some obj.account := hwrote.account hdead
      rw [hnone] at hsome
      cases hsome
    | true =>
      rw [hdead, if_pos rfl] at hleaves
      rcases hleaves with hzero | ⟨hsame, hnone'⟩
      · exact hzero
      · exact hsame.trans (h obj.address hnone')
  · rw [hbalance, update_of_ne fun heq => ha (coins.books_key heq)]
    refine h a ?_
    rw [← hnone]
    exact (hwrote.account_of_ne a ha).symm

omit [TransOrd K] in
theorem covered_written (hbook : Booked env coins.books) (law : env.Lawful)
    {objects : FMap Address StateObject} {addrs : List Address}
    (h : Written env objects addrs r r') (hr : Covered env coins r) : Covered env coins r' := by
  induction h with
  | nil r => exact hr
  | cons _ herr _ ih => exact ih (covered_commitObject hbook law hr herr)

/-- A commit loop leaves no debts. -/
theorem nonneg_written (hbook : Booked env coins.books) (law : env.Lawful) (hs : Tidy env s)
    (h : Written env s.stateObjects s.journal.dirties.keys r r')
    (hr : ∀ x, 0 ≤ coins.balance r x) (x : Bytes) : 0 ≤ coins.balance r' x := by
  obtain ⟨hframe, hwalked⟩ :=
    h.leavesBalance hbook law coins.books_key hs.address (FMap.keys_nodup _)
  by_cases hx : ∃ a ∈ s.journal.dirties.keys, some x = coins.books.key a
  · obtain ⟨a, ha, heq⟩ := hx
    obtain ⟨obj, hobj, hleaves⟩ := hwalked a ha
    have hvalue : ∀ amount, 0 ≤ coins.books.value amount := fun amount => Int.natCast_nonneg _
    change 0 ≤ coins.books.entry r' (some x)
    rw [heq]
    unfold LeavesBalance at hleaves
    split at hleaves
    · rcases hleaves with hzero | ⟨hsame, -⟩
      · rw [hzero]
        exact hvalue 0
      · rw [hsame]
        exact hr _
    · rw [hleaves]
      exact hvalue _
  · have hsame := hframe (some x) fun a ha heq => hx ⟨a, ha, heq⟩
    change 0 ≤ coins.books.entry r' (some x)
    rw [hsame]
    exact hr x

end StateDB

/-! ## What a commit would leave -/

namespace Observation

variable {o o' : Observation K V E}

/-- The coins of every account: those in the database for addresses of the EVM, and those
in the bank for others. -/
noncomputable def holdings (coins : Coinage K V) (o : Observation K V E) : Bytes → Int :=
  extend addressBytes (fun a => ((o.balance a).toNat : Int)) (coins.balance o.contents)

theorem holdings_address (coins : Coinage K V) (o : Observation K V E) (a : Address) :
    o.holdings coins (addressBytes a) = (o.balance a).toNat :=
  Injective.extend_apply (fun _ _ h => addressBytes_inj h) _ _ a

theorem holdings_other (coins : Coinage K V) (o : Observation K V E) {x : Bytes}
    (hx : ¬ ∃ a, addressBytes a = x) : o.holdings coins x = coins.balance o.contents x :=
  extend_apply' _ _ _ hx

/-- Holdings with other balances at one account. -/
theorem holdings_update (hcontents : o'.contents = o.contents) {a : Address}
    (hbalance : ∀ b, b ≠ a → o'.balance b = o.balance b) :
    o'.holdings coins =
      update (o.holdings coins) (addressBytes a) ((o'.balance a).toNat : Int) := by
  funext x
  by_cases hx : ∃ b, addressBytes b = x
  · obtain ⟨b, rfl⟩ := hx
    rw [holdings_address, update_apply]
    split
    · rename_i heq
      rw [addressBytes_inj heq]
    · rename_i hne
      rw [holdings_address, hbalance b fun heq => hne (congrArg addressBytes heq)]
  · rw [holdings_other coins o' hx, hcontents, update_of_ne fun heq => hx ⟨a, heq.symm⟩,
      holdings_other coins o hx]

theorem holdings_congr (hbalance : o'.balance = o.balance)
    (hother : ∀ x, (¬ ∃ a, addressBytes a = x) →
      coins.balance o'.contents x = coins.balance o.contents x) :
    o'.holdings coins = o.holdings coins := by
  funext x
  by_cases hx : ∃ a, addressBytes a = x
  · obtain ⟨a, rfl⟩ := hx
    rw [holdings_address, holdings_address, hbalance]
  · rw [holdings_other coins o' hx, holdings_other coins o hx, hother x hx]

theorem holdings_nonneg (hnonneg : ∀ x, 0 ≤ coins.balance o.contents x) (x : Bytes) :
    0 ≤ o.holdings coins x := by
  by_cases hx : ∃ a, addressBytes a = x
  · obtain ⟨a, rfl⟩ := hx
    rw [holdings_address]
    exact Int.natCast_nonneg _
  · rw [holdings_other coins o hx]
    exact hnonneg x

/-- The holdings add up to the supply, which a 256-bit number can hold. No account that is
marked as self-destructed has any, and every address with coins has an account. -/
structure Conserves (env : Env K V E) (coins : Coinage K V) (o : Observation K V E) : Prop where
  finite : (support (o.holdings coins)).Finite
  total : ∑ᶠ x, o.holdings coins x = coins.supply o.contents
  bound : coins.supply o.contents < 2 ^ 256
  nonneg : ∀ x, 0 ≤ coins.balance o.contents x
  covered : StateDB.Covered env coins o.contents
  dead : ∀ a, o.dead a = true → o.balance a = 0

/-- What changes no balance and marks no account with coins conserves. -/
theorem Conserves.congr (h : Conserves env coins o) (hcontents : o'.contents = o.contents)
    (hbalance : o'.balance = o.balance) (hdead : ∀ a, o'.dead a = true → o.balance a = 0) :
    Conserves env coins o' := by
  have hholdings : o'.holdings coins = o.holdings coins :=
    holdings_congr hbalance fun x _ => by rw [hcontents]
  constructor
  · rw [hholdings]
    exact h.finite
  · rw [hholdings, hcontents]
    exact h.total
  · rw [hcontents]
    exact h.bound
  · rw [hcontents]
    exact h.nonneg
  · rw [hcontents]
    exact h.covered
  · rw [hbalance]
    exact hdead

/-- A transfer conserves, unless it is to an account that is marked as self-destructed. -/
theorem Conserves.transfer {o₁ o₂ : Observation K V E} (h : Conserves env coins o)
    {a b : Address} {amount : Uint256} (hfunds : amount.toNat ≤ (o.balance a).toNat)
    (hlive : amount = 0 ∨ o.dead b = false)
    (hcontents₁ : o₁.contents = o.contents) (hcontents₂ : o₂.contents = o.contents)
    (hsub : ∀ x, o₁.balance x = o.balance x + if a = x then -amount else 0)
    (hadd : ∀ x, o₂.balance x = o₁.balance x + if b = x then amount else 0)
    (hdead : o₂.dead = o.dead) : Conserves env coins o₂ := by
  have hother : ∀ {y : Uint256} {x c : Address}, x ≠ c → (if c = x then y else 0) = 0 :=
    fun hne => if_neg fun heq => hne heq.symm
  have hpaid : (o₁.balance a).toNat = (o.balance a).toNat - amount.toNat := by
    rw [hsub a, if_pos rfl, ← BitVec.sub_eq_add_neg]
    exact BitVec.toNat_sub_of_le hfunds
  have hkept₁ : ∀ x, x ≠ a → o₁.balance x = o.balance x := by
    intro x hx
    rw [hsub x, hother hx]
    exact BitVec.add_zero _
  have hkept₂ : ∀ x, x ≠ b → o₂.balance x = o₁.balance x := by
    intro x hx
    rw [hadd x, hother hx]
    exact BitVec.add_zero _
  obtain ⟨hfinite₁, htotal₁⟩ := finsum_update h.finite (addressBytes a) ((o₁.balance a).toNat : Int)
  rw [← holdings_update hcontents₁ hkept₁, holdings_address, h.total, hpaid] at htotal₁
  rw [← holdings_update hcontents₁ hkept₁] at hfinite₁
  have hnonneg₁ : ∀ x, 0 ≤ o₁.holdings coins x :=
    holdings_nonneg (by rw [hcontents₁]; exact h.nonneg)
  have hreceiver : ((o₁.balance b).toNat : Int) ≤ ∑ᶠ x, o₁.holdings coins x := by
    rw [← holdings_address coins o₁ b]
    exact single_le_finsum _ hfinite₁ hnonneg₁
  have hgot : (o₂.balance b).toNat = (o₁.balance b).toNat + amount.toNat := by
    rw [hadd b, if_pos rfl]
    refine BitVec.toNat_add_of_lt ?_
    have hbound := h.bound
    omega
  obtain ⟨hfinite₂, htotal₂⟩ := finsum_update hfinite₁ (addressBytes b) ((o₂.balance b).toNat : Int)
  have hcontents : o₂.contents = o₁.contents := hcontents₂.trans hcontents₁.symm
  rw [← holdings_update hcontents hkept₂, holdings_address, htotal₁, hgot] at htotal₂
  rw [← holdings_update hcontents hkept₂] at hfinite₂
  refine ⟨hfinite₂, ?_, ?_, ?_, ?_, ?_⟩
  · rw [htotal₂, hcontents₂]
    omega
  · rw [hcontents₂]
    exact h.bound
  · rw [hcontents₂]
    exact h.nonneg
  · rw [hcontents₂]
    exact h.covered
  · intro x hx
    rw [hdead] at hx
    have hzero := h.dead x hx
    by_cases hamount : amount = 0
    · subst hamount
      rw [hadd x, hsub x, hzero]
      split <;> split <;> rfl
    · have ha : x ≠ a := by
        rintro rfl
        rw [hzero] at hfunds
        exact hamount (BitVec.eq_of_toNat_eq (Nat.le_zero.mp hfunds))
      have hb : x ≠ b := by
        rintro rfl
        rw [hx] at hlive
        exact hlive.elim hamount Bool.noConfusion
      rw [hkept₂ x hb, hkept₁ x ha, hzero]

/-- Emptying and marking an account conserves if it has no coins. -/
theorem Conserves.mark (h : Conserves env coins o) {a : Address} (hzero : o.balance a = 0)
    (hcontents : o'.contents = o.contents) (hbalance : o'.balance = update o.balance a 0)
    (hdead : o'.dead = update o.dead a true) : Conserves env coins o' := by
  have hsame : o'.balance = o.balance := by
    rw [hbalance, ← hzero, update_eq_self]
  refine h.congr hcontents hsame fun b hb => ?_
  rw [hdead, update_apply] at hb
  split at hb
  · rename_i heq
    rw [heq, hzero]
  · exact h.dead b hb

end Observation

end InfiniteEvm
