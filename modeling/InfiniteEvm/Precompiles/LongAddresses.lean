import InfiniteEvm.Precompiles.Balances
import InfiniteEvm.StateDB.Supply

/-!
# Bank events of addresses of any length

The handler cuts the address of an event to its last 20 bytes. What is reported for a
longer address is then added to the balance of an account that native code did not touch,
and the commit writes that balance to the bank.
-/

namespace InfiniteEvm

open Std Library SnapshotMulti VM Option

variable {K V : Type*} [Ord K] [TransOrd K] [LawfulEqOrd K] [DecidableEq K]
variable {env : Env K V Event} {codec : BankCodec} {coins : Coinage K V}

/-- What events report for `a` under other addresses that are cut to it. -/
def strays (codec : BankCodec) (events : List Event) (a : Address) : Int :=
  reportedSum codec events fun addr => bytesToAddress addr = a ∧ addr ≠ addressBytes a

/-- The handler adds what is reported for an account and what strays to it. -/
theorem handledSum_eq (events : List Event) (a : Address) :
    handledSum codec events a =
      reportedSum codec events (fun addr => addr = addressBytes a) + strays codec events a := by
  unfold handledSum strays
  induction events with
  | nil => rfl
  | cons event rest ih =>
    have hone : changeIn (fun addr => bytesToAddress addr = a) (reported codec event) =
        changeIn (fun addr => addr = addressBytes a) (reported codec event) +
          changeIn (fun addr => bytesToAddress addr = a ∧ addr ≠ addressBytes a)
            (reported codec event) := by
      cases reported codec event with
      | none => rfl
      | some change =>
        obtain ⟨addr, amount⟩ := change
        by_cases haddr : addr = addressBytes a
        · simp [changeIn, haddr, bytesToAddress_addressBytes]
        · simp [changeIn, haddr]
    rw [reportedSum_cons, reportedSum_cons, reportedSum_cons, ih, hone]
    omega

/-- Nothing is reported for a blocked address. -/
theorem reportedSum_blocked {x : Bytes} (hx : codec.blockedAddr x = true) (events : List Event) :
    reportedSum codec events (fun addr => addr = x) = 0 := by
  have hside : ∀ key sign event, changeIn (fun addr => addr = x)
      (reportedSide codec key sign event) = 0 := by
    intro key sign event
    unfold reportedSide
    cases parseAddress codec event key with
    | error err => rfl
    | ok addr =>
      dsimp only
      split
      · rfl
      · rename_i hblocked
        cases parseAmount codec event with
        | error err => rfl
        | ok amount =>
          refine if_neg ?_
          rintro rfl
          exact hblocked hx
  induction events with
  | nil => rfl
  | cons event rest ih =>
    rw [reportedSum_cons, ih, Int.add_zero, reported]
    split
    · exact hside _ _ _
    · split
      · exact hside _ _ _
      · rfl

/-- Events report what native code does to every address that is not blocked. -/
def Truthful (codec : BankCodec) (coins : Coinage K V) (r : Reads K V) (e : Effects K V Event) :
    Prop :=
  ∀ x, codec.blockedAddr x = false → coins.balance (overwritten r e.writes) x =
    coins.balance r x + reportedSum codec e.events (fun addr => addr = x)

/-- Native code leaves the coins of an account alone. -/
def Coinage.Unmoved (coins : Coinage K V) (r : Reads K V) (e : Effects K V Event) (a : Address) :
    Prop :=
  coins.balance (overwritten r e.writes) (addressBytes a) = coins.balance r (addressBytes a)

theorem ofInt_eq_zero_iff (n : Int) : BitVec.ofInt 256 n = 0 ↔ (2 ^ 256 : Int) ∣ n := by
  rw [← BitVec.toNat_inj, BitVec.toNat_ofInt, Int.dvd_iff_emod_eq_zero]
  change (n % (2 ^ 256 : Nat)).toNat = 0 ↔ n % (2 ^ 256 : Nat) = 0
  omega

namespace StateDB

variable {s s₁ s₂ t u : StateDB K V Event} {e : Effects K V Event}
  {c : CacheContext K V Event}

/-- What a precompile call does to the database. -/
theorem nativeCall_balance (hs₁ : Valid env s₁) (hs₂ : Valid env s₂) (hc : s₁.cache = some c)
    (hcount : s₁.processedEventsCount = s₁.cacheEvents.length) (hnative : s₁.native e = .ok s₂)
    (hafter : s₂.afterBalanceChange env codec s₁.cacheEvents.length = .ok (none, t)) :
    (∀ a, (t.observe env).balance a = (s₁.observe env).balance a +
      BitVec.ofInt 256 (handledSum codec e.events a)) ∧
    (t.observe env).dead = (s₁.observe env).dead ∧ Valid env t ∧
    (t.observe env).contents = overwritten c.reads e.writes := by
  have hold : s₁.cacheEvents = c.events := by
    rw [cacheEvents, hc]
  obtain ⟨c', k, hc', hk, rfl⟩ := native_cases hnative
  obtain rfl := some.inj (hc.symm.trans hc')
  obtain ⟨-, hreads, hevents⟩ := CacheContext.apply_above (hs₁.good.cache c hc) hk
  obtain ⟨k', hk', hres⟩ := afterBalanceChange_cases hafter
  obtain rfl : k = k' := some.inj hk'
  rw [hold, hevents, List.drop_left] at hres
  have hfollows : Follows env Set.univ _ (handleEvents env codec _ _ _).2 :=
    handleEvents_follows hs₂.toSound c.events.length e.events
  obtain ⟨hbalance, hdead⟩ := handleEvents_balance hs₂.toSound c.events.length e.events
    (congrArg Prod.fst hres).symm
  rw [← congrArg Prod.snd hres] at hbalance hdead hfollows
  rw [hcount, hold, Nat.sub_self, List.drop_zero] at hbalance
  refine ⟨hbalance, hdead, hfollows.valid hs₂, ?_⟩
  rw [contents_congr hfollows.cache.1 hfollows.ctx_eq, contents_of_cache rfl, hreads]

/-- What a commit adds to the coins that an account has in `r`. -/
def drift (env : Env K V Event) (coins : Coinage K V) (r : Reads K V) (t : StateDB K V Event)
    (a : Address) : Int :=
  (t.getBalance env a).1.toNat - coins.balance r (addressBytes a)

/-- A commit changes the coins of all accounts by the drift of the dirty ones. -/
theorem commit_drift (hbook : Booked env coins.books) (law : env.Lawful) (ht : Valid env t)
    (hcommit : t.commit env = .ok (none, u)) (hdead : ∀ a, (t.observe env).dead a = false)
    (hfinite : coins.Finite (t.observe env).contents) :
    coins.supply u.ctx.reads = coins.supply (t.observe env).contents ∧
      coins.total u.ctx.reads = coins.total (t.observe env).contents +
        (t.journal.dirties.keys.map (drift env coins (t.observe env).contents t)).sum := by
  have hwritten := commit_written ht hcommit
  refine ⟨(written_frame hbook law ht.tidy hwritten).1, ?_⟩
  rw [(written_total hbook law ht.tidy hwritten hfinite).2, List.map_congr_left]
  intro a ha
  have hdirty : coins.balance u.ctx.reads (addressBytes a) = ((t.observe env).balance a).toNat :=
    written_dirty hbook law coins.books_key ht.tidy hwritten (ExtTreeMap.mem_keys.mp ha) (hdead a)
  rw [hdirty, drift, getBalance_eq]
  rfl

/-- Without strays a precompile call leaves no drift. -/
theorem nativeCall_drift {a : Address} {r : Reads K V}
    (hsettled : ((s₁.getBalance env a).1.toNat : Int) = coins.balance r (addressBytes a))
    (hbalance : (t.getBalance env a).1 = (s₁.getBalance env a).1 +
      BitVec.ofInt 256 (handledSum codec e.events a)) (htruthful : Truthful codec coins r e)
    (hblocked : codec.blockedAddr (addressBytes a) = true → coins.Unmoved r e a)
    (hstrays : (2 ^ 256 : Int) ∣ strays codec e.events a)
    (hrange : 0 ≤ coins.balance (overwritten r e.writes) (addressBytes a) ∧
      coins.balance (overwritten r e.writes) (addressBytes a) < 2 ^ 256) :
    drift env coins (overwritten r e.writes) t a = 0 := by
  have hmoved : coins.balance (overwritten r e.writes) (addressBytes a) =
      coins.balance r (addressBytes a) +
        reportedSum codec e.events (fun addr => addr = addressBytes a) := by
    cases hblock : codec.blockedAddr (addressBytes a) with
    | false => exact htruthful _ hblock
    | true =>
      rw [reportedSum_blocked hblock, Int.add_zero]
      exact hblocked hblock
  have hafter : (t.getBalance env a).1 =
      BitVec.ofInt 256 (coins.balance (overwritten r e.writes) (addressBytes a)) := by
    rw [hbalance, handledSum_eq, BitVec.ofInt_add, (ofInt_eq_zero_iff _).mpr hstrays, hmoved,
      BitVec.ofInt_add, ← hsettled, BitVec.ofInt_natCast, BitVec.ofNat_toNat, BitVec.setWidth_eq]
    congr 1
    exact BitVec.add_zero _
  rw [drift, hafter, BitVec.toNat_ofInt]
  omega

end StateDB

namespace Config

open StateDB

/-- A precompile call whose events report what its native code did to the bank, at any
point of a run. The balance of every account that the code left alone stays the same
exactly if nothing strays to such an account. The coins of all accounts then change like
the supply exactly if the drift of dirty accounts adds up to nothing, and there is no
drift if nothing strays to any account. -/
theorem unmoved_balances_iff_no_strays (env : Env K V Event) (law : env.Lawful)
    (codec : BankCodec) (coins : Coinage K V) (hbook : Booked env coins.books)
    (ctx : Context K V Event) (txIndex : Nat) (actions : List (Action K V)) (cfg : Config K V)
    (hrun : (init ctx txIndex).run env codec actions = some cfg)
    (s₁ s₂ t : StateDB K V Event) (c : CacheContext K V Event) (e : Effects K V Event)
    (hbegin : cfg.db.beginNative env = .ok (none, s₁)) (hcache : s₁.cache = some c)
    (htruthful : Truthful codec coins c.reads e) (hnative : s₁.native e = .ok s₂)
    (hafter : s₂.afterBalanceChange env codec s₁.cacheEvents.length = .ok (none, t)) :
    ((∀ a, coins.Unmoved c.reads e a → (t.getBalance env a).1 = (s₁.getBalance env a).1) ↔
      ∀ a, coins.Unmoved c.reads e a → (2 ^ 256 : Int) ∣ strays codec e.events a) ∧
    ∀ u, t.commit env = .ok (none, u) → (∀ a, (t.hasSelfDestructed env a).1 = false) →
      coins.Finite (overwritten c.reads e.writes) →
      coins.total (overwritten c.reads e.writes) - coins.total c.reads =
        coins.supply (overwritten c.reads e.writes) - coins.supply c.reads →
      (coins.total u.ctx.reads - coins.total c.reads =
          coins.supply u.ctx.reads - coins.supply c.reads ↔
        (t.journal.dirties.keys.map
          (drift env coins (overwritten c.reads e.writes) t)).sum = 0) ∧
      ((cfg.db.observe env).Agrees coins.books →
        (∀ a, (2 ^ 256 : Int) ∣ strays codec e.events a) →
        (∀ a, codec.blockedAddr (addressBytes a) = true → coins.Unmoved c.reads e a) →
        (∀ x, 0 ≤ coins.balance (overwritten c.reads e.writes) x ∧
          coins.balance (overwritten c.reads e.writes) x < 2 ^ 256) →
        ∀ a, drift env coins (overwritten c.reads e.writes) t a = 0) := by
  have hopen := run_open hrun
  have hvalid : Valid env cfg.db := Framed.valid hopen
  have hopen₁ : Framed env _ _ s₁ := (Framed.beginNative hopen).of_ok hbegin
  have hopen₂ : Framed env _ _ s₂ := (Framed.native hopen₁ e).of_ok hnative
  obtain ⟨v, hcalled, -, -, -, -, hflush⟩ := beginNative_flushed hvalid hbegin
  have hcount : s₁.processedEventsCount = s₁.cacheEvents.length := by
    obtain ⟨c', k, -, rfl, -⟩ := flush_written hcalled.inside.valid hflush
    rfl
  obtain ⟨hbalance, hdead, ht, hcontents⟩ :=
    nativeCall_balance hopen₁.valid hopen₂.valid hcache hcount hnative hafter
  have hget : ∀ a, (t.getBalance env a).1 = (s₁.getBalance env a).1 +
      BitVec.ofInt 256 (handledSum codec e.events a) := by
    intro a
    rw [getBalance_eq, getBalance_eq]
    exact hbalance a
  refine ⟨forall_congr' fun a => imp_congr_right fun hunmoved => ?_, ?_⟩
  · have hexact : reportedSum codec e.events (fun addr => addr = addressBytes a) = 0 := by
      cases hblock : codec.blockedAddr (addressBytes a) with
      | true => exact reportedSum_blocked hblock e.events
      | false =>
        have hreport := htruthful _ hblock
        rw [show coins.balance _ _ = coins.balance _ _ from hunmoved] at hreport
        omega
    rw [hget a, handledSum_eq, hexact, Int.zero_add, BitVec.add_right_eq_self]
    exact ofInt_eq_zero_iff _
  · intro u hcommit hstay hfinite hminted
    have hdead' : ∀ a, (t.observe env).dead a = false := by
      intro a
      have hstays := hstay a
      rw [hasSelfDestructed_eq] at hstays
      exact hstays
    constructor
    · rw [← hcontents] at hfinite hminted ⊢
      obtain ⟨hsupply, htotal⟩ := commit_drift hbook law ht hcommit hdead' hfinite
      omega
    · intro hagrees hstrays hblocked hrange a
      obtain ⟨hsettled, -⟩ := beginNative_settled hbook law coins.books_key hvalid hagrees hbegin
      have hbefore := hsettled a fun _ => by
        rw [← hdead]
        exact hdead' a
      rw [contents_of_cache hcache] at hbefore
      refine nativeCall_drift ?_ (hget a) htruthful (hblocked a) (hstrays a) (hrange _)
      rw [getBalance_eq]
      exact hbefore

/-- An address of 32 bytes that ends in those of account 5. -/
def longAddress : Bytes := List.replicate 12 1 ++ addressBytes 5

def longCodec : BankCodec :=
  .ofTables .eighteen
    [("seven", addressBytes 7), ("nine", addressBytes 9), ("long", longAddress)]
    [("10drop", [("drop", 10)])]

/-- The events of a transfer of ten coins. -/
def tenMoved (sender receiver : String) : List Event :=
  [⟨eventTypeCoinSpent, [(attributeKeySpender, sender), (attributeKeyAmount, "10drop")]⟩,
    ⟨eventTypeCoinReceived, [(attributeKeyReceiver, receiver), (attributeKeyAmount, "10drop")]⟩]

/-- Native code that leaves a book behind. -/
def leaving (book : Book) (events : List Event) : Effects Bytes Value Event where
  writes := [(bankStore, [], some (.book book))]
  events := events
  err := none

/-- Ten coins go from account 7 to the long address. -/
def tenToLong : Effects Bytes Value Event :=
  leaving ((storedBook smallContext.reads).transfer (addressBytes 7) longAddress
    [("drop", 10)]) (tenMoved "seven" "long")

/-- Ten coins go from account 7 to the long address, and from there to account 9. -/
def tenThroughLong : Effects Bytes Value Event :=
  leaving (((storedBook smallContext.reads).transfer (addressBytes 7) longAddress
    [("drop", 10)]).transfer longAddress (addressBytes 9) [("drop", 10)])
    (tenMoved "seven" "long" ++ tenMoved "long" "nine")

/-- Native code pays ten coins of account 7 to the long address. The bank has none for
account 5 when the precompile returns, and the database has ten. After the commit there
are 110 coins with a supply of 100. -/
theorem long_receiver_creates_coins :
    ((init smallContext 0).run smallKeeper.env longCodec
      [.enter, .call true, .native tenToLong, .finish]).map (fun cfg =>
        ((cfg.db.getBalance smallKeeper.env 5).1, cfg.db.cache.map fun c =>
          smallKeeper.coinage.balance c.reads (addressBytes 5))) = some (10, some 0) ∧
    ((init smallContext 0).run smallKeeper.env longCodec
      [.enter, .call true, .native tenToLong, .finish]).bind (fun cfg =>
        (cfg.db.commit smallKeeper.env).toOption.map fun p =>
          (p.1, [addressBytes 7, addressBytes 5, longAddress].map
            (smallKeeper.coinage.balance p.2.ctx.reads),
            smallKeeper.coinage.supply p.2.ctx.reads)) =
      some (none, [90, 10, 10], 100) := by
  decide +kernel

/-- What the four events of `tenThroughLong` report. -/
theorem tenThroughLong_reported (p : Bytes → Prop) [DecidablePred p] :
    reportedSum longCodec tenThroughLong.events p =
      (if p (addressBytes 7) then -10 else 0) + (if p longAddress then 10 else 0) +
        (if p longAddress then -10 else 0) + if p (addressBytes 9) then 10 else 0 := by
  have hreported : tenThroughLong.events.map (reported longCodec) =
      [some (addressBytes 7, -10), some (longAddress, 10), some (longAddress, -10),
        some (addressBytes 9, 10)] := by
    decide +kernel
  have hsum : reportedSum longCodec tenThroughLong.events p =
      ((tenThroughLong.events.map (reported longCodec)).map (changeIn p)).sum := by
    rfl
  rw [hsum, hreported]
  simp [changeIn]
  ring

theorem tenThroughLong_truthful {r : Contents}
    (hr : storedBook r = storedBook smallContext.reads) :
    Truthful longCodec smallKeeper.coinage r tenThroughLong := by
  intro x _
  have hbook : storedBook (overwritten r tenThroughLong.writes) =
      (((storedBook smallContext.reads).transfer (addressBytes 7) longAddress
        [("drop", 10)]).transfer longAddress (addressBytes 9) [("drop", 10)]) := by
    simp [storedBook, tenThroughLong, leaving, overwritten]
  change (storedBook (overwritten r tenThroughLong.writes)).balance x "drop" =
    (storedBook r).balance x "drop" + _
  rw [tenThroughLong_reported, hbook, hr, Book.transfer, Book.transfer]
  simp only [credit, Coins.amountOf_cons, if_true, eq_comm (b := x)]
  split <;> split <;> split <;> omega

theorem tenThroughLong_strays (a : Address) : strays longCodec tenThroughLong.events a = 0 := by
  have hself : ∀ b : Address,
      ¬ (bytesToAddress (addressBytes b) = a ∧ addressBytes b ≠ addressBytes a) := by
    rintro b ⟨heq, hne⟩
    rw [bytesToAddress_addressBytes] at heq
    exact hne (congrArg addressBytes heq)
  rw [strays, tenThroughLong_reported, if_neg (hself 7), if_neg (hself 9)]
  split <;> rfl

theorem unmoved_balances_iff_no_strays_through :
    ∃ (cfg : Config Bytes Value) (s₁ s₂ t : StateDB Bytes Value Event),
      (init smallContext 0).run smallKeeper.env longCodec [.enter] = some cfg ∧
      cfg.db.beginNative smallKeeper.env = .ok (none, s₁) ∧
      s₁.native tenThroughLong = .ok s₂ ∧
      s₂.afterBalanceChange smallKeeper.env longCodec s₁.cacheEvents.length = .ok (none, t) ∧
      (t.getBalance smallKeeper.env 9).1 = 10 ∧
      (t.getBalance smallKeeper.env 5).1 =
        (s₁.getBalance smallKeeper.env 5).1 := by
  have hcall : ((init smallContext 0).run smallKeeper.env longCodec
      [.enter]).map (fun cfg => (cfg.db.beginNative smallKeeper.env).map fun p =>
        (p.1, p.2.cache.map fun c => storedBook c.reads)) =
      some (.ok (none, some (storedBook smallContext.reads))) := rfl
  have hresult : (((init smallContext 0).run smallKeeper.env longCodec
      [.enter]).bind fun cfg => (cfg.db.beginNative smallKeeper.env).toOption.bind
        fun p => (p.2.native tenThroughLong).toOption.bind fun s₂ =>
          (s₂.afterBalanceChange smallKeeper.env longCodec
            p.2.cacheEvents.length).toOption.map fun q =>
              (q.1, (q.2.getBalance smallKeeper.env 9).1)) = some (none, 10) := by
    decide +kernel
  obtain ⟨cfg, hcfg, hresult⟩ := bind_eq_some_iff.mp hresult
  obtain ⟨⟨err, s₁⟩, hbegin, hresult⟩ := bind_eq_some_iff.mp hresult
  obtain ⟨s₂, hnative, hresult⟩ := bind_eq_some_iff.mp hresult
  obtain ⟨⟨err', t⟩, hafter, hresult⟩ := map_eq_some_iff.mp hresult
  obtain ⟨rfl, hnine⟩ := Prod.mk.inj hresult
  rw [Outcomes.toOption_eq_some] at hbegin hnative hafter
  rw [hcfg, map_some, hbegin] at hcall
  obtain ⟨rfl, hcache⟩ := Prod.mk.inj (Except.ok.inj (some.inj hcall))
  obtain ⟨c, hc, hbook⟩ := map_eq_some_iff.mp hcache
  refine ⟨cfg, s₁, s₂, t, hcfg, hbegin, hnative, hafter, hnine, ?_⟩
  obtain ⟨hframe, -⟩ := unmoved_balances_iff_no_strays smallKeeper.env
    smallKeeper_lawful longCodec smallKeeper.coinage
    smallKeeper_booked smallContext 0 [.enter] cfg hcfg s₁ s₂ t c
    tenThroughLong hbegin hc (tenThroughLong_truthful hbook) hnative hafter
  refine hframe.mpr (fun a _ => by rw [tenThroughLong_strays]; exact dvd_zero _) 5 ?_
  have hmoved := tenThroughLong_truthful hbook (addressBytes 5) rfl
  exact hmoved.trans (Int.add_zero _)

end Config

end InfiniteEvm
