import InfiniteEvm.Precompiles.Reverting
import InfiniteEvm.StateDB.Balances

/-!
# What the balance handler adds up to

Every bank event reports a change of one balance. The handler adds the reported changes
of the events it walks to the balances of the state database, each to the address that
the last 20 bytes of the reported one give, and changes nothing else that matters to
balances.
-/

namespace InfiniteEvm

open Std Library SnapshotMulti List

variable {K V : Type*} [Ord K] [TransOrd K]
variable {env : Env K V Event} {codec : BankCodec}

/-! ## Reported changes -/

/-- One side of a transfer, as an event reports it. -/
def reportedSide (codec : BankCodec) (key : String) (sign : Int) (event : Event) :
    Option (Bytes × Int) :=
  match parseAddress codec event key with
  | .error _ => none
  | .ok addr =>
    if codec.blockedAddr addr then none
    else
      match parseAmount codec event with
      | .error _ => none
      | .ok amount => some (addr, sign * amount.toNat)

/-- The address and the change of its balance that an event reports, if it is a bank event
of an address that is not blocked. -/
def reported (codec : BankCodec) (event : Event) : Option (Bytes × Int) :=
  if event.type = eventTypeCoinSpent then reportedSide codec attributeKeySpender (-1) event
  else if event.type = eventTypeCoinReceived then reportedSide codec attributeKeyReceiver 1 event
  else none

/-- A reported change, if it is for one of the addresses in `p`. -/
def changeIn (p : Bytes → Prop) [DecidablePred p] : Option (Bytes × Int) → Int
  | none => 0
  | some (addr, change) => if p addr then change else 0

/-- What events report for the addresses in `p`. -/
def reportedSum (codec : BankCodec) (events : List Event) (p : Bytes → Prop) [DecidablePred p] :
    Int :=
  (events.map fun event => changeIn p (reported codec event)).sum

/-- What the handler adds to the balance of `a`, which gets what is reported for any
address that ends in its 20 bytes. -/
def handledSum (codec : BankCodec) (events : List Event) (a : Address) : Int :=
  reportedSum codec events fun addr => bytesToAddress addr = a

section Sums

variable {p q : Bytes → Prop} [DecidablePred p] [DecidablePred q]

theorem reportedSum_append (events events' : List Event) :
    reportedSum codec (events ++ events') p =
      reportedSum codec events p + reportedSum codec events' p := by
  rw [reportedSum, map_append, sum_append]
  rfl

theorem reportedSum_cons (event : Event) (events : List Event) :
    reportedSum codec (event :: events) p =
      changeIn p (reported codec event) + reportedSum codec events p := by
  rfl

/-- The event is one of the two that the handler reads. -/
def Event.isBank (event : Event) : Bool :=
  event.type = eventTypeCoinSpent ∨ event.type = eventTypeCoinReceived

theorem reported_of_not_bank {event : Event} (h : event.isBank = false) :
    reported codec event = none := by
  rw [Event.isBank, decide_eq_false_iff_not, not_or] at h
  rw [reported, if_neg h.1, if_neg h.2]

/-- Only bank events count. -/
theorem reportedSum_filter (events : List Event) :
    reportedSum codec (events.filter Event.isBank) p = reportedSum codec events p := by
  induction events with
  | nil => rfl
  | cons event rest ih =>
    rw [reportedSum_cons, ← ih]
    cases hbank : event.isBank with
    | true => rw [filter_cons_of_pos hbank, reportedSum_cons]
    | false =>
      rw [filter_cons_of_neg (by simp [hbank]), reported_of_not_bank hbank]
      exact (Int.zero_add _).symm

end Sums

theorem ofInt_amount (amount : Uint256) : BitVec.ofInt 256 (1 * amount.toNat) = amount := by
  rw [Int.one_mul, BitVec.ofInt_natCast, BitVec.ofNat_toNat, BitVec.setWidth_eq]

theorem ofInt_neg_amount (amount : Uint256) : BitVec.ofInt 256 (-1 * amount.toNat) = -amount := by
  rw [Int.neg_one_mul, BitVec.ofInt_neg, BitVec.ofInt_natCast, BitVec.ofNat_toNat,
    BitVec.setWidth_eq]

namespace StateDB

variable {s : StateDB K V Event}

/-! ## The handler -/

/-- One side of a transfer in the handler, if `change` adds the amount under a sign. -/
theorem applyBankEvent_balance {role key : String} (sign : Int)
    (change : StateDB K V Event → Address → Uint256 → StateDB K V Event)
    (hchange : ∀ a amount, (∀ b, ((change s a amount).observe env).balance b =
        (s.observe env).balance b +
          if a = b then BitVec.ofInt 256 (sign * amount.toNat) else 0) ∧
      ((change s a amount).observe env).dead = (s.observe env).dead)
    (event : Event) (hok : (applyBankEvent codec role key change s event).1 = none) :
    (∀ b, ((applyBankEvent codec role key change s event).2.observe env).balance b =
      (s.observe env).balance b + BitVec.ofInt 256 (changeIn (fun addr => bytesToAddress addr = b)
        (reportedSide codec key sign event))) ∧
    ((applyBankEvent codec role key change s event).2.observe env).dead =
      (s.observe env).dead := by
  unfold applyBankEvent reportedSide at *
  cases haddr : parseAddress codec event key with
  | error err => simp [haddr] at hok
  | ok addr =>
    simp only [haddr] at hok ⊢
    split at hok
    · rename_i hblocked
      rw [if_pos hblocked, if_pos hblocked]
      exact ⟨fun b => (BitVec.add_zero _).symm, rfl⟩
    · rename_i hblocked
      simp only [hblocked, if_false, Bool.false_eq_true] at hok ⊢
      cases hamount : parseAmount codec event with
      | error err => simp [hamount] at hok
      | ok amount =>
        obtain ⟨hbalance, hdead⟩ := hchange (bytesToAddress addr) amount
        refine ⟨fun b => (hbalance b).trans ?_, hdead⟩
        rw [changeIn, apply_ite (BitVec.ofInt 256)]
        rfl

/-- The handler adds what an event reports. -/
theorem handleEvent_balance (hs : Sound env s) (event : Event)
    (hok : (s.handleEvent env codec event).1 = none) :
    (∀ b, ((s.handleEvent env codec event).2.observe env).balance b =
        (s.observe env).balance b + BitVec.ofInt 256
          (changeIn (fun addr => bytesToAddress addr = b) (reported codec event))) ∧
      ((s.handleEvent env codec event).2.observe env).dead = (s.observe env).dead := by
  unfold reported
  unfold handleEvent at hok ⊢
  by_cases hspent : event.type = eventTypeCoinSpent
  · rw [if_pos hspent] at hok
    rw [if_pos hspent, if_pos hspent]
    refine applyBankEvent_balance (-1)
      (fun s a amount => (s.subBalance env a amount).2) (fun a amount => ?_) event hok
    rw [ofInt_neg_amount]
    exact subBalance_balance hs a amount
  · by_cases hreceived : event.type = eventTypeCoinReceived
    · rw [if_neg hspent, if_pos hreceived] at hok
      rw [if_neg hspent, if_pos hreceived, if_neg hspent, if_pos hreceived]
      refine applyBankEvent_balance 1
        (fun s a amount => (s.addBalance env a amount).2) (fun a amount => ?_) event hok
      rw [ofInt_amount]
      exact addBalance_balance hs a amount
    · rw [if_neg hspent, if_neg hreceived, if_neg hspent, if_neg hreceived]
      exact ⟨fun b => (BitVec.add_zero _).symm, rfl⟩

/-- The loop of the handler adds what the events report that were not processed before. -/
theorem handleEvents_balance (hs : Sound env s) (idx : Nat) (events : List Event)
    (hok : (s.handleEvents env codec idx events).1 = none) :
    (∀ b, ((s.handleEvents env codec idx events).2.observe env).balance b =
      (s.observe env).balance b + BitVec.ofInt 256
        (handledSum codec (events.drop (s.processedEventsCount - idx)) b)) ∧
    ((s.handleEvents env codec idx events).2.observe env).dead = (s.observe env).dead := by
  induction events generalizing s idx with
  | nil =>
    refine ⟨fun b => ?_, rfl⟩
    rw [drop_nil]
    exact (BitVec.add_zero _).symm
  | cons event rest ih =>
    unfold handleEvents at hok ⊢
    split at hok
    · rename_i hdone
      have hlt : idx < s.processedEventsCount := of_decide_eq_true hdone
      have hdrop : s.processedEventsCount - idx = (s.processedEventsCount - (idx + 1)) + 1 := by
        omega
      rw [if_pos hdone, hdrop, drop_succ_cons]
      exact ih hs (idx + 1) hok
    · rename_i hdone
      have hle : s.processedEventsCount - idx = 0 := by
        simp only [isEventProcessed, decide_eq_true_eq] at hdone
        omega
      rw [if_neg hdone, hle, drop_zero]
      have hfollows : Follows env Set.univ s (s.handleEvent env codec event).2 :=
        handleEvent_follows hs event
      have hone : (s.handleEvent env codec event).1 = none → _ := handleEvent_balance hs event
      generalize s.handleEvent env codec event = res at hok hone hfollows
      obtain ⟨err, s'⟩ := res
      cases err with
      | some err => cases hok
      | none =>
        obtain ⟨hbalance, hdead⟩ := hone rfl
        obtain ⟨hrest, hdead'⟩ := ih (hfollows.sound hs) (idx + 1) hok
        have hcount : s'.processedEventsCount - (idx + 1) = 0 := by
          rw [hfollows.cache.2]
          omega
        rw [hcount, drop_zero] at hrest
        refine ⟨fun b => ?_, hdead'.trans hdead⟩
        calc ((s'.handleEvents env codec (idx + 1) rest).2.observe env).balance b
            = (s'.observe env).balance b + BitVec.ofInt 256 (handledSum codec rest b) := hrest b
          _ = (s.observe env).balance b + BitVec.ofInt 256
                (changeIn (fun addr => bytesToAddress addr = b) (reported codec event)) +
              BitVec.ofInt 256 (handledSum codec rest b) := by rw [hbalance b]
          _ = (s.observe env).balance b +
              BitVec.ofInt 256 (handledSum codec (event :: rest) b) := by
              rw [handledSum, handledSum, reportedSum_cons, BitVec.ofInt_add, BitVec.add_assoc]

end StateDB

end InfiniteEvm
