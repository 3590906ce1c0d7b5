import InfiniteEvm.Library.Runs
import InfiniteEvm.PreciseBank.Exactness

/-!
# The reserve along runs

Every successful operation of the keeper leaves the reserve with what it backs, plus the
integer coins that the operation itself sent to the reserve or took from it. As long as
none does, the fractions stay backed and no operation fails for lack of reserve funds.
-/

namespace InfiniteEvm.PreciseBank

open Library Outcomes State Coins Option

/-- An operation of the keeper. -/
inductive Op
  | mintCoins (m : String) (amt : Coins)
  | burnCoins (m : String) (amt : Coins)
  | sendCoins (sender recipient : AccAddress) (amt : Coins)
  | sendCoinsFromAccountToModule (sender : AccAddress) (recipientModule : String) (amt : Coins)
  | sendCoinsFromModuleToAccount (senderModule : String) (recipient : AccAddress) (amt : Coins)
  | sendCoinsFromModuleToModule (senderModule recipientModule : String) (amt : Coins)

/-- The failures that can happen while the fractions are backed. -/
def ordinary : Failure → Bool
  | .err (.wrapped _ _) => false
  | .err _ => true
  | .panic (.raised _) => true
  | .panic .emptyAddress => true
  | .panic _ => false

namespace Keeper

variable {σ : Type} {delta : AccAddress → String → Int} {extra : Int} (k : Keeper σ)

/-- Carry out an operation. -/
def step (k : Keeper σ) (s : State σ) : Op → Except Failure (State σ)
  | .mintCoins m amt => k.mintCoins s m amt
  | .burnCoins m amt => k.burnCoins s m amt
  | .sendCoins sender recipient amt => k.sendCoins s sender recipient amt
  | .sendCoinsFromAccountToModule sender m amt => k.sendCoinsFromAccountToModule s sender m amt
  | .sendCoinsFromModuleToAccount m recipient amt =>
    k.sendCoinsFromModuleToAccount s m recipient amt
  | .sendCoinsFromModuleToModule m m' amt => k.sendCoinsFromModuleToModule s m m' amt

/-- The state after a list of operations, if all of them succeed. -/
def run (k : Keeper σ) (s : State σ) (ops : List Op) : Option (State σ) :=
  Runs.run (fun s op => (k.step s op).toOption) s ops

/-- The transfer that an operation asks for. -/
def transferOf (k : Keeper σ) : Op → Option (AccAddress × AccAddress × Coins)
  | .mintCoins _ _ => none
  | .burnCoins _ _ => none
  | .sendCoins sender recipient amt => some (sender, recipient, amt)
  | .sendCoinsFromAccountToModule sender m amt =>
    (k.ak.getModuleAddress m).map fun recipient => (sender, recipient, amt)
  | .sendCoinsFromModuleToAccount m recipient amt =>
    (k.ak.getModuleAddress m).map fun sender => (sender, recipient, amt)
  | .sendCoinsFromModuleToModule m m' amt =>
    (k.ak.getModuleAddress m).bind fun sender =>
      (k.ak.getModuleAddress m').map fun recipient => (sender, recipient, amt)

/-- The integer coins among some coins. -/
def integerPart (k : Keeper σ) (amt : Coins) : Int :=
  (amt.amountOf k.extendedCoinDenom).tdiv k.conversionFactor +
    (k.passthroughCoins amt).amountOf k.integerCoinDenom

/-- What a transfer of `n` integer coins brings to the reserve. -/
def gain (k : Keeper σ) (sender recipient : AccAddress) (n : Int) : Int :=
  (if recipient = k.reserve.address then n else 0) - if sender = k.reserve.address then n else 0

/-- The integer coins that an operation brings to the reserve by its transfer. -/
def reserveGain (k : Keeper σ) (op : Op) : Int :=
  match k.transferOf op with
  | none => 0
  | some (sender, recipient, amt) => k.gain sender recipient (k.integerPart amt)

variable {k : Keeper σ} {s t : State σ} {amt : Coins} {m : String} {minted : String → Int}

/-- The reserve has `extra` integer coins beyond what it backs. -/
structure Holds (k : Keeper σ) (s : State σ) (extra : Int) : Prop extends k.Bounded s where
  backing : k.integerBalance s k.reserve.address * k.conversionFactor =
    s.getTotalSumFractionalBalances + s.getRemainderAmount + extra * k.conversionFactor

theorem holds_zero : k.Holds s 0 ↔ k.Backed s :=
  ⟨fun h => ⟨h.toBounded, by simpa using h.backing⟩,
    fun h => ⟨h.toBounded, by simpa using h.backing⟩⟩

/-- Nothing beyond it is exactly the backing. -/
theorem Holds.backed_iff (h : k.Holds s extra) : k.Backed s ↔ extra = 0 := by
  constructor
  · intro hs
    have hzero : extra * k.conversionFactor = 0 := by
      linarith [h.backing, hs.backing]
    exact (mul_eq_zero.mp hzero).resolve_right k.conversionFactor_pos.ne'
  · rintro rfl
    exact holds_zero.mp h

/-- A change in `x/bank` alone. -/
theorem Holds.onBank (h : k.Holds s extra) {bank : σ}
    (hbank : k.bk.Changed s.bank bank delta minted) : k.Holds { s with bank := bank }
      (extra + delta k.reserve.address k.integerCoinDenom) where
  backing := by
    have hbalance : k.integerBalance { s with bank := bank } k.reserve.address =
        k.integerBalance s k.reserve.address + delta k.reserve.address k.integerCoinDenom :=
      hbank.balance _ _
    have hbacking := h.backing
    rw [hbalance, add_mul, add_mul, hbacking]
    simp only [getTotalSumFractionalBalances, getRemainderAmount]
    ring
  fractions := h.fractions
  remainder := h.remainder

/-- An operation of `x/bank` with valid coins that an account pays. -/
theorem pays_ends {payer : AccAddress} {x : Except Failure σ} (hs : k.Holds s extra)
    {onErr : BankError → Failure} (honErr : ∀ text, ordinary (onErr (.insufficientFunds text)))
    (hx : k.bk.Pays s.bank payer amt delta minted x) :
    Ends (fun t => k.Holds t (extra + delta k.reserve.address k.integerCoinDenom))
      (fun f => ordinary f = true) (s.onBank onErr x) := by
  by_cases hpay : k.bk.Affords s.bank payer amt
  · obtain ⟨bank, rfl, hchanged⟩ := hx.1 hpay
    exact hs.onBank hchanged
  · obtain ⟨text, rfl⟩ := hx.2 hpay
    exact honErr text

theorem isValid_passthroughCoins (h : amt.isValid = true) :
    (k.passthroughCoins amt).isValid = true := by
  unfold passthroughCoins
  split
  · exact isValid_without h _
  · exact h

theorem gain_zero (sender recipient : AccAddress) : k.gain sender recipient 0 = 0 := by
  simp [gain]

theorem gain_add (sender recipient : AccAddress) (n n' : Int) :
    k.gain sender recipient (n + n') = k.gain sender recipient n + k.gain sender recipient n' := by
  unfold gain
  split <;> split <;> ring

theorem gain_of_ne {sender recipient : AccAddress} (hsender : sender ≠ k.reserve.address)
    (hrecipient : recipient ≠ k.reserve.address) (n : Int) : k.gain sender recipient n = 0 := by
  simp [gain, hsender, hrecipient]

/-- The reserve's part in a transfer of `x/bank`. -/
theorem credit_sub_credit (sender recipient : AccAddress) (coins : Coins) :
    (credit recipient coins - credit sender coins) k.reserve.address k.integerCoinDenom =
      k.gain sender recipient (coins.amountOf k.integerCoinDenom) := by
  simp only [Pi.sub_apply, credit, gain, eq_comm]

theorem isAllPositive_eq_false (h : amt.isValid = true) (hpos : amt.isAllPositive = false) :
    amt = [] := by
  cases amt with
  | nil => rfl
  | cons coin rest =>
    rw [isValid_iff] at h
    have hall : (coin :: rest).all (fun c => 0 < c.2) = true := by
      simp only [List.all_eq_true, decide_eq_true_eq]
      exact fun c hc => (h.1 c hc).2
    simp only [isAllPositive, hall, List.isEmpty_cons, Bool.not_false, Bool.and_self,
      Bool.true_eq_false] at hpos

section

variable (hk : k.bk.Exact k.ak)
include hk

/-- The coins that pass through. -/
theorem passthrough_ends (hs : k.Backed s) (hvalid : amt.isValid = true)
    (sender recipient : AccAddress) :
    Ends (fun t => k.Holds t (k.gain sender recipient (amt.amountOf k.integerCoinDenom)))
      (fun f => ordinary f = true)
      (s.doIf amt.isAllPositive
        (s.onBank .err (k.bk.sendCoins s.bank sender recipient amt))) := by
  unfold doIf
  split
  · refine (pays_ends (holds_zero.mpr hs) (fun _ => rfl)
      (hk.sendCoins s.bank sender recipient amt hvalid)).mono ?_ fun f hf => hf
    intro t ht
    rw [k.credit_sub_credit, zero_add] at ht
    exact ht
  · rename_i hpos
    rw [isAllPositive_eq_false hvalid (Bool.eq_false_iff.mpr hpos), amountOf_nil, gain_zero]
    exact holds_zero.mpr hs

/-- The extended coins of a send. -/
theorem sendExtendedCoins_holds {n amt : Int} (hamt : 0 < amt)
    {sender recipient : AccAddress} (hs : k.Holds s (k.gain sender recipient n)) :
    Ends (fun t => k.Holds t (k.gain sender recipient (amt.tdiv k.conversionFactor + n)))
      (fun f => ordinary f = true) (k.sendExtendedCoins s sender recipient amt) := by
  by_cases hreserve : sender = k.reserve.address ∨ recipient = k.reserve.address
  · obtain ⟨hq, -, -⟩ := k.split_amount hamt
    unfold sendExtendedCoins
    rw [if_pos hreserve]
    dsimp only
    split
    · rename_i hpos
      refine (pays_ends hs (fun text => ?_)
        (hk.sendCoins s.bank sender recipient _ (k.isValid_integerCoins hpos))).mono ?_
        fun f hf => hf
      · obtain ⟨text', htext⟩ := k.updateInsufficientFundsError_eq s sender amt text
        rfl
      · intro t ht
        rw [k.credit_sub_credit, integerCoins, amountOf_singleton, if_pos rfl, ← gain_add,
          add_comm] at ht
        exact ht
    · rw [show amt.tdiv k.conversionFactor = 0 by omega, zero_add]
      exact hs
  · obtain ⟨hsender, hrecipient⟩ := not_or.mp hreserve
    rw [gain_of_ne hsender hrecipient] at hs ⊢
    by_cases heq : sender = recipient
    · unfold sendExtendedCoins
      rw [if_neg hreserve, if_pos heq]
      exact hs
    · refine (sendExtendedCoins_ends hk (holds_zero.mp hs) hsender hrecipient heq hamt).mono ?_ ?_
      · rintro t ⟨-, hexchanged, -⟩
        exact holds_zero.mpr hexchanged.backed
      · rintro f (⟨-, text, rfl⟩ | ⟨rfl, -⟩) <;> rfl

/-- A send changes what the reserve holds by what it brings to the reserve. -/
theorem sendCoins_ends (hs : k.Backed s) (sender recipient : AccAddress)
    (amt : Coins) :
    Ends (fun t => k.Holds t (k.gain sender recipient (k.integerPart amt)))
      (fun f => ordinary f = true) (k.sendCoins s sender recipient amt) := by
  unfold sendCoins
  split
  · rename_i hvalid
    refine (passthrough_ends hk hs (k.isValid_passthroughCoins hvalid) sender recipient).bind ?_
    intro t ht
    unfold doIf integerPart
    split
    · exact sendExtendedCoins_holds hk ‹_› ht
    · rename_i hpos
      have hzero : amt.amountOf k.extendedCoinDenom = 0 :=
        le_antisymm (not_lt.mp hpos) (amountOf_nonneg hvalid _)
      rw [hzero, Int.zero_tdiv, zero_add]
      exact ht
  · rfl

/-- A mint keeps the fractions backed, and fails only for invalid arguments. -/
theorem mintCoins_ends (hs : k.Backed s) (m : String) (amt : Coins) :
    Ends (fun t => k.Backed t)
      (fun f => ordinary f = true ∧ ∀ e, f = .err e → e.isInsufficientFunds = false)
      (k.mintCoins s m amt) := by
  unfold mintCoins
  split
  · exact ⟨rfl, fun _ h => by cases h⟩
  · rename_i hm
    split
    · exact ⟨rfl, fun _ h => by cases h⟩
    · rename_i acc hacc
      have hne := (address_ne_reserve hm hacc).symm
      split
      · rename_i hperm
        split
        · rename_i hvalid
          refine Ends.bind (?_ : Ends (fun t => k.Backed t) _ _) ?_
          · unfold doIf
            split
            · obtain ⟨bank, hmint, hchanged⟩ := hk.mintCoins s.bank m acc _ hacc hperm
                (k.isValid_passthroughCoins hvalid)
              have hholds := (holds_zero.mpr hs).onBank hchanged
              rw [credit_of_ne hne, add_zero] at hholds
              rw [hmint]
              exact holds_zero.mp hholds
            · exact hs
          · intro t ht
            unfold doIf
            split
            · refine (mintExtendedCoin_ends hk ht hacc hperm hm ‹_› _).mono ?_ fun f hf => hf
              exact fun u hu => hu.backed
            · exact ht
        · refine ⟨rfl, ?_⟩
          rintro e he
          cases he
          rfl
      · exact ⟨rfl, fun _ h => by cases h⟩

/-- A burn keeps the fractions backed. -/
theorem burnCoins_ends (hs : k.Backed s) (m : String) (amt : Coins) :
    Ends (fun t => k.Backed t) (fun f => ordinary f = true) (k.burnCoins s m amt) := by
  unfold burnCoins
  split
  · rfl
  · rename_i hm
    split
    · rfl
    · rename_i acc hacc
      have hne := (address_ne_reserve hm hacc).symm
      split
      · rename_i hperm
        split
        · rename_i hvalid
          refine Ends.bind (?_ : Ends (fun t => k.Backed t) _ _) ?_
          · unfold doIf
            split
            · refine (pays_ends (holds_zero.mpr hs) (fun _ => rfl)
                (hk.burnCoins s.bank m acc _ hacc hperm
                  (k.isValid_passthroughCoins hvalid))).mono ?_ fun f hf => hf
              intro t ht
              rw [Pi.neg_apply, Pi.neg_apply, credit_of_ne hne, neg_zero, add_zero] at ht
              exact holds_zero.mp ht
            · exact hs
          · intro t ht
            unfold doIf
            split
            · refine (burnExtendedCoin_ends hk ht hacc hperm hm ‹_›).mono ?_ ?_
              · exact fun u hu => hu.2.backed
              · rintro f ⟨-, text, rfl⟩
                rfl
            · exact ht
        · rfl
      · rfl

/-- What an operation leaves in the reserve, and how it fails. -/
theorem step_ends (hs : k.Backed s) (op : Op) :
    Ends (fun t => k.Holds t (k.reserveGain op)) (fun f => ordinary f = true) (k.step s op) := by
  cases op with
  | mintCoins m amt =>
    refine (mintCoins_ends hk hs m amt).mono ?_ fun f hf => hf.1
    exact fun t ht => holds_zero.mpr ht
  | burnCoins m amt =>
    refine (burnCoins_ends hk hs m amt).mono ?_ fun f hf => hf
    exact fun t ht => holds_zero.mpr ht
  | sendCoins sender recipient amt => exact sendCoins_ends hk hs sender recipient amt
  | sendCoinsFromAccountToModule sender m amt =>
    simp only [step, sendCoinsFromAccountToModule, reserveGain, transferOf,
      AccountKeeper.getModuleAddress]
    cases k.ak.getModuleAccount m with
    | none => rfl
    | some acc =>
      simp only [map_some]
      split
      · rfl
      · exact sendCoins_ends hk hs sender acc.address amt
  | sendCoinsFromModuleToAccount m recipient amt =>
    simp only [step, sendCoinsFromModuleToAccount, reserveGain, transferOf]
    cases k.ak.getModuleAddress m with
    | none => rfl
    | some sender =>
      simp only [map_some]
      split
      · rfl
      · split
        · rfl
        · exact sendCoins_ends hk hs sender recipient amt
  | sendCoinsFromModuleToModule m m' amt =>
    simp only [step, sendCoinsFromModuleToModule, reserveGain, transferOf]
    cases k.ak.getModuleAddress m with
    | none => rfl
    | some sender =>
      simp only [AccountKeeper.getModuleAddress]
      cases k.ak.getModuleAccount m' with
      | none => rfl
      | some acc =>
        simp only [map_some, bind_some]
        split
        · rfl
        · exact sendCoins_ends hk hs sender acc.address amt

end

/-- An operation keeps the fractions backed exactly if its transfer brings nothing to the
reserve and takes nothing from it. Along a run of such operations they stay backed, and
no operation fails for lack of reserve funds. Mints and burns are such operations, and so
are sends between other accounts. -/
theorem backed_iff_reserveGain (k : Keeper σ) (hk : k.bk.Exact k.ak) (s : State σ)
    (hs : k.Backed s) :
    (∀ op t, k.step s op = .ok t → (k.Backed t ↔ k.reserveGain op = 0)) ∧
    (∀ ops t, k.run s ops = some t → (∀ op ∈ ops, k.reserveGain op = 0) →
      k.Backed t ∧ ∀ op f, k.step t op = .error f → ordinary f = true ∧
        ∀ m amt, op = .mintCoins m amt → ∀ e, f = .err e → e.isInsufficientFunds = false) ∧
    (∀ m amt, k.reserveGain (.mintCoins m amt) = 0 ∧ k.reserveGain (.burnCoins m amt) = 0) ∧
    ∀ sender recipient amt, sender ≠ k.reserve.address → recipient ≠ k.reserve.address →
      k.reserveGain (.sendCoins sender recipient amt) = 0 := by
  refine ⟨?_, ?_, ?_, ?_⟩
  · intro op t ht
    exact ((step_ends hk hs op).of_ok ht).backed_iff
  · intro ops t hrun hops
    have ht : k.Backed t := by
      refine Runs.run_invariant k.Backed (fun op => k.reserveGain op = 0) ?_ hops hs hrun
      intro u op u' hop hu hstep
      exact ((step_ends hk hu op).of_ok (toOption_eq_some.mp hstep)).backed_iff.mpr hop
    refine ⟨ht, ?_⟩
    intro op f hf
    refine ⟨(step_ends hk ht op).of_error hf, ?_⟩
    rintro m amt rfl
    exact ((mintCoins_ends hk ht m amt).of_error hf).2
  · exact fun m amt => ⟨rfl, rfl⟩
  · intro sender recipient amt hsender hrecipient
    exact gain_of_ne hsender hrecipient _

/-- The module account of the reserve sends its integer coin away. The fractions are then
not backed, and a send with a carry panics. -/
theorem reserve_sent_away :
    sampleKeeper.Backed sampleState ∧
    ∃ t, sampleKeeper.step sampleState
        (.sendCoinsFromModuleToModule "precisebank" "evm" [("uatom", 1)]) = .ok t ∧
      ¬ sampleKeeper.Backed t ∧
      ∃ e, sampleKeeper.step t (.sendCoins [10] [11] [("aatom", 4)]) =
        .error (.panic (.failedToCarry [11] e)) := by
  refine ⟨sampleState_backed, _, rfl, ?_, _, rfl⟩
  intro h
  have hbacking := h.backing
  revert hbacking
  decide +kernel

theorem backed_iff_reserveGain_send_and_mint :
    ∃ t, sampleKeeper.run sampleState
        [.sendCoins [10] [11] [("aatom", 7), ("uatom", 2)], .mintCoins "evm" [("aatom", 5)],
          .burnCoins "evm" [("aatom", 2)]] = some t ∧ sampleKeeper.Backed t := by
  have hrun : ((sampleKeeper.run sampleState
      [.sendCoins [10] [11] [("aatom", 7), ("uatom", 2)], .mintCoins "evm" [("aatom", 5)],
        .burnCoins "evm" [("aatom", 2)]]).map fun t => sampleKeeper.integerBalance t [1]) =
      some 2 := by
    decide +kernel
  obtain ⟨t, ht, -⟩ := map_eq_some_iff.mp hrun
  refine ⟨t, ht, ?_⟩
  exact ((backed_iff_reserveGain sampleKeeper sampleKeeper_exact sampleState
    sampleState_backed).2.1 _ t ht (by decide +kernel)).1

end Keeper

end InfiniteEvm.PreciseBank
