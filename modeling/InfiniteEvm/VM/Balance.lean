import InfiniteEvm.PreciseBank.Exactness
import InfiniteEvm.StateDB.Types

/-!
# Balances of the EVM

`SetBalance` and `SpendableCoin` of `x/vm/keeper`, over the bank wrapper of
`x/vm/wrappers`. The wrapper reads and writes the extended denom of whatever bank keeper
is under it, `x/bank` or `x/precisebank`.
-/

namespace InfiniteEvm.VM

open Library PreciseBank.Keeper PreciseBank

/-- `ConvertEvmCoinDenomToExtendedDenom`. -/
def convertEvmCoinDenomToExtendedDenom (info : EvmCoinInfo) (coin : Coin) : Except String Coin :=
  if coin.1 ≠ info.denom then
    .error ("expected coin denom " ++ info.denom ++ ", received " ++ coin.1)
  else .ok (info.extendedDenom, coin.2)

/-- `BankWrapper`: a bank keeper with the coin of the chain. -/
structure BankWrapper (σ : Type) where
  info : EvmCoinInfo
  bk : BankKeeper σ
  addressString : AccAddress → String

variable {σ : Type}

namespace BankWrapper

variable (w : BankWrapper σ)

/-- `SetBalance` of the wrapper. -/
def setBankBalance (s : σ) (account : AccAddress) (amt : Int) : Except Failure σ :=
  if 2 ^ 256 ≤ amt then .error (.panic .outOfBound)
  else
    match convertEvmCoinDenomToExtendedDenom w.info (w.info.denom, amt) with
    | .error err => .error (.err (.other ("failed to set coins in bank wrapper: " ++ err)))
    | .ok convertedCoin => w.bk.uncheckedSetBalance s account convertedCoin

/-- `SpendableCoin` of the wrapper, for the denom of the EVM. -/
def bankSpendableCoin (s : σ) (account : AccAddress) : Int :=
  w.bk.spendableCoin s account w.info.extendedDenom

/-- `SetBalance` of the keeper. -/
def setBalance (s : σ) (addr : Address) (amount : Uint256) : Except Failure σ :=
  let cosmosAddr := addressBytes addr
  if w.bankSpendableCoin s cosmosAddr < amount.toNat ∧ w.bk.blockedAddr cosmosAddr then
    .error (.err (.unauthorized (w.addressString cosmosAddr ++ " is not allowed to receive funds")))
  else w.setBankBalance s cosmosAddr
    (amount.toNat + (w.bk.lockedCoins s cosmosAddr).amountOf w.info.denom)

/-- `SpendableCoin` of the keeper. -/
def spendableCoin (s : σ) (addr : Address) : Option Uint256 :=
  (uint256FromBigInt (w.bankSpendableCoin s (addressBytes addr))).toOption

end BankWrapper

/-- A bank that overwrites exactly the balance it is told to, and lets accounts spend
what is not locked. -/
structure Overwrites (bk : BankKeeper σ) : Prop where
  spendable : ∀ s a d, bk.spendableCoin s a d =
    max 0 (bk.getBalance s a d - (bk.lockedCoins s a).amountOf d)
  balance : ∀ s a coin t, bk.uncheckedSetBalance s a coin = .ok t →
    ∀ b d, bk.getBalance t b d = if b = a ∧ d = coin.1 then coin.2 else bk.getBalance s b d
  locked : ∀ s a coin t, bk.uncheckedSetBalance s a coin = .ok t →
    ∀ b, bk.lockedCoins t b = bk.lockedCoins s b

variable {w : BankWrapper σ} {s t : σ} {addr : Address} {amount : Uint256}

/-- What a successful write stored. -/
theorem setBalance_ok (h : w.setBalance s addr amount = .ok t) :
    w.bk.uncheckedSetBalance s (addressBytes addr) (w.info.extendedDenom, amount.toNat +
      (w.bk.lockedCoins s (addressBytes addr)).amountOf w.info.denom) = .ok t := by
  unfold BankWrapper.setBalance BankWrapper.setBankBalance at h
  dsimp only at h
  split at h
  · cases h
  · split at h
    · cases h
    · simp only [convertEvmCoinDenomToExtendedDenom, ne_eq, not_true_eq_false, if_false] at h
      exact h

/-- The check of `SetBalance`: the balance with the locked coins fits and is accepted, and at a
blocked address it is not raised. -/
def BankWrapper.Takes (w : BankWrapper σ) (s : σ) (addr : Address) (amount : Uint256) : Prop :=
  let total := amount.toNat + (w.bk.lockedCoins s (addressBytes addr)).amountOf w.info.denom
  total < 2 ^ 256 ∧
    (∃ t, w.bk.uncheckedSetBalance s (addressBytes addr) (w.info.extendedDenom, total) = .ok t) ∧
    (w.bk.blockedAddr (addressBytes addr) = true →
      amount.toNat ≤ w.bankSpendableCoin s (addressBytes addr))

theorem setBalance_ok_iff : (∃ t, w.setBalance s addr amount = .ok t) ↔ w.Takes s addr amount := by
  unfold BankWrapper.setBalance BankWrapper.setBankBalance BankWrapper.Takes
  simp only [convertEvmCoinDenomToExtendedDenom, ne_eq, not_true_eq_false, if_false]
  split_ifs with hblocked hlarge
  · refine iff_of_false (by simp) fun h => ?_
    exact absurd (h.2.2 hblocked.2) (Int.not_le.mpr hblocked.1)
  · exact iff_of_false (by simp) fun h => absurd h.1 (Int.not_lt.mpr hlarge)
  · refine ⟨fun h => ⟨Int.not_le.mp hlarge, h, fun hb => ?_⟩, fun h => h.2.1⟩
    exact Int.not_lt.mp fun hlt => hblocked ⟨hlt, hb⟩

/-- A read answers `amount` if the bank does. -/
theorem spendableCoin_eq_some_iff (w : BankWrapper σ) (s : σ) (addr : Address)
    (amount : Uint256) : w.spendableCoin s addr = some amount ↔
      w.bankSpendableCoin s (addressBytes addr) = amount.toNat := by
  unfold BankWrapper.spendableCoin uint256FromBigInt
  generalize w.bankSpendableCoin s (addressBytes addr) = n
  by_cases hneg : n < 0
  · simp only [if_pos hneg, Except.toOption]
    constructor
    · intro h
      cases h
    · omega
  · by_cases hbig : 2 ^ 256 ≤ n
    · simp only [if_neg hneg, if_pos hbig, Except.toOption]
      constructor
      · intro h
        cases h
      · omega
    · simp only [if_neg hneg, if_neg hbig, Except.toOption, Option.some.injEq]
      obtain ⟨m, rfl⟩ := Int.eq_ofNat_of_zero_le (not_lt.mp hneg)
      rw [BitVec.ofInt_natCast, ← BitVec.toNat_inj, BitVec.toNat_ofNat, Nat.mod_eq_of_lt (by omega)]
      exact Int.natCast_inj.symm

/-- Over `x/bank` a write is read back if as much is locked in the extended denom as in the
denom of the EVM. -/
theorem bank_reads_back_iff (hw : Overwrites w.bk) (h : w.setBalance s addr amount = .ok t) :
    w.spendableCoin t addr = some amount ↔
      (w.bk.lockedCoins s (addressBytes addr)).amountOf w.info.denom =
          (w.bk.lockedCoins s (addressBytes addr)).amountOf w.info.extendedDenom ∨
        amount = 0 ∧ (w.bk.lockedCoins s (addressBytes addr)).amountOf w.info.denom ≤
          (w.bk.lockedCoins s (addressBytes addr)).amountOf w.info.extendedDenom := by
  have hset := setBalance_ok h
  have hzero : amount = 0 ↔ amount.toNat = 0 := by
    rw [← BitVec.toNat_inj]
    rfl
  rw [spendableCoin_eq_some_iff, BankWrapper.bankSpendableCoin, hw.spendable,
    hw.balance _ _ _ _ hset, if_pos ⟨rfl, rfl⟩, hw.locked _ _ _ _ hset, hzero]
  omega

/-- When a write is read back over `x/precisebank`. The reserve shows no balance. With one
denom for both the write is to the integer coins. Otherwise it is to coins that are never
read. -/
def ReadsBack (k : Keeper σ) (s : State σ) (account : AccAddress) (amount : Uint256) : Prop :=
  if account = k.reserve.address then amount = 0
  else if k.integerCoinDenom = k.extendedCoinDenom then
    amount.toNat * k.conversionFactor + s.getFractionalBalance account = amount.toNat
  else k.spendableCoin s account k.extendedCoinDenom = amount.toNat

theorem preciseBank_reads_back_iff {k : Keeper σ} (hk : Overwrites k.bk)
    {text : AccAddress → String} {s t : State σ}
    (h : BankWrapper.setBalance ⟨k.info, k.toBankKeeper, text⟩ s addr amount = .ok t) :
    BankWrapper.spendableCoin ⟨k.info, k.toBankKeeper, text⟩ t addr = some amount ↔
      ReadsBack k s (addressBytes addr) amount := by
  have hset := setBalance_ok h
  simp only [toBankKeeper, uncheckedSetBalance, State.onBank] at hset
  split at hset
  · rename_i bank hbank
    cases hset
    rw [spendableCoin_eq_some_iff]
    change k.spendableCoin { s with bank := bank } (addressBytes addr) k.extendedCoinDenom = _ ↔ _
    unfold ReadsBack
    by_cases hreserve : addressBytes addr = k.reserve.address
    · rw [if_pos hreserve, spendableCoin, if_pos ⟨rfl, hreserve⟩, ← BitVec.toNat_inj]
      exact eq_comm.trans Int.natCast_eq_zero
    · have hspendable : k.integerSpendable bank (addressBytes addr) =
          if k.integerCoinDenom = k.extendedCoinDenom then (amount.toNat : Int)
          else k.integerSpendable s.bank (addressBytes addr) := by
        simp only [integerSpendable, hk.spendable, hk.balance _ _ _ _ hbank,
          hk.locked _ _ _ _ hbank, true_and]
        change max 0 ((if k.integerCoinDenom = k.extendedCoinDenom then _ else _) - _) = _
        split
        · change max 0 ((amount.toNat : Int) +
            (k.bk.lockedCoins s.bank (addressBytes addr)).amountOf k.info.denom -
            (k.bk.lockedCoins s.bank (addressBytes addr)).amountOf k.info.denom) = _
          omega
        · rfl
      rw [if_neg hreserve, spendableCoin_extended hreserve, hspendable]
      split
      · exact Iff.rfl
      · rw [spendableCoin_extended hreserve]
        exact Iff.rfl
  · cases hset
  · cases hset

/-- A write of a balance is read back over `x/bank` exactly if the same is locked in both
denoms, or nothing is written and no more is locked in the denom of the EVM. Over
`x/precisebank` it is read back exactly under `ReadsBack`, which holds with 18 decimals
for every account but the reserve. -/
theorem setBalance_reads_back_iff (k : Keeper σ) (hk : Overwrites k.bk)
    (text : AccAddress → String) (addr : Address) (amount : Uint256) :
    (∀ s t, BankWrapper.setBalance ⟨k.info, k.bk, text⟩ s addr amount = .ok t →
      (BankWrapper.spendableCoin ⟨k.info, k.bk, text⟩ t addr = some amount ↔
        (k.bk.lockedCoins s (addressBytes addr)).amountOf k.info.denom =
            (k.bk.lockedCoins s (addressBytes addr)).amountOf k.info.extendedDenom ∨
          amount = 0 ∧ (k.bk.lockedCoins s (addressBytes addr)).amountOf k.info.denom ≤
            (k.bk.lockedCoins s (addressBytes addr)).amountOf k.info.extendedDenom)) ∧
    (∀ s t, BankWrapper.setBalance ⟨k.info, k.toBankKeeper, text⟩ s addr amount = .ok t →
      (BankWrapper.spendableCoin ⟨k.info, k.toBankKeeper, text⟩ t addr = some amount ↔
        ReadsBack k s (addressBytes addr) amount)) ∧
    ∀ s, k.info.decimals = 18 → k.Backed s → addressBytes addr ≠ k.reserve.address →
      ReadsBack k s (addressBytes addr) amount := by
  refine ⟨fun s t h => bank_reads_back_iff hk h, fun s t h => preciseBank_reads_back_iff hk h, ?_⟩
  intro s hdecimals hs hreserve
  have hone : k.conversionFactor = 1 := EvmCoinInfo.conversionFactor_of_eighteen hdecimals
  have hdenom : k.integerCoinDenom = k.extendedCoinDenom := k.info.extended hdecimals
  have hfraction := hs.fraction (addressBytes addr)
  unfold ReadsBack
  rw [if_neg hreserve, if_pos hdenom, hone]
  omega

/-! ## A small chain -/

theorem book_overwrites (ak : AccountKeeper) (locked : AccAddress → Coins)
    (blocked : List AccAddress) : Overwrites (Book.keeper ak locked blocked) where
  spendable _ _ _ := rfl
  balance s a coin t h b d := by
    cases h
    rfl
  locked s a coin t h b := rfl

/-- With 17 decimals the account 7 gets a balance of 100. Over `x/precisebank` it reads as
zero; over `x/bank`, with 3 integer coins locked, it reads as 103. -/
theorem setBalance_not_read_back :
    ((BankWrapper.setBalance
        ⟨sampleInfo, sampleKeeper.toBankKeeper, fun _ => ""⟩
        sampleState 7 100).toOption.bind fun t =>
      BankWrapper.spendableCoin
        ⟨sampleInfo, sampleKeeper.toBankKeeper, fun _ => ""⟩
        t 7) = some 0 ∧
    ((BankWrapper.setBalance
        ⟨sampleInfo, Book.keeper sampleAccounts
          (fun a => if a = addressBytes 7 then [("uatom", 3)] else []) [], fun _ => ""⟩
        ⟨fun _ _ => 5, fun _ => 5⟩ 7 100).toOption.bind fun t =>
      BankWrapper.spendableCoin
        ⟨sampleInfo, Book.keeper sampleAccounts
          (fun a => if a = addressBytes 7 then [("uatom", 3)] else []) [], fun _ => ""⟩
        t 7) = some 103 := by
  decide +kernel

theorem setBalance_reads_back_iff_sample :
    ∃ t, BankWrapper.setBalance
        ⟨sampleInfo, sampleKeeper.bk, fun _ => ""⟩
        sampleState.bank 7 100 = .ok t ∧
      BankWrapper.spendableCoin
        ⟨sampleInfo, sampleKeeper.bk, fun _ => ""⟩ t 7 =
          some 100 ∧
      ∃ u, BankWrapper.setBalance
          ⟨sampleInfo, sampleKeeper.toBankKeeper,
            fun _ => ""⟩ sampleState 7 0 = .ok u ∧
        BankWrapper.spendableCoin
          ⟨sampleInfo, sampleKeeper.toBankKeeper,
            fun _ => ""⟩ u 7 = some 0 := by
  have hbook : Overwrites sampleKeeper.bk := book_overwrites _ _ _
  obtain ⟨hbank, -, -⟩ := setBalance_reads_back_iff sampleKeeper hbook (fun _ => "") 7 100
  obtain ⟨-, hprecise, -⟩ := setBalance_reads_back_iff sampleKeeper hbook (fun _ => "") 7 0
  refine ⟨_, rfl, (hbank sampleState.bank _ rfl).mpr (Or.inl rfl), _, rfl,
    (hprecise sampleState _ rfl).mpr ?_⟩
  unfold ReadsBack
  decide +kernel

end InfiniteEvm.VM
