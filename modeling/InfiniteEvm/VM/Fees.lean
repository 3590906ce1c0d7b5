import InfiniteEvm.Library.Decimals
import InfiniteEvm.VM.Keeper

/-!
# Fees and gas of an Ethereum transaction

The ante handler takes the fee for the whole gas limit (`VerifyFee` and
`DeductTxCostsFromUserBalance`), `ApplyMessageWithConfig` computes the gas that was used,
and `ApplyTransaction` returns the fee for the rest (`RefundGas`).
-/

namespace InfiniteEvm.VM

open Library Decimals Outcomes

/-- What fees depend on in a transaction. The intrinsic gas is that of its data, its access
list and its authorizations. -/
structure EthTx where
  gas : BitVec 64
  gasFeeCap : Nat
  gasTipCap : Nat
  isContractCreation : Bool
  intrinsicGas : Except String (BitVec 64)

/-- `EffectiveGasTip` and the gas price in `TransactionToMessage`. -/
structure Pricing where
  effectiveGasTip : EthTx → Int → Int
  messageGasPrice : EthTx → Int → Int
  tip_eq : ∀ tx baseFee, effectiveGasTip tx baseFee =
    min (tx.gasTipCap : Int) (tx.gasFeeCap - baseFee)
  price_eq : ∀ tx baseFee, messageGasPrice tx baseFee =
    min ((tx.gasTipCap : Int) + baseFee) tx.gasFeeCap

/-! ## The fee -/

/-- `VerifyFee`. A base fee of nil is dereferenced. -/
def verifyFee (p : Pricing) (tx : EthTx) (denom : String) (baseFee : Option Int)
    (homestead istanbul isCheckTx : Bool) : Except String Coins :=
  match tx.intrinsicGas with
  | .error err => .error ("failed to retrieve intrinsic gas, contract creation = " ++
      toString tx.isContractCreation ++ "; homestead = " ++ toString homestead ++
      ", istanbul = " ++ toString istanbul ++ ": " ++ err)
  | .ok intrinsicGas =>
    if isCheckTx && tx.gas < intrinsicGas then
      .error ("gas limit too low: " ++ toString tx.gas.toNat ++ " (gas limit) < " ++
        toString intrinsicGas.toNat ++ " (intrinsic gas): out of gas")
    else
      match baseFee with
      | none => .error "invalid memory address or nil pointer dereference"
      | some baseFee =>
        if tx.gasFeeCap < baseFee then
          .error ("the tx gasfeecap is lower than the tx baseFee: " ++ toString tx.gasFeeCap ++
            " (gasfeecap), " ++ toString baseFee ++ " (basefee) : insufficient fee")
        else
          let price := p.effectiveGasTip tx baseFee + baseFee
          let feeAmt := tx.gas.toNat * price
          if feeAmt = 0 then .ok []
          else if 2 ^ 256 ≤ feeAmt.natAbs then .error "NewIntFromBigInt() out of bound"
          else .ok [(denom, feeAmt)]

/-- The bank, as far as fees move through it: to the fee collector and back, virtually or
not. Amounts of the gas coin reach and leave the collector in full. -/
structure FeeBank (σ : Type) where
  denom : String
  virtualFeeCollection : Bool
  /-- `DisplayDenom` of the coin of the EVM. -/
  displayDenom : String
  /-- The denom units of `GetDenomMetaData`, with their exponents. -/
  denomUnits : σ → String → List (String × Nat)
  accountExists : σ → AccAddress → Bool
  collected : σ → Int
  sendCoinsFromAccountToModule : σ → AccAddress → Coins → Except Failure σ
  sendCoinsFromAccountToModuleVirtual : σ → AccAddress → Coins → Except Failure σ
  sendCoinsFromModuleToAccount : σ → AccAddress → Coins → Except Failure σ
  sendCoinsFromModuleToAccountVirtual : σ → AccAddress → Coins → Except Failure σ
  taken : ∀ s a amount t, (sendCoinsFromAccountToModule s a [(denom, amount)] = .ok t ∨
    sendCoinsFromAccountToModuleVirtual s a [(denom, amount)] = .ok t) →
    collected t = collected s + amount
  given : ∀ s a amount t, (sendCoinsFromModuleToAccount s a [(denom, amount)] = .ok t ∨
    sendCoinsFromModuleToAccountVirtual s a [(denom, amount)] = .ok t) →
    collected t = collected s - amount

namespace FeeBank

variable {σ : Type} (fb : FeeBank σ)

/-- The first display denom of the fees that has not 18 decimals. -/
def otherDecimals (s : σ) (fees : Coins) : Option (String × Nat) :=
  (fees.flatMap fun coin => fb.denomUnits s coin.1).find? fun du =>
    du.1 = fb.displayDenom && du.2 ≠ 18

/-- `DeductFees`, of the module or of `x/auth`. -/
def payFees (s : σ) (payer : AccAddress) (fees : Coins) : Except Failure σ :=
  if !fees.isValid then .error (.err (.other ("invalid fee amount: " ++ fees.text)))
  else if fb.virtualFeeCollection then
    match fb.otherDecimals s fees with
    | some du => .error (.panic (.raised (.other ("Cannot use virtual fee collection for denom " ++
        du.1 ++ ", which has a display denom that has " ++ toString du.2 ++ " exponent"))))
    | none => fb.sendCoinsFromAccountToModuleVirtual s payer fees
  else fb.sendCoinsFromAccountToModule s payer fees

/-- `DeductTxCostsFromUserBalance`. -/
def deductTxCostsFromUserBalance (s : σ) (payer : AccAddress) (fees : Coins) : Except String σ :=
  if !fb.accountExists s payer then .error "account not found for sender"
  else
    match fb.payFees s payer fees with
    | .error err => .error ("failed to deduct full gas cost " ++ fees.text ++
        " from the user balance: " ++ failureText err)
    | .ok t => .ok t

/-- `deductFees` of the ante handler. -/
def deductFees (s : σ) (payer : AccAddress) (fees : Coins) : Except String σ :=
  if fees.all fun coin => coin.2 = 0 then .ok s
  else
    match fb.deductTxCostsFromUserBalance s payer fees with
    | .error err => .error ("failed to deduct transaction costs from user balance: " ++ err)
    | .ok t => .ok t

/-- `RefundGas`. -/
def refundGas (s : σ) (sender : AccAddress) (leftoverGas : BitVec 64) (gasPrice : Int) :
    Except String σ :=
  let remaining := leftoverGas.toNat * gasPrice
  if remaining < 0 then
    .error ("refunded amount value cannot be negative " ++ toString remaining ++
      ": invalid gas refund amount")
  else if 0 < remaining then
    if 2 ^ 256 ≤ remaining then .error "NewIntFromBigInt() out of bound"
    else
      let refundedCoins : Coins := [(fb.denom, remaining)]
      match (if fb.virtualFeeCollection then
          fb.sendCoinsFromModuleToAccountVirtual s sender refundedCoins
        else fb.sendCoinsFromModuleToAccount s sender refundedCoins) with
      | .error err => .error ("failed to refund " ++ toString leftoverGas.toNat ++
          " leftover gas (" ++ refundedCoins.text ++
          "): fee collector account failed to refund fees: " ++ failureText err)
      | .ok t => .ok t
  else .ok s

end FeeBank

/-! ## The gas -/

/-- `GasToRefund`. -/
def gasToRefund (availableRefund gasConsumed refundQuotient : BitVec 64) : BitVec 64 :=
  let refund := gasConsumed / refundQuotient
  if availableRefund < refund then availableRefund else refund

/-- What the gas of a message depends on besides the message. -/
structure GasConfig where
  isLondon : Bool
  isPrague : Bool
  internal : Bool
  minGasMultiplier : Option Dec

/-- The multiplier, zero if it is not set. -/
def GasConfig.multiplier (cfg : GasConfig) : Dec := cfg.minGasMultiplier.getD ⟨0⟩

/-- `refundQuotient`. -/
def GasConfig.refundQuotient (cfg : GasConfig) : BitVec 64 :=
  if cfg.internal then 1 else if cfg.isLondon then 5 else 2

/-- What happens while a message is applied: the gas its data needs, the conversion of its
value, the gas the EVM leaves over of what it gets, the refund counter and the commit. -/
structure Execution where
  intrinsicGas : Except String (BitVec 64)
  floorDataGas : Except String (BitVec 64)
  valueError : Option String
  leftoverGas : BitVec 64 → BitVec 64
  refundCounter : BitVec 64
  commitError : Option String

/-- The gas in `MsgEthereumTxResponse`. -/
structure GasResult where
  gasUsed : BitVec 64
  maxUsedGas : BitVec 64
  deriving DecidableEq

/-- `Uint64` of an integer, which panics out of bounds. -/
def uint64OfInt (n : Int) : Except String (BitVec 64) :=
  if 0 ≤ n ∧ n < 2 ^ 64 then .ok (BitVec.ofInt 64 n) else .error "Uint64() out of bounds"

/-- The checks of `ApplyMessageWithConfig` before the EVM runs, with the gas it gets. -/
def evmGas (cfg : GasConfig) (gasLimit : BitVec 64) (x : Execution) : Except String (BitVec 64) :=
  match x.intrinsicGas with
  | .error err => .error ("intrinsic gas failed: " ++ err)
  | .ok intrinsicGas =>
    if gasLimit < intrinsicGas then .error "apply message: intrinsic gas too low"
    else
      let tooLow : Option String :=
        if cfg.isPrague then
          match x.floorDataGas with
          | .error err => some err
          | .ok floorDataGas =>
            if gasLimit < floorDataGas then
              some ("insufficient gas for floor data gas cost: have " ++
                toString gasLimit.toNat ++ ", want " ++ toString floorDataGas.toNat)
            else none
        else none
      match tooLow.or x.valueError with
      | some err => .error err
      | none => .ok (gasLimit - intrinsicGas)

/-- The part of `ApplyMessageWithConfig` after the EVM left over some gas. -/
def settleGas (cfg : GasConfig) (gasLimit : BitVec 64) (x : Execution) (leftoverGas : BitVec 64) :
    Except String GasResult :=
  if gasLimit < leftoverGas then .error "apply message: gas computation overflow/underflow"
  else
    let maxUsedGas := gasLimit - leftoverGas
    let refund := gasToRefund x.refundCounter maxUsedGas cfg.refundQuotient
    let leftoverGas := leftoverGas + refund
    let temporaryGasUsed := maxUsedGas - refund
    match x.commitError with
    | some err => .error err
    | none =>
      match (Dec.ofInt gasLimit.toNat).mul cfg.multiplier with
      | none => .error "Int overflow"
      | some minimumGasUsed =>
        if ¬(0 ≤ minimumGasUsed.truncate ∧ minimumGasUsed.truncate < 2 ^ 64) then
          .error ("minimumGasUsed(" ++ toString minimumGasUsed.truncate ++
            ") is not a uint64: gas computation overflow/underflow")
        else if gasLimit < leftoverGas then
          .error ("message gas limit < leftover gas (" ++ toString gasLimit.toNat ++ " < " ++
            toString leftoverGas.toNat ++ "): gas computation overflow/underflow")
        else
          let gasUsed := Dec.ofInt temporaryGasUsed.toInt
          let gasUsed := if cfg.internal then gasUsed else gasUsed.max minimumGasUsed
          (uint64OfInt gasUsed.truncate).map fun gasUsed => { gasUsed, maxUsedGas }

/-- The gas of `ApplyMessageWithConfig`. -/
def applyMessageGas (cfg : GasConfig) (gasLimit : BitVec 64) (x : Execution) :
    Except String GasResult :=
  (evmGas cfg gasLimit x).bind fun gas => settleGas cfg gasLimit x (x.leftoverGas gas)

/-- The gas that `ApplyTransaction` refunds. -/
def remainingGas (gasLimit gasUsed : BitVec 64) : BitVec 64 :=
  if gasUsed < gasLimit then gasLimit - gasUsed else 0

/-! ## What is paid -/

/-- The price per gas that a transaction pays. -/
def effectivePrice (tx : EthTx) (baseFee : Int) : Int :=
  min ((tx.gasTipCap : Int) + baseFee) tx.gasFeeCap

/-- The fee is the gas limit times the price. -/
theorem verifyFee_ok {p : Pricing} {tx : EthTx} {denom : String} {baseFee : Int}
    {homestead istanbul isCheckTx : Bool} {fees : Coins}
    (h : verifyFee p tx denom (some baseFee) homestead istanbul isCheckTx = .ok fees) :
    baseFee ≤ tx.gasFeeCap ∧ (fees = [] ∧ tx.gas.toNat * effectivePrice tx baseFee = 0 ∨
      fees = [(denom, tx.gas.toNat * effectivePrice tx baseFee)] ∧
        tx.gas.toNat * effectivePrice tx baseFee ≠ 0) := by
  have hprice : p.effectiveGasTip tx baseFee + baseFee = effectivePrice tx baseFee := by
    rw [p.tip_eq, effectivePrice]
    omega
  unfold verifyFee at h
  split at h
  · cases h
  · split at h
    · cases h
    · simp only [hprice] at h
      split at h
      · cases h
      · rename_i hcap
        refine ⟨not_lt.mp hcap, ?_⟩
        split at h
        · rename_i hzero
          exact Or.inl ⟨(Except.ok.inj h).symm, hzero⟩
        · rename_i hne
          split at h
          · cases h
          · exact Or.inr ⟨(Except.ok.inj h).symm, hne⟩

namespace FeeBank

variable {σ : Type} {fb : FeeBank σ} {s t : σ}

/-- The collector gets the whole fee. -/
theorem deductFees_collected {payer : AccAddress} {amount : Int}
    (h : fb.deductFees s payer [(fb.denom, amount)] = .ok t) :
    fb.collected t = fb.collected s + amount := by
  unfold deductFees at h
  split at h
  · rename_i hzero
    cases h
    have : amount = 0 := by simpa using hzero
    omega
  · unfold deductTxCostsFromUserBalance payFees at h
    split at h
    · cases h
    · rename_i t' hdeduct
      cases h
      split at hdeduct
      · cases hdeduct
      · split at hdeduct
        · cases hdeduct
        · rename_i t'' hpay
          cases hdeduct
          split at hpay
          · cases hpay
          · split at hpay
            · split at hpay
              · cases hpay
              · exact fb.taken _ _ _ _ (Or.inr hpay)
            · exact fb.taken _ _ _ _ (Or.inl hpay)

/-- The collector pays for the gas that is left. -/
theorem refundGas_collected {sender : AccAddress} {leftoverGas : BitVec 64} {gasPrice : Int}
    (h : fb.refundGas s sender leftoverGas gasPrice = .ok t) :
    fb.collected t = fb.collected s - leftoverGas.toNat * gasPrice := by
  unfold refundGas at h
  dsimp only at h
  split at h
  · cases h
  · split at h
    · split at h
      · cases h
      · split at h
        · cases h
        · rename_i t' hsend
          cases h
          split at hsend
          · exact fb.given _ _ _ _ (Or.inr hsend)
          · exact fb.given _ _ _ _ (Or.inl hsend)
    · cases h
      omega

end FeeBank

theorem gasToRefund_toNat (available consumed quotient : BitVec 64) :
    (gasToRefund available consumed quotient).toNat =
      min available.toNat (consumed.toNat / quotient.toNat) := by
  unfold gasToRefund
  dsimp only
  rw [← BitVec.toNat_udiv]
  split
  · rename_i hlt
    exact (Nat.min_eq_left (BitVec.lt_def.mp hlt).le).symm
  · rename_i hnot
    exact (Nat.min_eq_right (BitVec.not_lt.mp hnot)).symm

theorem gasToRefund_le (available consumed quotient : BitVec 64) :
    (gasToRefund available consumed quotient).toNat ≤ consumed.toNat / quotient.toNat := by
  rw [gasToRefund_toNat]
  exact Nat.min_le_right _ _

variable {cfg : GasConfig} {gasLimit leftoverGas : BitVec 64} {x : Execution} {res : GasResult}

theorem evmGas_ok {gas : BitVec 64} (h : evmGas cfg gasLimit x = .ok gas) :
    ∃ intrinsicGas, x.intrinsicGas = .ok intrinsicGas ∧
      intrinsicGas.toNat ≤ gasLimit.toNat ∧ gas = gasLimit - intrinsicGas := by
  unfold evmGas at h
  split at h
  · cases h
  · rename_i intrinsicGas hintrinsic
    split at h
    · cases h
    · rename_i hle
      dsimp only at h
      split at h
      · cases h
      · exact ⟨intrinsicGas, hintrinsic, BitVec.not_lt.mp hle, (Except.ok.inj h).symm⟩

theorem uint64OfInt_ok {n : Int} {w : BitVec 64} (h : uint64OfInt n = .ok w) :
    (w.toNat : Int) = n := by
  unfold uint64OfInt at h
  split at h
  · cases h
    rw [BitVec.toNat_ofInt]
    omega
  · cases h

/-- Below `2 ^ 63` none of the subtractions of `settleGas` wraps. -/
theorem usedGas_eq (hlimit : gasLimit.toNat < 2 ^ 63) (hle : leftoverGas.toNat ≤ gasLimit.toNat)
    (available quotient : BitVec 64) : let maxUsedGas := gasLimit - leftoverGas
    let refund := gasToRefund available maxUsedGas quotient
    maxUsedGas.toNat = gasLimit.toNat - leftoverGas.toNat ∧ refund.toNat ≤ maxUsedGas.toNat ∧
      (maxUsedGas - refund).toInt = maxUsedGas.toNat - refund.toNat := by
  intro maxUsedGas refund
  have hmax : maxUsedGas.toNat = gasLimit.toNat - leftoverGas.toNat := BitVec.toNat_sub_of_le hle
  have hrefund : refund.toNat ≤ maxUsedGas.toNat :=
    (gasToRefund_le available maxUsedGas quotient).trans (Nat.div_le_self _ _)
  have hsub : (maxUsedGas - refund).toNat = maxUsedGas.toNat - refund.toNat :=
    BitVec.toNat_sub_of_le hrefund
  rw [BitVec.toInt_eq_toNat_of_lt (by omega), hsub]
  omega

/-- The gas used is what the EVM used after its refund, as a signed number, or the minimum. -/
theorem settleGas_gasUsed (hinternal : cfg.internal = false) (hlow : 0 ≤ cfg.multiplier.units)
    (h : settleGas cfg gasLimit x leftoverGas = .ok res) :
    leftoverGas.toNat ≤ gasLimit.toNat ∧ res.maxUsedGas = gasLimit - leftoverGas ∧
    (res.gasUsed.toNat : Int) = max (gasLimit.toNat * cfg.multiplier.units / precision)
      (res.maxUsedGas - gasToRefund x.refundCounter res.maxUsedGas cfg.refundQuotient).toInt := by
  unfold settleGas at h
  split at h
  · cases h
  · rename_i hnot
    dsimp only at h
    split at h
    · cases h
    · split at h
      · cases h
      · rename_i minimum hminimum
        have hunits := Dec.ofInt_mul hminimum
        have hmin : 0 ≤ minimum.units := by
          rw [hunits]
          exact mul_nonneg (Int.natCast_nonneg _) hlow
        split at h
        · cases h
        · split at h
          · cases h
          · obtain ⟨used, hused, rfl⟩ := map_eq_ok.mp h
            refine ⟨BitVec.not_lt.mp hnot, rfl, ?_⟩
            rw [hinternal, if_neg (by decide)] at hused
            rw [uint64OfInt_ok hused, Dec.truncate_ofInt_max _ hmin, Dec.truncate_of_nonneg hmin,
              hunits, max_comm]

/-- Below `2 ^ 63` this is the difference. -/
theorem settleGas_ok (hlimit : gasLimit.toNat < 2 ^ 63) (hinternal : cfg.internal = false)
    (hlow : 0 ≤ cfg.multiplier.units) (h : settleGas cfg gasLimit x leftoverGas = .ok res) :
    leftoverGas.toNat ≤ gasLimit.toNat ∧ res.maxUsedGas = gasLimit - leftoverGas ∧
    (res.gasUsed.toNat : Int) = max (gasLimit.toNat * cfg.multiplier.units / precision)
      (res.maxUsedGas.toNat -
        (gasToRefund x.refundCounter res.maxUsedGas cfg.refundQuotient).toNat) := by
  obtain ⟨hle, hmax, hused⟩ := settleGas_gasUsed hinternal hlow h
  refine ⟨hle, hmax, ?_⟩
  rw [hused, hmax, (usedGas_eq hlimit hle x.refundCounter cfg.refundQuotient).2.2]

theorem minimumGas_le (hhigh : cfg.multiplier.units ≤ precision) (gasLimit : BitVec 64) :
    (gasLimit.toNat : Int) * cfg.multiplier.units / precision ≤
      gasLimit.toNat := by
  apply Int.ediv_le_of_le_mul precision_pos
  exact mul_le_mul_of_nonneg_left hhigh (Int.natCast_nonneg _)

/-- Gas that the EVM leaves of what it got settles without an error. -/
theorem settleGas_total (hlimit : gasLimit.toNat < 2 ^ 63) (hlow : 0 ≤ cfg.multiplier.units)
    (hhigh : cfg.multiplier.units ≤ precision) (hle : leftoverGas.toNat ≤ gasLimit.toNat)
    (hcommit : x.commitError = none) : ∃ res, settleGas cfg gasLimit x leftoverGas = .ok res := by
  obtain ⟨hmax, hrefund, htoInt⟩ := usedGas_eq hlimit hle x.refundCounter cfg.refundQuotient
  have hproduct : 0 ≤ (gasLimit.toNat : Int) * cfg.multiplier.units :=
    mul_nonneg (Int.natCast_nonneg _) hlow
  have hbound : (gasLimit.toNat : Int) * cfg.multiplier.units ≤ gasLimit.toNat * precision :=
    mul_le_mul_of_nonneg_left hhigh (Int.natCast_nonneg _)
  obtain ⟨minimum, hminimum⟩ : ∃ d, (Dec.ofInt gasLimit.toNat).mul cfg.multiplier = some d := by
    apply Dec.ofInt_mul_some
    unfold precision at hbound
    omega
  have hunits := Dec.ofInt_mul hminimum
  have hmin : 0 ≤ minimum.units := hunits ▸ hproduct
  have htrunc : 0 ≤ minimum.truncate ∧ minimum.truncate ≤ gasLimit.toNat := by
    rw [Dec.truncate_of_nonneg hmin, hunits]
    exact ⟨Int.ediv_nonneg hproduct precision_pos.le, minimumGas_le hhigh gasLimit⟩
  generalize hgive : gasToRefund x.refundCounter (gasLimit - leftoverGas) cfg.refundQuotient =
    refund at hrefund htoInt
  have hleftover : ¬gasLimit < leftoverGas + refund := by
    rw [BitVec.not_lt, BitVec.le_def, BitVec.toNat_add]
    omega
  have hused : ∀ used : Dec, 0 ≤ used.truncate → used.truncate ≤ gasLimit.toNat →
      ∃ w, uint64OfInt used.truncate = .ok w :=
    fun used hnonneg hle => ⟨_, if_pos ⟨hnonneg, by omega⟩⟩
  have htemp : 0 ≤ (Dec.ofInt (gasLimit - leftoverGas - refund).toInt).truncate ∧
      (Dec.ofInt (gasLimit - leftoverGas - refund).toInt).truncate ≤ gasLimit.toNat := by
    rw [Dec.truncate_ofInt, htoInt]
    omega
  simp only [settleGas, hgive, hcommit, hminimum]
  rw [if_neg (BitVec.not_lt.mpr hle), if_neg (by omega), if_neg hleftover]
  obtain ⟨w, hw⟩ : ∃ w, uint64OfInt (if cfg.internal = true then
      Dec.ofInt (gasLimit - leftoverGas - refund).toInt
    else (Dec.ofInt (gasLimit - leftoverGas - refund).toInt).max minimum).truncate = .ok w := by
    apply hused
    · split
      · exact htemp.1
      · unfold Dec.max
        split
        · exact htrunc.1
        · exact htemp.1
    · split
      · exact htemp.2
      · unfold Dec.max
        split
        · exact htrunc.2
        · exact htemp.2
  rw [hw]
  exact ⟨_, rfl⟩

theorem remainingGas_toNat {gasUsed : BitVec 64} (h : gasUsed.toNat ≤ gasLimit.toNat) :
    (remainingGas gasLimit gasUsed).toNat = gasLimit.toNat - gasUsed.toNat := by
  unfold remainingGas
  split
  · exact BitVec.toNat_sub_of_le h
  · rename_i hnot
    have hle := BitVec.not_lt.mp hnot
    rw [BitVec.le_def] at hle
    change 0 = _
    omega

theorem evmGas_floorDataGas {gas : BitVec 64} (hprague : cfg.isPrague = true)
    (h : evmGas cfg gasLimit x = .ok gas) : ∃ floorDataGas, x.floorDataGas = .ok floorDataGas := by
  cases hfloor : x.floorDataGas with
  | ok floorDataGas => exact ⟨floorDataGas, rfl⟩
  | error err =>
    unfold evmGas at h
    rw [hprague, hfloor] at h
    split at h
    · cases h
    · split at h <;> cases h

/-- The gas that the EVM takes of a limit, less the refund. -/
def usedAfterRefund (cfg : GasConfig) (gasLimit intrinsicGas : BitVec 64) (x : Execution) : Nat :=
  let used := gasLimit.toNat - (x.leftoverGas (gasLimit - intrinsicGas)).toNat
  used - min x.refundCounter.toNat (used / cfg.refundQuotient.toNat)

/-- With the rules of Prague, the gas that is charged reaches the floor of the calldata exactly if
the minimum does, or the gas that the EVM used does after its refund and is a signed number. -/
theorem floorDataGas_charged_iff {cfg : GasConfig} {gasLimit : BitVec 64} {x : Execution}
    {res : GasResult} (hprague : cfg.isPrague = true) (hinternal : cfg.internal = false)
    (hlow : 0 ≤ cfg.multiplier.units) (h : applyMessageGas cfg gasLimit x = .ok res) :
    ∃ intrinsicGas floorDataGas, x.intrinsicGas = .ok intrinsicGas ∧
      x.floorDataGas = .ok floorDataGas ∧
      (floorDataGas.toNat ≤ res.gasUsed.toNat ↔
        (floorDataGas.toNat : Int) ≤ gasLimit.toNat * cfg.multiplier.units / precision ∨
        floorDataGas.toNat ≤ usedAfterRefund cfg gasLimit intrinsicGas x ∧
          usedAfterRefund cfg gasLimit intrinsicGas x < 2 ^ 63) := by
  obtain ⟨gas, hgas, hsettle⟩ := bind_eq_ok.mp h
  obtain ⟨intrinsicGas, hintrinsic, -, rfl⟩ := evmGas_ok hgas
  obtain ⟨floorDataGas, hfloor⟩ := evmGas_floorDataGas hprague hgas
  obtain ⟨hle, hmax, hused⟩ := settleGas_gasUsed hinternal hlow hsettle
  refine ⟨intrinsicGas, floorDataGas, hintrinsic, hfloor, ?_⟩
  have hrefund : (res.maxUsedGas - gasToRefund x.refundCounter res.maxUsedGas
      cfg.refundQuotient).toNat = usedAfterRefund cfg gasLimit intrinsicGas x := by
    have hnat : res.maxUsedGas.toNat =
        gasLimit.toNat - (x.leftoverGas (gasLimit - intrinsicGas)).toNat := by
      rw [hmax]
      exact BitVec.toNat_sub_of_le hle
    rw [BitVec.toNat_sub_of_le, gasToRefund_toNat, hnat]
    · rfl
    · exact (gasToRefund_le _ _ _).trans (Nat.div_le_self _ _)
  rw [← Int.ofNat_le, hused, le_max_iff, BitVec.toInt_eq_toNat_cond, hrefund]
  refine or_congr Iff.rfl ?_
  split <;> omega

/-- The prices of go-ethereum. -/
def plainPricing : Pricing where
  effectiveGasTip tx baseFee := min (tx.gasTipCap : Int) (tx.gasFeeCap - baseFee)
  messageGasPrice tx baseFee := min ((tx.gasTipCap : Int) + baseFee) tx.gasFeeCap
  tip_eq _ _ := rfl
  price_eq _ _ := rfl

/-- A bank that only knows what the fee collector has. -/
def collectorBank : FeeBank Int where
  denom := "drop"
  virtualFeeCollection := false
  displayDenom := "drop"
  denomUnits _ _ := []
  accountExists _ _ := true
  collected s := s
  sendCoinsFromAccountToModule s _ coins := .ok (s + coins.amountOf "drop")
  sendCoinsFromAccountToModuleVirtual s _ coins := .ok (s + coins.amountOf "drop")
  sendCoinsFromModuleToAccount s _ coins := .ok (s - coins.amountOf "drop")
  sendCoinsFromModuleToAccountVirtual s _ coins := .ok (s - coins.amountOf "drop")
  taken s a amount t h := by
    simp only [Coins.amountOf_singleton, if_true, or_self] at h
    exact (Except.ok.inj h).symm
  given s a amount t h := by
    simp only [Coins.amountOf_singleton, if_true, or_self] at h
    exact (Except.ok.inj h).symm

/-- A transfer with a limit of 100000 gas, of which it needs 21000. -/
def transferTx : EthTx where
  gas := 100000
  gasFeeCap := 10
  gasTipCap := 2
  isContractCreation := false
  intrinsicGas := .ok 21000

def transferExecution : Execution where
  intrinsicGas := .ok 21000
  floorDataGas := .ok 21000
  valueError := none
  leftoverGas gas := gas
  refundCounter := 0
  commitError := none

/-- Half of the gas limit is charged in any case. -/
def halfConfig : GasConfig where
  isLondon := true
  isPrague := true
  internal := false
  minGasMultiplier := some ⟨5 * 10 ^ 17⟩

/-- A call with 1000 bytes of data that are not zero, which runs no code. -/
def calldataExecution : Execution where
  intrinsicGas := .ok 37000
  floorDataGas := .ok 61000
  valueError := none
  leftoverGas gas := gas
  refundCounter := 0
  commitError := none

/-- The floor of the calldata is 61000 and the gas limit too, but 37000 is charged. -/
theorem floorDataGas_uncharged :
    halfConfig.isPrague = true ∧ halfConfig.internal = false ∧
    calldataExecution.floorDataGas = .ok 61000 ∧
    applyMessageGas halfConfig 61000 calldataExecution = .ok ⟨37000, 37000⟩ := by
  decide +kernel

/-- Half of a limit of 100000 is more than the floor of a transfer. -/
theorem floorDataGas_charged_iff_transfer :
    applyMessageGas halfConfig 100000 transferExecution = .ok ⟨50000, 21000⟩ ∧
      ∃ floorDataGas : BitVec 64, transferExecution.floorDataGas = .ok floorDataGas ∧
        floorDataGas.toNat ≤ (50000 : BitVec 64).toNat := by
  have hres : applyMessageGas halfConfig 100000 transferExecution = .ok ⟨50000, 21000⟩ := by
    decide +kernel
  obtain ⟨intrinsicGas, floorDataGas, -, hfloor, hiff⟩ :=
    floorDataGas_charged_iff rfl rfl (by decide) hres
  refine ⟨hres, floorDataGas, hfloor, hiff.mpr (.inl ?_)⟩
  obtain rfl : 21000 = floorDataGas := Except.ok.inj hfloor
  decide

end InfiniteEvm.VM
