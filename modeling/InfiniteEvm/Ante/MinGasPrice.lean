import InfiniteEvm.FeeMarket.BaseFee

/-!
# The global minimum gas price

The parameter of the fee market is a price in units of the bank. `MinGasPriceDecorator`
compares it with the fee of a Cosmos transaction, in the same units, and `CheckGlobalFee`
with the fee of an Ethereum transaction, which has 18 decimals.
-/

namespace InfiniteEvm.Ante

open Library Decimals Outcomes FeeMarket

/-! ## Ethereum transactions -/

/-- The prices in `DecoratorUtils`. -/
structure DecoratorUtils where
  baseFee : Option Int
  mempoolMinGasPrice : Dec
  globalMinGasPrice : Option Dec
  deriving DecidableEq

/-- `ConvertAmountTo18DecimalsLegacy`. -/
def convertAmountTo18DecimalsLegacy (info : EvmCoinInfo) (amt : Dec) : Except String Dec :=
  orPanic "Int overflow" (amt.mulInt info.conversionFactor)

/-- `GetBaseFee`. -/
def getBaseFee (info : EvmCoinInfo) (isLondon : Bool) (p : Params) : Except String (Option Int) :=
  if !isLondon then .ok none
  else if p.noBaseFee then .ok (some 0)
  else
    match p.baseFee with
    | none => .error nilDereference
    | some baseFee =>
      if baseFee.units = 0 then .ok (some 0)
      else (convertAmountTo18DecimalsLegacy info baseFee).map fun fee => some fee.truncate

/-- `NewMonoDecoratorUtils`, for the minimum gas price of the node in the coin of the EVM. -/
def newMonoDecoratorUtils (info : EvmCoinInfo) (isLondon : Bool) (minGasPrice : Dec)
    (p : Params) : Except String DecoratorUtils :=
  (getBaseFee info isLondon p).bind fun baseFee =>
    if isLondon && baseFee.isNone then
      .error "base fee is supported but evm block context value is nil: invalid base fee"
    else (convertAmountTo18DecimalsLegacy info minGasPrice).map fun mempoolMinGasPrice =>
      { baseFee
        mempoolMinGasPrice
        globalMinGasPrice := p.minGasPrice }

/-- `CheckGlobalFee`. -/
def checkGlobalFee (fee : Dec) (globalMinGasPrice : Option Dec) (gasLimit : Dec) :
    Except String Unit :=
  match globalMinGasPrice with
  | none => .error nilDereference
  | some globalMinGasPrice =>
    if globalMinGasPrice.units = 0 then .ok ()
    else (orPanic "Int overflow" (globalMinGasPrice.mul gasLimit)).bind fun requiredFee =>
      if fee.units < requiredFee.units then
        .error ("provided fee < minimum global fee (" ++ toString fee.truncate ++ " < " ++
          toString requiredFee.truncate ++ "). Please increase the priority tip " ++
          "(for EIP-1559 txs) or the gas prices (for access list or legacy txs): insufficient fee")
      else .ok ()

/-! ## Cosmos transactions -/

/-- `IsAnyGTE`. -/
def isAnyGTE (coins required : Coins) : Bool :=
  !required.isEmpty && coins.any fun coin =>
    let amt := required.amountOf coin.1
    amt ≤ coin.2 && amt ≠ 0

/-- What the decorator reads of a transaction: its fee, which may be nil, and its gas. -/
inductive SdkTx
  | feeTx (fee : Option Coins) (gas : BitVec 64)
  | other (type : String)

def defaultBondDenom : String := "stake"

/-- The fees that `MinGasPriceDecorator` requires. -/
def requiredFees (denom : String) (minGasPrice : Dec) (gas : BitVec 64) : Except String Coins :=
  (orPanic "Int overflow" (minGasPrice.mul (.ofInt gas.toNat))).bind fun fee =>
    (orPanic "Int overflow" fee.ceil).bind fun fee =>
      match fee.roundInt with
      | none => .error "NewIntFromBigInt() out of bound"
      | some fee => .ok (if 0 < fee then [(denom, fee)] else [])

/-- `AnteHandle` of `MinGasPriceDecorator`, up to the next decorator. -/
def minGasPriceAnteHandle (info : EvmCoinInfo) (p : Params) (tx : SdkTx) (simulate : Bool) :
    Except String Unit :=
  match tx with
  | .other type =>
    .error ("invalid transaction type " ++ type ++ ", expected sdk.FeeTx: invalid type")
  | .feeTx fee gas =>
    let feeCoins := fee.getD []
    let validFees := feeCoins.isEmpty || (feeCoins.length = 1 &&
      feeCoins.all fun coin => [info.denom, defaultBondDenom].contains coin.1)
    if !validFees && !simulate then
      .error ("expected only native token " ++ info.denom ++ " for fee, but got " ++
        feeCoins.text)
    else
      match p.minGasPrice with
      | none => .error nilDereference
      | some minGasPrice =>
        if minGasPrice.units = 0 || simulate then .ok ()
        else (requiredFees info.denom minGasPrice gas).bind fun required =>
          if fee.isNone then
            .error ("fee not provided. Please use the --fees flag or the --gas-price flag " ++
              "along with the --gas flag to estimate the fee. The minimum global fee for this " ++
              "tx is: " ++ required.text ++ ": insufficient fee")
          else if !isAnyGTE feeCoins required then
            .error ("provided fee < minimum global fee (" ++ feeCoins.text ++ " < " ++
              required.text ++ "). Please increase the gas price.: insufficient fee")
          else .ok ()

/-! ## The two thresholds -/

variable {info : EvmCoinInfo} {p : Params} {price : Dec}

theorem newMonoDecoratorUtils_global {isLondon : Bool} {minGasPrice : Dec} {utils : DecoratorUtils}
    (h : newMonoDecoratorUtils info isLondon minGasPrice p = .ok utils) :
    utils.globalMinGasPrice = p.minGasPrice := by
  obtain ⟨baseFee, -, h⟩ := bind_eq_ok.mp h
  split_ifs at h
  obtain ⟨mempool, -, rfl⟩ := map_eq_ok.mp h
  rfl

/-- A fee passes if it covers the price, taken as one with 18 decimals. -/
theorem checkGlobalFee_iff (fee gas : Nat) (price : Dec) :
    checkGlobalFee (.ofInt fee) (some price) (.ofInt gas) = .ok () ↔
      price.units = 0 ∨ (price.units * gas).natAbs < 2 ^ 315 ∧
        price.units * gas ≤ fee * precision := by
  by_cases hzero : price.units = 0
  · rw [checkGlobalFee, if_pos hzero]
    exact iff_of_true rfl (.inl hzero)
  · rw [or_iff_right hzero, checkGlobalFee, if_neg hzero, Dec.mul_ofInt]
    by_cases hfits : (price.units * gas).natAbs < 2 ^ 315
    · rw [if_pos hfits, and_iff_right hfits]
      change (if (fee * precision : Int) < price.units * gas then _ else _) = _ ↔ _
      split
      · rename_i hlt
        exact ⟨nofun, fun hle => absurd hle (not_le.mpr hlt)⟩
      · rename_i hle
        exact ⟨fun _ => not_lt.mp hle, fun _ => rfl⟩
    · rw [if_neg hfits]
      exact ⟨nofun, fun h => absurd h.1 hfits⟩

/-- The required fee is the ceiling of the price of the gas. -/
theorem requiredFees_eq_ok {denom : String} {gas : BitVec 64} {required : Coins}
    (hnonneg : 0 ≤ price.units) (h : requiredFees denom price gas = .ok required) :
    ∃ fee, required = (if 0 < fee then [(denom, fee)] else []) ∧
      ∀ n : Int, fee ≤ n ↔ price.units * gas.toNat ≤ n * precision := by
  obtain ⟨product, hproduct, h⟩ := bind_eq_ok.mp h
  rw [orPanic_eq_ok, Dec.mul_ofInt] at hproduct
  split_ifs at hproduct
  cases hproduct
  obtain ⟨ceiling, hceil, h⟩ := bind_eq_ok.mp h
  rw [orPanic_eq_ok] at hceil
  cases hround : ceiling.roundInt with
  | none => simp [hround] at h
  | some fee =>
    rw [hround] at h
    refine ⟨fee, (Except.ok.inj h).symm, ?_⟩
    exact Dec.roundInt_ceil (mul_nonneg hnonneg (Int.natCast_nonneg _)) hceil hround

/-- The fee of a Cosmos transaction in the coin of the EVM is at least the price of its gas. -/
theorem minGasPriceAnteHandle_covers (hprice : p.minGasPrice = some price)
    (hnonneg : 0 ≤ price.units) {fee : Nat} {gas : BitVec 64}
    (h : minGasPriceAnteHandle info p (.feeTx (some [(info.denom, (fee : Int))]) gas) false =
      .ok ()) : price.units * gas.toNat ≤ fee * precision := by
  by_cases hzero : price.units = 0
  · rw [hzero, zero_mul]
    exact mul_nonneg (Int.natCast_nonneg _) precision_pos.le
  · unfold minGasPriceAnteHandle at h
    dsimp only at h
    split at h
    · cases h
    · rw [hprice] at h
      dsimp only at h
      rw [if_neg (by simp [hzero])] at h
      obtain ⟨required, hrequired, h⟩ := bind_eq_ok.mp h
      obtain ⟨amount, rfl, hiff⟩ := requiredFees_eq_ok hnonneg hrequired
      rw [Option.isNone_some, if_neg Bool.false_ne_true] at h
      rw [← hiff]
      by_cases hpos : 0 < amount
      · rw [if_pos hpos] at h
        split at h
        · cases h
        · rename_i hany
          have hboth : amount ≤ fee ∧ amount ≠ 0 := by
            simpa [isAnyGTE, Coins.amountOf_cons] using hany
          exact hboth.1
      · exact (not_lt.mp hpos).trans (Int.natCast_nonneg _)

/-- The minimum gas price means the same for both kinds of transactions: an Ethereum transaction
passes exactly with the price of its gas in 18 decimals, and a Cosmos transaction with a fee in
the coin of the EVM needs the price of its gas in units of the bank. -/
structure SameMinimum (info : EvmCoinInfo) (p : Params) (utils : DecoratorUtils) (price : Dec)
    (gas : BitVec 64) : Prop where
  ethereum : ∀ fee : Nat,
    checkGlobalFee (.ofInt fee) utils.globalMinGasPrice (.ofInt gas.toNat) = .ok () ↔
      price.units * info.conversionFactor * gas.toNat ≤ fee * precision
  cosmos : ∀ fee : Nat,
    minGasPriceAnteHandle info p (.feeTx (some [(info.denom, (fee : Int))]) gas) false = .ok () →
      price.units * gas.toNat ≤ fee * precision

theorem conversionFactor_eq_one : info.conversionFactor = 1 ↔ info.decimals = 18 := by
  constructor
  · intro h
    by_contra hne
    have hlt : 0 < 18 - info.decimals := by
      have := info.supported.2
      omega
    have hone : (1 : Int) < 10 ^ (18 - info.decimals) := one_lt_pow₀ (by decide) hlt.ne'
    rw [EvmCoinInfo.conversionFactor] at h
    omega
  · exact EvmCoinInfo.conversionFactor_of_eighteen

/-- The minimum gas price means the same for both kinds of transactions exactly if it is zero, or
the price of the gas is not too large and the bank has 18 decimals, there is no gas, or the price
of the gas in 18 decimals is at most one. -/
theorem sameMinimum_iff {isLondon : Bool} {minGasPrice : Dec} {utils : DecoratorUtils}
    (hutils : newMonoDecoratorUtils info isLondon minGasPrice p = .ok utils)
    (hprice : p.minGasPrice = some price) (hnonneg : 0 ≤ price.units) (gas : BitVec 64) :
    SameMinimum info p utils price gas ↔
      price.units = 0 ∨ (price.units * gas.toNat).natAbs < 2 ^ 315 ∧
        (info.decimals = 18 ∨ price.units * gas.toNat = 0 ∨
          price.units * info.conversionFactor * gas.toNat ≤ precision) := by
  have hglobal : utils.globalMinGasPrice = some price :=
    (newMonoDecoratorUtils_global hutils).trans hprice
  have hgas : 0 ≤ price.units * gas.toNat := mul_nonneg hnonneg (Int.natCast_nonneg _)
  have hscaled : price.units * info.conversionFactor * gas.toNat =
      price.units * gas.toNat * info.conversionFactor := by ring
  have habove := Dec.multiples_above_iff hgas info.conversionFactor_pos
  rw [conversionFactor_eq_one] at habove
  rw [hscaled, ← habove]
  constructor
  · intro h
    have hethereum := h.ethereum
    simp only [hglobal, checkGlobalFee_iff, hscaled] at hethereum
    by_cases hzero : price.units = 0
    · exact .inl hzero
    · simp only [hzero, false_or] at hethereum
      -- some fee is large enough, so that the product is computed
      obtain ⟨hfits, -⟩ := (hethereum (price.units * gas.toNat * info.conversionFactor).toNat).mpr
        (by unfold precision; omega)
      refine .inr ⟨hfits, fun fee => ?_⟩
      rw [← hethereum fee, and_iff_right hfits]
  · intro h
    refine ⟨fun fee => ?_, fun fee => minGasPriceAnteHandle_covers hprice hnonneg⟩
    rw [hglobal, checkGlobalFee_iff, hscaled]
    rcases h with hzero | ⟨hfits, hsame⟩
    · rw [hzero, zero_mul, zero_mul]
      exact iff_of_true (.inl rfl) (mul_nonneg (Int.natCast_nonneg _) precision_pos.le)
    · rw [and_iff_right hfits, ← hsame fee]
      refine ⟨fun h => h.elim (fun hzero => ?_) id, .inr⟩
      rw [hzero, zero_mul]
      exact mul_nonneg (Int.natCast_nonneg _) precision_pos.le

/-! ## A coin with six decimals -/

/-- A coin with six decimals. -/
def sixDecimals : EvmCoinInfo where
  denom := "udrop"
  extendedDenom := "adrop"
  decimals := 6
  validDenom := by decide +kernel
  validExtendedDenom := by decide +kernel
  supported := by decide
  extended h := by cases h

/-- A gas limit of a transfer at a price of one: a fee of 21000 units with 18 decimals passes for
an Ethereum transaction, which is a tiny part of the 21000 units of the bank that a Cosmos
transaction needs. -/
theorem sameMinimum_fails :
    (newMonoDecoratorUtils sixDecimals true ⟨0⟩ onePrice.params).map
      (fun utils => (checkGlobalFee (.ofInt 21000) utils.globalMinGasPrice (.ofInt 21000),
        minGasPriceAnteHandle sixDecimals onePrice.params
          (.feeTx (some [("udrop", 20999)]) 21000) false)) =
      .ok (.ok (), .error ("provided fee < minimum global fee (20999udrop < 21000udrop). " ++
        "Please increase the gas price.: insufficient fee")) := by
  decide +kernel

theorem onePrice_utils : newMonoDecoratorUtils .eighteen true ⟨0⟩ onePrice.params =
    .ok ⟨some 1000000000, ⟨0⟩, some (.ofInt 1)⟩ := by
  decide +kernel

/-- With 18 decimals the price is the same. -/
theorem sameMinimum_iff_eighteen :
    SameMinimum .eighteen onePrice.params ⟨some 1000000000, ⟨0⟩, some (.ofInt 1)⟩ (.ofInt 1)
      21000 :=
  (sameMinimum_iff onePrice_utils rfl (by decide) 21000).mpr (.inr ⟨by decide +kernel, .inl rfl⟩)

end InfiniteEvm.Ante
