import InfiniteEvm.Bank.Coins

/-!
# The coin of the EVM

`EvmCoinInfo` of `x/vm/types`: the bank denom of the gas coin with its decimals, and the
denom of its representation with 18 decimals.
-/

namespace InfiniteEvm

/-- `EvmCoinInfo`, as `setEVMCoinInfo` accepts it. -/
structure EvmCoinInfo where
  denom : String
  extendedDenom : String
  decimals : Nat
  validDenom : validateDenom denom = true
  validExtendedDenom : validateDenom extendedDenom = true
  supported : 0 < decimals ∧ decimals ≤ 18
  extended : decimals = 18 → denom = extendedDenom

namespace EvmCoinInfo

/-- The coin of a chain whose bank uses 18 decimals. -/
def eighteen : EvmCoinInfo where
  denom := "drop"
  extendedDenom := "drop"
  decimals := 18
  validDenom := by decide +kernel
  validExtendedDenom := by decide +kernel
  supported := by decide
  extended _ := rfl

/-- `ConversionFactor`: what one unit of the bank denom is worth with 18 decimals. -/
def conversionFactor (info : EvmCoinInfo) : Int := 10 ^ (18 - info.decimals)

theorem conversionFactor_pos (info : EvmCoinInfo) : 0 < info.conversionFactor :=
  pow_pos (by decide) _

theorem conversionFactor_of_eighteen {info : EvmCoinInfo} (h : info.decimals = 18) :
    info.conversionFactor = 1 := by
  rw [conversionFactor, h]
  rfl

/-- `ConvertAmountTo18DecimalsBigInt`. -/
def convertAmountTo18Decimals (info : EvmCoinInfo) (amount : Int) : Int :=
  amount * info.conversionFactor

end EvmCoinInfo

end InfiniteEvm
