import InfiniteEvm.Library.Decimals
import InfiniteEvm.Library.Outcomes
import InfiniteEvm.Library.Runs
import InfiniteEvm.VM.CoinInfo

/-!
# The base fee

`BeginBlock` of the fee market computes the base fee of a block from that of its parent and
from the gas that `EndBlock` of the parent stored. The minimum gas price is a lower bound
in the branch in which the fee falls only.
-/

namespace InfiniteEvm.FeeMarket

open Library Decimals Outcomes Runs Dec Option

/-! ## Parameters -/

/-- `Params`. A decimal may be nil. -/
structure Params where
  noBaseFee : Bool
  baseFeeChangeDenominator : BitVec 32
  elasticityMultiplier : BitVec 32
  baseFee : Option Dec
  enableHeight : Int
  minGasPrice : Option Dec
  minGasMultiplier : Option Dec

def nilDereference : String := "runtime error: invalid memory address or nil pointer dereference"

/-- The value of an operation that panics if it is out of bounds. -/
def orPanic (text : String) : Option Dec → Except String Dec
  | none => .error text
  | some d => .ok d

/-- `validateMinGasPrice`. -/
def validateMinGasPrice : Option Dec → Except String Unit
  | none => .error "invalid parameter: nil"
  | some gasPrice =>
    if gasPrice.units < 0 then .error ("value cannot be negative: " ++ gasPrice.text) else .ok ()

/-- `validateMinGasMultiplier`. -/
def validateMinGasMultiplier : Option Dec → Except String Unit
  | none => .error "invalid parameter: nil"
  | some multiplier =>
    if multiplier.units < 0 then .error ("value cannot be negative: " ++ multiplier.text)
    else if precision < multiplier.units then
      .error ("value cannot be greater than 1: " ++ multiplier.text)
    else .ok ()

/-- `Validate`. -/
def Params.validate (p : Params) : Except String Unit :=
  if p.baseFeeChangeDenominator = 0 then .error "base fee change denominator cannot be 0"
  else
    match p.baseFee with
    | none => .error nilDereference
    | some baseFee =>
      if baseFee.units < 0 then
        .error ("initial base fee cannot be negative: " ++ baseFee.text)
      else if p.enableHeight < 0 then
        .error ("enable height cannot be negative: " ++ toString p.enableHeight)
      else if p.elasticityMultiplier = 0 then .error "elasticity multiplier cannot be zero: 0"
      else (validateMinGasMultiplier p.minGasMultiplier).bind fun _ =>
        validateMinGasPrice p.minGasPrice

/-- `IsBaseFeeEnabled`. -/
def Params.isBaseFeeEnabled (p : Params) (height : Int) : Bool :=
  !p.noBaseFee && p.enableHeight ≤ height

/-! ## `BeginBlock` and `EndBlock` -/

/-- `CalcGasBaseFee`. -/
def calcGasBaseFee (gasUsed gasTarget baseFeeChangeDenom : Nat) (baseFee minUnitGas : Dec)
    (minGasPrice : Option Dec) : Except String Dec :=
  if gasUsed = gasTarget then .ok baseFee
  else if gasTarget = 0 then .ok ⟨0⟩
  else
    let delta := ((gasUsed : Int) - gasTarget).natAbs
    (orPanic "Int overflow" ((ofInt delta).mul baseFee)).bind fun num =>
    (orPanic "division by zero" (num.quoInt gasTarget)).bind fun num =>
    (orPanic "division by zero" (num.quoInt baseFeeChangeDenom)).bind fun num =>
      if gasTarget < gasUsed then
        orPanic "Int overflow" (baseFee.add (num.max minUnitGas))
      else (orPanic "Int overflow" (baseFee.sub num)).bind fun lowered =>
        match minGasPrice with
        | none => .error nilDereference
        | some minGasPrice => .ok (lowered.max minGasPrice)

/-- A block, as far as the fee market sees it. The consensus parameters may have no limit of
gas, and the context no gas meter. -/
structure Block where
  height : Int
  maxGas : Option Int
  hasGasMeter : Bool
  gasWanted : BitVec 64
  gasUsed : BitVec 64

/-- The limit of gas in `CalculateBaseFee`. -/
def Block.gasLimit (block : Block) : Int :=
  match block.maxGas with
  | none => 2 ^ 64 - 1
  | some maxGas => if -1 < maxGas then maxGas else 2 ^ 64 - 1

/-- The store of the fee market. -/
structure State where
  params : Params
  blockGasWanted : BitVec 64

namespace State

variable (info : EvmCoinInfo) (s : State)

/-- The target of gas in `CalculateBaseFee`. -/
def gasTarget (block : Block) : Int :=
  block.gasLimit.tdiv s.params.elasticityMultiplier.toNat

/-- `CalculateBaseFee`, which may be nil. -/
def calculateBaseFee (block : Block) : Except String (Option Dec) :=
  if !s.params.isBaseFeeEnabled block.height then .ok none
  else if block.height = s.params.enableHeight then .ok s.params.baseFee
  else
    match s.params.baseFee with
    | none => .ok none
    | some parentBaseFee =>
      if s.params.elasticityMultiplier = 0 then .error "division by zero"
      else if ¬(0 ≤ s.gasTarget block ∧ s.gasTarget block < 2 ^ 64) then .ok none
      else (orPanic "division by zero" ((ofInt 1).quoInt info.conversionFactor)).bind
        fun minUnitGas => (calcGasBaseFee s.blockGasWanted.toNat (s.gasTarget block).toNat
          s.params.baseFeeChangeDenominator.toNat parentBaseFee minUnitGas
          s.params.minGasPrice).map some

/-- `SetBaseFee`. -/
def setBaseFee (baseFee : Dec) : State :=
  { s with params := { s.params with baseFee := some baseFee } }

/-- `BeginBlock`. -/
def beginBlock (block : Block) : Except String State :=
  (s.calculateBaseFee info block).map fun
    | none => s
    | some baseFee => s.setBaseFee baseFee

/-- `EndBlock`. -/
def endBlock (block : Block) : Except String State :=
  if !block.hasGasMeter then .error "block gas meter is nil when setting block gas wanted"
  else if 2 ^ 63 ≤ block.gasWanted.toNat then
    .error ("integer overflow by integer type conversion. Gas wanted > MaxInt64. Gas wanted: " ++
      toString block.gasWanted.toNat)
  else if 2 ^ 63 ≤ block.gasUsed.toNat then
    .error ("integer overflow by integer type conversion. Gas used > MaxInt64. Gas used: " ++
      toString block.gasUsed.toNat)
  else
    match s.params.minGasMultiplier with
    | none => .error nilDereference
    | some minGasMultiplier =>
      (orPanic "Int overflow" ((ofInt block.gasWanted.toNat).mul minGasMultiplier)).bind
        fun limitedGasWanted =>
          let updated := (limitedGasWanted.max (.ofInt block.gasUsed.toNat)).truncate
          if 0 ≤ updated ∧ updated < 2 ^ 64 then
            .ok { s with blockGasWanted := BitVec.ofInt 64 updated }
          else .error "Uint64() out of bounds"

/-- A block. -/
def step (block : Block) : Option State :=
  ((s.beginBlock info block).bind fun s' => s'.endBlock block).toOption

end State

/-! ## The minimum gas price as a lower bound -/

/-- The base fee is not below the minimum gas price. -/
def State.Floor (s : State) : Prop :=
  ∃ fee price, s.params.baseFee = some fee ∧ s.params.minGasPrice = some price ∧
    price.units ≤ fee.units

/-- Parameters that pass `Validate` with the base fee in use. -/
structure Params.Enabled (p : Params) : Prop where
  enabled : p.noBaseFee = false
  elasticity : p.elasticityMultiplier ≠ 0
  price : ∃ price, p.minGasPrice = some price ∧ 0 ≤ price.units

theorem Params.enabled_of_validate {p : Params} (hvalid : p.validate = .ok ())
    (hno : p.noBaseFee = false) : p.Enabled := by
  unfold validate at hvalid
  split at hvalid
  · cases hvalid
  · cases hfee : p.baseFee with
    | none => simp [hfee] at hvalid
    | some fee =>
      simp only [hfee] at hvalid
      split_ifs at hvalid with hneg hheight helasticity
      obtain ⟨-, -, hprice⟩ := bind_eq_ok.mp hvalid
      refine ⟨hno, helasticity, ?_⟩
      cases hmin : p.minGasPrice with
      | none => simp [hmin, validateMinGasPrice] at hprice
      | some price =>
        simp only [hmin, validateMinGasPrice] at hprice
        split_ifs at hprice with hneg'
        exact ⟨price, rfl, by omega⟩

/-- The block is past the first block with a base fee, its target of gas is zero, and its parent
wanted gas. -/
def State.Collapses (s : State) (block : Block) : Prop :=
  s.params.enableHeight < block.height ∧ s.gasTarget block = 0 ∧ s.blockGasWanted ≠ 0

instance (s : State) (block : Block) : Decidable (s.Collapses block) :=
  inferInstanceAs (Decidable (_ ∧ _ ∧ _))

theorem orPanic_eq_ok {text : String} {o : Option Dec} {d : Dec} :
    orPanic text o = .ok d ↔ o = some d := by
  cases o <;> simp [orPanic]

/-- Unless the target is zero, the new base fee keeps to the minimum gas price. -/
theorem calcGasBaseFee_floor {gasUsed gasTarget baseFeeChangeDenom : Nat}
    {baseFee minUnitGas minGasPrice fee : Dec} (hfloor : minGasPrice.units ≤ baseFee.units)
    (hunit : 0 ≤ minUnitGas.units) (htarget : gasTarget = 0 → gasUsed = 0)
    (h : calcGasBaseFee gasUsed gasTarget baseFeeChangeDenom baseFee minUnitGas
      (some minGasPrice) = .ok fee) : minGasPrice.units ≤ fee.units := by
  unfold calcGasBaseFee at h
  split_ifs at h with hequal hzero hmore
  · cases h
    exact hfloor
  · exact absurd ((htarget hzero).trans hzero.symm) hequal
  · -- the fee rises
    obtain ⟨product, -, h⟩ := bind_eq_ok.mp h
    obtain ⟨quotient, -, h⟩ := bind_eq_ok.mp h
    obtain ⟨num, -, h⟩ := bind_eq_ok.mp h
    rw [orPanic_eq_ok, add] at h
    split_ifs at h
    cases h
    have hdelta := units_max num minUnitGas
    dsimp only
    omega
  · -- the fee falls
    obtain ⟨product, -, h⟩ := bind_eq_ok.mp h
    obtain ⟨quotient, -, h⟩ := bind_eq_ok.mp h
    obtain ⟨num, -, h⟩ := bind_eq_ok.mp h
    obtain ⟨lowered, -, h⟩ := bind_eq_ok.mp h
    cases h
    rw [units_max]
    exact le_max_right ..

namespace State

variable {info : EvmCoinInfo} {s t s' : State} {block : Block} {price : Option Dec}

theorem beginBlock_eq (h : s.beginBlock info block = .ok s') :
    s' = s ∨ ∃ fee, s' = s.setBaseFee fee := by
  obtain ⟨fee, -, rfl⟩ := map_eq_ok.mp h
  cases fee with
  | none => exact .inl rfl
  | some fee => exact .inr ⟨fee, rfl⟩

theorem endBlock_params (h : s.endBlock block = .ok s') : s'.params = s.params := by
  unfold endBlock at h
  split_ifs at h
  cases hmultiplier : s.params.minGasMultiplier with
  | none => simp [hmultiplier] at h
  | some multiplier =>
    simp only [hmultiplier] at h
    obtain ⟨limited, -, h⟩ := bind_eq_ok.mp h
    split_ifs at h
    cases h
    rfl

/-- A block that does not collapse the base fee keeps it. -/
theorem beginBlock_floor (hparams : s.params.Enabled) (hfloor : s.Floor)
    (hkept : ¬ s.Collapses block) (h : s.beginBlock info block = .ok s') : s'.Floor := by
  obtain ⟨fee, price, hfee, hprice, hle⟩ := hfloor
  obtain ⟨new, hnew, rfl⟩ := map_eq_ok.mp h
  unfold calculateBaseFee at hnew
  simp only [hfee, if_neg hparams.elasticity] at hnew
  split_ifs at hnew with hdisabled hfirst hbounds
  · cases hnew
    exact ⟨fee, price, hfee, hprice, hle⟩
  · cases hnew
    exact ⟨fee, price, rfl, hprice, hle⟩
  · obtain ⟨minUnitGas, hunit, hnew⟩ := bind_eq_ok.mp hnew
    obtain ⟨fee', hcalc, rfl⟩ := map_eq_ok.mp hnew
    refine ⟨fee', price, rfl, hprice, ?_⟩
    rw [hprice] at hcalc
    refine calcGasBaseFee_floor hle ?_ ?_ hcalc
    · rw [orPanic_eq_ok, quoInt, if_neg info.conversionFactor_pos.ne'] at hunit
      cases hunit
      exact Int.tdiv_nonneg (show (0 : Int) ≤ 1 * precision by decide) info.conversionFactor_pos.le
    · intro hzero
      by_contra hgas
      apply hkept
      have henabled : s.params.enableHeight ≤ block.height := by
        simpa [Params.isBaseFeeEnabled, hparams.enabled] using hdisabled
      refine ⟨by omega, by omega, fun hnone => hgas ?_⟩
      rw [hnone]
      rfl
  · cases hnew
    exact ⟨fee, price, hfee, hprice, hle⟩

/-- A block that collapses the base fee sets it to zero. -/
theorem beginBlock_collapses (hparams : s.params.Enabled) (hfee : s.params.baseFee ≠ none)
    (hcollapses : s.Collapses block) : s.beginBlock info block =
      .ok (s.setBaseFee ⟨0⟩) := by
  obtain ⟨hheight, htarget, hgas⟩ := hcollapses
  obtain ⟨fee, hfee⟩ := ne_none_iff_exists'.mp hfee
  have henabled : s.params.isBaseFeeEnabled block.height = true := by
    simpa [Params.isBaseFeeEnabled, hparams.enabled] using hheight.le
  have hgas' : ¬ s.blockGasWanted.toNat = 0 := fun hzero =>
    hgas (BitVec.eq_of_toNat_eq hzero)
  have hcalc : ∀ unit price, calcGasBaseFee s.blockGasWanted.toNat (s.gasTarget block).toNat
      s.params.baseFeeChangeDenominator.toNat fee unit price = .ok ⟨0⟩ := by
    simp [calcGasBaseFee, htarget, hgas']
  have hnew : s.calculateBaseFee info block = .ok (some ⟨0⟩) := by
    unfold calculateBaseFee
    rw [henabled, if_neg (by decide), if_neg hheight.ne', hfee]
    simp only [if_neg hparams.elasticity]
    rw [if_neg (by rw [htarget]; decide), quoInt, if_neg info.conversionFactor_pos.ne']
    change (calcGasBaseFee _ _ _ _ _ _).map some = _
    rw [hcalc]
    rfl
  rw [beginBlock, hnew]
  rfl

/-! ## Runs -/

/-- What a block leaves of the parameters. -/
theorem step_params (h : s.step info block = some s') :
    ∃ t, s.beginBlock info block = .ok t ∧ s'.params = t.params := by
  obtain ⟨t, hbegin, hend⟩ := bind_eq_ok.mp (toOption_eq_some.mp h)
  exact ⟨t, hbegin, endBlock_params hend⟩

/-- The parameters of a chain on which the base fee is in use, with a minimum gas price. -/
structure Priced (price : Option Dec) (s : State) : Prop where
  params : s.params.Enabled
  fee : s.params.baseFee ≠ none
  price : s.params.minGasPrice = price

theorem Priced.beginBlock (h : Priced price s) (hbegin : s.beginBlock info block = .ok s') :
    Priced price s' := by
  obtain rfl | ⟨fee, rfl⟩ := beginBlock_eq hbegin
  · exact h
  · exact ⟨⟨h.params.enabled, h.params.elasticity, h.params.price⟩, some_ne_none fee, h.price⟩

theorem Priced.run {blocks : List Block} (h : Priced price s)
    (hrun : run (step info) s blocks = some t) : Priced price t := by
  refine run_invariant (Priced price) (fun _ => True) ?_ (fun _ _ => trivial) h hrun
  intro s block s' _ hs hstep
  obtain ⟨t, hbegin, hparams⟩ := step_params hstep
  have ht := hs.beginBlock hbegin
  constructor
  · rw [hparams]
    exact ht.params
  · rw [hparams]
    exact ht.fee
  · rw [hparams]
    exact ht.price

theorem beginBlock_floor_of_zero (hs : Priced (some ⟨0⟩) s) (hfloor : s.Floor)
    (h : s.beginBlock info block = .ok s') : s'.Floor := by
  by_cases hcollapses : s.Collapses block
  · rw [beginBlock_collapses hs.params hs.fee hcollapses] at h
    cases h
    exact ⟨⟨0⟩, ⟨0⟩, rfl, hs.price, le_refl _⟩
  · exact beginBlock_floor hs.params hfloor hcollapses h

/-- After every `BeginBlock` at or past the first block with a base fee, the base fee is not
below the minimum gas price. -/
def FloorKept (info : EvmCoinInfo) (s : State) (blocks : List Block) : Prop :=
  ∀ (n : Nat) t block s', run (step info) s (blocks.take n) = some t → blocks[n]? = some block →
    t.params.enableHeight ≤ block.height → t.beginBlock info block = .ok s' → s'.Floor

/-- No block collapses the base fee. -/
def NoCollapse (info : EvmCoinInfo) (s : State) (blocks : List Block) : Prop :=
  ∀ (n : Nat) t block, run (step info) s (blocks.take n) = some t → blocks[n]? = some block →
    ¬ t.Collapses block

theorem run_floor {blocks : List Block} (hs : Priced price s) (hfloor : s.Floor)
    (hkept : price = some ⟨0⟩ ∨ NoCollapse info s blocks) {n : Nat}
    (hrun : run (step info) s (blocks.take n) = some t) : t.Floor := by
  induction n generalizing t with
  | zero =>
    cases hrun
    exact hfloor
  | succ n ih =>
    cases hblock : blocks[n]? with
    | none =>
      have hlen := List.getElem?_eq_none_iff.mp hblock
      rw [List.take_of_length_le (by omega)] at hrun
      rw [List.take_of_length_le hlen] at ih
      exact ih hrun
    | some block =>
      rw [List.take_add_one, hblock, run_append, bind_eq_some_iff] at hrun
      obtain ⟨u, hu, hlast⟩ := hrun
      obtain ⟨t', hstep, hnil⟩ := bind_eq_some_iff.mp hlast
      cases hnil
      obtain ⟨v, hbegin, hparams⟩ := step_params hstep
      have hv : v.Floor := by
        rcases hkept with rfl | hkept
        · exact beginBlock_floor_of_zero (hs.run hu) (ih hu) hbegin
        · exact beginBlock_floor (hs.run hu).params (ih hu) (hkept n u block hu hblock) hbegin
      unfold Floor at hv ⊢
      rw [hparams]
      exact hv

/-- The base fee keeps to the minimum gas price exactly if that is zero or no block with a target
of zero follows one that wanted gas. -/
theorem baseFee_floor_iff (hvalid : s.params.validate = .ok ()) (hno : s.params.noBaseFee = false)
    (hfloor : s.Floor) (blocks : List Block) :
    FloorKept info s blocks ↔
      s.params.minGasPrice = some ⟨0⟩ ∨ NoCollapse info s blocks := by
  have hs : Priced s.params.minGasPrice s := by
    refine ⟨Params.enabled_of_validate hvalid hno, ?_, rfl⟩
    obtain ⟨fee, price, hfee, -⟩ := hfloor
    rw [hfee]
    exact some_ne_none fee
  constructor
  · intro hkept
    by_cases hzero : s.params.minGasPrice = some ⟨0⟩
    · exact .inl hzero
    · refine .inr fun n t block hrun hblock hcollapses => hzero ?_
      have ht := hs.run hrun
      have hbegin : t.beginBlock info block = .ok (t.setBaseFee ⟨0⟩) :=
        beginBlock_collapses ht.params ht.fee hcollapses
      obtain ⟨fee, price, hfee, hprice, hle⟩ := hkept n t block _ hrun hblock hcollapses.1.le hbegin
      obtain rfl : (⟨0⟩ : Dec) = fee := some.inj hfee
      obtain ⟨price', hprice', hnonneg⟩ := ht.params.price
      obtain rfl : price' = price := some.inj (hprice'.symm.trans hprice)
      rw [← ht.price, hprice']
      congr
      have hunits : price'.units = 0 := le_antisymm hle hnonneg
      exact congrArg Dec.mk hunits
  · intro hkept n t block s' hrun hblock _ hbegin
    have ht := hs.run hrun
    have hfloor := run_floor hs hfloor hkept hrun
    rcases hkept with hzero | hkept
    · rw [hzero] at ht
      exact beginBlock_floor_of_zero ht hfloor hbegin
    · exact beginBlock_floor ht.params hfloor (hkept n t block hrun hblock) hbegin

end State

/-! ## A chain with a minimum gas price of one -/

/-- The default parameters with a minimum gas price of one. -/
def onePrice : State where
  params := {
    noBaseFee := false
    baseFeeChangeDenominator := 8
    elasticityMultiplier := 2
    baseFee := some (.ofInt 1000000000)
    enableHeight := 0
    minGasPrice := some (.ofInt 1)
    minGasMultiplier := some ⟨5 * 10 ^ 17⟩ }
  blockGasWanted := 0

/-- A block with one transfer under a limit of gas. -/
def transferBlock (height : Int) (maxGas : Option Int) : Block where
  height := height
  maxGas := maxGas
  hasGasMeter := true
  gasWanted := 21000
  gasUsed := 21000

theorem onePrice_floor : onePrice.Floor :=
  ⟨.ofInt 1000000000, .ofInt 1, rfl, rfl, by decide⟩

/-- The limit of gas is set to one after the first block: the base fee is zero. -/
theorem baseFee_collapsed : onePrice.params.validate = .ok () ∧ onePrice.Floor ∧
    ((run (State.step .eighteen) onePrice [transferBlock 1 none]).bind fun t =>
      (t.beginBlock .eighteen (transferBlock 2 (some 1))).toOption).map
        (fun s => s.params.baseFee) = some (some ⟨0⟩) :=
  ⟨by decide +kernel, onePrice_floor, by decide +kernel⟩

/-- Without a limit of gas the base fee keeps to the minimum gas price. -/
theorem baseFee_floor_iff_unlimited :
    State.FloorKept .eighteen onePrice [transferBlock 1 none, transferBlock 2 none] := by
  refine (State.baseFee_floor_iff (by decide +kernel) rfl onePrice_floor _).mpr (.inr ?_)
  intro n t block hrun hblock
  match n with
  | 0 =>
    cases hblock
    cases hrun
    decide +kernel
  | 1 =>
    cases hblock
    have hfirst : ∀ t ∈ run (State.step .eighteen) onePrice [transferBlock 1 none],
        ¬ t.Collapses (transferBlock 2 none) := by decide +kernel
    exact hfirst t hrun
  | n + 2 => simp at hblock

end InfiniteEvm.FeeMarket
