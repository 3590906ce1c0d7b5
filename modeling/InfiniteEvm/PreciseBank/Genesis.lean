import InfiniteEvm.Library.Hex
import InfiniteEvm.PreciseBank.Exactness

/-!
# Genesis of the precisebank keeper

`contrib/x/precisebank/genesis.go` and the types it reads. An export lists the fractions by
the text of their accounts, and an import checks the list and compares it with the coins of
the reserve, unless it is the default one.
-/

namespace InfiniteEvm.PreciseBank

open Library Outcomes FMap List State Option Hex
open Std (ExtTreeMap)

variable {σ : Type}

/-! ## Addresses as text -/

/-- `VerifyAddressFormat`. -/
def verifyAddressFormat (a : AccAddress) : Bool := a ≠ [] && a.length ≤ 255

/-- `ToLower`. -/
def toLower (text : String) : String := .ofList (text.toList.map Char.toLower)

/-- `AccAddressFromBech32`, for the texts that addresses are written as. A text may be written
in upper or in lower case. -/
structure Bech32 (ak : AccountKeeper) where
  accAddressFromBech32 : String → Except String AccAddress
  verified : ∀ {text a}, accAddressFromBech32 text = .ok a → verifyAddressFormat a = true
  ofString : ∀ {a b}, accAddressFromBech32 (ak.addressString a) = .ok b ↔
    verifyAddressFormat a = true ∧ b = a
  lower : ∀ {text text' a a'}, accAddressFromBech32 text = .ok a →
    accAddressFromBech32 text' = .ok a' → (toLower text = toLower text' ↔ a = a')

/-! ## Types -/

/-- `FractionalBalance`, whose amount may be nil. -/
structure FractionalBalance where
  address : String
  amount : Option Int
  deriving DecidableEq

structure GenesisState where
  balances : List FractionalBalance
  remainder : Option Int
  deriving DecidableEq

/-- How `InitGenesis` panics, by itself or in a setter. -/
inductive GenesisPanic
  | message (text : String)
  | store (failure : Failure)
  deriving DecidableEq

/-- `SumAmount`. It is called after every amount was found not to be nil. -/
def sumAmount (balances : List FractionalBalance) : Int :=
  balances.foldl (fun sum fb => sum + fb.amount.getD 0) 0

/-- `TotalAmountWithRemainder`. -/
def GenesisState.totalAmountWithRemainder (gs : GenesisState) : Int :=
  sumAmount gs.balances + gs.remainder.getD 0

/-- `DefaultGenesisState`. -/
def defaultGenesisState : GenesisState where
  balances := []
  remainder := some 0

namespace Keeper

variable (k : Keeper σ) (codec : Bech32 k.ak)

/-! ## Validation -/

/-- `ValidateFractionalAmount` of an amount that may be nil, with its error. -/
def validateFractionalAmountErr : Option Int → Option String
  | none => some "nil amount"
  | some amt =>
    if amt ≤ 0 then some ("non-positive amount " ++ toString amt)
    else if k.conversionFactor ≤ amt then
      some ("amount " ++ toString amt ++ " exceeds max of " ++ toString (k.conversionFactor - 1))
    else none

/-- `FractionalBalance.Validate`. -/
def validateBalance (fb : FractionalBalance) : Option String :=
  match codec.accAddressFromBech32 fb.address with
  | .error err => some err
  | .ok _ => k.validateFractionalAmountErr fb.amount

/-- `FractionalBalances.Validate`, with the addresses seen so far. -/
def validateBalances : List String → List FractionalBalance → Option String
  | _, [] => none
  | seenAddresses, fb :: rest =>
    match k.validateBalance codec fb with
    | some err => some ("invalid fractional balance for " ++ fb.address ++ ": " ++ err)
    | none =>
      let lowerAddr := toLower fb.address
      if lowerAddr ∈ seenAddresses then some ("duplicate address " ++ lowerAddr)
      else validateBalances (lowerAddr :: seenAddresses) rest

/-- `GenesisState.Validate`. -/
def validateGenesis (gs : GenesisState) : Option String :=
  match k.validateBalances codec [] gs.balances with
  | some err => some ("invalid balances: " ++ err)
  | none =>
    match gs.remainder with
    | none => some "nil remainder amount"
    | some remainder =>
      let sum := sumAmount gs.balances
      if remainder < 0 then some ("negative remainder amount " ++ toString remainder)
      else if k.conversionFactor ≤ remainder then
        some ("remainder " ++ toString remainder ++ " exceeds max of " ++
          toString (k.conversionFactor - 1))
      else if (sum + remainder) % k.conversionFactor ≠ 0 then
        some ("sum of fractional balances " ++ toString sum ++ " + remainder " ++
          toString remainder ++ " is not a multiple of " ++ toString k.conversionFactor)
      else none

/-! ## Import and export -/

/-- The loop of `InitGenesis` over the balances. -/
def initBalances (s : State σ) : List FractionalBalance → Except GenesisPanic (State σ)
  | [] => .ok s
  | bal :: rest =>
    match codec.accAddressFromBech32 bal.address with
    | .error err => .error (.message err)
    | .ok addr =>
      match k.setFractionalBalance s addr (bal.amount.getD 0) with
      | .error failure => .error (.store failure)
      | .ok s => initBalances s rest

/-- `InitGenesis`, for a module balance within the bound of `getBalance`. For the default state a
mismatch is only printed. -/
def initGenesis (s : State σ) (gs : GenesisState) : Except GenesisPanic (State σ) :=
  match k.validateGenesis codec gs with
  | some err =>
    .error (.message ("failed to validate " ++ moduleName ++ " genesis state: " ++ err))
  | none =>
    match k.ak.getModuleAccount moduleName with
    | none => .error (.message (moduleName ++ " module account has not been set"))
    | some moduleAcc =>
      let totalAmt := gs.totalAmountWithRemainder
      let moduleBal := k.bk.getBalance s.bank moduleAcc.address k.integerCoinDenom
      if totalAmt ≠ moduleBal * k.conversionFactor ∧
          ¬ (gs.balances.length = 0 ∧ gs.remainder.getD 0 = 0) then
        .error (.message ("module account balance does not match sum of fractional balances " ++
          "and remainder, balance is " ++ Coin.text (k.integerCoinDenom, moduleBal) ++
          " but expected " ++ toString totalAmt ++ k.extendedCoinDenom ++ " (" ++
          toString (totalAmt.tdiv k.conversionFactor) ++ k.integerCoinDenom ++ ")"))
      else
        (k.initBalances codec s gs.balances).bind fun s =>
          (k.setRemainderAmount s (gs.remainder.getD 0)).mapError .store

/-- `ExportGenesis`. The store is walked in the order of its keys. -/
def exportGenesis (s : State σ) : GenesisState where
  balances := s.fractionalBalances.toList.map fun p =>
    { address := k.ak.addressString p.1, amount := some p.2 }
  remainder := some s.getRemainderAmount

end Keeper

/-- The store of the keeper before genesis. -/
def State.beforeGenesis (bank : σ) : State σ where
  bank := bank
  fractionalBalances := ∅
  remainderAmount := none

/-- The store with some fractions and some remainder. -/
def State.loaded (bank : σ) (m : FMap AccAddress Int) (r : Int) : State σ where
  bank := bank
  fractionalBalances := m
  remainderAmount := if r = 0 then none else some r

@[simp] theorem State.getRemainderAmount_loaded (bank : σ) (m : FMap AccAddress Int) (r : Int) :
    (loaded bank m r).getRemainderAmount = r := by
  unfold getRemainderAmount loaded
  split_ifs with hzero
  · exact hzero.symm
  · rfl

namespace Keeper

variable {k : Keeper σ} {codec : Bech32 k.ak}

/-! ## Lists that can be loaded -/

/-- A listed balance is the fraction of an account. -/
structure Lists (k : Keeper σ) (codec : Bech32 k.ak) (fb : FractionalBalance)
    (p : AccAddress × Int) : Prop where
  address : codec.accAddressFromBech32 fb.address = .ok p.1
  amount : fb.amount = some p.2
  bounds : 0 < p.2 ∧ p.2 < k.conversionFactor

/-- The fractions after those of a list were added, each for an account that had none. -/
inductive Loads (k : Keeper σ) (codec : Bech32 k.ak) :
    FMap AccAddress Int → List FractionalBalance → FMap AccAddress Int → Prop
  | nil {m : FMap AccAddress Int} : Loads k codec m [] m
  | cons {m m' : FMap AccAddress Int} {fb : FractionalBalance} {rest : List FractionalBalance}
      {p : AccAddress × Int} (lists : k.Lists codec fb p) (fresh : p.1 ∉ m)
      (loads : Loads k codec (setFraction m p.1 p.2) rest m') : Loads k codec m (fb :: rest) m'

/-- The texts that were seen are those of the accounts with a fraction. -/
def Marks (codec : Bech32 k.ak) (seen : List String) (m : FMap AccAddress Int) : Prop :=
  ∀ {text a}, codec.accAddressFromBech32 text = .ok a → (toLower text ∈ seen ↔ a ∈ m)

section Lists

variable {fb : FractionalBalance} {p : AccAddress × Int} {balances : List FractionalBalance}
  {m m' : FMap AccAddress Int} {seen : List String} {s t : State σ} {bank : σ}
  {gs : GenesisState} {r : Int}

theorem mem_setFraction {a b : AccAddress} {x : Int} (hx : x ≠ 0) :
    b ∈ setFraction m a x ↔ b = a ∨ b ∈ m := by
  rw [FMap.mem_iff_get, getElem?_setFraction, if_neg hx]
  by_cases hb : b = a
  · simp [hb]
  · rw [if_neg hb, or_iff_right hb, FMap.mem_iff_get]

theorem validateBalance_iff : k.validateBalance codec fb = none ↔ ∃ p, k.Lists codec fb p := by
  constructor
  · intro h
    unfold validateBalance at h
    split at h
    · cases h
    · next a ha =>
      cases hamt : fb.amount with
      | none => simp [hamt, validateFractionalAmountErr] at h
      | some amt =>
        simp only [hamt, validateFractionalAmountErr] at h
        split_ifs at h with hpos hmax
        exact ⟨(a, amt), ha, hamt, not_le.mp hpos, not_le.mp hmax⟩
  · rintro ⟨p, haddress, hamount, hpos, hmax⟩
    simp only [validateBalance, haddress, hamount, validateFractionalAmountErr]
    rw [if_neg (not_le.mpr hpos), if_neg (not_le.mpr hmax)]

theorem Marks.cons (h : Marks codec seen m) (hp : k.Lists codec fb p) :
    Marks codec (toLower fb.address :: seen) (setFraction m p.1 p.2) := by
  intro text a ha
  rw [mem_cons, mem_setFraction hp.bounds.1.ne', codec.lower ha hp.address, h ha]

/-- The check of the balances accepts what can be loaded. -/
theorem validateBalances_iff (h : Marks codec seen m) :
    k.validateBalances codec seen balances = none ↔ ∃ m', k.Loads codec m balances m' := by
  induction balances generalizing seen m with
  | nil => exact ⟨fun _ => ⟨m, .nil⟩, fun _ => rfl⟩
  | cons fb rest ih =>
    constructor
    · intro hvalid
      simp only [validateBalances] at hvalid
      split at hvalid
      · cases hvalid
      · next hfb =>
        split_ifs at hvalid with hseen
        obtain ⟨p, hp⟩ := validateBalance_iff.mp hfb
        obtain ⟨m', hload⟩ := (ih (h.cons hp)).mp hvalid
        exact ⟨m', .cons hp (fun hmem => hseen ((h hp.address).mpr hmem)) hload⟩
    · rintro ⟨m', hload⟩
      cases hload with
      | @cons _ _ _ _ p hp hfresh hload =>
        have hseen : toLower fb.address ∉ seen := fun hmem => hfresh ((h hp.address).mp hmem)
        simp only [validateBalances, validateBalance_iff.mpr ⟨p, hp⟩, if_neg hseen]
        exact (ih (h.cons hp)).mpr ⟨m', hload⟩

theorem Loads.lists (h : k.Loads codec m balances m') (hfb : fb ∈ balances) :
    ∃ p, k.Lists codec fb p := by
  induction h with
  | nil => simp at hfb
  | cons hp _ _ ih =>
    obtain rfl | hrest := mem_cons.mp hfb
    · exact ⟨_, hp⟩
    · exact ih hrest

theorem sumAmount_cons (fb : FractionalBalance) (balances : List FractionalBalance) :
    sumAmount (fb :: balances) = fb.amount.getD 0 + sumAmount balances := by
  have hfold : ∀ (x : Int), balances.foldl (fun sum fb => sum + fb.amount.getD 0) x =
      x + sumAmount balances := by
    unfold sumAmount
    induction balances with
    | nil => simp
    | cons fb rest ih =>
      intro x
      rw [foldl_cons, foldl_cons, ih, ih (0 + _)]
      omega
  rw [sumAmount, foldl_cons, hfold]
  omega

/-- The amounts of the list add up to what is added to the fractions. -/
theorem Loads.total (h : k.Loads codec m balances m') :
    total m' = total m + sumAmount balances := by
  induction h with
  | nil => simp [sumAmount]
  | @cons m m' fb rest p hp hfresh hload ih =>
    have hentry : entry m p.1 = 0 := by
      rw [entry, notMem_iff_get.mp hfresh, getD_none]
    rw [ih, total_setFraction, hentry, sumAmount_cons, hp.amount, getD_some]
    omega

theorem Loads.bounds (h : k.Loads codec m balances m')
    (hm : ∀ (a : AccAddress) (f : Int), m[a]? = some f → 0 < f ∧ f < k.conversionFactor) :
    ∀ (a : AccAddress) (f : Int), m'[a]? = some f → 0 < f ∧ f < k.conversionFactor := by
  induction h with
  | nil => exact hm
  | cons hp _ _ ih => exact ih (setFraction_bounds hm ⟨hp.bounds.1.le, hp.bounds.2⟩ _)

/-- The loop over the balances does not panic on what can be loaded. -/
theorem Loads.initBalances (h : k.Loads codec s.fractionalBalances balances m') :
    k.initBalances codec s balances = .ok { s with fractionalBalances := m' } := by
  obtain ⟨m, hm⟩ : ∃ m, m = s.fractionalBalances := ⟨_, rfl⟩
  rw [← hm] at h
  induction h generalizing s with
  | nil => rw [hm, Keeper.initBalances]
  | @cons m m' fb rest p hp hfresh hload ih =>
    have hne : p.1 ≠ [] := by
      intro hnil
      simpa [verifyAddressFormat, hnil] using codec.verified hp.address
    have hset := k.setFractionalBalance_ends s p.1 ⟨hp.bounds.1.le, hp.bounds.2⟩
    simp only [Keeper.initBalances, hp.address, hp.amount, getD_some]
    cases hresult : k.setFractionalBalance s p.1 p.2 with
    | error f => exact absurd (hset.of_error hresult).2 hne
    | ok t =>
      obtain rfl := hset.of_ok hresult
      exact ih (by rw [hm])

/-! ## What is accepted -/

theorem validateGenesis_iff :
    k.validateGenesis codec gs = none ↔
      ∃ m r, k.Loads codec ∅ gs.balances m ∧ gs.remainder = some r ∧
        (0 ≤ r ∧ r < k.conversionFactor) ∧ (total m + r) % k.conversionFactor = 0 := by
  have hmarks : Marks codec [] ∅ := by
    intro text a _
    simp
  have htotal : ∀ {m}, k.Loads codec ∅ gs.balances m → total m = sumAmount gs.balances := by
    intro m hload
    rw [hload.total, show total (∅ : FMap AccAddress Int) = 0 from rfl, zero_add]
  constructor
  · intro h
    simp only [validateGenesis] at h
    split at h
    · cases h
    · next hbalances =>
      obtain ⟨m, hload⟩ := (validateBalances_iff hmarks).mp hbalances
      split at h
      · cases h
      · next r hr =>
        split_ifs at h with hneg hmax hoff
        refine ⟨m, r, hload, hr, ⟨not_lt.mp hneg, not_le.mp hmax⟩, ?_⟩
        rw [htotal hload]
        exact not_not.mp hoff
  · rintro ⟨m, r, hload, hr, ⟨hneg, hmax⟩, hoff⟩
    rw [htotal hload] at hoff
    simp only [validateGenesis, (validateBalances_iff hmarks).mpr ⟨m, hload⟩, hr]
    rw [if_neg (not_lt.mpr hneg), if_neg (not_le.mpr hmax), if_neg (not_not.mpr hoff)]

/-- An accepted state is loaded if the reserve matches it, and the default state always. -/
theorem initGenesis_iff (hload : k.Loads codec ∅ gs.balances m) (hr : gs.remainder = some r)
    (hbounds : 0 ≤ r ∧ r < k.conversionFactor) (hoff : (total m + r) % k.conversionFactor = 0) :
    k.initGenesis codec (.beforeGenesis bank) gs = .ok t ↔
      (k.bk.getBalance bank k.reserve.address k.integerCoinDenom * k.conversionFactor =
          total m + r ∨ gs.balances = [] ∧ r = 0) ∧
        t = .loaded bank m r := by
  have hvalid : k.validateGenesis codec gs = none :=
    validateGenesis_iff.mpr ⟨m, r, hload, hr, hbounds, hoff⟩
  have htotal : gs.totalAmountWithRemainder = total m + r := by
    rw [GenesisState.totalAmountWithRemainder, hload.total, hr, getD_some,
      show total (∅ : FMap AccAddress Int) = 0 from rfl, zero_add]
  have hbalances : k.initBalances codec (.beforeGenesis bank) gs.balances =
      .ok (.loaded bank m 0) :=
    Loads.initBalances (s := .beforeGenesis bank) hload
  have hremainder : k.setRemainderAmount (.loaded bank m 0) r = .ok (.loaded bank m r) := by
    unfold setRemainderAmount validateFractionalAmount
    split_ifs with hzero hamount
    · rw [hzero]
      rfl
    · simp [loaded, hzero]
    · refine absurd ?_ hamount
      rw [Bool.and_eq_true, decide_eq_true_eq, decide_eq_true_eq]
      exact ⟨lt_of_le_of_ne hbounds.1 (Ne.symm hzero), hbounds.2⟩
  have hbank : (beforeGenesis bank).bank = bank := rfl
  simp only [initGenesis, hvalid, k.getReserve, htotal, hr, getD_some, hbank, hbalances,
    Except.bind, hremainder, Except.mapError, length_eq_zero_iff]
  split_ifs with hmismatch
  · have hno := not_or.mpr ⟨hmismatch.1.symm, hmismatch.2⟩
    simp [hno]
  · rw [not_and_or, not_not, not_not] at hmismatch
    rw [Except.ok.injEq, and_iff_right (hmismatch.imp Eq.symm id), eq_comm]

/-! ## What is exported -/

/-- What the setters of the store can write. -/
structure Writable (k : Keeper σ) (s : State σ) : Prop extends k.Bounded s where
  addresses : ∀ (a : AccAddress), a ∈ s.fractionalBalances → verifyAddressFormat a = true

/-- The fractions of distinct accounts are loaded from their list. -/
theorem loads_map (entries : List (AccAddress × Int))
    (hlists : ∀ q ∈ entries, k.Lists codec ⟨k.ak.addressString q.1, some q.2⟩ q)
    (hdistinct : entries.Pairwise fun q q' => q.1 ≠ q'.1) (hfresh : ∀ q ∈ entries, q.1 ∉ m) :
    k.Loads codec m (entries.map fun q => ⟨k.ak.addressString q.1, some q.2⟩)
      (entries.foldl (fun m q => setFraction m q.1 q.2) m) := by
  induction entries generalizing m with
  | nil => exact .nil
  | cons q rest ih =>
    obtain ⟨hq, hrest⟩ := pairwise_cons.mp hdistinct
    have hself := hlists q (mem_cons_self ..)
    refine .cons hself (hfresh q (mem_cons_self ..)) (ih ?_ hrest ?_)
    · exact fun q' hq' => hlists q' (mem_cons_of_mem _ hq')
    · intro q' hq' hmem
      obtain heq | hmem := (mem_setFraction hself.bounds.1.ne').mp hmem
      · exact hq q' hq' heq.symm
      · exact hfresh q' (mem_cons_of_mem _ hq') hmem

/-- An export lists all fractions. -/
theorem Writable.loads (h : k.Writable s) :
    k.Loads codec ∅ (k.exportGenesis s).balances s.fractionalBalances := by
  have hlists : ∀ q ∈ s.fractionalBalances.toList,
      k.Lists codec ⟨k.ak.addressString q.1, some q.2⟩ q := by
    intro q hq
    have hget := ExtTreeMap.mem_toList_iff_getElem?_eq_some.mp hq
    refine ⟨codec.ofString.mpr ⟨h.addresses q.1 ?_, rfl⟩, rfl, h.fractions q.1 q.2 hget⟩
    exact mem_iff_get.mpr ⟨q.2, hget⟩
  have hload := loads_map (m := ∅) s.fractionalBalances.toList hlists (toList_distinct _) (by simp)
  suffices hsame : s.fractionalBalances.toList.foldl (fun m q => setFraction m q.1 q.2) ∅ =
      s.fractionalBalances by rwa [hsame] at hload
  apply ExtTreeMap.ext_getElem?
  intro a
  rw [← ExtTreeMap.foldl_eq_foldl_toList (f := setFraction), read_foldl setFraction
    (fun m a => m[a]?) (fun x => if x = 0 then none else some x)]
  · cases hget : s.fractionalBalances[a]? with
    | none => simp
    | some f => simp [(h.fractions a f hget).1.ne']
  · intro m a x
    rw [getElem?_setFraction, if_pos rfl]
  · intro m a x b hab
    rw [getElem?_setFraction, if_neg hab.symm]

theorem Writable.of_validateGenesis (h : k.validateGenesis codec (k.exportGenesis s) = none) :
    k.Writable s := by
  obtain ⟨m, r, hload, hr, hbounds, -⟩ := validateGenesis_iff.mp h
  have hlists : ∀ (a : AccAddress) (f : Int), s.fractionalBalances[a]? = some f →
      ∃ p, k.Lists codec ⟨k.ak.addressString a, some f⟩ p := by
    intro a f hget
    refine hload.lists (mem_map.mpr ⟨(a, f), ?_, rfl⟩)
    exact ExtTreeMap.mem_toList_iff_getElem?_eq_some.mpr hget
  refine ⟨⟨?_, ?_⟩, ?_⟩
  · intro a f hget
    obtain ⟨p, hp⟩ := hlists a f hget
    rw [some.inj hp.amount]
    exact hp.bounds
  · rw [some.inj hr]
    exact hbounds
  · intro a ha
    obtain ⟨f, hget⟩ := mem_iff_get.mp ha
    obtain ⟨p, hp⟩ := hlists a f hget
    exact (codec.ofString.mp hp.address).1

end Lists

/-- A backed store is exported and imported as it was exactly if its setters can write it, and
an accepted state is backed after its import exactly if it is not the default one beside coins
of the reserve. -/
theorem genesis_backed_iff (k : Keeper σ) (codec : Bech32 k.ak) :
    (∀ s : State σ, k.integerBalance s k.reserve.address * k.conversionFactor =
        s.getTotalSumFractionalBalances + s.getRemainderAmount →
      ((k.validateGenesis codec (k.exportGenesis s) = none ∧
          ∃ t, k.initGenesis codec (.beforeGenesis s.bank) (k.exportGenesis s) = .ok t ∧
            t.fractionalBalances = s.fractionalBalances ∧
            t.getRemainderAmount = s.getRemainderAmount) ↔ k.Writable s)) ∧
    ∀ (gs : GenesisState) (bank : σ), k.validateGenesis codec gs = none →
      ((∀ t, k.initGenesis codec (.beforeGenesis bank) gs = .ok t → k.Backed t) ↔
        (gs = defaultGenesisState →
          k.bk.getBalance bank k.reserve.address k.integerCoinDenom = 0)) := by
  constructor
  · intro s hbacking
    constructor
    · rintro ⟨hvalid, -⟩
      exact .of_validateGenesis hvalid
    · intro h
      have hload : k.Loads codec ∅ (k.exportGenesis s).balances s.fractionalBalances := h.loads
      have hoff : (total s.fractionalBalances + s.getRemainderAmount) % k.conversionFactor = 0 := by
        rw [← getTotalSumFractionalBalances, ← hbacking, Int.mul_emod_left]
      refine ⟨validateGenesis_iff.mpr ⟨_, _, hload, rfl, h.remainder, hoff⟩, ?_⟩
      refine ⟨_, (initGenesis_iff hload rfl h.remainder hoff).mpr ⟨.inl hbacking, rfl⟩, rfl, ?_⟩
      exact getRemainderAmount_loaded ..
  · intro gs bank hvalid
    obtain ⟨m, r, hload, hr, hbounds, hoff⟩ := validateGenesis_iff.mp hvalid
    constructor
    · rintro hall rfl
      obtain rfl : 0 = r := some.inj hr
      cases hload with
      | nil =>
        have hinit : k.initGenesis codec (.beforeGenesis bank) defaultGenesisState =
            .ok (.loaded bank ∅ 0) :=
          (initGenesis_iff .nil hr hbounds hoff).mpr ⟨.inr ⟨rfl, rfl⟩, rfl⟩
        have hzero := (hall _ hinit).backing
        exact (mul_eq_zero.mp hzero).resolve_right k.conversionFactor_pos.ne'
    · intro hdefault t ht
      obtain ⟨hmatch, rfl⟩ := (initGenesis_iff hload hr hbounds hoff).mp ht
      have hremainder := getRemainderAmount_loaded bank m r
      refine ⟨⟨hload.bounds (by simp), hremainder.symm ▸ hbounds⟩, ?_⟩
      rw [hremainder]
      obtain hmatch | ⟨hnil, rfl⟩ := hmatch
      · exact hmatch
      · have hreserve : k.integerBalance (.loaded bank m 0) k.reserve.address = 0 := by
          apply hdefault
          rw [defaultGenesisState, GenesisState.mk.injEq]
          exact ⟨hnil, hr⟩
        rw [hnil] at hload
        cases hload with
        | nil =>
          rw [hreserve, zero_mul]
          rfl

/-! ## A chain whose addresses are written in lower-case digits -/

/-- The digits of an address. -/
def digits (a : AccAddress) : String := .ofList (encode (fun _ => false) a)

theorem toLower_digits (a : AccAddress) : toLower (digits a) = digits a := by
  have hdigit : ∀ n : Fin 16, (digit false n).toLower = digit false n := by decide
  unfold toLower digits
  rw [String.toList_ofList]
  congr 1
  induction a with
  | nil => rfl
  | cons byte rest ih =>
    have hbyte : byte.toNat < 256 := byte.toNat_lt
    have hhigh := hdigit ⟨byte.toNat / 16, by omega⟩
    have hlow := hdigit ⟨byte.toNat % 16, by omega⟩
    simp only [encode, map_cons] at ih ⊢
    rw [hhigh, hlow, ih]

/-- The keeper of the small chain with these addresses. -/
def digitsKeeper : Keeper Book :=
  { sampleKeeper with ak := { sampleAccounts with addressString := digits } }

def digitsCodec : Bech32 digitsKeeper.ak where
  accAddressFromBech32 text :=
    let a := decode text.toList
    if verifyAddressFormat a ∧ digits a = text then .ok a
    else .error "decoding bech32 failed"
  verified h := by
    simp only at h
    split_ifs at h with hverify
    cases h
    exact hverify.1
  ofString {a b} := by
    have hdecode : decode (digits a).toList = a := by
      rw [digits, String.toList_ofList, decode_encode]
    simp only [digitsKeeper, hdecode]
    split_ifs with hverify
    · simp [hverify.1, eq_comm]
    · simp_all
  lower {text text' a a'} h h' := by
    simp only at h h'
    split_ifs at h with hverify
    split_ifs at h' with hverify'
    cases h
    cases h'
    rw [← hverify.2, ← hverify'.2, toLower_digits, toLower_digits, hverify.2, hverify'.2]
    constructor
    · rintro rfl
      rfl
    · intro heq
      rw [← hverify.2, ← hverify'.2, heq]

/-- The state of the small chain is exported and imported as it was. -/
theorem genesis_backed_iff_digits :
    (digitsKeeper.validateGenesis digitsCodec (digitsKeeper.exportGenesis sampleState) = none ∧
      ∃ t, digitsKeeper.initGenesis digitsCodec (.beforeGenesis sampleState.bank)
          (digitsKeeper.exportGenesis sampleState) = .ok t ∧
        t.fractionalBalances = sampleState.fractionalBalances ∧
        t.getRemainderAmount = sampleState.getRemainderAmount) ∧
    ∀ t, digitsKeeper.initGenesis digitsCodec (.beforeGenesis sampleState.bank)
        (digitsKeeper.exportGenesis sampleState) = .ok t → digitsKeeper.Backed t := by
  obtain ⟨hround, himport⟩ := genesis_backed_iff digitsKeeper digitsCodec
  have hbacked : digitsKeeper.integerBalance sampleState digitsKeeper.reserve.address *
      digitsKeeper.conversionFactor =
      sampleState.getTotalSumFractionalBalances + sampleState.getRemainderAmount :=
    sampleState_backed.backing
  have hwritable : digitsKeeper.Writable sampleState := by
    refine ⟨⟨sampleState_backed.fractions, sampleState_backed.remainder⟩, ?_⟩
    intro a ha
    simp only [sampleState, mem_setFraction (show (6 : Int) ≠ 0 by decide),
      mem_setFraction (show (4 : Int) ≠ 0 by decide)] at ha
    obtain rfl | rfl | hempty := ha
    · rfl
    · rfl
    · simp at hempty
  have hexport := (hround sampleState hbacked).mpr hwritable
  refine ⟨hexport, (himport _ _ hexport.1).mpr ?_⟩
  intro hdefault
  exact absurd (congrArg (fun gs => gs.balances.length) hdefault) (by decide +kernel)

/-- The default state is imported beside the coin that the reserve of the small chain has. -/
theorem default_genesis_unbacked :
    digitsKeeper.validateGenesis digitsCodec defaultGenesisState = none ∧
    ∃ t, digitsKeeper.initGenesis digitsCodec (.beforeGenesis sampleState.bank)
        defaultGenesisState = .ok t ∧
      digitsKeeper.integerBalance t digitsKeeper.reserve.address = 1 ∧
      t.getTotalSumFractionalBalances + t.getRemainderAmount = 0 ∧ ¬ digitsKeeper.Backed t := by
  refine ⟨by decide +kernel, .beforeGenesis sampleState.bank, rfl, rfl, rfl, ?_⟩
  intro h
  exact absurd h.backing (by decide +kernel)

end Keeper

end InfiniteEvm.PreciseBank
