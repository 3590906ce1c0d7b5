import InfiniteEvm.Erc20.Allowance
import InfiniteEvm.Library.LastWrites
import InfiniteEvm.Library.Outcomes
import InfiniteEvm.Library.Runs

/-!
# The registry over whole runs

A pair is stored under its id, and two maps lead to the id from its denom and from its
contract. The three stay linked from genesis on, whatever is registered, toggled or deleted.
A lookup by text guesses whether it is given a denom or an address, and the guess is wrong for
a denom that reads as an address.
-/

namespace InfiniteEvm.Erc20

open Library Outcomes Function Store List Hex TokenPair LastWrites

/-! ## Genesis -/

structure GenesisState where
  params : Params
  tokenPairs : List TokenPair
  allowances : List Allowance
  nativePrecompiles : List String
  dynamicPrecompiles : List String

/-- `Allowance.Validate`. -/
def Allowance.validate (a : Allowance) : Option String :=
  if !isHexAddress a.erc20Address then
    some ("invalid erc20 hex address " ++ a.erc20Address ++ ": invalid address")
  else if !isHexAddress a.owner then
    some ("invalid owner hex address " ++ a.owner ++ ": invalid address")
  else if !isHexAddress a.spender then
    some ("invalid sender hex address " ++ a.spender ++ ": invalid address")
  else if a.value ≤ 0 then some "invalid allowance value: invalid allowance"
  else none

namespace GenesisState

/-- The loop of `Validate` over the pairs, with the contracts and denoms seen so far. -/
def validatePairs : List String → List String → List TokenPair → Option String
  | _, _, [] => none
  | seenErc20, seenDenom, pair :: rest =>
    if pair.erc20Address ∈ seenErc20 then
      some ("token ERC20 contract duplicated on genesis '" ++ pair.erc20Address ++ "'")
    else if pair.denom ∈ seenDenom then
      some ("coin denomination duplicated on genesis: '" ++ pair.denom ++ "'")
    else
      match pair.validate with
      | some err => some err
      | none => validatePairs (pair.erc20Address :: seenErc20) (pair.denom :: seenDenom) rest

/-- `hasActiveTokenPair`. -/
def hasActiveTokenPair (pairs : List TokenPair) (address : String) : Bool :=
  pairs.any fun pair => pair.erc20Address = address && pair.enabled

/-- `validatePrecompiles`. -/
def validatePrecompiles (pairs : List TokenPair) : List String → Option String
  | [] => none
  | precompile :: rest =>
    if !hasActiveTokenPair pairs precompile then
      some ("precompile address '" ++ precompile ++ "' not found in token pairs")
    else validatePrecompiles pairs rest

/-- The loop of `Validate` over the allowances. -/
def validateAllowances (seenErc20 : List String) : List String → List Allowance → Option String
  | _, [] => none
  | seen, a :: rest =>
    let key := a.erc20Address ++ a.owner ++ a.spender
    if key ∈ seen then some ("duplicated allowance on genesis: " ++ key)
    else if a.erc20Address ∉ seenErc20 then
      some ("allowance has no corresponding token pair on genesis: " ++ a.erc20Address)
    else
      match a.validate with
      | some err => some ("invalid allowance on genesis: " ++ err)
      | none => validateAllowances seenErc20 (key :: seen) rest

/-- `GenesisState.Validate`. -/
def validate (gs : GenesisState) : Option String :=
  match validatePairs [] [] gs.tokenPairs with
  | some err => some err
  | none =>
    match validatePrecompiles gs.tokenPairs gs.dynamicPrecompiles with
    | some err => some ("invalid dynamic precompiles on genesis: " ++ err)
    | none =>
      match validatePrecompiles gs.tokenPairs gs.nativePrecompiles with
      | some err => some ("invalid native precompiles on genesis: " ++ err)
      | none =>
        validateAllowances (gs.tokenPairs.map erc20Address) [] gs.allowances

end GenesisState

/-- The stores before genesis. -/
def emptyStore (params : Params) : Store where
  params := params
  pairs _ := none
  erc20Map _ := none
  denomMap _ := none
  allowances _ := none
  nativePrecompiles _ := false
  dynamicPrecompiles _ := false

namespace Keeper

variable (k : Keeper)

/-- The loop of `InitGenesis` over the pairs. The second part tells if it was left early. -/
def initPairs (s : Store) : List TokenPair → Store × Bool
  | [] => (s, false)
  | pair :: rest =>
    match k.setToken s pair with
    | .error _ => (s, true)
    | .ok s => initPairs s rest

/-- A loop that panics at the first error. -/
def initAll {α : Type} (f : Store → α → Except String Store) (message : String) (s : Store) :
    List α → Except String Store
  | [] => .ok s
  | a :: rest =>
    match f s a with
    | .error err => .error (message ++ err)
    | .ok s => initAll f message s rest

/-- `InitGenesis`, where a panic is an error. A pair that is refused ends it at once. -/
def initGenesis (registerCodeHash : PrecompileType → Address → Option String)
    (gs : GenesisState) : Except String Store :=
  match k.initPairs (emptyStore gs.params) gs.tokenPairs with
  | (s, true) => .ok s
  | (s, false) =>
    (initAll (fun s text => k.enableNativePrecompile
        (registerCodeHash .native (hexToAddress text)) s (hexToAddress text))
      "error registering native precompiles " s gs.nativePrecompiles).bind fun s =>
    (initAll (fun s text => k.enableDynamicPrecompile
        (registerCodeHash .dynamic (hexToAddress text)) s (hexToAddress text))
      "error registering dynamic precompiles " s gs.dynamicPrecompiles).bind fun s =>
    initAll (fun s a => k.unsafeSetAllowance s (hexToAddress a.erc20Address)
      (hexToAddress a.owner) (hexToAddress a.spender) a.value) "error setting allowance " s
      gs.allowances

end Keeper

/-! ## Steps -/

/-- What can happen to the registry, with what the rest of the chain answers. -/
inductive Change
  | registerERC20 (contract : Address) (queryERC20 : Except String ERC20Data)
  | registerERC20Extension (denom : String) (hasCodeHash : Address → Bool)
      (registerCodeHash : Option String)
  | toggleConversion (token : String)
  /-- `DeleteTokenPair` of a pair that was read from the store. -/
  | deleteTokenPair (id : Bytes)

namespace Keeper

variable (k : Keeper)

def change (s : State) : Change → State
  | .registerERC20 contract queryERC20 => (k.registerERC20 queryERC20 s contract).1
  | .registerERC20Extension denom hasCodeHash registerCodeHash =>
    { s with store := (k.registerERC20Extension hasCodeHash registerCodeHash s.store denom).1 }
  | .toggleConversion token =>
    match k.toggleConversion s.store token with
    | .error _ => s
    | .ok (_, store) => { s with store }
  | .deleteTokenPair id =>
    match s.store.getTokenPair (some id) with
    | none => s
    | some pair => { s with store := k.deleteTokenPair s.store pair }

end Keeper

/-! ## Texts -/

theorem value_of_isHexAddress {text : String} (h : isHexAddress text = true) {c : Char}
    (hc : c ∈ text.toList) : (value c).isSome ∨ c = 'x' ∨ c = 'X' := by
  simp only [isHexAddress, Bool.and_eq_true, all_eq_true] at h
  obtain ⟨-, hall⟩ := h
  have hzero : (value '0').isSome := by decide
  revert hc hall
  generalize text.toList = cs
  intro hc hall
  rw [stripHexPrefix.eq_def] at hall
  split at hall
  · simp only [mem_cons] at hc
    obtain rfl | rfl | hrest := hc
    · exact .inl hzero
    · exact .inr (.inl rfl)
    · exact .inl (hall c hrest)
  · simp only [mem_cons] at hc
    obtain rfl | rfl | hrest := hc
    · exact .inl hzero
    · exact .inr (.inr rfl)
    · exact .inl (hall c hrest)
  · exact .inl (hall c hc)

theorem bar_notMem_of_isHexAddress {text : String} (h : isHexAddress text = true) :
    '|' ∉ text.toList := by
  intro hbar
  exact absurd (value_of_isHexAddress h hbar) (by decide)

variable {k : Keeper} {registerCodeHash : Option String} {a : Address} {pairs : List TokenPair}

theorem hexToAddress_addressText (upper : Address → Nat → Bool) (a : Address) :
    hexToAddress (addressText upper a) = a := by
  have hdecode : fromHex (addressText upper a) = addressBytes a := by
    simp [fromHex, addressText, stripHexPrefix, decode_encode, addressBytes]
  have hlt : a.toNat < 256 ^ 20 := a.isLt
  rw [hexToAddress, hdecode, bytesToAddress, addressBytes, BigEndian.ofBytes_toBytes,
    Nat.mod_eq_of_lt hlt, BitVec.ofNat_toNat, BitVec.setWidth_eq]

theorem hexToAddress_addressString (a : Address) : hexToAddress (k.addressString a) = a :=
  hexToAddress_addressText k.upper a

theorem isHexAddress_addressText (upper : Address → Nat → Bool) (a : Address) :
    isHexAddress (addressText upper a) = true := by
  have hdigits : ∀ c ∈ encode (upper a) (addressBytes a), (value c).isSome := by
    intro c hc
    exact value_of_mem_encode _ _ hc
  simpa [isHexAddress, addressText, stripHexPrefix, addressBytes] using hdigits

theorem isHexAddress_addressString (a : Address) : isHexAddress (k.addressString a) = true :=
  isHexAddress_addressText k.upper a

theorem getERC20Contract_newTokenPair (a : Address) (denom : String) (owner : Owner) :
    (k.newTokenPair a denom owner).getERC20Contract = a := hexToAddress_addressString a

theorem isHexAddress_newTokenPair (a : Address) (denom : String) (owner : Owner) :
    isHexAddress (k.newTokenPair a denom owner).erc20Address = true := isHexAddress_addressString a

/-- A denom that a registration makes does not read as an address. -/
theorem isHexAddress_createDenom (text : String) : isHexAddress (createDenom text) = false := by
  rw [Bool.eq_false_iff]
  intro h
  have hr : 'r' ∈ (createDenom text).toList := by simp [createDenom, erc20NativeCoinDenomPrefix]
  exact absurd (value_of_isHexAddress h hr) (by decide)

theorem isHexAddress_of_getIBCDenomAddress {denom : String}
    (h : k.getIBCDenomAddress denom = .ok a) : isHexAddress denom = false := by
  rw [Bool.eq_false_iff]
  intro hhex
  simp only [Keeper.getIBCDenomAddress] at h
  split at h
  · next hash hdenom =>
    have hi : 'i' ∈ denom.toList := by simp [hdenom]
    exact absurd (value_of_isHexAddress hhex hi) (by decide)
  · cases h

/-! ## Linked stores -/

namespace Keeper

/-- No two texts have the same hash. -/
def CollisionFree (k : Keeper) : Prop := Injective k.sum

/-- The pairs and the two maps belong together. -/
structure Linked (k : Keeper) (s : Store) : Prop where
  keyed : ∀ {id pair}, s.pairs id = some pair → id = k.getID pair
  isHex : ∀ {id pair}, s.pairs id = some pair → isHexAddress pair.erc20Address = true
  denom : ∀ {id pair}, s.pairs id = some pair → s.getDenomMap pair.denom = some id
  erc20 : ∀ {id pair}, s.pairs id = some pair → s.getERC20Map pair.getERC20Contract = some id
  ofDenom : ∀ {denom id}, s.getDenomMap denom = some id →
    ∃ pair, s.pairs id = some pair ∧ pair.denom = denom
  ofErc20 : ∀ {key id}, s.erc20Map key = some id →
    ∃ pair, s.pairs id = some pair ∧ addressBytes pair.getERC20Contract = key

theorem linked_emptyStore (params : Params) : k.Linked (emptyStore params) where
  keyed := nofun
  isHex := nofun
  denom := nofun
  erc20 := nofun
  ofDenom := nofun
  ofErc20 := nofun

variable {s t : Store} {pair : TokenPair} (queryERC20 : Except String ERC20Data)

/-- The allowances and the precompiles do not matter. -/
theorem Linked.congr (h : k.Linked s) (hpairs : t.pairs = s.pairs)
    (herc20 : t.erc20Map = s.erc20Map) (hdenom : t.denomMap = s.denomMap) : k.Linked t := by
  obtain ⟨_, pairs, erc20Map, denomMap, _, _, _⟩ := t
  obtain rfl : pairs = s.pairs := hpairs
  obtain rfl : erc20Map = s.erc20Map := herc20
  obtain rfl : denomMap = s.denomMap := hdenom
  exact ⟨h.keyed, h.isHex, h.denom, h.erc20, h.ofDenom, h.ofErc20⟩

/-- An id tells the text of the contract and the denom apart, as no address has a bar. -/
theorem getID_inj (hsum : k.CollisionFree) {pair' : TokenPair}
    (hhex : isHexAddress pair.erc20Address = true) (hhex' : isHexAddress pair'.erc20Address = true)
    (h : k.getID pair = k.getID pair') :
    pair.erc20Address = pair'.erc20Address ∧ pair.denom = pair'.denom := by
  have htext := congrArg String.toList (hsum h)
  have hsplit : ∀ {xs ys zs ws : List Char}, '|' ∉ xs → '|' ∉ zs →
      xs ++ '|' :: ys = zs ++ '|' :: ws → xs = zs ∧ ys = ws := by
    intro xs ys zs ws hxs hzs heq
    obtain ⟨rest, rfl, hrest⟩ | ⟨rest, rfl, hrest⟩ := append_eq_append_iff.mp heq
    · cases rest with
      | nil => simpa using hrest
      | cons c rest => simp_all
    · cases rest with
      | nil => simpa [eq_comm] using hrest
      | cons c rest => simp_all
  obtain ⟨haddress, hdenom⟩ := hsplit (bar_notMem_of_isHexAddress hhex)
    (bar_notMem_of_isHexAddress hhex') (by simpa using htext)
  exact ⟨String.toList_injective haddress, String.toList_injective hdenom⟩

section Linked

variable {s t : Store} {pair pair' : TokenPair} {id id' : Bytes}

theorem Linked.eq_of_denom (h : k.Linked s) (hpair : s.pairs id = some pair)
    (hpair' : s.pairs id' = some pair') (hdenom : pair.denom = pair'.denom) : id = id' := by
  have hid := h.denom hpair
  rw [hdenom, h.denom hpair'] at hid
  exact (Option.some.inj hid).symm

theorem Linked.eq_of_contract (h : k.Linked s) (hpair : s.pairs id = some pair)
    (hpair' : s.pairs id' = some pair')
    (hcontract : pair.getERC20Contract = pair'.getERC20Contract) : id = id' := by
  have hid := h.erc20 hpair
  rw [hcontract, h.erc20 hpair'] at hid
  exact (Option.some.inj hid).symm

theorem setToken_ok (h : k.setToken s pair = .ok t) :
    s.getDenomMap pair.denom = none ∧ s.getERC20Map pair.getERC20Contract = none ∧
      t = ((k.setTokenPair s pair).setDenomMap pair.denom (k.getID pair)).setERC20Map
        pair.getERC20Contract (k.getID pair) := by
  simp only [setToken] at h
  split_ifs at h with hdenom herc20
  simp only [isDenomRegistered, isERC20Registered, Bool.not_eq_true,
    Option.isSome_eq_false_iff, Option.isNone_iff_eq_none] at hdenom herc20
  exact ⟨hdenom, herc20, (Except.ok.inj h).symm⟩

/-- The id of a new pair is not in use. -/
theorem Linked.fresh (hs : k.Linked s) (hhex : isHexAddress pair.erc20Address = true)
    (hsum : k.CollisionFree) (hdenom : s.getDenomMap pair.denom = none) :
    s.pairs (k.getID pair) = none := by
  cases hold : s.pairs (k.getID pair) with
  | none => rfl
  | some old =>
    have hsame := (getID_inj hsum hhex (hs.isHex hold) (hs.keyed hold)).2
    rw [hsame, hs.denom hold] at hdenom
    cases hdenom

/-- A new pair is linked. -/
theorem setToken_linked (hs : k.Linked s) (hhex : isHexAddress pair.erc20Address = true)
    (hsum : k.CollisionFree) (h : k.setToken s pair = .ok t) : k.Linked t := by
  obtain ⟨hdenom, herc20, rfl⟩ := setToken_ok h
  have hfresh := hs.fresh hhex hsum hdenom
  generalize hid : k.getID pair = new at hfresh ⊢
  -- an old pair is under another id, and has another denom and another contract
  have hold : ∀ {id old}, s.pairs id = some old →
      id ≠ new ∧ old.denom ≠ pair.denom ∧ old.getERC20Contract ≠ pair.getERC20Contract := by
    intro id old hstored
    refine ⟨?_, ?_, ?_⟩
    · rintro rfl
      rw [hfresh] at hstored
      cases hstored
    · intro heq
      rw [← heq, hs.denom hstored] at hdenom
      cases hdenom
    · intro heq
      rw [← heq, hs.erc20 hstored] at herc20
      cases herc20
  have hcases : ∀ {id p}, (if id = new then some pair else s.pairs id) = some p →
      (id = new ∧ p = pair) ∨ (id ≠ new ∧ s.pairs id = some p) := by
    intro id p h
    split_ifs at h with heq
    · exact .inl ⟨heq, (Option.some.inj h).symm⟩
    · exact .inr ⟨heq, h⟩
  have hbytes : ∀ {a : Address}, a ≠ pair.getERC20Contract →
      addressBytes a ≠ addressBytes pair.getERC20Contract := fun hne heq =>
    hne (addressBytes_inj heq)
  constructor
  all_goals
    simp only [setTokenPair, setDenomMap, setERC20Map, getDenomMap, getERC20Map, update_apply, hid]
  · intro id p h
    obtain ⟨rfl, rfl⟩ | ⟨-, hstored⟩ := hcases h
    · exact hid.symm
    · exact hs.keyed hstored
  · intro id p h
    obtain ⟨rfl, rfl⟩ | ⟨-, hstored⟩ := hcases h
    · exact hhex
    · exact hs.isHex hstored
  · intro id p h
    obtain ⟨rfl, rfl⟩ | ⟨-, hstored⟩ := hcases h
    · exact if_pos rfl
    · rw [if_neg (hold hstored).2.1]
      exact hs.denom hstored
  · intro id p h
    obtain ⟨rfl, rfl⟩ | ⟨-, hstored⟩ := hcases h
    · exact if_pos rfl
    · rw [if_neg (hbytes (hold hstored).2.2)]
      exact hs.erc20 hstored
  · intro denom id h
    split_ifs at h with heq
    · cases h
      exact ⟨pair, if_pos rfl, heq.symm⟩
    · obtain ⟨p, hstored, hp⟩ := hs.ofDenom h
      exact ⟨p, by rw [if_neg (hold hstored).1, hstored], hp⟩
  · intro key id h
    split_ifs at h with heq
    · cases h
      exact ⟨pair, if_pos rfl, heq.symm⟩
    · obtain ⟨p, hstored, hp⟩ := hs.ofErc20 h
      exact ⟨p, by rw [if_neg (hold hstored).1, hstored], hp⟩

/-- A pair that is stored again under its id, with the same contract and denom. -/
theorem setTokenPair_linked (hs : k.Linked s) (hold : s.pairs id = some pair')
    (haddress : pair.erc20Address = pair'.erc20Address) (hdenom : pair.denom = pair'.denom) :
    k.Linked (k.setTokenPair s pair) := by
  have hid : k.getID pair = id := by
    rw [hs.keyed hold, getID, getID, haddress, hdenom]
  -- each stored pair agrees with an old one on its contract and its denom
  have hcases : ∀ {x p}, (k.setTokenPair s pair).pairs x = some p →
      ∃ old, s.pairs x = some old ∧ p.erc20Address = old.erc20Address ∧ p.denom = old.denom := by
    intro x p h
    simp only [setTokenPair, hid, update_apply] at h
    split_ifs at h with heq
    · cases h
      exact ⟨pair', heq ▸ hold, haddress, hdenom⟩
    · exact ⟨p, h, rfl, rfl⟩
  have hnew : ∀ {x old}, s.pairs x = some old → ∃ p, (k.setTokenPair s pair).pairs x = some p ∧
      p.erc20Address = old.erc20Address ∧ p.denom = old.denom := by
    intro x old hstored
    simp only [setTokenPair, hid, update_apply]
    by_cases heq : x = id
    · rw [heq, hold] at hstored
      cases hstored
      exact ⟨pair, if_pos heq, haddress, hdenom⟩
    · exact ⟨old, by rw [if_neg heq, hstored], rfl, rfl⟩
  constructor
  · intro x p h
    obtain ⟨old, hstored, haddress, hdenom⟩ := hcases h
    rw [hs.keyed hstored, getID, getID, haddress, hdenom]
  · intro x p h
    obtain ⟨old, hstored, haddress, -⟩ := hcases h
    rw [haddress]
    exact hs.isHex hstored
  · intro x p h
    obtain ⟨old, hstored, -, hdenom⟩ := hcases h
    rw [hdenom]
    exact hs.denom hstored
  · intro x p h
    obtain ⟨old, hstored, haddress, -⟩ := hcases h
    rw [getERC20Contract, haddress]
    exact hs.erc20 hstored
  · intro denom x h
    obtain ⟨old, hstored, hdenom⟩ := hs.ofDenom h
    obtain ⟨p, hp, -, hpdenom⟩ := hnew hstored
    exact ⟨p, hp, hpdenom.trans hdenom⟩
  · intro key x h
    obtain ⟨old, hstored, hkey⟩ := hs.ofErc20 h
    obtain ⟨p, hp, hpaddress, -⟩ := hnew hstored
    exact ⟨p, hp, by rw [getERC20Contract, hpaddress]; exact hkey⟩

/-- A deleted pair takes its entries with it. -/
theorem deleteTokenPair_linked (hs : k.Linked s) (hold : s.pairs id = some pair) :
    k.Linked (k.deleteTokenPair s pair) := by
  have hid : k.getID pair = id := (hs.keyed hold).symm
  have hcases : ∀ {x p}, (if x = id then none else s.pairs x) = some p →
      x ≠ id ∧ s.pairs x = some p := by
    intro x p h
    split_ifs at h with heq
    exact ⟨heq, h⟩
  constructor
  all_goals
    simp only [deleteTokenPair, removeTokenPair, deleteERC20Map, deleteDenomMap,
      deleteAllowances, getDenomMap, getERC20Map, update_apply, hid]
  · intro x p h
    exact hs.keyed (hcases h).2
  · intro x p h
    exact hs.isHex (hcases h).2
  · intro x p h
    obtain ⟨hne, hstored⟩ := hcases h
    rw [if_neg fun heq => hne (hs.eq_of_denom hstored hold heq)]
    exact hs.denom hstored
  · intro x p h
    obtain ⟨hne, hstored⟩ := hcases h
    rw [if_neg fun heq => hne (hs.eq_of_contract hstored hold (addressBytes_inj heq))]
    exact hs.erc20 hstored
  · intro denom x h
    split_ifs at h with heq
    obtain ⟨p, hstored, hp⟩ := hs.ofDenom h
    refine ⟨p, ?_, hp⟩
    rw [if_neg ?_, hstored]
    rintro rfl
    rw [hold] at hstored
    cases hstored
    exact heq hp.symm
  · intro key x h
    split_ifs at h with heq
    obtain ⟨p, hstored, hp⟩ := hs.ofErc20 h
    refine ⟨p, ?_, hp⟩
    rw [if_neg ?_, hstored]
    rintro rfl
    rw [hold] at hstored
    cases hstored
    exact heq hp.symm

end Linked

/-! ## Whole runs -/

/-- The registry is the same in both stores. -/
structure SameRegistry (s t : Store) : Prop where
  pairs : t.pairs = s.pairs
  erc20Map : t.erc20Map = s.erc20Map
  denomMap : t.denomMap = s.denomMap

theorem SameRegistry.refl (s : Store) : SameRegistry s s := ⟨rfl, rfl, rfl⟩

theorem SameRegistry.linked (h : SameRegistry s t) (hs : k.Linked s) : k.Linked t :=
  hs.congr h.pairs h.erc20Map h.denomMap

theorem enableNativePrecompile_ok (h : k.enableNativePrecompile registerCodeHash s a = .ok t) :
    SameRegistry s t ∧ t.allowances = s.allowances := by
  simp only [enableNativePrecompile] at h
  split at h
  · cases h
  · cases h
    exact ⟨⟨rfl, rfl, rfl⟩, rfl⟩

theorem enableDynamicPrecompile_ok (h : k.enableDynamicPrecompile registerCodeHash s a = .ok t) :
    SameRegistry s t ∧ t.allowances = s.allowances := by
  simp only [enableDynamicPrecompile] at h
  split at h
  · cases h
  · cases h
    exact ⟨⟨rfl, rfl, rfl⟩, rfl⟩

theorem setToken_allowances (h : k.setToken s pair = .ok t) : t.allowances = s.allowances := by
  obtain ⟨-, -, rfl⟩ := setToken_ok h
  rfl

/-- What a change does to the registry. -/
inductive Changed (k : Keeper) (s : Store) : Store → Prop
  | same {t : Store} (h : SameRegistry s t) : Changed k s t
  | added {pair : TokenPair} {t u : Store} (hhex : isHexAddress pair.erc20Address = true)
      (hdenom : isHexAddress pair.denom = false) (hset : k.setToken s pair = .ok t)
      (h : SameRegistry t u) : Changed k s u
  | toggled {id : Bytes} {pair : TokenPair} (hold : s.pairs id = some pair) :
      Changed k s (k.setTokenPair s { pair with enabled := !pair.enabled })
  | deleted {id : Bytes} {pair : TokenPair} (hold : s.pairs id = some pair) :
      Changed k s (k.deleteTokenPair s pair)

/-- Metadata is the bank's, names the denom, and is given to a denom once. -/
theorem createCoinMetadata_ok {queryERC20 : Except String ERC20Data} {s s' : State}
    {contract : Address} {metadata : Metadata}
    (h : k.createCoinMetadata queryERC20 s contract = .ok (metadata, s')) :
    metadata.name = createDenom (k.addressString contract) ∧
      s.denomMetadata (createDenom (k.addressString contract)) = none ∧
      s'.store = s.store ∧ s'.denomMetadata = update s.denomMetadata
        (createDenom (k.addressString contract)) (some metadata) := by
  obtain ⟨erc20Data, -, hrest⟩ := bind_eq_ok.mp h
  split_ifs at hrest with hmetadata
  simp only at hrest
  split at hrest
  · cases hrest
  · obtain ⟨rfl, rfl⟩ := Prod.mk.inj (Except.ok.inj hrest)
    exact ⟨rfl, by simpa using hmetadata, rfl, rfl⟩

/-- A registration that succeeds, of a contract whose denom has no metadata yet. -/
structure Registered (k : Keeper) (s t : State) (contract : Address) : Prop where
  setToken : k.setToken s.store
    (k.newTokenPair contract (createDenom (k.addressString contract)) .external) = .ok t.store
  before : s.denomMetadata (createDenom (k.addressString contract)) = none
  metadata : ∃ metadata, t.denomMetadata = update s.denomMetadata
    (createDenom (k.addressString contract)) (some metadata)

/-- A registration that fails leaves the stores, and one that succeeds adds its pair. -/
theorem registerERC20_cases (s : State) (contract : Address) :
    (k.registerERC20 queryERC20 s contract).1.store = s.store ∧
        (∃ err, (k.registerERC20 queryERC20 s contract).2 = .error err) ∨
      k.Registered s (k.registerERC20 queryERC20 s contract).1 contract ∧
        ∃ pair, (k.registerERC20 queryERC20 s contract).2 = .ok pair := by
  simp only [registerERC20]
  split_ifs with hregistered
  · exact .inl ⟨rfl, _, rfl⟩
  · split
    · exact .inl ⟨rfl, _, rfl⟩
    · next metadata s' hmetadata =>
      obtain ⟨hname, hbefore, hstore, hafter⟩ := createCoinMetadata_ok hmetadata
      rw [hstore, hname]
      split
      · exact .inl ⟨hstore, _, rfl⟩
      · next store hset => exact .inr ⟨⟨hset, hbefore, metadata, hafter⟩, _, rfl⟩

theorem registerERC20_changed (s : State) (contract : Address) :
    k.Changed s.store (k.registerERC20 queryERC20 s contract).1.store := by
  obtain ⟨hstore, -⟩ | ⟨hregistered, -⟩ := registerERC20_cases (k := k) queryERC20 s contract
  · rw [hstore]
    exact .same (.refl _)
  · exact .added (isHexAddress_newTokenPair _ _ _) (isHexAddress_createDenom _)
      hregistered.setToken (.refl _)

theorem createNewTokenPair_ok {hasCodeHash : Address → Bool} {denom : String}
    (h : k.createNewTokenPair hasCodeHash s denom = .ok (pair, t)) :
    isHexAddress pair.erc20Address = true ∧ isHexAddress pair.denom = false ∧
      pair.contractOwner = .module ∧ k.setToken s pair = .ok t := by
  obtain ⟨new, hnew, hrest⟩ := bind_eq_ok.mp h
  obtain ⟨address, haddress, rfl⟩ := map_eq_ok.mp hnew
  split_ifs at hrest
  obtain ⟨store, hset, heq⟩ := map_eq_ok.mp hrest
  obtain ⟨rfl, rfl⟩ := Prod.mk.inj heq
  exact ⟨isHexAddress_newTokenPair _ _ _, isHexAddress_of_getIBCDenomAddress haddress, rfl, hset⟩

theorem registerERC20Extension_changed (hasCodeHash : Address → Bool)
    (registerCodeHash : Option String) (s : Store) (denom : String) :
    k.Changed s (k.registerERC20Extension hasCodeHash registerCodeHash s denom).1 := by
  simp only [registerERC20Extension]
  split
  · exact .same (.refl _)
  · next pair t hcreate =>
    obtain ⟨hhex, hdenom, -, hset⟩ := createNewTokenPair_ok hcreate
    split
    · exact .added hhex hdenom hset (.refl _)
    · next enabled henable =>
      exact .added hhex hdenom hset (enableDynamicPrecompile_ok henable).1

theorem toggleConversion_ok {token : String} (h : k.toggleConversion s token = .ok (pair, t)) :
    ∃ id old, s.pairs id = some old ∧
      t = k.setTokenPair s { old with enabled := !old.enabled } := by
  simp only [toggleConversion] at h
  split at h
  · cases h
  · cases h
  · split at h
    · cases h
    · next old hold =>
      obtain ⟨-, rfl⟩ := Prod.mk.inj (Except.ok.inj h)
      exact ⟨_, old, hold, rfl⟩

theorem change_changed (s : State) (c : Change) : k.Changed s.store (k.change s c).store := by
  cases c with
  | registerERC20 contract queryERC20 => exact registerERC20_changed queryERC20 s contract
  | registerERC20Extension denom hasCodeHash registerCodeHash =>
    exact registerERC20Extension_changed hasCodeHash registerCodeHash s.store denom
  | toggleConversion token =>
    simp only [change]
    split
    · exact .same (.refl _)
    · next pair store h =>
      obtain ⟨id, old, hold, rfl⟩ := toggleConversion_ok h
      exact .toggled hold
  | deleteTokenPair id =>
    simp only [change]
    split
    · exact .same (.refl _)
    · next pair hold => exact .deleted hold

/-- No change of the registry adds an allowance. -/
theorem change_allowances {s : State} {c : Change} {key : Bytes} {allowance : Allowance}
    (h : (k.change s c).store.allowances key = some allowance) :
    s.store.allowances key = some allowance := by
  cases c with
  | registerERC20 contract queryERC20 =>
    simp only [change] at h
    obtain ⟨hstore, -⟩ | ⟨hregistered, -⟩ := registerERC20_cases (k := k) queryERC20 s contract
    · rwa [hstore] at h
    · rwa [setToken_allowances hregistered.setToken] at h
  | registerERC20Extension denom hasCodeHash registerCodeHash =>
    simp only [change, registerERC20Extension] at h
    split at h
    · exact h
    · next pair t hcreate =>
      obtain ⟨-, -, -, hset⟩ := createNewTokenPair_ok hcreate
      rw [← setToken_allowances hset]
      split at h
      · exact h
      · next enabled henable => rwa [(enableDynamicPrecompile_ok henable).2] at h
  | toggleConversion token =>
    simp only [change] at h
    split at h
    · exact h
    · next pair store htoggle =>
      obtain ⟨id, old, -, rfl⟩ := toggleConversion_ok htoggle
      exact h
  | deleteTokenPair id =>
    simp only [change] at h
    split at h
    · exact h
    · simp only [deleteTokenPair, deleteAllowances] at h
      split_ifs at h
      exact h

theorem Changed.linked (hsum : k.CollisionFree) (h : k.Changed s t) (hs : k.Linked s) :
    k.Linked t := by
  cases h with
  | same h => exact h.linked hs
  | added hhex _ hset h => exact h.linked (setToken_linked hs hhex hsum hset)
  | toggled hold => exact setTokenPair_linked hs hold rfl rfl
  | deleted hold => exact deleteTokenPair_linked hs hold

end Keeper

/-! ## What a genesis has that is valid -/

/-- The text by which `Validate` tells allowances apart. -/
def Allowance.text (a : Allowance) : String := a.erc20Address ++ a.owner ++ a.spender

namespace GenesisState

theorem validatePairs_eq_none {seenErc20 seenDenom : List String} :
    validatePairs seenErc20 seenDenom pairs = none ↔ (∀ pair ∈ pairs, pair.validate = none) ∧
      Fresh erc20Address seenErc20 pairs ∧ Fresh denom seenDenom pairs := by
  induction pairs generalizing seenErc20 seenDenom with
  | nil => simp [validatePairs]
  | cons pair rest ih =>
    rw [forall_mem_cons, fresh_cons, fresh_cons, validatePairs]
    split_ifs with herc20 hdenom
    · simp [herc20]
    · simp [hdenom]
    · cases pair.validate <;> simp [ih, herc20, hdenom]

theorem validatePrecompiles_eq_none {texts : List String} :
    validatePrecompiles pairs texts = none ↔
      ∀ text ∈ texts, ∃ pair ∈ pairs, pair.erc20Address = text ∧ pair.enabled = true := by
  induction texts with
  | nil => simp [validatePrecompiles]
  | cons text rest ih =>
    have hactive : hasActiveTokenPair pairs text = true ↔
        ∃ pair ∈ pairs, pair.erc20Address = text ∧ pair.enabled = true := by
      simp [hasActiveTokenPair]
    rw [forall_mem_cons, ← hactive, ← ih, validatePrecompiles]
    cases hasActiveTokenPair pairs text <;> simp

theorem validateAllowances_eq_none {seenErc20 seen : List String} {allowances : List Allowance} :
    validateAllowances seenErc20 seen allowances = none ↔
      (∀ a ∈ allowances, a.validate = none ∧ a.erc20Address ∈ seenErc20) ∧
      Fresh Allowance.text seen allowances := by
  induction allowances generalizing seen with
  | nil => simp [validateAllowances]
  | cons a rest ih =>
    rw [forall_mem_cons, fresh_cons, validateAllowances]
    change (if a.text ∈ seen then _ else _) = none ↔ _
    split_ifs with hseen hpair
    · simp [hseen]
    · cases a.validate with
      | some err => simp
      | none =>
        simp only [ih, hseen, hpair, not_false_eq_true, true_and]
        rfl
    · simp [hpair]

/-- What `Validate` checks. -/
structure Valid (gs : GenesisState) : Prop where
  pairs : ∀ pair ∈ gs.tokenPairs, pair.validate = none
  contracts : (gs.tokenPairs.map erc20Address).Nodup
  denoms : (gs.tokenPairs.map denom).Nodup
  dynamic : ∀ text ∈ gs.dynamicPrecompiles,
    ∃ pair ∈ gs.tokenPairs, pair.erc20Address = text ∧ pair.enabled = true
  native : ∀ text ∈ gs.nativePrecompiles,
    ∃ pair ∈ gs.tokenPairs, pair.erc20Address = text ∧ pair.enabled = true
  allowances : ∀ a ∈ gs.allowances, a.validate = none ∧
    ∃ pair ∈ gs.tokenPairs, pair.erc20Address = a.erc20Address
  distinct : (gs.allowances.map Allowance.text).Nodup

theorem validate_eq_none {gs : GenesisState} : gs.validate = none ↔ gs.Valid := by
  have hfields : gs.validate = none ↔ validatePairs [] [] gs.tokenPairs = none ∧
      validatePrecompiles gs.tokenPairs gs.dynamicPrecompiles = none ∧
      validatePrecompiles gs.tokenPairs gs.nativePrecompiles = none ∧
      validateAllowances (gs.tokenPairs.map erc20Address) [] gs.allowances = none := by
    unfold validate
    cases validatePairs [] [] gs.tokenPairs <;>
      cases validatePrecompiles gs.tokenPairs gs.dynamicPrecompiles <;>
      cases validatePrecompiles gs.tokenPairs gs.nativePrecompiles <;> simp
  rw [hfields, validatePairs_eq_none, validatePrecompiles_eq_none, validatePrecompiles_eq_none,
    validateAllowances_eq_none, fresh_iff_nodup, fresh_iff_nodup, fresh_iff_nodup]
  constructor
  · rintro ⟨⟨hpairs, hcontracts, hdenoms⟩, hdynamic, hnative, hallowances, hdistinct⟩
    exact ⟨hpairs, hcontracts, hdenoms, hdynamic, hnative,
      fun a ha => (hallowances a ha).imp_right mem_map.mp, hdistinct⟩
  · intro h
    exact ⟨⟨h.pairs, h.contracts, h.denoms⟩, h.dynamic, h.native,
      fun a ha => (h.allowances a ha).imp_right mem_map.mpr, h.distinct⟩

end GenesisState

/-- A lookup by the denom of the pair finds its contract: the denom does not read as an address,
or reads as the pair's own. -/
def TokenPair.FoundByDenom (pair : TokenPair) : Prop :=
  isHexAddress pair.denom = true → hexToAddress pair.denom = pair.getERC20Contract

namespace Keeper

/-- Every pair is found by its denom. -/
def FoundByDenom (s : Store) : Prop := ∀ id pair, s.pairs id = some pair → pair.FoundByDenom

variable {s : Store} {gs : GenesisState}
variable {registerCodeHash : PrecompileType → Address → Option String} (P : Store → Prop)

theorem Changed.foundByDenom {t : Store} (h : k.Changed s t) (hs : FoundByDenom s) :
    FoundByDenom t := by
  intro id pair hpair
  cases h with
  | same h =>
    rw [h.pairs] at hpair
    exact hs id pair hpair
  | added hhex hdenom hset h =>
    obtain ⟨-, -, rfl⟩ := setToken_ok hset
    rw [h.pairs] at hpair
    simp only [setERC20Map, setDenomMap, setTokenPair, update_apply] at hpair
    split_ifs at hpair with heq
    · cases hpair
      intro hread
      rw [hdenom] at hread
      cases hread
    · exact hs id pair hpair
  | toggled hold =>
    simp only [setTokenPair, update_apply] at hpair
    split_ifs at hpair with heq
    · cases hpair
      have hfound := hs _ _ hold
      exact hfound
    · exact hs id pair hpair
  | deleted hold =>
    simp only [deleteTokenPair, removeTokenPair, deleteERC20Map,
      deleteDenomMap, deleteAllowances, update_apply] at hpair
    split_ifs at hpair with heq
    exact hs id pair hpair

/-- The registry is consistent. -/
structure Consistent (k : Keeper) (s : Store) : Prop extends k.Linked s where
  distinct : ∀ {id id' pair pair'}, s.pairs id = some pair → s.pairs id' = some pair' →
    pair.denom = pair'.denom ∨ pair.getERC20Contract = pair'.getERC20Contract → id = id'
  byDenom : ∀ {id pair}, s.pairs id = some pair → s.getTokenPairID pair.denom = some id
  /-- Any text of the address will do. -/
  byAddress : ∀ {id pair}, s.pairs id = some pair → ∀ text, isHexAddress text = true →
    hexToAddress text = pair.getERC20Contract → s.getTokenPairID text = some id

/-- Linked stores are consistent exactly if every pair is found by its denom. -/
theorem Linked.consistent_iff (hs : k.Linked s) : k.Consistent s ↔ FoundByDenom s := by
  constructor
  · intro h id pair hpair hread
    have hid := h.byDenom hpair
    rw [getTokenPairID, if_pos hread] at hid
    obtain ⟨found, hfound, hkey⟩ := hs.ofErc20 hid
    rw [hpair] at hfound
    cases hfound
    exact (addressBytes_inj hkey).symm
  · intro h
    refine ⟨hs, ?_, ?_, ?_⟩
    · intro id id' pair pair' hpair hpair' hshared
      cases hshared with
      | inl hdenom => exact hs.eq_of_denom hpair hpair' hdenom
      | inr hcontract => exact hs.eq_of_contract hpair hpair' hcontract
    · intro id pair hpair
      rw [getTokenPairID]
      split_ifs with hread
      · rw [h id pair hpair hread]
        exact hs.erc20 hpair
      · exact hs.denom hpair
    · intro id pair hpair text htext hcontract
      rw [getTokenPairID, if_pos htext, hcontract]
      exact hs.erc20 hpair

/-! ### Genesis -/

theorem isHex_of_validate_pair {pair : TokenPair} (h : pair.validate = none) :
    isHexAddress pair.erc20Address = true := by
  simp only [validate] at h
  split_ifs at h with _ hhex
  simpa using hhex

theorem initPairs_linked (hsum : k.CollisionFree) (hs : k.Linked s)
    (hhex : ∀ pair ∈ pairs, isHexAddress pair.erc20Address = true) :
    k.Linked (k.initPairs s pairs).1 := by
  induction pairs generalizing s with
  | nil => exact hs
  | cons pair rest ih =>
    simp only [initPairs]
    split
    · exact hs
    · next t hset =>
      apply ih (setToken_linked hs (hhex pair mem_cons_self) hsum hset)
      exact fun pair hpair => hhex pair (mem_cons_of_mem _ hpair)

/-- A loop keeps what its body keeps. -/
theorem initAll_invariant {α : Type} {f : Store → α → Except String Store} {message : String}
    (hf : ∀ {s a t}, P s → f s a = .ok t → P t) {items : List α} {t : Store} (hs : P s)
    (h : initAll f message s items = .ok t) : P t := by
  induction items generalizing s with
  | nil =>
    cases h
    exact hs
  | cons a rest ih =>
    simp only [initAll] at h
    split at h
    · cases h
    · next u hu => exact ih (hf hs hu) h

/-- What the pairs of a genesis establish, and the other loops keep, holds after it. -/
theorem initGenesis_invariant (hpairs : P (k.initPairs (emptyStore gs.params) gs.tokenPairs).1)
    (hnative : ∀ {code s a t}, P s → k.enableNativePrecompile code s a = .ok t → P t)
    (hdynamic : ∀ {code s a t}, P s → k.enableDynamicPrecompile code s a = .ok t → P t)
    (hallowances : ∀ {s t erc20 owner spender value}, P s →
      k.unsafeSetAllowance s erc20 owner spender value = .ok t → P t)
    (h : k.initGenesis registerCodeHash gs = .ok s) : P s := by
  simp only [initGenesis] at h
  split at h
  · next t ht =>
    cases h
    rwa [ht] at hpairs
  · next t ht =>
    rw [ht] at hpairs
    obtain ⟨native, hfirst, hrest⟩ := bind_eq_ok.mp h
    obtain ⟨dynamic, hsecond, hlast⟩ := bind_eq_ok.mp hrest
    apply initAll_invariant P (fun hs hok => hallowances hs hok) _ hlast
    apply initAll_invariant P (fun hs hok => hdynamic hs hok) _ hsecond
    exact initAll_invariant P (fun hs hok => hnative hs hok) hpairs hfirst

theorem initGenesis_linked (hsum : k.CollisionFree) (hvalid : gs.validate = none)
    (h : k.initGenesis registerCodeHash gs = .ok s) : k.Linked s := by
  apply initGenesis_invariant k.Linked _ _ _ _ h
  · exact initPairs_linked hsum (linked_emptyStore gs.params) fun p hp =>
      isHex_of_validate_pair ((GenesisState.validate_eq_none.mp hvalid).pairs p hp)
  · exact fun hs hok => (enableNativePrecompile_ok hok).1.linked hs
  · exact fun hs hok => (enableDynamicPrecompile_ok hok).1.linked hs
  · intro s t erc20 owner spender value hs hok
    obtain ⟨-, rfl⟩ := setAllowanceOf_ok hok
    exact hs.congr rfl rfl rfl

theorem initPairs_allowances (s : Store) (pairs : List TokenPair) :
    (k.initPairs s pairs).1.allowances = s.allowances := by
  induction pairs generalizing s with
  | nil => rfl
  | cons pair rest ih =>
    simp only [initPairs]
    split
    · rfl
    · next t hset => rw [ih, setToken_allowances hset]

theorem initGenesis_positive (h : k.initGenesis registerCodeHash gs = .ok s) :
    s.PositiveAllowances := by
  apply initGenesis_invariant PositiveAllowances _ _ _ _ h
  · intro key allowance hstored
    rw [initPairs_allowances] at hstored
    cases hstored
  · intro code s a t hs hok key allowance hstored
    exact hs key allowance ((enableNativePrecompile_ok hok).2 ▸ hstored)
  · intro code s a t hs hok key allowance hstored
    exact hs key allowance ((enableDynamicPrecompile_ok hok).2 ▸ hstored)
  · intro s t erc20 owner spender value hs hok
    exact setAllowanceOf_positive hok hs

theorem foldl_change_linked (hsum : k.CollisionFree) {s : State} (hs : k.Linked s.store)
    (changes : List Change) : k.Linked (changes.foldl k.change s).store :=
  changes.foldlRecOn (motive := fun s => k.Linked s.store) k.change hs fun s hs c _ =>
    (change_changed s c).linked hsum hs

theorem foldl_change_foundByDenom {s : State} (hs : FoundByDenom s.store)
    (changes : List Change) : FoundByDenom (changes.foldl k.change s).store :=
  changes.foldlRecOn (motive := fun s => FoundByDenom s.store) k.change hs fun s hs c _ =>
    (change_changed s c).foundByDenom hs

/-- From a valid genesis the registry is consistent after every sequence of changes, exactly
if every pair of the genesis whose denom reads as an address has that address. -/
theorem registry_consistent_iff (hsum : k.CollisionFree) {gs : GenesisState}
    (hvalid : gs.validate = none) {registerCodeHash : PrecompileType → Address → Option String}
    {store : Store} (hinit : k.initGenesis registerCodeHash gs = .ok store)
    (denomMetadata : String → Option Metadata) :
    (∀ changes : List Change,
      k.Consistent (changes.foldl k.change { store, denomMetadata }).store) ↔
        FoundByDenom store := by
  have hlinked := initGenesis_linked hsum hvalid hinit
  constructor
  · intro h
    exact hlinked.consistent_iff.mp (h [])
  · intro h changes
    have hrun := foldl_change_linked hsum (s := { store, denomMetadata }) hlinked changes
    exact hrun.consistent_iff.mpr (foldl_change_foundByDenom h changes)

/-! ### A denom that reads as an address -/

/-- A keeper whose hash is the text itself. -/
def plainKeeper : Keeper where
  sum text := text.toByteArray.data.toList
  upper _ _ := false
  parseHexHash _ := .error "no hash"
  validateMetadata _ := none

theorem plainKeeper_collisionFree : plainKeeper.CollisionFree := by
  intro text text' h
  exact String.toByteArray_inj.mp (ByteArray.ext (Array.toList_inj.mp h))

/-- A pair of the contract with address one. -/
def pairOne (denom : String) : TokenPair where
  erc20Address := "0x0000000000000000000000000000000000000001"
  denom := denom
  enabled := true
  contractOwner := .external

/-- A genesis with one pair. -/
def genesisOne (denom : String) : GenesisState where
  params := { enableErc20 := true, permissionlessRegistration := true }
  tokenPairs := [pairOne denom]
  allowances := []
  nativePrecompiles := []
  dynamicPrecompiles := []

/-- The stores after that genesis. -/
def storeOne (denom : String) : Store :=
  (((plainKeeper.setTokenPair (emptyStore (genesisOne denom).params) (pairOne denom)).setDenomMap
    denom (plainKeeper.getID (pairOne denom))).setERC20Map (pairOne denom).getERC20Contract
      (plainKeeper.getID (pairOne denom)))

theorem initGenesis_genesisOne (denom : String) :
    plainKeeper.initGenesis (fun _ _ => none) (genesisOne denom) = .ok (storeOne denom) := rfl

/-- Forty letters are a denom and an address. -/
def letters : String := "aaaaaaaaaaaaaaaaaaaaaaaaaaaaaaaaaaaaaaaa"

theorem validate_letters : (genesisOne letters).validate = none := by decide +kernel

/-- The genesis is valid, and its pair is not found by its denom. -/
theorem letters_not_found :
    (genesisOne letters).validate = none ∧
      plainKeeper.initGenesis (fun _ _ => none) (genesisOne letters) = .ok (storeOne letters) ∧
      (storeOne letters).pairs (plainKeeper.getID (pairOne letters)) = some (pairOne letters) ∧
      (storeOne letters).getTokenPairID letters = none ∧
      plainKeeper.CollisionFree ∧ ¬plainKeeper.Consistent (storeOne letters) := by
  have hstored : (storeOne letters).pairs (plainKeeper.getID (pairOne letters)) =
      some (pairOne letters) := by
    decide +kernel
  have hlookup : (storeOne letters).getTokenPairID letters = none := by decide +kernel
  refine ⟨validate_letters, rfl, hstored, hlookup, plainKeeper_collisionFree, fun h => ?_⟩
  have hfound := h.byDenom hstored
  cases hfound

/-- The denom `stake` does not read as an address. -/
theorem registry_consistent_iff_stake :
    (genesisOne "stake").validate = none ∧ ∀ changes : List Change, plainKeeper.Consistent
      (changes.foldl plainKeeper.change ⟨storeOne "stake", fun _ => none⟩).store := by
  have hvalid : (genesisOne "stake").validate = none := by decide +kernel
  refine ⟨hvalid, (registry_consistent_iff plainKeeper_collisionFree hvalid
    (initGenesis_genesisOne "stake") _).mpr fun id pair hpair hhex => ?_⟩
  simp only [storeOne, setTokenPair, setDenomMap, setERC20Map, update_apply] at hpair
  split_ifs at hpair
  · cases hpair
    exact absurd hhex (by decide +kernel)
  · cases hpair

end Keeper

end InfiniteEvm.Erc20
