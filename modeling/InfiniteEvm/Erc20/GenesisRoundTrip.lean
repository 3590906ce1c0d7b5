import InfiniteEvm.Erc20.Genesis
import Mathlib

/-!
# Genesis round trip of `x/erc20`

An export lists all pairs, allowances and precompiles. An import of it makes the same stores.
It is valid as long as every precompile belongs to a pair that is enabled, which a toggle or a
deletion of the pair ends, and as long as pairs are written as addresses are written.
-/

namespace InfiniteEvm.Erc20

open Library Outcomes Function List Option Store TokenPair LastWrites Hex

/-! ## Export -/

/-- Finitely many keys of the stores have a value. -/
structure Store.Listed (s : Store) : Prop where
  pairs : {id | s.pairs id ≠ none}.Finite
  allowances : {key | s.allowances key ≠ none}.Finite
  nativePrecompiles : {text | s.nativePrecompiles text = true}.Finite
  dynamicPrecompiles : {text | s.dynamicPrecompiles text = true}.Finite

/-- The keys of the stores, in the order of their iterators. -/
structure Iterators where
  pairs : Store → List Bytes
  allowances : Store → List Bytes
  nativePrecompiles : Store → List String
  dynamicPrecompiles : Store → List String

/-- Each iterator visits the keys that have a value, each once. -/
structure Iterators.Lawful (it : Iterators) : Prop where
  mem_pairs : ∀ s : Store, s.Listed → ∀ id, id ∈ it.pairs s ↔ s.pairs id ≠ none
  nodup_pairs : ∀ s : Store, s.Listed → (it.pairs s).Nodup
  mem_allowances : ∀ s : Store, s.Listed → ∀ key, key ∈ it.allowances s ↔ s.allowances key ≠ none
  nodup_allowances : ∀ s : Store, s.Listed → (it.allowances s).Nodup
  mem_native : ∀ s : Store, s.Listed → ∀ text,
    text ∈ it.nativePrecompiles s ↔ s.nativePrecompiles text = true
  mem_dynamic : ∀ s : Store, s.Listed → ∀ text,
    text ∈ it.dynamicPrecompiles s ↔ s.dynamicPrecompiles text = true

namespace Iterators

variable (it : Iterators)

/-- `GetTokenPairs`. -/
def getTokenPairs (s : Store) : List TokenPair := (it.pairs s).filterMap s.pairs

/-- `GetAllowances`. -/
def getAllowances (s : Store) : List Allowance := (it.allowances s).filterMap s.allowances

/-- `GetNativePrecompiles`. -/
def getNativePrecompiles (s : Store) : List String :=
  (it.nativePrecompiles s).mergeSort (fun a b => a ≤ b)

/-- `GetDynamicPrecompiles`. -/
def getDynamicPrecompiles (s : Store) : List String :=
  (it.dynamicPrecompiles s).mergeSort (fun a b => a ≤ b)

/-- `ExportGenesis`. -/
def exportGenesis (s : Store) : GenesisState where
  params := s.params
  tokenPairs := it.getTokenPairs s
  allowances := it.getAllowances s
  nativePrecompiles := it.getNativePrecompiles s
  dynamicPrecompiles := it.getDynamicPrecompiles s

end Iterators

/-! ## Stores of a chain -/

namespace Keeper

/-- A hash that `ParseHexHash` reads has at most 64 digits. -/
def ParsesHashes (k : Keeper) : Prop :=
  ∀ text bytes, k.parseHexHash text = .ok bytes →
    text.toList.length ≤ 64 ∧ ∀ c ∈ text.toList, (value c).isSome

/-- An allowance as it is stored under the addresses it is for. -/
structure Granted (k : Keeper) (key : Bytes) (a : Allowance) (erc20 owner spender : Address) :
    Prop where
  key : key = allowanceKey erc20 owner spender
  eq : a = k.newAllowance erc20 owner spender a.value
  pos : 0 < a.value
  lt : a.value < 2 ^ 256
  owner : owner ≠ 0
  spender : spender ≠ 0

/-- The stores are as genesis, messages and calls leave them. -/
structure Proper (k : Keeper) (s : Store) : Prop where
  linked : k.Linked s
  denoms : ∀ id pair, s.pairs id = some pair → validateDenom pair.denom = true
  allowances : ∀ key a, s.allowances key = some a →
    ∃ erc20 owner spender, k.Granted key a erc20 owner spender ∧ s.getERC20Map erc20 ≠ none
  precompiles : ∀ text, s.nativePrecompiles text = true ∨ s.dynamicPrecompiles text = true →
    ∃ a, text = k.addressString a
  listed : s.Listed

variable {K : Type} {a erc20 owner spender : Address} {key : Bytes}

theorem finite_update {V : Type} [DecidableEq K] (p : V → Prop) {f : K → V}
    (h : {x | p (f x)}.Finite) (a : K) (v : V) : {x | p (update f a v x)}.Finite := by
  refine (h.insert a).subset fun x hx => ?_
  by_cases heq : x = a
  · exact Set.mem_insert_iff.mpr (.inl heq)
  · refine Set.mem_insert_of_mem _ ?_
    rw [Set.mem_ofPred_eq, update_of_ne heq] at hx
    exact hx

variable {k : Keeper} {s t : Store} {pair : TokenPair} {id : Bytes}

theorem proper_emptyStore (params : Params) : k.Proper (emptyStore params) where
  linked := linked_emptyStore params
  denoms := nofun
  allowances := nofun
  precompiles text h := by obtain h | h := h <;> cases h
  listed := by constructor <;> simp [emptyStore]

section

variable (hs : k.Proper s) {registerCodeHash : Option String}
include hs

/-- A new pair. -/
theorem Proper.setToken (hsum : k.CollisionFree) (hhex : isHexAddress pair.erc20Address = true)
    (hdenom : validateDenom pair.denom = true) (hset : k.setToken s pair = .ok t) : k.Proper t := by
  have haside := sameAside_setToken hset
  have hpairs := pairs_setToken hset
  refine ⟨setToken_linked hs.linked hhex hsum hset, ?_, ?_, ?_, ?_⟩
  · intro id p hp
    rw [hpairs, update_apply] at hp
    split_ifs at hp
    · cases hp
      exact hdenom
    · exact hs.denoms id p hp
  · intro key a ha
    rw [haside.allowances] at ha
    obtain ⟨erc20, owner, spender, hgranted, hregistered⟩ := hs.allowances key a ha
    refine ⟨erc20, owner, spender, hgranted, ?_⟩
    have hne : erc20 ≠ pair.getERC20Contract := by
      intro heq
      obtain ⟨-, hcontract, -⟩ := setToken_ok hset
      exact hregistered (heq ▸ hcontract)
    rw [getERC20Map_setToken hset hne]
    exact hregistered
  · rw [haside.nativePrecompiles, haside.dynamicPrecompiles]
    exact hs.precompiles
  · constructor
    · rw [hpairs]
      exact finite_update (· ≠ none) hs.listed.pairs _ _
    · exact haside.allowances ▸ hs.listed.allowances
    · exact haside.nativePrecompiles ▸ hs.listed.nativePrecompiles
    · exact haside.dynamicPrecompiles ▸ hs.listed.dynamicPrecompiles

theorem Proper.enableNativePrecompile (h : k.enableNativePrecompile registerCodeHash s a = .ok t) :
    k.Proper t := by
  cases registerCodeHash with
  | some err => cases h
  | none =>
    cases h
    refine ⟨hs.linked.congr rfl rfl rfl, hs.denoms, hs.allowances, fun text h => ?_,
      { hs.listed with
        nativePrecompiles := finite_update (· = true) hs.listed.nativePrecompiles _ _ }⟩
    by_cases heq : text = k.addressString a
    · exact ⟨a, heq⟩
    · refine hs.precompiles text (h.imp_left fun h => ?_)
      simpa only [update_of_ne heq] using h

theorem Proper.enableDynamicPrecompile
    (h : k.enableDynamicPrecompile registerCodeHash s a = .ok t) : k.Proper t := by
  cases registerCodeHash with
  | some err => cases h
  | none =>
    cases h
    refine ⟨hs.linked.congr rfl rfl rfl, hs.denoms, hs.allowances, fun text h => ?_,
      { hs.listed with
        dynamicPrecompiles := finite_update (· = true) hs.listed.dynamicPrecompiles _ _ }⟩
    by_cases heq : text = k.addressString a
    · exact ⟨a, heq⟩
    · refine hs.precompiles text (h.imp_right fun h => ?_)
      simpa only [update_of_ne heq] using h

theorem Proper.writeAllowance {stored : Option Allowance}
    (hstored : ∀ a, stored = some a → ∃ erc20 owner spender,
      k.Granted key a erc20 owner spender ∧ s.getERC20Map erc20 ≠ none) :
    k.Proper (s.writeAllowance key stored) where
  linked := hs.linked.congr rfl rfl rfl
  denoms := hs.denoms
  allowances key' a ha := by
    by_cases hkey : key' = key
    · rw [hkey] at ha ⊢
      simp only [Store.writeAllowance, update_self] at ha
      exact hstored a ha
    · simp only [Store.writeAllowance, update_of_ne hkey] at ha
      exact hs.allowances key' a ha
  precompiles := hs.precompiles
  listed := { hs.listed with allowances := finite_update (· ≠ none) hs.listed.allowances _ _ }

/-- A write of an allowance that is accepted. -/
theorem Proper.setAllowanceOf {value : Int} {any : Bool}
    (h : k.setAllowanceOf s erc20 owner spender value any = .ok t) : k.Proper t := by
  simp only [Keeper.setAllowanceOf] at h
  split at h
  · cases h
  · next found hfound =>
    split_ifs at h with hdisabled howner hspender hnegative hlarge
    cases h
    refine hs.writeAllowance fun a ha => ⟨erc20, owner, spender, ?_, ?_⟩
    · rw [storedAllowance] at ha
      split_ifs at ha with hzero
      cases ha
      have hpos : 0 < value := lt_of_le_of_ne (not_lt.mp hnegative) (Ne.symm hzero)
      exact ⟨rfl, rfl, hpos, not_le.mp hlarge, howner, hspender⟩
    · intro hnone
      rw [hnone] at hfound
      cases hfound

/-- A pair is stored again with another flag. -/
theorem Proper.toggle (hold : s.pairs id = some pair) :
    k.Proper (k.setTokenPair s { pair with enabled := !pair.enabled }) where
  linked := setTokenPair_linked hs.linked hold rfl rfl
  denoms := by
    intro id' p hp
    simp only [setTokenPair, update_apply] at hp
    split_ifs at hp
    · cases hp
      exact hs.denoms id pair hold
    · exact hs.denoms id' p hp
  allowances := hs.allowances
  precompiles := hs.precompiles
  listed := { hs.listed with pairs := finite_update (· ≠ none) hs.listed.pairs _ _ }

/-- A pair is deleted with the allowances of its contract. -/
theorem Proper.deleteTokenPair (hold : s.pairs id = some pair) :
    k.Proper (k.deleteTokenPair s pair) := by
  have hallowances : ∀ {key a}, (k.deleteTokenPair s pair).allowances key = some a →
      ¬ addressBytes pair.getERC20Contract <+: key ∧ s.allowances key = some a := by
    intro key a ha
    simp only [Keeper.deleteTokenPair, deleteAllowances] at ha
    split_ifs at ha with hunder
    exact ⟨hunder, ha⟩
  refine ⟨deleteTokenPair_linked hs.linked hold, ?_, ?_, hs.precompiles, ?_⟩
  · intro id' p hp
    simp only [Keeper.deleteTokenPair, removeTokenPair, deleteERC20Map,
      deleteDenomMap, deleteAllowances, update_apply] at hp
    split_ifs at hp
    exact hs.denoms id' p hp
  · intro key a ha
    obtain ⟨hunder, hstored⟩ := hallowances ha
    obtain ⟨erc20, owner, spender, hgranted, hregistered⟩ := hs.allowances key a hstored
    refine ⟨erc20, owner, spender, hgranted, ?_⟩
    have hne : addressBytes erc20 ≠ addressBytes pair.getERC20Contract := by
      intro heq
      refine hunder ?_
      rw [← heq, hgranted.key, allowanceKey, append_assoc]
      exact prefix_append _ _
    have hsame : (k.deleteTokenPair s pair).getERC20Map erc20 = s.getERC20Map erc20 := by
      simp only [Keeper.deleteTokenPair, getERC20Map, removeTokenPair, deleteERC20Map,
        deleteDenomMap, deleteAllowances, update_of_ne hne]
    rw [hsame]
    exact hregistered
  · refine ⟨finite_update (· ≠ none) hs.listed.pairs _ _, hs.listed.allowances.subset ?_,
      hs.listed.nativePrecompiles, hs.listed.dynamicPrecompiles⟩
    intro key hkey
    obtain ⟨a, ha⟩ := ne_none_iff_exists'.mp hkey
    rw [Set.mem_ofPred_eq, (hallowances ha).2]
    exact some_ne_none _

end

/-! ## Denoms -/

theorem isAlphanum_of_value {c : Char} (h : (value c).isSome) : c.isAlphanum = true := by
  have hbounds : '0'.val.toNat = 48 ∧ '9'.val.toNat = 57 ∧ 'a'.val.toNat = 97 ∧
      'f'.val.toNat = 102 ∧ 'A'.val.toNat = 65 ∧ 'F'.val.toNat = 70 ∧ 'Z'.val.toNat = 90 ∧
      'z'.val.toNat = 122 := by decide
  simp only [Char.isAlphanum, Char.isAlpha, Char.isUpper, Char.isLower, Char.isDigit,
    Bool.or_eq_true, Bool.and_eq_true, decide_eq_true_eq, UInt32.le_iff_toNat_le, ge_iff_le]
  simp only [value, Char.le_def, UInt32.le_iff_toNat_le] at h
  split_ifs at h with hdigit hlower hupper
  · exact .inr hdigit
  · exact .inl (.inr (by omega))
  · exact .inl (.inl (by omega))
  · cases h

/-- The denom that a registration makes. -/
theorem validateDenom_createDenom (a : Address) :
    validateDenom (createDenom (k.addressString a)) = true := by
  have hdigits : ∀ c ∈ encode (k.upper a) (addressBytes a), c.isAlphanum = true :=
    fun c hc => isAlphanum_of_value (value_of_mem_encode _ _ hc)
  have htext : (createDenom (k.addressString a)).toList = 'e' :: 'r' :: 'c' :: '2' :: '0' :: ':' ::
      '0' :: 'x' :: encode (k.upper a) (addressBytes a) := by
    simp [createDenom, erc20NativeCoinDenomPrefix, addressString, addressText]
  have hlength : (encode (k.upper a) (addressBytes a)).length = 40 := by
    simp [addressBytes]
  simp only [validateDenom, htext, length_cons, hlength, all_cons]
  simp +contextual [hdigits]

theorem validateDenom_of_getIBCDenomAddress (hhash : k.ParsesHashes) {denom : String}
    (h : k.getIBCDenomAddress denom = .ok a) : validateDenom denom = true := by
  simp only [getIBCDenomAddress] at h
  split at h
  · next hash htext =>
    split_ifs at h
    split at h
    · cases h
    · next bytes hparse =>
      obtain ⟨hlength, hdigits⟩ := hhash _ _ hparse
      rw [String.toList_ofList] at hlength hdigits
      have hall : ∀ c ∈ hash, c.isAlphanum = true := fun c hc => isAlphanum_of_value (hdigits c hc)
      have hshort : hash.length + 1 + 1 + 1 ≤ 127 := by omega
      simp only [validateDenom, htext, length_cons, all_cons]
      simp +contextual [hall, hshort]
  · cases h

/-! ## Runs -/

theorem Proper.initPairs (hs : k.Proper s) (hsum : k.CollisionFree) {pairs : List TokenPair}
    (hvalid : ∀ pair ∈ pairs, pair.validate = none) : k.Proper (k.initPairs s pairs).1 := by
  induction pairs generalizing s with
  | nil => exact hs
  | cons pair rest ih =>
    simp only [Keeper.initPairs]
    split
    · exact hs
    · next t hset =>
      have hpair := hvalid pair (mem_cons_self ..)
      have hdenom : validateDenom pair.denom = true := by
        simp only [validate] at hpair
        split_ifs at hpair with hdenom
        simpa using hdenom
      exact ih (hs.setToken hsum (isHex_of_validate_pair hpair) hdenom hset)
        fun p hp => hvalid p (mem_cons_of_mem _ hp)

theorem Proper.initGenesis (hsum : k.CollisionFree) {gs : GenesisState}
    (hvalid : gs.validate = none) {registerCodeHash : PrecompileType → Address → Option String}
    (h : k.initGenesis registerCodeHash gs = .ok s) : k.Proper s := by
  apply initGenesis_invariant k.Proper _ _ _ _ h
  · exact (proper_emptyStore gs.params).initPairs hsum
      (GenesisState.validate_eq_none.mp hvalid).pairs
  · exact fun hs hok => hs.enableNativePrecompile hok
  · exact fun hs hok => hs.enableDynamicPrecompile hok
  · exact fun hs hok => hs.setAllowanceOf hok

/-- Registrations, extensions, toggles and deletions. -/
theorem Proper.change (hsum : k.CollisionFree) (hhash : k.ParsesHashes) {s : State}
    (hs : k.Proper s.store) (c : Change) : k.Proper (k.change s c).store := by
  cases c with
  | registerERC20 contract queryERC20 =>
    simp only [Keeper.change]
    obtain ⟨hstore, -⟩ | ⟨hregistered, -⟩ := registerERC20_cases (k := k) queryERC20 s contract
    · rw [hstore]
      exact hs
    · exact hs.setToken hsum (isHexAddress_newTokenPair _ _ _) (validateDenom_createDenom _)
        hregistered.setToken
  | registerERC20Extension denom hasCodeHash registerCodeHash =>
    simp only [Keeper.change, registerERC20Extension]
    split
    · exact hs
    · next pair t hcreate =>
      obtain ⟨hhex, -, -, hset⟩ := createNewTokenPair_ok hcreate
      have hdenom : validateDenom pair.denom = true := by
        obtain ⟨new, hnew, hrest⟩ := bind_eq_ok.mp hcreate
        obtain ⟨address, haddress, rfl⟩ := map_eq_ok.mp hnew
        split_ifs at hrest
        obtain ⟨store, -, heq⟩ := map_eq_ok.mp hrest
        obtain ⟨rfl, -⟩ := Prod.mk.inj heq
        exact validateDenom_of_getIBCDenomAddress hhash haddress
      have ht := hs.setToken hsum hhex hdenom hset
      split
      · exact ht
      · next enabled henable => exact ht.enableDynamicPrecompile henable
  | toggleConversion token =>
    simp only [Keeper.change]
    split
    · exact hs
    · next pair store htoggle =>
      obtain ⟨id, old, hold, rfl⟩ := toggleConversion_ok htoggle
      exact hs.toggle hold
  | deleteTokenPair id =>
    simp only [Keeper.change]
    split
    · exact hs
    · next pair hold => exact hs.deleteTokenPair hold

/-- The states of a chain from a valid genesis on. The bank may change its metadata. -/
inductive Reaches (k : Keeper) : State → Prop
  | genesis {gs : GenesisState} {registerCodeHash : PrecompileType → Address → Option String}
      {store : Store} (denomMetadata : String → Option Metadata) : gs.validate = none →
      k.initGenesis registerCodeHash gs = .ok store → Reaches k { store, denomMetadata }
  | change {s : State} (c : Change) : Reaches k s → Reaches k (k.change s c)
  | approve {s : State} {erc20 owner spender : Address} {value : Int} {store : Store} :
      Reaches k s → k.setAllowance s.store erc20 owner spender value = .ok store →
      Reaches k { s with store }
  | updateParams {s : State} (params : Params) : Reaches k s →
      Reaches k { s with store := { s.store with params } }
  | setDenomMetaData {s : State} (denomMetadata : String → Option Metadata) : Reaches k s →
      Reaches k { s with denomMetadata }

theorem Reaches.proper (hsum : k.CollisionFree) (hhash : k.ParsesHashes) {s : State}
    (h : k.Reaches s) : k.Proper s.store := by
  induction h with
  | genesis denomMetadata hvalid hinit => exact Proper.initGenesis hsum hvalid hinit
  | change c _ ih => exact ih.change hsum hhash c
  | approve _ hset ih => exact ih.setAllowanceOf hset
  | updateParams params _ ih =>
    exact { ih with linked := ih.linked.congr rfl rfl rfl, listed := { ih.listed with } }
  | setDenomMetaData denomMetadata _ ih => exact ih

/-! ## The round trip -/

theorem nodup_map_filterMap {V W : Type} {l : List K} {f : K → Option V} {g : V → W} (hl : l.Nodup)
    (hinj : ∀ x y a b, f x = some a → f y = some b → g a = g b → x = y) :
    ((l.filterMap f).map g).Nodup := by
  rw [map_filterMap]
  refine hl.filterMap fun x y w hx hy => ?_
  obtain ⟨a, ha, rfl⟩ := map_eq_some_iff.mp hx
  obtain ⟨b, hb, heq⟩ := map_eq_some_iff.mp hy
  exact hinj x y a b ha hb heq.symm

theorem mem_filterMap_of_mem_iff {V : Type} {l : List K} {f : K → Option V}
    (hl : ∀ x, x ∈ l ↔ f x ≠ none) {v : V} : v ∈ l.filterMap f ↔ ∃ x, f x = some v := by
  rw [mem_filterMap]
  refine exists_congr fun x => and_iff_right_of_imp fun hx => ?_
  exact (hl x).mpr (hx ▸ some_ne_none v)

theorem addressString_injective : Injective k.addressString :=
  LeftInverse.injective hexToAddress_addressString

theorem length_addressString (a : Address) : (k.addressString a).toList.length = 42 := by
  simp [addressString, addressText, addressBytes]

/-- The texts of allowances tell them apart, as all addresses are written with 42 characters. -/
theorem text_newAllowance_inj {erc20' owner' spender' : Address} {value value' : Int}
    (h : (k.newAllowance erc20 owner spender value).text =
      (k.newAllowance erc20' owner' spender' value').text) :
    erc20 = erc20' ∧ owner = owner' ∧ spender = spender' := by
  have htext := congrArg String.toList h
  simp only [Allowance.text, newAllowance, String.toList_append] at htext
  obtain ⟨hfirst, hspender⟩ := append_inj htext (by simp [length_addressString])
  obtain ⟨herc20, howner⟩ := append_inj hfirst (by simp [length_addressString])
  exact ⟨addressString_injective (String.toList_injective herc20),
    addressString_injective (String.toList_injective howner),
    addressString_injective (String.toList_injective hspender)⟩

theorem Granted.key_eq {a : Allowance} (h : k.Granted key a erc20 owner spender) :
    a.key = key ∧ k.stored a = a := by
  have hkey : a.key = key := by
    rw [h.eq, h.key]
    simp only [Allowance.key, newAllowance, hexToAddress_addressString]
  refine ⟨hkey, ?_⟩
  rw [stored, h.eq]
  simp only [newAllowance, hexToAddress_addressString]

theorem Granted.validate {a : Allowance} (h : k.Granted key a erc20 owner spender) :
    a.validate = none := by
  have herc20 : a.erc20Address = k.addressString erc20 := congrArg Allowance.erc20Address h.eq
  have howner : a.owner = k.addressString owner := congrArg Allowance.owner h.eq
  have hspender : a.spender = k.addressString spender := congrArg Allowance.spender h.eq
  simp only [Allowance.validate, herc20, howner, hspender, isHexAddress_addressString,
    Bool.not_true, Bool.false_eq_true, if_false, if_neg (not_le.mpr h.pos)]

theorem Linked.erc20Map_eq_some (h : k.Linked s) :
    s.erc20Map key = some id ↔
      ∃ pair, s.pairs id = some pair ∧ addressBytes pair.getERC20Contract = key := by
  constructor
  · exact h.ofErc20
  · rintro ⟨pair, hpair, rfl⟩
    exact h.erc20 hpair

theorem Linked.denomMap_eq_some (h : k.Linked s) {denom : String} :
    s.denomMap denom = some id ↔ ∃ pair, s.pairs id = some pair ∧ pair.denom = denom := by
  constructor
  · exact h.ofDenom
  · rintro ⟨pair, hpair, rfl⟩
    exact h.denom hpair

/-- The maps of linked stores are determined by the pairs. -/
theorem Linked.maps_eq (hs : k.Linked s) (ht : k.Linked t) (hpairs : t.pairs = s.pairs) :
    t.erc20Map = s.erc20Map ∧ t.denomMap = s.denomMap := by
  constructor
  · funext key
    apply ext
    intro id
    rw [ht.erc20Map_eq_some, hs.erc20Map_eq_some, hpairs]
  · funext denom
    apply ext
    intro id
    rw [ht.denomMap_eq_some, hs.denomMap_eq_some, hpairs]

/-- Every precompile belongs to a pair that is enabled, and pairs with a precompile or an
allowance are written as addresses are. -/
structure Exportable (k : Keeper) (s : Store) : Prop where
  precompiles : ∀ a, s.nativePrecompiles (k.addressString a) = true ∨
      s.dynamicPrecompiles (k.addressString a) = true →
    ∃ id pair, s.pairs id = some pair ∧ pair.erc20Address = k.addressString a ∧ pair.enabled = true
  allowances : ∀ erc20 owner spender, s.allowances (allowanceKey erc20 owner spender) ≠ none →
    ∀ id pair, s.pairs id = some pair → pair.getERC20Contract = erc20 →
      pair.erc20Address = k.addressString erc20

section

variable {set : String → Bool} {texts : List String}
  (hset : ∀ text, set text = true → ∃ a, text = k.addressString a)
  (hmem : ∀ text, text ∈ texts ↔ set text = true)
include hset hmem

theorem forall_addressString {P : Address → Prop} :
    (∀ text ∈ texts, P (hexToAddress text)) ↔ ∀ a, set (k.addressString a) = true → P a := by
  constructor
  · intro h a ha
    have hall := h _ ((hmem _).mpr ha)
    rwa [hexToAddress_addressString] at hall
  · intro h text htext
    have hmember := (hmem text).mp htext
    obtain ⟨a, rfl⟩ := hset text hmember
    rw [hexToAddress_addressString]
    exact h a hmember

theorem any_addressString (x : String) :
    (texts.any fun text => k.addressString (hexToAddress text) = x) = set x := by
  rw [Bool.eq_iff_iff, List.any_eq_true]
  constructor
  · rintro ⟨text, htext, heq⟩
    rw [decide_eq_true_eq] at heq
    have hmember := (hmem text).mp htext
    obtain ⟨a, rfl⟩ := hset text hmember
    rw [hexToAddress_addressString] at heq
    exact heq ▸ hmember
  · intro hmember
    refine ⟨x, (hmem x).mpr hmember, ?_⟩
    obtain ⟨a, rfl⟩ := hset x hmember
    rw [hexToAddress_addressString]
    exact decide_eq_true rfl

end

section Export

variable {it : Iterators} (hit : it.Lawful) (hs : k.Proper s)
include hit hs

theorem mem_getTokenPairs : pair ∈ it.getTokenPairs s ↔ ∃ id, s.pairs id = some pair :=
  mem_filterMap_of_mem_iff (hit.mem_pairs s hs.listed)

theorem mem_getAllowances {a : Allowance} :
    a ∈ it.getAllowances s ↔ ∃ key, s.allowances key = some a :=
  mem_filterMap_of_mem_iff (hit.mem_allowances s hs.listed)

theorem mem_getNativePrecompiles {text : String} :
    text ∈ it.getNativePrecompiles s ↔ s.nativePrecompiles text = true := by
  rw [Iterators.getNativePrecompiles, mem_mergeSort, hit.mem_native s hs.listed]

theorem mem_getDynamicPrecompiles {text : String} :
    text ∈ it.getDynamicPrecompiles s ↔ s.dynamicPrecompiles text = true := by
  rw [Iterators.getDynamicPrecompiles, mem_mergeSort, hit.mem_dynamic s hs.listed]

theorem nodup_denoms : ((it.getTokenPairs s).map denom).Nodup :=
  nodup_map_filterMap (hit.nodup_pairs s hs.listed) fun _ _ _ _ => hs.linked.eq_of_denom

theorem nodup_contracts : ((it.getTokenPairs s).map getERC20Contract).Nodup :=
  nodup_map_filterMap (hit.nodup_pairs s hs.listed) fun _ _ _ _ => hs.linked.eq_of_contract

/-- An export is valid exactly if it is exportable. -/
theorem validate_exportGenesis_iff : (it.exportGenesis s).validate = none ↔ k.Exportable s := by
  rw [GenesisState.validate_eq_none]
  constructor
  · intro h
    constructor
    · intro a ha
      have hpair : ∃ pair ∈ it.getTokenPairs s, pair.erc20Address = k.addressString a ∧
          pair.enabled = true := by
        cases ha with
        | inl hnative => exact h.native _ ((mem_getNativePrecompiles hit hs).mpr hnative)
        | inr hdynamic => exact h.dynamic _ ((mem_getDynamicPrecompiles hit hs).mpr hdynamic)
      obtain ⟨pair, hmem, htext, henabled⟩ := hpair
      obtain ⟨id, hpair⟩ := (mem_getTokenPairs hit hs).mp hmem
      exact ⟨id, pair, hpair, htext, henabled⟩
    · intro erc20 owner spender hne id pair hpair hcontract
      obtain ⟨a, ha⟩ := ne_none_iff_exists'.mp hne
      obtain ⟨e, o, p, hgranted, -⟩ := hs.allowances _ a ha
      obtain ⟨rfl, rfl, rfl⟩ := allowanceKey_inj hgranted.key
      obtain ⟨-, found, hmem, htext⟩ := h.allowances a ((mem_getAllowances hit hs).mpr ⟨_, ha⟩)
      obtain ⟨id', hfound⟩ := (mem_getTokenPairs hit hs).mp hmem
      rw [hgranted.eq] at htext
      have hsame : found.getERC20Contract = pair.getERC20Contract := by
        rw [hcontract, getERC20Contract, htext]
        exact hexToAddress_addressString erc20
      obtain rfl := hs.linked.eq_of_contract hfound hpair hsame
      obtain rfl := some.inj (hfound.symm.trans hpair)
      exact htext
  · intro h
    have hprecompile : ∀ text, s.nativePrecompiles text = true ∨ s.dynamicPrecompiles text = true →
        ∃ pair ∈ it.getTokenPairs s, pair.erc20Address = text ∧ pair.enabled = true := by
      intro text htext
      obtain ⟨a, rfl⟩ := hs.precompiles text htext
      obtain ⟨id, pair, hpair, haddress, henabled⟩ := h.precompiles a htext
      exact ⟨pair, (mem_getTokenPairs hit hs).mpr ⟨id, hpair⟩, haddress, henabled⟩
    refine ⟨fun pair hmem => ?_, ?_, nodup_denoms hit hs, fun text hmem => ?_, fun text hmem => ?_,
      fun a hmem => ?_, ?_⟩
    · obtain ⟨id, hpair⟩ := (mem_getTokenPairs hit hs).mp hmem
      simp only [validate, hs.denoms id pair hpair, hs.linked.isHex hpair, Bool.not_true,
        Bool.false_eq_true, if_false]
    · refine nodup_map_filterMap (hit.nodup_pairs s hs.listed) fun _ _ _ _ hp hq heq => ?_
      exact hs.linked.eq_of_contract hp hq (congrArg hexToAddress heq)
    · exact hprecompile text (.inr ((mem_getDynamicPrecompiles hit hs).mp hmem))
    · exact hprecompile text (.inl ((mem_getNativePrecompiles hit hs).mp hmem))
    · obtain ⟨key, ha⟩ := (mem_getAllowances hit hs).mp hmem
      obtain ⟨erc20, owner, spender, hgranted, hregistered⟩ := hs.allowances key a ha
      refine ⟨hgranted.validate, ?_⟩
      obtain ⟨id, hid⟩ := ne_none_iff_exists'.mp hregistered
      obtain ⟨pair, hpair, hkey⟩ := hs.linked.ofErc20 hid
      refine ⟨pair, (mem_getTokenPairs hit hs).mpr ⟨id, hpair⟩, ?_⟩
      rw [h.allowances erc20 owner spender (by
        rw [← hgranted.key, ha]
        exact some_ne_none _) id pair hpair (addressBytes_inj hkey), hgranted.eq]
      rfl
    · refine nodup_map_filterMap (hit.nodup_allowances s hs.listed) fun x y a b ha hb heq => ?_
      obtain ⟨e, o, p, hgranted, -⟩ := hs.allowances x a ha
      obtain ⟨e', o', p', hgranted', -⟩ := hs.allowances y b hb
      rw [hgranted.eq, hgranted'.eq] at heq
      obtain ⟨rfl, rfl, rfl⟩ := text_newAllowance_inj heq
      rw [hgranted.key, hgranted'.key]

/-- An import of an export makes the same stores exactly if the code hashes of its precompiles
can be registered. -/
theorem initGenesis_exportGenesis_iff (hsum : k.CollisionFree)
    (registerCodeHash : PrecompileType → Address → Option String) :
    k.initGenesis registerCodeHash (it.exportGenesis s) = .ok s ↔
      ∀ a, (s.nativePrecompiles (k.addressString a) = true →
          registerCodeHash .native a = none) ∧
        (s.dynamicPrecompiles (k.addressString a) = true →
          registerCodeHash .dynamic a = none) := by
  obtain ⟨t, hinit, hlinked, haside, hpairs⟩ := initPairs_emptyStore hsum s.params
    (fun pair hmem => by
      obtain ⟨id, hpair⟩ := (mem_getTokenPairs hit hs).mp hmem
      exact hs.linked.isHex hpair) (nodup_denoms hit hs) (nodup_contracts hit hs)
  have hsame : t.pairs = s.pairs := by
    funext id
    apply ext
    intro pair
    rw [hpairs, mem_getTokenPairs hit hs]
    constructor
    · rintro ⟨⟨id', hpair⟩, rfl⟩
      rwa [hs.linked.keyed hpair] at hpair
    · intro hpair
      exact ⟨⟨id, hpair⟩, hs.linked.keyed hpair⟩
  obtain ⟨herc20, hdenom⟩ := hs.linked.maps_eq hlinked hsame
  have hgranted : ∀ a ∈ it.getAllowances s, s.allowances a.key = some a ∧ k.stored a = a ∧
      Settable a ∧ 0 < a.value ∧ HasPair t a := by
    intro a hmem
    obtain ⟨key, ha⟩ := (mem_getAllowances hit hs).mp hmem
    obtain ⟨erc20, owner, spender, hgranted, hregistered⟩ := hs.allowances key a ha
    obtain ⟨hkey, hstored⟩ := hgranted.key_eq
    obtain ⟨id, hid⟩ := ne_none_iff_exists'.mp hregistered
    obtain ⟨pair, hpair, hbytes⟩ := hs.linked.ofErc20 hid
    have heq := hgranted.eq
    refine ⟨hkey ▸ ha, hstored, ⟨?_, ?_, hgranted.lt⟩, hgranted.pos, ?_⟩
    · rw [heq]
      simpa only [newAllowance, hexToAddress_addressString] using hgranted.owner
    · rw [heq]
      simpa only [newAllowance, hexToAddress_addressString] using hgranted.spender
    · refine hlinked.hasPair (hsame ▸ hpair) ((addressBytes_inj hbytes).trans ?_)
      rw [heq]
      exact (hexToAddress_addressString erc20).symm
  have himported : k.imported (it.exportGenesis s) t = s := by
    have hallowances : ∀ key, (k.imported (it.exportGenesis s) t).allowances key =
        s.allowances key := by
      intro key
      have hnone : t.allowances key = none := congrFun haside.allowances key
      change ((lastWrite Allowance.key (it.getAllowances s) key).map k.stored).or
        (t.allowances key) = _
      rw [hnone, or_none]
      cases hlast : lastWrite Allowance.key (it.getAllowances s) key with
      | some a =>
        obtain ⟨hmem, rfl⟩ := mem_of_lastWrite hlast
        obtain ⟨hread, hstored, -⟩ := hgranted a hmem
        rw [map_some, hstored, hread]
      | none =>
        cases hread : s.allowances key with
        | none => rfl
        | some a =>
          -- An allowance of the store is in the export, under its own key.
          have hmem := (mem_getAllowances hit hs).mpr ⟨key, hread⟩
          obtain ⟨erc20, owner, spender, hkey, -⟩ := hs.allowances key a hread
          obtain ⟨b, hb⟩ : ∃ b, lastWrite Allowance.key (it.getAllowances s) a.key =
              some b := exists_lastWrite hmem
          rw [hkey.key_eq.1, hlast] at hb
          cases hb
    have hnative : ∀ x, (k.imported (it.exportGenesis s) t).nativePrecompiles x =
        s.nativePrecompiles x := by
      intro x
      have hnone : t.nativePrecompiles x = false := congrFun haside.nativePrecompiles x
      change (t.nativePrecompiles x || (it.getNativePrecompiles s).any _) = _
      rw [hnone, Bool.false_or]
      exact any_addressString (fun text h => hs.precompiles text (.inl h))
        (fun text => mem_getNativePrecompiles hit hs) x
    have hdynamic : ∀ x, (k.imported (it.exportGenesis s) t).dynamicPrecompiles x =
        s.dynamicPrecompiles x := by
      intro x
      have hnone : t.dynamicPrecompiles x = false := congrFun haside.dynamicPrecompiles x
      change (t.dynamicPrecompiles x || (it.getDynamicPrecompiles s).any _) = _
      rw [hnone, Bool.false_or]
      exact any_addressString (fun text h => hs.precompiles text (.inr h))
        (fun text => mem_getDynamicPrecompiles hit hs) x
    have hparams : t.params = s.params := haside.params
    calc k.imported (it.exportGenesis s) t
        = { params := t.params, pairs := t.pairs, erc20Map := t.erc20Map, denomMap := t.denomMap
            allowances := (k.imported (it.exportGenesis s) t).allowances
            nativePrecompiles := (k.imported (it.exportGenesis s) t).nativePrecompiles
            dynamicPrecompiles := (k.imported (it.exportGenesis s) t).dynamicPrecompiles } := rfl
      _ = s := by
        rw [hparams, hsame, herc20, hdenom, funext hallowances, funext hnative, funext hdynamic]
  rw [initGenesis_eq_ok hinit fun a hmem => (hgranted a hmem).2.2.2, himported, forall_and,
    ← forall_addressString (fun text h => hs.precompiles text (.inl h))
      (fun text => mem_getNativePrecompiles hit hs),
    ← forall_addressString (fun text h => hs.precompiles text (.inr h))
      (fun text => mem_getDynamicPrecompiles hit hs)]
  exact ⟨fun h => ⟨h.1.native, h.1.dynamic⟩,
    fun h => ⟨⟨h.1, h.2, fun a hmem => (hgranted a hmem).2.2.1⟩, rfl⟩⟩

end Export

/-- What a valid genesis lists is all registered exactly if no contract is written in two ways,
the other modules and the stores accept the precompiles and allowances, and no allowance is given
twice with different values. The export of any state of a chain is valid exactly if every
precompile belongs to a pair that is enabled, and pairs with a precompile or an allowance are
written as addresses are. Its import makes the same stores exactly if the code hashes of the
precompiles can be registered. -/
theorem genesis_iff (k : Keeper) (hsum : k.CollisionFree) (hhash : k.ParsesHashes)
    (it : Iterators) (hit : it.Lawful)
    (registerCodeHash : PrecompileType → Address → Option String) :
    (∀ gs : GenesisState, gs.validate = none →
      ((∃ store, k.initGenesis registerCodeHash gs = .ok store ∧ k.Registers gs store) ↔
        Importable registerCodeHash gs)) ∧
    ∀ s : State, k.Reaches s →
      ((it.exportGenesis s.store).validate = none ↔ k.Exportable s.store) ∧
      (k.initGenesis registerCodeHash (it.exportGenesis s.store) = .ok s.store ↔
        ∀ a, (s.store.nativePrecompiles (k.addressString a) = true →
            registerCodeHash .native a = none) ∧
          (s.store.dynamicPrecompiles (k.addressString a) = true →
            registerCodeHash .dynamic a = none)) := by
  constructor
  · intro gs hvalid
    exact exists_registers_iff hsum hvalid registerCodeHash
  · intro s hreaches
    have hproper := hreaches.proper hsum hhash
    exact ⟨validate_exportGenesis_iff hit hproper,
      initGenesis_exportGenesis_iff hit hproper hsum registerCodeHash⟩

/-! ### A pair in two spellings, and a pair that is toggled off -/

open Classical in
/-- Iterators that list all keys. -/
noncomputable def listing : Iterators where
  pairs s := if h : s.Listed then h.pairs.toFinset.toList else []
  allowances s := if h : s.Listed then h.allowances.toFinset.toList else []
  nativePrecompiles s := if h : s.Listed then h.nativePrecompiles.toFinset.toList else []
  dynamicPrecompiles s := if h : s.Listed then h.dynamicPrecompiles.toFinset.toList else []

theorem listing_lawful : listing.Lawful := by
  constructor
  · intro s h id
    simp [listing, h]
  · intro s h
    simpa only [listing, h, dif_pos] using Finset.nodup_toList _
  · intro s h key
    simp [listing, h]
  · intro s h
    simpa only [listing, h, dif_pos] using Finset.nodup_toList _
  · intro s h text
    simp [listing, h]
  · intro s h text
    simp [listing, h]

/-- A keeper that reads one hash. -/
def ibcKeeper : Keeper :=
  { plainKeeper with
    parseHexHash := fun text => if text = "01" then .ok [1] else .error "no hash" }

theorem ibcKeeper_collisionFree : ibcKeeper.CollisionFree := plainKeeper_collisionFree

theorem ibcKeeper_parsesHashes : ibcKeeper.ParsesHashes := by
  intro text bytes h
  have htext : text = "01" := by
    by_contra hne
    rw [show ibcKeeper.parseHexHash text = .error "no hash" from if_neg hne] at h
    cases h
  rw [htext]
  refine ⟨by decide, all_eq_true.mp ?_⟩
  decide

/-- Before anything is registered. -/
def freshState : State where
  store := emptyStore { enableErc20 := true, permissionlessRegistration := true }
  denomMetadata _ := none

theorem freshState_reached : ibcKeeper.Reaches freshState := by
  have hvalid : GenesisState.validate ⟨⟨true, true⟩, [], [], [], []⟩ = none := rfl
  have hinit : ibcKeeper.initGenesis (fun _ _ => none) ⟨⟨true, true⟩, [], [], [], []⟩ =
      .ok freshState.store := rfl
  exact .genesis _ hvalid hinit

/-- A voucher is registered with its precompile. -/
def extended : State :=
  ibcKeeper.change freshState (.registerERC20Extension "ibc/01" (fun _ => false) none)

/-- The pair of the voucher. -/
def voucherPair : TokenPair := ibcKeeper.newTokenPair 1 "ibc/01" .module

theorem extended_reached : ibcKeeper.Reaches extended := .change _ freshState_reached

theorem extended_pairs : extended.store.pairs =
    update (fun _ => none) (ibcKeeper.getID voucherPair) (some voucherPair) := by
  rfl

/-- The only pair is that of the voucher, and it is toggled off. -/
theorem toggled_pairs {id : Bytes} {pair : TokenPair}
    (h : (ibcKeeper.change extended (.toggleConversion "ibc/01")).store.pairs id = some pair) :
    pair.enabled = false := by
  have hpairs : (ibcKeeper.change extended (.toggleConversion "ibc/01")).store.pairs =
      update extended.store.pairs (ibcKeeper.getID voucherPair)
        (some { voucherPair with enabled := false }) := rfl
  rw [hpairs, extended_pairs, update_idem, update_apply] at h
  split_ifs at h
  exact some.inj h ▸ rfl

theorem extended_precompiles : extended.store.nativePrecompiles = (fun _ => false) ∧
    extended.store.dynamicPrecompiles =
      update (fun _ => false) (ibcKeeper.addressString 1) true := by
  exact ⟨rfl, rfl⟩

theorem extended_exportable : ibcKeeper.Exportable extended.store := by
  constructor
  · intro a ha
    rw [extended_precompiles.1, extended_precompiles.2, update_apply] at ha
    split_ifs at ha with htext
    · refine ⟨ibcKeeper.getID voucherPair, voucherPair, ?_, htext.symm, rfl⟩
      rw [extended_pairs, update_self]
    · simp at ha
  · intro erc20 owner spender hne
    exact absurd rfl hne

/-- Two spellings of one contract. -/
def spelledTwice : GenesisState where
  params := { enableErc20 := true, permissionlessRegistration := true }
  tokenPairs := [⟨"0xabababababababababababababababababababab", "first", true, .external⟩,
    ⟨"0xABababababababababababababababababababab", "second", true, .external⟩]
  allowances := []
  nativePrecompiles := []
  dynamicPrecompiles := []

/-- Of two pairs of a valid genesis that spell one contract differently, only the first is
registered. A voucher that is registered and toggled off leaves a state whose export is not
valid. -/
theorem genesis_incomplete :
    spelledTwice.validate = none ∧
    (ibcKeeper.initGenesis (fun _ _ => none) spelledTwice).toOption.map (fun s =>
      spelledTwice.tokenPairs.map fun pair => (s.pairs (ibcKeeper.getID pair)).isSome) =
        some [true, false] ∧
    ∃ s : State, ibcKeeper.Reaches s ∧ (listing.exportGenesis s.store).validate ≠ none := by
  refine ⟨by decide +kernel, by decide +kernel, ibcKeeper.change extended
    (.toggleConversion "ibc/01"), .change _ extended_reached, fun hvalid => ?_⟩
  have hproper := Reaches.proper ibcKeeper_collisionFree ibcKeeper_parsesHashes
    (.change (.toggleConversion "ibc/01") extended_reached)
  have hexportable := (validate_exportGenesis_iff listing_lawful hproper).mp hvalid
  obtain ⟨id, pair, hpair, -, henabled⟩ := hexportable.precompiles 1 (by decide +kernel)
  rw [toggled_pairs hpair] at henabled
  cases henabled

theorem genesis_iff_voucher :
    (∃ store, ibcKeeper.initGenesis (fun _ _ => none) (genesisOne "coin") = .ok store ∧
      ibcKeeper.Registers (genesisOne "coin") store) ∧
    ∃ s : State, ibcKeeper.Reaches s ∧
      s.store.dynamicPrecompiles (ibcKeeper.addressString 1) = true ∧
      (listing.exportGenesis s.store).validate = none ∧
      ibcKeeper.initGenesis (fun _ _ => none) (listing.exportGenesis s.store) = .ok s.store := by
  obtain ⟨hgenesis, hstates⟩ := genesis_iff ibcKeeper ibcKeeper_collisionFree
    ibcKeeper_parsesHashes listing listing_lawful (fun _ _ => none)
  obtain ⟨hvalid, hsame⟩ := hstates extended extended_reached
  refine ⟨(hgenesis (genesisOne "coin") (by decide +kernel)).mpr ?_, extended, extended_reached,
    by decide +kernel, hvalid.mpr extended_exportable,
    hsame.mpr fun _ => ⟨fun _ => rfl, fun _ => rfl⟩⟩
  refine ⟨⟨nofun, nofun, nofun⟩, ?_, nofun⟩
  intro p hp q hq _
  rw [mem_singleton.mp hp, mem_singleton.mp hq]

end Keeper

end InfiniteEvm.Erc20
