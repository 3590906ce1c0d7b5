import InfiniteEvm.Erc20.Registry
import InfiniteEvm.VM.CodeIndex
import InfiniteEvm.VM.Params

/-!
# Genesis of `x/vm`

`x/vm/genesis.go` and the types it reads, with `keeper/preinstalls.go` and
`keeper/coin_info.go`. An export walks the index of code hashes and writes each account with
its code and its storage as text. An import reads the text back into an empty store.
-/

namespace InfiniteEvm.VM

open Std Library SnapshotMulti StateDB List LastWrites
open Erc20 (addressText isHexAddress isHexAddress_addressText fromHex hexToAddress
  hexToAddress_addressText stripHexPrefix Metadata)

variable {E : Type} {seen : List String}

/-! ## Texts -/

/-- `Hash.String`. -/
def hashText (h : Hash) : String := "0x" ++ .ofList (Hex.encode (fun _ => false) (hashBytes h))

/-- `HexToHash`. -/
def hexToHash (text : String) : Hash := bytesToHash (fromHex text)

/-- `Bytes2Hex`. -/
def bytes2Hex (bytes : Bytes) : String := .ofList (Hex.encode (fun _ => false) bytes)

/-- `Hex2Bytes`. -/
def hex2Bytes (text : String) : Bytes := Hex.decode text.toList

/-- `unicode.IsSpace`. -/
def isSpace (c : Char) : Bool :=
  c.toNat ∈ [0x09, 0x0a, 0x0b, 0x0c, 0x0d, 0x20, 0x85, 0xa0, 0x1680, 0x2028, 0x2029, 0x202f,
    0x205f, 0x3000] || (0x2000 ≤ c.toNat && c.toNat ≤ 0x200a)

/-! ## Types -/

/-- A slot as text. -/
structure State where
  key : String
  value : String
  deriving DecidableEq

structure GenesisAccount where
  address : String
  code : String
  storage : List State
  deriving DecidableEq

structure Preinstall where
  name : String
  address : String
  code : String
  deriving DecidableEq

structure GenesisState where
  accounts : List GenesisAccount
  params : Params
  preinstalls : List Preinstall
  deriving DecidableEq

/-- `EvmCoinInfo` as it is loaded. -/
structure CoinInfo where
  denom : String
  extendedDenom : String
  displayDenom : String
  decimals : Nat
  deriving DecidableEq

/-- What genesis uses besides the keeper. -/
structure GenesisEnv where
  /-- Which digits of an address are written in upper case. -/
  upper : Address → Nat → Bool
  cdc : ParamsCodec
  rules : ParamRules
  /-- `GetModuleAddress` of the module. -/
  moduleAddress : Option AccAddress
  /-- The denominations of the parameters. -/
  evmDenom : String
  extendedDenomOptions : Option String
  /-- `GetDenomMetaData`, from the store of the bank. -/
  getDenomMetaData : (Bytes → Option Value) → String → Option Metadata
  marshalCoinInfo : CoinInfo → Except String Bytes
  /-- The panic of `SetGlobalConfigVariables`, which runs once in a process. -/
  configure : CoinInfo → Option String

/-! ## Validation -/

/-- `State.Validate`. -/
def State.validate (s : State) : Option String :=
  if s.key.toList.all isSpace then some "state key hash cannot be blank: invalid storage state"
  else none

/-- The loop of `Storage.Validate`, from the slot `i` on. -/
def validateStorage : List String → Nat → List State → Option String
  | _, _, [] => none
  | seenStorage, i, state :: rest =>
    if state.key ∈ seenStorage then
      some ("duplicate state key " ++ toString i ++ ": " ++ state.key ++
        ": invalid storage state")
    else
      match state.validate with
      | some err => some err
      | none => validateStorage (state.key :: seenStorage) (i + 1) rest

/-- `GenesisAccount.Validate`. -/
def GenesisAccount.validate (account : GenesisAccount) : Option String :=
  if !isHexAddress account.address then
    some ("address '" ++ account.address ++
      "' is not a valid ethereum hex address: invalid address")
  else validateStorage [] 0 account.storage

/-- The loop of `GenesisState.Validate` over the accounts. -/
def validateAccounts : List String → List GenesisAccount → Option String
  | _, [] => none
  | seenAccounts, acc :: rest =>
    if acc.address ∈ seenAccounts then some ("duplicated genesis account " ++ acc.address)
    else
      match acc.validate with
      | some err => some ("invalid genesis account " ++ acc.address ++ ": " ++ err)
      | none => validateAccounts (acc.address :: seenAccounts) rest

namespace Keeper

variable (k : Keeper E)

/-- `Preinstall.Validate`. -/
def validatePreinstall (p : Preinstall) : Option String :=
  let digits := stripHexPrefix p.code.toList
  if p.address = "" then some "preinstall address cannot be empty"
  else if !isHexAddress p.address then
    some ("preinstall address \"" ++ p.address ++ "\" is not a valid hex address")
  else if p.code = "" then some "preinstall code cannot be empty"
  else if digits.length % 2 = 1 || !digits.all fun c => (Hex.value c).isSome then
    some ("preinstall code \"" ++ p.code ++ "\" is not a valid hex string")
  else if k.keccak256 (fromHex p.code) = k.emptyCodeHash then
    some ("preinstall code \"" ++ p.code ++ "\" has empty code hash")
  else none

/-- The loop of `GenesisState.Validate` over the preinstalls. -/
def validatePreinstalls (seenAccounts : List String) :
    List String → List Preinstall → Option String
  | _, [] => none
  | seenPreinstalls, p :: rest =>
    if p.address ∈ seenPreinstalls then some ("duplicated preinstall address " ++ p.address)
    else
      match k.validatePreinstall p with
      | some err => some ("invalid preinstall " ++ p.address ++ ": " ++ err)
      | none =>
        if p.address ∈ seenAccounts then
          some ("preinstall address " ++ p.address ++ " conflicts with genesis account " ++
            p.address)
        else validatePreinstalls seenAccounts (p.address :: seenPreinstalls) rest

/-- `GenesisState.Validate`. -/
def validateGenesis (g : GenesisEnv) (gs : GenesisState) : Option String :=
  match validateAccounts [] gs.accounts with
  | some err => some err
  | none =>
    match k.validatePreinstalls (gs.accounts.map GenesisAccount.address) [] gs.preinstalls with
    | some err => some err
    | none => g.rules.validate gs.params

/-! ## Import -/

/-- The storage loop of `InitGenesis`. -/
def initStorage (address : Address) (s : Session E) (storage : List State) : Session E :=
  storage.foldl (fun s state =>
    s.write (setState address (hexToHash state.key) (hashBytes (hexToHash state.value)))) s

/-- One account of `InitGenesis`. -/
def initAccount (s : Session E) (account : GenesisAccount) : Except String (Session E) :=
  let address := hexToAddress account.address
  match k.accountKeeper.getAccount s.reads (addressBytes address) with
  | none => .error ("account not found for address " ++ account.address)
  | some _ =>
    let code := hex2Bytes account.code
    let codeHash := k.keccak256 code
    let s := if codeHash = k.emptyCodeHash then s else s.write (setCodeHash address codeHash)
    let s := if code = [] then s else s.write (setCode codeHash code)
    .ok (initStorage address s account.storage)

def initAccounts (s : Session E) : List GenesisAccount → Except String (Session E)
  | [] => .ok s
  | account :: rest => (k.initAccount s account).bind fun s => initAccounts s rest

/-- One preinstall of `AddPreinstalls`. -/
def addPreinstall (s : Session E) (p : Preinstall) : Except String (Session E) :=
  let address := hexToAddress p.address
  let code := fromHex p.code
  let codeHash := k.keccak256 code
  let existingCodeHash := k.getCodeHash s.reads address
  if p.code = "" then
    .error ("preinstall " ++ p.address ++ " has no code: invalid preinstall")
  else if codeHash = k.emptyCodeHash then
    .error ("preinstall " ++ p.address ++ " has empty code hash: invalid preinstall")
  else if existingCodeHash ≠ k.emptyCodeHash ∧ existingCodeHash ≠ codeHash then
    .error ("preinstall " ++ p.address ++
      " already has a code hash with a different code hash: invalid preinstall")
  else
    match k.accountKeeper.getAccount s.reads (addressBytes address) with
    | some _ =>
      .error ("preinstall " ++ p.address ++
        " already has an account in account keeper: invalid preinstall")
    | none =>
      let (account, ws) := k.accountKeeper.newAccountWithAddress s.reads (addressBytes address)
      .ok ((((s.write ws).write (k.accountKeeper.setAccount account)).write
        (setCodeHash address codeHash)).write (setCode codeHash code))

/-- `AddPreinstalls`. -/
def addPreinstalls (s : Session E) : List Preinstall → Except String (Session E)
  | [] => .ok s
  | p :: rest => (k.addPreinstall s p).bind fun s => addPreinstalls s rest

end Keeper

def keyPrefixEvmCoinInfo : Bytes := [5]

namespace GenesisEnv

variable (g : GenesisEnv)

/-- `LoadEvmCoinInfo`, from the store of the bank. -/
def loadEvmCoinInfo (bank : Bytes → Option Value) : Except String CoinInfo :=
  match g.getDenomMetaData bank g.evmDenom with
  | none => .error ("denom metadata " ++ g.evmDenom ++ " could not be found")
  | some evmDenomMetadata =>
    let decimals := evmDenomMetadata.denomUnits.foldl (fun decimals denomUnit =>
      if denomUnit.denom = evmDenomMetadata.display then denomUnit.exponent else decimals) 0
    let info extendedDenom : CoinInfo :=
      { denom := g.evmDenom, extendedDenom, displayDenom := evmDenomMetadata.display, decimals }
    if decimals = 18 then .ok (info g.evmDenom)
    else
      match g.extendedDenomOptions with
      | none => .error "extended denom options cannot be nil for non-18-decimal chains"
      | some extendedDenom => .ok (info extendedDenom)

/-- `InitEvmCoinInfo`, with the coin that `GetEvmCoinInfo` answers afterwards. -/
def initEvmCoinInfo (s : Session E) : Except String (CoinInfo × Session E) :=
  (g.loadEvmCoinInfo (s.reads bankStore)).bind fun coinInfo =>
    (g.marshalCoinInfo coinInfo).map fun bz =>
      (coinInfo, s.write (storeSet keyPrefixEvmCoinInfo bz))

end GenesisEnv

namespace Keeper

variable (k : Keeper E)

/-- `InitGenesis`, where a panic is an error. -/
def initGenesis (g : GenesisEnv) (s : Session E) (data : GenesisState) :
    Except String (Session E) :=
  match setParams g.cdc g.rules data.params with
  | .error err => .error ("error setting params " ++ err)
  | .ok ws =>
    match g.moduleAddress with
    | none => .error "the EVM module account has not been set"
    | some _ =>
      (k.initAccounts (s.write ws) data.accounts).bind fun s =>
        match g.initEvmCoinInfo s with
        | .error err => .error ("error initializing evm coin info: " ++ err)
        | .ok (coinInfo, s) =>
          match g.configure coinInfo with
          | some err => .error err
          | none =>
            match k.addPreinstalls s data.preinstalls with
            | .error err => .error ("error adding preinstalls: " ++ err)
            | .ok s => .ok s

/-! ## Export -/

/-- The entries that `IterateContracts` finds. -/
def contracts (r : Contents) : List (Address × Hash) :=
  (k.iterator r keyPrefixCodeHash).map fun key =>
    (bytesToAddress key, bytesToHash ((storeGet r key).getD []))

/-- The loop of `IterateContracts`. The callback says whether to stop. -/
def iterate {S : Type*} (cb : S → Address → Hash → S × Bool) : List (Address × Hash) → S → S
  | [], s => s
  | (addr, codeHash) :: rest, s =>
    match cb s addr codeHash with
    | (s, true) => s
    | (s, false) => iterate cb rest s

/-- `IterateContracts`. -/
def iterateContracts {S : Type*} (r : Contents) (cb : S → Address → Hash → S × Bool) (s : S) : S :=
  iterate cb (k.contracts r) s

/-- `NewState`. -/
def newState (key value : Hash) : State := { key := hashText key, value := hashText value }

/-- `GetAccountStorage`. -/
def getAccountStorage (r : Contents) (address : Address) : List State :=
  k.forEachStorage r address (fun storage key value => (storage ++ [newState key value], true)) []

/-- The account that `ExportGenesis` writes for an entry of the index. -/
def exportAccount (g : GenesisEnv) (r : Contents) (address : Address) (codeHash : Hash) :
    GenesisAccount where
  address := addressText g.upper address
  code := bytes2Hex ((getCode r codeHash).getD [])
  storage := k.getAccountStorage r address

/-- `ExportGenesis`. It panics where the parameters cannot be read. -/
def exportGenesis (g : GenesisEnv) (r : Contents) : Option GenesisState :=
  (getParams g.cdc r).map fun params =>
    { accounts := k.iterateContracts r (fun accounts address codeHash =>
        (accounts ++ [k.exportAccount g r address codeHash], false)) []
      params
      preinstalls := [] }

end Keeper

/-! ## Reading texts back -/

section Texts

variable (upper : Address → Nat → Bool) (a : Address)

theorem addressText_injective : Function.Injective (addressText upper) :=
  Function.LeftInverse.injective (hexToAddress_addressText upper)

theorem hexToHash_hashText (h : Hash) : hexToHash (hashText h) = h := by
  have hdecode : fromHex (hashText h) = hashBytes h := by
    simp [fromHex, hashText, stripHexPrefix, Hex.decode_encode, hashBytes]
  rw [hexToHash, hdecode, bytesToHash_hashBytes]

theorem hashText_injective : Function.Injective hashText :=
  Function.LeftInverse.injective hexToHash_hashText

theorem hex2Bytes_bytes2Hex (bytes : Bytes) : hex2Bytes (bytes2Hex bytes) = bytes := by
  rw [hex2Bytes, bytes2Hex, String.toList_ofList, Hex.decode_encode]

theorem validate_newState (key value : Hash) : (Keeper.newState key value).validate = none := by
  have hzero : '0' ∈ (hashText key).toList := by simp [hashText]
  have hblank : ¬ (hashText key).toList.all isSpace = true := by
    intro hall
    exact absurd (all_eq_true.mp hall _ hzero) (by decide)
  exact if_neg hblank

theorem bytesToAddress_codeHashKey : bytesToAddress (codeHashKey a) = a := by
  have hlt : a.toNat < 256 ^ 20 := a.isLt
  apply BitVec.eq_of_toNat_eq
  rw [bytesToAddress, codeHashKey, BigEndian.ofBytes_append, addressBytes, BigEndian.length_toBytes,
    BigEndian.ofBytes_toBytes, Nat.mod_eq_of_lt hlt, BitVec.toNat_ofNat,
    show (2 : Nat) ^ 160 = 256 ^ 20 by norm_num, Nat.mul_add_mod_self_right, Nat.mod_eq_of_lt hlt]

end Texts

/-! ## What an export validates -/

/-- Slots with distinct keys that are not blank. -/
theorem validateStorage_eq_none {storage : List State} {i : Nat}
    (hstates : ∀ state ∈ storage, state.validate = none) (hfresh : Fresh State.key seen storage) :
    validateStorage seen i storage = none := by
  induction storage generalizing seen i with
  | nil => rfl
  | cons state rest ih =>
    obtain ⟨hvalid, hstates⟩ := forall_mem_cons.mp hstates
    obtain ⟨hseen, hfresh⟩ := fresh_cons.mp hfresh
    simp only [validateStorage, if_neg hseen, hvalid]
    exact ih hstates hfresh

/-- Valid accounts with distinct addresses. -/
theorem validateAccounts_eq_none {accounts : List GenesisAccount}
    (haccounts : ∀ acc ∈ accounts, acc.validate = none)
    (hfresh : Fresh GenesisAccount.address seen accounts) :
    validateAccounts seen accounts = none := by
  induction accounts generalizing seen with
  | nil => rfl
  | cons acc rest ih =>
    obtain ⟨hvalid, haccounts⟩ := forall_mem_cons.mp haccounts
    obtain ⟨hseen, hfresh⟩ := fresh_cons.mp hfresh
    simp only [validateAccounts, if_neg hseen, hvalid]
    exact ih haccounts hfresh

namespace Keeper

variable (k : Keeper E)

/-- The callback of `GetAccountStorage` never stops. -/
theorem getAccountStorage_eq (r : Contents) (address : Address) :
    k.getAccountStorage r address = (k.slots r address).map fun p => newState p.1 p.2 := by
  have hvisit : ∀ (items : List (Hash × Hash)) (storage : List State),
      visit (fun storage key value => (storage ++ [newState key value], true)) items storage =
        storage ++ items.map fun p => newState p.1 p.2 := by
    intro items
    induction items with
    | nil => exact fun storage => (append_nil storage).symm
    | cons item rest ih =>
      intro storage
      change visit _ rest (storage ++ [newState item.1 item.2]) = _
      rw [ih, append_assoc]
      rfl
  exact hvisit _ []

/-- Nor does that of `ExportGenesis`. -/
theorem accounts_exportGenesis (g : GenesisEnv) (r : Contents) :
    k.iterateContracts r (fun accounts address codeHash =>
        (accounts ++ [k.exportAccount g r address codeHash], false)) [] =
      (k.contracts r).map fun p => k.exportAccount g r p.1 p.2 := by
  have hiterate : ∀ (items : List (Address × Hash)) (accounts : List GenesisAccount),
      iterate (fun accounts address codeHash =>
          (accounts ++ [k.exportAccount g r address codeHash], false)) items accounts =
        accounts ++ items.map fun p => k.exportAccount g r p.1 p.2 := by
    intro items
    induction items with
    | nil => exact fun accounts => (append_nil accounts).symm
    | cons item rest ih =>
      intro accounts
      change iterate _ rest (accounts ++ [k.exportAccount g r item.1 item.2]) = _
      rw [ih, append_assoc]
      rfl
  exact hiterate _ []

variable {k} (hk : k.Iterates) {r : Contents} (hlisted : Listed r)
include hk hlisted

/-- `IterateContracts` finds the accounts of the index with their hashes. -/
theorem mem_contracts (hr : k.Kept r) (hempty : k.OnlyEmpty) {a : Address} {h : Hash} :
    (a, h) ∈ k.contracts r ↔
      entries r (.codeHash a) ≠ none ∧ h = k.getCodeHash r a := by
  rw [contracts, mem_map]
  constructor
  · rintro ⟨key, hmem, heq⟩
    obtain ⟨hunder, hstored⟩ := (hk.mem_iff r hlisted _ _).mp hmem
    obtain ⟨addr, rfl⟩ := hr.indexed key hunder hstored
    obtain ⟨bytes, hbytes⟩ := Option.ne_none_iff_exists'.mp hstored
    rw [bytesToAddress_codeHashKey, hbytes, Option.getD_some] at heq
    obtain ⟨rfl, rfl⟩ := Prod.mk.inj heq
    obtain ⟨hhash, -⟩ := hr.code_of_codeHash hempty hbytes
    refine ⟨hstored, ?_⟩
    nth_rewrite 1 [hhash]
    exact bytesToHash_hashBytes _
  · rintro ⟨hstored, rfl⟩
    obtain ⟨bytes, hbytes⟩ := Option.ne_none_iff_exists'.mp hstored
    have hget : storeGet r (codeHashKey a) = some bytes := hbytes
    obtain ⟨hhash, -⟩ := hr.code_of_codeHash hempty hbytes
    refine ⟨codeHashKey a, (hk.mem_iff r hlisted _ _).mpr ⟨prefix_append _ _, hstored⟩, ?_⟩
    rw [bytesToAddress_codeHashKey, hget, Option.getD_some, hhash, bytesToHash_hashBytes]

theorem nodup_contracts (hindexed : Indexed r) : ((k.contracts r).map Prod.fst).Nodup := by
  rw [contracts, map_map]
  refine Nodup.map_on ?_ (hk.nodup r hlisted _)
  intro key hkey key' hkey' heq
  obtain ⟨hunder, hstored⟩ := (hk.mem_iff r hlisted _ _).mp hkey
  obtain ⟨hunder', hstored'⟩ := (hk.mem_iff r hlisted _ _).mp hkey'
  obtain ⟨a, rfl⟩ := hindexed key hunder hstored
  obtain ⟨a', rfl⟩ := hindexed key' hunder' hstored'
  change bytesToAddress (codeHashKey a) = bytesToAddress (codeHashKey a') at heq
  rw [bytesToAddress_codeHashKey, bytesToAddress_codeHashKey] at heq
  rw [heq]

/-- The accounts of an export are valid. -/
theorem validate_exportAccount (hkeyed : Keyed r) (g : GenesisEnv) (a : Address) (h : Hash) :
    (k.exportAccount g r a h).validate = none := by
  have hhex : ¬ (!isHexAddress (addressText g.upper a)) = true := by
    rw [isHexAddress_addressText]
    exact Bool.false_ne_true
  refine (if_neg hhex).trans ?_
  change validateStorage [] 0 (k.getAccountStorage r a) = none
  rw [getAccountStorage_eq]
  refine validateStorage_eq_none (forall_mem_map.mpr fun p _ => validate_newState _ _) ?_
  have hkeys := (nodup_slots hk hlisted hkeyed a).map hashText_injective
  rw [map_map] at hkeys
  rw [fresh_iff_nodup, map_map]
  exact hkeys

theorem validateAccounts_export (hr : k.Kept r) (g : GenesisEnv) :
    validateAccounts [] ((k.contracts r).map fun p => k.exportAccount g r p.1 p.2) = none := by
  refine validateAccounts_eq_none
    (forall_mem_map.mpr fun p _ => validate_exportAccount hk hlisted hr.keyed g p.1 p.2) ?_
  have haddresses := (nodup_contracts hk hlisted hr.indexed).map (addressText_injective g.upper)
  rw [map_map] at haddresses
  rw [fresh_iff_nodup, map_map]
  exact haddresses

end Keeper

end InfiniteEvm.VM
