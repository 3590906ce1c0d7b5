import InfiniteEvm.Bank.Coins
import InfiniteEvm.Library.Hex
import InfiniteEvm.StateDB.Types

/-!
# Token pairs

The registry of `x/erc20`: `keeper/token_pairs.go`, `keeper/proposals.go`,
`keeper/dynamic_precompiles.go` and the types they use. Each prefix store of the module is a
map of its own, and values are kept decoded.
-/

namespace InfiniteEvm.Erc20

open Library Function

/-! ## Addresses as text -/

/-- The text without `0x`. -/
def stripHexPrefix : List Char → List Char
  | '0' :: 'x' :: rest => rest
  | '0' :: 'X' :: rest => rest
  | text => text

/-- `IsHexAddress`. -/
def isHexAddress (text : String) : Bool :=
  (stripHexPrefix text.toList).length = 40 &&
    (stripHexPrefix text.toList).all fun c => (Hex.value c).isSome

/-- `FromHex`. -/
def fromHex (text : String) : Bytes :=
  let digits := stripHexPrefix text.toList
  Hex.decode (if digits.length % 2 = 1 then '0' :: digits else digits)

/-- `HexToAddress`. -/
def hexToAddress (text : String) : Address := bytesToAddress (fromHex text)

/-! ## Types -/

/-- `Owner`. -/
inductive Owner
  | unspecified
  | module
  | external
  deriving DecidableEq

structure TokenPair where
  erc20Address : String
  denom : String
  enabled : Bool
  contractOwner : Owner
  deriving DecidableEq

namespace TokenPair

/-- `GetERC20Contract`. -/
def getERC20Contract (pair : TokenPair) : Address := hexToAddress pair.erc20Address

/-- `IsNativeCoin`. -/
def isNativeCoin (pair : TokenPair) : Bool := pair.contractOwner = .module

/-- `IsNativeERC20`. -/
def isNativeERC20 (pair : TokenPair) : Bool := pair.contractOwner = .external

/-- `TokenPair.Validate`. -/
def validate (pair : TokenPair) : Option String :=
  if !validateDenom pair.denom then some ("invalid denom: " ++ pair.denom)
  else if !isHexAddress pair.erc20Address then
    some ("address '" ++ pair.erc20Address ++
      "' is not a valid ethereum hex address: invalid address")
  else none

end TokenPair

structure Allowance where
  erc20Address : String
  owner : String
  spender : String
  value : Int
  deriving DecidableEq

structure Params where
  enableErc20 : Bool
  permissionlessRegistration : Bool

/-- The stores of the module. -/
structure Store where
  params : Params
  pairs : Bytes → Option TokenPair
  erc20Map : Bytes → Option Bytes
  denomMap : String → Option Bytes
  allowances : Bytes → Option Allowance
  nativePrecompiles : String → Bool
  dynamicPrecompiles : String → Bool

structure DenomUnit where
  denom : String
  exponent : Nat
  deriving DecidableEq

/-- `Metadata` of `x/bank`. -/
structure Metadata where
  description : String
  base : String
  denomUnits : List DenomUnit
  name : String
  symbol : String
  display : String
  deriving DecidableEq

/-- The stores with the metadata that the bank keeps. -/
structure State where
  store : Store
  denomMetadata : String → Option Metadata

structure ERC20Data where
  name : String
  symbol : String
  decimals : UInt8

/-- `Keeper`, with what it uses of other libraries. -/
structure Keeper where
  /-- `tmhash.Sum`. -/
  sum : String → Bytes
  /-- Which digits of an address are written in upper case. -/
  upper : Address → Nat → Bool
  parseHexHash : String → Except String Bytes
  validateMetadata : Metadata → Option String

/-- `PrecompileType`. -/
inductive PrecompileType
  | native
  | dynamic

/-! ## Names -/

/-- `removeLeadingNumbers`, at the start of a line or not. -/
def removeLeadingNumbers : Bool → List Char → List Char
  | _, [] => []
  | lineStart, c :: rest =>
    if lineStart && c.isDigit then removeLeadingNumbers true rest
    else c :: removeLeadingNumbers (c = '\n') rest

/-- `removeSpecialChars`. -/
def removeSpecialChars : List Char → List Char
  | [] => []
  | first :: rest =>
    (if first.isAlpha then [first] else []) ++
      rest.filter fun c => c.isAlphanum || ['/', ':', '-'].contains c

/-- `removeInvalidPrefixes`. -/
def removeInvalidPrefixes : List Char → List Char
  | 'i' :: 'b' :: 'c' :: '/' :: rest => removeInvalidPrefixes rest
  | 'e' :: 'r' :: 'c' :: '2' :: '0' :: '/' :: rest => removeInvalidPrefixes rest
  | 'e' :: 'r' :: 'c' :: '2' :: '0' :: ':' :: rest => removeInvalidPrefixes rest
  | name => name

/-- `SanitizeERC20Name`. -/
def sanitizeERC20Name (name : String) : String :=
  .ofList (removeInvalidPrefixes
    ((removeSpecialChars (removeLeadingNumbers true name.toList)).take 128))

def erc20NativeCoinDenomPrefix : String := "erc20:"

/-- `CreateDenom`. -/
def createDenom (address : String) : String := erc20NativeCoinDenomPrefix ++ address

/-- `CreateDenomDescription`. -/
def createDenomDescription (address : String) : String :=
  "Cosmos coin token representation of " ++ address

/-! ## The stores -/

namespace Store

/-- `GetTokenPair`, where no id is nil. -/
def getTokenPair (s : Store) (id : Option Bytes) : Option TokenPair := id.bind s.pairs

/-- `GetERC20Map`. -/
def getERC20Map (s : Store) (erc20 : Address) : Option Bytes := s.erc20Map (addressBytes erc20)

/-- `GetDenomMap`. -/
def getDenomMap (s : Store) (denom : String) : Option Bytes := s.denomMap denom

/-- `IsERC20Registered`. -/
def isERC20Registered (s : Store) (erc20 : Address) : Bool := (s.getERC20Map erc20).isSome

/-- `IsDenomRegistered`. -/
def isDenomRegistered (s : Store) (denom : String) : Bool := (s.getDenomMap denom).isSome

/-- `GetTokenPairID`: a token that looks like an address is taken for one. -/
def getTokenPairID (s : Store) (token : String) : Option Bytes :=
  if isHexAddress token then s.getERC20Map (hexToAddress token) else s.getDenomMap token

/-- `SetERC20Map`. -/
def setERC20Map (s : Store) (erc20 : Address) (id : Bytes) : Store :=
  { s with erc20Map := update s.erc20Map (addressBytes erc20) (some id) }

/-- `SetDenomMap`. -/
def setDenomMap (s : Store) (denom : String) (id : Bytes) : Store :=
  { s with denomMap := update s.denomMap denom (some id) }

/-- `deleteTokenPair`. -/
def removeTokenPair (s : Store) (id : Bytes) : Store :=
  { s with pairs := update s.pairs id none }

/-- `deleteERC20Map`. -/
def deleteERC20Map (s : Store) (erc20 : Address) : Store :=
  { s with erc20Map := update s.erc20Map (addressBytes erc20) none }

/-- `deleteDenomMap`. -/
def deleteDenomMap (s : Store) (denom : String) : Store :=
  { s with denomMap := update s.denomMap denom none }

/-- `deleteAllowances`. -/
def deleteAllowances (s : Store) (erc20 : Address) : Store :=
  { s with allowances := fun key => if addressBytes erc20 <+: key then none else s.allowances key }

end Store

/-- `Address.String`, with the digits that are written in upper case. -/
def addressText (upper : Address → Nat → Bool) (a : Address) : String :=
  "0x" ++ .ofList (Hex.encode (upper a) (addressBytes a))

namespace Keeper

variable (k : Keeper)

/-- `Address.String`. -/
def addressString (a : Address) : String := addressText k.upper a

/-- `GetID`. -/
def getID (pair : TokenPair) : Bytes := k.sum (pair.erc20Address ++ "|" ++ pair.denom)

/-- `NewTokenPair`. -/
def newTokenPair (erc20Address : Address) (denom : String) (contractOwner : Owner) : TokenPair :=
  { erc20Address := k.addressString erc20Address, denom, enabled := true, contractOwner }

/-- `GetIBCDenomAddress`. -/
def getIBCDenomAddress (denom : String) : Except String Address :=
  match denom.toList with
  | 'i' :: 'b' :: 'c' :: '/' :: hash =>
    if hash.all Char.isWhitespace then
      .error ("coin " ++ denom ++ " is not a valid IBC voucher hash: invalid denomination for " ++
        "cross-chain transfer")
    else
      match k.parseHexHash (.ofList hash) with
      | .error err => .error (err ++ ": invalid denomination for cross-chain transfer")
      | .ok bytes => .ok (bytesToAddress bytes)
  | _ => .error ("coin " ++ denom ++ " does not have 'ibc/' prefix: invalid denomination for " ++
      "cross-chain transfer")

/-- `NewTokenPairSTRv2`. -/
def newTokenPairSTRv2 (denom : String) : Except String TokenPair :=
  (k.getIBCDenomAddress denom).map fun address => k.newTokenPair address denom .module

/-- `SetTokenPair`. -/
def setTokenPair (s : Store) (pair : TokenPair) : Store :=
  { s with pairs := update s.pairs (k.getID pair) (some pair) }

/-- `SetToken`. -/
def setToken (s : Store) (pair : TokenPair) : Except String Store :=
  if s.isDenomRegistered pair.denom then
    .error ("token already exists for denom " ++ pair.denom ++ ": token pair already exists")
  else if s.isERC20Registered pair.getERC20Contract then
    .error ("token already exists for token " ++ pair.erc20Address ++
      ": token pair already exists")
  else
    .ok (((k.setTokenPair s pair).setDenomMap pair.denom (k.getID pair)).setERC20Map
      pair.getERC20Contract (k.getID pair))

/-- `DeleteTokenPair`. -/
def deleteTokenPair (s : Store) (pair : TokenPair) : Store :=
  (((s.removeTokenPair (k.getID pair)).deleteERC20Map pair.getERC20Contract).deleteDenomMap
    pair.denom).deleteAllowances pair.getERC20Contract

/-- `CreateNewTokenPair`, where the account of the contract may have code. -/
def createNewTokenPair (hasCodeHash : Address → Bool) (s : Store) (denom : String) :
    Except String (TokenPair × Store) :=
  (k.newTokenPairSTRv2 denom).bind fun pair =>
    if hasCodeHash pair.getERC20Contract then
      .error ("token already exists for token " ++ pair.erc20Address ++
        ": token pair already exists")
    else (k.setToken s pair).map (pair, ·)

/-- `EnableDynamicPrecompile`, given how `RegisterCodeHash` ends. -/
def enableDynamicPrecompile (registerCodeHash : Option String) (s : Store) (address : Address) :
    Except String Store :=
  match registerCodeHash with
  | some err => .error err
  | none => .ok { s with
      dynamicPrecompiles := update s.dynamicPrecompiles (k.addressString address) true }

/-- `EnableNativePrecompile`. -/
def enableNativePrecompile (registerCodeHash : Option String) (s : Store) (address : Address) :
    Except String Store :=
  match registerCodeHash with
  | some err => .error err
  | none => .ok { s with
      nativePrecompiles := update s.nativePrecompiles (k.addressString address) true }

/-- `RegisterERC20Extension`. What was written before an error is still returned. -/
def registerERC20Extension (hasCodeHash : Address → Bool) (registerCodeHash : Option String)
    (s : Store) (denom : String) : Store × Except String TokenPair :=
  match k.createNewTokenPair hasCodeHash s denom with
  | .error err => (s, .error err)
  | .ok (pair, s) =>
    match k.enableDynamicPrecompile registerCodeHash s pair.getERC20Contract with
    | .error err => (s, .error err)
    | .ok s => (s, .ok pair)

/-- The metadata of a wrapped coin. -/
def coinMetadata (contract : String) (erc20Data : ERC20Data) : Metadata :=
  let base := createDenom contract
  let name := sanitizeERC20Name erc20Data.name
  { description := createDenomDescription contract
    base := base
    denomUnits := { denom := base, exponent := 0 } ::
      if 0 < erc20Data.decimals then
        [{ denom := name, exponent := erc20Data.decimals.toNat }]
      else []
    name := createDenom contract
    symbol := erc20Data.symbol
    display := if 0 < erc20Data.decimals then name else base }

/-- `CreateCoinMetadata`, given what the contract answers to `QueryERC20`. -/
def createCoinMetadata (queryERC20 : Except String ERC20Data) (s : State) (contract : Address) :
    Except String (Metadata × State) :=
  let strContract := k.addressString contract
  queryERC20.bind fun erc20Data =>
    if (s.denomMetadata (createDenom strContract)).isSome then
      .error "denom metadata already registered: internal ethereum token mapping error"
    else if s.store.isDenomRegistered (createDenom strContract) then
      .error ("coin denomination already registered: " ++ erc20Data.name ++
        ": internal ethereum token mapping error")
    else
      let metadata := coinMetadata strContract erc20Data
      match k.validateMetadata metadata with
      | some err =>
        .error ("ERC20 token data is invalid for contract " ++ strContract ++ ": " ++ err)
      | none => .ok (metadata, { s with
          denomMetadata := update s.denomMetadata metadata.base (some metadata) })

/-- `registerERC20`. What was written before an error is still returned. -/
def registerERC20 (queryERC20 : Except String ERC20Data) (s : State) (contract : Address) :
    State × Except String TokenPair :=
  if s.store.isERC20Registered contract then
    (s, .error ("token ERC20 contract already registered: " ++ k.addressString contract ++
      ": token pair already exists"))
  else
    match k.createCoinMetadata queryERC20 s contract with
    | .error err =>
      (s, .error ("failed to create wrapped coin denom metadata for ERC20: " ++ err))
    | .ok (metadata, s) =>
      let pair := k.newTokenPair contract metadata.name .external
      match k.setToken s.store pair with
      | .error err => (s, .error err)
      | .ok store => ({ s with store }, .ok pair)

/-- `toggleConversion`. -/
def toggleConversion (s : Store) (token : String) : Except String (TokenPair × Store) :=
  match s.getTokenPairID token with
  | none | some [] =>
    .error ("token '" ++ token ++ "' not registered by id: token pair not found")
  | some id =>
    match s.getTokenPair id with
    | none => .error ("token '" ++ token ++ "' not registered: token pair not found")
    | some pair =>
      let pair := { pair with enabled := !pair.enabled }
      .ok (pair, k.setTokenPair s pair)

end Keeper

end InfiniteEvm.Erc20
