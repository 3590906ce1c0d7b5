import Std.Data.String.ToNat
import InfiniteEvm.Bank.Coins
import InfiniteEvm.Library.FiniteMaps
import InfiniteEvm.Library.Outcomes

/-!
# EIP-712 encoding of sign docs

`ethereum/eip712`: a sign doc is decoded, encoded again as an amino sign doc, and that is
wrapped into the typed data whose hash is signed. Codecs and the hash are parameters, over a
type `D` of byte strings and a type `M` of messages.
-/

namespace InfiniteEvm.EIP712

open Library Outcomes

/-- A JSON value. Numbers are kept as they are written. -/
inductive Json
  | null
  | bool (b : Bool)
  | num (text : String)
  | str (s : String)
  | arr (items : List Json)
  | obj (fields : List (String × Json))

/-- A packed protobuf message. -/
structure Any where
  typeUrl : String
  value : List UInt8
  deriving DecidableEq

structure Fee where
  amount : Coins
  gasLimit : BitVec 64
  payer : String
  granter : String
  deriving DecidableEq

structure SignerInfo where
  publicKey : Any
  sequence : BitVec 64

structure AuthInfo where
  signerInfos : List SignerInfo
  fee : Option Fee

structure TxBody where
  messages : List Any
  memo : String
  timeoutHeight : BitVec 64
  timeoutTimestamp : Option Int
  unordered : Bool
  extensionOptions : List Any
  nonCriticalExtensionOptions : List Any

structure SignDoc (D : Type) where
  bodyBytes : D
  authInfoBytes : D
  chainId : String
  accountNumber : BitVec 64

/-- `SignerData`. -/
structure SignerData where
  chainID : String
  accountNumber : BitVec 64
  sequence : BitVec 64
  address : String
  deriving DecidableEq

/-- `TxData`, with the fields that are set. -/
structure TxData where
  messages : List Any
  memo : String
  timeoutHeight : BitVec 64
  feeAmount : List (String × String)
  gasLimit : BitVec 64
  deriving DecidableEq

structure TypedDataDomain where
  name : String
  version : String
  chainId : Int
  verifyingContract : String
  salt : String

/-- The names and types of the fields of each type. -/
abbrev Types := List (String × List (String × String))

structure TypedData where
  types : Types
  primaryType : String
  domain : TypedDataDomain
  message : FMap String Json

/-- The codecs, the JSON parser and the hash, with `createEIP712Types`. -/
structure Codecs (D M : Type) where
  unmarshalSignDoc : D → Except String (SignDoc D)
  unmarshalAuthInfo : D → Except String AuthInfo
  unmarshalBody : D → Except String TxBody
  /-- The messages of an amino sign doc, with its fee decoded too. -/
  unmarshalAminoMsgs : D → Except String (List M)
  unpackMsg : Any → Except String M
  /-- The address of a public key. -/
  unpackPubKey : Any → Except String String
  getMsgSigners : M → Except String (List (List UInt8))
  newAny : M → Except String Any
  /-- `GetSignBytes` of the amino JSON sign mode. -/
  signBytes : SignerData → TxData → Except String D
  /-- The fields of a JSON object. -/
  parse : D → Option (FMap String Json)
  createTypes : FMap String Json → Nat → Except String Types
  /-- The bytes of `TypedDataAndHash`. -/
  typedDataAndHash : TypedData → Except String D

/-! ## Typed data -/

def payloadMsgsField : String := "msgs"

/-- `msgFieldForIndex`. -/
def msgFieldForIndex (i : Nat) : String := "msg" ++ toString i

/-- `getPayloadMessages`. -/
def getPayloadMessages (payload : FMap String Json) : Except String (List Json) :=
  match payload[payloadMsgsField]? with
  | none => .error "no messages found in payload, unable to parse: invalid request"
  | some .null => .ok []
  | some (.arr msgs) => .ok msgs
  | some _ => .error "expected type array of messages, cannot parse: invalid request"

/-- The loop of `FlattenPayloadMessages` from index `i` on. -/
def addMessages (payload : FMap String Json) : Nat → List Json → Except String (FMap String Json)
  | _, [] => .ok payload
  | i, msg :: rest =>
    if (payload[msgFieldForIndex i]?).isSome then
      .error ("malformed payload received, did not expect to find key at field " ++
        msgFieldForIndex i ++ ": invalid request")
    else
      match msg with
      | .obj _ => addMessages (payload.insert (msgFieldForIndex i) msg) (i + 1) rest
      | _ => .error ("msg at index " ++ toString i ++ " is not valid JSON: invalid request")

/-- `FlattenPayloadMessages`, with the number of messages. -/
def flattenPayloadMessages (payload : FMap String Json) : Except String (FMap String Json × Nat) :=
  (getPayloadMessages payload).bind fun msgs =>
    (addMessages payload 0 msgs).map fun flattened =>
      (flattened.erase payloadMsgsField, msgs.length)

/-- `createEIP712Domain`. -/
def createEIP712Domain (chainID : BitVec 64) : TypedDataDomain where
  name := "Cosmos Web3"
  version := "1.0.0"
  chainId := chainID.toInt
  verifyingContract := "cosmos"
  salt := "0"

/-- `isValidEIP712Payload`. A domain is never empty. -/
def isValidEIP712Payload (t : TypedData) : Bool :=
  !t.message.isEmpty && !t.types.isEmpty && t.primaryType != ""

/-! ## Sign docs -/

/-- What a protobuf sign doc says, decoded. -/
structure Decoded (M : Type) where
  chainId : String
  accountNumber : BitVec 64
  sequence : BitVec 64
  address : String
  msgs : List M
  memo : String
  timeoutHeight : BitVec 64
  timeoutTimestamp : Option Int
  unordered : Bool
  fee : Option Fee

/-- `ToFeeAmount`. -/
def toFeeAmount (coins : Coins) : List (String × String) :=
  coins.map fun coin => (coin.1, toString coin.2)

namespace Codecs

variable {D M : Type} (c : Codecs D M)

/-- `WrapTxToTypedData`. -/
def wrapTxToTypedData (chainID : BitVec 64) (data : D) : Except String TypedData :=
  match c.parse data with
  | none => .error "failed to JSON unmarshal data as object"
  | some payload =>
    (flattenPayloadMessages payload).bind fun (message, numPayloadMsgs) =>
      (c.createTypes message numPayloadMsgs).map fun types =>
        { types, primaryType := "Tx", domain := createEIP712Domain chainID, message }

/-- The only signer of a message. -/
def singleSigner (m : M) : Except String (List UInt8) :=
  match c.getMsgSigners m with
  | .error err => .error ("error getting signers. " ++ err)
  | .ok [signer] => .ok signer
  | .ok _ => .error "unable to build EIP-712 payload: expect exactly 1 signer"

/-- The loop of `validatePayloadMessages` after its first message. -/
def validateSigners (msgSigner : List UInt8) : List M → Option String
  | [] => none
  | m :: rest =>
    match c.singleSigner m with
    | .error err => some err
    | .ok signer =>
      if signer ≠ msgSigner then
        some "unable to build EIP-712 payload: multiple signers detected"
      else validateSigners msgSigner rest

/-- `validatePayloadMessages`. -/
def validatePayloadMessages : List M → Option String
  | [] => some "unable to build EIP-712 payload: transaction does contain any messages"
  | m :: rest =>
    match c.singleSigner m with
    | .error err => some err
    | .ok signer => c.validateSigners signer rest

/-- Unpack a list of messages. -/
def unpackMsgs : List Any → Except String (List M)
  | [] => .ok []
  | any :: rest =>
    match c.unpackMsg any with
    | .error err => .error ("could not unpack message object with error " ++ err)
    | .ok m => (unpackMsgs rest).map (m :: ·)

/-- `ToAnyMsgs`. -/
def toAnyMsgs : List M → Except String (List Any)
  | [] => .ok []
  | m :: rest =>
    match c.newAny m with
    | .error err => .error ("failed to convert sdk.Msg to Any: " ++ err)
    | .ok any => (toAnyMsgs rest).map (any :: ·)

/-- The first part of `decodeProtobufSignDoc`: what the doc says, with the fields it does
not support absent. -/
def decodeSignDoc (signDocBytes : D) : Except String (Decoded M) :=
  (c.unmarshalSignDoc signDocBytes).bind fun signDoc =>
    (c.unmarshalAuthInfo signDoc.authInfoBytes).bind fun authInfo =>
      (c.unmarshalBody signDoc.bodyBytes).bind fun body =>
        if body.timeoutHeight ≠ 0 ∨ body.extensionOptions ≠ [] ∨
            body.nonCriticalExtensionOptions ≠ [] then
          .error ("body contains unsupported fields: TimeoutHeight, ExtensionOptions, or " ++
            "NonCriticalExtensionOptions")
        else
          match authInfo.signerInfos with
          | [signerInfo] =>
            (c.unpackMsgs body.messages).bind fun msgs =>
              match c.validatePayloadMessages msgs with
              | some err => .error err
              | none =>
                match c.unpackPubKey signerInfo.publicKey with
                | .error err => .error ("failed to unpack signer public key: " ++ err)
                | .ok address => .ok
                    { chainId := signDoc.chainId
                      accountNumber := signDoc.accountNumber
                      sequence := signerInfo.sequence
                      address := address
                      msgs := msgs
                      memo := body.memo
                      timeoutHeight := body.timeoutHeight
                      timeoutTimestamp := body.timeoutTimestamp
                      unordered := body.unordered
                      fee := authInfo.fee }
          | infos => .error ("invalid number of signer infos provided, expected 1 got " ++
              toString infos.length)

/-- The `SignerData` of a doc. -/
def signerData (x : Decoded M) : SignerData where
  chainID := x.chainId
  accountNumber := x.accountNumber
  sequence := x.sequence
  address := x.address

/-- The `TxData` of a doc, from its packed messages and its fee. -/
def txData (x : Decoded M) (anyMsgs : List Any) (fee : Fee) : TxData where
  messages := anyMsgs
  memo := x.memo
  timeoutHeight := x.timeoutHeight
  feeAmount := toFeeAmount fee.amount
  gasLimit := fee.gasLimit

/-- The second part of `decodeProtobufSignDoc`. A fee of nil is dereferenced. -/
def encodeDoc (chainID : BitVec 64) (x : Decoded M) : Except String TypedData :=
  (c.toAnyMsgs x.msgs).bind fun anyMsgs =>
    match x.fee with
    | none => .error "invalid memory address or nil pointer dereference"
    | some fee =>
      match c.signBytes (signerData x) (txData x anyMsgs fee) with
      | .error err => .error ("failed to get sign bytes using aminojson: " ++ err)
      | .ok signBytes => c.wrapTxToTypedData chainID signBytes

/-- `decodeProtobufSignDoc`. -/
def decodeProtobufSignDoc (chainID : BitVec 64) (signDocBytes : D) : Except String TypedData :=
  (c.decodeSignDoc signDocBytes).bind (c.encodeDoc chainID)

/-- `decodeAminoSignDoc`. -/
def decodeAminoSignDoc (chainID : BitVec 64) (signDocBytes : D) : Except String TypedData :=
  (c.unmarshalAminoMsgs signDocBytes).bind fun msgs =>
    match c.validatePayloadMessages msgs with
    | some err => .error err
    | none =>
      match c.wrapTxToTypedData chainID signDocBytes with
      | .error err => .error ("could not convert to EIP712 representation: " ++ err)
      | .ok t => .ok t

/-- `GetEIP712TypedDataForMsg`. -/
def getEIP712TypedDataForMsg (chainID : BitVec 64) (signDocBytes : D) : Except String TypedData :=
  match (c.decodeAminoSignDoc chainID signDocBytes).toOption.filter isValidEIP712Payload with
  | some t => .ok t
  | none =>
    match (c.decodeProtobufSignDoc chainID signDocBytes).toOption.filter
        isValidEIP712Payload with
    | some t => .ok t
    | none => .error "could not decode sign doc as either Amino or Protobuf."

/-- `GetEIP712BytesForMsg`. -/
def getEIP712BytesForMsg (chainID : BitVec 64) (signDocBytes : D) : Except String D :=
  (c.getEIP712TypedDataForMsg chainID signDocBytes).bind fun t =>
    match c.typedDataAndHash t with
    | .error err => .error ("could not get EIP-712 object bytes: " ++ err)
    | .ok bytes => .ok bytes

/-- `PubKey.VerifySignature`, over the ECDSA verification of one key and the legacy encoding. -/
def verifySignature {S : Type} (verifySignatureECDSA : D → S → Bool)
    (legacyGetEIP712BytesForMsg : D → Except String D) (chainID : BitVec 64) (msg : D) (sig : S) :
    Bool :=
  verifySignatureECDSA msg sig ||
    match c.getEIP712BytesForMsg chainID msg with
    | .error _ => false
    | .ok eip712Bytes =>
      verifySignatureECDSA eip712Bytes sig ||
        match legacyGetEIP712BytesForMsg msg with
        | .error _ => false
        | .ok legacyBytes => verifySignatureECDSA legacyBytes sig

end Codecs

/-! ## Flattening -/

theorem msgFieldForIndex_inj {i j : Nat} (h : msgFieldForIndex i = msgFieldForIndex j) : i = j := by
  have hdigits : toString i = toString j := by
    simpa [msgFieldForIndex, String.ext_iff] using h
  exact Nat.repr_inj.mp hdigits

/-- The loop adds the messages under their keys and leaves the rest. -/
theorem addMessages_get {msgs : List Json} {payload flattened : FMap String Json} {i : Nat}
    (h : addMessages payload i msgs = .ok flattened) :
    (∀ j, j < msgs.length → flattened[msgFieldForIndex (i + j)]? = msgs[j]?) ∧
      ∀ key : String, (∀ j, j < msgs.length → key ≠ msgFieldForIndex (i + j)) →
        flattened[key]? = payload[key]? := by
  induction msgs generalizing payload i with
  | nil =>
    obtain rfl : payload = flattened := by simpa [addMessages] using h
    exact ⟨fun j hj => absurd hj (Nat.not_lt_zero j), fun _ _ => rfl⟩
  | cons msg rest ih =>
    simp only [addMessages] at h
    split at h
    · cases h
    · cases msg with
      | obj fields =>
        obtain ⟨hadded, hkept⟩ := ih h
        constructor
        · intro j hj
          cases j with
          | zero =>
            have hlater : ∀ j, j < rest.length →
                msgFieldForIndex i ≠ msgFieldForIndex (i + 1 + j) := by
              intro j _ heq
              have := msgFieldForIndex_inj heq
              omega
            rw [Nat.add_zero, hkept _ hlater]
            simp
          | succ j =>
            have := hadded j (by simpa using hj)
            rw [show i + (j + 1) = i + 1 + j by omega, this]
            simp
        · intro key hkey
          have hne : msgFieldForIndex i ≠ key := fun heq => hkey 0 (by simp) heq.symm
          have hlater : ∀ j, j < rest.length → key ≠ msgFieldForIndex (i + 1 + j) := by
            intro j hj
            rw [show i + 1 + j = i + (j + 1) by omega]
            exact hkey (j + 1) (by simpa using hj)
          rw [hkept key hlater]
          simp [Std.ExtTreeMap.getElem?_insert, hne]
      | _ => cases h

/-- The payload of a sign doc: its messages are an array, and no other field is named as a
flattened message. -/
structure IsPayload (payload : FMap String Json) (msgs : List Json) : Prop where
  msgs : payload[payloadMsgsField]? = some (.arr msgs)
  clear : ∀ i, payload[msgFieldForIndex i]? = none

/-- What is under each key of a flattened payload. -/
theorem flattenPayloadMessages_get {payload flattened : FMap String Json} {msgs : List Json}
    {n : Nat} (hpayload : IsPayload payload msgs)
    (h : flattenPayloadMessages payload = .ok (flattened, n)) :
    n = msgs.length ∧ (∀ j, flattened[msgFieldForIndex j]? = msgs[j]?) ∧
      ∀ key : String, key ≠ payloadMsgsField → (∀ j, key ≠ msgFieldForIndex j) →
        flattened[key]? = payload[key]? := by
  have hmsgs : getPayloadMessages payload = .ok msgs := by
    simp [getPayloadMessages, hpayload.msgs]
  simp only [flattenPayloadMessages, hmsgs, Except.bind] at h
  obtain ⟨added, hadd, hresult⟩ := map_eq_ok.mp h
  obtain ⟨hadded, hkept⟩ := addMessages_get hadd
  obtain ⟨rfl, rfl⟩ := Prod.mk.inj hresult
  have hfield : ∀ j, payloadMsgsField ≠ msgFieldForIndex j := by
    intro j heq
    have := hpayload.clear j
    simp [← heq, hpayload.msgs] at this
  refine ⟨rfl, fun j => ?_, fun key hkey hother => ?_⟩
  · rw [Std.ExtTreeMap.getElem?_erase]
    simp only [Std.LawfulEqCmp.compare_eq_iff_eq, hfield j, if_false]
    by_cases hj : j < msgs.length
    · simpa using hadded j hj
    · have habsent : msgs[j]? = none := by simpa using hj
      rw [habsent, hkept (msgFieldForIndex j), hpayload.clear]
      intro i hi heq
      have := msgFieldForIndex_inj heq
      omega
  · rw [Std.ExtTreeMap.getElem?_erase]
    simp only [Std.LawfulEqCmp.compare_eq_iff_eq, Ne.symm hkey, if_false]
    exact hkept key fun j _ => by simpa using hother j

/-- Flattening loses nothing. -/
theorem flattenPayloadMessages_inj {p q flattened : FMap String Json} {ms ns : List Json}
    {m n : Nat} (hp : IsPayload p ms) (hq : IsPayload q ns)
    (hflatp : flattenPayloadMessages p = .ok (flattened, m))
    (hflatq : flattenPayloadMessages q = .ok (flattened, n)) : p = q := by
  obtain ⟨-, hmsgsp, hrestp⟩ := flattenPayloadMessages_get hp hflatp
  obtain ⟨-, hmsgsq, hrestq⟩ := flattenPayloadMessages_get hq hflatq
  have hmsgs : ms = ns := by
    ext1 j
    rw [← hmsgsp, ← hmsgsq]
  apply Std.ExtTreeMap.ext_getElem?
  intro key
  by_cases hkey : key = payloadMsgsField
  · rw [hkey, hp.msgs, hq.msgs, hmsgs]
  · by_cases hfield : ∃ j, key = msgFieldForIndex j
    · obtain ⟨j, rfl⟩ := hfield
      rw [hp.clear, hq.clear]
    · have hother : ∀ j, key ≠ msgFieldForIndex j := fun j heq => hfield ⟨j, heq⟩
      rw [← hrestp key hkey hother, ← hrestq key hkey hother]

end InfiniteEvm.EIP712
