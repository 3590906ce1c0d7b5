import Std.Data.String.ToInt
import InfiniteEvm.EIP712.Encoding

/-!
# What an EIP-712 signature binds

The typed data of a sign doc is built from its chain id, account number, sequence, messages,
memo, timeout height, fee amount and gas limit. The payer and granter of the fee, the timeout
timestamp and the unordered flag are left behind, and docs that differ only there share
their bytes.
-/

namespace InfiniteEvm.EIP712

open Library Outcomes Option List Function

namespace Decoded

variable {M : Type}

/-- What the typed data of a doc is built from. -/
def signed (x : Decoded M) :
    String × BitVec 64 × BitVec 64 × List M × String × BitVec 64 × Option (Coins × BitVec 64) :=
  (x.chainId, x.accountNumber, x.sequence, x.msgs, x.memo, x.timeoutHeight,
    x.fee.map fun fee => (fee.amount, fee.gasLimit))

/-- What a transaction executes with besides. -/
def unsigned (x : Decoded M) : Option (String × String) × Option Int × Bool :=
  (x.fee.map fun fee => (fee.payer, fee.granter), x.timeoutTimestamp, x.unordered)

/-- Two docs ask for the same execution. -/
structure Agree (x y : Decoded M) : Prop where
  chainId : x.chainId = y.chainId
  accountNumber : x.accountNumber = y.accountNumber
  sequence : x.sequence = y.sequence
  msgs : x.msgs = y.msgs
  memo : x.memo = y.memo
  fee : x.fee = y.fee
  timeoutHeight : x.timeoutHeight = y.timeoutHeight
  timeoutTimestamp : x.timeoutTimestamp = y.timeoutTimestamp
  unordered : x.unordered = y.unordered

theorem fee_eq_of_parts {f g : Option Fee}
    (hsigned : f.map (fun fee => (fee.amount, fee.gasLimit)) =
      g.map fun fee => (fee.amount, fee.gasLimit))
    (hunsigned : f.map (fun fee => (fee.payer, fee.granter)) =
      g.map fun fee => (fee.payer, fee.granter)) : f = g := by
  cases f with
  | none => cases g with
    | none => rfl
    | some fee => simp at hsigned
  | some fee => cases g with
    | none => simp at hsigned
    | some fee' =>
      obtain ⟨amount, gasLimit, payer, granter⟩ := fee
      simp only [map_some, some.injEq, Prod.mk.injEq] at hsigned hunsigned
      simp [hsigned.1, hsigned.2, hunsigned.1, hunsigned.2]

theorem agree_iff {x y : Decoded M} :
    x.Agree y ↔ x.signed = y.signed ∧ x.unsigned = y.unsigned := by
  constructor
  · intro h
    simp [signed, unsigned, h.chainId, h.accountNumber, h.sequence, h.msgs, h.memo, h.fee,
      h.timeoutHeight, h.timeoutTimestamp, h.unordered]
  · rintro ⟨hsigned, hunsigned⟩
    simp only [signed, unsigned, Prod.mk.injEq] at hsigned hunsigned
    obtain ⟨hchain, hnumber, hsequence, hmsgs, hmemo, hheight, hpaid⟩ := hsigned
    obtain ⟨hpayers, htime, hunordered⟩ := hunsigned
    exact ⟨hchain, hnumber, hsequence, hmsgs, hmemo, fee_eq_of_parts hpaid hpayers, hheight,
      htime, hunordered⟩

end Decoded

theorem toFeeAmount_injective : Injective toFeeAmount := by
  apply map_injective_iff.mpr
  intro coin coin' h
  obtain ⟨hdenom, hamount⟩ := Prod.mk.inj h
  exact Prod.ext hdenom (Int.repr_inj.mp hamount)

namespace Codecs

variable {D M : Type} (c : Codecs D M)

/-- What is assumed of the codecs and of the hash. -/
structure Binding : Prop where
  /-- No protobuf sign doc is an amino one. -/
  formats : ∀ {d signDoc msgs}, c.unmarshalSignDoc d = .ok signDoc →
    c.unmarshalAminoMsgs d ≠ .ok msgs
  newAny_inj : ∀ {m m' any}, c.newAny m = .ok any → c.newAny m' = .ok any → m = m'
  /-- The encoder is injective, and writes no address. -/
  signBytes_eq_iff : ∀ {s s' t t' b b'}, c.signBytes s t = .ok b → c.signBytes s' t' = .ok b' →
    (b = b' ↔ (s.chainID, s.accountNumber, s.sequence) = (s'.chainID, s'.accountNumber, s'.sequence)
      ∧ t = t')
  payload : ∀ {s t b}, c.signBytes s t = .ok b → ∃ o msgs, c.parse b = some o ∧ IsPayload o msgs
  parse_inj : ∀ {s s' t t' b b'}, c.signBytes s t = .ok b → c.signBytes s' t' = .ok b' →
    c.parse b = c.parse b' → b = b'
  hash_inj : ∀ {t t' b}, c.typedDataAndHash t = .ok b → c.typedDataAndHash t' = .ok b → t = t'

variable {c} {chainID : BitVec 64} {x y : Decoded M} {t t' : TypedData}

theorem toAnyMsgs_inj (laws : c.Binding) {ms ns : List M} {anys : List Any}
    (hms : c.toAnyMsgs ms = .ok anys) (hns : c.toAnyMsgs ns = .ok anys) : ms = ns := by
  induction ms generalizing ns anys with
  | nil =>
    obtain rfl : [] = anys := by simpa [toAnyMsgs] using hms
    cases ns with
    | nil => rfl
    | cons n ns =>
      simp only [toAnyMsgs] at hns
      split at hns
      · cases hns
      · simp [map_eq_ok] at hns
  | cons m ms ih =>
    simp only [toAnyMsgs] at hms
    split at hms
    · cases hms
    · next any hany =>
      obtain ⟨rest, hrest, rfl⟩ := map_eq_ok.mp hms
      cases ns with
      | nil => simp [toAnyMsgs] at hns
      | cons n ns =>
        simp only [toAnyMsgs] at hns
        split at hns
        · cases hns
        · next any' hany' =>
          obtain ⟨rest', hrest', heq⟩ := map_eq_ok.mp hns
          obtain ⟨rfl, rfl⟩ := cons.inj heq
          rw [laws.newAny_inj hany hany', ih hrest hrest']

/-- A doc that is wrapped went through every step. -/
theorem encodeDoc_ok (h : c.encodeDoc chainID x = .ok t) :
    ∃ anyMsgs fee b, c.toAnyMsgs x.msgs = .ok anyMsgs ∧ x.fee = some fee ∧
      c.signBytes (signerData x) (txData x anyMsgs fee) = .ok b ∧
      c.wrapTxToTypedData chainID b = .ok t := by
  obtain ⟨anyMsgs, hany, hrest⟩ := bind_eq_ok.mp h
  split at hrest
  · cases hrest
  · next fee hfee =>
    split at hrest
    · cases hrest
    · next b hb => exact ⟨anyMsgs, fee, b, hany, hfee, hb, hrest⟩

theorem wrapTxToTypedData_ok {b : D} {o : FMap String Json} (hparse : c.parse b = some o)
    (h : c.wrapTxToTypedData chainID b = .ok t) :
    ∃ n, flattenPayloadMessages o = .ok (t.message, n) := by
  simp only [wrapTxToTypedData, hparse] at h
  obtain ⟨⟨message, n⟩, hflat, hrest⟩ := bind_eq_ok.mp h
  obtain ⟨types, -, rfl⟩ := map_eq_ok.mp hrest
  exact ⟨n, hflat⟩

/-- Typed data determines the sign bytes it was made from. -/
theorem signBytes_eq_of_typedData (laws : c.Binding) {s s' : SignerData} {d d' : TxData}
    {b b' : D} (hb : c.signBytes s d = .ok b) (hb' : c.signBytes s' d' = .ok b')
    (h : c.wrapTxToTypedData chainID b = .ok t) (h' : c.wrapTxToTypedData chainID b' = .ok t) :
    b = b' := by
  obtain ⟨o, msgs, hparse, hpayload⟩ := laws.payload hb
  obtain ⟨o', msgs', hparse', hpayload'⟩ := laws.payload hb'
  obtain ⟨n, hflat⟩ := wrapTxToTypedData_ok hparse h
  obtain ⟨n', hflat'⟩ := wrapTxToTypedData_ok hparse' h'
  apply laws.parse_inj hb hb'
  rw [hparse, hparse', flattenPayloadMessages_inj hpayload hpayload' hflat hflat']

/-- The typed data says what is signed and no more. -/
theorem encodeDoc_eq_iff (laws : c.Binding) (hx : c.encodeDoc chainID x = .ok t)
    (hy : c.encodeDoc chainID y = .ok t') : t = t' ↔ x.signed = y.signed := by
  obtain ⟨anyMsgs, fee, b, hany, hfee, hb, hwrap⟩ := encodeDoc_ok hx
  obtain ⟨anyMsgs', fee', b', hany', hfee', hb', hwrap'⟩ := encodeDoc_ok hy
  have hbytes := laws.signBytes_eq_iff hb hb'
  constructor
  · rintro rfl
    obtain ⟨hids, hdata⟩ := hbytes.mp (signBytes_eq_of_typedData laws hb hb' hwrap hwrap')
    simp only [txData, TxData.mk.injEq] at hdata
    obtain ⟨rfl, hmemo, hheight, hamount, hgas⟩ := hdata
    simp only [signerData, Prod.mk.injEq] at hids
    simp [Decoded.signed, hids.1, hids.2.1, hids.2.2, toAnyMsgs_inj laws hany hany', hmemo,
      hheight, hfee, hfee', toFeeAmount_injective hamount, hgas]
  · intro hsigned
    simp only [Decoded.signed, hfee, hfee', map_some, some.injEq, Prod.mk.injEq] at hsigned
    obtain ⟨hchain, hnumber, hsequence, hmsgs, hmemo, hheight, hamount, hgas⟩ := hsigned
    have hanys : anyMsgs = anyMsgs' := by
      rw [hmsgs, hany'] at hany
      exact (Except.ok.inj hany).symm
    have hb_eq : b = b' := by
      apply hbytes.mpr
      simp [signerData, txData, hchain, hnumber, hsequence, hanys, hmemo, hheight, hamount, hgas]
    rw [hb_eq, hwrap'] at hwrap
    exact (Except.ok.inj hwrap).symm

/-- The bytes of a protobuf doc are those of its typed data. -/
theorem getEIP712BytesForMsg_ok (laws : c.Binding) {d b : D}
    (hdoc : c.decodeSignDoc d = .ok x) (h : c.getEIP712BytesForMsg chainID d = .ok b) :
    ∃ t, c.encodeDoc chainID x = .ok t ∧ c.typedDataAndHash t = .ok b := by
  obtain ⟨t, htyped, hhash⟩ := bind_eq_ok.mp h
  obtain ⟨signDoc, hsignDoc, -⟩ := bind_eq_ok.mp hdoc
  have hamino : (c.decodeAminoSignDoc chainID d).toOption = none := by
    cases hmsgs : c.unmarshalAminoMsgs d with
    | error err => simp [decodeAminoSignDoc, hmsgs, Except.bind, Except.toOption]
    | ok msgs => exact absurd hmsgs (laws.formats hsignDoc)
  simp only [getEIP712TypedDataForMsg, hamino, filter_none] at htyped
  split at htyped
  · next valid hvalid =>
    obtain ⟨hdecoded, -⟩ := filter_eq_some_iff.mp hvalid
    have hproto := toOption_eq_some.mp hdecoded
    simp only [decodeProtobufSignDoc, hdoc, Except.bind] at hproto
    obtain rfl := Except.ok.inj htyped
    refine ⟨valid, hproto, ?_⟩
    split at hhash
    · cases hhash
    · next bytes hbytes => rw [hbytes, Except.ok.inj hhash]
  · cases htyped

/-- Equal bytes make two sign docs agree exactly if docs that are signed alike have the same
payer, granter, timeout timestamp and order. -/
theorem getEIP712BytesForMsg_binds_iff (laws : c.Binding) {d d' b b' : D}
    (hd : c.decodeSignDoc d = .ok x) (hd' : c.decodeSignDoc d' = .ok y)
    (hb : c.getEIP712BytesForMsg chainID d = .ok b)
    (hb' : c.getEIP712BytesForMsg chainID d' = .ok b') :
    (b = b' → x.Agree y) ↔ (x.signed = y.signed → x.unsigned = y.unsigned) := by
  obtain ⟨t, htyped, hhash⟩ := getEIP712BytesForMsg_ok laws hd hb
  obtain ⟨t', htyped', hhash'⟩ := getEIP712BytesForMsg_ok laws hd' hb'
  have hbytes : b = b' ↔ x.signed = y.signed := by
    rw [← encodeDoc_eq_iff laws htyped htyped']
    constructor
    · rintro rfl
      exact laws.hash_inj hhash hhash'
    · rintro rfl
      rw [hhash'] at hhash
      exact (Except.ok.inj hhash).symm
  rw [hbytes, Decoded.agree_iff]
  constructor
  · intro h hsigned
    exact (h hsigned).2
  · intro h hsigned
    exact ⟨hsigned, h hsigned⟩

end Codecs

/-! ## A plain codec -/

/-- The byte strings of a codec that keeps what it encodes. -/
inductive PlainBytes
  | signDoc (chainId : String) (accountNumber : BitVec 64) (body : TxBody) (authInfo : AuthInfo)
  | body (body : TxBody)
  | authInfo (authInfo : AuthInfo)
  | json (payload : FMap String Json)
  | typedData (t : TypedData)

def plainAny (any : Any) : Json :=
  .obj [(any.typeUrl, .arr (any.value.map fun byte => .num (toString byte.toNat)))]

def plainCoin (coin : String × String) : Json :=
  .obj [("denom", .str coin.1), ("amount", .str coin.2)]

/-- The fields of a sign doc that are no messages. -/
def plainFields (s : SignerData) (t : TxData) : List Json :=
  [.str s.chainID, .str (toString s.accountNumber.toNat), .str (toString s.sequence.toNat),
    .str t.memo, .str (toString t.timeoutHeight.toNat), .arr (t.feeAmount.map plainCoin),
    .str (toString t.gasLimit.toNat)]

def plainPayload (s : SignerData) (t : TxData) : FMap String Json :=
  ((∅ : FMap String Json).insert "fields" (.arr (plainFields s t))).insert payloadMsgsField
    (.arr (t.messages.map plainAny))

def plainCodecs : Codecs PlainBytes Any where
  unmarshalSignDoc
    | .signDoc chainId accountNumber body authInfo =>
      .ok { bodyBytes := .body body, authInfoBytes := .authInfo authInfo, chainId, accountNumber }
    | _ => .error "not a sign doc"
  unmarshalAuthInfo
    | .authInfo authInfo => .ok authInfo
    | _ => .error "not an auth info"
  unmarshalBody
    | .body body => .ok body
    | _ => .error "not a body"
  unmarshalAminoMsgs _ := .error "not an amino sign doc"
  unpackMsg := .ok
  unpackPubKey any := .ok any.typeUrl
  getMsgSigners _ := .ok [[1]]
  newAny := .ok
  signBytes s t := .ok (.json (plainPayload s t))
  parse
    | .json payload => some payload
    | _ => none
  createTypes _ _ := .ok [("Tx", [("memo", "string")])]
  typedDataAndHash t := .ok (.typedData t)

theorem plainAny_injective : Injective plainAny := by
  rintro ⟨typeUrl, value⟩ ⟨typeUrl', value'⟩ h
  simp only [plainAny, Json.obj.injEq, cons.injEq, Prod.mk.injEq, Json.arr.injEq, and_true] at h
  have hbytes : Injective fun byte : UInt8 => Json.num (toString byte.toNat) := by
    intro byte byte' hbyte
    exact UInt8.toNat_inj.mp (Nat.repr_inj.mp (Json.num.inj hbyte))
  rw [h.1, map_injective_iff.mpr hbytes h.2]

theorem plainCoin_injective : Injective plainCoin := by
  rintro ⟨denom, amount⟩ ⟨denom', amount'⟩ h
  simpa [plainCoin] using h

theorem plainPayload_get (s : SignerData) (t : TxData) (key : String) :
    (plainPayload s t)[key]? =
      if payloadMsgsField = key then some (.arr (t.messages.map plainAny))
      else if "fields" = key then some (.arr (plainFields s t)) else none := by
  simp [plainPayload, Std.ExtTreeMap.getElem?_insert]

theorem plainPayload_isPayload (s : SignerData) (t : TxData) :
    IsPayload (plainPayload s t) (t.messages.map plainAny) := by
  constructor
  · simp [plainPayload_get]
  · intro i
    have hdigit : ¬['s'] = Nat.toDigits 10 i := by
      intro h
      have hmem : 's' ∈ Nat.toDigits 10 i := by simp [← h]
      exact absurd (Nat.isDigit_of_mem_toDigits (by decide) (by decide) hmem) (by decide)
    simpa [plainPayload_get, payloadMsgsField, msgFieldForIndex, String.ext_iff] using hdigit

theorem plainFields_eq_iff {s s' : SignerData} {t t' : TxData} :
    plainFields s t = plainFields s' t' ↔
      (s.chainID, s.accountNumber, s.sequence) = (s'.chainID, s'.accountNumber, s'.sequence) ∧
        t.memo = t'.memo ∧ t.timeoutHeight = t'.timeoutHeight ∧ t.feeAmount = t'.feeAmount ∧
          t.gasLimit = t'.gasLimit := by
  simp [plainFields, Nat.repr_inj, BitVec.toNat_inj,
    (map_injective_iff.mpr plainCoin_injective).eq_iff, and_assoc]

theorem plainPayload_eq_iff {s s' : SignerData} {t t' : TxData} :
    plainPayload s t = plainPayload s' t' ↔
      (s.chainID, s.accountNumber, s.sequence) = (s'.chainID, s'.accountNumber, s'.sequence) ∧
        t = t' := by
  constructor
  · intro h
    have hmsgs := plainPayload_get s t payloadMsgsField
    have hfields := plainPayload_get s t "fields"
    rw [h, plainPayload_get] at hmsgs hfields
    have hmessages : t'.messages = t.messages :=
      map_injective_iff.mpr plainAny_injective (by simpa using hmsgs)
    obtain ⟨hids, hmemo, hheight, hamount, hgas⟩ :=
      plainFields_eq_iff.mp (by simpa [payloadMsgsField] using hfields)
    cases t'
    simp_all
  · rintro ⟨hids, rfl⟩
    simp [plainPayload, plainFields_eq_iff.mpr ⟨hids, rfl, rfl, rfl, rfl⟩]

theorem plainCodecs_binding : plainCodecs.Binding where
  formats _ := nofun
  newAny_inj h h' := Except.ok.inj (h.trans h'.symm)
  signBytes_eq_iff h h' := by
    cases h
    cases h'
    rw [PlainBytes.json.injEq, plainPayload_eq_iff]
  payload h := by
    cases h
    exact ⟨_, _, rfl, plainPayload_isPayload _ _⟩
  parse_inj h h' hparse := by
    cases h
    cases h'
    exact congrArg PlainBytes.json (some.inj hparse)
  hash_inj h h' := PlainBytes.typedData.inj (Except.ok.inj (h.trans h'.symm))

/-- A sign doc of one message, whose fee is granted by `granter`. -/
def grantedDoc (granter memo : String) : PlainBytes :=
  .signDoc "chain-1" 7
    { messages := [⟨"/cosmos.bank.v1beta1.MsgSend", [1]⟩], memo, timeoutHeight := 0
      timeoutTimestamp := none, unordered := false, extensionOptions := []
      nonCriticalExtensionOptions := [] }
    { signerInfos := [⟨⟨"key", []⟩, 3⟩]
      fee := some { amount := [("stake", 10)], gasLimit := 200000, payer := "", granter } }

/-- What `grantedDoc` says. -/
def grantedDecoded (granter memo : String) : Decoded Any where
  chainId := "chain-1"
  accountNumber := 7
  sequence := 3
  address := "key"
  msgs := [⟨"/cosmos.bank.v1beta1.MsgSend", [1]⟩]
  memo
  timeoutHeight := 0
  timeoutTimestamp := none
  unordered := false
  fee := some { amount := [("stake", 10)], gasLimit := 200000, payer := "", granter }

theorem getEIP712BytesForMsg_grantedDoc (granter granter' : String) :
    plainCodecs.getEIP712BytesForMsg 1 (grantedDoc granter "") =
      plainCodecs.getEIP712BytesForMsg 1 (grantedDoc granter' "") := by
  rfl

theorem getEIP712BytesForMsg_grantedDoc_ok (memo : String)
    (hok : (plainCodecs.getEIP712BytesForMsg 1 (grantedDoc "" memo)).toOption.isSome) :
    ∃ b, plainCodecs.getEIP712BytesForMsg 1 (grantedDoc "" memo) = .ok b := by
  obtain ⟨b, hb⟩ := isSome_iff_exists.mp hok
  exact ⟨b, toOption_eq_some.mp hb⟩

namespace Codecs

/-- A transaction that pays its own fee and one whose fee another account grants have the
same bytes, so that a signature of the first is one of the second. -/
theorem granter_not_bound :
    ∃ b, plainCodecs.getEIP712BytesForMsg 1 (grantedDoc "" "") = .ok b ∧
      plainCodecs.getEIP712BytesForMsg 1 (grantedDoc "granter" "") = .ok b ∧
      plainCodecs.decodeSignDoc (grantedDoc "" "") = .ok (grantedDecoded "" "") ∧
      plainCodecs.decodeSignDoc (grantedDoc "granter" "") = .ok (grantedDecoded "granter" "") ∧
      plainCodecs.Binding ∧ ¬(grantedDecoded "" "").Agree (grantedDecoded "granter" "") ∧
      ∀ (ecdsa : PlainBytes → Unit → Bool) legacy sig, ecdsa b sig = true →
        plainCodecs.verifySignature ecdsa legacy 1 (grantedDoc "granter" "") sig = true := by
  obtain ⟨b, hb⟩ := getEIP712BytesForMsg_grantedDoc_ok "" (by decide +kernel)
  have hgranted : plainCodecs.getEIP712BytesForMsg 1 (grantedDoc "granter" "") = .ok b := by
    rw [← hb, getEIP712BytesForMsg_grantedDoc]
  refine ⟨b, hb, hgranted, rfl, rfl, plainCodecs_binding, fun h => ?_, fun _ _ _ hsig => ?_⟩
  · exact absurd h.fee (by decide)
  · simp only [verifySignature, hgranted, hsig, Bool.true_or, Bool.or_true]

/-- A memo is signed, so that docs with different memos have different bytes. -/
theorem getEIP712BytesForMsg_binds_iff_memo :
    ∃ b b', plainCodecs.getEIP712BytesForMsg 1 (grantedDoc "" "") = .ok b ∧
      plainCodecs.getEIP712BytesForMsg 1 (grantedDoc "" "memo") = .ok b' ∧ b ≠ b' := by
  obtain ⟨b, hb⟩ := getEIP712BytesForMsg_grantedDoc_ok "" (by decide +kernel)
  obtain ⟨b', hb'⟩ := getEIP712BytesForMsg_grantedDoc_ok "memo" (by decide +kernel)
  have hbinds : b = b' → (grantedDecoded "" "").Agree (grantedDecoded "" "memo") :=
    (getEIP712BytesForMsg_binds_iff plainCodecs_binding rfl rfl hb hb').mpr
      fun hsigned => by simp [Decoded.signed, grantedDecoded] at hsigned
  exact ⟨b, b', hb, hb', fun heq => absurd (hbinds heq).memo (by decide)⟩

end Codecs

end InfiniteEvm.EIP712
