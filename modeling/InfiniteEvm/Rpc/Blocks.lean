import InfiniteEvm.Library.Outcomes
import InfiniteEvm.StateDB.Database
import Mathlib.Data.List.Infix

/-!
# CometBFT blocks and their results

What the JSON-RPC layer reads: the transactions of a block, their results, and the
Ethereum messages and responses encoded in them. The encodings are those of protobuf and
of the transaction config, given by a `Codec`.
-/

namespace InfiniteEvm.Rpc

open Library Outcomes List

/-! ## Messages, transactions and results -/

/-- The fields of an Ethereum transaction that blocks, receipts and the indexer read. -/
structure EthTransaction where
  hash : Hash
  type : BitVec 8
  recipient : Option Address
  nonce : BitVec 64
  gas : BitVec 64
  gasFeeCap : Int
  gasTipCap : Int
  deriving DecidableEq

/-- `MsgEthereumTx`. -/
structure MsgEthereumTx where
  sender : Address
  raw : EthTransaction
  deriving DecidableEq

def MsgEthereumTx.hash (msg : MsgEthereumTx) : Hash := msg.raw.hash

/-- `GetGas`. -/
def MsgEthereumTx.getGas (msg : MsgEthereumTx) : BitVec 64 := msg.raw.gas

/-- A message of a transaction. -/
inductive Msg
  | ethereum (msg : MsgEthereumTx)
  | cosmos
  deriving DecidableEq

/-- The type assertion `msg.(*evmtypes.MsgEthereumTx)`. -/
def Msg.ethereum? : Msg → Option MsgEthereumTx
  | .ethereum msg => some msg
  | .cosmos => none

@[simp] theorem Msg.ethereum?_eq_some {m : Msg} {msg : MsgEthereumTx} :
    m.ethereum? = some msg ↔ m = .ethereum msg := by
  cases m <;> simp [Msg.ethereum?]

/-- A decoded transaction: the type URLs of its extension options, and its messages. -/
structure Tx where
  extensionOptions : List String
  msgs : List Msg
  deriving DecidableEq

def Tx.ethereumMsgs (tx : Tx) : List MsgEthereumTx := tx.msgs.filterMap Msg.ethereum?

structure EventAttribute where
  key : String
  value : String
  deriving DecidableEq

structure Event where
  type : String
  attributes : List EventAttribute
  deriving DecidableEq

/-- `ExecTxResult`. Its data is nil or bytes. -/
structure ExecTxResult (D : Type) where
  code : Nat
  data : Option D
  log : String
  gasUsed : BitVec 64
  events : List Event

/-- A block, with its transactions still encoded. -/
structure Block (R : Type) where
  height : Int
  hash : Bytes
  txs : List R

/-- `ResultBlockResults`. -/
structure BlockResults (D : Type) where
  height : Int
  txsResults : List (ExecTxResult D)
  finalizeBlockEvents : List Event

/-- `ethtypes.Log`. -/
structure EthLog extends Log where
  blockNumber : BitVec 64
  txHash : Hash
  blockHash : Hash
  blockTimestamp : BitVec 64
  deriving DecidableEq

/-- `MsgEthereumTxResponse`. Its hash and its logs are written as text and read back. -/
structure MsgEthereumTxResponse where
  hash : Hash
  logs : List EthLog
  vmError : String
  gasUsed : BitVec 64
  blockHash : Bytes
  blockTimestamp : BitVec 64
  deriving DecidableEq

/-- `Failed`. -/
def MsgEthereumTxResponse.failed (rsp : MsgEthereumTxResponse) : Bool := !rsp.vmError.isEmpty

/-- `codectypes.Any`. -/
structure Any (V : Type) where
  typeUrl : String
  value : V

/-- The decoders of transactions, of `TxMsgData` and of the messages in it. No bytes are
the message with no fields. -/
structure Codec (R D V : Type) where
  txDecoder : R → Except String Tx
  unmarshalTxMsgData : D → Except String (List (Any V))
  unmarshalResponse : V → Except String MsgEthereumTxResponse
  noBytes : D
  unmarshal_noBytes : unmarshalTxMsgData noBytes = .ok []

/-! ## Which transactions count -/

/-- `strings.Contains`. -/
def contains (s substr : String) : Bool := decide (substr.toList <:+: s.toList)

def exceedBlockGasLimitError : String := "out of gas in location: block gas meter; gasWanted:"

def stateDBCommitError : String := "failed to commit stateDB"

section Results

variable {D : Type}

/-- `TxExceedBlockGasLimit`. -/
def txExceedBlockGasLimit (res : ExecTxResult D) : Bool :=
  contains res.log exceedBlockGasLimitError

/-- `TxStateDBCommitError`. -/
def txStateDBCommitError (res : ExecTxResult D) : Bool := contains res.log stateDBCommitError

/-- `TxSucessOrExpectedFailure`. -/
def txSucessOrExpectedFailure (res : ExecTxResult D) : Bool :=
  res.code == 0 || txExceedBlockGasLimit res || txStateDBCommitError res

end Results

/-! ## Responses and logs -/

/-- The type URL of `MsgEthereumTxResponse`. -/
def responseTypeUrl : String := "/cosmos.evm.vm.v1.MsgEthereumTxResponse"

namespace Codec

variable {R D V : Type} (c : Codec R D V)

/-- The loop of `DecodeTxResponses`. -/
def collectResponses : List (Any V) → Except String (List MsgEthereumTxResponse)
  | [] => .ok []
  | res :: rest =>
    if res.typeUrl ≠ responseTypeUrl then collectResponses rest
    else
      match c.unmarshalResponse res.value with
      | .error err => .error ("failed to unmarshal tx response message data: " ++ err)
      | .ok response => (collectResponses rest).map (response :: ·)

/-- `DecodeTxResponses`. -/
def decodeTxResponses : Option D → Except String (List MsgEthereumTxResponse)
  | none => .ok []
  | some bytes => (c.unmarshalTxMsgData bytes).bind c.collectResponses

/-- Data without bytes: nil, or an empty slice. -/
def Empty (data : Option D) : Prop := data = none ∨ data = some c.noBytes

theorem decodeTxResponses_empty {data : Option D} (h : c.Empty data) :
    c.decodeTxResponses data = .ok [] := by
  obtain rfl | rfl := h
  · rfl
  · rw [decodeTxResponses, c.unmarshal_noBytes]
    rfl

end Codec

/-- The log of `logsFromTxResponse`: `ToEthereum` drops the time stamp, and the fields of
the transaction and of the block are those of the response, as far as it has them. -/
def filledLog (rsp : MsgEthereumTxResponse) (blockNumber : BitVec 64) (log : EthLog) : EthLog :=
  { log with
    txHash := rsp.hash
    blockNumber := blockNumber
    blockHash := if rsp.blockHash = [] then log.blockHash else bytesToHash rsp.blockHash
    blockTimestamp := if 0 < rsp.blockTimestamp then rsp.blockTimestamp else 0 }

/-- `logsFromTxResponse`. -/
def logsFromTxResponse (rsp : MsgEthereumTxResponse) (blockNumber : BitVec 64) : List EthLog :=
  rsp.logs.map (filledLog rsp blockNumber)

namespace Codec

variable {R D V : Type} (c : Codec R D V)

/-- `DecodeMsgLogs`. -/
def decodeMsgLogs (data : Option D) (msgIndex : Nat) (blockNumber : BitVec 64) :
    Except String (List EthLog) :=
  match c.decodeTxResponses data with
  | .error err => .error err
  | .ok responses =>
    match responses[msgIndex]? with
    | none => .error ("invalid message index: " ++ toString msgIndex)
    | some rsp => .ok (logsFromTxResponse rsp blockNumber)

theorem decodeMsgLogs_empty {data : Option D} (h : c.Empty data) (msgIndex : Nat)
    (blockNumber : BitVec 64) : c.decodeMsgLogs data msgIndex blockNumber =
      .error ("invalid message index: " ++ toString msgIndex) := by
  simp [decodeMsgLogs, c.decodeTxResponses_empty h]

theorem decodeMsgLogs_of_lt {data : Option D} {responses : List MsgEthereumTxResponse}
    {msgIndex : Nat} (h : c.decodeTxResponses data = .ok responses)
    (hlt : msgIndex < responses.length) (blockNumber : BitVec 64) :
    c.decodeMsgLogs data msgIndex blockNumber =
      .ok (logsFromTxResponse responses[msgIndex] blockNumber) := by
  simp [decodeMsgLogs, h, hlt]

/-- `DecodeTxLogs`. -/
def decodeTxLogs (data : Option D) (blockNumber : BitVec 64) : Except String (List EthLog) :=
  (c.decodeTxResponses data).map fun responses =>
    responses.flatMap fun rsp => logsFromTxResponse rsp blockNumber

/-! ## The Ethereum messages of a block -/

/-- The decoded transaction, if its result is a success or an expected failure. -/
def includedTx (raw : R) (res : ExecTxResult D) : Option Tx :=
  if txSucessOrExpectedFailure res then (c.txDecoder raw).toOption else none

/-- The Ethereum messages of the transactions that have a result. -/
def ethMsgs (block : Block R) (blockRes : BlockResults D) : List MsgEthereumTx :=
  (block.txs.zip blockRes.txsResults).flatMap fun p =>
    ((c.includedTx p.1 p.2).map Tx.ethereumMsgs).getD []

/-- `EthMsgsFromCometBlock`, which indexes out of range if a transaction has no result. -/
def ethMsgsFromCometBlock (block : Block R) (blockRes : BlockResults D) :
    Option (List MsgEthereumTx) :=
  if block.txs.length ≤ blockRes.txsResults.length then some (c.ethMsgs block blockRes) else none

end Codec

/-- Where an Ethereum message stands: the position of its transaction in the block, and
its own in the transaction. -/
structure Placement where
  txIndex : Nat
  msgIndex : Nat
  msg : MsgEthereumTx
  deriving DecidableEq

def Tx.placements (txIndex : Nat) (tx : Tx) : List Placement :=
  tx.msgs.zipIdx.filterMap fun m => m.1.ethereum?.map (Placement.mk txIndex m.2)

theorem Tx.placements_map_msg (txIndex : Nat) (tx : Tx) :
    (tx.placements txIndex).map Placement.msg = tx.ethereumMsgs := by
  have hfields : ∀ m : Msg × Nat,
      (m.1.ethereum?.map (Placement.mk txIndex m.2)).map Placement.msg = m.1.ethereum? := by
    intro m
    cases m.1.ethereum? <;> rfl
  calc (tx.placements txIndex).map Placement.msg
      = tx.msgs.zipIdx.filterMap (fun m => m.1.ethereum?) := by
        rw [Tx.placements, map_filterMap]
        exact congrArg (filterMap · _) (funext hfields)
    _ = (tx.msgs.zipIdx.map Prod.fst).filterMap Msg.ethereum? := by
        rw [filterMap_map]
        rfl
    _ = tx.ethereumMsgs := by
        rw [zipIdx_map_fst]
        rfl

theorem Tx.mem_placements {txIndex : Nat} {tx : Tx} {p : Placement} :
    p ∈ tx.placements txIndex ↔
      p.txIndex = txIndex ∧ tx.msgs[p.msgIndex]? = some (.ethereum p.msg) := by
  obtain ⟨i, j, msg⟩ := p
  simp only [Tx.placements, mem_filterMap, Prod.exists, Option.map_eq_some_iff,
    Msg.ethereum?_eq_some, Placement.mk.injEq, mk_mem_zipIdx_iff_getElem?]
  constructor
  · rintro ⟨m, j', hm, msg', rfl, rfl, rfl, rfl⟩
    exact ⟨rfl, hm⟩
  · rintro ⟨rfl, hm⟩
    exact ⟨_, _, hm, _, rfl, rfl, rfl, rfl⟩

namespace Codec

variable {R D V : Type} (c : Codec R D V)

/-- The Ethereum messages of a block with their places, in the order of
`EthMsgsFromCometBlock`. -/
def placements (block : Block R) (blockRes : BlockResults D) : List Placement :=
  (block.txs.zip blockRes.txsResults).zipIdx.flatMap fun q =>
    ((c.includedTx q.1.1 q.1.2).map (Tx.placements q.2)).getD []

theorem placements_map_msg (block : Block R) (blockRes : BlockResults D) :
    (c.placements block blockRes).map Placement.msg = c.ethMsgs block blockRes := by
  have htx : ∀ q : (R × ExecTxResult D) × Nat,
      (((c.includedTx q.1.1 q.1.2).map (Tx.placements q.2)).getD []).map Placement.msg =
        ((c.includedTx q.1.1 q.1.2).map Tx.ethereumMsgs).getD [] := by
    intro q
    cases c.includedTx q.1.1 q.1.2 with
    | none => rfl
    | some tx => exact tx.placements_map_msg q.2
  calc (c.placements block blockRes).map Placement.msg
      = (block.txs.zip blockRes.txsResults).zipIdx.flatMap (fun q =>
          ((c.includedTx q.1.1 q.1.2).map Tx.ethereumMsgs).getD []) := by
        rw [placements, map_flatMap]
        exact congrArg (flatMap · _) (funext htx)
    _ = ((block.txs.zip blockRes.txsResults).zipIdx.map Prod.fst).flatMap (fun p =>
          ((c.includedTx p.1 p.2).map Tx.ethereumMsgs).getD []) := by
        rw [flatMap_map]
    _ = c.ethMsgs block blockRes := by
        rw [zipIdx_map_fst]
        rfl

theorem mem_placements {block : Block R} {blockRes : BlockResults D} {p : Placement} :
    p ∈ c.placements block blockRes ↔ ∃ raw res tx, block.txs[p.txIndex]? = some raw ∧
      blockRes.txsResults[p.txIndex]? = some res ∧ c.includedTx raw res = some tx ∧
      tx.msgs[p.msgIndex]? = some (.ethereum p.msg) := by
  simp only [placements, mem_flatMap, Prod.exists, mk_mem_zipIdx_iff_getElem?, getElem?_zip_eq_some]
  constructor
  · rintro ⟨raw, res, i, ⟨hraw, hres⟩, hp⟩
    cases htx : c.includedTx raw res with
    | none => simp [htx] at hp
    | some tx =>
      rw [htx, Option.map_some, Option.getD_some, Tx.mem_placements] at hp
      obtain ⟨rfl, hmsg⟩ := hp
      exact ⟨raw, res, tx, hraw, hres, htx, hmsg⟩
  · rintro ⟨raw, res, tx, hraw, hres, htx, hmsg⟩
    refine ⟨raw, res, p.txIndex, ⟨hraw, hres⟩, ?_⟩
    rw [htx, Option.map_some, Option.getD_some, Tx.mem_placements]
    exact ⟨rfl, hmsg⟩

end Codec

/-- The codec of a chain that keeps transactions and responses as they are. -/
def Codec.plain : Codec Tx (List (Any MsgEthereumTxResponse)) MsgEthereumTxResponse where
  txDecoder := .ok
  unmarshalTxMsgData := .ok
  unmarshalResponse := .ok
  noBytes := []
  unmarshal_noBytes := rfl

/-- `SafeUint64`. -/
def safeUint64 (value : Int) : Except String (BitVec 64) :=
  if value < 0 then .error ("invalid value: " ++ toString value) else .ok (BitVec.ofInt 64 value)

end InfiniteEvm.Rpc
