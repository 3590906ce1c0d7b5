import InfiniteEvm.Library.Hex
import InfiniteEvm.Rpc.Blocks
import Mathlib.Algebra.BigOperators.Group.List.Basic
import Mathlib.Data.BitVec

/-!
# Receipts

`ReceiptsFromCometBlock` and its two callers: `EthBlockFromCometBlock` asks for the receipts
of all messages of a block, `GetTransactionReceipt` for that of one.
-/

namespace InfiniteEvm.Rpc

open Library Outcomes

/-- `TxResult` of the indexer. -/
structure TxResult where
  height : Int
  txIndex : Nat
  msgIndex : Nat
  ethTxIndex : Int
  failed : Bool
  gasUsed : BitVec 64
  cumulativeGasUsed : BitVec 64
  deriving DecidableEq

/-- `ethtypes.Receipt`, without the blob fields, which are zero. -/
structure Receipt (B : Type) where
  type : BitVec 8
  status : BitVec 64
  cumulativeGasUsed : BitVec 64
  bloom : B
  logs : List EthLog
  txHash : Hash
  contractAddress : Address
  gasUsed : BitVec 64
  effectiveGasPrice : Int
  blockHash : Hash
  blockNumber : Int
  transactionIndex : BitVec 64
  deriving DecidableEq

/-- How a query ends without an answer. -/
inductive QueryFailure
  | err (text : String)
  /-- A run-time panic. -/
  | panic (text : String)
  deriving DecidableEq

def indexOutOfRange : QueryFailure := .panic "runtime error: index out of range"

def nilDereference : QueryFailure :=
  .panic "runtime error: invalid memory address or nil pointer dereference"

/-- `Backend`: the node's block store and queries, the decoders, and the functions of
go-ethereum that receipts use. -/
structure Backend (R D V B : Type) where
  codec : Codec R D V
  /-- `GetTxByEthHash`, from the indexer or from CometBFT. -/
  getTxByEthHash : Hash → Except String TxResult
  /-- The query `BaseFee` of the EVM module at a height. -/
  queryBaseFee : Int → Except String (Option Int)
  newIntFromString : String → Option Int
  createAddress : Address → BitVec 64 → Address
  createBloom : List EthLog → B
  /-- The query `ValidatorAccount` for the proposer of a block. -/
  validatorAccount : Block R → Except String String
  accAddressFromBech32 : String → Except String Bytes
  /-- `BlockMaxGasFromConsensusParams`; an error is logged. -/
  blockMaxGas : Int → Int
  cometBlockByNumber : Int → Except String (Option (Block R))
  blockResults : Int → Except String (BlockResults D)
  getSenderLegacy : MsgEthereumTx → Except String Address
  /-- The transaction is unknown to the mempool, if there is a mempool. -/
  statusUnknown : Hash → Bool

/-- `EffectiveGasPrice`. -/
def effectiveGasPrice (tx : EthTransaction) : Option Int → Int
  | none => tx.gasFeeCap
  | some baseFee =>
    if tx.gasFeeCap < tx.gasTipCap + baseFee then tx.gasFeeCap else tx.gasTipCap + baseFee

def eventTypeFeeMarket : String := "evm_fee_market"

/-- The text of a hash. -/
def hashHex (h : Hash) : String := "0x" ++ String.ofList (Hex.encode (fun _ => false) (hashBytes h))

namespace Backend

variable {R D V B : Type} (b : Backend R D V B)

/-- `BaseFee`. An error is only logged by the callers here. -/
def baseFee (blockRes : BlockResults D) : Option Int :=
  match b.queryBaseFee blockRes.height with
  | .ok (some fee) => some fee
  | _ =>
    -- only the last event of the fee market is looked at
    (blockRes.finalizeBlockEvents.reverse.find? fun event =>
      event.type == eventTypeFeeMarket && !event.attributes.isEmpty).bind fun event =>
        event.attributes.head?.bind fun attr => b.newIntFromString attr.value

/-! ## `ReceiptsFromCometBlock` -/

/-- The receipt of a message whose transaction result is known. -/
def receipt (block : Block R) (blockRes : BlockResults D) (cumulatedGasUsed : BitVec 64)
    (ethMsg : MsgEthereumTx) (txResult : TxResult) : Except QueryFailure (Receipt B) :=
  match blockRes.txsResults[txResult.txIndex]? with
  | none => .error indexOutOfRange
  | some res =>
    match b.codec.decodeMsgLogs res.data txResult.msgIndex (BitVec.ofInt 64 block.height) with
    | .error err => .error (.err ("failed to convert tx result to eth receipt: " ++ err))
    | .ok logs => .ok {
        type := ethMsg.raw.type
        status := if txResult.failed then 0 else 1
        cumulativeGasUsed := cumulatedGasUsed + txResult.gasUsed
        bloom := b.createBloom logs
        logs := logs
        txHash := ethMsg.hash
        contractAddress := match ethMsg.raw.recipient with
          | none => b.createAddress ethMsg.sender ethMsg.raw.nonce
          | some _ => 0
        gasUsed := txResult.gasUsed
        effectiveGasPrice := effectiveGasPrice ethMsg.raw (b.baseFee blockRes)
        blockHash := bytesToHash block.hash
        blockNumber := block.height
        transactionIndex := BitVec.ofInt 64 txResult.ethTxIndex }

/-- The loop of `ReceiptsFromCometBlock`. -/
def receiptsLoop (block : Block R) (blockRes : BlockResults D) :
    BitVec 64 → List MsgEthereumTx → Except QueryFailure (List (Receipt B))
  | _, [] => .ok []
  | cumulatedGasUsed, ethMsg :: rest =>
    match b.getTxByEthHash ethMsg.hash with
    | .error err =>
      .error (.err ("tx not found: hash=" ++ hashHex ethMsg.hash ++ ", error=" ++ err))
    | .ok txResult =>
      (b.receipt block blockRes cumulatedGasUsed ethMsg txResult).bind fun rcpt =>
        (receiptsLoop block blockRes (cumulatedGasUsed + txResult.gasUsed) rest).map (rcpt :: ·)

/-- `ReceiptsFromCometBlock`. -/
def receiptsFromCometBlock (block : Block R) (blockRes : BlockResults D)
    (msgs : List MsgEthereumTx) : Except QueryFailure (List (Receipt B)) :=
  b.receiptsLoop block blockRes 0 msgs

/-! ## `EthBlockFromCometBlock` -/

/-- `MinerFromCometBlock`. -/
def minerFromCometBlock (block : Block R) : Except String Address :=
  match b.validatorAccount block with
  | .error _ => .ok (bytesToAddress (addressBytes 0))
  | .ok accountAddress => (b.accAddressFromBech32 accountAddress).map bytesToAddress

end Backend

/-- `ShouldIgnoreGasUsed`. -/
def shouldIgnoreGasUsed {D : Type} (res : ExecTxResult D) : Bool :=
  res.code == 11 && contains res.log "no block gas left to run tx: out of gas"

/-- An Ethereum block: the header fields that are computed here, and what `NewBlock` is
given for the body and the roots. -/
structure EthBlock (B : Type) where
  number : Int
  coinbase : Address
  gasLimit : Int
  baseFee : Option Int
  gasUsed : BitVec 64
  transactions : List EthTransaction
  receipts : List (Receipt B)
  deriving DecidableEq

/-- The fields of `RPCMarshalReceipt`. -/
structure RPCReceipt (B : Type) where
  blockHash : Hash
  blockNumber : BitVec 64
  transactionHash : Hash
  transactionIndex : BitVec 64
  sender : Address
  recipient : Option Address
  gasUsed : BitVec 64
  cumulativeGasUsed : BitVec 64
  contractAddress : Option Address
  logs : List EthLog
  logsBloom : B
  type : BitVec 8
  effectiveGasPrice : Int
  status : BitVec 64
  deriving DecidableEq

/-- `RPCMarshalReceipt`. -/
def rpcMarshalReceipt {B : Type} (receipt : Receipt B) (tx : EthTransaction) (sender : Address) :
    RPCReceipt B where
  blockHash := receipt.blockHash
  blockNumber := BitVec.ofInt 64 receipt.blockNumber
  transactionHash := tx.hash
  transactionIndex := receipt.transactionIndex
  sender := sender
  recipient := tx.recipient
  gasUsed := receipt.gasUsed
  cumulativeGasUsed := receipt.cumulativeGasUsed
  contractAddress := if receipt.contractAddress = 0 then none else some receipt.contractAddress
  logs := receipt.logs
  logsBloom := receipt.bloom
  type := tx.type
  effectiveGasPrice := receipt.effectiveGasPrice
  status := receipt.status

namespace Backend

variable {R D V B : Type} (b : Backend R D V B) {r : TxResult} {msg : MsgEthereumTx}

/-- `EthBlockFromCometBlock`. -/
def ethBlockFromCometBlock (block : Block R) (blockRes : BlockResults D) :
    Except QueryFailure (EthBlock B) :=
  match b.minerFromCometBlock block with
  | .error _ => .error (.err "failed to get miner(block proposer) address from comet block")
  | .ok miner =>
    match b.codec.ethMsgsFromCometBlock block blockRes with
    | none => .error indexOutOfRange
    | some msgs =>
      match b.receiptsFromCometBlock block blockRes msgs with
      | .error (.err err) => .error (.err ("failed to get receipts from comet block: " ++ err))
      | .error failure => .error failure
      | .ok receipts => .ok {
          number := block.height
          coinbase := miner
          gasLimit := b.blockMaxGas block.height
          baseFee := b.baseFee blockRes
          gasUsed := ((blockRes.txsResults.takeWhile fun res => !shouldIgnoreGasUsed res).map
            ExecTxResult.gasUsed).sum
          transactions := msgs.map MsgEthereumTx.raw
          receipts := receipts }

/-- The receipts of all messages of a block. -/
def blockReceipts (block : Block R) (blockRes : BlockResults D) :
    Except QueryFailure (List (Receipt B)) :=
  match b.codec.ethMsgsFromCometBlock block blockRes with
  | none => .error indexOutOfRange
  | some msgs => b.receiptsFromCometBlock block blockRes msgs

/-! ## `GetTransactionReceipt` -/

/-- The lookups of `GetTransactionReceipt`, from an attempt on: after `maxRetries` retries it
gives up, and halfway if the mempool does not know the transaction. -/
def lookupWithRetries (hash : Hash) (attempt : Nat) : Nat → Except String TxResult
  | 0 => b.getTxByEthHash hash
  | retries + 1 =>
    match b.getTxByEthHash hash with
    | .ok res => .ok res
    | .error err =>
      if attempt = 5 ∧ b.statusUnknown hash then .error err
      else lookupWithRetries hash (attempt + 1) retries

/-- `GetTransactionReceipt`. There is no receipt for a transaction that is not found. -/
def getTransactionReceipt (hash : Hash) : Except QueryFailure (Option (RPCReceipt B)) :=
  match b.lookupWithRetries hash 0 10 with
  | .error _ => .ok none
  | .ok res =>
    match b.cometBlockByNumber res.height with
    | .error err =>
      .error (.err ("block not found at height " ++ toString res.height ++ ": " ++ err))
    | .ok none => .error nilDereference
    | .ok (some block) =>
      match block.txs[res.txIndex]? with
      | none => .error indexOutOfRange
      | some raw =>
        match b.codec.txDecoder raw with
        | .error err => .error (.err ("failed to decode tx: " ++ err))
        | .ok tx =>
          match b.blockResults res.height with
          | .error err => .error (.err ("block result not found at height " ++
              toString res.height ++ ": " ++ err))
          | .ok blockRes =>
            match tx.msgs[res.msgIndex]? with
            | none => .error indexOutOfRange
            | some .cosmos => .error (.panic "interface conversion")
            | some (.ethereum ethMsg) =>
              match b.receiptsFromCometBlock block blockRes [ethMsg] with
              | .error (.err _) =>
                .error (.err "failed to get receipts from comet block")
              | .error failure => .error failure
              | .ok receipts =>
                match b.getSenderLegacy ethMsg, receipts with
                | .error err, _ => .error (.err ("failed to get sender: " ++ err))
                | .ok _, [] => .error indexOutOfRange
                | .ok sender, rcpt :: _ =>
                  .ok (some (rpcMarshalReceipt rcpt ethMsg.raw sender))

/-! ## What the loop returns -/

variable {b} {block : Block R} {blockRes : BlockResults D} {msgs : List MsgEthereumTx}

/-- The gas that `GetTxByEthHash` reports for a list of messages. -/
def gasUsedBy (b : Backend R D V B) (msgs : List MsgEthereumTx) : BitVec 64 :=
  (msgs.map fun msg => ((b.getTxByEthHash msg.hash).toOption.map TxResult.gasUsed).getD 0).sum

theorem gasUsedBy_cons (hr : b.getTxByEthHash msg.hash = .ok r) (rest : List MsgEthereumTx) :
    b.gasUsedBy (msg :: rest) = r.gasUsed + b.gasUsedBy rest := by
  simp [gasUsedBy, hr, Except.toOption]

/-- The gas used before enters a receipt in one field only. -/
theorem receipt_cumulated (cumulated : BitVec 64) (msg : MsgEthereumTx) (r : TxResult) :
    b.receipt block blockRes cumulated msg r = (b.receipt block blockRes 0 msg r).map fun rcpt =>
      { rcpt with cumulativeGasUsed := cumulated + r.gasUsed } := by
  simp only [receipt]
  cases blockRes.txsResults[r.txIndex]? with
  | none => rfl
  | some res =>
    dsimp only
    cases b.codec.decodeMsgLogs res.data r.msgIndex (BitVec.ofInt 64 block.height) <;> rfl

theorem receipt_cumulativeGasUsed {cumulated : BitVec 64} {rcpt : Receipt B}
    (h : b.receipt block blockRes cumulated msg r = .ok rcpt) :
    rcpt.cumulativeGasUsed = cumulated + r.gasUsed := by
  rw [receipt_cumulated] at h
  obtain ⟨_, _, rfl⟩ := map_eq_ok.mp h
  rfl

/-- The result of the transaction at `txIndex` has a response for its message `msgIndex`. -/
def HasResponse (b : Backend R D V B) (block : Block R) (blockRes : BlockResults D)
    (txIndex msgIndex : Nat) : Prop :=
  ∃ res logs, blockRes.txsResults[txIndex]? = some res ∧
    b.codec.decodeMsgLogs res.data msgIndex (BitVec.ofInt 64 block.height) = .ok logs

theorem exists_receipt_iff {c : BitVec 64} {m : MsgEthereumTx} :
    (∃ rcpt, b.receipt block blockRes c m r = .ok rcpt) ↔
      b.HasResponse block blockRes r.txIndex r.msgIndex := by
  simp only [receipt, HasResponse]
  cases blockRes.txsResults[r.txIndex]? with
  | none => simp
  | some res =>
    cases hlogs : b.codec.decodeMsgLogs res.data r.msgIndex (BitVec.ofInt 64 block.height) with
    | error err => simp [hlogs]
    | ok logs => simp [hlogs]

theorem receiptsLoop_eq_ok {cumulated : BitVec 64} {receipts : List (Receipt B)}
    (h : b.receiptsLoop block blockRes cumulated msgs = .ok receipts) :
    receipts.length = msgs.length ∧ ∀ k msg, msgs[k]? = some msg → ∃ r rcpt,
      b.getTxByEthHash msg.hash = .ok r ∧ receipts[k]? = some rcpt ∧
      b.receipt block blockRes (cumulated + b.gasUsedBy (msgs.take k)) msg r = .ok rcpt := by
  induction msgs generalizing cumulated receipts with
  | nil =>
    cases h
    exact ⟨rfl, fun k msg hk => by simp at hk⟩
  | cons msg rest ih =>
    rw [receiptsLoop] at h
    cases hr : b.getTxByEthHash msg.hash with
    | error err => simp [hr] at h
    | ok r =>
      simp only [hr] at h
      obtain ⟨rcpt, hrcpt, hrest⟩ := bind_eq_ok.mp h
      obtain ⟨tail, htail, rfl⟩ := map_eq_ok.mp hrest
      obtain ⟨hlen, hget⟩ := ih htail
      refine ⟨by simp [hlen], fun k msg' hk => ?_⟩
      cases k with
      | zero =>
        obtain rfl : msg = msg' := by simpa using hk
        exact ⟨r, rcpt, hr, rfl, by simpa [gasUsedBy] using hrcpt⟩
      | succ k =>
        obtain ⟨r', rcpt', hr', hk', hrcpt'⟩ := hget k msg' (by simpa using hk)
        refine ⟨r', rcpt', hr', hk', ?_⟩
        rw [List.take_succ_cons, gasUsedBy_cons hr, ← add_assoc]
        exact hrcpt'

theorem exists_receipts (cumulated : BitVec 64)
    (h : ∀ msg ∈ msgs, ∃ r, b.getTxByEthHash msg.hash = .ok r ∧
      b.HasResponse block blockRes r.txIndex r.msgIndex) :
    ∃ receipts, b.receiptsLoop block blockRes cumulated msgs = .ok receipts := by
  induction msgs generalizing cumulated with
  | nil => exact ⟨[], rfl⟩
  | cons msg rest ih =>
    obtain ⟨r, hr, hresponse⟩ := h msg (List.mem_cons_self ..)
    obtain ⟨rcpt, hrcpt⟩ :=
      (exists_receipt_iff (c := cumulated) (m := msg)).mpr hresponse
    obtain ⟨tail, htail⟩ := ih (cumulated + r.gasUsed)
      fun msg' hmsg' => h msg' (List.mem_cons_of_mem _ hmsg')
    refine ⟨rcpt :: tail, ?_⟩
    simp only [receiptsLoop, hr, hrcpt, htail]
    rfl

/-! ## Blocks whose messages are found -/

/-- `GetTxByEthHash` finds every Ethereum message of the block at its own place. -/
structure Resolves (b : Backend R D V B) (block : Block R) (blockRes : BlockResults D) : Prop where
  found : ∀ (k : Nat) p, (b.codec.placements block blockRes)[k]? = some p →
    ∃ r, b.getTxByEthHash p.msg.hash = .ok r ∧ r.height = block.height ∧
      r.txIndex = p.txIndex ∧ r.msgIndex = p.msgIndex ∧ r.ethTxIndex = k

theorem blockReceipts_eq_ok {receipts : List (Receipt B)} :
    b.blockReceipts block blockRes = .ok receipts ↔
      block.txs.length ≤ blockRes.txsResults.length ∧
        b.receiptsFromCometBlock block blockRes (b.codec.ethMsgs block blockRes) =
          .ok receipts := by
  unfold blockReceipts Codec.ethMsgsFromCometBlock
  split_ifs with hlen <;> simp [hlen]

theorem Resolves.exists_receipts_iff (h : Resolves b block blockRes) :
    (∃ receipts, b.blockReceipts block blockRes = .ok receipts) ↔
      block.txs.length ≤ blockRes.txsResults.length ∧
        ∀ p ∈ b.codec.placements block blockRes,
          b.HasResponse block blockRes p.txIndex p.msgIndex := by
  simp only [blockReceipts_eq_ok, exists_and_left]
  refine and_congr_right fun _ => ?_
  rw [← b.codec.placements_map_msg]
  constructor
  · rintro ⟨receipts, hreceipts⟩ p hp
    obtain ⟨k, hk⟩ := List.mem_iff_getElem?.mp hp
    obtain ⟨r, hr, -, htx, hmsg, -⟩ := h.found k p hk
    obtain ⟨-, hget⟩ := receiptsLoop_eq_ok hreceipts
    obtain ⟨r', rcpt, hr', -, hrcpt⟩ := hget k p.msg (by simp [hk])
    obtain rfl : r = r' := Except.ok.inj (hr.symm.trans hr')
    rw [← htx, ← hmsg]
    exact exists_receipt_iff.mp ⟨rcpt, hrcpt⟩
  · intro hall
    apply exists_receipts
    intro msg hmsg
    obtain ⟨p, hp, rfl⟩ := List.mem_map.mp hmsg
    obtain ⟨k, hk⟩ := List.mem_iff_getElem?.mp hp
    obtain ⟨r, hr, -, htx, hmsgIndex, -⟩ := h.found k p hk
    refine ⟨r, hr, ?_⟩
    rw [htx, hmsgIndex]
    exact hall p hp

end Backend

end InfiniteEvm.Rpc
