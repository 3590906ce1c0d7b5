import InfiniteEvm.Rpc.Receipts

/-!
# Receipts of a block and of a transaction

When the receipts of a block can be retrieved, and when the two endpoints give the same
receipt.
-/

namespace InfiniteEvm.Rpc

open Library Outcomes List Codec Option

variable {R D V B : Type} {r : TxResult} {c : Codec R D V} {msg : MsgEthereumTx}

/-! ## Executed blocks -/

/-- What executing a transaction leaves as its result: a successful Ethereum transaction
has one response for each message, a failed transaction has no data, and a Cosmos
transaction has no Ethereum response. -/
inductive Executed (c : Codec R D V) (raw : R) (res : ExecTxResult D) : Prop
  | ethereum (tx : Tx) (msgs : List MsgEthereumTx) (responses : List MsgEthereumTxResponse)
      (decoded : c.txDecoder raw = .ok tx) (only : tx.msgs = msgs.map .ethereum)
      (code : res.code = 0) (data : c.decodeTxResponses res.data = .ok responses)
      (each : responses.length = msgs.length)
  | failed (code : res.code ≠ 0) (data : c.Empty res.data)
  | cosmos (tx : Tx) (decoded : c.txDecoder raw = .ok tx) (only : tx.ethereumMsgs = [])
      (code : res.code = 0) (data : c.decodeTxResponses res.data = .ok [])

/-- Every transaction of the block has the result of executing it. -/
structure ExecutedBlock (c : Codec R D V) (block : Block R) (blockRes : BlockResults D) :
    Prop where
  length_eq : blockRes.txsResults.length = block.txs.length
  executed : ∀ (i : Nat) raw res, block.txs[i]? = some raw →
    blockRes.txsResults[i]? = some res → Executed c raw res

theorem includedTx_eq_some {raw : R} {res : ExecTxResult D} {tx : Tx} :
    c.includedTx raw res = some tx ↔
      txSucessOrExpectedFailure res = true ∧ c.txDecoder raw = .ok tx := by
  rw [includedTx]
  split <;> simp_all [toOption_eq_some]

theorem Tx.ethereumMsgs_of_getElem? {tx : Tx} {j : Nat} (h : tx.msgs[j]? = some (.ethereum msg)) :
    msg ∈ tx.ethereumMsgs :=
  mem_filterMap.mpr ⟨_, mem_iff_getElem?.mpr ⟨j, h⟩, rfl⟩

/-! ## A node with one block -/

/-- A node that keeps one block and finds its Ethereum messages by their hashes. -/
def Backend.node (block : Block Tx) (blockRes : BlockResults (List (Any MsgEthereumTxResponse))) :
    Backend Tx (List (Any MsgEthereumTxResponse)) MsgEthereumTxResponse Unit where
  codec := .plain
  getTxByEthHash hash :=
    match (plain.placements block blockRes).zipIdx.find? (fun q => q.1.msg.hash == hash) with
    | none => .error "tx not found"
    | some (p, k) => .ok {
        height := block.height
        txIndex := p.txIndex
        msgIndex := p.msgIndex
        ethTxIndex := k
        failed := (blockRes.txsResults[p.txIndex]?.map fun res => res.code != 0).getD false
        gasUsed := p.msg.getGas
        cumulativeGasUsed := p.msg.getGas }
  queryBaseFee _ := .ok (some 1)
  newIntFromString _ := none
  createAddress _ _ := 0
  createBloom _ := ()
  validatorAccount _ := .error "not found"
  accAddressFromBech32 _ := .error "decoding bech32 failed"
  blockMaxGas _ := -1
  cometBlockByNumber height := if height = block.height then .ok (some block) else .error "no block"
  blockResults height := if height = block.height then .ok blockRes else .error "no results"
  getSenderLegacy msg := .ok msg.sender
  statusUnknown _ := false

theorem Backend.node_resolves {block : Block Tx}
    {blockRes : BlockResults (List (Any MsgEthereumTxResponse))}
    (hd : ((plain.placements block blockRes).map fun p => p.msg.hash).Nodup) :
    (node block blockRes).Resolves block blockRes where
  found := by
    intro k p hk
    change (plain.placements block blockRes)[k]? = some p at hk
    have hmem : (p, k) ∈ (plain.placements block blockRes).zipIdx :=
      List.mk_mem_zipIdx_iff_getElem?.mpr hk
    have hfind : (plain.placements block blockRes).zipIdx.find?
        (fun q => q.1.msg.hash == p.msg.hash) = some (p, k) := by
      cases hq : (plain.placements block blockRes).zipIdx.find?
          (fun q => q.1.msg.hash == p.msg.hash) with
      | none => simpa using List.find?_eq_none.mp hq (p, k) hmem
      | some q =>
        obtain ⟨p', k'⟩ := q
        have hhash : p'.msg.hash = p.msg.hash := by simpa using List.find?_some hq
        have hk' := List.mk_mem_zipIdx_iff_getElem?.mp (List.mem_of_find?_eq_some hq)
        obtain ⟨hlt, -⟩ := List.getElem?_eq_some_iff.mp hk'
        obtain rfl : k' = k := by
          refine (List.getElem?_inj (by simpa using hlt) hd).mp ?_
          simp [hk, hk', hhash]
        rw [some.inj (hk'.symm.trans hk)]
    simp only [node, hfind]
    exact ⟨_, rfl, rfl, rfl, rfl, rfl⟩

/-- A transfer, told by its hash. -/
def transfer (hash : Hash) : MsgEthereumTx where
  sender := 1
  raw := {
    hash := hash
    type := 0
    recipient := some 2
    nonce := 0
    gas := 21000
    gasFeeCap := 1
    gasTipCap := 0 }

def transferTx (hash : Hash) : Tx where
  extensionOptions := ["/cosmos.evm.vm.v1.ExtensionOptionsEthereumTx"]
  msgs := [.ethereum (transfer hash)]

def transferResponse (hash : Hash) : MsgEthereumTxResponse where
  hash := hash
  logs := []
  vmError := ""
  gasUsed := 21000
  blockHash := []
  blockTimestamp := 1

/-- The result of a transfer that succeeded. -/
def transferred (hash : Hash) : ExecTxResult (List (Any MsgEthereumTxResponse)) where
  code := 0
  data := some [{ typeUrl := responseTypeUrl, value := transferResponse hash }]
  log := ""
  gasUsed := 21000
  events := []

/-- The result of a transaction for which the block has no gas left. -/
def outOfBlockGas : ExecTxResult (List (Any MsgEthereumTxResponse)) where
  code := 11
  data := none
  log := "out of gas in location: block gas meter; gasWanted: 21000, gasUsed: 21000"
  gasUsed := 21000
  events := []

theorem executed_transferred (hash : Hash) : Executed plain (transferTx hash) (transferred hash) :=
  .ethereum (transferTx hash) [transfer hash] [transferResponse hash] rfl rfl rfl rfl rfl

theorem executed_outOfBlockGas (tx : Tx) : Executed plain tx outOfBlockGas :=
  .failed (by decide) (.inl rfl)

theorem codes_of_all {blockRes : BlockResults D} {places : List Placement}
    (h : (places.all fun p =>
      blockRes.txsResults[p.txIndex]?.all fun res => res.code == 0) = true) :
    ∀ p ∈ places, ∀ res, blockRes.txsResults[p.txIndex]? = some res → res.code = 0 := by
  intro p hp res hres
  simpa [hres] using all_eq_true.mp h p hp

theorem executedBlock_pair {raw raw' : R} {res res' : ExecTxResult D} (h : Executed c raw res)
    (h' : Executed c raw' res') (height : Int) (hash : Bytes) (events : List Event) :
    ExecutedBlock c ⟨height, hash, [raw, raw']⟩ ⟨height, [res, res'], events⟩ where
  length_eq := rfl
  executed := by
    rintro (_ | _ | i) raw res hraw hres
    · obtain ⟨rfl, rfl⟩ : _ ∧ _ := ⟨some.inj hraw, some.inj hres⟩
      exact h
    · obtain ⟨rfl, rfl⟩ : _ ∧ _ := ⟨some.inj hraw, some.inj hres⟩
      exact h'
    · simp at hraw

namespace Backend

variable {b : Backend R D V B} {block : Block R} {blockRes : BlockResults D}

/-- An Ethereum message of an executed block has a response exactly if its transaction did
not fail. -/
theorem hasResponse_iff (hexec : ExecutedBlock b.codec block blockRes) {p : Placement}
    (hp : p ∈ b.codec.placements block blockRes) :
    b.HasResponse block blockRes p.txIndex p.msgIndex ↔
      ∀ res, blockRes.txsResults[p.txIndex]? = some res → res.code = 0 := by
  obtain ⟨raw, res, tx, hraw, hres, htx, hmsg⟩ := b.codec.mem_placements.mp hp
  obtain ⟨-, hdecoded⟩ := includedTx_eq_some.mp htx
  have hone : (∀ res', blockRes.txsResults[p.txIndex]? = some res' → res'.code = 0) ↔
      res.code = 0 := by
    simp [hres]
  rw [hone]
  cases hexec.executed p.txIndex raw res hraw hres with
  | ethereum tx' msgs responses hdecoded' honly hcode hdata heach =>
    obtain rfl : tx' = tx := Except.ok.inj (hdecoded'.symm.trans hdecoded)
    have hlt : p.msgIndex < responses.length := by
      rw [heach]
      simpa [honly] using (List.getElem?_eq_some_iff.mp hmsg).1
    exact iff_of_true ⟨res, _, hres, b.codec.decodeMsgLogs_of_lt hdata hlt _⟩ hcode
  | failed hcode hdata =>
    refine iff_of_false ?_ hcode
    rintro ⟨res', logs, hres', hlogs⟩
    obtain rfl : res = res' := some.inj (hres.symm.trans hres')
    rw [b.codec.decodeMsgLogs_empty hdata] at hlogs
    cases hlogs
  | cosmos tx' hdecoded' honly hcode hdata =>
    obtain rfl : tx' = tx := Except.ok.inj (hdecoded'.symm.trans hdecoded)
    have hmem := Tx.ethereumMsgs_of_getElem? hmsg
    simp [honly] at hmem

/-! ## The receipts of a block -/

/-- The receipts of all messages of the block are there, one for each, those of the expected
failures as failed and without logs, and with them the Ethereum block. -/
structure Retrieved (b : Backend R D V B) (block : Block R) (blockRes : BlockResults D)
    (receipts : List (Receipt B)) : Prop where
  receipts_eq : b.blockReceipts block blockRes = .ok receipts
  length_eq : receipts.length = (b.codec.ethMsgs block blockRes).length
  expected : ∀ (k : Nat) p res rcpt, (b.codec.placements block blockRes)[k]? = some p →
    blockRes.txsResults[p.txIndex]? = some res → res.code ≠ 0 → receipts[k]? = some rcpt →
    rcpt.status = 0 ∧ rcpt.logs = []
  ethBlock : ∀ miner, b.minerFromCometBlock block = .ok miner →
    ∃ ethBlock, b.ethBlockFromCometBlock block blockRes = .ok ethBlock

theorem exists_ethBlock {receipts : List (Receipt B)} {miner : Address}
    (hreceipts : b.blockReceipts block blockRes = .ok receipts)
    (hminer : b.minerFromCometBlock block = .ok miner) :
    ∃ ethBlock, b.ethBlockFromCometBlock block blockRes = .ok ethBlock := by
  obtain ⟨hlen, hreceipts⟩ := blockReceipts_eq_ok.mp hreceipts
  simp only [ethBlockFromCometBlock, hminer, Codec.ethMsgsFromCometBlock, if_pos hlen, hreceipts]
  exact ⟨_, rfl⟩

/-- The receipts of an executed block are retrieved exactly if none of its Ethereum messages
is in a failed transaction. -/
theorem receipts_retrieved_iff (hexec : ExecutedBlock b.codec block blockRes)
    (hfound : Resolves b block blockRes) :
    (∃ receipts, Retrieved b block blockRes receipts) ↔
      ∀ p ∈ b.codec.placements block blockRes, ∀ res,
        blockRes.txsResults[p.txIndex]? = some res → res.code = 0 := by
  have hall : (∀ p ∈ b.codec.placements block blockRes,
      b.HasResponse block blockRes p.txIndex p.msgIndex) ↔
      ∀ p ∈ b.codec.placements block blockRes, ∀ res,
        blockRes.txsResults[p.txIndex]? = some res → res.code = 0 :=
    forall₂_congr fun p hp => hasResponse_iff hexec hp
  have hiff := hfound.exists_receipts_iff.trans (and_iff_right hexec.length_eq.ge)
  rw [← hall, ← hiff]
  constructor
  · rintro ⟨receipts, h⟩
    exact ⟨receipts, h.receipts_eq⟩
  · rintro ⟨receipts, hreceipts⟩
    have hcodes := hall.mp (hiff.mp ⟨receipts, hreceipts⟩)
    have hloop := (blockReceipts_eq_ok.mp hreceipts).2
    refine ⟨receipts, hreceipts, (receiptsLoop_eq_ok hloop).1, ?_, ?_⟩
    · intro k p res rcpt hk hres hcode
      exact absurd (hcodes p (mem_of_getElem? hk) res hres) hcode
    · intro miner hminer
      exact exists_ethBlock hreceipts hminer

/-- A block with two transfers. -/
def twoTransfers : Block Tx := ⟨1, [], [transferTx 1, transferTx 2]⟩

/-- The receipts of a block are lost with a transfer for which it had no gas left, and the
Ethereum block with them. -/
theorem receipts_lost : let blockRes := ⟨1, [transferred 1, outOfBlockGas], []⟩
    ExecutedBlock plain twoTransfers blockRes ∧
    Resolves (node twoTransfers blockRes) twoTransfers blockRes ∧
    (node twoTransfers blockRes).ethBlockFromCometBlock twoTransfers blockRes =
      .error (.err ("failed to get receipts from comet block: " ++
        "failed to convert tx result to eth receipt: invalid message index: 0")) := by
  refine ⟨?_, ?_, ?_⟩
  · exact executedBlock_pair (executed_transferred 1) (executed_outOfBlockGas _) 1 [] []
  · exact node_resolves (by decide +kernel)
  · decide +kernel

/-- The transaction that fails with another error is not among the messages. -/
theorem receipts_retrieved_iff_other_failure :
    let blockRes := ⟨1, [transferred 1, { outOfBlockGas with log := "invalid nonce" }], []⟩
    ∃ receipts, Retrieved (node twoTransfers blockRes) twoTransfers blockRes receipts := by
  refine (receipts_retrieved_iff ?_ ?_).mpr ?_
  · exact executedBlock_pair (executed_transferred 1) (.failed (by decide) (.inl rfl)) 1 [] []
  · exact node_resolves (by decide +kernel)
  · exact codes_of_all (by decide +kernel)

/-! ## The receipt of a transaction -/

/-- The node has the block and its results, and recovers the senders. -/
structure Serves (b : Backend R D V B) (block : Block R) (blockRes : BlockResults D) : Prop where
  block_eq : b.cometBlockByNumber block.height = .ok (some block)
  results_eq : b.blockResults block.height = .ok blockRes
  senders : ∀ msg ∈ b.codec.ethMsgs block blockRes,
    ∃ sender, b.getSenderLegacy msg = .ok sender

theorem lookupWithRetries_of_ok {hash : Hash} (h : b.getTxByEthHash hash = .ok r)
    (attempt retries : Nat) : b.lookupWithRetries hash attempt retries = .ok r := by
  cases retries with
  | zero => exact h
  | succ retries => simp [lookupWithRetries, h]

theorem getTransactionReceipt_of_ok (hserved : Serves b block blockRes) {p : Placement}
    (hp : p ∈ b.codec.placements block blockRes) {sender : Address} {rcpt : Receipt B}
    (hr : b.getTxByEthHash p.msg.hash = .ok r) (hheight : r.height = block.height)
    (htx : r.txIndex = p.txIndex) (hmsg : r.msgIndex = p.msgIndex)
    (hsender : b.getSenderLegacy p.msg = .ok sender)
    (hrcpt : b.receipt block blockRes 0 p.msg r = .ok rcpt) :
    b.getTransactionReceipt p.msg.hash = .ok (some (rpcMarshalReceipt rcpt p.msg.raw sender)) := by
  obtain ⟨raw, res, tx, hraw, hres, hincluded, hget⟩ := b.codec.mem_placements.mp hp
  obtain ⟨-, hdecoded⟩ := includedTx_eq_some.mp hincluded
  have hreceipts : b.receiptsFromCometBlock block blockRes [p.msg] = .ok [rcpt] := by
    simp only [receiptsFromCometBlock, receiptsLoop, hr, hrcpt]
    rfl
  simp only [getTransactionReceipt, lookupWithRetries_of_ok hr, hheight, hserved.block_eq, htx,
    hraw, hdecoded, hserved.results_eq, hmsg, hget, hreceipts, hsender]

/-- The receipt of the message at position `k` is the same from both endpoints, and its
cumulative gas is that of the block's messages up to it. -/
def AgreesAt (b : Backend R D V B) (block : Block R) (blockRes : BlockResults D) (k : Nat)
    (msg : MsgEthereumTx) : Prop :=
  ∃ receipts rcpt sender,
    b.blockReceipts block blockRes = .ok receipts ∧ receipts[k]? = some rcpt ∧
    b.getSenderLegacy msg = .ok sender ∧
    b.getTransactionReceipt msg.hash = .ok (some (rpcMarshalReceipt rcpt msg.raw sender)) ∧
    rcpt.cumulativeGasUsed = b.gasUsedBy ((b.codec.ethMsgs block blockRes).take (k + 1))

theorem gasUsedBy_take_succ {msgs : List MsgEthereumTx} {k : Nat} (hk : msgs[k]? = some msg)
    (hr : b.getTxByEthHash msg.hash = .ok r) :
    b.gasUsedBy (msgs.take (k + 1)) = b.gasUsedBy (msgs.take k) + r.gasUsed := by
  obtain ⟨hlt, rfl⟩ := List.getElem?_eq_some_iff.mp hk
  rw [List.take_succ_eq_append_getElem hlt, gasUsedBy, List.map_append, List.sum_append]
  simp [hr, Except.toOption, gasUsedBy]

/-- The endpoints agree on a message exactly if the block's results and receipts are there and
the messages before it used no gas. -/
theorem receipts_agree_iff (hfound : Resolves b block blockRes)
    (hserved : Serves b block blockRes) {k : Nat} {msg : MsgEthereumTx}
    (hk : (b.codec.ethMsgs block blockRes)[k]? = some msg) :
    AgreesAt b block blockRes k msg ↔
      (block.txs.length ≤ blockRes.txsResults.length ∧
        ∀ p ∈ b.codec.placements block blockRes,
          b.HasResponse block blockRes p.txIndex p.msgIndex) ∧
      b.gasUsedBy ((b.codec.ethMsgs block blockRes).take k) = 0 := by
  have hmsgs := b.codec.placements_map_msg block blockRes
  obtain ⟨p, hpk, rfl⟩ : ∃ p, (b.codec.placements block blockRes)[k]? = some p ∧ p.msg = msg := by
    simpa [← hmsgs] using hk
  have hp := mem_of_getElem? hpk
  obtain ⟨r, hr, hheight, htx, hmsgIndex, -⟩ := hfound.found k p hpk
  obtain ⟨sender, hsender⟩ := hserved.senders p.msg (mem_of_getElem? hk)
  rw [← hfound.exists_receipts_iff]
  -- the receipt of the loop and the one built alone differ in the gas used before
  have hboth : ∀ receipts, b.blockReceipts block blockRes = .ok receipts → ∃ rcpt,
      b.getTransactionReceipt p.msg.hash = .ok (some (rpcMarshalReceipt rcpt p.msg.raw sender)) ∧
      rcpt.cumulativeGasUsed = r.gasUsed ∧
      receipts[k]? = some { rcpt with
        cumulativeGasUsed := b.gasUsedBy ((b.codec.ethMsgs block blockRes).take k) +
          r.gasUsed } := by
    intro receipts hreceipts
    obtain ⟨r', rcpt, hr', hrcpt, hloop⟩ :=
      (receiptsLoop_eq_ok (blockReceipts_eq_ok.mp hreceipts).2).2 k p.msg hk
    obtain rfl : r = r' := Except.ok.inj (hr.symm.trans hr')
    rw [receipt_cumulated] at hloop
    obtain ⟨alone, halone, rfl⟩ := map_eq_ok.mp hloop
    refine ⟨alone, ?_, ?_, ?_⟩
    · exact getTransactionReceipt_of_ok hserved hp hr hheight htx hmsgIndex hsender halone
    · simpa using receipt_cumulativeGasUsed halone
    · simpa using hrcpt
  constructor
  · rintro ⟨receipts, rcpt, sender', hreceipts, hrcpt, hsender', hget, -⟩
    refine ⟨⟨receipts, hreceipts⟩, ?_⟩
    obtain ⟨alone, halone, hgas, hsame⟩ := hboth receipts hreceipts
    obtain rfl := some.inj (hrcpt.symm.trans hsame)
    have hcumulative := congrArg RPCReceipt.cumulativeGasUsed
      (some.inj (Except.ok.inj (halone.symm.trans hget)))
    simpa [rpcMarshalReceipt, hgas] using hcumulative
  · rintro ⟨⟨receipts, hreceipts⟩, hzero⟩
    obtain ⟨alone, halone, hgas, hsame⟩ := hboth receipts hreceipts
    refine ⟨receipts, alone, sender, hreceipts, ?_, hsender, halone, ?_⟩
    · rw [hsame, hzero, zero_add, ← hgas]
    · rw [hgas, gasUsedBy_take_succ hk hr, hzero, zero_add]

theorem node_serves {block : Block Tx}
    {blockRes : BlockResults (List (Any MsgEthereumTxResponse))} :
    Serves (node block blockRes) block blockRes where
  block_eq := by simp [node]
  results_eq := by simp [node]
  senders msg _ := ⟨msg.sender, rfl⟩

/-- The second transfer of a block has a cumulative gas of 42000 in the block's receipts and
of 21000 in its own. -/
theorem receipts_disagree : let blockRes := ⟨1, [transferred 1, transferred 2], []⟩
    Resolves (node twoTransfers blockRes) twoTransfers blockRes ∧
    Serves (node twoTransfers blockRes) twoTransfers blockRes ∧
    ((node twoTransfers blockRes).blockReceipts twoTransfers blockRes).map
        (fun receipts => receipts.map Receipt.cumulativeGasUsed) = .ok [21000, 42000] ∧
    ((node twoTransfers blockRes).getTransactionReceipt 2).map
      (fun rcpt => rcpt.map RPCReceipt.cumulativeGasUsed) = .ok (some 21000) := by
  refine ⟨node_resolves (by decide +kernel), node_serves, ?_, ?_⟩
  · decide +kernel
  · decide +kernel

/-- The first transfer of a block. -/
theorem receipts_agree_iff_first : let blockRes := ⟨1, [transferred 1, transferred 2], []⟩
    AgreesAt (node twoTransfers blockRes) twoTransfers blockRes 0 (transfer 1) := by
  refine (receipts_agree_iff (node_resolves (by decide +kernel)) node_serves
    (by decide +kernel)).mpr ⟨⟨by decide, fun p hp => ?_⟩, by decide +kernel⟩
  refine (hasResponse_iff ?_ hp).mpr ?_
  · exact executedBlock_pair (executed_transferred 1) (executed_transferred 2) 1 [] []
  · exact codes_of_all (by decide +kernel) p hp

end Backend

end InfiniteEvm.Rpc
