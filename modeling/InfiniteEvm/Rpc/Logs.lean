import InfiniteEvm.Precompiles.Numbering
import InfiniteEvm.Rpc.Endpoints

/-!
# Positions of logs

`GetLogsFromBlockResults` returns the logs of a block as the state databases of its
messages numbered them: from zero in every message, and with the position of the
transaction among all transactions of the block.
-/

namespace InfiniteEvm.Rpc

open Std Library Outcomes List Codec

variable {R D V : Type}

namespace Codec

variable (c : Codec R D V)

/-- The loop of `GetLogsFromBlockResults`. -/
def collectLogs (height : BitVec 64) : List (ExecTxResult D) → Except String (List (List EthLog))
  | [] => .ok []
  | txResult :: rest => (c.decodeTxLogs txResult.data height).bind fun logs =>
    (collectLogs height rest).map (logs :: ·)

/-- `GetLogsFromBlockResults`. -/
def getLogsFromBlockResults (blockRes : BlockResults D) : Except String (List (List EthLog)) :=
  (safeUint64 blockRes.height).bind fun height => c.collectLogs height blockRes.txsResults

/-- The responses in the result of the transaction at a position. -/
def responsesAt (blockRes : BlockResults D) (txIndex : Nat) : List MsgEthereumTxResponse :=
  (blockRes.txsResults[txIndex]?.bind fun res => (c.decodeTxResponses res.data).toOption).getD []

/-- The logs of an Ethereum message of the block. -/
def logsOf (blockRes : BlockResults D) (p : Placement) : List EthLog :=
  ((c.responsesAt blockRes p.txIndex)[p.msgIndex]?.map fun rsp =>
    logsFromTxResponse rsp (BitVec.ofInt 64 blockRes.height)).getD []

end Codec

/-! ## The logs of an executed block -/

/-- Reading a list at its positions one after another gives the list. -/
theorem flatMap_range_getElem? {α : Type} (l : List α) :
    (range l.length).flatMap (fun j => l[j]?.toList) = l := by
  induction l using reverseRecOn with
  | nil => rfl
  | append_singleton l a ih =>
    have hinit : (range l.length).flatMap (fun j => (l ++ [a])[j]?.toList) =
        (range l.length).flatMap (fun j => l[j]?.toList) := by
      refine flatMap_congr fun j hj => ?_
      rw [getElem?_append_left (mem_range.mp hj)]
    rw [length_append, length_singleton, range_succ, flatMap_append, hinit, ih]
    simp

theorem Tx.placements_of_ethereum {tx : Tx} {msgs : List MsgEthereumTx}
    (h : tx.msgs = msgs.map .ethereum) (i : Nat) :
    (tx.placements i).map Placement.msgIndex = range msgs.length := by
  have hmsgs : ∀ k, (((msgs.map Msg.ethereum).zipIdx k).filterMap fun m =>
      m.1.ethereum?.map (Placement.mk i m.2)).map Placement.msgIndex =
        range' k msgs.length := by
    clear h
    induction msgs with
    | nil => intro k; rfl
    | cons msg rest ih =>
      intro k
      simpa [Msg.ethereum?, range'_succ] using ih (k + 1)
  rw [Tx.placements, h, hmsgs, range_eq_range']

section Executed

variable {c : Codec R D V} {block : Block R} {blockRes : BlockResults D}

/-- An executed transaction has the responses of its messages, in their order. -/
theorem Executed.responses {raw : R} {res : ExecTxResult D} (h : Executed c raw res) (i : Nat) :
    ∃ responses, c.decodeTxResponses res.data = .ok responses ∧
      (((c.includedTx raw res).map (Tx.placements i)).getD []).flatMap
        (fun p => responses[p.msgIndex]?.toList) = responses := by
  cases h with
  | ethereum tx msgs responses decoded only code data each =>
    refine ⟨responses, data, ?_⟩
    have hincluded : c.includedTx raw res = some tx := by
      simp [includedTx_eq_some, decoded, txSucessOrExpectedFailure, code]
    calc (((c.includedTx raw res).map (Tx.placements i)).getD []).flatMap
          (fun p => responses[p.msgIndex]?.toList)
        = ((tx.placements i).map Placement.msgIndex).flatMap (fun j => responses[j]?.toList) := by
          rw [hincluded, flatMap_map]
          rfl
      _ = (range responses.length).flatMap (fun j => responses[j]?.toList) := by
          rw [Tx.placements_of_ethereum only, each]
      _ = responses := flatMap_range_getElem? responses
  | failed code data =>
    exact ⟨[], c.decodeTxResponses_empty data, by simp⟩
  | cosmos tx decoded only code data =>
    exact ⟨[], data, by simp⟩

theorem collectLogs_eq {height : BitVec 64} {results : List (ExecTxResult D)}
    {logs : ExecTxResult D → List EthLog}
    (h : ∀ res ∈ results, c.decodeTxLogs res.data height = .ok (logs res)) :
    c.collectLogs height results = .ok (results.map logs) := by
  induction results with
  | nil => rfl
  | cons res rest ih =>
    rw [collectLogs, h res (mem_cons_self ..),
      ih fun res' hres' => h res' (mem_cons_of_mem _ hres')]
    rfl

theorem decodeTxLogs_executed {raw : R} {res : ExecTxResult D} {i : Nat}
    (hexec : ExecutedBlock c block blockRes) (hraw : block.txs[i]? = some raw)
    (hres : blockRes.txsResults[i]? = some res) :
    c.decodeTxLogs res.data (BitVec.ofInt 64 blockRes.height) =
      .ok ((((c.includedTx raw res).map (Tx.placements i)).getD []).flatMap
        (c.logsOf blockRes)) := by
  obtain ⟨responses, hdata, hresponses⟩ := (hexec.executed i raw res hraw hres).responses i
  have hlogs : ∀ p ∈ ((c.includedTx raw res).map (Tx.placements i)).getD [],
      responses[p.msgIndex]?.toList.flatMap
        (fun rsp => logsFromTxResponse rsp (BitVec.ofInt 64 blockRes.height)) =
          c.logsOf blockRes p := by
    intro p hp
    have htx : p.txIndex = i := by
      cases hincluded : c.includedTx raw res with
      | none => simp [hincluded] at hp
      | some tx =>
        rw [hincluded] at hp
        exact (Tx.mem_placements.mp hp).1
    simp only [logsOf, responsesAt, htx, hres, Option.bind_some, hdata,
      Except.toOption, Option.getD_some]
    cases responses[p.msgIndex]? <;> simp
  rw [decodeTxLogs, hdata]
  change Except.ok _ = _
  congr 1
  calc responses.flatMap (fun rsp => logsFromTxResponse rsp (BitVec.ofInt 64 blockRes.height))
      = (((c.includedTx raw res).map (Tx.placements i)).getD []).flatMap (fun p =>
          responses[p.msgIndex]?.toList.flatMap fun rsp =>
            logsFromTxResponse rsp (BitVec.ofInt 64 blockRes.height)) := by
        rw [← flatMap_assoc, hresponses]
    _ = _ := flatMap_congr hlogs

/-- The logs of an executed block are those of its Ethereum messages, in their order. -/
theorem getLogs_executed (hexec : ExecutedBlock c block blockRes) (hheight : 0 ≤ blockRes.height) :
    ∃ lists, c.getLogsFromBlockResults blockRes = .ok lists ∧
      lists.flatten = (c.placements block blockRes).flatMap (c.logsOf blockRes) := by
  let logs : ExecTxResult D → List EthLog := fun res =>
    (c.decodeTxLogs res.data (BitVec.ofInt 64 blockRes.height)).toOption.getD []
  have hdecoded : ∀ q ∈ (block.txs.zip blockRes.txsResults).zipIdx,
      c.decodeTxLogs q.1.2.data (BitVec.ofInt 64 blockRes.height) =
        .ok ((((c.includedTx q.1.1 q.1.2).map (Tx.placements q.2)).getD []).flatMap
          (c.logsOf blockRes)) := by
    rintro ⟨⟨raw, res⟩, i⟩ hq
    obtain ⟨hraw, hres⟩ := getElem?_zip_eq_some.mp (mk_mem_zipIdx_iff_getElem?.mp hq)
    exact decodeTxLogs_executed hexec hraw hres
  have hresults : (block.txs.zip blockRes.txsResults).zipIdx.map (fun q => q.1.2) =
      blockRes.txsResults := by
    calc (block.txs.zip blockRes.txsResults).zipIdx.map (fun q => q.1.2)
        = ((block.txs.zip blockRes.txsResults).zipIdx.map Prod.fst).map Prod.snd := by
          rw [map_map]
          rfl
      _ = blockRes.txsResults := by
          rw [zipIdx_map_fst, map_snd_zip (by rw [hexec.length_eq])]
  refine ⟨blockRes.txsResults.map logs, ?_, ?_⟩
  · rw [getLogsFromBlockResults, safeUint64, if_neg (by omega)]
    apply collectLogs_eq
    intro res hres
    rw [← hresults] at hres
    obtain ⟨q, hq, rfl⟩ := mem_map.mp hres
    simp only [logs, hdecoded q hq]
    rfl
  · calc (blockRes.txsResults.map logs).flatten
        = (block.txs.zip blockRes.txsResults).zipIdx.flatMap (fun q => logs q.1.2) := by
          rw [← flatMap_def]
          nth_rewrite 1 [← hresults]
          rw [flatMap_map]
      _ = (block.txs.zip blockRes.txsResults).zipIdx.flatMap (fun q =>
            (((c.includedTx q.1.1 q.1.2).map (Tx.placements q.2)).getD []).flatMap
              (c.logsOf blockRes)) := by
          refine flatMap_congr fun q hq => ?_
          simp only [logs, hdecoded q hq]
          rfl
      _ = (c.placements block blockRes).flatMap (c.logsOf blockRes) := by
          rw [placements, flatMap_assoc]

end Executed

/-! ## Where logs stand -/

section Positions

variable {K W : Type*} [Ord K] [TransOrd K] [DecidableEq K]

/-- The logs of every response are those of the state database that executed the message, as
part of the transaction at its position in the block. -/
structure LoggedBlock (env : Env K W InfiniteEvm.Event) (codec : BankCodec) (c : Codec R D V)
    (block : Block R) (blockRes : BlockResults D) : Prop extends
    ExecutedBlock c block blockRes where
  logs : ∀ (i j : Nat) rsp, (c.responsesAt blockRes i)[j]? = some rsp →
    ∃ (ctx : Context K W InfiniteEvm.Event) (actions : List (Action K W)) (cfg : Config K W),
      (Config.init ctx i).run env codec actions = some cfg ∧
      rsp.logs.map EthLog.toLog = cfg.db.logs

variable {env : Env K W InfiniteEvm.Event} {codec : BankCodec} {c : Codec R D V}
  {block : Block R} {blockRes : BlockResults D}

section

variable (h : LoggedBlock env codec c block blockRes)
include h

theorem LoggedBlock.numbered (p : Placement) :
    StateDB.NumberedLogs p.txIndex ((c.logsOf blockRes p).map EthLog.toLog) := by
  cases hrsp : (c.responsesAt blockRes p.txIndex)[p.msgIndex]? with
  | none =>
    intro k log hk
    simp [logsOf, hrsp] at hk
  | some rsp =>
    obtain ⟨ctx, actions, cfg, hrun, hlogs⟩ := h.logs p.txIndex p.msgIndex rsp hrsp
    have hsame : (c.logsOf blockRes p).map EthLog.toLog = rsp.logs.map EthLog.toLog := by
      simp only [logsOf, hrsp, Option.map_some, Option.getD_some, logsFromTxResponse, map_map]
      rfl
    rw [hsame, hlogs]
    exact Config.run_numbered env codec cfg hrun

/-- The indices of a message's logs count from zero. -/
theorem LoggedBlock.indices (p : Placement) :
    (c.logsOf blockRes p).map (fun log => log.index) = List.range (c.logsOf blockRes p).length := by
  apply List.ext_getElem?
  intro k
  rw [List.getElem?_map]
  cases hk : (c.logsOf blockRes p)[k]? with
  | none =>
    have hle := List.getElem?_eq_none_iff.mp hk
    simp [hle]
  | some log =>
    have hlt := (List.getElem?_eq_some_iff.mp hk).1
    obtain ⟨hindex, -⟩ := h.numbered p k log.toLog (by simp [hk])
    simp [hindex, hlt]

theorem LoggedBlock.txIndex {p : Placement}
    {log : EthLog} (hlog : log ∈ c.logsOf blockRes p) : log.txIndex = p.txIndex := by
  obtain ⟨k, hk⟩ := mem_iff_getElem?.mp hlog
  exact (h.numbered p k log.toLog (by simp [hk])).2

end

/-- The indices of the block's logs increase, and every log carries the position of its message
among the Ethereum messages of the block. -/
structure WellPlaced (c : Codec R D V) (block : Block R) (blockRes : BlockResults D)
    (lists : List (List EthLog)) : Prop where
  returned : c.getLogsFromBlockResults blockRes = .ok lists
  increasing : (lists.flatten.map fun log => log.index).Pairwise (· < ·)
  positions : ∀ (k : Nat) p, (c.placements block blockRes)[k]? = some p →
    ∀ log ∈ c.logsOf blockRes p, log ∈ lists.flatten ∧ log.txIndex = k

/-- The logs of a block are well placed exactly if at most one of its Ethereum messages has
logs, and that one stands at the same position among the Ethereum messages as its transaction
among all transactions. -/
theorem logs_wellPlaced_iff (h : LoggedBlock env codec c block blockRes)
    (hheight : 0 ≤ blockRes.height) :
    (∃ lists, WellPlaced c block blockRes lists) ↔
      (c.placements block blockRes).Pairwise
        (fun p q => c.logsOf blockRes p = [] ∨ c.logsOf blockRes q = []) ∧
      ∀ (k : Nat) p, (c.placements block blockRes)[k]? = some p → c.logsOf blockRes p ≠ [] →
        p.txIndex = k := by
  obtain ⟨lists, hlists, hflatten⟩ := getLogs_executed h.toExecutedBlock hheight
  have hincreasing : (lists.flatten.map fun log => log.index).Pairwise (· < ·) ↔
      (c.placements block blockRes).Pairwise
        (fun p q => c.logsOf blockRes p = [] ∨ c.logsOf blockRes q = []) := by
    simp only [hflatten, map_flatMap, h.indices, pairwise_flatMap]
    constructor
    · rintro ⟨-, hpairs⟩
      refine hpairs.imp fun {p q} hpq => ?_
      by_contra hboth
      obtain ⟨hp, hq⟩ := not_or.mp hboth
      have hlt := hpq 0 (by simpa [length_pos_iff] using hp) 0 (by simpa [length_pos_iff] using hq)
      omega
    · intro hpairs
      refine ⟨fun p _ => pairwise_lt_range, hpairs.imp fun {p q} hpq => ?_⟩
      rcases hpq with hp | hq
      · simp [hp]
      · simp [hq]
  constructor
  · rintro ⟨lists', hreturned, hinc, hpositions⟩
    obtain rfl : lists' = lists := Except.ok.inj (hreturned.symm.trans hlists)
    refine ⟨hincreasing.mp hinc, fun k p hp hne => ?_⟩
    obtain ⟨log, hlog⟩ := exists_mem_of_ne_nil _ hne
    rw [← h.txIndex hlog]
    exact (hpositions k p hp log hlog).2
  · rintro ⟨hpairs, hpositions⟩
    refine ⟨lists, hlists, hincreasing.mpr hpairs, fun k p hp log hlog => ⟨?_, ?_⟩⟩
    · rw [hflatten]
      exact mem_flatMap.mpr ⟨p, mem_of_getElem? hp, hlog⟩
    · rw [h.txIndex hlog]
      exact hpositions k p hp (ne_nil_of_mem hlog)

end Positions

/-! ## Blocks of two transactions -/

/-- The log of a call in the transaction at a position, as its state database numbers it. -/
def emitted (txIndex : Nat) : EthLog where
  address := 3
  topics := [4]
  data := []
  txIndex := txIndex
  index := 0
  blockNumber := 1
  txHash := 0
  blockHash := 0
  blockTimestamp := 1

def callResponse (hash : Hash) (txIndex : Nat) : MsgEthereumTxResponse :=
  { transferResponse hash with logs := [emitted txIndex] }

/-- The result of a call that emits a log, in the transaction at a position. -/
def called (hash : Hash) (txIndex : Nat) : ExecTxResult (List (Any MsgEthereumTxResponse)) :=
  { transferred hash with
    data := some [{ typeUrl := responseTypeUrl, value := callResponse hash txIndex }] }

/-- A Cosmos transaction and its result. -/
def cosmosTx : Tx := ⟨[], [.cosmos]⟩

def cosmosResult : ExecTxResult (List (Any MsgEthereumTxResponse)) :=
  { transferred 0 with data := some [] }

theorem executed_called (hash : Hash) (i : Nat) :
    Executed plain (transferTx hash) (called hash i) :=
  .ethereum (transferTx hash) [transfer hash] [callResponse hash i] rfl rfl rfl rfl rfl

theorem executed_cosmos : Executed plain cosmosTx cosmosResult :=
  .cosmos cosmosTx rfl rfl rfl rfl

theorem called_run (i : Nat) : ∃ (ctx : Context Nat Nat InfiniteEvm.Event)
    (actions : List (Action Nat Nat)) (cfg : Config Nat Nat),
    (Config.init ctx i).run Env.empty (.ofTables .eighteen [] []) actions = some cfg ∧
      [emitted i].map EthLog.toLog = cfg.db.logs :=
  ⟨⟨∅, []⟩, [.op (.addLog (emitted i).toLog) trivial], _, rfl, rfl⟩

/-- A block of two transactions with at most one response each, which emits a log. -/
theorem loggedBlock_pair {tx tx' : Tx} {res res' : ExecTxResult (List (Any MsgEthereumTxResponse))}
    (h : Executed plain tx res) (h' : Executed plain tx' res')
    (hlogs : ∀ rsp ∈ plain.responsesAt ⟨1, [res, res'], []⟩ 0, rsp.logs = [emitted 0])
    (hlogs' : ∀ rsp ∈ plain.responsesAt ⟨1, [res, res'], []⟩ 1, rsp.logs = [emitted 1]) :
    LoggedBlock (Env.empty : Env Nat Nat InfiniteEvm.Event) (.ofTables .eighteen [] []) plain
      ⟨1, [], [tx, tx']⟩ ⟨1, [res, res'], []⟩ where
  toExecutedBlock := executedBlock_pair h h' 1 [] []
  logs i j rsp hrsp := by
    have hmem := mem_of_getElem? hrsp
    match i with
    | 0 =>
      rw [hlogs rsp hmem]
      exact called_run 0
    | 1 =>
      rw [hlogs' rsp hmem]
      exact called_run 1
    | i + 2 => simp [responsesAt] at hmem

/-- Two calls in a block emit logs of the same index, and a call after a Cosmos transaction
emits a log with index 1 for the transaction, whose position is 0. -/
theorem logs_misplaced :
    LoggedBlock (Env.empty : Env Nat Nat InfiniteEvm.Event) (.ofTables .eighteen [] []) plain
      ⟨1, [], [transferTx 1, transferTx 2]⟩ ⟨1, [called 1 0, called 2 1], []⟩ ∧
    (plain.getLogsFromBlockResults ⟨1, [called 1 0, called 2 1], []⟩).map
      (fun lists => lists.flatten.map fun log => log.index) = .ok [0, 0] ∧
    LoggedBlock (Env.empty : Env Nat Nat InfiniteEvm.Event) (.ofTables .eighteen [] []) plain
      ⟨1, [], [cosmosTx, transferTx 1]⟩ ⟨1, [cosmosResult, called 1 1], []⟩ ∧
    (plain.placements ⟨1, [], [cosmosTx, transferTx 1]⟩
      ⟨1, [cosmosResult, called 1 1], []⟩).map
        (fun p => (plain.logsOf ⟨1, [cosmosResult, called 1 1], []⟩ p).map
          fun log => log.txIndex) = [[1]] := by
  refine ⟨?_, by decide +kernel, ?_, by decide +kernel⟩
  · exact loggedBlock_pair (executed_called 1 0) (executed_called 2 1) (by decide +kernel)
      (by decide +kernel)
  · exact loggedBlock_pair executed_cosmos (executed_called 1 1) (by decide +kernel)
      (by decide +kernel)

/-- A call before a Cosmos transaction. -/
theorem logs_wellPlaced_iff_first : ∃ lists, WellPlaced plain
    ⟨1, [], [transferTx 1, cosmosTx]⟩ ⟨1, [called 1 0, cosmosResult], []⟩ lists := by
  refine (logs_wellPlaced_iff (loggedBlock_pair (executed_called 1 0) executed_cosmos
    (by decide +kernel) (by decide +kernel)) (by decide)).mpr ⟨by decide +kernel, ?_⟩
  have hplaces : plain.placements ⟨1, [], [transferTx 1, cosmosTx]⟩
      ⟨1, [called 1 0, cosmosResult], []⟩ = [⟨0, 0, transfer 1⟩] := by decide +kernel
  intro k p hk _
  rw [hplaces] at hk
  obtain ⟨rfl, rfl⟩ : k = 0 ∧ _ := by simpa [getElem?_singleton] using hk
  rfl

end InfiniteEvm.Rpc
