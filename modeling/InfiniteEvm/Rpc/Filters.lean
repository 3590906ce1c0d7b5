import InfiniteEvm.Rpc.Blooms
import InfiniteEvm.Rpc.Logs

/-!
# Log filters

`eth_getLogs` looks at the bloom filter of a block before it decodes the logs of the block.
What it returns is compared with the logs of the responses that match the criteria.
-/

namespace InfiniteEvm.Rpc

open Std Library Outcomes List

/-! ## `FilterLogs` -/

/-- The addresses and the topics of `FilterCriteria`. -/
structure Criteria where
  addresses : List Address
  topics : List (List Hash)

/-- The loop of `FilterLogs` over the topics: an empty rule set is a wildcard. -/
def matchTopics : List (List Hash) → List Hash → Bool
  | [], _ => true
  | _ :: _, [] => false
  | sub :: rest, topic :: others => (sub.isEmpty || sub.contains topic) && matchTopics rest others

/-- The body of the loop of `FilterLogs`. -/
def filterLog (fromBlock toBlock : Option Int) (criteria : Criteria) (log : EthLog) : Bool :=
  if fromBlock.any fun n => 0 ≤ n && (log.blockNumber.toNat : Int) < n then false
  else if toBlock.any fun n => 0 ≤ n && n < (log.blockNumber.toNat : Int) then false
  else if !criteria.addresses.isEmpty && !criteria.addresses.contains log.address then false
  else if log.topics.length < criteria.topics.length then false
  else matchTopics criteria.topics log.topics

/-- `FilterLogs`. -/
def filterLogs (logs : List EthLog) (fromBlock toBlock : Option Int) (criteria : Criteria) :
    List EthLog :=
  logs.filter (filterLog fromBlock toBlock criteria)

/-- `bloomFilter`. -/
def bloomFilter (pattern : Bytes → BloomFilter) (bloom : BloomFilter) (criteria : Criteria) :
    Bool :=
  (criteria.addresses.isEmpty ||
    criteria.addresses.any fun a => Bloom.test pattern bloom (addressBytes a)) &&
  criteria.topics.all fun sub =>
    sub.isEmpty || sub.any fun topic => Bloom.test pattern bloom (hashBytes topic)

/-- A log matches: it has one of the addresses, if there are any, and at every position of the
criteria one of the topics there, if there are any. -/
def Criteria.Matches (criteria : Criteria) (log : EthLog) : Prop :=
  (criteria.addresses = [] ∨ log.address ∈ criteria.addresses) ∧
  criteria.topics.length ≤ log.topics.length ∧
  ∀ (i : Nat) sub, criteria.topics[i]? = some sub →
    sub = [] ∨ ∃ topic ∈ sub, log.topics[i]? = some topic

theorem matchTopics_iff {rules : List (List Hash)} {topics : List Hash} :
    matchTopics rules topics = true ↔ rules.length ≤ topics.length ∧
      ∀ (i : Nat) sub, rules[i]? = some sub →
        sub = [] ∨ ∃ topic ∈ sub, topics[i]? = some topic := by
  induction rules generalizing topics with
  | nil => simp [matchTopics]
  | cons sub rest ih =>
    cases topics with
    | nil => simp [matchTopics]
    | cons topic others =>
      rw [matchTopics, Bool.and_eq_true, ih]
      constructor
      · rintro ⟨hfirst, hlen, hrest⟩
        refine ⟨by simpa using hlen, fun i sub' hi => ?_⟩
        cases i with
        | zero =>
          cases hi
          simpa using hfirst
        | succ i => exact hrest i sub' hi
      · rintro ⟨hlen, hall⟩
        refine ⟨by simpa using hall 0 sub rfl, by simpa using hlen, fun i sub' hi => ?_⟩
        exact hall (i + 1) sub' hi

variable {log : EthLog} {criteria : Criteria}

/-- Within one block, `FilterLogs` keeps the logs that match. -/
theorem filterLog_iff : filterLog none none criteria log = true ↔ criteria.Matches log := by
  rw [Criteria.Matches, ← matchTopics_iff, filterLog]
  by_cases hlen : log.topics.length < criteria.topics.length
  · have hfalse : ¬ matchTopics criteria.topics log.topics = true := fun h =>
      absurd (matchTopics_iff.mp h).1 (by omega)
    simp [hlen, hfalse]
  · cases hempty : criteria.addresses with
    | nil => simp [hlen]
    | cons a rest =>
      by_cases hmem : log.address ∈ a :: rest <;> simp_all

/-! ## The bloom filter and the logs -/

variable {pattern : Bytes → BloomFilter} {bloom : BloomFilter}

/-- A log that the filter has passes it under every criteria that it matches. -/
theorem bloomFilter_of_covers (hcovers : Covers pattern bloom log)
    (hmatches : criteria.Matches log) : bloomFilter pattern bloom criteria = true := by
  obtain ⟨haddress, -, htopics⟩ := hmatches
  obtain ⟨hcovers, hcoversTopics⟩ := covers_iff.mp hcovers
  rw [bloomFilter, Bool.and_eq_true]
  constructor
  · rcases haddress with hempty | hmem
    · simp [hempty]
    · simp only [Bool.or_eq_true, any_eq_true]
      exact .inr ⟨log.address, hmem, hcovers⟩
  · rw [all_eq_true]
    intro sub hsub
    obtain ⟨i, hi⟩ := mem_iff_getElem?.mp hsub
    rcases htopics i sub hi with rfl | ⟨topic, hmem, hget⟩
    · rfl
    · simp only [Bool.or_eq_true, any_eq_true]
      exact .inr ⟨topic, hmem, hcoversTopics topic (mem_of_getElem? hget)⟩

instance (criteria : Criteria) (log : EthLog) : Decidable (criteria.Matches log) :=
  decidable_of_iff _ filterLog_iff

/-! ## `Filter` -/

def eventTypeBlockBloom : String := "block_bloom"

def attributeKeyEthereumBloom : String := "bloom"

/-- What a filter asks of the node. -/
structure FilterBackend (R D V : Type) where
  codec : Codec R D V
  /-- The bits that data sets in a bloom filter. -/
  pattern : Bytes → BloomFilter
  bytesToBloom : String → BloomFilter
  /-- The number of the latest header. There may be no header, or no number in it. -/
  latestNumber : Except String (Option Nat)
  /-- `BlockResults` of the CometBFT client, at a height or of the latest block. -/
  blockResults : Option Int → Except String (BlockResults D)
  cometBlockByHash : Hash → Except String (Block R)

/-- `Filter`. -/
structure Filter where
  blockHash : Option Hash
  fromBlock : Option Int
  toBlock : Option Int
  criteria : Criteria

/-- `NewRangeFilter`. -/
def newRangeFilter (first last : Int) (criteria : Criteria) : Filter :=
  ⟨none, some first, some last, criteria⟩

def errPendingLogsUnsupported : QueryFailure := .err "pending logs are not supported"

def errInvalidBlockRange : QueryFailure := .err "invalid block range params"

/-- `resolveSpecial` of `Logs`: latest, finalized, safe and earliest are negative numbers. -/
def resolveSpecial (head : Nat) (number : Int) : Except QueryFailure Nat :=
  if number = -2 ∨ number = -3 ∨ number = -4 then .ok head
  else if number = -5 then .ok 1
  else if number < 0 then .error (.err "negative block number")
  else .ok number.toNat

namespace FilterBackend

variable {R D V : Type} (b : FilterBackend R D V)

/-- `CometBlockResultByNumber`: zero asks for the latest block. -/
def cometBlockResultByNumber (height : Int) : Except QueryFailure (BlockResults D) :=
  if height = 0 then
    match b.blockResults none with
    -- the text of the error reads the height through a nil pointer
    | .error _ => .error nilDereference
    | .ok blockRes => .ok blockRes
  else
    match b.blockResults (some height) with
    | .error err => .error
        (.err ("failed to fetch block result from CometBFT " ++ toString height ++ ": " ++ err))
    | .ok blockRes => .ok blockRes

/-- `BlockBloomFromCometBlock`. -/
def blockBloomFromCometBlock (blockRes : BlockResults D) : Except String BloomFilter :=
  let blooms := blockRes.finalizeBlockEvents.filter fun event => event.type = eventTypeBlockBloom
  match (blooms.flatMap Event.attributes).find? (fun a => a.key = attributeKeyEthereumBloom) with
  | none => .error "block bloom event is not found"
  | some attr => .ok (b.bytesToBloom attr.value)

/-- `blockLogs`. -/
def blockLogs (criteria : Criteria) (blockRes : BlockResults D) (bloom : BloomFilter) :
    Except String (List EthLog) :=
  if !bloomFilter b.pattern bloom criteria then .ok []
  else
    match b.codec.getLogsFromBlockResults blockRes with
    | .error err => .error
        ("failed to fetch logs block number " ++ toString blockRes.height ++ ": " ++ err)
    | .ok logsList => .ok (filterLogs logsList.flatten none none criteria)

/-- The limits of the range in `Logs`: none if the node has no header. -/
def limits (fromBlock toBlock : Option Int) (blockLimit : Int) :
    Except QueryFailure (Option (Nat × Nat)) :=
  match fromBlock with
  | none => .error nilDereference
  | some first =>
    if first = -1 then .error errPendingLogsUnsupported
    else
      match toBlock with
      | none => .error nilDereference
      | some last =>
        if last = -1 then .error errPendingLogsUnsupported
        else
          match b.latestNumber with
          | .error err =>
            .error (.err ("failed to fetch header by number (latest): " ++ err))
          | .ok none => .ok none
          | .ok (some head) =>
            (resolveSpecial head first).bind fun first =>
              (resolveSpecial head last).bind fun last =>
                if head < first ∨ last < first then .error errInvalidBlockRange
                else if head < last then .error errInvalidBlockRange
                else if 0 < blockLimit ∧ blockLimit < (last - first : Nat) then
                  .error (.err ("maximum [from, to] blocks distance: " ++ toString blockLimit))
                else .ok (some (first, last))

/-- The logs of one height in the loop of `Logs`. -/
def heightLogs (criteria : Criteria) (height : Nat) : Except QueryFailure (List EthLog) :=
  match b.cometBlockResultByNumber height with
  | .error (.err err) => .error (.err ("failed to fetch block result from CometBFT: " ++ err))
  | .error failure => .error failure
  | .ok blockRes =>
    match b.blockBloomFromCometBlock blockRes with
    | .error err =>
      .error (.err ("failed to query block bloom filter from block results: " ++ err))
    | .ok bloom =>
      match b.blockLogs criteria blockRes bloom with
      | .error err =>
        .error (.err ("failed to fetch block by number " ++ toString height ++ ": " ++ err))
      | .ok filtered => .ok filtered

/-- The loop of `Logs`. -/
def collectRange (criteria : Criteria) (logLimit : Int) :
    List EthLog → List Nat → Except QueryFailure (List EthLog)
  | logs, [] => .ok logs
  | logs, height :: rest => (b.heightLogs criteria height).bind fun filtered =>
    if logLimit < (logs.length + filtered.length : Nat) then
      .error (.err ("query returned more than " ++ toString logLimit ++ " results"))
    else collectRange criteria logLimit (logs ++ filtered) rest

/-- `Logs` for the block of a hash. -/
def hashLogs (criteria : Criteria) (hash : Hash) : Except QueryFailure (List EthLog) :=
  match b.cometBlockByHash hash with
  | .error err =>
    .error (.err ("failed to fetch header by hash " ++ hashHex hash ++ ": " ++ err))
  | .ok block => (b.cometBlockResultByNumber block.height).bind fun blockRes =>
    match b.blockBloomFromCometBlock blockRes with
    | .error err => .error (.err err)
    | .ok bloom =>
      match b.blockLogs criteria blockRes bloom with
      | .error err => .error (.err err)
      | .ok logs => .ok logs

/-- `Logs` for a range. -/
def rangeLogs (f : Filter) (logLimit blockLimit : Int) : Except QueryFailure (List EthLog) :=
  match b.limits f.fromBlock f.toBlock blockLimit with
  | .error failure => .error failure
  | .ok none => .ok []
  | .ok (some (first, last)) =>
    b.collectRange f.criteria logLimit [] (range' first (last + 1 - first))

/-- `Logs`. -/
def logs (f : Filter) (logLimit blockLimit : Int) : Except QueryFailure (List EthLog) :=
  if blockLimit = 0 then .ok []
  else
    match f.blockHash with
    | none => b.rangeLogs f logLimit blockLimit
    | some hash =>
      if hash = 0 then b.rangeLogs f logLimit blockLimit else b.hashLogs f.criteria hash

/-! ## What is asked for -/

/-- The logs of the responses of a block, in their order. -/
def responseLogs (blockRes : BlockResults D) : List EthLog :=
  blockRes.txsResults.flatMap fun res =>
    ((b.codec.decodeTxResponses res.data).toOption.getD []).flatMap fun rsp =>
      logsFromTxResponse rsp (BitVec.ofInt 64 blockRes.height)

/-- The logs of a block that match. -/
def matching (criteria : Criteria) (blockRes : BlockResults D) : List EthLog :=
  (b.responseLogs blockRes).filter fun log => criteria.Matches log

/-- The results of the blocks of a range, which begins with the first block. -/
def RangeResults (first last : Nat) (results : List (BlockResults D)) : Prop :=
  (range' (max first 1) (last + 1 - max first 1)).map
    (fun height : Nat => b.blockResults (some (height : Int))) = results.map .ok

variable {C : Type} {hooks : Option (List (Hook C))} {txs : List (List (Execution C))}
  {blockRes : BlockResults D}

/-- The results of a block whose transactions were executed, with the filter that
`CollectTxBloom` emitted. -/
structure Produced (hooks : Option (List (Hook C))) (txs : List (List (Execution C)))
    (blockRes : BlockResults D) : Prop where
  height : 0 ≤ blockRes.height
  responses : Forall₂
    (fun res responses => b.codec.decodeTxResponses res.data = .ok responses)
    blockRes.txsResults (deliverTxs b.pattern hooks 0 ∅ txs).1
  bloom : b.blockBloomFromCometBlock blockRes =
    .ok (collectTxBloom (deliverTxs b.pattern hooks 0 ∅ txs).2).1

variable {b}

theorem Produced.decoded (h : b.Produced hooks txs blockRes) {res : ExecTxResult D}
    (hres : res ∈ blockRes.txsResults) :
    ∃ responses, b.codec.decodeTxResponses res.data = .ok responses := by
  obtain ⟨i, hi⟩ := mem_iff_getElem.mp hres
  obtain ⟨hlt, rfl⟩ := hi
  exact ⟨_, (forall₂_iff_get.mp h.responses).2 i hlt (by rw [← h.responses.length_eq]; exact hlt)⟩

/-- The decoded logs of the block are those of the responses. -/
theorem Produced.getLogs (h : b.Produced hooks txs blockRes) :
    ∃ lists, b.codec.getLogsFromBlockResults blockRes = .ok lists ∧
      lists.flatten = b.responseLogs blockRes := by
  refine ⟨blockRes.txsResults.map fun res =>
    ((b.codec.decodeTxResponses res.data).toOption.getD []).flatMap fun rsp =>
      logsFromTxResponse rsp (BitVec.ofInt 64 blockRes.height), ?_, ?_⟩
  · rw [Codec.getLogsFromBlockResults, safeUint64, if_neg (by have := h.height; omega)]
    apply collectLogs_eq
    intro res hres
    obtain ⟨responses, hdecoded⟩ := h.decoded hres
    rw [Codec.decodeTxLogs, hdecoded]
    rfl
  · rw [responseLogs, ← flatMap_def]

theorem Produced.blockLogs_eq (h : b.Produced hooks txs blockRes) (criteria : Criteria)
    (bloom : BloomFilter) : b.blockLogs criteria blockRes bloom =
      .ok (if bloomFilter b.pattern bloom criteria then b.matching criteria blockRes else []) := by
  obtain ⟨lists, hlists, hflatten⟩ := h.getLogs
  have hfilter : filterLogs lists.flatten none none criteria = b.matching criteria blockRes := by
    rw [hflatten, filterLogs, matching]
    apply filter_congr
    intro log _
    rw [Bool.eq_iff_iff, filterLog_iff, decide_eq_true_iff]
  rw [blockLogs]
  cases hbloom : bloomFilter b.pattern bloom criteria with
  | false => rfl
  | true => simp [hlists, hfilter]

theorem mem_matching :
    log ∈ b.matching criteria blockRes ↔ log ∈ b.responseLogs blockRes ∧ criteria.Matches log := by
  rw [matching, mem_filter, decide_eq_true_iff]

/-- The logs of a block are found under all criteria if the filter has them. -/
theorem Produced.blockLogs_exact (h : b.Produced hooks txs blockRes) {bloom : BloomFilter}
    (hcovers : ∀ log ∈ b.responseLogs blockRes, Covers b.pattern bloom log)
    (criteria : Criteria) :
    b.blockLogs criteria blockRes bloom = .ok (b.matching criteria blockRes) := by
  rw [h.blockLogs_eq]
  by_cases hpass : bloomFilter b.pattern bloom criteria = true
  · rw [if_pos hpass]
  · -- nothing that matches is missed
    rw [if_neg hpass, eq_comm, Except.ok.injEq, eq_nil_iff_forall_not_mem]
    intro log hlog
    obtain ⟨hmem, hmatches⟩ := mem_matching.mp hlog
    exact hpass (bloomFilter_of_covers (hcovers log hmem) hmatches)

end FilterBackend

end InfiniteEvm.Rpc
