import InfiniteEvm.Library.LastWrites
import InfiniteEvm.Library.Runs
import InfiniteEvm.Rpc.Receipts

/-!
# The transaction indexer

`KVIndexer` saves a result for every Ethereum message of a block, by the hash of the
message, and the hash by the height of the block and a counter. What it saves it takes from
the events of the transaction (`ParseTxResult`). Heights, `int64` there, are only compared.
-/

namespace InfiniteEvm.Rpc

open Library Outcomes LastWrites List

/-! ## `ParseTxResult` -/

/-- `ParsedTx`, without the hash. -/
structure ParsedTx where
  msgIndex : Nat
  ethTxIndex : Int
  gasUsed : BitVec 64
  failed : Bool
  deriving DecidableEq

/-- `NewParsedTx`. -/
def newParsedTx (msgIndex : Nat) : ParsedTx where
  msgIndex := msgIndex
  ethTxIndex := -1
  gasUsed := 0
  failed := false

/-- `strconv.ParseUint` in base 10. -/
def parseUint (s : String) (bitSize : Nat) : Except String Nat :=
  if s.isEmpty || !s.toList.all Char.isDigit then
    .error ("strconv.ParseUint: parsing " ++ s.quote ++ ": invalid syntax")
  else
    let n := s.toList.foldl (fun n c => 10 * n + (c.toNat - '0'.toNat)) 0
    if 2 ^ bitSize ≤ n then
      .error ("strconv.ParseUint: parsing " ++ s.quote ++ ": value out of range")
    else .ok n

def eventTypeEthereumTx : String := "ethereum_tx"
def attributeKeyTxIndex : String := "txIndex"
def attributeKeyTxGasUsed : String := "txGasUsed"
def attributeKeyEthereumTxFailed : String := "ethereumTxFailed"

/-- `fillTxAttribute`. -/
def fillTxAttribute (tx : ParsedTx) (attr : EventAttribute) : Except String ParsedTx :=
  if attr.key = attributeKeyTxIndex then
    (parseUint attr.value 31).map fun txIndex => { tx with ethTxIndex := txIndex }
  else if attr.key = attributeKeyTxGasUsed then
    (parseUint attr.value 64).map fun gasUsed => { tx with gasUsed := BitVec.ofNat 64 gasUsed }
  else if attr.key = attributeKeyEthereumTxFailed then
    .ok { tx with failed := !attr.value.isEmpty }
  else .ok tx

/-- `fillTxAttributes`. -/
def fillTxAttributes : ParsedTx → List EventAttribute → Except String ParsedTx
  | tx, [] => .ok tx
  | tx, attr :: rest => (fillTxAttribute tx attr).bind fun tx => fillTxAttributes tx rest

/-- `EventFormat`. -/
inductive EventFormat
  | unknown
  | format1
  | format2
  deriving DecidableEq

/-- The variables of the loop of `ParseTxResult`. -/
structure Parsing where
  format : EventFormat
  /-- The next value of `eventIndex`. -/
  nextEvent : Nat
  txs : List ParsedTx

namespace Parsing

/-- `newTx`. -/
def newTx (p : Parsing) (attrs : List EventAttribute) : Except QueryFailure Parsing :=
  match fillTxAttributes (newParsedTx p.txs.length) attrs with
  | .error err => .error (.err err)
  | .ok tx => .ok { p with txs := p.txs ++ [tx] }

/-- `updateTx`. -/
def updateTx (p : Parsing) (eventIndex : Nat) (attrs : List EventAttribute) :
    Except QueryFailure Parsing :=
  match fillTxAttributes (newParsedTx eventIndex) attrs with
  | .error err => .error (.err err)
  | .ok tx =>
    if eventIndex < p.txs.length then .ok { p with txs := p.txs.set eventIndex tx }
    else .error indexOutOfRange

/-- The body of the loop of `ParseTxResult`. -/
def event (p : Parsing) (event : Event) : Except QueryFailure Parsing :=
  if event.type ≠ eventTypeEthereumTx then .ok p
  else
    let format := match p.format with
      | .unknown => if 2 < event.attributes.length then .format1 else .format2
      | format => format
    let p := { p with format := format }
    if event.attributes.length = 2 then p.newTx event.attributes
    else
      let eventIndex := p.nextEvent
      let p := { p with nextEvent := p.nextEvent + 1 }
      if format = .format1 then p.newTx event.attributes else p.updateTx eventIndex event.attributes

def events : Parsing → List Event → Except QueryFailure Parsing
  | p, [] => .ok p
  | p, event :: rest => (p.event event).bind fun p => p.events rest

end Parsing

/-- What becomes of the parsed transactions when the result is an error: they failed, and
used all their gas. -/
def failAll (tx : Tx) : Nat → List ParsedTx → Except QueryFailure (List ParsedTx)
  | _, [] => .ok []
  | i, parsed :: rest =>
    match tx.msgs[i]? with
    | none => .error indexOutOfRange
    | some .cosmos => .error (.panic "interface conversion")
    | some (.ethereum msg) => (failAll tx (i + 1) rest).map
        ({ parsed with failed := true, gasUsed := msg.getGas } :: ·)

/-- `ParseTxResult`, for a transaction that is given. -/
def parseTxResult {D : Type} (result : ExecTxResult D) (tx : Tx) :
    Except QueryFailure (List ParsedTx) :=
  (Parsing.events ⟨.unknown, 0, []⟩ result.events).bind fun p =>
    let txs := match p.txs with
      | [parsed] => [{ parsed with gasUsed := result.gasUsed }]
      | txs => txs
    if result.code ≠ 0 then failAll tx 0 txs else .ok txs

/-! ## `IndexBlock` -/

/-- `isEthTx`. -/
def isEthTx (tx : Tx) : Bool :=
  tx.extensionOptions = ["/cosmos.evm.vm.v1.ExtensionOptionsEthereumTx"]

/-- A transaction hash with the result that is saved for it. -/
abbrev Record := Hash × TxResult

/-- The gas and the status of a message: those of a transaction that failed, or those in the
events, if they have the message. -/
def usage {D : Type} (result : ExecTxResult D) (txs : List ParsedTx) (msgIndex : Nat)
    (msg : MsgEthereumTx) : Option (BitVec 64 × Bool) :=
  if result.code ≠ 0 then some (msg.getGas, true)
  else txs[msgIndex]?.map fun parsed => (parsed.gasUsed, parsed.failed)

section IndexBlock

variable {R D V : Type} (c : Codec R D V)

/-- The loop of `IndexBlock` over the messages of a transaction. The counter is an `int32`. -/
def indexMsgs (height : Int) (txIndex : Nat) (result : ExecTxResult D) (txs : List ParsedTx) :
    Nat → BitVec 32 → BitVec 64 → List Msg → Except QueryFailure (List Record)
  | _, _, _, [] => .ok []
  | _, _, _, .cosmos :: _ => .error (.panic "interface conversion")
  | msgIndex, ethTxIndex, cumulativeGasUsed, .ethereum msg :: rest =>
    match usage result txs msgIndex msg with
    | none => indexMsgs height txIndex result txs (msgIndex + 1) ethTxIndex cumulativeGasUsed rest
    | some (gasUsed, failed) =>
      let txResult := {
        height := height
        txIndex := txIndex
        msgIndex := msgIndex
        ethTxIndex := ethTxIndex.toInt
        failed := failed
        gasUsed := gasUsed
        cumulativeGasUsed := cumulativeGasUsed + gasUsed }
      (indexMsgs height txIndex result txs (msgIndex + 1) (ethTxIndex + 1)
        (cumulativeGasUsed + gasUsed) rest).map ((msg.hash, txResult) :: ·)

/-- The body of the loop of `IndexBlock` over the transactions. -/
def indexTx (height : Int) (txIndex : Nat) (ethTxIndex : BitVec 32) (raw : R)
    (result : ExecTxResult D) : Except QueryFailure (List Record) :=
  match c.includedTx raw result with
  | none => .ok []
  | some tx =>
    if !isEthTx tx then .ok []
    else
      match parseTxResult result tx with
      | .error (.err _) => .ok []
      | .error failure => .error failure
      | .ok txs => indexMsgs height txIndex result txs 0 ethTxIndex 0 tx.msgs

/-- The loop of `IndexBlock` over the transactions. The counter is advanced for every result
that is saved. -/
def indexTxs (height : Int) : Nat → BitVec 32 → List (R × ExecTxResult D) →
    Except QueryFailure (List Record)
  | _, _, [] => .ok []
  | txIndex, ethTxIndex, (raw, result) :: rest =>
    (indexTx c height txIndex ethTxIndex raw result).bind fun records =>
      (indexTxs height (txIndex + 1) (ethTxIndex + .ofNat 32 records.length) rest).map
        (records ++ ·)

/-- The batch of `IndexBlock`. -/
def batch (block : Block R) (blockRes : BlockResults D) : Except QueryFailure (List Record) :=
  if blockRes.txsResults.length < block.txs.length then .error indexOutOfRange
  else indexTxs c block.height 0 0 (block.txs.zip blockRes.txsResults)

end IndexBlock

/-- The database of the indexer: the results by hash, and the hashes by block number and
index. -/
structure IndexerDB where
  byHash : FMap Hash TxResult
  byIndex : FMap Int (FMap Int Hash)

namespace IndexerDB

def empty : IndexerDB := ⟨∅, ∅⟩

/-- The hash at `TxIndexKey`. -/
def hashAt (db : IndexerDB) (blockNumber txIndex : Int) : Option Hash :=
  db.byIndex[blockNumber]?.bind fun hashes => hashes[txIndex]?

/-- `saveTxResult`. -/
def saveTxResult (db : IndexerDB) (record : Record) : IndexerDB where
  byHash := db.byHash.insert record.1 record.2
  byIndex := db.byIndex.insert record.2.height
    (((db.byIndex[record.2.height]?).getD ∅).insert record.2.ethTxIndex record.1)

/-- `IndexBlock`. -/
def indexBlock {R D V : Type} (c : Codec R D V) (db : IndexerDB) (block : Block R)
    (blockRes : BlockResults D) : Except QueryFailure IndexerDB :=
  (batch c block blockRes).map fun records => records.foldl saveTxResult db

/-- `GetByTxHash`. A result without a field that is set is saved as no bytes. -/
def getByTxHash (db : IndexerDB) (hash : Hash) : Except String TxResult :=
  match db.byHash[hash]? with
  | none => .error ("tx not found, hash: " ++ hashHex hash)
  | some r =>
    if r = ⟨0, 0, 0, 0, false, 0, 0⟩ then .error ("tx not found, hash: " ++ hashHex hash)
    else .ok r

/-- `GetByBlockAndIndex`. -/
def getByBlockAndIndex (db : IndexerDB) (blockNumber txIndex : Int) : Except String TxResult :=
  match db.hashAt blockNumber txIndex with
  | none => .error ("tx not found, block: " ++ toString blockNumber ++ ", eth-index: " ++
      toString txIndex)
  | some hash => db.getByTxHash hash

@[simp] theorem hashAt_saveTxResult (db : IndexerDB) (record : Record) (h i : Int) :
    (db.saveTxResult record).hashAt h i =
      if record.2.height = h ∧ record.2.ethTxIndex = i then some record.1 else db.hashAt h i := by
  simp only [hashAt, saveTxResult, FMap.get_insert]
  by_cases hh : record.2.height = h
  · subst hh
    by_cases hi : record.2.ethTxIndex = i
    · simp [hi]
    · cases hm : db.byIndex[record.2.height]? <;> simp [hi, FMap.get_insert]
  · simp [hh]

end IndexerDB

/-! ## What a batch holds -/

/-- Where a result was saved for. -/
def Record.place (q : Record) : Nat × Nat × Hash := (q.2.txIndex, q.2.msgIndex, q.1)

def Placement.place (p : Placement) : Nat × Nat × Hash := (p.txIndex, p.msgIndex, p.msg.hash)

section Batch

variable {R D V : Type} (c : Codec R D V)

/-- What the events of a transaction say of one of its messages, its gas and whether it failed.
They say nothing if the transaction is not an Ethereum one or if they do not parse. -/
def Tx.report (result : ExecTxResult D) (tx : Tx) (p : Placement) : Option (BitVec 64 × Bool) :=
  if isEthTx tx then
    (parseTxResult result tx).toOption.bind fun txs => usage result txs p.msgIndex p.msg
  else none

/-- What the events of a block say of one of its messages. -/
def Codec.report (b : Block R × BlockResults D) (p : Placement) : Option (BitVec 64 × Bool) :=
  b.1.txs[p.txIndex]?.bind fun raw => b.2.txsResults[p.txIndex]?.bind fun result =>
    (c.includedTx raw result).bind fun tx => tx.report result p

/-- The messages of which something is said, with whether they failed. -/
def reported (report : Placement → Option (BitVec 64 × Bool)) (places : List Placement) :
    List ((Nat × Nat × Hash) × Bool) :=
  places.filterMap fun p => (report p).map fun used => (p.place, used.2)

/-- The results are those of the messages in `said`, at the height and with consecutive
indices. -/
structure Numbered (height : Int) (start : BitVec 32) (said : List ((Nat × Nat × Hash) × Bool))
    (records : List Record) : Prop where
  said_eq : records.map (fun q => (q.place, q.2.failed)) = said
  fields : ∀ (k : Nat) q, records[k]? = some q →
    q.2.height = height ∧ q.2.ethTxIndex = (start + .ofNat 32 k).toInt

variable {c} {height : Int} {start : BitVec 32} {txIndex : Nat} {records : List Record}
  {result : ExecTxResult D} {said said' : List ((Nat × Nat × Hash) × Bool)}

theorem Numbered.nil (height : Int) (start : BitVec 32) : Numbered height start [] [] where
  said_eq := rfl
  fields k q hk := by simp at hk

theorem Numbered.cons {q : Record} {x : (Nat × Nat × Hash) × Bool}
    (hsaid : (q.place, q.2.failed) = x) (hheight : q.2.height = height)
    (hindex : q.2.ethTxIndex = start.toInt) (h : Numbered height (start + 1) said records) :
    Numbered height start (x :: said) (q :: records) where
  said_eq := by rw [map_cons, h.said_eq, hsaid]
  fields k q' hk := by
    cases k with
    | zero =>
      cases hk
      exact ⟨hheight, by simpa using hindex⟩
    | succ k =>
      obtain ⟨hheight', hindex'⟩ := h.fields k q' hk
      refine ⟨hheight', hindex'.trans (congrArg BitVec.toInt ?_)⟩
      rw [BitVec.ofNat_add, BitVec.add_assoc, BitVec.add_comm 1]
      rfl

theorem Numbered.append {records' : List Record} (h : Numbered height start said records)
    (h' : Numbered height (start + .ofNat 32 records.length) said' records') :
    Numbered height start (said ++ said') (records ++ records') where
  said_eq := by rw [map_append, h.said_eq, h'.said_eq]
  fields k q hk := by
    rw [getElem?_append] at hk
    split at hk
    · exact h.fields k q hk
    · rename_i hlt
      obtain ⟨hheight, hindex⟩ := h'.fields _ q hk
      refine ⟨hheight, hindex.trans (congrArg BitVec.toInt ?_)⟩
      rw [BitVec.add_assoc, ← BitVec.ofNat_add, Nat.add_sub_cancel' (not_lt.mp hlt)]

theorem indexMsgs_numbered {txs : List ParsedTx} {msgIndex : Nat} {cumulative : BitVec 64}
    {msgs : List Msg}
    (h : indexMsgs height txIndex result txs msgIndex start cumulative msgs = .ok records) :
    Numbered height start (reported (fun p => usage result txs p.msgIndex p.msg)
      ((msgs.zipIdx msgIndex).filterMap fun m =>
        m.1.ethereum?.map (Placement.mk txIndex m.2))) records := by
  induction msgs generalizing msgIndex start cumulative records with
  | nil =>
    cases h
    exact .nil ..
  | cons m rest ih =>
    cases m with
    | cosmos => simp [indexMsgs] at h
    | ethereum msg =>
      simp only [indexMsgs] at h
      change Numbered height start (reported _ (⟨txIndex, msgIndex, msg⟩ :: filterMap _ _)) _
      cases husage : usage result txs msgIndex msg with
      | none =>
        simp only [husage] at h
        rw [reported, filterMap_cons_none (by rw [husage]; rfl)]
        exact ih h
      | some used =>
        simp only [husage] at h
        obtain ⟨tail, htail, rfl⟩ := map_eq_ok.mp h
        rw [reported, filterMap_cons_some (by rw [husage]; rfl)]
        exact .cons rfl rfl rfl (ih htail)

theorem reported_eq_nil {report : Placement → Option (BitVec 64 × Bool)} {places : List Placement}
    (h : ∀ p ∈ places, report p = none) : reported report places = [] :=
  filterMap_eq_nil_iff.mpr fun p hp => by simp [h p hp]

theorem indexTx_numbered {raw : R} {tx : Tx} (htx : c.includedTx raw result = some tx)
    (h : indexTx c height txIndex start raw result = .ok records) :
    Numbered height start (reported (tx.report result) (tx.placements txIndex)) records := by
  simp only [indexTx, htx] at h
  split at h
  · rename_i hnot
    cases h
    rw [reported_eq_nil fun p _ => by simp_all [Tx.report]]
    exact .nil ..
  · rename_i heth
    cases hparse : parseTxResult result tx with
    | ok txs =>
      rw [hparse] at h
      have hreport : tx.report result = fun p => usage result txs p.msgIndex p.msg := by
        funext p
        simp_all [Tx.report, Except.toOption]
      rw [hreport]
      exact indexMsgs_numbered h
    | error failure =>
      cases failure with
      | err text =>
        rw [hparse] at h
        cases h
        rw [reported_eq_nil fun p _ => by simp [Tx.report, hparse, Except.toOption]]
        exact .nil ..
      | panic text => simp [hparse] at h

theorem indexTxs_numbered {items : List (R × ExecTxResult D)}
    (h : indexTxs c height txIndex start items = .ok records) :
    Numbered height start ((items.zipIdx txIndex).flatMap fun q =>
      ((c.includedTx q.1.1 q.1.2).map fun tx =>
        reported (tx.report q.1.2) (tx.placements q.2)).getD []) records := by
  induction items generalizing txIndex start records with
  | nil =>
    cases h
    exact .nil ..
  | cons item rest ih =>
    obtain ⟨first, hfirst, hrest⟩ := bind_eq_ok.mp h
    obtain ⟨tail, htail, rfl⟩ := map_eq_ok.mp hrest
    refine Numbered.append ?_ (ih htail)
    dsimp only
    cases htx : c.includedTx item.1 item.2 with
    | none =>
      simp only [indexTx, htx] at hfirst
      cases hfirst
      exact .nil ..
    | some tx => exact indexTx_numbered htx hfirst

/-- The results of a block are those of the messages that its events report, numbered from
zero. -/
theorem batch_numbered {block : Block R} {blockRes : BlockResults D}
    (h : batch c block blockRes = .ok records) :
    Numbered block.height 0
      (reported (c.report (block, blockRes)) (c.placements block blockRes)) records := by
  rw [batch] at h
  split at h
  · cases h
  · have hreported : reported (c.report (block, blockRes)) (c.placements block blockRes) =
        (block.txs.zip blockRes.txsResults).zipIdx.flatMap fun q =>
          ((c.includedTx q.1.1 q.1.2).map fun tx =>
            reported (tx.report q.1.2) (tx.placements q.2)).getD [] := by
      rw [reported, Codec.placements, filterMap_flatMap]
      refine flatMap_congr fun q hq => ?_
      obtain ⟨hraw, hres⟩ := getElem?_zip_eq_some.mp (mk_mem_zipIdx_iff_getElem?.mp hq)
      cases htx : c.includedTx q.1.1 q.1.2 with
      | none => rfl
      | some tx =>
        refine filterMap_congr fun p hp => ?_
        rw [Codec.report, (Tx.mem_placements.mp hp).1, hraw, hres]
        simp [htx]
    rw [hreported]
    exact indexTxs_numbered h

end Batch

/-! ## Chains -/

section Chain

variable {R D V : Type} {c : Codec R D V} {chain : List (Block R × BlockResults D)}

/-- What `IndexBlock` saves for a block. -/
def saved (c : Codec R D V) (b : Block R × BlockResults D) : List Record :=
  (batch c b.1 b.2).toOption.getD []

/-- The database after a list of blocks, if none of the calls panics. -/
def indexAll (c : Codec R D V) (db : IndexerDB) (chain : List (Block R × BlockResults D)) :
    Option IndexerDB :=
  Runs.run (fun db b => (db.indexBlock c b.1 b.2).toOption) db chain

/-- The heights of a chain increase, from 1 on, and an `int32` counts the messages of a block. -/
structure Heights (c : Codec R D V) (chain : List (Block R × BlockResults D)) : Prop where
  positive : ∀ b ∈ chain, 0 < b.1.height
  increasing : chain.Pairwise fun b b' => b.1.height < b'.1.height
  counted : ∀ b ∈ chain, (c.placements b.1 b.2).length ≤ 2 ^ 31

theorem indexAll_eq_some {db db' : IndexerDB} (h : indexAll c db chain = some db') :
    (∀ b ∈ chain, batch c b.1 b.2 = .ok (saved c b)) ∧
      db' = (chain.flatMap (saved c)).foldl IndexerDB.saveTxResult db := by
  induction chain generalizing db with
  | nil =>
    cases h
    exact ⟨fun b hb => by simp at hb, rfl⟩
  | cons b rest ih =>
    obtain ⟨db₁, hstep, hrest⟩ := Option.bind_eq_some_iff.mp h
    obtain ⟨records, hbatch, rfl⟩ := map_eq_ok.mp (toOption_eq_some.mp hstep)
    have hsaved : saved c b = records := by simp [saved, hbatch, Except.toOption]
    obtain ⟨hall, rfl⟩ := ih hrest
    constructor
    · intro b' hb'
      rcases mem_cons.mp hb' with rfl | hb'
      · rw [hsaved, hbatch]
      · exact hall b' hb'
    · rw [flatMap_cons, foldl_append, hsaved]

/-- The block number and the index of a result. -/
def Record.position (q : Record) : Int × Int := (q.2.height, q.2.ethTxIndex)

/-- A result that is saved is numbered by its place in the batch of its block. -/
theorem Heights.fields (hheights : Heights c chain)
    (hall : ∀ b ∈ chain, batch c b.1 b.2 = .ok (saved c b)) {b : Block R × BlockResults D}
    (hb : b ∈ chain) {k : Nat} {q : Record} (hk : (saved c b)[k]? = some q) :
    q.position = (b.1.height, (k : Int)) := by
  have hnumbered := batch_numbered (hall b hb)
  have hlength : (saved c b).length ≤ 2 ^ 31 := by
    rw [← length_map (fun q : Record => (q.place, q.2.failed)), hnumbered.said_eq]
    exact (length_filterMap_le ..).trans (hheights.counted b hb)
  obtain ⟨hheight, hindex⟩ := hnumbered.fields k q hk
  have hlt := (List.getElem?_eq_some_iff.mp hk).1
  rw [Record.position, hheight, hindex, zero_add, BitVec.toInt_ofNat',
    Int.bmod_eq_of_le (by omega) (by omega)]

theorem position_nodup (hheights : Heights c chain)
    (hall : ∀ b ∈ chain, batch c b.1 b.2 = .ok (saved c b)) :
    ((chain.flatMap (saved c)).map Record.position).Nodup := by
  rw [map_flatMap, nodup_flatMap]
  constructor
  · intro b hb
    rw [nodup_iff_getElem?_ne_getElem?]
    intro i j hij hj heq
    rw [length_map] at hj
    rw [getElem?_map, getElem?_map, getElem?_eq_getElem hj, getElem?_eq_getElem (hij.trans hj),
      Option.map_some, Option.map_some, hheights.fields hall hb (getElem?_eq_getElem hj),
      hheights.fields hall hb (getElem?_eq_getElem (hij.trans hj))] at heq
    simp at heq
    omega
  · refine hheights.increasing.imp_of_mem fun {b b'} hb hb' hlt => ?_
    intro x hx hx'
    obtain ⟨q, hq, rfl⟩ := mem_map.mp hx
    obtain ⟨q', hq', heq⟩ := mem_map.mp hx'
    obtain ⟨k, hk⟩ := mem_iff_getElem?.mp hq
    obtain ⟨k', hk'⟩ := mem_iff_getElem?.mp hq'
    rw [hheights.fields hall hb hk, hheights.fields hall hb' hk'] at heq
    exact hlt.ne' (congrArg Prod.fst heq)

end Chain

end InfiniteEvm.Rpc
