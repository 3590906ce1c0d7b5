import InfiniteEvm.Rpc.Endpoints
import InfiniteEvm.Rpc.Indexer

/-!
# Lookups in the indexer

When the lookups by hash and by position agree with the chain, over every list of indexed
blocks.
-/

namespace InfiniteEvm.Rpc

open Library Outcomes LastWrites List Codec Record

variable {R D V : Type} {c : Codec R D V} {chain : List (Block R × BlockResults D)}
  {db : IndexerDB}

/-! ## The database of a chain -/

theorem hashAt_indexAll (hheights : Heights c chain) (h : indexAll c .empty chain = some db)
    {height i : Int} {hash : Hash} :
    db.hashAt height i = some hash ↔
      ∃ q ∈ chain.flatMap (saved c), q.position = (height, i) ∧ q.1 = hash := by
  obtain ⟨hall, rfl⟩ := indexAll_eq_some h
  have hnodup := position_nodup hheights hall
  have hlast := (nodup_map_iff (Nodup.of_map _ hnodup)).mp hnodup
  have hread : ∀ (d : IndexerDB) (q : Record) (k : Int × Int),
      (d.saveTxResult q).hashAt k.1 k.2 =
        if q.position = k then some q.1 else d.hashAt k.1 k.2 := by
    simp [position]
  rw [read_foldl_eq_some (fun (d : IndexerDB) (k : Int × Int) => d.hashAt k.1 k.2) hread
    (k := (height, i)) rfl]
  constructor
  · rintro ⟨q, hq, hhash⟩
    exact ⟨q, (mem_of_lastWrite hq).1, (mem_of_lastWrite hq).2, hhash⟩
  · rintro ⟨q, hq, hposition, hhash⟩
    exact ⟨q, hposition ▸ hlast q hq, hhash⟩

variable {r : TxResult}

theorem byHash_indexAll (h : indexAll c .empty chain = some db) {hash : Hash} :
    db.byHash[hash]? = some r ↔
      lastWrite Prod.fst (chain.flatMap (saved c)) hash = some (hash, r) := by
  obtain ⟨-, rfl⟩ := indexAll_eq_some h
  have hread : ∀ (d : IndexerDB) (q : Record) (k : Hash),
      (d.saveTxResult q).byHash[k]? = if q.1 = k then some q.2 else d.byHash[k]? :=
    fun d q k => FMap.get_insert ..
  rw [read_foldl_eq_some (fun (d : IndexerDB) (k : Hash) => d.byHash[k]?) hread
    (by simp [IndexerDB.empty])]
  constructor
  · rintro ⟨⟨hash', r'⟩, hq, rfl⟩
    obtain rfl : hash' = hash := (mem_of_lastWrite hq).2
    exact hq
  · intro hq
    exact ⟨_, hq, rfl⟩

theorem Heights.eq_of_height (hheights : Heights c chain) {b b' : Block R × BlockResults D}
    (hb : b ∈ chain) (hb' : b' ∈ chain) (heq : b.1.height = b'.1.height) : b = b' := by
  have hnodup : (chain.map fun b => b.1.height).Nodup :=
    pairwise_map.mpr (hheights.increasing.imp ne_of_lt)
  exact inj_on_of_nodup_map hnodup hb hb' heq

theorem mem_saved (hheights : Heights c chain)
    (hall : ∀ b ∈ chain, batch c b.1 b.2 = .ok (saved c b)) {q : Record}
    (hq : q ∈ chain.flatMap (saved c)) : ∃ b ∈ chain, ∃ k : Nat, (saved c b)[k]? = some q ∧
      q.position = (b.1.height, (k : Int)) := by
  obtain ⟨b, hb, hmem⟩ := mem_flatMap.mp hq
  obtain ⟨k, hk⟩ := mem_iff_getElem?.mp hmem
  exact ⟨b, hb, k, hk, hheights.fields hall hb hk⟩

theorem getByTxHash_eq_ok (hheights : Heights c chain) (h : indexAll c .empty chain = some db)
    {hash : Hash} : db.getByTxHash hash = .ok r ↔
      lastWrite Prod.fst (chain.flatMap (saved c)) hash = some (hash, r) := by
  rw [← byHash_indexAll h, IndexerDB.getByTxHash]
  cases hr : db.byHash[hash]? with
  | none => simp
  | some r' =>
    obtain ⟨b, hb, k, -, hposition⟩ := mem_saved hheights (indexAll_eq_some h).1
      (mem_of_lastWrite ((byHash_indexAll h).mp hr)).1
    have hheight : r'.height = b.1.height := congrArg Prod.fst hposition
    have hpositive := hheights.positive b hb
    have hset : r' ≠ ⟨0, 0, 0, 0, false, 0, 0⟩ := by
      rintro rfl
      change (0 : Int) = _ at hheight
      omega
    dsimp only
    rw [if_neg hset]
    simp

/-! ## Agreement with the chain -/

/-- The transaction of the message succeeded, and so did the message. -/
def Succeeded (c : Codec R D V) (blockRes : BlockResults D) (p : Placement) : Prop :=
  ∃ res responses rsp, blockRes.txsResults[p.txIndex]? = some res ∧ res.code = 0 ∧
    c.decodeTxResponses res.data = .ok responses ∧ responses[p.msgIndex]? = some rsp ∧
    rsp.failed = false

/-- The lookups agree with the chain: by position every entry leads to a result of that height
and index, which is the position of the message in the block, and by hash a message that
succeeded leads to its success. -/
structure Agrees (c : Codec R D V) (chain : List (Block R × BlockResults D)) (db : IndexerDB) :
    Prop where
  positions : ∀ b ∈ chain, ∀ i hash, db.hashAt b.1.height i = some hash →
    ∃ r p, ∃ k : Nat, db.getByBlockAndIndex b.1.height i = .ok r ∧ r.height = b.1.height ∧
      r.ethTxIndex = i ∧ i = k ∧ (c.placements b.1 b.2)[k]? = some p ∧
      (c.ethMsgs b.1 b.2)[k]? = some p.msg ∧ place (hash, r) = p.place
  successes : ∀ b ∈ chain, ∀ p ∈ c.placements b.1 b.2, Succeeded c b.2 p →
    ∃ r, db.getByTxHash p.msg.hash = .ok r ∧ r.height = b.1.height ∧
      place (p.msg.hash, r) = p.place ∧ r.failed = false

/-- The messages of a block that its events report: those of an Ethereum transaction whose
events parse and have the message. -/
def Codec.reportedMsgs (c : Codec R D V) (b : Block R × BlockResults D) : List Placement :=
  (c.placements b.1 b.2).filter fun p => (c.report b p).isSome

/-- No message is reported twice, in every block the messages that the events pass over come
last, and the events report every message that succeeded as a success. -/
structure ReportedOnce (c : Codec R D V) (chain : List (Block R × BlockResults D)) : Prop where
  once : ((chain.flatMap c.reportedMsgs).map fun p => p.msg.hash).Nodup
  first : ∀ b ∈ chain, c.reportedMsgs b <+: c.placements b.1 b.2
  successes : ∀ b ∈ chain, ∀ p ∈ c.placements b.1 b.2, Succeeded c b.2 p →
    ∃ gasUsed, c.report b p = some (gasUsed, false)

theorem map_fst_reported {report : Placement → Option (BitVec 64 × Bool)}
    (places : List Placement) : (reported report places).map Prod.fst =
      (places.filter fun p => (report p).isSome).map Placement.place := by
  induction places with
  | nil => rfl
  | cons p rest ih =>
    rw [reported] at ih ⊢
    cases hp : report p <;> simp [hp, ih]

/-- `IndexBlock` saves the messages that are reported. -/
theorem saved_place {b : Block R × BlockResults D} (h : batch c b.1 b.2 = .ok (saved c b)) :
    (saved c b).map Record.place = (c.reportedMsgs b).map Placement.place := by
  rw [Codec.reportedMsgs, ← map_fst_reported, ← (batch_numbered h).said_eq, map_map]
  rfl

theorem saved_hash (hall : ∀ b ∈ chain, batch c b.1 b.2 = .ok (saved c b)) :
    (chain.flatMap (saved c)).map Prod.fst =
      (chain.flatMap c.reportedMsgs).map fun p => p.msg.hash := by
  rw [map_flatMap, map_flatMap]
  refine flatMap_congr fun b hb => ?_
  have hplace := congrArg (map fun x : Nat × Nat × Hash => x.2.2) (saved_place (hall b hb))
  rw [map_map, map_map] at hplace
  exact hplace

theorem Codec.placements_inj {b : Block R × BlockResults D} {p p' : Placement}
    (hp : p ∈ c.placements b.1 b.2) (hp' : p' ∈ c.placements b.1 b.2) (h : p.place = p'.place) :
    p = p' := by
  obtain ⟨i, j, msg⟩ := p
  obtain ⟨i', j', msg'⟩ := p'
  obtain ⟨rfl, hrest⟩ := Prod.mk.inj h
  obtain ⟨rfl, -⟩ := Prod.mk.inj hrest
  obtain ⟨raw, res, tx, hraw, hres, htx, hmsg⟩ := c.mem_placements.mp hp
  obtain ⟨raw', res', tx', hraw', hres', htx', hmsg'⟩ := c.mem_placements.mp hp'
  grind

section

variable (hheights : Heights c chain) (h : indexAll c .empty chain = some db)
include hheights h

/-- An entry that leads to its own height and index leads to the result saved with it. -/
theorem lastWrite_of_position {q : Record} (hq : q ∈ chain.flatMap (saved c))
    (hget : db.getByBlockAndIndex q.2.height q.2.ethTxIndex = .ok r)
    (hheight : r.height = q.2.height) (hindex : r.ethTxIndex = q.2.ethTxIndex) :
    r = q.2 ∧ lastWrite Prod.fst (chain.flatMap (saved c)) q.1 = some q := by
  have hat : db.hashAt q.2.height q.2.ethTxIndex = some q.1 :=
    (hashAt_indexAll hheights h).mpr ⟨q, hq, rfl, rfl⟩
  rw [IndexerDB.getByBlockAndIndex, hat] at hget
  have hlast := (getByTxHash_eq_ok hheights h).mp hget
  have hsame : ((q.1, r) : Record) = q :=
    inj_on_of_nodup_map (position_nodup hheights (indexAll_eq_some h).1)
      (mem_of_lastWrite hlast).1 hq (Prod.ext hheight hindex)
  exact ⟨congrArg Prod.snd hsame, hsame ▸ hlast⟩

theorem Agrees.reportedOnce (hagrees : Agrees c chain db) : ReportedOnce c chain := by
  have hall := (indexAll_eq_some h).1
  -- the entry of a saved result, as the lookup by position sees it
  have hentry : ∀ b ∈ chain, ∀ (k : Nat) q, (saved c b)[k]? = some q →
      lastWrite Prod.fst (chain.flatMap (saved c)) q.1 = some q ∧
      ∃ p, (c.placements b.1 b.2)[k]? = some p ∧ q.place = p.place := by
    intro b hb k q hk
    have hq : q ∈ chain.flatMap (saved c) := mem_flatMap.mpr ⟨b, hb, mem_of_getElem? hk⟩
    have hposition := hheights.fields hall hb hk
    obtain ⟨hheight, hindex⟩ := Prod.mk.inj hposition
    have hat : db.hashAt b.1.height q.2.ethTxIndex = some q.1 :=
      (hashAt_indexAll hheights h).mpr ⟨q, hq, by rw [hposition, hindex], rfl⟩
    obtain ⟨r, p, k', hget, hheight', hindex', hk', hp, -, hplace⟩ := hagrees.positions b hb _ _ hat
    rw [← hheight] at hget hheight'
    obtain ⟨rfl, hlast⟩ := lastWrite_of_position hheights h hq hget hheight' hindex'
    obtain rfl : k' = k := by omega
    exact ⟨hlast, p, hp, hplace⟩
  refine ⟨?_, ?_, ?_⟩
  · rw [← saved_hash hall]
    refine (nodup_map_iff (Nodup.of_map _ (position_nodup hheights hall))).mpr fun q hq => ?_
    obtain ⟨b, hb, k, hk, -⟩ := mem_saved hheights hall hq
    exact (hentry b hb k q hk).1
  · intro b hb
    rw [prefix_iff_getElem?]
    intro k hk
    have hplaces := congrArg (·[k]?) (saved_place (hall b hb))
    simp only [getElem?_map, getElem?_eq_getElem hk] at hplaces
    obtain ⟨q, hq, hplace⟩ := Option.map_eq_some_iff.mp hplaces
    obtain ⟨-, p, hp, hplace'⟩ := hentry b hb k q hq
    rw [hp, c.placements_inj (mem_of_getElem? hp) (mem_of_mem_filter (getElem_mem hk))
      (hplace'.symm.trans hplace)]
  · intro b hb p hp hsucceeded
    obtain ⟨r, hget, hheight, hplace, hfailed⟩ := hagrees.successes b hb p hp hsucceeded
    have hmem := (mem_of_lastWrite ((getByTxHash_eq_ok hheights h).mp hget)).1
    obtain ⟨b', hb', k, hk, hposition⟩ := mem_saved hheights hall hmem
    obtain rfl : b = b' :=
      hheights.eq_of_height hb hb' (hheight.symm.trans (congrArg Prod.fst hposition))
    have hsaid := mem_map_of_mem (f := fun q : Record => (q.place, q.2.failed)) (mem_of_getElem? hk)
    rw [(batch_numbered (hall b hb)).said_eq] at hsaid
    obtain ⟨p', hp', hreport⟩ := mem_filterMap.mp hsaid
    obtain ⟨used, hused, heq⟩ := Option.map_eq_some_iff.mp hreport
    obtain ⟨hplace', hfailed'⟩ := Prod.mk.inj heq
    obtain rfl := c.placements_inj hp' hp (hplace'.trans hplace)
    exact ⟨used.1, hused.trans (congrArg (fun x => some (used.1, x)) (hfailed'.trans hfailed))⟩

theorem ReportedOnce.agrees (hreported : ReportedOnce c chain) : Agrees c chain db := by
  have hall := (indexAll_eq_some h).1
  have honce := hreported.once
  rw [← saved_hash hall] at honce
  have hget : ∀ q ∈ chain.flatMap (saved c), db.getByTxHash q.1 = .ok q.2 := fun q hq =>
    (getByTxHash_eq_ok hheights h).mpr
      ((nodup_map_iff (List.Nodup.of_map _ (position_nodup hheights hall))).mp honce q hq)
  constructor
  · intro b hb i hash hat
    obtain ⟨q, hq, hposition, rfl⟩ := (hashAt_indexAll hheights h).mp hat
    obtain ⟨b', hb', k, hk, hposition'⟩ := mem_saved hheights hall hq
    obtain ⟨hheight, hindex⟩ := Prod.mk.inj (hposition.symm.trans hposition')
    obtain rfl : b = b' := hheights.eq_of_height hb hb' hheight
    have hplaces := congrArg (·[k]?) (saved_place (hall b hb))
    simp only [getElem?_map, hk] at hplaces
    obtain ⟨p, hpk, hpplace⟩ := Option.map_eq_some_iff.mp hplaces.symm
    obtain ⟨hlt, hget'⟩ := List.getElem?_eq_some_iff.mp hpk
    have hp := prefix_iff_getElem?.mp (hreported.first b hb) k hlt
    rw [hget'] at hp
    refine ⟨q.2, p, k, ?_, congrArg Prod.fst hposition, congrArg Prod.snd hposition, hindex, hp,
      ?_, hpplace.symm⟩
    · rw [IndexerDB.getByBlockAndIndex, hat]
      exact hget q hq
    · rw [← c.placements_map_msg]
      simp [hp]
  · intro b hb p hp hsucceeded
    obtain ⟨gasUsed, hreport⟩ := hreported.successes b hb p hp hsucceeded
    have hsaid : (p.place, false) ∈ (saved c b).map fun q => (q.place, q.2.failed) := by
      rw [(batch_numbered (hall b hb)).said_eq]
      exact mem_filterMap.mpr ⟨p, hp, by rw [hreport]; rfl⟩
    obtain ⟨q, hq, heq⟩ := mem_map.mp hsaid
    obtain ⟨hplace, hfailed⟩ := Prod.mk.inj heq
    have hhash : q.1 = p.msg.hash := congrArg (fun x => x.2.2) hplace
    obtain ⟨k, hk⟩ := List.mem_iff_getElem?.mp hq
    refine ⟨q.2, ?_, congrArg Prod.fst (hheights.fields hall hb hk), ?_, hfailed⟩
    · rw [← hhash]
      exact hget q (List.mem_flatMap.mpr ⟨b, hb, hq⟩)
    · rw [← hhash]
      exact hplace

end

/-- The lookups agree with the chain exactly if no message is reported twice and every block
reports its first messages, with its successes. -/
theorem lookups_agree_iff (hheights : Heights c chain) (h : indexAll c .empty chain = some db) :
    Agrees c chain db ↔ ReportedOnce c chain :=
  ⟨fun hagrees => hagrees.reportedOnce hheights h, fun hreported => hreported.agrees hheights h⟩

/-! ## A transaction in two blocks -/

/-- The events of a transfer, from the ante handler and from its execution. -/
def transferEvents : List Event :=
  [⟨"ethereum_tx", [⟨"ethereumTxHash", "0x01"⟩, ⟨"txIndex", "0"⟩]⟩,
    ⟨"ethereum_tx", [⟨"amount", "0"⟩, ⟨"ethereumTxHash", "0x01"⟩, ⟨"txGasUsed", "21000"⟩]⟩]

/-- A block with one transfer, and its results when the transfer succeeds or finds no block
gas. -/
def transferBlock (height : Int) (hash : Hash) (succeeds : Bool) :
    Block Tx × BlockResults (List (Any MsgEthereumTxResponse)) :=
  (⟨height, [], [transferTx hash]⟩,
    ⟨height, [if succeeds then { transferred hash with events := transferEvents }
      else outOfBlockGas], []⟩)

/-- A transfer that fails in block 1 and succeeds in block 2 is found at height 2 when it is
asked for at height 1, and one that succeeds first and fails later is found as a failure. -/
theorem lookups_disagree :
    (indexAll plain .empty [transferBlock 1 1 false, transferBlock 2 1 true]).map
      (fun db => (db.getByBlockAndIndex 1 0).toOption.map TxResult.height) = some (some 2) ∧
    (indexAll plain .empty [transferBlock 1 1 true, transferBlock 2 1 false]).map
      (fun db => (db.getByTxHash 1).toOption.map TxResult.failed) = some (some true) := by
  constructor <;> decide +kernel

/-- Two blocks with a transfer each. -/
theorem lookups_agree_iff_distinct :
    ∃ db, indexAll plain .empty [transferBlock 1 1 true, transferBlock 2 2 true] = some db ∧
      Agrees plain [transferBlock 1 1 true, transferBlock 2 2 true] db := by
  have hsome : (indexAll plain .empty
      [transferBlock 1 1 true, transferBlock 2 2 true]).isSome := by decide +kernel
  obtain ⟨db, hdb⟩ := Option.isSome_iff_exists.mp hsome
  refine ⟨db, hdb, (lookups_agree_iff ⟨?_, ?_, ?_⟩ hdb).mpr ⟨?_, ?_, ?_⟩⟩
  · decide +kernel
  · decide +kernel
  · decide +kernel
  · decide +kernel
  · decide +kernel
  · have hall : ∀ b ∈ [transferBlock 1 1 true, transferBlock 2 2 true],
        ∀ p ∈ plain.placements b.1 b.2, plain.report b p = some (21000, false) := by decide +kernel
    exact fun b hb p hp _ => ⟨_, hall b hb p hp⟩

end InfiniteEvm.Rpc
