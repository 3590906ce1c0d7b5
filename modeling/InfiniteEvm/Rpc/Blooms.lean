import InfiniteEvm.Library.Bloom
import InfiniteEvm.Rpc.Blocks

/-!
# The bloom filter of a block

`ApplyTransaction` keeps a bloom filter of the logs the EVM emitted, before the hooks run,
and drops it with the transaction. `CollectTxBloom` joins the filters of a block.
-/

namespace InfiniteEvm.Rpc

open Std Library List Bloom

abbrev BloomFilter := BitVec 2048

/-! ## `ApplyTransaction` -/

/-- A hook: the name of its type, and its `PostTxProcessing`, as far as the logs of the receipt
are concerned. A context stands for the state the hook sees. -/
structure Hook (C : Type) where
  typeName : String
  post : C → MsgEthereumTx → List EthLog → Except String (List EthLog)

/-- `PostTxProcessing` of `MultiEvmHooks`. -/
def postTxProcessing {C : Type} (ctx : C) (msg : MsgEthereumTx) :
    List (Hook C) → List EthLog → Except String (List EthLog)
  | [], logs => .ok logs
  | hook :: rest, logs =>
    match hook.post ctx msg logs with
    | .error err => .error ("EVM hook " ++ hook.typeName ++ " failed: " ++ err)
    | .ok logs => postTxProcessing ctx msg rest logs

/-- What a log adds to a bloom filter: its address and its topics. -/
def EthLog.items (log : EthLog) : List Bytes :=
  addressBytes log.address :: log.topics.map hashBytes

/-- `logsBloom`. -/
def logsBloom (pattern : Bytes → BloomFilter) (logs : List EthLog) : BloomFilter :=
  ofList pattern (logs.flatMap EthLog.items)

section Apply

variable {C : Type} (pattern : Bytes → BloomFilter) (hooks : Option (List (Hook C)))

/-- `ApplyTransaction` from the response of the EVM to the refund: the response that is
returned, and the filter that is kept with the state. -/
def applyTransaction (ctx : C) (msg : MsgEthereumTx) (res : MsgEthereumTxResponse) :
    MsgEthereumTxResponse × Option BloomFilter :=
  let bloom := if res.logs = [] then none else some (logsBloom pattern res.logs)
  -- the context of a failed message is replaced by a new one
  let kept := if res.failed then none else bloom
  match hooks with
  | none => (res, kept)
  | some hooks =>
    match postTxProcessing ctx msg hooks res.logs with
    | .error err =>
      ({ res with
         vmError := "failed to execute post transaction processing: " ++ err
         logs := [] }, none)
    | .ok logs => ({ res with logs := if res.failed then [] else logs }, kept)

/-- The execution of a message: what `ApplyMessageWithConfig` returns, and whether the gas is
refunded and counted without an error. -/
structure Execution (C : Type) where
  msg : MsgEthereumTx
  ctx : C
  applied : Except String MsgEthereumTxResponse
  settled : Except String Unit

/-- `ApplyTransaction`. -/
def Execution.run (e : Execution C) : Except String (MsgEthereumTxResponse × Option BloomFilter) :=
  match e.applied with
  | .error err => .error ("failed to apply ethereum core message: " ++ err)
  | .ok res =>
    match e.settled with
    | .error err => .error err
    | .ok () => .ok (applyTransaction pattern hooks e.ctx e.msg res)

/-- `ObjectBloomKey`, its two numbers read as one big-endian number. -/
def objectBloomKey (txIndex msgIndex : Nat) : Nat := txIndex * 2 ^ 64 + msgIndex

/-- `SetTxBloom`, if there is a filter to keep. -/
def setTxBloom (store : FMap Nat BloomFilter) (txIndex msgIndex : Nat) :
    Option BloomFilter → FMap Nat BloomFilter
  | none => store
  | some bloom => store.insert (objectBloomKey txIndex msgIndex) bloom

/-- The messages of a transaction, from one on. -/
def runMsgs (txIndex : Nat) : Nat → FMap Nat BloomFilter → List (Execution C) →
    Except String (List MsgEthereumTxResponse × FMap Nat BloomFilter)
  | _, store, [] => .ok ([], store)
  | msgIndex, store, e :: rest =>
    match e.run pattern hooks with
    | .error err => .error err
    | .ok (rsp, bloom) =>
      (runMsgs txIndex (msgIndex + 1) (setTxBloom store txIndex msgIndex bloom) rest).map
        fun (responses, store) => (rsp :: responses, store)

/-- A transaction: its responses and the store, which a failed one leaves as it was. -/
def deliverTx (txIndex : Nat) (store : FMap Nat BloomFilter) (tx : List (Execution C)) :
    List MsgEthereumTxResponse × FMap Nat BloomFilter :=
  match runMsgs pattern hooks txIndex 0 store tx with
  | .error _ => ([], store)
  | .ok out => out

/-- The transactions of a block, from one on. A Cosmos transaction executes no Ethereum
message. -/
def deliverTxs : Nat → FMap Nat BloomFilter → List (List (Execution C)) →
    List (List MsgEthereumTxResponse) × FMap Nat BloomFilter
  | _, store, [] => ([], store)
  | txIndex, store, tx :: rest =>
    let (responses, store) := deliverTx pattern hooks txIndex store tx
    let (others, store) := deliverTxs (txIndex + 1) store rest
    (responses :: others, store)

end Apply

/-- `CollectTxBloom`: the filter of the block, and the store after it. -/
def collectTxBloom (store : FMap Nat BloomFilter) : BloomFilter × FMap Nat BloomFilter :=
  (union (store.toList.map Prod.snd), ∅)

/-! ## Which logs the filter has -/

/-- The filter finds the address and the topics of the log. -/
def Covers (pattern : Bytes → BloomFilter) (bloom : BloomFilter) (log : EthLog) : Prop :=
  ∀ d ∈ log.items, test pattern bloom d = true

variable {log : EthLog}

theorem covers_iff {pattern : Bytes → BloomFilter} {bloom : BloomFilter} :
    Covers pattern bloom log ↔ test pattern bloom (addressBytes log.address) = true ∧
      ∀ topic ∈ log.topics, test pattern bloom (hashBytes topic) = true := by
  simp only [Covers, EthLog.items, forall_mem_cons, forall_mem_map]

section Cover

variable {C : Type} {pattern : Bytes → BloomFilter} {hooks : Option (List (Hook C))}

theorem logsBloom_covers {logs : List EthLog} (h : log ∈ logs) :
    Covers pattern (logsBloom pattern logs) log :=
  fun _ hd => test_ofList (mem_flatMap.mpr ⟨log, h, hd⟩)

/-- The hooks add no log to those the EVM emitted, and where there are none a message that
failed has no log. -/
structure Execution.KeepsLogs (hooks : Option (List (Hook C))) (e : Execution C) : Prop where
  hooked : ∀ res hs logs, e.applied = .ok res → hooks = some hs →
    postTxProcessing e.ctx e.msg hs res.logs = .ok logs → logs ⊆ res.logs
  failed : ∀ res, e.applied = .ok res → hooks = none → res.failed = true → res.logs = []

variable {e : Execution C}

/-- A message that keeps its logs keeps the filter of them if the response has logs. -/
theorem Execution.KeepsLogs.kept (h : e.KeepsLogs hooks) {res : MsgEthereumTxResponse}
    (happlied : e.applied = .ok res)
    (hlog : log ∈ (applyTransaction pattern hooks e.ctx e.msg res).1.logs) : log ∈ res.logs ∧
      (applyTransaction pattern hooks e.ctx e.msg res).2 = some (logsBloom pattern res.logs) := by
  unfold applyTransaction at hlog ⊢
  cases hooks with
  | none =>
    have hfailed : res.failed ≠ true := fun hfailed => by
      simp [h.failed res happlied rfl hfailed] at hlog
    exact ⟨hlog, by simp [hfailed, ne_nil_of_mem hlog]⟩
  | some hooks =>
    dsimp only at hlog ⊢
    cases hpost : postTxProcessing e.ctx e.msg hooks res.logs with
    | error err => simp [hpost] at hlog
    | ok logs =>
      cases hfailed : res.failed with
      | true => simp [hpost, hfailed] at hlog
      | false =>
        have hmem : log ∈ res.logs :=
          h.hooked res hooks logs happlied rfl hpost (by simpa [hpost, hfailed] using hlog)
        exact ⟨hmem, by simp [ne_nil_of_mem hmem]⟩

/-- A message that keeps its logs keeps a filter for them. -/
theorem Execution.KeepsLogs.covers {rsp : MsgEthereumTxResponse} {bloom : Option BloomFilter}
    (h : e.KeepsLogs hooks) (hrun : e.run pattern hooks = .ok (rsp, bloom))
    (hlog : log ∈ rsp.logs) : ∃ b, bloom = some b ∧ Covers pattern b log := by
  unfold Execution.run at hrun
  cases happlied : e.applied with
  | error err => simp [happlied] at hrun
  | ok res =>
    rw [happlied] at hrun
    cases hsettled : e.settled with
    | error err => simp [hsettled] at hrun
    | ok u =>
      simp only [hsettled, Except.ok.injEq] at hrun
      have hlog' : log ∈ (applyTransaction pattern hooks e.ctx e.msg res).1.logs := by
        rw [hrun]
        exact hlog
      have hkept := h.kept happlied hlog'
      rw [hrun] at hkept
      exact ⟨_, hkept.2, logsBloom_covers hkept.1⟩

theorem setTxBloom_of_lt {store : FMap Nat BloomFilter} {txIndex msgIndex key : Nat}
    (hkey : key < objectBloomKey txIndex msgIndex) (bloom : Option BloomFilter) :
    (setTxBloom store txIndex msgIndex bloom)[key]? = store[key]? := by
  cases bloom with
  | none => rfl
  | some b => rw [setTxBloom, FMap.get_insert, if_neg (by omega)]

/-- The store has a filter below a key that finds the log. -/
def Stored (pattern : Bytes → BloomFilter) (store : FMap Nat BloomFilter) (bound : Nat)
    (log : EthLog) : Prop :=
  ∃ key < bound, ∃ b, store[key]? = some b ∧ Covers pattern b log

theorem Stored.mono {store store' : FMap Nat BloomFilter} {bound bound' : Nat}
    (h : Stored pattern store bound log) (hle : bound ≤ bound')
    (hsame : ∀ key < bound, store'[key]? = store[key]?) : Stored pattern store' bound' log := by
  obtain ⟨key, hkey, b, hb, hcovers⟩ := h
  exact ⟨key, by omega, b, (hsame key hkey).trans hb, hcovers⟩

variable {tx : List (Execution C)}

/-- The messages of a transaction leave the filters of earlier ones, and add one for the logs
of each. -/
theorem runMsgs_stored {txIndex msgIndex : Nat} {store store' : FMap Nat BloomFilter}
    {responses : List MsgEthereumTxResponse} (hkeeps : ∀ e ∈ tx, e.KeepsLogs hooks)
    (h : runMsgs pattern hooks txIndex msgIndex store tx = .ok (responses, store')) :
    (∀ key < objectBloomKey txIndex msgIndex, store'[key]? = store[key]?) ∧
    ∀ rsp ∈ responses, ∀ log ∈ rsp.logs,
      Stored pattern store' (objectBloomKey txIndex (msgIndex + tx.length)) log := by
  induction tx generalizing msgIndex store responses with
  | nil =>
    obtain ⟨rfl, rfl⟩ := Prod.mk.inj (Except.ok.inj h)
    exact ⟨fun _ _ => rfl, fun rsp hrsp => by simp at hrsp⟩
  | cons e rest ih =>
    unfold runMsgs at h
    cases hrun : e.run pattern hooks with
    | error err => simp [hrun] at h
    | ok out =>
      obtain ⟨rsp, bloom⟩ := out
      simp only [hrun] at h
      obtain ⟨⟨others, store''⟩, hrest, heq⟩ := Outcomes.map_eq_ok.mp h
      obtain ⟨rfl, rfl⟩ := Prod.mk.inj heq
      obtain ⟨hsame, hstored⟩ := ih (fun e' he' => hkeeps e' (mem_cons_of_mem _ he')) hrest
      have hnext : objectBloomKey txIndex msgIndex < objectBloomKey txIndex (msgIndex + 1) := by
        unfold objectBloomKey
        omega
      refine ⟨fun key hkey => ?_, fun rsp' hrsp' log hlog => ?_⟩
      · rw [hsame key (by omega), setTxBloom_of_lt hkey]
      · rw [length_cons, show msgIndex + (rest.length + 1) = msgIndex + 1 + rest.length by omega]
        rcases mem_cons.mp hrsp' with rfl | hrsp'
        · obtain ⟨b, rfl, hcovers⟩ := (hkeeps e (mem_cons_self ..)).covers hrun hlog
          refine ⟨objectBloomKey txIndex msgIndex, ?_, b, ?_, hcovers⟩
          · unfold objectBloomKey
            omega
          · rw [hsame _ hnext, setTxBloom, FMap.get_insert, if_pos rfl]
        · exact hstored rsp' hrsp' log hlog

theorem deliverTx_stored (txIndex : Nat) (store : FMap Nat BloomFilter)
    (hkeeps : ∀ e ∈ tx, e.KeepsLogs hooks) (hlength : tx.length < 2 ^ 64) :
    (∀ key < objectBloomKey txIndex 0,
      (deliverTx pattern hooks txIndex store tx).2[key]? = store[key]?) ∧
    ∀ rsp ∈ (deliverTx pattern hooks txIndex store tx).1, ∀ log ∈ rsp.logs,
      Stored pattern (deliverTx pattern hooks txIndex store tx).2
        (objectBloomKey (txIndex + 1) 0) log := by
  unfold deliverTx
  cases hrun : runMsgs pattern hooks txIndex 0 store tx with
  | error err => exact ⟨fun _ _ => rfl, fun rsp hrsp => by simp at hrsp⟩
  | ok out =>
    obtain ⟨hsame, hstored⟩ := runMsgs_stored hkeeps hrun
    refine ⟨hsame, fun rsp hrsp log hlog => (hstored rsp hrsp log hlog).mono ?_ fun _ _ => rfl⟩
    unfold objectBloomKey
    omega

variable {txs : List (List (Execution C))}

theorem deliverTxs_stored {txIndex : Nat} {store : FMap Nat BloomFilter}
    (hkeeps : ∀ tx ∈ txs, ∀ e ∈ tx, e.KeepsLogs hooks)
    (hlength : ∀ tx ∈ txs, tx.length < 2 ^ 64) :
    (∀ key < objectBloomKey txIndex 0,
      (deliverTxs pattern hooks txIndex store txs).2[key]? = store[key]?) ∧
    ∀ responses ∈ (deliverTxs pattern hooks txIndex store txs).1, ∀ rsp ∈ responses,
      ∀ log ∈ rsp.logs, Stored pattern (deliverTxs pattern hooks txIndex store txs).2
        (objectBloomKey (txIndex + txs.length) 0) log := by
  induction txs generalizing txIndex store with
  | nil => exact ⟨fun _ _ => rfl, fun responses hmem => by simp [deliverTxs] at hmem⟩
  | cons tx rest ih =>
    obtain ⟨hfirst, hstored⟩ := deliverTx_stored txIndex store
      (hkeeps tx (mem_cons_self ..)) (hlength tx (mem_cons_self ..))
    obtain ⟨hsame, hothers⟩ := @ih (txIndex + 1) (deliverTx pattern hooks txIndex store tx).2
      (fun tx' htx' => hkeeps tx' (mem_cons_of_mem _ htx'))
      (fun tx' htx' => hlength tx' (mem_cons_of_mem _ htx'))
    have hnext : objectBloomKey txIndex 0 ≤ objectBloomKey (txIndex + 1) 0 := by
      unfold objectBloomKey
      omega
    refine ⟨fun key hkey => ?_, fun responses hmem rsp hrsp log hlog => ?_⟩
    · exact (hsame key (by omega)).trans (hfirst key hkey)
    · rcases mem_cons.mp hmem with rfl | hmem
      · refine (hstored rsp hrsp log hlog).mono ?_ hsame
        unfold objectBloomKey
        rw [length_cons]
        omega
      · rw [length_cons, show txIndex + (rest.length + 1) = txIndex + 1 + rest.length by omega]
        exact hothers responses hmem rsp hrsp log hlog

/-- The filter of a block has the logs of all its responses, if the hooks add none and the
failed messages have none. -/
theorem collectTxBloom_covers (hkeeps : ∀ tx ∈ txs, ∀ e ∈ tx, e.KeepsLogs hooks)
    (hlength : ∀ tx ∈ txs, tx.length < 2 ^ 64) :
    ∀ responses ∈ (deliverTxs pattern hooks 0 ∅ txs).1, ∀ rsp ∈ responses, ∀ log ∈ rsp.logs,
      Covers pattern (collectTxBloom (deliverTxs pattern hooks 0 ∅ txs).2).1 log := by
  intro responses hresponses rsp hrsp log hlog d hd
  obtain ⟨key, -, b, hb, hcovers⟩ :=
    (deliverTxs_stored hkeeps hlength).2 responses hresponses rsp hrsp log hlog
  refine test_union ?_ (hcovers d hd)
  exact mem_map.mpr ⟨(key, b), ExtTreeMap.mem_toList_iff_getElem?_eq_some.mpr hb, rfl⟩

end Cover

end InfiniteEvm.Rpc
