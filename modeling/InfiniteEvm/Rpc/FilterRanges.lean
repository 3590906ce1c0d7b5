import InfiniteEvm.Rpc.Filters

/-!
# Log filters over ranges

`Logs` walks over the heights of a range. It returns the logs that match, one block after
another, if the bloom filters have them; a limit of zero blocks, a missing header and the
number zero are answered in other ways.
-/

namespace InfiniteEvm.Rpc

open Std Library Outcomes List

namespace FilterBackend

variable {R D V C : Type} {b : FilterBackend R D V} {hooks : Option (List (Hook C))}
  {txs : List (List (Execution C))} {blockRes : BlockResults D}

/-! ## The blocks of a node -/

variable (b) in
/-- The logs of every block are found under all criteria. -/
def BlocksExact : Prop :=
  ∀ number blockRes bloom, b.blockResults number = .ok blockRes →
    b.blockBloomFromCometBlock blockRes = .ok bloom →
    ∀ criteria, b.blockLogs criteria blockRes bloom = .ok (b.matching criteria blockRes)

variable (b) in
/-- The results of the node are those of executed blocks whose messages keep their logs. -/
def Executed (hooks : Option (List (Hook C))) : Prop :=
  ∀ number blockRes, b.blockResults number = .ok blockRes →
    ∃ txs, b.Produced hooks txs blockRes ∧
      ∀ tx ∈ txs, tx.length < 2 ^ 64 ∧ ∀ e ∈ tx, e.KeepsLogs hooks

/-- A block whose messages keep their logs has a filter with the logs of all its responses. -/
theorem Produced.covered (h : b.Produced hooks txs blockRes)
    (hkeeps : ∀ tx ∈ txs, tx.length < 2 ^ 64 ∧ ∀ e ∈ tx, e.KeepsLogs hooks) {bloom : BloomFilter}
    (hbloom : b.blockBloomFromCometBlock blockRes = .ok bloom) {log : EthLog}
    (hlog : log ∈ b.responseLogs blockRes) : Covers b.pattern bloom log := by
  obtain rfl := Except.ok.inj (h.bloom.symm.trans hbloom)
  obtain ⟨res, hres, hlog⟩ := mem_flatMap.mp hlog
  obtain ⟨i, hi, rfl⟩ := mem_iff_getElem.mp hres
  have hi' : i < (deliverTxs b.pattern hooks 0 ∅ txs).1.length := by
    rw [← h.responses.length_eq]
    exact hi
  have hdecoded := (forall₂_iff_get.mp h.responses).2 i hi hi'
  rw [get_eq_getElem] at hdecoded
  rw [hdecoded] at hlog
  obtain ⟨rsp, hrsp, hlog⟩ := mem_flatMap.mp hlog
  obtain ⟨emitted, hemitted, rfl⟩ := mem_map.mp hlog
  -- the fields of the block are no part of the filter
  exact collectTxBloom_covers (fun tx htx => (hkeeps tx htx).2) (fun tx htx => (hkeeps tx htx).1) _
    (getElem_mem hi') rsp hrsp emitted hemitted

theorem Executed.blocksExact (h : b.Executed hooks) : b.BlocksExact := by
  intro number blockRes bloom hres hbloom
  obtain ⟨txs, hproduced, hkeeps⟩ := h number blockRes hres
  exact hproduced.blockLogs_exact fun log hlog => hproduced.covered hkeeps hbloom hlog

theorem cometBlockResultByNumber_zero :
    b.cometBlockResultByNumber 0 = .ok blockRes ↔ b.blockResults none = .ok blockRes := by
  rw [cometBlockResultByNumber, if_pos rfl]
  cases b.blockResults none <;> simp

theorem cometBlockResultByNumber_of_ne {height : Int} (h : height ≠ 0) :
    b.cometBlockResultByNumber height = .ok blockRes ↔
      b.blockResults (some height) = .ok blockRes := by
  rw [cometBlockResultByNumber, if_neg h]
  cases b.blockResults (some height) <;> simp

theorem cometBlockResultByNumber_eq_ok {height : Int}
    (h : b.cometBlockResultByNumber height = .ok blockRes) :
    ∃ number, b.blockResults number = .ok blockRes := by
  by_cases hzero : height = 0
  · rw [hzero] at h
    exact ⟨none, cometBlockResultByNumber_zero.mp h⟩
  · exact ⟨some height, (cometBlockResultByNumber_of_ne hzero).mp h⟩

variable {criteria : Criteria} {logLimit blockLimit : Int}

theorem heightLogs_eq_ok (hb : b.Executed hooks) {height : Nat} {filtered : List EthLog} :
    b.heightLogs criteria height = .ok filtered ↔
      ∃ blockRes, b.cometBlockResultByNumber height = .ok blockRes ∧
        b.matching criteria blockRes = filtered := by
  unfold heightLogs
  cases hres : b.cometBlockResultByNumber height with
  | error failure => cases failure <;> simp
  | ok blockRes =>
    obtain ⟨number, hnumber⟩ := cometBlockResultByNumber_eq_ok hres
    obtain ⟨txs, hproduced, -⟩ := hb number blockRes hnumber
    simp [hproduced.bloom, hb.blocksExact number blockRes _ hnumber hproduced.bloom criteria]

variable {failure : QueryFailure} {heights : List Nat}

/-- The only panic is that of a failed query for the latest block. -/
theorem heightLogs_eq_error {height : Nat} (h : b.heightLogs criteria height = .error failure)
    (hlatest : height = 0 → ∃ latest, b.blockResults none = .ok latest) :
    ∃ text, failure = .err text := by
  unfold heightLogs at h
  cases hres : b.cometBlockResultByNumber height with
  | error failure' =>
    cases failure' with
    | err text =>
      simp only [hres, Except.error.injEq] at h
      exact ⟨_, h.symm⟩
    | panic text =>
      by_cases hzero : height = 0
      · obtain ⟨latest, hok⟩ := hlatest hzero
        rw [hzero, Int.natCast_zero, cometBlockResultByNumber_zero.mpr hok] at hres
        cases hres
      · rw [cometBlockResultByNumber, if_neg (by omega)] at hres
        split at hres <;> simp at hres
  | ok blockRes =>
    simp only [hres] at h
    cases hbloom : b.blockBloomFromCometBlock blockRes with
    | error err =>
      simp only [hbloom, Except.error.injEq] at h
      exact ⟨_, h.symm⟩
    | ok bloom =>
      simp only [hbloom] at h
      cases hlogs : b.blockLogs criteria blockRes bloom with
      | error err =>
        simp only [hlogs, Except.error.injEq] at h
        exact ⟨_, h.symm⟩
      | ok filtered => simp [hlogs] at h

/-- A range is answered with the logs that match, one height after another, if every height
has results and the logs are not more than the limit. -/
theorem collectRange_eq_ok (hb : b.Executed hooks) {logs out : List EthLog} :
    b.collectRange criteria logLimit logs heights = .ok out ↔
      ∃ results : List (BlockResults D),
        heights.map (fun height : Nat => b.cometBlockResultByNumber height) = results.map .ok ∧
        logs ++ results.flatMap (b.matching criteria) = out ∧
        (heights ≠ [] → (out.length : Int) ≤ logLimit) := by
  induction heights generalizing logs with
  | nil => simp [collectRange]
  | cons height rest ih =>
    rw [collectRange, bind_eq_ok]
    constructor
    · rintro ⟨filtered, hfiltered, hrest⟩
      split at hrest
      · cases hrest
      · rename_i hlimit
        obtain ⟨blockRes, hres, rfl⟩ := (heightLogs_eq_ok hb).mp hfiltered
        obtain ⟨results, hresults, rfl, hle⟩ := ih.mp hrest
        refine ⟨blockRes :: results, by rw [map_cons, hres, hresults, map_cons], by simp, ?_⟩
        intro _
        cases rest with
        | nil =>
          obtain rfl : results = [] := by simpa using hresults.symm
          simpa using hlimit
        | cons _ _ => exact hle (cons_ne_nil _ _)
    · rintro ⟨results, hresults, rfl, hle⟩
      cases results with
      | nil => simp at hresults
      | cons blockRes results =>
        obtain ⟨hres, hrest⟩ := cons.inj hresults
        have hlength := hle (cons_ne_nil _ _)
        rw [flatMap_cons, length_append, length_append] at hlength
        refine ⟨_, (heightLogs_eq_ok hb).mpr ⟨blockRes, hres, rfl⟩, ?_⟩
        rw [if_neg (by omega), ih]
        refine ⟨results, hrest, by simp, fun _ => hle (cons_ne_nil _ _)⟩

theorem collectRange_eq_error {logs : List EthLog}
    (h : b.collectRange criteria logLimit logs heights = .error failure)
    (hlatest : 0 ∈ heights → ∃ latest, b.blockResults none = .ok latest) :
    ∃ text, failure = .err text := by
  induction heights generalizing logs with
  | nil => cases h
  | cons height rest ih =>
    rw [collectRange] at h
    cases hfiltered : b.heightLogs criteria height with
    | error failure' =>
      rw [hfiltered] at h
      cases h
      exact heightLogs_eq_error hfiltered fun hzero => hlatest (by simp [hzero])
    | ok filtered =>
      rw [hfiltered] at h
      simp only [Except.bind] at h
      split at h
      · exact ⟨_, (Except.error.inj h).symm⟩
      · exact ih h fun hzero => hlatest (mem_cons_of_mem _ hzero)

theorem map_cometBlockResultByNumber (hpos : ∀ h ∈ heights, 0 < h)
    (results : List (BlockResults D)) :
    heights.map (fun height : Nat => b.cometBlockResultByNumber height) = results.map .ok ↔
      heights.map (fun height : Nat => b.blockResults (some (height : Int))) =
        results.map .ok := by
  induction heights generalizing results with
  | nil => cases results <;> simp
  | cons height rest ih =>
    have hne : (height : Int) ≠ 0 := by
      have := hpos height (mem_cons_self ..)
      omega
    cases results with
    | nil => simp
    | cons blockRes results =>
      simp only [map_cons, cons.injEq, cometBlockResultByNumber_of_ne hne,
        ih fun h' hh => hpos h' (mem_cons_of_mem _ hh)]

theorem resolveSpecial_eq_error {head : Nat} {number : Int}
    (h : resolveSpecial head number = .error failure) : ∃ text, failure = .err text := by
  unfold resolveSpecial at h
  split_ifs at h
  exact ⟨_, (Except.error.inj h).symm⟩

/-- The limits of a range filter do not panic. -/
theorem limits_eq_error {first last : Int}
    (h : b.limits (some first) (some last) blockLimit = .error failure) :
    ∃ text, failure = .err text := by
  simp only [limits] at h
  split_ifs at h with hfirst hlast
  · exact ⟨_, (Except.error.inj h).symm⟩
  · exact ⟨_, (Except.error.inj h).symm⟩
  · cases hlatest : b.latestNumber with
    | error err =>
      simp only [hlatest, Except.error.injEq] at h
      exact ⟨_, h.symm⟩
    | ok number =>
      cases number with
      | none => simp [hlatest] at h
      | some head =>
        simp only [hlatest] at h
        cases hf : resolveSpecial head first with
        | error failure' =>
          rw [hf] at h
          cases h
          exact resolveSpecial_eq_error hf
        | ok first' =>
          cases hl : resolveSpecial head last with
          | error failure' =>
            rw [hf, hl] at h
            cases h
            exact resolveSpecial_eq_error hl
          | ok last' =>
            simp only [hf, hl, Except.bind] at h
            split_ifs at h <;> exact ⟨_, (Except.error.inj h).symm⟩

/-! ## `Logs` -/

variable {first last : Int}

theorem logs_newRangeFilter (hlimit : blockLimit ≠ 0) :
    b.logs (newRangeFilter first last criteria) logLimit blockLimit =
      b.rangeLogs (newRangeFilter first last criteria) logLimit blockLimit := by
  rw [logs, if_neg hlimit]
  rfl

theorem RangeResults.unique {lo hi : Nat} {results results' : List (BlockResults D)}
    (h : b.RangeResults lo hi results) (h' : b.RangeResults lo hi results') : results = results' :=
  map_injective_iff.mpr (fun _ _ => Except.ok.inj) (h.symm.trans h')

/-- The heights of a range: the number zero stands before the first block. -/
theorem range'_eq (lo hi : Nat) : range' lo (hi + 1 - lo) =
    (if lo = 0 then [0] else []) ++ range' (max lo 1) (hi + 1 - max lo 1) := by
  by_cases hlo : lo = 0
  · subst hlo
    rfl
  · rw [if_neg hlo, max_eq_left (by omega), nil_append]

/-- What a range filter answers: the logs of the range that match, after those of the latest
block if the range begins with zero. -/
theorem logs_eq_ok (hb : b.Executed hooks) (hlimit : blockLimit ≠ 0) {lo hi : Nat}
    (hlimits : b.limits (some first) (some last) blockLimit = .ok (some (lo, hi)))
    {out : List EthLog} :
    b.logs (newRangeFilter first last criteria) logLimit blockLimit = .ok out ↔
    ∃ results, b.RangeResults lo hi results ∧ (lo ≤ hi → (out.length : Int) ≤ logLimit) ∧
      ((lo ≠ 0 ∧ results.flatMap (b.matching criteria) = out) ∨
       (lo = 0 ∧ ∃ latest, b.blockResults none = .ok latest ∧
          b.matching criteria latest ++ results.flatMap (b.matching criteria) = out)) := by
  have hpos : ∀ h ∈ range' (max lo 1) (hi + 1 - max lo 1), 0 < h := by
    intro h hh
    have := (mem_range'_1.mp hh).1
    omega
  have hne : range' lo (hi + 1 - lo) ≠ [] ↔ lo ≤ hi := by
    rw [Ne, range'_eq_nil_iff]
    omega
  rw [logs_newRangeFilter hlimit, rangeLogs]
  simp only [newRangeFilter, hlimits]
  rw [collectRange_eq_ok hb, hne, range'_eq]
  by_cases hlo : lo = 0
  · subst hlo
    simp only [if_pos, map_append, not_true_eq_false, false_and, false_or, true_and, ne_eq]
    constructor
    · rintro ⟨results, hresults, rfl, hle⟩
      cases results with
      | nil => simp at hresults
      | cons latest results =>
        obtain ⟨hlatest, hrest⟩ := cons.inj hresults
        exact ⟨results, (map_cometBlockResultByNumber hpos results).mp hrest, hle, latest,
          cometBlockResultByNumber_zero.mp hlatest, flatMap_cons.symm⟩
    · rintro ⟨results, hresults, hle, latest, hlatest, rfl⟩
      exact ⟨latest :: results, congrArg₂ cons (cometBlockResultByNumber_zero.mpr hlatest)
        ((map_cometBlockResultByNumber hpos results).mpr hresults), flatMap_cons, hle⟩
  · simp [hlo, map_cometBlockResultByNumber hpos, RangeResults, and_comm]

/-- A range filter fails without a panic, unless the query for the latest block fails. -/
theorem logs_eq_error (hlimit : blockLimit ≠ 0)
    (hlatest : ∀ hi, b.limits (some first) (some last) blockLimit = .ok (some (0, hi)) →
      ∃ latest, b.blockResults none = .ok latest)
    (h : b.logs (newRangeFilter first last criteria) logLimit blockLimit = .error failure) :
    ∃ text, failure = .err text := by
  rw [logs_newRangeFilter hlimit, rangeLogs] at h
  simp only [newRangeFilter] at h
  cases hlimits : b.limits (some first) (some last) blockLimit with
  | error failure' =>
    simp only [hlimits, Except.error.injEq] at h
    exact h ▸ limits_eq_error hlimits
  | ok range =>
    cases range with
    | none => simp [hlimits] at h
    | some range =>
      obtain ⟨lo, hi⟩ := range
      simp only [hlimits] at h
      refine collectRange_eq_error h fun hzero => ?_
      obtain rfl : lo = 0 := by
        have := (mem_range'_1.mp hzero).1
        omega
      exact hlatest hi hlimits

variable (b) in
/-- The logs of every block are found, and a range filter returns the logs of the range that
match, one block after another, or an error. -/
structure ExactRange (first last logLimit blockLimit : Int) : Prop where
  blocks : b.BlocksExact
  ranges : ∀ criteria,
    (∃ text, b.logs (newRangeFilter first last criteria) logLimit blockLimit = .error (.err text)) ∨
    ∃ lo hi results, b.limits (some first) (some last) blockLimit = .ok (some (lo, hi)) ∧
      b.RangeResults lo hi results ∧
      b.logs (newRangeFilter first last criteria) logLimit blockLimit =
        .ok (results.flatMap (b.matching criteria))

variable (b) in
/-- The answers without a walk over the range are right. -/
structure Answerable (first last logLimit blockLimit : Int) : Prop where
  /-- A limit of zero blocks is answered with no logs. -/
  disabled : blockLimit = 0 → ∃ lo hi results,
    b.limits (some first) (some last) blockLimit = .ok (some (lo, hi)) ∧
    b.RangeResults lo hi results ∧ ∀ blockRes ∈ results, b.responseLogs blockRes = []
  /-- A missing header is answered with no logs. -/
  header : blockLimit ≠ 0 → b.limits (some first) (some last) blockLimit ≠ .ok none
  /-- The number zero is answered with the logs of the latest block, if all heights have results
  and the logs are not too many. -/
  zero : blockLimit ≠ 0 → ∀ hi,
    b.limits (some first) (some last) blockLimit = .ok (some (0, hi)) →
    ∃ latest, b.blockResults none = .ok latest ∧
      ∀ results, b.RangeResults 0 hi results → ∀ criteria,
        ((b.matching criteria latest ++ results.flatMap (b.matching criteria)).length : Int) ≤
          logLimit → b.matching criteria latest = []

/-- All logs match the empty criteria. -/
theorem matching_nil : b.matching ⟨[], []⟩ blockRes = b.responseLogs blockRes := by
  rw [matching, filter_eq_self]
  intro log _
  rw [decide_eq_true_iff]
  exact ⟨.inl rfl, Nat.zero_le _, fun i sub hi => by simp at hi⟩

theorem Answerable.exactRange (hb : b.Executed hooks)
    (h : b.Answerable first last logLimit blockLimit) :
    b.ExactRange first last logLimit blockLimit := by
  refine ⟨hb.blocksExact, fun criteria => ?_⟩
  by_cases hlimit : blockLimit = 0
  · right
    obtain ⟨lo, hi, results, hlimits, hresults, hempty⟩ := h.disabled hlimit
    refine ⟨lo, hi, results, hlimits, hresults, ?_⟩
    have hnone : results.flatMap (b.matching criteria) = [] := by
      rw [flatMap_eq_nil_iff]
      intro blockRes hres
      rw [matching, hempty blockRes hres, filter_nil]
    rw [hnone, logs, if_pos hlimit]
  · cases hlogs : b.logs (newRangeFilter first last criteria) logLimit blockLimit with
    | error failure =>
      obtain ⟨text, rfl⟩ := logs_eq_error hlimit (fun hi hlimits =>
        (h.zero hlimit hi hlimits).imp fun latest hlatest => hlatest.1) hlogs
      exact .inl ⟨text, rfl⟩
    | ok out =>
      right
      cases hlimits : b.limits (some first) (some last) blockLimit with
      | error failure =>
        rw [logs_newRangeFilter hlimit, rangeLogs] at hlogs
        simp [newRangeFilter, hlimits] at hlogs
      | ok range =>
        cases range with
        | none => exact absurd hlimits (h.header hlimit)
        | some range =>
          obtain ⟨lo, hi⟩ := range
          obtain ⟨results, hresults, hle, hout⟩ := (logs_eq_ok hb hlimit hlimits).mp hlogs
          refine ⟨lo, hi, results, rfl, hresults, ?_⟩
          obtain ⟨-, rfl⟩ | ⟨rfl, latest, hlatest, rfl⟩ := hout
          · rfl
          · obtain ⟨latest', hlatest', hnone⟩ := h.zero hlimit hi hlimits
            obtain rfl := Except.ok.inj (hlatest.symm.trans hlatest')
            rw [hnone results hresults criteria (hle (Nat.zero_le _)), nil_append]

theorem ExactRange.answerable (hb : b.Executed hooks)
    (h : b.ExactRange first last logLimit blockLimit) :
    b.Answerable first last logLimit blockLimit where
  disabled hlimit := by
    obtain ⟨text, hfails⟩ | ⟨lo, hi, results, hlimits, hresults, hlogs⟩ := h.ranges ⟨[], []⟩
    · rw [logs, if_pos hlimit] at hfails
      cases hfails
    · refine ⟨lo, hi, results, hlimits, hresults, fun blockRes hres => ?_⟩
      rw [logs, if_pos hlimit] at hlogs
      rw [← matching_nil]
      exact flatMap_eq_nil_iff.mp (Except.ok.inj hlogs).symm blockRes hres
  header hlimit hnone := by
    obtain ⟨text, hfails⟩ | ⟨lo, hi, results, hlimits, -⟩ := h.ranges ⟨[], []⟩
    · rw [logs_newRangeFilter hlimit, rangeLogs] at hfails
      simp [newRangeFilter, hnone] at hfails
    · rw [hnone] at hlimits
      cases hlimits
  zero hlimit hi hzero := by
    cases hlatest : b.blockResults none with
    | error err =>
      -- the walk panics at its first height
      have hpanic : b.logs (newRangeFilter first last ⟨[], []⟩) logLimit blockLimit =
          .error nilDereference := by
        rw [logs_newRangeFilter hlimit, rangeLogs]
        simp [newRangeFilter, hzero, range'_succ, collectRange, heightLogs,
          cometBlockResultByNumber, hlatest, Except.bind, nilDereference]
      obtain ⟨text, hlogs⟩ | ⟨lo, hi', results, -, -, hlogs⟩ := h.ranges ⟨[], []⟩
      · rw [hpanic] at hlogs
        cases hlogs
      · rw [hpanic] at hlogs
        cases hlogs
    | ok latest =>
      refine ⟨latest, rfl, fun results hresults criteria hle => ?_⟩
      have hlogs := (logs_eq_ok hb hlimit hzero).mpr
        ⟨results, hresults, fun _ => hle, .inr ⟨rfl, latest, hlatest, rfl⟩⟩
      obtain ⟨text, hfails⟩ | ⟨lo, hi', results', hlimits, hresults', hlogs'⟩ := h.ranges criteria
      · rw [hlogs] at hfails
        cases hfails
      · obtain ⟨rfl, rfl⟩ : 0 = lo ∧ hi = hi' := by
          simpa using hzero.symm.trans hlimits
        obtain rfl := hresults.unique hresults'
        exact append_left_eq_self.mp (Except.ok.inj (hlogs.symm.trans hlogs'))

end FilterBackend

/-! ## A node with one block -/

/-- A filter that has the last byte of the data only. -/
def lastByte (data : Bytes) : BloomFilter := BitVec.ofNat 2048 (2 ^ (data.getLast?.getD 0).toNat)

/-- The results of a block with one call and the filter of the block. -/
def callBlock : BlockResults (List (Any MsgEthereumTxResponse)) where
  height := 1
  txsResults := [called 1 0]
  finalizeBlockEvents := [⟨eventTypeBlockBloom, [⟨attributeKeyEthereumBloom, "bloom"⟩]⟩]

def callNode (bloom : BloomFilter) :
    FilterBackend Tx (List (Any MsgEthereumTxResponse)) MsgEthereumTxResponse where
  codec := Codec.plain
  pattern := lastByte
  bytesToBloom _ := bloom
  latestNumber := .ok (some 1)
  blockResults
    | none => .ok callBlock
    | some height => if height = 1 then .ok callBlock else .error "no block"
  cometBlockByHash _ := .error "no block"

theorem callNode_blockResults {bloom : BloomFilter} {number : Option Int}
    {blockRes : BlockResults (List (Any MsgEthereumTxResponse))}
    (h : (callNode bloom).blockResults number = .ok blockRes) : blockRes = callBlock := by
  cases number with
  | none => exact (Except.ok.inj h).symm
  | some height =>
    simp only [callNode] at h
    split_ifs at h
    exact (Except.ok.inj h).symm

/-- A message whose response of the EVM is given. -/
def execution (res : MsgEthereumTxResponse) : Execution Unit := ⟨transfer 1, (), .ok res, .ok ()⟩

/-- A hook that adds a log to the receipt. -/
def loggingHook : Hook Unit := ⟨"*hooks.Logging", fun _ _ logs => .ok (logs ++ [emitted 0])⟩

/-- The call emits the log. -/
theorem callBlock_emitted : (callNode (logsBloom lastByte [emitted 0])).Produced
    (none : Option (List (Hook Unit))) [[execution (callResponse 1 0)]] callBlock where
  height := by decide
  responses := .cons rfl .nil
  bloom := by decide +kernel

/-- The hook adds the log. -/
theorem callBlock_hooked : (callNode 0).Produced (some [loggingHook])
    [[execution (transferResponse 1)]] callBlock where
  height := by decide
  responses := .cons rfl .nil
  bloom := by decide +kernel

end InfiniteEvm.Rpc
