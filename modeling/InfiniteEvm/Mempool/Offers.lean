import InfiniteEvm.Mempool.Ordering

/-!
# The nonces offered for proposals

The store of a height follows the pool by events: a promotion adds one transaction, and the
replacement or removal of a pending transaction takes away all nonces from its own on. The
nonces of an account form a run as long as every promotion is at an end of it. After a
replacement the next promotion is not.
-/

namespace InfiniteEvm.Mempool

open Library List TxStore Transaction FMap

variable {txs : List Transaction}

namespace TxStore

/-- The nonces are a contiguous run, in any order. -/
def Consecutive (txs : List Transaction) : Prop :=
  ∃ n, (txs.map nonce).Perm (range' n txs.length)

/-- A transaction that is promoted is known, or the first of its account, or next to the run. -/
def Extends (t : TxStore) : Event → Prop
  | .promoted addr tx => tx.hash ∈ t.lookup ∨ t.txsOf addr = [] ∨
      ((∀ x ∈ t.txsOf addr, x.nonce < tx.nonce) ∧ ∃ x ∈ t.txsOf addr, x.nonce + 1 = tx.nonce) ∨
      ((∀ x ∈ t.txsOf addr, tx.nonce < x.nonce) ∧ ∃ x ∈ t.txsOf addr, tx.nonce + 1 = x.nonce)
  | .replaced _ _ => True
  | .removed _ _ => True

theorem consecutive_iff :
    Consecutive txs ↔ (txs.map nonce).Nodup ∧ ∃ s t, s ≤ t ∧ Spans txs s t := by
  constructor
  · rintro ⟨n, hperm⟩
    refine ⟨hperm.nodup_iff.mpr (nodup_range' 1), n, n + txs.length, by omega, fun k => ?_⟩
    rw [← mem_map, hperm.mem_iff, mem_range'_1]
  · rintro ⟨hnodup, s, t, hle, hspans⟩
    have hperm : (txs.map nonce).Perm (range' s (t - s)) := by
      refine (perm_ext_iff_of_nodup hnodup (nodup_range' 1)).mpr fun k => ?_
      rw [mem_map, hspans k, mem_range'_1]
      omega
    have hlen := hperm.length_eq
    rw [length_map, length_range'] at hlen
    exact ⟨s, hlen ▸ hperm⟩

/-- One more transaction at the end of a store. -/
theorem consecutive_append_iff {tx : Transaction} (h : Consecutive txs) :
    Consecutive (txs ++ [tx]) ↔ txs = [] ∨
      ((∀ x ∈ txs, x.nonce < tx.nonce) ∧ ∃ x ∈ txs, x.nonce + 1 = tx.nonce) ∨
      ((∀ x ∈ txs, tx.nonce < x.nonce) ∧ ∃ x ∈ txs, tx.nonce + 1 = x.nonce) := by
  obtain ⟨hnodup, s, t, hle, hspans⟩ := consecutive_iff.mp h
  have hin : ∀ x ∈ txs, s ≤ x.nonce ∧ x.nonce < t := fun x hx => (hspans _).mp ⟨x, hx, rfl⟩
  have hadded : ∀ n, (∃ x ∈ txs ++ [tx], x.nonce = n) ↔ (s ≤ n ∧ n < t) ∨ tx.nonce = n := by
    intro n
    simp only [mem_append, mem_singleton, or_and_right, exists_or, exists_eq_left]
    rw [hspans n]
  have hmap : ((txs ++ [tx]).map nonce).Nodup ↔ ¬(s ≤ tx.nonce ∧ tx.nonce < t) := by
    rw [map_append, nodup_append', ← hspans, ← mem_map]
    simp [hnodup]
  rw [consecutive_iff, hmap]
  constructor
  · rintro ⟨hnew, s', t', -, hspans'⟩
    by_cases hnil : txs = []
    · exact .inl hnil
    · obtain ⟨x, hx⟩ := exists_mem_of_ne_nil txs hnil
      have hlt := hin x hx
      have hends : ∀ n, s' ≤ n ∧ n < t' ↔ (s ≤ n ∧ n < t) ∨ tx.nonce = n := fun n =>
        (hspans' n).symm.trans (hadded n)
      have hself := (hends tx.nonce).mpr (.inr rfl)
      obtain hbelow | habove := lt_or_ge tx.nonce s
      · -- below the run: the nonce after it is in the run
        have hnext := (hends (tx.nonce + 1)).mp (by have := (hends s).mpr (.inl (by omega)); omega)
        obtain ⟨y, hy, hynonce⟩ := (hspans (tx.nonce + 1)).mpr (by omega)
        refine .inr (.inr ⟨fun z hz => ?_, y, hy, hynonce.symm⟩)
        have := hin z hz
        omega
      · have hprev := (hends (tx.nonce - 1)).mp (by
          have := (hends (t - 1)).mpr (.inl (by omega))
          omega)
        obtain ⟨y, hy, hynonce⟩ := (hspans (tx.nonce - 1)).mpr (by omega)
        refine .inr (.inl ⟨fun z hz => ?_, y, hy, by omega⟩)
        have := hin z hz
        omega
  · rintro (rfl | ⟨hbelow, x, hx, hnonce⟩ | ⟨habove, x, hx, hnonce⟩)
    · have hempty : ¬s < t := fun hlt => by
        obtain ⟨x, hx, -⟩ := (hspans s).mpr ⟨le_rfl, hlt⟩
        cases hx
      refine ⟨by omega, tx.nonce, tx.nonce + 1, by omega, fun n => ?_⟩
      rw [hadded n]
      omega
    · have hxin := hin x hx
      have hnot : ¬(s ≤ tx.nonce ∧ tx.nonce < t) := fun hlt => by
        obtain ⟨y, hy, hynonce⟩ := (hspans _).mpr hlt
        have := hbelow y hy
        omega
      refine ⟨hnot, s, t + 1, by omega, fun n => ?_⟩
      rw [hadded n]
      omega
    · have hxin := hin x hx
      have hnot : ¬(s ≤ tx.nonce ∧ tx.nonce < t) := fun hlt => by
        obtain ⟨y, hy, hynonce⟩ := (hspans _).mpr hlt
        have := habove y hy
        omega
      refine ⟨hnot, tx.nonce, t, by omega, fun n => ?_⟩
      rw [hadded n]
      omega

/-- What is left below a nonce. -/
theorem Consecutive.below (h : Consecutive txs) (k : Nat) :
    Consecutive (txs.filter fun x => x.nonce < k) := by
  obtain ⟨hnodup, s, t, hle, hspans⟩ := consecutive_iff.mp h
  refine consecutive_iff.mpr ⟨hnodup.sublist (filter_sublist.map _), s,
    max s (min t k), by omega, fun n => ?_⟩
  constructor
  · rintro ⟨x, hx, rfl⟩
    obtain ⟨hx, hlt⟩ := mem_filter.mp hx
    have hin := (hspans x.nonce).mp ⟨x, hx, rfl⟩
    have hlt := of_decide_eq_true hlt
    omega
  · intro hn
    obtain ⟨x, hx, rfl⟩ := (hspans n).mpr (by omega)
    exact ⟨x, mem_filter.mpr ⟨hx, decide_eq_true (by omega)⟩, rfl⟩

theorem txsOf_addTx (t : TxStore) (a b : Address) (tx : Transaction) :
    (t.addTx a tx).txsOf b =
      if a = b ∧ tx.hash ∉ t.lookup then t.txsOf b ++ [tx] else t.txsOf b := by
  simp only [txsOf, addTx, addTxs, unknown, get_insert]
  by_cases hab : a = b
  · subst hab
    by_cases hknown : tx.hash ∈ t.lookup
    · simp [hknown]
    · simp [hknown]
  · simp [hab]

theorem txsOf_removeTx (t : TxStore) (a b : Address) (tx : Transaction) :
    (t.removeTx a tx).txsOf b =
      if a = b then (t.txsOf b).filter (fun x => x.nonce < tx.nonce) else t.txsOf b := by
  simp only [txsOf, removeTx, removeTxsFromNonce]
  cases hfound : t.txs[a]? with
  | none =>
    split_ifs with hab
    · subst hab
      simp [hfound]
    · rfl
  | some txs =>
    simp only
    split_ifs with hempty hab hab
    · subst hab
      rw [get_erase, if_pos rfl, hfound]
      exact (isEmpty_iff.mp hempty).symm
    · rw [get_erase, if_neg hab]
    · subst hab
      rw [get_insert, if_pos rfl, hfound]
      rfl
    · rw [get_insert, if_neg hab]

/-- Exactly the events that extend a run keep the runs of all accounts. -/
theorem apply_consecutive_iff {t : TxStore} (e : Event) (h : ∀ b, Consecutive (t.txsOf b)) :
    (∀ b, Consecutive ((t.apply e).txsOf b)) ↔ t.Extends e := by
  have hremove : ∀ (a : Address) (tx : Transaction) b, Consecutive ((t.removeTx a tx).txsOf b) := by
    intro a tx b
    rw [txsOf_removeTx]
    split_ifs
    · exact (h b).below tx.nonce
    · exact h b
  cases e with
  | promoted addr tx =>
    simp only [apply, Extends, txsOf_addTx]
    by_cases hknown : tx.hash ∈ t.lookup
    · simp [hknown, h]
    · simp only [hknown, not_false_eq_true, and_true, false_or]
      rw [← consecutive_append_iff (h addr)]
      constructor
      · intro hall
        simpa using hall addr
      · intro hone b
        split_ifs with hb
        · exact hb ▸ hone
        · exact h b
  | replaced addr old => exact iff_of_true (hremove addr old) trivial
  | removed addr tx => exact iff_of_true (hremove addr tx) trivial

/-- From a store with contiguous runs, the runs stay contiguous exactly if every promotion extends
one of them. -/
theorem offers_contiguous_iff (t : TxStore) (h : ∀ b, Consecutive (t.txsOf b))
    (events : List Event) :
    (∀ n b, Consecutive (((events.take n).foldl apply t).txsOf b)) ↔
      Runs.Along apply Extends t events :=
  Runs.forall_take_iff_along (fun t : TxStore => ∀ b, Consecutive (t.txsOf b)) (fun _ => True)
    (fun _ h => h) (fun e _ h => apply_consecutive_iff e h) trivial h

end TxStore

namespace LegacyPool

variable {S M : Type}

/-- The operation does not start a new height. -/
def Op.SameHeight : Op S M → Prop
  | .runReorg input => input.reset = none
  | _ => True

/-- Within a height the store of the pool changes by events alone. -/
theorem run_follows {recheck : AnteHandler S M Transaction} {pool pool' : LegacyPool S M}
    {ops : List (Op S M)} (hp : Pooled none pool) (hops : ∀ op ∈ ops, op.SameHeight)
    (hrun : Runs.run (step recheck) pool ops = some pool') :
    Follows pool.validPendingTxs pool' := by
  have hboth : Keeps none pool pool' := by
    refine Runs.run_invariant (Keeps none pool) Op.SameHeight ?_ hops (.refl hp) hrun
    intro pool₁ op pool₂ hop h hstep
    have hp := h.pooled
    refine h.trans ?_
    cases op with
    | add tx checks room => exact Option.some.inj hstep ▸ add_keeps hp tx checks room
    | removeTx hash => exact Option.some.inj hstep ▸ removeTx_keeps hp hash
    | runReorg input =>
      simp only [step, runReorg, show input.reset = none from hop, Option.map_some] at hstep
      have hpromote := promoteExecutables_keeps hp recheck false input.dirtyAccounts
      have hpending := truncatePending_keeps hpromote.pooled input.pendingOrder
      have hqueue := truncateQueue_keeps hpending.pooled input.heartbeats
      exact Option.some.inj hstep ▸ (hpromote.trans hpending).trans hqueue
    | setGasTip tip order => exact Option.some.inj hstep ▸ setGasTip_keeps hp tip order
    | clear => exact Option.some.inj hstep ▸ clear_keeps hp
  exact hboth.follows

/-! ## A replaced transaction -/

namespace Replacement

def state : ChainState where
  nonce _ := 5
  balance _ := 1000
  balance_lt _ := by decide

def tx5 : Transaction := .small 1 0xa 5
def tx6 : Transaction := .small 2 0xa 6
def tx7 : Transaction := .small 3 0xa 7
def tx8 : Transaction := .small 4 0xa 8

/-- A transaction that pays more than the one with the same nonce. -/
def better6 : Transaction := { tx6 with hash := 5, gasFeeCap := 2, gasTipCap := 2 }

/-- Every transaction passes its recheck. -/
def recheck : AnteHandler Unit Unit Transaction := fun _ _ =>
  { store := (), newCtx := some (), err := none }

def start : LegacyPool Unit Unit := init .default state 100 0 0 ∅ ⟨(), ()⟩

def promote : Op Unit Unit :=
  .runReorg
    { reset := none
      cancelledAfter := none
      dirtyAccounts := [0xa]
      promoteOrder := []
      demoteOrder := []
      pendingOrder := []
      heartbeats := [] }

/-- Three transactions are pending, the second is replaced, and a fourth becomes pending. -/
def ops : List (Op Unit Unit) :=
  [.add tx5 none .free, .add tx6 none .free, .add tx7 none .free, promote,
    .add better6 none .free, .add tx8 none .free, promote]

end Replacement

/-- The replacement of nonce 6 takes 6 and 7 away from the store, and the promotion of 8 adds it
there. -/
theorem offers_gap :
    (∀ op ∈ Replacement.ops, op.SameHeight) ∧
      ∃ pool, Runs.run (step Replacement.recheck) Replacement.start Replacement.ops =
          some pool ∧
        (pool.validPendingTxs.txsOf 0xa).map nonce = [5, 8] ∧
        ¬Consecutive (pool.validPendingTxs.txsOf 0xa) := by
  refine ⟨by simp [Replacement.ops, Replacement.promote, Op.SameHeight], ?_⟩
  have hrun : (Runs.run (step Replacement.recheck) Replacement.start Replacement.ops).map
      (fun pool => (pool.validPendingTxs.txsOf 0xa).map nonce) = some [5, 8] := by
    decide +kernel
  obtain ⟨pool, hpool, hnonces⟩ := Option.map_eq_some_iff.mp hrun
  refine ⟨pool, hpool, hnonces, fun ⟨n, hperm⟩ => ?_⟩
  have hlen : (pool.validPendingTxs.txsOf 0xa).length = 2 := by
    rw [← length_map nonce, hnonces]
    rfl
  rw [hnonces, hlen] at hperm
  have h5 := (hperm.mem_iff (a := 5)).mp (by simp)
  have h8 := (hperm.mem_iff (a := 8)).mp (by simp)
  rw [mem_range'_1] at h5 h8
  omega

end LegacyPool

/-- Two promotions in order and a removal. -/
theorem offers_contiguous_iff_in_order :
    (∀ b, Consecutive (new.txsOf b)) ∧
      ∀ n b, Consecutive
        ((([.promoted 0xa LegacyPool.Replacement.tx5, .promoted 0xa LegacyPool.Replacement.tx6,
          .removed 0xa LegacyPool.Replacement.tx6].take n).foldl apply
            new).txsOf b) := by
  have hnew : ∀ b, Consecutive (new.txsOf b) := fun b => ⟨0, by
    simp [txsOf, new]⟩
  refine ⟨hnew, (offers_contiguous_iff .new hnew _).mpr ⟨.inr (.inl ?_), ?_, trivial, trivial⟩⟩
  · decide +kernel
  · refine .inr (.inr (.inl ?_))
    decide +kernel

end InfiniteEvm.Mempool
