import InfiniteEvm.StateDB.Types

/-!
# Lists of the transactions of an account

The `SortedMap` and the `list` of `mempool/txpool/legacypool/list.go`. A strict list holds
executable transactions, whose nonces follow each other; when some leave it, those after them
are given back as invalid.
-/

namespace InfiniteEvm.Mempool

open List Option

/-- What the pool reads from a transaction. Its sender is recovered from the signature. The last
nonce of 64 bits, which no account passes (EIP-2681), is left out: after it the nonces wrap. -/
structure Transaction where
  hash : Hash
  sender : Address
  nonce : Nat
  nonce_lt : nonce + 1 < 2 ^ 64
  gasFeeCap : Nat
  gasTipCap : Nat
  cost : Nat
  gas : Nat
  deriving DecidableEq

/-- A transaction with a small nonce, and of low cost. -/
def Transaction.small (hash : Hash) (sender : Address) (nonce : BitVec 8) : Transaction where
  hash := hash
  sender := sender
  nonce := nonce.toNat
  nonce_lt := by omega
  gasFeeCap := 1
  gasTipCap := 1
  cost := 10
  gas := 10

/-- `SortedMap`: transactions by nonce. The heap and the cache are one sorted list here. -/
structure SortedMap where
  items : List Transaction
  sorted : items.Pairwise fun a b => a.nonce < b.nonce

namespace SortedMap

variable (m : SortedMap)

/-- `NewSortedMap`. -/
def empty : SortedMap := ⟨[], .nil⟩

/-- `Get`. -/
def get (nonce : Nat) : Option Transaction := m.items.find? fun tx => tx.nonce = nonce

/-- The transactions that are left when others are deleted. -/
def keep (p : Transaction → Bool) : SortedMap := ⟨m.items.filter p, m.sorted.filter p⟩

/-- `Put`. -/
def put (tx : Transaction) : SortedMap where
  items := m.items.filter (fun x => x.nonce < tx.nonce) ++
    tx :: m.items.filter fun x => tx.nonce < x.nonce
  sorted := by
    refine pairwise_append.mpr ⟨m.sorted.filter _, ?_, ?_⟩
    · refine pairwise_cons.mpr ⟨?_, m.sorted.filter _⟩
      intro x hx
      simpa using (mem_filter.mp hx).2
    · intro x hx y hy
      have hlow : x.nonce < tx.nonce := by simpa using (mem_filter.mp hx).2
      obtain rfl | hy := mem_cons.mp hy
      · exact hlow
      · have hhigh : tx.nonce < y.nonce := by simpa using (mem_filter.mp hy).2
        exact hlow.trans hhigh

/-- `Forward`: the removed transactions, and the map that is left. -/
def forward (threshold : Nat) : List Transaction × SortedMap :=
  (m.items.filter fun tx => tx.nonce < threshold, m.keep fun tx => threshold ≤ tx.nonce)

/-- `Filter`. -/
def filter (p : Transaction → Bool) : List Transaction × SortedMap :=
  (m.items.filter p, m.keep fun tx => !p tx)

/-- The loop of `filterSorted`, by a function that remembers. -/
def filterEach {C : Type} (f : C → Transaction → C × Bool) : C → List Transaction →
    C × List Transaction
  | c, [] => (c, [])
  | c, tx :: rest =>
    match f c tx with
    | (c, true) => ((filterEach f c rest).1, tx :: (filterEach f c rest).2)
    | (c, false) => filterEach f c rest

/-- `filterSorted`. -/
def filterSorted {C : Type} (f : C → Transaction → C × Bool) (c : C) :
    C × List Transaction × SortedMap :=
  ((filterEach f c m.items).1, (filterEach f c m.items).2,
    m.keep fun tx => tx ∉ (filterEach f c m.items).2)

/-- `Cap`: the highest transactions leave first. -/
def cap (threshold : Nat) : List Transaction × SortedMap :=
  ((m.items.drop threshold).reverse, ⟨m.items.take threshold, m.sorted.take⟩)

/-- `Remove`. -/
def remove (nonce : Nat) : Bool × SortedMap :=
  ((m.get nonce).isSome, m.keep fun tx => tx.nonce ≠ nonce)

/-- The loop of `Ready`. -/
def readyFrom : Nat → List Transaction → List Transaction
  | _, [] => []
  | next, tx :: rest => if tx.nonce = next then tx :: readyFrom (next + 1) rest else []

/-- The transactions that `Ready` returns. -/
def readies (start : Nat) : List Transaction :=
  match m.items with
  | [] => []
  | tx :: rest => if start < tx.nonce then [] else readyFrom tx.nonce (tx :: rest)

/-- `Ready`. -/
def ready (start : Nat) : List Transaction × SortedMap :=
  (m.readies start, ⟨m.items.drop (m.readies start).length, m.sorted.drop⟩)

end SortedMap

/-- `list`. The total cost is only read by the validation of new transactions. The panic on its
underflow needs costs that pass 256 bits together. -/
structure TxList where
  strict : Bool
  txs : SortedMap
  costcap : Nat
  gascap : Nat

namespace TxList

variable (l : TxList)

/-- `newList`. -/
def new (strict : Bool) : TxList := { strict, txs := .empty, costcap := 0, gascap := 0 }

/-- `Flatten`. -/
def flatten : List Transaction := l.txs.items

/-- `Contains`. -/
def contains (nonce : Nat) : Bool := (l.txs.get nonce).isSome

/-- `Len`. -/
def len : Nat := l.flatten.length

/-- The price at which a transaction takes the place of an older one. -/
def outbids (old tx : Transaction) (priceBump : Nat) : Bool :=
  old.gasFeeCap < tx.gasFeeCap && old.gasTipCap < tx.gasTipCap &&
    (100 + priceBump) * old.gasFeeCap / 100 ≤ tx.gasFeeCap &&
    (100 + priceBump) * old.gasTipCap / 100 ≤ tx.gasTipCap

/-- `Add`: the replaced transaction, and the new list, if the transaction is accepted. -/
def add (tx : Transaction) (priceBump : Nat) : Option (Option Transaction × TxList) :=
  let old := l.txs.get tx.nonce
  if old.any (fun old => !outbids old tx priceBump) then none
  else if 2 ^ 256 ≤ tx.cost then none
  else some (old, { l with
    txs := l.txs.put tx
    costcap := max l.costcap tx.cost
    gascap := max l.gascap tx.gas })

/-- `Forward`. -/
def forward (threshold : Nat) : List Transaction × TxList :=
  ((l.txs.forward threshold).1, { l with txs := (l.txs.forward threshold).2 })

/-- The lowest nonce of `filterInvalids`. -/
def lowest (removed : List Transaction) : Nat :=
  (removed.map Transaction.nonce).foldl min (2 ^ 64 - 1)

/-- What follows the removal in `Filter` and `FilterSorted`: a strict list also gives back what
is above the lowest removed nonce. -/
def invalidate (removed : List Transaction) (txs : SortedMap) :
    List Transaction × List Transaction × TxList :=
  if removed.isEmpty || !l.strict then (removed, [], { l with txs })
  else
    (removed, (txs.filter fun tx => lowest removed < tx.nonce).1,
      { l with txs := (txs.filter fun tx => lowest removed < tx.nonce).2 })

/-- `Filter`. -/
def filter (p : Transaction → Bool) : List Transaction × List Transaction × TxList :=
  l.invalidate (l.txs.filter p).1 (l.txs.filter p).2

/-- `CostFilter`, which is skipped if all transactions are known to be below the caps. -/
def costFilter (costLimit gasLimit : Nat) : List Transaction × List Transaction × TxList :=
  if l.costcap ≤ costLimit ∧ l.gascap ≤ gasLimit then ([], [], l)
  else
    filter { l with costcap := costLimit, gascap := gasLimit } fun tx =>
      gasLimit < tx.gas || costLimit < tx.cost

/-- `FilterSorted`. -/
def filterSorted {C : Type} (f : C → Transaction → C × Bool) (c : C) :
    C × List Transaction × List Transaction × TxList :=
  ((l.txs.filterSorted f c).1,
    l.invalidate (l.txs.filterSorted f c).2.1 (l.txs.filterSorted f c).2.2)

/-- `Cap`. -/
def cap (threshold : Nat) : List Transaction × TxList :=
  ((l.txs.cap threshold).1, { l with txs := (l.txs.cap threshold).2 })

/-- `Remove`: the invalidated transactions and the list that is left, if the nonce is there. -/
def remove (tx : Transaction) : Option (List Transaction × TxList) :=
  if !(l.txs.remove tx.nonce).1 then none
  else if l.strict then
    let (invalids, txs) := (l.txs.remove tx.nonce).2.filter fun x => tx.nonce < x.nonce
    some (invalids, { l with txs })
  else some ([], { l with txs := (l.txs.remove tx.nonce).2 })

/-- `Ready`. -/
def ready (start : Nat) : List Transaction × TxList :=
  ((l.txs.ready start).1, { l with txs := (l.txs.ready start).2 })

/-- The nonce of `LastElement`, which panics on an empty list. -/
def lastNonce : Option Nat := l.flatten.getLast?.map Transaction.nonce

end TxList

/-! ## What the operations do -/

/-- A list of transactions is cut at a nonce. -/
structure Cut (items low high : List Transaction) (m : Nat) : Prop where
  low : ∀ tx, tx ∈ low ↔ tx ∈ items ∧ tx.nonce < m
  high : ∀ tx, tx ∈ high ↔ tx ∈ items ∧ m ≤ tx.nonce

/-- The nonces of the transactions are those from one nonce up to another. -/
def Spans (txs : List Transaction) (s t : Nat) : Prop :=
  ∀ n, (∃ tx ∈ txs, tx.nonce = n) ↔ s ≤ n ∧ n < t

theorem spans_nil (s : Nat) : Spans [] s s := by
  intro n
  simp

variable {init : List Transaction} {last : Transaction}

/-- The nonce after the last transaction of a run. -/
theorem Spans.succ_last {s t : Nat} (h : Spans (init ++ [last]) s t)
    (hsorted : (init ++ [last]).Pairwise fun a b => a.nonce < b.nonce) : last.nonce + 1 = t := by
  have hlast := (h last.nonce).mp ⟨last, by simp, rfl⟩
  obtain ⟨tx, htx, hnonce⟩ := (h (t - 1)).mpr (by omega)
  have hle : tx.nonce ≤ last.nonce := by
    obtain hinit | hinit := mem_append.mp htx
    · exact ((pairwise_append.mp hsorted).2.2 tx hinit last (by simp)).le
    · rw [mem_singleton.mp hinit]
  omega

theorem Spans.foldl_next {txs : List Transaction} {s t : Nat} (h : Spans txs s t) (hlt : s < t)
    (hsorted : txs.Pairwise fun a b => a.nonce < b.nonce) (n : Nat) :
    txs.foldl (fun _ tx => tx.nonce + 1) n = t := by
  obtain ⟨tx, htx, -⟩ := (h s).mpr ⟨le_rfl, hlt⟩
  obtain ⟨init, last, rfl⟩ := (eq_nil_or_concat' txs).resolve_left (ne_nil_of_mem htx)
  rw [foldl_append, foldl_cons, foldl_nil]
  exact h.succ_last hsorted

variable {items : List Transaction} {C : Type} {tx : Transaction} {txs : SortedMap} {n : Nat}

theorem Cut.mem_high {low high : List Transaction} {m : Nat} (h : Cut items low high m)
    (tx : Transaction) : tx ∈ high ↔ tx ∈ items ∧ tx ∉ low := by
  rw [h.high, h.low]
  exact and_congr_right fun hmem => by rw [and_iff_right hmem, not_lt]

theorem Cut.mem_low {low high : List Transaction} {m : Nat} (h : Cut items low high m)
    (tx : Transaction) : tx ∈ low ↔ tx ∈ items ∧ tx ∉ high := by
  rw [h.high, h.low]
  exact and_congr_right fun hmem => by rw [and_iff_right hmem, not_le]

/-- A list is cut between parts whose nonces are below and above. -/
theorem cut_of_lt {low high : List Transaction} {m : Nat}
    (hmem : ∀ tx, tx ∈ items ↔ tx ∈ low ∨ tx ∈ high) (hlow : ∀ tx ∈ low, tx.nonce < m)
    (hhigh : ∀ tx ∈ high, m ≤ tx.nonce) : Cut items low high m := by
  constructor
  · intro tx
    constructor
    · intro htx
      exact ⟨(hmem tx).mpr (.inl htx), hlow tx htx⟩
    · rintro ⟨htx, hlt⟩
      exact ((hmem tx).mp htx).resolve_right fun h => not_le.mpr hlt (hhigh tx h)
  · intro tx
    constructor
    · intro htx
      exact ⟨(hmem tx).mpr (.inr htx), hhigh tx htx⟩
    · rintro ⟨htx, hle⟩
      exact ((hmem tx).mp htx).resolve_left fun h => not_lt.mpr hle (hlow tx h)

theorem mem_take_or_drop (k : Nat) (tx : Transaction) :
    tx ∈ items ↔ tx ∈ items.take k ∨ tx ∈ items.drop k := by
  rw [← mem_append, take_append_drop]

theorem head_nonce_le (hs : (tx :: items).Pairwise fun a b => a.nonce < b.nonce) :
    ∀ x ∈ tx :: items, tx.nonce ≤ x.nonce := by
  intro x hx
  obtain rfl | hx := mem_cons.mp hx
  · exact le_rfl
  · exact ((pairwise_cons.mp hs).1 x hx).le

/-- A sorted list can be cut at any place. -/
theorem exists_cut (hs : items.Pairwise fun a b => a.nonce < b.nonce) (k : Nat) :
    ∃ m, Cut items (items.take k) (items.drop k) m := by
  have hmem := @mem_take_or_drop items k
  rw [← take_append_drop k items, pairwise_append] at hs
  cases hdrop : items.drop k with
  | nil =>
    -- nothing is above, so the cut is beyond all nonces
    rw [hdrop] at hmem
    exact ⟨2 ^ 64, cut_of_lt hmem (fun tx _ => Nat.lt_of_succ_lt tx.nonce_lt) nofun⟩
  | cons y rest =>
    rw [hdrop] at hs hmem
    exact ⟨y.nonce, cut_of_lt hmem (fun x hx => hs.2.2 x hx y mem_cons_self) (head_nonce_le hs.2.1)⟩

namespace SortedMap

variable (m : SortedMap)

theorem eq_of_nonce {tx' : Transaction} (h : tx ∈ m.items) (h' : tx' ∈ m.items)
    (hnonce : tx.nonce = tx'.nonce) : tx = tx' := by
  have hnodup : (m.items.map Transaction.nonce).Nodup :=
    pairwise_map.mpr (m.sorted.imp Nat.ne_of_lt)
  exact inj_on_of_nodup_map hnodup h h' hnonce

theorem get_eq_none : m.get n = none ↔ ∀ tx ∈ m.items, tx.nonce ≠ n := by
  simp [get, find?_eq_none]

theorem get_eq_some : m.get n = some tx ↔ tx ∈ m.items ∧ tx.nonce = n := by
  constructor
  · intro h
    exact ⟨mem_of_find?_eq_some h, by simpa using find?_some h⟩
  · rintro ⟨hmem, rfl⟩
    cases h : m.get tx.nonce with
    | none => exact absurd rfl (m.get_eq_none.mp h tx hmem)
    | some tx' =>
      have hnonce : tx'.nonce = tx.nonce := by simpa using find?_some h
      rw [m.eq_of_nonce (mem_of_find?_eq_some h) hmem hnonce]

theorem mem_put {x : Transaction} :
    x ∈ (m.put tx).items ↔ x = tx ∨ x ∈ m.items ∧ x.nonce ≠ tx.nonce := by
  simp only [put, mem_append, mem_cons, mem_filter, decide_eq_true_eq]
  constructor
  · rintro (⟨hmem, hlt⟩ | rfl | ⟨hmem, hlt⟩)
    · exact .inr ⟨hmem, hlt.ne⟩
    · exact .inl rfl
    · exact .inr ⟨hmem, hlt.ne'⟩
  · rintro (rfl | ⟨hmem, hne⟩)
    · exact .inr (.inl rfl)
    · obtain hlt | hlt := Nat.lt_or_gt_of_ne hne
      · exact .inl ⟨hmem, hlt⟩
      · exact .inr (.inr ⟨hmem, hlt⟩)

theorem filterEach_sublist (f : C → Transaction → C × Bool) (c : C) (items : List Transaction) :
    (filterEach f c items).2.Sublist items := by
  induction items generalizing c with
  | nil => exact .slnil
  | cons x rest ih =>
    simp only [filterEach]
    split
    · exact (ih _).cons_cons x
    · exact (ih _).cons x

/-- The function is called on all transactions, in order. -/
theorem filterEach_fst (f : C → Transaction → C × Bool) (c : C) (items : List Transaction) :
    (filterEach f c items).1 = items.foldl (fun c tx => (f c tx).1) c := by
  induction items generalizing c with
  | nil => rfl
  | cons x rest ih =>
    simp only [filterEach, foldl_cons]
    split
    · next heq => rw [ih, heq]
    · next heq => rw [ih, heq]

/-- A part of the map whose nonces are the lowest ones is cut off. -/
theorem cut_of_spans {k s t : Nat} (hlow : ∀ tx ∈ m.items, s ≤ tx.nonce)
    (hspans : Spans (m.items.take k) s t) : Cut m.items (m.items.take k) (m.items.drop k) t := by
  have hsorted := m.sorted
  rw [← take_append_drop k m.items, pairwise_append] at hsorted
  apply cut_of_lt (mem_take_or_drop k)
  · intro tx htx
    exact ((hspans tx.nonce).mp ⟨tx, htx, rfl⟩).2
  · intro y hy
    by_contra hlt
    obtain ⟨tx, htx, hnonce⟩ := (hspans y.nonce).mpr ⟨hlow y (mem_of_mem_drop hy), not_le.mp hlt⟩
    exact (hsorted.2.2 tx htx y hy).ne hnonce

/-- What is ready is a run from the lowest nonce on, as long as it goes. -/
theorem readyFrom_eq_take (n : Nat) (items : List Transaction) :
    readyFrom n items = items.take (readyFrom n items).length ∧
      Spans (readyFrom n items) n (n + (readyFrom n items).length) := by
  induction items generalizing n with
  | nil => exact ⟨rfl, spans_nil n⟩
  | cons tx rest ih =>
    simp only [readyFrom]
    split_ifs with h
    · obtain ⟨htake, hspans⟩ := ih (n + 1)
      constructor
      · simpa using htake
      · intro k
        have hk := hspans k
        simp only [mem_cons, exists_eq_or_imp, length_cons, h]
        rw [hk]
        omega
    · exact ⟨rfl, spans_nil n⟩

end SortedMap

namespace TxList

variable (l : TxList) {old : Option Transaction}

variable {l' : TxList} {tx : Transaction} {priceBump : Nat} {removed : List Transaction}

theorem mem_flatten_of_add (h : l.add tx priceBump = some (old, l')) :
    old = l.txs.get tx.nonce ∧ l'.strict = l.strict ∧
      ∀ x, x ∈ l'.flatten ↔ x = tx ∨ x ∈ l.flatten ∧ x.nonce ≠ tx.nonce := by
  simp only [add] at h
  split_ifs at h
  obtain ⟨rfl, rfl⟩ := Prod.mk.inj (some.inj h)
  exact ⟨rfl, rfl, fun x => l.txs.mem_put⟩

/-- The transaction takes the place of the one it replaces. -/
theorem mem_flatten_of_replaced (h : l.add tx priceBump = some (old, l')) :
    (∀ x ∈ old.toList, x ∈ l.flatten ∧ x.nonce = tx.nonce) ∧
      ∀ x, x ∈ l'.flatten ↔ x = tx ∨ x ∈ l.flatten ∧ x ∉ old.toList := by
  obtain ⟨rfl, -, hmem⟩ := l.mem_flatten_of_add h
  have hold : ∀ x, x ∈ (l.txs.get tx.nonce).toList ↔ x ∈ l.flatten ∧ x.nonce = tx.nonce := by
    intro x
    rw [mem_toList]
    exact l.txs.get_eq_some
  refine ⟨fun x hx => (hold x).mp hx, fun x => (hmem x).trans (or_congr_right ?_)⟩
  refine and_congr_right fun hx => ?_
  rw [hold, and_iff_right hx]

/-- A transaction with a new nonce is accepted. -/
theorem add_of_get_eq_none (priceBump : Nat) (hnone : l.txs.get tx.nonce = none)
    (hcost : tx.cost < 2 ^ 256) : ∃ l', l.add tx priceBump = some (none, l') := by
  simp only [add, hnone, any_none, Bool.false_eq_true, if_false, if_neg (not_le.mpr hcost)]
  exact ⟨_, rfl⟩

/-- Only a transaction that costs too much, or does not outbid another, is refused. -/
theorem add_eq_none (h : l.add tx priceBump = none) (hcost : tx.cost < 2 ^ 256) :
    ∃ old ∈ l.flatten, old.nonce = tx.nonce := by
  cases hget : l.txs.get tx.nonce with
  | none =>
    obtain ⟨l', hl'⟩ := l.add_of_get_eq_none priceBump hget hcost
    rw [h] at hl'
    cases hl'
  | some old => exact ⟨old, l.txs.get_eq_some.mp hget⟩

theorem forward_cut (k : Nat) : Cut l.flatten (l.forward k).1 (l.forward k).2.flatten k where
  low := by
    simp [forward, SortedMap.forward, flatten]
  high := by
    simp [forward, SortedMap.forward, SortedMap.keep, flatten]

theorem cap_cut (k : Nat) : ∃ m, Cut l.flatten (l.cap k).2.flatten (l.cap k).1 m := by
  obtain ⟨m, hcut⟩ := exists_cut l.txs.sorted k
  exact ⟨m, hcut.low, fun tx => mem_reverse.trans (hcut.high tx)⟩

theorem cap_distinct (k : Nat) : (l.cap k).1.Pairwise fun x y => x.nonce ≠ y.nonce := by
  refine pairwise_reverse.mpr ?_
  exact l.txs.sorted.drop.imp fun h => (Nat.ne_of_lt h).symm

/-- What is ready is cut off, and is a run from the lowest nonce on. -/
theorem ready_cut (start : Nat) :
    ∃ m, Cut l.flatten (l.ready start).1 (l.ready start).2.flatten m ∧
      ((l.ready start).1 = [] ∧ (∀ tx ∈ l.flatten, start < tx.nonce) ∨
        ∃ f ≤ start, f < m ∧ Spans (l.ready start).1 f m ∧ ∀ tx ∈ l.flatten, f ≤ tx.nonce) := by
  obtain ⟨strict, ⟨items, sorted⟩, costcap, gascap⟩ := l
  simp only [ready, SortedMap.ready, SortedMap.readies, flatten]
  cases items with
  | nil => exact ⟨0, ⟨by simp, by simp⟩, .inl ⟨rfl, by simp⟩⟩
  | cons tx rest =>
    have hlowest := head_nonce_le sorted
    simp only
    split_ifs with hstart
    · refine ⟨0, ⟨by simp, by simp⟩, .inl ⟨rfl, fun x hx => ?_⟩⟩
      exact hstart.trans_le (hlowest x hx)
    · obtain ⟨htake, hspans⟩ := SortedMap.readyFrom_eq_take tx.nonce (tx :: rest)
      have hpos : 0 < (SortedMap.readyFrom tx.nonce (tx :: rest)).length := by
        simp [SortedMap.readyFrom]
      have hcut := SortedMap.cut_of_spans ⟨tx :: rest, sorted⟩ hlowest (htake ▸ hspans)
      rw [← htake] at hcut
      exact ⟨_, hcut, .inr ⟨tx.nonce, not_lt.mp hstart, by omega, hspans, hlowest⟩⟩

theorem cap_last (h : l.flatten = init ++ [last]) :
    (l.cap (l.len - 1)).1 = [last] ∧ (l.cap (l.len - 1)).2.flatten = init := by
  have hlen : l.len - 1 = init.length := by
    rw [len, h, length_append]
    rfl
  rw [hlen]
  simp only [cap, SortedMap.cap, flatten] at h ⊢
  rw [h, drop_left, take_left]
  exact ⟨rfl, rfl⟩

theorem ready_sorted (start : Nat) : (l.ready start).1.Pairwise fun a b => a.nonce < b.nonce := by
  obtain ⟨strict, ⟨items, sorted⟩, costcap, gascap⟩ := l
  simp only [ready, SortedMap.ready, SortedMap.readies]
  cases items with
  | nil => exact .nil
  | cons tx rest =>
    simp only
    split_ifs
    · exact .nil
    · rw [(SortedMap.readyFrom_eq_take tx.nonce (tx :: rest)).1]
      exact sorted.take

/-- The lowest nonce is below all of them, and one of them. -/
theorem lowest_spec (hne : removed ≠ []) :
    (∀ tx ∈ removed, lowest removed ≤ tx.nonce) ∧ ∃ tx ∈ removed, tx.nonce = lowest removed := by
  have hfold : ∀ (ns : List Nat) (b : Nat), (∀ n ∈ ns, ns.foldl min b ≤ n) ∧
      ns.foldl min b ≤ b ∧ (ns.foldl min b = b ∨ ns.foldl min b ∈ ns) := by
    intro ns
    induction ns with
    | nil => simp
    | cons n rest ih =>
      intro b
      obtain ⟨hall, hle, hcases⟩ := ih (min b n)
      simp only [foldl_cons, mem_cons, forall_eq_or_imp]
      refine ⟨⟨hle.trans (min_le_right b n), hall⟩, hle.trans (min_le_left b n), ?_⟩
      obtain heq | hmem := hcases
      · obtain hmin | hmin := min_choice b n
        · exact .inl (heq.trans hmin)
        · exact .inr (.inl (heq.trans hmin))
      · exact .inr (.inr hmem)
  obtain ⟨hall, hle, hcases⟩ := hfold (removed.map Transaction.nonce) (2 ^ 64 - 1)
  have hlow : ∀ tx ∈ removed, lowest removed ≤ tx.nonce := fun tx htx =>
    hall tx.nonce (mem_map_of_mem htx)
  refine ⟨hlow, ?_⟩
  obtain heq | hmem := hcases
  · obtain ⟨tx, htx⟩ := exists_mem_of_ne_nil removed hne
    have hlt := tx.nonce_lt
    have hge := hlow tx htx
    rw [lowest, heq] at hge
    exact ⟨tx, htx, by rw [lowest, heq]; omega⟩
  · obtain ⟨tx, htx, heq⟩ := mem_map.mp hmem
    exact ⟨tx, htx, heq⟩

theorem invalidate_nil (txs : SortedMap) : l.invalidate [] txs = ([], [], { l with txs }) := by
  simp [invalidate]

theorem invalidate_loose (hstrict : l.strict = false) (removed : List Transaction)
    (txs : SortedMap) : l.invalidate removed txs = (removed, [], { l with txs }) := by
  simp [invalidate, hstrict]

theorem invalidate_strict (hstrict : l.strict = true) (hne : removed ≠ []) (txs : SortedMap) :
    l.invalidate removed txs = (removed, (txs.filter fun tx => lowest removed < tx.nonce).1,
      { l with txs := (txs.filter fun tx => lowest removed < tx.nonce).2 }) := by
  simp [invalidate, hstrict, hne]

/-- A strict list that loses transactions is cut at the lowest of them. -/
theorem invalidate_cut (hstrict : l.strict = true) (hremoved : ∀ tx ∈ removed, tx ∈ l.flatten)
    (htxs : ∀ tx, tx ∈ txs.items ↔ tx ∈ l.flatten ∧ tx ∉ removed) :
    ∃ m, Cut l.flatten (l.invalidate removed txs).2.2.flatten
      (removed ++ (l.invalidate removed txs).2.1) m := by
  by_cases hne : removed = []
  · subst hne
    refine ⟨2 ^ 64, cut_of_lt (fun tx => ?_) (fun tx _ => Nat.lt_of_succ_lt tx.nonce_lt) nofun⟩
    exact ((htxs tx).trans (and_iff_left not_mem_nil)).symm.trans (or_iff_left nofun).symm
  · obtain ⟨hlow, first, hfirst, heq⟩ := lowest_spec hne
    rw [invalidate_strict l hstrict hne]
    refine ⟨lowest removed, cut_of_lt (fun tx => ?_) (fun tx htx => ?_) fun tx htx => ?_⟩
    · have hkept := htxs tx
      have hgone := hremoved tx
      simp only [flatten, SortedMap.filter, SortedMap.keep, mem_append, mem_filter,
        Bool.not_eq_true', decide_eq_false_iff_not, decide_eq_true_eq] at hkept hgone ⊢
      tauto
    · -- what is left is not at the lowest nonce
      obtain ⟨htx, hle⟩ := mem_filter.mp htx
      obtain ⟨hmem, hnot⟩ := (htxs tx).mp htx
      refine lt_of_le_of_ne (by simpa using hle) fun hnonce => hnot ?_
      rwa [l.txs.eq_of_nonce hmem (hremoved first hfirst) (hnonce.trans heq.symm)]
    · obtain hgone | hback := mem_append.mp htx
      · exact hlow tx hgone
      · exact (of_decide_eq_true (mem_filter.mp hback).2).le

/-- What a filter does, by the kind of the list: the removed and the invalidated transactions and
the list that is left. -/
structure Filtered (l : TxList) (r : List Transaction × List Transaction × TxList) : Prop where
  flag : r.2.2.strict = l.strict
  mem : ∀ tx ∈ r.1, tx ∈ l.flatten
  apart : ∀ tx ∈ r.2.1, tx ∉ r.1
  cut : l.strict = true → ∃ m, Cut l.flatten r.2.2.flatten (r.1 ++ r.2.1) m
  loose : l.strict = false → r.2.1 = [] ∧ ∀ tx, tx ∈ r.2.2.flatten ↔ tx ∈ l.flatten ∧ tx ∉ r.1
  distinct : r.2.1.Pairwise fun x y => x.nonce ≠ y.nonce

/-- What is not removed is kept, or given back. -/
theorem Filtered.split {l : TxList} {r : List Transaction × List Transaction × TxList}
    (h : Filtered l r) (tx : Transaction) :
    tx ∈ r.2.2.flatten ∨ tx ∈ r.2.1 ↔ tx ∈ l.flatten ∧ tx ∉ r.1 := by
  cases hstrict : l.strict with
  | false =>
    obtain ⟨hnil, hkept⟩ := h.loose hstrict
    rw [hnil, hkept, or_iff_left not_mem_nil]
  | true =>
    obtain ⟨m, hcut⟩ := h.cut hstrict
    constructor
    · rintro (hkept | hback)
      · obtain ⟨hmem, hlt⟩ := (hcut.low tx).mp hkept
        refine ⟨hmem, fun hgone => ?_⟩
        have hhigh := (hcut.high tx).mp (mem_append_left _ hgone)
        omega
      · exact ⟨((hcut.high tx).mp (mem_append_right _ hback)).1, h.apart tx hback⟩
    · rintro ⟨hmem, hgone⟩
      obtain hlt | hle := lt_or_ge tx.nonce m
      · exact .inl ((hcut.low tx).mpr ⟨hmem, hlt⟩)
      · obtain hgone' | hback := mem_append.mp ((hcut.high tx).mpr ⟨hmem, hle⟩)
        · exact absurd hgone' hgone
        · exact .inr hback

theorem filtered_nil : Filtered l ([], [], l) where
  flag := rfl
  mem := nofun
  apart := nofun
  cut hstrict := by
    have hall : ∀ tx, tx ∈ l.txs.items ↔ tx ∈ l.flatten ∧ tx ∉ ([] : List Transaction) := by
      simp [flatten]
    have hcut := l.invalidate_cut hstrict (fun _ h => absurd h not_mem_nil) hall
    rwa [invalidate_nil] at hcut
  loose _ := ⟨rfl, fun tx => (and_iff_left not_mem_nil).symm⟩
  distinct := .nil

theorem invalidate_filtered (hremoved : ∀ tx ∈ removed, tx ∈ l.flatten)
    (htxs : ∀ tx, tx ∈ txs.items ↔ tx ∈ l.flatten ∧ tx ∉ removed) :
    Filtered l (l.invalidate removed txs) := by
  cases hstrict : l.strict with
  | false =>
    rw [invalidate_loose l hstrict]
    refine ⟨rfl, hremoved, nofun, fun h => ?_, fun _ => ⟨rfl, htxs⟩, .nil⟩
    rw [hstrict] at h
    cases h
  | true =>
    have hcut := l.invalidate_cut hstrict hremoved htxs
    by_cases hne : removed = []
    · subst hne
      refine ⟨rfl, hremoved, nofun, fun _ => hcut, fun h => ?_, .nil⟩
      rw [hstrict] at h
      cases h
    · rw [invalidate_strict l hstrict hne] at hcut ⊢
      refine ⟨rfl, hremoved, fun tx htx => ?_, fun _ => hcut, fun h => ?_, ?_⟩
      · exact ((htxs tx).mp (mem_of_mem_filter htx)).2
      · rw [hstrict] at h
        cases h
      · exact (txs.sorted.filter _).imp Nat.ne_of_lt

theorem filter_filtered (p : Transaction → Bool) : Filtered l (l.filter p) := by
  apply invalidate_filtered
  · intro tx htx
    exact mem_of_mem_filter htx
  · intro tx
    simp only [SortedMap.filter, SortedMap.keep, flatten, mem_filter, Bool.not_eq_true']
    constructor
    · rintro ⟨hmem, hp⟩
      exact ⟨hmem, fun h => by simp [hp] at h⟩
    · rintro ⟨hmem, hnot⟩
      exact ⟨hmem, by simpa [hmem] using hnot⟩

theorem costFilter_filtered (costLimit gasLimit : Nat) :
    Filtered l (l.costFilter costLimit gasLimit) := by
  simp only [costFilter]
  split_ifs
  · exact l.filtered_nil
  · -- the caps do not matter
    have h := filter_filtered { l with costcap := costLimit, gascap := gasLimit } fun tx =>
      gasLimit < tx.gas || costLimit < tx.cost
    exact ⟨h.flag, h.mem, h.apart, h.cut, h.loose, h.distinct⟩

theorem filterSorted_filtered (f : C → Transaction → C × Bool) (c : C) :
    Filtered l (l.filterSorted f c).2 := by
  apply invalidate_filtered
  · intro tx htx
    exact (SortedMap.filterEach_sublist ..).mem htx
  · simp [SortedMap.filterSorted, SortedMap.keep, flatten]

/-- What a removal does, by the kind of the list. -/
theorem remove_eq_some {invalids : List Transaction} (h : l.remove tx = some (invalids, l')) :
    (∃ x ∈ l.flatten, x.nonce = tx.nonce) ∧ l'.strict = l.strict ∧
      (l.strict = true → (∀ x, x ∈ l'.flatten ↔ x ∈ l.flatten ∧ x.nonce < tx.nonce) ∧
        ∀ x, x ∈ invalids ↔ x ∈ l.flatten ∧ tx.nonce < x.nonce) ∧
      (l.strict = false → invalids = [] ∧
        ∀ x, x ∈ l'.flatten ↔ x ∈ l.flatten ∧ x.nonce ≠ tx.nonce) ∧
      invalids.Pairwise fun x y => x.nonce ≠ y.nonce := by
  have hfound : (∃ x ∈ l.flatten, x.nonce = tx.nonce) := by
    by_contra hnone
    have hget : l.txs.get tx.nonce = none :=
      l.txs.get_eq_none.mpr fun x hx hnonce => hnone ⟨x, hx, hnonce⟩
    simp [remove, SortedMap.remove, hget] at h
  refine ⟨hfound, ?_⟩
  simp only [remove] at h
  split at h
  · cases h
  · split at h
    · next hstrict =>
      obtain ⟨rfl, rfl⟩ := Prod.mk.inj (some.inj h)
      refine ⟨rfl, fun _ => ⟨fun x => ?_, fun x => ?_⟩, fun hloose => ?_, ?_⟩
      · simp only [flatten, SortedMap.remove, SortedMap.filter, SortedMap.keep, mem_filter,
          Bool.not_eq_true', decide_eq_false_iff_not, decide_eq_true_eq, and_assoc]
        exact and_congr_right fun _ => by omega
      · simp only [SortedMap.remove, SortedMap.filter, SortedMap.keep, flatten, mem_filter,
          decide_eq_true_eq, and_assoc]
        exact and_congr_right fun _ => by omega
      · rw [hstrict] at hloose
        cases hloose
      · exact ((l.txs.remove tx.nonce).2.sorted.filter _).imp Nat.ne_of_lt
    · next hstrict =>
      obtain ⟨rfl, rfl⟩ := Prod.mk.inj (some.inj h)
      refine ⟨rfl, fun htrue => absurd htrue hstrict, fun _ => ⟨rfl, fun x => ?_⟩, .nil⟩
      simp [flatten, SortedMap.remove, SortedMap.keep]

theorem remove_eq_none : l.remove tx = none ↔ ∀ x ∈ l.flatten, x.nonce ≠ tx.nonce := by
  rw [flatten, ← SortedMap.get_eq_none]
  simp only [remove]
  split
  · next h => simpa [SortedMap.remove] using h
  · next h =>
    have hsome : l.txs.get tx.nonce ≠ none := by simpa [SortedMap.remove] using h
    split
    · simpa using hsome
    · simpa using hsome

theorem contains_iff : l.contains n = true ↔ ∃ tx ∈ l.flatten, tx.nonce = n := by
  rw [contains, isSome_iff_exists]
  exact exists_congr fun tx => l.txs.get_eq_some

end TxList

end InfiniteEvm.Mempool
