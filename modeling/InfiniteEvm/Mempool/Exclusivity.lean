import InfiniteEvm.Mempool.RecheckPool

/-!
# No address in both pools

Every signer of a pooled Cosmos transaction should be reserved for the Cosmos pool.
Reservations are not counted: a release takes an address away though another pooled
transaction has the same signer, and a hold that meets an address of its own pool leaves
the rest unreserved. A step keeps the property exactly when neither happens.
-/

namespace InfiniteEvm.Mempool

open Tracker List Pools Option

open Std (ExtTreeMap LawfulEqCmp)
open Library

variable {P Tx : Type*} (pools : Pools P Tx) (same : Tx → Tx → Prop)

/-- The signers of the pooled transactions are reserved for the Cosmos pool. -/
def Reserved (s : PoolState P) : Prop :=
  ∀ tx ∈ pools.inner.select s.pool, ∀ addrs, signerAddressesFromTx pools.reader tx = .ok addrs →
    ∀ a ∈ addrs, s.accounts[a]? = some pools.cosmosID

/-- The EVM pool holds the addresses it has transactions from. -/
def EvmHeld (s : PoolState P) : Prop :=
  ∀ a ∈ s.evm, s.accounts[a]? = some pools.evmID

/-- The addresses that the removal of a transaction releases. -/
def releasedWith (s : PoolState P) (tx : Tx) : List Address :=
  match pools.inner.remove s.pool tx with
  | .error _ => []
  | .ok _ =>
    match signerAddressesFromTx pools.reader tx with
    | .error _ => []
    | .ok addrs => released pools.cosmosID s.accounts addrs

/-- The addresses that a list of removals releases. -/
def releasedWithAll (s : PoolState P) : List Tx → List Address
  | [] => []
  | tx :: rest => releasedWith pools s tx ++ releasedWithAll (pools.removeFailed s tx) rest

/-- The transactions that a step takes out of the Cosmos pool. -/
def takenIn (s : PoolState P) : PoolOp Tx → List Tx
  | .remove tx => [tx]
  | .recheck cancelled ante =>
    if cancelled then [] else pools.failing ante ∅ (pools.inner.select s.pool)
  | _ => []

/-- The addresses that the Cosmos pool releases in a step. -/
def releasedIn (s : PoolState P) : PoolOp Tx → List Address
  | .insert tx context ante =>
    match signerAddressesFromTx pools.reader tx with
    | .error _ => []
    | .ok addrs =>
      match hold pools.cosmosID s.accounts addrs with
      | (some _, _) => []
      | (none, accounts) =>
        match context, ante, pools.inner.insert s.pool tx with
        | some _, _, _ => []
        | none, none, .ok _ => []
        | _, _, _ => released pools.cosmosID accounts addrs
  | op => releasedWithAll pools s (takenIn pools s op)

/-- The tracker after the hold of a step. -/
def heldIn (s : PoolState P) : PoolOp Tx → Tracker
  | .insert tx _ _ =>
    match signerAddressesFromTx pools.reader tx with
    | .error _ => s.accounts
    | .ok addrs => (hold pools.cosmosID s.accounts addrs).2
  | _ => s.accounts

/-- No address that the step releases signs a pooled transaction that the step does not take
out. The signers of a transaction that is inserted are refused, or they are first unreserved
and then reserved for the Cosmos pool. -/
structure Covered (s : PoolState P) (op : PoolOp Tx) : Prop where
  unshared : ∀ tx ∈ pools.inner.select s.pool, (∀ taken ∈ takenIn pools s op, ¬same taken tx) →
    ∀ addrs, signerAddressesFromTx pools.reader tx = .ok addrs →
      ∀ a ∈ addrs, a ∉ releasedIn pools s op
  held : ∀ tx pool addrs, op = .insert tx none none → pools.inner.insert s.pool tx = .ok pool →
    signerAddressesFromTx pools.reader tx = .ok addrs →
      Refused pools.cosmosID s.accounts addrs ∨
        Leads (fun a => s.accounts[a]? = none) (fun a => s.accounts[a]? = some pools.cosmosID) addrs

/-- The states of the runs in which every step is covered. -/
inductive Reaches (p : P) : PoolState P → Prop
  | init : Reaches p { accounts := ∅, pool := p, evm := ∅ }
  | step {s s' : PoolState P} {op : PoolOp Tx} : Reaches p s → pools.step s op = some s' →
      Covered pools same s op → Reaches p s'

variable {pools} {same} {s s' : PoolState P} {op : PoolOp Tx}

/-! ## What a step does -/

/-- The tracker and the EVM pool after a step of the Cosmos pool. -/
structure CosmosStep (pools : Pools P Tx) (s s' : PoolState P) (held : Tracker)
    (released : List Address) : Prop where
  accounts : ∀ a : Address, s'.accounts[a]? = if a ∈ released then none else held[a]?
  owned : ∀ a ∈ released, held[a]? = some pools.cosmosID
  evm : s'.evm = s.evm

/-- A step that gives nothing back. -/
theorem CosmosStep.keep {held : Tracker} {gone : List Address} (hgone : gone = [])
    (haccounts : s'.accounts = held) (hevm : s'.evm = s.evm) :
    CosmosStep pools s s' held gone := by
  subst hgone haccounts
  exact ⟨fun a => by simp, fun a ha => absurd ha not_mem_nil, hevm⟩

/-- A step that releases a list of addresses, as far as the release comes. -/
theorem CosmosStep.give {held : Tracker} {gone : List Address} (addrs : List Address)
    (hgone : gone = released pools.cosmosID held addrs)
    (haccounts : s'.accounts = (release pools.cosmosID held addrs).2) (hevm : s'.evm = s.evm) :
    CosmosStep pools s s' held gone := by
  subst hgone
  exact ⟨fun a => by rw [haccounts, release_getElem], fun a ha => owned_of_released ha, hevm⟩

theorem removeFailed_step (pools : Pools P Tx) (s : PoolState P) (tx : Tx) :
    CosmosStep pools s (pools.removeFailed s tx) s.accounts (releasedWith pools s tx) := by
  unfold removeFailed releasedWith
  cases pools.inner.remove s.pool tx with
  | error err => exact .keep rfl rfl rfl
  | ok pool =>
    cases signerAddressesFromTx pools.reader tx with
    | error err => exact .keep rfl rfl rfl
    | ok addrs => exact .give addrs rfl rfl rfl

theorem removeAll_step (pools : Pools P Tx) (txs : List Tx) (s : PoolState P) :
    CosmosStep pools s (txs.foldl pools.removeFailed s) s.accounts
      (releasedWithAll pools s txs) := by
  induction txs generalizing s with
  | nil => exact .keep rfl rfl rfl
  | cons tx rest ih =>
    have hone := removeFailed_step pools s tx
    have hrest := ih (pools.removeFailed s tx)
    refine ⟨?_, ?_, hrest.evm.trans hone.evm⟩
    · intro a
      rw [foldl_cons, hrest.accounts, hone.accounts, releasedWithAll]
      by_cases hfirst : a ∈ releasedWith pools s tx
      · simp [hfirst]
      · simp [hfirst]
    · intro a ha
      rcases mem_append.mp ha with hfirst | hmem
      · exact hone.owned a hfirst
      · have howned := hrest.owned a hmem
        rw [hone.accounts] at howned
        split at howned
        · cases howned
        · exact howned

/-- What is left in the pool after removals. -/
theorem mem_removeAll (law : pools.inner.Lawful same) (txs : List Tx) (s : PoolState P) (x : Tx) :
    x ∈ pools.inner.select (txs.foldl pools.removeFailed s).pool ↔
      x ∈ pools.inner.select s.pool ∧ ∀ tx ∈ txs, ¬same tx x := by
  induction txs generalizing s with
  | nil => simp
  | cons tx rest ih =>
    have hone : x ∈ pools.inner.select (pools.removeFailed s tx).pool ↔
        x ∈ pools.inner.select s.pool ∧ ¬same tx x := by
      unfold removeFailed
      cases hremove : pools.inner.remove s.pool tx with
      | error err =>
        exact ⟨fun hx => ⟨hx, law.missing _ _ _ hremove x hx⟩, fun hx => hx.1⟩
      | ok pool =>
        cases signerAddressesFromTx pools.reader tx with
        | error err | ok addrs => exact law.removed _ _ _ hremove x
    rw [foldl_cons, ih, hone, forall_mem_cons, and_assoc]

/-- Owners stay in the hold of a step. -/
theorem heldIn_of_some {a : Address} {owner : Int} (h : s.accounts[a]? = some owner) :
    (heldIn pools s op)[a]? = some owner := by
  unfold heldIn
  split
  · split
    · exact h
    · exact hold_of_some h _
  · exact h

/-- Where the pool only loses what the step takes out, the signers are reserved afterwards
exactly if no address of one that stays is released. -/
theorem CosmosStep.reserved_iff
    (h : CosmosStep pools s s' (heldIn pools s op) (releasedIn pools s op))
    (hpool : ∀ x, x ∈ pools.inner.select s'.pool ↔
      x ∈ pools.inner.select s.pool ∧ ∀ taken ∈ takenIn pools s op, ¬same taken x)
    (hs : Reserved pools s)
    (hheld : ∀ tx pool addrs, op = .insert tx none none → pools.inner.insert s.pool tx = .ok pool →
      signerAddressesFromTx pools.reader tx = .ok addrs → Refused pools.cosmosID s.accounts addrs) :
    Reserved pools s' ↔ Covered pools same s op := by
  constructor
  · intro hs'
    refine ⟨fun tx htx hstays addrs haddrs a ha hreleased => ?_, fun tx pool addrs hop hok haddrs =>
      .inl (hheld tx pool addrs hop hok haddrs)⟩
    have howner := hs' tx ((hpool tx).mpr ⟨htx, hstays⟩) addrs haddrs a ha
    rw [h.accounts, if_pos hreleased] at howner
    cases howner
  · intro hcovered tx htx addrs haddrs a ha
    obtain ⟨hmem, hstays⟩ := (hpool tx).mp htx
    rw [h.accounts, if_neg (hcovered.unshared tx hmem hstays addrs haddrs a ha)]
    exact heldIn_of_some (hs tx hmem addrs haddrs a ha)

/-- An insertion goes through, or the pool stays and a transaction that the inner pool would take
is refused. -/
theorem insert_cases (pools : Pools P Tx) (s : PoolState P) (tx : Tx)
    (context ante : Option String) :
    CosmosStep pools s (pools.insert s tx context ante).2
      (heldIn pools s (.insert tx context ante))
      (releasedIn pools s (.insert tx context ante)) ∧
    ((∃ pool addrs, context = none ∧ ante = none ∧ pools.inner.insert s.pool tx = .ok pool ∧
      signerAddressesFromTx pools.reader tx = .ok addrs ∧
      (hold pools.cosmosID s.accounts addrs).1 = none ∧
      (pools.insert s tx context ante).2 =
        { s with pool, accounts := (hold pools.cosmosID s.accounts addrs).2 } ∧
      releasedIn pools s (.insert tx context ante) = []) ∨
    (pools.insert s tx context ante).2.pool = s.pool ∧
      ∀ pool addrs, context = none → ante = none → pools.inner.insert s.pool tx = .ok pool →
        signerAddressesFromTx pools.reader tx = .ok addrs →
          Refused pools.cosmosID s.accounts addrs) := by
  simp only [Pools.insert, heldIn, releasedIn]
  cases hsigners : signerAddressesFromTx pools.reader tx with
  | error err => exact ⟨.keep rfl rfl rfl, .inr ⟨rfl, by simp⟩⟩
  | ok addrs =>
    have herror : (hold pools.cosmosID s.accounts addrs).1 ≠ none ↔
      Refused pools.cosmosID s.accounts addrs := hold_error_iff
    dsimp only
    cases hhold : hold pools.cosmosID s.accounts addrs with
    | mk err accounts =>
      rw [hhold] at herror
      cases err with
      | some err =>
        refine ⟨.keep rfl rfl rfl, .inr ⟨rfl, fun _ addrs' _ _ _ haddrs => ?_⟩⟩
        cases haddrs
        exact herror.mp (by simp)
      | none =>
        cases context with
        | some err => exact ⟨.keep rfl rfl rfl, .inr ⟨rfl, by simp⟩⟩
        | none =>
          cases ante with
          | some err => exact ⟨.give addrs rfl rfl rfl, .inr ⟨rfl, by simp⟩⟩
          | none =>
            cases hinsert : pools.inner.insert s.pool tx with
            | error err => exact ⟨.give addrs rfl rfl rfl, .inr ⟨rfl, by simp⟩⟩
            | ok pool =>
              exact ⟨.keep rfl rfl rfl, .inl ⟨pool, addrs, rfl, rfl, rfl, rfl, by rw [hhold],
                by rw [hhold], rfl⟩⟩

theorem insert_reserved_iff (law : pools.inner.Lawful same) (hs : Reserved pools s) (tx : Tx)
    (context ante : Option String) : Reserved pools (pools.insert s tx context ante).2 ↔
      Covered pools same s (.insert tx context ante) := by
  obtain ⟨hstep, ⟨pool, addrs, rfl, rfl, hinner, hsigners, hhold, hinsert, hreleased⟩ |
    ⟨hpool, hrefused⟩⟩ := insert_cases pools s tx context ante
  · rw [hinsert]
    constructor
    · intro hs'
      refine ⟨fun _ _ _ _ _ a _ => hreleased ▸ not_mem_nil,
        fun tx' pool' addrs' hop _ hsigners' => ?_⟩
      obtain ⟨rfl, -, -⟩ := PoolOp.insert.inj hop
      obtain rfl := Except.ok.inj (hsigners.symm.trans hsigners')
      exact .inr (hold_all_iff.mp ⟨hhold, hs' tx (law.inserted _ _ _ hinner) addrs hsigners⟩)
    · intro hcovered x hx addrs' haddrs a ha
      rcases law.insert_subset _ _ _ hinner x hx with rfl | hmem
      · obtain rfl := Except.ok.inj (hsigners.symm.trans haddrs)
        rcases hcovered.held x pool addrs rfl hinner hsigners with hrefused | hleads
        · exact absurd hhold (hold_error_iff.mpr hrefused)
        · exact (hold_all_iff.mpr hleads).2 a ha
      · exact hold_of_some (hs x hmem addrs' haddrs a ha) addrs
  · refine hstep.reserved_iff (fun x => ?_) hs fun tx' pool addrs hop hinner hsigners => ?_
    · rw [hpool]
      simp [takenIn]
    · obtain ⟨rfl, rfl, rfl⟩ := PoolOp.insert.inj hop
      exact hrefused pool addrs rfl rfl hinner hsigners

/-- A step of the EVM pool does not touch the Cosmos pool and its reservations, and holds
what it has transactions from. -/
structure EvmStep (pools : Pools P Tx) (s s' : PoolState P) : Prop where
  pool : s'.pool = s.pool
  accounts : ∀ a : Address, s.accounts[a]? = some pools.cosmosID →
    s'.accounts[a]? = some pools.cosmosID
  held : EvmHeld pools s'

theorem mem_insert_iff {evm : FMap Address Nat} {sender a : Address} {n : Nat} :
    a ∈ evm.insert sender n ↔ a = sender ∨ a ∈ evm := by
  rw [ExtTreeMap.mem_insert, LawfulEqCmp.compare_eq_iff_eq, eq_comm]

/-- The EVM pool counts another number of transactions of an account it has. -/
theorem EvmHeld.count (hs : EvmHeld pools s) {sender : Address} {n : Nat}
    (hfound : s.evm[sender]? = some n) (m : Nat) :
    EvmStep pools s { s with evm := s.evm.insert sender m } := by
  refine ⟨rfl, fun _ h => h, fun a ha => ?_⟩
  rcases mem_insert_iff.mp ha with rfl | hmem
  · exact hs a (ExtTreeMap.mem_iff_isSome_getElem?.mpr (by rw [hfound]; rfl))
  · exact hs a hmem

theorem evmAdd_step (hs : EvmHeld pools s) (sender : Address) (accepted : Bool) :
    EvmStep pools s (pools.evmAdd s sender accepted) := by
  unfold evmAdd
  cases hfound : s.evm[sender]? with
  | some n =>
    cases accepted with
    | false => exact ⟨rfl, fun _ h => h, hs⟩
    | true => exact hs.count hfound _
  | none =>
    have hkeep : ∀ a owner, s.accounts[a]? = some owner →
        (hold pools.evmID s.accounts [sender]).2[a]? = some owner :=
      fun a owner h => hold_of_some h [sender]
    have hnew : (hold pools.evmID s.accounts [sender]).1 = none →
        (hold pools.evmID s.accounts [sender]).2[sender]? = some pools.evmID :=
      hold_singleton
    generalize hold pools.evmID s.accounts [sender] = held at hkeep hnew
    obtain ⟨err, accounts⟩ := held
    cases err with
    | some err => exact ⟨rfl, fun a h => hkeep a _ h, fun a ha => hkeep a _ (hs a ha)⟩
    | none =>
      cases accepted with
      | true =>
        refine ⟨rfl, fun a h => hkeep a _ h, fun a ha => ?_⟩
        rcases mem_insert_iff.mp ha with rfl | hmem
        · exact hnew rfl
        · exact hkeep a _ (hs a hmem)
      | false =>
        refine ⟨rfl, fun a h => ?_, fun a ha => ?_⟩
        · exact release_of_some (hkeep a _ h) (Or.inl pools.distinct)
        · refine release_of_some (hkeep a _ (hs a ha)) (Or.inr ?_)
          intro hmem
          rw [mem_singleton.mp hmem] at ha
          have hsome : s.evm[sender]?.isSome := ExtTreeMap.mem_iff_isSome_getElem?.mp ha
          rw [hfound] at hsome
          cases hsome

theorem evmRemove_step (hs : EvmHeld pools s) (sender : Address) :
    EvmStep pools s (pools.evmRemove s sender) := by
  unfold evmRemove
  cases hfound : s.evm[sender]? with
  | none => exact ⟨rfl, fun _ h => h, hs⟩
  | some n =>
    dsimp only
    split
    · refine ⟨rfl, fun a h => ?_, fun a ha => ?_⟩
      · exact release_of_some h (Or.inl pools.distinct)
      · obtain ⟨hne, hmem⟩ := ExtTreeMap.mem_erase.mp ha
        refine release_of_some (hs a hmem) (Or.inr ?_)
        intro heq
        rw [mem_singleton.mp heq] at hne
        exact hne (LawfulEqCmp.compare_eq_iff_eq.mpr rfl)
    · exact hs.count hfound _

/-- The EVM pool keeps its reservations in every step of the Cosmos pool. -/
theorem CosmosStep.evmHeld (h : CosmosStep pools s s' (heldIn pools s op) (releasedIn pools s op))
    (hs : EvmHeld pools s) : EvmHeld pools s' := by
  intro a ha
  have hheld : (heldIn pools s op)[a]? = some pools.evmID := heldIn_of_some (hs a (h.evm ▸ ha))
  have hkept : a ∉ releasedIn pools s op := by
    intro hmem
    have howned := h.owned a hmem
    rw [hheld] at howned
    exact pools.distinct (some.inj howned).symm
  rw [h.accounts, if_neg hkept, hheld]

/-- A step of the EVM pool is covered, and keeps the signers reserved. -/
theorem EvmStep.reserved_iff (h : EvmStep pools s s') (op : PoolOp Tx)
    (hop : releasedIn pools s op = [])
    (hinsert : ∀ tx context ante, op ≠ .insert tx context ante) (hs : Reserved pools s) :
    Reserved pools s' ↔ Covered pools same s op := by
  refine iff_of_true ?_ ⟨fun _ _ _ _ _ a _ => hop ▸ not_mem_nil, fun tx _ _ heq =>
    absurd heq (hinsert tx none none)⟩
  intro tx htx addrs haddrs a ha
  rw [h.pool] at htx
  exact h.accounts a (hs tx htx addrs haddrs a ha)

/-- `Remove` that does not panic does what a recheck does for one transaction. -/
theorem remove_eq {tx : Tx} (h : pools.step s (.remove tx) = some s') :
    s' = pools.removeFailed s tx := by
  simp only [step, remove] at h
  unfold removeFailed
  cases hinner : pools.inner.remove s.pool tx with
  | error err =>
    rw [hinner] at h
    exact (some.inj h).symm
  | ok pool =>
    cases hsigners : signerAddressesFromTx pools.reader tx with
    | error err =>
      rw [hinner, hsigners] at h
      cases h
    | ok addrs =>
      rw [hinner, hsigners] at h
      exact (some.inj h).symm

/-- One step from a state in which both pools have their reservations. -/
theorem step_reserved (law : pools.inner.Lawful same) (hs : Reserved pools s)
    (hevm : EvmHeld pools s) (h : pools.step s op = some s') :
    (Reserved pools s' ↔ Covered pools same s op) ∧ EvmHeld pools s' := by
  cases op with
  | insert tx context ante =>
    cases h
    exact ⟨insert_reserved_iff law hs tx context ante,
      (insert_cases pools s tx context ante).1.evmHeld hevm⟩
  | remove tx =>
    rw [remove_eq h]
    have hstep : CosmosStep pools s _ (heldIn pools s (.remove tx))
      (releasedIn pools s (.remove tx)) := removeAll_step pools [tx] s
    exact ⟨hstep.reserved_iff (mem_removeAll law [tx] s) hs (by simp), hstep.evmHeld hevm⟩
  | recheck cancelled ante =>
    have hs' : s' = (takenIn pools s (.recheck cancelled ante)).foldl pools.removeFailed s := by
      cases h
      cases cancelled with
      | true => rfl
      | false => rfl
    rw [hs']
    have hstep : CosmosStep pools s _ (heldIn pools s (.recheck cancelled ante))
      (releasedIn pools s (.recheck cancelled ante)) := removeAll_step pools _ s
    exact ⟨hstep.reserved_iff (mem_removeAll law _ s) hs (by simp), hstep.evmHeld hevm⟩
  | evmAdd sender accepted =>
    cases h
    have hstep := evmAdd_step hevm sender accepted
    exact ⟨hstep.reserved_iff (.evmAdd sender accepted) rfl (by simp) hs, hstep.held⟩
  | evmRemove sender =>
    cases h
    have hstep := evmRemove_step hevm sender
    exact ⟨hstep.reserved_iff (.evmRemove sender) rfl (by simp) hs, hstep.held⟩

/-- A step keeps the signers of pooled transactions reserved exactly if it is covered. In
every run of covered steps they are reserved in every state, and no address has
transactions in both pools. -/
theorem signers_reserved_iff (pools : Pools P Tx) (law : pools.inner.Lawful same) :
    (∀ s op s', Reserved pools s → EvmHeld pools s → pools.step s op = some s' →
      (Reserved pools s' ↔ Covered pools same s op)) ∧
    ∀ p, pools.inner.select p = [] → ∀ s, Reaches pools same p s →
      Reserved pools s ∧
      ∀ a ∈ s.evm, ∀ tx ∈ pools.inner.select s.pool, ∀ addrs,
        signerAddressesFromTx pools.reader tx = .ok addrs → a ∉ addrs := by
  refine ⟨fun s op s' hs hevm h => (step_reserved law hs hevm h).1, ?_⟩
  intro p hp s hreach
  have hboth : Reserved pools s ∧ EvmHeld pools s := by
    induction hreach with
    | init =>
      constructor
      · intro tx htx
        rw [hp] at htx
        cases htx
      · intro a ha
        exact absurd ha ExtTreeMap.not_mem_empty
    | step _ h hcovered ih =>
      obtain ⟨hiff, hevm⟩ := step_reserved law ih.1 ih.2 h
      exact ⟨hiff.mpr hcovered, hevm⟩
  refine ⟨hboth.1, ?_⟩
  intro a ha tx htx addrs haddrs hmem
  have hcosmos := hboth.1 tx htx addrs haddrs a hmem
  rw [hboth.2 a ha] at hcosmos
  exact pools.distinct (some.inj hcosmos).symm

/-! ## A small node -/

/-- Transactions with an id and their signers, kept in a list. -/
def smallPools : Pools (List (Nat × List Bytes)) (Nat × List Bytes) where
  reader :=
    { sigVerifiable := fun _ => true
      getSigners := fun tx => .ok tx.2
      getSignaturesV2 := fun _ => .ok [] }
  inner :=
    { insert := fun p tx => .ok (tx :: p)
      remove := fun p tx =>
        if tx ∈ p then .ok (p.filter (tx ≠ ·)) else .error "tx not found in mempool"
      select := id }
  cosmosID := -1
  evmID := 0
  distinct := by decide

theorem smallPools_lawful : smallPools.inner.Lawful (· = ·) where
  inserted p tx p' h := by
    cases h
    exact mem_cons_self
  insert_subset p tx p' h x hx := by
    cases h
    exact mem_cons.mp hx
  removed p tx p' h x := by
    simp only [smallPools] at h
    split at h
    · cases h
      simp [smallPools]
    · cases h
  missing p tx err h x hx := by
    simp only [smallPools] at h
    split at h
    · cases h
    · rintro rfl
      exact absurd hx ‹_›

/-- Two transactions of the account 1 are pooled. When the first is removed the address is
released, and the EVM pool takes a transaction of the same account. -/
theorem shared_signer_in_both_pools :
    (Runs.run smallPools.step ⟨∅, [], ∅⟩
      [.insert (1, [[1]]) none none, .insert (2, [[1]]) none none, .remove (1, [[1]]),
        .evmAdd 1 true]).map
      (fun s => (smallPools.inner.select s.pool, s.accounts[(1 : Address)]?,
        s.evm[(1 : Address)]?)) =
      some ([(2, [[1]])], some 0, some 1) := by
  decide +kernel

/-- Transactions of the accounts 1 and 2 and of the account 3 are pooled. When the first is
removed, the EVM pool takes a transaction of the account 2. -/
theorem signers_reserved_iff_removed : ∃ s,
    Runs.run smallPools.step ⟨∅, [], ∅⟩
      [.insert (1, [[1], [2]]) none none, .insert (2, [[3]]) none none, .remove (1, [[1], [2]]),
        .evmAdd 2 true] = some s ∧
      s.pool = [(2, [[3]])] ∧ s.evm[(2 : Address)]? = some 1 ∧ Reserved smallPools s := by
  have hrun : (smallPools.step ⟨∅, [], ∅⟩ (.insert (1, [[1], [2]]) none none)).bind (fun s₁ =>
      (smallPools.step s₁ (.insert (2, [[3]]) none none)).bind fun s₂ =>
        (smallPools.step s₂ (.remove (1, [[1], [2]]))).bind fun s₃ =>
          (smallPools.step s₃ (.evmAdd 2 true)).map fun s => decide (
            releasedIn smallPools s₁ (.insert (2, [[3]]) none none) = [] ∧
            s₁.accounts[(3 : Address)]? = none ∧ s₂.pool = [(2, [[3]]), (1, [[1], [2]])] ∧
            releasedIn smallPools s₂ (.remove (1, [[1], [2]])) = [1, 2] ∧
            s.pool = [(2, [[3]])] ∧ s.evm[(2 : Address)]? = some 1)) = some true := by
    decide +kernel
  obtain ⟨s₁, h₁, hrun⟩ := bind_eq_some_iff.mp hrun
  obtain ⟨s₂, h₂, hrun⟩ := bind_eq_some_iff.mp hrun
  obtain ⟨s₃, h₃, hrun⟩ := bind_eq_some_iff.mp hrun
  obtain ⟨s, h₄, hrun⟩ := map_eq_some_iff.mp hrun
  obtain ⟨hnothing, hfree, hpool, hreleased, hleft, hevm⟩ := of_decide_eq_true hrun
  -- The signers are not reserved before the insertions.
  have hfirst : Covered smallPools (· = ·) ⟨∅, [], ∅⟩ (.insert (1, [[1], [2]]) none none) := by
    refine ⟨by simp [smallPools], fun tx pool addrs hop _ haddrs => .inr ?_⟩
    obtain ⟨rfl, -, -⟩ := PoolOp.insert.inj hop
    obtain rfl : [1, 2] = addrs := Except.ok.inj haddrs
    exact ⟨[1, 2], [], rfl, by decide, by simp, by simp⟩
  have hsecond : Covered smallPools (· = ·) s₁ (.insert (2, [[3]]) none none) := by
    refine ⟨fun _ _ _ _ _ a _ => hnothing ▸ not_mem_nil, fun tx pool addrs hop _ haddrs => .inr ?_⟩
    obtain ⟨rfl, -, -⟩ := PoolOp.insert.inj hop
    obtain rfl : [3] = addrs := Except.ok.inj haddrs
    exact ⟨[3], [], rfl, by decide, by simpa using hfree, by simp⟩
  -- The transaction that stays has another signer than those that are released.
  have hremoved : Covered smallPools (· = ·) s₂ (.remove (1, [[1], [2]])) := by
    refine ⟨fun tx htx hstays addrs haddrs a ha => ?_, by simp⟩
    rw [hpool] at htx
    rcases mem_pair.mp htx with rfl | rfl
    · obtain rfl : [3] = addrs := Except.ok.inj haddrs
      rw [mem_singleton.mp ha, hreleased]
      decide
    · exact absurd rfl (hstays _ mem_cons_self)
  have hadded : Covered smallPools (· = ·) s₃ (.evmAdd 2 true) :=
    ⟨fun _ _ _ _ _ _ _ => not_mem_nil, by simp⟩
  have hreach : Reaches smallPools (· = ·) [] s :=
    .step (.step (.step (.step .init h₁ hfirst) h₂ hsecond) h₃ hremoved) h₄ hadded
  refine ⟨s, ?_, hleft, hevm, ((signers_reserved_iff smallPools smallPools_lawful).2 [] rfl s
    hreach).1⟩
  simp only [Runs.run, h₁, h₂, h₃, h₄, bind_some]

end InfiniteEvm.Mempool
