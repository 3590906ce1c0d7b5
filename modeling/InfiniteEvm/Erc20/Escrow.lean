import InfiniteEvm.Erc20.Refund

/-!
# Escrow

The coins of a foreign contract are claims on the tokens that the module holds of it. They are
covered through every sequence of conversions, callbacks, sends, calls of others, registrations
and deletions, as long as no refund drops the error of a conversion that has already released
its tokens.
-/

namespace InfiniteEvm.Erc20

open Library Keeper Option Function Store

namespace Modules

variable {σ ε ι : Type} {m : Modules σ ε} {w w' : World σ ε} {mode : CallMode} {id : Bytes}

/-! ## Steps -/

/-- What happens to coins and tokens. -/
inductive Step (ι : Type)
  /-- `ConvertERC20`, or the conversion of the ICS-20 precompile. -/
  | convertERC20 (callFromPrecompile : Bool) (contract : Address) (amount : Int)
      (receiver : AccAddress) (sender : Address)
  | convertCoin (coin : Coin) (receiver : Address) (sender : AccAddress)
  | onRecvPacket (packet : ReceivedPacket)
  | refund (data : PacketData) (reason : Refunded)
  | send (sender recipient : AccAddress) (coins : Coins)
  /-- Calls that do not come from the module. -/
  | call (activity : ι)
  | registerERC20 (contract : Address) (queryERC20 : Except String ERC20Data)
  | toggleConversion (token : String)

/-- The world after something that is reverted if it fails. -/
def committed (w : World σ ε) : World σ ε × Option Fault → World σ ε
  | (w', none) => w'
  | (_, some _) => w

def step (m : Modules σ ε) (act : ε → ι → ε) (w : World σ ε) : Step ι → World σ ε
  | .convertERC20 callFromPrecompile contract amount receiver sender =>
    committed w (m.convertERC20IntoCoinsForNativeToken w { commit := true, callFromPrecompile }
      contract amount receiver sender)
  | .convertCoin coin receiver sender => committed w (m.convertCoin w coin receiver sender)
  | .onRecvPacket packet => committed w (m.onRecvPacket w packet)
  | .refund data reason => committed w (m.callback w data reason)
  | .send sender recipient coins =>
    match m.bankKeeper.sendCoins w.bank sender recipient coins with
    | .error _ => w
    | .ok bank => { w with bank }
  | .call activity => { w with evm := act w.evm activity }
  | .registerERC20 contract queryERC20 =>
    match m.keeper.registerERC20 queryERC20 w.registry contract with
    | (_, .error _) => w
    | (registry, .ok _) => { w with registry }
  | .toggleConversion token =>
    match m.keeper.toggleConversion w.registry.store token with
    | .error _ => w
    | .ok (_, store) => { w with registry := { w.registry with store } }

/-! ## Tokens -/

/-- The contract returns false. -/
def ReturnsFalse (m : Modules σ ε) (res : CallResult) : Prop :=
  res.ret ≠ [] ∧ m.evmKeeper.unpackBool res.ret = .ok false

/-- A contract with a ledger, whose transfers move exactly what is asked for or fail, and of
which the module loses tokens only by its own calls. -/
structure ExactToken (m : Modules σ ε) (act : ε → ι → ε) (tokens : ε → Address → Int)
    (contract : Address) : Prop where
  query : ∀ {e a balance}, m.evmKeeper.balanceOf e contract a = some balance → balance = tokens e a
  transfer : ∀ {e e' mode caller recipient amount result}, mode.commit = true →
    m.evmKeeper.transfer e mode caller contract recipient amount = (e', result) →
      (∃ res, result = .ok res ∧ ¬m.ReturnsFalse res ∧ ∀ a, tokens e' a = tokens e a +
          ((if a = recipient then amount else 0) - if a = caller then amount else 0)) ∨
        ((∀ a, tokens e' a = tokens e a) ∧ ∀ res, result = .ok res → m.ReturnsFalse res)
  others : ∀ {e e' mode caller other recipient amount result}, other ≠ contract →
    m.evmKeeper.transfer e mode caller other recipient amount = (e', result) →
      tokens e m.moduleAddress ≤ tokens e' m.moduleAddress
  calls : ∀ e activity, tokens e m.moduleAddress ≤ tokens (act e activity) m.moduleAddress

/-! ## Claims -/

/-- The denom is a claim on the contract: it is the denom of a stored pair, or the one that a
registration gave to the contract, even if the pair is deleted by now. -/
def Claims (m : Modules σ ε) (contract : Address) (s : State) (denom : String) : Prop :=
  (∃ id pair, s.store.pairs id = some pair ∧ pair.isNativeERC20 = true ∧
      pair.getERC20Contract = contract ∧ pair.denom = denom) ∨
    denom = createDenom (m.keeper.addressString contract) ∧ (s.denomMetadata denom).isSome = true

/-- Once the contract was registered, its pair has that denom, and no other pair does. -/
def Named (m : Modules σ ε) (contract : Address) (s : State) : Prop :=
  (s.denomMetadata (createDenom (m.keeper.addressString contract))).isSome = true →
    ∀ id pair, s.store.pairs id = some pair → pair.isNativeERC20 = true →
      (pair.getERC20Contract = contract ↔
        pair.denom = createDenom (m.keeper.addressString contract))

/-- The claims on the contract are covered. -/
def Backed (m : Modules σ ε) (tokens : ε → Address → Int) (contract : Address)
    (w : World σ ε) : Prop :=
  ∀ denom, m.Claims contract w.registry denom →
    m.bankKeeper.getSupply w.bank denom ≤ tokens w.evm m.moduleAddress

/-- The registry of a chain, as far as the contract is concerned. -/
structure Orderly (m : Modules σ ε) (contract : Address) (s : State) : Prop where
  linked : m.keeper.Linked s.store
  named : m.Named contract s

section Registry

variable {contract : Address} {s t : State} {denom : String} {pair : TokenPair}

theorem createDenom_addressString_inj {k : Keeper} {a b : Address}
    (h : createDenom (k.addressString a) = createDenom (k.addressString b)) : a = b := by
  have htext : k.addressString a = k.addressString b := by
    have := congrArg String.toList h
    simpa [createDenom, String.toList_inj] using this
  rw [← hexToAddress_addressString (k := k) a, htext, hexToAddress_addressString]

/-- A claim belongs to one contract. -/
theorem Orderly.claims_iff (hs : m.Orderly contract s) (hclaims : m.Claims contract s denom)
    (hpair : s.store.pairs id = some pair) (hnative : pair.isNativeERC20 = true) :
    pair.getERC20Contract = contract ↔ pair.denom = denom := by
  obtain ⟨id', pair', hpair', -, hcontract, hdenom⟩ | ⟨rfl, hmetadata⟩ := hclaims
  · have hsame : id = id' → pair = pair' := by
      rintro rfl
      rw [hpair] at hpair'
      exact some.inj hpair'
    constructor
    · intro h
      rw [hsame (hs.linked.eq_of_contract hpair hpair' (h.trans hcontract.symm))]
      exact hdenom
    · intro h
      rw [hsame (hs.linked.eq_of_denom hpair hpair' (h.trans hdenom.symm))]
      exact hcontract
  · exact hs.named hmetadata id pair hpair hnative

/-- No pair of a foreign contract is added. -/
structure Subsumed (s t : State) : Prop where
  metadata : t.denomMetadata = s.denomMetadata
  pairs : ∀ {id pair}, t.store.pairs id = some pair → pair.isNativeERC20 = true →
    ∃ old, s.store.pairs id = some old ∧ old.isNativeERC20 = true ∧
      old.getERC20Contract = pair.getERC20Contract ∧ old.denom = pair.denom

theorem Subsumed.claims (h : Subsumed s t) (hclaims : m.Claims contract t denom) :
    m.Claims contract s denom := by
  obtain ⟨id, pair, hpair, hnative, hcontract, hdenom⟩ | ⟨hdenom, hmetadata⟩ := hclaims
  · obtain ⟨old, hold, hownative, hocontract, hodenom⟩ := h.pairs hpair hnative
    exact .inl ⟨id, old, hold, hownative, hocontract.trans hcontract, hodenom.trans hdenom⟩
  · rw [h.metadata] at hmetadata
    exact .inr ⟨hdenom, hmetadata⟩

theorem Subsumed.orderly (h : Subsumed s t) (hs : m.Orderly contract s)
    (hlinked : m.keeper.Linked t.store) : m.Orderly contract t where
  linked := hlinked
  named := by
    intro hmetadata id pair hpair hnative
    obtain ⟨old, hold, hownative, hcontract, hdenom⟩ := h.pairs hpair hnative
    rw [h.metadata] at hmetadata
    rw [← hcontract, ← hdenom]
    exact hs.named hmetadata id old hold hownative

/-- A deleted pair. -/
theorem subsumed_deleteTokenPair (s : State) (pair : TokenPair) :
    Subsumed s { s with store := m.keeper.deleteTokenPair s.store pair } where
  metadata := rfl
  pairs := by
    intro id p hp hnative
    simp only [deleteTokenPair, removeTokenPair, deleteERC20Map,
      deleteDenomMap, deleteAllowances, update_apply] at hp
    split_ifs at hp
    exact ⟨p, hp, hnative, rfl, rfl⟩

/-- A toggled pair. -/
theorem subsumed_toggled (hs : m.Orderly contract s) (hpair : s.store.pairs id = some pair) :
    Subsumed s { s with
      store := m.keeper.setTokenPair s.store { pair with enabled := !pair.enabled } } where
  metadata := rfl
  pairs := by
    intro x p hp hnative
    have hid : m.keeper.getID { pair with enabled := !pair.enabled } = id :=
      (hs.linked.keyed hpair).symm
    simp only [setTokenPair, hid, update_apply] at hp
    split_ifs at hp with heq
    · cases hp
      exact ⟨pair, heq ▸ hpair, hnative, rfl, rfl⟩
    · exact ⟨p, hp, hnative, rfl, rfl⟩

/-- What a new pair leaves. -/
theorem pairs_of_setToken {store store' : Store} {p : TokenPair}
    (h : m.keeper.setToken store pair = .ok store') (hp : store'.pairs id = some p) :
    p = pair ∨ store.pairs id = some p := by
  obtain ⟨-, -, rfl⟩ := setToken_ok h
  simp only [setERC20Map, setDenomMap, setTokenPair, update_apply] at hp
  split_ifs at hp
  · exact .inl (some.inj hp).symm
  · exact .inr hp

/-- A pair of the module's own contract. -/
theorem subsumed_registerERC20Extension {hasCodeHash : Address → Bool} {code : Option String}
    {store : Store} {result : TokenPair}
    (h : m.keeper.registerERC20Extension hasCodeHash code s.store denom = (store, .ok result)) :
    Subsumed s { s with store } where
  metadata := rfl
  pairs := by
    intro id p hp hnative
    simp only [registerERC20Extension] at h
    split at h
    · simp at h
    · next pair created hcreate =>
      obtain ⟨-, -, howner, hset⟩ := createNewTokenPair_ok hcreate
      split at h
      · simp at h
      · next enabled henable =>
        obtain ⟨rfl, -⟩ := Prod.mk.inj h
        simp only [(enableDynamicPrecompile_ok henable).1.pairs] at hp
        obtain rfl | hold := pairs_of_setToken hset hp
        · simp [TokenPair.isNativeERC20, howner] at hnative
        · exact ⟨p, hold, hnative, rfl, rfl⟩

/-- The claims that a registration makes. -/
theorem claims_of_registered {other : Address} (h : m.keeper.Registered s t other)
    (hclaims : m.Claims contract t denom) : m.Claims contract s denom ∨
      other = contract ∧ denom = createDenom (m.keeper.addressString contract) := by
  obtain ⟨metadata, hmetadata⟩ := h.metadata
  obtain ⟨id, pair, hpair, hnative, hcontract, hdenom⟩ | ⟨hdenom, hsome⟩ := hclaims
  · obtain rfl | hold := pairs_of_setToken h.setToken hpair
    · rw [getERC20Contract_newTokenPair] at hcontract
      subst hcontract
      exact .inr ⟨rfl, hdenom.symm⟩
    · exact .inl (.inl ⟨id, pair, hold, hnative, hcontract, hdenom⟩)
  · rw [hmetadata, hdenom, update_apply] at hsome
    split_ifs at hsome with heq
    · exact .inr ⟨(createDenom_addressString_inj heq).symm, hdenom⟩
    · rw [← hdenom] at hsome
      exact .inl (.inr ⟨hdenom, hsome⟩)

/-- A registration makes its denom a claim. -/
theorem claims_registered (h : m.keeper.Registered s t contract) :
    m.Claims contract t (createDenom (m.keeper.addressString contract)) := by
  obtain ⟨metadata, hmetadata⟩ := h.metadata
  refine .inr ⟨rfl, ?_⟩
  rw [hmetadata, update_self]
  rfl

theorem orderly_registered {other : Address} (hsum : m.keeper.CollisionFree)
    (hs : m.Orderly contract s) (h : m.keeper.Registered s t other) : m.Orderly contract t where
  linked := setToken_linked hs.linked (isHexAddress_newTokenPair _ _ _) hsum h.setToken
  named := by
    intro hsome id pair hpair hnative
    obtain ⟨metadata, hmetadata⟩ := h.metadata
    obtain ⟨hdenom, herc20, -⟩ := setToken_ok h.setToken
    obtain rfl | hold := pairs_of_setToken h.setToken hpair
    · rw [getERC20Contract_newTokenPair]
      constructor
      · rintro rfl
        rfl
      · exact createDenom_addressString_inj
    · rw [hmetadata, update_apply] at hsome
      split_ifs at hsome with heq
      · -- an old pair has neither the contract nor the denom of the new one
        obtain rfl := createDenom_addressString_inj heq
        rw [getERC20Contract_newTokenPair] at herc20
        constructor
        · rintro rfl
          rw [hs.linked.erc20 hold] at herc20
          cases herc20
        · intro hsame
          have hstored := hs.linked.denom hold
          rw [hsame] at hstored
          exact absurd (hdenom.symm.trans hstored) nofun
      · exact hs.named hsome id pair hold hnative

end Registry

section Amounts

variable {act : ε → ι → ε} {tokens : ε → Address → Int} {contract : Address} {pair : TokenPair}
  {amount : Int}

/-- A conversion of a pair: the supply of its denom changes by an amount, and so do the module's
tokens of its contract. -/
structure Converted (m : Modules σ ε) (tokens : ε → Address → Int) (contract : Address)
    (w w' : World σ ε) (pair : TokenPair) (amount : Int) : Prop where
  registry : w'.registry = w.registry
  supply : ∀ d, m.bankKeeper.getSupply w'.bank d =
    m.bankKeeper.getSupply w.bank d + if d = pair.denom then amount else 0
  same : pair.getERC20Contract = contract →
    tokens w'.evm m.moduleAddress = tokens w.evm m.moduleAddress + amount
  other : pair.getERC20Contract ≠ contract →
    tokens w.evm m.moduleAddress ≤ tokens w'.evm m.moduleAddress

/-- Coins that are minted for a receiver. -/
theorem mintConverted_ok {receiver : AccAddress} (hbank : ExactFor m.bankKeeper m.moduleAccount)
    (h : m.mintConverted w pair amount receiver = (w', none)) :
    w'.registry = w.registry ∧ w'.evm = w.evm ∧
      ∀ d, m.bankKeeper.getSupply w'.bank d =
        m.bankKeeper.getSupply w.bank d + if d = pair.denom then amount else 0 := by
  simp only [mintConverted] at h
  split at h
  · simp at h
  · next minted hmint =>
    split at h
    · simp at h
    · next sent hsend =>
      split_ifs at h
      · simp at h
      · obtain ⟨rfl, -⟩ := Prod.mk.inj h
        refine ⟨rfl, rfl, fun d => ?_⟩
        rw [(hbank.fromModule hsend).supply, (hbank.mint hmint).supply, Coins.amountOf_singleton]
        exact add_zero _

/-- A conversion to coins escrows as many tokens as it mints coins. -/
theorem escrowTokens_ok {receiver : AccAddress} {sender : Address}
    (hbank : ExactFor m.bankKeeper m.moduleAccount) (htoken : m.ExactToken act tokens contract)
    (h : m.escrowTokens w mode pair amount receiver sender = (w', none)) :
    m.Converted tokens contract w w' pair amount := by
  simp only [escrowTokens] at h
  split at h
  · simp at h
  · next balance hbalance =>
    split at h
    · simp at h
    · next evm res htransfer =>
      split at h
      · simp at h
      · split at h
        · simp at h
        · next after hafter =>
          split_ifs at h with hcheck
          · simp at h
          · obtain ⟨hregistry, hevm, hsupply⟩ := mintConverted_ok hbank h
            refine ⟨hregistry, hsupply, fun hc => ?_, fun hc => ?_⟩
            · -- the balance of the module is checked by the conversion itself
              rw [hc] at hbalance hafter
              rw [hevm, ← htoken.query hbalance, ← htoken.query hafter]
              simpa using hcheck
            · rw [hevm]
              exact htoken.others hc htransfer

variable {receiver : Address} {precompile : Bool}

/-- A transfer of the module after which the receiver has the amount more. -/
theorem ExactToken.released {e e' : ε} {result : Except String CallResult}
    (htoken : m.ExactToken act tokens contract) (hamount : 0 < amount)
    (hcommit : mode.commit = true)
    (h : m.evmKeeper.transfer e mode m.moduleAddress contract receiver amount = (e', result))
    (hreceived : tokens e' receiver = tokens e receiver + amount) :
    tokens e' m.moduleAddress = tokens e m.moduleAddress - amount := by
  obtain ⟨-, -, -, hmoved⟩ | ⟨hsame, -⟩ := htoken.transfer hcommit h
  · have hother := hmoved receiver
    have hmodule := hmoved m.moduleAddress
    simp only [if_true] at hother hmodule
    by_cases heq : m.moduleAddress = receiver
    · simp only [heq, if_true] at hother
      omega
    · rw [if_neg heq] at hmodule
      omega
  · rw [hsame receiver] at hreceived
    omega

section

variable (hbank : ExactFor m.bankKeeper m.moduleAccount) (htoken : m.ExactToken act tokens contract)
include hbank htoken

/-- What a release that succeeds does. -/
theorem unescrowTokens_ok {balance : Int} (hamount : 0 < amount)
    (hbalance : m.evmKeeper.balanceOf w.evm pair.getERC20Contract receiver = some balance)
    (h : m.unescrowTokens w pair amount receiver precompile balance = (w', none)) :
    m.Converted tokens contract w w' pair (-amount) := by
  simp only [unescrowTokens] at h
  split at h
  · simp at h
  · next evm res htransfer =>
    split at h
    · simp at h
    · split at h
      · simp at h
      · next after hafter =>
        split_ifs at h with hcheck
        · simp at h
        · split at h
          · simp at h
          · next bank hburn =>
            obtain ⟨rfl, -⟩ := Prod.mk.inj h
            refine ⟨rfl, fun d => ?_, fun hc => ?_, fun hc => htoken.others hc htransfer⟩
            · rw [(hbank.burn hburn).supply, Pi.neg_apply, Coins.amountOf_singleton, neg_ite]
              simp
            · rw [hc] at hbalance hafter htransfer
              apply htoken.released hamount rfl htransfer
              rw [← htoken.query hbalance, ← htoken.query hafter]
              simpa using hcheck

/-- A conversion to tokens that succeeds burns as many coins as it releases tokens. -/
theorem convertCoinNativeERC20_ok {sender : AccAddress}
   
    (h : m.convertCoinNativeERC20 w pair amount receiver sender precompile = (w', none)) :
    m.Converted tokens contract w w' pair (-amount) := by
  simp only [convertCoinNativeERC20] at h
  split_ifs at h with hamount
  · simp at h
  · split at h
    · simp at h
    · next balance hbalance =>
      split at h
      · simp at h
      · next bank hsend =>
        have hkept : ∀ d, m.bankKeeper.getSupply bank d = m.bankKeeper.getSupply w.bank d :=
          fun d => ((hbank.toModule hsend).supply d).trans (add_zero _)
        obtain ⟨hregistry, hsupply, hsame, hother⟩ :=
          unescrowTokens_ok (w := { w with bank }) hbank htoken (not_le.mp hamount) hbalance h
        refine ⟨hregistry, fun d => ?_, hsame, hother⟩
        rw [hsupply, hkept]

end

end Amounts

/-! ## What a step does -/

/-- A step that converts a pair, keeps all amounts, or changes the registry. -/
inductive Effect (m : Modules σ ε) (tokens : ε → Address → Int) (contract : Address)
    (w : World σ ε) : World σ ε → Prop
  | converted {w' : World σ ε} {id : Bytes} {pair : TokenPair} {amount : Int}
      (hpair : w.registry.store.pairs id = some pair) (hnative : pair.isNativeERC20 = true)
      (h : m.Converted tokens contract w w' pair amount) : Effect m tokens contract w w'
  | kept {w' : World σ ε} (hregistry : w'.registry = w.registry)
      (hsupply : ∀ d, m.bankKeeper.getSupply w'.bank d = m.bankKeeper.getSupply w.bank d)
      (htokens : tokens w.evm m.moduleAddress ≤ tokens w'.evm m.moduleAddress) :
      Effect m tokens contract w w'
  | changed {registry : State} (h : Subsumed w.registry registry)
      (hchanged : m.keeper.Changed w.registry.store registry.store) :
      Effect m tokens contract w { w with registry }

section Effect

variable {act : ε → ι → ε} {tokens : ε → Address → Int} {contract : Address} {token : String}

theorem Effect.refl (w : World σ ε) : Effect m tokens contract w w :=
  .kept rfl (fun _ => rfl) le_rfl

theorem Effect.of_same {fault : Option Fault} (h : (w, fault) = (w', none)) :
    Effect m tokens contract w w' :=
  (Prod.mk.inj h).1 ▸ .refl w

theorem Effect.orderly (hsum : m.keeper.CollisionFree) (h : Effect m tokens contract w w')
    (hs : m.Orderly contract w.registry) : m.Orderly contract w'.registry := by
  cases h with
  | converted hpair hnative h => exact h.registry ▸ hs
  | kept hregistry _ _ => exact hregistry ▸ hs
  | changed h hchanged => exact h.orderly hs (hchanged.linked hsum hs.linked)

theorem Effect.backed (h : Effect m tokens contract w w') (hs : m.Orderly contract w.registry)
    (hb : m.Backed tokens contract w) : m.Backed tokens contract w' := by
  intro denom hclaims
  cases h with
  | @converted w' id pair amount hpair hnative h =>
    rw [h.registry] at hclaims
    have hbefore := hb denom hclaims
    have hiff := hs.claims_iff hclaims hpair hnative
    rw [h.supply]
    by_cases hc : pair.getERC20Contract = contract
    · rw [h.same hc, if_pos (hiff.mp hc).symm]
      omega
    · rw [if_neg fun heq => hc (hiff.mpr heq.symm), add_zero]
      exact hbefore.trans (h.other hc)
  | kept hregistry hsupply htokens =>
    rw [hregistry] at hclaims
    rw [hsupply]
    exact (hb denom hclaims).trans htokens
  | changed h _ => exact hb denom (h.claims hclaims)

/-- What is reverted if it fails has an effect if it has one when it succeeds. -/
theorem effect_committed {result : World σ ε × Option Fault}
    (h : ∀ w', result = (w', none) → Effect m tokens contract w w') :
    Effect m tokens contract w (committed w result) := by
  obtain ⟨w', fault⟩ := result
  cases fault with
  | none => exact h w' rfl
  | some fault => exact .refl w

variable {receiver sender : AccAddress} {pair : TokenPair} {amount : Int} {packet : ReceivedPacket}

theorem mintingEnabled_ok (h : m.mintingEnabled w receiver token = .ok pair) :
    w.registry.store.getTokenPair (w.registry.store.getTokenPairID token) = some pair := by
  simp only [mintingEnabled] at h
  split at h
  · cases h
  · split at h
    · cases h
    · cases h
    · next id hid =>
      split at h
      · cases h
      · next found hfound =>
        split_ifs at h
        cases h
        rw [hid, hfound]

theorem stored_of_mintingEnabled (h : m.mintingEnabled w receiver token = .ok pair) :
    ∃ id, w.registry.store.pairs id = some pair := by
  obtain ⟨id, -, hpair⟩ := bind_eq_some_iff.mp (mintingEnabled_ok h)
  exact ⟨id, hpair⟩

theorem effect_deletePair (hpair : w.registry.store.pairs id = some pair) :
    Effect m tokens contract w (m.deletePair w pair) :=
  .changed (subsumed_deleteTokenPair w.registry pair) (.deleted hpair)

/-! ## Refunds -/

/-- The answer to the transfer passes its check. -/
def Accepted (m : Modules σ ε) (res : CallResult) (token : Address) : Prop :=
  m.checkResponse res token "failed to execute unescrow tokens from user" = none

/-- What stops a conversion once the contract has made its transfer. -/
inductive FailsAfter (m : Modules σ ε) (w : World σ ε) (pair : TokenPair) (amount : Int)
    (receiver : Address) (res : CallResult) : Prop
  /-- The answer has no data, and there is no `Transfer` event, or a second one, or one of
  another contract. -/
  | event {text : String} (empty : res.ret = [])
      (refused : m.validateTransferEventExists res.logs pair.getERC20Contract = some (.err text))
  /-- The data does not decode. -/
  | data {text : String} (given : res.ret ≠ [])
      (refused : m.evmKeeper.unpackBool res.ret = .error text)
  | balance (accepted : m.Accepted res pair.getERC20Contract)
      (unread : m.evmKeeper.balanceOf w.evm pair.getERC20Contract receiver = none)
  | burn {balance : Int} {err : BankError} (accepted : m.Accepted res pair.getERC20Contract)
      (read : m.evmKeeper.balanceOf w.evm pair.getERC20Contract receiver = some balance)
      (refused : m.bankKeeper.burnCoins w.bank moduleName [(pair.denom, amount)] =
        .error (.err err))

/-- A refund releases tokens of the contract by a conversion that fails later on. -/
def Spills (m : Modules σ ε) (contract : Address) (w : World σ ε) (data : PacketData)
    (amount : Int) : Prop :=
  ∃ pair sender bank evm res,
    m.refundConversion w data = .ok (some (pair, amount, sender)) ∧
      pair.getERC20Contract = contract ∧ bytesToAddress sender ≠ m.moduleAddress ∧
      m.Escrows w pair amount sender bank ∧
      m.evmKeeper.transfer w.evm { commit := true, callFromPrecompile := false } m.moduleAddress
        contract (bytesToAddress sender) amount = (evm, .ok res) ∧ ¬m.ReturnsFalse res ∧
      m.FailsAfter { w with bank, evm } pair amount (bytesToAddress sender) res

/-- The conversion of a refund fails after a transfer that was made exactly as said. -/
theorem convertCoinNativeERC20_err_iff (htoken : m.ExactToken act tokens pair.getERC20Contract)
    {bank : σ} {evm : ε} {res : CallResult} (hne : bytesToAddress sender ≠ m.moduleAddress)
    (hescrows : m.Escrows w pair amount sender bank)
    (htransfer : m.evmKeeper.transfer w.evm { commit := true, callFromPrecompile := false }
      m.moduleAddress pair.getERC20Contract (bytesToAddress sender) amount = (evm, .ok res))
    (hres : ¬m.ReturnsFalse res) :
    (∃ text, (m.convertCoinNativeERC20 w pair amount (bytesToAddress sender) sender false).2 =
        some (.err text)) ↔
      m.FailsAfter { w with bank, evm } pair amount (bytesToAddress sender) res := by
  obtain ⟨hamount, hbefore, hsend⟩ := hescrows
  obtain ⟨before, hbefore⟩ := isSome_iff_exists.mp hbefore
  simp only [convertCoinNativeERC20, if_neg (not_le.mpr hamount), hbefore, hsend, unescrowTokens,
    htransfer]
  have hmoved : ∀ after, m.evmKeeper.balanceOf evm pair.getERC20Contract
      (bytesToAddress sender) = some after → after = before + amount := by
    intro after hafter
    obtain ⟨_, -, -, hmoved⟩ | ⟨-, hfalse⟩ := htoken.transfer rfl htransfer
    · rw [htoken.query hafter, htoken.query hbefore, hmoved, if_pos rfl, if_neg hne, sub_zero]
    · exact absurd (hfalse res rfl) hres
  cases hcheck : m.checkResponse res pair.getERC20Contract
      "failed to execute unescrow tokens from user" with
  | some fault =>
    have hnot : ¬m.Accepted res pair.getERC20Contract := by
      rw [Accepted, hcheck]
      exact some_ne_none _
    unfold checkResponse at hcheck
    constructor
    · rintro ⟨text, htext⟩
      obtain rfl := some.inj htext
      split_ifs at hcheck with hret
      · exact .event hret hcheck
      · split at hcheck
        · next hdata => exact .data hret hdata
        · next hdata => exact absurd ⟨hret, hdata⟩ hres
        · cases hcheck
    · rintro (⟨hret, hevent⟩ | ⟨hret, hdata⟩ | ⟨haccepted, -⟩ | ⟨haccepted, -, -⟩)
      · rw [if_pos hret, hevent] at hcheck
        exact ⟨_, hcheck.symm⟩
      · rw [if_neg hret, hdata] at hcheck
        exact ⟨_, hcheck.symm⟩
      · exact absurd haccepted hnot
      · exact absurd haccepted hnot
  | none =>
    cases hafter : m.evmKeeper.balanceOf evm pair.getERC20Contract (bytesToAddress sender) with
    | none => exact iff_of_true ⟨_, rfl⟩ (.balance hcheck hafter)
    | some after =>
      simp only [hmoved after hafter, ne_eq, not_true_eq_false, if_false]
      have hfails : m.FailsAfter { w with bank, evm } pair amount (bytesToAddress sender) res →
          ∃ err, m.bankKeeper.burnCoins bank moduleName [(pair.denom, amount)] =
            .error (.err err) := by
        unfold checkResponse at hcheck
        rintro (⟨hret, hevent⟩ | ⟨hret, hdata⟩ | ⟨-, hunread⟩ | ⟨-, -, hrefused⟩)
        · simp [hret, hevent] at hcheck
        · simp [hret, hdata] at hcheck
        · exact absurd (hafter.symm.trans hunread) (some_ne_none _)
        · exact ⟨_, hrefused⟩
      cases hburn : m.bankKeeper.burnCoins bank moduleName [(pair.denom, amount)] with
      | error f =>
        cases f with
        | err e => exact iff_of_true ⟨_, rfl⟩ (.burn hcheck hafter hburn)
        | panic p => exact iff_of_false (by simp [bankFault]) (by simpa [hburn] using hfails)
      | ok burnt => exact iff_of_false (by simp) (by simpa [hburn] using hfails)

/-- A step that takes an amount of tokens from the module, and keeps the rest. -/
structure Taken (m : Modules σ ε) (tokens : ε → Address → Int) (w w' : World σ ε)
    (amount : Int) : Prop where
  registry : w'.registry = w.registry
  supply : ∀ d, m.bankKeeper.getSupply w'.bank d = m.bankKeeper.getSupply w.bank d
  tokens : tokens w'.evm m.moduleAddress = tokens w.evm m.moduleAddress - amount

theorem Spills.unique {data : PacketData} {amount' : Int} (h : m.Spills contract w data amount')
    (hrefund : m.refundConversion w data = .ok (some (pair, amount, sender))) :
    amount' = amount ∧ pair.getERC20Contract = contract ∧
      bytesToAddress sender ≠ m.moduleAddress ∧ ∃ bank evm res,
        m.Escrows w pair amount sender bank ∧
        m.evmKeeper.transfer w.evm { commit := true, callFromPrecompile := false }
          m.moduleAddress contract (bytesToAddress sender) amount = (evm, .ok res) ∧
        ¬m.ReturnsFalse res ∧
        m.FailsAfter { w with bank, evm } pair amount (bytesToAddress sender) res := by
  obtain ⟨pair', sender', bank, evm, res, hrefund', hcontract, hne, hrest⟩ := h
  have heq := some.inj (Except.ok.inj (hrefund'.symm.trans hrefund))
  obtain ⟨rfl, hpair⟩ := Prod.mk.inj heq
  obtain ⟨rfl, rfl⟩ := Prod.mk.inj hpair
  exact ⟨rfl, hcontract, hne, bank, evm, res, hrest⟩

/-! ## Clean steps -/

/-- What keeps the claims covered. A refund that spills finds as many tokens too many, and a
contract that is registered for the first time has enough tokens for the coins of its denom. -/
def Clean (m : Modules σ ε) (tokens : ε → Address → Int) (contract : Address) (w : World σ ε) :
    Step ι → Prop
  | .refund data _ => ∀ amount, m.Spills contract w data amount →
      ∀ denom, m.Claims contract w.registry denom →
        m.bankKeeper.getSupply w.bank denom + amount ≤ tokens w.evm m.moduleAddress
  | .registerERC20 other queryERC20 =>
    other = contract →
      w.registry.denomMetadata (createDenom (m.keeper.addressString contract)) = none →
      (∃ pair, (m.keeper.registerERC20 queryERC20 w.registry contract).2 = .ok pair) →
        m.bankKeeper.getSupply w.bank (createDenom (m.keeper.addressString contract)) ≤
          tokens w.evm m.moduleAddress
  | _ => True

variable (act) in
/-- A registration fails, or is made. -/
theorem step_registerERC20 (w : World σ ε) (other : Address)
    (queryERC20 : Except String ERC20Data) :
    (step m act w (.registerERC20 other queryERC20) = w ∧
        ∀ pair, (m.keeper.registerERC20 queryERC20 w.registry other).2 ≠ .ok pair) ∨
      ∃ registry pair, step m act w (.registerERC20 other queryERC20) = { w with registry } ∧
        m.keeper.Registered w.registry registry other ∧
        (m.keeper.registerERC20 queryERC20 w.registry other).2 = .ok pair := by
  have hcases := registerERC20_cases (k := m.keeper) queryERC20 w.registry other
  simp only [step]
  generalize m.keeper.registerERC20 queryERC20 w.registry other = result at hcases
  obtain ⟨registry, result⟩ := result
  obtain ⟨-, err, herr⟩ | ⟨hregistered, pair, hpair⟩ := hcases
  · obtain rfl : result = .error err := herr
    exact .inl ⟨rfl, nofun⟩
  · obtain rfl : result = .ok pair := hpair
    exact .inr ⟨registry, pair, rfl, hregistered, rfl⟩

/-! ## Whole runs -/

section

variable (hbank : ExactFor m.bankKeeper m.moduleAccount) (htoken : m.ExactToken act tokens contract)
include hbank htoken

theorem effect_convertERC20 {token : Address} {sender : Address}
    (h : m.convertERC20IntoCoinsForNativeToken w mode token amount receiver sender = (w', none)) :
    Effect m tokens contract w w' := by
  simp only [convertERC20IntoCoinsForNativeToken] at h
  split at h
  · simp at h
  · next pair hminting =>
    obtain ⟨id, hpair⟩ := stored_of_mintingEnabled hminting
    split_ifs at h with hnative howner hcode
    · simp at h
    · simp at h
    · obtain ⟨rfl, -⟩ := Prod.mk.inj h
      exact effect_deletePair hpair
    · exact .converted hpair (by simpa using hnative) (escrowTokens_ok hbank htoken h)

theorem effect_convertCoin {coin : Coin} {receiver : Address}
    (h : m.convertCoin w coin receiver sender = (w', none)) : Effect m tokens contract w w' := by
  simp only [convertCoin] at h
  split at h
  · simp at h
  · next pair hminting =>
    obtain ⟨id, hpair⟩ := stored_of_mintingEnabled hminting
    split_ifs at h with hnative hcode howner
    · obtain ⟨rfl, -⟩ := Prod.mk.inj h
      exact effect_deletePair hpair
    · exact .converted hpair hnative (convertCoinNativeERC20_ok hbank htoken h)
    · simp at h
    · simp at h

theorem effect_convertReceived {recipient : AccAddress}
    (h : m.convertReceived w packet recipient = (w', none)) : Effect m tokens contract w w' := by
  simp only [convertReceived] at h
  split at h
  · split_ifs at h
    · split at h
      · simp at h
      · next store pair hregister =>
        obtain ⟨rfl, -⟩ := Prod.mk.inj h
        refine .changed (subsumed_registerERC20Extension hregister) ?_
        have hchanged := registerERC20Extension_changed (k := m.keeper)
          (m.evmKeeper.hasCodeHash w.evm) packet.registerCodeHash w.registry.store packet.coin.1
        rwa [hregister] at hchanged
    · exact .of_same h
  · next found hfound =>
    split_ifs at h with hnative henabled
    · exact .of_same h
    · exact .of_same h
    · split at h
      · simp at h
      · next pair hminting =>
        obtain ⟨id, hpair⟩ := stored_of_mintingEnabled hminting
        obtain rfl : found = pair := some.inj (hfound.symm.trans (mintingEnabled_ok hminting))
        exact .converted hpair (by simpa using hnative) (convertCoinNativeERC20_ok hbank htoken h)

theorem effect_onRecvPacket (h : m.onRecvPacket w packet = (w', none)) :
    Effect m tokens contract w w' := by
  simp only [onRecvPacket] at h
  split at h
  · exact .of_same h
  · split at h
    · exact .of_same h
    · split at h
      · simp at h
      · split at h
        · exact .of_same h
        · split at h
          · simp at h
          · split at h
            · exact .of_same h
            · exact effect_convertReceived hbank htoken h

/-- What a refund leaves whose conversion takes the coins and fails. -/
theorem fault_cases {data : PacketData} {bank : σ} {text : String}
    (hrefund : m.refundConversion w data = .ok (some (pair, amount, sender)))
    (hescrows : m.Escrows w pair amount sender bank)
    (h : m.convertCoinNativeERC20 w pair amount (bytesToAddress sender) sender false =
      (w', some (.err text))) :
    ((∀ amount, ¬m.Spills contract w data amount) ∧ Effect m tokens contract w w') ∨
      (m.Spills contract w data amount ∧ m.Taken tokens w w' amount) := by
  have hafter := convertCoinNativeERC20_fault hescrows h
  have hsupply : ∀ d, m.bankKeeper.getSupply bank d = m.bankKeeper.getSupply w.bank d :=
    fun d => ((hbank.toModule hescrows.2.2).supply d).trans (add_zero _)
  generalize htransfer : m.evmKeeper.transfer w.evm { commit := true, callFromPrecompile := false }
    m.moduleAddress pair.getERC20Contract (bytesToAddress sender) amount = call at hafter
  obtain ⟨evm, result⟩ := call
  subst hafter
  by_cases hc : pair.getERC20Contract = contract
  · rw [hc] at htransfer
    obtain ⟨res, rfl, hres, hmoved⟩ | ⟨hsame, hfalse⟩ := htoken.transfer rfl htransfer
    · have hmodule := hmoved m.moduleAddress
      rw [if_pos rfl] at hmodule
      by_cases heq : bytesToAddress sender = m.moduleAddress
      · -- the module pays itself
        rw [if_pos heq.symm] at hmodule
        refine .inl ⟨fun amount' hspills => (hspills.unique hrefund).2.2.1 heq, ?_⟩
        refine .kept rfl hsupply ?_
        show tokens w.evm m.moduleAddress ≤ tokens evm m.moduleAddress
        omega
      · rw [if_neg (Ne.symm heq)] at hmodule
        have hfails := (convertCoinNativeERC20_err_iff (hc ▸ htoken) heq hescrows
          (hc.symm ▸ htransfer) hres).mp ⟨text, congrArg Prod.snd h⟩
        refine .inr ⟨⟨pair, sender, bank, evm, res, hrefund, hc, heq, hescrows, htransfer, hres,
          hfails⟩, rfl, hsupply, ?_⟩
        show tokens evm m.moduleAddress = _
        omega
    · refine .inl ⟨fun amount' hspills => ?_, .kept rfl hsupply (hsame m.moduleAddress).ge⟩
      obtain ⟨-, -, -, -, evm', res, -, htransfer', hres, -⟩ := hspills.unique hrefund
      obtain ⟨-, rfl⟩ := Prod.mk.inj (htransfer.symm.trans htransfer')
      exact hres (hfalse res rfl)
  · refine .inl ⟨fun amount' hspills => hc (hspills.unique hrefund).2.1, ?_⟩
    exact .kept rfl hsupply (htoken.others hc htransfer)

/-- What a refund does: it spills, or has an effect like any other conversion. -/
theorem refund_cases (w : World σ ε) (data : PacketData) (reason : Refunded) :
    ((∀ amount, ¬m.Spills contract w data amount) ∧
        Effect m tokens contract w (committed w (m.callback w data reason))) ∨
      ∃ amount, m.Spills contract w data amount ∧
        m.Taken tokens w (committed w (m.callback w data reason)) amount := by
  rw [callback_eq, convertCoinToERC20FromPacket]
  cases hrefund : m.refundConversion w data with
  | error err =>
    refine .inl ⟨?_, .refl w⟩
    rintro amount ⟨_, _, _, _, _, hrefund', -⟩
    rw [hrefund] at hrefund'
    cases hrefund'
  | ok refund =>
    cases refund with
    | none =>
      refine .inl ⟨?_, .refl w⟩
      rintro amount ⟨_, _, _, _, _, hrefund', -⟩
      rw [hrefund] at hrefund'
      cases hrefund'
    | some refund =>
      obtain ⟨pair, amount, sender⟩ := refund
      simp only
      generalize hresult : m.convertCoinNativeERC20 w pair amount (bytesToAddress sender)
        sender false = result
      obtain ⟨w', fault⟩ := result
      -- a spill is an error, so neither a success nor a panic
      have hspills : ∀ {amount'}, m.Spills contract w data amount' →
          (∃ bank, m.Escrows w pair amount sender bank) ∧ ∃ text, fault = some (.err text) := by
        intro amount' h
        obtain ⟨-, hc, hne, bank, evm, res, hescrows, htransfer, hres, hfails⟩ := h.unique hrefund
        have herr := (convertCoinNativeERC20_err_iff (hc ▸ htoken) hne hescrows
          (hc.symm ▸ htransfer) hres).mpr hfails
        rw [hresult] at herr
        exact ⟨⟨bank, hescrows⟩, herr⟩
      obtain _ | text | _ := fault
      · obtain ⟨⟨id, hpair⟩, hnative, -⟩ := refundConversion_ok hrefund
        refine .inl ⟨fun amount' h => by simpa using (hspills h).2, ?_⟩
        exact .converted hpair hnative (convertCoinNativeERC20_ok hbank htoken hresult)
      · by_cases hescrows : ∃ bank, m.Escrows w pair amount sender bank
        · obtain ⟨bank, hescrows⟩ := hescrows
          obtain h | ⟨h, htaken⟩ := fault_cases hbank htoken hrefund hescrows hresult
          · exact .inl h
          · exact .inr ⟨amount, h, htaken⟩
        · have hsame := convertCoinNativeERC20_of_not_escrows (not_exists.mp hescrows)
          rw [hresult] at hsame
          obtain rfl : w' = w := hsame
          exact .inl ⟨fun amount' h => hescrows (hspills h).1, .refl w'⟩
      · exact .inl ⟨fun amount' h => by simpa using (hspills h).2, .refl w⟩

/-- What a step does that is neither a refund nor a registration. -/
theorem step_effect (hs : m.Orderly contract w.registry) {s : Step ι}
    (hrefund : ∀ data reason, s ≠ .refund data reason)
    (hregister : ∀ other queryERC20, s ≠ .registerERC20 other queryERC20) :
    Effect m tokens contract w (step m act w s) := by
  cases s with
  | convertERC20 callFromPrecompile token amount receiver sender =>
    exact effect_committed fun w' h => effect_convertERC20 hbank htoken h
  | convertCoin coin receiver sender =>
    exact effect_committed fun w' h => effect_convertCoin hbank htoken h
  | onRecvPacket packet =>
    exact effect_committed fun w' h => effect_onRecvPacket hbank htoken h
  | refund data reason => exact absurd rfl (hrefund data reason)
  | send sender recipient coins =>
    simp only [step]
    split
    · exact .refl w
    · next bank hsend =>
      exact .kept rfl (fun d => ((hbank.send hsend).supply d).trans (add_zero _)) le_rfl
  | call activity => exact .kept rfl (fun _ => rfl) (htoken.calls w.evm activity)
  | registerERC20 other queryERC20 => exact absurd rfl (hregister other queryERC20)
  | toggleConversion token =>
    simp only [step]
    split
    · exact .refl w
    · next pair store htoggle =>
      obtain ⟨id, old, hold, rfl⟩ := toggleConversion_ok htoggle
      exact .changed (subsumed_toggled hs hold) (.toggled hold)

theorem step_orderly (hsum : m.keeper.CollisionFree) (hs : m.Orderly contract w.registry)
    (s : Step ι) :
    m.Orderly contract (step m act w s).registry := by
  cases s with
  | refund data reason =>
    obtain ⟨-, heffect⟩ | ⟨amount, -, htaken⟩ := refund_cases hbank htoken w data reason
    · exact heffect.orderly hsum hs
    · exact (htaken.registry : (step m act w (.refund data reason)).registry = _) ▸ hs
  | registerERC20 other queryERC20 =>
    obtain ⟨hsame, -⟩ | ⟨registry, pair, hstep, hregistered, -⟩ :=
      step_registerERC20 act w other queryERC20
    · rw [hsame]
      exact hs
    · rw [hstep]
      exact orderly_registered hsum hs hregistered
  | _ => exact (step_effect hbank htoken hs (by simp) (by simp)).orderly hsum hs

/-- A step keeps the claims covered exactly if it is clean. -/
theorem step_backed_iff (hs : m.Orderly contract w.registry) (hb : m.Backed tokens contract w)
    (s : Step ι) :
    m.Backed tokens contract (step m act w s) ↔ m.Clean tokens contract w s := by
  cases s with
  | refund data reason =>
    obtain ⟨hnot, heffect⟩ | ⟨amount, hspills, htaken⟩ := refund_cases hbank htoken w data reason
    · exact iff_of_true (heffect.backed hs hb) fun amount h => absurd h (hnot amount)
    · obtain ⟨pair, sender, -, -, -, hrefund, -⟩ := id hspills
      constructor
      · intro hafter amount' hspills' denom hclaims
        have hcovered := hafter denom (htaken.registry ▸ hclaims)
        rw [step, htaken.supply, htaken.tokens] at hcovered
        rw [(hspills'.unique hrefund).1]
        omega
      · intro hclean denom hclaims
        rw [step, htaken.registry] at hclaims
        have hcovered := hclean amount hspills denom hclaims
        rw [step, htaken.supply, htaken.tokens]
        omega
  | registerERC20 other queryERC20 =>
    obtain ⟨hsame, hfails⟩ | ⟨registry, pair, hstep, hregistered, hpair⟩ :=
      step_registerERC20 act w other queryERC20
    · rw [hsame]
      refine iff_of_true hb ?_
      rintro rfl - ⟨pair, hpair⟩
      exact absurd hpair (hfails pair)
    · rw [hstep]
      constructor
      · rintro hafter rfl - -
        exact hafter _ (claims_registered hregistered)
      · intro hclean denom hclaims
        obtain hold | ⟨rfl, rfl⟩ := claims_of_registered hregistered hclaims
        · exact hb denom hold
        · exact hclean rfl hregistered.before ⟨pair, hpair⟩
  | _ => exact iff_of_true ((step_effect hbank htoken hs (by simp) (by simp)).backed hs hb) trivial

end

/-- The claims on a contract stay covered through a whole run exactly if all its steps are
clean. -/
theorem escrow_backed_iff (hsum : m.keeper.CollisionFree)
    (hbank : ExactFor m.bankKeeper m.moduleAccount) (htoken : m.ExactToken act tokens contract)
    (hs : m.Orderly contract w.registry) (hb : m.Backed tokens contract w) (steps : List (Step ι)) :
    (∀ n, m.Backed tokens contract ((steps.take n).foldl (step m act) w)) ↔
      Runs.Along (step m act) (m.Clean tokens contract) w steps :=
  Runs.forall_take_iff_along (m.Backed tokens contract) (fun w => m.Orderly contract w.registry)
    (fun s hs => step_orderly hbank htoken hsum hs s)
    (fun s hs hb => step_backed_iff hbank htoken hs hb s) hs hb

end Effect

/-! ### A contract that tells nothing -/

/-- The module of a contract whose transfers are made, but return nothing and emit no event. -/
def silent : Modules Book TokenLedger := sampleModules (.ok { ret := [], logs := [] })

/-- Transfers of users, who cannot send for the module. -/
def userTransfer (tokens : TokenLedger) : Address × Address × Nat → TokenLedger
  | (sender, recipient, amount) =>
    if sender = silent.moduleAddress then tokens else tokens.moved 1 sender recipient amount

/-- The balances of the contract. -/
def tokensOne (tokens : TokenLedger) : Address → Int := tokens 1

theorem silent_exactToken : silent.ExactToken userTransfer tokensOne 1 where
  query h := (some.inj h).symm
  transfer := by
    intro e e' mode caller recipient amount result _ h
    obtain ⟨rfl, rfl⟩ := Prod.mk.inj h
    refine .inl ⟨_, rfl, fun hfalse => hfalse.1 rfl, fun a => ?_⟩
    simp [tokensOne, TokenLedger.moved]
  others := by
    intro e e' mode caller other recipient amount result hne h
    obtain ⟨rfl, -⟩ := Prod.mk.inj h
    simp only [tokensOne, TokenLedger.moved]
    rw [if_neg fun h => hne h.1.symm, if_neg fun h => hne h.1.symm]
    omega
  calls := by
    rintro e ⟨sender, recipient, amount⟩
    simp only [userTransfer]
    split_ifs with hsender
    · exact le_rfl
    · simp only [tokensOne, TokenLedger.moved, true_and, if_neg (Ne.symm hsender)]
      split_ifs <;> omega

theorem sampleWorld_orderly : silent.Orderly 1 sampleWorld.registry where
  linked := initGenesis_linked plainKeeper_collisionFree
    (by decide +kernel : (genesisOne "stake").validate = none)
    (initGenesis_genesisOne "stake")
  named := by
    intro h
    cases h

theorem sampleWorld_backed : silent.Backed tokensOne 1 sampleWorld := by
  intro denom _
  show (if denom = "stake" then (40 : Int) else 0) ≤ 40
  split_ifs <;> omega

/-- The refunded coins go to the module and the tokens to the sender. The error that the missing
event causes is dropped, so all coins are still there, and no token is. -/
theorem escrow_lost :
    ExactFor silent.bankKeeper silent.moduleAccount ∧
      silent.ExactToken userTransfer tokensOne 1 ∧ silent.Backed tokensOne 1 sampleWorld ∧
      silent.Claims 1 sampleWorld.registry "stake" ∧
      silent.Claims 1 (step silent userTransfer sampleWorld
        (.refund sampleData .timeout)).registry "stake" ∧
      silent.bankKeeper.getSupply (step silent userTransfer sampleWorld
        (.refund sampleData .timeout)).bank "stake" = 40 ∧
      tokensOne (step silent userTransfer sampleWorld
        (.refund sampleData .timeout)).evm silent.moduleAddress = 0 := by
  have hclaims : silent.Claims 1 sampleWorld.registry "stake" :=
    .inl ⟨plainKeeper.getID (pairOne "stake"), pairOne "stake",
      by decide +kernel, rfl, by decide +kernel, rfl⟩
  exact ⟨sampleBank_exactFor, silent_exactToken, sampleWorld_backed, hclaims, hclaims,
    by decide +kernel, by decide +kernel⟩

/-- The module has twice the tokens. -/
def richWorld : World Book TokenLedger :=
  { sampleWorld with evm := fun c a => if c = 1 ∧ a = 99 then 80 else 0 }

/-- A refund that spills forty tokens leaves as many as there are coins. -/
theorem escrow_backed_iff_rich :
    tokensOne richWorld.evm silent.moduleAddress = 80 ∧ ∀ n, silent.Backed tokensOne 1
      (([.refund sampleData .timeout].take n).foldl (step silent userTransfer) richWorld) := by
  have hsupply : ∀ denom, silent.bankKeeper.getSupply richWorld.bank denom ≤ 40 := by
    intro denom
    show (if denom = "stake" then (40 : Int) else 0) ≤ 40
    split_ifs <;> omega
  have htokens : tokensOne richWorld.evm silent.moduleAddress = 80 := by decide +kernel
  refine ⟨htokens, (escrow_backed_iff plainKeeper_collisionFree sampleBank_exactFor
    silent_exactToken (w := richWorld) sampleWorld_orderly (fun denom _ => ?_) _).mpr
    ⟨?_, trivial⟩⟩
  · have := hsupply denom
    omega
  · intro amount hspills denom _
    have hrefund : silent.refundConversion richWorld sampleData =
        .ok (some (pairOne "stake", 40, addressBytes 7)) := by decide +kernel
    have := hsupply denom
    have := (hspills.unique hrefund).1
    omega

end Modules

end InfiniteEvm.Erc20
