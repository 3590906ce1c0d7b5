import InfiniteEvm.Erc20.Conversion

/-!
# Refunds

When a transfer is refunded, the coins are converted back to tokens, and an error of that
conversion is dropped. What the conversion has written by then stays, so the coins come back
to their owner only if it failed before it took them.
-/

namespace InfiniteEvm.Erc20

open Library Keeper

/-- A bank whose transfers to and from the module, mints and burns are exact. -/
structure ExactFor {σ : Type} (bk : BankKeeper σ) (account : AccAddress) : Prop where
  toModule : ∀ {s t sender coins},
    bk.sendCoinsFromAccountToModule s sender moduleName coins = .ok t →
      bk.Changed s t (credit account coins - credit sender coins) 0
  fromModule : ∀ {s t recipient coins},
    bk.sendCoinsFromModuleToAccount s moduleName recipient coins = .ok t →
      bk.Changed s t (credit recipient coins - credit account coins) 0
  send : ∀ {s t sender recipient coins}, bk.sendCoins s sender recipient coins = .ok t →
    bk.Changed s t (credit recipient coins - credit sender coins) 0
  mint : ∀ {s t coins}, bk.mintCoins s moduleName coins = .ok t →
    bk.Changed s t (credit account coins) coins.amountOf
  burn : ∀ {s t coins}, bk.burnCoins s moduleName coins = .ok t →
    bk.Changed s t (-credit account coins) (-coins.amountOf)

namespace Modules

variable {σ ε : Type} {m : Modules σ ε} {w w' : World σ ε}

/-- The conversion gets as far as to take the coins. -/
def Escrows (m : Modules σ ε) (w : World σ ε) (pair : TokenPair) (amount : Int)
    (sender : AccAddress) (bank : σ) : Prop :=
  0 < amount ∧
    (m.evmKeeper.balanceOf w.evm pair.getERC20Contract (bytesToAddress sender)).isSome = true ∧
    m.bankKeeper.sendCoinsFromAccountToModule w.bank sender moduleName [(pair.denom, amount)] =
      .ok bank

section

variable {pair : TokenPair} {amount : Int} {sender : AccAddress} {bank : σ} {fault : Fault}

/-- A release that fails leaves what the call of the contract left, and the bank alone. -/
theorem unescrowTokens_fault {receiver : Address} {precompile : Bool} {balance : Int}
    (h : m.unescrowTokens w pair amount receiver precompile balance = (w', some fault)) :
    w' = { w with evm := (m.evmKeeper.transfer w.evm
      { commit := true, callFromPrecompile := precompile } m.moduleAddress pair.getERC20Contract
      receiver amount).1 } := by
  simp only [unescrowTokens] at h
  split at h
  · next evm err htransfer =>
    rw [htransfer]
    exact (Prod.mk.inj h).1.symm
  · next evm res htransfer =>
    rw [htransfer]
    split at h
    · exact (Prod.mk.inj h).1.symm
    · split at h
      · exact (Prod.mk.inj h).1.symm
      · split_ifs at h
        · exact (Prod.mk.inj h).1.symm
        · split at h
          · exact (Prod.mk.inj h).1.symm
          · simp at h

/-- A conversion that fails before it takes the coins changes nothing. -/
theorem convertCoinNativeERC20_of_not_escrows
    (hnot : ∀ bank, ¬m.Escrows w pair amount sender bank) :
    (m.convertCoinNativeERC20 w pair amount (bytesToAddress sender) sender false).1 = w := by
  simp only [convertCoinNativeERC20]
  split_ifs with hamount
  · rfl
  · split
    · rfl
    · next balance hbalance =>
      split
      · rfl
      · next bank hbank =>
        refine absurd ⟨not_le.mp hamount, ?_, hbank⟩ (hnot bank)
        rw [hbalance]
        rfl

/-- A conversion that takes the coins and fails keeps them. -/
theorem convertCoinNativeERC20_fault (hescrows : m.Escrows w pair amount sender bank)
    (h : m.convertCoinNativeERC20 w pair amount (bytesToAddress sender) sender false =
      (w', some fault)) : w' = { w with bank, evm := (m.evmKeeper.transfer w.evm
      { commit := true, callFromPrecompile := false } m.moduleAddress pair.getERC20Contract
      (bytesToAddress sender) amount).1 } := by
  obtain ⟨hamount, hbalance, hbank⟩ := hescrows
  simp only [convertCoinNativeERC20, if_neg (not_le.mpr hamount), hbank] at h
  split at h
  · next hnone =>
    rw [hnone] at hbalance
    cases hbalance
  · exact unescrowTokens_fault h

end

/-- What is converted back: coins of a stored pair of a foreign contract, not the module's. -/
theorem refundConversion_ok {data : PacketData} {pair : TokenPair} {amount : Int}
    {sender : AccAddress} (h : m.refundConversion w data = .ok (some (pair, amount, sender))) :
    (∃ id, w.registry.store.pairs id = some pair) ∧ pair.isNativeERC20 = true ∧
      m.isModuleAccount sender = false := by
  obtain ⟨bytes, -, hrest⟩ := Outcomes.map_eq_ok.mp h
  split at hrest
  · cases hrest
  · next found hfound =>
    simp only at hrest
    split_ifs at hrest with hnative henabled hmodule
    obtain ⟨rfl, hlast⟩ := Prod.mk.inj (Option.some.inj hrest)
    obtain ⟨-, rfl⟩ := Prod.mk.inj hlast
    obtain ⟨id, -, hpair⟩ := Option.bind_eq_some_iff.mp hfound
    exact ⟨⟨id, hpair⟩, by simpa using hnative, by simpa using hmodule⟩

/-- The callbacks that follow a refund. -/
inductive Refunded
  | errorAcknowledgement
  | timeout

def callback (m : Modules σ ε) (w : World σ ε) (data : PacketData) :
    Refunded → World σ ε × Option Fault
  | .errorAcknowledgement => m.onAcknowledgementPacket w data .error
  | .timeout => m.onTimeoutPacket w data

theorem callback_eq (data : PacketData) (reason : Refunded) :
    m.callback w data reason = m.convertCoinToERC20FromPacket w data := by
  cases reason with
  | errorAcknowledgement => rfl
  | timeout => rfl

/-- After a refund whose conversion fails, the sender still has the coins, and no token balance
has changed, exactly if the conversion did not get as far as to take the coins. -/
theorem refund_kept_iff (hbank : ExactFor m.bankKeeper m.moduleAccount)
    (hmodule : m.isModuleAccount m.moduleAccount = true) {data : PacketData} {reason : Refunded}
    {pair : TokenPair} {amount : Int} {sender : AccAddress} {text : String}
    (hrefund : m.refundConversion w data = .ok (some (pair, amount, sender)))
    (hfails : (m.convertCoinNativeERC20 w pair amount (bytesToAddress sender) sender false).2 =
      some (.err text)) (hnil : m.callback w data reason = (w', none)) :
    (m.bankKeeper.getBalance w'.bank sender pair.denom =
        m.bankKeeper.getBalance w.bank sender pair.denom ∧
      ∀ contract account, m.evmKeeper.balanceOf w'.evm contract account =
        m.evmKeeper.balanceOf w.evm contract account) ↔
      ∀ bank, ¬m.Escrows w pair amount sender bank := by
  have hafter : m.convertCoinNativeERC20 w pair amount (bytesToAddress sender) sender false =
      (w', some (.err text)) := by
    rw [callback_eq, convertCoinToERC20FromPacket, hrefund] at hnil
    simp only at hnil
    generalize m.convertCoinNativeERC20 w pair amount (bytesToAddress sender) sender false =
      result at hfails hnil
    obtain ⟨after, fault⟩ := result
    obtain rfl : fault = some (.err text) := hfails
    obtain ⟨rfl, -⟩ := Prod.mk.inj hnil
    rfl
  constructor
  · rintro ⟨hkept, -⟩ bank hescrows
    -- the coins are with the module, which is not the sender
    have hne : sender ≠ m.moduleAccount := by
      rintro rfl
      rw [(refundConversion_ok hrefund).2.2] at hmodule
      cases hmodule
    have hmoved := (hbank.toModule hescrows.2.2).balance sender pair.denom
    rw [convertCoinNativeERC20_fault hescrows hafter, hmoved, Pi.sub_apply, Pi.sub_apply,
      credit_of_ne hne, credit_self, Coins.amountOf_singleton, if_pos rfl] at hkept
    have := hescrows.1
    omega
  · intro hnot
    have hsame := convertCoinNativeERC20_of_not_escrows hnot
    rw [hafter] at hsame
    obtain rfl : w' = w := hsame
    exact ⟨rfl, fun _ _ => rfl⟩

/-! ## A contract that reverts -/

/-- The account keeper that knows the module. -/
def sampleAccounts : AccountKeeper where
  getModuleAccount name :=
    if name = moduleName then
      some { address := addressBytes 99, permissions := [minter, burner] }
    else none
  addressString _ := "address"
  address_ne_nil := by
    intro name acc h
    split_ifs at h
    cases h
    decide +kernel
  address_inj := by
    intro name name' acc acc' h h' _
    split_ifs at h h' with hname hname'
    rw [hname, hname']

def sampleBank : BankKeeper Book := Book.keeper sampleAccounts (fun _ => []) []

/-- A payment that is made leaves the book it was to leave. -/
theorem pay_ok {locked : AccAddress → Coins} {book after t : Book} {a : AccAddress} {coins : Coins}
    (h : book.pay locked a coins after = .ok t) : t = after := by
  simp only [Book.pay] at h
  split_ifs at h
  exact (Except.ok.inj h).symm

theorem sampleBank_exactFor : ExactFor sampleBank (addressBytes 99) where
  toModule h := by
    obtain rfl := pay_ok h
    exact ⟨fun _ _ => rfl, fun _ => (add_zero _).symm, fun _ => rfl⟩
  fromModule h := by
    obtain rfl := pay_ok h
    exact ⟨fun _ _ => rfl, fun _ => (add_zero _).symm, fun _ => rfl⟩
  send h := by
    obtain rfl := pay_ok h
    exact ⟨fun _ _ => rfl, fun _ => (add_zero _).symm, fun _ => rfl⟩
  mint h := by
    cases h
    exact ⟨fun _ _ => rfl, fun _ => rfl, fun _ => rfl⟩
  burn h := by
    obtain rfl := pay_ok h
    exact ⟨fun _ _ => sub_eq_add_neg _ _, fun _ => sub_eq_add_neg _ _, fun _ => rfl⟩

/-- Balances by contract and account. -/
abbrev TokenLedger := Address → Address → Int

/-- Tokens go from one account to another. -/
def TokenLedger.moved (tokens : TokenLedger) (contract sender recipient : Address) (amount : Int) :
    TokenLedger :=
  fun c a => tokens c a +
    ((if c = contract ∧ a = recipient then amount else 0) -
      if c = contract ∧ a = sender then amount else 0)

/-- Contracts that answer every transfer alike, and make it if the answer is no error. -/
def sampleEvm (answer : Except String CallResult) : EvmKeeper TokenLedger where
  hasCodeHash _ _ := true
  balanceOf tokens contract account := some (tokens contract account)
  transfer tokens _ caller contract recipient amount :=
    match answer with
    | .error err => (tokens, .error err)
    | .ok res => (tokens.moved contract caller recipient amount, .ok res)
  unpackBool _ := .ok true

def sampleModules (answer : Except String CallResult) : Modules Book TokenLedger where
  keeper := plainKeeper
  bankKeeper := sampleBank
  evmKeeper := sampleEvm answer
  isSendEnabledCoin _ _ := true
  isModuleAccount a := a = addressBytes 99
  moduleAccount := addressBytes 99
  stringToBytes _ := .ok (addressBytes 7)
  addressText _ := "address"
  getSentCoin denom _ := (denom, 40)
  logTransferSigHash := "Transfer"

/-- One account has all coins, and the module has as many tokens. -/
def sampleWorld : World Book TokenLedger where
  registry := { store := storeOne "stake", denomMetadata := fun _ => none }
  bank := { balance := fun a d => if a = addressBytes 7 ∧ d = "stake" then 40 else 0
            supply := fun d => if d = "stake" then 40 else 0 }
  evm := fun c a => if c = 1 ∧ a = 99 then 40 else 0

def sampleData : PacketData := { denom := "stake", amount := "40", sender := "sender" }

/-- The module of a contract that reverts. -/
def reverting : Modules Book TokenLedger := sampleModules (.error "execution reverted")

theorem reverting_refund : reverting.refundConversion sampleWorld sampleData =
    .ok (some (pairOne "stake", 40, addressBytes 7)) := by
  decide +kernel

theorem reverting_fails : (reverting.convertCoinNativeERC20 sampleWorld (pairOne "stake") 40
    (bytesToAddress (addressBytes 7)) (addressBytes 7) false).2 =
      some (.err "execution reverted") := by
  decide +kernel

theorem reverting_nil : (reverting.callback sampleWorld sampleData .timeout).2 = none := by
  decide +kernel

/-- The contract call reverts, the callback returns nil, and the refunded coins are gone. -/
theorem refund_lost :
    ExactFor reverting.bankKeeper reverting.moduleAccount ∧
      reverting.refundConversion sampleWorld sampleData =
        .ok (some (pairOne "stake", 40, addressBytes 7)) ∧
      (reverting.convertCoinNativeERC20 sampleWorld (pairOne "stake") 40
        (bytesToAddress (addressBytes 7)) (addressBytes 7) false).2 =
          some (.err "execution reverted") ∧
      (reverting.callback sampleWorld sampleData .timeout).2 = none ∧
      reverting.bankKeeper.getBalance sampleWorld.bank (addressBytes 7) "stake" = 40 ∧
      reverting.bankKeeper.getBalance (reverting.callback sampleWorld sampleData .timeout).1.bank
        (addressBytes 7) "stake" = 0 :=
  ⟨sampleBank_exactFor, reverting_refund, reverting_fails, reverting_nil, by decide +kernel,
    by decide +kernel⟩

/-- The coins have left the account again. -/
def spentWorld : World Book TokenLedger :=
  { sampleWorld with bank := { sampleWorld.bank with balance := fun _ _ => 0 } }

/-- The conversion fails before it takes the coins, and nothing changes. -/
theorem refund_kept_iff_spent :
    reverting.bankKeeper.getBalance (reverting.callback spentWorld sampleData .timeout).1.bank
        (addressBytes 7) "stake" =
      reverting.bankKeeper.getBalance spentWorld.bank (addressBytes 7) "stake" ∧
    ∀ contract account, reverting.evmKeeper.balanceOf
        (reverting.callback spentWorld sampleData .timeout).1.evm contract account =
      reverting.evmKeeper.balanceOf spentWorld.evm contract account := by
  have hrefund : reverting.refundConversion spentWorld sampleData =
      .ok (some (pairOne "stake", 40, addressBytes 7)) := by decide +kernel
  have hfails : (reverting.convertCoinNativeERC20 spentWorld (pairOne "stake") 40
      (bytesToAddress (addressBytes 7)) (addressBytes 7) false).2 = some (.err
        "failed to escrow coins: spendable balance is smaller than the amount: insufficient funds")
      := by decide +kernel
  have hnil : (reverting.callback spentWorld sampleData .timeout).2 = none := by decide +kernel
  refine (refund_kept_iff sampleBank_exactFor (by decide +kernel) hrefund hfails
    (Prod.ext rfl hnil)).mpr ?_
  rintro bank ⟨-, -, hsend⟩
  have hrefused : (reverting.bankKeeper.sendCoinsFromAccountToModule spentWorld.bank
      (addressBytes 7) moduleName [((pairOne "stake").denom, 40)]).toOption.isSome = false := by
    decide +kernel
  rw [hsend] at hrefused
  cases hrefused

end Modules

end InfiniteEvm.Erc20
