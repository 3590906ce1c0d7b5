import InfiniteEvm.Bank.Book
import InfiniteEvm.Erc20.Registry

/-!
# The ERC-20 precompile

`precompiles/erc20`: `transfer`, `transferFrom` and `approve` on the coin of a registered pair.
A transfer is a send of the bank, and `transferFrom` lowers the allowance of the caller before
it sends. A call that fails leaves what it wrote to the snapshot it started from.
-/

namespace InfiniteEvm.Erc20

open Library Keeper

/-- A bank as the precompile uses it, whose sends are exact. -/
structure SendBank (σ : Type) where
  balance : σ → AccAddress → String → Int
  /-- `MsgServer.Send`. -/
  send : σ → AccAddress → AccAddress → Coins → Except String σ
  send_exact : ∀ {s t : σ} {sender recipient : AccAddress} {coins : Coins},
    coins.isValid = true → send s sender recipient coins = .ok t → ∀ a d,
      balance t a d = balance s a d + (credit recipient coins a d - credit sender coins a d)

/-- The logs of the precompile. -/
inductive TokenEvent
  | transfer (token fromAddr toAddr : Address) (value : Int)
  | approval (token owner spender : Address) (value : Int)

/-- What a call reads and writes. -/
structure Tokens (σ : Type) where
  store : Store
  bank : σ
  logs : List TokenEvent

/-- The methods that change something, with their decoded arguments. -/
inductive Method
  | transfer (toAddr : Address) (amount : Uint256)
  | transferFrom (fromAddr toAddr : Address) (amount : Uint256)
  | approve (spender : Address) (amount : Uint256)

/-- A call of a precompile. -/
structure Call where
  contract : Address
  caller : Address
  method : Method

/-- A part of a text. -/
def containsText (text part : String) : Bool := part.toList <:+: text.toList

/-- `ConvertErrToERC20Error`. -/
def convertErrToERC20Error (err : String) : String :=
  if containsText err "spendable balance" then "ERC20: transfer amount exceeds balance"
  else if containsText err "requested amount is more than spend limit" then
    "ERC20: insufficient allowance"
  else if containsText err "subtracted value cannot be greater than existing allowance" then
    "ERC20: decreased allowance below zero"
  else if containsText err "integer overflow when increasing allowance" then "execution reverted"
  else if ["denom is not an IBC voucher", "denom not found", "invalid base denomination",
      "display denomination not found", "invalid decimals"].any (containsText err) then
    "execution reverted"
  else err

/-- `Coins.Validate` of one coin. -/
def validateCoin (coin : Coin) : Option String :=
  if !validateDenom coin.1 then some ("invalid denom: " ++ coin.1)
  else if coin.2 ≤ 0 then some ("coin " ++ coin.text ++ " amount is not positive")
  else none

section Precompile

variable {σ : Type} (k : Keeper) (bank : SendBank σ) (pair : TokenPair)

/-- The update of the allowance in `transfer`, with the new allowance. -/
def spendAllowance (s : Store) (fromAddr spender : Address) (amount : Int) :
    Except String (Store × Int) :=
  let prevAllowance := s.getAllowance pair.getERC20Contract fromAddr spender
  let newAllowance := prevAllowance - amount
  if newAllowance < 0 then .error "ERC20: insufficient allowance"
  else
    let updated :=
      if newAllowance = 0 then k.deleteAllowance s pair.getERC20Contract fromAddr spender
      else k.setAllowance s pair.getERC20Contract fromAddr spender newAllowance
    match updated with
    | .error err => .error (convertErrToERC20Error err)
    | .ok s => .ok (s, newAllowance)

/-- The send of `transfer` and its logs. -/
def sendTokens (s : Tokens σ) (fromAddr toAddr : Address) (amount : Int)
    (approval : List TokenEvent) : Tokens σ × Option String :=
  match bank.send s.bank (addressBytes fromAddr) (addressBytes toAddr) [(pair.denom, amount)] with
  | .error err => (s, some (convertErrToERC20Error (convertErrToERC20Error err)))
  | .ok balances =>
    ({ s with
        bank := balances
        logs := s.logs ++
          .transfer pair.getERC20Contract fromAddr toAddr amount :: approval }, none)

/-- `transfer`, by the owner of the coins. -/
def transfer (s : Tokens σ) (fromAddr toAddr : Address) (amount : Int) : Tokens σ × Option String :=
  match validateCoin (pair.denom, amount) with
  | some err => (s, some err)
  | none => sendTokens bank pair s fromAddr toAddr amount []

/-- `transfer`, by a spender. -/
def transferFrom (s : Tokens σ) (spender fromAddr toAddr : Address) (amount : Int) :
    Tokens σ × Option String :=
  match validateCoin (pair.denom, amount) with
  | some err => (s, some err)
  | none =>
    match spendAllowance k pair s.store fromAddr spender amount with
    | .error err => (s, some err)
    | .ok (store, newAllowance) =>
      sendTokens bank pair { s with store } fromAddr toAddr amount
        [.approval pair.getERC20Contract fromAddr spender newAllowance]

/-- `setAllowance` of the precompile. -/
def setSpenderAllowance (s : Store) (owner spender : Address) (allowance : Int) :
    Except String Store :=
  if 2 ^ 256 ≤ |allowance| then
    .error ("amount " ++ toString allowance ++ " causes integer overflow")
  else k.setAllowance s pair.getERC20Contract owner spender allowance

/-- `Approve`. -/
def approve (s : Tokens σ) (owner spender : Address) (amount : Int) : Tokens σ × Option String :=
  let allowance := s.store.getAllowance pair.getERC20Contract owner spender
  let updated :=
    if allowance = 0 ∧ amount < 0 then .error "cannot approve negative values"
    else if allowance = 0 ∧ 0 < amount then setSpenderAllowance k pair s.store owner spender amount
    else if 0 < allowance ∧ amount ≤ 0 then
      k.deleteAllowance s.store pair.getERC20Contract owner spender
    else if 0 < allowance ∧ 0 < amount then setSpenderAllowance k pair s.store owner spender amount
    else .ok s.store
  match updated with
  | .error err => (s, some err)
  | .ok store =>
    ({ s with
        store
        logs := s.logs ++ [.approval pair.getERC20Contract owner spender amount] }, none)

/-- `HandleMethod`. -/
def handleMethod (s : Tokens σ) (caller : Address) : Method → Tokens σ × Option String
  | .transfer toAddr amount => transfer bank pair s caller toAddr amount.toNat
  | .transferFrom fromAddr toAddr amount =>
    transferFrom k bank pair s caller fromAddr toAddr amount.toNat
  | .approve spender amount => approve k pair s caller spender amount.toNat

end Precompile

section Calls

variable {σ : Type} (k : Keeper) (bank : SendBank σ)

/-- `GetERC20PrecompileInstance`: the pair of a precompile. -/
def getERC20PrecompileInstance (s : Store) (address : Address) : Option TokenPair :=
  let text := k.addressString address
  if s.nativePrecompiles text || s.dynamicPrecompiles text then
    s.getTokenPair (s.getTokenPairID text)
  else none

/-- A call, and if it succeeded. What a call wrote that failed is reverted. -/
def call (s : Tokens σ) (c : Call) : Tokens σ × Bool :=
  match getERC20PrecompileInstance k s.store c.contract with
  | none => (s, false)
  | some pair =>
    match handleMethod k bank pair s c.caller c.method with
    | (t, none) => (t, true)
    | (_, some _) => (s, false)

/-- The state after a list of calls. -/
def calls (s : Tokens σ) (cs : List Call) : Tokens σ := cs.foldl (fun s c => (call k bank s c).1) s

/-- What a spender moves out of an account of a token by a call. -/
def moved (s : Tokens σ) (token owner spender : Address) (c : Call) : Int :=
  match c.method with
  | .transferFrom fromAddr _ amount =>
    if (call k bank s c).2 ∧ c.contract = token ∧ fromAddr = owner ∧ c.caller = spender then
      amount.toNat
    else 0
  | _ => 0

/-- What a spender moves in a list of calls. -/
def totalMoved (token owner spender : Address) : Tokens σ → List Call → Int
  | _, [] => 0
  | s, c :: rest =>
    moved k bank s token owner spender c + totalMoved token owner spender (call k bank s c).1 rest

end Calls

/-! ## What a call does -/

variable {amount value : Int} {store : Store}

section Effects

variable {σ : Type}

/-- An amount of a coin goes from one account to another, and nothing else moves. -/
def Moves (bank : SendBank σ) (s t : σ) (sender recipient : AccAddress) (denom : String)
    (amount : Int) : Prop :=
  ∀ a d, bank.balance t a d = bank.balance s a d +
    ((if a = recipient ∧ d = denom then amount else 0) -
      if a = sender ∧ d = denom then amount else 0)

/-- The allowance of one spender becomes `value`, and every other stays. -/
def Allows (s t : Store) (token owner spender : Address) (value : Int) : Prop :=
  ∀ e o p, t.getAllowance e o p =
    if e = token ∧ o = owner ∧ p = spender then value else s.getAllowance e o p

/-- What a successful call does, on the token of the pair. -/
def Effect (bank : SendBank σ) (s t : Tokens σ) (token caller : Address) (denom : String) :
    Method → Prop
  | .transfer toAddr amount =>
    Moves bank s.bank t.bank (addressBytes caller) (addressBytes toAddr) denom amount.toNat ∧
      t.store = s.store
  | .transferFrom fromAddr toAddr amount =>
    Moves bank s.bank t.bank (addressBytes fromAddr) (addressBytes toAddr) denom amount.toNat ∧
      Allows s.store t.store token fromAddr caller
        (s.store.getAllowance token fromAddr caller - amount.toNat)
  | .approve spender amount =>
    t.bank = s.bank ∧ Allows s.store t.store token caller spender amount.toNat

variable {k : Keeper} {bank : SendBank σ} {pair : TokenPair} {s t : Tokens σ}

theorem isValid_of_validateCoin {coin : Coin} (h : validateCoin coin = none) :
    Coins.isValid [coin] = true := by
  simp only [validateCoin] at h
  split_ifs at h with hdenom hamount
  exact Coins.isValid_singleton (by simpa using hdenom) (by omega)

theorem sendTokens_ok {fromAddr toAddr : Address} {approval : List TokenEvent}
    (hvalid : validateCoin (pair.denom, amount) = none)
    (h : sendTokens bank pair s fromAddr toAddr amount approval = (t, none)) :
    Moves bank s.bank t.bank (addressBytes fromAddr) (addressBytes toAddr) pair.denom amount ∧
      t.store = s.store := by
  simp only [sendTokens] at h
  split at h
  · simp at h
  · next balances hsend =>
    obtain ⟨rfl, -⟩ := Prod.mk.inj h
    refine ⟨?_, rfl⟩
    intro a d
    rw [bank.send_exact (isValid_of_validateCoin hvalid) hsend]
    simp only [credit, Coins.amountOf_singleton, ite_and]

theorem Allows.rfl_of_eq {s t : Store} {token owner spender : Address} (h : t = s)
    (hvalue : s.getAllowance token owner spender = value) :
    Allows s t token owner spender value := by
  subst h
  intro e o p
  split_ifs with hkey
  · obtain ⟨rfl, rfl, rfl⟩ := hkey
    exact hvalue
  · rfl

/-- What is kept by a change of allowances. -/
structure AllowancesOnly (s t : Store) : Prop where
  registry : SameRegistry s t
  nativePrecompiles : t.nativePrecompiles = s.nativePrecompiles
  dynamicPrecompiles : t.dynamicPrecompiles = s.dynamicPrecompiles
  positive : s.PositiveAllowances → t.PositiveAllowances

theorem AllowancesOnly.refl (s : Store) : AllowancesOnly s s := ⟨.refl s, rfl, rfl, id⟩

theorem Keeper.setAllowanceOf_only {s t : Store} {token owner spender : Address} {any : Bool}
    (h : k.setAllowanceOf s token owner spender value any = .ok t) :
    Allows s t token owner spender value ∧ AllowancesOnly s t := by
  refine ⟨getAllowance_setAllowanceOf h, ?_⟩
  have hpositive := setAllowanceOf_positive h
  obtain ⟨-, rfl⟩ := setAllowanceOf_ok h
  exact ⟨⟨rfl, rfl, rfl⟩, rfl, rfl, hpositive⟩

theorem spendAllowance_ok {s t : Store} {fromAddr spender : Address} {newAllowance : Int}
    (h : spendAllowance k pair s fromAddr spender amount = .ok (t, newAllowance)) :
    Allows s t pair.getERC20Contract fromAddr spender
        (s.getAllowance pair.getERC20Contract fromAddr spender - amount) ∧
      AllowancesOnly s t := by
  simp only [spendAllowance] at h
  split_ifs at h with hlow hzero
  · split at h
    · cases h
    · next store hdelete =>
      obtain ⟨rfl, -⟩ := Prod.mk.inj (Except.ok.inj h)
      rw [hzero]
      exact setAllowanceOf_only hdelete
  · split at h
    · cases h
    · next store hset =>
      obtain ⟨rfl, -⟩ := Prod.mk.inj (Except.ok.inj h)
      exact setAllowanceOf_only hset

/-- An approval sets the allowance, whatever it was. -/
theorem approve_ok {owner spender : Address} (hs : s.store.PositiveAllowances)
    (hamount : 0 ≤ amount) (h : approve k pair s owner spender amount = (t, none)) :
    t.bank = s.bank ∧ Allows s.store t.store pair.getERC20Contract owner spender amount ∧
      AllowancesOnly s.store t.store := by
  have hallowance := Store.getAllowance_nonneg hs pair.getERC20Contract owner spender
  have hset : ∀ {store : Store}, setSpenderAllowance k pair s.store owner spender amount =
      .ok store → Allows s.store store pair.getERC20Contract owner spender amount ∧
        AllowancesOnly s.store store := by
    intro store hok
    simp only [setSpenderAllowance] at hok
    split_ifs at hok
    exact setAllowanceOf_only hok
  simp only [approve] at h
  split at h
  · simp at h
  · next store hupdated =>
    obtain ⟨rfl, -⟩ := Prod.mk.inj h
    refine ⟨rfl, ?_⟩
    split_ifs at hupdated with hfirst hsecond hthird hfourth
    · exact hset hupdated
    · obtain rfl : amount = 0 := by omega
      exact setAllowanceOf_only hupdated
    · exact hset hupdated
    · cases hupdated
      exact ⟨Allows.rfl_of_eq rfl (by omega), .refl _⟩

theorem handleMethod_ok {caller : Address} {method : Method} (hs : s.store.PositiveAllowances)
    (h : handleMethod k bank pair s caller method = (t, none)) :
    Effect bank s t pair.getERC20Contract caller pair.denom method ∧
      AllowancesOnly s.store t.store := by
  cases method with
  | transfer toAddr amount =>
    simp only [handleMethod, transfer] at h
    split at h
    · simp at h
    · next hvalid =>
      obtain ⟨hmoves, hstore⟩ := sendTokens_ok hvalid h
      exact ⟨⟨hmoves, hstore⟩, by rw [hstore]; exact .refl _⟩
  | transferFrom fromAddr toAddr amount =>
    simp only [handleMethod, transferFrom] at h
    split at h
    · simp at h
    · next hvalid =>
      split at h
      · simp at h
      · next store newAllowance hspend =>
        obtain ⟨hmoves, hstore⟩ := sendTokens_ok hvalid h
        obtain ⟨hallows, honly⟩ := spendAllowance_ok hspend
        obtain rfl : t.store = store := hstore
        exact ⟨⟨hmoves, hallows⟩, honly⟩
  | approve spender amount =>
    obtain ⟨hbank, hallows, honly⟩ := approve_ok hs (Int.natCast_nonneg _) h
    exact ⟨⟨hbank, hallows⟩, honly⟩

/-- The pair of a precompile has its address as contract. -/
theorem contract_of_getERC20PrecompileInstance {address : Address} (hlinked : k.Linked store)
    (h : getERC20PrecompileInstance k store address = some pair) :
    pair.getERC20Contract = address := by
  simp only [getERC20PrecompileInstance, Store.getTokenPairID, isHexAddress_addressString,
    if_true, hexToAddress_addressString] at h
  split_ifs at h
  obtain ⟨id, hid, hpair⟩ := Option.bind_eq_some_iff.mp h
  obtain ⟨found, hfound, hkey⟩ := hlinked.ofErc20 hid
  rw [hpair] at hfound
  cases hfound
  exact addressBytes_inj hkey

variable (bank) in
/-- A call fails and changes nothing, or has its effect on the token it is made to. -/
theorem call_cases (hlinked : k.Linked s.store) (hs : s.store.PositiveAllowances) (c : Call) :
    call k bank s c = (s, false) ∨
      ∃ t pair, call k bank s c = (t, true) ∧
        getERC20PrecompileInstance k s.store c.contract = some pair ∧
        Effect bank s t c.contract c.caller pair.denom c.method ∧
        AllowancesOnly s.store t.store := by
  simp only [call]
  split
  · exact .inl rfl
  · next pair hpair =>
    split
    · next t ht =>
      obtain ⟨heffect, honly⟩ := handleMethod_ok hs ht
      rw [contract_of_getERC20PrecompileInstance hlinked hpair] at heffect
      exact .inr ⟨t, pair, rfl, hpair, heffect, honly⟩
    · exact .inl rfl

end Effects

/-! ## Whole runs -/

section Runs

variable {σ : Type} {k : Keeper} (bank : SendBank σ) {s t : Tokens σ}

/-- A registry whose stores belong together, with positive allowances. -/
structure Sound (k : Keeper) (s : Store) : Prop where
  linked : k.Linked s
  positive : s.PositiveAllowances

theorem AllowancesOnly.sound {s t : Store} (h : AllowancesOnly s t) (hs : Sound k s) :
    Sound k t where
  linked := hs.linked.congr h.registry.pairs h.registry.erc20Map h.registry.denomMap
  positive := h.positive hs.positive

theorem sound_of_genesis (hsum : k.CollisionFree) {gs : GenesisState} (hvalid : gs.validate = none)
    {registerCodeHash : PrecompileType → Address → Option String}
    (hinit : k.initGenesis registerCodeHash gs = .ok store) : Sound k store :=
  ⟨initGenesis_linked hsum hvalid hinit, initGenesis_positive hinit⟩

theorem change_sound (hsum : k.CollisionFree) {s : State} (hs : Sound k s.store) (c : Change) :
    Sound k (k.change s c).store :=
  ⟨(change_changed s c).linked hsum hs.linked,
    fun key allowance h => hs.positive key allowance (change_allowances h)⟩

theorem call_sound (hs : Sound k s.store) (c : Call) : Sound k (call k bank s c).1.store := by
  obtain h | ⟨t, pair, h, -, -, honly⟩ := call_cases bank hs.linked hs.positive c
  · rw [h]
    exact hs
  · rw [h]
    exact honly.sound hs

theorem calls_sound (hs : Sound k s.store) (cs : List Call) :
    Sound k (calls k bank s cs).store := by
  induction cs generalizing s with
  | nil => exact hs
  | cons c rest ih => exact ih (call_sound bank hs c)

/-- The call sets the allowance of a spender. -/
def Call.Approves (c : Call) (token owner spender : Address) : Prop :=
  c.contract = token ∧ c.caller = owner ∧ ∃ amount, c.method = .approve spender amount

variable {token owner spender : Address} {c : Call} {d : String}

/-- What a spender moves is taken off the allowance, if the owner does not approve again. -/
theorem call_allowance (hs : Sound k s.store) (hc : ¬c.Approves token owner spender) :
    (call k bank s c).1.store.getAllowance token owner spender =
      s.store.getAllowance token owner spender - moved k bank s token owner spender c := by
  obtain h | ⟨t, pair, h, -, heffect, -⟩ := call_cases bank hs.linked hs.positive c
  · simp only [moved, h, Bool.false_eq_true, false_and, if_false]
    split <;> simp
  · simp only [moved, h, true_and]
    obtain ⟨contract, caller, method⟩ := c
    cases method with
    | transfer toAddr amount => simp [heffect.2]
    | transferFrom fromAddr toAddr amount =>
      simp only [heffect.2 token owner spender, eq_comm (a := token), eq_comm (a := owner),
        eq_comm (a := spender)]
      split_ifs with hkey
      · obtain ⟨rfl, rfl, rfl⟩ := hkey
        rfl
      · simp
    | approve approved amount =>
      simp only [heffect.2 token owner spender, sub_zero]
      apply if_neg
      rintro ⟨rfl, rfl, rfl⟩
      exact hc ⟨rfl, rfl, amount, rfl⟩

theorem totalMoved_le (hs : Sound k s.store) {cs : List Call}
    (hcs : ∀ c ∈ cs, ¬c.Approves token owner spender) :
    totalMoved k bank token owner spender s cs ≤ s.store.getAllowance token owner spender := by
  induction cs generalizing s with
  | nil => exact Store.getAllowance_nonneg hs.positive token owner spender
  | cons c rest ih =>
    have hrest := ih (call_sound bank hs c) fun c hc => hcs c (List.mem_cons_of_mem _ hc)
    rw [call_allowance bank hs (hcs c List.mem_cons_self)] at hrest
    simp only [totalMoved]
    omega

/-- What holds of every call in a state. -/
structure Accounted (k : Keeper) (bank : SendBank σ) (s : Tokens σ) : Prop where
  /-- A call fails and changes nothing, or moves and allows exactly what it says. -/
  exact : ∀ c, call k bank s c = (s, false) ∨
    ∃ t pair, call k bank s c = (t, true) ∧
      getERC20PrecompileInstance k s.store c.contract = some pair ∧
      Effect bank s t c.contract c.caller pair.denom c.method
  /-- Only the holder, or a spender whose allowance falls as much, lowers a balance. -/
  authorized : ∀ c holder denom,
    bank.balance (call k bank s c).1.bank holder denom < bank.balance s.bank holder denom →
      ∃ pair, getERC20PrecompileInstance k s.store c.contract = some pair ∧ pair.denom = denom ∧
        ((∃ toAddr amount, c.method = .transfer toAddr amount ∧
            holder = addressBytes c.caller) ∨
          ∃ fromAddr toAddr amount, c.method = .transferFrom fromAddr toAddr amount ∧
            holder = addressBytes fromAddr ∧
            s.store.getAllowance c.contract fromAddr c.caller -
                (call k bank s c).1.store.getAllowance c.contract fromAddr c.caller =
              bank.balance s.bank holder denom - bank.balance (call k bank s c).1.bank holder denom)
  /-- An allowance changes only by a call on its token, of its owner or its spender. -/
  frame : ∀ c token owner spender,
    (call k bank s c).1.store.getAllowance token owner spender ≠
        s.store.getAllowance token owner spender →
      c.contract = token ∧
        ((c.caller = owner ∧ ∃ amount, c.method = .approve spender amount) ∨
          (c.caller = spender ∧ ∃ toAddr amount, c.method = .transferFrom owner toAddr amount))
  /-- After an approval no more is moved than was approved, until the next. -/
  bounded : ∀ c spender amount, c.method = .approve spender amount →
    (call k bank s c).2 = true → ∀ later : List Call,
      (∀ c' ∈ later, ¬c'.Approves c.contract c.caller spender) →
        totalMoved k bank c.contract c.caller spender (call k bank s c).1 later ≤ amount.toNat

variable {bank}

theorem Moves.eq_of_lt {b b' : σ} {sender recipient holder : AccAddress} {denom : String}
    (h : Moves bank b b' sender recipient d amount) (hamount : 0 ≤ amount)
    (hlt : bank.balance b' holder denom < bank.balance b holder denom) :
    d = denom ∧ holder = sender ∧
      bank.balance b holder denom - bank.balance b' holder denom = amount := by
  have hbalance := h holder denom
  split_ifs at hbalance with hrecipient hsender hsender
  · omega
  · omega
  · exact ⟨hsender.2.symm, hsender.1, by omega⟩
  · omega

theorem authorized_of_effect {denom : String} {holder : AccAddress}
    (heffect : Effect bank s t c.contract c.caller d c.method)
    (hlt : bank.balance t.bank holder denom < bank.balance s.bank holder denom) :
    d = denom ∧
      ((∃ toAddr amount, c.method = .transfer toAddr amount ∧ holder = addressBytes c.caller) ∨
        ∃ fromAddr toAddr amount, c.method = .transferFrom fromAddr toAddr amount ∧
          holder = addressBytes fromAddr ∧
          s.store.getAllowance c.contract fromAddr c.caller -
              t.store.getAllowance c.contract fromAddr c.caller =
            bank.balance s.bank holder denom - bank.balance t.bank holder denom) := by
  obtain ⟨contract, caller, method⟩ := c
  cases method with
  | transfer toAddr amount =>
    obtain ⟨hdenom, hholder, -⟩ := heffect.1.eq_of_lt (Int.natCast_nonneg _) hlt
    exact ⟨hdenom, .inl ⟨toAddr, amount, rfl, hholder⟩⟩
  | transferFrom fromAddr toAddr amount =>
    obtain ⟨hdenom, hholder, hfall⟩ := heffect.1.eq_of_lt (Int.natCast_nonneg _) hlt
    have hallowance := heffect.2 contract fromAddr caller
    rw [if_pos ⟨rfl, rfl, rfl⟩] at hallowance
    refine ⟨hdenom, .inr ⟨fromAddr, toAddr, amount, rfl, hholder, ?_⟩⟩
    simp only [hallowance, hfall]
    omega
  | approve spender amount =>
    rw [heffect.1] at hlt
    exact absurd hlt (lt_irrefl _)

theorem frame_of_effect (heffect : Effect bank s t c.contract c.caller d c.method)
    (hne : t.store.getAllowance token owner spender ≠ s.store.getAllowance token owner spender) :
    c.contract = token ∧
      ((c.caller = owner ∧ ∃ amount, c.method = .approve spender amount) ∨
        (c.caller = spender ∧ ∃ toAddr amount, c.method = .transferFrom owner toAddr amount)) := by
  obtain ⟨contract, caller, method⟩ := c
  cases method with
  | transfer toAddr amount => exact absurd (by rw [heffect.2]) hne
  | transferFrom fromAddr toAddr amount =>
    rw [heffect.2] at hne
    split_ifs at hne with hkey
    · obtain ⟨rfl, rfl, rfl⟩ := hkey
      exact ⟨rfl, .inr ⟨rfl, toAddr, amount, rfl⟩⟩
    · exact absurd rfl hne
  | approve approved amount =>
    rw [heffect.2] at hne
    split_ifs at hne with hkey
    · obtain ⟨rfl, rfl, rfl⟩ := hkey
      exact ⟨rfl, .inl ⟨rfl, amount, rfl⟩⟩
    · exact absurd rfl hne

/-- Calls are accounted for in every state that is reached by calls. -/
theorem erc20_calls_accounted (hs : Sound k s.store) (cs : List Call) :
    Accounted k bank (calls k bank s cs) := by
  have hreached := calls_sound bank hs cs
  have hcases := call_cases bank hreached.linked hreached.positive
  constructor
  · intro c
    obtain h | ⟨t, pair, h, hpair, heffect, -⟩ := hcases c
    · exact .inl h
    · exact .inr ⟨t, pair, h, hpair, heffect⟩
  · intro c holder denom hlt
    obtain h | ⟨t, pair, h, hpair, heffect, -⟩ := hcases c
    · rw [h] at hlt
      exact absurd hlt (lt_irrefl _)
    · rw [h] at hlt ⊢
      obtain ⟨hdenom, hwho⟩ := authorized_of_effect heffect hlt
      exact ⟨pair, hpair, hdenom, hwho⟩
  · intro c token owner spender hne
    obtain h | ⟨t, pair, h, -, heffect, -⟩ := hcases c
    · rw [h] at hne
      exact absurd rfl hne
    · rw [h] at hne
      exact frame_of_effect heffect hne
  · intro c spender amount hmethod hok later hlater
    have hle := totalMoved_le bank (call_sound bank hreached c) hlater
    obtain h | ⟨t, pair, h, -, heffect, -⟩ := hcases c
    · rw [h] at hok
      cases hok
    · rw [hmethod] at heffect
      have hallowance := heffect.2 c.contract c.caller spender
      rw [if_pos ⟨rfl, rfl, rfl⟩] at hallowance
      rw [h] at hle ⊢
      rw [← hallowance]
      exact hle

/-- The bank that keeps a book, without locked coins. -/
def bookBank : SendBank Book where
  balance := Book.balance
  send book sender recipient coins :=
    if book.affords (fun _ => []) sender coins then .ok (book.transfer sender recipient coins)
    else .error "spendable balance is smaller than the amount"
  send_exact := by
    intro s t sender recipient coins _ h a d
    split_ifs at h
    cases h
    rfl

/-- One pair with a precompile, and an account with a hundred coins. -/
def oneToken : Tokens Book where
  store := { storeOne "stake" with dynamicPrecompiles := fun _ => true }
  bank := { balance := fun a d => if a = addressBytes 7 ∧ d = "stake" then 100 else 0
            supply := fun _ => 100 }
  logs := []

theorem oneToken_sound : Sound plainKeeper oneToken.store where
  linked := by
    have hlinked := initGenesis_linked plainKeeper_collisionFree
      (show (genesisOne "stake").validate = none by decide +kernel)
      (initGenesis_genesisOne "stake")
    exact hlinked.congr rfl rfl rfl
  positive := nofun

/-- The owner approves thirty, and the spender moves twenty of them. -/
def approvedMove : List Call :=
  [{ contract := 1, caller := 7, method := .approve 8 30 },
    { contract := 1, caller := 8, method := .transferFrom 7 9 20 }]

theorem erc20_calls_accounted_approvedMove :
    Sound plainKeeper oneToken.store ∧
      (calls plainKeeper bookBank oneToken approvedMove).bank.balance (addressBytes 9)
        "stake" = 20 ∧
      (calls plainKeeper bookBank oneToken approvedMove).store.getAllowance 1 7 8 = 10 ∧
      Accounted plainKeeper bookBank
        (calls plainKeeper bookBank oneToken approvedMove) :=
  ⟨oneToken_sound, by decide +kernel, by decide +kernel,
    erc20_calls_accounted oneToken_sound approvedMove⟩

/-! ### Calls between changes of the registry -/

/-- A change of the registry, or a call. -/
inductive TokenStep
  | change (c : Change)
  | call (c : Call)

/-- What calls and changes of the registry read and write. -/
abbrev TokenChain (σ : Type) := Tokens σ × (String → Option Metadata)

def tokenStep (k : Keeper) (bank : SendBank σ) (s : TokenChain σ) : TokenStep → TokenChain σ
  | .change c =>
    let next := k.change { store := s.1.store, denomMetadata := s.2 } c
    ({ s.1 with store := next.store }, next.denomMetadata)
  | .call c => ((call k bank s.1 c).1, s.2)

/-- What a spender moves in a list of steps. -/
def movedIn (k : Keeper) (bank : SendBank σ) (token owner spender : Address) :
    TokenChain σ → List TokenStep → Int
  | _, [] => 0
  | s, .change c :: rest =>
    movedIn k bank token owner spender (tokenStep k bank s (.change c)) rest
  | s, .call c :: rest => moved k bank s.1 token owner spender c +
      movedIn k bank token owner spender (tokenStep k bank s (.call c)) rest

variable {chain : TokenChain σ}

variable (bank) in
theorem tokenStep_sound (hsum : k.CollisionFree) (hs : Sound k chain.1.store) (step : TokenStep) :
    Sound k (tokenStep k bank chain step).1.store := by
  cases step with
  | change c => exact change_sound hsum hs c
  | call c => exact call_sound bank hs c

/-- No change of the registry raises an allowance. -/
theorem change_allowance_le {s : State} (hs : Sound k s.store) (c : Change) :
    (k.change s c).store.getAllowance token owner spender ≤
      s.store.getAllowance token owner spender := by
  have hnonneg := Store.getAllowance_nonneg hs.positive token owner spender
  unfold Store.getAllowance at hnonneg ⊢
  split
  · exact hnonneg
  · next allowance hstored => rw [change_allowances hstored]

theorem movedIn_le (hsum : k.CollisionFree) (hs : Sound k chain.1.store) {steps : List TokenStep}
    (hsteps : ∀ c, .call c ∈ steps → ¬c.Approves token owner spender) :
    movedIn k bank token owner spender chain steps ≤
      chain.1.store.getAllowance token owner spender := by
  induction steps generalizing chain with
  | nil => exact Store.getAllowance_nonneg hs.positive token owner spender
  | cons step rest ih =>
    have hrest := ih (tokenStep_sound bank hsum hs step) fun c hc =>
      hsteps c (List.mem_cons_of_mem _ hc)
    cases step with
    | change c => exact hrest.trans (change_allowance_le hs c)
    | call c =>
      have hcall := call_allowance bank hs (hsteps c List.mem_cons_self)
      simp only [movedIn, tokenStep] at hrest ⊢
      omega

/-- From a valid genesis on, calls and changes of the registry in any order: a spender moves no
more than its allowance until the owner approves again, also if the pair is disabled, deleted
or registered again in between. -/
theorem moves_within_allowance (hsum : k.CollisionFree) {gs : GenesisState}
    (hvalid : gs.validate = none) {registerCodeHash : PrecompileType → Address → Option String}
    (hinit : k.initGenesis registerCodeHash gs = .ok chain.1.store) (past later : List TokenStep)
    (hlater : ∀ c, .call c ∈ later → ¬c.Approves token owner spender) :
    movedIn k bank token owner spender (past.foldl (tokenStep k bank) chain) later ≤
      (past.foldl (tokenStep k bank) chain).1.store.getAllowance token owner spender := by
  refine movedIn_le hsum ?_ hlater
  have hstart := sound_of_genesis hsum hvalid hinit
  clear hinit
  induction past generalizing chain with
  | nil => exact hstart
  | cons step rest ih => exact ih (tokenStep_sound bank hsum hstart step)

/-- A genesis with one pair and its precompile. -/
def openGenesis : GenesisState :=
  { genesisOne "stake" with dynamicPrecompiles := [(pairOne "stake").erc20Address] }

/-- The chain after that genesis. -/
def openChain : TokenChain Book :=
  ({ oneToken with store := { storeOne "stake" with
      dynamicPrecompiles := Function.update (fun _ => false) (plainKeeper.addressString 1) true } },
    fun _ => none)

/-- Of the thirty approved, twenty are moved. The pair is then disabled and enabled again, and
the spender gets the last ten only. -/
theorem moves_within_allowance_toggled :
    let s := (approvedMove.map .call).foldl (tokenStep plainKeeper bookBank) openChain
    let later : List TokenStep := [.change (.toggleConversion "stake"),
      .change (.toggleConversion "stake"), .call ⟨1, 8, .transferFrom 7 9 10⟩,
      .call ⟨1, 8, .transferFrom 7 9 1⟩]
    movedIn plainKeeper bookBank 1 7 8 s later = 10 ∧
      movedIn plainKeeper bookBank 1 7 8 s later ≤ s.1.store.getAllowance 1 7 8 := by
  refine ⟨by decide +kernel, moves_within_allowance plainKeeper_collisionFree
    (show openGenesis.validate = none by decide +kernel)
    (show plainKeeper.initGenesis (fun _ _ => none) openGenesis = .ok openChain.1.store by rfl)
    _ _ ?_⟩
  rintro c hc ⟨-, -, amount, happroves⟩
  simp at hc
  obtain rfl | rfl := hc <;> cases happroves

end Runs

end InfiniteEvm.Erc20
