import InfiniteEvm.StateDB.Types

/-!
# Which messages the ante handlers let through

`NewAnteHandler` sends a transaction to the handler for Ethereum transactions or to the one
for Cosmos transactions, by its first extension option. The latter rejects Ethereum messages
at the top level and looks for disabled types inside `authz` messages.
-/

namespace InfiniteEvm.Ante

open List Option

/-- The type URLs of the messages that the decorators ask for. -/
def msgExecURL : String := "/cosmos.authz.v1beta1.MsgExec"
def msgGrantURL : String := "/cosmos.authz.v1beta1.MsgGrant"
def msgEthereumTxURL : String := "/cosmos.evm.vm.v1.MsgEthereumTx"
def msgCreateVestingAccountURL : String := "/cosmos.vesting.v1beta1.MsgCreateVestingAccount"

def extensionOptionsEthereumTx : String := "/cosmos.evm.vm.v1.ExtensionOptionsEthereumTx"
def extensionOptionsDynamicFeeTx : String := "/cosmos.evm.ante.v1.ExtensionOptionDynamicFeeTx"

/-- `MsgEthereumTx`, with a raw transaction of type `T`. -/
structure MsgEthereumTx (T : Type) where
  sender : Bytes
  raw : T

/-- The type URL of a message of another type. -/
abbrev OtherURL := { url : String // url ∉ [msgExecURL, msgGrantURL, msgEthereumTxURL] }

/-- A message. What `authz` messages carry may fail to unpack. -/
inductive Msg (T : Type)
  | exec (msgs : List (Msg T))
  | brokenExec (err : String)
  /-- `MsgGrant`, with the type URL of its authorization. -/
  | grant (authorization : Except String String)
  | ethereum (msg : MsgEthereumTx T)
  | other (url : OtherURL)

namespace Msg

variable {T : Type}

/-- `MsgTypeURL`. -/
def typeURL : Msg T → String
  | .exec _ | .brokenExec _ => msgExecURL
  | .grant _ => msgGrantURL
  | .ethereum _ => msgEthereumTxURL
  | .other url => url.1

/-- A message occurs in an `authz` message, at some depth. -/
inductive Inside (m : Msg T) : Msg T → Prop
  | child {msgs : List (Msg T)} : m ∈ msgs → Inside m (.exec msgs)
  | deeper {m' : Msg T} {msgs : List (Msg T)} : m' ∈ msgs → Inside m m' → Inside m (.exec msgs)

/-- A message occurs in a list, at some depth. -/
def Occurs (m : Msg T) (msgs : List (Msg T)) : Prop := m ∈ msgs ∨ ∃ m' ∈ msgs, Inside m m'

end Msg

/-! ## Decorators for Cosmos transactions -/

section

variable {T : Type}

/-- `RejectMessagesDecorator`. -/
def rejectMessages : List (Msg T) → Option String
  | [] => none
  | .ethereum _ :: _ => some ("MsgEthereumTx needs to be contained within a tx with " ++
      "'ExtensionOptionsEthereumTx' option: invalid type")
  | _ :: rest => rejectMessages rest

def maxNestedMsgs : Nat := 7

def foundDisabled (url : String) : String := "found disabled msg type: " ++ url

variable (disabledMsgTypes : List String)

/-- The level after a message: every `MsgExec` of a list adds to it. -/
def nextLevel (nestedLvl : Nat) : Msg T → Nat
  | .exec _ | .brokenExec _ => nestedLvl + 1
  | _ => nestedLvl

mutual
/-- One round of the loop of `checkDisabledMsgs`. -/
def checkMsg (isAuthzInnerMsg : Bool) (nestedLvl : Nat) : Msg T → Option String
  | .exec msgs =>
    if maxNestedMsgs ≤ nestedLvl + 1 then
      some ("found more nested msgs than permitted; got: " ++ toString (nestedLvl + 1) ++
        ", expected: <" ++ toString maxNestedMsgs)
    else checkMsgs true (nestedLvl + 1) msgs
  | .brokenExec err => some err
  | .grant (.error err) => some err
  | .grant (.ok url) => if url ∈ disabledMsgTypes then some (foundDisabled url) else none
  | .ethereum _ =>
    if isAuthzInnerMsg && decide (msgEthereumTxURL ∈ disabledMsgTypes) then
      some (foundDisabled msgEthereumTxURL)
    else none
  | .other url =>
    if isAuthzInnerMsg && decide (url.1 ∈ disabledMsgTypes) then some (foundDisabled url.1)
    else none
/-- The loop of `checkDisabledMsgs`. -/
def checkMsgs (isAuthzInnerMsg : Bool) (nestedLvl : Nat) : List (Msg T) → Option String
  | [] => none
  | msg :: rest => (checkMsg isAuthzInnerMsg nestedLvl msg).or
      (checkMsgs isAuthzInnerMsg (nextLevel nestedLvl msg) rest)
end

/-- `AuthzLimiterDecorator`. It starts at level 1, below the limit. -/
def limitAuthz (msgs : List (Msg T)) : Option String :=
  (checkMsgs disabledMsgTypes false 1 msgs).map fun err => err ++ ": unauthorized"

end

/-! ## The handlers -/

/-- A transaction: its messages and the type URLs of its extension options, if it has any. -/
structure Tx (T : Type) where
  msgs : List (Msg T)
  extensionOptions : Option (List String)

/-- `Signer`, with the text of an address. -/
structure Signer (T : Type) where
  sender : T → Except String Address
  hexAddress : Bytes → String

variable {T : Type} {msgs : List (Msg T)}

/-- `VerifySender`. -/
def MsgEthereumTx.verifySender (signer : Signer T) (msg : MsgEthereumTx T) : Option String :=
  match signer.sender msg.raw with
  | .error err => some err
  | .ok recovered =>
    if msg.sender ≠ addressBytes recovered then
      some ("sender verification failed. got " ++ signer.hexAddress (addressBytes recovered) ++
        ", expected " ++ signer.hexAddress msg.sender)
    else none

/-- The other checks of `MonoDecorator.AnteHandle`, in its order: before the message is
unpacked, between that and the signature, and after. -/
structure MonoChecks (T : Type) where
  isReCheckTx : Bool
  validateTx : Tx T → Option String
  setupContext : Tx T → Option String
  newMonoDecoratorUtils : Option String
  validateTransaction : T → Option String
  checkFees : T → Option String
  validateMsg : T → Option String
  checkAccount : MsgEthereumTx T → Option String

/-- `MonoDecorator.AnteHandle`. -/
def monoAnteHandle (signer : Signer T) (checks : MonoChecks T) (tx : Tx T) : Option String :=
  (if checks.isReCheckTx then none else checks.validateTx tx).or <|
  (checks.setupContext tx).or <|
  checks.newMonoDecoratorUtils.or <|
  match tx.msgs with
  | [.ethereum msg] =>
    (checks.validateTransaction msg.raw).or <|
    (checks.checkFees msg.raw).or <|
    (checks.validateMsg msg.raw).or <|
    ((msg.verifySender signer).map fun err => "signature verification failed: " ++ err).or <|
    checks.checkAccount msg
  | [msg] => some ("invalid message type " ++ msg.typeURL ++ ", expected MsgEthereumTx")
  | msgs => some ("expected 1 message, got " ++ toString msgs.length)

/-- The types that `newCosmosAnteHandler` disables. -/
def disabledMsgTypes : List String := [msgEthereumTxURL, msgCreateVestingAccountURL]

/-- `newCosmosAnteHandler`. The decorators after the first two are those of the SDK. -/
def cosmosAnteHandler (rest : Tx T → Option String) (tx : Tx T) : Option String :=
  (rejectMessages tx.msgs).or <| (limitAuthz disabledMsgTypes tx.msgs).or <| rest tx

/-- `NewAnteHandler`, with the error of a transaction it does not accept. -/
def newAnteHandler (signer : Signer T) (checks : MonoChecks T) (rest : Tx T → Option String)
    (tx : Tx T) : Option String :=
  match tx.extensionOptions with
  | some (typeURL :: _) =>
    if typeURL = extensionOptionsEthereumTx then monoAnteHandle signer checks tx
    else if typeURL = extensionOptionsDynamicFeeTx then cosmosAnteHandler rest tx
    else some ("rejecting tx with unsupported extension option: " ++ typeURL ++
      ": unknown extension options")
  | _ => cosmosAnteHandler rest tx

/-! ## What is accepted -/

theorem not_ethereum_of_rejectMessages (h : rejectMessages msgs = none) (msg : MsgEthereumTx T) :
    .ethereum msg ∉ msgs := by
  induction msgs with
  | nil => exact not_mem_nil
  | cons m rest ih =>
    cases m with
    | ethereum msg' => cases h
    | _ =>
      intro hmem
      rcases mem_cons.mp hmem with heq | hmem
      · cases heq
      · exact ih h hmem

/-! ## Nested messages

The level of a message is not its depth: it counts the `MsgExec` messages around it and also
those that stand before it or before one of these. -/

/-- A message of a list stands inside `n` `MsgExec` messages. -/
inductive Nested (m : Msg T) : Nat → List (Msg T) → Prop
  | here {rest} : Nested m 0 (m :: rest)
  | inner {n inner rest} : Nested m n inner → Nested m (n + 1) (.exec inner :: rest)
  | later {n m' rest} : Nested m n rest → Nested m n (m' :: rest)

/-- A `MsgExec` of a list is the `n`-th one on the way to it. -/
inductive Counted : Nat → List (Msg T) → Prop
  | here {inner rest} : Counted 1 (.exec inner :: rest)
  | inner {n inner rest} : Counted n inner → Counted (n + 1) (.exec inner :: rest)
  | later {n m rest} : Counted n rest → Counted (nextLevel n m) (m :: rest)

/-- The messages that are not refused for what they are. -/
def Permitted (disabled : List String) (isInner : Prop) : Msg T → Prop
  | .exec _ => True
  | .brokenExec _ => False
  | .grant authorization => ∃ url, authorization = .ok url ∧ url ∉ disabled
  | m => isInner → m.typeURL ∉ disabled

/-- What `checkDisabledMsgs` asks of a list. -/
structure Allowed (disabled : List String) (isInner : Prop) (nestedLvl : Nat)
    (msgs : List (Msg T)) : Prop where
  permitted : ∀ n m, Nested m n msgs → Permitted disabled (isInner ∨ 0 < n) m
  counted : ∀ n, Counted n msgs → nestedLvl + n < maxNestedMsgs

section

variable {disabled : List String} {isInner : Prop} {nestedLvl n : Nat}
variable {m m' : Msg T} {rest inner : List (Msg T)}

theorem nested_of_mem (hmem : m' ∈ msgs) (h : Nested m n [m']) : Nested m n msgs := by
  induction msgs with
  | nil => cases hmem
  | cons m₁ rest ih =>
    rcases mem_cons.mp hmem with rfl | hmem
    · rcases h with _ | h | ⟨⟨⟩⟩
      · exact .here
      · exact .inner h
    · exact .later (ih hmem)

theorem nested_of_inside (hin : m.Inside m') (hmem : m' ∈ msgs) : ∃ n, Nested m (n + 1) msgs := by
  induction hin generalizing msgs with
  | child hchild => exact ⟨0, nested_of_mem hmem (.inner (nested_of_mem hchild .here))⟩
  | deeper hchild _ ih =>
    obtain ⟨n, hn⟩ := ih hchild
    exact ⟨n + 1, nested_of_mem hmem (.inner hn)⟩

theorem nested_of_occurs (h : m.Occurs msgs) : ∃ n, Nested m n msgs := by
  rcases h with hmem | ⟨m', hmem, hin⟩
  · exact ⟨0, nested_of_mem hmem .here⟩
  · obtain ⟨n, hn⟩ := nested_of_inside hin hmem
    exact ⟨n + 1, hn⟩

/-- Every disabled type is refused inside a `MsgExec` but those of `authz` itself. -/
theorem typeURL_of_permitted (hexec : msgExecURL ∉ disabled) (hgrant : msgGrantURL ∉ disabled)
    (h : Permitted disabled isInner m) (hinner : isInner) : m.typeURL ∉ disabled := by
  cases m with
  | exec msgs | brokenExec err => exact hexec
  | grant authorization => exact hgrant
  | ethereum msg | other url => exact h hinner

theorem allowed_cons : Allowed disabled isInner nestedLvl (m :: rest) ↔
    Allowed disabled isInner nestedLvl [m] ∧
      Allowed disabled isInner (nextLevel nestedLvl m) rest := by
  have hlevel : ∀ n, nestedLvl + nextLevel n m = nextLevel nestedLvl m + n := by
    intro n
    cases m <;> simp only [nextLevel] <;> omega
  constructor
  · intro h
    refine ⟨⟨fun n m' hm => h.permitted n m' (nested_of_mem mem_cons_self hm), ?_⟩,
      fun n m' hm => h.permitted n m' (.later hm), fun n hn => hlevel n ▸ h.counted _ (.later hn)⟩
    rintro n (_ | hn | ⟨⟨⟩⟩)
    · exact h.counted _ .here
    · exact h.counted _ (.inner hn)
  · intro ⟨hhead, hrest⟩
    constructor
    · rintro n m' (_ | hm | hm)
      · exact hhead.permitted _ _ .here
      · exact hhead.permitted _ _ (.inner hm)
      · exact hrest.permitted _ _ hm
    · rintro n (_ | hn | hn)
      · exact hhead.counted _ .here
      · exact hhead.counted _ (.inner hn)
      · exact (hlevel _).symm ▸ hrest.counted _ hn

theorem allowed_exec : Allowed disabled isInner nestedLvl [.exec inner] ↔
    nestedLvl + 1 < maxNestedMsgs ∧ Allowed disabled True (nestedLvl + 1) inner := by
  constructor
  · intro h
    refine ⟨h.counted 1 .here, fun n m hm => ?_, fun n hn => ?_⟩
    · simpa using h.permitted _ _ (.inner hm)
    · have := h.counted _ (.inner hn)
      omega
  · intro ⟨hlvl, h⟩
    constructor
    · rintro n m (_ | hm | ⟨⟨⟩⟩)
      · trivial
      · simpa using h.permitted _ _ hm
    · rintro n (_ | hn | ⟨⟨⟩⟩)
      · exact hlvl
      · have := h.counted _ hn
        omega

theorem allowed_other (hm : ∀ inner, m ≠ .exec inner) :
    Allowed disabled isInner nestedLvl [m] ↔ Permitted disabled isInner m := by
  constructor
  · intro h
    simpa using h.permitted 0 m .here
  · intro h
    constructor
    · rintro n m' (_ | hm' | ⟨⟨⟩⟩)
      · simpa using h
      · exact absurd rfl (hm _)
    · rintro n (_ | hn | ⟨⟨⟩⟩)
      · exact absurd rfl (hm _)
      · exact absurd rfl (hm _)

end

section

variable (disabled : List String)

mutual
theorem checkMsg_eq_none_iff (isAuthzInnerMsg : Bool) (nestedLvl : Nat) : ∀ m : Msg T,
    checkMsg disabled isAuthzInnerMsg nestedLvl m = none ↔
      Allowed disabled isAuthzInnerMsg nestedLvl [m]
  | .exec inner => by
    rw [allowed_exec, checkMsg, ← Bool.coe_true, ← checkMsgs_eq_none_iff true _ inner]
    split <;> simp <;> omega
  | .brokenExec err => by simp [allowed_other, checkMsg, Permitted]
  | .grant (.error err) => by simp [allowed_other, checkMsg, Permitted]
  | .grant (.ok url) => by simp [allowed_other, checkMsg, Permitted]
  | .ethereum msg => by simp [allowed_other, checkMsg, Permitted, Msg.typeURL]
  | .other url => by simp [allowed_other, checkMsg, Permitted, Msg.typeURL]

theorem checkMsgs_eq_none_iff (isAuthzInnerMsg : Bool) (nestedLvl : Nat) : ∀ msgs : List (Msg T),
    checkMsgs disabled isAuthzInnerMsg nestedLvl msgs = none ↔
      Allowed disabled isAuthzInnerMsg nestedLvl msgs
  | [] => by
    simp only [checkMsgs, true_iff]
    exact ⟨nofun, nofun⟩
  | m :: rest => by
    rw [allowed_cons, checkMsgs, or_eq_none_iff, checkMsg_eq_none_iff isAuthzInnerMsg nestedLvl m,
      checkMsgs_eq_none_iff isAuthzInnerMsg _ rest]
end

end

/-- A `MsgExec` inside `n` others is at least the one after them on the way to it. -/
theorem counted_of_nested {n : Nat} {inner : List (Msg T)} (h : Nested (.exec inner) n msgs) :
    ∃ k, n < k ∧ Counted k msgs := by
  induction h with
  | here => exact ⟨1, Nat.one_pos, .here⟩
  | inner _ ih =>
    obtain ⟨k, hk, hcounted⟩ := ih
    exact ⟨k + 1, by omega, .inner hcounted⟩
  | @later _ m' _ _ ih =>
    obtain ⟨k, hk, hcounted⟩ := ih
    have hnext : k ≤ nextLevel k m' := by cases m' <;> simp [nextLevel]
    exact ⟨_, hk.trans_le hnext, .later hcounted⟩

/-- What the two decorators let through, with the types that are disabled. -/
theorem decorators_accept (hreject : rejectMessages msgs = none)
    (hlimit : limitAuthz disabledMsgTypes msgs = none) :
    (∀ msg, .ethereum msg ∉ msgs) ∧
      (∀ m m' : Msg T, m' ∈ msgs → m.Inside m' → m.typeURL ∉ disabledMsgTypes) ∧
      ∀ url, (Msg.grant (.ok url)).Occurs msgs → url ∉ disabledMsgTypes := by
  have h := (checkMsgs_eq_none_iff disabledMsgTypes false 1 msgs).mp (map_eq_none_iff.mp hlimit)
  refine ⟨not_ethereum_of_rejectMessages hreject, fun m m' hmem hin => ?_, fun url hocc => ?_⟩
  · obtain ⟨n, hn⟩ := nested_of_inside hin hmem
    exact typeURL_of_permitted (by decide) (by decide) (h.permitted _ m hn) (.inr n.succ_pos)
  · obtain ⟨n, hn⟩ := nested_of_occurs hocc
    obtain ⟨_, ⟨⟩, hurl⟩ := h.permitted n _ hn
    exact hurl

/-- The check accepts a list exactly if what it holds is permitted and no `MsgExec` is the sixth
or a later one on the way to it. One inside more than four others is always refused. -/
theorem checkMsgs_nesting (disabled : List String) (msgs : List (Msg T)) :
    (checkMsgs disabled false 1 msgs = none ↔
      (∀ n m, Nested m n msgs → Permitted disabled (0 < n) m) ∧
        ∀ n, Counted n msgs → n + 1 < maxNestedMsgs) ∧
      ∀ n m, Nested m n msgs → m.typeURL = msgExecURL → maxNestedMsgs - 3 < n →
        checkMsgs disabled false 1 msgs ≠ none := by
  have hiff := checkMsgs_eq_none_iff disabled false 1 msgs
  constructor
  · rw [hiff]
    constructor
    · intro h
      exact ⟨by simpa using h.permitted, fun n hn => by have := h.counted n hn; omega⟩
    · intro ⟨hpermitted, hcounted⟩
      exact ⟨by simpa using hpermitted, fun n hn => by have := hcounted n hn; omega⟩
  · intro n m hnested hexec hn hnone
    have h := hiff.mp hnone
    cases m with
    | exec inner =>
      obtain ⟨k, hk, hcounted⟩ := counted_of_nested hnested
      have := h.counted k hcounted
      omega
    | brokenExec err => exact h.permitted n _ hnested
    | other url => exact url.2 (mem_cons.mpr (.inl hexec))
    | grant authorization => exact absurd hexec (by decide : msgGrantURL ≠ msgExecURL)
    | ethereum msg => exact absurd hexec (by decide : msgEthereumTxURL ≠ msgExecURL)

/-- Six empty `MsgExec` messages side by side are refused as nested too deep. -/
theorem checkMsgs_six_siblings :
    (∀ n m, Nested m n (replicate 6 (.exec [] : Msg Unit)) → n = 0 ∧ m = .exec []) ∧
      checkMsgs disabledMsgTypes false 1 (replicate 6 (.exec [] : Msg Unit)) =
        some "found more nested msgs than permitted; got: 7, expected: <7" := by
  have hflat : ∀ k n m, Nested m n (replicate k (.exec [] : Msg Unit)) → n = 0 ∧ m = .exec [] := by
    intro k
    induction k with
    | zero => nofun
    | succ k ih =>
      rintro n m (_ | ⟨⟨⟩⟩ | h)
      · exact ⟨rfl, rfl⟩
      · exact ih n m h
  exact ⟨hflat 6, by decide⟩

/-- An accepted Ethereum transaction is one message whose sender has signed it. -/
theorem monoAnteHandle_accepts {signer : Signer T} {checks : MonoChecks T} {tx : Tx T}
    (h : monoAnteHandle signer checks tx = none) :
    ∃ msg recovered, tx.msgs = [.ethereum msg] ∧ signer.sender msg.raw = .ok recovered ∧
      msg.sender = addressBytes recovered := by
  simp only [monoAnteHandle, or_eq_none_iff] at h
  obtain ⟨-, -, -, h⟩ := h
  split at h
  · rename_i msg hmsgs
    simp only [or_eq_none_iff, map_eq_none_iff] at h
    obtain ⟨-, -, -, hverify, -⟩ := h
    unfold MsgEthereumTx.verifySender at hverify
    split at hverify
    · cases hverify
    · rename_i recovered hrecovered
      split at hverify
      · cases hverify
      · rename_i hsender
        exact ⟨msg, recovered, hmsgs, hrecovered, not_not.mp hsender⟩
  · cases h
  · cases h

/-- No Ethereum message gets around the Ethereum ante handler, neither at the top level nor
inside `authz` messages, and that handler accepts only messages whose sender is verified. -/
theorem ethereum_messages_authenticated (signer : Signer T) (checks : MonoChecks T)
    (rest : Tx T → Option String) :
    (∀ msgs : List (Msg T), rejectMessages msgs = none →
      limitAuthz disabledMsgTypes msgs = none →
      (∀ msg, .ethereum msg ∉ msgs) ∧
        (∀ m m' : Msg T, m' ∈ msgs → m.Inside m' → m.typeURL ∉ disabledMsgTypes) ∧
        ∀ url, (Msg.grant (.ok url)).Occurs msgs → url ∉ disabledMsgTypes) ∧
    ∀ tx : Tx T, newAnteHandler signer checks rest tx = none →
      if tx.extensionOptions.bind head? = some extensionOptionsEthereumTx then
        ∃ msg recovered, tx.msgs = [.ethereum msg] ∧ signer.sender msg.raw = .ok recovered ∧
          msg.sender = addressBytes recovered
      else rejectMessages tx.msgs = none ∧ limitAuthz disabledMsgTypes tx.msgs = none := by
  have hcosmos : ∀ tx : Tx T, cosmosAnteHandler rest tx = none →
      rejectMessages tx.msgs = none ∧ limitAuthz disabledMsgTypes tx.msgs = none := by
    intro tx h
    simp only [cosmosAnteHandler, or_eq_none_iff] at h
    exact ⟨h.1, h.2.1⟩
  refine ⟨fun msgs hreject hlimit => decorators_accept hreject hlimit, fun tx h => ?_⟩
  unfold newAnteHandler at h
  split at h
  · rename_i typeURL options hoptions
    simp only [hoptions, bind_some, head?_cons, some.injEq]
    split at h
    · rename_i heth
      rw [if_pos heth]
      exact monoAnteHandle_accepts h
    · rename_i heth
      rw [if_neg heth]
      split at h
      · exact hcosmos tx h
      · cases h
  · rename_i hoptions
    rw [if_neg]
    · exact hcosmos tx h
    · intro hfirst
      obtain ⟨options, hsome, hhead⟩ := bind_eq_some_iff.mp hfirst
      obtain ⟨tail, rfl⟩ := head?_eq_some_iff.mp hhead
      exact hoptions _ _ hsome

/-- A signer of transactions that name their sender. -/
def namingSigner : Signer Address where
  sender raw := .ok raw
  hexAddress _ := ""

/-- No other check fails. -/
def laxChecks : MonoChecks Address where
  isReCheckTx := false
  validateTx _ := none
  setupContext _ := none
  newMonoDecoratorUtils := none
  validateTransaction _ := none
  checkFees _ := none
  validateMsg _ := none
  checkAccount _ := none

/-- A grant and a nested `MsgExec` that are accepted, and an accepted Ethereum transaction. -/
theorem ethereum_messages_authenticated_accepted :
    newAnteHandler namingSigner laxChecks (fun _ => none)
      { msgs := [.exec [.exec [.grant (.ok "/cosmos.bank.v1beta1.MsgSend")]]]
        extensionOptions := none } = none ∧
    (∃ msg recovered, [Msg.ethereum ⟨addressBytes 7, (7 : Address)⟩] = [.ethereum msg] ∧
      namingSigner.sender msg.raw = .ok recovered ∧ msg.sender = addressBytes recovered) := by
  have haccepted : newAnteHandler namingSigner laxChecks (fun _ => none)
      { msgs := [.ethereum ⟨addressBytes 7, 7⟩]
        extensionOptions := some [extensionOptionsEthereumTx] } = none := by
    decide +kernel
  refine ⟨by decide +kernel, ?_⟩
  exact (ethereum_messages_authenticated namingSigner laxChecks fun _ => none).2 _ haccepted

end InfiniteEvm.Ante
