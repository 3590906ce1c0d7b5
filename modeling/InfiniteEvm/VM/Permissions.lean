import InfiniteEvm.VM.Genesis

/-!
# Permissions and active precompiles

The policy of `x/vm/types/permissions.go` and the keeper look for the checksummed text of an
address in the lists of the parameters, and the validation accepts every spelling. An address
that is written in another way is neither denied nor allowed, and can be listed twice.
-/

namespace InfiniteEvm.VM

open List Library LastWrites
open Erc20 (addressText isHexAddress hexToAddress hexToAddress_addressText)

section Policy

variable (upper : Address → Nat → Bool)

/-- `permissionlessCheckFn`. -/
def permissionlessCheckFn (addresses : List String) (signer caller : Address) : Bool :=
  !addresses.contains (addressText upper signer) && !addresses.contains (addressText upper caller)

/-- `permissionedCheckFn`. -/
def permissionedCheckFn (addresses : List String) (signer caller : Address) : Bool :=
  addresses.contains (addressText upper signer) || addresses.contains (addressText upper caller)

/-- The switch of `getCanCreateFn` and of `getCanCallFn`. -/
def AccessControlType.checkFn (act : AccessControlType) (signer caller : Address) : Bool :=
  match act.accessType with
  | .permissionless => permissionlessCheckFn upper act.accessControlList signer caller
  | .restricted => false
  | .permissioned => permissionedCheckFn upper act.accessControlList signer caller
  | .other _ => false

/-- `CanCreate` of the policy that was made for the signer. -/
def canCreate (ac : AccessControl) (signer caller : Address) : Bool :=
  ac.create.checkFn upper signer caller

/-- `CanCall` of the policy that was made for the signer. -/
def canCall (ac : AccessControl) (signer caller : Address) : Bool :=
  ac.call.checkFn upper signer caller

/-- `IsAvailableStaticPrecompile`. -/
def isAvailableStaticPrecompile (prague : List Address) (p : Params) (a : Address) : Bool :=
  p.activeStaticPrecompiles.contains (addressText upper a) || prague.contains a

/-- Both parameters are accepted, and their lists have the same addresses. -/
structure Respelled (rules : ParamRules) (p q : Params) : Prop where
  hex : rules.isHexAddress = isHexAddress
  accepted : rules.validate p = none ∧ rules.validate q = none
  createType : q.accessControl.create.accessType = p.accessControl.create.accessType
  callType : q.accessControl.call.accessType = p.accessControl.call.accessType
  create : (p.accessControl.create.accessControlList.map hexToAddress).Perm
    (q.accessControl.create.accessControlList.map hexToAddress)
  call : (p.accessControl.call.accessControlList.map hexToAddress).Perm
    (q.accessControl.call.accessControlList.map hexToAddress)
  precompiles : (p.activeStaticPrecompiles.map hexToAddress).Perm
    (q.activeStaticPrecompiles.map hexToAddress)

/-- An address of a deny list is refused as the signer and as the caller. -/
def AccessControlType.Refuses (act : AccessControlType) : Prop :=
  act.accessType = .permissionless → ∀ text ∈ act.accessControlList, ∀ other,
    act.checkFn upper (hexToAddress text) other = false ∧
      act.checkFn upper other (hexToAddress text) = false

/-- The answers do not depend on the spelling. -/
structure SpellingFree (prague : List Address) (p q : Params) : Prop where
  create : ∀ signer caller,
    canCreate upper p.accessControl signer caller = canCreate upper q.accessControl signer caller
  call : ∀ signer caller,
    canCall upper p.accessControl signer caller = canCall upper q.accessControl signer caller
  precompiles : ∀ a,
    isAvailableStaticPrecompile upper prague p a = isAvailableStaticPrecompile upper prague q a
  refused : p.accessControl.create.Refuses upper ∧ p.accessControl.call.Refuses upper
  once : (p.activeStaticPrecompiles.map hexToAddress).Nodup

/-- Every address of a list that is looked at is on it with its checksum. -/
def AccessControlType.Checksummed (act : AccessControlType) : Prop :=
  act.accessType = .permissionless ∨ act.accessType = .permissioned →
    ∀ text ∈ act.accessControlList, addressText upper (hexToAddress text) ∈ act.accessControlList

/-- The addresses are written with their checksums. A precompile of the fork is active in any
case, and is written in one way. -/
structure Checksummed (prague : List Address) (p : Params) : Prop where
  create : p.accessControl.create.Checksummed upper
  call : p.accessControl.call.Checksummed upper
  precompiles : ∀ text ∈ p.activeStaticPrecompiles, hexToAddress text ∉ prague →
    text = addressText upper (hexToAddress text)
  fork : ∀ text ∈ p.activeStaticPrecompiles, ∀ text' ∈ p.activeStaticPrecompiles,
    hexToAddress text ∈ prague → hexToAddress text' = hexToAddress text → text' = text

theorem mem_of_checksummed {texts : List String} {a : Address}
    (h : a ∈ texts.map hexToAddress → addressText upper a ∈ texts) :
    addressText upper a ∈ texts ↔ a ∈ texts.map hexToAddress :=
  ⟨fun hmem => mem_map.mpr ⟨_, hmem, hexToAddress_addressText upper a⟩, h⟩

theorem AccessControlType.Checksummed.mem_iff {upper} {act : AccessControlType}
    (h : act.Checksummed upper)
    (htype : act.accessType = .permissionless ∨ act.accessType = .permissioned) (a : Address) :
    addressText upper a ∈ act.accessControlList ↔ a ∈ act.accessControlList.map hexToAddress := by
  refine mem_of_checksummed upper fun hmem => ?_
  obtain ⟨text, htext, rfl⟩ := mem_map.mp hmem
  exact h htype text htext

theorem checkFn_iff {act act' : AccessControlType} (htype : act'.accessType = act.accessType)
    (hperm : (act.accessControlList.map hexToAddress).Perm
      (act'.accessControlList.map hexToAddress)) (h' : act'.Checksummed upper) :
    ((∀ signer caller, act.checkFn upper signer caller = act'.checkFn upper signer caller) ∧
      act.Refuses upper) ↔ act.Checksummed upper := by
  have hmem : act.accessType = .permissionless ∨ act.accessType = .permissioned → ∀ a,
      (addressText upper a ∈ act'.accessControlList ↔
        a ∈ act.accessControlList.map hexToAddress) := fun hact a => by
    rw [h'.mem_iff (htype ▸ hact), hperm.mem_iff]
  constructor
  · rintro ⟨hsame, hrefused⟩ hact text htext
    have hself := hsame (hexToAddress text) (hexToAddress text)
    have hlisted := (hmem hact _).mpr (mem_map_of_mem htext)
    unfold AccessControlType.checkFn at hself
    rw [htype] at hself
    rcases hact with hact | hact
    · simpa [hact, permissionlessCheckFn, hlisted] using hself
    · simpa [hact, permissionedCheckFn, hlisted] using hself
  · intro h
    unfold AccessControlType.Refuses AccessControlType.checkFn
    rw [htype]
    cases hact : act.accessType with
    | permissionless =>
      have hown := h.mem_iff (.inl hact)
      have hother := hmem (.inl hact)
      refine ⟨fun signer caller => ?_, fun _ text htext other => ?_⟩
      · simp only [permissionlessCheckFn, contains_eq_mem, hown, hother]
      · simp [permissionlessCheckFn, h (.inl hact) text htext]
    | restricted => simp
    | permissioned =>
      have hown := h.mem_iff (.inr hact)
      have hother := hmem (.inr hact)
      refine ⟨fun signer caller => ?_, by simp⟩
      simp only [permissionedCheckFn, contains_eq_mem, hown, hother]
    | other n => simp

theorem isAvailableStaticPrecompile_iff (prague : List Address) (p q : Params) :
    (∀ a, isAvailableStaticPrecompile upper prague p a =
      isAvailableStaticPrecompile upper prague q a) ↔
    ∀ a, a ∉ prague → (addressText upper a ∈ p.activeStaticPrecompiles ↔
      addressText upper a ∈ q.activeStaticPrecompiles) := by
  refine forall_congr' fun a => ?_
  rw [Bool.eq_iff_iff]
  simp only [isAvailableStaticPrecompile, Bool.or_eq_true, contains_iff_mem]
  tauto

theorem fresh_of_validatePrecompileLoop {rules : ParamRules} {seen texts : List String}
    (h : rules.validatePrecompileLoop seen texts = none) : Fresh id seen texts := by
  induction texts generalizing seen with
  | nil => exact fresh_nil seen
  | cons text rest ih =>
    unfold ParamRules.validatePrecompileLoop at h
    split_ifs at h with hnew
    exact fresh_cons.mpr ⟨hnew, ih h⟩

/-- Accepted precompiles are distinct texts. -/
theorem nodup_of_validate {rules : ParamRules} {p : Params} (h : rules.validate p = none) :
    p.activeStaticPrecompiles.Nodup := by
  simp only [ParamRules.validate, ParamRules.validatePrecompiles, Option.or_eq_none_iff] at h
  simpa using fresh_iff_nodup.mp (fresh_of_validatePrecompileLoop h.2.1.1)

variable {upper} in
theorem Checksummed.mem_iff {prague : List Address} {p : Params} (h : Checksummed upper prague p)
    {a : Address} (ha : a ∉ prague) : addressText upper a ∈ p.activeStaticPrecompiles ↔
      a ∈ p.activeStaticPrecompiles.map hexToAddress := by
  refine mem_of_checksummed upper fun hmem => ?_
  obtain ⟨text, htext, rfl⟩ := mem_map.mp hmem
  exact h.precompiles text htext ha ▸ htext

end Policy

/-! ## A deny list without the prefix -/

/-- Rules for parameters without EIPs and channels. -/
def plainRules : ParamRules where
  validEip _ := false
  activateableEips := ""
  isHexAddress := isHexAddress
  channelIdentifierValidator _ := none

/-- Addresses that may not create contracts. -/
def denying (texts : List String) : Params :=
  { Params.zero with accessControl := ⟨⟨.permissionless, texts⟩, ⟨.permissionless, []⟩⟩ }

/-- The address 0x800, which has no letters that a checksum could change. -/
def prefixed : String := "0x0000000000000000000000000000000000000800"
def bare : String := "0000000000000000000000000000000000000800"

/-- Two texts of one precompile are accepted. -/
example : hexToAddress bare = hexToAddress prefixed ∧ plainRules.validate
    { Params.zero with activeStaticPrecompiles := [bare, prefixed] } = none := by decide +kernel

end InfiniteEvm.VM
