import InfiniteEvm.VM.KeeperLedger

/-!
# The parameters of `x/vm`

`x/vm/types/params.go` and `x/vm/keeper/params.go`: what a change of the parameters has to
pass, and how they are stored.
-/

namespace InfiniteEvm.VM

open Library SnapshotMulti

/-- `AccessType`, which may be a number without a name. -/
inductive AccessType
  | permissionless
  | restricted
  | permissioned
  | other (n : Int)
  deriving DecidableEq

structure AccessControlType where
  accessType : AccessType
  accessControlList : List String
  deriving DecidableEq

structure AccessControl where
  create : AccessControlType
  call : AccessControlType
  deriving DecidableEq

/-- `Params`, without the denominations. -/
structure Params where
  extraEIPs : List Int
  activeStaticPrecompiles : List String
  accessControl : AccessControl
  evmChannels : List String
  historyServeWindow : BitVec 64
  deriving DecidableEq

/-- The parameters when none are stored. -/
def Params.zero : Params where
  extraEIPs := []
  activeStaticPrecompiles := []
  accessControl := ⟨⟨.permissionless, []⟩, ⟨.permissionless, []⟩⟩
  evmChannels := []
  historyServeWindow := 0

/-- What other modules decide about single values. -/
structure ParamRules where
  validEip : Int → Bool
  activateableEips : String
  isHexAddress : String → Bool
  channelIdentifierValidator : String → Option String

namespace ParamRules

variable (rules : ParamRules)

/-- The loop of `validateEIPs` after `seen`. -/
def validateEIPs (seen : List Int) : List Int → Option String
  | [] => none
  | eip :: rest =>
    if !rules.validEip eip then
      some ("EIP " ++ toString eip ++ " is not activateable, valid EIPs are: " ++
        rules.activateableEips)
    else if eip ∈ seen then some ("found duplicate EIP: " ++ toString eip)
    else validateEIPs (eip :: seen) rest

/-- The loop of `ValidatePrecompiles` after `seen`. -/
def validatePrecompileLoop (seen : List String) : List String → Option String
  | [] => none
  | precompile :: rest =>
    if precompile ∈ seen then some ("duplicate precompile " ++ precompile)
    else if !rules.isHexAddress precompile then some ("invalid precompile " ++ precompile)
    else validatePrecompileLoop (precompile :: seen) rest

/-- `slices.IsSorted`. -/
def isSorted : List String → Bool
  | first :: second :: rest => !(decide (second < first)) && isSorted (second :: rest)
  | _ => true

/-- `ValidatePrecompiles`. -/
def validatePrecompiles (precompiles : List String) : Option String :=
  (rules.validatePrecompileLoop [] precompiles).or <|
    if isSorted precompiles then none
    else some ("precompiles need to be sorted: [" ++ " ".intercalate precompiles ++ "]")

/-- `validateAccessType`. -/
def validateAccessType : AccessType → Option String
  | .permissionless | .restricted | .permissioned => none
  | .other n => some ("invalid access type: " ++ toString n)

/-- `validateAllowlistAddresses`. -/
def validateAllowlistAddresses (addresses : List String) : Option String :=
  (addresses.find? fun address => !rules.isHexAddress address).map fun address =>
    "invalid whitelist address: " ++ address

/-- `AccessControlType.Validate`. -/
def validateAccess (act : AccessControlType) : Option String :=
  (validateAccessType act.accessType).or (rules.validateAllowlistAddresses act.accessControlList)

/-- `validateChannels`. -/
def validateChannels (channels : List String) : Option String :=
  (channels.findSome? rules.channelIdentifierValidator).map fun err =>
    err ++ ": invalid channel identifier"

/-- `Params.Validate`. It does not look at the window. -/
def validate (p : Params) : Option String :=
  (rules.validateEIPs [] p.extraEIPs).or <|
  (rules.validatePrecompiles p.activeStaticPrecompiles).or <|
  (rules.validateAccess p.accessControl.create).or <|
  (rules.validateAccess p.accessControl.call).or <|
  rules.validateChannels p.evmChannels

end ParamRules

/-- The encoding of the parameters. -/
structure ParamsCodec where
  marshal : Params → Except String Bytes
  /-- `MustUnmarshal`, which panics on bytes it cannot read. -/
  mustUnmarshal : Bytes → Option Params
  roundTrip : ∀ p bz, marshal p = .ok bz → mustUnmarshal bz = some p

def keyPrefixParams : Bytes := [3]

/-- `GetParams`. -/
def getParams (cdc : ParamsCodec) (r : Contents) : Option Params :=
  match storeGet r keyPrefixParams with
  | none => some .zero
  | some bz => cdc.mustUnmarshal bz

/-- `slices.Sort` of the active precompiles. -/
def Params.sortPrecompiles (p : Params) : Params :=
  { p with activeStaticPrecompiles := p.activeStaticPrecompiles.mergeSort (fun a b => a ≤ b) }

/-- `SetParams`. -/
def setParams (cdc : ParamsCodec) (rules : ParamRules) (p : Params) : Except String (List Write) :=
  match rules.validate p.sortPrecompiles with
  | some err => .error err
  | none => (cdc.marshal p.sortPrecompiles).map (storeSet keyPrefixParams)

theorem keyPrefixParams_ne (e : Entry) : e.key ≠ keyPrefixParams := by
  have hheads : ∀ {x y : UInt8} {l l' : Bytes}, x ≠ y → x :: l ≠ y :: l' :=
    fun hne heq => hne (List.cons.inj heq).1
  cases e <;> exact hheads (by decide)

/-- The parameters are not an account, code or a slot. -/
theorem entries_storeSet_params (r : Contents) (bz : Bytes) :
    entries (overwritten r (storeSet keyPrefixParams bz)) = entries r := by
  funext e
  have hne : keyPrefixParams ≠ e.key := (keyPrefixParams_ne e).symm
  simp [entries, storeGet, storeSet, overwritten, hne]

theorem setParams_ok {cdc : ParamsCodec} {rules : ParamRules} {p : Params} {ws : List Write}
    (h : setParams cdc rules p = .ok ws) : rules.validate p.sortPrecompiles = none ∧
      ∃ bz, cdc.marshal p.sortPrecompiles = .ok bz ∧ ws = storeSet keyPrefixParams bz := by
  unfold setParams at h
  split at h
  · cases h
  · rename_i hvalid
    obtain ⟨bz, hbz, hws⟩ := Outcomes.map_eq_ok.mp h
    exact ⟨hvalid, bz, hbz, hws.symm⟩

end InfiniteEvm.VM
