import InfiniteEvm.Erc20.Registry

/-!
# Genesis of `x/erc20`

What `InitGenesis` makes of what `Validate` accepts. The one compares addresses as
addresses, the other as texts. A pair that is refused ends an import without an error.
-/

namespace InfiniteEvm.Erc20

open Library Outcomes TokenPair List Function Store LastWrites

/-! ## Import -/

/-- The key under which an allowance is stored. -/
def Allowance.key (a : Allowance) : Bytes :=
  allowanceKey (hexToAddress a.erc20Address) (hexToAddress a.owner) (hexToAddress a.spender)

namespace Keeper

variable {k : Keeper} {s t : Store} {pairs : List TokenPair}

/-- All but the pairs and their maps is the same. -/
structure SameAside (s t : Store) : Prop where
  params : t.params = s.params
  allowances : t.allowances = s.allowances
  nativePrecompiles : t.nativePrecompiles = s.nativePrecompiles
  dynamicPrecompiles : t.dynamicPrecompiles = s.dynamicPrecompiles

theorem SameAside.trans {u : Store} (h : SameAside s t) (h' : SameAside t u) : SameAside s u where
  params := h'.params.trans h.params
  allowances := h'.allowances.trans h.allowances
  nativePrecompiles := h'.nativePrecompiles.trans h.nativePrecompiles
  dynamicPrecompiles := h'.dynamicPrecompiles.trans h.dynamicPrecompiles

variable {pair : TokenPair} {a : Allowance} {gs : GenesisState}

theorem setToken_of_fresh (hdenom : s.getDenomMap pair.denom = none)
    (hcontract : s.getERC20Map pair.getERC20Contract = none) :
    k.setToken s pair = .ok (((k.setTokenPair s pair).setDenomMap pair.denom
      (k.getID pair)).setERC20Map pair.getERC20Contract (k.getID pair)) := by
  simp [setToken, isDenomRegistered, isERC20Registered, hdenom, hcontract]

section

variable (hset : k.setToken s pair = .ok t)
include hset

/-- The maps of a new pair lead to it, and no other entry changes. -/
theorem getDenomMap_setToken {denom : String}
    (hne : denom ≠ pair.denom) : t.getDenomMap denom = s.getDenomMap denom := by
  obtain ⟨-, -, rfl⟩ := setToken_ok hset
  simp only [getDenomMap, setERC20Map, setDenomMap, setTokenPair, update_of_ne hne]

theorem getERC20Map_setToken {a : Address}
    (hne : a ≠ pair.getERC20Contract) : t.getERC20Map a = s.getERC20Map a := by
  obtain ⟨-, -, rfl⟩ := setToken_ok hset
  have hbytes : addressBytes a ≠ addressBytes pair.getERC20Contract :=
    fun heq => hne (addressBytes_inj heq)
  simp only [getERC20Map, setERC20Map, setDenomMap, setTokenPair, update_of_ne hbytes]

theorem pairs_setToken :
    t.pairs = update s.pairs (k.getID pair) (some pair) := by
  obtain ⟨-, -, rfl⟩ := setToken_ok hset
  rfl

theorem sameAside_setToken : SameAside s t := by
  obtain ⟨-, -, rfl⟩ := setToken_ok hset
  exact ⟨rfl, rfl, rfl, rfl⟩

end

/-- Pairs with distinct denoms and contracts are all stored. -/
theorem initPairs_all (hsum : k.CollisionFree) (hs : k.Linked s)
    (hhex : ∀ pair ∈ pairs, isHexAddress pair.erc20Address = true)
    (hfresh : ∀ pair ∈ pairs, s.getDenomMap pair.denom = none ∧
      s.getERC20Map pair.getERC20Contract = none) (hdenoms : (pairs.map denom).Nodup)
    (hcontracts : (pairs.map getERC20Contract).Nodup) :
    ∃ t, k.initPairs s pairs = (t, false) ∧ k.Linked t ∧ SameAside s t ∧
      ∀ id p, t.pairs id = some p ↔ p ∈ pairs ∧ id = k.getID p ∨ s.pairs id = some p := by
  induction pairs generalizing s with
  | nil => exact ⟨s, rfl, hs, ⟨rfl, rfl, rfl, rfl⟩, by simp⟩
  | cons pair rest ih =>
    obtain ⟨hdenom, hcontract⟩ := hfresh pair (mem_cons_self ..)
    have hpair := hhex pair (mem_cons_self ..)
    obtain ⟨u, hset⟩ : ∃ u, k.setToken s pair = .ok u := ⟨_, setToken_of_fresh hdenom hcontract⟩
    have hunused := hs.fresh hpair hsum hdenom
    obtain ⟨hname, hdenoms⟩ := nodup_cons.mp hdenoms
    obtain ⟨haddress, hcontracts⟩ := nodup_cons.mp hcontracts
    have hfresh' : ∀ p ∈ rest, u.getDenomMap p.denom = none ∧
        u.getERC20Map p.getERC20Contract = none := by
      intro p hp
      obtain ⟨hpdenom, hpcontract⟩ := hfresh p (mem_cons_of_mem _ hp)
      constructor
      · rw [getDenomMap_setToken hset fun heq => hname (mem_map.mpr ⟨p, hp, heq⟩), hpdenom]
      · rw [getERC20Map_setToken hset fun heq => haddress (mem_map.mpr ⟨p, hp, heq⟩), hpcontract]
    obtain ⟨t, hinit, hlinked, haside, hpairs⟩ := ih (setToken_linked hs hpair hsum hset)
      (fun p hp => hhex p (mem_cons_of_mem _ hp)) hfresh' hdenoms hcontracts
    refine ⟨t, ?_, hlinked, (sameAside_setToken hset).trans haside, fun id p => ?_⟩
    · simp only [initPairs, hset, hinit]
    · rw [hpairs, pairs_setToken hset, update_apply, mem_cons]
      by_cases hid : id = k.getID pair
      · rw [if_pos hid, hid, hunused]
        constructor
        · rintro (⟨hp, heq⟩ | heq)
          · exact .inl ⟨.inr hp, heq⟩
          · cases heq
            exact .inl ⟨.inl rfl, rfl⟩
        · rintro (⟨rfl | hp, heq⟩ | heq)
          · exact .inr rfl
          · exact .inl ⟨hp, heq⟩
          · cases heq
      · rw [if_neg hid]
        constructor
        · exact Or.imp_left fun h => ⟨.inr h.1, h.2⟩
        · rintro (⟨rfl | hp, heq⟩ | hstored)
          · exact absurd heq hid
          · exact .inl ⟨hp, heq⟩
          · exact .inr hstored

/-- A member that is added is found, as in a longer list. -/
theorem update_or_any (set : String → Bool) (f : String → String) (text : String)
    (rest : List String) :
    (fun x => update set (f text) true x || rest.any fun text => f text = x) =
      fun x => set x || (text :: rest).any fun text => f text = x := by
  funext x
  by_cases hx : x = f text
  · simp [hx]
  · simp [hx, Ne.symm hx]

/-- A loop that accepts exactly the good items. -/
theorem initAll_eq_ok {α : Type} {f : Store → α → Except String Store} {message : String}
    (P : Store → Prop) {good : α → Prop} {g : Store → α → Store} {items : List α}
    (hf : ∀ a ∈ items, ∀ s, P s → ∀ t, f s a = .ok t ↔ good a ∧ t = g s a)
    (hg : ∀ s a, P s → P (g s a)) (hs : P s) :
    initAll f message s items = .ok t ↔ (∀ a ∈ items, good a) ∧ t = items.foldl g s := by
  induction items generalizing s with
  | nil => simp [initAll, eq_comm]
  | cons a rest ih =>
    have hfirst := hf a (mem_cons_self ..) s hs
    have hrest := ih (fun b hb => hf b (mem_cons_of_mem _ hb)) (hg s a hs)
    rw [forall_mem_cons, foldl_cons, initAll]
    cases hstep : f s a with
    | error err =>
      have hbad : ¬ good a := by
        intro hgood
        have hok := (hfirst (g s a)).mpr ⟨hgood, rfl⟩
        rw [hstep] at hok
        cases hok
      simp [hbad]
    | ok u =>
      obtain ⟨hgood, rfl⟩ := (hfirst u).mp hstep
      rw [hrest]
      simp [hgood]

/-- Precompiles are enabled one after the other in the set that `get` reads and `put` writes. -/
theorem initAll_precompiles (enable : Option String → Store → Address → Except String Store)
    (register : Address → Option String) {get : Store → String → Bool}
    (put : Store → (String → Bool) → Store) (hfails : ∀ err s a, enable (some err) s a = .error err)
    (henable : ∀ s a, enable none s a = .ok (put s (update (get s) (k.addressString a) true)))
    (hput : ∀ s set, get (put s set) = set ∧ ∀ set', put (put s set) set' = put s set')
    (hsame : ∀ s, put s (get s) = s) (texts : List String) (message : String) (s t : Store) :
    initAll (fun s text => enable (register (hexToAddress text)) s (hexToAddress text)) message s
        texts = .ok t ↔
      (∀ text ∈ texts, register (hexToAddress text) = none) ∧
        t = put s fun x => get s x ||
          texts.any fun text => k.addressString (hexToAddress text) = x := by
  have hstep : ∀ s text t, enable (register (hexToAddress text)) s (hexToAddress text) = .ok t ↔
      register (hexToAddress text) = none ∧
        t = put s (update (get s) (k.addressString (hexToAddress text)) true) := by
    intro s text t
    cases register (hexToAddress text) <;> simp [hfails, henable, eq_comm]
  rw [initAll_eq_ok (fun _ => True) (fun text _ s _ t => hstep s text t) (fun _ _ _ => trivial)
    trivial]
  suffices hfold : ∀ s, texts.foldl (fun s text =>
      put s (update (get s) (k.addressString (hexToAddress text)) true)) s =
      put s fun x => get s x || texts.any fun text => k.addressString (hexToAddress text) = x by
    rw [hfold]
  induction texts with
  | nil => simpa using fun s => (hsame s).symm
  | cons text rest ih =>
    intro s
    rw [foldl_cons, ih, (hput _ _).1, (hput _ _).2]
    exact congrArg (put s) (update_or_any _ (fun text => k.addressString (hexToAddress text)) _ _)

/-- An allowance of a genesis file as it is stored. -/
def stored (k : Keeper) (a : Allowance) : Allowance :=
  k.newAllowance (hexToAddress a.erc20Address) (hexToAddress a.owner) (hexToAddress a.spender)
    a.value

theorem foldl_writeAllowance (allowances : List Allowance) (s : Store) :
    allowances.foldl (fun s a => s.writeAllowance a.key (some (k.stored a))) s =
      { s with
        allowances := fun key => ((lastWrite Allowance.key allowances key).map
          k.stored).or (s.allowances key) } := by
  have hfields : ∀ (items : List Allowance) (s : Store),
      items.foldl (fun s a => s.writeAllowance a.key (some (k.stored a))) s =
        { s with
          allowances := (items.foldl (fun s a =>
            s.writeAllowance a.key (some (k.stored a))) s).allowances } := by
    intro items
    induction items with
    | nil => exact fun _ => rfl
    | cons a rest ih =>
      intro s
      rw [foldl_cons, ih]
      rfl
  rw [hfields]
  congr 1
  funext key
  refine read_foldl (fun s key => s.allowances key) (fun s a key => ?_) allowances s key
  simp only [writeAllowance, update_apply, eq_comm (a := key)]

/-- The store of the module has the pair of an allowance. -/
def HasPair (s : Store) (a : Allowance) : Prop :=
  s.getTokenPair (s.getERC20Map (hexToAddress a.erc20Address)) ≠ none

/-- `UnsafeSetAllowance` accepts the allowance. -/
def Settable (a : Allowance) : Prop :=
  hexToAddress a.owner ≠ 0 ∧ hexToAddress a.spender ≠ 0 ∧ a.value < 2 ^ 256

theorem unsafeSetAllowance_eq_ok (hpair : HasPair s a) (hvalue : 0 < a.value) :
    k.unsafeSetAllowance s (hexToAddress a.erc20Address) (hexToAddress a.owner)
        (hexToAddress a.spender) a.value = .ok t ↔
      Settable a ∧ t = s.writeAllowance a.key (some (k.stored a)) := by
  obtain ⟨pair, hpair⟩ := Option.ne_none_iff_exists'.mp hpair
  have hstored : k.storedAllowance (hexToAddress a.erc20Address) (hexToAddress a.owner)
      (hexToAddress a.spender) a.value = some (k.stored a) := if_neg hvalue.ne'
  simp only [unsafeSetAllowance, setAllowanceOf, hpair, hstored, Settable, Bool.not_true,
    Bool.false_and, Bool.false_eq_true, if_false, not_lt.mpr hvalue.le]
  split_ifs with howner hspender hlarge
  · simp [howner]
  · simp [hspender]
  · refine iff_of_false (by simp) ?_
    rintro ⟨⟨-, -, hlt⟩, -⟩
    exact absurd hlarge (not_le.mpr hlt)
  · simp only [Except.ok.injEq, not_le.mp hlarge, howner, hspender, not_false_eq_true, ne_eq,
      and_self, true_and]
    exact eq_comm

/-- The stores after the loops over the precompiles and the allowances. -/
def imported (k : Keeper) (gs : GenesisState) (s : Store) : Store :=
  { s with
    nativePrecompiles := fun x => s.nativePrecompiles x ||
      gs.nativePrecompiles.any fun text => k.addressString (hexToAddress text) = x
    dynamicPrecompiles := fun x => s.dynamicPrecompiles x ||
      gs.dynamicPrecompiles.any fun text => k.addressString (hexToAddress text) = x
    allowances := fun key => ((lastWrite Allowance.key gs.allowances key).map
      k.stored).or (s.allowances key) }

/-- The rest of the chain and the stores accept all that follows the pairs. -/
structure Accepts (registerCodeHash : PrecompileType → Address → Option String)
    (gs : GenesisState) : Prop where
  native : ∀ text ∈ gs.nativePrecompiles, registerCodeHash .native (hexToAddress text) = none
  dynamic : ∀ text ∈ gs.dynamicPrecompiles, registerCodeHash .dynamic (hexToAddress text) = none
  allowances : ∀ a ∈ gs.allowances, Settable a

theorem initGenesis_eq_ok {registerCodeHash : PrecompileType → Address → Option String}
    (hpairs : k.initPairs (emptyStore gs.params) gs.tokenPairs = (s, false))
    (hallowances : ∀ a ∈ gs.allowances, 0 < a.value ∧ HasPair s a) :
    k.initGenesis registerCodeHash gs = .ok t ↔
      Accepts registerCodeHash gs ∧ t = k.imported gs s := by
  have hnative := initAll_precompiles k.enableNativePrecompile (registerCodeHash .native)
    (fun s set => { s with nativePrecompiles := set }) (fun _ _ _ => rfl) (fun _ _ => rfl)
    (fun _ _ => ⟨rfl, fun _ => rfl⟩) (fun _ => rfl) gs.nativePrecompiles
  have hdynamic := initAll_precompiles k.enableDynamicPrecompile (registerCodeHash .dynamic)
    (fun s set => { s with dynamicPrecompiles := set }) (fun _ _ _ => rfl) (fun _ _ => rfl)
    (fun _ _ => ⟨rfl, fun _ => rfl⟩) (fun _ => rfl) gs.dynamicPrecompiles
  have hlast : ∀ u, (∀ a ∈ gs.allowances, HasPair u a) →
      (initAll (fun s a => k.unsafeSetAllowance s (hexToAddress a.erc20Address)
        (hexToAddress a.owner) (hexToAddress a.spender) a.value) "error setting allowance " u
        gs.allowances = .ok t ↔ (∀ a ∈ gs.allowances, Settable a) ∧
          t = gs.allowances.foldl (fun s a => s.writeAllowance a.key (some (k.stored a))) u) := by
    intro u hu
    refine initAll_eq_ok (fun s => ∀ a ∈ gs.allowances, HasPair s a) (fun a hmem s hs t => ?_)
      (fun _ _ hs => hs) hu
    exact unsafeSetAllowance_eq_ok (hs a hmem) (hallowances a hmem).1
  simp only [initGenesis, hpairs, bind_eq_ok]
  constructor
  · rintro ⟨u, hu, v, hv, hrest⟩
    obtain ⟨hnatives, rfl⟩ := (hnative _ s u).mp hu
    obtain ⟨hdynamics, rfl⟩ := (hdynamic _ _ v).mp hv
    obtain ⟨hsettable, rfl⟩ := (hlast _ (by exact fun a hmem => (hallowances a hmem).2)).mp hrest
    exact ⟨⟨hnatives, hdynamics, hsettable⟩, foldl_writeAllowance _ _⟩
  · rintro ⟨⟨hnatives, hdynamics, hsettable⟩, rfl⟩
    refine ⟨_, (hnative _ _ _).mpr ⟨hnatives, rfl⟩, _, (hdynamic _ _ _).mpr ⟨hdynamics, rfl⟩, ?_⟩
    refine (hlast _ (by exact fun a hmem => (hallowances a hmem).2)).mpr ⟨hsettable, ?_⟩
    rw [foldl_writeAllowance]
    rfl

/-! ## What an import registers -/

/-- All that a genesis file lists is in the stores. -/
structure Registers (k : Keeper) (gs : GenesisState) (s : Store) : Prop where
  params : s.params = gs.params
  pairs : ∀ pair ∈ gs.tokenPairs, s.pairs (k.getID pair) = some pair ∧
    s.getDenomMap pair.denom = some (k.getID pair) ∧
    s.getERC20Map pair.getERC20Contract = some (k.getID pair)
  native : ∀ text ∈ gs.nativePrecompiles,
    s.nativePrecompiles (k.addressString (hexToAddress text)) = true
  dynamic : ∀ text ∈ gs.dynamicPrecompiles,
    s.dynamicPrecompiles (k.addressString (hexToAddress text)) = true
  allowances : ∀ a ∈ gs.allowances, s.getAllowance (hexToAddress a.erc20Address)
    (hexToAddress a.owner) (hexToAddress a.spender) = a.value

/-- No contract is written in two ways, all is accepted, and no allowance is given twice with
different values. -/
structure Importable (registerCodeHash : PrecompileType → Address → Option String)
    (gs : GenesisState) : Prop extends Accepts registerCodeHash gs where
  contracts : ∀ pair ∈ gs.tokenPairs, ∀ pair' ∈ gs.tokenPairs,
    pair.getERC20Contract = pair'.getERC20Contract → pair.erc20Address = pair'.erc20Address
  values : ∀ a ∈ gs.allowances, ∀ b ∈ gs.allowances, a.key = b.key → a.value = b.value

theorem pos_of_validate (h : a.validate = none) : 0 < a.value := by
  simp only [Allowance.validate] at h
  split_ifs at h with _ _ _ hvalue
  exact not_le.mp hvalue

/-- From the empty stores, the pairs that are stored are those of the list. -/
theorem initPairs_emptyStore (hsum : k.CollisionFree) (params : Params)
    (hhex : ∀ pair ∈ pairs, isHexAddress pair.erc20Address = true)
    (hdenoms : (pairs.map denom).Nodup) (hcontracts : (pairs.map getERC20Contract).Nodup) :
    ∃ t, k.initPairs (emptyStore params) pairs = (t, false) ∧ k.Linked t ∧
      SameAside (emptyStore params) t ∧
      ∀ id p, t.pairs id = some p ↔ p ∈ pairs ∧ id = k.getID p := by
  obtain ⟨t, hinit, hlinked, haside, hpairs⟩ := initPairs_all hsum (linked_emptyStore params) hhex
    (fun _ _ => ⟨rfl, rfl⟩) hdenoms hcontracts
  refine ⟨t, hinit, hlinked, haside, fun id p => (hpairs id p).trans ?_⟩
  exact or_iff_left nofun

theorem Linked.hasPair {id : Bytes} (hs : k.Linked s) (hpair : s.pairs id = some pair)
    (hcontract : pair.getERC20Contract = hexToAddress a.erc20Address) : HasPair s a := by
  rw [HasPair, ← hcontract, hs.erc20 hpair, getTokenPair, Option.bind_some, hpair]
  exact Option.some_ne_none _

/-- The pairs of a valid genesis are stored if no contract is written in two ways. -/
theorem initPairs_valid (hsum : k.CollisionFree) (hvalid : gs.Valid)
    (hcontracts : ∀ pair ∈ gs.tokenPairs, ∀ pair' ∈ gs.tokenPairs,
      pair.getERC20Contract = pair'.getERC20Contract → pair.erc20Address = pair'.erc20Address) :
    ∃ t, k.initPairs (emptyStore gs.params) gs.tokenPairs = (t, false) ∧ k.Linked t ∧
      SameAside (emptyStore gs.params) t ∧
      (∀ id p, t.pairs id = some p ↔ p ∈ gs.tokenPairs ∧ id = k.getID p) ∧
      ∀ a ∈ gs.allowances, 0 < a.value ∧ HasPair t a := by
  have hdistinct : (gs.tokenPairs.map getERC20Contract).Nodup := by
    refine Nodup.map_on (fun p hp q hq heq => ?_) hvalid.contracts.of_map
    exact inj_on_of_nodup_map hvalid.contracts hp hq (hcontracts p hp q hq heq)
  obtain ⟨t, hinit, hlinked, haside, hpairs⟩ := initPairs_emptyStore hsum gs.params
    (fun p hp => isHex_of_validate_pair (hvalid.pairs p hp)) hvalid.denoms hdistinct
  refine ⟨t, hinit, hlinked, haside, hpairs, fun a ha => ?_⟩
  obtain ⟨hcheck, pair, hmem, htext⟩ := hvalid.allowances a ha
  have hstored := (hpairs _ pair).mpr ⟨hmem, rfl⟩
  exact ⟨pos_of_validate hcheck, hlinked.hasPair hstored (congrArg hexToAddress htext)⟩

/-- A valid genesis is registered in full exactly if it is importable. -/
theorem exists_registers_iff (hsum : k.CollisionFree) (hvalid : gs.validate = none)
    (registerCodeHash : PrecompileType → Address → Option String) :
    (∃ store, k.initGenesis registerCodeHash gs = .ok store ∧ k.Registers gs store) ↔
      Importable registerCodeHash gs := by
  have hv := GenesisState.validate_eq_none.mp hvalid
  constructor
  · rintro ⟨store, hinit, hreg⟩
    have hcontracts : ∀ pair ∈ gs.tokenPairs, ∀ pair' ∈ gs.tokenPairs,
        pair.getERC20Contract = pair'.getERC20Contract →
          pair.erc20Address = pair'.erc20Address := by
      intro p hp q hq heq
      have hid := (hreg.pairs p hp).2.2
      rw [heq, (hreg.pairs q hq).2.2] at hid
      exact (getID_inj hsum (isHex_of_validate_pair (hv.pairs p hp))
        (isHex_of_validate_pair (hv.pairs q hq)) (Option.some.inj hid).symm).1
    obtain ⟨s, hpairs, -, -, -, hallowances⟩ := initPairs_valid hsum hv hcontracts
    obtain ⟨haccepts, -⟩ := (initGenesis_eq_ok hpairs hallowances).mp hinit
    refine ⟨haccepts, hcontracts, fun a ha b hb hkey => ?_⟩
    obtain ⟨herc20, howner, hspender⟩ := allowanceKey_inj hkey
    rw [← hreg.allowances a ha, ← hreg.allowances b hb, herc20, howner, hspender]
  · intro h
    obtain ⟨s, hpairs, hlinked, haside, hstored, hallowances⟩ := initPairs_valid hsum hv h.contracts
    refine ⟨_, (initGenesis_eq_ok hpairs hallowances).mpr ⟨h.toAccepts, rfl⟩, ?_⟩
    refine ⟨haside.params, fun p hp => ?_, fun text htext => ?_, fun text htext => ?_,
      fun a ha => ?_⟩
    · have hp := (hstored _ p).mpr ⟨hp, rfl⟩
      exact ⟨hp, hlinked.denom hp, hlinked.erc20 hp⟩
    · refine Bool.or_eq_true_iff.mpr (.inr (any_eq_true.mpr ⟨text, htext, ?_⟩))
      exact decide_eq_true rfl
    · refine Bool.or_eq_true_iff.mpr (.inr (any_eq_true.mpr ⟨text, htext, ?_⟩))
      exact decide_eq_true rfl
    · obtain ⟨b, hb⟩ : ∃ b, lastWrite Allowance.key gs.allowances a.key = some b :=
        exists_lastWrite ha
      obtain ⟨hmem, hkey⟩ := mem_of_lastWrite hb
      have hread : (k.imported gs s).allowances a.key = some (k.stored b) := by
        simp only [imported, hb, Option.map_some, Option.some_or]
      simp only [getAllowance, Allowance.key] at hread ⊢
      rw [hread]
      exact h.values b hmem a ha hkey

end Keeper

end InfiniteEvm.Erc20
