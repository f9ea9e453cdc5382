import Mathlib.Data.List.Dedup
import EmvaultElements.Spend

/-!
# Migration inputs

The migration loop prepares the inputs of many wollets at once, with a
cache. Without the cache it computes, for every input, what that input's
own owner gives for it (`migrationInputs_eq`); so it agrees with
preparing the inputs of each owner separately and merging by outpoint.

Enriching a PSET is then one call for each input, with the descriptor of
its outpoint (`enrichInputs_eq`), in whatever order the builder put the
inputs: so each input gets the data of its own owner
(`buildMigrationPset_enriched`). A sweep is a migration of one wollet's
UTXOs (`buildSweepPset_eq`).
-/

namespace EmvaultElements

deriving instance DecidableEq for ElementsWollet

/-! ## What is prepared -/

namespace Prepared

variable {Definite : Type}

def ofList (l : List (ExternalUtxo × Definite)) : Prepared Definite := l.foldl push empty

theorem foldl_push (l : List (ExternalUtxo × Definite)) (p : Prepared Definite) :
    (l.foldl push p).external = p.external ++ l.map (·.1) ∧
      (l.foldl push p).enrich =
        (l.map fun i => (i.1.outpoint, i.2)).foldl (fun m kv => m.insert kv.1 kv.2) p.enrich := by
  induction l generalizing p with
  | nil => exact ⟨(List.append_nil _).symm, rfl⟩
  | cons input l ih =>
      obtain ⟨hexternal, henrich⟩ := ih (p.push input)
      refine ⟨?_, henrich⟩
      rw [List.foldl_cons, hexternal, push, List.append_assoc]
      rfl

theorem external_ofList (l : List (ExternalUtxo × Definite)) :
    (ofList l).external = l.map (·.1) := (foldl_push l empty).1

theorem enrich_ofList (l : List (ExternalUtxo × Definite)) :
    (ofList l).enrich = Map.collect (l.map fun i => (i.1.outpoint, i.2)) := (foldl_push l empty).2

/-- The same inputs in the same order, and the same descriptor for every
outpoint. -/
structure Same (p q : Prepared Definite) : Prop where
  external : p.external = q.external
  enrich : ∀ op, p.enrich.lookup op = q.enrich.lookup op

end Prepared

/-! ## The migration loop without its cache -/

section

variable (Id : Type) {D M Definite : Type} [WolletDescriptor D M] [MultipathDescriptor M Definite]
  [DefiniteDescriptor Definite]

/-- What one input is prepared to, from its own owner. -/
def ownInput (input : CapturedUtxo × ElementsWollet D) :
    Except (SpendError Id) (ExternalUtxo × Definite) := do
  let singles ← singlesOf Id input.2
  let maxWeight ← maxWeightOf Id singles
  let definite ← definiteAt Id singles input.1.chain.toIdx input.1.wildcardIndex
  pure (externalUtxo input.1 maxWeight, definite)

/-- Among the owners, the texts identify the descriptors. -/
def TextsIdentify (inputs : List (CapturedUtxo × ElementsWollet D)) : Prop :=
  ∀ i ∈ inputs, ∀ j ∈ inputs,
    WolletDescriptor.toText i.2.descriptor = WolletDescriptor.toText j.2.descriptor →
      i.2.descriptor = j.2.descriptor

variable {Id} in
theorem ownInput_eq_ok {input : CapturedUtxo × ElementsWollet D} {y : ExternalUtxo × Definite}
    (hy : ownInput Id input = .ok y) : ∃ singles maxWeight, singlesOf Id input.2 = .ok singles ∧
      definiteAt Id singles input.1.chain.toIdx input.1.wildcardIndex = .ok y.2 ∧
      y.1 = externalUtxo input.1 maxWeight := by
  unfold ownInput at hy
  obtain ⟨singles, hsingles, hy⟩ := bind_eq_ok.mp hy
  obtain ⟨maxWeight, -, hy⟩ := bind_eq_ok.mp hy
  obtain ⟨definite, hdefinite, hy⟩ := bind_eq_ok.mp hy
  cases hy
  exact ⟨singles, maxWeight, hsingles, hdefinite, rfl⟩

variable {Id} in
theorem outpoint_ownInput {input : CapturedUtxo × ElementsWollet D} {y : ExternalUtxo × Definite}
    (hy : ownInput Id input = .ok y) : y.1.outpoint = input.1.outpoint := by
  obtain ⟨singles, maxWeight, -, -, hexternal⟩ := ownInput_eq_ok hy
  rw [hexternal]
  rfl

/-- The loop prepares each input from its own owner, in order. -/
theorem migrationInputs_eq {inputs : List (CapturedUtxo × ElementsWollet D)}
    (htext : TextsIdentify inputs) :
    migrationInputs Id inputs = (inputs.mapM (ownInput Id)).map Prepared.ofList := by
  let key : CapturedUtxo × ElementsWollet D → String :=
    fun i => WolletDescriptor.toText i.2.descriptor
  let body (p : Prepared Definite) (i : CapturedUtxo × ElementsWollet D) (singles : List M) :
      Except (SpendError Id) (Prepared Definite) := do
    let maxWeight ← maxWeightOf Id singles
    let definite ← definiteAt Id singles i.1.chain.toIdx i.1.wildcardIndex
    pure (p.push (externalUtxo i.1 maxWeight, definite))
  have hkey : ∀ i ∈ inputs, ∀ j ∈ inputs, key i = key j → singlesOf Id i.2 = singlesOf Id j.2 := by
    intro i hi j hj heq
    unfold singlesOf
    rw [htext i hi j hj heq]
  have hstep : migrationInput Id = Memo.step key (fun i => singlesOf Id i.2) body := by
    funext acc i
    simp only [migrationInput, Memo.step, body, key, bind_assoc, pure_bind]
  have hbody : (fun p i => singlesOf Id i.2 >>= body p i) =
      fun (p : Prepared Definite) i => (ownInput Id i).map p.push := by
    funext p i
    show _ = p.push <$> ownInput Id i
    simp only [ownInput, body, map_bind, map_pure]
  rw [migrationInputs, hstep, Memo.foldlM_memo hkey Memo.sound_empty, hbody, foldlM_push]
  rfl

/-! ## What the inputs are prepared to -/

/-- What the inputs of a list are prepared to, when all can be. -/
def ownInputs (l : List (CapturedUtxo × ElementsWollet D)) :
    List (ExternalUtxo × Definite) := l.filterMap fun i => (ownInput Id i).toOption

/-- The descriptor that some input of the list has for its outpoint. -/
def HasDefinite (l : List (CapturedUtxo × ElementsWollet D)) (op : OutPoint)
    (definite : Definite) : Prop :=
  ∃ i ∈ l, ∃ y, ownInput Id i = .ok y ∧ i.1.outpoint = op ∧ y.2 = definite

section

variable {Id}

theorem mem_ownInputs {l : List (CapturedUtxo × ElementsWollet D)} {y : ExternalUtxo × Definite} :
    y ∈ ownInputs Id l ↔ ∃ i ∈ l, ownInput Id i = .ok y :=
  mem_filterMap_toOption

theorem mem_map_ownInputs {l : List (CapturedUtxo × ElementsWollet D)} {op : OutPoint}
    {definite : Definite} :
    (op, definite) ∈ (ownInputs Id l).map (fun y => (y.1.outpoint, y.2)) ↔
      HasDefinite Id l op definite := by
  rw [List.mem_map]
  constructor
  · rintro ⟨y, hy, heq⟩
    obtain ⟨i, hi, hres⟩ := mem_ownInputs.mp hy
    cases heq
    exact ⟨i, hi, y, hres, (outpoint_ownInput hres).symm, rfl⟩
  · rintro ⟨i, hi, y, hres, rfl, rfl⟩
    exact ⟨y, mem_ownInputs.mpr ⟨i, hi, hres⟩, by rw [outpoint_ownInput hres]⟩

variable {inputs : List (CapturedUtxo × ElementsWollet D)}
  (hdistinct : (inputs.map (·.1.outpoint)).Nodup)

include hdistinct in
/-- Distinct outpoints have one owner and one descriptor each. -/
theorem HasDefinite.unique {l : List (CapturedUtxo × ElementsWollet D)} (hl : l ⊆ inputs)
    {op : OutPoint} {d d' : Definite} (h : HasDefinite Id l op d) (h' : HasDefinite Id l op d') :
    d = d' := by
  obtain ⟨i, hi, y, hy, hop, rfl⟩ := h
  obtain ⟨j, hj, z, hz, hop', rfl⟩ := h'
  obtain rfl := List.inj_on_of_nodup_map hdistinct (hl hi) (hl hj) (hop.trans hop'.symm)
  cases hy.symm.trans hz
  rfl

include hdistinct in
theorem lookup_ofList_ownInputs {l : List (CapturedUtxo × ElementsWollet D)} (hl : l ⊆ inputs)
    {op : OutPoint} {definite : Definite} :
    (Prepared.ofList (ownInputs Id l)).enrich.lookup op = some definite ↔
      HasDefinite Id l op definite := by
  rw [Prepared.enrich_ofList, Map.lookup_collect, mem_map_ownInputs]
  intro k v v' hv hv'
  exact (mem_map_ownInputs.mp hv).unique hdistinct hl (mem_map_ownInputs.mp hv')

end

/-! ## One owner at a time -/

variable {Id} in
/-- Inputs of one owner are prepared as its own builder prepares them. -/
theorem prepareInputs_eq {l : List (CapturedUtxo × ElementsWollet D)} {owner : ElementsWollet D}
    (hne : l ≠ []) (howner : ∀ i ∈ l, i.2 = owner) :
    (singlesOf Id owner >>= prepareInputs Id (l.map (·.1))) =
      (l.mapM (ownInput Id)).map Prepared.ofList := by
  obtain ⟨first, rest, rfl⟩ := List.exists_cons_of_ne_nil hne
  have hfirst : first.2 = owner := howner first (List.mem_cons_self ..)
  cases hsingles : singlesOf Id owner with
  | error e =>
      have hown : ownInput Id first = .error e := by
        unfold ownInput
        rw [hfirst, hsingles]
        rfl
      rw [List.mapM_cons, hown]
      rfl
  | ok singles =>
      show prepareInputs Id ((first :: rest).map (·.1)) singles = _
      unfold prepareInputs
      cases hweight : maxWeightOf Id singles with
      | error e =>
          have hown : ownInput Id first = .error e := by
            unfold ownInput
            rw [hfirst, hsingles]
            simp only [bind, Except.bind, hweight]
          rw [List.mapM_cons, hown]
          rfl
      | ok maxWeight =>
          let prepare (u : CapturedUtxo) : Except (SpendError Id) (ExternalUtxo × Definite) :=
            (definiteAt Id singles u.chain.toIdx u.wildcardIndex).map
              fun definite => (externalUtxo u maxWeight, definite)
          have hstep : (fun (p : Prepared Definite) u =>
              (definiteAt Id singles u.chain.toIdx u.wildcardIndex).map
                fun definite => p.push (externalUtxo u maxWeight, definite)) =
              fun p u => (prepare u).map p.push := by
            funext p u
            simp only [prepare]
            cases definiteAt Id singles u.chain.toIdx u.wildcardIndex <;> rfl
          have hown : ∀ i ∈ first :: rest, prepare i.1 = ownInput Id i := by
            intro i hi
            unfold ownInput
            rw [howner i hi, hsingles]
            simp only [prepare, bind, Except.bind, hweight]
            cases definiteAt Id singles i.1.chain.toIdx i.1.wildcardIndex <;> rfl
          simp only [bind, Except.bind]
          rw [hstep, foldlM_push, List.mapM_map, ← mapM_congr hown]
          rfl

variable [DecidableEq D]

/-- The owners of the inputs, each once. -/
def owners (inputs : List (CapturedUtxo × ElementsWollet D)) : List (ElementsWollet D) :=
  (inputs.map (·.2)).dedup

def inputsOf (inputs : List (CapturedUtxo × ElementsWollet D)) (owner : ElementsWollet D) :
    List (CapturedUtxo × ElementsWollet D) := inputs.filter (·.2 = owner)

/-- One owner's UTXOs, in their order, prepared without the cache. -/
def prepareOwner (inputs : List (CapturedUtxo × ElementsWollet D)) (owner : ElementsWollet D) :
    Except (SpendError Id) (Prepared Definite) :=
  singlesOf Id owner >>= prepareInputs Id ((inputsOf inputs owner).map (·.1))

/-- What was prepared for the owners, merged by outpoint. -/
def Prepared.merge {Definite : Type} (inputs : List (CapturedUtxo × ElementsWollet D))
    (runs : List (Prepared Definite)) : Prepared Definite where
  external := inputs.filterMap fun i =>
    (runs.flatMap (·.external)).find? fun e => e.outpoint = i.1.outpoint
  enrich := Map.collect (runs.flatMap fun r => r.enrich.entries.map fun e => (e.1, e.2))

def prepareSeparately (inputs : List (CapturedUtxo × ElementsWollet D)) :
    Except (SpendError Id) (Prepared Definite) :=
  ((owners inputs).mapM (prepareOwner Id inputs)).map (Prepared.merge inputs)

omit [MultipathDescriptor M Definite] [DefiniteDescriptor Definite] [WolletDescriptor D M] in
theorem mem_owners {inputs : List (CapturedUtxo × ElementsWollet D)} {owner : ElementsWollet D} :
    owner ∈ owners inputs ↔ ∃ i ∈ inputs, i.2 = owner := by
  rw [owners, List.mem_dedup, List.mem_map]

omit [MultipathDescriptor M Definite] [DefiniteDescriptor Definite] [WolletDescriptor D M] in
theorem mem_inputsOf {inputs : List (CapturedUtxo × ElementsWollet D)} {owner : ElementsWollet D}
    {i : CapturedUtxo × ElementsWollet D} :
    i ∈ inputsOf inputs owner ↔ i ∈ inputs ∧ i.2 = owner := by
  rw [inputsOf, List.mem_filter, decide_eq_true_iff]

variable {Id}

theorem prepareOwner_eq {inputs : List (CapturedUtxo × ElementsWollet D)}
    {owner : ElementsWollet D} (howner : owner ∈ owners inputs) :
    prepareOwner Id inputs owner =
      ((inputsOf inputs owner).mapM (ownInput Id)).map Prepared.ofList := by
  obtain ⟨i, hi, hi'⟩ := mem_owners.mp howner
  exact prepareInputs_eq (List.ne_nil_of_mem (mem_inputsOf.mpr ⟨hi, hi'⟩))
    fun j hj => (mem_inputsOf.mp hj).2

/-- The owners can all be prepared when their inputs can. -/
theorem forall_prepareOwner_iff {inputs : List (CapturedUtxo × ElementsWollet D)} :
    (∀ owner ∈ owners inputs, ∃ p, prepareOwner Id inputs owner = .ok p) ↔
      ∀ i ∈ inputs, ∃ y, ownInput Id i = .ok y := by
  constructor
  · intro hall i hi
    have howner : i.2 ∈ owners inputs := mem_owners.mpr ⟨i, hi, rfl⟩
    have hok := hall i.2 howner
    rw [prepareOwner_eq howner, exists_map_eq_ok, exists_mapM_eq_ok] at hok
    exact hok i (mem_inputsOf.mpr ⟨hi, rfl⟩)
  · intro hall owner howner
    rw [prepareOwner_eq howner, exists_map_eq_ok, exists_mapM_eq_ok]
    exact fun i hi => hall i (mem_inputsOf.mp hi).1

/-! ## Merging by outpoint -/

/-- What the owners' inputs are prepared to, when all can be. -/
def ownerRuns (Id : Type) (inputs : List (CapturedUtxo × ElementsWollet D)) :
    List (Prepared Definite) :=
  (owners inputs).map fun owner => .ofList (ownInputs Id (inputsOf inputs owner))

section

variable {inputs : List (CapturedUtxo × ElementsWollet D)}

theorem mem_external_ownerRuns {e : ExternalUtxo} :
    e ∈ (ownerRuns Id inputs).flatMap (·.external) ↔
      ∃ i ∈ inputs, ∃ y, ownInput Id i = .ok y ∧ y.1 = e := by
  simp only [ownerRuns, List.mem_flatMap, List.mem_map, exists_exists_and_eq_and,
    Prepared.external_ofList, mem_ownInputs, mem_owners, mem_inputsOf]
  constructor
  · rintro ⟨j, -, y, ⟨i, ⟨hi, -⟩, hy⟩, rfl⟩
    exact ⟨i, hi, y, hy, rfl⟩
  · rintro ⟨i, hi, y, hy, rfl⟩
    exact ⟨i, hi, y, ⟨i, ⟨hi, rfl⟩, hy⟩, rfl⟩

variable (hdistinct : (inputs.map (·.1.outpoint)).Nodup)

include hdistinct

theorem mem_enrich_ownerRuns {op : OutPoint} {definite : Definite} :
    (op, definite) ∈ (ownerRuns Id inputs).flatMap
        (fun r => r.enrich.entries.map fun e => (e.1, e.2)) ↔
      HasDefinite Id inputs op definite := by
  have hsub : ∀ owner, inputsOf inputs owner ⊆ inputs := fun owner i hi => (mem_inputsOf.mp hi).1
  have hentry : ∀ m : Map OutPoint Definite,
      (op, definite) ∈ m.entries.map (fun e => (e.1, e.2)) ↔ m.lookup op = some definite := by
    intro m
    rw [← Map.mem_entries_iff, List.mem_map]
    constructor
    · rintro ⟨⟨k, v⟩, he, heq⟩
      cases heq
      exact he
    · exact fun he => ⟨⟨op, definite⟩, he, rfl⟩
  simp only [ownerRuns, List.mem_flatMap, List.mem_map, exists_exists_and_eq_and, hentry,
    lookup_ofList_ownInputs hdistinct (hsub _), mem_owners]
  constructor
  · rintro ⟨j, -, i, hi, y, hy, hop, hdef⟩
    exact ⟨i, hsub j.2 hi, y, hy, hop, hdef⟩
  · rintro ⟨i, hi, y, hy, hop, hdef⟩
    exact ⟨i, hi, i, mem_inputsOf.mpr ⟨hi, rfl⟩, y, hy, hop, hdef⟩

/-- The only prepared input with the outpoint of an input is its own. -/
theorem find?_ownerRuns {i : CapturedUtxo × ElementsWollet D} (hi : i ∈ inputs)
    {y : ExternalUtxo × Definite} (hy : ownInput Id i = .ok y) :
    ((ownerRuns Id inputs).flatMap (·.external)).find? (fun e => e.outpoint = i.1.outpoint) =
      some y.1 := by
  cases hfind : ((ownerRuns Id inputs).flatMap (·.external)).find?
      (fun e => e.outpoint = i.1.outpoint) with
  | none =>
      have hno := List.find?_eq_none.mp hfind y.1 (mem_external_ownerRuns.mpr ⟨i, hi, y, hy, rfl⟩)
      exact absurd (decide_eq_true (outpoint_ownInput hy)) hno
  | some e =>
      have hop : e.outpoint = i.1.outpoint := by simpa using List.find?_some hfind
      obtain ⟨j, hj, z, hz, rfl⟩ := mem_external_ownerRuns.mp (List.mem_of_find?_eq_some hfind)
      obtain rfl := List.inj_on_of_nodup_map hdistinct hj hi ((outpoint_ownInput hz).symm.trans hop)
      cases hy.symm.trans hz
      rfl

variable (hown : ∀ i ∈ inputs, ∃ y, ownInput Id i = .ok y)

include hown

omit hdistinct in
theorem prepareSeparately_eq_ok :
    prepareSeparately Id inputs = .ok (Prepared.merge inputs (ownerRuns Id inputs)) := by
  have hrun : ∀ owner ∈ owners inputs, prepareOwner Id inputs owner =
      pure (Prepared.ofList (ownInputs Id (inputsOf inputs owner))) := by
    intro owner howner
    have hys : (inputsOf inputs owner).mapM (ownInput Id) =
      .ok (ownInputs Id (inputsOf inputs owner)) :=
      mapM_eq_ok.mpr ⟨fun i hi => hown i (mem_inputsOf.mp hi).1, rfl⟩
    rw [prepareOwner_eq howner, hys]
    rfl
  rw [prepareSeparately, mapM_congr hrun, List.mapM_pure]
  rfl

/-- The merged inputs are those of the list, each from its own owner. -/
theorem merge_same : (Prepared.ofList (ownInputs Id inputs)).Same
    (Prepared.merge inputs (ownerRuns Id inputs)) := by
  constructor
  · rw [Prepared.external_ofList, ownInputs, List.map_filterMap, Prepared.merge]
    refine List.filterMap_congr ?_
    intro i hi
    obtain ⟨y, hy⟩ := hown i hi
    rw [hy, find?_ownerRuns hdistinct hi hy]
    rfl
  · intro op
    ext definite
    rw [lookup_ofList_ownInputs hdistinct (List.Subset.refl inputs), Prepared.merge,
      Map.lookup_collect, mem_enrich_ownerRuns hdistinct]
    intro k v v' hv hv'
    exact ((mem_enrich_ownerRuns hdistinct).mp hv).unique hdistinct (List.Subset.refl inputs)
      ((mem_enrich_ownerRuns hdistinct).mp hv')

end

end

/-! ## Enriching a PSET -/

section

variable (Id : Type) {PK D M Definite : Type} [WolletDescriptor D M]
  [MultipathDescriptor M Definite] [PsbtExt PK Definite]

def Pset.prevouts (pset : Pset PK) : List OutPoint := pset.inputs.map (·.previousOutput)

/-- Writing a descriptor's data into an input leaves what the inputs
spend. -/
def PrevoutsKept (PK Definite : Type) [PsbtExt PK Definite] : Prop :=
  ∀ (pset pset' : Pset PK) (idx : Nat) (definite : Definite),
    PsbtExt.updateInputWithDescriptor pset idx definite = .ok pset' →
      pset'.prevouts = pset.prevouts

/-- Calls of `update_input_with_descriptor`, up to the first that fails. -/
def makeCalls (calls : List (Nat × Definite)) (pset : Pset PK) : Except String (Pset PK) :=
  calls.foldlM (fun pset call => PsbtExt.updateInputWithDescriptor pset call.1 call.2) pset

/-- What becomes of the PSET the calls leave. -/
def afterCalls (res : Except String (Pset PK)) : Outcome (SpendError Id) (BlindedPset PK) :=
  match res with
  | .error msg => .err (.enrich msg)
  | .ok pset =>
      match BlindedPset.new pset with
      | .error e => .err (.pset e)
      | .ok blinded => .ok blinded

/-- The call for an input, if its outpoint has a descriptor. -/
def callFor (prevouts : List OutPoint) (enrich : Map OutPoint Definite) (idx : Nat) :
    Option (Nat × Definite) :=
  prevouts[idx]?.bind fun op => (enrich.lookup op).map fun definite => (idx, definite)

/-- One call for each input, with the definite descriptor that the owner
of the UTXO it spends has at that UTXO's chain and index. -/
structure OwnCalls (inputs : List (CapturedUtxo × ElementsWollet D)) (pset : Pset PK)
    (calls : List (Nat × Definite)) : Prop where
  every : calls.map (·.1) = List.range pset.inputs.length
  own : ∀ idx definite, (idx, definite) ∈ calls → ∃ utxo owner singles, (utxo, owner) ∈ inputs ∧
    pset.prevouts[idx]? = some utxo.outpoint ∧ singlesOf Id owner = .ok singles ∧
    definiteAt Id singles utxo.chain.toIdx utxo.wildcardIndex = .ok definite

variable {Id}

/-- Enriching is making the calls for the positions. -/
theorem enrichInputs_eq (hkept : PrevoutsKept PK Definite) {enrich : Map OutPoint Definite}
    (idxs : List Nat) (pset : Pset PK) (hidxs : ∀ idx ∈ idxs, idx < pset.prevouts.length) :
    (enrichInputs enrich idxs pset : Outcome (SpendError Id) (Pset PK)) =
      match makeCalls (idxs.filterMap (callFor pset.prevouts enrich)) pset with
      | .error msg => .err (.enrich msg)
      | .ok pset' => .ok pset' := by
  induction idxs generalizing pset with
  | nil => rfl
  | cons idx rest ih =>
      obtain ⟨hidx, hrest⟩ := List.forall_mem_cons.mp hidxs
      obtain ⟨input, hinput⟩ : ∃ input, pset.inputs[idx]? = some input := by
        rw [Pset.prevouts, List.length_map] at hidx
        exact ⟨_, List.getElem?_eq_getElem hidx⟩
      have hprevout : pset.prevouts[idx]? = some input.previousOutput := by
        rw [Pset.prevouts, List.getElem?_map, hinput, Option.map_some]
      unfold enrichInputs
      simp only [hinput]
      cases hlookup : enrich.lookup input.previousOutput with
      | none =>
          have hcall : callFor pset.prevouts enrich idx = none := by
            rw [callFor, hprevout, Option.bind_some, hlookup, Option.map_none]
          rw [List.filterMap_cons_none hcall]
          exact ih pset hrest
      | some definite =>
          have hcall : callFor pset.prevouts enrich idx = some (idx, definite) := by
            rw [callFor, hprevout, Option.bind_some, hlookup, Option.map_some]
          rw [List.filterMap_cons_some hcall, makeCalls, List.foldlM_cons]
          cases hupdate : PsbtExt.updateInputWithDescriptor pset idx definite with
          | error msg => simp only [hupdate]; rfl
          | ok pset' =>
              have hsame := hkept pset pset' idx definite hupdate
              have hstep := ih pset' (by rw [hsame]; exact hrest)
              rw [hsame] at hstep
              simp only [hupdate]
              exact hstep

theorem finishBlinded_eq (hkept : PrevoutsKept PK Definite) {enrich : Map OutPoint Definite}
    (pset : Pset PK) : (finishBlinded pset enrich : Outcome (SpendError Id) (BlindedPset PK)) =
      afterCalls Id (makeCalls ((List.range pset.inputs.length).filterMap
        (callFor pset.prevouts enrich)) pset) := by
  have hidxs : ∀ idx ∈ List.range pset.inputs.length, idx < pset.prevouts.length := by
    intro idx hidx
    rw [Pset.prevouts, List.length_map]
    exact List.mem_range.mp hidx
  rw [finishBlinded, enrichInputs_eq hkept _ pset hidxs]
  cases makeCalls ((List.range pset.inputs.length).filterMap
    (callFor pset.prevouts enrich)) pset with
  | error msg => rfl
  | ok pset' => rfl

variable [DefiniteDescriptor Definite] {inputs : List (CapturedUtxo × ElementsWollet D)}

omit [PsbtExt PK Definite] in
/-- When the PSET spends the prepared outpoints, in any order, each of
its inputs gets the call of its own owner. -/
theorem ownCalls (hdistinct : (inputs.map (·.1.outpoint)).Nodup)
    (hown : ∀ i ∈ inputs, ∃ y, ownInput Id i = .ok y) {pset : Pset PK}
    (hprevouts : pset.prevouts.Perm (inputs.map (·.1.outpoint))) :
    OwnCalls Id inputs pset ((List.range pset.inputs.length).filterMap
      (callFor pset.prevouts (Prepared.ofList (ownInputs Id inputs)).enrich)) := by
  have hcall : ∀ idx ∈ List.range pset.inputs.length, ∃ i ∈ inputs, ∃ y, ownInput Id i = .ok y ∧
      pset.prevouts[idx]? = some i.1.outpoint ∧
      callFor pset.prevouts (Prepared.ofList (ownInputs Id inputs)).enrich idx =
        some (idx, y.2) := by
    intro idx hidx
    obtain ⟨op, hop⟩ : ∃ op, pset.prevouts[idx]? = some op := by
      refine ⟨_, List.getElem?_eq_getElem ?_⟩
      rw [Pset.prevouts, List.length_map]
      exact List.mem_range.mp hidx
    obtain ⟨i, hi, rfl⟩ := List.mem_map.mp (hprevouts.subset (List.mem_of_getElem? hop))
    obtain ⟨y, hy⟩ := hown i hi
    have hlookup := (lookup_ofList_ownInputs hdistinct (List.Subset.refl inputs)).mpr
      ⟨i, hi, y, hy, rfl, rfl⟩
    refine ⟨i, hi, y, hy, hop, ?_⟩
    rw [callFor, hop, Option.bind_some, hlookup, Option.map_some]
  constructor
  · rw [List.map_filterMap]
    refine (List.filterMap_congr ?_).trans List.filterMap_some
    intro idx hidx
    obtain ⟨i, hi, y, hy, hop, heq⟩ := hcall idx hidx
    rw [heq]
    rfl
  · intro idx definite hmem
    obtain ⟨idx', hidx, heq'⟩ := List.mem_filterMap.mp hmem
    obtain ⟨i, hi, y, hy, hop, heq⟩ := hcall idx' hidx
    cases heq.symm.trans heq'
    obtain ⟨singles, maxWeight, hsingles, hdefinite, -⟩ := ownInput_eq_ok hy
    exact ⟨i.1, i.2, singles, hi, hop, hsingles, hdefinite⟩

/-- When the loop succeeds, every input was prepared from its own owner. -/
theorem migrationInputs_eq_ok (htext : TextsIdentify inputs) {p : Prepared Definite} :
    migrationInputs Id inputs = .ok p ↔
      (∀ i ∈ inputs, ∃ y, ownInput Id i = .ok y) ∧ p = .ofList (ownInputs Id inputs) := by
  rw [migrationInputs_eq Id htext, map_eq_ok]
  constructor
  · rintro ⟨ys, hys, rfl⟩
    obtain ⟨hall, rfl⟩ := mapM_eq_ok.mp hys
    exact ⟨hall, rfl⟩
  · rintro ⟨hall, rfl⟩
    exact ⟨_, mapM_eq_ok.mpr ⟨hall, rfl⟩, rfl⟩

/-! ## What the builders return -/

/-- LWK spends the UTXOs a builder was given, in an order of its own. -/
structure SpendsGiven {B Rate : Type} (lwk : TxBuilder D PK B Rate)
    (given : B → List ExternalUtxo) : Prop where
  new : ∀ network, given (lwk.new network) = []
  addExternalUtxos : ∀ b utxos b', lwk.addExternalUtxos b utxos = .ok b' →
    given b' = given b ++ utxos
  addLbtcRecipient : ∀ b recipient amountSat b',
    lwk.addLbtcRecipient b recipient amountSat = .ok b' → given b' = given b
  drainLbtcWallet : ∀ b, given (lwk.drainLbtcWallet b) = given b
  drainLbtcTo : ∀ b recipient, given (lwk.drainLbtcTo b recipient) = given b
  feeRate : ∀ b rate, given (lwk.feeRate b rate) = given b
  finish : ∀ b wollet pset, lwk.finish b wollet = .ok pset →
    pset.prevouts.Perm ((given b).map (·.outpoint))

/-- A PSET that spends the inputs, enriched by the calls of their owners. -/
def EnrichedByOwners (Id : Type) (inputs : List (CapturedUtxo × ElementsWollet D))
    (blinded : BlindedPset PK) : Prop :=
  ∃ (pset : Pset PK) (calls : List (Nat × Definite)),
    pset.prevouts.Perm (inputs.map (·.1.outpoint)) ∧ OwnCalls Id inputs pset calls ∧
      afterCalls Id (makeCalls calls pset) = .ok blinded

section

variable (hdistinct : (inputs.map (·.1.outpoint)).Nodup)
  (hown : ∀ i ∈ inputs, ∃ y, ownInput Id i = .ok y)

include hown in
theorem outpoints_ownInputs :
    (Prepared.ofList (ownInputs Id inputs)).external.map (·.outpoint) =
      inputs.map (·.1.outpoint) := by
  rw [Prepared.external_ofList, List.map_map, ownInputs, List.map_filterMap,
    ← List.filterMap_eq_map]
  refine List.filterMap_congr ?_
  intro i hi
  obtain ⟨y, hy⟩ := hown i hi
  rw [hy]
  exact congrArg some (outpoint_ownInput hy)

include hdistinct hown

theorem finishBuilt_enriched (hkept : PrevoutsKept PK Definite)
    {built : Except (SpendError Id) (Pset PK)} {blinded : BlindedPset PK}
    (hbuilt : ∀ pset, built = .ok pset → pset.prevouts.Perm
      ((Prepared.ofList (ownInputs Id inputs)).external.map (·.outpoint)))
    (hok : finishBuilt (.ofList (ownInputs Id inputs)) built = .ok blinded) :
    EnrichedByOwners Id inputs blinded := by
  cases built with
  | error e => cases hok
  | ok pset =>
      have hprevouts := hbuilt pset rfl
      rw [outpoints_ownInputs hown] at hprevouts
      refine ⟨pset, _, hprevouts, ownCalls hdistinct hown hprevouts, ?_⟩
      rw [← finishBlinded_eq hkept pset]
      exact hok

end

section

variable {B Rate : Type} {lwk : TxBuilder D PK B Rate} {given : B → List ExternalUtxo}
  {blinded : BlindedPset PK} {feeRate : Rate}

/-- A migration is enriched input by input from the wollets that own
what it spends, in whatever order LWK put the inputs. -/
theorem buildMigrationPset_enriched (hkept : PrevoutsKept PK Definite)
    (hlwk : SpendsGiven lwk given) (hdistinct : (inputs.map (·.1.outpoint)).Nodup)
    (htext : TextsIdentify inputs) {feeWollet : ElementsWollet D}
    {customerRecipients : List (Address × Nat)} {feeAccountDest : Address}
    (hok : buildMigrationPset lwk feeWollet inputs customerRecipients feeAccountDest feeRate =
      (.ok blinded : Outcome (SpendError Id) (BlindedPset PK))) :
    EnrichedByOwners Id inputs blinded := by
  unfold buildMigrationPset at hok
  cases hprepared : migrationInputs Id inputs with
  | error e =>
      rw [hprepared] at hok
      cases hok
  | ok prepared =>
      rw [hprepared] at hok
      obtain ⟨hown, rfl⟩ := (migrationInputs_eq_ok htext).mp hprepared
      refine finishBuilt_enriched hdistinct hown hkept ?_ hok
      intro pset hbuilt
      obtain ⟨b, hadd, hbuilt⟩ := bind_eq_ok.mp hbuilt
      obtain ⟨b', hrecipients, hbuilt⟩ := bind_eq_ok.mp hbuilt
      have hgiven := hlwk.addExternalUtxos _ _ b (mapError_eq_ok.mp hadd)
      rw [hlwk.new, List.nil_append] at hgiven
      have hgiven' : given b' = (Prepared.ofList (ownInputs Id inputs)).external := by
        refine foldlM_keeps (P := fun b => given b = _) ?_ hrecipients hgiven
        intro r _ b₁ b₂ hone hb₁
        rw [hlwk.addLbtcRecipient b₁ r.1 r.2 b₂ (mapError_eq_ok.mp hone), hb₁]
      have hfinish := hlwk.finish _ _ pset (mapError_eq_ok.mp hbuilt)
      rw [hlwk.feeRate, hlwk.drainLbtcTo, hlwk.drainLbtcWallet, hgiven'] at hfinish
      exact hfinish

/-- The UTXOs of one wollet, each with the wollet. -/
def ownedBy (wollet : ElementsWollet D) (utxos : List CapturedUtxo) :
    List (CapturedUtxo × ElementsWollet D) := utxos.map fun u => (u, wollet)

theorem snd_of_mem_ownedBy {wollet : ElementsWollet D} {utxos : List CapturedUtxo}
    {i : CapturedUtxo × ElementsWollet D} (hi : i ∈ ownedBy wollet utxos) : i.2 = wollet := by
  obtain ⟨u, -, rfl⟩ := List.mem_map.mp hi
  rfl

theorem textsIdentify_ownedBy (wollet : ElementsWollet D) (utxos : List CapturedUtxo) :
    TextsIdentify (ownedBy wollet utxos) := by
  intro i hi j hj _
  rw [snd_of_mem_ownedBy hi, snd_of_mem_ownedBy hj]

/-- Preparing one wollet's UTXOs is preparing a migration of them. -/
theorem prepareInputs_eq_migrationInputs {utxos : List CapturedUtxo} (hne : utxos ≠ [])
    (wollet : ElementsWollet D) : (singlesOf Id wollet >>= prepareInputs Id utxos) =
      migrationInputs Id (ownedBy wollet utxos) := by
  have hutxos : (ownedBy wollet utxos).map (·.1) = utxos := by
    rw [ownedBy, List.map_map]
    exact List.map_id' utxos
  have hne' : ownedBy wollet utxos ≠ [] := fun hnil => hne (List.map_eq_nil_iff.mp hnil)
  rw [migrationInputs_eq Id (textsIdentify_ownedBy wollet utxos),
    ← prepareInputs_eq hne' fun i hi => snd_of_mem_ownedBy hi, hutxos]

/-- A sweep is a migration of one wollet's UTXOs that pays no customer. -/
theorem buildSweepPset_eq {wollet : ElementsWollet D} {utxos : List CapturedUtxo}
    (hne : utxos ≠ []) (recipient : Address) :
    (buildSweepPset lwk wollet utxos recipient feeRate : Outcome (SpendError Id) (BlindedPset PK)) =
      buildMigrationPset lwk wollet (ownedBy wollet utxos) [] recipient feeRate := by
  rw [buildSweepPset, buildMigrationPset, prepareInputs_eq_migrationInputs hne]
  rfl

/-- A payment is enriched from the wollet that pays. -/
theorem buildSpendPset_enriched (hkept : PrevoutsKept PK Definite) (hlwk : SpendsGiven lwk given)
    {wollet : ElementsWollet D} {utxos : List CapturedUtxo} (hne : utxos ≠ [])
    (hdistinct : ((ownedBy wollet utxos).map (·.1.outpoint)).Nodup) {recipient : Address}
    {amountSat : Nat}
    (hok : buildSpendPset lwk wollet utxos recipient amountSat feeRate =
      (.ok blinded : Outcome (SpendError Id) (BlindedPset PK))) :
    EnrichedByOwners Id (ownedBy wollet utxos) blinded := by
  unfold buildSpendPset at hok
  rw [prepareInputs_eq_migrationInputs hne] at hok
  cases hprepared : migrationInputs Id (ownedBy wollet utxos) with
  | error e =>
      rw [hprepared] at hok
      cases hok
  | ok prepared =>
      rw [hprepared] at hok
      obtain ⟨hown, rfl⟩ :=
        (migrationInputs_eq_ok (textsIdentify_ownedBy wollet utxos)).mp hprepared
      refine finishBuilt_enriched hdistinct hown hkept ?_ hok
      intro pset hbuilt
      obtain ⟨b, hadd, hbuilt⟩ := bind_eq_ok.mp hbuilt
      obtain ⟨b', hrecipient, hbuilt⟩ := bind_eq_ok.mp hbuilt
      have hgiven := hlwk.addExternalUtxos _ _ b (mapError_eq_ok.mp hadd)
      have hgiven' := hlwk.addLbtcRecipient b recipient amountSat b' (mapError_eq_ok.mp hrecipient)
      have hfinish := hlwk.finish _ _ pset (mapError_eq_ok.mp hbuilt)
      rw [hlwk.feeRate, hgiven', hgiven, hlwk.new, List.nil_append] at hfinish
      exact hfinish

end

/-! ## Many owners at once -/

/-- What the migration loop has to do with preparing every owner's UTXOs
separately, and with the PSETs built from them. -/
structure EnrichmentExact [DecidableEq D] (Id PK : Type) [PsbtExt PK Definite]
    (inputs : List (CapturedUtxo × ElementsWollet D)) : Prop where
  ok_iff : (∃ p, migrationInputs Id inputs = .ok p) ↔
    ∀ owner ∈ owners inputs, ∃ p, prepareOwner Id inputs owner = .ok p
  merged : ∀ p, migrationInputs Id inputs = .ok p →
    ∃ q, prepareSeparately Id inputs = .ok q ∧ p.Same q
  enriched : ∀ p, migrationInputs Id inputs = .ok p → ∀ pset : Pset PK,
    pset.prevouts.Perm (inputs.map (·.1.outpoint)) → ∃ calls, OwnCalls Id inputs pset calls ∧
      finishBlinded pset p.enrich = afterCalls Id (makeCalls calls pset)

/-- The cached loop prepares what the owners' own runs do, and every
input of the PSET is enriched from its own owner. -/
theorem enrichment_exact [DecidableEq D] (hkept : PrevoutsKept PK Definite)
    (hdistinct : (inputs.map (·.1.outpoint)).Nodup) (htext : TextsIdentify inputs) :
    EnrichmentExact Id PK inputs := by
  refine ⟨?_, ?_, ?_⟩
  · rw [forall_prepareOwner_iff, migrationInputs_eq Id htext, exists_map_eq_ok, exists_mapM_eq_ok]
  · intro p hp
    obtain ⟨hall, rfl⟩ := (migrationInputs_eq_ok htext).mp hp
    exact ⟨_, prepareSeparately_eq_ok hall, merge_same hdistinct hall⟩
  · intro p hp pset hprevouts
    obtain ⟨hall, rfl⟩ := (migrationInputs_eq_ok htext).mp hp
    exact ⟨_, ownCalls hdistinct hall hprevouts, finishBlinded_eq hkept pset⟩

end

/-! Two owners in turn, one of them twice, and a PSET with the inputs
in another order. -/

/-- A plain descriptor, or one of its two single-path forms. -/
structure PlainForm where
  descriptor : PlainDescriptor
  chain : Option Chain

structure PlainDefinite where
  script : Script

instance : WolletDescriptor PlainDescriptor PlainForm where
  toText d := String.ofList [Char.ofNat d.account.toNat, Char.ofNat d.blindingKey.toNat]
  descriptor d := .ok ⟨d, none⟩

instance : MultipathDescriptor PlainForm PlainDefinite where
  intoSingleDescriptors f := match f.chain with
    | none => .ok [⟨f.descriptor, some .external⟩, ⟨f.descriptor, some .internal⟩]
    | some _ => .ok [f]
  atDerivationIndex f index := match f.chain with
    | none => .error "multipath descriptor"
    | some chain =>
        if index < 0x80000000 then .ok ⟨f.descriptor.script chain index⟩
        else .error "hardened index"

instance : DefiniteDescriptor PlainDefinite where
  maxWeightToSatisfy d := .ok (4 * d.script.bytes.length)

instance : PsbtExt Nat PlainDefinite where
  updateInputWithDescriptor pset idx d := match pset.inputs[idx]? with
    | none => .error "no such input"
    | some input =>
        .ok { pset with
          inputs := pset.inputs.set idx { input with witnessScript := some d.script } }

theorem plain_prevoutsKept : PrevoutsKept Nat PlainDefinite := by
  intro pset pset' idx definite hupdate
  simp only [PsbtExt.updateInputWithDescriptor] at hupdate
  cases hinput : pset.inputs[idx]? with
  | none =>
      rw [hinput] at hupdate
      cases hupdate
  | some input =>
      rw [hinput] at hupdate
      cases hupdate
      have hprevout : pset.prevouts[idx]? = some input.previousOutput := by
        rw [Pset.prevouts, List.getElem?_map, hinput, Option.map_some]
      obtain ⟨hlt, hget⟩ := List.getElem?_eq_some_iff.mp hprevout
      have hself := List.set_getElem_self hlt
      rw [hget] at hself
      exact List.map_set.trans hself

def ownerUtxo (account : UInt8) (vout : Nat) : CapturedUtxo where
  walletId := ⟨1⟩
  outpoint := ⟨⟨7⟩, vout⟩
  txout := ⟨.explicit ⟨1⟩, .explicit 5, .null, ⟨[account, 0, 0]⟩, ⟨none, none⟩⟩
  secrets := ⟨⟨1⟩, 0, 5, 0⟩
  chain := .external
  wildcardIndex := vout
  height := 1
  isSpent := false

def ownerWollet (account : UInt8) : ElementsWollet PlainDescriptor :=
  ⟨⟨account, account⟩, .elementsRegtest⟩

def twoOwners : List (CapturedUtxo × ElementsWollet PlainDescriptor) :=
  [(ownerUtxo 1 0, ownerWollet 1), (ownerUtxo 2 1, ownerWollet 2), (ownerUtxo 1 2, ownerWollet 1)]

theorem enrichment_exact_twoOwners : EnrichmentExact Nat Nat twoOwners :=
  enrichment_exact plain_prevoutsKept (by decide) (by unfold TextsIdentify; decide)

example : ∃ p, migrationInputs Nat twoOwners = .ok p ∧
    p.external.map (·.outpoint.vout) = [0, 1, 2] ∧
    (p.enrich.lookup ⟨⟨7⟩, 1⟩).map (·.script) = some ⟨[2, 0, 1]⟩ := ⟨_, rfl, rfl, rfl⟩

end EmvaultElements
