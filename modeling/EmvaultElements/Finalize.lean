import EmvaultElements.Multisig
import EmvaultElements.WitnessScript

/-!
# Finalization of P2WSH inputs

`finalizeP2wshPset` rewrites the inputs one after the other, up to the
first without a witness script. On multisig inputs the witness it builds
is the dummy, the signatures of the first signed keys of the script, and
the script (`finalizeInput_multisig`). With enough valid signatures the
opcode accepts it (`finalize_satisfies_multisig`).
-/

namespace EmvaultElements

variable {PK : Type}

/-! ## Multisig inputs -/

/-- The input spends an m-of-n multisig script with the given keys. -/
structure MultisigInput (encode : PK → List UInt8) (m : Nat) (keys : List PK)
    (input : PsetInput PK) : Prop where
  one_le : 1 ≤ m
  le_length : m ≤ keys.length
  length_le : keys.length ≤ 16
  compressed : ∀ key ∈ keys, (encode key).length = 33
  script : input.witnessScript = some (multisigScript encode m keys)

variable [DecidableEq PK]

/-- The keys of a list that have a signature, in order. -/
def signedKeys (input : PsetInput PK) (keys : List PK) : List PK :=
  keys.filter fun key => key ∈ input.partialSigs

/-- The signatures found in order are those of the signed keys. -/
theorem filterMap_lookup_eq (input : PsetInput PK) (keys : List PK) :
    (keys.filterMap input.getSig).map some = (signedKeys input keys).map input.getSig := by
  induction keys with
  | nil => rfl
  | cons key keys ih =>
      rw [signedKeys] at ih
      cases hsig : input.getSig key with
      | none =>
          have hmem : key ∉ input.partialSigs := AList.lookup_eq_none.mp hsig
          rw [List.filterMap_cons_none hsig, signedKeys,
            List.filter_cons_of_neg (by simpa using hmem),
            ih]
      | some sig =>
          have hmem : key ∈ input.partialSigs :=
            AList.lookup_isSome.mp (Option.isSome_of_eq_some hsig)
          rw [List.filterMap_cons_some hsig, signedKeys,
            List.filter_cons_of_pos (by simpa using hmem),
            List.map_cons, List.map_cons, ih, hsig]

theorem length_filterMap_lookup (input : PsetInput PK) (keys : List PK) :
    (keys.filterMap input.getSig).length = (signedKeys input keys).length := by
  have := congrArg List.length (filterMap_lookup_eq input keys)
  rwa [List.length_map, List.length_map] at this

/-! ## The finalizer -/

variable [ElementsLib PK]

/-- The signatures of an input in the order of the script's keys, at
most as many as the script's threshold. -/
def orderedSigs (input : PsetInput PK) (witnessScript : Script) : List (List UInt8) :=
  let pubkeysInScript := extractPubkeysFromWitnessScript witnessScript
  let sigs := pubkeysInScript.filterMap input.getSig
  match multisigThreshold witnessScript with
  | some m => if m < sigs.length then sigs.take m else sigs
  | none => sigs

/-- Set the final witness of an input, and clear what is no longer
needed. -/
def finalizeInput (input : PsetInput PK) (witnessScript : Script) : PsetInput PK :=
  { input with
    finalScriptWitness := some ([] :: (orderedSigs input witnessScript ++ [witnessScript.bytes]))
    partialSigs := ∅
    witnessScript := none
    bip32Derivation := ∅
    redeemScript := none
    sighashType := none }

/-- The inputs from `idx` on. An error leaves those before it rewritten. -/
def finalizeInputs (Id : Type) :
    Nat → List (PsetInput PK) → Except (PsetError Id) Unit × List (PsetInput PK)
  | _, [] => (.ok (), [])
  | idx, input :: inputs =>
      match input.witnessScript with
      | none =>
          (.error (.finalizationFailed ("input " ++ toString idx ++ " missing witness_script")),
            input :: inputs)
      | some witnessScript =>
          let (res, rest) := finalizeInputs Id (idx + 1) inputs
          (res, finalizeInput input witnessScript :: rest)

def finalizeP2wshPset (Id : Type) (pset : Pset PK) : Except (PsetError Id) Unit × Pset PK :=
  let (res, inputs) := finalizeInputs Id 0 pset.inputs
  (res, { pset with inputs })

/-- An input is rewritten from its witness script. -/
def Finalized (input out : PsetInput PK) : Prop :=
  ∃ witnessScript, input.witnessScript = some witnessScript ∧
    out = finalizeInput input witnessScript

/-- A finalization that succeeds rewrites every input. -/
theorem finalizeInputs_eq_ok {Id : Type} : ∀ {idx : Nat} {inputs : List (PsetInput PK)},
    (finalizeInputs Id idx inputs).1 = .ok () →
      List.Forall₂ Finalized inputs (finalizeInputs Id idx inputs).2
  | _, [], _ => .nil
  | idx, input :: inputs, hok => by
      unfold finalizeInputs at hok ⊢
      split at hok
      · cases hok
      · next witnessScript hscript =>
          exact .cons ⟨witnessScript, hscript, rfl⟩ (finalizeInputs_eq_ok hok)

/-- It succeeds when every input has a witness script. -/
theorem finalizeInputs_ok {Id : Type} : ∀ {idx : Nat} {inputs : List (PsetInput PK)},
    (∀ input ∈ inputs, ∃ witnessScript, input.witnessScript = some witnessScript) →
      (finalizeInputs Id idx inputs).1 = .ok ()
  | _, [], _ => rfl
  | idx, input :: inputs, hscripts => by
      obtain ⟨witnessScript, hscript⟩ := hscripts input (List.mem_cons_self ..)
      unfold finalizeInputs
      rw [hscript]
      exact finalizeInputs_ok fun i hi => hscripts i (List.mem_cons_of_mem input hi)

theorem finalizeP2wshPset_eq_ok {Id : Type} {pset : Pset PK}
    (hok : (finalizeP2wshPset Id pset).1 = .ok ()) {i : Nat} {input : PsetInput PK}
    (hi : pset.inputs[i]? = some input) :
    ∃ out, (finalizeP2wshPset Id pset).2.inputs[i]? = some out ∧ Finalized input out := by
  have hok' : (finalizeInputs Id 0 pset.inputs).1 = .ok () := hok
  have hall := List.forall₂_iff_get.mp (finalizeInputs_eq_ok hok')
  obtain ⟨hlt, rfl⟩ := List.getElem?_eq_some_iff.mp hi
  exact ⟨_, List.getElem?_eq_getElem (hall.1 ▸ hlt), hall.2 i hlt (hall.1 ▸ hlt)⟩

theorem finalizeP2wshPset_ok_iff {Id : Type} {pset : Pset PK} :
    (finalizeP2wshPset Id pset).1 = .ok () ↔
      ∀ input ∈ pset.inputs, ∃ witnessScript, input.witnessScript = some witnessScript := by
  constructor
  · intro hok input hmem
    obtain ⟨i, hi⟩ := List.mem_iff_getElem?.mp hmem
    obtain ⟨-, -, witnessScript, hscript, -⟩ := finalizeP2wshPset_eq_ok hok hi
    exact ⟨witnessScript, hscript⟩
  · exact finalizeInputs_ok

/-! ## What a multisig input is finalized to -/

section

variable {encode : PK → List UInt8} (hdecode : DecodesScripts encode) {m : Nat} {keys : List PK}
  {input : PsetInput PK}

include hdecode

/-- The signatures chosen on a multisig input: the first `m` found in
the order of the keys. -/
theorem orderedSigs_multisig (hinput : MultisigInput encode m keys input) :
    orderedSigs input (multisigScript encode m keys) =
      (keys.filterMap input.getSig).take m := by
  obtain ⟨hone, hle, h16, hcompressed, -⟩ := hinput
  unfold orderedSigs
  rw [extractPubkeys_multisigScript hdecode hcompressed hone (Nat.le_trans hle h16)
    (Nat.le_trans hone hle) h16, multisigThreshold_multisigScript encode hone
    (Nat.le_trans hle h16)]
  dsimp only
  split
  · rfl
  · next hlt => rw [List.take_of_length_le (Nat.not_lt.mp hlt)]

/-- The witness of a finalized multisig input. -/
theorem finalizeInput_multisig (hinput : MultisigInput encode m keys input) {out : PsetInput PK}
    (hout : Finalized input out) : out.finalScriptWitness = some ([] ::
      ((keys.filterMap input.getSig).take m ++
        [(multisigScript encode m keys).bytes])) := by
  obtain ⟨witnessScript, hscript, rfl⟩ := hout
  obtain rfl := Option.some.inj (hscript.symm.trans hinput.script)
  rw [finalizeInput, orderedSigs_multisig hdecode hinput]

end

/-! ## Acceptance -/

/-- The witness satisfies a P2WSH multisig script: an empty dummy,
exactly `m` signatures that the opcode matches in order against the
keys, and the script. -/
def AcceptsMultisig (valid : PK → List UInt8 → Bool) (m : Nat) (keys : List PK) (script : Script)
    (witness : List (List UInt8)) : Prop :=
  ∃ sigs, witness = [] :: (sigs ++ [script.bytes]) ∧ sigs.length = m ∧
    Multisig.checkMultisig valid sigs keys

/-- With at least `m` signed keys on every input, and valid signatures
under the script's keys, finalization succeeds and every input's
witness satisfies its script. -/
theorem finalize_satisfies_multisig {encode : PK → List UInt8} (hdecode : DecodesScripts encode)
    {Id : Type} {pset : Pset PK} {m : Nat → Nat} {keys : Nat → List PK}
    {valid : Nat → PK → List UInt8 → Bool}
    (hinputs : ∀ (i : Nat) input, pset.inputs[i]? = some input →
      MultisigInput encode (m i) (keys i) input)
    (henough : ∀ (i : Nat) input, pset.inputs[i]? = some input →
      m i ≤ (signedKeys input (keys i)).length)
    (hvalid : ∀ (i : Nat) input, pset.inputs[i]? = some input → ∀ key ∈ keys i, ∀ sig,
      input.getSig key = some sig → valid i key sig) :
    (finalizeP2wshPset Id pset).1 = .ok () ∧
    ∀ (i : Nat) input, pset.inputs[i]? = some input → ∃ out witness,
      (finalizeP2wshPset Id pset).2.inputs[i]? = some out ∧
      out.finalScriptWitness = some witness ∧
      AcceptsMultisig (valid i) (m i) (keys i) (multisigScript encode (m i) (keys i)) witness := by
  have hok : (finalizeP2wshPset Id pset).1 = .ok () := by
    refine finalizeP2wshPset_ok_iff.mpr ?_
    intro input hmem
    obtain ⟨i, hi⟩ := List.mem_iff_getElem?.mp hmem
    exact ⟨_, (hinputs i input hi).script⟩
  refine ⟨hok, ?_⟩
  intro i input hi
  obtain ⟨out, hout, hfinal⟩ := finalizeP2wshPset_eq_ok hok hi
  refine ⟨out, _, hout, finalizeInput_multisig hdecode (hinputs i input hi) hfinal, _, rfl, ?_, ?_⟩
  · rw [List.length_take, length_filterMap_lookup]
    exact Nat.min_eq_left (henough i input hi)
  · exact Multisig.checkMultisig_lookup (hvalid i input hi) (m i)

/-! Two of three keys have signed, and a key outside the script. -/

/-- An input that spends a multisig output. -/
def multisigInput (vout m : Nat) (keys : List CompressedKey)
    (sigs : List (CompressedKey × List UInt8)) : PsetInput CompressedKey where
  previousOutput := ⟨⟨200⟩, vout⟩
  witnessUtxo := none
  partialSigs := Map.collect sigs
  sighashType := none
  redeemScript := none
  witnessScript := some (multisigScript CompressedKey.bytes m keys)
  bip32Derivation := ∅
  finalScriptWitness := none

def twoOfThree : Pset CompressedKey where
  inputs := [multisigInput 0 2 [keyThree, keyOne, keyTwo]
    [(keyOne, [1]), (keyTwo, [2]), (keyFour, [9])]]
  outputs := []

/-- The signature expected of a key. -/
def expectedSig (_ : Nat) (key : CompressedKey) (sig : List UInt8) : Bool :=
  decide ((key, sig) ∈ [(keyOne, [1]), (keyTwo, [2]), (keyThree, [3])])

theorem finalize_satisfies_multisig_twoOfThree :
    (finalizeP2wshPset String twoOfThree).1 = .ok () ∧
    ∀ (i : Nat) input, twoOfThree.inputs[i]? = some input → ∃ out witness,
      (finalizeP2wshPset String twoOfThree).2.inputs[i]? = some out ∧
      out.finalScriptWitness = some witness ∧
      AcceptsMultisig (expectedSig i) 2 [keyThree, keyOne, keyTwo]
        (multisigScript CompressedKey.bytes 2 [keyThree, keyOne, keyTwo]) witness := by
  have hone : ∀ (i : Nat) input, twoOfThree.inputs[i]? = some input → input = multisigInput 0 2
      [keyThree, keyOne, keyTwo] [(keyOne, [1]), (keyTwo, [2]), (keyFour, [9])] := by
    intro i input hi
    cases i with
    | zero => exact (Option.some.inj hi).symm
    | succ i => cases hi
  have hinputs : ∀ (i : Nat) input, twoOfThree.inputs[i]? = some input →
      MultisigInput CompressedKey.bytes 2 [keyThree, keyOne, keyTwo] input := by
    intro i input hi
    rw [hone i input hi]
    exact ⟨by decide, by decide, by decide, fun key _ => key.length, rfl⟩
  have henough : ∀ (i : Nat) input, twoOfThree.inputs[i]? = some input →
      2 ≤ (signedKeys input [keyThree, keyOne, keyTwo]).length := by
    intro i input hi
    rw [hone i input hi]
    decide
  have hvalid : ∀ (i : Nat) input, twoOfThree.inputs[i]? = some input →
      ∀ key ∈ [keyThree, keyOne, keyTwo], ∀ sig, input.getSig key = some sig →
        expectedSig i key sig := by
    intro i input hi key hkey sig hsig
    rw [hone i input hi] at hsig
    have hall : ∀ key ∈ [keyThree, keyOne, keyTwo], ((multisigInput 0 2 [keyThree, keyOne, keyTwo]
        [(keyOne, [1]), (keyTwo, [2]), (keyFour, [9])]).getSig key).all (expectedSig 0 key) := by
      decide
    have := hall key hkey
    rw [hsig] at this
    exact this
  exact finalize_satisfies_multisig decodesScripts_compressedKey hinputs henough hvalid

end EmvaultElements
