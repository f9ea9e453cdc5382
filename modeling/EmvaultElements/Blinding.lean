import EmvaultElements.Accounts
import EmvaultElements.Pipeline
import EmvaultElements.Unblinding

/-!
# From a raw PSET to a transaction

A daemon's PSET is checked to be without signatures (`UnsignedPset`),
blinded (`blindPset`) and given to a coordinator. What LWK's blinding
computes is a parameter.

In whatever order a session's calls are made, the transaction that comes
out of it has the inputs and output scripts of the raw PSET, and every
witness of the PSET it is extracted from is made of the raw PSET's
witness script and of signatures that counted members gave for the
blinded one (`session_provenance`).
-/

namespace EmvaultElements

variable {PK Xpriv Id : Type}

/-- The signatures of all inputs. -/
def Pset.totalSigs (pset : Pset PK) : Nat :=
  pset.inputs.foldl (fun n i => n + i.partialSigs.entries.length) 0

/-- A PSET with zero partial signatures, before blinding. -/
structure UnsignedPset (PK : Type) where
  pset : Pset PK
  unsigned : pset.totalSigs = 0

/-- Wrap a raw PSET. -/
def UnsignedPset.new (pset : Pset PK) : Except (PsetError Id) (UnsignedPset PK) :=
  if h : pset.totalSigs = 0 then .ok ⟨pset, h⟩ else .error (.unexpectedSignatures pset.totalSigs)

/-- Blind an unsigned PSET with `blindLast`, which is `Pset::blind_last`
and draws its own randomness. -/
def blindPset (blindLast : Pset PK → Map Nat TxOutSecrets → Except String (Pset PK))
    (pset : UnsignedPset PK) (inpTxoutSecrets : Map Nat TxOutSecrets) :
    Except (PsetError Id) (BlindedPset PK) := do
  let inner ← (blindLast pset.pset inpTxoutSecrets).mapError .blindingFailed
  BlindedPset.new inner

/-! ## What is counted -/

theorem totalSigs_eq_zero {pset : Pset PK} :
    pset.totalSigs = 0 ↔ ∀ input ∈ pset.inputs, input.partialSigs = ∅ := by
  have hfold : ∀ (inputs : List (PsetInput PK)) (n : Nat),
      inputs.foldl (fun n i => n + i.partialSigs.entries.length) n = 0 ↔
        n = 0 ∧ ∀ input ∈ inputs, input.partialSigs = ∅ := by
    intro inputs
    induction inputs with
    | nil => exact fun n => (and_iff_left fun _ h => absurd h List.not_mem_nil).symm
    | cons input inputs ih =>
        intro n
        rw [List.foldl_cons, ih, Nat.add_eq_zero_iff, List.forall_mem_cons, and_assoc,
          List.length_eq_zero_iff]
        exact and_congr_right fun _ => and_congr_left fun _ =>
          ⟨fun h => AList.ext h, fun h => congrArg AList.entries h⟩
  exact (hfold pset.inputs 0).trans (and_iff_right rfl)

theorem UnsignedPset.new_eq_ok {pset : Pset PK} {u : UnsignedPset PK} :
    (UnsignedPset.new pset : Except (PsetError Id) (UnsignedPset PK)) = .ok u ↔ u.pset = pset := by
  unfold UnsignedPset.new
  obtain ⟨pset', hunsigned⟩ := u
  split
  · simp only [Except.ok.injEq, UnsignedPset.mk.injEq, eq_comm]
  · next hsigs =>
      refine ⟨fun h => (by cases h), ?_⟩
      rintro rfl
      exact absurd hunsigned hsigs

/-- `Pset::blind_last` changes outputs, and not where they pay to. -/
structure BlindsOutputs (blindLast : Pset PK → Map Nat TxOutSecrets → Except String (Pset PK)) :
    Prop where
  inputs : ∀ pset secrets pset', blindLast pset secrets = .ok pset' → pset'.inputs = pset.inputs
  scripts : ∀ pset secrets pset', blindLast pset secrets = .ok pset' →
    pset'.outputs.map (·.scriptPubkey) = pset.outputs.map (·.scriptPubkey)

variable {blindLast : Pset PK → Map Nat TxOutSecrets → Except String (Pset PK)}
  {secrets : Map Nat TxOutSecrets} {raw : Pset PK} {b : BlindedPset PK}

theorem blindPset_eq_ok {u : UnsignedPset PK}
    (h : (blindPset blindLast u secrets : Except (PsetError Id) (BlindedPset PK)) = .ok b) :
    blindLast u.pset secrets = .ok b.pset := by
  obtain ⟨inner, hinner, hnew⟩ := bind_eq_ok.mp h
  rw [mapError_eq_ok.mp hinner]
  unfold BlindedPset.new at hnew
  split at hnew
  · obtain rfl := Except.ok.inj hnew
    rfl
  · cases hnew

/-! ## A session on it -/

variable [DecidableEq PK] [DecidableEq Id] [SigningLib PK Xpriv]
  {signers : Id → SoftwareSigner Xpriv}
  {fed : Federation Id} {s : Session PK Id} {fin : FinalizedPset PK}

/-- The witness is the dummy, signatures that some of `ids` gave for the
input of `base` under keys of the script, and the script. -/
def WitnessOf (signers : Id → SoftwareSigner Xpriv) (base : Pset PK) (ids : Finset Id) (i : Nat)
    (script : Script) (witness : List (List UInt8)) : Prop :=
  ∃ sigs, witness = [] :: (sigs ++ [script.bytes]) ∧
    ∀ sig ∈ sigs, ∃ id ∈ ids, ∃ pk ∈ (extractPubkeysFromWitnessScript script : List PK),
      (signers id).signature base (i, pk) = some sig

omit [DecidableEq Id] in
/-- What is left of the signatures of an input comes from the input. -/
theorem mem_orderedSigs {input : PsetInput PK} {script : Script} {sig : List UInt8}
    (h : sig ∈ orderedSigs input script) :
    ∃ pk ∈ extractPubkeysFromWitnessScript script, input.getSig pk = some sig := by
  have hmem : sig ∈ (extractPubkeysFromWitnessScript script).filterMap input.getSig := by
    unfold orderedSigs at h
    dsimp only at h
    split at h
    · split at h
      · exact List.mem_of_mem_take h
      · exact h
    · exact h
  exact List.mem_filterMap.mp hmem

omit [DecidableEq Id] in
/-- Only a quorum finalizes. -/
theorem quorum_of_finalize {c : ElementsSigningCoordinator PK Id} (hok : c.finalize = .ok fin) :
    c.federation.threshold ≤ c.signed.card := by
  unfold ElementsSigningCoordinator.finalize at hok
  split at hok
  · cases hok
  · cases hok
  · cases hok
  · next hcomplete =>
      unfold ElementsSigningCoordinator.isComplete at hcomplete
      split at hcomplete
      · exact of_decide_eq_true (Outcome.ok.inj hcomplete)
      · cases hcomplete

/-- An extracted transaction pays to the scripts of the PSET's outputs. -/
def ExtractsScripts (PK : Type) [ElementsLib PK] : Prop :=
  ∀ (pset : Pset PK) tx, ElementsLib.extractTx pset = .ok tx →
    tx.output.map (·.scriptPubkey) = pset.outputs.map (·.scriptPubkey)

/-- The transaction that comes out of a session on a blinded PSET spends
and pays what the raw PSET says, a quorum was counted, and each witness
of the PSET that it is extracted from consists of the raw witness script
and of signatures that counted members gave for the blinded PSET. -/
theorem session_provenance (hblinds : BlindsOutputs blindLast) (hlib : IgnoresSigs PK Xpriv)
    (hspends : ExtractsInputs PK) (hpays : ExtractsScripts PK)
    (hmembers : MemberSigners fed signers)
    (hblind : (do blindPset blindLast (← UnsignedPset.new raw) secrets :
      Except (PsetError Id) (BlindedPset PK)) = .ok b)
    (hrun : SessionRun signers fed b s) (hfin : s.coordinator.finalize = .ok fin) :
    ElementsLib.extractTx fin.pset = .ok fin.transaction ∧
    fin.transaction.spends = raw.prevouts ∧
    fin.transaction.output.map (·.scriptPubkey) = raw.outputs.map (·.scriptPubkey) ∧
    fed.threshold ≤ s.coordinator.signed.card ∧
      (∀ id ∈ s.coordinator.signed, (fed.member id).isSome) ∧
    ∀ (i : Nat) input, raw.inputs[i]? = some input → ∃ script out witness,
      input.witnessScript = some script ∧ fin.pset.inputs[i]? = some out ∧
      out.finalScriptWitness = some witness ∧
      WitnessOf signers b.pset s.coordinator.signed i script witness := by
  obtain ⟨u, hnew, hblind'⟩ := bind_eq_ok.mp hblind
  obtain rfl := UnsignedPset.new_eq_ok.mp hnew
  have hblinded := blindPset_eq_ok hblind'
  have hinputs := hblinds.inputs _ _ _ hblinded
  have hbase : b.pset.unsigned = b.pset := by
    rw [unsigned_eq_iff, hinputs]
    exact totalSigs_eq_zero.mp u.unsigned
  have hcollected := (hrun.inv hlib hmembers hbase).coordinator
  obtain ⟨hok, hfinal⟩ := finalize_eq_ok hfin
  have htransaction := finalize_transaction hfin
  refine ⟨htransaction, ?_, ?_, ?_, hcollected.signed.members, ?_⟩
  · rw [hspends _ _ htransaction, prevouts_finalize hfin,
      prevouts_of_unsigned hcollected.signed.unsigned, Pset.prevouts, hinputs]
    rfl
  · rw [hpays _ _ htransaction, hfinal, ← hblinds.scripts _ _ _ hblinded,
      ← hcollected.inputs.outputs]
    rfl
  · rw [← hcollected.federation]
    exact quorum_of_finalize hfin
  · intro i input hi
    rw [← hinputs] at hi
    obtain ⟨input', hi', hscript, hboard⟩ := input_of_unsigned hcollected.signed.unsigned hi
    obtain ⟨out, hout, script, hsome, rfl⟩ := finalizeP2wshPset_eq_ok hok hi'
    refine ⟨script, _, _, hscript ▸ hsome, hfinal ▸ hout, rfl, orderedSigs input' script, rfl, ?_⟩
    intro sig hsig
    obtain ⟨pk, hpk, hget⟩ := mem_orderedSigs hsig
    rw [hboard pk] at hget
    obtain ⟨id, hid, hsigns⟩ := (hcollected.signed.board (i, pk) sig).mp hget
    exact ⟨id, hid, pk, hpk, hsigns⟩

/-! The PSET that two members have signed, from before it was blinded. -/

section

open ElementsSigningCoordinator

def rawOutput : PsetOutput where
  scriptPubkey := blindedOutput.scriptPubkey
  amount := some 4
  amountComm := none
  asset := some ⟨1⟩
  assetComm := none
  valueRangeproof := none
  assetSurjectionProof := none
  blinderIndex := blindedOutput.blinderIndex

def rawPset : Pset CompressedKey := ⟨signablePset.pset.inputs, [rawOutput]⟩

/-- Commit to the outputs, and prove. -/
def commitOutputs (pset : Pset CompressedKey) (_ : Map Nat TxOutSecrets) :
    Except String (Pset CompressedKey) :=
  .ok ⟨pset.inputs, pset.outputs.map fun o => { blindedOutput with
    scriptPubkey := o.scriptPubkey
    blinderIndex := o.blinderIndex }⟩

theorem blindsOutputs_commitOutputs : BlindsOutputs commitOutputs where
  inputs pset _ pset' h := by
    obtain rfl := Except.ok.inj h
    rfl
  scripts pset _ pset' h := by
    obtain rfl := Except.ok.inj h
    exact List.map_map

theorem extractsScripts_compressedKey : ExtractsScripts CompressedKey := by
  intro pset tx h
  obtain ⟨output, houtput, h⟩ := bind_eq_ok.mp h
  obtain rfl := Except.ok.inj h
  refine map_of_mapM_eq_ok ?_ houtput
  intro o out hout
  unfold PsetOutput.extractTxOut at hout
  split at hout <;> split at hout <;> cases hout <;> rfl

theorem session_provenance_twoReceived : ∃ fin out witness,
    twoReceived.coordinator.finalize = .ok fin ∧
      ElementsLib.extractTx fin.pset = .ok fin.transaction ∧
      fin.transaction.spends = rawPset.prevouts ∧
      fin.pset.inputs[0]? = some out ∧ out.finalScriptWitness = some witness ∧
      WitnessOf memberSigner signablePset.pset {1, 3} 0
        (multisigScript CompressedKey.bytes 2 [keyOne, keyTwo, keyThree]) witness := by
  obtain ⟨fin, hfin⟩ : ∃ fin, twoReceived.coordinator.finalize = .ok fin := ⟨_, rfl⟩
  have hblind : (do blindPset commitOutputs (← UnsignedPset.new rawPset) ∅ :
      Except (PsetError Nat) (BlindedPset CompressedKey)) = .ok signablePset := rfl
  obtain ⟨htransaction, hspends, -, -, -, hwitness⟩ := session_provenance
    blindsOutputs_commitOutputs ignoresSigs_compressedKey extractsInputs_compressedKey
    extractsScripts_compressedKey memberSigners_three hblind run_twoReceived hfin
  obtain ⟨script, out, witness, hscript, hout, hsome, hof⟩ := hwitness 0 _ rfl
  obtain rfl := Option.some.inj hscript
  have hcounted : twoReceived.coordinator.signed = {1, 3} := by decide
  exact ⟨fin, out, witness, hfin, htransaction, hspends, hout, hsome, hcounted ▸ hof⟩

end

end EmvaultElements
