import EmvaultElements.FullySigned

/-!
# The pre-signing gate

`validateBlindingRaw` accepts the PSETs whose outputs all have their
proofs and a blinder index in range (`validateBlindingRaw_eq_ok`). It
does not look at the commitments, so an output with proofs and an
explicit amount passes (`gate_exact_iff`).
-/

namespace EmvaultElements

variable {PK Id : Type}

/-- A fee output has an empty script. -/
def PsetOutput.NonFee (output : PsetOutput) : Prop := output.scriptPubkey.bytes ≠ []

/-- An output with its proofs, blinded by one of the inputs if by any. -/
structure PsetOutput.Proven (numInputs : Nat) (output : PsetOutput) : Prop where
  rangeproof : output.valueRangeproof.isSome
  surjectionProof : output.assetSurjectionProof.isSome
  blinderIndex : ∀ i, output.blinderIndex = some i → i < numInputs

/-- The amount and the asset are committed to. -/
structure PsetOutput.Committed (output : PsetOutput) : Prop where
  value : output.amountComm.isSome
  asset : output.assetComm.isSome

/-- What the gate is for: every output but the fee is confidential, in
full. -/
def Pset.WellBlinded (pset : Pset PK) : Prop :=
  ∀ output ∈ pset.outputs, output.NonFee → output.Committed ∧ output.Proven pset.inputs.length

theorem validateOutput_eq_ok {numInputs idx : Nat} {output : PsetOutput} :
    (validateOutput numInputs idx output : Except (PsetError Id) Unit) = .ok () ↔
      (output.NonFee → output.Proven numInputs) := by
  unfold validateOutput PsetOutput.NonFee
  split
  · next hfee => exact iff_of_true rfl fun hscript => absurd (List.isEmpty_iff.mp hfee) hscript
  · next hscript =>
      have hnonFee : output.scriptPubkey.bytes ≠ [] :=
        fun hnil => hscript (List.isEmpty_iff.mpr hnil)
      rw [imp_iff_right hnonFee]
      split
      · next hnone =>
          refine iff_of_false nofun ?_
          intro h
          exact Option.not_isSome_iff_eq_none.mpr (Option.isNone_iff_eq_none.mp hnone) h.rangeproof
      · next hrange =>
          have hrange' : output.valueRangeproof.isSome :=
            Option.isSome_iff_ne_none.mpr fun hnone => hrange (Option.isNone_iff_eq_none.mpr hnone)
          split
          · next hnone =>
              refine iff_of_false nofun ?_
              intro h
              exact Option.not_isSome_iff_eq_none.mpr (Option.isNone_iff_eq_none.mp hnone)
                h.surjectionProof
          · next hsurjection =>
              have hsurjection' : output.assetSurjectionProof.isSome :=
                Option.isSome_iff_ne_none.mpr fun hnone =>
                  hsurjection (Option.isNone_iff_eq_none.mpr hnone)
              cases hblinder : output.blinderIndex with
              | none => exact iff_of_true rfl ⟨hrange', hsurjection', by simp [hblinder]⟩
              | some blinderIdx =>
                  dsimp only
                  split
                  · next hle =>
                      refine iff_of_false nofun ?_
                      intro h
                      exact Nat.not_lt.mpr hle (h.blinderIndex blinderIdx hblinder)
                  · next hlt =>
                      refine iff_of_true rfl ⟨hrange', hsurjection', ?_⟩
                      intro i hi
                      rw [hblinder] at hi
                      obtain rfl := Option.some.inj hi
                      exact Nat.not_le.mp hlt

/-- The gate accepts a PSET whose outputs, but for the fee, all have
their proofs. -/
theorem validateBlindingRaw_eq_ok {pset : Pset PK} :
    (validateBlindingRaw pset : Except (PsetError Id) Unit) = .ok () ↔
      ∀ output ∈ pset.outputs, output.NonFee → output.Proven pset.inputs.length := by
  rw [validateBlindingRaw, forM_eq_ok]
  constructor
  · intro h output hmem
    obtain ⟨i, hi⟩ := List.mem_iff_getElem?.mp hmem
    exact validateOutput_eq_ok.mp (h (output, i) (List.mem_zipIdx_iff_getElem?.mpr hi))
  · rintro h ⟨output, i⟩ hmem
    exact validateOutput_eq_ok.mpr (h output (List.fst_mem_of_mem_zipIdx hmem))

/-- The gate accepts exactly the well blinded PSETs, and a coordinator
none with an output that is not committed to. -/
structure GateExact (Id : Type) (pset : Pset PK) : Prop where
  ok_iff : (validateBlindingRaw pset : Except (PsetError Id) Unit) = .ok () ↔ pset.WellBlinded
  accepted : ∀ (fed : Federation Id) (b : BlindedPset PK) (c : ElementsSigningCoordinator PK Id),
    b.pset = pset → ElementsSigningCoordinator.new fed b = .ok c →
      ∀ output ∈ c.pset.outputs, output.NonFee → output.Committed

/-- The gate is exact for the PSETs whose outputs, but for the fee, all
have both commitments, and for those it refuses anyway. -/
theorem gate_exact_iff (pset : Pset PK) : GateExact Id pset ↔
    (∀ output ∈ pset.outputs, output.NonFee → output.Committed) ∨
      ∃ output ∈ pset.outputs, output.NonFee ∧ ¬output.Proven pset.inputs.length := by
  constructor
  · intro hexact
    by_cases hproven : ∀ output ∈ pset.outputs, output.NonFee → output.Proven pset.inputs.length
    · refine .inl ?_
      intro output hmem hnonFee
      have hwell := hexact.ok_iff.mp (validateBlindingRaw_eq_ok.mpr hproven)
      exact (hwell output hmem hnonFee).1
    · simp only [not_forall] at hproven
      obtain ⟨output, hmem, hnonFee, hno⟩ := hproven
      exact .inr ⟨output, hmem, hnonFee, hno⟩
  · intro hcond
    have hcommitted : (validateBlindingRaw pset : Except (PsetError Id) Unit) = .ok () →
        ∀ output ∈ pset.outputs, output.NonFee → output.Committed := by
      intro hok
      rcases hcond with hall | ⟨output, hmem, hnonFee, hno⟩
      · exact hall
      · exact absurd (validateBlindingRaw_eq_ok.mp hok output hmem hnonFee) hno
    refine ⟨⟨?_, ?_⟩, ?_⟩
    · intro hok output hmem hnonFee
      exact ⟨hcommitted hok output hmem hnonFee,
        validateBlindingRaw_eq_ok.mp hok output hmem hnonFee⟩
    · intro hwell
      exact validateBlindingRaw_eq_ok.mpr fun output hmem hnonFee => (hwell output hmem hnonFee).2
    · rintro fed b c rfl hnew
      obtain ⟨hgate, rfl⟩ := ElementsSigningCoordinator.new_eq_ok.mp hnew
      exact hcommitted hgate

/-! An output with both proofs, and an explicit amount and asset. -/

def explicitOutput : PsetOutput :=
  { blindedOutput with amount := some 5, amountComm := none, asset := some ⟨1⟩, assetComm := none }

theorem explicit_output_passes_gate :
    ¬∀ pset : Pset CompressedKey, GateExact Nat pset := by
  intro hgeneral
  have hexact := hgeneral { twoOfTwo.pset with outputs := [explicitOutput] }
  have hcommitted := hexact.accepted twoMembers ⟨_, rfl⟩ _ rfl rfl explicitOutput
    (List.mem_singleton.mpr rfl) (List.cons_ne_nil _ _)
  cases hcommitted.value

end EmvaultElements
