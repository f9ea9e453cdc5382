import EmvaultElements.FailedCalls

/-!
# PSETs of another transaction

`receive_signature` goes by position: it compares no outpoint, and
merges a signature into the coordinator's input of the same index
(`receive_by_position`). A signature for an index the coordinator does
not have panics (`receiveSignature_panics_iff`).
-/

namespace EmvaultElements

variable {PK Id : Type} [DecidableEq PK]

theorem mergeInput_length {fp : Fingerprint} {acc acc' : Pset PK × Bool} {s : PsetInput PK × Nat}
    (h : mergeInput fp acc s = some acc') : acc'.1.inputs.length = acc.1.inputs.length := by
  obtain ⟨hext, -⟩ := mergeInput_spec (P := fun _ _ => True) (fun _ _ _ _ => trivial) h
  exact hext.inputs.length_eq.symm

theorem mergeInput_eq_none {fp : Fingerprint} {acc : Pset PK × Bool} {s : PsetInput PK × Nat} :
    mergeInput fp acc s = none ↔ acc.1.inputs.length ≤ s.2 ∧ s.1.attributable fp ≠ [] := by
  unfold mergeInput
  dsimp only
  rw [← List.getElem?_eq_none_iff]
  split
  · next hi =>
      rw [and_iff_right hi]
      split
      · next hnil => exact iff_of_false nofun (not_not_intro hnil)
      · next hne => exact iff_of_true rfl hne
  · next hi =>
      refine iff_of_false nofun ?_
      rintro ⟨hno, -⟩
      rw [hi] at hno
      cases hno

/-- The merge panics at a signature the coordinator has no input for. -/
theorem mergeInputs_eq_none {fp : Fingerprint} : ∀ {signed : List (PsetInput PK × Nat)}
    {acc : Pset PK × Bool}, mergeInputs fp signed acc = none ↔
      ∃ s ∈ signed, acc.1.inputs.length ≤ s.2 ∧ s.1.attributable fp ≠ []
  | [], _ => by simp [mergeInputs]
  | s :: signed, acc => by
      rw [mergeInputs, List.exists_mem_cons_iff, ← mergeInput_eq_none]
      cases hone : mergeInput fp acc s with
      | none => exact iff_of_true rfl (.inl rfl)
      | some acc₁ =>
          rw [Option.bind_some, mergeInputs_eq_none, mergeInput_length hone]
          exact (or_iff_right (Option.some_ne_none acc₁)).symm

/-- The inputs have the same signatures and key origins. -/
def SameSignatures (signed signed' : List (PsetInput PK)) : Prop :=
  List.Forall₂ (fun s s' => s'.partialSigs = s.partialSigs ∧ s'.bip32Derivation = s.bip32Derivation)
    signed signed'

/-- Nothing else of a returned PSET is read. -/
theorem mergeInputs_congr {fp : Fingerprint} {signed signed' : List (PsetInput PK)}
    (h : SameSignatures signed signed') : ∀ {k : Nat} {acc : Pset PK × Bool},
      mergeInputs fp (signed'.zipIdx k) acc = mergeInputs fp (signed.zipIdx k) acc := by
  induction h with
  | nil => exact rfl
  | @cons s s' signed signed' hs _ ih =>
      intro k acc
      have hattributable : s'.attributable fp = s.attributable fp := by
        simp only [PsetInput.attributable, PsetInput.fpMatches, hs.1, hs.2]
      have hone : mergeInput fp acc (s', k) = mergeInput fp acc (s, k) := by
        simp only [mergeInput, hattributable]
      rw [List.zipIdx_cons, List.zipIdx_cons, mergeInputs, mergeInputs, hone]
      exact congrArg _ (funext fun _ => ih)

namespace ElementsSigningCoordinator

variable [DecidableEq Id] {c : ElementsSigningCoordinator PK Id} {id : Id} {signer : Signer}
  {signedPset : Pset PK}

/-- A response panics exactly when it has a signature attributable to
the member at an index the coordinator has no input for. -/
theorem receiveSignature_panics_iff (hid : c.federation.member id = some signer) :
    (c.receiveSignature id signedPset).1 = .panic ↔
      ¬NoExtra signer.fingerprint c.pset.inputs signedPset.inputs := by
  have hnone : mergeInputs signer.fingerprint signedPset.inputs.zipIdx (c.pset, false) = none ↔
      ¬NoExtra signer.fingerprint c.pset.inputs signedPset.inputs := by
    rw [mergeInputs_eq_none]
    simp only [NoExtra, not_forall]
    constructor
    · rintro ⟨⟨s, i⟩, hmem, hle, hne⟩
      exact ⟨i, s, List.mem_zipIdx_iff_getElem?.mp hmem, hle, hne⟩
    · rintro ⟨i, s, hi, hle, hne⟩
      exact ⟨(s, i), List.mem_zipIdx_iff_getElem?.mpr hi, hle, hne⟩
  rw [← hnone]
  cases hmerge : mergeInputs signer.fingerprint signedPset.inputs.zipIdx (c.pset, false) with
  | none =>
      obtain ⟨hmember, hfind⟩ := Federation.member_eq_some_iff.mp hid
      unfold receiveSignature
      rw [if_neg (by simpa using hmember), hfind]
      dsimp only
      rw [hmerge]
      exact iff_of_true rfl rfl
  | some acc =>
      rw [receiveSignature_of_member hid hmerge]
      refine iff_of_false ?_ nofun
      cases acc.2 <;> exact nofun

/-- A response with nothing to offer beyond the coordinator's inputs is
merged by position: signatures and key origins are all that is read of
it, whatever outpoints it spends. It is accepted when it brings a
signature that is attributable and new, and otherwise changes nothing. -/
theorem receive_by_position (hid : c.federation.member id = some signer)
    (hextra : NoExtra signer.fingerprint c.pset.inputs signedPset.inputs) :
    (c.receiveSignature id signedPset).1 ≠ .panic ∧
    Receives c (id, signedPset) (c.receiveSignature id signedPset).1
      (c.receiveSignature id signedPset).2 ∧
    ((c.receiveSignature id signedPset).1 ≠ .ok () → (c.receiveSignature id signedPset).2 = c) ∧
    ∀ signedPset' : Pset PK, SameSignatures signedPset.inputs signedPset'.inputs →
      c.receiveSignature id signedPset' = c.receiveSignature id signedPset := by
  have hpanic : (c.receiveSignature id signedPset).1 ≠ .panic := fun h =>
    (receiveSignature_panics_iff hid).mp h hextra
  refine ⟨hpanic, ?_, ?_, ?_⟩
  · refine receives_of_noExtra c (id, signedPset) ?_
    intro signer' hid'
    obtain rfl := Option.some.inj (hid.symm.trans hid')
    exact hextra
  · intro hno
    cases hres : (c.receiveSignature id signedPset).1 with
    | ok u => exact absurd hres hno
    | panic => exact absurd hres hpanic
    | err e => exact receiveSignature_refused hres
  · intro signedPset' hsame
    have hmerge : mergeInputs signer.fingerprint signedPset'.inputs.zipIdx (c.pset, false) =
        mergeInputs signer.fingerprint signedPset.inputs.zipIdx (c.pset, false) :=
      mergeInputs_congr hsame
    obtain ⟨hmember, hfind⟩ := Federation.member_eq_some_iff.mp hid
    unfold receiveSignature
    rw [if_neg (by simpa using hmember), if_neg (by simpa using hmember), hfind]
    dsimp only
    rw [hmerge]

end ElementsSigningCoordinator

/-! A response for an input that spends another outpoint. -/

def foreignResponse : Pset CompressedKey where
  inputs := [{ ownedInput.insertSigs [(keyOne, [1])] with previousOutput := ⟨⟨999⟩, 7⟩ }]
  outputs := [blindedOutput]

theorem receive_by_position_foreign :
    ((unsignedByBoth.receiveSignature 1 foreignResponse).1 = .ok () ↔
      Board.Brings unsignedByBoth.pset.board
        (unsignedByBoth.federation.offer (1, foreignResponse))) := by
  have hextra : NoExtra ⟨1⟩ unsignedByBoth.pset.inputs foreignResponse.inputs :=
    noExtra_of_length rfl
  have hid : unsignedByBoth.federation.member 1 = some ⟨⟨1⟩⟩ := rfl
  exact (ElementsSigningCoordinator.receive_by_position hid hextra).2.1.ok_iff

theorem foreign_pset_is_merged : ¬∀ (c : ElementsSigningCoordinator CompressedKey Nat) (id : Nat)
    (signer : Signer) (signedPset : Pset CompressedKey), c.federation.member id = some signer →
    (c.receiveSignature id signedPset).1 ≠ .panic ∧
    (signedPset.inputs.map (·.previousOutput) ≠ c.pset.inputs.map (·.previousOutput) →
      (∃ e, (c.receiveSignature id signedPset).1 = .err e) ∧
      (c.receiveSignature id signedPset).2 = c) := by
  intro hgeneral
  obtain ⟨⟨e, herr⟩, -⟩ := (hgeneral unsignedByBoth 1 ⟨⟨1⟩⟩ foreignResponse rfl).2 (by decide)
  cases herr

end EmvaultElements
