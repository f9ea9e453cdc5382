import Mathlib.Data.Finset.Card
import EmvaultElements.Finalize
import EmvaultElements.Memo
import EmvaultElements.Prog

/-!
# The signing coordinator

`ElementsSigningCoordinator` and its operations. A federation is a
parameter, of which the coordinator asks who is a member and what the
threshold is; an `ElementsSigner` is any function on PSETs that may
fail.

All that the operations do to the PSET is insert signatures
(`Pset.Extends`), as long as the signers do no more than that; so the
scripts and the key origins are the same in every state of a run
(`SigningRun.extends`).
-/

namespace EmvaultElements

variable {PK Id : Type}

/-! ## The parties -/

/-- A signer, of which the coordinator uses the fingerprint. -/
structure Signer where
  fingerprint : Fingerprint
deriving Repr, DecidableEq

/-- The interface of a federation. -/
structure Federation (Id : Type) where
  contains : Id → Bool
  find : Id → Option Signer
  threshold : Nat

/-- `sign_pset`: sign inputs in place, and return how many. -/
abbrev ElementsSigner (PK Id : Type) : Type := Pset PK → Except (PsetError Id) Nat × Pset PK

structure ElementsSigningCoordinator (PK Id : Type) where
  federation : Federation Id
  pset : Pset PK
  signed : Finset Id

/-- A finalized PSET, and the transaction extracted from it. -/
structure FinalizedPset (PK : Type) where
  pset : Pset PK
  transaction : Transaction

namespace ElementsSigningCoordinator

/-- A coordinator for a blinded PSET that passes the pre-signing gate. -/
def new (federation : Federation Id) (pset : BlindedPset PK) :
    Except (PsetError Id) (ElementsSigningCoordinator PK Id) := do
  validateBlinding pset
  return { federation, pset := pset.pset, signed := ∅ }

/-- A coordinator is made of a PSET that passes the gate. -/
theorem new_eq_ok {fed : Federation Id} {b : BlindedPset PK}
    {c : ElementsSigningCoordinator PK Id} :
    new fed b = .ok c ↔
      validateBlinding b = (.ok () : Except (PsetError Id) Unit) ∧
        c = { federation := fed, pset := b.pset, signed := ∅ } := by
  rw [new, bind_eq_ok, Unique.exists_iff]
  exact and_congr_right fun _ => ⟨fun h => (Except.ok.inj h).symm, fun h => congrArg _ h.symm⟩

/-- How many distinct signers have contributed signatures so far. -/
def signaturesCollected (self : ElementsSigningCoordinator PK Id) : Nat := self.signed.card

/-- Whether the threshold has been met. The count is converted to `u32`,
with a panic when it does not fit. -/
def isComplete (self : ElementsSigningCoordinator PK Id) : Outcome (PsetError Id) Bool :=
  if self.signaturesCollected < UInt32.size then
    .ok (decide (self.federation.threshold ≤ self.signaturesCollected))
  else .panic

variable [DecidableEq Id]

/-- Sign with one signer, counted under the id given for it. -/
def signWith (self : ElementsSigningCoordinator PK Id) (signer : ElementsSigner PK Id) (id : Id) :
    Except (PsetError Id) Nat × ElementsSigningCoordinator PK Id :=
  if !self.federation.contains id then (.error (.unknownSigner id), self)
  else
    let (res, pset) := signer self.pset
    let self := { self with pset }
    match res with
    | .error e => (.error e, self)
    | .ok n => (.ok n, if 0 < n then { self with signed := insert id self.signed } else self)

end ElementsSigningCoordinator

/-! ## Merging signatures -/

variable [DecidableEq PK]

/-- Insert signatures, each replacing one under its key. -/
def PsetInput.insertSigs (input : PsetInput PK) (sigs : List (PK × List UInt8)) : PsetInput PK :=
  { input with
    partialSigs := sigs.foldl (fun partialSigs e => partialSigs.insert e.1 e.2) input.partialSigs }

/-- Whether an input says that the key is the signer's. -/
def PsetInput.fpMatches (input : PsetInput PK) (fp : Fingerprint) (pk : PK) : Bool :=
  input.bip32Derivation.entries.any fun e => e.2.1 == fp && e.1 == pk

/-- The signatures of a returned input that its own metadata attributes
to the signer. -/
def PsetInput.attributable (signedInput : PsetInput PK) (fp : Fingerprint) :
    List (PK × List UInt8) :=
  (signedInput.partialSigs.entries.filter fun e => signedInput.fpMatches fp e.1).map
    fun e => (e.1, e.2)

/-- Merge one returned input. The coordinator's input is indexed only
for a signature that is attributable, with a panic when there is no such
input. -/
def mergeInput (fp : Fingerprint) (acc : Pset PK × Bool) (signed : PsetInput PK × Nat) :
    Option (Pset PK × Bool) :=
  let (pset, foundNew) := acc
  let (signedInput, inputIdx) := signed
  match pset.inputs[inputIdx]? with
  | none => if signedInput.attributable fp = [] then some acc else none
  | some input =>
      let newSigs := (signedInput.attributable fp).filter fun e => e.1 ∉ input.partialSigs
      some ({ pset with inputs := pset.inputs.set inputIdx (input.insertSigs newSigs) },
        foundNew || !newSigs.isEmpty)

def mergeInputs (fp : Fingerprint) :
    List (PsetInput PK × Nat) → Pset PK × Bool → Option (Pset PK × Bool)
  | [], acc => some acc
  | signed :: rest, acc => (mergeInput fp acc signed).bind (mergeInputs fp rest)

namespace ElementsSigningCoordinator

variable [DecidableEq Id]

/-- Merge the new signatures of a returned PSET that are attributable to
the signer. -/
def receiveSignature (self : ElementsSigningCoordinator PK Id) (id : Id) (signedPset : Pset PK) :
    Outcome (PsetError Id) Unit × ElementsSigningCoordinator PK Id :=
  if !self.federation.contains id then (.err (.unknownSigner id), self)
  else match self.federation.find id with
    | none => (.err (.unknownSigner id), self)
    | some signer =>
      match mergeInputs signer.fingerprint signedPset.inputs.zipIdx (self.pset, false) with
      | none => (.panic, self)
      | some (pset, foundNew) =>
          let self := { self with pset }
          if !foundNew then
            (.err (.invalidSignature id "no new partial signature attributable to this signer"),
              self)
          else (.ok (), { self with signed := insert id self.signed })

/-- Finalize the PSET once the threshold has been met. -/
def finalize [ElementsLib PK] (self : ElementsSigningCoordinator PK Id) :
    Outcome (PsetError Id) (FinalizedPset PK) :=
  match self.isComplete with
  | .panic => .panic
  | .err e => .err e
  | .ok false =>
      .err (.insufficientSignatures self.signaturesCollected self.federation.threshold)
  | .ok true =>
    match finalizeP2wshPset Id self.pset with
    | (.error e, _) => .err e
    | (.ok (), pset) =>
      match ElementsLib.extractTx pset with
      | .error msg => .err (.finalizationFailed msg)
      | .ok transaction => .ok { pset, transaction }

end ElementsSigningCoordinator

/-! ## Inserting signatures -/

/-- Whose key is whose, on an input. -/
abbrev KeyOrigins (PK : Type) : Type := Map PK (Fingerprint × DerivationPath)

/-- The key is listed under the fingerprint. -/
def Origin (fp : Fingerprint) (origins : KeyOrigins PK) (pk : PK) : Prop :=
  ∃ path, origins.lookup pk = some (fp, path)

theorem fpMatches_iff {input : PsetInput PK} {fp : Fingerprint} {pk : PK} :
    input.fpMatches fp pk ↔ Origin fp input.bip32Derivation pk := by
  simp only [PsetInput.fpMatches, List.any_eq_true, Bool.and_eq_true, beq_iff_eq]
  constructor
  · rintro ⟨⟨pk', fp', path⟩, hmem, rfl, rfl⟩
    exact ⟨path, Map.mem_entries_iff.mp hmem⟩
  · rintro ⟨path, hpath⟩
    exact ⟨⟨pk, fp, path⟩, Map.mem_entries_iff.mpr hpath, rfl, rfl⟩

theorem origin_of_attributable {input : PsetInput PK} {fp : Fingerprint} {e : PK × List UInt8}
    (he : e ∈ input.attributable fp) : Origin fp input.bip32Derivation e.1 := by
  obtain ⟨e', he', rfl⟩ := List.mem_map.mp he
  exact fpMatches_iff.mp (List.mem_filter.mp he').2

theorem insertSigs_append (input : PsetInput PK) (sigs sigs' : List (PK × List UInt8)) :
    (input.insertSigs sigs).insertSigs sigs' = input.insertSigs (sigs ++ sigs') := by
  simp only [PsetInput.insertSigs, List.foldl_append]

theorem mem_insertSigs {input : PsetInput PK} {sigs : List (PK × List UInt8)} {pk : PK} :
    pk ∈ (input.insertSigs sigs).partialSigs ↔
      pk ∈ input.partialSigs ∨ pk ∈ sigs.map Prod.fst := by
  induction sigs generalizing input with
  | nil => simp [PsetInput.insertSigs]
  | cons e sigs ih =>
      have hstep : input.insertSigs (e :: sigs) = (input.insertSigs [e]).insertSigs sigs := by
        rw [insertSigs_append]
        rfl
      rw [hstep, ih, PsetInput.insertSigs]
      simp only [List.foldl_cons, List.foldl_nil, AList.mem_insert, List.map_cons, List.mem_cons]
      rw [or_assoc, or_left_comm]

/-- The input with signatures inserted, under keys that satisfy `P`. -/
def PsetInput.Extends (P : KeyOrigins PK → PK → Prop) (input input' : PsetInput PK) : Prop :=
  ∃ sigs : List (PK × List UInt8),
    (∀ e ∈ sigs, P input.bip32Derivation e.1) ∧ input' = input.insertSigs sigs

structure Pset.Extends (P : KeyOrigins PK → PK → Prop) (pset pset' : Pset PK) : Prop where
  inputs : List.Forall₂ (PsetInput.Extends P) pset.inputs pset'.inputs
  outputs : pset'.outputs = pset.outputs

/-- Some input has a signature under a key that satisfies `P`. -/
def Pset.HasSig (P : KeyOrigins PK → PK → Prop) (pset : Pset PK) : Prop :=
  ∃ input ∈ pset.inputs, ∃ pk ∈ input.partialSigs, P input.bip32Derivation pk

section Extends

variable {P Q : KeyOrigins PK → PK → Prop} {pset pset' pset'' : Pset PK}

theorem PsetInput.Extends.refl (input : PsetInput PK) : input.Extends P input :=
  ⟨[], by simp, rfl⟩

theorem PsetInput.Extends.trans {input input' input'' : PsetInput PK} (h : input.Extends P input')
    (h' : input'.Extends P input'') : input.Extends P input'' := by
  obtain ⟨sigs, hsigs, rfl⟩ := h
  obtain ⟨sigs', hsigs', rfl⟩ := h'
  refine ⟨sigs ++ sigs', ?_, insertSigs_append input sigs sigs'⟩
  intro e he
  rcases List.mem_append.mp he with he | he
  · exact hsigs e he
  · exact hsigs' e he

theorem Pset.Extends.refl (pset : Pset PK) : pset.Extends P pset :=
  ⟨List.forall₂_same.mpr fun input _ => PsetInput.Extends.refl input, rfl⟩

theorem Pset.Extends.trans (h : pset.Extends P pset') (h' : pset'.Extends P pset'') :
    pset.Extends P pset'' := by
  refine ⟨?_, h'.outputs.trans h.outputs⟩
  have hcomp : ∀ {l l' l'' : List (PsetInput PK)}, List.Forall₂ (PsetInput.Extends P) l l' →
      List.Forall₂ (PsetInput.Extends P) l' l'' → List.Forall₂ (PsetInput.Extends P) l l'' := by
    intro l l' l'' hl
    induction hl generalizing l'' with
    | nil => exact fun hl' => hl'
    | cons hhead _ ih =>
        intro hl'
        cases hl' with
        | cons hhead' htail' => exact .cons (hhead.trans hhead') (ih htail')
  exact hcomp h.inputs h'.inputs

theorem Pset.Extends.mono (hsub : ∀ origins pk, P origins pk → Q origins pk)
    (h : pset.Extends P pset') : pset.Extends Q pset' := by
  refine ⟨h.inputs.imp ?_, h.outputs⟩
  rintro input _ ⟨sigs, hsigs, rfl⟩
  exact ⟨sigs, fun e he => hsub _ _ (hsigs e he), rfl⟩

/-- The input at an index is the one extended. -/
theorem Pset.Extends.getElem? (h : pset.Extends P pset') {i : Nat} {input' : PsetInput PK}
    (hi : pset'.inputs[i]? = some input') :
    ∃ input, pset.inputs[i]? = some input ∧ input.Extends P input' := by
  obtain ⟨hlen, hall⟩ := List.forall₂_iff_get.mp h.inputs
  obtain ⟨hlt, rfl⟩ := List.getElem?_eq_some_iff.mp hi
  exact ⟨_, List.getElem?_eq_getElem (hlen ▸ hlt), hall i (hlen ▸ hlt) hlt⟩

theorem Pset.Extends.set {i : Nat} {input input' : PsetInput PK} (hi : pset.inputs[i]? = some input)
    (h : input.Extends P input') :
    pset.Extends P { pset with inputs := pset.inputs.set i input' } := by
  refine ⟨List.forall₂_iff_get.mpr ⟨(List.length_set ..).symm, ?_⟩, rfl⟩
  intro j hj hj'
  rw [List.get_eq_getElem, List.get_eq_getElem, List.getElem_set]
  split
  · next heq =>
      subst heq
      obtain ⟨_, rfl⟩ := List.getElem?_eq_some_iff.mp hi
      exact h
  · exact PsetInput.Extends.refl _

/-- Signatures stay, under the keys of the same signers. -/
theorem Pset.HasSig.mono (hsig : pset.HasSig P) (h : pset.Extends Q pset') : pset'.HasSig P := by
  obtain ⟨input, hmem, pk, hpk, hP⟩ := hsig
  obtain ⟨i, hi⟩ := List.mem_iff_getElem?.mp hmem
  obtain ⟨hlen, hall⟩ := List.forall₂_iff_get.mp h.inputs
  obtain ⟨hlt, rfl⟩ := List.getElem?_eq_some_iff.mp hi
  obtain ⟨sigs, -, heq⟩ := hall i hlt (hlen ▸ hlt)
  refine ⟨_, List.get_mem pset'.inputs ⟨i, hlen ▸ hlt⟩, pk, ?_, ?_⟩
  · rw [heq]
    exact mem_insertSigs.mpr (.inl hpk)
  · rw [heq]
    exact hP

end Extends

/-! ## What the operations do to the PSET -/

section Merge

variable {P : KeyOrigins PK → PK → Prop} {fp : Fingerprint}

/-- Merging one input inserts signatures, and says so. -/
theorem mergeInput_spec {acc acc' : Pset PK × Bool} {signed : PsetInput PK × Nat}
    (hP : ∀ input, acc.1.inputs[signed.2]? = some input → ∀ e ∈ signed.1.attributable fp,
      P input.bip32Derivation e.1)
    (h : mergeInput fp acc signed = some acc') :
    acc.1.Extends P acc'.1 ∧ (acc'.2 → acc.2 ∨ acc'.1.HasSig P) := by
  obtain ⟨pset, foundNew⟩ := acc
  obtain ⟨signedInput, i⟩ := signed
  unfold mergeInput at h
  dsimp only at h hP
  split at h
  · split at h
    · cases h
      exact ⟨.refl pset, .inl⟩
    · cases h
  · next input hi =>
      cases h
      have hsigs : ∀ e ∈ (signedInput.attributable fp).filter fun e => e.1 ∉ input.partialSigs,
          P input.bip32Derivation e.1 := fun e he => hP input hi e (List.mem_filter.mp he).1
      refine ⟨.set hi ⟨_, hsigs, rfl⟩, ?_⟩
      intro hfound
      rcases Bool.or_eq_true_iff.mp hfound with hold | hnew
      · exact .inl hold
      · obtain ⟨e, he⟩ : ∃ e, e ∈ (signedInput.attributable fp).filter
            fun e => e.1 ∉ input.partialSigs :=
          List.exists_mem_of_ne_nil _ fun hnil => by
            rw [hnil] at hnew
            cases hnew
        obtain ⟨hlt, -⟩ := List.getElem?_eq_some_iff.mp hi
        refine .inr ⟨_, List.mem_set hlt _, e.1, ?_, hsigs e he⟩
        exact mem_insertSigs.mpr (.inr (List.mem_map_of_mem he))

theorem mergeInputs_spec : ∀ {signed : List (PsetInput PK × Nat)} {acc acc' : Pset PK × Bool},
    (∀ s ∈ signed, ∀ input, acc.1.inputs[s.2]? = some input → ∀ e ∈ s.1.attributable fp,
      P input.bip32Derivation e.1) →
    mergeInputs fp signed acc = some acc' →
    acc.1.Extends P acc'.1 ∧ (acc'.2 → acc.2 ∨ acc'.1.HasSig P)
  | [], acc, acc', _, h => by
      cases h
      exact ⟨.refl _, .inl⟩
  | s :: signed, acc, acc', hP, h => by
      obtain ⟨acc₁, hone, hrest⟩ := Option.bind_eq_some_iff.mp h
      obtain ⟨hext, hfound⟩ := mergeInput_spec (hP s (List.mem_cons_self ..)) hone
      have hP' : ∀ s' ∈ signed, ∀ input, acc₁.1.inputs[s'.2]? = some input →
          ∀ e ∈ s'.1.attributable fp, P input.bip32Derivation e.1 := by
        intro s' hs' input hi e he
        obtain ⟨input₀, hi₀, sigs, -, rfl⟩ := hext.getElem? hi
        exact hP s' (List.mem_cons_of_mem s hs') input₀ hi₀ e he
      obtain ⟨hext', hfound'⟩ := mergeInputs_spec hP' hrest
      refine ⟨hext.trans hext', ?_⟩
      intro h'
      rcases hfound' h' with h₁ | hsig
      · rcases hfound h₁ with h₀ | hsig
        · exact .inl h₀
        · exact .inr (hsig.mono hext')
      · exact .inr hsig

end Merge

/-! ## Runs -/

/-- A call to a coordinator. -/
inductive SignerCall (PK Id : Type) where
  | signWith (signer : ElementsSigner PK Id) (id : Id)
  | receiveSignature (id : Id) (signedPset : Pset PK)

section Runs

variable [DecidableEq Id]

namespace ElementsSigningCoordinator

def call (self : ElementsSigningCoordinator PK Id) :
    SignerCall PK Id → ElementsSigningCoordinator PK Id
  | .signWith signer id => (self.signWith signer id).2
  | .receiveSignature id signedPset => (self.receiveSignature id signedPset).2

variable {c : ElementsSigningCoordinator PK Id}

/-- Signing hands the PSET to the signer of a member, and counts the
member when some input was signed. -/
theorem call_signWith (signer : ElementsSigner PK Id) (id : Id) :
    c.call (.signWith signer id) = c ∨
    c.federation.contains id ∧ ∃ counted : Bool,
      (counted → ∃ n, (signer c.pset).1 = .ok n ∧ 0 < n) ∧
      c.call (.signWith signer id) = { c with
        pset := (signer c.pset).2
        signed := if counted then insert id c.signed else c.signed } := by
  unfold call signWith
  dsimp only
  split
  · exact .inl rfl
  · next hmember =>
      refine .inr ⟨by simpa using hmember, ?_⟩
      split
      · exact ⟨false, nofun, rfl⟩
      · next n hn =>
          by_cases hpos : 0 < n
          · refine ⟨true, fun _ => ⟨n, hn, hpos⟩, ?_⟩
            rw [if_pos hpos, if_pos rfl]
          · refine ⟨false, nofun, ?_⟩
            rw [if_neg hpos]
            rfl

/-- A returned PSET is merged for a member, which is counted when a
signature was new. -/
theorem call_receiveSignature (id : Id) (signedPset : Pset PK) :
    c.call (.receiveSignature id signedPset) = c ∨
    c.federation.contains id ∧ ∃ signer pset foundNew, c.federation.find id = some signer ∧
      mergeInputs signer.fingerprint signedPset.inputs.zipIdx (c.pset, false) =
        some (pset, foundNew) ∧
      c.call (.receiveSignature id signedPset) = { c with
        pset := pset, signed := if foundNew then insert id c.signed else c.signed } := by
  unfold call receiveSignature
  dsimp only
  split
  · exact .inl rfl
  · next hmember =>
      split
      · exact .inl rfl
      · next signer hfind =>
          split
          · exact .inl rfl
          · next pset foundNew hmerge =>
              refine .inr ⟨by simpa using hmember, signer, pset, foundNew, hfind, hmerge, ?_⟩
              cases foundNew <;> rfl

theorem call_federation (x : SignerCall PK Id) : (c.call x).federation = c.federation := by
  cases x with
  | signWith signer id =>
      rcases call_signWith (c := c) signer id with h | ⟨-, _, -, h⟩ <;> rw [h]
  | receiveSignature id signedPset =>
      rcases call_receiveSignature (c := c) id signedPset with h | ⟨-, _, _, _, -, -, h⟩ <;> rw [h]

end ElementsSigningCoordinator

/-- The states a coordinator of `fed` reaches from a blinded PSET by
calls that are allowed in the state they are made in. A call that
panics leaves no further state. -/
inductive SigningRun (fed : Federation Id) (b : BlindedPset PK)
    (allowed : ElementsSigningCoordinator PK Id → SignerCall PK Id → Prop) :
    ElementsSigningCoordinator PK Id → Prop
  | new {c : ElementsSigningCoordinator PK Id}
      (hnew : ElementsSigningCoordinator.new fed b = .ok c) :
      SigningRun fed b allowed c
  | call {c : ElementsSigningCoordinator PK Id} (x : SignerCall PK Id)
      (hrun : SigningRun fed b allowed c) (hallowed : allowed c x) :
      SigningRun fed b allowed (c.call x)

variable {fed : Federation Id} {b : BlindedPset PK}
  {allowed : ElementsSigningCoordinator PK Id → SignerCall PK Id → Prop}
  {c : ElementsSigningCoordinator PK Id}

theorem SigningRun.federation (hrun : SigningRun fed b allowed c) : c.federation = fed := by
  induction hrun with
  | new hnew => rw [(ElementsSigningCoordinator.new_eq_ok.mp hnew).2]
  | call x _ _ ih => rw [ElementsSigningCoordinator.call_federation, ih]

/-- The calls whose signers only insert signatures. -/
def InsertsOnly (c : ElementsSigningCoordinator PK Id) : SignerCall PK Id → Prop
  | .signWith signer _ => c.pset.Extends (fun _ _ => True) (signer c.pset).2
  | .receiveSignature _ _ => True

theorem extends_call {x : SignerCall PK Id} (hx : InsertsOnly c x) :
    c.pset.Extends (fun _ _ => True) (c.call x).pset := by
  cases x with
  | signWith signer id =>
      rcases ElementsSigningCoordinator.call_signWith (c := c) signer id with h | ⟨-, _, -, h⟩
      · rw [h]
        exact .refl _
      · rw [h]
        exact hx
  | receiveSignature id signedPset =>
      rcases ElementsSigningCoordinator.call_receiveSignature (c := c) id signedPset
        with h | ⟨-, signer, pset, foundNew, -, hmerge, h⟩
      · rw [h]
        exact .refl _
      · rw [h]
        exact (mergeInputs_spec (fun _ _ _ _ _ _ => trivial) hmerge).1

/-- In every state of a run the PSET is the one it started from, with
signatures inserted. -/
theorem SigningRun.extends (hrun : SigningRun fed b allowed c)
    (hinserts : ∀ c x, allowed c x → InsertsOnly c x) :
    b.pset.Extends (fun _ _ => True) c.pset := by
  induction hrun with
  | new hnew =>
      rw [(ElementsSigningCoordinator.new_eq_ok.mp hnew).2]
      exact .refl _
  | call x _ hallowed ih => exact ih.trans (extends_call (hinserts _ x hallowed))

end Runs

end EmvaultElements
