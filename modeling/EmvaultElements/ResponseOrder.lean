import EmvaultElements.Responses

/-!
# The order of the responses

Responses from signers with different fingerprints, whose PSETs carry
the coordinator's key origins, want no place in common. So it does not
matter in which order they come: each is accepted or refused as it would
have been alone, and the coordinator collects the same signatures and
the same signers, and finalizes to the same transaction
(`order_independent`).
-/

namespace EmvaultElements

variable {PK Id : Type} [DecidableEq PK] [DecidableEq Id]

namespace ElementsSigningCoordinator

/-- Process responses one after the other. -/
def receiveAll (c : ElementsSigningCoordinator PK Id) :
    List (Id × Pset PK) → List (Outcome (PsetError Id) Unit) × ElementsSigningCoordinator PK Id
  | [] => ([], c)
  | r :: rs =>
      let (o, c') := c.receiveSignature r.1 r.2
      let (os, c'') := c'.receiveAll rs
      (o :: os, c'')

/-- Every response has as many inputs as the coordinator, with the same
key origins. -/
def SameOrigins (c : ElementsSigningCoordinator PK Id) (rs : List (Id × Pset PK)) : Prop :=
  ∀ r ∈ rs, r.2.inputs.length = c.pset.inputs.length ∧
    ∀ (i : Nat) input signedInput, c.pset.inputs[i]? = some input →
      r.2.inputs[i]? = some signedInput → ∀ pk,
      signedInput.bip32Derivation.lookup pk = input.bip32Derivation.lookup pk

/-- The responses are from distinct members, with distinct fingerprints. -/
def DistinctSigners (fed : Federation Id) : List (Id × Pset PK) → Prop :=
  List.Pairwise fun r r' => r.1 ≠ r'.1 ∧ ∀ signer signer', fed.find r.1 = some signer →
    fed.find r'.1 = some signer' → signer.fingerprint ≠ signer'.fingerprint

/-! ## Responses that do not see each other -/

section

variable {c d : ElementsSigningCoordinator PK Id} {rs : List (Id × Pset PK)}

omit [DecidableEq Id] in
theorem SameOrigins.of_extends (h : SameOrigins c rs)
    (hext : c.pset.Extends (fun _ _ => True) d.pset) : SameOrigins d rs := by
  intro r hr
  obtain ⟨hlen, horigins⟩ := h r hr
  refine ⟨hlen.trans hext.inputs.length_eq, ?_⟩
  intro i input signedInput hi hs pk
  obtain ⟨input₀, hi₀, sigs, -, rfl⟩ := hext.getElem? hi
  exact horigins i input₀ signedInput hi₀ hs pk

omit [DecidableEq Id] in
theorem apart_offer (h : SameOrigins c rs) {r r' : Id × Pset PK} (hr : r ∈ rs) (hr' : r' ∈ rs)
    (hdistinct : ∀ signer signer', c.federation.find r.1 = some signer →
      c.federation.find r'.1 = some signer' → signer.fingerprint ≠ signer'.fingerprint) :
    Board.Apart (c.federation.offer r) (c.federation.offer r') := by
  have hplace : ∀ {r : Id × Pset PK} {i : Nat} {pk : PK} {sig : List UInt8}, r ∈ rs →
      c.federation.offer r (i, pk) = some sig → ∃ signer input,
        c.federation.find r.1 = some signer ∧ c.pset.inputs[i]? = some input ∧
        Origin signer.fingerprint input.bip32Derivation pk := by
    intro r i pk sig hr hoffer
    obtain ⟨signer, hmember, hoffer⟩ := Option.bind_eq_some_iff.mp hoffer
    obtain ⟨s, hs, ⟨path, hpath⟩, -⟩ := offer_eq_some.mp hoffer
    obtain ⟨hlen, horigins⟩ := h r hr
    rcases getElem?_both hlen i with ⟨-, hnone⟩ | ⟨input, _, hi, -⟩
    · rw [hnone] at hs
      cases hs
    · refine ⟨signer, input, ?_, hi, path, ?_⟩
      · exact (Federation.member_eq_some_iff.mp hmember).2
      · rw [← horigins i input s hi hs pk]
        exact hpath
  rintro ⟨i, pk⟩
  cases hoffer : c.federation.offer r (i, pk) with
  | none => exact .inl rfl
  | some sig =>
      refine .inr (Option.eq_none_iff_forall_ne_some.mpr ?_)
      intro sig' hoffer'
      obtain ⟨signer, input, hfind, hi, path, hpath⟩ := hplace hr hoffer
      obtain ⟨signer', input', hfind', hi', path', hpath'⟩ := hplace hr' hoffer'
      obtain rfl := Option.some.inj (hi.symm.trans hi')
      exact hdistinct signer signer' hfind hfind'
        (congrArg Prod.fst (Option.some.inj (hpath.symm.trans hpath')))

/-- The outcome of a response depends on the federation and on whether
the offer brings something. -/
theorem Receives.outcome_congr {r : Id × Pset PK} {o o' : Outcome (PsetError Id) Unit}
    {c' d' : ElementsSigningCoordinator PK Id} (h : Receives c r o c') (h' : Receives d r o' d')
    (hfed : d.federation = c.federation)
    (hbrings : Board.Brings d.pset.board (c.federation.offer r) ↔
      Board.Brings c.pset.board (c.federation.offer r)) : o' = o := by
  have hiff : o' = .ok () ↔ o = .ok () := by
    rw [h.ok_iff, h'.ok_iff, hfed]
    exact hbrings
  by_cases hok : o = .ok ()
  · rw [hok, hiff.mpr hok]
  · rw [h.refused hok, h'.refused (mt hiff.mp hok), hfed]

end

/-! ## Collecting -/

/-- What the responses make of the coordinator, as if each had come
first. -/
structure ReceivesAll (c : ElementsSigningCoordinator PK Id) (rs : List (Id × Pset PK))
    (os : List (Outcome (PsetError Id) Unit)) (c' : ElementsSigningCoordinator PK Id) : Prop where
  outcomes : os = rs.map fun r => (c.receiveSignature r.1 r.2).1
  federation : c'.federation = c.federation
  board : c'.pset.board = Board.postAll c.pset.board (rs.map c.federation.offer)
  signed : ∀ id, id ∈ c'.signed ↔
    id ∈ c.signed ∨ ∃ r ∈ rs, id = r.1 ∧ (c.receiveSignature r.1 r.2).1 = .ok ()
  inputs : c.pset.Extends (fun _ _ => True) c'.pset

theorem receivesAll {rs : List (Id × Pset PK)} : ∀ {c : ElementsSigningCoordinator PK Id},
    SameOrigins c rs → DistinctSigners c.federation rs →
    ReceivesAll c rs (c.receiveAll rs).1 (c.receiveAll rs).2 := by
  induction rs with
  | nil =>
      intro c _ _
      exact ⟨rfl, rfl, rfl, by simp [receiveAll], .refl _⟩
  | cons r rs ih =>
      intro c horigins hdistinct
      have hrs : SameOrigins c rs := fun r' hr' => horigins r' (List.mem_cons_of_mem r hr')
      obtain ⟨hfirst, hrest⟩ := List.pairwise_cons.mp hdistinct
      have hone := receives c r (horigins r (List.mem_cons_self ..)).1
      obtain ⟨c₁, hc₁⟩ : ∃ c₁, c₁ = (c.receiveSignature r.1 r.2).2 := ⟨_, rfl⟩
      rw [← hc₁] at hone
      have hall := ih (hrs.of_extends hone.inputs) (hone.federation ▸ hrest)
      -- The others do not see the first response.
      have hsame : ∀ r' ∈ rs,
          (c₁.receiveSignature r'.1 r'.2).1 = (c.receiveSignature r'.1 r'.2).1 := by
        intro r' hr'
        have hapart := apart_offer horigins (List.mem_cons_of_mem r hr') (List.mem_cons_self ..)
          fun signer signer' hs hs' => ((hfirst r' hr').2 signer' signer hs' hs).symm
        refine (receives c r' (hrs r' hr').1).outcome_congr
          (receives c₁ r' ((hrs.of_extends hone.inputs) r' hr').1) hone.federation ?_
        rw [hone.board]
        exact Board.brings_post_iff hapart
      have hreceive : c.receiveAll (r :: rs) =
          ((c.receiveSignature r.1 r.2).1 :: (c₁.receiveAll rs).1, (c₁.receiveAll rs).2) := by
        rw [hc₁]
        rfl
      rw [hreceive]
      refine ⟨?_, hall.federation.trans hone.federation, ?_, ?_, hone.inputs.trans hall.inputs⟩
      · rw [List.map_cons, hall.outcomes]
        exact congrArg _ (List.map_congr_left hsame)
      · rw [hall.board, hone.board, hone.federation]
        rfl
      · intro id
        rw [hall.signed, hone.signed, or_assoc]
        refine or_congr_right ?_
        simp only [List.mem_cons, exists_eq_or_imp]
        refine or_congr_right ?_
        constructor
        · rintro ⟨r', hr', rfl, hok⟩
          exact ⟨r', hr', rfl, by rw [← hsame r' hr']; exact hok⟩
        · rintro ⟨r', hr', rfl, hok⟩
          exact ⟨r', hr', rfl, by rw [hsame r' hr']; exact hok⟩

/-! ## Finalizing -/

/-- Inputs that differ at most in how their signatures are kept. -/
def SameSigs (input input' : PsetInput PK) : Prop :=
  input' = { input with partialSigs := input'.partialSigs } ∧
    ∀ pk, input'.getSig pk = input.getSig pk

section

variable [ElementsLib PK]

omit [DecidableEq Id] in
/-- Finalizing reads the signatures by key, and clears them. -/
theorem finalizeInputs_congr {inputs inputs' : List (PsetInput PK)}
    (h : List.Forall₂ SameSigs inputs inputs') : ∀ idx,
    (finalizeInputs Id idx inputs').1 = (finalizeInputs Id idx inputs).1 ∧
      ((finalizeInputs Id idx inputs).1 = .ok () →
        (finalizeInputs Id idx inputs').2 = (finalizeInputs Id idx inputs).2) := by
  induction h with
  | nil => exact fun _ => ⟨rfl, fun _ => rfl⟩
  | @cons input input' inputs inputs' hhead _ ih =>
      intro idx
      obtain ⟨hrest, hsigs⟩ := hhead
      have hscript : input'.witnessScript = input.witnessScript := by rw [hrest]
      have hone : ∀ witnessScript, finalizeInput input' witnessScript =
          finalizeInput input witnessScript := by
        intro witnessScript
        have hordered : orderedSigs input' witnessScript = orderedSigs input witnessScript := by
          rw [orderedSigs, orderedSigs, show input'.getSig = input.getSig from funext hsigs]
        rw [finalizeInput, finalizeInput, hordered, hrest]
      unfold finalizeInputs
      rw [hscript]
      cases input.witnessScript with
      | none =>
          refine ⟨rfl, ?_⟩
          intro hok
          cases hok
      | some witnessScript =>
          obtain ⟨hres, hinputs⟩ := ih (idx + 1)
          refine ⟨hres, ?_⟩
          intro hok
          dsimp only
          rw [hone, hinputs hok]

omit [DecidableEq Id] in
/-- Coordinators with the same signatures and signers finalize alike. -/
theorem finalize_congr {c c' : ElementsSigningCoordinator PK Id}
    (hfed : c'.federation = c.federation) (hsigned : c'.signed = c.signed)
    (houtputs : c'.pset.outputs = c.pset.outputs)
    (hinputs : List.Forall₂ SameSigs c.pset.inputs c'.pset.inputs) : c'.finalize = c.finalize := by
  have hcomplete : c'.isComplete = c.isComplete := by
    rw [isComplete, isComplete, signaturesCollected, signaturesCollected, hfed, hsigned]
  obtain ⟨hres, hfinal⟩ : (finalizeInputs Id 0 c'.pset.inputs).1 =
    (finalizeInputs Id 0 c.pset.inputs).1 ∧
      ((finalizeInputs Id 0 c.pset.inputs).1 = .ok () →
        (finalizeInputs Id 0 c'.pset.inputs).2 = (finalizeInputs Id 0 c.pset.inputs).2) :=
    finalizeInputs_congr hinputs 0
  have hpset : (finalizeP2wshPset Id c'.pset).1 = (finalizeP2wshPset Id c.pset).1 ∧
      ((finalizeP2wshPset Id c.pset).1 = .ok () →
        (finalizeP2wshPset Id c'.pset).2 = (finalizeP2wshPset Id c.pset).2) := by
    refine ⟨hres, ?_⟩
    intro hok
    simp only [finalizeP2wshPset, houtputs, hfinal hok]
  unfold finalize
  rw [hcomplete, signaturesCollected, signaturesCollected, hsigned, hfed]
  rcases hc : finalizeP2wshPset Id c.pset with ⟨res, pset⟩
  rcases hc' : finalizeP2wshPset Id c'.pset with ⟨res', pset'⟩
  rw [hc, hc'] at hpset
  obtain ⟨rfl, hsame⟩ := hpset
  cases res' with
  | error e => rfl
  | ok u =>
      obtain rfl := hsame rfl
      rfl

end

omit [DecidableEq Id] in
/-- What one PSET was extended to, twice, with the same signatures. -/
theorem sameSigs_of_extends {pset₀ pset pset' : Pset PK}
    (h : pset₀.Extends (fun _ _ => True) pset) (h' : pset₀.Extends (fun _ _ => True) pset')
    (hboard : pset'.board = pset.board) : List.Forall₂ SameSigs pset.inputs pset'.inputs := by
  refine List.forall₂_iff_get.mpr ⟨h.inputs.length_eq.symm.trans h'.inputs.length_eq, ?_⟩
  intro i hi hi'
  have hget : pset.inputs[i]? = some pset.inputs[i] := List.getElem?_eq_getElem hi
  have hget' : pset'.inputs[i]? = some pset'.inputs[i] := List.getElem?_eq_getElem hi'
  obtain ⟨input₀, hi₀, sigs, -, heq⟩ := h.getElem? hget
  obtain ⟨input₀', hi₀', sigs', -, heq'⟩ := h'.getElem? hget'
  obtain rfl := Option.some.inj (hi₀.symm.trans hi₀')
  rw [List.get_eq_getElem, List.get_eq_getElem]
  constructor
  · rw [heq, heq']
    rfl
  · intro pk
    have hplace := congrFun hboard (i, pk)
    rw [Pset.board, Pset.board, hget, hget'] at hplace
    exact hplace

/-- Collecting responses is order independent: every response gets the
same answer in any order, and the coordinator has the same signatures on
every input and the same signers, is complete or not alike, and
finalizes alike. -/
theorem order_independent [ElementsLib PK] {c : ElementsSigningCoordinator PK Id}
    {rs rs' : List (Id × Pset PK)} (hperm : rs.Perm rs') (horigins : SameOrigins c rs)
    (hdistinct : DistinctSigners c.federation rs) :
    (rs.zip (c.receiveAll rs).1).Perm (rs'.zip (c.receiveAll rs').1) ∧
    (∀ (i : Nat) pk, ((c.receiveAll rs).2.pset.inputs[i]?).map (·.getSig pk) =
      ((c.receiveAll rs').2.pset.inputs[i]?).map (·.getSig pk)) ∧
    (c.receiveAll rs).2.signed = (c.receiveAll rs').2.signed ∧
    (c.receiveAll rs).2.isComplete = (c.receiveAll rs').2.isComplete ∧
    (c.receiveAll rs).2.finalize = (c.receiveAll rs').2.finalize := by
  have horigins' : SameOrigins c rs' := fun r hr => horigins r (hperm.mem_iff.mpr hr)
  have hdistinct' : DistinctSigners c.federation rs' := by
    refine hperm.pairwise hdistinct ?_
    rintro r r' ⟨hid, hfp⟩
    exact ⟨hid.symm, fun signer signer' hs hs' => (hfp signer' signer hs' hs).symm⟩
  have hall := receivesAll horigins hdistinct
  have hall' := receivesAll horigins' hdistinct'
  have hapart : (rs.map c.federation.offer).Pairwise Board.Apart := by
    rw [List.pairwise_map]
    refine hdistinct.imp_of_mem ?_
    intro r r' hr hr' h
    exact apart_offer horigins hr hr' h.2
  have hboard : (c.receiveAll rs).2.pset.board = (c.receiveAll rs').2.pset.board := by
    rw [hall.board, hall'.board]
    exact Board.postAll_perm (hperm.map _) hapart _
  have hsigned : (c.receiveAll rs).2.signed = (c.receiveAll rs').2.signed := by
    ext id
    rw [hall.signed, hall'.signed]
    simp only [hperm.mem_iff]
  have hfed : (c.receiveAll rs).2.federation = (c.receiveAll rs').2.federation :=
    hall.federation.trans hall'.federation.symm
  have hsame := sameSigs_of_extends hall'.inputs hall.inputs hboard
  refine ⟨?_, ?_, hsigned, ?_, ?_⟩
  · rw [hall.outcomes, hall'.outcomes]
    have hzip : ∀ l : List (Id × Pset PK), l.zip (l.map fun r => (c.receiveSignature r.1 r.2).1) =
        l.map fun r => (r, (c.receiveSignature r.1 r.2).1) := by
      intro l
      exact List.map_prod_left_eq_zip.symm
    rw [hzip, hzip]
    exact hperm.map _
  · intro i pk
    rcases getElem?_both hsame.length_eq i with ⟨hnone', hnone⟩ | ⟨input', input, hi', hi⟩
    · rw [hnone, hnone']
    · have hplace := congrFun hboard (i, pk)
      rw [Pset.board, Pset.board, hi, hi'] at hplace
      rw [hi, hi', Option.map_some, Option.map_some]
      exact congrArg some hplace
  · rw [isComplete, isComplete, signaturesCollected, signaturesCollected, hfed, hsigned]
  · exact finalize_congr hfed hsigned (hall.inputs.outputs.trans hall'.inputs.outputs.symm) hsame

/-- What the member whose key is `key` sends back. -/
def ownedBy (key : CompressedKey) (sig : List UInt8) : Pset CompressedKey :=
  { ownedPset.pset with inputs := [{ ownedInput with partialSigs := Map.collect [(key, sig)] }] }

theorem order_independent_bothSign :
    (unsignedByBoth.receiveAll [(1, ownedBy keyOne [1]), (2, ownedBy keyTwo [2])]).2.isComplete =
      (unsignedByBoth.receiveAll [(2, ownedBy keyTwo [2]), (1, ownedBy keyOne [1])]).2.isComplete ∧
    (unsignedByBoth.receiveAll [(1, ownedBy keyOne [1]), (2, ownedBy keyTwo [2])]).2.isComplete =
      .ok true := by
  have horigins : SameOrigins unsignedByBoth [(1, ownedBy keyOne [1]),
    (2, ownedBy keyTwo [2])] := by
    intro r hr
    have howned : ∃ key sig, r.2 = ownedBy key sig := by
      simp only [List.mem_cons, List.not_mem_nil, or_false] at hr
      obtain rfl | rfl := hr <;> exact ⟨_, _, rfl⟩
    obtain ⟨key, sig, howned⟩ := howned
    rw [howned]
    refine ⟨rfl, ?_⟩
    rintro (_ | i) input signedInput hi hs pk
    · cases hi
      cases hs
      rfl
    · cases hi
  have hdistinct : DistinctSigners unsignedByBoth.federation
      [(1, ownedBy keyOne [1]), (2, ownedBy keyTwo [2])] := by
    refine List.pairwise_pair.mpr ⟨by decide, ?_⟩
    intro signer signer' hs hs'
    cases hs
    cases hs'
    decide
  exact ⟨(order_independent (List.Perm.swap ..) horigins hdistinct).2.2.2.1, by decide⟩

end ElementsSigningCoordinator

end EmvaultElements
