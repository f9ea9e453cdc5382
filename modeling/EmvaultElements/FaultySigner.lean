import EmvaultElements.ResponseOrder

/-!
# A faulty signer

The coordinator does not verify a signature it is given. Once a quorum
has signed every input, `finalize` succeeds, and takes for each input
the signatures under the first signed keys of the script, valid or not.

So whether the opcode accepts a witness depends on these keys alone
(`finalize_takes_first`). A faulty member whose key comes after a quorum
of others in the script does no harm; one whose key comes before takes
the place of a valid signature (`faulty_signature_displaces`).
-/

namespace EmvaultElements

variable {PK Id : Type} [DecidableEq PK] [DecidableEq Id]

/-! ## The federation -/

/-- The inputs spend scripts of a federation with the given members, of
whom there are at most 16: on every input, each member has a key of its
own in the script, listed under its fingerprint. -/
structure FederationInputs (encode : PK → List UInt8) (fed : Federation Id) (members : Finset Id)
    (own : Id → Nat → PK) (keys : Nat → List PK) (pset : Pset PK) : Prop where
  card_le : members.card ≤ 16
  contains : ∀ id, fed.contains id ↔ id ∈ members
  inputs : ∀ (i : Nat) input, pset.inputs[i]? = some input →
    MultisigInput encode fed.threshold (keys i) input
  own_mem : ∀ id ∈ members, ∀ (i : Nat) input, pset.inputs[i]? = some input → own id i ∈ keys i
  own_origin : ∀ id signer, fed.find id = some signer → ∀ (i : Nat) input,
    pset.inputs[i]? = some input → Origin signer.fingerprint input.bip32Derivation (own id i)
  own_inj : ∀ i, Set.InjOn (own · i) members

namespace ElementsSigningCoordinator

/-- A response of the member was accepted, and has a valid signature
under the member's own key on every input. -/
def SignedWell (c : ElementsSigningCoordinator PK Id) (rs : List (Id × Pset PK))
    (own : Id → Nat → PK) (valid : Nat → PK → List UInt8 → Bool) (id : Id) : Prop :=
  ∃ signedPset, ((id, signedPset), Outcome.ok ()) ∈ rs.zip (c.receiveAll rs).1 ∧
    ∀ (i : Nat) signedInput, signedPset.inputs[i]? = some signedInput →
      ∃ sig, signedInput.getSig (own id i) = some sig ∧ valid i (own id i) sig

/-! ## Responses in any number -/

/-- What any responses make of the coordinator. -/
structure Collects (c : ElementsSigningCoordinator PK Id) (rs : List (Id × Pset PK))
    (os : List (Outcome (PsetError Id) Unit)) (c' : ElementsSigningCoordinator PK Id) : Prop where
  federation : c'.federation = c.federation
  inputs : c.pset.Extends (fun _ _ => True) c'.pset
  kept : ∀ k, (c.pset.board k).isSome → (c'.pset.board k).isSome
  signed : ∀ id, id ∈ c'.signed ↔
    id ∈ c.signed ∨ ∃ signedPset, ((id, signedPset), Outcome.ok ()) ∈ rs.zip os
  accepted : ∀ r, (r, Outcome.ok ()) ∈ rs.zip os →
    (∃ signer, c.federation.member r.1 = some signer) ∧
    ∀ k, (c.federation.offer r k).isSome → (c'.pset.board k).isSome

omit [DecidableEq Id] in
/-- Only a member's response is accepted. -/
theorem Receives.member_of_ok [DecidableEq Id] {c c' : ElementsSigningCoordinator PK Id}
    {r : Id × Pset PK} (h : Receives c r (.ok ()) c') :
    ∃ signer, c.federation.member r.1 = some signer := by
  obtain ⟨k, -, hsome⟩ := h.ok_iff.mp rfl
  obtain ⟨sig, hoffer⟩ := Option.isSome_iff_exists.mp hsome
  obtain ⟨signer, hmember, -⟩ := Option.bind_eq_some_iff.mp hoffer
  exact ⟨signer, hmember⟩

theorem collects {rs : List (Id × Pset PK)} : ∀ {c : ElementsSigningCoordinator PK Id},
    SameOrigins c rs → Collects c rs (c.receiveAll rs).1 (c.receiveAll rs).2 := by
  induction rs with
  | nil =>
      intro c _
      exact ⟨rfl, .refl _, fun _ h => h, by simp [receiveAll], by simp⟩
  | cons r rs ih =>
      intro c horigins
      have hone := receives c r (horigins r (List.mem_cons_self ..)).1
      obtain ⟨o, c₁, hreceive⟩ : ∃ o c₁, c.receiveSignature r.1 r.2 = (o, c₁) := ⟨_, _, rfl⟩
      rw [hreceive] at hone
      have hrs : SameOrigins c rs := fun r' hr' => horigins r' (List.mem_cons_of_mem r hr')
      have hall := ih (hrs.of_extends hone.inputs)
      have hcons : c.receiveAll (r :: rs) = (o :: (c₁.receiveAll rs).1, (c₁.receiveAll rs).2) := by
        rw [receiveAll, hreceive]
      have hposted : ∀ k, ((c.pset.board k).isSome ∨ (c.federation.offer r k).isSome) →
          (c₁.pset.board k).isSome := by
        intro k hk
        rw [hone.board, Board.post, Option.isSome_or, Bool.or_eq_true]
        exact hk
      rw [hcons]
      refine ⟨hall.federation.trans hone.federation, hone.inputs.trans hall.inputs,
        fun k hk => hall.kept k (hposted k (.inl hk)), ?_, ?_⟩
      · intro id
        rw [hall.signed, hone.signed, or_assoc]
        refine or_congr_right ?_
        simp only [List.zip_cons_cons, List.mem_cons, exists_or]
        refine or_congr_left ?_
        constructor
        · rintro ⟨rfl, rfl⟩
          exact ⟨r.2, rfl⟩
        · rintro ⟨signedPset, heq⟩
          cases heq
          exact ⟨rfl, rfl⟩
      · intro r' hr'
        rw [List.zip_cons_cons] at hr'
        rcases List.mem_cons.mp hr' with heq | hr'
        · cases heq
          exact ⟨hone.member_of_ok, fun k hk => hall.kept k (hposted k (.inr hk))⟩
        · rw [← hone.federation]
          exact hall.accepted r' hr'

/-! ## What finalize takes -/

/-- Every signature under the first `m` signed keys is valid. -/
def FirstValid (valid : PK → List UInt8 → Bool) (m : Nat) (keys : List PK) (input : PsetInput PK) :
    Prop :=
  ∀ key ∈ (signedKeys input keys).take m, ∀ sig, input.getSig key = some sig → valid key sig

/-- No signature is valid under a key of the script it was not given
under. -/
def ValidOnlyOwn (valid : PK → List UInt8 → Bool) (keys : List PK) (input : PsetInput PK) : Prop :=
  ∀ key ∈ keys, ∀ sig, input.getSig key = some sig → ∀ key' ∈ keys, valid key' sig → key' = key

omit [DecidableEq Id] in
/-- The witness of the first `m` signed keys is accepted when their
signatures are valid, and only then if no signature is valid under
another key. -/
theorem acceptsMultisig_first (valid : PK → List UInt8 → Bool) {m : Nat} {keys : List PK}
    {input : PsetInput PK} (henough : m ≤ (signedKeys input keys).length) (script : Script) :
    (FirstValid valid m keys input → AcceptsMultisig valid m keys script
      ([] :: ((keys.filterMap input.getSig).take m ++ [script.bytes]))) ∧
    (ValidOnlyOwn valid keys input → AcceptsMultisig valid m keys script
      ([] :: ((keys.filterMap input.getSig).take m ++ [script.bytes])) →
      FirstValid valid m keys input) := by
  have hkeys : (keys.filter fun key => (input.getSig key).isSome) = signedKeys input keys := by
    refine List.filter_congr ?_
    intro key _
    rw [Bool.eq_iff_iff, decide_eq_true_eq]
    exact AList.lookup_isSome
  constructor
  · intro hfirst
    refine ⟨_, rfl, ?_, Multisig.checkMultisig_iff.mpr (Multisig.inOrder_take_lookup ?_)⟩
    · rw [List.length_take, length_filterMap_lookup]
      exact Nat.min_eq_left henough
    · rw [hkeys]
      exact hfirst
  · rintro hown ⟨sigs, hwitness, -, hcheck⟩ key hkey sig hsig
    obtain rfl := List.append_cancel_right (List.cons.inj hwitness).2
    have hmem : some sig ∈ ((keys.filterMap input.getSig).take m).map some := by
      rw [List.map_take, filterMap_lookup_eq, ← List.map_take, ← hsig]
      exact List.mem_map_of_mem hkey
    obtain ⟨sig', hsig', heq⟩ := List.mem_map.mp hmem
    obtain rfl := Option.some.inj heq
    obtain ⟨key', hkey', hvalid⟩ := (Multisig.checkMultisig_iff.mp hcheck).exists_key hsig'
    have hin : key ∈ keys := List.mem_of_mem_filter (List.mem_of_mem_take hkey)
    rwa [hown key hin _ hsig key' hkey' hvalid] at hvalid

section

variable {encode : PK → List UInt8} {members : Finset Id} {own : Id → Nat → PK}
  {keys : Nat → List PK}
  {valid : Nat → PK → List UInt8 → Bool} {c : ElementsSigningCoordinator PK Id}
  {rs : List (Id × Pset PK)}

/-- A member that signed well has signed every input. -/
theorem SignedWell.own_mem (hfed : FederationInputs encode c.federation members own keys c.pset)
    (horigins : SameOrigins c rs) {id : Id} (hwell : SignedWell c rs own valid id) :
    id ∈ members ∧ ∀ (i : Nat) input, (c.receiveAll rs).2.pset.inputs[i]? = some input →
      own id i ∈ signedKeys input (keys i) := by
  obtain ⟨signedPset, haccepted, hsigs⟩ := hwell
  have hall := collects horigins
  obtain ⟨⟨signer, hmember⟩, hposted⟩ := hall.accepted _ haccepted
  obtain ⟨hcontains, hfind⟩ := Federation.member_eq_some_iff.mp hmember
  have hid : id ∈ members := (hfed.contains id).mp hcontains
  refine ⟨hid, ?_⟩
  intro i input hi
  obtain ⟨input₀, hi₀, -⟩ := hall.inputs.getElem? hi
  obtain ⟨hlen, hsame⟩ := horigins _ (List.of_mem_zip haccepted).1
  obtain ⟨signedInput, hs⟩ : ∃ signedInput, signedPset.inputs[i]? = some signedInput := by
    rcases getElem?_both hlen i with ⟨hnone, -⟩ | ⟨_, signedInput, -, hs⟩
    · rw [hi₀] at hnone
      cases hnone
    · exact ⟨signedInput, hs⟩
  obtain ⟨sig, hsig, -⟩ := hsigs i signedInput hs
  obtain ⟨path, hpath⟩ := hfed.own_origin id signer hfind i input₀ hi₀
  have hoffer : c.federation.offer (id, signedPset) (i, own id i) = some sig := by
    rw [Federation.offer, hmember]
    refine offer_eq_some.mpr ⟨signedInput, hs, ⟨path, ?_⟩, hsig⟩
    rw [hsame i input₀ signedInput hi₀ hs]
    exact hpath
  have hplace := hposted (i, own id i) (Option.isSome_of_eq_some hoffer)
  rw [Pset.board, hi] at hplace
  refine List.mem_filter.mpr ⟨hfed.own_mem id hid i input₀ hi₀, decide_eq_true ?_⟩
  exact AList.lookup_isSome.mp hplace

/-- A quorum that signed well has enough signed keys on every input. -/
theorem enough_of_quorum (hfed : FederationInputs encode c.federation members own keys c.pset)
    (horigins : SameOrigins c rs) {ids : Finset Id} (hcard : c.federation.threshold ≤ ids.card)
    (hwell : ∀ id ∈ ids, SignedWell c rs own valid id) {i : Nat} {input : PsetInput PK}
    (hi : (c.receiveAll rs).2.pset.inputs[i]? = some input) :
    c.federation.threshold ≤ (signedKeys input (keys i)).length := by
  have hinj : Set.InjOn (own · i) ids := (hfed.own_inj i).mono fun id hid =>
    (SignedWell.own_mem hfed horigins (hwell id hid)).1
  have hsub : ids.image (own · i) ⊆ (signedKeys input (keys i)).toFinset := by
    intro key hkey
    obtain ⟨id, hid, rfl⟩ := Finset.mem_image.mp hkey
    exact List.mem_toFinset.mpr ((SignedWell.own_mem hfed horigins (hwell id hid)).2 i input hi)
  calc c.federation.threshold ≤ ids.card := hcard
    _ = (ids.image (own · i)).card := (Finset.card_image_of_injOn hinj).symm
    _ ≤ (signedKeys input (keys i)).toFinset.card := Finset.card_le_card hsub
    _ ≤ (signedKeys input (keys i)).length := List.toFinset_card_le _

/-- The scripts of the inputs stay as they are. -/
theorem multisigInput_of_receiveAll
    (hfed : FederationInputs encode c.federation members own keys c.pset)
    (horigins : SameOrigins c rs) {i : Nat} {input : PsetInput PK}
    (hi : (c.receiveAll rs).2.pset.inputs[i]? = some input) :
    MultisigInput encode c.federation.threshold (keys i) input := by
  obtain ⟨input₀, hi₀, hext⟩ := (collects horigins).inputs.getElem? hi
  exact (hfed.inputs i input₀ hi₀).of_extends hext

/-- It completes the signing. -/
theorem isComplete_of_quorum (hfed : FederationInputs encode c.federation members own keys c.pset)
    (horigins : SameOrigins c rs) (hsigned : c.signed = ∅) {ids : Finset Id}
    (hcard : c.federation.threshold ≤ ids.card)
    (hwell : ∀ id ∈ ids, SignedWell c rs own valid id) :
    (c.receiveAll rs).2.isComplete = .ok true := by
  have hall := collects horigins
  have hids : ids ⊆ (c.receiveAll rs).2.signed := by
    intro id hid
    obtain ⟨signedPset, haccepted, -⟩ := hwell id hid
    exact (hall.signed id).mpr (.inr ⟨signedPset, haccepted⟩)
  have hmembers : (c.receiveAll rs).2.signed ⊆ members := by
    intro id hid
    rcases (hall.signed id).mp hid with hold | ⟨signedPset, haccepted⟩
    · rw [hsigned] at hold
      exact absurd hold (Finset.notMem_empty id)
    · obtain ⟨⟨signer, hmember⟩, -⟩ := hall.accepted _ haccepted
      exact (hfed.contains id).mp (Federation.member_eq_some_iff.mp hmember).1
  have hle : (c.receiveAll rs).2.signed.card ≤ 16 :=
    Nat.le_trans (Finset.card_le_card hmembers) hfed.card_le
  unfold isComplete signaturesCollected
  rw [if_pos (Nat.lt_of_le_of_lt hle (by decide)), hall.federation,
    decide_eq_true (Nat.le_trans hcard (Finset.card_le_card hids))]

end

/-! ## Finalizing -/

section

variable [ElementsLib PK]

/-- The transaction can be extracted from the PSET, whatever signatures
and witnesses its inputs have. -/
def Extracts (pset : Pset PK) : Prop :=
  ∀ pset' : Pset PK, pset'.outputs = pset.outputs →
    pset'.inputs.map (·.previousOutput) = pset.inputs.map (·.previousOutput) →
    ∃ transaction, ElementsLib.extractTx pset' = .ok transaction

omit [DecidableEq Id] in
theorem finalizeInputs_previousOutput : ∀ (idx : Nat) (inputs : List (PsetInput PK)),
    (finalizeInputs Id idx inputs).2.map (·.previousOutput) = inputs.map (·.previousOutput)
  | _, [] => rfl
  | idx, input :: inputs => by
      unfold finalizeInputs
      split
      · rfl
      · dsimp only
        rw [List.map_cons, List.map_cons, finalizeInputs_previousOutput (idx + 1) inputs]
        rfl

omit [DecidableEq Id] [ElementsLib PK] in
theorem previousOutput_of_extends {Q : KeyOrigins PK → PK → Prop}
    {inputs inputs' : List (PsetInput PK)}
    (h : List.Forall₂ (PsetInput.Extends Q) inputs inputs') :
    inputs'.map (·.previousOutput) = inputs.map (·.previousOutput) := by
  induction h with
  | nil => rfl
  | @cons input input' inputs inputs' hhead _ ih =>
      obtain ⟨sigs, -, rfl⟩ := hhead
      rw [List.map_cons, List.map_cons, ih]
      rfl

omit [DecidableEq Id] in
/-- A complete coordinator finalizes inputs that have witness scripts. -/
theorem finalize_ok {c : ElementsSigningCoordinator PK Id} {pset₀ : Pset PK}
    (hcomplete : c.isComplete = .ok true) (hextract : Extracts pset₀)
    {Q : KeyOrigins PK → PK → Prop} (hext : pset₀.Extends Q c.pset)
    (hscripts : ∀ input ∈ c.pset.inputs, ∃ script, input.witnessScript = some script) :
    ∃ fin, c.finalize = .ok fin := by
  have hok : (finalizeP2wshPset Id c.pset).1 = .ok () := finalizeP2wshPset_ok_iff.mpr hscripts
  obtain ⟨transaction, htransaction⟩ := hextract (finalizeP2wshPset Id c.pset).2 hext.outputs
    ((finalizeInputs_previousOutput 0 c.pset.inputs).trans (previousOutput_of_extends hext.inputs))
  refine ⟨⟨(finalizeP2wshPset Id c.pset).2, transaction⟩, ?_⟩
  have hfinal : finalizeP2wshPset Id c.pset = (.ok (), (finalizeP2wshPset Id c.pset).2) :=
    Prod.ext hok rfl
  unfold finalize
  rw [hcomplete]
  dsimp only
  rw [hfinal]
  dsimp only
  rw [htransaction]

/-- When a quorum signed every input well, `finalize` succeeds, whatever
the others sent, and gives every input the signatures under the first
signed keys of its script, as many as the threshold. The opcode accepts
them if they are all valid, and not otherwise when none is valid under
another key. -/
theorem finalize_takes_first {encode : PK → List UInt8} (hdecode : DecodesScripts encode)
    {fed : Federation Id} {b : BlindedPset PK} (hextract : Extracts b.pset)
    {members : Finset Id} {own : Id → Nat → PK} {keys : Nat → List PK}
    (hfed : FederationInputs encode fed members own keys b.pset)
    {c : ElementsSigningCoordinator PK Id} (hnew : ElementsSigningCoordinator.new fed b = .ok c)
    {rs : List (Id × Pset PK)} (horigins : SameOrigins c rs) {valid : Nat → PK → List UInt8 → Bool}
    {ids : Finset Id} (hcard : fed.threshold ≤ ids.card)
    (hwell : ∀ id ∈ ids, SignedWell c rs own valid id) :
    ∃ fin, (c.receiveAll rs).2.finalize = .ok fin ∧
    ∀ (i : Nat) input, (c.receiveAll rs).2.pset.inputs[i]? = some input →
      ∃ out witness, fin.pset.inputs[i]? = some out ∧ out.finalScriptWitness = some witness ∧
      witness = [] :: (((keys i).filterMap input.getSig).take fed.threshold ++
        [(multisigScript encode fed.threshold (keys i)).bytes]) ∧
      (FirstValid (valid i) fed.threshold (keys i) input →
        AcceptsMultisig (valid i) fed.threshold (keys i)
          (multisigScript encode fed.threshold (keys i)) witness) ∧
      (ValidOnlyOwn (valid i) (keys i) input →
        AcceptsMultisig (valid i) fed.threshold (keys i)
          (multisigScript encode fed.threshold (keys i)) witness →
        FirstValid (valid i) fed.threshold (keys i) input) := by
  obtain ⟨-, rfl⟩ := ElementsSigningCoordinator.new_eq_ok.mp hnew
  obtain ⟨fin, hfin⟩ := finalize_ok (isComplete_of_quorum hfed horigins rfl hcard hwell) hextract
    (collects horigins).inputs fun input hmem => by
      obtain ⟨i, hi⟩ := List.mem_iff_getElem?.mp hmem
      exact ⟨_, (multisigInput_of_receiveAll hfed horigins hi).script⟩
  refine ⟨fin, hfin, ?_⟩
  intro i input hi
  obtain ⟨hfinal, hpset⟩ := finalize_eq_ok hfin
  obtain ⟨out, hout, hfinalized⟩ := finalizeP2wshPset_eq_ok hfinal hi
  rw [← hpset] at hout
  have henough := enough_of_quorum hfed horigins hcard hwell hi
  obtain ⟨haccepts, honly⟩ := acceptsMultisig_first (valid i) henough
    (multisigScript encode fed.threshold (keys i))
  have hwitness := finalizeInput_multisig hdecode (multisigInput_of_receiveAll hfed horigins hi)
    hfinalized
  exact ⟨out, _, hout, hwitness, rfl, haccepts, honly⟩

end

/-! Three members, two of which are a quorum. -/

def threeMembers : Federation Nat where
  contains id := id ∈ [1, 2, 3]
  find id := if id ∈ [1, 2, 3] then some ⟨⟨BitVec.ofNat 32 id⟩⟩ else none
  threshold := 2

def memberKey (id : Nat) : CompressedKey :=
  if id = 1 then keyOne else if id = 2 then keyTwo else keyThree

def inputOfThree : PsetInput CompressedKey :=
  { multisigInput 0 2 [keyOne, keyTwo, keyThree] [] with
    bip32Derivation := Map.collect
      [(keyOne, (⟨1⟩, ⟨[]⟩)), (keyTwo, (⟨2⟩, ⟨[]⟩)), (keyThree, (⟨3⟩, ⟨[]⟩))] }

def psetOfThree : BlindedPset CompressedKey where
  pset := { inputs := [inputOfThree], outputs := [blindedOutput] }
  blinded := rfl

theorem federationInputs_three : FederationInputs CompressedKey.bytes threeMembers {1, 2, 3}
    (fun id _ => memberKey id) (fun _ => [keyOne, keyTwo, keyThree]) psetOfThree.pset := by
  have hone : ∀ {i : Nat} {input : PsetInput CompressedKey},
      psetOfThree.pset.inputs[i]? = some input → input = inputOfThree := by
    intro i input hi
    cases i with
    | zero => exact (Option.some.inj hi).symm
    | succ i => cases hi
  have hmem : ∀ id ∈ ({1, 2, 3} : Finset Nat),
    memberKey id ∈ [keyOne, keyTwo, keyThree] := by decide
  have hinj : ∀ id ∈ ({1, 2, 3} : Finset Nat), ∀ id' ∈ ({1, 2, 3} : Finset Nat),
      memberKey id = memberKey id' → id = id' := by decide
  refine ⟨by decide, ?_, ?_, fun id hid _ _ _ => hmem id hid, ?_, ?_⟩
  · intro id
    simp [threeMembers]
  · intro i input hi
    rw [hone hi]
    exact ⟨by decide, by decide, by decide, fun key _ => key.length, rfl⟩
  · intro id signer hfind i input hi
    obtain ⟨hid, hsigner⟩ := Option.ite_none_right_eq_some.mp hfind
    obtain rfl := Option.some.inj hsigner
    rw [hone hi]
    simp only [List.mem_cons, List.not_mem_nil, or_false] at hid
    obtain rfl | rfl | rfl := hid <;> exact ⟨⟨[]⟩, rfl⟩
  · intro _ id hid id' hid' heq
    exact hinj id hid id' hid' heq

/-- A response of each member, with the bytes it gives for a signature. -/
def threeResponses (sig : Nat → List UInt8) : List (Nat × Pset CompressedKey) :=
  [1, 2, 3].map fun id => (id, { psetOfThree.pset with
    inputs := [{ inputOfThree with partialSigs := Map.collect [(memberKey id, sig id)] }] })

def unsignedByThree : ElementsSigningCoordinator CompressedKey Nat :=
  ⟨threeMembers, psetOfThree.pset, ∅⟩

theorem sameOrigins_three (sig : Nat → List UInt8) :
    SameOrigins unsignedByThree (threeResponses sig) := by
  intro r hr
  obtain ⟨id, -, rfl⟩ := List.mem_map.mp hr
  refine ⟨rfl, ?_⟩
  rintro (_ | i) input signedInput hi hs pk
  · cases hi
    cases hs
    rfl
  · cases hi

/-- A member whose bytes are the signature expected of its key signed
well. -/
theorem signedWell_three {sig : Nat → List UInt8} {id : Nat} (hid : id ∈ [1, 2, 3])
    (hsig : expectedSig 0 (memberKey id) (sig id)) :
    SignedWell unsignedByThree (threeResponses sig) (fun id _ => memberKey id) expectedSig id := by
  refine ⟨{ psetOfThree.pset with
    inputs := [{ inputOfThree with partialSigs := Map.collect [(memberKey id, sig id)] }] }, ?_, ?_⟩
  · have haccepted : (unsignedByThree.receiveAll (threeResponses sig)).1 =
      [.ok (), .ok (), .ok ()] :=
      rfl
    rw [haccepted]
    simp only [List.mem_cons, List.not_mem_nil, or_false] at hid
    obtain rfl | rfl | rfl := hid <;> simp [threeResponses]
  · rintro (_ | i) signedInput hs
    · cases hs
      exact ⟨sig id, AList.lookup_insert _, hsig⟩
    · cases hs

theorem extracts_three : Extracts psetOfThree.pset := by
  intro pset' houtputs _
  have hextract : ElementsLib.extractTx pset' = (pset'.outputs.mapM PsetOutput.extractTxOut).bind
    fun output => .ok {
      txid := ⟨0⟩, input := pset'.inputs.map fun i => ⟨i.previousOutput⟩, output } := rfl
  rw [hextract, houtputs]
  exact ⟨_, rfl⟩

/-- The last member of the script is faulty. -/
def lastFaulty (id : Nat) : List UInt8 := if id = 3 then [9] else [UInt8.ofNat id]

theorem finalize_takes_first_lastFaulty : ∃ fin out witness,
    (unsignedByThree.receiveAll (threeResponses lastFaulty)).2.finalize = .ok fin ∧
      fin.pset.inputs[0]? = some out ∧ out.finalScriptWitness = some witness ∧
      AcceptsMultisig (expectedSig 0) 2 [keyOne, keyTwo, keyThree]
        (multisigScript CompressedKey.bytes 2 [keyOne, keyTwo, keyThree]) witness := by
  have hwell : ∀ id ∈ ({1, 2} : Finset Nat), SignedWell unsignedByThree (threeResponses lastFaulty)
      (fun id _ => memberKey id) expectedSig id := by
    intro id hid
    simp only [Finset.mem_insert, Finset.mem_singleton] at hid
    obtain rfl | rfl := hid <;> exact signedWell_three (by decide) (by decide)
  obtain ⟨input, hi, hfirst⟩ : ∃ input,
      (unsignedByThree.receiveAll (threeResponses lastFaulty)).2.pset.inputs[0]? = some input ∧
        ∀ key ∈ (signedKeys input [keyOne, keyTwo, keyThree]).take 2,
          (input.getSig key).all (expectedSig 0 key) :=
    ⟨_, rfl, by decide⟩
  obtain ⟨fin, hfin, hall⟩ := finalize_takes_first decodesScripts_compressedKey extracts_three
    federationInputs_three (c := unsignedByThree) rfl (sameOrigins_three lastFaulty)
    (show threeMembers.threshold ≤ ({1, 2} : Finset Nat).card by decide) hwell
  obtain ⟨out, witness, hout, hwitness, -, haccepts, -⟩ := hall 0 input hi
  refine ⟨fin, out, witness, hfin, hout, hwitness, haccepts ?_⟩
  intro key hkey sig hsig
  have hvalid := hfirst key hkey
  rw [hsig] at hvalid
  exact hvalid

/-- The first member of the script is faulty. -/
def firstFaulty (id : Nat) : List UInt8 := if id = 1 then [9] else [UInt8.ofNat id]

/-- What the first member sent takes the place of a valid signature,
and the opcode does not accept the witness. -/
theorem faulty_signature_displaces : ¬∀ (fed : Federation Nat) (b : BlindedPset CompressedKey)
    (members : Finset Nat) (own : Nat → Nat → CompressedKey) (keys : Nat → List CompressedKey)
    (c : ElementsSigningCoordinator CompressedKey Nat) (rs : List (Nat × Pset CompressedKey))
    (valid : Nat → CompressedKey → List UInt8 → Bool) (ids : Finset Nat),
    Extracts b.pset → FederationInputs CompressedKey.bytes fed members own keys b.pset →
    1 ≤ fed.threshold → fed.threshold < members.card → (∀ i, (keys i).length = members.card) →
    ElementsSigningCoordinator.new fed b = .ok c → SameOrigins c rs → fed.threshold ≤ ids.card →
    (∀ id ∈ ids, SignedWell c rs own valid id) →
    ∃ fin, (c.receiveAll rs).2.finalize = .ok fin ∧
    ∀ (i : Nat) input, (c.receiveAll rs).2.pset.inputs[i]? = some input →
      ∃ out witness, fin.pset.inputs[i]? = some out ∧ out.finalScriptWitness = some witness ∧
        AcceptsMultisig (valid i) fed.threshold (keys i)
          (multisigScript CompressedKey.bytes fed.threshold (keys i)) witness := by
  intro hgeneral
  have hwell : ∀ id ∈ ({2, 3} : Finset Nat), SignedWell unsignedByThree (threeResponses firstFaulty)
      (fun id _ => memberKey id) expectedSig id := by
    intro id hid
    simp only [Finset.mem_insert, Finset.mem_singleton] at hid
    obtain rfl | rfl := hid <;> exact signedWell_three (by decide) (by decide)
  obtain ⟨fin, hfin, hall⟩ := hgeneral threeMembers psetOfThree {1, 2, 3} _ _ unsignedByThree _
    expectedSig {2, 3} extracts_three federationInputs_three (by decide) (by decide)
    (fun _ => by decide) rfl (sameOrigins_three firstFaulty) (by decide) hwell
  obtain ⟨input, hi, hfirst⟩ : ∃ input,
      (unsignedByThree.receiveAll (threeResponses firstFaulty)).2.pset.inputs[0]? = some input ∧
        [keyOne, keyTwo, keyThree].filterMap input.getSig = [[9], [2], [3]] := ⟨_, rfl, by decide⟩
  obtain ⟨out, witness, hout, hwitness, sigs, rfl, -, hcheck⟩ := hall 0 input hi
  obtain ⟨hfinal, hpset⟩ := finalize_eq_ok hfin
  obtain ⟨out', hout', hfinalized⟩ := finalizeP2wshPset_eq_ok hfinal hi
  obtain rfl := Option.some.inj (hout.symm.trans (hpset ▸ hout'))
  have htaken := finalizeInput_multisig decodesScripts_compressedKey
    (multisigInput_of_receiveAll federationInputs_three (sameOrigins_three firstFaulty) hi)
      hfinalized
  have hsame := (List.cons.inj (Option.some.inj (hwitness.symm.trans htaken))).2
  obtain rfl := List.append_cancel_right hsame
  rw [hfirst] at hcheck
  exact absurd hcheck (by decide)

end ElementsSigningCoordinator

end EmvaultElements
