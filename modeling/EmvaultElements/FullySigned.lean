import EmvaultElements.Coordinator

/-!
# Is a finalized PSET fully signed?

The coordinator counts signers over the whole PSET, while the script of
an input needs signatures on that input. A signer that signs some inputs
and not others counts as much as one that signs all, so `finalize` may
succeed with too few signatures on an input.

On inputs with the m-of-n script of the federation, what `finalize`
returns is fully signed exactly when every input has `m` signed keys
(`finalize_fully_signed_iff`), and `split_signing_finalizes` is a run in
which one has not.
-/

namespace EmvaultElements

variable {PK Id : Type} [DecidableEq PK]

/-- What `finalize` returns was finalized input by input. -/
theorem finalize_eq_ok [ElementsLib PK] {c : ElementsSigningCoordinator PK Id}
    {fin : FinalizedPset PK}
    (hok : c.finalize = .ok fin) :
    (finalizeP2wshPset Id c.pset).1 = .ok () ∧ fin.pset = (finalizeP2wshPset Id c.pset).2 := by
  unfold ElementsSigningCoordinator.finalize at hok
  split at hok
  · cases hok
  · cases hok
  · cases hok
  · split at hok
    · cases hok
    · next pset hfinal =>
        split at hok
        · cases hok
        · cases hok
          rw [hfinal]
          exact ⟨rfl, rfl⟩

/-! ## Fully signed -/

/-- Every input of `fin` has for its witness the dummy, the signatures
of `m` distinct keys of its script in their order, and the script. The
signatures are those `pset` had. -/
def FullySigned (encode : PK → List UInt8) (m : Nat) (keys : Nat → List PK) (pset fin : Pset PK) :
    Prop :=
  ∀ (i : Nat) (input : PsetInput PK), pset.inputs[i]? = some input →
    ∃ (out : PsetInput PK) (ks : List PK) (sigs : List (List UInt8)),
    fin.inputs[i]? = some out ∧ ks.Sublist (keys i) ∧ ks.Nodup ∧ ks.length = m ∧
    ks.map input.getSig = sigs.map some ∧
    out.finalScriptWitness = some ([] :: (sigs ++ [(multisigScript encode m (keys i)).bytes]))

/-- Every input has a signature under `m` of its script's keys. -/
def EnoughSigned (m : Nat) (keys : Nat → List PK) (pset : Pset PK) : Prop :=
  ∀ (i : Nat) (input : PsetInput PK), pset.inputs[i]? = some input →
    m ≤ (signedKeys input (keys i)).length

/-- The signatures of an input's first `m` signed keys are those of as
many distinct ones, in the script's order: no key is used twice. -/
def DistinctSigned (m : Nat) (keys : Nat → List PK) (pset : Pset PK) : Prop :=
  ∀ (i : Nat) (input : PsetInput PK), pset.inputs[i]? = some input →
    ∃ ks : List PK, ks.Sublist (keys i) ∧ ks.Nodup ∧
      ks.map input.getSig = ((signedKeys input (keys i)).take m).map input.getSig

/-- A script that repeats no key has no key used twice. -/
theorem distinctSigned_of_nodup {m : Nat} {keys : Nat → List PK} (hnodup : ∀ i, (keys i).Nodup)
    (pset : Pset PK) : DistinctSigned m keys pset := by
  intro i input _
  have hsub : ((signedKeys input (keys i)).take m).Sublist (keys i) :=
    (List.take_sublist _ _).trans List.filter_sublist
  exact ⟨_, hsub, (hnodup i).sublist hsub, rfl⟩

section

variable [DecidableEq Id] {encode : PK → List UInt8} {fed : Federation Id} {b : BlindedPset PK}
  {keys : Nat → List PK} {c : ElementsSigningCoordinator PK Id} {fin : FinalizedPset PK}

omit [DecidableEq Id] in
theorem MultisigInput.of_extends {m : Nat} {ks : List PK} {P : KeyOrigins PK → PK → Prop}
    {input input' : PsetInput PK} (h : MultisigInput encode m ks input)
    (hext : input.Extends P input') : MultisigInput encode m ks input' := by
  obtain ⟨sigs, -, rfl⟩ := hext
  obtain ⟨hone, hle, h16, hcompressed, hscript⟩ := h
  exact ⟨hone, hle, h16, hcompressed, hscript⟩

/-- The scripts of the inputs are the same in every state of a run. -/
theorem multisigInput_of_run {m : Nat} (hrun : SigningRun fed b InsertsOnly c)
    (hinputs : ∀ (i : Nat) input, b.pset.inputs[i]? = some input →
      MultisigInput encode m (keys i) input)
    {i : Nat} {input : PsetInput PK} (hi : c.pset.inputs[i]? = some input) :
    MultisigInput encode m (keys i) input := by
  obtain ⟨input₀, hi₀, hext⟩ := (hrun.extends fun _ _ h => h).getElem? hi
  exact (hinputs i input₀ hi₀).of_extends hext

/-! ## Finalization -/

variable [ElementsLib PK]

variable (hdecode : DecodesScripts encode)
  (hinputs : ∀ (i : Nat) input, b.pset.inputs[i]? = some input →
    MultisigInput encode fed.threshold (keys i) input)
  (hrun : SigningRun fed b InsertsOnly c) (hok : c.finalize = .ok fin)

include hdecode hinputs hrun hok

/-- The witness `finalize` gives an input. -/
theorem finalize_witness {i : Nat} {input : PsetInput PK} (hi : c.pset.inputs[i]? = some input) :
    ∃ out, fin.pset.inputs[i]? = some out ∧ out.finalScriptWitness = some ([] ::
      (((keys i).filterMap input.getSig).take fed.threshold ++
        [(multisigScript encode fed.threshold (keys i)).bytes])) := by
  obtain ⟨hfinal, hpset⟩ := finalize_eq_ok hok
  obtain ⟨out, hout, hfinalized⟩ := finalizeP2wshPset_eq_ok hfinal hi
  rw [hpset]
  exact ⟨out, hout,
    finalizeInput_multisig hdecode (multisigInput_of_run hrun hinputs hi) hfinalized⟩

/-- With enough signed keys on every input, a finalized PSET is fully
signed. -/
theorem fullySigned_of_enough (henough : EnoughSigned fed.threshold keys c.pset)
    (hdistinct : DistinctSigned fed.threshold keys c.pset) :
    FullySigned encode fed.threshold keys c.pset fin.pset := by
  intro i input hi
  obtain ⟨out, hout, hwitness⟩ := finalize_witness hdecode hinputs hrun hok hi
  obtain ⟨ks, hsub, hnodup, hsigs⟩ := hdistinct i input hi
  refine ⟨out, ks, _, hout, hsub, hnodup, ?_, ?_, hwitness⟩
  · have hlen := congrArg List.length hsigs
    rw [List.length_map, List.length_map, List.length_take,
      Nat.min_eq_left (henough i input hi)] at hlen
    exact hlen
  · rw [hsigs, List.map_take, List.map_take, filterMap_lookup_eq]

/-- A fully signed PSET has enough signed keys on every input, and uses
none twice. -/
theorem enough_of_fullySigned (hsigned : FullySigned encode fed.threshold keys c.pset fin.pset) :
    EnoughSigned fed.threshold keys c.pset ∧ DistinctSigned fed.threshold keys c.pset := by
  have htake : ∀ (i : Nat) (input : PsetInput PK), c.pset.inputs[i]? = some input →
      ∃ ks : List PK, ks.Sublist (keys i) ∧ ks.Nodup ∧ ks.length = fed.threshold ∧
        ks.map input.getSig = (((keys i).filterMap input.getSig).take fed.threshold).map some := by
    intro i input hi
    obtain ⟨out, hout, hwitness⟩ := finalize_witness hdecode hinputs hrun hok hi
    obtain ⟨out', ks, sigs, hout', hsub, hnodup, hlen, hsigs, hwitness'⟩ := hsigned i input hi
    obtain rfl := Option.some.inj (hout.symm.trans hout')
    have hsame := (List.cons.inj (Option.some.inj (hwitness.symm.trans hwitness'))).2
    rw [(List.append_inj' hsame rfl).1]
    exact ⟨ks, hsub, hnodup, hlen, hsigs⟩
  constructor
  · intro i input hi
    obtain ⟨ks, -, -, hlen, hsigs⟩ := htake i input hi
    have hcount := congrArg List.length hsigs
    rw [List.length_map, List.length_map, hlen, List.length_take, length_filterMap_lookup] at hcount
    omega
  · intro i input hi
    obtain ⟨ks, hsub, hnodup, -, hsigs⟩ := htake i input hi
    refine ⟨ks, hsub, hnodup, ?_⟩
    rw [hsigs, List.map_take, List.map_take, filterMap_lookup_eq]

/-- After every run, a PSET that `finalize` returns is fully signed
exactly when every input has a signature under as many of its script's
keys as the threshold, none of them used twice; the last is so when no
script repeats a key. -/
theorem finalize_fully_signed_iff :
    (FullySigned encode fed.threshold keys c.pset fin.pset ↔
      EnoughSigned fed.threshold keys c.pset ∧ DistinctSigned fed.threshold keys c.pset) ∧
    ((∀ i, (keys i).Nodup) → (FullySigned encode fed.threshold keys c.pset fin.pset ↔
      EnoughSigned fed.threshold keys c.pset)) := by
  have hiff : FullySigned encode fed.threshold keys c.pset fin.pset ↔
      EnoughSigned fed.threshold keys c.pset ∧ DistinctSigned fed.threshold keys c.pset :=
    ⟨enough_of_fullySigned hdecode hinputs hrun hok,
      fun h => fullySigned_of_enough hdecode hinputs hrun hok h.1 h.2⟩
  refine ⟨hiff, ?_⟩
  intro hnodup
  rw [hiff]
  exact ⟨fun h => h.1, fun h => ⟨h, distinctSigned_of_nodup hnodup c.pset⟩⟩

end

/-! Two signers for two inputs with 2-of-2 scripts. -/

def blindedOutput : PsetOutput where
  scriptPubkey := ⟨[0x51]⟩
  amount := none
  amountComm := some ⟨8⟩
  asset := none
  assetComm := some ⟨10⟩
  valueRangeproof := some [1]
  assetSurjectionProof := some [1]
  blinderIndex := some 0

def twoOfTwo : BlindedPset CompressedKey where
  pset := {
    inputs := [multisigInput 0 2 [keyOne, keyTwo] [], multisigInput 1 2 [keyOne, keyTwo] []]
    outputs := [blindedOutput] }
  blinded := rfl

def twoMembers : Federation Nat where
  contains id := id == 1 || id == 2
  find id := if id = 1 then some ⟨⟨1⟩⟩ else if id = 2 then some ⟨⟨2⟩⟩ else none
  threshold := 2

/-- Sign the inputs in `which`. -/
def signInputs (which : Nat → Bool) (key : CompressedKey) (sig : List UInt8) :
    ElementsSigner CompressedKey Nat := fun pset =>
  (.ok ((List.range pset.inputs.length).countP which), { pset with
    inputs := pset.inputs.mapIdx fun i input =>
      if which i then input.insertSigs [(key, sig)] else input })

theorem extends_signInputs (which : Nat → Bool) (key : CompressedKey) (sig : List UInt8)
    (pset : Pset CompressedKey) :
    pset.Extends (fun _ _ => True) (signInputs which key sig pset).2 := by
  refine ⟨List.forall₂_iff_get.mpr ⟨by simp [signInputs], ?_⟩, rfl⟩
  intro i hi hi'
  simp only [signInputs, List.get_eq_getElem, List.getElem_mapIdx]
  split
  · exact ⟨[(key, sig)], by simp, rfl⟩
  · exact .refl _

/-- The first signer signs the inputs in `which`, the second those in
`which'`. -/
def signedByBoth (which which' : Nat → Bool) : ElementsSigningCoordinator CompressedKey Nat :=
  ((ElementsSigningCoordinator.mk twoMembers twoOfTwo.pset ∅).call
    (.signWith (signInputs which keyOne [1]) 1)).call (.signWith (signInputs which' keyTwo [2]) 2)

theorem run_signedByBoth (which which' : Nat → Bool) :
    SigningRun twoMembers twoOfTwo InsertsOnly (signedByBoth which which') :=
  .call _ (.call _ (.new rfl) (extends_signInputs which keyOne [1] _))
    (extends_signInputs which' keyTwo [2] _)

theorem multisigInput_twoOfTwo : ∀ (i : Nat) input, twoOfTwo.pset.inputs[i]? = some input →
    MultisigInput CompressedKey.bytes twoMembers.threshold [keyOne, keyTwo] input := by
  have hscript : ∀ vout, MultisigInput CompressedKey.bytes twoMembers.threshold [keyOne, keyTwo]
      (multisigInput vout 2 [keyOne, keyTwo] []) :=
    fun vout => ⟨by decide, by decide, by decide, fun key _ => key.length, rfl⟩
  rintro (_ | _ | i) input hi
  · cases hi
    exact hscript 0
  · cases hi
    exact hscript 1
  · cases hi

/-- Both sign both inputs. -/
theorem finalize_fully_signed_iff_twoOfTwo : ∃ fin : FinalizedPset CompressedKey,
    (signedByBoth (fun _ => true) fun _ => true).finalize = .ok fin ∧
    FullySigned CompressedKey.bytes 2 (fun _ => [keyOne, keyTwo])
      (signedByBoth (fun _ => true) fun _ => true).pset fin.pset := by
  refine ⟨_, rfl, ?_⟩
  refine ((finalize_fully_signed_iff decodesScripts_compressedKey multisigInput_twoOfTwo
    (run_signedByBoth _ _) rfl).2 (fun _ => by decide)).mpr ?_
  rintro (_ | _ | i) input hi
  · cases hi
    decide
  · cases hi
    decide
  · cases hi

/-- Each signs one input: the threshold is met, and both inputs are one
signature short. -/
theorem split_signing_finalizes : ¬∀ (fed : Federation Nat) (b : BlindedPset CompressedKey)
    (keys : Nat → List CompressedKey) (c : ElementsSigningCoordinator CompressedKey Nat)
    (fin : FinalizedPset CompressedKey),
    (∀ (i : Nat) input, b.pset.inputs[i]? = some input →
      MultisigInput CompressedKey.bytes fed.threshold (keys i) input) →
    SigningRun fed b InsertsOnly c → c.finalize = .ok fin →
    FullySigned CompressedKey.bytes fed.threshold keys c.pset fin.pset := by
  intro hgeneral
  have hrun := run_signedByBoth (· == 0) (· == 1)
  have hsigned := hgeneral twoMembers twoOfTwo (fun _ => [keyOne, keyTwo]) _ _
    multisigInput_twoOfTwo hrun rfl
  have henough := (enough_of_fullySigned decodesScripts_compressedKey multisigInput_twoOfTwo
    hrun rfl hsigned).1 0 _ rfl
  exact absurd henough (by decide)

end EmvaultElements
