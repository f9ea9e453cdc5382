import EmvaultElements.Migration
import EmvaultElements.Session

/-!
# Signing for several accounts

A migration spends the coins of several accounts, and every input is a
multisig of its own account. There is no coordinator: the signers of all
accounts sign the PSET in place, one after the other (`signAll`), each
the inputs that list its fingerprint, and the PSET is finalized
(`signAndFinalize`).

With a quorum for every input among the signers this succeeds exactly
when each of them alone can sign. Then the opcode accepts every witness,
and the order of the signers does not show in the transaction
(`accounts_settle`).
-/

namespace EmvaultElements

variable {PK Xpriv Id : Type} [DecidableEq PK] [SigningLib PK Xpriv]

/-- The signers sign in place, one after the other. An error of one is
unwrapped. -/
def signAll (Id : Type) : List (SoftwareSigner Xpriv) → Pset PK → Option (Pset PK)
  | [], pset => some pset
  | signer :: signers, pset =>
      match signer.signPset Id pset with
      | (.error _, _) => none
      | (.ok _, pset) => signAll Id signers pset

/-- Sign, finalize and extract the transaction, all unwrapped. -/
def signAndFinalize (Id : Type) (signers : List (SoftwareSigner Xpriv)) (pset : Pset PK) :
    Option (Pset PK × Transaction) :=
  match signAll Id signers pset with
  | none => none
  | some pset =>
      match finalizeP2wshPset Id pset with
      | (.error _, _) => none
      | (.ok (), pset) =>
          match ElementsLib.extractTx pset with
          | .error _ => none
          | .ok tx => some (pset, tx)

/-! ## What the signers insert -/

section

variable (hlib : IgnoresSigs PK Xpriv) {signers : List (SoftwareSigner Xpriv)}
  {pset pset' : Pset PK}

include hlib

/-- The last signer that has a signature for a place has it there. -/
theorem signAll_eq_some (h : signAll Id signers pset = some pset') :
    pset'.unsigned = pset.unsigned ∧ ∀ k, pset'.board k =
      (signers.reverse.findSome? fun signer => signer.signature pset k).or (pset.board k) := by
  induction signers generalizing pset with
  | nil =>
      obtain rfl := Option.some.inj h
      exact ⟨rfl, fun k => rfl⟩
  | cons signer signers ih =>
      rw [signAll] at h
      rcases hsign : signer.signPset Id pset with ⟨res, pset₁⟩
      rw [hsign] at h
      cases res with
      | error e => cases h
      | ok n =>
          obtain ⟨hunsigned, hboard, -⟩ := SoftwareSigner.signPset_ok hlib hsign
          obtain ⟨hunsigned', hboard'⟩ := ih h
          refine ⟨hunsigned'.trans hunsigned, ?_⟩
          intro k
          have hcongr : ∀ s : SoftwareSigner Xpriv, s.signature pset₁ k = s.signature pset k :=
            fun s => congrFun (SoftwareSigner.signature_congr hlib hunsigned) k
          rw [hboard' k, hboard k, List.reverse_cons, List.findSome?_append, Option.or_assoc]
          simp only [hcongr]
          rw [List.findSome?_singleton]

/-- They succeed exactly when each can sign. -/
theorem signAll_isSome_iff :
    (∃ pset', signAll Id signers pset = some pset') ↔ ∀ signer ∈ signers, signer.CanSign pset := by
  induction signers generalizing pset with
  | nil => simp [signAll]
  | cons signer signers ih =>
      have hfirst : (∃ n, (signer.signPset Id pset).1 = .ok n) ↔ signer.CanSign pset :=
        SoftwareSigner.signPset_ok_iff hlib
      rw [List.forall_mem_cons, ← hfirst, signAll]
      rcases hsign : signer.signPset Id pset with ⟨res, pset₁⟩
      cases res with
      | error e => simp
      | ok n =>
          obtain ⟨hunsigned, -, -⟩ := SoftwareSigner.signPset_ok hlib hsign
          simp [ih, SoftwareSigner.canSign_congr hlib hunsigned]

/-- What one of the signers signs is signed, and nothing else. -/
theorem board_signAll (h : signAll Id signers pset = some pset') (hbase : pset.unsigned = pset)
    (k : Nat × PK) :
    (∀ sig, pset'.board k = some sig → ∃ signer ∈ signers, signer.signature pset k = some sig) ∧
    ((∃ signer ∈ signers, (signer.signature pset k).isSome) → (pset'.board k).isSome) := by
  obtain ⟨-, hboard⟩ := signAll_eq_some hlib h
  have hnone : pset.board k = none := by
    rw [← hbase]
    exact board_unsigned pset k
  rw [hboard k, hnone, Option.or_none]
  constructor
  · intro sig hsig
    obtain ⟨signer, hmem, hsigns⟩ := List.exists_of_findSome?_eq_some hsig
    exact ⟨signer, List.mem_reverse.mp hmem, hsigns⟩
  · rintro ⟨signer, hmem, hsigns⟩
    exact List.findSome?_isSome_iff.mpr ⟨signer, List.mem_reverse.mpr hmem, hsigns⟩

/-- Signers with a fingerprint each sign the same in any order. -/
theorem signAll_perm {signers' : List (SoftwareSigner Xpriv)} {pset'' : Pset PK}
    (hbase : pset.unsigned = pset) (hperm : signers'.Perm signers)
    (hdistinct : (signers.map (·.fingerprint)).Nodup) (h : signAll Id signers pset = some pset')
    (h' : signAll Id signers' pset = some pset'') : pset''.board = pset'.board := by
  have hinj := List.inj_on_of_nodup_map hdistinct
  funext ⟨i, pk⟩
  obtain ⟨hfrom, hall⟩ := board_signAll hlib h hbase (i, pk)
  obtain ⟨hfrom', hall'⟩ := board_signAll hlib h' hbase (i, pk)
  have hsome : (pset''.board (i, pk)).isSome → pset''.board (i, pk) = pset'.board (i, pk) := by
    intro hboard
    obtain ⟨sig, hsig⟩ := Option.isSome_iff_exists.mp hboard
    obtain ⟨signer, hmem, hsigns⟩ := hfrom' sig hsig
    obtain ⟨sig', hsig'⟩ := Option.isSome_iff_exists.mp
      (hall ⟨signer, hperm.mem_iff.mp hmem, Option.isSome_iff_exists.mpr ⟨sig, hsigns⟩⟩)
    obtain ⟨signer', hmem', hsigns'⟩ := hfrom sig' hsig'
    -- both list the key under their fingerprint
    obtain ⟨input, hi, path, hpath⟩ := SoftwareSigner.origin_of_signature hsigns
    obtain ⟨input', hi', path', hpath'⟩ := SoftwareSigner.origin_of_signature hsigns'
    obtain rfl := Option.some.inj (hi.symm.trans hi')
    obtain rfl := hinj (hperm.mem_iff.mp hmem) hmem'
      (congrArg Prod.fst (Option.some.inj (hpath.symm.trans hpath')))
    rw [hsig, hsig', ← hsigns, hsigns']
  cases hboard : pset''.board (i, pk) with
  | some sig => rw [← hboard, hsome (Option.isSome_iff_exists.mpr ⟨sig, hboard⟩)]
  | none =>
      cases hboard' : pset'.board (i, pk) with
      | none => rfl
      | some sig =>
          obtain ⟨signer, hmem, hsigns⟩ := hfrom sig hboard'
          have := hall' ⟨signer, hperm.mem_iff.mpr hmem, Option.isSome_iff_exists.mpr ⟨sig, hsigns⟩⟩
          rw [hboard] at this
          cases this

end

/-! ## Finalizing -/

theorem signAndFinalize_eq_some {signers : List (SoftwareSigner Xpriv)} {pset fin : Pset PK}
    {tx : Transaction} : signAndFinalize Id signers pset = some (fin, tx) ↔
      ∃ pset', signAll Id signers pset = some pset' ∧
      finalizeP2wshPset Id pset' = (.ok (), fin) ∧ ElementsLib.extractTx fin = .ok tx := by
  constructor
  · intro h
    unfold signAndFinalize at h
    split at h
    · cases h
    · next pset' hsign =>
        split at h
        · cases h
        · next fin' hfin =>
            split at h
            · cases h
            · next tx' htx =>
                cases h
                exact ⟨pset', hsign, hfin, htx⟩
  · rintro ⟨pset', hsign, hfin, htx⟩
    simp only [signAndFinalize, hsign, hfin, htx]

/-- Every input is a multisig, with enough keys that are listed for some
signer. -/
structure AccountInputs (encode : PK → List UInt8) (m : Nat → Nat) (keys : Nat → List PK)
    (signers : List (SoftwareSigner Xpriv)) (pset : Pset PK) : Prop where
  multisig : ∀ (i : Nat) input, pset.inputs[i]? = some input →
    MultisigInput encode (m i) (keys i) input
  quorum : ∀ (i : Nat) input, pset.inputs[i]? = some input → ∃ own : Finset PK, m i ≤ own.card ∧
    ∀ key ∈ own, key ∈ keys i ∧
      ∃ signer ∈ signers, Origin signer.fingerprint input.bip32Derivation key

omit [DecidableEq PK] [SigningLib PK Xpriv] in
theorem prevouts_of_unsigned {pset pset' : Pset PK} (h : pset'.unsigned = pset.unsigned) :
    pset'.prevouts = pset.prevouts := by
  have hone := congrArg Pset.prevouts h
  rw [Pset.prevouts, Pset.prevouts, Pset.unsigned, Pset.unsigned, List.map_map,
    List.map_map] at hone
  exact hone

/-- An input of a PSET that differs in its signatures. -/
theorem input_of_unsigned {pset pset' : Pset PK}
    (hunsigned : pset'.unsigned = pset.unsigned) {i : Nat}
    {input : PsetInput PK} (hi : pset.inputs[i]? = some input) :
    ∃ input', pset'.inputs[i]? = some input' ∧ input'.witnessScript = input.witnessScript ∧
      ∀ pk, input'.getSig pk = pset'.board (i, pk) := by
  have hone := congrArg (·.inputs[i]?) hunsigned
  rw [getElem?_unsigned, getElem?_unsigned, hi] at hone
  obtain ⟨input', hi', heq⟩ := Option.map_eq_some_iff.mp hone
  have hscript := congrArg PsetInput.witnessScript heq
  refine ⟨input', hi', hscript, ?_⟩
  intro pk
  rw [Pset.board, hi']
  rfl

section

variable {signers : List (SoftwareSigner Xpriv)} {pset pset' : Pset PK} {encode : PK → List UInt8}
  {m : Nat → Nat} {keys : Nat → List PK} {valid : Nat → PK → List UInt8 → Bool}

/-- The inputs as they are when all have signed. -/
structure QuorumSigned (encode : PK → List UInt8) (m : Nat → Nat) (keys : Nat → List PK)
    (valid : Nat → PK → List UInt8 → Bool) (pset : Pset PK) : Prop where
  multisig : ∀ (i : Nat) input, pset.inputs[i]? = some input →
    MultisigInput encode (m i) (keys i) input
  enough : ∀ (i : Nat) input, pset.inputs[i]? = some input →
    m i ≤ (signedKeys input (keys i)).length
  valid : ∀ (i : Nat) input, pset.inputs[i]? = some input → ∀ pk sig,
    input.getSig pk = some sig → valid i pk sig

theorem AccountInputs.quorumSigned (haccounts : AccountInputs encode m keys signers pset)
    (hlib : IgnoresSigs PK Xpriv) (hbase : pset.unsigned = pset)
    (hcan : ∀ signer ∈ signers, signer.CanSign pset)
    (hecdsa : ∀ idx tx genesis message, SigningLib.sighashMsg Xpriv pset idx tx genesis ≠
      .ok (.tapSighash message))
    (hvalid : ∀ signer ∈ signers, ∀ (i : Nat) pk sig,
      signer.signature pset (i, pk) = some sig → valid i pk sig)
    (hsign : signAll Id signers pset = some pset') : QuorumSigned encode m keys valid pset' := by
  obtain ⟨hunsigned, -⟩ := signAll_eq_some hlib hsign
  have hback : ∀ (i : Nat) input', pset'.inputs[i]? = some input' → ∃ input,
      pset.inputs[i]? = some input ∧ input'.witnessScript = input.witnessScript ∧
      ∀ pk, input'.getSig pk = pset'.board (i, pk) := by
    intro i input' hi'
    obtain ⟨input, hi, hscript, -⟩ := input_of_unsigned hunsigned.symm hi'
    refine ⟨input, hi, hscript.symm, ?_⟩
    intro pk
    rw [Pset.board, hi']
    rfl
  constructor
  · intro i input' hi'
    obtain ⟨input, hi, hscript, -⟩ := hback i input' hi'
    obtain ⟨hone, hle, hlen, hcompressed, hinput⟩ := haccounts.multisig i input hi
    exact ⟨hone, hle, hlen, hcompressed, hscript.trans hinput⟩
  · intro i input' hi'
    obtain ⟨input, hi, -, hboard⟩ := hback i input' hi'
    obtain ⟨own, hcard, hown⟩ := haccounts.quorum i input hi
    have hsub : own ⊆ (signedKeys input' (keys i)).toFinset := by
      intro key hkey
      obtain ⟨hmem, signer, hsigner, horigin⟩ := hown key hkey
      have hsome := SoftwareSigner.isSome_signature_of_origin (hcan signer hsigner)
        (fun idx tx message => hecdsa idx tx signer.genesis message) hi horigin
      have hsigned := (board_signAll hlib hsign hbase (i, key)).2 ⟨signer, hsigner, hsome⟩
      rw [← hboard key] at hsigned
      exact List.mem_toFinset.mpr (List.mem_filter.mpr
        ⟨hmem, decide_eq_true (AList.lookup_isSome.mp hsigned)⟩)
    calc m i ≤ own.card := hcard
      _ ≤ (signedKeys input' (keys i)).toFinset.card := Finset.card_le_card hsub
      _ ≤ (signedKeys input' (keys i)).length := List.toFinset_card_le _
  · intro i input' hi' pk sig hsig
    obtain ⟨input, hi, -, hboard⟩ := hback i input' hi'
    rw [hboard pk] at hsig
    obtain ⟨signer, hmem, hsigns⟩ := (board_signAll hlib hsign hbase (i, pk)).1 sig hsig
    exact hvalid signer hmem i pk sig hsigns

omit [SigningLib PK Xpriv] in
/-- What all have signed is finalized. -/
theorem QuorumSigned.finalizes [ElementsLib PK] (h : QuorumSigned encode m keys valid pset') :
    (finalizeP2wshPset Id pset').1 = .ok () := by
  refine finalizeP2wshPset_ok_iff.mpr ?_
  intro input hmem
  obtain ⟨i, hi⟩ := List.mem_iff_getElem?.mp hmem
  exact ⟨_, (h.multisig i input hi).script⟩

omit [SigningLib PK Xpriv] in
/-- The opcode accepts its witnesses. -/
theorem QuorumSigned.accepts [ElementsLib PK] (h : QuorumSigned encode m keys valid pset')
    (hdecode : DecodesScripts encode) {i : Nat} {input : PsetInput PK}
    (hi : pset'.inputs[i]? = some input) : ∃ out witness,
      (finalizeP2wshPset Id pset').2.inputs[i]? = some out ∧ out.finalScriptWitness = some witness ∧
      AcceptsMultisig (valid i) (m i) (keys i) (multisigScript encode (m i) (keys i)) witness := by
  obtain ⟨out, hout, hfinalized⟩ := finalizeP2wshPset_eq_ok h.finalizes hi
  refine ⟨out, _, hout, finalizeInput_multisig hdecode (h.multisig i input hi) hfinalized,
    (ElementsSigningCoordinator.acceptsMultisig_first (valid i) (h.enough i input hi) _).1 ?_⟩
  exact fun key _ sig hsig => h.valid i input hi key sig hsig

omit [SigningLib PK Xpriv] in
/-- Two PSETs with the same signatures are finalized alike. -/
theorem finalizeP2wshPset_congr [ElementsLib PK] (hunsigned : pset'.unsigned = pset.unsigned)
    (hboard : pset'.board = pset.board) (hok : (finalizeP2wshPset Id pset).1 = .ok ()) :
    finalizeP2wshPset Id pset' = finalizeP2wshPset Id pset := by
  obtain ⟨hres, hinputs⟩ : (finalizeInputs Id 0 pset'.inputs).1 =
    (finalizeInputs Id 0 pset.inputs).1 ∧
      ((finalizeInputs Id 0 pset.inputs).1 = .ok () →
        (finalizeInputs Id 0 pset'.inputs).2 = (finalizeInputs Id 0 pset.inputs).2) :=
    ElementsSigningCoordinator.finalizeInputs_congr (sameSigs_of_unsigned hunsigned hboard) 0
  have houtputs := congrArg Pset.outputs hunsigned
  simp only [Pset.unsigned] at houtputs
  simp only [finalizeP2wshPset, hres, hinputs hok, houtputs]

/-- When every input has a quorum among the signers, signing with all of
them and finalizing succeeds exactly when each of them by itself can sign
the PSET. Then the opcode accepts every witness, and the result does not
depend on the order of the signers. -/
theorem accounts_settle (hlib : IgnoresSigs PK Xpriv) (hdecode : DecodesScripts encode)
    (hextract : ElementsSigningCoordinator.Extracts pset) (hbase : pset.unsigned = pset)
    (haccounts : AccountInputs encode m keys signers pset)
    (hecdsa : ∀ idx tx genesis message, SigningLib.sighashMsg Xpriv pset idx tx genesis ≠
      .ok (.tapSighash message))
    (hvalid : ∀ signer ∈ signers, ∀ (i : Nat) pk sig,
      signer.signature pset (i, pk) = some sig → valid i pk sig) :
    ((∃ fin tx, signAndFinalize Id signers pset = some (fin, tx)) ↔
      ∀ signer ∈ signers, ∃ n, (signer.signPset Id pset).1 = .ok n) ∧
    ∀ fin tx, signAndFinalize Id signers pset = some (fin, tx) →
      fin.prevouts = pset.prevouts ∧
      (∀ (i : Nat) input, pset.inputs[i]? = some input → ∃ out witness,
        fin.inputs[i]? = some out ∧ out.finalScriptWitness = some witness ∧
        AcceptsMultisig (valid i) (m i) (keys i) (multisigScript encode (m i) (keys i)) witness) ∧
      ∀ signers' : List (SoftwareSigner Xpriv), signers'.Perm signers →
        (signers.map (·.fingerprint)).Nodup →
          signAndFinalize Id signers' pset = some (fin, tx) := by
  have hcan : ∀ pset', signAll Id signers pset = some pset' →
    ∀ signer ∈ signers, signer.CanSign pset :=
    fun pset' hsign => (signAll_isSome_iff hlib).mp ⟨pset', hsign⟩
  constructor
  · constructor
    · rintro ⟨fin, tx, h⟩ signer hmem
      obtain ⟨pset', hsign, -⟩ := signAndFinalize_eq_some.mp h
      exact (SoftwareSigner.signPset_ok_iff hlib).mpr (hcan pset' hsign signer hmem)
    · intro hall
      obtain ⟨pset', hsign⟩ : ∃ pset', signAll Id signers pset = some pset' :=
        (signAll_isSome_iff hlib).mpr fun signer hmem =>
          (SoftwareSigner.signPset_ok_iff hlib).mp (hall signer hmem)
      have hok : (finalizeP2wshPset Id pset').1 = .ok () :=
        (haccounts.quorumSigned hlib hbase (hcan pset' hsign) hecdsa hvalid hsign).finalizes
      obtain ⟨hunsigned, -⟩ := signAll_eq_some hlib hsign
      have houtputs := congrArg Pset.outputs hunsigned
      obtain ⟨tx, htx⟩ := hextract (finalizeP2wshPset Id pset').2 houtputs
        ((ElementsSigningCoordinator.finalizeInputs_previousOutput 0 pset'.inputs).trans
          (prevouts_of_unsigned hunsigned))
      exact ⟨_, tx, signAndFinalize_eq_some.mpr ⟨pset', hsign, Prod.ext hok rfl, htx⟩⟩
  · intro fin tx h
    obtain ⟨pset', hsign, hfin, htx⟩ := signAndFinalize_eq_some.mp h
    obtain ⟨hunsigned, -⟩ := signAll_eq_some hlib hsign
    have hquorum := haccounts.quorumSigned hlib hbase (hcan pset' hsign) hecdsa hvalid hsign
    have hleft : fin = (finalizeP2wshPset Id pset').2 := (congrArg Prod.snd hfin).symm
    refine ⟨?_, ?_, ?_⟩
    · rw [hleft]
      exact (ElementsSigningCoordinator.finalizeInputs_previousOutput 0 pset'.inputs).trans
        (prevouts_of_unsigned hunsigned)
    · intro i input hi
      obtain ⟨input', hi', -⟩ := input_of_unsigned hunsigned hi
      rw [hleft]
      exact hquorum.accepts hdecode hi'
    · intro signers' hperm hdistinct
      obtain ⟨pset'', hsign'⟩ : ∃ pset'', signAll Id signers' pset = some pset'' :=
        (signAll_isSome_iff hlib).mpr fun signer hmem =>
          hcan pset' hsign signer (hperm.mem_iff.mp hmem)
      obtain ⟨hunsigned', -⟩ := signAll_eq_some hlib hsign'
      refine signAndFinalize_eq_some.mpr ⟨pset'', hsign', ?_, htx⟩
      rw [← hfin]
      exact finalizeP2wshPset_congr (hunsigned'.trans hunsigned.symm)
        (signAll_perm hlib hbase hperm hdistinct hsign hsign') hquorum.finalizes

end

/-! The input of a federation of three, and the input of another account
with one key. -/

section

open ElementsSigningCoordinator

def twoAccounts : Pset CompressedKey where
  inputs := [{ inputOfThree with witnessUtxo := some spentOutput },
    { multisigInput 1 1 [keyFour] [] with
      witnessUtxo := some spentOutput
      bip32Derivation := Map.collect [(keyFour, (⟨4⟩, ⟨[]⟩))] }]
  outputs := [blindedOutput]

def twoAccountsTx : Transaction where
  txid := ⟨0⟩
  input := [⟨⟨⟨200⟩, 0⟩⟩, ⟨⟨⟨200⟩, 1⟩⟩]
  output := [⟨.confidential ⟨10⟩, .confidential ⟨8⟩, .null, ⟨[0x51]⟩, ⟨some [1], some [1]⟩⟩]

def accountKeys (i : Nat) : List CompressedKey :=
  if i = 0 then [keyOne, keyTwo, keyThree] else [keyFour]

def accountThreshold (i : Nat) : Nat := if i = 0 then 2 else 1

def accountSigners : List (SoftwareSigner UInt8) := [memberSigner 3, memberSigner 4, memberSigner 1]

/-- The signature names the member whose key it is under. -/
def validAccount (_ : Nat) (key : CompressedKey) (sig : List UInt8) : Bool :=
  sig.head? == some (if key = keyOne then 1 else if key = keyThree then 3 else 4)

theorem accountInputs_twoAccounts : AccountInputs CompressedKey.bytes accountThreshold accountKeys
    accountSigners twoAccounts := by
  constructor
  · intro i input hi
    obtain _ | _ | i := i
    · obtain rfl := Option.some.inj hi
      exact ⟨by decide, by decide, by decide, fun key _ => key.length, rfl⟩
    · obtain rfl := Option.some.inj hi
      exact ⟨by decide, by decide, by decide, fun key _ => key.length, rfl⟩
    · cases hi
  · intro i input hi
    obtain _ | _ | i := i
    · obtain rfl := Option.some.inj hi
      refine ⟨{keyOne, keyThree}, by decide, ?_⟩
      intro key hkey
      rcases Finset.mem_insert.mp hkey with rfl | hkey
      · exact ⟨by decide, memberSigner 1, by simp [accountSigners], ⟨[]⟩, rfl⟩
      · obtain rfl := Finset.mem_singleton.mp hkey
        exact ⟨by decide, memberSigner 3, by simp [accountSigners], ⟨[]⟩, rfl⟩
    · obtain rfl := Option.some.inj hi
      refine ⟨{keyFour}, by decide, ?_⟩
      intro key hkey
      obtain rfl := Finset.mem_singleton.mp hkey
      exact ⟨by decide, memberSigner 4, by simp [accountSigners], ⟨[]⟩, rfl⟩
    · cases hi

theorem accounts_settle_twoAccounts : ∃ fin tx out witness,
    signAndFinalize Nat accountSigners twoAccounts = some (fin, tx) ∧
    signAndFinalize Nat accountSigners.reverse twoAccounts = some (fin, tx) ∧
    fin.inputs[1]? = some out ∧ out.finalScriptWitness = some witness ∧
    AcceptsMultisig (validAccount 1) 1 [keyFour] (multisigScript CompressedKey.bytes 1 [keyFour])
      witness := by
  have hcan : ∀ signer ∈ accountSigners, ∃ n, (signer.signPset Nat twoAccounts).1 = .ok n := by
    intro signer hsigner
    simp only [accountSigners, List.mem_cons, List.not_mem_nil, or_false] at hsigner
    obtain rfl | rfl | rfl := hsigner <;> exact ⟨1, rfl⟩
  have hecdsa : ∀ idx tx genesis message,
      SigningLib.sighashMsg UInt8 twoAccounts idx tx genesis ≠ .ok (.tapSighash message) := by
    intro idx tx genesis message h
    obtain _ | _ | idx := idx <;> cases h
  have hvalid : ∀ signer ∈ accountSigners, ∀ (i : Nat) pk sig,
      signer.signature twoAccounts (i, pk) = some sig → validAccount i pk sig := by
    have hall : ∀ signer ∈ accountSigners, ∀ i ∈ List.range 2,
        ∀ e ∈ signer.sigsAt twoAccounts twoAccountsTx i, validAccount i e.1 e.2 := by decide
    intro signer hsigner i pk sig hsig
    obtain ⟨input, hi, -⟩ := SoftwareSigner.origin_of_signature hsig
    have hmem := (SoftwareSigner.signature_eq_some
      (show ElementsLib.extractTx twoAccounts = .ok twoAccountsTx from rfl)).mp hsig
    have hlt : i < 2 := (List.getElem?_eq_some_iff.mp hi).1
    exact hall signer hsigner i (List.mem_range.mpr hlt) _ hmem
  obtain ⟨fin, tx, hsettle⟩ : ∃ fin tx,
      signAndFinalize Nat accountSigners twoAccounts = some (fin, tx) :=
    (accounts_settle ignoresSigs_compressedKey decodesScripts_compressedKey
      (extracts_compressedKey rfl) rfl accountInputs_twoAccounts hecdsa hvalid).1.mpr hcan
  obtain ⟨-, haccepts, hperm⟩ := (accounts_settle ignoresSigs_compressedKey
    decodesScripts_compressedKey (extracts_compressedKey rfl) rfl accountInputs_twoAccounts hecdsa
    hvalid).2 fin tx hsettle
  obtain ⟨out, witness, hout, hwitness, haccepted⟩ := haccepts 1 _ rfl
  exact ⟨fin, tx, out, witness, hsettle, hperm _ (List.reverse_perm _) (by decide), hout, hwitness,
    haccepted⟩

end

end EmvaultElements
