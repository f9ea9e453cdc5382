import EmvaultElements.Coins
import EmvaultElements.Session

/-!
# From the chain to a transaction

The stages of the pipeline put together. A pass syncs the chain, what it
lists for some wallets is migrated, the PSET is signed in a session, and
the coordinator finalizes it. The transaction then spends exactly the
coins of these wallets, and every witness satisfies the multisig script
that its coin pays (`coins_are_settled`).

What the stages call in LWK and miniscript is a parameter, as before.
What is relied on is said of a wollet's definite descriptors
(`FederationScript`), of the call that writes any descriptor into an
input (`WritesInput`) or one of these (`WritesScripts`), and of the
transaction that is extracted in the end (`ExtractsInputs`).
-/

namespace EmvaultElements

variable {PK Id Definite : Type} [DecidableEq PK]

/-! ## Descriptors of a federation -/

/-- How a definite descriptor of a multisig wallet reads: the keys of
its script in their order, which of them is whose, where they come from,
and the script that pays to it. -/
structure MultisigForm (Definite PK Id : Type) where
  keys : Definite → List PK
  own : Definite → Id → PK
  origins : Definite → KeyOrigins PK
  scriptPubkey : Definite → Script

/-- The descriptor is a multisig of the federation, in which every
member has a key of its own. -/
structure FederationScript (form : MultisigForm Definite PK Id) (encode : PK → List UInt8)
    (p2wsh : Script → Script) (fed : Federation Id) (members : Finset Id) (definite : Definite) :
    Prop where
  one_le : 1 ≤ fed.threshold
  le_length : fed.threshold ≤ (form.keys definite).length
  length_le : (form.keys definite).length ≤ 16
  compressed : ∀ key ∈ form.keys definite, (encode key).length = 33
  own_mem : ∀ id ∈ members, form.own definite id ∈ form.keys definite
  own_inj : Set.InjOn (form.own definite) members
  own_origin : ∀ id signer, fed.find id = some signer →
    Origin signer.fingerprint (form.origins definite) (form.own definite id)
  pays : form.scriptPubkey definite =
    p2wsh (multisigScript encode fed.threshold (form.keys definite))

/-- Writing a descriptor's data into an input leaves what it spends and
its signatures, the other inputs and the outputs. -/
def WritesInput (PK Definite : Type) [PsbtExt PK Definite] : Prop :=
  ∀ (pset pset' : Pset PK) (idx : Nat) (definite : Definite),
    PsbtExt.updateInputWithDescriptor pset idx definite = .ok pset' →
    pset'.outputs = pset.outputs ∧ ∃ input input', pset.inputs[idx]? = some input ∧
      pset'.inputs = pset.inputs.set idx input' ∧
      input'.previousOutput = input.previousOutput ∧ input'.partialSigs = input.partialSigs

/-- The input has a witness script and, among others, these origins. -/
structure PsetInput.Enriched (script : Script) (origins : KeyOrigins PK) (input : PsetInput PK) :
    Prop where
  witnessScript : input.witnessScript = some script
  origins : ∀ pk origin, origins.lookup pk = some origin →
    input.bip32Derivation.lookup pk = some origin

/-- Writing a descriptor of the federation enriches the input with its
script and its origins. -/
def WritesScripts [PsbtExt PK Definite] (form : MultisigForm Definite PK Id)
    (encode : PK → List UInt8) (p2wsh : Script → Script) (fed : Federation Id)
    (members : Finset Id) : Prop :=
  ∀ (pset pset' : Pset PK) (idx : Nat) (definite : Definite),
    FederationScript form encode p2wsh fed members definite →
    PsbtExt.updateInputWithDescriptor pset idx definite = .ok pset' →
    ∀ input, pset'.inputs[idx]? = some input →
      input.Enriched (multisigScript encode fed.threshold (form.keys definite))
        (form.origins definite)

/-! ## The calls -/

omit [DecidableEq PK] in
theorem unsigned_eq_iff {pset : Pset PK} :
    pset.unsigned = pset ↔ ∀ input ∈ pset.inputs, input.partialSigs = ∅ := by
  constructor
  · intro h input hmem
    rw [← h] at hmem
    obtain ⟨input₀, -, rfl⟩ := List.mem_map.mp hmem
    rfl
  · intro h
    have hinputs : pset.inputs.map PsetInput.unsigned = pset.inputs := by
      refine (List.map_congr_left ?_).trans (List.map_id _)
      intro input hmem
      rw [PsetInput.unsigned, ← h input hmem]
      rfl
    rw [Pset.unsigned, hinputs]

section

variable [PsbtExt PK Definite] (hinput : WritesInput PK Definite)

include hinput

omit [DecidableEq PK] in
theorem prevoutsKept_of_writes : PrevoutsKept PK Definite := by
  intro pset pset' idx definite hupdate
  obtain ⟨-, input, input', hi, hset, hprevious, -⟩ := hinput pset pset' idx definite hupdate
  refine List.ext_getElem? ?_
  intro i
  rw [Pset.prevouts, Pset.prevouts, List.getElem?_map, List.getElem?_map, hset]
  by_cases heq : idx = i
  · subst heq
    rw [List.getElem?_set_self (List.getElem?_eq_some_iff.mp hi).1, hi, Option.map_some,
      Option.map_some, hprevious]
  · rw [List.getElem?_set_ne heq]

omit [DecidableEq PK] in
/-- The inputs keep their signatures. -/
theorem unsigned_makeCalls {calls : List (Nat × Definite)} {pset pset' : Pset PK}
    (hok : makeCalls calls pset = .ok pset') (h : pset.unsigned = pset) :
    pset'.unsigned = pset' := by
  refine foldlM_keeps (P := fun p : Pset PK => p.unsigned = p) ?_ hok h
  intro call _ p p' hone hp
  obtain ⟨-, input, input', hi, hset, -, hsigs⟩ := hinput p p' call.1 call.2 hone
  rw [unsigned_eq_iff] at hp ⊢
  intro input'' hmem
  rw [hset] at hmem
  rcases List.mem_or_eq_of_mem_set hmem with hold | rfl
  · exact hp _ hold
  · rw [hsigs]
    exact hp input (List.mem_of_getElem? hi)

omit [DecidableEq PK] in
/-- Calls for other inputs leave an input as it is. -/
theorem getElem?_makeCalls {i : Nat} {calls : List (Nat × Definite)} {pset pset' : Pset PK}
    (hok : makeCalls calls pset = .ok pset') (hi : i ∉ calls.map (·.1)) :
    pset'.inputs[i]? = pset.inputs[i]? := by
  refine foldlM_keeps (P := fun p : Pset PK => p.inputs[i]? = pset.inputs[i]?) ?_ hok rfl
  intro call hmem p p' hone hp
  obtain ⟨-, _, _, -, hset, -⟩ := hinput p p' call.1 call.2 hone
  have hne : call.1 ≠ i := by
    rintro rfl
    exact hi (List.mem_map_of_mem hmem)
  rw [hset, List.getElem?_set_ne hne, hp]

/-- With one call for each input, each is enriched from its own. -/
theorem enriched_makeCalls {form : MultisigForm Definite PK Id} {encode : PK → List UInt8}
    {p2wsh : Script → Script} {fed : Federation Id} {members : Finset Id}
    (hwrites : WritesScripts form encode p2wsh fed members) {calls : List (Nat × Definite)} :
    ∀ {pset pset' : Pset PK}, (calls.map (·.1)).Nodup →
      (∀ call ∈ calls, FederationScript form encode p2wsh fed members call.2) →
      makeCalls calls pset = .ok pset' → ∀ i definite, (i, definite) ∈ calls →
      ∃ input, pset'.inputs[i]? = some input ∧
        input.Enriched (multisigScript encode fed.threshold (form.keys definite))
          (form.origins definite) := by
  induction calls with
  | nil => exact fun _ _ _ _ _ hmem => absurd hmem List.not_mem_nil
  | cons call calls ih =>
      intro pset pset' hnodup hscripts hok i definite hmem
      obtain ⟨hfirst, hrest⟩ := List.nodup_cons.mp hnodup
      rw [makeCalls, List.foldlM_cons] at hok
      obtain ⟨pset₁, hone, hcalls⟩ := bind_eq_ok.mp hok
      rcases List.mem_cons.mp hmem with rfl | hlater
      · obtain ⟨-, _, input, hi, hset, -⟩ := hinput pset pset₁ i definite hone
        have hinput₁ : pset₁.inputs[i]? = some input := by
          rw [hset]
          exact List.getElem?_set_self (List.getElem?_eq_some_iff.mp hi).1
        refine ⟨input, ?_, hwrites pset pset₁ i definite (hscripts _ List.mem_cons_self) hone input
          hinput₁⟩
        rw [getElem?_makeCalls hinput hcalls hfirst, hinput₁]
      · exact ih hrest (fun call hc => hscripts call (List.mem_cons_of_mem _ hc)) hcalls i definite
          hlater

end

/-! ## What is signed -/

section

variable {D M : Type} [LwkDescriptor D] [WolletDescriptor D M] [MultipathDescriptor M Definite]
  [PsbtExt PK Definite] {form : MultisigForm Definite PK Id} {encode : PK → List UInt8}
  {p2wsh : Script → Script} {fed : Federation Id} {members : Finset Id} {H : History D}
  {ids : List WalletId} {wolletOf : WalletId → ElementsWollet D} {blinded : BlindedPset PK}

/-- A PSET that spends coins of wallets of the federation is the
federation's to sign. -/
theorem SpendsCoins.federationInputs
    (h : SpendsCoins Id H ids wolletOf form.scriptPubkey blinded) (hne : blinded.pset.inputs ≠ [])
    (hinput : WritesInput PK Definite) (hwrites : WritesScripts form encode p2wsh fed members)
    (hscripts : ∀ id ∈ ids, ∀ definite, DefiniteOf Id (wolletOf id) definite →
      FederationScript form encode p2wsh fed members definite)
    (hcard : members.card ≤ 16) (hcontains : ∀ id, fed.contains id ↔ id ∈ members) :
    ∃ definites : Nat → Definite,
      (∀ (i : Nat) op, blinded.pset.prevouts[i]? = some op → ∃ id ∈ ids, ∃ txout,
        Coin H id op txout ∧ txout.scriptPubkey =
          p2wsh (multisigScript encode fed.threshold (form.keys (definites i)))) ∧
      FederationInputs encode fed members (fun id i => form.own (definites i) id)
        (fun i => form.keys (definites i)) blinded.pset := by
  obtain ⟨pset, calls, hcalls, hevery, hown⟩ := h.enriched
  have hcall : ∀ i < blinded.pset.inputs.length, ∃ definite, calls[i]? = some (i, definite) := by
    intro i hi
    have hfst : (calls.map (·.1))[i]? =
      (List.range blinded.pset.inputs.length)[i]? := by rw [hevery]
    rw [List.getElem?_map, List.getElem?_range hi] at hfst
    obtain ⟨⟨_, definite⟩, hget, rfl⟩ := Option.map_eq_some_iff.mp hfst
    exact ⟨definite, hget⟩
  obtain ⟨first, hfirst⟩ := hcall 0 (List.length_pos_of_ne_nil hne)
  let definites (i : Nat) : Definite := ((calls[i]?).map Prod.snd).getD first
  have hmem : ∀ i < blinded.pset.inputs.length, (i, definites i) ∈ calls := by
    intro i hi
    obtain ⟨definite, hget⟩ := hcall i hi
    have hdefinite : definites i = definite := by simp only [definites, hget, Option.map_some,
      Option.getD_some]
    rw [hdefinite]
    exact List.mem_of_getElem? hget
  have hscript : ∀ call ∈ calls,
      FederationScript form encode p2wsh fed members call.2 := by
    intro call hc
    obtain ⟨id, hid, -, -, -, -, hdefinite, -⟩ := hown call.1 call.2 hc
    exact hscripts id hid call.2 hdefinite
  have hall : ∀ i, FederationScript form encode p2wsh fed members (definites i) := by
    intro i
    cases hget : calls[i]? with
    | none =>
        have hdefinite : definites i = first := by simp only [definites, hget, Option.map_none,
          Option.getD_none]
        rw [hdefinite]
        exact hscript _ (List.mem_of_getElem? hfirst)
    | some call =>
        have hdefinite : definites i = call.2 := by simp only [definites, hget, Option.map_some,
          Option.getD_some]
        rw [hdefinite]
        exact hscript call (List.mem_of_getElem? hget)
  have henriched : ∀ (i : Nat) input, blinded.pset.inputs[i]? = some input →
      input.Enriched (multisigScript encode fed.threshold (form.keys (definites i)))
        (form.origins (definites i)) := by
    intro i input hi
    have hnodup : (calls.map (·.1)).Nodup := hevery ▸ List.nodup_range
    obtain ⟨input', hi', hupdated⟩ := enriched_makeCalls hinput hwrites hnodup hscript hcalls i
      (definites i) (hmem i (List.getElem?_eq_some_iff.mp hi).1)
    obtain rfl := Option.some.inj (hi.symm.trans hi')
    exact hupdated
  refine ⟨definites, ?_, hcard, hcontains, ?_, ?_, ?_, ?_⟩
  · intro i op hop
    have hlt : i < blinded.pset.inputs.length := by
      rw [← length_prevouts]
      exact (List.getElem?_eq_some_iff.mp hop).1
    obtain ⟨id, hid, op', txout, hop', hcoin, -, hpays⟩ := hown i _ (hmem i hlt)
    obtain rfl := Option.some.inj (hop.symm.trans hop')
    exact ⟨id, hid, txout, hcoin, hpays.symm.trans (hall i).pays⟩
  · intro i input hi
    have hupdated := henriched i input hi
    exact ⟨(hall i).one_le, (hall i).le_length, (hall i).length_le, (hall i).compressed,
      hupdated.witnessScript⟩
  · exact fun id hid i _ _ => (hall i).own_mem id hid
  · intro id signer hfind i input hi
    have hupdated := henriched i input hi
    obtain ⟨path, hpath⟩ := (hall i).own_origin id signer hfind
    exact ⟨path, hupdated.origins _ _ hpath⟩
  · exact fun i => (hall i).own_inj

/-! ## What is finalized -/

variable {B Rate : Type} {lwk : TxBuilder D PK B Rate} [DefiniteDescriptor Definite]

omit [DecidableEq PK] [LwkDescriptor D] in
/-- LWK signs nothing, and neither does enriching. -/
theorem unsigned_buildMigrationPset (hinput : WritesInput PK Definite)
    (hunsigned : ∀ b wollet pset, lwk.finish b wollet = .ok pset → pset.unsigned = pset)
    {feeWollet : ElementsWollet D} {inputs : List (CapturedUtxo × ElementsWollet D)}
    {customerRecipients : List (Address × Nat)} {feeAccountDest : Address} {feeRate : Rate}
    (hok : buildMigrationPset lwk feeWollet inputs customerRecipients feeAccountDest feeRate =
      (.ok blinded : Outcome (SpendError Id) (BlindedPset PK))) :
    blinded.pset.unsigned = blinded.pset := by
  unfold buildMigrationPset at hok
  cases hprepared : migrationInputs Id inputs with
  | error e =>
      rw [hprepared] at hok
      cases hok
  | ok prepared =>
      rw [hprepared] at hok
      simp only [finishBuilt] at hok
      split at hok
      · cases hok
      · next pset hbuilt =>
          obtain ⟨b, -, hbuilt⟩ := bind_eq_ok.mp hbuilt
          obtain ⟨b', -, hbuilt⟩ := bind_eq_ok.mp hbuilt
          rw [finishBlinded_eq (prevoutsKept_of_writes hinput)] at hok
          exact unsigned_makeCalls hinput (afterCalls_eq_ok hok)
            (hunsigned _ _ pset (mapError_eq_ok.mp hbuilt))

end

section

variable [ElementsLib PK] {c : ElementsSigningCoordinator PK Id} {fin : FinalizedPset PK}

/-- An extracted transaction spends what the inputs of the PSET do. -/
def ExtractsInputs (PK : Type) [ElementsLib PK] : Prop :=
  ∀ (pset : Pset PK) tx, ElementsLib.extractTx pset = .ok tx → tx.spends = pset.prevouts

/-- The transaction is the one of the finalized PSET. -/
theorem finalize_transaction (hok : c.finalize = .ok fin) :
    ElementsLib.extractTx fin.pset = .ok fin.transaction := by
  unfold ElementsSigningCoordinator.finalize at hok
  split at hok
  · cases hok
  · cases hok
  · cases hok
  · split at hok
    · cases hok
    · split at hok
      · cases hok
      · next htransaction =>
          cases hok
          exact htransaction

/-- It spends what the coordinator's PSET does. -/
theorem prevouts_finalize (hok : c.finalize = .ok fin) : fin.pset.prevouts = c.pset.prevouts := by
  obtain ⟨-, hpset⟩ := finalize_eq_ok hok
  rw [hpset]
  exact ElementsSigningCoordinator.finalizeInputs_previousOutput 0 c.pset.inputs

end

section

variable {D M Xpriv B Rate : Type} [LwkDescriptor D] [WolletDescriptor D M]
  [MultipathDescriptor M Definite] [DefiniteDescriptor Definite] [PsbtExt PK Definite]
  [SigningLib PK Xpriv] [DecidableEq Id]
  {C : Set (List Block)} {node : MockChainSource} {S S' : Stores} {H : History D}
  {E : BlockScanEngine D} {summary : SyncSummary} {ids : List WalletId}
  {wolletOf : WalletId → ElementsWollet D} {form : MultisigForm Definite PK Id}
  {encode : PK → List UInt8} {p2wsh : Script → Script} {fed : Federation Id} {members : Finset Id}
  {lwk : TxBuilder D PK B Rate} {given : B → List ExternalUtxo} {blinded : BlindedPset PK}
  {signers : Id → SoftwareSigner Xpriv} {s : Session PK Id}
  {valid : Nat → PK → List UInt8 → Bool}

/-- What is listed for some wallets of a federation after a pass,
migrated and then signed in any session by a quorum, is finalized to a
transaction that spends exactly the wallets' coins, with a witness for
each that satisfies the multisig script it pays. -/
theorem coins_are_settled (hid : HashesIdentify C) (hvalid : ∀ c ∈ C, ValidChain c)
    (hrun : SyncRun C node S H)
    (hexec : Prog.Exec (memEnv node noFault) E.sync S (.ok summary) S')
    (hH : ∀ p ∈ H, OneWollet ids wolletOf p.2) (hE : OneWollet ids wolletOf E) (hids : ids.Nodup)
    (haddresses : ∀ id ∈ ids, AddressesMatch Id form.scriptPubkey (wolletOf id))
    (hscripts : ∀ id ∈ ids, ∀ definite, DefiniteOf Id (wolletOf id) definite →
      FederationScript form encode p2wsh fed members definite)
    (hinput : WritesInput PK Definite) (hwrites : WritesScripts form encode p2wsh fed members)
    (htext : TextsIdentify (listedInputs S' wolletOf ids)) (hlwk : SpendsGiven lwk given)
    (hunsigned : ∀ b wollet pset, lwk.finish b wollet = .ok pset → pset.unsigned = pset)
    {feeWollet : ElementsWollet D} {customerRecipients : List (Address × Nat)}
    {feeAccountDest : Address} {feeRate : Rate}
    (hbuild : buildMigrationPset lwk feeWollet (listedInputs S' wolletOf ids) customerRecipients
      feeAccountDest feeRate = (.ok blinded : Outcome (SpendError Id) (BlindedPset PK)))
    (hcard : members.card ≤ 16) (hcontains : ∀ id, fed.contains id ↔ id ∈ members)
    (hthreshold : 1 ≤ fed.threshold) (hlib : IgnoresSigs PK Xpriv)
    (hmembers : MemberSigners fed signers) (hdecode : DecodesScripts encode)
    (hextract : ElementsSigningCoordinator.Extracts blinded.pset)
    (hspending : ExtractsInputs PK)
    (hecdsa : ∀ idx tx genesis message, SigningLib.sighashMsg Xpriv blinded.pset idx tx genesis ≠
      .ok (.tapSighash message))
    (hsigs : ∀ id ∈ members, ∀ (i : Nat) pk sig,
      (signers id).signature blinded.pset (i, pk) = some sig → valid i pk sig)
    (hsession : SessionRun signers fed blinded s)
    (hquorum : fed.threshold ≤ s.coordinator.signed.card) :
    ∃ fin, s.coordinator.finalize = .ok fin ∧
      ElementsLib.extractTx fin.pset = .ok fin.transaction ∧ fin.transaction.spends.Nodup ∧
      (∀ op, op ∈ fin.transaction.spends ↔
        ∃ id ∈ ids, ∃ txout, Coin (H.rescan node.chain E) id op txout) ∧
      ∀ (i : Nat) op, fin.transaction.spends[i]? = some op → ∃ id ∈ ids, ∃ txout keys out witness,
        Coin (H.rescan node.chain E) id op txout ∧
        txout.scriptPubkey = p2wsh (multisigScript encode fed.threshold keys) ∧
        fin.pset.inputs[i]? = some out ∧ out.finalScriptWitness = some witness ∧
        AcceptsMultisig (valid i) fed.threshold keys (multisigScript encode fed.threshold keys)
          witness := by
  -- the pass, and what was built from it
  have hinv := (hrun.inv hid hvalid).pass hid hvalid (notBelowCursor_of_exec hexec) hexec
  have hchain : ValidChain (H.rescan node.chain E).blocks := by
    rw [History.blocks_rescan]
    exact hvalid _ hinv.node_mem
  have hkept := prevoutsKept_of_writes hinput
  have hspends := (buildMigrationPset_enriched hkept hlwk (nodup_listedInputs S' wolletOf hids)
    htext hbuild).spendsCoins hinv.represents hchain (oneWollet_rescan hH hE node.chain) hids
    haddresses hkept
  -- the session
  have hcollected := (hsession.inv hlib hmembers
    (unsigned_buildMigrationPset hinput hunsigned hbuild)).coordinator
  have hne : blinded.pset.inputs ≠ [] := by
    obtain ⟨id, hcounted⟩ := Finset.card_pos.mp (Nat.lt_of_lt_of_le hthreshold hquorum)
    obtain ⟨⟨i, pk⟩, hsome⟩ := (hcollected.keys id hcounted).2
    obtain ⟨sig, hsig⟩ := Option.isSome_iff_exists.mp hsome
    obtain ⟨input, hi, -⟩ := SoftwareSigner.origin_of_signature hsig
    exact List.ne_nil_of_mem (List.mem_of_getElem? hi)
  obtain ⟨definites, hpays, hfed⟩ :=
    hspends.federationInputs hne hinput hwrites hscripts hcard hcontains
  obtain ⟨fin, hfin, hwitnesses⟩ :=
    hcollected.finalizes hmembers hdecode hextract hfed hecdsa hsigs hquorum
  -- the transaction spends what was built
  have hprevouts : fin.pset.prevouts = blinded.pset.prevouts :=
    (prevouts_finalize hfin).trans
      (ElementsSigningCoordinator.previousOutput_of_extends hcollected.inputs.inputs)
  have htransaction := finalize_transaction hfin
  refine ⟨fin, hfin, htransaction, ?_⟩
  rw [hspending _ _ htransaction]
  refine ⟨?_, ?_, ?_⟩
  · rw [hprevouts]
    exact hspends.nodup
  · rw [hprevouts]
    exact hspends.prevouts
  · intro i op hop
    have hinput := prevouts_finalize hfin ▸ hop
    rw [Pset.prevouts, List.getElem?_map] at hinput
    obtain ⟨input, hi, -⟩ := Option.map_eq_some_iff.mp hinput
    obtain ⟨out, witness, hout, hwitness, haccepts⟩ := hwitnesses i input hi
    obtain ⟨id, hmem, txout, hcoin, hscript⟩ := hpays i op (hprevouts ▸ hop)
    exact ⟨id, hmem, txout, form.keys (definites i), out, witness, hcoin, hscript, hout, hwitness,
      haccepts⟩

end

/-! The two coins are migrated, and two of three members sign. -/

section

open ElementsSigningCoordinator

/-- The key of a member in a plain descriptor spells the member and the
script out. -/
def derivedKey (member : UInt8) (s : Script) : CompressedKey where
  bytes := 2 :: member :: s.bytes.getD 0 0 :: s.bytes.getD 1 0 :: s.bytes.getD 2 0 ::
    List.replicate 28 0
  length := rfl
  tag := .inl rfl

theorem derivedKey_inj {member member' : UInt8} {s s' : Script}
    (h : derivedKey member s = derivedKey member' s') : member = member' := by
  have hbytes := congrArg CompressedKey.bytes h
  exact (List.cons.inj (List.cons.inj hbytes).2).1

def plainOrigins (s : Script) : List (CompressedKey × Fingerprint × DerivationPath) :=
  [(derivedKey 1 s, ⟨1⟩, ⟨[]⟩), (derivedKey 2 s, ⟨2⟩, ⟨[]⟩), (derivedKey 3 s, ⟨3⟩, ⟨[]⟩)]

def plainForm : MultisigForm PlainDefinite CompressedKey Nat where
  keys d := [derivedKey 1 d.script, derivedKey 2 d.script, derivedKey 3 d.script]
  own d id := derivedKey (UInt8.ofNat id) d.script
  origins d := Map.collect (plainOrigins d.script)
  scriptPubkey d := d.script

instance : PsbtExt CompressedKey PlainDefinite where
  updateInputWithDescriptor pset idx d := match pset.inputs[idx]? with
    | none => .error "no such input"
    | some input => .ok { pset with inputs := pset.inputs.set idx { input with
        witnessScript := some (multisigScript CompressedKey.bytes 2 (plainForm.keys d))
        bip32Derivation := plainForm.origins d } }

theorem writesInput_plain : WritesInput CompressedKey PlainDefinite := by
  intro pset pset' idx definite hupdate
  simp only [PsbtExt.updateInputWithDescriptor] at hupdate
  cases hi : pset.inputs[idx]? with
  | none =>
      rw [hi] at hupdate
      cases hupdate
  | some input =>
      rw [hi] at hupdate
      cases hupdate
      exact ⟨rfl, input, _, rfl, rfl, rfl, rfl⟩

/-- The three bytes of the script, as the first key has them. -/
def plainHash (s : Script) : Script := ⟨(s.bytes.drop 4).take 3⟩

theorem writesScripts_plain :
    WritesScripts plainForm CompressedKey.bytes plainHash threeMembers
      ({1, 2, 3} : Finset Nat) := by
  intro pset pset' idx definite _ hupdate input hinput
  simp only [PsbtExt.updateInputWithDescriptor] at hupdate
  cases hi : pset.inputs[idx]? with
  | none =>
      rw [hi] at hupdate
      cases hupdate
  | some input₀ =>
      rw [hi] at hupdate
      cases hupdate
      rw [List.getElem?_set_self (List.getElem?_eq_some_iff.mp hi).1] at hinput
      obtain rfl := Option.some.inj hinput
      exact ⟨rfl, fun _ _ h => h⟩

theorem federationScript_plain {definite : PlainDefinite}
    (h : DefiniteOf Nat plainWollet definite) :
    FederationScript plainForm CompressedKey.bytes plainHash threeMembers {1, 2, 3} definite := by
  have hscript : ∃ chain index, definite.script = plainWollet.descriptor.script chain index := by
    obtain ⟨singles, hsingles, chain, index, hdefinite⟩ := h
    exact ⟨chain, index, addressesMatch_plainWollet Nat singles chain index definite _ hsingles
      hdefinite (by cases chain <;> rfl)⟩
  have hids : ∀ id ∈ ({1, 2, 3} : Finset Nat), id ∈ [1, 2, 3] := by decide
  refine ⟨by decide, Nat.le_succ 2, Nat.le_of_ble_eq_true rfl, fun key _ => key.length, ?_,
    ?_, ?_, ?_⟩
  · intro id hid
    have hmem := hids id hid
    simp only [List.mem_cons, List.not_mem_nil, or_false] at hmem
    obtain rfl | rfl | rfl := hmem <;> simp [plainForm]
  · intro id hid id' hid' heq
    have hinj : ∀ id ∈ ({1, 2, 3} : Finset Nat), ∀ id' ∈ ({1, 2, 3} : Finset Nat),
        UInt8.ofNat id = UInt8.ofNat id' → id = id' := by decide
    exact hinj id hid id' hid' (derivedKey_inj heq)
  · intro id signer hfind
    obtain ⟨hmem, hsigner⟩ := Option.ite_none_right_eq_some.mp hfind
    obtain rfl := Option.some.inj hsigner
    have hfun : ∀ k v v', (k, v) ∈ plainOrigins definite.script →
        (k, v') ∈ plainOrigins definite.script → v = v' := by
      intro k v v' hv hv'
      simp only [plainOrigins, List.mem_cons, List.not_mem_nil, or_false, Prod.mk.injEq] at hv hv'
      obtain ⟨rfl, rfl⟩ | ⟨rfl, rfl⟩ | ⟨rfl, rfl⟩ := hv <;>
        obtain ⟨hk, rfl⟩ | ⟨hk, rfl⟩ | ⟨hk, rfl⟩ := hv' <;>
        first | rfl | exact absurd (derivedKey_inj hk) (by decide)
    refine ⟨⟨[]⟩, (Map.lookup_collect hfun).mpr ?_⟩
    simp only [List.mem_cons, List.not_mem_nil, or_false] at hmem
    obtain rfl | rfl | rfl := hmem <;> simp [plainOrigins, plainForm]
  · obtain ⟨chain, index, hscript⟩ := hscript
    show definite.script = _
    simp only [plainForm, hscript]
    rfl

def migratedInput (vout : Nat) (script : Script) : PsetInput CompressedKey where
  previousOutput := ⟨⟨102⟩, vout⟩
  witnessUtxo := some (plainOutput script 1)
  partialSigs := ∅
  sighashType := none
  redeemScript := none
  witnessScript := some (multisigScript CompressedKey.bytes 2 (plainForm.keys ⟨script⟩))
  bip32Derivation := plainForm.origins ⟨script⟩
  finalScriptWitness := none

def migratedPset : BlindedPset CompressedKey where
  pset := {
    inputs := [migratedInput 0 (plainWollet.descriptor.script .external 0),
      migratedInput 1 (plainWollet.descriptor.script .internal 1)]
    outputs := [drainOutput] }
  blinded := rfl

theorem build_migratedPset : buildMigrationPset (plainBuilder CompressedKey) plainWollet
    (listedInputs coinsSynced (fun _ => plainWollet) [⟨1⟩]) [] ⟨⟨[0x51]⟩⟩ () =
      (.ok migratedPset : Outcome (SpendError Nat) (BlindedPset CompressedKey)) := rfl

def migratedCopy (id : Nat) : Pset CompressedKey :=
  ((memberSigner id).signPset Nat migratedPset.pset).2

/-- The first and the third member's copies have been received. -/
def migrationSigned : Session CompressedKey Nat where
  coordinator :=
    (((ElementsSigningCoordinator.mk threeMembers migratedPset.pset ∅).receiveSignature 1
      (migratedCopy 1)).2.receiveSignature 3 (migratedCopy 3)).2
  exported := [(3, migratedPset.pset), (1, migratedPset.pset)]
  returned := [(3, migratedCopy 3), (1, migratedCopy 1)]

theorem run_migrationSigned :
    SessionRun memberSigner threeMembers migratedPset migrationSigned := by
  have hstart : SessionRun memberSigner threeMembers migratedPset
      ⟨⟨threeMembers, migratedPset.pset, ∅⟩, [], []⟩ := .start rfl
  have hout := (hstart.step (.handOut 1 rfl)).step (.handOut 3 rfl)
  have hsigned := (hout.step (.sign (List.mem_cons_of_mem _ (List.mem_cons_self ..))
    (show (memberSigner 1).signPset Nat migratedPset.pset = (.ok 2, migratedCopy 1) from rfl))).step
    (.sign (List.mem_cons_self ..)
      (show (memberSigner 3).signPset Nat migratedPset.pset = (.ok 2, migratedCopy 3) from rfl))
  exact (hsigned.step (.receive (List.mem_cons_of_mem _ (List.mem_cons_self ..)))).step
    (.receive (List.mem_cons_self ..))

theorem extractsInputs_compressedKey : ExtractsInputs CompressedKey := by
  intro pset tx h
  obtain ⟨output, -, h⟩ := bind_eq_ok.mp h
  obtain rfl := Except.ok.inj h
  simp [Transaction.spends, Pset.prevouts]

/-- The signature names the member whose key it is under. -/
def validDerived (_ : Nat) (key : CompressedKey) (sig : List UInt8) : Bool :=
  sig.head? == (key.bytes.drop 1).head?

theorem coins_are_settled_migrationSigned : ∃ fin,
    migrationSigned.coordinator.finalize = .ok fin ∧
    (∀ op, op ∈ fin.transaction.spends ↔ ∃ id ∈ [WalletId.mk 1], ∃ txout,
      Coin (History.rescan [] coinBlocks plainEngine) id op txout) ∧
    ∃ txout keys out witness, Coin (History.rescan [] coinBlocks plainEngine) ⟨1⟩ ⟨⟨102⟩, 0⟩ txout ∧
      txout.scriptPubkey = plainHash (multisigScript CompressedKey.bytes 2 keys) ∧
      fin.pset.inputs[0]? = some out ∧ out.finalScriptWitness = some witness ∧
      AcceptsMultisig (validDerived 0) 2 keys (multisigScript CompressedKey.bytes 2 keys)
        witness := by
  have hrun : SyncRun {c | c ∈ [coinBlocks]} ⟨coinBlocks⟩ Stores.new
    ([] : History PlainDescriptor) :=
    .init ⟨coinBlocks⟩ (by decide) (List.mem_singleton.mpr rfl)
  have hunsigned : ∀ b wollet pset, (plainBuilder CompressedKey).finish b wollet = .ok pset →
      pset.unsigned = pset := by
    intro b wollet pset hok
    obtain rfl := Except.ok.inj hok
    rw [unsigned_eq_iff]
    intro input hmem
    obtain ⟨u, -, rfl⟩ := List.mem_map.mp hmem
    rfl
  have hcontains : ∀ id, threeMembers.contains id ↔ id ∈ ({1, 2, 3} : Finset Nat) :=
    federationInputs_three.contains
  have hecdsa : ∀ idx tx genesis message,
      SigningLib.sighashMsg UInt8 migratedPset.pset idx tx genesis ≠ .ok (.tapSighash message) := by
    intro idx tx genesis message h
    obtain _ | _ | idx := idx <;> cases h
  have hsigs : ∀ id ∈ ({1, 2, 3} : Finset Nat), ∀ (i : Nat) pk sig,
      (memberSigner id).signature migratedPset.pset (i, pk) = some sig → validDerived i pk sig := by
    intro id hid i pk sig hsig
    obtain ⟨input, hi, -⟩ := SoftwareSigner.origin_of_signature hsig
    have hmem := (SoftwareSigner.signature_eq_some rfl).mp hsig
    simp only [Finset.mem_insert, Finset.mem_singleton] at hid
    obtain _ | _ | i := i
    · obtain rfl | rfl | rfl := hid <;> cases List.mem_singleton.mp hmem <;> rfl
    · obtain rfl | rfl | rfl := hid <;> cases List.mem_singleton.mp hmem <;> rfl
    · cases hi
  obtain ⟨fin, hfin, -, -, hspent, hwitnesses⟩ := coins_are_settled hashesIdentify_coinBlocks
    validChain_coinBlocks hrun exec_coinBlocks (fun _ hp => by cases hp)
    (oneWollet_plainEngine [⟨1⟩]) (List.nodup_singleton _)
    (fun _ _ => addressesMatch_plainWollet Nat) (fun _ _ _ => federationScript_plain)
    writesInput_plain writesScripts_plain (by unfold TextsIdentify; decide)
      (spendsGiven_plainBuilder CompressedKey)
    hunsigned build_migratedPset (by decide) hcontains (by decide) ignoresSigs_compressedKey
    memberSigners_three decodesScripts_compressedKey (extracts_compressedKey rfl)
    extractsInputs_compressedKey hecdsa hsigs run_migrationSigned (by decide)
  obtain ⟨id, hmem, txout, keys, out, witness, hcoin, hpays, hout, hwitness, haccepts⟩ :=
    hwitnesses 0 ⟨⟨102⟩, 0⟩ (by
      rw [extractsInputs_compressedKey _ _ (finalize_transaction hfin), prevouts_finalize hfin]
      rfl)
  obtain rfl := List.mem_singleton.mp hmem
  exact ⟨fin, hfin, hspent, txout, keys, out, witness, hcoin, hpays, hout, hwitness, haccepts⟩

end

end EmvaultElements
