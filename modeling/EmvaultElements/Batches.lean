import EmvaultElements.Accounts
import EmvaultElements.Payments
import EmvaultElements.Pipeline

/-!
# Batched migration

The accounts of a federation are migrated in batches, one transaction a
batch. Each pays its customers and returns the rest to the fee account;
that change is captured from the transaction itself
(`capturedFromOutput`) and spent by the next one, before anything is
confirmed (`runBatches`). A last transaction takes what is left to the
fee account's new address (`runMigration`).
-/

namespace EmvaultElements

/-- What one batch spends for its customers, what it pays them, and who
signs. -/
structure MigrationBatch (D Xpriv : Type) where
  inputs : List (CapturedUtxo × ElementsWollet D)
  customers : List (Address × Nat)
  signers : List (SoftwareSigner Xpriv)

/-- The account that pays the fees. Its change goes to `oldDest` until
the last transaction. -/
structure FeeAccount (D : Type) where
  wollet : ElementsWollet D
  walletId : WalletId
  oldDest : Address
  newDest : Address

section

variable (Id : Type) {PK Xpriv D M Definite B Rate : Type} [LwkDescriptor D] [WolletDescriptor D M]
  [MultipathDescriptor M Definite] [DefiniteDescriptor Definite] [PsbtExt PK Definite]
  [DecidableEq PK] [SigningLib PK Xpriv] (lwk : TxBuilder D PK B Rate) (feeRate : Rate)
  (fee : FeeAccount D)

/-- Build one transaction, sign it and finalize it. Errors are
unwrapped. -/
def runBatch (inputs : List (CapturedUtxo × ElementsWollet D)) (customers : List (Address × Nat))
    (feeDest : Address) (signers : List (SoftwareSigner Xpriv)) : Option Transaction :=
  match (buildMigrationPset lwk fee.wollet inputs customers feeDest feeRate :
      Outcome (SpendError Id) (BlindedPset PK)) with
  | .ok blinded => (signAndFinalize Id signers blinded.pset).map Prod.snd
  | _ => none

/-- The first output to the change address, as a coin of the fee account. -/
def chainChange (tx : Transaction) : Option CapturedUtxo :=
  match tx.output.zipIdx.find? fun o => o.1.scriptPubkey == fee.oldDest.scriptPubkey with
  | none => none
  | some (txout, vout) =>
      (capturedFromOutput Id fee.wollet tx.txid vout txout fee.walletId 0).toOption

/-- The batches, each with the change of the one before. -/
def runBatches : CapturedUtxo → List (MigrationBatch D Xpriv) →
    Option (List Transaction × CapturedUtxo)
  | coin, [] => some ([], coin)
  | coin, batch :: batches => do
      let tx ← runBatch Id lwk feeRate fee (batch.inputs ++ [(coin, fee.wollet)]) batch.customers
        fee.oldDest batch.signers
      let change ← chainChange Id fee tx
      let (txs, last) ← runBatches change batches
      pure (tx :: txs, last)

/-- The batches, and the last transaction. -/
def runMigration (coin : CapturedUtxo) (batches : List (MigrationBatch D Xpriv))
    (signers : List (SoftwareSigner Xpriv)) : Option (List Transaction × Transaction) := do
  let (txs, last) ← runBatches Id lwk feeRate fee coin batches
  let final ← runBatch Id lwk feeRate fee [(last, fee.wollet)] [] fee.newDest signers
  pure (txs, final)

end

section

variable {Id PK Xpriv D M Definite B Rate : Type} [LwkDescriptor D] [WolletDescriptor D M]
  [MultipathDescriptor M Definite] [DefiniteDescriptor Definite] [PsbtExt PK Definite]
  [DecidableEq PK] [SigningLib PK Xpriv] {lwk : TxBuilder D PK B Rate} {feeRate : Rate}
  {fee : FeeAccount D} {given : B → List ExternalUtxo}

/-! ## What one transaction spends -/

omit [LwkDescriptor D] in
/-- The inputs are given to the builder as they are listed. -/
theorem external_migrationInputs {inputs : List (CapturedUtxo × ElementsWollet D)}
    {p : Prepared Definite} (h : migrationInputs Id inputs = .ok p) :
    p.external.map (fun e => (e.outpoint, e.unblinded)) =
      inputs.map fun i => (i.1.outpoint, i.1.secrets) := by
  have hfold : ∀ (inputs : List (CapturedUtxo × ElementsWollet D))
      (acc acc' : Map String (List M) × Prepared Definite),
      inputs.foldlM (migrationInput Id) acc = .ok acc' →
        acc'.2.external.map (fun e => (e.outpoint, e.unblinded)) =
          acc.2.external.map (fun e => (e.outpoint, e.unblinded)) ++
            inputs.map fun i => (i.1.outpoint, i.1.secrets) := by
    intro inputs
    induction inputs with
    | nil =>
        intro acc acc' hok
        obtain rfl := Except.ok.inj hok
        exact (List.append_nil _).symm
    | cons input inputs ih =>
        intro acc acc' hok
        rw [List.foldlM_cons] at hok
        obtain ⟨acc₁, hone, hrest⟩ := bind_eq_ok.mp hok
        rw [ih acc₁ acc' hrest]
        obtain ⟨⟨cache, singles⟩, -, hone⟩ := bind_eq_ok.mp hone
        obtain ⟨maxWeight, -, hone⟩ := bind_eq_ok.mp hone
        obtain ⟨definite, -, hone⟩ := bind_eq_ok.mp hone
        obtain rfl := Except.ok.inj hone
        simp [Prepared.push, externalUtxo]
  obtain ⟨acc, hok, rfl⟩ := map_eq_ok.mp h
  exact hfold inputs _ acc hok

/-- The PSET is what the builder of a migration made of what it was told. -/
def BuiltFor (lwk : TxBuilder D PK B Rate) (feeWollet : ElementsWollet D)
    (external : List ExternalUtxo) (recipients : List (Address × Nat)) (dest : Address)
    (feeRate : Rate) (pset : Pset PK) : Prop :=
  ∃ b b', lwk.addExternalUtxos (lwk.new feeWollet.network) external = .ok b ∧
    recipients.foldlM (fun builder r => lwk.addLbtcRecipient builder r.1 r.2) b = .ok b' ∧
    lwk.finish (lwk.feeRate (lwk.drainLbtcTo (lwk.drainLbtcWallet b') dest) (some feeRate))
      feeWollet = .ok pset

omit [LwkDescriptor D] [DecidableEq PK] in
/-- A migration is what the builder made of its inputs, enriched. -/
theorem buildMigrationPset_eq_ok (hkept : PrevoutsKept PK Definite)
    {feeWollet : ElementsWollet D} {inputs : List (CapturedUtxo × ElementsWollet D)}
    {recipients : List (Address × Nat)} {dest : Address} {blinded : BlindedPset PK}
    (h : buildMigrationPset lwk feeWollet inputs recipients dest feeRate =
      (.ok blinded : Outcome (SpendError Id) (BlindedPset PK))) :
    ∃ (external : List ExternalUtxo) (pset : Pset PK) (calls : List (Nat × Definite)),
      external.map (fun e => (e.outpoint, e.unblinded)) =
        inputs.map (fun i => (i.1.outpoint, i.1.secrets)) ∧
      BuiltFor lwk feeWollet external recipients dest feeRate pset ∧
      makeCalls calls pset = .ok blinded.pset := by
  unfold buildMigrationPset at h
  cases hprepared : migrationInputs Id inputs with
  | error e =>
      rw [hprepared] at h
      cases h
  | ok prepared =>
      rw [hprepared] at h
      unfold finishBuilt at h
      dsimp only at h
      split at h
      · cases h
      · next pset hbuilt =>
          rw [finishBlinded_eq hkept] at h
          refine ⟨prepared.external, pset, _, external_migrationInputs hprepared, ?_,
            afterCalls_eq_ok h⟩
          obtain ⟨b, hadd, hbuilt⟩ := bind_eq_ok.mp hbuilt
          obtain ⟨b', hrecipients, hbuilt⟩ := bind_eq_ok.mp hbuilt
          exact ⟨b, b', mapError_eq_ok.mp hadd, foldlM_mapError_eq_ok.mp hrecipients,
            mapError_eq_ok.mp hbuilt⟩

omit [LwkDescriptor D] [WolletDescriptor D M] [MultipathDescriptor M Definite]
  [DefiniteDescriptor Definite] [PsbtExt PK Definite] [DecidableEq PK] in
/-- LWK spends the inputs, in an order of its own. -/
theorem BuiltFor.prevouts (hlwk : SpendsGiven lwk given) {feeWollet : ElementsWollet D}
    {external : List ExternalUtxo} {recipients : List (Address × Nat)} {dest : Address}
    {pset : Pset PK} (h : BuiltFor lwk feeWollet external recipients dest feeRate pset) :
    pset.prevouts.Perm (external.map (·.outpoint)) := by
  obtain ⟨b, b', hadd, hrecipients, hfinish⟩ := h
  have hgiven := hlwk.addExternalUtxos _ _ b hadd
  rw [hlwk.new, List.nil_append] at hgiven
  have hgiven' : given b' = external := by
    refine foldlM_keeps (P := fun b => given b = external) ?_ hrecipients hgiven
    intro r _ b₁ b₂ hone hb₁
    rw [hlwk.addLbtcRecipient b₁ r.1 r.2 b₂ hone, hb₁]
  have hspends := hlwk.finish _ _ pset hfinish
  rw [hlwk.feeRate, hlwk.drainLbtcTo, hlwk.drainLbtcWallet, hgiven'] at hspends
  exact hspends

omit [LwkDescriptor D] in
/-- A transaction of the migration is extracted from what was built, with
the inputs and outputs of it. -/
theorem runBatch_eq_some (hlib : IgnoresSigs PK Xpriv)
    {inputs : List (CapturedUtxo × ElementsWollet D)} {customers : List (Address × Nat)}
    {feeDest : Address} {signers : List (SoftwareSigner Xpriv)} {tx : Transaction}
    (h : runBatch Id lwk feeRate fee inputs customers feeDest signers = some tx) :
    ∃ (blinded : BlindedPset PK) (fin : Pset PK),
      buildMigrationPset lwk fee.wollet inputs customers feeDest feeRate =
        (.ok blinded : Outcome (SpendError Id) (BlindedPset PK)) ∧
      fin.prevouts = blinded.pset.prevouts ∧ fin.outputs = blinded.pset.outputs ∧
      ElementsLib.extractTx fin = .ok tx := by
  unfold runBatch at h
  split at h
  · next blinded hbuilt =>
      obtain ⟨⟨fin, tx⟩, hsigned, rfl⟩ := Option.map_eq_some_iff.mp h
      obtain ⟨pset', hsign, hfinal, htx⟩ := signAndFinalize_eq_some.mp hsigned
      obtain ⟨hunsigned, -⟩ := signAll_eq_some hlib hsign
      obtain rfl : (finalizeP2wshPset Id pset').2 = fin := congrArg Prod.snd hfinal
      have houtputs := congrArg Pset.outputs hunsigned
      refine ⟨blinded, (finalizeP2wshPset Id pset').2, hbuilt, ?_, houtputs, htx⟩
      exact (ElementsSigningCoordinator.finalizeInputs_previousOutput 0 pset'.inputs).trans
        (prevouts_of_unsigned hunsigned)
  · cases h

omit [LwkDescriptor D] in
theorem runBatch_spends (hkept : PrevoutsKept PK Definite) (hlwk : SpendsGiven lwk given)
    (hlib : IgnoresSigs PK Xpriv) (hextract : ExtractsInputs PK)
    {inputs : List (CapturedUtxo × ElementsWollet D)} {customers : List (Address × Nat)}
    {feeDest : Address} {signers : List (SoftwareSigner Xpriv)} {tx : Transaction}
    (h : runBatch Id lwk feeRate fee inputs customers feeDest signers = some tx) :
    tx.spends.Perm (inputs.map (·.1.outpoint)) := by
  obtain ⟨blinded, fin, hbuilt, hprevouts, -, htx⟩ := runBatch_eq_some hlib h
  obtain ⟨external, pset, calls, hexternal, hbuilt, hcalls⟩ := buildMigrationPset_eq_ok hkept hbuilt
  have hops := congrArg (List.map Prod.fst) hexternal
  simp only [List.map_map, Function.comp_def] at hops
  rw [hextract fin tx htx, hprevouts, prevouts_makeCalls hkept hcalls, ← hops]
  exact hbuilt.prevouts hlwk

/-- The change is an output of the transaction to the change address. -/
theorem chainChange_eq_some {tx : Transaction} {change : CapturedUtxo}
    (h : chainChange Id fee tx = some change) :
    ∃ (vout : Nat) (txout : TxOut) (secrets : TxOutSecrets), tx.output[vout]? = some txout ∧
      txout.scriptPubkey = fee.oldDest.scriptPubkey ∧ fee.wollet.unblind txout = .ok secrets ∧
      change = {
        walletId := fee.walletId, outpoint := { txid := tx.txid, vout }, txout, secrets
        chain := .external, wildcardIndex := 0, height := 0, isSpent := false } := by
  unfold chainChange at h
  split at h
  · cases h
  · next txout vout hfind =>
      have hmem := List.mem_zipIdx_iff_getElem?.mp (List.mem_of_find?_eq_some hfind)
      have hscript : txout.scriptPubkey = fee.oldDest.scriptPubkey := beq_iff_eq.mp
        (List.find?_some (p := fun o : TxOut × Nat => o.1.scriptPubkey == fee.oldDest.scriptPubkey)
          hfind)
      simp only [capturedFromOutput] at h
      cases hsecrets : fee.wollet.unblind txout with
      | error e =>
          rw [hsecrets] at h
          cases h
      | ok secrets =>
          rw [hsecrets] at h
          exact ⟨vout, txout, secrets, hmem, hscript, hsecrets, (Option.some.inj h).symm⟩

omit [LwkDescriptor D] in
theorem runMigration_cons [LwkDescriptor D] {coin : CapturedUtxo} {batch : MigrationBatch D Xpriv}
    {batches : List (MigrationBatch D Xpriv)} {signers : List (SoftwareSigner Xpriv)}
    {txs : List Transaction}
    {final : Transaction}
    (h : runMigration Id lwk feeRate fee coin (batch :: batches) signers = some (txs, final)) :
    ∃ tx change txs', runBatch Id lwk feeRate fee (batch.inputs ++ [(coin, fee.wollet)])
        batch.customers fee.oldDest batch.signers = some tx ∧ chainChange Id fee tx = some change ∧
      runMigration Id lwk feeRate fee change batches signers = some (txs', final) ∧
      txs = tx :: txs' := by
  obtain ⟨⟨_, last⟩, hbatches, h⟩ := Option.bind_eq_some_iff.mp h
  obtain ⟨tx, hbatch, hbatches⟩ := Option.bind_eq_some_iff.mp hbatches
  obtain ⟨change, hchange, hbatches⟩ := Option.bind_eq_some_iff.mp hbatches
  obtain ⟨⟨txs', last'⟩, hrest, hbatches⟩ := Option.bind_eq_some_iff.mp hbatches
  obtain ⟨rfl, rfl⟩ := Prod.mk.inj (Option.some.inj hbatches)
  obtain ⟨final', hfinal, h⟩ := Option.bind_eq_some_iff.mp h
  obtain ⟨rfl, rfl⟩ := Prod.mk.inj (Option.some.inj h)
  refine ⟨tx, change, txs', hbatch, hchange, ?_, rfl⟩
  exact Option.bind_eq_some_iff.mpr ⟨_, hrest, Option.bind_eq_some_iff.mpr ⟨final', hfinal, rfl⟩⟩

end

/-! ## Chained transactions -/

theorem Transaction.txid_of_mem_creates {tx : Transaction} {o : OutPoint} (h : o ∈ tx.creates) :
    o.txid = tx.txid := by
  obtain ⟨vout, -, rfl⟩ := List.mem_map.mp h
  rfl

/-- Each transaction spends inputs of its own and an outpoint handed to
it, and all but the last hand one of their outputs to the next. -/
inductive Chained : OutPoint → List (List OutPoint) → List Transaction → List OutPoint → Prop
  | last {op : OutPoint} {own : List OutPoint} {tx : Transaction}
      (hspends : tx.spends.Perm (own ++ [op])) : Chained op [own] [tx] []
  | link {op change : OutPoint} {own : List OutPoint} {owns : List (List OutPoint)}
      {tx : Transaction} {txs : List Transaction} {changes : List OutPoint}
      (hspends : tx.spends.Perm (own ++ [op])) (hchange : change ∈ tx.creates)
      (h : Chained change owns txs changes) :
      Chained op (own :: owns) (tx :: txs) (change :: changes)

namespace Chained

variable {op : OutPoint} {owns : List (List OutPoint)} {txs : List Transaction}
  {changes : List OutPoint}

/-- Together they spend what they were given and what they hand on. -/
theorem spends_perm (h : Chained op owns txs changes) :
    (txs.flatMap Transaction.spends).Perm (op :: owns.flatten ++ changes) := by
  induction h with
  | @last op own tx hspends =>
      rw [List.flatMap_singleton, List.flatten_singleton, List.append_nil]
      exact hspends.trans (List.perm_append_singleton op own)
  | @link op change own owns tx txs changes hspends hchange h ih =>
      rw [List.flatMap_cons, List.flatten_cons]
      refine (hspends.append ih).trans (List.perm_iff_count.mpr ?_)
      intro o
      simp only [List.count_append, List.count_cons, List.count_nil]
      omega

theorem length (h : Chained op owns txs changes) :
    txs.length = owns.length ∧ changes.length + 1 = txs.length := by
  induction h with
  | last hspends => exact ⟨rfl, rfl⟩
  | link hspends hchange h ih =>
      simp only [List.length_cons]
      omega

/-- What is handed on is an output. -/
theorem created (h : Chained op owns txs changes) :
    ∀ change ∈ changes, ∃ tx ∈ txs, change.txid = tx.txid := by
  induction h with
  | last hspends => exact fun _ hmem => absurd hmem List.not_mem_nil
  | @link op change own owns tx txs changes hspends hchange h ih =>
      intro o hmem
      rcases List.mem_cons.mp hmem with rfl | hlater
      · exact ⟨tx, List.mem_cons_self, Transaction.txid_of_mem_creates hchange⟩
      · obtain ⟨tx', htx', hsame⟩ := ih o hlater
        exact ⟨tx', List.mem_cons_of_mem _ htx', hsame⟩

/-- What the transactions spend that they did not make, and their ids. -/
structure Fresh (given : List OutPoint) (txs : List Transaction) : Prop where
  nodup : given.Nodup
  fresh : ∀ tx ∈ txs, ∀ o ∈ given, o.txid ≠ tx.txid
  identify : ∀ tx ∈ txs, ∀ tx' ∈ txs, tx.txid = tx'.txid → tx.spends = tx'.spends

/-- The first transaction has an id of its own: none of the others
spends what was handed to it. -/
theorem first_txid {own : List OutPoint} {change : OutPoint} {tx : Transaction}
    (hspends : tx.spends.Perm (own ++ [op])) (h : Chained change owns txs changes)
    (hchange : change.txid = tx.txid) (hfresh : Fresh (op :: (own ++ owns.flatten)) (tx :: txs)) :
    ∀ tx' ∈ txs, tx.txid ≠ tx'.txid := by
  intro tx' htx' heq
  have hsame := hfresh.identify tx List.mem_cons_self tx' (List.mem_cons_of_mem _ htx') heq
  have hspent : op ∈ tx'.spends := by
    rw [← hsame, hspends.mem_iff]
    exact List.mem_append_right _ (List.mem_singleton.mpr rfl)
  have hgiven := h.spends_perm.mem_iff.mp (List.mem_flatMap.mpr ⟨tx', htx', hspent⟩)
  have hmade : ∀ tx'' ∈ tx :: txs, op.txid ≠ tx''.txid :=
    fun tx'' htx'' => hfresh.fresh tx'' htx'' op List.mem_cons_self
  rcases List.mem_append.mp hgiven with hmem | hmem
  · rcases List.mem_cons.mp hmem with rfl | hmem
    · exact hmade tx List.mem_cons_self hchange
    · exact (List.nodup_cons.mp hfresh.nodup).1 (List.mem_append_right _ hmem)
  · obtain ⟨tx'', htx'', hop⟩ := h.created op hmem
    exact hmade tx'' (List.mem_cons_of_mem _ htx'') hop

/-- What is fresh stays fresh behind the first transaction. -/
theorem Fresh.tail {own : List OutPoint} {change : OutPoint} {tx : Transaction}
    (hfresh : Fresh (op :: (own ++ owns.flatten)) (tx :: txs)) (hchange : change.txid = tx.txid)
    (hfirst : ∀ tx' ∈ txs, tx.txid ≠ tx'.txid) : Fresh (change :: owns.flatten) txs where
  nodup := by
    have hrest := (List.nodup_append.mp (List.nodup_cons.mp hfresh.nodup).2).2.1
    refine List.nodup_cons.mpr ⟨?_, hrest⟩
    intro hmem
    exact hfresh.fresh tx List.mem_cons_self change
      (List.mem_cons_of_mem _ (List.mem_append_right _ hmem)) hchange
  fresh tx' htx' o ho := by
    rcases List.mem_cons.mp ho with rfl | hmem
    · rw [hchange]
      exact hfirst tx' htx'
    · exact hfresh.fresh tx' (List.mem_cons_of_mem _ htx') o
        (List.mem_cons_of_mem _ (List.mem_append_right _ hmem))
  identify tx' htx' tx'' htx'' :=
    hfresh.identify tx' (List.mem_cons_of_mem _ htx') tx'' (List.mem_cons_of_mem _ htx'')

/-- The transactions are a valid sequence. -/
theorem validTxs (h : Chained op owns txs changes) (hfresh : Fresh (op :: owns.flatten) txs) :
    ValidTxs txs := by
  induction h with
  | @last op own tx hspends =>
      rw [List.flatten_singleton] at hfresh
      refine ⟨List.pairwise_singleton .., List.pairwise_singleton .., ?_⟩
      intro tx' htx' o ho hcreated
      obtain rfl := List.mem_singleton.mp htx'
      refine hfresh.fresh tx' List.mem_cons_self o ?_ (Transaction.txid_of_mem_creates hcreated)
      exact (List.perm_append_singleton op own).mem_iff.mp (hspends.mem_iff.mp ho)
  | @link op change own owns tx txs changes hspends hchange h ih =>
      rw [List.flatten_cons] at hfresh
      have hmade := Transaction.txid_of_mem_creates hchange
      have hfirst := first_txid hspends h hmade hfresh
      have hrest := ih (hfresh.tail hmade hfirst)
      have hown : ∀ tx' ∈ tx :: txs, ∀ o ∈ tx.spends, o ∉ tx'.creates := by
        intro tx' htx' o ho hcreated
        refine hfresh.fresh tx' htx' o ?_ (Transaction.txid_of_mem_creates hcreated)
        have hmem := (List.perm_append_singleton op own).mem_iff.mp (hspends.mem_iff.mp ho)
        exact List.cons_subset_cons op (List.subset_append_left own _) hmem
      refine ⟨List.pairwise_cons.mpr ⟨?_, hrest.created_once⟩,
        List.pairwise_cons.mpr ⟨?_, hrest.spent_after⟩, ?_⟩
      · intro tx' htx' o ho ho'
        exact hfirst tx' htx' ((Transaction.txid_of_mem_creates ho).symm.trans
          (Transaction.txid_of_mem_creates ho'))
      · exact fun tx' htx' => hown tx' (List.mem_cons_of_mem _ htx')
      · intro tx' htx'
        rcases List.mem_cons.mp htx' with rfl | hlater
        · exact hown tx' List.mem_cons_self
        · exact hrest.not_own tx' hlater

/-- No outpoint is spent twice. -/
theorem nodup_spends (h : Chained op owns txs changes) (hfresh : Fresh (op :: owns.flatten) txs) :
    (txs.flatMap Transaction.spends).Nodup := by
  induction h with
  | @last op own tx hspends =>
      rw [List.flatMap_singleton]
      rw [List.flatten_singleton] at hfresh
      exact (hspends.trans (List.perm_append_singleton op own)).nodup_iff.mpr hfresh.nodup
  | @link op change own owns tx txs changes hspends hchange h ih =>
      rw [List.flatten_cons] at hfresh
      have hmade := Transaction.txid_of_mem_creates hchange
      have hfirst := first_txid hspends h hmade hfresh
      have hspent := hspends.trans (List.perm_append_singleton op own)
      have hnodup := hfresh.nodup
      rw [← List.cons_append] at hnodup
      obtain ⟨hnow, -, hapart⟩ := List.nodup_append.mp hnodup
      rw [List.flatMap_cons, List.nodup_append]
      refine ⟨hspent.nodup_iff.mpr hnow, ih (hfresh.tail hmade hfirst), ?_⟩
      intro o ho o' ho' heq
      obtain rfl := heq
      have hgiven := hspent.mem_iff.mp ho
      have hfresh' : ∀ tx' ∈ tx :: txs, o.txid ≠ tx'.txid := fun tx' htx' =>
        hfresh.fresh tx' htx' o (List.cons_subset_cons op (List.subset_append_left own _) hgiven)
      rcases List.mem_append.mp (h.spends_perm.mem_iff.mp ho') with hmem | hmem
      · rcases List.mem_cons.mp hmem with rfl | hmem
        · exact hfresh' tx List.mem_cons_self hmade
        · exact hapart o hgiven o hmem rfl
      · obtain ⟨tx'', htx'', hop⟩ := h.created o hmem
        exact hfresh' tx'' (List.mem_cons_of_mem _ htx'') hop

end Chained

section

variable {Id PK Xpriv D M Definite B Rate : Type} [LwkDescriptor D] [WolletDescriptor D M]
  [MultipathDescriptor M Definite] [DefiniteDescriptor Definite] [PsbtExt PK Definite]
  [DecidableEq PK] [SigningLib PK Xpriv] {lwk : TxBuilder D PK B Rate} {feeRate : Rate}
  {fee : FeeAccount D} {given : B → List ExternalUtxo} {coin : CapturedUtxo}
  {batches : List (MigrationBatch D Xpriv)} {signers : List (SoftwareSigner Xpriv)}
  {txs : List Transaction} {final : Transaction}

/-! ## The migration is a chain -/

def MigrationBatch.outpoints (batch : MigrationBatch D Xpriv) : List OutPoint :=
  batch.inputs.map (·.1.outpoint)

/-- The outpoints of the change that the transactions hand on. -/
def changeOutpoints (Id : Type) (fee : FeeAccount D) (txs : List Transaction) : List OutPoint :=
  txs.filterMap fun tx => (chainChange Id fee tx).map (·.outpoint)

theorem runMigration_chained (hkept : PrevoutsKept PK Definite) (hlwk : SpendsGiven lwk given)
    (hlib : IgnoresSigs PK Xpriv) (hextract : ExtractsInputs PK)
    (h : runMigration Id lwk feeRate fee coin batches signers = some (txs, final)) :
    Chained coin.outpoint (batches.map MigrationBatch.outpoints ++ [[]]) (txs ++ [final])
        (changeOutpoints Id fee txs) ∧
      ∀ tx ∈ txs, (chainChange Id fee tx).isSome := by
  induction batches generalizing coin txs with
  | nil =>
      obtain ⟨final', hfinal, h⟩ := Option.bind_eq_some_iff.mp h
      obtain ⟨rfl, rfl⟩ := Prod.mk.inj (Option.some.inj h)
      exact ⟨.last (runBatch_spends hkept hlwk hlib hextract hfinal),
        fun _ hmem => absurd hmem List.not_mem_nil⟩
  | cons batch batches ih =>
      obtain ⟨tx, change, txs', hbatch, hchange, hrest, rfl⟩ := runMigration_cons h
      obtain ⟨hchained, hsome⟩ := ih hrest
      have hspends := runBatch_spends hkept hlwk hlib hextract hbatch
      rw [List.map_append] at hspends
      obtain ⟨vout, txout, secrets, hvout, -, -, heq⟩ := chainChange_eq_some hchange
      have hcreated : change.outpoint ∈ tx.creates := heq ▸ Transaction.mem_creates hvout
      constructor
      · rw [changeOutpoints, List.filterMap_cons, hchange]
        exact .link hspends hcreated hchained
      · intro tx' htx'
        rcases List.mem_cons.mp htx' with rfl | hlater
        · exact Option.isSome_of_eq_some hchange
        · exact hsome tx' hlater

/-- A migration in batches spends what it was given and its own change,
nothing twice, and every transaction after those it spends from. -/
theorem batches_spend_once (hkept : PrevoutsKept PK Definite) (hlwk : SpendsGiven lwk given)
    (hlib : IgnoresSigs PK Xpriv) (hextract : ExtractsInputs PK)
    (h : runMigration Id lwk feeRate fee coin batches signers = some (txs, final))
    (hfresh : Chained.Fresh (coin.outpoint :: batches.flatMap MigrationBatch.outpoints)
      (txs ++ [final])) :
    ValidTxs (txs ++ [final]) ∧ ((txs ++ [final]).flatMap Transaction.spends).Nodup ∧
      ((txs ++ [final]).flatMap Transaction.spends).Perm
        (coin.outpoint :: batches.flatMap MigrationBatch.outpoints ++ changeOutpoints Id fee txs) ∧
      txs.length = batches.length ∧ (changeOutpoints Id fee txs).length = batches.length := by
  obtain ⟨hchained, hsome⟩ := runMigration_chained hkept hlwk hlib hextract h
  have hgiven : (batches.map MigrationBatch.outpoints ++ [[]]).flatten =
      batches.flatMap MigrationBatch.outpoints := by
    rw [List.flatten_append, List.flatten_singleton, List.append_nil]
    rfl
  rw [← hgiven] at hfresh ⊢
  obtain ⟨hlength, hchanges⟩ := hchained.length
  rw [List.length_append, List.length_append, List.length_map] at hlength
  rw [List.length_append] at hchanges
  have htxs : txs.length = batches.length := Nat.succ.inj hlength
  refine ⟨hchained.validTxs hfresh, hchained.nodup_spends hfresh, hchained.spends_perm, htxs, ?_⟩
  exact (Nat.succ.inj hchanges).trans htxs

/-! ## The migration is scanned -/

/-- The engine knows the change address as the first receive address of
the fee account. -/
def FeeAccount.Watched (fee : FeeAccount D) (E : BlockScanEngine D) : Prop :=
  ∃ idx, E.ownerOf fee.oldDest.scriptPubkey = some (⟨fee.walletId, .external, 0, idx⟩, fee.wollet)

/-- A recorded outpoint that some block spends is marked spent. -/
theorem isSome_chainSpentAt {c : List Block} {tx : Transaction} {o : OutPoint}
    (hmined : ∃ b ∈ c, tx ∈ b.txdata) (ho : o ∈ tx.spends) : (chainSpentAt c o).isSome := by
  obtain ⟨b, hb, htx⟩ := hmined
  refine List.findIdx?_isSome.trans (List.any_eq_true.mpr ⟨b, hb, decide_eq_true ?_⟩)
  exact List.mem_flatMap.mpr ⟨tx, htx, ho⟩

variable {C : Set (List Block)} {node : MockChainSource} {S S' : Stores} {H : History D}
  {E : BlockScanEngine D} {summary : SyncSummary}

/-- When the transactions are in the chain and a pass has run, nothing
they spent is listed, and the change that was spent before it was
confirmed has the record it was spent with, at the height of its block
and spent where the chain spends it. -/
theorem batches_are_scanned (hid : HashesIdentify C) (hvalid : ∀ c ∈ C, ValidChain c)
    (hkept : PrevoutsKept PK Definite) (hlwk : SpendsGiven lwk given)
    (hlib : IgnoresSigs PK Xpriv) (hextract : ExtractsInputs PK)
    (h : runMigration Id lwk feeRate fee coin batches signers = some (txs, final))
    (hrun : SyncRun C node S H)
    (hexec : Prog.Exec (memEnv node noFault) E.sync S (.ok summary) S')
    (hwatched : ∀ p ∈ H.rescan node.chain E, fee.Watched p.2)
    (hmined : ∀ tx ∈ txs ++ [final], ∃ b ∈ node.chain, tx ∈ b.txdata) :
    (∀ id, ∀ u ∈ S'.utxos.listUnspent id, ∀ tx ∈ txs ++ [final], u.outpoint ∉ tx.spends) ∧
      ∀ tx ∈ txs, ∃ (change : CapturedUtxo) (h t : Nat) (b : Block),
        chainChange Id fee tx = some change ∧ node.chain[h]? = some b ∧ tx ∈ b.txdata ∧
        chainSpentAt node.chain change.outpoint = some t ∧
        S'.utxos.entryAt change.outpoint = some {
          utxo := { change with height := h, isSpent := true }
          spentHeight := some t } := by
  have hinv := (hrun.inv hid hvalid).pass hid hvalid (notBelowCursor_of_exec hexec) hexec
  have hblocks : (H.rescan node.chain E).blocks = node.chain := History.blocks_rescan H node.chain E
  have hchain : ValidChain (H.rescan node.chain E).blocks := by
    rw [hblocks]
    exact hvalid _ hinv.node_mem
  constructor
  · intro id u hu tx htx hspent
    obtain ⟨-, hnone, -⟩ := (hinv.represents.mem_listUnspent hchain).mp hu
    have hsome := isSome_chainSpentAt (hmined tx htx) hspent
    rw [hblocks] at hnone
    rw [hnone] at hsome
    cases hsome
  · intro tx htx
    obtain ⟨hchained, hall⟩ := runMigration_chained hkept hlwk hlib hextract h
    obtain ⟨change, hchange⟩ := Option.isSome_iff_exists.mp (hall tx htx)
    obtain ⟨vout, txout, secrets, hvout, hscript, hsecrets, heq⟩ := chainChange_eq_some hchange
    -- The transaction after it spends the change.
    have hmem : change.outpoint ∈ changeOutpoints Id fee txs :=
      List.mem_filterMap.mpr ⟨tx, htx, by rw [hchange, Option.map_some]⟩
    obtain ⟨tx', htx', hspent⟩ := List.mem_flatMap.mp
      (hchained.spends_perm.mem_iff.mpr (List.mem_append_right _ hmem))
    obtain ⟨t, ht⟩ := Option.isSome_iff_exists.mp (isSome_chainSpentAt (hmined tx' htx') hspent)
    -- The engine that scanned its block captured it.
    obtain ⟨b, hb, htxdata⟩ := hmined tx (List.mem_append_left _ htx)
    rw [← hblocks] at hb
    obtain ⟨p, hp, rfl⟩ := List.mem_map.mp hb
    obtain ⟨i, hi⟩ := List.mem_iff_getElem?.mp hp
    have hblock : node.chain[i]? = some p.1 := by
      rw [← hblocks, History.getElem?_blocks, hi]
      rfl
    obtain ⟨idx, howner⟩ := hwatched p hp
    have hcaptured : { change with height := i } ∈ p.2.captures i p.1.txdata := by
      refine BlockScanEngine.mem_captures_iff.mpr
        ⟨tx, vout, txout, _, _, secrets, htxdata, hvout, hscript ▸ howner, hsecrets, ?_⟩
      rw [heq]
    refine ⟨change, i, t, p.1, hchange, hblock, htxdata, ht, ?_⟩
    rw [hinv.represents.entryAt_eq_some hchain]
    refine ⟨i, p.1, p.2, _, hi, hcaptured, rfl, ?_⟩
    rw [hblocks, ht]
    rfl

end

/-! ## Payments -/

/-- The script of a fee output. -/
def feeScript : Script := ⟨[]⟩

/-- What the recipients are to be paid, under their scripts. -/
def told (recipients : List (Address × Nat)) : List (Script × Nat) :=
  recipients.map fun r => (r.1.scriptPubkey, r.2)

/-! Two batches of one customer each, with signers that compute. A
transaction has an id above those of the transactions it spends from. -/

/-- A key of the library whose transactions have ids. -/
structure ChainKey where
  key : CompressedKey
deriving DecidableEq

/-- The output is blinded to the key that its range proof names. -/
def PsetOutput.extractBlinded (output : PsetOutput) : Except String TxOut := do
  let txout ← output.extractTxOut
  pure { txout with nonce := match output.valueRangeproof with
    | none => .null
    | some key => .explicit key }

instance : SigningLib ChainKey UInt8 where
  instructions script := decodeScript script.bytes.length script.bytes
  fromSlice data := (ElementsLib.fromSlice data : Except String CompressedKey).map ChainKey.mk
  extractTx pset := do
    let output ← pset.outputs.mapM PsetOutput.extractBlinded
    let highest := pset.inputs.foldl (fun n i => max n i.previousOutput.txid.digest) 0
    pure { txid := ⟨highest + 1⟩, input := pset.inputs.map fun i => ⟨i.previousOutput⟩, output }
  sighashMsg pset idx _ _ := sampleSighashMsg pset idx
  derivePriv master _ := .ok master
  signEcdsa _ priv := [priv]

/-- The account that a plain script names. -/
def PlainDefinite.account (d : PlainDefinite) : UInt8 := d.script.bytes.headD 0

def accountKey (d : PlainDefinite) : ChainKey := ⟨derivedKey d.account d.script⟩

/-- An account is one key. -/
def accountForm : MultisigForm PlainDefinite ChainKey Nat where
  keys d := [accountKey d]
  own d _ := accountKey d
  origins d := Map.collect [(accountKey d, ⟨BitVec.ofNat 32 d.account.toNat⟩, ⟨[]⟩)]
  scriptPubkey d := d.script

instance : PsbtExt ChainKey PlainDefinite where
  updateInputWithDescriptor pset idx d := match pset.inputs[idx]? with
    | none => .error "no such input"
    | some input => .ok { pset with inputs := pset.inputs.set idx { input with
        witnessScript := some (multisigScript (·.key.bytes) 1 (accountForm.keys d))
        bip32Derivation := accountForm.origins d } }

/-- A transaction that is being built. -/
structure Draft where
  inputs : List ExternalUtxo
  recipients : List (Address × Nat)
  drainTo : Option Address

def Draft.worth (draft : Draft) : Nat := (draft.inputs.map (·.unblinded.value)).sum

def Draft.owed (draft : Draft) : Nat := (draft.recipients.map (·.2)).sum

/-- The recipients, the rest but one unit to the address that drains, and
the unit as the fee. -/
def Draft.payments (draft : Draft) : List (Script × Nat) :=
  told draft.recipients ++
    draft.drainTo.toList.map (fun dest => (dest.scriptPubkey, draft.worth - draft.owed - 1)) ++
    [(feeScript, 1)]

/-- An output of an amount, blinded to the account that its script
names. -/
def draftOutput (p : Script × Nat) : PsetOutput where
  scriptPubkey := p.1
  amount := some p.2
  amountComm := none
  asset := some ⟨1⟩
  assetComm := none
  valueRangeproof := if p.1.bytes.isEmpty then none else some (p.1.bytes.take 1)
  assetSurjectionProof := some [1]
  blinderIndex := some 0

def Draft.pset (draft : Draft) : Pset ChainKey where
  inputs := draft.inputs.map fun u => ⟨u.outpoint, some u.txout, ∅, none, none, none, ∅, none⟩
  outputs := draft.payments.map draftOutput

def Draft.finish (draft : Draft) : Except String (Pset ChainKey) :=
  if draft.owed < draft.worth then .ok draft.pset else .error "insufficient funds"

theorem Draft.finish_eq_ok {draft : Draft} {pset : Pset ChainKey} (h : draft.finish = .ok pset) :
    draft.owed < draft.worth ∧ pset = draft.pset := by
  unfold Draft.finish at h
  split at h
  · next hfunds => exact ⟨hfunds, (Except.ok.inj h).symm⟩
  · cases h

def draftBuilder : TxBuilder PlainDescriptor ChainKey Draft Unit where
  new _ := ⟨[], [], none⟩
  addExternalUtxos draft utxos := .ok { draft with inputs := draft.inputs ++ utxos }
  addLbtcRecipient draft dest amount :=
    .ok { draft with recipients := draft.recipients ++ [(dest, amount)] }
  drainLbtcWallet draft := draft
  drainLbtcTo draft dest := { draft with drainTo := some dest }
  feeRate draft _ := draft
  finish draft _ := draft.finish

def feeAccount : FeeAccount PlainDescriptor where
  wollet := ownerWollet 1
  walletId := ⟨1⟩
  oldDest := ⟨(ownerWollet 1).descriptor.script .external 0⟩
  newDest := ⟨(ownerWollet 1).descriptor.script .external 6⟩

def customerBatch (account : UInt8) (vout : Nat) : MigrationBatch PlainDescriptor UInt8 where
  inputs := [(ownerUtxo account vout, ownerWollet account)]
  customers := [(⟨(ownerWollet account).descriptor.script .external 5⟩, 5)]
  signers := [memberSigner account.toNat, memberSigner 1]

def twoBatches : List (MigrationBatch PlainDescriptor UInt8) :=
  [customerBatch 2 1, customerBatch 3 2]

/-- The output that is extracted. -/
def clearOutput (script : List UInt8) (amount : Nat) : TxOut where
  asset := .explicit ⟨1⟩
  value := .explicit amount
  nonce := if script.isEmpty then .null else .explicit (script.take 1)
  scriptPubkey := ⟨script⟩
  witness := ⟨some [1], if script.isEmpty then none else some (script.take 1)⟩

def batchTxs : List Transaction :=
  [⟨⟨8⟩, [⟨⟨⟨7⟩, 1⟩⟩, ⟨⟨⟨7⟩, 0⟩⟩],
    [clearOutput [2, 0, 5] 5, clearOutput [1, 0, 0] 4, clearOutput [] 1]⟩,
    ⟨⟨9⟩, [⟨⟨⟨7⟩, 2⟩⟩, ⟨⟨⟨8⟩, 1⟩⟩],
      [clearOutput [3, 0, 5] 5, clearOutput [1, 0, 0] 3, clearOutput [] 1]⟩]

def finalTx : Transaction :=
  ⟨⟨10⟩, [⟨⟨⟨9⟩, 1⟩⟩], [clearOutput [1, 0, 6] 2, clearOutput [] 1]⟩

theorem run_twoBatches : runMigration Nat draftBuilder () feeAccount (ownerUtxo 1 0) twoBatches
    [memberSigner 1] = some (batchTxs, finalTx) := rfl

theorem writesInput_account : WritesInput ChainKey PlainDefinite := by
  intro pset pset' idx definite hupdate
  simp only [PsbtExt.updateInputWithDescriptor] at hupdate
  cases hi : pset.inputs[idx]? with
  | none =>
      rw [hi] at hupdate
      cases hupdate
  | some input =>
      rw [hi] at hupdate
      cases hupdate
      exact ⟨rfl, input, _, rfl, rfl, rfl, rfl⟩

theorem spendsGiven_draftBuilder : SpendsGiven draftBuilder Draft.inputs where
  new _ := rfl
  addExternalUtxos _ _ _ h := by
    obtain rfl := Except.ok.inj h
    rfl
  addLbtcRecipient _ _ _ _ h := by
    obtain rfl := Except.ok.inj h
    rfl
  drainLbtcWallet _ := rfl
  drainLbtcTo _ _ := rfl
  feeRate _ _ := rfl
  finish draft _ pset h := by
    obtain ⟨-, rfl⟩ := Draft.finish_eq_ok h
    rw [Pset.prevouts, Draft.pset, List.map_map]
    exact List.Perm.refl _

theorem ignoresSigs_chainKey : IgnoresSigs ChainKey UInt8 where
  extractTx pset := by
    simp only [ElementsLib.extractTx, Pset.unsigned, List.foldl_map, List.map_map]
    rfl
  sighashMsg pset idx _ _ := sampleSighashMsg_unsigned pset idx

theorem extractsInputs_chainKey : ExtractsInputs ChainKey := by
  intro pset tx h
  obtain ⟨output, -, h⟩ := bind_eq_ok.mp h
  obtain rfl := Except.ok.inj h
  rw [Transaction.spends, Pset.prevouts, List.map_map]
  rfl

theorem batches_spend_once_twoBatches :
    ValidTxs (batchTxs ++ [finalTx]) ∧ ((batchTxs ++ [finalTx]).flatMap Transaction.spends).Nodup ∧
      ((batchTxs ++ [finalTx]).flatMap Transaction.spends).Perm
        ((ownerUtxo 1 0).outpoint :: twoBatches.flatMap MigrationBatch.outpoints ++
          [⟨⟨8⟩, 1⟩, ⟨⟨9⟩, 1⟩]) := by
  have hfresh : Chained.Fresh
    ((ownerUtxo 1 0).outpoint :: twoBatches.flatMap MigrationBatch.outpoints)
      (batchTxs ++ [finalTx]) := ⟨by decide, by decide, by decide⟩
  obtain ⟨hvalid, hnodup, hperm, -⟩ :=
    batches_spend_once (prevoutsKept_of_writes writesInput_account)
    spendsGiven_draftBuilder ignoresSigs_chainKey extractsInputs_chainKey run_twoBatches hfresh
  exact ⟨hvalid, hnodup, hperm⟩

/-- The transactions of the migration in one block. -/
def migratedBlocks : List Block := [⟨⟨10⟩, ⟨0⟩, []⟩, ⟨⟨11⟩, ⟨10⟩, batchTxs ++ [finalTx]⟩]

def feeEngine : BlockScanEngine PlainDescriptor :=
  (BlockScanEngine.new.registerWallet ⟨1⟩ (ownerWollet 1) 8).2

def migratedSynced : Stores := (Prog.run (memStep ⟨migratedBlocks⟩) feeEngine.sync Stores.new).2

theorem batches_are_scanned_migratedBlocks :
    (∀ id, ∀ u ∈ migratedSynced.utxos.listUnspent id, ∀ tx ∈ batchTxs ++ [finalTx],
      u.outpoint ∉ tx.spends) ∧
    ∀ tx ∈ batchTxs, ∃ (change : CapturedUtxo) (h t : Nat) (b : Block),
      chainChange Nat feeAccount tx = some change ∧ migratedBlocks[h]? = some b ∧ tx ∈ b.txdata ∧
      chainSpentAt migratedBlocks change.outpoint = some t ∧
      migratedSynced.utxos.entryAt change.outpoint = some {
        utxo := { change with height := h, isSpent := true }
        spentHeight := some t } := by
  have hrun : SyncRun {c | c ∈ [migratedBlocks]} ⟨migratedBlocks⟩ Stores.new
      ([] : History PlainDescriptor) :=
    .init ⟨migratedBlocks⟩ (by decide) (List.mem_singleton.mpr rfl)
  have hvalid : ∀ c ∈ {c | c ∈ [migratedBlocks]}, ValidChain c := by
    intro c hc
    obtain rfl := List.mem_singleton.mp hc
    decide
  have hexec : Prog.Exec (memEnv ⟨migratedBlocks⟩ noFault) feeEngine.sync Stores.new
      (.ok { blocksScanned := 2, utxosCaptured := 3, utxosSpent := 2 }) migratedSynced :=
    exec_memStep rfl
  refine batches_are_scanned (hashesIdentify_of_list (by decide)) hvalid
    (prevoutsKept_of_writes writesInput_account)
    spendsGiven_draftBuilder ignoresSigs_chainKey extractsInputs_chainKey run_twoBatches hrun hexec
    ?_ (by decide)
  intro p hp
  obtain ⟨b, -, rfl⟩ := List.mem_map.mp hp
  exact ⟨0, rfl⟩

end EmvaultElements
