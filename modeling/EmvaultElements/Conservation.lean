import EmvaultElements.Batches

/-!
# Value in a batched migration

What LWK is told is what a transaction pays when all inputs are of the
policy asset (`PaysTold`): the amounts of the recipients, the rest to the
address that drains, and the fee. So the coin of the fee account pays the
fees of all transactions and nothing else, and the customers are paid
exactly (`batches_conserve_value`).

The change is found by its script. A customer that is paid at the fee
account's change address would be taken for it, so the addresses have to
be apart (`AddressesApart`).
-/

namespace EmvaultElements

/-- What the outputs of a transaction pay, when `commits` is the asset and
the amount that an output commits to. -/
def Transaction.payments (commits : TxOut → AssetId × Nat) (tx : Transaction) :
    List (Script × Nat) :=
  tx.output.map fun o => (o.scriptPubkey, (commits o).2)

/-- All of it in one asset. -/
def Transaction.PaysIn (commits : TxOut → AssetId × Nat) (asset : AssetId) (tx : Transaction) :
    Prop :=
  ∀ o ∈ tx.output, (commits o).1 = asset

/-! ## What LWK builds -/

section

variable {PK D B Rate : Type} [ElementsLib PK] {lwk : TxBuilder D PK B Rate} {feeRate : Rate}
  {given : B → List ExternalUtxo} {recipients : B → List (Address × Nat)}
  {drain : B → Option Address} {policy : AssetId} {commits : TxOut → AssetId × Nat}

/-- A transaction that LWK built of inputs in the policy asset pays the
recipients what it was told, the rest of what its inputs are worth to the
address that drains, and a fee, in an order of its own. -/
structure PaysTold (lwk : TxBuilder D PK B Rate) (given : B → List ExternalUtxo)
    (recipients : B → List (Address × Nat)) (drain : B → Option Address) (policy : AssetId)
    (commits : TxOut → AssetId × Nat) : Prop where
  new : ∀ network, recipients (lwk.new network) = []
  addExternalUtxos : ∀ b utxos b', lwk.addExternalUtxos b utxos = .ok b' →
    recipients b' = recipients b
  addLbtcRecipient : ∀ b recipient amountSat b',
    lwk.addLbtcRecipient b recipient amountSat = .ok b' →
      recipients b' = recipients b ++ [(recipient, amountSat)]
  drainLbtcWallet : ∀ b, recipients (lwk.drainLbtcWallet b) = recipients b
  drainLbtcTo : ∀ b recipient, recipients (lwk.drainLbtcTo b recipient) = recipients b ∧
    drain (lwk.drainLbtcTo b recipient) = some recipient
  feeRate : ∀ b rate, recipients (lwk.feeRate b rate) = recipients b ∧
    drain (lwk.feeRate b rate) = drain b
  finish : ∀ b wollet pset dest, lwk.finish b wollet = .ok pset → drain b = some dest →
    (∀ e ∈ given b, e.unblinded.asset = policy) →
    ∀ (pset' : Pset PK) tx, pset'.outputs = pset.outputs → ElementsLib.extractTx pset' = .ok tx →
      tx.PaysIn commits policy ∧ ∃ rest feeSat, (tx.payments commits).Perm
          (told (recipients b) ++ [(dest.scriptPubkey, rest), (feeScript, feeSat)]) ∧
        ((given b).map (·.unblinded.value)).sum =
          ((recipients b).map (·.2)).sum + rest + feeSat

/-- The builder was told about the inputs, the customers and the address
that drains. -/
theorem BuiltFor.told (hlwk : SpendsGiven lwk given)
    (hpays : PaysTold lwk given recipients drain policy commits) {feeWollet : ElementsWollet D}
    {external : List ExternalUtxo} {customers : List (Address × Nat)} {dest : Address}
    {pset : Pset PK} (h : BuiltFor lwk feeWollet external customers dest feeRate pset) :
    ∃ b, lwk.finish b feeWollet = .ok pset ∧ given b = external ∧ recipients b = customers ∧
      drain b = some dest := by
  obtain ⟨b, b', hadd, hrecipients, hfinish⟩ := h
  have hgiven := hlwk.addExternalUtxos _ _ b hadd
  have htold := hpays.addExternalUtxos _ _ b hadd
  rw [hlwk.new, List.nil_append] at hgiven
  rw [hpays.new] at htold
  -- each recipient is told in turn
  have hfold : ∀ (rs : List (Address × Nat)) (b : B),
      rs.foldlM (fun builder r => lwk.addLbtcRecipient builder r.1 r.2) b = .ok b' →
        given b' = given b ∧ recipients b' = recipients b ++ rs := by
    intro rs
    induction rs with
    | nil =>
        intro b hok
        obtain rfl := Except.ok.inj hok
        exact ⟨rfl, (List.append_nil _).symm⟩
    | cons r rs ih =>
        intro b hok
        rw [List.foldlM_cons] at hok
        obtain ⟨b₁, hone, hrest⟩ := bind_eq_ok.mp hok
        obtain ⟨hg, hr⟩ := ih b₁ hrest
        rw [hg, hr, hlwk.addLbtcRecipient b r.1 r.2 b₁ hone,
          hpays.addLbtcRecipient b r.1 r.2 b₁ hone]
        simp
  obtain ⟨hg, hr⟩ := hfold customers b hrecipients
  refine ⟨_, hfinish, ?_, ?_, ?_⟩
  · rw [hlwk.feeRate, hlwk.drainLbtcTo, hlwk.drainLbtcWallet, hg, hgiven]
  · rw [(hpays.feeRate _ _).1, (hpays.drainLbtcTo _ _).1, hpays.drainLbtcWallet, hr, htold,
      List.nil_append]
  · rw [(hpays.feeRate _ _).2, (hpays.drainLbtcTo _ _).2]

end

/-! ## What one transaction pays -/

section

variable {Id PK Xpriv D M Definite B Rate : Type} [WolletDescriptor D M]
  [MultipathDescriptor M Definite] [DefiniteDescriptor Definite] [PsbtExt PK Definite]
  [DecidableEq PK] [SigningLib PK Xpriv] {lwk : TxBuilder D PK B Rate} {feeRate : Rate}
  {fee : FeeAccount D} {given : B → List ExternalUtxo} {recipients : B → List (Address × Nat)}
  {drain : B → Option Address} {policy : AssetId} {commits : TxOut → AssetId × Nat}

/-- The transaction pays the customers, `rest` to the fee account and a
fee, out of its inputs. -/
structure Pays (policy : AssetId) (commits : TxOut → AssetId × Nat)
    (inputs : List (CapturedUtxo × ElementsWollet D)) (customers : List (Address × Nat))
    (feeDest : Address) (tx : Transaction) (rest feeSat : Nat) : Prop where
  paysIn : tx.PaysIn commits policy
  payments : (tx.payments commits).Perm
    (told customers ++ [(feeDest.scriptPubkey, rest), (feeScript, feeSat)])
  balance : (inputs.map (·.1.secrets.value)).sum = (customers.map (·.2)).sum + rest + feeSat

theorem runBatch_pays (hinput : WritesInput PK Definite) (hlwk : SpendsGiven lwk given)
    (hpays : PaysTold lwk given recipients drain policy commits) (hlib : IgnoresSigs PK Xpriv)
    {inputs : List (CapturedUtxo × ElementsWollet D)}
    {customers : List (Address × Nat)} {feeDest : Address} {signers : List (SoftwareSigner Xpriv)}
    {tx : Transaction} (hpolicy : ∀ i ∈ inputs, i.1.secrets.asset = policy)
    (h : runBatch Id lwk feeRate fee inputs customers feeDest signers = some tx) :
    ∃ rest feeSat, Pays policy commits inputs customers feeDest tx rest feeSat := by
  obtain ⟨blinded, fin, hbuilt, -, houtputs, htx⟩ := runBatch_eq_some hlib h
  obtain ⟨external, pset, calls, hexternal, hbuilt, hcalls⟩ :=
    buildMigrationPset_eq_ok (prevoutsKept_of_writes hinput) hbuilt
  obtain ⟨b, hfinish, hgiven, hrecipients, hdrain⟩ := hbuilt.told hlwk hpays
  have hsame : fin.outputs = pset.outputs := houtputs.trans
    (foldlM_keeps (P := fun p => p.outputs = pset.outputs)
      (fun call _ p p' hone hp => (hinput p p' call.1 call.2 hone).1.trans hp) hcalls rfl)
  have hassets : ∀ e ∈ given b, e.unblinded.asset = policy := by
    intro e he
    rw [hgiven] at he
    have hmem := List.mem_map_of_mem (f := fun e => (e.outpoint, e.unblinded)) he
    rw [hexternal] at hmem
    obtain ⟨i, hi, heq⟩ := List.mem_map.mp hmem
    rw [← (Prod.mk.inj heq).2]
    exact hpolicy i hi
  obtain ⟨hin, rest, feeSat, hpayments, hbalance⟩ :=
    hpays.finish b _ pset feeDest hfinish hdrain hassets fin tx hsame htx
  have hvalues := congrArg (List.map fun e => e.2.value) hexternal
  simp only [List.map_map, Function.comp_def] at hvalues
  rw [hrecipients] at hpayments
  rw [hrecipients, hgiven, hvalues] at hbalance
  exact ⟨rest, feeSat, hin, hpayments, hbalance⟩

/-- No payment to a customer is taken for the change, or for a fee. -/
structure AddressesApart (fee : FeeAccount D) (batches : List (MigrationBatch D Xpriv)) : Prop where
  oldDest : fee.oldDest.scriptPubkey ≠ feeScript
  newDest : fee.newDest.scriptPubkey ≠ feeScript
  customers : ∀ batch ∈ batches, ∀ c ∈ batch.customers,
    c.1.scriptPubkey ≠ feeScript ∧ c.1.scriptPubkey ≠ fee.oldDest.scriptPubkey

theorem Pays.to {inputs : List (CapturedUtxo × ElementsWollet D)}
    {customers : List (Address × Nat)} {feeDest : Address} {tx : Transaction} {rest feeSat : Nat}
    (h : Pays policy commits inputs customers feeDest tx rest feeSat) (script : Script) :
    paidTo script (tx.payments commits) = paidTo script (told customers) +
      ((if feeDest.scriptPubkey = script then rest else 0) +
        if feeScript = script then feeSat else 0) := by
  simp [paidTo_perm h.payments]

theorem Pays.toFee {inputs : List (CapturedUtxo × ElementsWollet D)}
    {customers : List (Address × Nat)} {feeDest : Address} {tx : Transaction} {rest feeSat : Nat}
    (h : Pays policy commits inputs customers feeDest tx rest feeSat)
    (hcustomers : ∀ c ∈ customers, c.1.scriptPubkey ≠ feeScript)
    (hdest : feeDest.scriptPubkey ≠ feeScript) :
    paidTo feeScript (tx.payments commits) = feeSat := by
  have hnone : paidTo feeScript (told customers) = 0 := by
    refine paidTo_eq_zero ?_
    intro p hp
    obtain ⟨c, hc, rfl⟩ := List.mem_map.mp hp
    exact hcustomers c hc
  simp [h.to, hnone, hdest]

variable [LwkDescriptor D]

/-- The fee account's wollet opens what an output commits to. -/
def OpensCommitted (wollet : ElementsWollet D) (commits : TxOut → AssetId × Nat) : Prop :=
  ∀ txout secrets, wollet.unblind txout = .ok secrets →
    (secrets.asset, secrets.value) = commits txout

/-- The change that is captured is what LWK drained. -/
theorem Pays.change {inputs : List (CapturedUtxo × ElementsWollet D)}
    {customers : List (Address × Nat)} {tx : Transaction} {rest feeSat : Nat}
    (h : Pays policy commits inputs customers fee.oldDest tx rest feeSat)
    (hcustomers : ∀ c ∈ customers, c.1.scriptPubkey ≠ fee.oldDest.scriptPubkey)
    (hdest : fee.oldDest.scriptPubkey ≠ feeScript)
    (hopens : OpensCommitted fee.wollet commits) {change : CapturedUtxo}
    (hchange : chainChange Id fee tx = some change) :
    change.secrets.asset = policy ∧ change.secrets.value = rest := by
  obtain ⟨vout, txout, secrets, hvout, hscript, hsecrets, rfl⟩ := chainChange_eq_some hchange
  have hmem : (txout.scriptPubkey, (commits txout).2) ∈ tx.payments commits :=
    List.mem_map_of_mem (List.mem_of_getElem? hvout)
  rw [h.payments.mem_iff, hscript] at hmem
  have hpaid : (commits txout).2 = rest := by
    simp only [List.mem_append, told, List.mem_map, List.mem_cons, List.not_mem_nil, or_false,
      Prod.mk.injEq] at hmem
    obtain ⟨c, hc, hsame, -⟩ | ⟨-, hrest⟩ | ⟨hfee, -⟩ := hmem
    · exact absurd hsame (hcustomers c hc)
    · exact hrest
    · exact absurd hfee hdest
  have hopened := hopens txout secrets hsecrets
  constructor
  · rw [← h.paysIn txout (List.mem_of_getElem? hvout), ← hopened]
  · rw [← hpaid, ← hopened]

/-! ## The migration -/

def MigrationBatch.worth (batch : MigrationBatch D Xpriv) : Nat :=
  (batch.inputs.map (·.1.secrets.value)).sum

def MigrationBatch.owed (batch : MigrationBatch D Xpriv) : Nat :=
  (batch.customers.map (·.2)).sum

/-- In a batched migration of coins in the policy asset every customer is
paid exactly, and the coin of the fee account and the inputs of the
batches pay the customers, the fees of all transactions, and what is left
to the new address. -/
theorem batches_conserve_value (hinput : WritesInput PK Definite) (hlwk : SpendsGiven lwk given)
    (hpays : PaysTold lwk given recipients drain policy commits)
    (hlib : IgnoresSigs PK Xpriv) (hopens : OpensCommitted fee.wollet commits)
    {coin : CapturedUtxo} {batches : List (MigrationBatch D Xpriv)}
    {signers : List (SoftwareSigner Xpriv)} {txs : List Transaction} {final : Transaction}
    (hapart : AddressesApart fee batches) (hcoin : coin.secrets.asset = policy)
    (hinputs : ∀ batch ∈ batches, ∀ i ∈ batch.inputs, i.1.secrets.asset = policy)
    (h : runMigration Id lwk feeRate fee coin batches signers = some (txs, final)) :
    (∀ tx ∈ txs ++ [final], tx.PaysIn commits policy) ∧
    (∀ (i : Nat) batch tx, batches[i]? = some batch → txs[i]? = some tx →
      ∀ script, script ≠ feeScript → script ≠ fee.oldDest.scriptPubkey →
        paidTo script (tx.payments commits) = paidTo script (told batch.customers)) ∧
    coin.secrets.value + (batches.map MigrationBatch.worth).sum =
      (batches.map MigrationBatch.owed).sum +
        ((txs ++ [final]).map fun tx => paidTo feeScript (tx.payments commits)).sum +
        paidTo fee.newDest.scriptPubkey (final.payments commits) := by
  induction batches generalizing coin txs with
  | nil =>
      obtain ⟨final', hfinal, h⟩ := Option.bind_eq_some_iff.mp h
      obtain ⟨rfl, rfl⟩ := Prod.mk.inj (Option.some.inj h)
      obtain ⟨rest, feeSat, hfinalPays⟩ := runBatch_pays hinput hlwk hpays hlib
        (by simpa using hcoin) hfinal
      refine ⟨by simpa using hfinalPays.paysIn, fun i batch tx hi => (by simp at hi), ?_⟩
      have hbalance := hfinalPays.balance
      have hfee := hfinalPays.toFee (by simp) hapart.newDest
      have hdrained : paidTo fee.newDest.scriptPubkey (final'.payments commits) = rest := by
        rw [hfinalPays.to]
        simp [told, hapart.newDest.symm]
      simp [hfee, hdrained] at hbalance ⊢
      omega
  | cons batch batches ih =>
      obtain ⟨tx, change, txs', hbatch, hchange, hrest, rfl⟩ := runMigration_cons h
      obtain ⟨hcustomers, hlater⟩ := List.forall_mem_cons.mp hapart.customers
      obtain ⟨hfirst, hothers⟩ := List.forall_mem_cons.mp hinputs
      have hpolicy : ∀ i ∈ batch.inputs ++ [(coin, fee.wollet)], i.1.secrets.asset = policy :=
        List.forall_mem_append.mpr ⟨hfirst, by simpa using hcoin⟩
      obtain ⟨rest, feeSat, htx⟩ := runBatch_pays hinput hlwk hpays hlib hpolicy hbatch
      obtain ⟨hasset, hvalue⟩ :=
        htx.change (fun c hc => (hcustomers c hc).2) hapart.oldDest hopens hchange
      obtain ⟨hin, hexact, hconserved⟩ :=
        ih ⟨hapart.oldDest, hapart.newDest, hlater⟩ hasset hothers hrest
      have hfee := htx.toFee (fun c hc => (hcustomers c hc).1) hapart.oldDest
      refine ⟨List.forall_mem_cons.mpr ⟨htx.paysIn, hin⟩, ?_, ?_⟩
      · intro i batch' tx' hi hi' script hscript hold
        cases i with
        | zero =>
            obtain rfl := Option.some.inj hi
            obtain rfl := Option.some.inj hi'
            simp [htx.to, hscript.symm, hold.symm]
        | succ i => exact hexact i batch' tx' hi hi' script hscript hold
      · have hbalance := htx.balance
        simp [MigrationBatch.worth, MigrationBatch.owed, hfee] at hbalance hconserved ⊢
        omega

end

/-! The migration in two batches: each customer is paid its five units,
the fee account pays three and has two left. -/

/-- The asset and the amount of an output in the clear. -/
def clear (txout : TxOut) : AssetId × Nat :=
  match txout.asset, txout.value with
  | .explicit asset, .explicit amount => (asset, amount)
  | _, _ => (⟨0⟩, 0)

theorem extractBlinded_draftOutput (p : Script × Nat) :
    (draftOutput p).extractBlinded = .ok (clearOutput p.1.bytes p.2) := by
  obtain ⟨⟨bytes⟩, amount⟩ := p
  cases bytes <;> rfl

theorem extractBlinded_payments (ps : List (Script × Nat)) :
    (ps.map draftOutput).mapM PsetOutput.extractBlinded =
      .ok (ps.map fun p => clearOutput p.1.bytes p.2) := by
  rw [List.mapM_map]
  exact (mapM_congr fun p _ => extractBlinded_draftOutput p).trans List.mapM_pure

theorem paysTold_draftBuilder :
    PaysTold draftBuilder Draft.inputs Draft.recipients Draft.drainTo ⟨1⟩ clear where
  new _ := rfl
  addExternalUtxos _ _ _ h := by
    obtain rfl := Except.ok.inj h
    rfl
  addLbtcRecipient _ _ _ _ h := by
    obtain rfl := Except.ok.inj h
    rfl
  drainLbtcWallet _ := rfl
  drainLbtcTo _ _ := ⟨rfl, rfl⟩
  feeRate _ _ := ⟨rfl, rfl⟩
  finish draft _ pset dest h hdrain _ pset' tx houtputs htx := by
    obtain ⟨hfunds, rfl⟩ := Draft.finish_eq_ok h
    obtain ⟨outs, houts, htx⟩ := bind_eq_ok.mp htx
    obtain rfl := Except.ok.inj htx
    rw [houtputs] at houts
    obtain rfl := Except.ok.inj ((extractBlinded_payments draft.payments).symm.trans houts)
    refine ⟨?_, draft.worth - draft.owed - 1, 1, ?_, ?_⟩
    · intro o ho
      obtain ⟨p, -, rfl⟩ := List.mem_map.mp ho
      rfl
    · simp [Transaction.payments, Draft.payments, hdrain, clear, clearOutput, Function.comp_def]
    · simp only [Draft.worth, Draft.owed] at hfunds ⊢
      omega

theorem opensCommitted_plain (w : ElementsWollet PlainDescriptor) : OpensCommitted w clear := by
  intro txout secrets h
  have hopened : LwkDescriptor.tryUnblind txout w.descriptor = .ok secrets := mapError_eq_ok.mp h
  simp only [LwkDescriptor.tryUnblind] at hopened
  split at hopened
  · next asset value _ hasset hvalue =>
      split at hopened
      · obtain rfl := Except.ok.inj hopened
        simp [clear, hasset, hvalue]
      · cases hopened
  · cases hopened

theorem batches_conserve_value_twoBatches :
    (∀ tx ∈ batchTxs ++ [finalTx], tx.PaysIn clear ⟨1⟩) ∧
    (∀ (i : Nat) batch tx, twoBatches[i]? = some batch → batchTxs[i]? = some tx →
      ∀ script, script ≠ feeScript → script ≠ feeAccount.oldDest.scriptPubkey →
        paidTo script (tx.payments clear) = paidTo script (told batch.customers)) ∧
    (ownerUtxo 1 0).secrets.value + (twoBatches.map MigrationBatch.worth).sum =
      (twoBatches.map MigrationBatch.owed).sum +
        ((batchTxs ++ [finalTx]).map fun tx => paidTo feeScript (tx.payments clear)).sum +
        paidTo feeAccount.newDest.scriptPubkey (finalTx.payments clear) := by
  have hapart : AddressesApart feeAccount twoBatches := ⟨by decide, by decide, by decide⟩
  exact batches_conserve_value writesInput_account spendsGiven_draftBuilder
    paysTold_draftBuilder ignoresSigs_chainKey (opensCommitted_plain feeAccount.wollet) hapart rfl
    (by decide) run_twoBatches

end EmvaultElements
