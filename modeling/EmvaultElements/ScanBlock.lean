import EmvaultElements.Scan

/-!
# What the scan of one block collects

`scanTxs` walks the transactions of a block with three accumulators.
Here they are said without the walk: `captured` is `captures`, a list
that depends on the block and the engine alone, and on valid
transactions the spends found are the inputs of the block that spend
something the index knew before or the block itself created
(`mem_spent_scanTxs`), which are then exactly the outpoints that leave
the index (`mem_spendIndex_scanTxs`).
-/

namespace EmvaultElements

namespace BlockScanEngine

variable {D : Type} [LwkDescriptor D]

/-- The record an output at height `h` is captured as, if its script is
indexed and it unblinds. -/
def captureOutput (self : BlockScanEngine D) (h : Nat) (txid : Txid) (out : TxOut × Nat) :
    Option CapturedUtxo :=
  match self.ownerOf out.1.scriptPubkey with
  | none => none
  | some (entry, wollet) =>
    match wollet.unblind out.1 with
    | .error _ => none
    | .ok secrets => some {
        walletId := entry.walletId, outpoint := { txid, vout := out.2 }, txout := out.1, secrets
        chain := entry.chain, wildcardIndex := entry.wildcardIndex, height := h, isSpent := false }

theorem captureOutput_eq_some {self : BlockScanEngine D} {h : Nat} {txid : Txid} {txout : TxOut}
    {i : Nat} {u : CapturedUtxo} : self.captureOutput h txid (txout, i) = some u ↔
      ∃ entry wollet secrets, self.ownerOf txout.scriptPubkey = some (entry, wollet) ∧
        wollet.unblind txout = .ok secrets ∧ u = {
          walletId := entry.walletId, outpoint := { txid, vout := i }, txout, secrets
          chain := entry.chain, wildcardIndex := entry.wildcardIndex, height := h
          isSpent := false } := by
  unfold captureOutput
  dsimp only
  cases self.ownerOf txout.scriptPubkey with
  | none => simp
  | some owner =>
      obtain ⟨entry, wollet⟩ := owner
      dsimp only
      cases hunblind : wollet.unblind txout with
      | error e => simp [hunblind]
      | ok secrets =>
          simp only [Option.some.injEq, Prod.mk.injEq]
          constructor
          · rintro rfl
            exact ⟨entry, wollet, secrets, ⟨rfl, rfl⟩, hunblind, rfl⟩
          · rintro ⟨_, _, _, ⟨rfl, rfl⟩, hsame, rfl⟩
            rw [hunblind] at hsame
            cases hsame
            rfl

def captureTx (self : BlockScanEngine D) (h : Nat) (tx : Transaction) : List CapturedUtxo :=
  tx.output.zipIdx.filterMap (self.captureOutput h tx.txid)

/-- The records captured from a list of transactions, in order. -/
def captures (self : BlockScanEngine D) (h : Nat) (txs : List Transaction) : List CapturedUtxo :=
  txs.flatMap (self.captureTx h)

/-- A captured record repeats the output, its place and its height, and
starts unspent. -/
theorem captureOutput_spec {self : BlockScanEngine D} {h : Nat} {txid : Txid} {out : TxOut × Nat}
    {u : CapturedUtxo} (hu : self.captureOutput h txid out = some u) :
    u.outpoint = ⟨txid, out.2⟩ ∧ u.txout = out.1 ∧ u.height = h ∧ u.isSpent = false := by
  unfold captureOutput at hu
  split at hu
  · cases hu
  · split at hu
    · cases hu
    · cases hu
      exact ⟨rfl, rfl, rfl, rfl⟩

theorem mem_captureTx {self : BlockScanEngine D} {h : Nat} {tx : Transaction} {u : CapturedUtxo} :
    u ∈ self.captureTx h tx ↔
      ∃ i txout, tx.output[i]? = some txout ∧ self.captureOutput h tx.txid (txout, i) = some u := by
  simp only [captureTx, List.mem_filterMap, Prod.exists, List.mem_zipIdx_iff_getElem?]
  exact ⟨fun ⟨txout, i, hout, hu⟩ => ⟨i, txout, hout, hu⟩,
    fun ⟨i, txout, hout, hu⟩ => ⟨txout, i, hout, hu⟩⟩

theorem mem_captures {self : BlockScanEngine D} {h : Nat} {txs : List Transaction}
    {u : CapturedUtxo} : u ∈ self.captures h txs ↔ ∃ tx ∈ txs, u ∈ self.captureTx h tx := by
  simp only [captures, List.mem_flatMap]

/-- The records of a block are its outputs that are indexed and unblind. -/
theorem mem_captures_iff {self : BlockScanEngine D} {h : Nat} {txs : List Transaction}
    {u : CapturedUtxo} : u ∈ self.captures h txs ↔
      ∃ (tx : Transaction) (vout : Nat) (txout : TxOut) (entry : ScriptEntry)
        (wollet : ElementsWollet D) (secrets : TxOutSecrets), tx ∈ txs ∧
        tx.output[vout]? = some txout ∧ self.ownerOf txout.scriptPubkey = some (entry, wollet) ∧
        wollet.unblind txout = .ok secrets ∧ u = {
          walletId := entry.walletId, outpoint := { txid := tx.txid, vout }, txout, secrets
          chain := entry.chain, wildcardIndex := entry.wildcardIndex, height := h
          isSpent := false } := by
  simp only [mem_captures, mem_captureTx, captureOutput_eq_some]
  constructor
  · rintro ⟨tx, htx, vout, txout, hout, entry, wollet, secrets, howner, hunblind, rfl⟩
    exact ⟨tx, vout, txout, entry, wollet, secrets, htx, hout, howner, hunblind, rfl⟩
  · rintro ⟨tx, vout, txout, entry, wollet, secrets, htx, hout, howner, hunblind, rfl⟩
    exact ⟨tx, htx, vout, txout, hout, entry, wollet, secrets, howner, hunblind, rfl⟩

/-- What is captured from a transaction, the transaction creates. -/
theorem captureTx_creates {self : BlockScanEngine D} {h : Nat} {tx : Transaction}
    {u : CapturedUtxo} (hu : u ∈ self.captureTx h tx) : u.outpoint ∈ tx.creates := by
  obtain ⟨i, txout, hout, hu⟩ := mem_captureTx.mp hu
  rw [(captureOutput_spec hu).1]
  exact Transaction.mem_creates hout

theorem captures_creates {self : BlockScanEngine D} {h : Nat} {txs : List Transaction}
    {u : CapturedUtxo} (hu : u ∈ self.captures h txs) :
    u.outpoint ∈ txs.flatMap Transaction.creates := by
  obtain ⟨tx, htx, hu⟩ := mem_captures.mp hu
  exact List.mem_flatMap.mpr ⟨tx, htx, captureTx_creates hu⟩

theorem captures_height {self : BlockScanEngine D} {h : Nat} {txs : List Transaction}
    {u : CapturedUtxo} (hu : u ∈ self.captures h txs) : u.height = h ∧ u.isSpent = false := by
  obtain ⟨tx, -, hu⟩ := mem_captures.mp hu
  obtain ⟨i, txout, -, hu⟩ := mem_captureTx.mp hu
  exact (captureOutput_spec hu).2.2

/-- Two records captured at one outpoint of a transaction are the same. -/
theorem captureTx_inj {self : BlockScanEngine D} {h : Nat} {tx : Transaction}
    {u u' : CapturedUtxo} (hu : u ∈ self.captureTx h tx) (hu' : u' ∈ self.captureTx h tx)
    (ho : u.outpoint = u'.outpoint) : u = u' := by
  obtain ⟨i, txout, hout, hu⟩ := mem_captureTx.mp hu
  obtain ⟨i', txout', hout', hu'⟩ := mem_captureTx.mp hu'
  rw [(captureOutput_spec hu).1, (captureOutput_spec hu').1] at ho
  obtain rfl : i = i' := congrArg OutPoint.vout ho
  obtain rfl := Option.some.inj (hout.symm.trans hout')
  exact Option.some.inj (hu.symm.trans hu')

/-! ## The accumulators -/

theorem scanOutput_eq (self : BlockScanEngine D) (h : Nat) (txid : Txid) (st : BlockScan)
    (out : TxOut × Nat) :
    (self.scanOutput h txid st out).captured
        = st.captured ++ (self.captureOutput h txid out).toList ∧
      (self.scanOutput h txid st out).spent = st.spent ∧
      (self.scanOutput h txid st out).spendIndex = (self.captureOutput h txid out).elim
        st.spendIndex fun u => st.spendIndex.insert u.outpoint u.walletId := by
  obtain ⟨txout, vout⟩ := out
  unfold scanOutput captureOutput
  dsimp only
  cases self.ownerOf txout.scriptPubkey with
  | none => simp
  | some owner =>
      obtain ⟨entry, wollet⟩ := owner
      dsimp only
      cases wollet.unblind txout <;> simp

theorem scanOutputs_eq (self : BlockScanEngine D) (h : Nat) (txid : Txid)
    (outs : List (TxOut × Nat)) (st : BlockScan) :
    (outs.foldl (self.scanOutput h txid) st).captured
        = st.captured ++ outs.filterMap (self.captureOutput h txid) ∧
      (outs.foldl (self.scanOutput h txid) st).spent = st.spent ∧
      (outs.foldl (self.scanOutput h txid) st).spendIndex
        = (outs.filterMap (self.captureOutput h txid)).foldl
            (fun m u => m.insert u.outpoint u.walletId) st.spendIndex := by
  induction outs generalizing st with
  | nil => simp
  | cons out outs ih =>
      obtain ⟨hcap, hspent, hidx⟩ := scanOutput_eq self h txid st out
      obtain ⟨ihcap, ihspent, ihidx⟩ := ih (self.scanOutput h txid st out)
      rw [List.foldl_cons, ihcap, ihspent, ihidx, hcap, hspent, hidx]
      cases hout : self.captureOutput h txid out <;> simp [hout]

theorem mem_foldl_insert {us : List CapturedUtxo} {m : Map OutPoint WalletId} {o : OutPoint} :
    o ∈ us.foldl (fun m u => m.insert u.outpoint u.walletId) m
      ↔ o ∈ m ∨ o ∈ us.map (·.outpoint) := by
  induction us generalizing m with
  | nil => simp
  | cons u us ih =>
      rw [List.foldl_cons, ih, AList.mem_insert, List.map_cons, List.mem_cons, or_assoc,
        or_left_comm]

theorem scanInput_captured (st : BlockScan) (input : TxIn) :
    (scanInput st input).captured = st.captured := by
  unfold scanInput
  dsimp only
  split <;> rfl

theorem scanInputs_captured (inputs : List TxIn) (st : BlockScan) :
    (inputs.foldl scanInput st).captured = st.captured := by
  induction inputs generalizing st with
  | nil => rfl
  | cons input inputs ih => rw [List.foldl_cons, ih, scanInput_captured]

theorem mem_scanInputs (inputs : List TxIn) (st : BlockScan) (o : OutPoint) :
    (o ∈ (inputs.foldl scanInput st).spent ↔
        o ∈ st.spent ∨ (o ∈ inputs.map (·.previousOutput) ∧ o ∈ st.spendIndex)) ∧
      (o ∈ (inputs.foldl scanInput st).spendIndex ↔
        o ∈ st.spendIndex ∧ o ∉ inputs.map (·.previousOutput)) := by
  induction inputs generalizing st with
  | nil => simp
  | cons input inputs ih =>
      obtain ⟨ihspent, ihidx⟩ := ih (scanInput st input)
      rw [List.foldl_cons, ihspent, ihidx]
      by_cases hmem : input.previousOutput ∈ st.spendIndex
      · have heq : scanInput st input = { st with
            spendIndex := st.spendIndex.erase input.previousOutput
            spent := st.spent ++ [input.previousOutput] } := if_pos hmem
        rw [heq]
        simp only [List.mem_append, AList.mem_erase, List.map_cons, List.mem_cons]
        by_cases ho : o = input.previousOutput
        · subst ho
          simp [hmem]
        · simp [ho]
      · have heq : scanInput st input = st := if_neg hmem
        rw [heq]
        simp only [List.map_cons, List.mem_cons]
        by_cases ho : o = input.previousOutput
        · subst ho
          simp [hmem]
        · simp [ho]

theorem scanTx_captured (self : BlockScanEngine D) (h : Nat) (st : BlockScan) (tx : Transaction) :
    (self.scanTx h st tx).captured = st.captured ++ self.captureTx h tx := by
  rw [scanTx, (scanOutputs_eq self h tx.txid _ _).1, scanInputs_captured, captureTx]

theorem mem_scanTx (self : BlockScanEngine D) (h : Nat) (st : BlockScan) (tx : Transaction)
    (o : OutPoint) :
    (o ∈ (self.scanTx h st tx).spent ↔ o ∈ st.spent ∨ (o ∈ tx.spends ∧ o ∈ st.spendIndex)) ∧
      (o ∈ (self.scanTx h st tx).spendIndex ↔
        (o ∈ st.spendIndex ∧ o ∉ tx.spends) ∨ o ∈ (self.captureTx h tx).map (·.outpoint)) := by
  obtain ⟨-, hspent, hidx⟩ :=
    scanOutputs_eq self h tx.txid tx.output.zipIdx (tx.input.foldl scanInput st)
  rw [scanTx, hspent, hidx, mem_foldl_insert, (mem_scanInputs tx.input st o).1,
    (mem_scanInputs tx.input st o).2]
  exact ⟨Iff.rfl, Iff.rfl⟩

theorem scanTxs_captured (self : BlockScanEngine D) (h : Nat) (txs : List Transaction)
    (idx : Map OutPoint WalletId) :
    (self.scanTxs h txs idx).captured = self.captures h txs := by
  have hfold : ∀ (txs : List Transaction) (st : BlockScan),
      (txs.foldl (self.scanTx h) st).captured = st.captured ++ self.captures h txs := by
    intro txs
    induction txs with
    | nil => intro st; simp [captures]
    | cons tx txs ih =>
        intro st
        rw [List.foldl_cons, ih, scanTx_captured, captures, captures, List.flatMap_cons,
          List.append_assoc]
  rw [scanTxs, hfold, List.nil_append]

/-- Spends and index after a list of transactions, from any accumulators. -/
theorem mem_foldl_scanTx (self : BlockScanEngine D) (h : Nat) (o : OutPoint)
    {txs : List Transaction} (hvalid : ValidTxs txs) (st : BlockScan) :
    (o ∈ (txs.foldl (self.scanTx h) st).spent ↔ o ∈ st.spent ∨
        (o ∈ txs.flatMap Transaction.spends ∧
          (o ∈ st.spendIndex ∨ o ∈ (self.captures h txs).map (·.outpoint)))) ∧
      (o ∈ (txs.foldl (self.scanTx h) st).spendIndex ↔
        (o ∈ st.spendIndex ∨ o ∈ (self.captures h txs).map (·.outpoint)) ∧
          o ∉ txs.flatMap Transaction.spends) := by
  induction txs generalizing st with
  | nil => simp [captures]
  | cons tx txs ih =>
      obtain ⟨ihspent, ihidx⟩ :=
        ih (hvalid.sublist (List.sublist_cons_self tx txs)) (self.scanTx h st tx)
      have hcap : (self.captures h (tx :: txs)).map (·.outpoint) =
          (self.captureTx h tx).map (·.outpoint) ++ (self.captures h txs).map (·.outpoint) := by
        rw [captures, List.flatMap_cons, List.map_append, captures]
      rw [List.foldl_cons, ihspent, ihidx, (mem_scanTx self h st tx o).1,
        (mem_scanTx self h st tx o).2, hcap, List.flatMap_cons, List.mem_append, List.mem_append]
      by_cases ho : o ∈ tx.spends
      · have hown : o ∉ (self.captureTx h tx).map (·.outpoint) := by
          intro hmem
          obtain ⟨u, hu, rfl⟩ := List.mem_map.mp hmem
          exact hvalid.not_own tx (List.mem_cons_self ..) _ ho (captureTx_creates hu)
        have hlater : o ∉ (self.captures h txs).map (·.outpoint) := by
          intro hmem
          obtain ⟨u, hu, rfl⟩ := List.mem_map.mp hmem
          obtain ⟨tx', htx', hcreates⟩ := List.mem_flatMap.mp (captures_creates hu)
          exact (List.pairwise_cons.mp hvalid.spent_after).1 tx' htx' _ ho hcreates
        simp [ho, hown, hlater]
      · simp only [ho, false_and, or_false, not_false_eq_true, and_true, false_or, or_assoc]

/-- The spends found in a valid block: its inputs that spend what was
known before it or captured in it. -/
theorem mem_spent_scanTxs (self : BlockScanEngine D) {h : Nat} {txs : List Transaction}
    (hvalid : ValidTxs txs) {idx : Map OutPoint WalletId} {o : OutPoint} :
    o ∈ (self.scanTxs h txs idx).spent ↔ o ∈ txs.flatMap Transaction.spends ∧
      (o ∈ idx ∨ o ∈ (self.captures h txs).map (·.outpoint)) := by
  rw [scanTxs, (mem_foldl_scanTx self h o hvalid _).1]
  simp

theorem mem_spendIndex_scanTxs (self : BlockScanEngine D) {h : Nat} {txs : List Transaction}
    (hvalid : ValidTxs txs) {idx : Map OutPoint WalletId} {o : OutPoint} :
    o ∈ (self.scanTxs h txs idx).spendIndex ↔
      (o ∈ idx ∨ o ∈ (self.captures h txs).map (·.outpoint)) ∧
        o ∉ txs.flatMap Transaction.spends := by
  rw [scanTxs, (mem_foldl_scanTx self h o hvalid _).2]

/-- In a valid block, one record is captured at an outpoint. -/
theorem captures_inj {self : BlockScanEngine D} {h : Nat} {txs : List Transaction}
    (hvalid : ValidTxs txs) {u u' : CapturedUtxo} (hu : u ∈ self.captures h txs)
    (hu' : u' ∈ self.captures h txs) (ho : u.outpoint = u'.outpoint) : u = u' := by
  induction txs with
  | nil => simp [captures] at hu
  | cons tx txs ih =>
      have hlater : ∀ v v', v ∈ self.captureTx h tx → v' ∈ self.captures h txs →
          v.outpoint ≠ v'.outpoint := by
        intro v v' hv hv' heq
        obtain ⟨tx', htx', hcreates⟩ := List.mem_flatMap.mp (captures_creates hv')
        exact (List.pairwise_cons.mp hvalid.created_once).1 tx' htx' _ (captureTx_creates hv)
          (heq ▸ hcreates)
      rw [captures, List.flatMap_cons, List.mem_append] at hu hu'
      rcases hu with hu | hu <;> rcases hu' with hu' | hu'
      · exact captureTx_inj hu hu' ho
      · exact absurd ho (hlater u u' hu hu')
      · exact absurd ho.symm (hlater u' u hu' hu)
      · exact ih (hvalid.sublist (List.sublist_cons_self tx txs)) hu hu'

/-! ## Nothing is collected twice -/

theorem captureTx_sublist (self : BlockScanEngine D) (h : Nat) (tx : Transaction) :
    ((self.captureTx h tx).map (·.outpoint)).Sublist tx.creates := by
  have houts : ∀ outs : List (TxOut × Nat),
      ((outs.filterMap (self.captureOutput h tx.txid)).map (·.outpoint)).Sublist
        (outs.map fun out => ⟨tx.txid, out.2⟩) := by
    intro outs
    induction outs with
    | nil => exact List.Sublist.slnil
    | cons out outs ih =>
        cases hout : self.captureOutput h tx.txid out with
        | none =>
            rw [List.filterMap_cons_none hout, List.map_cons]
            exact ih.cons _
        | some u =>
            rw [List.filterMap_cons_some hout, List.map_cons, List.map_cons,
              (captureOutput_spec hout).1]
            exact ih.cons_cons _
  have hcreates : tx.output.zipIdx.map (fun out => OutPoint.mk tx.txid out.2) = tx.creates := by
    rw [Transaction.creates, List.range_eq_range', ← List.zipIdx_map_snd, List.map_map]
    rfl
  rw [← hcreates]
  exact houts tx.output.zipIdx

theorem nodup_captures {self : BlockScanEngine D} {h : Nat} {txs : List Transaction}
    (hvalid : ValidTxs txs) : ((self.captures h txs).map (·.outpoint)).Nodup := by
  induction txs with
  | nil => exact List.nodup_nil
  | cons tx txs ih =>
      have hcreates : tx.creates.Nodup :=
        List.nodup_range.map fun i j hij => congrArg OutPoint.vout hij
      rw [captures, List.flatMap_cons, List.map_append, List.nodup_append]
      refine ⟨hcreates.sublist (captureTx_sublist self h tx),
        ih (hvalid.sublist (List.sublist_cons_self tx txs)), ?_⟩
      rintro o ho o' ho' rfl
      obtain ⟨u, hu, rfl⟩ := List.mem_map.mp ho'
      obtain ⟨tx', htx', hcreates'⟩ := List.mem_flatMap.mp (captures_creates hu)
      exact (List.pairwise_cons.mp hvalid.created_once).1 tx' htx' _
        ((captureTx_sublist self h tx).subset ho) hcreates'

/-- The spends found so far are all different, and none is in the index
any more. -/
def SpentOnce (st : BlockScan) : Prop := st.spent.Nodup ∧ ∀ o ∈ st.spent, o ∉ st.spendIndex

theorem SpentOnce.scanInputs {st : BlockScan} (hst : SpentOnce st) (inputs : List TxIn) :
    SpentOnce (inputs.foldl scanInput st) := by
  induction inputs generalizing st with
  | nil => exact hst
  | cons input inputs ih =>
      refine ih ?_
      unfold scanInput
      dsimp only
      split
      · next hmem =>
          obtain ⟨hnodup, hindex⟩ := hst
          refine ⟨?_, ?_⟩
          · refine List.nodup_append.mpr ⟨hnodup, List.nodup_singleton _, ?_⟩
            rintro o ho o' ho' rfl
            exact hindex o ho (List.mem_singleton.mp ho' ▸ hmem)
          · intro o ho hin
            obtain ⟨hne, hin⟩ := AList.mem_erase.mp hin
            rcases List.mem_append.mp ho with ho | ho
            · exact hindex o ho hin
            · exact hne (List.mem_singleton.mp ho)
      · exact hst

/-- An output is not spent before the transaction that creates it, so
what has been spent does not come back into the index. -/
theorem nodup_foldl_scanTx (self : BlockScanEngine D) (h : Nat) {txs : List Transaction}
    (hvalid : ValidTxs txs) {st : BlockScan} (hst : SpentOnce st)
    (hlater : ∀ o ∈ st.spent, o ∉ txs.flatMap Transaction.creates) :
    (txs.foldl (self.scanTx h) st).spent.Nodup := by
  induction txs generalizing st with
  | nil => exact hst.1
  | cons tx txs ih =>
      rw [List.flatMap_cons] at hlater
      refine ih (hvalid.sublist (List.sublist_cons_self tx txs)) ⟨?_, ?_⟩ ?_
      · rw [scanTx, (scanOutputs_eq self h tx.txid _ _).2.1]
        exact (hst.scanInputs tx.input).1
      · intro o ho hin
        rcases (mem_scanTx self h st tx o).1.mp ho with hold | ⟨hspends, -⟩
        · rcases (mem_scanTx self h st tx o).2.mp hin with ⟨hidx, -⟩ | hcap
          · exact hst.2 o hold hidx
          · exact hlater o hold (List.mem_append_left _ ((captureTx_sublist self h tx).subset hcap))
        · rcases (mem_scanTx self h st tx o).2.mp hin with ⟨-, hno⟩ | hcap
          · exact hno hspends
          · exact hvalid.not_own tx (List.mem_cons_self ..) o hspends
              ((captureTx_sublist self h tx).subset hcap)
      · intro o ho hcreates
        rcases (mem_scanTx self h st tx o).1.mp ho with hold | ⟨hspends, -⟩
        · exact hlater o hold (List.mem_append_right _ hcreates)
        · obtain ⟨tx', htx', hcreates'⟩ := List.mem_flatMap.mp hcreates
          exact (List.pairwise_cons.mp hvalid.spent_after).1 tx' htx' o hspends hcreates'

theorem nodup_spent_scanTxs (self : BlockScanEngine D) (h : Nat) {txs : List Transaction}
    (hvalid : ValidTxs txs) (idx : Map OutPoint WalletId) :
    (self.scanTxs h txs idx).spent.Nodup :=
  nodup_foldl_scanTx self h hvalid ⟨List.nodup_nil, List.forall_mem_nil _⟩ (List.forall_mem_nil _)

end BlockScanEngine

end EmvaultElements
