import Mathlib.Data.Finset.Card
import Mathlib.Order.Interval.Finset.Nat
import EmvaultElements.Runs

/-!
# What the summary counts

The counters of a pass are taken from the lists a block is scanned into,
never from the stores. They agree with the stores because nothing is
listed twice and nothing listed is there already: an outpoint is created
once, so what a block captures is new (`Fresh`), and the spend index
lists the unspent records, so what it spends was not spent before.

`accounts_for` says so for a whole pass: every counter is the size of a
difference between the UTXO store right after the rollback and the one
the pass leaves.
-/

namespace EmvaultElements

/-! ## Counted growth -/

/-- `t` is `s` with `n` more elements. -/
structure Grows {α : Type} (s t : Finset α) (n : Nat) : Prop where
  subset : s ⊆ t
  card : t.card = s.card + n

namespace Grows

variable {α : Type} {s t u : Finset α} {n m : Nat}

theorem refl (s : Finset α) : Grows s s 0 := ⟨Finset.Subset.refl s, rfl⟩

theorem trans (h : Grows s t n) (h' : Grows t u m) : Grows s u (n + m) where
  subset := h.subset.trans h'.subset
  card := by rw [h'.card, h.card, Nat.add_assoc]

variable [DecidableEq α]

theorem card_sdiff (h : Grows s t n) : (t \ s).card = n := by
  rw [Finset.card_sdiff_of_subset h.subset, h.card, Nat.add_sub_cancel_left]

theorem union {l : List α} (hnodup : l.Nodup) (hnew : ∀ a ∈ l, a ∉ s) :
    Grows s (s ∪ l.toFinset) l.length where
  subset := Finset.subset_union_left
  card := by
    have hdisjoint : Disjoint s l.toFinset :=
      Finset.disjoint_right.mpr fun a ha => hnew a (List.mem_toFinset.mp ha)
    rw [Finset.card_union_of_disjoint hdisjoint, List.toFinset_card_of_nodup hnodup]

end Grows

/-! ## The records of a store -/

namespace MemUtxoStore

/-- The outpoints of the records. -/
def records (s : MemUtxoStore) : Finset OutPoint := s.inner.keys.toFinset

def spentRecords (s : MemUtxoStore) : Finset OutPoint :=
  s.records.filter fun o => (s.entryAt o).any (·.utxo.isSpent) = true

def unspentRecords (s : MemUtxoStore) : Finset OutPoint :=
  s.records.filter fun o => ¬(s.entryAt o).any (·.utxo.isSpent) = true

theorem mem_records {s : MemUtxoStore} {o : OutPoint} :
    o ∈ s.records ↔ ∃ e, s.entryAt o = some e := by
  rw [records, List.mem_toFinset, ← AList.mem_keys, ← AList.lookup_isSome, Option.isSome_iff_exists]
  rfl

theorem mem_spentRecords {s : MemUtxoStore} {o : OutPoint} :
    o ∈ s.spentRecords ↔ ∃ e, s.entryAt o = some e ∧ e.utxo.isSpent = true := by
  rw [spentRecords, Finset.mem_filter, mem_records]
  constructor
  · rintro ⟨⟨e, he⟩, hspent⟩
    rw [he] at hspent
    exact ⟨e, he, hspent⟩
  · rintro ⟨e, he, hspent⟩
    rw [he]
    exact ⟨⟨e, rfl⟩, hspent⟩

/-- A record is spent or unspent. -/
theorem card_records (s : MemUtxoStore) :
    s.spentRecords.card + s.unspentRecords.card = s.records.card :=
  Finset.card_filter_add_card_filter_not _

variable {s : MemUtxoStore} {us : List CapturedUtxo} {ops : List OutPoint} {height : Nat}

/-- Captures and spends add the captured records. -/
theorem records_markSpent_upsertUtxos :
    ((s.upsertUtxos us).markSpent ops height).records =
      s.records ∪ (us.map (·.outpoint)).toFinset := by
  ext o
  rw [mem_records, Finset.mem_union, mem_records, List.mem_toFinset, entryAt_markSpent]
  have hmark : (∃ e, (if o ∈ ops then ((s.upsertUtxos us).entryAt o).map (Entry.markSpent · height)
      else (s.upsertUtxos us).entryAt o) = some e) ↔
        ∃ e, (s.upsertUtxos us).entryAt o = some e := by
    split
    · simp
    · rfl
  rw [hmark]
  rcases entryAt_upsertUtxos s us o with ⟨hno, hentry⟩ | ⟨u, hu, rfl, hentry⟩
  · rw [hentry, or_iff_left hno]
  · rw [hentry]
    exact iff_of_true ⟨_, rfl⟩ (.inr (List.mem_map_of_mem hu))

/-- Captures and spends add the spends, when the captured records are
unspent and new, and the spends are known. -/
theorem spentRecords_markSpent_upsertUtxos (hunspent : ∀ u ∈ us, u.isSpent = false)
    (hnew : ∀ u ∈ us, u.outpoint ∉ s.records)
    (hknown : ∀ o ∈ ops, o ∈ s.records ∨ o ∈ us.map (·.outpoint)) :
    ((s.upsertUtxos us).markSpent ops height).spentRecords = s.spentRecords ∪ ops.toFinset := by
  ext o
  rw [mem_spentRecords, Finset.mem_union, mem_spentRecords, List.mem_toFinset, entryAt_markSpent]
  rcases entryAt_upsertUtxos s us o with ⟨hno, hentry⟩ | ⟨u, hu, rfl, hentry⟩
  · rw [hentry]
    split
    · next hop =>
        obtain ⟨e, he⟩ := mem_records.mp ((hknown o hop).resolve_right hno)
        rw [he]
        exact iff_of_true ⟨_, rfl, rfl⟩ (.inr hop)
    · next hop => rw [or_iff_left hop]
  · have hold : ¬∃ e, s.entryAt u.outpoint = some e ∧ e.utxo.isSpent = true := by
      rintro ⟨e, he, -⟩
      exact hnew u hu (mem_records.mpr ⟨e, he⟩)
    rw [hentry, or_iff_right hold]
    split
    · next hop => exact iff_of_true ⟨_, rfl, rfl⟩ hop
    · next hop =>
        refine iff_of_false ?_ hop
        rintro ⟨e, he, hspent⟩
        cases he
        rw [hunspent u hu] at hspent
        cases hspent

end MemUtxoStore

/-! ## The loop -/

variable {D : Type} [LwkDescriptor D]

/-- No block from height `h` on creates an outpoint of the store. -/
def Fresh (chain : List Block) (h : Nat) (s : MemUtxoStore) : Prop :=
  ∀ o ∈ s.records, ∃ i b, i < h ∧ chain[i]? = some b ∧ o ∈ b.creates

/-- The counters of a loop that started from the store `R`, with nothing
counted, after `n` blocks. -/
structure Tallies (R : MemUtxoStore) (n : Nat) (st : ScanState) : Prop where
  blocksScanned : st.summary.blocksScanned = n
  captured : Grows R.records st.stores.utxos.records st.summary.utxosCaptured
  spent : Grows R.spentRecords st.stores.utxos.spentRecords st.summary.utxosSpent

section

variable {E : BlockScanEngine D} {R : MemUtxoStore} {chain : List Block} {h n : Nat} {b : Block}
  {st : ScanState}

omit [LwkDescriptor D] in
theorem Fresh.not_created (hfresh : Fresh chain h st.stores.utxos) (hvalid : ValidChain chain)
    (hb : chain[h]? = some b) {o : OutPoint}
    (ho : o ∈ b.creates) : o ∉ st.stores.utxos.records := by
  intro hrec
  obtain ⟨i, b', hi, hb', ho'⟩ := hfresh o hrec
  obtain ⟨tx, htx, hcreates⟩ := List.mem_flatMap.mp ho
  obtain ⟨tx', htx', hcreates'⟩ := List.mem_flatMap.mp ho'
  exact hvalid.not_created_later hi hb' hb htx' htx hcreates' hcreates

omit [LwkDescriptor D] in
theorem not_mem_spentRecords_of_mirrors {idx : Map OutPoint WalletId} {s : MemUtxoStore}
    (hidx : Mirrors idx s) {o : OutPoint} (ho : o ∈ idx) : o ∈ s.records ∧ o ∉ s.spentRecords := by
  obtain ⟨e, he, hunspent⟩ := (hidx o).mp ho
  refine ⟨MemUtxoStore.mem_records.mpr ⟨e, he⟩, ?_⟩
  intro hspent
  obtain ⟨e', he', hspent⟩ := MemUtxoStore.mem_spentRecords.mp hspent
  obtain rfl := Option.some.inj (he.symm.trans he')
  rw [hunspent] at hspent
  cases hspent

theorem records_blockStep : (E.blockStep h b st).stores.utxos.records =
    st.stores.utxos.records ∪ ((E.captures h b.txdata).map (·.outpoint)).toFinset := by
  rw [← BlockScanEngine.scanTxs_captured E h b.txdata st.spendIndex]
  exact MemUtxoStore.records_markSpent_upsertUtxos

theorem Fresh.blockStep (hfresh : Fresh chain h st.stores.utxos) (hb : chain[h]? = some b) :
    Fresh chain (h + 1) (E.blockStep h b st).stores.utxos := by
  intro o ho
  rw [records_blockStep, Finset.mem_union, List.mem_toFinset] at ho
  rcases ho with ho | ho
  · obtain ⟨i, b', hi, hb', ho'⟩ := hfresh o ho
    exact ⟨i, b', Nat.lt_succ_of_lt hi, hb', ho'⟩
  · obtain ⟨u, hu, rfl⟩ := List.mem_map.mp ho
    exact ⟨h, b, Nat.lt_succ_self h, hb, BlockScanEngine.captures_creates hu⟩

/-- Scanning one block counts what it changes. -/
theorem Tallies.blockStep (htally : Tallies R n st) (hvalid : ValidChain chain)
    (hb : chain[h]? = some b) (hfresh : Fresh chain h st.stores.utxos)
    (hidx : Mirrors st.spendIndex st.stores.utxos) : Tallies R (n + 1) (E.blockStep h b st) := by
  have hblock : ValidTxs b.txdata := hvalid.block (List.mem_of_getElem? hb)
  have hcaptured := BlockScanEngine.scanTxs_captured E h b.txdata st.spendIndex
  have hnew : ∀ u ∈ E.captures h b.txdata, u.outpoint ∉ st.stores.utxos.records := fun u hu =>
    hfresh.not_created hvalid hb (BlockScanEngine.captures_creates hu)
  have hspent : ∀ o ∈ (E.scanTxs h b.txdata st.spendIndex).spent,
      o ∈ st.spendIndex ∨ o ∈ (E.captures h b.txdata).map (·.outpoint) := fun o ho =>
    ((BlockScanEngine.mem_spent_scanTxs E hblock).mp ho).2
  constructor
  · show st.summary.blocksScanned + 1 = n + 1
    rw [htally.blocksScanned]
  · refine htally.captured.trans ?_
    rw [records_blockStep, hcaptured, ← List.length_map (·.outpoint)]
    refine Grows.union (BlockScanEngine.nodup_captures hblock) ?_
    intro o ho
    obtain ⟨u, hu, rfl⟩ := List.mem_map.mp ho
    exact hnew u hu
  · have hrecords : (E.blockStep h b st).stores.utxos.spentRecords = st.stores.utxos.spentRecords ∪
        (E.scanTxs h b.txdata st.spendIndex).spent.toFinset := by
      refine MemUtxoStore.spentRecords_markSpent_upsertUtxos ?_ ?_ ?_ <;> rw [hcaptured]
      · exact fun u hu => (BlockScanEngine.captures_height hu).2
      · exact hnew
      · exact fun o ho =>
          (hspent o ho).imp_left fun hin => (not_mem_spentRecords_of_mirrors hidx hin).1
    refine htally.spent.trans ?_
    rw [hrecords]
    refine Grows.union (BlockScanEngine.nodup_spent_scanTxs E h hblock _) ?_
    intro o ho
    rcases hspent o ho with hin | hcap
    · exact (not_mem_spentRecords_of_mirrors hidx hin).2
    · obtain ⟨u, hu, rfl⟩ := List.mem_map.mp hcap
      exact fun hrec => hnew u hu (Finset.mem_of_mem_filter _ hrec)

theorem Tallies.blockSteps (hvalid : ValidChain chain) {bs : List Block} :
    ∀ {h n : Nat} {st : ScanState}, Tallies R n st →
      (∀ i b, bs[i]? = some b → chain[h + i]? = some b) → Fresh chain h st.stores.utxos →
      Mirrors st.spendIndex st.stores.utxos → Tallies R (n + bs.length) (E.blockSteps h bs st) := by
  induction bs with
  | nil => exact fun htally _ _ _ => htally
  | cons b bs ih =>
      intro h n st htally hbs hfresh hidx
      have hb : chain[h]? = some b := hbs 0 b rfl
      have hblock : ValidTxs b.txdata := hvalid.block (List.mem_of_getElem? hb)
      rw [BlockScanEngine.blockSteps, List.length_cons, Nat.add_comm bs.length, ← Nat.add_assoc]
      refine ih (htally.blockStep hvalid hb hfresh hidx) ?_ (hfresh.blockStep hb)
        (BlockScanEngine.mirrors_scan hblock hidx)
      intro i b' hb'
      rw [Nat.add_assoc, Nat.add_comm 1]
      exact hbs (i + 1) b' hb'

theorem reorgTo_blockSteps {bs : List Block} : ∀ {h : Nat} {st : ScanState},
    (E.blockSteps h bs st).summary.reorgTo = st.summary.reorgTo := by
  induction bs with
  | nil => exact rfl
  | cons b bs ih =>
      intro h st
      rw [BlockScanEngine.blockSteps, ih]
      rfl

end

/-! ## The pass -/

/-- A store that represents a history has records of its blocks only. -/
theorem Represents.fresh {S : Stores} {H : History D} {chain : List Block} (hrep : Represents S H)
    (hvalid : ValidChain chain) (honChain : H.blocks <+: chain) :
    Fresh chain H.length S.utxos := by
  intro o ho
  obtain ⟨e, he⟩ := MemUtxoStore.mem_records.mp ho
  obtain ⟨i, b, E, u, hp, hu, rfl, -⟩ :=
    (hrep.entryAt_eq_some (hvalid.sublist honChain.sublist)).mp he
  have hb : H.blocks[i]? = some b := by
    rw [History.getElem?_blocks, hp]
    rfl
  refine ⟨i, b, (List.getElem?_eq_some_iff.mp hp).1, ?_, BlockScanEngine.captures_creates hu⟩
  obtain ⟨rest, rfl⟩ := honChain
  rw [List.getElem?_append_left (List.getElem?_eq_some_iff.mp hb).1, hb]

/-- The loop of a pass that starts from a history on the node's chain. -/
theorem tallies_loopState {C : Set (List Block)} (hid : HashesIdentify C)
    (hvalid : ∀ c ∈ C, ValidChain c) {node : MockChainSource} (hnode : node.chain ∈ C)
    {E : BlockScanEngine D} {S S₁ : Stores} {H : History D} {reorgTo : Option Nat}
    (hstart : node.started S = (H.length, { reorgTo := reorgTo }, S₁)) (hrep : Represents S₁ H)
    (honChain : H.blocks <+: node.chain) :
    Tallies S₁.utxos (node.chain.length - H.length)
        (E.loopState node S (BlockScanEngine.todo node S)) ∧
      (E.loopState node S (BlockScanEngine.todo node S)).summary.reorgTo = reorgTo := by
  have htodo : BlockScanEngine.todo node S = node.chain.drop H.length := by
    rw [BlockScanEngine.todo, MockChainSource.served_eq (hid.nodup hnode), hstart]
  have hlength : (node.chain.drop H.length).length = node.chain.length - H.length :=
    List.length_drop
  unfold BlockScanEngine.loopState
  rw [htodo, hstart]
  refine ⟨?_, reorgTo_blockSteps⟩
  rw [← hlength, ← Nat.zero_add (List.length _)]
  refine Tallies.blockSteps (hvalid _ hnode) ⟨rfl, Grows.refl _, Grows.refl _⟩ ?_
    (hrep.fresh (hvalid _ hnode) honChain) (mirrors_collect _)
  intro i b hb
  rwa [List.getElem?_drop] at hb

/-- The UTXO store right after the rollback of a pass, if there was one. -/
def afterRollback (S : Stores) (summary : SyncSummary) : MemUtxoStore :=
  match summary.reorgTo with
  | none => S.utxos
  | some a => S.utxos.rollbackAbove a

/-- The height a pass starts scanning at. -/
def scanStart (S : Stores) (summary : SyncSummary) : Nat :=
  match summary.reorgTo with
  | none => S.blocks.tip.elim 0 fun t => t.height + 1
  | some a => a + 1

/-- Up to a height, the stored blocks are the node's up to `a` and no
further. -/
def ForksAt (node : MockChainSource) (S : Stores) (top a : Nat) : Prop :=
  ∀ h ≤ top, (∃ hash, S.blocks.blockHashAt h = some hash ∧ node.blockHash h = .ok hash) ↔ h ≤ a

/-- The summary of a pass from the stores `S` to `S'` says what the pass
did to them. -/
structure AccountsFor (node : MockChainSource) (S S' : Stores) (summary : SyncSummary) : Prop where
  reorgTo : ∀ a, summary.reorgTo = some a ↔ ∃ t, S.blocks.tip = some t ∧
    node.blockHash t.height ≠ .ok t.hash ∧ ForksAt node S t.height a
  blocksScanned : ∃ tip, node.tipHeight = .ok tip ∧
    summary.blocksScanned = (Finset.Icc (scanStart S summary) tip).card
  captured : (afterRollback S summary).records ⊆ S'.utxos.records ∧
    summary.utxosCaptured = (S'.utxos.records \ (afterRollback S summary).records).card
  spent : summary.utxosSpent =
    (S'.utxos.spentRecords \ (afterRollback S summary).spentRecords).card
  unspent : (S'.utxos.unspentRecords.card : Int) =
    (afterRollback S summary).unspentRecords.card +
      (summary.utxosCaptured - summary.utxosSpent : Int)

/-- The counters of the loop, as sizes. -/
theorem Tallies.unspent {R : MemUtxoStore} {n : Nat} {st : ScanState} (htally : Tallies R n st) :
    (st.stores.utxos.unspentRecords.card : Int) =
      R.unspentRecords.card + (st.summary.utxosCaptured - st.summary.utxosSpent : Int) := by
  have hbefore := R.card_records
  have hafter := st.stores.utxos.card_records
  have hcaptured := htally.captured.card
  have hspent := htally.spent.card
  omega

section

variable {C : Set (List Block)} (hid : HashesIdentify C) {node : MockChainSource}
  (hnode : node.chain ∈ C) {S : Stores} {H : History D} (hH : ∃ c ∈ C, H.blocks <+: c)
  (hlen : H.length ≤ node.chain.length) (hrep : Represents S H)

include hid hnode hH hlen hrep

/-- Stored block and node agree below the fork. -/
theorem agree_iff {h : Nat} (hh : h < H.length) :
    (∃ hash, S.blocks.blockHashAt h = some hash ∧ node.blockHash h = .ok hash) ↔
      h < fork H.blocks node.chain := by
  obtain ⟨b, hb⟩ : ∃ b, H.blocks[h]? = some b := ⟨_, List.getElem?_eq_getElem (by simpa using hh)⟩
  obtain ⟨b', hb'⟩ : ∃ b', node.chain[h]? = some b' :=
    ⟨_, List.getElem?_eq_getElem (Nat.lt_of_lt_of_le hh hlen)⟩
  have hstored : S.blocks.blockHashAt h = some b.blockHash := by
    rw [MemBlockStore.blockHashAt, hrep.blocks, hb]
    rfl
  rw [← hid.hash_eq_iff hH hnode hb hb']
  constructor
  · rintro ⟨hash, hstored', hnode'⟩
    obtain rfl := Option.some.inj (hstored.symm.trans hstored')
    obtain ⟨b'', hb'', heq⟩ := MockChainSource.blockHash_eq_ok.mp hnode'
    obtain rfl := Option.some.inj (hb'.symm.trans hb'')
    exact heq.symm
  · intro heq
    exact ⟨b.blockHash, hstored, MockChainSource.blockHash_eq_ok.mpr ⟨b', hb', heq.symm⟩⟩

/-- The node has another block at the cursor when the fork is below it. -/
theorem exists_forksAt_iff (hgen : H ≠ [] → 0 < fork H.blocks node.chain) {a : Nat} :
    (∃ t, S.blocks.tip = some t ∧ node.blockHash t.height ≠ .ok t.hash ∧
      ForksAt node S t.height a) ↔
        fork H.blocks node.chain < H.length ∧ a + 1 = fork H.blocks node.chain := by
  by_cases hnil : H = []
  · refine iff_of_false ?_ ?_
    · rintro ⟨t, ht, -⟩
      rw [hrep.tip, hnil] at ht
      cases ht
    · rintro ⟨hlt, -⟩
      rw [hnil] at hlt
      exact absurd hlt (Nat.not_lt_zero _)
  · have hpos := List.length_pos_iff.mpr hnil
    have hgen := hgen hnil
    obtain ⟨b, hb, hcursor⟩ := History.cursor_of_ne_nil hnil
    have htip := hrep.tip.trans hcursor
    have hstored : S.blocks.blockHashAt (H.length - 1) = some b.blockHash := by
      rw [MemBlockStore.blockHashAt, hrep.blocks, hb]
      rfl
    have hagree : ∀ h ≤ H.length - 1, (∃ hash, S.blocks.blockHashAt h = some hash ∧
        node.blockHash h = .ok hash) ↔ h < fork H.blocks node.chain := fun h hh =>
      agree_iff hid hnode hH hlen hrep (by omega)
    have hsame : node.blockHash (H.length - 1) = .ok b.blockHash ↔
        H.length - 1 < fork H.blocks node.chain := by
      rw [← hagree (H.length - 1) (Nat.le_refl _)]
      constructor
      · exact fun hok => ⟨b.blockHash, hstored, hok⟩
      · rintro ⟨hash, hstored', hok⟩
        obtain rfl := Option.some.inj (hstored.symm.trans hstored')
        exact hok
    constructor
    · rintro ⟨t, ht, hdiff, hforks⟩
      obtain rfl := Option.some.inj (htip.symm.trans ht)
      have hoff : ¬H.length - 1 < fork H.blocks node.chain := fun hlt => hdiff (hsame.mpr hlt)
      -- the last height below the fork agrees, the fork itself does not
      have hboth : ∀ h ≤ H.length - 1, h < fork H.blocks node.chain ↔ h ≤ a := fun h hh =>
        (hagree h hh).symm.trans (hforks h hh)
      have hlow := hboth (fork H.blocks node.chain - 1) (by omega)
      have hhigh := hboth (fork H.blocks node.chain) (by omega)
      omega
    · rintro ⟨hoff, ha⟩
      refine ⟨_, htip, ?_, ?_⟩
      · intro hok
        have := hsame.mp hok
        omega
      · intro h hh
        rw [hagree h hh]
        omega

end

/-! ## Any pass of a run -/

/-- Where a pass starts: from a history on the node's chain, which the
stores represent after the rollback, if there is one. -/
structure StartsFrom (node : MockChainSource) (S : Stores) (H : History D) (reorgTo : Option Nat)
    (S₁ : Stores) : Prop where
  started : node.started S = (H.length, { reorgTo := reorgTo }, S₁)
  represents : Represents S₁ H
  onChain : H.blocks <+: node.chain
  reorg : ∀ a, reorgTo = some a ↔ ∃ t, S.blocks.tip = some t ∧
    node.blockHash t.height ≠ .ok t.hash ∧ ForksAt node S t.height a
  rolledBack : ∀ summary, summary.reorgTo = reorgTo → afterRollback S summary = S₁.utxos
  start : ∀ summary, summary.reorgTo = reorgTo → scanStart S summary = H.length

section

variable {C : Set (List Block)} (hid : HashesIdentify C) (hvalid : ∀ c ∈ C, ValidChain c)
  {node : MockChainSource} {S S' : Stores} {H : History D} {E : BlockScanEngine D}
  {summary : SyncSummary}

include hid

theorem SyncRun.Inv.startsFrom (hinv : SyncRun.Inv C node S H) (hbelow : NotBelowCursor node S)
    (E : BlockScanEngine D) : ∃ H₁ reorgTo S₁, StartsFrom node S (H₁ : History D) reorgTo S₁ := by
  obtain ⟨hnode, hH, ⟨g, hg, hgH⟩, hrep⟩ := hinv
  have hholds := hrep.holds E
  have hlen := hholds.length_le hbelow
  have hgen : H ≠ [] → 0 < fork H.blocks node.chain := fun hne => fork_pos (hgH hne) hg
  have hle : fork H.blocks node.chain ≤ H.length := by
    rw [← History.length_blocks]
    exact fork_le_left _ _
  rcases Nat.eq_or_lt_of_le hle with hon | hoff
  · refine ⟨H, none, S, started_of_cursor_on hid hnode hH hlen hrep.tip hon, hrep,
      fork_eq_length_iff.mp (by simpa using hon), ?_, ?_, ?_⟩
    · intro a
      rw [exists_forksAt_iff hid hnode hH hlen hrep hgen]
      refine iff_of_false (Option.some_ne_none a).symm ?_
      rintro ⟨hlt, -⟩
      omega
    · intro summary hnone
      rw [afterRollback, hnone]
    · intro summary hnone
      rw [scanStart, hnone, hrep.tip]
      by_cases hnil : H = []
      · rw [hnil]
        rfl
      · obtain ⟨b, -, hcursor⟩ := History.cursor_of_ne_nil hnil
        rw [hcursor]
        exact Nat.sub_add_cancel (List.length_pos_iff.mpr hnil)
  · have hpos := hgen (List.length_pos_iff.mp (by omega))
    obtain ⟨hstart, hrep₁⟩ := started_of_cursor_off hid hnode hH hlen hholds hpos hoff
    have htake : (H.take (fork H.blocks node.chain)).length = fork H.blocks node.chain := by
      rw [List.length_take, Nat.min_eq_left hle]
    rw [hstart] at hrep₁
    refine ⟨H.take (fork H.blocks node.chain), some (fork H.blocks node.chain - 1), _,
      by rw [htake]; exact hstart, hrep₁, ?_, ?_, ?_, ?_⟩
    · rw [History.blocks_take, take_fork]
      exact List.take_prefix _ _
    · intro a
      rw [exists_forksAt_iff hid hnode hH hlen hrep hgen, Option.some.injEq]
      omega
    · intro summary hsome
      rw [afterRollback, hsome]
    · intro summary hsome
      rw [scanStart, hsome, htake]
      exact Nat.sub_add_cancel hpos

include hvalid

/-- After any pass of any run, the summary accounts for the stores. -/
theorem accounts_for (hrun : SyncRun C node S H) (hbelow : NotBelowCursor node S)
    (hexec : Prog.Exec (memEnv node noFault) E.sync S (.ok summary) S') :
    AccountsFor node S S' summary := by
  have hinv := hrun.inv hid hvalid
  obtain ⟨H₁, reorgTo, S₁, hstarts⟩ := hinv.startsFrom hid hbelow E
  obtain ⟨htally, hreorgTo⟩ := tallies_loopState (E := E) hid hvalid hinv.node_mem
    hstarts.started hstarts.represents hstarts.onChain
  have hbase := hstarts.rolledBack _ hreorgTo
  have hstart := hstarts.start _ hreorgTo
  cases BlockScanEngine.passEnd_of_exec hbelow hexec with
  | done b hlast hlen =>
      have hne : 0 < node.chain.length := by
        rw [List.getLast?_eq_getElem?] at hlast
        exact Nat.zero_lt_of_lt (List.getElem?_eq_some_iff.mp hlast).1
      constructor
      · rw [hreorgTo]
        exact hstarts.reorg
      · refine ⟨node.chain.length - 1, MockChainSource.tipHeight_eq_ok.mpr (by omega), ?_⟩
        rw [htally.blocksScanned, hstart, Nat.card_Icc, Nat.sub_add_cancel hne]
      · rw [hbase]
        exact ⟨htally.captured.subset, htally.captured.card_sdiff.symm⟩
      · rw [hbase]
        exact htally.spent.card_sdiff.symm
      · rw [hbase]
        exact htally.unspent

end

/-! The payment of the three blocks, mined again on another branch and
not spent there. -/

def paidAgain : List Block :=
  [⟨⟨10⟩, ⟨0⟩, []⟩, ⟨⟨31⟩, ⟨10⟩, [payment]⟩, ⟨⟨32⟩, ⟨31⟩, []⟩]

def paidChains : List (List Block) := [threeBlocks, paidAgain]

theorem hashesIdentify_paidChains : HashesIdentify {c | c ∈ paidChains} :=
  hashesIdentify_of_list (by decide)

theorem validChain_paidChains : ∀ c ∈ {c | c ∈ paidChains}, ValidChain c := by
  have hall : ∀ c ∈ paidChains, ValidChain c := by decide
  exact hall

theorem accounts_for_paidAgain :
    AccountsFor ⟨paidAgain⟩ threeBlocksSynced
      (Prog.run (memStep ⟨paidAgain⟩) plainEngine.sync threeBlocksSynced).2
      { blocksScanned := 2, utxosCaptured := 1, reorgTo := some 0 } := by
  have hsynced : SyncRun {c | c ∈ paidChains} ⟨threeBlocks⟩ threeBlocksSynced _ :=
    .pass plainEngine _ (.init ⟨threeBlocks⟩ (List.cons_ne_nil _ _) (List.mem_cons_self ..))
      (notBelowCursor_of_exec exec_threeBlocks) exec_threeBlocks
  have hreorged : SyncRun {c | c ∈ paidChains} ⟨paidAgain⟩ threeBlocksSynced _ :=
    .event (.reorg 0 (paidAgain.drop 1)) hsynced
      (List.mem_cons_of_mem threeBlocks (List.mem_singleton.mpr rfl))
  have hexec : Prog.Exec (memEnv ⟨paidAgain⟩ noFault) plainEngine.sync threeBlocksSynced
      (.ok { blocksScanned := 2, utxosCaptured := 1, reorgTo := some 0 }) _ := exec_memStep rfl
  exact accounts_for hashesIdentify_paidChains validChain_paidChains hreorged
    (notBelowCursor_of_exec hexec) hexec

end EmvaultElements
