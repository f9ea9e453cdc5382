import EmvaultElements.LedgerScan
import EmvaultElements.ScanBlock

/-!
# The UTXO store as a ledger

`MemUtxoStore.view` forgets how the store keeps its entries, and
`BlockScanEngine.batchAt` says what a block puts into it: the records
the engine captures, and the outpoints the block spends. What the scan
of one block writes is then one step of the ledger (`view_scan`), as
long as the spend index lists the unspent entries (`Mirrors`), which
the scan maintains (`mirrors_scan`). `view_rollbackAbove` is the same
for a rollback.
-/

namespace EmvaultElements

open Ledger

/-! ## The UTXO store as a ledger -/

/-- An entry as a slot. The record is kept as it was captured. -/
def Entry.slot (e : Entry) : Slot CapturedUtxo where
  record := { e.utxo with isSpent := false }
  height := e.utxo.height
  isSpent := e.utxo.isSpent
  spentHeight := e.spentHeight

def MemUtxoStore.view (s : MemUtxoStore) : View OutPoint CapturedUtxo :=
  fun o => (s.entryAt o).map Entry.slot

theorem Entry.slot_inj {e e' : Entry} (h : e.slot = e'.slot) : e = e' := by
  obtain ⟨⟨_, _, _, _, _, _, _, _⟩, _⟩ := e
  obtain ⟨⟨_, _, _, _, _, _, _, _⟩, _⟩ := e'
  simp only [Entry.slot, Slot.mk.injEq, CapturedUtxo.mk.injEq, Entry.mk.injEq] at h ⊢
  obtain ⟨⟨h₁, h₂, h₃, h₄, h₅, h₆, h₇, -⟩, -, hspent, hheight⟩ := h
  exact ⟨⟨h₁, h₂, h₃, h₄, h₅, h₆, h₇, hspent⟩, hheight⟩

/-- Stores with equal views hold the same entries. -/
theorem MemUtxoStore.view_inj {s s' : MemUtxoStore} :
    s.view = s'.view ↔ ∀ o, s.entryAt o = s'.entryAt o := by
  constructor
  · intro h o
    exact Option.map_injective (fun _ _ => Entry.slot_inj) (congrFun h o)
  · intro h
    funext o
    rw [MemUtxoStore.view, MemUtxoStore.view, h o]

theorem Entry.slot_unspendAbove (a : Nat) (e : Entry) :
    (Entry.unspendAbove a e).slot = e.slot.unspendAbove a := by
  unfold Entry.unspendAbove Slot.unspendAbove Entry.slot
  dsimp only
  split <;> rfl

theorem MemUtxoStore.view_rollbackAbove (s : MemUtxoStore) (a : Nat) :
    (s.rollbackAbove a).view = Ledger.rollbackAbove a s.view := by
  funext o
  rw [MemUtxoStore.view, MemUtxoStore.entryAt_rollbackAbove, Ledger.rollbackAbove,
    MemUtxoStore.view]
  cases s.entryAt o with
  | none => rfl
  | some e =>
      have hheight : e.slot.height = e.utxo.height := rfl
      by_cases hle : e.utxo.height ≤ a
      · simp [Option.filter, hheight, hle, Entry.slot_unspendAbove]
      · simp [Option.filter, hheight, hle]

/-! ## The batch of a block -/

variable {D : Type} [LwkDescriptor D]

namespace BlockScanEngine

/-- What a block creates and spends at height `h`, under an engine. -/
def batchAt (self : BlockScanEngine D) (h : Nat) (b : Block) : Batch OutPoint CapturedUtxo where
  creates o := (self.captures h b.txdata).find? (·.outpoint = o)
  spends o := decide (o ∈ b.spends)

theorem batchAt_creates {self : BlockScanEngine D} {h : Nat} {b : Block}
    (hvalid : ValidTxs b.txdata) {o : OutPoint} {u : CapturedUtxo} :
    (self.batchAt h b).creates o = some u ↔
      u ∈ self.captures h b.txdata ∧ u.outpoint = o := by
  constructor
  · intro hu
    exact ⟨List.mem_of_find?_eq_some hu, by simpa using List.find?_some hu⟩
  · rintro ⟨hu, rfl⟩
    obtain ⟨u', hu'⟩ : ∃ u', (self.batchAt h b).creates u.outpoint = some u' :=
      Option.isSome_iff_exists.mp (List.find?_isSome.mpr ⟨u, hu, by simp⟩)
    have hsame : u'.outpoint = u.outpoint := by simpa using List.find?_some hu'
    rw [hu', captures_inj hvalid (List.mem_of_find?_eq_some hu') hu hsame]

theorem batchAt_creates_eq_none {self : BlockScanEngine D} {h : Nat} {b : Block} {o : OutPoint} :
    (self.batchAt h b).creates o = none ↔
      o ∉ (self.captures h b.txdata).map (·.outpoint) := by
  simp [batchAt, List.find?_eq_none]

theorem batchAt_creates_mem {self : BlockScanEngine D} {h : Nat} {b : Block} {o : OutPoint}
    (ho : ((self.batchAt h b).creates o).isSome) : o ∈ b.creates := by
  obtain ⟨u, hu, hop⟩ := List.find?_isSome.mp ho
  have hcreates := captures_creates hu
  rw [← of_decide_eq_true hop]
  exact hcreates

end BlockScanEngine

/-- The spend index knows exactly the unspent entries. -/
def Mirrors (idx : Map OutPoint WalletId) (s : MemUtxoStore) : Prop :=
  ∀ o, o ∈ idx ↔ ∃ e, s.entryAt o = some e ∧ e.utxo.isSpent = false

theorem mirrors_collect (s : MemUtxoStore) : Mirrors (Map.collect s.unspentOutpoints) s := by
  intro o
  rw [Map.mem_collect]
  simp only [MemUtxoStore.mem_unspentOutpoints]
  constructor
  · rintro ⟨w, e, he, hsp, -⟩
    exact ⟨e, he, hsp⟩
  · rintro ⟨e, he, hsp⟩
    exact ⟨e.utxo.walletId, e, he, hsp, rfl⟩

namespace BlockScanEngine

variable {self : BlockScanEngine D} {h : Nat} {b : Block} {s : MemUtxoStore}

/-- Storing the captures of a block is capturing its batch. -/
theorem view_upsert (hvalid : ValidTxs b.txdata) :
    (s.upsertUtxos (self.captures h b.txdata)).view = capture h (self.batchAt h b) s.view := by
  funext o
  rw [capture, MemUtxoStore.view]
  rcases MemUtxoStore.entryAt_upsertUtxos s (self.captures h b.txdata) o
    with ⟨hno, hentry⟩ | ⟨u, hu, hop, hentry⟩
  · rw [batchAt_creates_eq_none.mpr hno, hentry]
    rfl
  · obtain ⟨hheight, hspent⟩ := captures_height hu
    have hslot : ∀ sp, (Entry.mk u sp).slot = ⟨u, h, false, sp⟩ := by
      intro sp
      simp only [Entry.slot, Slot.mk.injEq]
      exact ⟨by rw [← hspent], hheight, hspent, trivial⟩
    rw [(batchAt_creates hvalid).mpr ⟨hu, hop⟩, hentry, Option.map_some, hslot, MemUtxoStore.view]
    cases s.entryAt o <;> rfl

/-- The spend index of a block, once its captures are stored. -/
theorem spent_iff (hvalid : ValidTxs b.txdata) {idx : Map OutPoint WalletId}
    (hidx : Mirrors idx s) {o : OutPoint} :
    (o ∈ idx ∨ o ∈ (self.captures h b.txdata).map (·.outpoint)) ↔
      ∃ sl, capture h (self.batchAt h b) s.view o = some sl ∧ sl.isSpent = false := by
  rw [hidx o, capture, MemUtxoStore.view]
  cases hc : (self.batchAt h b).creates o with
  | none =>
      have hnone := batchAt_creates_eq_none.mp hc
      simp only [hnone, or_false, Option.map_eq_some_iff]
      constructor
      · rintro ⟨e, he, hsp⟩
        exact ⟨e.slot, ⟨e, he, rfl⟩, hsp⟩
      · rintro ⟨_, ⟨e, he, rfl⟩, hsp⟩
        exact ⟨e, he, hsp⟩
  | some u =>
      obtain ⟨hu, rfl⟩ := (batchAt_creates hvalid).mp hc
      have hmem : u.outpoint ∈ (self.captures h b.txdata).map (·.outpoint) :=
        List.mem_map_of_mem hu
      simp [hmem]

/-- Storing the captures and the spends of a block is scanning its
batch. -/
theorem view_scan (hvalid : ValidTxs b.txdata) {idx : Map OutPoint WalletId}
    (hidx : Mirrors idx s) :
    ((s.upsertUtxos (self.scanTxs h b.txdata idx).captured).markSpent
        (self.scanTxs h b.txdata idx).spent h).view = scan h (self.batchAt h b) s.view := by
  funext o
  rw [scanTxs_captured, MemUtxoStore.view, MemUtxoStore.entryAt_markSpent, scan, settle,
    ← view_upsert hvalid]
  have hspent : o ∈ (self.scanTxs h b.txdata idx).spent ↔ _ := mem_spent_scanTxs self hvalid
  rw [spent_iff hvalid hidx, ← view_upsert hvalid] at hspent
  have hspends : (self.batchAt h b).spends o = decide (o ∈ b.txdata.flatMap Transaction.spends) :=
    rfl
  rw [MemUtxoStore.view] at hspent ⊢
  cases he : (s.upsertUtxos (self.captures h b.txdata)).entryAt o with
  | none => simp
  | some e =>
      rw [he] at hspent
      by_cases ho : o ∈ b.txdata.flatMap Transaction.spends <;> cases hsp : e.utxo.isSpent <;>
        simp [ho, hsp, hspent, hspends, Entry.slot, Entry.markSpent, Slot.mark]

theorem mirrors_scan (hvalid : ValidTxs b.txdata) {idx : Map OutPoint WalletId}
    (hidx : Mirrors idx s) :
    Mirrors (self.scanTxs h b.txdata idx).spendIndex
      ((s.upsertUtxos (self.scanTxs h b.txdata idx).captured).markSpent
        (self.scanTxs h b.txdata idx).spent h) := by
  intro o
  have hview : ((s.upsertUtxos (self.scanTxs h b.txdata idx).captured).markSpent
      (self.scanTxs h b.txdata idx).spent h).view o = scan h (self.batchAt h b) s.view o :=
    congrFun (view_scan hvalid hidx) o
  rw [mem_spendIndex_scanTxs self hvalid, spent_iff hvalid hidx]
  have hflag : ∀ (t : MemUtxoStore), (∃ e, t.entryAt o = some e ∧ e.utxo.isSpent = false) ↔
      ∃ sl, t.view o = some sl ∧ sl.isSpent = false := by
    intro t
    rw [MemUtxoStore.view]
    cases t.entryAt o <;> simp [Entry.slot]
  have hspends : (self.batchAt h b).spends o = decide (o ∈ b.txdata.flatMap Transaction.spends) :=
    rfl
  rw [hflag, hview, scan, settle]
  cases capture h (self.batchAt h b) s.view o with
  | none => simp
  | some sl =>
      by_cases ho : o ∈ b.txdata.flatMap Transaction.spends <;> cases hsp : sl.isSpent <;>
        simp [ho, hsp, hspends, Slot.mark]

end BlockScanEngine

end EmvaultElements
