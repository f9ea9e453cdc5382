import EmvaultElements.Fork
import EmvaultElements.StoreView

/-!
# Histories

A `History` is a chain in which every block comes with the engine that
scanned it; `History.batches` is what the chain puts into the ledger.

`Represents S H` is the abstraction relation: the stores hold exactly
the history `H`. `Holds E S H Y` is what an interrupted pass of `E`
leaves: `H` was complete, and the blocks `Y` above it are stored and
may have been scanned in part.
-/

namespace EmvaultElements

open Ledger

variable {D : Type}

/-- A chain of blocks, each with the engine that scanned it. -/
abbrev History (D : Type) : Type := List (Block × BlockScanEngine D)

namespace History

def blocks (H : History D) : List Block := H.map Prod.fst

/-- The blocks as one engine scans them. -/
def scannedBy (E : BlockScanEngine D) (c : List Block) : History D := c.map fun b => (b, E)

/-- The cursor a complete pass over the history leaves. -/
def cursor (H : History D) : Option SyncedTip :=
  H.getLast?.map fun p => { height := H.length - 1, hash := p.1.blockHash }

/-- The history after a complete pass of `E` over the chain `c`: the
blocks on the present branch keep the engine that scanned them, those
above the fork are scanned by `E`. -/
def rescan (H : History D) (c : List Block) (E : BlockScanEngine D) : History D :=
  H.take (fork H.blocks c) ++ scannedBy E (c.drop (fork H.blocks c))

@[simp] theorem length_blocks (H : History D) : H.blocks.length = H.length := List.length_map ..

theorem getElem?_blocks (H : History D) (i : Nat) : H.blocks[i]? = H[i]?.map Prod.fst :=
  List.getElem?_map ..

@[simp] theorem blocks_append (H H' : History D) :
    History.blocks (H ++ H') = H.blocks ++ History.blocks H' := List.map_append ..

@[simp] theorem blocks_take (H : History D) (n : Nat) :
    History.blocks (H.take n) = H.blocks.take n := List.map_take ..

@[simp] theorem blocks_scannedBy (E : BlockScanEngine D) (c : List Block) :
    (scannedBy E c).blocks = c := by
  simp [blocks, scannedBy, Function.comp_def]

@[simp] theorem length_scannedBy (E : BlockScanEngine D) (c : List Block) :
    (scannedBy E c).length = c.length := List.length_map ..

theorem scannedBy_append (E : BlockScanEngine D) (c c' : List Block) :
    scannedBy E (c ++ c') = scannedBy E c ++ scannedBy E c' := List.map_append ..

theorem blocks_rescan (H : History D) (c : List Block) (E : BlockScanEngine D) :
    (H.rescan c E).blocks = c := by
  rw [rescan, blocks_append, blocks_take, blocks_scannedBy, take_fork, List.take_append_drop]

theorem getElem?_rescan_of_lt {H : History D} {N : List Block} {E : BlockScanEngine D} {h : Nat}
    (hh : h < fork H.blocks N) : (H.rescan N E)[h]? = H[h]? := by
  have hle := fork_le_left H.blocks N
  rw [length_blocks] at hle
  rw [rescan, List.getElem?_append_left (by rw [List.length_take]; omega),
    List.getElem?_take_of_lt hh]

theorem getElem?_rescan_of_le {H : History D} {N : List Block} {E : BlockScanEngine D} {h : Nat}
    (hh : fork H.blocks N ≤ h) : (H.rescan N E)[h]? = N[h]?.map fun b => (b, E) := by
  have hle := fork_le_left H.blocks N
  rw [length_blocks] at hle
  have hlen : (H.take (fork H.blocks N)).length = fork H.blocks N := by
    rw [List.length_take]
    omega
  rw [rescan, List.getElem?_append_right (by omega), hlen, scannedBy, List.getElem?_map,
    List.getElem?_drop, Nat.add_sub_cancel' hh]

theorem cursor_eq (H : History D) : H.cursor =
    H.blocks.getLast?.map fun b => { height := H.blocks.length - 1, hash := b.blockHash } := by
  rw [cursor, blocks, List.getLast?_map, Option.map_map, List.length_map]
  rfl

theorem cursor_of_ne_nil {H : History D} (hH : H ≠ []) : ∃ b, H.blocks[H.length - 1]? = some b ∧
    H.cursor = some { height := H.length - 1, hash := b.blockHash } := by
  have hpos := List.length_pos_iff.mpr hH
  have hlast : H[H.length - 1]? = some H[H.length - 1] := List.getElem?_eq_getElem (by omega)
  have hb : H.blocks[H.length - 1]? = some H[H.length - 1].1 := by
    rw [blocks, List.getElem?_map, hlast]
    rfl
  refine ⟨H[H.length - 1].1, hb, ?_⟩
  rw [cursor_eq, List.getLast?_eq_getElem?, length_blocks, hb]
  rfl

variable [LwkDescriptor D]

/-- The batches of the blocks at heights `n`, `n + 1`, … -/
def batchesFrom : Nat → History D → List (Batch OutPoint CapturedUtxo)
  | _, [] => []
  | n, p :: H => p.2.batchAt n p.1 :: batchesFrom (n + 1) H

def batches (H : History D) : List (Batch OutPoint CapturedUtxo) := batchesFrom 0 H

@[simp] theorem length_batchesFrom : ∀ (n : Nat) (H : History D),
    (batchesFrom n H).length = H.length
  | _, [] => rfl
  | n, _ :: H => congrArg (· + 1) (length_batchesFrom (n + 1) H)

@[simp] theorem length_batches (H : History D) : H.batches.length = H.length :=
  length_batchesFrom 0 H

theorem batchesFrom_append : ∀ (n : Nat) (H H' : History D),
    batchesFrom n (H ++ H') = batchesFrom n H ++ batchesFrom (n + H.length) H'
  | n, [], H' => rfl
  | n, p :: H, H' => by
      rw [List.cons_append, batchesFrom, batchesFrom_append (n + 1) H H', List.length_cons,
        Nat.add_right_comm, Nat.add_assoc]
      rfl

theorem batches_append (H H' : History D) :
    batches (H ++ H') = H.batches ++ batchesFrom H.length H' := by
  rw [batches, batchesFrom_append, Nat.zero_add]
  rfl

theorem batches_take (H : History D) (n : Nat) : batches (H.take n) = H.batches.take n := by
  by_cases hn : n ≤ H.length
  · conv => rhs; rw [← List.take_append_drop n H, batches_append]
    rw [List.take_left' (by simp [hn])]
  · have hlen : H.length ≤ n := Nat.le_of_not_le hn
    rw [List.take_of_length_le hlen, List.take_of_length_le (by simpa using hlen)]

theorem getElem?_batchesFrom : ∀ (n : Nat) (H : History D) (i : Nat),
    (batchesFrom n H)[i]? = H[i]?.map fun p => p.2.batchAt (n + i) p.1
  | _, [], _ => rfl
  | _, _ :: _, 0 => rfl
  | n, p :: H, i + 1 => by
      rw [batchesFrom, List.getElem?_cons_succ, List.getElem?_cons_succ,
        getElem?_batchesFrom (n + 1) H i, Nat.add_assoc, Nat.add_comm 1]

theorem spentAt_batches (H : History D) (o : OutPoint) :
    spentAt H.batches o = H.blocks.findIdx? fun b => decide (o ∈ b.spends) := by
  have hfrom : ∀ (n : Nat) (H : History D), (batchesFrom n H).findIdx? (·.spends o) =
      (History.blocks H).findIdx? fun b => decide (o ∈ b.spends) := by
    intro n H
    induction H generalizing n with
    | nil => rfl
    | cons p H ih =>
        have hblocks : History.blocks (p :: H) = p.1 :: History.blocks H := rfl
        rw [batchesFrom, List.findIdx?_cons, ih, hblocks, List.findIdx?_cons]
        rfl
  rw [spentAt, spentFrom_eq, batches, hfrom]
  simp

theorem mem_batchesFrom {β : Batch OutPoint CapturedUtxo} : ∀ {n : Nat} {H : History D},
    β ∈ batchesFrom n H → ∃ i p, p ∈ H ∧ β = p.2.batchAt i p.1
  | n, p :: H, hmem => by
      rw [batchesFrom, List.mem_cons] at hmem
      rcases hmem with rfl | hmem
      · exact ⟨n, p, List.mem_cons_self .., rfl⟩
      · obtain ⟨i, q, hq, rfl⟩ := mem_batchesFrom hmem
        exact ⟨i, q, List.mem_cons_of_mem p hq, rfl⟩

/-- The batches of a valid chain are valid, whoever scanned it. -/
theorem valid_batchesFrom : ∀ {n : Nat} {H : History D}, ValidChain H.blocks →
    Valid (batchesFrom n H)
  | _, [], _ => List.Pairwise.nil
  | n, p :: H, hvalid => by
      have htail : ValidChain (History.blocks H) := hvalid.sublist (List.sublist_cons_self _ _)
      refine List.Pairwise.cons ?_ (valid_batchesFrom htail)
      intro β hβ o ho
      obtain ⟨i, q, hq, rfl⟩ := mem_batchesFrom hβ
      have hlater := BlockScanEngine.batchAt_creates_mem ho
      obtain ⟨tx', htx', ho'⟩ := List.mem_flatMap.mp hlater
      have hq' : tx' ∈ chainTxs (History.blocks H) :=
        List.mem_flatMap.mpr ⟨q.1, List.mem_map_of_mem hq, htx'⟩
      have hcreated := (List.pairwise_append.mp hvalid.created_once).2.2
      have hspent := (List.pairwise_append.mp hvalid.spent_after).2.2
      constructor
      · by_contra hne
        obtain ⟨tx, htx, hotx⟩ := List.mem_flatMap.mp
          (BlockScanEngine.batchAt_creates_mem (Option.isSome_iff_ne_none.mpr hne))
        exact hcreated tx htx tx' hq' o hotx ho'
      · refine decide_eq_false fun hmem => ?_
        obtain ⟨tx, htx, hotx⟩ := List.mem_flatMap.mp hmem
        exact hspent tx htx tx' hq' o hotx ho'

theorem valid_batches {H : History D} (hvalid : ValidChain H.blocks) : Valid H.batches :=
  valid_batchesFrom hvalid

theorem valid_batches_scannedBy {H : History D} {E : BlockScanEngine D} {bs : List Block}
    (hvalid : ValidChain (H.blocks ++ bs)) : Valid (batches (H ++ scannedBy E bs)) := by
  apply valid_batches
  rwa [blocks_append, blocks_scannedBy]

end History

/-! ## The abstraction relation -/

variable [LwkDescriptor D]

/-- What the block store keeps of a block. -/
def storedBlock (b : Block) : BlockHash × RawBlock := (b.blockHash, serialize b)

/-- The stores hold exactly the history. -/
structure Represents (S : Stores) (H : History D) : Prop where
  blocks : ∀ h, S.blocks.blocks.lookup h = H.blocks[h]?.map storedBlock
  tip : S.blocks.tip = H.cursor
  utxos : S.utxos.view = ledger H.batches

/-- The stores hold the history `H` and leftovers of `E` scanning the
blocks `Y` above it. -/
structure Holds (E : BlockScanEngine D) (S : Stores) (H : History D) (Y : List Block) : Prop where
  blocks : ∀ h, S.blocks.blocks.lookup h = (H.blocks ++ Y)[h]?.map storedBlock
  tip : S.blocks.tip = H.cursor
  utxos : Interrupted H.batches (History.batches (H ++ History.scannedBy E Y)) S.utxos.view

/-- The first height at which a block of the chain spends `o`. -/
def chainSpentAt (c : List Block) (o : OutPoint) : Option Nat :=
  c.findIdx? fun b => decide (o ∈ b.spends)

/-- The slot of a captured record, with a spend or without. -/
theorem BlockScanEngine.slot_capture {E : BlockScanEngine D} {h : Nat} {txs : List Transaction}
    {u : CapturedUtxo} (hu : u ∈ E.captures h txs) (sp : Option Nat) :
    (Entry.mk { u with isSpent := sp.isSome } sp).slot = ⟨u, h, sp.isSome, sp⟩ := by
  obtain ⟨hheight, hspent⟩ := captures_height hu
  simp only [Entry.slot, Slot.mk.injEq]
  exact ⟨by rw [← hspent], hheight, trivial, trivial⟩

/-- The entries of stores that hold a history: what the engines
captured, spent where the chain spends it. -/
theorem Represents.entryAt_eq_some {S : Stores} {H : History D} (h : Represents S H)
    (hvalid : ValidChain H.blocks) {o : OutPoint} {e : Entry} :
    S.utxos.entryAt o = some e ↔ ∃ (i : Nat) (b : Block) (E : BlockScanEngine D)
      (u : CapturedUtxo), H[i]? = some (b, E) ∧ u ∈ E.captures i b.txdata ∧ u.outpoint = o ∧ e = {
        utxo := { u with isSpent := (chainSpentAt H.blocks o).isSome }
        spentHeight := chainSpentAt H.blocks o } := by
  have hview : S.utxos.entryAt o = some e ↔ ledger H.batches o = some e.slot := by
    rw [← h.utxos, MemUtxoStore.view, Option.map_eq_some_iff]
    constructor
    · intro he
      exact ⟨e, he, rfl⟩
    · rintro ⟨e', he', hslot⟩
      rw [he', Entry.slot_inj hslot]
  rw [hview, ledger, Option.map_eq_some_iff, History.spentAt_batches]
  constructor
  · rintro ⟨⟨i, u⟩, hc, hslot⟩
    obtain ⟨j, β, hβ, rfl, hcreates⟩ :=
      (createdFrom_eq_some_iff (History.valid_batches hvalid)).mp hc
    rw [History.batches, History.getElem?_batchesFrom] at hβ
    obtain ⟨⟨b, E⟩, hp, rfl⟩ := Option.map_eq_some_iff.mp hβ
    have hb : b ∈ H.blocks := List.mem_map.mpr ⟨(b, E), List.mem_of_getElem? hp, rfl⟩
    obtain ⟨hu, hop⟩ := (BlockScanEngine.batchAt_creates (hvalid.block hb)).mp hcreates
    rw [Nat.zero_add] at hu
    refine ⟨j, b, E, u, hp, hu, hop, Entry.slot_inj ?_⟩
    rw [BlockScanEngine.slot_capture hu, ← hslot, Nat.zero_add]
    rfl
  · rintro ⟨i, b, E, u, hp, hu, hop, rfl⟩
    have hb : b ∈ H.blocks := List.mem_map.mpr ⟨(b, E), List.mem_of_getElem? hp, rfl⟩
    refine ⟨(i, u), ?_, (BlockScanEngine.slot_capture hu _).symm⟩
    refine (createdFrom_eq_some_iff (History.valid_batches hvalid)).mpr
      ⟨i, E.batchAt i b, ?_, (Nat.zero_add i).symm, ?_⟩
    · rw [History.batches, History.getElem?_batchesFrom, hp, Nat.zero_add]
      rfl
    · exact (BlockScanEngine.batchAt_creates (hvalid.block hb)).mpr ⟨hu, hop⟩

/-- Stores that hold the same history are the same to every lookup. -/
theorem Represents.agree {S T : Stores} {H : History D} (h : Represents S H)
    (h' : Represents T H) :
    (∀ i, S.blocks.blocks.lookup i = T.blocks.blocks.lookup i) ∧
      S.blocks.tip = T.blocks.tip ∧ ∀ o, S.utxos.entryAt o = T.utxos.entryAt o := by
  refine ⟨?_, h.tip.trans h'.tip.symm, ?_⟩
  · intro i
    rw [h.blocks, h'.blocks]
  · exact MemUtxoStore.view_inj.mp (h.utxos.trans h'.utxos.symm)

theorem represents_new : Represents Stores.new ([] : History D) where
  blocks h := by simp [Stores.new, MemBlockStore.new, History.blocks]
  tip := rfl
  utxos := rfl

theorem Represents.holds {S : Stores} {H : History D} (h : Represents S H)
    (E : BlockScanEngine D) : Holds E S H [] where
  blocks i := by rw [h.blocks, List.append_nil]
  tip := h.tip
  utxos := by rw [h.utxos]; exact interrupted_ledger _ _

end EmvaultElements
