import Mathlib.Data.List.MinMax
import EmvaultElements.Map
import EmvaultElements.Wollet

/-!
# The stores

`MemUtxoStore` and `MemBlockStore`, operation by operation, each with
the lemma that says what it does to a lookup. These are the reference
implementations of the store traits.

The map inside `MemUtxoStore` is keyed by the outpoint of the record it
holds. The source keeps it private and every operation maintains that,
so it is a field here.
-/

namespace EmvaultElements

/-- Opaque 16-byte wallet identifier. -/
structure WalletId where
  bytes : BitVec 128
deriving Repr, DecidableEq

/-- An unblinded UTXO captured for a wallet. -/
structure CapturedUtxo where
  walletId : WalletId
  outpoint : OutPoint
  txout : TxOut
  secrets : TxOutSecrets
  chain : Chain
  wildcardIndex : Nat
  height : Nat
  isSpent : Bool
deriving Repr, DecidableEq

/-- The last block the pipeline has scanned and persisted. -/
structure SyncedTip where
  height : Nat
  hash : BlockHash
deriving Repr, DecidableEq

/-! ## The UTXO store -/

structure Entry where
  utxo : CapturedUtxo
  spentHeight : Option Nat
deriving Repr, DecidableEq

def Entry.markSpent (e : Entry) (spentHeight : Nat) : Entry :=
  { utxo := { e.utxo with isSpent := true }, spentHeight := some spentHeight }

/-- Un-spend the entry when its spend landed above `height`. -/
def Entry.unspendAbove (height : Nat) (e : Entry) : Entry :=
  if e.spentHeight.any (height < ·) then
    { utxo := { e.utxo with isSpent := false }, spentHeight := none }
  else e

theorem Entry.unspendAbove_outpoint (height : Nat) (e : Entry) :
    (Entry.unspendAbove height e).utxo.outpoint = e.utxo.outpoint := by
  unfold Entry.unspendAbove
  split <;> rfl

/-- Keyed by outpoint; tracks spend height for rollback. -/
structure MemUtxoStore where
  inner : Map OutPoint Entry
  keyed : ∀ op e, inner.lookup op = some e → e.utxo.outpoint = op

namespace MemUtxoStore

/-- A fresh empty store. -/
def new : MemUtxoStore := ⟨∅, fun op e h => by simp at h⟩

/-- The entry stored at an outpoint. -/
def entryAt (s : MemUtxoStore) (op : OutPoint) : Option Entry := s.inner.lookup op

/-- Write an entry at its own outpoint. -/
def put (s : MemUtxoStore) (e : Entry) : MemUtxoStore where
  inner := s.inner.insert e.utxo.outpoint e
  keyed op e' h := by
    rw [Map.lookup_insert_eq] at h
    split at h
    · next heq => cases h; exact heq.symm
    · exact s.keyed op e' h

/-- `and_modify` the record, or insert it with no spend recorded. -/
def upsertOne (s : MemUtxoStore) (u : CapturedUtxo) : MemUtxoStore :=
  match s.entryAt u.outpoint with
  | some e => s.put { e with utxo := u }
  | none => s.put { utxo := u, spentHeight := none }

def upsertUtxos (s : MemUtxoStore) (utxos : List CapturedUtxo) : MemUtxoStore :=
  utxos.foldl upsertOne s

def markOne (spentHeight : Nat) (s : MemUtxoStore) (op : OutPoint) : MemUtxoStore :=
  match s.entryAt op with
  | some e => s.put (e.markSpent spentHeight)
  | none => s

def markSpent (s : MemUtxoStore) (outpoints : List OutPoint) (spentHeight : Nat) : MemUtxoStore :=
  outpoints.foldl (markOne spentHeight) s

/-- The unspent records of one wallet. -/
def listUnspent (s : MemUtxoStore) (wallet : WalletId) : List CapturedUtxo :=
  (s.inner.values.filter fun e => !e.utxo.isSpent && e.utxo.walletId == wallet).map (·.utxo)

/-- All unspent outpoints, with their owner. -/
def unspentOutpoints (s : MemUtxoStore) : List (OutPoint × WalletId) :=
  (s.inner.values.filter fun e => !e.utxo.isSpent).map fun e => (e.utxo.outpoint, e.utxo.walletId)

/-- Drop the records captured above `height`, un-spend those spent
above it. -/
def rollbackAbove (s : MemUtxoStore) (height : Nat) : MemUtxoStore where
  inner := (s.inner.retain fun _ e => e.utxo.height ≤ height).mapValues fun _ e =>
    Entry.unspendAbove height e
  keyed op e h := by
    rw [Map.lookup_mapValues, Map.lookup_retain] at h
    obtain ⟨e', he', rfl⟩ := Option.map_eq_some_iff.mp h
    rw [Entry.unspendAbove_outpoint]
    exact s.keyed op e' (Option.filter_eq_some_iff.mp he').1

/-! ### What the operations do to a lookup -/

@[simp] theorem entryAt_new (op : OutPoint) : new.entryAt op = none := rfl

theorem entryAt_outpoint {s : MemUtxoStore} {op : OutPoint} {e : Entry}
    (h : s.entryAt op = some e) : e.utxo.outpoint = op := s.keyed op e h

theorem entryAt_put (s : MemUtxoStore) (e : Entry) (op : OutPoint) :
    (s.put e).entryAt op = if op = e.utxo.outpoint then some e else s.entryAt op :=
  Map.lookup_insert_eq s.inner e.utxo.outpoint op e

theorem entryAt_upsertOne (s : MemUtxoStore) (u : CapturedUtxo) (op : OutPoint) :
    (s.upsertOne u).entryAt op =
      if op = u.outpoint then some ⟨u, (s.entryAt op).bind Entry.spentHeight⟩
        else s.entryAt op := by
  unfold upsertOne
  split
  · next e he =>
      rw [entryAt_put]
      split
      · next hop => rw [hop, he]; rfl
      · rfl
  · next hnone =>
      rw [entryAt_put]
      split
      · next hop => rw [hop, hnone]; rfl
      · rfl

/-- An upsert leaves an outpoint alone, or writes a record listed for it
and keeps the spend height that was there. -/
theorem entryAt_upsertUtxos (s : MemUtxoStore) (us : List CapturedUtxo) (op : OutPoint) :
    (op ∉ us.map (·.outpoint) ∧ (s.upsertUtxos us).entryAt op = s.entryAt op) ∨
    ∃ u ∈ us, u.outpoint = op ∧
      (s.upsertUtxos us).entryAt op = some ⟨u, (s.entryAt op).bind Entry.spentHeight⟩ := by
  induction us generalizing s with
  | nil => exact .inl ⟨by simp, rfl⟩
  | cons u us ih =>
      have hone := entryAt_upsertOne s u op
      rw [upsertUtxos, List.foldl_cons]
      rcases ih (s.upsertOne u) with ⟨hno, hrest⟩ | ⟨u', hu', hop, hrest⟩
      · rw [upsertUtxos] at hrest
        rw [hrest, hone]
        by_cases hop : op = u.outpoint
        · rw [if_pos hop]
          exact .inr ⟨u, List.mem_cons_self .., hop.symm, rfl⟩
        · rw [if_neg hop]
          exact .inl ⟨by simpa [hop] using hno, rfl⟩
      · rw [upsertUtxos] at hrest
        refine .inr ⟨u', List.mem_cons_of_mem u hu', hop, ?_⟩
        rw [hrest, hone]
        split <;> rfl

theorem entryAt_markOne (s : MemUtxoStore) (h : Nat) (op op' : OutPoint) :
    (s.markOne h op').entryAt op =
      if op = op' then (s.entryAt op).map (Entry.markSpent · h) else s.entryAt op := by
  unfold markOne
  split
  · next e he =>
      have hop : e.utxo.outpoint = op' := entryAt_outpoint he
      rw [entryAt_put, show (e.markSpent h).utxo.outpoint = op' from hop]
      split
      · next heq => rw [heq, he]; rfl
      · rfl
  · next hnone =>
      split
      · next heq => rw [heq, hnone]; rfl
      · rfl

theorem entryAt_markSpent (s : MemUtxoStore) (ops : List OutPoint) (h : Nat) (op : OutPoint) :
    (s.markSpent ops h).entryAt op =
      if op ∈ ops then (s.entryAt op).map (Entry.markSpent · h) else s.entryAt op := by
  induction ops generalizing s with
  | nil => rfl
  | cons op' ops ih =>
      have hrest := ih (s.markOne h op')
      rw [markSpent] at hrest ⊢
      rw [List.foldl_cons, hrest, entryAt_markOne]
      by_cases heq : op = op'
      · subst heq
        cases s.entryAt op <;> simp [Entry.markSpent]
      · simp [heq]

theorem entryAt_rollbackAbove (s : MemUtxoStore) (height : Nat) (op : OutPoint) :
    (s.rollbackAbove height).entryAt op =
      ((s.entryAt op).filter fun e => e.utxo.height ≤ height).map (Entry.unspendAbove height) := by
  simp only [entryAt, rollbackAbove, Map.lookup_mapValues, Map.lookup_retain]

theorem mem_listUnspent {s : MemUtxoStore} {w : WalletId} {u : CapturedUtxo} :
    u ∈ s.listUnspent w ↔
      ∃ e, s.entryAt u.outpoint = some e ∧ e.utxo = u ∧ u.isSpent = false ∧ u.walletId = w := by
  simp only [listUnspent, List.mem_map, List.mem_filter, Map.mem_values_iff, Bool.and_eq_true,
    Bool.not_eq_true', beq_iff_eq]
  constructor
  · rintro ⟨e, ⟨⟨op, hop⟩, hsp, hw⟩, rfl⟩
    have : e.utxo.outpoint = op := s.keyed op e hop
    exact ⟨e, by rw [this]; exact hop, rfl, hsp, hw⟩
  · rintro ⟨e, he, rfl, hsp, hw⟩
    exact ⟨e, ⟨⟨_, he⟩, hsp, hw⟩, rfl⟩

theorem mem_unspentOutpoints {s : MemUtxoStore} {op : OutPoint} {w : WalletId} :
    (op, w) ∈ s.unspentOutpoints ↔
      ∃ e, s.entryAt op = some e ∧ e.utxo.isSpent = false ∧ e.utxo.walletId = w := by
  simp only [unspentOutpoints, List.mem_map, List.mem_filter, Map.mem_values_iff,
    Bool.not_eq_true', Prod.mk.injEq]
  constructor
  · rintro ⟨e, ⟨⟨op', hop⟩, hsp⟩, rfl, hw⟩
    have : e.utxo.outpoint = op' := s.keyed op' e hop
    exact ⟨e, by rw [this]; exact hop, hsp, hw⟩
  · rintro ⟨e, he, hsp, hw⟩
    exact ⟨e, ⟨⟨op, he⟩, hsp⟩, s.keyed op e he, hw⟩

end MemUtxoStore

/-! ## The block store -/

structure MemBlockStore where
  blocks : Map Nat (BlockHash × RawBlock)
  tip : Option SyncedTip

namespace MemBlockStore

/-- A fresh empty store. -/
def new : MemBlockStore := ⟨∅, none⟩

def storeBlock (s : MemBlockStore) (height : Nat) (hash : BlockHash) (raw : RawBlock) :
    MemBlockStore :=
  { s with blocks := s.blocks.insert height (hash, raw) }

def syncedTip (s : MemBlockStore) : Option SyncedTip := s.tip

def setSyncedTip (s : MemBlockStore) (tip : SyncedTip) : MemBlockStore :=
  { s with tip := some tip }

def blockHashAt (s : MemBlockStore) (height : Nat) : Option BlockHash :=
  (s.blocks.lookup height).map (·.1)

/-- Drop the blocks above `height`. When the cursor was above it, the
highest block that remains becomes the cursor. -/
def rollbackAbove (s : MemBlockStore) (height : Nat) : MemBlockStore :=
  let blocks := s.blocks.retain fun h _ => h ≤ height
  { blocks
    tip := if s.tip.any fun t => height < t.height then
        (blocks.entries.argmax (·.1)).map fun e => { height := e.1, hash := e.2.1 }
      else s.tip }

theorem lookup_storeBlock (s : MemBlockStore) (h : Nat) (hash : BlockHash) (raw : RawBlock)
    (h' : Nat) : (s.storeBlock h hash raw).blocks.lookup h' =
      if h' = h then some (hash, raw) else s.blocks.lookup h' :=
  Map.lookup_insert_eq s.blocks h h' (hash, raw)

theorem lookup_rollbackAbove (s : MemBlockStore) (height h : Nat) :
    (s.rollbackAbove height).blocks.lookup h =
      if h ≤ height then s.blocks.lookup h else none := by
  simp only [rollbackAbove, Map.lookup_retain]
  cases s.blocks.lookup h <;> simp [Option.filter]

/-- The cursor after a rollback below it, when the block at `height` is
stored. -/
theorem tip_rollbackAbove {s : MemBlockStore} {height : Nat} {t : SyncedTip}
    {hash : BlockHash} {raw : RawBlock} (htip : s.tip = some t) (hlt : height < t.height)
    (hblock : s.blocks.lookup height = some (hash, raw)) :
    (s.rollbackAbove height).tip = some { height, hash } := by
  have hmem : (⟨height, hash, raw⟩ : (_ : Nat) × BlockHash × RawBlock) ∈
      (s.blocks.retain fun h _ => h ≤ height).entries := by
    rw [Map.mem_entries_iff, Map.lookup_retain, hblock]
    simp [Option.filter]
  simp only [rollbackAbove, htip, Option.any_some, hlt, decide_true, if_true]
  cases hmax : List.argmax (fun e : (_ : Nat) × BlockHash × RawBlock => e.1)
      (s.blocks.retain fun h _ => h ≤ height).entries with
  | none => rw [List.argmax_eq_none.mp hmax] at hmem; simp at hmem
  | some e =>
      have he := List.argmax_mem hmax
      have hle : height ≤ e.1 := List.le_of_mem_argmax hmem hmax
      obtain ⟨h', hash', raw'⟩ := e
      rw [Map.mem_entries_iff, Map.lookup_retain] at he
      obtain ⟨hstored, hle'⟩ := Option.filter_eq_some_iff.mp he
      obtain rfl : h' = height := Nat.le_antisymm (by simpa using hle') hle
      obtain ⟨rfl, -⟩ := Prod.mk.inj (Option.some.inj (hstored.symm.trans hblock))
      rfl

theorem tip_rollbackAbove_of_le {s : MemBlockStore} {height : Nat}
    (h : ∀ t, s.tip = some t → t.height ≤ height) : (s.rollbackAbove height).tip = s.tip := by
  simp only [rollbackAbove]
  split
  · next hany =>
      cases ht : s.tip with
      | none => simp [ht] at hany
      | some t =>
          have hle := h t ht
          simp only [ht, Option.any_some, decide_eq_true_eq] at hany
          omega
  · rfl

end MemBlockStore

/-- The two stores a pass works on. -/
structure Stores where
  blocks : MemBlockStore
  utxos : MemUtxoStore

def Stores.new : Stores := ⟨.new, .new⟩

end EmvaultElements
