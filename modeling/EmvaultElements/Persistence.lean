import EmvaultElements.Coins
import EmvaultElements.Simulation

/-!
# Any persistence

The engine is generic over its stores, and the application brings its
own. An implementation answers the calls of the store traits in any way,
the unspent outpoints in any order, and may fail at any call; it
`Implements` the traits when what it keeps is at every step what the
in-memory stores keep.

A pass does not tell such stores from the in-memory ones
(`Persistence.Implements.exec_sync`), so every run over them is a run
over the in-memory ones, and after each pass they list for a wallet what
the chain says (`persisted_listing`).
-/

namespace EmvaultElements

open Prog

/-! ## The engine does not see the difference -/

/-- Answers the engine does not tell apart. It looks an outpoint up in
the unspent ones, whatever their order and their owners. -/
def StoreOp.SameAnswer : (op : StoreOp) → op.Res → op.Res → Prop
  | .unspentOutpoints, l, l' => ∀ o, (∃ w, (o, w) ∈ l) ↔ ∃ w, (o, w) ∈ l'
  | .storeBlock .., r, r' | .syncedTip, r, r' | .setSyncedTip .., r, r' | .blockHashAt .., r, r'
  | .blocksRollbackAbove .., r, r' | .upsertUtxos .., r, r' | .markSpent .., r, r'
  | .utxosRollbackAbove .., r, r' => r = r'

def SyncOp.SameAnswer : (op : SyncOp) → op.Res → op.Res → Prop
  | .chain _, r, r' => r = r'
  | .store op, r, r' => op.SameAnswer r r'

theorem StoreOp.sameAnswer_refl : ∀ (op : StoreOp) (r : op.Res), op.SameAnswer r r
  | .unspentOutpoints, _ => fun _ => Iff.rfl
  | .storeBlock .., _ | .syncedTip, _ | .setSyncedTip .., _ | .blockHashAt .., _
  | .blocksRollbackAbove .., _ | .upsertUtxos .., _ | .markSpent .., _
  | .utxosRollbackAbove .., _ => rfl

/-- Two spend indexes with the same outpoints. -/
def SameKeys (idx idx' : Map OutPoint WalletId) : Prop := ∀ o, o ∈ idx ↔ o ∈ idx'

theorem sameKeys_collect {l l' : List (OutPoint × WalletId)}
    (h : ∀ o, (∃ w, (o, w) ∈ l) ↔ ∃ w, (o, w) ∈ l') :
    SameKeys (Map.collect l) (Map.collect l') := by
  intro o
  rw [Map.mem_collect, Map.mem_collect, h o]

namespace BlockScanEngine

variable {D : Type} {self : BlockScanEngine D}

/-- The locals of the scan of a block, up to the owners in its index. -/
structure BlockScan.Same (st st' : BlockScan) : Prop where
  spendIndex : SameKeys st.spendIndex st'.spendIndex
  captured : st.captured = st'.captured
  spent : st.spent = st'.spent
  skippedUnblindable : st.skippedUnblindable = st'.skippedUnblindable

theorem BlockScan.Same.scanInput {st st' : BlockScan} (h : st.Same st') (input : TxIn) :
    (scanInput st input).Same (scanInput st' input) := by
  unfold BlockScanEngine.scanInput
  dsimp only
  by_cases hmem : input.previousOutput ∈ st.spendIndex
  · rw [if_pos hmem, if_pos ((h.spendIndex _).mp hmem)]
    refine ⟨?_, h.captured, congrArg (· ++ _) h.spent, h.skippedUnblindable⟩
    intro o
    rw [AList.mem_erase, AList.mem_erase, h.spendIndex o]
  · rw [if_neg hmem, if_neg (mt (h.spendIndex _).mpr hmem)]
    exact h

variable [LwkDescriptor D]

theorem BlockScan.Same.scanOutput {st st' : BlockScan} (h : st.Same st') (height : Nat)
    (txid : Txid)
    (out : TxOut × Nat) :
    (self.scanOutput height txid st out).Same (self.scanOutput height txid st' out) := by
  unfold BlockScanEngine.scanOutput
  dsimp only
  split
  · exact h
  · split
    · exact ⟨h.spendIndex, h.captured, h.spent, congrArg (· + 1) h.skippedUnblindable⟩
    · refine ⟨?_, congrArg (· ++ _) h.captured, h.spent, h.skippedUnblindable⟩
      intro o
      rw [AList.mem_insert, AList.mem_insert, h.spendIndex o]

/-- The scan of a block looks only at the outpoints of its index. -/
theorem scanTxs_same {idx idx' : Map OutPoint WalletId} (h : SameKeys idx idx') (height : Nat)
    (txs : List Transaction) :
    (self.scanTxs height txs idx).Same (self.scanTxs height txs idx') := by
  refine List.foldl_rel ⟨h, rfl, rfl, rfl⟩ ?_
  intro tx _ st st' hst
  refine List.foldl_rel ?_ fun out _ _ _ hsame => hsame.scanOutput height tx.txid out
  exact List.foldl_rel hst fun input _ _ _ hsame => hsame.scanInput input

/-! ## The pass makes the same calls -/

/-- The state of the scan loop, up to the owners in its index. -/
def SameScan (st st' : Map OutPoint WalletId × SyncSummary) : Prop :=
  SameKeys st.1 st'.1 ∧ st.2 = st'.2

omit [LwkDescriptor D] in
theorem parallel_sameHashAt (h : Nat) :
    Parallel SyncOp.SameAnswer Eq (sameHashAt h) (sameHashAt h) := by
  refine parallel_perform.bind ?_
  rintro stored _ rfl
  cases stored with
  | none => exact parallel_pure rfl
  | some stored =>
      refine parallel_perform.bind ?_
      rintro hash _ rfl
      exact parallel_pure rfl

theorem parallel_findCommonAncestor : ∀ h : Nat,
    Parallel SyncOp.SameAnswer Eq (findCommonAncestor h) (findCommonAncestor h)
  | 0 => by
      refine (parallel_sameHashAt 0).bind ?_
      rintro b _ rfl
      exact .ite (parallel_pure rfl) (parallel_pure rfl)
  | h + 1 => by
      refine (parallel_sameHashAt (h + 1)).bind ?_
      rintro b _ rfl
      exact .ite (parallel_pure rfl) (parallel_findCommonAncestor h)

theorem parallel_heightSucc (h : Nat) :
    Parallel SyncOp.SameAnswer Eq (heightSucc h) (heightSucc h) :=
  .ite (parallel_pure rfl) .panic

theorem parallel_startHeight :
    Parallel SyncOp.SameAnswer Eq startHeight startHeight := by
  refine parallel_perform.bind ?_
  rintro tip _ rfl
  cases tip with
  | none => exact parallel_pure rfl
  | some t =>
      refine parallel_perform.bind ?_
      rintro hash _ rfl
      refine .ite ?_ ?_
      · refine (parallel_heightSucc t.height).bind ?_
        rintro start _ rfl
        exact parallel_pure rfl
      · refine (parallel_findCommonAncestor t.height).bind ?_
        rintro ancestor _ rfl
        refine parallel_perform.bind fun _ _ _ => parallel_perform.bind fun _ _ _ => ?_
        refine (parallel_heightSucc ancestor).bind ?_
        rintro start _ rfl
        exact parallel_pure rfl

theorem parallel_scanBlock (h : Nat) {st st' : Map OutPoint WalletId × SyncSummary}
    (hst : SameScan st st') :
    Parallel SyncOp.SameAnswer SameScan (self.scanBlock h st) (self.scanBlock h st') := by
  refine parallel_perform.bind ?_
  rintro hash _ rfl
  refine parallel_perform.bind ?_
  rintro block _ rfl
  refine parallel_perform.bind fun _ _ _ => ?_
  have hsame : (self.scanTxs h block.txdata st.1).Same (self.scanTxs h block.txdata st'.1) :=
    scanTxs_same hst.1 h block.txdata
  have hlast : SameScan
      ((self.scanTxs h block.txdata st.1).spendIndex,
        addBlock st.2 (self.scanTxs h block.txdata st.1))
      ((self.scanTxs h block.txdata st'.1).spendIndex,
        addBlock st'.2 (self.scanTxs h block.txdata st'.1)) := by
    refine ⟨hsame.spendIndex, ?_⟩
    dsimp only
    rw [addBlock, addBlock, hsame.captured, hsame.spent, hsame.skippedUnblindable, hst.2]
  dsimp only
  rw [← hsame.captured, ← hsame.spent]
  exact .skipped (.skipped (parallel_pure hlast))

theorem parallel_scanBlocks : ∀ (hs : List Nat) {st st' : Map OutPoint WalletId × SyncSummary},
    SameScan st st' →
    Parallel SyncOp.SameAnswer SameScan (self.scanBlocks hs st) (self.scanBlocks hs st')
  | [], _, _, hst => parallel_pure hst
  | h :: hs, _, _, hst => (parallel_scanBlock h hst).bind
    fun _ _ hst' => parallel_scanBlocks hs hst'

/-- A pass makes the same calls after answers it does not tell apart,
and returns the same summary. -/
theorem parallel_sync : Parallel SyncOp.SameAnswer Eq self.sync self.sync := by
  refine parallel_perform.bind ?_
  rintro tip _ rfl
  refine parallel_startHeight.bind ?_
  rintro start _ rfl
  refine (parallel_heightSucc tip).bind ?_
  rintro tipSucc _ rfl
  refine parallel_perform.bind ?_
  intro l l' hl
  have hscan : SameScan (Map.collect l, start.2) (Map.collect l', start.2) :=
    ⟨sameKeys_collect hl, rfl⟩
  refine (parallel_scanBlocks _ hscan).bind ?_
  rintro st st' ⟨-, hsummary⟩
  dsimp only
  rw [hsummary]
  refine .ite ?_ (parallel_pure rfl)
  refine parallel_perform.bind ?_
  rintro hash _ rfl
  exact parallel_perform.bind fun _ _ _ => parallel_pure rfl

end BlockScanEngine

/-! ## Implementations of the store traits -/

/-- Stores with a state `σ`: the answers each call may get, with the
state that is left, and what may be listed for a wallet. -/
structure Persistence (σ : Type) where
  answers : σ → (op : StoreOp) → Except SyncError op.Res → σ → Prop
  listUnspent : σ → WalletId → List CapturedUtxo → Prop

/-- What is kept is what the in-memory stores keep, as `Shows` says. A
failed call has no effect. -/
structure Persistence.Implements {σ : Type} (impl : Persistence σ) (Shows : σ → Stores → Prop) :
    Prop where
  answered : ∀ {s S op r s'}, Shows s S → impl.answers s op (.ok r) s' →
    op.SameAnswer r (op.exec S).1 ∧ Shows s' (op.exec S).2
  failed : ∀ {s S op e s'}, Shows s S → impl.answers s op (.error e) s' → Shows s' S
  listed : ∀ {s S id l}, Shows s S → impl.listUnspent s id l → l.Perm (S.utxos.listUnspent id)

namespace Persistence

variable {σ D : Type} [LwkDescriptor D]

/-- The calls of a pass over the stores. Those to the chain source may
fail as well. -/
def env (impl : Persistence σ) (node : MockChainSource) : Prog.Env σ SyncError SyncOp SyncOp.Res
  | s, .chain op, r, s' => s' = s ∧ (r = node.answer op ∨ ∃ e, r = .error e)
  | s, .store op, r, s' => impl.answers s op r s'

variable {impl : Persistence σ} {Shows : σ → Stores → Prop} (himpl : impl.Implements Shows)

include himpl

theorem Implements.follows (node : MockChainSource) :
    Follows SyncOp.SameAnswer Shows (impl.env node) (memEnv node fun _ => True) where
  answered {s t op r s'} hshows hcall := by
    cases op with
    | chain op =>
        obtain ⟨rfl, hanswer⟩ := hcall
        refine ⟨r, t, .inl ?_, rfl, hshows⟩
        rcases hanswer with hanswer | ⟨e, he⟩
        · rw [memStep, ← hanswer]
        · cases he
    | store op =>
        obtain ⟨hsame, hshows'⟩ := himpl.answered hshows hcall
        exact ⟨_, _, .inl rfl, hsame, hshows'⟩
  failed {s t op e s'} hshows hcall := by
    refine ⟨t, .inr ⟨trivial, rfl, e, rfl⟩, ?_⟩
    cases op with
    | chain op =>
        obtain ⟨rfl, -⟩ := hcall
        exact hshows
    | store op => exact himpl.failed hshows hcall

/-- However a pass ends over the stores, it may end so over the
in-memory ones, with the same kept. -/
theorem Implements.exec_sync {node : MockChainSource} {E : BlockScanEngine D} {s s' : σ}
    {S : Stores}
    {o : Outcome SyncError SyncSummary} (hshows : Shows s S)
    (hexec : Prog.Exec (impl.env node) E.sync s o s') :
    ∃ S', Prog.Exec (memEnv node fun _ => True) E.sync S o S' ∧ Shows s' S' := by
  obtain ⟨o', S', hexec', ho, hshows'⟩ :=
    BlockScanEngine.parallel_sync.exec (himpl.follows node) hexec hshows
  obtain rfl := ho.eq
  exact ⟨S', hexec', hshows'⟩

theorem Implements.exec_sync_ok {node : MockChainSource} {E : BlockScanEngine D} {s s' : σ}
    {S : Stores} {summary : SyncSummary} (hshows : Shows s S)
    (hexec : Prog.Exec (impl.env node) E.sync s (.ok summary) s') :
    ∃ S', Prog.Exec (memEnv node noFault) E.sync S (.ok summary) S' ∧ Shows s' S' := by
  obtain ⟨S', hexec', hshows'⟩ := himpl.exec_sync hshows hexec
  refine ⟨S', hexec'.ok_mono ?_, hshows'⟩
  rintro S op r S' (hanswer | ⟨-, -, e, he⟩)
  · exact .inl hanswer
  · cases he

end Persistence

/-! ## Runs over them -/

/-- The runs of `SyncRun`, over other stores. -/
inductive PersistedRun {σ D : Type} [LwkDescriptor D] (impl : Persistence σ)
    (Shows : σ → Stores → Prop) (C : Set (List Block)) : MockChainSource → σ → History D → Prop
  | init (node : MockChainSource) {s : σ} (hne : node.chain ≠ []) (hnode : node.chain ∈ C)
      (hempty : Shows s Stores.new) : PersistedRun impl Shows C node s []
  | event {node : MockChainSource} {s : σ} {H : History D} (ev : NodeEvent)
      (hrun : PersistedRun impl Shows C node s H) (hnode : (node.apply ev).chain ∈ C) :
      PersistedRun impl Shows C (node.apply ev) s H
  | pass {node : MockChainSource} {s s' : σ} {H : History D} (E : BlockScanEngine D)
      (summary : SyncSummary) (hrun : PersistedRun impl Shows C node s H)
      (hexec : Prog.Exec (impl.env node) E.sync s (.ok summary) s') :
      PersistedRun impl Shows C node s' (H.rescan node.chain E)

section

variable {σ D : Type} [LwkDescriptor D] {impl : Persistence σ} {Shows : σ → Stores → Prop}
  (himpl : impl.Implements Shows) {C : Set (List Block)} {node : MockChainSource} {s s' : σ}
  {H : History D} {E : BlockScanEngine D} {summary : SyncSummary}

include himpl

/-- A run over other stores is one over the in-memory stores. -/
theorem PersistedRun.syncRun (hrun : PersistedRun impl Shows C node s H) :
    ∃ S, Shows s S ∧ SyncRun C node S H := by
  induction hrun with
  | init node hne hnode hempty => exact ⟨Stores.new, hempty, .init node hne hnode⟩
  | event ev _ hnode ih =>
      obtain ⟨S, hshows, hrun⟩ := ih
      exact ⟨S, hshows, .event ev hrun hnode⟩
  | pass E summary _ hexec ih =>
      obtain ⟨S, hshows, hrun⟩ := ih
      obtain ⟨S', hexec', hshows'⟩ := himpl.exec_sync_ok hshows hexec
      exact ⟨S', hshows', .pass E summary hrun (notBelowCursor_of_exec hexec') hexec'⟩

/-- After a pass the stores list for a wallet, once each, the records of
the wallet's outputs that the chain does not spend. -/
theorem PersistedRun.listed (hid : HashesIdentify C) (hvalid : ∀ c ∈ C, ValidChain c)
    (hrun : PersistedRun impl Shows C node s H)
    (hexec : Prog.Exec (impl.env node) E.sync s (.ok summary) s') {id : WalletId}
    {l : List CapturedUtxo} (hlist : impl.listUnspent s' id l) :
    (l.map (·.outpoint)).Nodup ∧
    ∀ u, u ∈ l ↔ u.walletId = id ∧ chainSpentAt node.chain u.outpoint = none ∧
      ∃ (h : Nat) (b : Block) (scanner : BlockScanEngine D),
        (H.rescan node.chain E)[h]? = some (b, scanner) ∧ u ∈ scanner.captures h b.txdata := by
  obtain ⟨S, hshows, hmem⟩ := hrun.syncRun himpl
  obtain ⟨S', hexec', hshows'⟩ := himpl.exec_sync_ok hshows hexec
  have hinv := (hmem.inv hid hvalid).pass hid hvalid (notBelowCursor_of_exec hexec') hexec'
  have hblocks : (H.rescan node.chain E).blocks = node.chain := History.blocks_rescan ..
  have hchain : ValidChain (H.rescan node.chain E).blocks := by
    rw [hblocks]
    exact hvalid _ hinv.node_mem
  have hperm := himpl.listed hshows' hlist
  constructor
  · exact (hperm.map _).nodup_iff.mpr (S'.utxos.nodup_listUnspent id)
  · intro u
    rw [hperm.mem_iff, hinv.represents.mem_listUnspent hchain, hblocks]

end

/-- The engine does not tell stores that keep what the in-memory ones do
from these: however a pass ends over them, one over the in-memory stores
ends so, and leaves the same. After every pass of a run of passes they
list for a wallet, once each, the records of the wallet's outputs that
the chain does not spend. -/
theorem persisted_listing {σ D : Type} [LwkDescriptor D] {impl : Persistence σ}
    {Shows : σ → Stores → Prop} (himpl : impl.Implements Shows) {C : Set (List Block)}
    (hid : HashesIdentify C) (hvalid : ∀ c ∈ C, ValidChain c) :
    (∀ (node : MockChainSource) (E : BlockScanEngine D) (s s' : σ) (S : Stores)
      (o : Outcome SyncError SyncSummary), Shows s S →
      Prog.Exec (impl.env node) E.sync s o s' →
      ∃ S', Prog.Exec (memEnv node fun _ => True) E.sync S o S' ∧ Shows s' S') ∧
    ∀ (node : MockChainSource) (H : History D) (E : BlockScanEngine D) (s s' : σ)
      (summary : SyncSummary) (id : WalletId) (l : List CapturedUtxo),
      PersistedRun impl Shows C node s H →
      Prog.Exec (impl.env node) E.sync s (.ok summary) s' → impl.listUnspent s' id l →
      (l.map (·.outpoint)).Nodup ∧
      ∀ u, u ∈ l ↔ u.walletId = id ∧ chainSpentAt node.chain u.outpoint = none ∧
        ∃ (h : Nat) (b : Block) (scanner : BlockScanEngine D),
          (H.rescan node.chain E)[h]? = some (b, scanner) ∧ u ∈ scanner.captures h b.txdata := by
  constructor
  · intro node E s s' S o hshows hexec
    exact himpl.exec_sync hshows hexec
  · intro node H E s s' summary id l hrun hexec hlist
    exact hrun.listed himpl hid hvalid hexec hlist

/-! The in-memory stores with the outpoints in any order, and calls that
may fail. -/

def unreliable : Persistence Stores where
  answers S op r S' := (∃ v, r = .ok v ∧ op.SameAnswer v (op.exec S).1 ∧ S' = (op.exec S).2) ∨
    ((∃ e, r = .error e) ∧ S' = S)
  listUnspent S id l := l.Perm (S.utxos.listUnspent id)

theorem unreliable_implements : unreliable.Implements Eq where
  answered := by
    rintro S _ op r S' rfl (⟨v, hv, hsame, rfl⟩ | ⟨⟨e, he⟩, -⟩)
    · cases hv
      exact ⟨hsame, rfl⟩
    · cases he
  failed := by
    rintro S _ op e S' rfl (⟨v, hv, -⟩ | ⟨-, rfl⟩)
    · cases hv
    · rfl
  listed := by
    rintro S _ id l rfl hperm
    exact hperm

theorem unreliable_env {node : MockChainSource} {S S' : Stores} {op : SyncOp}
    {r : Except SyncError op.Res} (h : memEnv node noFault S op r S') :
    unreliable.env node S op r S' := by
  rcases h with hanswer | ⟨hfault, -⟩
  · cases op with
    | chain op =>
        cases hanswer
        exact ⟨rfl, .inl rfl⟩
    | store op =>
        cases hanswer
        exact .inl ⟨_, rfl, op.sameAnswer_refl _, rfl⟩
  · exact hfault.elim

/-- A pass over stores that do not give the cursor. -/
theorem exec_refused : Prog.Exec (unreliable.env ⟨coinBlocks⟩) plainEngine.sync Stores.new
    (.err (.store "refused")) Stores.new :=
  .answered (r := (3 : Nat)) ⟨rfl, .inl rfl⟩ (.failed (.inr ⟨⟨_, rfl⟩, rfl⟩))

theorem persisted_listing_coinBlocks :
    (∃ S', Prog.Exec (memEnv ⟨coinBlocks⟩ fun _ => True) plainEngine.sync Stores.new
      (.err (.store "refused")) S' ∧ Stores.new = S') ∧
    ((coinsSynced.utxos.listUnspent ⟨1⟩).reverse.map (·.outpoint)).Nodup ∧
      ∀ u ∈ (coinsSynced.utxos.listUnspent ⟨1⟩).reverse,
        chainSpentAt coinBlocks u.outpoint = none := by
  have hrun : PersistedRun unreliable Eq {c | c ∈ [coinBlocks]} ⟨coinBlocks⟩ Stores.new
      ([] : History PlainDescriptor) :=
    .init ⟨coinBlocks⟩ (by decide) (List.mem_singleton.mpr rfl) rfl
  obtain ⟨hmatched, hlisted⟩ := persisted_listing (D := PlainDescriptor) unreliable_implements
    hashesIdentify_coinBlocks validChain_coinBlocks
  obtain ⟨hnodup, hunspent⟩ := hlisted ⟨coinBlocks⟩ [] plainEngine Stores.new coinsSynced _ ⟨1⟩ _
    hrun (exec_coinBlocks.mono fun _ _ _ _ => unreliable_env) (List.reverse_perm _)
  refine ⟨hmatched ⟨coinBlocks⟩ plainEngine Stores.new Stores.new Stores.new _ rfl exec_refused,
    hnodup, fun u hu => ?_⟩
  exact ((hunspent u).mp hu).2.1

end EmvaultElements
