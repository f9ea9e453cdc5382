import EmvaultElements.Runs

/-!
# Failures of the reorg phase

The reorg phase of a pass (`startHeight`) writes twice: it rolls the
block store back, cursor included, and then the UTXO store. A failure
before the first write changes nothing (`failsAt_startHeight`). A
failure of the second leaves the cursor on the node's chain, so the
next pass sees no reorg and never rolls the UTXO store back. What that
costs is said exactly by `reorg_fault_recovers_iff`: nothing, if and
only if the rescan brings back everything the rollback would have
dropped (`RescanRestores`).
-/

namespace EmvaultElements

open Ledger

/-! ## Where the phase can fail -/

section

variable {node : MockChainSource} {faulty : SyncOp → Prop} {α β : Type}

theorem atCalls_callChain_bind {op : ChainOp} {v : op.Res} {f : op.Res → SyncProg β}
    {I : Stores → SyncOp → Prop} {s : Stores} (hv : node.answer op = .ok v) (hI : I s (.chain op))
    (hrest : Prog.atCalls (memEnv node noFault) (f v) I s) :
    Prog.atCalls (memEnv node noFault) (callChain op >>= f) I s := by
  refine ⟨hI, ?_⟩
  rintro v' s' (h | ⟨hf, -⟩)
  · simp only [memStep, hv, Prod.mk.injEq, Except.ok.injEq] at h
    obtain ⟨rfl, rfl⟩ := h
    exact hrest
  · exact hf.elim

theorem atCalls_callStore_bind {op : StoreOp} {f : op.Res → SyncProg β}
    {I : Stores → SyncOp → Prop} {s : Stores} (hI : I s (.store op))
    (hrest : Prog.atCalls (memEnv node noFault) (f (op.exec s).1) I (op.exec s).2) :
    Prog.atCalls (memEnv node noFault) (callStore op >>= f) I s := by
  refine ⟨hI, ?_⟩
  rintro v' s' (h | ⟨hf, -⟩)
  · simp only [memStep, Prod.mk.injEq, Except.ok.injEq] at h
    obtain ⟨rfl, rfl⟩ := h
    exact hrest
  · exact hf.elim

theorem atCalls_heightSucc {h : Nat} {f : Nat → SyncProg β} {I : Stores → SyncOp → Prop}
    {s : Stores} (hrest : Prog.atCalls (memEnv node noFault) (f (h + 1)) I s) :
    Prog.atCalls (memEnv node noFault) (heightSucc h >>= f) I s := by
  unfold heightSucc
  split
  · exact hrest
  · trivial

/-- The ancestor search makes its calls in the state it starts in, and
none of them writes. -/
theorem atCalls_findCommonAncestor {I : Stores → SyncOp → Prop} {s : Stores}
    (hstore : ∀ h, I s (.store (.blockHashAt h))) (hchain : ∀ h, I s (.chain (.blockHash h))) :
    ∀ {h : Nat}, h < node.chain.length →
      Prog.atCalls (memEnv node noFault) (BlockScanEngine.findCommonAncestor h) I s := by
  have hsame : ∀ {h : Nat}, h < node.chain.length →
      Prog.atCalls (memEnv node noFault) (BlockScanEngine.sameHashAt h) I s := by
    intro h hh
    refine atCalls_callStore_bind (hstore h) ?_
    have hexec : (StoreOp.blockHashAt h).exec s = (s.blocks.blockHashAt h, s) := rfl
    rw [hexec]
    cases s.blocks.blockHashAt h with
    | none => trivial
    | some stored =>
        have hhash : node.answer (.blockHash h) = .ok node.chain[h].blockHash :=
          MockChainSource.blockHash_eq_ok.mpr ⟨_, List.getElem?_eq_getElem hh, rfl⟩
        exact atCalls_callChain_bind hhash (hchain h) trivial
  intro h
  induction h with
  | zero =>
      intro hh
      rw [BlockScanEngine.findCommonAncestor]
      refine Prog.atCalls_bind (hsame hh) (BlockScanEngine.wp_sameHashAt hh ?_
        fun hf => hf.choose_spec.elim)
      intro same _
      cases same <;> trivial
  | succ h ih =>
      intro hh
      rw [BlockScanEngine.findCommonAncestor]
      refine Prog.atCalls_bind (hsame hh) (BlockScanEngine.wp_sameHashAt hh ?_
        fun hf => hf.choose_spec.elim)
      intro same _
      cases same with
      | true => trivial
      | false => exact ih (Nat.lt_of_succ_lt hh)

/-- The reorg phase, with the cursor block off the node's chain, fails
before it has written anything, or at the rollback of the UTXO store
with the block store already rolled back. -/
theorem failsAt_startHeight {S S₁ : Stores} {op : SyncOp} {t : SyncedTip} {b : Block}
    (htip : S.blocks.tip = some t) (hb : node.chain[t.height]? = some b)
    (hoff : b.blockHash ≠ t.hash)
    (hfail : Prog.FailsAt (memEnv node noFault) BlockScanEngine.startHeight S op S₁) :
    (S₁ = S ∧ ∀ a, op ≠ .store (.utxosRollbackAbove a)) ∨
    (op = .store (.utxosRollbackAbove (node.ancestorOf S.blocks t.height)) ∧
      S₁ = { S with blocks := S.blocks.rollbackAbove (node.ancestorOf S.blocks t.height) }) := by
  refine Prog.atCalls_sound (I := fun S₁ op =>
    (S₁ = S ∧ ∀ a, op ≠ .store (.utxosRollbackAbove a)) ∨
    (op = .store (.utxosRollbackAbove (node.ancestorOf S.blocks t.height)) ∧
      S₁ = { S with
        blocks := S.blocks.rollbackAbove (node.ancestorOf S.blocks t.height) })) ?_ hfail
  have hlt := (List.getElem?_eq_some_iff.mp hb).1
  have hread : ∀ op : ChainOp, S = S ∧ ∀ a, SyncOp.chain op ≠ .store (.utxosRollbackAbove a) :=
    fun op => ⟨rfl, fun a h => nomatch h⟩
  have hhash : node.answer (.blockHash t.height) = .ok b.blockHash :=
    MockChainSource.blockHash_eq_ok.mpr ⟨b, hb, rfl⟩
  refine atCalls_callStore_bind (.inl ⟨rfl, fun a h => nomatch h⟩) ?_
  have hexec : StoreOp.syncedTip.exec S = (some t, S) := by
    rw [← htip]
    rfl
  rw [hexec]
  refine atCalls_callChain_bind hhash (.inl (hread _)) ?_
  rw [if_neg hoff]
  refine Prog.atCalls_bind (atCalls_findCommonAncestor (fun h => .inl ⟨rfl, fun a h => nomatch h⟩)
    (fun h => .inl (hread _)) hlt) ?_
  refine BlockScanEngine.wp_findCommonAncestor (fun hf => hf.choose_spec.elim) hlt ?_
  intro ancestor hancestor
  cases hancestor
  refine atCalls_callStore_bind (.inl ⟨rfl, fun a h => nomatch h⟩) ?_
  refine atCalls_callStore_bind (.inr ⟨rfl, rfl⟩) ?_
  exact atCalls_heightSucc trivial

end

/-! ## What a later pass recovers -/

variable {D : Type} [LwkDescriptor D]

/-- A pass that fails in its start phase fails as a whole. -/
theorem exec_of_failsAt {node : MockChainSource} {E : BlockScanEngine D} {S S₁ : Stores}
    {op : SyncOp} {e : SyncError} (hne : node.chain ≠ []) (hlen : node.chain.length < UInt32.size)
    (hfail : Prog.FailsAt (memEnv node noFault) BlockScanEngine.startHeight S op S₁) :
    Prog.Exec (memEnv node (· = op)) E.sync S (.err e) S₁ := by
  have hpos := List.length_pos_iff.mpr hne
  have htip : node.answer .tipHeight = .ok (node.chain.length - 1) :=
    MockChainSource.tipHeight_eq_ok.mpr (by omega)
  have hsync : Prog.FailsAt (memEnv node noFault) E.sync S op S₁ :=
    .later (.inl (by rw [memStep, htip])) (hfail.bind _)
  refine hsync.exec ?_ (.inr ⟨rfl, rfl, e, rfl⟩)
  rintro s op' r s' (h | ⟨hf, -⟩)
  · exact .inl h
  · exact hf.elim

/-- Everything a rollback to `a` would drop, a scan of the node's chain
brings back: the records captured above `a`, with a spend if they had
one, and the spends above `a` of the other records, at the same height. -/
def RescanRestores (E : BlockScanEngine D) (node : MockChainSource) (a : Nat) (S : Stores) : Prop :=
  ∀ o e, S.utxos.entryAt o = some e →
    (a < e.utxo.height →
      (∃ (h : Nat) (b : Block), a < h ∧ node.chain[h]? = some b ∧
        o ∈ (E.captures h b.txdata).map (·.outpoint)) ∧
      (e.spentHeight.isSome → (chainSpentAt node.chain o).isSome)) ∧
    (e.utxo.height ≤ a → ∀ s, e.spentHeight = some s → a < s →
      chainSpentAt node.chain o = some s)

section

variable {E : BlockScanEngine D} {N : List Block} {p : Nat}

theorem createdFrom_isSome_iff (o : OutPoint) :
    (createdFrom p (History.batchesFrom p (History.scannedBy E (N.drop p))) o).isSome ↔
      ∃ (h : Nat) (b : Block), p ≤ h ∧ N[h]? = some b ∧
        o ∈ (E.captures h b.txdata).map (·.outpoint) := by
  have hget : ∀ i, (History.batchesFrom p (History.scannedBy E (N.drop p)))[i]? =
      N[p + i]?.map fun b => E.batchAt (p + i) b := by
    intro i
    rw [History.getElem?_batchesFrom, History.scannedBy, List.getElem?_map, List.getElem?_drop,
      Option.map_map]
    rfl
  rw [← not_iff_not, Option.not_isSome_iff_eq_none, createdFrom_eq_none]
  constructor
  · rintro hnone ⟨h, b, hph, hb, ho⟩
    obtain ⟨i, rfl⟩ := Nat.exists_eq_add_of_le hph
    have hβ := hget i
    rw [hb] at hβ
    exact BlockScanEngine.batchAt_creates_eq_none.mp (hnone _ (List.mem_of_getElem? hβ)) ho
  · intro hno β hβ
    obtain ⟨i, hi⟩ := List.mem_iff_getElem?.mp hβ
    rw [hget] at hi
    obtain ⟨b, hb, rfl⟩ := Option.map_eq_some_iff.mp hi
    refine BlockScanEngine.batchAt_creates_eq_none.mpr fun ho => ?_
    exact hno ⟨p + i, b, Nat.le_add_right _ _, hb, ho⟩

end

section

variable {C : Set (List Block)} (hid : HashesIdentify C) (hvalid : ∀ c ∈ C, ValidChain c)
  {node : MockChainSource} {S S₁ S₂ T : Stores} {H : History D} {E : BlockScanEngine D}
  (hN : node.chain ∈ C) (hH : ∃ c ∈ C, H.blocks <+: c) (hrep : Represents S H)
  (hlen : H.length ≤ node.chain.length) (hgen : 0 < fork H.blocks node.chain)
  (hoff : fork H.blocks node.chain < H.length)

include hvalid hN hH hrep hgen hoff

/-- The UTXO store after a scan from the fork that forgot the rollback,
against one that did not. -/
theorem scan_forgotten_iff :
    scanFrom (fork H.blocks node.chain) (History.batchesFrom (fork H.blocks node.chain)
        (History.scannedBy E (node.chain.drop (fork H.blocks node.chain)))) (ledger H.batches) =
      ledger (H.rescan node.chain E).batches ↔
    RescanRestores E node (fork H.blocks node.chain - 1) S := by
  obtain ⟨a, ha⟩ : ∃ a, fork H.blocks node.chain = a + 1 := Nat.exists_eq_add_one.mpr hgen
  have hlenp : (H.take (a + 1)).length = a + 1 := List.length_take_of_le (by omega)
  have hrescan : (H.rescan node.chain E).batches = H.batches.take (a + 1) ++
      History.batchesFrom (a + 1) (History.scannedBy E (node.chain.drop (a + 1))) := by
    rw [History.rescan, ha, History.batches_append, hlenp, History.batches_take]
  have hvalidH : Valid H.batches := by
    obtain ⟨c, hc, hpre⟩ := hH
    exact History.valid_batches ((hvalid c hc).sublist hpre.sublist)
  have hvalidR : Valid (H.rescan node.chain E).batches :=
    History.valid_batches (by rw [History.blocks_rescan]; exact hvalid _ hN)
  have hspent : ∀ o, spentAt (H.rescan node.chain E).batches o = chainSpentAt node.chain o := by
    intro o
    rw [History.spentAt_batches, History.blocks_rescan]
    rfl
  have hentry : ∀ o s, ledger H.batches o = some s ↔
      ∃ e, S.utxos.entryAt o = some e ∧ e.slot = s := by
    intro o s
    rw [← hrep.utxos, MemUtxoStore.view, Option.map_eq_some_iff]
  have halen : a < H.batches.length := by
    rw [History.length_batches]
    omega
  rw [hrescan] at hvalidR hspent
  rw [hrescan, ha, scanFrom_forgotten_iff halen hvalidH hvalidR, Nat.add_sub_cancel]
  simp only [hspent, createdFrom_isSome_iff]
  constructor
  · intro h o e he
    exact h o e.slot ((hentry o e.slot).mpr ⟨e, he, rfl⟩)
  · intro h o s hs
    obtain ⟨e, he, rfl⟩ := (hentry o s).mp hs
    exact h o e he

include hid hlen

/-- A pass after a forgotten rollback scans from the fork over what was
there. -/
theorem exec_forgotten {summary : SyncSummary} (hlater : Prog.Exec (memEnv node noFault) E.sync
      { S with blocks := S.blocks.rollbackAbove (fork H.blocks node.chain - 1) } (.ok summary) S₂) :
    (∃ b, node.chain.getLast? = some b ∧ node.chain.length < UInt32.size) ∧
    S₂.utxos.view = scanFrom (fork H.blocks node.chain)
      (History.batchesFrom (fork H.blocks node.chain)
        (History.scannedBy E (node.chain.drop (fork H.blocks node.chain)))) (ledger H.batches) := by
  obtain ⟨hstarted, hrolled⟩ := started_of_cursor_off hid hN hH hlen (hrep.holds E) hgen hoff
  rw [hstarted] at hrolled
  have hlenp : (H.take (fork H.blocks node.chain)).length = fork H.blocks node.chain :=
    List.length_take_of_le hoff.le
  have hpre : History.blocks (H.take (fork H.blocks node.chain)) <+: node.chain := by
    rw [History.blocks_take, take_fork]
    exact List.take_prefix _ _
  have hon : fork (History.blocks (H.take (fork H.blocks node.chain))) node.chain =
      (H.take (fork H.blocks node.chain)).length := by
    rw [fork_eq_length_iff.mpr hpre, History.length_blocks]
  have hlen₁ : (H.take (fork H.blocks node.chain)).length ≤ node.chain.length := by
    rw [hlenp]
    exact fork_le_right _ _
  -- The pass finds its cursor on the chain.
  have hstarted₁ := started_of_cursor_on
    (S := { S with blocks := S.blocks.rollbackAbove (fork H.blocks node.chain - 1) })
    hid hN ⟨node.chain, hN, hpre⟩ hlen₁ hrolled.tip hon
  have hbelow₁ : NotBelowCursor node
      { S with blocks := S.blocks.rollbackAbove (fork H.blocks node.chain - 1) } :=
    (hrolled.holds E).tip_lt hlen₁
  refine ⟨BlockScanEngine.tip_of_exec hbelow₁ hlater, ?_⟩
  have hscan := scanned_loopState (E := E) hid hN (hvalid _ hN) (List.append_nil
    (BlockScanEngine.todo node
      { S with blocks := S.blocks.rollbackAbove (fork H.blocks node.chain - 1) })).symm
  have htodo : BlockScanEngine.todo node
      { S with blocks := S.blocks.rollbackAbove (fork H.blocks node.chain - 1) } =
      node.chain.drop (fork H.blocks node.chain) := by
    rw [BlockScanEngine.todo, hstarted₁, hlenp, MockChainSource.served_eq (hid.nodup hN)]
  have hutxos := hscan.utxos
  rw [hstarted₁, hlenp, htodo] at hutxos
  rw [← hrep.utxos, ← hutxos, ← htodo]
  cases BlockScanEngine.passEnd_of_exec hbelow₁ hlater with
  | done => rfl

/-- What the pass leaves that was not interrupted. -/
theorem view_of_exec {summary : SyncSummary}
    (hexec : Prog.Exec (memEnv node noFault) E.sync S (.ok summary) T) :
    T.utxos.view = ledger (H.rescan node.chain E).batches := by
  have hleft : fork H.blocks node.chain = H.length → H.blocks ++ [] <+: node.chain :=
    fun h => absurd h hoff.ne
  rcases holds_of_exec hid hN (hvalid _ hN) hH (fun _ => hgen) hlen hleft (fun _ hf => hf)
    (hrep.holds E) hexec with ⟨-, hrepT⟩ | ⟨hno, -⟩
  · exact hrepT.utxos
  · exact absurd rfl (hno summary)

/-- The stores after a failure of the reorg phase, and what the next
pass on the same chain makes of them. The next pass recovers the state
of an uninterrupted one, unless it was the rollback of the UTXO store
that failed and the rescan does not bring back what it would have
dropped. -/
theorem reorg_fault_recovers_iff {op : SyncOp} {summary : SyncSummary} (E₀ : BlockScanEngine D)
    (hfail : Prog.FailsAt (memEnv node noFault) BlockScanEngine.startHeight S op S₁)
    (hlater : Prog.Exec (memEnv node noFault) E.sync S₁ (.ok summary) S₂) :
    (∀ e, Prog.Exec (memEnv node (· = op)) E₀.sync S (.err e) S₁) ∧
    ∃ summary' T, Prog.Exec (memEnv node noFault) E.sync S (.ok summary') T ∧
      ((∀ o, S₂.utxos.entryAt o = T.utxos.entryAt o) ↔
        ∀ a, op = .store (.utxosRollbackAbove a) → RescanRestores E node a S) := by
  have hholds := hrep.holds E
  have hbelow := hholds.tip_lt hlen
  have hnil : H ≠ [] := List.length_pos_iff.mp (by omega)
  have hne : node.chain ≠ [] := List.length_pos_iff.mp (by omega)
  obtain ⟨b₀, hb₀, hcursor⟩ := History.cursor_of_ne_nil hnil
  obtain ⟨b, hb⟩ : ∃ b, node.chain[H.length - 1]? = some b :=
    ⟨_, List.getElem?_eq_getElem (by omega)⟩
  have hdiff : b.blockHash ≠ b₀.blockHash := by
    intro heq
    have := (hid.hash_eq_iff hH hN hb₀ hb).mp heq.symm
    omega
  have hfails := failsAt_startHeight (hrep.tip.trans hcursor) hb hdiff hfail
  have hancestor := ancestorOf_eq hid hN hH hlen hholds hgen (i := H.length - 1) (by omega)
    (by omega)
  dsimp only at hfails
  rw [hancestor] at hfails
  rcases hfails with ⟨rfl, hop⟩ | ⟨rfl, rfl⟩
  · -- Nothing was written: the next pass is the uninterrupted one.
    obtain ⟨-, -, hbound⟩ := BlockScanEngine.tip_of_exec hbelow hlater
    refine ⟨fun e => exec_of_failsAt hne hbound hfail, summary, S₂, hlater, ?_⟩
    exact ⟨fun _ a ha => absurd ha (hop a), fun _ o => rfl⟩
  · -- Only the blocks were rolled back.
    obtain ⟨⟨-, -, hbound⟩, hview⟩ := exec_forgotten hid hvalid hN hH hrep hlen hgen hoff hlater
    obtain ⟨summary', T, hexecT⟩ := BlockScanEngine.exists_exec_ok E hbelow hne hbound
    refine ⟨fun e => exec_of_failsAt hne hbound hfail, summary', T, hexecT, ?_⟩
    rw [← MemUtxoStore.view_inj, hview, view_of_exec hid hvalid hN hH hrep hlen hgen hoff hexecT,
      scan_forgotten_iff hvalid hN hH hrep hgen hoff]
    constructor
    · rintro h a ha
      cases ha
      exact h
    · intro h
      exact h _ rfl

end

/-! The three blocks are synced, then reorganized away, and the rollback
of the UTXO store fails. -/

def forgottenRollback : Stores :=
  { threeBlocksSynced with blocks := threeBlocksSynced.blocks.rollbackAbove 0 }

theorem mem_reorgChains : threeBlocks ∈ {c | c ∈ reorgChains} ∧
    otherBranch.chain ∈ {c | c ∈ reorgChains} :=
  ⟨List.mem_cons_of_mem _ (List.mem_cons_self ..),
    List.mem_cons_of_mem _ (List.mem_cons_of_mem _ (List.mem_cons_self ..))⟩

theorem represents_threeBlocks :
    Represents threeBlocksSynced (History.rescan [] threeBlocks plainEngine) := by
  have hrun : SyncRun {c | c ∈ [threeBlocks]} ⟨threeBlocks⟩ threeBlocksSynced
      (History.rescan [] threeBlocks plainEngine) :=
    .pass plainEngine _ (.init ⟨threeBlocks⟩ (by decide) (List.mem_singleton.mpr rfl))
      (fun t ht => nomatch ht) exec_threeBlocks
  exact (hrun.inv hashesIdentify_threeBlocks validChain_threeBlocks).represents

theorem failsAt_forgottenRollback : Prog.FailsAt (memEnv otherBranch noFault)
    BlockScanEngine.startHeight threeBlocksSynced (.store (.utxosRollbackAbove 0))
    forgottenRollback :=
  failsAt_memStep (· == .store (.utxosRollbackAbove 0)) rfl

def forgottenRescanned : Stores :=
  (Prog.run (memStep otherBranch) plainEngine.sync forgottenRollback).2

theorem exec_forgottenRescanned : Prog.Exec (memEnv otherBranch noFault) plainEngine.sync
    forgottenRollback (.ok { blocksScanned := 2 }) forgottenRescanned := exec_memStep rfl

theorem reorg_fault_recovers_iff_otherBranch :
    ∃ summary T, Prog.Exec (memEnv otherBranch noFault) plainEngine.sync threeBlocksSynced
      (.ok summary) T ∧
      ((∀ o, forgottenRescanned.utxos.entryAt o = T.utxos.entryAt o) ↔
        ∀ a, SyncOp.store (.utxosRollbackAbove 0) = .store (.utxosRollbackAbove a) →
          RescanRestores plainEngine otherBranch a threeBlocksSynced) :=
  (reorg_fault_recovers_iff hashesIdentify_reorgChains validChain_reorgChains
    mem_reorgChains.2 ⟨threeBlocks, mem_reorgChains.1, List.prefix_refl _⟩ represents_threeBlocks
    (by decide) (by decide) (by decide) plainEngine failsAt_forgottenRollback
    exec_forgottenRescanned).2

/-- Without the condition a later pass need not recover: the payment of
the orphaned block survives. -/
theorem forgotten_rollback_survives : ¬∀ (C : Set (List Block)) (node : MockChainSource)
    (S S₁ S₂ T : Stores) (H : History PlainDescriptor) (E : BlockScanEngine PlainDescriptor)
    (op : SyncOp) (summary summary' : SyncSummary), HashesIdentify C → (∀ c ∈ C, ValidChain c) →
    node.chain ∈ C → (∃ c ∈ C, H.blocks <+: c) → Represents S H →
    H.length ≤ node.chain.length → 0 < fork H.blocks node.chain →
    fork H.blocks node.chain < H.length →
    Prog.FailsAt (memEnv node noFault) BlockScanEngine.startHeight S op S₁ →
    Prog.Exec (memEnv node noFault) E.sync S₁ (.ok summary) S₂ →
    Prog.Exec (memEnv node noFault) E.sync S (.ok summary') T →
    ∀ o, S₂.utxos.entryAt o = T.utxos.entryAt o := by
  intro hgeneral
  have hexec : Prog.Exec (memEnv otherBranch noFault) plainEngine.sync threeBlocksSynced
      (.ok { blocksScanned := 2, reorgTo := some 0 }) _ := exec_memStep rfl
  have hsame := hgeneral _ _ _ _ _ _ _ _ _ _ _ hashesIdentify_reorgChains validChain_reorgChains
    mem_reorgChains.2 ⟨threeBlocks, mem_reorgChains.1, List.prefix_refl _⟩ represents_threeBlocks
    (by decide) (by decide) (by decide)
      failsAt_forgottenRollback exec_forgottenRescanned hexec ⟨⟨100⟩, 0⟩
  have hgone : (Prog.run (memStep otherBranch) plainEngine.sync threeBlocksSynced).2.utxos.entryAt
      ⟨⟨100⟩, 0⟩ = none := rfl
  have hstays : (forgottenRescanned.utxos.entryAt ⟨⟨100⟩, 0⟩).isSome := rfl
  rw [hsame, hgone] at hstays
  cases hstays

/-! ## A node below the cursor -/

/-- The pass recovers from a reorg: it reports the highest height its
history shares with the node's chain, the cursor is at the node's tip,
and the stores hold the node's chain as a pass from empty stores would
leave it. -/
def Recovers (E : BlockScanEngine D) (node : MockChainSource) (S : Stores) (H : History D) : Prop :=
  ∃ summary S' summary' T, Prog.Exec (memEnv node noFault) E.sync S (.ok summary) S' ∧
    Prog.Exec (memEnv node noFault) E.sync Stores.new (.ok summary') T ∧
    summary.reorgTo = some (fork H.blocks node.chain - 1) ∧
    (∃ t, S'.blocks.tip = some t ∧ node.tipHeight = .ok t.height ∧
      node.blockHash t.height = .ok t.hash) ∧
    (∀ h, S'.blocks.blocks.lookup h = node.chain[h]?.map storedBlock) ∧
    ∀ o, S'.utxos.entryAt o = T.utxos.entryAt o

/-- With the node below the cursor no pass recovers, whatever the two
chains share: the cursor's height is asked of the node first, the node
has no block there, and the error ends the pass before the ancestor is
looked for. The start height is never clamped. -/
theorem not_recovers_below_cursor {node : MockChainSource} {S : Stores} {H : History D}
    (E : BlockScanEngine D) (hrep : Represents S H) (hlow : node.chain.length < H.length) :
    ¬Recovers E node S H ∧
      ∀ (faulty : SyncOp → Prop) (o : Outcome SyncError SyncSummary) (S' : Stores),
        Prog.Exec (memEnv node faulty) E.sync S o S' → S' = S ∧ ∃ e, o = .err e := by
  have hnil : H ≠ [] := List.length_pos_iff.mp (by omega)
  obtain ⟨b, -, hcursor⟩ := History.cursor_of_ne_nil hnil
  have htip := hrep.tip.trans hcursor
  have hstops : ∀ (faulty : SyncOp → Prop) (o : Outcome SyncError SyncSummary) (S' : Stores),
      Prog.Exec (memEnv node faulty) E.sync S o S' → S' = S ∧ ∃ e, o = .err e := by
    intro faulty o S' hexec
    exact BlockScanEngine.exec_below_cursor htip (by dsimp only; omega) hexec
  refine ⟨?_, hstops⟩
  rintro ⟨summary, S', -, -, hexec, -⟩
  obtain ⟨-, e, he⟩ := hstops _ _ _ hexec
  cases he

theorem not_recovers_below_cursor_genesisOnly :
    ¬Recovers plainEngine genesisOnly threeBlocksSynced
      (History.rescan [] threeBlocks plainEngine) :=
  (not_recovers_below_cursor plainEngine represents_threeBlocks (by decide)).1

/-- Recovery is not to be had for every node that shares genesis: the
three blocks are synced and the node goes back to genesis. -/
theorem shorter_node_stops_sync : ¬∀ (C : Set (List Block)) (node : MockChainSource) (S : Stores)
    (H : History PlainDescriptor) (E : BlockScanEngine PlainDescriptor), HashesIdentify C →
    (∀ c ∈ C, ValidChain c) → node.chain ∈ C → (∃ c ∈ C, H.blocks <+: c) → Represents S H →
    0 < fork H.blocks node.chain → node.chain.length < H.length → Recovers E node S H := by
  intro hgeneral
  obtain ⟨summary, S', -, -, hexec, -⟩ := hgeneral _ genesisOnly _ _ plainEngine
    hashesIdentify_reorgChains validChain_reorgChains (List.mem_cons_self ..)
    ⟨threeBlocks, mem_reorgChains.1, List.prefix_refl _⟩ represents_threeBlocks (by decide)
      (by decide)
  have hbelow : ∃ t, threeBlocksSynced.blocks.tip = some t ∧ genesisOnly.chain.length ≤ t.height :=
    ⟨{ height := 2, hash := ⟨12⟩ }, rfl, by decide⟩
  obtain ⟨t, ht, hlow⟩ := hbelow
  obtain ⟨-, e, he⟩ := BlockScanEngine.exec_below_cursor ht hlow hexec
  cases he

end EmvaultElements
