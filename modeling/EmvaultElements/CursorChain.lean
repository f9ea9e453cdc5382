import EmvaultElements.MovingNode
import EmvaultElements.ReorgFault

/-!
# The chain under the cursor

A pass that fails leaves blocks above the cursor, and the next one
writes over them, or rolls back among them. The blocks up to the cursor
are one linked chain all the same, in every state in which a call is
made (`linked_cursor`).

The invariant is a chain `l`, carried along with the stores: it is
stored from genesis on, it is linked, and the cursor is at its last
block (`CursorAt`). What is stored above it does not matter.
-/

namespace EmvaultElements

variable {D : Type} [LwkDescriptor D]

/-- A block hash commits to the header, and so to the parent. -/
def HashesCommit (C : Set (List Block)) : Prop :=
  ∀ N ∈ C, ∀ b ∈ N, ∀ b' ∈ N, b.blockHash = b'.blockHash → b.prevBlockhash = b'.prevBlockhash

/-- The cursor sits on a complete chain: every height up to it is
stored, its own block under its own hash, and every block above genesis
with the hash below it as its parent. -/
def LinkedCursor (s : MemBlockStore) : Prop :=
  ∀ t, s.syncedTip = some t →
    (∀ h ≤ t.height, ∃ stored, s.blocks.lookup h = some stored) ∧
    s.blockHashAt t.height = some t.hash ∧
    ∀ h < t.height, ∀ hash raw, s.blocks.lookup (h + 1) = some (hash, raw) →
      s.blockHashAt h = some raw.encoded.prevBlockhash

/-- The states reached by node events, within the chains `C`, and passes
that may stop with an error at any call. -/
inductive StoppedRun (C : Set (List Block)) (D : Type) [LwkDescriptor D] :
    MockChainSource → Stores → Prop
  | init (node : MockChainSource) (hne : node.chain ≠ []) (hnode : node.chain ∈ C) :
      StoppedRun C D node Stores.new
  | event {node : MockChainSource} {S : Stores} (ev : NodeEvent) (hrun : StoppedRun C D node S)
      (hnode : (node.apply ev).chain ∈ C) : StoppedRun C D (node.apply ev) S
  | pass {node : MockChainSource} {S S' : Stores} {faulty : SyncOp → Prop}
      {o : Outcome SyncError SyncSummary} (E : BlockScanEngine D) (hrun : StoppedRun C D node S)
      (hexec : Prog.Exec (memEnv node faulty) E.sync S o S') : StoppedRun C D node S'

/-! ## The chain -/

/-- The chain `l` is stored, is linked, and has the cursor at its end. -/
structure CursorAt (l : List Block) (s : MemBlockStore) : Prop where
  stored : ∀ (i : Nat) b, l[i]? = some b → s.blocks.lookup i = some (storedBlock b)
  tip : s.tip = l.getLast?.map fun b => { height := l.length - 1, hash := b.blockHash }
  linked : Linked l

theorem CursorAt.linkedCursor {l : List Block} {s : MemBlockStore} (h : CursorAt l s) :
    LinkedCursor s := by
  intro t ht
  obtain ⟨b, hlast, rfl⟩ := Option.map_eq_some_iff.mp (h.tip.symm.trans ht)
  rw [List.getLast?_eq_getElem?] at hlast
  have hpos := (List.getElem?_eq_some_iff.mp hlast).1
  refine ⟨?_, ?_, ?_⟩
  · intro i hi
    dsimp only at hi
    exact ⟨_, h.stored i l[i] (List.getElem?_eq_getElem (by omega))⟩
  · rw [MemBlockStore.blockHashAt, h.stored _ _ hlast]
    rfl
  · intro i hi hash raw hstored
    dsimp only at hi
    rw [h.stored (i + 1) l[i + 1] (List.getElem?_eq_getElem (by omega))] at hstored
    obtain ⟨-, rfl⟩ := Prod.mk.inj (Option.some.inj hstored)
    rw [MemBlockStore.blockHashAt, h.stored i l[i] (List.getElem?_eq_getElem (by omega))]
    exact congrArg some (List.isChain_iff_getElem.mp h.linked i (by omega)).symm

theorem cursorAt_new : CursorAt [] MemBlockStore.new where
  stored _ _ h := by cases h
  tip := rfl
  linked := .nil

/-- A write above the chain does not touch it. -/
theorem CursorAt.of_above {l : List Block} {s s' : MemBlockStore} (h : CursorAt l s)
    (hlookup : ∀ i < l.length, s'.blocks.lookup i = s.blocks.lookup i) (htip : s'.tip = s.tip) :
    CursorAt l s' where
  stored i b hb := by
    rw [hlookup i (List.getElem?_eq_some_iff.mp hb).1]
    exact h.stored i b hb
  tip := htip.trans h.tip
  linked := h.linked

/-- A rollback, to any height, keeps the chain up to it. -/
theorem CursorAt.rollbackAbove {l : List Block} {s : MemBlockStore} (h : CursorAt l s) (a : Nat) :
    CursorAt (l.take (a + 1)) (s.rollbackAbove a) := by
  refine ⟨?_, ?_, h.linked.take (a + 1)⟩
  · intro i b hb
    obtain ⟨hlen, -⟩ := List.getElem?_eq_some_iff.mp hb
    rw [List.length_take] at hlen
    rw [List.getElem?_take_of_lt (by omega)] at hb
    rw [MemBlockStore.lookup_rollbackAbove, if_pos (by omega)]
    exact h.stored i b hb
  · rcases Nat.lt_or_ge (a + 1) l.length with hlt | hge
    · -- The cursor moves down to the highest block that remains, at `a`.
      have hb : l[a]? = some l[a] := List.getElem?_eq_getElem (by omega)
      have htip : s.tip = some { height := l.length - 1, hash := l[l.length - 1].blockHash } := by
        rw [h.tip, List.getLast?_eq_getElem?, List.getElem?_eq_getElem (by omega)]
        rfl
      rw [MemBlockStore.tip_rollbackAbove htip (by dsimp only; omega) (h.stored a l[a] hb),
        List.getLast?_eq_getElem?, List.length_take, Nat.min_eq_left (by omega),
        Nat.add_sub_cancel, List.getElem?_take_of_lt (Nat.lt_succ_self a), hb]
      rfl
    · rw [List.take_of_length_le hge, ← h.tip]
      refine MemBlockStore.tip_rollbackAbove_of_le ?_
      intro t ht
      obtain ⟨b, -, rfl⟩ := Option.map_eq_some_iff.mp (h.tip.symm.trans ht)
      dsimp only
      omega

/-! ## The node -/

section Node

variable {C : Set (List Block)} {node : MockChainSource}

theorem getElem?_served_hash (node : MockChainSource) (h : Nat) :
    (node.served[h]?).map (·.blockHash) = (node.chain[h]?).map (·.blockHash) := by
  cases hb : node.served[h]? with
  | none =>
      rw [List.getElem?_eq_none_iff, MockChainSource.length_served] at hb
      rw [List.getElem?_eq_none hb]
  | some b =>
      obtain ⟨b', hb', hhash⟩ :=
        MockChainSource.blockHash_eq_ok.mp (MockChainSource.answer_served hb).1
      rw [hb', Option.map_some, Option.map_some, hhash]

/-- The blocks a node serves are linked when its chain is: a block that
is served in another's place has the same hash, and the same parent. -/
theorem linked_served (hlinked : ∀ N ∈ C, Linked N) (hcommit : HashesCommit C)
    (hnode : node.chain ∈ C) : Linked node.served := by
  refine List.isChain_iff_getElem.mpr ?_
  intro i hi
  have hlen := node.length_served
  have hserved : ∀ j (hj : j < node.served.length) (hj' : j < node.chain.length),
      node.served[j] ∈ node.chain ∧ node.served[j].blockHash = node.chain[j].blockHash := by
    intro j hj hj'
    obtain ⟨hhash, hblock⟩ := MockChainSource.answer_served (List.getElem?_eq_getElem hj)
    obtain ⟨b, hb, heq⟩ := MockChainSource.blockHash_eq_ok.mp hhash
    obtain ⟨_, rfl⟩ := List.getElem?_eq_some_iff.mp hb
    exact ⟨(MockChainSource.block_eq_ok hblock).1, heq.symm⟩
  obtain ⟨hmem, hhash⟩ := hserved (i + 1) hi (hlen ▸ hi)
  rw [hcommit _ hnode _ hmem _ (List.getElem_mem _) hhash, (hserved i (by omega) (by omega)).2]
  exact List.isChain_iff_getElem.mp (hlinked _ hnode) i (by omega)

/-- The chain `l` ends at a block of the node, or is empty. -/
def EndsOn (node : MockChainSource) (l : List Block) : Prop :=
  ∀ b, l.getLast? = some b → (node.chain[l.length - 1]?).map (·.blockHash) = some b.blockHash

/-- The chain `l` starts with the node's genesis, or is empty. -/
def StartsWith (node : MockChainSource) (l : List Block) : Prop :=
  ∀ b, l.head? = some b → (node.chain.head?).map (·.blockHash) = some b.blockHash

theorem StartsWith.of_prefix {l l' : List Block} (h : StartsWith node l) (hpre : l' <+: l) :
    StartsWith node l' := by
  intro b hb
  refine h b ?_
  obtain ⟨rest, rfl⟩ := hpre
  rw [List.head?_append, hb]
  rfl

/-- The ancestor search stops at genesis or where the hashes agree. -/
theorem ancestorOf_spec (node : MockChainSource) (s : MemBlockStore) :
    ∀ h, node.ancestorOf s h = 0 ∨ node.sameAt s (node.ancestorOf s h) = true
  | 0 => .inl rfl
  | h + 1 => by
      rw [MockChainSource.ancestorOf]
      split
      · next hsame => exact .inr hsame
      · exact ancestorOf_spec node s h

/-- A pass starts right above a chain with the cursor at its end, whose
last block is the node's. -/
theorem cursorAt_started {S : Stores} {l : List Block} (h : CursorAt l S.blocks)
    (hgen : StartsWith node l) (hbelow : NotBelowCursor node S) :
    ∃ l₁, l₁ <+: l ∧ CursorAt l₁ (node.started S).2.2.blocks ∧
      (node.started S).1 = l₁.length ∧ EndsOn node l₁ := by
  unfold MockChainSource.started
  rw [MemBlockStore.syncedTip]
  cases hlast : l.getLast? with
  | none =>
      obtain rfl := List.getLast?_eq_none_iff.mp hlast
      have htip : S.blocks.tip = none := h.tip
      rw [htip]
      exact ⟨[], List.nil_prefix, h, rfl, by intro b hb; cases hb⟩
  | some b =>
      have htip : S.blocks.tip = some { height := l.length - 1, hash := b.blockHash } := by
        rw [h.tip, hlast]
        rfl
      have hlt := hbelow _ htip
      rw [List.getLast?_eq_getElem?] at hlast
      have hpos := (List.getElem?_eq_some_iff.mp hlast).1
      rw [htip]
      dsimp only at hlt ⊢
      split
      · next hon =>
          refine ⟨l, List.prefix_refl l, h, by dsimp only; omega, ?_⟩
          intro b' hb'
          rw [List.getLast?_eq_getElem?, hlast] at hb'
          cases hb'
          exact hon
      · have hle := node.ancestorOf_le S.blocks (l.length - 1)
        refine ⟨_, List.take_prefix _ _, h.rollbackAbove _, ?_, ?_⟩
        · rw [List.length_take]
          dsimp only
          omega
        · intro b' hb'
          rw [List.getLast?_eq_getElem?, List.length_take, Nat.min_eq_left (by omega),
            Nat.add_sub_cancel, List.getElem?_take_of_lt (Nat.lt_succ_self _)] at hb'
          rw [List.length_take, Nat.min_eq_left (by omega), Nat.add_sub_cancel]
          rcases ancestorOf_spec node S.blocks (l.length - 1) with hzero | hsame
          · rw [hzero] at hb' ⊢
            rw [← List.head?_eq_getElem?] at hb' ⊢
            exact hgen b' hb'
          · simp only [MockChainSource.sameAt, MemBlockStore.blockHashAt, h.stored _ _ hb',
              storedBlock, Option.map_some, Option.isSome_some, Bool.true_and,
              decide_eq_true_eq] at hsame
            exact hsame.symm

/-! A chain that ends on the node's, continued by what the node serves. -/

theorem getElem?_append_served {l : List Block} {i : Nat} (hi : l.length ≤ i) :
    (l ++ node.served.drop l.length)[i]? = node.served[i]? := by
  rw [List.getElem?_append_right hi, List.getElem?_drop, Nat.add_sub_cancel' hi]

theorem EndsOn.append_served {l : List Block} (h : EndsOn node l) :
    EndsOn node (l ++ node.served.drop l.length) := by
  by_cases hnil : node.served.drop l.length = []
  · rw [hnil, List.append_nil]
    exact h
  · intro b hb
    have hpos := List.length_pos_iff.mpr hnil
    rw [List.getLast?_eq_getElem?, getElem?_append_served (by rw [List.length_append]; omega)] at hb
    rw [← getElem?_served_hash, hb]
    rfl

theorem StartsWith.append_served {l : List Block} (h : StartsWith node l) :
    StartsWith node (l ++ node.served.drop l.length) := by
  cases l with
  | nil =>
      intro b hb
      have hhash := getElem?_served_hash node 0
      rw [List.nil_append, List.length_nil, List.drop_zero, List.head?_eq_getElem?] at hb
      rw [hb, ← List.head?_eq_getElem?] at hhash
      exact hhash.symm
  | cons b l => exact fun b' hb' => h b' hb'

theorem linked_append_served {l : List Block} (hserved : Linked node.served) (hl : Linked l)
    (hends : EndsOn node l) : Linked (l ++ node.served.drop l.length) := by
  refine List.isChain_append.mpr ⟨hl, hserved.drop _, ?_⟩
  intro x hx y hy
  rw [List.head?_drop] at hy
  have hpos : 0 < l.length := List.length_pos_iff.mpr fun hnil => by simp [hnil] at hx
  obtain ⟨hlt, rfl⟩ := List.getElem?_eq_some_iff.mp hy
  have hparent := List.isChain_iff_getElem.mp hserved (l.length - 1) (by omega)
  have hhash := getElem?_served_hash node (l.length - 1)
  rw [hends x hx, List.getElem?_eq_getElem (by omega)] at hhash
  simp only [Nat.sub_add_cancel hpos] at hparent
  rw [hparent]
  exact Option.some.inj hhash

end Node

/-! ## The pass -/

section Pass

variable {C : Set (List Block)} {node : MockChainSource} {faulty : SyncOp → Prop}
  {E : BlockScanEngine D} {S S' : Stores} {l : List Block}

/-- The loop writes its blocks from its start on. -/
theorem lookup_loopState (E : BlockScanEngine D) (node : MockChainSource) (S : Stores)
    (bs : List Block) (i : Nat) :
    (E.loopState node S bs).stores.blocks.blocks.lookup i =
      if (node.started S).1 ≤ i ∧ i < (node.started S).1 + bs.length then
        bs[i - (node.started S).1]?.map storedBlock
      else (node.started S).2.2.blocks.blocks.lookup i :=
  lookup_blockSteps E _ i

theorem cursorAt_loopState (E : BlockScanEngine D) (bs : List Block)
    (h : CursorAt l (node.started S).2.2.blocks) (hstart : (node.started S).1 = l.length) :
    CursorAt l (E.loopState node S bs).stores.blocks := by
  refine h.of_above ?_ (tip_blockSteps E _)
  intro i hi
  rw [lookup_loopState, if_neg (by omega)]

/-- A complete pass puts the cursor at the end of what it has scanned. -/
theorem cursorAt_done (hserved : Linked node.served)
    (h : CursorAt l (node.started S).2.2.blocks) (hstart : (node.started S).1 = l.length)
    (hends : EndsOn node l) (hle : l.length ≤ node.chain.length) {b : Block}
    (hlast : node.chain.getLast? = some b) :
    CursorAt (l ++ node.served.drop l.length)
      ((E.loopState node S (BlockScanEngine.todo node S)).stores.blocks.setSyncedTip
        { height := node.chain.length - 1, hash := b.blockHash }) := by
  have htodo : BlockScanEngine.todo node S = node.served.drop l.length := by
    rw [BlockScanEngine.todo, hstart]
  have hlen : (l ++ node.served.drop l.length).length = node.chain.length := by
    rw [List.length_append, List.length_drop, MockChainSource.length_served]
    omega
  refine ⟨?_, ?_, linked_append_served hserved h.linked hends⟩
  · intro i b hb
    rcases Nat.lt_or_ge i l.length with hi | hi
    · rw [List.getElem?_append_left hi] at hb
      exact (cursorAt_loopState E _ h hstart).stored i b hb
    · have hlt := (List.getElem?_eq_some_iff.mp hb).1
      rw [List.length_append, ← htodo] at hlt
      rw [List.getElem?_append_right hi, ← htodo] at hb
      have hlookup := lookup_loopState E node S (BlockScanEngine.todo node S) i
      rw [hstart, if_pos ⟨hi, hlt⟩, hb] at hlookup
      exact hlookup
  · obtain ⟨b', hb'⟩ : ∃ b', (l ++ node.served.drop l.length).getLast? = some b' := by
      have hpos := (List.getElem?_eq_some_iff.mp (List.getLast?_eq_getElem? ▸ hlast)).1
      exact ⟨_, List.getLast?_eq_some_getLast (List.length_pos_iff.mp (by omega))⟩
    have hhash := hends.append_served b' hb'
    rw [hlen, ← List.getLast?_eq_getElem?, hlast] at hhash
    rw [hb', hlen, Option.map_some, ← Option.some.inj hhash]
    rfl

/-- However a pass ends, and wherever it stops, the cursor is at the end
of a linked chain from the node's genesis on. -/
theorem CursorAt.exec (hlinked : ∀ N ∈ C, Linked N) (hcommit : HashesCommit C)
    (hnode : node.chain ∈ C) (h : CursorAt l S.blocks) (hgen : StartsWith node l)
    {o : Outcome SyncError SyncSummary} (hexec : Prog.Exec (memEnv node faulty) E.sync S o S') :
    ∃ l', CursorAt l' S'.blocks ∧ StartsWith node l' := by
  by_cases hbelow : NotBelowCursor node S
  · obtain ⟨l₁, hpre, h₁, hstart, hends⟩ := cursorAt_started h hgen hbelow
    have hgen₁ : StartsWith node l₁ := hgen.of_prefix hpre
    have hloop : ∀ bs, CursorAt l₁ (E.loopState node S bs).stores.blocks :=
      fun bs => cursorAt_loopState E bs h₁ hstart
    cases BlockScanEngine.passEnd_of_exec hbelow hexec with
    | untouched e _ => exact ⟨l, h, hgen⟩
    | halfRolledBack e a _ =>
        exact ⟨l.take (a + 1), h.rollbackAbove a, hgen.of_prefix (List.take_prefix _ _)⟩
    | rolledBack e _ => exact ⟨l₁, h₁, hgen₁⟩
    | overflow _ => exact ⟨l₁, h₁, hgen₁⟩
    | atCursor e _ => exact ⟨l₁, hloop _, hgen₁⟩
    | inBlock e _ pre b post _ S' hpart =>
        have hstored : CursorAt l₁ ((E.loopState node S pre).stores.blocks.storeBlock
            ((node.started S).1 + pre.length) b.blockHash (serialize b)) := by
          refine (hloop pre).of_above ?_ rfl
          intro i hi
          rw [MemBlockStore.lookup_storeBlock, if_neg (by omega)]
        refine ⟨l₁, ?_, hgen₁⟩
        cases hpart with
        | nothing => exact hloop pre
        | stored => exact hstored
        | captured => exact hstored
    | done b hlast _ =>
        have hle : l₁.length ≤ node.chain.length := hstart ▸ BlockScanEngine.started_le hbelow
        exact ⟨_, cursorAt_done (linked_served hlinked hcommit hnode) h₁ hstart hends hle hlast,
          hgen₁.append_served⟩
  · -- The node is below the cursor: nothing is written.
    obtain ⟨t, ht, hlow⟩ : ∃ t, S.blocks.tip = some t ∧ node.chain.length ≤ t.height := by
      simpa [NotBelowCursor] using hbelow
    obtain ⟨rfl, -⟩ := BlockScanEngine.exec_below_cursor ht hlow hexec
    exact ⟨l, h, hgen⟩

end Pass

/-! ## The run -/

section Run

variable {C : Set (List Block)} (hlinked : ∀ N ∈ C, Linked N) (hcommit : HashesCommit C)
  {node : MockChainSource} {S : Stores}

include hlinked hcommit

theorem StoppedRun.cursorAt (hrun : StoppedRun C D node S) : node.chain ∈ C ∧ node.chain ≠ [] ∧
    ∃ l, CursorAt l S.blocks ∧ StartsWith node l := by
  induction hrun with
  | init node hne hnode => exact ⟨hnode, hne, [], cursorAt_new, by intro b hb; cases hb⟩
  | event ev _ hnode ih =>
      obtain ⟨-, hne, l, hl, hgen⟩ := ih
      have hhead := MockChainSource.head?_apply (List.head?_eq_some_head hne) ev
      refine ⟨hnode, ?_, l, hl, ?_⟩
      · intro hnil
        rw [hnil] at hhead
        cases hhead
      · intro b hb
        rw [hhead, ← List.head?_eq_some_head hne]
        exact hgen b hb
  | pass E _ hexec ih =>
      obtain ⟨hnode, hne, l, hl, hgen⟩ := ih
      exact ⟨hnode, hne, hl.exec hlinked hcommit hnode hgen hexec⟩

/-- The cursor always sits on a complete linked chain: in every state a
run reaches, and in every state in which a pass from there makes a call,
whatever is stored above the cursor. -/
theorem linked_cursor (hrun : StoppedRun C D node S) : LinkedCursor S.blocks ∧
    ∀ (E : BlockScanEngine D) (faulty : SyncOp → Prop) (op : SyncOp) (S' : Stores),
      Prog.FailsAt (memEnv node faulty) E.sync S op S' → LinkedCursor S'.blocks := by
  obtain ⟨hnode, -, l, hl, hgen⟩ := hrun.cursorAt hlinked hcommit
  refine ⟨hl.linkedCursor, ?_⟩
  intro E faulty op S' hfail
  -- The pass may stop here: then this is the state it leaves.
  have hexec : Prog.Exec (memEnv node fun _ => True) E.sync S (.err op.unavailable) S' := by
    refine hfail.exec ?_ (.inr ⟨trivial, rfl, _, rfl⟩)
    rintro s op' r s' (h | ⟨-, h⟩)
    · exact .inl h
    · exact .inr ⟨trivial, h⟩
  obtain ⟨l', hl', -⟩ := hl.exec hlinked hcommit hnode hgen hexec
  exact hl'.linkedCursor

end Run

/-- A reorg pass stopped at the write of the cursor: the blocks of the
new branch are stored above it. -/
def stoppedAtCursor : Option (SyncOp × Stores) :=
  Prog.runUntil (memStep otherBranch)
    (fun op => op == .store (.setSyncedTip { height := 2, hash := ⟨22⟩ }))
    plainEngine.sync threeBlocksSynced

theorem linked_cursor_stoppedAtCursor : ∃ op S, stoppedAtCursor = some (op, S) ∧
    S.blocks.syncedTip = some { height := 0, hash := ⟨10⟩ } ∧
    S.blocks.blockHashAt 2 = some ⟨22⟩ ∧ LinkedCursor S.blocks := by
  have hlinked : ∀ N ∈ {N | N ∈ reorgChains}, Linked N := by
    have hall : ∀ N ∈ reorgChains, Linked N := by decide
    exact hall
  have hcommit : HashesCommit {N | N ∈ reorgChains} := by
    have hall : ∀ N ∈ reorgChains, ∀ b ∈ N, ∀ b' ∈ N,
        b.blockHash = b'.blockHash → b.prevBlockhash = b'.prevBlockhash := by decide
    exact hall
  have hrun : StoppedRun {N | N ∈ reorgChains} PlainDescriptor ⟨threeBlocks⟩ threeBlocksSynced :=
    .pass plainEngine (.init ⟨threeBlocks⟩ (by decide) mem_reorgChains.1) exec_threeBlocks
  have hreorg : StoppedRun {N | N ∈ reorgChains} PlainDescriptor otherBranch threeBlocksSynced :=
    .event (.reorg 0 (otherBranch.chain.drop 1)) hrun mem_reorgChains.2
  obtain ⟨op, S, hstop⟩ : ∃ op S, stoppedAtCursor = some (op, S) := ⟨_, _, rfl⟩
  refine ⟨op, S, hstop, ?_, ?_, ?_⟩
  · cases hstop
    rfl
  · cases hstop
    rfl
  · exact (linked_cursor hlinked hcommit hreorg).2 plainEngine noFault op S
      (failsAt_memStep _ hstop)

end EmvaultElements
