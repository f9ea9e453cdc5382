import EmvaultElements.SyncEnv
import EmvaultElements.ScanBlock

/-!
# What a pass does

The effect of one pass against a node that does not move, without the
calls: where the pass starts (`started`), what scanning one block does
to the stores and to the locals of the loop (`blockStep`), and from
these every way a pass can end (`PassEnd`): done, stopped by a fault
before or inside some block, or panicked because the chain has reached
the end of `u32`. `passEnd_of_exec` is the only place where the program
`sync` is taken apart; what a pass keeps or establishes is read off
`PassEnd`.
-/

namespace EmvaultElements

namespace MockChainSource

/-- The block served at each height: the first one that has the hash
announced for the height. -/
def served (self : MockChainSource) : List Block :=
  self.chain.map fun b => (self.chain.find? (·.blockHash == b.blockHash)).getD b

@[simp] theorem length_served (self : MockChainSource) :
    self.served.length = self.chain.length := List.length_map ..

theorem answer_served {self : MockChainSource} {h : Nat} {b : Block}
    (hb : self.served[h]? = some b) :
    self.blockHash h = .ok b.blockHash ∧ self.block b.blockHash = .ok b := by
  rw [served, List.getElem?_map] at hb
  obtain ⟨b₀, hb₀, hfind⟩ := Option.map_eq_some_iff.mp hb
  obtain ⟨b', hb'⟩ : ∃ b', self.chain.find? (·.blockHash == b₀.blockHash) = some b' :=
    Option.isSome_iff_exists.mp
      (List.find?_isSome.mpr ⟨b₀, List.mem_of_getElem? hb₀, beq_self_eq_true _⟩)
  obtain rfl : b' = b := by simpa [hb'] using hfind
  have hhash : b'.blockHash = b₀.blockHash := by simpa using List.find?_some hb'
  constructor
  · exact blockHash_eq_ok.mpr ⟨b₀, hb₀, hhash.symm⟩
  · rw [block, hhash, hb']

/-- When no two blocks share a hash, the chain itself is served. -/
theorem served_eq {self : MockChainSource} (hnodup : (self.chain.map (·.blockHash)).Nodup) :
    self.served = self.chain := by
  have hself : ∀ b ∈ self.chain,
      (self.chain.find? (·.blockHash == b.blockHash)).getD b = b := by
    intro b hb
    cases hfind : self.chain.find? (·.blockHash == b.blockHash) with
    | none => rfl
    | some b' =>
        exact List.inj_on_of_nodup_map hnodup (List.mem_of_find?_eq_some hfind) hb
          (by simpa using List.find?_some hfind)
  rw [served]
  exact (List.map_congr_left hself).trans (List.map_id _)

/-- Whether the store and the node have the same block at a height. -/
def sameAt (self : MockChainSource) (s : MemBlockStore) (h : Nat) : Bool :=
  (s.blockHashAt h).isSome && decide (s.blockHashAt h = (self.chain[h]?).map (·.blockHash))

/-- The highest height up to `h` where store and node agree, or `0`. -/
def ancestorOf (self : MockChainSource) (s : MemBlockStore) : Nat → Nat
  | 0 => 0
  | h + 1 => if self.sameAt s (h + 1) then h + 1 else self.ancestorOf s h

theorem ancestorOf_le (self : MockChainSource) (s : MemBlockStore) :
    ∀ h, self.ancestorOf s h ≤ h
  | 0 => Nat.le_refl 0
  | h + 1 => by
      have := ancestorOf_le self s h
      rw [ancestorOf]
      split <;> omega

/-- Where a pass starts scanning, the summary it starts with, and the
stores it starts from. -/
def started (self : MockChainSource) (S : Stores) : Nat × SyncSummary × Stores :=
  match S.blocks.syncedTip with
  | none => (0, {}, S)
  | some t =>
    if (self.chain[t.height]?).map (·.blockHash) = some t.hash then (t.height + 1, {}, S)
    else
      let ancestor := self.ancestorOf S.blocks t.height
      (ancestor + 1, { reorgTo := some ancestor },
        { blocks := S.blocks.rollbackAbove ancestor, utxos := S.utxos.rollbackAbove ancestor })

end MockChainSource

/-- The locals of the scan loop, together with the stores. -/
structure ScanState where
  stores : Stores
  spendIndex : Map OutPoint WalletId
  summary : SyncSummary

namespace BlockScanEngine

variable {D : Type} [LwkDescriptor D]

/-- Store and scan one block. -/
def blockStep (self : BlockScanEngine D) (h : Nat) (b : Block) (st : ScanState) : ScanState :=
  let scan := self.scanTxs h b.txdata st.spendIndex
  { stores := {
      blocks := st.stores.blocks.storeBlock h b.blockHash (serialize b)
      utxos := (st.stores.utxos.upsertUtxos scan.captured).markSpent scan.spent h }
    spendIndex := scan.spendIndex
    summary := addBlock st.summary scan }

/-- Store and scan the blocks at heights `h`, `h + 1`, … -/
def blockSteps (self : BlockScanEngine D) : Nat → List Block → ScanState → ScanState
  | _, [], st => st
  | h, b :: bs, st => self.blockSteps (h + 1) bs (self.blockStep h b st)

/-- What a scan that fails inside a block has written of it. -/
inductive PartOf (self : BlockScanEngine D) (h : Nat) (b : Block) (st : ScanState) : Stores → Prop
  | nothing : PartOf self h b st st.stores
  | stored : PartOf self h b st
      { st.stores with blocks := st.stores.blocks.storeBlock h b.blockHash (serialize b) }
  | captured : PartOf self h b st {
      blocks := st.stores.blocks.storeBlock h b.blockHash (serialize b)
      utxos := st.stores.utxos.upsertUtxos (self.scanTxs h b.txdata st.spendIndex).captured }

/-- The state of the loop once the blocks `bs` have been scanned. -/
def loopState (self : BlockScanEngine D) (node : MockChainSource) (S : Stores) (bs : List Block) :
    ScanState :=
  let (start, summary, S₁) := node.started S
  self.blockSteps start bs {
    stores := S₁, spendIndex := Map.collect S₁.utxos.unspentOutpoints, summary }

/-- The blocks a pass has to scan. -/
def todo (node : MockChainSource) (S : Stores) : List Block :=
  node.served.drop (node.started S).1

/-- Every way a pass can end. -/
inductive PassEnd (self : BlockScanEngine D) (node : MockChainSource) (faulty : SyncOp → Prop)
    (S : Stores) : Outcome SyncError SyncSummary → Stores → Prop
  | done (b : Block) (hlast : node.chain.getLast? = some b)
      (hlen : node.chain.length < UInt32.size) :
      PassEnd self node faulty S (.ok (self.loopState node S (todo node S)).summary)
        { (self.loopState node S (todo node S)).stores with
          blocks := (self.loopState node S (todo node S)).stores.blocks.setSyncedTip
            { height := node.chain.length - 1, hash := b.blockHash } }
  | untouched (e : SyncError)
    (hwhy : (∃ op, faulty op) ∨ node.chain = [] ∨ UInt32.size < node.chain.length) :
      PassEnd self node faulty S (.err e) S
  | halfRolledBack (e : SyncError) (a : Nat) (hfault : faulty (.store (.utxosRollbackAbove a))) :
      PassEnd self node faulty S (.err e) { S with blocks := S.blocks.rollbackAbove a }
  | rolledBack (e : SyncError) (hfault : ∃ op, faulty op) :
      PassEnd self node faulty S (.err e) (node.started S).2.2
  | inBlock (e : SyncError) (hfault : ∃ op, faulty op) (pre : List Block) (b : Block)
      (post : List Block) (htodo : todo node S = pre ++ b :: post) (S' : Stores)
      (hpart : self.PartOf ((node.started S).1 + pre.length) b (self.loopState node S pre) S') :
      PassEnd self node faulty S (.err e) S'
  | atCursor (e : SyncError) (hfault : ∃ op, faulty op) :
      PassEnd self node faulty S (.err e) (self.loopState node S (todo node S)).stores
  | overflow (hlen : UInt32.size ≤ node.chain.length) :
      PassEnd self node faulty S .panic (node.started S).2.2

/-! ## The loop -/

variable {self : BlockScanEngine D} {node : MockChainSource} {faulty : SyncOp → Prop}

theorem blockSteps_append (self : BlockScanEngine D) : ∀ (h : Nat) (bs bs' : List Block)
    (st : ScanState),
    self.blockSteps h (bs ++ bs') st = self.blockSteps (h + bs.length) bs' (self.blockSteps h bs st)
  | _, [], _, _ => rfl
  | h, b :: bs, bs', st => by
      rw [List.cons_append, blockSteps, blockSteps_append self (h + 1) bs bs', List.length_cons,
        Nat.add_right_comm, Nat.add_assoc, blockSteps]

theorem wp_scanBlock {h : Nat} {b : Block} (hb : node.served[h]? = some b) {st : ScanState}
    {Q : Outcome SyncError (Map OutPoint WalletId × SyncSummary) → Stores → Prop}
    (hok : Q (.ok ((self.blockStep h b st).spendIndex, (self.blockStep h b st).summary))
      (self.blockStep h b st).stores)
    (herr : (∃ op, faulty op) → ∀ e S', self.PartOf h b st S' → Q (.err e) S') :
    Prog.wp (memEnv node faulty) (self.scanBlock h (st.spendIndex, st.summary)) Q st.stores := by
  obtain ⟨hhash, hblock⟩ := MockChainSource.answer_served hb
  refine wp_callChain_bind hhash ?_ fun hf e => herr ⟨_, hf⟩ e _ .nothing
  refine wp_callChain_bind hblock ?_ fun hf e => herr ⟨_, hf⟩ e _ .nothing
  refine wp_callStore_bind ?_ fun hf e => herr ⟨_, hf⟩ e _ .nothing
  refine wp_callStore_ite ?_ ?_ fun hf e => herr ⟨_, hf⟩ e _ .stored
  · intro hnil
    rw [Decidable.of_not_not hnil]
    rfl
  · refine wp_callStore_ite ?_ hok fun hf e => herr ⟨_, hf⟩ e _ .captured
    intro hnil
    rw [Decidable.of_not_not hnil]
    rfl

theorem wp_scanBlocks {bs : List Block} :
    ∀ {h : Nat} (st : ScanState) {Q : Outcome SyncError _ → Stores → Prop},
      (∀ i b, bs[i]? = some b → node.served[h + i]? = some b) →
      Q (.ok ((self.blockSteps h bs st).spendIndex, (self.blockSteps h bs st).summary))
        (self.blockSteps h bs st).stores →
      ((∃ op, faulty op) → ∀ e pre b post S', bs = pre ++ b :: post →
        self.PartOf (h + pre.length) b (self.blockSteps h pre st) S' → Q (.err e) S') →
      Prog.wp (memEnv node faulty)
        (self.scanBlocks (List.range' h bs.length) (st.spendIndex, st.summary)) Q st.stores := by
  induction bs with
  | nil => intro h st Q _ hok _; exact hok
  | cons b bs ih =>
      intro h st Q hserved hok herr
      rw [List.length_cons, List.range'_succ, scanBlocks, Prog.wp_bind]
      refine wp_scanBlock (hserved 0 b rfl) ?_ ?_
      · refine ih (self.blockStep h b st) ?_ hok ?_
        · intro i b' hb'
          rw [Nat.add_assoc, Nat.add_comm 1]
          exact hserved (i + 1) b' hb'
        · intro hfault e pre b' post S' hsplit hpart
          refine herr hfault e (b :: pre) b' post S' (by rw [hsplit]; rfl) ?_
          rw [List.length_cons, ← Nat.add_assoc, Nat.add_right_comm]
          exact hpart
      · intro hfault e S' hpart
        exact herr hfault e [] b bs S' rfl hpart

/-! ## The start -/

theorem wp_sameHashAt {s : Stores} {h : Nat} (hh : h < node.chain.length)
    {Q : Outcome SyncError Bool → Stores → Prop} (hok : Q (.ok (node.sameAt s.blocks h)) s)
    (herr : (∃ op, faulty op) → ∀ e, Q (.err e) s) :
    Prog.wp (memEnv node faulty) (sameHashAt h) Q s := by
  refine wp_callStore_bind ?_ fun hf => herr ⟨_, hf⟩
  have hexec : (StoreOp.blockHashAt h).exec s = (s.blocks.blockHashAt h, s) := rfl
  rw [hexec]
  unfold MockChainSource.sameAt at hok
  cases hstored : s.blocks.blockHashAt h with
  | none => simpa [hstored] using hok
  | some stored =>
      obtain ⟨b, hb⟩ : ∃ b, node.chain[h]? = some b := ⟨_, List.getElem?_eq_getElem hh⟩
      have hhash : node.answer (.blockHash h) = .ok b.blockHash :=
        MockChainSource.blockHash_eq_ok.mpr ⟨b, hb, rfl⟩
      refine wp_callChain_bind hhash ?_ fun hf => herr ⟨_, hf⟩
      simpa [hstored, hb] using hok

theorem wp_findCommonAncestor {s : Stores} {Q : Outcome SyncError Nat → Stores → Prop}
    (herr : (∃ op, faulty op) → ∀ e, Q (.err e) s) :
    ∀ {h : Nat}, h < node.chain.length → Q (.ok (node.ancestorOf s.blocks h)) s →
      Prog.wp (memEnv node faulty) (findCommonAncestor h) Q s
  | 0, hh, hok => by
      rw [findCommonAncestor, Prog.wp_bind]
      refine wp_sameHashAt hh ?_ herr
      dsimp only [Prog.andThen]
      split <;> exact hok
  | h + 1, hh, hok => by
      rw [findCommonAncestor, Prog.wp_bind]
      refine wp_sameHashAt hh ?_ herr
      dsimp only [Prog.andThen]
      rw [MockChainSource.ancestorOf] at hok
      split
      · next hsame =>
          rw [if_pos hsame] at hok
          exact hok
      · next hsame =>
          rw [if_neg hsame] at hok
          exact wp_findCommonAncestor herr (Nat.lt_of_succ_lt hh) hok

theorem wp_startHeight {S : Stores}
    (htip : ∀ t, S.blocks.tip = some t → t.height < node.chain.length)
    {Q : Outcome SyncError (Nat × SyncSummary) → Stores → Prop}
    (hok : Q (.ok ((node.started S).1, (node.started S).2.1)) (node.started S).2.2)
    (herr : (∃ op, faulty op) → ∀ e, Q (.err e) S)
    (hmid : ∀ a, faulty (.store (.utxosRollbackAbove a)) → ∀ e,
      Q (.err e) { S with blocks := S.blocks.rollbackAbove a })
    (hpanic : UInt32.size ≤ (node.started S).1 → Q .panic (node.started S).2.2) :
    Prog.wp (memEnv node faulty) startHeight Q S := by
  refine wp_callStore_bind ?_ fun hf => herr ⟨_, hf⟩
  have hexec : StoreOp.syncedTip.exec S = (S.blocks.syncedTip, S) := rfl
  rw [hexec]
  unfold MockChainSource.started at hok hpanic
  cases hcursor : S.blocks.syncedTip with
  | none =>
      rw [hcursor] at hok
      exact hok
  | some t =>
      simp only [hcursor] at hok hpanic
      obtain ⟨b, hb⟩ : ∃ b, node.chain[t.height]? = some b :=
        ⟨_, List.getElem?_eq_getElem (htip t hcursor)⟩
      have hhash : node.answer (.blockHash t.height) = .ok b.blockHash :=
        MockChainSource.blockHash_eq_ok.mpr ⟨b, hb, rfl⟩
      refine wp_callChain_bind hhash ?_ fun hf => herr ⟨_, hf⟩
      simp only [hb, Option.map_some, Option.some.injEq] at hok hpanic
      dsimp only
      split
      · next hsame =>
          rw [if_pos hsame] at hok hpanic
          rw [Prog.wp_bind, wp_heightSucc]
          exact ⟨fun _ => hok, hpanic⟩
      · next hsame =>
          rw [if_neg hsame] at hok hpanic
          rw [Prog.wp_bind]
          refine wp_findCommonAncestor herr (htip t hcursor) ?_
          refine wp_callStore_bind ?_ fun hf => herr ⟨_, hf⟩
          refine wp_callStore_bind ?_ (hmid _)
          rw [Prog.wp_bind, wp_heightSucc]
          exact ⟨fun _ => hok, hpanic⟩

theorem started_le {S : Stores} (htip : ∀ t, S.blocks.tip = some t → t.height < node.chain.length) :
    (node.started S).1 ≤ node.chain.length := by
  unfold MockChainSource.started
  cases hcursor : S.blocks.syncedTip with
  | none => exact Nat.zero_le _
  | some t =>
      have hlt := htip t hcursor
      have hle := MockChainSource.ancestorOf_le node S.blocks t.height
      dsimp only
      split
      · exact hlt
      · exact Nat.lt_of_le_of_lt hle hlt

/-! ## The pass -/

/-- A pass against a node that does not move ends in one of the ways
listed, provided the node is not below the cursor. -/
theorem passEnd_of_exec {S S' : Stores} {o : Outcome SyncError SyncSummary}
    (htip : ∀ t, S.blocks.tip = some t → t.height < node.chain.length)
    (hexec : Prog.Exec (memEnv node faulty) self.sync S o S') :
    self.PassEnd node faulty S o S' := by
  refine Prog.wp_sound (Q := fun o S' => self.PassEnd node faulty S o S') ?_ hexec
  rw [sync, Prog.wp_bind, wp_callChain]
  have hle := started_le htip
  refine ⟨?_, ?_, fun hf e => .untouched e (.inl ⟨_, hf⟩)⟩
  · intro (tip : Nat) htipHeight
    obtain ⟨hlen, hbound⟩ := MockChainSource.tipHeight_eq_ok.mp htipHeight
    dsimp only [Prog.andThen]
    rw [Prog.wp_bind]
    refine wp_startHeight htip ?_ ?_ ?_ ?_
    · dsimp only [Prog.andThen]
      rw [Prog.wp_bind, wp_heightSucc]
      refine ⟨?_, fun hge => .overflow (hlen ▸ hge)⟩
      intro hlt
      have hstart : ¬tip + 1 < (node.started S).1 := Nat.not_lt.mpr (hlen ▸ hle)
      dsimp only [Prog.andThen]
      rw [if_neg hstart]
      refine wp_callStore_bind ?_ fun hf e => .rolledBack e ⟨_, hf⟩
      have hrange : tip + 1 - (node.started S).1 = (todo node S).length := by
        rw [todo, List.length_drop, MockChainSource.length_served, hlen]
      have hserved : ∀ i b, (todo node S)[i]? = some b →
          node.served[(node.started S).1 + i]? = some b := by
        intro i b hb
        rwa [todo, List.getElem?_drop] at hb
      rw [Prog.wp_bind, hrange]
      refine wp_scanBlocks ⟨(node.started S).2.2, _, _⟩ hserved ?_ ?_
      · dsimp only [Prog.andThen]
        rw [if_pos (Nat.not_lt.mp hstart)]
        obtain ⟨b, hb⟩ : ∃ b, node.chain[tip]? = some b :=
          ⟨_, List.getElem?_eq_getElem (by omega)⟩
        have hhash : node.answer (.blockHash tip) = .ok b.blockHash :=
          MockChainSource.blockHash_eq_ok.mpr ⟨b, hb, rfl⟩
        refine wp_callChain_bind hhash ?_ fun hf e => .atCursor e ⟨_, hf⟩
        refine wp_callStore_bind ?_ fun hf e => .atCursor e ⟨_, hf⟩
        obtain rfl : tip = node.chain.length - 1 := by omega
        rw [← List.getLast?_eq_getElem?] at hb
        exact .done b hb (hlen ▸ hlt)
      · intro hfault e pre b post S' hsplit hpart
        exact .inBlock e hfault pre b post hsplit S' hpart
    · intro hfault e
      exact .untouched e (.inl hfault)
    · intro a hfault e
      exact .halfRolledBack e a hfault
    · intro hge
      exact .overflow (Nat.le_trans hge hle)
  · intro e herr
    refine .untouched e (.inr ?_)
    by_contra hno
    obtain ⟨hne, hbound⟩ := not_or.mp hno
    have hpos : 0 < node.chain.length := List.length_pos_iff.mpr hne
    have hok : node.answer .tipHeight = .ok (node.chain.length - 1) :=
      MockChainSource.tipHeight_eq_ok.mpr (by omega)
    rw [hok] at herr
    cases herr

/-- With the node below the cursor a pass fails before it writes. -/
theorem exec_below_cursor {S S' : Stores} {o : Outcome SyncError SyncSummary} {t : SyncedTip}
    (htip : S.blocks.tip = some t) (hlow : node.chain.length ≤ t.height)
    (hexec : Prog.Exec (memEnv node faulty) self.sync S o S') :
    S' = S ∧ ∃ e, o = .err e := by
  refine Prog.wp_sound (Q := fun o S' => S' = S ∧ ∃ e, o = .err e) ?_ hexec
  have hstop : ∀ e : SyncError, S = S ∧
      ∃ e', (Outcome.err e : Outcome SyncError SyncSummary) = .err e' := fun e => ⟨rfl, e, rfl⟩
  rw [sync, Prog.wp_bind, wp_callChain]
  refine ⟨?_, fun e _ => hstop e, fun _ e => hstop e⟩
  intro tip _
  dsimp only [Prog.andThen]
  rw [Prog.wp_bind]
  refine wp_callStore_bind ?_ fun _ e => hstop e
  have hexec : StoreOp.syncedTip.exec S = (some t, S) := by
    rw [← htip]
    rfl
  rw [hexec]
  dsimp only
  rw [Prog.wp_bind, wp_callChain]
  refine ⟨?_, fun e _ => hstop e, fun _ e => hstop e⟩
  intro hash hhash
  obtain ⟨b, hb, -⟩ := MockChainSource.blockHash_eq_ok.mp hhash
  rw [List.getElem?_eq_none hlow] at hb
  cases hb

theorem tip_of_exec {S S' : Stores} {summary : SyncSummary}
    (htip : ∀ t, S.blocks.tip = some t → t.height < node.chain.length)
    (hexec : Prog.Exec (memEnv node faulty) self.sync S (.ok summary) S') :
    ∃ b, node.chain.getLast? = some b ∧ node.chain.length < UInt32.size := by
  cases passEnd_of_exec htip hexec with
  | done b hlast hlen => exact ⟨b, hlast, hlen⟩

/-- When nothing is faulty, a pass succeeds on every chain `u32` can
count. -/
theorem exists_exec_ok (self : BlockScanEngine D) {S : Stores}
    (htip : ∀ t, S.blocks.tip = some t → t.height < node.chain.length)
    (hne : node.chain ≠ []) (hlen : node.chain.length < UInt32.size) :
    ∃ summary S', Prog.Exec (memEnv node noFault) self.sync S (.ok summary) S' := by
  obtain ⟨o, S', hexec⟩ := Prog.exists_exec (fun s op => memEnv_total s op) self.sync S
  cases passEnd_of_exec htip hexec with
  | done b _ _ => exact ⟨_, _, hexec⟩
  | untouched e hwhy =>
      rcases hwhy with ⟨op, hf⟩ | hnil | hlong
      · exact hf.elim
      · exact absurd hnil hne
      · omega
  | halfRolledBack e a hf => exact hf.elim
  | rolledBack e hfault => exact hfault.choose_spec.elim
  | inBlock e hfault => exact hfault.choose_spec.elim
  | atCursor e hfault => exact hfault.choose_spec.elim
  | overflow hlong => omega

end BlockScanEngine

end EmvaultElements
