import EmvaultElements.Runs

/-!
# Interrupted passes

What passes that fail leave behind, and what a later pass makes of it.

- `Retries`: passes that fail one after the other while the node's
  chain grows. The first one that succeeds leaves what an uninterrupted
  pass would have left (`resumes_uninterrupted`).
- `FaultyRun`: runs in which chain-source calls fail and the node also
  reorganizes. A failed pass leaves blocks and records above the cursor,
  and only the cursor block is compared with the node: as long as no
  pass meets leftovers that left the chain under a cursor that stayed
  on it (`LeftoversOnChain`), no record is a phantom
  (`no_phantom_of_leftovers`).
-/

namespace EmvaultElements

variable {D : Type} [LwkDescriptor D]

/-! ## Retries -/

/-- From the node and the stores given first to those given last: the
node's chain grows, and passes of `E` fail. Any call may fail, save the
rollback of the UTXO store. -/
inductive Retries (C : Set (List Block)) (E : BlockScanEngine D) (node₀ : MockChainSource)
    (S₀ : Stores) : MockChainSource → Stores → Prop
  | start : Retries C E node₀ S₀ node₀ S₀
  | grow {node : MockChainSource} {S : Stores} (blocks : List Block)
      (h : Retries C E node₀ S₀ node S) (hnode : (node.pushBlocks blocks).chain ∈ C) :
      Retries C E node₀ S₀ (node.pushBlocks blocks) S
  | failed {node : MockChainSource} {S S' : Stores} {faulty : SyncOp → Prop} {e : SyncError}
      (h : Retries C E node₀ S₀ node S)
      (hfault : ∀ a, ¬faulty (.store (.utxosRollbackAbove a)))
      (hexec : Prog.Exec (memEnv node faulty) E.sync S (.err e) S') :
      Retries C E node₀ S₀ node S'

section

variable {C : Set (List Block)} (hid : HashesIdentify C) (hvalid : ∀ c ∈ C, ValidChain c)
  {E : BlockScanEngine D} {node₀ node : MockChainSource} {S₀ S : Stores} {H : History D}

/-- What retries keep: the chain extends the first one, and the stores
are untouched or hold the history below the fork and leftovers on the
chain. -/
structure Retries.Inv (C : Set (List Block)) (E : BlockScanEngine D) (node₀ : MockChainSource)
    (S₀ : Stores) (H : History D) (node : MockChainSource) (S : Stores) : Prop where
  node_mem : node.chain ∈ C
  grown : node₀.chain <+: node.chain
  stores : S = S₀ ∨ H.length ≤ node.chain.length ∧
    ∃ W, Holds E S (H.take (fork H.blocks node.chain)) W ∧
      History.blocks (H.take (fork H.blocks node.chain)) ++ W <+: node.chain

include hid hvalid

variable (hH : ∃ c ∈ C, H.blocks <+: c)
  (hgen : ∃ g, node₀.chain.head? = some g ∧ (H ≠ [] → H.blocks.head? = some g))
  (hrep : Represents S₀ H)

include hH hgen hrep

/-- A pass from stores that retries have left. -/
theorem Retries.Inv.exec {faulty : SyncOp → Prop} {o : Outcome SyncError SyncSummary} {S' : Stores}
    (hinv : Retries.Inv C E node₀ S₀ H node S)
    (hfault : ∀ a, ¬faulty (.store (.utxosRollbackAbove a)))
    (hexec : Prog.Exec (memEnv node faulty) E.sync S o S') :
    ((∃ summary, o = .ok summary) ∧ H.length ≤ node.chain.length ∧
      Represents S' (H.rescan node.chain E)) ∨
    ((∀ summary, o ≠ .ok summary) ∧ Retries.Inv C E node₀ S₀ H node S') := by
  obtain ⟨hnode, hgrown, hstores⟩ := hinv
  rcases hstores with rfl | ⟨hlen, W, hholds, hW⟩
  · by_cases hlen : H.length ≤ node.chain.length
    · obtain ⟨g, hg, hgH⟩ := hgen
      have hg' : node.chain.head? = some g := by
        obtain ⟨rest, hrest⟩ := hgrown
        rw [← hrest, List.head?_append, hg]
        rfl
      have hleft : fork H.blocks node.chain = H.length → H.blocks ++ [] <+: node.chain := by
        intro hon
        rw [List.append_nil]
        exact fork_eq_length_iff.mp (by simpa using hon)
      rcases holds_of_exec hid hnode (hvalid _ hnode) hH (fun hne => fork_pos (hgH hne) hg') hlen
        hleft hfault (hrep.holds E) hexec with ⟨hok, hrep'⟩ | ⟨hno, hsame | hleft'⟩
      · exact .inl ⟨hok, hlen, hrep'⟩
      · exact .inr ⟨hno, hnode, hgrown, .inl hsame⟩
      · exact .inr ⟨hno, hnode, hgrown, .inr ⟨hlen, hleft'⟩⟩
    · have hnil : H ≠ [] := by
        rintro rfl
        exact hlen (Nat.zero_le _)
      obtain ⟨b, -, hcursor⟩ := History.cursor_of_ne_nil hnil
      obtain ⟨hsame, e, rfl⟩ := BlockScanEngine.exec_below_cursor (hrep.tip.trans hcursor)
        (by dsimp only; omega) hexec
      exact .inr ⟨by simp, hnode, hgrown, .inl hsame⟩
  · -- The history below the fork is on the node's chain.
    obtain ⟨H₁, hH₁⟩ : ∃ H₁ : History D, H₁ = H.take (fork H.blocks node.chain) := ⟨_, rfl⟩
    rw [← hH₁] at hholds hW
    have hlen₁ : H₁.length = fork H.blocks node.chain := by
      have := fork_le_left H.blocks node.chain
      simp only [History.length_blocks] at this
      rw [hH₁, List.length_take]
      omega
    have hpre : H₁.blocks <+: node.chain := (List.prefix_append _ _).trans hW
    have hrescan : H₁.rescan node.chain E = H.rescan node.chain E := by
      rw [History.rescan, fork_eq_length_iff.mpr hpre, History.length_blocks, List.take_length,
        hlen₁, hH₁, History.rescan]
    rcases holds_of_exec_on hid hnode (hvalid _ hnode) hW hfault hholds hexec
      with ⟨hok, hrep'⟩ | ⟨hno, hleft⟩
    · rw [hrescan] at hrep'
      exact .inl ⟨hok, hlen, hrep'⟩
    · exact .inr ⟨hno, hnode, hgrown, .inr ⟨hlen, hH₁ ▸ hleft⟩⟩

theorem Retries.inv (hnode : node₀.chain ∈ C) (h : Retries C E node₀ S₀ node S) :
    Retries.Inv C E node₀ S₀ H node S := by
  induction h with
  | start => exact ⟨hnode, List.prefix_refl _, .inl rfl⟩
  | @grow node S blocks _ hnode' ih =>
      obtain ⟨-, hgrown, hstores⟩ := ih
      have hext : node.chain <+: (node.pushBlocks blocks).chain := by
        rw [MockChainSource.chain_pushBlocks]
        exact List.prefix_append _ _
      refine ⟨hnode', hgrown.trans hext, ?_⟩
      rcases hstores with hsame | ⟨hlen, W, hholds, hW⟩
      · exact .inl hsame
      · have hfork : fork H.blocks (node.pushBlocks blocks).chain = fork H.blocks node.chain :=
          fork_prefix_right (by simpa using hlen) hext
        rw [hfork]
        exact .inr ⟨Nat.le_trans hlen hext.length_le, W, hholds, hW.trans hext⟩
  | failed _ hfault hexec ih =>
      rcases ih.exec hid hvalid hH hgen hrep hfault hexec with ⟨⟨summary, hok⟩, -⟩ | ⟨-, hinv⟩
      · cases hok
      · exact hinv

/-- An interrupted scan resumes. After any number of failed passes, the
first that succeeds leaves the blocks, the cursor and the entries that
one uninterrupted pass over the same chain leaves. -/
theorem resumes_uninterrupted (hnode : node₀.chain ∈ C) (hretries : Retries C E node₀ S₀ node S)
    {faulty : SyncOp → Prop} (hfault : ∀ a, ¬faulty (.store (.utxosRollbackAbove a)))
    {summary : SyncSummary} {S' : Stores}
    (hexec : Prog.Exec (memEnv node faulty) E.sync S (.ok summary) S') :
    ∃ summary' T, Prog.Exec (memEnv node noFault) E.sync S₀ (.ok summary') T ∧
      (∀ h, S'.blocks.blocks.lookup h = T.blocks.blocks.lookup h) ∧
      S'.blocks.tip = T.blocks.tip ∧ ∀ o, S'.utxos.entryAt o = T.utxos.entryAt o := by
  have hinv := hretries.inv hid hvalid hH hgen hrep hnode
  obtain ⟨hlen, hrepS⟩ : H.length ≤ node.chain.length ∧ Represents S' (H.rescan node.chain E) := by
    rcases hinv.exec hid hvalid hH hgen hrep hfault hexec with ⟨-, hok⟩ | ⟨hno, -⟩
    · exact hok
    · exact absurd rfl (hno summary)
  have hbelow₀ := (hrep.holds E).tip_lt hlen
  have hbelow : ∀ t, S.blocks.tip = some t → t.height < node.chain.length := by
    rcases hinv.stores with rfl | ⟨-, W, hholds, -⟩
    · exact hbelow₀
    · refine hholds.tip_lt ?_
      rw [List.length_take]
      omega
  obtain ⟨b, hlast, hbound⟩ := BlockScanEngine.tip_of_exec hbelow hexec
  have hne : node.chain ≠ [] := by
    intro hnil
    rw [hnil] at hlast
    cases hlast
  obtain ⟨summary', T, hexecT⟩ := BlockScanEngine.exists_exec_ok E hbelow₀ hne hbound
  have huntouched : Retries.Inv C E node₀ S₀ H node S₀ := ⟨hinv.node_mem, hinv.grown, .inl rfl⟩
  have hrepT : Represents T (H.rescan node.chain E) := by
    rcases huntouched.exec hid hvalid hH hgen hrep (fun _ hf => hf) hexecT with ⟨-, -, hrep'⟩
      | ⟨hno, -⟩
    · exact hrep'
    · exact absurd rfl (hno summary')
  exact ⟨summary', T, hexecT, hrepS.agree hrepT⟩

end

/-- The pass over three blocks, stopped at the write of the spend. -/
def stoppedAtSpend : Stores :=
  (Prog.run (failStep ⟨threeBlocks⟩ (· == .store (.markSpent [⟨⟨100⟩, 0⟩] 2))) plainEngine.sync
    Stores.new).2

theorem exec_stoppedAtSpend :
    Prog.Exec (memEnv ⟨threeBlocks⟩ (· = .store (.markSpent [⟨⟨100⟩, 0⟩] 2))) plainEngine.sync
      Stores.new (.err (.store "unavailable")) stoppedAtSpend :=
  exec_failStep (fun op h => by simpa using h) rfl

def resumedAfterStop : Stores :=
  (Prog.run (memStep ⟨threeBlocks⟩) plainEngine.sync stoppedAtSpend).2

theorem exec_resumedAfterStop :
    Prog.Exec (memEnv ⟨threeBlocks⟩ noFault) plainEngine.sync stoppedAtSpend
      (.ok { blocksScanned := 3, utxosCaptured := 1, utxosSpent := 1 }) resumedAfterStop :=
  exec_memStep rfl

theorem resumes_uninterrupted_threeBlocks :
    ∃ summary T, Prog.Exec (memEnv ⟨threeBlocks⟩ noFault) plainEngine.sync Stores.new
      (.ok summary) T ∧
      ∀ o, resumedAfterStop.utxos.entryAt o = T.utxos.entryAt o := by
  have hretries : Retries {c | c ∈ [threeBlocks]} plainEngine ⟨threeBlocks⟩ Stores.new
      ⟨threeBlocks⟩ stoppedAtSpend :=
    .failed .start (fun _ h => nomatch h) exec_stoppedAtSpend
  have hH : ∃ c ∈ {c | c ∈ [threeBlocks]}, History.blocks ([] : History PlainDescriptor) <+: c :=
    ⟨threeBlocks, List.mem_singleton.mpr rfl, List.nil_prefix⟩
  obtain ⟨summary, T, hexec, -, -, hentries⟩ := resumes_uninterrupted hashesIdentify_threeBlocks
    validChain_threeBlocks hH ⟨_, rfl, fun h => absurd rfl h⟩ represents_new
    (List.mem_singleton.mpr rfl) hretries (fun _ h => h) exec_resumedAfterStop
  exact ⟨summary, T, hexec, hentries⟩

/-! ## Leftovers and reorgs -/

/-- With the cursor block on the node's chain, or no cursor, every
stored block is on it. -/
def LeftoversOnChain (node : MockChainSource) (S : Stores) : Prop :=
  (∀ t, S.blocks.tip = some t → (node.chain[t.height]?).map (·.blockHash) = some t.hash) →
    ∀ h hash, S.blocks.blockHashAt h = some hash →
      (node.chain[h]?).map (·.blockHash) = some hash

/-- The condition can be run on the entries of the block store. -/
theorem leftoversOnChain_of_entries {node : MockChainSource} {S : Stores}
    (h : ∀ e ∈ S.blocks.blocks.entries, (node.chain[e.1]?).map (·.blockHash) = some e.2.1) :
    LeftoversOnChain node S := by
  intro _ i hash hstored
  obtain ⟨⟨hash', raw⟩, hlookup, rfl⟩ := Option.map_eq_some_iff.mp hstored
  exact h _ (Map.mem_entries_iff.mpr hlookup)

/-- The states reached from empty stores by node events, within the
chains `C`, and passes of `E` during which chain-source calls may fail.
Every pass starts in a state satisfying `cond`. -/
inductive FaultyRun (C : Set (List Block)) (E : BlockScanEngine D)
    (cond : MockChainSource → Stores → Prop) : MockChainSource → Stores → Prop
  | init (node : MockChainSource) (hne : node.chain ≠ []) (hnode : node.chain ∈ C) :
      FaultyRun C E cond node Stores.new
  | event {node : MockChainSource} {S : Stores} (ev : NodeEvent)
      (hrun : FaultyRun C E cond node S) (hnode : (node.apply ev).chain ∈ C) :
      FaultyRun C E cond (node.apply ev) S
  | pass {node : MockChainSource} {S S' : Stores} {faulty : SyncOp → Prop}
      {o : Outcome SyncError SyncSummary} (hrun : FaultyRun C E cond node S)
      (hbelow : NotBelowCursor node S) (hcond : cond node S)
      (hfault : ∀ op, faulty op → ∃ cop, op = .chain cop)
      (hexec : Prog.Exec (memEnv node faulty) E.sync S o S') : FaultyRun C E cond node S'

/-- Every record is an output of the chain, and spent exactly when an
input of the chain spends it. -/
def NoPhantom (node : MockChainSource) (S : Stores) : Prop :=
  ∀ o e, S.utxos.entryAt o = some e →
    (∃ b tx, node.chain[e.utxo.height]? = some b ∧ tx ∈ b.txdata ∧ tx.txid = o.txid ∧
      tx.output[o.vout]? = some e.utxo.txout) ∧
    (e.utxo.isSpent = true ↔ ∃ b ∈ node.chain, o ∈ b.spends)

/-- What such a run keeps: the stores hold a history and leftovers, all
from one chain. -/
structure FaultyRun.Inv (C : Set (List Block)) (E : BlockScanEngine D) (node : MockChainSource)
    (S : Stores) (H : History D) (Y : List Block) : Prop where
  node_mem : node.chain ∈ C
  stored_mem : ∃ c ∈ C, H.blocks ++ Y <+: c
  genesis : ∃ g, node.chain.head? = some g ∧ (H ≠ [] → H.blocks.head? = some g)
  holds : Holds E S H Y

theorem Represents.noPhantom {S : Stores} {H : History D} {node : MockChainSource}
    (h : Represents S H) (hblocks : H.blocks = node.chain) (hvalid : ValidChain node.chain) :
    NoPhantom node S := by
  intro o e he
  obtain ⟨i, b, E, u, hp, hu, rfl, rfl⟩ := (h.entryAt_eq_some (hblocks ▸ hvalid)).mp he
  obtain ⟨tx, htx, hutx⟩ := BlockScanEngine.mem_captures.mp hu
  obtain ⟨vout, txout, hout, hrec⟩ := BlockScanEngine.mem_captureTx.mp hutx
  obtain ⟨hop, htxout, hheight, -⟩ := BlockScanEngine.captureOutput_spec hrec
  have hb : node.chain[i]? = some b := by
    rw [← hblocks, History.getElem?_blocks, hp]
    rfl
  constructor
  · refine ⟨b, tx, ?_, htx, ?_, ?_⟩
    · dsimp only
      rw [hheight, hb]
    · rw [hop]
    · rw [hop]
      dsimp only
      rw [htxout, hout]
  · rw [hblocks]
    simp [chainSpentAt]

section

variable {C : Set (List Block)} (hid : HashesIdentify C) (hvalid : ∀ c ∈ C, ValidChain c)
  {E : BlockScanEngine D} {node : MockChainSource} {S S' : Stores} {H : History D} {Y : List Block}

include hid

/-- Stored blocks that the node has at their heights are a prefix of its
chain. -/
theorem prefix_of_hashes {l N : List Block} (hc : ∃ l' ∈ C, l <+: l') (hN : N ∈ C)
    (hsame : ∀ (h : Nat) (b : Block), l[h]? = some b →
      (N[h]?).map (·.blockHash) = some b.blockHash) : l <+: N := by
  by_cases hnil : l = []
  · rw [hnil]
    exact List.nil_prefix
  · have hpos := List.length_pos_iff.mpr hnil
    obtain ⟨b, hb⟩ : ∃ b, l[l.length - 1]? = some b := ⟨_, List.getElem?_eq_getElem (by omega)⟩
    obtain ⟨b', hb', hhash⟩ := Option.map_eq_some_iff.mp (hsame _ b hb)
    have hlt := (hid.hash_eq_iff hc hN hb hb').mp hhash.symm
    have hle := fork_le_left l N
    exact fork_eq_length_iff.mp (by omega)

include hvalid

/-- One pass. -/
theorem FaultyRun.Inv.pass (hinv : FaultyRun.Inv C E node S H Y) (hbelow : NotBelowCursor node S)
    (hleft : LeftoversOnChain node S) {faulty : SyncOp → Prop}
    (hfault : ∀ op, faulty op → ∃ cop, op = .chain cop) {o : Outcome SyncError SyncSummary}
    (hexec : Prog.Exec (memEnv node faulty) E.sync S o S') :
    ((∃ summary, o = .ok summary) → Represents S' (H.rescan node.chain E)) ∧
      ∃ H' Y', FaultyRun.Inv C E node S' H' Y' := by
  obtain ⟨hnode, ⟨c, hc, hstored⟩, ⟨g, hg, hgH⟩, hholds⟩ := hinv
  have hlen := hholds.length_le hbelow
  have hH : ∃ c ∈ C, H.blocks <+: c := ⟨c, hc, (List.prefix_append _ _).trans hstored⟩
  have hgen : H ≠ [] → 0 < fork H.blocks node.chain := fun hne => fork_pos (hgH hne) hg
  have hY : fork H.blocks node.chain = H.length → H.blocks ++ Y <+: node.chain := by
    intro hon
    have hpre : H.blocks <+: node.chain := fork_eq_length_iff.mp (by simpa using hon)
    have hcursor : ∀ t, S.blocks.tip = some t →
        (node.chain[t.height]?).map (·.blockHash) = some t.hash := by
      intro t ht
      have hnil : H ≠ [] := by
        rintro rfl
        rw [hholds.tip] at ht
        cases ht
      obtain ⟨b, hb, hcur⟩ := History.cursor_of_ne_nil hnil
      obtain rfl := Option.some.inj ((hholds.tip.trans hcur).symm.trans ht)
      dsimp only
      rw [← getElem?_of_lt_fork (l := H.blocks), hb]
      · rfl
      · have := List.length_pos_iff.mpr hnil
        omega
    refine prefix_of_hashes hid ⟨c, hc, hstored⟩ hnode ?_
    intro h b hb
    refine hleft hcursor h b.blockHash ?_
    rw [MemBlockStore.blockHashAt, hholds.blocks, hb]
    rfl
  have hfault' : ∀ a, ¬faulty (.store (.utxosRollbackAbove a)) := by
    intro a hf
    obtain ⟨cop, hcop⟩ := hfault _ hf
    cases hcop
  rcases holds_of_exec hid hnode (hvalid _ hnode) hH hgen hlen hY hfault' hholds hexec
    with ⟨⟨summary, hok⟩, hrep⟩ | ⟨hno, hcase⟩
  · refine ⟨fun _ => hrep, H.rescan node.chain E, [], hnode, ⟨node.chain, hnode, ?_⟩,
      ⟨g, hg, fun _ => ?_⟩, hrep.holds E⟩
    · rw [List.append_nil, History.blocks_rescan]
    · rw [History.blocks_rescan, hg]
  · refine ⟨fun hok => absurd hok.choose_spec (hno hok.choose), ?_⟩
    rcases hcase with rfl | ⟨W, hholds', hW⟩
    · exact ⟨H, Y, hnode, ⟨c, hc, hstored⟩, ⟨g, hg, hgH⟩, hholds⟩
    · refine ⟨_, W, hnode, ⟨node.chain, hnode, hW⟩, ⟨g, hg, ?_⟩, hholds'⟩
      intro hne
      have hnil : H ≠ [] := by
        rintro rfl
        exact hne List.take_nil
      have hpos := hgen hnil
      rw [History.blocks_take, List.head?_take, if_neg (by omega), hgH hnil]

theorem FaultyRun.inv (hrun : FaultyRun C E LeftoversOnChain node S) :
    ∃ H Y, FaultyRun.Inv C E node S H Y := by
  induction hrun with
  | init node hne hnode =>
      obtain ⟨g, rest, hchain⟩ := List.exists_cons_of_ne_nil hne
      exact ⟨[], [], hnode, ⟨node.chain, hnode, List.nil_prefix⟩,
        ⟨g, by rw [hchain]; rfl, fun h => absurd rfl h⟩, represents_new.holds E⟩
  | event ev _ hnode ih =>
      obtain ⟨H, Y, -, hstored, ⟨g, hg, hgH⟩, hholds⟩ := ih
      exact ⟨H, Y, hnode, hstored, ⟨g, MockChainSource.head?_apply hg ev, hgH⟩, hholds⟩
  | pass _ hbelow hcond hfault hexec ih =>
      obtain ⟨H, Y, hinv⟩ := ih
      exact (hinv.pass hid hvalid hbelow hcond hfault hexec).2

/-- No phantoms, as long as every pass of the run starts with its
leftovers on the chain or its cursor off it. -/
theorem no_phantom_of_leftovers (hrun : FaultyRun C E LeftoversOnChain node S)
    (hbelow : NotBelowCursor node S) (hleft : LeftoversOnChain node S) {faulty : SyncOp → Prop}
    (hfault : ∀ op, faulty op → ∃ cop, op = .chain cop) {summary : SyncSummary}
    (hexec : Prog.Exec (memEnv node faulty) E.sync S (.ok summary) S') : NoPhantom node S' := by
  obtain ⟨H, Y, hinv⟩ := hrun.inv hid hvalid
  have hrep := (hinv.pass hid hvalid hbelow hleft hfault hexec).1 ⟨summary, rfl⟩
  exact hrep.noPhantom (History.blocks_rescan ..) (hvalid _ hinv.node_mem)

end

/-! A pass over genesis, then one over the three blocks that fails at
height 2, after it has captured the payment at height 1. -/

def genesisSynced : Stores := (Prog.run (memStep genesisOnly) plainEngine.sync Stores.new).2

def failedAtTwo : Stores :=
  (Prog.run (failStep ⟨threeBlocks⟩ (· == .chain (.blockHash 2))) plainEngine.sync genesisSynced).2

theorem exec_genesisSynced : Prog.Exec (memEnv genesisOnly noFault) plainEngine.sync Stores.new
    (.ok { blocksScanned := 1 }) genesisSynced := exec_memStep rfl

theorem exec_failedAtTwo : Prog.Exec (memEnv ⟨threeBlocks⟩ (· = .chain (.blockHash 2)))
    plainEngine.sync genesisSynced (.err (.chainSource "unavailable")) failedAtTwo :=
  exec_failStep (fun op h => by simpa using h) rfl

/-- The run to the failed pass, under any condition that holds where its
two passes start. -/
theorem faultyRun_failedAtTwo {cond : MockChainSource → Stores → Prop}
    (h₁ : cond genesisOnly Stores.new) (h₂ : cond ⟨threeBlocks⟩ genesisSynced) :
    FaultyRun {c | c ∈ reorgChains} plainEngine cond ⟨threeBlocks⟩ failedAtTwo := by
  have hinit : FaultyRun {c | c ∈ reorgChains} plainEngine cond genesisOnly Stores.new :=
    .init genesisOnly (by decide) (List.mem_cons_self ..)
  have hsynced : FaultyRun {c | c ∈ reorgChains} plainEngine cond genesisOnly genesisSynced :=
    .pass hinit (fun t ht => nomatch ht) h₁ (fun _ hf => hf.elim) exec_genesisSynced
  have hgrown : FaultyRun {c | c ∈ reorgChains} plainEngine cond ⟨threeBlocks⟩ genesisSynced :=
    .event (.append (threeBlocks.drop 1)) hsynced (List.mem_cons_of_mem _ (List.mem_cons_self ..))
  refine .pass hgrown ?_ h₂ ?_ exec_failedAtTwo
  · intro t ht
    obtain rfl : t = ⟨0, ⟨10⟩⟩ := (Option.some.inj ht).symm
    decide
  · rintro op rfl
    exact ⟨_, rfl⟩

theorem notBelowCursor_failedAtTwo {node : MockChainSource} (h : node.chain ≠ []) :
    NotBelowCursor node failedAtTwo := by
  intro t ht
  obtain rfl : t = ⟨0, ⟨10⟩⟩ := (Option.some.inj ht).symm
  exact List.length_pos_iff.mpr h

theorem no_phantom_of_leftovers_failedAtTwo :
    NoPhantom ⟨threeBlocks⟩ (Prog.run (memStep ⟨threeBlocks⟩) plainEngine.sync failedAtTwo).2 := by
  have hexec : Prog.Exec (memEnv ⟨threeBlocks⟩ noFault) plainEngine.sync failedAtTwo
      (.ok { blocksScanned := 2, utxosCaptured := 1, utxosSpent := 1 }) _ := exec_memStep rfl
  exact no_phantom_of_leftovers hashesIdentify_reorgChains validChain_reorgChains
    (faultyRun_failedAtTwo (leftoversOnChain_of_entries (by decide))
      (leftoversOnChain_of_entries (by decide)))
    (notBelowCursor_failedAtTwo (by decide)) (leftoversOnChain_of_entries (by decide))
    (fun _ hf => hf.elim) hexec

/-- Without the condition there are phantoms: reorganize the three blocks
away, and the next pass keeps the payment, which no block holds. -/
theorem phantom_after_reorg : ¬∀ (C : Set (List Block)) (E : BlockScanEngine PlainDescriptor)
    (node : MockChainSource) (S S' : Stores) (summary : SyncSummary), HashesIdentify C →
    (∀ c ∈ C, ValidChain c) → FaultyRun C E (fun _ _ => True) node S → NotBelowCursor node S →
    Prog.Exec (memEnv node noFault) E.sync S (.ok summary) S' → NoPhantom node S' := by
  intro hgeneral
  have hrun : FaultyRun {c | c ∈ reorgChains} plainEngine (fun _ _ => True) otherBranch
      failedAtTwo :=
    .event (.reorg 0 (otherBranch.chain.drop 1)) (faultyRun_failedAtTwo trivial trivial)
      (List.mem_cons_of_mem _ (List.mem_cons_of_mem _ (List.mem_cons_self ..)))
  have hexec : Prog.Exec (memEnv otherBranch noFault) plainEngine.sync failedAtTwo
      (.ok { blocksScanned := 2 }) _ := exec_memStep rfl
  have hphantom := hgeneral _ _ _ _ _ _ hashesIdentify_reorgChains validChain_reorgChains hrun
    (notBelowCursor_failedAtTwo (by decide)) hexec
  obtain ⟨⟨b, tx, hb, htx, -⟩, -⟩ := hphantom ⟨⟨100⟩, 0⟩ _ rfl
  obtain rfl : b = ⟨⟨21⟩, ⟨10⟩, []⟩ := (Option.some.inj hb).symm
  cases htx

end EmvaultElements
