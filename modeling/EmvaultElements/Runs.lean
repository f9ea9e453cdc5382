import EmvaultElements.PassHistory

/-!
# Runs of the pipeline

The node's chain grows and reorganizes (`NodeEvent`), and between two
events a pass may run, each with its own engine. `SyncRun` is the set
of states reached when every pass succeeds, with the history it builds
up as a ghost. The invariant is that the stores represent the history
(`SyncRun.represents`), and `sync_refines_chain` says what a pass then
leaves.
-/

namespace EmvaultElements

/-! ## The node -/

/-- What happens to the node's chain. A reorg keeps the blocks up to
`height`, so at least genesis. -/
inductive NodeEvent where
  | append (blocks : List Block)
  | reorg (height : Nat) (suffix : List Block)

namespace MockChainSource

def pushBlocks (self : MockChainSource) (blocks : List Block) : MockChainSource :=
  blocks.foldl pushBlock self

def apply (self : MockChainSource) : NodeEvent → MockChainSource
  | .append blocks => self.pushBlocks blocks
  | .reorg height suffix => (self.reorgTo height).pushBlocks suffix

theorem chain_pushBlocks (self : MockChainSource) (blocks : List Block) :
    (self.pushBlocks blocks).chain = self.chain ++ blocks := by
  induction blocks generalizing self with
  | nil => simp [pushBlocks]
  | cons b blocks ih =>
      rw [pushBlocks, List.foldl_cons]
      have hrest := ih (self.pushBlock b)
      rw [pushBlocks] at hrest
      rw [hrest, pushBlock, List.append_assoc]
      rfl

/-- Genesis is kept. -/
theorem head?_apply {self : MockChainSource} {g : Block} (h : self.chain.head? = some g)
    (ev : NodeEvent) : (self.apply ev).chain.head? = some g := by
  obtain ⟨rest, hchain⟩ : ∃ rest, self.chain = g :: rest := by
    cases hc : self.chain with
    | nil => rw [hc] at h; cases h
    | cons b rest =>
        rw [hc] at h
        cases h
        exact ⟨rest, rfl⟩
  cases ev with
  | append blocks => rw [apply, chain_pushBlocks, hchain]; rfl
  | reorg height suffix =>
      rw [apply, chain_pushBlocks, reorgTo, hchain, List.take_succ_cons]
      rfl

end MockChainSource

/-- The node's tip is not below the cursor. -/
def NotBelowCursor (node : MockChainSource) (S : Stores) : Prop :=
  ∀ t, S.blocks.tip = some t → t.height < node.chain.length

/-- Two chains with the same genesis share at least genesis. -/
theorem fork_pos {c c' : List Block} {g : Block} (h : c.head? = some g) (h' : c'.head? = some g) :
    0 < fork c c' := by
  cases c with
  | nil => cases h
  | cons b c =>
      cases c' with
      | nil => cases h'
      | cons b' c' =>
          cases h
          cases h'
          simp [fork]

variable {D : Type} [LwkDescriptor D]

theorem Holds.length_le {E : BlockScanEngine D} {S : Stores} {H : History D} {Y : List Block}
    {node : MockChainSource} (h : Holds E S H Y) (hbelow : NotBelowCursor node S) :
    H.length ≤ node.chain.length := by
  by_cases hnil : H = []
  · rw [hnil]
    exact Nat.zero_le _
  · obtain ⟨b, -, hcursor⟩ := History.cursor_of_ne_nil hnil
    have := hbelow _ (h.tip.trans hcursor)
    dsimp only at this
    omega

/-- A pass that succeeds found the node at or above its cursor. -/
theorem notBelowCursor_of_exec {E : BlockScanEngine D} {node : MockChainSource} {S S' : Stores}
    {summary : SyncSummary}
    (hexec : Prog.Exec (memEnv node noFault) E.sync S (.ok summary) S') :
    NotBelowCursor node S := by
  intro t ht
  by_contra hlow
  obtain ⟨-, e, he⟩ := BlockScanEngine.exec_below_cursor ht (Nat.not_lt.mp hlow) hexec
  cases he

/-! ## Runs of complete passes -/

/-- The states reached from empty stores by node events, within the
chains `C`, and complete passes. The history records which engine
scanned each block. -/
inductive SyncRun (C : Set (List Block)) : MockChainSource → Stores → History D → Prop
  | init (node : MockChainSource) (hne : node.chain ≠ []) (hnode : node.chain ∈ C) :
      SyncRun C node Stores.new []
  | event {node : MockChainSource} {S : Stores} {H : History D} (ev : NodeEvent)
      (hrun : SyncRun C node S H) (hnode : (node.apply ev).chain ∈ C) :
      SyncRun C (node.apply ev) S H
  | pass {node : MockChainSource} {S S' : Stores} {H : History D} (E : BlockScanEngine D)
      (summary : SyncSummary) (hrun : SyncRun C node S H) (hbelow : NotBelowCursor node S)
      (hexec : Prog.Exec (memEnv node noFault) E.sync S (.ok summary) S') :
      SyncRun C node S' (H.rescan node.chain E)

/-- What a run keeps. -/
structure SyncRun.Inv (C : Set (List Block)) (node : MockChainSource) (S : Stores)
    (H : History D) : Prop where
  node_mem : node.chain ∈ C
  history_mem : ∃ c ∈ C, H.blocks <+: c
  genesis : ∃ g, node.chain.head? = some g ∧ (H ≠ [] → H.blocks.head? = some g)
  represents : Represents S H

section

variable {C : Set (List Block)} (hid : HashesIdentify C) (hvalid : ∀ c ∈ C, ValidChain c)
  {node : MockChainSource} {S S' : Stores} {H : History D} {E : BlockScanEngine D}
  {summary : SyncSummary}

include hid hvalid

/-- One complete pass: the stores represent the rescanned history. -/
theorem SyncRun.Inv.pass (hinv : SyncRun.Inv C node S H) (hbelow : NotBelowCursor node S)
    (hexec : Prog.Exec (memEnv node noFault) E.sync S (.ok summary) S') :
    SyncRun.Inv C node S' (H.rescan node.chain E) := by
  obtain ⟨hnode, hH, ⟨g, hg, hgH⟩, hrep⟩ := hinv
  have hholds := hrep.holds E
  have hlen := hholds.length_le hbelow
  have hgen : H ≠ [] → 0 < fork H.blocks node.chain := fun hne => fork_pos (hgH hne) hg
  have hleft : fork H.blocks node.chain = H.length → H.blocks ++ [] <+: node.chain := by
    intro hon
    rw [List.append_nil]
    exact fork_eq_length_iff.mp (by simpa using hon)
  refine ⟨hnode, ⟨node.chain, hnode, ?_⟩, ⟨g, hg, ?_⟩, ?_⟩
  · rw [History.blocks_rescan]
  · intro _
    rw [History.blocks_rescan, hg]
  · rcases holds_of_exec hid hnode (hvalid _ hnode) hH hgen hlen hleft (fun _ hf => hf) hholds
      hexec with ⟨-, hrep'⟩ | ⟨hno, -⟩
    · exact hrep'
    · exact absurd rfl (hno summary)

theorem SyncRun.inv (hrun : SyncRun C node S H) : SyncRun.Inv C node S H := by
  induction hrun with
  | init node hne hnode =>
      refine ⟨hnode, ⟨node.chain, hnode, List.nil_prefix⟩, ?_, represents_new⟩
      obtain ⟨g, rest, hchain⟩ := List.exists_cons_of_ne_nil hne
      exact ⟨g, by rw [hchain]; rfl, fun h => absurd rfl h⟩
  | event ev _ hnode ih =>
      obtain ⟨-, hH, ⟨g, hg, hgH⟩, hrep⟩ := ih
      exact ⟨hnode, hH, ⟨g, MockChainSource.head?_apply hg ev, hgH⟩, hrep⟩
  | pass E summary _ hbelow hexec ih => exact ih.pass hid hvalid hbelow hexec

/-- Sync refines the chain. After any pass of any run the cursor is the
node's tip, the block store holds the node's blocks, and the UTXO store
holds one entry for each output of them that the engine which scanned
its block indexes and can unblind, spent where the chain spends it. -/
theorem sync_refines_chain (hrun : SyncRun C node S H) (hbelow : NotBelowCursor node S)
    (hexec : Prog.Exec (memEnv node noFault) E.sync S (.ok summary) S') :
    (H.rescan node.chain E).blocks = node.chain ∧
    (∃ t, S'.blocks.tip = some t ∧ node.tipHeight = .ok t.height ∧
      node.blockHash t.height = .ok t.hash) ∧
    (∀ h, S'.blocks.blocks.lookup h =
      node.chain[h]?.map fun b => (b.blockHash, serialize b)) ∧
    (∀ o e, S'.utxos.entryAt o = some e ↔
      ∃ (h : Nat) (b : Block) (scanner : BlockScanEngine D) (tx : Transaction) (vout : Nat)
        (txout : TxOut) (entry : ScriptEntry) (wollet : ElementsWollet D) (secrets : TxOutSecrets),
        (H.rescan node.chain E)[h]? = some (b, scanner) ∧ tx ∈ b.txdata ∧
        tx.output[vout]? = some txout ∧
        scanner.ownerOf txout.scriptPubkey = some (entry, wollet) ∧
        wollet.unblind txout = .ok secrets ∧ o = { txid := tx.txid, vout } ∧
        e = {
          utxo := {
            walletId := entry.walletId, outpoint := o, txout, secrets, chain := entry.chain
            wildcardIndex := entry.wildcardIndex, height := h
            isSpent := (chainSpentAt node.chain o).isSome }
          spentHeight := chainSpentAt node.chain o }) := by
  have hinv := (hrun.inv hid hvalid).pass hid hvalid hbelow hexec
  have hblocks : (H.rescan node.chain E).blocks = node.chain := History.blocks_rescan ..
  have hrep := hinv.represents
  have hvalid' : ValidChain (H.rescan node.chain E).blocks := by
    rw [hblocks]
    exact hvalid _ hinv.node_mem
  refine ⟨hblocks, ?_, ?_, ?_⟩
  · obtain ⟨b, hlast, hlen⟩ := BlockScanEngine.tip_of_exec hbelow hexec
    have hb := hlast
    rw [List.getLast?_eq_getElem?] at hb
    refine ⟨{ height := node.chain.length - 1, hash := b.blockHash }, ?_,
      MockChainSource.tipHeight_eq_ok.mpr ⟨?_, ?_⟩,
        MockChainSource.blockHash_eq_ok.mpr ⟨b, hb, rfl⟩⟩
    · rw [hrep.tip, History.cursor_eq, hblocks, hlast]
      rfl
    · have := (List.getElem?_eq_some_iff.mp hb).1
      dsimp only
      omega
    · exact Nat.lt_of_le_of_lt (Nat.sub_le _ _) hlen
  · intro h
    rw [hrep.blocks, hblocks]
    rfl
  · intro o e
    rw [hrep.entryAt_eq_some hvalid', hblocks]
    constructor
    · rintro ⟨h, b, scanner, u, hp, hu, hop, rfl⟩
      obtain ⟨tx, vout, txout, entry, wollet, secrets, htx, hout, howner, hunblind, rfl⟩ :=
        BlockScanEngine.mem_captures_iff.mp hu
      exact ⟨h, b, scanner, tx, vout, txout, entry, wollet, secrets, hp, htx, hout, howner,
        hunblind, hop.symm, by rw [← hop]⟩
    · rintro ⟨h, b, scanner, tx, vout, txout, entry, wollet, secrets, hp, htx, hout, howner,
        hunblind, rfl, rfl⟩
      exact ⟨h, b, scanner, _, hp, BlockScanEngine.mem_captures_iff.mpr ⟨tx, vout, txout, entry,
        wollet, secrets, htx, hout, howner, hunblind, rfl⟩, rfl, rfl⟩

end

/-! A chain of three blocks: an output paid to a watched script, and its
spend. -/

def plainWollet : ElementsWollet PlainDescriptor := ⟨⟨7, 1⟩, .elementsRegtest⟩

def plainEngine : BlockScanEngine PlainDescriptor :=
  (BlockScanEngine.new.registerWallet ⟨1⟩ plainWollet 2).2

/-- An output to a script, blinded to a key. -/
def plainOutput (script : Script) (key : UInt8) : TxOut where
  asset := .explicit ⟨0⟩
  value := .explicit 1000
  nonce := .explicit [key]
  scriptPubkey := script
  witness := ⟨none, none⟩

def payment : Transaction :=
    ⟨⟨100⟩, [], [plainOutput (plainWollet.descriptor.script .external 1) 1]⟩

def spend : Transaction := ⟨⟨101⟩, [⟨⟨⟨100⟩, 0⟩⟩], []⟩

def threeBlocks : List Block :=
  [⟨⟨10⟩, ⟨0⟩, []⟩, ⟨⟨11⟩, ⟨10⟩, [payment]⟩, ⟨⟨12⟩, ⟨11⟩, [spend]⟩]

def threeBlocksSynced : Stores :=
  (Prog.run (memStep ⟨threeBlocks⟩) plainEngine.sync Stores.new).2

theorem exec_threeBlocks : Prog.Exec (memEnv ⟨threeBlocks⟩ noFault) plainEngine.sync Stores.new
    (.ok { blocksScanned := 3, utxosCaptured := 1, utxosSpent := 1 }) threeBlocksSynced :=
  exec_memStep rfl

theorem hashesIdentify_threeBlocks : HashesIdentify {c | c ∈ [threeBlocks]} :=
  hashesIdentify_of_list (by decide)

theorem validChain_threeBlocks : ∀ c ∈ {c | c ∈ [threeBlocks]}, ValidChain c := by
  intro c hc
  obtain rfl := List.mem_singleton.mp hc
  decide

/-! The spend is reorged away for a payment to an index that only a
wider engine knows. -/

def widerEngine : BlockScanEngine PlainDescriptor :=
  (BlockScanEngine.new.registerWallet ⟨1⟩ plainWollet 4).2

def widerPayment : Transaction :=
  ⟨⟨102⟩, [], [plainOutput (plainWollet.descriptor.script .external 3) 1]⟩

def unspentAgain : List Block := threeBlocks.take 2 ++ [⟨⟨13⟩, ⟨11⟩, [widerPayment]⟩]

def unspentAgainSynced : Stores :=
  (Prog.run (memStep ⟨unspentAgain⟩) widerEngine.sync threeBlocksSynced).2

theorem sync_refines_chain_unspentAgain :
    unspentAgainSynced.utxos.entryAt ⟨⟨100⟩, 0⟩ = some {
      utxo := {
        walletId := ⟨1⟩, outpoint := ⟨⟨100⟩, 0⟩
        txout := plainOutput (plainWollet.descriptor.script .external 1) 1
        secrets := ⟨⟨0⟩, 0, 1000, 0⟩, chain := .external, wildcardIndex := 1, height := 1
        isSpent := false }
      spentHeight := none } ∧
    unspentAgainSynced.utxos.entryAt ⟨⟨102⟩, 0⟩ = some {
      utxo := {
        walletId := ⟨1⟩, outpoint := ⟨⟨102⟩, 0⟩
        txout := plainOutput (plainWollet.descriptor.script .external 3) 1
        secrets := ⟨⟨0⟩, 0, 1000, 0⟩, chain := .external, wildcardIndex := 3, height := 2
        isSpent := false }
      spentHeight := none } := by
  have hvalid : ∀ c ∈ {c | c ∈ [threeBlocks, unspentAgain]}, ValidChain c := by
    have hall : ∀ c ∈ [threeBlocks, unspentAgain], ValidChain c := by decide
    exact hall
  have hsynced : SyncRun {c | c ∈ [threeBlocks, unspentAgain]} ⟨threeBlocks⟩ threeBlocksSynced
      (History.rescan [] threeBlocks plainEngine) :=
    .pass plainEngine _ (.init ⟨threeBlocks⟩ (List.cons_ne_nil _ _) (List.mem_cons_self ..))
      (notBelowCursor_of_exec exec_threeBlocks) exec_threeBlocks
  have hreorged : SyncRun {c | c ∈ [threeBlocks, unspentAgain]} ⟨unspentAgain⟩ threeBlocksSynced
      (History.rescan [] threeBlocks plainEngine) :=
    .event (.reorg 1 [⟨⟨13⟩, ⟨11⟩, [widerPayment]⟩]) hsynced
      (List.mem_cons_of_mem threeBlocks (List.mem_singleton.mpr rfl))
  have hexec : Prog.Exec (memEnv ⟨unspentAgain⟩ noFault) widerEngine.sync threeBlocksSynced
      (.ok { blocksScanned := 1, utxosCaptured := 1, reorgTo := some 1 })
      unspentAgainSynced := exec_memStep rfl
  obtain ⟨-, -, -, hentries⟩ := sync_refines_chain (hashesIdentify_of_list (by decide)) hvalid
    hreorged (notBelowCursor_of_exec hexec) hexec
  constructor
  · exact (hentries _ _).mpr ⟨1, ⟨⟨11⟩, ⟨10⟩, [payment]⟩, plainEngine, payment, 0, _,
      ⟨⟨1⟩, .external, 1, 0⟩, plainWollet, ⟨⟨0⟩, 0, 1000, 0⟩, rfl, List.mem_singleton.mpr rfl, rfl,
      rfl, rfl, rfl, rfl⟩
  · exact (hentries _ _).mpr ⟨2, ⟨⟨13⟩, ⟨11⟩, [widerPayment]⟩, widerEngine, widerPayment, 0, _,
      ⟨⟨1⟩, .external, 3, 0⟩, plainWollet, ⟨⟨0⟩, 0, 1000, 0⟩, rfl, List.mem_singleton.mpr rfl, rfl,
      rfl, rfl, rfl, rfl⟩

/-! The same genesis with other blocks above it. -/

def genesisOnly : MockChainSource := ⟨threeBlocks.take 1⟩

/-- Another branch above genesis, as long as the first. -/
def otherBranch : MockChainSource :=
  ⟨[⟨⟨10⟩, ⟨0⟩, []⟩, ⟨⟨21⟩, ⟨10⟩, []⟩, ⟨⟨22⟩, ⟨21⟩, []⟩]⟩

def reorgChains : List (List Block) := [genesisOnly.chain, threeBlocks, otherBranch.chain]

theorem hashesIdentify_reorgChains : HashesIdentify {c | c ∈ reorgChains} :=
  hashesIdentify_of_list (by decide)

theorem validChain_reorgChains : ∀ c ∈ {c | c ∈ reorgChains}, ValidChain c := by
  have hall : ∀ c ∈ reorgChains, ValidChain c := by decide
  exact hall

end EmvaultElements
