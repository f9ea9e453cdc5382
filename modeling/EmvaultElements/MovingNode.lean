import Mathlib.Data.List.Chain
import EmvaultElements.Runs

/-!
# A node that moves during the pass

Between any two reads of a pass the node may append blocks or
reorganize, and it serves orphaned blocks by hash (`liveEnv`). The pass
compares neither parent links nor the final hash with what it scanned,
so it may store blocks of several branches.

`Live.steady` is a history variable: since the spend index was built,
every block-hash read found all stored blocks on the node's chain. The
invariant of the scan loop (`LiveScan`) is that the stored blocks are
those of one chain exactly when the pass has been steady. At the end
that makes the stores one linked chain with its cursor and its ledger
(`OneChain`), exactly for the steady passes
(`moving_node_one_chain_iff`).
-/

namespace EmvaultElements

open Ledger

/-! ## Linked chains -/

/-- Every block names the one below it as its parent. -/
def Linked (c : List Block) : Prop :=
  c.IsChain fun parent child => child.prevBlockhash = parent.blockHash

instance (c : List Block) : Decidable (Linked c) :=
  inferInstanceAs (Decidable (List.IsChain _ c))

theorem concat_prefix {α : Type} {l N : List α} {b : α} (hpre : l <+: N)
    (hb : N[l.length]? = some b) : l ++ [b] <+: N := by
  obtain ⟨rest, rfl⟩ := hpre
  rw [List.getElem?_append_right (Nat.le_refl _), Nat.sub_self] at hb
  obtain ⟨rest', rfl⟩ : ∃ rest', rest = b :: rest' := by
    cases rest with
    | nil => cases hb
    | cons b' rest' =>
        cases hb
        exact ⟨rest', rfl⟩
  exact ⟨rest', by simp⟩

section Chains

variable {C : Set (List Block)} (hid : HashesIdentify C)

include hid

/-- The start of a chain is the start of any chain that has its last
hash at its height. -/
theorem HashesIdentify.prefix_of_last {N N' l : List Block} (hc : N ∈ C) (hc' : N' ∈ C)
    (hpre : l <+: N') {b b' : Block} (hlast : l.getLast? = some b)
    (hb' : N[l.length - 1]? = some b') (heq : b.blockHash = b'.blockHash) : l <+: N := by
  rw [List.getLast?_eq_getElem?] at hlast
  have hlt := (List.getElem?_eq_some_iff.mp hlast).1
  have hb : N'[l.length - 1]? = some b := by
    rw [← hlast, List.prefix_iff_getElem?.mp hpre _ hlt, List.getElem?_eq_getElem hlt]
  obtain ⟨-, htake⟩ := hid N' hc' N hc _ _ b b' hb hb' heq
  rw [Nat.sub_add_cancel (by omega), ← List.prefix_iff_eq_take.mp hpre] at htake
  rw [htake]
  exact List.take_prefix _ _

/-- Linked blocks, each at its height in some chain of `C`, are the
start of one chain of `C`. -/
theorem exists_prefix_of_linked (hlinked : ∀ N ∈ C, Linked N) (hne : C.Nonempty)
    {l : List Block} (hmem : ∀ (i : Nat) b, l[i]? = some b → ∃ N ∈ C, N[i]? = some b)
    (hl : Linked l) : ∃ N ∈ C, l <+: N := by
  induction l using List.reverseRecOn with
  | nil => exact ⟨hne.some, hne.some_mem, List.nil_prefix⟩
  | append_singleton l b ih =>
      obtain ⟨N, hc, hb⟩ := hmem l.length b List.getElem?_concat_length
      obtain ⟨hl', -, hparent⟩ := List.isChain_append.mp hl
      have hmem' : ∀ (i : Nat) b', l[i]? = some b' → ∃ N ∈ C, N[i]? = some b' := by
        intro i b' hb'
        refine hmem i b' ?_
        rw [List.getElem?_append_left (List.getElem?_eq_some_iff.mp hb').1, hb']
      obtain ⟨N', hc', hpre⟩ := ih hmem' hl'
      refine ⟨N, hc, ?_⟩
      have hpre' : l <+: N := by
        cases hlast : l.getLast? with
        | none => rw [List.getLast?_eq_none_iff.mp hlast]; exact List.nil_prefix
        | some p =>
            -- `b` names `p` as its parent, and so does it in `N`.
            have hpos : 0 < l.length := List.length_pos_iff.mpr fun h => by simp [h] at hlast
            have hlt := (List.getElem?_eq_some_iff.mp hb).1
            have hsub : l.length - 1 + 1 = l.length := Nat.sub_add_cancel hpos
            obtain ⟨hlt', rfl⟩ := List.getElem?_eq_some_iff.mp hb
            have hc_parent := List.isChain_iff_getElem.mp (hlinked N hc) (l.length - 1) (by omega)
            refine hid.prefix_of_last hc hc' hpre hlast (List.getElem?_eq_getElem (by omega)) ?_
            rw [← hc_parent, ← hparent p hlast _ rfl]
            simp only [hsub]
      exact concat_prefix hpre' hb

end Chains

/-! ## The node and the pass -/

namespace MockChainSource

/-- Every block the store holds is on the node's chain. -/
def hasAll (self : MockChainSource) (s : MemBlockStore) : Bool :=
  s.blocks.entries.all fun e => decide ((self.chain[e.1]?).map (·.blockHash) = some e.2.1)

theorem hasAll_iff {self : MockChainSource} {s : MemBlockStore} :
    self.hasAll s ↔ ∀ h stored, s.blocks.lookup h = some stored →
      (self.chain[h]?).map (·.blockHash) = some stored.1 := by
  simp only [hasAll, List.all_eq_true, decide_eq_true_eq]
  constructor
  · intro h height stored hstored
    exact h ⟨height, stored⟩ (Map.mem_entries_iff.mpr hstored)
  · rintro h ⟨height, stored⟩ hmem
    exact h height stored (Map.mem_entries_iff.mp hmem)

end MockChainSource

/-- The node may move, within the chains `C` and to no shorter chain. -/
inductive Moves (C : Set (List Block)) : MockChainSource → MockChainSource → Prop
  | refl (node : MockChainSource) : Moves C node node
  | event {node node' : MockChainSource} (ev : NodeEvent) (hmoves : Moves C node node')
      (hlen : node'.chain.length ≤ (node'.apply ev).chain.length)
      (hmem : (node'.apply ev).chain ∈ C) : Moves C node (node'.apply ev)

/-- The node, the stores, and whether the pass has been steady. -/
structure Live where
  node : MockChainSource
  stores : Stores
  steady : Bool

/-- A read of the chain source, once the node has moved to `node`. -/
def Live.read (L : Live) (node : MockChainSource) : ChainOp → Live
  | .blockHash _ => { L with node, steady := L.steady && node.hasAll L.stores.blocks }
  | _ => { L with node }

/-- A call to the stores. The scan begins when the spend index is built. -/
def Live.write (L : Live) (op : StoreOp) : Live where
  node := L.node
  stores := (op.exec L.stores).2
  steady := match op with
    | .unspentOutpoints => true
    | _ => L.steady

/-- The answers of a node; by hash it serves the blocks of every branch. -/
def Serves (C : Set (List Block)) (node : MockChainSource) : (op : ChainOp) → op.Res → Prop
  | .tipHeight, height => node.tipHeight = .ok height
  | .blockHash height, hash => node.blockHash height = .ok hash
  | .block hash, b => ∃ c ∈ C, b ∈ c ∧ b.blockHash = hash

/-- The node moves before every read. Any call may fail. -/
def liveEnv (C : Set (List Block)) : Prog.Env Live SyncError SyncOp SyncOp.Res
  | L, .chain op, .ok v, L' =>
      ∃ node, Moves C L.node node ∧ Serves C node op v ∧ L' = L.read node op
  | L, .store op, .ok v, L' => v = (op.exec L.stores).1 ∧ L' = L.write op
  | L, _, .error _, L' => L' = L

section Calls

variable {C : Set (List Block)} {L L' : Live} {α : Type}

theorem exec_callChain {op : ChainOp} {v : op.Res}
    (h : Prog.Exec (liveEnv C) (callChain op) L (.ok v) L') :
    ∃ node, Moves C L.node node ∧ Serves C node op v ∧ L' = L.read node op :=
  Prog.exec_perform.mp h

theorem exec_callStore {op : StoreOp} {v : op.Res}
    (h : Prog.Exec (liveEnv C) (callStore op) L (.ok v) L') :
    v = (op.exec L.stores).1 ∧ L' = L.write op :=
  Prog.exec_perform.mp h

/-- A call that is skipped when it would do nothing. -/
theorem exec_callStore_ite {op : StoreOp} {c : Prop} [Decidable c] {p : SyncProg α} {v : α}
    (hskip : ¬c → L.write op = L)
    (h : Prog.Exec (liveEnv C) (if c then callStore op >>= fun _ => p else p) L (.ok v) L') :
    Prog.Exec (liveEnv C) p (L.write op) (.ok v) L' := by
  split at h
  · obtain ⟨_, L₁, hcall, hrest⟩ := Prog.exec_bind h
    obtain ⟨-, rfl⟩ := exec_callStore hcall
    exact hrest
  · next hc =>
      rw [hskip hc]
      exact h

theorem exec_heightSucc {h n : Nat} (hexec : Prog.Exec (liveEnv C) (heightSucc h) L (.ok n) L') :
    n = h + 1 ∧ L = L' := by
  unfold heightSucc at hexec
  split at hexec
  · obtain ⟨hn, hL⟩ := Prog.exec_pure.mp hexec
    exact ⟨hn, hL.symm⟩
  · cases hexec

end Calls

theorem Moves.trans {C : Set (List Block)} {node node' node'' : MockChainSource}
    (h : Moves C node node') (h' : Moves C node' node'') : Moves C node node'' := by
  induction h' with
  | refl => exact h
  | event ev _ hlen hmem ih => exact .event ev ih hlen hmem

theorem Moves.length_le {C : Set (List Block)} {node node' : MockChainSource}
    (h : Moves C node node') : node.chain.length ≤ node'.chain.length := by
  induction h with
  | refl => exact Nat.le_refl _
  | event ev _ hlen _ ih => exact Nat.le_trans ih hlen

theorem Moves.mem {C : Set (List Block)} {node node' : MockChainSource} (h : Moves C node node')
    (hmem : node.chain ∈ C) : node'.chain ∈ C := by
  cases h with
  | refl => exact hmem
  | event ev _ _ hmem' => exact hmem'

/-! ## The start -/

section Start

open BlockScanEngine

variable {D : Type} [LwkDescriptor D] {C : Set (List Block)} {L L' : Live}

theorem exec_sameHashAt {h : Nat} {same : Bool}
    (hexec : Prog.Exec (liveEnv C) (sameHashAt h) L (.ok same) L') :
    Moves C L.node L'.node ∧ L'.stores = L.stores := by
  obtain ⟨stored, L₁, hcall, hrest⟩ := Prog.exec_bind hexec
  obtain ⟨-, rfl⟩ := exec_callStore hcall
  cases stored with
  | none =>
      obtain ⟨-, rfl⟩ := Prog.exec_pure.mp hrest
      exact ⟨.refl _, rfl⟩
  | some hash =>
      obtain ⟨_, L₂, hcall, hrest⟩ := Prog.exec_bind hrest
      obtain ⟨node, hmoves, -, rfl⟩ := exec_callChain hcall
      obtain ⟨-, rfl⟩ := Prog.exec_pure.mp hrest
      exact ⟨hmoves, rfl⟩

/-- The walk back changes nothing and does not go up. -/
theorem exec_findCommonAncestor : ∀ {h a : Nat} {L L' : Live},
    Prog.Exec (liveEnv C) (findCommonAncestor h) L (.ok a) L' →
      a ≤ h ∧ Moves C L.node L'.node ∧ L'.stores = L.stores
  | 0, a, L, L', hexec => by
      rw [findCommonAncestor] at hexec
      obtain ⟨same, L₁, hsame, hrest⟩ := Prog.exec_bind hexec
      obtain ⟨hmoves, hstores⟩ := exec_sameHashAt hsame
      have hzero : a = 0 ∧ L' = L₁ := by
        split at hrest <;> exact Prog.exec_pure.mp hrest
      obtain ⟨rfl, rfl⟩ := hzero
      exact ⟨Nat.le_refl 0, hmoves, hstores⟩
  | h + 1, a, L, L', hexec => by
      rw [findCommonAncestor] at hexec
      obtain ⟨same, L₁, hsame, hrest⟩ := Prog.exec_bind hexec
      obtain ⟨hmoves, hstores⟩ := exec_sameHashAt hsame
      split at hrest
      · obtain ⟨rfl, rfl⟩ := Prog.exec_pure.mp hrest
        exact ⟨Nat.le_refl _, hmoves, hstores⟩
      · obtain ⟨hle, hmoves', hstores'⟩ := exec_findCommonAncestor hrest
        exact ⟨Nat.le_succ_of_le hle, hmoves.trans hmoves', hstores'.trans hstores⟩

/-- Wherever a pass starts, the stores hold the history below. -/
theorem exec_startHeight {H : History D} (hrep : Represents L.stores H) {n : Nat}
    {summary : SyncSummary}
    (hexec : Prog.Exec (liveEnv C) startHeight L (.ok (n, summary)) L') :
    Moves C L.node L'.node ∧ n ≤ H.length ∧ Represents L'.stores (H.take n) := by
  obtain ⟨tip, L₁, hcall, hrest⟩ := Prog.exec_bind hexec
  obtain ⟨htip, rfl⟩ := exec_callStore hcall
  have hcursor : tip = H.cursor := htip.trans hrep.tip
  by_cases hnil : H = []
  · subst hnil
    obtain rfl : tip = none := hcursor
    obtain ⟨heq, rfl⟩ := Prog.exec_pure.mp hrest
    cases heq
    exact ⟨.refl _, Nat.le_refl 0, hrep⟩
  · obtain ⟨b, -, hsome⟩ := History.cursor_of_ne_nil hnil
    have hpos := List.length_pos_iff.mpr hnil
    obtain rfl := hcursor.trans hsome
    obtain ⟨hash, L₂, hcall, hrest⟩ := Prog.exec_bind hrest
    obtain ⟨node, hmoves, -, rfl⟩ := exec_callChain hcall
    split at hrest
    · obtain ⟨n', L₃, hsucc, hrest⟩ := Prog.exec_bind hrest
      obtain ⟨rfl, rfl⟩ := exec_heightSucc hsucc
      obtain ⟨heq, rfl⟩ := Prog.exec_pure.mp hrest
      cases heq
      dsimp only
      rw [Nat.sub_add_cancel hpos, List.take_length]
      exact ⟨hmoves, Nat.le_refl _, hrep⟩
    · obtain ⟨a, L₃, hwalk, hrest⟩ := Prog.exec_bind hrest
      obtain ⟨hle, hmoves', hstores⟩ := exec_findCommonAncestor hwalk
      obtain ⟨_, L₄, hcall, hrest⟩ := Prog.exec_bind hrest
      obtain ⟨-, rfl⟩ := exec_callStore hcall
      obtain ⟨_, L₅, hcall, hrest⟩ := Prog.exec_bind hrest
      obtain ⟨-, rfl⟩ := exec_callStore hcall
      obtain ⟨n', L₆, hsucc, hrest⟩ := Prog.exec_bind hrest
      obtain ⟨rfl, rfl⟩ := exec_heightSucc hsucc
      obtain ⟨heq, rfl⟩ := Prog.exec_pure.mp hrest
      cases heq
      have ha : a < H.length := by
        dsimp only at hle
        omega
      refine ⟨hmoves.trans hmoves', ha, ?_⟩
      have hroll := (hrep.holds (BlockScanEngine.new : BlockScanEngine D)).rollbackAbove ha
      have hstores' : L₃.stores = L.stores := hstores
      rw [← hstores'] at hroll
      exact hroll

end Start

/-! ## The scan -/

section Scan

variable {D : Type} [LwkDescriptor D] {C : Set (List Block)} {L L' : Live}
  {E : BlockScanEngine D}

/-- The node has every stored block exactly when the stored blocks are
the start of its chain. -/
theorem hasAll_iff_prefix (hid : HashesIdentify C) {node : MockChainSource}
    (hN : node.chain ∈ C) {l : List Block} {s : MemBlockStore}
    (hserved : ∀ (i : Nat) b, l[i]? = some b → ∃ N ∈ C, N[i]? = some b)
    (hlookup : ∀ h, s.blocks.lookup h = l[h]?.map storedBlock) :
    node.hasAll s ↔ l <+: node.chain := by
  rw [MockChainSource.hasAll_iff, List.prefix_iff_getElem?]
  constructor
  · intro hall i hi
    have hb : l[i]? = some l[i] := List.getElem?_eq_getElem hi
    have hsame := hall i (storedBlock l[i]) (by rw [hlookup, hb]; rfl)
    obtain ⟨b', hb', heq⟩ := Option.map_eq_some_iff.mp hsame
    obtain ⟨N, hc, hcb⟩ := hserved i _ hb
    obtain ⟨-, htake⟩ := hid _ hN N hc i i b' l[i] hb' hcb heq
    have := congrArg (·[i]?) htake
    simpa [hcb] using this
  · intro hpre h stored hstored
    rw [hlookup] at hstored
    obtain ⟨b, hb, rfl⟩ := Option.map_eq_some_iff.mp hstored
    obtain ⟨hlt, rfl⟩ := List.getElem?_eq_some_iff.mp hb
    rw [hpre h hlt]
    rfl

/-- One block of the scan: it is the block a node of `C` had at the
height when asked for the hash. -/
theorem exec_scanBlock (hid : HashesIdentify C) (hN : L.node.chain ∈ C) {h : Nat} {st : ScanState}
    (hstores : L.stores = st.stores) {r : Map OutPoint WalletId × SyncSummary}
    (hexec : Prog.Exec (liveEnv C) (E.scanBlock h (st.spendIndex, st.summary)) L (.ok r) L') :
    ∃ (b : Block) (node : MockChainSource), Moves C L.node node ∧ node.chain[h]? = some b ∧
      Moves C node L'.node ∧
      r = ((E.blockStep h b st).spendIndex, (E.blockStep h b st).summary) ∧
      L'.stores = (E.blockStep h b st).stores ∧
      L'.steady = (L.steady && node.hasAll L.stores.blocks) := by
  obtain ⟨hash, L₁, hcall, hrest⟩ := Prog.exec_bind hexec
  obtain ⟨node, hmoves, hhash, rfl⟩ := exec_callChain hcall
  obtain ⟨b, L₂, hcall, hrest⟩ := Prog.exec_bind hrest
  obtain ⟨node', hmoves', ⟨c, hc, hb, hsame⟩, rfl⟩ := exec_callChain hcall
  obtain ⟨b₀, hb₀, rfl⟩ := MockChainSource.blockHash_eq_ok.mp hhash
  obtain ⟨i, hi⟩ := List.mem_iff_getElem?.mp hb
  obtain ⟨rfl, htake⟩ := hid _ (hmoves.mem hN) c hc h i b₀ b hb₀ hi hsame.symm
  have hblock := congrArg (·[h]?) htake
  simp only [List.getElem?_take_of_lt (Nat.lt_succ_self h), hb₀, hi] at hblock
  obtain rfl := Option.some.inj hblock
  obtain ⟨_, L₃, hcall, hrest⟩ := Prog.exec_bind hrest
  obtain ⟨-, rfl⟩ := exec_callStore hcall
  refine ⟨b₀, node, hmoves, hb₀, ?_⟩
  have hrest := exec_callStore_ite ?_ hrest
  · have hrest := exec_callStore_ite ?_ hrest
    · obtain ⟨rfl, rfl⟩ := Prog.exec_pure.mp hrest
      refine ⟨hmoves', rfl, ?_, rfl⟩
      simp only [Live.write, Live.read, StoreOp.exec, hstores]
      rfl
    · intro hnil
      rw [Decidable.of_not_not hnil]
      rfl
  · intro hnil
    rw [Decidable.of_not_not hnil]
    rfl

/-- The state of a scan that started from stores with the history `H`
and has stored the blocks `bs`. -/
structure LiveScan (C : Set (List Block)) (E : BlockScanEngine D) (H : History D) (st₀ : ScanState)
    (bs : List Block) (L : Live) : Prop where
  node_mem : L.node.chain ∈ C
  stores : L.stores = (E.blockSteps H.length bs st₀).stores
  served : ∀ (i : Nat) b, (H.blocks ++ bs)[i]? = some b → ∃ N ∈ C, N[i]? = some b
  steady : L.steady ↔ ∃ N ∈ C, H.blocks ++ bs <+: N

/-- Before the first block. -/
theorem LiveScan.start {H : History D} {st₀ : ScanState} (hN : L.node.chain ∈ C)
    (hH : ∃ c ∈ C, H.blocks <+: c) (hstores : L.stores = st₀.stores) (hsteady : L.steady) :
    LiveScan C E H st₀ [] L := by
  rw [← List.append_nil H.blocks] at hH
  refine ⟨hN, hstores, ?_, ⟨fun _ => hH, fun _ => hsteady⟩⟩
  obtain ⟨c, hc, hpre⟩ := hH
  exact fun i b hb => ⟨c, hc, getElem?_mono hpre hb⟩

theorem Scanned.lookup {H : History D} {bs : List Block} {S : Stores} {st : ScanState}
    (hscan : Scanned E H.length bs S st)
    (hblocks : ∀ h, S.blocks.blocks.lookup h = H.blocks[h]?.map storedBlock) (h : Nat) :
    st.stores.blocks.blocks.lookup h = (H.blocks ++ bs)[h]?.map storedBlock := by
  have hnil : H.blocks[h]? = (H.blocks ++ [])[h]? := by rw [List.append_nil]
  rw [hscan.blocks, hblocks, hnil, ← History.length_blocks, getElem?_overwrite, List.drop_nil,
    List.append_nil]

section Steps

variable {H : History D} {st₀ : ScanState} {bs : List Block} (hid : HashesIdentify C)
  (hvalid : ∀ c ∈ C, ValidChain c) (hrep : Represents st₀.stores H)
  (hidx : Mirrors st₀.spendIndex st₀.stores.utxos)

include hvalid hidx

theorem LiveScan.scanned (hscan : LiveScan C E H st₀ bs L) :
    Scanned E H.length bs st₀.stores (E.blockSteps H.length bs st₀) := by
  refine scanned_blockSteps E st₀ ?_ hidx
  intro b hb
  obtain ⟨i, hi⟩ := List.mem_iff_getElem?.mp hb
  obtain ⟨c, hc, hcb⟩ := hscan.served (H.length + i) b (by
    rw [List.getElem?_append_right (by simp), History.length_blocks, Nat.add_sub_cancel_left, hi])
  exact (hvalid c hc).block (List.mem_of_getElem? hcb)

include hrep

theorem LiveScan.lookup (hscan : LiveScan C E H st₀ bs L) (h : Nat) :
    L.stores.blocks.blocks.lookup h = (H.blocks ++ bs)[h]?.map storedBlock := by
  rw [hscan.stores]
  exact (hscan.scanned hvalid hidx).lookup hrep.blocks h

include hid

/-- A read of a block hash stays steady exactly when what is stored,
and so the block read, continue the node's chain. -/
theorem LiveScan.steady_read (hscan : LiveScan C E H st₀ bs L) {node : MockChainSource}
    (hN : node.chain ∈ C) :
    (L.steady && node.hasAll L.stores.blocks) ↔ H.blocks ++ bs <+: node.chain := by
  rw [Bool.and_eq_true, hscan.steady,
    hasAll_iff_prefix hid hN hscan.served (hscan.lookup hvalid hrep hidx)]
  constructor
  · exact fun h => h.2
  · exact fun h => ⟨⟨node.chain, hN, h⟩, h⟩

/-- One more block. -/
theorem LiveScan.scanBlock (hscan : LiveScan C E H st₀ bs L)
    {r : Map OutPoint WalletId × SyncSummary}
    (hexec : Prog.Exec (liveEnv C) (E.scanBlock (H.length + bs.length)
      ((E.blockSteps H.length bs st₀).spendIndex, (E.blockSteps H.length bs st₀).summary))
      L (.ok r) L') :
    Moves C L.node L'.node ∧ ∃ b, LiveScan C E H st₀ (bs ++ [b]) L' ∧
      r = ((E.blockSteps H.length (bs ++ [b]) st₀).spendIndex,
        (E.blockSteps H.length (bs ++ [b]) st₀).summary) := by
  obtain ⟨b, node, hmoves, hb, hmoves', hr, hstores, hsteady⟩ :=
    exec_scanBlock hid hscan.node_mem hscan.stores hexec
  have hN := hmoves.mem hscan.node_mem
  have hlen : H.length + bs.length = (H.blocks ++ bs).length := by simp
  have hstep : E.blockSteps H.length (bs ++ [b]) st₀ =
      E.blockStep (H.length + bs.length) b (E.blockSteps H.length bs st₀) := by
    rw [BlockScanEngine.blockSteps_append]
    rfl
  rw [← hstep] at hstores hr
  refine ⟨hmoves.trans hmoves', b, ⟨hmoves'.mem hN, hstores, ?_, ?_⟩, hr⟩
  · intro i b' hb'
    rw [← List.append_assoc] at hb'
    rcases Nat.lt_or_ge i (H.blocks ++ bs).length with hlt | hge
    · rw [List.getElem?_append_left hlt] at hb'
      exact hscan.served i b' hb'
    · rw [List.getElem?_append_right hge] at hb'
      have hi : i = (H.blocks ++ bs).length := by
        have := (List.getElem?_eq_some_iff.mp hb').1
        rw [List.length_singleton] at this
        omega
      rw [hi, Nat.sub_self] at hb'
      cases hb'
      exact ⟨node.chain, hN, by rw [hi, ← hlen, hb]⟩
  · rw [hsteady, hscan.steady_read hid hvalid hrep hidx hN, ← List.append_assoc]
    rw [hlen] at hb
    constructor
    · intro hpre
      exact ⟨node.chain, hN, concat_prefix hpre hb⟩
    · rintro ⟨c, hc, hpre⟩
      have hpre' := (List.prefix_append (H.blocks ++ bs) [b]).trans hpre
      have hnode : H.blocks ++ bs ++ [b] <+: node.chain := by
        refine hid.prefix_of_last hN hc hpre List.getLast?_concat ?_ rfl
        rw [List.length_append, List.length_singleton, Nat.add_sub_cancel]
        exact hb
      exact (List.prefix_append _ _).trans hnode

/-- The whole scan. -/
theorem LiveScan.scanBlocks {n : Nat} :
    ∀ {bs : List Block} {L L' : Live} {r : Map OutPoint WalletId × SyncSummary},
      LiveScan C E H st₀ bs L →
      Prog.Exec (liveEnv C) (E.scanBlocks (List.range' (H.length + bs.length) n)
        ((E.blockSteps H.length bs st₀).spendIndex, (E.blockSteps H.length bs st₀).summary))
        L (.ok r) L' →
      Moves C L.node L'.node ∧ ∃ bs', bs'.length = bs.length + n ∧
        LiveScan C E H st₀ bs' L' := by
  induction n with
  | zero =>
      intro bs L L' r hscan hexec
      obtain ⟨-, rfl⟩ := Prog.exec_pure.mp hexec
      exact ⟨.refl _, bs, rfl, hscan⟩
  | succ n ih =>
      intro bs L L' r hscan hexec
      rw [List.range'_succ, BlockScanEngine.scanBlocks] at hexec
      obtain ⟨r₁, L₁, hblock, hrest⟩ := Prog.exec_bind hexec
      obtain ⟨hmoves, b, hscan', rfl⟩ := hscan.scanBlock hid hvalid hrep hidx hblock
      have hlen : H.length + bs.length + 1 = H.length + (bs ++ [b]).length := by
        rw [List.length_append, List.length_singleton, Nat.add_assoc]
      rw [hlen] at hrest
      obtain ⟨hmoves', bs', hlen', hdone⟩ := ih hscan' hrest
      refine ⟨hmoves.trans hmoves', bs', ?_, hdone⟩
      rw [hlen', List.length_append, List.length_singleton]
      omega

end Steps

end Scan

/-! ## The pass -/

/-- The stores hold one linked chain up to the cursor `t`: its blocks,
its hash at the cursor, and its ledger. -/
structure OneChain {D : Type} [LwkDescriptor D] (S : Stores) (H : History D) (t : SyncedTip) :
    Prop where
  tip : S.blocks.tip = some t
  length : H.length = t.height + 1
  blocks : ∀ h ≤ t.height, S.blocks.blocks.lookup h = H.blocks[h]?.map storedBlock
  linked : Linked H.blocks
  cursor : S.blocks.blockHashAt t.height = some t.hash
  utxos : S.utxos.view = ledger H.batches

section Pass

variable {D : Type} [LwkDescriptor D] {C : Set (List Block)} {L L' : Live}
  {E : BlockScanEngine D} {H : History D}

/-- A consistent state: the stores hold a history on some branch, and
the node is not below its cursor. -/
structure Consistent (C : Set (List Block)) (L : Live) (H : History D) : Prop where
  node_mem : L.node.chain ∈ C
  history_mem : ∃ c ∈ C, H.blocks <+: c
  represents : Represents L.stores H
  length_le : H.length ≤ L.node.chain.length

/-- What a pass against a moving node leaves: the history below its
start, the blocks it scanned, and a cursor with the hash the node had
at the tip when it was asked again. -/
theorem exec_sync_live (hid : HashesIdentify C) (hvalid : ∀ c ∈ C, ValidChain c)
    (hstart : Consistent C L H) {summary : SyncSummary}
    (hexec : Prog.Exec (liveEnv C) E.sync L (.ok summary) L') :
    ∃ (k : Nat) (bs : List Block) (st₀ : ScanState) (L₁ : Live) (node : MockChainSource)
      (b : Block),
      (H.take k ++ History.scannedBy E bs) ≠ [] ∧
      Represents st₀.stores (H.take k) ∧ Mirrors st₀.spendIndex st₀.stores.utxos ∧
      LiveScan C E (H.take k) st₀ bs L₁ ∧ node.chain ∈ C ∧
      node.chain[(H.take k ++ History.scannedBy E bs).length - 1]? = some b ∧
      L'.steady = (L₁.steady && node.hasAll L₁.stores.blocks) ∧
      L'.stores = { L₁.stores with blocks := L₁.stores.blocks.setSyncedTip {
        height := (H.take k ++ History.scannedBy E bs).length - 1, hash := b.blockHash } } := by
  obtain ⟨tip, L₁, hcall, hrest⟩ := Prog.exec_bind hexec
  obtain ⟨node₁, hmoves₁, htip, rfl⟩ := exec_callChain hcall
  obtain ⟨htiplen, -⟩ := MockChainSource.tipHeight_eq_ok.mp htip
  obtain ⟨⟨n, summary₁⟩, L₂, hbegin, hrest⟩ := Prog.exec_bind hrest
  obtain ⟨hmoves₂, hn, hrep⟩ := exec_startHeight (L := L.read node₁ .tipHeight) hstart.represents
    hbegin
  obtain ⟨tipSucc, L₃, hsucc, hrest⟩ := Prog.exec_bind hrest
  obtain ⟨rfl, rfl⟩ := exec_heightSucc hsucc
  have hle : n ≤ tip + 1 := by
    rw [← htiplen]
    exact Nat.le_trans hn (Nat.le_trans hstart.length_le hmoves₁.length_le)
  rw [if_neg (Nat.not_lt.mpr hle)] at hrest
  obtain ⟨unspent, L₄, hcall, hrest⟩ := Prog.exec_bind hrest
  obtain ⟨rfl, rfl⟩ := exec_callStore hcall
  obtain ⟨⟨idx, summary₂⟩, L₅, hscan, hrest⟩ := Prog.exec_bind hrest
  have hlen : (H.take n).length = n := by rw [List.length_take, Nat.min_eq_left hn]
  have hN : L₂.node.chain ∈ C := hmoves₂.mem (hmoves₁.mem hstart.node_mem)
  have hpre : ∃ c ∈ C, History.blocks (H.take n) <+: c := by
    obtain ⟨c, hc, hH⟩ := hstart.history_mem
    refine ⟨c, hc, ?_⟩
    rw [History.blocks_take]
    exact (List.take_prefix _ _).trans hH
  have hinit : LiveScan C E (H.take n)
      ⟨L₂.stores, Map.collect L₂.stores.utxos.unspentOutpoints, summary₁⟩ []
      (L₂.write .unspentOutpoints) := .start hN hpre rfl rfl
  have hrange : List.range' n (tip + 1 - n) =
      List.range' ((H.take n).length + ([] : List Block).length) (tip + 1 - n) := by
    rw [hlen]
    rfl
  rw [hrange] at hscan
  obtain ⟨hmoves₃, bs, hbs, hdone⟩ :=
    hinit.scanBlocks hid hvalid hrep (mirrors_collect _) hscan
  dsimp only at hrest
  rw [if_pos hle] at hrest
  obtain ⟨hash, L₆, hcall, hrest⟩ := Prog.exec_bind hrest
  obtain ⟨node, hmoves, hhash, rfl⟩ := exec_callChain hcall
  obtain ⟨b, hb, rfl⟩ := MockChainSource.blockHash_eq_ok.mp hhash
  obtain ⟨_, L₇, hcall, hrest⟩ := Prog.exec_bind hrest
  obtain ⟨-, rfl⟩ := exec_callStore hcall
  obtain ⟨-, rfl⟩ := Prog.exec_pure.mp hrest
  have htotal : (H.take n ++ History.scannedBy E bs).length = tip + 1 := by
    rw [List.length_append, hlen, History.length_scannedBy, hbs, List.length_nil]
    omega
  refine ⟨n, bs, _, L₅, node, b, ?_, hrep, mirrors_collect _, hdone, hmoves.mem hdone.node_mem, ?_,
    rfl, ?_⟩
  · intro hnil
    rw [hnil] at htotal
    cases htotal
  · rw [htotal]
    exact hb
  · rw [htotal]
    rfl

theorem storedBlock_inj {b b' : Block} (h : storedBlock b = storedBlock b') : b = b' :=
  congrArg (fun stored : BlockHash × RawBlock => stored.2.encoded) h

/-- The stored blocks are those of the chain. -/
theorem OneChain.blocks_eq {S : Stores} {t : SyncedTip} (hone : OneChain S H t) {bs : List Block}
    (hlookup : ∀ h, S.blocks.blocks.lookup h = bs[h]?.map storedBlock)
    (hlen : bs.length = t.height + 1) : H.blocks = bs := by
  refine List.ext_getElem? fun i => ?_
  by_cases hi : i ≤ t.height
  · have hstored := hone.blocks i hi
    rw [hlookup] at hstored
    exact (Option.map_injective (fun _ _ => storedBlock_inj) hstored).symm
  · have hlenH : H.blocks.length = t.height + 1 := by rw [History.length_blocks, hone.length]
    rw [List.getElem?_eq_none (by omega), List.getElem?_eq_none (by omega)]

/-- A pass against a moving node leaves one linked chain, with its
cursor and its ledger, exactly when it was steady: at every block-hash
read from the scan loop on, all blocks then stored were on the node's
chain. -/
theorem moving_node_one_chain_iff (hid : HashesIdentify C) (hvalid : ∀ c ∈ C, ValidChain c)
    (hlinked : ∀ c ∈ C, Linked c) (hstart : Consistent C L H) {summary : SyncSummary}
    (hexec : Prog.Exec (liveEnv C) E.sync L (.ok summary) L') :
    (∃ k bs t, OneChain L'.stores (H.take k ++ History.scannedBy E bs) t) ↔ L'.steady := by
  obtain ⟨k, bs, st₀, L₁, node, b, hne, hrep, hidx, hscan, hN, hb, hsteady, hstores⟩ :=
    exec_sync_live hid hvalid hstart hexec
  obtain ⟨S, hS⟩ : ∃ S : History D, S = H.take k ++ History.scannedBy E bs := ⟨_, rfl⟩
  have hblocks : S.blocks = History.blocks (H.take k) ++ bs := by
    rw [hS, History.blocks_append, History.blocks_scannedBy]
  rw [← hS] at hne hb hstores
  have hlookup : ∀ h, L'.stores.blocks.blocks.lookup h = S.blocks[h]?.map storedBlock := by
    intro h
    rw [hstores, hblocks]
    exact hscan.lookup hvalid hrep hidx h
  have htip : L'.stores.blocks.tip = some { height := S.length - 1, hash := b.blockHash } := by
    rw [hstores]
    rfl
  have hpos := List.length_pos_iff.mpr hne
  obtain ⟨b', hb', -⟩ := History.cursor_of_ne_nil hne
  have hlast : S.blocks.getLast? = some b' := by
    rw [List.getLast?_eq_getElem?, History.length_blocks, hb']
  rw [hsteady, hscan.steady_read hid hvalid hrep hidx hN, ← hblocks]
  constructor
  · -- The blocks stored are the ones scanned, linked and below the cursor.
    rintro ⟨k', bs', t, hone⟩
    obtain rfl := Option.some.inj (htip.symm.trans hone.tip)
    have hsame := hone.blocks_eq hlookup (by rw [History.length_blocks]; dsimp only; omega)
    have hlinkedS : Linked S.blocks := by
      rw [← hsame]
      exact hone.linked
    obtain ⟨c, hc, hpre⟩ := exists_prefix_of_linked hid hlinked ⟨_, hN⟩
      (fun i b hb => hscan.served i b (by rw [← hblocks, hb])) hlinkedS
    have hcursor := hone.cursor
    rw [MemBlockStore.blockHashAt, hlookup, hb'] at hcursor
    refine hid.prefix_of_last hN hc hpre hlast ?_ (Option.some.inj hcursor)
    rw [History.length_blocks, hb]
  · intro hpre
    have hbb' : b = b' := by
      have hlt : S.length - 1 < S.blocks.length := by rw [History.length_blocks]; omega
      have := List.prefix_iff_getElem?.mp hpre _ hlt
      rw [hb, ← List.getElem?_eq_getElem hlt, hb'] at this
      exact Option.some.inj this
    have hvalidS : ValidChain (History.blocks (H.take k) ++ bs) := by
      rw [← hblocks]
      exact (hvalid _ hN).sublist hpre.sublist
    have hfinal : Represents L'.stores S := by
      rw [hS]
      refine (hrep.holds E).represents hvalidS List.nil_prefix (hscan.scanned hvalid hidx) ?_
      rw [← hS, History.cursor_eq, hlast, ← hbb', hstores, hscan.stores]
      exact ⟨rfl, by rw [History.length_blocks]; rfl, rfl⟩
    refine ⟨k, bs, { height := S.length - 1, hash := b.blockHash }, ?_⟩
    rw [← hS]
    refine ⟨htip, (Nat.sub_add_cancel hpos).symm, fun h _ => hlookup h, ?_, ?_, hfinal.utxos⟩
    · exact List.IsChain.prefix (hlinked _ hN) hpre
    · rw [MemBlockStore.blockHashAt, hlookup, hb', hbb']
      rfl

end Pass

/-! A chain of four blocks, and the branch the node moves to when it is
asked for the last of them. -/

def fourBlocks : MockChainSource :=
  ⟨[⟨⟨10⟩, ⟨0⟩, []⟩, ⟨⟨41⟩, ⟨10⟩, []⟩, ⟨⟨42⟩, ⟨41⟩, [payment]⟩, ⟨⟨43⟩, ⟨42⟩, []⟩]⟩

def lateReorg : NodeEvent := .reorg 1 [⟨⟨52⟩, ⟨41⟩, []⟩, ⟨⟨53⟩, ⟨52⟩, []⟩]

def movingChains : List (List Block) := [fourBlocks.chain, (fourBlocks.apply lateReorg).chain]

/-- The node on the first chain moves to the other branch before the
reads in `late`. -/
def lateNode (late : ChainOp → Bool) (node : MockChainSource) (op : ChainOp) : MockChainSource :=
  if late op ∧ node = fourBlocks then node.apply lateReorg else node

def lateAnswer (node : MockChainSource) : (op : ChainOp) → Except SyncError op.Res
  | .tipHeight => node.tipHeight
  | .blockHash height => node.blockHash height
  | .block hash => (MockChainSource.mk movingChains.flatten).block hash

def lateStep (late : ChainOp → Bool) (L : Live) :
    (op : SyncOp) → Except SyncError op.Res × Live
  | .chain op =>
      match lateAnswer (lateNode late L.node op) op with
      | .ok v => (.ok v, L.read (lateNode late L.node op) op)
      | .error e => (.error e, L)
  | .store op => (.ok (op.exec L.stores).1, L.write op)

theorem moves_lateNode (late : ChainOp → Bool) (node : MockChainSource) (op : ChainOp) :
    Moves {c | c ∈ movingChains} node (lateNode late node op) := by
  unfold lateNode
  split
  · next h =>
      rw [h.2]
      exact .event lateReorg (.refl fourBlocks) (by decide) (by simp [movingChains])
  · exact .refl node

theorem serves_lateAnswer {node : MockChainSource} {op : ChainOp} {v : op.Res}
    (h : lateAnswer node op = .ok v) : Serves {c | c ∈ movingChains} node op v := by
  cases op with
  | tipHeight => exact h
  | blockHash height => exact h
  | block hash =>
      obtain ⟨hmem, hhash⟩ := MockChainSource.block_eq_ok h
      obtain ⟨c, hc, hb⟩ := List.mem_flatten.mp hmem
      exact ⟨c, hc, hb, hhash⟩

theorem liveEnv_lateStep (late : ChainOp → Bool) (L : Live) (op : SyncOp) :
    liveEnv {c | c ∈ movingChains} L op (lateStep late L op).1 (lateStep late L op).2 := by
  cases op with
  | store op => exact ⟨rfl, rfl⟩
  | chain op =>
      unfold lateStep
      dsimp only
      cases h : lateAnswer (lateNode late L.node op) op with
      | ok v => exact ⟨_, moves_lateNode late L.node op, serves_lateAnswer h, rfl⟩
      | error e => rfl

theorem exec_lateStep (late : ChainOp → Bool) {p : SyncProg SyncSummary} {L : Live}
    {o : Outcome SyncError SyncSummary} (ho : (Prog.run (lateStep late) p L).1 = o) :
    Prog.Exec (liveEnv {c | c ∈ movingChains}) p L o (Prog.run (lateStep late) p L).2 :=
  ho ▸ Prog.exec_run (liveEnv_lateStep late) p L

theorem hashesIdentify_movingChains : HashesIdentify {c | c ∈ movingChains} :=
  hashesIdentify_of_list (by decide)

theorem validChain_movingChains : ∀ c ∈ {c | c ∈ movingChains}, ValidChain c := by
  have hall : ∀ c ∈ movingChains, ValidChain c := by decide
  exact hall

theorem linked_movingChains : ∀ c ∈ {c | c ∈ movingChains}, Linked c := by
  have hall : ∀ c ∈ movingChains, Linked c := by decide
  exact hall

/-- An empty start, with the node on the first chain. -/
def liveStart : Live := ⟨fourBlocks, Stores.new, false⟩

theorem consistent_liveStart :
    Consistent {c | c ∈ movingChains} liveStart ([] : History PlainDescriptor) where
  node_mem := List.mem_cons_self ..
  history_mem := ⟨fourBlocks.chain, List.mem_cons_self .., List.nil_prefix⟩
  represents := represents_new
  length_le := Nat.zero_le _

/-- The node moves when no block of the branch it leaves has been read:
the pass goes on along the other one. -/
theorem moving_node_one_chain_iff_fourBlocks :
    (Prog.run (lateStep (· == .blockHash 2)) plainEngine.sync liveStart).2.node =
        fourBlocks.apply lateReorg ∧
      ∃ k bs t,
        OneChain (Prog.run (lateStep (· == .blockHash 2)) plainEngine.sync liveStart).2.stores
          (([] : History PlainDescriptor).take k ++ History.scannedBy plainEngine bs) t :=
  ⟨rfl, (moving_node_one_chain_iff hashesIdentify_movingChains validChain_movingChains
    linked_movingChains consistent_liveStart
    (exec_lateStep (· == .blockHash 2) (o := .ok { blocksScanned := 4 }) rfl)).mpr rfl⟩

/-- The node moves before it is asked for the last block: the pass
succeeds and leaves blocks that are not linked. -/
theorem late_reorg_breaks_links : ¬∀ (C : Set (List Block)) (E : BlockScanEngine PlainDescriptor)
    (L L' : Live) (H : History PlainDescriptor) (summary : SyncSummary), HashesIdentify C →
    (∀ c ∈ C, ValidChain c) → (∀ c ∈ C, Linked c) → Consistent C L H →
    Prog.Exec (liveEnv C) E.sync L (.ok summary) L' →
    ∃ k bs t, OneChain L'.stores (H.take k ++ History.scannedBy E bs) t := by
  intro hgeneral
  obtain ⟨k, bs, t, hone⟩ := hgeneral _ plainEngine _ _ _ _ hashesIdentify_movingChains
    validChain_movingChains linked_movingChains consistent_liveStart
    (exec_lateStep (fun op => op == .blockHash 3)
      (o := .ok { blocksScanned := 4, utxosCaptured := 1 }) rfl)
  have htip : (some t : Option SyncedTip) = some ⟨3, ⟨53⟩⟩ := hone.tip.symm
  obtain rfl := Option.some.inj htip
  have hstored : ∀ (h : Nat) (b : Block), h ≤ 3 →
      (Prog.run (lateStep fun op => op == .blockHash 3)
        plainEngine.sync liveStart).2.stores.blocks.blocks.lookup
        h = some (storedBlock b) →
      (History.blocks (List.take k [] ++ History.scannedBy plainEngine bs))[h]? = some b := by
    intro h b hle hlookup
    exact Option.map_injective (fun _ _ => storedBlock_inj) ((hone.blocks h hle).symm.trans hlookup)
  obtain ⟨h₂, heq₂⟩ := List.getElem?_eq_some_iff.mp
    (hstored 2 ⟨⟨42⟩, ⟨41⟩, [payment]⟩ (by decide) rfl)
  obtain ⟨h₃, heq₃⟩ := List.getElem?_eq_some_iff.mp
    (hstored 3 ⟨⟨53⟩, ⟨52⟩, []⟩ (by decide) rfl)
  have hparent := List.isChain_iff_getElem.mp hone.linked 2 h₃
  rw [heq₂, heq₃] at hparent
  cases hparent

end EmvaultElements
