import EmvaultElements.History
import EmvaultElements.Pass

/-!
# What a pass does to a history

A pass rescans from the fork between the history the stores hold and
the node's chain.

- `started_of_cursor_on`, `started_of_cursor_off`: where it starts. With
  the cursor block on the node's chain it starts right above the cursor
  and touches nothing; otherwise it starts at the fork, and the rollback
  leaves exactly the history below it.
- `Loop`: the invariant of the scan loop, and what it says about the
  stores at every point where the loop can stop.
- `holds_of_passEnd`: how the stores are left by a pass from any state
  that an earlier pass may have left.
-/

namespace EmvaultElements

open Ledger

variable {D : Type} [LwkDescriptor D]

/-! ## Comparing hashes -/

section Hashes

variable {C : Set (List Block)} (hid : HashesIdentify C)

include hid

/-- Equal hashes at a height below the end of both: below the fork. -/
theorem HashesIdentify.hash_eq_iff {l N : List Block} (hc : ∃ l' ∈ C, l <+: l') (hN : N ∈ C)
    {h : Nat} {b b' : Block} (hb : l[h]? = some b) (hb' : N[h]? = some b') :
    b.blockHash = b'.blockHash ↔ h < fork l N := by
  constructor
  · intro heq
    obtain ⟨l', hc', rest, rfl⟩ := hc
    have hlt : h < l.length := (List.getElem?_eq_some_iff.mp hb).1
    have hb₁ : (l ++ rest)[h]? = some b := by rw [List.getElem?_append_left hlt, hb]
    obtain ⟨-, htake⟩ := hid _ hc' _ hN h h b b' hb₁ hb' heq
    rw [List.take_append_of_le_length hlt] at htake
    exact le_fork hlt htake
  · intro hlt
    have := getElem?_of_lt_fork hlt
    rw [hb, hb'] at this
    rw [Option.some.inj this]

theorem HashesIdentify.nodup {N : List Block} (hN : N ∈ C) : (N.map (·.blockHash)).Nodup := by
  rw [List.nodup_iff_injective_getElem]
  intro i j heq
  have hi : i.val < N.length := by simpa using i.isLt
  have hj : j.val < N.length := by simpa using j.isLt
  have hij := (hid N hN N hN i j N[i.val] N[j.val] (List.getElem?_eq_getElem hi)
    (List.getElem?_eq_getElem hj) (by simpa using heq)).1
  exact Fin.ext hij

end Hashes

/-! ## The start -/

section Start

variable {C : Set (List Block)} {node : MockChainSource} {E : BlockScanEngine D} {S : Stores}
  {H : History D} {Y : List Block}

theorem Holds.lookup_lt (h : Holds E S H Y) {i : Nat} (hi : i < H.length) :
    S.blocks.blocks.lookup i = H.blocks[i]?.map storedBlock := by
  rw [h.blocks, List.getElem?_append_left (by simpa using hi)]

/-- The node agrees with the store exactly below the fork. -/
theorem sameAt_eq (hid : HashesIdentify C) (hN : node.chain ∈ C) (hH : ∃ c ∈ C, H.blocks <+: c)
    (hlen : H.length ≤ node.chain.length) (h : Holds E S H Y) {i : Nat} (hi : i < H.length) :
    node.sameAt S.blocks i = decide (i < fork H.blocks node.chain) := by
  obtain ⟨b, hb⟩ : ∃ b, H.blocks[i]? = some b :=
    ⟨_, List.getElem?_eq_getElem (by simpa using hi)⟩
  obtain ⟨b', hb'⟩ : ∃ b', node.chain[i]? = some b' :=
    ⟨_, List.getElem?_eq_getElem (Nat.lt_of_lt_of_le hi hlen)⟩
  have hiff := hid.hash_eq_iff hH hN hb hb'
  simp [MockChainSource.sameAt, MemBlockStore.blockHashAt, h.lookup_lt hi, hb, hb', storedBlock,
    hiff]

theorem ancestorOf_eq (hid : HashesIdentify C) (hN : node.chain ∈ C)
    (hH : ∃ c ∈ C, H.blocks <+: c) (hlen : H.length ≤ node.chain.length) (h : Holds E S H Y)
    (hgen : 0 < fork H.blocks node.chain) : ∀ {i : Nat}, i < H.length →
    fork H.blocks node.chain ≤ i + 1 →
    node.ancestorOf S.blocks i = fork H.blocks node.chain - 1
  | 0, _, hle => by
      rw [MockChainSource.ancestorOf]
      omega
  | i + 1, hi, hle => by
      rw [MockChainSource.ancestorOf, sameAt_eq hid hN hH hlen h hi]
      by_cases hlt : i + 1 < fork H.blocks node.chain
      · rw [if_pos (decide_eq_true hlt)]
        omega
      · rw [if_neg (by simpa using hlt)]
        exact ancestorOf_eq hid hN hH hlen h hgen (Nat.lt_of_succ_lt hi) (Nat.not_lt.mp hlt)

omit [LwkDescriptor D] in
/-- With the cursor on the node's chain, or no cursor, a pass starts
above it. -/
theorem started_of_cursor_on (hid : HashesIdentify C) (hN : node.chain ∈ C)
    (hH : ∃ c ∈ C, H.blocks <+: c) (hlen : H.length ≤ node.chain.length)
    (htip : S.blocks.tip = H.cursor) (hon : fork H.blocks node.chain = H.length) :
    node.started S = (H.length, {}, S) := by
  unfold MockChainSource.started
  rw [MemBlockStore.syncedTip, htip]
  by_cases hnil : H = []
  · subst hnil
    rfl
  · obtain ⟨b, hb, hcursor⟩ := History.cursor_of_ne_nil hnil
    have hpos := List.length_pos_iff.mpr hnil
    obtain ⟨b', hb'⟩ : ∃ b', node.chain[H.length - 1]? = some b' :=
      ⟨_, List.getElem?_eq_getElem (by omega)⟩
    have hsame := (hid.hash_eq_iff hH hN hb hb').mpr (by omega)
    rw [hcursor]
    simp only [hb', Option.map_some, hsame, if_true]
    rw [Nat.sub_add_cancel hpos]

/-- A rollback leaves exactly the history up to its height. -/
theorem Holds.rollbackAbove (h : Holds E S H Y) {a : Nat} (ha : a < H.length) :
    Represents { blocks := S.blocks.rollbackAbove a, utxos := S.utxos.rollbackAbove a }
      (H.take (a + 1)) := by
  have hnil : H ≠ [] := List.length_pos_iff.mp (by omega)
  refine ⟨?_, ?_, ?_⟩
  · intro i
    dsimp only
    rw [MemBlockStore.lookup_rollbackAbove, History.blocks_take]
    by_cases hi : i ≤ a
    · rw [if_pos hi, h.lookup_lt (by omega), List.getElem?_take_of_lt (by omega)]
    · rw [if_neg hi, List.getElem?_take_eq_none (by omega)]
      rfl
  · obtain ⟨b, -, hcursor⟩ := History.cursor_of_ne_nil hnil
    have htip := h.tip.trans hcursor
    rcases Nat.eq_or_lt_of_le (Nat.le_sub_one_of_lt ha) with hlast | hlt
    · -- The cursor was at the height rolled back to.
      rw [List.take_of_length_le (by omega), ← h.tip]
      refine MemBlockStore.tip_rollbackAbove_of_le ?_
      intro t ht
      obtain rfl := Option.some.inj (htip.symm.trans ht)
      exact Nat.le_of_eq hlast.symm
    · obtain ⟨b₀, hb₀⟩ : ∃ b₀, H.blocks[a]? = some b₀ :=
        ⟨_, List.getElem?_eq_getElem (by simpa using ha)⟩
      have hstored : S.blocks.blocks.lookup a = some (b₀.blockHash, serialize b₀) := by
        rw [h.lookup_lt ha, hb₀]
        rfl
      have htake : (H.take (a + 1)) ≠ [] :=
        List.length_pos_iff.mp (by rw [List.length_take]; omega)
      have hlen : (H.take (a + 1)).length - 1 = a := by rw [List.length_take]; omega
      obtain ⟨b₁, hb₁, hcur⟩ := History.cursor_of_ne_nil htake
      rw [hlen, History.blocks_take, List.getElem?_take_of_lt (Nat.lt_succ_self a), hb₀] at hb₁
      obtain rfl := Option.some.inj hb₁
      dsimp only
      rw [MemBlockStore.tip_rollbackAbove htip hlt hstored, hcur, hlen]
  · dsimp only
    rw [MemUtxoStore.view_rollbackAbove, History.batches_take]
    have hpre : H.batches <+: History.batches (H ++ History.scannedBy E Y) := by
      rw [History.batches_append]
      exact List.prefix_append _ _
    exact Interrupted.rollbackAbove_eq_ledger hpre (by simpa using ha) h.utxos

/-- With the cursor off the node's chain, the rollback leaves exactly
the history below the fork. -/
theorem started_of_cursor_off (hid : HashesIdentify C) (hN : node.chain ∈ C)
    (hH : ∃ c ∈ C, H.blocks <+: c) (hlen : H.length ≤ node.chain.length) (h : Holds E S H Y)
    (hgen : 0 < fork H.blocks node.chain) (hoff : fork H.blocks node.chain < H.length) :
    node.started S = (fork H.blocks node.chain, { reorgTo := some (fork H.blocks node.chain - 1) },
      { blocks := S.blocks.rollbackAbove (fork H.blocks node.chain - 1)
        utxos := S.utxos.rollbackAbove (fork H.blocks node.chain - 1) }) ∧
      Represents (node.started S).2.2 (H.take (fork H.blocks node.chain)) := by
  have hnil : H ≠ [] := List.length_pos_iff.mp (by omega)
  obtain ⟨b, hb, hcursor⟩ := History.cursor_of_ne_nil hnil
  obtain ⟨b', hb'⟩ : ∃ b', node.chain[H.length - 1]? = some b' :=
    ⟨_, List.getElem?_eq_getElem (by omega)⟩
  have hdiff : ¬b'.blockHash = b.blockHash := by
    intro heq
    have := (hid.hash_eq_iff hH hN hb hb').mp heq.symm
    omega
  have hanc := ancestorOf_eq hid hN hH hlen h hgen (i := H.length - 1) (by omega) (by omega)
  generalize hp : fork H.blocks node.chain = p at *
  have hstart : node.started S = (p - 1 + 1, { reorgTo := some (p - 1) },
      { blocks := S.blocks.rollbackAbove (p - 1), utxos := S.utxos.rollbackAbove (p - 1) }) := by
    unfold MockChainSource.started
    rw [MemBlockStore.syncedTip, h.tip, hcursor]
    simp only [hb', Option.map_some, Option.some.injEq, if_neg hdiff, hanc]
  have hroll := h.rollbackAbove (a := p - 1) (by omega)
  rw [hstart, Nat.sub_add_cancel hgen]
  rw [Nat.sub_add_cancel hgen] at hroll
  exact ⟨rfl, hroll⟩

end Start

/-! ## The loop -/

/-- The scan loop writes the blocks it is given, each at its height. -/
theorem lookup_blockSteps (E : BlockScanEngine D) {bs : List Block} : ∀ {n : Nat} (st : ScanState)
    (h : Nat), (E.blockSteps n bs st).stores.blocks.blocks.lookup h =
      if n ≤ h ∧ h < n + bs.length then bs[h - n]?.map storedBlock
      else st.stores.blocks.blocks.lookup h := by
  induction bs with
  | nil =>
      intro n st h
      rw [if_neg (by simp)]
      rfl
  | cons b bs ih =>
      intro n st h
      have hstored : (E.blockStep n b st).stores.blocks.blocks.lookup h =
          if h = n then some (storedBlock b) else st.stores.blocks.blocks.lookup h :=
        MemBlockStore.lookup_storeBlock _ _ _ _ _
      rw [BlockScanEngine.blockSteps, ih, hstored, List.length_cons]
      rcases Nat.lt_trichotomy h n with hlt | rfl | hgt
      · rw [if_neg (by omega), if_neg (by omega), if_neg (by omega)]
      · rw [if_neg (by omega), if_pos rfl, if_pos (by omega), Nat.sub_self]
        rfl
      · obtain ⟨k, rfl⟩ : ∃ k, h = n + 1 + k := Nat.exists_eq_add_of_le hgt
        rw [Nat.add_sub_cancel_left, show n + 1 + k - n = k + 1 by omega, List.getElem?_cons_succ]
        by_cases hk : k < bs.length
        · rw [if_pos (by omega), if_pos (by omega)]
        · rw [if_neg (by omega), if_neg (by omega), if_neg (by omega)]

theorem tip_blockSteps (E : BlockScanEngine D) {bs : List Block} : ∀ {n : Nat} (st : ScanState),
    (E.blockSteps n bs st).stores.blocks.tip = st.stores.blocks.tip := by
  induction bs with
  | nil => exact fun _ => rfl
  | cons b bs ih => exact fun st => ih (E.blockStep _ b st)

/-- What scanning the blocks `bs` at heights `n`, `n + 1`, … makes of
the stores `S`: the invariant of the scan loop. -/
structure Scanned (E : BlockScanEngine D) (n : Nat) (bs : List Block) (S : Stores)
    (st : ScanState) : Prop where
  blocks : ∀ h, st.stores.blocks.blocks.lookup h =
    if n ≤ h ∧ h < n + bs.length then bs[h - n]?.map storedBlock else S.blocks.blocks.lookup h
  tip : st.stores.blocks.tip = S.blocks.tip
  utxos : st.stores.utxos.view =
    scanFrom n (History.batchesFrom n (History.scannedBy E bs)) S.utxos.view
  index : Mirrors st.spendIndex st.stores.utxos

theorem scanned_blockSteps (E : BlockScanEngine D) {bs : List Block} : ∀ {n : Nat} (st : ScanState),
    (∀ b ∈ bs, ValidTxs b.txdata) → Mirrors st.spendIndex st.stores.utxos →
    Scanned E n bs st.stores (E.blockSteps n bs st) := by
  induction bs with
  | nil =>
      intro n st _ hidx
      exact ⟨lookup_blockSteps E st, rfl, rfl, hidx⟩
  | cons b bs ih =>
      intro n st hvalid hidx
      have hb := hvalid b (List.mem_cons_self ..)
      have hstep := ih (n := n + 1) (E.blockStep n b st)
        (fun b' hb' => hvalid b' (List.mem_cons_of_mem b hb'))
        (BlockScanEngine.mirrors_scan hb hidx)
      refine ⟨lookup_blockSteps E st, tip_blockSteps E st, ?_, hstep.index⟩
      have hview : (E.blockStep n b st).stores.utxos.view =
          scan n (E.batchAt n b) st.stores.utxos.view := BlockScanEngine.view_scan hb hidx
      rw [BlockScanEngine.blockSteps, hstep.utxos, hview]
      rfl

/-- Of two continuations of one chain, the longer is the second written
over the first. -/
theorem exists_longer {H c Y Z : List Block} (hY : H ++ Y <+: c) (hZ : H ++ Z <+: c) :
    ∃ W, H ++ W <+: c ∧ Y <+: W ∧ Z <+: W ∧ Z ++ Y.drop Z.length = W := by
  rcases List.prefix_or_prefix_of_prefix hY hZ with h | h
  · have hle := (List.prefix_append_right_inj H).mp h
    refine ⟨Z, hZ, hle, List.prefix_refl Z, ?_⟩
    rw [List.drop_eq_nil_of_le hle.length_le, List.append_nil]
  · have hle := (List.prefix_append_right_inj H).mp h
    exact ⟨Y, hY, List.prefix_refl Y, hle, (List.prefix_iff_eq_append.mp hle)⟩

/-- Writing `bs` over what follows `l`. -/
theorem getElem?_overwrite {α β : Type} (f : α → β) (l y bs : List α) (i : Nat) :
    (if l.length ≤ i ∧ i < l.length + bs.length then bs[i - l.length]?.map f
      else (l ++ y)[i]?.map f) = (l ++ (bs ++ y.drop bs.length))[i]?.map f := by
  rcases Nat.lt_or_ge i l.length with hlt | hge
  · rw [if_neg (by omega), List.getElem?_append_left hlt, List.getElem?_append_left hlt]
  · obtain ⟨k, rfl⟩ := Nat.exists_eq_add_of_le hge
    rw [List.getElem?_append_right hge, List.getElem?_append_right hge, Nat.add_sub_cancel_left]
    rcases Nat.lt_or_ge k bs.length with hk | hk
    · rw [if_pos (by omega), List.getElem?_append_left hk]
    · rw [if_neg (by omega), List.getElem?_append_right hk, List.getElem?_drop,
        Nat.add_sub_cancel' hk]

section Loop

variable {E : BlockScanEngine D} {S₁ S' : Stores} {H : History D} {Y bs : List Block}
  {c : List Block} {st : ScanState}

/-- Stores that hold the blocks of a partial scan, and a view any
further scan can be in, hold the history and leftovers on the chain. -/
theorem Holds.of_stopped (h : Holds E S₁ H Y) (hY : H.blocks ++ Y <+: c)
    (hbs : H.blocks ++ bs <+: c) (hblocks : ∀ i, S'.blocks.blocks.lookup i =
      if H.length ≤ i ∧ i < H.length + bs.length then bs[i - H.length]?.map storedBlock
      else S₁.blocks.blocks.lookup i)
    (htip : S'.blocks.tip = S₁.blocks.tip)
    (hutxos : ∀ W, H.blocks ++ W <+: c → Y <+: W → bs <+: W →
      Interrupted H.batches (History.batches (H ++ History.scannedBy E W)) S'.utxos.view) :
    ∃ W, Holds E S' H W ∧ H.blocks ++ W <+: c := by
  obtain ⟨W, hW, hYW, hbsW, hover⟩ := exists_longer hY hbs
  refine ⟨W, ⟨?_, htip.trans h.tip, hutxos W hW hYW hbsW⟩, hW⟩
  intro i
  rw [hblocks, h.blocks, ← History.length_blocks, getElem?_overwrite, hover]

/-- Leftovers on the chain, as seen from any longer scan. -/
theorem Holds.interrupted (h : Holds E S₁ H Y) {W : List Block}
    (hvalid : ValidChain (H.blocks ++ W)) (hYW : Y <+: W) :
    Interrupted H.batches (History.batches (H ++ History.scannedBy E W)) S₁.utxos.view := by
  have hvalidB := History.valid_batches_scannedBy (E := E) hvalid
  obtain ⟨Z, rfl⟩ := hYW
  rw [History.scannedBy_append, ← List.append_assoc, History.batches_append] at hvalidB ⊢
  refine h.utxos.append hvalidB ?_
  rw [History.batches_append]
  exact List.prefix_append _ _

/-- What a partial scan over leftovers makes of the view, as seen from
any longer scan. -/
theorem Holds.interrupted_scanned (h : Holds E S₁ H Y) (hvalid : ValidChain c)
    (hscan : Scanned E H.length bs S₁ st) {W : List Block} (hW : H.blocks ++ W <+: c)
    (hYW : Y <+: W) (hbsW : bs <+: W) :
    Interrupted H.batches (History.batches (H ++ History.scannedBy E W))
      st.stores.utxos.view := by
  have hchain : ValidChain (H.blocks ++ W) := hvalid.sublist hW.sublist
  have hvalidW := History.valid_batches_scannedBy (E := E) hchain
  have hfrom := h.interrupted hchain hYW
  obtain ⟨Z, rfl⟩ := hbsW
  rw [hscan.utxos]
  rw [History.scannedBy_append, History.batches_append,
    History.batchesFrom_append] at hvalidW hfrom ⊢
  rw [← History.length_batches H] at hvalidW hfrom ⊢
  exact hfrom.scanFrom hvalidW

/-- A scan of blocks of `c` that stops between two blocks. -/
theorem Holds.of_scanned (h : Holds E S₁ H Y) (hY : H.blocks ++ Y <+: c) (hvalid : ValidChain c)
    (hbs : H.blocks ++ bs <+: c) (hscan : Scanned E H.length bs S₁ st) :
    ∃ W, Holds E st.stores H W ∧ H.blocks ++ W <+: c :=
  h.of_stopped hY hbs hscan.blocks hscan.tip fun _ => h.interrupted_scanned hvalid hscan

/-- A scan of blocks of `c` that stops inside the block `b`. -/
theorem Holds.of_partOf {b : Block} (h : Holds E S₁ H Y) (hY : H.blocks ++ Y <+: c)
    (hvalid : ValidChain c) (hbs : H.blocks ++ (bs ++ [b]) <+: c)
    (hscan : Scanned E H.length bs S₁ st) (hpart : E.PartOf (H.length + bs.length) b st S') :
    ∃ W, Holds E S' H W ∧ H.blocks ++ W <+: c := by
  have hpre : H.blocks ++ bs <+: c := by
    rw [← List.append_assoc] at hbs
    exact (List.prefix_append _ _).trans hbs
  have hbsb : bs <+: bs ++ [b] := List.prefix_append _ _
  have hstored : ∀ i, (st.stores.blocks.storeBlock (H.length + bs.length) b.blockHash
      (serialize b)).blocks.lookup i =
      if H.length ≤ i ∧ i < H.length + (bs ++ [b]).length then
        (bs ++ [b])[i - H.length]?.map storedBlock
      else S₁.blocks.blocks.lookup i := by
    intro i
    rw [MemBlockStore.lookup_storeBlock, hscan.blocks, List.length_append, List.length_singleton]
    rcases Nat.lt_trichotomy i (H.length + bs.length) with hlt | rfl | hgt
    · rw [if_neg (by omega)]
      by_cases hi : H.length ≤ i
      · rw [if_pos (by omega), if_pos (by omega), List.getElem?_append_left (by omega)]
      · rw [if_neg (by omega), if_neg (by omega)]
    · rw [if_pos rfl, if_pos (by omega), Nat.add_sub_cancel_left, List.getElem?_concat_length]
      rfl
    · rw [if_neg (by omega), if_neg (by omega), if_neg (by omega)]
  cases hpart with
  | nothing => exact h.of_scanned hY hvalid hpre hscan
  | stored =>
      refine h.of_stopped hY hbs hstored hscan.tip ?_
      intro W hW hYW hbsW
      exact h.interrupted_scanned hvalid hscan hW hYW (hbsb.trans hbsW)
  | captured =>
      refine h.of_stopped hY hbs hstored hscan.tip ?_
      intro W hW hYW hbsW
      have hint := h.interrupted_scanned hvalid hscan hW hYW (hbsb.trans hbsW)
      have hvalidW : ValidChain (H.blocks ++ W) := hvalid.sublist hW.sublist
      obtain ⟨Z, rfl⟩ := hbsW
      have hb : ValidTxs b.txdata := hvalidW.block (by simp)
      have hsplit : History.batches (H ++ History.scannedBy E (bs ++ [b] ++ Z)) = H.batches ++
          (History.batchesFrom H.length (History.scannedBy E bs) ++
            E.batchAt (H.length + bs.length) b ::
              History.batchesFrom (H.length + bs.length + 1) (History.scannedBy E Z)) := by
        rw [List.append_assoc, History.scannedBy_append, History.batches_append,
          History.batchesFrom_append, History.length_scannedBy]
        rfl
      have hvalidB := History.valid_batches_scannedBy (E := E) hvalidW
      dsimp only
      rw [BlockScanEngine.scanTxs_captured, BlockScanEngine.view_upsert hb]
      rw [hsplit] at hint hvalidB ⊢
      have hcapture := hint.capture hvalidB
      rw [History.length_batches, History.length_batchesFrom, History.length_scannedBy] at hcapture
      exact hcapture

/-- A complete scan repairs the leftovers. -/
theorem Holds.represents (h : Holds E S₁ H Y) (hvalid : ValidChain (H.blocks ++ bs))
    (hY : Y <+: bs) (hscan : Scanned E H.length bs S₁ st) (htip : S'.blocks.blocks =
      st.stores.blocks.blocks ∧ S'.blocks.tip = (H ++ History.scannedBy E bs).cursor ∧
      S'.utxos = st.stores.utxos) : Represents S' (H ++ History.scannedBy E bs) := by
  obtain ⟨hblocks, hcursor, hutxos⟩ := htip
  refine ⟨?_, hcursor, ?_⟩
  · intro i
    rw [hblocks, hscan.blocks, h.blocks, History.blocks_append, History.blocks_scannedBy,
      ← History.length_blocks, getElem?_overwrite, List.drop_eq_nil_of_le hY.length_le,
      List.append_nil]
  · have hvalidB := History.valid_batches_scannedBy (E := E) hvalid
    have hfrom := h.interrupted hvalid hY
    rw [hutxos, hscan.utxos]
    rw [History.batches_append] at hvalidB hfrom ⊢
    rw [← History.length_batches H] at hvalidB hfrom ⊢
    exact hfrom.scanFrom_eq_ledger hvalidB

end Loop

/-! ## The pass -/

section Pass

variable {C : Set (List Block)} {node : MockChainSource} {faulty : SyncOp → Prop}
  {E : BlockScanEngine D} {S S' : Stores} {H : History D} {Y : List Block}

theorem Holds.tip_lt (h : Holds E S H Y) (hlen : H.length ≤ node.chain.length) :
    ∀ t, S.blocks.tip = some t → t.height < node.chain.length := by
  intro t ht
  by_cases hnil : H = []
  · subst hnil
    rw [h.tip] at ht
    cases ht
  · obtain ⟨b, -, hcursor⟩ := History.cursor_of_ne_nil hnil
    have hpos := List.length_pos_iff.mpr hnil
    rw [h.tip, hcursor] at ht
    cases ht
    dsimp only
    omega

/-- A pass starts from the history below the fork, and leftovers on the
node's chain. -/
theorem holds_started (hid : HashesIdentify C) (hN : node.chain ∈ C)
    (hH : ∃ c ∈ C, H.blocks <+: c) (hgen : H ≠ [] → 0 < fork H.blocks node.chain)
    (hlen : H.length ≤ node.chain.length)
    (hY : fork H.blocks node.chain = H.length → H.blocks ++ Y <+: node.chain)
    (h : Holds E S H Y) :
    (node.started S).1 = (H.take (fork H.blocks node.chain)).length ∧
      ∃ Y₁, Holds E (node.started S).2.2 (H.take (fork H.blocks node.chain)) Y₁ ∧
        History.blocks (H.take (fork H.blocks node.chain)) ++ Y₁ <+: node.chain := by
  have hle : fork H.blocks node.chain ≤ H.length := by simpa using fork_le_left H.blocks node.chain
  rcases Nat.eq_or_lt_of_le hle with hon | hoff
  · rw [started_of_cursor_on hid hN hH hlen h.tip hon, hon, List.take_length]
    exact ⟨rfl, Y, h, hY hon⟩
  · have hnil : H ≠ [] := List.length_pos_iff.mp (by omega)
    obtain ⟨hstart, hrep⟩ := started_of_cursor_off hid hN hH hlen h (hgen hnil) hoff
    refine ⟨by rw [hstart, List.length_take]; omega, [], hrep.holds E, ?_⟩
    rw [History.blocks_take, List.append_nil, take_fork]
    exact List.take_prefix _ _

/-- The scan loop of a pass, at any point. -/
theorem scanned_loopState (hid : HashesIdentify C) (hN : node.chain ∈ C)
    (hvalid : ValidChain node.chain) {pre post : List Block}
    (htodo : BlockScanEngine.todo node S = pre ++ post) :
    Scanned E (node.started S).1 pre (node.started S).2.2 (E.loopState node S pre) := by
  rw [BlockScanEngine.todo, MockChainSource.served_eq (hid.nodup hN)] at htodo
  have hblocks : ∀ b ∈ pre, ValidTxs b.txdata := by
    intro b hb
    refine hvalid.block (List.mem_of_mem_drop (i := (node.started S).1) ?_)
    rw [htodo]
    exact List.mem_append_left post hb
  exact scanned_blockSteps E ⟨(node.started S).2.2, _, (node.started S).2.1⟩ hblocks
    (mirrors_collect _)

/-- How a pass leaves the stores. Either the history of the node's
chain is complete; or the stores are untouched; or they hold the part
of the history that is on the node's chain, and leftovers on it.

The hypotheses: hashes identify blocks, the chain is valid, genesis is
kept, the node is not below the cursor, leftovers above a cursor on the
node's chain are on it too, and the rollback of the UTXO store does not
fail. -/
theorem holds_of_exec (hid : HashesIdentify C) (hN : node.chain ∈ C)
    (hvalid : ValidChain node.chain) (hH : ∃ c ∈ C, H.blocks <+: c)
    (hgen : H ≠ [] → 0 < fork H.blocks node.chain) (hlen : H.length ≤ node.chain.length)
    (hY : fork H.blocks node.chain = H.length → H.blocks ++ Y <+: node.chain)
    (hfault : ∀ a, ¬faulty (.store (.utxosRollbackAbove a))) (h : Holds E S H Y)
    {o : Outcome SyncError SyncSummary} (hexec : Prog.Exec (memEnv node faulty) E.sync S o S') :
    ((∃ summary, o = .ok summary) ∧ Represents S' (H.rescan node.chain E)) ∨
    ((∀ summary, o ≠ .ok summary) ∧ (S' = S ∨
      ∃ W, Holds E S' (H.take (fork H.blocks node.chain)) W ∧
        History.blocks (H.take (fork H.blocks node.chain)) ++ W <+: node.chain)) := by
  obtain ⟨hstart, Y₁, hholds, hY₁⟩ := holds_started hid hN hH hgen hlen hY h
  have hend := BlockScanEngine.passEnd_of_exec (h.tip_lt hlen) hexec
  obtain ⟨H₁, hH₁⟩ : ∃ H₁ : History D, H₁ = H.take (fork H.blocks node.chain) := ⟨_, rfl⟩
  rw [← hH₁] at hstart hholds hY₁
  have hlen₁ : H₁.length = fork H.blocks node.chain := by
    have := fork_le_left H.blocks node.chain
    rw [hH₁, List.length_take]
    simp only [History.length_blocks] at this
    omega
  have hfork : H₁.blocks = node.chain.take H₁.length := by
    rw [hlen₁, hH₁, History.blocks_take, take_fork]
  have htodo : BlockScanEngine.todo node S = node.chain.drop H₁.length := by
    rw [BlockScanEngine.todo, MockChainSource.served_eq (hid.nodup hN), hstart]
  have hchain : H₁.blocks ++ BlockScanEngine.todo node S = node.chain := by
    rw [htodo, hfork, List.take_append_drop]
  have hscan : ∀ pre post, BlockScanEngine.todo node S = pre ++ post →
      Scanned E H₁.length pre (node.started S).2.2 (E.loopState node S pre) := by
    intro pre post hsplit
    rw [← hstart]
    exact scanned_loopState hid hN hvalid hsplit
  have hrescan : H.rescan node.chain E =
      H₁ ++ History.scannedBy E (BlockScanEngine.todo node S) := by
    rw [History.rescan, ← hH₁, htodo, hlen₁]
  rw [← hH₁, hrescan]
  cases hend with
  | done b hlast _ =>
      refine .inl ⟨⟨_, rfl⟩, ?_⟩
      have hall := hscan (BlockScanEngine.todo node S) [] (List.append_nil _).symm
      have hYtodo : Y₁ <+: BlockScanEngine.todo node S := by
        rw [← hchain, List.prefix_append_right_inj] at hY₁
        exact hY₁
      refine hholds.represents (hchain ▸ hvalid) hYtodo hall ⟨rfl, ?_, rfl⟩
      rw [History.cursor_eq, History.blocks_append, History.blocks_scannedBy, hchain, hlast]
      rfl
  | untouched e _ => exact .inr ⟨by simp, .inl rfl⟩
  | halfRolledBack e a hf => exact absurd hf (hfault a)
  | rolledBack e _ => exact .inr ⟨by simp, .inr ⟨Y₁, hholds, hY₁⟩⟩
  | overflow _ => exact .inr ⟨by simp, .inr ⟨Y₁, hholds, hY₁⟩⟩
  | atCursor e _ =>
      refine .inr ⟨by simp, .inr ?_⟩
      have hall := hscan (BlockScanEngine.todo node S) [] (List.append_nil _).symm
      exact hholds.of_scanned hY₁ hvalid (hchain ▸ List.prefix_refl _) hall
  | inBlock e _ pre b post hsplit _ hpart =>
      refine .inr ⟨by simp, .inr ?_⟩
      rw [hstart] at hpart
      refine hholds.of_partOf hY₁ hvalid ?_ (hscan pre (b :: post) hsplit) hpart
      rw [← hchain, hsplit, List.prefix_append_right_inj]
      exact ⟨post, by simp⟩

/-- With everything the stores hold on the node's chain, a failed pass
only changes the leftovers. -/
theorem holds_of_exec_on (hid : HashesIdentify C) (hN : node.chain ∈ C)
    (hvalid : ValidChain node.chain) (hY : H.blocks ++ Y <+: node.chain)
    (hfault : ∀ a, ¬faulty (.store (.utxosRollbackAbove a))) (h : Holds E S H Y)
    {o : Outcome SyncError SyncSummary} (hexec : Prog.Exec (memEnv node faulty) E.sync S o S') :
    ((∃ summary, o = .ok summary) ∧ Represents S' (H.rescan node.chain E)) ∨
    ((∀ summary, o ≠ .ok summary) ∧ ∃ W, Holds E S' H W ∧ H.blocks ++ W <+: node.chain) := by
  have hpre : H.blocks <+: node.chain := (List.prefix_append _ _).trans hY
  have hon : fork H.blocks node.chain = H.length := by
    rw [fork_eq_length_iff.mpr hpre, History.length_blocks]
  have hgen : H ≠ [] → 0 < fork H.blocks node.chain := by
    intro hne
    rw [hon]
    exact List.length_pos_iff.mpr hne
  have hlen : H.length ≤ node.chain.length := by simpa using hpre.length_le
  rcases holds_of_exec hid hN hvalid ⟨node.chain, hN, hpre⟩ hgen hlen (fun _ => hY) hfault h hexec
    with hok | ⟨hno, hcase⟩
  · exact .inl hok
  · refine .inr ⟨hno, ?_⟩
    rw [hon, List.take_length] at hcase
    rcases hcase with rfl | hleft
    · exact ⟨Y, h, hY⟩
    · exact hleft

end Pass

end EmvaultElements
