import EmvaultElements.Registration

/-!
# One scan for all wallets

Two engines that register the same versions of one wallet, and otherwise
different wallets, run side by side, each over its own stores. With
disjoint watched scripts the outputs of the wallet (`Mine`) are the same
to both, and the two pairs of stores are at all times `Alike`: the same
blocks, and the same entry at every outpoint of the wallet. The relation
is carried through the scan of one block, the loop and the pass, and
from there along every run (`TwinRun.alike`). An engine that registers
the one wallet alone is such a second engine.
-/

namespace EmvaultElements

variable {D : Type}

/-! ## The outpoints of a wallet -/

namespace BlockScanEngine

/-- To two engines the scripts of a wallet are the same, with the same
owner. -/
def AgreeOn (w : WalletId) (E E' : BlockScanEngine D) : Prop :=
  ∀ spk, ((E.ownerOf spk).map ownerData).filter (·.1 == w) =
    ((E'.ownerOf spk).map ownerData).filter (·.1 == w)

end BlockScanEngine

/-- The outpoint is that of an output, in some transaction of `T`, to a
script of the wallet. -/
def Mine (T : Set Transaction) (E : BlockScanEngine D) (w : WalletId) (o : OutPoint) : Prop :=
  ∃ tx ∈ T, tx.txid = o.txid ∧ ∃ txout, tx.output[o.vout]? = some txout ∧
    ∃ owner, E.ownerOf txout.scriptPubkey = some owner ∧ owner.1.walletId = w

variable {T : Set Transaction} {E E' : BlockScanEngine D} {w : WalletId}

theorem mine_iff (hagree : BlockScanEngine.AgreeOn w E E') (o : OutPoint) :
    Mine T E w o ↔ Mine T E' w o := by
  have hsome : ∀ (E : BlockScanEngine D) spk,
      (∃ owner, E.ownerOf spk = some owner ∧ owner.1.walletId = w) ↔
        (((E.ownerOf spk).map BlockScanEngine.ownerData).filter (·.1 == w)).isSome := by
    intro E spk
    cases E.ownerOf spk with
    | none => simp
    | some owner =>
        by_cases hw : owner.1.walletId = w <;>
          simp [BlockScanEngine.ownerData, Option.filter_some, hw]
  have howner : ∀ spk, (∃ owner, E.ownerOf spk = some owner ∧ owner.1.walletId = w) ↔
      ∃ owner, E'.ownerOf spk = some owner ∧ owner.1.walletId = w := by
    intro spk
    rw [hsome, hsome, hagree]
  simp only [Mine, howner]

/-- Entries are stored under the wallet their outpoint belongs to. -/
def Owned (T : Set Transaction) (E : BlockScanEngine D) (w : WalletId) (s : MemUtxoStore) : Prop :=
  ∀ o e, s.entryAt o = some e → (Mine T E w o ↔ e.utxo.walletId = w)

theorem owned_upsert {s : MemUtxoStore} (howned : Owned T E w s) {us : List CapturedUtxo}
    (hus : ∀ u ∈ us, Mine T E w u.outpoint ↔ u.walletId = w) : Owned T E w (s.upsertUtxos us) := by
  intro o e he
  rcases MemUtxoStore.entryAt_upsertUtxos s us o with ⟨-, hentry⟩ | ⟨u, hu, rfl, hentry⟩
  · exact howned o e (hentry.symm.trans he)
  · obtain rfl := Option.some.inj (hentry.symm.trans he)
    exact hus u hu

theorem owned_markSpent {s : MemUtxoStore} (howned : Owned T E w s) (ops : List OutPoint)
    (h : Nat) : Owned T E w (s.markSpent ops h) := by
  intro o e he
  rw [MemUtxoStore.entryAt_markSpent] at he
  split at he
  · obtain ⟨e', he', rfl⟩ := Option.map_eq_some_iff.mp he
    exact howned o e' he'
  · exact howned o e he

theorem owned_rollbackAbove {s : MemUtxoStore} (howned : Owned T E w s) (a : Nat) :
    Owned T E w (s.rollbackAbove a) := by
  intro o e he
  rw [MemUtxoStore.entryAt_rollbackAbove] at he
  obtain ⟨e', he', rfl⟩ := Option.map_eq_some_iff.mp he
  have hwallet : (Entry.unspendAbove a e').utxo.walletId = e'.utxo.walletId := by
    unfold Entry.unspendAbove
    split <;> rfl
  rw [hwallet]
  exact howned o e' (Option.filter_eq_some_iff.mp he').1

/-! ## An upsert at one outpoint -/

theorem entryAt_upsertUtxos_congr {o : OutPoint} {s s' : MemUtxoStore}
    (h : s.entryAt o = s'.entryAt o) (us : List CapturedUtxo) :
    (s.upsertUtxos us).entryAt o = (s'.upsertUtxos us).entryAt o := by
  induction us generalizing s s' with
  | nil => exact h
  | cons u us ih =>
      have hone : (s.upsertOne u).entryAt o = (s'.upsertOne u).entryAt o := by
        rw [MemUtxoStore.entryAt_upsertOne, MemUtxoStore.entryAt_upsertOne, h]
      exact ih hone

/-- Records of other outpoints may be left out. -/
theorem entryAt_upsertUtxos_filter {p : CapturedUtxo → Bool} {o : OutPoint}
    {us : List CapturedUtxo} (s : MemUtxoStore) (hp : ∀ u ∈ us, u.outpoint = o → p u) :
    (s.upsertUtxos (us.filter p)).entryAt o = (s.upsertUtxos us).entryAt o := by
  induction us generalizing s with
  | nil => rfl
  | cons u us ih =>
      have hrest := ih (s.upsertOne u) fun u' hu' => hp u' (List.mem_cons_of_mem u hu')
      by_cases hu : p u
      · rw [List.filter_cons_of_pos hu]
        exact hrest
      · have hother : (s.upsertOne u).entryAt o = s.entryAt o := by
          rw [MemUtxoStore.entryAt_upsertOne, if_neg]
          intro ho
          exact hu (hp u (List.mem_cons_self ..) ho.symm)
        rw [List.filter_cons_of_neg hu]
        exact (entryAt_upsertUtxos_congr hother.symm _).trans hrest

/-! ## The two stores -/

/-- The same blocks, and the same entries for the wallet. -/
structure Alike (T : Set Transaction) (E E' : BlockScanEngine D) (w : WalletId)
    (S S' : Stores) : Prop where
  blocks : S.blocks = S'.blocks
  entries : ∀ o, Mine T E w o → S.utxos.entryAt o = S'.utxos.entryAt o
  owned : Owned T E w S.utxos
  owned' : Owned T E' w S'.utxos

/-- Alike stores, and spend indexes that know the same outpoints of the
wallet. -/
structure AlikeScan (T : Set Transaction) (E E' : BlockScanEngine D) (w : WalletId)
    (st st' : ScanState) : Prop where
  stores : Alike T E E' w st.stores st'.stores
  index : ∀ o, Mine T E w o → (o ∈ st.spendIndex ↔ o ∈ st'.spendIndex)

theorem alike_new : Alike T E E' w Stores.new Stores.new where
  blocks := rfl
  entries _ _ := rfl
  owned _ _ he := nomatch he
  owned' _ _ he := nomatch he

/-- The records of the wallet are the same. -/
theorem Alike.listUnspent {S S' : Stores} (h : Alike T E E' w S S')
    (hagree : BlockScanEngine.AgreeOn w E E') (u : CapturedUtxo) :
    u ∈ S.utxos.listUnspent w ↔ u ∈ S'.utxos.listUnspent w := by
  rw [MemUtxoStore.mem_listUnspent, MemUtxoStore.mem_listUnspent]
  constructor
  · rintro ⟨e, he, rfl, hspent, hwallet⟩
    have hmine := (h.owned _ e he).mpr hwallet
    exact ⟨e, (h.entries _ hmine).symm.trans he, rfl, hspent, hwallet⟩
  · rintro ⟨e, he, rfl, hspent, hwallet⟩
    have hmine := (mine_iff hagree _).mpr ((h.owned' _ e he).mpr hwallet)
    exact ⟨e, (h.entries _ hmine).trans he, rfl, hspent, hwallet⟩

theorem Alike.collect {S S' : Stores} (h : Alike T E E' w S S') {o : OutPoint}
    (ho : Mine T E w o) :
    o ∈ Map.collect S.utxos.unspentOutpoints ↔ o ∈ Map.collect S'.utxos.unspentOutpoints := by
  rw [mirrors_collect, mirrors_collect, h.entries o ho]

theorem Alike.rollbackAbove {S S' : Stores} (h : Alike T E E' w S S') (a : Nat) :
    Alike T E E' w { blocks := S.blocks.rollbackAbove a, utxos := S.utxos.rollbackAbove a }
      { blocks := S'.blocks.rollbackAbove a, utxos := S'.utxos.rollbackAbove a } where
  blocks := congrArg (MemBlockStore.rollbackAbove · a) h.blocks
  entries o ho := by
    rw [MemUtxoStore.entryAt_rollbackAbove, MemUtxoStore.entryAt_rollbackAbove, h.entries o ho]
  owned := owned_rollbackAbove h.owned a
  owned' := owned_rollbackAbove h.owned' a

/-- Where a pass starts depends on the blocks alone. -/
theorem Alike.started {S S' : Stores} (h : Alike T E E' w S S') (node : MockChainSource) :
    (node.started S).1 = (node.started S').1 ∧
      Alike T E E' w (node.started S).2.2 (node.started S').2.2 := by
  unfold MockChainSource.started
  rw [← h.blocks]
  cases S.blocks.syncedTip with
  | none => exact ⟨rfl, h⟩
  | some t =>
      dsimp only
      split
      · exact ⟨rfl, h⟩
      · have hroll := h.rollbackAbove (node.ancestorOf S.blocks t.height)
        rw [← h.blocks] at hroll
        exact ⟨rfl, hroll⟩

/-! ## Disjoint registrations -/

/-- The registrations of one wallet. -/
def ofWallet (regs : List (Registration D)) (w : WalletId) : List (Registration D) :=
  regs.filter (·.id == w)

theorem mem_ofWallet {regs : List (Registration D)} {w : WalletId} {r : Registration D} :
    r ∈ ofWallet regs w ↔ r ∈ regs ∧ r.id = w := by
  simp [ofWallet]

theorem ofWallet_ofWallet (regs : List (Registration D)) (w : WalletId) :
    ofWallet (ofWallet regs w) w = ofWallet regs w := by
  simp [ofWallet]

variable [LwkDescriptor D]

/-- No script is watched by two wallets. -/
def DisjointWallets (regs : List (Registration D)) : Prop :=
  ∀ r ∈ regs, ∀ r' ∈ regs, r.id ≠ r'.id → ∀ spk,
    (r.watches spk).isSome → (r'.watches spk).isSome → False

/-- The scripts a registration watches. -/
def Registration.scripts (r : Registration D) : List Script :=
  match r.wollet.watchedScripts r.gap with
  | .error _ => []
  | .ok scripts => scripts.map (·.1)

theorem Registration.watches_isSome {r : Registration D} {spk : Script} :
    (r.watches spk).isSome ↔ spk ∈ r.scripts := by
  unfold watches scripts
  cases r.wollet.watchedScripts r.gap with
  | error e => simp
  | ok scripts => simp [List.find?_isSome]

instance (regs : List (Registration D)) : Decidable (DisjointWallets regs) :=
  decidable_of_iff
    (∀ r ∈ regs, ∀ r' ∈ regs, r.id ≠ r'.id → ∀ spk ∈ r.scripts, spk ∉ r'.scripts)
    (by simp only [DisjointWallets, Registration.watches_isSome])

/-- One wallet has no other to share a script with. -/
theorem disjointWallets_ofWallet (regs : List (Registration D)) (w : WalletId) :
    DisjointWallets (ofWallet regs w) := by
  intro r hr r' hr' hne
  exact absurd ((mem_ofWallet.mp hr).2.trans (mem_ofWallet.mp hr').2.symm) hne

/-- The last watcher among one wallet's registrations is the last
watcher of all, if that one belongs to the wallet. -/
theorem lastWatcher_ofWallet {regs : List (Registration D)} (hdisjoint : DisjointWallets regs)
    (w : WalletId) (spk : Script) :
    lastWatcher (ofWallet regs w) spk = (lastWatcher regs spk).filter (·.1.id == w) := by
  induction regs using List.reverseRecOn with
  | nil => rfl
  | append_singleton regs r ih =>
      have hrest : DisjointWallets regs := by
        intro r₁ h₁ r₂ h₂
        exact hdisjoint r₁ (List.mem_append_left _ h₁) r₂ (List.mem_append_left _ h₂)
      have hlast : r ∈ regs ++ [r] := List.mem_append_right _ (List.mem_singleton.mpr rfl)
      have hstep : ofWallet (regs ++ [r]) w =
          ofWallet regs w ++ if r.id == w then [r] else [] := by
        rw [ofWallet, List.filter_append, ofWallet]
        cases h : r.id == w <;> simp [h]
      rw [hstep, lastWatcher_concat]
      cases hwatch : r.watches spk with
      | none =>
          rw [Option.map_none, Option.none_or, ← ih hrest]
          split
          · rw [lastWatcher_concat, hwatch, Option.map_none, Option.none_or]
          · rw [List.append_nil]
      | some p =>
          rw [Option.map_some, Option.some_or, Option.filter_some]
          split
          · rw [lastWatcher_concat, hwatch, Option.map_some, Option.some_or]
          · next hother =>
              -- A watcher of the wallet would share the script with `r`.
              rw [List.append_nil]
              cases hw : lastWatcher (ofWallet regs w) spk with
              | none => rfl
              | some rp =>
                  obtain ⟨r', p'⟩ := rp
                  obtain ⟨hmem, hwatch'⟩ := lastWatcher_mem hw
                  obtain ⟨hmem', rfl⟩ := mem_ofWallet.mp hmem
                  refine (hdisjoint r hlast r' (List.mem_append_left _ hmem') ?_ spk
                    (Option.isSome_of_eq_some hwatch) (Option.isSome_of_eq_some hwatch')).elim
                  intro heq
                  exact hother (beq_iff_eq.mpr heq)

namespace BlockScanEngine

theorem agreeOn_of_registered {regs regs' : List (Registration D)} {E E' : BlockScanEngine D}
    (hregs : Registered regs E) (hregs' : Registered regs' E')
    (hdisjoint : DisjointWallets regs) (hdisjoint' : DisjointWallets regs') {w : WalletId}
    (hsame : ofWallet regs w = ofWallet regs' w) : AgreeOn w E E' := by
  intro spk
  rw [ownerOf_of_registered hregs, ownerOf_of_registered hregs', Option.filter_map,
    Option.filter_map]
  have hlast := lastWatcher_ofWallet hdisjoint w spk
  rw [hsame, lastWatcher_ofWallet hdisjoint' w spk] at hlast
  exact congrArg (Option.map _) hlast.symm

/-! ## Captures -/

/-- What is captured depends on the owner's data. -/
theorem captureOutput_eq_bind (E : BlockScanEngine D) (h : Nat) (txid : Txid) (out : TxOut × Nat) :
    E.captureOutput h txid out = ((E.ownerOf out.1.scriptPubkey).map ownerData).bind fun d =>
      match d.2.1.unblind out.1 with
      | .error _ => none
      | .ok secrets => some {
          walletId := d.1, outpoint := { txid, vout := out.2 }, txout := out.1, secrets
          chain := d.2.2.1, wildcardIndex := d.2.2.2, height := h, isSpent := false } := by
  unfold captureOutput
  cases E.ownerOf out.1.scriptPubkey <;> rfl

theorem captureOutput_owner {E : BlockScanEngine D} {h : Nat} {txid : Txid} {out : TxOut × Nat}
    {u : CapturedUtxo} (hu : E.captureOutput h txid out = some u) :
    ∃ owner, E.ownerOf out.1.scriptPubkey = some owner ∧ owner.1.walletId = u.walletId := by
  obtain ⟨entry, wollet, secrets, howner, -, rfl⟩ := captureOutput_eq_some.mp hu
  exact ⟨_, howner, rfl⟩

theorem captureOutput_agree (hagree : AgreeOn w E E') (h : Nat) (txid : Txid)
    (out : TxOut × Nat) :
    (E.captureOutput h txid out).filter (·.walletId == w) =
      (E'.captureOutput h txid out).filter (·.walletId == w) := by
  have hfilter : ∀ E : BlockScanEngine D,
      (E.captureOutput h txid out).filter (·.walletId == w) =
        (((E.ownerOf out.1.scriptPubkey).map ownerData).filter (·.1 == w)).bind fun d =>
          match d.2.1.unblind out.1 with
          | .error _ => none
          | .ok secrets => some {
              walletId := d.1, outpoint := { txid, vout := out.2 }, txout := out.1, secrets
              chain := d.2.2.1, wildcardIndex := d.2.2.2, height := h, isSpent := false } := by
    intro E
    rw [captureOutput_eq_bind]
    cases (E.ownerOf out.1.scriptPubkey).map ownerData with
    | none => rfl
    | some d =>
        rw [Option.bind_some, Option.filter_some]
        cases hunblind : d.2.1.unblind out.1 with
        | error e => by_cases hd : d.1 = w <;> simp [hd, hunblind]
        | ok secrets => by_cases hd : d.1 = w <;> simp [hd, hunblind, Option.filter_some]
  rw [hfilter E, hfilter E', hagree]

theorem captureTx_agree (hagree : AgreeOn w E E') (h : Nat) (tx : Transaction) :
    (E.captureTx h tx).filter (·.walletId == w) = (E'.captureTx h tx).filter (·.walletId == w) := by
  rw [captureTx, captureTx, List.filter_filterMap, List.filter_filterMap]
  exact List.filterMap_congr fun out _ => captureOutput_agree hagree h tx.txid out

theorem captures_agree (hagree : AgreeOn w E E') (h : Nat) (txs : List Transaction) :
    (E.captures h txs).filter (·.walletId == w) = (E'.captures h txs).filter (·.walletId == w) := by
  rw [captures, captures, List.filter_flatMap, List.filter_flatMap]
  exact congrArg (List.flatMap · txs) (funext fun tx => captureTx_agree hagree h tx)

end BlockScanEngine

/-! ## The scan -/

section

variable (hid : TxidsIdentify T) (hagree : BlockScanEngine.AgreeOn w E E')

include hid in
/-- What is captured is captured for the wallet its outpoint belongs to. -/
theorem mine_of_mem_captures {h : Nat} {txs : List Transaction}
    (htxs : ∀ tx ∈ txs, tx ∈ T) {u : CapturedUtxo} (hu : u ∈ E.captures h txs) :
    Mine T E w u.outpoint ↔ u.walletId = w := by
  obtain ⟨tx, htx, hu⟩ := BlockScanEngine.mem_captures.mp hu
  obtain ⟨i, txout, hout, hu⟩ := BlockScanEngine.mem_captureTx.mp hu
  obtain ⟨owner, howner, hwallet⟩ := BlockScanEngine.captureOutput_owner hu
  rw [(BlockScanEngine.captureOutput_spec hu).1]
  constructor
  · rintro ⟨tx', htx', htxid, txout', hout', owner', howner', rfl⟩
    rw [hid tx' htx' tx (htxs tx htx) htxid, hout] at hout'
    obtain rfl := Option.some.inj hout'
    obtain rfl := Option.some.inj (howner.symm.trans howner')
    exact hwallet.symm
  · intro hw
    exact ⟨tx, htxs tx htx, rfl, txout, hout, owner, howner, hwallet.trans hw⟩

include hid hagree in
/-- At an outpoint of the wallet both engines capture, or neither. -/
theorem mem_captureTx_mine {h : Nat} {tx : Transaction} (htx : tx ∈ T) {o : OutPoint}
    (ho : Mine T E w o) :
    o ∈ (E.captureTx h tx).map (·.outpoint) ↔ o ∈ (E'.captureTx h tx).map (·.outpoint) := by
  have hown : ∀ {E : BlockScanEngine D} {u}, u ∈ E.captureTx h tx → Mine T E w u.outpoint →
      u ∈ (E.captureTx h tx).filter (·.walletId == w) := by
    intro E u hu hmine
    have hcaptured : u ∈ E.captures h [tx] :=
      BlockScanEngine.mem_captures.mpr ⟨tx, List.mem_singleton.mpr rfl, hu⟩
    have hwallet := (mine_of_mem_captures hid (by simpa using htx) hcaptured).mp hmine
    exact List.mem_filter.mpr ⟨hu, beq_iff_eq.mpr hwallet⟩
  have hsame := BlockScanEngine.captureTx_agree hagree h tx
  simp only [List.mem_map]
  constructor
  · rintro ⟨u, hu, rfl⟩
    have hu' := hown hu ho
    rw [hsame] at hu'
    exact ⟨u, (List.mem_filter.mp hu').1, rfl⟩
  · rintro ⟨u, hu, rfl⟩
    have hu' := hown hu ((mine_iff hagree _).mp ho)
    rw [← hsame] at hu'
    exact ⟨u, (List.mem_filter.mp hu').1, rfl⟩

include hid hagree in
/-- Scanning the same transactions, from indexes that know the same
outpoints of the wallet, finds the same spends of it. -/
theorem mem_scanTxs_mine {h : Nat} {txs : List Transaction} (htxs : ∀ tx ∈ txs, tx ∈ T)
    {idx idx' : Map OutPoint WalletId} {o : OutPoint} (ho : Mine T E w o)
    (hidx : o ∈ idx ↔ o ∈ idx') :
    (o ∈ (E.scanTxs h txs idx).spent ↔ o ∈ (E'.scanTxs h txs idx').spent) ∧
      (o ∈ (E.scanTxs h txs idx).spendIndex ↔ o ∈ (E'.scanTxs h txs idx').spendIndex) := by
  have hfold : ∀ (txs : List Transaction), (∀ tx ∈ txs, tx ∈ T) →
      ∀ (st st' : BlockScanEngine.BlockScan), (o ∈ st.spent ↔ o ∈ st'.spent) →
        (o ∈ st.spendIndex ↔ o ∈ st'.spendIndex) →
      (o ∈ (txs.foldl (E.scanTx h) st).spent ↔ o ∈ (txs.foldl (E'.scanTx h) st').spent) ∧
        (o ∈ (txs.foldl (E.scanTx h) st).spendIndex ↔
          o ∈ (txs.foldl (E'.scanTx h) st').spendIndex) := by
    intro txs
    induction txs with
    | nil => exact fun _ _ _ hspent hindex => ⟨hspent, hindex⟩
    | cons tx txs ih =>
        intro htxs st st' hspent hindex
        have hcaptured := mem_captureTx_mine hid hagree (h := h)
          (htxs tx (List.mem_cons_self ..)) ho
        refine ih (fun tx' htx' => htxs tx' (List.mem_cons_of_mem tx htx')) _ _ ?_ ?_
        · rw [(BlockScanEngine.mem_scanTx E h st tx o).1,
            (BlockScanEngine.mem_scanTx E' h st' tx o).1, hspent, hindex]
        · rw [(BlockScanEngine.mem_scanTx E h st tx o).2,
            (BlockScanEngine.mem_scanTx E' h st' tx o).2, hindex, hcaptured]
  exact hfold txs htxs _ _ Iff.rfl hidx

include hid hagree in
theorem AlikeScan.blockStep {st st' : ScanState} (halike : AlikeScan T E E' w st st') (h : Nat)
    {b : Block} (hb : ∀ tx ∈ b.txdata, tx ∈ T) :
    AlikeScan T E E' w (E.blockStep h b st) (E'.blockStep h b st') := by
  obtain ⟨⟨hblocks, hentries, howned, howned'⟩, hindex⟩ := halike
  refine ⟨⟨?_, ?_, ?_, ?_⟩, ?_⟩
  · simp only [BlockScanEngine.blockStep, hblocks]
  · intro o ho
    have hspent := (mem_scanTxs_mine hid hagree (h := h) hb ho (hindex o ho)).1
    have hkeep : ∀ {E : BlockScanEngine D}, Mine T E w o → ∀ u ∈ E.captures h b.txdata,
        u.outpoint = o → (u.walletId == w) = true := by
      rintro E ho u hu rfl
      exact beq_iff_eq.mpr ((mine_of_mem_captures hid hb hu).mp ho)
    have hupsert : (st.stores.utxos.upsertUtxos (E.captures h b.txdata)).entryAt o =
        (st'.stores.utxos.upsertUtxos (E'.captures h b.txdata)).entryAt o := by
      rw [← entryAt_upsertUtxos_filter st.stores.utxos (hkeep ho),
        ← entryAt_upsertUtxos_filter st'.stores.utxos (hkeep ((mine_iff hagree o).mp ho)),
        BlockScanEngine.captures_agree hagree]
      exact entryAt_upsertUtxos_congr (hentries o ho) _
    simp only [BlockScanEngine.blockStep, BlockScanEngine.scanTxs_captured,
      MemUtxoStore.entryAt_markSpent, hspent, hupsert]
  · simp only [BlockScanEngine.blockStep, BlockScanEngine.scanTxs_captured]
    exact owned_markSpent (owned_upsert howned fun u hu => mine_of_mem_captures hid hb hu) _ _
  · simp only [BlockScanEngine.blockStep, BlockScanEngine.scanTxs_captured]
    exact owned_markSpent (owned_upsert howned' fun u hu => mine_of_mem_captures hid hb hu) _ _
  · intro o ho
    exact (mem_scanTxs_mine hid hagree hb ho (hindex o ho)).2

include hid hagree in
theorem AlikeScan.blockSteps {bs : List Block} (hbs : ∀ tx ∈ chainTxs bs, tx ∈ T) :
    ∀ {h : Nat} {st st' : ScanState}, AlikeScan T E E' w st st' →
      AlikeScan T E E' w (E.blockSteps h bs st) (E'.blockSteps h bs st') := by
  induction bs with
  | nil => exact fun h => h
  | cons b bs ih =>
      intro h st st' halike
      have hmem : ∀ tx, tx ∈ b.txdata ∨ tx ∈ chainTxs bs → tx ∈ T := by
        intro tx htx
        exact hbs tx (by simpa [chainTxs] using htx)
      exact ih (fun tx htx => hmem tx (.inr htx))
        (halike.blockStep hid hagree h fun tx htx => hmem tx (.inl htx))

end

/-! ## Twin runs -/

theorem mem_served {node : MockChainSource} {b : Block} (hb : b ∈ node.served) :
    b ∈ node.chain := by
  obtain ⟨b₀, hb₀, rfl⟩ := List.mem_map.mp hb
  cases hfind : node.chain.find? (·.blockHash == b₀.blockHash) with
  | none => exact hb₀
  | some b' => exact List.mem_of_find?_eq_some hfind

/-- Two engines over their own stores, each completing a pass at the
same moments of one node, whose transactions are in `T`. -/
inductive TwinRun (T : Set Transaction) (E E' : BlockScanEngine D) :
    MockChainSource → Stores → Stores → Prop
  | init (node : MockChainSource) (hnode : ∀ tx ∈ chainTxs node.chain, tx ∈ T) :
      TwinRun T E E' node Stores.new Stores.new
  | event {node : MockChainSource} {S S' : Stores} (ev : NodeEvent)
      (hrun : TwinRun T E E' node S S') (hnode : ∀ tx ∈ chainTxs (node.apply ev).chain, tx ∈ T) :
      TwinRun T E E' (node.apply ev) S S'
  | pass {node : MockChainSource} {S S₁ S' S₁' : Stores} (summary summary' : SyncSummary)
      (hrun : TwinRun T E E' node S S')
      (hexec : Prog.Exec (memEnv node noFault) E.sync S (.ok summary) S₁)
      (hexec' : Prog.Exec (memEnv node noFault) E'.sync S' (.ok summary') S₁') :
      TwinRun T E E' node S₁ S₁'

theorem TwinRun.node_mem {node : MockChainSource} {S S' : Stores}
    (hrun : TwinRun T E E' node S S') : ∀ tx ∈ chainTxs node.chain, tx ∈ T := by
  induction hrun with
  | init _ hnode => exact hnode
  | event _ _ hnode _ => exact hnode
  | pass _ _ _ _ _ ih => exact ih

/-- One pass of each engine keeps the stores alike. -/
theorem Alike.pass (hid : TxidsIdentify T) (hagree : BlockScanEngine.AgreeOn w E E')
    {node : MockChainSource} (hnode : ∀ tx ∈ chainTxs node.chain, tx ∈ T)
    {S S₁ S' S₁' : Stores} (halike : Alike T E E' w S S') {summary summary' : SyncSummary}
    (hexec : Prog.Exec (memEnv node noFault) E.sync S (.ok summary) S₁)
    (hexec' : Prog.Exec (memEnv node noFault) E'.sync S' (.ok summary') S₁') :
    Alike T E E' w S₁ S₁' := by
  obtain ⟨hstart, hstarted⟩ := halike.started node
  have htodo : BlockScanEngine.todo node S' = BlockScanEngine.todo node S := by
    rw [BlockScanEngine.todo, BlockScanEngine.todo, hstart]
  have htxs : ∀ tx ∈ chainTxs (BlockScanEngine.todo node S), tx ∈ T := by
    intro tx htx
    obtain ⟨b, hb, htx⟩ := List.mem_flatMap.mp htx
    exact hnode tx (List.mem_flatMap.mpr ⟨b, mem_served (List.mem_of_mem_drop hb), htx⟩)
  have hloop : AlikeScan T E E' w (E.loopState node S (BlockScanEngine.todo node S))
      (E'.loopState node S' (BlockScanEngine.todo node S)) := by
    unfold BlockScanEngine.loopState
    dsimp only
    rw [← hstart]
    exact AlikeScan.blockSteps hid hagree htxs ⟨hstarted, fun o ho => hstarted.collect ho⟩
  obtain ⟨hblocks, hentries, howned, howned'⟩ := hloop.stores
  cases BlockScanEngine.passEnd_of_exec (notBelowCursor_of_exec hexec) hexec with
  | done b hlast _ =>
      cases BlockScanEngine.passEnd_of_exec (notBelowCursor_of_exec hexec') hexec' with
      | done b' hlast' _ =>
          obtain rfl := Option.some.inj (hlast.symm.trans hlast')
          rw [htodo]
          exact ⟨congrArg (MemBlockStore.setSyncedTip · _) hblocks, hentries, howned, howned'⟩

theorem TwinRun.alike (hid : TxidsIdentify T) (hagree : BlockScanEngine.AgreeOn w E E')
    {node : MockChainSource} {S S' : Stores} (hrun : TwinRun T E E' node S S') :
    Alike T E E' w S S' := by
  induction hrun with
  | init _ _ => exact alike_new
  | event _ _ _ ih => exact ih
  | pass _ _ hrun hexec hexec' ih => exact ih.pass hid hagree hrun.node_mem hexec hexec'

/-- When the first engine completes a pass, so can the second. -/
theorem Alike.exists_pass {node : MockChainSource} {S S₁ S' : Stores}
    (halike : Alike T E E' w S S') {summary : SyncSummary}
    (hexec : Prog.Exec (memEnv node noFault) E.sync S (.ok summary) S₁) :
    ∃ summary' S₁', Prog.Exec (memEnv node noFault) E'.sync S' (.ok summary') S₁' := by
  have hbelow := notBelowCursor_of_exec hexec
  obtain ⟨b, hlast, hlen⟩ := BlockScanEngine.tip_of_exec hbelow hexec
  refine BlockScanEngine.exists_exec_ok E' ?_ ?_ hlen
  · rw [← halike.blocks]
    exact hbelow
  · intro hnil
    rw [hnil] at hlast
    cases hlast

/-- One scan serves all wallets. Beside an engine that registers every
wallet runs one that registers a single wallet, over its own stores: it
can complete a pass whenever the first does, and the wallet's records
are the same in both. They are the same again in any engine that
registers other wallets beside it. -/
theorem shared_scan_serves_wallet {T : Set Transaction} (hid : TxidsIdentify T)
    {regs : List (Registration D)} {E : BlockScanEngine D} (hregs : Registered regs E)
    (hdisjoint : DisjointWallets regs) (w : WalletId) :
    (∀ solo, Registered (ofWallet regs w) solo → ∀ node S S', TwinRun T E solo node S S' →
      (∀ u, u ∈ S.utxos.listUnspent w ↔ u ∈ S'.utxos.listUnspent w) ∧
      ∀ summary S₁, Prog.Exec (memEnv node noFault) E.sync S (.ok summary) S₁ →
        ∃ summary' S₁', Prog.Exec (memEnv node noFault) solo.sync S' (.ok summary') S₁') ∧
    ∀ regs' other, Registered regs' other → DisjointWallets regs' →
      ofWallet regs w = ofWallet regs' w → ∀ node S S', TwinRun T E other node S S' →
      ∀ u, u ∈ S.utxos.listUnspent w ↔ u ∈ S'.utxos.listUnspent w := by
  constructor
  · intro solo hsolo node S S' hrun
    have hagree := BlockScanEngine.agreeOn_of_registered hregs hsolo hdisjoint
      (disjointWallets_ofWallet regs w) (ofWallet_ofWallet regs w).symm
    have halike := hrun.alike hid hagree
    exact ⟨halike.listUnspent hagree, fun summary S₁ hexec => halike.exists_pass hexec⟩
  · intro regs' other hregs' hdisjoint' hsame node S S' hrun
    have hagree :=
      BlockScanEngine.agreeOn_of_registered hregs hregs' hdisjoint hdisjoint' hsame
    exact (hrun.alike hid hagree).listUnspent hagree

/-! A second wallet, and a transaction that spends from the first and
pays both. -/

def secondRegistration : Registration PlainDescriptor := ⟨⟨2⟩, ⟨⟨9, 1⟩, .elementsRegtest⟩, 2⟩

def sharedEngine : BlockScanEngine PlainDescriptor :=
  (plainEngine.registerWallet secondRegistration.id secondRegistration.wollet
    secondRegistration.gap).2

def transfer : Transaction :=
  ⟨⟨102⟩, [⟨⟨⟨100⟩, 0⟩⟩], [plainOutput (plainWollet.descriptor.script .internal 0) 1,
    plainOutput (secondRegistration.wollet.descriptor.script .external 0) 1]⟩

def transferChain : MockChainSource :=
  ⟨[⟨⟨10⟩, ⟨0⟩, []⟩, ⟨⟨31⟩, ⟨10⟩, [payment, transfer]⟩]⟩

def transferSynced (E : BlockScanEngine PlainDescriptor) : Stores :=
  (Prog.run (memStep transferChain) E.sync Stores.new).2

theorem disjointWallets_shared : DisjointWallets [plainRegistration, secondRegistration] := by
  decide

theorem shared_scan_serves_wallet_transfer :
    {u | u ∈ (transferSynced sharedEngine).utxos.listUnspent ⟨1⟩} =
      {u | u ∈ (transferSynced plainEngine).utxos.listUnspent ⟨1⟩} := by
  have hid : TxidsIdentify {tx | tx ∈ chainTxs transferChain.chain} := by
    have h : ∀ tx ∈ chainTxs transferChain.chain, ∀ tx' ∈ chainTxs transferChain.chain,
        tx.txid = tx'.txid → tx.output = tx'.output := by decide
    exact h
  have hrun : TwinRun {tx | tx ∈ chainTxs transferChain.chain} sharedEngine plainEngine
      transferChain (transferSynced sharedEngine) (transferSynced plainEngine) :=
    .pass { blocksScanned := 2, utxosCaptured := 3, utxosSpent := 1 }
      { blocksScanned := 2, utxosCaptured := 2, utxosSpent := 1 }
      (.init transferChain fun _ htx => htx) (exec_memStep rfl) (exec_memStep rfl)
  ext u
  exact ((shared_scan_serves_wallet hid (.register secondRegistration registered_plainEngine rfl)
    disjointWallets_shared ⟨1⟩).1 plainEngine registered_plainEngine _ _ _ hrun).1 u

end EmvaultElements
