import EmvaultElements.Runs

/-!
# Registering wallets

What a sequence of successful `register_wallet` calls makes of an
engine: every script belongs to the last registration that watches it
(`ownerOf_of_registered`), under the last place at which that
registration lists it. A script does not depend on the blinding key, so
the last registration need not be one that can unblind the output:
`capture_complete_iff` says that this is all that a first pass can miss.

Between passes the engine is rebuilt, with more wallets or a larger gap.
The blocks scanned before are not scanned again (`picks_up_iff`).
-/

namespace EmvaultElements

variable {D : Type} [LwkDescriptor D]

/-- The arguments of one `register_wallet` call. -/
structure Registration (D : Type) where
  id : WalletId
  wollet : ElementsWollet D
  gap : Nat

/-- Where the registration lists a script: keychain and index. -/
def Registration.watches (r : Registration D) (spk : Script) : Option (Chain × Nat) :=
  match r.wollet.watchedScripts r.gap with
  | .error _ => none
  | .ok scripts => (scripts.reverse.find? (·.1 == spk)).map (·.2)

/-- The engine after the calls, all successful. -/
inductive Registered : List (Registration D) → BlockScanEngine D → Prop
  | new : Registered [] BlockScanEngine.new
  | register {regs : List (Registration D)} {E E' : BlockScanEngine D} (r : Registration D)
      (h : Registered regs E) (hok : E.registerWallet r.id r.wollet r.gap = (.ok (), E')) :
      Registered (regs ++ [r]) E'

/-- The last registration that watches a script, and where. -/
def lastWatcher (regs : List (Registration D)) (spk : Script) :
    Option (Registration D × Chain × Nat) :=
  regs.reverse.findSome? fun r => (r.watches spk).map fun p => (r, p)

theorem lastWatcher_concat (regs : List (Registration D)) (r : Registration D) (spk : Script) :
    lastWatcher (regs ++ [r]) spk =
      ((r.watches spk).map fun p => (r, p)).or (lastWatcher regs spk) := by
  rw [lastWatcher, List.reverse_concat, List.findSome?_cons]
  cases r.watches spk <;> rfl

theorem lastWatcher_mem {regs : List (Registration D)} {spk : Script} {r : Registration D}
    {p : Chain × Nat} (h : lastWatcher regs spk = some (r, p)) :
    r ∈ regs ∧ r.watches spk = some p := by
  obtain ⟨r', hr', heq⟩ := List.exists_of_findSome?_eq_some h
  obtain ⟨p', hp', hpair⟩ := Option.map_eq_some_iff.mp heq
  cases hpair
  exact ⟨List.mem_reverse.mp hr', hp'⟩

namespace BlockScanEngine

/-- What an owner lets the scan know: everything but its place in the
list of wollets. -/
def ownerData (owner : ScriptEntry × ElementsWollet D) :
    WalletId × ElementsWollet D × Chain × Nat :=
  (owner.1.walletId, owner.2, owner.1.chain, owner.1.wildcardIndex)

/-- A call pushes the wollet, and indexes its scripts if they can be
derived. -/
theorem registerWallet_cases (self : BlockScanEngine D) (id : WalletId) (wollet : ElementsWollet D)
    (gap : Nat) :
    (∃ e, wollet.watchedScripts gap = .error e ∧
      self.registerWallet id wollet gap = (.error (.wollet e), self.push wollet)) ∨
    ∃ scripts E', wollet.watchedScripts gap = .ok scripts ∧
      self.registerWallet id wollet gap = (.ok (), E') ∧
      E'.wollets = self.wollets ++ [wollet] ∧
      E'.index = indexScripts id self.wollets.length scripts self.index := by
  unfold registerWallet
  dsimp only
  split
  · next e herr => exact .inl ⟨e, herr, rfl⟩
  · next scripts hscripts => exact .inr ⟨scripts, _, hscripts, rfl, rfl, rfl⟩

theorem ownerOf_registerWallet {E E' : BlockScanEngine D} {r : Registration D}
    (hok : E.registerWallet r.id r.wollet r.gap = (.ok (), E')) (spk : Script) :
    (E'.ownerOf spk).map ownerData =
      ((r.watches spk).map fun p => (r.id, r.wollet, p)).or ((E.ownerOf spk).map ownerData) := by
  rcases E.registerWallet_cases r.id r.wollet r.gap with
    ⟨e, -, herr⟩ | ⟨scripts, E'', hscripts, hok', hwollets, hindex⟩
  · cases hok.symm.trans herr
  · cases hok.symm.trans hok'
    have hlookup := lookup_indexScripts r.id E.wollets.length scripts E.index spk
    rw [← hindex] at hlookup
    rw [Registration.watches, hscripts]
    dsimp only
    cases hfind : scripts.reverse.find? (·.1 == spk) with
    | some s =>
        rw [hfind, Option.map_some, Option.some_or] at hlookup
        have hlast : E'.wollets[E.wollets.length]? = some r.wollet := by
          rw [hwollets, List.getElem?_concat_length]
        rw [ownerOf_eq_some.mpr ⟨hlookup, hlast⟩]
        rfl
    | none =>
        rw [hfind, Option.map_none, Option.none_or] at hlookup
        rw [Option.map_none, Option.map_none, Option.none_or]
        cases hE : E.ownerOf spk with
        | none => rw [ownerOf_eq_none.mpr (hlookup.trans (ownerOf_eq_none.mp hE))]
        | some owner =>
            obtain ⟨entry, wollet⟩ := owner
            obtain ⟨hentry, hwollet⟩ := ownerOf_eq_some.mp hE
            have hkept : E'.wollets[entry.wolletIdx]? = some wollet := by
              rw [hwollets, List.getElem?_append_left (E.indexed spk entry hentry), hwollet]
            rw [ownerOf_eq_some.mpr ⟨hlookup.trans hentry, hkept⟩]

end BlockScanEngine

/-- Every script belongs to the last registration that watches it. -/
theorem ownerOf_of_registered {regs : List (Registration D)} {E : BlockScanEngine D}
    (h : Registered regs E) (spk : Script) :
    (E.ownerOf spk).map BlockScanEngine.ownerData =
      (lastWatcher regs spk).map fun w => (w.1.id, w.1.wollet, w.2) := by
  induction h with
  | new => rfl
  | register r _ hok ih =>
      rw [BlockScanEngine.ownerOf_registerWallet hok, ih, lastWatcher_concat]
      cases r.watches spk <;> rfl

/-- What an engine captures, in terms of its registrations. -/
theorem mem_captures_of_registered {regs : List (Registration D)} {E : BlockScanEngine D}
    (h : Registered regs E) {height : Nat} {txs : List Transaction} {u : CapturedUtxo} :
    u ∈ E.captures height txs ↔ ∃ tx ∈ txs, ∃ vout txout r p secrets,
      tx.output[vout]? = some txout ∧ lastWatcher regs txout.scriptPubkey = some (r, p) ∧
      r.wollet.unblind txout = .ok secrets ∧ u = {
        walletId := r.id, outpoint := { txid := tx.txid, vout }, txout, secrets, chain := p.1
        wildcardIndex := p.2, height, isSpent := false } := by
  rw [BlockScanEngine.mem_captures]
  simp only [BlockScanEngine.mem_captureTx, BlockScanEngine.captureOutput_eq_some]
  constructor
  · rintro ⟨tx, htx, vout, txout, hout, entry, wollet, secrets, howner, hunblind, rfl⟩
    have hdata := ownerOf_of_registered h txout.scriptPubkey
    rw [howner] at hdata
    obtain ⟨⟨r, p⟩, hlast, heq⟩ := Option.map_eq_some_iff.mp hdata.symm
    simp only [BlockScanEngine.ownerData, Prod.mk.injEq] at heq
    obtain ⟨hid, rfl, rfl⟩ := heq
    exact ⟨tx, htx, vout, txout, r, _, secrets, hout, hlast, hunblind, by rw [hid]⟩
  · rintro ⟨tx, htx, vout, txout, r, p, secrets, hout, hlast, hunblind, rfl⟩
    have hdata := ownerOf_of_registered h txout.scriptPubkey
    rw [hlast] at hdata
    obtain ⟨⟨entry, wollet⟩, howner, heq⟩ := Option.map_eq_some_iff.mp hdata
    simp only [BlockScanEngine.ownerData, Prod.mk.injEq] at heq
    obtain ⟨hid, rfl, rfl⟩ := heq
    exact ⟨tx, htx, vout, txout, hout, entry, _, secrets, howner, hunblind, by rw [hid]⟩

/-! ## The entries a scan leaves -/

namespace BlockScanEngine

variable {E : BlockScanEngine D}

/-- The record of an entry is `u`, spent or not. -/
def Keeps (e : Entry) (u : CapturedUtxo) : Prop := e.utxo = { u with isSpent := e.utxo.isSpent }

theorem Keeps.trans {e e' : Entry} {u : CapturedUtxo} (h : Keeps e e'.utxo) (h' : Keeps e' u) :
    Keeps e u := by
  unfold Keeps at h h' ⊢
  rw [h, h']

/-- The entry at an outpoint after one block: a record captured from the
block, or else the one that was there. -/
theorem entryAt_blockStep (E : BlockScanEngine D) (h : Nat) (b : Block) (st : ScanState)
    (o : OutPoint) :
    (∃ u ∈ E.captures h b.txdata, u.outpoint = o ∧
      ∃ e, (E.blockStep h b st).stores.utxos.entryAt o = some e ∧ Keeps e u) ∨
    (o ∉ (E.captures h b.txdata).map (·.outpoint) ∧
      ((E.blockStep h b st).stores.utxos.entryAt o = none ∧ st.stores.utxos.entryAt o = none ∨
        ∃ e e', (E.blockStep h b st).stores.utxos.entryAt o = some e ∧
          st.stores.utxos.entryAt o = some e' ∧ Keeps e e'.utxo)) := by
  have hmark : ∀ (s : MemUtxoStore) ops e, s.entryAt o = some e →
      ∃ e', (s.markSpent ops h).entryAt o = some e' ∧ Keeps e' e.utxo := by
    intro s ops e he
    rw [MemUtxoStore.entryAt_markSpent, he]
    by_cases hop : o ∈ ops
    · rw [if_pos hop]
      exact ⟨_, rfl, rfl⟩
    · rw [if_neg hop]
      exact ⟨_, rfl, rfl⟩
  have hutxos : (E.blockStep h b st).stores.utxos =
      (st.stores.utxos.upsertUtxos (E.captures h b.txdata)).markSpent
        (E.scanTxs h b.txdata st.spendIndex).spent h := by
    rw [← scanTxs_captured E h b.txdata st.spendIndex]
    rfl
  rw [hutxos]
  rcases MemUtxoStore.entryAt_upsertUtxos st.stores.utxos (E.captures h b.txdata) o
    with ⟨hno, hentry⟩ | ⟨u, hu, hop, hentry⟩
  · refine .inr ⟨hno, ?_⟩
    cases hst : st.stores.utxos.entryAt o with
    | none =>
        rw [MemUtxoStore.entryAt_markSpent, hentry, hst]
        simp
    | some e =>
        obtain ⟨e', he', hkeeps⟩ := hmark _ (E.scanTxs h b.txdata st.spendIndex).spent e
          (hentry.trans hst)
        exact .inr ⟨e', e, he', rfl, hkeeps⟩
  · obtain ⟨e, he, hkeeps⟩ := hmark _ (E.scanTxs h b.txdata st.spendIndex).spent _ hentry
    exact .inl ⟨u, hu, hop, e, he, hkeeps⟩

/-- The entries a scan leaves are records it captured or that were there
before, and nothing captured is lost. -/
theorem entryAt_blockSteps (E : BlockScanEngine D) (o : OutPoint) (bs : List Block) (n : Nat)
    (st : ScanState) :
    (∀ e, (E.blockSteps n bs st).stores.utxos.entryAt o = some e →
      (∃ (i : Nat) (b : Block) (u : CapturedUtxo), bs[i]? = some b ∧
        u ∈ E.captures (n + i) b.txdata ∧ u.outpoint = o ∧ Keeps e u) ∨
      ∃ e', st.stores.utxos.entryAt o = some e' ∧ Keeps e e'.utxo) ∧
    ((st.stores.utxos.entryAt o).isSome ∨ (∃ (i : Nat) (b : Block), bs[i]? = some b ∧
        o ∈ (E.captures (n + i) b.txdata).map (·.outpoint)) →
      ((E.blockSteps n bs st).stores.utxos.entryAt o).isSome) := by
  induction bs generalizing n st with
  | nil =>
      refine ⟨fun e he => .inr ⟨e, he, rfl⟩, ?_⟩
      rintro (h | ⟨i, b, hb, -⟩)
      · exact h
      · cases hb
  | cons b bs ih =>
      obtain ⟨hsound, hcomplete⟩ := ih (n + 1) (E.blockStep n b st)
      have hstep := entryAt_blockStep E n b st o
      rw [blockSteps]
      constructor
      · intro e he
        rcases hsound e he with ⟨i, b', u, hb', hu, hop, hkeeps⟩ | ⟨e', he', hkeeps⟩
        · rw [Nat.add_assoc, Nat.add_comm 1] at hu
          exact .inl ⟨i + 1, b', u, hb', hu, hop, hkeeps⟩
        · rcases hstep with ⟨u, hu, hop, e₁, he₁, hkeeps₁⟩
            | ⟨-, ⟨hnone, -⟩ | ⟨e₁, e₀, he₁, he₀, hkeeps₁⟩⟩
          · obtain rfl := Option.some.inj (he'.symm.trans he₁)
            exact .inl ⟨0, b, u, rfl, hu, hop, hkeeps.trans hkeeps₁⟩
          · rw [hnone] at he'
            cases he'
          · obtain rfl := Option.some.inj (he'.symm.trans he₁)
            exact .inr ⟨e₀, he₀, hkeeps.trans hkeeps₁⟩
      · intro h
        apply hcomplete
        rcases hstep with ⟨u, hu, hop, e₁, he₁, -⟩ | ⟨hno, hkept⟩
        · exact .inl (by rw [he₁]; rfl)
        · rcases h with h | ⟨i, b', hb', ho⟩
          · rcases hkept with ⟨-, hnone⟩ | ⟨e₁, e₀, he₁, -, -⟩
            · rw [hnone] at h
              cases h
            · exact .inl (by rw [he₁]; rfl)
          · cases i with
            | zero =>
                cases hb'
                exact absurd ho hno
            | succ i =>
                refine .inr ⟨i, b', hb', ?_⟩
                rw [Nat.add_assoc, Nat.add_comm 1]
                exact ho

end BlockScanEngine

/-! ## Complete capture -/

/-- Every output of the chain that some registration watches and can
unblind is stored, under a wallet that watches it and unblinded by it. -/
def CaptureComplete (regs : List (Registration D)) (node : MockChainSource) (S : Stores) : Prop :=
  ∀ b ∈ node.chain, ∀ tx ∈ b.txdata, ∀ (vout : Nat) (txout : TxOut),
    tx.output[vout]? = some txout → ∀ r ∈ regs, (r.watches txout.scriptPubkey).isSome →
    (∃ secrets, r.wollet.unblind txout = .ok secrets) →
    ∃ e, S.utxos.entryAt { txid := tx.txid, vout } = some e ∧ e.utxo.txout = txout ∧
      ∃ r' ∈ regs, r'.id = e.utxo.walletId ∧ (r'.watches txout.scriptPubkey).isSome ∧
        r'.wollet.unblind txout = .ok e.utxo.secrets

/-- Of each such output, the registration that watches it last can
unblind it. -/
def LastWatcherUnblinds (regs : List (Registration D)) (node : MockChainSource) : Prop :=
  ∀ b ∈ node.chain, ∀ tx ∈ b.txdata, ∀ (vout : Nat) (txout : TxOut),
    tx.output[vout]? = some txout → ∀ r ∈ regs, (r.watches txout.scriptPubkey).isSome →
    (∃ secrets, r.wollet.unblind txout = .ok secrets) →
    ∃ r' p secrets, lastWatcher regs txout.scriptPubkey = some (r', p) ∧
      r'.wollet.unblind txout = .ok secrets

/-- The entries of a first pass: each is a record captured from the
chain, and nothing captured is missing. -/
theorem entryAt_firstPass {E : BlockScanEngine D} {node : MockChainSource} {S : Stores}
    {summary : SyncSummary} (hhash : (node.chain.map (·.blockHash)).Nodup)
    (hexec : Prog.Exec (memEnv node noFault) E.sync Stores.new (.ok summary) S) (o : OutPoint) :
    (∀ e, S.utxos.entryAt o = some e → ∃ (i : Nat) (b : Block) (u : CapturedUtxo),
      node.chain[i]? = some b ∧ u ∈ E.captures i b.txdata ∧ u.outpoint = o ∧
        BlockScanEngine.Keeps e u) ∧
    ∀ (i : Nat) (b : Block), node.chain[i]? = some b →
      o ∈ (E.captures i b.txdata).map (·.outpoint) → (S.utxos.entryAt o).isSome := by
  have hutxos : S.utxos = (E.loopState node Stores.new node.chain).stores.utxos := by
    have htodo : BlockScanEngine.todo node Stores.new = node.chain := by
      rw [BlockScanEngine.todo, MockChainSource.served_eq hhash]
      rfl
    rw [← htodo]
    cases BlockScanEngine.passEnd_of_exec (notBelowCursor_of_exec hexec) hexec with
    | done => rfl
  obtain ⟨hsound, hcomplete⟩ := BlockScanEngine.entryAt_blockSteps E o node.chain 0
    ⟨Stores.new, Map.collect Stores.new.utxos.unspentOutpoints, {}⟩
  simp only [Nat.zero_add] at hsound hcomplete
  rw [hutxos]
  constructor
  · intro e he
    rcases hsound e he with hcaptured | ⟨e', he', -⟩
    · exact hcaptured
    · cases he'
  · intro i b hb ho
    exact hcomplete (.inr ⟨i, b, hb, ho⟩)

/-- Capture is complete exactly when the last watcher of every output
can unblind it, if any watcher can. -/
theorem capture_complete_iff {regs : List (Registration D)} {E : BlockScanEngine D}
    (hregs : Registered regs E) {node : MockChainSource}
    (hhash : (node.chain.map (·.blockHash)).Nodup)
    (htxid : TxidsIdentify {tx | tx ∈ chainTxs node.chain}) {summary : SyncSummary} {S : Stores}
    (hexec : Prog.Exec (memEnv node noFault) E.sync Stores.new (.ok summary) S) :
    CaptureComplete regs node S ↔ LastWatcherUnblinds regs node := by
  -- The record of an entry at an output of the chain is of that output.
  have hrecord : ∀ b ∈ node.chain, ∀ tx ∈ b.txdata, ∀ (vout : Nat) (txout : TxOut),
      tx.output[vout]? = some txout → ∀ e, S.utxos.entryAt { txid := tx.txid, vout } = some e →
      ∃ r p, lastWatcher regs txout.scriptPubkey = some (r, p) ∧ e.utxo.txout = txout ∧
        r.id = e.utxo.walletId ∧ r.wollet.unblind txout = .ok e.utxo.secrets := by
    intro b hb tx htx vout txout hout e he
    obtain ⟨i, b', u, hb', hu, hop, hkeeps⟩ := (entryAt_firstPass hhash hexec _).1 e he
    obtain ⟨tx', htx', vout', txout', r, p, secrets, hout', hlast, hunblind, rfl⟩ :=
      (mem_captures_of_registered hregs).mp hu
    simp only [OutPoint.mk.injEq] at hop
    obtain ⟨hsame, rfl⟩ := hop
    have houtputs := htxid tx' (List.mem_flatMap.mpr ⟨b', List.mem_of_getElem? hb', htx'⟩) tx
      (List.mem_flatMap.mpr ⟨b, hb, htx⟩) hsame
    rw [houtputs, hout] at hout'
    obtain rfl := Option.some.inj hout'
    rw [BlockScanEngine.Keeps] at hkeeps
    rw [hkeeps]
    exact ⟨r, p, hlast, rfl, rfl, hunblind⟩
  constructor
  · intro hcomplete b hb tx htx vout txout hout r hr hwatch hunblind
    obtain ⟨e, he, -⟩ := hcomplete b hb tx htx vout txout hout r hr hwatch hunblind
    obtain ⟨r', p, hlast, -, -, hunblind'⟩ := hrecord b hb tx htx vout txout hout e he
    exact ⟨r', p, _, hlast, hunblind'⟩
  · intro hlast b hb tx htx vout txout hout r hr hwatch hunblind
    obtain ⟨r', p, secrets, hr', hunblind'⟩ :=
      hlast b hb tx htx vout txout hout r hr hwatch hunblind
    obtain ⟨i, hi⟩ := List.mem_iff_getElem?.mp hb
    have hu : _ ∈ E.captures i b.txdata := (mem_captures_of_registered hregs).mpr
      ⟨tx, htx, vout, txout, r', p, secrets, hout, hr', hunblind', rfl⟩
    have hstored := (entryAt_firstPass hhash hexec { txid := tx.txid, vout }).2 i b hi
      (List.mem_map.mpr ⟨_, hu, rfl⟩)
    obtain ⟨e, he⟩ := Option.isSome_iff_exists.mp hstored
    obtain ⟨r₁, p₁, hr₁, htxout, hwallet, hsecrets⟩ := hrecord b hb tx htx vout txout hout e he
    obtain ⟨hmem, hwatch₁⟩ := lastWatcher_mem hr₁
    exact ⟨e, he, htxout, r₁, hmem, hwallet, Option.isSome_of_eq_some hwatch₁, hsecrets⟩

def plainRegistration : Registration PlainDescriptor := ⟨⟨1⟩, plainWollet, 2⟩

theorem registered_plainEngine : Registered [plainRegistration] plainEngine :=
  .register plainRegistration .new rfl

theorem txidsIdentify_threeBlocks : TxidsIdentify {tx | tx ∈ chainTxs threeBlocks} := by
  have h : ∀ tx ∈ chainTxs threeBlocks, ∀ tx' ∈ chainTxs threeBlocks,
      tx.txid = tx'.txid → tx.output = tx'.output := by decide
  exact h

/-! The same wallet with a second federation version: the same scripts,
another blinding key. -/

def rotatedRegistration : Registration PlainDescriptor := ⟨⟨1⟩, ⟨⟨7, 2⟩, .elementsRegtest⟩, 2⟩

/-- The version that the chain pays to is registered last. -/
def restoredEngine : BlockScanEngine PlainDescriptor :=
  ((BlockScanEngine.new.registerWallet rotatedRegistration.id rotatedRegistration.wollet
    rotatedRegistration.gap).2.registerWallet ⟨1⟩ plainWollet 2).2

theorem capture_complete_iff_threeBlocks :
    CaptureComplete [rotatedRegistration, plainRegistration] ⟨threeBlocks⟩
      (Prog.run (memStep ⟨threeBlocks⟩) restoredEngine.sync Stores.new).2 := by
  have hregs : Registered [rotatedRegistration, plainRegistration] restoredEngine :=
    .register plainRegistration (.register rotatedRegistration .new rfl) rfl
  have hexec : Prog.Exec (memEnv ⟨threeBlocks⟩ noFault) restoredEngine.sync Stores.new
      (.ok { blocksScanned := 3, utxosCaptured := 1, utxosSpent := 1 }) _ := exec_memStep rfl
  refine (capture_complete_iff hregs (by decide) txidsIdentify_threeBlocks hexec).mpr ?_
  intro b hb tx htx vout txout hout r _ _ _
  have hpaid : ∀ b ∈ threeBlocks, ∀ tx ∈ b.txdata, ∀ txout ∈ tx.output,
      txout = plainOutput (plainWollet.descriptor.script .external 1) 1 := by decide
  obtain rfl := hpaid b hb tx htx txout (List.mem_of_getElem? hout)
  exact ⟨plainRegistration, (.external, 1), _, rfl, rfl⟩

/-! Registered first, its blinding key is hidden by the other one. -/

def rotatedEngine : BlockScanEngine PlainDescriptor :=
  (plainEngine.registerWallet rotatedRegistration.id rotatedRegistration.wollet
    rotatedRegistration.gap).2

/-- Without the condition capture is not complete: the second version
hides the outputs blinded to the first. -/
theorem rotated_key_hides : ¬∀ (regs : List (Registration PlainDescriptor))
    (E : BlockScanEngine PlainDescriptor) (node : MockChainSource) (summary : SyncSummary)
    (S : Stores), Registered regs E → (node.chain.map (·.blockHash)).Nodup →
    TxidsIdentify {tx | tx ∈ chainTxs node.chain} →
    Prog.Exec (memEnv node noFault) E.sync Stores.new (.ok summary) S →
    CaptureComplete regs node S := by
  intro hgeneral
  have hregs : Registered [plainRegistration, rotatedRegistration] rotatedEngine :=
    .register rotatedRegistration registered_plainEngine rfl
  have hexec : Prog.Exec (memEnv ⟨threeBlocks⟩ noFault) rotatedEngine.sync Stores.new
      (.ok { blocksScanned := 3, skippedUnblindable := 1 }) _ := exec_memStep rfl
  obtain ⟨e, he, -⟩ := hgeneral _ _ _ _ _ hregs (by decide) txidsIdentify_threeBlocks hexec
    ⟨⟨11⟩, ⟨10⟩, [payment]⟩ (by decide) payment (by decide) 0 _ rfl plainRegistration
    (List.mem_cons_self ..) rfl ⟨_, rfl⟩
  have hmissing : (Prog.run (memStep ⟨threeBlocks⟩) rotatedEngine.sync Stores.new).2.utxos.entryAt
      ⟨⟨100⟩, 0⟩ = none := rfl
  rw [show payment.txid = ⟨100⟩ from rfl, hmissing] at he
  cases he

/-! ## Rebuilding the engine between passes -/

/-- The engine records the output: its script is indexed, and the wollet
the index names can unblind it. -/
def BlockScanEngine.RecordsOutput (E : BlockScanEngine D) (txout : TxOut) : Prop :=
  ∃ entry wollet secrets, E.ownerOf txout.scriptPubkey = some (entry, wollet) ∧
    wollet.unblind txout = .ok secrets

/-- Every output of the chain that the engine records is stored, spent
exactly when the chain spends it. -/
def PicksUp (E : BlockScanEngine D) (node : MockChainSource) (S : Stores) : Prop :=
  ∀ b ∈ node.chain, ∀ tx ∈ b.txdata, ∀ (vout : Nat) (txout : TxOut),
    tx.output[vout]? = some txout → E.RecordsOutput txout →
    ∃ e, S.utxos.entryAt { txid := tx.txid, vout } = some e ∧ e.utxo.txout = txout ∧
      e.utxo.isSpent = (chainSpentAt node.chain { txid := tx.txid, vout }).isSome ∧
      e.spentHeight = chainSpentAt node.chain { txid := tx.txid, vout }

/-- In the blocks that stay on the node's chain, the engine records no
output that the engine which scanned the block did not. -/
def NothingNewBelow (H : History D) (node : MockChainSource) (E : BlockScanEngine D) : Prop :=
  ∀ h < fork H.blocks node.chain, ∀ b scanner, H[h]? = some (b, scanner) →
    ∀ tx ∈ b.txdata, ∀ txout ∈ tx.output, E.RecordsOutput txout → scanner.RecordsOutput txout

/-- The second engine is the first, rebuilt with more wallets, or with a
larger gap for some. -/
def Widened (E E' : BlockScanEngine D) : Prop :=
  ∃ regs regs', Registered regs E ∧ Registered regs' E' ∧
    ∀ r ∈ regs, ∃ r' ∈ regs', r'.id = r.id ∧ r'.wollet = r.wollet ∧ r.gap ≤ r'.gap

section Stored

variable {S : Stores} {H : History D} (hrep : Represents S H) (hvalid : ValidChain H.blocks)
  {h : Nat} {b : Block} {scanner : BlockScanEngine D} (hp : H[h]? = some (b, scanner))
  {tx : Transaction} (htx : tx ∈ b.txdata) {vout : Nat} {txout : TxOut}
  (hvout : tx.output[vout]? = some txout)

include hrep hvalid hp htx hvout

/-- A stored output was recorded by the engine that scanned its block. -/
theorem Represents.recordsOutput (hstored : (S.utxos.entryAt { txid := tx.txid, vout }).isSome) :
    scanner.RecordsOutput txout := by
  have hmem : ∀ {i : Nat} {p : Block × BlockScanEngine D}, H[i]? = some p →
      H.blocks[i]? = some p.1 := by
    intro i p hp
    rw [History.getElem?_blocks, hp]
    rfl
  obtain ⟨e, he⟩ := Option.isSome_iff_exists.mp hstored
  obtain ⟨i, b', scanner', u, hp', hu, hop, -⟩ := (hrep.entryAt_eq_some hvalid).mp he
  obtain ⟨tx', vout', txout', entry, wollet, secrets, htx', hvout', howner, hunblind, rfl⟩ :=
    BlockScanEngine.mem_captures_iff.mp hu
  simp only [OutPoint.mk.injEq] at hop
  obtain ⟨htxid, rfl⟩ := hop
  -- The chain creates the output once.
  obtain ⟨rfl, rfl⟩ := hvalid.created_inj (hmem hp) (hmem hp') htx htx'
    (Transaction.mem_creates hvout) (htxid ▸ Transaction.mem_creates hvout')
  obtain ⟨rfl, rfl⟩ := Prod.mk.inj (Option.some.inj (hp.symm.trans hp'))
  obtain rfl := Option.some.inj (hvout.symm.trans hvout')
  exact ⟨entry, wollet, secrets, howner, hunblind⟩

/-- And what that engine recorded is stored. -/
theorem Represents.stored_of_recordsOutput (hrecords : scanner.RecordsOutput txout) :
    ∃ e, S.utxos.entryAt { txid := tx.txid, vout } = some e ∧ e.utxo.txout = txout ∧
      e.utxo.isSpent = (chainSpentAt H.blocks { txid := tx.txid, vout }).isSome ∧
      e.spentHeight = chainSpentAt H.blocks { txid := tx.txid, vout } := by
  obtain ⟨entry, wollet, secrets, howner, hunblind⟩ := hrecords
  refine ⟨_, (hrep.entryAt_eq_some hvalid).mpr ⟨h, b, scanner, _, hp,
    BlockScanEngine.mem_captures_iff.mpr ⟨tx, vout, txout, entry, wollet, secrets, htx, hvout,
      howner, hunblind, rfl⟩, rfl, rfl⟩, ?_⟩
  exact ⟨rfl, rfl, rfl⟩

end Stored

section Rebuilt

variable {C : Set (List Block)} (hid : HashesIdentify C) (hvalid : ∀ N ∈ C, ValidChain N)
  {node : MockChainSource} {S S' : Stores} {H : History D} {E : BlockScanEngine D}
  {summary : SyncSummary}

include hid hvalid

/-- A pass scans no block below its start again: an engine picks up the
outputs it newly watches exactly when there are none in the blocks that
earlier engines have scanned. -/
theorem picks_up_iff (hrun : SyncRun C node S H)
    (hexec : Prog.Exec (memEnv node noFault) E.sync S (.ok summary) S') :
    PicksUp E node S' ↔ NothingNewBelow H node E := by
  have hinv := (hrun.inv hid hvalid).pass hid hvalid (notBelowCursor_of_exec hexec) hexec
  have hblocks : (H.rescan node.chain E).blocks = node.chain := History.blocks_rescan ..
  have hchain : ValidChain (H.rescan node.chain E).blocks := by
    rw [hblocks]
    exact hvalid _ hinv.node_mem
  constructor
  · intro hpicks h hh b scanner hp tx htx txout hout hrecords
    rw [← History.getElem?_rescan_of_lt (E := E) hh] at hp
    have hb : b ∈ node.chain := by
      rw [← hblocks]
      exact List.mem_map_of_mem (List.mem_of_getElem? hp)
    obtain ⟨vout, hvout⟩ := List.mem_iff_getElem?.mp hout
    obtain ⟨e, he, -⟩ := hpicks b hb tx htx vout txout hvout hrecords
    exact hinv.represents.recordsOutput hchain hp htx hvout (Option.isSome_of_eq_some he)
  · intro hnothing b hb tx htx vout txout hvout hrecords
    obtain ⟨h, hh⟩ := List.mem_iff_getElem?.mp hb
    obtain ⟨scanner, hp, hscanner⟩ : ∃ scanner, (H.rescan node.chain E)[h]? = some (b, scanner) ∧
        scanner.RecordsOutput txout := by
      rcases Nat.lt_or_ge h (fork H.blocks node.chain) with hlt | hge
      · have hsame := getElem?_of_lt_fork hlt
        rw [hh, History.getElem?_blocks] at hsame
        obtain ⟨⟨b', scanner⟩, hp, rfl⟩ := Option.map_eq_some_iff.mp hsame
        refine ⟨scanner, by rw [History.getElem?_rescan_of_lt hlt, hp], ?_⟩
        exact hnothing h hlt _ scanner hp tx htx txout (List.mem_of_getElem? hvout) hrecords
      · refine ⟨E, ?_, hrecords⟩
        rw [History.getElem?_rescan_of_le hge, hh]
        rfl
    have hstored := hinv.represents.stored_of_recordsOutput hchain hp htx hvout hscanner
    rwa [hblocks] at hstored

end Rebuilt

/-! The same wallet, first with a gap that ends below the script that is
paid. -/

def narrowRegistration : Registration PlainDescriptor := ⟨⟨1⟩, plainWollet, 1⟩

def narrowEngine : BlockScanEngine PlainDescriptor :=
  (BlockScanEngine.new.registerWallet ⟨1⟩ plainWollet 1).2

def narrowSynced : Stores := (Prog.run (memStep ⟨threeBlocks⟩) narrowEngine.sync Stores.new).2

def widenedSynced : Stores := (Prog.run (memStep ⟨threeBlocks⟩) plainEngine.sync narrowSynced).2

theorem exec_widened : Prog.Exec (memEnv ⟨threeBlocks⟩ noFault)
    plainEngine.sync narrowSynced (.ok {})
    widenedSynced := exec_memStep rfl

theorem syncRun_narrow : SyncRun {N | N ∈ [threeBlocks]} ⟨threeBlocks⟩ narrowSynced
    (History.rescan [] threeBlocks narrowEngine) :=
  .pass narrowEngine { blocksScanned := 3 }
    (.init ⟨threeBlocks⟩ (by decide) (List.mem_singleton.mpr rfl)) (fun t ht => nomatch ht)
    (exec_memStep rfl)

theorem picks_up_iff_widened : PicksUp plainEngine ⟨threeBlocks⟩ widenedSynced ↔
    NothingNewBelow (History.rescan [] threeBlocks narrowEngine) ⟨threeBlocks⟩ plainEngine :=
  picks_up_iff hashesIdentify_threeBlocks validChain_threeBlocks syncRun_narrow
    exec_widened

/-- Extending the gap does not bring back what an earlier pass went
past. -/
theorem extended_gap_misses : ¬∀ (C : Set (List Block)) (node : MockChainSource) (S S' : Stores)
    (H : History PlainDescriptor) (E : BlockScanEngine PlainDescriptor) (summary : SyncSummary),
    HashesIdentify C → (∀ N ∈ C, ValidChain N) → SyncRun C node S H →
    (∀ p ∈ H, Widened p.2 E) → Prog.Exec (memEnv node noFault) E.sync S (.ok summary) S' →
    PicksUp E node S' := by
  intro hgeneral
  have hregs : Registered [narrowRegistration] narrowEngine := .register narrowRegistration .new rfl
  have hwide : ∀ p ∈ History.rescan [] threeBlocks narrowEngine, Widened p.2 plainEngine := by
    intro p hp
    rw [History.rescan, List.mem_append] at hp
    rcases hp with hp | hp
    · cases hp
    · obtain ⟨b, -, rfl⟩ := List.mem_map.mp hp
      refine ⟨_, _, hregs, registered_plainEngine, ?_⟩
      intro r hr
      obtain rfl := List.mem_singleton.mp hr
      exact ⟨plainRegistration, List.mem_singleton.mpr rfl, rfl, rfl, by decide⟩
  have hpicks := hgeneral _ _ _ _ _ _ _ hashesIdentify_threeBlocks validChain_threeBlocks
    syncRun_narrow hwide exec_widened
  have hrecords : plainEngine.RecordsOutput
      (plainOutput (plainWollet.descriptor.script .external 1) 1) :=
    ⟨⟨⟨1⟩, .external, 1, 0⟩, plainWollet, ⟨⟨0⟩, 0, 1000, 0⟩, rfl, rfl⟩
  obtain ⟨e, he, -⟩ := hpicks ⟨⟨11⟩, ⟨10⟩, [payment]⟩ (by decide) payment (by decide)
    0 _ rfl hrecords
  have hmissing : widenedSynced.utxos.entryAt ⟨payment.txid, 0⟩ = none := rfl
  rw [hmissing] at he
  cases he

end EmvaultElements
