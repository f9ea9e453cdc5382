import EmvaultElements.Migration
import EmvaultElements.ScriptIndex

/-!
# Coins

A wallet's coins are the outputs of the chain that it owns and that no
block spends. After a pass they are what `list_unspent` lists
(`Represents.mem_listUnspent`), each once. So a migration of everything
listed for some wallets spends exactly their coins, and enriches every
input from the descriptor at which the wallet's wollet derives the
script of the coin (`migration_spends_coins`).
-/

namespace EmvaultElements

variable {D : Type} [LwkDescriptor D]

/-! ## What is listed -/

/-- An unspent output of the history's blocks, recorded for the wallet
by the engine that scanned its block. -/
def Coin (H : History D) (id : WalletId) (op : OutPoint) (txout : TxOut) : Prop :=
  chainSpentAt H.blocks op = none ∧
  ∃ (i : Nat) (b : Block) (E : BlockScanEngine D) (tx : Transaction) (vout : Nat)
    (entry : ScriptEntry) (wollet : ElementsWollet D) (secrets : TxOutSecrets),
    H[i]? = some (b, E) ∧ tx ∈ b.txdata ∧ tx.output[vout]? = some txout ∧
    op = { txid := tx.txid, vout } ∧ E.ownerOf txout.scriptPubkey = some (entry, wollet) ∧
    entry.walletId = id ∧ wollet.unblind txout = .ok secrets

section

variable {S : Stores} {H : History D} (hrep : Represents S H) (hvalid : ValidChain H.blocks)
  {id : WalletId}

include hrep hvalid

/-- The records listed for a wallet: what was captured for it, and is
not spent. -/
theorem Represents.mem_listUnspent {u : CapturedUtxo} : u ∈ S.utxos.listUnspent id ↔
    u.walletId = id ∧ chainSpentAt H.blocks u.outpoint = none ∧
      ∃ (i : Nat) (b : Block) (E : BlockScanEngine D), H[i]? = some (b, E) ∧
        u ∈ E.captures i b.txdata := by
  rw [MemUtxoStore.mem_listUnspent]
  constructor
  · rintro ⟨e, he, rfl, hunspent, hwallet⟩
    obtain ⟨i, b, E, u, hp, hu, hop, heq⟩ := (hrep.entryAt_eq_some hvalid).mp he
    have hspent : chainSpentAt H.blocks e.utxo.outpoint = none := by
      rw [heq] at hunspent
      exact Option.isSome_eq_false_iff.mp hunspent |> Option.isNone_iff_eq_none.mp
    have hsame : e.utxo = u := by
      rw [heq, hspent]
      obtain ⟨-, hfresh⟩ := BlockScanEngine.captures_height hu
      rw [Option.isSome_none, ← hfresh]
    exact ⟨hwallet, hspent, i, b, E, hp, hsame ▸ hu⟩
  · rintro ⟨hwallet, hspent, i, b, E, hp, hu⟩
    obtain ⟨-, hfresh⟩ := BlockScanEngine.captures_height hu
    refine ⟨_, (hrep.entryAt_eq_some hvalid).mpr ⟨i, b, E, u, hp, hu, rfl, rfl⟩, ?_,
      hfresh, hwallet⟩
    rw [hspent, Option.isSome_none, ← hfresh]

/-- The outpoints listed for a wallet are its coins. -/
theorem Represents.listed_iff {op : OutPoint} :
    (∃ u ∈ S.utxos.listUnspent id, u.outpoint = op) ↔ ∃ txout, Coin H id op txout := by
  simp only [hrep.mem_listUnspent hvalid, BlockScanEngine.mem_captures_iff]
  constructor
  · rintro ⟨u, ⟨hwallet, hspent, i, b, E, hp, tx, vout, txout, entry, wollet, secrets, htx, hvout,
      howner, hsecrets, rfl⟩, rfl⟩
    exact ⟨txout, hspent, i, b, E, tx, vout, entry, wollet, secrets, hp, htx, hvout, rfl, howner,
      hwallet, hsecrets⟩
  · rintro ⟨txout, hspent, i, b, E, tx, vout, entry, wollet, secrets, hp, htx, hvout, rfl, howner,
      hwallet, hsecrets⟩
    exact ⟨_, ⟨hwallet, hspent, i, b, E, hp, tx, vout, txout, entry, wollet, secrets, htx, hvout,
      howner, hsecrets, rfl⟩, rfl⟩

end

omit [LwkDescriptor D] in
theorem MemUtxoStore.nodup_listUnspent (s : MemUtxoStore) (id : WalletId) :
    ((s.listUnspent id).map (·.outpoint)).Nodup := by
  have hkeys : s.inner.values.map (·.utxo.outpoint) = s.inner.keys := by
    rw [Map.values, AList.keys, List.map_map]
    refine List.map_congr_left ?_
    rintro ⟨op, e⟩ he
    exact s.keyed op e (Map.mem_entries_iff.mp he)
  rw [listUnspent, List.map_map]
  have hsub := (List.filter_sublist (p := fun e => !e.utxo.isSpent && e.utxo.walletId == id)
    (l := s.inner.values)).map (·.utxo.outpoint)
  rw [hkeys] at hsub
  exact hsub.nodup s.inner.keys_nodup

/-! ## What is spent -/

/-- The registrations the engine was made from give each of these
wallets one wollet. -/
def OneWollet (ids : List WalletId) (wolletOf : WalletId → ElementsWollet D)
    (E : BlockScanEngine D) : Prop :=
  ∃ regs, E = registerAll regs ∧ ∀ r ∈ regs, r.id ∈ ids → r.wollet = wolletOf r.id

/-- Everything listed for the wallets, each with its wollet. -/
def listedInputs (S : Stores) (wolletOf : WalletId → ElementsWollet D) (ids : List WalletId) :
    List (CapturedUtxo × ElementsWollet D) :=
  ids.flatMap fun id => ownedBy (wolletOf id) (S.utxos.listUnspent id)

omit [LwkDescriptor D] in
theorem mem_listedInputs {S : Stores} {wolletOf : WalletId → ElementsWollet D}
    {ids : List WalletId} {input : CapturedUtxo × ElementsWollet D} :
    input ∈ listedInputs S wolletOf ids ↔ input.1.walletId ∈ ids ∧
      input.1 ∈ S.utxos.listUnspent input.1.walletId ∧ input.2 = wolletOf input.1.walletId := by
  simp only [listedInputs, List.mem_flatMap, ownedBy, List.mem_map]
  constructor
  · rintro ⟨id, hid, u, hu, rfl⟩
    obtain ⟨-, -, -, -, rfl⟩ := MemUtxoStore.mem_listUnspent.mp hu
    exact ⟨hid, hu, rfl⟩
  · rintro ⟨hid, hu, howner⟩
    exact ⟨_, hid, _, hu, Prod.ext rfl howner.symm⟩

omit [LwkDescriptor D] in
/-- A record is listed once, for one wallet. -/
theorem nodup_listedInputs (S : Stores) (wolletOf : WalletId → ElementsWollet D)
    {ids : List WalletId} (hids : ids.Nodup) :
    ((listedInputs S wolletOf ids).map (·.1.outpoint)).Nodup := by
  rw [listedInputs, List.map_flatMap, List.nodup_flatMap]
  refine ⟨?_, hids.imp ?_⟩
  · intro id _
    rw [ownedBy, List.map_map]
    exact S.utxos.nodup_listUnspent id
  · intro id id' hne
    refine List.disjoint_left.mpr ?_
    intro op hop hop'
    obtain ⟨input, hmem, rfl⟩ := List.mem_map.mp hop
    obtain ⟨u, hu, rfl⟩ := List.mem_map.mp hmem
    obtain ⟨input', hmem', heq⟩ := List.mem_map.mp hop'
    obtain ⟨u', hu', rfl⟩ := List.mem_map.mp hmem'
    obtain ⟨e, he, rfl, -, rfl⟩ := MemUtxoStore.mem_listUnspent.mp hu
    obtain ⟨e', he', rfl, -, rfl⟩ := MemUtxoStore.mem_listUnspent.mp hu'
    have hsame : e'.utxo.outpoint = e.utxo.outpoint := heq
    rw [hsame] at he'
    exact hne (by rw [Option.some.inj (he.symm.trans he')])

section

variable {M Definite PK Id : Type} [WolletDescriptor D M] [MultipathDescriptor M Definite]
  [PsbtExt PK Definite]

/-- The address at a chain and index pays the script of the definite
descriptor there. -/
def AddressesMatch (Id : Type) (scriptOf : Definite → Script) (w : ElementsWollet D) : Prop :=
  ∀ singles chain index definite addr, singlesOf Id w = .ok singles →
    definiteAt Id singles chain.toIdx index = .ok definite → w.address chain index = .ok addr →
    scriptOf definite = addr.scriptPubkey

/-- A definite descriptor of the wollet. -/
def DefiniteOf (Id : Type) (w : ElementsWollet D) (definite : Definite) : Prop :=
  ∃ singles, singlesOf Id w = .ok singles ∧
    ∃ (chain : Chain) (index : Nat), definiteAt Id singles chain.toIdx index = .ok definite

/-- The PSET spends the coins of the wallets, each once, and every input
was enriched from a descriptor of the owner with the script of the coin
it spends. -/
structure SpendsCoins (Id : Type) (H : History D) (ids : List WalletId)
    (wolletOf : WalletId → ElementsWollet D) (scriptOf : Definite → Script)
    (blinded : BlindedPset PK) :
    Prop where
  nodup : blinded.pset.prevouts.Nodup
  prevouts : ∀ op, op ∈ blinded.pset.prevouts ↔ ∃ id ∈ ids, ∃ txout, Coin H id op txout
  enriched : ∃ (pset : Pset PK) (calls : List (Nat × Definite)),
    makeCalls calls pset = .ok blinded.pset ∧
    calls.map (·.1) = List.range blinded.pset.inputs.length ∧
    ∀ idx definite, (idx, definite) ∈ calls → ∃ id ∈ ids, ∃ op txout,
      blinded.pset.prevouts[idx]? = some op ∧ Coin H id op txout ∧
      DefiniteOf Id (wolletOf id) definite ∧ scriptOf definite = txout.scriptPubkey

omit [LwkDescriptor D] [WolletDescriptor D M] [MultipathDescriptor M Definite] in
theorem prevouts_makeCalls (hkept : PrevoutsKept PK Definite) {calls : List (Nat × Definite)}
    {pset pset' : Pset PK} (h : makeCalls calls pset = .ok pset') :
    pset'.prevouts = pset.prevouts :=
  foldlM_keeps (P := fun p => p.prevouts = pset.prevouts)
    (fun call _ p p' hone hp => (hkept p p' call.1 call.2 hone).trans hp) h rfl

omit [LwkDescriptor D] [WolletDescriptor D M] [MultipathDescriptor M Definite] in
theorem length_prevouts (pset : Pset PK) : pset.prevouts.length = pset.inputs.length :=
  List.length_map ..

omit [LwkDescriptor D] [WolletDescriptor D M] [MultipathDescriptor M Definite]
  [PsbtExt PK Definite] in
theorem afterCalls_eq_ok {res : Except String (Pset PK)} {blinded : BlindedPset PK}
    (h : afterCalls Id res = .ok blinded) : res = .ok blinded.pset := by
  cases res with
  | error msg => cases h
  | ok pset =>
      simp only [afterCalls, BlindedPset.new] at h
      split at h
      · cases h
      · next heq =>
          cases h
          split at heq
          · cases heq
            rfl
          · cases heq

variable {S : Stores} {H : History D} {ids : List WalletId}
  {wolletOf : WalletId → ElementsWollet D} {scriptOf : Definite → Script} {blinded : BlindedPset PK}

omit [WolletDescriptor D M] [MultipathDescriptor M Definite] [PsbtExt PK Definite] in
/-- A listed record is of a coin, whose script its wollet derives where
the record says. -/
theorem coin_of_listed (hrep : Represents S H) (hvalid : ValidChain H.blocks)
    (hone : ∀ p ∈ H, OneWollet ids wolletOf p.2) {u : CapturedUtxo} (hid : u.walletId ∈ ids)
    (hu : u ∈ S.utxos.listUnspent u.walletId) : Coin H u.walletId u.outpoint u.txout ∧
      (wolletOf u.walletId).Derives u.chain u.wildcardIndex u.txout.scriptPubkey := by
  obtain ⟨-, hspent, i, b, E, hp, hcaptured⟩ := (hrep.mem_listUnspent hvalid).mp hu
  obtain ⟨regs, rfl, hwollets⟩ := hone _ (List.mem_of_getElem? hp)
  obtain ⟨j, r, hr, -, howns, -⟩ :=
    (ownedByCalls_registerAll regs).captures i b.txdata _ rfl u hcaptured
  have hwollet : r.wollet = wolletOf u.walletId := by
    rw [hwollets r (List.mem_of_getElem? hr) (howns.id ▸ hid), howns.id]
  refine ⟨⟨hspent, ?_⟩, hwollet ▸ howns.derives⟩
  obtain ⟨tx, vout, txout, entry, wollet, secrets, htx, hvout, howner, hsecrets, rfl⟩ :=
    BlockScanEngine.mem_captures_iff.mp hcaptured
  exact ⟨i, b, _, tx, vout, entry, wollet, secrets, hp, htx, hvout, rfl, howner, rfl, hsecrets⟩

/-- A PSET that spends what is listed spends the coins. -/
theorem EnrichedByOwners.spendsCoins (hrep : Represents S H) (hvalid : ValidChain H.blocks)
    (hone : ∀ p ∈ H, OneWollet ids wolletOf p.2) (hids : ids.Nodup)
    (haddresses : ∀ id ∈ ids, AddressesMatch Id scriptOf (wolletOf id))
    (hkept : PrevoutsKept PK Definite)
    (h : EnrichedByOwners Id (listedInputs S wolletOf ids) blinded) :
    SpendsCoins Id H ids wolletOf scriptOf blinded := by
  obtain ⟨pset, calls, hperm, ⟨hevery, hown⟩, hok⟩ := h
  have hcalls := afterCalls_eq_ok hok
  have hsame := prevouts_makeCalls hkept hcalls
  refine ⟨?_, ?_, pset, calls, hcalls, ?_, ?_⟩
  · rw [hsame]
    exact hperm.nodup_iff.mpr (nodup_listedInputs S wolletOf hids)
  · intro op
    rw [hsame, hperm.mem_iff, List.mem_map]
    simp only [← hrep.listed_iff hvalid]
    constructor
    · rintro ⟨input, hinput, rfl⟩
      obtain ⟨hid, hlisted, -⟩ := mem_listedInputs.mp hinput
      exact ⟨_, hid, _, hlisted, rfl⟩
    · rintro ⟨id, hid, u, hu, rfl⟩
      obtain ⟨-, -, -, -, rfl⟩ := MemUtxoStore.mem_listUnspent.mp hu
      exact ⟨(u, wolletOf u.walletId), mem_listedInputs.mpr ⟨hid, hu, rfl⟩, rfl⟩
  · rw [hevery, ← length_prevouts, ← length_prevouts, hsame]
  · intro idx definite hcall
    obtain ⟨u, owner, singles, hinput, hprevout, hsingles, hdefinite⟩ := hown idx definite hcall
    obtain ⟨hid, hlisted, howner⟩ := mem_listedInputs.mp hinput
    obtain rfl : owner = wolletOf u.walletId := howner
    obtain ⟨hcoin, addr, haddr, hscript⟩ := coin_of_listed hrep hvalid hone hid hlisted
    refine ⟨u.walletId, hid, u.outpoint, u.txout, hsame ▸ hprevout, hcoin,
      ⟨singles, hsingles, _, _, hdefinite⟩, ?_⟩
    rw [← hscript]
    exact haddresses _ hid singles _ _ definite addr hsingles hdefinite haddr

end

section

variable {M Definite PK Id B Rate : Type} [WolletDescriptor D M] [MultipathDescriptor M Definite]
  [PsbtExt PK Definite] [DefiniteDescriptor Definite]
  {C : Set (List Block)} (hid : HashesIdentify C) (hvalid : ∀ c ∈ C, ValidChain c)
  {node : MockChainSource} {S S' : Stores} {H : History D} {E : BlockScanEngine D}
  {summary : SyncSummary} {ids : List WalletId} {wolletOf : WalletId → ElementsWollet D}
  {scriptOf : Definite → Script} {lwk : TxBuilder D PK B Rate} {given : B → List ExternalUtxo}

omit [WolletDescriptor D M] [MultipathDescriptor M Definite] [PsbtExt PK Definite]
  [DefiniteDescriptor Definite] in
theorem oneWollet_rescan (hH : ∀ p ∈ H, OneWollet ids wolletOf p.2) (hE : OneWollet ids wolletOf E)
    (c : List Block) : ∀ p ∈ H.rescan c E, OneWollet ids wolletOf p.2 := by
  intro p hp
  rcases List.mem_append.mp hp with hold | hnew
  · exact hH p (List.mem_of_mem_take hold)
  · obtain ⟨b, -, rfl⟩ := List.mem_map.mp hnew
    exact hE

include hid hvalid

/-- After any pass of any run, a migration of what is listed for some
wallets spends exactly their coins, and so does a sweep of what is
listed for one of them. -/
theorem migration_spends_coins (hrun : SyncRun C node S H)
    (hexec : Prog.Exec (memEnv node noFault) E.sync S (.ok summary) S')
    (hH : ∀ p ∈ H, OneWollet ids wolletOf p.2) (hE : OneWollet ids wolletOf E) (hids : ids.Nodup)
    (haddresses : ∀ id ∈ ids, AddressesMatch Id scriptOf (wolletOf id))
    (htext : TextsIdentify (listedInputs S' wolletOf ids)) (hkept : PrevoutsKept PK Definite)
    (hlwk : SpendsGiven lwk given) :
    (∀ feeWollet customerRecipients feeAccountDest feeRate (blinded : BlindedPset PK),
      buildMigrationPset lwk feeWollet (listedInputs S' wolletOf ids) customerRecipients
        feeAccountDest feeRate = (.ok blinded : Outcome (SpendError Id) (BlindedPset PK)) →
      SpendsCoins Id (H.rescan node.chain E) ids wolletOf scriptOf blinded) ∧
    ∀ id ∈ ids, S'.utxos.listUnspent id ≠ [] → ∀ recipient feeRate (blinded : BlindedPset PK),
      buildSweepPset lwk (wolletOf id) (S'.utxos.listUnspent id) recipient feeRate =
        (.ok blinded : Outcome (SpendError Id) (BlindedPset PK)) →
      SpendsCoins Id (H.rescan node.chain E) [id] wolletOf scriptOf blinded := by
  have hinv := (hrun.inv hid hvalid).pass hid hvalid (notBelowCursor_of_exec hexec) hexec
  have hchain : ValidChain (H.rescan node.chain E).blocks := by
    rw [History.blocks_rescan]
    exact hvalid _ hinv.node_mem
  have hone := oneWollet_rescan hH hE node.chain
  constructor
  · intro feeWollet customerRecipients feeAccountDest feeRate blinded hok
    exact (buildMigrationPset_enriched hkept hlwk (nodup_listedInputs S' wolletOf hids) htext
      hok).spendsCoins hinv.represents hchain hone hids haddresses hkept
  · intro id hmem hne recipient feeRate blinded hok
    have hlisted : ownedBy (wolletOf id) (S'.utxos.listUnspent id) =
      listedInputs S' wolletOf [id] :=
      (List.append_nil _).symm
    rw [buildSweepPset_eq hne, hlisted] at hok
    have hone' : ∀ p ∈ H.rescan node.chain E, OneWollet [id] wolletOf p.2 := by
      intro p hp
      obtain ⟨regs, hregs, hwollets⟩ := hone p hp
      refine ⟨regs, hregs, fun r hr hrid => hwollets r hr ?_⟩
      exact List.mem_singleton.mp hrid ▸ hmem
    refine (buildMigrationPset_enriched hkept hlwk
      (nodup_listedInputs S' wolletOf (List.nodup_singleton id)) ?_ hok).spendsCoins hinv.represents
      hchain hone' (List.nodup_singleton id) ?_ hkept
    · rw [← hlisted]
      exact textsIdentify_ownedBy (wolletOf id) _
    · intro id' hid'
      exact List.mem_singleton.mp hid' ▸ haddresses id hmem

end

/-! A chain on which a first payment is spent, and a later transaction
pays a receive script and a change script. -/

def laterPayment : Transaction :=
  ⟨⟨102⟩, [], [plainOutput (plainWollet.descriptor.script .external 0) 1,
    plainOutput (plainWollet.descriptor.script .internal 1) 1]⟩

def coinBlocks : List Block := threeBlocks ++ [⟨⟨13⟩, ⟨12⟩, [laterPayment]⟩]

def coinsSynced : Stores := (Prog.run (memStep ⟨coinBlocks⟩) plainEngine.sync Stores.new).2

theorem hashesIdentify_coinBlocks : HashesIdentify {c | c ∈ [coinBlocks]} :=
  hashesIdentify_of_list (by decide)

theorem validChain_coinBlocks : ∀ c ∈ {c | c ∈ [coinBlocks]}, ValidChain c := by
  intro c hc
  obtain rfl := List.mem_singleton.mp hc
  decide

theorem exec_coinBlocks : Prog.Exec (memEnv ⟨coinBlocks⟩ noFault) plainEngine.sync Stores.new
    (.ok { blocksScanned := 4, utxosCaptured := 3, utxosSpent := 1 }) coinsSynced :=
  exec_memStep rfl

def drainOutput : PsetOutput where
  scriptPubkey := ⟨[0x51]⟩
  amount := none
  amountComm := some ⟨8⟩
  asset := none
  assetComm := some ⟨10⟩
  valueRangeproof := some [1]
  assetSurjectionProof := some [1]
  blinderIndex := some 0

/-- Spend the UTXOs given, the last one first, to one blinded output. -/
def plainBuilder (PK : Type) : TxBuilder PlainDescriptor PK (List ExternalUtxo) Unit where
  new _ := []
  addExternalUtxos b utxos := .ok (b ++ utxos)
  addLbtcRecipient b _ _ := .ok b
  drainLbtcWallet b := b
  drainLbtcTo b _ := b
  feeRate b _ := b
  finish b _ := .ok {
    inputs := b.reverse.map fun u => ⟨u.outpoint, some u.txout, ∅, none, none, none, ∅, none⟩
    outputs := [drainOutput] }

theorem spendsGiven_plainBuilder (PK : Type) : SpendsGiven (plainBuilder PK) id where
  new _ := rfl
  addExternalUtxos _ _ _ h := (Except.ok.inj h).symm
  addLbtcRecipient _ _ _ _ h := (Except.ok.inj h).symm
  drainLbtcWallet _ := rfl
  drainLbtcTo _ _ := rfl
  feeRate _ _ := rfl
  finish b _ pset h := by
    obtain rfl := Except.ok.inj h
    rw [Pset.prevouts, List.map_map]
    exact (List.reverse_perm b).map _

theorem oneWollet_plainEngine (ids : List WalletId) :
    OneWollet ids (fun _ => plainWollet) plainEngine := by
  refine ⟨[plainRegistration], rfl, ?_⟩
  intro r hr _
  obtain rfl := List.mem_singleton.mp hr
  rfl

theorem addressesMatch_plainWollet (Id : Type) :
    AddressesMatch Id PlainDefinite.script plainWollet := by
  intro singles chain index definite addr hsingles hdefinite haddr
  obtain rfl : _ = singles := Except.ok.inj hsingles
  have hderived : ∀ f : PlainForm, f = ⟨plainWollet.descriptor, some chain⟩ →
      (MultipathDescriptor.atDerivationIndex f index).mapError SpendError.descriptor =
        (.ok definite : Except (SpendError Id) PlainDefinite) →
      definite.script = plainWollet.descriptor.script chain index := by
    rintro f rfl hok
    obtain ⟨-, hsome⟩ : index < 0x80000000 ∧ _ := by
      have hok' := mapError_eq_ok.mp hok
      simp only [MultipathDescriptor.atDerivationIndex] at hok'
      split at hok'
      · next hlt => exact ⟨hlt, Except.ok.inj hok'⟩
      · cases hok'
    rw [← hsome]
  cases chain with
  | external =>
      obtain rfl := Except.ok.inj haddr
      exact hderived _ rfl hdefinite
  | internal =>
      obtain rfl := Except.ok.inj haddr
      exact hderived _ rfl hdefinite

theorem migration_spends_coins_coinBlocks : ∃ blinded : BlindedPset Nat,
    buildMigrationPset (plainBuilder Nat) plainWollet
      (listedInputs coinsSynced (fun _ => plainWollet) [⟨1⟩]) [] ⟨⟨[0x51]⟩⟩ () =
        (.ok blinded : Outcome (SpendError Nat) (BlindedPset Nat)) ∧
    blinded.pset.prevouts = [⟨⟨102⟩, 0⟩, ⟨⟨102⟩, 1⟩] ∧
    SpendsCoins Nat (History.rescan [] coinBlocks plainEngine) [⟨1⟩] (fun _ => plainWollet)
      PlainDefinite.script blinded := by
  have hrun : SyncRun {c | c ∈ [coinBlocks]} ⟨coinBlocks⟩ Stores.new
    ([] : History PlainDescriptor) :=
    .init ⟨coinBlocks⟩ (by decide) (List.mem_singleton.mpr rfl)
  obtain ⟨hmigration, -⟩ := migration_spends_coins hashesIdentify_coinBlocks
    validChain_coinBlocks hrun
    exec_coinBlocks nofun
    (oneWollet_plainEngine [⟨1⟩]) (List.nodup_singleton _)
    (fun _ _ => addressesMatch_plainWollet Nat) (by unfold TextsIdentify; decide) plain_prevoutsKept
    (spendsGiven_plainBuilder Nat)
  exact ⟨_, rfl, rfl, hmigration plainWollet [] ⟨⟨[0x51]⟩⟩ () _ rfl⟩

end EmvaultElements
