import EmvaultElements.Coins
import EmvaultElements.Payments
import EmvaultElements.Summary

/-!
# Balances

A wallet's balance in an asset is what its listed records of the asset
come to. It is what the engines captured for the wallet on the chain
less what the chain spends of it (`Represents.balance`), so a pass moves
it by what the blocks above the fork move: it gives back what the
abandoned blocks moved and takes on what the new blocks move
(`balance_moves`). Heights decide which record and which spend lies
above the fork, since an outpoint is created no later than it is spent.
-/

namespace EmvaultElements

variable {D : Type}

/-- What records of an asset come to. -/
def worthIn (asset : AssetId) (utxos : List CapturedUtxo) : Nat :=
  paidTo asset (utxos.map fun u => (u.secrets.asset, u.secrets.value))

def balance (S : Stores) (id : WalletId) (asset : AssetId) : Nat :=
  worthIn asset (S.utxos.listUnspent id)

section

variable {asset : AssetId} {l l' : List CapturedUtxo}

theorem worthIn_perm (h : l.Perm l') : worthIn asset l = worthIn asset l' :=
  paidTo_perm (h.map _)

/-- Two parts of a list that have no record in common. -/
theorem worthIn_filter_add {p q : CapturedUtxo → Bool}
    (hpq : ∀ u ∈ l, p u = true → q u = false) :
    worthIn asset (l.filter p) + worthIn asset (l.filter q) =
      worthIn asset (l.filter fun u => p u || q u) := by
  have hleft : (l.filter fun u => p u || q u).filter p = l.filter p := by
    rw [List.filter_filter]
    refine List.filter_congr ?_
    intro u _
    cases p u <;> simp
  have hright : (l.filter fun u => p u || q u).filter (fun u => !p u) = l.filter q := by
    rw [List.filter_filter]
    refine List.filter_congr ?_
    intro u hu
    cases hp : p u with
    | false => simp
    | true => simp [hpq u hu hp]
  have hperm := List.filter_append_perm p (l.filter fun u => p u || q u)
  rw [hleft, hright] at hperm
  simpa [worthIn] using worthIn_perm hperm

end

/-! ## What a history moves -/

namespace History

variable [LwkDescriptor D]

/-- What was captured for a wallet in the blocks at heights `n`,
`n + 1`, … -/
def receivedFrom (id : WalletId) : Nat → History D → List CapturedUtxo
  | _, [] => []
  | n, p :: H => (p.2.captures n p.1.txdata).filter (·.walletId = id) ++ receivedFrom id (n + 1) H

def received (H : History D) (id : WalletId) : List CapturedUtxo := receivedFrom id 0 H

/-- Received from height `n` on. -/
def receivedAbove (H : History D) (id : WalletId) (n : Nat) : List CapturedUtxo :=
  (H.received id).filter fun u => n ≤ u.height

/-- Received at any height, and spent from height `n` on. -/
def spentAbove (H : History D) (id : WalletId) (n : Nat) : List CapturedUtxo :=
  (H.received id).filter fun u => (chainSpentAt H.blocks u.outpoint).any fun t => n ≤ t

/-- Received and not spent. -/
def held (H : History D) (id : WalletId) : List CapturedUtxo :=
  (H.received id).filter fun u => (chainSpentAt H.blocks u.outpoint).isNone

variable {id : WalletId} {n : Nat} {H : History D} {u : CapturedUtxo}

theorem receivedFrom_append : ∀ (n : Nat) (H H' : History D), receivedFrom id n (H ++ H') =
    receivedFrom id n H ++ receivedFrom id (n + H.length) H'
  | n, [], H' => by simp [receivedFrom]
  | n, p :: H, H' => by
      simp [receivedFrom, receivedFrom_append (n + 1) H H', Nat.add_right_comm, Nat.add_assoc]

theorem mem_receivedFrom : ∀ {n : Nat} {H : History D}, u ∈ receivedFrom id n H ↔
    u.walletId = id ∧ ∃ (i : Nat) (b : Block) (E : BlockScanEngine D), H[i]? = some (b, E) ∧
      u ∈ E.captures (n + i) b.txdata
  | n, [] => by simp [receivedFrom]
  | n, p :: H => by
      simp only [receivedFrom, List.mem_append, List.mem_filter, decide_eq_true_eq,
        mem_receivedFrom]
      constructor
      · rintro (⟨hu, hwallet⟩ | ⟨hwallet, i, b, E, hp, hu⟩)
        · exact ⟨hwallet, 0, p.1, p.2, rfl, hu⟩
        · exact ⟨hwallet, i + 1, b, E, hp, by rwa [Nat.add_comm i, ← Nat.add_assoc]⟩
      · rintro ⟨hwallet, i | i, b, E, hp, hu⟩
        · obtain rfl := Option.some.inj hp
          exact .inl ⟨hu, hwallet⟩
        · exact .inr ⟨hwallet, i, b, E, hp, by rwa [Nat.add_assoc, Nat.add_comm 1]⟩

theorem mem_received : u ∈ H.received id ↔ u.walletId = id ∧
    ∃ (i : Nat) (b : Block) (E : BlockScanEngine D), H[i]? = some (b, E) ∧
      u ∈ E.captures i b.txdata := by
  simp [received, mem_receivedFrom]

/-- Where a record was received. -/
theorem height_received (hu : u ∈ H.received id) :
    ∃ b, H.blocks[u.height]? = some b ∧ u.outpoint ∈ b.creates := by
  obtain ⟨-, i, b, E, hp, hcap⟩ := mem_received.mp hu
  obtain ⟨rfl, -⟩ := BlockScanEngine.captures_height hcap
  exact ⟨b, by simp [getElem?_blocks, hp], BlockScanEngine.captures_creates hcap⟩

/-- A record is received once. -/
theorem nodup_receivedFrom : ∀ {n : Nat} {H : History D}, ValidChain H.blocks →
    ((receivedFrom id n H).map (·.outpoint)).Nodup
  | _, [], _ => List.nodup_nil
  | n, p :: H, hvalid => by
      have hlater : ValidChain (History.blocks H) := hvalid.sublist (List.sublist_cons_self _ _)
      have hfirst : ValidTxs p.1.txdata := hvalid.block (List.mem_cons_self ..)
      rw [receivedFrom, List.map_append, List.nodup_append]
      refine ⟨(BlockScanEngine.nodup_captures hfirst).sublist (List.filter_sublist.map _),
        nodup_receivedFrom hlater, ?_⟩
      rintro o ho o' ho' rfl
      obtain ⟨u, hu, rfl⟩ := List.mem_map.mp ho
      obtain ⟨u', hu', hsame⟩ := List.mem_map.mp ho'
      obtain ⟨-, i, b, E, hb, hcap⟩ := mem_receivedFrom.mp hu'
      obtain ⟨tx, htx, hcreates⟩ :=
        List.mem_flatMap.mp (BlockScanEngine.captures_creates (List.mem_of_mem_filter hu))
      obtain ⟨tx', htx', hcreates'⟩ := List.mem_flatMap.mp (BlockScanEngine.captures_creates hcap)
      have hhigh : (History.blocks (p :: H))[i + 1]? = some b := by
        simp [getElem?_blocks, hb]
      exact hvalid.not_created_later (Nat.succ_pos i) rfl hhigh htx htx' hcreates
        (hsame ▸ hcreates')

theorem nodup_received (hvalid : ValidChain H.blocks) : (H.received id).Nodup :=
  (nodup_receivedFrom hvalid).of_map _

/-- A record is spent no lower than it was received. -/
theorem height_le_spent (hvalid : ValidChain H.blocks) (hu : u ∈ H.received id) {t : Nat}
    (ht : chainSpentAt H.blocks u.outpoint = some t) : u.height ≤ t := by
  obtain ⟨b, hb, hcreates⟩ := height_received hu
  obtain ⟨hlt, hspends, -⟩ := List.findIdx?_eq_some_iff_getElem.mp ht
  exact hvalid.created_le_spent hb (List.getElem?_eq_getElem hlt) hcreates
    (of_decide_eq_true hspends)

/-- Received below a height is received by the blocks below it. -/
theorem received_take (hn : n ≤ H.length) :
    (H.received id).filter (fun u => u.height < n) = History.received (H.take n) id := by
  have hlen : (H.take n).length = n := by simp [hn]
  have hlow : ∀ u ∈ History.received (H.take n) id, u.height < n := by
    intro u hu
    obtain ⟨b, hb, -⟩ := height_received hu
    obtain ⟨hlt, -⟩ := List.getElem?_eq_some_iff.mp hb
    rwa [length_blocks, hlen] at hlt
  have hhigh : ∀ u ∈ receivedFrom id n (H.drop n), ¬u.height < n := by
    intro u hu
    obtain ⟨-, i, b, E, -, hcap⟩ := mem_receivedFrom.mp hu
    obtain ⟨hheight, -⟩ := BlockScanEngine.captures_height hcap
    omega
  have hsplit : H.received id = History.received (H.take n) id ++ receivedFrom id n (H.drop n) := by
    conv => lhs; rw [← List.take_append_drop n H, received, receivedFrom_append, Nat.zero_add, hlen]
    rfl
  rw [hsplit, List.filter_append, List.filter_eq_self.mpr (by simpa using hlow),
    List.filter_eq_nil_iff.mpr (by simpa using hhigh), List.append_nil]

end History

/-- What the blocks below a height leave unspent, the chain spends not at
all or from that height on. -/
theorem isNone_chainSpentAt_take (c : List Block) (n : Nat) (o : OutPoint) :
    (chainSpentAt (c.take n) o).isNone =
      ((chainSpentAt c o).isNone || (chainSpentAt c o).any fun t => n ≤ t) := by
  rw [chainSpentAt, List.findIdx?_take, ← chainSpentAt]
  cases chainSpentAt c o with
  | none => rfl
  | some t =>
      by_cases ht : t < n
      · simp [Option.guard, ht, Nat.not_le.mpr ht]
      · simp [Option.guard, ht, Nat.le_of_not_lt ht]

/-! ## The balance -/

section

variable [LwkDescriptor D] {H : History D}

/-- What is held at a height, and what is received from there on, is
held in the end or spent from there on. -/
theorem History.worthIn_held (id : WalletId) (asset : AssetId) (hvalid : ValidChain H.blocks)
    {n : Nat} (hn : n ≤ H.length) :
    worthIn asset (H.held id) + worthIn asset (H.spentAbove id n) =
      worthIn asset (History.held (H.take n) id) + worthIn asset (H.receivedAbove id n) := by
  have hbelow : History.held (H.take n) id = (H.received id).filter fun u =>
      decide (u.height < n) && (chainSpentAt (H.blocks.take n) u.outpoint).isNone := by
    rw [History.held, ← History.received_take hn, History.blocks_take, List.filter_filter]
    simp only [Bool.and_comm]
  rw [History.held, History.spentAbove, hbelow, History.receivedAbove, worthIn_filter_add,
    worthIn_filter_add]
  · refine congrArg (worthIn asset) (List.filter_congr ?_)
    intro u hu
    -- a record received above the height is not spent below it
    rw [isNone_chainSpentAt_take]
    cases ht : chainSpentAt H.blocks u.outpoint with
    | none => simpa using Nat.lt_or_ge u.height n
    | some t =>
        have hle := History.height_le_spent hvalid hu ht
        rw [Bool.eq_iff_iff]
        simp
        omega
  · intro u _ hlow
    simp at hlow ⊢
    exact hlow.1
  · intro u _ hnone
    simp [Option.isNone_iff_eq_none.mp hnone]

/-- The balance is what the wallet holds on the chain. -/
theorem Represents.balance {S : Stores} (hrep : Represents S H) (hvalid : ValidChain H.blocks)
    (id : WalletId) (asset : AssetId) :
    balance S id asset = worthIn asset (H.held id) := by
  have hnodup : (S.utxos.listUnspent id).Nodup := (S.utxos.nodup_listUnspent id).of_map _
  refine worthIn_perm ((List.perm_ext_iff_of_nodup hnodup
    ((History.nodup_received hvalid).filter _)).mpr ?_)
  intro u
  rw [hrep.mem_listUnspent hvalid, List.mem_filter, History.mem_received]
  simp only [Option.isNone_iff_eq_none]
  tauto

end

/-! ## Any pass of a run -/

section

variable [LwkDescriptor D]

/-- The second stores have what the wallet received on the blocks of the
second history less what they spend of it. Between the two stores, what
the first history moves from height `n` on is undone and what the second
moves there is done. -/
structure BalanceMoves (S S' : Stores) (H H' : History D) (n : Nat) (id : WalletId)
    (asset : AssetId) : Prop where
  onChain : balance S' id asset + worthIn asset (H'.spentAbove id 0) =
    worthIn asset (H'.receivedAbove id 0)
  moved : balance S' id asset + worthIn asset (H'.spentAbove id n) +
      worthIn asset (H.receivedAbove id n) =
    balance S id asset + worthIn asset (H.spentAbove id n) + worthIn asset (H'.receivedAbove id n)

variable {C : Set (List Block)} (hid : HashesIdentify C)
  (hvalid : ∀ c ∈ C, ValidChain c) {node : MockChainSource} {S S' : Stores} {H : History D}
  {E : BlockScanEngine D} {summary : SyncSummary}

include hvalid in
theorem SyncRun.Inv.validChain (hinv : SyncRun.Inv C node S H) : ValidChain H.blocks := by
  obtain ⟨c, hc, hprefix⟩ := hinv.history_mem
  exact (hvalid c hc).sublist hprefix.sublist

include hid hvalid

/-- After any pass of any run a wallet has what it received on the
node's chain less what the chain spends of it, and the pass moved the
balance by the blocks above the fork. -/
theorem balance_moves (hrun : SyncRun C node S H)
    (hexec : Prog.Exec (memEnv node noFault) E.sync S (.ok summary) S') (id : WalletId)
    (asset : AssetId) :
    BalanceMoves S S' H (H.rescan node.chain E) (fork H.blocks node.chain) id asset := by
  have hinv := hrun.inv hid hvalid
  have hinv' := hinv.pass hid hvalid (notBelowCursor_of_exec hexec) hexec
  have hfork : fork H.blocks node.chain ≤ H.length := by
    simpa using fork_le_left H.blocks node.chain
  have hfork' : fork H.blocks node.chain ≤ (H.rescan node.chain E).length := by
    rw [← History.length_blocks, History.blocks_rescan]
    exact fork_le_right H.blocks node.chain
  have hkept : (H.rescan node.chain E).take (fork H.blocks node.chain) =
      H.take (fork H.blocks node.chain) := by
    rw [History.rescan, List.take_left' (by simp [hfork])]
  have hold := History.worthIn_held id asset (hinv.validChain hvalid) hfork
  have hnew := History.worthIn_held id asset (hinv'.validChain hvalid) hfork'
  have hall := History.worthIn_held id asset (hinv'.validChain hvalid) (Nat.zero_le _)
  rw [hkept] at hnew
  constructor
  · rw [hinv'.represents.balance (hinv'.validChain hvalid), hall]
    simp [History.held, History.received, History.receivedFrom, worthIn]
  · rw [hinv.represents.balance (hinv.validChain hvalid),
      hinv'.represents.balance (hinv'.validChain hvalid)]
    omega

end

/-! The payment comes back: it is spent on the three blocks, and not on
the other branch. -/

theorem balance_moves_paidAgain :
    balance threeBlocksSynced ⟨1⟩ ⟨0⟩ = 0 ∧
    balance (Prog.run (memStep ⟨paidAgain⟩) plainEngine.sync threeBlocksSynced).2 ⟨1⟩ ⟨0⟩ = 1000 ∧
    BalanceMoves threeBlocksSynced
      (Prog.run (memStep ⟨paidAgain⟩) plainEngine.sync threeBlocksSynced).2
      (History.rescan [] threeBlocks plainEngine)
      ((History.rescan [] threeBlocks plainEngine).rescan paidAgain plainEngine) 1 ⟨1⟩ ⟨0⟩ := by
  have hsynced : SyncRun {c | c ∈ paidChains} ⟨threeBlocks⟩ threeBlocksSynced
      (History.rescan [] threeBlocks plainEngine) :=
    .pass plainEngine _ (.init ⟨threeBlocks⟩ (List.cons_ne_nil _ _) (List.mem_cons_self ..))
      (notBelowCursor_of_exec exec_threeBlocks) exec_threeBlocks
  have hreorged : SyncRun {c | c ∈ paidChains} ⟨paidAgain⟩ threeBlocksSynced
      (History.rescan [] threeBlocks plainEngine) :=
    .event (.reorg 0 (paidAgain.drop 1)) hsynced
      (List.mem_cons_of_mem threeBlocks (List.mem_singleton.mpr rfl))
  have hexec : Prog.Exec (memEnv ⟨paidAgain⟩ noFault) plainEngine.sync threeBlocksSynced
      (.ok { blocksScanned := 2, utxosCaptured := 1, reorgTo := some 0 }) _ := exec_memStep rfl
  exact ⟨rfl, rfl,
    balance_moves hashesIdentify_paidChains validChain_paidChains hreorged hexec ⟨1⟩ ⟨0⟩⟩

end EmvaultElements
