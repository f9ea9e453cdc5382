import EmvaultElements.Memo
import EmvaultElements.Registration

/-!
# The script index

Any sequence of `register_wallet` calls, some of which may fail, leaves
an index whose entries are true: the wollet at an entry's place is the
one of the call that made the entry, and it derives the script at the
entry's chain and index (`index_sound`). A call that fails has pushed
its wollet and indexed nothing, so the places stay the numbers of the
calls.

A pass therefore never indexes out of range, and it records every output
under a chain and an index at which its wollet derives the script.
-/

namespace EmvaultElements

variable {D : Type} [LwkDescriptor D]

/-! ## Watched scripts -/

/-- The script is derived by the wollet at a chain and an index. -/
def ElementsWollet.Derives (w : ElementsWollet D) (chain : Chain) (index : Nat)
    (spk : Script) : Prop :=
  ∃ addr, w.address chain index = .ok addr ∧ addr.scriptPubkey = spk

/-- A watched script is derived where it is listed, below the gap. -/
theorem derives_of_mem_watchedScripts {w : ElementsWollet D} {gap : Nat}
    {scripts : List (Script × Chain × Nat)} (hok : w.watchedScripts gap = .ok scripts)
    {s : Script × Chain × Nat} (hs : s ∈ scripts) : s.2.2 < gap ∧ w.Derives s.2.1 s.2.2 s.1 := by
  unfold ElementsWollet.watchedScripts at hok
  have hall : ∀ s ∈ scripts, s.2.2 < gap ∧ w.Derives s.2.1 s.2.2 s.1 := by
    refine foldlM_keeps (P := fun out : List (Script × Chain × Nat) =>
      ∀ s ∈ out, s.2.2 < gap ∧ w.Derives s.2.1 s.2.2 s.1) ?_ hok (List.forall_mem_nil _)
    intro i hi out out' hone hout
    have hlt := List.mem_range.mp hi
    obtain ⟨ext, hext, hone⟩ := bind_eq_ok.mp hone
    obtain ⟨int, hint, hone⟩ := bind_eq_ok.mp hone
    cases hone
    intro s hs
    rcases List.mem_append.mp hs with hs | hs
    · rcases List.mem_append.mp hs with hs | hs
      · exact hout s hs
      · obtain rfl := List.mem_singleton.mp hs
        exact ⟨hlt, ext, hext, rfl⟩
    · obtain rfl := List.mem_singleton.mp hs
      exact ⟨hlt, int, hint, rfl⟩
  exact hall s hs

/-! ## The calls -/

/-- The engine after the calls, those that fail included. -/
def registerAll (regs : List (Registration D)) : BlockScanEngine D :=
  regs.foldl (fun E r => (E.registerWallet r.id r.wollet r.gap).2) BlockScanEngine.new

theorem registerAll_concat (regs : List (Registration D)) (r : Registration D) :
    registerAll (regs ++ [r]) = ((registerAll regs).registerWallet r.id r.wollet r.gap).2 := by
  rw [registerAll, List.foldl_concat]
  rfl

/-- The call names the wallet, and its wollet derives the script at the
chain and index, below its gap. -/
structure Registration.Owns (r : Registration D) (spk : Script) (walletId : WalletId)
    (chain : Chain) (index : Nat) : Prop where
  id : r.id = walletId
  below_gap : index < r.gap
  derives : r.wollet.Derives chain index spk

/-- Every place is the number of a call, and every entry owned by the
call at its place. -/
structure OwnedByCalls (regs : List (Registration D)) (E : BlockScanEngine D) : Prop where
  wollets : E.wollets = regs.map (·.wollet)
  entries : ∀ spk e, E.index.lookup spk = some e →
    ∃ r, regs[e.wolletIdx]? = some r ∧ r.Owns spk e.walletId e.chain e.wildcardIndex

/-- One more call keeps the entries owned, whether it succeeds or not. -/
theorem OwnedByCalls.register {regs : List (Registration D)} {E : BlockScanEngine D}
    (h : OwnedByCalls regs E) (r : Registration D) :
    OwnedByCalls (regs ++ [r]) (E.registerWallet r.id r.wollet r.gap).2 := by
  have hold : ∀ spk e, E.index.lookup spk = some e →
      ∃ r', (regs ++ [r])[e.wolletIdx]? = some r' ∧
        r'.Owns spk e.walletId e.chain e.wildcardIndex := by
    intro spk e he
    obtain ⟨r', hr', howns⟩ := h.entries spk e he
    have hlt := (List.getElem?_eq_some_iff.mp hr').1
    exact ⟨r', by rw [List.getElem?_append_left hlt, hr'], howns⟩
  have hpushed : E.wollets ++ [r.wollet] = (regs ++ [r]).map (·.wollet) := by
    rw [h.wollets, List.map_append]
    rfl
  rcases E.registerWallet_cases r.id r.wollet r.gap with
    ⟨e, -, herr⟩ | ⟨scripts, E', hscripts, hok, hwollets, hindex⟩
  · rw [herr]
    exact ⟨hpushed, hold⟩
  · rw [hok]
    refine ⟨hwollets.trans hpushed, ?_⟩
    intro spk e he
    have hlookup := lookup_indexScripts r.id E.wollets.length scripts E.index spk
    rw [← hindex, he] at hlookup
    rcases Option.or_eq_some_iff.mp hlookup.symm with hnew | ⟨-, hkept⟩
    · obtain ⟨s, hfind, rfl⟩ := Option.map_eq_some_iff.mp hnew
      obtain ⟨hlt, hderives⟩ := derives_of_mem_watchedScripts hscripts
        (List.mem_reverse.mp (List.mem_of_find?_eq_some hfind))
      have hspk : s.1 = spk := by simpa using List.find?_some hfind
      refine ⟨r, ?_, rfl, hlt, hspk ▸ hderives⟩
      have hlen : E.wollets.length = regs.length := by rw [h.wollets, List.length_map]
      rw [hlen, List.getElem?_concat_length]
    · exact hold spk e hkept

theorem ownedByCalls_registerAll (regs : List (Registration D)) :
    OwnedByCalls regs (registerAll regs) := by
  induction regs using List.reverseRecOn with
  | nil =>
      refine ⟨rfl, ?_⟩
      intro spk e he
      cases he
  | append_singleton regs r ih =>
      rw [registerAll_concat]
      exact ih.register r

/-! ## The records of a pass -/

/-- `wollets[entry.wollet_idx]` for the entry of a script, if it has
one. Out of range it panics. -/
def BlockScanEngine.checkedOwner (self : BlockScanEngine D) (spk : Script) :
    Outcome SyncError (Option (ScriptEntry × ElementsWollet D)) :=
  match self.index.lookup spk with
  | none => .ok none
  | some entry =>
    match self.wollets[entry.wolletIdx]? with
    | none => .panic
    | some wollet => .ok (some (entry, wollet))

/-- The records of a call to `upsert_utxos` are owned: some call made
them its wollet's, which derives their script where they say and has
opened them. -/
def OwnedRecords (regs : List (Registration D)) (E : BlockScanEngine D) (op : SyncOp) : Prop :=
  ∀ utxos, op = .store (.upsertUtxos utxos) → ∀ u ∈ utxos, ∃ (i : Nat) (r : Registration D),
    regs[i]? = some r ∧ E.wollets[i]? = some r.wollet ∧
    r.Owns u.txout.scriptPubkey u.walletId u.chain u.wildcardIndex ∧
    r.wollet.unblind u.txout = .ok u.secrets

variable {regs : List (Registration D)} {E : BlockScanEngine D}

theorem OwnedByCalls.place (h : OwnedByCalls regs E) {spk : Script} {e : ScriptEntry}
    (he : E.index.lookup spk = some e) : ∃ r, regs[e.wolletIdx]? = some r ∧
      E.wollets[e.wolletIdx]? = some r.wollet ∧
      r.Owns spk e.walletId e.chain e.wildcardIndex := by
  obtain ⟨r, hr, howns⟩ := h.entries spk e he
  refine ⟨r, hr, ?_, howns⟩
  rw [h.wollets, List.getElem?_map, hr]
  rfl

theorem OwnedByCalls.checkedOwner_eq (h : OwnedByCalls regs E) (spk : Script) :
    E.checkedOwner spk = .ok (E.ownerOf spk) := by
  unfold BlockScanEngine.checkedOwner
  cases hlookup : E.index.lookup spk with
  | none => rw [BlockScanEngine.ownerOf_eq_none.mpr hlookup]
  | some e =>
      obtain ⟨r, -, hwollet, -⟩ := h.place hlookup
      rw [BlockScanEngine.ownerOf_eq_some.mpr ⟨hlookup, hwollet⟩]
      dsimp only
      rw [hwollet]

theorem OwnedByCalls.captures (h : OwnedByCalls regs E) (height : Nat)
    (txs : List Transaction) :
    OwnedRecords regs E (.store (.upsertUtxos (E.captures height txs))) := by
  intro utxos hop u hu
  cases hop
  obtain ⟨tx, vout, txout, entry, wollet, secrets, -, -, howner, hunblind, rfl⟩ :=
    BlockScanEngine.mem_captures_iff.mp hu
  obtain ⟨hlookup, hwollet⟩ := BlockScanEngine.ownerOf_eq_some.mp howner
  obtain ⟨r, hr, hplace, howns⟩ := h.place hlookup
  obtain rfl := Option.some.inj (hwollet.symm.trans hplace)
  exact ⟨entry.wolletIdx, r, hr, hplace, howns, hunblind⟩

/-! ## The calls of a pass -/

section

variable {σ : Type} {env : Prog.Env σ SyncError SyncOp SyncOp.Res}

theorem OwnedRecords.callChain (op : ChainOp) (s : σ) :
    Prog.atCalls env (callChain op) (fun _ => OwnedRecords regs E) s := by
  refine ⟨?_, fun _ _ _ => trivial⟩
  intro utxos hop
  cases hop

theorem OwnedRecords.callStore {op : StoreOp} (hop : OwnedRecords regs E (.store op)) (s : σ) :
    Prog.atCalls env (callStore op) (fun _ => OwnedRecords regs E) s :=
  ⟨hop, fun _ _ _ => trivial⟩

/-- Other calls than `upsert_utxos` have no records. -/
theorem OwnedRecords.of_ne {op : StoreOp} (hop : ∀ utxos, op ≠ .upsertUtxos utxos) :
    OwnedRecords regs E (.store op) := by
  intro utxos heq
  cases heq
  exact absurd rfl (hop utxos)

theorem OwnedRecords.heightSucc (h : Nat) : ∀ s : σ,
    Prog.atCalls env (heightSucc h) (fun _ => OwnedRecords regs E) s :=
  Prog.atCalls_ite (fun _ => trivial) fun _ => trivial

theorem OwnedRecords.sameHashAt (h : Nat) : ∀ s : σ,
    Prog.atCalls env (BlockScanEngine.sameHashAt h) (fun _ => OwnedRecords regs E) s := by
  refine Prog.atCalls_seq (OwnedRecords.callStore (OwnedRecords.of_ne nofun)) ?_
  intro found
  cases found with
  | none => exact fun _ => trivial
  | some hash => exact Prog.atCalls_seq (OwnedRecords.callChain _) fun _ _ => trivial

theorem OwnedRecords.findCommonAncestor (h : Nat) : ∀ s : σ, Prog.atCalls env
    (BlockScanEngine.findCommonAncestor h) (fun _ => OwnedRecords regs E) s := by
  induction h with
  | zero =>
      refine Prog.atCalls_seq (OwnedRecords.sameHashAt 0) ?_
      exact fun _ => Prog.atCalls_ite (fun _ => trivial) fun _ => trivial
  | succ h ih =>
      refine Prog.atCalls_seq (OwnedRecords.sameHashAt (h + 1)) ?_
      exact fun _ => Prog.atCalls_ite (fun _ => trivial) ih

theorem OwnedRecords.startHeight : ∀ s : σ, Prog.atCalls env BlockScanEngine.startHeight
    (fun _ => OwnedRecords regs E) s := by
  refine Prog.atCalls_seq (OwnedRecords.callStore (OwnedRecords.of_ne nofun)) ?_
  intro tip
  cases tip with
  | none => exact fun _ => trivial
  | some t =>
      refine Prog.atCalls_seq (OwnedRecords.callChain _) ?_
      intro hash
      refine Prog.atCalls_ite ?_ ?_
      · refine Prog.atCalls_seq (OwnedRecords.heightSucc _) ?_
        exact fun _ _ => trivial
      · refine Prog.atCalls_seq (OwnedRecords.findCommonAncestor _) ?_
        intro a
        refine Prog.atCalls_seq (OwnedRecords.callStore (OwnedRecords.of_ne nofun)) ?_
        intro _
        refine Prog.atCalls_seq (OwnedRecords.callStore (OwnedRecords.of_ne nofun)) ?_
        intro _
        refine Prog.atCalls_seq (OwnedRecords.heightSucc _) ?_
        exact fun _ _ => trivial

theorem OwnedByCalls.atCalls_scanBlock (h : OwnedByCalls regs E) (height : Nat)
    (st : Map OutPoint WalletId × SyncSummary) : ∀ s : σ,
    Prog.atCalls env (E.scanBlock height st) (fun _ => OwnedRecords regs E) s := by
  refine Prog.atCalls_seq (OwnedRecords.callChain _) ?_
  intro hash
  refine Prog.atCalls_seq (OwnedRecords.callChain _) ?_
  intro block
  refine Prog.atCalls_seq (OwnedRecords.callStore (OwnedRecords.of_ne nofun)) ?_
  intro _
  -- what follows the upsert, which is the same when there is none
  have hspent : ∀ scan : BlockScanEngine.BlockScan, ∀ s : σ, Prog.atCalls env (do
      if scan.spent ≠ [] then callStore (.markSpent scan.spent height)
      return (scan.spendIndex, BlockScanEngine.addBlock st.2 scan))
      (fun _ => OwnedRecords regs E) s := by
    intro scan
    refine Prog.atCalls_ite ?_ fun _ => trivial
    refine Prog.atCalls_seq (OwnedRecords.callStore (OwnedRecords.of_ne nofun)) ?_
    exact fun _ _ => trivial
  refine Prog.atCalls_ite ?_ (hspent _)
  refine Prog.atCalls_seq (OwnedRecords.callStore ?_) fun _ => hspent _
  rw [BlockScanEngine.scanTxs_captured]
  exact h.captures height block.txdata

theorem OwnedByCalls.atCalls_scanBlocks (h : OwnedByCalls regs E) : ∀ (heights : List Nat)
    (st : Map OutPoint WalletId × SyncSummary) (s : σ),
    Prog.atCalls env (E.scanBlocks heights st) (fun _ => OwnedRecords regs E) s
  | [], _, _ => trivial
  | height :: heights, st, s =>
      Prog.atCalls_seq (h.atCalls_scanBlock height st)
        (fun st' => h.atCalls_scanBlocks heights st') s

/-- Whoever answers the calls, a pass records what is owned. -/
theorem OwnedByCalls.atCalls_sync (h : OwnedByCalls regs E) : ∀ s : σ,
    Prog.atCalls env E.sync (fun _ => OwnedRecords regs E) s := by
  refine Prog.atCalls_seq (OwnedRecords.callChain _) ?_
  intro tip
  refine Prog.atCalls_seq (OwnedRecords.startHeight (E := E)) ?_
  intro start
  refine Prog.atCalls_seq (OwnedRecords.heightSucc _) ?_
  intro tipSucc
  refine Prog.atCalls_seq (OwnedRecords.callStore (OwnedRecords.of_ne nofun)) ?_
  intro unspent
  refine Prog.atCalls_seq (h.atCalls_scanBlocks _ _) ?_
  intro st
  refine Prog.atCalls_ite ?_ fun _ => trivial
  refine Prog.atCalls_seq (OwnedRecords.callChain _) ?_
  intro tipHash
  refine Prog.atCalls_seq (OwnedRecords.callStore (OwnedRecords.of_ne nofun)) ?_
  exact fun _ _ => trivial

end

/-! ## Soundness -/

/-- The script index is sound: what its entries say is true of the calls,
a call that fails leaves it as it was, and a pass neither indexes out of
range nor records a script that is not its wollet's own. -/
structure IndexSound (regs : List (Registration D)) (E : BlockScanEngine D) : Prop where
  in_range : ∀ spk e, E.index.lookup spk = some e → e.wolletIdx < E.wollets.length
  owned : ∀ spk e, E.index.lookup spk = some e → ∃ r, regs[e.wolletIdx]? = some r ∧
    E.wollets[e.wolletIdx]? = some r.wollet ∧ r.Owns spk e.walletId e.chain e.wildcardIndex
  failed : ∀ (r : Registration D) (e : SyncError),
    (E.registerWallet r.id r.wollet r.gap).1 = .error e →
      (E.registerWallet r.id r.wollet r.gap).2.index = E.index
  indexing : ∀ spk, E.checkedOwner spk = .ok (E.ownerOf spk)
  records : ∀ (σ : Type) (env : Prog.Env σ SyncError SyncOp SyncOp.Res) (s : σ),
    Prog.atCalls env E.sync (fun _ => OwnedRecords regs E) s

/-- After any calls the index is sound. -/
theorem index_sound (regs : List (Registration D)) : IndexSound regs (registerAll regs) := by
  have h := ownedByCalls_registerAll regs
  refine ⟨?_, fun spk e => h.place, ?_, h.checkedOwner_eq, fun σ env => h.atCalls_sync⟩
  · intro spk e he
    obtain ⟨r, -, hwollet, -⟩ := h.place he
    exact (List.getElem?_eq_some_iff.mp hwollet).1
  · intro r e hres
    rcases (registerAll regs).registerWallet_cases r.id r.wollet r.gap with
      ⟨e', -, herr⟩ | ⟨scripts, E', -, hok, -, -⟩
    · rw [herr]
      rfl
    · rw [hok] at hres
      cases hres

end EmvaultElements
