import EmvaultElements.Pool
import EmvaultElements.Runs

/-!
# Overlapping passes

Passes of one engine over the same stores, call by call in any order,
against a node that only grows (`growingEnv`). Each pass reads its own
tip and its own cursor, and any may write the cursor last.

A record that one pass has marked spent may be captured again by
another. That unmarks it, and it stays unmarked unless a pass still gets
to the block that spends it. So a pass must not capture again what is
spent above its own tip (`SparesMarked`): then no spend is lost
(`overlapping_passes_keep`), and without it one may be
(`overlap_loses_spend`).

The argument is a rely and a guarantee for every pass. The history
variable `Owed` keeps what a pass has unmarked and not marked again, and
a spend is settled when its record is marked or some pass owes it.
-/

namespace EmvaultElements

open Ledger

variable {ι : Type} [DecidableEq ι]

/-! ## The node, the stores and the passes -/

/-- What the passes share, and the tip that each has read. -/
structure Shared (ι : Type) where
  node : MockChainSource
  stores : Stores
  tips : ι → Nat

/-- A read of the chain source by a pass, once the node has grown. -/
def Shared.read (s : Shared ι) (i : ι) (node : MockChainSource) :
    (op : ChainOp) → op.Res → Shared ι
  | .tipHeight, tip => { s with node, tips := Function.update s.tips i tip }
  | _, _ => { s with node }

def Shared.write (s : Shared ι) (op : StoreOp) : Shared ι :=
  { s with stores := (op.exec s.stores).2 }

/-- The calls of one pass. The node may append blocks of `N` before
every read. Any call may fail. -/
def growingEnv (N : List Block) (i : ι) : Prog.Env (Shared ι) SyncError SyncOp SyncOp.Res
  | s, .chain op, .ok v, s' => ∃ node : MockChainSource, s.node.chain <+: node.chain ∧
      node.chain <+: N ∧ node.answer op = .ok v ∧ s' = s.read i node op v
  | s, .store op, .ok v, s' => v = (op.exec s.stores).1 ∧ s' = s.write op
  | s, _, .error _, s' => s' = s

/-- A pass captures no record again whose spend is recorded above the
tip it has read. -/
def SparesMarked (i : ι) (s : Shared ι) : SyncOp → Prop
  | .store (.upsertUtxos us) => ∀ u ∈ us, ∀ e, s.stores.utxos.entryAt u.outpoint = some e →
      ∀ h, e.spentHeight = some h → h ≤ s.tips i
  | _ => True

/-! ## The chain -/

variable {D : Type} [LwkDescriptor D]

/-- The engine captures `u` at height `h` of the chain. -/
def Watched (E : BlockScanEngine D) (N : List Block) (h : Nat) (u : CapturedUtxo) : Prop :=
  ∃ b, N[h]? = some b ∧ u ∈ E.captures h b.txdata

/-- The block at height `h` spends the outpoint. -/
def SpentIn (N : List Block) (h : Nat) (o : OutPoint) : Prop := ∃ b, N[h]? = some b ∧ o ∈ b.spends

theorem watched_iff {E : BlockScanEngine D} {N : List Block} {h : Nat} {u : CapturedUtxo}
    {b : Block} (hb : N[h]? = some b) : Watched E N h u ↔ u ∈ E.captures h b.txdata := by
  constructor
  · rintro ⟨b', hb', hu⟩
    obtain rfl := Option.some.inj (hb.symm.trans hb')
    exact hu
  · exact fun hu => ⟨b, hb, hu⟩

theorem spentIn_iff {N : List Block} {h : Nat} {o : OutPoint} {b : Block} (hb : N[h]? = some b) :
    SpentIn N h o ↔ o ∈ b.spends := by
  constructor
  · rintro ⟨b', hb', ho⟩
    obtain rfl := Option.some.inj (hb.symm.trans hb')
    exact ho
  · exact fun ho => ⟨b, hb, ho⟩

section Chain

variable {E : BlockScanEngine D} {N : List Block} (hvalid : ValidChain N)

include hvalid

/-- An outpoint is captured once. -/
theorem Watched.inj {h h' : Nat} {u u' : CapturedUtxo} (hu : Watched E N h u)
    (hu' : Watched E N h' u') (ho : u.outpoint = u'.outpoint) : h = h' ∧ u = u' := by
  obtain ⟨b, hb, hu⟩ := hu
  obtain ⟨b', hb', hu'⟩ := hu'
  obtain ⟨tx, htx, hcreates⟩ := List.mem_flatMap.mp (BlockScanEngine.captures_creates hu)
  obtain ⟨tx', htx', hcreates'⟩ := List.mem_flatMap.mp (BlockScanEngine.captures_creates hu')
  obtain ⟨rfl, -⟩ := hvalid.created_inj hb hb' htx htx' hcreates (ho ▸ hcreates')
  obtain rfl := Option.some.inj (hb.symm.trans hb')
  exact ⟨rfl, BlockScanEngine.captures_inj (hvalid.block (List.mem_of_getElem? hb)) hu hu' ho⟩

/-- And spent where it is captured, or above. -/
theorem Watched.le_spent {h t : Nat} {u : CapturedUtxo} (hu : Watched E N h u)
    (hspent : SpentIn N t u.outpoint) : h ≤ t := by
  obtain ⟨b, hb, hu⟩ := hu
  obtain ⟨b', hb', ho⟩ := hspent
  exact hvalid.created_le_spent hb hb' (BlockScanEngine.captures_creates hu) ho

end Chain

/-! ## What is owed -/

def MemUtxoStore.Marked (s : MemUtxoStore) (o : OutPoint) : Prop :=
  ∃ e, s.entryAt o = some e ∧ e.utxo.isSpent = true

/-- The outpoints that each pass has unmarked and not marked again. -/
abbrev Owed (ι : Type) : Type := ι → OutPoint → Prop

/-- What a pass owes after a call. -/
def owe (i : ι) (s : Shared ι) : SyncOp → Owed ι → Owed ι
  | .store (.upsertUtxos us), owed => Function.update owed i fun o =>
      owed i o ∨ (o ∈ us.map (·.outpoint) ∧ s.stores.utxos.Marked o)
  | .store (.markSpent os _), owed => Function.update owed i fun o => owed i o ∧ o ∉ os
  | _, owed => owed

/-- The record is marked, or some pass owes the mark. -/
def Settled (x : Shared ι × Owed ι) (o : OutPoint) : Prop :=
  x.1.stores.utxos.Marked o ∨ ∃ i, x.2 i o

/-- Nothing is lost on the way: the chain grows, records stay, and so do
settled spends. -/
structure Evolves (x x' : Shared ι × Owed ι) : Prop where
  grows : x.1.node.chain <+: x'.1.node.chain
  stored : ∀ o, (x.1.stores.utxos.entryAt o).isSome → (x'.1.stores.utxos.entryAt o).isSome
  settled : ∀ o, Settled x o → Settled x' o
  cursor : x.1.stores.blocks.tip.isSome → x'.1.stores.blocks.tip.isSome

omit [DecidableEq ι] in
theorem Evolves.refl (x : Shared ι × Owed ι) : Evolves x x :=
  ⟨List.prefix_rfl, fun _ h => h, fun _ h => h, fun h => h⟩

omit [DecidableEq ι] in
theorem Evolves.trans {x x' x'' : Shared ι × Owed ι} (h : Evolves x x') (h' : Evolves x' x'') :
    Evolves x x'' :=
  ⟨h.grows.trans h'.grows, fun o ho => h'.stored o (h.stored o ho),
    fun o ho => h'.settled o (h.settled o ho), fun ht => h'.cursor (h.cursor ht)⟩

/-- The blocks below height `n` are covered: their captures are stored
and their spends settled. -/
structure Covers (E : BlockScanEngine D) (N : List Block) (n : Nat) (x : Shared ι × Owed ι) :
    Prop where
  stored : ∀ h u, h < n → Watched E N h u → (x.1.stores.utxos.entryAt u.outpoint).isSome
  settled : ∀ h u t, t < n → Watched E N h u → SpentIn N t u.outpoint → Settled x u.outpoint

/-- The invariant: every record is the one the chain creates, every
recorded spend is one of the chain, and the blocks up to the cursor,
which is on the chain, are covered. -/
structure Sound (E : BlockScanEngine D) (N : List Block) (x : Shared ι × Owed ι) : Prop where
  node : x.1.node.chain <+: N
  entry : ∀ o e, x.1.stores.utxos.entryAt o = some e → ∃ h u, Watched E N h u ∧ u.outpoint = o ∧
    { e.utxo with isSpent := false } = u
  spent : ∀ o e t, x.1.stores.utxos.entryAt o = some e → e.spentHeight = some t → SpentIn N t o
  flag : ∀ o e, x.1.stores.utxos.entryAt o = some e → e.utxo.isSpent = true → e.spentHeight.isSome
  cursor : ∀ t, x.1.stores.blocks.tip = some t → ∃ b, x.1.node.chain[t.height]? = some b ∧
    b.blockHash = t.hash ∧ Covers E N (t.height + 1) x

/-- What the others do between the calls of pass `i`. -/
def Rely (E : BlockScanEngine D) (N : List Block) (i : ι) (x x' : Shared ι × Owed ι) : Prop :=
  Sound E N x → Sound E N x' ∧ Evolves x x' ∧ x'.1.tips i = x.1.tips i ∧ x'.2 i = x.2 i

/-- What a call of pass `i` does. -/
def Guarantee (E : BlockScanEngine D) (N : List Block) (i : ι) (x x' : Shared ι × Owed ι) : Prop :=
  Sound E N x → Sound E N x' ∧ Evolves x x' ∧
    ∀ j, j ≠ i → x'.1.tips j = x.1.tips j ∧ x'.2 j = x.2 j

section Rely

variable {E : BlockScanEngine D} {N : List Block} {i j : ι} {x x' x'' : Shared ι × Owed ι}

omit [DecidableEq ι] in
theorem Covers.mono {n : Nat} (h : Covers E N n x) (hev : Evolves x x') : Covers E N n x' :=
  ⟨fun k u hk hu => hev.stored _ (h.stored k u hk hu),
    fun k u t ht hu hs => hev.settled _ (h.settled k u t ht hu hs)⟩

omit [DecidableEq ι] in
theorem Covers.of_le {n m : Nat} (h : Covers E N n x) (hle : m ≤ n) : Covers E N m x :=
  ⟨fun k u hk hu => h.stored k u (Nat.lt_of_lt_of_le hk hle) hu,
    fun k u t ht hu hs => h.settled k u t (Nat.lt_of_lt_of_le ht hle) hu hs⟩

omit [DecidableEq ι] in
theorem covers_zero (x : Shared ι × Owed ι) : Covers E N 0 x :=
  ⟨fun _ _ hk => absurd hk (Nat.not_lt_zero _), fun _ _ _ ht => absurd ht (Nat.not_lt_zero _)⟩

omit [DecidableEq ι] in
theorem Rely.refl (x : Shared ι × Owed ι) : Rely E N i x x :=
  fun hx => ⟨hx, .refl x, rfl, rfl⟩

omit [DecidableEq ι] in
theorem Rely.trans (h : Rely E N i x x') (h' : Rely E N i x' x'') : Rely E N i x x'' := by
  intro hx
  obtain ⟨hx', hev, htip, howed⟩ := h hx
  obtain ⟨hx'', hev', htip', howed'⟩ := h' hx'
  exact ⟨hx'', hev.trans hev', htip'.trans htip, howed'.trans howed⟩

omit [DecidableEq ι] in
theorem Guarantee.rely (h : Guarantee E N i x x') (hj : j ≠ i) : Rely E N j x x' := by
  intro hx
  obtain ⟨hx', hev, hothers⟩ := h hx
  exact ⟨hx', hev, hothers j hj⟩

/-! ### The calls -/

omit [DecidableEq ι] in
/-- The cursor stays on the chain, and the blocks up to it covered. -/
theorem Sound.cursor_mono (hx : Sound E N x) (hev : Evolves x x')
    (htip : x'.1.stores.blocks.tip = x.1.stores.blocks.tip) :
    ∀ t, x'.1.stores.blocks.tip = some t → ∃ b, x'.1.node.chain[t.height]? = some b ∧
      b.blockHash = t.hash ∧ Covers E N (t.height + 1) x' := by
  intro t ht
  obtain ⟨b, hb, hhash, hcovers⟩ := hx.cursor t (htip ▸ ht)
  exact ⟨b, getElem?_mono hev.grows hb, hhash, hcovers.mono hev⟩

omit [DecidableEq ι] in
/-- A call that leaves the UTXO store and the cursor alone. -/
theorem guarantee_of_same (hgrows : x.1.node.chain <+: x'.1.node.chain)
    (hN : x'.1.node.chain <+: N) (hutxos : x'.1.stores.utxos = x.1.stores.utxos)
    (hcursor : x'.1.stores.blocks.tip = x.1.stores.blocks.tip)
    (htips : ∀ j, j ≠ i → x'.1.tips j = x.1.tips j) (howed : x'.2 = x.2) :
    Guarantee E N i x x' := by
  intro hx
  have hev : Evolves x x' := by
    refine ⟨hgrows, ?_, ?_, ?_⟩
    · rw [hutxos]
      exact fun _ h => h
    · intro o
      rw [Settled, Settled, hutxos, howed]
      exact fun h => h
    · rw [hcursor]
      exact fun h => h
  refine ⟨⟨hN, ?_, ?_, ?_, hx.cursor_mono hev hcursor⟩, hev,
    fun j hj => ⟨htips j hj, congrFun howed j⟩⟩
  · rw [hutxos]
    exact hx.entry
  · rw [hutxos]
    exact hx.spent
  · rw [hutxos]
    exact hx.flag

/-- A call to the stores. -/
def step (i : ι) (op : StoreOp) (x : Shared ι × Owed ι) : Shared ι × Owed ι :=
  (x.1.write op, owe i x.1 (.store op) x.2)

theorem step_of_ne (hj : j ≠ i) (op : StoreOp) (x : Shared ι × Owed ι) :
    (step i op x).2 j = x.2 j := by
  cases op with
  | upsertUtxos us => exact Function.update_of_ne hj _ _
  | markSpent os h => exact Function.update_of_ne hj _ _
  | _ => rfl

/-- What an upsert unmarks is owed. -/
theorem step_upsertUtxos {us : List CapturedUtxo} {o : OutPoint} :
    (step i (.upsertUtxos us) x).2 i o ↔
      x.2 i o ∨ (o ∈ us.map (·.outpoint) ∧ x.1.stores.utxos.Marked o) := by
  show Function.update x.2 i _ i o ↔ _
  rw [Function.update_self]

/-- What is marked is owed no more. -/
theorem step_markSpent {os : List OutPoint} {h : Nat} {o : OutPoint} :
    (step i (.markSpent os h) x).2 i o ↔ x.2 i o ∧ o ∉ os := by
  show Function.update x.2 i _ i o ↔ _
  rw [Function.update_self]

theorem step_upsertUtxos_nil (x : Shared ι × Owed ι) : step i (.upsertUtxos []) x = x := by
  refine Prod.ext rfl ((Function.update_eq_self_iff).mpr ?_)
  funext o
  simp

theorem step_markSpent_nil (h : Nat) (x : Shared ι × Owed ι) : step i (.markSpent [] h) x = x := by
  refine Prod.ext rfl ((Function.update_eq_self_iff).mpr ?_)
  funext o
  simp

/-- Writing records of the chain. What this unmarks, the pass owes. -/
theorem guarantee_upsert {us : List CapturedUtxo} {h : Nat} (hus : ∀ u ∈ us, Watched E N h u) :
    Guarantee E N i x (step i (.upsertUtxos us) x) := by
  intro hx
  have hentry := MemUtxoStore.entryAt_upsertUtxos x.1.stores.utxos us
  have hfresh : ∀ u ∈ us, { u with isSpent := false } = u := by
    intro u hu
    obtain ⟨b, -, hb⟩ := hus u hu
    rw [← (BlockScanEngine.captures_height hb).2]
  have hev : Evolves x (step i (.upsertUtxos us) x) := by
    refine ⟨List.prefix_rfl, ?_, ?_, fun ht => ht⟩
    · intro o ho
      rcases hentry o with ⟨-, hsame⟩ | ⟨u, -, -, hnew⟩
      · exact (congrArg Option.isSome hsame).trans ho
      · exact congrArg Option.isSome hnew
    · rintro o (hmarked | ⟨j, hj⟩)
      · rcases hentry o with ⟨-, hsame⟩ | ⟨u, hu, rfl, -⟩
        · obtain ⟨e, he, hflag⟩ := hmarked
          exact .inl ⟨e, hsame.trans he, hflag⟩
        · exact .inr ⟨i, step_upsertUtxos.mpr (.inr ⟨List.mem_map_of_mem hu, hmarked⟩)⟩
      · refine .inr ⟨j, ?_⟩
        by_cases hji : j = i
        · subst hji
          exact step_upsertUtxos.mpr (.inl hj)
        · rwa [step_of_ne hji]
  refine ⟨⟨hx.node, ?_, ?_, ?_, hx.cursor_mono hev rfl⟩, hev,
    fun j hj => ⟨rfl, step_of_ne hj _ x⟩⟩
  · intro o e he
    rcases hentry o with ⟨-, hsame⟩ | ⟨u, hu, rfl, hnew⟩
    · exact hx.entry o e (hsame.symm.trans he)
    · obtain rfl := Option.some.inj (hnew.symm.trans he)
      exact ⟨h, u, hus u hu, rfl, hfresh u hu⟩
  · intro o e t he ht
    rcases hentry o with ⟨-, hsame⟩ | ⟨u, hu, rfl, hnew⟩
    · exact hx.spent o e t (hsame.symm.trans he) ht
    · obtain rfl := Option.some.inj (hnew.symm.trans he)
      obtain ⟨e₀, he₀, ht₀⟩ := Option.bind_eq_some_iff.mp ht
      exact hx.spent _ e₀ t he₀ ht₀
  · intro o e he hflag
    rcases hentry o with ⟨-, hsame⟩ | ⟨u, hu, rfl, hnew⟩
    · exact hx.flag o e (hsame.symm.trans he) hflag
    · obtain rfl := Option.some.inj (hnew.symm.trans he)
      rw [← hfresh u hu] at hflag
      cases hflag

/-- Marking stored records the block at height `h` spends. -/
theorem guarantee_markSpent {os : List OutPoint} {h : Nat} (hspent : ∀ o ∈ os, SpentIn N h o)
    (hstored : ∀ o ∈ os, (x.1.stores.utxos.entryAt o).isSome) :
    Guarantee E N i x (step i (.markSpent os h) x) ∧
      ∀ o ∈ os, (step i (.markSpent os h) x).1.stores.utxos.Marked o := by
  have hentry := MemUtxoStore.entryAt_markSpent x.1.stores.utxos os h
  have hmarks : ∀ o ∈ os, (step i (.markSpent os h) x).1.stores.utxos.Marked o := by
    intro o ho
    obtain ⟨e, he⟩ := Option.isSome_iff_exists.mp (hstored o ho)
    refine ⟨e.markSpent h, ?_, rfl⟩
    refine (hentry o).trans ?_
    rw [if_pos ho, he]
    rfl
  refine ⟨?_, hmarks⟩
  intro hx
  have hev : Evolves x (step i (.markSpent os h) x) := by
    refine ⟨List.prefix_rfl, ?_, ?_, fun ht => ht⟩
    · intro o ho
      refine (congrArg Option.isSome (hentry o)).trans ?_
      split
      · rwa [Option.isSome_map]
      · exact ho
    · intro o hsettled
      by_cases ho : o ∈ os
      · exact .inl (hmarks o ho)
      · rcases hsettled with ⟨e, he, hflag⟩ | ⟨j, hj⟩
        · refine .inl ⟨e, (hentry o).trans ?_, hflag⟩
          rw [if_neg ho, he]
        · refine .inr ⟨j, ?_⟩
          by_cases hji : j = i
          · subst hji
            exact step_markSpent.mpr ⟨hj, ho⟩
          · rwa [step_of_ne hji]
  refine ⟨⟨hx.node, ?_, ?_, ?_, hx.cursor_mono hev rfl⟩, hev,
    fun j hj => ⟨rfl, step_of_ne hj _ x⟩⟩
  · intro o e he
    have he' := (hentry o).symm.trans he
    split at he'
    · obtain ⟨e₀, he₀, rfl⟩ := Option.map_eq_some_iff.mp he'
      exact hx.entry o e₀ he₀
    · exact hx.entry o e he'
  · intro o e t he ht
    have he' := (hentry o).symm.trans he
    split at he'
    · next ho =>
        obtain ⟨e₀, he₀, rfl⟩ := Option.map_eq_some_iff.mp he'
        cases ht
        exact hspent o ho
    · exact hx.spent o e t he' ht
  · intro o e he hflag
    have he' := (hentry o).symm.trans he
    split at he'
    · obtain ⟨e₀, he₀, rfl⟩ := Option.map_eq_some_iff.mp he'
      rfl
    · exact hx.flag o e he' hflag

/-- Writing the cursor once the blocks up to it are covered. -/
theorem guarantee_setSyncedTip {t : SyncedTip} {b : Block}
    (hb : x.1.node.chain[t.height]? = some b) (hhash : b.blockHash = t.hash)
    (hcovers : Covers E N (t.height + 1) x) :
    Guarantee E N i x (step i (.setSyncedTip t) x) := by
  intro hx
  have hev : Evolves x (step i (.setSyncedTip t) x) :=
    ⟨List.prefix_rfl, fun _ h => h, fun _ h => h, fun _ => rfl⟩
  refine ⟨⟨hx.node, hx.entry, hx.spent, hx.flag, ?_⟩, hev, fun j hj => ⟨rfl, rfl⟩⟩
  intro t' ht'
  obtain rfl := Option.some.inj ht'
  exact ⟨b, hb, hhash, hcovers.mono hev⟩

end Rely

/-! ## A pass -/

/-- A pass among others: with calls that spare what is marked above its
tip, it keeps its guarantee as long as the others keep theirs. -/
abbrev PassSafe (E : BlockScanEngine D) (N : List Block) (i : ι) {α : Type} (p : SyncProg α)
    (Q : α → Shared ι × Owed ι → Prop) (x : Shared ι × Owed ι) : Prop :=
  Prog.safe ((growingEnv N i).withHistory (owe i)) (fun x => SparesMarked i x.1) (Rely E N i)
    (Guarantee E N i) p Q x

/-- Pass `i` has read the tip `T`, and scanned up to height `h` with the
outpoints in `K` for its index. It knows every output it has passed, or
its spend is settled, and it still gets to the spends it owes. -/
structure Scanning (E : BlockScanEngine D) (N : List Block) (i : ι) (T h : Nat)
    (K : OutPoint → Prop) (x : Shared ι × Owed ι) : Prop where
  sound : Sound E N x
  tip : x.1.tips i = T
  lt : T < x.1.node.chain.length
  covers : Covers E N h x
  stored : ∀ o, K o → (x.1.stores.utxos.entryAt o).isSome
  known : ∀ k u, k < h → Watched E N k u → K u.outpoint ∨ Settled x u.outpoint
  owes : ∀ o, x.2 i o → K o ∧ ∃ t, h ≤ t ∧ t ≤ T ∧ SpentIn N t o

/-- The node has the block of `t`, and the blocks up to it are covered. -/
structure AtCursor (E : BlockScanEngine D) (N : List Block) (i : ι) (T h : Nat)
    (K : OutPoint → Prop) (t : SyncedTip) (x : Shared ι × Owed ι) : Prop where
  scanning : Scanning E N i T h K x
  cursor : ∃ b, x.1.node.chain[t.height]? = some b ∧ b.blockHash = t.hash ∧
    Covers E N (t.height + 1) x

/-- A pass that has returned owes nothing. -/
structure Returned (E : BlockScanEngine D) (N : List Block) (i : ι) (x : Shared ι × Owed ι) :
    Prop where
  sound : Sound E N x
  free : ∀ o, ¬x.2 i o
  cursor : x.1.stores.blocks.tip.isSome

section Pass

variable {E : BlockScanEngine D} {N : List Block} {i : ι} {x x' : Shared ι × Owed ι} {T h : Nat}
  {K : OutPoint → Prop} {α β : Type}

omit [DecidableEq ι] in
theorem Scanning.evolves (hA : Scanning E N i T h K x) (hsound : Sound E N x')
    (hev : Evolves x x') (htip : x'.1.tips i = x.1.tips i) (howed : x'.2 i = x.2 i) :
    Scanning E N i T h K x' where
  sound := hsound
  tip := htip.trans hA.tip
  lt := Nat.lt_of_lt_of_le hA.lt hev.grows.length_le
  covers := hA.covers.mono hev
  stored o ho := hev.stored o (hA.stored o ho)
  known k u hk hu := (hA.known k u hk hu).imp_right (hev.settled _)
  owes o ho := hA.owes o (congrFun howed o ▸ ho)

omit [DecidableEq ι] in
theorem Scanning.rely (hA : Scanning E N i T h K x) (hR : Rely E N i x x') :
    Scanning E N i T h K x' := by
  obtain ⟨hsound, hev, htip, howed⟩ := hR hA.sound
  exact hA.evolves hsound hev htip howed

omit [DecidableEq ι] in
theorem AtCursor.rely {t : SyncedTip} (hA : AtCursor E N i T h K t x) (hR : Rely E N i x x') :
    AtCursor E N i T h K t x' := by
  obtain ⟨-, hev, -⟩ := hR hA.scanning.sound
  obtain ⟨b, hb, hhash, hcovers⟩ := hA.cursor
  exact ⟨hA.scanning.rely hR, b, getElem?_mono hev.grows hb, hhash, hcovers.mono hev⟩

omit [DecidableEq ι] in
theorem Returned.rely (hR : Rely E N i x x') (hA : Returned E N i x) : Returned E N i x' := by
  obtain ⟨hsound, hev, -, howed⟩ := hR hA.sound
  exact ⟨hsound, howed ▸ hA.free, hev.cursor hA.cursor⟩

/-! ### Rules -/

/-- A read other than that of the tip changes nothing the pass relies on. -/
theorem safe_callChain {op : ChainOp} (hop : op ≠ .tipHeight) {A : Shared ι × Owed ι → Prop}
    (hstable : ∀ x x', A x → Rely E N i x x' → A x') {Q : op.Res → Shared ι × Owed ι → Prop}
    (hA : A x) (hQ : ∀ y v, A y → y.1.node.answer op = .ok v → Q v y) :
    PassSafe E N i (callChain op) Q x := by
  refine Prog.safe_perform (fun x x' hR hx => hstable x x' hx hR) hA ?_
  rintro x₁ hx₁ - v ⟨s₂, owed₂⟩ ⟨⟨node, hgrows, hN, hv, rfl⟩, rfl⟩
  have hread : x₁.1.read i node op v = { x₁.1 with node } := by
    cases op with
    | tipHeight => exact absurd rfl hop
    | _ => rfl
  rw [hread]
  have hG : ∀ j : ι, Guarantee E N j x₁ ({ x₁.1 with node }, x₁.2) := fun j =>
    guarantee_of_same hgrows hN rfl rfl (fun _ _ => rfl) rfl
  refine ⟨hG i, hQ _ v (hstable x₁ _ hx₁ ?_) hv⟩
  intro hsound
  obtain ⟨hsound', hev, -⟩ := hG i hsound
  exact ⟨hsound', hev, rfl, rfl⟩

theorem safe_callStore {op : StoreOp} {A : Shared ι × Owed ι → Prop}
    (hstable : ∀ x x', A x → Rely E N i x x' → A x') {Q : op.Res → Shared ι × Owed ι → Prop}
    (hA : A x) (hstep : ∀ y, A y → SparesMarked i y.1 (.store op) →
      Guarantee E N i y (step i op y) ∧ Q (op.exec y.1.stores).1 (step i op y)) :
    PassSafe E N i (callStore op) Q x := by
  refine Prog.safe_perform (fun x x' hR hx => hstable x x' hx hR) hA ?_
  rintro x₁ hx₁ hspares v ⟨s₂, owed₂⟩ ⟨⟨rfl, rfl⟩, rfl⟩
  exact hstep x₁ hx₁ hspares

/-- A call that leaves the UTXO store and the cursor alone. -/
theorem safe_callStore_same {op : StoreOp} {A : Shared ι × Owed ι → Prop}
    (hstable : ∀ x x', A x → Rely E N i x x' → A x') (hsound : ∀ x, A x → Sound E N x)
    (hutxos : ∀ y : Shared ι × Owed ι, (step i op y).1.stores.utxos = y.1.stores.utxos)
    (hcursor : ∀ y : Shared ι × Owed ι, (step i op y).1.stores.blocks.tip = y.1.stores.blocks.tip)
    (howed : ∀ y : Shared ι × Owed ι, (step i op y).2 = y.2)
    {Q : op.Res → Shared ι × Owed ι → Prop} (hA : A x)
    (hQ : ∀ y, A y → A (step i op y) → Q (op.exec y.1.stores).1 (step i op y)) :
    PassSafe E N i (callStore op) Q x := by
  refine safe_callStore hstable hA ?_
  intro y hy _
  have hG : Guarantee E N i y (step i op y) := guarantee_of_same List.prefix_rfl
    (hsound y hy).node (hutxos y) (hcursor y) (fun _ _ => rfl) (howed y)
  refine ⟨hG, hQ y hy (hstable y _ hy ?_)⟩
  intro hs
  obtain ⟨hs', hev, -⟩ := hG hs
  exact ⟨hs', hev, rfl, congrFun (howed y) i⟩

/-- A call that is skipped when it would do nothing. -/
theorem safe_callStore_ite {op : StoreOp} {c : Prop} [Decidable c] {p : SyncProg β}
    {A : Shared ι × Owed ι → Prop} (hstable : ∀ x x', A x → Rely E N i x x' → A x')
    {Q : β → Shared ι × Owed ι → Prop} (hA : A x)
    (hskip : ¬c → ∀ y, step i op y = y ∧ SparesMarked i y.1 (.store op))
    (hstep : ∀ y, A y → SparesMarked i y.1 (.store op) →
      Guarantee E N i y (step i op y) ∧ PassSafe E N i p Q (step i op y)) :
    PassSafe E N i (if c then callStore op >>= fun _ => p else p) Q x := by
  split
  · exact Prog.safe_bind.mpr (safe_callStore hstable hA hstep)
  · next hc =>
      obtain ⟨hsame, hspares⟩ := hskip hc x
      have hrest := (hstep x hA hspares).2
      rwa [hsame] at hrest

/-! ### Scanning -/

variable (hvalid : ValidChain N)

include hvalid

/-- Writing the captures of the block at height `h`. The spends this
unmarks are those of a block the pass still gets to. -/
theorem Scanning.upsert {b : Block} (hb : N[h]? = some b) (hA : Scanning E N i T h K x)
    (hspares : SparesMarked i x.1 (.store (.upsertUtxos (E.captures h b.txdata)))) :
    Scanning E N i T h (fun o => K o ∨ o ∈ (E.captures h b.txdata).map (·.outpoint))
      (step i (.upsertUtxos (E.captures h b.txdata)) x) := by
  have hwatched : ∀ u ∈ E.captures h b.txdata, Watched E N h u := fun u => (watched_iff hb).mpr
  obtain ⟨hsound, hev, -⟩ := guarantee_upsert (i := i) hwatched hA.sound
  refine ⟨hsound, hA.tip, hA.lt, hA.covers.mono hev, ?_, ?_, ?_⟩
  · rintro o (hK | hcaptured)
    · exact hev.stored o (hA.stored o hK)
    · rcases MemUtxoStore.entryAt_upsertUtxos x.1.stores.utxos (E.captures h b.txdata) o
        with ⟨hno, -⟩ | ⟨u, -, -, hnew⟩
      · exact absurd hcaptured hno
      · exact congrArg Option.isSome hnew
  · intro k u hk hu
    exact (hA.known k u hk hu).imp .inl (hev.settled _)
  · intro o ho
    rcases step_upsertUtxos.mp ho with hold | ⟨hcaptured, e, he, hflag⟩
    · obtain ⟨hK, hgets⟩ := hA.owes o hold
      exact ⟨.inl hK, hgets⟩
    · refine ⟨.inr hcaptured, ?_⟩
      obtain ⟨u, hu, rfl⟩ := List.mem_map.mp hcaptured
      obtain ⟨t, ht⟩ := Option.isSome_iff_exists.mp (hA.sound.flag _ e he hflag)
      have hspent := hA.sound.spent _ e t he ht
      exact ⟨t, (hwatched u hu).le_spent hvalid hspent, hA.tip ▸ hspares u hu e he t ht, hspent⟩

/-- Marking the spends of the block at height `h` completes it. -/
theorem Scanning.markSpent {b : Block} (hb : N[h]? = some b) (hA : Scanning E N i T h K x)
    (hK : ∀ u ∈ E.captures h b.txdata, K u.outpoint) {os : List OutPoint}
    (hos : ∀ o, o ∈ os ↔ o ∈ b.spends ∧ K o) :
    Guarantee E N i x (step i (.markSpent os h) x) ∧
      Scanning E N i T (h + 1) (fun o => K o ∧ o ∉ b.spends) (step i (.markSpent os h) x) := by
  obtain ⟨hG, hmarked⟩ := guarantee_markSpent (E := E) (N := N) (i := i) (h := h)
    (fun o ho => (spentIn_iff hb).mpr ((hos o).mp ho).1) (fun o ho => hA.stored o ((hos o).mp ho).2)
  obtain ⟨hsound, hev, -⟩ := hG hA.sound
  have hknown : ∀ k u, k < h + 1 → Watched E N k u → K u.outpoint ∨ Settled x u.outpoint := by
    intro k u hk hu
    rcases Nat.lt_succ_iff_lt_or_eq.mp hk with hlt | rfl
    · exact hA.known k u hlt hu
    · exact .inl (hK u ((watched_iff hb).mp hu))
  have hsettled : ∀ k u, k < h + 1 → Watched E N k u → u.outpoint ∈ b.spends →
      Settled (step i (.markSpent os h) x) u.outpoint := by
    intro k u hk hu hspends
    rcases hknown k u hk hu with hin | hdone
    · exact .inl (hmarked _ ((hos _).mpr ⟨hspends, hin⟩))
    · exact hev.settled _ hdone
  refine ⟨hG, hsound, hA.tip, hA.lt, ⟨?_, ?_⟩, fun o ho => hev.stored o (hA.stored o ho.1), ?_, ?_⟩
  · intro k u hk hu
    rcases Nat.lt_succ_iff_lt_or_eq.mp hk with hlt | rfl
    · exact hev.stored _ (hA.covers.stored k u hlt hu)
    · exact hev.stored _ (hA.stored _ (hK u ((watched_iff hb).mp hu)))
  · intro k u t ht hu hspent
    rcases Nat.lt_succ_iff_lt_or_eq.mp ht with hlt | rfl
    · exact hev.settled _ (hA.covers.settled k u t hlt hu hspent)
    · exact hsettled k u (Nat.lt_succ_of_le (hu.le_spent hvalid hspent)) hu
        ((spentIn_iff hb).mp hspent)
  · intro k u hk hu
    by_cases hspends : u.outpoint ∈ b.spends
    · exact .inr (hsettled k u hk hu hspends)
    · exact (hknown k u hk hu).imp (fun hin => ⟨hin, hspends⟩) (hev.settled _)
  · intro o ho
    obtain ⟨hold, hno⟩ := step_markSpent.mp ho
    obtain ⟨hin, t, hle, hT, hspent⟩ := hA.owes o hold
    have hspends : o ∉ b.spends := fun hspends => hno ((hos o).mpr ⟨hspends, hin⟩)
    refine ⟨⟨hin, hspends⟩, t, Nat.lt_of_le_of_ne hle ?_, hT, hspent⟩
    rintro rfl
    exact hspends ((spentIn_iff hb).mp hspent)

variable (hnodup : (N.map (·.blockHash)).Nodup)

include hnodup

/-- The scan of one block. -/
theorem safe_scanBlock {idx : Map OutPoint WalletId} {summary : SyncSummary} (hle : h ≤ T)
    (hA : Scanning E N i T h (· ∈ idx) x) :
    PassSafe E N i (E.scanBlock h (idx, summary))
      (fun st y => Scanning E N i T (h + 1) (· ∈ st.1) y) x := by
  obtain ⟨b, hb⟩ : ∃ b, N[h]? = some b := by
    have hlt : h < N.length := Nat.lt_of_le_of_lt hle
      (Nat.lt_of_lt_of_le hA.lt hA.sound.node.length_le)
    exact ⟨_, List.getElem?_eq_getElem hlt⟩
  have htxs := hvalid.block (List.mem_of_getElem? hb)
  have hstable : ∀ x x', Scanning E N i T h (· ∈ idx) x → Rely E N i x x' →
      Scanning E N i T h (· ∈ idx) x' := fun _ _ => Scanning.rely
  refine Prog.safe_bind.mpr (safe_callChain (by simp) hstable hA ?_)
  intro y hash hy hhash
  obtain ⟨b₁, hb₁, rfl⟩ := MockChainSource.blockHash_eq_ok.mp hhash
  obtain rfl := Option.some.inj (hb.symm.trans (getElem?_mono hy.sound.node hb₁))
  refine Prog.safe_bind.mpr (safe_callChain (by simp) hstable hy ?_)
  intro y (block : Block) hy hblock
  obtain ⟨hmem, hsame⟩ := MockChainSource.block_eq_ok hblock
  obtain rfl : block = b :=
    List.inj_on_of_nodup_map hnodup (hy.sound.node.subset hmem) (List.mem_of_getElem? hb) hsame
  refine Prog.safe_bind.mpr (safe_callStore_same hstable (fun _ => Scanning.sound) (fun _ => rfl)
    (fun _ => rfl) (fun _ => rfl) hy ?_)
  rintro y - hy
  have hcaptured := E.scanTxs_captured h block.txdata idx
  refine safe_callStore_ite hstable hy ?_ ?_
  · intro hnil y
    rw [Decidable.of_not_not hnil]
    exact ⟨step_upsertUtxos_nil y, fun u hu => absurd hu List.not_mem_nil⟩
  · intro y hy hspares
    rw [hcaptured] at hspares ⊢
    refine ⟨guarantee_upsert fun u => (watched_iff hb).mpr, ?_⟩
    refine safe_callStore_ite (fun _ _ => Scanning.rely) (hy.upsert hvalid hb hspares) ?_ ?_
    · intro hnil y
      rw [Decidable.of_not_not hnil]
      exact ⟨step_markSpent_nil h y, trivial⟩
    · intro y hy _
      obtain ⟨hG, hdone⟩ := hy.markSpent hvalid hb (fun u hu => .inr (List.mem_map_of_mem hu))
        fun o => E.mem_spent_scanTxs htxs
      have hK : (fun o => o ∈ (E.scanTxs h block.txdata idx).spendIndex) = _ :=
        funext fun o => propext (E.mem_spendIndex_scanTxs htxs)
      refine ⟨hG, Prog.safe_pure.mpr ?_⟩
      dsimp only
      rw [hK]
      exact hdone

/-- The scan of the blocks up to the tip. -/
theorem safe_scanBlocks : ∀ {n h : Nat} {idx : Map OutPoint WalletId} {summary : SyncSummary}
    {x : Shared ι × Owed ι}, h + n = T + 1 → Scanning E N i T h (· ∈ idx) x →
    PassSafe E N i (E.scanBlocks (List.range' h n) (idx, summary))
      (fun st y => Scanning E N i T (T + 1) (· ∈ st.1) y) x
  | 0, h, idx, summary, x, hn, hA => by
      obtain rfl : h = T + 1 := hn
      exact hA
  | n + 1, h, idx, summary, x, hn, hA => by
      rw [List.range'_succ, BlockScanEngine.scanBlocks]
      refine Prog.safe_bind.mpr (Prog.safe_mono ?_ (safe_scanBlock hvalid hnodup (by omega) hA))
      rintro ⟨idx', summary'⟩ y hy
      exact safe_scanBlocks (by omega) hy

omit hvalid hnodup

theorem safe_heightSucc {n : Nat} {Q : Nat → Shared ι × Owed ι → Prop} (hQ : Q (n + 1) x) :
    PassSafe E N i (heightSucc n) Q x := by
  unfold heightSucc
  split
  · exact hQ
  · trivial

theorem safe_tipHeight (hsound : Sound E N x) (hfree : ∀ o, ¬x.2 i o) :
    PassSafe E N i (callChain .tipHeight)
      (fun tip y => Scanning E N i tip 0 (fun _ => False) y) x := by
  have hstable : ∀ x x', Rely E N i x x' → (Sound E N x ∧ ∀ o, ¬x.2 i o) →
      Sound E N x' ∧ ∀ o, ¬x'.2 i o := by
    rintro x x' hR ⟨hsound, hfree⟩
    obtain ⟨hsound', -, -, howed⟩ := hR hsound
    exact ⟨hsound', howed ▸ hfree⟩
  refine Prog.safe_perform hstable ⟨hsound, hfree⟩ ?_
  rintro x₁ ⟨hsound, hfree⟩ - tip ⟨s₂, owed₂⟩ ⟨⟨node, hgrows, hN, htip, rfl⟩, rfl⟩
  obtain ⟨hlen, -⟩ := MockChainSource.tipHeight_eq_ok.mp htip
  have hG : Guarantee E N i x₁ (x₁.1.read i node .tipHeight tip, x₁.2) :=
    guarantee_of_same hgrows hN rfl rfl (fun j hj => Function.update_of_ne hj _ _) rfl
  refine ⟨hG, (hG hsound).1, Function.update_self _ _ _, ?_, covers_zero _, nofun,
    fun k u hk => absurd hk (Nat.not_lt_zero k), fun o ho => absurd ho (hfree o)⟩
  exact Nat.lt_of_lt_of_eq (Nat.lt_succ_self tip) hlen.symm

/-- Where a pass starts. The node has the block at the cursor, so
nothing is rolled back, and the blocks below the start are covered. -/
theorem safe_startHeight (hA : Scanning E N i T 0 (fun _ => False) x) :
    PassSafe E N i BlockScanEngine.startHeight
      (fun p y => Scanning E N i T 0 (fun _ => False) y ∧ Covers E N p.1 y) x := by
  refine Prog.safe_bind.mpr (safe_callStore_same (fun _ _ => Scanning.rely)
    (fun _ => Scanning.sound) (fun _ => rfl) (fun _ => rfl) (fun _ => rfl) hA ?_)
  intro y hy hy'
  have hexec : StoreOp.syncedTip.exec y.1.stores = (y.1.stores.blocks.syncedTip, y.1.stores) := rfl
  rw [hexec]
  dsimp only
  cases hcursor : y.1.stores.blocks.syncedTip with
  | none => exact ⟨hy', covers_zero _⟩
  | some t =>
      have hat : AtCursor E N i T 0 (fun _ => False) t (step i .syncedTip y) :=
        ⟨hy', hy'.sound.cursor t hcursor⟩
      refine Prog.safe_bind.mpr (safe_callChain (by simp) (fun _ _ => AtCursor.rely) hat ?_)
      intro z hash hz hhash
      obtain ⟨b, hb, hsame, hcovers⟩ := hz.cursor
      obtain ⟨b', hb', rfl⟩ := MockChainSource.blockHash_eq_ok.mp hhash
      obtain rfl := Option.some.inj (hb.symm.trans hb')
      rw [if_pos hsame]
      exact Prog.safe_bind.mpr (safe_heightSucc ⟨hz.scanning, hcovers⟩)

/-- The spend index: what is not in it is settled. -/
theorem safe_unspentOutpoints {n : Nat} (hA : Scanning E N i T 0 (fun _ => False) x)
    (hcovers : Covers E N n x) :
    PassSafe E N i (callStore .unspentOutpoints)
      (fun unspent y => Scanning E N i T n (· ∈ Map.collect unspent) y) x := by
  have hstable : ∀ x x', Scanning E N i T 0 (fun _ => False) x ∧ Covers E N n x →
      Rely E N i x x' → Scanning E N i T 0 (fun _ => False) x' ∧ Covers E N n x' := by
    rintro x x' ⟨hA, hcovers⟩ hR
    exact ⟨hA.rely hR, hcovers.mono (hR hA.sound).2.1⟩
  refine safe_callStore_same hstable (fun _ h => h.1.sound) (fun _ => rfl) (fun _ => rfl)
    (fun _ => rfl) ⟨hA, hcovers⟩ ?_
  rintro y - ⟨hy, hcovers⟩
  have hmirrors := mirrors_collect y.1.stores.utxos
  refine ⟨hy.sound, hy.tip, hy.lt, hcovers, ?_, ?_, fun o ho => absurd (hy.owes o ho).1 id⟩
  · intro o ho
    obtain ⟨e, he, -⟩ := (hmirrors o).mp ho
    exact Option.isSome_of_eq_some he
  · intro k u hk hu
    obtain ⟨e, he⟩ := Option.isSome_iff_exists.mp (hcovers.stored k u hk hu)
    cases hflag : e.utxo.isSpent with
    | true => exact .inr (.inl ⟨e, he, hflag⟩)
    | false => exact .inl ((hmirrors _).mpr ⟨e, he, hflag⟩)

/-- The cursor is written, and nothing is owed any more. -/
theorem safe_writeCursor (hA : Scanning E N i T (T + 1) K x) :
    PassSafe E N i (callChain (.blockHash T) >>= fun hash => callStore (.setSyncedTip ⟨T, hash⟩))
      (fun _ y => Returned E N i y) x := by
  refine Prog.safe_bind.mpr (safe_callChain (by simp) (fun _ _ => Scanning.rely) hA ?_)
  intro y hash hy hhash
  have hat : AtCursor E N i T (T + 1) K ⟨T, hash⟩ y := by
    obtain ⟨b, hb, hsame⟩ := MockChainSource.blockHash_eq_ok.mp hhash
    exact ⟨hy, b, hb, hsame, hy.covers⟩
  refine safe_callStore (fun _ _ => AtCursor.rely) hat ?_
  intro z hz _
  obtain ⟨b, hb, hsame, hcovers⟩ := hz.cursor
  have hG := guarantee_setSyncedTip (i := i) hb hsame hcovers
  refine ⟨hG, (hG hz.scanning.sound).1, ?_, rfl⟩
  intro o ho
  obtain ⟨-, t, hle, hT, -⟩ := hz.scanning.owes o ho
  omega

include hvalid hnodup

/-- A pass. -/
theorem safe_sync (hsound : Sound E N x) (hfree : ∀ o, ¬x.2 i o) :
    PassSafe E N i E.sync (fun _ y => Returned E N i y) x := by
  refine Prog.safe_bind.mpr (Prog.safe_mono ?_ (safe_tipHeight hsound hfree))
  intro (T : Nat) y hy
  refine Prog.safe_bind.mpr (Prog.safe_mono ?_ (safe_startHeight hy))
  rintro ⟨start, summary⟩ y ⟨hy, hcovers⟩
  refine Prog.safe_bind.mpr (safe_heightSucc ?_)
  obtain ⟨n, hn⟩ : ∃ n, n = if T + 1 < start then T + 1 else start := ⟨_, rfl⟩
  have hle : n ≤ start ∧ n ≤ T + 1 := by
    rw [hn]
    split <;> omega
  dsimp only
  rw [← hn]
  refine Prog.safe_bind.mpr (Prog.safe_mono ?_ (safe_unspentOutpoints hy (hcovers.of_le hle.1)))
  intro unspent y hy
  refine Prog.safe_bind.mpr (Prog.safe_mono ?_ (safe_scanBlocks hvalid hnodup (by omega) hy))
  rintro ⟨idx, summary'⟩ y hy
  dsimp only
  rw [if_pos hle.2]
  refine Prog.safe_bind.mpr (Prog.safe_mono ?_ (Prog.safe_bind.mp (safe_writeCursor hy)))
  intro hash z hz
  exact Prog.safe_bind.mpr hz

end Pass

/-! ## The start -/

section Start

variable {E : BlockScanEngine D} {N M : List Block} {h t : Nat} {u : CapturedUtxo} {o : OutPoint}

theorem Watched.mono (hpre : M <+: N) (hu : Watched E M h u) : Watched E N h u := by
  obtain ⟨b, hb, hu⟩ := hu
  exact ⟨b, getElem?_mono hpre hb, hu⟩

omit [LwkDescriptor D] in
theorem SpentIn.mono (hpre : M <+: N) (hs : SpentIn M t o) : SpentIn N t o := by
  obtain ⟨b, hb, ho⟩ := hs
  exact ⟨b, getElem?_mono hpre hb, ho⟩

theorem Watched.of_lt (hpre : M <+: N) (hlt : h < M.length) (hu : Watched E N h u) :
    Watched E M h u := by
  have hM := List.getElem?_eq_getElem hlt
  exact (watched_iff hM).mpr ((watched_iff (getElem?_mono hpre hM)).mp hu)

theorem SpentIn.of_lt (hpre : M <+: N) (hlt : t < M.length) (hs : SpentIn N t o) :
    SpentIn M t o := by
  have hM := List.getElem?_eq_getElem hlt
  exact (spentIn_iff hM).mpr ((spentIn_iff (getElem?_mono hpre hM)).mp hs)

/-- What a chain scanned by one engine creates. -/
theorem createdAt_scannedBy (hvalid : ValidChain M) :
    createdAt (History.batches (History.scannedBy E M)) o = some (h, u) ↔
      Watched E M h u ∧ u.outpoint = o := by
  have hvalid' : ValidChain (History.scannedBy E M).blocks := by rwa [History.blocks_scannedBy]
  have hbatch : ∀ i β, (History.batches (History.scannedBy E M))[i]? = some β ↔
      ∃ b, M[i]? = some b ∧ E.batchAt i b = β := by
    intro i β
    rw [History.batches, History.getElem?_batchesFrom, History.scannedBy, List.getElem?_map,
      Option.map_map, Option.map_eq_some_iff, Nat.zero_add]
    rfl
  rw [createdAt, createdFrom_eq_some_iff (History.valid_batches hvalid')]
  constructor
  · rintro ⟨i, β, hβ, rfl, hcreates⟩
    obtain ⟨b, hb, rfl⟩ := (hbatch i β).mp hβ
    obtain ⟨hu, ho⟩ := (BlockScanEngine.batchAt_creates (hvalid.block (List.mem_of_getElem? hb))).mp
      hcreates
    rw [Nat.zero_add]
    exact ⟨⟨b, hb, hu⟩, ho⟩
  · rintro ⟨⟨b, hb, hu⟩, ho⟩
    refine ⟨h, _, (hbatch h _).mpr ⟨b, hb, rfl⟩, (Nat.zero_add h).symm, ?_⟩
    exact (BlockScanEngine.batchAt_creates (hvalid.block (List.mem_of_getElem? hb))).mpr ⟨hu, ho⟩

/-- And what it spends. -/
theorem spentAt_scannedBy (ht : spentAt (History.batches (History.scannedBy E M)) o = some t) :
    SpentIn M t o := by
  rw [History.spentAt_batches, History.blocks_scannedBy] at ht
  obtain ⟨hlt, hspends, -⟩ := List.findIdx?_eq_some_iff_getElem.mp ht
  exact ⟨M[t], List.getElem?_eq_getElem hlt, of_decide_eq_true hspends⟩

theorem isSome_spentAt_scannedBy (hs : SpentIn M t o) :
    (spentAt (History.batches (History.scannedBy E M)) o).isSome := by
  obtain ⟨b, hb, ho⟩ := hs
  rw [History.spentAt_batches, History.blocks_scannedBy, List.findIdx?_isSome]
  exact List.any_eq_true.mpr ⟨b, List.mem_of_getElem? hb, decide_eq_true ho⟩

section Interrupted

variable {bs Y : List Block} {S : Stores} (hvalid : ValidChain (bs ++ Y))
  (hholds : Holds E S (History.scannedBy E bs) Y)

include hvalid hholds

/-- Every record is of an output the engine watches on the chain, and a
spend height of a block that spends it. -/
theorem Holds.watched {e : Entry} (he : S.utxos.entryAt o = some e) :
    ∃ h u, Watched E (bs ++ Y) h u ∧ u.outpoint = o ∧ { e.utxo with isSpent := false } = u ∧
      ∀ t, e.spentHeight = some t → SpentIn (bs ++ Y) t o := by
  have hbs : bs <+: bs ++ Y := List.prefix_append bs Y
  have ho := hholds.utxos o
  rw [← History.scannedBy_append, MemUtxoStore.view, he, Option.map_some, InterruptedAt] at ho
  split at ho
  · next c hc =>
      obtain ⟨sp, heq, hsp⟩ := ho
      obtain ⟨hu, hop⟩ := (createdAt_scannedBy (hvalid.sublist hbs.sublist)).mp hc
      have hslot := Option.some.inj heq
      refine ⟨c.1, c.2, hu.mono hbs, hop, congrArg Slot.record hslot, ?_⟩
      intro t ht
      have hsp' : sp = some t := (congrArg Slot.spentHeight hslot).symm.trans ht
      rcases hsp with hbelow | habove
      · exact (spentAt_scannedBy (hbelow.symm.trans hsp')).mono hbs
      · exact spentAt_scannedBy (habove.symm.trans hsp')
  · split at ho
    · next c hc =>
        obtain hnone | ⟨f, sp, heq, hsp⟩ := ho
        · cases hnone
        obtain ⟨hu, hop⟩ := (createdAt_scannedBy hvalid).mp hc
        have hslot := Option.some.inj heq
        refine ⟨c.1, c.2, hu, hop, congrArg Slot.record hslot, ?_⟩
        intro t ht
        have hsp' : sp = some t := (congrArg Slot.spentHeight hslot).symm.trans ht
        rcases hsp with hnone | habove
        · rw [hnone] at hsp'
          cases hsp'
        · exact spentAt_scannedBy (habove.symm.trans hsp')
    · cases ho

/-- What is watched in the complete blocks is recorded, and marked when
they spend it. -/
theorem Holds.covered (hlt : h < bs.length) (hu : Watched E (bs ++ Y) h u) : ∃ e,
    S.utxos.entryAt u.outpoint = some e ∧
      ∀ t, t < bs.length → SpentIn (bs ++ Y) t u.outpoint → e.utxo.isSpent = true := by
  have hbs : bs <+: bs ++ Y := List.prefix_append bs Y
  have ho := hholds.utxos u.outpoint
  rw [← History.scannedBy_append, InterruptedAt,
    (createdAt_scannedBy (hvalid.sublist hbs.sublist)).mpr ⟨hu.of_lt hbs hlt, rfl⟩] at ho
  obtain ⟨sp, heq, hsp⟩ := ho
  obtain ⟨e, he, hslot⟩ := Option.map_eq_some_iff.mp heq
  refine ⟨e, he, ?_⟩
  intro t ht hspent
  have hbelow : SpentIn bs t u.outpoint := hspent.of_lt hbs ht
  have hsome : sp.isSome := by
    rcases hsp with hsp | hsp
    · exact hsp ▸ isSome_spentAt_scannedBy hbelow
    · exact hsp ▸ isSome_spentAt_scannedBy (hbelow.mono hbs)
  exact (congrArg Slot.isSpent hslot).trans hsome

omit hvalid in
/-- The cursor is on the last of the complete blocks. -/
theorem Holds.at_cursor {t : SyncedTip} (ht : S.blocks.tip = some t) :
    ∃ b, bs[t.height]? = some b ∧ b.blockHash = t.hash ∧ t.height + 1 = bs.length := by
  have hcursor := hholds.tip.symm.trans ht
  have hne : History.scannedBy E bs ≠ [] := by
    rintro hnil
    rw [hnil] at hcursor
    cases hcursor
  obtain ⟨b, hb, hsome⟩ := History.cursor_of_ne_nil hne
  obtain rfl := Option.some.inj (hsome.symm.trans hcursor)
  have hpos := List.length_pos_iff.mpr hne
  rw [History.blocks_scannedBy] at hb
  rw [History.length_scannedBy] at hb hpos ⊢
  exact ⟨b, hb, rfl, Nat.sub_add_cancel hpos⟩

end Interrupted

omit [DecidableEq ι] in
/-- The stores as passes of the engine leave them, complete ones up to
`bs` and interrupted ones in the blocks `Y` above. -/
theorem sound_of_holds (hvalid : ValidChain N) {s : Shared ι} {bs Y : List Block}
    (hholds : Holds E s.stores (History.scannedBy E bs) Y) (hchain : bs ++ Y <+: s.node.chain)
    (hN : s.node.chain <+: N)
    (hflag : ∀ o e, s.stores.utxos.entryAt o = some e → e.utxo.isSpent = true →
      e.spentHeight.isSome) : Sound E N (s, fun _ _ => False) := by
  have hpre : bs ++ Y <+: N := hchain.trans hN
  have hlen : bs.length ≤ (bs ++ Y).length := (List.prefix_append bs Y).length_le
  have hfull : ValidChain (bs ++ Y) := hvalid.sublist hpre.sublist
  have hcovered : ∀ k u, k < bs.length → Watched E N k u → ∃ e,
      s.stores.utxos.entryAt u.outpoint = some e ∧
        ∀ t, t < bs.length → SpentIn (bs ++ Y) t u.outpoint → e.utxo.isSpent = true :=
    fun k u hk hu => hholds.covered hfull hk (hu.of_lt hpre (by omega))
  have hcovers : Covers E N bs.length (s, fun (_ : ι) _ => False) := by
    constructor
    · intro k u hk hu
      obtain ⟨e, he, -⟩ := hcovered k u hk hu
      exact Option.isSome_of_eq_some he
    · intro k u t ht hu hspent
      have hk : k < bs.length := Nat.lt_of_le_of_lt (hu.le_spent hvalid hspent) ht
      obtain ⟨e, he, hmarked⟩ := hcovered k u hk hu
      exact .inl ⟨e, he, hmarked t ht (hspent.of_lt hpre (by omega))⟩
  refine ⟨hN, ?_, ?_, hflag, ?_⟩
  · intro o e he
    obtain ⟨h, u, hu, hop, hsame, -⟩ := hholds.watched hfull he
    exact ⟨h, u, hu.mono hpre, hop, hsame⟩
  · intro o e t he ht
    obtain ⟨-, -, -, -, -, hspent⟩ := hholds.watched hfull he
    exact (hspent t ht).mono hpre
  · intro t ht
    obtain ⟨b, hb, hhash, hlast⟩ := hholds.at_cursor ht
    exact ⟨b, getElem?_mono ((List.prefix_append bs Y).trans hchain) hb, hhash, hlast ▸ hcovers⟩

end Start

/-- Passes of one engine overlap in any way, each against the tip it has
read, over stores that passes of the engine have left. When no pass
captures again what is marked above its tip, and all have returned, no
spend up to the cursor is lost: the records spent there are marked, and
the outputs watched there recorded. -/
theorem overlapping_passes_keep [Nonempty ι] {E : BlockScanEngine D} {N : List Block}
    (hvalid : ValidChain N) (hnodup : (N.map (·.blockHash)).Nodup) {s s' : Shared ι}
    {bs Y : List Block} (hholds : Holds E s.stores (History.scannedBy E bs) Y)
    (hchain : bs ++ Y <+: s.node.chain) (hN : s.node.chain <+: N)
    (hflag : ∀ o e, s.stores.utxos.entryAt o = some e → e.utxo.isSpent = true →
      e.spentHeight.isSome) {P : ι → SyncProg SyncSummary}
    (hrun : Prog.PoolRun (growingEnv N) SparesMarked (fun _ => E.sync) s P s')
    (hdone : ∀ i, ∃ summary, P i = .ret summary) :
    ∃ t, s'.stores.blocks.syncedTip = some t ∧
      (∀ o e h, s'.stores.utxos.entryAt o = some e → h ≤ t.height →
        SpentIn s'.node.chain h o → e.utxo.isSpent = true) ∧
      ∀ h u, h ≤ t.height → Watched E s'.node.chain h u → ∃ e,
        s'.stores.utxos.entryAt u.outpoint = some e ∧ { e.utxo with isSpent := false } = u := by
  have hstart := sound_of_holds hvalid hholds hchain hN hflag
  obtain ⟨owed, hrun⟩ := hrun.withHistory owe fun _ _ => False
  obtain ⟨hsafe, hsound⟩ := Prog.PoolRun.safe (R := Rely E N) (G := Guarantee E N)
    (Q := fun i _ => Returned E N i) (I := Sound E N) (fun _ => Rely.refl)
    (fun _ _ _ _ => Rely.trans) (fun _ _ _ _ => Returned.rely) (fun _ _ hj _ _ h => h.rely hj)
    (fun _ _ _ hG hs => (hG hs).1) (fun i => safe_sync hvalid hnodup hstart fun _ => id) hstart hrun
  have hreturned : ∀ i, Returned E N i (s', owed) := by
    intro i
    obtain ⟨summary, hret⟩ := hdone i
    have hi := hsafe i
    rwa [hret] at hi
  obtain ⟨i₀⟩ := ‹Nonempty ι›
  obtain ⟨t, ht⟩ := Option.isSome_iff_exists.mp (hreturned i₀).cursor
  obtain ⟨b, hb, -, hcovers⟩ := hsound.cursor t ht
  refine ⟨t, ht, ?_, ?_⟩
  · intro o e h he hle hspent
    obtain ⟨k, u, hu, rfl, -⟩ := hsound.entry o e he
    rcases hcovers.settled k u h (Nat.lt_succ_of_le hle) hu (hspent.mono hsound.node)
      with ⟨e', he', hmarked⟩ | ⟨i, howed⟩
    · obtain rfl := Option.some.inj (he.symm.trans he')
      exact hmarked
    · exact absurd howed ((hreturned i).free _)
  · intro h u hle hu
    have hu' := hu.mono hsound.node
    obtain ⟨e, he⟩ := Option.isSome_iff_exists.mp (hcovers.stored h u (Nat.lt_succ_of_le hle) hu')
    obtain ⟨k, u', hwatched, hop, hsame⟩ := hsound.entry _ e he
    obtain ⟨-, rfl⟩ := hwatched.inj hvalid hu' hop
    exact ⟨e, he, hsame⟩

/-! ## Two passes over three blocks -/

instance (i : ι) (s : Shared ι) : DecidablePred (SparesMarked i s)
  | .store (.upsertUtxos us) => inferInstanceAs (Decidable (∀ u ∈ us,
      ∀ e ∈ s.stores.utxos.entryAt u.outpoint, ∀ h ∈ e.spentHeight, h ≤ s.tips i))
  | .chain _ | .store (.storeBlock ..) | .store .syncedTip | .store (.setSyncedTip _)
  | .store (.blockHashAt _) | .store (.blocksRollbackAbove _) | .store (.markSpent ..)
  | .store .unspentOutpoints | .store (.utxosRollbackAbove _) => .isTrue trivial

/-- The node has grown to `N` when a pass in `late` reads it. -/
def growStep (N : List Block) (late : ι → Bool) (i : ι) (s : Shared ι) :
    (op : SyncOp) → Except SyncError op.Res × Shared ι
  | .chain op =>
      let node : MockChainSource := if late i then ⟨N⟩ else s.node
      if s.node.chain <+: node.chain ∧ node.chain <+: N then
        match node.answer op with
        | .ok v => (.ok v, s.read i node op v)
        | .error e => (.error e, s)
      else (.error (.chainSource "unavailable"), s)
  | .store op => (.ok (op.exec s.stores).1, s.write op)

theorem growingEnv_growStep (N : List Block) (late : ι → Bool) (i : ι) (s : Shared ι)
    (op : SyncOp) :
    growingEnv N i s op (growStep N late i s op).1 (growStep N late i s op).2 := by
  cases op with
  | store op => exact ⟨rfl, rfl⟩
  | chain op =>
      unfold growStep
      generalize (if late i then ⟨N⟩ else s.node : MockChainSource) = node
      dsimp only
      by_cases hnode : s.node.chain <+: node.chain ∧ node.chain <+: N
      · rw [if_pos hnode]
        cases hanswer : node.answer op with
        | ok v => exact ⟨node, hnode.1, hnode.2, hanswer, rfl⟩
        | error e => exact rfl
      · rw [if_neg hnode]
        exact rfl

/-- Empty stores, with the node at the second block. -/
def twoBlockStart : Shared Bool := ⟨⟨threeBlocks.take 2⟩, Stores.new, fun _ => 0⟩

theorem holds_twoBlockStart :
    Holds plainEngine twoBlockStart.stores (History.scannedBy plainEngine []) [] :=
  represents_new.holds _

/-- Two passes. The one called `true` finds the third block. -/
def runTwoPasses (ok : Bool → Shared Bool → SyncOp → Bool) (schedule : List Bool) :
    (Bool → SyncProg SyncSummary) × Shared Bool :=
  Prog.runSchedule (growStep threeBlocks id) ok schedule (fun _ => plainEngine.sync) twoBlockStart

/-- Both capture the payment before `true` gets to the spend. -/
def bothCaptured : (Bool → SyncProg SyncSummary) × Shared Bool :=
  runTwoPasses (fun i s op => decide (SparesMarked i s op))
    (List.replicate 10 false ++ List.replicate 10 true ++ List.replicate 2 false
      ++ List.replicate 6 true)

theorem overlapping_passes_keep_bothCaptured : ∃ t,
    bothCaptured.2.stores.blocks.syncedTip = some t ∧
      (∀ o e h, bothCaptured.2.stores.utxos.entryAt o = some e → h ≤ t.height →
        SpentIn bothCaptured.2.node.chain h o → e.utxo.isSpent = true) ∧
      ∀ h u, h ≤ t.height → Watched plainEngine bothCaptured.2.node.chain h u → ∃ e,
        bothCaptured.2.stores.utxos.entryAt u.outpoint = some e ∧
          { e.utxo with isSpent := false } = u := by
  have hrun : Prog.PoolRun (growingEnv threeBlocks) SparesMarked (fun _ => plainEngine.sync)
      twoBlockStart bothCaptured.1 bothCaptured.2 :=
    Prog.poolRun_runSchedule (growingEnv_growStep threeBlocks id)
      (fun _ _ _ hok => of_decide_eq_true hok) _ _ _
  have hdone : ∀ i, ∃ summary, bothCaptured.1 i = .ret summary
    | false => ⟨{ blocksScanned := 2, utxosCaptured := 1 }, rfl⟩
    | true => ⟨{ blocksScanned := 3, utxosCaptured := 1, utxosSpent := 1 }, rfl⟩
  exact overlapping_passes_keep (validChain_threeBlocks _ (List.mem_singleton.mpr rfl)) (by decide)
    holds_twoBlockStart List.nil_prefix (List.take_prefix ..) (fun _ _ he => nomatch he) hrun hdone

/-- `false` captures the payment after `true` has marked it spent. -/
def recapturedLast : (Bool → SyncProg SyncSummary) × Shared Bool :=
  runTwoPasses (fun _ _ _ => true)
    (List.replicate 9 false ++ List.replicate 14 true ++ List.replicate 3 false
      ++ List.replicate 2 true)

/-- Without the condition a spend may be lost: the cursor is above the
block that spends the payment, and the record is not marked. -/
theorem overlap_loses_spend : ¬∀ (E : BlockScanEngine PlainDescriptor) (N : List Block),
    ValidChain N → (N.map (·.blockHash)).Nodup → ∀ (s s' : Shared Bool) (bs Y : List Block),
    Holds E s.stores (History.scannedBy E bs) Y → bs ++ Y <+: s.node.chain → s.node.chain <+: N →
    (∀ o e, s.stores.utxos.entryAt o = some e → e.utxo.isSpent = true → e.spentHeight.isSome) →
    ∀ P : Bool → SyncProg SyncSummary,
    Prog.PoolRun (growingEnv N) (fun _ _ _ => True) (fun _ => E.sync) s P s' →
    (∀ i, ∃ summary, P i = .ret summary) →
    ∃ t, s'.stores.blocks.syncedTip = some t ∧
      (∀ o e h, s'.stores.utxos.entryAt o = some e → h ≤ t.height →
        SpentIn s'.node.chain h o → e.utxo.isSpent = true) ∧
      ∀ h u, h ≤ t.height → Watched E s'.node.chain h u → ∃ e,
        s'.stores.utxos.entryAt u.outpoint = some e ∧ { e.utxo with isSpent := false } = u := by
  intro hgeneral
  have hrun : Prog.PoolRun (growingEnv threeBlocks) (fun _ _ _ => True)
      (fun _ => plainEngine.sync) twoBlockStart recapturedLast.1 recapturedLast.2 :=
    Prog.poolRun_runSchedule (growingEnv_growStep threeBlocks id) (fun _ _ _ _ => trivial) _ _ _
  have hdone : ∀ i, ∃ summary, recapturedLast.1 i = .ret summary
    | false => ⟨{ blocksScanned := 2, utxosCaptured := 1 }, rfl⟩
    | true => ⟨{ blocksScanned := 3, utxosCaptured := 1, utxosSpent := 1 }, rfl⟩
  obtain ⟨t, ht, hmarked, -⟩ := hgeneral plainEngine threeBlocks
    (validChain_threeBlocks _ (List.mem_singleton.mpr rfl)) (by decide) _ _ [] []
    holds_twoBlockStart List.nil_prefix (List.take_prefix ..) (fun _ _ he => nomatch he)
      _ hrun hdone
  have hcursor : recapturedLast.2.stores.blocks.syncedTip = some ⟨2, ⟨12⟩⟩ := rfl
  obtain rfl := Option.some.inj (hcursor.symm.trans ht)
  have hunmarked : (recapturedLast.2.stores.utxos.entryAt ⟨⟨100⟩, 0⟩).map (·.utxo.isSpent)
      = some false := rfl
  obtain ⟨e, he, hflag⟩ := Option.map_eq_some_iff.mp hunmarked
  have hspent : SpentIn recapturedLast.2.node.chain 2 ⟨⟨100⟩, 0⟩ := ⟨threeBlocks[2], rfl, by decide⟩
  exact Bool.false_ne_true (hflag.symm.trans (hmarked _ e 2 he (Nat.le_refl 2) hspent))

end EmvaultElements
