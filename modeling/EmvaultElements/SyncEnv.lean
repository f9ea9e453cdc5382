import EmvaultElements.Scan

/-!
# Who answers the calls of a pass

`MockChainSource` answers the calls to the chain source from a list of
blocks, the in-memory stores answer the rest (`StoreOp.exec`). A pass
against a node that does not move runs in `memEnv node faulty`: every
call is answered that way, and a call in `faulty` may also fail, with
any error and no effect. With nothing faulty this is `memStep`.
-/

namespace EmvaultElements

/-! ## The chain source -/

/-- A scripted chain source: the active chain, index = height. -/
structure MockChainSource where
  chain : List Block
deriving DecidableEq

namespace MockChainSource

def new : MockChainSource := ⟨[]⟩

def pushBlock (self : MockChainSource) (block : Block) : MockChainSource :=
  ⟨self.chain ++ [block]⟩

/-- Truncate the active chain so that its tip is at `height`. -/
def reorgTo (self : MockChainSource) (height : Nat) : MockChainSource :=
  ⟨self.chain.take (height + 1)⟩

def tipHeight (self : MockChainSource) : Except SyncError Nat :=
  if self.chain.isEmpty then .error (.chainSource "empty chain")
  else if self.chain.length - 1 < UInt32.size then .ok (self.chain.length - 1)
  else .error (.chainSource "chain too long")

def blockHash (self : MockChainSource) (height : Nat) : Except SyncError BlockHash :=
  match self.chain[height]? with
  | some b => .ok b.blockHash
  | none => .error (.chainSource ("no block at height " ++ toString height))

def block (self : MockChainSource) (hash : BlockHash) : Except SyncError Block :=
  match self.chain.find? (·.blockHash == hash) with
  | some b => .ok b
  | none => .error (.chainSource ("no block with hash " ++ toString hash.digest))

def answer (self : MockChainSource) : (op : ChainOp) → Except SyncError op.Res
  | .tipHeight => self.tipHeight
  | .blockHash height => self.blockHash height
  | .block hash => self.block hash

theorem blockHash_eq_ok {self : MockChainSource} {height : Nat} {hash : BlockHash} :
    self.blockHash height = .ok hash ↔
      ∃ b, self.chain[height]? = some b ∧ b.blockHash = hash := by
  unfold blockHash
  split
  · next b hb => simp [hb]
  · next hb => simp [hb]

theorem block_eq_ok {self : MockChainSource} {hash : BlockHash} {b : Block}
    (h : self.block hash = .ok b) : b ∈ self.chain ∧ b.blockHash = hash := by
  unfold block at h
  split at h
  · next b' hfind =>
      cases h
      exact ⟨List.mem_of_find?_eq_some hfind, by simpa using List.find?_some hfind⟩
  · cases h

theorem tipHeight_eq_ok {self : MockChainSource} {tip : Nat} :
    self.tipHeight = .ok tip ↔ self.chain.length = tip + 1 ∧ tip < UInt32.size := by
  unfold tipHeight
  split
  · next h =>
      rw [List.isEmpty_iff.mp h]
      simp
  · next h =>
      have hpos : 0 < self.chain.length :=
        List.length_pos_iff.mpr fun hnil => h (List.isEmpty_iff.mpr hnil)
      split
      · simp only [Except.ok.injEq]
        omega
      · simp only [reduceCtorEq, false_iff]
        omega

end MockChainSource

/-! ## The stores -/

/-- The in-memory stores answer every call. -/
def StoreOp.exec : (op : StoreOp) → Stores → op.Res × Stores
  | .storeBlock height hash raw, s => ((), { s with blocks := s.blocks.storeBlock height hash raw })
  | .syncedTip, s => (s.blocks.syncedTip, s)
  | .setSyncedTip tip, s => ((), { s with blocks := s.blocks.setSyncedTip tip })
  | .blockHashAt height, s => (s.blocks.blockHashAt height, s)
  | .blocksRollbackAbove height, s => ((), { s with blocks := s.blocks.rollbackAbove height })
  | .upsertUtxos utxos, s => ((), { s with utxos := s.utxos.upsertUtxos utxos })
  | .markSpent outpoints spentHeight, s =>
      ((), { s with utxos := s.utxos.markSpent outpoints spentHeight })
  | .unspentOutpoints, s => (s.utxos.unspentOutpoints, s)
  | .utxosRollbackAbove height, s => ((), { s with utxos := s.utxos.rollbackAbove height })

/-! ## The environment of a pass -/

def memStep (node : MockChainSource) (s : Stores) :
    (op : SyncOp) → Except SyncError op.Res × Stores
  | .chain op => (node.answer op, s)
  | .store op => (.ok (op.exec s).1, (op.exec s).2)

/-- The calls in `faulty` may fail, with no effect. -/
def memEnv (node : MockChainSource) (faulty : SyncOp → Prop) :
    Prog.Env Stores SyncError SyncOp SyncOp.Res := fun s op r s' =>
  (r, s') = memStep node s op ∨ (faulty op ∧ s' = s ∧ ∃ e, r = .error e)

/-- Nothing is faulty. -/
def noFault : SyncOp → Prop := fun _ => False

variable {node : MockChainSource} {faulty : SyncOp → Prop} {α β : Type}

theorem memEnv_total (s : Stores) (op : SyncOp) : ∃ r s', memEnv node faulty s op r s' :=
  ⟨_, _, .inl rfl⟩

theorem exec_memStep {p : SyncProg α} {s : Stores} {o : Outcome SyncError α}
    (ho : (Prog.run (memStep node) p s).1 = o) :
    Prog.Exec (memEnv node faulty) p s o (Prog.run (memStep node) p s).2 :=
  ho ▸ Prog.exec_run (fun _ _ => .inl rfl) p s

theorem failsAt_memStep (bad : SyncOp → Bool) {p : SyncProg α} {s s' : Stores} {op : SyncOp}
    (h : Prog.runUntil (memStep node) bad p s = some (op, s')) :
    Prog.FailsAt (memEnv node faulty) p s op s' :=
  Prog.failsAt_runUntil (fun _ _ => .inl rfl) h

/-- The error of a call to a service that is down. -/
def SyncOp.unavailable : SyncOp → SyncError
  | .chain _ => .chainSource "unavailable"
  | .store _ => .store "unavailable"

/-- The calls in `bad` do fail. -/
def failStep (node : MockChainSource) (bad : SyncOp → Bool) (s : Stores) (op : SyncOp) :
    Except SyncError op.Res × Stores :=
  if bad op then (.error op.unavailable, s) else memStep node s op

theorem exec_failStep {bad : SyncOp → Bool} (hbad : ∀ op, bad op = true → faulty op)
    {p : SyncProg α} {s : Stores} {o : Outcome SyncError α}
    (ho : (Prog.run (failStep node bad) p s).1 = o) :
    Prog.Exec (memEnv node faulty) p s o (Prog.run (failStep node bad) p s).2 := by
  rw [← ho]
  refine Prog.exec_run ?_ p s
  intro s' op
  unfold failStep
  split
  · next h => exact .inr ⟨hbad op h, rfl, _, rfl⟩
  · exact .inl rfl

theorem wp_callChain {op : ChainOp} {Q : Outcome SyncError op.Res → Stores → Prop} {s : Stores} :
    Prog.wp (memEnv node faulty) (callChain op) Q s ↔
      (∀ v, node.answer op = .ok v → Q (.ok v) s)
        ∧ (∀ e, node.answer op = .error e → Q (.err e) s)
        ∧ (faulty (.chain op) → ∀ e, Q (.err e) s) := by
  simp only [callChain, Prog.wp_perform, memEnv, memStep, Prod.mk.injEq]
  constructor
  · rintro ⟨hok, herr⟩
    exact ⟨fun v hv => hok v s (.inl ⟨hv.symm, rfl⟩), fun e he => herr e s (.inl ⟨he.symm, rfl⟩),
      fun hf e => herr e s (.inr ⟨hf, rfl, e, rfl⟩)⟩
  · rintro ⟨hok, herr, hfault⟩
    refine ⟨?_, ?_⟩
    · rintro v s' (⟨hv, rfl⟩ | ⟨-, rfl, e, he⟩)
      · exact hok v hv.symm
      · cases he
    · rintro e s' (⟨he, rfl⟩ | ⟨hf, rfl, -⟩)
      · exact herr e he.symm
      · exact hfault hf e

theorem wp_callStore {op : StoreOp} {Q : Outcome SyncError op.Res → Stores → Prop} {s : Stores} :
    Prog.wp (memEnv node faulty) (callStore op) Q s ↔
      Q (.ok (op.exec s).1) (op.exec s).2 ∧ (faulty (.store op) → ∀ e, Q (.err e) s) := by
  simp only [callStore, Prog.wp_perform, memEnv, memStep, Prod.mk.injEq]
  constructor
  · rintro ⟨hok, herr⟩
    exact ⟨hok _ _ (.inl ⟨rfl, rfl⟩), fun hf e => herr e s (.inr ⟨hf, rfl, e, rfl⟩)⟩
  · rintro ⟨hok, hfault⟩
    refine ⟨?_, ?_⟩
    · rintro v s' (⟨hv, rfl⟩ | ⟨-, rfl, e, he⟩)
      · cases hv
        exact hok
      · cases he
    · rintro e s' (⟨he, -⟩ | ⟨hf, rfl, -⟩)
      · cases he
      · exact hfault hf e

/-- A call to the chain source at the head of a program. -/
theorem wp_callChain_bind {op : ChainOp} {v : op.Res} {f : op.Res → SyncProg β}
    {Q : Outcome SyncError β → Stores → Prop} {s : Stores} (hv : node.answer op = .ok v)
    (hok : Prog.wp (memEnv node faulty) (f v) Q s)
    (herr : faulty (.chain op) → ∀ e, Q (.err e) s) :
    Prog.wp (memEnv node faulty) (callChain op >>= f) Q s := by
  rw [Prog.wp_bind, wp_callChain, hv]
  refine ⟨?_, ?_, herr⟩
  · intro v' hv'
    cases hv'
    exact hok
  · intro e he
    cases he

/-- A call to a store at the head of a program. -/
theorem wp_callStore_bind {op : StoreOp} {f : op.Res → SyncProg β}
    {Q : Outcome SyncError β → Stores → Prop} {s : Stores}
    (hok : Prog.wp (memEnv node faulty) (f (op.exec s).1) Q (op.exec s).2)
    (herr : faulty (.store op) → ∀ e, Q (.err e) s) :
    Prog.wp (memEnv node faulty) (callStore op >>= f) Q s := by
  rw [Prog.wp_bind, wp_callStore]
  exact ⟨hok, herr⟩

/-- A call that is skipped when it would do nothing. -/
theorem wp_callStore_ite {op : StoreOp} {c : Prop} [Decidable c] {p : SyncProg β}
    {Q : Outcome SyncError β → Stores → Prop} {s : Stores} (hskip : ¬c → (op.exec s).2 = s)
    (hok : Prog.wp (memEnv node faulty) p Q (op.exec s).2)
    (herr : faulty (.store op) → ∀ e, Q (.err e) s) :
    Prog.wp (memEnv node faulty) (if c then callStore op >>= fun _ => p else p) Q s := by
  split
  · exact wp_callStore_bind hok herr
  · next hc =>
      rw [hskip hc] at hok
      exact hok

theorem wp_heightSucc {env : Prog.Env Stores SyncError SyncOp SyncOp.Res} {h : Nat}
    {Q : Outcome SyncError Nat → Stores → Prop} {s : Stores} :
    Prog.wp env (heightSucc h) Q s ↔
      (h + 1 < UInt32.size → Q (.ok (h + 1)) s) ∧ (UInt32.size ≤ h + 1 → Q .panic s) := by
  unfold heightSucc
  split
  · next hlt =>
      rw [Prog.wp_pure]
      exact ⟨fun hQ => ⟨fun _ => hQ, fun hge => absurd hlt (Nat.not_lt.mpr hge)⟩, fun h => h.1 hlt⟩
  · next hge =>
      rw [Prog.wp_panic]
      exact ⟨fun hQ => ⟨fun hlt => absurd hlt hge, fun _ => hQ⟩, fun h => h.2 (Nat.not_lt.mp hge)⟩

end EmvaultElements
