import Mathlib.Data.Nat.Find
import EmvaultElements.Runs

/-!
# The search for a common ancestor

`find_common_ancestor` goes down from the cursor until the store and the
node have the same hash. `ancestorLoop` is the loop of the source, with
the rounds it may take and the subtraction on a `u32`; it is done after
at most one round for each height (`ancestorLoop_eq`).

The answer is the highest height that matches when one does. At height
zero the loop returns whether it matches or not, so without any match it
answers zero (`ancestor_correct_iff`).
-/

namespace EmvaultElements

namespace BlockScanEngine

/-! ## The loop -/

/-- `h -= 1` on a `u32`. -/
def heightPred (h : Nat) : SyncProg Nat := if h = 0 then Prog.panic else pure (h - 1)

/-- The loop from `h` on, for a number of rounds; `none` when it is not
done by then. -/
def ancestorLoop : Nat → Nat → SyncProg (Option Nat)
  | 0, _ => return none
  | rounds + 1, h => do
      if ← sameHashAt h then return some h
      if h = 0 then return some 0
      ancestorLoop rounds (← heightPred h)

/-- With a round for every height the loop is done, and it has not
subtracted from zero. -/
theorem ancestorLoop_eq : ∀ {rounds h : Nat}, h < rounds →
    ancestorLoop rounds h = findCommonAncestor h >>= fun a => pure (some a)
  | rounds + 1, 0, _ => by
      rw [ancestorLoop, findCommonAncestor, bind_assoc]
      refine bind_congr fun same => ?_
      cases same <;> rfl
  | rounds + 1, h + 1, hlt => by
      rw [ancestorLoop, findCommonAncestor, bind_assoc]
      refine bind_congr fun same => ?_
      cases same with
      | true => rfl
      | false => exact ancestorLoop_eq (Nat.lt_of_succ_lt_succ hlt)

/-! ## A store and a node -/

variable {σ : Type}

/-- From a state, the block store has the hashes `stored` and the chain
source the hashes `node`, for the heights up to `start`. A call may also
fail, in any way. -/
structure HashesUpTo (env : Prog.Env σ SyncError SyncOp SyncOp.Res) (s : σ)
    (stored : Nat → Option BlockHash) (node : Nat → BlockHash) (start : Nat) : Prop where
  stored : ∀ h, h ≤ start → ∀ hash s', env s (.store (.blockHashAt h)) (.ok hash) s' ↔
    hash = stored h ∧ s' = s
  node : ∀ h, h ≤ start → ∀ hash s', env s (.chain (.blockHash h)) (.ok hash) s' ↔
    hash = node h ∧ s' = s

/-- A block is stored at the height, with the node's hash. -/
def Common (stored : Nat → Option BlockHash) (node : Nat → BlockHash) (h : Nat) : Prop :=
  stored h = some (node h)

instance (stored : Nat → Option BlockHash) (node : Nat → BlockHash) (h : Nat) :
    Decidable (Common stored node h) := inferInstanceAs (Decidable (stored h = some (node h)))

/-- The highest common height up to `start`. -/
structure IsAncestor (stored : Nat → Option BlockHash) (node : Nat → BlockHash)
    (start a : Nat) : Prop where
  le : a ≤ start
  common : Common stored node a
  above : ∀ h, a < h → h ≤ start → ¬Common stored node h

variable {env : Prog.Env σ SyncError SyncOp SyncOp.Res} {s : σ}
  {stored : Nat → Option BlockHash} {node : Nat → BlockHash} {start : Nat}

theorem HashesUpTo.mono (hhashes : HashesUpTo env s stored node start) {h : Nat}
    (hle : h ≤ start) : HashesUpTo env s stored node h where
  stored h' hh' := hhashes.stored h' (Nat.le_trans hh' hle)
  node h' hh' := hhashes.node h' (Nat.le_trans hh' hle)

/-- A comparison that answers says whether the height is common. -/
theorem exec_sameHashAt_iff {h : Nat} (hhashes : HashesUpTo env s stored node h) {same : Bool}
    {s' : σ} : Prog.Exec env (sameHashAt h) s (.ok same) s' ↔
      (same = true ↔ Common stored node h) ∧ s' = s := by
  have hstored := hhashes.stored h (Nat.le_refl h)
  have hnode := hhashes.node h (Nat.le_refl h)
  have hanswer : Prog.Exec env (sameHashAt h) s (.ok same) s' ↔
      same = decide (stored h = some (node h)) ∧ s' = s := by
    constructor
    · intro hexec
      obtain ⟨hash, s₁, hcall, hrest⟩ := Prog.exec_bind hexec
      obtain ⟨rfl, rfl⟩ := (hstored hash s₁).mp (Prog.exec_perform.mp hcall)
      generalize stored h = found at hrest ⊢
      cases found with
      | none => exact Prog.exec_pure.mp hrest
      | some hash =>
          obtain ⟨nodeHash, s₂, hcall', hpure⟩ := Prog.exec_bind hrest
          obtain ⟨rfl, rfl⟩ := (hnode nodeHash s₂).mp (Prog.exec_perform.mp hcall')
          simpa using Prog.exec_pure.mp hpure
    · rintro ⟨rfl, rfl⟩
      refine Prog.Exec.seq (Prog.exec_perform.mpr ((hstored _ _).mpr ⟨rfl, rfl⟩)) ?_
      generalize stored h = found
      cases found with
      | none => exact .ret
      | some hash =>
          refine Prog.Exec.seq (Prog.exec_perform.mpr ((hnode _ _).mpr ⟨rfl, rfl⟩)) ?_
          exact Prog.exec_pure.mpr ⟨by simp, rfl⟩
  rw [hanswer, ← Bool.coe_iff_coe, decide_eq_true_iff]
  rfl

theorem exec_findCommonAncestor_zero (hhashes : HashesUpTo env s stored node 0) {a : Nat}
    {s' : σ} : Prog.Exec env (findCommonAncestor 0) s (.ok a) s' ↔ a = 0 ∧ s' = s := by
  constructor
  · intro hexec
    obtain ⟨same, s₁, hsame, hrest⟩ := Prog.exec_bind hexec
    obtain ⟨-, rfl⟩ := (exec_sameHashAt_iff hhashes).mp hsame
    split at hrest <;> exact Prog.exec_pure.mp hrest
  · rintro ⟨rfl, rfl⟩
    have hsame := (exec_sameHashAt_iff hhashes).mpr
      ⟨decide_eq_true_iff (p := Common stored node 0), rfl⟩
    refine hsame.seq ?_
    split <;> exact .ret

/-- One round: the search stops at a common height and goes down from
any other. -/
theorem exec_findCommonAncestor_succ {h : Nat} (hhashes : HashesUpTo env s stored node (h + 1))
    {a : Nat} {s' : σ} : Prog.Exec env (findCommonAncestor (h + 1)) s (.ok a) s' ↔
      if Common stored node (h + 1) then a = h + 1 ∧ s' = s
      else Prog.Exec env (findCommonAncestor h) s (.ok a) s' := by
  constructor
  · intro hexec
    obtain ⟨same, s₁, hfirst, hrest⟩ := Prog.exec_bind hexec
    obtain ⟨hsame, rfl⟩ := (exec_sameHashAt_iff hhashes).mp hfirst
    split at hrest
    · next htrue =>
        rw [if_pos (hsame.mp htrue)]
        exact Prog.exec_pure.mp hrest
    · next hfalse =>
        rw [if_neg fun hcommon => hfalse (hsame.mpr hcommon)]
        exact hrest
  · intro hexec
    have hsame := (exec_sameHashAt_iff hhashes).mpr
      ⟨decide_eq_true_iff (p := Common stored node (h + 1)), rfl⟩
    refine hsame.seq ?_
    by_cases hcommon : Common stored node (h + 1)
    · rw [if_pos hcommon] at hexec
      rw [if_pos (decide_eq_true hcommon)]
      exact Prog.exec_pure.mpr hexec
    · rw [if_neg hcommon] at hexec
      rw [if_neg (by rwa [decide_eq_true_iff])]
      exact hexec

/-- Every height up to `start` is missing in the store or differs. -/
def NoneCommon (stored : Nat → Option BlockHash) (node : Nat → BlockHash) (start : Nat) : Prop :=
  ∀ h, h ≤ start → ¬Common stored node h

theorem isAncestor_zero {a : Nat} :
    IsAncestor stored node 0 a ∨ a = 0 ∧ NoneCommon stored node 0 ↔ a = 0 := by
  constructor
  · rintro (hancestor | ⟨hzero, -⟩)
    · exact Nat.le_zero.mp hancestor.le
    · exact hzero
  · rintro rfl
    by_cases hcommon : Common stored node 0
    · exact .inl ⟨Nat.le_refl 0, hcommon, fun h hlt hle => absurd hlt (Nat.not_lt.mpr hle)⟩
    · refine .inr ⟨rfl, ?_⟩
      intro h hle
      rw [Nat.le_zero.mp hle]
      exact hcommon

theorem isAncestor_self {h a : Nat} (hcommon : Common stored node h) :
    IsAncestor stored node h a ↔ a = h := by
  constructor
  · intro hancestor
    by_contra hne
    exact hancestor.above h (Nat.lt_of_le_of_ne hancestor.le hne) (Nat.le_refl h) hcommon
  · rintro rfl
    exact ⟨Nat.le_refl a, hcommon, fun h hlt hle => absurd hlt (Nat.not_lt.mpr hle)⟩

theorem isAncestor_succ {h a : Nat} (hcommon : ¬Common stored node (h + 1)) :
    IsAncestor stored node (h + 1) a ↔ IsAncestor stored node h a := by
  constructor
  · intro hancestor
    have hne : a ≠ h + 1 := by
      rintro rfl
      exact hcommon hancestor.common
    exact ⟨Nat.le_of_lt_succ (Nat.lt_of_le_of_ne hancestor.le hne), hancestor.common,
      fun h' hlt hle => hancestor.above h' hlt (Nat.le_succ_of_le hle)⟩
  · intro hancestor
    refine ⟨Nat.le_succ_of_le hancestor.le, hancestor.common, ?_⟩
    intro h' hlt hle
    rcases Nat.le_succ_iff.mp hle with hle | rfl
    · exact hancestor.above h' hlt hle
    · exact hcommon

theorem exists_isAncestor {h : Nat} (hle : h ≤ start) (hcommon : Common stored node h) :
    ∃ a, IsAncestor stored node start a :=
  ⟨Nat.findGreatest (Common stored node) start, Nat.findGreatest_le start,
    Nat.findGreatest_spec hle hcommon, fun _ => Nat.findGreatest_is_greatest⟩

theorem noneCommon_succ {h : Nat} (hcommon : ¬Common stored node (h + 1)) :
    NoneCommon stored node (h + 1) ↔ NoneCommon stored node h := by
  constructor
  · exact fun hnone h' hle => hnone h' (Nat.le_succ_of_le hle)
  · intro hnone h' hle
    rcases Nat.le_succ_iff.mp hle with hle | rfl
    · exact hnone h' hle
    · exact hcommon

/-- Without an error the search ends at the highest common height, or at
zero when there is none. -/
theorem exec_findCommonAncestor_iff : ∀ {h : Nat}, HashesUpTo env s stored node h →
    ∀ {a : Nat} {s' : σ}, Prog.Exec env (findCommonAncestor h) s (.ok a) s' ↔
      (IsAncestor stored node h a ∨ a = 0 ∧ NoneCommon stored node h) ∧ s' = s
  | 0, hhashes, a, s' => by rw [exec_findCommonAncestor_zero hhashes, isAncestor_zero]
  | h + 1, hhashes, a, s' => by
      rw [exec_findCommonAncestor_succ hhashes]
      split
      · next hcommon =>
          have hsome : ¬NoneCommon stored node (h + 1) := fun hnone =>
            hnone (h + 1) (Nat.le_refl _) hcommon
          rw [isAncestor_self hcommon, or_iff_left fun hzero => hsome hzero.2]
      · next hcommon =>
          rw [isAncestor_succ hcommon, noneCommon_succ hcommon]
          exact exec_findCommonAncestor_iff (hhashes.mono (Nat.le_succ h))

theorem noPanic_sameHashAt {h : Nat} : Prog.NoPanic env (sameHashAt h) := by
  refine Prog.noPanic_perform.bind ?_
  intro stored
  cases stored with
  | none => exact Prog.noPanic_pure
  | some hash => exact Prog.noPanic_perform.bind fun _ => Prog.noPanic_pure

theorem noPanic_findCommonAncestor : ∀ {h : Nat}, Prog.NoPanic env (findCommonAncestor h)
  | 0 => noPanic_sameHashAt.bind fun _ => .ite Prog.noPanic_pure Prog.noPanic_pure
  | _ + 1 => noPanic_sameHashAt.bind fun _ => .ite Prog.noPanic_pure noPanic_findCommonAncestor

/-- The loop ends with what the search returns, or with the error of a
call. -/
theorem exec_ancestorLoop {rounds : Nat} (hlt : start < rounds)
    {o : Outcome SyncError (Option Nat)} {s' : σ}
    (hexec : Prog.Exec env (ancestorLoop rounds start) s o s') :
    (∃ a, o = .ok (some a) ∧ Prog.Exec env (findCommonAncestor start) s (.ok a) s') ∨
      ∃ e, o = .err e := by
  rw [ancestorLoop_eq hlt] at hexec
  rcases Prog.exec_bind_cases hexec with ⟨a, s₁, hsearch, hret⟩ | ⟨e, herr, -⟩ | ⟨-, hpanic⟩
  · cases hret
    exact .inl ⟨a, rfl, hsearch⟩
  · exact .inr ⟨e, herr⟩
  · exact absurd hpanic (noPanic_findCommonAncestor s s')

/-! ## Correctness -/

/-- The loop ends without an underflow, and what the search answers is
the highest common height. -/
structure SearchCorrect (env : Prog.Env σ SyncError SyncOp SyncOp.Res) (s : σ)
    (stored : Nat → Option BlockHash) (node : Nat → BlockHash) (start : Nat) : Prop where
  terminates : ∀ rounds, start < rounds →
    (∃ o s', Prog.Exec env (ancestorLoop rounds start) s o s') ∧
    ∀ o s', Prog.Exec env (ancestorLoop rounds start) s o s' →
      (∃ a, o = .ok (some a) ∧ Prog.Exec env (findCommonAncestor start) s (.ok a) s') ∨
        ∃ e, o = .err e
  found : ∀ a s', Prog.Exec env (findCommonAncestor start) s (.ok a) s' →
    IsAncestor stored node start a
  unmatched : NoneCommon stored node start →
    ∀ a s', ¬Prog.Exec env (findCommonAncestor start) s (.ok a) s'

/-- The search is correct exactly when some height is common. -/
theorem ancestor_correct_iff (hhashes : HashesUpTo env s stored node start) :
    SearchCorrect env s stored node start ↔ ∃ h, h ≤ start ∧ Common stored node h := by
  constructor
  · intro hcorrect
    by_contra hno
    have hnone : NoneCommon stored node start := fun h hle hcommon => hno ⟨h, hle, hcommon⟩
    have hzero := (exec_findCommonAncestor_iff hhashes).mpr ⟨.inr ⟨rfl, hnone⟩, rfl⟩
    exact hcorrect.unmatched hnone 0 s hzero
  · rintro ⟨h, hle, hcommon⟩
    refine ⟨?_, ?_, ?_⟩
    · intro rounds hlt
      obtain ⟨a, hancestor⟩ := exists_isAncestor hle hcommon
      have hsearch := (exec_findCommonAncestor_iff hhashes).mpr ⟨.inl hancestor, rfl⟩
      refine ⟨⟨.ok (some a), s, ?_⟩, fun o s' => exec_ancestorLoop hlt⟩
      rw [ancestorLoop_eq hlt]
      exact hsearch.seq .ret
    · intro a s' hexec
      rcases ((exec_findCommonAncestor_iff hhashes).mp hexec).1 with hancestor | ⟨-, hnone⟩
      · exact hancestor
      · exact absurd hcommon (hnone h hle)
    · exact fun hnone => absurd hcommon (hnone h hle)

end BlockScanEngine

/-! ## The in-memory store and source -/

/-- The node's hash at a height of its chain. -/
def MockChainSource.hashAt (self : MockChainSource) (h : Nat) : BlockHash :=
  match self.chain[h]? with
  | some b => b.blockHash
  | none => ⟨0⟩

theorem hashesUpTo_memEnv {node : MockChainSource} {faulty : SyncOp → Prop} {S : Stores}
    {start : Nat} (hlt : start < node.chain.length) : BlockScanEngine.HashesUpTo
      (memEnv node faulty) S S.blocks.blockHashAt node.hashAt start := by
  constructor
  · intro h hle hash s'
    simp only [memEnv, memStep, StoreOp.exec, Prod.mk.injEq, Except.ok.injEq, reduceCtorEq,
      exists_false, and_false, or_false]
  · intro h hle hash s'
    obtain ⟨b, hb⟩ : ∃ b, node.chain[h]? = some b :=
      ⟨_, List.getElem?_eq_getElem (Nat.lt_of_le_of_lt hle hlt)⟩
    have hanswer : node.answer (.blockHash h) = .ok b.blockHash :=
      MockChainSource.blockHash_eq_ok.mpr ⟨b, hb, rfl⟩
    simp only [memEnv, memStep, hanswer, MockChainSource.hashAt, hb, Prod.mk.injEq,
      Except.ok.injEq, reduceCtorEq, exists_false, and_false, or_false]

theorem ancestor_correct_iff_otherBranch : BlockScanEngine.SearchCorrect
    (memEnv otherBranch noFault) threeBlocksSynced threeBlocksSynced.blocks.blockHashAt
    otherBranch.hashAt 2 :=
  (BlockScanEngine.ancestor_correct_iff (hashesUpTo_memEnv (by decide))).mpr
    ⟨0, Nat.zero_le 2, rfl⟩

/-- A node with another genesis. -/
def foreignNode : MockChainSource :=
  ⟨[⟨⟨30⟩, ⟨0⟩, []⟩, ⟨⟨31⟩, ⟨30⟩, []⟩, ⟨⟨32⟩, ⟨31⟩, []⟩]⟩

/-- Nothing is common to store and node, and the answer is zero. -/
theorem unmatched_genesis_is_reported : ¬∀ (S : Stores) (node : MockChainSource) (start : Nat),
    start < node.chain.length → BlockScanEngine.SearchCorrect (memEnv node noFault) S
      S.blocks.blockHashAt node.hashAt start := by
  intro hgeneral
  have hcorrect := hgeneral threeBlocksSynced foreignNode 2 (by decide)
  have hzero : Prog.Exec (memEnv foreignNode noFault) (BlockScanEngine.findCommonAncestor 2)
      threeBlocksSynced (.ok 0) threeBlocksSynced := exec_memStep rfl
  have hcommon := (hcorrect.found 0 _ hzero).common
  cases hcommon

end EmvaultElements
