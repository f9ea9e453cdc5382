import Mathlib.Data.List.Basic

/-!
# Ledgers of created and spent records

A *ledger* keeps one slot per key: the record created at the key, the
height it was created at, and whether (and at which height) it was
spent. Batches of creations and spends arrive at consecutive heights.

`ledger bs` is what a list of batches means: a record for every key
some batch creates, spent at the first batch that spends it. The
operations of a store that follows the batches are `capture` and
`settle` (together `scan`) and `rollbackAbove`. `Valid` batches create
nothing twice and spend nothing before it is created.

This file has the definitions and the lemmas about creations and
spends along a list; `LedgerScan` relates the operations to the
meaning.
-/

namespace EmvaultElements

namespace Ledger

variable {K R : Type}

/-- A stored record: where it was created, and its spend state, kept
twice as a flag and a height. -/
@[ext] structure Slot (R : Type) where
  record : R
  height : Nat
  isSpent : Bool
  spentHeight : Option Nat

/-- What happens at one height: the records created, the keys spent. -/
structure Batch (K R : Type) where
  creates : K → Option R
  spends : K → Bool

/-- The contents of a store, as a function of the key. -/
abbrev View (K R : Type) : Type := K → Option (Slot R)

/-! ## Operations on a view -/

def Slot.mark (h : Nat) (s : Slot R) : Slot R :=
  { s with isSpent := true, spentHeight := some h }

/-- Record what the batch at height `h` creates. A slot that exists
already is overwritten but keeps its recorded spend height. -/
def capture (h : Nat) (b : Batch K R) (v : View K R) : View K R := fun k =>
  match b.creates k with
  | some r => some ⟨r, h, false, (v k).bind Slot.spentHeight⟩
  | none => v k

/-- Mark the unspent slots the batch at height `h` spends. -/
def settle (h : Nat) (b : Batch K R) (v : View K R) : View K R := fun k =>
  (v k).map fun s => if b.spends k && !s.isSpent then s.mark h else s

def scan (h : Nat) (b : Batch K R) (v : View K R) : View K R :=
  settle h b (capture h b v)

/-- Scan the batches at heights `n`, `n + 1`, … -/
def scanFrom : Nat → List (Batch K R) → View K R → View K R
  | _, [], v => v
  | n, b :: bs, v => scanFrom (n + 1) bs (scan n b v)

/-- Forget the spend when it happened above `a`. -/
def Slot.unspendAbove (a : Nat) (s : Slot R) : Slot R :=
  if s.spentHeight.any (a < ·) then { s with isSpent := false, spentHeight := none } else s

/-- Drop what was created above `a`, and forget the spends above `a`. -/
def rollbackAbove (a : Nat) (v : View K R) : View K R := fun k =>
  ((v k).filter fun s => s.height ≤ a).map (Slot.unspendAbove a)

/-! ## What a list of batches means -/

/-- The first creation of `k` in batches at heights `n`, `n + 1`, … -/
def createdFrom : Nat → List (Batch K R) → K → Option (Nat × R)
  | _, [], _ => none
  | n, b :: bs, k => ((b.creates k).map fun r => (n, r)).or (createdFrom (n + 1) bs k)

/-- The first spend of `k` in batches at heights `n`, `n + 1`, … -/
def spentFrom : Nat → List (Batch K R) → K → Option Nat
  | _, [], _ => none
  | n, b :: bs, k => if b.spends k then some n else spentFrom (n + 1) bs k

def createdAt (bs : List (Batch K R)) (k : K) : Option (Nat × R) := createdFrom 0 bs k

def spentAt (bs : List (Batch K R)) (k : K) : Option Nat := spentFrom 0 bs k

/-- The view a list of batches, at heights `0`, `1`, …, stands for. -/
def ledger (bs : List (Batch K R)) : View K R := fun k =>
  (createdAt bs k).map fun c => ⟨c.2, c.1, (spentAt bs k).isSome, spentAt bs k⟩

/-- What a later batch creates, an earlier one has neither created nor
spent. -/
def Valid (bs : List (Batch K R)) : Prop :=
  bs.Pairwise fun b b' => ∀ k, (b'.creates k).isSome → b.creates k = none ∧ b.spends k = false

theorem Valid.sublist {bs bs' : List (Batch K R)} (h : Valid bs) (hsub : bs'.Sublist bs) :
    Valid bs' := List.Pairwise.sublist hsub h

/-! ## Creations and spends along a list -/

theorem createdFrom_append (k : K) : ∀ (n : Nat) (bs bs' : List (Batch K R)),
    createdFrom n (bs ++ bs') k = (createdFrom n bs k).or (createdFrom (n + bs.length) bs' k)
  | n, [], bs' => by simp [createdFrom]
  | n, b :: bs, bs' => by
      rw [List.cons_append, createdFrom, createdFrom, createdFrom_append k (n + 1) bs bs',
        Option.or_assoc, List.length_cons, Nat.add_right_comm, Nat.add_assoc]

theorem spentFrom_append (k : K) : ∀ (n : Nat) (bs bs' : List (Batch K R)),
    spentFrom n (bs ++ bs') k = (spentFrom n bs k).or (spentFrom (n + bs.length) bs' k)
  | n, [], bs' => by simp [spentFrom]
  | n, b :: bs, bs' => by
      rw [List.cons_append, spentFrom, spentFrom]
      by_cases hb : b.spends k
      · simp [hb]
      · rw [if_neg hb, if_neg hb, spentFrom_append k (n + 1) bs bs', List.length_cons,
          Nat.add_right_comm, Nat.add_assoc]

theorem createdFrom_bounds {k : K} : ∀ {n : Nat} {bs : List (Batch K R)} {c : Nat × R},
    createdFrom n bs k = some c → n ≤ c.1 ∧ c.1 < n + bs.length
  | n, [], c, h => by simp [createdFrom] at h
  | n, b :: bs, c, h => by
      rw [createdFrom, Option.or_eq_some_iff] at h
      rcases h with h | ⟨-, h⟩
      · obtain ⟨r, -, rfl⟩ := Option.map_eq_some_iff.mp h
        simp
      · have := createdFrom_bounds h
        simp only [List.length_cons]
        omega

theorem spentFrom_bounds {k : K} : ∀ {n h : Nat} {bs : List (Batch K R)},
    spentFrom n bs k = some h → n ≤ h ∧ h < n + bs.length
  | n, h, [], hs => by simp [spentFrom] at hs
  | n, h, b :: bs, hs => by
      rw [spentFrom] at hs
      simp only [List.length_cons]
      split at hs
      · cases hs; omega
      · have := spentFrom_bounds hs
        omega

theorem createdFrom_eq_none {n : Nat} {bs : List (Batch K R)} {k : K} :
    createdFrom n bs k = none ↔ ∀ b ∈ bs, b.creates k = none := by
  induction bs generalizing n with
  | nil => simp [createdFrom]
  | cons b bs ih => simp [createdFrom, ih]

theorem spentFrom_eq_none {n : Nat} {bs : List (Batch K R)} {k : K} :
    spentFrom n bs k = none ↔ ∀ b ∈ bs, b.spends k = false := by
  induction bs generalizing n with
  | nil => simp [spentFrom]
  | cons b bs ih =>
      by_cases hb : b.spends k <;> simp [spentFrom, ih, hb]

theorem spentFrom_eq (k : K) : ∀ (n : Nat) (bs : List (Batch K R)),
    spentFrom n bs k = (bs.findIdx? (·.spends k)).map (n + ·)
  | _, [] => rfl
  | n, b :: bs => by
      rw [spentFrom, List.findIdx?_cons]
      by_cases hb : b.spends k
      · simp [hb]
      · simp [hb, spentFrom_eq k (n + 1) bs, Function.comp_def, Nat.add_comm, Nat.add_left_comm]

/-- In valid batches, the creation of a key is the one there is. -/
theorem createdFrom_eq_some_iff {k : K} {h : Nat} {r : R} : ∀ {n : Nat} {bs : List (Batch K R)},
    Valid bs → (createdFrom n bs k = some (h, r) ↔
      ∃ i b, bs[i]? = some b ∧ h = n + i ∧ b.creates k = some r)
  | n, [], _ => by simp [createdFrom]
  | n, b :: bs, hvalid => by
      have htail : Valid bs := hvalid.sublist (List.sublist_cons_self b bs)
      have ih := createdFrom_eq_some_iff (n := n + 1) (h := h) (r := r) (k := k) htail
      rw [createdFrom]
      constructor
      · intro hc
        rcases Option.or_eq_some_iff.mp hc with hc | ⟨-, hc⟩
        · obtain ⟨r', hr', heq⟩ := Option.map_eq_some_iff.mp hc
          cases heq
          exact ⟨0, b, rfl, rfl, hr'⟩
        · obtain ⟨i, b', hb', rfl, hr⟩ := ih.mp hc
          exact ⟨i + 1, b', hb', by omega, hr⟩
      · rintro ⟨i, b', hb', rfl, hr⟩
        cases i with
        | zero =>
            cases hb'
            rw [hr]
            rfl
        | succ i =>
            rw [List.getElem?_cons_succ] at hb'
            have hnone := ((List.pairwise_cons.mp hvalid).1 b' (List.mem_of_getElem? hb') k
              (Option.isSome_of_eq_some hr)).1
            rw [hnone, Option.map_none, Option.none_or]
            exact ih.mpr ⟨i, b', hb', by omega, hr⟩

/-- In valid batches, what the later half creates the earlier half
neither creates nor spends. -/
theorem Valid.created_right {pre post : List (Batch K R)} (hvalid : Valid (pre ++ post))
    {n m : Nat} {k : K} (h : (createdFrom n post k).isSome) :
    createdFrom m pre k = none ∧ spentFrom m pre k = none := by
  obtain ⟨b', hb', hcreates⟩ : ∃ b' ∈ post, (b'.creates k).isSome := by
    by_contra hno
    have : createdFrom n post k = none :=
      createdFrom_eq_none.mpr fun b hb => by
        by_contra hne
        exact hno ⟨b, hb, Option.isSome_iff_ne_none.mpr hne⟩
    simp [this] at h
  have hpair := (List.pairwise_append.mp hvalid).2.2
  exact ⟨createdFrom_eq_none.mpr fun b hb => (hpair b hb b' hb' k hcreates).1,
    spentFrom_eq_none.mpr fun b hb => (hpair b hb b' hb' k hcreates).2⟩

/-- What the earlier half creates, the later half does not. -/
theorem Valid.created_left {pre post : List (Batch K R)} (hvalid : Valid (pre ++ post)) {n : Nat}
    {k : K} {c : Nat × R} (h : createdAt pre k = some c) : createdFrom n post k = none := by
  by_contra hne
  have hpre := (hvalid.created_right (m := 0) (Option.isSome_iff_ne_none.mpr hne)).1
  rw [createdAt, hpre] at h
  cases h

theorem createdAt_append (pre post : List (Batch K R)) (k : K) :
    createdAt (pre ++ post) k = (createdAt pre k).or (createdFrom pre.length post k) := by
  rw [createdAt, createdFrom_append, Nat.zero_add, createdAt]

theorem spentAt_append (pre post : List (Batch K R)) (k : K) :
    spentAt (pre ++ post) k = (spentAt pre k).or (spentFrom pre.length post k) := by
  rw [spentAt, spentFrom_append, Nat.zero_add, spentAt]

/-- What the slot of a ledger says. -/
theorem ledger_eq_some {bs : List (Batch K R)} {k : K} {s : Slot R} (h : ledger bs k = some s) :
    createdAt bs k = some (s.height, s.record) ∧ spentAt bs k = s.spentHeight ∧
      s.isSpent = s.spentHeight.isSome := by
  obtain ⟨c, hc, rfl⟩ := Option.map_eq_some_iff.mp h
  exact ⟨hc, rfl, rfl⟩

theorem createdAt_lt {bs : List (Batch K R)} {k : K} {c : Nat × R} (h : createdAt bs k = some c) :
    c.1 < bs.length := by
  have := createdFrom_bounds h
  omega

theorem spentAt_lt {bs : List (Batch K R)} {k : K} {h : Nat} (hs : spentAt bs k = some h) :
    h < bs.length := by
  have := spentFrom_bounds hs
  omega

/-- Truncating the batches keeps the creations below the cut. -/
theorem createdAt_take (bs : List (Batch K R)) (n : Nat) (k : K) :
    createdAt (bs.take n) k = (createdAt bs k).filter fun c => c.1 < n := by
  conv => rhs; rw [← List.take_append_drop n bs, createdAt_append]
  cases hpre : createdAt (bs.take n) k with
  | some c =>
      have hlt := createdAt_lt hpre
      rw [List.length_take] at hlt
      simp [Option.filter, show c.1 < n by omega]
  | none =>
      cases hpost : createdFrom (bs.take n).length (bs.drop n) k with
      | none => rfl
      | some c =>
          have hb := createdFrom_bounds hpost
          rw [List.length_take, List.length_drop] at hb
          simp [Option.filter, show ¬c.1 < n by omega]

theorem spentAt_take (bs : List (Batch K R)) (n : Nat) (k : K) :
    spentAt (bs.take n) k = (spentAt bs k).filter fun h => h < n := by
  conv => rhs; rw [← List.take_append_drop n bs, spentAt_append]
  cases hpre : spentAt (bs.take n) k with
  | some h =>
      have hlt := spentAt_lt hpre
      rw [List.length_take] at hlt
      simp [Option.filter, show h < n by omega]
  | none =>
      cases hpost : spentFrom (bs.take n).length (bs.drop n) k with
      | none => rfl
      | some h =>
          have hb := spentFrom_bounds hpost
          rw [List.length_take, List.length_drop] at hb
          simp [Option.filter, show ¬h < n by omega]

end Ledger

end EmvaultElements
