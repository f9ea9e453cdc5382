import EmvaultElements.Stores

/-!
# Histories of the UTXO store

What a sequence of operations makes of `MemUtxoStore`.

- `MarkedStore`: the store, and the spends it has been told of and has
  not been told to forget. A record that is captured again loses its
  spent flag and keeps its spend height, so the store forgets on its
  own; `spend_kept_iff` says which operations make it do so.
- `rollback_truncates`: a rollback leaves what the history would have
  left without the captures and the spends above its height. Here it
  does no harm that the flag is lost, since the height is not.
-/

namespace EmvaultElements

/-- An operation that writes to the UTXO store. -/
inductive UtxoOp where
  | upsertUtxos (utxos : List CapturedUtxo)
  | markSpent (outpoints : List OutPoint) (spentHeight : Nat)
  | rollbackAbove (height : Nat)
deriving DecidableEq

def MemUtxoStore.apply (s : MemUtxoStore) : UtxoOp → MemUtxoStore
  | .upsertUtxos utxos => s.upsertUtxos utxos
  | .markSpent outpoints spentHeight => s.markSpent outpoints spentHeight
  | .rollbackAbove height => s.rollbackAbove height

def MemUtxoStore.applyAll (s : MemUtxoStore) (ops : List UtxoOp) : MemUtxoStore :=
  ops.foldl MemUtxoStore.apply s

/-- Records are captured unspent. -/
def UtxoOp.Fresh : UtxoOp → Prop
  | .upsertUtxos utxos => ∀ u ∈ utxos, u.isSpent = false
  | _ => True

/-! ## Spends that are kept -/

/-- The store and the marks in force: every mark of a stored record,
until a rollback below its height or one that drops the record. -/
structure MarkedStore where
  store : MemUtxoStore
  marks : List (OutPoint × Nat)

namespace MarkedStore

def new : MarkedStore := ⟨.new, []⟩

def step (m : MarkedStore) : UtxoOp → MarkedStore
  | .upsertUtxos utxos => { m with store := m.store.upsertUtxos utxos }
  | .markSpent outpoints spentHeight => {
      store := m.store.markSpent outpoints spentHeight
      marks := m.marks ++
        (outpoints.filter fun o => (m.store.entryAt o).isSome).map fun o => (o, spentHeight) }
  | .rollbackAbove height => {
      store := m.store.rollbackAbove height
      marks := m.marks.filter fun p =>
        decide (p.2 ≤ height) && ((m.store.rollbackAbove height).entryAt p.1).isSome }

def run (m : MarkedStore) (ops : List UtxoOp) : MarkedStore := ops.foldl step m

theorem run_concat (m : MarkedStore) (ops : List UtxoOp) (op : UtxoOp) :
    m.run (ops ++ [op]) = (m.run ops).step op := List.foldl_concat ..

theorem store_run (m : MarkedStore) (ops : List UtxoOp) :
    (m.run ops).store = m.store.applyAll ops := by
  induction ops generalizing m with
  | nil => rfl
  | cons op ops ih =>
      have hstep : (m.step op).store = m.store.apply op := by cases op <;> rfl
      exact (ih (m.step op)).trans (by rw [hstep]; rfl)

/-- The flag of an entry says whether its spend height is recorded, and
an outpoint with a mark in force is listed as unspent nowhere. -/
structure SpendKept (m : MarkedStore) : Prop where
  flag : ∀ o e, m.store.entryAt o = some e → (e.utxo.isSpent = true ↔ e.spentHeight.isSome)
  unlisted : ∀ o s, (o, s) ∈ m.marks → (∀ w, (o, w) ∉ m.store.unspentOutpoints) ∧
    ∀ w, ∀ u ∈ m.store.listUnspent w, u.outpoint ≠ o

/-- What keeps the spends. No record with a spend height is captured
again. And a rollback does not fall between two marks in force of one
record, the later of them higher: the store knows the height of the
later one only. -/
def KeepsSpends (m : MarkedStore) : UtxoOp → Prop
  | .upsertUtxos utxos => ∀ u ∈ utxos, ∀ e, m.store.entryAt u.outpoint = some e →
      e.spentHeight = none
  | .markSpent _ _ => True
  | .rollbackAbove height => ∀ o s, (o, s) ∈ m.marks → s ≤ height → ∀ e,
      m.store.entryAt o = some e → e.utxo.height ≤ height →
      ∀ s', e.spentHeight = some s' → s' ≤ height

/-- Only stored records have marks in force. -/
theorem stored_run (ops : List UtxoOp) {o : OutPoint} {s : Nat}
    (h : (o, s) ∈ (new.run ops).marks) : ((new.run ops).store.entryAt o).isSome := by
  induction ops using List.reverseRecOn generalizing s with
  | nil => cases h
  | append_singleton ops op ih =>
      rw [run_concat] at h ⊢
      cases op with
      | upsertUtxos utxos =>
          have hold := ih h
          dsimp only [step]
          rcases MemUtxoStore.entryAt_upsertUtxos (new.run ops).store utxos o
            with ⟨-, hsame⟩ | ⟨u, -, -, hnew⟩
          · rwa [hsame]
          · rw [hnew]
            rfl
      | markSpent outpoints spentHeight =>
          have hold : ((new.run ops).store.entryAt o).isSome := by
            rcases List.mem_append.mp h with h | h
            · exact ih h
            · obtain ⟨o', ho', heq⟩ := List.mem_map.mp h
              obtain ⟨rfl, -⟩ := Prod.mk.inj heq
              exact (List.mem_filter.mp ho').2
          dsimp only [step]
          rw [MemUtxoStore.entryAt_markSpent]
          split
          · rwa [Option.isSome_map]
          · exact hold
      | rollbackAbove height =>
          have hkept := (List.mem_filter.mp h).2
          rw [Bool.and_eq_true] at hkept
          exact hkept.2

/-- Being listed nowhere is being spent. -/
theorem unlisted_iff {s : MemUtxoStore} {o : OutPoint} :
    ((∀ w, (o, w) ∉ s.unspentOutpoints) ∧ ∀ w, ∀ u ∈ s.listUnspent w, u.outpoint ≠ o) ↔
      ∀ e, s.entryAt o = some e → e.utxo.isSpent = true := by
  constructor
  · rintro ⟨hno, -⟩ e he
    by_contra hsp
    exact hno e.utxo.walletId
      (MemUtxoStore.mem_unspentOutpoints.mpr ⟨e, he, by simpa using hsp, rfl⟩)
  · intro hspent
    constructor
    · intro w hmem
      obtain ⟨e, he, hsp, -⟩ := MemUtxoStore.mem_unspentOutpoints.mp hmem
      rw [hspent e he] at hsp
      cases hsp
    · rintro w u hmem rfl
      obtain ⟨e, he, rfl, hsp, -⟩ := MemUtxoStore.mem_listUnspent.mp hmem
      rw [hspent e he] at hsp
      cases hsp

theorem spendKept_new : SpendKept new where
  flag o e h := by cases h
  unlisted o s h := by cases h

section Step

variable {m : MarkedStore} (h : SpendKept m)

include h

/-- The record of a mark in force is spent. -/
theorem SpendKept.spent {o : OutPoint} {s : Nat} (hmark : (o, s) ∈ m.marks) {e : Entry}
    (he : m.store.entryAt o = some e) : e.utxo.isSpent = true :=
  unlisted_iff.mp (h.unlisted o s hmark) e he

/-- A capture keeps the spends when no record with a spend height is
captured again: a record with a mark in force has one. -/
theorem SpendKept.upsert_iff (hstored : ∀ o s, (o, s) ∈ m.marks → (m.store.entryAt o).isSome)
    {utxos : List CapturedUtxo} (hfresh : (UtxoOp.upsertUtxos utxos).Fresh) :
    SpendKept (m.step (.upsertUtxos utxos)) ↔ m.KeepsSpends (.upsertUtxos utxos) := by
  have hentry := MemUtxoStore.entryAt_upsertUtxos m.store utxos
  constructor
  · intro hkept u hu e he
    rcases hentry u.outpoint with ⟨hno, -⟩ | ⟨u', hu', hop, hnew⟩
    · exact absurd (List.mem_map_of_mem hu) hno
    · have hflag := hkept.flag _ _ hnew
      rw [hfresh u' hu', he] at hflag
      simpa using hflag
  · intro hok
    refine ⟨?_, fun o s hmark => unlisted_iff.mpr ?_⟩
    · intro o e he
      dsimp only [step] at he
      rcases hentry o with ⟨-, hsame⟩ | ⟨u, hu, rfl, hnew⟩
      · exact h.flag o e (hsame ▸ he)
      · obtain rfl := Option.some.inj (hnew.symm.trans he)
        dsimp only
        rw [hfresh u hu]
        cases hold : m.store.entryAt u.outpoint with
        | none => simp
        | some e => simp [hok u hu e hold]
    · intro e he
      dsimp only [step] at he hmark
      rcases hentry o with ⟨-, hsame⟩ | ⟨u, hu, rfl, -⟩
      · exact h.spent hmark (hsame ▸ he)
      · obtain ⟨e₀, he₀⟩ := Option.isSome_iff_exists.mp (hstored _ s hmark)
        have hheight := (h.flag _ _ he₀).mp (h.spent hmark he₀)
        rw [hok u hu e₀ he₀] at hheight
        cases hheight

theorem SpendKept.markSpent (outpoints : List OutPoint) (spentHeight : Nat) :
    SpendKept (m.step (.markSpent outpoints spentHeight)) := by
  have hentry : ∀ o e, (m.step (.markSpent outpoints spentHeight)).store.entryAt o = some e →
      o ∈ outpoints ∧ e.utxo.isSpent = true ∧ e.spentHeight = some spentHeight ∨
        o ∉ outpoints ∧ m.store.entryAt o = some e := by
    intro o e he
    dsimp only [step] at he
    rw [MemUtxoStore.entryAt_markSpent] at he
    split at he
    · next hin =>
        obtain ⟨e₀, -, rfl⟩ := Option.map_eq_some_iff.mp he
        exact .inl ⟨hin, rfl, rfl⟩
    · next hno => exact .inr ⟨hno, he⟩
  refine ⟨?_, fun o s hmark => unlisted_iff.mpr ?_⟩
  · intro o e he
    rcases hentry o e he with ⟨-, hflag, hheight⟩ | ⟨-, hold⟩
    · rw [hflag, hheight]
      simp
    · exact h.flag o e hold
  · intro e he
    rcases hentry o e he with ⟨-, hflag, -⟩ | ⟨hno, hold⟩
    · exact hflag
    · rcases List.mem_append.mp hmark with hmark | hmark
      · exact h.spent hmark hold
      · obtain ⟨o', ho', heq⟩ := List.mem_map.mp hmark
        obtain ⟨rfl, -⟩ := Prod.mk.inj heq
        exact absurd (List.mem_filter.mp ho').1 hno

/-- A rollback keeps the spends when what it unmarks has no other mark
in force. -/
theorem SpendKept.rollback_iff (height : Nat) :
    SpendKept (m.step (.rollbackAbove height)) ↔ m.KeepsSpends (.rollbackAbove height) := by
  have hentry : ∀ o, (m.step (.rollbackAbove height)).store.entryAt o =
      ((m.store.entryAt o).filter fun e => e.utxo.height ≤ height).map (·.unspendAbove height) :=
    MemUtxoStore.entryAt_rollbackAbove m.store height
  constructor
  · intro hkept o s hmark hs e he hle s' hs'
    by_contra hlt
    have hnew : (m.step (.rollbackAbove height)).store.entryAt o =
      some (e.unspendAbove height) := by
      rw [hentry, he]
      simp [Option.filter, hle]
    have hin : (o, s) ∈ (m.step (.rollbackAbove height)).marks := by
      refine List.mem_filter.mpr ⟨hmark, ?_⟩
      rw [Bool.and_eq_true, decide_eq_true_eq]
      exact ⟨hs, Option.isSome_of_eq_some hnew⟩
    have hspent := hkept.spent hin hnew
    rw [Entry.unspendAbove, hs', if_pos (by simpa using hlt)] at hspent
    cases hspent
  · intro hok
    refine ⟨?_, fun o s hmark => unlisted_iff.mpr ?_⟩
    · intro o e he
      rw [hentry] at he
      obtain ⟨e₀, he₀, rfl⟩ := Option.map_eq_some_iff.mp he
      have hflag := h.flag o e₀ (Option.filter_eq_some_iff.mp he₀).1
      unfold Entry.unspendAbove
      split
      · simp
      · exact hflag
    · intro e he
      rw [hentry] at he
      obtain ⟨e₀, he₀, rfl⟩ := Option.map_eq_some_iff.mp he
      obtain ⟨hold, hle⟩ := Option.filter_eq_some_iff.mp he₀
      obtain ⟨hmark, hkeep⟩ := List.mem_filter.mp hmark
      rw [Bool.and_eq_true, decide_eq_true_eq] at hkeep
      have hbelow : ¬e₀.spentHeight.any (height < ·) := by
        cases hs' : e₀.spentHeight with
        | none => simp
        | some s' =>
            have hle' := hok o s hmark hkeep.1 e₀ hold (by simpa using hle) s' hs'
            simpa using hle'
      rw [Entry.unspendAbove, if_neg hbelow]
      exact h.spent hmark hold

/-- One operation keeps the spends exactly when it meets the condition. -/
theorem SpendKept.step_iff (hstored : ∀ o s, (o, s) ∈ m.marks → (m.store.entryAt o).isSome)
    {op : UtxoOp} (hfresh : op.Fresh) : SpendKept (m.step op) ↔ m.KeepsSpends op := by
  cases op with
  | upsertUtxos utxos => exact h.upsert_iff hstored hfresh
  | markSpent outpoints spentHeight => exact iff_of_true (h.markSpent outpoints spentHeight) trivial
  | rollbackAbove height => exact h.rollback_iff height

end Step

/-- Spends are kept throughout a history exactly when every operation of
it meets the condition in the state it is made in. -/
theorem spend_kept_iff {ops : List UtxoOp} (hfresh : ∀ op ∈ ops, op.Fresh) :
    (∀ pre, pre <+: ops → SpendKept (new.run pre)) ↔
      ∀ pre op, pre ++ [op] <+: ops → (new.run pre).KeepsSpends op := by
  have hstep : ∀ pre op, pre ++ [op] <+: ops → SpendKept (new.run pre) →
      (SpendKept (new.run (pre ++ [op])) ↔ (new.run pre).KeepsSpends op) := by
    intro pre op hpre hkept
    rw [run_concat]
    exact hkept.step_iff (fun o s => stored_run pre) (hfresh op (hpre.subset (by simp)))
  constructor
  · intro hall pre op hpre
    have hshort : SpendKept (new.run pre) := hall pre ((List.prefix_append _ _).trans hpre)
    exact (hstep pre op hpre hshort).mp (hall _ hpre)
  · intro hok pre
    induction pre using List.reverseRecOn with
    | nil => exact fun _ => spendKept_new
    | append_singleton pre op ih =>
        intro hpre
        exact (hstep pre op hpre (ih ((List.prefix_append _ _).trans hpre))).mpr (hok pre op hpre)

end MarkedStore

/-! A record that is captured, spent at height 2, and captured again. -/

def capturedPayment : CapturedUtxo where
  walletId := ⟨1⟩
  outpoint := ⟨⟨100⟩, 0⟩
  txout := ⟨.null, .explicit 1000, .null, ⟨[]⟩, ⟨none, none⟩⟩
  secrets := ⟨⟨0⟩, 0, 1000, 0⟩
  chain := .external
  wildcardIndex := 0
  height := 1
  isSpent := false

def recaptured : List UtxoOp :=
  [.upsertUtxos [capturedPayment], .markSpent [⟨⟨100⟩, 0⟩] 2, .upsertUtxos [capturedPayment]]

theorem fresh_recaptured : ∀ op ∈ recaptured, op.Fresh := by
  intro op hop
  simp only [recaptured, List.mem_cons, List.not_mem_nil, or_false] at hop
  rcases hop with rfl | rfl | rfl
  · simp [UtxoOp.Fresh, capturedPayment]
  · trivial
  · simp [UtxoOp.Fresh, capturedPayment]

theorem spend_kept_iff_recaptured :
    (∀ pre, pre <+: recaptured → MarkedStore.SpendKept (MarkedStore.new.run pre)) ↔
      ∀ pre op, pre ++ [op] <+: recaptured → (MarkedStore.new.run pre).KeepsSpends op :=
  MarkedStore.spend_kept_iff fresh_recaptured

/-- A spend is not kept by every history: captured again, the record is
unspent, with the height of its spend beside it. -/
theorem recapture_forgets_spend : ¬∀ ops : List UtxoOp, (∀ op ∈ ops, op.Fresh) →
    MarkedStore.SpendKept (MarkedStore.new.run ops) := by
  intro hgeneral
  have hkept := hgeneral recaptured fresh_recaptured
  have hentry : (MarkedStore.new.run recaptured).store.entryAt ⟨⟨100⟩, 0⟩ =
      some ⟨capturedPayment, some 2⟩ := rfl
  have hflag := (hkept.flag _ _ hentry).mpr rfl
  cases hflag

/-! ## Rollback as truncation -/

/-- The part of an operation that lies at or below a height. -/
def UtxoOp.upTo (height : Nat) : UtxoOp → UtxoOp
  | .upsertUtxos utxos => .upsertUtxos (utxos.filter fun u => u.height ≤ height)
  | .markSpent outpoints spentHeight =>
      .markSpent (if spentHeight ≤ height then outpoints else []) spentHeight
  | .rollbackAbove a => .rollbackAbove a

/-- The operation captures or spends, each outpoint at its own height. -/
def UtxoOp.At (height spentHeight : OutPoint → Nat) : UtxoOp → Prop
  | .upsertUtxos utxos => ∀ u ∈ utxos, u.height = height u.outpoint ∧ u.isSpent = false
  | .markSpent outpoints s => ∀ o ∈ outpoints, s = spentHeight o
  | .rollbackAbove _ => False

/-- What a rollback leaves of an entry. -/
def Entry.upTo (height : Nat) (e : Entry) : Option Entry :=
  if e.utxo.height ≤ height then some (e.unspendAbove height) else none

theorem MemUtxoStore.entryAt_rollbackAbove_eq_bind (s : MemUtxoStore) (height : Nat)
    (op : OutPoint) :
    (s.rollbackAbove height).entryAt op = (s.entryAt op).bind (Entry.upTo height) := by
  rw [entryAt_rollbackAbove]
  cases s.entryAt op with
  | none => rfl
  | some e => by_cases hle : e.utxo.height ≤ height <;> simp [Option.filter, Entry.upTo, hle]

/-- A spend below the rollback stays. -/
theorem Entry.upTo_markSpent_of_le (e : Entry) {t height : Nat} (hle : t ≤ height) :
    (e.markSpent t).upTo height = (e.upTo height).map (Entry.markSpent · t) := by
  have hkept : (e.markSpent t).unspendAbove height = e.markSpent t :=
    if_neg (by simpa [Entry.markSpent] using hle)
  have hsame : ((e.unspendAbove height).markSpent t) = e.markSpent t := by
    unfold Entry.unspendAbove
    split <;> rfl
  unfold Entry.upTo
  rw [hkept]
  by_cases hheight : e.utxo.height ≤ height
  · rw [if_pos hheight, Option.map_some, hsame]
    exact if_pos hheight
  · rw [if_neg hheight]
    exact if_neg hheight

/-- A spend above the rollback goes, if the entry had none below it. -/
theorem Entry.upTo_markSpent_of_gt {e : Entry} {t height : Nat} (hgt : height < t)
    (hunspent : e.spentHeight = none → e.utxo.isSpent = false)
    (hsame : ∀ t', e.spentHeight = some t' → t' = t) :
    (e.markSpent t).upTo height = e.upTo height := by
  have hback : (e.markSpent t).unspendAbove height = e.unspendAbove height := by
    obtain ⟨⟨_, _, _, _, _, _, _, _⟩, sp⟩ := e
    cases sp with
    | none =>
        cases hunspent rfl
        simp [Entry.markSpent, Entry.unspendAbove, hgt]
    | some t' =>
        cases hsame t' rfl
        simp [Entry.markSpent, Entry.unspendAbove, hgt]
  unfold Entry.upTo
  rw [hback]
  rfl

/-- The second store is the first, rolled back, and the first has every
record and every spend at its own height. -/
structure Truncates (height spentHeight : OutPoint → Nat) (a : Nat) (s s' : MemUtxoStore) :
    Prop where
  rolled : ∀ o, (s.rollbackAbove a).entryAt o = s'.entryAt o
  height : ∀ o e, s.entryAt o = some e → e.utxo.height = height o
  spent : ∀ o e t, s.entryAt o = some e → e.spentHeight = some t → t = spentHeight o
  unspent : ∀ o e, s.entryAt o = some e → e.spentHeight = none → e.utxo.isSpent = false

section Truncates

variable {height spentHeight : OutPoint → Nat} {a : Nat} {s s' : MemUtxoStore}

theorem Truncates.upsertOne {u : CapturedUtxo} (h : Truncates height spentHeight a s s')
    (hheight : u.height = height u.outpoint) (hfresh : u.isSpent = false) :
    Truncates height spentHeight a (s.upsertOne u)
      (if u.height ≤ a then s'.upsertOne u else s') := by
  refine ⟨?_, ?_, ?_, ?_⟩
  · intro o
    have hrolled := h.rolled o
    rw [MemUtxoStore.entryAt_rollbackAbove_eq_bind] at hrolled ⊢
    rw [MemUtxoStore.entryAt_upsertOne]
    by_cases ho : o = u.outpoint
    · subst ho
      have hold : ∀ e, s.entryAt u.outpoint = some e → e.utxo.height = u.height :=
        fun e he => (h.height _ e he).trans hheight.symm
      rw [if_pos rfl, Option.bind_some, Entry.upTo]
      split
      · next hle =>
          have hsame : { u with isSpent := false } = u := by rw [← hfresh]
          rw [MemUtxoStore.entryAt_upsertOne, if_pos rfl, ← hrolled]
          cases he : s.entryAt u.outpoint with
          | none => rfl
          | some e =>
              rw [Option.bind_some, Option.bind_some, Entry.upTo, if_pos (by rwa [hold e he])]
              simp only [Entry.unspendAbove, hsame, Option.bind_some]
              split <;> rfl
      · next hgt =>
          rw [← hrolled]
          cases he : s.entryAt u.outpoint with
          | none => rfl
          | some e => rw [Option.bind_some, Entry.upTo, if_neg (by rwa [hold e he])]
    · rw [if_neg ho, hrolled]
      split
      · rw [MemUtxoStore.entryAt_upsertOne, if_neg ho]
      · rfl
  · intro o e he
    rw [MemUtxoStore.entryAt_upsertOne] at he
    split at he
    · next ho =>
        cases he
        rw [ho]
        exact hheight
    · exact h.height o e he
  · intro o e t he ht
    rw [MemUtxoStore.entryAt_upsertOne] at he
    split at he
    · cases he
      obtain ⟨e₀, he₀, ht₀⟩ := Option.bind_eq_some_iff.mp ht
      exact h.spent o e₀ t he₀ ht₀
    · exact h.spent o e t he ht
  · intro o e he hnone
    rw [MemUtxoStore.entryAt_upsertOne] at he
    split at he
    · cases he
      exact hfresh
    · exact h.unspent o e he hnone

theorem Truncates.markOne {t : Nat} {o : OutPoint} (h : Truncates height spentHeight a s s')
    (ht : t = spentHeight o) :
    Truncates height spentHeight a (s.markOne t o) (if t ≤ a then s'.markOne t o else s') := by
  refine ⟨?_, ?_, ?_, ?_⟩
  · intro o'
    have hrolled := h.rolled o'
    rw [MemUtxoStore.entryAt_rollbackAbove_eq_bind] at hrolled ⊢
    rw [MemUtxoStore.entryAt_markOne]
    by_cases ho : o' = o
    · subst ho
      rw [if_pos rfl]
      split
      · next hle =>
          rw [MemUtxoStore.entryAt_markOne, if_pos rfl, ← hrolled]
          cases s.entryAt o' with
          | none => rfl
          | some e => exact Entry.upTo_markSpent_of_le e hle
      · next hgt =>
          rw [← hrolled]
          cases he : s.entryAt o' with
          | none => rfl
          | some e =>
              refine Entry.upTo_markSpent_of_gt (Nat.not_le.mp hgt) (h.unspent o' e he) ?_
              intro t' ht'
              exact (h.spent o' e t' he ht').trans ht.symm
    · rw [if_neg ho, hrolled]
      split
      · rw [MemUtxoStore.entryAt_markOne, if_neg ho]
      · rfl
  · intro o' e he
    rw [MemUtxoStore.entryAt_markOne] at he
    split at he
    · obtain ⟨e₀, he₀, rfl⟩ := Option.map_eq_some_iff.mp he
      exact h.height o' e₀ he₀
    · exact h.height o' e he
  · intro o' e t' he ht'
    rw [MemUtxoStore.entryAt_markOne] at he
    split at he
    · next ho =>
        obtain ⟨e₀, he₀, rfl⟩ := Option.map_eq_some_iff.mp he
        cases ht'
        rw [ho]
        exact ht
    · exact h.spent o' e t' he ht'
  · intro o' e he hnone
    rw [MemUtxoStore.entryAt_markOne] at he
    split at he
    · obtain ⟨e₀, he₀, rfl⟩ := Option.map_eq_some_iff.mp he
      cases hnone
    · exact h.unspent o' e he hnone

theorem Truncates.apply {op : UtxoOp} (h : Truncates height spentHeight a s s')
    (hop : op.At height spentHeight) :
    Truncates height spentHeight a (s.apply op) (s'.apply (op.upTo a)) := by
  cases op with
  | rollbackAbove b => exact hop.elim
  | upsertUtxos utxos =>
      induction utxos generalizing s s' with
      | nil => exact h
      | cons u us ih =>
          obtain ⟨hheight, hfresh⟩ := hop u (List.mem_cons_self ..)
          have hone := ih (h.upsertOne hheight hfresh) fun u' hu' =>
            hop u' (List.mem_cons_of_mem u hu')
          rw [UtxoOp.upTo, List.filter_cons]
          by_cases hle : u.height ≤ a
          · rw [if_pos hle] at hone
            rw [if_pos (by simpa using hle)]
            exact hone
          · rw [if_neg hle] at hone
            rw [if_neg (by simpa using hle)]
            exact hone
  | markSpent outpoints t =>
      induction outpoints generalizing s s' with
      | nil =>
          rw [UtxoOp.upTo, ite_self]
          exact h
      | cons o os ih =>
          have hone := ih (h.markOne (hop o (List.mem_cons_self ..))) fun o' ho' =>
            hop o' (List.mem_cons_of_mem o ho')
          rw [UtxoOp.upTo] at hone ⊢
          by_cases hle : t ≤ a
          · rw [if_pos hle] at hone ⊢
            rw [if_pos hle] at hone
            exact hone
          · rw [if_neg hle] at hone ⊢
            rw [if_neg hle] at hone
            exact hone

theorem Truncates.applyAll {ops : List UtxoOp} (h : Truncates height spentHeight a s s')
    (hops : ∀ op ∈ ops, op.At height spentHeight) :
    Truncates height spentHeight a (s.applyAll ops) (s'.applyAll (ops.map (UtxoOp.upTo a))) := by
  induction ops generalizing s s' with
  | nil => exact h
  | cons op ops ih =>
      exact ih (h.apply (hops op (List.mem_cons_self ..))) fun op' hop' =>
        hops op' (List.mem_cons_of_mem op hop')

end Truncates

theorem truncates_new (height spentHeight : OutPoint → Nat) (a : Nat) :
    Truncates height spentHeight a .new .new where
  rolled _ := rfl
  height _ _ h := by cases h
  spent _ _ _ h := by cases h
  unspent _ _ h := by cases h

/-- A rollback is a truncation of the history: it leaves the entries that
the captures and the spends up to its height leave. -/
theorem rollback_truncates {height spentHeight : OutPoint → Nat} {ops : List UtxoOp}
    (hops : ∀ op ∈ ops, op.At height spentHeight) (a : Nat) (o : OutPoint) :
    ((MemUtxoStore.new.applyAll ops).rollbackAbove a).entryAt o =
      (MemUtxoStore.new.applyAll (ops.map (UtxoOp.upTo a))).entryAt o :=
  ((truncates_new height spentHeight a).applyAll hops).rolled o

theorem rollback_truncates_recaptured :
    ((MemUtxoStore.new.applyAll recaptured).rollbackAbove 1).entryAt ⟨⟨100⟩, 0⟩ =
      some ⟨capturedPayment, none⟩ := by
  have hops : ∀ op ∈ recaptured, op.At (fun _ => 1) fun _ => 2 := by
    intro op hop
    simp only [recaptured, List.mem_cons, List.not_mem_nil, or_false] at hop
    rcases hop with rfl | rfl | rfl <;> simp [UtxoOp.At, capturedPayment]
  exact rollback_truncates hops 1 ⟨⟨100⟩, 0⟩

end EmvaultElements
