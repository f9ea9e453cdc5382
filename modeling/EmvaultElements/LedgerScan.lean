import EmvaultElements.Ledger

/-!
# Scanning, rolling back and interrupting

The operations on a view against the meaning of the batches.

- `scanFrom_eq`: the effect of scanning valid batches over *any* view,
  in closed form. Everything below is read off it.
- `scanFrom_ledger`: scanning extends the meaning.
- `rollbackAbove_ledger`: rolling back is truncating the history.
- `Interrupted`: the views an interrupted scan can leave. They are
  closed under further partial scans, a complete scan repairs them
  (`Interrupted.scanFrom_eq_ledger`), and so does a rollback below the
  part that was complete (`Interrupted.rollbackAbove_eq_ledger`).
- `scanFrom_forgotten_iff`: when a forgotten rollback makes no
  difference to a later scan.
-/

namespace EmvaultElements

namespace Ledger

variable {K R : Type}

theorem scanFrom_append (v : View K R) : ∀ (n : Nat) (bs bs' : List (Batch K R)),
    scanFrom n (bs ++ bs') v = scanFrom (n + bs.length) bs' (scanFrom n bs v)
  | n, [], bs' => rfl
  | n, b :: bs, bs' => by
      rw [List.cons_append, scanFrom, scanFrom_append (scan n b v) (n + 1) bs bs',
        List.length_cons, Nat.add_right_comm, Nat.add_assoc, scanFrom]

/-! ## The closed form of a scan -/

/-- The slot a scan of the batches `n`, `n + 1`, … leaves at `k`: what
they create, or else what was there, marked at the first spend. -/
def scanned (n : Nat) (bs : List (Batch K R)) (v : View K R) : View K R := fun k =>
  match createdFrom n bs k with
  | some c => some ⟨c.2, c.1, (spentFrom n bs k).isSome,
      (spentFrom n bs k).or ((v k).bind Slot.spentHeight)⟩
  | none => (v k).map fun s =>
      if s.isSpent then s else (spentFrom n bs k).elim s fun h => s.mark h

theorem scanFrom_eq {bs : List (Batch K R)} (hvalid : Valid bs) (n : Nat) (v : View K R) :
    scanFrom n bs v = scanned n bs v := by
  funext k
  induction bs generalizing n v with
  | nil => cases hv : v k <;> simp [scanFrom, scanned, createdFrom, spentFrom, hv]
  | cons b bs ih =>
      have htail : Valid bs := hvalid.sublist (List.sublist_cons_self b bs)
      rw [scanFrom, ih htail]
      cases hc : b.creates k with
      | some r =>
          have hnone : createdFrom (n + 1) bs k = none := createdFrom_eq_none.mpr fun b' hb' => by
            by_contra hne
            have := (List.pairwise_cons.mp hvalid).1 b' hb' k (Option.isSome_iff_ne_none.mpr hne)
            simp [hc] at this
          by_cases hs : b.spends k
          · simp [scanned, createdFrom, spentFrom, hnone, hc, hs, scan, settle, capture, Slot.mark]
          · cases hsp : spentFrom (n + 1) bs k <;>
              simp [scanned, createdFrom, spentFrom, hnone, hc, hs, hsp, scan, settle, capture,
                Slot.mark]
      | none =>
          cases hcr : createdFrom (n + 1) bs k with
          | some c =>
              have hs : b.spends k = false := by
                have hvalid' : Valid ([b] ++ bs) := hvalid
                have := (Valid.created_right (m := n) hvalid' (Option.isSome_of_eq_some hcr)).2
                simpa [spentFrom] using this
              simp [scanned, createdFrom, spentFrom, hcr, hc, hs, scan, settle, capture]
          | none =>
              cases hv : v k with
              | none => simp [scanned, createdFrom, hcr, hc, scan, settle, capture, hv]
              | some s =>
                  cases hsp : s.isSpent <;> cases hs : b.spends k <;>
                    simp [scanned, createdFrom, spentFrom, hcr, hc, hs, hsp, hv, scan, settle,
                      capture, Slot.mark]

/-- Scanning from an empty view gives the meaning of the batches. -/
theorem scanFrom_empty {bs : List (Batch K R)} (hvalid : Valid bs) :
    scanFrom 0 bs (fun _ => none) = ledger bs := by
  rw [scanFrom_eq hvalid]
  funext k
  rw [scanned, ledger, createdAt, spentAt]
  cases createdFrom 0 bs k <;> simp

/-- Scanning extends the meaning by the batches scanned. -/
theorem scanFrom_ledger {pre post : List (Batch K R)} (hvalid : Valid (pre ++ post)) :
    scanFrom pre.length post (ledger pre) = ledger (pre ++ post) := by
  rw [← scanFrom_empty hvalid, scanFrom_append, Nat.zero_add,
    scanFrom_empty (hvalid.sublist (List.sublist_append_left pre post))]

/-! ## Rolling back -/

/-- The spend state a rollback to `a` leaves, given the recorded height. -/
theorem unspendAbove_mk (a h : Nat) (r : R) (sp : Option Nat) :
    Slot.unspendAbove a ⟨r, h, sp.isSome, sp⟩
      = ⟨r, h, (sp.filter (· < a + 1)).isSome, sp.filter (· < a + 1)⟩ := by
  cases sp with
  | none => simp [Slot.unspendAbove]
  | some s =>
      by_cases hs : a < s
      · simp [Slot.unspendAbove, hs, Option.filter, show ¬s < a + 1 by omega]
      · simp [Slot.unspendAbove, hs, Option.filter, show s < a + 1 by omega]

/-- Rolling back one slot that is created and spent as recorded. -/
theorem rollbackAbove_slot (a : Nat) (c : Nat × R) (sp : Option Nat) :
    ((some (⟨c.2, c.1, sp.isSome, sp⟩ : Slot R)).filter fun s => s.height ≤ a).map
        (Slot.unspendAbove a)
      = ((some c).filter (·.1 < a + 1)).map fun c =>
        ⟨c.2, c.1, (sp.filter (· < a + 1)).isSome, sp.filter (· < a + 1)⟩ := by
  by_cases hc : c.1 ≤ a
  · have hlt : c.1 < a + 1 := Nat.lt_succ_of_le hc
    simp [Option.filter, hc, hlt, unspendAbove_mk]
  · have hlt : ¬c.1 < a + 1 := fun hlt => hc (Nat.le_of_lt_succ hlt)
    simp only [Option.filter, hc, hlt, decide_false]
    rfl

/-- Rolling back to `a` is forgetting the batches above `a`. -/
theorem rollbackAbove_ledger (bs : List (Batch K R)) (a : Nat) :
    rollbackAbove a (ledger bs) = ledger (bs.take (a + 1)) := by
  funext k
  rw [rollbackAbove, ledger, ledger, createdAt_take, spentAt_take]
  cases createdAt bs k with
  | none => rfl
  | some c => exact rollbackAbove_slot a c (spentAt bs k)

/-! ## Interrupted scans -/

/-- The slots an interrupted scan can leave at `k`, where `pre` was
complete and the batches up to `bs` have been scanned in part, perhaps
several times over: below `pre` the spend of a later batch may have
been recorded; above it a record may be missing, may have lost its flag
to a second capture, and may or may not have its spend recorded. -/
def InterruptedAt (pre bs : List (Batch K R)) (k : K) (o : Option (Slot R)) : Prop :=
  match createdAt pre k with
  | some c => ∃ sp, o = some ⟨c.2, c.1, sp.isSome, sp⟩ ∧ (sp = spentAt pre k ∨ sp = spentAt bs k)
  | none =>
    match createdAt bs k with
    | some c => o = none ∨ ∃ f sp, o = some ⟨c.2, c.1, f, sp⟩ ∧ (sp = none ∨ sp = spentAt bs k)
    | none => o = none

/-- The views an interrupted scan of `bs` over `ledger pre` can leave. -/
def Interrupted (pre bs : List (Batch K R)) (v : View K R) : Prop :=
  ∀ k, InterruptedAt pre bs k (v k)

/-- A complete view is a trivially interrupted one. -/
theorem interrupted_ledger (pre bs : List (Batch K R)) : Interrupted pre bs (ledger pre) := by
  intro k
  rw [InterruptedAt, ledger]
  cases createdAt pre k with
  | some c => exact ⟨spentAt pre k, rfl, .inl rfl⟩
  | none => cases createdAt bs k <;> simp

/-- More batches may have been scanned in part. -/
theorem Interrupted.append {pre bs post : List (Batch K R)} {v : View K R}
    (hvalid : Valid (bs ++ post)) (hpre : pre <+: bs) (h : Interrupted pre bs v) :
    Interrupted pre (bs ++ post) v := by
  intro k
  have hk := h k
  rw [InterruptedAt] at hk ⊢
  have hspent : ∀ sp, sp = spentAt bs k → sp = none ∨ sp = spentAt (bs ++ post) k := by
    rintro sp rfl
    cases hs : spentAt bs k with
    | none => exact .inl rfl
    | some s => rw [spentAt_append, hs]; exact .inr rfl
  cases hcp : createdAt pre k with
  | some c =>
      rw [hcp] at hk
      obtain ⟨sp, ho, hsp⟩ := hk
      refine ⟨sp, ho, ?_⟩
      rcases hsp with hsp | hsp
      · exact .inl hsp
      · rcases hspent sp hsp with rfl | hsp'
        · obtain ⟨rest, rfl⟩ := hpre
          rw [spentAt_append] at hsp
          exact .inl (Option.or_eq_none_iff.mp hsp.symm).1.symm
        · exact .inr hsp'
  | none =>
      rw [hcp] at hk
      cases hcb : createdAt bs k with
      | some c =>
          rw [hcb] at hk
          rw [createdAt_append, hcb]
          rcases hk with ho | ⟨f, sp, ho, hsp⟩
          · exact .inl ho
          · exact .inr ⟨f, sp, ho, hsp.elim .inl (hspent sp)⟩
      | none =>
          rw [hcb] at hk
          rw [hk]
          cases createdAt (bs ++ post) k <;> simp

/-- Capturing one of the batches again keeps the view interrupted. -/
theorem Interrupted.capture {pre post post' : List (Batch K R)} {b : Batch K R} {v : View K R}
    (hvalid : Valid (pre ++ (post ++ b :: post')))
    (h : Interrupted pre (pre ++ (post ++ b :: post')) v) :
    Interrupted pre (pre ++ (post ++ b :: post'))
      (capture (pre.length + post.length) b v) := by
  intro k
  have hk := h k
  rw [Ledger.capture]
  cases hc : b.creates k with
  | none => exact hk
  | some r =>
      have hassoc : pre ++ (post ++ b :: post') = (pre ++ post) ++ (b :: post') := by simp
      have hcr : (createdFrom (pre ++ post).length (b :: post') k).isSome := by
        simp [createdFrom, hc]
      rw [hassoc] at hvalid
      obtain ⟨hnone, -⟩ := Valid.created_right (m := 0) hvalid hcr
      have hpre : createdAt pre k = none := by
        rw [createdFrom_append] at hnone
        exact (Option.or_eq_none_iff.mp hnone).1
      have hbs : createdAt (pre ++ (post ++ b :: post')) k =
        some (pre.length + post.length, r) := by
        rw [hassoc, createdAt_append, createdAt, hnone]
        simp [createdFrom, hc]
      simp only [InterruptedAt, hpre, hbs] at hk ⊢
      refine .inr ⟨false, _, rfl, ?_⟩
      rcases hk with ho | ⟨f, sp, ho, hsp⟩ <;> rw [ho]
      · exact .inl rfl
      · exact hsp

/-- Scanning the next batches keeps the view interrupted. -/
theorem Interrupted.scanFrom {pre post post' : List (Batch K R)} {v : View K R}
    (hvalid : Valid (pre ++ (post ++ post'))) (h : Interrupted pre (pre ++ (post ++ post')) v) :
    Interrupted pre (pre ++ (post ++ post')) (scanFrom pre.length post v) := by
  intro k
  have hpart : Valid (pre ++ post) := hvalid.sublist
    ((List.Sublist.refl pre).append (List.sublist_append_left post post'))
  have hpost : Valid post := hpart.sublist (List.sublist_append_right pre post)
  have hk := h k
  rw [scanFrom_eq hpost, scanned]
  have hfirst : ∀ s, spentAt pre k = none → spentFrom pre.length post k = some s →
      spentAt (pre ++ (post ++ post')) k = some s := by
    intro s hpre hs
    rw [spentAt_append, hpre, spentFrom_append, hs]
    rfl
  cases hcp : createdAt pre k with
  | some c =>
      simp only [InterruptedAt, hcp] at hk ⊢
      obtain ⟨sp, ho, hsp⟩ := hk
      have hnone : createdFrom pre.length post k = none := hpart.created_left hcp
      rw [hnone, ho]
      cases sp with
      | some s => exact ⟨some s, rfl, hsp⟩
      | none =>
          cases hs : spentFrom pre.length post k with
          | none => exact ⟨none, rfl, hsp⟩
          | some s =>
              refine ⟨some s, rfl, .inr (hfirst s ?_ hs).symm⟩
              rcases hsp with hsp | hsp
              · exact hsp.symm
              · rw [spentAt_append] at hsp
                exact (Option.or_eq_none_iff.mp hsp.symm).1
  | none =>
      simp only [InterruptedAt, hcp] at hk ⊢
      cases hc : createdFrom pre.length post k with
      | some c =>
          have hcb : createdAt (pre ++ (post ++ post')) k = some c := by
            rw [createdAt_append, hcp, createdFrom_append, hc]
            rfl
          simp only [hcb] at hk ⊢
          refine .inr ⟨_, _, rfl, ?_⟩
          have hspre : spentAt pre k = none :=
            (hpart.created_right (m := 0) (Option.isSome_of_eq_some hc)).2
          cases hs : spentFrom pre.length post k with
          | some s => exact .inr (hfirst s hspre hs).symm
          | none =>
              rcases hk with ho | ⟨f, sp, ho, hsp⟩ <;> rw [ho]
              · exact .inl rfl
              · exact hsp
      | none =>
          cases hcb : createdAt (pre ++ (post ++ post')) k with
          | none =>
              simp only [hcb] at hk ⊢
              rw [hk]
              rfl
          | some c =>
              have hs : spentFrom pre.length post k = none := by
                have hc' : (createdFrom (pre.length + post.length) post' k).isSome := by
                  rw [createdAt_append, hcp, createdFrom_append, hc] at hcb
                  simpa using Option.isSome_of_eq_some hcb
                exact (Valid.created_right (m := pre.length)
                  (hvalid.sublist (List.sublist_append_right pre _)) hc').2
              simp only [hcb] at hk ⊢
              rcases hk with ho | ⟨f, sp, ho, hsp⟩ <;> rw [ho, hs]
              · exact .inl rfl
              · exact .inr ⟨f, sp, by simp, hsp⟩

/-- A complete scan repairs whatever the interrupted ones left. -/
theorem Interrupted.scanFrom_eq_ledger {pre post : List (Batch K R)} {v : View K R}
    (hvalid : Valid (pre ++ post)) (h : Interrupted pre (pre ++ post) v) :
    Ledger.scanFrom pre.length post v = ledger (pre ++ post) := by
  have hpost : Valid post := hvalid.sublist (List.sublist_append_right pre post)
  funext k
  have hk := h k
  rw [scanFrom_eq hpost, scanned, ledger, createdAt_append, spentAt_append]
  rw [InterruptedAt, createdAt_append, spentAt_append] at hk
  cases hcp : createdAt pre k with
  | some c =>
      rw [hcp] at hk
      obtain ⟨sp, ho, hsp⟩ := hk
      have hnone : createdFrom pre.length post k = none := hvalid.created_left hcp
      rw [hnone, ho]
      cases hspre : spentAt pre k <;> cases hspost : spentFrom pre.length post k <;>
        rcases hsp with rfl | rfl <;> simp [hspre, hspost, Slot.mark]
  | none =>
      rw [hcp] at hk
      cases hc : createdFrom pre.length post k with
      | none =>
          simp only [hc, Option.or_none] at hk
          rw [hk]
          rfl
      | some c =>
          have hspre : spentAt pre k = none :=
            (Valid.created_right (m := 0) hvalid (Option.isSome_of_eq_some hc)).2
          simp only [hc, Option.none_or] at hk
          rcases hk with ho | ⟨f, sp, ho, rfl | rfl⟩ <;> simp [ho, hspre]

/-- Rolling back into the complete part repairs it too. -/
theorem Interrupted.rollbackAbove_eq_ledger {pre bs : List (Batch K R)} {v : View K R} {a : Nat}
    (hpre : pre <+: bs) (ha : a < pre.length) (h : Interrupted pre bs v) :
    rollbackAbove a v = ledger (pre.take (a + 1)) := by
  have htake : bs.take (a + 1) = pre.take (a + 1) := by
    obtain ⟨rest, rfl⟩ := hpre
    exact List.take_append_of_le_length ha
  funext k
  have hk := h k
  rw [InterruptedAt] at hk
  rw [rollbackAbove, ledger, createdAt_take]
  cases hcp : createdAt pre k with
  | some c =>
      rw [hcp] at hk
      obtain ⟨sp, ho, hsp⟩ := hk
      have hsp' : sp.filter (· < a + 1) = spentAt (pre.take (a + 1)) k := by
        rcases hsp with rfl | rfl
        · exact (spentAt_take pre (a + 1) k).symm
        · rw [← spentAt_take bs (a + 1) k, htake]
      rw [ho, ← hsp']
      exact rollbackAbove_slot a c sp
  | none =>
      rw [hcp] at hk
      cases hcb : createdAt bs k with
      | none => rw [hcb] at hk; rw [hk]; rfl
      | some c =>
          have hlt : ¬c.1 ≤ a := by
            intro hle
            have := createdAt_take bs (a + 1) k
            rw [htake, createdAt_take, hcp, hcb] at this
            simp [Option.filter, Nat.lt_succ_iff.mpr hle] at this
          rw [hcb] at hk
          rcases hk with ho | ⟨f, sp, ho, -⟩ <;> rw [ho]
          · rfl
          · simp [Option.filter, hlt]

/-! ## Forgotten rollbacks -/

/-- A scan of valid batches does not see a forgotten rollback exactly
when it brings everything back that the rollback would have dropped:
the records created above `a`, and the spends above `a` at the height
they had. -/
theorem scanFrom_rollbackAbove_iff {bs : List (Batch K R)} (hvalid : Valid bs) {n a : Nat}
    {v : View K R} (hflag : ∀ k s, v k = some s → s.isSpent = s.spentHeight.isSome)
    (hbelow : ∀ k s, v k = some s → s.height ≤ a → createdFrom n bs k = none) :
    scanFrom n bs v = scanFrom n bs (rollbackAbove a v) ↔ ∀ k s, v k = some s →
      (a < s.height → (createdFrom n bs k).isSome ∧
        (s.spentHeight.isSome → (spentFrom n bs k).isSome)) ∧
      (s.height ≤ a → ∀ t, s.spentHeight = some t → a < t → spentFrom n bs k = some t) := by
  rw [scanFrom_eq hvalid, scanFrom_eq hvalid, funext_iff]
  refine forall_congr' fun k => ?_
  rw [scanned, scanned, rollbackAbove]
  cases hv : v k with
  | none => cases createdFrom n bs k <;> simp
  | some s =>
      have hroll : Option.map (Slot.unspendAbove a)
          (Option.filter (fun s => decide (s.height ≤ a)) (some s)) =
          if s.height ≤ a then some (s.unspendAbove a) else none := by
        by_cases h : s.height ≤ a <;> simp [Option.filter, h]
      simp only [Option.some.injEq, forall_eq', hroll]
      by_cases hle : s.height ≤ a
      · have hcreated := hbelow k s hv hle
        have hspent := hflag k s hv
        have hgt : ¬a < s.height := Nat.not_lt.mpr hle
        simp only [hcreated, hle, hgt, if_true, Option.map_some, Option.some.injEq, false_implies,
          true_and, true_implies]
        cases hsp : s.spentHeight with
        | none => simp [Slot.unspendAbove, hsp]
        | some t =>
            rw [hsp] at hspent
            by_cases ht : a < t
            · cases spentFrom n bs k <;>
                simp [Slot.unspendAbove, hsp, hspent, ht, Slot.mark, Slot.ext_iff, eq_comm]
            · simp [Slot.unspendAbove, hsp, ht]
      · have hlt : a < s.height := Nat.not_le.mp hle
        cases hc : createdFrom n bs k with
        | none => simp [hle, hlt]
        | some c =>
            cases hs : spentFrom n bs k <;> cases hsp : s.spentHeight <;> simp [hle, hlt, hsp]

/-- What was created or spent above `a` has no spend up to `a`. -/
theorem spentAt_take_eq_none {bs : List (Batch K R)} (hvalid : Valid bs) {a : Nat} {k : K}
    {s : Slot R} (hs : ledger bs k = some s)
    (habove : a < s.height ∨ ∃ t, s.spentHeight = some t ∧ a < t) :
    spentAt (bs.take (a + 1)) k = none := by
  obtain ⟨hcreated, hspent, -⟩ := ledger_eq_some hs
  rcases habove with hlt | ⟨t, ht, hlt⟩
  · have hpre : createdAt (bs.take (a + 1)) k = none := by
      rw [createdAt_take, hcreated]
      simp [Option.filter, show ¬s.height < a + 1 by omega]
    rw [← List.take_append_drop (a + 1) bs, createdAt_append, hpre, Option.none_or] at hcreated
    rw [← List.take_append_drop (a + 1) bs] at hvalid
    exact (hvalid.created_right (Option.isSome_of_eq_some hcreated)).2
  · rw [spentAt_take, hspent, ht]
    simp [Option.filter, show ¬t < a + 1 by omega]

/-- The batches above `a` are replaced, and scanned over a ledger that
still has the old ones: when the result is the new ledger. -/
theorem scanFrom_forgotten_iff {bs suf : List (Batch K R)} {a : Nat} (ha : a < bs.length)
    (hvalid : Valid bs) (hnew : Valid (bs.take (a + 1) ++ suf)) :
    scanFrom (a + 1) suf (ledger bs) = ledger (bs.take (a + 1) ++ suf) ↔
    ∀ k s, ledger bs k = some s →
      (a < s.height → (createdFrom (a + 1) suf k).isSome ∧
        (s.spentHeight.isSome → (spentAt (bs.take (a + 1) ++ suf) k).isSome)) ∧
      (s.height ≤ a → ∀ t, s.spentHeight = some t → a < t →
        spentAt (bs.take (a + 1) ++ suf) k = some t) := by
  have hlen : (bs.take (a + 1)).length = a + 1 := List.length_take_of_le ha
  have hscan := scanFrom_ledger hnew
  have hspent : ∀ k s, ledger bs k = some s →
      (a < s.height ∨ ∃ t, s.spentHeight = some t ∧ a < t) →
      spentAt (bs.take (a + 1) ++ suf) k = spentFrom (a + 1) suf k := by
    intro k s hs habove
    rw [spentAt_append, spentAt_take_eq_none hvalid hs habove, Option.none_or, hlen]
  rw [hlen] at hscan
  rw [← hscan, ← rollbackAbove_ledger,
    scanFrom_rollbackAbove_iff (hnew.sublist (List.sublist_append_right _ _)) ?_ ?_]
  · refine forall_congr' fun k => forall_congr' fun s => imp_congr_right fun hs => ?_
    refine and_congr (imp_congr_right fun hlt => ?_) ?_
    · rw [hspent k s hs (.inl hlt)]
    · refine imp_congr_right fun _ => forall_congr' fun t => imp_congr_right fun ht =>
        imp_congr_right fun hlt => ?_
      rw [hspent k s hs (.inr ⟨t, ht, hlt⟩)]
  · intro k s hs
    exact (ledger_eq_some hs).2.2
  · intro k s hs hle
    refine hnew.created_left (c := (s.height, s.record)) ?_
    rw [createdAt_take, (ledger_eq_some hs).1]
    simp [Option.filter, show s.height < a + 1 by omega]

end Ledger

end EmvaultElements
