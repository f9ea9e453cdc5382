import Mathlib.Data.List.Forall2

/-!
# In-order signature matching

The loop of a multisig opcode pairs signatures with keys. It looks at
the top of both stacks: a signature that the key verifies is done, and
the key is used up either way. `checkMultisig` runs it on the lists as
they were pushed, so from their ends.

The loop is greedy, but complete: it succeeds exactly when the
signatures can be paired with some of the keys in order
(`checkMultisig_iff`). In particular it accepts the signatures looked
up at the keys in their order, any number of them
(`checkMultisig_lookup`).
-/

namespace EmvaultElements

namespace Multisig

variable {K S : Type} {valid : K → S → Bool}

/-- The loop, from the top of both stacks. The opcode also stops early
when signatures outnumber the keys left, which is when the loop is bound
to fail. -/
def matchSigs (valid : K → S → Bool) : List S → List K → Bool
  | [], _ => true
  | _ :: _, [] => false
  | sig :: sigs, key :: keys =>
      if valid key sig then matchSigs valid sigs keys else matchSigs valid (sig :: sigs) keys

/-- The check, on signatures and keys in the order they were pushed. -/
def checkMultisig (valid : K → S → Bool) (sigs : List S) (keys : List K) : Bool :=
  matchSigs valid sigs.reverse keys.reverse

/-- The signatures are those of some of the keys, in order. -/
def InOrder (valid : K → S → Bool) : List S → List K → Prop :=
  List.SublistForall₂ fun sig key => valid key sig

theorem InOrder.tail {sig : S} {sigs : List S} {key : K} {keys : List K}
    (h : InOrder valid (sig :: sigs) (key :: keys)) : InOrder valid sigs keys := by
  obtain ⟨ks, hks, hsub⟩ := List.sublistForall₂_iff.mp h
  cases hks with
  | cons hsig hrest =>
      exact List.sublistForall₂_iff.mpr ⟨_, hrest, List.Sublist.of_cons_cons hsub⟩

theorem InOrder.of_invalid {sig : S} {sigs : List S} {key : K} {keys : List K}
    (hkey : valid key sig = false) (h : InOrder valid (sig :: sigs) (key :: keys)) :
    InOrder valid (sig :: sigs) keys := by
  cases h with
  | cons hsig _ =>
      rw [hkey] at hsig
      cases hsig
  | cons_right h => exact h

/-- The loop succeeds when the signatures can be paired in order. -/
theorem matchSigs_iff : ∀ {sigs : List S} {keys : List K},
    matchSigs valid sigs keys ↔ InOrder valid sigs keys
  | [], _ => ⟨fun _ => .nil, fun _ => by simp [matchSigs]⟩
  | _ :: _, [] => by
      constructor
      · intro h
        simp [matchSigs] at h
      · intro h
        cases h
  | sig :: sigs, key :: keys => by
      rw [matchSigs]
      cases hkey : valid key sig with
      | true =>
          rw [if_pos rfl, matchSigs_iff]
          exact ⟨fun h => .cons hkey h, InOrder.tail⟩
      | false =>
          rw [if_neg (by simp), matchSigs_iff]
          exact ⟨fun h => .cons_right h, InOrder.of_invalid hkey⟩

theorem inOrder_reverse {sigs : List S} {keys : List K} :
    InOrder valid sigs.reverse keys.reverse ↔ InOrder valid sigs keys := by
  have hrev : ∀ {sigs : List S} {keys : List K}, InOrder valid sigs keys →
      InOrder valid sigs.reverse keys.reverse := by
    intro sigs keys h
    obtain ⟨ks, hks, hsub⟩ := List.sublistForall₂_iff.mp h
    exact List.sublistForall₂_iff.mpr ⟨ks.reverse, List.forall₂_reverse_iff.mpr hks, hsub.reverse⟩
  refine ⟨fun h => ?_, hrev⟩
  have := hrev h
  rwa [List.reverse_reverse, List.reverse_reverse] at this

/-- The check succeeds exactly when the signatures are those of some of
the keys, in order. -/
theorem checkMultisig_iff {sigs : List S} {keys : List K} :
    checkMultisig valid sigs keys ↔ InOrder valid sigs keys :=
  matchSigs_iff.trans inOrder_reverse

theorem inOrder_lookup {find : K → Option S} : ∀ {keys : List K},
    (∀ key ∈ keys, ∀ sig, find key = some sig → valid key sig) →
      InOrder valid (keys.filterMap find) keys
  | [], _ => .nil
  | key :: keys, hvalid => by
      have hrest : InOrder valid (keys.filterMap find) keys :=
        inOrder_lookup fun k hk => hvalid k (List.mem_cons_of_mem key hk)
      cases hfind : find key with
      | none =>
          rw [List.filterMap_cons_none hfind]
          exact .cons_right hrest
      | some sig =>
          rw [List.filterMap_cons_some hfind]
          exact .cons (hvalid key (List.mem_cons_self ..) sig hfind) hrest

/-- Of the signatures looked up, the first `m` need no others to be
valid. -/
theorem inOrder_take_lookup {find : K → Option S} : ∀ {m : Nat} {keys : List K},
    (∀ key ∈ (keys.filter fun key => (find key).isSome).take m, ∀ sig, find key = some sig →
      valid key sig) →
      InOrder valid ((keys.filterMap find).take m) keys
  | _, [], _ => by
      rw [List.filterMap_nil, List.take_nil]
      exact .nil
  | 0, _ :: _, _ => .nil
  | m + 1, key :: keys, hvalid => by
      cases hfind : find key with
      | none =>
          rw [List.filter_cons_of_neg (by simp [hfind])] at hvalid
          rw [List.filterMap_cons_none hfind]
          exact .cons_right (inOrder_take_lookup hvalid)
      | some sig =>
          rw [List.filter_cons_of_pos (by simp [hfind]), List.take_succ_cons] at hvalid
          rw [List.filterMap_cons_some hfind, List.take_succ_cons]
          refine .cons (hvalid key (List.mem_cons_self ..) sig hfind) (inOrder_take_lookup ?_)
          exact fun k hk => hvalid k (List.mem_cons_of_mem key hk)

theorem InOrder.exists_key {sigs : List S} {keys : List K} (h : InOrder valid sigs keys) {sig : S}
    (hsig : sig ∈ sigs) : ∃ key ∈ keys, valid key sig := by
  induction h with
  | nil => cases hsig
  | @cons sig' key sigs keys hvalid _ ih =>
      rcases List.mem_cons.mp hsig with rfl | hrest
      · exact ⟨key, List.mem_cons_self .., hvalid⟩
      · obtain ⟨k, hk, hkvalid⟩ := ih hrest
        exact ⟨k, List.mem_cons_of_mem key hk, hkvalid⟩
  | @cons_right key _ _ _ ih =>
      obtain ⟨k, hk, hkvalid⟩ := ih hsig
      exact ⟨k, List.mem_cons_of_mem key hk, hkvalid⟩

theorem InOrder.sublist {sigs sigs' : List S} {keys : List K} (h : InOrder valid sigs keys)
    (hsub : sigs'.Sublist sigs) : InOrder valid sigs' keys := by
  induction h generalizing sigs' with
  | nil =>
      rw [List.sublist_nil.mp hsub]
      exact .nil
  | cons hsig hrest ih =>
      cases hsub with
      | cons _ hsub => exact .cons_right (ih hsub)
      | cons_cons _ hsub => exact .cons hsig (ih hsub)
  | cons_right _ ih => exact .cons_right (ih hsub)

/-- Signatures looked up in the order of the keys pass the check, and so
do the first `m` of them. -/
theorem checkMultisig_lookup {find : K → Option S} {keys : List K}
    (hvalid : ∀ key ∈ keys, ∀ sig, find key = some sig → valid key sig) (m : Nat) :
    checkMultisig valid ((keys.filterMap find).take m) keys :=
  checkMultisig_iff.mpr ((inOrder_lookup hvalid).sublist (List.take_sublist m _))

end Multisig

end EmvaultElements
