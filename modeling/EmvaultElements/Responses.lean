import EmvaultElements.Board
import EmvaultElements.Threshold

/-!
# Returned PSETs

What `receive_signature` does with a PSET that has nothing to offer
beyond the coordinator's inputs (`NoExtra`). The signatures of the
coordinator are a board, with a place for every key of every input, and
a returned PSET is an offer for the places its own key origins list
under the signer's fingerprint (`mergeInputs_board`).

`attributed_iff`: it is the origins of the returned PSET that are read,
not the coordinator's. Where the two differ a signer may fill another's
place.
-/

namespace EmvaultElements

variable {PK Id : Type} [DecidableEq PK]

/-! ## One input -/

/-- The signatures of a returned input that are merged. -/
def PsetInput.news (input : PsetInput PK) (fp : Fingerprint) (signedInput : PsetInput PK) :
    List (PK × List UInt8) :=
  (signedInput.attributable fp).filter fun e => e.1 ∉ input.partialSigs

def PsetInput.merged (input : PsetInput PK) (fp : Fingerprint) (signedInput : PsetInput PK) :
    PsetInput PK := input.insertSigs (input.news fp signedInput)

theorem getSig_insertSigs {sigs : List (PK × List UInt8)} (hnodup : (sigs.map Prod.fst).Nodup)
    {input : PsetInput PK} {pk : PK} {sig : List UInt8} :
    (input.insertSigs sigs).getSig pk = some sig ↔
      (pk, sig) ∈ sigs ∨ (pk ∉ sigs.map Prod.fst ∧ input.getSig pk = some sig) := by
  induction sigs generalizing input with
  | nil => simp [PsetInput.insertSigs]
  | cons e sigs ih =>
      obtain ⟨pk', sig'⟩ := e
      obtain ⟨hfirst, hrest⟩ := List.nodup_cons.mp hnodup
      have hstep : input.insertSigs ((pk', sig') :: sigs) =
          (input.insertSigs [(pk', sig')]).insertSigs sigs := by
        rw [insertSigs_append]
        rfl
      have hone : (input.insertSigs [(pk', sig')]).getSig pk =
          if pk = pk' then some sig' else input.getSig pk := Map.lookup_insert_eq _ _ _ _
      rw [hstep, ih hrest, hone]
      by_cases hpk : pk = pk'
      · subst hpk
        have hno : ∀ sig, (pk, sig) ∉ sigs := fun sig hmem =>
          hfirst (List.mem_map.mpr ⟨_, hmem, rfl⟩)
        constructor
        · rintro (hmem | ⟨-, hsig⟩)
          · exact absurd hmem (hno sig)
          · rw [if_pos rfl] at hsig
            cases hsig
            exact .inl (List.mem_cons_self ..)
        · rintro (hmem | ⟨hnot, -⟩)
          · rcases List.mem_cons.mp hmem with heq | hmem
            · cases heq
              exact .inr ⟨hfirst, if_pos rfl⟩
            · exact absurd hmem (hno sig)
          · exact absurd (List.mem_cons_self ..) hnot
      · simp [hpk]

theorem mem_attributable {signedInput : PsetInput PK} {fp : Fingerprint} {pk : PK}
    {sig : List UInt8} : (pk, sig) ∈ signedInput.attributable fp ↔
      Origin fp signedInput.bip32Derivation pk ∧ signedInput.getSig pk = some sig := by
  simp only [PsetInput.attributable, List.mem_map, List.mem_filter, Prod.mk.injEq, fpMatches_iff]
  constructor
  · rintro ⟨e, ⟨hmem, horigin⟩, rfl, rfl⟩
    exact ⟨horigin, Map.mem_entries_iff.mp hmem⟩
  · rintro ⟨horigin, hsig⟩
    exact ⟨⟨pk, sig⟩, ⟨Map.mem_entries_iff.mpr hsig, horigin⟩, rfl, rfl⟩

theorem mem_news {input signedInput : PsetInput PK} {fp : Fingerprint} {pk : PK}
    {sig : List UInt8} : (pk, sig) ∈ input.news fp signedInput ↔
      input.getSig pk = none ∧ Origin fp signedInput.bip32Derivation pk ∧
        signedInput.getSig pk = some sig := by
  rw [PsetInput.news, List.mem_filter, mem_attributable, decide_eq_true_eq, ← AList.lookup_eq_none,
    and_comm]
  rfl

theorem nodup_news (input signedInput : PsetInput PK) (fp : Fingerprint) :
    ((input.news fp signedInput).map Prod.fst).Nodup := by
  have hsub : ((input.news fp signedInput).map Prod.fst).Sublist
      (signedInput.partialSigs.entries.map Sigma.fst) := by
    refine (List.filter_sublist.map Prod.fst).trans ?_
    rw [PsetInput.attributable, List.map_map]
    exact List.filter_sublist.map Sigma.fst
  exact List.Nodup.sublist hsub signedInput.partialSigs.keys_nodup

/-- A merge fills places that were free. -/
theorem getSig_merged {input signedInput : PsetInput PK} {fp : Fingerprint} {pk : PK}
    {sig : List UInt8} : (input.merged fp signedInput).getSig pk = some sig ↔
      input.getSig pk = some sig ∨ (input.getSig pk = none ∧
        Origin fp signedInput.bip32Derivation pk ∧ signedInput.getSig pk = some sig) := by
  rw [PsetInput.merged, getSig_insertSigs (nodup_news input signedInput fp), mem_news, or_comm]
  refine or_congr_left ⟨fun h => h.2, ?_⟩
  intro hsig
  refine ⟨?_, hsig⟩
  intro hmem
  obtain ⟨⟨pk', sig'⟩, he, rfl⟩ := List.mem_map.mp hmem
  rw [(mem_news.mp he).1] at hsig
  cases hsig

/-! ## All inputs -/

theorem mergeInput_eq {fp : Fingerprint} {pset : Pset PK} {found : Bool} {i : Nat}
    {input : PsetInput PK} (hi : pset.inputs[i]? = some input) (s : PsetInput PK) :
    mergeInput fp (pset, found) (s, i) =
      some ({ pset with inputs := pset.inputs.set i (input.merged fp s) },
        found || !(input.news fp s).isEmpty) := by
  unfold mergeInput
  dsimp only
  rw [hi]
  rfl

/-- Beyond the inputs of the coordinator, a returned PSET has no
signature that is attributable. -/
def NoExtra (fp : Fingerprint) (inputs signed : List (PsetInput PK)) : Prop :=
  ∀ (i : Nat) s, signed[i]? = some s → inputs.length ≤ i → s.attributable fp = []

theorem noExtra_of_length {fp : Fingerprint} {inputs signed : List (PsetInput PK)}
    (hlen : signed.length = inputs.length) : NoExtra fp inputs signed := by
  intro i s hi hle
  rw [List.getElem?_eq_none (hlen ▸ hle)] at hi
  cases hi

/-- The inputs with those returned merged into them, one by one. -/
def mergeByPosition (fp : Fingerprint) :
    List (PsetInput PK) → List (PsetInput PK) → List (PsetInput PK)
  | inputs, [] => inputs
  | [], _ :: _ => []
  | input :: inputs, s :: signed => input.merged fp s :: mergeByPosition fp inputs signed

theorem getElem?_mergeByPosition (fp : Fingerprint) : ∀ (inputs signed : List (PsetInput PK))
    (i : Nat),
    (mergeByPosition fp inputs signed)[i]? =
      (inputs[i]?).map fun input => (signed[i]?).elim input (input.merged fp)
  | inputs, [], i => by
      rw [mergeByPosition, List.getElem?_nil]
      exact (Option.map_id_apply ..).symm
  | [], s :: signed, i => by rw [mergeByPosition, List.getElem?_nil, Option.map_none]
  | input :: inputs, s :: signed, 0 => rfl
  | input :: inputs, s :: signed, i + 1 => by
      rw [mergeByPosition, List.getElem?_cons_succ, getElem?_mergeByPosition fp inputs signed i]
      rfl

theorem length_mergeByPosition (fp : Fingerprint) : ∀ inputs signed : List (PsetInput PK),
    (mergeByPosition fp inputs signed).length = inputs.length
  | inputs, [] => by rw [mergeByPosition]
  | [], _ :: _ => rfl
  | input :: inputs, s :: signed => by
      rw [mergeByPosition, List.length_cons, length_mergeByPosition fp inputs signed,
        List.length_cons]

/-- Beyond the coordinator's inputs nothing is merged. -/
theorem mergeInputs_beyond {fp : Fingerprint} {signed : List (PsetInput PK)} :
    ∀ {k : Nat} {acc : Pset PK × Bool}, acc.1.inputs.length ≤ k →
      (∀ s ∈ signed, s.attributable fp = []) → mergeInputs fp (signed.zipIdx k) acc = some acc := by
  induction signed with
  | nil => exact fun _ _ => rfl
  | cons s signed ih =>
      intro k acc hle hnone
      have hone : mergeInput fp acc (s, k) = some acc := by
        unfold mergeInput
        dsimp only
        rw [List.getElem?_eq_none hle]
        exact if_pos (hnone s (List.mem_cons_self ..))
      rw [List.zipIdx_cons, mergeInputs, hone, Option.bind_some]
      exact ih (Nat.le_succ_of_le hle) fun s' hs' => hnone s' (List.mem_cons_of_mem s hs')

/-- The merge is input by input. -/
theorem mergeInputs_eq (fp : Fingerprint) (pset : Pset PK) (signed : List (PsetInput PK)) :
    ∀ (rest done : List (PsetInput PK)) (found : Bool), NoExtra fp rest signed →
      mergeInputs fp (signed.zipIdx done.length) ({ pset with inputs := done ++ rest }, found) =
        some ({ pset with inputs := done ++ mergeByPosition fp rest signed },
          found || (List.zipWith (fun input s => !(input.news fp s).isEmpty)
            rest signed).any id) := by
  induction signed with
  | nil =>
      intro rest done found _
      simp [mergeInputs, mergeByPosition]
  | cons s signed ih =>
      intro rest done found hextra
      cases rest with
      | nil =>
          have hnone : ∀ s' ∈ s :: signed, s'.attributable fp = [] := by
            intro s' hs'
            obtain ⟨i, hi⟩ := List.mem_iff_getElem?.mp hs'
            exact hextra i s' hi (Nat.zero_le i)
          rw [mergeInputs_beyond (by rw [List.append_nil]) hnone, mergeByPosition,
            List.zipWith_nil_left,
            List.any_nil, Bool.or_false]
      | cons input rest =>
          have hi : (done ++ input :: rest)[done.length]? = some input := by
            rw [List.getElem?_append_right (Nat.le_refl _), Nat.sub_self]
            rfl
          have hset : (done ++ input :: rest).set done.length (input.merged fp s) =
              (done ++ [input.merged fp s]) ++ rest := by
            rw [List.set_append_right _ _ (Nat.le_refl _), Nat.sub_self, List.set_cons_zero,
              List.append_assoc, List.singleton_append]
          have hextra' : NoExtra fp rest signed := by
            intro i s' hi' hle
            exact hextra (i + 1) s' hi' (Nat.succ_le_succ hle)
          have hrest := ih rest (done ++ [input.merged fp s])
            (found || !(input.news fp s).isEmpty) hextra'
          rw [List.length_append, List.length_singleton] at hrest
          have hone : mergeInput fp ({ pset with inputs := done ++ input :: rest }, found)
              (s, done.length) = some ({ pset with inputs :=
                (done ++ [input.merged fp s]) ++ rest },
                found || !(input.news fp s).isEmpty) := by
            rw [← hset]
            exact mergeInput_eq hi s
          rw [List.zipIdx_cons, mergeInputs, hone, Option.bind_some, hrest, List.append_assoc,
            List.singleton_append, mergeByPosition, List.zipWith_cons_cons, List.any_cons,
            Bool.or_assoc, id_eq]

/-- The signatures of a PSET: a place for every key of every input. -/
def Pset.board (pset : Pset PK) : Nat × PK → Option (List UInt8) := fun k =>
  (pset.inputs[k.1]?).bind fun input => input.getSig k.2

/-- What a returned PSET offers for a fingerprint: the signatures under
the keys its own origins list for it. -/
def Pset.offer (fp : Fingerprint) (signedPset : Pset PK) :
    Nat × PK → Option (List UInt8) := fun k =>
  (signedPset.inputs[k.1]?).bind fun s => if s.fpMatches fp k.2 then s.getSig k.2 else none

theorem offer_eq_some {fp : Fingerprint} {signedPset : Pset PK} {i : Nat} {pk : PK}
    {sig : List UInt8} : signedPset.offer fp (i, pk) = some sig ↔
      ∃ s, signedPset.inputs[i]? = some s ∧ Origin fp s.bip32Derivation pk ∧
        s.getSig pk = some sig := by
  simp only [Pset.offer, Option.bind_eq_some_iff, Option.ite_none_right_eq_some, fpMatches_iff]

theorem getElem?_both {α β : Type} {l : List α} {l' : List β} (hlen : l.length = l'.length)
    (i : Nat) : (l'[i]? = none ∧ l[i]? = none) ∨ ∃ b a, l'[i]? = some b ∧ l[i]? = some a := by
  rcases Nat.lt_or_ge i l'.length with hlt | hge
  · exact .inr ⟨_, _, List.getElem?_eq_getElem hlt, List.getElem?_eq_getElem (hlen ▸ hlt)⟩
  · exact .inl ⟨List.getElem?_eq_none hge, List.getElem?_eq_none (hlen ▸ hge)⟩

/-- A merge posts the offer, and finds something new when the offer
brings something. -/
theorem mergeInputs_board (fp : Fingerprint) {pset signedPset : Pset PK}
    (hextra : NoExtra fp pset.inputs signedPset.inputs) :
    ∃ pset' found, mergeInputs fp signedPset.inputs.zipIdx (pset, false) = some (pset', found) ∧
      pset'.board = Board.post pset.board (signedPset.offer fp) ∧
      (found = true ↔ Board.Brings pset.board (signedPset.offer fp)) := by
  -- what is offered is for an input the coordinator has
  have hinput : ∀ {i : Nat} {s : PsetInput PK} {pk : PK} {sig : List UInt8},
    signedPset.inputs[i]? = some s →
      Origin fp s.bip32Derivation pk → s.getSig pk = some sig →
      ∃ input, pset.inputs[i]? = some input := by
    intro i s pk sig hs horigin hsig
    rcases Nat.lt_or_ge i pset.inputs.length with hlt | hge
    · exact ⟨_, List.getElem?_eq_getElem hlt⟩
    · have hmem : (pk, sig) ∈ s.attributable fp := mem_attributable.mpr ⟨horigin, hsig⟩
      rw [hextra i s hs hge] at hmem
      cases hmem
  refine ⟨_, _, mergeInputs_eq fp pset signedPset.inputs pset.inputs [] false hextra, ?_, ?_⟩
  · funext k
    obtain ⟨i, pk⟩ := k
    refine Option.ext fun sig => ?_
    rw [Board.post_eq_some_iff, offer_eq_some]
    simp only [Pset.board, List.nil_append, getElem?_mergeByPosition]
    cases hi : pset.inputs[i]? with
    | none =>
        constructor
        · intro hno
          cases hno
        · rintro (hno | ⟨-, s, hs, horigin, hsig⟩)
          · cases hno
          · obtain ⟨input, hi'⟩ := hinput hs horigin hsig
            rw [hi] at hi'
            cases hi'
    | some input =>
        cases hs : signedPset.inputs[i]? with
        | none => simp
        | some s =>
            simp only [Option.map_some, Option.elim_some, Option.bind_some, getSig_merged,
              Option.some.injEq, exists_eq_left']
  · rw [Bool.false_or, List.any_eq_true]
    constructor
    · rintro ⟨new, hmem, hnew⟩
      obtain ⟨i, hi⟩ := List.mem_iff_getElem?.mp hmem
      rw [List.getElem?_zipWith_eq_some] at hi
      obtain ⟨input, s, hi₀, hs, rfl⟩ := hi
      obtain ⟨⟨pk, sig⟩, he⟩ := List.exists_mem_of_ne_nil (input.news fp s) (by simpa using hnew)
      obtain ⟨hfree, horigin, hsig⟩ := mem_news.mp he
      refine ⟨(i, pk), ?_, ?_⟩
      · rw [Pset.board, hi₀]
        exact hfree
      · rw [offer_eq_some.mpr ⟨s, hs, horigin, hsig⟩]
        rfl
    · rintro ⟨⟨i, pk⟩, hfree, hsome⟩
      obtain ⟨sig, hoffer⟩ := Option.isSome_iff_exists.mp hsome
      obtain ⟨s, hs, horigin, hsig⟩ := offer_eq_some.mp hoffer
      obtain ⟨input, hi⟩ := hinput hs horigin hsig
      rw [Pset.board, hi] at hfree
      refine ⟨!(input.news fp s).isEmpty, List.mem_of_getElem? (i := i) ?_, ?_⟩
      · rw [List.getElem?_zipWith, hi, hs]
      · have hmem : (pk, sig) ∈ input.news fp s := mem_news.mpr ⟨hfree, horigin, hsig⟩
        simpa using List.ne_nil_of_mem hmem

/-! ## One response -/

/-- A member of the federation, as `receive_signature` looks it up. -/
def Federation.member (fed : Federation Id) (id : Id) : Option Signer :=
  if fed.contains id then fed.find id else none

theorem Federation.member_eq_some_iff {fed : Federation Id} {id : Id} {signer : Signer} :
    fed.member id = some signer ↔ fed.contains id ∧ fed.find id = some signer := by
  rw [Federation.member, Option.ite_none_right_eq_some]

/-- What a response offers: a returned PSET that is not a member's
offers nothing. -/
def Federation.offer (fed : Federation Id) (r : Id × Pset PK) :
    Nat × PK → Option (List UInt8) := fun k =>
  (fed.member r.1).bind fun signer => r.2.offer signer.fingerprint k

/-- The error of a response that is not accepted. -/
def Federation.refusal (fed : Federation Id) (id : Id) : PsetError Id :=
  match fed.member id with
  | none => .unknownSigner id
  | some _ => .invalidSignature id "no new partial signature attributable to this signer"

namespace ElementsSigningCoordinator

variable [DecidableEq Id] {c : ElementsSigningCoordinator PK Id} {id : Id} {signedPset : Pset PK}

theorem receiveSignature_of_unknown (hid : c.federation.member id = none) :
    c.receiveSignature id signedPset = (.err (.unknownSigner id), c) := by
  unfold Federation.member at hid
  unfold receiveSignature
  split at hid
  · next hmember => rw [hid, if_neg (by simpa using hmember)]
  · next hno => rw [if_pos (by simpa using hno)]

theorem receiveSignature_of_member {signer : Signer} (hid : c.federation.member id = some signer)
    {pset : Pset PK} {found : Bool}
    (hmerge : mergeInputs signer.fingerprint signedPset.inputs.zipIdx (c.pset, false) =
      some (pset, found)) :
    c.receiveSignature id signedPset = if found then
        (.ok (), { c with pset, signed := insert id c.signed })
      else (.err (.invalidSignature id "no new partial signature attributable to this signer"),
        { c with pset }) := by
  obtain ⟨hmember, hfind⟩ := Federation.member_eq_some_iff.mp hid
  unfold receiveSignature
  rw [if_neg (by simpa using hmember), hfind]
  dsimp only
  rw [hmerge]
  cases found <;> rfl

/-- What a response does to a coordinator: it posts the offer, and
counts the signer when the offer brings something. -/
structure Receives (c : ElementsSigningCoordinator PK Id) (r : Id × Pset PK)
    (o : Outcome (PsetError Id) Unit) (c' : ElementsSigningCoordinator PK Id) : Prop where
  federation : c'.federation = c.federation
  board : c'.pset.board = Board.post c.pset.board (c.federation.offer r)
  ok_iff : o = .ok () ↔ Board.Brings c.pset.board (c.federation.offer r)
  refused : o ≠ .ok () → o = .err (c.federation.refusal r.1)
  signed : ∀ id, id ∈ c'.signed ↔ id ∈ c.signed ∨ (id = r.1 ∧ o = .ok ())
  inputs : c.pset.Extends (fun _ _ => True) c'.pset

theorem receives_of_noExtra (c : ElementsSigningCoordinator PK Id) (r : Id × Pset PK)
    (hextra : ∀ signer, c.federation.member r.1 = some signer →
      NoExtra signer.fingerprint c.pset.inputs r.2.inputs) :
    Receives c r (c.receiveSignature r.1 r.2).1 (c.receiveSignature r.1 r.2).2 := by
  cases hid : c.federation.member r.1 with
  | none =>
      have hoffer : c.federation.offer r = fun _ => none := by
        funext k
        rw [Federation.offer, hid]
        rfl
      rw [receiveSignature_of_unknown hid]
      refine ⟨rfl, ?_, ?_, ?_, ?_, .refl _⟩
      · rw [hoffer]
        funext k
        exact (Option.or_none ..).symm
      · rw [hoffer]
        refine iff_of_false nofun ?_
        rintro ⟨k, -, hsome⟩
        cases hsome
      · intro _
        rw [Federation.refusal, hid]
      · simp
  | some signer =>
      have hoffer : c.federation.offer r = r.2.offer signer.fingerprint := by
        funext k
        rw [Federation.offer, hid]
        rfl
      obtain ⟨pset, found, hmerge, hboard, hfound⟩ :=
        mergeInputs_board signer.fingerprint (hextra signer hid)
      have hext := (mergeInputs_spec (P := fun _ _ => True) (fun _ _ _ _ _ _ => trivial) hmerge).1
      rw [receiveSignature_of_member hid hmerge]
      cases found with
      | true =>
          refine ⟨rfl, ?_, ?_, fun hno => absurd rfl hno, ?_, hext⟩
          · rw [hoffer]
            exact hboard
          · rw [hoffer]
            exact iff_of_true rfl (hfound.mp rfl)
          · intro id
            simp only [if_true, Finset.mem_insert, and_true]
            exact or_comm
      | false =>
          refine ⟨rfl, ?_, ?_, ?_, ?_, hext⟩
          · rw [hoffer]
            exact hboard
          · rw [hoffer]
            exact iff_of_false nofun fun hbrings => nomatch hfound.mpr hbrings
          · intro _
            rw [Federation.refusal, hid]
            rfl
          · simp

theorem receives (c : ElementsSigningCoordinator PK Id) (r : Id × Pset PK)
    (hlen : r.2.inputs.length = c.pset.inputs.length) :
    Receives c r (c.receiveSignature r.1 r.2).1 (c.receiveSignature r.1 r.2).2 :=
  receives_of_noExtra c r fun _ _ => noExtra_of_length hlen

end ElementsSigningCoordinator

/-! ## Whose origins are read -/

/-- Signatures are added to the inputs, and nothing else changes. -/
structure OnlyAdds (pset pset' : Pset PK) : Prop where
  outputs : pset'.outputs = pset.outputs
  length : pset'.inputs.length = pset.inputs.length
  inputs : ∀ (i : Nat) input, pset.inputs[i]? = some input → ∃ input',
    pset'.inputs[i]? = some input' ∧ input' = { input with partialSigs := input'.partialSigs } ∧
      ∀ pk sig, input.getSig pk = some sig → input'.getSig pk = some sig

/-- The signatures added to an input are those returned for it under the
keys that the coordinator's input lists under the fingerprint. So the
places of the other fingerprints are left alone. -/
structure Attributed (fp : Fingerprint) (input signedInput input' : PsetInput PK) : Prop where
  added : ∀ pk sig, input.getSig pk = none → (input'.getSig pk = some sig ↔
    Origin fp input.bip32Derivation pk ∧ signedInput.getSig pk = some sig)
  others : ∀ fp', fp' ≠ fp → ∀ pk, Origin fp' input.bip32Derivation pk →
    input'.getSig pk = input.getSig pk

/-- The signatures of every input are attributed by the coordinator. -/
def AttributedByCoordinator (fp : Fingerprint) (pset signedPset pset' : Pset PK) : Prop :=
  ∀ (i : Nat) input signedInput input', pset.inputs[i]? = some input →
    signedPset.inputs[i]? = some signedInput → pset'.inputs[i]? = some input' →
    Attributed fp input signedInput input'

/-- Of the keys with a new signature, the returned PSET and the
coordinator list the same under the fingerprint. -/
def SameAttribution (fp : Fingerprint) (pset signedPset : Pset PK) : Prop :=
  ∀ (i : Nat) input signedInput, pset.inputs[i]? = some input →
    signedPset.inputs[i]? = some signedInput → ∀ pk, input.getSig pk = none →
    (signedInput.getSig pk).isSome →
    (Origin fp signedInput.bip32Derivation pk ↔ Origin fp input.bip32Derivation pk)

/-- One input: the merge reads the origins of the returned input. -/
theorem attributed_merged_iff {fp : Fingerprint} {input signedInput : PsetInput PK} :
    Attributed fp input signedInput (input.merged fp signedInput) ↔
      ∀ pk, input.getSig pk = none → (signedInput.getSig pk).isSome →
        (Origin fp signedInput.bip32Derivation pk ↔ Origin fp input.bip32Derivation pk) := by
  have hmerged : ∀ pk sig, input.getSig pk = none →
      ((input.merged fp signedInput).getSig pk = some sig ↔
        Origin fp signedInput.bip32Derivation pk ∧ signedInput.getSig pk = some sig) := by
    intro pk sig hfree
    simp [getSig_merged, hfree]
  constructor
  · intro h pk hfree hsome
    obtain ⟨sig, hsig⟩ := Option.isSome_iff_exists.mp hsome
    have hiff := (hmerged pk sig hfree).symm.trans (h.added pk sig hfree)
    rwa [and_iff_left hsig, and_iff_left hsig] at hiff
  · intro h
    have hadded : ∀ pk sig, input.getSig pk = none →
        ((input.merged fp signedInput).getSig pk = some sig ↔
          Origin fp input.bip32Derivation pk ∧ signedInput.getSig pk = some sig) := by
      intro pk sig hfree
      rw [hmerged pk sig hfree]
      refine and_congr_left fun hsig => ?_
      exact h pk hfree (Option.isSome_of_eq_some hsig)
    refine ⟨hadded, ?_⟩
    rintro fp' hne pk ⟨path', hpath'⟩
    cases hold : input.getSig pk with
    | some sig => exact getSig_merged.mpr (.inl hold)
    | none =>
        refine Option.eq_none_iff_forall_ne_some.mpr ?_
        intro sig hsig
        obtain ⟨⟨path, hpath⟩, -⟩ := (hadded pk sig hold).mp hsig
        exact hne (congrArg Prod.fst (Option.some.inj (hpath'.symm.trans hpath)))

section

variable [DecidableEq Id] {c c' : ElementsSigningCoordinator PK Id} {id : Id} {signedPset : Pset PK}

/-- A response that is accepted only adds signatures. They are those the
coordinator's own origins attribute to the signer exactly when the
returned PSET lists the same keys for it, among those with a new
signature. -/
theorem attributed_iff (hlen : signedPset.inputs.length = c.pset.inputs.length)
    (hok : c.receiveSignature id signedPset = (.ok (), c')) :
    OnlyAdds c.pset c'.pset ∧ ∃ signer, c.federation.find id = some signer ∧
      (AttributedByCoordinator signer.fingerprint c.pset signedPset c'.pset ↔
        SameAttribution signer.fingerprint c.pset signedPset) := by
  obtain ⟨signer, hid⟩ : ∃ signer, c.federation.member id = some signer := by
    cases hid : c.federation.member id with
    | some signer => exact ⟨signer, rfl⟩
    | none =>
        rw [ElementsSigningCoordinator.receiveSignature_of_unknown hid] at hok
        cases hok
  have hmerge := mergeInputs_eq signer.fingerprint c.pset signedPset.inputs c.pset.inputs [] false
    (noExtra_of_length hlen)
  have hinputs : c'.pset = { c.pset with
      inputs := mergeByPosition signer.fingerprint c.pset.inputs signedPset.inputs } := by
    rw [ElementsSigningCoordinator.receiveSignature_of_member hid hmerge] at hok
    split at hok
    · cases hok
      rfl
    · cases hok
  have hmerged : ∀ (i : Nat) input signedInput, c.pset.inputs[i]? = some input →
      signedPset.inputs[i]? = some signedInput →
      c'.pset.inputs[i]? = some (input.merged signer.fingerprint signedInput) := by
    intro i input signedInput hi hs
    rw [hinputs, getElem?_mergeByPosition, hi, hs]
    rfl
  refine ⟨⟨by rw [hinputs], ?_, ?_⟩, signer, ?_, ?_⟩
  · rw [hinputs, length_mergeByPosition]
  · intro i input hi
    rcases getElem?_both hlen i with ⟨hnone, -⟩ | ⟨_, signedInput, -, hs⟩
    · rw [hi] at hnone
      cases hnone
    · refine ⟨_, hmerged i input signedInput hi hs, rfl, ?_⟩
      intro pk sig hsig
      exact getSig_merged.mpr (.inl hsig)
  · exact (Federation.member_eq_some_iff.mp hid).2
  · constructor
    · intro h i input signedInput hi hs
      exact attributed_merged_iff.mp
        (h i input signedInput _ hi hs (hmerged i input signedInput hi hs))
    · intro h i input signedInput input' hi hs hi'
      obtain rfl := Option.some.inj ((hmerged i input signedInput hi hs).symm.trans hi')
      exact attributed_merged_iff.mpr (h i input signedInput hi hs)

end

/-! A member of two returns a PSET that lists the other member's key
under its own fingerprint. -/

def plantedInput : PsetInput CompressedKey :=
  { multisigInput 0 2 [keyOne, keyTwo] [(keyTwo, [9])] with
    bip32Derivation := Map.collect [(keyTwo, (⟨1⟩, ⟨[]⟩))] }

def plantedPset : Pset CompressedKey := { inputs := [plantedInput], outputs := [blindedOutput] }

def unsignedByBoth : ElementsSigningCoordinator CompressedKey Nat :=
  ⟨twoMembers, ownedPset.pset, ∅⟩

theorem attributed_iff_planted : AttributedByCoordinator ⟨1⟩ ownedPset.pset plantedPset
      (unsignedByBoth.receiveSignature 1 plantedPset).2.pset ↔
    SameAttribution ⟨1⟩ ownedPset.pset plantedPset := by
  have hok : unsignedByBoth.receiveSignature 1 plantedPset =
      (.ok (), (unsignedByBoth.receiveSignature 1 plantedPset).2) := rfl
  have hlen : plantedPset.inputs.length = unsignedByBoth.pset.inputs.length := rfl
  obtain ⟨-, signer, hfind, hiff⟩ := attributed_iff hlen hok
  cases hfind
  exact hiff

/-- The planted signature takes the other member's place. -/
theorem planted_key_is_merged : ¬∀ (c c' : ElementsSigningCoordinator CompressedKey Nat) (id : Nat)
    (signer : Signer) (signedPset : Pset CompressedKey),
    signedPset.inputs.length = c.pset.inputs.length → c.federation.find id = some signer →
    c.receiveSignature id signedPset = (.ok (), c') →
    OnlyAdds c.pset c'.pset ∧
      AttributedByCoordinator signer.fingerprint c.pset signedPset c'.pset := by
  intro hgeneral
  have hok : unsignedByBoth.receiveSignature 1 plantedPset =
      (.ok (), (unsignedByBoth.receiveSignature 1 plantedPset).2) := rfl
  have hlen : plantedPset.inputs.length = unsignedByBoth.pset.inputs.length := rfl
  obtain ⟨-, hattributed⟩ := hgeneral _ _ 1 ⟨⟨1⟩⟩ _ hlen rfl hok
  obtain ⟨input', hi', hplanted⟩ : ∃ input',
      (unsignedByBoth.receiveSignature 1 plantedPset).2.pset.inputs[0]? = some input' ∧
        input'.getSig keyTwo = some [9] := ⟨_, rfl, rfl⟩
  have hothers := (hattributed 0 ownedInput plantedInput input' rfl rfl hi').others ⟨2⟩ (by decide)
    keyTwo ⟨⟨[]⟩, rfl⟩
  rw [hplanted] at hothers
  cases hothers

end EmvaultElements
