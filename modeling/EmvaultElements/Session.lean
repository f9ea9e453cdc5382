import EmvaultElements.FailedCalls
import EmvaultElements.FaultySigner

/-!
# Signing sessions

A coordinator and the software signers of its federation, which sign in
place or from afar: the coordinator's PSET is handed out, a signer signs
its copy, and the copy comes back. Copies are handed out at any moment,
so most are out of date when they return, and nothing is said about
delivery: a copy may be signed and returned any number of times or
never, in any order (`SessionStep`).

In every state of a session the coordinator has exactly the signatures
of the signers it counts (`Session.Inv`). So a session is as good as one
in which these have signed in place, one after the other, and a returned
copy is accepted once (`session_agrees`). When a quorum is counted the
PSET finalizes, and the opcode accepts every witness
(`session_finalizes`).
-/

namespace EmvaultElements

variable {PK Xpriv Id : Type} [DecidableEq PK] [DecidableEq Id]

/-- A coordinator, the PSETs handed out to signers, and those that
signers have signed. -/
structure Session (PK Id : Type) where
  coordinator : ElementsSigningCoordinator PK Id
  exported : List (Id × Pset PK)
  returned : List (Id × Pset PK)

section

variable [SigningLib PK Xpriv] (signers : Id → SoftwareSigner Xpriv)

/-- One step. A copy stays where it is, so that it may be signed or
received again. Calls in place that fail are no steps: they may leave
signatures of a signer that is not counted (`failed_call_iff`). -/
inductive SessionStep : Session PK Id → Session PK Id → Prop
  | handOut {s : Session PK Id} (id : Id) (hmember : (s.coordinator.federation.member id).isSome) :
      SessionStep s { s with exported := (id, s.coordinator.pset) :: s.exported }
  | sign {s : Session PK Id} {id : Id} {pset pset' : Pset PK} {n : Nat}
      (hmem : (id, pset) ∈ s.exported) (hsign : (signers id).signPset Id pset = (.ok n, pset')) :
      SessionStep s { s with returned := (id, pset') :: s.returned }
  | receive {s : Session PK Id} {id : Id} {pset : Pset PK} (hmem : (id, pset) ∈ s.returned) :
      SessionStep s { s with coordinator := (s.coordinator.receiveSignature id pset).2 }
  | signWith {s : Session PK Id} (id : Id) {n : Nat}
      (hok : (s.coordinator.signWith ((signers id).signPset Id) id).1 = .ok n) :
      SessionStep s
        { s with coordinator := (s.coordinator.signWith ((signers id).signPset Id) id).2 }

/-- The states of a session on a PSET. -/
inductive SessionRun (fed : Federation Id) (b : BlindedPset PK) : Session PK Id → Prop
  | start {c : ElementsSigningCoordinator PK Id}
      (hnew : ElementsSigningCoordinator.new fed b = .ok c) : SessionRun fed b ⟨c, [], []⟩
  | step {s s' : Session PK Id} (hrun : SessionRun fed b s) (hstep : SessionStep signers s s') :
      SessionRun fed b s'

/-- A member is on file and its signer has its fingerprint, and no two
members share one. -/
structure MemberSigners (fed : Federation Id) (signers : Id → SoftwareSigner Xpriv) : Prop where
  known : ∀ id, fed.contains id → (fed.member id).isSome
  fingerprint : ∀ id signer, fed.member id = some signer →
    (signers id).fingerprint = signer.fingerprint
  distinct : ∀ id id', (fed.member id).isSome → (fed.member id').isSome →
    (signers id).fingerprint = (signers id').fingerprint → id = id'

/-! ## What is signed -/

/-- The PSET is the base with the signatures of some members. -/
structure SignedBy (fed : Federation Id) (base : Pset PK) (ids : Set Id) (pset : Pset PK) :
    Prop where
  unsigned : pset.unsigned = base.unsigned
  board : ∀ k sig, pset.board k = some sig ↔
    ∃ id ∈ ids, (signers id).signature base k = some sig
  members : ∀ id ∈ ids, (fed.member id).isSome

variable {signers} {fed : Federation Id} {base pset pset' : Pset PK} {ids : Set Id} {id : Id}

omit [DecidableEq Id] in
/-- A place has one signer. -/
theorem MemberSigners.same (h : MemberSigners fed signers) {id' : Id}
    (hid : (fed.member id).isSome) (hid' : (fed.member id').isSome) {k : Nat × PK}
    {sig sig' : List UInt8} (hsig : (signers id).signature base k = some sig)
    (hsig' : (signers id').signature base k = some sig') : id = id' := by
  obtain ⟨input, hi, path, hpath⟩ := SoftwareSigner.origin_of_signature hsig
  obtain ⟨input', hi', path', hpath'⟩ := SoftwareSigner.origin_of_signature hsig'
  obtain rfl := Option.some.inj (hi.symm.trans hi')
  exact h.distinct id id' hid hid'
    (congrArg Prod.fst (Option.some.inj (hpath.symm.trans hpath')))

omit [DecidableEq Id] in
theorem signedBy_base (hbase : base.unsigned = base) : SignedBy signers fed base ∅ base := by
  refine ⟨rfl, ?_, fun id hid => absurd hid (Set.notMem_empty id)⟩
  intro k sig
  refine iff_of_false ?_ fun ⟨_, hid, _⟩ => hid
  rw [← hbase, board_unsigned]
  intro hsig
  cases hsig

omit [DecidableEq Id] in
theorem SignedBy.board_congr (h : SignedBy signers fed base ids pset)
    (h' : SignedBy signers fed base ids pset') : pset'.board = pset.board := by
  funext k
  refine Option.ext ?_
  intro sig
  rw [h.board, h'.board]

section

variable (hlib : IgnoresSigs PK Xpriv) (hmembers : MemberSigners fed signers)

include hlib hmembers in
omit [DecidableEq Id] in
/-- A member that signs adds its signatures. -/
theorem SignedBy.sign (h : SignedBy signers fed base ids pset) (hid : (fed.member id).isSome)
    {n : Nat} (hsign : (signers id).signPset Id pset = (.ok n, pset')) :
    SignedBy signers fed base (insert id ids) pset' := by
  obtain ⟨hunsigned, hboard, -⟩ := SoftwareSigner.signPset_ok hlib hsign
  rw [SoftwareSigner.signature_congr hlib h.unsigned] at hboard
  refine ⟨hunsigned.trans h.unsigned, ?_, ?_⟩
  · intro k sig
    rw [hboard, Option.or_eq_some_iff, h.board]
    constructor
    · rintro (hown | ⟨-, id', hid', hsig⟩)
      · exact ⟨id, .inl rfl, hown⟩
      · exact ⟨id', .inr hid', hsig⟩
    · rintro ⟨id', rfl | hid', hsig⟩
      · exact .inl hsig
      · cases hown : (signers id).signature base k with
        | none => exact .inr ⟨rfl, id', hid', hsig⟩
        | some sig' =>
            obtain rfl := hmembers.same hid (h.members id' hid') hown hsig
            exact .inl (hown ▸ hsig)
  · rintro id' (rfl | hid')
    · exact hid
    · exact h.members id' hid'

include hmembers in
omit [DecidableEq Id] in
/-- What a copy offers when it returns: its signer's signatures, whoever
else has signed it. -/
theorem SignedBy.offer (h : SignedBy signers fed base (insert id ids) pset) {k : Nat × PK}
    {sig : List UInt8} :
    fed.offer (id, pset) k = some sig ↔ (signers id).signature base k = some sig := by
  obtain ⟨i, pk⟩ := k
  have hid : (fed.member id).isSome := h.members id (.inl rfl)
  obtain ⟨signer, hmember⟩ := Option.isSome_iff_exists.mp hid
  have horigins : ∀ {input : PsetInput PK}, pset.inputs[i]? = some input →
      ∃ input₀, base.inputs[i]? = some input₀ ∧ input₀.bip32Derivation = input.bip32Derivation := by
    intro input hi
    have hone : pset.unsigned.inputs[i]? = base.unsigned.inputs[i]? := by rw [h.unsigned]
    rw [getElem?_unsigned, getElem?_unsigned, hi] at hone
    obtain ⟨input₀, hi₀, heq⟩ := Option.map_eq_some_iff.mp hone.symm
    have horigins := congrArg PsetInput.bip32Derivation
      (show input₀.unsigned = input.unsigned from heq)
    exact ⟨input₀, hi₀, horigins⟩
  have hboard : ∀ {input : PsetInput PK}, pset.inputs[i]? = some input →
      pset.board (i, pk) = input.getSig pk := by
    intro input hi
    rw [Pset.board, hi]
    rfl
  rw [Federation.offer, hmember, Option.bind_some, offer_eq_some,
    ← hmembers.fingerprint id signer hmember]
  constructor
  · rintro ⟨input, hi, hpk, hsig⟩
    obtain ⟨id', hid', hsig'⟩ := (h.board (i, pk) sig).mp (hboard hi ▸ hsig)
    obtain ⟨input₀, hi₀, heq⟩ := horigins hi
    obtain ⟨input₀', hi₀', path, hpath⟩ := SoftwareSigner.origin_of_signature hsig'
    obtain rfl := Option.some.inj (hi₀.symm.trans hi₀')
    obtain ⟨path', hpath'⟩ := hpk
    rw [heq] at hpath
    have hfp := congrArg Prod.fst (Option.some.inj (hpath.symm.trans hpath'))
    rwa [hmembers.distinct id' id (h.members id' hid') hid hfp] at hsig'
  · intro hsig
    have hplace := (h.board (i, pk) sig).mpr ⟨id, .inl rfl, hsig⟩
    obtain ⟨input, hi, -⟩ := Option.bind_eq_some_iff.mp hplace
    obtain ⟨input₀, hi₀, heq⟩ := horigins hi
    obtain ⟨input₀', hi₀', hpk⟩ := SoftwareSigner.origin_of_signature hsig
    obtain rfl := Option.some.inj (hi₀.symm.trans hi₀')
    rw [heq] at hpk
    exact ⟨input, hi, hpk, hboard hi ▸ hplace⟩

/-! ## The invariant -/

/-- The signer has a signature to give. -/
def HasKey (signers : Id → SoftwareSigner Xpriv) (base : Pset PK) (id : Id) : Prop :=
  ∃ k, ((signers id).signature base k).isSome

/-- The coordinator has the signatures of those it counts, who could
all sign. -/
structure Collected (signers : Id → SoftwareSigner Xpriv) (fed : Federation Id) (base : Pset PK)
    (c : ElementsSigningCoordinator PK Id) : Prop where
  federation : c.federation = fed
  inputs : base.Extends (fun _ _ => True) c.pset
  signed : SignedBy signers fed base (↑c.signed : Set Id) c.pset
  keys : ∀ id ∈ c.signed, (signers id).CanSign base ∧ HasKey signers base id

/-- The coordinator has the signatures of those it counts, a copy handed
out those of some members, and one that has returned its signer's among
them. -/
structure Session.Inv (signers : Id → SoftwareSigner Xpriv) (fed : Federation Id) (base : Pset PK)
    (s : Session PK Id) : Prop where
  coordinator : Collected signers fed base s.coordinator
  exported : ∀ m ∈ s.exported, (fed.member m.1).isSome ∧ ∃ ids, SignedBy signers fed base ids m.2
  returned : ∀ m ∈ s.returned, (signers m.1).CanSign base ∧
    ∃ ids, SignedBy signers fed base (insert m.1 ids) m.2

variable {c : ElementsSigningCoordinator PK Id}

include hmembers in
omit [DecidableEq Id] in
/-- A copy that returns is accepted when its signer is not counted yet,
and has something to give. -/
theorem Collected.brings_iff (h : Collected signers fed base c)
    (hcopy : SignedBy signers fed base (insert id ids) pset) :
    Board.Brings c.pset.board (c.federation.offer (id, pset)) ↔
      id ∉ c.signed ∧ HasKey signers base id := by
  rw [h.federation]
  constructor
  · rintro ⟨k, hfree, hsome⟩
    obtain ⟨sig, hsig⟩ := Option.isSome_iff_exists.mp hsome
    have hown := (hcopy.offer hmembers).mp hsig
    refine ⟨?_, k, Option.isSome_of_eq_some hown⟩
    intro hcounted
    have hplace := (h.signed.board k sig).mpr ⟨id, hcounted, hown⟩
    rw [hfree] at hplace
    cases hplace
  · rintro ⟨hnew, k, hsome⟩
    obtain ⟨sig, hsig⟩ := Option.isSome_iff_exists.mp hsome
    refine ⟨k, Option.eq_none_iff_forall_ne_some.mpr ?_,
      Option.isSome_of_eq_some ((hcopy.offer hmembers).mpr hsig)⟩
    intro sig' hplace
    obtain ⟨id', hid', hsig'⟩ := (h.signed.board k sig').mp hplace
    obtain rfl := hmembers.same (hcopy.members id (.inl rfl)) (h.signed.members id' hid') hsig hsig'
    exact hnew hid'

include hmembers in
/-- A copy that returns. -/
theorem Collected.receive (h : Collected signers fed base c)
    (hcan : (signers id).CanSign base) (hcopy : SignedBy signers fed base (insert id ids) pset) :
    Collected signers fed base (c.receiveSignature id pset).2 ∧
      ((c.receiveSignature id pset).1 = .ok () ↔ id ∉ c.signed ∧ HasKey signers base id) := by
  have hlen : pset.inputs.length = c.pset.inputs.length := by
    rw [← length_unsigned pset, hcopy.unsigned, ← h.signed.unsigned, length_unsigned]
  have hreceives := c.receives (id, pset) hlen
  have hok := hreceives.ok_iff.trans (h.brings_iff hmembers hcopy)
  refine ⟨?_, hok⟩
  by_cases hnew : id ∉ c.signed ∧ HasKey signers base id
  · have hsigned : (↑(c.receiveSignature id pset).2.signed : Set Id) = insert id ↑c.signed := by
      ext id'
      rw [Finset.mem_coe, hreceives.signed, Set.mem_insert_iff, Finset.mem_coe]
      constructor
      · rintro (hold | ⟨rfl, -⟩)
        · exact .inr hold
        · exact .inl rfl
      · rintro (rfl | hold)
        · exact .inr ⟨rfl, hok.mpr hnew⟩
        · exact .inl hold
    have hfree : ∀ k sig, (signers id).signature base k = some sig → c.pset.board k = none := by
      intro k sig hsig
      refine Option.eq_none_iff_forall_ne_some.mpr ?_
      intro sig' hplace
      obtain ⟨id', hid', hsig'⟩ := (h.signed.board k sig').mp hplace
      obtain rfl := hmembers.same (hcopy.members id (.inl rfl)) (h.signed.members id' hid')
        hsig hsig'
      exact hnew.1 hid'
    refine ⟨hreceives.federation.trans h.federation, h.inputs.trans hreceives.inputs,
      ⟨?_, ?_, ?_⟩, ?_⟩
    · rw [unsigned_of_extends hreceives.inputs, h.signed.unsigned]
    · intro k sig
      rw [hreceives.board, Board.post_eq_some_iff, hsigned, h.federation, hcopy.offer hmembers,
        h.signed.board]
      constructor
      · rintro (⟨id', hid', hsig⟩ | ⟨-, hsig⟩)
        · exact ⟨id', .inr hid', hsig⟩
        · exact ⟨id, .inl rfl, hsig⟩
      · rintro ⟨id', rfl | hid', hsig⟩
        · exact .inr ⟨hfree k sig hsig, hsig⟩
        · exact .inl ⟨id', hid', hsig⟩
    · rw [hsigned]
      rintro id' (rfl | hid')
      · exact hcopy.members _ (.inl rfl)
      · exact h.signed.members id' hid'
    · intro id' hid'
      rcases (hreceives.signed id').mp hid' with hold | ⟨rfl, -⟩
      · exact h.keys id' hold
      · exact ⟨hcan, hnew.2⟩
  · have herr := hreceives.refused fun hok' => hnew (hok.mp hok')
    rw [ElementsSigningCoordinator.receiveSignature_refused herr]
    exact h

include hlib hmembers in
/-- A member that signs in place. -/
theorem Collected.signWith (h : Collected signers fed base c) {n : Nat}
    (hok : (c.signWith ((signers id).signPset Id) id).1 = .ok n) :
    Collected signers fed base (c.signWith ((signers id).signPset Id) id).2 := by
  by_cases hid : c.federation.contains id
  · cases hres : ((signers id).signPset Id c.pset).1 with
    | error e =>
        rw [ElementsSigningCoordinator.signWith_error hid hres] at hok
        cases hok
    | ok n =>
        have hmember : (fed.member id).isSome := hmembers.known id (h.federation ▸ hid)
        have hsign : (signers id).signPset Id c.pset =
          (.ok n, ((signers id).signPset Id c.pset).2) :=
          Prod.ext hres rfl
        have hunsigned := h.signed.unsigned
        rw [ElementsSigningCoordinator.signWith_ok hid hres]
        by_cases hpos : 0 < n
        · rw [if_pos hpos]
          have hinserts : c.pset.Extends (Origin (signers id).fingerprint)
              ((signers id).signPset Id c.pset).2 := ((signers id).signPset_spec c.pset).1
          refine ⟨h.federation, h.inputs.trans (hinserts.mono fun _ _ _ => trivial), ?_, ?_⟩
          · rw [Finset.coe_insert]
            exact h.signed.sign hlib hmembers hmember hsign
          · intro id' hid'
            rcases Finset.mem_insert.mp hid' with rfl | hold
            · have hcan := (SoftwareSigner.signPset_ok_iff hlib).mp ⟨n, hres⟩
              have hkey := (SoftwareSigner.signPset_pos hlib hsign).mp hpos
              rw [SoftwareSigner.signature_congr hlib hunsigned] at hkey
              exact ⟨(SoftwareSigner.canSign_congr hlib hunsigned).mp hcan, hkey⟩
            · exact h.keys id' hold
        · have hsame := (((signers id).signPset_spec c.pset).2 n hres).1
            (Nat.eq_zero_of_not_pos hpos)
          rw [if_neg hpos, hsame]
          exact h
  · rw [ElementsSigningCoordinator.signWith_of_unknown hid] at hok
    cases hok

include hlib hmembers in
theorem Session.Inv.step {s s' : Session PK Id} (h : s.Inv signers fed base)
    (hstep : SessionStep signers s s') : s'.Inv signers fed base := by
  obtain ⟨hcoordinator, hexported, hreturned⟩ := h
  cases hstep with
  | handOut id hmember =>
      refine ⟨hcoordinator, ?_, hreturned⟩
      rintro m (_ | ⟨_, hold⟩)
      · exact ⟨hcoordinator.federation ▸ hmember, _, hcoordinator.signed⟩
      · exact hexported m hold
  | sign hmem hsign =>
      obtain ⟨hmember, ids, hcopy⟩ := hexported _ hmem
      refine ⟨hcoordinator, hexported, ?_⟩
      rintro m (_ | ⟨_, hold⟩)
      · have hcan := (SoftwareSigner.signPset_ok_iff hlib).mp ⟨_, congrArg Prod.fst hsign⟩
        exact ⟨(SoftwareSigner.canSign_congr hlib hcopy.unsigned).mp hcan, ids,
          hcopy.sign hlib hmembers hmember hsign⟩
      · exact hreturned m hold
  | receive hmem =>
      obtain ⟨hcan, ids, hcopy⟩ := hreturned _ hmem
      exact ⟨(hcoordinator.receive hmembers hcan hcopy).1, hexported, hreturned⟩
  | signWith id hok => exact ⟨hcoordinator.signWith hlib hmembers hok, hexported, hreturned⟩

omit [DecidableEq Id] in
theorem collected_new {b : BlindedPset PK} (hbase : b.pset.unsigned = b.pset)
    (hnew : ElementsSigningCoordinator.new fed b = .ok c) : Collected signers fed b.pset c := by
  obtain ⟨-, rfl⟩ := ElementsSigningCoordinator.new_eq_ok.mp hnew
  refine ⟨rfl, .refl _, ?_, nofun⟩
  rw [Finset.coe_empty]
  exact signedBy_base hbase

include hlib hmembers in
theorem SessionRun.inv {b : BlindedPset PK} (hbase : b.pset.unsigned = b.pset)
    {s : Session PK Id} (hrun : SessionRun signers fed b s) : s.Inv signers fed b.pset := by
  induction hrun with
  | start hnew => exact ⟨collected_new hbase hnew, nofun, nofun⟩
  | step _ hstep ih => exact ih.step hlib hmembers hstep

/-! ## Signing in place -/

/-- The calls in which the signers of a list sign in place. -/
def inPlace (signers : Id → SoftwareSigner Xpriv) (ids : List Id) : List (SignerCall PK Id) :=
  ids.map fun id => .signWith ((signers id).signPset Id) id

include hlib in
/-- A member with a key to sign with signs, and is counted. -/
theorem Collected.signWith_ok (h : Collected signers fed base c) (hid : (fed.member id).isSome)
    (hcan : (signers id).CanSign base) (hkey : HasKey signers base id) :
    (∃ n, (c.signWith ((signers id).signPset Id) id).1 = .ok n) ∧
      (c.signWith ((signers id).signPset Id) id).2.signed = insert id c.signed := by
  obtain ⟨signer, hmember⟩ := Option.isSome_iff_exists.mp hid
  have hcontains : c.federation.contains id := by
    rw [h.federation]
    exact (Federation.member_eq_some_iff.mp hmember).1
  obtain ⟨n, hn⟩ : ∃ n, ((signers id).signPset Id c.pset).1 = .ok n :=
    (SoftwareSigner.signPset_ok_iff hlib).mpr
      ((SoftwareSigner.canSign_congr hlib h.signed.unsigned).mpr hcan)
  rw [HasKey, ← SoftwareSigner.signature_congr hlib h.signed.unsigned] at hkey
  have hpos := (SoftwareSigner.signPset_pos hlib
    (show (signers id).signPset Id c.pset = (.ok n, _) from Prod.ext hn rfl)).mpr hkey
  rw [ElementsSigningCoordinator.signWith_ok hcontains hn, if_pos hpos]
  exact ⟨⟨n, rfl⟩, rfl⟩

include hlib hmembers in
/-- Signers that have signed from afar can sign in place. -/
theorem Collected.inPlace {ids : List Id} : ∀ {c : ElementsSigningCoordinator PK Id},
    Collected signers fed base c →
    (∀ id ∈ ids, (fed.member id).isSome ∧ (signers id).CanSign base ∧ HasKey signers base id) →
    ElementsSigningCoordinator.EachCall (fun c x => ¬c.Fails x) c (inPlace signers ids) ∧
      Collected signers fed base (c.calls (inPlace signers ids)) ∧
      (c.calls (inPlace signers ids)).signed = c.signed ∪ ids.toFinset := by
  induction ids with
  | nil => exact fun h _ => ⟨trivial, h, (Finset.union_empty _).symm⟩
  | cons id ids ih =>
      intro c h hall
      obtain ⟨⟨hmember, hcan, hkey⟩, hrest⟩ := List.forall_mem_cons.mp hall
      obtain ⟨⟨n, hn⟩, hsigned⟩ := h.signWith_ok hlib hmember hcan hkey
      obtain ⟨heach, hcollected, hcounted⟩ := ih (h.signWith hlib hmembers hn) hrest
      refine ⟨⟨?_, heach⟩, hcollected, ?_⟩
      · rintro ⟨e, herr⟩
        rw [hn] at herr
        cases herr
      · refine hcounted.trans ?_
        rw [hsigned, List.toFinset_cons, Finset.union_insert, Finset.insert_union]

end

end

/-! ## Sessions -/

section

variable [SigningLib PK Xpriv] {signers : Id → SoftwareSigner Xpriv} {fed : Federation Id}
  {b : BlindedPset PK} {s : Session PK Id}

/-- However a session went, a returned copy is accepted exactly when its
signer is not counted yet and has a key to sign with, and the
coordinator is as good as one with which the counted signers have signed
in place, in any order: it has the same signatures, counts the same
signers and finalizes alike. -/
theorem session_agrees (hlib : IgnoresSigs PK Xpriv) (hmembers : MemberSigners fed signers)
    (hbase : b.pset.unsigned = b.pset) (hrun : SessionRun signers fed b s) :
    (∀ id pset, (id, pset) ∈ s.returned →
      ((s.coordinator.receiveSignature id pset).1 = .ok () ↔
        id ∉ s.coordinator.signed ∧ HasKey signers b.pset id)) ∧
    ∀ c, ElementsSigningCoordinator.new fed b = .ok c →
      ∀ ids : List Id, ids.toFinset = s.coordinator.signed →
        ElementsSigningCoordinator.EachCall (fun c x => ¬c.Fails x) c (inPlace signers ids) ∧
        (c.calls (inPlace signers ids)).pset.board = s.coordinator.pset.board ∧
        (c.calls (inPlace signers ids)).signed = s.coordinator.signed ∧
        (c.calls (inPlace signers ids)).finalize = s.coordinator.finalize := by
  have hinv := hrun.inv hlib hmembers hbase
  constructor
  · intro id pset hmem
    obtain ⟨hcan, ids, hcopy⟩ := hinv.returned _ hmem
    exact (hinv.coordinator.receive hmembers hcan hcopy).2
  · intro c hnew ids hids
    have hall : ∀ id ∈ ids, (fed.member id).isSome ∧ (signers id).CanSign b.pset ∧
        HasKey signers b.pset id := by
      intro id hid
      have hcounted : id ∈ s.coordinator.signed := hids ▸ List.mem_toFinset.mpr hid
      exact ⟨hinv.coordinator.signed.members id hcounted, hinv.coordinator.keys id hcounted⟩
    obtain ⟨heach, hcollected, hsigned⟩ :=
      (collected_new hbase hnew).inPlace hlib hmembers hall
    obtain ⟨-, rfl⟩ := ElementsSigningCoordinator.new_eq_ok.mp hnew
    rw [hids, Finset.empty_union] at hsigned
    have hplace := hcollected.signed
    rw [hsigned] at hplace
    have hboard := hinv.coordinator.signed.board_congr hplace
    have hunsigned := hplace.unsigned.trans hinv.coordinator.signed.unsigned.symm
    have houtputs := congrArg Pset.outputs hunsigned
    refine ⟨heach, hboard, hsigned, ElementsSigningCoordinator.finalize_congr
      (hcollected.federation.trans hinv.coordinator.federation.symm) hsigned houtputs
      (sameSigs_of_unsigned hunsigned hboard)⟩

variable {encode : PK → List UInt8} {members : Finset Id} {own : Id → Nat → PK}
  {keys : Nat → List PK} {valid : Nat → PK → List UInt8 → Bool}

omit [DecidableEq Id] in
/-- The scripts of the inputs stay as they are. -/
theorem Collected.multisigInput {c : ElementsSigningCoordinator PK Id} {base : Pset PK}
    (h : Collected signers fed base c) (hfed : FederationInputs encode fed members own keys base)
    {i : Nat} {input : PsetInput PK} (hi : c.pset.inputs[i]? = some input) :
    MultisigInput encode fed.threshold (keys i) input := by
  obtain ⟨input₀, hi₀, hext⟩ := h.inputs.getElem? hi
  exact (hfed.inputs i input₀ hi₀).of_extends hext

omit [DecidableEq Id] in
/-- A counted signer is a member, on file with its fingerprint. -/
theorem Collected.member {c : ElementsSigningCoordinator PK Id} {base : Pset PK}
    (h : Collected signers fed base c) (hmembers : MemberSigners fed signers)
    (hfed : FederationInputs encode fed members own keys base) {id : Id} (hid : id ∈ c.signed) :
    id ∈ members ∧ ∃ signer, fed.find id = some signer ∧
      (signers id).fingerprint = signer.fingerprint := by
  obtain ⟨signer, hmember⟩ := Option.isSome_iff_exists.mp (h.signed.members id hid)
  obtain ⟨hcontains, hfind⟩ := Federation.member_eq_some_iff.mp hmember
  exact ⟨(hfed.contains id).mp hcontains, signer, hfind, hmembers.fingerprint id signer hmember⟩

omit [DecidableEq Id] in
/-- Every counted signer has signed every input under its own key. -/
theorem Collected.own_mem {c : ElementsSigningCoordinator PK Id} {base : Pset PK}
    (h : Collected signers fed base c) (hmembers : MemberSigners fed signers)
    (hfed : FederationInputs encode fed members own keys base)
    (hecdsa : ∀ idx tx genesis message, SigningLib.sighashMsg Xpriv base idx tx genesis ≠
      .ok (.tapSighash message))
    {id : Id} (hid : id ∈ c.signed) {i : Nat} {input : PsetInput PK}
    (hi : c.pset.inputs[i]? = some input) : own id i ∈ signedKeys input (keys i) := by
  obtain ⟨hmember, signer, hfind, hfp⟩ := h.member hmembers hfed hid
  obtain ⟨input₀, hi₀, -⟩ := h.inputs.getElem? hi
  have hsome : ((signers id).signature base (i, own id i)).isSome := by
    refine SoftwareSigner.isSome_signature_of_origin (h.keys id hid).1
      (fun idx tx message => hecdsa idx tx _ message) hi₀ ?_
    rw [hfp]
    exact hfed.own_origin id signer hfind i input₀ hi₀
  obtain ⟨sig, hsig⟩ := Option.isSome_iff_exists.mp hsome
  have hplace := (h.signed.board (i, own id i) sig).mpr ⟨id, hid, hsig⟩
  rw [Pset.board, hi] at hplace
  refine List.mem_filter.mpr ⟨hfed.own_mem id hmember i input₀ hi₀, decide_eq_true ?_⟩
  exact AList.lookup_isSome.mp (Option.isSome_of_eq_some hplace)

omit [DecidableEq Id] in
/-- A coordinator that counts a quorum finalizes, and the opcode accepts
the witness of every input. -/
theorem Collected.finalizes {c : ElementsSigningCoordinator PK Id} {base : Pset PK}
    (h : Collected signers fed base c) (hmembers : MemberSigners fed signers)
    (hdecode : DecodesScripts encode) (hextract : ElementsSigningCoordinator.Extracts base)
    (hfed : FederationInputs encode fed members own keys base)
    (hecdsa : ∀ idx tx genesis message, SigningLib.sighashMsg Xpriv base idx tx genesis ≠
      .ok (.tapSighash message))
    (hvalid : ∀ id ∈ members, ∀ (i : Nat) pk sig,
      (signers id).signature base (i, pk) = some sig → valid i pk sig)
    (hquorum : fed.threshold ≤ c.signed.card) :
    ∃ fin, c.finalize = .ok fin ∧ ∀ (i : Nat) input, c.pset.inputs[i]? = some input →
      ∃ out witness, fin.pset.inputs[i]? = some out ∧ out.finalScriptWitness = some witness ∧
        AcceptsMultisig (valid i) fed.threshold (keys i)
          (multisigScript encode fed.threshold (keys i)) witness := by
  have hmember : ∀ id ∈ c.signed, id ∈ members := fun id hid => (h.member hmembers hfed hid).1
  have hcomplete : c.isComplete = .ok true := by
    have hle : c.signed.card ≤ 16 := Nat.le_trans (Finset.card_le_card hmember) hfed.card_le
    unfold ElementsSigningCoordinator.isComplete ElementsSigningCoordinator.signaturesCollected
    rw [if_pos (Nat.lt_of_le_of_lt hle (by decide)), h.federation, decide_eq_true hquorum]
  obtain ⟨fin, hfin⟩ := ElementsSigningCoordinator.finalize_ok hcomplete hextract h.inputs
    fun input hmem => by
      obtain ⟨i, hi⟩ := List.mem_iff_getElem?.mp hmem
      exact ⟨_, (h.multisigInput hfed hi).script⟩
  refine ⟨fin, hfin, ?_⟩
  intro i input hi
  obtain ⟨hfinal, hpset⟩ := finalize_eq_ok hfin
  obtain ⟨out, hout, hfinalized⟩ := finalizeP2wshPset_eq_ok hfinal hi
  rw [← hpset] at hout
  have henough : fed.threshold ≤ (signedKeys input (keys i)).length := by
    have hinj : Set.InjOn (own · i) c.signed := (hfed.own_inj i).mono hmember
    have hsub : c.signed.image (own · i) ⊆ (signedKeys input (keys i)).toFinset := by
      intro key hkey
      obtain ⟨id, hid, rfl⟩ := Finset.mem_image.mp hkey
      exact List.mem_toFinset.mpr (h.own_mem hmembers hfed hecdsa hid hi)
    calc fed.threshold ≤ c.signed.card := hquorum
      _ = (c.signed.image (own · i)).card := (Finset.card_image_of_injOn hinj).symm
      _ ≤ (signedKeys input (keys i)).toFinset.card := Finset.card_le_card hsub
      _ ≤ (signedKeys input (keys i)).length := List.toFinset_card_le _
  have hfirst : ElementsSigningCoordinator.FirstValid (valid i) fed.threshold (keys i) input := by
    intro key _ sig hsig
    have hplace : c.pset.board (i, key) = some sig := by
      rw [Pset.board, hi, Option.bind_some, hsig]
    obtain ⟨id, hid, hown⟩ := (h.signed.board (i, key) sig).mp hplace
    exact hvalid id (hmember id hid) i key sig hown
  exact ⟨out, _, hout, finalizeInput_multisig hdecode (h.multisigInput hfed hi) hfinalized,
    (ElementsSigningCoordinator.acceptsMultisig_first (valid i) henough _).1 hfirst⟩

/-- Once a quorum of members is counted, the session finalizes, and the
opcode accepts the witness of every input. -/
theorem session_finalizes (hlib : IgnoresSigs PK Xpriv) (hmembers : MemberSigners fed signers)
    (hdecode : DecodesScripts encode) (hextract : ElementsSigningCoordinator.Extracts b.pset)
    (hbase : b.pset.unsigned = b.pset)
    (hfed : FederationInputs encode fed members own keys b.pset)
    (hecdsa : ∀ idx tx genesis message, SigningLib.sighashMsg Xpriv b.pset idx tx genesis ≠
      .ok (.tapSighash message))
    (hvalid : ∀ id ∈ members, ∀ (i : Nat) pk sig,
      (signers id).signature b.pset (i, pk) = some sig → valid i pk sig)
    (hrun : SessionRun signers fed b s) (hquorum : fed.threshold ≤ s.coordinator.signed.card) :
    ∃ fin, s.coordinator.finalize = .ok fin ∧
    ∀ (i : Nat) input, s.coordinator.pset.inputs[i]? = some input →
      ∃ out witness, fin.pset.inputs[i]? = some out ∧ out.finalScriptWitness = some witness ∧
        AcceptsMultisig (valid i) fed.threshold (keys i)
          (multisigScript encode fed.threshold (keys i)) witness :=
  (hrun.inv hlib hmembers hbase).coordinator.finalizes hmembers hdecode hextract hfed hecdsa hvalid
    hquorum

end

/-! Two of three members sign copies that were handed out together. -/

section

open ElementsSigningCoordinator

theorem extracts_compressedKey {pset : Pset CompressedKey} {output : List TxOut}
    (h : pset.outputs.mapM PsetOutput.extractTxOut = .ok output) : Extracts pset := by
  intro pset' houtputs _
  have hextract : ElementsLib.extractTx pset' = (pset'.outputs.mapM PsetOutput.extractTxOut).bind
    fun output => .ok {
      txid := ⟨0⟩, input := pset'.inputs.map fun i => ⟨i.previousOutput⟩, output } := rfl
  rw [hextract, houtputs, h]
  exact ⟨_, rfl⟩

def signablePset : BlindedPset CompressedKey where
  pset := {
    inputs := [{ inputOfThree with witnessUtxo := some spentOutput }]
    outputs := [blindedOutput] }
  blinded := rfl

def memberSigner (id : Nat) : SoftwareSigner UInt8 where
  master := UInt8.ofNat id
  fingerprint := ⟨BitVec.ofNat 32 id⟩
  genesis := ⟨0⟩

theorem memberSigners_three : MemberSigners threeMembers memberSigner where
  known id hid := by
    have hmem : id ∈ [1, 2, 3] := of_decide_eq_true hid
    rw [Federation.member, if_pos hid]
    exact Option.isSome_of_eq_some (if_pos hmem)
  fingerprint id signer hmember := by
    obtain ⟨-, hfind⟩ := Federation.member_eq_some_iff.mp hmember
    obtain ⟨-, hsigner⟩ := Option.ite_none_right_eq_some.mp hfind
    exact congrArg Signer.fingerprint (Option.some.inj hsigner)
  distinct := by
    have hmem : ∀ id, (threeMembers.member id).isSome → id ∈ [1, 2, 3] := by
      intro id hid
      obtain ⟨signer, hmember⟩ := Option.isSome_iff_exists.mp hid
      exact of_decide_eq_true (Federation.member_eq_some_iff.mp hmember).1
    have hinj : ∀ id ∈ [1, 2, 3], ∀ id' ∈ [1, 2, 3],
        (memberSigner id).fingerprint = (memberSigner id').fingerprint → id = id' := by decide
    exact fun id id' hid hid' => hinj id (hmem id hid) id' (hmem id' hid')

/-- The copy a member returns. -/
def signedCopy (id : Nat) : Pset CompressedKey :=
  ((memberSigner id).signPset Nat signablePset.pset).2

def unsignedSession : Session CompressedKey Nat := ⟨⟨threeMembers, signablePset.pset, ∅⟩, [], []⟩

/-- The first and the third copy have been received. -/
def twoReceived : Session CompressedKey Nat where
  coordinator :=
    ((unsignedSession.coordinator.receiveSignature 1 (signedCopy 1)).2.receiveSignature 3
    (signedCopy 3)).2
  exported := [(3, signablePset.pset), (1, signablePset.pset)]
  returned := [(3, signedCopy 3), (1, signedCopy 1)]

theorem run_twoReceived : SessionRun memberSigner threeMembers signablePset twoReceived := by
  have hstart : SessionRun memberSigner threeMembers signablePset unsignedSession := .start rfl
  have hout := (hstart.step (.handOut 1 rfl)).step (.handOut 3 rfl)
  have hsigned := (hout.step (.sign (List.mem_cons_of_mem _ (List.mem_cons_self ..))
    (show (memberSigner 1).signPset Nat signablePset.pset = (.ok 1, signedCopy 1) from rfl))).step
    (.sign (List.mem_cons_self ..)
      (show (memberSigner 3).signPset Nat signablePset.pset = (.ok 1, signedCopy 3) from rfl))
  exact (hsigned.step (.receive (List.mem_cons_of_mem _ (List.mem_cons_self ..)))).step
    (.receive (List.mem_cons_self ..))

/-- A copy that has been received is refused when it comes again. -/
theorem session_agrees_twoReceived :
    (twoReceived.coordinator.receiveSignature 1 (signedCopy 1)).1 ≠ .ok () ∧
    ((unsignedSession.coordinator.calls (inPlace memberSigner [3, 1])).finalize =
      twoReceived.coordinator.finalize) := by
  obtain ⟨hreturned, hinPlace⟩ :=
    session_agrees ignoresSigs_compressedKey memberSigners_three rfl run_twoReceived
  refine ⟨?_, (hinPlace _ rfl [3, 1] (by decide)).2.2.2⟩
  intro hok
  have hnew := ((hreturned 1 _ (List.mem_cons_of_mem _ (List.mem_cons_self ..))).mp hok).1
  exact hnew (by decide)

theorem federationInputs_signable : FederationInputs CompressedKey.bytes threeMembers {1, 2, 3}
    (fun id _ => memberKey id) (fun _ => [keyOne, keyTwo, keyThree]) signablePset.pset := by
  have hone : ∀ {i : Nat} {input : PsetInput CompressedKey},
      signablePset.pset.inputs[i]? = some input →
        i = 0 ∧ input = { inputOfThree with witnessUtxo := some spentOutput } := by
    intro i input hi
    cases i with
    | zero => exact ⟨rfl, (Option.some.inj hi).symm⟩
    | succ i => cases hi
  obtain ⟨hcard, hcontains, hinputs, hmem, horigin, hinj⟩ := federationInputs_three
  refine ⟨hcard, hcontains, ?_, ?_, ?_, hinj⟩
  · intro i input hi
    obtain ⟨rfl, rfl⟩ := hone hi
    obtain ⟨hpos, hle, h16, hcompressed, hscript⟩ := hinputs 0 inputOfThree rfl
    exact ⟨hpos, hle, h16, hcompressed, hscript⟩
  · exact fun id hid i _ _ => hmem id hid 0 inputOfThree rfl
  · intro id signer hfind i input hi
    obtain ⟨rfl, rfl⟩ := hone hi
    exact horigin id signer hfind 0 inputOfThree rfl

/-- What a member's signer gives for its key, without the byte of the
signature hash type. -/
def validEcdsa (i : Nat) (key : CompressedKey) (sig : List UInt8) : Bool :=
  expectedSig i key sig.dropLast

theorem session_finalizes_twoReceived : ∃ fin out witness,
    twoReceived.coordinator.finalize = .ok fin ∧ fin.pset.inputs[0]? = some out ∧
      out.finalScriptWitness = some witness ∧
      AcceptsMultisig (validEcdsa 0) 2 [keyOne, keyTwo, keyThree]
        (multisigScript CompressedKey.bytes 2 [keyOne, keyTwo, keyThree]) witness := by
  have hvalid : ∀ id ∈ ({1, 2, 3} : Finset Nat), ∀ (i : Nat) pk sig,
      (memberSigner id).signature signablePset.pset (i, pk) = some sig → validEcdsa i pk sig := by
    intro id hid i pk sig hsig
    obtain ⟨input, hi, -⟩ := SoftwareSigner.origin_of_signature hsig
    cases i with
    | succ i => cases hi
    | zero =>
        have hmem := (SoftwareSigner.signature_eq_some rfl).mp hsig
        simp only [Finset.mem_insert, Finset.mem_singleton] at hid
        obtain rfl | rfl | rfl := hid <;> cases List.mem_singleton.mp hmem <;> rfl
  have hecdsa : ∀ idx tx genesis message,
      SigningLib.sighashMsg UInt8 signablePset.pset idx tx genesis ≠ .ok (.tapSighash message) := by
    rintro (_ | idx) tx genesis message <;> nofun
  obtain ⟨fin, hfin, hall⟩ := session_finalizes ignoresSigs_compressedKey memberSigners_three
    decodesScripts_compressedKey (extracts_compressedKey rfl)
      rfl federationInputs_signable hecdsa hvalid run_twoReceived
    (show threeMembers.threshold ≤ twoReceived.coordinator.signed.card by decide)
  obtain ⟨out, witness, hout, hwitness, haccepts⟩ := hall 0 _ rfl
  exact ⟨fin, out, witness, hfin, hout, hwitness, haccepts⟩

end


end EmvaultElements
