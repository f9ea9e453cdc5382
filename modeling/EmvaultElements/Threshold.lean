import EmvaultElements.FullySigned

/-!
# Have the counted signers signed?

A returned PSET is counted for a member when it brings a signature the
key origins attribute to that member. `sign_with` instead counts the id
it is given when its signer signed something, and nothing ties the two
together.

`Contributed` says that a counted member has signed. It holds of every
counted member as long as each `sign_with` names the member it signs
for (`counted_contributed`), and `wrong_id_is_counted` is a run in which
one does not.
-/

namespace EmvaultElements

variable {PK Id : Type} [DecidableEq PK]

/-- The PSET has a signature under a key that its origins list under the
member's fingerprint. -/
def Contributed (fed : Federation Id) (pset : Pset PK) (id : Id) : Prop :=
  ∃ signer, fed.find id = some signer ∧ pset.HasSig (Origin signer.fingerprint)

/-- A signer for the fingerprint: it inserts signatures only under keys
the PSET lists under it, and returns on how many inputs it did. -/
def SignsFor (fp : Fingerprint) (signer : ElementsSigner PK Id) : Prop :=
  ∀ pset, ∃ ins : List (List (PK × List UInt8)),
    List.Forall₂ (fun input sigs => ∀ e ∈ sigs, Origin fp input.bip32Derivation e.1)
      pset.inputs ins ∧
    (signer pset).2 = { pset with inputs := List.zipWith PsetInput.insertSigs pset.inputs ins } ∧
    ∀ n, (signer pset).1 = .ok n → n = ins.countP fun sigs => !sigs.isEmpty

/-- The calls of the parties: `sign_with` for a member, with a signer
for some fingerprint, and returned PSETs with the coordinator's key
origins. -/
def Behaves (c : ElementsSigningCoordinator PK Id) : SignerCall PK Id → Prop
  | .signWith signer id => c.federation.contains id ∧ ∃ fp, SignsFor fp signer
  | .receiveSignature _ signedPset =>
      signedPset.inputs.map (·.bip32Derivation) = c.pset.inputs.map (·.bip32Derivation)

/-- `sign_with` names the member its signer signs for, or one that has
contributed already, or its signer signs nothing. -/
def NamesSigner (c : ElementsSigningCoordinator PK Id) : SignerCall PK Id → Prop
  | .signWith signer id => ∀ member, c.federation.find id = some member →
      SignsFor member.fingerprint signer ∨ Contributed c.federation c.pset id ∨
        ∀ n, (signer c.pset).1 = .ok n → n = 0
  | .receiveSignature _ _ => True

theorem Contributed.mono {fed : Federation Id} {pset pset' : Pset PK} {id : Id}
    {Q : KeyOrigins PK → PK → Prop} (h : Contributed fed pset id) (hext : pset.Extends Q pset') :
    Contributed fed pset' id := by
  obtain ⟨signer, hfind, hsig⟩ := h
  exact ⟨signer, hfind, hsig.mono hext⟩

/-- Signatures inserted input by input, under the signer's own keys. -/
theorem extends_insertSigs {fp : Fingerprint} {inputs : List (PsetInput PK)}
    {ins : List (List (PK × List UInt8))}
    (h : List.Forall₂ (fun input sigs => ∀ e ∈ sigs, Origin fp input.bip32Derivation e.1)
      inputs ins) :
    List.Forall₂ (PsetInput.Extends (Origin fp)) inputs
      (List.zipWith PsetInput.insertSigs inputs ins) ∧
    (0 < ins.countP (fun sigs => !sigs.isEmpty) →
      ∃ input ∈ List.zipWith PsetInput.insertSigs inputs ins, ∃ pk ∈ input.partialSigs,
        Origin fp input.bip32Derivation pk) := by
  induction h with
  | nil => exact ⟨.nil, fun hpos => absurd hpos (Nat.lt_irrefl 0)⟩
  | @cons input sigs inputs ins hsigs _ ih =>
      obtain ⟨hextends, hsigned⟩ := ih
      refine ⟨.cons ⟨sigs, hsigs, rfl⟩ hextends, ?_⟩
      intro hpos
      cases sigs with
      | nil =>
          obtain ⟨input', hmem, hsig⟩ := hsigned (by simpa using hpos)
          exact ⟨input', List.mem_cons_of_mem _ hmem, hsig⟩
      | cons e sigs =>
          refine ⟨_, List.mem_cons_self .., e.1, ?_, hsigs e (List.mem_cons_self ..)⟩
          exact mem_insertSigs.mpr (.inr (List.mem_map_of_mem (List.mem_cons_self ..)))

/-- What a signer for a fingerprint does. -/
theorem SignsFor.spec {fp : Fingerprint} {signer : ElementsSigner PK Id} (h : SignsFor fp signer)
    (pset : Pset PK) : pset.Extends (Origin fp) (signer pset).2 ∧
      ∀ n, (signer pset).1 = .ok n → 0 < n → (signer pset).2.HasSig (Origin fp) := by
  obtain ⟨ins, hins, hpset, hcount⟩ := h pset
  obtain ⟨hextends, hsigned⟩ := extends_insertSigs hins
  rw [hpset]
  refine ⟨⟨hextends, rfl⟩, ?_⟩
  intro n hn hpos
  rw [hcount n hn] at hpos
  exact hsigned hpos

/-- A signer leaves no signature for another fingerprint. -/
theorem Pset.Extends.hasSig_of_ne {fp fp' : Fingerprint} (hne : fp ≠ fp') {pset pset' : Pset PK}
    (hext : pset.Extends (Origin fp) pset') (hsig : pset'.HasSig (Origin fp')) :
    pset.HasSig (Origin fp') := by
  obtain ⟨input', hmem, pk, hpk, path, hpath⟩ := hsig
  obtain ⟨i, hi⟩ := List.mem_iff_getElem?.mp hmem
  obtain ⟨input, hi₀, sigs, hsigs, rfl⟩ := hext.getElem? hi
  rcases mem_insertSigs.mp hpk with hold | hnew
  · exact ⟨input, List.mem_of_getElem? hi₀, pk, hold, path, hpath⟩
  · obtain ⟨e, he, rfl⟩ := List.mem_map.mp hnew
    obtain ⟨path', hpath'⟩ := hsigs e he
    have heq := Option.some.inj (hpath'.symm.trans hpath)
    exact absurd (congrArg Prod.fst heq) hne

variable [DecidableEq Id]

/-! ## The invariant -/

/-- Everyone counted is a member and has contributed. -/
structure CountedSigned (c : ElementsSigningCoordinator PK Id) : Prop where
  member : ∀ id ∈ c.signed, c.federation.contains id
  contributed : ∀ id ∈ c.signed, Contributed c.federation c.pset id

/-- Counting one more member, once it has contributed. -/
theorem CountedSigned.count {c : ElementsSigningCoordinator PK Id} (h : CountedSigned c)
    {pset : Pset PK} {Q : KeyOrigins PK → PK → Prop} (hext : c.pset.Extends Q pset) {id : Id}
    (hmember : c.federation.contains id) {counted : Bool}
    (hcounted : counted → Contributed c.federation pset id) :
    CountedSigned { c with
      pset, signed := if counted then insert id c.signed else c.signed } := by
  have hkept : ∀ id' ∈ c.signed, Contributed c.federation pset id' :=
    fun id' hid' => (h.contributed id' hid').mono hext
  cases counted with
  | false => exact ⟨h.member, hkept⟩
  | true =>
      constructor
      · intro id' hid'
        rcases Finset.mem_insert.mp hid' with rfl | hold
        · exact hmember
        · exact h.member id' hold
      · intro id' hid'
        rcases Finset.mem_insert.mp hid' with rfl | hold
        · exact hcounted rfl
        · exact hkept id' hold

/-- One call. -/
theorem CountedSigned.call {c : ElementsSigningCoordinator PK Id} (h : CountedSigned c)
    (hfind : ∀ id, c.federation.contains id → ∃ member, c.federation.find id = some member)
    {x : SignerCall PK Id} (hbehaves : Behaves c x) (hnames : NamesSigner c x) :
    CountedSigned (c.call x) := by
  cases x with
  | signWith signer id =>
      rcases ElementsSigningCoordinator.call_signWith (c := c) signer id
        with heq | ⟨hmember, counted, hcounted, heq⟩
      · rw [heq]
        exact h
      · rw [heq]
        obtain ⟨member, hmem⟩ := hfind id hmember
        obtain ⟨-, fp, hfp⟩ := hbehaves
        refine h.count (hfp.spec c.pset).1 hmember ?_
        intro hc
        obtain ⟨n, hn, hpos⟩ := hcounted hc
        rcases hnames member hmem with hown | hbefore | hnothing
        · exact ⟨member, hmem, (hown.spec c.pset).2 n hn hpos⟩
        · exact hbefore.mono (hfp.spec c.pset).1
        · exact absurd (hnothing n hn) (Nat.ne_of_gt hpos)
  | receiveSignature id signedPset =>
      rcases ElementsSigningCoordinator.call_receiveSignature (c := c) id signedPset
        with heq | ⟨hmember, signer, pset, foundNew, hsigner, hmerge, heq⟩
      · rw [heq]
        exact h
      · rw [heq]
        have horigin : ∀ s ∈ signedPset.inputs.zipIdx, ∀ input, c.pset.inputs[s.2]? = some input →
            ∀ e ∈ s.1.attributable signer.fingerprint,
              Origin signer.fingerprint input.bip32Derivation e.1 := by
          rintro ⟨signedInput, i⟩ hs input hi e he
          have hsame := congrArg (·[i]?) hbehaves
          simp only [List.getElem?_map, List.mem_zipIdx_iff_getElem?.mp hs, hi, Option.map_some,
            Option.some.injEq] at hsame
          rw [← hsame]
          exact origin_of_attributable he
        obtain ⟨hext, hfound⟩ := mergeInputs_spec horigin hmerge
        refine h.count hext hmember ?_
        intro hnew
        rcases hfound hnew with hfalse | hsig
        · cases hfalse
        · exact ⟨signer, hsigner, hsig⟩

theorem ElementsSigningCoordinator.call_signWith_ok {c : ElementsSigningCoordinator PK Id}
    {signer : ElementsSigner PK Id} {id : Id} (hmember : c.federation.contains id) {n : Nat}
    (hok : (signer c.pset).1 = .ok n) (hpos : 0 < n) :
    c.call (.signWith signer id) =
      { c with pset := (signer c.pset).2, signed := insert id c.signed } := by
  show (c.signWith signer id).2 = _
  unfold signWith
  dsimp only
  rw [hmember, hok]
  exact if_pos hpos

/-- A call that names another member counts it without a signature. -/
theorem names_of_countedSigned {c : ElementsSigningCoordinator PK Id} {x : SignerCall PK Id}
    (hbehaves : Behaves c x)
    (hcounted : ∀ id ∈ (c.call x).signed, Contributed c.federation (c.call x).pset id) :
    NamesSigner c x := by
  cases x with
  | receiveSignature => trivial
  | signWith signer id =>
      obtain ⟨hmember, fp, hfp⟩ := hbehaves
      intro member hmem
      by_cases hown : fp = member.fingerprint
      · exact .inl (hown ▸ hfp)
      · refine .inr ?_
        by_cases hnothing : ∀ n, (signer c.pset).1 = .ok n → n = 0
        · exact .inr hnothing
        · refine .inl ?_
          obtain ⟨n, hn⟩ := not_forall.mp hnothing
          obtain ⟨hok, hpos⟩ := Classical.not_imp.mp hn
          rw [ElementsSigningCoordinator.call_signWith_ok hmember hok (Nat.pos_of_ne_zero hpos)]
            at hcounted
          obtain ⟨member', hmem', hsig⟩ := hcounted id (Finset.mem_insert_self ..)
          obtain rfl := Option.some.inj (hmem.symm.trans hmem')
          exact ⟨member, hmem, (hfp.spec c.pset).1.hasSig_of_ne hown hsig⟩

/-- In every run whose `sign_with` calls name the member they sign for,
every counted id has a signature under a key of its own fingerprint; so
when the threshold is met, that many members have contributed, with as
many fingerprints if no two members share one. The next call keeps this
exactly if it names the member it signs for as well. -/
theorem counted_contributed {fed : Federation Id}
    (hfind : ∀ id, fed.contains id → ∃ member, fed.find id = some member)
    {b : BlindedPset PK} {c : ElementsSigningCoordinator PK Id}
    (hrun : SigningRun fed b (fun c x => Behaves c x ∧ NamesSigner c x) c) :
    (∀ id ∈ c.signed, Contributed fed c.pset id) ∧
    (c.isComplete = .ok true → ∃ ids : Finset Id, fed.threshold ≤ ids.card ∧
      (∀ id ∈ ids, fed.contains id ∧ Contributed fed c.pset id) ∧
      ((∀ id id', fed.contains id → fed.contains id' →
          (fed.find id).map (·.fingerprint) = (fed.find id').map (·.fingerprint) → id = id') →
        fed.threshold ≤ (ids.image fun id => (fed.find id).map (·.fingerprint)).card)) ∧
    ∀ x, Behaves c x →
      ((∀ id ∈ (c.call x).signed, Contributed fed (c.call x).pset id) ↔ NamesSigner c x) := by
  have hfed : c.federation = fed := hrun.federation
  have hinv : CountedSigned c := by
    induction hrun with
    | new hnew =>
        rw [(ElementsSigningCoordinator.new_eq_ok.mp hnew).2]
        exact ⟨by simp, by simp⟩
    | call x hrun hallowed ih =>
        refine (ih hrun.federation).call ?_ hallowed.1 hallowed.2
        rw [hrun.federation]
        exact hfind
  subst hfed
  refine ⟨hinv.contributed, ?_, ?_⟩
  · intro hcomplete
    have hcard : c.federation.threshold ≤ c.signed.card := by
      unfold ElementsSigningCoordinator.isComplete at hcomplete
      split at hcomplete
      · exact of_decide_eq_true (Outcome.ok.inj hcomplete)
      · cases hcomplete
    refine ⟨c.signed, hcard, fun id hid => ⟨hinv.member id hid, hinv.contributed id hid⟩, ?_⟩
    intro hdistinct
    rwa [Finset.card_image_of_injOn]
    intro id hid id' hid' heq
    exact hdistinct id id' (hinv.member id hid) (hinv.member id' hid') heq
  · intro x hbehaves
    have hcall : (c.call x).federation = c.federation := c.call_federation x
    constructor
    · intro hcounted
      exact names_of_countedSigned hbehaves hcounted
    · intro hnames
      have := (hinv.call hfind hbehaves hnames).contributed
      rwa [hcall] at this

/-! Two members, of which the first signs. -/

/-- An input whose keys belong to the two members. -/
def ownedInput : PsetInput CompressedKey :=
  { multisigInput 0 2 [keyOne, keyTwo] [] with
    bip32Derivation := Map.collect [(keyOne, (⟨1⟩, ⟨[]⟩)), (keyTwo, (⟨2⟩, ⟨[]⟩))] }

def ownedPset : BlindedPset CompressedKey where
  pset := { inputs := [ownedInput], outputs := [blindedOutput] }
  blinded := rfl

/-- Sign the inputs that list the key under the fingerprint. -/
def signOwn (fp : Fingerprint) (key : CompressedKey) (sig : List UInt8) :
    ElementsSigner CompressedKey Nat := fun pset =>
  (.ok (pset.inputs.countP (·.fpMatches fp key)), { pset with
    inputs := pset.inputs.map fun input =>
      if input.fpMatches fp key then input.insertSigs [(key, sig)] else input })

theorem signsFor_signOwn (fp : Fingerprint) (key : CompressedKey) (sig : List UInt8) :
    SignsFor fp (signOwn fp key sig) := by
  intro pset
  refine ⟨pset.inputs.map fun input => if input.fpMatches fp key then [(key, sig)] else [],
    ?_, ?_, ?_⟩
  · rw [List.forall₂_map_right_iff]
    refine List.forall₂_same.mpr ?_
    intro input _ e he
    split at he
    · next hmatch =>
        obtain rfl := List.mem_singleton.mp he
        exact fpMatches_iff.mp hmatch
    · cases he
  · rw [List.zipWith_map_right, List.zipWith_self]
    refine congrArg (fun inputs => { pset with inputs }) (List.map_congr_left ?_)
    intro input _
    split <;> rfl
  · intro n hn
    obtain rfl := Except.ok.inj hn
    rw [List.countP_map]
    refine List.countP_congr ?_
    intro input _
    cases hmatch : input.fpMatches fp key <;> simp [hmatch]

/-- The state after the first member's signer was called under an id. -/
def signedAs (id : Nat) : ElementsSigningCoordinator CompressedKey Nat :=
  (ElementsSigningCoordinator.mk twoMembers ownedPset.pset ∅).call
    (.signWith (signOwn ⟨1⟩ keyOne [1]) id)

theorem find_of_twoMembers : ∀ id, twoMembers.contains id →
    ∃ member, twoMembers.find id = some member := by
  intro id hid
  rcases (Bool.or_eq_true_iff.mp hid).imp eq_of_beq eq_of_beq with rfl | rfl
  · exact ⟨⟨⟨1⟩⟩, rfl⟩
  · exact ⟨⟨⟨2⟩⟩, rfl⟩

/-- The first member signs, and then the second. -/
theorem counted_contributed_bothSign :
    ((signedAs 1).call (.signWith (signOwn ⟨2⟩ keyTwo [2]) 2)).isComplete = .ok true ∧
    ∃ ids : Finset Nat, 2 ≤ ids.card ∧ ∀ id ∈ ids, twoMembers.contains id ∧
      Contributed twoMembers ((signedAs 1).call
        (.signWith (signOwn ⟨2⟩ keyTwo [2]) 2)).pset id := by
  have hnames : ∀ (c : ElementsSigningCoordinator CompressedKey Nat) (id : Nat) (key sig),
      c.federation = twoMembers → ∀ fp, twoMembers.find id = some ⟨fp⟩ →
      NamesSigner c (.signWith (signOwn fp key sig) id) := by
    intro c id key sig hfed fp hfind member hmember
    rw [hfed, hfind] at hmember
    obtain rfl := Option.some.inj hmember
    exact .inl (signsFor_signOwn fp key sig)
  have hrun : SigningRun twoMembers ownedPset (fun c x => Behaves c x ∧ NamesSigner c x)
      ((signedAs 1).call (.signWith (signOwn ⟨2⟩ keyTwo [2]) 2)) :=
    .call _ (.call _ (.new rfl)
      ⟨⟨rfl, _, signsFor_signOwn ⟨1⟩ keyOne [1]⟩, hnames _ 1 keyOne [1] rfl ⟨1⟩ rfl⟩)
      ⟨⟨rfl, _, signsFor_signOwn ⟨2⟩ keyTwo [2]⟩, hnames _ 2 keyTwo [2] rfl ⟨2⟩ rfl⟩
  refine ⟨rfl, ?_⟩
  obtain ⟨ids, hcard, hids, -⟩ := (counted_contributed find_of_twoMembers hrun).2.1 rfl
  exact ⟨ids, hcard, hids⟩

/-- The first member's signer under the second member's id: that member
is counted without a signature. -/
theorem wrong_id_is_counted : ¬∀ (fed : Federation Nat) (b : BlindedPset CompressedKey)
    (c : ElementsSigningCoordinator CompressedKey Nat),
    (∀ id, fed.contains id → ∃ member, fed.find id = some member) →
    (∀ input ∈ b.pset.inputs, input.partialSigs = ∅) →
    SigningRun fed b Behaves c → ∀ id ∈ c.signed, Contributed fed c.pset id := by
  intro hgeneral
  have hrun : SigningRun twoMembers ownedPset Behaves (signedAs 2) :=
    .call _ (.new rfl) ⟨rfl, _, signsFor_signOwn ⟨1⟩ keyOne [1]⟩
  have hempty : ∀ input ∈ ownedPset.pset.inputs, input.partialSigs = ∅ := by
    intro input hinput
    obtain rfl := List.mem_singleton.mp hinput
    rfl
  obtain ⟨member, hmember, input, hinput, pk, hpk, path, hpath⟩ :=
    hgeneral twoMembers ownedPset (signedAs 2) find_of_twoMembers hempty hrun 2 (by decide)
  cases hmember
  obtain rfl := List.mem_singleton.mp hinput
  obtain rfl : pk = keyOne := by
    rcases mem_insertSigs.mp hpk with hold | hnew
    · exact absurd hold (AList.notMem_empty pk)
    · exact List.mem_singleton.mp hnew
  have hfp : some (⟨1⟩ : Fingerprint) = some ⟨2⟩ := congrArg (Option.map Prod.fst) hpath
  exact absurd hfp (by decide)

end EmvaultElements
