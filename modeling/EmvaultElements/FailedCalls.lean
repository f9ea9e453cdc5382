import EmvaultElements.Signatures

/-!
# What a failed call leaves

Both mutable stages of the pipeline work in place and may fail half way.

- `finalizeP2wshPset` has rewritten the inputs before the one it fails
  at (`finalizeInputs_eq_error`), so it leaves the PSET intact only when
  it fails at the first (`finalize_intact_iff`).
- `signWith` keeps what its signer did before it failed, without counting
  it, while `receiveSignature` only fails when it has merged nothing.
  What a software signer did is read off the PSET it was given
  (`failed_call_iff`).
-/

namespace EmvaultElements

variable {PK Id : Type} [DecidableEq PK]

/-! ## Finalization -/

section Finalize

variable [ElementsLib PK]

/-- A finalization that fails has rewritten the inputs before the first
without a witness script, and no other. -/
theorem finalizeInputs_eq_error : ∀ {idx : Nat} {inputs : List (PsetInput PK)} {e : PsetError Id},
    (finalizeInputs Id idx inputs).1 = .error e →
      ∃ done out input rest, inputs = done ++ input :: rest ∧ List.Forall₂ Finalized done out ∧
        input.witnessScript = none ∧ (finalizeInputs Id idx inputs).2 = out ++ input :: rest ∧
        e = .finalizationFailed ("input " ++ toString (idx + done.length)
          ++ " missing witness_script")
  | _, [], _, herr => by cases herr
  | idx, input :: inputs, e, herr => by
      unfold finalizeInputs at herr ⊢
      cases hscript : input.witnessScript with
      | none =>
          rw [hscript] at herr
          cases herr
          exact ⟨[], [], input, inputs, rfl, .nil, hscript, rfl, rfl⟩
      | some witnessScript =>
          rw [hscript] at herr
          obtain ⟨done, out, bad, rest, rfl, hout, hbad, hrest, rfl⟩ := finalizeInputs_eq_error herr
          refine ⟨input :: done, finalizeInput input witnessScript :: out, bad, rest, rfl,
            .cons ⟨witnessScript, hscript, rfl⟩ hout, hbad, ?_, ?_⟩
          · dsimp only
            rw [hrest]
            rfl
          · rw [List.length_cons, show idx + (done.length + 1) = idx + 1 + done.length by omega]

/-- Give witness scripts to inputs. -/
def Pset.supply (scripts : Nat → Option Script) (pset : Pset PK) : Pset PK :=
  { pset with
    inputs := pset.inputs.mapIdx fun i input =>
      { input with witnessScript := (scripts i).or input.witnessScript } }

/-- The scripts are for the inputs that have none. -/
def MissingScripts (pset : Pset PK) (scripts : Nat → Option Script) : Prop :=
  ∀ (i : Nat) input, pset.inputs[i]? = some input →
    ((scripts i).isSome ↔ input.witnessScript = none)

/-- A call that fails leaves the PSET as it was. Once the missing
scripts are there, a second call succeeds, with the result of a call
that never failed. -/
structure FinalizeIntact (Id : Type) (pset : Pset PK) : Prop where
  unchanged : ∀ e, (finalizeP2wshPset Id pset).1 = .error e → (finalizeP2wshPset Id pset).2 = pset
  retry : ∀ e scripts, (finalizeP2wshPset Id pset).1 = .error e → MissingScripts pset scripts →
    (finalizeP2wshPset Id ((finalizeP2wshPset Id pset).2.supply scripts)).1 = .ok () ∧
    finalizeP2wshPset Id ((finalizeP2wshPset Id pset).2.supply scripts) =
      finalizeP2wshPset Id (pset.supply scripts)

theorem finalize_supply_ok {pset : Pset PK} {scripts : Nat → Option Script}
    (hscripts : MissingScripts pset scripts) :
    (finalizeP2wshPset Id (pset.supply scripts)).1 = .ok () := by
  refine finalizeP2wshPset_ok_iff.mpr ?_
  intro input hmem
  obtain ⟨i, hi⟩ := List.mem_iff_getElem?.mp hmem
  rw [Pset.supply, List.getElem?_mapIdx] at hi
  obtain ⟨input₀, hi₀, rfl⟩ := Option.map_eq_some_iff.mp hi
  cases hold : input₀.witnessScript with
  | some witnessScript => cases scripts i <;> exact ⟨_, rfl⟩
  | none =>
      obtain ⟨script, hscript⟩ := Option.isSome_iff_exists.mp ((hscripts i input₀ hi₀).mpr hold)
      exact ⟨script, by rw [hscript]; rfl⟩

/-- After a failure further on the first input is rewritten, without
its script, and is none of those that a script is supplied for: every
retry fails at once. -/
theorem retry_fails {pset : Pset PK} {input : PsetInput PK} {scripts : Nat → Option Script}
    (hscripts : MissingScripts pset scripts) (hfirst : pset.inputs[0]? = some input)
    (hscript : input.witnessScript ≠ none) :
    (finalizeP2wshPset Id ((finalizeP2wshPset Id pset).2.supply scripts)).1 =
      .error (.finalizationFailed "input 0 missing witness_script") := by
  have hnone : scripts 0 = none := by
    rw [← Option.not_isSome_iff_eq_none, hscripts 0 input hfirst]
    exact hscript
  obtain ⟨inputs, outputs⟩ := pset
  obtain ⟨input', inputs, rfl⟩ : ∃ input' rest, inputs = input' :: rest := by
    cases inputs with
    | nil => cases hfirst
    | cons input' rest => exact ⟨input', rest, rfl⟩
  cases hfirst
  obtain ⟨witnessScript, hsome⟩ := Option.ne_none_iff_exists'.mp hscript
  have hhead : (finalizeP2wshPset Id ⟨input :: inputs, outputs⟩).2.inputs =
      finalizeInput input witnessScript :: (finalizeInputs Id 1 inputs).2 := by
    show (finalizeInputs Id 0 (input :: inputs)).2 = _
    rw [finalizeInputs, hsome]
  show (finalizeInputs Id 0 ((finalizeP2wshPset Id ⟨input :: inputs, outputs⟩).2.supply
    scripts).inputs).1 = _
  rw [Pset.supply, hhead, List.mapIdx_cons, hnone]
  rfl

/-- A failed finalization leaves the PSET intact, and open to a retry,
exactly when no input lacks a witness script or the first one does. -/
theorem finalize_intact_iff (pset : Pset PK) : FinalizeIntact Id pset ↔
    (∀ input ∈ pset.inputs, input.witnessScript ≠ none) ∨
      ∃ input, pset.inputs[0]? = some input ∧ input.witnessScript = none := by
  constructor
  · intro hintact
    by_cases hall : ∀ input ∈ pset.inputs, input.witnessScript ≠ none
    · exact .inl hall
    · refine .inr ?_
      have herr : ∃ e, (finalizeP2wshPset Id pset).1 = .error e := by
        cases hres : (finalizeP2wshPset Id pset).1 with
        | error e => exact ⟨e, rfl⟩
        | ok u =>
            refine absurd ?_ hall
            exact fun input hmem =>
              Option.ne_none_iff_exists'.mpr (finalizeP2wshPset_ok_iff.mp hres input hmem)
      obtain ⟨e, herr⟩ := herr
      have herr' : (finalizeInputs Id 0 pset.inputs).1 = .error e := herr
      obtain ⟨done, out, input, rest, hinputs, hout, hnone, hleft, -⟩ :=
        finalizeInputs_eq_error herr'
      have hsame : (finalizeInputs Id 0 pset.inputs).2 = pset.inputs :=
        congrArg Pset.inputs (hintact.unchanged e herr)
      rw [hleft, hinputs] at hsame
      -- a rewritten first input has lost the script it had
      cases hout with
      | nil =>
          refine ⟨input, ?_, hnone⟩
          rw [hinputs]
          rfl
      | cons hfirst _ =>
          obtain ⟨witnessScript, hscript, rfl⟩ := hfirst
          rw [← (List.cons.inj hsame).1] at hscript
          cases hscript
  · rintro (hall | ⟨input, hfirst, hnone⟩)
    · have hok : (finalizeP2wshPset Id pset).1 = .ok () :=
        finalizeP2wshPset_ok_iff.mpr fun input hmem =>
          Option.ne_none_iff_exists'.mp (hall input hmem)
      refine ⟨?_, ?_⟩
      · intro e herr
        rw [hok] at herr
        cases herr
      · intro e scripts herr
        rw [hok] at herr
        cases herr
    · have hleft : (finalizeP2wshPset Id pset).2 = pset := by
        obtain ⟨inputs, outputs⟩ := pset
        cases inputs with
        | nil => cases hfirst
        | cons input' rest =>
            cases hfirst
            show Pset.mk (finalizeInputs Id 0 (input :: rest)).2 outputs = _
            rw [finalizeInputs, hnone]
      refine ⟨fun _ _ => hleft, ?_⟩
      intro e scripts _ hscripts
      rw [hleft]
      exact ⟨finalize_supply_ok hscripts, rfl⟩

/-! Two inputs, of which the second has no witness script. -/

def secondUnscripted : Pset CompressedKey where
  inputs := [multisigInput 0 2 [keyOne, keyTwo] [(keyOne, [1]), (keyTwo, [2])],
    { multisigInput 1 2 [keyOne, keyTwo]
      [(keyOne, [1]), (keyTwo, [2])] with witnessScript := none }]
  outputs := [blindedOutput]

theorem failed_finalize_rewrites : ¬∀ pset : Pset CompressedKey, FinalizeIntact Nat pset := by
  intro hgeneral
  have hinputs := congrArg Pset.inputs ((hgeneral secondUnscripted).unchanged _ rfl)
  have hfirst : (none : Option Script) = some _ :=
    congrArg PsetInput.witnessScript (List.cons.inj hinputs).1
  cases hfirst

end Finalize

/-! ## Calls to the coordinator -/

/-- A merge that finds nothing new leaves the PSET as it is. -/
theorem mergeInput_not_found {fp : Fingerprint} {acc acc' : Pset PK × Bool}
    {signed : PsetInput PK × Nat} (h : mergeInput fp acc signed = some acc')
    (hfound : acc'.2 = false) :
    acc' = acc := by
  obtain ⟨pset, found⟩ := acc
  obtain ⟨signedInput, i⟩ := signed
  cases hi : pset.inputs[i]? with
  | none =>
      unfold mergeInput at h
      dsimp only at h
      rw [hi] at h
      exact (Option.some.inj (Option.ite_none_right_eq_some.mp h).2).symm
  | some input =>
      rw [mergeInput_eq hi] at h
      obtain rfl := Option.some.inj h
      obtain ⟨rfl, hnews⟩ := Bool.or_eq_false_iff.mp hfound
      have hnil : input.news fp signedInput = [] := by simpa using hnews
      have hsame : input.merged fp signedInput = input := by
        rw [PsetInput.merged, hnil]
        rfl
      obtain ⟨hlt, rfl⟩ := List.getElem?_eq_some_iff.mp hi
      rw [hsame, List.set_getElem_self, hnil]
      rfl

theorem mergeInputs_not_found {fp : Fingerprint} : ∀ {signed : List (PsetInput PK × Nat)}
    {acc acc' : Pset PK × Bool}, mergeInputs fp signed acc = some acc' → acc'.2 = false → acc' = acc
  | [], _, _, h, _ => (Option.some.inj h).symm
  | _ :: _, _, _, h, hfound => by
      obtain ⟨acc₁, hone, hrest⟩ := Option.bind_eq_some_iff.mp h
      obtain rfl := mergeInputs_not_found hrest hfound
      exact mergeInput_not_found hone hfound

/-- The id a call names. -/
def SignerCall.id : SignerCall PK Id → Id
  | .signWith _ id => id
  | .receiveSignature id _ => id

namespace ElementsSigningCoordinator

variable [DecidableEq Id]

/-- The call returns an error. -/
def Fails (c : ElementsSigningCoordinator PK Id) : SignerCall PK Id → Prop
  | .signWith signer id => ∃ e, (c.signWith signer id).1 = .error e
  | .receiveSignature id signedPset => ∃ e, (c.receiveSignature id signedPset).1 = .err e

/-- The call has changed nothing, and a response that would have brought
something new before it is accepted after it. -/
structure NothingDone (c : ElementsSigningCoordinator PK Id) (x : SignerCall PK Id) : Prop where
  pset : c.pset.Same (c.call x).pset
  signed : (c.call x).signed = c.signed
  later : ∀ r : Id × Pset PK, r.2.inputs.length = c.pset.inputs.length →
    Board.Brings c.pset.board (c.federation.offer r) →
      ((c.call x).receiveSignature r.1 r.2).1 = .ok ()

/-- A signer that fails for a member leaves the PSET it is handed as it
was. -/
def LeavesPset (c : ElementsSigningCoordinator PK Id) : SignerCall PK Id → Prop
  | .signWith signer id => c.federation.contains id → ∀ e, (signer c.pset).1 = .error e →
      c.pset.Same (signer c.pset).2
  | .receiveSignature _ _ => True

/-- A signer that reports no input signed has inserted nothing. -/
def ReportsSigned (c : ElementsSigningCoordinator PK Id) : SignerCall PK Id → Prop
  | .signWith signer _ => (signer c.pset).1 = .ok 0 → c.pset.Same (signer c.pset).2
  | .receiveSignature _ _ => True

variable {c : ElementsSigningCoordinator PK Id} {id : Id} {signedPset : Pset PK}

/-- A response that is refused leaves the coordinator as it was. -/
theorem receiveSignature_refused {e : PsetError Id}
    (herr : (c.receiveSignature id signedPset).1 = .err e) :
    (c.receiveSignature id signedPset).2 = c := by
  cases hid : c.federation.member id with
  | none => rw [receiveSignature_of_unknown hid]
  | some signer =>
      cases hmerge : mergeInputs signer.fingerprint signedPset.inputs.zipIdx (c.pset, false) with
      | none =>
          obtain ⟨hmember, hfind⟩ := Federation.member_eq_some_iff.mp hid
          unfold receiveSignature
          rw [if_neg (by simpa using hmember), hfind]
          dsimp only
          rw [hmerge]
      | some acc =>
          obtain ⟨pset, found⟩ := acc
          rw [receiveSignature_of_member hid hmerge] at herr ⊢
          cases found with
          | true => cases herr
          | false =>
              obtain ⟨rfl, -⟩ := Prod.mk.injEq .. |>.mp (mergeInputs_not_found hmerge rfl)
              rfl

omit [DecidableEq PK] in
theorem signWith_of_unknown (hid : ¬c.federation.contains id) (signer : ElementsSigner PK Id) :
    c.signWith signer id = (.error (.unknownSigner id), c) := by
  unfold signWith
  rw [if_pos (by simpa using hid)]

omit [DecidableEq PK] in
/-- What a signer did before it failed is kept. -/
theorem signWith_error (hid : c.federation.contains id) {signer : ElementsSigner PK Id}
    {e : PsetError Id} (herr : (signer c.pset).1 = .error e) :
    c.signWith signer id = (.error e, { c with pset := (signer c.pset).2 }) := by
  unfold signWith
  rw [if_neg (by simpa using hid)]
  dsimp only
  rw [herr]

omit [DecidableEq PK] in
theorem signWith_ok (hid : c.federation.contains id) {signer : ElementsSigner PK Id} {n : Nat}
    (hok : (signer c.pset).1 = .ok n) :
    c.signWith signer id = (.ok n, { c with
      pset := (signer c.pset).2
      signed := if 0 < n then insert id c.signed else c.signed }) := by
  unfold signWith
  rw [if_neg (by simpa using hid)]
  dsimp only
  rw [hok]
  dsimp only
  split <;> rfl

/-- A call that fails changes nothing exactly when its signer, if it
fails for a member, leaves the PSET as it was. -/
theorem nothingDone_iff (x : SignerCall PK Id) :
    (c.Fails x → NothingDone c x) ↔ LeavesPset c x := by
  have hunchanged : c.pset.Same (c.call x).pset → (c.call x).federation = c.federation →
      (c.call x).signed = c.signed → NothingDone c x := by
    intro hsame hfed hsigned
    refine ⟨hsame, hsigned, ?_⟩
    intro r hlen hbrings
    refine ((c.call x).receives r (hlen.trans hsame.length_eq.symm)).ok_iff.mpr ?_
    rwa [hsame.board, hfed]
  cases x with
  | receiveSignature id signedPset =>
      refine iff_of_true ?_ trivial
      rintro ⟨e, herr⟩
      have hsame : c.call (.receiveSignature id signedPset) = c := receiveSignature_refused herr
      refine hunchanged ?_ ?_ ?_
      · rw [hsame]
        exact .refl c.pset
      · rw [hsame]
      · rw [hsame]
  | signWith signer id =>
      constructor
      · intro h hid e herr
        have hcall : c.signWith signer id = (.error e, { c with pset := (signer c.pset).2 }) :=
          signWith_error hid herr
        have hpset := (h ⟨e, by rw [hcall]⟩).pset
        rwa [call, hcall] at hpset
      · rintro hleaves ⟨e, herr⟩
        by_cases hid : c.federation.contains id
        · cases hres : (signer c.pset).1 with
          | ok n =>
              rw [signWith_ok hid hres] at herr
              cases herr
          | error e' =>
              refine hunchanged ?_ ?_ ?_
              · rw [call, signWith_error hid hres]
                exact hleaves hid e' hres
              · rw [call, signWith_error hid hres]
              · rw [call, signWith_error hid hres]
        · refine hunchanged ?_ ?_ ?_
          · rw [call, signWith_of_unknown hid]
            exact .refl c.pset
          · rw [call, signWith_of_unknown hid]
          · rw [call, signWith_of_unknown hid]

/-! ### Runs -/

/-- The coordinator after a list of calls. -/
def calls (c : ElementsSigningCoordinator PK Id) (xs : List (SignerCall PK Id)) :
    ElementsSigningCoordinator PK Id := xs.foldl call c

/-- Every call of the list is allowed in the state it is made in. -/
def EachCall (allowed : ElementsSigningCoordinator PK Id → SignerCall PK Id → Prop) :
    ElementsSigningCoordinator PK Id → List (SignerCall PK Id) → Prop
  | _, [] => True
  | c, x :: xs => allowed c x ∧ EachCall allowed (c.call x) xs

theorem signed_subset_call (c : ElementsSigningCoordinator PK Id) (x : SignerCall PK Id) :
    c.signed ⊆ (c.call x).signed := by
  have hcounted : ∀ (counted : Bool) id,
      c.signed ⊆ if counted then insert id c.signed else c.signed := by
    intro counted id
    cases counted with
    | true => exact Finset.subset_insert id c.signed
    | false => exact Finset.Subset.refl c.signed
  cases x with
  | signWith signer id =>
      rcases call_signWith (c := c) signer id with h | ⟨-, counted, -, h⟩
      · rw [h]
      · rw [h]
        exact hcounted counted id
  | receiveSignature id signedPset =>
      rcases call_receiveSignature (c := c) id signedPset with h | ⟨-, _, _, found, -, -, h⟩
      · rw [h]
      · rw [h]
        exact hcounted found id

theorem signed_subset_calls (xs : List (SignerCall PK Id)) :
    ∀ c : ElementsSigningCoordinator PK Id, c.signed ⊆ (c.calls xs).signed := by
  induction xs with
  | nil => exact fun c => Finset.Subset.refl c.signed
  | cons x xs ih => exact fun c => (signed_subset_call c x).trans (ih (c.call x))

/-- A call that changes the PSET counts the signer it names. -/
theorem counted_of_changed {x : SignerCall PK Id} (hleaves : LeavesPset c x)
    (hreports : ReportsSigned c x) (hchanged : ¬c.pset.Same (c.call x).pset) :
    x.id ∈ (c.call x).signed := by
  cases x with
  | signWith signer id =>
      by_cases hid : c.federation.contains id
      · cases hres : (signer c.pset).1 with
        | error e =>
            rw [call, signWith_error hid hres] at hchanged
            exact absurd (hleaves hid e hres) hchanged
        | ok n =>
            rw [call, signWith_ok hid hres] at hchanged ⊢
            cases n with
            | zero => exact absurd (hreports hres) hchanged
            | succ n =>
                show id ∈ if 0 < n + 1 then insert id c.signed else c.signed
                rw [if_pos (Nat.succ_pos n)]
                exact Finset.mem_insert_self id c.signed
      · rw [call, signWith_of_unknown hid] at hchanged
        exact absurd (.refl c.pset) hchanged
  | receiveSignature id signedPset =>
      rcases call_receiveSignature (c := c) id signedPset with h | ⟨-, _, pset, found, -, hmerge, h⟩
      · rw [h] at hchanged
        exact absurd (.refl c.pset) hchanged
      · rw [h] at hchanged ⊢
        cases found with
        | true => exact Finset.mem_insert_self id c.signed
        | false =>
            obtain rfl : pset = c.pset := congrArg Prod.fst (mergeInputs_not_found hmerge rfl)
            exact absurd (.refl _) hchanged

/-- The signature was inserted by a call of the list whose signer is
counted in the end. -/
def StemsFromCounted (c : ElementsSigningCoordinator PK Id) (xs : List (SignerCall PK Id))
    (k : Nat × PK) (sig : List UInt8) : Prop :=
  ∃ pre x post, xs = pre ++ x :: post ∧ (c.calls pre).pset.board k ≠ some sig ∧
    ((c.calls pre).call x).pset.board k = some sig ∧ x.id ∈ (c.calls xs).signed

theorem stems_of_run : ∀ (xs : List (SignerCall PK Id)) (c : ElementsSigningCoordinator PK Id),
    EachCall (fun c x => LeavesPset c x ∧ ReportsSigned c x) c xs → ∀ k sig,
    (c.calls xs).pset.board k = some sig → c.pset.board k = some sig ∨ StemsFromCounted c xs k sig
  | [], _, _, _, _, hsig => .inl hsig
  | x :: xs, c, ⟨⟨hleaves, hreports⟩, hrest⟩, k, sig, hsig => by
      rcases stems_of_run xs (c.call x) hrest k sig hsig with hfirst | hlater
      · by_cases hold : c.pset.board k = some sig
        · exact .inl hold
        · refine .inr ⟨[], x, xs, rfl, hold, hfirst, ?_⟩
          refine signed_subset_calls xs (c.call x) (counted_of_changed hleaves hreports ?_)
          intro hsame
          rw [hsame.board] at hfirst
          exact hold hfirst
      · obtain ⟨pre, y, post, rfl, hbefore, hafter, hcounted⟩ := hlater
        exact .inr ⟨x :: pre, y, post, rfl, hbefore, hafter, hcounted⟩

/-! ### Software signers -/

section

variable {Xpriv : Type} [SigningLib PK Xpriv]

omit [DecidableEq Id] in
theorem reportsSigned_software (signer : SoftwareSigner Xpriv) :
    ReportsSigned c (.signWith (signer.signPset Id) id) := by
  intro hzero
  rw [((signer.signPset_spec c.pset).2 0 hzero).1 rfl]
  exact .refl c.pset

omit [DecidableEq Id] in
/-- A software signer that fails for a member leaves the PSET as it was
exactly when all that it signs before is there. -/
theorem leavesPset_software_iff (hlib : IgnoresSigs PK Xpriv) (signer : SoftwareSigner Xpriv) :
    LeavesPset c (.signWith (signer.signPset Id) id) ↔
      (c.federation.contains id → ¬signer.CanSign c.pset → signer.AddsNothing c.pset) := by
  have hok : (∃ n, (signer.signPset Id c.pset).1 = .ok n) ↔ signer.CanSign c.pset :=
    SoftwareSigner.signPset_ok_iff hlib
  have hsame : c.pset.Same (signer.signPset Id c.pset).2 ↔ signer.AddsNothing c.pset :=
    SoftwareSigner.signPset_same_iff hlib
  rw [← hok, ← hsame]
  refine imp_congr_right fun _ => ?_
  cases (signer.signPset Id c.pset).1 with
  | ok n => simp
  | error e => simp

end

/-- A call that fails changes nothing exactly when its signer leaves the
PSET it fails on as it was; for a software signer, exactly when every
signature it makes before the input or the key it fails at is there. In
a run of such calls every signature stems from a counted signer, or was
there at the start. -/
theorem failed_call_iff :
    (∀ (c : ElementsSigningCoordinator PK Id) (x : SignerCall PK Id),
      (c.Fails x → NothingDone c x) ↔ LeavesPset c x) ∧
    (∀ (Xpriv : Type) [SigningLib PK Xpriv], IgnoresSigs PK Xpriv →
      ∀ (c : ElementsSigningCoordinator PK Id) (id : Id) (signer : SoftwareSigner Xpriv),
      (c.Fails (.signWith (signer.signPset Id) id) →
          NothingDone c (.signWith (signer.signPset Id) id)) ↔
        (c.federation.contains id → ¬signer.CanSign c.pset → signer.AddsNothing c.pset)) ∧
    ∀ (c : ElementsSigningCoordinator PK Id) (xs : List (SignerCall PK Id)),
      EachCall (fun c x => LeavesPset c x ∧ ReportsSigned c x) c xs → ∀ k sig,
      (c.calls xs).pset.board k = some sig →
        c.pset.board k = some sig ∨ StemsFromCounted c xs k sig :=
  ⟨fun _ x => nothingDone_iff x,
    fun _ _ hlib _ _ signer => (nothingDone_iff _).trans (leavesPset_software_iff hlib signer),
    fun c xs => stems_of_run xs c⟩

end ElementsSigningCoordinator

/-! A member's software signer, on two inputs of which one has no
witness script. -/

/-- The inputs spend P2WSH outputs, each with its witness script or
without. -/
def withScripts (scripted : List Bool) : ElementsSigningCoordinator CompressedKey Nat where
  federation := twoMembers
  pset := {
    inputs := scripted.mapIdx fun i s => { ownedInput with
      previousOutput := ⟨⟨200⟩, i⟩
      witnessUtxo := some spentOutput
      witnessScript := if s then ownedInput.witnessScript else none }
    outputs := [blindedOutput] }
  signed := ∅

/-- The first member's response: a signature on the first input. -/
def firstResponse : Pset CompressedKey where
  inputs := (withScripts [true, true]).pset.inputs.mapIdx fun i input =>
    if i = 0 then input.insertSigs [(keyOne, [1])] else input
  outputs := [blindedOutput]

/-- The signer fails at the first input, and its response is accepted
later. -/
theorem failed_call_iff_retried : ElementsSigningCoordinator.StemsFromCounted
    (withScripts [false, true])
    [.signWith (firstSigner.signPset Nat) 1, .receiveSignature 1 firstResponse]
    (0, keyOne) [1] := by
  have hstops : ¬firstSigner.CanSignAt (withScripts [false, true]).pset
      ⟨⟨0⟩, [⟨⟨⟨200⟩, 0⟩⟩, ⟨⟨⟨200⟩, 1⟩⟩],
        [⟨.confidential ⟨10⟩, .confidential ⟨8⟩, .null, ⟨[0x51]⟩, ⟨some [1], some [1]⟩⟩]⟩ 0 := by
    rintro ⟨⟨msg, hmsg⟩, -⟩
    cases hmsg
  have hadds : firstSigner.AddsNothing (withScripts [false, true]).pset := by
    intro tx htx i hi hreached pk sig hsig
    obtain rfl := Except.ok.inj htx
    cases i with
    | zero => cases hsig
    | succ i => exact absurd (hreached 0 (Nat.succ_pos i)) hstops
  have hleaves := (ElementsSigningCoordinator.failed_call_iff.1 (withScripts [false, true])
    (.signWith (firstSigner.signPset Nat) 1)).mp
    ((ElementsSigningCoordinator.failed_call_iff.2.1 UInt8 ignoresSigs_compressedKey
      (withScripts [false, true]) 1 firstSigner).mpr fun _ _ => hadds)
  have hreports : ElementsSigningCoordinator.ReportsSigned (withScripts [false, true])
      (.signWith (firstSigner.signPset Nat) 1) :=
    ElementsSigningCoordinator.reportsSigned_software firstSigner
  have hallowed := And.intro (And.intro hleaves hreports)
    (And.intro (And.intro trivial trivial) trivial)
  rcases ElementsSigningCoordinator.failed_call_iff.2.2 (withScripts [false, true])
    [.signWith (firstSigner.signPset Nat) 1, .receiveSignature 1 firstResponse] hallowed
    (0, keyOne) [1] rfl
    with hstart | hstems
  · cases hstart
  · exact hstems

/-- The signer fails at the second input: its signature on the first
stays, and bars its own response. -/
theorem failed_signing_leaves_signature :
    ¬∀ (c : ElementsSigningCoordinator CompressedKey Nat) (x : SignerCall CompressedKey Nat),
      c.Fails x → ElementsSigningCoordinator.NothingDone c x := by
  intro hgeneral
  have hlater := (hgeneral (withScripts [true, false]) (.signWith (firstSigner.signPset Nat) 1)
    ⟨_, rfl⟩).later (1, firstResponse) rfl ⟨(0, keyOne), rfl, rfl⟩
  cases hlater

end EmvaultElements
