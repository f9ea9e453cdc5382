import Mathlib.Algebra.BigOperators.Group.Finset.Piecewise
import Mathlib.Algebra.Order.BigOperators.Group.Finset
import Mathlib.Data.List.TakeWhile
import EmvaultElements.ResponseOrder
import EmvaultElements.SoftwareSigner

/-!
# The signatures of a software signer

A signature hash does not depend on the signatures a PSET already has
(`IgnoresSigs`), so what a software signer inserts is a function of the
unsigned PSET: for every key listed under its fingerprint, one signature
(`SoftwareSigner.signature`). A call that succeeds writes these over the
signatures that are there, and changes nothing else (`signPset_ok`);
whether it succeeds depends on the unsigned PSET as well
(`signPset_ok_iff`).

A call that fails has done so up to the input it fails at, so it leaves
the PSET as it was exactly when it has made no signature that was not
there (`signPset_same_iff`). The number a call returns counts
signatures, which is the number of inputs signed only if no input lists
two of its keys (`signed_inputs_iff`).
-/

namespace EmvaultElements

variable {PK Xpriv Id : Type} [DecidableEq PK]

/-! ## PSETs without their signatures -/

def PsetInput.unsigned (input : PsetInput PK) : PsetInput PK := { input with partialSigs := ∅ }

def Pset.unsigned (pset : Pset PK) : Pset PK :=
  { pset with inputs := pset.inputs.map PsetInput.unsigned }

omit [DecidableEq PK] in
theorem getElem?_unsigned (pset : Pset PK) (i : Nat) :
    pset.unsigned.inputs[i]? = (pset.inputs[i]?).map PsetInput.unsigned :=
  List.getElem?_map ..

omit [DecidableEq PK] in
theorem length_unsigned (pset : Pset PK) :
    pset.unsigned.inputs.length = pset.inputs.length := List.length_map ..

theorem board_unsigned (pset : Pset PK) (k : Nat × PK) : pset.unsigned.board k = none := by
  rw [Pset.board, getElem?_unsigned]
  cases pset.inputs[k.1]? with
  | none => rfl
  | some input => rfl

theorem unsigned_insertSigs (input : PsetInput PK) (sigs : List (PK × List UInt8)) :
    (input.insertSigs sigs).unsigned = input.unsigned := rfl

theorem unsigned_modify (pset : Pset PK) (idx : Nat) (sigs : List (PK × List UInt8)) :
    ({ pset with inputs := pset.inputs.modify idx (·.insertSigs sigs) } : Pset PK).unsigned =
      pset.unsigned := by
  unfold Pset.unsigned
  congr 1
  refine List.ext_getElem? ?_
  intro i
  rw [List.getElem?_map, List.getElem?_map, List.getElem?_modify]
  by_cases h : idx = i
  · cases pset.inputs[i]? with
    | none => rfl
    | some input => simp [h, unsigned_insertSigs]
  · simp [h]

theorem unsigned_of_extends {Q : KeyOrigins PK → PK → Prop} {pset pset' : Pset PK}
    (h : pset.Extends Q pset') : pset'.unsigned = pset.unsigned := by
  have hinputs : pset'.inputs.map PsetInput.unsigned = pset.inputs.map PsetInput.unsigned := by
    have := h.inputs
    revert this
    generalize pset.inputs = inputs, pset'.inputs = inputs'
    intro hall
    induction hall with
    | nil => rfl
    | @cons input input' inputs inputs' hhead _ ih =>
        obtain ⟨sigs, -, rfl⟩ := hhead
        rw [List.map_cons, List.map_cons, ih, unsigned_insertSigs]
  rw [Pset.unsigned, hinputs, h.outputs, Pset.unsigned]

/-- PSETs that agree without their signatures and have the same ones
differ at most in how these are kept. -/
theorem sameSigs_of_unsigned {pset pset' : Pset PK} (hunsigned : pset'.unsigned = pset.unsigned)
    (hboard : pset'.board = pset.board) :
    List.Forall₂ ElementsSigningCoordinator.SameSigs pset.inputs pset'.inputs := by
  have hlen : pset.inputs.length = pset'.inputs.length := by
    rw [← length_unsigned pset, ← length_unsigned pset', hunsigned]
  refine List.forall₂_iff_get.mpr ⟨hlen, ?_⟩
  intro i hi hi'
  have hinput : pset.inputs[i]? = some (pset.inputs.get ⟨i, hi⟩) := List.getElem?_eq_getElem hi
  have hinput' : pset'.inputs[i]? = some (pset'.inputs.get ⟨i, hi'⟩) := List.getElem?_eq_getElem hi'
  generalize pset.inputs.get ⟨i, hi⟩ = input at hinput
  generalize pset'.inputs.get ⟨i, hi'⟩ = input' at hinput'
  constructor
  · have hone := congrArg (·.inputs[i]?) hunsigned
    rw [getElem?_unsigned, getElem?_unsigned, hinput, hinput'] at hone
    have heq := Option.some.inj hone
    obtain ⟨⟩ := input
    obtain ⟨⟩ := input'
    simp only [PsetInput.unsigned, PsetInput.mk.injEq] at heq ⊢
    simp [heq]
  · intro pk
    have hone := congrFun hboard (i, pk)
    unfold Pset.board at hone
    rwa [hinput, hinput'] at hone

/-- Inserting signatures that are there changes no lookup. -/
theorem getSig_insertSigs_same {input : PsetInput PK} {sigs : List (PK × List UInt8)}
    (hnodup : (sigs.map Prod.fst).Nodup) :
    (∀ pk, (input.insertSigs sigs).getSig pk = input.getSig pk) ↔
      ∀ pk sig, (pk, sig) ∈ sigs → input.getSig pk = some sig := by
  constructor
  · intro hsame pk sig hsig
    rw [← hsame]
    exact (getSig_insertSigs hnodup).mpr (.inl hsig)
  · intro hall pk
    refine Option.ext ?_
    intro sig
    rw [getSig_insertSigs hnodup]
    constructor
    · rintro (hsig | ⟨-, hold⟩)
      · exact hall pk sig hsig
      · exact hold
    · intro hold
      by_cases hpk : pk ∈ sigs.map Prod.fst
      · obtain ⟨⟨_, sig'⟩, hsig', rfl⟩ := List.mem_map.mp hpk
        obtain rfl := Option.some.inj (hold.symm.trans (hall _ _ hsig'))
        exact .inl hsig'
      · exact .inr ⟨hpk, hold⟩

/-- The same PSET, however its signatures are kept. -/
structure Pset.Same (pset pset' : Pset PK) : Prop where
  unsigned : pset'.unsigned = pset.unsigned
  board : pset'.board = pset.board

theorem Pset.Same.refl (pset : Pset PK) : pset.Same pset := ⟨rfl, rfl⟩

theorem Pset.Same.length_eq {pset pset' : Pset PK} (h : pset.Same pset') :
    pset'.inputs.length = pset.inputs.length := by
  rw [← length_unsigned pset', h.unsigned, length_unsigned]

/-! ## What a signer inserts -/

section

variable [SigningLib PK Xpriv]

/-- `Pset::extract_tx` and `Pset::sighash_msg` do not read partial
signatures. -/
structure IgnoresSigs (PK Xpriv : Type) [SigningLib PK Xpriv] : Prop where
  extractTx : ∀ pset : Pset PK, ElementsLib.extractTx pset.unsigned = ElementsLib.extractTx pset
  sighashMsg : ∀ (pset : Pset PK) idx tx genesis,
    SigningLib.sighashMsg Xpriv pset.unsigned idx tx genesis =
      SigningLib.sighashMsg Xpriv pset idx tx genesis

omit [DecidableEq PK] in
theorem IgnoresSigs.sighashMsg_congr (hlib : IgnoresSigs PK Xpriv) {pset pset' : Pset PK}
    (h : pset'.unsigned = pset.unsigned) (idx : Nat) (tx : Transaction) (genesis : BlockHash) :
    SigningLib.sighashMsg Xpriv pset' idx tx genesis =
      SigningLib.sighashMsg Xpriv pset idx tx genesis := by
  rw [← hlib.sighashMsg pset', h, hlib.sighashMsg pset]

namespace SoftwareSigner

variable (self : SoftwareSigner Xpriv)

/-- The signature of a message under a listed key. -/
def keySig (message : BitVec 256) (key : PK × DerivationPath) : Option (PK × List UInt8) :=
  (SigningLib.derivePriv PK self.master key.2).toOption.map fun child =>
    (key.1, SigningLib.signEcdsa PK message child ++ [ecdsaSighashAll])

/-- The keys an input lists for the signer, if it is to be signed. -/
def keysAt (pset : Pset PK) (tx : Transaction) (i : Nat) :
    Option (BitVec 256 × List (PK × DerivationPath)) :=
  match SigningLib.sighashMsg Xpriv pset i tx self.genesis with
  | .ok (.ecdsaSighash message) => some (message, (pset.inputs[i]?).elim [] self.mine)
  | _ => none

/-- The signatures for an input. -/
def sigsAt (pset : Pset PK) (tx : Transaction) (i : Nat) : List (PK × List UInt8) :=
  (self.keysAt pset tx i).elim [] fun k => k.2.filterMap (self.keySig k.1)

/-- The keys up to the first that cannot be derived. -/
def derived (keys : List (PK × DerivationPath)) : List (PK × DerivationPath) :=
  keys.takeWhile fun key => (SigningLib.derivePriv PK self.master key.2).toOption.isSome

/-- The signatures made for an input, also if a key cannot be derived. -/
def madeAt (pset : Pset PK) (tx : Transaction) (i : Nat) : List (PK × List UInt8) :=
  (self.keysAt pset tx i).elim [] fun k => (self.derived k.2).filterMap (self.keySig k.1)

/-- The input has a signature hash, and the keys listed for the signer
can be derived. -/
structure CanSignAt (pset : Pset PK) (tx : Transaction) (i : Nat) : Prop where
  hash : ∃ msg, SigningLib.sighashMsg Xpriv pset i tx self.genesis = .ok msg
  derives : ∀ message keys, self.keysAt pset tx i = some (message, keys) → ∀ key ∈ keys,
    ∃ child, SigningLib.derivePriv PK self.master key.2 = .ok child

variable {self} {message : BitVec 256} {idx : Nat}

omit [DecidableEq PK] [SigningLib PK Xpriv] in
theorem nodup_mine (input : PsetInput PK) : ((self.mine input).map Prod.fst).Nodup := by
  rw [mine, List.map_map]
  have hkeys : (input.bip32Derivation.entries.map Sigma.fst).Nodup :=
    input.bip32Derivation.nodupKeys
  exact (List.filter_sublist.map Sigma.fst).nodup hkeys

omit [DecidableEq PK] in
theorem map_fst_keySig {keys : List (PK × DerivationPath)}
    (hderives : ∀ key ∈ keys, ∃ child, SigningLib.derivePriv PK self.master key.2 = .ok child) :
    (keys.filterMap (self.keySig message)).map Prod.fst = keys.map Prod.fst := by
  induction keys with
  | nil => rfl
  | cons key keys ih =>
      obtain ⟨child, hchild⟩ := hderives key (List.mem_cons_self ..)
      have hsig : self.keySig message key =
          some (key.1, SigningLib.signEcdsa PK message child ++ [ecdsaSighashAll]) := by
        rw [keySig, hchild]
        rfl
      rw [List.filterMap_cons_some hsig, List.map_cons, List.map_cons,
        ih fun key' hkey' => hderives key' (List.mem_cons_of_mem key hkey')]

/-- The loop over the keys succeeds when all can be derived, and then
has inserted and counted one signature for each. -/
theorem signKeys_ok_iff : ∀ {keys : List (PK × DerivationPath)} {acc : Pset PK × Nat},
    (self.signKeys Id message idx keys acc).1 = .ok () ↔
      ∀ key ∈ keys, ∃ child, SigningLib.derivePriv PK self.master key.2 = .ok child
  | [], acc => by simp [signKeys]
  | (pk, path) :: keys, (pset, signed) => by
      unfold signKeys
      rw [List.forall_mem_cons]
      cases hchild : SigningLib.derivePriv PK self.master path with
      | error e => simp
      | ok child =>
          dsimp only
          rw [signKeys_ok_iff]
          simp

theorem signKeys_ok : ∀ {keys : List (PK × DerivationPath)} {pset : Pset PK} {signed : Nat},
    (∀ key ∈ keys, ∃ child, SigningLib.derivePriv PK self.master key.2 = .ok child) →
    (self.signKeys Id message idx keys (pset, signed)).2 =
      ({ pset with
          inputs := pset.inputs.modify idx (·.insertSigs (keys.filterMap (self.keySig message))) },
        signed + keys.length)
  | [], pset, signed, _ => by
      have hid : pset.inputs.modify idx (·.insertSigs []) = pset.inputs := List.modify_id ..
      rw [signKeys, List.filterMap_nil, hid]
      rfl
  | (pk, path) :: keys, pset, signed, hderives => by
      obtain ⟨child, hchild⟩ := hderives (pk, path) (List.mem_cons_self ..)
      have hsig : self.keySig message (pk, path) =
          some (pk, SigningLib.signEcdsa PK message child ++ [ecdsaSighashAll]) := by
        rw [keySig, hchild]
        rfl
      have hcomp : (fun input : PsetInput PK => input.insertSigs
        (keys.filterMap (self.keySig message)))
          ∘ (fun input : PsetInput PK => input.insertSigs
            [(pk, SigningLib.signEcdsa PK message child ++ [ecdsaSighashAll])]) =
          fun input : PsetInput PK => input.insertSigs
            (((pk, path) :: keys).filterMap (self.keySig message)) := by
        funext input
        rw [Function.comp_apply, insertSigs_append, List.filterMap_cons_some hsig,
          List.singleton_append]
      unfold signKeys
      rw [hchild]
      dsimp only
      rw [signKeys_ok fun key hkey => hderives key (List.mem_cons_of_mem _ hkey),
        List.modify_modify_eq, hcomp, List.length_cons, Nat.add_assoc, Nat.add_comm 1]

/-- Whatever the loop returns, it has signed with the keys up to the
first that cannot be derived. -/
theorem signKeys_inserts : ∀ {keys : List (PK × DerivationPath)} {pset : Pset PK} {signed : Nat},
    (self.signKeys Id message idx keys (pset, signed)).2.1 = { pset with
      inputs := pset.inputs.modify idx
        (·.insertSigs ((self.derived keys).filterMap (self.keySig message))) }
  | [], pset, signed => by
      have hid : pset.inputs.modify idx (·.insertSigs []) = pset.inputs := List.modify_id ..
      rw [signKeys, derived, List.takeWhile_nil, List.filterMap_nil, hid]
  | (pk, path) :: keys, pset, signed => by
      unfold signKeys
      cases hchild : SigningLib.derivePriv PK self.master path with
      | error e =>
          have hnone : self.derived ((pk, path) :: keys) = [] := by
            simp [derived, hchild, Except.toOption]
          have hid : pset.inputs.modify idx (·.insertSigs []) = pset.inputs := List.modify_id ..
          rw [hnone, List.filterMap_nil, hid]
      | ok child =>
          have hsome : self.derived ((pk, path) :: keys) = (pk, path) :: self.derived keys := by
            simp [derived, hchild, Except.toOption]
          have hsig : self.keySig message (pk, path) =
              some (pk, SigningLib.signEcdsa PK message child ++ [ecdsaSighashAll]) := by
            rw [keySig, hchild]
            rfl
          dsimp only
          rw [signKeys_inserts, hsome, List.modify_modify_eq, List.filterMap_cons_some hsig]
          simp only [Function.comp_def, insertSigs_append, List.singleton_append]

/-! ### All inputs -/

omit [DecidableEq PK] in
theorem madeAt_eq {pset : Pset PK} {tx : Transaction} {i : Nat} (h : self.CanSignAt pset tx i) :
    self.madeAt pset tx i = self.sigsAt pset tx i := by
  unfold madeAt sigsAt
  cases hkeys : self.keysAt pset tx i with
  | none => rfl
  | some k =>
      have hall : self.derived k.2 = k.2 := by
        refine List.takeWhile_eq_self_iff.mpr ?_
        intro key hkey
        obtain ⟨-, hderives⟩ := h
        obtain ⟨child, hchild⟩ := hderives k.1 k.2 hkeys key hkey
        simp [hchild, Except.toOption]
      rw [Option.elim_some, Option.elim_some, hall]

omit [DecidableEq PK] in
theorem length_sigsAt {pset : Pset PK} {tx : Transaction} {i : Nat}
    (h : self.CanSignAt pset tx i) :
    (self.sigsAt pset tx i).length = ((self.keysAt pset tx i).elim [] Prod.snd).length := by
  unfold sigsAt
  cases hkeys : self.keysAt pset tx i with
  | none => rfl
  | some k =>
      obtain ⟨-, hderives⟩ := h
      have hall : (k.2.filterMap (self.keySig k.1)).map Prod.fst = k.2.map Prod.fst :=
        map_fst_keySig (hderives k.1 k.2 hkeys)
      simpa using congrArg List.length hall

omit [DecidableEq PK] in
theorem keysAt_congr (hlib : IgnoresSigs PK Xpriv) {pset pset' : Pset PK}
    (h : pset'.unsigned = pset.unsigned) (tx : Transaction) (i : Nat) :
    self.keysAt pset' tx i = self.keysAt pset tx i := by
  have hmine : (pset'.inputs[i]?).elim [] self.mine = (pset.inputs[i]?).elim [] self.mine := by
    have hone := congrArg (fun p : Pset PK => (p.inputs[i]?).elim [] self.mine) h
    rw [getElem?_unsigned, getElem?_unsigned, Option.elim_map, Option.elim_map] at hone
    exact hone
  rw [keysAt, keysAt, hlib.sighashMsg_congr h, hmine]

omit [DecidableEq PK] in
theorem sigsAt_congr (hlib : IgnoresSigs PK Xpriv) {pset pset' : Pset PK}
    (h : pset'.unsigned = pset.unsigned) (tx : Transaction) (i : Nat) :
    self.sigsAt pset' tx i = self.sigsAt pset tx i := by
  rw [sigsAt, sigsAt, keysAt_congr hlib h]

omit [DecidableEq PK] in
theorem madeAt_congr (hlib : IgnoresSigs PK Xpriv) {pset pset' : Pset PK}
    (h : pset'.unsigned = pset.unsigned) (tx : Transaction) (i : Nat) :
    self.madeAt pset' tx i = self.madeAt pset tx i := by
  rw [madeAt, madeAt, keysAt_congr hlib h]

omit [DecidableEq PK] in
theorem canSignAt_congr (hlib : IgnoresSigs PK Xpriv) {pset pset' : Pset PK}
    (h : pset'.unsigned = pset.unsigned) (tx : Transaction) (i : Nat) :
    self.CanSignAt pset' tx i ↔ self.CanSignAt pset tx i := by
  constructor
  · rintro ⟨hhash, hderives⟩
    rw [hlib.sighashMsg_congr h] at hhash
    rw [keysAt_congr hlib h] at hderives
    exact ⟨hhash, hderives⟩
  · rintro ⟨hhash, hderives⟩
    rw [← hlib.sighashMsg_congr h] at hhash
    rw [← keysAt_congr hlib h] at hderives
    exact ⟨hhash, hderives⟩

/-- An input signed. -/
def signedAt (self : SoftwareSigner Xpriv) (tx : Transaction) (i : Nat) (acc : Pset PK × Nat) :
    Pset PK × Nat :=
  ({ acc.1 with inputs := acc.1.inputs.modify i (·.insertSigs (self.sigsAt acc.1 tx i)) },
    acc.2 + (self.sigsAt acc.1 tx i).length)

theorem unsigned_signedAt (tx : Transaction) (i : Nat) (acc : Pset PK × Nat) :
    (self.signedAt tx i acc).1.unsigned = acc.1.unsigned := unsigned_modify ..

theorem getElem?_modify_insertSigs (inputs : List (PsetInput PK)) (i j : Nat)
    (sigs : List (PK × List UInt8)) : (inputs.modify i (·.insertSigs sigs))[j]? =
      if i = j then (inputs[j]?).map (·.insertSigs sigs) else inputs[j]? := by
  rw [List.getElem?_modify]
  split
  · rfl
  · exact id_map ..

theorem getElem?_signedAt (tx : Transaction) (i j : Nat) (acc : Pset PK × Nat) :
    (self.signedAt tx i acc).1.inputs[j]? =
      if i = j then (acc.1.inputs[j]?).map (·.insertSigs (self.sigsAt acc.1 tx i))
      else acc.1.inputs[j]? := getElem?_modify_insertSigs ..

/-- One round of the loop. -/
theorem signInputs_succ {tx : Transaction} {n : Nat} {acc : Pset PK × Nat}
    (h : self.CanSignAt acc.1 tx idx) : self.signInputs Id tx (n + 1) idx acc =
      self.signInputs Id tx n (idx + 1) (self.signedAt tx idx acc) := by
  obtain ⟨⟨msg, hmsg⟩, hderives⟩ := h
  rw [signInputs, hmsg]
  cases msg with
  | tapSighash message =>
      have hsigs : self.sigsAt acc.1 tx idx = [] := by
        rw [sigsAt, keysAt, hmsg]
        rfl
      have hid : acc.1.inputs.modify idx (·.insertSigs []) = acc.1.inputs := List.modify_id ..
      dsimp only
      rw [signedAt, hsigs, hid]
      rfl
  | ecdsaSighash message =>
      have hkeys : self.keysAt acc.1 tx idx =
          some (message, (acc.1.inputs[idx]?).elim [] self.mine) := by
        rw [keysAt, hmsg]
      have hsigs : self.sigsAt acc.1 tx idx =
          ((acc.1.inputs[idx]?).elim [] self.mine).filterMap (self.keySig message) := by
        rw [sigsAt, hkeys]
        rfl
      have hall := hderives message _ hkeys
      have hok : (self.signKeys Id message idx ((acc.1.inputs[idx]?).elim [] self.mine) acc).1 =
          .ok () := signKeys_ok_iff.mpr hall
      have hlength : (self.sigsAt acc.1 tx idx).length =
          ((acc.1.inputs[idx]?).elim [] self.mine).length := by
        rw [hsigs, ← List.length_map (f := Prod.fst), map_fst_keySig hall, List.length_map]
      have hres : (self.signKeys Id message idx ((acc.1.inputs[idx]?).elim [] self.mine) acc).2 =
          self.signedAt tx idx acc := by
        rw [signedAt, hlength, hsigs]
        exact signKeys_ok hall
      dsimp only
      split
      · next heq =>
          rw [heq] at hok
          cases hok
      · next heq =>
          rw [heq] at hres
          rw [← hres]

/-- The round at which the loop fails. -/
theorem signInputs_stops {tx : Transaction} {n : Nat} {acc : Pset PK × Nat}
    (h : ¬self.CanSignAt acc.1 tx idx) :
    (∃ e, (self.signInputs Id tx (n + 1) idx acc).1 = .error e) ∧
      (self.signInputs Id tx (n + 1) idx acc).2.1 = { acc.1 with
        inputs := acc.1.inputs.modify idx (·.insertSigs (self.madeAt acc.1 tx idx)) } := by
  unfold signInputs
  cases hmsg : SigningLib.sighashMsg Xpriv acc.1 idx tx self.genesis with
  | error e =>
      have hmade : self.madeAt acc.1 tx idx = [] := by
        rw [madeAt, keysAt, hmsg]
        rfl
      have hid : acc.1.inputs.modify idx (·.insertSigs []) = acc.1.inputs := List.modify_id ..
      rw [hmade, hid]
      exact ⟨⟨_, rfl⟩, rfl⟩
  | ok msg =>
      cases msg with
      | tapSighash message =>
          refine absurd ⟨⟨_, hmsg⟩, ?_⟩ h
          intro message keys hkeys
          rw [keysAt, hmsg] at hkeys
          cases hkeys
      | ecdsaSighash message =>
          have hkeys : self.keysAt acc.1 tx idx =
              some (message, (acc.1.inputs[idx]?).elim [] self.mine) := by
            rw [keysAt, hmsg]
          have hmade : (self.signKeys Id message idx ((acc.1.inputs[idx]?).elim [] self.mine)
              acc).2.1 = { acc.1 with
                inputs := acc.1.inputs.modify idx (·.insertSigs (self.madeAt acc.1 tx idx)) } := by
            rw [madeAt, hkeys]
            exact signKeys_inserts
          dsimp only
          split
          · next heq =>
              rw [heq] at hmade
              exact ⟨⟨_, rfl⟩, hmade⟩
          · next heq =>
              refine absurd ⟨⟨_, hmsg⟩, ?_⟩ h
              intro message' keys hkeys'
              obtain ⟨rfl, rfl⟩ := Prod.mk.injEq .. |>.mp
                (Option.some.inj (hkeys.symm.trans hkeys'))
              exact signKeys_ok_iff.mp (congrArg Prod.fst heq)

section Inputs

variable (hlib : IgnoresSigs PK Xpriv) {tx : Transaction}

include hlib

/-- The loop over the inputs succeeds when each can be signed. -/
theorem signInputs_ok_iff : ∀ {n idx : Nat} {acc : Pset PK × Nat},
    (self.signInputs Id tx n idx acc).1 = .ok () ↔
      ∀ i, idx ≤ i → i < idx + n → self.CanSignAt acc.1 tx i
  | 0, idx, acc => by
      refine iff_of_true rfl ?_
      intro i hle hlt
      omega
  | n + 1, idx, acc => by
      by_cases hone : self.CanSignAt acc.1 tx idx
      · rw [signInputs_succ hone, signInputs_ok_iff]
        constructor
        · intro hrest i hle hlt
          rcases Nat.eq_or_lt_of_le hle with rfl | hlater
          · exact hone
          · exact (canSignAt_congr hlib (unsigned_signedAt tx idx acc) tx i).mp
              (hrest i hlater (by omega))
        · intro hall i hle hlt
          exact (canSignAt_congr hlib (unsigned_signedAt tx idx acc) tx i).mpr
            (hall i (by omega) (by omega))
      · obtain ⟨e, herr⟩ : ∃ e, (self.signInputs Id tx (n + 1) idx acc).1 = .error e :=
          (signInputs_stops hone).1
        refine iff_of_false ?_ fun hall => hone (hall idx (Nat.le_refl idx)
          (Nat.lt_add_of_pos_right (Nat.succ_pos n)))
        rw [herr]
        intro hok
        cases hok

/-- It then has signed them all. -/
theorem signInputs_ok : ∀ {n idx : Nat} {acc : Pset PK × Nat},
    (∀ i, idx ≤ i → i < idx + n → self.CanSignAt acc.1 tx i) →
    (self.signInputs Id tx n idx acc).2.1.unsigned = acc.1.unsigned ∧
    (∀ i, (self.signInputs Id tx n idx acc).2.1.inputs[i]? =
      if idx ≤ i ∧ i < idx + n then
        (acc.1.inputs[i]?).map (·.insertSigs (self.sigsAt acc.1 tx i))
      else acc.1.inputs[i]?) ∧
    (self.signInputs Id tx n idx acc).2.2 =
      acc.2 + ∑ i ∈ Finset.range n, (self.sigsAt acc.1 tx (idx + i)).length
  | 0, idx, acc, _ => by
      refine ⟨rfl, ?_, rfl⟩
      intro i
      rw [if_neg (by omega)]
      rfl
  | n + 1, idx, acc, hall => by
      have hunsigned : (self.signedAt tx idx acc).1.unsigned = acc.1.unsigned :=
        unsigned_signedAt tx idx acc
      have hrest : ∀ i, idx + 1 ≤ i → i < idx + 1 + n →
          self.CanSignAt (self.signedAt tx idx acc).1 tx i := by
        intro i hle hlt
        exact (canSignAt_congr hlib hunsigned tx i).mpr (hall i (by omega) (by omega))
      obtain ⟨hsame, hinputs, hcount⟩ := signInputs_ok (n := n) hrest
      rw [signInputs_succ (hall idx (Nat.le_refl idx) (by omega))]
      refine ⟨hsame.trans hunsigned, ?_, ?_⟩
      · intro i
        rw [hinputs, sigsAt_congr hlib hunsigned, getElem?_signedAt]
        by_cases hi : idx = i
        · subst hi
          rw [if_neg (by omega), if_pos rfl, if_pos (by omega)]
        · rw [if_neg hi]
          by_cases hin : idx + 1 ≤ i ∧ i < idx + 1 + n
          · rw [if_pos hin, if_pos (by omega)]
          · rw [if_neg hin, if_neg (by omega)]
      · have hlengths : ∀ i, (self.sigsAt (self.signedAt tx idx acc).1 tx (idx + 1 + i)).length =
            (self.sigsAt acc.1 tx (idx + (i + 1))).length := by
          intro i
          rw [sigsAt_congr hlib hunsigned, Nat.add_right_comm, Nat.add_assoc]
        rw [hcount, Finset.sum_range_succ', Nat.add_left_comm, Nat.add_comm _ (acc.2 + _)]
        simp only [hlengths]
        rfl

/-- Whatever the loop returns, it has signed the inputs up to the first
that cannot be signed, and that one as far as its keys can be derived. -/
theorem signInputs_inserts : ∀ {n idx : Nat} {acc : Pset PK × Nat},
    (self.signInputs Id tx n idx acc).2.1.unsigned = acc.1.unsigned ∧
    ∀ i, ((idx ≤ i ∧ i < idx + n ∧ ∀ j, idx ≤ j → j < i → self.CanSignAt acc.1 tx j) →
        (self.signInputs Id tx n idx acc).2.1.inputs[i]? =
          (acc.1.inputs[i]?).map (·.insertSigs (self.madeAt acc.1 tx i))) ∧
      (¬(idx ≤ i ∧ i < idx + n ∧ ∀ j, idx ≤ j → j < i → self.CanSignAt acc.1 tx j) →
        (self.signInputs Id tx n idx acc).2.1.inputs[i]? = acc.1.inputs[i]?)
  | 0, idx, acc => by
      refine ⟨rfl, ?_⟩
      intro i
      exact ⟨by omega, fun _ => rfl⟩
  | n + 1, idx, acc => by
      by_cases hone : self.CanSignAt acc.1 tx idx
      · have hunsigned : (self.signedAt tx idx acc).1.unsigned = acc.1.unsigned :=
          unsigned_signedAt tx idx acc
        obtain ⟨hsame, hinputs⟩ : (self.signInputs Id tx n (idx + 1)
            (self.signedAt tx idx acc)).2.1.unsigned = (self.signedAt tx idx acc).1.unsigned ∧ _ :=
          signInputs_inserts
        rw [signInputs_succ hone]
        refine ⟨hsame.trans hunsigned, ?_⟩
        intro i
        obtain ⟨hreached, hnot⟩ := hinputs i
        simp only [canSignAt_congr hlib hunsigned, madeAt_congr hlib hunsigned,
          getElem?_signedAt] at hreached hnot
        rcases Nat.lt_trichotomy i idx with hlt | rfl | hgt
        · rw [if_neg (by omega)] at hnot
          exact ⟨by omega, fun _ => hnot (by omega)⟩
        · rw [if_pos rfl] at hnot
          rw [madeAt_eq hone]
          refine ⟨fun _ => hnot (by omega), fun h => absurd ?_ h⟩
          exact ⟨Nat.le_refl i, by omega, fun j hle hlt => by omega⟩
        · rw [if_neg (by omega)] at hreached hnot
          have hiff : (idx + 1 ≤ i ∧ i < idx + 1 + n ∧
                ∀ j, idx + 1 ≤ j → j < i → self.CanSignAt acc.1 tx j) ↔
              idx ≤ i ∧ i < idx + (n + 1) ∧ ∀ j, idx ≤ j → j < i → self.CanSignAt acc.1 tx j := by
            constructor
            · rintro ⟨-, hlt, hall⟩
              refine ⟨by omega, by omega, ?_⟩
              intro j hle hlt
              rcases Nat.eq_or_lt_of_le hle with rfl | hlater
              · exact hone
              · exact hall j hlater hlt
            · rintro ⟨-, hlt, hall⟩
              exact ⟨hgt, by omega, fun j hle => hall j (by omega)⟩
          rw [hiff] at hreached hnot
          exact ⟨hreached, hnot⟩
      · rw [(signInputs_stops hone).2]
        refine ⟨unsigned_modify .., ?_⟩
        intro i
        dsimp only
        rw [getElem?_modify_insertSigs]
        by_cases hi : idx = i
        · subst hi
          rw [if_pos rfl]
          exact ⟨fun _ => rfl, fun h => absurd ⟨Nat.le_refl idx, by omega,
            fun j hle hlt => by omega⟩ h⟩
        · rw [if_neg hi]
          refine ⟨?_, fun _ => rfl⟩
          rintro ⟨hle, -, hall⟩
          exact absurd (hall idx (Nat.le_refl idx) (by omega)) hone

end Inputs

/-! ### The call -/

/-- The transaction can be extracted, and every input be signed. -/
def CanSign (self : SoftwareSigner Xpriv) (pset : Pset PK) : Prop :=
  ∃ tx, ElementsLib.extractTx pset = .ok tx ∧ ∀ i < pset.inputs.length, self.CanSignAt pset tx i

/-- The signature under a key of an input. -/
def signature (self : SoftwareSigner Xpriv) (pset : Pset PK) : Nat × PK → Option (List UInt8) :=
  fun k =>
    match ElementsLib.extractTx pset with
    | .ok tx => (Map.collect (self.sigsAt pset tx k.1)).lookup k.2
    | .error _ => none

/-- The keys to sign an input with. -/
def listedKeys (self : SoftwareSigner Xpriv) (pset : Pset PK) (i : Nat) :
    List (PK × DerivationPath) :=
  match ElementsLib.extractTx pset with
  | .ok tx => (self.keysAt pset tx i).elim [] Prod.snd
  | .error _ => []

/-- The signatures on one input. -/
def signatureCount (self : SoftwareSigner Xpriv) (pset : Pset PK) (i : Nat) : Nat :=
  match ElementsLib.extractTx pset with
  | .ok tx => (self.sigsAt pset tx i).length
  | .error _ => 0

omit [DecidableEq PK] in
theorem nodup_sigsAt (pset : Pset PK) (tx : Transaction) (i : Nat) :
    ((self.sigsAt pset tx i).map Prod.fst).Nodup := by
  unfold sigsAt keysAt
  split
  · next message _ =>
      cases pset.inputs[i]? with
      | none => exact List.nodup_nil
      | some input =>
          have hsub : (((self.mine input).filterMap (self.keySig message)).map Prod.fst).Sublist
              ((self.mine input).map Prod.fst) := by
            rw [List.map_filterMap]
            induction self.mine input with
            | nil => exact .slnil
            | cons key keys ih =>
                cases hchild : SigningLib.derivePriv PK self.master key.2 with
                | error e =>
                    rw [List.filterMap_cons_none (by simp [keySig, hchild, Except.toOption])]
                    exact ih.cons key.1
                | ok child =>
                    rw [List.filterMap_cons_some (b := key.1)
                      (by simp [keySig, hchild, Except.toOption])]
                    exact ih.cons_cons key.1
          exact hsub.nodup (nodup_mine input)
  · exact List.nodup_nil

theorem lookup_sigsAt {pset : Pset PK} {tx : Transaction} {i : Nat} {pk : PK} {sig : List UInt8} :
    (Map.collect (self.sigsAt pset tx i)).lookup pk = some sig ↔
      (pk, sig) ∈ self.sigsAt pset tx i := by
  refine Map.lookup_collect ?_
  intro pk v v' hv hv'
  exact congrArg Prod.snd (List.inj_on_of_nodup_map (nodup_sigsAt pset tx i) hv hv' rfl)

theorem signature_eq_some {pset : Pset PK} {tx : Transaction}
    (htx : ElementsLib.extractTx pset = .ok tx) {i : Nat} {pk : PK} {sig : List UInt8} :
    self.signature pset (i, pk) = some sig ↔ (pk, sig) ∈ self.sigsAt pset tx i := by
  rw [signature, htx]
  exact lookup_sigsAt

/-- A signature is under a key that the input lists for the signer. -/
theorem origin_of_signature {pset : Pset PK} {i : Nat} {pk : PK} {sig : List UInt8}
    (h : self.signature pset (i, pk) = some sig) :
    ∃ input, pset.inputs[i]? = some input ∧ Origin self.fingerprint input.bip32Derivation pk := by
  cases htx : ElementsLib.extractTx pset with
  | error e =>
      rw [signature, htx] at h
      cases h
  | ok tx =>
      have hmem := (signature_eq_some htx).mp h
      unfold sigsAt keysAt at hmem
      split at hmem
      · obtain ⟨key, hkey, hsig⟩ := List.mem_filterMap.mp hmem
        obtain ⟨child, -, heq⟩ := Option.map_eq_some_iff.mp hsig
        obtain ⟨rfl, -⟩ := Prod.mk.injEq .. |>.mp heq
        cases hi : pset.inputs[i]? with
        | none =>
            rw [hi] at hkey
            cases hkey
        | some input =>
            rw [hi] at hkey
            exact ⟨input, rfl, mem_mine (show (key.1, key.2) ∈ self.mine input from hkey)⟩
      · cases hmem

/-- A key to sign with is signed with. -/
theorem isSome_signature_of_key {pset : Pset PK} {tx : Transaction}
    (htx : ElementsLib.extractTx pset = .ok tx) {i : Nat} (hcan : self.CanSignAt pset tx i)
    {message : BitVec 256} {keys : List (PK × DerivationPath)}
    (hkeys : self.keysAt pset tx i = some (message, keys)) {key : PK × DerivationPath}
    (hkey : key ∈ keys) : (self.signature pset (i, key.1)).isSome := by
  obtain ⟨-, hderives⟩ := hcan
  obtain ⟨child, hchild⟩ := hderives message keys hkeys key hkey
  have hsig : (key.1, SigningLib.signEcdsa PK message child ++ [ecdsaSighashAll]) ∈
      self.sigsAt pset tx i := by
    rw [sigsAt, hkeys]
    refine List.mem_filterMap.mpr ⟨key, hkey, ?_⟩
    rw [keySig, hchild]
    rfl
  rw [(signature_eq_some htx).mpr hsig]
  rfl

/-- A key that is listed is signed with, unless the input is a taproot
input. -/
theorem isSome_signature_of_origin {pset : Pset PK} (hcan : self.CanSign pset)
    (hecdsa : ∀ idx tx message, SigningLib.sighashMsg Xpriv pset idx tx self.genesis ≠
      .ok (.tapSighash message))
    {i : Nat} {input : PsetInput PK} (hi : pset.inputs[i]? = some input) {pk : PK}
    (horigin : Origin self.fingerprint input.bip32Derivation pk) :
    (self.signature pset (i, pk)).isSome := by
  obtain ⟨tx, htx, hall⟩ := hcan
  have hone := hall i (List.getElem?_eq_some_iff.mp hi).1
  obtain ⟨⟨msg, hmsg⟩, -⟩ := hall i (List.getElem?_eq_some_iff.mp hi).1
  cases msg with
  | tapSighash message => exact absurd hmsg (hecdsa i tx message)
  | ecdsaSighash message =>
      have hkeys : self.keysAt pset tx i = some (message, self.mine input) := by
        rw [keysAt, hmsg, hi]
        rfl
      obtain ⟨path, hpath⟩ := horigin
      have hmine : (pk, path) ∈ self.mine input :=
        List.mem_map.mpr ⟨⟨pk, self.fingerprint, path⟩,
          List.mem_filter.mpr ⟨Map.mem_entries_iff.mpr hpath, beq_self_eq_true _⟩, rfl⟩
      exact isSome_signature_of_key htx hone hkeys hmine

omit [DecidableEq PK] in
theorem nodup_madeAt (pset : Pset PK) (tx : Transaction) (i : Nat) :
    ((self.madeAt pset tx i).map Prod.fst).Nodup := by
  have hsub : (self.madeAt pset tx i).Sublist (self.sigsAt pset tx i) := by
    unfold madeAt sigsAt
    cases self.keysAt pset tx i with
    | none => exact .slnil
    | some k => exact (List.takeWhile_sublist _).filterMap _
  exact (hsub.map Prod.fst).nodup (nodup_sigsAt pset tx i)

/-- Every signature that a call makes, until it ends or fails, is in the
PSET before it. -/
def AddsNothing (self : SoftwareSigner Xpriv) (pset : Pset PK) : Prop :=
  ∀ tx, ElementsLib.extractTx pset = .ok tx →
    ∀ i < pset.inputs.length, (∀ j < i, self.CanSignAt pset tx j) →
      ∀ pk sig, (pk, sig) ∈ self.madeAt pset tx i → pset.board (i, pk) = some sig

theorem getSig_insertSigsAt (input : PsetInput PK) (pset : Pset PK) (tx : Transaction) (i : Nat)
    (pk : PK) : (input.insertSigs (self.sigsAt pset tx i)).getSig pk =
      ((Map.collect (self.sigsAt pset tx i)).lookup pk).or (input.getSig pk) := by
  refine Option.ext ?_
  intro sig
  rw [getSig_insertSigs (nodup_sigsAt pset tx i), Option.or_eq_some_iff, lookup_sigsAt,
    AList.lookup_eq_none, Map.mem_collect]
  refine or_congr_right (and_congr_left' (not_congr ?_))
  simp

section Call

variable (hlib : IgnoresSigs PK Xpriv) {pset pset' : Pset PK}

include hlib

omit [DecidableEq PK] in
theorem canSign_congr (h : pset'.unsigned = pset.unsigned) :
    self.CanSign pset' ↔ self.CanSign pset := by
  have htx : ElementsLib.extractTx pset' = ElementsLib.extractTx pset := by
    rw [← hlib.extractTx pset', h, hlib.extractTx]
  have hlen : pset'.inputs.length = pset.inputs.length := by
    rw [← length_unsigned pset', h, length_unsigned]
  unfold CanSign
  rw [htx, hlen]
  simp only [canSignAt_congr hlib h]

theorem signature_congr (h : pset'.unsigned = pset.unsigned) :
    self.signature pset' = self.signature pset := by
  have htx : ElementsLib.extractTx pset' = ElementsLib.extractTx pset := by
    rw [← hlib.extractTx pset', h, hlib.extractTx]
  funext k
  unfold signature
  rw [htx]
  simp only [sigsAt_congr hlib h]

/-- Whether a call succeeds depends on the unsigned PSET. -/
theorem signPset_ok_iff : (∃ n, (self.signPset Id pset).1 = .ok n) ↔ self.CanSign pset := by
  unfold signPset CanSign
  cases ElementsLib.extractTx pset with
  | error e => simp
  | ok tx =>
      have hall : (self.signInputs Id tx pset.inputs.length 0 (pset, 0)).1 = .ok () ↔
          ∀ i, 0 ≤ i → i < 0 + pset.inputs.length → self.CanSignAt pset tx i :=
        signInputs_ok_iff hlib
      simp only [Nat.zero_le, Nat.zero_add, forall_const] at hall
      simp only [Except.ok.injEq, exists_eq_left', ← hall]
      split
      · next heq => simp [heq]
      · next heq => simp [heq]

/-- Whatever it returns, a call leaves the PSET as it was exactly when
every signature it has made was there. -/
theorem signPset_same_iff : pset.Same (self.signPset Id pset).2 ↔ self.AddsNothing pset := by
  unfold AddsNothing
  cases htx : ElementsLib.extractTx pset with
  | error e =>
      refine iff_of_true ?_ fun tx htx' => by cases htx'
      unfold signPset
      rw [htx]
      exact .refl pset
  | ok tx =>
      obtain ⟨hunsigned, hinputs⟩ : (self.signInputs Id tx pset.inputs.length 0
          (pset, 0)).2.1.unsigned = pset.unsigned ∧ _ := signInputs_inserts hlib
      have hres : (self.signPset Id pset).2 =
          (self.signInputs Id tx pset.inputs.length 0 (pset, 0)).2.1 := by
        unfold signPset
        rw [htx]
        dsimp only
        rcases self.signInputs Id tx pset.inputs.length 0 (pset, 0) with ⟨res, signed⟩
        cases res with
        | error e => rfl
        | ok u => rfl
      rw [← hres] at hunsigned hinputs
      simp only [Nat.zero_le, true_and, Nat.zero_add, forall_const] at hinputs
      have hboard : ∀ {i : Nat} {input : PsetInput PK}, pset.inputs[i]? = some input → ∀ pk,
          pset.board (i, pk) = input.getSig pk := by
        intro i input hi pk
        rw [Pset.board, hi]
        rfl
      have hinserted : ∀ {i : Nat} {input : PsetInput PK}, pset.inputs[i]? = some input →
          (∀ j < i, self.CanSignAt pset tx j) → ∀ pk, (self.signPset Id pset).2.board (i, pk) =
            (input.insertSigs (self.madeAt pset tx i)).getSig pk := by
        intro i input hi hreached pk
        rw [Pset.board, (hinputs i).1 ⟨(List.getElem?_eq_some_iff.mp hi).1, hreached⟩, hi]
        rfl
      constructor
      · rintro ⟨-, hsame⟩ tx' htx' i hi hreached pk sig hsig
        obtain rfl := Except.ok.inj htx'
        have hget : pset.inputs[i]? = some pset.inputs[i] := List.getElem?_eq_getElem hi
        rw [hboard hget]
        refine (getSig_insertSigs_same (nodup_madeAt pset tx i)).mp ?_ pk sig hsig
        intro pk
        rw [← hinserted hget hreached, hsame, hboard hget]
      · intro hall
        refine ⟨hunsigned, ?_⟩
        funext k
        obtain ⟨i, pk⟩ := k
        by_cases hreached : i < pset.inputs.length ∧ ∀ j < i, self.CanSignAt pset tx j
        · have hget : pset.inputs[i]? = some pset.inputs[i] := List.getElem?_eq_getElem hreached.1
          rw [hinserted hget hreached.2, hboard hget]
          refine (getSig_insertSigs_same (nodup_madeAt pset tx i)).mpr ?_ pk
          intro pk sig hsig
          rw [← hboard hget]
          exact hall tx rfl i hreached.1 hreached.2 pk sig hsig
        · rw [Pset.board, Pset.board, (hinputs i).2 hreached]

/-- A call that succeeds writes its signatures, and counts them. -/
theorem signPset_ok {n : Nat} (h : self.signPset Id pset = (.ok n, pset')) :
    pset'.unsigned = pset.unsigned ∧
    (∀ k, pset'.board k = (self.signature pset k).or (pset.board k)) ∧
    n = ∑ i ∈ Finset.range pset.inputs.length, self.signatureCount pset i := by
  obtain ⟨tx, htx, hcan⟩ := (signPset_ok_iff hlib).mp ⟨n, congrArg Prod.fst h⟩
  have hall : ∀ i, 0 ≤ i → i < 0 + pset.inputs.length → self.CanSignAt pset tx i :=
    fun i _ hlt => hcan i (by rwa [Nat.zero_add] at hlt)
  obtain ⟨hsame, hinputs, hcount⟩ :
      (self.signInputs Id tx pset.inputs.length 0 (pset, 0)).2.1.unsigned = pset.unsigned ∧ _ ∧ _ :=
    signInputs_ok hlib hall
  have hres : self.signInputs Id tx pset.inputs.length 0 (pset, 0) = (.ok (), (pset', n)) := by
    unfold signPset at h
    rw [htx] at h
    dsimp only at h
    split at h
    · cases h
    · next heq =>
        obtain ⟨hn, rfl⟩ := Prod.mk.injEq .. |>.mp h
        rw [heq, Except.ok.inj hn]
  rw [hres] at hsame hinputs hcount
  refine ⟨hsame, ?_, ?_⟩
  · rintro ⟨i, pk⟩
    unfold Pset.board signature
    rw [htx]
    dsimp only at hinputs ⊢
    rw [hinputs, Nat.zero_add]
    cases hi : pset.inputs[i]? with
    | none =>
        have hnone : self.sigsAt pset tx i = [] := by
          unfold sigsAt keysAt
          rw [hi]
          split <;> rfl
        rw [hnone]
        split <;> rfl
    | some input =>
        have hlt : i < pset.inputs.length := (List.getElem?_eq_some_iff.mp hi).1
        rw [if_pos ⟨Nat.zero_le i, hlt⟩, Option.map_some, Option.bind_some, Option.bind_some]
        exact getSig_insertSigsAt input pset tx i pk
  · simp only [Nat.zero_add] at hcount
    refine hcount.trans (Finset.sum_congr rfl ?_)
    intro i _
    rw [signatureCount, htx]

omit hlib in
theorem isSome_signature_iff {tx : Transaction}
    (htx : ElementsLib.extractTx pset = .ok tx) {i : Nat}
    {pk : PK} : (self.signature pset (i, pk)).isSome ↔
      pk ∈ ((self.sigsAt pset tx i).map Prod.fst).toFinset := by
  rw [Option.isSome_iff_exists, List.mem_toFinset, List.mem_map]
  simp only [signature_eq_some htx]
  constructor
  · rintro ⟨sig, hsig⟩
    exact ⟨(pk, sig), hsig, rfl⟩
  · rintro ⟨⟨_, sig⟩, hsig, rfl⟩
    exact ⟨sig, hsig⟩

omit hlib in
theorem signatureCount_eq {tx : Transaction} (htx : ElementsLib.extractTx pset = .ok tx) (i : Nat) :
    self.signatureCount pset i = ((self.sigsAt pset tx i).map Prod.fst).toFinset.card := by
  rw [List.toFinset_card_of_nodup (nodup_sigsAt pset tx i), List.length_map, signatureCount, htx]

/-- The signer counts something when it has something to sign. -/
theorem signPset_pos {n : Nat} (h : self.signPset Id pset = (.ok n, pset')) :
    0 < n ↔ ∃ k, (self.signature pset k).isSome := by
  obtain ⟨tx, htx, -⟩ := (signPset_ok_iff hlib).mp ⟨n, congrArg Prod.fst h⟩
  rw [(signPset_ok hlib h).2.2, Finset.sum_pos_iff]
  constructor
  · rintro ⟨i, -, hpos⟩
    rw [signatureCount_eq htx] at hpos
    obtain ⟨pk, hpk⟩ := Finset.card_pos.mp hpos
    exact ⟨(i, pk), (isSome_signature_iff htx).mpr hpk⟩
  · rintro ⟨⟨i, pk⟩, hsome⟩
    obtain ⟨sig, hsig⟩ := Option.isSome_iff_exists.mp hsome
    obtain ⟨input, hi, -⟩ := origin_of_signature hsig
    refine ⟨i, Finset.mem_range.mpr (List.getElem?_eq_some_iff.mp hi).1, ?_⟩
    rw [signatureCount_eq htx]
    exact Finset.card_pos.mpr ⟨pk, (isSome_signature_iff htx).mp hsome⟩

omit hlib in
/-- The keys to sign with are all signed with, one signature each. -/
theorem listedKeys_signed (hcan : self.CanSign pset) :
    (∀ i < pset.inputs.length,
      self.signatureCount pset i = (self.listedKeys pset i).length) ∧
    ∀ (i : Nat), ∀ key ∈ self.listedKeys pset i, (self.signature pset (i, key.1)).isSome := by
  obtain ⟨tx, htx, hall⟩ := hcan
  have hlisted : ∀ i, self.listedKeys pset i = (self.keysAt pset tx i).elim [] Prod.snd := by
    intro i
    rw [listedKeys, htx]
  constructor
  · intro i hi
    rw [hlisted, signatureCount, htx]
    exact length_sigsAt (hall i hi)
  · intro i key hkey
    rw [hlisted] at hkey
    cases hkeys : self.keysAt pset tx i with
    | none =>
        rw [hkeys] at hkey
        cases hkey
    | some k =>
        rw [hkeys] at hkey
        have hi : i < pset.inputs.length := by
          by_contra hge
          have hnone : pset.inputs[i]? = none := List.getElem?_eq_none (Nat.not_lt.mp hge)
          rw [keysAt, hnone] at hkeys
          split at hkeys
          · obtain rfl := Option.some.inj hkeys
            cases hkey
          · cases hkeys
        exact isSome_signature_of_key htx (hall i hi) hkeys hkey

open scoped Classical in
/-- The number returned counts signatures, one for every key to sign
with, and is the number of inputs signed exactly when no input has two
keys that the signer signs with. -/
theorem signed_inputs_iff {n : Nat} (h : self.signPset Id pset = (.ok n, pset')) :
    n = ∑ i ∈ Finset.range pset.inputs.length, (self.listedKeys pset i).length ∧
    (∀ (i : Nat), ∀ key ∈ self.listedKeys pset i, (self.signature pset (i, key.1)).isSome) ∧
    (n = ((Finset.range pset.inputs.length).filter fun i =>
        ∃ pk, (self.signature pset (i, pk)).isSome).card ↔
      ∀ (i : Nat) pk pk', (self.signature pset (i, pk)).isSome →
        (self.signature pset (i, pk')).isSome → pk = pk') := by
  have hcan := (signPset_ok_iff hlib).mp ⟨n, congrArg Prod.fst h⟩
  obtain ⟨hcounts, hsigned⟩ := listedKeys_signed hcan
  refine ⟨?_, hsigned, ?_⟩
  · refine (signPset_ok hlib h).2.2.trans (Finset.sum_congr rfl ?_)
    exact fun i hi => hcounts i (Finset.mem_range.mp hi)
  obtain ⟨tx, htx, -⟩ := hcan
  have hone : ∀ i, (if ∃ pk, (self.signature pset (i, pk)).isSome then 1 else 0) =
      min 1 (self.signatureCount pset i) := by
    intro i
    simp only [isSome_signature_iff htx, signatureCount_eq htx]
    split
    · next hsome => exact (Nat.min_eq_left (Finset.card_pos.mpr hsome)).symm
    · next hnone =>
        rw [Finset.not_nonempty_iff_eq_empty.mp hnone, Finset.card_empty]
        rfl
  rw [(signPset_ok hlib h).2.2, Finset.card_filter, eq_comm]
  simp only [hone]
  rw [Finset.sum_eq_sum_iff_of_le fun i _ => Nat.min_le_right 1 _]
  simp only [isSome_signature_iff htx, signatureCount_eq htx, min_eq_right_iff]
  constructor
  · intro hle i pk pk' hpk hpk'
    have hi : i ∈ Finset.range pset.inputs.length := by
      obtain ⟨sig, hsig⟩ := Option.isSome_iff_exists.mp ((isSome_signature_iff htx).mpr hpk)
      obtain ⟨input, hi, -⟩ := origin_of_signature hsig
      exact Finset.mem_range.mpr (List.getElem?_eq_some_iff.mp hi).1
    exact Finset.card_le_one.mp (hle i hi) pk hpk pk' hpk'
  · exact fun hall i _ => Finset.card_le_one.mpr fun pk hpk pk' hpk' => hall i pk pk' hpk hpk'

end Call

end SoftwareSigner

end

/-! A software signer whose fingerprint an input lists twice. -/

omit [DecidableEq PK] in
theorem sampleSighashMsg_unsigned (pset : Pset PK) (idx : Nat) :
    sampleSighashMsg pset.unsigned idx = sampleSighashMsg pset idx := by
  have hutxos : (pset.inputs.map PsetInput.unsigned).mapM (·.witnessUtxo) =
      pset.inputs.mapM (·.witnessUtxo) := by
    rw [List.mapM_map]
    rfl
  rw [sampleSighashMsg, sampleSighashMsg, getElem?_unsigned, length_unsigned]
  cases pset.inputs[idx]? with
  | none => rfl
  | some input =>
      rw [Pset.unsigned, hutxos]
      rfl

theorem ignoresSigs_compressedKey : IgnoresSigs CompressedKey UInt8 where
  extractTx pset := by
    change (pset.outputs.mapM PsetOutput.extractTxOut).bind (fun output => .ok (Transaction.mk ⟨0⟩
      ((pset.inputs.map PsetInput.unsigned).map fun i => ⟨i.previousOutput⟩) output)) = _
    rw [List.map_map]
    rfl
  sighashMsg pset idx _ _ := sampleSighashMsg_unsigned pset idx

def twiceListed : Pset CompressedKey where
  inputs := [{ ownedInput with
    bip32Derivation := Map.collect [(keyOne, (⟨1⟩, ⟨[]⟩)), (keyTwo, (⟨1⟩, ⟨[]⟩))]
    witnessUtxo := some spentOutput }]
  outputs := [blindedOutput]

open scoped Classical in
/-- The signer counts two, and has signed one input. -/
theorem signed_inputs_iff_twiceListed :
    (firstSigner.signPset Nat twiceListed).1 = .ok 2 ∧
    2 ≠ ((Finset.range 1).filter fun i =>
      ∃ pk, (firstSigner.signature twiceListed (i, pk)).isSome).card := by
  refine ⟨rfl, ?_⟩
  intro hcount
  have hsign : firstSigner.signPset Nat twiceListed = (.ok 2, _) := rfl
  have hone := (SoftwareSigner.signed_inputs_iff ignoresSigs_compressedKey hsign).2.2.mp hcount
    0 keyOne keyTwo rfl rfl
  exact absurd hone (by decide)

end EmvaultElements
