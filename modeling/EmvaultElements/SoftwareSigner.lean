import EmvaultElements.Threshold

/-!
# The software signer

`SoftwareSigner::sign_pset` goes through the inputs and signs each that
lists a key under its fingerprint, in place. It may fail at any input,
on the signature hash or on a derivation, and then leaves the signatures
it has inserted so far.

Whatever it returns, it has inserted signatures under its own keys only,
and where it has counted none the PSET is as it was
(`signPset_spec`).
-/

namespace EmvaultElements

/-- A signature hash, by the kind of signature it is for. -/
inductive PsbtSighashMsg where
  | ecdsaSighash (message : BitVec 256)
  | tapSighash (message : BitVec 256)
deriving Repr, DecidableEq

/-- What the signer calls in the `elements` and `bitcoin` crates:
`Pset::sighash_msg`, `Xpriv::derive_priv` and `sign_ecdsa`, of which it
takes the DER encoding. -/
class SigningLib (PK Xpriv : Type) extends ElementsLib PK where
  sighashMsg : Pset PK → Nat → Transaction → BlockHash → Except String PsbtSighashMsg
  derivePriv : Xpriv → DerivationPath → Except String Xpriv
  signEcdsa : BitVec 256 → Xpriv → List UInt8

structure SoftwareSigner (Xpriv : Type) where
  master : Xpriv
  fingerprint : Fingerprint
  genesis : BlockHash

/-- `EcdsaSighashType::All`, as it ends a signature. -/
def ecdsaSighashAll : UInt8 := 1

variable {PK Xpriv Id : Type} [DecidableEq PK]

namespace SoftwareSigner

/-- The keys an input lists under the signer's fingerprint. -/
def mine (self : SoftwareSigner Xpriv) (input : PsetInput PK) : List (PK × DerivationPath) :=
  (input.bip32Derivation.entries.filter fun e => e.2.1 == self.fingerprint).map
    fun e => (e.1, e.2.2)

variable [SigningLib PK Xpriv]

/-- Sign an input with the keys listed, and count the signatures. -/
def signKeys (self : SoftwareSigner Xpriv) (Id : Type) (message : BitVec 256) (idx : Nat) :
    List (PK × DerivationPath) → Pset PK × Nat → Except (PsetError Id) Unit × (Pset PK × Nat)
  | [], acc => (.ok (), acc)
  | (pk, fullPath) :: mine, (pset, signed) =>
      match SigningLib.derivePriv PK self.master fullPath with
      | .error e => (.error (.signerBackend e), (pset, signed))
      | .ok child =>
          let ser := SigningLib.signEcdsa PK message child ++ [ecdsaSighashAll]
          signKeys self Id message idx mine
            ({ pset with inputs := pset.inputs.modify idx (·.insertSigs [(pk, ser)]) }, signed + 1)

/-- The next `n` inputs, from `idx` on. -/
def signInputs (self : SoftwareSigner Xpriv) (Id : Type) (tx : Transaction) :
    Nat → Nat → Pset PK × Nat → Except (PsetError Id) Unit × (Pset PK × Nat)
  | 0, _, acc => (.ok (), acc)
  | n + 1, idx, acc =>
      match SigningLib.sighashMsg Xpriv acc.1 idx tx self.genesis with
      | .error e => (.error (.elements e), acc)
      | .ok (.tapSighash _) => signInputs self Id tx n (idx + 1) acc
      | .ok (.ecdsaSighash message) =>
          match self.signKeys Id message idx ((acc.1.inputs[idx]?).elim [] self.mine) acc with
          | (.error e, acc) => (.error e, acc)
          | (.ok (), acc) => signInputs self Id tx n (idx + 1) acc

def signPset (self : SoftwareSigner Xpriv) (Id : Type) : ElementsSigner PK Id := fun pset =>
  match ElementsLib.extractTx pset with
  | .error e => (.error (.elements e), pset)
  | .ok tx =>
      match self.signInputs Id tx pset.inputs.length 0 (pset, 0) with
      | (.error e, (pset, _)) => (.error e, pset)
      | (.ok (), (pset, signed)) => (.ok signed, pset)

end SoftwareSigner

/-! ## What it inserts -/

/-- Signatures under the fingerprint's keys have been inserted and
counted, or nothing has happened. -/
structure Signs (fp : Fingerprint) (acc acc' : Pset PK × Nat) : Prop where
  inserts : acc.1.Extends (Origin fp) acc'.1
  counted : acc' = acc ∨ acc.2 < acc'.2 ∧ acc'.1.HasSig (Origin fp)

theorem Signs.refl (fp : Fingerprint) (acc : Pset PK × Nat) : Signs fp acc acc :=
  ⟨.refl acc.1, .inl rfl⟩

theorem Signs.trans {fp : Fingerprint} {acc acc' acc'' : Pset PK × Nat} (h : Signs fp acc acc')
    (h' : Signs fp acc' acc'') : Signs fp acc acc'' := by
  refine ⟨h.inserts.trans h'.inserts, ?_⟩
  rcases h'.counted with rfl | ⟨hlt, hsig⟩
  · exact h.counted
  · refine .inr ⟨?_, hsig⟩
    rcases h.counted with rfl | ⟨hlt', -⟩
    · exact hlt
    · exact Nat.lt_trans hlt' hlt

theorem mem_mine {self : SoftwareSigner Xpriv} {input : PsetInput PK} {pk : PK}
    {path : DerivationPath} (h : (pk, path) ∈ self.mine input) :
    Origin self.fingerprint input.bip32Derivation pk := by
  obtain ⟨⟨pk', fp, path'⟩, hmem, heq⟩ := List.mem_map.mp h
  obtain ⟨hentry, hfp⟩ := List.mem_filter.mp hmem
  obtain ⟨rfl, rfl⟩ := Prod.mk.injEq .. |>.mp heq
  obtain rfl := eq_of_beq hfp
  exact ⟨_, Map.mem_entries_iff.mp hentry⟩

/-- One signature. -/
theorem signs_insert {fp : Fingerprint} {pset : Pset PK} {signed idx : Nat} {input : PsetInput PK}
    (hi : pset.inputs[idx]? = some input) {pk : PK} (hpk : Origin fp input.bip32Derivation pk)
    (ser : List UInt8) :
    Signs fp (pset, signed)
      ({ pset with inputs := pset.inputs.modify idx (·.insertSigs [(pk, ser)]) }, signed + 1) := by
  have hset : pset.inputs.modify idx (·.insertSigs [(pk, ser)]) =
      pset.inputs.set idx (input.insertSigs [(pk, ser)]) := by
    rw [List.modify_eq_set_getElem?, hi]
    rfl
  have hsigs : ∀ e ∈ [(pk, ser)], Origin fp input.bip32Derivation e.1 := by
    intro e he
    obtain rfl := List.mem_singleton.mp he
    exact hpk
  rw [hset]
  refine ⟨.set hi ⟨_, hsigs, rfl⟩, .inr ⟨Nat.lt_succ_self signed, ?_⟩⟩
  refine ⟨_, List.mem_set (List.getElem?_eq_some_iff.mp hi).1 _, pk, ?_, hpk⟩
  exact mem_insertSigs.mpr (.inr (List.mem_singleton.mpr rfl))

namespace SoftwareSigner

variable [SigningLib PK Xpriv] {self : SoftwareSigner Xpriv}

theorem signKeys_spec {message : BitVec 256} {idx : Nat} : ∀ {keys : List (PK × DerivationPath)}
    {acc : Pset PK × Nat}, (∀ key ∈ keys, ∃ input, acc.1.inputs[idx]? = some input ∧
      Origin self.fingerprint input.bip32Derivation key.1) →
    Signs self.fingerprint acc (self.signKeys Id message idx keys acc).2
  | [], acc, _ => .refl _ acc
  | (pk, path) :: keys, (pset, signed), hkeys => by
      unfold signKeys
      split
      · exact .refl _ _
      · obtain ⟨input, hi, hpk⟩ := hkeys _ (List.mem_cons_self ..)
        have hmodify : ∀ sigs, (pset.inputs.modify idx (·.insertSigs sigs))[idx]? =
            some (input.insertSigs sigs) := by
          intro sigs
          rw [List.getElem?_modify_eq, hi, Option.map_eq_map, Option.map_some]
        refine (signs_insert hi hpk _).trans (signKeys_spec ?_)
        intro key hkey
        obtain ⟨input', hi', hpk'⟩ := hkeys key (List.mem_cons_of_mem _ hkey)
        obtain rfl := Option.some.inj (hi.symm.trans hi')
        exact ⟨_, hmodify _, hpk'⟩

theorem signInputs_spec {tx : Transaction} : ∀ {n idx : Nat} {acc : Pset PK × Nat},
    Signs self.fingerprint acc (self.signInputs Id tx n idx acc).2
  | 0, _, acc => .refl _ acc
  | n + 1, idx, acc => by
      unfold signInputs
      split
      · exact .refl _ acc
      · exact signInputs_spec
      · next message _ =>
          have hkeys : Signs self.fingerprint acc (self.signKeys Id message idx
              ((acc.1.inputs[idx]?).elim [] self.mine) acc).2 := by
            refine signKeys_spec ?_
            intro key hkey
            cases hi : acc.1.inputs[idx]? with
            | none =>
                rw [hi] at hkey
                cases hkey
            | some input =>
                rw [hi] at hkey
                exact ⟨input, rfl, mem_mine hkey⟩
          split
          · next heq => rwa [heq] at hkeys
          · next heq =>
              rw [heq] at hkeys
              exact hkeys.trans signInputs_spec

/-- Whatever it returns, the signer has inserted signatures under its
own keys, and `Ok(0)` is returned for a PSET that is as it was. -/
theorem signPset_spec (pset : Pset PK) :
    pset.Extends (Origin self.fingerprint) (self.signPset Id pset).2 ∧
    ∀ n, (self.signPset Id pset).1 = .ok n →
      (n = 0 → (self.signPset Id pset).2 = pset) ∧
      (0 < n → (self.signPset Id pset).2.HasSig (Origin self.fingerprint)) := by
  unfold signPset
  cases htx : ElementsLib.extractTx pset with
  | error e =>
      refine ⟨.refl pset, ?_⟩
      intro n hn
      cases hn
  | ok tx =>
      have hspec : Signs self.fingerprint (pset, 0)
        (self.signInputs Id tx pset.inputs.length 0 (pset, 0)).2 := signInputs_spec
      dsimp only
      split
      · next heq =>
          rw [heq] at hspec
          refine ⟨hspec.inserts, ?_⟩
          intro n hn
          cases hn
      · next pset' signed heq =>
          rw [heq] at hspec
          refine ⟨hspec.inserts, ?_⟩
          intro n hn
          obtain rfl := Except.ok.inj hn
          rcases hspec.counted with hsame | ⟨hpos, hsig⟩
          · obtain ⟨rfl, rfl⟩ := Prod.mk.injEq .. |>.mp hsame
            exact ⟨fun _ => rfl, fun hpos => absurd hpos (Nat.lt_irrefl 0)⟩
          · exact ⟨fun hzero => absurd hpos (hzero ▸ Nat.lt_irrefl 0), fun _ => hsig⟩

end SoftwareSigner

/-! A software signer that computes. Before there is a hash, `sighash_msg`
asks for the output that every input spends, and for the witness script
of an input that spends a P2WSH output; the hash itself is left out. -/

def Script.isV0P2wsh (script : Script) : Bool :=
  script.bytes.length == 34 && script.bytes.take 2 == [0x00, 0x20]

def Script.isV1P2tr (script : Script) : Bool :=
  script.bytes.length == 34 && script.bytes.take 2 == [0x51, 0x20]

def sampleSighashMsg (pset : Pset PK) (idx : Nat) : Except String PsbtSighashMsg :=
  match pset.inputs[idx]? with
  | none => .error ("index " ++ toString idx ++ ", psbt input len: " ++ toString pset.inputs.length)
  | some input =>
      match pset.inputs.mapM (·.witnessUtxo), input.witnessUtxo with
      | some _, some utxo =>
          if utxo.scriptPubkey.isV1P2tr then .ok (.tapSighash 0)
          else if utxo.scriptPubkey.isV0P2wsh && input.witnessScript.isNone then
            .error "Missing Witness Script"
          else .ok (.ecdsaSighash 0)
      | _, _ => .error "Missing Psbt spend utxos"

instance : SigningLib CompressedKey UInt8 where
  sighashMsg pset idx _ _ := sampleSighashMsg pset idx
  derivePriv master _ := .ok master
  signEcdsa _ priv := [priv]

def firstSigner : SoftwareSigner UInt8 where
  master := 7
  fingerprint := ⟨1⟩
  genesis := ⟨0⟩

/-- An output to the hash of a witness script. -/
def spentOutput : TxOut where
  asset := .explicit ⟨1⟩
  value := .explicit 5
  nonce := .null
  scriptPubkey := ⟨0x00 :: 0x20 :: List.replicate 32 7⟩
  witness := ⟨none, none⟩

end EmvaultElements
