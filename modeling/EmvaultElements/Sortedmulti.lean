import EmvaultElements.Finalize

/-!
# Multisig scripts with up to twenty keys

`OP_CHECKMULTISIG` takes up to twenty keys, and a number above 16 is
pushed as a byte. The keys of such a script are read back, whatever the
numbers are; its threshold is read back up to 16
(`parses_multisig_iff`). With a larger threshold the finalizer leaves
every signature in the witness, so it keeps too many as soon as more
have signed than are needed (`cutsAtThreshold_iff`).
-/

namespace EmvaultElements

variable {PK : Type} [DecidableEq PK] [ElementsLib PK]

/-- An m-of-n multisig as `OP_CHECKMULTISIG` admits it. -/
structure AdmittedMultisig (encode : PK → List UInt8) (m : Nat) (keys : List PK) : Prop where
  one_le : 1 ≤ m
  le_length : m ≤ keys.length
  length_le : keys.length ≤ 20
  compressed : ∀ key ∈ keys, (encode key).length = 33

/-- On inputs with the script, the finalizer keeps the first `m`
signatures in the order of the keys. -/
def CutsAtThreshold (Id : Type) (encode : PK → List UInt8) (m : Nat) (keys : List PK) : Prop :=
  ∀ (pset : Pset PK) (i : Nat) (input : PsetInput PK),
    (finalizeP2wshPset Id pset).1 = .ok () → pset.inputs[i]? = some input →
    input.witnessScript = some (sortedmultiScript encode m keys) →
    ∃ out, (finalizeP2wshPset Id pset).2.inputs[i]? = some out ∧
      out.finalScriptWitness = some ([] :: ((keys.filterMap input.getSig).take m ++
        [(sortedmultiScript encode m keys).bytes]))

/-- Parsing the script gives back what it was encoded from, and the
finalizer truncates accordingly. -/
structure ParsesMultisig (Id : Type) (encode : PK → List UInt8) (m : Nat) (keys : List PK) :
    Prop where
  pubkeys : extractPubkeysFromWitnessScript (sortedmultiScript encode m keys) = keys
  threshold : multisigThreshold (sortedmultiScript encode m keys) = some m
  truncates : CutsAtThreshold Id encode m keys

section

variable {Id : Type} {encode : PK → List UInt8} {m : Nat} {keys : List PK}

omit [DecidableEq PK] in
theorem AdmittedMultisig.extractPubkeys (h : AdmittedMultisig encode m keys)
    (hdecode : DecodesScripts encode) :
    extractPubkeysFromWitnessScript (sortedmultiScript encode m keys) = keys :=
  extractPubkeys_sortedmultiScript hdecode h.compressed h.one_le
    (Nat.le_trans h.le_length h.length_le) (Nat.le_trans h.one_le h.le_length) h.length_le

/-- The witness of a finalized input: the signatures of the keys, cut at
the threshold if that is read. -/
theorem AdmittedMultisig.finalWitness (h : AdmittedMultisig encode m keys)
    (hdecode : DecodesScripts encode) {input out : PsetInput PK}
    (hscript : input.witnessScript = some (sortedmultiScript encode m keys))
    (hout : Finalized input out) : out.finalScriptWitness = some ([] ::
      ((if m ≤ 16 then (keys.filterMap input.getSig).take m else keys.filterMap input.getSig) ++
        [(sortedmultiScript encode m keys).bytes])) := by
  have hsigs : orderedSigs input (sortedmultiScript encode m keys) =
      if m ≤ 16 then (keys.filterMap input.getSig).take m else keys.filterMap input.getSig := by
    unfold orderedSigs
    rw [h.extractPubkeys hdecode]
    by_cases hm : m ≤ 16
    · rw [multisigThreshold_sortedmultiScript encode h.one_le hm, if_pos hm]
      dsimp only
      split
      · rfl
      · next hlt => rw [List.take_of_length_le (Nat.not_lt.mp hlt)]
    · rw [multisigThreshold_eq_none encode hm, if_neg hm]
  obtain ⟨witnessScript, hsome, rfl⟩ := hout
  obtain rfl := Option.some.inj (hsome.symm.trans hscript)
  rw [finalizeInput, hsigs]

/-- An input with the script, signed by all its keys. -/
def signedByAll (script : Script) (keys : List PK) : PsetInput PK where
  previousOutput := ⟨⟨0⟩, 0⟩
  witnessUtxo := none
  partialSigs := Map.collect (keys.map fun key => (key, [1]))
  sighashType := none
  redeemScript := none
  witnessScript := some script
  bip32Derivation := ∅
  finalScriptWitness := none

omit [ElementsLib PK] in
theorem length_signedByAll (script : Script) (keys : List PK) :
    (keys.filterMap (signedByAll script keys).getSig).length = keys.length := by
  have hsigned : signedKeys (signedByAll script keys) keys = keys := by
    refine List.filter_eq_self.mpr ?_
    intro key hkey
    exact decide_eq_true (Map.mem_collect.mpr ⟨[1], List.mem_map_of_mem hkey⟩)
  rw [length_filterMap_lookup, hsigned]

/-- The finalizer truncates up to a threshold of 16, and has nothing to
truncate when all the keys are needed. -/
theorem cutsAtThreshold_iff (h : AdmittedMultisig encode m keys) (hdecode : DecodesScripts encode) :
    CutsAtThreshold Id encode m keys ↔ m ≤ 16 ∨ m = keys.length := by
  constructor
  · intro htruncates
    by_contra hno
    rw [not_or] at hno
    obtain ⟨hm, hne⟩ := hno
    have hlt := Nat.lt_of_le_of_ne h.le_length hne
    let input := signedByAll (sortedmultiScript encode m keys) keys
    have hok : (finalizeP2wshPset Id ⟨[input], []⟩).1 = .ok () := by
      refine finalizeP2wshPset_ok_iff.mpr ?_
      intro input' hmem
      obtain rfl := List.mem_singleton.mp hmem
      exact ⟨_, rfl⟩
    have hfirst : (Pset.mk [input] []).inputs[0]? = some input := rfl
    obtain ⟨out, hout, hwitness⟩ := htruncates ⟨[input], []⟩ 0 input hok hfirst rfl
    obtain ⟨out', hout', hfinalized⟩ := finalizeP2wshPset_eq_ok hok hfirst
    obtain rfl := Option.some.inj (hout'.symm.trans hout)
    rw [h.finalWitness hdecode rfl hfinalized, if_neg hm] at hwitness
    have hsigs := (List.append_left_inj _).mp (List.cons.inj (Option.some.inj hwitness)).2
    have hlength := congrArg List.length hsigs
    rw [List.length_take, length_signedByAll] at hlength
    omega
  · intro hcond pset i input hok hi hscript
    obtain ⟨out, hout, hfinalized⟩ := finalizeP2wshPset_eq_ok hok hi
    refine ⟨out, hout, ?_⟩
    rw [h.finalWitness hdecode hscript hfinalized]
    split
    · rfl
    · next hm =>
        have hall : m = keys.length := hcond.resolve_left hm
        have hle : (keys.filterMap input.getSig).length ≤ m := hall ▸ List.length_filterMap_le _ _
        rw [List.take_of_length_le hle]

/-- Multisig scripts are parsed back for the thresholds that are one
opcode. -/
theorem parses_multisig_iff (h : AdmittedMultisig encode m keys) (hdecode : DecodesScripts encode) :
    ParsesMultisig Id encode m keys ↔ m ≤ 16 := by
  constructor
  · intro hparses
    by_contra hm
    have hthreshold := hparses.threshold
    rw [multisigThreshold_eq_none encode hm] at hthreshold
    cases hthreshold
  · intro hm
    exact ⟨h.extractPubkeys hdecode, multisigThreshold_sortedmultiScript encode h.one_le hm keys,
      (cutsAtThreshold_iff h hdecode).mpr (.inl hm)⟩

end

theorem parses_multisig_iff_twoOfThree :
    ParsesMultisig String CompressedKey.bytes 2 [keyThree, keyOne, keyTwo] := by
  have hadmitted : AdmittedMultisig CompressedKey.bytes 2 [keyThree, keyOne, keyTwo] :=
    ⟨by decide, by decide, by decide, fun key _ => key.length⟩
  exact (parses_multisig_iff hadmitted decodesScripts_compressedKey).mpr (by decide)

/-! Eighteen keys, and a threshold of seventeen. -/

/-- A point with a small first coordinate. -/
def smallKey (odd : Bool) (x : UInt8) : CompressedKey where
  bytes := (if odd then 3 else 2) :: (List.replicate 31 0 ++ [x])
  length := by cases odd <;> rfl
  tag := by cases odd <;> simp

def eighteenKeys : List CompressedKey :=
  [1, 2, 3, 4, 6, 8, 12, 13, 14].flatMap fun x => [smallKey false x, smallKey true x]

theorem seventeen_is_not_parsed : ¬∀ (m : Nat) (keys : List CompressedKey),
    AdmittedMultisig CompressedKey.bytes m keys →
      ParsesMultisig String CompressedKey.bytes m keys := by
  intro hgeneral
  have hadmitted : AdmittedMultisig CompressedKey.bytes 17 eighteenKeys :=
    ⟨by decide, by decide, by decide, fun key _ => key.length⟩
  have htruncates := (hgeneral 17 eighteenKeys hadmitted).truncates
  rcases (cutsAtThreshold_iff hadmitted decodesScripts_compressedKey).mp htruncates with hle | heq
  · exact absurd hle (by decide)
  · exact absurd heq (by decide)

end EmvaultElements
