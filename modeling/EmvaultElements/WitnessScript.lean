import EmvaultElements.Pset

/-!
# Multisig witness scripts

What the finalizer reads off a witness script: the threshold from its
first byte, and the public keys from its pushes. On the script of an
m-of-n multisig these are `m` and the `n` keys
(`multisigThreshold_multisigScript`, `extractPubkeys_sortedmultiScript`),
but for a threshold above 16, which is not an opcode
(`multisigThreshold_eq_none`).
Of the decoder this needs what its documentation promises
(`DecodesScripts`). `CompressedKey` is a decoder that does this, to
compute with.
-/

namespace EmvaultElements

variable {PK : Type}

/-! ## Reading a witness script -/

/-- The required-signature count of a multisig script. `OP_1` to `OP_16`
are `0x51` to `0x60`. -/
def multisigThreshold (script : Script) : Option Nat :=
  match script.bytes.head? with
  | some b => if 0x51 ≤ b ∧ b ≤ 0x60 then some (b - 0x50).toNat else none
  | none => none

/-- The key an instruction pushes, if it pushes one. -/
def pushedKey [ElementsLib PK] : Except String Instruction → Option PK
  | .ok (.pushBytes data) =>
    if data.length = 33 then (ElementsLib.fromSlice data).toOption else none
  | _ => none

/-- The compressed public keys of a multisig script, in script order. -/
def extractPubkeysFromWitnessScript [ElementsLib PK] (script : Script) : List PK :=
  (ElementsLib.instructions PK script).filterMap pushedKey

/-! ## Multisig scripts -/

/-- Push each key, as 33 bytes. -/
def pushKeys (encode : PK → List UInt8) (keys : List PK) : List UInt8 :=
  keys.flatMap fun key => 33 :: encode key

/-- `OP_m <pk1> … <pkn> OP_n OP_CHECKMULTISIG`. -/
def multisigScript (encode : PK → List UInt8) (m : Nat) (keys : List PK) : Script :=
  ⟨UInt8.ofNat (0x50 + m) :: (pushKeys encode keys ++ [UInt8.ofNat (0x50 + keys.length), 0xae])⟩

/-- Push a number from 1 on: `OP_1` to `OP_16`, and above that a byte. -/
def pushInt (n : Nat) : List UInt8 :=
  if n ≤ 16 then [UInt8.ofNat (0x50 + n)] else [1, UInt8.ofNat n]

/-- The script of an m-of-n multisig, where `m` and `n` may be above 16. -/
def sortedmultiScript (encode : PK → List UInt8) (m : Nat) (keys : List PK) : Script :=
  ⟨pushInt m ++ (pushKeys encode keys ++ (pushInt keys.length ++ [0xae]))⟩

/-- Numbers up to 16 are one opcode each. -/
theorem sortedmultiScript_eq (encode : PK → List UInt8) {m : Nat} {keys : List PK} (hm16 : m ≤ 16)
    (hn16 : keys.length ≤ 16) : sortedmultiScript encode m keys = multisigScript encode m keys := by
  rw [sortedmultiScript, pushInt, pushInt, if_pos hm16, if_pos hn16]
  rfl

/-- The documented behaviour of the decoders: opcodes and pushes of up
to 75 bytes are read one after the other, and the compressed encoding
of a key is read back. -/
structure DecodesScripts [ElementsLib PK] (encode : PK → List UInt8) : Prop where
  nil : ElementsLib.instructions PK ⟨[]⟩ = []
  op : ∀ (opcode : UInt8) rest, 0x4e < opcode →
    ElementsLib.instructions PK ⟨opcode :: rest⟩ =
      .ok (.op opcode) :: ElementsLib.instructions PK ⟨rest⟩
  push : ∀ (data rest : List UInt8), 0 < data.length → data.length ≤ 75 →
    ElementsLib.instructions PK ⟨UInt8.ofNat data.length :: (data ++ rest)⟩ =
      .ok (.pushBytes data) :: ElementsLib.instructions PK ⟨rest⟩
  key : ∀ key : PK, (encode key).length = 33 → ElementsLib.fromSlice (encode key) = .ok key

section

variable [ElementsLib PK] {encode : PK → List UInt8} (hdecode : DecodesScripts encode)
  {keys : List PK} (hkeys : ∀ key ∈ keys, (encode key).length = 33)

include hdecode hkeys

theorem filterMap_pushKeys (rest : List UInt8) :
    (ElementsLib.instructions PK ⟨pushKeys encode keys ++ rest⟩).filterMap pushedKey =
      keys ++ (ElementsLib.instructions PK ⟨rest⟩).filterMap pushedKey := by
  induction keys with
  | nil => rfl
  | cons key keys ih =>
      have hlen := hkeys key (List.mem_cons_self ..)
      have hpush := hdecode.push (encode key) (pushKeys encode keys ++ rest) (by omega) (by omega)
      rw [hlen] at hpush
      have hbytes : pushKeys encode (key :: keys) ++ rest =
          UInt8.ofNat 33 :: (encode key ++ (pushKeys encode keys ++ rest)) := by
        simp [pushKeys]
      have hpushed : pushedKey (.ok (.pushBytes (encode key))) = some key := by
        rw [pushedKey, if_pos hlen, hdecode.key key hlen]
        rfl
      rw [hbytes, hpush, List.filterMap_cons_some hpushed,
        ih fun k hk => hkeys k (List.mem_cons_of_mem key hk)]
      rfl

omit hkeys in
/-- The push of a number is no push of a key. -/
theorem filterMap_pushInt {n : Nat} (hn : 1 ≤ n) (hn20 : n ≤ 20) (rest : List UInt8) :
    ((ElementsLib.instructions PK ⟨pushInt n ++ rest⟩).filterMap pushedKey : List PK) =
      (ElementsLib.instructions PK ⟨rest⟩).filterMap pushedKey := by
  unfold pushInt
  split
  · next h16 =>
      have hopcode : (0x4e : UInt8) < UInt8.ofNat (0x50 + n) := by
        rw [UInt8.lt_iff_toNat_lt, UInt8.toNat_ofNat_of_lt' (show 0x50 + n < 256 by omega)]
        exact Nat.lt_of_lt_of_le (by decide) (Nat.add_le_add_left hn 0x50)
      rw [List.singleton_append, hdecode.op _ _ hopcode, List.filterMap_cons_none rfl]
  · show (ElementsLib.instructions PK ⟨UInt8.ofNat [UInt8.ofNat n].length ::
      ([UInt8.ofNat n] ++ rest)⟩).filterMap pushedKey = _
    have hlen : [UInt8.ofNat n].length = 1 := rfl
    rw [hdecode.push _ _ (by omega) (by omega)]
    exact List.filterMap_cons_none rfl

/-- The keys of a multisig script are read back. -/
theorem extractPubkeys_sortedmultiScript {m : Nat} (hm : 1 ≤ m) (hm20 : m ≤ 20)
    (hn : 1 ≤ keys.length) (hn20 : keys.length ≤ 20) :
    extractPubkeysFromWitnessScript (sortedmultiScript encode m keys) = keys := by
  rw [extractPubkeysFromWitnessScript, sortedmultiScript, filterMap_pushInt hdecode hm hm20,
    filterMap_pushKeys hdecode hkeys, filterMap_pushInt hdecode hn hn20,
    hdecode.op _ _ (by decide), List.filterMap_cons_none rfl, hdecode.nil, List.filterMap_nil,
    List.append_nil]

theorem extractPubkeys_multisigScript {m : Nat} (hm : 1 ≤ m) (hm16 : m ≤ 16)
    (hn : 1 ≤ keys.length) (hn16 : keys.length ≤ 16) :
    extractPubkeysFromWitnessScript (multisigScript encode m keys) = keys := by
  rw [← sortedmultiScript_eq encode hm16 hn16]
  exact extractPubkeys_sortedmultiScript hdecode hkeys hm (Nat.le_trans hm16 (by decide)) hn
    (Nat.le_trans hn16 (by decide))

end

/-- So is its threshold, when it is one opcode. -/
theorem multisigThreshold_multisigScript (encode : PK → List UInt8) {m : Nat} (hm : 1 ≤ m)
    (hm16 : m ≤ 16) (keys : List PK) :
    multisigThreshold (multisigScript encode m keys) = some m := by
  have htoNat : (UInt8.ofNat (0x50 + m)).toNat = 0x50 + m :=
    UInt8.toNat_ofNat_of_lt' (show 0x50 + m < 256 by omega)
  have hrange : 0x51 ≤ UInt8.ofNat (0x50 + m) ∧ UInt8.ofNat (0x50 + m) ≤ 0x60 := by
    rw [UInt8.le_iff_toNat_le, UInt8.le_iff_toNat_le, htoNat]
    simp
    omega
  rw [multisigThreshold, multisigScript]
  dsimp only [List.head?_cons]
  rw [if_pos hrange, UInt8.toNat_sub_of_le _ _
    (by rw [UInt8.le_iff_toNat_le, htoNat]; simp), htoNat]
  simp

theorem multisigThreshold_sortedmultiScript (encode : PK → List UInt8) {m : Nat} (hm : 1 ≤ m)
    (hm16 : m ≤ 16) (keys : List PK) :
    multisigThreshold (sortedmultiScript encode m keys) = some m := by
  rw [← multisigThreshold_multisigScript encode hm hm16 keys, multisigThreshold,
    sortedmultiScript, pushInt, if_pos hm16]
  rfl

/-- A threshold above 16 is not read. -/
theorem multisigThreshold_eq_none (encode : PK → List UInt8) {m : Nat} (hm : ¬m ≤ 16)
    (keys : List PK) : multisigThreshold (sortedmultiScript encode m keys) = none := by
  rw [multisigThreshold, sortedmultiScript, pushInt, if_neg hm]
  rfl

/-! ## A decoder to compute with -/

/-- Read a script: opcodes up to `0x4b` push that many bytes, the next
three push as many as a length of 1, 2 or 4 bytes says, the rest push
nothing. Any fuel from the length of the script on does. -/
def decodeScript : Nat → List UInt8 → List (Except String Instruction)
  | 0, _ => []
  | _ + 1, [] => []
  | fuel + 1, opcode :: rest =>
      if 0x4e < opcode then .ok (.op opcode) :: decodeScript fuel rest
      else
        let width := if opcode < 0x4c then 0 else 1 <<< (opcode.toNat - 0x4c)
        let len := if opcode < 0x4c then opcode.toNat
          else (rest.take width).foldr (fun b n => b.toNat + 256 * n) 0
        if rest.length < width + len then [.error "unexpected end of script"]
        else .ok (.pushBytes ((rest.drop width).take len)) ::
          decodeScript fuel (rest.drop (width + len))

theorem decodeScript_fuel : ∀ {fuel fuel' : Nat} {bytes : List UInt8}, bytes.length ≤ fuel →
    bytes.length ≤ fuel' → decodeScript fuel bytes = decodeScript fuel' bytes
  | 0, 0, [], _, _ => rfl
  | 0, _ + 1, [], _, _ => rfl
  | _ + 1, 0, [], _, _ => rfl
  | _ + 1, _ + 1, [], _, _ => rfl
  | fuel + 1, fuel' + 1, opcode :: rest, h, h' => by
      have hrest : ∀ n, decodeScript fuel (rest.drop n) = decodeScript fuel' (rest.drop n) := by
        intro n
        have hle : (rest.drop n).length ≤ rest.length := (List.drop_sublist n rest).length_le
        exact decodeScript_fuel (Nat.le_trans hle (Nat.le_of_succ_le_succ h))
          (Nat.le_trans hle (Nat.le_of_succ_le_succ h'))
      have hzero := hrest 0
      rw [List.drop_zero] at hzero
      simp only [decodeScript, hrest, hzero]

/-- A public key in its compressed encoding. -/
structure CompressedKey where
  bytes : List UInt8
  length : bytes.length = 33
  tag : bytes.head? = some 2 ∨ bytes.head? = some 3
deriving DecidableEq

/-- The output the fields of a PSET output describe. -/
def PsetOutput.extractTxOut (output : PsetOutput) : Except String TxOut := do
  let asset ← match output.assetComm, output.asset with
    | some comm, _ => pure (Confidential.Asset.confidential comm)
    | none, some asset => pure (.explicit asset)
    | none, none => throw "missing output asset"
  let value ← match output.amountComm, output.amount with
    | some comm, _ => pure (Confidential.Value.confidential comm)
    | none, some amount => pure (.explicit amount)
    | none, none => throw "missing output value"
  pure {
    asset, value, nonce := .null, scriptPubkey := output.scriptPubkey
    witness := ⟨output.assetSurjectionProof, output.valueRangeproof⟩ }

instance : ElementsLib CompressedKey where
  instructions script := decodeScript script.bytes.length script.bytes
  fromSlice data :=
    if h : data.length = 33 ∧ (data.head? = some 2 ∨ data.head? = some 3) then .ok ⟨data, h.1, h.2⟩
    else .error "invalid public key"
  extractTx pset := do
    let output ← pset.outputs.mapM PsetOutput.extractTxOut
    pure { txid := ⟨0⟩, input := pset.inputs.map fun i => ⟨i.previousOutput⟩, output }

theorem decodesScripts_compressedKey : DecodesScripts CompressedKey.bytes where
  nil := rfl
  op opcode rest h := by
    change decodeScript (rest.length + 1) (opcode :: rest) = _
    rw [decodeScript, if_pos h]
    rfl
  push data rest hpos hlen := by
    have htoNat : (UInt8.ofNat data.length).toNat = data.length :=
      UInt8.toNat_ofNat_of_lt' (show data.length < 256 by omega)
    have hdirect : UInt8.ofNat data.length < 0x4c := by
      rw [UInt8.lt_iff_toNat_lt, htoNat]
      exact Nat.lt_succ_of_le hlen
    have hnot : ¬0x4e < UInt8.ofNat data.length := by
      rw [UInt8.lt_iff_toNat_lt, htoNat, Nat.not_lt]
      exact Nat.le_trans hlen (by decide)
    have hfuel : decodeScript (data ++ rest).length rest = decodeScript rest.length rest :=
      decodeScript_fuel (by rw [List.length_append]; omega) (Nat.le_refl _)
    change decodeScript ((data ++ rest).length + 1) (_ :: (data ++ rest)) = _
    rw [decodeScript, if_neg hnot]
    simp only [if_pos hdirect, htoNat, Nat.zero_add, List.drop_zero]
    rw [if_neg (by rw [List.length_append]; omega), List.take_left, List.drop_left, hfuel]
    rfl
  key key hlen := by
    change (if h : _ then _ else _) = _
    rw [dif_pos ⟨key.length, key.tag⟩]

/-! The first multiples of the generator of secp256k1. -/

def keyOne : CompressedKey where
  bytes := [
    0x02, 0x79, 0xbe, 0x66, 0x7e, 0xf9, 0xdc, 0xbb, 0xac, 0x55, 0xa0,
    0x62, 0x95, 0xce, 0x87, 0x0b, 0x07, 0x02, 0x9b, 0xfc, 0xdb, 0x2d,
    0xce, 0x28, 0xd9, 0x59, 0xf2, 0x81, 0x5b, 0x16, 0xf8, 0x17, 0x98]
  length := rfl
  tag := .inl rfl

def keyTwo : CompressedKey where
  bytes := [
    0x02, 0xc6, 0x04, 0x7f, 0x94, 0x41, 0xed, 0x7d, 0x6d, 0x30, 0x45,
    0x40, 0x6e, 0x95, 0xc0, 0x7c, 0xd8, 0x5c, 0x77, 0x8e, 0x4b, 0x8c,
    0xef, 0x3c, 0xa7, 0xab, 0xac, 0x09, 0xb9, 0x5c, 0x70, 0x9e, 0xe5]
  length := rfl
  tag := .inl rfl

def keyThree : CompressedKey where
  bytes := [
    0x02, 0xf9, 0x30, 0x8a, 0x01, 0x92, 0x58, 0xc3, 0x10, 0x49, 0x34,
    0x4f, 0x85, 0xf8, 0x9d, 0x52, 0x29, 0xb5, 0x31, 0xc8, 0x45, 0x83,
    0x6f, 0x99, 0xb0, 0x86, 0x01, 0xf1, 0x13, 0xbc, 0xe0, 0x36, 0xf9]
  length := rfl
  tag := .inl rfl

def keyFour : CompressedKey where
  bytes := [
    0x02, 0xe4, 0x93, 0xdb, 0xf1, 0xc1, 0x0d, 0x80, 0xf3, 0x58, 0x1e,
    0x49, 0x04, 0x93, 0x0b, 0x14, 0x04, 0xcc, 0x6c, 0x13, 0x90, 0x0e,
    0xe0, 0x75, 0x84, 0x74, 0xfa, 0x94, 0xab, 0xe8, 0xc4, 0xcd, 0x13]
  length := rfl
  tag := .inl rfl

end EmvaultElements
