import EmvaultElements.Descriptor
import EmvaultElements.FederatedWallet
import EmvaultElements.Memo

/-!
# Unblinding inputs

An output is opened in two places. A wollet opens it with the SLIP-77
key inside its descriptor (`ElementsWollet.unblind`); the spend path
opens the inputs of a PSET with the key the wollet stores beside its
descriptor (`deriveInputSecrets`). The constructors take both keys and
do not compare them, and the two places agree exactly when they are the
same (`one_key_iff`).
-/

namespace EmvaultElements

/-! ## Keys -/

/-- SLIP-77 master keys: how one is parsed, and the private key it gives
a script. -/
class Slip77 (MBK : Type) (SK : outParam Type) where
  fromStr : List Char → Except String MBK
  blindingPrivateKey : MBK → Script → SK

/-- Opening a confidential output with a private key. -/
class UnblindKey (SK : Type) where
  unblind : TxOut → SK → Except String TxOutSecrets

/-- The 32 bytes of a blinding key. -/
def keyBytes (b : BitVec 256) : List UInt8 :=
  (List.range 32).map fun i => ⟨b.extractLsb' (8 * (31 - i)) 8⟩

/-- Lowercase-hex encode 32 bytes. -/
def hex32 (b : BitVec 256) : List Char := hexEncode (keyBytes b)

/-! ## The wollet with its keys -/

/-- An `ElementsWollet`, with what its constructors put beside the
descriptor. -/
structure KeyedWollet (D Inner MBK Network : Type) extends ElementsWollet D where
  inner : Inner
  masterBlindingKey : MBK
  lwkNetwork : Network

/-- What the constructors call in LWK. -/
structure WolletLib (D Inner Network : Type) where
  toLwk : ElementsNetwork → Network
  fromStr : List Char → Except String D
  build : Network → D → Except String Inner

namespace KeyedWollet

variable {C D Inner MBK SK Network : Type} [Slip77 MBK SK]

/-- Build from the text of a multipath descriptor and a blinding key. -/
def fromDescriptorStr (lwk : WolletLib D Inner Network) (descriptorStr : List Char)
    (blindingKey : BitVec 256) (network : ElementsNetwork) (lwkNetwork : Network) :
    Except WolletError (KeyedWollet D Inner MBK Network) :=
  match lwk.fromStr descriptorStr with
  | .error e => .error (.descriptor e)
  | .ok descriptor =>
    match lwk.build lwkNetwork descriptor with
    | .error e => .error (.build e)
    | .ok inner =>
      match Slip77.fromStr (hex32 blindingKey) with
      | .error e => .error (.descriptor ("invalid blinding key: " ++ e))
      | .ok masterBlindingKey =>
          .ok { descriptor, network, inner, masterBlindingKey, lwkNetwork }

/-- Build from a handle, for a custom network. -/
def fromHandleWithLwk (lwk : WolletLib D Inner Network) (display : C → List Char)
    (handle : ElementsWalletHandle C) (network : ElementsNetwork) (lwkNetwork : Network) :
    Except WolletError (KeyedWollet D Inner MBK Network) :=
  fromDescriptorStr lwk (toMultipathString display handle.ctDescriptor) handle.blindingKey network
    lwkNetwork

/-- Build from a handle. -/
def fromHandle (lwk : WolletLib D Inner Network) (display : C → List Char)
    (handle : ElementsWalletHandle C) (network : ElementsNetwork) :
    Except WolletError (KeyedWollet D Inner MBK Network) :=
  fromHandleWithLwk lwk display handle network (lwk.toLwk network)

/-- The wollets that the constructors return, with the text and the key
they were given. -/
inductive Constructed (lwk : WolletLib D Inner Network) (display : C → List Char) :
    List Char → BitVec 256 → KeyedWollet D Inner MBK Network → Prop
  | fromDescriptorStr {descriptorStr : List Char} {blindingKey : BitVec 256}
      {network : ElementsNetwork} {lwkNetwork : Network} {w : KeyedWollet D Inner MBK Network}
      (h : fromDescriptorStr lwk descriptorStr blindingKey network lwkNetwork = .ok w) :
      Constructed lwk display descriptorStr blindingKey w
  | fromHandleWithLwk {handle : ElementsWalletHandle C} {network : ElementsNetwork}
      {lwkNetwork : Network} {w : KeyedWollet D Inner MBK Network}
      (h : fromHandleWithLwk lwk display handle network lwkNetwork = .ok w) :
      Constructed lwk display (toMultipathString display handle.ctDescriptor) handle.blindingKey w
  | fromHandle {handle : ElementsWalletHandle C} {network : ElementsNetwork}
      {w : KeyedWollet D Inner MBK Network} (h : fromHandle lwk display handle network = .ok w) :
      Constructed lwk display (toMultipathString display handle.ctDescriptor) handle.blindingKey w

/-- The descriptor is parsed from the text, the stored key from the bytes. -/
theorem fromDescriptorStr_eq_ok {lwk : WolletLib D Inner Network} {descriptorStr : List Char}
    {blindingKey : BitVec 256} {network : ElementsNetwork} {lwkNetwork : Network}
    {w : KeyedWollet D Inner MBK Network}
    (h : fromDescriptorStr lwk descriptorStr blindingKey network lwkNetwork = .ok w) :
    lwk.fromStr descriptorStr = .ok w.descriptor ∧
      Slip77.fromStr (hex32 blindingKey) = .ok w.masterBlindingKey := by
  unfold fromDescriptorStr at h
  cases hdescriptor : lwk.fromStr descriptorStr with
  | error e =>
      rw [hdescriptor] at h
      cases h
  | ok descriptor =>
      simp only [hdescriptor] at h
      cases hbuild : lwk.build lwkNetwork descriptor with
      | error e =>
          rw [hbuild] at h
          cases h
      | ok inner =>
          simp only [hbuild] at h
          cases hkey : (Slip77.fromStr (hex32 blindingKey) : Except String MBK) with
          | error e =>
              rw [hkey] at h
              cases h
          | ok masterBlindingKey =>
              rw [hkey] at h
              cases h
              exact ⟨rfl, rfl⟩

theorem Constructed.parsed {lwk : WolletLib D Inner Network} {display : C → List Char}
    {descriptorStr : List Char} {blindingKey : BitVec 256} {w : KeyedWollet D Inner MBK Network}
    (h : Constructed lwk display descriptorStr blindingKey w) :
    lwk.fromStr descriptorStr = .ok w.descriptor ∧
      Slip77.fromStr (hex32 blindingKey) = .ok w.masterBlindingKey := by
  cases h with
  | fromDescriptorStr h => exact fromDescriptorStr_eq_ok h
  | fromHandleWithLwk h => exact fromDescriptorStr_eq_ok h
  | fromHandle h => exact fromDescriptorStr_eq_ok h

end KeyedWollet

/-! ## The spend path -/

section

variable {PK MBK SK : Type} [Slip77 MBK SK] [UnblindKey SK]

/-- Secrets of an explicit output, with zero blinding factors. -/
def explicitTxoutSecrets (asset : AssetId) (value : Nat) : TxOutSecrets where
  asset := asset
  assetBf := 0
  value := value
  valueBf := 0

/-- Unblind a confidential output with a derived key. -/
def unblindInput (Id : Type) (witnessUtxo : TxOut) (blindingKey : SK) :
    Except (PsetError Id) TxOutSecrets :=
  (UnblindKey.unblind witnessUtxo blindingKey).mapError fun e =>
    .blindingFailed ("unblind failed: " ++ e)

/-- The private key for a script. -/
def slip77BlindingKey (masterBlindingKey : MBK) (scriptPubkey : Script) : SK :=
  Slip77.blindingPrivateKey masterBlindingKey scriptPubkey

/-- The secrets of one input. -/
def inputSecrets (Id : Type) (masterBlindingKey : MBK) (i : Nat) (input : PsetInput PK) :
    Except (PsetError Id) TxOutSecrets :=
  match input.witnessUtxo with
  | none => .error (.elements ("input " ++ toString i ++ " missing witness_utxo"))
  | some utxo =>
      match utxo.value, utxo.asset with
      | .explicit value, .explicit asset => .ok (explicitTxoutSecrets asset value)
      | _, _ => unblindInput Id utxo (slip77BlindingKey masterBlindingKey utxo.scriptPubkey)

/-- The secrets of every input, under its index. -/
def deriveInputSecrets (Id : Type) (pset : Pset PK) (masterBlindingKey : MBK) :
    Except (PsetError Id) (Map Nat TxOutSecrets) :=
  pset.inputs.zipIdx.foldlM (fun secrets inp =>
    (inputSecrets Id masterBlindingKey inp.2 inp.1).map fun s => secrets.insert inp.2 s) ∅

variable {Id : Type} {pset : Pset PK} {masterBlindingKey : MBK}

theorem deriveInputSecrets_eq : deriveInputSecrets Id pset masterBlindingKey =
    (pset.inputs.zipIdx.mapM fun inp =>
      (inputSecrets Id masterBlindingKey inp.2 inp.1).map fun s => (inp.2, s)).map Map.collect := by
  have hstep : (fun (secrets : Map Nat TxOutSecrets) (inp : PsetInput PK × Nat) =>
      (inputSecrets Id masterBlindingKey inp.2 inp.1).map fun s => secrets.insert inp.2 s) =
      fun secrets inp => ((inputSecrets Id masterBlindingKey inp.2 inp.1).map fun s =>
        (inp.2, s)).map fun kv => secrets.insert kv.1 kv.2 := by
    funext secrets inp
    cases inputSecrets Id masterBlindingKey inp.2 inp.1 <;> rfl
  rw [deriveInputSecrets, hstep]
  exact foldlM_push _ _

/-- The secrets can be derived when those of every input can. -/
theorem exists_deriveInputSecrets :
    (∃ secrets, deriveInputSecrets Id pset masterBlindingKey = .ok secrets) ↔
      ∀ i input, pset.inputs[i]? = some input →
        ∃ s, inputSecrets Id masterBlindingKey i input = .ok s := by
  rw [deriveInputSecrets_eq, exists_map_eq_ok, exists_mapM_eq_ok]
  simp only [exists_map_eq_ok]
  constructor
  · exact fun hall i input hi => hall (input, i) (List.mem_zipIdx_iff_getElem?.mpr hi)
  · exact fun hall inp hinp => hall inp.2 inp.1 (List.mem_zipIdx_iff_getElem?.mp hinp)

/-- Each index has the secrets of its input. -/
theorem lookup_deriveInputSecrets {secrets : Map Nat TxOutSecrets}
    (hok : deriveInputSecrets Id pset masterBlindingKey = .ok secrets) {i : Nat}
    {s : TxOutSecrets} :
    secrets.lookup i = some s ↔
      ∃ input, pset.inputs[i]? = some input ∧
        inputSecrets Id masterBlindingKey i input = .ok s := by
  rw [deriveInputSecrets_eq] at hok
  obtain ⟨ys, hys, rfl⟩ := map_eq_ok.mp hok
  obtain ⟨-, rfl⟩ := mapM_eq_ok.mp hys
  have hmem : ∀ i s, (i, s) ∈ pset.inputs.zipIdx.filterMap (fun inp =>
      ((inputSecrets Id masterBlindingKey inp.2 inp.1).map fun s => (inp.2, s)).toOption) ↔
        ∃ input, pset.inputs[i]? = some input ∧
          inputSecrets Id masterBlindingKey i input = .ok s := by
    intro i s
    rw [mem_filterMap_toOption]
    constructor
    · rintro ⟨⟨input, i'⟩, hinp, hs⟩
      obtain ⟨s', hs', heq⟩ := map_eq_ok.mp hs
      cases heq
      exact ⟨input, List.mem_zipIdx_iff_getElem?.mp hinp, hs'⟩
    · rintro ⟨input, hi, hs⟩
      exact ⟨(input, i), List.mem_zipIdx_iff_getElem?.mpr hi, map_eq_ok.mpr ⟨s, hs, rfl⟩⟩
  rw [Map.lookup_collect, hmem]
  intro k v v' hv hv'
  obtain ⟨input, hinput, hs⟩ := (hmem k v).mp hv
  obtain ⟨input', hinput', hs'⟩ := (hmem k v').mp hv'
  obtain rfl := Option.some.inj (hinput.symm.trans hinput')
  cases hs.symm.trans hs'
  rfl

end

/-! ## One key -/

/-- The asset and the value are explicit. -/
def FullyExplicit (txout : TxOut) : Prop :=
  ∃ asset value, txout.asset = .explicit asset ∧ txout.value = .explicit value

/-- The asset, the value and the nonce are confidential. -/
def FullyConfidential (txout : TxOut) : Prop :=
  ∃ generator commitment pubkey, txout.asset = .confidential generator ∧
    txout.value = .confidential commitment ∧ txout.nonce = .confidential pubkey

/-- Every input says what it spends, and that is explicit or confidential
throughout. -/
def Pset.ExplicitOrConfidential {PK : Type} (pset : Pset PK) : Prop :=
  ∀ input ∈ pset.inputs, ∃ utxo, input.witnessUtxo = some utxo ∧
    (FullyExplicit utxo ∨ FullyConfidential utxo)

section

variable {C D Inner MBK SK Network PK : Type} [LwkDescriptor D] [Slip77 MBK SK] [UnblindKey SK]

/-- LWK opens an output to a descriptor with the key inside the
descriptor; an explicit one it answers with zero blinding factors. -/
structure OpensWith (embedded : D → MBK) : Prop where
  explicit : ∀ (d : D) (txout : TxOut) (asset : AssetId) (value : Nat),
    txout.asset = .explicit asset → txout.value = .explicit value →
      LwkDescriptor.tryUnblind txout d = .ok { asset, assetBf := 0, value, valueBf := 0 }
  confidential : ∀ (d : D) (txout : TxOut) (secrets : TxOutSecrets), FullyConfidential txout →
    (LwkDescriptor.tryUnblind txout d = .ok secrets ↔
      UnblindKey.unblind txout (Slip77.blindingPrivateKey (embedded d) txout.scriptPubkey) =
        .ok secrets)

/-- Of two master keys, each opens an output that the other does not. -/
def KeysApart (MBK : Type) {SK : Type} [Slip77 MBK SK] [UnblindKey SK] : Prop :=
  ∀ key key' : MBK, key ≠ key' → ∃ (txout : TxOut) (secrets : TxOutSecrets),
    FullyConfidential txout ∧
    UnblindKey.unblind txout (Slip77.blindingPrivateKey key txout.scriptPubkey) = .ok secrets ∧
    ∀ secrets', UnblindKey.unblind txout (Slip77.blindingPrivateKey key' txout.scriptPubkey) ≠
      .ok secrets'

/-- For one PSET, the spend path derives what the wollet unblinds. -/
structure PathsAgree (Id : Type) (w : KeyedWollet D Inner MBK Network) (pset : Pset PK) : Prop where
  ok_iff : (∃ secrets, deriveInputSecrets Id pset w.masterBlindingKey = .ok secrets) ↔
    ∀ input ∈ pset.inputs, ∀ utxo, input.witnessUtxo = some utxo → ∃ s, w.unblind utxo = .ok s
  secrets : ∀ secrets, deriveInputSecrets Id pset w.masterBlindingKey = .ok secrets →
    ∀ i s, secrets.lookup i = some s ↔ ∃ input utxo, pset.inputs[i]? = some input ∧
      input.witnessUtxo = some utxo ∧ w.unblind utxo = .ok s

/-- The two paths agree on all PSETs. -/
def OneKey (Id PK : Type) (w : KeyedWollet D Inner MBK Network) : Prop :=
  ∀ pset : Pset PK, pset.ExplicitOrConfidential → PathsAgree Id w pset

/-- The text has the key of the bytes inside. -/
def KeyInside (lwk : WolletLib D Inner Network) (embedded : D → MBK) (descriptorStr : List Char)
    (blindingKey : BitVec 256) : Prop :=
  ∃ d, lwk.fromStr descriptorStr = .ok d ∧ Slip77.fromStr (hex32 blindingKey) = .ok (embedded d)

variable {Id : Type} {embedded : D → MBK} {w : KeyedWollet D Inner MBK Network}

/-- With the descriptor's own key, an input has the secrets that the
wollet unblinds. -/
theorem inputSecrets_eq_ok_iff (hopens : OpensWith embedded)
    (hkey : w.masterBlindingKey = embedded w.descriptor) {i : Nat} {input : PsetInput PK}
    {utxo : TxOut} (hutxo : input.witnessUtxo = some utxo)
    (hkind : FullyExplicit utxo ∨ FullyConfidential utxo) {s : TxOutSecrets} :
    inputSecrets Id w.masterBlindingKey i input = .ok s ↔ w.unblind utxo = .ok s := by
  unfold inputSecrets ElementsWollet.unblind
  rw [hutxo, hkey]
  rcases hkind with ⟨asset, value, hasset, hvalue⟩ | hconfidential
  · rw [hopens.explicit w.descriptor utxo asset value hasset hvalue]
    simp only [hasset, hvalue]
    rw [mapError_eq_ok, explicitTxoutSecrets, Except.ok.injEq, Except.ok.injEq]
  · obtain ⟨generator, commitment, pubkey, hasset, hvalue, hnonce⟩ := hconfidential
    simp only [hasset, hvalue]
    rw [unblindInput, mapError_eq_ok, mapError_eq_ok]
    exact (hopens.confidential w.descriptor utxo s ⟨generator, commitment, pubkey, hasset, hvalue,
      hnonce⟩).symm

theorem paths_agree (hopens : OpensWith embedded)
    (hkey : w.masterBlindingKey = embedded w.descriptor) {pset : Pset PK}
    (hkinds : pset.ExplicitOrConfidential) : PathsAgree Id w pset := by
  have hinput : ∀ i input utxo s, pset.inputs[i]? = some input → input.witnessUtxo = some utxo →
      (inputSecrets Id w.masterBlindingKey i input = .ok s ↔ w.unblind utxo = .ok s) := by
    intro i input utxo s hi hutxo
    obtain ⟨utxo', hutxo', hkind⟩ := hkinds input (List.mem_of_getElem? hi)
    obtain rfl := Option.some.inj (hutxo'.symm.trans hutxo)
    exact inputSecrets_eq_ok_iff hopens hkey hutxo hkind
  constructor
  · rw [exists_deriveInputSecrets]
    constructor
    · intro hall input hmem utxo hutxo
      obtain ⟨i, hi⟩ := List.mem_iff_getElem?.mp hmem
      obtain ⟨s, hs⟩ := hall i input hi
      exact ⟨s, (hinput i input utxo s hi hutxo).mp hs⟩
    · intro hall i input hi
      obtain ⟨utxo, hutxo, -⟩ := hkinds input (List.mem_of_getElem? hi)
      obtain ⟨s, hs⟩ := hall input (List.mem_of_getElem? hi) utxo hutxo
      exact ⟨s, (hinput i input utxo s hi hutxo).mpr hs⟩
  · intro secrets hok i s
    rw [lookup_deriveInputSecrets hok]
    constructor
    · rintro ⟨input, hi, hs⟩
      obtain ⟨utxo, hutxo, -⟩ := hkinds input (List.mem_of_getElem? hi)
      exact ⟨input, utxo, hi, hutxo, (hinput i input utxo s hi hutxo).mp hs⟩
    · rintro ⟨input, utxo, hi, hutxo, hs⟩
      exact ⟨input, hi, (hinput i input utxo s hi hutxo).mpr hs⟩

/-- A PSET that spends one output. -/
def spending (PK : Type) (utxo : TxOut) : Pset PK where
  inputs := [{
    previousOutput := ⟨⟨0⟩, 0⟩, witnessUtxo := some utxo, partialSigs := ∅, sighashType := none
    redeemScript := none, witnessScript := none, bip32Derivation := ∅, finalScriptWitness := none }]
  outputs := []

/-- Two keys open some output differently, and a PSET that spends it
tells them apart. -/
theorem eq_of_oneKey (hopens : OpensWith embedded) (hapart : KeysApart MBK)
    (hone : OneKey Id PK w) : w.masterBlindingKey = embedded w.descriptor := by
  by_contra hne
  obtain ⟨utxo, secrets, hkind, hok, hno⟩ := hapart _ _ (Ne.symm hne)
  have hkinds : (spending PK utxo).ExplicitOrConfidential := by
    intro input hmem
    obtain rfl := List.mem_singleton.mp hmem
    exact ⟨utxo, rfl, .inr hkind⟩
  have hunblind : w.unblind utxo = .ok secrets :=
    mapError_eq_ok.mpr ((hopens.confidential w.descriptor utxo secrets hkind).mpr hok)
  obtain ⟨derived, hderived⟩ := (hone (spending PK utxo) hkinds).ok_iff.mpr (by
    intro input hmem utxo' hutxo'
    obtain rfl := List.mem_singleton.mp hmem
    obtain rfl := Option.some.inj hutxo'
    exact ⟨secrets, hunblind⟩)
  obtain ⟨s, hs⟩ := exists_deriveInputSecrets.mp ⟨derived, hderived⟩ 0 _ rfl
  obtain ⟨generator, commitment, pubkey, hasset, hvalue, -⟩ := hkind
  unfold inputSecrets at hs
  simp only [hasset, hvalue] at hs
  exact hno s (mapError_eq_ok.mp hs)

/-- Whichever constructor a wollet is from, the two paths agree on all
PSETs exactly when the key it was given is the one in its descriptor. -/
theorem one_key_iff (hopens : OpensWith embedded) (hapart : KeysApart MBK)
    {lwk : WolletLib D Inner Network} {display : C → List Char} {descriptorStr : List Char}
    {blindingKey : BitVec 256}
    (hw : KeyedWollet.Constructed lwk display descriptorStr blindingKey w) :
    OneKey Id PK w ↔ KeyInside lwk embedded descriptorStr blindingKey := by
  obtain ⟨hdescriptor, hkey⟩ := hw.parsed
  constructor
  · intro hone
    refine ⟨w.descriptor, hdescriptor, ?_⟩
    rw [hkey, eq_of_oneKey hopens hapart hone]
  · rintro ⟨d, hd, hembedded⟩
    have hsame : d = w.descriptor := Except.ok.inj (hd.symm.trans hdescriptor)
    rw [hsame, hkey] at hembedded
    exact fun pset hkinds => paths_agree hopens (Except.ok.inj hembedded) hkinds

end

/-! Keys that give a script the key plus the script's length, and
outputs that carry their private key as the nonce. -/

structure PlainKey where
  bits : BitVec 256
deriving DecidableEq

/-- Sixty-four lowercase hexadecimal digits. -/
def parseKey (s : List Char) : Except String PlainKey :=
  if s.length = 64 ∧ s.all (· ∈ hexDigits) then
    .ok ⟨BitVec.ofNat 256 (s.foldl (fun n c => 16 * n + hexDigits.idxOf c) 0)⟩
  else .error "bad hex string"

instance : Slip77 PlainKey (BitVec 256) where
  fromStr := parseKey
  blindingPrivateKey key script := key.bits + BitVec.ofNat 256 script.bytes.length

instance : UnblindKey (BitVec 256) where
  unblind txout key := match txout.asset, txout.value, txout.nonce with
    | .confidential generator, .confidential commitment, .confidential pubkey =>
        if pubkey.point = key.toNat then .ok ⟨⟨generator.point⟩, 1, commitment.point, 1⟩
        else .error "rewind failed"
    | _, _, _ => .error "not confidential"

/-- A descriptor of which only the key is kept. -/
structure KeyOnly where
  key : PlainKey

instance : LwkDescriptor KeyOnly where
  address _ index _ := .ok ⟨⟨[0, UInt8.ofNat index]⟩⟩
  change _ index _ := .ok ⟨⟨[1, UInt8.ofNat index]⟩⟩
  tryUnblind txout d := match txout.asset, txout.value, txout.nonce with
    | .explicit asset, .explicit value, _ => .ok { asset, assetBf := 0, value, valueBf := 0 }
    | .confidential _, .confidential _, .confidential _ =>
        UnblindKey.unblind txout (Slip77.blindingPrivateKey d.key txout.scriptPubkey)
    | _, _, _ => .error "unexpected asset, value or nonce"

/-- The key stands behind the first ten characters of the text. -/
def plainLib : WolletLib KeyOnly Unit Unit where
  toLwk _ := ()
  fromStr s := (parseKey ((s.drop 10).take 64)).map KeyOnly.mk
  build _ _ := .ok ()

theorem opensWith_key : OpensWith KeyOnly.key := by
  constructor
  · intro d txout asset value hasset hvalue
    simp only [LwkDescriptor.tryUnblind, hasset, hvalue]
  · rintro d txout secrets ⟨generator, commitment, pubkey, hasset, hvalue, hnonce⟩
    simp only [LwkDescriptor.tryUnblind, hasset, hvalue, hnonce]

/-- An output that opens with the key for an empty script. -/
def sealedTo (key : PlainKey) : TxOut :=
  ⟨.confidential ⟨1⟩, .confidential ⟨5⟩, .confidential ⟨key.bits.toNat⟩, ⟨[]⟩, ⟨none, none⟩⟩

theorem unblind_sealedTo (key key' : PlainKey) :
    UnblindKey.unblind (sealedTo key)
        (Slip77.blindingPrivateKey key' (sealedTo key).scriptPubkey : BitVec 256) =
      if key = key' then .ok ⟨⟨1⟩, 1, 5, 1⟩ else .error "rewind failed" := by
  have hsame : key.bits.toNat = (key'.bits + BitVec.ofNat 256 0).toNat ↔ key = key' := by
    rw [BitVec.add_zero, BitVec.toNat_inj]
    exact ⟨fun h => by cases key; cases key'; cases h; rfl, fun h => by rw [h]⟩
  show (if key.bits.toNat = (key'.bits + BitVec.ofNat 256 0).toNat then _ else _) = _
  simp only [hsame]

theorem keysApart_plainKey : KeysApart PlainKey := by
  intro key key' hne
  refine ⟨sealedTo key, ⟨⟨1⟩, 1, 5, 1⟩, ⟨_, _, _, rfl, rfl, rfl⟩, ?_, ?_⟩
  · rw [unblind_sealedTo, if_pos rfl]
  · intro secrets'
    rw [unblind_sealedTo, if_neg hne]
    exact fun h => by cases h

def keyText (key : BitVec 256) : List Char :=
    "ct(slip77(".toList ++ hex32 key ++ "),elwsh(1))".toList

def keyWollet (inside stored : BitVec 256) : KeyedWollet KeyOnly Unit PlainKey Unit where
  descriptor := ⟨⟨inside⟩⟩
  network := .liquid
  inner := ()
  masterBlindingKey := ⟨stored⟩
  lwkNetwork := ()

theorem one_key_iff_same : OneKey Nat Nat (keyWollet 0x33 0x33) := by
  have hnew : KeyedWollet.fromDescriptorStr plainLib (keyText 0x33) 0x33 .liquid () =
      .ok (keyWollet 0x33 0x33) := rfl
  have hw : KeyedWollet.Constructed plainLib (id : List Char → List Char) (keyText 0x33) 0x33
      (keyWollet 0x33 0x33) := .fromDescriptorStr hnew
  exact (one_key_iff opensWith_key keysApart_plainKey hw).mpr ⟨⟨⟨0x33⟩⟩, rfl, rfl⟩

/-- A wollet can store another key than the one in its descriptor. -/
theorem stored_key_differs : ¬∀ (descriptorStr : List Char) (blindingKey : BitVec 256)
    (w : KeyedWollet KeyOnly Unit PlainKey Unit) (pset : Pset Nat),
    KeyedWollet.Constructed plainLib (id : List Char → List Char) descriptorStr blindingKey w →
    pset.ExplicitOrConfidential → PathsAgree Nat w pset := by
  intro hgeneral
  have hnew : KeyedWollet.fromDescriptorStr plainLib (keyText 0x33) 0x44 .liquid () =
      .ok (keyWollet 0x33 0x44) := rfl
  have hw : KeyedWollet.Constructed plainLib (id : List Char → List Char) (keyText 0x33) 0x44
      (keyWollet 0x33 0x44) := .fromDescriptorStr hnew
  have hkinds : (spending Nat (sealedTo ⟨0x33⟩)).ExplicitOrConfidential := by
    intro input hmem
    obtain rfl := List.mem_singleton.mp hmem
    exact ⟨_, rfl, .inr ⟨_, _, _, rfl, rfl, rfl⟩⟩
  obtain ⟨secrets, hsecrets⟩ := (hgeneral _ _ _ _ hw hkinds).ok_iff.mpr (by
    intro input hmem utxo hutxo
    obtain rfl := List.mem_singleton.mp hmem
    cases hutxo
    exact ⟨⟨⟨1⟩, 1, 5, 1⟩, rfl⟩)
  cases hsecrets

end EmvaultElements
