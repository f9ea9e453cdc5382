import EmvaultElements.Descriptor

/-!
# The text of a descriptor

What the text says and what may be substituted in it. Everything in it
but the punctuation is alphanumeric, so each mark of punctuation is
where the format has put it: `toMultipathString` touches the key
suffixes and nothing else (`multipath_exact`), and the text determines
the keys, in order (`descStr_eq_iff`).
-/

namespace EmvaultElements

/-! ## Alphabets -/

def base58Digits : List Char :=
  "123456789ABCDEFGHJKLMNPQRSTUVWXYZabcdefghijkmnopqrstuvwxyz".toList

/-- Keys are printed in hexadecimal or base58, and no two public keys
alike. -/
structure PrintsKeys (Xpub PK : Type) [KeyDisplay Xpub PK] : Prop where
  publicKey_hex : ∀ pk, ∀ c ∈ KeyDisplay.publicKeyText Xpub pk, c ∈ hexDigits
  publicKey_injective : ∀ pk pk' : PK,
    KeyDisplay.publicKeyText Xpub pk = KeyDisplay.publicKeyText Xpub pk' → pk = pk'
  xpub_base58 : ∀ xpub : Xpub, ∀ c ∈ KeyDisplay.xpubText xpub, c ∈ base58Digits

/-- Letters and digits only. -/
def Alphanum (s : List Char) : Prop := ∀ c ∈ s, c.isAlphanum

theorem Alphanum.notMem {s : List Char} (h : Alphanum s) {c : Char} (hc : c.isAlphanum = false) :
    c ∉ s := by
  intro hmem
  rw [h c hmem] at hc
  cases hc

theorem alphanum_of_hex {s : List Char} (h : ∀ c ∈ s, c ∈ hexDigits) : Alphanum s := by
  have hall : hexDigits.all Char.isAlphanum := rfl
  exact fun c hc => List.all_eq_true.mp hall c (h c hc)

theorem alphanum_of_base58 {s : List Char} (h : ∀ c ∈ s, c ∈ base58Digits) : Alphanum s := by
  have hall : base58Digits.all Char.isAlphanum := rfl
  exact fun c hc => List.all_eq_true.mp hall c (h c hc)

theorem alphanum_decimal (n : Nat) : Alphanum (Text.decimal n) := by
  intro c hc
  rw [Char.isAlphanum, Text.isDigit_of_mem_decimal hc, Bool.or_true]

theorem mem_hexDigits (i : Nat) : hexDigits.getD i '0' ∈ hexDigits := by
  rw [List.getD_eq_getElem?_getD]
  cases hi : hexDigits[i]? with
  | none => decide
  | some c => exact List.mem_of_getElem? hi

theorem alphanum_hexEncode (bytes : List UInt8) : Alphanum (hexEncode bytes) := by
  refine alphanum_of_hex ?_
  intro c hc
  obtain ⟨b, -, hb⟩ := List.mem_flatMap.mp hc
  rcases List.mem_pair.mp hb with rfl | rfl <;> exact mem_hexDigits _

theorem alphanum_text (n : ChildNumber) : Alphanum n.text := by
  cases n with
  | normal index => exact alphanum_decimal index
  | hardened index =>
      intro c hc
      rcases List.mem_append.mp hc with hc | hc
      · exact alphanum_decimal index c hc
      · rw [List.mem_singleton.mp hc]
        decide

/-- The origin of a key has slashes between letters and digits. -/
theorem notMem_formatOrigin (fp : Fingerprint) (path : DerivationPath) {c : Char}
    (hc : c.isAlphanum = false) (hslash : c ≠ '/') : c ∉ formatOrigin fp path := by
  have hfp : c ∉ fp.text := (alphanum_hexEncode _).notMem hc
  unfold formatOrigin
  split
  · exact hfp
  · intro hmem
    rcases List.mem_append.mp hmem with hmem | hmem
    · exact hfp hmem
    · rcases List.mem_cons.mp hmem with rfl | hmem
      · exact hslash rfl
      · rcases Text.mem_join hmem with rfl | ⟨segment, hsegment, hmem⟩
        · exact hslash rfl
        · obtain ⟨n, -, rfl⟩ := List.mem_map.mp hsegment
          exact (alphanum_text _).notMem hc hmem

/-! ## Multipath form -/

section Multipath

variable {Id Xpub PK D : Type} [KeyDisplay Xpub PK]

/-- A key without its suffix. -/
def rangedKey (entry : KeyEntry Xpub) : List Char :=
  '[' :: formatOrigin entry.fingerprint entry.derivationPath ++ ']' ::
    KeyDisplay.xpubText entry.xpub

/-- A key with the receive and the change branch. -/
def multipathKey (entry : KeyEntry Xpub) : List Char := rangedKey entry ++ "/<0;1>/*".toList

theorem notMem_rangedKey (hprints : PrintsKeys Xpub PK) (entry : KeyEntry Xpub) {c : Char}
    (hc : c.isAlphanum = false) (hmark : c ∉ ['/', '[', ']']) : c ∉ rangedKey entry := by
  simp only [List.mem_cons, List.not_mem_nil, or_false, not_or] at hmark
  obtain ⟨hslash, hopen, hclose⟩ := hmark
  have horigin := notMem_formatOrigin entry.fingerprint entry.derivationPath hc hslash
  have hxpub := (alphanum_of_base58 (hprints.xpub_base58 entry.xpub)).notMem hc
  rw [rangedKey, List.mem_append, List.mem_cons, List.mem_cons]
  rintro ((hmem | hmem) | hmem | hmem)
  · exact hopen hmem
  · exact horigin hmem
  · exact hclose hmem
  · exact hxpub hmem

/-- What the body has before its first key. -/
def bodyStart (threshold : Nat) (mbk : List UInt8) : List Char :=
  "ct(slip77(".toList ++ hexEncode mbk ++ "),elwsh(sortedmulti(".toList ++ Text.decimal threshold ++
    [',']

theorem notMem_bodyStart (threshold : Nat) (mbk : List UInt8) {c : Char} (hc : c.isAlphanum = false)
    (hopen : c ∉ "ct(slip77(".toList) (hmiddle : c ∉ "),elwsh(sortedmulti(".toList)
    (hcomma : c ≠ ',') : c ∉ bodyStart threshold mbk := by
  have hmbk := (alphanum_hexEncode mbk).notMem hc
  have hthreshold := (alphanum_decimal threshold).notMem hc
  unfold bodyStart
  generalize "ct(slip77(".toList = opening at hopen ⊢
  generalize "),elwsh(sortedmulti(".toList = middle at hmiddle ⊢
  rw [List.mem_append, List.mem_append, List.mem_append, List.mem_append, List.mem_singleton]
  rintro ((((hmem | hmem) | hmem) | hmem) | hmem)
  · exact hopen hmem
  · exact hmbk hmem
  · exact hmiddle hmem
  · exact hthreshold hmem
  · exact hcomma hmem

/-- The body as a list of keys with one suffix. -/
theorem formatBody_suffixed (threshold : Nat) (mbk : List UInt8) (keys : List (List Char))
    (suffix : List Char) : formatBody threshold mbk (keys.map (· ++ suffix)) =
      Text.suffixed ',' suffix (bodyStart threshold mbk) keys ")))".toList := by
  unfold formatBody bodyStart Text.suffixed
  generalize "ct(slip77(".toList = opening
  generalize "),elwsh(sortedmulti(".toList = middle
  generalize ")))".toList = closing
  simp only [List.append_assoc, List.cons_append, List.nil_append]

variable [LinearOrder Id]

/-- The keys of a builder without their suffix. -/
def CtDescriptorBuilder.rangedKeys (b : CtDescriptorBuilder Id Xpub) : List (List Char) :=
  b.values.map rangedKey

theorem descStr_ranged {b : CtDescriptorBuilder Id Xpub} (hmode : b.mode = .ranged) :
    b.descStr = Text.suffixed ',' "/0/*".toList (bodyStart b.threshold b.masterBlindingKey)
      b.rangedKeys ")))".toList := by
  rw [← formatBody_suffixed, CtDescriptorBuilder.descStr, hmode, CtDescriptorBuilder.rangedKeys,
    List.map_map]
  rfl

theorem multipath_suffixed (b : CtDescriptorBuilder Id Xpub) :
    formatBody b.threshold b.masterBlindingKey (b.values.map multipathKey) =
      Text.suffixed ',' "/<0;1>/*".toList (bodyStart b.threshold b.masterBlindingKey)
        b.rangedKeys ")))".toList := by
  rw [← formatBody_suffixed, CtDescriptorBuilder.rangedKeys, List.map_map]
  rfl

theorem notMem_rangedKeys (hprints : PrintsKeys Xpub PK) (b : CtDescriptorBuilder Id Xpub)
    {c : Char}
    (hc : c.isAlphanum = false) (hmark : c ∉ ['/', '[', ']']) : ∀ k ∈ b.rangedKeys, c ∉ k := by
  intro k hk
  obtain ⟨e, -, rfl⟩ := List.mem_map.mp hk
  exact notMem_rangedKey hprints e hc hmark

/-- What is displayed up to the checksum is the body. -/
theorem body_of_display (hprints : PrintsKeys Xpub PK) {b : CtDescriptorBuilder Id Xpub}
    (hmode : b.mode = .ranged) {checksum : List Char}
    (hchecksum : checksum = [] ∨ ∃ rest, checksum = '#' :: rest) :
    (Text.splitOnce '#' (b.descStr ++ checksum)).elim (b.descStr ++ checksum) Prod.fst =
      b.descStr := by
  have hhash : '#' ∉ b.descStr := by
    rw [descStr_ranged hmode]
    refine Text.notMem_suffixed ?_ (by decide)
      (notMem_rangedKeys hprints b rfl (by decide)) (by decide) (by decide)
    exact notMem_bodyStart _ _ rfl (by decide) (by decide) (by decide)
  rcases hchecksum with rfl | ⟨rest, rfl⟩
  · rw [List.append_nil, Text.splitOnce_of_notMem hhash]
    rfl
  · rw [Text.splitOnce_append rest hhash]
    rfl

/-- The multipath form of a ranged descriptor is the body with the
multipath suffix on every key, whatever checksum is displayed with it.
It has one replacement for each key, replacing once more changes
nothing, and its receive branch is the body. -/
theorem multipath_exact (hprints : PrintsKeys Xpub PK) {b : CtDescriptorBuilder Id Xpub}
    (hmode : b.mode = .ranged) {fromStr : List Char → Except String D} {desc : D}
    (hbuild : b.build fromStr = .ok desc) {display : D → List Char} {checksum : List Char}
    (hdisplay : display desc = b.descStr ++ checksum)
    (hchecksum : checksum = [] ∨ ∃ rest, checksum = '#' :: rest) :
    toMultipathString display desc =
      formatBody b.threshold b.masterBlindingKey (b.values.map multipathKey) ∧
    Text.occurrences "/0/*".toList b.descStr = b.entries.size ∧
    Text.replace "/0/*".toList "/<0;1>/*".toList (toMultipathString display desc) =
      toMultipathString display desc ∧
    Text.replace "<0;1>".toList "0".toList (toMultipathString display desc) = b.descStr := by
  have hne : b.rangedKeys ≠ [] := by
    intro hnil
    have hempty : b.entries.isEmpty := by
      rw [← Std.ExtTreeMap.isEmpty_toList, List.isEmpty_iff]
      exact List.map_eq_nil_iff.mp (List.map_eq_nil_iff.mp hnil)
    rw [CtDescriptorBuilder.build, if_pos hempty] at hbuild
    cases hbuild
  have hsize : b.rangedKeys.length = b.entries.size := by
    rw [CtDescriptorBuilder.rangedKeys, List.length_map, CtDescriptorBuilder.values,
      List.length_map,
      Std.ExtTreeMap.length_toList]
  have hstar : '*' ∉ bodyStart b.threshold b.masterBlindingKey :=
    notMem_bodyStart _ _ rfl (by decide) (by decide) (by decide)
  have hangle : '>' ∉ bodyStart b.threshold b.masterBlindingKey :=
    notMem_bodyStart _ _ rfl (by decide) (by decide) (by decide)
  have hkeys : ∀ k ∈ b.rangedKeys, '*' ∉ k :=
    notMem_rangedKeys hprints b rfl (by decide)
  have hkeys' : ∀ k ∈ b.rangedKeys, '>' ∉ k :=
    notMem_rangedKeys hprints b rfl (by decide)
  have hstar' : '*' ∉ "/0/".toList := by decide
  have hbranches : '*' ∉ "/<0;1>/".toList := by decide
  have hangle' : '>' ∉ "<0;1".toList := by decide
  have hclose : '*' ∉ ")))".toList := by decide
  have hclose' : '>' ∉ ")))".toList := by decide
  have hnil : '*' ∉ ([] : List Char) := List.not_mem_nil
  have hslash : '>' ∉ ['/'] := by decide
  have hwildcard : '>' ∉ "/*".toList := by decide
  have hcomma : '*' ≠ ',' := by decide
  have hcomma' : '>' ≠ ',' := by decide
  obtain ⟨hreplace, hcount⟩ :=
    Text.replace_suffixed hstar' hnil hnil "/<0;1>/*".toList hcomma hclose
    hne hstar hkeys
  have hagain := Text.replace_other_suffix hstar' hbranches (by decide) (by decide)
    "/<0;1>/*".toList
    hcomma hclose hne hstar hkeys
  have hbranch := (Text.replace_suffixed hangle' hslash hwildcard "0".toList hcomma' hclose' hne
    hangle hkeys').1
  have hresult : toMultipathString display desc = Text.suffixed ',' "/<0;1>/*".toList
      (bodyStart b.threshold b.masterBlindingKey) b.rangedKeys ")))".toList := by
    rw [toMultipathString, hdisplay, body_of_display hprints hmode hchecksum, descStr_ranged hmode]
    exact hreplace
  refine ⟨?_, ?_, ?_, ?_⟩
  · rw [hresult, multipath_suffixed]
  · rw [descStr_ranged hmode, ← hsize]
    exact hcount
  · rw [hresult]
    exact hagain
  · rw [hresult, descStr_ranged hmode]
    exact hbranch

end Multipath

/-! ## What the text determines -/

theorem hexDigit_inj : ∀ i < 16, ∀ j < 16, hexDigits.getD i '0' = hexDigits.getD j '0' → i = j := by
  decide

theorem hexEncodeByte_inj {b b' : UInt8} (h : hexEncodeByte b = hexEncodeByte b') : b = b' := by
  obtain ⟨hhigh, hlow⟩ := List.cons.inj h
  replace hlow := (List.cons.inj hlow).1
  have hshift : ∀ b : UInt8, (b >>> 4).toNat = b.toNat / 16 := by
    intro b
    rw [UInt8.toNat_shiftRight]
    exact Nat.shiftRight_eq_div_pow b.toNat 4
  have hmask : ∀ b : UInt8, (b &&& 0x0f).toNat = b.toNat % 16 := by
    intro b
    rw [UInt8.toNat_and]
    exact Nat.and_two_pow_sub_one_eq_mod b.toNat 4
  rw [hshift, hshift] at hhigh
  rw [hmask, hmask] at hlow
  have hlt := b.toNat_lt
  have hlt' := b'.toNat_lt
  have hdiv := hexDigit_inj _ (by omega) _ (by omega) hhigh
  have hmod := hexDigit_inj _ (by omega) _ (by omega) hlow
  exact UInt8.toNat_inj.mp (by omega)

theorem length_hexEncode (bytes : List UInt8) : (hexEncode bytes).length = 2 * bytes.length := by
  induction bytes with
  | nil => rfl
  | cons b bytes ih =>
      rw [hexEncode, List.flatMap_cons, List.length_append, ← hexEncode, ih, List.length_cons,
        show (hexEncodeByte b).length = 2 from rfl]
      omega

theorem hexEncode_inj : ∀ {bytes bytes' : List UInt8}, hexEncode bytes = hexEncode bytes' →
    bytes = bytes'
  | [], [], _ => rfl
  | [], b :: bytes, h => by cases h
  | b :: bytes, [], h => by cases h
  | b :: bytes, b' :: bytes', h => by
      rw [hexEncode, hexEncode, List.flatMap_cons, List.flatMap_cons] at h
      obtain ⟨hfirst, hrest⟩ := List.append_inj h rfl
      rw [hexEncodeByte_inj hfirst, hexEncode_inj hrest]

theorem Fingerprint.text_inj {fp fp' : Fingerprint} (h : fp.text = fp'.text) : fp = fp' := by
  have hbyte : ∀ (x : BitVec 32) (start : Nat),
      (⟨x.extractLsb' start 8⟩ : UInt8).toNat = x.toNat / 2 ^ start % 256 := by
    intro x start
    show (x.extractLsb' start 8).toNat = _
    rw [BitVec.extractLsb'_toNat, Nat.shiftRight_eq_div_pow]
  have hbytes := hexEncode_inj h
  simp only [Fingerprint.toBytes, List.map_cons, List.map_nil, List.cons.injEq, and_true,
    ← UInt8.toNat_inj, hbyte] at hbytes
  obtain ⟨h24, h16, h8, h0⟩ := hbytes
  have hlt := fp.bytes.isLt
  have hlt' := fp'.bytes.isLt
  have heq : fp.bytes = fp'.bytes := BitVec.eq_of_toNat_eq (by omega)
  cases fp
  cases fp'
  exact congrArg Fingerprint.mk heq

theorem ChildNumber.text_inj : ∀ {n n' : ChildNumber}, n.text = n'.text → n = n'
  | .normal i, .normal i', h => congrArg ChildNumber.normal (Text.decimal_injective h)
  | .hardened i, .hardened i', h =>
      congrArg ChildNumber.hardened (Text.decimal_injective (List.append_cancel_right h))
  | .normal i, .hardened i', h => by
      have hmark : 'h' ∈ Text.decimal i := by
        rw [show Text.decimal i = Text.decimal i' ++ ['h'] from h]
        exact List.mem_append_right _ (List.mem_singleton.mpr rfl)
      have := Text.isDigit_of_mem_decimal hmark
      cases this
  | .hardened i, .normal i', h => by
      have hmark : 'h' ∈ Text.decimal i' := by
        rw [← show Text.decimal i ++ ['h'] = Text.decimal i' from h]
        exact List.mem_append_right _ (List.mem_singleton.mpr rfl)
      have := Text.isDigit_of_mem_decimal hmark
      cases this

/-- The steps of a path, hardened or not. -/
def DerivationPath.childNumbers (path : DerivationPath) : List ChildNumber :=
  path.children.map ChildNumber.ofU32

theorem formatOrigin_eq (fp : Fingerprint) (path : DerivationPath) : formatOrigin fp path =
    if path.childNumbers = [] then fp.text
    else fp.text ++ '/' :: ['/'].intercalate (path.childNumbers.map ChildNumber.text) := by
  unfold formatOrigin DerivationPath.childNumbers
  rw [List.map_map]
  by_cases hnil : path.children = []
  · rw [if_pos (List.isEmpty_iff.mpr hnil), if_pos (List.map_eq_nil_iff.mpr hnil)]
  · rw [if_neg (by rwa [List.isEmpty_iff]), if_neg (by rwa [List.map_eq_nil_iff])]
    rfl

theorem formatOrigin_inj {fp fp' : Fingerprint} {path path' : DerivationPath}
    (h : formatOrigin fp path = formatOrigin fp' path') :
    fp = fp' ∧ path.childNumbers = path'.childNumbers := by
  have hlen : fp.text.length = fp'.text.length :=
    (length_hexEncode fp.toBytes).trans (length_hexEncode fp'.toBytes).symm
  have hsegments : ∀ ns : List ChildNumber, ∀ segment ∈ ns.map ChildNumber.text, '/' ∉ segment := by
    intro ns segment hsegment
    obtain ⟨n, -, rfl⟩ := List.mem_map.mp hsegment
    exact (alphanum_text n).notMem rfl
  rw [formatOrigin_eq, formatOrigin_eq] at h
  -- an empty path leaves no slash behind the fingerprint
  split at h <;> split at h
  · next hnil hnil' => exact ⟨Fingerprint.text_inj h, hnil.trans hnil'.symm⟩
  · have := congrArg List.length h
    rw [List.length_append, List.length_cons] at this
    omega
  · have := congrArg List.length h
    rw [List.length_append, List.length_cons] at this
    omega
  · next hne hne' =>
      obtain ⟨hfp, hpath⟩ := List.append_inj h hlen
      have hjoined := Text.join_injective (hsegments _) (hsegments _)
        (by rwa [ne_eq, List.map_eq_nil_iff]) (by rwa [ne_eq, List.map_eq_nil_iff])
        (List.cons.inj hpath).2
      exact ⟨Fingerprint.text_inj hfp,
        List.map_injective_iff.mpr (fun _ _ => ChildNumber.text_inj) hjoined⟩

section Determined

variable {Id Xpub PK : Type} [KeyDisplay Xpub PK]

/-- A key as it is displayed: the public key, or the text of the
xpub. -/
inductive DisplayedKey (PK : Type) where
  | publicKey (pk : PK)
  | xpub (text : List Char)

def displayedKey (mode : CtKeyMode) (entry : KeyEntry Xpub) : DisplayedKey PK :=
  match mode with
  | .fixed => .publicKey (KeyDisplay.publicKey entry.xpub)
  | .ranged => .xpub (KeyDisplay.xpubText entry.xpub)

/-- What the text says of an entry. -/
def listed (mode : CtKeyMode) (entry : KeyEntry Xpub) :
    Fingerprint × List ChildNumber × DisplayedKey PK :=
  (entry.fingerprint, entry.derivationPath.childNumbers, displayedKey mode entry)

/-- What a key has behind its origin. -/
def keyTail (mode : CtKeyMode) (entry : KeyEntry Xpub) : List Char :=
  match mode with
  | .fixed => KeyDisplay.publicKeyText Xpub (KeyDisplay.publicKey entry.xpub)
  | .ranged => KeyDisplay.xpubText entry.xpub ++ "/0/*".toList

theorem formatKey_eq (mode : CtKeyMode) (entry : KeyEntry Xpub) : formatKey mode entry =
    '[' :: (formatOrigin entry.fingerprint entry.derivationPath ++ ']' :: keyTail mode entry) := by
  cases mode with
  | fixed => rfl
  | ranged =>
      unfold formatKey keyTail
      generalize "/0/*".toList = suffix
      simp only [List.cons_append, List.append_assoc]

theorem formatKey_of_listed {mode : CtKeyMode} {entry entry' : KeyEntry Xpub}
    (h : listed mode entry = listed mode entry') :
    formatKey mode entry = formatKey mode entry' := by
  obtain ⟨hfp, h⟩ := Prod.mk.injEq .. |>.mp h
  obtain ⟨hpath, hkey⟩ := Prod.mk.injEq .. |>.mp h
  have htail : keyTail mode entry = keyTail mode entry' := by
    cases mode with
    | fixed =>
        have hpk : KeyDisplay.publicKey entry.xpub = KeyDisplay.publicKey entry'.xpub :=
          DisplayedKey.publicKey.inj hkey
        rw [keyTail, keyTail, hpk]
    | ranged =>
        have htext : KeyDisplay.xpubText entry.xpub = KeyDisplay.xpubText entry'.xpub :=
          DisplayedKey.xpub.inj hkey
        rw [keyTail, keyTail, htext]
  rw [formatKey_eq, formatKey_eq, formatOrigin_eq, formatOrigin_eq, hfp, hpath, htail]

/-- The text of a key says how it is encoded, and what is listed. -/
theorem formatKey_inj (hprints : PrintsKeys Xpub PK) {mode mode' : CtKeyMode}
    {entry entry' : KeyEntry Xpub} (h : formatKey mode entry = formatKey mode' entry') :
    mode = mode' ∧ listed mode entry = listed mode' entry' := by
  rw [formatKey_eq, formatKey_eq] at h
  obtain ⟨horigin, htail⟩ := Text.append_cons_inj
    (notMem_formatOrigin _ _ rfl (by decide))
    (notMem_formatOrigin _ _ rfl (by decide)) (List.cons.inj h).2
  obtain ⟨hfp, hpath⟩ := formatOrigin_inj horigin
  -- a ranged key ends with a wildcard, and a fixed one has none
  have hfixed : ∀ entry : KeyEntry Xpub, '*' ∉ keyTail .fixed entry := fun entry =>
    (alphanum_of_hex (hprints.publicKey_hex _)).notMem rfl
  have hranged : ∀ entry : KeyEntry Xpub, '*' ∈ keyTail .ranged entry := fun entry =>
    List.mem_append_right _ (by decide)
  unfold listed
  rw [hfp, hpath]
  cases mode <;> cases mode'
  · have hkey := hprints.publicKey_injective _ _ htail
    exact ⟨rfl, by rw [displayedKey, displayedKey, hkey]⟩
  · exact absurd (htail ▸ hranged entry') (hfixed entry)
  · exact absurd (htail ▸ hranged entry) (hfixed entry')
  · have hkey := List.append_cancel_right htail
    exact ⟨rfl, by rw [displayedKey, displayedKey, hkey]⟩

variable [LinearOrder Id]

/-- What the text says of the signers, in the order of their ids. -/
def CtDescriptorBuilder.listing (b : CtDescriptorBuilder Id Xpub) :
    List (Fingerprint × List ChildNumber × DisplayedKey PK) :=
  b.values.map (listed b.mode)

theorem notMem_formatKey (hprints : PrintsKeys Xpub PK) (mode : CtKeyMode) (entry : KeyEntry Xpub) :
    ',' ∉ formatKey mode entry := by
  have horigin : ',' ∉ formatOrigin entry.fingerprint entry.derivationPath :=
    notMem_formatOrigin _ _ rfl (by decide)
  have htail : ',' ∉ keyTail mode entry := by
    cases mode with
    | fixed => exact (alphanum_of_hex (hprints.publicKey_hex _)).notMem rfl
    | ranged =>
        intro hmem
        rcases List.mem_append.mp hmem with hmem | hmem
        · exact (alphanum_of_base58 (hprints.xpub_base58 _)).notMem rfl hmem
        · exact absurd hmem (by decide)
  rw [formatKey_eq, List.mem_cons, List.mem_append, List.mem_cons]
  rintro (hmem | hmem | hmem | hmem)
  · cases hmem
  · exact horigin hmem
  · cases hmem
  · exact htail hmem

/-- The body determines what it is formatted from. -/
theorem formatBody_inj {threshold threshold' : Nat} {mbk mbk' : List UInt8}
    {keys keys' : List (List Char)} (hmbk : mbk.length = mbk'.length)
    (hkeys : ∀ k ∈ keys, ',' ∉ k) (hkeys' : ∀ k ∈ keys', ',' ∉ k) (hne : keys ≠ [])
    (hne' : keys' ≠ [])
    (h : formatBody threshold mbk keys = formatBody threshold' mbk' keys') :
    threshold = threshold' ∧ mbk = mbk' ∧ keys = keys' := by
  have hlen : (hexEncode mbk).length = (hexEncode mbk').length := by
    rw [length_hexEncode, length_hexEncode, hmbk]
  have hcomma : ∀ threshold, ',' ∉ Text.decimal threshold := fun threshold =>
    (alphanum_decimal threshold).notMem rfl
  unfold formatBody at h
  generalize "ct(slip77(".toList = opening at h
  generalize "),elwsh(sortedmulti(".toList = middle at h
  generalize ")))".toList = closing at h
  simp only [List.append_assoc, List.cons_append, List.append_cancel_left_eq] at h
  obtain ⟨hhex, hrest⟩ := List.append_inj h hlen
  obtain ⟨hthreshold, hjoined⟩ := Text.append_cons_inj (hcomma threshold) (hcomma threshold')
    (List.append_cancel_left hrest)
  exact ⟨Text.decimal_injective hthreshold, hexEncode_inj hhex,
    Text.join_injective hkeys hkeys' hne hne' (List.append_cancel_right hjoined)⟩

/-- The text of a descriptor determines the mode, the threshold, the
blinding key and what is listed of the signers, and is determined by
them. -/
theorem descStr_eq_iff (hprints : PrintsKeys Xpub PK) {b b' : CtDescriptorBuilder Id Xpub}
    (hne : b.entries ≠ ∅) (hne' : b'.entries ≠ ∅) : b.descStr = b'.descStr ↔
      b.mode = b'.mode ∧ b.threshold = b'.threshold ∧
      b.masterBlindingKey = b'.masterBlindingKey ∧ b.listing = b'.listing := by
  have hvalues : ∀ {b : CtDescriptorBuilder Id Xpub}, b.entries ≠ ∅ → b.values ≠ [] :=
    fun hne hnil => hne (Std.ExtTreeMap.toList_eq_nil_iff.mp (List.map_eq_nil_iff.mp hnil))
  have hkeys : ∀ {b : CtDescriptorBuilder Id Xpub}, ∀ k ∈ b.values.map (formatKey b.mode),
    ',' ∉ k := by
    intro b k hk
    obtain ⟨e, -, rfl⟩ := List.mem_map.mp hk
    exact notMem_formatKey hprints b.mode e
  constructor
  · intro h
    obtain ⟨hthreshold, hmbk, hformatted⟩ := formatBody_inj (b.keyLength.trans b'.keyLength.symm)
      hkeys hkeys (by simpa using hvalues hne) (by simpa using hvalues hne') h
    have hinj : ∀ e e' : KeyEntry Xpub, formatKey b.mode e = formatKey b'.mode e' →
        b.mode = b'.mode ∧ listed b.mode e = listed b'.mode e' :=
      fun _ _ => formatKey_inj hprints
    refine ⟨?_, hthreshold, hmbk, Text.map_eq_map_of (fun e e' h => (hinj e e' h).2) hformatted⟩
    obtain ⟨e, es, hes⟩ := List.exists_cons_of_ne_nil (hvalues hne)
    obtain ⟨e', es', hes'⟩ := List.exists_cons_of_ne_nil (hvalues hne')
    rw [hes, hes'] at hformatted
    exact (hinj e e' (List.cons.inj hformatted).1).1
  · rintro ⟨hmode, hthreshold, hmbk, hlisting⟩
    unfold CtDescriptorBuilder.listing at hlisting
    unfold CtDescriptorBuilder.descStr
    rw [hmode] at hlisting ⊢
    rw [hthreshold, hmbk, Text.map_eq_map_of (fun _ _ => formatKey_of_listed) hlisting]

end Determined

/-! Two sample signers. -/

theorem printsKeys_sampleKey : PrintsKeys SampleKey Nat := by
  have hletters : ∀ {c : Char} {digits start : List Char} {n : Nat} {a : Char},
      (start ++ [a]).all digits.contains → c ∈ start ++ List.replicate n a → c ∈ digits := by
    intro c digits start n a hall hc
    refine List.contains_iff_mem.mp (List.all_eq_true.mp hall c ?_)
    rcases List.mem_append.mp hc with hc | hc
    · exact List.mem_append_left _ hc
    · rw [List.eq_of_mem_replicate hc]
      exact List.mem_append_right _ (List.mem_singleton.mpr rfl)
  refine ⟨?_, ?_, ?_⟩
  · exact fun _ _ hc => hletters rfl hc
  · intro n n' h
    have hlen := congrArg List.length (List.append_cancel_left h)
    rwa [List.length_replicate, List.length_replicate] at hlen
  · exact fun _ _ hc => hletters rfl hc

/-- The sample builder with two signers. -/
def twoSigners : CtDescriptorBuilder Nat SampleKey :=
  (sampleBuilder.keyMode .ranged).addSigners [sampleSigner 2 5, sampleSigner 1 6]

/-- The display of a descriptor that is its text. -/
def withChecksum (desc : List Char) : List Char := desc ++ "#checksum".toList

theorem multipath_exact_twoSigners :
    Text.occurrences "/0/*".toList twoSigners.descStr = twoSigners.entries.size ∧
    Text.replace "<0;1>".toList "0".toList (toMultipathString withChecksum twoSigners.descStr) =
      twoSigners.descStr := by
  have hbuild : twoSigners.build Except.ok = .ok twoSigners.descStr := rfl
  have hdisplay : withChecksum twoSigners.descStr = twoSigners.descStr ++ "#checksum".toList := rfl
  obtain ⟨-, hcount, -, hbranch⟩ := multipath_exact printsKeys_sampleKey rfl hbuild hdisplay
    (.inr ⟨"checksum".toList, rfl⟩)
  exact ⟨hcount, hbranch⟩

theorem descStr_eq_iff_twoSigners :
    (sampleBuilder.addSigners [sampleSigner 1 6, sampleSigner 2 5]).descStr =
      (sampleBuilder.addSigners [sampleSigner 2 5, sampleSigner 1 6]).descStr := by
  have hne : (sampleBuilder.addSigners [sampleSigner 1 6, sampleSigner 2 5]).entries ≠ ∅ :=
    Std.ExtTreeMap.isEmpty_eq_false_iff.mp rfl
  have hne' : (sampleBuilder.addSigners [sampleSigner 2 5, sampleSigner 1 6]).entries ≠ ∅ :=
    Std.ExtTreeMap.isEmpty_eq_false_iff.mp rfl
  exact (descStr_eq_iff printsKeys_sampleKey hne hne').mpr ⟨rfl, rfl, rfl, rfl⟩

end EmvaultElements
