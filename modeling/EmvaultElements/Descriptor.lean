import Mathlib.Order.Compare
import Std.Data.ExtTreeMap.Lemmas
import EmvaultElements.Pset
import EmvaultElements.Text

/-!
# Confidential descriptors

`CtDescriptorBuilder` collects the keys of the signers, ordered by
signer id, and formats them into the text of a
`ct(slip77(...), elwsh(sortedmulti(m, ...)))` descriptor, which the
descriptor library parses.

A second signer under an id is refused, but only after its key has taken
the place of the first one's. `keeps_accepted_iff` says when that goes
unnoticed.
-/

namespace EmvaultElements

/-! ## The builder -/

/-- How descriptor keys are encoded in the CT descriptor: a public key,
or an xpub with a wildcard. -/
inductive CtKeyMode where
  | fixed
  | ranged
deriving Repr, DecidableEq

inductive CtDescriptorError where
  | badBlindingKeyLength (length : Nat)
  | duplicateKey (id : String)
  | noSigners
  | descriptor (msg : String)
  | networkMismatch (expected actual : String)
deriving Repr, DecidableEq

/-- What the builder asks of extended public keys: the public key, and
how both are displayed. -/
class KeyDisplay (Xpub : Type) (PK : outParam Type) where
  publicKey : Xpub → PK
  publicKeyText : PK → List Char
  xpubText : Xpub → List Char

structure KeyEntry (Xpub : Type) where
  fingerprint : Fingerprint
  derivationPath : DerivationPath
  xpub : Xpub
deriving Repr, DecidableEq

/-- A signer, as the builder asks it. -/
structure KeySigner (Id Xpub : Type) where
  id : Id
  fingerprint : Fingerprint
  derivationPath : DerivationPath
  xpub : Xpub

structure CtDescriptorBuilder (Id Xpub : Type) [LinearOrder Id] where
  threshold : Nat
  mode : CtKeyMode
  masterBlindingKey : List UInt8
  keyLength : masterBlindingKey.length = 32
  entries : Std.ExtTreeMap Id (KeyEntry Xpub)

variable {Id Xpub PK D : Type}

def KeySigner.entry (signer : KeySigner Id Xpub) : KeyEntry Xpub where
  fingerprint := signer.fingerprint
  derivationPath := signer.derivationPath
  xpub := signer.xpub

/-! ## The text of a descriptor -/

def hexDigits : List Char := "0123456789abcdef".toList

def hexEncodeByte (b : UInt8) : List Char :=
  [hexDigits.getD (b >>> 4).toNat '0', hexDigits.getD (b &&& 0x0f).toNat '0']

def hexEncode (bytes : List UInt8) : List Char := bytes.flatMap hexEncodeByte

/-- The four bytes of a fingerprint. -/
def Fingerprint.toBytes (fp : Fingerprint) : List UInt8 :=
  [24, 16, 8, 0].map fun start => ⟨fp.bytes.extractLsb' start 8⟩

/-- How a fingerprint is displayed. -/
def Fingerprint.text (fp : Fingerprint) : List Char := hexEncode fp.toBytes

/-- A step of a derivation path. -/
inductive ChildNumber where
  | normal (index : Nat)
  | hardened (index : Nat)
deriving Repr, DecidableEq

/-- The upper half of the numbers is hardened. -/
def ChildNumber.ofU32 (n : BitVec 32) : ChildNumber :=
  if n.toNat < 0x80000000 then .normal n.toNat else .hardened (n.toNat - 0x80000000)

def ChildNumber.text : ChildNumber → List Char
  | .normal index => Text.decimal index
  | .hardened index => Text.decimal index ++ ['h']

def formatOrigin (fp : Fingerprint) (path : DerivationPath) : List Char :=
  if path.children.isEmpty then fp.text
  else fp.text ++ '/' :: ['/'].intercalate (path.children.map fun n => (ChildNumber.ofU32 n).text)

def formatKey [KeyDisplay Xpub PK] (mode : CtKeyMode) (entry : KeyEntry Xpub) : List Char :=
  let origin := formatOrigin entry.fingerprint entry.derivationPath
  match mode with
  | .fixed =>
      '[' :: origin ++ ']' :: KeyDisplay.publicKeyText Xpub (KeyDisplay.publicKey entry.xpub)
  | .ranged => '[' :: origin ++ ']' :: KeyDisplay.xpubText entry.xpub ++ "/0/*".toList

/-- The descriptor around the keys. -/
def formatBody (threshold : Nat) (masterBlindingKey : List UInt8) (keys : List (List Char)) :
    List Char :=
  "ct(slip77(".toList ++ hexEncode masterBlindingKey ++ "),elwsh(sortedmulti(".toList ++
    Text.decimal threshold ++ ',' :: [','].intercalate keys ++ ")))".toList

namespace CtDescriptorBuilder

variable [LinearOrder Id]

/-- A builder with the given threshold and master blinding key. -/
def new (threshold : Nat) (mbk : List UInt8) :
    Except CtDescriptorError (CtDescriptorBuilder Id Xpub) :=
  if h : mbk.length = 32 then .ok ⟨threshold, .fixed, mbk, h, ∅⟩
  else .error (.badBlindingKeyLength mbk.length)

/-- Override the key mode. -/
def keyMode (self : CtDescriptorBuilder Id Xpub) (mode : CtKeyMode) : CtDescriptorBuilder Id Xpub :=
  { self with mode }

/-- Add a signer's contribution. The map has it either way. -/
def addSigner [ToString Id] (self : CtDescriptorBuilder Id Xpub) (signer : KeySigner Id Xpub) :
    Except CtDescriptorError Unit × CtDescriptorBuilder Id Xpub :=
  let added := { self with entries := self.entries.insert signer.id signer.entry }
  match self.entries[signer.id]? with
  | some _ => (.error (.duplicateKey (toString signer.id)), added)
  | none => (.ok (), added)

/-- The keys, in the order of the ids. -/
def values (self : CtDescriptorBuilder Id Xpub) : List (KeyEntry Xpub) :=
  self.entries.toList.map Prod.snd

/-- The text that `build` formats. -/
def descStr [KeyDisplay Xpub PK] (self : CtDescriptorBuilder Id Xpub) : List Char :=
  formatBody self.threshold self.masterBlindingKey (self.values.map (formatKey self.mode))

/-- Build the descriptor, with the library's parser. -/
def build [KeyDisplay Xpub PK] (self : CtDescriptorBuilder Id Xpub)
    (fromStr : List Char → Except String D) : Except CtDescriptorError D :=
  if self.entries.isEmpty then .error .noSigners
  else match fromStr self.descStr with
    | .error e => .error (.descriptor e)
    | .ok desc => .ok desc

end CtDescriptorBuilder

/-- The descriptor in multipath form. -/
def toMultipathString (display : D → List Char) (desc : D) : List Char :=
  let s := display desc
  let body := (Text.splitOnce '#' s).elim s Prod.fst
  Text.replace "/0/*".toList "/<0;1>/*".toList body

/-! ## Adding signers -/

namespace CtDescriptorBuilder

variable [LinearOrder Id] [ToString Id] {b : CtDescriptorBuilder Id Xpub}
  {signer : KeySigner Id Xpub} {signers : List (KeySigner Id Xpub)}

theorem addSigner_snd (b : CtDescriptorBuilder Id Xpub) (signer : KeySigner Id Xpub) :
    (b.addSigner signer).2 = { b with entries := b.entries.insert signer.id signer.entry } := by
  unfold addSigner
  dsimp only
  split <;> rfl

theorem addSigner_ok_iff :
    (b.addSigner signer).1 = .ok () ↔ b.entries[signer.id]? = none := by
  unfold addSigner
  dsimp only
  split
  · next e he =>
      rw [he]
      exact iff_of_false nofun nofun
  · next hnone => exact iff_of_true rfl hnone

/-- The builder after a sequence of calls. -/
def addSigners (b : CtDescriptorBuilder Id Xpub) (signers : List (KeySigner Id Xpub)) :
    CtDescriptorBuilder Id Xpub := signers.foldl (fun b signer => (b.addSigner signer).2) b

/-- The signers whose calls are accepted. -/
def accepted : CtDescriptorBuilder Id Xpub → List (KeySigner Id Xpub) → List (KeySigner Id Xpub)
  | _, [] => []
  | b, signer :: signers =>
      match (b.addSigner signer).1 with
      | .ok _ => signer :: accepted (b.addSigner signer).2 signers
      | .error _ => accepted (b.addSigner signer).2 signers

/-- The calls change the entries only. -/
theorem addSigners_eq (signers : List (KeySigner Id Xpub)) : ∀ b : CtDescriptorBuilder Id Xpub,
    b.addSigners signers = { b with entries := (b.addSigners signers).entries } := by
  induction signers with
  | nil => exact fun b => rfl
  | cons signer signers ih =>
      intro b
      have hrest := ih (b.addSigner signer).2
      rw [addSigner_snd] at hrest
      rw [addSigners, List.foldl_cons, addSigner_snd]
      exact hrest

theorem getElem?_addSigner (id : Id) : (b.addSigner signer).2.entries[id]? =
    if signer.id = id then some signer.entry else b.entries[id]? := by
  rw [addSigner_snd, Std.ExtTreeMap.getElem?_insert]
  simp only [Std.LawfulEqCmp.compare_eq_iff_eq]

theorem accepted_cons (b : CtDescriptorBuilder Id Xpub) (signer : KeySigner Id Xpub)
    (signers : List (KeySigner Id Xpub)) : b.accepted (signer :: signers) =
      if b.entries[signer.id]? = none then signer :: (b.addSigner signer).2.accepted signers
      else (b.addSigner signer).2.accepted signers := by
  rw [accepted]
  cases hres : (b.addSigner signer).1 with
  | ok u => rw [if_pos (addSigner_ok_iff.mp hres)]
  | error e =>
      rw [if_neg]
      intro hnone
      rw [addSigner_ok_iff.mpr hnone] at hres
      cases hres

/-- The accepted signers are among the signers, each under an id that
was free. -/
theorem mem_accepted {s : KeySigner Id Xpub} : ∀ {signers : List (KeySigner Id Xpub)}
    {b : CtDescriptorBuilder Id Xpub}, s ∈ b.accepted signers →
      s ∈ signers ∧ b.entries[s.id]? = none
  | [], _, h => nomatch h
  | signer :: signers, b, h => by
      rw [accepted_cons] at h
      have hlater : s ∈ (b.addSigner signer).2.accepted signers →
          s ∈ signer :: signers ∧ b.entries[s.id]? = none := by
        intro hmem
        obtain ⟨hs, hnone⟩ := mem_accepted hmem
        refine ⟨List.mem_cons_of_mem signer hs, ?_⟩
        rw [getElem?_addSigner] at hnone
        split at hnone
        · cases hnone
        · exact hnone
      split at h
      · next hfree =>
          rcases List.mem_cons.mp h with rfl | hmem
          · exact ⟨List.mem_cons_self .., hfree⟩
          · exact hlater hmem
      · exact hlater h

theorem pairwise_accepted : ∀ {signers : List (KeySigner Id Xpub)}
    {b : CtDescriptorBuilder Id Xpub},
    (b.accepted signers).Pairwise fun s s' => s.id ≠ s'.id
  | [], _ => .nil
  | signer :: signers, b => by
      rw [accepted_cons]
      split
      · refine List.pairwise_cons.mpr ⟨?_, pairwise_accepted⟩
        intro s hs heq
        have hnone := (mem_accepted hs).2
        rw [getElem?_addSigner, if_pos heq] at hnone
        cases hnone
      · exact pairwise_accepted

/-- Every id that was free has an accepted signer. -/
theorem accepted_complete {s : KeySigner Id Xpub} : ∀ {signers : List (KeySigner Id Xpub)}
    {b : CtDescriptorBuilder Id Xpub}, s ∈ signers → b.entries[s.id]? = none →
      ∃ s' ∈ b.accepted signers, s'.id = s.id
  | signer :: signers, b, hs, hnone => by
      rw [accepted_cons]
      by_cases hid : signer.id = s.id
      · rw [if_pos (hid ▸ hnone)]
        exact ⟨signer, List.mem_cons_self .., hid⟩
      · have hs' : s ∈ signers := by
          rcases List.mem_cons.mp hs with rfl | hs
          · exact absurd rfl hid
          · exact hs
        have hnone' : (b.addSigner signer).2.entries[s.id]? = none := by
          rw [getElem?_addSigner, if_neg hid, hnone]
        obtain ⟨s', hmem, heq⟩ := accepted_complete hs' hnone'
        refine ⟨s', ?_, heq⟩
        split
        · exact List.mem_cons_of_mem signer hmem
        · exact hmem

/-! ## Signers with one key each -/

/-- Signers with the same id have the same key. -/
def SameKeys (signers : List (KeySigner Id Xpub)) : Prop :=
  ∀ s ∈ signers, ∀ s' ∈ signers, s.id = s'.id → s.entry = s'.entry

omit [LinearOrder Id] [ToString Id] in
theorem SameKeys.subset {signers' : List (KeySigner Id Xpub)} (h : SameKeys signers)
    (hsub : signers' ⊆ signers) : SameKeys signers' :=
  fun s hs s' hs' => h s (hsub hs) s' (hsub hs')

/-- The entries are the keys of the signers. -/
def Lists (b : CtDescriptorBuilder Id Xpub) (signers : List (KeySigner Id Xpub)) : Prop :=
  ∀ id e, b.entries[id]? = some e ↔ ∃ s ∈ signers, s.id = id ∧ s.entry = e

theorem Lists.addSigner (h : Lists b signers) (hsame : SameKeys (signers ++ [signer])) :
    Lists (b.addSigner signer).2 (signers ++ [signer]) := by
  intro id e
  have hlast : signer ∈ signers ++ [signer] := List.mem_append_right _ (List.mem_singleton.mpr rfl)
  rw [getElem?_addSigner]
  split
  · next hid =>
      constructor
      · intro he
        exact ⟨signer, hlast, hid, Option.some.inj he⟩
      · rintro ⟨s, hs, hid', rfl⟩
        rw [hsame signer hlast s hs (hid.trans hid'.symm)]
  · next hid =>
      rw [h id e]
      constructor
      · rintro ⟨s, hs, hs'⟩
        exact ⟨s, List.mem_append_left _ hs, hs'⟩
      · rintro ⟨s, hs, hid', he⟩
        rcases List.mem_append.mp hs with hs | hs
        · exact ⟨s, hs, hid', he⟩
        · obtain rfl := List.mem_singleton.mp hs
          exact absurd hid' hid

/-- A signer that is refused changes no entry, when it has the key that
is listed under its id. -/
theorem Lists.addSigner_refused (h : Lists b signers) (hsame : SameKeys (signers ++ [signer]))
    {e : CtDescriptorError} (herr : (b.addSigner signer).1 = .error e) :
    (b.addSigner signer).2.entries = b.entries := by
  cases hold : b.entries[signer.id]? with
  | none =>
      rw [addSigner_ok_iff.mpr hold] at herr
      cases herr
  | some old =>
      obtain ⟨s, hs, hid, rfl⟩ := (h signer.id old).mp hold
      have hentry : s.entry = signer.entry :=
        hsame s (List.mem_append_left _ hs) signer
          (List.mem_append_right _ (List.mem_singleton.mpr rfl)) hid
      refine Std.ExtTreeMap.ext_getElem? fun id => ?_
      rw [getElem?_addSigner]
      split
      · next hid' => rw [← hid', hold, hentry]
      · rfl

theorem Lists.addSigners : ∀ {signers prior : List (KeySigner Id Xpub)}
    {b : CtDescriptorBuilder Id Xpub}, Lists b prior → SameKeys (prior ++ signers) →
      Lists (b.addSigners signers) (prior ++ signers)
  | [], prior, _, h, _ => by rwa [List.append_nil]
  | signer :: signers, prior, b, h, hsame => by
      rw [List.append_cons] at hsame ⊢
      have hone := h.addSigner (hsame.subset (List.subset_append_left _ _))
      exact hone.addSigners hsame

omit [ToString Id] in
/-- Two builders that list the same keys have the same entries. -/
theorem Lists.entries_eq {b' : CtDescriptorBuilder Id Xpub} {signers' : List (KeySigner Id Xpub)}
    (h : Lists b signers) (h' : Lists b' signers') (hperm : signers'.Perm signers) :
    b'.entries = b.entries := by
  refine Std.ExtTreeMap.ext_getElem? fun id => ?_
  refine Option.ext fun e => ?_
  rw [h' id e, h id e]
  simp only [hperm.mem_iff]

omit [LinearOrder Id] [ToString Id] in
theorem idEntry_injective :
    Function.Injective fun s : KeySigner Id Xpub => (s.id, s.entry) := by
  rintro ⟨id, fp, path, xpub⟩ ⟨id', fp', path', xpub'⟩ heq
  obtain ⟨hid, hentry⟩ := Prod.mk.injEq .. |>.mp heq
  cases hid
  cases hentry
  rfl

omit [ToString Id] in
/-- The entries in order: the keys of the signers by their ids. -/
theorem Lists.toList_eq (h : Lists b signers) (hids : signers.Pairwise fun s s' => s.id ≠ s'.id) :
    ∃ sorted : List (KeySigner Id Xpub), sorted.Perm signers ∧
      sorted.Pairwise (fun s s' => s.id < s'.id) ∧
      b.entries.toList = sorted.map fun s => (s.id, s.entry) := by
  let sorted := b.entries.toList.map fun e =>
    (⟨e.1, e.2.fingerprint, e.2.derivationPath, e.2.xpub⟩ : KeySigner Id Xpub)
  have hsorted : sorted.Pairwise fun s s' => s.id < s'.id := by
    refine List.pairwise_map.mpr (b.entries.ordered_keys_toList.imp ?_)
    intro e e' hlt
    exact compare_lt_iff_lt.mp hlt
  have hlist : b.entries.toList = sorted.map fun s => (s.id, s.entry) := by
    rw [List.map_map]
    exact (List.map_id _).symm
  refine ⟨sorted, ?_, hsorted, hlist⟩
  have hnodup : sorted.Nodup := hsorted.imp fun hlt heq => absurd (heq ▸ hlt) (lt_irrefl _)
  have hnodup' : signers.Nodup := hids.imp fun hne heq => hne (congrArg KeySigner.id heq)
  refine (List.perm_ext_iff_of_nodup hnodup hnodup').mpr ?_
  intro s
  have hmem : (s.id, s.entry) ∈ b.entries.toList ↔ s ∈ sorted := by
    rw [hlist]
    exact List.mem_map_of_injective idEntry_injective
  rw [← hmem, Std.ExtTreeMap.mem_toList_iff_getElem?_eq_some, h s.id s.entry]
  constructor
  · rintro ⟨s', hs', hid, he⟩
    rwa [← idEntry_injective (Prod.ext hid he)]
  · exact fun hs => ⟨s, hs, rfl, rfl⟩

/-! ## Rejected signers -/

/-- What a sequence of calls is to leave: a call that is refused has
changed no entry, and the descriptor has one key for each id, the one
accepted under it, in the order of the ids and whatever order the
accepted signers were added in. -/
structure KeepsAccepted [KeyDisplay Xpub PK] (b : CtDescriptorBuilder Id Xpub)
    (signers : List (KeySigner Id Xpub)) : Prop where
  rejected : ∀ pre s post e, signers = pre ++ s :: post →
    ((b.addSigners pre).addSigner s).1 = .error e →
      ((b.addSigners pre).addSigner s).2.entries = (b.addSigners pre).entries
  keys : ∃ sorted : List (KeySigner Id Xpub), sorted.Perm (b.accepted signers) ∧
    sorted.Pairwise (fun s s' => s.id < s'.id) ∧
    (∀ s ∈ signers, ∃ s' ∈ sorted, s'.id = s.id) ∧
    (b.addSigners signers).descStr = formatBody b.threshold b.masterBlindingKey
      (sorted.map fun s => formatKey b.mode s.entry)
  anyOrder : ∀ order : List (KeySigner Id Xpub), order.Perm (b.accepted signers) →
    (b.addSigners order).descStr = (b.addSigners signers).descStr

/-- Where no refused call changes an entry, the entry of every signer is
there in the end. -/
theorem getElem?_of_rejected : ∀ {signers : List (KeySigner Id Xpub)},
    (∀ pre s post e, signers = pre ++ s :: post →
      ((b.addSigners pre).addSigner s).1 = .error e →
        ((b.addSigners pre).addSigner s).2.entries = (b.addSigners pre).entries) →
    ∀ s ∈ signers, (b.addSigners signers).entries[s.id]? = some s.entry := by
  intro signers
  induction signers using List.reverseRecOn with
  | nil => exact fun _ s hs => nomatch hs
  | append_singleton signers last ih =>
      intro hrejected s hs
      have hlast : b.addSigners (signers ++ [last]) =
        ((b.addSigners signers).addSigner last).2 := by
        rw [addSigners, List.foldl_append]
        rfl
      have hbefore := ih fun pre s' post e heq =>
        hrejected pre s' (post ++ [last]) e (by rw [heq, List.append_assoc]; rfl)
      rw [hlast]
      rcases List.mem_append.mp hs with hs | hs
      · by_cases hid : last.id = s.id
        · -- the last call was refused, so it changed nothing
          cases hres : ((b.addSigners signers).addSigner last).1 with
          | ok u =>
              have hfree := addSigner_ok_iff.mp hres
              rw [hid, hbefore s hs] at hfree
              cases hfree
          | error e =>
              rw [hrejected signers last [] e rfl hres]
              exact hbefore s hs
        · rw [getElem?_addSigner, if_neg hid]
          exact hbefore s hs
      · obtain rfl := List.mem_singleton.mp hs
        rw [getElem?_addSigner, if_pos rfl]

/-- The calls leave what they are to leave exactly when no id is used
with two keys. -/
theorem keeps_accepted_iff [KeyDisplay Xpub PK] {threshold : Nat} {mbk : List UInt8}
    (hnew : new threshold mbk = .ok b) (mode : CtKeyMode) (signers : List (KeySigner Id Xpub)) :
    KeepsAccepted (b.keyMode mode) signers ↔ SameKeys signers := by
  have hempty : (b.keyMode mode).entries = ∅ := by
    unfold new at hnew
    split at hnew
    · cases hnew
      rfl
    · cases hnew
  generalize b.keyMode mode = b at hempty
  constructor
  · intro h s hs s' hs' hid
    have hentry := getElem?_of_rejected h.rejected s hs
    rw [hid, getElem?_of_rejected h.rejected s' hs'] at hentry
    exact (Option.some.inj hentry).symm
  · intro hsame
    have hnil : Lists b [] := by
      intro id e
      rw [hempty]
      simp
    have hfree : ∀ id : Id, b.entries[id]? = none := by
      intro id
      rw [hempty]
      exact Std.ExtTreeMap.getElem?_empty
    have hlists : Lists (b.addSigners signers) (b.accepted signers) := by
      intro id e
      rw [hnil.addSigners hsame id e, List.nil_append]
      constructor
      · rintro ⟨s, hs, rfl, rfl⟩
        obtain ⟨s', hs', hid⟩ := accepted_complete hs (hfree s.id)
        exact ⟨s', hs', hid, hsame s' (mem_accepted hs').1 s hs hid⟩
      · rintro ⟨s, hs, hs'⟩
        exact ⟨s, (mem_accepted hs).1, hs'⟩
    refine ⟨?_, ?_, ?_⟩
    · rintro pre s post e rfl herr
      have hpre : Lists (b.addSigners pre) pre :=
        hnil.addSigners (hsame.subset (List.subset_append_left _ _))
      have hlast : SameKeys (pre ++ [s]) := by
        rw [List.append_cons] at hsame
        exact hsame.subset (List.subset_append_left _ _)
      exact hpre.addSigner_refused hlast herr
    · obtain ⟨sorted, hperm, hsorted, hlist⟩ := hlists.toList_eq pairwise_accepted
      refine ⟨sorted, hperm, hsorted, ?_, ?_⟩
      · intro s hs
        obtain ⟨s', hs', hid⟩ := accepted_complete hs (hfree s.id)
        exact ⟨s', hperm.mem_iff.mpr hs', hid⟩
      · rw [addSigners_eq, descStr, values, hlist, List.map_map, List.map_map]
        rfl
    · intro order hperm
      have hsub : order ⊆ signers := fun s hs => (mem_accepted (hperm.mem_iff.mp hs)).1
      have horder : Lists (b.addSigners order) order := hnil.addSigners (hsame.subset hsub)
      rw [addSigners_eq order, addSigners_eq signers, hlists.entries_eq horder hperm]

end CtDescriptorBuilder

/-! Keys by number, one of which is added twice under one id. -/

structure SampleKey where
  number : Nat
deriving Repr, DecidableEq

instance : KeyDisplay SampleKey Nat where
  publicKey key := key.number
  publicKeyText number := "02".toList ++ List.replicate number 'a'
  xpubText key := "xpub".toList ++ List.replicate key.number 'A'

def sampleSigner (id number : Nat) : KeySigner Nat SampleKey where
  id := id
  fingerprint := ⟨7⟩
  derivationPath := ⟨[0x80000030#32, 0#32]⟩
  xpub := ⟨number⟩

def sampleBuilder : CtDescriptorBuilder Nat SampleKey :=
  ⟨2, .fixed, List.replicate 32 0xab, rfl, ∅⟩

theorem keeps_accepted_iff_repeated :
    (sampleBuilder.keyMode .ranged).KeepsAccepted
      [sampleSigner 2 5, sampleSigner 1 6, sampleSigner 2 5] := by
  have hnew : CtDescriptorBuilder.new 2 (List.replicate 32 0xab) = .ok sampleBuilder := rfl
  refine (CtDescriptorBuilder.keeps_accepted_iff hnew .ranged _).mpr ?_
  intro s hs s' hs' hid
  simp only [List.mem_cons, List.not_mem_nil, or_false] at hs hs'
  rcases hs with rfl | rfl | rfl <;> rcases hs' with rfl | rfl | rfl <;>
    first
      | rfl
      | cases hid

/-- A second key under an id is refused and takes the first one's
place. -/
theorem refused_key_replaces : ¬∀ (threshold : Nat) (mbk : List UInt8)
    (b : CtDescriptorBuilder Nat SampleKey) (signers : List (KeySigner Nat SampleKey)),
    CtDescriptorBuilder.new threshold mbk = .ok b → b.KeepsAccepted signers := by
  intro hgeneral
  have hkeeps := hgeneral 2 (List.replicate 32 0xab)
    sampleBuilder [sampleSigner 1 5, sampleSigner 1 6]
    rfl
  have hsame := hkeeps.rejected [sampleSigner 1 5] (sampleSigner 1 6) [] _ rfl rfl
  have hentry := congrArg
    (fun entries : Std.ExtTreeMap Nat (KeyEntry SampleKey) => entries[1]?) hsame
  cases hentry

end EmvaultElements
