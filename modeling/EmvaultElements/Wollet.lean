import EmvaultElements.Elements
import EmvaultElements.Error

/-!
# The client-side wallet

`ElementsWollet` as far as block scanning uses it: the scripts it
watches and the outputs it can unblind. Both come from LWK, of which
only the interface is modelled (`LwkDescriptor`): a descriptor type `D`
with three functions about which nothing is assumed.
-/

namespace EmvaultElements

/-- LWK's keychain of a script: receive addresses or change. -/
inductive Chain where
  | external
  | internal
deriving Repr, DecidableEq

/-- The parameters of an address encoding. -/
inductive AddressParams where
  | liquid
  | liquidTestnet
  | elements
deriving Repr, DecidableEq

inductive ElementsNetwork where
  | liquid
  | liquidTestnet
  | elementsRegtest
deriving Repr, DecidableEq

def ElementsNetwork.addressParams : ElementsNetwork → AddressParams
  | .liquid => .liquid
  | .liquidTestnet => .liquidTestnet
  | .elementsRegtest => .elements

/-- A derived address, of which only the script is used here. -/
structure Address where
  scriptPubkey : Script
deriving Repr, DecidableEq

/-- What LWK computes from a parsed descriptor: the address at an index
of the external chain (`address`) and of the internal one (`change`),
and the secrets of an output blinded to the descriptor. -/
class LwkDescriptor (D : Type) where
  address : D → Nat → AddressParams → Except String Address
  change : D → Nat → AddressParams → Except String Address
  tryUnblind : TxOut → D → Except String TxOutSecrets

structure ElementsWollet (D : Type) where
  descriptor : D
  network : ElementsNetwork

namespace ElementsWollet

variable {D : Type} [LwkDescriptor D]

/-- The address for a chain and index. -/
def address (w : ElementsWollet D) (chain : Chain) (index : Nat) : Except WolletError Address :=
  let params := w.network.addressParams
  let res := match chain with
    | .external => LwkDescriptor.address w.descriptor index params
    | .internal => LwkDescriptor.change w.descriptor index params
  res.mapError .addressDerivation

/-- The watched script pubkeys: external and internal chain, indices
`0..gap`. -/
def watchedScripts (w : ElementsWollet D) (gap : Nat) :
    Except WolletError (List (Script × Chain × Nat)) :=
  let params := w.network.addressParams
  (List.range gap).foldlM (fun out i => do
    let ext ← (LwkDescriptor.address w.descriptor i params).mapError .addressDerivation
    let out := out ++ [(ext.scriptPubkey, .external, i)]
    let int ← (LwkDescriptor.change w.descriptor i params).mapError .addressDerivation
    pure (out ++ [(int.scriptPubkey, .internal, i)])) []

/-- Recover the secrets of an output. -/
def unblind (w : ElementsWollet D) (txout : TxOut) : Except WolletError TxOutSecrets :=
  (LwkDescriptor.tryUnblind txout w.descriptor).mapError .unblind

end ElementsWollet

/-! ## A descriptor to compute with -/

/-- A descriptor that spells its scripts out: account, keychain, index.
It unblinds the outputs whose nonce names its blinding key. -/
structure PlainDescriptor where
  account : UInt8
  blindingKey : UInt8
deriving Repr, DecidableEq

def PlainDescriptor.script (d : PlainDescriptor) (chain : Chain) (index : Nat) : Script :=
  ⟨[d.account, if chain = .external then 0 else 1, UInt8.ofNat index]⟩

instance : LwkDescriptor PlainDescriptor where
  address d index _ := .ok ⟨d.script .external index⟩
  change d index _ := .ok ⟨d.script .internal index⟩
  tryUnblind txout d :=
    match txout.nonce, txout.asset, txout.value with
    | .explicit [key], .explicit asset, .explicit value =>
        if key = d.blindingKey then .ok { asset, assetBf := 0, value, valueBf := 0 }
        else .error "rewind failed"
    | _, _, _ => .error "not confidential"

end EmvaultElements
