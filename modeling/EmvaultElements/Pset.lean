import EmvaultElements.Elements
import EmvaultElements.Map

/-!
# PSETs

A partially signed Elements transaction as far as the pipeline reads and
writes it: `Pset` over a type `PK` of public keys, the newtype
`BlindedPset`, the errors of the pipeline over a type `Id` of signer
ids, and the pre-signing gate `validateBlinding`.

What the `elements` and `bitcoin` crates do is a parameter
(`ElementsLib`).
-/

namespace EmvaultElements

/-- The fingerprint of a master key. -/
structure Fingerprint where
  bytes : BitVec 32
deriving Repr, DecidableEq

structure DerivationPath where
  children : List (BitVec 32)
deriving Repr, DecidableEq

structure PsbtSighashType where
  inner : BitVec 32
deriving Repr, DecidableEq

/-- Errors from PSET pipeline operations. -/
inductive PsetError (Id : Type) where
  | signerBackend (msg : String)
  | elements (msg : String)
  | unexpectedSignatures (found : Nat)
  | notBlinded
  | insufficientSignatures (have_ need : Nat)
  | finalizationFailed (msg : String)
  | blindingFailed (msg : String)
  | unknownSigner (id : Id)
  | invalidSignature (id : Id) (msg : String)
deriving Repr, DecidableEq

/-- An input. Its maps are keyed by public key. -/
structure PsetInput (PK : Type) where
  previousOutput : OutPoint
  witnessUtxo : Option TxOut
  partialSigs : Map PK (List UInt8)
  sighashType : Option PsbtSighashType
  redeemScript : Option Script
  witnessScript : Option Script
  bip32Derivation : Map PK (Fingerprint × DerivationPath)
  finalScriptWitness : Option (List (List UInt8))

/-- The signature under a key. -/
def PsetInput.getSig {PK : Type} [DecidableEq PK] (input : PsetInput PK) (pk : PK) :
    Option (List UInt8) := input.partialSigs.lookup pk

/-- An output, explicit or committed to. -/
structure PsetOutput where
  scriptPubkey : Script
  amount : Option Nat
  amountComm : Option Commitment
  asset : Option AssetId
  assetComm : Option Commitment
  valueRangeproof : Option (List UInt8)
  assetSurjectionProof : Option (List UInt8)
  blinderIndex : Option Nat
deriving Repr, DecidableEq

structure Pset (PK : Type) where
  inputs : List (PsetInput PK)
  outputs : List PsetOutput

/-- An instruction of a script: data pushed, or another opcode. -/
inductive Instruction where
  | pushBytes (data : List UInt8)
  | op (opcode : UInt8)
deriving Repr, DecidableEq

/-- What the pipeline calls in the `elements` and `bitcoin` crates:
`Script::instructions`, `PublicKey::from_slice` and `Pset::extract_tx`. -/
class ElementsLib (PK : Type) where
  instructions : Script → List (Except String Instruction)
  fromSlice : List UInt8 → Except String PK
  extractTx : Pset PK → Except String Transaction

/-! ## Blinding -/

/-- A PSET whose outputs have been blinded: at least one carries a range
proof. -/
structure BlindedPset (PK : Type) where
  pset : Pset PK
  blinded : pset.outputs.any (·.valueRangeproof.isSome) = true

variable {PK Id : Type}

/-- Wrap a PSET that has already been blinded. -/
def BlindedPset.new (pset : Pset PK) : Except (PsetError Id) (BlindedPset PK) :=
  if h : pset.outputs.any (·.valueRangeproof.isSome) = true then .ok ⟨pset, h⟩
  else .error .notBlinded

/-- The checks on one output; a fee output is not checked. -/
def validateOutput (numInputs idx : Nat) (output : PsetOutput) : Except (PsetError Id) Unit :=
  if output.scriptPubkey.bytes.isEmpty then .ok ()
  else if output.valueRangeproof.isNone then
    .error (.blindingFailed ("output " ++ toString idx ++ " missing range proof"))
  else if output.assetSurjectionProof.isNone then
    .error (.blindingFailed ("output " ++ toString idx ++ " missing surjection proof"))
  else match output.blinderIndex with
    | some blinderIdx =>
        if numInputs ≤ blinderIdx then
          .error (.blindingFailed ("output " ++ toString idx ++ " blinder_index " ++
            toString blinderIdx ++ " exceeds input count " ++ toString numInputs))
        else .ok ()
    | none => .ok ()

/-- The outputs are checked in order, up to the first that fails. -/
def validateBlindingRaw (pset : Pset PK) : Except (PsetError Id) Unit :=
  pset.outputs.zipIdx.forM fun o => validateOutput pset.inputs.length o.2 o.1

def validateBlinding (pset : BlindedPset PK) : Except (PsetError Id) Unit :=
  validateBlindingRaw pset.pset

end EmvaultElements
