import EmvaultElements.Memo
import EmvaultElements.Prog
import EmvaultElements.Pset
import EmvaultElements.Stores

/-!
# Spend construction

From captured UTXOs to a blinded PSET: LWK builds and blinds the
transaction, and every input is then enriched from the descriptor of the
wollet that owns it. What LWK and the miniscript library compute is a
parameter.

One wollet's UTXOs are prepared by `prepareInputs`. A migration spends
the UTXOs of many wollets, and its loop (`migrationInputs`) keeps the
single-path forms of each descriptor under the descriptor's text.
-/

namespace EmvaultElements

/-- Errors from spend construction. -/
inductive SpendError (Id : Type) where
  | build (msg : String)
  | descriptor (msg : String)
  | enrich (msg : String)
  | unblind (msg : String)
  | pset (e : PsetError Id)
deriving Repr, DecidableEq

/-- Capture an output that is not confirmed yet, as received at an index
of the external chain. -/
def capturedFromOutput {D : Type} [LwkDescriptor D] (Id : Type) (wollet : ElementsWollet D)
    (txid : Txid) (vout : Nat) (txout : TxOut) (walletId : WalletId) (wildcardIndex : Nat) :
    Except (SpendError Id) CapturedUtxo := do
  let secrets ← (wollet.unblind txout).mapError fun e => .unblind e.toText
  pure {
    walletId, outpoint := { txid, vout }, txout, secrets, chain := .external, wildcardIndex
    height := 0, isSpent := false }

/-! ## What the descriptor libraries compute -/

/-- A wollet's descriptor: how it is displayed, and the miniscript
descriptor in it. -/
class WolletDescriptor (D : Type) (M : outParam Type) where
  toText : D → String
  descriptor : D → Except String M

/-- A miniscript descriptor: its single-path forms, and the one at a
derivation index. -/
class MultipathDescriptor (M : Type) (Definite : outParam Type) where
  intoSingleDescriptors : M → Except String (List M)
  atDerivationIndex : M → Nat → Except String Definite

class DefiniteDescriptor (Definite : Type) where
  maxWeightToSatisfy : Definite → Except String Nat

/-- The extension trait that writes a descriptor's data into an input. -/
class PsbtExt (PK Definite : Type) where
  updateInputWithDescriptor : Pset PK → Nat → Definite → Except String (Pset PK)

/-- The place of a keychain among the single-path forms. -/
def Chain.toIdx : Chain → Nat
  | .external => 0
  | .internal => 1

/-! ## Preparing inputs -/

structure ExternalUtxo where
  outpoint : OutPoint
  txout : TxOut
  tx : Option Transaction
  unblinded : TxOutSecrets
  maxWeightToSatisfy : Nat
deriving Repr, DecidableEq

/-- The inputs for the builder, and the descriptor of each outpoint. -/
structure Prepared (Definite : Type) where
  external : List ExternalUtxo
  enrich : Map OutPoint Definite

def Prepared.empty {Definite : Type} : Prepared Definite := ⟨[], ∅⟩

/-- One more input, with its descriptor. -/
def Prepared.push {Definite : Type} (p : Prepared Definite) (input : ExternalUtxo × Definite) :
    Prepared Definite where
  external := p.external ++ [input.1]
  enrich := p.enrich.insert input.1.outpoint input.2

section

variable (Id : Type) {D M Definite : Type} [WolletDescriptor D M] [MultipathDescriptor M Definite]
  [DefiniteDescriptor Definite]

/-- A wollet's multipath descriptor, split into its external and its
internal form. -/
def singlesOf (wollet : ElementsWollet D) : Except (SpendError Id) (List M) := do
  let descriptor ← (WolletDescriptor.descriptor wollet.descriptor).mapError .descriptor
  (MultipathDescriptor.intoSingleDescriptors descriptor).mapError .descriptor

/-- The satisfaction weight, at index zero of the first form. -/
def maxWeightOf (singles : List M) : Except (SpendError Id) Nat :=
  match singles.head? with
  | none => .error (.descriptor "descriptor has no chains")
  | some single => do
      let definite ← (MultipathDescriptor.atDerivationIndex single 0).mapError .descriptor
      (DefiniteDescriptor.maxWeightToSatisfy definite).mapError .descriptor

def externalUtxo (u : CapturedUtxo) (maxWeight : Nat) : ExternalUtxo where
  outpoint := u.outpoint
  txout := u.txout
  tx := none
  unblinded := u.secrets
  maxWeightToSatisfy := maxWeight

/-- The definite descriptor for a chain and index. -/
def definiteAt (singles : List M) (chain index : Nat) : Except (SpendError Id) Definite :=
  match singles[chain]? with
  | none => .error (.descriptor "missing chain descriptor")
  | some single => (MultipathDescriptor.atDerivationIndex single index).mapError .descriptor

/-- The inputs of one wollet, all of one weight. -/
def prepareInputs (utxos : List CapturedUtxo) (singles : List M) :
    Except (SpendError Id) (Prepared Definite) := do
  let maxWeight ← maxWeightOf Id singles
  utxos.foldlM (fun prepared u =>
    (definiteAt Id singles u.chain.toIdx u.wildcardIndex).map fun definite =>
      prepared.push (externalUtxo u maxWeight, definite)) .empty

/-- One round of the migration loop, on the cache and on what is
prepared so far. The cache holds the key once it has been fetched, so
indexing it does not panic. -/
def migrationInput (acc : Map String (List M) × Prepared Definite)
    (input : CapturedUtxo × ElementsWollet D) :
    Except (SpendError Id) (Map String (List M) × Prepared Definite) := do
  let (utxo, owner) := input
  let key := WolletDescriptor.toText owner.descriptor
  let (singlesCache, singles) ← Memo.fetch acc.1 key (singlesOf Id owner)
  let maxWeight ← maxWeightOf Id singles
  let definite ← definiteAt Id singles utxo.chain.toIdx utxo.wildcardIndex
  pure (singlesCache, acc.2.push (externalUtxo utxo maxWeight, definite))

/-- The inputs of a migration, each with the wollet that owns it. -/
def migrationInputs (inputs : List (CapturedUtxo × ElementsWollet D)) :
    Except (SpendError Id) (Prepared Definite) :=
  (inputs.foldlM (migrationInput Id) (∅, .empty)).map Prod.snd

end

/-! ## Enriching the inputs of a PSET -/

section

variable {Id PK Definite : Type} [PsbtExt PK Definite]

/-- Enrich the inputs at some positions, those that have a descriptor.
Indexing panics where there is no input. -/
def enrichInputs (enrich : Map OutPoint Definite) :
    List Nat → Pset PK → Outcome (SpendError Id) (Pset PK)
  | [], pset => .ok pset
  | idx :: rest, pset =>
      match pset.inputs[idx]? with
      | none => .panic
      | some input =>
          match enrich.lookup input.previousOutput with
          | none => enrichInputs enrich rest pset
          | some definite =>
              match PsbtExt.updateInputWithDescriptor pset idx definite with
              | .error msg => .err (.enrich msg)
              | .ok pset => enrichInputs enrich rest pset

/-- Enrich every input of a PSET, and wrap it as a blinded one. -/
def finishBlinded (pset : Pset PK) (enrich : Map OutPoint Definite) :
    Outcome (SpendError Id) (BlindedPset PK) :=
  match enrichInputs enrich (List.range pset.inputs.length) pset with
  | .panic => .panic
  | .err e => .err e
  | .ok pset =>
      match BlindedPset.new pset with
      | .error e => .err (.pset e)
      | .ok blinded => .ok blinded

end

/-! ## The builders -/

/-- LWK's transaction builder, a state `B` that is configured and then
finished for a wollet. -/
structure TxBuilder (D PK B Rate : Type) where
  new : ElementsNetwork → B
  addExternalUtxos : B → List ExternalUtxo → Except String B
  addLbtcRecipient : B → Address → Nat → Except String B
  drainLbtcWallet : B → B
  drainLbtcTo : B → Address → B
  feeRate : B → Option Rate → B
  finish : B → ElementsWollet D → Except String (Pset PK)

section

variable {Id PK D M Definite B Rate : Type} [WolletDescriptor D M]
  [MultipathDescriptor M Definite] [DefiniteDescriptor Definite] [PsbtExt PK Definite]
  (lwk : TxBuilder D PK B Rate)

/-- What the builder made of the inputs, enriched. -/
def finishBuilt (prepared : Prepared Definite) (built : Except (SpendError Id) (Pset PK)) :
    Outcome (SpendError Id) (BlindedPset PK) :=
  match built with
  | .error e => .err e
  | .ok pset => finishBlinded pset prepared.enrich

/-- Pay an amount to a recipient, with change to the wollet. -/
def buildSpendPset (wollet : ElementsWollet D) (utxos : List CapturedUtxo) (recipient : Address)
    (amountSat : Nat) (feeRate : Rate) : Outcome (SpendError Id) (BlindedPset PK) :=
  match singlesOf Id wollet >>= prepareInputs Id utxos with
  | .error e => .err e
  | .ok prepared => finishBuilt prepared do
      let builder ← (lwk.addExternalUtxos (lwk.new wollet.network)
        prepared.external).mapError .build
      let builder ← (lwk.addLbtcRecipient builder recipient amountSat).mapError .build
      (lwk.finish (lwk.feeRate builder (some feeRate)) wollet).mapError .build

/-- Pay everything to a recipient. -/
def buildSweepPset (wollet : ElementsWollet D) (utxos : List CapturedUtxo) (recipient : Address)
    (feeRate : Rate) : Outcome (SpendError Id) (BlindedPset PK) :=
  match singlesOf Id wollet >>= prepareInputs Id utxos with
  | .error e => .err e
  | .ok prepared => finishBuilt prepared do
      let builder ← (lwk.addExternalUtxos (lwk.new wollet.network)
        prepared.external).mapError .build
      let builder := lwk.drainLbtcTo (lwk.drainLbtcWallet builder) recipient
      (lwk.finish (lwk.feeRate builder (some feeRate)) wollet).mapError .build

/-- Pay the customers their amounts and the rest, less the fee, to the
fee account. -/
def buildMigrationPset (feeWollet : ElementsWollet D)
    (inputs : List (CapturedUtxo × ElementsWollet D)) (customerRecipients : List (Address × Nat))
    (feeAccountDest : Address) (feeRate : Rate) : Outcome (SpendError Id) (BlindedPset PK) :=
  match migrationInputs Id inputs with
  | .error e => .err e
  | .ok prepared => finishBuilt prepared do
      let builder ←
        (lwk.addExternalUtxos (lwk.new feeWollet.network) prepared.external).mapError .build
      let builder ← customerRecipients.foldlM
        (fun builder r => (lwk.addLbtcRecipient builder r.1 r.2).mapError .build) builder
      let builder := lwk.drainLbtcTo (lwk.drainLbtcWallet builder) feeAccountDest
      (lwk.finish (lwk.feeRate builder (some feeRate)) feeWollet).mapError .build

end

end EmvaultElements
