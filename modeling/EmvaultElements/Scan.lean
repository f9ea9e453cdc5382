import EmvaultElements.Prog
import EmvaultElements.Stores

/-!
# The block-scan engine

`BlockScanEngine::sync` as a program over the calls of its three
traits: `ElementsChainSource`, `BlockStore` and `WalletUtxoStore`. The
source is generic over the traits, and so is the program: who answers
the calls is said in `SyncEnv` and, for a node that moves during the
pass, in `MovingNode`.

Every call is followed by `?` in the source, so an error of a call ends
the pass; that is how programs run. `u32` additions on heights panic on
overflow (`heightSucc`). The local work on one block makes no calls and
is an ordinary function (`scanTxs`).
-/

namespace EmvaultElements

/-! ## The calls -/

/-- Calls to the chain source. -/
inductive ChainOp where
  | tipHeight
  | blockHash (height : Nat)
  | block (hash : BlockHash)
deriving DecidableEq

abbrev ChainOp.Res : ChainOp → Type
  | .tipHeight => Nat
  | .blockHash _ => BlockHash
  | .block _ => Block

/-- Calls to the block store and to the UTXO store. -/
inductive StoreOp where
  | storeBlock (height : Nat) (hash : BlockHash) (raw : RawBlock)
  | syncedTip
  | setSyncedTip (tip : SyncedTip)
  | blockHashAt (height : Nat)
  | blocksRollbackAbove (height : Nat)
  | upsertUtxos (utxos : List CapturedUtxo)
  | markSpent (outpoints : List OutPoint) (spentHeight : Nat)
  | unspentOutpoints
  | utxosRollbackAbove (height : Nat)
deriving DecidableEq

abbrev StoreOp.Res : StoreOp → Type
  | .syncedTip => Option SyncedTip
  | .blockHashAt _ => Option BlockHash
  | .unspentOutpoints => List (OutPoint × WalletId)
  | _ => Unit

inductive SyncOp where
  | chain (op : ChainOp)
  | store (op : StoreOp)
deriving DecidableEq

abbrev SyncOp.Res : SyncOp → Type
  | .chain op => op.Res
  | .store op => op.Res

abbrev SyncProg (α : Type) : Type := Prog SyncOp SyncOp.Res α

def callChain (op : ChainOp) : SyncProg op.Res := Prog.perform (SyncOp.chain op)

def callStore (op : StoreOp) : SyncProg op.Res := Prog.perform (SyncOp.store op)

/-- `h + 1` on a `u32`. -/
def heightSucc (h : Nat) : SyncProg Nat :=
  if h + 1 < UInt32.size then pure (h + 1) else Prog.panic

/-! ## The engine -/

/-- Who owns an indexed script. -/
structure ScriptEntry where
  walletId : WalletId
  chain : Chain
  wildcardIndex : Nat
  wolletIdx : Nat
deriving Repr, DecidableEq

/-- The script index and the registered wollets. The fields are private
in the source and no operation makes an entry point outside `wollets`,
so that is a field here and looking up an entry's wollet is total. -/
structure BlockScanEngine (D : Type) where
  index : Map Script ScriptEntry
  wollets : List (ElementsWollet D)
  indexed : ∀ spk e, index.lookup spk = some e → e.wolletIdx < wollets.length

/-- Summary of one pass. -/
structure SyncSummary where
  blocksScanned : Nat := 0
  utxosCaptured : Nat := 0
  utxosSpent : Nat := 0
  skippedUnblindable : Nat := 0
  reorgTo : Option Nat := none
deriving Repr, DecidableEq

/-- Insert the scripts of one wollet, each replacing an entry it finds. -/
def indexScripts (id : WalletId) (wolletIdx : Nat) (scripts : List (Script × Chain × Nat))
    (index : Map Script ScriptEntry) : Map Script ScriptEntry :=
  scripts.foldl (fun index s => index.insert s.1
    { walletId := id, chain := s.2.1, wildcardIndex := s.2.2, wolletIdx := wolletIdx }) index

/-- The script's entry is the last one inserted for it, if any. -/
theorem lookup_indexScripts (id : WalletId) (wolletIdx : Nat)
    (scripts : List (Script × Chain × Nat)) (index : Map Script ScriptEntry) (spk : Script) :
    (indexScripts id wolletIdx scripts index).lookup spk =
      ((scripts.reverse.find? (·.1 == spk)).map fun s =>
        { walletId := id, chain := s.2.1, wildcardIndex := s.2.2, wolletIdx := wolletIdx }).or
      (index.lookup spk) := by
  induction scripts generalizing index with
  | nil => rfl
  | cons s scripts ih =>
      rw [indexScripts, List.foldl_cons]
      have hrest := ih (index.insert s.1 ⟨id, s.2.1, s.2.2, wolletIdx⟩)
      rw [indexScripts] at hrest
      rw [hrest, List.reverse_cons, List.find?_append, Map.lookup_insert_eq]
      by_cases hs : s.1 = spk
      · cases List.find? (fun x => x.1 == spk) scripts.reverse <;> simp [hs]
      · simp [hs, Ne.symm hs]

namespace BlockScanEngine

variable {D : Type}

/-- A fresh engine with no registered wallets. -/
def new : BlockScanEngine D := ⟨∅, [], fun spk e h => by simp at h⟩

/-- `wollets.push(wollet)`. -/
def push (self : BlockScanEngine D) (wollet : ElementsWollet D) : BlockScanEngine D where
  index := self.index
  wollets := self.wollets ++ [wollet]
  indexed spk e h := by
    have := self.indexed spk e h
    simp only [List.length_append, List.length_singleton]
    omega

/-- The entry of an indexed script, with `wollets[entry.wollet_idx]`. -/
def ownerOf (self : BlockScanEngine D) (spk : Script) : Option (ScriptEntry × ElementsWollet D) :=
  match h : self.index.lookup spk with
  | none => none
  | some entry => some (entry, self.wollets.get ⟨entry.wolletIdx, self.indexed spk entry h⟩)

theorem ownerOf_eq_some {self : BlockScanEngine D} {spk : Script} {entry : ScriptEntry}
    {wollet : ElementsWollet D} : self.ownerOf spk = some (entry, wollet) ↔
      self.index.lookup spk = some entry ∧ self.wollets[entry.wolletIdx]? = some wollet := by
  unfold ownerOf
  split
  · next h => simp [h]
  · next e h =>
      have hlt := self.indexed spk e h
      simp only [Option.some.injEq, Prod.mk.injEq, List.get_eq_getElem]
      constructor
      · rintro ⟨rfl, rfl⟩
        exact ⟨h, List.getElem?_eq_getElem hlt⟩
      · rintro ⟨hentry, hw⟩
        obtain rfl := Option.some.inj (h.symm.trans hentry)
        rw [List.getElem?_eq_getElem hlt] at hw
        exact ⟨rfl, Option.some.inj hw⟩

theorem ownerOf_eq_none {self : BlockScanEngine D} {spk : Script} :
    self.ownerOf spk = none ↔ self.index.lookup spk = none := by
  unfold ownerOf
  split
  · next h => simp [h]
  · next e h => simp [h]

variable [LwkDescriptor D]

/-- Register a wallet, or one federation version of it, and index its
scripts. The wollet is pushed before its scripts are derived. -/
def registerWallet (self : BlockScanEngine D) (id : WalletId) (wollet : ElementsWollet D)
    (gap : Nat) : Except SyncError Unit × BlockScanEngine D :=
  let wolletIdx := self.wollets.length
  let pushed := self.push wollet
  match wollet.watchedScripts gap with
  | .error e => (.error (.wollet e), pushed)
  | .ok scripts =>
      (.ok (), {
        index := indexScripts id wolletIdx scripts pushed.index
        wollets := pushed.wollets
        indexed := fun spk e h => by
          rw [lookup_indexScripts, Option.or_eq_some_iff] at h
          rcases h with h | ⟨-, h⟩
          · obtain ⟨s, -, rfl⟩ := Option.map_eq_some_iff.mp h
            simp [pushed, push, wolletIdx]
          · exact pushed.indexed spk e h })

/-! ## The local work on one block -/

/-- The locals of the scan of one block. -/
structure BlockScan where
  spendIndex : Map OutPoint WalletId
  captured : List CapturedUtxo
  spent : List OutPoint
  skippedUnblindable : Nat

/-- Detect a spend of one of our known outputs. -/
def scanInput (st : BlockScan) (input : TxIn) : BlockScan :=
  let prevout := input.previousOutput
  if prevout ∈ st.spendIndex then
    { st with spendIndex := st.spendIndex.erase prevout, spent := st.spent ++ [prevout] }
  else st

/-- Match an output against the script index. A watched output that
does not unblind is counted and skipped. -/
def scanOutput (self : BlockScanEngine D) (h : Nat) (txid : Txid) (st : BlockScan)
    (out : TxOut × Nat) : BlockScan :=
  let (txout, vout) := out
  match self.ownerOf txout.scriptPubkey with
  | none => st
  | some (entry, wollet) =>
    match wollet.unblind txout with
    | .error _ => { st with skippedUnblindable := st.skippedUnblindable + 1 }
    | .ok secrets =>
        let outpoint : OutPoint := { txid, vout }
        { st with
          captured := st.captured ++ [{
            walletId := entry.walletId, outpoint, txout, secrets, chain := entry.chain
            wildcardIndex := entry.wildcardIndex, height := h, isSpent := false }]
          spendIndex := st.spendIndex.insert outpoint entry.walletId }

/-- The inputs of a transaction, then its outputs. -/
def scanTx (self : BlockScanEngine D) (h : Nat) (st : BlockScan) (tx : Transaction) : BlockScan :=
  tx.output.zipIdx.foldl (self.scanOutput h tx.txid) (tx.input.foldl scanInput st)

def scanTxs (self : BlockScanEngine D) (h : Nat) (txs : List Transaction)
    (spendIndex : Map OutPoint WalletId) : BlockScan :=
  txs.foldl (self.scanTx h) { spendIndex, captured := [], spent := [], skippedUnblindable := 0 }

/-- The summary after one more block. -/
def addBlock (summary : SyncSummary) (scan : BlockScan) : SyncSummary :=
  { summary with
    blocksScanned := summary.blocksScanned + 1
    utxosCaptured := summary.utxosCaptured + scan.captured.length
    utxosSpent := summary.utxosSpent + scan.spent.length
    skippedUnblindable := summary.skippedUnblindable + scan.skippedUnblindable }

/-! ## The pass -/

/-- Whether a block is stored at `h` and the node has the same there. -/
def sameHashAt (h : Nat) : SyncProg Bool := do
  match ← callStore (.blockHashAt h) with
  | some stored => return decide (stored = (← callChain (.blockHash h)))
  | none => return false

/-- Walk back from a height to the highest one where the node's block
hash matches the stored one. Height `0` is the answer either way. -/
def findCommonAncestor : Nat → SyncProg Nat
  | 0 => do
      if ← sameHashAt 0 then return 0
      return 0
  | h + 1 => do
      if ← sameHashAt (h + 1) then return h + 1
      findCommonAncestor h

/-- Determine the start height, handling reorgs. -/
def startHeight : SyncProg (Nat × SyncSummary) := do
  match ← callStore .syncedTip with
  | none => return (0, {})
  | some t =>
      if (← callChain (.blockHash t.height)) = t.hash then
        return (← heightSucc t.height, {})
      else
        let ancestor ← findCommonAncestor t.height
        callStore (.blocksRollbackAbove ancestor)
        callStore (.utxosRollbackAbove ancestor)
        return (← heightSucc ancestor, { reorgTo := some ancestor })

/-- Fetch, store and scan the block at one height. -/
def scanBlock (self : BlockScanEngine D) (h : Nat) (st : Map OutPoint WalletId × SyncSummary) :
    SyncProg (Map OutPoint WalletId × SyncSummary) := do
  let hash ← callChain (.blockHash h)
  let block ← callChain (.block hash)
  callStore (.storeBlock h hash (serialize block))
  let scan := self.scanTxs h block.txdata st.1
  if scan.captured ≠ [] then
    callStore (.upsertUtxos scan.captured)
  if scan.spent ≠ [] then
    callStore (.markSpent scan.spent h)
  return (scan.spendIndex, addBlock st.2 scan)

def scanBlocks (self : BlockScanEngine D) :
    List Nat → Map OutPoint WalletId × SyncSummary → SyncProg (Map OutPoint WalletId × SyncSummary)
  | [], st => return st
  | h :: hs, st => do
      let st ← self.scanBlock h st
      self.scanBlocks hs st

/-- Run one sync pass: detect reorgs, then scan, store and attribute
every block up to the chain tip. -/
def sync (self : BlockScanEngine D) : SyncProg SyncSummary := do
  let tip ← callChain .tipHeight
  let (start, summary) ← startHeight
  let tipSucc ← heightSucc tip
  let start := if tipSucc < start then tipSucc else start
  let spendIndex := Map.collect (← callStore .unspentOutpoints)
  let (_, summary) ← self.scanBlocks (List.range' start (tipSucc - start)) (spendIndex, summary)
  if start ≤ tipSucc then
    let tipHash ← callChain (.blockHash tip)
    callStore (.setSyncedTip { height := tip, hash := tipHash })
  return summary

end BlockScanEngine

end EmvaultElements
