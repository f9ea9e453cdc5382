import Mathlib.Data.List.Flatten
import Mathlib.Data.Set.Basic

/-!
# Elements data

The parts of the `elements` types that the program reads. A digest
(`BlockHash`, `Txid`) is opaque: a block carries the value `block_hash()`
returns for it and a transaction the value of `txid()`, so nothing is
assumed of the hash function unless a theorem says so. Likewise the
consensus encoding of a block is kept as the block it encodes
(`RawBlock`): it is stored and never read back.
-/

namespace EmvaultElements

structure BlockHash where
  digest : Nat
deriving Repr, DecidableEq

structure Txid where
  digest : Nat
deriving Repr, DecidableEq

/-- An output of a transaction. `vout` is a `u32` in the source. -/
structure OutPoint where
  txid : Txid
  vout : Nat
deriving Repr, DecidableEq

/-- A script, as its bytes. -/
structure Script where
  bytes : List UInt8
deriving Repr, DecidableEq

structure AssetId where
  id : Nat
deriving Repr, DecidableEq

/-- A Pedersen commitment or a blinded generator. -/
structure Commitment where
  point : Nat
deriving Repr, DecidableEq

namespace Confidential

inductive Value where
  | null
  | explicit (sats : Nat)
  | confidential (commitment : Commitment)
deriving Repr, DecidableEq

inductive Asset where
  | null
  | explicit (asset : AssetId)
  | confidential (generator : Commitment)
deriving Repr, DecidableEq

inductive Nonce where
  | null
  | explicit (bytes : List UInt8)
  | confidential (pubkey : Commitment)
deriving Repr, DecidableEq

end Confidential

/-- The proofs that come with a confidential output. -/
structure TxOutWitness where
  surjectionProof : Option (List UInt8)
  rangeproof : Option (List UInt8)
deriving Repr, DecidableEq

structure TxOut where
  asset : Confidential.Asset
  value : Confidential.Value
  nonce : Confidential.Nonce
  scriptPubkey : Script
  witness : TxOutWitness
deriving Repr, DecidableEq

/-- What unblinding an output reveals. -/
structure TxOutSecrets where
  asset : AssetId
  assetBf : Nat
  value : Nat
  valueBf : Nat
deriving Repr, DecidableEq

structure TxIn where
  previousOutput : OutPoint
deriving Repr, DecidableEq

structure Transaction where
  txid : Txid
  input : List TxIn
  output : List TxOut
deriving Repr, DecidableEq

structure Block where
  blockHash : BlockHash
  prevBlockhash : BlockHash
  txdata : List Transaction
deriving Repr, DecidableEq

/-- The consensus encoding of a block. -/
structure RawBlock where
  encoded : Block
deriving Repr, DecidableEq

def serialize (b : Block) : RawBlock := ⟨b⟩

/-! ## What a block spends and creates -/

/-- The outpoints the inputs of a transaction spend. -/
def Transaction.spends (tx : Transaction) : List OutPoint :=
  tx.input.map (·.previousOutput)

/-- The outpoints the outputs of a transaction create. -/
def Transaction.creates (tx : Transaction) : List OutPoint :=
  (List.range tx.output.length).map (OutPoint.mk tx.txid)

def Block.spends (b : Block) : List OutPoint := b.txdata.flatMap Transaction.spends

def Block.creates (b : Block) : List OutPoint := b.txdata.flatMap Transaction.creates

/-- The transactions of a chain, in order. -/
def chainTxs (c : List Block) : List Transaction := c.flatMap (·.txdata)

/-- A valid sequence of transactions: no outpoint is created twice, and
none is spent by its own transaction or before the transaction that
creates it. -/
structure ValidTxs (txs : List Transaction) : Prop where
  created_once : txs.Pairwise fun tx tx' => ∀ o ∈ tx.creates, o ∉ tx'.creates
  spent_after : txs.Pairwise fun tx tx' => ∀ o ∈ tx.spends, o ∉ tx'.creates
  not_own : ∀ tx ∈ txs, ∀ o ∈ tx.spends, o ∉ tx.creates

instance (txs : List Transaction) : Decidable (ValidTxs txs) :=
  decidable_of_iff
    ((txs.Pairwise fun tx tx' => ∀ o ∈ tx.creates, o ∉ tx'.creates) ∧
      (txs.Pairwise fun tx tx' => ∀ o ∈ tx.spends, o ∉ tx'.creates) ∧
      ∀ tx ∈ txs, ∀ o ∈ tx.spends, o ∉ tx.creates)
    ⟨fun h => ⟨h.1, h.2.1, h.2.2⟩, fun h => ⟨h.created_once, h.spent_after, h.not_own⟩⟩

/-- A valid chain of blocks. -/
def ValidChain (c : List Block) : Prop := ValidTxs (chainTxs c)

instance (c : List Block) : Decidable (ValidChain c) :=
  inferInstanceAs (Decidable (ValidTxs (chainTxs c)))

/-- Block hashes identify a chain prefix: two chains of `C` with equal
hashes at some heights agree up to there. -/
def HashesIdentify (C : Set (List Block)) : Prop :=
  ∀ N ∈ C, ∀ N' ∈ C, ∀ i j (b b' : Block), N[i]? = some b → N'[j]? = some b' →
    b.blockHash = b'.blockHash → i = j ∧ N.take (i + 1) = N'.take (j + 1)

/-- Transaction ids identify the outputs of a transaction. -/
def TxidsIdentify (T : Set Transaction) : Prop :=
  ∀ tx ∈ T, ∀ tx' ∈ T, tx.txid = tx'.txid → tx.output = tx'.output

/-- For finitely many chains the comparison can be run. -/
theorem hashesIdentify_of_list {l : List (List Block)}
    (h : ∀ N ∈ l, ∀ N' ∈ l, ∀ i, (hi : i < N.length) → ∀ j, (hj : j < N'.length) →
      N[i].blockHash = N'[j].blockHash → i = j ∧ N.take (i + 1) = N'.take (j + 1)) :
    HashesIdentify {N | N ∈ l} := by
  intro N hc N' hc' i j b b' hb hb' heq
  obtain ⟨hi, rfl⟩ := List.getElem?_eq_some_iff.mp hb
  obtain ⟨hj, rfl⟩ := List.getElem?_eq_some_iff.mp hb'
  exact h N hc N' hc' i hi j hj heq

theorem ValidTxs.sublist {txs txs' : List Transaction} (h : ValidTxs txs)
    (hsub : txs'.Sublist txs) : ValidTxs txs' where
  created_once := List.Pairwise.sublist hsub h.created_once
  spent_after := List.Pairwise.sublist hsub h.spent_after
  not_own tx htx := h.not_own tx (hsub.subset htx)

theorem ValidChain.sublist {c c' : List Block} (h : ValidChain c) (hsub : c'.Sublist c) :
    ValidChain c' := ValidTxs.sublist h (hsub.flatMap _)

theorem ValidChain.block {c : List Block} (h : ValidChain c) {b : Block} (hb : b ∈ c) :
    ValidTxs b.txdata := by
  have := ValidChain.sublist h (List.singleton_sublist.mpr hb)
  simpa [ValidChain, chainTxs] using this

theorem Transaction.mem_creates {tx : Transaction} {vout : Nat} {txout : TxOut}
    (h : tx.output[vout]? = some txout) : OutPoint.mk tx.txid vout ∈ tx.creates :=
  List.mem_map_of_mem (List.mem_range.mpr (List.getElem?_eq_some_iff.mp h).1)

/-! An outpoint is created once. -/

theorem ValidTxs.created_inj {txs : List Transaction} (h : ValidTxs txs) {tx tx' : Transaction}
    {o : OutPoint} (htx : tx ∈ txs) (htx' : tx' ∈ txs) (ho : o ∈ tx.creates)
    (ho' : o ∈ tx'.creates) : tx = tx' := by
  induction txs with
  | nil => cases htx
  | cons tx₀ txs ih =>
      have hfirst := (List.pairwise_cons.mp h.created_once).1
      rcases List.mem_cons.mp htx with rfl | hlater <;>
        rcases List.mem_cons.mp htx' with rfl | hlater'
      · rfl
      · exact absurd ho' (hfirst tx' hlater' o ho)
      · exact absurd ho (hfirst tx hlater o ho')
      · exact ih (h.sublist (List.sublist_cons_self tx₀ txs)) hlater hlater'

/-- Transactions of two blocks are related as the lower to the higher. -/
theorem pairwise_chainTxs {r : Transaction → Transaction → Prop} {N : List Block}
    (hpair : (chainTxs N).Pairwise r) {h i : Nat} (hlt : h < i) {b b' : Block}
    {tx tx' : Transaction} (hb : N[h]? = some b) (hb' : N[i]? = some b') (htx : tx ∈ b.txdata)
    (htx' : tx' ∈ b'.txdata) : r tx tx' := by
  rw [← List.take_append_drop i N, chainTxs, List.flatMap_append] at hpair
  refine (List.pairwise_append.mp hpair).2.2 tx ?_ tx' ?_
  · refine List.mem_flatMap.mpr ⟨b, List.mem_of_getElem? (i := h) ?_, htx⟩
    rw [List.getElem?_take_of_lt hlt, hb]
  · refine List.mem_flatMap.mpr ⟨b', List.mem_of_getElem? (i := 0) ?_, htx'⟩
    rw [List.getElem?_drop, Nat.add_zero, hb']

theorem ValidChain.not_created_later {N : List Block} (hvalid : ValidChain N) {h i : Nat}
    (hlt : h < i) {b b' : Block} {tx tx' : Transaction} {o : OutPoint} (hb : N[h]? = some b)
    (hb' : N[i]? = some b') (htx : tx ∈ b.txdata) (htx' : tx' ∈ b'.txdata) (ho : o ∈ tx.creates) :
    o ∉ tx'.creates :=
  pairwise_chainTxs hvalid.created_once hlt hb hb' htx htx' o ho

/-- What a block spends, no later block creates. -/
theorem ValidChain.created_le_spent {N : List Block} (hvalid : ValidChain N) {h t : Nat}
    {b b' : Block} {o : OutPoint} (hb : N[h]? = some b) (hb' : N[t]? = some b')
    (ho : o ∈ b.creates) (ho' : o ∈ b'.spends) : h ≤ t := by
  by_contra hlt
  obtain ⟨tx, htx, hcreates⟩ := List.mem_flatMap.mp ho
  obtain ⟨tx', htx', hspends⟩ := List.mem_flatMap.mp ho'
  exact pairwise_chainTxs hvalid.spent_after (Nat.not_le.mp hlt) hb' hb htx' htx o hspends hcreates

theorem ValidChain.created_inj {N : List Block} (hvalid : ValidChain N) {h i : Nat} {b b' : Block}
    {tx tx' : Transaction} {o : OutPoint} (hb : N[h]? = some b) (hb' : N[i]? = some b')
    (htx : tx ∈ b.txdata) (htx' : tx' ∈ b'.txdata) (ho : o ∈ tx.creates)
    (ho' : o ∈ tx'.creates) : h = i ∧ tx = tx' := by
  rcases Nat.lt_trichotomy h i with hlt | rfl | hgt
  · exact absurd ho' (hvalid.not_created_later hlt hb hb' htx htx' ho)
  · obtain rfl := Option.some.inj (hb.symm.trans hb')
    exact ⟨rfl, (hvalid.block (List.mem_of_getElem? hb)).created_inj htx htx' ho ho'⟩
  · exact absurd ho (hvalid.not_created_later hgt hb' hb htx' htx ho')

end EmvaultElements
