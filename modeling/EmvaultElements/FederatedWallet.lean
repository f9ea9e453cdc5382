import EmvaultElements.Coordinator
import EmvaultElements.Wollet

/-!
# The federated wallet

`ElementsFederatedWallet` keeps one version for each federation the
wallet has had. A wallet is never changed: `withFederation` returns a
longer one, or an error and no wallet.

The versions are numbered in order whatever the calls
(`versions_afterCalls`). That they are all on the wallet's network
rests on the first one: the constructor checks that its federation is
on an Elements network, but does not compare it with the network it is
given, and every later federation is compared with the latter
(`one_network_iff`).
-/

namespace EmvaultElements

/-! ## Networks -/

/-- The id of an Elements network, as core carries it. -/
inductive ElementsNetworkId where
  | liquid
  | liquidTestnet
  | elementsRegtest
deriving Repr, DecidableEq

/-- Core's networks, Elements or not. -/
class CoreNetwork (N : Type) where
  elements : ElementsNetworkId → N
  isElements : N → Bool

def ElementsNetwork.toCoreId : ElementsNetwork → ElementsNetworkId
  | .liquid => .liquid
  | .liquidTestnet => .liquidTestnet
  | .elementsRegtest => .elementsRegtest

variable {N Id D : Type} [CoreNetwork N]

def ElementsNetwork.toNetworkType (n : ElementsNetwork) : N := CoreNetwork.elements n.toCoreId

/-! ## The wallet -/

/-- A federation, with the network it is on. -/
structure NetworkFederation (N Id : Type) extends Federation Id where
  network : N

/-- The wollet of one federation version: its descriptor and its SLIP-77
blinding key. -/
structure ElementsWalletHandle (D : Type) where
  ctDescriptor : D
  blindingKey : BitVec 256

/-- One version of the wallet. -/
structure FederationWallet (N Id D : Type) where
  federation : NetworkFederation N Id
  wallet : ElementsWalletHandle D
  index : Nat

inductive FederatedWalletError (N : Type) where
  | nonElementsNetwork
  | networkMismatch (existing incoming : N)
deriving DecidableEq

structure ElementsFederatedWallet (N Id D : Type) where
  federationWallets : List (FederationWallet N Id D)
  network : ElementsNetwork

namespace ElementsFederatedWallet

/-- A wallet with its first federation. -/
def new (federation : NetworkFederation N Id) (handle : ElementsWalletHandle D)
    (network : ElementsNetwork) :
    Except (FederatedWalletError N) (ElementsFederatedWallet N Id D) :=
  if !CoreNetwork.isElements federation.network then .error .nonElementsNetwork
  else .ok { federationWallets := [{ federation, wallet := handle, index := 0 }], network }

/-- The wallet with one more federation. -/
def withFederation [DecidableEq N] (self : ElementsFederatedWallet N Id D)
    (federation : NetworkFederation N Id) (handle : ElementsWalletHandle D) :
    Except (FederatedWalletError N) (ElementsFederatedWallet N Id D) :=
  if !CoreNetwork.isElements federation.network then .error .nonElementsNetwork
  else
    let incomingNetwork : N := self.network.toNetworkType
    if federation.network ≠ incomingNetwork then
      .error (.networkMismatch incomingNetwork federation.network)
    else
      let newIndex := self.federationWallets.length
      .ok {
        federationWallets := self.federationWallets ++
          [{ federation, wallet := handle, index := newIndex }]
        network := self.network }

/-- The latest version, with a panic when there is none. -/
def current (self : ElementsFederatedWallet N Id D) : Option (FederationWallet N Id D) :=
  self.federationWallets.getLast?

/-- The version with an index. -/
def versionAt (self : ElementsFederatedWallet N Id D) (index : Nat) :
    Option (FederationWallet N Id D) :=
  self.federationWallets[index]?

def federationCount (self : ElementsFederatedWallet N Id D) : Nat := self.federationWallets.length

/-- The network, in core's terms. -/
def networkType (self : ElementsFederatedWallet N Id D) : N := self.network.toNetworkType

variable [DecidableEq N]

theorem withFederation_eq_ok {w w' : ElementsFederatedWallet N Id D}
    {federation : NetworkFederation N Id} {handle : ElementsWalletHandle D} :
    w.withFederation federation handle = .ok w' ↔
      CoreNetwork.isElements federation.network = true ∧ federation.network = w.networkType ∧
        w' = { w with federationWallets :=
          w.federationWallets ++ [⟨federation, handle, w.federationCount⟩] } := by
  unfold withFederation
  split
  · next hno =>
      simp only [reduceCtorEq, false_iff, not_and]
      intro hyes
      rw [hyes] at hno
      cases hno
  · next hyes =>
      have hyes : CoreNetwork.isElements federation.network = true := by simpa using hyes
      dsimp only
      split
      · next hne =>
          simp only [reduceCtorEq, false_iff, not_and]
          exact fun _ heq => absurd heq hne
      · next heq =>
          have heq : federation.network = w.networkType := Decidable.of_not_not heq
          simp only [Except.ok.injEq]
          constructor
          · rintro rfl
            exact ⟨hyes, heq, rfl⟩
          · rintro ⟨-, -, rfl⟩
            rfl

/-! ## Histories -/

/-- One `with_federation` call; if it fails, the wallet stays in use. -/
def afterCall (w : ElementsFederatedWallet N Id D)
    (call : NetworkFederation N Id × ElementsWalletHandle D) : ElementsFederatedWallet N Id D :=
  match w.withFederation call.1 call.2 with
  | .ok w' => w'
  | .error _ => w

def afterCalls (w : ElementsFederatedWallet N Id D)
    (calls : List (NetworkFederation N Id × ElementsWalletHandle D)) :
    ElementsFederatedWallet N Id D := calls.foldl afterCall w

/-- A call leaves the wallet, or adds one version on the wallet's
network. -/
theorem afterCall_cases (w : ElementsFederatedWallet N Id D)
    (call : NetworkFederation N Id × ElementsWalletHandle D) :
    w.afterCall call = w ∨ (call.1.network = w.networkType ∧ w.afterCall call =
      { w with federationWallets :=
        w.federationWallets ++ [⟨call.1, call.2, w.federationCount⟩] }) := by
  unfold afterCall
  cases hcall : w.withFederation call.1 call.2 with
  | error e => exact .inl rfl
  | ok w' =>
      obtain ⟨-, hnet, rfl⟩ := withFederation_eq_ok.mp hcall
      exact .inr ⟨hnet, rfl⟩

theorem network_afterCalls (w : ElementsFederatedWallet N Id D)
    (calls : List (NetworkFederation N Id × ElementsWalletHandle D)) :
    (w.afterCalls calls).network = w.network := by
  induction calls generalizing w with
  | nil => rfl
  | cons call calls ih =>
      have hone : (w.afterCall call).network = w.network := by
        rcases afterCall_cases w call with hsame | ⟨-, hnew⟩
        · rw [hsame]
        · rw [hnew]
      exact (ih (w.afterCall call)).trans hone

/-- The versions are numbered from zero, there is one to be current, and
a call that succeeds adds one. -/
structure Versions (w : ElementsFederatedWallet N Id D) : Prop where
  nonempty : w.federationWallets ≠ []
  index : ∀ i v, w.versionAt i = some v → v.index = i
  current : ∃ v, w.current = some v ∧ v.index + 1 = w.federationCount
  grows : ∀ federation handle w', w.withFederation federation handle = .ok w' →
    w'.federationWallets = w.federationWallets ++ [⟨federation, handle, w.federationCount⟩]

/-- Every version is on the wallet's network, and a federation is
accepted exactly when it is on the network of them all. -/
structure OneNetwork (w : ElementsFederatedWallet N Id D) : Prop where
  network : ∀ v ∈ w.federationWallets, v.federation.network = w.networkType
  accepts : ∀ federation handle, (∃ w', w.withFederation federation handle = .ok w') ↔
    ∀ v ∈ w.federationWallets, federation.network = v.federation.network

/-- What the calls keep: the first version is the constructor's, the
others are on the wallet's network, and all are numbered in order. -/
structure Extends (first : FederationWallet N Id D) (w : ElementsFederatedWallet N Id D) :
    Prop where
  first : w.federationWallets.head? = some first
  index : ∀ i v, w.versionAt i = some v → v.index = i
  network : ∀ v ∈ w.federationWallets.tail, v.federation.network = w.networkType

theorem Extends.afterCall {first : FederationWallet N Id D} {w : ElementsFederatedWallet N Id D}
    (h : Extends first w) (call : NetworkFederation N Id × ElementsWalletHandle D) :
    Extends first (w.afterCall call) := by
  rcases afterCall_cases w call with hsame | ⟨hnet, hnew⟩
  · rw [hsame]
    exact h
  · obtain ⟨rest, hrest⟩ : ∃ rest, w.federationWallets = first :: rest :=
      ⟨_, List.eq_cons_of_mem_head? h.first⟩
    rw [hnew]
    refine ⟨?_, ?_, ?_⟩
    · dsimp only
      rw [hrest]
      rfl
    · intro i v hv
      dsimp only [versionAt] at hv
      rcases Nat.lt_or_ge i w.federationWallets.length with hlt | hge
      · rw [List.getElem?_append_left hlt] at hv
        exact h.index i v hv
      · rw [List.getElem?_append_right hge] at hv
        obtain ⟨hlt, rfl⟩ := List.getElem?_eq_some_iff.mp hv
        rw [List.length_singleton] at hlt
        simp only [List.getElem_singleton, federationCount]
        omega
    · intro v hv
      have htail := h.network
      dsimp only at hv
      rw [hrest] at htail
      rw [hrest, List.cons_append, List.tail_cons, List.mem_append, List.mem_singleton] at hv
      rcases hv with hv | rfl
      · exact htail v hv
      · exact hnet

theorem Extends.afterCalls {first : FederationWallet N Id D} {w : ElementsFederatedWallet N Id D}
    (h : Extends first w) (calls : List (NetworkFederation N Id × ElementsWalletHandle D)) :
    Extends first (w.afterCalls calls) := by
  induction calls generalizing w with
  | nil => exact h
  | cons call calls ih => exact ih (h.afterCall call)

omit [DecidableEq N] in
theorem extends_new {federation : NetworkFederation N Id} {handle : ElementsWalletHandle D}
    {network : ElementsNetwork} {w : ElementsFederatedWallet N Id D}
    (hnew : new federation handle network = .ok w) :
    Extends ⟨federation, handle, 0⟩ w ∧ w.network = network ∧
      CoreNetwork.isElements federation.network = true := by
  unfold new at hnew
  split at hnew
  · cases hnew
  · next helements =>
      cases hnew
      refine ⟨⟨rfl, ?_, by simp⟩, rfl, by simpa using helements⟩
      intro i v hv
      obtain ⟨hlt, rfl⟩ := List.getElem?_eq_some_iff.mp hv
      rw [List.length_singleton] at hlt
      simp only [List.getElem_singleton]
      omega

theorem Extends.versions {first : FederationWallet N Id D} {w : ElementsFederatedWallet N Id D}
    (h : Extends first w) : Versions w := by
  have hne : w.federationWallets ≠ [] := by
    intro hnil
    have hfirst := h.first
    rw [hnil] at hfirst
    cases hfirst
  refine ⟨hne, h.index, ?_, ?_⟩
  · obtain ⟨v, hv⟩ : ∃ v, w.federationWallets.getLast? = some v :=
      ⟨_, List.getLast?_eq_some_getLast hne⟩
    refine ⟨v, hv, ?_⟩
    have hpos := List.length_pos_iff.mpr hne
    rw [List.getLast?_eq_getElem?] at hv
    rw [h.index _ v hv, federationCount]
    omega
  · intro federation handle w' hok
    obtain ⟨-, -, rfl⟩ := withFederation_eq_ok.mp hok
    rfl

theorem versions_afterCalls {federation : NetworkFederation N Id} {handle : ElementsWalletHandle D}
    {network : ElementsNetwork} {w : ElementsFederatedWallet N Id D}
    (hnew : new federation handle network = .ok w)
    (calls : List (NetworkFederation N Id × ElementsWalletHandle D)) :
    Versions (w.afterCalls calls) := ((extends_new hnew).1.afterCalls calls).versions

/-- The versions are in order whatever the calls. They are on one
network, and later federations are compared with them all, exactly when
the constructor was given the network of its federation. -/
theorem one_network_iff {federation : NetworkFederation N Id} {handle : ElementsWalletHandle D}
    {network : ElementsNetwork} {w : ElementsFederatedWallet N Id D}
    (hnew : new federation handle network = .ok w)
    (calls : List (NetworkFederation N Id × ElementsWalletHandle D)) :
    Versions (w.afterCalls calls) ∧
      (OneNetwork (w.afterCalls calls) ↔ federation.network = network.toNetworkType) := by
  refine ⟨versions_afterCalls hnew calls, ?_⟩
  obtain ⟨hextends, rfl, helements⟩ := extends_new hnew
  have hkept := hextends.afterCalls calls
  have hnet : (w.afterCalls calls).networkType = (w.network.toNetworkType : N) := by
    rw [networkType, network_afterCalls]
  obtain ⟨rest, hrest⟩ : ∃ rest, (w.afterCalls calls).federationWallets =
      ⟨federation, handle, 0⟩ :: rest := ⟨_, List.eq_cons_of_mem_head? hkept.first⟩
  constructor
  · intro hone
    rw [← hnet]
    refine hone.network ⟨federation, handle, 0⟩ ?_
    rw [hrest]
    exact List.mem_cons_self ..
  · intro hsame
    have hall : ∀ v ∈ (w.afterCalls calls).federationWallets,
        v.federation.network = (w.afterCalls calls).networkType := by
      intro v hv
      rw [hrest, List.mem_cons] at hv
      rcases hv with rfl | hv
      · rw [hnet, ← hsame]
      · refine hkept.network v ?_
        rw [hrest]
        exact hv
    refine ⟨hall, ?_⟩
    intro federation' handle'
    constructor
    · rintro ⟨w', hok⟩ v hv
      obtain ⟨-, hnet', -⟩ := withFederation_eq_ok.mp hok
      rw [hnet', hall v hv]
    · intro hequal
      have hfirst : federation'.network = federation.network :=
        hequal ⟨federation, handle, 0⟩ (by rw [hrest]; exact List.mem_cons_self ..)
      refine ⟨_, withFederation_eq_ok.mpr ⟨?_, ?_, rfl⟩⟩
      · rw [hfirst]
        exact helements
      · rw [hfirst, hnet, hsame]

end ElementsFederatedWallet

/-! A federation on the testnet, in a wallet that is told so, and in one
that is told it is on the main network. -/

/-- Bitcoin, or one of the Elements networks. -/
inductive PlainNetwork where
  | bitcoin
  | elements (id : ElementsNetworkId)
deriving DecidableEq

instance : CoreNetwork PlainNetwork where
  elements := .elements
  isElements n := n != .bitcoin

def testnetFederation : NetworkFederation PlainNetwork Nat where
  contains _ := true
  find _ := none
  threshold := 2
  network := .elements .liquidTestnet

def testnetWallet : ElementsFederatedWallet PlainNetwork Nat Unit :=
  ⟨[⟨testnetFederation, ⟨(), 0⟩, 0⟩], .liquidTestnet⟩

def misplacedWallet : ElementsFederatedWallet PlainNetwork Nat Unit :=
  ⟨[⟨testnetFederation, ⟨(), 0⟩, 0⟩], .liquid⟩

/-- The federation comes again: one wallet takes it as its second
version, the other refuses it. -/
theorem one_network_iff_testnetFederation :
    (testnetWallet.afterCalls [(testnetFederation, ⟨(), 0⟩)]).federationCount = 2 ∧
      ElementsFederatedWallet.OneNetwork
        (testnetWallet.afterCalls [(testnetFederation, ⟨(), 0⟩)]) ∧
      (misplacedWallet.afterCalls [(testnetFederation, ⟨(), 0⟩)]).federationCount = 1 ∧
      ¬ElementsFederatedWallet.OneNetwork
        (misplacedWallet.afterCalls [(testnetFederation, ⟨(), 0⟩)]) := by
  have hnew : ElementsFederatedWallet.new testnetFederation ⟨(), 0⟩ .liquidTestnet =
    .ok testnetWallet := rfl
  have hmisplaced : ElementsFederatedWallet.new testnetFederation ⟨(), 0⟩ .liquid =
    .ok misplacedWallet := rfl
  refine ⟨rfl, (ElementsFederatedWallet.one_network_iff hnew _).2.mpr rfl, rfl, fun hone => ?_⟩
  cases (ElementsFederatedWallet.one_network_iff hmisplaced _).2.mp hone

/-- A wallet need not be on its federation's network. -/
theorem misplaced_first_version : ¬∀ (federation : NetworkFederation PlainNetwork Nat)
    (handle : ElementsWalletHandle Unit) (network : ElementsNetwork)
    (w : ElementsFederatedWallet PlainNetwork Nat Unit)
    (calls : List (NetworkFederation PlainNetwork Nat × ElementsWalletHandle Unit)),
    ElementsFederatedWallet.new federation handle network = .ok w →
    ElementsFederatedWallet.Versions (w.afterCalls calls) ∧
      ElementsFederatedWallet.OneNetwork (w.afterCalls calls) := by
  intro hgeneral
  obtain ⟨-, hone⟩ := hgeneral testnetFederation ⟨(), 0⟩ .liquid misplacedWallet [] rfl
  have hnetwork := hone.network ⟨testnetFederation, ⟨(), 0⟩, 0⟩ (List.mem_singleton.mpr rfl)
  cases hnetwork

end EmvaultElements
