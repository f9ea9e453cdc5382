import Mathlib.Data.Finset.Dedup
import EmvaultElements.FederatedWallet

/-!
# Membership

Abstractly a federated wallet is a stack of federations with their
handles, and a call puts one on top of it or is refused. The wallet
numbers the stack (`Stacks`), whatever the calls (`stacks_afterCalls`),
and every query can be read off the stack (`queries_afterCalls`). So a
signer that was ever in an accepted federation stays known, and is
current exactly when the last accepted federation has it.
-/

namespace EmvaultElements

variable {N Id D : Type} [CoreNetwork N]

namespace ElementsFederatedWallet

/-! ## The queries -/

section

variable (self : ElementsFederatedWallet N Id D)

def ctDescriptors : List D := self.federationWallets.map (·.wallet.ctDescriptor)

def walletHandles : List (ElementsWalletHandle D) := self.federationWallets.map (·.wallet)

def handleAt (index : Nat) : Option (ElementsWalletHandle D) :=
  self.federationWallets[index]?.map (·.wallet)

/-- The threshold of the latest version, with a panic when there is
none. -/
def threshold : Option Nat := self.current.map (·.federation.threshold)

def findBySigner (id : Id) : List (FederationWallet N Id D) :=
  self.federationWallets.filter fun fw => fw.federation.contains id

def signerIsCurrent (id : Id) : Option Bool := self.current.map (·.federation.contains id)

variable [DecidableEq Id] (signersOf : NetworkFederation N Id → List Id)

/-- The ids of the signers that core lists for any of the federations. -/
def allSignerIds : Finset Id :=
  (self.federationWallets.flatMap fun fw => signersOf fw.federation).toFinset

def currentSignerIds : Option (Finset Id) :=
  self.current.map fun fw => (signersOf fw.federation).toFinset

end

/-! ## The stack -/

/-- The wallet numbers the stack. -/
def Stacks (stack : List (NetworkFederation N Id × ElementsWalletHandle D))
    (w : ElementsFederatedWallet N Id D) : Prop :=
  w.federationWallets = stack.zipIdx.map fun p => ⟨p.1.1, p.1.2, p.2⟩

/-- The call gets through the checks. -/
def accepts [DecidableEq N] (network : ElementsNetwork)
    (call : NetworkFederation N Id × ElementsWalletHandle D) : Bool :=
  CoreNetwork.isElements call.1.network && call.1.network = network.toNetworkType

variable {stack : List (NetworkFederation N Id × ElementsWalletHandle D)}
  {w : ElementsFederatedWallet N Id D}

section

variable [DecidableEq N]

/-- A call puts its federation on the stack, if it is accepted. -/
theorem Stacks.afterCall (h : Stacks stack w)
    (call : NetworkFederation N Id × ElementsWalletHandle D) :
    Stacks (stack ++ [call].filter (accepts w.network)) (w.afterCall call) := by
  unfold Stacks at h ⊢
  have hcount : w.federationCount = stack.length := by simp [federationCount, h]
  cases hcall : w.withFederation call.1 call.2 with
  | ok w' =>
      obtain ⟨helements, hnetwork, rfl⟩ := withFederation_eq_ok.mp hcall
      have haccepts : accepts w.network call = true := by
        simp only [accepts, helements, Bool.true_and, decide_eq_true_eq]
        exact hnetwork
      simp [ElementsFederatedWallet.afterCall, hcall, haccepts, h, hcount, List.zipIdx_append]
  | error e =>
      have haccepts : accepts w.network call = false := by
        by_contra htrue
        simp [accepts] at htrue
        have hok : w.withFederation call.1 call.2 = .ok _ :=
          withFederation_eq_ok.mpr ⟨htrue.1, htrue.2, rfl⟩
        cases hcall.symm.trans hok
      simp [ElementsFederatedWallet.afterCall, hcall, haccepts, h]

theorem Stacks.afterCalls (h : Stacks stack w)
    (calls : List (NetworkFederation N Id × ElementsWalletHandle D)) :
    Stacks (stack ++ calls.filter (accepts w.network)) (w.afterCalls calls) := by
  induction calls generalizing stack w with
  | nil => simpa [ElementsFederatedWallet.afterCalls] using h
  | cons call calls ih =>
      have hsame : (w.afterCall call).network = w.network := network_afterCalls w [call]
      have hrest := ih (h.afterCall call)
      rw [hsame, List.append_assoc, ← List.filter_append] at hrest
      exact hrest

/-- The wallet numbers the federation it was made with and those of the
accepted calls, whatever the calls. -/
theorem stacks_afterCalls {federation : NetworkFederation N Id} {handle : ElementsWalletHandle D}
    {network : ElementsNetwork} (hnew : new federation handle network = .ok w)
    (calls : List (NetworkFederation N Id × ElementsWalletHandle D)) :
    Stacks ((federation, handle) :: calls.filter (accepts network)) (w.afterCalls calls) := by
  have hfirst : Stacks [(federation, handle)] w ∧ w.network = network := by
    unfold new at hnew
    split at hnew
    · cases hnew
    · obtain rfl := Except.ok.inj hnew
      exact ⟨rfl, rfl⟩
  rw [← hfirst.2]
  exact hfirst.1.afterCalls calls

end

/-! ## Reading the stack -/

/-- What the queries say of a stack. -/
structure Queries [DecidableEq Id] (signersOf : NetworkFederation N Id → List Id)
    (stack : List (NetworkFederation N Id × ElementsWalletHandle D))
    (w : ElementsFederatedWallet N Id D) : Prop where
  walletHandles : w.walletHandles = stack.map (·.2)
  ctDescriptors : w.ctDescriptors = stack.map (·.2.ctDescriptor)
  handleAt : ∀ i, w.handleAt i = stack[i]?.map (·.2)
  threshold : w.threshold = stack.getLast?.map (·.1.threshold)
  allSignerIds : w.allSignerIds signersOf = (stack.flatMap fun p => signersOf p.1).toFinset
  currentSignerIds : w.currentSignerIds signersOf =
    stack.getLast?.map fun p => (signersOf p.1).toFinset
  signerIsCurrent : ∀ id, w.signerIsCurrent id =
    (w.currentSignerIds signersOf).map fun ids => decide (id ∈ ids)
  findBySigner : ∀ id i, (∃ v ∈ w.findBySigner id, v.index = i) ↔
    ∃ p, stack[i]? = some p ∧ id ∈ signersOf p.1
  found_iff : ∀ id, w.findBySigner id ≠ [] ↔ id ∈ w.allSignerIds signersOf

omit [CoreNetwork N] in
/-- Every query reads the stack, when `contains` goes by the listed
signers. -/
theorem Stacks.queries [DecidableEq Id] (h : Stacks stack w)
    {signersOf : NetworkFederation N Id → List Id}
    (hcontains : ∀ p ∈ stack, ∀ id, p.1.contains id = true ↔ id ∈ signersOf p.1) :
    Queries signersOf stack w := by
  have hpairs : (w.federationWallets.map fun fw => (fw.federation, fw.wallet)) = stack := by
    rw [h, List.map_map]
    exact List.zipIdx_map_fst 0 stack
  have hat : ∀ i : Nat, w.federationWallets[i]? = stack[i]?.map fun p => ⟨p.1, p.2, i⟩ := by
    intro i
    rw [h]
    simp [List.getElem?_zipIdx, Function.comp_def]
  have hmembers : ∀ fw ∈ w.federationWallets, ∀ id,
      fw.federation.contains id = true ↔ id ∈ signersOf fw.federation := by
    intro fw hfw
    refine hcontains (fw.federation, fw.wallet) ?_
    rw [← hpairs]
    exact List.mem_map_of_mem hfw
  constructor
  · simp [ElementsFederatedWallet.walletHandles, ← hpairs]
  · simp [ElementsFederatedWallet.ctDescriptors, ← hpairs]
  · simp [ElementsFederatedWallet.handleAt, hat, Function.comp_def]
  · simp [ElementsFederatedWallet.threshold, current, ← hpairs, Function.comp_def]
  · simp [ElementsFederatedWallet.allSignerIds, ← hpairs, List.flatMap_map]
  · simp [ElementsFederatedWallet.currentSignerIds, current, ← hpairs, Function.comp_def]
  · intro id
    cases hlast : w.current with
    | none => simp [ElementsFederatedWallet.signerIsCurrent,
        ElementsFederatedWallet.currentSignerIds, hlast]
    | some fw =>
        have hfw : fw.federation.contains id = decide (id ∈ signersOf fw.federation) := by
          rw [Bool.eq_iff_iff, hmembers fw (List.mem_of_getLast? hlast) id, decide_eq_true_eq]
        simp [ElementsFederatedWallet.signerIsCurrent, ElementsFederatedWallet.currentSignerIds,
          hlast, hfw]
  · intro id i
    simp only [ElementsFederatedWallet.findBySigner, List.mem_filter]
    constructor
    · rintro ⟨fw, ⟨hfw, hcontained⟩, rfl⟩
      obtain ⟨i, hi⟩ := List.mem_iff_getElem?.mp hfw
      obtain ⟨p, hp, rfl⟩ := Option.map_eq_some_iff.mp ((hat i).symm.trans hi)
      exact ⟨p, hp, (hmembers _ hfw id).mp hcontained⟩
    · rintro ⟨p, hp, hid⟩
      have hfw : (⟨p.1, p.2, i⟩ : FederationWallet N Id D) ∈ w.federationWallets :=
        List.mem_of_getElem? ((hat i).trans (by rw [hp]; rfl))
      exact ⟨⟨p.1, p.2, i⟩, ⟨hfw, (hmembers _ hfw id).mpr hid⟩, rfl⟩
  · intro id
    simp only [ElementsFederatedWallet.findBySigner, ElementsFederatedWallet.allSignerIds,
      List.mem_toFinset, List.mem_flatMap, ne_eq, List.filter_eq_nil_iff, not_forall, not_not]
    constructor
    · rintro ⟨fw, hfw, hcontained⟩
      exact ⟨fw, hfw, (hmembers fw hfw id).mp hcontained⟩
    · rintro ⟨fw, hfw, hid⟩
      exact ⟨fw, hfw, (hmembers fw hfw id).mpr hid⟩

/-- Whatever calls are made, and whichever are refused, the queries read
the federations that were accepted. -/
theorem queries_afterCalls [DecidableEq N] [DecidableEq Id] {federation : NetworkFederation N Id}
    {handle : ElementsWalletHandle D} {network : ElementsNetwork}
    (hnew : new federation handle network = .ok w)
    (calls : List (NetworkFederation N Id × ElementsWalletHandle D))
    {signersOf : NetworkFederation N Id → List Id}
    (hcontains : ∀ p ∈ (federation, handle) :: calls, ∀ id,
      p.1.contains id = true ↔ id ∈ signersOf p.1) :
    Queries signersOf ((federation, handle) :: calls.filter (accepts network))
      (w.afterCalls calls) := by
  refine (stacks_afterCalls hnew calls).queries ?_
  intro p hp
  refine hcontains p ?_
  rcases List.mem_cons.mp hp with rfl | hp
  · exact List.mem_cons_self ..
  · exact List.mem_cons_of_mem _ (List.mem_of_mem_filter hp)

end ElementsFederatedWallet

end EmvaultElements
