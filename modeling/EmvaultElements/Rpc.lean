import Mathlib.Data.Set.Insert
import EmvaultElements.Map
import EmvaultElements.Pool

/-!
# Loading the daemon's wallets

`ElementsRpc` makes JSON-RPC calls to a daemon. `ensure_wallet_loaded`
looks before it acts: the wallets that are loaded, then those on disk,
then it loads or creates. Between these calls others may do the same,
and the daemon refuses to load a wallet twice or to create it over
another one. So a refusal is not yet a failure: whenever a caller
returns, and not because the daemon could not be reached, its wallet is
loaded, and no wallet has been changed (`wallets_are_loaded`).
-/

namespace EmvaultElements

/-! ## JSON -/

namespace Json

inductive Value where
  | null
  | bool (b : Bool)
  | number (n : Int)
  | string (s : String)
  | array (vs : List Value)
  | object (fields : List (String × Value))

namespace Value

/-- The field of an object. -/
def get (v : Value) (key : String) : Option Value :=
  match v with
  | .object fields => (fields.find? fun f => f.1 == key).map (·.2)
  | _ => none

def asArray : Value → Option (List Value)
  | .array vs => some vs
  | _ => none

def asStr : Value → Option String
  | .string s => some s
  | _ => none

end Value

end Json

/-! ## The calls -/

/-- The errors of `bitcoincore_rpc`: the daemon's own, those of the
transport, and those of reading an answer. -/
inductive RpcError where
  | jsonRpc (code : Int) (message : String)
  | transport (message : String)
  | json (message : String)
deriving Repr, DecidableEq

inductive ElementsRpcError where
  | rpc (e : RpcError)
  | badResponse (message : String)
deriving Repr, DecidableEq

structure RpcCall where
  method : String
  params : List Json.Value

/-- The errors of a call are answers: the caller gets them back. -/
abbrev RpcCall.Res (_ : RpcCall) : Type := Except RpcError Json.Value

abbrev Rpc (α : Type) : Type := ExceptT ElementsRpcError (Prog RpcCall RpcCall.Res) α

namespace ElementsRpc

/-- `Client::call`, for an answer that is read by `de`. -/
def call {α : Type} (method : String) (params : List Json.Value)
    (de : Json.Value → Except RpcError α) : Rpc α :=
  ExceptT.mk do
    let res ← Prog.perform ⟨method, params⟩
    pure ((res >>= de).mapError .rpc)

/-- Reading a list of strings. -/
def deStrings (v : Json.Value) : Except RpcError (List String) :=
  match v with
  | .array vs => vs.mapM fun v => match v with
      | .string s => .ok s
      | _ => .error (.json "invalid type: expected a string")
  | _ => .error (.json "invalid type: expected a sequence")

/-- Private keys are disabled, the wallet is blank, without a passphrase,
does not avoid address reuse, and has descriptors. -/
def createOptions : List Json.Value :=
  [.bool true, .bool true, .string "", .bool false, .bool true]

def createWallet (name : String) : Rpc Unit := do
  let _ ← call "createwallet" (.string name :: createOptions) .ok

def loadWallet (name : String) : Rpc Unit := do
  let _ ← call "loadwallet" [.string name] .ok

def listWallets : Rpc (List String) := call "listwallets" [] deStrings

/-- The names in the answer to `listwalletdir`. What has no name, or not
a string, is left out. -/
def walletNames (raw : Json.Value) : List String :=
  (((raw.get "wallets").bind Json.Value.asArray).map fun arr =>
    arr.filterMap fun v => (v.get "name").bind Json.Value.asStr).getD []

def listWalletDir : Rpc (List String) := do
  let raw ← call "listwalletdir" [] .ok
  pure (walletNames raw)

def ensureWalletLoaded (name : String) : Rpc Unit := do
  let loaded ← listWallets
  if loaded.any (· == name) then pure ()
  else
    let onDisk ← listWalletDir
    if onDisk.any (· == name) then loadWallet name
    else createWallet name

end ElementsRpc

/-! ## The daemon -/

/-- The wallets of a daemon: those on disk, with the options they were
created with, and those that are loaded. -/
structure DaemonWallets where
  options : String → Option (List Json.Value)
  loaded : String → Prop
  onDisk : ∀ name, loaded name → (options name).isSome

/-- The wallet is loaded, and nothing else changes. -/
structure DaemonWallets.Loads (name : String) (w w' : DaemonWallets) : Prop where
  options : w'.options = w.options
  loaded : ∀ n, w'.loaded n ↔ n = name ∨ w.loaded n

/-- The wallet is created and loaded, and nothing else changes. -/
structure DaemonWallets.Creates (name : String) (options : List Json.Value) (w w' : DaemonWallets) :
    Prop where
  fresh : w.options name = none
  options : ∀ n, w'.options n = if n = name then some options else w.options n
  loaded : ∀ n, w'.loaded n ↔ n = name ∨ w.loaded n

/-- How the daemon answers, for the wallets `view` finds in its state. A
call that is refused has no effect, and an answer may be lost on the way
back. -/
structure WalletDaemon {σ : Type} (env : Prog.Env σ Empty RpcCall RpcCall.Res)
    (view : σ → DaemonWallets) (refused : RpcError → Prop) : Prop where
  listwallets : ∀ s res s', env s ⟨"listwallets", []⟩ (.ok res) s' → view s' = view s ∧
    (∀ e, res = .error e → ¬refused e) ∧ ∀ v, res = .ok v → ∃ names : List String,
      v = .array (names.map .string) ∧ ∀ n, n ∈ names ↔ (view s).loaded n
  listwalletdir : ∀ s res s', env s ⟨"listwalletdir", []⟩ (.ok res) s' → view s' = view s ∧
    (∀ e, res = .error e → ¬refused e) ∧ ∀ v, res = .ok v → ∃ entries,
      v.get "wallets" = some (.array entries) ∧
      ∀ n, (∃ e ∈ entries, e.get "name" = some (.string n)) ↔ ((view s).options n).isSome
  loadwallet : ∀ s name res s', env s ⟨"loadwallet", [.string name]⟩ (.ok res) s' →
    (view s' = view s ∨ ((view s).options name).isSome ∧ (view s).Loads name (view s')) ∧
    (∀ v, res = .ok v → (view s').loaded name) ∧
    ∀ e, res = .error e → refused e → (view s).loaded name ∨ (view s).options name = none
  createwallet : ∀ s name options res s',
    env s ⟨"createwallet", .string name :: options⟩ (.ok res) s' →
    (view s' = view s ∨ (view s).Creates name options (view s')) ∧
    (∀ v, res = .ok v → (view s').loaded name) ∧
    ∀ e, res = .error e → refused e → ((view s).options name).isSome

/-! ## One caller among others -/

/-- What callers for the wallets of `names` do to the daemon's wallets:
they load what was there, and create and load what was not. -/
structure DaemonWallets.Grows (names : Set String) (w w' : DaemonWallets) : Prop where
  kept : ∀ n options, w.options n = some options → w'.options n = some options
  loaded : ∀ n, w.loaded n → w'.loaded n
  created : ∀ n, w.options n = none → w'.options n = none ∨
    n ∈ names ∧ w'.options n = some ElementsRpc.createOptions ∧ w'.loaded n
  asked : ∀ n, w'.loaded n → w.loaded n ∨ n ∈ names

namespace DaemonWallets

variable {names : Set String} {name : String} {w w' w'' : DaemonWallets}

theorem Grows.refl (w : DaemonWallets) : Grows names w w :=
  ⟨fun _ _ h => h, fun _ h => h, fun _ h => .inl h, fun _ h => .inl h⟩

theorem Grows.trans (h : Grows names w w') (h' : Grows names w' w'') : Grows names w w'' where
  kept n options hn := h'.kept n options (h.kept n options hn)
  loaded n hn := h'.loaded n (h.loaded n hn)
  created n hn := by
    rcases h.created n hn with hnone | ⟨hmem, hoptions, hloaded⟩
    · exact h'.created n hnone
    · exact .inr ⟨hmem, h'.kept n _ hoptions, h'.loaded n hloaded⟩
  asked n hn := by
    rcases h'.asked n hn with hloaded | hmem
    · exact h.asked n hloaded
    · exact .inr hmem

theorem Grows.mono {names' : Set String} (h : Grows names w w') (hsub : names ⊆ names') :
    Grows names' w w' where
  kept := h.kept
  loaded := h.loaded
  created n hn := (h.created n hn).imp_right fun h => ⟨hsub h.1, h.2⟩
  asked n hn := (h.asked n hn).imp_right fun h => hsub h

theorem Loads.grows (h : Loads name w w') (hname : name ∈ names) : Grows names w w' where
  kept n options hn := by rw [h.options, hn]
  loaded n hn := (h.loaded n).mpr (.inr hn)
  created n hn := .inl (by rw [h.options, hn])
  asked n hn := by
    rcases (h.loaded n).mp hn with rfl | hloaded
    · exact .inr hname
    · exact .inl hloaded

theorem Creates.grows (h : Creates name ElementsRpc.createOptions w w') (hname : name ∈ names) :
    Grows names w w' where
  kept n options hn := by
    rw [h.options, if_neg, hn]
    rintro rfl
    rw [h.fresh] at hn
    cases hn
  loaded n hn := (h.loaded n).mpr (.inr hn)
  created n hn := by
    rw [h.options]
    split
    · next heq =>
        subst heq
        exact .inr ⟨hname, rfl, (h.loaded n).mpr (.inl rfl)⟩
    · exact .inl hn
  asked n hn := by
    rcases (h.loaded n).mp hn with rfl | hloaded
    · exact .inr hname
    · exact .inl hloaded

end DaemonWallets

section

variable {σ : Type} {env : Prog.Env σ Empty RpcCall RpcCall.Res} {view : σ → DaemonWallets}
  {refused : RpcError → Prop} {others : Set String} {name : String}

/-- The steps of callers for the wallets of `names`. -/
def GrowsTo (view : σ → DaemonWallets) (names : Set String) (s s' : σ) : Prop :=
  (view s).Grows names (view s')

/-- `safe`, for a caller for the wallet `name` among callers for those
of `others`. -/
def SafeRpc {α : Type} (env : Prog.Env σ Empty RpcCall RpcCall.Res) (view : σ → DaemonWallets)
    (others : Set String) (name : String) (p : Rpc α) (Q : Except ElementsRpcError α → σ → Prop)
    (s : σ) : Prop :=
  Prog.safe env (fun _ _ => True) (GrowsTo view others) (GrowsTo view {name}) p.run Q s

theorem SafeRpc.bind {α β : Type} {p : Rpc α} {f : α → Rpc β}
    {Q : Except ElementsRpcError β → σ → Prop} {s : σ}
    (h : SafeRpc env view others name p (fun res s' => match res with
      | .ok a => SafeRpc env view others name (f a) Q s'
      | .error e => Q (.error e) s') s) : SafeRpc env view others name (p >>= f) Q s := by
  unfold SafeRpc
  rw [ExceptT.run_bind, Prog.safe_bind]
  refine Prog.safe_mono ?_ h
  intro res s' hres
  cases res with
  | ok a => exact hres
  | error e => exact Prog.safe_pure.mpr hres

/-- The other callers keep the assertion. -/
def Kept (view : σ → DaemonWallets) (others : Set String) (A : DaemonWallets → Prop) : Prop :=
  ∀ s s', GrowsTo view others s s' → A (view s) → A (view s')

/-- A call, made in a state that satisfies an assertion the others keep. -/
theorem SafeRpc.call {α : Type} {A : DaemonWallets → Prop} (hkept : Kept view others A)
    {method : String} {params : List Json.Value} {de : Json.Value → Except RpcError α}
    {Q : Except ElementsRpcError α → σ → Prop} {s : σ} (hA : A (view s))
    (hcall : ∀ s₁, A (view s₁) → ∀ res s₂, env s₁ ⟨method, params⟩ (.ok res) s₂ →
      GrowsTo view {name} s₁ s₂ ∧ Q ((res >>= de).mapError .rpc) s₂) :
    SafeRpc env view others name (ElementsRpc.call method params de) Q s := by
  unfold SafeRpc ElementsRpc.call
  rw [ExceptT.run_mk, Prog.safe_bind]
  refine Prog.safe_perform hkept hA ?_
  intro s₁ hs₁ _ res s₂ hres
  obtain ⟨hgrows, hQ⟩ := hcall s₁ hs₁ res s₂ hres
  exact ⟨hgrows, Prog.safe_pure.mpr hQ⟩

theorem deStrings_array (names : List String) :
    ElementsRpc.deStrings (.array (names.map .string)) = .ok names := by
  rw [ElementsRpc.deStrings]
  induction names with
  | nil => rfl
  | cons name names ih =>
      rw [List.map_cons, List.mapM_cons, ih]
      rfl

theorem mem_walletNames {raw : Json.Value} {entries : List Json.Value}
    (h : raw.get "wallets" = some (.array entries)) {n : String} :
    n ∈ ElementsRpc.walletNames raw ↔ ∃ e ∈ entries, e.get "name" = some (.string n) := by
  simp only [ElementsRpc.walletNames, h, Option.bind_some, Json.Value.asArray, Option.map_some,
    Option.getD_some, List.mem_filterMap, Option.bind_eq_some_iff]
  constructor
  · rintro ⟨e, he, v, hv, hstr⟩
    cases v with
    | string s =>
        obtain rfl := Option.some.inj hstr
        exact ⟨e, he, hv⟩
    | _ => cases hstr
  · rintro ⟨e, he, hv⟩
    exact ⟨e, he, _, hv, rfl⟩

/-- The result satisfies `P`, or is an error but no refusal. -/
def NotRefused {α : Type} (refused : RpcError → Prop) (P : α → Prop) :
    Except ElementsRpcError α → Prop
  | .ok a => P a
  | .error e => ∀ cause, e = .rpc cause → ¬refused cause

/-- What a caller is told: that its wallet is loaded, or that the daemon
failed, or a refusal. The wallet is then loaded, by another caller for
it. -/
structure Told (refused : RpcError → Prop) (others : Set String) (name : String)
    (res : Except ElementsRpcError Unit) (w : DaemonWallets) : Prop where
  ok : res = .ok () → w.loaded name
  refusal : ∀ cause, res = .error (.rpc cause) → refused cause → name ∈ others ∧ w.loaded name

theorem told_of_notRefused {α : Type} {P : α → Prop} {e : ElementsRpcError} {w : DaemonWallets}
    (h : NotRefused refused P (.error e)) : Told refused others name (.error e) w where
  ok hok := by cases hok
  refusal cause heq hcause := absurd hcause (h cause (Except.error.inj heq))

variable (hdaemon : WalletDaemon env view refused)

include hdaemon

theorem safe_listWallets (s : σ) : SafeRpc env view others name ElementsRpc.listWallets
    (fun res s' => NotRefused refused (fun loaded => ∀ n, n ∈ loaded ↔ (view s').loaded n)
      res) s := by
  refine SafeRpc.call (A := fun _ => True) (fun _ _ _ _ => trivial) trivial ?_
  intro s₁ _ res s₂ hres
  obtain ⟨hsame, herror, hok⟩ := hdaemon.listwallets s₁ res s₂ hres
  refine ⟨by rw [GrowsTo, hsame]; exact .refl _, ?_⟩
  cases res with
  | error e =>
      intro cause heq
      obtain rfl := ElementsRpcError.rpc.inj heq
      exact herror e rfl
  | ok v =>
      obtain ⟨names, rfl, hnames⟩ := hok v rfl
      have hread : ((.ok (.array (names.map .string)) : RpcCall.Res ⟨"listwallets", []⟩) >>=
          ElementsRpc.deStrings) = .ok names := deStrings_array names
      rw [hread, hsame]
      exact hnames

theorem safe_listWalletDir {A : DaemonWallets → Prop} (hkept : Kept view others A) {s : σ}
    (hA : A (view s)) : SafeRpc env view others name ElementsRpc.listWalletDir
      (fun res s' => NotRefused refused (fun onDisk => A (view s') ∧
        ∀ n, n ∈ onDisk ↔ ((view s').options n).isSome) res) s := by
  refine SafeRpc.bind (SafeRpc.call hkept hA ?_)
  intro s₁ hs₁ res s₂ hres
  obtain ⟨hsame, herror, hok⟩ := hdaemon.listwalletdir s₁ res s₂ hres
  refine ⟨by rw [GrowsTo, hsame]; exact .refl _, ?_⟩
  cases res with
  | error e =>
      intro cause heq
      obtain rfl := ElementsRpcError.rpc.inj heq
      exact herror e rfl
  | ok v =>
      obtain ⟨entries, hentries, hnames⟩ := hok v rfl
      refine Prog.safe_pure.mpr ⟨hsame ▸ hs₁, ?_⟩
      intro n
      rw [hsame, mem_walletNames hentries]
      exact hnames n

/-- Loading a wallet that is on disk, and not loaded unless by another
caller. -/
theorem safe_loadWallet {s : σ} (hdisk : ((view s).options name).isSome)
    (hloaded : name ∉ others → ¬(view s).loaded name) :
    SafeRpc env view others name (ElementsRpc.loadWallet name)
      (fun res s' => Told refused others name res (view s')) s := by
  refine SafeRpc.bind (SafeRpc.call (A := fun w => (w.options name).isSome ∧
    (name ∉ others → ¬w.loaded name)) ?_ ⟨hdisk, hloaded⟩ ?_)
  · rintro s s' hgrows ⟨hsome, hnot⟩
    obtain ⟨options, hoptions⟩ := Option.isSome_iff_exists.mp hsome
    refine ⟨Option.isSome_of_eq_some (hgrows.kept name options hoptions), ?_⟩
    intro hother hloaded
    exact (hgrows.asked name hloaded).elim (hnot hother) hother
  · rintro s₁ ⟨hsome, hnot⟩ res s₂ hres
    obtain ⟨hstep, hok, herror⟩ := hdaemon.loadwallet s₁ name res s₂ hres
    have hgrows : GrowsTo view {name} s₁ s₂ := by
      rcases hstep with hsame | ⟨-, hloads⟩
      · rw [GrowsTo, hsame]
        exact .refl _
      · exact hloads.grows rfl
    refine ⟨hgrows, ?_⟩
    cases res with
    | ok v => exact Prog.safe_pure.mpr ⟨fun _ => hok v rfl, fun cause heq => by cases heq⟩
    | error e =>
        refine ⟨fun heq => (by cases heq), ?_⟩
        intro cause heq hcause
        cases heq
        rcases herror e rfl hcause with hloaded | hnone
        · exact ⟨by_contra fun hother => hnot hother hloaded, hgrows.loaded name hloaded⟩
        · rw [hnone] at hsome
          cases hsome

/-- Creating a wallet that was not on disk, unless another caller has
created it. -/
theorem safe_createWallet {s : σ} (hnone : (view s).options name = none) :
    SafeRpc env view others name (ElementsRpc.createWallet name)
      (fun res s' => Told refused others name res (view s')) s := by
  refine SafeRpc.bind (SafeRpc.call (A := fun w => w.options name = none ∨
    name ∈ others ∧ w.loaded name) ?_ (.inl hnone) ?_)
  · intro s s' hgrows hs
    rcases hs with hnone | ⟨hother, hloaded⟩
    · exact (hgrows.created name hnone).imp_right fun h => ⟨h.1, h.2.2⟩
    · exact .inr ⟨hother, hgrows.loaded name hloaded⟩
  · intro s₁ hs₁ res s₂ hres
    obtain ⟨hstep, hok, herror⟩ := hdaemon.createwallet s₁ name _ res s₂ hres
    have hgrows : GrowsTo view {name} s₁ s₂ := by
      rcases hstep with hsame | hcreates
      · rw [GrowsTo, hsame]
        exact .refl _
      · exact hcreates.grows rfl
    refine ⟨hgrows, ?_⟩
    cases res with
    | ok v => exact Prog.safe_pure.mpr ⟨fun _ => hok v rfl, fun cause heq => by cases heq⟩
    | error e =>
        refine ⟨fun heq => (by cases heq), ?_⟩
        intro cause heq hcause
        cases heq
        have hsome := herror e rfl hcause
        rcases hs₁ with hnone | ⟨hother, hloaded⟩
        · rw [hnone] at hsome
          cases hsome
        · exact ⟨hother, hgrows.loaded name hloaded⟩

theorem safe_ensureWalletLoaded (s : σ) :
    SafeRpc env view others name (ElementsRpc.ensureWalletLoaded name)
      (fun res s' => Told refused others name res (view s')) s := by
  refine SafeRpc.bind (Prog.safe_mono ?_ (safe_listWallets hdaemon s))
  intro res s₁ hlisted
  cases res with
  | error e => exact told_of_notRefused hlisted
  | ok loaded =>
      have hloaded : ∀ n, n ∈ loaded ↔ (view s₁).loaded n := hlisted
      dsimp only
      split
      · next hany =>
          obtain ⟨n, hn, heq⟩ := List.any_eq_true.mp hany
          obtain rfl := beq_iff_eq.mp heq
          exact Prog.safe_pure.mpr ⟨fun _ => (hloaded n).mp hn, fun cause heq => by cases heq⟩
      · next hany =>
          -- Nobody else loads it, if nobody else is asked to.
          have hnot : ¬(view s₁).loaded name := fun h =>
            hany (List.any_eq_true.mpr ⟨name, (hloaded name).mpr h, beq_self_eq_true name⟩)
          have hkept : Kept view others fun w => name ∉ others → ¬w.loaded name := by
            intro s s' hgrows hnot hother hloaded
            exact (hgrows.asked name hloaded).elim (hnot hother) hother
          refine SafeRpc.bind (Prog.safe_mono ?_
            (safe_listWalletDir hdaemon hkept (s := s₁) fun _ => hnot))
          intro res s₂ hdir
          cases res with
          | error e => exact told_of_notRefused hdir
          | ok onDisk =>
              obtain ⟨hnot', hdisk⟩ : (name ∉ others → ¬(view s₂).loaded name) ∧
                ∀ n, n ∈ onDisk ↔ ((view s₂).options n).isSome := hdir
              dsimp only
              split
              · next hany =>
                  obtain ⟨n, hn, heq⟩ := List.any_eq_true.mp hany
                  obtain rfl := beq_iff_eq.mp heq
                  exact safe_loadWallet hdaemon ((hdisk n).mp hn) hnot'
              · next hany =>
                  refine safe_createWallet hdaemon ?_
                  by_contra hsome
                  refine hany (List.any_eq_true.mpr ⟨name, ?_, beq_self_eq_true name⟩)
                  exact (hdisk name).mpr (Option.isSome_iff_ne_none.mpr hsome)

end

/-! ## Any number of callers -/

/-- Callers ensure wallets in any interleaving. Each that has returned
was told that its wallet is loaded, or was refused because of another
caller for the same wallet, which has it loaded, or the daemon failed.
Wallets that were there keep their options, those that are new were
asked for and have the options of `create_wallet`, and nothing is
unloaded or loaded without being asked for. -/
theorem wallets_are_loaded {ι σ : Type} [DecidableEq ι]
    {env : Prog.Env σ Empty RpcCall RpcCall.Res} {view : σ → DaemonWallets}
    {refused : RpcError → Prop} (hdaemon : WalletDaemon env view refused) {name : ι → String}
    {P' : ι → Prog RpcCall RpcCall.Res (Except ElementsRpcError Unit)} {s s' : σ}
    (hrun : Prog.PoolRun (fun _ => env) (fun _ _ _ => True)
      (fun i => (ElementsRpc.ensureWalletLoaded (name i)).run) s P' s') :
    (∀ i res, P' i = .ret res →
      Told refused {n | ∃ j, j ≠ i ∧ name j = n} (name i) res (view s')) ∧
    (view s).Grows (Set.range name) (view s') := by
  have hkeeps : ∀ i res s₁ s₂, GrowsTo view {n | ∃ j, j ≠ i ∧ name j = n} s₁ s₂ →
      Told refused {n | ∃ j, j ≠ i ∧ name j = n} (name i) res (view s₁) →
      Told refused {n | ∃ j, j ≠ i ∧ name j = n} (name i) res (view s₂) := by
    intro i res s₁ s₂ hgrows htold
    refine ⟨fun hok => hgrows.loaded _ (htold.ok hok), ?_⟩
    intro cause heq hcause
    obtain ⟨hother, hloaded⟩ := htold.refusal cause heq hcause
    exact ⟨hother, hgrows.loaded _ hloaded⟩
  have hothers : ∀ i j, j ≠ i → ∀ s₁ s₂, GrowsTo view {name i} s₁ s₂ →
      GrowsTo view {n | ∃ i', i' ≠ j ∧ name i' = n} s₁ s₂ := by
    intro i j hne s₁ s₂ hgrows
    exact hgrows.mono (Set.singleton_subset_iff.mpr ⟨i, fun h => hne h.symm, rfl⟩)
  have hI : ∀ i s₁ s₂, GrowsTo view {name i} s₁ s₂ → GrowsTo view (Set.range name) s s₁ →
      GrowsTo view (Set.range name) s s₂ := by
    intro i s₁ s₂ hgrows hI
    exact hI.trans (hgrows.mono (Set.singleton_subset_iff.mpr ⟨i, rfl⟩))
  obtain ⟨hsafe, hgrows⟩ := Prog.PoolRun.safe (fun i s => .refl _)
    (fun i s₁ s₂ s₃ h h' => h.trans h') hkeeps hothers hI
    (fun i => safe_ensureWalletLoaded hdaemon s) (.refl _) hrun
  refine ⟨?_, hgrows⟩
  intro i res heq
  have hi := hsafe i
  rw [heq] at hi
  exact hi

/-! Two callers for a new wallet, which both look at the disk before one
of them has created it, and one for a wallet that is on disk. -/

/-- The wallets on a daemon's disk, and which of them are loaded. -/
abbrev WalletTable : Type := Map String (List Json.Value × Bool)

def WalletTable.view (t : WalletTable) : DaemonWallets where
  options n := (t.lookup n).map (·.1)
  loaded n := ∃ options, t.lookup n = some (options, true)
  onDisk n := by
    rintro ⟨options, h⟩
    rw [h]
    rfl

def WalletTable.answer (t : WalletTable) (call : RpcCall) : RpcCall.Res call × WalletTable :=
  match call.method, call.params with
  | "listwallets", [] =>
      (.ok (.array (((t.entries.filter (·.2.2)).map (·.1)).map .string)), t)
  | "listwalletdir", [] =>
      (.ok (.object [("wallets", .array
        (t.entries.map fun w => .object [("name", .string w.1)]))]), t)
  | "loadwallet", [.string name] =>
      match t.lookup name with
      | none => (.error (.jsonRpc (-18) "Wallet file not found"), t)
      | some (_, true) => (.error (.jsonRpc (-35) "Wallet already loaded"), t)
      | some (options, false) =>
        (.ok (.object [("name", .string name)]), t.insert name (options, true))
  | "createwallet", .string name :: options =>
      match t.lookup name with
      | none => (.ok (.object [("name", .string name)]), t.insert name (options, true))
      | some _ => (.error (.jsonRpc (-4) "Database already exists"), t)
  | _, _ => (.error (.jsonRpc (-32601) "Method not found"), t)

def tableEnv : Prog.Env WalletTable Empty RpcCall RpcCall.Res := fun t call res t' =>
  res = .ok (t.answer call).1 ∧ t' = (t.answer call).2

namespace WalletTable

theorem answer_loadwallet (t : WalletTable) (name : String) :
    t.answer ⟨"loadwallet", [.string name]⟩ = match t.lookup name with
      | none => (.error (.jsonRpc (-18) "Wallet file not found"), t)
      | some (_, true) => (.error (.jsonRpc (-35) "Wallet already loaded"), t)
      | some (options, false) =>
        (.ok (.object [("name", .string name)]), t.insert name (options, true)) :=
  rfl

theorem answer_createwallet (t : WalletTable) (name : String) (options : List Json.Value) :
    t.answer ⟨"createwallet", .string name :: options⟩ = match t.lookup name with
      | none => (.ok (.object [("name", .string name)]), t.insert name (options, true))
      | some _ => (.error (.jsonRpc (-4) "Database already exists"), t) :=
  rfl

theorem loaded_insert (t : WalletTable) (name : String) (options : List Json.Value) (n : String) :
    (view (t.insert name (options, true))).loaded n ↔ n = name ∨ t.view.loaded n := by
  simp only [view, Map.lookup_insert_eq]
  by_cases heq : n = name
  · simp only [heq, if_pos, true_or, iff_true]
    exact ⟨options, rfl⟩
  · simp only [heq, if_false, false_or]

end WalletTable

/-- The codes with which a daemon refuses to load or to create. -/
def RpcError.Refusal : RpcError → Prop
  | .jsonRpc code _ => code = -18 ∨ code = -35 ∨ code = -4
  | _ => False

theorem walletDaemon_table : WalletDaemon tableEnv WalletTable.view RpcError.Refusal where
  listwallets := by
    rintro t _ _ ⟨heq, rfl⟩
    obtain rfl := Except.ok.inj heq
    refine ⟨rfl, fun e h => (by cases h), ?_⟩
    intro v hv
    obtain rfl := Except.ok.inj hv
    refine ⟨_, rfl, ?_⟩
    intro n
    simp only [List.mem_map, List.mem_filter]
    constructor
    · rintro ⟨⟨_, options, loaded⟩, ⟨hmem, rfl⟩, rfl⟩
      exact ⟨options, Map.mem_entries_iff.mp hmem⟩
    · rintro ⟨options, h⟩
      exact ⟨⟨n, options, true⟩, ⟨Map.mem_entries_iff.mpr h, rfl⟩, rfl⟩
  listwalletdir := by
    rintro t _ _ ⟨heq, rfl⟩
    obtain rfl := Except.ok.inj heq
    refine ⟨rfl, fun e h => (by cases h), ?_⟩
    intro v hv
    obtain rfl := Except.ok.inj hv
    refine ⟨_, rfl, ?_⟩
    intro n
    simp only [List.mem_map, WalletTable.view, Option.isSome_map]
    constructor
    · rintro ⟨_, ⟨⟨_, wallet⟩, hmem, rfl⟩, hname⟩
      obtain rfl := Json.Value.string.inj (Option.some.inj hname)
      exact Option.isSome_of_eq_some (Map.mem_entries_iff.mp hmem)
    · intro hsome
      obtain ⟨wallet, hwallet⟩ := Option.isSome_iff_exists.mp hsome
      exact ⟨_, ⟨⟨n, wallet⟩, Map.mem_entries_iff.mpr hwallet, rfl⟩, rfl⟩
  loadwallet := by
    rintro t name _ _ ⟨heq, rfl⟩
    obtain rfl := Except.ok.inj heq
    rw [WalletTable.answer_loadwallet]
    cases hname : t.lookup name with
    | none =>
        refine ⟨.inl rfl, fun v h => (by cases h), fun e _ _ => .inr ?_⟩
        exact congrArg (Option.map Prod.fst) hname
    | some wallet =>
        obtain ⟨options, _ | _⟩ := wallet
        · have hnot : ¬∃ options, t.lookup name = some (options, true) := by
            rintro ⟨options', h⟩
            cases hname.symm.trans h
          refine ⟨.inr ⟨?_, ?_, ?_⟩, fun v _ => ⟨options, AList.lookup_insert t⟩,
            fun e h => (by cases h)⟩
          · exact Option.isSome_of_eq_some (congrArg (Option.map Prod.fst) hname)
          · funext n
            simp only [WalletTable.view, Map.lookup_insert_eq]
            split
            · next heq => rw [heq, hname]; rfl
            · rfl
          · exact WalletTable.loaded_insert t name options
        · exact ⟨.inl rfl, fun v h => (by cases h), fun e _ _ => .inl ⟨options, hname⟩⟩
  createwallet := by
    rintro t name options _ _ ⟨heq, rfl⟩
    obtain rfl := Except.ok.inj heq
    rw [WalletTable.answer_createwallet]
    cases hname : t.lookup name with
    | none =>
        refine ⟨.inr ⟨congrArg (Option.map Prod.fst) hname, ?_,
          WalletTable.loaded_insert t name options⟩,
          fun v _ => ⟨options, AList.lookup_insert t⟩, fun e h => (by cases h)⟩
        intro n
        simp only [WalletTable.view, Map.lookup_insert_eq]
        split <;> rfl
    | some wallet =>
        refine ⟨.inl rfl, fun v h => (by cases h), fun e _ _ => ?_⟩
        exact Option.isSome_of_eq_some (congrArg (Option.map Prod.fst) hname)

def callerName (i : Fin 3) : String := if i = 2 then "old" else "new"

/-- Callers `0` and `1` in turn, and then caller `2`. -/
def threeCallers :
    (Fin 3 → Prog RpcCall RpcCall.Res (Except ElementsRpcError Unit)) × WalletTable :=
  Prog.runSchedule (fun _ t call => (.ok (t.answer call).1, (t.answer call).2) :
    Fin 3 → WalletTable → (call : RpcCall) → Except Empty (RpcCall.Res call) × WalletTable)
    (fun _ _ _ => true) [0, 1, 0, 1, 0, 1, 2, 2, 2] (fun i => (ElementsRpc.ensureWalletLoaded (callerName i)).run)
    (Map.collect [("old", [.bool false], false)])

theorem wallets_are_loaded_threeCallers :
    Told RpcError.Refusal {n | ∃ j : Fin 3, j ≠ 1 ∧ callerName j = n} "new"
        (.error (.rpc (.jsonRpc (-4) "Database already exists"))) threeCallers.2.view ∧
      (WalletTable.view (Map.collect [("old", [.bool false], false)])).Grows (Set.range callerName)
        threeCallers.2.view := by
  have hrun : Prog.PoolRun (fun _ => tableEnv) (fun _ _ _ => True)
      (fun i => (ElementsRpc.ensureWalletLoaded (callerName i)).run)
      (Map.collect [("old", [.bool false], false)]) threeCallers.1 threeCallers.2 :=
    Prog.poolRun_runSchedule (fun _ _ _ => ⟨rfl, rfl⟩) (fun _ _ _ _ => trivial) _ _ _
  obtain ⟨htold, hgrows⟩ := wallets_are_loaded walletDaemon_table hrun
  exact ⟨htold 1 _ rfl, hgrows⟩

end EmvaultElements
