/-!
# Programs over calls

A program is a tree of calls to an environment: each call is answered
by a value, which the rest of the program sees, or by an error, which
ends the program. Nothing in the syntax says who answers, so one
program can be run against a store that never fails, a source that
fails at one call, or a peer that moves between two calls.

- `Exec env p s o s'` is one execution, from state `s` to `s'`, in an
  environment `env` given as a relation (so it may be nondeterministic).
- `wp env p Q s` holds when *every* execution ends in `Q`; it computes
  by recursion on the program, and `wp_bind` makes it compositional.
- `atCalls env p I s` holds when every call of every execution is made
  in a state satisfying `I`; `FailsAt` is the execution that stops
  because one of these calls fails, with no effect of its own.
- `run step p s` is the execution in a deterministic environment.
-/

namespace EmvaultElements

/-- How a program ends: with a value, with the error of a failed call,
or in a panic. -/
inductive Outcome (ε α : Type) where
  | ok (a : α)
  | err (e : ε)
  | panic
deriving Repr, DecidableEq

/-- A program over the calls `Op`, where `op` is answered in `Res op`. -/
inductive Prog (Op : Type) (Res : Op → Type) (α : Type) where
  | ret (a : α)
  | panic
  | call (op : Op) (k : Res op → Prog Op Res α)

namespace Prog

variable {Op : Type} {Res : Op → Type} {α β σ ε : Type}

/-- Sequencing: the calls of the first program, then those of `f`. -/
def bind : Prog Op Res α → (α → Prog Op Res β) → Prog Op Res β
  | .ret a, f => f a
  | .panic, _ => .panic
  | .call op k, f => .call op fun r => (k r).bind f

instance : Monad (Prog Op Res) where
  pure := .ret
  bind := bind

theorem bind_ret : ∀ p : Prog Op Res α, p.bind .ret = p
  | .ret _ => rfl
  | .panic => rfl
  | .call op k => congrArg (Prog.call op) (funext fun r => bind_ret (k r))

theorem bind_bind {γ : Type} (f : α → Prog Op Res β) (g : β → Prog Op Res γ) :
    ∀ p : Prog Op Res α, (p.bind f).bind g = p.bind fun a => (f a).bind g
  | .ret _ => rfl
  | .panic => rfl
  | .call op k => congrArg (Prog.call op) (funext fun r => bind_bind f g (k r))

instance : LawfulMonad (Prog Op Res) :=
  LawfulMonad.mk' _ bind_ret (fun _ _ => rfl) fun p f g => bind_bind f g p

/-- The program that makes one call and returns its answer. -/
def perform (op : Op) : Prog Op Res (Res op) := .call op .ret

/-! ## Executions -/

/-- An environment: from state `s`, the call `op` may be answered by
`r`, leaving state `s'`. -/
def Env (σ ε : Type) (Op : Type) (Res : Op → Type) : Type :=
  σ → (op : Op) → Except ε (Res op) → σ → Prop

/-- One execution. An error ends the program at once, in the state the
failed call left. -/
inductive Exec (env : Env σ ε Op Res) :
    Prog Op Res α → σ → Outcome ε α → σ → Prop where
  | ret {a : α} {s : σ} : Exec env (.ret a) s (.ok a) s
  | panic {s : σ} : Exec env .panic s .panic s
  | answered {op : Op} {k : Res op → Prog Op Res α} {s s₁ s₂ : σ} {r : Res op}
      {o : Outcome ε α} (hcall : env s op (.ok r) s₁) (hrest : Exec env (k r) s₁ o s₂) :
      Exec env (.call op k) s o s₂
  | failed {op : Op} {k : Res op → Prog Op Res α} {s s₁ : σ} {e : ε}
      (hcall : env s op (.error e) s₁) : Exec env (.call op k) s (.err e) s₁

/-- The execution that makes its calls successfully until `op`, which
fails and leaves the state `s'` it was made in. -/
inductive FailsAt (env : Env σ ε Op Res) : Prog Op Res α → σ → Op → σ → Prop where
  | here {op : Op} {k : Res op → Prog Op Res α} {s : σ} : FailsAt env (.call op k) s op s
  | later {op op' : Op} {k : Res op → Prog Op Res α} {s s₁ s₂ : σ} {r : Res op}
      (hcall : env s op (.ok r) s₁) (hrest : FailsAt env (k r) s₁ op' s₂) :
      FailsAt env (.call op k) s op' s₂

/-- More answers, more executions. -/
theorem Exec.mono {env env' : Env σ ε Op Res}
    (hsub : ∀ s op r s', env s op r s' → env' s op r s') {p : Prog Op Res α}
    {s s' : σ} {o : Outcome ε α} (h : Exec env p s o s') : Exec env' p s o s' := by
  induction h with
  | ret => exact .ret
  | panic => exact .panic
  | answered hcall _ ih => exact .answered (hsub _ _ _ _ hcall) ih
  | failed hcall => exact .failed (hsub _ _ _ _ hcall)

/-- A program can always be executed when every call has an answer. -/
theorem exists_exec {env : Env σ ε Op Res} (htotal : ∀ s op, ∃ r s', env s op r s') :
    ∀ (p : Prog Op Res α) (s : σ), ∃ o s', Exec env p s o s'
  | .ret a, s => ⟨.ok a, s, .ret⟩
  | .panic, s => ⟨.panic, s, .panic⟩
  | .call op k, s => by
      obtain ⟨r, s₁, hcall⟩ := htotal s op
      cases r with
      | error e => exact ⟨.err e, s₁, .failed hcall⟩
      | ok v =>
          obtain ⟨o, s₂, hrest⟩ := exists_exec htotal (k v) s₁
          exact ⟨o, s₂, .answered hcall hrest⟩

theorem FailsAt.bind {env : Env σ ε Op Res} {p : Prog Op Res α} (f : α → Prog Op Res β)
    {s s' : σ} {op : Op} (h : FailsAt env p s op s') : FailsAt env (p >>= f) s op s' := by
  induction h with
  | here => exact .here
  | later hcall _ ih => exact .later hcall ih

/-- In an environment in which the call fails with no effect, so does
the program. -/
theorem FailsAt.exec {env env' : Env σ ε Op Res}
    (hsub : ∀ s op r s', env s op r s' → env' s op r s') {p : Prog Op Res α} {s s' : σ} {op : Op}
    {e : ε} (h : FailsAt env p s op s') (hfail : env' s' op (.error e) s') :
    Exec env' p s (.err e) s' := by
  induction h with
  | here => exact .failed hfail
  | later hcall _ ih => exact .answered (hsub _ _ _ _ hcall) (ih hfail)

/-! ## Weakest preconditions -/

/-- Every execution of the program from `s` ends in `Q`. -/
def wp (env : Env σ ε Op Res) : Prog Op Res α → (Outcome ε α → σ → Prop) → σ → Prop
  | .ret a, Q, s => Q (.ok a) s
  | .panic, Q, s => Q .panic s
  | .call op k, Q, s =>
      (∀ v s', env s op (.ok v) s' → wp env (k v) Q s')
        ∧ ∀ e s', env s op (.error e) s' → Q (.err e) s'

/-- The postcondition the first half of a sequence has to meet. -/
def andThen (env : Env σ ε Op Res) (f : α → Prog Op Res β)
    (Q : Outcome ε β → σ → Prop) : Outcome ε α → σ → Prop
  | .ok a, s => wp env (f a) Q s
  | .err e, s => Q (.err e) s
  | .panic, s => Q .panic s

theorem wp_sound {env : Env σ ε Op Res} {Q : Outcome ε α → σ → Prop} :
    ∀ {p : Prog Op Res α} {s s' : σ} {o : Outcome ε α},
      wp env p Q s → Exec env p s o s' → Q o s'
  | _, _, _, _, h, .ret => h
  | _, _, _, _, h, .panic => h
  | _, _, _, _, h, .answered hcall hrest => wp_sound (h.1 _ _ hcall) hrest
  | _, _, _, _, h, .failed hcall => h.2 _ _ hcall

theorem wp_of_exec {env : Env σ ε Op Res} {Q : Outcome ε α → σ → Prop} :
    ∀ {p : Prog Op Res α} {s : σ}, (∀ o s', Exec env p s o s' → Q o s') → wp env p Q s
  | .ret _, _, h => h _ _ .ret
  | .panic, _, h => h _ _ .panic
  | .call _ _, _, h =>
      ⟨fun _ _ hcall => wp_of_exec fun o s' hrest => h o s' (.answered hcall hrest),
        fun _ _ hcall => h _ _ (.failed hcall)⟩

@[simp] theorem wp_pure {env : Env σ ε Op Res} {Q : Outcome ε α → σ → Prop} {a : α} {s : σ} :
    wp env (pure a) Q s ↔ Q (.ok a) s := Iff.rfl

@[simp] theorem wp_panic {env : Env σ ε Op Res} {Q : Outcome ε α → σ → Prop} {s : σ} :
    wp env .panic Q s ↔ Q .panic s := Iff.rfl

@[simp] theorem wp_perform {env : Env σ ε Op Res} {op : Op}
    {Q : Outcome ε (Res op) → σ → Prop} {s : σ} :
    wp env (perform op) Q s ↔
      (∀ v s', env s op (.ok v) s' → Q (.ok v) s')
        ∧ ∀ e s', env s op (.error e) s' → Q (.err e) s' := Iff.rfl

@[simp] theorem wp_bind {env : Env σ ε Op Res} {f : α → Prog Op Res β}
    {Q : Outcome ε β → σ → Prop} :
    ∀ {p : Prog Op Res α} {s : σ}, wp env (p >>= f) Q s ↔ wp env p (andThen env f Q) s
  | .ret _, _ => Iff.rfl
  | .panic, _ => Iff.rfl
  | .call _ _, _ =>
      and_congr (forall_congr' fun _ => forall_congr' fun _ => imp_congr_right fun _ => wp_bind)
        Iff.rfl

theorem exec_pure {env : Env σ ε Op Res} {a b : α} {s s' : σ} :
    Exec env (pure a) s (.ok b) s' ↔ b = a ∧ s' = s := by
  constructor
  · intro h
    cases h
    exact ⟨rfl, rfl⟩
  · rintro ⟨rfl, rfl⟩
    exact .ret

theorem exec_perform {env : Env σ ε Op Res} {op : Op} {v : Res op} {s s' : σ} :
    Exec env (perform op) s (.ok v) s' ↔ env s op (.ok v) s' := by
  constructor
  · intro h
    cases h with
    | answered hcall hrest =>
        cases hrest
        exact hcall
  · exact fun hcall => .answered hcall .ret

/-- Executions of the two halves make one of the sequence. -/
theorem Exec.seq {env : Env σ ε Op Res} {f : α → Prog Op Res β} {p : Prog Op Res α}
    {s s₁ s₂ : σ} {a : α} {o : Outcome ε β} (hp : Exec env p s (.ok a) s₁)
    (hf : Exec env (f a) s₁ o s₂) : Exec env (p >>= f) s o s₂ := by
  generalize ho : (Outcome.ok a : Outcome ε α) = first at hp
  induction hp with
  | ret =>
      cases ho
      exact hf
  | panic => cases ho
  | answered hcall _ ih => exact .answered hcall (ih hf ho)
  | failed _ => cases ho

/-- An execution of a sequence goes on with the second half, or ends in
the first. -/
theorem exec_bind_cases {env : Env σ ε Op Res} {f : α → Prog Op Res β} {p : Prog Op Res α}
    {s s' : σ} {o : Outcome ε β} (h : Exec env (p >>= f) s o s') :
    (∃ a s₁, Exec env p s (.ok a) s₁ ∧ Exec env (f a) s₁ o s') ∨
      (∃ e, o = .err e ∧ Exec env p s (.err e) s') ∨ o = .panic ∧ Exec env p s .panic s' := by
  have hwp : wp env (p >>= f) (fun o s' =>
      (∃ a s₁, Exec env p s (.ok a) s₁ ∧ Exec env (f a) s₁ o s') ∨
        (∃ e, o = .err e ∧ Exec env p s (.err e) s') ∨ o = .panic ∧ Exec env p s .panic s') s := by
    refine wp_bind.mpr (wp_of_exec ?_)
    intro first s₁ hp
    cases first with
    | ok a => exact wp_of_exec fun o' s₂ hf => .inl ⟨a, s₁, hp, hf⟩
    | err e => exact .inr (.inl ⟨e, rfl, hp⟩)
    | panic => exact .inr (.inr ⟨rfl, hp⟩)
  exact wp_sound hwp h

/-- No execution of the program panics. -/
def NoPanic (env : Env σ ε Op Res) (p : Prog Op Res α) : Prop :=
  ∀ s s', ¬Exec env p s .panic s'

theorem noPanic_pure {env : Env σ ε Op Res} {a : α} : NoPanic env (pure a) := by
  intro s s' h
  cases h

/-- A call may fail, but it does not panic. -/
theorem noPanic_perform {env : Env σ ε Op Res} {op : Op} : NoPanic env (perform op) := by
  intro s s' h
  cases h with
  | answered _ hrest => cases hrest

theorem NoPanic.bind {env : Env σ ε Op Res} {f : α → Prog Op Res β} {p : Prog Op Res α}
    (hp : NoPanic env p) (hf : ∀ a, NoPanic env (f a)) : NoPanic env (p >>= f) := by
  intro s s' h
  rcases exec_bind_cases h with ⟨a, s₁, -, hrest⟩ | ⟨e, herr, -⟩ | ⟨-, hpanic⟩
  · exact hf a s₁ s' hrest
  · cases herr
  · exact hp s s' hpanic

theorem NoPanic.ite {env : Env σ ε Op Res} {c : Prop} [Decidable c] {p q : Prog Op Res α}
    (hp : NoPanic env p) (hq : NoPanic env q) : NoPanic env (if c then p else q) := by
  split
  · exact hp
  · exact hq

/-- An execution of a sequence splits at the point between its halves. -/
theorem exec_bind {env : Env σ ε Op Res} {f : α → Prog Op Res β} {p : Prog Op Res α}
    {s s' : σ} {b : β} (h : Exec env (p >>= f) s (.ok b) s') :
    ∃ a s₁, Exec env p s (.ok a) s₁ ∧ Exec env (f a) s₁ (.ok b) s' := by
  rcases exec_bind_cases h with hsplit | ⟨e, herr, -⟩ | ⟨hpanic, -⟩
  · exact hsplit
  · cases herr
  · cases hpanic

/-! ## The states in which calls are made -/

/-- Every call of every execution from `s` is made in a state, and with
arguments, satisfying `I`. -/
def atCalls (env : Env σ ε Op Res) : Prog Op Res α → (σ → Op → Prop) → σ → Prop
  | .ret _, _, _ => True
  | .panic, _, _ => True
  | .call op k, I, s => I s op ∧ ∀ v s', env s op (.ok v) s' → atCalls env (k v) I s'

theorem atCalls_sound {env : Env σ ε Op Res} {I : σ → Op → Prop} :
    ∀ {p : Prog Op Res α} {s s' : σ} {op : Op},
      atCalls env p I s → FailsAt env p s op s' → I s' op
  | _, _, _, _, h, .here => h.1
  | _, _, _, _, h, .later hcall hrest => atCalls_sound (h.2 _ _ hcall) hrest

theorem atCalls_bind {env : Env σ ε Op Res} {I : σ → Op → Prop} {f : α → Prog Op Res β} :
    ∀ {p : Prog Op Res α} {s : σ}, atCalls env p I s →
      wp env p (fun o s' => ∀ a, o = .ok a → atCalls env (f a) I s') s →
      atCalls env (p >>= f) I s
  | .ret a, _, _, hf => hf a rfl
  | .panic, _, _, _ => trivial
  | .call _ _, _, h, hf =>
      ⟨h.1, fun v s' hcall => atCalls_bind (h.2 v s' hcall) (hf.1 v s' hcall)⟩

/-- A sequence makes the calls of its halves. -/
theorem atCalls_seq {env : Env σ ε Op Res} {I : σ → Op → Prop} {p : Prog Op Res α}
    {f : α → Prog Op Res β} (hp : ∀ s, atCalls env p I s) (hf : ∀ a s, atCalls env (f a) I s)
    (s : σ) : atCalls env (p >>= f) I s :=
  atCalls_bind (hp s) (wp_of_exec fun _ s' _ a _ => hf a s')

theorem atCalls_ite {env : Env σ ε Op Res} {I : σ → Op → Prop} {c : Prop} [Decidable c]
    {p q : Prog Op Res α} (hp : ∀ s, atCalls env p I s) (hq : ∀ s, atCalls env q I s) (s : σ) :
    atCalls env (if c then p else q) I s := by
  split
  · exact hp s
  · exact hq s

/-! ## Deterministic environments -/

/-- Run the program, answering each call by `step`. -/
def run (step : σ → (op : Op) → Except ε (Res op) × σ) :
    Prog Op Res α → σ → Outcome ε α × σ
  | .ret a, s => (.ok a, s)
  | .panic, s => (.panic, s)
  | .call op k, s =>
      match step s op with
      | (.ok v, s') => run step (k v) s'
      | (.error e, s') => (.err e, s')

/-- A run is an execution of every environment that allows its answers. -/
theorem exec_run {env : Env σ ε Op Res} {step : σ → (op : Op) → Except ε (Res op) × σ}
    (hstep : ∀ s op, env s op (step s op).1 (step s op).2) :
    ∀ (p : Prog Op Res α) (s : σ), Exec env p s (run step p s).1 (run step p s).2
  | .ret _, _ => .ret
  | .panic, _ => .panic
  | .call op k, s => by
      have hcall := hstep s op
      rw [run]
      rcases hs : step s op with ⟨r, s'⟩
      rw [hs] at hcall
      cases r with
      | ok v => exact .answered hcall (exec_run hstep (k v) s')
      | error e => exact .failed hcall

/-- Run the program up to the first call in `bad`. -/
def runUntil (step : σ → (op : Op) → Except ε (Res op) × σ) (bad : Op → Bool) :
    Prog Op Res α → σ → Option (Op × σ)
  | .ret _, _ => none
  | .panic, _ => none
  | .call op k, s =>
      if bad op then some (op, s)
      else match step s op with
        | (.ok v, s') => runUntil step bad (k v) s'
        | (.error _, _) => none

theorem failsAt_runUntil {env : Env σ ε Op Res} {step : σ → (op : Op) → Except ε (Res op) × σ}
    (hstep : ∀ s op, env s op (step s op).1 (step s op).2) {bad : Op → Bool} {op : Op} {s' : σ} :
    ∀ {p : Prog Op Res α} {s : σ}, runUntil step bad p s = some (op, s') → FailsAt env p s op s'
  | .call op' k, s, h => by
      rw [runUntil] at h
      split at h
      · cases h
        exact .here
      · have hcall := hstep s op'
        rcases hs : step s op' with ⟨r, s₁⟩
        rw [hs] at h hcall
        cases r with
        | ok v => exact .later hcall (failsAt_runUntil hstep h)
        | error e => cases h

end Prog

end EmvaultElements
