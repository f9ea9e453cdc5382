import Mathlib.Logic.Function.Basic
import EmvaultElements.Prog

/-!
# Pools of programs

Several programs over one state, each making one call at a time, in any
order (`PoolRun`). A program whose call fails stops there and never
returns.

- `safe env allowed R G p Q s` is a precondition of one program among
  others: as long as the others take only steps of `R` in between, every
  call it makes is a step of `G`, and if it returns it does so in `Q`.
  Like `wp` it computes by recursion on the program, and `safe_bind`
  makes it compositional.
- `PoolRun.safe`: programs each of which is safe, and whose own steps
  the others allow for, are safe throughout a run of the pool.
- `PoolRun.withHistory` adds a history variable, which the calls write
  and nothing reads.
-/

namespace EmvaultElements

namespace Prog

variable {ι Op : Type} {Res : Op → Type} {α β σ ε η : Type}

/-! ## Runs -/

section Runs

variable [DecidableEq ι]

/-- The runs of a pool in which every call is allowed when it is made. -/
inductive PoolRun (env : ι → Env σ ε Op Res) (allowed : ι → σ → Op → Prop)
    (P : ι → Prog Op Res α) (s : σ) : (ι → Prog Op Res α) → σ → Prop
  | start : PoolRun env allowed P s P s
  | call {P' : ι → Prog Op Res α} {s₁ s₂ : σ} (i : ι) {op : Op} {k : Res op → Prog Op Res α}
      {v : Res op} (hrun : PoolRun env allowed P s P' s₁) (hnext : P' i = .call op k)
      (hallowed : allowed i s₁ op) (hcall : env i s₁ op (.ok v) s₂) :
      PoolRun env allowed P s (Function.update P' i (k v)) s₂

/-- Run the pool along a schedule, answering the calls by `step`. It
stops at a call that fails or is not `ok`. -/
def runSchedule (step : ι → σ → (op : Op) → Except ε (Res op) × σ) (ok : ι → σ → Op → Bool) :
    List ι → (ι → Prog Op Res α) → σ → (ι → Prog Op Res α) × σ
  | [], P, s => (P, s)
  | i :: is, P, s =>
      match P i with
      | .call op k =>
          match ok i s op, step i s op with
          | true, (.ok v, s') => runSchedule step ok is (Function.update P i (k v)) s'
          | _, _ => (P, s)
      | _ => (P, s)

theorem PoolRun.trans {env : ι → Env σ ε Op Res} {allowed : ι → σ → Op → Prop}
    {P P' P'' : ι → Prog Op Res α} {s s' s'' : σ} (h : PoolRun env allowed P s P' s')
    (h' : PoolRun env allowed P' s' P'' s'') : PoolRun env allowed P s P'' s'' := by
  induction h' with
  | start => exact h
  | call i _ hnext hallowed hcall ih => exact .call i ih hnext hallowed hcall

theorem poolRun_runSchedule {env : ι → Env σ ε Op Res} {allowed : ι → σ → Op → Prop}
    {step : ι → σ → (op : Op) → Except ε (Res op) × σ} {ok : ι → σ → Op → Bool}
    (hstep : ∀ i s op, env i s op (step i s op).1 (step i s op).2)
    (hok : ∀ i s op, ok i s op = true → allowed i s op) :
    ∀ (is : List ι) (P : ι → Prog Op Res α) (s : σ),
      PoolRun env allowed P s (runSchedule step ok is P s).1 (runSchedule step ok is P s).2
  | [], _, _ => .start
  | i :: is, P, s => by
      unfold runSchedule
      split
      · next op k hnext =>
          split
          · next v s' hallowed hs =>
              have hcall := hstep i s op
              rw [hs] at hcall
              exact PoolRun.trans (.call i .start hnext (hok i s op hallowed) hcall)
                (poolRun_runSchedule hstep hok is _ s')
          · exact .start
      · exact .start

end Runs

/-! ## One program among others -/

/-- What the program needs of the state, when the others take steps of
`R` between its calls, to make only steps of `G` and to return in `Q`. -/
def safe (env : Env σ ε Op Res) (allowed : σ → Op → Prop) (R G : σ → σ → Prop) :
    Prog Op Res α → (α → σ → Prop) → σ → Prop
  | .ret a, Q, s => Q a s
  | .panic, _, _ => True
  | .call op k, Q, s => ∀ s₁, R s s₁ → allowed s₁ op → ∀ v s₂, env s₁ op (.ok v) s₂ →
      G s₁ s₂ ∧ safe env allowed R G (k v) Q s₂

section Safe

variable {env : Env σ ε Op Res} {allowed : σ → Op → Prop} {R G : σ → σ → Prop}

@[simp] theorem safe_pure {Q : α → σ → Prop} {a : α} {s : σ} :
    safe env allowed R G (pure a) Q s ↔ Q a s := Iff.rfl

@[simp] theorem safe_bind {f : α → Prog Op Res β} {Q : β → σ → Prop} :
    ∀ {p : Prog Op Res α} {s : σ}, safe env allowed R G (p >>= f) Q s ↔
      safe env allowed R G p (fun a s' => safe env allowed R G (f a) Q s') s
  | .ret _, _ => Iff.rfl
  | .panic, _ => Iff.rfl
  | .call _ _, _ => by
      refine forall_congr' fun s₁ => imp_congr_right fun _ => imp_congr_right fun _ =>
        forall_congr' fun v => forall_congr' fun s₂ => imp_congr_right fun _ => ?_
      exact and_congr_right fun _ => safe_bind

theorem safe_mono {Q Q' : α → σ → Prop} (hQ : ∀ a s, Q a s → Q' a s) :
    ∀ {p : Prog Op Res α} {s : σ}, safe env allowed R G p Q s → safe env allowed R G p Q' s
  | .ret a, s, h => hQ a s h
  | .panic, _, _ => trivial
  | .call _ _, _, h => fun s₁ hR hallowed v s₂ hv =>
      ⟨(h s₁ hR hallowed v s₂ hv).1, safe_mono hQ (h s₁ hR hallowed v s₂ hv).2⟩

/-- A call, made in a state that satisfies an assertion the others
keep. -/
theorem safe_perform {A : σ → Prop} (hstable : ∀ s s', R s s' → A s → A s') {op : Op}
    {Q : Res op → σ → Prop} {s : σ} (hA : A s)
    (hcall : ∀ s₁, A s₁ → allowed s₁ op → ∀ v s₂, env s₁ op (.ok v) s₂ → G s₁ s₂ ∧ Q v s₂) :
    safe env allowed R G (perform op) Q s :=
  fun s₁ hR hallowed v s₂ hv => hcall s₁ (hstable s s₁ hR hA) hallowed v s₂ hv

/-- The others may go on. -/
theorem safe_of_rely (htrans : ∀ s s' s'', R s s' → R s' s'' → R s s'') {Q : α → σ → Prop}
    (hQ : ∀ a s s', R s s' → Q a s → Q a s') {p : Prog Op Res α} {s s' : σ}
    (h : safe env allowed R G p Q s) (hR : R s s') : safe env allowed R G p Q s' := by
  cases p with
  | ret a => exact hQ a s s' hR h
  | panic => trivial
  | call op k => exact fun s₁ hR' => h s₁ (htrans s s' s₁ hR hR')

end Safe

/-! ## The pool -/

/-- The steps of one program are allowed for by the others, so all
programs stay safe; and what the steps of all of them preserve is an
invariant. -/
theorem PoolRun.safe [DecidableEq ι] {env : ι → Env σ ε Op Res} {allowed : ι → σ → Op → Prop}
    {R G : ι → σ → σ → Prop} {Q : ι → α → σ → Prop} {I : σ → Prop}
    (hrefl : ∀ i s, R i s s) (htrans : ∀ i s s' s'', R i s s' → R i s' s'' → R i s s'')
    (hQ : ∀ i a s s', R i s s' → Q i a s → Q i a s')
    (hothers : ∀ i j, j ≠ i → ∀ s s', G i s s' → R j s s')
    (hI : ∀ i s s', G i s s' → I s → I s') {P P' : ι → Prog Op Res α} {s s' : σ}
    (hstart : ∀ i, Prog.safe (env i) (allowed i) (R i) (G i) (P i) (Q i) s) (hI₀ : I s)
    (hrun : PoolRun env allowed P s P' s') :
    (∀ i, Prog.safe (env i) (allowed i) (R i) (G i) (P' i) (Q i) s') ∧ I s' := by
  induction hrun with
  | start => exact ⟨hstart, hI₀⟩
  | @call P' s₁ s₂ i op k v _ hnext hallowed hcall ih =>
      obtain ⟨hsafe, hinv⟩ := ih
      have hown := hsafe i
      rw [hnext] at hown
      obtain ⟨hG, hrest⟩ := hown s₁ (hrefl i s₁) hallowed v s₂ hcall
      refine ⟨?_, hI i s₁ s₂ hG hinv⟩
      intro j
      by_cases hj : j = i
      · subst hj
        rw [Function.update_self]
        exact hrest
      · rw [Function.update_of_ne hj]
        exact safe_of_rely (htrans j) (hQ j) (hsafe j) (hothers i j hj s₁ s₂ hG)

/-! ## History variables -/

/-- Calls write the history and do not read it. -/
def Env.withHistory (env : Env σ ε Op Res) (write : σ → Op → η → η) : Env (σ × η) ε Op Res :=
  fun x op r x' => env x.1 op r x'.1 ∧ x'.2 = write x.1 op x.2

theorem PoolRun.withHistory [DecidableEq ι] {env : ι → Env σ ε Op Res}
    {allowed : ι → σ → Op → Prop} (write : ι → σ → Op → η → η) {P P' : ι → Prog Op Res α} {s s' : σ}
    (hrun : PoolRun env allowed P s P' s') (g : η) : ∃ g',
      PoolRun (fun i => (env i).withHistory (write i)) (fun i x => allowed i x.1) P (s, g) P'
        (s', g') := by
  induction hrun with
  | start => exact ⟨g, .start⟩
  | call i _ hnext hallowed hcall ih =>
      obtain ⟨g₁, ih⟩ := ih
      exact ⟨_, .call i ih hnext hallowed ⟨hcall, rfl⟩⟩

end Prog

end EmvaultElements
