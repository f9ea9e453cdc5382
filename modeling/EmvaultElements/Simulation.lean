import EmvaultElements.Prog

/-!
# Programs in parallel

Two programs are `Parallel` when they make the same calls for as long as
the answers are alike, whatever "alike" means for the answers to a call,
and end with related values. An environment `Follows` another along a
relation of their states when it can answer alike every call that the
other answers. Then an execution in the one is matched in the other
(`Parallel.exec`): what is proved of a program over one implementation
of its calls is transferred to the implementations it follows.
-/

namespace EmvaultElements

variable {Op : Type} {Res : Op → Type} {α β α' β' σ τ ε : Type}

/-- Outcomes of one kind, with related values. -/
inductive Outcome.Related (rel : α → β → Prop) : Outcome ε α → Outcome ε β → Prop
  | ok {a : α} {b : β} (h : rel a b) : Related rel (.ok a) (.ok b)
  | err {e : ε} : Related rel (.err e) (.err e)
  | panic : Related rel .panic .panic

theorem Outcome.Related.eq {o o' : Outcome ε α} (h : Outcome.Related Eq o o') : o = o' := by
  cases h with
  | ok h => rw [h]
  | err => rfl
  | panic => rfl

namespace Prog

/-- The same calls for as long as the answers are alike. -/
inductive Parallel (like : (op : Op) → Res op → Res op → Prop) (rel : α → β → Prop) :
    Prog Op Res α → Prog Op Res β → Prop
  | ret {a : α} {b : β} (h : rel a b) : Parallel like rel (.ret a) (.ret b)
  | panic : Parallel like rel .panic .panic
  | call {op : Op} {k : Res op → Prog Op Res α} {k' : Res op → Prog Op Res β}
      (h : ∀ r r', like op r r' → Parallel like rel (k r) (k' r')) :
      Parallel like rel (.call op k) (.call op k')

/-- Every call that `env` answers, `env'` can answer alike. -/
structure Follows (like : (op : Op) → Res op → Res op → Prop) (R : σ → τ → Prop)
    (env : Env σ ε Op Res) (env' : Env τ ε Op Res) : Prop where
  answered : ∀ {s t op r s'}, R s t → env s op (.ok r) s' →
    ∃ r' t', env' t op (.ok r') t' ∧ like op r r' ∧ R s' t'
  failed : ∀ {s t op e s'}, R s t → env s op (.error e) s' →
    ∃ t', env' t op (.error e) t' ∧ R s' t'

variable {like : (op : Op) → Res op → Res op → Prop} {rel : α → β → Prop} {rel' : α' → β' → Prop}

theorem parallel_pure {a : α} {b : β} (h : rel a b) :
    Parallel like rel (pure a : Prog Op Res α) (pure b) := .ret h

theorem parallel_perform {op : Op} : Parallel like (like op) (perform op) (perform op) :=
  .call fun _ _ h => .ret h

theorem Parallel.bind {p : Prog Op Res α} {q : Prog Op Res β} {f : α → Prog Op Res α'}
    {g : β → Prog Op Res β'} (h : Parallel like rel p q)
    (hrest : ∀ a b, rel a b → Parallel like rel' (f a) (g b)) :
    Parallel like rel' (p >>= f) (q >>= g) := by
  induction h with
  | ret hab => exact hrest _ _ hab
  | panic => exact .panic
  | call _ ih => exact .call ih

theorem Parallel.ite {c : Prop} [Decidable c] {p p' : Prog Op Res α} {q q' : Prog Op Res β}
    (h : Parallel like rel p q) (h' : Parallel like rel p' q') :
    Parallel like rel (if c then p else p') (if c then q else q') := by
  split
  · exact h
  · exact h'

/-- A call that both make, or both skip. -/
theorem Parallel.skipped {c : Prop} [Decidable c] {op : Op} {p : Prog Op Res α} {q : Prog Op Res β}
    (h : Parallel like rel p q) :
    Parallel like rel (if c then perform op >>= fun _ => p else p)
      (if c then perform op >>= fun _ => q else q) :=
  .ite (parallel_perform.bind fun _ _ _ => h) h

/-- An execution is matched in an environment that follows. -/
theorem Parallel.exec {R : σ → τ → Prop} {env : Env σ ε Op Res} {env' : Env τ ε Op Res}
    (hfollows : Follows like R env env') {p : Prog Op Res α} {q : Prog Op Res β}
    (h : Parallel like rel p q) {s s' : σ} {t : τ} {o : Outcome ε α} (hexec : Exec env p s o s')
    (hR : R s t) : ∃ o' t', Exec env' q t o' t' ∧ o.Related rel o' ∧ R s' t' := by
  induction h generalizing s t with
  | ret hab =>
      cases hexec
      exact ⟨_, t, .ret, .ok hab, hR⟩
  | panic =>
      cases hexec
      exact ⟨_, t, .panic, .panic, hR⟩
  | call _ ih =>
      cases hexec with
      | answered hcall hrest =>
          obtain ⟨r', t₁, hcall', hlike, hR'⟩ := hfollows.answered hR hcall
          obtain ⟨o', t₂, hexec', ho, hR''⟩ := ih _ r' hlike hrest hR'
          exact ⟨o', t₂, .answered hcall' hexec', ho, hR''⟩
      | failed hcall =>
          obtain ⟨t₁, hcall', hR'⟩ := hfollows.failed hR hcall
          exact ⟨_, t₁, .failed hcall', .err, hR'⟩

/-- An execution that ends well needs only the answers. -/
theorem Exec.ok_mono {env env' : Env σ ε Op Res}
    (hsub : ∀ s op r s', env s op (.ok r) s' → env' s op (.ok r) s') {p : Prog Op Res α}
    {s s' : σ} {a : α} (h : Exec env p s (.ok a) s') : Exec env' p s (.ok a) s' := by
  generalize ho : (Outcome.ok a : Outcome ε α) = o at h
  induction h with
  | ret =>
      cases ho
      exact .ret
  | panic => cases ho
  | answered hcall _ ih => exact .answered (hsub _ _ _ _ hcall) (ih ho)
  | failed _ => cases ho

end Prog

end EmvaultElements
