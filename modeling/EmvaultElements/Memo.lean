import EmvaultElements.Map

/-!
# Loops that may fail

Loops over a list in `Except`: what a traversal returns (`mapM_eq_ok`),
a loop of checks (`forM_eq_ok`), a loop that pushes what it traverses
(`foldlM_push`), and a loop that keeps what it has computed under a key.

A cache is invisible when the key determines what is computed
(`foldlM_memo`): then everything in the cache is what would be computed
again (`Memo.Sound`).
-/

namespace EmvaultElements

variable {K V α β σ ε : Type}

/-! ## Traversals -/

theorem bind_eq_ok {x : Except ε α} {f : α → Except ε β} {b : β} :
    x >>= f = .ok b ↔ ∃ a, x = .ok a ∧ f a = .ok b := by
  cases x with
  | error e => simp [bind, Except.bind]
  | ok a => simp [bind, Except.bind]

theorem map_eq_ok {x : Except ε α} {f : α → β} {b : β} :
    x.map f = .ok b ↔ ∃ a, x = .ok a ∧ f a = b := by
  cases x with
  | error e => simp [Except.map]
  | ok a => simp [Except.map]

theorem exists_map_eq_ok {x : Except ε α} {f : α → β} :
    (∃ b, x.map f = .ok b) ↔ ∃ a, x = .ok a := by
  simp [map_eq_ok]

theorem mapError_eq_ok {ε' : Type} {x : Except ε α} {f : ε → ε'} {a : α} :
    x.mapError f = .ok a ↔ x = .ok a := by
  cases x with
  | error e => simp [Except.mapError]
  | ok a' => simp [Except.mapError]

theorem toOption_eq_some {x : Except ε α} {a : α} : x.toOption = some a ↔ x = .ok a := by
  cases x with
  | error e => simp [Except.toOption]
  | ok a' => simp [Except.toOption]

theorem mem_filterMap_toOption {f : α → Except ε β} {l : List α} {y : β} :
    y ∈ l.filterMap (fun x => (f x).toOption) ↔ ∃ x ∈ l, f x = .ok y := by
  simp only [List.mem_filterMap, toOption_eq_some]

theorem mapM_cons_eq_ok {f : α → Except ε β} {x : α} {l : List α} {ys : List β} :
    (x :: l).mapM f = .ok ys ↔
      ∃ y, f x = .ok y ∧ ∃ rest, l.mapM f = .ok rest ∧ ys = y :: rest := by
  rw [List.mapM_cons, bind_eq_ok]
  refine exists_congr fun y => and_congr_right fun _ => ?_
  rw [bind_eq_ok]
  refine exists_congr fun rest => and_congr_right fun _ => ?_
  exact ⟨fun h => (Except.ok.inj h).symm, fun h => congrArg _ h.symm⟩

/-- A traversal succeeds when it does on every element, and returns what
it computes for each. -/
theorem mapM_eq_ok {f : α → Except ε β} {l : List α} {ys : List β} :
    l.mapM f = .ok ys ↔ (∀ x ∈ l, ∃ y, f x = .ok y) ∧ ys = l.filterMap fun x => (f x).toOption := by
  induction l generalizing ys with
  | nil =>
      rw [List.mapM_nil, List.filterMap_nil]
      constructor
      · intro h
        cases h
        exact ⟨List.forall_mem_nil _, rfl⟩
      · rintro ⟨-, rfl⟩
        rfl
  | cons x l ih =>
      rw [mapM_cons_eq_ok, List.forall_mem_cons]
      constructor
      · rintro ⟨y, hy, rest, hrest, rfl⟩
        obtain ⟨hall, rfl⟩ := ih.mp hrest
        refine ⟨⟨⟨y, hy⟩, hall⟩, ?_⟩
        rw [List.filterMap_cons_some (b := y) (by rw [hy]; rfl)]
      · rintro ⟨⟨⟨y, hy⟩, hall⟩, rfl⟩
        refine ⟨y, hy, _, ih.mpr ⟨hall, rfl⟩, ?_⟩
        rw [List.filterMap_cons_some (b := y) (by rw [hy]; rfl)]

theorem exists_mapM_eq_ok {f : α → Except ε β} {l : List α} :
    (∃ ys, l.mapM f = .ok ys) ↔ ∀ x ∈ l, ∃ y, f x = .ok y := by
  simp only [mapM_eq_ok, exists_and_left, exists_eq, and_true]

/-- What every element keeps, a traversal keeps of all. -/
theorem map_of_mapM_eq_ok {γ : Type} {f : α → Except ε β} {before : α → γ} {after : β → γ}
    (h : ∀ x y, f x = .ok y → after y = before x) {l : List α} {ys : List β}
    (hok : l.mapM f = .ok ys) : ys.map after = l.map before := by
  induction l generalizing ys with
  | nil =>
      rw [List.mapM_nil] at hok
      obtain rfl := Except.ok.inj hok
      rfl
  | cons x l ih =>
      obtain ⟨y, hy, rest, hrest, rfl⟩ := mapM_cons_eq_ok.mp hok
      rw [List.map_cons, List.map_cons, h x y hy, ih hrest]

theorem mapM_congr {f g : α → Except ε β} {l : List α} (h : ∀ x ∈ l, f x = g x) :
    l.mapM f = l.mapM g := by
  induction l with
  | nil => rfl
  | cons x l ih =>
      obtain ⟨hx, hl⟩ := List.forall_mem_cons.mp h
      rw [List.mapM_cons, List.mapM_cons, hx, ih hl]

/-- A loop of checks passes when every check does. -/
theorem forM_eq_ok {f : α → Except ε Unit} {l : List α} :
    l.forM f = .ok () ↔ ∀ x ∈ l, f x = .ok () := by
  induction l with
  | nil => exact iff_of_true rfl (List.forall_mem_nil _)
  | cons x l ih =>
      rw [List.forall_mem_cons, ← ih]
      show (f x >>= fun _ => l.forM f) = .ok () ↔ _
      rw [bind_eq_ok, Unique.exists_iff]

/-- A loop that pushes what it computes for each element. -/
theorem foldlM_push {f : α → Except ε β} {push : σ → β → σ} (l : List α) (s : σ) :
    l.foldlM (fun s x => (f x).map (push s)) s = (l.mapM f).map fun ys => ys.foldl push s := by
  induction l generalizing s with
  | nil => rfl
  | cons x l ih =>
      rw [List.foldlM_cons, List.mapM_cons]
      cases hx : f x with
      | error e => rfl
      | ok y =>
          refine (ih (push s y)).trans ?_
          cases l.mapM f <;> rfl

/-- A loop whose errors are mapped succeeds when the loop does. -/
theorem foldlM_mapError_eq_ok {ε' : Type} {f : σ → α → Except ε σ} {g : ε → ε'} {l : List α}
    {s s' : σ} : l.foldlM (fun s x => (f s x).mapError g) s = .ok s' ↔ l.foldlM f s = .ok s' := by
  induction l generalizing s with
  | nil => simp only [List.foldlM_nil, pure, Except.pure, Except.ok.injEq]
  | cons x l ih => simp only [List.foldlM_cons, bind_eq_ok, mapError_eq_ok, ih]

/-- What every round keeps, the loop keeps. -/
theorem foldlM_keeps {f : σ → α → Except ε σ} {P : σ → Prop} {l : List α}
    (hstep : ∀ x ∈ l, ∀ s s', f s x = .ok s' → P s → P s') {s s' : σ}
    (hok : l.foldlM f s = .ok s') (hs : P s) : P s' := by
  induction l generalizing s with
  | nil =>
      cases hok
      exact hs
  | cons x l ih =>
      rw [List.foldlM_cons] at hok
      obtain ⟨s₁, hone, hrest⟩ := bind_eq_ok.mp hok
      obtain ⟨hx, hl⟩ := List.forall_mem_cons.mp hstep
      exact ih hl hrest (hx s s₁ hone hs)

/-! ## A cache -/

namespace Memo

variable [DecidableEq K]

/-- The value under a key, computed and kept when there is none. -/
def fetch (cache : Map K V) (key : K) (compute : Except ε V) : Except ε (Map K V × V) :=
  match cache.lookup key with
  | some v => .ok (cache, v)
  | none => compute.map fun v => (cache.insert key v, v)

/-- What the cache holds for an element of `l` is what `f` computes. -/
def Sound (key : α → K) (f : α → Except ε V) (l : List α) (cache : Map K V) : Prop :=
  ∀ x ∈ l, ∀ v, cache.lookup (key x) = some v → f x = .ok v

variable {key : α → K} {f : α → Except ε V} {l : List α} {cache : Map K V}

theorem sound_empty : Sound key f l (∅ : Map K V) := by
  intro x _ v hv
  rw [AList.lookup_empty] at hv
  cases hv

/-- Fetching computes what `f` does, and keeps the cache sound. -/
theorem fetch_cases (hkey : ∀ x ∈ l, ∀ y ∈ l, key x = key y → f x = f y)
    (hsound : Sound key f l cache) {x : α} (hx : x ∈ l) :
    (∃ e, f x = .error e ∧ fetch cache (key x) (f x) = .error e) ∨
      ∃ v cache', f x = .ok v ∧ fetch cache (key x) (f x) = .ok (cache', v) ∧
        Sound key f l cache' := by
  cases hlookup : cache.lookup (key x) with
  | some v =>
      refine .inr ⟨v, cache, hsound x hx v hlookup, ?_, hsound⟩
      simp only [fetch, hlookup]
  | none =>
      cases hf : f x with
      | error e =>
          refine .inl ⟨e, rfl, ?_⟩
          simp only [fetch, hlookup]
          rfl
      | ok v =>
          refine .inr ⟨v, cache.insert (key x) v, rfl, ?_, ?_⟩
          · simp only [fetch, hlookup]
            rfl
          · intro y hy v' hv'
            rw [Map.lookup_insert_eq] at hv'
            split at hv'
            · next heq =>
                cases hv'
                rw [hkey y hy x hx heq, hf]
            · exact hsound y hy v' hv'

/-- One round of a loop with a cache beside its state. -/
def step (key : α → K) (f : α → Except ε V) (body : σ → α → V → Except ε σ)
    (acc : Map K V × σ) (x : α) : Except ε (Map K V × σ) := do
  let (cache, v) ← fetch acc.1 (key x) (f x)
  let s ← body acc.2 x v
  pure (cache, s)

/-- The loop computes what it would compute without the cache. -/
theorem foldlM_memo {body : σ → α → V → Except ε σ}
    (hkey : ∀ x ∈ l, ∀ y ∈ l, key x = key y → f x = f y) (hsound : Sound key f l cache) (s : σ) :
    (l.foldlM (step key f body) (cache, s)).map Prod.snd =
      l.foldlM (fun s x => f x >>= body s x) s := by
  -- the elements still to come are some of those the cache is sound for
  suffices hrun : ∀ todo : List α, todo ⊆ l → ∀ (cache : Map K V) (s : σ), Sound key f l cache →
      (todo.foldlM (step key f body) (cache, s)).map Prod.snd =
        todo.foldlM (fun s x => f x >>= body s x) s from
    hrun l (List.Subset.refl l) cache s hsound
  intro todo
  induction todo with
  | nil => exact fun _ _ _ _ => rfl
  | cons x todo ih =>
      intro hsub cache s hsound
      obtain ⟨hx, htodo⟩ := List.cons_subset.mp hsub
      rw [List.foldlM_cons, List.foldlM_cons]
      rcases fetch_cases hkey hsound hx with ⟨e, hf, hfetch⟩ | ⟨v, cache', hf, hfetch, hsound'⟩
      · have hstep : step key f body (cache, s) x = .error e := by
          rw [step, hfetch]
          rfl
        rw [hstep, hf]
        rfl
      · have hstep : step key f body (cache, s) x = (body s x v).map fun s => (cache', s) := by
          rw [step, hfetch]
          show (body s x v >>= fun s => pure (cache', s)) = _
          cases body s x v <;> rfl
        have hbody : (f x >>= body s x) = body s x v := by
          rw [hf]
          rfl
        rw [hstep, hbody]
        cases body s x v with
        | error e => rfl
        | ok s' => exact ih htodo cache' s' hsound'

end Memo

end EmvaultElements
