import Mathlib.Data.List.AList

/-!
# Finite maps

The hash maps and tree maps of the program, as Mathlib's association
lists with distinct keys. The order of the entries is an artefact of
the representation: two maps are the same when they look up the same
value at every key, and that is how every result about them is stated.

Mathlib has `lookup`, `insert` and `erase`; this file adds the bulk
operations the program uses (`retain`, `mapValues`, `values`,
`collect`), each with the lemma that says what it does to a lookup.
-/

namespace EmvaultElements

/-- A finite map from `K` to `V`. -/
abbrev Map (K V : Type) : Type := AList fun _ : K => V

namespace Map

variable {K V W : Type}

/-- Keep the entries that satisfy `p`. -/
def retain (m : Map K V) (p : K → V → Bool) : Map K V where
  entries := m.entries.filter fun e => p e.1 e.2
  nodupKeys := m.nodupKeys.sublist List.filter_sublist

/-- Rewrite every value in place. -/
def mapValues (m : Map K V) (f : K → V → V) : Map K V where
  entries := m.entries.map fun e => ⟨e.1, f e.1 e.2⟩
  nodupKeys := List.NodupKeys.map₂ f m.entries m.nodupKeys

/-- The values, in some order. -/
def values (m : Map K V) : List V := m.entries.map (·.2)

variable [DecidableEq K]

/-- Insert the pairs one after the other, a later one replacing an
earlier one with its key. -/
def collect (l : List (K × V)) : Map K V :=
  l.foldl (fun m kv => m.insert kv.1 kv.2) ∅

theorem mem_entries_iff {m : Map K V} {k : K} {v : V} :
    (⟨k, v⟩ : (_ : K) × V) ∈ m.entries ↔ m.lookup k = some v :=
  AList.mem_lookup_iff.symm

theorem mem_values_iff {m : Map K V} {v : V} :
    v ∈ m.values ↔ ∃ k, m.lookup k = some v := by
  simp only [values, List.mem_map]
  constructor
  · rintro ⟨⟨k, v'⟩, hmem, rfl⟩
    exact ⟨k, mem_entries_iff.mp hmem⟩
  · rintro ⟨k, hk⟩
    exact ⟨⟨k, v⟩, mem_entries_iff.mpr hk, rfl⟩

@[simp] theorem lookup_retain (m : Map K V) (p : K → V → Bool) (k : K) :
    (m.retain p).lookup k = (m.lookup k).filter (p k) := by
  ext v
  rw [← Option.mem_def, AList.mem_lookup_iff, Option.filter_eq_some_iff, ← mem_entries_iff]
  simp [retain]

@[simp] theorem lookup_mapValues (m : Map K V) (f : K → V → V) (k : K) :
    (m.mapValues f).lookup k = (m.lookup k).map (f k) := by
  ext v
  rw [← Option.mem_def, AList.mem_lookup_iff, Option.map_eq_some_iff]
  simp only [mapValues, List.mem_map]
  constructor
  · rintro ⟨⟨k', v'⟩, hmem, heq⟩
    cases heq
    exact ⟨v', mem_entries_iff.mp hmem, rfl⟩
  · rintro ⟨v', hk, rfl⟩
    exact ⟨⟨k, v'⟩, mem_entries_iff.mpr hk, rfl⟩

/-- Looking up after an insertion, at any key. -/
theorem lookup_insert_eq (m : Map K V) (k k' : K) (v : V) :
    (m.insert k v).lookup k' = if k' = k then some v else m.lookup k' := by
  split
  · next h => rw [h, AList.lookup_insert]
  · next h => rw [AList.lookup_insert_ne h]

/-- A key is present after `collect` exactly when some pair carries it. -/
theorem mem_collect {l : List (K × V)} {k : K} :
    k ∈ collect l ↔ ∃ v, (k, v) ∈ l := by
  have hfold : ∀ (l : List (K × V)) (m : Map K V),
      k ∈ l.foldl (fun m kv => m.insert kv.1 kv.2) m ↔ k ∈ m ∨ ∃ v, (k, v) ∈ l := by
    intro l
    induction l with
    | nil => simp
    | cons kv l ih =>
        intro m
        obtain ⟨k', v'⟩ := kv
        rw [List.foldl_cons, ih, AList.mem_insert]
        simp only [List.mem_cons, Prod.mk.injEq]
        constructor
        · rintro ((rfl | h) | ⟨v, h⟩)
          · exact .inr ⟨v', .inl ⟨rfl, rfl⟩⟩
          · exact .inl h
          · exact .inr ⟨v, .inr h⟩
        · rintro (h | ⟨v, ⟨rfl, rfl⟩ | h⟩)
          · exact .inl (.inr h)
          · exact .inl (.inl rfl)
          · exact .inr ⟨v, h⟩
  rw [collect, hfold]
  simp

/-- What `collect` has under a key comes from a pair. -/
theorem mem_of_lookup_collect {l : List (K × V)} {k : K} {v : V}
    (h : (collect l).lookup k = some v) : (k, v) ∈ l := by
  have hfold : ∀ (l : List (K × V)) (m : Map K V),
      (l.foldl (fun m kv => m.insert kv.1 kv.2) m).lookup k = some v →
        (k, v) ∈ l ∨ m.lookup k = some v := by
    intro l
    induction l with
    | nil => exact fun _ h => .inr h
    | cons kv l ih =>
        intro m h
        rcases ih (m.insert kv.1 kv.2) h with hmem | hins
        · exact .inl (List.mem_cons_of_mem _ hmem)
        · rw [lookup_insert_eq] at hins
          split at hins
          · next hk =>
              cases hins
              exact .inl (hk ▸ List.mem_cons_self ..)
          · exact .inr hins
  rcases hfold l ∅ h with hmem | hempty
  · exact hmem
  · rw [AList.lookup_empty] at hempty
    cases hempty

/-- Pairs that agree on their keys are what `collect` looks up. -/
theorem lookup_collect {l : List (K × V)}
    (hfun : ∀ k v v', (k, v) ∈ l → (k, v') ∈ l → v = v') {k : K} {v : V} :
    (collect l).lookup k = some v ↔ (k, v) ∈ l := by
  refine ⟨mem_of_lookup_collect, ?_⟩
  intro hmem
  obtain ⟨v', hv'⟩ := Option.isSome_iff_exists.mp
    (AList.lookup_isSome.mpr (mem_collect.mpr ⟨v, hmem⟩))
  rw [hv', hfun k v' v (mem_of_lookup_collect hv') hmem]

end Map

end EmvaultElements
