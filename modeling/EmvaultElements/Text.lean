import Mathlib.Data.List.Infix

/-!
# Texts

A text is a list of characters. This file has what a program does to
texts: it joins them with a separator, splits one at the first
separator, and substitutes one for another throughout (`replace`).

A substitution is tame when the last character of the pattern occurs
nowhere else in the pattern: then the text can be cut behind each such
character, and every cut either ends with the pattern (`pieces_found`)
or contains no part of an occurrence (`pieces_not_found`).
-/

namespace EmvaultElements

namespace Text

variable {α : Type} [DecidableEq α]

/-! ## Joining and splitting -/

/-- The parts around the first `c`. -/
def splitOnce (c : α) : List α → Option (List α × List α)
  | [] => none
  | a :: s => if a = c then some ([], s) else (splitOnce c s).map fun parts =>
    (a :: parts.1, parts.2)

theorem splitOnce_of_notMem {c : α} : ∀ {s : List α}, c ∉ s → splitOnce c s = none
  | [], _ => rfl
  | a :: s, h => by
      obtain ⟨hne, hs⟩ := List.ne_and_not_mem_of_not_mem_cons h
      rw [splitOnce, if_neg (Ne.symm hne), splitOnce_of_notMem hs, Option.map_none]

theorem splitOnce_append {c : α} (t : List α) : ∀ {s : List α}, c ∉ s →
    splitOnce c (s ++ c :: t) = some (s, t)
  | [], _ => if_pos rfl
  | a :: s, h => by
      obtain ⟨hne, hs⟩ := List.ne_and_not_mem_of_not_mem_cons h
      rw [List.cons_append, splitOnce, if_neg (Ne.symm hne), splitOnce_append t hs, Option.map_some]

/-- The first `c` of a text is where it is. -/
theorem append_cons_inj {c : α} {s s' t t' : List α} (hs : c ∉ s) (hs' : c ∉ s')
    (h : s ++ c :: t = s' ++ c :: t') : s = s' ∧ t = t' := by
  have hparts := splitOnce_append t hs
  rw [h, splitOnce_append t' hs'] at hparts
  obtain ⟨rfl, rfl⟩ := Prod.mk.injEq .. |>.mp (Option.some.inj hparts)
  exact ⟨rfl, rfl⟩

/-- Texts without the separator are determined by their join. -/
theorem join_injective {c : α} {xs ys : List (List α)} (hxs : ∀ x ∈ xs, c ∉ x)
    (hys : ∀ y ∈ ys, c ∉ y) (hxs' : xs ≠ []) (hys' : ys ≠ [])
    (h : [c].intercalate xs = [c].intercalate ys) : xs = ys := by
  rw [← List.splitOn_intercalate c hxs hxs', h, List.splitOn_intercalate c hys hys']

omit [DecidableEq α] in
theorem map_eq_map_of {β γ : Type} {f g : α → β} {f' g' : α → γ}
    (h : ∀ a b, f a = g b → f' a = g' b) : ∀ {l l' : List α}, l.map f = l'.map g →
      l.map f' = l'.map g'
  | [], [], _ => rfl
  | [], _ :: _, heq => by cases heq
  | _ :: _, [], heq => by cases heq
  | a :: l, b :: l', heq => by
      obtain ⟨hhead, htail⟩ := List.cons.inj heq
      rw [List.map_cons, List.map_cons, h a b hhead, map_eq_map_of h htail]

omit [DecidableEq α] in
theorem mem_join {c a : α} {xs : List (List α)} (h : a ∈ [c].intercalate xs) :
    a = c ∨ ∃ x ∈ xs, a ∈ x := by
  induction xs with
  | nil => cases h
  | cons x xs ih =>
      cases xs with
      | nil => exact .inr ⟨x, List.mem_singleton.mpr rfl, by simpa using h⟩
      | cons y ys =>
          rw [List.intercalate_cons_cons, List.mem_append, List.mem_append, List.mem_singleton] at h
          rcases h with (hx | hc) | hrest
          · exact .inr ⟨x, List.mem_cons_self .., hx⟩
          · exact .inl hc
          · exact (ih hrest).imp_right fun ⟨z, hz, ha⟩ => ⟨z, List.mem_cons_of_mem x hz, ha⟩

/-! ## Substitution -/

/-- The pieces between the occurrences of a pattern, found from the left
and apart from each other. `skip` more characters belong to the last one
found. -/
def piecesFrom (pat : List α) : Nat → List α → List (List α)
  | _, [] => [[]]
  | skip + 1, _ :: s => piecesFrom pat skip s
  | 0, a :: s =>
      if pat.isPrefixOf (a :: s) then [] :: piecesFrom pat (pat.length - 1) s
      else (piecesFrom pat 0 s).modifyHead (a :: ·)

def pieces (pat s : List α) : List (List α) := piecesFrom pat 0 s

/-- The text with every occurrence of a (nonempty) pattern replaced. -/
def replace (pat new s : List α) : List α := new.intercalate (pieces pat s)

/-- How many occurrences are replaced. -/
def occurrences (pat s : List α) : Nat := (pieces pat s).length - 1

theorem piecesFrom_ne_nil (pat : List α) : ∀ (skip : Nat) (s : List α), piecesFrom pat skip s ≠ []
  | _, [] => List.cons_ne_nil _ _
  | skip + 1, _ :: s => piecesFrom_ne_nil pat skip s
  | 0, a :: s => by
      rw [piecesFrom]
      split
      · exact List.cons_ne_nil _ _
      · exact fun h => piecesFrom_ne_nil pat 0 s (List.modifyHead_eq_nil_iff.mp h)

theorem pieces_ne_nil (pat s : List α) : pieces pat s ≠ [] := piecesFrom_ne_nil pat 0 s

theorem piecesFrom_skip (pat t : List α) : ∀ s : List α,
    piecesFrom pat s.length (s ++ t) = pieces pat t
  | [] => rfl
  | _ :: s => piecesFrom_skip pat t s

/-- An occurrence at the start. -/
theorem pieces_self {pat : List α} (hpat : pat ≠ []) (t : List α) :
    pieces pat (pat ++ t) = [] :: pieces pat t := by
  obtain ⟨a, rest, rfl⟩ := List.exists_cons_of_ne_nil hpat
  rw [List.cons_append, pieces, piecesFrom, if_pos (by simp), List.length_cons, Nat.add_sub_cancel,
    piecesFrom_skip]

/-- No occurrence at the start. -/
theorem pieces_cons {pat : List α} {a : α} {s : List α} (h : ¬pat <+: a :: s) :
    pieces pat (a :: s) = (pieces pat s).modifyHead (a :: ·) := by
  rw [pieces, piecesFrom, if_neg (by rwa [List.isPrefixOf_iff_prefix])]
  rfl

omit [DecidableEq α] in
theorem intercalate_modifyHead (sep u : List α) : ∀ {ps : List (List α)}, ps ≠ [] →
    sep.intercalate (ps.modifyHead (u ++ ·)) = u ++ sep.intercalate ps
  | [], h => absurd rfl h
  | [p], _ => by simp
  | p :: q :: ps, _ => by
      rw [List.modifyHead_cons, List.intercalate_cons_cons, List.intercalate_cons_cons,
        List.append_assoc, List.append_assoc, List.append_assoc]

section Tame

variable {init u : List α} {c : α}

/-- Where the pattern ends with a `c` and has no other, it can only
match up to the first `c` of a text. -/
theorem prefix_iff (hinit : c ∉ init) (hu : c ∉ u) (t : List α) :
    init ++ [c] <+: u ++ c :: t ↔ init = u := by
  constructor
  · rintro ⟨x, hx⟩
    rw [List.append_assoc, List.singleton_append] at hx
    exact (append_cons_inj hinit hu hx).1
  · rintro rfl
    exact ⟨t, by rw [List.append_assoc, List.singleton_append]⟩

theorem pieces_of_notMem : ∀ {u : List α}, c ∉ u → pieces (init ++ [c]) u = [u]
  | [], _ => rfl
  | a :: u, hu => by
      have hno : ¬init ++ [c] <+: a :: u := fun h =>
        hu (h.subset (List.mem_append_right init (List.mem_singleton.mpr rfl)))
      rw [pieces_cons hno, pieces_of_notMem fun h => hu (List.mem_cons_of_mem a h)]
      rfl

/-- A cut that ends with the pattern. -/
theorem pieces_found (hinit : c ∉ init) (t : List α) : ∀ {s : List α}, c ∉ s →
    pieces (init ++ [c]) (s ++ (init ++ [c]) ++ t) = s :: pieces (init ++ [c]) t
  | [], _ => pieces_self (by simp) t
  | a :: s, hs => by
      have hno : ¬init ++ [c] <+: a :: (s ++ (init ++ [c]) ++ t) := by
        have hmem : c ∉ a :: s ++ init := by
          rw [List.mem_append]
          exact fun h => h.elim hs hinit
        intro h
        have hlen := congrArg List.length ((prefix_iff hinit hmem t).mp (by simpa using h))
        simp at hlen
        omega
      rw [List.cons_append, List.cons_append, pieces_cons hno,
        pieces_found hinit t fun h => hs (List.mem_cons_of_mem a h)]
      rfl

/-- A cut that does not. -/
theorem pieces_not_found (hinit : c ∉ init) (t : List α) : ∀ {u : List α}, c ∉ u → ¬init <:+ u →
    pieces (init ++ [c]) (u ++ c :: t) =
      (pieces (init ++ [c]) t).modifyHead (u ++ [c] ++ ·)
  | [], hu, hno => by
      have hstart : ¬init ++ [c] <+: c :: t := fun h =>
        hno ((prefix_iff hinit hu t).mp h ▸ List.suffix_refl _)
      exact pieces_cons hstart
  | a :: u, hu, hno => by
      have hu' : c ∉ u := fun h => hu (List.mem_cons_of_mem a h)
      have hstart : ¬init ++ [c] <+: a :: (u ++ c :: t) := fun h =>
        hno ((prefix_iff hinit hu t).mp h ▸ List.suffix_refl _)
      rw [List.cons_append, pieces_cons hstart,
        pieces_not_found hinit t hu' fun h => hno (h.trans (List.suffix_cons a u)),
        List.modifyHead_modifyHead]
      rfl

theorem replace_of_notMem (new : List α) (hu : c ∉ u) : replace (init ++ [c]) new u = u := by
  rw [replace, pieces_of_notMem hu, List.intercalate_singleton]

theorem replace_found (hinit : c ∉ init) (new t : List α) (hu : c ∉ u) :
    replace (init ++ [c]) new (u ++ (init ++ [c]) ++ t) =
      u ++ new ++ replace (init ++ [c]) new t := by
  rw [replace, pieces_found hinit t hu, List.intercalate_cons_of_ne_nil (pieces_ne_nil _ t)]
  rfl

theorem replace_not_found (hinit : c ∉ init) (new t : List α) (hu : c ∉ u) (hno : ¬init <:+ u) :
    replace (init ++ [c]) new (u ++ c :: t) = u ++ [c] ++ replace (init ++ [c]) new t := by
  rw [replace, pieces_not_found hinit t hu hno, intercalate_modifyHead _ _ (pieces_ne_nil _ t)]
  rfl

theorem occurrences_of_notMem (hu : c ∉ u) : occurrences (init ++ [c]) u = 0 := by
  rw [occurrences, pieces_of_notMem hu]
  rfl

theorem occurrences_found (hinit : c ∉ init) (t : List α) (hu : c ∉ u) :
    occurrences (init ++ [c]) (u ++ (init ++ [c]) ++ t) = occurrences (init ++ [c]) t + 1 := by
  have hpos := List.length_pos_iff.mpr (pieces_ne_nil (init ++ [c]) t)
  rw [occurrences, pieces_found hinit t hu, List.length_cons, occurrences]
  omega

end Tame

/-! ## Suffixes throughout a list -/

/-- A list of texts that all have the suffix, joined, in a frame. -/
def suffixed (sep : α) (suffix before : List α) (keys : List (List α)) (after : List α) : List α :=
  before ++ [sep].intercalate (keys.map (· ++ suffix)) ++ after

section Suffixed

variable {init before after : List α} {c sep : α} {keys : List (List α)}

omit [DecidableEq α] in
theorem suffixed_singleton (suffix before k after : List α) :
    suffixed sep suffix before [k] after = before ++ k ++ suffix ++ after := by
  simp [suffixed]

omit [DecidableEq α] in
theorem suffixed_cons (suffix before k after : List α) (hkeys : keys ≠ []) :
    suffixed sep suffix before (k :: keys) after =
      before ++ k ++ suffix ++ suffixed sep suffix [sep] keys after := by
  have hmap : keys.map (· ++ suffix) ≠ [] := by simpa using hkeys
  rw [suffixed, List.map_cons, List.intercalate_cons_of_ne_nil hmap, suffixed]
  simp only [List.append_assoc]

omit [DecidableEq α] in
theorem notMem_suffixed {suffix : List α} (hbefore : c ∉ before) (hsep : c ≠ sep)
    (hkeys : ∀ k ∈ keys, c ∉ k) (hsuffix : c ∉ suffix) (hafter : c ∉ after) :
    c ∉ suffixed sep suffix before keys after := by
  rw [suffixed, List.mem_append, List.mem_append]
  rintro ((hmem | hmem) | hmem)
  · exact hbefore hmem
  · rcases mem_join hmem with heq | ⟨key, hkey, hmem⟩
    · exact hsep heq
    · obtain ⟨k, hk, rfl⟩ := List.mem_map.mp hkey
      exact (List.mem_append.mp hmem).elim (hkeys k hk) hsuffix
  · exact hafter hmem

/-- The substitution of a part of the suffix, where its last character
is nowhere else. -/
theorem replace_suffixed {pre post : List α} (hinit : c ∉ init) (hpre : c ∉ pre) (hpost : c ∉ post)
    (new : List α) (hsep : c ≠ sep) (hafter : c ∉ after) :
    ∀ {keys : List (List α)} {before : List α}, keys ≠ [] → c ∉ before → (∀ k ∈ keys, c ∉ k) →
    replace (init ++ [c]) new (suffixed sep (pre ++ (init ++ [c]) ++ post) before keys after) =
      suffixed sep (pre ++ new ++ post) before keys after ∧
    occurrences (init ++ [c]) (suffixed sep (pre ++ (init ++ [c]) ++ post) before keys after) =
      keys.length
  | [], _, hne, _, _ => absurd rfl hne
  | k :: keys, before, _, hbefore, hkeys => by
      have hu : c ∉ before ++ k ++ pre := by
        rw [List.mem_append, List.mem_append]
        exact fun h => h.elim (fun h => h.elim hbefore (hkeys k (List.mem_cons_self ..))) hpre
      -- the first suffix ends a cut, and what follows its pattern is left
      have hcut : ∀ suffix t, before ++ k ++ (pre ++ suffix ++ post) ++ t =
          before ++ k ++ pre ++ suffix ++ (post ++ t) := by
        intro suffix t
        simp only [List.append_assoc]
      by_cases hne : keys = []
      · subst hne
        have hrest : c ∉ post ++ after := by
          rw [List.mem_append]
          exact fun h => h.elim hpost hafter
        rw [suffixed_singleton, suffixed_singleton, hcut, hcut, replace_found hinit new _ hu,
          occurrences_found hinit _ hu, replace_of_notMem new hrest, occurrences_of_notMem hrest]
        exact ⟨rfl, rfl⟩
      · have hbefore' : c ∉ post ++ [sep] := by
          rw [List.mem_append, List.mem_singleton]
          exact fun h => h.elim hpost hsep
        have hmove : ∀ suffix, post ++ suffixed sep suffix [sep] keys after =
            suffixed sep suffix (post ++ [sep]) keys after := by
          intro suffix
          simp only [suffixed, List.append_assoc]
        obtain ⟨hreplace, hcount⟩ := replace_suffixed hinit hpre hpost new hsep hafter hne hbefore'
          fun k' hk' => hkeys k' (List.mem_cons_of_mem k hk')
        rw [suffixed_cons _ _ _ _ hne, suffixed_cons _ _ _ _ hne, hcut, hcut,
          replace_found hinit new _ hu, occurrences_found hinit _ hu, hmove, hmove,
            hreplace, hcount]
        exact ⟨rfl, rfl⟩

/-- A suffix that ends with the same character but not with the pattern
is left alone. -/
theorem replace_other_suffix {init' : List α} (hinit : c ∉ init) (hinit' : c ∉ init')
    (hlen : init.length ≤ init'.length) (hno : ¬init <:+ init') (new : List α) (hsep : c ≠ sep)
    (hafter : c ∉ after) :
    ∀ {keys : List (List α)} {before : List α}, keys ≠ [] → c ∉ before → (∀ k ∈ keys, c ∉ k) →
    replace (init ++ [c]) new (suffixed sep (init' ++ [c]) before keys after) =
      suffixed sep (init' ++ [c]) before keys after
  | [], _, hne, _, _ => absurd rfl hne
  | k :: keys, before, _, hbefore, hkeys => by
      have hu : c ∉ before ++ k ++ init' := by
        rw [List.mem_append, List.mem_append]
        exact fun h => h.elim (fun h => h.elim hbefore (hkeys k (List.mem_cons_self ..))) hinit'
      have hno' : ¬init <:+ before ++ k ++ init' := fun h =>
        hno (List.suffix_of_suffix_length_le h (List.suffix_append _ _) hlen)
      have hcut : ∀ t, replace (init ++ [c]) new (before ++ k ++ (init' ++ [c]) ++ t) =
          before ++ k ++ (init' ++ [c]) ++ replace (init ++ [c]) new t := by
        intro t
        have := replace_not_found hinit new t hu hno'
        simpa only [List.append_assoc, List.singleton_append] using this
      by_cases hne : keys = []
      · subst hne
        rw [suffixed_singleton, hcut, replace_of_notMem new hafter]
      · have hsep' : c ∉ [sep] := by simpa using hsep
        rw [suffixed_cons _ _ _ _ hne, hcut,
          replace_other_suffix hinit hinit' hlen hno new hsep hafter hne hsep'
            fun k' hk' => hkeys k' (List.mem_cons_of_mem k hk')]

end Suffixed

/-! ## Decimal numbers -/

def decimal (n : Nat) : List Char := Nat.toDigits 10 n

theorem decimal_injective {n m : Nat} (h : decimal n = decimal m) : n = m := by
  have hread := Nat.ofDigitChars_ten_toDigits (n := n)
  rw [show Nat.toDigits 10 n = Nat.toDigits 10 m from h, Nat.ofDigitChars_ten_toDigits] at hread
  exact hread.symm

theorem isDigit_of_mem_decimal {n : Nat} {c : Char} (h : c ∈ decimal n) : c.isDigit :=
  Nat.isDigit_of_mem_toDigits (by decide) (Nat.le_refl 10) h

end Text

end EmvaultElements
