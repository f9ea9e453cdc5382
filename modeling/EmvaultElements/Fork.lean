import Mathlib.Data.List.Basic
import Mathlib.Data.List.Infix

/-!
# Where two branches part

`fork c c'` is the number of elements two lists have in common from the
start: the height at which two branches part. A branch that grows moves
the fork only when the fork was at its end (`fork_prefix_right`).
-/

namespace EmvaultElements

theorem getElem?_mono {α : Type} {l l' : List α} (hpre : l <+: l') {i : Nat} {a : α}
    (ha : l[i]? = some a) : l'[i]? = some a := by
  obtain ⟨hlt, rfl⟩ := List.getElem?_eq_some_iff.mp ha
  exact List.prefix_iff_getElem?.mp hpre i hlt

variable {α : Type} [DecidableEq α]

/-- The length of the longest common prefix. -/
def fork : List α → List α → Nat
  | a :: c, a' :: c' => if a = a' then fork c c' + 1 else 0
  | _, _ => 0

@[simp] theorem fork_nil_left (c : List α) : fork [] c = 0 := by cases c <;> rfl

theorem take_fork : ∀ (c c' : List α), c.take (fork c c') = c'.take (fork c c')
  | [], c' => by simp
  | a :: c, [] => by simp [fork]
  | a :: c, a' :: c' => by
      unfold fork
      split
      · next h => rw [List.take_succ_cons, List.take_succ_cons, take_fork c c', h]
      · rfl

theorem fork_le_left : ∀ (c c' : List α), fork c c' ≤ c.length
  | [], c' => by simp
  | a :: c, [] => Nat.zero_le _
  | a :: c, a' :: c' => by
      have := fork_le_left c c'
      unfold fork
      split <;> simp only [List.length_cons] <;> omega

theorem fork_le_right : ∀ (c c' : List α), fork c c' ≤ c'.length
  | [], c' => by simp
  | a :: c, [] => Nat.zero_le _
  | a :: c, a' :: c' => by
      have := fork_le_right c c'
      unfold fork
      split <;> simp only [List.length_cons] <;> omega

/-- What two lists share is below the fork. -/
theorem le_fork : ∀ {n : Nat} {c c' : List α}, n ≤ c.length → c.take n = c'.take n →
    n ≤ fork c c'
  | 0, _, _, _, _ => Nat.zero_le _
  | n + 1, [], _, hlen, _ => absurd hlen (Nat.not_succ_le_zero n)
  | n + 1, a :: c, [], _, htake => by simp at htake
  | n + 1, a :: c, a' :: c', hlen, htake => by
      rw [List.take_succ_cons, List.take_succ_cons] at htake
      obtain ⟨rfl, hrest⟩ := List.cons.inj htake
      rw [fork, if_pos rfl]
      exact Nat.succ_le_succ (le_fork (Nat.le_of_succ_le_succ hlen) hrest)

theorem getElem?_of_lt_fork {l l' : List α} {i : Nat} (h : i < fork l l') : l[i]? = l'[i]? := by
  rw [← List.getElem?_take_of_lt h, take_fork, List.getElem?_take_of_lt h]

theorem fork_eq_length_iff {c c' : List α} : fork c c' = c.length ↔ c <+: c' := by
  constructor
  · intro h
    have htake := take_fork c c'
    rw [h, List.take_length] at htake
    rw [htake]
    exact List.take_prefix _ _
  · rintro ⟨rest, rfl⟩
    exact Nat.le_antisymm (fork_le_left _ _) (le_fork (Nat.le_refl _) (by simp))

/-- The longer branch may grow: the fork stays where it was. -/
theorem fork_prefix_right {c c' c'' : List α} (hlen : c.length ≤ c'.length) (h : c' <+: c'') :
    fork c c'' = fork c c' := by
  obtain ⟨rest, rfl⟩ := h
  apply Nat.le_antisymm
  · apply le_fork (fork_le_left _ _)
    have hle : fork c (c' ++ rest) ≤ c'.length := Nat.le_trans (fork_le_left _ _) hlen
    rw [take_fork, List.take_append_of_le_length hle]
  · apply le_fork (fork_le_left _ _)
    rw [take_fork, List.take_append_of_le_length (fork_le_right _ _)]

end EmvaultElements
