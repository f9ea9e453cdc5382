import Mathlib.Data.List.Pairwise
import Mathlib.Data.List.Perm.Basic

/-!
# Boards

A board has places, and a place is written once: an offer fills the
places that are free, and is dropped where they are taken
(`post`). Offers that want no place in common do not see each other, so
they may be posted in any order: the board is the same in the end
(`postAll_perm`), and an offer brings something new or does not whether
another has come before it or not (`brings_post_iff`).
-/

namespace EmvaultElements

namespace Board

variable {K V : Type} {b o o' : K → Option V}

/-- The board with the offer in the places that were free. -/
def post (b o : K → Option V) : K → Option V := fun k => (b k).or (o k)

/-- The offer has something for a free place. -/
def Brings (b o : K → Option V) : Prop := ∃ k, b k = none ∧ (o k).isSome

/-- The offers want no place in common. -/
def Apart (o o' : K → Option V) : Prop := ∀ k, o k = none ∨ o' k = none

def postAll (b : K → Option V) (os : List (K → Option V)) : K → Option V := os.foldl post b

theorem post_eq_some_iff {k : K} {v : V} :
    post b o k = some v ↔ b k = some v ∨ (b k = none ∧ o k = some v) := by
  rw [post, Option.or_eq_some_iff]

theorem Apart.symm (h : Apart o o') : Apart o' o := fun k => (h k).symm

instance : Std.Symm (@Apart K V) := ⟨fun _ _ h => h.symm⟩

theorem post_comm (h : Apart o o') (b : K → Option V) :
    post (post b o) o' = post (post b o') o := by
  funext k
  rcases h k with hnone | hnone
  · simp [post, hnone]
  · simp [post, hnone]

theorem brings_post_iff (h : Apart o o') : Brings (post b o') o ↔ Brings b o := by
  constructor
  · rintro ⟨k, hfree, hsome⟩
    exact ⟨k, (Option.or_eq_none_iff.mp hfree).1, hsome⟩
  · rintro ⟨k, hfree, hsome⟩
    refine ⟨k, ?_, hsome⟩
    rcases h k with hnone | hnone
    · rw [hnone] at hsome
      cases hsome
    · rw [post, hfree, hnone]
      rfl

/-- Offers that are apart may be posted in any order. -/
theorem postAll_perm {os os' : List (K → Option V)} (hperm : os.Perm os')
    (hapart : os.Pairwise Apart) (b : K → Option V) : postAll b os = postAll b os' := by
  refine hperm.foldl_eq' ?_ b
  intro o ho o' ho' b
  by_cases hsame : o = o'
  · rw [hsame]
  · exact post_comm (hapart.forall ho ho' hsame) b

end Board

end EmvaultElements
