import Mathlib.Data.Prod.Lex
import Mathlib.Logic.Hydra
import QuickChat.Lib.Machine

/-!
# Many parts that come to rest

Each part of a system is at a stage, and what is left to it at that stage is a number. A step takes one
part to an earlier stage in a well-founded order, whatever that leaves to it, or keeps all stages and
leaves less. No system takes such steps for ever.
-/

namespace Ranked

open Relation

variable {γ β : Type*} {Earlier : β → β → Prop} {stage : γ → β} {left left' : γ → ℕ}
  {before after : List γ} {part part' : γ}

/-- The stages of the parts, and what is left to them together. -/
def rank (stage : γ → β) (left : γ → ℕ) (parts : List γ) : Multiset β × ℕ :=
  (parts.map stage, (parts.map left).sum)

def Less (Earlier : β → β → Prop) : Multiset β × ℕ → Multiset β × ℕ → Prop :=
  Prod.Lex (CutExpand Earlier) (· < ·)

theorem wellFounded_less (hwf : WellFounded Earlier) : WellFounded (Less Earlier) :=
  hwf.cutExpand.prod_lex Nat.lt_wfRel.wf

theorem rank_split (before after : List γ) (part : γ) :
    rank stage left (before ++ part :: after) =
      ((rank stage left (before ++ after)).1 + {stage part},
        (rank stage left (before ++ after)).2 + left part) := by
  ext1
  · simp only [rank, List.map_append, List.map_cons]
    rw [← Multiset.coe_add, ← Multiset.coe_add, ← Multiset.cons_coe, ← Multiset.singleton_add,
      add_comm {stage part}, add_assoc]
  · simp only [rank, List.map_append, List.map_cons, List.sum_append, List.sum_cons]
    omega

theorem less_of_earlier (hearlier : Earlier (stage part') (stage part)) :
    Less Earlier (rank stage left (before ++ part' :: after))
      (rank stage left (before ++ part :: after)) := by
  rw [rank_split, rank_split]
  exact .left _ _ (cutExpand_add_single _ hearlier)

theorem less_of_left (hstage : stage part' = stage part) (hleft : left part' < left part) :
    Less Earlier (rank stage left (before ++ part' :: after))
      (rank stage left (before ++ part :: after)) := by
  rw [rank_split, rank_split, hstage]
  exact .right _ (Nat.add_lt_add_left hleft _)

/-- Less is left to some part, and to no part more. -/
theorem less_of_all {parts : List γ} (hall : ∀ part ∈ parts, left' part ≤ left part)
    (hone : ∃ part ∈ parts, left' part < left part) :
    Less Earlier (rank stage left' parts) (rank stage left parts) :=
  .right _ (List.sum_lt_sum _ _ hall hone)

end Ranked
