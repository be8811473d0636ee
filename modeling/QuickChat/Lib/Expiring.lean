import Mathlib.Data.List.Induction

/-!
# Values that expire

A history of values that are put under keys and of time that goes by. A value is live under its key
when it is the last one put there and less than its time to live has gone by since.
-/

namespace Expiring

variable {κ ν : Type*}

inductive Event (κ ν : Type*) where
  | put (key : κ) (value : ν)
  | elapse (time : Nat)

namespace Event

def elapsed : Event κ ν → Nat
  | put _ _ => 0
  | elapse time => time

def PutsAt (key : κ) (event : Event κ ν) : Prop := ∃ value, event = put key value

end Event

def elapsed : List (Event κ ν) → Nat
  | [] => 0
  | event :: history => event.elapsed + elapsed history

theorem elapsed_concat (history : List (Event κ ν)) (event : Event κ ν) :
    elapsed (history ++ [event]) = elapsed history + event.elapsed := by
  induction history with
  | nil => simp [elapsed]
  | cons first history ih => rw [List.cons_append, elapsed, ih, elapsed, Nat.add_assoc]

/-- The value is the last one put under the key, and has been there for this long. -/
def LastPut (history : List (Event κ ν)) (key : κ) (value : ν) (age : Nat) : Prop :=
  ∃ before after, history = before ++ .put key value :: after ∧
    (∀ event ∈ after, ¬ event.PutsAt key) ∧ elapsed after = age

def Live (ttl : Nat) (history : List (Event κ ν)) (key : κ) (value : ν) : Prop :=
  ∃ age < ttl, LastPut history key value age

variable {history : List (Event κ ν)} {event : Event κ ν} {key : κ} {value : ν} {age : Nat}

theorem not_lastPut_nil : ¬ LastPut [] key value age := by
  rintro ⟨before, after, hsplit, -⟩
  exact absurd hsplit.symm (by simp)

/-- What one more event does: it is the put itself, or it is another one and the value is older. -/
theorem lastPut_concat_iff :
    LastPut (history ++ [event]) key value age ↔
      (event = .put key value ∧ age = 0) ∨
        ¬ event.PutsAt key ∧ ∃ young, LastPut history key value young ∧
          young + event.elapsed = age := by
  constructor
  · rintro ⟨before, after, hsplit, hafter, hage⟩
    rcases List.eq_nil_or_concat after with rfl | ⟨rest, last, rfl⟩
    · obtain ⟨-, hlast⟩ := List.append_inj' hsplit rfl
      exact .inl ⟨List.singleton_inj.mp hlast, hage.symm⟩
    · rw [List.concat_eq_append] at hsplit hafter hage
      rw [← List.cons_append, ← List.append_assoc] at hsplit
      obtain ⟨rfl, hlast⟩ := List.append_inj' hsplit rfl
      obtain rfl := List.singleton_inj.mp hlast
      refine .inr ⟨hafter event (by simp), elapsed rest, ⟨before, rest, rfl, ?_, rfl⟩, ?_⟩
      · exact fun other hother => hafter other (List.mem_append_left _ hother)
      · rw [← elapsed_concat]
        exact hage
  · rintro (⟨rfl, rfl⟩ | ⟨hevent, young, ⟨before, after, rfl, hafter, rfl⟩, rfl⟩)
    · exact ⟨history, [], rfl, by simp, rfl⟩
    · refine ⟨before, after ++ [event], by simp, ?_, elapsed_concat _ _⟩
      intro other hother
      rcases List.mem_append.mp hother with hmem | hmem
      · exact hafter other hmem
      · rw [List.mem_singleton.mp hmem]
        exact hevent

end Expiring
