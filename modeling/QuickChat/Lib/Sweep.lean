import QuickChat.Lib.Program

/-!
# A loop that goes once around a queue

The loop takes as many turns as the queue has elements when it begins. A turn pops the element at the
front, visits it, and pushes what the visit gives back, if anything, at the end; before each turn it is
asked whether to go on, and a visit may leave the loop with an error. So the elements that are left are
those that were not visited, followed by those that were given back, both in their order.
-/

universe u v

namespace Sweep

variable {E : Type u} {R : E → Type v} {κ ε : Type}

section Loop

variable (more : Program E R Bool) (visit : κ → Program E R (Option κ × Option ε))
  (empty : Program E R (List κ × Option ε))

/-- `more` is asked before each turn, and `empty` is what the front of an empty queue comes to. -/
def loop : Nat → List κ → Program E R (List κ × Option ε)
  | 0, queue => return (queue, none)
  | turns + 1, queue => do
      if ← more then
        match queue with
        | [] => empty
        | element :: rest =>
            match ← visit element with
            | (back, none) => loop turns (rest ++ back.toList)
            | (back, some e) => return (rest ++ back.toList, some e)
      else
        return (queue, none)

structure Passed (κ ε : Type) where
  back : List κ
  left : List κ
  error : Option ε

/-- The turns over the elements of a list, with the effects that they perform. -/
inductive Turns : List κ → List ((effect : E) × R effect) → Option (Passed κ ε) → Prop where
  | finished : Turns [] [] (some ⟨[], [], none⟩)
  | unasked {element : κ} {rest : List κ} {asked : List ((effect : E) × R effect)}
      (hmore : more.Ends asked none) : Turns (element :: rest) asked none
  | stopped {element : κ} {rest : List κ} {asked : List ((effect : E) × R effect)}
      (hmore : more.Ends asked (some false)) :
      Turns (element :: rest) asked (some ⟨[], element :: rest, none⟩)
  | stuck {element : κ} {rest : List κ} {asked seen : List ((effect : E) × R effect)}
      (hmore : more.Ends asked (some true)) (hvisit : (visit element).Ends seen none) :
      Turns (element :: rest) (asked ++ seen) none
  | raised {element : κ} {rest : List κ} {asked seen : List ((effect : E) × R effect)}
      {back : Option κ} {e : ε} (hmore : more.Ends asked (some true))
      (hvisit : (visit element).Ends seen (some (back, some e))) :
      Turns (element :: rest) (asked ++ seen) (some ⟨back.toList, rest, some e⟩)
  | visited {element : κ} {rest : List κ} {asked seen trace : List ((effect : E) × R effect)}
      {back : Option κ} {outcome : Option (Passed κ ε)} (hmore : more.Ends asked (some true))
      (hvisit : (visit element).Ends seen (some (back, none))) (hrest : Turns rest trace outcome) :
      Turns (element :: rest) (asked ++ (seen ++ trace))
        (outcome.map fun passed => { passed with back := back.toList ++ passed.back })

end Loop

variable {more : Program E R Bool} {visit : κ → Program E R (Option κ × Option ε)}
  {empty : Program E R (List κ × Option ε)}

def Passed.queue (passed : Passed κ ε) (pushed : List κ) : List κ × Option ε :=
  (passed.left ++ (pushed ++ passed.back), passed.error)

/-- **The loop** takes its turns over the elements that the queue has at the beginning, and does not
come to the front of an empty queue. -/
theorem turns_of_ends {todo : List κ} {pushed : List κ} {trace : List ((effect : E) × R effect)}
    {outcome : Option (List κ × Option ε)}
    (hends : (loop more visit empty todo.length (todo ++ pushed)).Ends trace outcome) :
    ∃ passed, Turns more visit todo trace passed ∧
      outcome = passed.map fun passed => passed.queue pushed := by
  induction todo generalizing pushed trace outcome with
  | nil =>
      obtain ⟨rfl, rfl⟩ := Program.ends_ret_iff.mp hends
      exact ⟨_, .finished, by simp [Passed.queue]⟩
  | cons element rest ih =>
      rw [List.length_cons, List.cons_append, loop] at hends
      rcases Program.ends_bind_iff.mp hends with ⟨hmore, rfl⟩ | ⟨goOn, asked, tail, rfl, hmore, htail⟩
      · exact ⟨none, .unasked hmore, rfl⟩
      · cases goOn with
        | false =>
            obtain ⟨rfl, rfl⟩ := Program.ends_ret_iff.mp htail
            rw [List.append_nil]
            exact ⟨_, .stopped hmore, by simp [Passed.queue]⟩
        | true =>
            rcases Program.ends_bind_iff.mp htail with
              ⟨hvisit, rfl⟩ | ⟨⟨back, raised⟩, seen, last, rfl, hvisit, hlast⟩
            · exact ⟨none, .stuck hmore hvisit, rfl⟩
            · cases raised with
              | some e =>
                  obtain ⟨rfl, rfl⟩ := Program.ends_ret_iff.mp hlast
                  rw [List.append_nil]
                  exact ⟨_, .raised hmore hvisit, by simp [Passed.queue]⟩
              | none =>
                  dsimp only at hlast
                  rw [List.append_assoc] at hlast
                  obtain ⟨passed, hturns, rfl⟩ := ih hlast
                  refine ⟨_, .visited hmore hvisit hturns, ?_⟩
                  cases passed with
                  | none => rfl
                  | some passed => simp [Passed.queue]

end Sweep
