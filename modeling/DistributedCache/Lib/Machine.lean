import Mathlib.Data.List.Induction

/-! Objects that answer one call at a time.  `step s a` is the state after call `a` on state `s` and
the answer to the call. -/

namespace Lib

variable {σ α ρ : Type} (step : σ → α → σ × ρ)

/-- The state after a list of calls. -/
def after (s : σ) : List α → σ
  | [] => s
  | a :: as => after (step s a).1 as

/-- The calls of a list with their answers. -/
def answers (s : σ) : List α → List (α × ρ)
  | [] => []
  | a :: as => (a, (step s a).2) :: answers (step s a).1 as

variable {step}

theorem after_append (s : σ) (as bs : List α) :
    after step s (as ++ bs) = after step (after step s as) bs := by
  induction as generalizing s with
  | nil => rfl
  | cons a as ih => exact ih (step s a).1

theorem answers_append (s : σ) (as bs : List α) :
    answers step s (as ++ bs) = answers step s as ++ answers step (after step s as) bs := by
  induction as generalizing s with
  | nil => rfl
  | cons a as ih => exact congrArg _ (ih (step s a).1)

/-- The calls behind a part of the answers. -/
theorem answers_eq_append {s : σ} {as : List α} {front back : List (α × ρ)}
    (split : answers step s as = front ++ back) :
    ∃ bs cs, as = bs ++ cs ∧ answers step s bs = front ∧
      answers step (after step s bs) cs = back := by
  induction front generalizing s as with
  | nil => exact ⟨[], as, rfl, rfl, split⟩
  | cons first front ih =>
    cases as with
    | nil => cases split
    | cons a as =>
      rw [answers, List.cons_append, List.cons.injEq] at split
      obtain ⟨rfl, rest⟩ := split
      obtain ⟨bs, cs, rfl, answered, remaining⟩ := ih rest
      exact ⟨a :: bs, cs, rfl, by rw [answers, answered], remaining⟩

/-- What holds at the start and is kept by every call, with the answers so far, holds after every
list of calls. -/
theorem answers_induction (I : List (α × ρ) → σ → Prop)
    (next : ∀ h s a, I h s → I (h ++ [(a, (step s a).2)]) (step s a).1) {s : σ}
    (start : I [] s) (as : List α) : I (answers step s as) (after step s as) := by
  induction as using List.reverseRecOn with
  | nil => exact start
  | append_singleton as a ih =>
    rw [answers_append, after_append]
    exact next _ _ a ih

end Lib
