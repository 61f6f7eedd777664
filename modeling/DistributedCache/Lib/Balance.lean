import DistributedCache.Lib.Pool
import Mathlib.Algebra.BigOperators.Pi
import Mathlib.Algebra.Order.BigOperators.Group.Finset
import Mathlib.Algebra.Ring.Nat

/-! What goes into the threads of a pool and what comes out of them.  If each step balances what
its event brings in and takes out against what its thread holds, a whole run is balanced too. -/

namespace Lib

namespace Program

variable {ι σ κ α ε : Type} {P : Program ι σ κ α ε}

/-- A sum over the threads after one of them has moved. -/
theorem sum_update [DecidableEq ι] (held : ι → κ → Nat) {S : Finset ι} {i : ι} (member : i ∈ S)
    (thread : ι → κ) (k : κ) :
    ∑ j ∈ S, held j (Function.update thread i k j) + held i (thread i) =
      ∑ j ∈ S, held j (thread j) + held i k := by
  have rest : ∑ j ∈ S.erase i, held j (Function.update thread i k j) =
      ∑ j ∈ S.erase i, held j (thread j) := by
    refine Finset.sum_congr rfl fun j member => ?_
    rw [Function.update_of_ne (Finset.ne_of_mem_erase member)]
  rw [← Finset.add_sum_erase S _ member, ← Finset.add_sum_erase S _ member, rest,
    Function.update_self]
  omega

/-- The events have brought in what they have taken out and what some threads hold; no other
thread has moved. -/
def Balanced (start : ι → κ) (held : κ → Nat) (brought taken : ε → Nat) (es : List ε)
    (t : Pool ι σ κ) : Prop :=
  ∃ S : Finset ι, (∀ i, i ∉ S → t.thread i = start i) ∧
    (es.map brought).sum = (es.map taken).sum + ∑ i ∈ S, held (t.thread i)

/-- `L` is an invariant of each thread. -/
theorem run_balanced [DecidableEq ι] (L : κ → Prop) (held : κ → Nat) (brought taken : ε → Nat)
    (own : ∀ i s k a s' k' e, L k → P.advance i s k a = some (s', k', e) →
      L k' ∧ held k + brought e = held k' + taken e)
    {s t : Pool ι σ κ} {ls : List (ι × α)} {es : List ε} (starts : ∀ i, L (s.thread i))
    (empty : ∀ i, held (s.thread i) = 0) (ran : P.run s ls = some (t, es)) :
    (∀ i, L (t.thread i)) ∧ Balanced s.thread held brought taken es t := by
  refine run_induction (fun es t => (∀ i, L (t.thread i)) ∧
    Balanced s.thread held brought taken es t) ?_ ⟨starts, ∅, fun i _ => rfl, by simp⟩ ran
  rintro es u ⟨i, a⟩ v e ⟨locals, S, untouched, balance⟩ moved
  obtain ⟨shared, k, advanced, rfl⟩ := step_eq_some.mp moved
  obtain ⟨own', step⟩ := own _ _ _ _ _ _ _ (locals i) advanced
  refine ⟨fun j => ?_, insert i S, fun j outside => ?_, ?_⟩
  · by_cases same : j = i
    · subst same
      simpa using own'
    · simpa [same] using locals j
  · rw [Finset.mem_insert, not_or] at outside
    simpa [outside.1] using untouched j outside.2
  · have before : ∑ j ∈ insert i S, held (u.thread j) = ∑ j ∈ S, held (u.thread j) := by
      by_cases member : i ∈ S
      · rw [Finset.insert_eq_of_mem member]
      · rw [Finset.sum_insert member, untouched i member, empty, Nat.zero_add]
    have after := sum_update (fun _ => held) (Finset.mem_insert_self i S) u.thread k
    simp only [List.map_append, List.map_singleton, List.sum_append, List.sum_singleton]
    omega

theorem Balanced.le {start : ι → κ} {held : κ → Nat} {brought taken : ε → Nat} {es : List ε}
    {t : Pool ι σ κ} (balanced : Balanced start held brought taken es t) :
    (es.map taken).sum ≤ (es.map brought).sum := by
  obtain ⟨S, -, balance⟩ := balanced
  omega

/-- When no thread holds anything, as much was taken as was brought. -/
theorem Balanced.eq {start : ι → κ} {held : κ → Nat} {brought taken : ε → Nat} {es : List ε}
    {t : Pool ι σ κ} (balanced : Balanced start held brought taken es t)
    (empty : ∀ i, held (t.thread i) = 0) : (es.map taken).sum = (es.map brought).sum := by
  obtain ⟨S, -, balance⟩ := balanced
  rw [Finset.sum_eq_zero fun i _ => empty i] at balance
  omega

end Program

end Lib
