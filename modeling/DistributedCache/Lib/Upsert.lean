import Mathlib.Data.List.Nodup

/-! Lists of rows with keys, in which a row is changed where it stands or appended.  With distinct
keys such a list is a map. -/

namespace Lib

section

variable {α κ : Type} [DecidableEq κ] {key : α → κ} {change : α → α} {fresh : α} {rows : List α}

/-- The first row that passes the test is changed, or else a fresh row is appended. -/
def upsert (test : α → Bool) (change : α → α) (fresh : α) (rows : List α) : List α :=
  match rows.findIdx? test with
  | none => rows ++ [fresh]
  | some i => rows.modify i change

theorem upsert_cons (test : α → Bool) (change : α → α) (fresh a : α) (rows : List α) :
    upsert test change fresh (a :: rows) =
      if test a then change a :: rows else a :: upsert test change fresh rows := by
  unfold upsert
  rw [List.findIdx?_cons]
  by_cases passes : test a = true
  · rw [if_pos passes, if_pos passes]
    rfl
  · rw [if_neg passes, if_neg passes]
    cases rows.findIdx? test <;> rfl

/-- The changed row is the fresh one, so that its key is in the list once. -/
theorem mem_upsert (changed : ∀ a, key a = key fresh → change a = fresh)
    (distinct : (rows.map key).Nodup) {a : α} :
    a ∈ upsert (fun a => key a = key fresh) change fresh rows ↔
      a = fresh ∨ (a ∈ rows ∧ key a ≠ key fresh) := by
  induction rows with
  | nil => simp [upsert]
  | cons b rows ih =>
    obtain ⟨first, rest⟩ := List.nodup_cons.mp distinct
    rw [upsert_cons]
    by_cases here : key b = key fresh
    · rw [if_pos (decide_eq_true here), changed b here, List.mem_cons, List.mem_cons]
      have others : ∀ a ∈ rows, key a ≠ key fresh := fun a member same =>
        first (here ▸ same ▸ List.mem_map_of_mem member)
      constructor
      · rintro (rfl | member)
        · exact .inl rfl
        · exact .inr ⟨.inr member, others a member⟩
      · rintro (rfl | ⟨rfl | member, different⟩)
        · exact .inl rfl
        · exact absurd here different
        · exact .inr member
    · rw [if_neg (by simpa using here), List.mem_cons, List.mem_cons, ih rest]
      constructor
      · rintro (rfl | rfl | ⟨member, different⟩)
        · exact .inr ⟨.inl rfl, here⟩
        · exact .inl rfl
        · exact .inr ⟨.inr member, different⟩
      · rintro (rfl | ⟨rfl | member, different⟩)
        · exact .inr (.inl rfl)
        · exact .inl rfl
        · exact .inr (.inr ⟨member, different⟩)

theorem nodup_upsert (changed : ∀ a, key a = key fresh → change a = fresh)
    (distinct : (rows.map key).Nodup) :
    ((upsert (fun a => key a = key fresh) change fresh rows).map key).Nodup := by
  induction rows with
  | nil => simp [upsert]
  | cons b rows ih =>
    obtain ⟨first, rest⟩ := List.nodup_cons.mp distinct
    rw [upsert_cons]
    by_cases here : key b = key fresh
    · rw [if_pos (decide_eq_true here), changed b here, List.map_cons, ← here]
      exact distinct
    · rw [if_neg (by simpa using here), List.map_cons]
      refine List.nodup_cons.mpr ⟨fun member => ?_, ih rest⟩
      obtain ⟨a, inside, same⟩ := List.mem_map.mp member
      rcases (mem_upsert changed rest).mp inside with rfl | ⟨inside, -⟩
      · exact here same.symm
      · exact first (same ▸ List.mem_map_of_mem inside)

end

end Lib
