import Mathlib.Data.List.AList
import Mathlib.Algebra.BigOperators.Fin
import Mathlib.Algebra.Order.BigOperators.Group.Finset

/-! Counting the values of a finite map, or of a family of finite maps, that satisfy a test, and how
an insertion, an overwrite, an erasure, and a reordering change the count. -/

namespace Lib

variable {α β : Type}

/-- The number of values of `m` that satisfy `p`. -/
def tally (p : β → Bool) (m : AList fun _ : α => β) : Nat := m.entries.countP fun e => p e.2

theorem tally_true (m : AList fun _ : α => β) : tally (fun _ => true) m = m.entries.length := by
  simp [tally]

theorem tally_perm {p : β → Bool} {m m' : AList fun _ : α => β} (h : m.entries.Perm m'.entries) :
    tally p m = tally p m' := h.countP_eq _

/-- The number of values of all maps of a family that satisfy `p`. -/
def tallyAll (p : β → Bool) {n : Nat} (ms : Fin n → AList fun _ : α => β) : Nat :=
  ∑ i, tally p (ms i)

/-- The entries of all maps of a family, map by map. -/
def allEntries {n : Nat} (ms : Fin n → AList fun _ : α => β) : List (Sigma fun _ : α => β) :=
  (List.finRange n).flatMap fun i => (ms i).entries

theorem mem_allEntries {n : Nat} {ms : Fin n → AList fun _ : α => β}
    {e : Sigma fun _ : α => β} : e ∈ allEntries ms ↔ ∃ i, e ∈ (ms i).entries := by
  simp [allEntries]

theorem countP_allEntries (p : β → Bool) {n : Nat} (ms : Fin n → AList fun _ : α => β) :
    (allEntries ms).countP (fun e => p e.2) = tallyAll p ms := by
  rw [allEntries, List.countP_flatMap, tallyAll, ← Fin.sum_univ_def]
  rfl

theorem length_allEntries {n : Nat} (ms : Fin n → AList fun _ : α => β) :
    (allEntries ms).length = tallyAll (fun _ => true) ms := by
  rw [← countP_allEntries]
  simp

theorem tally_le_tallyAll (p : β → Bool) {n : Nat} (ms : Fin n → AList fun _ : α => β)
    (i : Fin n) : tally p (ms i) ≤ tallyAll p ms :=
  Finset.single_le_sum (f := fun i => tally p (ms i)) (fun _ _ => Nat.zero_le _)
    (Finset.mem_univ i)

theorem tallyAll_update (p : β → Bool) {n : Nat} (ms : Fin n → AList fun _ : α => β) (i : Fin n)
    (m : AList fun _ : α => β) :
    tallyAll p (Function.update ms i m) + tally p (ms i) = tallyAll p ms + tally p m := by
  have moved : (fun j => tally p (Function.update ms i m j)) =
      Function.update (fun j => tally p (ms j)) i (tally p m) := by
    funext j
    by_cases same : j = i
    · subst same
      simp
    · simp [same]
  have split := Finset.add_sum_erase Finset.univ (fun j => tally p (ms j)) (Finset.mem_univ i)
  rw [tallyAll, moved, Finset.sum_update_of_mem (Finset.mem_univ i),
    Finset.sdiff_singleton_eq_erase, tallyAll]
  omega

variable [DecidableEq α]

theorem mem_entries_insert {m : AList fun _ : α => β} {a : α} {b : β}
    {e : Sigma fun _ : α => β} (h : e ∈ (m.insert a b).entries) :
    e = ⟨a, b⟩ ∨ e ∈ m.entries := by
  rw [AList.entries_insert, List.mem_cons] at h
  exact h.imp_right fun member => (List.kerase_sublist a m.entries).subset member

theorem mem_entries_erase {m : AList fun _ : α => β} {a : α} {e : Sigma fun _ : α => β}
    (h : e ∈ (m.erase a).entries) : e ∈ m.entries :=
  (List.kerase_sublist a m.entries).subset h

theorem lookup_eq_some_iff {m : AList fun _ : α => β} {a : α} {b : β} :
    m.lookup a = some b ↔ (⟨a, b⟩ : Sigma fun _ : α => β) ∈ m.entries :=
  List.mem_dlookup_iff m.nodupKeys

/-- The entries of `m` are the entry of `a` and the entries of `m.erase a`. -/
theorem perm_erase {m : AList fun _ : α => β} {a : α} {b : β} (h : m.lookup a = some b) :
    m.entries.Perm (⟨a, b⟩ :: (m.erase a).entries) := by
  have member : a ∈ m.entries.keys := AList.mem_keys.mp (AList.lookup_isSome.mp (by simp [h]))
  obtain ⟨b', front, back, fresh, split, erased⟩ := List.exists_of_kerase member
  have same : b' = b := by
    have found : (⟨a, b'⟩ : Sigma fun _ : α => β) ∈ m.entries := by simp [split]
    have value : m.lookup a = some b' := lookup_eq_some_iff.mpr found
    exact Option.some.inj (value.symm.trans h)
  subst same
  show m.entries.Perm (_ :: m.entries.kerase a)
  rw [erased, split]
  exact List.perm_middle

theorem tally_erase {m : AList fun _ : α => β} {a : α} {b : β} (p : β → Bool)
    (h : m.lookup a = some b) : tally p m = tally p (m.erase a) + (p b).toNat := by
  have := (perm_erase h).countP_eq fun e => p e.2
  rw [tally, this, List.countP_cons]
  cases p b <;> rfl

theorem tally_insert_new {m : AList fun _ : α => β} {a : α} (p : β → Bool) (b : β)
    (h : m.lookup a = none) : tally p (m.insert a b) = tally p m + (p b).toNat := by
  rw [tally, AList.entries_insert_of_notMem (AList.lookup_eq_none.mp h), List.countP_cons]
  cases p b <;> rfl

theorem tally_insert_old {m : AList fun _ : α => β} {a : α} {b : β} (p : β → Bool) (b' : β)
    (h : m.lookup a = some b) :
    tally p (m.insert a b') + (p b).toNat = tally p m + (p b').toNat := by
  have old := tally_erase p h
  have fresh : tally p (m.insert a b') = tally p (m.erase a) + (p b').toNat := by
    show (⟨a, b'⟩ :: (m.erase a).entries).countP (fun e => p e.2) = _
    rw [List.countP_cons]
    cases p b' <;> rfl
  omega

end Lib
