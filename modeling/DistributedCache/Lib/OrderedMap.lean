import Mathlib.Data.Bool.Basic
import Mathlib.Data.List.Nodup
import Mathlib.Data.Prod.Lex
import Mathlib.Order.Basic

/-! Maps with ordered keys, as `std::map`, and the entry that follows a key when the keys lie on a
circle. -/

namespace Lib

/-- A map whose entries stand in the order of their keys. -/
@[ext] structure OrderedMap (κ β : Type) [LinearOrder κ] where
  entries : List (κ × β)
  sorted : entries.Pairwise fun e e' => e.1 < e'.1

namespace OrderedMap

variable {κ β : Type} [LinearOrder κ]

/-- The map without entries. -/
def empty : OrderedMap κ β := ⟨[], .nil⟩

def find (m : OrderedMap κ β) (k : κ) : Option β :=
  (m.entries.find? fun e => decide (e.1 = k)).map Prod.snd

/-- Inserts an entry in front of the greater keys, unless the key is there. -/
def insertEntry (k : κ) (b : β) : List (κ × β) → List (κ × β)
  | [] => [(k, b)]
  | e :: rest =>
    if k < e.1 then (k, b) :: e :: rest
    else if e.1 < k then e :: insertEntry k b rest
    else e :: rest

theorem mem_insertEntry {k : κ} {b : β} {entries : List (κ × β)} {e : κ × β}
    (member : e ∈ insertEntry k b entries) : e = (k, b) ∨ e ∈ entries := by
  induction entries with
  | nil => exact .inl (List.mem_singleton.mp member)
  | cons e' rest ih =>
    rw [insertEntry] at member
    split at member
    · exact List.mem_cons.mp member
    · split at member
      · rcases List.mem_cons.mp member with rfl | later
        · exact .inr List.mem_cons_self
        · exact (ih later).imp_right (List.mem_cons_of_mem _)
      · exact .inr member

theorem mem_insertEntry_of_mem {k : κ} {b : β} {entries : List (κ × β)} {e : κ × β}
    (member : e ∈ entries) : e ∈ insertEntry k b entries := by
  induction entries with
  | nil => cases member
  | cons e' rest ih =>
    rw [insertEntry]
    split
    · exact List.mem_cons_of_mem _ member
    · split
      · rcases List.mem_cons.mp member with rfl | later
        · exact List.mem_cons_self
        · exact List.mem_cons_of_mem _ (ih later)
      · exact member

theorem mem_insertEntry_self {k : κ} {b : β} {entries : List (κ × β)}
    (absent : ∀ e ∈ entries, e.1 ≠ k) : (k, b) ∈ insertEntry k b entries := by
  induction entries with
  | nil => exact List.mem_singleton.mpr rfl
  | cons e rest ih =>
    rw [insertEntry]
    split
    · exact List.mem_cons_self
    · rename_i notBelow
      have above : e.1 < k := lt_of_le_of_ne (not_lt.mp notBelow) (absent e List.mem_cons_self)
      rw [if_pos above]
      exact List.mem_cons_of_mem _ (ih fun e member => absent e (List.mem_cons_of_mem _ member))

theorem insertEntry_sorted (k : κ) (b : β) {entries : List (κ × β)}
    (sorted : entries.Pairwise fun e e' => e.1 < e'.1) :
    (insertEntry k b entries).Pairwise fun e e' => e.1 < e'.1 := by
  induction entries with
  | nil => exact List.pairwise_singleton _ _
  | cons e rest ih =>
    obtain ⟨least, tail⟩ := List.pairwise_cons.mp sorted
    rw [insertEntry]
    split
    · rename_i below
      refine List.pairwise_cons.mpr ⟨fun e' member => ?_, sorted⟩
      rcases List.mem_cons.mp member with rfl | later
      · exact below
      · exact below.trans (least e' later)
    · split
      · rename_i above
        refine List.pairwise_cons.mpr ⟨fun e' member => ?_, ih tail⟩
        rcases mem_insertEntry member with rfl | later
        · exact above
        · exact least e' later
      · exact sorted

/-- `emplace`, which does nothing if the key is there. -/
def emplace (m : OrderedMap κ β) (k : κ) (b : β) : OrderedMap κ β :=
  ⟨insertEntry k b m.entries, insertEntry_sorted k b m.sorted⟩

def erase (m : OrderedMap κ β) (k : κ) : OrderedMap κ β :=
  ⟨m.entries.filter fun e => decide (e.1 ≠ k), m.sorted.sublist List.filter_sublist⟩

/-- `m[k] = b`. -/
def insert (m : OrderedMap κ β) (k : κ) (b : β) : OrderedMap κ β := (m.erase k).emplace k b

/-- The first entry whose key is not below `k`. -/
def lowerBound (m : OrderedMap κ β) (k : κ) : Option (κ × β) :=
  m.entries.find? fun e => decide (k ≤ e.1)

/-- The entry that `begin()` points to. -/
def first (m : OrderedMap κ β) : Option (κ × β) := m.entries.head?

variable {m m' : OrderedMap κ β} {k k' : κ} {b b' : β}

theorem key_injective {e e' : κ × β} (member : e ∈ m.entries) (member' : e' ∈ m.entries)
    (same : e.1 = e'.1) : e = e' := by
  have distinct : (m.entries.map Prod.fst).Nodup := by
    rw [List.Nodup, List.pairwise_map]
    exact m.sorted.imp ne_of_lt
  exact List.inj_on_of_nodup_map distinct member member' same

theorem find_eq_some : m.find k = some b ↔ (k, b) ∈ m.entries := by
  unfold find
  constructor
  · intro found
    obtain ⟨e, here, rfl⟩ := Option.map_eq_some_iff.mp found
    have key := List.find?_some here
    simp only [decide_eq_true_eq] at key
    exact key ▸ List.mem_of_find?_eq_some here
  · intro member
    cases here : m.entries.find? fun e => decide (e.1 = k) with
    | none => simpa using List.find?_eq_none.mp here _ member
    | some e =>
      have key := List.find?_some here
      simp only [decide_eq_true_eq] at key
      rw [key_injective (List.mem_of_find?_eq_some here) member key]
      rfl

theorem find_eq_none : m.find k = none ↔ ∀ e ∈ m.entries, e.1 ≠ k := by
  simp [find]

/-- Maps with the same values at all keys are equal. -/
theorem ext_find (same : ∀ k, m.find k = m'.find k) : m = m' := by
  refine OrderedMap.ext (List.Perm.eq_of_pairwise ?_ m.sorted m'.sorted ?_)
  · exact fun e e' _ _ below above => absurd below above.not_gt
  · refine (List.perm_ext_iff_of_nodup ?_ ?_).mpr fun e => ?_
    · exact m.sorted.imp fun h same => h.ne (congrArg Prod.fst same)
    · exact m'.sorted.imp fun h same => h.ne (congrArg Prod.fst same)
    · rw [← find_eq_some, ← find_eq_some, same]

theorem mem_emplace (absent : m.find k = none) {e : κ × β} :
    e ∈ (m.emplace k b).entries ↔ e = (k, b) ∨ e ∈ m.entries := by
  refine ⟨mem_insertEntry, ?_⟩
  rintro (rfl | member)
  · exact mem_insertEntry_self (find_eq_none.mp absent)
  · exact mem_insertEntry_of_mem member

theorem find_emplace (absent : m.find k = none) :
    (m.emplace k b).find k' = if k' = k then some b else m.find k' := by
  ext b'
  rw [find_eq_some, mem_emplace absent, Prod.mk.injEq]
  split
  · rename_i same
    subst same
    have other : (k', b') ∉ m.entries := fun member => find_eq_none.mp absent _ member rfl
    simp [other, eq_comm]
  · rename_i different
    simp [different, find_eq_some]

theorem mem_erase {e : κ × β} : e ∈ (m.erase k).entries ↔ e ∈ m.entries ∧ e.1 ≠ k := by
  simp [erase]

theorem find_erase : (m.erase k).find k' = if k' = k then none else m.find k' := by
  ext b'
  rw [find_eq_some, mem_erase]
  split
  · rename_i same
    simp [same]
  · rename_i different
    simp [different, find_eq_some]

theorem find_insert : (m.insert k b).find k' = if k' = k then some b else m.find k' := by
  rw [insert, find_emplace (by simp [find_erase]), find_erase]
  split <;> rfl

/-! ### Keys on a circle -/

/-- How far key `k` is from `h` in the direction of growing keys, where the least key follows the
greatest. -/
def clockwise (h k : κ) : Bool ×ₗ κ := toLex (decide (k < h), k)

/-- The entry that follows `h` on the circle. -/
def next (m : OrderedMap κ β) (h : κ) : Option (κ × β) :=
  match m.lowerBound h with
  | some e => some e
  | none => m.first

theorem next_eq_none {h : κ} : m.next h = none ↔ m.entries = [] := by
  unfold next
  cases bound : m.lowerBound h with
  | none => simp [first]
  | some e =>
    have member : e ∈ m.entries := List.mem_of_find?_eq_some bound
    simp [List.ne_nil_of_mem member]

theorem clockwise_le_of_le {h : κ} (below : k ≤ k') (sides : k < h ↔ k' < h) :
    clockwise h k ≤ clockwise h k' :=
  Prod.Lex.toLex_le_toLex.mpr (.inr ⟨by simp [sides], below⟩)

theorem clockwise_le_of_wrap {h : κ} (ahead : h ≤ k) (behind : k' < h) :
    clockwise h k ≤ clockwise h k' :=
  Prod.Lex.toLex_le_toLex.mpr (.inl (by simp [behind, ahead.not_gt]))

/-- The entry that follows `h` is the nearest one. -/
theorem next_least {h : κ} {e : κ × β} (found : m.next h = some e) :
    e ∈ m.entries ∧ ∀ e' ∈ m.entries, clockwise h e.1 ≤ clockwise h e'.1 := by
  unfold next at found
  cases bound : m.lowerBound h with
  | none =>
    rw [bound] at found
    obtain ⟨rest, split⟩ := List.head?_eq_some_iff.mp (show m.entries.head? = some e from found)
    have behind : ∀ e' ∈ m.entries, e'.1 < h := by
      intro e' member
      simpa using List.find?_eq_none.mp bound e' member
    have member : e ∈ m.entries := by simp [split]
    refine ⟨member, fun e' member' => ?_⟩
    refine clockwise_le_of_le ?_ (iff_of_true (behind e member) (behind e' member'))
    rw [split] at member'
    rcases List.mem_cons.mp member' with rfl | later
    · exact le_rfl
    · exact ((List.pairwise_cons.mp (split ▸ m.sorted)).1 e' later).le
  | some found' =>
    rw [bound] at found
    cases found
    obtain ⟨ahead, front, back, split, behind⟩ := List.find?_eq_some_iff_append.mp bound
    simp only [decide_eq_true_eq] at ahead
    refine ⟨by simp [split], fun e' member' => ?_⟩
    rw [split] at member'
    rcases List.mem_append.mp member' with earlier | later
    · exact clockwise_le_of_wrap ahead (by simpa using behind e' earlier)
    · have below : e.1 ≤ e'.1 := by
        rcases List.mem_cons.mp later with rfl | later
        · exact le_rfl
        · have sorted := (List.pairwise_append.mp (split ▸ m.sorted)).2.1
          exact ((List.pairwise_cons.mp sorted).1 e' later).le
      exact clockwise_le_of_le below (iff_of_false ahead.not_gt (ahead.trans below).not_gt)

theorem clockwise_injective (h : κ) : Function.Injective (clockwise h) :=
  fun _ _ same => (Prod.mk.inj (toLex.injective same)).2

/-- An entry that follows `h` does so among fewer entries. -/
theorem next_of_subset {h : κ} {e : κ × β} (found : m.next h = some e)
    (fewer : ∀ e' ∈ m'.entries, e' ∈ m.entries) (member : e ∈ m'.entries) :
    m'.next h = some e := by
  cases found' : m'.next h with
  | none => simp [next_eq_none.mp found'] at member
  | some e' =>
    obtain ⟨-, least⟩ := next_least found
    obtain ⟨member', least'⟩ := next_least found'
    have same := le_antisymm (least' e member) (least e' (fewer e' member'))
    rw [key_injective member' member (clockwise_injective h same)]

end OrderedMap

end Lib
