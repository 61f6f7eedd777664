import DistributedCache.Core.History
import DistributedCache.Core.Sequential

/-! A bounded store with room for every key that is ever set.  `EnforceCapacity` then returns at its
first load of the total, whatever the schedule, so that only expiry makes a `Get` miss. -/

namespace DistributedCache.Core

open Lib

/-- The key of the section of a `Set`. -/
def Event.writtenKey : Event → Option Bytes
  | wrote key _ _ => some key
  | _ => none

/-- The keys that `Set`s have written. -/
def writtenKeys (events : List Event) : Finset Bytes :=
  (events.filterMap Event.writtenKey).toFinset

theorem writtenKeys_subset_append (events later : List Event) :
    writtenKeys events ⊆ writtenKeys (events ++ later) := by
  intro key member
  rw [writtenKeys, List.filterMap_append, List.toFinset_append]
  exact Finset.mem_union_left _ member

theorem mem_writtenKeys_of_lastWrite {events : List Event} {key value : Bytes}
    {expiresAt : Option Int} (written : lastWrite key events = some (value, expiresAt)) :
    key ∈ writtenKeys events := by
  obtain ⟨event, member, wrote⟩ := List.exists_of_findSome?_eq_some written
  refine List.mem_toFinset.mpr (List.mem_filterMap.mpr ⟨event, List.mem_reverse.mp member, ?_⟩)
  cases event with
  | wrote key' value' expiry =>
    simp only [Event.write] at wrote
    split at wrote
    · rename_i same
      rw [Event.writtenKey, same]
    · cases wrote
  | _ => cases wrote

namespace ConcurrentStore

variable {cfg : Config} {store : ConcurrentStore cfg} {events : List Event}

/-- The entries are under distinct keys. -/
theorem Rep.total_le_card {keys : Finset Bytes} (rep : store.Rep)
    (stored : ∀ key entry, store.find key = some entry → key ∈ keys) :
    store.totalEntries ≤ keys.card := by
  rw [rep.total, ← List.length_map Sigma.fst, ← List.toFinset_card_of_nodup rep.distinct]
  refine Finset.card_le_card fun key member => ?_
  obtain ⟨e, inside, rfl⟩ := List.mem_map.mp (List.mem_toFinset.mp member)
  exact stored e.1 e.2 (rep.mem_entries_iff.mp inside)

theorem setSection_content (persistent : store.Persistent) (key value : Bytes) (now : Int) :
    (store.setSection key value none now).Persistent ∧
      (store.setSection key value none now).content =
        Function.update store.content key (some value) := by
  obtain ⟨written, here, same, expiry⟩ := find_setSection_self store key value none now
  refine ⟨fun other entry found => ?_, ?_⟩
  · by_cases equal : other = key
    · subst equal
      rw [here] at found
      cases found
      exact expiry
    · rw [find_setSection_ne store value none now equal] at found
      exact persistent other entry found
  · funext other
    by_cases equal : other = key
    · subst equal
      simp [content, here, same]
    · simp [content, find_setSection_ne store value none now equal, equal]

/-- With room for every key that is stored, a `Set` of a caller that runs alone is an update of a
map. -/
theorem set_content_room {keys : Finset Bytes} (rep : store.Rep) (persistent : store.Persistent)
    (room : keys.card ≤ cfg.maxEntries) (stored : ∀ key ∉ keys, store.content key = none)
    {key : Bytes} (member : key ∈ keys) (value : Bytes) (clock : Nat → Int) :
    ∃ after, store.set key value none clock = some after ∧ after.Rep ∧ after.Persistent ∧
      after.content = Function.update store.content key (some value) := by
  have rep' : (store.setSection key value none (clock 1)).Rep := rep.setSection key value none _
  obtain ⟨persistent', content'⟩ := setSection_content persistent key value (clock 1)
  have fits : (store.setSection key value none (clock 1)).totalEntries ≤ cfg.maxEntries := by
    refine (rep'.total_le_card fun other entry found => ?_).trans room
    by_contra outside
    have different : other ≠ key := fun same => outside (same ▸ member)
    have absent : (store.setSection key value none (clock 1)).content other = none := by
      rw [content', Function.update_of_ne different, stored other outside]
    rw [content, found] at absent
    cases absent
  refine ⟨_, ?_, rep', persistent', content'⟩
  rw [set, enforceCapacity, Option.map_none]
  simp only [if_pos fits, ite_self]

/-- Every key that is stored has been written. -/
theorem Rep.total_le (rep : store.Rep) (recorded : store.Recorded events) :
    store.totalEntries ≤ (writtenKeys events).card :=
  rep.total_le_card fun key entry found => mem_writtenKeys_of_lastWrite (recorded key entry found)

end ConcurrentStore

namespace Call

variable {cfg : Config} {store store' : ConcurrentStore cfg} {call call' : Call cfg}
  {action : Action} {event : Event} {events : List Event}

/-- The call is outside `EnforceCapacity`, or about to load the total for the first time. -/
def Unhurried (call : Call cfg) : Prop := call.Plain ∨ call = loadTotal

/-- The first load of the total finds room, and the call returns. -/
theorem advance_loadTotal (room : store.totalEntries ≤ cfg.maxEntries)
    (moved : loadTotal.advance store action = some (store', call', event)) :
    call'.Unhurried ∧ (∀ key, store'.find key = store.find key) ∧ event = .silent := by
  cases advance_sound moved with
  | reorder perm => exact ⟨.inr rfl, ConcurrentStore.find_reorder perm, rfl⟩
  | proceed clock moved =>
    cases moved
    rw [if_pos room]
    exact ⟨.inl trivial, fun _ => rfl, rfl⟩

theorem enforceCapacity_unhurried : (enforceCapacity : Call cfg).Unhurried := by
  unfold enforceCapacity
  split
  · exact .inl trivial
  · exact .inr rfl

theorem Plain.advance (plain : call.Plain)
    (moved : call.advance store action = some (store', call', event)) : call'.Unhurried := by
  cases advance_sound moved with
  | callSet => exact .inl trivial
  | callGet => exact .inl trivial
  | reorder => exact .inl plain
  | proceed clock moved =>
    cases call with
    | idle => cases moved
    | setSection =>
      cases moved
      exact enforceCapacity_unhurried
    | getShared key =>
      simp only [proceed] at moved
      split at moved <;> cases moved <;> exact .inl trivial
    | getExclusive =>
      cases moved
      exact .inl trivial
    | _ => exact absurd plain id

/-- Where there is room, a step enters no loop of `EnforceCapacity` and drops nothing that has not
expired. -/
theorem Unhurried.advance (unhurried : call.Unhurried)
    (room : store.totalEntries ≤ cfg.maxEntries) (recorded : store.Recorded events)
    (accounted : store.Accounted events)
    (moved : call.advance store action = some (store', call', event)) :
    call'.Unhurried ∧ store'.Accounted (events ++ [event]) := by
  rcases unhurried with plain | rfl
  · exact ⟨plain.advance moved, advance_accounted plain recorded accounted moved⟩
  · obtain ⟨unhurried, same, rfl⟩ := advance_loadTotal room moved
    refine ⟨unhurried, fun key absent => ?_⟩
    rw [lastWrite_snoc, readings, List.filterMap_append]
    rcases accounted key (same key ▸ absent) with
      never | ⟨value, expiry, now, written, read, past⟩
    · exact .inl never
    · exact .inr ⟨value, expiry, now, written, List.mem_append_left _ read, past⟩

end Call

/-- What a `Get` returns from a store that forgets only what has expired: what the last `Set` of the
key wrote, and nothing if there is none, or if a reading of the clock so far is past its expiry. -/
def Remembers (before : List Event) (key : Bytes) (reading : Option Int)
    (result : Option Bytes) : Prop :=
  match lastWrite key before with
  | none => result = none
  | some (value, none) => result = some value
  | some (value, some expiry) =>
    (result = some value ∧ ∃ now, reading = some now ∧ now < expiry) ∨
      (result = none ∧ ∃ now ∈ readings (before ++ [.returned key reading result]), expiry ≤ now)

theorem Call.advance_remembers {cfg : Config} {store store' : ConcurrentStore cfg}
    {call call' : Call cfg} {action : Action} {events : List Event} {key : Bytes}
    {reading : Option Int} {result : Option Bytes} (recorded : store.Recorded events)
    (accounted : store.Accounted events)
    (moved : call.advance store action = some (store', call', .returned key reading result)) :
    Remembers events key reading result := by
  unfold Remembers
  rcases advance_returned moved with ⟨absent, rfl⟩ | ⟨entry, now, found, rfl, outcome⟩
  · rcases accounted key absent with never | ⟨value, expiry, now, written, read, past⟩
    · simp only [never]
    · rw [written]
      refine .inr ⟨rfl, now, ?_, past⟩
      rw [readings, List.filterMap_append]
      exact List.mem_append_left _ read
  · rw [recorded key entry found]
    have here : now ∈ readings (events ++ [.returned key (some now) result]) := by
      simp [readings, Event.reading]
    cases expires : entry.expiresAt with
    | none =>
      have fresh : entry.isExpired now = false := by simp [ValueEntry.isExpired, expires]
      rcases outcome with ⟨expired, -⟩ | ⟨-, returned⟩
      · rw [fresh] at expired
        cases expired
      · exact returned
    | some expiry =>
      rcases outcome with ⟨expired, rfl⟩ | ⟨fresh, rfl⟩
      · obtain ⟨_, same, past⟩ := ValueEntry.isExpired_iff.mp expired
        cases expires.symm.trans same
        exact .inr ⟨rfl, now, here, past⟩
      · refine .inl ⟨rfl, now, rfl, ?_⟩
        by_contra past
        have : entry.isExpired now = true :=
          ValueEntry.isExpired_iff.mpr ⟨expiry, expires, Int.not_lt.mp past⟩
        simp [this] at fresh

variable {ι : Type} {cfg : Config}

/-- What every schedule keeps while the keys that it writes have room. -/
structure Unpressed (events : List Event) (s : Pool ι (ConcurrentStore cfg) (Call cfg)) : Prop where
  rep : s.shared.Rep
  recorded : s.shared.Recorded events
  accounted : s.shared.Accounted events
  unhurried : ∀ i, (s.thread i).Unhurried

theorem start_unpressed : Unpressed [] (start ι cfg) := by
  refine ⟨ConcurrentStore.new_rep cfg, fun key entry found => ?_, fun key _ => .inl rfl,
    fun i => .inl trivial⟩
  rw [start, ConcurrentStore.find_new] at found
  cases found

variable [DecidableEq ι]

theorem Unpressed.step {events : List Event} (room : (writtenKeys events).card ≤ cfg.maxEntries)
    {s t : Pool ι (ConcurrentStore cfg) (Call cfg)} {l : ι × Action} {event : Event}
    (unpressed : Unpressed events s) (moved : (clients ι cfg).step s l = some (t, event)) :
    Unpressed (events ++ [event]) t := by
  obtain ⟨i, action⟩ := l
  obtain ⟨shared, call, advanced, rfl⟩ := Program.step_eq_some.mp moved
  obtain ⟨rep, recorded, accounted, unhurried⟩ := unpressed
  have fits : s.shared.totalEntries ≤ cfg.maxEntries := (rep.total_le recorded).trans room
  obtain ⟨next, accounted⟩ := (unhurried i).advance fits recorded accounted advanced
  refine ⟨Call.advance_rep rep advanced, Call.advance_recorded recorded advanced, accounted,
    fun j => ?_⟩
  by_cases same : j = i
  · subst same
    simpa using next
  · simpa [same] using unhurried j

theorem run_unpressed {schedule : List (ι × Action)}
    {after : Pool ι (ConcurrentStore cfg) (Call cfg)} {events : List Event}
    (ran : (clients ι cfg).run (start ι cfg) schedule = some (after, events))
    (room : (writtenKeys events).card ≤ cfg.maxEntries) : Unpressed events after := by
  refine Program.run_induction (fun events s => (writtenKeys events).card ≤ cfg.maxEntries →
    Unpressed events s) ?_ (fun _ => start_unpressed) ran room
  intro events s l t event unpressed moved room
  have earlier := (Finset.card_le_card (writtenKeys_subset_append events [event])).trans room
  exact (unpressed earlier).step earlier moved

/-- However many clients call `Set` and `Get` in whatever order, if they have set at most
`max_entries` different keys, no call is beyond the first test of `EnforceCapacity`, and every `Get`
has remembered the last `Set` of its key until that expired. -/
theorem roomy_remembers {schedule : List (ι × Action)}
    {after : Pool ι (ConcurrentStore cfg) (Call cfg)} {events : List Event}
    (ran : (clients ι cfg).run (start ι cfg) schedule = some (after, events))
    (room : (writtenKeys events).card ≤ cfg.maxEntries) :
    (∀ i, (after.thread i).Unhurried) ∧
      ∀ before later key reading result,
        events = before ++ .returned key reading result :: later →
          Remembers before key reading result := by
  refine ⟨(run_unpressed ran room).unhurried, ?_⟩
  rintro before later key reading result rfl
  obtain ⟨front, back, s, -, earlier, rest⟩ := Program.run_eq_append ran
  have room : (writtenKeys before).card ≤ cfg.maxEntries :=
    (Finset.card_le_card (writtenKeys_subset_append before _)).trans room
  obtain ⟨-, recorded, accounted, -⟩ := run_unpressed earlier room
  cases back with
  | nil => simp [Program.run] at rest
  | cons l back =>
    obtain ⟨u, event, tail, moved, -, same⟩ := Program.run_cons_eq_some.mp rest
    obtain ⟨rfl, rfl⟩ := List.cons.inj same
    obtain ⟨shared, call, advanced, -⟩ := Program.step_eq_some.mp moved
    exact Call.advance_remembers recorded accounted advanced

/-- Room for two keys, in one stripe. -/
def roomyConfig : Config := ⟨1, 2, fun _ => 0⟩

/-- One client sets two keys, and another gets the first of them in between. -/
def roomySchedule : List (Bool × Action) :=
  [(false, .callSet (ascii "a") (ascii "x") none 0 0), (false, .proceed 1), (false, .proceed 2),
    (false, .callSet (ascii "b") (ascii "y") none 3 3), (true, .callGet (ascii "a")),
    (false, .proceed 4), (true, .proceed 5), (false, .proceed 6), (true, .proceed 7)]

theorem roomySchedule_remembers :
    Remembers [.called (ascii "a"), .wrote (ascii "a") (ascii "x") none, .silent,
      .called (ascii "b"), .called (ascii "a"), .wrote (ascii "b") (ascii "y") none,
      .looked (ascii "a") 5, .silent] (ascii "a") (some 7) (some (ascii "x")) :=
  have ran : ((clients Bool roomyConfig).run (start Bool roomyConfig) roomySchedule).isSome =
    true := by decide
  (roomy_remembers (Option.some_get ran).symm (by decide)).2 _ [] _ _ _ (by decide)

end DistributedCache.Core
