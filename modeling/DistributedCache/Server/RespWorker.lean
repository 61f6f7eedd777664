import DistributedCache.Lib.Pool
import Mathlib.Data.Finset.Card
import Mathlib.Tactic.Common

/-! The client slots of the RESP server: `TryAcquireRespSlot`, the rejection path of
`RunRespServer`, and `StartRespWorker` with its worker and its cleanup.  Each accepted connection is
a thread of its own, whose steps are the operations on the counter and on its `client_fd`, so the
schedules cover any number of connections and any order of their steps. -/

namespace DistributedCache.Server

open Lib

/-- The code that closes a `client_fd`. -/
inductive Closer
  /-- `RunRespServer`, which has found no free slot. -/
  | rejection
  /-- `StartRespWorker`, whose launcher has thrown. -/
  | cleanup
  /-- The worker, whose handler has returned. -/
  | worker
  deriving DecidableEq

/-- Where a connection stands. -/
inductive Connection
  /-- `accept` has not returned its `client_fd`. -/
  | waiting
  /-- `TryAcquireRespSlot` is about to start. -/
  | accepted
  /-- `TryAcquireRespSlot` is about to test `current`. -/
  | acquiring (current : Int)
  /-- `TryAcquireRespSlot` has returned false. -/
  | rejected
  /-- `TryAcquireRespSlot` has returned true. -/
  | acquired
  /-- The launcher has started the worker. -/
  | handling
  /-- The launcher has thrown. -/
  | failed
  /-- Its `client_fd` is closed, and `ReleaseRespSlot` comes next. -/
  | releasing
  /-- No code runs for it any more. -/
  | finished

/-- What the environment decides at a step: `compare_exchange_weak` may fail spuriously, and the
launcher may throw `std::system_error`. -/
inductive SlotOutcome
  | succeeds
  | fails

/-- What a step shows: the `client_fd` of a connection is closed, or nothing. -/
inductive SlotEvent (ι : Type)
  | closed (connection : ι) (closer : Closer)
  | silent

variable {ι : Type}

namespace Connection

/-- The connection holds a slot. -/
def Holds : Connection → Prop
  | acquired | handling | failed | releasing => True
  | waiting | accepted | acquiring _ | rejected | finished => False

/-- The `client_fd` of the connection has been closed. -/
def Closed : Connection → Prop
  | releasing | finished => True
  | waiting | accepted | acquiring _ | rejected | acquired | handling | failed => False

/-- One step of connection `i` with `active` slots in use. -/
def advance (maxClients : Int) (i : ι) (active : Int) :
    Connection → SlotOutcome → Option (Int × Connection × SlotEvent ι)
  | waiting, _ => some (active, accepted, .silent)
  | accepted, _ =>
    if maxClients ≤ 0 then some (active, acquired, .silent)
    else some (active, acquiring active, .silent)
  | acquiring current, outcome =>
    if current ≥ maxClients then some (active, rejected, .silent)
    else match outcome with
      | .succeeds =>
        if active = current then some (current + 1, acquired, .silent)
        else some (active, acquiring active, .silent)
      | .fails => some (active, acquiring active, .silent)
  | rejected, _ => some (active, finished, .closed i .rejection)
  | acquired, .succeeds => some (active, handling, .silent)
  | acquired, .fails => some (active, failed, .silent)
  | handling, _ => some (active, releasing, .closed i .worker)
  | failed, _ => some (active, releasing, .closed i .cleanup)
  | releasing, _ => some (active - 1, finished, .silent)
  | finished, _ => none

/-- The steps of connection `i` when `maxClients` is positive. -/
inductive Advances (maxClients : Int) (i : ι) (active : Int) :
    Connection → Int → Connection → SlotEvent ι → Prop
  | accept : Advances maxClients i active waiting active accepted .silent
  | load : Advances maxClients i active accepted active (acquiring active) .silent
  | reject {current : Int} :
      Advances maxClients i active (acquiring current) active rejected .silent
  | acquire : active < maxClients →
      Advances maxClients i active (acquiring active) (active + 1) acquired .silent
  | retry {current : Int} :
      Advances maxClients i active (acquiring current) active (acquiring active) .silent
  | refuse : Advances maxClients i active rejected active finished (.closed i .rejection)
  | launch : Advances maxClients i active acquired active handling .silent
  | launchFails : Advances maxClients i active acquired active failed .silent
  | work : Advances maxClients i active handling active releasing (.closed i .worker)
  | cleanUp : Advances maxClients i active failed active releasing (.closed i .cleanup)
  | release : Advances maxClients i active releasing (active - 1) finished .silent

theorem advance_sound {maxClients : Int} {i : ι} {active active' : Int} {c c' : Connection}
    {outcome : SlotOutcome} {event : SlotEvent ι} (positive : 0 < maxClients)
    (moved : c.advance maxClients i active outcome = some (active', c', event)) :
    Advances maxClients i active c active' c' event := by
  unfold advance at moved
  split at moved
  · cases moved
    exact .accept
  · rw [if_neg (by omega)] at moved
    cases moved
    exact .load
  · split at moved
    · cases moved
      exact .reject
    · rename_i below
      split at moved
      · split at moved
        · rename_i same
          cases moved
          subst same
          exact .acquire (by omega)
        · cases moved
          exact .retry
      · cases moved
        exact .retry
  · cases moved
    exact .refuse
  · cases moved
    exact .launch
  · cases moved
    exact .launchFails
  · cases moved
    exact .work
  · cases moved
    exact .cleanUp
  · cases moved
    exact .release
  · cases moved

/-- How a step of connection `i` changes the counter and its own slot. -/
theorem Advances.holds {maxClients : Int} {i : ι} {active active' : Int} {c c' : Connection}
    {event : SlotEvent ι} (moved : Advances maxClients i active c active' c' event) :
    (active' = active ∧ (c'.Holds ↔ c.Holds)) ∨
      (active' = active + 1 ∧ active < maxClients ∧ ¬c.Holds ∧ c'.Holds) ∨
      (active' = active - 1 ∧ c.Holds ∧ ¬c'.Holds) := by
  cases moved <;> simp_all [Holds]

/-- How a step of connection `i` closes its own `client_fd`, and no other. -/
theorem Advances.closes {maxClients : Int} {i : ι} {active active' : Int} {c c' : Connection}
    {event : SlotEvent ι} (moved : Advances maxClients i active c active' c' event) :
    (event = .silent ∧ (c'.Closed ↔ c.Closed)) ∨
      ∃ closer, event = .closed i closer ∧ ¬c.Closed ∧ c'.Closed := by
  cases moved <;> simp [Closed]

end Connection

variable [DecidableEq ι]

/-- The connections of a server that admits `maxClients` of them at a time.  The shared state is
`active_resp_clients`. -/
def respServer (ι : Type) [DecidableEq ι] (maxClients : Int) :
    Program ι Int Connection SlotOutcome (SlotEvent ι) where
  advance i active c outcome := c.advance maxClients i active outcome

/-- The server before the first connection. -/
def respStart (ι : Type) : Pool ι Int Connection := ⟨0, fun _ => .waiting⟩

/-- What closed the `client_fd` of connection `i`, in order. -/
def closings (i : ι) (events : List (SlotEvent ι)) : List Closer :=
  events.filterMap fun
    | .closed j closer => if j = i then some closer else none
    | .silent => none

theorem closings_append (i : ι) (front back : List (SlotEvent ι)) :
    closings i (front ++ back) = closings i front ++ closings i back :=
  List.filterMap_append ..

@[simp] theorem closings_silent (i : ι) : closings i [.silent] = [] := rfl

@[simp] theorem closings_same (i : ι) (closer : Closer) :
    closings i [.closed i closer] = [closer] := by
  simp [closings]

theorem closings_other {i j : ι} (closer : Closer) (different : i ≠ j) :
    closings i [.closed j closer] = [] := by
  simp [closings, different.symm]

/-- The counter counts the connections that hold a slot. -/
def Counted (maxClients : Int) (s : Pool ι Int Connection) : Prop :=
  (∃ holders : Finset ι, (∀ i, i ∈ holders ↔ (s.thread i).Holds) ∧ s.shared = holders.card) ∧
    s.shared ≤ maxClients

/-- What the events say about the `client_fd` of connection `i`. -/
def ClosedOnce (i : ι) (c : Connection) (events : List (SlotEvent ι)) : Prop :=
  (c.Closed → ∃ closer, closings i events = [closer]) ∧ (¬c.Closed → closings i events = [])

/-- A step keeps the count. -/
theorem Counted.step {maxClients : Int} {s t : Pool ι Int Connection} {l : ι × SlotOutcome}
    {event : SlotEvent ι} (positive : 0 < maxClients) (counted : Counted maxClients s)
    (moved : (respServer ι maxClients).step s l = some (t, event)) : Counted maxClients t := by
  obtain ⟨i, outcome⟩ := l
  obtain ⟨active, c, advanced, rfl⟩ := Program.step_eq_some.mp moved
  obtain ⟨⟨holders, held, count⟩, bound⟩ := counted
  have others : ∀ j, j ≠ i → (j ∈ holders ↔ (Function.update s.thread i c j).Holds) := by
    intro j different
    rw [held j, Function.update_of_ne different]
  rcases (Connection.advance_sound positive advanced).holds with
    ⟨same, slot⟩ | ⟨more, free, lacks, gets⟩ | ⟨less, has, drops⟩
  · refine ⟨⟨holders, fun j => ?_, by rw [← count]; exact same⟩, by simpa [same] using bound⟩
    by_cases this : j = i
    · subst this
      show j ∈ holders ↔ (Function.update s.thread j c j).Holds
      rw [held j, Function.update_self, slot]
    · exact others j this
  · have fresh : i ∉ holders := fun member => lacks ((held i).mp member)
    refine ⟨⟨insert i holders, fun j => ?_, ?_⟩, by show active ≤ _; omega⟩
    · by_cases this : j = i
      · subst this
        simpa using gets
      · rw [Finset.mem_insert, or_iff_right this]
        exact others j this
    · rw [Finset.card_insert_of_notMem fresh]
      push_cast
      exact more.trans (by rw [count])
  · have member : i ∈ holders := (held i).mpr has
    refine ⟨⟨holders.erase i, fun j => ?_, ?_⟩, by show active ≤ _; omega⟩
    · by_cases this : j = i
      · subst this
        simpa using drops
      · rw [Finset.mem_erase, and_iff_right this]
        exact others j this
    · have size := Finset.card_erase_add_one member
      show active = _
      omega

/-- A step of any connection keeps the record of what closed the `client_fd` of connection `i`. -/
theorem ClosedOnce.step {maxClients : Int} {s t : Pool ι Int Connection} {l : ι × SlotOutcome}
    {events : List (SlotEvent ι)} {event : SlotEvent ι} {i : ι} (positive : 0 < maxClients)
    (once : ClosedOnce i (s.thread i) events)
    (moved : (respServer ι maxClients).step s l = some (t, event)) :
    ClosedOnce i (t.thread i) (events ++ [event]) := by
  obtain ⟨j, outcome⟩ := l
  obtain ⟨active, c, advanced, rfl⟩ := Program.step_eq_some.mp moved
  have moves := (Connection.advance_sound positive advanced).closes
  show ClosedOnce i (Function.update s.thread j c i) (events ++ [event])
  rw [ClosedOnce, closings_append]
  by_cases this : i = j
  · subst this
    rw [Function.update_self]
    rcases moves with ⟨rfl, closed⟩ | ⟨closer, rfl, before, after⟩
    · rw [closed, closings_silent, List.append_nil]
      exact once
    · rw [once.2 before]
      exact ⟨fun _ => ⟨closer, by simp⟩, fun not => absurd after not⟩
  · rw [Function.update_of_ne this]
    have quiet : closings i [event] = [] := by
      rcases moves with ⟨rfl, -⟩ | ⟨closer, rfl, -, -⟩
      · exact closings_silent i
      · exact closings_other closer this
    rw [quiet, List.append_nil]
    exact once

section
variable (maxClients : Int) (i : ι) (active : Int)

/-- From connection phase `c` on, connection `i` reaches its end without the other connections. -/
def Finishes (c : Connection) : Prop :=
  ∃ active', Program.Alone (respServer ι maxClients) i (fun _ => True) active c active' .finished

variable {maxClients i active}

theorem Finishes.step {active' : Int} {c c' : Connection} {event : SlotEvent ι}
    (outcome : SlotOutcome)
    (moved : c.advance maxClients i active outcome = some (active', c', event))
    (rest : Finishes maxClients i active' c') : Finishes maxClients i active c :=
  rest.imp fun _ alone => .step outcome moved trivial alone

theorem finishes_of_holds {c : Connection} (holds : c.Holds) :
    Finishes maxClients i active c := by
  have release : Finishes maxClients i active .releasing :=
    .step .succeeds rfl ⟨active - 1, .refl⟩
  have handle : Finishes maxClients i active .handling := .step .succeeds rfl release
  cases c with
  | acquired => exact .step .succeeds rfl handle
  | handling => exact handle
  | failed => exact .step .succeeds rfl release
  | releasing => exact release
  | _ => exact holds.elim

/-- A compare-exchange that finds the counter as it was loaded ends the loop. -/
theorem finishes_of_loaded : Finishes maxClients i active (.acquiring active) := by
  by_cases full : active ≥ maxClients
  · exact .step .succeeds (if_pos full) (.step .succeeds rfl ⟨active, .refl⟩)
  · refine .step .succeeds ((if_neg full).trans (if_pos rfl)) ?_
    exact finishes_of_holds (c := .acquired) trivial

theorem finishes (c : Connection) : Finishes maxClients i active c := by
  have accepted : Finishes maxClients i active .accepted := by
    by_cases unlimited : maxClients ≤ 0
    · exact .step .succeeds (if_pos unlimited) (finishes_of_holds (c := .acquired) trivial)
    · exact .step .succeeds (if_neg unlimited) finishes_of_loaded
  cases c with
  | waiting => exact .step .succeeds rfl accepted
  | accepted => exact accepted
  | acquiring current =>
    by_cases full : current ≥ maxClients
    · exact .step .succeeds (if_pos full) (.step .succeeds rfl ⟨active, .refl⟩)
    · exact .step .fails (if_neg full) finishes_of_loaded
  | rejected => exact .step .succeeds rfl ⟨active, .refl⟩
  | finished => exact ⟨active, .refl⟩
  | acquired | handling | failed | releasing => exact finishes_of_holds trivial

end

/-- The counter is the number of connections that hold a slot and stays between 0 and the limit,
and each `client_fd` is closed once, by one of the three paths: never before its connection is past
its closing step, exactly once from then on, and every connection can reach its end. -/
theorem resp_slots {maxClients : Int} {schedule : List (ι × SlotOutcome)}
    {s : Pool ι Int Connection} {events : List (SlotEvent ι)} (positive : 0 < maxClients)
    (ran : (respServer ι maxClients).run (respStart ι) schedule = some (s, events)) :
    (∃ holders : Finset ι, (∀ i, i ∈ holders ↔ (s.thread i).Holds) ∧ s.shared = holders.card) ∧
      0 ≤ s.shared ∧ s.shared ≤ maxClients ∧
      ∀ i, ((s.thread i).Closed → ∃ closer, closings i events = [closer]) ∧
        (¬(s.thread i).Closed → closings i events = []) ∧
        ∃ rest t later, (respServer ι maxClients).run s rest = some (t, later) ∧
          t.thread i = .finished := by
  have counted : Counted maxClients s := by
    refine Program.run_invariant (fun _ => True) (Counted maxClients) ?_ ?_ ran (by simp)
    · intro s l t e counted _ moved
      exact counted.step positive moved
    · exact ⟨⟨∅, by simp [respStart, Connection.Holds], rfl⟩,
        by simpa [respStart] using positive.le⟩
  have once : ∀ i, ClosedOnce i (s.thread i) events := by
    intro i
    refine Program.run_induction (fun es s => ClosedOnce i (s.thread i) es) ?_ ?_ ran
    · intro es s l t e once moved
      exact once.step positive moved
    · exact ⟨False.elim, fun _ => rfl⟩
  obtain ⟨⟨holders, held, count⟩, bound⟩ := counted
  refine ⟨⟨holders, held, count⟩, by omega, bound, fun i => ⟨(once i).1, (once i).2, ?_⟩⟩
  have finishing : Finishes maxClients i s.shared (s.thread i) := finishes _
  obtain ⟨active, alone⟩ := finishing
  obtain ⟨rest, later, ran, -⟩ := alone.run s.thread
  rw [Function.update_eq_self] at ran
  exact ⟨rest, _, later, ran, Function.update_self ..⟩

/-- The steps of two connections, of which the second comes while the first holds a slot. -/
def twoClients : List (Bool × SlotOutcome) :=
  [(false, .succeeds), (true, .succeeds), (false, .succeeds), (true, .succeeds),
    (false, .succeeds), (true, .succeeds), (true, .succeeds), (true, .succeeds),
    (false, .succeeds), (false, .succeeds), (false, .succeeds)]

/-- With one slot the first connection is served and the second is rejected. -/
theorem resp_slots_two : ∃ s events,
    (respServer Bool 1).run (respStart Bool) twoClients = some (s, events) ∧
      s.thread false = .finished ∧ s.thread true = .finished ∧
      closings false events = [.worker] ∧ closings true events = [.rejection] ∧
      0 ≤ s.shared ∧ s.shared ≤ 1 := by
  have ran : ∃ s events, (respServer Bool 1).run (respStart Bool) twoClients = some (s, events) ∧
      s.thread false = .finished ∧ s.thread true = .finished ∧
      closings false events = [.worker] ∧ closings true events = [.rejection] :=
    ⟨_, _, rfl, rfl, rfl, rfl, rfl⟩
  obtain ⟨s, events, ran, first, second, served, rejected⟩ := ran
  obtain ⟨-, low, high, -⟩ := resp_slots (by decide) ran
  exact ⟨s, events, ran, first, second, served, rejected, low, high⟩

end DistributedCache.Server
