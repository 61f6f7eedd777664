import DistributedCache.Dashboard.ClusterEvents
import Mathlib.Data.List.Sort

/-! The timeline that replays simulation events.  Whatever the user does and whenever events and
scenarios arrive, the selected position exists, and a playback goes through the events in the order
of their times, each once, and stops at the last. -/

namespace DistributedCache.Dashboard

structure ScenarioDefinition where
  id : Bytes
  label : Bytes
  plugin : Option Bytes
  deriving DecidableEq

inductive ScenarioStatus
  | loading
  | ready
  | error
  deriving DecidableEq

/-- An event with its place in the list that was loaded. -/
abbrev OrderedEvent := ClusterEvent × Nat

/-- The comparison of `sortEvents`, by the times and then by the places, is not positive. -/
def notAfter (a b : OrderedEvent) : Bool :=
  if a.1.ts = b.1.ts then a.2 ≤ b.2 else a.1.ts < b.1.ts

def sortEvents (events : List ClusterEvent) : List OrderedEvent := events.zipIdx.mergeSort notAfter

/-- The property and the state of the component. -/
structure SimulationTimeline where
  events : List ClusterEvent
  currentIndex : Option Nat
  isPlaying : Bool
  scenarios : List ScenarioDefinition
  scenarioStatus : ScenarioStatus
  activeScenarioId : Option Bytes

/-- What happens to the component: a handler runs, the timer fires, or something is loaded.
`scenariosLoaded none` is a failed request or a payload that is not one of scenarios. -/
inductive TimelineAction
  | eventsLoaded (events : List ClusterEvent)
  | scenariosLoaded (scenarios : Option (List ScenarioDefinition))
  | tick
  | play
  | pause
  | reset
  | scenarioChange (scenarioId : Bytes)
  | scrub (value : Nat)

namespace SimulationTimeline

def orderedEvents (t : SimulationTimeline) : List OrderedEvent := sortEvents t.events

/-- The component when it is mounted. -/
def mount (events : List ClusterEvent) : SimulationTimeline :=
  { events
    currentIndex := if (sortEvents events).length > 0 then some 0 else none
    isPlaying := false
    scenarios := []
    scenarioStatus := .loading
    activeScenarioId := none }

/-- The effect that depends on the number of events. -/
def fitIndex (t : SimulationTimeline) : SimulationTimeline :=
  if t.orderedEvents.length = 0 then { t with currentIndex := none, isPlaying := false }
  else
    { t with
      currentIndex := match t.currentIndex with
        | none => some 0
        | some prev => if prev ≥ t.orderedEvents.length then some 0 else some prev }

/-- The effect that depends on the scenarios. -/
def fitScenario (t : SimulationTimeline) : SimulationTimeline :=
  match t.scenarios with
  | [] => { t with activeScenarioId := none }
  | first :: _ =>
    { t with
      activeScenarioId := match t.activeScenarioId with
        | none => some first.id
        | some prev =>
          if prev ≠ [] ∧ t.scenarios.any (fun scenario => scenario.id = prev) then some prev
          else some first.id }

/-- The position to which `handleReset` and `handleScenarioChange` go. -/
def startIndex (t : SimulationTimeline) : Option Nat :=
  if t.orderedEvents.length > 0 then some 0 else none

/-- The component after an action, or `none` if the action cannot happen: the timer runs while the
component plays, one button is there for both of play and pause, the position is shown if there are
events, and the scenarios can be chosen when they are ready. -/
def advance (t : SimulationTimeline) : TimelineAction → Option SimulationTimeline
  | .eventsLoaded events =>
    let next := { t with events }
    some (if next.orderedEvents.length = t.orderedEvents.length then next else next.fitIndex)
  | .scenariosLoaded none => some { t with scenarioStatus := .error }
  | .scenariosLoaded (some scenarios) =>
    some ({ t with scenarios, scenarioStatus := .ready } : SimulationTimeline).fitScenario
  | .tick =>
    if t.isPlaying = true ∧ t.orderedEvents.length ≠ 0 then
      match t.currentIndex with
      | none => some { t with currentIndex := some 0 }
      | some prev =>
        if prev + 1 ≥ t.orderedEvents.length then some { t with isPlaying := false }
        else some { t with currentIndex := some (prev + 1) }
    else none
  | .play =>
    if t.isPlaying then none
    else if t.orderedEvents.length = 0 then some t
    else some { t with currentIndex := some (t.currentIndex.getD 0), isPlaying := true }
  | .pause => if t.isPlaying then some { t with isPlaying := false } else none
  | .reset => some { t with isPlaying := false, currentIndex := t.startIndex }
  | .scenarioChange scenarioId =>
    if t.scenarioStatus = .ready ∧ t.scenarios.any (fun scenario => scenario.id = scenarioId) then
      some { t with
        activeScenarioId := some scenarioId, isPlaying := false, currentIndex := t.startIndex }
    else none
  | .scrub value =>
    if value < t.orderedEvents.length then
      some { t with isPlaying := false, currentIndex := some value }
    else none

/-- The component after some actions. -/
def run (t : SimulationTimeline) (actions : List TimelineAction) : Option SimulationTimeline :=
  actions.foldlM advance t

def activeEvent (t : SimulationTimeline) : Option ClusterEvent :=
  t.currentIndex.bind fun i => t.orderedEvents[i]?.map Prod.fst

/-! ### The order of the events -/

theorem notAfter_iff {a b : OrderedEvent} : notAfter a b = true ↔
    a.1.ts < b.1.ts ∨ (a.1.ts = b.1.ts ∧ a.2 ≤ b.2) := by
  unfold notAfter
  split <;> simp_all

theorem sortEvents_perm (events : List ClusterEvent) :
    (sortEvents events).Perm events.zipIdx := List.mergeSort_perm _ _

theorem length_sortEvents (events : List ClusterEvent) :
    (sortEvents events).length = events.length := by
  rw [(sortEvents_perm events).length_eq, List.length_zipIdx]

theorem sortEvents_sorted (events : List ClusterEvent) :
    (sortEvents events).Pairwise fun a b => notAfter a b = true := by
  refine List.pairwise_mergeSort ?_ ?_ _
  · intro a b c
    simp only [notAfter_iff]
    grind
  · intro a b
    rw [Bool.or_eq_true, notAfter_iff, notAfter_iff]
    grind

/-! ### What every action keeps -/

/-- There is a selected position if and only if there are events, and it exists. -/
structure Positioned (t : SimulationTimeline) : Prop where
  index : ∀ i, t.currentIndex = some i → i < t.events.length
  selected : t.currentIndex = none → t.events = []
  playing : t.isPlaying = true → t.events ≠ []

/-- There is an active scenario if and only if there are scenarios, and it is one of them. -/
structure Chosen (t : SimulationTimeline) : Prop where
  scenario : ∀ id, t.activeScenarioId = some id → ∃ scenario ∈ t.scenarios, scenario.id = id
  chosen : t.activeScenarioId = none → t.scenarios = []

variable {t t' : SimulationTimeline}

theorem length_orderedEvents (t : SimulationTimeline) : t.orderedEvents.length = t.events.length :=
  length_sortEvents t.events

/-- A component that does not play and stands at the first event. -/
theorem positioned_start (same : t'.events = t.events) (still : t'.isPlaying = false)
    (start : t'.currentIndex = t.startIndex) : t'.Positioned := by
  rw [startIndex, length_orderedEvents, ← same] at start
  refine ⟨fun i selected => ?_, fun unset => ?_, fun playing => ?_⟩
  · rw [start] at selected
    split at selected <;> cases selected
    assumption
  · rw [start] at unset
    split at unset
    · cases unset
    · exact List.length_eq_zero_iff.mp (by omega)
  · rw [still] at playing
    cases playing

theorem mount_positioned (events : List ClusterEvent) : (mount events).Positioned :=
  positioned_start rfl rfl rfl

theorem fitIndex_positioned (t : SimulationTimeline) : t.fitIndex.Positioned := by
  unfold fitIndex
  rw [length_orderedEvents]
  split
  · rename_i empty
    have empty : t.events = [] := List.length_eq_zero_iff.mp empty
    exact ⟨fun i selected => (by cases selected), fun _ => empty, fun playing => (by cases playing)⟩
  · rename_i loaded
    have nonempty : t.events ≠ [] := fun empty => loaded (by rw [empty, List.length_nil])
    have positive : 0 < t.events.length := Nat.pos_of_ne_zero loaded
    refine ⟨fun i selected => ?_, fun unset => ?_, fun _ => nonempty⟩
    · dsimp only at selected ⊢
      split at selected
      · cases selected
        exact positive
      · split at selected <;> cases selected <;> omega
    · dsimp only at unset
      split at unset
      · cases unset
      · split at unset <;> cases unset

theorem Positioned.tick (positioned : t.Positioned) (moved : t.advance .tick = some t') :
    t'.Positioned := by
  simp only [advance, length_orderedEvents] at moved
  split at moved
  · rename_i runs
    split at moved
    · cases moved
      refine ⟨fun i selected => ?_, fun unset => (by cases unset), positioned.playing⟩
      cases selected
      exact Nat.pos_of_ne_zero runs.2
    · rename_i prev here
      split at moved <;> cases moved
      · exact ⟨positioned.index, positioned.selected, fun playing => (by cases playing)⟩
      · refine ⟨fun i selected => ?_, fun unset => (by cases unset), positioned.playing⟩
        cases selected
        show prev + 1 < t.events.length
        omega
  · cases moved

theorem Positioned.play (positioned : t.Positioned) (moved : t.advance .play = some t') :
    t'.Positioned := by
  simp only [advance, length_orderedEvents] at moved
  split at moved
  · cases moved
  · split at moved <;> cases moved
    · exact positioned
    · rename_i loaded
      have nonempty : t.events ≠ [] := fun empty => loaded (by rw [empty, List.length_nil])
      refine ⟨fun i selected => ?_, fun unset => (by cases unset), fun _ => nonempty⟩
      cases selected
      cases here : t.currentIndex with
      | none => exact Nat.pos_of_ne_zero loaded
      | some prev => exact positioned.index prev here

theorem Positioned.eventsLoaded (positioned : t.Positioned) {events : List ClusterEvent}
    (moved : t.advance (.eventsLoaded events) = some t') : t'.Positioned := by
  simp only [advance, length_orderedEvents, Option.some.injEq] at moved
  subst moved
  split
  · rename_i same
    refine ⟨fun i selected => ?_, fun unset => ?_, fun playing => ?_⟩
    · exact same ▸ positioned.index i selected
    · have empty := positioned.selected unset
      rw [empty] at same
      exact List.length_eq_zero_iff.mp same
    · intro empty
      rw [show events = [] from empty, List.length_nil] at same
      exact positioned.playing playing (List.length_eq_zero_iff.mp same.symm)
  · exact fitIndex_positioned _

theorem fitScenario_frame (t : SimulationTimeline) :
    t.fitScenario.events = t.events ∧ t.fitScenario.currentIndex = t.currentIndex ∧
      t.fitScenario.isPlaying = t.isPlaying ∧ t.fitScenario.scenarios = t.scenarios := by
  unfold fitScenario
  split <;> exact ⟨rfl, rfl, rfl, rfl⟩

theorem scenariosLoaded_frame {scenarios : Option (List ScenarioDefinition)}
    (moved : t.advance (.scenariosLoaded scenarios) = some t') :
    t'.events = t.events ∧ t'.currentIndex = t.currentIndex ∧ t'.isPlaying = t.isPlaying := by
  cases scenarios with
  | none =>
    cases moved
    exact ⟨rfl, rfl, rfl⟩
  | some scenarios =>
    cases moved
    obtain ⟨events, index, playing, -⟩ := fitScenario_frame
      { t with scenarios, scenarioStatus := .ready }
    exact ⟨events, index, playing⟩

/-- The position exists after every action. -/
theorem Positioned.advance (positioned : t.Positioned) {action : TimelineAction}
    (moved : t.advance action = some t') : t'.Positioned := by
  cases action with
  | eventsLoaded events => exact positioned.eventsLoaded moved
  | scenariosLoaded scenarios =>
    obtain ⟨same, position, playing⟩ := scenariosLoaded_frame moved
    exact ⟨position ▸ same ▸ positioned.index, position ▸ same ▸ positioned.selected,
      playing ▸ same ▸ positioned.playing⟩
  | tick => exact positioned.tick moved
  | play => exact positioned.play moved
  | pause =>
    simp only [SimulationTimeline.advance] at moved
    split at moved <;> cases moved
    exact ⟨positioned.index, positioned.selected, fun playing => (by cases playing)⟩
  | reset =>
    cases moved
    exact positioned_start rfl rfl rfl
  | scenarioChange scenarioId =>
    simp only [SimulationTimeline.advance] at moved
    split at moved <;> cases moved
    exact positioned_start rfl rfl rfl
  | scrub value =>
    simp only [SimulationTimeline.advance, length_orderedEvents] at moved
    split at moved <;> cases moved
    rename_i inside
    refine ⟨fun i selected => ?_, fun unset => (by cases unset), fun playing => (by cases playing)⟩
    cases selected
    exact inside

/-! ### The scenarios -/

theorem fitScenario_chosen (t : SimulationTimeline) : t.fitScenario.Chosen := by
  have same := (fitScenario_frame t).2.2.2
  refine ⟨fun id chosen => ?_, fun unset => ?_⟩
  · rw [same]
    unfold fitScenario at chosen
    split at chosen
    · cases chosen
    · rename_i first rest listed
      have head : ∃ scenario ∈ t.scenarios, scenario.id = first.id :=
        ⟨first, listed ▸ List.mem_cons_self, rfl⟩
      dsimp only at chosen
      split at chosen
      · cases chosen
        exact head
      · split at chosen <;> cases chosen
        · rename_i kept
          simpa using kept.2
        · exact head
  · rw [same]
    unfold fitScenario at unset
    split at unset
    · assumption
    · dsimp only at unset
      split at unset
      · cases unset
      · split at unset <;> cases unset

theorem Chosen.congr (chosen : t.Chosen) (scenarios : t'.scenarios = t.scenarios)
    (active : t'.activeScenarioId = t.activeScenarioId) : t'.Chosen :=
  ⟨scenarios ▸ active ▸ chosen.scenario, scenarios ▸ active ▸ chosen.chosen⟩

/-- The active scenario is one of those loaded, after every action. -/
theorem Chosen.advance (chosen : t.Chosen) {action : TimelineAction}
    (moved : t.advance action = some t') : t'.Chosen := by
  cases action with
  | scenariosLoaded scenarios =>
    cases scenarios with
    | none =>
      cases moved
      exact chosen.congr rfl rfl
    | some scenarios =>
      cases moved
      exact fitScenario_chosen _
  | scenarioChange scenarioId =>
    simp only [SimulationTimeline.advance] at moved
    split at moved <;> cases moved
    rename_i ready
    refine ⟨fun id same => ?_, fun unset => (by cases unset)⟩
    cases same
    simpa using ready.2
  | eventsLoaded events =>
    simp only [SimulationTimeline.advance, Option.some.injEq] at moved
    subst moved
    split
    · exact chosen.congr rfl rfl
    · unfold fitIndex
      split <;> exact chosen.congr rfl rfl
  | tick =>
    simp only [SimulationTimeline.advance] at moved
    split at moved
    · split at moved
      · cases moved
        exact chosen.congr rfl rfl
      · split at moved <;> cases moved <;> exact chosen.congr rfl rfl
    · cases moved
  | play =>
    simp only [SimulationTimeline.advance] at moved
    split at moved
    · cases moved
    · split at moved <;> cases moved <;> exact chosen.congr rfl rfl
  | pause =>
    simp only [SimulationTimeline.advance] at moved
    split at moved <;> cases moved
    exact chosen.congr rfl rfl
  | reset =>
    cases moved
    exact chosen.congr rfl rfl
  | scrub value =>
    simp only [SimulationTimeline.advance] at moved
    split at moved <;> cases moved
    exact chosen.congr rfl rfl

/-! ### Playback -/

theorem run_append (t : SimulationTimeline) (front back : List TimelineAction) :
    t.run (front ++ back) = (t.run front).bind fun u => u.run back := by
  rw [run, List.foldlM_append]
  rfl

/-- While it plays, the component goes to the next event at every tick. -/
theorem run_ticks {i : Nat} (playing : t.isPlaying = true) (here : t.currentIndex = some i)
    (k : Nat) (inside : i + k < t.events.length) :
    t.run (List.replicate k .tick) = some { t with currentIndex := some (i + k) } := by
  induction k with
  | zero => rw [Nat.add_zero, ← here]; rfl
  | succ k ih =>
    have room : ¬i + k + 1 ≥ t.events.length := by omega
    rw [List.replicate_succ', run_append, ih (by omega)]
    simp only [run, Option.bind_some, List.foldlM_cons, List.foldlM_nil, advance, orderedEvents,
      length_sortEvents]
    rw [if_pos ⟨playing, by omega⟩, if_neg room]
    rfl

/-- The last tick leaves the last event selected and stops the timer. -/
theorem run_last_tick {i : Nat} (playing : t.isPlaying = true) (here : t.currentIndex = some i)
    (inside : i < t.events.length) :
    t.run (List.replicate (t.events.length - i) .tick) =
      some { t with currentIndex := some (t.events.length - 1), isPlaying := false } := by
  obtain ⟨k, count⟩ : ∃ k, t.events.length - i = k + 1 := ⟨t.events.length - i - 1, by omega⟩
  have last : i + k = t.events.length - 1 := by omega
  rw [count, List.replicate_succ', run_append, run_ticks playing here k (by omega), last]
  simp only [run, Option.bind_some, List.foldlM_cons, List.foldlM_nil, advance, orderedEvents,
    length_sortEvents]
  rw [if_pos ⟨playing, by omega⟩, if_pos (by omega)]
  rfl

/-- What the component does from position `i` on while only its timer runs: it shows the events
behind the position in their order, and stops at the last. -/
structure PlaysFrom (t : SimulationTimeline) (i : Nat) : Prop where
  next : ∀ k, i + k < t.events.length → ∃ u, t.run (List.replicate k .tick) = some u ∧
    u.isPlaying = true ∧ u.activeEvent = t.orderedEvents[i + k]?.map Prod.fst
  last : ∃ u, t.run (List.replicate (t.events.length - i) .tick) = some u ∧
    u.activeEvent = t.orderedEvents.getLast?.map Prod.fst ∧ u.advance .tick = none

theorem playsFrom {i : Nat} (playing : t.isPlaying = true) (here : t.currentIndex = some i)
    (inside : i < t.events.length) : t.PlaysFrom i := by
  refine ⟨fun k below => ⟨_, run_ticks playing here k below, playing, rfl⟩, ?_⟩
  refine ⟨_, run_last_tick playing here inside, ?_, ?_⟩
  · rw [List.getLast?_eq_getElem?, length_orderedEvents]
    rfl
  · simp [advance]

theorem Positioned.activeEvent (positioned : t.Positioned) :
    t.activeEvent.isSome = true ↔ t.events ≠ [] := by
  cases here : t.currentIndex with
  | none => simp [SimulationTimeline.activeEvent, here, positioned.selected here]
  | some i =>
    have inside := positioned.index i here
    have nonempty : t.events ≠ [] := List.ne_nil_of_length_pos (by omega)
    rw [← length_orderedEvents] at inside
    simp [SimulationTimeline.activeEvent, here, inside, nonempty]

/-- What one action keeps, every run keeps. -/
theorem run_invariant {I : SimulationTimeline → Prop}
    (next : ∀ t action t', I t → t.advance action = some t' → I t')
    {actions : List TimelineAction} (start : I t) (ran : t.run actions = some t') : I t' := by
  induction actions generalizing t with
  | nil =>
    cases ran
    exact start
  | cons action actions ih =>
    obtain ⟨u, moved, rest⟩ := Option.bind_eq_some_iff.mp ran
    exact ih (next t action u start moved) rest

/-- After every sequence of actions the selected event and the active scenario exist, the events are
in the order of their times and, at equal times, in the order in which they were loaded, and a
component that plays goes through the events from its position on, each once, and then stops. -/
theorem timeline_plays (events : List ClusterEvent) {actions : List TimelineAction}
    (ran : (mount events).run actions = some t) :
    (t.activeEvent.isSome = true ↔ t.events ≠ []) ∧ t.Chosen ∧
      (t.orderedEvents.Perm t.events.zipIdx ∧ t.orderedEvents.Pairwise fun a b =>
        a.1.ts < b.1.ts ∨ (a.1.ts = b.1.ts ∧ a.2 ≤ b.2)) ∧
      (t.isPlaying = true → ∃ i, t.currentIndex = some i ∧ t.PlaysFrom i) := by
  have positioned : t.Positioned :=
    run_invariant (fun _ _ _ kept moved => kept.advance moved) (mount_positioned events) ran
  have chosen : t.Chosen :=
    run_invariant (fun _ _ _ kept moved => kept.advance moved)
      ⟨fun id active => (by cases active), fun _ => rfl⟩ ran
  refine ⟨positioned.activeEvent, chosen, ⟨sortEvents_perm t.events, ?_⟩, fun playing => ?_⟩
  · exact (sortEvents_sorted t.events).imp notAfter_iff.mp
  · cases here : t.currentIndex with
    | none => exact absurd (positioned.selected here) (positioned.playing playing)
    | some i => exact ⟨i, rfl, playsFrom playing here (positioned.index i here)⟩

/-- Three events arrive out of order, and the user plays them. -/
def replayActions : List TimelineAction :=
  [.eventsLoaded [.replicaLag 2 14 3, .shardMoved 1 (ascii "a") (ascii "b") 5,
    .nodeHeartbeat (ascii "a") 1], .play, .tick]

theorem replayActions_play : ∃ t, (mount []).run replayActions = some t ∧
    ∃ i, t.currentIndex = some i ∧ t.PlaysFrom i := by
  obtain ⟨t, ran, playing⟩ : ∃ t, (mount []).run replayActions = some t ∧ t.isPlaying = true := by
    simp [run, replayActions, mount, advance, fitIndex, orderedEvents, length_sortEvents]
  exact ⟨t, ran, (timeline_plays [] ran).2.2.2 playing⟩

end SimulationTimeline

end DistributedCache.Dashboard
