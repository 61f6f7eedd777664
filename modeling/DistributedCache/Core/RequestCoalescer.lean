import DistributedCache.Bytes
import DistributedCache.Lib.Pool
import DistributedCache.Lib.Tally
import Mathlib.Data.List.AList

/-! Concurrent calls of `RequestCoalescer::Execute`.  Each call is a thread of its own, so a work
that calls `Execute` again is covered, too.  The sections under the mutex are one step each, and so
are the start of the work, its end, and the completion of the promise.  A future is identified by
the call that made its promise. -/

namespace DistributedCache.Core

open Lib

/-- How a work ends: with a value or with an exception. -/
abbrev Outcome (χ : Type) := Except χ Bytes

/-- The map of the coalescer, and what the promise of each call holds. -/
structure RequestCoalescer (ι χ : Type) where
  inflight : AList fun _ : Bytes => ι
  promise : ι → Option (Outcome χ)

/-- Where a call stands. -/
inductive ExecutePhase (ι χ : Type)
  /-- It has not taken the mutex. -/
  | idle
  /-- It has inserted its future and released the mutex. -/
  | leading (key : Bytes)
  /-- Its work is running. -/
  | working (key : Bytes)
  /-- Its work has returned or thrown. -/
  | worked (key : Bytes) (outcome : Outcome χ)
  /-- It has completed its promise and is about to take the mutex again. -/
  | completed (key : Bytes)
  /-- It has returned the future of a call. -/
  | returned (key : Bytes) (future : ι)

/-- What the environment gives to a step: the key of a call, the end of a work, or nothing. -/
inductive ExecuteAction (χ : Type)
  | enter (key : Bytes)
  | finish (outcome : Outcome χ)
  | proceed

/-- What a step shows, with the call that takes it. -/
inductive ExecuteEvent (ι χ : Type)
  | led (call : ι) (key : Bytes)
  | joined (call : ι) (key : Bytes) (leader : ι)
  | started (call : ι) (key : Bytes)
  | finished (call : ι) (key : Bytes) (outcome : Outcome χ)
  | completed (call : ι)
  | erased (call : ι) (key : Bytes)

variable {ι χ : Type} [DecidableEq ι]

/-- The call that takes the step. -/
def ExecuteEvent.call : ExecuteEvent ι χ → ι
  | led call _ | joined call _ _ | started call _ | finished call _ _ | completed call
  | erased call _ => call

/-- The step starts or ends the work of a call. -/
def ExecuteEvent.isWork (call : ι) : ExecuteEvent ι χ → Bool
  | started call' _ | finished call' _ _ => decide (call' = call)
  | _ => false

namespace ExecutePhase

/-- The call stands between the insertion and the erasure of its future. -/
def Leads (key : Bytes) : ExecutePhase ι χ → Prop
  | leading key' | working key' | worked key' _ | completed key' => key' = key
  | idle | returned _ _ => False

/-- One step of call `i`. -/
def advance (i : ι) (s : RequestCoalescer ι χ) :
    ExecutePhase ι χ → ExecuteAction χ →
      Option (RequestCoalescer ι χ × ExecutePhase ι χ × ExecuteEvent ι χ)
  | idle, .enter key =>
    match s.inflight.lookup key with
    | some existing => some (s, returned key existing, .joined i key existing)
    | none => some ({ s with inflight := s.inflight.insert key i }, leading key, .led i key)
  | leading key, .proceed => some (s, working key, .started i key)
  | working key, .finish outcome => some (s, worked key outcome, .finished i key outcome)
  | worked key outcome, .proceed =>
    some ({ s with promise := Function.update s.promise i (some outcome) }, completed key,
      .completed i)
  | completed key, .proceed =>
    some ({ s with inflight := s.inflight.erase key }, returned key i, .erased i key)
  | _, _ => none

/-- The steps of call `i`. -/
inductive Advances (i : ι) (s : RequestCoalescer ι χ) : ExecutePhase ι χ →
    RequestCoalescer ι χ → ExecutePhase ι χ → ExecuteEvent ι χ → Prop
  | join {key : Bytes} {leader : ι} : s.inflight.lookup key = some leader →
      Advances i s idle s (returned key leader) (.joined i key leader)
  | lead {key : Bytes} : s.inflight.lookup key = none →
      Advances i s idle { s with inflight := s.inflight.insert key i } (leading key) (.led i key)
  | start {key : Bytes} : Advances i s (leading key) s (working key) (.started i key)
  | finish {key : Bytes} {outcome : Outcome χ} :
      Advances i s (working key) s (worked key outcome) (.finished i key outcome)
  | complete {key : Bytes} {outcome : Outcome χ} :
      Advances i s (worked key outcome)
        { s with promise := Function.update s.promise i (some outcome) } (completed key)
        (.completed i)
  | erase {key : Bytes} :
      Advances i s (completed key) { s with inflight := s.inflight.erase key } (returned key i)
        (.erased i key)

theorem advance_sound {i : ι} {s s' : RequestCoalescer ι χ} {phase phase' : ExecutePhase ι χ}
    {action : ExecuteAction χ} {event : ExecuteEvent ι χ}
    (moved : phase.advance i s action = some (s', phase', event)) :
    Advances i s phase s' phase' event := by
  unfold advance at moved
  split at moved
  · split at moved
    · rename_i found
      cases moved
      exact .join found
    · rename_i absent
      cases moved
      exact .lead absent
  · cases moved
    exact .start
  · cases moved
    exact .finish
  · cases moved
    exact .complete
  · cases moved
    exact .erase
  · cases moved

end ExecutePhase

/-- Concurrent calls of `Execute`. -/
def coalescer (ι χ : Type) [DecidableEq ι] : Program ι (RequestCoalescer ι χ) (ExecutePhase ι χ)
    (ExecuteAction χ) (ExecuteEvent ι χ) where
  advance i s phase action := phase.advance i s action

namespace RequestCoalescer

/-- An empty coalescer before any call. -/
def start (ι χ : Type) : Pool ι (RequestCoalescer ι χ) (ExecutePhase ι χ) :=
  ⟨⟨∅, fun _ => none⟩, fun _ => .idle⟩

/-- The steps of call `i` so far. -/
def steps (i : ι) (events : List (ExecuteEvent ι χ)) : List (ExecuteEvent ι χ) :=
  events.filter fun e => decide (e.call = i)

/-- The phase of call `i`, what its promise holds, and the steps that it has taken. -/
inductive Traced (i : ι) : ExecutePhase ι χ → Option (Outcome χ) → List (ExecuteEvent ι χ) → Prop
  | idle : Traced i .idle none []
  | leading (key : Bytes) : Traced i (.leading key) none [.led i key]
  | working (key : Bytes) : Traced i (.working key) none [.led i key, .started i key]
  | worked (key : Bytes) (outcome : Outcome χ) : Traced i (.worked key outcome) none
      [.led i key, .started i key, .finished i key outcome]
  | completed (key : Bytes) (outcome : Outcome χ) : Traced i (.completed key) (some outcome)
      [.led i key, .started i key, .finished i key outcome, .completed i]
  | returned (key : Bytes) (outcome : Outcome χ) : Traced i (.returned key i) (some outcome)
      [.led i key, .started i key, .finished i key outcome, .completed i, .erased i key]
  | joined (key : Bytes) (leader : ι) : leader ≠ i →
      Traced i (.returned key leader) none [.joined i key leader]

/-- What holds after every schedule: the map holds the futures of the leaders, and a future that a
call has joined is that of a call that leads or has led the same key. -/
structure Inv (events : List (ExecuteEvent ι χ))
    (s : Pool ι (RequestCoalescer ι χ) (ExecutePhase ι χ)) : Prop where
  traced : ∀ i, Traced i (s.thread i) (s.shared.promise i) (steps i events)
  leader : ∀ key i, s.shared.inflight.lookup key = some i ↔ (s.thread i).Leads key
  future : ∀ i key f, s.thread i = .returned key f →
    (s.thread f).Leads key ∨ s.thread f = .returned key f

theorem start_inv : Inv [] (start ι χ) := by
  refine ⟨fun i => .idle, ?_, ?_⟩
  · simp [start, ExecutePhase.Leads]
  · simp [start]

theorem steps_snoc (i : ι) (events : List (ExecuteEvent ι χ)) (event : ExecuteEvent ι χ) :
    steps i (events ++ [event]) = if event.call = i then steps i events ++ [event]
      else steps i events := by
  unfold steps
  rw [List.filter_append]
  split
  · rename_i same
    simp [same]
  · rename_i other
    simp [other]

variable {i : ι} {s s' : RequestCoalescer ι χ} {phase phase' : ExecutePhase ι χ}
  {event : ExecuteEvent ι χ} {key : Bytes}

theorem call_eq (moved : ExecutePhase.Advances i s phase s' phase' event) : event.call = i := by
  cases moved <;> rfl

theorem promise_ne (moved : ExecutePhase.Advances i s phase s' phase' event) {j : ι}
    (other : j ≠ i) : s'.promise j = s.promise j := by
  cases moved with
  | complete => exact Function.update_of_ne other _ _
  | _ => rfl

/-- A step adds itself to the steps of its call. -/
theorem Traced.advance {events : List (ExecuteEvent ι χ)}
    (traced : Traced i phase (s.promise i) events)
    (own : ∀ key, s.inflight.lookup key = some i → phase.Leads key)
    (moved : ExecutePhase.Advances i s phase s' phase' event) :
    Traced i phase' (s'.promise i) (events ++ [event]) := by
  cases moved with
  | @join key leader found =>
    generalize s.promise i = promise at traced
    cases traced
    refine .joined key leader ?_
    rintro rfl
    exact own key found
  | lead | start | finish =>
    generalize s.promise i = promise at traced
    cases traced
    constructor
  | @complete key outcome =>
    generalize s.promise i = promise at traced
    cases traced
    simpa using Traced.completed key outcome
  | erase =>
    dsimp only
    generalize s.promise i = promise at traced
    cases traced
    constructor

/-- A leader keeps leading its key until it returns its own future. -/
theorem leads_advance (moved : ExecutePhase.Advances i s phase s' phase' event)
    (leads : phase.Leads key) : phase'.Leads key ∨ phase' = .returned key i := by
  cases moved with
  | join | lead => cases leads
  | start | finish | complete => exact .inl leads
  | erase =>
    cases leads
    exact .inr rfl

theorem not_returned (moved : ExecutePhase.Advances i s phase s' phase' event) (future : ι) :
    phase ≠ .returned key future := by
  rintro rfl
  cases moved

theorem lookup_ne (moved : ExecutePhase.Advances i s phase s' phase' event) {j : ι}
    (own : ∀ key, phase.Leads key → s.inflight.lookup key = some i) (other : j ≠ i) :
    s'.inflight.lookup key = some j ↔ s.inflight.lookup key = some j := by
  cases moved with
  | @lead key' absent =>
    by_cases same : key = key'
    · subst same
      simp [absent, other.symm]
    · rw [AList.lookup_insert_ne same]
  | @erase key' =>
    by_cases same : key = key'
    · subst same
      simp [own key rfl, other.symm]
    · rw [AList.lookup_erase_ne same]
  | _ => rfl

theorem lookup_self (moved : ExecutePhase.Advances i s phase s' phase' event)
    (own : ∀ key, s.inflight.lookup key = some i ↔ phase.Leads key) :
    s'.inflight.lookup key = some i ↔ phase'.Leads key := by
  cases moved with
  | join | start | finish | complete => exact own key
  | @lead key' absent =>
    by_cases same : key = key'
    · subst same
      simp [ExecutePhase.Leads]
    · rw [AList.lookup_insert_ne same, own]
      simp [ExecutePhase.Leads, Ne.symm same]
  | @erase key' =>
    by_cases same : key = key'
    · subst same
      simp [ExecutePhase.Leads]
    · rw [AList.lookup_erase_ne same, own]
      simp [ExecutePhase.Leads, Ne.symm same]

/-- A call returns its own future, or the one that it finds in the map. -/
theorem returned_advance {f : ι}
    (moved : ExecutePhase.Advances i s phase s' (.returned key f) event) :
    f = i ∨ (s.inflight.lookup key = some f ∧ phase = .idle) := by
  cases moved with
  | join found => exact .inr ⟨found, rfl⟩
  | erase => exact .inl rfl

theorem Inv.step {events : List (ExecuteEvent ι χ)}
    {pool : Pool ι (RequestCoalescer ι χ) (ExecutePhase ι χ)} (inv : Inv events pool)
    (moved : ExecutePhase.Advances i pool.shared (pool.thread i) s' phase' event) :
    Inv (events ++ [event]) ⟨s', Function.update pool.thread i phase'⟩ := by
  refine ⟨fun j => ?_, fun key j => ?_, fun j key f => ?_⟩
  · dsimp only
    rw [steps_snoc, call_eq moved]
    by_cases same : j = i
    · subst same
      rw [Function.update_self, if_pos rfl]
      exact (inv.traced j).advance (fun key => (inv.leader key j).mp) moved
    · rw [Function.update_of_ne same, if_neg (Ne.symm same), promise_ne moved same]
      exact inv.traced j
  · dsimp only
    by_cases same : j = i
    · subst same
      rw [Function.update_self]
      exact lookup_self moved fun key => inv.leader key j
    · rw [Function.update_of_ne same, ← inv.leader]
      exact lookup_ne moved (fun key => (inv.leader key i).mpr) same
  · intro returned
    dsimp only at returned ⊢
    by_cases same : j = i
    · subst same
      rw [Function.update_self] at returned
      subst returned
      rcases returned_advance moved with rfl | ⟨found, idle⟩
      · exact .inr (Function.update_self ..)
      · have leads := (inv.leader key f).mp found
        have other : f ≠ j := by
          rintro rfl
          rw [idle] at leads
          exact leads
        rw [Function.update_of_ne other]
        exact .inl leads
    · rw [Function.update_of_ne same] at returned
      by_cases mover : f = i
      · subst mover
        rw [Function.update_self]
        rcases inv.future j key f returned with leads | done
        · exact leads_advance moved leads
        · exact absurd done (not_returned moved f)
      · rw [Function.update_of_ne mover]
        exact inv.future j key f returned

theorem run_inv {schedule : List (ι × ExecuteAction χ)}
    {after : Pool ι (RequestCoalescer ι χ) (ExecutePhase ι χ)} {events : List (ExecuteEvent ι χ)}
    (ran : (coalescer ι χ).run (start ι χ) schedule = some (after, events)) :
    Inv events after := by
  refine Program.run_induction Inv ?_ start_inv ran
  rintro events pool ⟨i, action⟩ t event inv moved
  obtain ⟨shared, phase, advanced, rfl⟩ := Program.step_eq_some.mp moved
  exact inv.step (ExecutePhase.advance_sound advanced)

/-! ### What the calls return -/

/-- The works that were started or ended for a call. -/
def works (i : ι) (events : List (ExecuteEvent ι χ)) : List (ExecuteEvent ι χ) :=
  events.filter (ExecuteEvent.isWork i)

theorem works_eq (i : ι) (events : List (ExecuteEvent ι χ)) :
    works i events = (steps i events).filter (ExecuteEvent.isWork i) := by
  rw [works, steps, List.filter_filter]
  refine List.filter_congr fun e _ => ?_
  cases e <;> simp +contextual [ExecuteEvent.isWork, ExecuteEvent.call]

theorem mem_steps {events : List (ExecuteEvent ι χ)} :
    event ∈ steps i events ↔ event ∈ events ∧ event.call = i := by
  simp [steps]

/-- The call leads the key, or has led it and returned. -/
def Led (key : Bytes) (i : ι) (phase : ExecutePhase ι χ) : Prop :=
  phase.Leads key ∨ phase = .returned key i

namespace Traced

variable {promise : Option (Outcome χ)} {log : List (ExecuteEvent ι χ)}

omit [DecidableEq ι] in
theorem mem_led (traced : Traced i phase promise log) (led : Led key i phase) :
    .led i key ∈ log := by
  cases traced with
  | idle => exact led.elim nofun nofun
  | leading | working | worked | completed =>
    obtain rfl : _ = key := led.elim id nofun
    simp
  | returned key' =>
    obtain rfl : key' = key := led.elim nofun fun same => (ExecutePhase.returned.inj same).1
    simp
  | joined key' leader other =>
    exact led.elim nofun fun same => absurd (ExecutePhase.returned.inj same).2 other

/-- A promise that is completed holds the outcome of the one work of its call. -/
theorem works {outcome : Outcome χ} (traced : Traced i phase (some outcome) log)
    (led : Led key i phase) :
    log.filter (ExecuteEvent.isWork i) = [.started i key, .finished i key outcome] := by
  cases traced with
  | completed key' =>
    obtain rfl : key' = key := led.elim id nofun
    simp [ExecuteEvent.isWork]
  | returned key' =>
    obtain rfl : key' = key := led.elim nofun fun same => (ExecutePhase.returned.inj same).1
    simp [ExecuteEvent.isWork]

omit [DecidableEq ι] in
/-- A call that has returned its own future has completed it. -/
theorem promise_isSome (traced : Traced i (.returned key i) promise log) :
    promise.isSome = true := by
  cases traced with
  | returned => rfl
  | joined _ _ other => exact absurd rfl other

omit [DecidableEq ι] in
theorem mem_joined {f : ι} (traced : Traced i (.returned key f) promise log) :
    f = i ∨ .joined i key f ∈ log := by
  cases traced with
  | returned => exact .inl rfl
  | joined => exact .inr (List.mem_singleton.mpr rfl)

/-- A call that has joined another one does not run its own work. -/
theorem works_joined {leader : ι} (traced : Traced i phase promise log)
    (joined : .joined i key leader ∈ log) : log.filter (ExecuteEvent.isWork i) = [] := by
  cases traced with
  | joined => rfl
  | _ => simp at joined

end Traced

/-- Concurrent calls run one work at a time for each key, and every future that a call returns
holds the outcome of a single work for its key. -/
theorem coalesces {schedule : List (ι × ExecuteAction χ)}
    {after : Pool ι (RequestCoalescer ι χ) (ExecutePhase ι χ)} {events : List (ExecuteEvent ι χ)}
    (ran : (coalescer ι χ).run (start ι χ) schedule = some (after, events)) :
    (∀ key i j, after.thread i = .working key → after.thread j = .working key → i = j) ∧
    (∀ key, (after.shared.inflight.lookup key).isSome = true ↔
      ∃! i, (after.thread i).Leads key) ∧
    (∀ key i, after.thread i = .completed key → after.shared.inflight.lookup key = some i) ∧
    (∀ i key f, after.thread i = .returned key f →
      (f = i ∨ .joined i key f ∈ events) ∧ .led f key ∈ events ∧
      (after.thread f = .returned key f → (after.shared.promise f).isSome = true) ∧
      ∀ outcome, after.shared.promise f = some outcome →
        works f events = [.started f key, .finished f key outcome]) ∧
    (∀ i key leader, .joined i key leader ∈ events → works i events = []) ∧
    ((∀ i key, ¬(after.thread i).Leads key) → after.shared.inflight.entries = [] ∧
      ∀ i key f, after.thread i = .returned key f → (after.shared.promise f).isSome = true) := by
  have inv := run_inv ran
  have unique : ∀ {key i j}, (after.thread i).Leads key → (after.thread j).Leads key → i = j := by
    intro key i j leads leads'
    rw [← inv.leader] at leads leads'
    exact Option.some.inj (leads.symm.trans leads')
  refine ⟨?_, ?_, ?_, ?_, ?_, ?_⟩
  · intro key i j working working'
    exact @unique key i j (by rw [working]; rfl) (by rw [working']; rfl)
  · intro key
    rw [Option.isSome_iff_exists]
    constructor
    · rintro ⟨i, found⟩
      have leads := (inv.leader key i).mp found
      exact ⟨i, leads, fun j leads' => unique leads' leads⟩
    · rintro ⟨i, leads, -⟩
      exact ⟨i, (inv.leader key i).mpr leads⟩
  · intro key i completed
    exact (inv.leader key i).mpr (by rw [completed]; rfl)
  · intro i key f returned
    have led : Led key f (after.thread f) := inv.future i key f returned
    refine ⟨?_, (mem_steps.mp ((inv.traced f).mem_led led)).1, ?_, ?_⟩
    · have traced := inv.traced i
      rw [returned] at traced
      exact traced.mem_joined.imp_right fun member => (mem_steps.mp member).1
    · intro done
      have traced := inv.traced f
      rw [done] at traced
      exact traced.promise_isSome
    · intro outcome done
      have traced := inv.traced f
      rw [done] at traced
      rw [works_eq, traced.works led]
  · intro i key leader joined
    rw [works_eq]
    exact (inv.traced i).works_joined (mem_steps.mpr ⟨joined, rfl⟩)
  · intro quiet
    refine ⟨?_, ?_⟩
    · rw [List.eq_nil_iff_forall_not_mem]
      rintro ⟨key, i⟩ member
      exact quiet i key ((inv.leader key i).mp (lookup_eq_some_iff.mpr member))
    · intro i key f returned
      have traced := inv.traced f
      rw [(inv.future i key f returned).resolve_left (quiet f key)] at traced
      exact traced.promise_isSome

/-- A call joins another one, whose work throws. -/
def sharedFailure : List (Bool × ExecuteAction Unit) :=
  [(false, .enter (ascii "k")), (true, .enter (ascii "k")), (false, .proceed),
    (false, .finish (.error ())), (false, .proceed), (false, .proceed)]

theorem sharedFailure_joined : ∃ after events,
    (coalescer Bool Unit).run (start Bool Unit) sharedFailure = some (after, events) ∧
      .joined true (ascii "k") false ∈ events ∧ works true events = [] := by
  refine ⟨_, _, rfl, ?joined, (@coalesces Bool Unit _ sharedFailure _ _ rfl).2.2.2.2.1 true
    (ascii "k") false ?joined⟩
  simp

end RequestCoalescer

end DistributedCache.Core
