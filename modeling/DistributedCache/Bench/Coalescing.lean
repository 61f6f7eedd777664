import DistributedCache.Core.RequestCoalescer
import DistributedCache.Lib.Balance
import DistributedCache.Lib.Rounding
import Mathlib.Algebra.BigOperators.Ring.Finset
import Mathlib.Data.Finset.Prod

/-! `MeasureCoalescingBehavior` of the benchmark: a thread that starts one burst of workers after
the other and joins them, and workers that wait for each other at a barrier, count their request,
and then run their work through the coalescer or by themselves.  The start of a work is its
`fetch_add` on the counter of the hits. -/

namespace DistributedCache.Bench

open DistributedCache.Core Lib

/-- The parameters of `MeasureCoalescingBehavior`. -/
structure Measurement where
  enabled : Bool
  bursts : Nat
  concurrency : Nat

/-- A worker: its burst and its number in the burst. -/
abbrev WorkerId := Nat × Nat

/-- The key of a burst. -/
def coalescingKey (burst : Nat) : Bytes := ascii "coalescing_key_" ++ toDecimal burst

/-- What the threads share.  `spawned` and `arrived` are the numbers of workers of a burst that were
started and that have arrived at the barrier. -/
structure Bursts where
  coalescer : RequestCoalescer WorkerId Unit
  backendHits : Nat
  totalRequests : Nat
  spawned : Nat → Nat
  arrived : Nat → Nat
  ended : WorkerId → Bool

/-- Where the thread that starts the workers stands. -/
inductive Coordinator
  | spawning (burst index : Nat)
  | joining (burst index : Nat)
  | finished

/-- Where a worker stands. -/
inductive Requester
  /-- It is about to arrive at the barrier. -/
  | arriving
  /-- It has arrived. -/
  | waiting
  /-- It is about to count its request. -/
  | counting
  /-- It is in `Execute`, or about to call `get` on the future that was returned. -/
  | executing (phase : ExecutePhase WorkerId Unit)
  /-- It is about to run its work by itself. -/
  | working
  /-- It is about to end. -/
  | leaving (phase : ExecutePhase WorkerId Unit)
  | ended (phase : ExecutePhase WorkerId Unit)

namespace Coordinator

/-- One step of the loop over the bursts. -/
def advance (m : Measurement) (s : Bursts) : Coordinator → Option (Bursts × Coordinator)
  | spawning burst index =>
    if burst < m.bursts then
      if index < m.concurrency then
        some ({ s with spawned := Function.update s.spawned burst (index + 1) },
          spawning burst (index + 1))
      else some (s, joining burst 0)
    else some (s, finished)
  | joining burst index =>
    if index < m.concurrency then
      if s.ended (burst, index) then some (s, joining burst (index + 1)) else none
    else some (s, spawning (burst + 1) 0)
  | finished => none

end Coordinator

/-- The action of the environment in the next step of `Execute`: a worker calls it with the key of
its burst, and its work returns. -/
def nextAction (burst : Nat) : ExecutePhase WorkerId Unit → ExecuteAction Unit
  | .idle => .enter (coalescingKey burst)
  | .working _ => .finish (.ok (ascii "payload"))
  | _ => .proceed

/-- The hits that a step of `Execute` adds. -/
def hitsOf : ExecuteEvent WorkerId Unit → Nat
  | .started .. => 1
  | _ => 0

namespace Requester

/-- One step of worker `w`. -/
def advance (m : Measurement) (w : WorkerId) (s : Bursts) :
    Requester → Option (Bursts × Requester × Option (ExecuteEvent WorkerId Unit))
  | arriving =>
    if w.2 < s.spawned w.1 then
      some ({ s with arrived := Function.update s.arrived w.1 (s.arrived w.1 + 1) }, waiting, none)
    else none
  | waiting => if m.concurrency ≤ s.arrived w.1 then some (s, counting, none) else none
  | counting =>
    some ({ s with totalRequests := s.totalRequests + 1 },
      if m.enabled then executing .idle else working, none)
  | executing (.returned key future) =>
    match s.coalescer.promise future with
    | some _ => some (s, leaving (.returned key future), none)
    | none => none
  | executing phase =>
    (phase.advance w s.coalescer (nextAction w.1 phase)).map fun r =>
      ({ s with coalescer := r.1, backendHits := s.backendHits + hitsOf r.2.2 },
        executing r.2.1, some r.2.2)
  | working => some ({ s with backendHits := s.backendHits + 1 }, leaving .idle, none)
  | leaving phase => some ({ s with ended := Function.update s.ended w true }, ended phase, none)
  | ended _ => none

end Requester

/-- The thread of `MeasureCoalescingBehavior`, which is `none`, and its workers. -/
def measurement (m : Measurement) : Program (Option WorkerId) Bursts (Coordinator ⊕ Requester) Unit
    (Option (ExecuteEvent WorkerId Unit)) where
  advance i s thread _ :=
    match i, thread with
    | none, .inl coordinator =>
      (coordinator.advance m s).map fun r => (r.1, .inl r.2, none)
    | some w, .inr requester =>
      (requester.advance m w s).map fun r => (r.1, .inr r.2.1, r.2.2)
    | _, _ => none

def measurementStart : Pool (Option WorkerId) Bursts (Coordinator ⊕ Requester) :=
  ⟨⟨⟨∅, fun _ => none⟩, 0, 0, fun _ => 0, fun _ => 0, fun _ => false⟩,
    fun i => if i.isSome then .inr .arriving else .inl (.spawning 0 0)⟩

/-- What the benchmark reports, in two values of `double`. -/
structure CoalescingBenchmarkResult where
  duplicateBackendHits : Nat
  coalescingHitRatio : ℚ

/-- The end of `MeasureCoalescingBehavior`.  The subtraction of the hits does not wrap, since there
are at least as many requests. -/
def Measurement.result (m : Measurement) (s : Bursts) : CoalescingBenchmarkResult :=
  { duplicateBackendHits :=
      toDouble (if m.bursts < s.backendHits then s.backendHits - m.bursts else 0)
    coalescingHitRatio :=
      if 0 < s.totalRequests then
        roundQuotient 2 53 (toDouble (s.totalRequests - s.backendHits)) (toDouble s.totalRequests)
      else 0 }

/-! ### The steps -/

/-- The ways in which a worker can move. -/
inductive Requester.Steps (m : Measurement) (w : WorkerId) (s : Bursts) :
    Requester → Bursts → Requester → Option (ExecuteEvent WorkerId Unit) → Prop
  | arrive : w.2 < s.spawned w.1 →
      Steps m w s .arriving
        { s with arrived := Function.update s.arrived w.1 (s.arrived w.1 + 1) } .waiting none
  | pass : m.concurrency ≤ s.arrived w.1 → Steps m w s .waiting s .counting none
  | countShared : m.enabled = true →
      Steps m w s .counting { s with totalRequests := s.totalRequests + 1 } (.executing .idle) none
  | countAlone : m.enabled = false →
      Steps m w s .counting { s with totalRequests := s.totalRequests + 1 } .working none
  | execute {phase phase' : ExecutePhase WorkerId Unit} {c : RequestCoalescer WorkerId Unit}
      {event : ExecuteEvent WorkerId Unit} :
      phase.advance w s.coalescer (nextAction w.1 phase) = some (c, phase', event) →
      Steps m w s (.executing phase)
        { s with coalescer := c, backendHits := s.backendHits + hitsOf event }
        (.executing phase') (some event)
  | get {key : Bytes} {future : WorkerId} : (s.coalescer.promise future).isSome = true →
      Steps m w s (.executing (.returned key future)) s (.leaving (.returned key future)) none
  | work : Steps m w s .working { s with backendHits := s.backendHits + 1 } (.leaving .idle) none
  | leave {phase : ExecutePhase WorkerId Unit} :
      Steps m w s (.leaving phase) { s with ended := Function.update s.ended w true }
        (.ended phase) none

theorem Requester.advance_sound {m : Measurement} {w : WorkerId} {s s' : Bursts}
    {requester requester' : Requester} {event : Option (ExecuteEvent WorkerId Unit)}
    (moved : requester.advance m w s = some (s', requester', event)) :
    Steps m w s requester s' requester' event := by
  cases requester with
  | arriving =>
    simp only [advance] at moved
    split at moved
    · rename_i spawned
      cases moved
      exact .arrive spawned
    · cases moved
  | waiting =>
    simp only [advance] at moved
    split at moved
    · rename_i all
      cases moved
      exact .pass all
    · cases moved
  | counting =>
    simp only [advance] at moved
    cases moved
    split
    · rename_i on
      exact .countShared on
    · rename_i off
      exact .countAlone (by simpa using off)
  | executing phase =>
    by_cases waits : ∃ key future, phase = .returned key future
    · obtain ⟨key, future, rfl⟩ := waits
      simp only [advance] at moved
      split at moved
      · rename_i outcome held
        cases moved
        exact .get (by rw [held]; rfl)
      · cases moved
    · have step : advance m w s (executing phase) =
          (phase.advance w s.coalescer (nextAction w.1 phase)).map fun r =>
            ({ s with coalescer := r.1, backendHits := s.backendHits + hitsOf r.2.2 },
              executing r.2.1, some r.2.2) := by
        cases phase with
        | returned key future => exact absurd ⟨key, future, rfl⟩ waits
        | _ => rfl
      rw [step] at moved
      obtain ⟨⟨c, phase', shown⟩, advanced, same⟩ := Option.map_eq_some_iff.mp moved
      cases same
      exact .execute advanced
  | working =>
    cases moved
    exact .work
  | leaving phase =>
    cases moved
    exact .leave
  | ended phase => cases moved

/-- The ways in which the thread over the bursts can move. -/
inductive Coordinator.Steps (m : Measurement) (s : Bursts) :
    Coordinator → Bursts → Coordinator → Prop
  | spawn {burst index : Nat} : burst < m.bursts → index < m.concurrency →
      Steps m s (.spawning burst index)
        { s with spawned := Function.update s.spawned burst (index + 1) }
        (.spawning burst (index + 1))
  | spawned {burst index : Nat} : burst < m.bursts → m.concurrency ≤ index →
      Steps m s (.spawning burst index) s (.joining burst 0)
  | completed {burst index : Nat} : m.bursts ≤ burst → Steps m s (.spawning burst index) s .finished
  | join {burst index : Nat} : index < m.concurrency → s.ended (burst, index) = true →
      Steps m s (.joining burst index) s (.joining burst (index + 1))
  | joined {burst index : Nat} : m.concurrency ≤ index →
      Steps m s (.joining burst index) s (.spawning (burst + 1) 0)

theorem Coordinator.advance_sound {m : Measurement} {s s' : Bursts}
    {coordinator coordinator' : Coordinator}
    (moved : coordinator.advance m s = some (s', coordinator')) :
    Steps m s coordinator s' coordinator' := by
  cases coordinator with
  | spawning burst index =>
    simp only [advance] at moved
    split at moved
    · rename_i more
      split at moved
      · rename_i room
        cases moved
        exact .spawn more room
      · rename_i full
        cases moved
        exact .spawned more (by omega)
    · rename_i last
      cases moved
      exact .completed (by omega)
  | joining burst index =>
    simp only [advance] at moved
    split at moved
    · rename_i more
      split at moved
      · rename_i completed
        cases moved
        exact .join more completed
      · cases moved
    · rename_i last
      cases moved
      exact .joined (by omega)
  | finished => cases moved

/-! ### The invariant -/

/-- The key of a call of `Execute` is that of its burst. -/
def KeyIs (key : Bytes) : ExecutePhase WorkerId Unit → Prop
  | .idle => True
  | .leading key' | .working key' | .worked key' _ | .completed key' | .returned key' _ =>
    key' = key

namespace Requester

/-- How far the worker is in `Execute`. -/
def phase : Requester → ExecutePhase WorkerId Unit
  | executing phase | leaving phase | ended phase => phase
  | _ => .idle

/-- The worker has arrived at the barrier. -/
def came : Requester → Nat
  | arriving => 0
  | _ => 1

/-- The worker has counted its request. -/
def asked : Requester → Nat
  | arriving | waiting | counting => 0
  | _ => 1

/-- The work of the worker was started. -/
def hit (w : WorkerId) : Requester → Nat
  | arriving | waiting | counting | working => 0
  | executing phase =>
    match phase with
    | .idle | .leading _ => 0
    | .working _ | .worked .. | .completed _ => 1
    | .returned _ future => if future = w then 1 else 0
  | leaving phase | ended phase =>
    match phase with
    | .returned _ future => if future = w then 1 else 0
    | _ => 1

/-- The worker stands where it can, given the parameters. -/
def Shaped (m : Measurement) (w : WorkerId) : Requester → Prop
  | arriving | waiting | counting => True
  | working => m.enabled = false
  | executing phase => m.enabled = true ∧ KeyIs (coalescingKey w.1) phase
  | leaving phase | ended phase =>
    (m.enabled = false ∧ phase = .idle) ∨
      (m.enabled = true ∧ ∃ future, phase = .returned (coalescingKey w.1) future)

structure Fits (m : Measurement) (s : Bursts) (w : WorkerId) (requester : Requester) : Prop where
  spawned : requester ≠ .arriving → w.2 < s.spawned w.1
  ended : s.ended w = true ↔ ∃ phase, requester = .ended phase
  shaped : requester.Shaped m w

theorem hit_le_asked {m : Measurement} {w : WorkerId} {requester : Requester}
    (shaped : requester.Shaped m w) : requester.hit w ≤ requester.asked := by
  cases requester with
  | executing phase => cases phase <;> simp [hit, asked]; split <;> simp
  | leaving phase | ended phase => cases phase <;> simp [hit, asked]; split <;> simp
  | _ => simp [hit, asked]

end Requester

/-- The burst is over. -/
def Bursts.Over (m : Measurement) (s : Bursts) (burst : Nat) : Prop :=
  s.spawned burst = m.concurrency ∧ ∀ index < m.concurrency, s.ended (burst, index) = true

namespace Coordinator

/-- The bursts so far are over, and the later ones have not begun. -/
def Fits (m : Measurement) (s : Bursts) : Coordinator → Prop
  | spawning burst index => (burst < m.bursts ∨ index = 0) ∧ index ≤ m.concurrency ∧
      s.spawned burst = index ∧ burst ≤ m.bursts ∧ (∀ b < burst, s.Over m b) ∧
      ∀ b, burst < b → s.spawned b = 0
  | joining burst index => burst < m.bursts ∧ s.spawned burst = m.concurrency ∧
      (∀ i < index, i < m.concurrency → s.ended (burst, i) = true) ∧ (∀ b < burst, s.Over m b) ∧
      ∀ b, burst < b → s.spawned b = 0
  | finished => (∀ b < m.bursts, s.Over m b) ∧ ∀ b, m.bursts ≤ b → s.spawned b = 0

variable {m : Measurement} {s s' : Bursts} {coordinator coordinator' : Coordinator}

theorem Fits.mono (fits : coordinator.Fits m s) (spawned : s'.spawned = s.spawned)
    (ended : ∀ w, s.ended w = true → s'.ended w = true) : coordinator.Fits m s' := by
  have completed : ∀ b, s.Over m b → s'.Over m b := fun b whole =>
    ⟨spawned ▸ whole.1, fun i less => ended _ (whole.2 i less)⟩
  cases coordinator with
  | spawning burst index =>
    obtain ⟨more, room, here, bound, before, later⟩ := fits
    exact ⟨more, room, spawned ▸ here, bound, fun b less => completed b (before b less),
      fun b less => spawned ▸ later b less⟩
  | joining burst index =>
    obtain ⟨more, here, joined, before, later⟩ := fits
    exact ⟨more, spawned ▸ here, fun i less room => ended _ (joined i less room),
      fun b less => completed b (before b less), fun b less => spawned ▸ later b less⟩
  | finished =>
    exact ⟨fun b less => completed b (fits.1 b less), fun b less => spawned ▸ fits.2 b less⟩

/-- A step keeps the bursts in order, and starts no worker outside of them. -/
theorem Fits.steps (fits : coordinator.Fits m s) (moved : Steps m s coordinator s' coordinator') :
    coordinator'.Fits m s' ∧ ∀ b, s.spawned b ≤ s'.spawned b := by
  cases moved with
  | @spawn burst index more room =>
    obtain ⟨-, -, here, -, before, later⟩ := fits
    refine ⟨⟨.inl more, room, Function.update_self .., by omega, fun b less => ?_,
      fun b less => ?_⟩, fun b => ?_⟩
    · have other : b ≠ burst := by omega
      exact ⟨(Function.update_of_ne other _ _).trans (before b less).1, (before b less).2⟩
    · have other : b ≠ burst := by omega
      exact (Function.update_of_ne other _ _).trans (later b less)
    · by_cases same : b = burst
      · subst same
        simp [here]
      · simp [same]
  | spawned more full =>
    obtain ⟨-, room, here, -, before, later⟩ := fits
    refine ⟨⟨more, by omega, fun i less => ?_, before, later⟩, fun b => Nat.le_refl _⟩
    omega
  | @completed burst index last =>
    obtain ⟨begun, room, here, bound, before, later⟩ := fits
    refine ⟨⟨fun b less => before b (by omega), fun b less => ?_⟩, fun b => Nat.le_refl _⟩
    rcases Nat.lt_or_eq_of_le less with greater | rfl
    · exact later b (by omega)
    · obtain rfl : burst = m.bursts := by omega
      omega
  | @join burst index room completed =>
    obtain ⟨more, here, joined, before, later⟩ := fits
    refine ⟨⟨more, here, fun i less room' => ?_, before, later⟩, fun b => Nat.le_refl _⟩
    rcases Nat.lt_or_eq_of_le (Nat.le_of_lt_succ less) with earlier | rfl
    · exact joined i earlier room'
    · exact completed
  | @joined burst index last =>
    obtain ⟨more, here, joined, before, later⟩ := fits
    refine ⟨⟨.inr rfl, Nat.zero_le _, later _ (Nat.lt_succ_self _), more, fun b less => ?_,
      fun b less => later b (by omega)⟩, fun b => Nat.le_refl _⟩
    rcases Nat.lt_or_eq_of_le (Nat.le_of_lt_succ less) with earlier | rfl
    · exact before b earlier
    · exact ⟨here, fun i room => joined i (by omega) room⟩

/-- Only the workers of the bursts are started. -/
theorem Fits.spawned_le (fits : coordinator.Fits m s) (b : Nat) :
    s.spawned b ≤ m.concurrency ∧ (0 < s.spawned b → b < m.bursts) := by
  have completed : ∀ b', s.Over m b' → s.spawned b' ≤ m.concurrency := fun b' whole => whole.1.le
  cases coordinator with
  | spawning burst index =>
    obtain ⟨more, room, here, bound, before, later⟩ := fits
    rcases Nat.lt_trichotomy b burst with less | rfl | greater
    · exact ⟨completed b (before b less), fun _ => by omega⟩
    · exact ⟨by omega, fun _ => by omega⟩
    · have unstarted := later b greater
      exact ⟨by omega, fun _ => by omega⟩
  | joining burst index =>
    obtain ⟨more, here, joined, before, later⟩ := fits
    rcases Nat.lt_trichotomy b burst with less | rfl | greater
    · exact ⟨completed b (before b less), fun _ => by omega⟩
    · exact ⟨by omega, fun _ => more⟩
    · have unstarted := later b greater
      exact ⟨by omega, fun _ => by omega⟩
  | finished =>
    rcases Nat.lt_or_ge b m.bursts with less | greater
    · exact ⟨completed b (fits.1 b less), fun _ => less⟩
    · have unstarted := fits.2 b greater
      exact ⟨by omega, fun _ => by omega⟩

end Coordinator

/-- The part of a local state that `f` looks at, if it is a worker's. -/
def ofRequester {β : Type} (other : β) (f : Requester → β) : Coordinator ⊕ Requester → β
  | .inl _ => other
  | .inr requester => f requester

/-- The workers of all bursts. -/
def Measurement.workers (m : Measurement) : Finset WorkerId :=
  Finset.range m.bursts ×ˢ Finset.range m.concurrency

/-- What a step of worker `w` does to the shared state, and to the numbers that it holds. -/
structure Moves (m : Measurement) (w : WorkerId) (s : Bursts) (requester : Requester) (s' : Bursts)
    (requester' : Requester) (event : Option (ExecuteEvent WorkerId Unit)) : Prop where
  spawned : s'.spawned = s.spawned
  started : w.2 < s.spawned w.1
  ended : ∀ v, v ≠ w → s'.ended v = s.ended v
  endedSelf : s'.ended w = true ↔ ∃ phase, requester' = .ended phase
  shaped : requester'.Shaped m w
  arrived : ∀ b, b ≠ w.1 → s'.arrived b = s.arrived b
  arrivedSelf : s'.arrived w.1 + requester.came = s.arrived w.1 + requester'.came
  requests : s'.totalRequests + requester.asked = s.totalRequests + requester'.asked
  hits : s'.backendHits + requester.hit w = s.backendHits + requester'.hit w
  coalescing : (event = none ∧ s'.coalescer = s.coalescer ∧ requester'.phase = requester.phase) ∨
    ∃ shown, event = some shown ∧ ExecutePhase.Advances w s.coalescer requester.phase s'.coalescer
      requester'.phase shown

section

variable {m : Measurement} {s s' : Bursts} {w : WorkerId} {requester requester' : Requester}
  {event : Option (ExecuteEvent WorkerId Unit)}

/-- A step of `Execute` keeps the key, and starts the work once. -/
theorem execute_counts {phase phase' : ExecutePhase WorkerId Unit}
    {c : RequestCoalescer WorkerId Unit} {shown : ExecuteEvent WorkerId Unit}
    (own : ∀ key, s.coalescer.inflight.lookup key = some w → phase.Leads key)
    (keyed : KeyIs (coalescingKey w.1) phase)
    (advanced : phase.advance w s.coalescer (nextAction w.1 phase) = some (c, phase', shown)) :
    KeyIs (coalescingKey w.1) phase' ∧ hitsOf shown + (Requester.executing phase).hit w =
      (Requester.executing phase').hit w := by
  cases phase with
  | idle =>
    simp only [ExecutePhase.advance, nextAction] at advanced
    split at advanced
    · rename_i leader found
      cases advanced
      have other : leader ≠ w := by
        rintro rfl
        exact own _ found
      exact ⟨rfl, by simp [hitsOf, Requester.hit, other]⟩
    · cases advanced
      exact ⟨rfl, rfl⟩
  | leading key | working key | worked key outcome =>
    cases advanced
    exact ⟨keyed, rfl⟩
  | completed key =>
    cases advanced
    exact ⟨keyed, by simp [hitsOf, Requester.hit]⟩
  | returned key future => cases advanced

theorem Requester.Steps.moves (fits : requester.Fits m s w)
    (own : ∀ key, s.coalescer.inflight.lookup key = some w → requester.phase.Leads key)
    (moved : Requester.Steps m w s requester s' requester' event) :
    Moves m w s requester s' requester' event := by
  have notEnded : ∀ {r : Requester}, requester = r → (∀ phase, r ≠ .ended phase) →
      ¬s.ended w = true := by
    rintro r rfl other completed
    obtain ⟨phase, same⟩ := fits.ended.mp completed
    exact other phase same
  have idle : ∀ {r : Requester}, requester = r → (∀ phase, r ≠ .ended phase) →
      ∀ {r' : Requester}, (∀ phase, r' ≠ .ended phase) →
        (s.ended w = true ↔ ∃ phase, r' = .ended phase) := by
    rintro r same other r' other'
    exact iff_of_false (notEnded same other) (by rintro ⟨phase, rfl⟩; exact other' phase rfl)
  cases moved with
  | arrive started =>
    exact ⟨rfl, started, fun v _ => rfl, idle rfl (by simp) (by simp), trivial,
      fun b other => Function.update_of_ne other _ _, by simp [came], rfl, rfl,
      .inl ⟨rfl, rfl, rfl⟩⟩
  | pass all =>
    exact ⟨rfl, fits.spawned (by simp), fun v _ => rfl, idle rfl (by simp) (by simp), trivial,
      fun b _ => rfl, rfl, rfl, rfl, .inl ⟨rfl, rfl, rfl⟩⟩
  | countShared on =>
    exact ⟨rfl, fits.spawned (by simp), fun v _ => rfl, idle rfl (by simp) (by simp), ⟨on, trivial⟩,
      fun b _ => rfl, rfl, rfl, rfl, .inl ⟨rfl, rfl, rfl⟩⟩
  | countAlone off =>
    exact ⟨rfl, fits.spawned (by simp), fun v _ => rfl, idle rfl (by simp) (by simp), off,
      fun b _ => rfl, rfl, rfl, rfl, .inl ⟨rfl, rfl, rfl⟩⟩
  | @execute phase phase' c shown advanced =>
    obtain ⟨on, keyed⟩ := fits.shaped
    have own : ∀ key, s.coalescer.inflight.lookup key = some w → phase.Leads key := own
    obtain ⟨keyed', counted⟩ := execute_counts own keyed advanced
    refine ⟨rfl, fits.spawned (by simp), fun v _ => rfl, idle rfl (by simp) (by simp), ⟨on, keyed'⟩,
      fun b _ => rfl, rfl, rfl, ?_, .inr ⟨shown, rfl, ExecutePhase.advance_sound advanced⟩⟩
    dsimp only
    omega
  | @get key future held =>
    obtain ⟨on, keyed⟩ := fits.shaped
    cases keyed
    exact ⟨rfl, fits.spawned (by simp), fun v _ => rfl, idle rfl (by simp) (by simp),
      .inr ⟨on, future, rfl⟩, fun b _ => rfl, rfl, rfl, rfl, .inl ⟨rfl, rfl, rfl⟩⟩
  | work =>
    exact ⟨rfl, fits.spawned (by simp), fun v _ => rfl, idle rfl (by simp) (by simp),
      .inl ⟨fits.shaped, rfl⟩, fun b _ => rfl, rfl, rfl, rfl, .inl ⟨rfl, rfl, rfl⟩⟩
  | @leave phase =>
    exact ⟨rfl, fits.spawned (by simp), fun v other => Function.update_of_ne other _ _, by simp,
      fits.shaped, fun b _ => rfl, rfl, rfl, rfl, .inl ⟨rfl, rfl, rfl⟩⟩

end

/-- What holds after every schedule.  `thread` is the state of each worker. -/
structure Workers (m : Measurement) (events : List (ExecuteEvent WorkerId Unit)) (s : Bursts)
    (thread : WorkerId → Coordinator ⊕ Requester) : Prop where
  fits : ∀ w, ∃ requester, thread w = .inr requester ∧ requester.Fits m s w
  coalescing : RequestCoalescer.Inv events
    ⟨s.coalescer, fun w => ofRequester .idle Requester.phase (thread w)⟩
  arrived : ∀ b, s.arrived b =
    ∑ i ∈ Finset.range m.concurrency, ofRequester 0 Requester.came (thread (b, i))
  requests : s.totalRequests = ∑ w ∈ m.workers, ofRequester 0 Requester.asked (thread w)
  hits : s.backendHits = ∑ w ∈ m.workers, ofRequester 0 (Requester.hit w) (thread w)

section

variable {m : Measurement} {s s' : Bursts} {events : List (ExecuteEvent WorkerId Unit)}
  {thread : WorkerId → Coordinator ⊕ Requester}

/-- More workers were started. -/
theorem Workers.spawn (workers : Workers m events s thread)
    (more : ∀ b, s.spawned b ≤ s'.spawned b) (coalescer : s'.coalescer = s.coalescer)
    (hits : s'.backendHits = s.backendHits) (requests : s'.totalRequests = s.totalRequests)
    (arrived : s'.arrived = s.arrived) (ended : s'.ended = s.ended) :
    Workers m events s' thread where
  fits w := by
    obtain ⟨requester, stands, fits⟩ := workers.fits w
    exact ⟨requester, stands, fun started => (fits.spawned started).trans_le (more w.1),
      ended ▸ fits.ended, fits.shaped⟩
  coalescing := coalescer ▸ workers.coalescing
  arrived := arrived ▸ workers.arrived
  requests := requests.trans workers.requests
  hits := hits.trans workers.hits

variable {w : WorkerId} {requester requester' : Requester}

theorem phases_update (phase : ExecutePhase WorkerId Unit) (same : requester'.phase = phase) :
    (fun v => ofRequester .idle Requester.phase (Function.update thread w (.inr requester') v)) =
      Function.update (fun v => ofRequester .idle Requester.phase (thread v)) w phase := by
  funext v
  by_cases here : v = w
  · subst here
    simp [ofRequester, same]
  · simp [here]

/-- A sum over the workers after one of them has moved. -/
theorem sum_workers_update (thread : WorkerId → Coordinator ⊕ Requester) (requester' : Requester)
    (f : WorkerId → Requester → Nat) (member : w ∈ m.workers)
    (stands : thread w = .inr requester) :
    ∑ v ∈ m.workers, ofRequester 0 (f v) (Function.update thread w (.inr requester') v) +
        f w requester =
      ∑ v ∈ m.workers, ofRequester 0 (f v) (thread v) + f w requester' := by
  have moved :=
    Program.sum_update (fun v k => ofRequester 0 (f v) k) member thread (.inr requester')
  rw [stands] at moved
  exact moved

theorem Workers.step {event : Option (ExecuteEvent WorkerId Unit)}
    (workers : Workers m events s thread)
    (bounds : ∀ b, s.spawned b ≤ m.concurrency ∧ (0 < s.spawned b → b < m.bursts))
    (stands : thread w = .inr requester)
    (moves : Moves m w s requester s' requester' event) :
    Workers m (events ++ event.toList) s' (Function.update thread w (.inr requester')) := by
  have started := moves.started
  obtain ⟨few, only⟩ := bounds w.1
  have first : w.1 < m.bursts := only (by omega)
  have second : w.2 < m.concurrency := by omega
  have member : w ∈ m.workers := by
    simp [Measurement.workers, first, second]
  refine ⟨fun v => ?_, ?_, fun b => ?_, ?_, ?_⟩
  · by_cases same : v = w
    · subst same
      refine ⟨requester', Function.update_self .., fun _ => ?_, moves.endedSelf, moves.shaped⟩
      rw [moves.spawned]
      exact started
    · obtain ⟨other, stands', fits⟩ := workers.fits v
      refine ⟨other, (Function.update_of_ne same _ _).trans stands', fun begun => ?_, ?_,
        fits.shaped⟩
      · rw [moves.spawned]
        exact fits.spawned begun
      · rw [moves.ended v same]
        exact fits.ended
  · rcases moves.coalescing with ⟨rfl, same, still⟩ | ⟨shown, rfl, advances⟩
    · rw [Option.toList_none, List.append_nil, phases_update _ still, same]
      have unchanged : Function.update
          (fun v => ofRequester .idle Requester.phase (thread v)) w requester.phase =
            fun v => ofRequester .idle Requester.phase (thread v) := by
        refine Function.update_eq_iff.mpr ⟨?_, fun _ _ => rfl⟩
        rw [stands]
        rfl
      rw [unchanged]
      exact workers.coalescing
    · have stood : ofRequester .idle Requester.phase (thread w) = requester.phase := by
        rw [stands]
        rfl
      rw [← stood] at advances
      rw [phases_update _ rfl]
      exact workers.coalescing.step advances
  · by_cases same : b = w.1
    · subst same
      have moved := Program.sum_update (fun _ k => ofRequester 0 Requester.came k)
        (Finset.mem_range.mpr second) (fun i => thread (w.1, i)) (.inr requester')
      have shifted : ∀ i, Function.update (fun i => thread (w.1, i)) w.2 (.inr requester') i =
          Function.update thread w (.inr requester') (w.1, i) := by
        intro i
        by_cases here : i = w.2
        · subst here
          simp
        · rw [Function.update_of_ne here, Function.update_of_ne fun same => here (by rw [← same])]
      simp only [shifted, stands] at moved
      have before := workers.arrived w.1
      have change := moves.arrivedSelf
      simp only [ofRequester] at moved before ⊢
      omega
    · rw [moves.arrived b same, workers.arrived b]
      refine Finset.sum_congr rfl fun i _ => ?_
      rw [Function.update_of_ne fun here => same (by rw [← here])]
  · have moved := sum_workers_update thread requester' (fun _ => Requester.asked) member stands
    have before := workers.requests
    have change := moves.requests
    omega
  · have moved := sum_workers_update thread requester' Requester.hit member stands
    have before := workers.hits
    have change := moves.hits
    omega

end

/-- What holds after every schedule of the measurement. -/
structure Measured (m : Measurement) (events : List (Option (ExecuteEvent WorkerId Unit)))
    (s : Pool (Option WorkerId) Bursts (Coordinator ⊕ Requester)) : Prop where
  coordinator : ∃ coordinator, s.thread none = .inl coordinator ∧ coordinator.Fits m s.shared
  workers : Workers m (events.filterMap id) s.shared fun w => s.thread (some w)

theorem measured_start (m : Measurement) : Measured m [] measurementStart := by
  refine ⟨⟨.spawning 0 0, rfl, ?_⟩, fun w => ?_, RequestCoalescer.start_inv, fun b => ?_, ?_, ?_⟩
  · exact ⟨.inr rfl, Nat.zero_le _, rfl, Nat.zero_le _, fun b less => absurd less (by omega),
      fun b _ => rfl⟩
  · refine ⟨.arriving, rfl, fun other => absurd rfl other, ?_, trivial⟩
    simp [measurementStart]
  all_goals exact (Finset.sum_eq_zero fun _ _ => rfl).symm

theorem requesters_update (thread : Option WorkerId → Coordinator ⊕ Requester) (w : WorkerId)
    (k : Coordinator ⊕ Requester) :
    (fun v => Function.update thread (some w) k (some v)) =
      Function.update (fun v => thread (some v)) w k :=
  Function.update_comp_eq_of_injective _ (Option.some_injective _) _ _

theorem Measured.moves {m : Measurement} {events : List (Option (ExecuteEvent WorkerId Unit))}
    {s : Pool (Option WorkerId) Bursts (Coordinator ⊕ Requester)} {s' : Bursts} {w : WorkerId}
    {requester requester' : Requester} {event : Option (ExecuteEvent WorkerId Unit)}
    (measured : Measured m events s) (stands : s.thread (some w) = .inr requester)
    (moved : Requester.Steps m w s.shared requester s' requester' event) :
    Moves m w s.shared requester s' requester' event := by
  obtain ⟨other, stands', fits⟩ := measured.workers.fits w
  obtain rfl : requester = other := Sum.inr.inj (stands.symm.trans stands')
  refine moved.moves fits fun key found => ?_
  have leads := (measured.workers.coalescing.leader key w).mp found
  dsimp only at leads
  rw [stands] at leads
  exact leads

/-- A worker that was started belongs to a burst. -/
theorem Measured.mem_workers {m : Measurement}
    {events : List (Option (ExecuteEvent WorkerId Unit))}
    {s : Pool (Option WorkerId) Bursts (Coordinator ⊕ Requester)} {w : WorkerId}
    (measured : Measured m events s) (started : w.2 < s.shared.spawned w.1) : w ∈ m.workers := by
  obtain ⟨coordinator, -, fits⟩ := measured.coordinator
  obtain ⟨few, only⟩ := fits.spawned_le w.1
  exact Finset.mem_product.mpr ⟨Finset.mem_range.mpr (only (by omega)),
    Finset.mem_range.mpr (by omega)⟩

theorem Measured.step {m : Measurement} {events : List (Option (ExecuteEvent WorkerId Unit))}
    {s t : Pool (Option WorkerId) Bursts (Coordinator ⊕ Requester)} {l : Option WorkerId × Unit}
    {event : Option (ExecuteEvent WorkerId Unit)} (measured : Measured m events s)
    (moved : (measurement m).step s l = some (t, event)) : Measured m (events ++ [event]) t := by
  obtain ⟨i, input⟩ := l
  obtain ⟨shared, thread, advanced, rfl⟩ := Program.step_eq_some.mp moved
  obtain ⟨coordinator, stands, fits⟩ := measured.coordinator
  simp only [measurement] at advanced
  cases i with
  | none =>
    rw [stands] at advanced
    obtain ⟨⟨shared', coordinator'⟩, steps, same⟩ := Option.map_eq_some_iff.mp advanced
    cases same
    have steps := Coordinator.advance_sound steps
    obtain ⟨fits', more⟩ := fits.steps steps
    refine ⟨⟨coordinator', by simp, fits'⟩, ?_⟩
    have rest : (fun w => Function.update s.thread none (.inl coordinator') (some w)) =
        fun w => s.thread (some w) := by
      funext w
      simp
    rw [rest, List.filterMap_append, List.filterMap_cons_none rfl, List.filterMap_nil,
      List.append_nil]
    cases steps <;> exact measured.workers.spawn more rfl rfl rfl rfl rfl
  | some w =>
    obtain ⟨requester, stands', fitsSelf⟩ := measured.workers.fits w
    rw [stands'] at advanced
    obtain ⟨⟨shared', requester', shown⟩, steps, same⟩ := Option.map_eq_some_iff.mp advanced
    cases same
    have moves := measured.moves stands' (Requester.advance_sound steps)
    refine ⟨⟨coordinator, by simpa using stands, ?_⟩, ?_⟩
    · refine fits.mono moves.spawned fun v completed => ?_
      by_cases same : v = w
      · subst same
        exact absurd ((fitsSelf.ended.mp completed)) (by
          rintro ⟨phase, rfl⟩
          cases steps)
      · rw [moves.ended v same]
        exact completed
    · have events' : (events ++ [shown]).filterMap id = events.filterMap id ++ shown.toList := by
        cases shown <;> simp
      dsimp only
      rw [requesters_update, events']
      exact measured.workers.step fits.spawned_le stands' moves

theorem measured_run {m : Measurement} {schedule : List (Option WorkerId × Unit)}
    {after : Pool (Option WorkerId) Bursts (Coordinator ⊕ Requester)}
    {events : List (Option (ExecuteEvent WorkerId Unit))}
    (ran : (measurement m).run measurementStart schedule = some (after, events)) :
    Measured m events after :=
  Program.run_induction (Measured m) (fun _ _ _ _ _ measured moved => measured.step moved)
    (measured_start m) ran

/-! ### The result -/

theorem coalescingKey_injective {b b' : Nat} (same : coalescingKey b = coalescingKey b') :
    b = b' := by
  have digits := congrArg digitsValue (List.append_cancel_left same)
  rwa [digitsValue_toDecimal, digitsValue_toDecimal] at digits

section

variable {m : Measurement} {events : List (Option (ExecuteEvent WorkerId Unit))}
  {s : Pool (Option WorkerId) Bursts (Coordinator ⊕ Requester)}

/-- When the measurement is over, so are its workers. -/
theorem Measured.ended (measured : Measured m events s) (completed : s.thread none = .inl .finished)
    {w : WorkerId} (member : w ∈ m.workers) :
    ∃ phase, s.thread (some w) = .inr (.ended phase) ∧ (Requester.ended phase).Shaped m w := by
  obtain ⟨coordinator, stands, fits⟩ := measured.coordinator
  rw [completed] at stands
  cases stands
  obtain ⟨first, second⟩ := Finset.mem_product.mp member
  obtain ⟨requester, stands, fitsSelf⟩ := measured.workers.fits w
  have done := (fits.1 w.1 (Finset.mem_range.mp first)).2 w.2 (Finset.mem_range.mp second)
  obtain ⟨phase, rfl⟩ := fitsSelf.ended.mp done
  exact ⟨phase, stands, fitsSelf.shaped⟩

/-- Each burst has started the work of one of its workers. -/
theorem Measured.burst_hit (measured : Measured m events s)
    (completed : s.thread none = .inl .finished) {b : Nat} (more : b < m.bursts)
    (some_workers : 0 < m.concurrency) :
    ∃ i < m.concurrency, ofRequester 0 (Requester.hit (b, i)) (s.thread (some (b, i))) = 1 := by
  have first : (b, 0) ∈ m.workers :=
    Finset.mem_product.mpr ⟨Finset.mem_range.mpr more, Finset.mem_range.mpr some_workers⟩
  obtain ⟨phase, stands, ⟨-, rfl⟩ | ⟨on, future, rfl⟩⟩ := measured.ended completed first
  · exact ⟨0, some_workers, by rw [stands]; rfl⟩
  -- the worker has joined the call that made the future, and this call was a worker of the burst
  obtain ⟨requester, standsLeader, fitsLeader⟩ := measured.workers.fits future
  have led := measured.workers.coalescing.future (b, 0) (coalescingKey b) future (by
    dsimp only
    rw [stands]
    rfl)
  dsimp only at led
  rw [standsLeader] at led
  have begun : requester ≠ .arriving := by
    rintro rfl
    rcases led with leads | returned
    · exact leads
    · cases returned
  have member := measured.mem_workers (fitsLeader.spawned begun)
  obtain ⟨phase, stands', ⟨-, rfl⟩ | ⟨-, other, rfl⟩⟩ := measured.ended completed member
  · rw [standsLeader] at stands'
    cases stands'
    rcases led with leads | returned
    · cases leads
    · cases returned
  · rw [standsLeader] at stands'
    cases stands'
    rcases led with leads | returned
    · cases leads
    · obtain ⟨sameKey, rfl⟩ := ExecutePhase.returned.inj returned
      obtain rfl := coalescingKey_injective sameKey
      refine ⟨other.2, Finset.mem_range.mp (Finset.mem_product.mp member).2, ?_⟩
      show ofRequester 0 (Requester.hit other) (s.thread (some other)) = 1
      rw [standsLeader]
      exact if_pos rfl

theorem Measured.requests_eq (measured : Measured m events s)
    (completed : s.thread none = .inl .finished) :
    s.shared.totalRequests = m.bursts * m.concurrency := by
  have each : ∀ w ∈ m.workers, ofRequester 0 Requester.asked (s.thread (some w)) = 1 := by
    intro w member
    obtain ⟨phase, stands, -⟩ := measured.ended completed member
    rw [stands]
    rfl
  rw [measured.workers.requests, Finset.sum_congr rfl each, Finset.sum_const, smul_eq_mul,
    mul_one, Measurement.workers, Finset.card_product, Finset.card_range, Finset.card_range]

theorem Measured.hits_le (measured : Measured m events s) :
    s.shared.backendHits ≤ s.shared.totalRequests := by
  rw [measured.workers.hits, measured.workers.requests]
  refine Finset.sum_le_sum fun w _ => ?_
  obtain ⟨requester, stands, fits⟩ := measured.workers.fits w
  rw [stands]
  exact Requester.hit_le_asked fits.shaped

theorem Measured.bursts_le_hits (measured : Measured m events s)
    (completed : s.thread none = .inl .finished) (some_workers : 0 < m.concurrency) :
    m.bursts ≤ s.shared.backendHits := by
  rw [measured.workers.hits, Measurement.workers, Finset.sum_product]
  have each : ∀ b ∈ Finset.range m.bursts, 1 ≤ ∑ i ∈ Finset.range m.concurrency,
      ofRequester 0 (Requester.hit (b, i)) (s.thread (some (b, i))) := by
    intro b more
    obtain ⟨i, room, hit⟩ := measured.burst_hit completed (Finset.mem_range.mp more) some_workers
    rw [← hit]
    exact Finset.single_le_sum
      (f := fun i => ofRequester 0 (Requester.hit (b, i)) (s.thread (some (b, i))))
      (fun _ _ => Nat.zero_le _) (Finset.mem_range.mpr room)
  calc m.bursts = ∑ b ∈ Finset.range m.bursts, 1 := by simp
    _ ≤ _ := Finset.sum_le_sum each

/-- Without the coalescer each request is a hit. -/
theorem Measured.hits_alone (measured : Measured m events s)
    (completed : s.thread none = .inl .finished) (off : m.enabled = false) :
    s.shared.backendHits = s.shared.totalRequests := by
  rw [measured.workers.hits, measured.workers.requests]
  refine Finset.sum_congr rfl fun w member => ?_
  obtain ⟨phase, stands, ⟨-, rfl⟩ | ⟨on, -⟩⟩ := measured.ended completed member
  · rw [stands]
    rfl
  · rw [off] at on
    cases on

end

theorem duplicateBackendHits_eq (m : Measurement) (s : Bursts) :
    (m.result s).duplicateBackendHits = toDouble (s.backendHits - m.bursts) := by
  show toDouble (if m.bursts < s.backendHits then _ else 0) = _
  congr 1
  split <;> omega

theorem coalescingHitRatio_eq (m : Measurement) (s : Bursts) :
    (m.result s).coalescingHitRatio =
      roundQuotient 2 53 (toDouble (s.totalRequests - s.backendHits))
        (toDouble s.totalRequests) := by
  show (if 0 < s.totalRequests then _ else 0) = _
  split
  · rfl
  · rename_i idle
    have saved : s.totalRequests - s.backendHits = 0 := by omega
    rw [saved, toDouble_of_lt (by decide), zero_roundQuotient]

/-- The ratio is the part of the requests that was saved, up to one part in `2 ^ 53`. -/
theorem coalescingHitRatio_near (m : Measurement) {s : Bursts} (few : s.totalRequests < 2 ^ 53) :
    |(m.result s).coalescingHitRatio * s.totalRequests -
        (s.totalRequests - s.backendHits : Nat)| * 2 ^ 53 ≤
      (s.totalRequests - s.backendHits : Nat) := by
  rw [coalescingHitRatio_eq, toDouble_of_lt few, toDouble_of_lt (by omega)]
  rcases Nat.eq_zero_or_pos s.totalRequests with idle | some_requests
  · simp [idle]
  · have near := abs_roundQuotient_mul_sub (n := s.totalRequests - s.backendHits)
      (by decide : 1 < 2) (by decide : 0 < 53) some_requests
    have digits : 2 * ((2 : Nat) : ℚ) ^ (53 - 1) = 2 ^ 53 := by norm_num
    rwa [digits] at near

/-- Whatever the order of the steps, the measurement reports what happened: each burst has caused
at least one hit and each request at most one, the hits beyond one per burst are the duplicates, and
the duplicates and the saved requests make up all the requests but one per burst.  The ratio is the
quotient of the saved requests and of all requests as a `double` holds it.  Without the coalescer
nothing is saved. -/
theorem measurement_result {m : Measurement} {schedule : List (Option WorkerId × Unit)}
    {after : Pool (Option WorkerId) Bursts (Coordinator ⊕ Requester)}
    {events : List (Option (ExecuteEvent WorkerId Unit))}
    (ran : (measurement m).run measurementStart schedule = some (after, events))
    (completed : after.thread none = .inl .finished) (some_workers : 0 < m.concurrency) :
    after.shared.totalRequests = m.bursts * m.concurrency ∧
      m.bursts ≤ after.shared.backendHits ∧
      after.shared.backendHits ≤ after.shared.totalRequests ∧
      (after.shared.backendHits - m.bursts) +
          (after.shared.totalRequests - after.shared.backendHits) =
        m.bursts * (m.concurrency - 1) ∧
      (m.result after.shared).duplicateBackendHits =
        toDouble (after.shared.backendHits - m.bursts) ∧
      (m.result after.shared).coalescingHitRatio =
        roundQuotient 2 53 (toDouble (after.shared.totalRequests - after.shared.backendHits))
          (toDouble after.shared.totalRequests) ∧
      (after.shared.totalRequests < 2 ^ 53 →
        |(m.result after.shared).coalescingHitRatio * after.shared.totalRequests -
            (after.shared.totalRequests - after.shared.backendHits : Nat)| * 2 ^ 53 ≤
          (after.shared.totalRequests - after.shared.backendHits : Nat)) ∧
      (m.enabled = false → (m.result after.shared).coalescingHitRatio = 0) := by
  have measured := measured_run ran
  have requests := measured.requests_eq completed
  have least := measured.bursts_le_hits completed some_workers
  have most := measured.hits_le
  refine ⟨requests, least, most, ?_, duplicateBackendHits_eq m _, coalescingHitRatio_eq m _,
    coalescingHitRatio_near m, fun off => ?_⟩
  · rw [Nat.mul_sub_one, ← requests]
    omega
  · rw [coalescingHitRatio_eq, measured.hits_alone completed off, Nat.sub_self,
      toDouble_of_lt (by decide), zero_roundQuotient]

/-- Two workers, of which the second joins the call of the first. -/
def jointBurst : List (Option WorkerId × Unit) :=
  (List.replicate 3 none ++ [some (0, 0), some (0, 1), some (0, 0), some (0, 1), some (0, 0),
    some (0, 1), some (0, 0), some (0, 1)] ++ List.replicate 6 (some (0, 0)) ++
    List.replicate 2 (some (0, 1)) ++ List.replicate 4 none).map (·, ())

theorem jointBurst_result : ∃ after events,
    (measurement ⟨true, 1, 2⟩).run measurementStart jointBurst = some (after, events) ∧
      after.shared.backendHits = 1 ∧ after.shared.totalRequests = 1 * 2 ∧
      ((⟨true, 1, 2⟩ : Measurement).result after.shared).duplicateBackendHits = toDouble (1 - 1) ∧
      ((⟨true, 1, 2⟩ : Measurement).result after.shared).coalescingHitRatio =
        roundQuotient 2 53 (toDouble (1 * 2 - 1)) (toDouble (1 * 2)) := by
  have ends : ((measurement ⟨true, 1, 2⟩).run measurementStart jointBurst).map
      (fun r => (r.1.thread none, r.1.shared.backendHits)) = some (.inl .finished, 1) := by rfl
  obtain ⟨⟨after, events⟩, ran, same⟩ := Option.map_eq_some_iff.mp ends
  obtain ⟨completed, hits⟩ := Prod.mk.inj same
  obtain ⟨requests, -, -, -, duplicates, ratio, -⟩ :=
    measurement_result ran completed (by decide)
  dsimp only at requests hits
  rw [hits] at duplicates
  rw [requests, hits] at ratio
  exact ⟨after, events, ran, hits, requests, duplicates, ratio⟩

/-! ### The end -/

/-- The most steps that a call of `Execute` and the end of its worker still take. -/
def phaseLeft : ExecutePhase WorkerId Unit → Nat
  | .idle => 7
  | .leading _ => 6
  | .working _ => 5
  | .worked .. => 4
  | .completed _ => 3
  | .returned .. => 2

def Requester.left : Requester → Nat
  | arriving => 10
  | waiting => 9
  | counting => 8
  | executing phase => phaseLeft phase
  | working => 2
  | leaving _ => 1
  | ended _ => 0

/-- The steps that the thread over the bursts still takes. -/
def Coordinator.left (m : Measurement) : Coordinator → Nat
  | spawning burst index => (m.bursts - burst) * (2 * m.concurrency + 2) + 1 - index
  | joining burst index =>
    (m.bursts - burst - 1) * (2 * m.concurrency + 2) + 2 + (m.concurrency - index)
  | finished => 0

theorem Requester.Steps.left_lt {m : Measurement} {w : WorkerId} {s s' : Bursts}
    {requester requester' : Requester} {event : Option (ExecuteEvent WorkerId Unit)}
    (moved : Steps m w s requester s' requester' event) : requester'.left < requester.left := by
  cases moved with
  | execute advanced =>
    cases ExecutePhase.advance_sound advanced <;> simp [left, phaseLeft]
  | _ => simp [left, phaseLeft]

theorem Coordinator.Steps.left_lt {m : Measurement} {s s' : Bursts}
    {coordinator coordinator' : Coordinator} (fits : coordinator.Fits m s)
    (moved : Steps m s coordinator s' coordinator') : coordinator'.left m < coordinator.left m := by
  cases moved with
  | @spawn burst index more room =>
    have some_bursts : 1 * (2 * m.concurrency + 2) ≤ (m.bursts - burst) * (2 * m.concurrency + 2) :=
      Nat.mul_le_mul_right _ (by omega)
    simp only [left]
    omega
  | @spawned burst index more full =>
    obtain ⟨-, room, -⟩ := fits
    obtain ⟨k, rest⟩ : ∃ k, m.bursts - burst = k + 1 := ⟨m.bursts - burst - 1, by omega⟩
    simp only [left, rest, Nat.add_sub_cancel, Nat.add_mul]
    omega
  | completed last =>
    obtain ⟨begun, room, -⟩ := fits
    have first := begun.resolve_left (by omega)
    simp only [left, first]
    omega
  | join room =>
    simp only [left]
    omega
  | @joined burst index last =>
    have rest : m.bursts - (burst + 1) = m.bursts - burst - 1 := by omega
    simp only [left, rest]
    omega

section

variable {m : Measurement} {events : List (Option (ExecuteEvent WorkerId Unit))}
  {s t : Pool (Option WorkerId) Bursts (Coordinator ⊕ Requester)}

/-- The most steps that are left. -/
def stepsLeft (m : Measurement) (s : Pool (Option WorkerId) Bursts (Coordinator ⊕ Requester)) :
    Nat :=
  (match s.thread none with
    | .inl coordinator => coordinator.left m
    | .inr _ => 0) + ∑ w ∈ m.workers, ofRequester 0 Requester.left (s.thread (some w))

theorem Measured.stepsLeft_lt {l : Option WorkerId × Unit}
    {event : Option (ExecuteEvent WorkerId Unit)} (measured : Measured m events s)
    (moved : (measurement m).step s l = some (t, event)) : stepsLeft m t < stepsLeft m s := by
  obtain ⟨i, input⟩ := l
  obtain ⟨shared, thread, advanced, rfl⟩ := Program.step_eq_some.mp moved
  obtain ⟨coordinator, stands, fits⟩ := measured.coordinator
  simp only [measurement] at advanced
  cases i with
  | none =>
    rw [stands] at advanced
    obtain ⟨⟨shared', coordinator'⟩, steps, same⟩ := Option.map_eq_some_iff.mp advanced
    cases same
    have less := (Coordinator.advance_sound steps).left_lt fits
    simp only [stepsLeft, stands, Function.update_self, Function.update_of_ne, ne_eq, reduceCtorEq,
      not_false_eq_true]
    omega
  | some w =>
    obtain ⟨requester, stands', fitsSelf⟩ := measured.workers.fits w
    rw [stands'] at advanced
    obtain ⟨⟨shared', requester', shown⟩, steps, same⟩ := Option.map_eq_some_iff.mp advanced
    cases same
    have sound := Requester.advance_sound steps
    have less := sound.left_lt
    have member := measured.mem_workers (measured.moves stands' sound).started
    have sum := sum_workers_update (fun v => s.thread (some v)) requester'
      (fun _ => Requester.left) member stands'
    rw [← requesters_update] at sum
    dsimp only at sum
    simp only [stepsLeft, Function.update_of_ne, ne_eq, reduceCtorEq, not_false_eq_true]
    omega

theorem Requester.executing_moves (m : Measurement) (w : WorkerId) (s : Bursts)
    {phase : ExecutePhase WorkerId Unit} (inside : ∀ key future, phase ≠ .returned key future) :
    (Requester.advance m w s (.executing phase)).isSome = true := by
  cases phase with
  | idle =>
    simp only [advance, nextAction, ExecutePhase.advance]
    split <;> rfl
  | returned key future => exact absurd rfl (inside key future)
  | _ => rfl

theorem Requester.arriving_moves {s : Bursts} {w : WorkerId} (started : w.2 < s.spawned w.1) :
    (Requester.advance m w s .arriving).isSome = true := by
  simp only [Requester.advance]
  rw [if_pos started]
  rfl

/-- While the barrier of a burst waits, one of its workers has not arrived. -/
theorem Measured.exists_arriving (measured : Measured m events s) {b : Nat}
    (waits : s.shared.arrived b < m.concurrency) :
    ∃ j < m.concurrency, s.thread (some (b, j)) = .inr .arriving := by
  obtain ⟨j, member, missing⟩ : ∃ j ∈ Finset.range m.concurrency,
      ofRequester 0 Requester.came (s.thread (some (b, j))) = 0 := by
    by_contra nobody
    have every : ∀ j ∈ Finset.range m.concurrency,
        1 ≤ ofRequester 0 Requester.came (s.thread (some (b, j))) := by
      intro j member
      rw [Nat.one_le_iff_ne_zero]
      exact fun zero => nobody ⟨j, member, zero⟩
    have total := Finset.sum_le_sum every
    rw [← measured.workers.arrived b] at total
    simp at total
    omega
  obtain ⟨other, stands, -⟩ := measured.workers.fits (b, j)
  rw [stands] at missing
  cases other with
  | arriving => exact ⟨j, Finset.mem_range.mp member, stands⟩
  | _ => cases missing

/-- The call that holds a future can move until it has completed it. -/
theorem Measured.leader_moves (measured : Measured m events s) {w future : WorkerId} {key : Bytes}
    (stands : s.thread (some w) = .inr (.executing (.returned key future)))
    (pending : s.shared.coalescer.promise future = none) :
    ∃ leader, s.thread (some future) = .inr leader ∧
      (leader.advance m future s.shared).isSome = true := by
  obtain ⟨leader, stands', fits⟩ := measured.workers.fits future
  have led := measured.workers.coalescing.future w key future (by
    dsimp only
    rw [stands]
    rfl)
  have traced := measured.workers.coalescing.traced future
  dsimp only at led traced
  rw [stands'] at led traced
  rw [pending] at traced
  rcases led with leads | returned
  · refine ⟨leader, stands', ?_⟩
    cases leader with
    | executing phase =>
      refine Requester.executing_moves m _ _ ?_
      rintro key' future' rfl
      exact leads
    | leaving phase | ended phase =>
      obtain ⟨-, rfl⟩ | ⟨-, other, rfl⟩ := fits.shaped <;> cases leads
    | _ => cases leads
  · have returned : leader.phase = .returned key future := returned
    have traced : RequestCoalescer.Traced future leader.phase none _ := traced
    rw [returned] at traced
    exact absurd traced.promise_isSome (by simp)

/-- A worker of a burst that was started as a whole can move, or another worker of it can. -/
theorem Measured.worker_moves (measured : Measured m events s) {b i : Nat}
    (all : s.shared.spawned b = m.concurrency) (room : i < m.concurrency)
    (running : s.shared.ended (b, i) = false) :
    ∃ w requester, s.thread (some w) = .inr requester ∧
      (requester.advance m w s.shared).isSome = true := by
  obtain ⟨requester, stands, fits⟩ := measured.workers.fits (b, i)
  cases requester with
  | arriving => exact ⟨(b, i), _, stands, Requester.arriving_moves (all ▸ room)⟩
  | waiting =>
    by_cases full : m.concurrency ≤ s.shared.arrived b
    · refine ⟨(b, i), _, stands, ?_⟩
      simp only [Requester.advance]
      rw [if_pos full]
      rfl
    · -- the barrier waits for a worker that has not arrived, and this one can arrive
      obtain ⟨j, less, stands'⟩ := measured.exists_arriving (Nat.lt_of_not_le full)
      exact ⟨(b, j), _, stands', Requester.arriving_moves (all ▸ less)⟩
  | counting => exact ⟨(b, i), _, stands, rfl⟩
  | executing phase =>
    by_cases waits : ∃ key future, phase = .returned key future
    · obtain ⟨key, future, rfl⟩ := waits
      cases held : s.shared.coalescer.promise future with
      | some outcome =>
        refine ⟨(b, i), _, stands, ?_⟩
        simp [Requester.advance, held]
      | none =>
        obtain ⟨leader, stands', moves⟩ := measured.leader_moves stands held
        exact ⟨future, leader, stands', moves⟩
    · exact ⟨(b, i), _, stands, Requester.executing_moves m _ _ fun key future same =>
        waits ⟨key, future, same⟩⟩
  | working => exact ⟨(b, i), _, stands, rfl⟩
  | leaving phase => exact ⟨(b, i), _, stands, rfl⟩
  | ended phase =>
    have completed := fits.ended.mpr ⟨phase, rfl⟩
    rw [running] at completed
    cases completed

theorem Measured.progress (measured : Measured m events s) :
    s.thread none = .inl .finished ∨
      ∃ i, ((measurement m).step s (i, ())).isSome = true := by
  obtain ⟨coordinator, stands, fits⟩ := measured.coordinator
  have coordinates : (coordinator.advance m s.shared).isSome = true →
      ((measurement m).step s (none, ())).isSome = true := by
    intro advances
    simpa [Program.step, measurement, stands] using advances
  cases coordinator with
  | spawning burst index =>
    refine .inr ⟨none, coordinates ?_⟩
    simp only [Coordinator.advance]
    split
    · split <;> rfl
    · rfl
  | joining burst index =>
    obtain ⟨more, all, -⟩ := fits
    by_cases room : index < m.concurrency
    · cases completed : s.shared.ended (burst, index) with
      | true => exact .inr ⟨none, coordinates (by simp [Coordinator.advance, room, completed])⟩
      | false =>
        obtain ⟨w, requester, stands', advances⟩ := measured.worker_moves all room completed
        exact .inr ⟨some w, by simpa [Program.step, measurement, stands'] using advances⟩
    · exact .inr ⟨none, coordinates (by simp [Coordinator.advance, room])⟩
  | finished => exact .inl stands

theorem stepsLeft_run {schedule : List (Option WorkerId × Unit)}
    {more : List (Option (ExecuteEvent WorkerId Unit))} (measured : Measured m events s)
    (ran : (measurement m).run s schedule = some (t, more)) :
    Measured m (events ++ more) t ∧ schedule.length + stepsLeft m t ≤ stepsLeft m s := by
  induction schedule generalizing s events more with
  | nil =>
    cases ran
    exact ⟨by simpa using measured, by simp⟩
  | cons l schedule ih =>
    obtain ⟨u, event, rest, moved, tail, rfl⟩ := Program.run_cons_eq_some.mp ran
    obtain ⟨measured', bound⟩ := ih (measured.step moved) tail
    have less := measured.stepsLeft_lt moved
    refine ⟨by simpa using measured', ?_⟩
    rw [List.length_cons]
    omega

end

/-- The measurement always ends: no schedule has more steps than the bound, and until the last
burst is joined some thread can move, so neither the barrier nor a future blocks it for good. -/
theorem measurement_completes {m : Measurement} {schedule : List (Option WorkerId × Unit)}
    {after : Pool (Option WorkerId) Bursts (Coordinator ⊕ Requester)}
    {events : List (Option (ExecuteEvent WorkerId Unit))}
    (ran : (measurement m).run measurementStart schedule = some (after, events)) :
    schedule.length ≤ m.bursts * (12 * m.concurrency + 2) + 1 ∧
      (after.thread none = .inl .finished ∨
        ∃ i, ((measurement m).step after (i, ())).isSome = true) := by
  obtain ⟨measured, bound⟩ := stepsLeft_run (measured_start m) ran
  have first : stepsLeft m measurementStart = m.bursts * (12 * m.concurrency + 2) + 1 := by
    have workers : ∑ w ∈ m.workers,
        ofRequester 0 Requester.left (measurementStart.thread (some w)) =
          m.bursts * m.concurrency * 10 := by
      show ∑ w ∈ m.workers, 10 = _
      rw [Finset.sum_const, smul_eq_mul, Measurement.workers, Finset.card_product,
        Finset.card_range, Finset.card_range]
    rw [stepsLeft, workers]
    show m.bursts * (2 * m.concurrency + 2) + 1 - 0 + _ = _
    rw [Nat.sub_zero]
    ring
  rw [first] at bound
  exact ⟨by omega, measured.progress⟩

theorem jointBurst_completes : ∃ after events,
    (measurement ⟨true, 1, 2⟩).run measurementStart jointBurst = some (after, events) ∧
      jointBurst.length ≤ 1 * (12 * 2 + 2) + 1 ∧ (after.thread none = .inl .finished ∨
        ∃ i, ((measurement ⟨true, 1, 2⟩).step after (i, ())).isSome = true) := by
  have ran : ((measurement ⟨true, 1, 2⟩).run measurementStart jointBurst).isSome = true := by
    decide +kernel
  exact ⟨_, _, (Option.some_get ran).symm, measurement_completes (Option.some_get ran).symm⟩

end DistributedCache.Bench
