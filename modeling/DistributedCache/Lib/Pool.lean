import Mathlib.Logic.Function.Basic

/-! Programs that many threads run over one shared state.  A thread takes one atomic step at a time,
on the shared state and on its own local state, and a schedule names the thread that moves and the
input that the environment gives to its step.  The rules at the end derive facts about every
schedule from facts about one step of one thread. -/

namespace Lib

/-- A program with shared states `σ` and local states `κ`.  `advance i s k a` is one atomic step
of thread `i` on input `a`: the new shared state, the new local state, and the event that the step
emits, or `none` if the thread can take no step on that input. -/
structure Program (ι σ κ α ε : Type) where
  advance : ι → σ → κ → α → Option (σ × κ × ε)

/-- The shared state and the local state of each thread. -/
structure Pool (ι σ κ : Type) where
  shared : σ
  thread : ι → κ

namespace Program

variable {ι σ κ α ε : Type} [DecidableEq ι] (P : Program ι σ κ α ε)

/-- One step of thread `l.1` on input `l.2`. -/
def step (s : Pool ι σ κ) (l : ι × α) : Option (Pool ι σ κ × ε) :=
  (P.advance l.1 s.shared (s.thread l.1) l.2).map fun r =>
    (⟨r.1, Function.update s.thread l.1 r.2.1⟩, r.2.2)

/-- The state and the events after a schedule. -/
def run (s : Pool ι σ κ) : List (ι × α) → Option (Pool ι σ κ × List ε)
  | [] => some (s, [])
  | l :: ls => (P.step s l).bind fun r => (run r.1 ls).map fun q => (q.1, r.2 :: q.2)

variable {P}

theorem step_eq_some {s t : Pool ι σ κ} {i : ι} {a : α} {e : ε} :
    P.step s (i, a) = some (t, e) ↔ ∃ shared k,
      P.advance i s.shared (s.thread i) a = some (shared, k, e) ∧
        t = ⟨shared, Function.update s.thread i k⟩ := by
  simp only [step, Option.map_eq_some_iff, Prod.exists, Prod.mk.injEq]
  constructor
  · rintro ⟨shared, k, e', moved, rfl, rfl⟩
    exact ⟨shared, k, moved, rfl⟩
  · rintro ⟨shared, k, moved, rfl⟩
    exact ⟨shared, k, e, moved, rfl, rfl⟩

theorem run_cons_eq_some {s t : Pool ι σ κ} {l : ι × α} {ls : List (ι × α)} {es : List ε} :
    P.run s (l :: ls) = some (t, es) ↔ ∃ u e rest,
      P.step s l = some (u, e) ∧ P.run u ls = some (t, rest) ∧ es = e :: rest := by
  simp only [run, Option.bind_eq_some_iff, Option.map_eq_some_iff, Prod.exists, Prod.mk.injEq]
  constructor
  · rintro ⟨u, e, moved, t', rest, ran, rfl, rfl⟩
    exact ⟨u, e, rest, moved, ran, rfl⟩
  · rintro ⟨u, e, rest, moved, ran, rfl⟩
    exact ⟨u, e, moved, t, rest, ran, rfl, rfl⟩

theorem run_append {s t u : Pool ι σ κ} {ls ls' : List (ι × α)} {es es' : List ε}
    (first : P.run s ls = some (t, es)) (rest : P.run t ls' = some (u, es')) :
    P.run s (ls ++ ls') = some (u, es ++ es') := by
  induction ls generalizing s es with
  | nil =>
    cases first
    exact rest
  | cons l ls ih =>
    obtain ⟨v, e, tail, moved, ran, rfl⟩ := run_cons_eq_some.mp first
    exact run_cons_eq_some.mpr ⟨v, e, tail ++ es', moved, ih ran, rfl⟩

/-- What holds of the start and of every step after the events so far holds of every schedule. -/
theorem run_induction (I : List ε → Pool ι σ κ → Prop)
    (next : ∀ es s l t e, I es s → P.step s l = some (t, e) → I (es ++ [e]) t)
    {s t : Pool ι σ κ} {ls : List (ι × α)} {es : List ε} (start : I [] s)
    (ran : P.run s ls = some (t, es)) : I es t := by
  suffices h : ∀ ls pre s es, I pre s → P.run s ls = some (t, es) → I (pre ++ es) t by
    simpa using h ls [] s es start ran
  intro ls
  induction ls with
  | nil =>
    intro pre s es holds ran
    simp only [run, Option.some.injEq, Prod.mk.injEq] at ran
    obtain ⟨rfl, rfl⟩ := ran
    simpa using holds
  | cons l ls ih =>
    intro pre s es holds ran
    obtain ⟨u, e, rest, moved, tail, rfl⟩ := run_cons_eq_some.mp ran
    simpa using ih (pre ++ [e]) u rest (next _ _ _ _ _ holds moved) tail

/-- A run up to the point where it has shown the first part of its events. -/
theorem run_eq_append {s t : Pool ι σ κ} {ls : List (ι × α)} {es es' : List ε}
    (ran : P.run s ls = some (t, es ++ es')) :
    ∃ ls₁ ls₂ u, ls = ls₁ ++ ls₂ ∧ P.run s ls₁ = some (u, es) ∧ P.run u ls₂ = some (t, es') := by
  induction es generalizing s ls with
  | nil => exact ⟨[], ls, s, rfl, rfl, ran⟩
  | cons e es ih =>
    cases ls with
    | nil => simp [run] at ran
    | cons l ls =>
      obtain ⟨v, e', rest, moved, tail, same⟩ := run_cons_eq_some.mp ran
      obtain ⟨rfl, rfl⟩ := List.cons.inj same
      obtain ⟨ls₁, ls₂, u, rfl, front, back⟩ := ih tail
      exact ⟨l :: ls₁, ls₂, u, rfl, run_cons_eq_some.mpr ⟨v, e, es, moved, front, rfl⟩, back⟩

/-- An invariant of the pool, kept by every step whose event is `good`. -/
theorem run_invariant (good : ε → Prop) (I : Pool ι σ κ → Prop)
    (next : ∀ s l t e, I s → good e → P.step s l = some (t, e) → I t)
    {s t : Pool ι σ κ} {ls : List (ι × α)} {es : List ε} (start : I s)
    (ran : P.run s ls = some (t, es)) (events : ∀ e ∈ es, good e) : I t := by
  refine run_induction (fun es s => (∀ e ∈ es, good e) → I s) ?_ (fun _ => start) ran events
  intro es s l t e holds moved events
  exact next s l t e (holds fun e he => events e (by simp [he])) (events e (by simp)) moved

/-- An obligation `done` with a thread that is responsible for it: if every step leaves the
obligation met, or leaves its own thread responsible, or is a step of a thread that was not
responsible and disturbs neither, then in every state the obligation is met or some thread is
responsible for it.  `G` is an invariant of the shared state and `L` one of each thread: a step
keeps `G` and its own `L`, and does not disturb the `L` of another thread. -/
theorem run_responsible (good : ε → Prop) (G : σ → Prop) (L : σ → κ → Prop) (done : σ → Prop)
    (resp : σ → κ → Prop)
    (own : ∀ i s k a s' k' e, G s → L s k → good e → P.advance i s k a = some (s', k', e) →
      G s' ∧ L s' k')
    (other : ∀ i s k a s' k' e j, G s → L s k → L s j → good e →
      P.advance i s k a = some (s', k', e) → L s' j)
    (duty : ∀ i s k a s' k' e, G s → L s k → good e → P.advance i s k a = some (s', k', e) →
      done s' ∨ resp s' k' ∨
        ((done s → done s') ∧ ¬resp s k ∧ ∀ j, resp s j → resp s' j))
    {s t : Pool ι σ κ} {ls : List (ι × α)} {es : List ε} (start : G s.shared)
    (starts : ∀ i, L s.shared (s.thread i)) (met : done s.shared)
    (ran : P.run s ls = some (t, es)) (events : ∀ e ∈ es, good e) :
    done t.shared ∨ ∃ i, resp t.shared (t.thread i) := by
  suffices h : (G t.shared ∧ ∀ i, L t.shared (t.thread i)) ∧
      (done t.shared ∨ ∃ i, resp t.shared (t.thread i)) from h.2
  refine run_invariant good (fun s => (G s.shared ∧ ∀ i, L s.shared (s.thread i)) ∧
    (done s.shared ∨ ∃ i, resp s.shared (s.thread i))) ?_ ⟨⟨start, starts⟩, .inl met⟩ ran events
  rintro s ⟨i, a⟩ t e ⟨⟨global, locals⟩, covered⟩ ok moved
  obtain ⟨shared, k, advanced, rfl⟩ := step_eq_some.mp moved
  obtain ⟨global', own'⟩ := own _ _ _ _ _ _ _ global (locals i) ok advanced
  refine ⟨⟨global', fun j => ?_⟩, ?_⟩
  · by_cases same : j = i
    · subst same
      simpa using own'
    · simpa [same] using other _ _ _ _ _ _ _ _ global (locals i) (locals j) ok advanced
  · rcases duty _ _ _ _ _ _ _ global (locals i) ok advanced with met | mine | ⟨keep, idle, others⟩
    · exact .inl met
    · exact .inr ⟨i, by simpa using mine⟩
    · rcases covered with met | ⟨j, theirs⟩
      · exact .inl (keep met)
      · have different : j ≠ i := by
          rintro rfl
          exact idle theirs
        exact .inr ⟨j, by simpa [different] using others _ theirs⟩

/-! ### Runs that keep to a condition -/

/-- A run in which every step is taken from a state that admits it. -/
inductive Guarded (P : Program ι σ κ α ε) (admits : Pool ι σ κ → ι × α → Prop) :
    Pool ι σ κ → List (ι × α) → Pool ι σ κ → List ε → Prop
  | nil (s : Pool ι σ κ) : Guarded P admits s [] s []
  | cons {s u t : Pool ι σ κ} {l : ι × α} {ls : List (ι × α)} {e : ε} {es : List ε} :
      admits s l → P.step s l = some (u, e) → Guarded P admits u ls t es →
      Guarded P admits s (l :: ls) t (e :: es)

/-- What holds of the start and of every admitted step after the events so far holds of every run
that keeps to the condition. -/
theorem Guarded.induction {admits : Pool ι σ κ → ι × α → Prop} (I : List ε → Pool ι σ κ → Prop)
    (next : ∀ es s l t e, I es s → admits s l → P.step s l = some (t, e) → I (es ++ [e]) t)
    {s t : Pool ι σ κ} {ls : List (ι × α)} {es : List ε} (start : I [] s)
    (ran : Guarded P admits s ls t es) : I es t := by
  suffices h : ∀ pre, I pre s → I (pre ++ es) t by
    simpa using h [] start
  clear start
  induction ran with
  | nil =>
    intro pre holds
    simpa using holds
  | cons admitted moved _ ih =>
    intro pre holds
    simpa using ih _ (next _ _ _ _ _ holds admitted moved)

/-- An invariant `G` of the shared state and one `L` of each thread: a step keeps `G` and its own
`L`, and an admitted step does not disturb the `L` of another thread. -/
theorem Guarded.invariant {admits : Pool ι σ κ → ι × α → Prop} (good : ε → Prop) (G : σ → Prop)
    (L : σ → κ → Prop)
    (own : ∀ i s k a s' k' e, G s → L s k → good e → P.advance i s k a = some (s', k', e) →
      G s' ∧ L s' k')
    (other : ∀ s i a s' k' e j, G s.shared → L s.shared (s.thread j) → admits s (i, a) → j ≠ i →
      P.advance i s.shared (s.thread i) a = some (s', k', e) → L s' (s.thread j))
    {s t : Pool ι σ κ} {ls : List (ι × α)} {es : List ε} (start : G s.shared)
    (starts : ∀ i, L s.shared (s.thread i)) (ran : Guarded P admits s ls t es)
    (events : ∀ e ∈ es, good e) : G t.shared ∧ ∀ i, L t.shared (t.thread i) := by
  refine Guarded.induction (fun es s => (∀ e ∈ es, good e) →
    G s.shared ∧ ∀ i, L s.shared (s.thread i)) ?_ (fun _ => ⟨start, starts⟩) ran events
  rintro es s ⟨i, a⟩ t e holds admitted moved events
  obtain ⟨global, locals⟩ := holds fun e member => events e (List.mem_append_left _ member)
  obtain ⟨shared, k, advanced, rfl⟩ := step_eq_some.mp moved
  obtain ⟨global', own'⟩ := own _ _ _ _ _ _ _ global (locals i) (events e (by simp)) advanced
  refine ⟨global', fun j => ?_⟩
  by_cases same : j = i
  · subst same
    simpa using own'
  · simpa [same] using other s i a _ _ _ j global (locals j) admitted same advanced

/-- The state and the events after a schedule, if each step is admitted. -/
def runIf (P : Program ι σ κ α ε) (admits : Pool ι σ κ → ι × α → Prop)
    [∀ s l, Decidable (admits s l)] (s : Pool ι σ κ) :
    List (ι × α) → Option (Pool ι σ κ × List ε)
  | [] => some (s, [])
  | l :: ls =>
    if admits s l then
      (P.step s l).bind fun r => (runIf P admits r.1 ls).map fun q => (q.1, r.2 :: q.2)
    else none

theorem Guarded.of_runIf {admits : Pool ι σ κ → ι × α → Prop} [∀ s l, Decidable (admits s l)]
    {s t : Pool ι σ κ} {ls : List (ι × α)} {es : List ε}
    (ran : P.runIf admits s ls = some (t, es)) : Guarded P admits s ls t es := by
  induction ls generalizing s es with
  | nil =>
    cases ran
    exact .nil _
  | cons l ls ih =>
    rw [runIf] at ran
    split at ran
    · rename_i admitted
      obtain ⟨⟨u, e⟩, moved, rest⟩ := Option.bind_eq_some_iff.mp ran
      obtain ⟨⟨t', es'⟩, tail, same⟩ := Option.map_eq_some_iff.mp rest
      cases same
      exact .cons admitted moved (ih tail)
    · cases ran

/-! ### A thread that runs alone -/

/-- Steps of thread `i` alone, whose events are all `quiet`. -/
inductive Alone (P : Program ι σ κ α ε) (i : ι) (quiet : ε → Prop) : σ → κ → σ → κ → Prop
  | refl {s : σ} {k : κ} : Alone P i quiet s k s k
  | step {s s' t : σ} {k k' l : κ} {e : ε} (a : α) :
      P.advance i s k a = some (s', k', e) → quiet e → Alone P i quiet s' k' t l →
      Alone P i quiet s k t l

variable {i : ι} {quiet : ε → Prop}

omit [DecidableEq ι] in
theorem Alone.trans {s t u : σ} {k l m : κ} (first : Alone P i quiet s k t l)
    (rest : Alone P i quiet t l u m) : Alone P i quiet s k u m := by
  induction first with
  | refl => exact rest
  | step a moved silent _ ih => exact .step a moved silent (ih rest)

/-- A run that begins with a step of thread `i`. -/
theorem run_thread {s s' : σ} {k k' : κ} {a : α} {e : ε} {thread : ι → κ} {ls : List (ι × α)}
    {t : Pool ι σ κ} {es : List ε} (moved : P.advance i s k a = some (s', k', e))
    (ran : P.run ⟨s', Function.update thread i k'⟩ ls = some (t, es)) :
    P.run ⟨s, Function.update thread i k⟩ ((i, a) :: ls) = some (t, e :: es) := by
  refine run_cons_eq_some.mpr ⟨_, e, es, ?_, ran, rfl⟩
  exact step_eq_some.mpr ⟨s', k', by simpa using moved, by simp⟩

/-- What a thread does alone is a run of the pool, in which the other threads wait. -/
theorem Alone.run {s t : σ} {k l : κ} (alone : Alone P i quiet s k t l) (thread : ι → κ) :
    ∃ ls es, P.run ⟨s, Function.update thread i k⟩ ls =
      some (⟨t, Function.update thread i l⟩, es) ∧ ∀ e ∈ es, quiet e := by
  induction alone with
  | refl => exact ⟨[], [], rfl, by simp⟩
  | @step s s' t k k' l e a moved silent _ ih =>
    obtain ⟨ls, es, ran, events⟩ := ih
    exact ⟨(i, a) :: ls, e :: es, run_thread moved ran, by simpa using ⟨silent, events⟩⟩

end Program

end Lib
