import DistributedCache.Lib.Pool
import DistributedCache.Lib.Machine

/-! Objects whose operations take effect at one point between the call and the response.
`atomicObject` is the program of all callers of such an object, and a program behaves as the object
does if its threads can be simulated, step by step, by callers of the object. -/

namespace Lib

namespace Program

variable {ι σ κ α ε : Type} {P : Program ι σ κ α ε}

/-- Steps of thread `i` alone, with their events. -/
inductive Moves (P : Program ι σ κ α ε) (i : ι) : σ → κ → List ε → σ → κ → Prop
  | nil {s : σ} {k : κ} : Moves P i s k [] s k
  | cons {s s' t : σ} {k k' l : κ} {e : ε} {es : List ε} (a : α) :
      P.advance i s k a = some (s', k', e) → Moves P i s' k' es t l →
      Moves P i s k (e :: es) t l

theorem Moves.one {i : ι} {s t : σ} {k l : κ} {e : ε} (a : α)
    (moved : P.advance i s k a = some (t, l, e)) : P.Moves i s k [e] t l :=
  .cons a moved .nil

variable [DecidableEq ι]

/-- What one thread does is a run of the pool, in which the other threads wait. -/
theorem Moves.run {i : ι} {s t : σ} {k l : κ} {es : List ε} (moves : P.Moves i s k es t l)
    (thread : ι → κ) :
    ∃ ls, P.run ⟨s, Function.update thread i k⟩ ls =
      some (⟨t, Function.update thread i l⟩, es) := by
  induction moves with
  | nil => exact ⟨[], rfl⟩
  | cons a moved _ ih =>
    obtain ⟨ls, ran⟩ := ih
    exact ⟨(i, a) :: ls, run_thread moved ran⟩

/-! ### Simulation -/

variable {σ' κ' α' ε' ν : Type}

/-- Each step of a thread of `C` is matched by steps of the same thread of `A` that show the same.
`G` relates the shared states and `L` the states of a thread. -/
structure Simulates (C : Program ι σ κ α ε) (A : Program ι σ' κ' α' ε') (see : ε → Option ν)
    (see' : ε' → Option ν) (G : σ → σ' → Prop) (L : κ → κ' → Prop) : Prop where
  matched : ∀ i s k a t l e s' k', G s s' → L k k' → C.advance i s k a = some (t, l, e) →
    ∃ es t' l', A.Moves i s' k' es t' l' ∧ es.filterMap see' = (see e).toList ∧ G t t' ∧ L l l'

/-- A program that is simulated shows in every run what the other program shows in some run. -/
theorem Simulates.run {C : Program ι σ κ α ε} {A : Program ι σ' κ' α' ε'} {see : ε → Option ν}
    {see' : ε' → Option ν} {G : σ → σ' → Prop} {L : κ → κ' → Prop}
    (simulates : Simulates C A see see' G L) {s t : Pool ι σ κ} (s' : Pool ι σ' κ')
    {ls : List (ι × α)} {es : List ε} (shared : G s.shared s'.shared)
    (threads : ∀ i, L (s.thread i) (s'.thread i)) (ran : C.run s ls = some (t, es)) :
    ∃ ls' t' es', A.run s' ls' = some (t', es') ∧ es'.filterMap see' = es.filterMap see ∧
      G t.shared t'.shared ∧ ∀ i, L (t.thread i) (t'.thread i) := by
  refine run_induction (fun es t => ∃ ls' t' es', A.run s' ls' = some (t', es') ∧
    es'.filterMap see' = es.filterMap see ∧ G t.shared t'.shared ∧
      ∀ i, L (t.thread i) (t'.thread i)) ?_ ⟨[], s', [], rfl, rfl, shared, threads⟩ ran
  rintro es t ⟨i, a⟩ u e ⟨ls', t', es', ran', shown, shared, threads⟩ moved
  obtain ⟨after, l, advanced, rfl⟩ := step_eq_some.mp moved
  obtain ⟨more, after', l', moves, shown', shared', local'⟩ :=
    simulates.matched i _ _ a _ _ e _ _ shared (threads i) advanced
  obtain ⟨ls'', ran''⟩ := moves.run t'.thread
  rw [Function.update_eq_self] at ran''
  refine ⟨ls' ++ ls'', _, es' ++ more, run_append ran' ran'', ?_, shared', fun j => ?_⟩
  · rw [List.filterMap_append, List.filterMap_append, shown, shown']
    cases seen : see e <;> simp [seen]
  · by_cases same : j = i
    · subst same
      simpa using local'
    · simpa [same] using threads j

end Program

/-! ### Atomic objects -/

/-- Where a caller of an atomic object stands: it has called nothing, its operation has not taken
effect yet, or it has taken effect with a result. -/
inductive Phase (o r : Type)
  | idle
  | called (op : o)
  | done (result : r)

/-- The steps of a caller. -/
inductive Move (o : Type)
  | call (op : o)
  | perform
  | respond

/-- What is seen of a caller. -/
inductive Sight (o r : Type)
  | invoked (op : o)
  | responded (result : r)

/-- The callers of an object on which an operation acts by `apply`, each with its own operation.
Only calls and responses are seen. -/
def atomicObject {σ o r : Type} (ι : Type) (apply : σ → o → σ × r) :
    Program ι σ (Phase o r) (Move o) (Option (ι × Sight o r)) where
  advance i s phase move :=
    match phase, move with
    | .idle, .call op => some (s, .called op, some (i, .invoked op))
    | .called op, .perform => some ((apply s op).1, .done (apply s op).2, none)
    | .done result, .respond => some (s, .idle, some (i, .responded result))
    | _, _ => none

section

variable {ι σ o r : Type} [DecidableEq ι]

/-- The operations that caller `i` has called. -/
def invocations (i : ι) (seen : List (ι × Sight o r)) : List o :=
  seen.filterMap fun
    | (j, .invoked op) => if j = i then some op else none
    | _ => none

/-- The results that caller `i` has received. -/
def responses (i : ι) (seen : List (ι × Sight o r)) : List r :=
  seen.filterMap fun
    | (j, .responded result) => if j = i then some result else none
    | _ => none

/-- The operations of caller `i` in a history, with their results. -/
def ownPart (i : ι) (history : List (ι × o × r)) : List (o × r) :=
  history.filterMap fun entry => if entry.1 = i then some entry.2 else none

/-- `history` explains what was seen of the callers of an object that starts in state `s`.  Its
results are those of the operations one after the other.  At every moment, a first part of it has
the operations that have taken effect: each caller has called those of them that are its own, and
it has received no result but theirs.  So an operation whose response was seen before the call of
another one stands before it. -/
structure Linearizes (apply : σ → o → σ × r) (s : σ) (seen : List (ι × Sight o r))
    (history : List (ι × o × r)) : Prop where
  legal : history.map Prod.snd = answers apply s (history.map fun entry => entry.2.1)
  within : ∀ before, before <+: seen → ∃ effective, effective <+: history ∧ ∀ i,
    responses i before <+: (ownPart i effective).map Prod.snd ∧
      (ownPart i effective).map Prod.fst <+: invocations i before

/-- How the operations of a caller in the history stand to what was seen of it. -/
def Phase.Explains (own : List (o × r)) (called : List o) (received : List r) :
    Phase o r → Prop
  | .idle => called = own.map Prod.fst ∧ received = own.map Prod.snd
  | .called op => called = own.map Prod.fst ++ [op] ∧ received = own.map Prod.snd
  | .done result => called = own.map Prod.fst ∧ own.map Prod.snd = received ++ [result]

theorem Phase.Explains.within {own : List (o × r)} {called : List o} {received : List r}
    {phase : Phase o r} (explains : phase.Explains own called received) :
    received <+: own.map Prod.snd ∧ own.map Prod.fst <+: called := by
  cases phase with
  | idle =>
    obtain ⟨rfl, rfl⟩ := explains
    exact ⟨List.prefix_refl _, List.prefix_refl _⟩
  | called op =>
    obtain ⟨rfl, rfl⟩ := explains
    exact ⟨List.prefix_refl _, List.prefix_append _ _⟩
  | done result =>
    obtain ⟨rfl, results⟩ := explains
    exact ⟨results ▸ List.prefix_append _ _, List.prefix_refl _⟩

/-- The history that explains a run so far. -/
structure Explained (apply : σ → o → σ × r) (s : σ) (seen : List (ι × Sight o r))
    (history : List (ι × o × r)) (t : Pool ι σ (Phase o r)) : Prop
    extends Linearizes apply s seen history where
  shared : t.shared = after apply s (history.map fun entry => entry.2.1)
  threads : ∀ i, (t.thread i).Explains (ownPart i history) (invocations i seen)
    (responses i seen)

variable {apply : σ → o → σ × r} {s : σ} {seen : List (ι × Sight o r)}
  {history : List (ι × o × r)}

/-- Whatever is seen next, the history so far explains it if it agrees with each thread. -/
theorem Explained.see {t u : Pool ι σ (Phase o r)} {sight : ι × Sight o r}
    (explained : Explained apply s seen history t) (same : u.shared = t.shared)
    (threads : ∀ i, (u.thread i).Explains (ownPart i history) (invocations i (seen ++ [sight]))
      (responses i (seen ++ [sight]))) :
    Explained apply s (seen ++ [sight]) history u where
  legal := explained.legal
  within := by
    intro before early
    rcases List.prefix_concat_iff.mp early with rfl | earlier
    · exact ⟨history, List.prefix_refl history, fun i => (threads i).within⟩
    · exact explained.within before earlier
  shared := same.trans explained.shared
  threads := threads

/-- An operation that takes effect is the next one of the history. -/
theorem Explained.perform {t u : Pool ι σ (Phase o r)} {i : ι} {op : o}
    (explained : Explained apply s seen history t)
    (shared : u.shared = (apply t.shared op).1)
    (threads : ∀ j, (u.thread j).Explains
      (ownPart j (history ++ [(i, op, (apply t.shared op).2)])) (invocations j seen)
      (responses j seen)) :
    Explained apply s seen (history ++ [(i, op, (apply t.shared op).2)]) u where
  legal := by
    rw [List.map_append, List.map_append, answers_append, explained.legal, ← explained.shared]
    rfl
  within := by
    intro before early
    obtain ⟨effective, part, own⟩ := explained.within before early
    exact ⟨effective, part.trans (List.prefix_append _ _), own⟩
  shared := by
    rw [shared, explained.shared, List.map_append, after_append]
    rfl
  threads := threads

theorem Explained.step {t u : Pool ι σ (Phase o r)} {l : ι × Move o}
    {event : Option (ι × Sight o r)} (explained : Explained apply s seen history t)
    (moved : (atomicObject ι apply).step t l = some (u, event)) :
    ∃ history', Explained apply s (seen ++ event.toList) history' u := by
  obtain ⟨i, move⟩ := l
  obtain ⟨shared, phase, advanced, rfl⟩ := Program.step_eq_some.mp moved
  have own := explained.threads i
  generalize before : t.thread i = old at advanced own
  simp only [atomicObject] at advanced
  split at advanced
  · cases advanced
    refine ⟨history, explained.see rfl fun j => ?_⟩
    by_cases same : j = i
    · subst same
      simpa [invocations, responses, Phase.Explains] using own
    · have others := explained.threads j
      simpa [invocations, responses, same, Ne.symm same] using others
  · rename_i op
    cases advanced
    refine ⟨history ++ [(i, op, (apply t.shared op).2)], ?_⟩
    rw [Option.toList_none, List.append_nil]
    refine explained.perform rfl fun j => ?_
    by_cases same : j = i
    · subst same
      simp only [Phase.Explains] at own
      simp [ownPart, Phase.Explains] at own ⊢
      exact ⟨own.1, own.2.symm⟩
    · have others := explained.threads j
      simpa [ownPart, same, Ne.symm same] using others
  · cases advanced
    refine ⟨history, explained.see rfl fun j => ?_⟩
    by_cases same : j = i
    · subst same
      simp only [Phase.Explains] at own
      simp [invocations, responses, Phase.Explains] at own ⊢
      exact ⟨own.1, own.2.symm⟩
    · have others := explained.threads j
      simpa [invocations, responses, same, Ne.symm same] using others
  · cases advanced

/-- What is seen in a run of an atomic object has a history that explains it and that leads to the
state of the object. -/
theorem atomicObject_linearizes {ls : List (ι × Move o)} {t : Pool ι σ (Phase o r)}
    {es : List (Option (ι × Sight o r))}
    (ran : (atomicObject ι apply).run ⟨s, fun _ => .idle⟩ ls = some (t, es)) :
    ∃ history, Linearizes apply s (es.filterMap id) history ∧
      t.shared = after apply s (history.map fun entry => entry.2.1) := by
  suffices h : ∃ history, Explained apply s (es.filterMap id) history t from
    h.imp fun _ explained => ⟨explained.toLinearizes, explained.shared⟩
  refine Program.run_induction (fun es t => ∃ history, Explained apply s (es.filterMap id)
    history t) ?_ ⟨[], ⟨rfl, ?_⟩, rfl, ?_⟩ ran
  · rintro es t l u e ⟨history, explained⟩ moved
    obtain ⟨history', explained'⟩ := explained.step moved
    refine ⟨history', ?_⟩
    rw [List.filterMap_append]
    cases e with
    | none => simpa using explained'
    | some sight => simpa using explained'
  · intro before early
    obtain rfl := List.prefix_nil.mp early
    exact ⟨[], List.prefix_refl [], fun _ => ⟨List.prefix_refl [], List.prefix_refl []⟩⟩
  · exact fun _ => ⟨rfl, rfl⟩

end

end Lib
