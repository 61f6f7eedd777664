import DistributedCache.Core.Capacity
import DistributedCache.Core.Sequential

/-! Progress of concurrent calls.  Wherever the other clients have been interrupted, and whatever
stale totals and victims a call carries, the call returns if its client runs alone from there on,
whatever it reads from the clock. -/

namespace DistributedCache.Core

open Lib

namespace Call

variable {cfg : Config}

/-- The call returns after finitely many steps of its own, whatever it reads from the clock. -/
inductive Finishes : ConcurrentStore cfg → Call cfg → Prop
  | idle {store : ConcurrentStore cfg} : Finishes store idle
  | proceed {store : ConcurrentStore cfg} {call : Call cfg}
      (next : Int → ConcurrentStore cfg × Call cfg × Event) :
      (∀ clock, call.proceed store clock = some (next clock)) →
      (∀ clock, Finishes (next clock).1 (next clock).2.1) → Finishes store call

variable {store store' : ConcurrentStore cfg} {call call' : Call cfg} {event : Event}

/-- A step that does not depend on the clock. -/
theorem Finishes.step (moved : ∀ clock, call.proceed store clock = some (store', call', event))
    (rest : Finishes store' call') : Finishes store call :=
  .proceed (fun _ => (store', call', event)) moved fun _ => rest

/-- A scan of the stripes from `i` on, in either loop. -/
theorem finishes_scan (segment : Bool)
    (scan : Fin cfg.stripeCount → List EvictionCandidate → Call cfg)
    (decision : List EvictionCandidate → Call cfg)
    (steps : ∀ i found clock, (scan i found).proceed store clock = some (store,
      nextStripe i (scan · (found ++ store.scanStripe segment i))
        (decision (found ++ store.scanStripe segment i)), .silent))
    (i : Fin cfg.stripeCount) (found : List EvictionCandidate)
    (rest : Finishes store (decision (found ++
      ((List.finRange cfg.stripeCount).drop i).flatMap (store.scanStripe segment)))) :
    Finishes store (scan i found) := by
  induction rounds : cfg.stripeCount - i.val generalizing i found with
  | zero => exact absurd i.isLt (by omega)
  | succ rounds ih =>
    rw [drop_finRange, List.flatMap_cons, ← List.append_assoc] at rest
    refine .step (steps i found) ?_
    refine nextStripe_cases (P := fun next => Finishes store next) i ?_ ?_
    · intro j follows
      rw [← follows] at rest
      exact ih j _ rest (by omega)
    · intro last
      rw [List.drop_eq_nil_of_le (by simp [last]), List.flatMap_nil, List.append_nil] at rest
      exact rest

/-- The eviction loop, with a victim that its scan may have found long ago, if what follows the
erasure finishes. -/
theorem finishes_evictVictim {segment : Bool} {found : List EvictionCandidate}
    (again : segment = false → Finishes store (evictScan true cfg.firstStripe []))
    (erased : selectVictim found ≠ [] → Finishes (store.evictSection (selectVictim found))
      (evictLoop (store.evictSection (selectVictim found)).totalEntries)) :
    Finishes store (evictVictim segment found) := by
  unfold evictVictim
  split
  · cases segment with
    | false => exact again rfl
    | true => exact .idle
  · rename_i some_victim
    exact .step (fun _ => rfl) (erased some_victim)

/-- The eviction loop of a client that runs alone.  Its first total may be stale. -/
theorem finishes_evictLoop (rep : store.Rep) (total : Nat) : Finishes store (evictLoop total) := by
  induction size : store.totalEntries using Nat.strongRecOn generalizing store total with
  | _ n ih =>
    -- a victim of a scan that nobody interrupts is stored, so its erasure leaves fewer entries
    have fresh : ∀ segment, store.selectVictimKey segment ≠ [] →
        Finishes (store.evictSection (store.selectVictimKey segment))
          (evictLoop (store.evictSection (store.selectVictimKey segment)).totalEntries) := by
      intro segment some_victim
      obtain ⟨entry, found, -⟩ := ConcurrentStore.selectVictimKey_find rep some_victim
      have fewer := ConcurrentStore.evictSection_totalEntries_lt rep found
      exact ih _ (size ▸ fewer) (rep.evictSection _) _ rfl
    unfold evictLoop
    split
    · have protectedScan : Finishes store (evictScan true cfg.firstStripe []) :=
        finishes_scan true (evictScan true) (evictVictim true) (fun _ _ _ => rfl) _ _
          (finishes_evictVictim nofun (fresh true))
      exact finishes_scan false (evictScan false) (evictVictim false) (fun _ _ _ => rfl) _ _
        (finishes_evictVictim (fun _ => protectedScan) (fresh false))
    · exact .idle

/-- A scan of the eviction loop that was interrupted. -/
theorem finishes_evictScan (rep : store.Rep) (segment : Bool) (i : Fin cfg.stripeCount)
    (found : List EvictionCandidate) : Finishes store (evictScan segment i found) := by
  have erased : ∀ found : List EvictionCandidate,
      Finishes (store.evictSection (selectVictim found))
        (evictLoop (store.evictSection (selectVictim found)).totalEntries) :=
    fun found => finishes_evictLoop (rep.evictSection _) _
  refine finishes_scan segment (evictScan segment) (evictVictim segment) (fun _ _ _ => rfl) _ _
    (finishes_evictVictim (fun _ => ?_) fun _ => erased _)
  exact finishes_scan true (evictScan true) (evictVictim true) (fun _ _ _ => rfl) _ _
    (finishes_evictVictim nofun fun _ => erased _)

/-- The demotion loop of a client that runs alone.  Its first counters may be stale. -/
theorem finishes_demoteLoop (rep : store.Rep) (total prot : Nat) :
    Finishes store (demoteLoop total prot) := by
  induction size : store.protectedEntries using Nat.strongRecOn generalizing store total prot with
  | _ n ih =>
    unfold demoteLoop
    split
    · refine finishes_scan true (demoteScan total) (demoteVictim total) (fun _ _ _ => rfl) _ _ ?_
      show Finishes store (if store.selectVictimKey true = [] then evictLoop total
        else demote (store.selectVictimKey true))
      split
      · exact finishes_evictLoop rep total
      · rename_i some_victim
        obtain ⟨entry, found, segment⟩ := ConcurrentStore.selectVictimKey_find rep some_victim
        have fewer := ConcurrentStore.demoteSection_protectedEntries_lt rep found segment
        exact .step (fun _ => rfl) (ih _ (size ▸ fewer) (rep.demoteSection _) _ _ rfl)
    · exact finishes_evictLoop rep total

theorem finishes_reloadTotal (rep : store.Rep) : Finishes store reloadTotal := by
  refine .step (fun _ => rfl) ?_
  split
  · exact .idle
  · exact .step (fun _ => rfl) (finishes_demoteLoop rep _ _)

theorem finishes_sweep (rep : store.Rep) (now : Int) (i : Fin cfg.stripeCount) :
    Finishes store (sweep now i) := by
  induction rounds : cfg.stripeCount - i.val generalizing i store with
  | zero => exact absurd i.isLt (by omega)
  | succ rounds ih =>
    have swept := rep.sweepStripe now i
    refine .step (fun _ => rfl) ?_
    refine nextStripe_cases (P := fun next => Finishes _ next) i ?_ ?_
    · exact fun j follows => ih swept j (by omega)
    · exact fun _ => finishes_reloadTotal swept

theorem finishes_loadTotal (rep : store.Rep) : Finishes store loadTotal := by
  refine .proceed _ (fun _ => rfl) fun clock => ?_
  dsimp only
  split
  · exact .idle
  · exact finishes_sweep rep clock cfg.firstStripe

/-- Every call on a store that keeps its representation invariant returns. -/
theorem finishes (rep : store.Rep) (call : Call cfg) : Finishes store call := by
  cases call with
  | idle => exact .idle
  | setSection key value expiresAt now =>
    refine .step (fun _ => rfl) ?_
    unfold enforceCapacity
    split
    · exact .idle
    · exact finishes_loadTotal (rep.setSection key value expiresAt now)
  | loadTotal => exact finishes_loadTotal rep
  | sweep now i => exact finishes_sweep rep now i
  | reloadTotal => exact finishes_reloadTotal rep
  | loadProtected total => exact .step (fun _ => rfl) (finishes_demoteLoop rep _ _)
  | demoteScan total i found =>
    refine finishes_scan true (demoteScan total) (demoteVictim total) (fun _ _ _ => rfl) _ _ ?_
    unfold demoteVictim
    split
    · exact finishes_evictLoop rep total
    · exact .step (fun _ => rfl) (finishes_demoteLoop (rep.demoteSection _) _ _)
  | demote victim =>
    exact .step (fun _ => rfl) (finishes_demoteLoop (rep.demoteSection victim) _ _)
  | evictScan segment i found => exact finishes_evictScan rep segment i found
  | evict victim => exact .step (fun _ => rfl) (finishes_evictLoop (rep.evictSection victim) _)
  | getShared key =>
    cases absent : store.find key with
    | none => exact .step (fun clock => by simp only [Call.proceed, absent]; rfl) .idle
    | some entry =>
      refine .proceed (fun clock => (store, getExclusive key, .looked key clock))
        (fun clock => by simp only [Call.proceed, absent]) fun clock => ?_
      exact .proceed _ (fun _ => rfl) fun _ => .idle
  | getExclusive key => exact .proceed _ (fun _ => rfl) fun _ => .idle

/-- The steps of client `i` alone at the readings `clock 0`, `clock 1`, and so on. -/
def solo {ι : Type} (i : ι) (clock : Nat → Int) (n : Nat) : List (ι × Action) :=
  (List.range n).map fun j => (i, .proceed (clock j))

/-- A call that finishes is a run of its client alone. -/
theorem Finishes.run {ι : Type} [DecidableEq ι] (finishes : Finishes store call) (i : ι)
    (thread : ι → Call cfg) (clock : Nat → Int) :
    ∃ n after events, (clients ι cfg).run ⟨store, Function.update thread i call⟩
      (solo i clock n) = some (⟨after, Function.update thread i Call.idle⟩, events) := by
  induction finishes generalizing clock with
  | idle => exact ⟨0, _, [], rfl⟩
  | proceed next moved _ ih =>
    obtain ⟨n, after, events, ran⟩ := ih (clock 0) fun j => clock (j + 1)
    refine ⟨n + 1, after, (next (clock 0)).2.2 :: events, ?_⟩
    rw [solo, List.range_succ_eq_map, List.map_cons, List.map_map]
    exact Program.run_thread (moved (clock 0)) ran

/-! ### Steps of a `Set` -/

/-- A `Set` is in progress, or no call. -/
def Setting (call : Call cfg) : Prop := call = idle ∨ call.inSet = true

theorem evictLoop_setting (total : Nat) : Setting (evictLoop total : Call cfg) := by
  unfold evictLoop
  split
  · exact .inr rfl
  · exact .inl rfl

theorem demoteLoop_setting (total prot : Nat) :
    Setting (demoteLoop total prot : Call cfg) := by
  unfold demoteLoop
  split
  · exact .inr rfl
  · exact evictLoop_setting total

theorem proceed_setting {call call' : Call cfg} {store store' : ConcurrentStore cfg} {clock : Int}
    {event : Event} (inSet : call.inSet = true)
    (moved : call.proceed store clock = some (store', call', event)) :
    Setting call' ∧ ∀ key reading result, event ≠ .returned key reading result := by
  cases call with
  | idle | getShared | getExclusive => cases inSet
  | setSection key value expiresAt now =>
    cases moved
    refine ⟨?_, nofun⟩
    unfold enforceCapacity
    split
    · exact .inl rfl
    · exact .inr rfl
  | loadTotal | reloadTotal =>
    cases moved
    refine ⟨?_, nofun⟩
    split
    · exact .inl rfl
    · exact .inr rfl
  | sweep now i =>
    cases moved
    exact ⟨nextStripe_cases i (fun _ _ => .inr rfl) fun _ => .inr rfl, nofun⟩
  | loadProtected total =>
    cases moved
    exact ⟨demoteLoop_setting _ _, nofun⟩
  | demote victim =>
    cases moved
    exact ⟨demoteLoop_setting _ _, nofun⟩
  | evict victim =>
    cases moved
    exact ⟨evictLoop_setting _, nofun⟩
  | demoteScan total i found =>
    cases moved
    refine ⟨nextStripe_cases i (fun _ _ => .inr rfl) fun _ => ?_, nofun⟩
    unfold demoteVictim
    split
    · exact evictLoop_setting total
    · exact .inr rfl
  | evictScan segment i found =>
    cases moved
    refine ⟨nextStripe_cases i (fun _ _ => .inr rfl) fun _ => ?_, nofun⟩
    unfold evictVictim
    split
    · split
      · exact .inl rfl
      · exact .inr rfl
    · exact .inr rfl

end Call

/-- From every state that concurrent calls can reach, each call in progress returns if its client
runs alone, whatever it reads from the clock.  The other clients stay where they are: no call waits
for another one, and none is caught in the loops of `EnforceCapacity`. -/
theorem solo_returns {ι : Type} [DecidableEq ι] (cfg : Config) {schedule : List (ι × Action)}
    {reached : Pool ι (ConcurrentStore cfg) (Call cfg)} {events : List Event}
    (ran : (clients ι cfg).run (start ι cfg) schedule = some (reached, events)) (i : ι)
    (clock : Nat → Int) :
    ∃ n after shown, (clients ι cfg).run reached (Call.solo i clock n) =
      some (⟨after, Function.update reached.thread i .idle⟩, shown) := by
  have rep : reached.shared.Rep := Program.run_invariant (fun _ => True) (fun s => s.shared.Rep)
    (fun s l t e rep _ moved => by
      obtain ⟨shared, k, advanced, rfl⟩ := Program.step_eq_some.mp moved
      exact Call.advance_rep rep advanced)
    (ConcurrentStore.new_rep cfg) ran fun _ _ => trivial
  have alone := (Call.finishes rep (reached.thread i)).run i reached.thread clock
  rwa [Function.update_eq_self] at alone

/-- Both clients choose the same victim, and one of them evicts it before the other. -/
def staleVictim : List (Bool × Action) :=
  [(false, .callSet (ascii "a") (ascii "x") none 0 0), (false, .proceed 0), (false, .proceed 0),
    (false, .callSet (ascii "b") (ascii "y") none 1 1), (true, .callSet (ascii "c") [] none 2 2)] ++
    (List.replicate 8 [(false, .proceed 3), (true, .proceed 3)]).flatten ++ [(true, .proceed 4)]

theorem staleVictim_returns : ∃ reached events,
    (clients Bool tightConfig).run (start Bool tightConfig) staleVictim = some (reached, events) ∧
      ∃ n after shown, (clients Bool tightConfig).run reached (Call.solo false (fun j => j) n) =
        some (⟨after, Function.update reached.thread false .idle⟩, shown) := by
  have ran : ((clients Bool tightConfig).run (start Bool tightConfig) staleVictim).isSome =
    true := by decide +kernel
  exact ⟨_, _, (Option.some_get ran).symm,
    solo_returns tightConfig (Option.some_get ran).symm false fun j => j⟩

end DistributedCache.Core
