import DistributedCache.Core.Replacement

/-! Sequential runs of the store: calls of `Set` and `Get` one after the other, each with the
readings of the clock that it makes, while an iteration may find the entries of a stripe in any
order. -/

namespace DistributedCache.Core

open Lib

/-- A call with its readings of the clock, in order. -/
abbrev TimedCall := Request × (Nat → Int)

def Request.key : Request → Bytes
  | set key _ _ => key
  | get key => key

/-- The reading for `last_touch_ns` in a `Set`. -/
def writtenAt (clock : Nat → Int) (ttl : Option Int) : Int := clock (if ttl.isSome then 1 else 0)

/-- The reading for the sweep in a `Set`. -/
def sweptAt (clock : Nat → Int) (ttl : Option Int) : Int := clock (if ttl.isSome then 2 else 1)

/-- The store after the section of a `Set` that reads `clock`. -/
def ConcurrentStore.written {cfg : Config} (store : ConcurrentStore cfg) (key value : Bytes)
    (ttl : Option Int) (clock : Nat → Int) : ConcurrentStore cfg :=
  store.setSection key value (ttl.map (addMilliseconds (clock 0))) (writtenAt clock ttl)

/-- The entry that a `Set` inserts for a new key. -/
def inserted (key value : Bytes) (ttl : Option Int) (clock : Nat → Int) : Entry :=
  ⟨key, ⟨value, ttl.map (addMilliseconds (clock 0)), 1, toNs (writtenAt clock ttl), false⟩⟩

/-- What a `Set` leaves at its key before it enforces the capacity. -/
theorem ConcurrentStore.find_written {cfg : Config} {store : ConcurrentStore cfg}
    {key value : Bytes} {ttl : Option Int} {clock : Nat → Int} {entry : ValueEntry}
    (found : (store.written key value ttl clock).find key = some entry) :
    entry.value = value ∧ entry.expiresAt = ttl.map (addMilliseconds (clock 0)) ∧
      entry.lastTouchNs = toNs (writtenAt clock ttl) := by
  unfold written setSection at found
  split at found
  · rw [find_touch_self] at found
    cases found
    simp
  · change (store.put key _).find key = _ at found
    rw [find_put_self] at found
    cases found
    simp

/-- A run of the calls, from one store to another, with the readings of the clock that the calls
make, and the results of the `Get`s. -/
inductive Run {cfg : Config} : ConcurrentStore cfg → List TimedCall → ConcurrentStore cfg →
    List Int → List (Option Bytes) → Prop
  | nil (store : ConcurrentStore cfg) : Run store [] store [] []
  | cons {store middle after : ConcurrentStore cfg} {m : Nat} {request : Request}
      {clock : Nat → Int} {calls : List TimedCall} {made : List Int}
      {results rest : List (Option Bytes)} :
      (request.call clock 0).Serves clock store (0 + request.readings) middle m results →
      Run middle calls after made rest →
      Run store ((request, clock) :: calls) after ((List.range m).map clock ++ made)
        (results ++ rest)

/-- The calls of a caller that runs alone. -/
def ConcurrentStore.runAll {cfg : Config} (store : ConcurrentStore cfg) :
    List TimedCall → Option (ConcurrentStore cfg × List Int × List (Option Bytes))
  | [] => some (store, [], [])
  | call :: calls =>
    (store.serve call.2 0 call.1).bind fun reply =>
      (reply.1.runAll calls).map fun r =>
        (r.1, (List.range reply.2.1).map call.2 ++ r.2.1, reply.2.2 ++ r.2.2)

namespace Run

variable {cfg : Config} {store middle after : ConcurrentStore cfg}
  {calls front back : List TimedCall} {made : List Int} {results : List (Option Bytes)}

/-- A call does what a caller that runs alone does, up to the order of the entries. -/
theorem served {request : Request} {clock : Nat → Int} {m : Nat} (rep : store.Rep)
    (serves : (request.call clock 0).Serves clock store (0 + request.readings) after m results) :
    ∃ reply, store.serve clock 0 request = some reply ∧ after.Agree reply.1 ∧
      reply.2 = (m, results) := by
  obtain ⟨reply, ends, -⟩ := Session.serve_total rep clock 0 request
  obtain ⟨agree, same⟩ :=
    serves.agree rfl rep (Call.expects_call ⟨rep, rep, fun _ => rfl⟩ ends)
  exact ⟨reply, ends, agree, same⟩

theorem rep (run : Run store calls after made results) (start : store.Rep) : after.Rep := by
  induction run with
  | nil => exact start
  | cons serves _ ih =>
    obtain ⟨reply, -, agree, -⟩ := served start serves
    exact ih agree.rep

/-- What a caller that runs alone does is a run. -/
theorem of_runAll (ends : store.runAll calls = some (after, made, results)) :
    Run store calls after made results := by
  induction calls generalizing store made results with
  | nil =>
    cases ends
    exact .nil _
  | cons call calls ih =>
    obtain ⟨reply, served, rest⟩ := Option.bind_eq_some_iff.mp ends
    obtain ⟨⟨after', made', results'⟩, ran, same⟩ := Option.map_eq_some_iff.mp rest
    cases same
    exact .cons (Call.serves_call served) (ih ran)

theorem total (rep : store.Rep) (calls : List TimedCall) :
    ∃ after made results, Run store calls after made results := by
  induction calls generalizing store with
  | nil => exact ⟨store, [], [], .nil store⟩
  | cons call calls ih =>
    obtain ⟨reply, ends, rep'⟩ := Session.serve_total rep call.2 0 call.1
    obtain ⟨after, made, results, run⟩ := ih rep'
    exact ⟨after, _, _, .cons (Call.serves_call ends) run⟩

theorem append {made' : List Int} {results' : List (Option Bytes)}
    (run : Run store front middle made results) (rest : Run middle back after made' results') :
    Run store (front ++ back) after (made ++ made') (results ++ results') := by
  induction run with
  | nil => exact rest
  | cons serves _ ih =>
    rw [List.append_assoc, List.append_assoc]
    exact .cons serves (ih rest)

theorem split (run : Run store (front ++ back) after made results) :
    ∃ middle earlier later first second, Run store front middle earlier first ∧
      Run middle back after later second ∧ made = earlier ++ later ∧ results = first ++ second := by
  induction front generalizing store made results with
  | nil => exact ⟨store, [], made, [], results, .nil store, run, rfl, rfl⟩
  | cons call front ih =>
    cases run with
    | cons serves rest =>
      obtain ⟨middle, earlier, later, first, second, before, behind, rfl, rfl⟩ := ih rest
      exact ⟨middle, _, later, _, second, .cons serves before, behind,
        by rw [List.append_assoc], by rw [List.append_assoc]⟩

/-- What one call keeps, every run keeps. -/
theorem invariant (I : ConcurrentStore cfg → Prop) (good : TimedCall → Prop)
    (next : ∀ store call after made results, store.Rep → I store → good call →
      Run store [call] after made results → I after)
    (run : Run store calls after made results) (rep : store.Rep) (start : I store)
    (all : ∀ call ∈ calls, good call) : I after := by
  induction run with
  | nil => exact start
  | @cons store middle after m request clock calls made results rest serves _ ih =>
    have first : Run store [(request, clock)] middle _ _ := .cons serves (.nil middle)
    refine ih (first.rep rep) (next _ _ _ _ _ rep start (all _ List.mem_cons_self) first) ?_
    exact fun call member => all call (List.mem_cons_of_mem _ member)

theorem mem_made {clock : Nat → Int} {i m : Nat} (early : i < m) (rest : List Int) :
    clock i ∈ (List.range m).map clock ++ rest :=
  List.mem_append_left _ (List.mem_map_of_mem (List.mem_range.mpr early))

/-- What a `Set` does. -/
theorem set {key value : Bytes} {ttl : Option Int} {clock : Nat → Int} (rep : store.Rep)
    (run : Run store [(.set key value ttl, clock)] after made results) :
    results = [] ∧ writtenAt clock ttl ∈ made ∧ ∃ next,
      (store.written key value ttl clock).enforceCapacity (sweptAt clock ttl) = some next ∧
        after.Agree next := by
  cases run with
  | cons serves rest =>
    cases rest
    obtain ⟨reply, ends, agree, same⟩ := served rep serves
    cases ttl with
    | none =>
      obtain ⟨next, enforced, rfl⟩ := Option.map_eq_some_iff.mp ends
      cases same
      exact ⟨rfl, mem_made (i := 0) (by omega) _, next, enforced, agree⟩
    | some ttl =>
      obtain ⟨next, enforced, rfl⟩ := Option.map_eq_some_iff.mp ends
      cases same
      exact ⟨rfl, mem_made (i := 1) (by omega) _, next, enforced, agree⟩

/-- What a `Get` does. -/
theorem get {key : Bytes} {clock : Nat → Int} (rep : store.Rep)
    (run : Run store [(.get key, clock)] after made results) :
    after.Agree (store.getSection key (clock 1)).1 ∧
      results = [(store.getSection key (clock 1)).2] ∧
      (store.find key = none ∨ clock 1 ∈ made) := by
  cases run with
  | cons serves rest =>
    cases rest
    obtain ⟨reply, ends, agree, same⟩ := served rep serves
    rw [ConcurrentStore.serve] at ends
    split at ends
    · rename_i absent
      cases ends
      cases same
      have unchanged : store.getSection key (clock 1) = (store, none) := by
        rw [ConcurrentStore.getSection, absent]
      rw [unchanged]
      exact ⟨agree, rfl, .inl absent⟩
    · cases ends
      cases same
      exact ⟨agree, rfl, .inr (mem_made (by omega) _)⟩

end Run

end DistributedCache.Core
