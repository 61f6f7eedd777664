import DistributedCache.Core.Agreement
import DistributedCache.Core.History

/-! A client that calls `Set` and `Get` one after the other, while an iteration may find the entries
of a stripe in any order.  What the client gets does not depend on the number of stripes, the hash
function, or these orders. -/

namespace DistributedCache.Core

open Lib

/-- A call of the store. -/
inductive Request
  | set (key value : Bytes) (ttl : Option Int)
  | get (key : Bytes)
deriving DecidableEq, Repr

/-- The result that a step shows, if the step ends a `Get`. -/
def Event.results : Event → List (Option Bytes)
  | returned _ _ result => [result]
  | _ => []

namespace Call

variable {cfg : Config}

/-- How often the next step of the call reads the clock. -/
def readings (store : ConcurrentStore cfg) : Call cfg → Nat
  | loadTotal => if store.totalEntries ≤ cfg.maxEntries then 0 else 1
  | getShared key | getExclusive key => if (store.find key).isSome then 1 else 0
  | _ => 0

/-- A call runs to its end, from reading `n` of the clock to reading `m`.  The stripes may be
reordered before each step. -/
inductive Serves (clock : Nat → Int) :
    ConcurrentStore cfg → Call cfg → Nat → ConcurrentStore cfg → Nat → List (Option Bytes) → Prop
  | done {store : ConcurrentStore cfg} {n : Nat} : Serves clock store idle n store n []
  | reorder {store after : ConcurrentStore cfg} {call : Call cfg} {n m : Nat}
      {results : List (Option Bytes)} {i : Fin cfg.stripeCount} {map : Stripe} :
      map.entries.Perm (store.stripes i).entries →
      Serves clock { store with stripes := Function.update store.stripes i map } call n after m
        results →
      Serves clock store call n after m results
  | proceed {store next after : ConcurrentStore cfg} {call call' : Call cfg} {event : Event}
      {n m : Nat} {results : List (Option Bytes)} :
      call.proceed store (clock n) = some (next, call', event) →
      Serves clock next call' (n + call.readings store) after m results →
      Serves clock store call n after m (event.results ++ results)

end Call

/-- How often a request reads the clock before its first step. -/
def Request.readings : Request → Nat
  | set _ _ none => 1
  | set _ _ (some _) => 2
  | get _ => 0

/-- The first step of a request that begins at reading `n` of the clock. -/
def Request.call {cfg : Config} (clock : Nat → Int) (n : Nat) : Request → Call cfg
  | set key value none => .setSection key value none (clock n)
  | set key value (some ttl) =>
    .setSection key value (some (addMilliseconds (clock n) ttl)) (clock (n + 1))
  | get key => .getShared key

/-- A client that makes the requests in order, and the results of its `Get`s. -/
inductive Session {cfg : Config} (clock : Nat → Int) :
    ConcurrentStore cfg → Nat → List Request → List (Option Bytes) → Prop
  | nil {store : ConcurrentStore cfg} {n : Nat} : Session clock store n [] []
  | cons {store after : ConcurrentStore cfg} {n m : Nat} {request : Request}
      {requests : List Request} {results rest : List (Option Bytes)} :
      (request.call clock n).Serves clock store (n + request.readings) after m results →
      Session clock after m requests rest →
      Session clock store n (request :: requests) (results ++ rest)

/-! ### The calls of a caller that runs alone -/

/-- The store, the next reading of the clock, and the results after a call. -/
abbrev Reply (cfg : Config) := ConcurrentStore cfg × Nat × List (Option Bytes)

namespace ConcurrentStore

variable {cfg : Config}

/-- `EnforceCapacity` reads the clock if the store is too full. -/
def enforce (store : ConcurrentStore cfg) (clock : Nat → Int) (n : Nat) : Option (Reply cfg) :=
  (store.enforceCapacity (clock n)).map fun after =>
    (after, n + (if cfg.maxEntries = 0 ∨ store.totalEntries ≤ cfg.maxEntries then 0 else 1), [])

/-- The reply to a request. -/
def serve (store : ConcurrentStore cfg) (clock : Nat → Int) (n : Nat) :
    Request → Option (Reply cfg)
  | .set key value none => (store.setSection key value none (clock n)).enforce clock (n + 1)
  | .set key value (some ttl) =>
    (store.setSection key value (some (addMilliseconds (clock n) ttl)) (clock (n + 1))).enforce
      clock (n + 2)
  | .get key =>
    match store.find key with
    | none => some (store, n, [none])
    | some _ =>
      let read := store.getSection key (clock (n + 1))
      some (read.1, n + 2, [read.2])

/-- The results of requests. -/
def serveAll (clock : Nat → Int) :
    ConcurrentStore cfg → Nat → List Request → Option (List (Option Bytes))
  | _, _, [] => some []
  | store, n, request :: requests =>
    (store.serve clock n request).bind fun reply =>
      (serveAll clock reply.1 reply.2.1 requests).map (reply.2.2 ++ ·)

/-- The eviction loop, from its test on. -/
def Evicts (store : ConcurrentStore cfg) (total : Nat) (after : ConcurrentStore cfg) : Prop :=
  ∃ fuel, evictLoop fuel store total = some after

/-- The eviction loop, from its choice of a victim on. -/
def EvictsVictim (store after : ConcurrentStore cfg) : Prop :=
  let unprotected := store.selectVictimKey false
  let victim := if unprotected = [] then store.selectVictimKey true else unprotected
  if victim = [] then after = store
  else (store.evictSection victim).Evicts (store.evictSection victim).totalEntries after

theorem Evicts.cases {store after : ConcurrentStore cfg} {total : Nat}
    (evicts : store.Evicts total after) :
    (¬cfg.maxEntries < total ∧ after = store) ∨
      (cfg.maxEntries < total ∧ store.EvictsVictim after) := by
  obtain ⟨fuel, ends⟩ := evicts
  cases fuel with
  | zero => cases ends
  | succ fuel =>
    rw [evictLoop] at ends
    dsimp only at ends
    split at ends
    · rename_i full
      refine .inr ⟨full, ?_⟩
      unfold EvictsVictim
      dsimp only
      generalize (if store.selectVictimKey false = [] then store.selectVictimKey true
        else store.selectVictimKey false) = victim at ends ⊢
      split at ends
      · rename_i empty
        cases ends
        rw [if_pos empty]
      · rename_i nonempty
        rw [if_neg nonempty]
        exact ⟨fuel, ends⟩
    · rename_i room
      cases ends
      exact .inl ⟨room, rfl⟩

/-- The demotion loop, from its test on, and the eviction loop. -/
def Demotes (store : ConcurrentStore cfg) (total prot : Nat) (after : ConcurrentStore cfg) : Prop :=
  ∃ fuel demoted total', demoteLoop fuel store total prot = some (demoted, total') ∧
    demoted.Evicts total' after

/-- The demotion loop, from its choice of a victim on. -/
def DemotesVictim (store : ConcurrentStore cfg) (total : Nat) (after : ConcurrentStore cfg) :
    Prop :=
  let victim := store.selectVictimKey true
  if victim = [] then store.Evicts total after
  else (store.demoteSection victim).Demotes (store.demoteSection victim).totalEntries
    (store.demoteSection victim).protectedEntries after

theorem Demotes.cases {store after : ConcurrentStore cfg} {total prot : Nat}
    (demotes : store.Demotes total prot after) :
    (¬(cfg.maxEntries < total ∧ cfg.protectedEntriesLimit < prot) ∧ store.Evicts total after) ∨
      ((cfg.maxEntries < total ∧ cfg.protectedEntriesLimit < prot) ∧
        store.DemotesVictim total after) := by
  obtain ⟨fuel, demoted, total', ends, evicts⟩ := demotes
  cases fuel with
  | zero => cases ends
  | succ fuel =>
    rw [demoteLoop] at ends
    dsimp only at ends
    split at ends
    · rename_i full
      refine .inr ⟨full, ?_⟩
      unfold DemotesVictim
      dsimp only
      split at ends
      · rename_i empty
        cases ends
        rwa [if_pos empty]
      · rename_i nonempty
        rw [if_neg nonempty]
        exact ⟨fuel, demoted, total', ends, evicts⟩
    · rename_i room
      cases ends
      exact .inl ⟨room, evicts⟩

/-- `EnforceCapacity`, after its sweep. -/
def Trims (store after : ConcurrentStore cfg) : Prop :=
  if store.totalEntries ≤ cfg.maxEntries then after = store
  else store.Demotes store.totalEntries store.protectedEntries after

theorem trims_of_enforceCapacity {store after : ConcurrentStore cfg} {now : Int}
    (bounded : cfg.maxEntries ≠ 0) (full : ¬store.totalEntries ≤ cfg.maxEntries)
    (ends : store.enforceCapacity now = some after) :
    ((List.finRange cfg.stripeCount).foldl (sweepStripe now) store).Trims after := by
  rw [enforceCapacity, if_neg bounded, if_neg full] at ends
  dsimp only at ends
  unfold Trims
  split at ends
  · rename_i room
    cases ends
    rw [if_pos room]
  · rename_i still
    obtain ⟨⟨demoted, total⟩, demotes, evicts⟩ := Option.bind_eq_some_iff.mp ends
    rw [if_neg still]
    exact ⟨_, demoted, total, demotes, _, evicts⟩

end ConcurrentStore

/-! ### The steps of a call follow the caller that runs alone -/

namespace Call

variable {cfg cfg' : Config}

/-- What the rest of a call leads to from a store with the content that the call has reached. -/
def Resumes (clock : Nat → Int) (store : ConcurrentStore cfg') (n : Nat) (reply : Reply cfg') :
    Call cfg → Prop
  | idle => reply = (store, n, [])
  | setSection key value expiresAt now =>
    (store.setSection key value expiresAt now).enforce clock n = some reply
  | loadTotal => cfg'.maxEntries ≠ 0 ∧ store.enforce clock n = some reply
  | sweep _ _ | reloadTotal => store.Trims reply.1 ∧ reply.2 = (n, [])
  | loadProtected total =>
    store.Demotes total store.protectedEntries reply.1 ∧ reply.2 = (n, [])
  | demoteScan total _ _ => store.DemotesVictim total reply.1 ∧ reply.2 = (n, [])
  | demote victim =>
    (store.demoteSection victim).Demotes (store.demoteSection victim).totalEntries
      (store.demoteSection victim).protectedEntries reply.1 ∧ reply.2 = (n, [])
  | evictScan segment _ _ =>
    (store.EvictsVictim reply.1 ∧ reply.2 = (n, [])) ∧
      (segment = true → store.selectVictimKey false = [])
  | evict victim =>
    (store.evictSection victim).Evicts (store.evictSection victim).totalEntries reply.1 ∧
      reply.2 = (n, [])
  | getShared key => store.serve clock n (.get key) = some reply
  | getExclusive key =>
    (store.find key).isSome ∧
      reply = ((store.getSection key (clock n)).1, n + 1, [(store.getSection key (clock n)).2])

/-- The store with the stripes swept that a sweep in progress has still to visit. -/
def pending (store : ConcurrentStore cfg) : Call cfg → ConcurrentStore cfg
  | sweep now i =>
    ((List.finRange cfg.stripeCount).drop i).foldl (ConcurrentStore.sweepStripe now) store
  | _ => store

/-- What a scan has found and what it will find in the stripes from `i` on are all candidates. -/
def Gathers (store : ConcurrentStore cfg) (segment : Bool) (i : Nat)
    (found : List EvictionCandidate) : Prop :=
  ∀ c, c ∈ found ∨ (store.Candidate segment c ∧ i ≤ cfg.stripeIndexForKey c.key) ↔
    store.Candidate segment c

def Gathered (store : ConcurrentStore cfg) : Call cfg → Prop
  | demoteScan _ i found => Gathers store true i found
  | evictScan segment i found => Gathers store segment i found
  | _ => True

/-- The call leads to the reply, with the content of a store of the other configuration. -/
def Expects (clock : Nat → Int) (reply : Reply cfg') (store : ConcurrentStore cfg) (n : Nat)
    (call : Call cfg) : Prop :=
  ∃ store' : ConcurrentStore cfg', (call.pending store).Agree store' ∧ call.Gathered store ∧
    call.Resumes clock store' n reply

section

variable {store : ConcurrentStore cfg} {store' : ConcurrentStore cfg'} {segment : Bool}
  {found : List EvictionCandidate} {clock : Nat → Int} {n : Nat} {reply : Reply cfg'}

theorem Gathers.start : Gathers store segment cfg.firstStripe [] := by
  intro c
  simp [Config.firstStripe]

theorem Gathers.scan (rep : store.Rep) {i : Fin cfg.stripeCount}
    (gathers : Gathers store segment i found) :
    Gathers store segment (i + 1) (found ++ store.scanStripe segment i) := by
  intro c
  refine Iff.trans ?_ (gathers c)
  rw [List.mem_append, rep.mem_scanStripe, Fin.ext_iff]
  constructor
  · rintro ((before | ⟨candidate, here⟩) | ⟨candidate, later⟩)
    · exact .inl before
    · exact .inr ⟨candidate, by omega⟩
    · exact .inr ⟨candidate, by omega⟩
  · rintro (before | ⟨candidate, later⟩)
    · exact .inl (.inl before)
    · by_cases here : (cfg.stripeIndexForKey c.key).val = i
      · exact .inl (.inr ⟨candidate, here⟩)
      · exact .inr ⟨candidate, by omega⟩

theorem Gathers.last {i : Nat} (gathers : Gathers store segment i found)
    (ended : cfg.stripeCount ≤ i) (c : EvictionCandidate) :
    c ∈ found ↔ store.Candidate segment c := by
  rw [← gathers c]
  have below := (cfg.stripeIndexForKey c.key).isLt
  exact ⟨.inl, fun either => either.resolve_right fun later => by omega⟩

/-- A scan goes on to the next stripe, or decides with all candidates. -/
theorem expects_scan (rep : store.Rep) {i : Fin cfg.stripeCount}
    {scan : Fin cfg.stripeCount → Call cfg} {decision : Call cfg}
    (gathers : Gathers store segment i found)
    (more : ∀ j : Fin cfg.stripeCount,
      Gathers store segment j (found ++ store.scanStripe segment i) →
      (scan j).Expects clock reply store n)
    (done : (∀ c, c ∈ found ++ store.scanStripe segment i ↔ store.Candidate segment c) →
      decision.Expects clock reply store n) :
    (nextStripe i scan decision).Expects clock reply store n := by
  have scanned := gathers.scan rep
  refine @nextStripe_cases _ (fun call => call.Expects clock reply store n) i _ _ ?_ ?_
  · intro j follows
    exact more j (follows ▸ scanned)
  · intro last
    exact done (scanned.last last.ge)

variable (limit : cfg.maxEntries = cfg'.maxEntries)
include limit

theorem expects_evictLoop (agree : store.Agree store') {total : Nat}
    (evicts : store'.Evicts total reply.1 ∧ reply.2 = (n, [])) :
    (evictLoop total : Call cfg).Expects clock reply store n := by
  unfold evictLoop
  rw [limit]
  rcases evicts.1.cases with ⟨room, done⟩ | ⟨full, evicts'⟩
  · rw [if_neg room]
    exact ⟨store', agree, trivial, Prod.ext done evicts.2⟩
  · rw [if_pos full]
    exact ⟨store', agree, .start, ⟨evicts', evicts.2⟩, by simp⟩

theorem expects_demoteLoop (agree : store.Agree store') {total prot : Nat}
    (demotes : store'.Demotes total prot reply.1 ∧ reply.2 = (n, [])) :
    (demoteLoop total prot : Call cfg).Expects clock reply store n := by
  have limits : cfg.protectedEntriesLimit = cfg'.protectedEntriesLimit := by
    rw [Config.protectedEntriesLimit, Config.protectedEntriesLimit, limit]
  unfold demoteLoop
  rw [limits]
  rcases demotes.1.cases with ⟨room, evicts⟩ | ⟨full, demotes'⟩
  · rw [limit, if_neg room]
    exact expects_evictLoop limit agree ⟨evicts, demotes.2⟩
  · rw [limit, if_pos full]
    exact ⟨store', agree, .start, demotes', demotes.2⟩

theorem expects_demoteVictim (agree : store.Agree store') {total : Nat}
    (all : ∀ c, c ∈ found ↔ store.Candidate true c)
    (demotes : store'.DemotesVictim total reply.1 ∧ reply.2 = (n, [])) :
    (demoteVictim total found : Call cfg).Expects clock reply store n := by
  obtain ⟨demotes, ends⟩ := demotes
  unfold demoteVictim
  unfold ConcurrentStore.DemotesVictim at demotes
  dsimp only at demotes
  rw [agree.selectVictim all]
  split at demotes
  · rename_i empty
    rw [if_pos empty]
    exact expects_evictLoop limit agree ⟨demotes, ends⟩
  · rename_i nonempty
    rw [if_neg nonempty]
    exact ⟨store', agree, trivial, demotes, ends⟩

omit limit in
theorem expects_evictVictim (agree : store.Agree store')
    (all : ∀ c, c ∈ found ↔ store.Candidate segment c)
    (evicts : (store'.EvictsVictim reply.1 ∧ reply.2 = (n, [])) ∧
      (segment = true → store'.selectVictimKey false = [])) :
    (evictVictim segment found : Call cfg).Expects clock reply store n := by
  obtain ⟨⟨evicts, ends⟩, second⟩ := evicts
  unfold evictVictim
  rw [agree.selectVictim all]
  by_cases empty : store'.selectVictimKey segment = []
  · rw [if_pos empty]
    cases segment with
    | false => exact ⟨store', agree, .start, ⟨evicts, ends⟩, fun _ => empty⟩
    | true =>
      rw [ConcurrentStore.EvictsVictim, if_pos (second rfl), if_pos empty] at evicts
      exact ⟨store', agree, trivial, Prod.ext evicts ends⟩
  · rw [if_neg empty]
    refine ⟨store', agree, trivial, ?_, ends⟩
    cases segment with
    | false =>
      rw [ConcurrentStore.EvictsVictim, if_neg empty, if_neg empty] at evicts
      exact evicts
    | true =>
      rw [ConcurrentStore.EvictsVictim, if_pos (second rfl), if_neg empty] at evicts
      exact evicts

theorem expects_enforceCapacity (agree : store.Agree store')
    (ends : store'.enforce clock n = some reply) :
    (enforceCapacity : Call cfg).Expects clock reply store n := by
  unfold enforceCapacity
  rw [limit]
  split
  · rename_i unbounded
    rw [ConcurrentStore.enforce, ConcurrentStore.enforceCapacity, if_pos unbounded,
      if_pos (.inl unbounded)] at ends
    exact ⟨store', agree, trivial, (Option.some.inj ends).symm⟩
  · rename_i bounded
    exact ⟨store', agree, trivial, bounded, ends⟩

theorem expects_loadTotal (agree : store.Agree store') (bounded : cfg'.maxEntries ≠ 0)
    (ends : store'.enforce clock n = some reply) :
    (if store.totalEntries ≤ cfg.maxEntries then idle else sweep (clock n) cfg.firstStripe).Expects
      clock reply store (n + if store.totalEntries ≤ cfg.maxEntries then 0 else 1) := by
  rw [limit, agree.totalEntries]
  by_cases room : store'.totalEntries ≤ cfg'.maxEntries
  · rw [ConcurrentStore.enforce, ConcurrentStore.enforceCapacity, if_neg bounded, if_pos room,
      if_pos (.inr room)] at ends
    rw [if_pos room, if_pos room]
    exact ⟨store', agree, trivial, (Option.some.inj ends).symm⟩
  · obtain ⟨after, ended, rfl⟩ := Option.map_eq_some_iff.mp ends
    rw [if_neg room, if_neg room, if_neg (not_or.mpr ⟨bounded, room⟩)]
    exact ⟨_, agree.sweep (clock n), trivial,
      ConcurrentStore.trims_of_enforceCapacity bounded room ended, rfl⟩

theorem expects_reloadTotal (agree : store.Agree store')
    (trims : store'.Trims reply.1 ∧ reply.2 = (n, [])) :
    (if store.totalEntries ≤ cfg.maxEntries then idle
      else loadProtected store.totalEntries).Expects clock reply store n := by
  obtain ⟨trims, ends⟩ := trims
  unfold ConcurrentStore.Trims at trims
  rw [limit, agree.totalEntries]
  split at trims
  · rename_i room
    rw [if_pos room]
    exact ⟨store', agree, trivial, Prod.ext trims ends⟩
  · rename_i full
    rw [if_neg full]
    exact ⟨store', agree, trivial, trims, ends⟩

omit limit in
theorem expects_sweep {now : Int} {i : Fin cfg.stripeCount}
    (agree : ((sweep now i).pending store).Agree store')
    (trims : store'.Trims reply.1 ∧ reply.2 = (n, [])) :
    (nextStripe i (sweep now) reloadTotal).Expects clock reply (store.sweepStripe now i) n := by
  rw [pending, drop_finRange, List.foldl_cons] at agree
  refine @nextStripe_cases _ (fun call => call.Expects clock reply _ n) i _ _ ?_ ?_
  · intro j follows
    rw [← follows] at agree
    exact ⟨store', agree, trivial, trims⟩
  · intro last
    rw [List.drop_eq_nil_of_le (by simp [last])] at agree
    exact ⟨store', agree, trivial, trims⟩

/-- A step of a call leaves it with the same reply to come, less what the step returns. -/
theorem Expects.proceed {next : ConcurrentStore cfg} {call call' : Call cfg} {event : Event}
    (expects : call.Expects clock reply store n)
    (moved : call.proceed store (clock n) = some (next, call', event)) :
    ∃ rest, reply.2.2 = event.results ++ rest ∧
      call'.Expects clock (reply.1, reply.2.1, rest) next (n + call.readings store) := by
  obtain ⟨store', agree, gathered, resumes⟩ := expects
  cases call with
  | idle => cases moved
  | setSection key value expiresAt now =>
    cases moved
    exact ⟨_, rfl, expects_enforceCapacity limit (agree.setSection key value expiresAt now) resumes⟩
  | loadTotal =>
    cases moved
    exact ⟨_, rfl, expects_loadTotal limit agree resumes.1 resumes.2⟩
  | sweep now i =>
    cases moved
    exact ⟨_, rfl, expects_sweep agree resumes⟩
  | reloadTotal =>
    cases moved
    exact ⟨_, rfl, expects_reloadTotal limit agree resumes⟩
  | loadProtected total =>
    cases moved
    have agree' : store.Agree store' := agree
    refine ⟨_, rfl, expects_demoteLoop limit agree' ?_⟩
    rw [agree'.protectedEntries]
    exact resumes
  | demoteScan total i found =>
    cases moved
    refine ⟨_, rfl, expects_scan agree.rep gathered (fun j scanned => ?_) fun all => ?_⟩
    · exact ⟨store', agree, scanned, resumes⟩
    · exact expects_demoteVictim limit agree all resumes
  | demote victim =>
    cases moved
    have agree' : (store.demoteSection victim).Agree _ := agree.demoteSection victim
    refine ⟨_, rfl, expects_demoteLoop limit agree' ?_⟩
    rw [agree'.totalEntries, agree'.protectedEntries]
    exact resumes
  | evictScan segment i found =>
    cases moved
    refine ⟨_, rfl, expects_scan agree.rep gathered (fun j scanned => ?_) fun all => ?_⟩
    · exact ⟨store', agree, scanned, resumes⟩
    · exact expects_evictVictim agree all resumes
  | evict victim =>
    cases moved
    have agree' : (store.evictSection victim).Agree _ := agree.evictSection victim
    refine ⟨_, rfl, expects_evictLoop limit agree' ?_⟩
    rw [agree'.totalEntries]
    exact resumes
  | getShared key =>
    have same : store.find key = store'.find key := agree.find key
    rw [Resumes, ConcurrentStore.serve, ← same] at resumes
    rw [Call.proceed] at moved
    rw [readings]
    cases found : store.find key with
    | none =>
      rw [found] at moved resumes
      cases moved
      cases resumes
      exact ⟨[], rfl, store', agree, trivial, rfl⟩
    | some entry =>
      rw [found] at moved resumes
      cases moved
      cases resumes
      exact ⟨_, rfl, store', agree, trivial, by simp [← same, found], rfl⟩
  | getExclusive key =>
    cases moved
    obtain ⟨present, rfl⟩ := resumes
    have agree' : store.Agree store' := agree
    obtain ⟨after, result⟩ := agree'.getSection key (clock n)
    rw [readings, agree'.find key, if_pos present]
    exact ⟨[], by rw [Event.results, result]; rfl, _, after, trivial, rfl⟩

omit limit in
/-- A call depends on the content of the store alone. -/
theorem Expects.of_find {store₂ : ConcurrentStore cfg} {call : Call cfg} (rep : store₂.Rep)
    (same : ∀ key, store₂.find key = store.find key) (expects : call.Expects clock reply store n) :
    call.Expects clock reply store₂ n := by
  obtain ⟨store', agree, gathered, resumes⟩ := expects
  have candidates : ∀ segment c, store₂.Candidate segment c ↔ store.Candidate segment c := by
    intro segment c
    rw [ConcurrentStore.Candidate, ConcurrentStore.Candidate, same]
  refine ⟨store', ⟨?_, agree.rep', fun key => Eq.trans ?_ (agree.find key)⟩, ?_, resumes⟩
  · cases call with
    | sweep now i => exact (ConcurrentStore.foldl_sweepStripe rep now _).1
    | _ => exact rep
  · cases call with
    | sweep now i =>
      rw [pending, pending, ConcurrentStore.find_foldl_sweepStripe,
        ConcurrentStore.find_foldl_sweepStripe, same]
    | _ => exact same key
  · cases call with
    | demoteScan | evictScan =>
      intro c
      rw [candidates]
      exact gathered c
    | _ => trivial

/-- A call that runs to its end gives the reply. -/
theorem Serves.agree {after : ConcurrentStore cfg} {call : Call cfg} {m : Nat}
    {results : List (Option Bytes)} (serves : call.Serves clock store n after m results)
    (rep : store.Rep) (expects : call.Expects clock reply store n) :
    after.Agree reply.1 ∧ reply.2 = (m, results) := by
  induction serves generalizing reply with
  | done =>
    obtain ⟨store', agree, -, rfl⟩ := expects
    exact ⟨agree, rfl⟩
  | reorder perm _ ih =>
    have rep' := rep.reorder perm
    exact ih rep' (expects.of_find rep' (ConcurrentStore.find_reorder perm))
  | @proceed store next after call call' event n m results moved _ ih =>
    obtain ⟨rest, split, expects'⟩ := expects.proceed limit moved
    have rep' : next.Rep := @advance_rep _ _ _ call _ (.proceed (clock n)) _ rep moved
    obtain ⟨agree, ends⟩ := ih rep' expects'
    obtain ⟨rfl, rfl⟩ := Prod.mk.inj ends
    exact ⟨agree, Prod.ext rfl split⟩

end

/-! ### A call runs to its end -/

section

variable {ι : Type} {client : ι} {store after : ConcurrentStore cfg} {call : Call cfg}
  {clock : Nat → Int}

/-- No step of the call from here on reads the clock or shows a result. -/
def settled : Call cfg → Bool
  | setSection _ _ _ _ | loadTotal | getShared _ | getExclusive _ => false
  | _ => true

theorem settled_evictLoop (total : Nat) : (evictLoop total : Call cfg).settled = true := by
  unfold evictLoop
  split <;> rfl

theorem settled_demoteLoop (total prot : Nat) :
    (demoteLoop total prot : Call cfg).settled = true := by
  unfold demoteLoop
  split
  · rfl
  · exact settled_evictLoop total

theorem settled_nextStripe (i : Fin cfg.stripeCount) {next : Fin cfg.stripeCount → Call cfg}
    {last : Call cfg} (more : ∀ j, (next j).settled = true) (done : last.settled = true) :
    (nextStripe i next last).settled = true :=
  @nextStripe_cases _ (fun call => call.settled = true) i _ _ (fun j _ => more j) (fun _ => done)

theorem settled_demoteVictim (total : Nat) (found : List EvictionCandidate) :
    (demoteVictim total found : Call cfg).settled = true := by
  unfold demoteVictim
  split
  · exact settled_evictLoop total
  · rfl

theorem settled_evictVictim (segment : Bool) (found : List EvictionCandidate) :
    (evictVictim segment found : Call cfg).settled = true := by
  unfold evictVictim
  split
  · split <;> rfl
  · rfl

theorem proceed_settled {next : ConcurrentStore cfg} {call' : Call cfg} {event : Event} {now : Int}
    (settled : call.settled = true) (moved : call.proceed store now = some (next, call', event)) :
    call'.settled = true ∧ call.readings store = 0 ∧
      ∀ now', call.proceed store now' = some (next, call', event) := by
  cases call with
  | idle => cases moved
  | setSection | loadTotal | getShared | getExclusive => cases settled
  | sweep now i =>
    cases moved
    exact ⟨settled_nextStripe i (fun _ => rfl) rfl, rfl, fun _ => rfl⟩
  | reloadTotal =>
    cases moved
    refine ⟨?_, rfl, fun _ => rfl⟩
    split <;> rfl
  | loadProtected total =>
    cases moved
    exact ⟨settled_demoteLoop _ _, rfl, fun _ => rfl⟩
  | demoteScan total i found =>
    cases moved
    exact ⟨settled_nextStripe i (fun _ => rfl) (settled_demoteVictim _ _), rfl, fun _ => rfl⟩
  | demote victim =>
    cases moved
    exact ⟨settled_demoteLoop _ _, rfl, fun _ => rfl⟩
  | evictScan segment i found =>
    cases moved
    exact ⟨settled_nextStripe i (fun _ => rfl) (settled_evictVictim _ _), rfl, fun _ => rfl⟩
  | evict victim =>
    cases moved
    exact ⟨settled_evictLoop _, rfl, fun _ => rfl⟩

theorem Runs.serves (runs : Runs client store call after idle) (settled : call.settled = true)
    (n : Nat) : call.Serves clock store n after n [] := by
  generalize final : (idle : Call cfg) = last at runs
  induction runs with
  | refl =>
    subst final
    exact .done
  | step action moved silent _ ih =>
    cases silent
    cases advance_sound moved with
    | reorder perm => exact .reorder perm (ih settled final)
    | proceed now moved =>
      obtain ⟨settled', readings, moves⟩ := proceed_settled settled moved
      have rest := ih settled' final
      exact Serves.proceed (moves (clock n)) (readings.symm ▸ rest)

theorem serves_enforceCapacity {n : Nat} {reply : Reply cfg}
    (ends : store.enforce clock n = some reply) :
    (enforceCapacity : Call cfg).Serves clock store n reply.1 reply.2.1 reply.2.2 := by
  obtain ⟨after, ended, rfl⟩ := Option.map_eq_some_iff.mp ends
  unfold enforceCapacity
  by_cases unbounded : cfg.maxEntries = 0
  · rw [ConcurrentStore.enforceCapacity, if_pos unbounded] at ended
    cases ended
    rw [if_pos unbounded, if_pos (.inl unbounded)]
    exact .done
  · rw [if_neg unbounded]
    have loads : (loadTotal : Call cfg).proceed store (clock n) = some (store,
      if store.totalEntries ≤ cfg.maxEntries then idle else sweep (clock n) cfg.firstStripe,
      .silent) := rfl
    by_cases room : store.totalEntries ≤ cfg.maxEntries
    · rw [ConcurrentStore.enforceCapacity, if_neg unbounded, if_pos room] at ended
      cases ended
      rw [if_pos room] at loads
      refine Serves.proceed loads ?_
      rw [readings, if_pos room, if_pos (.inr room)]
      exact .done
    · rw [if_neg room] at loads
      refine Serves.proceed loads ?_
      rw [readings, if_neg room, if_neg (not_or.mpr ⟨unbounded, room⟩)]
      exact (@runs_trim Unit _ _ _ () _ unbounded room ended).serves rfl (n + 1)

theorem serves_setSection {key value : Bytes} {expiresAt : Option Int} {now : Int} {n : Nat}
    {reply : Reply cfg}
    (ends : (store.setSection key value expiresAt now).enforce clock n = some reply) :
    (setSection key value expiresAt now).Serves clock store n reply.1 reply.2.1 reply.2.2 := by
  have writes : (setSection key value expiresAt now).proceed store (clock n) =
      some (store.setSection key value expiresAt now, enforceCapacity,
        .wrote key value expiresAt) := rfl
  exact Serves.proceed writes (serves_enforceCapacity ends)

/-- What a caller that runs alone does is one way to serve a request. -/
theorem serves_call {n : Nat} {request : Request} {reply : Reply cfg}
    (ends : store.serve clock n request = some reply) :
    (request.call clock n).Serves clock store (n + request.readings) reply.1 reply.2.1
      reply.2.2 := by
  match request with
  | .set key value none => exact serves_setSection ends
  | .set key value (some ttl) => exact serves_setSection ends
  | .get key =>
    rw [ConcurrentStore.serve] at ends
    cases found : store.find key with
    | none =>
      rw [found] at ends
      cases ends
      have looks : (getShared key).proceed store (clock n) =
          some (store, idle, .returned key none none) := by
        rw [Call.proceed, found]
      refine Serves.proceed looks ?_
      rw [readings, found]
      exact .done
    | some entry =>
      rw [found] at ends
      cases ends
      have looks : (getShared key).proceed store (clock n) =
          some (store, getExclusive key, .looked key (clock n)) := by
        rw [Call.proceed, found]
      have reads : (getExclusive key).proceed store (clock (n + 1)) =
          some ((store.getSection key (clock (n + 1))).1, idle,
            .returned key ((store.find key).map fun _ => clock (n + 1))
              (store.getSection key (clock (n + 1))).2) := rfl
      refine Serves.proceed looks ?_
      rw [readings, found]
      refine Serves.proceed reads ?_
      rw [readings, found]
      exact .done

end

theorem expects_call {store : ConcurrentStore cfg} {store' : ConcurrentStore cfg'}
    {clock : Nat → Int} {n : Nat} {request : Request} {reply : Reply cfg'}
    (agree : store.Agree store') (ends : store'.serve clock n request = some reply) :
    (request.call clock n : Call cfg).Expects clock reply store (n + request.readings) := by
  match request with
  | .set key value none => exact ⟨store', agree, trivial, ends⟩
  | .set key value (some ttl) => exact ⟨store', agree, trivial, ends⟩
  | .get key => exact ⟨store', agree, trivial, ends⟩

end Call

/-! ### Sessions -/

namespace Session

variable {cfg cfg' : Config} {store : ConcurrentStore cfg} {store' : ConcurrentStore cfg'}
  {clock : Nat → Int}

theorem enforce_total (rep : store.Rep) (clock : Nat → Int) (n : Nat) :
    ∃ reply, store.enforce clock n = some reply ∧ reply.1.Rep := by
  obtain ⟨after, ends, rep'⟩ := ConcurrentStore.enforceCapacity_total rep (clock n)
  exact ⟨_, by rw [ConcurrentStore.enforce, ends, Option.map_some], rep'⟩

theorem serve_total (rep : store.Rep) (clock : Nat → Int) (n : Nat) (request : Request) :
    ∃ reply, store.serve clock n request = some reply ∧ reply.1.Rep := by
  match request with
  | .set key value none => exact enforce_total (rep.setSection key value none _) clock _
  | .set key value (some ttl) =>
    exact enforce_total (rep.setSection key value (some _) _) clock _
  | .get key =>
    rw [ConcurrentStore.serve]
    split
    · exact ⟨_, rfl, rep⟩
    · exact ⟨_, rfl, rep.getSection key _⟩

/-- The requests of a client are served. -/
theorem total (rep : store.Rep) (n : Nat) (requests : List Request) :
    ∃ results, Session clock store n requests results := by
  induction requests generalizing store n with
  | nil => exact ⟨[], .nil⟩
  | cons request requests ih =>
    obtain ⟨reply, ends, rep'⟩ := serve_total rep clock n request
    obtain ⟨rest, session⟩ := ih rep' reply.2.1
    exact ⟨_, .cons (Call.serves_call ends) session⟩

/-- A client gets what a caller that runs alone on a store with the same content gets. -/
theorem serveAll (limit : cfg.maxEntries = cfg'.maxEntries) {n : Nat} {requests : List Request}
    {results : List (Option Bytes)} (session : Session clock store n requests results)
    (agree : store.Agree store') : store'.serveAll clock n requests = some results := by
  induction session generalizing store' with
  | nil => rfl
  | @cons store after n m request requests results rest serves _ ih =>
    obtain ⟨reply, ends, -⟩ := serve_total agree.rep' clock n request
    obtain ⟨agree', same⟩ := serves.agree limit agree.rep (Call.expects_call agree ends)
    rw [ConcurrentStore.serveAll, ends, Option.bind_some, same]
    dsimp only
    rw [ih agree', Option.map_some]

theorem new_agree (cfg cfg' : Config) :
    (ConcurrentStore.new cfg).Agree (ConcurrentStore.new cfg') := by
  refine ⟨ConcurrentStore.new_rep cfg, ConcurrentStore.new_rep cfg', fun key => ?_⟩
  rw [ConcurrentStore.find_new, ConcurrentStore.find_new]

theorem unique {n : Nat} {requests : List Request} {results results' : List (Option Bytes)}
    (session : Session clock (ConcurrentStore.new cfg) n requests results)
    (session' : Session clock (ConcurrentStore.new cfg') n requests results')
    (limit : cfg.maxEntries = cfg'.maxEntries) : results = results' := by
  have served := session.serveAll limit (new_agree cfg cfg')
  have served' := session'.serveAll rfl (new_agree cfg' cfg')
  exact Option.some.inj (served.symm.trans served')

/-- A client gets the same results with every number of stripes, every hash function, and every
order of the entries. -/
theorem striping_irrelevant (maxEntries : Nat) (clock : Nat → Int) (requests : List Request) :
    ∃ results, ∀ (stripes : Nat) (hash : Bytes → UInt64) (results' : List (Option Bytes)),
      Session clock (ConcurrentStore.new ⟨stripes, maxEntries, hash⟩) 0 requests results' ↔
        results' = results := by
  -- the results with one stripe are those with any other number of stripes
  obtain ⟨results, reference⟩ : ∃ results, Session clock
      (ConcurrentStore.new ⟨1, maxEntries, fun _ => 0⟩) 0 requests results :=
    total (ConcurrentStore.new_rep _) 0 requests
  refine ⟨results, fun stripes hash results' => ⟨fun session => session.unique reference rfl, ?_⟩⟩
  rintro rfl
  obtain ⟨results'', session⟩ : ∃ results'', Session clock
      (ConcurrentStore.new ⟨stripes, maxEntries, hash⟩) 0 requests results'' :=
    total (ConcurrentStore.new_rep _) 0 requests
  cases session.unique reference rfl
  exact session

example : (ConcurrentStore.new ⟨3, 1, fun key => key.length.toUInt64⟩).serveAll (fun n => n) 0
    [.set (ascii "a") (ascii "x") none, .set (ascii "bb") (ascii "y") (some 1), .get (ascii "a"),
      .get (ascii "bb")] = some [none, some (ascii "y")] := by
  decide

end Session

end DistributedCache.Core
