import DistributedCache.Core.ConcurrentStore
import DistributedCache.Lib.Pool

/-! Concurrent calls of `Set` and `Get`.  A call is at the point of the source where its next atomic
step begins: a section under a stripe's lock, a load of a counter outside the locks, or the scan of
one stripe in `SelectVictimKey`.  What a thread computes between two such points from its own
variables belongs to the earlier step. -/

namespace DistributedCache.Core

/-- Where a client's call stands. -/
inductive Call (cfg : Config)
  /-- No call is in progress. -/
  | idle
  /-- `Set` has read the clock and is about to lock the stripe of the key. -/
  | setSection (key value : Bytes) (expiresAt : Option Int) (now : Int)
  /-- `EnforceCapacity` is about to load `total_entries_`. -/
  | loadTotal
  /-- It is about to sweep stripe `i`. -/
  | sweep (now : Int) (i : Fin cfg.stripeCount)
  /-- It is about to load `total_entries_` after the sweep. -/
  | reloadTotal
  /-- It is about to load `protected_entries_`. -/
  | loadProtected (total : Nat)
  /-- The demotion loop is about to scan stripe `i`. -/
  | demoteScan (total : Nat) (i : Fin cfg.stripeCount) (found : List EvictionCandidate)
  /-- The demotion loop is about to lock the stripe of its victim. -/
  | demote (victim : Bytes)
  /-- The eviction loop is about to scan stripe `i` for the given segment. -/
  | evictScan (inProtectedSegment : Bool) (i : Fin cfg.stripeCount)
      (found : List EvictionCandidate)
  /-- The eviction loop is about to lock the stripe of its victim. -/
  | evict (victim : Bytes)
  /-- `Get` is about to take the shared lock. -/
  | getShared (key : Bytes)
  /-- `Get` is about to take the exclusive lock. -/
  | getExclusive (key : Bytes)

/-- What the environment gives to a step: a new call, a reading of the clock for the next step of
the call in progress, or, since the order of an `unordered_map` is unspecified, another order of
the entries of a stripe. -/
inductive Action
  | callSet (key value : Bytes) (ttl : Option Int) (reading now : Int)
  | callGet (key : Bytes)
  | proceed (now : Int)
  | reorder (i : Nat) (map : Stripe)

/-- What a step shows: a call with its key, the section of a `Set`, a shared section of a `Get`
that found an entry, the section in which a `Get` returns, with the reading of the clock if it took
one, or nothing. -/
inductive Event
  | called (key : Bytes)
  | wrote (key value : Bytes) (expiresAt : Option Int)
  | looked (key : Bytes) (now : Int)
  | returned (key : Bytes) (reading : Option Int) (result : Option Bytes)
  | silent
deriving DecidableEq, Repr

namespace Call

variable {cfg : Config}

/-- The test of the eviction loop. -/
def evictLoop (total : Nat) : Call cfg :=
  if cfg.maxEntries < total then evictScan false cfg.firstStripe [] else idle

/-- The test of the demotion loop. -/
def demoteLoop (total prot : Nat) : Call cfg :=
  if cfg.maxEntries < total ∧ cfg.protectedEntriesLimit < prot then
    demoteScan total cfg.firstStripe []
  else evictLoop total

/-- The first test of `EnforceCapacity`. -/
def enforceCapacity : Call cfg := if cfg.maxEntries = 0 then idle else loadTotal

/-- The call after stripe `i` of a loop over the stripes: `next` on the stripe that follows, or
`last` after the last one. -/
def nextStripe (i : Fin cfg.stripeCount) (next : Fin cfg.stripeCount → Call cfg)
    (last : Call cfg) : Call cfg :=
  if h : i.val + 1 < cfg.stripeCount then next ⟨i.val + 1, h⟩ else last

/-- The demotion loop after its scan found `found`. -/
def demoteVictim (total : Nat) (found : List EvictionCandidate) : Call cfg :=
  if selectVictim found = [] then evictLoop total else demote (selectVictim found)

/-- The eviction loop after its scan of a segment found `found`. -/
def evictVictim (inProtectedSegment : Bool) (found : List EvictionCandidate) : Call cfg :=
  if selectVictim found = [] then
    if inProtectedSegment then idle else evictScan true cfg.firstStripe []
  else evict (selectVictim found)

/-- The next step of a call that is in progress, at clock reading `clock`. -/
def proceed (store : ConcurrentStore cfg) (clock : Int) :
    Call cfg → Option (ConcurrentStore cfg × Call cfg × Event)
  | idle => none
  | setSection key value expiresAt now =>
    some (store.setSection key value expiresAt now, enforceCapacity, .wrote key value expiresAt)
  | loadTotal =>
    some (store, if store.totalEntries ≤ cfg.maxEntries then idle else sweep clock cfg.firstStripe,
      .silent)
  | sweep now i => some (store.sweepStripe now i, nextStripe i (sweep now) reloadTotal, .silent)
  | reloadTotal =>
    some (store, if store.totalEntries ≤ cfg.maxEntries then idle
      else loadProtected store.totalEntries, .silent)
  | loadProtected total => some (store, demoteLoop total store.protectedEntries, .silent)
  | demoteScan total i found =>
    let found := found ++ store.scanStripe true i
    some (store, nextStripe i (demoteScan total · found) (demoteVictim total found), .silent)
  | demote victim =>
    let after := store.demoteSection victim
    some (after, demoteLoop after.totalEntries after.protectedEntries, .silent)
  | evictScan segment i found =>
    let found := found ++ store.scanStripe segment i
    some (store, nextStripe i (evictScan segment · found) (evictVictim segment found), .silent)
  | evict victim =>
    let after := store.evictSection victim
    some (after, evictLoop after.totalEntries, .silent)
  | getShared key =>
    match store.find key with
    | none => some (store, idle, .returned key none none)
    | some _ => some (store, getExclusive key, .looked key clock)
  | getExclusive key =>
    some ((store.getSection key clock).1, idle,
      .returned key ((store.find key).map fun _ => clock) (store.getSection key clock).2)

/-- One atomic step of a client. -/
def advance (store : ConcurrentStore cfg) (call : Call cfg) :
    Action → Option (ConcurrentStore cfg × Call cfg × Event)
  | .callSet key value ttl reading now =>
    match call with
    | idle =>
      some (store, setSection key value (ttl.map (addMilliseconds reading)) now, .called key)
    | _ => none
  | .callGet key =>
    match call with
    | idle => some (store, getShared key, .called key)
    | _ => none
  | .proceed clock => call.proceed store clock
  | .reorder i map =>
    if h : i < cfg.stripeCount then
      if map.entries.Perm (store.stripes ⟨i, h⟩).entries then
        some ({ store with stripes := Function.update store.stripes ⟨i, h⟩ map }, call, .silent)
      else none
    else none

/-- The ways in which a client can move. -/
inductive Advances : ConcurrentStore cfg → Call cfg → ConcurrentStore cfg → Call cfg → Event → Prop
  | callSet {store : ConcurrentStore cfg} (key value : Bytes) (expiresAt : Option Int)
      (now : Int) :
      Advances store idle store (setSection key value expiresAt now) (.called key)
  | callGet {store : ConcurrentStore cfg} (key : Bytes) :
      Advances store idle store (getShared key) (.called key)
  | reorder {store : ConcurrentStore cfg} {call : Call cfg} {i : Fin cfg.stripeCount}
      {map : Stripe} (perm : map.entries.Perm (store.stripes i).entries) :
      Advances store call { store with stripes := Function.update store.stripes i map } call .silent
  | proceed {store store' : ConcurrentStore cfg} {call call' : Call cfg} {event : Event}
      (clock : Int) (moved : call.proceed store clock = some (store', call', event)) :
      Advances store call store' call' event

theorem advance_sound {store store' : ConcurrentStore cfg} {call call' : Call cfg}
    {action : Action} {event : Event}
    (moved : call.advance store action = some (store', call', event)) :
    Advances store call store' call' event := by
  cases action with
  | callSet key value ttl reading now =>
    cases call <;> simp only [advance, Option.some.injEq, Prod.mk.injEq, reduceCtorEq] at moved
    obtain ⟨rfl, rfl, rfl⟩ := moved
    exact .callSet key value _ now
  | callGet key =>
    cases call <;> simp only [advance, Option.some.injEq, Prod.mk.injEq, reduceCtorEq] at moved
    obtain ⟨rfl, rfl, rfl⟩ := moved
    exact .callGet key
  | proceed clock => exact .proceed clock moved
  | reorder i map =>
    simp only [advance] at moved
    split at moved
    · split at moved
      · rename_i perm
        cases moved
        exact .reorder perm
      · cases moved
    · cases moved

/-- A `Set` is in progress. -/
def inSet : Call cfg → Bool
  | idle | getShared _ | getExclusive _ => false
  | _ => true

end Call

/-- The clients of one store. -/
def clients (ι : Type) (cfg : Config) :
    Lib.Program ι (ConcurrentStore cfg) (Call cfg) Action Event where
  advance _ store call action := call.advance store action

/-- An empty store with no call in progress. -/
def start (ι : Type) (cfg : Config) : Lib.Pool ι (ConcurrentStore cfg) (Call cfg) :=
  ⟨.new cfg, fun _ => .idle⟩

end DistributedCache.Core
