import DistributedCache.Core.Eviction
import DistributedCache.Lib.Tally
import Mathlib.Logic.Function.Basic
import Mathlib.Data.List.FinRange

/-! The striped store.  Each section of `ConcurrentStore` that runs under a stripe's lock is one
function here, and `set`, `get`, and `enforceCapacity` put the sections together for a caller that
runs alone.  `Core.Interleaving` puts the same sections together for concurrent callers. -/

namespace DistributedCache.Core

/-- A time point of the steady clock is its signed count of nanoseconds. -/
def toNs (tp : Int) : Nat := (tp % 2 ^ 64).toNat

/-- `tp + ttl` for a `ttl` in milliseconds, in signed 64-bit arithmetic. -/
def addMilliseconds (tp ttl : Int) : Int := (tp + ttl * 1000000).bmod (2 ^ 64)

structure ValueEntry where
  value : Bytes
  expiresAt : Option Int
  lfuCount : Nat
  lastTouchNs : Nat
  inProtectedSegment : Bool
deriving DecidableEq, Repr

def ValueEntry.isExpired (entry : ValueEntry) (now : Int) : Bool :=
  match entry.expiresAt with
  | none => false
  | some expiresAt => decide (expiresAt ≤ now)

theorem ValueEntry.isExpired_iff {entry : ValueEntry} {now : Int} :
    entry.isExpired now = true ↔ ∃ expiry, entry.expiresAt = some expiry ∧ expiry ≤ now := by
  unfold isExpired
  cases entry.expiresAt <;> simp

/-- The map of a stripe.  Its entries stand in the order in which an iteration visits them. -/
abbrev Stripe := AList fun _ : Bytes => ValueEntry

abbrev Entry := Sigma fun _ : Bytes => ValueEntry

/-- The constructor's arguments and `std::hash<std::string>`. -/
structure Config where
  stripes : Nat
  maxEntries : Nat
  hash : Bytes → UInt64

namespace Config

variable (cfg : Config)

/-- `stripes_.size()`. -/
def stripeCount : Nat := if cfg.stripes = 0 then 1 else cfg.stripes

theorem stripeCount_pos : 0 < cfg.stripeCount := by
  unfold stripeCount
  split <;> omega

def protectedEntriesLimit : Nat := if 0 < cfg.maxEntries then max 1 (cfg.maxEntries / 2) else 0

def stripeIndexForKey (key : Bytes) : Fin cfg.stripeCount :=
  ⟨(cfg.hash key).toNat % cfg.stripeCount, Nat.mod_lt _ cfg.stripeCount_pos⟩

/-- The first stripe that a loop over `stripes_` visits. -/
def firstStripe : Fin cfg.stripeCount := ⟨0, cfg.stripeCount_pos⟩

end Config

/-- The state of the store.  The counters are `size_t`, and a decrement wraps at zero.  An
increment cannot wrap, because each counted entry occupies memory of its own. -/
structure ConcurrentStore (cfg : Config) where
  stripes : Fin cfg.stripeCount → Stripe
  totalEntries : Nat
  protectedEntries : Nat

/-- `fetch_sub(1)` on a `size_t`. -/
def fetchSub (counter : Nat) : Nat := if counter = 0 then 2 ^ 64 - 1 else counter - 1

/-- `std::numeric_limits<uint32_t>::max()`. -/
def uint32Max : Nat := 2 ^ 32 - 1

/-- `TouchEntry`: the touched entry and the new value of `protected_entries_`. -/
def touchEntry (protectedEntries : Nat) (entry : ValueEntry) (now : Int) : ValueEntry × Nat :=
  let lfuCount := if entry.lfuCount < uint32Max then entry.lfuCount + 1 else entry.lfuCount
  let touched := { entry with lfuCount := lfuCount, lastTouchNs := toNs now }
  if entry.inProtectedSegment = false ∧ 2 ≤ lfuCount then
    ({ touched with inProtectedSegment := true }, protectedEntries + 1)
  else (touched, protectedEntries)

/-- The counter plays no part in the touched entry. -/
theorem touchEntry_fst (prot prot' : Nat) (entry : ValueEntry) (now : Int) :
    (touchEntry prot entry now).1 = (touchEntry prot' entry now).1 := by
  unfold touchEntry
  dsimp only
  split_ifs <;> rfl

@[simp] theorem touchEntry_value (prot : Nat) (entry : ValueEntry) (now : Int) :
    (touchEntry prot entry now).1.value = entry.value := by
  unfold touchEntry
  dsimp only
  split_ifs <;> rfl

@[simp] theorem touchEntry_expiresAt (prot : Nat) (entry : ValueEntry) (now : Int) :
    (touchEntry prot entry now).1.expiresAt = entry.expiresAt := by
  unfold touchEntry
  dsimp only
  split_ifs <;> rfl

@[simp] theorem touchEntry_lastTouchNs (prot : Nat) (entry : ValueEntry) (now : Int) :
    (touchEntry prot entry now).1.lastTouchNs = toNs now := by
  unfold touchEntry
  dsimp only
  split_ifs <;> rfl

/-- The candidates that a scan for the segment `inProtectedSegment` finds among `entries`. -/
def candidates (inProtectedSegment : Bool) (entries : List Entry) : List EvictionCandidate :=
  entries.filterMap fun e =>
    if e.2.inProtectedSegment = inProtectedSegment then
      some ⟨e.1, e.2.lfuCount, e.2.lastTouchNs, e.2.inProtectedSegment⟩
    else none

/-- The sweep of one stripe: the entries that it keeps and the two counters after it. -/
def sweepEntries (now : Int) : List Entry → Nat → Nat → List Entry × Nat × Nat
  | [], total, prot => ([], total, prot)
  | e :: rest, total, prot =>
    if e.2.isExpired now then
      sweepEntries now rest (fetchSub total)
        (if e.2.inProtectedSegment then fetchSub prot else prot)
    else
      let kept := sweepEntries now rest total prot
      (e :: kept.1, kept.2)

theorem sweepEntries_kept (now : Int) (entries : List Entry) (total prot : Nat) :
    (sweepEntries now entries total prot).1 = entries.filter fun e => !e.2.isExpired now := by
  induction entries generalizing total prot with
  | nil => rfl
  | cons e rest ih =>
    cases expired : e.2.isExpired now
    · simp [sweepEntries, expired, ih]
    · simp [sweepEntries, expired, ih]

namespace ConcurrentStore

variable {cfg : Config}

/-- The store that the constructor makes. -/
def new (cfg : Config) : ConcurrentStore cfg := ⟨fun _ => ∅, 0, 0⟩

def stripeFor (store : ConcurrentStore cfg) (key : Bytes) : Stripe :=
  store.stripes (cfg.stripeIndexForKey key)

/-- `stripe.map.find(key)` on the stripe of `key`. -/
def find (store : ConcurrentStore cfg) (key : Bytes) : Option ValueEntry :=
  (store.stripeFor key).lookup key

/-- The store with `map` as the map of the stripe of `key`. -/
def setStripe (store : ConcurrentStore cfg) (key : Bytes) (map : Stripe) : ConcurrentStore cfg :=
  { store with stripes := Function.update store.stripes (cfg.stripeIndexForKey key) map }

/-- The store with `entry` as the entry of `key`. -/
def put (store : ConcurrentStore cfg) (key : Bytes) (entry : ValueEntry) : ConcurrentStore cfg :=
  store.setStripe key ((store.stripeFor key).insert key entry)

/-- The store with `entry`, touched, as the entry of `key`. -/
def touch (store : ConcurrentStore cfg) (key : Bytes) (entry : ValueEntry) (now : Int) :
    ConcurrentStore cfg :=
  let touched := touchEntry store.protectedEntries entry now
  { store.put key touched.1 with protectedEntries := touched.2 }

/-- Erases the entry of `key` and adjusts the counters, as the expiring `Get` and the eviction
loop do. -/
def eraseEntry (store : ConcurrentStore cfg) (key : Bytes) (entry : ValueEntry) :
    ConcurrentStore cfg :=
  { store.setStripe key ((store.stripeFor key).erase key) with
    totalEntries := fetchSub store.totalEntries
    protectedEntries :=
      if entry.inProtectedSegment then fetchSub store.protectedEntries
      else store.protectedEntries }

/-- The section of `Set`. -/
def setSection (store : ConcurrentStore cfg) (key value : Bytes) (expiresAt : Option Int)
    (now : Int) : ConcurrentStore cfg :=
  match store.find key with
  | some entry => store.touch key { entry with value := value, expiresAt := expiresAt } now
  | none =>
    { store.put key ⟨value, expiresAt, 1, toNs now, false⟩ with
      totalEntries := store.totalEntries + 1 }

/-- The exclusive section of `Get`. -/
def getSection (store : ConcurrentStore cfg) (key : Bytes) (now : Int) :
    ConcurrentStore cfg × Option Bytes :=
  match store.find key with
  | none => (store, none)
  | some entry =>
    if entry.isExpired now then (store.eraseEntry key entry, none)
    else (store.touch key entry now, some entry.value)

/-- The section of the expiry sweep on stripe `i`. -/
def sweepStripe (now : Int) (store : ConcurrentStore cfg) (i : Fin cfg.stripeCount) :
    ConcurrentStore cfg :=
  let swept := sweepEntries now (store.stripes i).entries store.totalEntries store.protectedEntries
  { stripes := Function.update store.stripes i ⟨swept.1, by
      rw [show swept.1 = _ from sweepEntries_kept ..]
      exact (store.stripes i).nodupKeys.sublist List.filter_sublist⟩
    totalEntries := swept.2.1
    protectedEntries := swept.2.2 }

/-- The candidates that a scan finds in stripe `i`. -/
def scanStripe (store : ConcurrentStore cfg) (inProtectedSegment : Bool)
    (i : Fin cfg.stripeCount) : List EvictionCandidate :=
  candidates inProtectedSegment (store.stripes i).entries

/-- The section of the demotion loop. -/
def demoteSection (store : ConcurrentStore cfg) (victim : Bytes) : ConcurrentStore cfg :=
  match store.find victim with
  | none => store
  | some entry =>
    if entry.inProtectedSegment then
      { store.put victim { entry with inProtectedSegment := false, lfuCount := 1 } with
        protectedEntries := fetchSub store.protectedEntries }
    else store

/-- The section of the eviction loop. -/
def evictSection (store : ConcurrentStore cfg) (victim : Bytes) : ConcurrentStore cfg :=
  match store.find victim with
  | none => store
  | some entry => store.eraseEntry victim entry

def selectVictimKey (store : ConcurrentStore cfg) (inProtectedSegment : Bool) : Bytes :=
  selectVictim ((List.finRange cfg.stripeCount).flatMap (store.scanStripe inProtectedSegment))

/-- The demotion loop of a caller that runs alone: the store and `total_entries` after it, or
`none` if it has not ended after `fuel` rounds. -/
def demoteLoop : Nat → ConcurrentStore cfg → Nat → Nat → Option (ConcurrentStore cfg × Nat)
  | 0, _, _, _ => none
  | fuel + 1, store, total, prot =>
    if cfg.maxEntries < total ∧ cfg.protectedEntriesLimit < prot then
      let victim := store.selectVictimKey true
      if victim = [] then some (store, total)
      else
        let after := store.demoteSection victim
        demoteLoop fuel after after.totalEntries after.protectedEntries
    else some (store, total)

/-- The eviction loop of a caller that runs alone. -/
def evictLoop : Nat → ConcurrentStore cfg → Nat → Option (ConcurrentStore cfg)
  | 0, _, _ => none
  | fuel + 1, store, total =>
    if cfg.maxEntries < total then
      let unprotected := store.selectVictimKey false
      let victim := if unprotected = [] then store.selectVictimKey true else unprotected
      if victim = [] then some store
      else
        let after := store.evictSection victim
        evictLoop fuel after after.totalEntries
    else some store

/-- `EnforceCapacity` of a caller that runs alone.  Each round of a loop demotes or erases one of
the entries, so more rounds than there are entries are not needed. -/
def enforceCapacity (store : ConcurrentStore cfg) (now : Int) : Option (ConcurrentStore cfg) :=
  if cfg.maxEntries = 0 then some store
  else if store.totalEntries ≤ cfg.maxEntries then some store
  else
    let swept := (List.finRange cfg.stripeCount).foldl (sweepStripe now) store
    if swept.totalEntries ≤ cfg.maxEntries then some swept
    else
      (demoteLoop (store.totalEntries + 2) swept swept.totalEntries swept.protectedEntries).bind
        fun demoted => evictLoop (store.totalEntries + 2) demoted.1 demoted.2

/-- `Set` of a caller that runs alone, with the readings of the clock in order. -/
def set (store : ConcurrentStore cfg) (key value : Bytes) (ttl : Option Int) (clock : Nat → Int) :
    Option (ConcurrentStore cfg) :=
  let expiresAt := ttl.map (addMilliseconds (clock 0))
  (store.setSection key value expiresAt (clock 1)).enforceCapacity (clock 2)

/-- `Get` of a caller that runs alone. -/
def get (store : ConcurrentStore cfg) (key : Bytes) (clock : Nat → Int) :
    ConcurrentStore cfg × Option Bytes :=
  match store.find key with
  | none => (store, none)
  | some _ => store.getSection key (clock 1)

/-! ### What a section leaves at a key -/

variable {store : ConcurrentStore cfg} {key other : Bytes} {entry : ValueEntry}

theorem find_setStripe (store : ConcurrentStore cfg) (key other : Bytes) (map : Stripe) :
    (store.setStripe key map).find other =
      if cfg.stripeIndexForKey other = cfg.stripeIndexForKey key then map.lookup other
      else store.find other := by
  unfold find stripeFor setStripe
  split
  · rename_i same
    simp [same]
  · rename_i different
    simp [different]

@[simp] theorem find_put_self : (store.put key entry).find key = some entry := by
  simp [put, find_setStripe]

theorem find_put_ne (different : other ≠ key) :
    (store.put key entry).find other = store.find other := by
  rw [put, find_setStripe]
  split
  · rename_i same
    rw [AList.lookup_insert_ne different, find, stripeFor, stripeFor, same]
  · rfl

@[simp] theorem find_eraseEntry_self : (store.eraseEntry key entry).find key = none := by
  show (store.setStripe key ((store.stripeFor key).erase key)).find key = none
  rw [find_setStripe, if_pos rfl, AList.lookup_erase]

theorem find_eraseEntry_ne (different : other ≠ key) :
    (store.eraseEntry key entry).find other = store.find other := by
  show (store.setStripe key ((store.stripeFor key).erase key)).find other = _
  rw [find_setStripe]
  split
  · rename_i same
    rw [AList.lookup_erase_ne different, find, stripeFor, stripeFor, same]
  · rfl

theorem find_touch_self (now : Int) : (store.touch key entry now).find key =
    some (touchEntry store.protectedEntries entry now).1 :=
  find_put_self

theorem find_touch_ne (now : Int) (different : other ≠ key) :
    (store.touch key entry now).find other = store.find other :=
  find_put_ne different

/-- After the section of a `Set`, the key holds what the `Set` wrote. -/
theorem find_setSection_self (store : ConcurrentStore cfg) (key value : Bytes)
    (expiresAt : Option Int) (now : Int) :
    ∃ entry, (store.setSection key value expiresAt now).find key = some entry ∧
      entry.value = value ∧ entry.expiresAt = expiresAt := by
  unfold setSection
  split
  · exact ⟨_, find_touch_self now, by simp, by simp⟩
  · exact ⟨_, find_put_self, rfl, rfl⟩

theorem find_setSection_ne (store : ConcurrentStore cfg) (value : Bytes) (expiresAt : Option Int)
    (now : Int) (different : other ≠ key) :
    (store.setSection key value expiresAt now).find other = store.find other := by
  unfold setSection
  split
  · exact find_touch_ne now different
  · exact find_put_ne different

theorem find_getSection_ne (store : ConcurrentStore cfg) (now : Int) (different : other ≠ key) :
    (store.getSection key now).1.find other = store.find other := by
  unfold getSection
  split
  · rfl
  · split
    · exact find_eraseEntry_ne different
    · exact find_touch_ne now different

end ConcurrentStore

end DistributedCache.Core
