import DistributedCache.Bench.ScenarioMatrix
import DistributedCache.Core.Headroom
import Mathlib.Algebra.Order.BigOperators.Group.List

/-! What the benchmark runs: the scenarios that it loads, the requests that it plans for them, and
its loop over a warm store.  The plan always sums to the number of operations, and the loop reads
from the store as from an array, since the store has room for every key. -/

namespace DistributedCache.Bench

open Lib Lib.Scan DistributedCache.Core

/-! ### The plan -/

/-- The path of the scenario matrix. -/
def matrixPath : Bytes := ascii "bench/scenarios/scenario_matrix.json"

/-- `LoadScenarioMatrix`, on the content of the file, or on `none` if the file does not open. -/
def loadScenarioMatrix (path : Bytes) (defaultRequests : Nat) :
    Option Bytes → Except Bytes (List NamedScenario)
  | none => .error (ascii "Scenario matrix file missing: " ++ path)
  | some contents =>
    if contents = [] then .error (ascii "Scenario matrix file invalid: " ++ path)
    else match (JsonReader.parseScenarioMatrix defaultRequests).run contents with
      | .ok scenarios _ => .ok scenarios
      | .error _ _ => .error (ascii "Scenario matrix file invalid: " ++ path)

/-- The body of the loop of `SumScenarioRequests`, which stops before `total` would wrap. -/
def addRequests (total : Nat) (scenario : NamedScenario) : Option Nat :=
  if scenario.requests > 2 ^ 64 - 1 - total then none else some (total + scenario.requests)

def sumScenarioRequests (scenarios : List NamedScenario) : Option Nat :=
  scenarios.foldlM addRequests 0

/-- The text for a configuration that does not run. -/
def invalidConfiguration : Bytes := ascii "Invalid benchmark configuration."

/-- The number of operations and the requests of each scenario, or the text with which `main` ends.
`opsOverride` is the argument of `--ops`. -/
def planRequests {L : Type} (ld : LongDouble L) (opsOverride : Option UInt64)
    (specs : List NamedScenario) : Except Bytes (Nat × List Nat) :=
  match opsOverride with
  | some ops =>
    if ops = 0 then .error invalidConfiguration
    else .ok (ops.toNat,
      ld.distributeScenarioRequests (specs.map NamedScenario.toScenarioSpec) ops.toNat)
  | none =>
    match sumScenarioRequests specs with
    | none => .error invalidConfiguration
    | some total =>
      if total = 0 then .error invalidConfiguration
      else .ok (total, specs.map fun spec => spec.requests)

/-- The guard against an overflow stops exactly the sums from `2 ^ 64` on. -/
theorem foldlM_addRequests {scenarios : List NamedScenario} {start total : Nat}
    (small : start < 2 ^ 64) : scenarios.foldlM addRequests start = some total ↔
      total = start + (scenarios.map fun spec => spec.requests).sum ∧ total < 2 ^ 64 := by
  induction scenarios generalizing start with
  | nil =>
    simp only [List.foldlM_nil, List.map_nil, List.sum_nil, Nat.add_zero]
    constructor
    · rintro ⟨⟩
      exact ⟨rfl, small⟩
    · rintro ⟨rfl, -⟩
      rfl
  | cons spec scenarios ih =>
    rw [List.foldlM_cons, List.map_cons, List.sum_cons]
    by_cases wraps : spec.requests > 2 ^ 64 - 1 - start
    · have stops : addRequests start spec = none := if_pos wraps
      rw [stops]
      constructor
      · rintro ⟨⟩
      · rintro ⟨sum, fits⟩
        omega
    · have adds : addRequests start spec = some (start + spec.requests) := if_neg wraps
      rw [adds, ← Nat.add_assoc]
      exact ih (by omega)

theorem sumScenarioRequests_eq_some {scenarios : List NamedScenario} {total : Nat} :
    sumScenarioRequests scenarios = some total ↔
      total = (scenarios.map fun spec => spec.requests).sum ∧ total < 2 ^ 64 := by
  rw [sumScenarioRequests, foldlM_addRequests (by decide), Nat.zero_add]

namespace LongDouble

variable {L : Type} (ld : LongDouble L)

theorem length_distribute (scenarios : List ScenarioSpec) (totalOps : Nat) :
    (ld.distributeScenarioRequests scenarios totalOps).length = scenarios.length := by
  have length := (ld.allocate_balanced scenarios totalOps).length
  unfold distributeScenarioRequests
  dsimp only
  split
  · exact List.length_replicate
  · split
    · rw [List.length_map, List.length_range]
    · split
      · exact length
      · split
        · rw [length_roundRobin, length]
        · rw [length_roundRobin, length]

end LongDouble

/-- What a plan assigns: some requests to each scenario, as many as there are operations. -/
structure Plans (specs : List NamedScenario) (ops : Nat) (requests : List Nat) : Prop where
  positive : 0 < ops
  fits : ops < 2 ^ 64
  length : requests.length = specs.length
  sum : requests.sum = ops

theorem planRequests_plans {L : Type} {ld : LongDouble L} {opsOverride : Option UInt64}
    {specs : List NamedScenario} {ops : Nat} {requests : List Nat} (nonempty : specs ≠ [])
    (planned : planRequests ld opsOverride specs = .ok (ops, requests)) :
    Plans specs ops requests := by
  unfold planRequests at planned
  cases opsOverride with
  | some given =>
    dsimp only at planned
    split at planned
    · cases planned
    · rename_i nonzero
      cases planned
      have positive : given.toNat ≠ 0 := fun zero => nonzero (UInt64.toNat_inj.mp zero)
      refine ⟨Nat.pos_of_ne_zero positive, given.toNat_lt, ?_, ld.sum_distribute ?_ _⟩
      · rw [ld.length_distribute, List.length_map]
      · simpa using nonempty
  | none =>
    dsimp only at planned
    split at planned
    · cases planned
    · rename_i total summed
      obtain ⟨sum, fits⟩ := sumScenarioRequests_eq_some.mp summed
      split at planned
      · cases planned
      · rename_i nonzero
        cases planned
        exact ⟨Nat.pos_of_ne_zero nonzero, fits, List.length_map _, sum.symm⟩

theorem Plans.lt {specs : List NamedScenario} {ops : Nat} {requests : List Nat}
    (plans : Plans specs ops requests) {n : Nat} (member : n ∈ requests) : n < 2 ^ 64 := by
  have bound := List.le_sum_of_mem member
  have := plans.sum
  have := plans.fits
  omega

theorem parseScenarioMatrix_ne_nil {defaultRequests : Nat} {contents : Bytes}
    {specs : List NamedScenario} {after : Nat}
    (parsed : (JsonReader.parseScenarioMatrix defaultRequests).run contents = .ok specs after) :
    specs ≠ [] := by
  obtain ⟨_, _, -, opened⟩ := bind_eq_ok parsed
  obtain ⟨_, _, -, listed⟩ := bind_eq_ok opened
  obtain ⟨state, _, -, checked⟩ := bind_eq_ok listed
  obtain ⟨_, _, found, ended⟩ := bind_eq_ok checked
  obtain ⟨_, _, -, returned⟩ := bind_eq_ok ended
  obtain ⟨_, _, -, returned⟩ := bind_eq_ok returned
  cases returned
  exact (require_eq_ok found).2

/-- A matrix that loads has scenarios. -/
theorem loadScenarioMatrix_ne_nil {path : Bytes} {defaultRequests : Nat} {file : Option Bytes}
    {specs : List NamedScenario}
    (loaded : loadScenarioMatrix path defaultRequests file = .ok specs) : specs ≠ [] := by
  cases file with
  | none => cases loaded
  | some contents =>
    simp only [loadScenarioMatrix] at loaded
    split at loaded
    · cases loaded
    · split at loaded
      · rename_i parsed
        cases loaded
        exact parseScenarioMatrix_ne_nil parsed
      · cases loaded

/-! ### The loop -/

/-- What the generator draws for one operation: the index of a key, and whether it is read. -/
structure Draw where
  index : Nat
  doRead : Bool
deriving DecidableEq, Repr

def keyName (i : Nat) : Bytes := ascii "key_" ++ toDecimal i

def keyNames (keySpace : Nat) : List Bytes := (List.range keySpace).map keyName

/-- The value that operation `i` writes. -/
def valueName (i : Nat) : Bytes := ascii "value_" ++ toDecimal i

/-- The store of the benchmark: 8 stripes, and room for twice the keys. -/
def benchStore (keySpace : Nat) (hash : Bytes → UInt64) : Config :=
  ⟨8, keySpace * 2 % 2 ^ 64, hash⟩

/-- The variables of the loop, and what the `Get`s have returned, which the loop discards. -/
structure Progress (cfg : Config) where
  store : ConcurrentStore cfg
  readOps : Nat
  writeOps : Nat
  results : List (Option Bytes)

variable {cfg : Config}

/-- Call `n` of the warm-up reads the clock `clock n`. -/
def warmUp (clock : Nat → Nat → Int) (keys : List Bytes) (store : ConcurrentStore cfg) :
    Option (ConcurrentStore cfg) :=
  keys.zipIdx.foldlM (fun store key => store.set key.1 (ascii "warm") none (clock key.2)) store

/-- Operation `draw.2` of the loop. -/
def operate (clock : Nat → Nat → Int) (keys : List Bytes) (state : Progress cfg)
    (draw : Draw × Nat) : Option (Progress cfg) :=
  let key := keys.getD draw.1.index []
  if draw.1.doRead then
    let got := state.store.get key (clock draw.2)
    some { state with
      store := got.1, readOps := state.readOps + 1, results := state.results ++ [got.2] }
  else
    (state.store.set key (valueName draw.2) none (clock draw.2)).map fun store =>
      { state with store := store, writeOps := state.writeOps + 1 }

/-- The warm-up and the loop, for what the generator draws and what the clock shows. -/
def runWorkload (hash : Bytes → UInt64) (keySpace : Nat) (warmClock clock : Nat → Nat → Int)
    (draws : List Draw) : Option (Progress (benchStore keySpace hash)) :=
  (warmUp warmClock (keyNames keySpace) (.new _)).bind fun store =>
    draws.zipIdx.foldlM (operate clock (keyNames keySpace)) ⟨store, 0, 0, []⟩

/-- What the reads of an array return, between the writes. -/
def arrayReads (value : Nat → Bytes) : List (Draw × Nat) → List Bytes
  | [] => []
  | draw :: draws =>
    if draw.1.doRead then value draw.1.index :: arrayReads value draws
    else arrayReads (Function.update value draw.1.index (valueName draw.2)) draws

theorem keyName_injective : Function.Injective keyName := by
  intro i j same
  have decimals := List.append_cancel_left same
  rw [← digitsValue_toDecimal i, decimals, digitsValue_toDecimal]

theorem mem_keyNames {keySpace i : Nat} (inside : i < keySpace) :
    keyName i ∈ (keyNames keySpace).toFinset :=
  List.mem_toFinset.mpr (List.mem_map_of_mem (List.mem_range.mpr inside))

theorem getD_keyNames {keySpace i : Nat} (inside : i < keySpace) :
    (keyNames keySpace).getD i [] = keyName i := by
  simp [keyNames, inside]

theorem card_keyNames_le (keySpace : Nat) : (keyNames keySpace).toFinset.card ≤ keySpace := by
  refine (List.toFinset_card_le _).trans ?_
  simp [keyNames]

/-- The store holds the given values under the first keys, and nothing else. -/
structure Holds (keySpace : Nat) (slots : Nat → Option Bytes) (store : ConcurrentStore cfg) :
    Prop where
  rep : store.Rep
  persistent : store.Persistent
  slot : ∀ i < keySpace, store.content (keyName i) = slots i
  others : ∀ key ∉ (keyNames keySpace).toFinset, store.content key = none

section

variable {keySpace : Nat} {slots : Nat → Option Bytes} {store : ConcurrentStore cfg}

theorem new_holds (keySpace : Nat) : Holds keySpace (fun _ => none) (.new cfg) := by
  have empty : ∀ key, (ConcurrentStore.new cfg).content key = none := fun key => by
    rw [ConcurrentStore.content, ConcurrentStore.find_new, Option.map_none]
  exact ⟨ConcurrentStore.new_rep cfg, ConcurrentStore.new_persistent cfg, fun i _ => empty _,
    fun key _ => empty key⟩

theorem Holds.set (holds : Holds keySpace slots store) (room : keySpace ≤ cfg.maxEntries)
    {i : Nat} (inside : i < keySpace) (value : Bytes) (clock : Nat → Int) :
    ∃ after, store.set (keyName i) value none clock = some after ∧
      Holds keySpace (Function.update slots i (some value)) after := by
  obtain ⟨after, returned, rep, persistent, content⟩ :=
    ConcurrentStore.set_content_room holds.rep holds.persistent
      ((card_keyNames_le keySpace).trans room) holds.others (mem_keyNames inside) value clock
  refine ⟨after, returned, rep, persistent, fun j below => ?_, fun key outside => ?_⟩
  · rw [content]
    by_cases same : j = i
    · subst same
      rw [Function.update_self, Function.update_self]
    · rw [Function.update_of_ne (keyName_injective.ne same), Function.update_of_ne same,
        holds.slot j below]
  · have different : key ≠ keyName i := fun same => outside (same ▸ mem_keyNames inside)
    rw [content, Function.update_of_ne different, holds.others key outside]

theorem Holds.get (holds : Holds keySpace slots store) {i : Nat} (inside : i < keySpace)
    (clock : Nat → Int) :
    (store.get (keyName i) clock).2 = slots i ∧
      Holds keySpace slots (store.get (keyName i) clock).1 := by
  obtain ⟨answer, persistent, content⟩ :=
    ConcurrentStore.get_content holds.persistent (keyName i) clock
  have rep := ConcurrentStore.get_rep holds.rep (keyName i) clock
  refine ⟨answer.trans (holds.slot i inside), rep, persistent, ?_, ?_⟩
  · rw [content]
    exact holds.slot
  · rw [content]
    exact holds.others

theorem Holds.congr (holds : Holds keySpace slots store) {slots' : Nat → Option Bytes}
    (same : ∀ i < keySpace, slots i = slots' i) : Holds keySpace slots' store :=
  ⟨holds.rep, holds.persistent, fun i inside => (holds.slot i inside).trans (same i inside),
    holds.others⟩

/-- The warm-up of the first `n` keys. -/
theorem warmUp_holds (clock : Nat → Nat → Int) (room : keySpace ≤ cfg.maxEntries) {n : Nat}
    (below : n ≤ keySpace) : ∃ store : ConcurrentStore cfg,
      warmUp clock (keyNames n) (.new cfg) = some store ∧
        Holds keySpace (fun i => if i < n then some (ascii "warm") else none) store := by
  induction n with
  | zero => exact ⟨.new cfg, rfl, new_holds keySpace⟩
  | succ n ih =>
    obtain ⟨store, warmed, holds⟩ := ih (by omega)
    obtain ⟨after, returned, holds⟩ := holds.set room (show n < keySpace by omega) (ascii "warm")
      (clock n)
    refine ⟨after, ?_, holds.congr fun i inside => ?_⟩
    · have names : (keyNames (n + 1)).zipIdx = (keyNames n).zipIdx ++ [(keyName n, n)] := by
        simp [keyNames, List.range_succ, List.zipIdx_append]
      unfold warmUp at warmed ⊢
      rw [names, List.foldlM_append, warmed]
      simpa using returned
    · by_cases last : i = n
      · subst last
        simp
      · rw [Function.update_of_ne last]
        have : i < n ↔ i < n + 1 := by omega
        simp only [this]

/-- Some operations of the loop act on the store as on an array. -/
theorem foldlM_operate (clock : Nat → Nat → Int) (room : keySpace ≤ cfg.maxEntries)
    {draws : List (Draw × Nat)} (indices : ∀ draw ∈ draws, draw.1.index < keySpace)
    {value : Nat → Bytes} {state : Progress cfg}
    (holds : Holds keySpace (fun i => some (value i)) state.store) :
    ∃ done, draws.foldlM (operate clock (keyNames keySpace)) state = some done ∧
      done.readOps + done.writeOps = state.readOps + state.writeOps + draws.length ∧
      done.results = state.results ++ (arrayReads value draws).map some := by
  induction draws generalizing value state with
  | nil => exact ⟨state, rfl, rfl, by simp [arrayReads]⟩
  | cons draw draws ih =>
    have inside := indices draw (by simp)
    have later : ∀ draw ∈ draws, draw.1.index < keySpace :=
      fun draw member => indices draw (List.mem_cons_of_mem _ member)
    rw [List.foldlM_cons, operate, getD_keyNames inside, arrayReads, List.length_cons]
    by_cases read : draw.1.doRead = true
    · obtain ⟨answer, holds⟩ := holds.get inside (clock draw.2)
      rw [if_pos read, if_pos read]
      obtain ⟨done, ran, count, results⟩ := @ih later value
        { state with
          store := (state.store.get (keyName draw.1.index) (clock draw.2)).1
          readOps := state.readOps + 1
          results := state.results ++
            [(state.store.get (keyName draw.1.index) (clock draw.2)).2] } holds
      dsimp only at count
      refine ⟨done, ran, by omega, ?_⟩
      rw [results, answer, List.map_cons, List.append_assoc, List.singleton_append]
    · obtain ⟨after, returned, holds⟩ := holds.set room inside (valueName draw.2) (clock draw.2)
      rw [if_neg read, if_neg read, returned]
      have updated : Function.update (fun i => some (value i)) draw.1.index
          (some (valueName draw.2)) = fun i =>
            some (Function.update value draw.1.index (valueName draw.2) i) :=
        (Function.comp_update some value draw.1.index (valueName draw.2)).symm
      rw [updated] at holds
      obtain ⟨done, ran, count, results⟩ := @ih later _
        { state with store := after, writeOps := state.writeOps + 1 } holds
      dsimp only at count
      exact ⟨done, ran, by omega, results⟩

end

/-- However the generator draws and whatever the clock shows, the benchmark's loop ends, each
operation is counted once, and every read returns what the last write of its key has left, or the
value of the warm-up: no read misses.  A vector has fewer than `2 ^ 63` elements. -/
theorem workload_hits (hash : Bytes → UInt64) {keySpace : Nat} (small : keySpace < 2 ^ 63)
    (warmClock clock : Nat → Nat → Int) {draws : List Draw}
    (indices : ∀ draw ∈ draws, draw.index < keySpace) :
    ∃ done, runWorkload hash keySpace warmClock clock draws = some done ∧
      done.readOps + done.writeOps = draws.length ∧
      done.results = (arrayReads (fun _ => ascii "warm") draws.zipIdx).map some := by
  have room : keySpace ≤ (benchStore keySpace hash).maxEntries := by
    show keySpace ≤ keySpace * 2 % 2 ^ 64
    omega
  obtain ⟨store, warmed, holds⟩ := warmUp_holds warmClock room (le_refl keySpace)
  have inside : ∀ draw ∈ draws.zipIdx, draw.1.index < keySpace := fun draw member =>
    indices draw.1 (List.fst_mem_of_mem_zipIdx member)
  have warm : Holds keySpace (fun _ => some (ascii "warm")) store :=
    holds.congr fun i below => if_pos below
  obtain ⟨done, ran, count, results⟩ :=
    foldlM_operate clock room inside
      (show Holds keySpace _ (Progress.mk store 0 0 []).store from warm)
  refine ⟨done, ?_, ?_, results⟩
  · rw [runWorkload, warmed]
    exact ran
  · rw [count, List.length_zipIdx]
    exact Nat.zero_add _

/-- Two keys, of which the first is written between two reads. -/
theorem rereads_hit : ∃ done,
    runWorkload (fun _ => 0) 2 (fun _ _ => 0) (fun _ _ => 0) [⟨0, true⟩, ⟨0, false⟩, ⟨0, true⟩] =
        some done ∧
      done.results = [some (ascii "warm"), some (ascii "value_1")] := by
  have indices : ∀ draw ∈ [(⟨0, true⟩ : Draw), ⟨0, false⟩, ⟨0, true⟩], draw.index < 2 := by decide
  obtain ⟨done, ran, -, results⟩ := workload_hits (fun _ => 0) (show 2 < 2 ^ 63 by decide)
    (fun _ _ => 0) (fun _ _ => 0) indices
  exact ⟨done, ran, results.trans (by decide)⟩

end DistributedCache.Bench
