import DistributedCache.Lib.Apportionment
import Mathlib.Algebra.BigOperators.Ring.List
import Mathlib.Data.List.Induction
import Mathlib.Data.Rat.Floor
import Mathlib.Tactic.FieldSimp

/-! How the benchmark divides `total_ops` requests among the scenarios of its matrix.  Whatever its
`long double` arithmetic answers, the counts sum to `total_ops`.  With exact arithmetic each count
is the quota of the scenario rounded down or up, and the counts are in the order of the weights. -/

namespace DistributedCache.Bench

open Lib

/-- A scenario of the matrix: `requests` is its weight. -/
structure ScenarioSpec where
  requests : Nat
deriving DecidableEq, Repr

/-- The operations on `long double` that the distribution uses.  Nothing is assumed of them. -/
structure LongDouble (L : Type) where
  ofSize : Nat → L
  toSize : L → Nat
  zero : L
  add : L → L → L
  sub : L → L → L
  mul : L → L → L
  div : L → L → L
  floor : L → L
  eq : L → L → Bool
  lt : L → L → Bool
  le : L → L → Bool

structure FractionalPart (L : Type) where
  index : Nat
  fraction : L

/-- The variables of the loop over the scenarios.  Of the vector `requests` it has the entries that
the loop has written. -/
structure Allocation (L : Type) where
  requests : List Nat
  allocated : Nat
  fractionalParts : List (FractionalPart L)

/-- The indices in the order of `std::sort` by a comparison. -/
def sortedIndices {L : Type} (comesBefore : FractionalPart L → FractionalPart L → Bool)
    (parts : List (FractionalPart L)) : List Nat :=
  (parts.mergeSort fun a b => !comesBefore b a).map FractionalPart.index

namespace LongDouble

variable {L : Type} (ld : LongDouble L)

def weightSum (scenarios : List ScenarioSpec) : L :=
  scenarios.foldl (fun sum scenario => ld.add sum (ld.ofSize scenario.requests)) ld.zero

/-- The body of the loop over the scenarios.  `total_ops - allocated` does not wrap, since
`allocated` never exceeds `total_ops`. -/
def allocateScenario (totalOps : Nat) (weightSum : L) (state : Allocation L)
    (scenario : ScenarioSpec) : Allocation L :=
  let quota := ld.div (ld.mul (ld.ofSize totalOps) (ld.ofSize scenario.requests)) weightSum
  let baseLd := ld.floor quota
  let baseLd := if ld.lt baseLd ld.zero then ld.zero else baseLd
  let baseLd := if ld.lt (ld.ofSize totalOps) baseLd then ld.ofSize totalOps else baseLd
  let base := ld.toSize baseLd
  let base := if base > totalOps - state.allocated then totalOps - state.allocated else base
  let fraction := ld.sub quota (ld.ofSize base)
  let fraction := if ld.lt fraction ld.zero then ld.zero else fraction
  { requests := state.requests ++ [base]
    allocated := state.allocated + base
    fractionalParts := state.fractionalParts ++ [⟨state.requests.length, fraction⟩] }

def allocate (scenarios : List ScenarioSpec) (totalOps : Nat) : Allocation L :=
  scenarios.foldl (ld.allocateScenario totalOps (ld.weightSum scenarios)) ⟨[], 0, []⟩

/-- The order in which the remainder is handed out. -/
def largerFraction (a b : FractionalPart L) : Bool :=
  if ld.eq a.fraction b.fraction then a.index < b.index else ld.lt b.fraction a.fraction

/-- The order in which the excess is taken back. -/
def smallerFraction (a b : FractionalPart L) : Bool :=
  if ld.eq a.fraction b.fraction then a.index < b.index else ld.lt a.fraction b.fraction

def distributeScenarioRequests (scenarios : List ScenarioSpec) (totalOps : Nat) : List Nat :=
  if scenarios = [] ∨ totalOps = 0 then List.replicate scenarios.length 0
  else if ld.le (ld.weightSum scenarios) ld.zero then
    let base := totalOps / scenarios.length
    let remainder := totalOps % scenarios.length
    (List.range scenarios.length).map fun i => base + if i < remainder then 1 else 0
  else
    let allocation := ld.allocate scenarios totalOps
    if allocation.allocated = totalOps then allocation.requests
    else if allocation.allocated < totalOps then
      roundRobin (· + 1) (sortedIndices ld.largerFraction allocation.fractionalParts)
        (totalOps - allocation.allocated) allocation.requests
    else
      roundRobin (fun n => if n > 0 then n - 1 else n)
        (sortedIndices ld.smallerFraction allocation.fractionalParts)
        (allocation.allocated - totalOps) allocation.requests

/-- Exact rational arithmetic. -/
def exact : LongDouble ℚ where
  ofSize n := n
  toSize q := ⌊q⌋₊
  zero := 0
  add a b := a + b
  sub a b := a - b
  mul a b := a * b
  div a b := a / b
  floor q := ⌊q⌋
  eq a b := a = b
  lt a b := a < b
  le a b := a ≤ b

/-! ### The sum of the counts -/

/-- What the loop over the scenarios keeps, whatever the arithmetic answers. -/
structure Balanced (totalOps : Nat) (handled : List ScenarioSpec) (state : Allocation L) :
    Prop where
  within : state.allocated ≤ totalOps
  sum : state.requests.sum = state.allocated
  length : state.requests.length = handled.length
  indices : state.fractionalParts.map FractionalPart.index = List.range handled.length

theorem allocateScenario_balanced {totalOps : Nat} {weightSum : L} {handled : List ScenarioSpec}
    {state : Allocation L} (balanced : Balanced totalOps handled state)
    (scenario : ScenarioSpec) :
    Balanced totalOps (handled ++ [scenario])
      (ld.allocateScenario totalOps weightSum state scenario) := by
  obtain ⟨within, sum, length, indices⟩ := balanced
  refine ⟨?_, ?_, ?_, ?_⟩
  · dsimp only [allocateScenario]
    generalize ld.toSize _ = base
    split <;> omega
  · dsimp only [allocateScenario]
    rw [List.sum_append, sum, List.sum_singleton]
  · dsimp only [allocateScenario]
    rw [List.length_append, List.length_append, length]
    rfl
  · dsimp only [allocateScenario]
    rw [List.map_append, indices, List.length_append, List.length_singleton, List.range_succ,
      length]
    rfl

theorem allocate_balanced (scenarios : List ScenarioSpec) (totalOps : Nat) :
    Balanced totalOps scenarios (ld.allocate scenarios totalOps) := by
  unfold allocate
  generalize ld.weightSum scenarios = weightSum
  induction scenarios using List.reverseRecOn with
  | nil => exact ⟨Nat.zero_le _, rfl, rfl, rfl⟩
  | append_singleton scenarios scenario ih =>
    rw [List.foldl_append]
    exact ld.allocateScenario_balanced ih scenario

/-- Every scenario has one place in the order of its fraction. -/
theorem sortedIndices_perm (comesBefore : FractionalPart L → FractionalPart L → Bool)
    (scenarios : List ScenarioSpec) (totalOps : Nat) :
    (sortedIndices comesBefore (ld.allocate scenarios totalOps).fractionalParts).Perm
      (List.range scenarios.length) := by
  rw [← (ld.allocate_balanced scenarios totalOps).indices]
  exact (List.mergeSort_perm _ _).map _

theorem sum_distribute {scenarios : List ScenarioSpec} (nonempty : scenarios ≠ [])
    (totalOps : Nat) : (ld.distributeScenarioRequests scenarios totalOps).sum = totalOps := by
  have positive : 0 < scenarios.length := List.length_pos_iff.mpr nonempty
  obtain ⟨within, sum, length, -⟩ := ld.allocate_balanced scenarios totalOps
  unfold distributeScenarioRequests
  dsimp only
  split
  · rename_i trivial
    simp [trivial.resolve_left nonempty]
  · split
    · have small := Nat.mod_lt totalOps positive
      rw [sum_evenShares, Nat.min_eq_right (by omega), Nat.div_add_mod]
    · split
      · rename_i all
        rw [sum, all]
      · have perm := ld.sortedIndices_perm ld.largerFraction scenarios totalOps
        rw [if_pos (by omega), sum_roundRobin_succ ?_ ?_, sum]
        · omega
        · intro empty
          rw [empty] at perm
          have := perm.length_eq
          simp at this
          omega
        · intro i member
          rw [length, ← List.mem_range]
          exact perm.subset member

/-! ### Exact arithmetic -/

/-- The sum of the weights. -/
def totalWeight (scenarios : List ScenarioSpec) : Nat :=
  (scenarios.map ScenarioSpec.requests).sum

theorem totalWeight_append (front back : List ScenarioSpec) :
    totalWeight (front ++ back) = totalWeight front + totalWeight back := by
  rw [totalWeight, List.map_append, List.sum_append]
  rfl

theorem exact_weightSum (scenarios : List ScenarioSpec) :
    exact.weightSum scenarios = totalWeight scenarios := by
  induction scenarios using List.reverseRecOn with
  | nil => exact Nat.cast_zero.symm
  | append_singleton scenarios scenario ih =>
    rw [weightSum, List.foldl_append, totalWeight_append, Nat.cast_add, ← ih]
    rfl

/-- `total_ops * weight / weight_sum`, rounded down. -/
def share (totalOps weightSum : Nat) (scenario : ScenarioSpec) : Nat :=
  totalOps * scenario.requests / weightSum

def remainder (totalOps weightSum : Nat) (scenario : ScenarioSpec) : Nat :=
  totalOps * scenario.requests % weightSum

/-- A quota is the rounded share and a fraction. -/
theorem quota_eq {totalOps weightSum : Nat} (positive : 0 < weightSum) (scenario : ScenarioSpec) :
    (totalOps * scenario.requests : ℚ) / weightSum =
      share totalOps weightSum scenario +
        (remainder totalOps weightSum scenario : ℚ) / weightSum := by
  have nonzero : (weightSum : ℚ) ≠ 0 := Nat.cast_ne_zero.mpr (by omega)
  have split := Nat.div_add_mod' (totalOps * scenario.requests) weightSum
  rw [add_div' _ _ _ nonzero, div_left_inj' nonzero]
  exact_mod_cast split.symm

theorem floor_quota (totalOps weightSum : Nat) (scenario : ScenarioSpec) :
    ⌊(totalOps * scenario.requests : ℚ) / weightSum⌋ = share totalOps weightSum scenario := by
  have whole := Rat.floor_natCast_div_natCast (totalOps * scenario.requests) weightSum
  rw [Nat.cast_mul] at whole
  exact whole

theorem exact_allocateScenario {totalOps weightSum : Nat} (positive : 0 < weightSum)
    {state : Allocation ℚ} {scenario : ScenarioSpec}
    (fits : state.allocated + share totalOps weightSum scenario ≤ totalOps) :
    exact.allocateScenario totalOps weightSum state scenario =
      { requests := state.requests ++ [share totalOps weightSum scenario]
        allocated := state.allocated + share totalOps weightSum scenario
        fractionalParts := state.fractionalParts ++
          [⟨state.requests.length, (remainder totalOps weightSum scenario : ℚ) / weightSum⟩] } := by
  have quota : exact.div (exact.mul (exact.ofSize totalOps) (exact.ofSize scenario.requests))
      (weightSum : ℚ) = (totalOps * scenario.requests : ℚ) / weightSum := rfl
  have floor : exact.floor ((totalOps * scenario.requests : ℚ) / weightSum) =
      (share totalOps weightSum scenario : ℚ) := by
    show ((⌊_⌋ : ℤ) : ℚ) = _
    rw [floor_quota, Int.cast_natCast]
  have notNegative : ¬exact.lt (share totalOps weightSum scenario : ℚ) exact.zero = true := by
    simp [exact]
  have notLarge :
      ¬exact.lt (exact.ofSize totalOps) (share totalOps weightSum scenario : ℚ) = true := by
    simp [exact]
    omega
  have size : exact.toSize (share totalOps weightSum scenario : ℚ) =
      share totalOps weightSum scenario := Nat.floor_natCast _
  have fraction : exact.sub ((totalOps * scenario.requests : ℚ) / weightSum)
      (exact.ofSize (share totalOps weightSum scenario)) =
        (remainder totalOps weightSum scenario : ℚ) / weightSum := by
    rw [quota_eq positive]
    exact add_sub_cancel_left _ _
  have positiveFraction : ¬exact.lt ((remainder totalOps weightSum scenario : ℚ) / weightSum)
      exact.zero = true := by
    simp [exact]
    positivity
  dsimp only [allocateScenario]
  rw [quota, floor, if_neg notNegative, if_neg notLarge, size, if_neg (by omega), fraction,
    if_neg positiveFraction]

/-- The rounded shares of some scenarios and their remainders. -/
theorem sum_share_add_sum_remainder (totalOps weightSum : Nat) (scenarios : List ScenarioSpec) :
    weightSum * (scenarios.map (share totalOps weightSum)).sum +
        (scenarios.map (remainder totalOps weightSum)).sum = totalOps * totalWeight scenarios := by
  have total : (scenarios.map fun s => totalOps * s.requests).sum =
      totalOps * totalWeight scenarios := List.sum_map_mul_left _ _ _
  rw [← total]
  exact sum_div_add_sum_mod _ weightSum scenarios

theorem sum_share_le (totalOps : Nat) {weightSum : Nat} (positive : 0 < weightSum)
    {scenarios : List ScenarioSpec} (few : totalWeight scenarios ≤ weightSum) :
    (scenarios.map (share totalOps weightSum)).sum ≤ totalOps := by
  have split := sum_share_add_sum_remainder totalOps weightSum scenarios
  have bound := Nat.mul_le_mul_left totalOps few
  refine Nat.le_of_mul_le_mul_left ?_ positive
  rw [Nat.mul_comm weightSum totalOps]
  omega

/-- The part that the loop stores for a scenario. -/
def exactPart (totalOps weightSum i : Nat) (scenario : ScenarioSpec) : FractionalPart ℚ :=
  ⟨i, (remainder totalOps weightSum scenario : ℚ) / weightSum⟩

theorem exact_foldl {totalOps weightSum : Nat} (positive : 0 < weightSum)
    {scenarios : List ScenarioSpec} (few : totalWeight scenarios ≤ weightSum) :
    scenarios.foldl (exact.allocateScenario totalOps weightSum) ⟨[], 0, []⟩ =
      { requests := scenarios.map (share totalOps weightSum)
        allocated := (scenarios.map (share totalOps weightSum)).sum
        fractionalParts := scenarios.mapIdx (exactPart totalOps weightSum) } := by
  induction scenarios using List.reverseRecOn with
  | nil => rfl
  | append_singleton scenarios scenario ih =>
    have fits := sum_share_le totalOps positive few
    rw [List.map_append, List.sum_append, List.map_singleton, List.sum_singleton] at fits
    rw [totalWeight_append] at few
    rw [List.foldl_append, ih (by omega), List.foldl_cons, List.foldl_nil,
      exact_allocateScenario positive fits, List.map_append, List.sum_append, List.map_singleton,
      List.sum_singleton, List.mapIdx_concat, List.length_map]
    rfl

theorem exact_allocate {totalOps : Nat} {scenarios : List ScenarioSpec}
    (positive : 0 < totalWeight scenarios) :
    exact.allocate scenarios totalOps =
      { requests := scenarios.map (share totalOps (totalWeight scenarios))
        allocated := (scenarios.map (share totalOps (totalWeight scenarios))).sum
        fractionalParts := scenarios.mapIdx (exactPart totalOps (totalWeight scenarios)) } := by
  rw [allocate, exact_weightSum, exact_foldl positive le_rfl]

/-- The scenarios in the order in which the remainder is handed out. -/
def exactOrder (scenarios : List ScenarioSpec) (totalOps : Nat) : List Nat :=
  sortedIndices exact.largerFraction (exact.allocate scenarios totalOps).fractionalParts

/-- The number of requests that remain after rounding down. -/
def unallocated (scenarios : List ScenarioSpec) (totalOps : Nat) : Nat :=
  totalOps - (scenarios.map (share totalOps (totalWeight scenarios))).sum

theorem exact_distribute {scenarios : List ScenarioSpec} (positive : 0 < totalWeight scenarios)
    (totalOps : Nat) :
    exact.distributeScenarioRequests scenarios totalOps =
      roundRobin (· + 1) (exactOrder scenarios totalOps) (unallocated scenarios totalOps)
        (scenarios.map (share totalOps (totalWeight scenarios))) := by
  have within := sum_share_le totalOps positive (le_refl (totalWeight scenarios))
  have weighted : ¬exact.le (exact.weightSum scenarios) exact.zero = true := by
    rw [exact_weightSum]
    simp [exact]
    omega
  have nonempty : scenarios ≠ [] := by
    rintro rfl
    simp [totalWeight] at positive
  unfold distributeScenarioRequests exactOrder unallocated
  dsimp only
  rw [if_neg weighted, exact_allocate positive]
  dsimp only
  split
  · rename_i trivial
    have zero := trivial.resolve_left nonempty
    subst zero
    rw [Nat.zero_sub, roundRobin_zero]
    refine (List.eq_replicate_iff.mpr ⟨List.length_map _, ?_⟩).symm
    simp [share]
  · split
    · rename_i all
      rw [all, Nat.sub_self, roundRobin_zero]
    · rw [if_pos (by omega)]

/-- The remainder of the scenario at an index. -/
def remainderAt (scenarios : List ScenarioSpec) (totalOps i : Nat) : Nat :=
  (scenarios.map (remainder totalOps (totalWeight scenarios))).getD i 0

theorem remainderAt_of_getElem? {scenarios : List ScenarioSpec} {totalOps i : Nat}
    {scenario : ScenarioSpec} (found : scenarios[i]? = some scenario) :
    remainderAt scenarios totalOps i = remainder totalOps (totalWeight scenarios) scenario := by
  rw [remainderAt, List.getD_eq_getElem?_getD, List.getElem?_map, found]
  rfl

theorem remainderAt_lt {scenarios : List ScenarioSpec} (positive : 0 < totalWeight scenarios)
    (totalOps i : Nat) : remainderAt scenarios totalOps i < totalWeight scenarios := by
  cases found : scenarios[i]? with
  | none =>
    rw [remainderAt, List.getD_eq_getElem?_getD, List.getElem?_map, found]
    exact positive
  | some scenario =>
    rw [remainderAt_of_getElem? found]
    exact Nat.mod_lt _ positive

theorem exactOrder_perm (scenarios : List ScenarioSpec) (totalOps : Nat) :
    (exactOrder scenarios totalOps).Perm (List.range scenarios.length) :=
  exact.sortedIndices_perm exact.largerFraction scenarios totalOps

/-- The remainders make as many units as remain. -/
theorem sum_remainderAt (scenarios : List ScenarioSpec) (totalOps : Nat) :
    ((exactOrder scenarios totalOps).map (remainderAt scenarios totalOps)).sum =
      unallocated scenarios totalOps * totalWeight scenarios := by
  have ordered : (List.range scenarios.length).map (remainderAt scenarios totalOps) =
      scenarios.map (remainder totalOps (totalWeight scenarios)) := by
    refine List.ext_getElem (by simp) fun i inside _ => ?_
    have inside : i < scenarios.length := by simpa using inside
    rw [List.getElem_map, List.getElem_map, List.getElem_range,
      remainderAt_of_getElem? (List.getElem?_eq_getElem inside)]
  have split := sum_share_add_sum_remainder totalOps (totalWeight scenarios) scenarios
  rw [Nat.mul_comm] at split
  rw [((exactOrder_perm scenarios totalOps).map _).sum_eq, ordered, unallocated, Nat.sub_mul]
  exact Nat.eq_sub_of_add_eq' split

theorem not_largerFraction {a b : FractionalPart ℚ} :
    (!exact.largerFraction b a) = true ↔
      b.fraction < a.fraction ∨ (b.fraction = a.fraction ∧ a.index ≤ b.index) := by
  unfold largerFraction
  by_cases same : b.fraction = a.fraction
  · simp [exact, same]
  · simp [exact, same]
    exact ⟨fun le => lt_of_le_of_ne le same, le_of_lt⟩

/-- The order descends by the remainders. -/
theorem exactOrder_descending {scenarios : List ScenarioSpec}
    (positive : 0 < totalWeight scenarios) (totalOps : Nat) :
    (exactOrder scenarios totalOps).Pairwise fun i j =>
      remainderAt scenarios totalOps j ≤ remainderAt scenarios totalOps i := by
  have fractionOf : ∀ part ∈ scenarios.mapIdx (exactPart totalOps (totalWeight scenarios)),
      part.fraction = (remainderAt scenarios totalOps part.index : ℚ) / totalWeight scenarios := by
    intro part member
    obtain ⟨i, inside, rfl⟩ := List.mem_mapIdx.mp member
    rw [exactPart, remainderAt_of_getElem? (List.getElem?_eq_getElem inside)]
  rw [exactOrder, exact_allocate positive, sortedIndices, List.pairwise_map]
  refine (List.pairwise_mergeSort ?_ ?_ _).imp_of_mem ?_
  · intro a b c
    simp only [not_largerFraction]
    grind
  · intro a b
    rw [Bool.or_eq_true, not_largerFraction, not_largerFraction]
    grind
  · intro a b first last ordered
    have le : b.fraction ≤ a.fraction := by
      rcases not_largerFraction.mp ordered with less | ⟨same, -⟩
      · exact less.le
      · exact same.le
    rw [fractionOf a ((List.mergeSort_perm _ _).subset first),
      fractionOf b ((List.mergeSort_perm _ _).subset last),
      div_le_div_iff_of_pos_right (Nat.cast_pos.mpr positive)] at le
    exact_mod_cast le

/-- The scenarios that get a request of the remainder. -/
def roundedUp (scenarios : List ScenarioSpec) (totalOps : Nat) : List Nat :=
  (exactOrder scenarios totalOps).take (unallocated scenarios totalOps)

theorem exact_distribute_getElem? {scenarios : List ScenarioSpec}
    (positive : 0 < totalWeight scenarios) {totalOps i : Nat} {scenario : ScenarioSpec}
    (found : scenarios[i]? = some scenario) :
    (exact.distributeScenarioRequests scenarios totalOps)[i]? =
      some (share totalOps (totalWeight scenarios) scenario +
        if i ∈ roundedUp scenarios totalOps then 1 else 0) := by
  have distinct : (exactOrder scenarios totalOps).Nodup :=
    (exactOrder_perm scenarios totalOps).nodup_iff.mpr List.nodup_range
  have round : unallocated scenarios totalOps ≤ (exactOrder scenarios totalOps).length :=
    le_length_of_sum positive (fun i _ => remainderAt_lt positive totalOps i)
      (sum_remainderAt scenarios totalOps)
  rw [exact_distribute positive, getElem?_roundRobin distinct round, List.getElem?_map, found,
    roundedUp]
  split <;> rfl

/-- Only quotas that are not whole are rounded up. -/
theorem remainder_pos_of_roundedUp {scenarios : List ScenarioSpec}
    (positive : 0 < totalWeight scenarios) {totalOps i : Nat} {scenario : ScenarioSpec}
    (found : scenarios[i]? = some scenario) (up : i ∈ roundedUp scenarios totalOps) :
    0 < remainder totalOps (totalWeight scenarios) scenario := by
  rw [← remainderAt_of_getElem? found]
  exact pos_of_mem_take (exactOrder_descending positive totalOps)
    (fun i _ => remainderAt_lt positive totalOps i) (sum_remainderAt scenarios totalOps) up

theorem ceil_quota {totalOps weightSum : Nat} {scenario : ScenarioSpec}
    (positive : 0 < weightSum) (positiveRest : 0 < remainder totalOps weightSum scenario) :
    ⌈(totalOps * scenario.requests : ℚ) / weightSum⌉₊ =
      share totalOps weightSum scenario + 1 := by
  have denominator : (0 : ℚ) < weightSum := Nat.cast_pos.mpr positive
  have numerator : (0 : ℚ) < remainder totalOps weightSum scenario := Nat.cast_pos.mpr positiveRest
  have small : (remainder totalOps weightSum scenario : ℚ) ≤ weightSum :=
    Nat.cast_le.mpr (Nat.mod_lt _ positive).le
  rw [quota_eq positive, Nat.ceil_eq_iff (by omega), Nat.add_sub_cancel]
  constructor
  · exact lt_add_of_pos_right _ (div_pos numerator denominator)
  · rw [Nat.cast_add, Nat.cast_one, add_le_add_iff_left]
    exact (div_le_one denominator).mpr small

/-- Of two scenarios with the same rounded share the heavier one has the larger remainder. -/
theorem remainder_lt_of_share_eq {totalOps weightSum : Nat} {light heavy : ScenarioSpec}
    (someOps : 0 < totalOps) (larger : light.requests < heavy.requests)
    (same : share totalOps weightSum light = share totalOps weightSum heavy) :
    remainder totalOps weightSum light < remainder totalOps weightSum heavy := by
  have less : totalOps * light.requests < totalOps * heavy.requests :=
    Nat.mul_lt_mul_of_pos_left larger someOps
  have splitLight := Nat.div_add_mod (totalOps * light.requests) weightSum
  have splitHeavy := Nat.div_add_mod (totalOps * heavy.requests) weightSum
  unfold share at same
  rw [same] at splitLight
  unfold remainder
  omega

/-- Among equal rounded shares a larger weight has a larger remainder, and is rounded up first. -/
theorem distribute_mono {scenarios : List ScenarioSpec} (positive : 0 < totalWeight scenarios)
    {totalOps i j : Nat} {light heavy : ScenarioSpec} (foundLight : scenarios[i]? = some light)
    (foundHeavy : scenarios[j]? = some heavy) (larger : light.requests < heavy.requests) :
    (share totalOps (totalWeight scenarios) light +
        if i ∈ roundedUp scenarios totalOps then 1 else 0) ≤
      share totalOps (totalWeight scenarios) heavy +
        if j ∈ roundedUp scenarios totalOps then 1 else 0 := by
  have shares : share totalOps (totalWeight scenarios) light ≤
      share totalOps (totalWeight scenarios) heavy :=
    Nat.div_le_div_right (Nat.mul_le_mul_left totalOps larger.le)
  by_cases up : i ∈ roundedUp scenarios totalOps
  · by_cases same : share totalOps (totalWeight scenarios) light =
        share totalOps (totalWeight scenarios) heavy
    · have remainders : remainderAt scenarios totalOps i < remainderAt scenarios totalOps j := by
        have someOps : 0 < totalOps := by
          have positive := remainder_pos_of_roundedUp positive foundLight up
          by_contra zero
          simp [remainder, Nat.eq_zero_of_not_pos zero] at positive
        rw [remainderAt_of_getElem? foundLight, remainderAt_of_getElem? foundHeavy]
        exact remainder_lt_of_share_eq someOps larger same
      have inside : j ∈ exactOrder scenarios totalOps := by
        rw [(exactOrder_perm scenarios totalOps).mem_iff, List.mem_range]
        exact (List.getElem?_eq_some_iff.mp foundHeavy).1
      have both : j ∈ roundedUp scenarios totalOps :=
        mem_take_of_key_lt (exactOrder_descending positive totalOps) up inside remainders
      rw [if_pos up, if_pos both, same]
    · rw [if_pos up]
      omega
  · rw [if_neg up]
    omega

/-- The counts sum to `total_ops` whatever the arithmetic answers, and the loop never allocates
more, so nothing is taken back.  With exact arithmetic and a weight that is not 0, a count is the
quota rounded down or up and the counts are in the order of the weights. -/
theorem distributeScenarioRequests_apportions {scenarios : List ScenarioSpec}
    (nonempty : scenarios ≠ []) (totalOps : Nat) :
    (∀ (L : Type) (ld : LongDouble L),
      (ld.distributeScenarioRequests scenarios totalOps).sum = totalOps ∧
        (ld.allocate scenarios totalOps).allocated ≤ totalOps) ∧
    ((∃ scenario ∈ scenarios, scenario.requests ≠ 0) →
      (exact.distributeScenarioRequests scenarios totalOps).length = scenarios.length ∧
      (∀ (i : Nat) (scenario : ScenarioSpec) (count : Nat), scenarios[i]? = some scenario →
        (exact.distributeScenarioRequests scenarios totalOps)[i]? = some count →
        count = ⌊(totalOps * scenario.requests : ℚ) / totalWeight scenarios⌋₊ ∨
          count = ⌈(totalOps * scenario.requests : ℚ) / totalWeight scenarios⌉₊) ∧
      ∀ (i j : Nat) (light heavy : ScenarioSpec) (fewer more : Nat),
        scenarios[i]? = some light → scenarios[j]? = some heavy →
        (exact.distributeScenarioRequests scenarios totalOps)[i]? = some fewer →
        (exact.distributeScenarioRequests scenarios totalOps)[j]? = some more →
        light.requests < heavy.requests → fewer ≤ more) := by
  refine ⟨fun L ld => ⟨ld.sum_distribute nonempty totalOps,
    (ld.allocate_balanced scenarios totalOps).within⟩, ?_⟩
  rintro ⟨weighted, member, nonzero⟩
  have positive : 0 < totalWeight scenarios := by
    refine Nat.pos_of_ne_zero fun zero => nonzero ?_
    exact List.sum_eq_zero_iff_forall_eq_nat.mp zero _ (List.mem_map_of_mem member)
  refine ⟨?_, ?_, ?_⟩
  · rw [exact_distribute positive, length_roundRobin, List.length_map]
  · intro i scenario count found counted
    rw [exact_distribute_getElem? positive found, Option.some.injEq] at counted
    rw [← counted]
    by_cases up : i ∈ roundedUp scenarios totalOps
    · right
      rw [if_pos up, ceil_quota positive (remainder_pos_of_roundedUp positive found up)]
    · left
      rw [if_neg up, Nat.add_zero, ← Int.floor_toNat, floor_quota, Int.toNat_natCast]
  · intro i j light heavy fewer more foundLight foundHeavy countedLight countedHeavy larger
    rw [exact_distribute_getElem? positive foundLight, Option.some.injEq] at countedLight
    rw [exact_distribute_getElem? positive foundHeavy, Option.some.injEq] at countedHeavy
    rw [← countedLight, ← countedHeavy]
    exact distribute_mono positive foundLight foundHeavy larger

/-- Ten requests for the weights 1 and 2. -/
theorem thirds_apportioned :
    [(⟨1⟩ : ScenarioSpec), ⟨2⟩] ≠ [] ∧
      (exact.distributeScenarioRequests [⟨1⟩, ⟨2⟩] 10).sum = 10 ∧
      ∀ fewer more : Nat, (exact.distributeScenarioRequests [⟨1⟩, ⟨2⟩] 10)[0]? = some fewer →
        (exact.distributeScenarioRequests [⟨1⟩, ⟨2⟩] 10)[1]? = some more → fewer ≤ more := by
  have nonempty : [(⟨1⟩ : ScenarioSpec), ⟨2⟩] ≠ [] := by decide
  obtain ⟨sums, weighted⟩ := distributeScenarioRequests_apportions nonempty 10
  obtain ⟨-, -, ordered⟩ := weighted ⟨⟨1⟩, by decide, by decide⟩
  refine ⟨nonempty, (sums ℚ exact).1, fun fewer more first second => ?_⟩
  exact ordered 0 1 ⟨1⟩ ⟨2⟩ fewer more rfl rfl first second (by decide)

end LongDouble

end DistributedCache.Bench
