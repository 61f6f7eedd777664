import DistributedCache.Core.Expiry

/-! How long an entry with a `ttl` stays readable.  `Set` adds the `ttl` to its reading of the clock
in 64-bit arithmetic without a check of the range, so the expiry that it stores is the exact one as
long as the exact one is a time point, and lies before the greatest reading otherwise. -/

namespace DistributedCache.Core

/-- `std::chrono::milliseconds::max()`, and the greatest count of nanoseconds. -/
def int64Max : Int := 2 ^ 63 - 1

/-- The exact sum of a reading in nanoseconds and a `ttl` in milliseconds. -/
def exactExpiry (now ttl : Int) : Int := now + ttl * 1000000

theorem addMilliseconds_eq (now ttl : Int) :
    addMilliseconds now ttl = (exactExpiry now ttl).bmod (2 ^ 64) := rfl

/-- An expiry that is a time point is stored as it is. -/
theorem addMilliseconds_exact {now ttl : Int} (start : 0 ≤ now) (positive : 0 ≤ ttl)
    (fits : exactExpiry now ttl ≤ int64Max) : addMilliseconds now ttl = exactExpiry now ttl := by
  rw [addMilliseconds_eq]
  apply Int.bmod_eq_of_le_mul_two
  · unfold exactExpiry
    omega
  · unfold int64Max at fits
    omega

/-- Whatever is stored, the clock can read it. -/
theorem addMilliseconds_le (now ttl : Int) : addMilliseconds now ttl ≤ int64Max := by
  have bound : addMilliseconds now ttl < (2 ^ 64 + 1) / 2 := Int.bmod_lt (by decide)
  unfold int64Max
  omega

/-- The last call reads the clock after the others. -/
theorem Chronological.last {front : List TimedCall} {last : TimedCall}
    (order : Chronological (front ++ [last])) : ∀ call ∈ front, call.2 1 ≤ last.2 1 := by
  unfold Chronological at order
  rw [List.flatMap_append] at order
  intro call member
  apply (List.pairwise_append.mp order).2.2
  · exact List.mem_flatMap.mpr ⟨call, member, by simp⟩
  · simp

namespace ConcurrentStore

variable {cfg : Config} {store : ConcurrentStore cfg} {key value : Bytes} {expiry : Option Int}

/-- The key holds the value until the expiry. -/
def Holds (store : ConcurrentStore cfg) (key value : Bytes) (expiry : Option Int) : Prop :=
  ∃ entry, store.find key = some entry ∧ entry.value = value ∧ entry.expiresAt = expiry

theorem Holds.congr {after : ConcurrentStore cfg} (holds : store.Holds key value expiry)
    (same : after.find key = store.find key) : after.Holds key value expiry := by
  obtain ⟨entry, found, rest⟩ := holds
  exact ⟨entry, same.trans found, rest⟩

/-- A `Get` before the expiry returns the value and leaves it there. -/
theorem Holds.getSection {limit now : Int} (holds : store.Holds key value (some limit))
    (early : now < limit) : (store.getSection key now).2 = some value ∧
      (store.getSection key now).1.Holds key value (some limit) := by
  obtain ⟨entry, found, rfl, expires⟩ := holds
  have alive : ¬ entry.isExpired now := by
    intro expired
    obtain ⟨other, same, passed⟩ := ValueEntry.isExpired_iff.mp expired
    rw [expires] at same
    cases same
    omega
  have section_eq : store.getSection key now = (store.touch key entry now, some entry.value) := by
    rw [ConcurrentStore.getSection, found]
    exact if_neg alive
  rw [section_eq]
  exact ⟨rfl, _, find_touch_self now, by simp, by simp [expires]⟩

/-- A `Get` from the expiry on returns nothing. -/
theorem Holds.getSection_expired {limit now : Int} (holds : store.Holds key value (some limit))
    (passed : limit ≤ now) : (store.getSection key now).2 = none := by
  obtain ⟨entry, found, rfl, expires⟩ := holds
  have dead : entry.isExpired now := ValueEntry.isExpired_iff.mpr ⟨limit, expires, passed⟩
  rw [ConcurrentStore.getSection, found]
  exact congrArg Prod.snd (if_pos dead)

end ConcurrentStore

namespace Run

variable {cfg : Config} {store after : ConcurrentStore cfg} {calls : List TimedCall}
  {made : List Int} {results : List (Option Bytes)} {key value : Bytes}

/-- In a store without a limit, a `Set` leaves its value with the expiry that it computed. -/
theorem holds_set {ttl : Option Int} {clock : Nat → Int} (unbounded : cfg.maxEntries = 0)
    (rep : store.Rep) (run : Run store [(.set key value ttl, clock)] after made results) :
    after.Holds key value (ttl.map (addMilliseconds (clock 0))) := by
  obtain ⟨-, -, next, ends, agree⟩ := run.set rep
  rw [ConcurrentStore.enforceCapacity, if_pos unbounded] at ends
  cases ends
  obtain ⟨entry, found, rest⟩ := ConcurrentStore.find_setSection_self store key value
    (ttl.map (addMilliseconds (clock 0))) (writtenAt clock ttl)
  exact ⟨entry, (agree.find key).trans found, rest⟩

/-- The calls that leave the value of a key alone: no `Set` writes it, and the readings come before
the expiry. -/
def Spares (key : Bytes) (limit : Int) (call : TimedCall) : Prop :=
  (∀ value ttl, call.1 ≠ .set key value ttl) ∧ call.2 1 < limit

theorem holds_call {limit : Int} {call : TimedCall} (unbounded : cfg.maxEntries = 0)
    (rep : store.Rep) (holds : store.Holds key value (some limit)) (spares : Spares key limit call)
    (run : Run store [call] after made results) : after.Holds key value (some limit) := by
  obtain ⟨request, clock⟩ := call
  obtain ⟨other_set, early⟩ := spares
  cases request with
  | set other written ttl =>
    have different : key ≠ other := by
      rintro rfl
      exact other_set written ttl rfl
    obtain ⟨-, -, next, ends, agree⟩ := run.set rep
    rw [ConcurrentStore.enforceCapacity, if_pos unbounded] at ends
    cases ends
    exact holds.congr ((agree.find key).trans
      (ConcurrentStore.find_setSection_ne store written _ _ different))
  | get other =>
    obtain ⟨agree, -, -⟩ := run.get rep
    by_cases same : key = other
    · subst same
      exact (holds.getSection early).2.congr (agree.find key)
    · exact holds.congr ((agree.find key).trans
        (ConcurrentStore.find_getSection_ne store _ same))

/-- Calls that spare the key keep what it holds. -/
theorem holds_run {limit : Int} (unbounded : cfg.maxEntries = 0) (rep : store.Rep)
    (holds : store.Holds key value (some limit)) (spare : ∀ call ∈ calls, Spares key limit call)
    (run : Run store calls after made results) : after.Holds key value (some limit) :=
  run.invariant (fun store => store.Holds key value (some limit)) (Spares key limit)
    (fun _ _ _ _ _ rep holds spares run => holds_call unbounded rep holds spares run)
    rep holds spare

/-- What a `ttl` asks for: after a `Set` at the reading `now` in any reachable store, and any calls
that do not write the key again, a `Get` at a reading before the exact expiry returns the value. -/
def Lasts (cfg : Config) (now ttl : Int) : Prop :=
  ∀ (history between : List TimedCall) (key value : Bytes) (write read : Nat → Int)
    (store after : ConcurrentStore cfg) (past made : List Int)
    (earlier results : List (Option Bytes)),
    Run (ConcurrentStore.new cfg) history store past earlier →
    Run store ((.set key value (some ttl), write) :: (between ++ [(.get key, read)])) after made
      results →
    Chronological ((.set key value (some ttl), write) :: (between ++ [(.get key, read)])) →
    (∀ call ∈ between, ∀ value ttl, call.1 ≠ .set key value ttl) →
    write 0 = now → read 1 < exactExpiry now ttl → read 1 ≤ int64Max →
    results.getLast? = some (some value)

/-- The answer of a last `Get`. -/
theorem getLast_get {clock : Nat → Int} (rep : store.Rep)
    (run : Run store (calls ++ [(.get key, clock)]) after made results) :
    ∃ before past earlier, Run store calls before past earlier ∧
      results.getLast? = some (before.getSection key (clock 1)).2 := by
  obtain ⟨before, past, last, earlier, answer, first, second, -, rfl⟩ := run.split
  obtain ⟨-, rfl, -⟩ := second.get (first.rep rep)
  exact ⟨before, past, earlier, first, by simp⟩

/-- An expiry that is a time point is kept. -/
theorem lasts_of_fits (unbounded : cfg.maxEntries = 0) {now ttl : Int} (start : 0 ≤ now)
    (positive : 0 ≤ ttl) (fits : exactExpiry now ttl ≤ int64Max) : Lasts cfg now ttl := by
  rintro history between key value write read store after past made earlier results reached run
    order untouched rfl early -
  have rep := reached.rep (ConcurrentStore.new_rep cfg)
  have run' : Run store ((_ :: between) ++ [(.get key, read)]) after made results := run
  have order' : Chronological ((_ :: between) ++ [(.get key, read)]) := order
  obtain ⟨before, _, _, first, answer⟩ := getLast_get rep run'
  obtain ⟨middle, _, _, _, _, written, spared, -, -⟩ :=
    @split cfg store before [(.set key value (some ttl), write)] between _ _ first
  have holds := holds_set unbounded rep written
  rw [Option.map_some, addMilliseconds_exact start positive fits] at holds
  have spare : ∀ call ∈ between, Spares key (exactExpiry (write 0) ttl) call := by
    intro call member
    have earlier := order'.last call (List.mem_cons_of_mem _ member)
    exact ⟨untouched call member, earlier.trans_lt early⟩
  have kept := holds_run unbounded (written.rep rep) holds spare spared
  rw [answer, (kept.getSection early).1]

/-- Past the time points, the greatest reading finds the entry expired. -/
theorem not_lasts_of_wraps (unbounded : cfg.maxEntries = 0) {now ttl : Int} (start : now ≤ int64Max)
    (wraps : int64Max < exactExpiry now ttl) : ¬ Lasts cfg now ttl := by
  intro lasts
  have rep := ConcurrentStore.new_rep cfg
  obtain ⟨after, made, results, run⟩ := total rep
    ([(.set [] [] (some ttl), fun _ => now)] ++ [(.get [], fun _ => int64Max)])
  have answer := lasts [] [] [] [] (fun _ => now) (fun _ => int64Max) _ after [] made [] results
    (.nil _) run (by simp [Chronological, start]) (by simp) rfl wraps le_rfl
  obtain ⟨before, _, _, written, last⟩ := getLast_get rep run
  have holds := holds_set unbounded rep written
  rw [last, holds.getSection_expired (addMilliseconds_le now ttl)] at answer
  cases answer

/-- No entry expires early exactly when the exact expiry is a time point. -/
theorem lasts_iff_fits (unbounded : cfg.maxEntries = 0) {now ttl : Int} (start : 0 ≤ now)
    (reading : now ≤ int64Max) (positive : 0 ≤ ttl) :
    Lasts cfg now ttl ↔ exactExpiry now ttl ≤ int64Max := by
  constructor
  · intro lasts
    by_contra wraps
    exact not_lasts_of_wraps unbounded reading (not_le.mp wraps) lasts
  · exact lasts_of_fits unbounded start positive

/-- A store without a limit. -/
def unlimitedConfig : Config := ⟨1, 0, fun _ => 0⟩

/-- An hour from the start of the clock. -/
theorem lasts_hour : exactExpiry 0 3600000 ≤ int64Max ∧ Lasts unlimitedConfig 0 3600000 :=
  ⟨by decide, (lasts_iff_fits rfl (by decide) (by decide) (by decide)).mpr (by decide)⟩

/-- An entry with the longest `ttl`, and a `Get` right after. -/
def longestTtl : List TimedCall :=
  [(.set (ascii "a") (ascii "x") (some int64Max), fun n => n), (.get (ascii "a"), fun n => n + 3)]

/-- An entry with the longest `ttl` has expired as soon as it is there. -/
theorem longest_ttl_expires_at_once : ∃ after made,
    Run (ConcurrentStore.new unlimitedConfig) longestTtl after made [none] ∧
      ¬ Lasts unlimitedConfig 0 int64Max := by
  have ends : ((ConcurrentStore.new unlimitedConfig).runAll longestTtl).map (fun r => r.2.2) =
      some [none] := by decide
  obtain ⟨⟨after, made, results⟩, ran, rfl⟩ := Option.map_eq_some_iff.mp ends
  refine ⟨after, made, of_runAll ran, fun lasts => ?_⟩
  have answer := lasts [] [] (ascii "a") (ascii "x") _ _ _ _ _ _ _ _ (.nil _) (of_runAll ran)
    (by unfold Chronological; decide) (by simp) rfl (by decide) (by decide)
  simp at answer

end Run

end DistributedCache.Core
