import DistributedCache.Core.Capacity

/-! The store with one caller: `Set` and `Get` return, keep the representation invariant, and act on
the content of a store that is unbounded and has no expiring entry as on a map.  What one caller
does is also one of the schedules of the concurrent calls. -/

namespace DistributedCache.Core

open Lib

namespace ConcurrentStore

variable {cfg : Config} {store : ConcurrentStore cfg}

/-! ### Entries and candidates -/

theorem mem_entries_of_find {key : Bytes} {entry : ValueEntry}
    (found : store.find key = some entry) : (⟨key, entry⟩ : Entry) ∈ store.entries :=
  mem_allEntries.mpr ⟨_, lookup_eq_some_iff.mp found⟩

/-- The entries of a well-formed store are what `find` returns. -/
theorem Rep.mem_entries_iff (rep : store.Rep) {e : Entry} :
    e ∈ store.entries ↔ store.find e.1 = some e.2 := by
  refine ⟨fun member => ?_, mem_entries_of_find⟩
  obtain ⟨i, member⟩ := mem_allEntries.mp member
  rw [find, stripeFor, rep.placed i e member]
  exact lookup_eq_some_iff.mpr member

/-- An entry of the segment, as a candidate for eviction. -/
def Candidate (store : ConcurrentStore cfg) (segment : Bool) (candidate : EvictionCandidate) :
    Prop :=
  ∃ entry, store.find candidate.key = some entry ∧ entry.inProtectedSegment = segment ∧
    candidate = ⟨candidate.key, entry.lfuCount, entry.lastTouchNs, entry.inProtectedSegment⟩

theorem Rep.mem_scanStripe (rep : store.Rep) {segment : Bool} {i : Fin cfg.stripeCount}
    {candidate : EvictionCandidate} : candidate ∈ store.scanStripe segment i ↔
      store.Candidate segment candidate ∧ cfg.stripeIndexForKey candidate.key = i := by
  rw [scanStripe, candidates, List.mem_filterMap]
  constructor
  · rintro ⟨e, member, taken⟩
    split at taken
    · rename_i inSegment
      cases taken
      have found := rep.mem_entries_iff.mp (mem_allEntries.mpr ⟨i, member⟩)
      exact ⟨⟨e.2, found, inSegment, rfl⟩, rep.placed i e member⟩
    · cases taken
  · rintro ⟨⟨entry, found, inSegment, same⟩, rfl⟩
    refine ⟨⟨candidate.key, entry⟩, lookup_eq_some_iff.mp found, ?_⟩
    rw [if_pos inSegment, ← same]

/-! ### The loops of `EnforceCapacity` end -/

/-- A victim is stored, in the segment that the scan was for. -/
theorem selectVictimKey_find (rep : store.Rep) {segment : Bool}
    (some_victim : store.selectVictimKey segment ≠ []) :
    ∃ entry, store.find (store.selectVictimKey segment) = some entry ∧
      entry.inProtectedSegment = segment := by
  unfold selectVictimKey at *
  generalize gathered :
    (List.finRange cfg.stripeCount).flatMap (store.scanStripe segment) = found at *
  have nonempty : found ≠ [] := by
    rintro rfl
    exact some_victim rfl
  obtain ⟨candidate, member, victim⟩ := selectVictim_mem nonempty
  rw [← gathered] at member
  obtain ⟨i, -, scanned⟩ := List.mem_flatMap.mp member
  obtain ⟨⟨entry, found, inSegment, -⟩, -⟩ := rep.mem_scanStripe.mp scanned
  exact ⟨entry, victim ▸ found, inSegment⟩

theorem fetchSub_lt {n : Nat} (positive : 0 < n) : fetchSub n < n := by
  rw [fetchSub, if_neg (by omega)]
  omega

theorem demoteSection_protectedEntries_lt (rep : store.Rep) {victim : Bytes} {entry : ValueEntry}
    (found : store.find victim = some entry) (segment : entry.inProtectedSegment = true) :
    (store.demoteSection victim).protectedEntries < store.protectedEntries := by
  have positive : 0 < store.protectedEntries := by
    rw [rep.protectedTotal]
    exact List.countP_pos_iff.mpr ⟨_, mem_entries_of_find found, segment⟩
  simpa [demoteSection, found, segment] using fetchSub_lt positive

@[simp] theorem demoteSection_totalEntries (store : ConcurrentStore cfg) (victim : Bytes) :
    (store.demoteSection victim).totalEntries = store.totalEntries := by
  unfold demoteSection
  split
  · rfl
  · split <;> rfl

theorem evictSection_totalEntries_lt (rep : store.Rep) {victim : Bytes} {entry : ValueEntry}
    (found : store.find victim = some entry) :
    (store.evictSection victim).totalEntries < store.totalEntries := by
  have positive : 0 < store.totalEntries := by
    rw [rep.total]
    exact List.length_pos_of_mem (mem_entries_of_find found)
  simpa [evictSection, found, eraseEntry] using fetchSub_lt positive

theorem demoteLoop_total (fuel : Nat) (rep : store.Rep) (enough : store.protectedEntries < fuel) :
    ∃ after, demoteLoop fuel store store.totalEntries store.protectedEntries =
      some (after, after.totalEntries) ∧ after.Rep ∧ after.totalEntries = store.totalEntries := by
  induction fuel generalizing store with
  | zero => omega
  | succ fuel ih =>
    rw [demoteLoop]
    split
    · by_cases none_left : store.selectVictimKey true = []
      · exact ⟨store, by simp [none_left], rep, rfl⟩
      · obtain ⟨entry, found, segment⟩ := selectVictimKey_find rep none_left
        have fewer := demoteSection_protectedEntries_lt rep found segment
        obtain ⟨after, ends, rep', total⟩ :=
          ih (rep.demoteSection (store.selectVictimKey true)) (by omega)
        exact ⟨after, by simpa [none_left] using ends, rep', by simpa using total⟩
    · exact ⟨store, rfl, rep, rfl⟩

/-- The victim of the eviction loop is stored. -/
theorem find_of_victim (rep : store.Rep) {victim : Bytes}
    (chosen : (if store.selectVictimKey false = [] then store.selectVictimKey true
      else store.selectVictimKey false) = victim) (nonempty : victim ≠ []) :
    ∃ entry, store.find victim = some entry := by
  subst chosen
  split at nonempty
  · rename_i none_left
    rw [if_pos none_left]
    exact (selectVictimKey_find rep nonempty).imp fun _ => And.left
  · rename_i some_left
    rw [if_neg some_left]
    exact (selectVictimKey_find rep some_left).imp fun _ => And.left

theorem evictLoop_total (fuel : Nat) (rep : store.Rep) (enough : store.totalEntries < fuel) :
    ∃ after, evictLoop fuel store store.totalEntries = some after ∧ after.Rep := by
  induction fuel generalizing store with
  | zero => omega
  | succ fuel ih =>
    rw [evictLoop]
    dsimp only
    split
    · generalize chosen : (if store.selectVictimKey false = [] then store.selectVictimKey true
        else store.selectVictimKey false) = victim
      split
      · exact ⟨store, rfl, rep⟩
      · rename_i nonempty
        obtain ⟨entry, found⟩ := find_of_victim rep chosen nonempty
        have fewer := evictSection_totalEntries_lt rep found
        exact ih (rep.evictSection victim) (by omega)
    · exact ⟨store, rfl, rep⟩

theorem foldl_sweepStripe (rep : store.Rep) (now : Int) (is : List (Fin cfg.stripeCount)) :
    (is.foldl (sweepStripe now) store).Rep ∧
      (is.foldl (sweepStripe now) store).entries.length ≤ store.entries.length := by
  induction is generalizing store with
  | nil => exact ⟨rep, le_rfl⟩
  | cons i is ih =>
    obtain ⟨rep', fewer⟩ := ih (rep.sweepStripe now i)
    exact ⟨rep', fewer.trans (sweepStripe_shrinks now store i).length_le⟩

/-- The protected entries are among all entries. -/
theorem Rep.protected_le (rep : store.Rep) : store.protectedEntries ≤ store.totalEntries := by
  rw [rep.protectedTotal, rep.total]
  exact List.countP_le_length

theorem enforceCapacity_total (rep : store.Rep) (now : Int) :
    ∃ after, store.enforceCapacity now = some after ∧ after.Rep := by
  obtain ⟨rep', fewer⟩ := foldl_sweepStripe rep now (List.finRange cfg.stripeCount)
  unfold enforceCapacity
  dsimp only
  generalize (List.finRange cfg.stripeCount).foldl (sweepStripe now) store = swept at *
  rw [← rep.total, ← rep'.total] at fewer
  have below := rep'.protected_le
  split
  · exact ⟨store, rfl, rep⟩
  · split
    · exact ⟨store, rfl, rep⟩
    · split
      · exact ⟨swept, rfl, rep'⟩
      · obtain ⟨demoted, ends, repd, total⟩ :=
          demoteLoop_total (store.totalEntries + 2) rep' (by omega)
        obtain ⟨after, done, repa⟩ :=
          evictLoop_total (store.totalEntries + 2) repd (by omega)
        exact ⟨after, by rw [ends, Option.bind_some, done], repa⟩

/-- `Set` of a caller that runs alone returns. -/
theorem set_total (rep : store.Rep) (key value : Bytes) (ttl : Option Int) (clock : Nat → Int) :
    ∃ after, store.set key value ttl clock = some after ∧ after.Rep :=
  enforceCapacity_total (rep.setSection key value _ _) _

theorem get_rep (rep : store.Rep) (key : Bytes) (clock : Nat → Int) :
    (store.get key clock).1.Rep := by
  unfold get
  split
  · exact rep
  · exact rep.getSection key _

/-! ### The content as a map -/

/-- The value stored under a key. -/
def content (store : ConcurrentStore cfg) (key : Bytes) : Option Bytes :=
  (store.find key).map ValueEntry.value

/-- No entry expires. -/
def Persistent (store : ConcurrentStore cfg) : Prop :=
  ∀ key entry, store.find key = some entry → entry.expiresAt = none

theorem find_new (key : Bytes) : (new cfg).find key = none := by
  simp [find, stripeFor, new]

theorem new_persistent (cfg : Config) : (new cfg).Persistent := by
  intro key entry found
  simp [find_new] at found

theorem set_content (unbounded : cfg.maxEntries = 0) (persistent : store.Persistent)
    (key value : Bytes) (clock : Nat → Int) :
    ∃ after, store.set key value none clock = some after ∧ after.Persistent ∧
      after.content = Function.update store.content key (some value) := by
  refine ⟨store.setSection key value none (clock 1), by simp [set, enforceCapacity, unbounded], ?_,
    ?_⟩
  · intro other entry found
    by_cases same : other = key
    · subst same
      obtain ⟨written, here, -, expiry⟩ := find_setSection_self store other value none (clock 1)
      rw [found] at here
      cases here
      exact expiry
    · rw [find_setSection_ne store value none (clock 1) same] at found
      exact persistent other entry found
  · funext other
    by_cases same : other = key
    · subst same
      obtain ⟨written, here, rfl, -⟩ := find_setSection_self store other value none (clock 1)
      simp [content, here]
    · simp [content, find_setSection_ne store value none (clock 1) same, same]

theorem get_content (persistent : store.Persistent) (key : Bytes) (clock : Nat → Int) :
    (store.get key clock).2 = store.content key ∧ (store.get key clock).1.Persistent ∧
      (store.get key clock).1.content = store.content := by
  unfold get
  cases found : store.find key with
  | none => exact ⟨by simp [content, found], persistent, rfl⟩
  | some entry =>
    have lives : entry.isExpired (clock 1) = false := by
      simp [ValueEntry.isExpired, persistent key entry found]
    have read : store.getSection key (clock 1) =
        (store.touch key entry (clock 1), some entry.value) := by
      simp [getSection, found, lives]
    dsimp only
    rw [read]
    refine ⟨by simp [content, found], ?_, ?_⟩
    · intro other entry' found'
      by_cases same : other = key
      · subst same
        rw [find_touch_self] at found'
        cases found'
        simpa using persistent other entry found
      · rw [find_touch_ne _ same] at found'
        exact persistent other entry' found'
    · funext other
      by_cases same : other = key
      · subst same
        simp [content, find_touch_self, found]
      · simp [content, find_touch_ne _ same]

end ConcurrentStore

/-! ### A caller that runs alone is one of the schedules -/

namespace Call

variable {ι : Type} {cfg : Config} {store after : ConcurrentStore cfg} {client : ι}

/-- Steps of one client that show nothing, while no other client moves. -/
def Runs (client : ι) :
    ConcurrentStore cfg → Call cfg → ConcurrentStore cfg → Call cfg → Prop :=
  (clients ι cfg).Alone client (· = .silent)

theorem Runs.proceed {store mid after : ConcurrentStore cfg} {call next final : Call cfg}
    (clock : Int) (moved : call.proceed store clock = some (mid, next, .silent))
    (rest : Runs client mid next after final) : Runs client store call after final :=
  .step (.proceed clock) moved rfl rest

theorem drop_finRange {n : Nat} (i : Fin n) :
    (List.finRange n).drop i = i :: (List.finRange n).drop (i + 1) := by
  rw [List.drop_eq_getElem_cons (by simp)]
  simp

theorem runs_sweep (now : Int) (i : Fin cfg.stripeCount) (store : ConcurrentStore cfg) :
    Runs client store (sweep now i)
      (((List.finRange cfg.stripeCount).drop i).foldl (ConcurrentStore.sweepStripe now) store)
      reloadTotal := by
  induction rounds : cfg.stripeCount - i.val generalizing i store with
  | zero => exact absurd i.isLt (by omega)
  | succ rounds ih =>
    rw [drop_finRange, List.foldl_cons]
    refine .proceed 0 rfl ?_
    refine nextStripe_cases (P := fun next => Runs client _ next _ _) i ?_ ?_
    · intro j follows
      rw [← follows]
      exact ih j _ (by omega)
    · intro last
      rw [List.drop_eq_nil_of_le (by simp [last])]
      exact .refl

/-- A scan of the stripes from `i` on, in either loop. -/
theorem runs_scan (segment : Bool) (scan : Fin cfg.stripeCount → List EvictionCandidate → Call cfg)
    (decision : List EvictionCandidate → Call cfg)
    (steps : ∀ i found, (scan i found).proceed store 0 = some (store,
      nextStripe i (scan · (found ++ store.scanStripe segment i))
        (decision (found ++ store.scanStripe segment i)), .silent))
    (i : Fin cfg.stripeCount) (found : List EvictionCandidate) :
    Runs client store (scan i found) store (decision (found ++
      ((List.finRange cfg.stripeCount).drop i).flatMap (store.scanStripe segment))) := by
  induction rounds : cfg.stripeCount - i.val generalizing i found with
  | zero => exact absurd i.isLt (by omega)
  | succ rounds ih =>
    rw [drop_finRange, List.flatMap_cons, ← List.append_assoc]
    refine .proceed 0 (steps i found) ?_
    refine nextStripe_cases (P := fun next => Runs client _ next _ _) i ?_ ?_
    · intro j follows
      rw [← follows]
      exact ih j _ (by omega)
    · intro last
      rw [List.drop_eq_nil_of_le (by simp [last]), List.flatMap_nil, List.append_nil]
      exact .refl

theorem runs_demoteScan (store : ConcurrentStore cfg) (total : Nat) :
    Runs client store (demoteScan total cfg.firstStripe []) store
      (if store.selectVictimKey true = [] then evictLoop total
        else demote (store.selectVictimKey true)) :=
  runs_scan true (demoteScan total) (demoteVictim total) (fun _ _ => rfl) cfg.firstStripe []

theorem runs_evictScan (store : ConcurrentStore cfg) (segment : Bool) :
    Runs client store (evictScan segment cfg.firstStripe []) store
      (if store.selectVictimKey segment = [] then
        if segment then idle else evictScan true cfg.firstStripe []
        else evict (store.selectVictimKey segment)) :=
  runs_scan segment (evictScan segment) (evictVictim segment) (fun _ _ => rfl) cfg.firstStripe []

theorem runs_evictLoop {fuel total : Nat}
    (ends : ConcurrentStore.evictLoop fuel store total = some after) :
    Runs client store (evictLoop total) after idle := by
  induction fuel generalizing store total with
  | zero => cases ends
  | succ fuel ih =>
    rw [ConcurrentStore.evictLoop] at ends
    dsimp only at ends
    unfold evictLoop
    split at ends
    · rename_i full
      rw [if_pos full]
      refine (runs_evictScan store false).trans ?_
      by_cases none_left : store.selectVictimKey false = []
      · rw [if_pos none_left] at ends ⊢
        refine (runs_evictScan store true).trans ?_
        split at ends
        · rename_i empty
          cases ends
          rw [if_pos empty]
          exact .refl
        · rename_i some_left
          rw [if_neg some_left]
          exact Runs.proceed 0 rfl (ih ends)
      · rw [if_neg none_left] at ends ⊢
        rw [if_neg none_left] at ends
        exact Runs.proceed 0 rfl (ih ends)
    · rename_i room
      cases ends
      rw [if_neg room]
      exact .refl

theorem runs_demoteLoop {fuel total total' prot : Nat}
    (ends : ConcurrentStore.demoteLoop fuel store total prot = some (after, total')) :
    Runs client store (demoteLoop total prot) after (evictLoop total') := by
  induction fuel generalizing store total prot with
  | zero => cases ends
  | succ fuel ih =>
    rw [ConcurrentStore.demoteLoop] at ends
    dsimp only at ends
    unfold demoteLoop
    split at ends
    · rename_i full
      rw [if_pos full]
      refine (runs_demoteScan store total).trans ?_
      split at ends
      · rename_i empty
        cases ends
        rw [if_pos empty]
        exact .refl
      · rename_i some_left
        rw [if_neg some_left]
        exact Runs.proceed 0 rfl (ih ends)
    · rename_i room
      cases ends
      rw [if_neg room]
      exact .refl

/-- `EnforceCapacity` after it found the store too full. -/
theorem runs_trim {now : Int} (bounded : cfg.maxEntries ≠ 0)
    (full : ¬store.totalEntries ≤ cfg.maxEntries) (ends : store.enforceCapacity now = some after) :
    Runs client store (sweep now cfg.firstStripe) after idle := by
  have sweeps : Runs client store (sweep now cfg.firstStripe)
      ((List.finRange cfg.stripeCount).foldl (ConcurrentStore.sweepStripe now) store) reloadTotal :=
    runs_sweep now cfg.firstStripe store
  rw [ConcurrentStore.enforceCapacity, if_neg bounded, if_neg full] at ends
  dsimp only at ends
  generalize (List.finRange cfg.stripeCount).foldl (ConcurrentStore.sweepStripe now) store = swept
    at ends sweeps
  refine sweeps.trans (Runs.proceed 0 rfl ?_)
  split at ends
  · rename_i room
    cases ends
    rw [if_pos room]
    exact .refl
  · rename_i still
    obtain ⟨⟨demoted, total⟩, demotes, evicts⟩ := Option.bind_eq_some_iff.mp ends
    rw [if_neg still]
    exact .proceed 0 rfl ((runs_demoteLoop demotes).trans (runs_evictLoop evicts))

theorem runs_enforceCapacity {now : Int} (ends : store.enforceCapacity now = some after) :
    Runs client store enforceCapacity after idle := by
  unfold enforceCapacity
  by_cases unbounded : cfg.maxEntries = 0
  · rw [ConcurrentStore.enforceCapacity, if_pos unbounded] at ends
    cases ends
    rw [if_pos unbounded]
    exact .refl
  · rw [if_neg unbounded]
    refine .proceed now rfl ?_
    by_cases room : store.totalEntries ≤ cfg.maxEntries
    · rw [ConcurrentStore.enforceCapacity, if_neg unbounded, if_pos room] at ends
      cases ends
      rw [if_pos room]
      exact .refl
    · rw [if_neg room]
      exact runs_trim unbounded room ends

end Call

namespace ConcurrentStore

variable {ι : Type} [DecidableEq ι] {cfg : Config} {store after : ConcurrentStore cfg} {client : ι}
  {thread : ι → Call cfg}

/-- `set` is what a client between two calls can do, wherever the other clients stand. -/
theorem set_run {key value : Bytes} {ttl : Option Int} {clock : Nat → Int}
    (free : thread client = .idle) (ends : store.set key value ttl clock = some after) :
    ∃ ls es, (clients ι cfg).run ⟨store, thread⟩ ls = some (⟨after, thread⟩,
      .called key :: .wrote key value (ttl.map (addMilliseconds (clock 0))) :: es) ∧
        ∀ e ∈ es, e = .silent := by
  obtain ⟨ls, es, ran, quiet⟩ := Program.Alone.run (Call.runs_enforceCapacity ends) thread
  have waits : Function.update thread client .idle = thread := by
    rw [← free, Function.update_eq_self]
  refine ⟨(client, .callSet key value ttl (clock 0) (clock 1)) :: (client, .proceed 0) :: ls, es,
    ?_, quiet⟩
  rw [← waits]
  exact Program.run_thread rfl (Program.run_thread rfl ran)

/-- `get` is what a client between two calls can do; its last step shows the result. -/
theorem get_run (key : Bytes) (clock : Nat → Int) (free : thread client = .idle) :
    ∃ ls es reading, (clients ι cfg).run ⟨store, thread⟩ ls =
      some (⟨(store.get key clock).1, thread⟩,
        es ++ [.returned key reading (store.get key clock).2]) := by
  have waits : Function.update thread client .idle = thread := by
    rw [← free, Function.update_eq_self]
  rw [← waits]
  unfold get
  cases found : store.find key with
  | none =>
    refine ⟨[(client, .callGet key), (client, .proceed 0)], [.called key], none, ?_⟩
    refine Program.run_thread rfl (Program.run_thread ?_ rfl)
    simp [clients, Call.advance, Call.proceed, found]
  | some entry =>
    refine ⟨[(client, .callGet key), (client, .proceed (clock 0)), (client, .proceed (clock 1))],
      [.called key, .looked key (clock 0)], some (clock 1), ?_⟩
    have looks : (clients ι cfg).advance client store (.getShared key) (.proceed (clock 0)) =
        some (store, .getExclusive key, .looked key (clock 0)) := by
      simp [clients, Call.advance, Call.proceed, found]
    refine Program.run_thread rfl (Program.run_thread looks (Program.run_thread ?_ rfl))
    simp [clients, Call.advance, Call.proceed, found]

end ConcurrentStore

end DistributedCache.Core
