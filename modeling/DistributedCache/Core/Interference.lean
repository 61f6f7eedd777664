import DistributedCache.Core.Capacity
import DistributedCache.Core.Contents
import DistributedCache.Core.History

/-! Concurrent `Set`s in the eviction loop.  A `Set` loads `total_entries_`, picks a victim in scans
of single stripes, and then erases the victim without another look at the counter or at its
segment.  The steps of other clients in between decide if the erase is what the loads and the scans
promised. -/

namespace DistributedCache.Core

open Lib

namespace Call

variable {cfg : Config} {store store' : ConcurrentStore cfg} {call call' : Call cfg}
  {action : Action} {event : Event}

/-! ### The number of entries -/

/-- The call has loaded `total_entries_` for the test of the eviction loop, or is past the test. -/
def committed : Call cfg → Bool
  | loadProtected _ | demoteScan .. | evictScan .. | evict _ => true
  | _ => false

/-- The key that the call is about to erase in the eviction loop. -/
def victim : Call cfg → Option Bytes
  | evict victim => some victim
  | _ => none

theorem eq_evict_of_victim {key : Bytes} (same : call.victim = some key) : call = evict key := by
  cases call <;> cases same
  rfl

/-- How many entries the next step of the call erases. -/
def erases (store : ConcurrentStore cfg) : Call cfg → Action → Nat
  | evict victim, .proceed _ => if (store.find victim).isSome then 1 else 0
  | getExclusive key, .proceed now => if (store.find key).any (·.isExpired now) then 1 else 0
  | sweep now i, .proceed _ => (store.stripes i).entries.countP fun e => e.2.isExpired now
  | _, _ => 0

/-- A call that is past its load was right about the total. -/
def Overfull (store : ConcurrentStore cfg) (call : Call cfg) : Prop :=
  call.committed → cfg.maxEntries < store.totalEntries

theorem overfull_of_free (free : call.committed = false) : call.Overfull store := by
  intro stays
  rw [free] at stays
  cases stays

/-- The loops go on only from a total above the limit. -/
theorem evictLoop_overfull : (evictLoop store.totalEntries : Call cfg).Overfull store := by
  unfold evictLoop
  split
  · rename_i full
    exact fun _ => full
  · exact overfull_of_free rfl

theorem demoteLoop_overfull (prot : Nat) :
    (demoteLoop store.totalEntries prot : Call cfg).Overfull store := by
  unfold demoteLoop
  split
  · rename_i full
    exact fun _ => full.1
  · exact evictLoop_overfull

/-- A call is right about the total when it passes a test. -/
theorem advance_overfull (overfull : call.Overfull store)
    (moved : call.advance store action = some (store', call', event)) : call'.Overfull store' := by
  cases advance_sound moved with
  | callSet key value expiresAt now => exact overfull_of_free rfl
  | callGet key => exact overfull_of_free rfl
  | reorder perm => exact overfull
  | proceed clock moved =>
    cases call with
    | idle => cases moved
    | setSection key value expiresAt now =>
      cases moved
      unfold enforceCapacity
      split <;> exact overfull_of_free rfl
    | loadTotal =>
      cases moved
      split <;> exact overfull_of_free rfl
    | sweep now i =>
      cases moved
      exact nextStripe_cases i (fun _ _ => overfull_of_free rfl) fun _ => overfull_of_free rfl
    | reloadTotal =>
      cases moved
      split
      · exact overfull_of_free rfl
      · rename_i full
        exact fun _ => Nat.lt_of_not_le full
    | loadProtected total =>
      cases moved
      exact fun _ => overfull rfl
    | demoteScan total i found =>
      cases moved
      exact fun _ => overfull rfl
    | demote victim =>
      cases moved
      exact demoteLoop_overfull _
    | evictScan segment i found =>
      cases moved
      exact fun _ => overfull rfl
    | evict victim =>
      cases moved
      exact evictLoop_overfull
    | getShared key =>
      simp only [proceed] at moved
      split at moved <;> cases moved <;> exact overfull_of_free rfl
    | getExclusive key =>
      cases moved
      exact overfull_of_free rfl

theorem le_fetchSub (n : Nat) : n ≤ fetchSub n + 1 := by
  unfold fetchSub
  split <;> omega

/-- The sweep of a stripe takes the expired entries off the total. -/
theorem sweepStripe_erases (rep : store.Rep) (now : Int) (i : Fin cfg.stripeCount) :
    store.totalEntries ≤ (store.sweepStripe now i).totalEntries +
      (store.stripes i).entries.countP fun e => e.2.isExpired now := by
  have kept := sweepEntries_kept now (store.stripes i).entries store.totalEntries
    store.protectedEntries
  have counters := (rep.sweep_counters now i).1
  have parts : (store.stripes i).entries.countP (fun e => e.2.isExpired now) +
      ((store.stripes i).entries.filter fun e => !e.2.isExpired now).length =
        (store.stripes i).entries.length := by
    rw [← List.countP_eq_length_filter,
      List.length_eq_countP_add_countP (fun e => e.2.isExpired now)]
    simp
  rw [← kept] at parts
  change _ ≤ (sweepEntries ..).2.1 + _
  omega

/-- A step is a new call or a reordering of the stripes, which leave the entries as they are, or the
next step of the call in progress. -/
theorem advance_cases (moved : call.advance store action = some (store', call', event)) :
    (store'.totalEntries = store.totalEntries ∧ ∀ key, store'.find key = store.find key) ∨
      ∃ now, action = .proceed now ∧ call.proceed store now = some (store', call', event) := by
  cases action with
  | proceed now => exact .inr ⟨now, rfl, moved⟩
  | callSet key value ttl reading now =>
    cases call <;> cases moved
    exact .inl ⟨rfl, fun _ => rfl⟩
  | callGet key =>
    cases call <;> cases moved
    exact .inl ⟨rfl, fun _ => rfl⟩
  | reorder i map =>
    simp only [advance] at moved
    split at moved
    · split at moved
      · rename_i perm
        cases moved
        exact .inl ⟨rfl, ConcurrentStore.find_reorder perm⟩
      · cases moved
    · cases moved

/-- A step takes no more entries from the store than it erases. -/
theorem advance_erases (rep : store.Rep)
    (moved : call.advance store action = some (store', call', event)) :
    store.totalEntries ≤ store'.totalEntries + call.erases store action := by
  rcases advance_cases moved with ⟨same, -⟩ | ⟨now, rfl, next⟩
  · omega
  cases call with
  | idle => cases next
  | setSection key value expiresAt now =>
    cases next
    unfold ConcurrentStore.setSection
    split
    · exact Nat.le_add_right _ _
    · exact (Nat.le_succ _).trans (Nat.le_add_right _ _)
  | sweep now i =>
    cases next
    exact sweepStripe_erases rep now i
  | demote victim =>
    cases next
    rw [ConcurrentStore.demoteSection_totalEntries]
    exact Nat.le_add_right _ _
  | evict victim =>
    cases next
    unfold ConcurrentStore.evictSection
    split
    · exact Nat.le_add_right _ _
    · rename_i entry found
      simp only [erases, found, Option.isSome_some, if_true]
      exact le_fetchSub _
  | getShared key =>
    simp only [proceed] at next
    split at next <;> cases next <;> exact Nat.le_add_right _ _
  | getExclusive key =>
    cases next
    unfold ConcurrentStore.getSection
    split
    · exact Nat.le_add_right _ _
    · rename_i entry found
      split
      · rename_i expired
        simp only [erases, found, Option.any_some, expired, if_true]
        exact le_fetchSub _
      · exact Nat.le_add_right _ _
  | loadTotal | reloadTotal | loadProtected _ | demoteScan _ _ _ | evictScan _ _ _ =>
    cases next
    exact Nat.le_add_right _ _

end Call

/-- A step that erases entries while another client stands between its load of `total_entries_` and
its erase leaves more than `max_entries` entries. -/
def LeavesOverfull {ι : Type} {cfg : Config} (s : Pool ι (ConcurrentStore cfg) (Call cfg))
    (l : ι × Action) : Prop :=
  ∀ j, j ≠ l.1 → (s.thread j).committed → (s.thread l.1).erases s.shared l.2 ≠ 0 →
    cfg.maxEntries + (s.thread l.1).erases s.shared l.2 < s.shared.totalEntries

/-- The eviction loop erases entries only from a store that is too full, in every run in which no
client takes the store to its limit while another one relies on what it has loaded. -/
theorem evicts_overfull {ι : Type} [DecidableEq ι] (cfg : Config) {schedule : List (ι × Action)}
    {after : Pool ι (ConcurrentStore cfg) (Call cfg)} {events : List Event}
    (ran : Program.Guarded (clients ι cfg) LeavesOverfull (start ι cfg) schedule after events)
    {i : ι} {victim : Bytes} (erasing : after.thread i = .evict victim) :
    cfg.maxEntries < after.shared.contents.card := by
  have holds := ran.invariant (fun _ => True) ConcurrentStore.Rep
    (fun store call => call.Overfull store)
    (fun _ _ _ _ _ _ _ rep overfull _ moved =>
      ⟨Call.advance_rep rep moved, Call.advance_overfull overfull moved⟩)
    (fun s i a s' k' e j rep overfull leaves different moved => ?_)
    (ConcurrentStore.new_rep cfg) (fun i => Call.overfull_of_free rfl) fun _ _ => trivial
  · rw [holds.1.card_contents]
    exact holds.2 i (by rw [erasing]; rfl)
  · intro stays
    have fewer := Call.advance_erases rep moved
    have full := overfull stays
    have leaves := leaves j different stays
    by_cases keeps : (s.thread i).erases s.shared a = 0
    · omega
    · have more : cfg.maxEntries + (s.thread i).erases s.shared a < s.shared.totalEntries :=
        leaves keeps
      omega

instance instDecidableLeavesOverfull {ι : Type} [Fintype ι] [DecidableEq ι] {cfg : Config}
    (s : Pool ι (ConcurrentStore cfg) (Call cfg)) (l : ι × Action) :
    Decidable (LeavesOverfull s l) :=
  inferInstanceAs (Decidable (∀ _, _ → _ → _ → _))

/-- One client fills the store, and another one inserts a key and picks its victim. -/
def handover : List (Bool × Action) :=
  [(true, .callSet (ascii "a") (ascii "x") none 0 0), (true, .proceed 0), (true, .proceed 1),
    (false, .callSet (ascii "b") (ascii "y") none 2 2)] ++ List.replicate 8 (false, .proceed 3)

/-- The victim of `handover` is one of two entries in a store for one. -/
theorem evicts_overfull_handover :
    ∃ (after : Pool Bool (ConcurrentStore tightConfig) (Call tightConfig)) (events : List Event),
      Program.Guarded (clients Bool tightConfig) LeavesOverfull (start Bool tightConfig) handover
          after events ∧
        after.thread false = .evict (ascii "a") ∧
        tightConfig.maxEntries < after.shared.contents.card := by
  have ran : ((clients Bool tightConfig).runIf LeavesOverfull (start Bool tightConfig)
    handover).isSome = true := by decide
  have guarded := Program.Guarded.of_runIf (Option.some_get ran).symm
  exact ⟨_, _, guarded, rfl, evicts_overfull tightConfig guarded (i := false) rfl⟩

/-- Two clients insert keys into a full store and load the total.  The first makes room for both,
and the second picks the last entry as its victim. -/
def staleTotal : List (Bool × Action) :=
  List.flatten [
    [(true, .callSet (ascii "a") (ascii "x") none 0 0), (true, .proceed 0), (true, .proceed 1),
      (true, .callSet (ascii "b") (ascii "y") none 2 2), (true, .proceed 2),
      (false, .callSet (ascii "c") (ascii "z") none 3 3), (false, .proceed 3)],
    List.replicate 4 (true, .proceed 4), List.replicate 4 (false, .proceed 5),
    List.replicate 7 (true, .proceed 6), List.replicate 3 (false, .proceed 7)]

/-- After `staleTotal` the second client is about to erase the only entry of a store for one, which
does not expire. -/
theorem staleTotal_evicts :
    ∃ (after : Pool Bool (ConcurrentStore tightConfig) (Call tightConfig)) (events : List Event)
      (entry : ValueEntry),
      (clients Bool tightConfig).run (start Bool tightConfig) staleTotal = some (after, events) ∧
        .called [] ∉ events ∧ after.thread false = .evict (ascii "c") ∧
        after.shared.find (ascii "c") = some entry ∧ entry.expiresAt = none ∧
        ¬tightConfig.maxEntries < after.shared.contents.card := by
  have runs : ((clients Bool tightConfig).run (start Bool tightConfig) staleTotal).map (fun r =>
      ((r.1.thread false).victim, r.1.shared.find (ascii "c"), r.1.shared.contents.card,
        decide (.called [] ∈ r.2))) =
      some (some (ascii "c"), some ⟨ascii "z", none, 1, 3, false⟩, 1, false) := by decide
  obtain ⟨⟨after, events⟩, ran, same⟩ := Option.map_eq_some_iff.mp runs
  simp only [Prod.mk.injEq, decide_eq_false_iff_not] at same
  obtain ⟨picked, stored, card, keys⟩ := same
  exact ⟨after, events, _, ran, keys, Call.eq_evict_of_victim picked, stored, rfl,
    by rw [card]; decide⟩

/-! ### The segment of the victim -/

namespace Call

variable {cfg : Config} {store store' : ConcurrentStore cfg} {call call' : Call cfg}
  {action : Action} {event : Event}

/-- The key whose entry the next step of the call moves to the protected segment. -/
def promotes (store : ConcurrentStore cfg) : Call cfg → Action → Option Bytes
  | setSection key _ _ _, .proceed _ =>
    if (store.find key).any (!·.inProtectedSegment) then some key else none
  | getExclusive key, .proceed now =>
    if (store.find key).any fun entry => !entry.isExpired now && !entry.inProtectedSegment then
      some key
    else none
  | _, _ => none

/-- The key that the next step of the call adds to the unprotected segment. -/
def adds (store : ConcurrentStore cfg) : Call cfg → Action → Option Bytes
  | setSection key _ _ _, .proceed _ => if (store.find key).isNone then some key else none
  | demote victim, .proceed _ =>
    if (store.find victim).any (·.inProtectedSegment) then some victim else none
  | _, _ => none

/-- The call has picked the key as its victim, or has found it in its unprotected scan. -/
def marks : Call cfg → Bytes → Bool
  | evict victim, key => victim == key
  | evictScan false _ found, key => found.any (·.key == key)
  | _, _ => false

/-- The call is not going to find the key in the unprotected segment: its scan has found nothing and
is past the stripe of the key, or is over, or its victim is another key, which is protected. -/
def misses (store : ConcurrentStore cfg) : Call cfg → Bytes → Bool
  | evictScan false i found, key => found.isEmpty && decide (cfg.stripeIndexForKey key < i)
  | evictScan true _ _, _ => true
  | evict victim, key => victim != key && (store.find victim).any (·.inProtectedSegment)
  | _, _ => false

/-- What the scans of the call promise of the store as it is now. -/
def Trusts (store : ConcurrentStore cfg) : Call cfg → Prop
  | evictScan false i found =>
    (∀ candidate ∈ found, ∀ entry, store.find candidate.key = some entry →
      entry.inProtectedSegment = false) ∧
    (found = [] → ∀ key entry, cfg.stripeIndexForKey key < i → store.find key = some entry →
      entry.inProtectedSegment = true)
  | evictScan true _ _ =>
    ∀ key entry, store.find key = some entry → entry.inProtectedSegment = true
  | evict victim =>
    (∀ key entry, store.find key = some entry → entry.inProtectedSegment = true) ∨
      ∀ entry, store.find victim = some entry → entry.inProtectedSegment = false
  | _ => True

/-- A touched entry is protected: it was before, or the step promotes it. -/
theorem segment_of_touch {entry entry' : ValueEntry} {touched : Option Bytes} {key : Bytes}
    (found : store.find key = some entry) (protect : entry'.inProtectedSegment = true)
    (promoted : entry.inProtectedSegment = false → touched = some key) :
    (∃ entry, store.find key = some entry ∧
        entry.inProtectedSegment = entry'.inProtectedSegment) ∨
      (entry'.inProtectedSegment = true ∧ touched = some key) := by
  cases before : entry.inProtectedSegment with
  | true => exact .inl ⟨entry, found, before.trans protect.symm⟩
  | false => exact .inr ⟨protect, promoted before⟩

/-- Each entry after a step stood in the same segment before, or the step has added it to the
unprotected segment, or has promoted it. -/
theorem advance_segment (rep : store.Rep)
    (moved : call.advance store action = some (store', call', event)) {key : Bytes}
    {entry' : ValueEntry} (found' : store'.find key = some entry') :
    (∃ entry, store.find key = some entry ∧
        entry.inProtectedSegment = entry'.inProtectedSegment) ∨
      (entry'.inProtectedSegment = true ∧ call.promotes store action = some key) ∨
      (entry'.inProtectedSegment = false ∧ call.adds store action = some key) := by
  rcases advance_cases moved with ⟨-, same⟩ | ⟨now, rfl, next⟩
  · exact .inl ⟨entry', same key ▸ found', rfl⟩
  cases call with
  | idle => cases next
  | setSection other value expiresAt now =>
    cases next
    by_cases here : key = other
    · subst here
      unfold ConcurrentStore.setSection at found'
      split at found'
      · rename_i entry found
        rw [ConcurrentStore.find_touch_self] at found'
        cases found'
        have segmented := rep.segmented_of_find found
        have written : ValueEntry.Segmented { entry with value := value, expiresAt := expiresAt } :=
          segmented
        have protect := (touchEntry_segmented written store.protectedEntries now).1
        refine (segment_of_touch found protect fun before => ?_).imp_right .inl
        simp [promotes, found, before]
      · rename_i absent
        change (store.put key _).find key = _ at found'
        rw [ConcurrentStore.find_put_self] at found'
        cases found'
        exact .inr (.inr ⟨rfl, by simp [adds, absent]⟩)
    · rw [ConcurrentStore.find_setSection_ne store value _ _ here] at found'
      exact .inl ⟨entry', found', rfl⟩
  | sweep now i =>
    cases next
    rw [ConcurrentStore.find_sweepStripe] at found'
    split at found'
    · exact .inl ⟨entry', (Option.filter_eq_some_iff.mp found').1, rfl⟩
    · exact .inl ⟨entry', found', rfl⟩
  | demote victim =>
    cases next
    unfold ConcurrentStore.demoteSection at found'
    split at found'
    · exact .inl ⟨entry', found', rfl⟩
    · rename_i entry found
      split at found'
      · rename_i protect
        change (store.put victim _).find key = _ at found'
        by_cases here : key = victim
        · subst here
          rw [ConcurrentStore.find_put_self] at found'
          cases found'
          exact .inr (.inr ⟨rfl, by simp [adds, found, protect]⟩)
        · rw [ConcurrentStore.find_put_ne here] at found'
          exact .inl ⟨entry', found', rfl⟩
      · exact .inl ⟨entry', found', rfl⟩
  | evict victim =>
    cases next
    unfold ConcurrentStore.evictSection at found'
    split at found'
    · exact .inl ⟨entry', found', rfl⟩
    · by_cases here : key = victim
      · subst here
        rw [ConcurrentStore.find_eraseEntry_self] at found'
        cases found'
      · rw [ConcurrentStore.find_eraseEntry_ne here] at found'
        exact .inl ⟨entry', found', rfl⟩
  | getShared key =>
    simp only [proceed] at next
    split at next <;> cases next <;> exact .inl ⟨entry', found', rfl⟩
  | getExclusive other =>
    cases next
    by_cases here : key = other
    · subst here
      unfold ConcurrentStore.getSection at found'
      split at found'
      · exact .inl ⟨entry', found', rfl⟩
      · rename_i entry found
        split at found'
        · rw [ConcurrentStore.find_eraseEntry_self] at found'
          cases found'
        · rename_i alive
          rw [ConcurrentStore.find_touch_self] at found'
          cases found'
          have protect := (touchEntry_segmented (rep.segmented_of_find found)
            store.protectedEntries now).1
          refine (segment_of_touch found protect fun before => ?_).imp_right .inl
          simp [promotes, found, before, alive]
    · rw [ConcurrentStore.find_getSection_ne store _ here] at found'
      exact .inl ⟨entry', found', rfl⟩
  | loadTotal | reloadTotal | loadProtected _ | demoteScan _ _ _ | evictScan _ _ _ =>
    cases next
    exact .inl ⟨entry', found', rfl⟩

theorem Trusts.congr (trusts : call.Trusts store) (same : ∀ key, store'.find key = store.find key) :
    call.Trusts store' := by
  cases call with
  | evictScan segment i found => cases segment <;> simpa only [Trusts, same] using trusts
  | evict victim => simpa only [Trusts, same] using trusts
  | _ => trivial

/-- A step of another call that respects the scans does not disturb what they promise. -/
theorem Trusts.other {other : Call cfg} (rep : store.Rep) (trusts : other.Trusts store)
    (promoted : ∀ key ∈ call.promotes store action, other.marks key = false)
    (added : ∀ key ∈ call.adds store action, other.misses store key = false)
    (moved : call.advance store action = some (store', call', event)) : other.Trusts store' := by
  cases other with
  | evictScan segment i found =>
    cases segment with
    | false =>
      obtain ⟨unprotected, passed⟩ := trusts
      refine ⟨fun candidate member entry' found' => ?_, fun nothing key entry' below found' => ?_⟩
      · rcases advance_segment rep moved found' with
          ⟨entry, before, same⟩ | ⟨-, promote⟩ | ⟨segment, -⟩
        · exact same ▸ unprotected candidate member entry before
        · have unmarked := promoted _ promote
          simp only [marks, List.any_eq_false, beq_iff_eq] at unmarked
          exact absurd rfl (unmarked candidate member)
        · exact segment
      · rcases advance_segment rep moved found' with
          ⟨entry, before, same⟩ | ⟨segment, -⟩ | ⟨-, add⟩
        · exact same ▸ passed nothing key entry below before
        · exact segment
        · have seen := added _ add
          simp [misses, nothing, below] at seen
    | true =>
      intro key entry' found'
      rcases advance_segment rep moved found' with
        ⟨entry, before, same⟩ | ⟨segment, -⟩ | ⟨-, add⟩
      · exact same ▸ trusts key entry before
      · exact segment
      · have seen := added _ add
        simp [misses] at seen
  | evict victim =>
    by_cases bare : ∀ key entry, store'.find key = some entry → entry.inProtectedSegment = true
    · exact .inl bare
    refine .inr fun entry' found' => ?_
    rcases trusts with all | unprotected
    · -- Nothing was unprotected before, so the step has added something.
      push Not at bare
      obtain ⟨key, new, foundNew, outside⟩ := bare
      have add : call.adds store action = some key := by
        rcases advance_segment rep moved foundNew with
          ⟨entry, before, same⟩ | ⟨segment, -⟩ | ⟨-, add⟩
        · exact absurd (same ▸ all key entry before) outside
        · exact absurd segment outside
        · exact add
      have seen := added _ add
      simp only [misses, Bool.and_eq_false_iff, bne_eq_false_iff_eq] at seen
      rcases seen with rfl | absent
      · rw [found'] at foundNew
        cases foundNew
        simpa using outside
      · rcases advance_segment rep moved found' with
          ⟨entry, before, -⟩ | ⟨-, promote⟩ | ⟨segment, -⟩
        · simp [before, all victim entry before] at absent
        · have unmarked := promoted _ promote
          simp [marks] at unmarked
        · exact segment
    · rcases advance_segment rep moved found' with
        ⟨entry, before, same⟩ | ⟨-, promote⟩ | ⟨segment, -⟩
      · exact same ▸ unprotected entry before
      · have unmarked := promoted _ promote
        simp [marks] at unmarked
      · exact segment
  | _ => trivial

theorem evictLoop_trusts (total : Nat) : (evictLoop total : Call cfg).Trusts store := by
  unfold evictLoop
  split
  · exact ⟨by simp, fun _ _ _ below => absurd below (Nat.not_lt_zero _)⟩
  · trivial

theorem demoteLoop_trusts (total prot : Nat) : (demoteLoop total prot : Call cfg).Trusts store := by
  unfold demoteLoop
  split
  · trivial
  · exact evictLoop_trusts total

/-- The scan of one more stripe for unprotected entries. -/
theorem evictScan_trusts (rep : store.Rep) {i : Fin cfg.stripeCount}
    {found : List EvictionCandidate} (trusts : (evictScan false i found).Trusts store)
    (keys : ∀ candidate ∈ found ++ store.scanStripe false i, candidate.key ≠ []) :
    (nextStripe i (evictScan false · (found ++ store.scanStripe false i))
      (evictVictim false (found ++ store.scanStripe false i))).Trusts store := by
  obtain ⟨unprotected, passed⟩ := trusts
  have unprotected' : ∀ candidate ∈ found ++ store.scanStripe false i, ∀ entry,
      store.find candidate.key = some entry → entry.inProtectedSegment = false := by
    intro candidate member entry stored
    rcases List.mem_append.mp member with old | new
    · exact unprotected candidate old entry stored
    · obtain ⟨⟨entry', stored', segment, -⟩, -⟩ := rep.mem_scanStripe.mp new
      rw [stored'] at stored
      cases stored
      exact segment
  have passed' : found ++ store.scanStripe false i = [] → ∀ key entry,
      (cfg.stripeIndexForKey key).val < i.val + 1 → store.find key = some entry →
        entry.inProtectedSegment = true := by
    intro nothing key entry below stored
    obtain ⟨before, here⟩ := List.append_eq_nil_iff.mp nothing
    rcases Nat.lt_or_eq_of_le (Nat.le_of_lt_succ below) with lower | same
    · exact passed before key entry lower stored
    · obtain rfl := Fin.ext same
      have member := lookup_eq_some_iff.mp stored
      simpa using ConcurrentStore.scanStripe_eq_nil.mp here ⟨key, entry⟩ member
  refine nextStripe_cases i (fun j next => ⟨unprotected', fun nothing key entry below => ?_⟩)
    fun last => ?_
  · exact passed' nothing key entry (next ▸ below)
  · unfold evictVictim
    split
    · rename_i nothing
      intro key entry stored
      exact passed' ((selectVictim_eq_nil keys).mp nothing) key entry (by omega) stored
    · rename_i anything
      have any : found ++ store.scanStripe false i ≠ [] :=
        (selectVictim_eq_nil keys).not.mp anything
      obtain ⟨candidate, member, selected⟩ := selectVictim_mem any
      exact .inr (selected ▸ unprotected' candidate member)

/-- The scans of a call promise what they have found. -/
theorem advance_trusts (rep : store.Rep) (keyed : store.Keyed) (sound : call.Sound)
    (trusts : call.Trusts store)
    (moved : call.advance store action = some (store', call', event)) : call'.Trusts store' := by
  cases advance_sound moved with
  | callSet key value expiresAt now => trivial
  | callGet key => trivial
  | reorder perm => exact trusts.congr (ConcurrentStore.find_reorder perm)
  | proceed clock moved =>
    cases call with
    | idle => cases moved
    | setSection key value expiresAt now =>
      cases moved
      unfold enforceCapacity
      split <;> trivial
    | loadTotal =>
      cases moved
      split <;> trivial
    | sweep now i =>
      cases moved
      exact nextStripe_cases i (fun _ _ => trivial) fun _ => trivial
    | reloadTotal =>
      cases moved
      split <;> trivial
    | loadProtected total =>
      cases moved
      exact demoteLoop_trusts total _
    | demoteScan total i found =>
      cases moved
      refine nextStripe_cases i (fun _ _ => trivial) fun _ => ?_
      unfold demoteVictim
      split
      · exact evictLoop_trusts total
      · trivial
    | demote victim =>
      cases moved
      exact demoteLoop_trusts _ _
    | evictScan segment i found =>
      cases moved
      cases segment with
      | false => exact evictScan_trusts rep trusts (keyed.gathered sound false i)
      | true =>
        refine nextStripe_cases i (fun _ _ => trusts) fun _ => ?_
        unfold evictVictim
        split
        · trivial
        · exact .inl trusts
    | evict victim =>
      cases moved
      exact evictLoop_trusts _
    | getShared key =>
      simp only [proceed] at moved
      split at moved <;> cases moved <;> trivial
    | getExclusive key =>
      cases moved
      trivial

end Call

/-- A step promotes no key that another client has picked or found for eviction, and adds no
unprotected entry that another client's scan has passed. -/
def RespectsScans {ι : Type} {cfg : Config} (s : Pool ι (ConcurrentStore cfg) (Call cfg))
    (l : ι × Action) : Prop :=
  ∀ j, j ≠ l.1 →
    (∀ key ∈ (s.thread l.1).promotes s.shared l.2, (s.thread j).marks key = false) ∧
    ∀ key ∈ (s.thread l.1).adds s.shared l.2, (s.thread j).misses s.shared key = false

/-- The eviction loop erases a protected entry only where nothing is unprotected, in every run in
which the other clients respect the scans that are going on. -/
theorem evicts_unprotected {ι : Type} [DecidableEq ι] (cfg : Config)
    {schedule : List (ι × Action)} {after : Pool ι (ConcurrentStore cfg) (Call cfg)}
    {events : List Event}
    (ran : Program.Guarded (clients ι cfg) RespectsScans (start ι cfg) schedule after events)
    (keys : .called [] ∉ events) {i : ι} {victim : Bytes} {entry : ValueEntry}
    (erasing : after.thread i = .evict victim) (stored : after.shared.find victim = some entry)
    (outsider : ∃ e ∈ after.shared.contents, e.2.inProtectedSegment = false) :
    entry.inProtectedSegment = false := by
  have holds := ran.invariant (fun event => ∀ key, event = .called key → key ≠ [])
    (fun store => store.Rep ∧ store.Keyed) (fun store call => call.Sound ∧ call.Trusts store)
    (fun i s k a s' k' e global own named moved => by
      have keyed := Call.advance_keyed global.2 global.1 own.1 named moved
      exact ⟨⟨Call.advance_rep global.1 moved, keyed.1⟩, keyed.2,
        Call.advance_trusts global.1 global.2 own.1 own.2 moved⟩)
    (fun s i a s' k' e j global own respects different moved => by
      obtain ⟨promoted, added⟩ := respects j different
      exact ⟨own.1, own.2.other global.1 promoted added moved⟩)
    ⟨ConcurrentStore.new_rep cfg, by simp [start, ConcurrentStore.Keyed, ConcurrentStore.new]⟩
    (fun i => ⟨trivial, trivial⟩)
    (by rintro event member key rfl rfl; exact keys member)
  have trusts := (holds.2 i).2
  rw [erasing] at trusts
  rcases trusts with all | unprotected
  · obtain ⟨e, member, outside⟩ := outsider
    have inside := all e.1 e.2 (holds.1.1.mem_contents.mp member)
    rw [inside] at outside
    cases outside
  · exact unprotected entry stored

instance instDecidableRespectsScans {ι : Type} [Fintype ι] [DecidableEq ι] {cfg : Config}
    (s : Pool ι (ConcurrentStore cfg) (Call cfg)) (l : ι × Action) :
    Decidable (RespectsScans s l) :=
  inferInstanceAs (Decidable (∀ _, _ → _ ∧ _))

/-- The victim of `handover` is unprotected, as the other entry is. -/
theorem evicts_unprotected_handover :
    ∃ (after : Pool Bool (ConcurrentStore tightConfig) (Call tightConfig)) (events : List Event)
      (entry : ValueEntry),
      Program.Guarded (clients Bool tightConfig) RespectsScans (start Bool tightConfig) handover
          after events ∧
        after.thread false = .evict (ascii "a") ∧
        after.shared.find (ascii "a") = some entry ∧ entry.inProtectedSegment = false := by
  have ran : ((clients Bool tightConfig).runIf RespectsScans (start Bool tightConfig)
    handover).isSome = true := by decide
  have guarded := Program.Guarded.of_runIf (Option.some_get ran).symm
  refine ⟨_, _, ⟨ascii "x", none, 1, 0, false⟩, guarded, rfl, rfl, ?_⟩
  exact evicts_unprotected tightConfig guarded (by decide) (i := false) rfl rfl (by decide)

/-- The other client reads the victim before it is erased. -/
def promotedVictim : List (Bool × Action) :=
  handover ++ [(true, .callGet (ascii "a")), (true, .proceed 4), (true, .proceed 5)]

/-- After `promotedVictim` a client is about to erase a protected entry from a store that holds an
unprotected one. -/
theorem promotedVictim_evicts :
    ∃ (after : Pool Bool (ConcurrentStore tightConfig) (Call tightConfig)) (events : List Event)
      (entry : ValueEntry),
      (clients Bool tightConfig).run (start Bool tightConfig) promotedVictim =
          some (after, events) ∧
        .called [] ∉ events ∧ after.thread false = .evict (ascii "a") ∧
        after.shared.find (ascii "a") = some entry ∧ entry.inProtectedSegment = true ∧
        ∃ e ∈ after.shared.contents, e.2.inProtectedSegment = false := by
  have runs : ((clients Bool tightConfig).run (start Bool tightConfig) promotedVictim).map (fun r =>
      ((r.1.thread false).victim, r.1.shared.find (ascii "a"),
        decide (∃ e ∈ r.1.shared.contents, e.2.inProtectedSegment = false),
        decide (.called [] ∈ r.2))) =
      some (some (ascii "a"), some ⟨ascii "x", none, 2, 5, true⟩, true, false) := by decide
  obtain ⟨⟨after, events⟩, ran, same⟩ := Option.map_eq_some_iff.mp runs
  simp only [Prod.mk.injEq, decide_eq_true_eq, decide_eq_false_iff_not] at same
  obtain ⟨picked, stored, unprotected, keys⟩ := same
  exact ⟨after, events, _, ran, keys, Call.eq_evict_of_victim picked, stored, rfl, unprotected⟩

end DistributedCache.Core
