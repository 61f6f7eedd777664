import DistributedCache.Core.Interleaving

/-! The representation invariant of the store.  Every section keeps it, whatever victim key the
section runs with, so it holds after every schedule of concurrent calls. -/

namespace DistributedCache.Core

open Lib

/-- The frequency of an entry and its segment agree. -/
def ValueEntry.Segmented (entry : ValueEntry) : Prop :=
  1 ≤ entry.lfuCount ∧ (entry.inProtectedSegment = true ↔ 2 ≤ entry.lfuCount)

/-- The sweep takes what it drops off both counters, which do not wrap if they count at least the
entries of the stripe. -/
theorem sweepEntries_counters (now : Int) (entries : List Entry) (total prot : Nat)
    (totals : entries.length ≤ total)
    (prots : entries.countP (fun e => e.2.inProtectedSegment) ≤ prot) :
    (sweepEntries now entries total prot).2.1 + entries.length =
        total + (sweepEntries now entries total prot).1.length ∧
      (sweepEntries now entries total prot).2.2 +
          entries.countP (fun e => e.2.inProtectedSegment) =
        prot + (sweepEntries now entries total prot).1.countP
          fun e => e.2.inProtectedSegment := by
  induction entries generalizing total prot with
  | nil => exact ⟨rfl, rfl⟩
  | cons e rest ih =>
    simp only [List.length_cons] at totals
    rw [List.countP_cons] at prots
    rw [sweepEntries, List.length_cons, List.countP_cons]
    cases expired : e.2.isExpired now
    · obtain ⟨ht, hp⟩ := ih total prot (by omega) (by omega)
      simp only [Bool.false_eq_true, if_false, List.length_cons, List.countP_cons]
      omega
    · have total' : fetchSub total + 1 = total := by
        unfold fetchSub
        split <;> omega
      cases segment : e.2.inProtectedSegment
      · simp only [segment, Bool.false_eq_true, if_false] at prots ⊢
        obtain ⟨ht, hp⟩ := ih (fetchSub total) prot (by omega) (by omega)
        simp only [if_true]
        omega
      · simp only [segment, if_true] at prots ⊢
        have prot' : fetchSub prot + 1 = prot := by
          unfold fetchSub
          split <;> omega
        obtain ⟨ht, hp⟩ := ih (fetchSub total) (fetchSub prot) (by omega) (by omega)
        omega

/-- A touched entry is protected, and `protected_entries_` counts it if it was not before. -/
theorem touchEntry_segmented {entry : ValueEntry} (segmented : entry.Segmented) (prot : Nat)
    (now : Int) : (touchEntry prot entry now).1.inProtectedSegment = true ∧
      2 ≤ (touchEntry prot entry now).1.lfuCount ∧
      (touchEntry prot entry now).2 + entry.inProtectedSegment.toNat = prot + 1 := by
  obtain ⟨positive, agrees⟩ := segmented
  have two : 2 ≤ if entry.lfuCount < uint32Max then entry.lfuCount + 1 else entry.lfuCount := by
    unfold uint32Max
    split <;> omega
  cases segment : entry.inProtectedSegment <;> simp [touchEntry, segment, two]

namespace ConcurrentStore

variable {cfg : Config} {store : ConcurrentStore cfg}

/-- All stored entries, stripe by stripe. -/
def entries (store : ConcurrentStore cfg) : List Entry := allEntries store.stripes

/-- The representation invariant. -/
structure Rep (store : ConcurrentStore cfg) : Prop where
  total : store.totalEntries = store.entries.length
  protectedTotal :
    store.protectedEntries = store.entries.countP fun e => e.2.inProtectedSegment
  distinct : (store.entries.map Sigma.fst).Nodup
  placed : ∀ i, ∀ e ∈ (store.stripes i).entries, cfg.stripeIndexForKey e.1 = i
  segmented : ∀ e ∈ store.entries, e.2.Segmented

/-- Keys that stand in their own stripes are stored at most once. -/
theorem distinct_of_placed
    (placed : ∀ i, ∀ e ∈ (store.stripes i).entries, cfg.stripeIndexForKey e.1 = i) :
    (store.entries.map Sigma.fst).Nodup := by
  rw [entries, allEntries, List.map_flatMap, List.nodup_flatMap]
  refine ⟨fun i _ => (store.stripes i).nodupKeys, ?_⟩
  refine (List.nodup_finRange _).imp fun {i j} different key first second => ?_
  obtain ⟨e, inFirst, rfl⟩ := List.mem_map.mp first
  obtain ⟨e', inSecond, same⟩ := List.mem_map.mp second
  exact different ((placed i e inFirst).symm.trans (same ▸ placed j e' inSecond))

theorem new_rep (cfg : Config) : (new cfg).Rep := by
  have empty : (new cfg).entries = [] := by
    simp [entries, allEntries, new]
  have placed : ∀ i, ∀ e ∈ ((new cfg).stripes i).entries, cfg.stripeIndexForKey e.1 = i := by
    simp [new]
  refine ⟨?_, ?_, distinct_of_placed placed, placed, ?_⟩
  · rw [empty]
    rfl
  · rw [empty]
    rfl
  · rw [empty]
    simp

namespace Rep

theorem total_eq (rep : store.Rep) :
    store.totalEntries = tallyAll (fun _ => true) store.stripes :=
  rep.total.trans (length_allEntries _)

theorem protected_eq (rep : store.Rep) :
    store.protectedEntries = tallyAll ValueEntry.inProtectedSegment store.stripes :=
  rep.protectedTotal.trans (countP_allEntries ValueEntry.inProtectedSegment _)

/-- The counters are at least the counts of each stripe. -/
theorem tally_le_total (rep : store.Rep) (i : Fin cfg.stripeCount) :
    tally (fun _ => true) (store.stripes i) ≤ store.totalEntries := by
  rw [rep.total_eq]
  exact tally_le_tallyAll _ store.stripes i

theorem tally_le_protected (rep : store.Rep) (i : Fin cfg.stripeCount) :
    tally ValueEntry.inProtectedSegment (store.stripes i) ≤ store.protectedEntries := by
  rw [rep.protected_eq]
  exact tally_le_tallyAll _ store.stripes i

/-- A section that replaces the map of stripe `i` keeps the invariant if the counters move by as
much as the counts of that stripe. -/
theorem update (rep : store.Rep) (i : Fin cfg.stripeCount) (map : Stripe) {total prot : Nat}
    (totals : total + tally (fun _ => true) (store.stripes i) =
      store.totalEntries + tally (fun _ => true) map)
    (prots : prot + tally ValueEntry.inProtectedSegment (store.stripes i) =
      store.protectedEntries + tally ValueEntry.inProtectedSegment map)
    (placed : ∀ e ∈ map.entries, cfg.stripeIndexForKey e.1 = i)
    (segmented : ∀ e ∈ map.entries, e.2.Segmented) :
    Rep ⟨Function.update store.stripes i map, total, prot⟩ := by
  have places : ∀ j, ∀ e ∈ (Function.update store.stripes i map j).entries,
      cfg.stripeIndexForKey e.1 = j := by
    intro j e member
    by_cases same : j = i
    · subst same
      exact placed e (by simpa using member)
    · exact rep.placed j e (by simpa [same] using member)
  refine ⟨?_, ?_, distinct_of_placed places, places, ?_⟩
  · have moved := tallyAll_update (fun _ => true) store.stripes i map
    have before := rep.total_eq
    rw [entries, length_allEntries]
    dsimp only
    omega
  · have moved := tallyAll_update ValueEntry.inProtectedSegment store.stripes i map
    have before := rep.protected_eq
    rw [entries, countP_allEntries ValueEntry.inProtectedSegment]
    dsimp only
    omega
  · intro e member
    obtain ⟨j, member⟩ := mem_allEntries.mp member
    by_cases same : j = i
    · subst same
      exact segmented e (by simpa using member)
    · exact rep.segmented e (mem_allEntries.mpr ⟨j, by simpa [same] using member⟩)

theorem placed_of_find (rep : store.Rep) {key : Bytes} {e : Entry}
    (member : e ∈ (store.stripeFor key).entries) :
    cfg.stripeIndexForKey e.1 = cfg.stripeIndexForKey key :=
  rep.placed _ e member

theorem segmented_of_mem (rep : store.Rep) {i : Fin cfg.stripeCount} {e : Entry}
    (member : e ∈ (store.stripes i).entries) : e.2.Segmented :=
  rep.segmented e (mem_allEntries.mpr ⟨i, member⟩)

theorem segmented_of_find (rep : store.Rep) {key : Bytes} {entry : ValueEntry}
    (found : store.find key = some entry) : entry.Segmented :=
  rep.segmented_of_mem (e := ⟨key, entry⟩) (lookup_eq_some_iff.mp found)

theorem placed_insert (rep : store.Rep) {key : Bytes} {entry : ValueEntry} :
    ∀ e ∈ ((store.stripeFor key).insert key entry).entries,
      cfg.stripeIndexForKey e.1 = cfg.stripeIndexForKey key := by
  intro e member
  rcases mem_entries_insert member with rfl | old
  · rfl
  · exact rep.placed_of_find old

theorem segmented_insert (rep : store.Rep) {key : Bytes} {entry : ValueEntry}
    (segmented : entry.Segmented) :
    ∀ e ∈ ((store.stripeFor key).insert key entry).entries, e.2.Segmented := by
  intro e member
  rcases mem_entries_insert member with rfl | old
  · exact segmented
  · exact rep.segmented_of_mem old

/-- Overwriting the entry of a stored key keeps the invariant if `protected_entries_` follows the
segment of the entry. -/
theorem put_old (rep : store.Rep) {key : Bytes} {entry entry' : ValueEntry} {prot : Nat}
    (found : store.find key = some entry) (segmented : entry'.Segmented)
    (prots : prot + entry.inProtectedSegment.toNat =
      store.protectedEntries + entry'.inProtectedSegment.toNat) :
    Rep { store.put key entry' with protectedEntries := prot } := by
  have size := tally_insert_old (fun _ => true) entry' found
  have prots' := tally_insert_old ValueEntry.inProtectedSegment entry' found
  refine rep.update (cfg.stripeIndexForKey key) ((store.stripeFor key).insert key entry') ?_ ?_
    rep.placed_insert (rep.segmented_insert segmented)
  · change _ + tally _ (store.stripeFor key) = _
    change store.totalEntries + _ = _
    omega
  · change prot + tally _ (store.stripeFor key) = _
    omega

theorem put_new (rep : store.Rep) {key : Bytes} {entry : ValueEntry}
    (absent : store.find key = none) (segmented : entry.Segmented)
    (fresh : entry.inProtectedSegment = false) :
    Rep { store.put key entry with totalEntries := store.totalEntries + 1 } := by
  have size := tally_insert_new (fun _ => true) entry absent
  have prots := tally_insert_new ValueEntry.inProtectedSegment entry absent
  refine rep.update (cfg.stripeIndexForKey key) ((store.stripeFor key).insert key entry) ?_ ?_
    rep.placed_insert (rep.segmented_insert segmented)
  · change _ + tally _ (store.stripeFor key) = _
    simp only [Bool.toNat_true] at size
    omega
  · change store.protectedEntries + tally _ (store.stripeFor key) = _
    simp only [fresh, Bool.toNat_false] at prots
    omega

theorem touch (rep : store.Rep) {key : Bytes} {entry entry' : ValueEntry} (now : Int)
    (found : store.find key = some entry) (count : entry'.lfuCount = entry.lfuCount)
    (segment : entry'.inProtectedSegment = entry.inProtectedSegment) :
    Rep (store.touch key entry' now) := by
  have segmented : entry'.Segmented := by
    have := rep.segmented_of_find found
    rwa [ValueEntry.Segmented, count, segment]
  obtain ⟨protectedEntry, two, prots⟩ :=
    touchEntry_segmented segmented store.protectedEntries now
  refine rep.put_old found ⟨by omega, iff_of_true protectedEntry two⟩ ?_
  rw [protectedEntry, ← segment]
  exact prots

/-- An erased entry was counted, so neither counter wraps. -/
theorem eraseEntry (rep : store.Rep) {key : Bytes} {entry : ValueEntry}
    (found : store.find key = some entry) : Rep (store.eraseEntry key entry) := by
  have size := tally_erase (fun _ => true) found
  have prots := tally_erase ValueEntry.inProtectedSegment found
  have sizes := rep.tally_le_total (cfg.stripeIndexForKey key)
  have allProts := rep.tally_le_protected (cfg.stripeIndexForKey key)
  change tally _ (store.stripeFor key) ≤ _ at sizes allProts
  refine rep.update (cfg.stripeIndexForKey key) ((store.stripeFor key).erase key) ?_ ?_ ?_ ?_
  · change _ + tally _ (store.stripeFor key) = _
    simp only [Bool.toNat_true] at size
    simp only [fetchSub]
    split <;> omega
  · change _ + tally _ (store.stripeFor key) = _
    cases segment : entry.inProtectedSegment
    · simp only [segment, Bool.toNat_false] at prots
      simp only [Bool.false_eq_true, if_false]
      omega
    · simp only [segment, Bool.toNat_true] at prots
      simp only [if_true, fetchSub]
      split <;> omega
  · intro e member
    exact rep.placed_of_find (mem_entries_erase member)
  · intro e member
    exact rep.segmented_of_mem (mem_entries_erase member)

theorem setSection (rep : store.Rep) (key value : Bytes) (expiresAt : Option Int) (now : Int) :
    Rep (store.setSection key value expiresAt now) := by
  unfold ConcurrentStore.setSection
  split
  · rename_i entry found
    exact rep.touch now found rfl rfl
  · rename_i absent
    exact rep.put_new absent ⟨le_rfl, by simp⟩ rfl

theorem getSection (rep : store.Rep) (key : Bytes) (now : Int) :
    Rep (store.getSection key now).1 := by
  unfold ConcurrentStore.getSection
  split
  · exact rep
  · rename_i entry found
    split
    · exact rep.eraseEntry found
    · exact rep.touch now found rfl rfl

theorem demoteSection (rep : store.Rep) (victim : Bytes) : Rep (store.demoteSection victim) := by
  unfold ConcurrentStore.demoteSection
  split
  · exact rep
  · rename_i entry found
    split
    · rename_i segment
      refine rep.put_old found ⟨le_rfl, by simp⟩ ?_
      have counted := tally_erase ValueEntry.inProtectedSegment found
      have all := rep.tally_le_protected (cfg.stripeIndexForKey victim)
      change tally _ (store.stripeFor victim) ≤ _ at all
      simp only [segment, Bool.toNat_true, Bool.toNat_false, fetchSub] at counted ⊢
      split <;> omega
    · exact rep

theorem evictSection (rep : store.Rep) (victim : Bytes) : Rep (store.evictSection victim) := by
  unfold ConcurrentStore.evictSection
  split
  · exact rep
  · rename_i entry found
    exact rep.eraseEntry found

/-- The sweep of a stripe takes as much off the counters as it drops of the stripe. -/
theorem sweep_counters (rep : store.Rep) (now : Int) (i : Fin cfg.stripeCount) :
    let swept := sweepEntries now (store.stripes i).entries store.totalEntries
      store.protectedEntries
    swept.2.1 + (store.stripes i).entries.length = store.totalEntries + swept.1.length ∧
      swept.2.2 + tally ValueEntry.inProtectedSegment (store.stripes i) =
        store.protectedEntries + swept.1.countP fun e => e.2.inProtectedSegment := by
  have totals := rep.tally_le_total i
  rw [tally_true] at totals
  exact sweepEntries_counters now _ _ _ totals (rep.tally_le_protected i)

theorem sweepStripe (rep : store.Rep) (now : Int) (i : Fin cfg.stripeCount) :
    Rep (store.sweepStripe now i) := by
  have kept := sweepEntries_kept now (store.stripes i).entries store.totalEntries
    store.protectedEntries
  obtain ⟨total, prot⟩ := rep.sweep_counters now i
  have subset : ∀ e ∈ (sweepEntries now (store.stripes i).entries store.totalEntries
      store.protectedEntries).1, e ∈ (store.stripes i).entries := by
    intro e member
    rw [kept] at member
    exact (List.mem_filter.mp member).1
  refine rep.update i _ ?_ prot ?_ ?_
  · rw [tally_true, tally_true]
    exact total
  · exact fun e member => rep.placed i e (subset e member)
  · exact fun e member => rep.segmented_of_mem (subset e member)

theorem reorder (rep : store.Rep) {i : Fin cfg.stripeCount} {map : Stripe}
    (perm : map.entries.Perm (store.stripes i).entries) :
    Rep { store with stripes := Function.update store.stripes i map } := by
  refine rep.update i map ?_ ?_ ?_ ?_
  · rw [tally_perm perm]
  · rw [tally_perm perm]
  · exact fun e member => rep.placed i e (perm.mem_iff.mp member)
  · exact fun e member => rep.segmented_of_mem (perm.mem_iff.mp member)

end Rep

end ConcurrentStore

/-- A step of a client keeps the representation invariant. -/
theorem Call.advance_rep {cfg : Config} {store store' : ConcurrentStore cfg}
    {call call' : Call cfg} {action : Action} {event : Event} (rep : store.Rep)
    (moved : call.advance store action = some (store', call', event)) : store'.Rep := by
  cases advance_sound moved with
  | callSet key value expiresAt now =>
    exact rep
  | callGet key =>
    exact rep
  | reorder perm =>
    exact rep.reorder perm
  | proceed clock moved =>
    cases call with
    | idle => cases moved
    | setSection key value expiresAt now =>
      cases moved
      exact rep.setSection key value expiresAt now
    | sweep now i =>
      cases moved
      exact rep.sweepStripe now i
    | demote victim =>
      cases moved
      exact rep.demoteSection victim
    | evict victim =>
      cases moved
      exact rep.evictSection victim
    | getExclusive key =>
      cases moved
      exact rep.getSection key clock
    | getShared key =>
      simp only [proceed] at moved
      split at moved <;> cases moved <;> exact rep
    | loadTotal | reloadTotal | loadProtected | demoteScan | evictScan =>
      cases moved
      exact rep

/-- After every schedule of concurrent calls, the store satisfies its representation invariant. -/
theorem clients_rep {ι : Type} [DecidableEq ι] (cfg : Config) {schedule : List (ι × Action)}
    {after : Pool ι (ConcurrentStore cfg) (Call cfg)} {events : List Event}
    (ran : (clients ι cfg).run (start ι cfg) schedule = some (after, events)) :
    after.shared.Rep :=
  Program.run_invariant (fun _ => True) (fun s => s.shared.Rep)
    (fun s l t e rep _ moved => by
      obtain ⟨shared, k, advanced, rfl⟩ := Program.step_eq_some.mp moved
      exact Call.advance_rep rep advanced)
    (ConcurrentStore.new_rep cfg) ran fun _ _ => trivial

/-- Two stripes, room for one entry, and keys that fall on different stripes. -/
def tightConfig : Config := ⟨2, 1, fun key => if key = ascii "a" then 0 else 1⟩

/-- Two clients insert different keys, the first makes room, and the second then finds room. -/
def contention : List (Bool × Action) :=
  [(false, .callSet (ascii "a") (ascii "x") none 0 1),
    (true, .callSet (ascii "b") (ascii "y") none 0 2), (false, .proceed 3), (true, .proceed 4)] ++
    List.replicate 8 (false, .proceed 5) ++ [(true, .proceed 6)]

theorem contention_rep : ∃ after events,
    (clients Bool tightConfig).run (start Bool tightConfig) contention =
        some (after, events) ∧ after.shared.Rep :=
  have ran : ((clients Bool tightConfig).run (start Bool tightConfig) contention).isSome =
    true := by decide
  ⟨_, _, (Option.some_get ran).symm, clients_rep tightConfig (Option.some_get ran).symm⟩

end DistributedCache.Core
