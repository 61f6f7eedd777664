import DistributedCache.Core.Sequential

/-! Stores with the same content.  They may have different numbers of stripes, hash functions, and
orders of the entries.  Every section leaves them with the same content, and a scan of the stripes
finds the same victim in both. -/

namespace DistributedCache.Core

open Lib

namespace ConcurrentStore

variable {cfg cfg' : Config} {store : ConcurrentStore cfg} {store' : ConcurrentStore cfg'}

/-- Well-formed stores with the same content. -/
structure Agree (store : ConcurrentStore cfg) (store' : ConcurrentStore cfg') : Prop where
  rep : store.Rep
  rep' : store'.Rep
  find : ∀ key, store.find key = store'.find key

namespace Agree

theorem perm (agree : store.Agree store') : store.entries.Perm store'.entries := by
  refine (List.perm_ext_iff_of_nodup agree.rep.distinct.of_map agree.rep'.distinct.of_map).mpr ?_
  intro e
  rw [agree.rep.mem_entries_iff, agree.rep'.mem_entries_iff, agree.find]

theorem totalEntries (agree : store.Agree store') :
    store.totalEntries = store'.totalEntries := by
  rw [agree.rep.total, agree.rep'.total, agree.perm.length_eq]

theorem protectedEntries (agree : store.Agree store') :
    store.protectedEntries = store'.protectedEntries := by
  rw [agree.rep.protectedTotal, agree.rep'.protectedTotal, agree.perm.countP_eq]

end Agree

/-! ### Sections -/

theorem find_put (store : ConcurrentStore cfg) (key other : Bytes) (entry : ValueEntry) :
    (store.put key entry).find other = if other = key then some entry else store.find other := by
  split
  · rename_i same
    rw [same, find_put_self]
  · rename_i different
    exact find_put_ne different

theorem find_eraseEntry (store : ConcurrentStore cfg) (key other : Bytes) (entry : ValueEntry) :
    (store.eraseEntry key entry).find other = if other = key then none else store.find other := by
  split
  · rename_i same
    rw [same, find_eraseEntry_self]
  · rename_i different
    exact find_eraseEntry_ne different

theorem find_touch (store : ConcurrentStore cfg) (key other : Bytes) (entry : ValueEntry)
    (now : Int) : (store.touch key entry now).find other =
      if other = key then some (touchEntry store.protectedEntries entry now).1
      else store.find other :=
  find_put store key other _

theorem find_sweepStripe (now : Int) (store : ConcurrentStore cfg) (i : Fin cfg.stripeCount)
    (key : Bytes) : (store.sweepStripe now i).find key =
      if cfg.stripeIndexForKey key = i then (store.find key).filter (!·.isExpired now)
      else store.find key := by
  have kept := sweepEntries_kept now (store.stripes i).entries store.totalEntries
    store.protectedEntries
  unfold find stripeFor
  split
  · rename_i same
    subst same
    ext entry
    simp only [sweepStripe, Function.update_self, Option.filter_eq_some_iff]
    rw [lookup_eq_some_iff, lookup_eq_some_iff]
    change _ ∈ (sweepEntries ..).1 ↔ _
    rw [kept, List.mem_filter]
  · rename_i different
    simp [sweepStripe, different]

/-- The sweep of some stripes drops the expired entries of these stripes. -/
theorem find_foldl_sweepStripe (now : Int) (is : List (Fin cfg.stripeCount))
    (store : ConcurrentStore cfg) (key : Bytes) :
    (is.foldl (sweepStripe now) store).find key =
      if cfg.stripeIndexForKey key ∈ is then (store.find key).filter (!·.isExpired now)
      else store.find key := by
  induction is generalizing store with
  | nil => simp
  | cons i is ih =>
    rw [List.foldl_cons, ih, find_sweepStripe]
    by_cases here : cfg.stripeIndexForKey key = i
    · simp [here, Option.filter_filter]
    · simp [here]

namespace Agree

variable (agree : store.Agree store')
include agree

theorem setSection (key value : Bytes) (expiresAt : Option Int) (now : Int) :
    (store.setSection key value expiresAt now).Agree
      (store'.setSection key value expiresAt now) := by
  refine ⟨agree.rep.setSection key value expiresAt now,
    agree.rep'.setSection key value expiresAt now, fun other => ?_⟩
  unfold ConcurrentStore.setSection
  rw [agree.find key]
  split
  · rw [find_touch, find_touch, agree.protectedEntries, agree.find]
  · change (store.put key _).find other = (store'.put key _).find other
    rw [find_put, find_put, agree.find]

theorem getSection (key : Bytes) (now : Int) :
    (store.getSection key now).1.Agree (store'.getSection key now).1 ∧
      (store.getSection key now).2 = (store'.getSection key now).2 := by
  refine ⟨⟨agree.rep.getSection key now, agree.rep'.getSection key now, fun other => ?_⟩, ?_⟩
  · unfold ConcurrentStore.getSection
    rw [agree.find key]
    split
    · exact agree.find other
    · split
      · rw [find_eraseEntry, find_eraseEntry, agree.find]
      · rw [find_touch, find_touch, agree.protectedEntries, agree.find]
  · unfold ConcurrentStore.getSection
    rw [agree.find key]
    split
    · rfl
    · split <;> rfl

theorem demoteSection (victim : Bytes) :
    (store.demoteSection victim).Agree (store'.demoteSection victim) := by
  refine ⟨agree.rep.demoteSection victim, agree.rep'.demoteSection victim, fun other => ?_⟩
  unfold ConcurrentStore.demoteSection
  rw [agree.find victim]
  split
  · exact agree.find other
  · split
    · change (store.put victim _).find other = (store'.put victim _).find other
      rw [find_put, find_put, agree.find]
    · exact agree.find other

theorem evictSection (victim : Bytes) :
    (store.evictSection victim).Agree (store'.evictSection victim) := by
  refine ⟨agree.rep.evictSection victim, agree.rep'.evictSection victim, fun other => ?_⟩
  unfold ConcurrentStore.evictSection
  rw [agree.find victim]
  split
  · exact agree.find other
  · rw [find_eraseEntry, find_eraseEntry, agree.find]

theorem sweep (now : Int) :
    ((List.finRange cfg.stripeCount).foldl (sweepStripe now) store).Agree
      ((List.finRange cfg'.stripeCount).foldl (sweepStripe now) store') := by
  refine ⟨(foldl_sweepStripe agree.rep now _).1, (foldl_sweepStripe agree.rep' now _).1, ?_⟩
  intro key
  simp [find_foldl_sweepStripe, agree.find]

end Agree

/-! ### Victims -/

theorem Agree.candidate_iff (agree : store.Agree store') {segment : Bool}
    {candidate : EvictionCandidate} :
    store.Candidate segment candidate ↔ store'.Candidate segment candidate := by
  unfold Candidate
  rw [agree.find]

/-- Whatever finds all candidates of a segment selects the same victim. -/
theorem Agree.selectVictim (agree : store.Agree store') {segment : Bool}
    {found : List EvictionCandidate} (all : ∀ c, c ∈ found ↔ store.Candidate segment c) :
    selectVictim found = store'.selectVictimKey segment := by
  refine selectVictim_congr fun candidate => ?_
  rw [all, agree.candidate_iff, List.mem_flatMap]
  simp [agree.rep'.mem_scanStripe]

end ConcurrentStore

end DistributedCache.Core
