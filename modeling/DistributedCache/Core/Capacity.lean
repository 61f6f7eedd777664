import DistributedCache.Core.Representation

/-! The capacity of the store.  The thread that last inserted or demoted an entry is responsible
for the capacity: until it finds at most `max_entries` entries, it stays in `EnforceCapacity`, and
no scan of it comes back empty from a store that holds entries, because no entry has entered the
unprotected segment since the scan began. -/

namespace DistributedCache.Core

open Lib

namespace ConcurrentStore

variable {cfg : Config} {store store' : ConcurrentStore cfg}

/-- Every entry of `store'` is an entry of `store` that may have been touched and has not been
demoted. -/
def Shrinks (store store' : ConcurrentStore cfg) : Prop :=
  ∀ i, ∀ e' ∈ (store'.stripes i).entries, ∃ e ∈ (store.stripes i).entries,
    e.1 = e'.1 ∧ (e.2.inProtectedSegment = true → e'.2.inProtectedSegment = true)

theorem Shrinks.refl (store : ConcurrentStore cfg) : store.Shrinks store :=
  fun _ e member => ⟨e, member, rfl, id⟩

/-- A section that replaces the map of stripe `i` shrinks the store if it shrinks that stripe. -/
theorem shrinks_update {i : Fin cfg.stripeCount} {map : Stripe} {total prot : Nat}
    (shrinks : ∀ e' ∈ map.entries, ∃ e ∈ (store.stripes i).entries,
      e.1 = e'.1 ∧ (e.2.inProtectedSegment = true → e'.2.inProtectedSegment = true)) :
    store.Shrinks ⟨Function.update store.stripes i map, total, prot⟩ := by
  intro j e' member
  by_cases same : j = i
  · subst same
    exact shrinks e' (by simpa using member)
  · exact ⟨e', by simpa [same] using member, rfl, id⟩

theorem eraseEntry_shrinks (store : ConcurrentStore cfg) (key : Bytes) (entry : ValueEntry) :
    store.Shrinks (store.eraseEntry key entry) :=
  shrinks_update fun e member => ⟨e, mem_entries_erase member, rfl, id⟩

theorem touch_shrinks {key : Bytes} {entry : ValueEntry} (now : Int) (rep : store.Rep)
    (found : store.find key = some entry) : store.Shrinks (store.touch key entry now) := by
  refine shrinks_update fun e' member => ?_
  rcases mem_entries_insert member with rfl | old
  · have touched := touchEntry_segmented (rep.segmented_of_find found) store.protectedEntries now
    exact ⟨⟨key, entry⟩, lookup_eq_some_iff.mp found, rfl, fun _ => touched.1⟩
  · exact ⟨e', old, rfl, id⟩

theorem getSection_shrinks (rep : store.Rep) (key : Bytes) (now : Int) :
    store.Shrinks (store.getSection key now).1 := by
  unfold getSection
  split
  · exact .refl store
  · rename_i entry found
    split
    · exact eraseEntry_shrinks store key entry
    · exact touch_shrinks now rep found

theorem sweepStripe_shrinks (now : Int) (store : ConcurrentStore cfg) (i : Fin cfg.stripeCount) :
    store.Shrinks (store.sweepStripe now i) := by
  refine shrinks_update fun e member => ⟨e, ?_, rfl, id⟩
  rw [show (AList.mk _ _ : Stripe).entries = _ from sweepEntries_kept ..] at member
  exact (List.mem_filter.mp member).1

theorem evictSection_shrinks (store : ConcurrentStore cfg) (victim : Bytes) :
    store.Shrinks (store.evictSection victim) := by
  unfold evictSection
  split
  · exact .refl store
  · exact eraseEntry_shrinks store victim _

theorem reorder_shrinks {i : Fin cfg.stripeCount} {map : Stripe}
    (perm : map.entries.Perm (store.stripes i).entries) :
    store.Shrinks { store with stripes := Function.update store.stripes i map } :=
  shrinks_update fun e member => ⟨e, perm.mem_iff.mp member, rfl, id⟩

/-- A store that shrinks holds no more entries than before. -/
theorem Shrinks.length_le (shrinks : store.Shrinks store') :
    store'.entries.length ≤ store.entries.length := by
  rw [entries, entries, length_allEntries, length_allEntries]
  refine Finset.sum_le_sum fun i _ => ?_
  rw [tally_true, tally_true]
  have subset : (store'.stripes i).keys ⊆ (store.stripes i).keys := by
    intro key member
    obtain ⟨e', member', rfl⟩ := List.mem_map.mp member
    obtain ⟨e, member, same, _⟩ := shrinks i e' member'
    exact List.mem_map.mpr ⟨e, member, same⟩
  have := ((store'.stripes i).keys_nodup.subperm subset).length_le
  simpa [AList.keys, List.keys] using this

/-- No stored key is empty. -/
def Keyed (store : ConcurrentStore cfg) : Prop :=
  ∀ i, ∀ e ∈ (store.stripes i).entries, e.1 ≠ []

theorem Shrinks.keyed (shrinks : store.Shrinks store') (keyed : store.Keyed) : store'.Keyed := by
  intro i e' member
  obtain ⟨e, member, same, _⟩ := shrinks i e' member
  exact same ▸ keyed i e member

theorem Keyed.put (keyed : store.Keyed) {key : Bytes} (nonempty : key ≠ []) (entry : ValueEntry) :
    (store.put key entry).Keyed := by
  intro i e member
  by_cases same : i = cfg.stripeIndexForKey key
  · subst same
    have inserted : e ∈ ((store.stripeFor key).insert key entry).entries := by
      simpa [ConcurrentStore.put, setStripe] using member
    rcases mem_entries_insert inserted with rfl | old
    · exact nonempty
    · exact keyed _ e old
  · exact keyed i e (by simpa [ConcurrentStore.put, setStripe, same] using member)

theorem Keyed.setSection (keyed : store.Keyed) {key : Bytes} (nonempty : key ≠ []) (value : Bytes)
    (expiresAt : Option Int) (now : Int) : (store.setSection key value expiresAt now).Keyed := by
  unfold ConcurrentStore.setSection
  split
  · exact keyed.put nonempty _
  · exact keyed.put nonempty _

theorem Keyed.demoteSection (keyed : store.Keyed) (victim : Bytes) :
    (store.demoteSection victim).Keyed := by
  unfold ConcurrentStore.demoteSection
  split
  · exact keyed
  · rename_i entry found
    split
    · exact keyed.put (keyed _ ⟨victim, entry⟩ (lookup_eq_some_iff.mp found)) _
    · exact keyed

theorem Keyed.scanStripe (keyed : store.Keyed) (segment : Bool) (i : Fin cfg.stripeCount) :
    ∀ candidate ∈ store.scanStripe segment i, candidate.key ≠ [] := by
  intro candidate member
  obtain ⟨e, stored, taken⟩ := List.mem_filterMap.mp member
  split at taken
  · cases taken
    exact keyed i e stored
  · cases taken

theorem Keyed.gathered (keyed : store.Keyed) {found : List EvictionCandidate}
    (keys : ∀ candidate ∈ found, candidate.key ≠ []) (segment : Bool) (i : Fin cfg.stripeCount) :
    ∀ candidate ∈ found ++ store.scanStripe segment i, candidate.key ≠ [] := by
  intro candidate member
  rcases List.mem_append.mp member with old | new
  · exact keys candidate old
  · exact keyed.scanStripe segment i candidate new

/-- A scan comes back empty only from a stripe without entries in the segment. -/
theorem scanStripe_eq_nil {segment : Bool} {i : Fin cfg.stripeCount} :
    store.scanStripe segment i = [] ↔
      ∀ e ∈ (store.stripes i).entries, e.2.inProtectedSegment ≠ segment := by
  simp [scanStripe, candidates, List.filterMap_eq_nil_iff]

/-- Every entry of stripe `i` is protected. -/
def AllProtected (store : ConcurrentStore cfg) (i : Fin cfg.stripeCount) : Prop :=
  ∀ e ∈ (store.stripes i).entries, e.2.inProtectedSegment = true

theorem Shrinks.allProtected (shrinks : store.Shrinks store') {i : Fin cfg.stripeCount}
    (all : store.AllProtected i) : store'.AllProtected i := by
  intro e' member
  obtain ⟨e, member, _, keep⟩ := shrinks i e' member
  exact keep (all e member)

theorem Shrinks.empty (shrinks : store.Shrinks store') {i : Fin cfg.stripeCount}
    (empty : (store.stripes i).entries = []) : (store'.stripes i).entries = [] := by
  refine List.eq_nil_iff_forall_not_mem.mpr fun e' member => ?_
  obtain ⟨e, member, _⟩ := shrinks i e' member
  simp [empty] at member

end ConcurrentStore

namespace Call

variable {cfg : Config} {store store' : ConcurrentStore cfg} {call call' : Call cfg}
  {action : Action} {event : Event}

/-- The call will not return before it has found room: it has not begun its last scans, or they
have found candidates, or they have found none where there are none. -/
def Responsible (store : ConcurrentStore cfg) : Call cfg → Prop
  | idle | setSection .. | getShared _ | getExclusive _ => False
  | evictScan false i found => found ≠ [] ∨ ∀ j < i, store.AllProtected j
  | evictScan true i found => found ≠ [] ∨
      ((∀ j, store.AllProtected j) ∧ ∀ j < i, (store.stripes j).entries = [])
  | _ => True

/-- The keys that a call holds are non-empty, and a call in the demotion loop has seen too many
entries. -/
def Sound : Call cfg → Prop
  | setSection key .. => key ≠ []
  | loadProtected total => cfg.maxEntries < total
  | demoteScan total _ found =>
    cfg.maxEntries < total ∧ ∀ candidate ∈ found, candidate.key ≠ []
  | evictScan _ _ found => ∀ candidate ∈ found, candidate.key ≠ []
  | _ => True

theorem evictLoop_sound (total : Nat) : (evictLoop total : Call cfg).Sound := by
  unfold evictLoop
  split
  · simp [Sound]
  · trivial

theorem demoteLoop_sound (total prot : Nat) : (demoteLoop total prot : Call cfg).Sound := by
  unfold demoteLoop
  split
  · rename_i full
    exact ⟨full.1, by simp⟩
  · exact evictLoop_sound total

theorem not_responsible_of_not_inSet (h : call.inSet = false) : ¬call.Responsible store := by
  cases call <;> simp_all [inSet, Responsible]

theorem Responsible.shrinks (shrinks : store.Shrinks store') (resp : call.Responsible store) :
    call.Responsible store' := by
  cases call with
  | evictScan segment i found =>
    cases segment
    · exact resp.imp_right fun all j below => shrinks.allProtected (all j below)
    · exact resp.imp_right fun ⟨all, empty⟩ =>
        ⟨fun j => shrinks.allProtected (all j), fun j below => shrinks.empty (empty j below)⟩
  | _ => exact resp

theorem evictLoop_responsible {total : Nat} (full : cfg.maxEntries < total) :
    (evictLoop total : Call cfg).Responsible store := by
  rw [evictLoop, if_pos full]
  exact .inr fun j below => absurd below (Nat.not_lt_zero _)

/-- The eviction loop stops at its test only if there is room. -/
theorem evictLoop_duty (total : Nat) :
    total ≤ cfg.maxEntries ∨ (evictLoop total : Call cfg).Responsible store := by
  rcases Nat.lt_or_ge cfg.maxEntries total with full | room
  · exact .inr (evictLoop_responsible full)
  · exact .inl room

theorem demoteLoop_duty (total prot : Nat) :
    total ≤ cfg.maxEntries ∨ (demoteLoop total prot : Call cfg).Responsible store := by
  unfold demoteLoop
  split
  · exact .inr trivial
  · exact evictLoop_duty total

theorem nextStripe_cases {P : Call cfg → Prop} (i : Fin cfg.stripeCount)
    {next : Fin cfg.stripeCount → Call cfg} {last : Call cfg}
    (more : ∀ j, j.val = i.val + 1 → P (next j)) (done : i.val + 1 = cfg.stripeCount → P last) :
    P (nextStripe i next last) := by
  unfold nextStripe
  split
  · exact more _ rfl
  · exact done (by omega)

theorem evictVictim_responsible {segment : Bool} {found : List EvictionCandidate}
    (keys : ∀ candidate ∈ found, candidate.key ≠ []) (nonempty : found ≠ []) :
    (evictVictim segment found : Call cfg).Responsible store := by
  have victim : selectVictim found ≠ [] := (selectVictim_eq_nil keys).not.mpr nonempty
  rw [evictVictim, if_neg victim]
  trivial

/-- A responsible call that scans a stripe stays responsible, unless the store is empty. -/
theorem evictScan_duty {segment : Bool} {i : Fin cfg.stripeCount}
    {found : List EvictionCandidate} (resp : (evictScan segment i found).Responsible store)
    (keys : ∀ candidate ∈ found ++ store.scanStripe segment i, candidate.key ≠ []) :
    store.entries = [] ∨
      (nextStripe i (evictScan segment · (found ++ store.scanStripe segment i))
        (evictVictim segment (found ++ store.scanStripe segment i))).Responsible store := by
  by_cases any : found ++ store.scanStripe segment i = []
  · obtain ⟨rfl, scanned⟩ := List.append_eq_nil_iff.mp any
    have clear := ConcurrentStore.scanStripe_eq_nil.mp scanned
    rw [scanned, List.nil_append]
    cases segment
    · have all : ∀ j, j.val < i.val + 1 → store.AllProtected j := by
        intro j below
        rcases Nat.lt_or_eq_of_le (Nat.le_of_lt_succ below) with before | here
        · exact (resp.resolve_left fun h => h rfl) j before
        · obtain rfl : j = i := Fin.ext here
          exact fun e member => by simpa using clear e member
      refine .inr (nextStripe_cases i (fun j next => .inr fun j' below => all j' ?_) fun last => ?_)
      · exact next ▸ below
      · exact .inr ⟨fun j => all j (by omega), fun j below => absurd below (Nat.not_lt_zero _)⟩
    · obtain ⟨all, before⟩ := resp.resolve_left fun h => h rfl
      have empty : ∀ j, j.val < i.val + 1 → (store.stripes j).entries = [] := by
        intro j below
        rcases Nat.lt_or_eq_of_le (Nat.le_of_lt_succ below) with lower | here
        · exact before j lower
        · obtain rfl : j = i := Fin.ext here
          exact List.eq_nil_iff_forall_not_mem.mpr fun e member =>
            clear e member (all j e member)
      by_cases last : i.val + 1 = cfg.stripeCount
      · left
        exact List.eq_nil_iff_forall_not_mem.mpr fun e member => by
          obtain ⟨j, member⟩ := mem_allEntries.mp member
          simp [empty j (by omega)] at member
      · exact .inr (nextStripe_cases i
          (fun j next => .inr ⟨all, fun j' below => empty j' (next ▸ below)⟩)
          fun h => absurd h last)
  · refine .inr (nextStripe_cases i (fun j _ => ?_) fun _ => evictVictim_responsible keys any)
    cases segment
    · exact .inl any
    · exact .inl any

/-- The keys of a call and of the store stay non-empty. -/
theorem advance_keyed (keyed : store.Keyed) (rep : store.Rep) (sound : call.Sound)
    (named : ∀ key, event = .called key → key ≠ [])
    (moved : call.advance store action = some (store', call', event)) :
    store'.Keyed ∧ call'.Sound := by
  cases advance_sound moved with
  | callSet key value expiresAt now =>
    exact ⟨keyed, named key rfl⟩
  | callGet key =>
    exact ⟨keyed, trivial⟩
  | reorder perm =>
    exact ⟨(ConcurrentStore.reorder_shrinks perm).keyed keyed, sound⟩
  | proceed clock moved =>
    cases call with
    | idle => cases moved
    | setSection key value expiresAt now =>
      cases moved
      refine ⟨keyed.setSection sound value expiresAt now, ?_⟩
      unfold enforceCapacity
      split <;> trivial
    | loadTotal =>
      cases moved
      refine ⟨keyed, ?_⟩
      split <;> trivial
    | sweep now i =>
      cases moved
      exact ⟨(ConcurrentStore.sweepStripe_shrinks now store i).keyed keyed,
        nextStripe_cases i (fun _ _ => trivial) fun _ => trivial⟩
    | reloadTotal =>
      cases moved
      refine ⟨keyed, ?_⟩
      split
      · trivial
      · rename_i full
        exact Nat.lt_of_not_le full
    | loadProtected total =>
      cases moved
      exact ⟨keyed, demoteLoop_sound total _⟩
    | demoteScan total i found =>
      cases moved
      have keys := keyed.gathered sound.2 true i
      refine ⟨keyed, nextStripe_cases i (fun _ _ => ⟨sound.1, keys⟩) fun _ => ?_⟩
      unfold demoteVictim
      split
      · exact evictLoop_sound total
      · trivial
    | demote victim =>
      cases moved
      exact ⟨keyed.demoteSection victim, demoteLoop_sound _ _⟩
    | evictScan segment i found =>
      cases moved
      refine ⟨keyed, nextStripe_cases i (fun _ _ => keyed.gathered sound segment i) fun _ => ?_⟩
      unfold evictVictim
      split
      · split
        · trivial
        · simp [Sound]
      · trivial
    | evict victim =>
      cases moved
      exact ⟨(ConcurrentStore.evictSection_shrinks store victim).keyed keyed, evictLoop_sound _⟩
    | getShared key =>
      simp only [proceed] at moved
      split at moved <;> cases moved <;> exact ⟨keyed, trivial⟩
    | getExclusive key =>
      cases moved
      exact ⟨(ConcurrentStore.getSection_shrinks rep key clock).keyed keyed, trivial⟩

/-- What a step does to the capacity: it leaves room, or leaves its own call responsible, or is a
step of a call that was not responsible and only shrinks the store. -/
theorem advance_duty (bounded : 0 < cfg.maxEntries) (rep : store.Rep) (keyed : store.Keyed)
    (sound : call.Sound) (moved : call.advance store action = some (store', call', event)) :
    store'.entries.length ≤ cfg.maxEntries ∨ call'.Responsible store' ∨
      (store.Shrinks store' ∧ ¬call.Responsible store) := by
  have rep' := advance_rep rep moved
  cases advance_sound moved with
  | callSet key value expiresAt now =>
    exact .inr (.inr ⟨.refl store, id⟩)
  | callGet key =>
    exact .inr (.inr ⟨.refl store, id⟩)
  | reorder perm =>
    have shrinks := ConcurrentStore.reorder_shrinks perm
    by_cases resp : call.Responsible store
    · exact .inr (.inl (resp.shrinks shrinks))
    · exact .inr (.inr ⟨shrinks, resp⟩)
  | proceed clock moved =>
    cases call with
    | idle => cases moved
    | setSection key value expiresAt now =>
      cases moved
      rw [enforceCapacity, if_neg (by omega)]
      exact .inr (.inl trivial)
    | loadTotal =>
      cases moved
      rw [← rep.total]
      split
      · rename_i room
        exact .inl room
      · exact .inr (.inl trivial)
    | sweep now i =>
      cases moved
      exact .inr (.inl (nextStripe_cases i (fun _ _ => trivial) fun _ => trivial))
    | reloadTotal =>
      cases moved
      rw [← rep.total]
      split
      · rename_i room
        exact .inl room
      · exact .inr (.inl trivial)
    | loadProtected total =>
      cases moved
      exact .inr (.inl ((demoteLoop_duty total _).resolve_left (Nat.not_le.mpr sound)))
    | demoteScan total i found =>
      cases moved
      refine .inr (.inl (nextStripe_cases i (fun _ _ => trivial) fun _ => ?_))
      unfold demoteVictim
      split
      · exact evictLoop_responsible sound.1
      · trivial
    | demote victim =>
      cases moved
      rw [← rep'.total]
      exact (demoteLoop_duty _ _).imp_right .inl
    | evictScan segment i found =>
      cases moved
      by_cases resp : (evictScan segment i found).Responsible store
      · rcases evictScan_duty resp (keyed.gathered sound segment i) with empty | still
        · exact .inl (by simp [empty])
        · exact .inr (.inl still)
      · exact .inr (.inr ⟨.refl store, resp⟩)
    | evict victim =>
      cases moved
      rw [← rep'.total]
      exact (evictLoop_duty _).imp_right .inl
    | getShared key =>
      simp only [proceed] at moved
      split at moved <;> cases moved <;> exact .inr (.inr ⟨.refl store, id⟩)
    | getExclusive key =>
      cases moved
      exact .inr (.inr ⟨ConcurrentStore.getSection_shrinks rep key clock, id⟩)

end Call

/-- After every schedule of concurrent calls with non-empty keys, a bounded store holds at most
`max_entries` entries whenever no `Set` is in progress. -/
theorem capacity_at_rest {ι : Type} [DecidableEq ι] (cfg : Config) (bounded : 0 < cfg.maxEntries)
    {schedule : List (ι × Action)} {after : Pool ι (ConcurrentStore cfg) (Call cfg)}
    {events : List Event}
    (ran : (clients ι cfg).run (start ι cfg) schedule = some (after, events))
    (keys : .called [] ∉ events)
    (rest : ∀ i, (after.thread i).inSet = false) :
    after.shared.entries.length ≤ cfg.maxEntries := by
  have covered := Program.run_responsible
    (fun event => ∀ key, event = .called key → key ≠ [])
    (fun store => store.Rep ∧ store.Keyed) (fun _ call => call.Sound)
    (fun store => store.entries.length ≤ cfg.maxEntries)
    (fun store call => call.Responsible store)
    (fun i s k a s' k' e global sound named moved => by
      have keyed := Call.advance_keyed global.2 global.1 sound named moved
      exact ⟨⟨Call.advance_rep global.1 moved, keyed.1⟩, keyed.2⟩)
    (fun i s k a s' k' e j _ _ sound _ _ => sound)
    (fun i s k a s' k' e global sound _ moved => by
      refine (Call.advance_duty bounded global.1 global.2 sound moved).imp_right
        (Or.imp_right fun ⟨shrinks, idle⟩ => ⟨fun room => ?_, idle, fun j resp => ?_⟩)
      · exact shrinks.length_le.trans room
      · exact resp.shrinks shrinks)
    ⟨ConcurrentStore.new_rep cfg, by simp [start, ConcurrentStore.Keyed, ConcurrentStore.new]⟩
    (fun i => trivial)
    (le_of_eq_of_le (ConcurrentStore.new_rep cfg).total.symm (Nat.zero_le _)) ran
    (by rintro event member key rfl rfl; exact keys member)
  rcases covered with room | ⟨i, resp⟩
  · exact room
  · exact absurd resp (Call.not_responsible_of_not_inSet (rest i))

/-- In `contention` both calls have returned, and one of the two entries is left. -/
theorem contention_at_rest : ∃ after events,
    (clients Bool tightConfig).run (start Bool tightConfig) contention =
        some (after, events) ∧ after.shared.entries.length ≤ 1 :=
  have ran : ((clients Bool tightConfig).run (start Bool tightConfig) contention).isSome =
    true := by decide
  ⟨_, _, (Option.some_get ran).symm, capacity_at_rest tightConfig (by decide)
    (Option.some_get ran).symm (by decide) (by decide)⟩

end DistributedCache.Core
