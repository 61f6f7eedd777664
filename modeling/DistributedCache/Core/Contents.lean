import DistributedCache.Core.Agreement
import DistributedCache.Lib.Ranking

/-! The stored entries as a finite set.  The sections of `Set`, `Get`, and `EnforceCapacity` insert
and erase single entries of it, the sweep filters it, and a scan for a victim finds the entry of
least rank in a segment. -/

namespace DistributedCache.Core

open Lib

/-- The order of the victims of one segment: by frequency, then by the last touch, then by key. -/
def rank (e : Entry) : ℕ ×ₗ ℕ ×ₗ List ℕ :=
  toLex (e.2.lfuCount, toLex (e.2.lastTouchNs, e.1.map UInt8.toNat))

/-- The entry as the demotion loop leaves it. -/
def demoted (e : Entry) : Entry := ⟨e.1, { e.2 with inProtectedSegment := false, lfuCount := 1 }⟩

/-- The entries of a segment. -/
def segment (protect : Bool) (contents : Finset Entry) : Finset Entry :=
  contents.filter fun e => e.2.inProtectedSegment = protect

/-- The entries that have not expired. -/
def live (now : Int) (contents : Finset Entry) : Finset Entry :=
  contents.filter fun e => ¬e.2.isExpired now

theorem mem_segment {protect : Bool} {contents : Finset Entry} {e : Entry} :
    e ∈ segment protect contents ↔ e ∈ contents ∧ e.2.inProtectedSegment = protect :=
  Finset.mem_filter

theorem mem_live {now : Int} {contents : Finset Entry} {e : Entry} :
    e ∈ live now contents ↔ e ∈ contents ∧ ¬e.2.isExpired now :=
  Finset.mem_filter

theorem rank_injective_on_keys {e e' : Entry} (same : rank e = rank e') : e.1 = e'.1 := by
  simp only [rank, toLex_inj, Prod.mk.injEq] at same
  have bytes : Function.Injective UInt8.toNat := fun a b => UInt8.toNat_inj.mp
  exact List.map_injective_iff.mpr bytes same.2.2

/-- Within a segment the score of the eviction policy is the rank. -/
theorem score_le_iff {e e' : Entry} (same : e.2.inProtectedSegment = e'.2.inProtectedSegment) :
    score ⟨e.1, e.2.lfuCount, e.2.lastTouchNs, e.2.inProtectedSegment⟩ ≤
        score ⟨e'.1, e'.2.lfuCount, e'.2.lastTouchNs, e'.2.inProtectedSegment⟩ ↔
      rank e ≤ rank e' := by
  simp [score, rank, same, Prod.Lex.le_iff]

namespace ConcurrentStore

variable {cfg : Config} {store : ConcurrentStore cfg}

/-- The stored entries. -/
def contents (store : ConcurrentStore cfg) : Finset Entry := store.entries.toFinset

theorem Rep.mem_contents (rep : store.Rep) {e : Entry} :
    e ∈ store.contents ↔ store.find e.1 = some e.2 := by
  rw [contents, List.mem_toFinset, rep.mem_entries_iff]

theorem Rep.card_contents (rep : store.Rep) : store.contents.card = store.totalEntries := by
  rw [contents, List.toFinset_card_of_nodup rep.distinct.of_map, rep.total]

theorem Rep.card_protected (rep : store.Rep) :
    (segment true store.contents).card = store.protectedEntries := by
  rw [rep.protectedTotal, List.countP_eq_length_filter, segment, contents, ← List.toFinset_filter,
    List.toFinset_card_of_nodup (rep.distinct.of_map.filter _)]

theorem Rep.key_unique (rep : store.Rep) {e e' : Entry} (member : e ∈ store.contents)
    (member' : e' ∈ store.contents) (same : e.1 = e'.1) : e = e' := by
  obtain ⟨key, entry⟩ := e
  obtain ⟨key', entry'⟩ := e'
  cases same
  have found := rep.mem_contents.mp member
  rw [rep.mem_contents.mp member'] at found
  cases found
  rfl

theorem Rep.rank_injOn (rep : store.Rep) (protect : Bool) :
    Set.InjOn rank (segment protect store.contents) := by
  intro e member e' member' same
  exact rep.key_unique (mem_segment.mp member).1 (mem_segment.mp member').1
    (rank_injective_on_keys same)

theorem Agree.contents {cfg' : Config} {store' : ConcurrentStore cfg'}
    (agree : store.Agree store') : store.contents = store'.contents := by
  ext e
  rw [agree.rep.mem_contents, agree.rep'.mem_contents, agree.find]

/-! ### Sections -/

theorem Rep.contents_eq {after : ConcurrentStore cfg} {contents : Finset Entry} (rep : after.Rep)
    (same : ∀ key entry, after.find key = some entry ↔ ⟨key, entry⟩ ∈ contents) :
    after.contents = contents := by
  ext ⟨key, entry⟩
  rw [rep.mem_contents, same]

/-- The contents with another entry for a key. -/
theorem Rep.contents_replace {after : ConcurrentStore cfg} {key : Bytes}
    {entry entry' : ValueEntry} (rep : store.Rep) (rep' : after.Rep)
    (found : store.find key = some entry)
    (same : ∀ other, after.find other = if other = key then some entry' else store.find other) :
    after.contents = insert ⟨key, entry'⟩ (store.contents.erase ⟨key, entry⟩) := by
  refine rep'.contents_eq fun other e => ?_
  rw [same, Finset.mem_insert, Finset.mem_erase, rep.mem_contents]
  by_cases here : other = key
  · subst here
    rw [if_pos rfl, found]
    simp
    tauto
  · rw [if_neg here]
    simp [here]

theorem Rep.contents_eraseEntry {key : Bytes} {entry : ValueEntry} (rep : store.Rep)
    (found : store.find key = some entry) :
    (store.eraseEntry key entry).contents = store.contents.erase ⟨key, entry⟩ := by
  refine (rep.eraseEntry found).contents_eq fun other e => ?_
  rw [find_eraseEntry, Finset.mem_erase, rep.mem_contents]
  by_cases here : other = key
  · subst here
    rw [if_pos rfl, found]
    simp
    tauto
  · simp [here]

theorem Rep.contents_setSection_new {key value : Bytes} {expiresAt : Option Int} {now : Int}
    (rep : store.Rep) (absent : store.find key = none) :
    (store.setSection key value expiresAt now).contents =
      insert ⟨key, ⟨value, expiresAt, 1, toNs now, false⟩⟩ store.contents := by
  refine (rep.setSection key value expiresAt now).contents_eq fun other e => ?_
  have found : (store.setSection key value expiresAt now).find other =
      if other = key then some ⟨value, expiresAt, 1, toNs now, false⟩ else store.find other := by
    unfold ConcurrentStore.setSection
    rw [absent]
    exact find_put store key other _
  rw [found, Finset.mem_insert, rep.mem_contents]
  by_cases here : other = key
  · subst here
    rw [if_pos rfl, absent]
    simp [eq_comm]
  · simp [here]

theorem Rep.contents_touch {key : Bytes} {now : Int} {entry : ValueEntry} (rep : store.Rep)
    (found : store.find key = some entry) :
    (store.touch key entry now).contents =
      insert ⟨key, (touchEntry store.protectedEntries entry now).1⟩
        (store.contents.erase ⟨key, entry⟩) :=
  rep.contents_replace (rep.touch now found rfl rfl) found
    fun other => find_touch store key other entry now

theorem Rep.contents_demoteSection {e : Entry} (rep : store.Rep)
    (member : e ∈ segment true store.contents) :
    (store.demoteSection e.1).contents = insert (demoted e) (store.contents.erase e) := by
  obtain ⟨stored, protect⟩ := mem_segment.mp member
  have found := rep.mem_contents.mp stored
  refine rep.contents_replace (rep.demoteSection e.1) found fun other => ?_
  unfold ConcurrentStore.demoteSection
  rw [found]
  dsimp only
  rw [if_pos protect]
  exact find_put store e.1 other _

theorem Rep.contents_evictSection {e : Entry} (rep : store.Rep) (member : e ∈ store.contents) :
    (store.evictSection e.1).contents = store.contents.erase e := by
  have found := rep.mem_contents.mp member
  have section_eq : store.evictSection e.1 = store.eraseEntry e.1 e.2 := by
    unfold ConcurrentStore.evictSection
    rw [found]
  rw [section_eq]
  exact rep.contents_eraseEntry found

theorem Rep.contents_sweep (rep : store.Rep) (now : Int) :
    ((List.finRange cfg.stripeCount).foldl (ConcurrentStore.sweepStripe now) store).contents =
      live now store.contents := by
  refine (foldl_sweepStripe rep now _).1.contents_eq fun key entry => ?_
  rw [find_foldl_sweepStripe, if_pos (List.mem_finRange _), mem_live, rep.mem_contents,
    Option.filter_eq_some_iff]
  simp

/-! ### Victims -/

theorem Rep.candidate_iff (rep : store.Rep) {protect : Bool} {candidate : EvictionCandidate} :
    store.Candidate protect candidate ↔ ∃ e ∈ segment protect store.contents,
      candidate = ⟨e.1, e.2.lfuCount, e.2.lastTouchNs, e.2.inProtectedSegment⟩ := by
  constructor
  · rintro ⟨entry, found, segment, same⟩
    exact ⟨⟨candidate.key, entry⟩, mem_segment.mpr ⟨rep.mem_contents.mpr found, segment⟩, same⟩
  · rintro ⟨e, member, rfl⟩
    obtain ⟨stored, segment⟩ := mem_segment.mp member
    exact ⟨e.2, rep.mem_contents.mp stored, segment, rfl⟩

/-- A scan of an empty segment finds no victim. -/
theorem Rep.selectVictimKey_none (rep : store.Rep) {protect : Bool}
    (vacant : segment protect store.contents = ∅) : store.selectVictimKey protect = [] := by
  by_contra found
  obtain ⟨entry, found, inSegment⟩ := selectVictimKey_find rep found
  have member : (⟨_, entry⟩ : Entry) ∈ segment protect store.contents :=
    mem_segment.mpr ⟨rep.mem_contents.mpr found, inSegment⟩
  rw [vacant] at member
  exact absurd member (Finset.notMem_empty _)

/-- A scan finds the entry of least rank. -/
theorem Rep.selectVictimKey_least (rep : store.Rep) {protect : Bool}
    (nonempty : segment protect store.contents ≠ ∅) :
    ∃ e ∈ segment protect store.contents, store.selectVictimKey protect = e.1 ∧
      ∀ e' ∈ segment protect store.contents, rank e ≤ rank e' := by
  have scanned : ∀ candidate, candidate ∈
      (List.finRange cfg.stripeCount).flatMap (store.scanStripe protect) ↔
        store.Candidate protect candidate := by
    intro candidate
    simp [List.mem_flatMap, rep.mem_scanStripe]
  obtain ⟨e, member⟩ := Finset.nonempty_iff_ne_empty.mpr nonempty
  have nonempty : (List.finRange cfg.stripeCount).flatMap (store.scanStripe protect) ≠ [] :=
    List.ne_nil_of_mem ((scanned _).mpr (rep.candidate_iff.mpr ⟨e, member, rfl⟩))
  obtain ⟨victim, found, selected, least⟩ := selectVictim_least nonempty
  obtain ⟨e, member, rfl⟩ := rep.candidate_iff.mp ((scanned victim).mp found)
  refine ⟨e, member, selected, fun e' member' => ?_⟩
  have below := least _ ((scanned _).mpr (rep.candidate_iff.mpr ⟨e', member', rfl⟩))
  exact (score_le_iff ((mem_segment.mp member).2.trans (mem_segment.mp member').2.symm)).mp below

end ConcurrentStore

end DistributedCache.Core
