import DistributedCache.Core.Contents
import DistributedCache.Core.Striping

/-! What `EnforceCapacity` removes, on the set of stored entries: the sweep drops the expired
entries, the demotion loop leaves the greatest protected entries protected, and the eviction loop
takes unprotected entries of least rank. -/

namespace DistributedCache.Core

open Lib

/-- The contents after the demotion of one entry. -/
def demoteOne (contents : Finset Entry) (e : Entry) : Finset Entry :=
  insert (demoted e) (contents.erase e)

/-- Unprotected entries of least rank are taken while there are more than `limit` entries. -/
inductive EvictsTo (limit : Nat) : Finset Entry → Finset Entry → Prop
  | done {contents : Finset Entry} : contents.card ≤ limit → EvictsTo limit contents contents
  | evict {contents after : Finset Entry} (e : Entry) : limit < contents.card →
      e ∈ segment false contents → (∀ e' ∈ segment false contents, rank e ≤ rank e') →
      EvictsTo limit (contents.erase e) after → EvictsTo limit contents after

/-- The protected entries in excess of `limit`, in the order of their ranks. -/
structure Excess (limit : Nat) (contents : Finset Entry) (victims : List Entry) : Prop where
  sorted : victims.Pairwise fun e e' => rank e < rank e'
  mem_iff : ∀ e, e ∈ victims ↔ e ∈ segment true contents ∧
    e ∉ greatest rank limit (segment true contents)

/-- What `EnforceCapacity` leaves of the contents. -/
inductive Enforced (cfg : Config) (now : Int) (contents : Finset Entry) : Finset Entry → Prop
  | fits : contents.card ≤ cfg.maxEntries → Enforced cfg now contents contents
  | swept : cfg.maxEntries < contents.card → (live now contents).card ≤ cfg.maxEntries →
      Enforced cfg now contents (live now contents)
  | evicted {after : Finset Entry} (victims : List Entry) :
      cfg.maxEntries < (live now contents).card →
      Excess cfg.protectedEntriesLimit (live now contents) victims →
      EvictsTo cfg.maxEntries (victims.foldl demoteOne (live now contents)) after →
      Enforced cfg now contents after

theorem segment_demoteOne {contents : Finset Entry} {e : Entry} :
    segment true (demoteOne contents e) = (segment true contents).erase e := by
  ext e'
  simp only [mem_segment, demoteOne, Finset.mem_insert, Finset.mem_erase]
  constructor
  · rintro ⟨rfl | ⟨different, member⟩, protect⟩
    · cases protect
    · exact ⟨different, member, protect⟩
  · rintro ⟨different, member, protect⟩
    exact ⟨.inr ⟨different, member⟩, protect⟩

/-- The victims of the demotion loop are replaced, and nothing else is. -/
theorem mem_foldl_demoteOne {victims : List Entry} {contents : Finset Entry} {e : Entry}
    (protect : ∀ v ∈ victims, v.2.inProtectedSegment = true) :
    e ∈ victims.foldl demoteOne contents ↔
      (e ∈ contents ∧ e ∉ victims) ∨ ∃ v ∈ victims, e = demoted v := by
  induction victims generalizing contents with
  | nil => simp
  | cons v victims ih =>
    have fresh : demoted v ∉ victims := by
      intro member
      have := protect _ (List.mem_cons_of_mem v member)
      cases this
    rw [List.foldl_cons, ih fun w member => protect w (List.mem_cons_of_mem v member), demoteOne,
      Finset.mem_insert, Finset.mem_erase, List.mem_cons, not_or]
    constructor
    · rintro (⟨rfl | ⟨different, member⟩, out⟩ | ⟨w, member, rfl⟩)
      · exact .inr ⟨v, List.mem_cons_self, rfl⟩
      · exact .inl ⟨member, different, out⟩
      · exact .inr ⟨w, List.mem_cons_of_mem v member, rfl⟩
    · rintro (⟨member, different, out⟩ | ⟨w, member, rfl⟩)
      · exact .inl ⟨.inr ⟨different, member⟩, out⟩
      · rcases List.mem_cons.mp member with rfl | member
        · exact .inl ⟨.inl rfl, fresh⟩
        · exact .inr ⟨w, member, rfl⟩

theorem Excess.protect {limit : Nat} {contents : Finset Entry} {victims : List Entry}
    (excess : Excess limit contents victims) : ∀ v ∈ victims, v.2.inProtectedSegment = true :=
  fun v member => (mem_segment.mp ((excess.mem_iff v).mp member).1).2

theorem Excess.stored {limit : Nat} {contents : Finset Entry} {victims : List Entry}
    (excess : Excess limit contents victims) : ∀ v ∈ victims, v ∈ contents :=
  fun v member => (mem_segment.mp ((excess.mem_iff v).mp member).1).1

/-- After the demotion the greatest protected entries are the protected ones. -/
theorem Excess.segment_true {limit : Nat} {contents : Finset Entry} {victims : List Entry}
    (excess : Excess limit contents victims) :
    segment true (victims.foldl demoteOne contents) =
      greatest rank limit (segment true contents) := by
  ext e
  rw [mem_segment, mem_foldl_demoteOne excess.protect, excess.mem_iff]
  constructor
  · rintro ⟨⟨member, out⟩ | ⟨v, -, rfl⟩, protect⟩
    · by_contra small
      exact out ⟨mem_segment.mpr ⟨member, protect⟩, small⟩
    · cases protect
  · intro great
    obtain ⟨member, protect⟩ := mem_segment.mp (mem_greatest.mp great).1
    exact ⟨.inl ⟨member, fun out => out.2 great⟩, protect⟩

/-- Each entry that the demotion leaves was there before, demoted or not. -/
theorem Excess.origin {limit : Nat} {contents : Finset Entry} {victims : List Entry}
    (excess : Excess limit contents victims) {e : Entry}
    (member : e ∈ victims.foldl demoteOne contents) :
    ∃ e' ∈ contents, e = e' ∨ e = demoted e' := by
  rcases (mem_foldl_demoteOne excess.protect).mp member with ⟨kept, -⟩ | ⟨v, taken, rfl⟩
  · exact ⟨e, kept, .inl rfl⟩
  · exact ⟨v, excess.stored v taken, .inr rfl⟩

/-- The demotion maps the victims and keeps the keys. -/
theorem Excess.foldl_eq_image {limit : Nat} {contents : Finset Entry} {victims : List Entry}
    (excess : Excess limit contents victims) :
    victims.foldl demoteOne contents =
      contents.image fun e => if e ∈ victims then demoted e else e := by
  ext e
  rw [mem_foldl_demoteOne excess.protect, Finset.mem_image]
  constructor
  · rintro (⟨kept, out⟩ | ⟨v, taken, rfl⟩)
    · exact ⟨e, kept, if_neg out⟩
    · exact ⟨v, excess.stored v taken, if_pos taken⟩
  · rintro ⟨e', member, rfl⟩
    by_cases taken : e' ∈ victims
    · rw [if_pos taken]
      exact .inr ⟨e', taken, rfl⟩
    · rw [if_neg taken]
      exact .inl ⟨member, taken⟩

theorem demoted_if_fst (victims : List Entry) (e : Entry) :
    (if e ∈ victims then demoted e else e).1 = e.1 := by
  split <;> rfl

/-- The demotion keeps the number of entries. -/
theorem Excess.card {limit : Nat} {contents : Finset Entry} {victims : List Entry}
    (excess : Excess limit contents victims)
    (distinct : Set.InjOn Sigma.fst (contents : Set Entry)) :
    (victims.foldl demoteOne contents).card = contents.card := by
  rw [excess.foldl_eq_image]
  refine Finset.card_image_of_injOn fun e member e' member' same => ?_
  refine distinct member member' ?_
  rw [← demoted_if_fst victims e, ← demoted_if_fst victims e']
  exact congrArg Sigma.fst same

/-- No two entries have one key after the demotion if none have before. -/
theorem Excess.keys {limit : Nat} {contents : Finset Entry} {victims : List Entry}
    (excess : Excess limit contents victims)
    (distinct : Set.InjOn Sigma.fst (contents : Set Entry)) :
    Set.InjOn Sigma.fst (↑(victims.foldl demoteOne contents) : Set Entry) := by
  rw [excess.foldl_eq_image]
  intro e member e' member' same
  obtain ⟨x, stored, rfl⟩ := Finset.mem_image.mp member
  obtain ⟨x', stored', rfl⟩ := Finset.mem_image.mp member'
  rw [demoted_if_fst, demoted_if_fst] at same
  rw [distinct stored stored' same]

namespace EvictsTo

variable {limit : Nat} {contents after : Finset Entry}

theorem card_le (evicts : EvictsTo limit contents after) : after.card ≤ limit := by
  induction evicts with
  | done room => exact room
  | evict _ _ _ _ _ ih => exact ih

theorem subset (evicts : EvictsTo limit contents after) : after ⊆ contents := by
  induction evicts with
  | done => exact Finset.Subset.refl _
  | evict e _ _ _ _ ih => exact ih.trans (Finset.erase_subset _ _)

/-- The protected entries stay. -/
theorem protected_mem (evicts : EvictsTo limit contents after) {e : Entry}
    (member : e ∈ segment true contents) : e ∈ after := by
  induction evicts with
  | done => exact (mem_segment.mp member).1
  | evict v _ unprotected _ _ ih =>
    obtain ⟨stored, protect⟩ := mem_segment.mp member
    refine ih (mem_segment.mpr ⟨Finset.mem_erase.mpr ⟨?_, stored⟩, protect⟩)
    rintro rfl
    simp [(mem_segment.mp unprotected).2] at protect

/-- One entry too many is one eviction. -/
theorem one (evicts : EvictsTo limit contents after) (full : contents.card = limit + 1) :
    ∃ e ∈ segment false contents, (∀ e' ∈ segment false contents, rank e ≤ rank e') ∧
      after = contents.erase e := by
  cases evicts with
  | done room => omega
  | evict e _ member least rest =>
    refine ⟨e, member, least, ?_⟩
    have size := Finset.card_erase_add_one (mem_segment.mp member).1
    cases rest with
    | done => rfl
    | evict _ more => omega

end EvictsTo

namespace Enforced

variable {cfg : Config} {now : Int} {contents after : Finset Entry}

theorem card_le (enforced : Enforced cfg now contents after) : after.card ≤ cfg.maxEntries := by
  cases enforced with
  | fits room => exact room
  | swept _ room => exact room
  | evicted _ _ _ evicts => exact evicts.card_le

theorem eq_of_fits (enforced : Enforced cfg now contents after)
    (room : contents.card ≤ cfg.maxEntries) : after = contents := by
  cases enforced with
  | fits => rfl
  | swept full => omega
  | evicted _ full =>
    have := Finset.card_filter_le contents fun e => ¬e.2.isExpired now
    exact absurd (full.trans_le this) (by omega)

theorem eq_live (enforced : Enforced cfg now contents after)
    (full : cfg.maxEntries < contents.card) (room : (live now contents).card ≤ cfg.maxEntries) :
    after = live now contents := by
  cases enforced with
  | fits => omega
  | swept => rfl
  | evicted => omega

theorem evicts (enforced : Enforced cfg now contents after)
    (full : cfg.maxEntries < (live now contents).card) :
    ∃ victims, Excess cfg.protectedEntriesLimit (live now contents) victims ∧
      EvictsTo cfg.maxEntries (victims.foldl demoteOne (live now contents)) after := by
  cases enforced with
  | fits room =>
    have := Finset.card_filter_le contents fun e => ¬e.2.isExpired now
    exact absurd (full.trans_le this) (by omega)
  | swept => omega
  | evicted victims _ excess evicts => exact ⟨victims, excess, evicts⟩

/-- Each entry that is left of a store that is too full was there before and has not expired. -/
theorem origin_live (enforced : Enforced cfg now contents after)
    (full : cfg.maxEntries < contents.card) {e : Entry} (member : e ∈ after) :
    ∃ e' ∈ live now contents, e = e' ∨ e = demoted e' := by
  cases enforced with
  | fits room => omega
  | swept => exact ⟨e, member, .inl rfl⟩
  | evicted victims _ excess evicts => exact excess.origin (evicts.subset member)

theorem origin (enforced : Enforced cfg now contents after) {e : Entry} (member : e ∈ after) :
    ∃ e' ∈ contents, e = e' ∨ e = demoted e' := by
  by_cases full : cfg.maxEntries < contents.card
  · obtain ⟨e', member', same⟩ := enforced.origin_live full member
    exact ⟨e', (mem_live.mp member').1, same⟩
  · rw [enforced.eq_of_fits (by omega)] at member
    exact ⟨e, member, .inl rfl⟩

end Enforced

namespace ConcurrentStore

variable {cfg : Config} {store : ConcurrentStore cfg}

/-- The demotion loop takes the protected entries of least rank until the greatest are left. -/
theorem demoteLoop_contents (fuel : Nat) (rep : store.Rep)
    (keys : ∀ e ∈ segment true store.contents, e.1 ≠ [])
    (full : cfg.maxEntries < store.totalEntries) (enough : store.protectedEntries < fuel) :
    ∃ after victims, demoteLoop fuel store store.totalEntries store.protectedEntries =
        some (after, after.totalEntries) ∧ after.Rep ∧ after.totalEntries = store.totalEntries ∧
      Excess cfg.protectedEntriesLimit store.contents victims ∧
      after.contents = victims.foldl demoteOne store.contents ∧
      after.protectedEntries ≤ cfg.protectedEntriesLimit := by
  induction fuel generalizing store with
  | zero => omega
  | succ fuel ih =>
    rw [demoteLoop]
    by_cases many : cfg.protectedEntriesLimit < store.protectedEntries
    · rw [if_pos ⟨full, many⟩]
      rw [← rep.card_protected] at many
      have nonempty : segment true store.contents ≠ ∅ := by
        intro vacant
        rw [vacant] at many
        simp at many
      obtain ⟨e, member, selected, least⟩ := rep.selectVictimKey_least nonempty
      have distinct := rep.rank_injOn true
      have first := rep.contents_demoteSection member
      have rest : segment true (store.demoteSection e.1).contents =
          (segment true store.contents).erase e := by
        rw [first]
        exact segment_demoteOne
      have found := rep.mem_contents.mp (mem_segment.mp member).1
      have fewer := demoteSection_protectedEntries_lt rep found (mem_segment.mp member).2
      obtain ⟨after, victims, ends, rep', total, excess, contents, kept⟩ :=
        ih (rep.demoteSection e.1) (fun e' member' => keys e' (by
          rw [rest] at member'
          exact Finset.mem_of_mem_erase member')) (by simpa using full) (by omega)
      have same := greatest_erase_least distinct member least many
      refine ⟨after, e :: victims, ?_, rep', by simpa using total, ⟨?_, fun e' => ?_⟩, ?_, kept⟩
      · dsimp only
        rw [selected, if_neg (keys e member)]
        exact ends
      · refine List.pairwise_cons.mpr ⟨fun e' member' => ?_, excess.sorted⟩
        obtain ⟨inRest, -⟩ := (excess.mem_iff e').mp member'
        rw [rest, Finset.mem_erase] at inRest
        refine lt_of_le_of_ne (least e' inRest.2) fun equal => inRest.1 ?_
        exact distinct inRest.2 member equal.symm
      · rw [List.mem_cons, excess.mem_iff, rest, same, Finset.mem_erase]
        constructor
        · rintro (rfl | ⟨⟨-, inSegment⟩, out⟩)
          · exact ⟨member, notMem_greatest_of_least distinct member least many⟩
          · exact ⟨inSegment, out⟩
        · rintro ⟨inSegment, out⟩
          by_cases here : e' = e
          · exact .inl here
          · exact .inr ⟨⟨here, inSegment⟩, out⟩
      · rw [contents, first, List.foldl_cons]
        rfl
    · rw [if_neg fun both => many both.2]
      have few : (segment true store.contents).card ≤ cfg.protectedEntriesLimit := by
        rw [rep.card_protected]
        omega
      refine ⟨store, [], rfl, rep, rfl, ⟨.nil, fun e => ?_⟩, rfl, by omega⟩
      rw [greatest_eq_self few]
      simp

/-- An unprotected entry is found if there are more entries than protected ones. -/
theorem Rep.unprotected_ne_empty (rep : store.Rep)
    (more : store.protectedEntries < store.totalEntries) :
    segment false store.contents ≠ ∅ := by
  intro vacant
  have all : segment true store.contents = store.contents := by
    refine Finset.filter_true_of_mem fun e member => ?_
    by_contra unprotected
    have member' : e ∈ segment false store.contents :=
      mem_segment.mpr ⟨member, by simpa using unprotected⟩
    rw [vacant] at member'
    exact absurd member' (Finset.notMem_empty e)
  have sizes := congrArg Finset.card all
  rw [rep.card_protected, rep.card_contents] at sizes
  omega

/-- The eviction loop, while the protected entries alone are not too many. -/
theorem evictLoop_contents (fuel : Nat) (rep : store.Rep) (keys : ∀ e ∈ store.contents, e.1 ≠ [])
    (fits : store.protectedEntries ≤ cfg.maxEntries) {after : ConcurrentStore cfg}
    (ends : evictLoop fuel store store.totalEntries = some after) :
    EvictsTo cfg.maxEntries store.contents after.contents := by
  induction fuel generalizing store with
  | zero => cases ends
  | succ fuel ih =>
    rw [evictLoop] at ends
    dsimp only at ends
    split at ends
    · rename_i full
      obtain ⟨e, member, selected, least⟩ :=
        rep.selectVictimKey_least (rep.unprotected_ne_empty (by omega))
      obtain ⟨stored, unprotected⟩ := mem_segment.mp member
      have found := rep.mem_contents.mp stored
      have nonempty := keys e stored
      rw [selected, if_neg nonempty, if_neg nonempty] at ends
      have rest := rep.contents_evictSection stored
      have protects : (store.evictSection e.1).protectedEntries = store.protectedEntries := by
        simp [evictSection, found, eraseEntry, unprotected]
      refine .evict e (by rwa [rep.card_contents]) member least ?_
      rw [← rest]
      refine ih (rep.evictSection e.1) (fun e' member' => keys e' ?_) (by omega) ends
      rw [rest] at member'
      exact Finset.mem_of_mem_erase member'
    · rename_i room
      cases ends
      exact .done (by rw [rep.card_contents]; omega)

theorem protectedEntriesLimit_le (bounded : cfg.maxEntries ≠ 0) :
    cfg.protectedEntriesLimit ≤ cfg.maxEntries := by
  unfold Config.protectedEntriesLimit
  rw [if_pos (by omega)]
  omega

/-- With non-empty keys `EnforceCapacity` refines `Enforced`. -/
theorem enforceCapacity_contents (rep : store.Rep) (bounded : cfg.maxEntries ≠ 0)
    (keys : ∀ e ∈ store.contents, e.1 ≠ []) {now : Int} {after : ConcurrentStore cfg}
    (ends : store.enforceCapacity now = some after) :
    Enforced cfg now store.contents after.contents := by
  rw [enforceCapacity, if_neg bounded] at ends
  split at ends
  · rename_i room
    cases ends
    exact .fits (by rwa [rep.card_contents])
  · rename_i full
    have sweep := rep.contents_sweep now
    obtain ⟨rep', fewer⟩ := foldl_sweepStripe rep now (List.finRange cfg.stripeCount)
    dsimp only at ends
    generalize (List.finRange cfg.stripeCount).foldl (sweepStripe now) store = swept at *
    rw [← rep.total, ← rep'.total] at fewer
    split at ends
    · rename_i room
      cases ends
      rw [sweep]
      exact .swept (by rw [rep.card_contents]; omega) (by rwa [← sweep, rep'.card_contents])
    · rename_i still
      have keys' : ∀ e ∈ swept.contents, e.1 ≠ [] := by
        intro e member
        rw [sweep] at member
        exact keys e (mem_live.mp member).1
      have below := rep'.protected_le
      obtain ⟨middle, victims, demotes, repd, total, excess, contents, kept⟩ :=
        demoteLoop_contents (store.totalEntries + 2) rep'
          (fun e member => keys' e (mem_segment.mp member).1) (by omega) (by omega)
      rw [demotes, Option.bind_some] at ends
      refine .evicted victims (by rw [← sweep, rep'.card_contents]; omega) (sweep ▸ excess) ?_
      rw [← sweep, ← contents]
      have limit := protectedEntriesLimit_le bounded
      refine evictLoop_contents (store.totalEntries + 2) repd (fun e member => ?_) (by omega) ends
      rw [contents] at member
      obtain ⟨e', member', rfl | rfl⟩ := excess.origin member
      · exact keys' e member'
      · exact keys' e' member'

end ConcurrentStore

end DistributedCache.Core
