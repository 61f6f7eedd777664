import DistributedCache.Core.Retention

/-! What a `Set` achieves: when it brings the store back to its limit, whatever the keys are, and
when its own entry stays.  The loops of `EnforceCapacity` take an empty victim for no victim, which
is also the key of an entry if a caller stores one under the empty key. -/

namespace DistributedCache.Core

open Lib

namespace ConcurrentStore

variable {cfg : Config} {store after : ConcurrentStore cfg}

/-! ### Loops that may meet the empty key -/

/-- Whatever the keys, the demotion loop leaves a store that has at most the allowed number of
protected entries as it is, and leaves at least that number where there were more. -/
theorem demoteLoop_protected {fuel total : Nat} (rep : store.Rep)
    (ends : demoteLoop fuel store store.totalEntries store.protectedEntries = some (after, total)) :
    after.Rep ∧ total = after.totalEntries ∧ after.totalEntries = store.totalEntries ∧
      (store.protectedEntries ≤ cfg.protectedEntriesLimit → after = store) ∧
      (cfg.protectedEntriesLimit ≤ store.protectedEntries →
        cfg.protectedEntriesLimit ≤ after.protectedEntries) ∧
      segment false store.contents ⊆ segment false after.contents := by
  induction fuel generalizing store with
  | zero => cases ends
  | succ fuel ih =>
    rw [demoteLoop] at ends
    dsimp only at ends
    split at ends
    · rename_i full
      split at ends
      · cases ends
        exact ⟨rep, rfl, rfl, fun _ => rfl, id, Finset.Subset.refl _⟩
      · rename_i nonempty
        obtain ⟨entry, found, protect⟩ := selectVictimKey_find rep nonempty
        have member : (⟨store.selectVictimKey true, entry⟩ : Entry) ∈ segment true store.contents :=
          mem_segment.mpr ⟨rep.mem_contents.mpr found, protect⟩
        have first := rep.contents_demoteSection member
        obtain ⟨rep', rfl, same, -, kept, unprotected⟩ := ih (rep.demoteSection _) ends
        have positive : 0 < store.protectedEntries := by omega
        have fewer : (store.demoteSection (store.selectVictimKey true)).protectedEntries =
            store.protectedEntries - 1 := by
          simp [demoteSection, found, protect, fetchSub, positive.ne']
        refine ⟨rep', rfl, by simpa using same, fun few => ?_, fun _ => kept (by omega), ?_⟩
        · omega
        · refine Finset.Subset.trans (fun e inSegment => ?_) unprotected
          obtain ⟨stored, out⟩ := mem_segment.mp inSegment
          rw [mem_segment, first, Finset.mem_insert, Finset.mem_erase]
          refine ⟨.inr ⟨?_, stored⟩, out⟩
          rintro rfl
          simp [protect] at out
    · cases ends
      exact ⟨rep, rfl, rfl, fun _ => rfl, id, Finset.Subset.refl _⟩

/-- With one entry too many, the eviction loop succeeds unless both scans come back empty. -/
theorem evictLoop_one {fuel : Nat} (rep : store.Rep)
    (one : store.totalEntries = cfg.maxEntries + 1)
    (ends : evictLoop fuel store store.totalEntries = some after) :
    after.totalEntries ≤ cfg.maxEntries ↔
      ¬(store.selectVictimKey false = [] ∧ store.selectVictimKey true = []) := by
  cases fuel with
  | zero => cases ends
  | succ fuel =>
    rw [evictLoop, if_pos (by omega)] at ends
    dsimp only at ends
    generalize chosen : (if store.selectVictimKey false = [] then store.selectVictimKey true
      else store.selectVictimKey false) = victim at ends
    have empty : victim = [] ↔
        store.selectVictimKey false = [] ∧ store.selectVictimKey true = [] := by
      subst chosen
      by_cases nothing : store.selectVictimKey false = [] <;> simp [nothing]
    by_cases nothing : victim = []
    · rw [if_pos nothing] at ends
      cases ends
      rw [← empty]
      simp only [nothing, not_true, iff_false]
      omega
    · rw [if_neg nothing] at ends
      obtain ⟨entry, found⟩ := find_of_victim rep chosen nothing
      have fewer := evictSection_totalEntries_lt rep found
      rw [← empty]
      simp only [nothing, not_false_iff, iff_true]
      cases fuel with
      | zero => cases ends
      | succ fuel =>
        rw [evictLoop, if_neg (by omega)] at ends
        cases ends
        omega

/-- Both scans come back empty if nothing is protected and the entry of the empty key is the first
in the order of the victims. -/
theorem Rep.victims_empty_iff (rep : store.Rep) (nonempty : segment false store.contents ≠ ∅) :
    (store.selectVictimKey false = [] ∧ store.selectVictimKey true = []) ↔
      segment true store.contents = ∅ ∧ ∃ e ∈ segment false store.contents, e.1 = [] ∧
        ∀ e' ∈ segment false store.contents, rank e ≤ rank e' := by
  obtain ⟨e, member, selected, least⟩ := rep.selectVictimKey_least nonempty
  rw [selected]
  constructor
  · rintro ⟨empty, vacant⟩
    refine ⟨?_, e, member, empty, least⟩
    by_contra protect
    obtain ⟨e', member', selected', -⟩ := rep.selectVictimKey_least protect
    obtain ⟨stored, unprotected⟩ := mem_segment.mp member
    obtain ⟨stored', protect'⟩ := mem_segment.mp member'
    obtain rfl := rep.key_unique stored stored' (empty.trans (vacant.symm.trans selected'))
    simp [unprotected] at protect'
  · rintro ⟨vacant, e', member', empty, least'⟩
    have same := le_antisymm (least e' member') (least' e member)
    exact ⟨(rank_injective_on_keys same).trans empty, rep.selectVictimKey_none vacant⟩

/-- The `Set` inserts a key into a full store in which nothing is protected or has expired, and no
entry was touched before the one of the empty key. -/
structure Stuck (store : ConcurrentStore cfg) (key value : Bytes) (ttl : Option Int)
    (clock : Nat → Int) : Prop where
  absent : store.find key = none
  full : store.contents.card = cfg.maxEntries
  alive : ∀ e ∈ insert (inserted key value ttl clock) store.contents,
    e.2.isExpired (sweptAt clock ttl) = false
  unprotected : ∀ e ∈ store.contents, e.2.inProtectedSegment = false
  empty : ∃ e ∈ insert (inserted key value ttl clock) store.contents, e.1 = [] ∧
    ∀ e' ∈ insert (inserted key value ttl clock) store.contents,
      e.2.lastTouchNs ≤ e'.2.lastTouchNs

/-- Where all frequencies are 1, the empty key comes first among the entries of one touch. -/
theorem rank_le_iff_of_empty {e e' : Entry} (one : e.2.lfuCount = 1) (one' : e'.2.lfuCount = 1)
    (empty : e.1 = []) : rank e ≤ rank e' ↔ e.2.lastTouchNs ≤ e'.2.lastTouchNs := by
  rw [rank, rank, one, one', empty, Prod.Lex.toLex_le_toLex, Prod.Lex.toLex_le_toLex]
  have first : ∀ bytes : List ℕ, [] ≤ bytes := by
    intro bytes
    refine not_lt.mp fun less => ?_
    cases less
  simp only [lt_irrefl, false_or, true_and, List.map_nil, first, and_true]
  exact (Nat.le_iff_lt_or_eq).symm

/-- With nothing protected, the order of the touches decides if the scans come back empty. -/
theorem Rep.stuck_iff (rep : store.Rep) (unprotected : segment true store.contents = ∅) :
    (∃ e ∈ segment false store.contents, e.1 = [] ∧
        ∀ e' ∈ segment false store.contents, rank e ≤ rank e') ↔
      ∃ e ∈ store.contents, e.1 = [] ∧ ∀ e' ∈ store.contents,
        e.2.lastTouchNs ≤ e'.2.lastTouchNs := by
  have all : segment false store.contents = store.contents := by
    refine Finset.filter_true_of_mem fun e member => ?_
    by_contra protect
    have inside : e ∈ segment true store.contents :=
      mem_segment.mpr ⟨member, by simpa using protect⟩
    rw [unprotected] at inside
    exact absurd inside (Finset.notMem_empty e)
  have ones : ∀ e ∈ store.contents, e.2.lfuCount = 1 :=
    fun e member => rep.lfuCount_eq_one (all.symm ▸ member)
  rw [all]
  refine exists_congr fun e => and_congr_right fun member => and_congr_right fun empty => ?_
  refine forall_congr' fun e' => forall_congr' fun member' => ?_
  exact rank_le_iff_of_empty (ones e member) (ones e' member') empty

/-- The loops of `EnforceCapacity` with one entry too many, one of them unprotected. -/
theorem loops_iff {fuel : Nat} (bounded : 1 ≤ cfg.maxEntries) (rep : store.Rep)
    (one : store.totalEntries = cfg.maxEntries + 1) (present : segment false store.contents ≠ ∅)
    (ends : ((demoteLoop fuel store store.totalEntries store.protectedEntries).bind
      fun demoted => evictLoop fuel demoted.1 demoted.2) = some after) :
    after.totalEntries ≤ cfg.maxEntries ↔ ¬(segment true store.contents = ∅ ∧
      ∃ e ∈ store.contents, e.1 = [] ∧ ∀ e' ∈ store.contents,
        e.2.lastTouchNs ≤ e'.2.lastTouchNs) := by
  obtain ⟨⟨demoted, total⟩, demotes, evicts⟩ := Option.bind_eq_some_iff.mp ends
  obtain ⟨rep', rfl, same, few, many, unprotected⟩ := demoteLoop_protected rep demotes
  have present' : segment false demoted.contents ≠ ∅ := by
    intro emptied
    exact present (Finset.subset_empty.mp (emptied ▸ unprotected))
  have limit : 1 ≤ cfg.protectedEntriesLimit := by
    rw [protectedEntriesLimit_eq bounded]
    exact le_max_left _ _
  have card := rep.card_protected
  have card' := rep'.card_protected
  rw [evictLoop_one rep' (by omega) evicts, rep'.victims_empty_iff present']
  refine not_congr ?_
  by_cases bare : segment true store.contents = ∅
  · have unchanged : demoted = store := few (by rw [← card, bare]; simp)
    rw [unchanged, and_iff_right bare, and_iff_right bare, rep.stuck_iff bare]
  · have kept : segment true demoted.contents ≠ ∅ := by
      intro gone
      by_cases more : cfg.protectedEntriesLimit ≤ store.protectedEntries
      · have := many more
        rw [gone, Finset.card_empty] at card'
        omega
      · exact bare (few (by omega) ▸ gone)
    simp [bare, kept]

/-- What `Stuck` asks of a full store that keeps all its entries at the sweep. -/
theorem stuck_of_full {key value : Bytes} {ttl : Option Int} {clock : Nat → Int}
    (absent : store.find key = none) (full : store.contents.card = cfg.maxEntries)
    (alive : ∀ e ∈ insert (inserted key value ttl clock) store.contents,
      e.2.isExpired (sweptAt clock ttl) = false) :
    (segment true (insert (inserted key value ttl clock) store.contents) = ∅ ∧
      ∃ e ∈ insert (inserted key value ttl clock) store.contents, e.1 = [] ∧
        ∀ e' ∈ insert (inserted key value ttl clock) store.contents,
          e.2.lastTouchNs ≤ e'.2.lastTouchNs) ↔ store.Stuck key value ttl clock := by
  constructor
  · rintro ⟨bare, empty⟩
    refine ⟨absent, full, alive, fun e member => ?_, empty⟩
    have outside := Finset.filter_eq_empty_iff.mp bare (Finset.mem_insert_of_mem member)
    simpa using outside
  · intro stuck
    refine ⟨Finset.filter_eq_empty_iff.mpr fun e member => ?_, stuck.empty⟩
    rcases Finset.mem_insert.mp member with rfl | old
    · simp [inserted]
    · simp [stuck.unprotected e old]

end ConcurrentStore

namespace Run

variable {cfg : Config} {store after : ConcurrentStore cfg} {made : List Int}
  {results : List (Option Bytes)} {key value : Bytes} {ttl : Option Int} {clock : Nat → Int}

/-- A `Set` on a store that is not too full leaves it so, unless it is stuck. -/
theorem room_iff (bounded : 1 ≤ cfg.maxEntries) (rep : store.Rep)
    (room : store.contents.card ≤ cfg.maxEntries)
    (run : Run store [(.set key value ttl, clock)] after made results) :
    after.contents.card ≤ cfg.maxEntries ↔ ¬store.Stuck key value ttl clock := by
  obtain ⟨-, -, next, ends, agree⟩ := run.set rep
  have rep' : (store.written key value ttl clock).Rep := rep.written
  have size := rep'.card_contents
  rw [agree.contents, agree.rep'.card_contents]
  rw [ConcurrentStore.enforceCapacity, if_neg (by omega)] at ends
  cases found : store.find key with
  | some entry =>
    have old : (store.written key value ttl clock).contents.card = store.contents.card :=
      rep.card_written_old found
    rw [if_pos (by omega)] at ends
    cases ends
    refine iff_of_true (by omega) fun stuck => ?_
    rw [stuck.absent] at found
    cases found
  | none =>
    have new : (store.written key value ttl clock).contents.card = store.contents.card + 1 :=
      rep.card_written_new found
    split at ends
    · cases ends
      exact iff_of_true (by omega) fun stuck => by have := stuck.full; omega
    · rename_i full
      have contents : (store.written key value ttl clock).contents =
          insert (inserted key value ttl clock) store.contents := rep.written_new found
      have sweep := rep'.contents_sweep (sweptAt clock ttl)
      have repSwept := (ConcurrentStore.foldl_sweepStripe rep' (sweptAt clock ttl)
        (List.finRange cfg.stripeCount)).1
      dsimp only at ends
      generalize (List.finRange cfg.stripeCount).foldl (ConcurrentStore.sweepStripe
        (sweptAt clock ttl)) (store.written key value ttl clock) = swept at *
      have sizeSwept := repSwept.card_contents
      rw [contents] at sweep
      split at ends
      · cases ends
        refine iff_of_true (by omega) fun stuck => ?_
        have kept : live (sweptAt clock ttl)
            (insert (inserted key value ttl clock) store.contents) =
            insert (inserted key value ttl clock) store.contents :=
          Finset.filter_true_of_mem fun e member => by simp [stuck.alive e member]
        rw [sweep, kept, ← contents] at sizeSwept
        omega
      · have kept : swept.contents = insert (inserted key value ttl clock) store.contents := by
          refine Finset.eq_of_subset_of_card_le ?_ ?_
          · rw [sweep]
            exact Finset.filter_subset _ _
          · rw [← contents]
            omega
        have mine : inserted key value ttl clock ∈ segment false swept.contents :=
          mem_segment.mpr ⟨by simp [kept], rfl⟩
        have one : swept.totalEntries = cfg.maxEntries + 1 := by
          rw [kept, ← contents] at sizeSwept
          omega
        rw [ConcurrentStore.loops_iff bounded repSwept one (Finset.ne_empty_of_mem mine) ends, kept]
        refine not_congr (ConcurrentStore.stuck_of_full found (by omega) fun e member => ?_)
        rw [← kept, sweep] at member
        simpa using (mem_live.mp member).2

/-- No `Set` of the calls finds the store stuck. -/
def NeverStuck (cfg : Config) (calls : List TimedCall) : Prop :=
  ∀ front key value ttl clock back (middle : ConcurrentStore cfg) past earlier,
    calls = front ++ (.set key value ttl, clock) :: back →
    Run (ConcurrentStore.new cfg) front middle past earlier → ¬middle.Stuck key value ttl clock

theorem room_of_neverStuck (bounded : 1 ≤ cfg.maxEntries) {calls front back : List TimedCall}
    (never : NeverStuck cfg calls) (part : calls = front ++ back)
    (run : Run (ConcurrentStore.new cfg) front store made results) :
    store.contents.card ≤ cfg.maxEntries := by
  induction front using List.reverseRecOn generalizing store made results back with
  | nil =>
    cases run
    rw [ConcurrentStore.new_contents]
    simp
  | append_singleton front call ih =>
    obtain ⟨middle, past, late, earlier, last, before, behind, -, -⟩ := run.split
    have rep := before.rep (ConcurrentStore.new_rep cfg)
    have here : calls = front ++ call :: back := by
      rw [part, List.append_assoc, List.singleton_append]
    have room := ih here before
    obtain ⟨request, clock⟩ := call
    cases request with
    | get key =>
      rw [(behind.get rep).1.contents]
      exact (rep.card_getSection_le key _).trans room
    | set key value ttl =>
      exact (behind.room_iff bounded rep room).mpr
        (never front key value ttl clock back middle past earlier here before)

/-- Over arbitrary keys, a store is at its limit or below after every `Set` of a run if and only if
no `Set` of the run finds it stuck. -/
theorem capacity_iff (bounded : 1 ≤ cfg.maxEntries) (calls : List TimedCall) :
    (∀ front key value ttl clock back (middle after : ConcurrentStore cfg) past made earlier
      results, calls = front ++ (.set key value ttl, clock) :: back →
      Run (ConcurrentStore.new cfg) front middle past earlier →
      Run middle [(.set key value ttl, clock)] after made results →
      after.contents.card ≤ cfg.maxEntries) ↔ NeverStuck cfg calls := by
  constructor
  · intro holds front key value ttl clock back middle past earlier split before stuck
    have rep := before.rep (ConcurrentStore.new_rep cfg)
    obtain ⟨after, made, results, run⟩ := total rep [(.set key value ttl, clock)]
    have room := holds front key value ttl clock back middle after past made earlier results split
      before run
    exact (run.room_iff bounded rep stuck.full.le).mp room stuck
  · intro never front key value ttl clock back middle after past made earlier results split before
      run
    have rep := before.rep (ConcurrentStore.new_rep cfg)
    refine (run.room_iff bounded rep (room_of_neverStuck bounded never split before)).mpr ?_
    exact never front key value ttl clock back middle past earlier split before

/-- Without the empty key no `Set` finds the store stuck. -/
theorem neverStuck_of_keys (bounded : 1 ≤ cfg.maxEntries) {calls : List TimedCall}
    (keys : ∀ call ∈ calls, call.1.key ≠ []) : NeverStuck cfg calls := by
  intro front key value ttl clock back middle past earlier split before stuck
  have settled := settled (by omega)
    (fun call member => keys call (split ▸ List.mem_append_left _ member)) before
  obtain ⟨e, member, empty, -⟩ := stuck.empty
  rcases Finset.mem_insert.mp member with rfl | stored
  · exact keys (.set key value ttl, clock) (by simp [split]) empty
  · exact settled.keys e stored empty

/-- The second `Set` finds the store full, and the first key makes room for its own. -/
theorem capacity_iff_evicts :
    ∃ (middle after : ConcurrentStore singleConfig) (past made : List Int),
    Run (ConcurrentStore.new singleConfig) [(.set (ascii "a") (ascii "x") none, fun n => n)] middle
        past [] ∧
      middle.contents.card = singleConfig.maxEntries ∧ middle.find (ascii "b") = none ∧
      Run middle [(.set (ascii "b") (ascii "y") none, fun n => n + 2)] after made [] ∧
      after.find (ascii "a") = none ∧ after.contents.card ≤ singleConfig.maxEntries := by
  have ends : ((ConcurrentStore.new singleConfig).runAll
      [(.set (ascii "a") (ascii "x") none, fun n => n)]).bind (fun r =>
        (r.1.runAll [(.set (ascii "b") (ascii "y") none, fun n => n + 2)]).map fun r' =>
          (r.1.contents.card, r.1.find (ascii "b"), r'.1.find (ascii "a"))) =
      some (1, none, none) := by decide
  obtain ⟨⟨middle, past, earlier⟩, first, rest⟩ := Option.bind_eq_some_iff.mp ends
  obtain ⟨⟨after, made, results⟩, second, same⟩ := Option.map_eq_some_iff.mp rest
  obtain ⟨full, absent, evicted⟩ : middle.contents.card = 1 ∧
      middle.find (ascii "b") = none ∧ after.find (ascii "a") = none := by simpa using same
  have before := of_runAll first
  have run := of_runAll second
  obtain rfl := (before.set (ConcurrentStore.new_rep _)).1
  obtain rfl := (run.set (before.rep (ConcurrentStore.new_rep _))).1
  refine ⟨middle, after, past, made, before, full, absent, run, evicted, ?_⟩
  refine (capacity_iff (by decide) [(.set (ascii "a") (ascii "x") none, fun n => n),
    (.set (ascii "b") (ascii "y") none, fun n => n + 2)]).mpr (neverStuck_of_keys (by decide) ?_)
    _ (ascii "b") (ascii "y") none _ [] middle after past made [] [] rfl before run
  intro call member
  rcases List.mem_cons.mp member with rfl | member
  · decide
  · rcases List.mem_singleton.mp member with rfl
    decide

/-- The entry of the empty key is not evicted, and two entries are left in a store for one. -/
theorem emptyKey_exceeds : ∃ (middle after : ConcurrentStore singleConfig) (past made : List Int),
    Run (ConcurrentStore.new singleConfig) [(.set [] (ascii "x") none, fun n => n)] middle past [] ∧
      Run middle [(.set (ascii "a") (ascii "y") none, fun n => n + 2)] after made [] ∧
      ¬after.contents.card ≤ singleConfig.maxEntries := by
  have first : ((ConcurrentStore.new singleConfig).runAll
      [(.set [] (ascii "x") none, fun n => n)]).map
        (fun r => (r.1.contents, r.1.find (ascii "a"), r.2.2)) =
      some ({⟨[], ⟨ascii "x", none, 1, 0, false⟩⟩}, none, []) := by decide
  obtain ⟨⟨middle, past, earlier⟩, ends, same⟩ := Option.map_eq_some_iff.mp first
  obtain ⟨contents, absent, rfl⟩ : middle.contents = _ ∧ middle.find (ascii "a") = none ∧
      earlier = [] := by simpa using same
  have reached := of_runAll ends
  have rep := reached.rep (ConcurrentStore.new_rep _)
  obtain ⟨after, made, results, run⟩ :=
    total rep [(.set (ascii "a") (ascii "y") none, fun n : Nat => (n : Int) + 2)]
  obtain rfl := (run.set rep).1
  refine ⟨middle, after, past, made, reached, run, fun room => ?_⟩
  refine (run.room_iff (by decide) rep (by rw [contents]; decide)).mp room ?_
  refine ⟨absent, by rw [contents]; decide, by rw [contents]; decide, by rw [contents]; decide, ?_⟩
  rw [contents]
  decide

/-! ### A key that was just written -/

/-- The touches of the stored entries are readings that the calls have made. -/
def Touched (past : List Int) (contents : Finset Entry) : Prop :=
  ∀ e ∈ contents, ∃ now ∈ past, e.2.lastTouchNs = toNs now

theorem Touched.mono {past past' : List Int} {contents : Finset Entry}
    (touched : Touched past contents) (more : past ⊆ past') : Touched past' contents :=
  fun e member => (touched e member).imp fun _ now => ⟨more now.1, now.2⟩

theorem touched_written {past : List Int} (rep : store.Rep) (touched : Touched past store.contents)
    (now : writtenAt clock ttl ∈ past) :
    Touched past (store.written key value ttl clock).contents := by
  intro e member
  by_cases here : e.1 = key
  · have found := rep.written.mem_contents.mp member
    rw [here] at found
    exact ⟨_, now, (ConcurrentStore.find_written found).2.2⟩
  · exact touched e ((rep.mem_written here).mp member)

theorem touched_getSection {past : List Int} {now : Int} (rep : store.Rep)
    (touched : Touched past store.contents) (read : store.find key = none ∨ now ∈ past) :
    Touched past (store.getSection key now).1.contents := by
  unfold ConcurrentStore.getSection
  split
  · exact touched
  · rename_i entry found
    have reads : now ∈ past := read.resolve_left (by simp [found])
    split
    · rw [rep.contents_eraseEntry found]
      exact fun e member => touched e (Finset.mem_of_mem_erase member)
    · rw [rep.contents_touch found]
      intro e member
      rcases Finset.mem_insert.mp member with rfl | old
      · exact ⟨now, reads, touchEntry_lastTouchNs _ _ _⟩
      · exact touched e (Finset.mem_of_mem_erase old)

/-- The touches that a run over non-empty keys leaves. -/
theorem touched (bounded : cfg.maxEntries ≠ 0) {calls : List TimedCall} {past : List Int}
    (keys : ∀ call ∈ calls, call.1.key ≠ []) (run : Run store calls after made results)
    (rep : store.Rep) (settled : store.Settled) (start : Touched past store.contents) :
    Touched (past ++ made) after.contents := by
  induction run generalizing past with
  | nil => simpa using start
  | @cons store middle after m request clock calls made results rest serves _ ih =>
    have first : Run store [(request, clock)] middle ((List.range m).map clock ++ []) _ :=
      .cons serves (.nil middle)
    have nonempty := keys _ List.mem_cons_self
    have settled' := settled_call bounded rep settled nonempty first
    have more : past ⊆ past ++ (List.range m).map clock := List.subset_append_left ..
    rw [← List.append_assoc]
    refine ih (fun call member => keys call (List.mem_cons_of_mem _ member)) (first.rep rep)
      settled' ?_
    rw [List.append_nil] at first
    cases request with
    | get key =>
      obtain ⟨agree, -, read⟩ := first.get rep
      rw [agree.contents]
      exact touched_getSection rep (start.mono more) (read.imp_right (List.mem_append_right _))
    | set key value ttl =>
      obtain ⟨-, now, -⟩ := first.set rep
      have written : Touched _ (store.written key value ttl clock).contents :=
        touched_written rep (start.mono more) (List.mem_append_right past now)
      intro e member
      have enforced := first.enforced rep bounded (settled.keys_written rep nonempty)
      obtain ⟨e', member', rfl | rfl⟩ := enforced.origin member
      · exact written e member'
      · exact written e' member'

end Run

theorem card_segments (contents : Finset Entry) :
    (segment true contents).card + (segment false contents).card = contents.card := by
  have split := Finset.card_filter_add_card_filter_not (s := contents)
    fun e => e.2.inProtectedSegment = true
  simpa [segment] using split

/-- The entry that was touched last is the victim only if all other entries are protected, which
needs a store for one entry. -/
theorem Replaces.mem_iff {maxEntries : Nat} {contents after : Finset Entry} {victims : List Entry}
    {victim e : Entry} (replaces : Replaces maxEntries contents victims victim after)
    (bounded : 1 ≤ maxEntries) (one : contents.card = maxEntries + 1)
    (keys : Set.InjOn Sigma.fst (contents : Set Entry))
    (ranks : Set.InjOn rank (segment true contents : Set Entry))
    (unprotected : e ∈ segment false contents)
    (last : ∀ e' ∈ contents, e' ≠ e → e'.2.lastTouchNs < e.2.lastTouchNs) :
    e ∈ after ↔ ¬(maxEntries = 1 ∧ segment true contents ≠ ∅) := by
  have excess := replaces.excess
  have card := card_segments (victims.foldl demoteOne contents)
  rw [excess.card keys, excess.segment_true, card_greatest ranks, one] at card
  have kept : e ∈ segment false (victims.foldl demoteOne contents) := by
    obtain ⟨stored, out⟩ := mem_segment.mp unprotected
    refine mem_segment.mpr ⟨(mem_foldl_demoteOne excess.protect).mpr (.inl ⟨stored, ?_⟩), out⟩
    intro taken
    simp [excess.protect e taken] at out
  have member : e ∈ after ↔ victim ≠ e := by
    rw [replaces.after, Finset.mem_erase, and_iff_left (mem_segment.mp kept).1, ne_comm]
  have earlier : ∀ e' ∈ victims.foldl demoteOne contents, e' ≠ e →
      e'.2.lastTouchNs < e.2.lastTouchNs := by
    intro e' stored different
    rcases (mem_foldl_demoteOne excess.protect).mp stored with ⟨old, -⟩ | ⟨v, taken, rfl⟩
    · exact last e' old different
    · refine last v (excess.stored v taken) ?_
      rintro rfl
      have protect := excess.protect v taken
      simp [(mem_segment.mp unprotected).2] at protect
  rw [member]
  refine not_congr ⟨?_, ?_⟩
  · rintro rfl
    by_contra others
    have two : 1 < (segment false (victims.foldl demoteOne contents)).card := by
      by_cases single : maxEntries = 1
      · have emptied : segment true contents = ∅ := by
          by_contra present
          exact others ⟨single, present⟩
        rw [emptied, Finset.card_empty] at card
        omega
      · omega
    obtain ⟨e', inside, different⟩ := Finset.exists_mem_ne two victim
    have first := replaces.oldest e' inside
    rw [touchOrder, touchOrder, Prod.Lex.toLex_le_toLex] at first
    have := earlier e' (mem_segment.mp inside).1 different
    omega
  · rintro ⟨rfl, present⟩
    have present := Finset.card_pos.mpr (Finset.nonempty_iff_ne_empty.mpr present)
    have single : (segment false (victims.foldl demoteOne contents)).card ≤ 1 := by omega
    exact Finset.card_le_one.mp single _ replaces.unprotected _ kept

/-- From the epoch of the clock on, a later time point has a greater count. -/
theorem toNs_lt {a b : Int} (start : 0 ≤ a) (less : a < b) (range : b < 2 ^ 63) :
    toNs a < toNs b := by
  unfold toNs
  rw [Int.emod_eq_of_lt start (by omega), Int.emod_eq_of_lt (by omega) (by omega)]
  omega

namespace Run

variable {cfg : Config} {store after : ConcurrentStore cfg} {made : List Int}
  {results : List (Option Bytes)} {key value : Bytes} {clock : Nat → Int}

/-- A `Get` right after a `Set` without a TTL finds the value if and only if the entry is still
stored. -/
theorem get_written {later : Nat → Int} {past : List Int} {earlier : List (Option Bytes)}
    {middle : ConcurrentStore cfg} (rep : store.Rep)
    (enforced : Enforced cfg (sweptAt clock none) (store.written key value none clock).contents
      middle.contents) (rep' : middle.Rep)
    (run : Run middle [(.get key, later)] after past earlier) :
    earlier = [some value] ↔ ∃ e ∈ middle.contents, e.1 = key := by
  obtain ⟨-, rfl, -⟩ := run.get rep'
  rw [ConcurrentStore.getSection]
  cases found : middle.find key with
  | none =>
    refine iff_of_false (by simp) ?_
    rintro ⟨e, member, rfl⟩
    rw [rep'.mem_contents.mp member] at found
    cases found
  | some entry =>
    have member : (⟨key, entry⟩ : Entry) ∈ middle.contents := rep'.mem_contents.mpr found
    obtain ⟨e', member', same⟩ := enforced.origin member
    have written : e'.1 = key ∧ entry.value = e'.2.value ∧
        entry.expiresAt = e'.2.expiresAt := by
      rcases same with rfl | same
      · exact ⟨rfl, rfl, rfl⟩
      · cases same
        exact ⟨rfl, rfl, rfl⟩
    obtain ⟨here, values, expiries⟩ := written
    have stored := rep.written.mem_contents.mp member'
    rw [here] at stored
    obtain ⟨value_eq, expiry, -⟩ := ConcurrentStore.find_written stored
    refine iff_of_true ?_ ⟨_, member, rfl⟩
    have alive : entry.isExpired (later 1) = false := by
      simp [ValueEntry.isExpired, expiries, expiry]
    simp [alive, values, value_eq]

/-- The key of a `Set` is stored when its section ends. -/
theorem exists_written {ttl : Option Int} (rep : store.Rep) :
    ∃ e ∈ (store.written key value ttl clock).contents, e.1 = key := by
  obtain ⟨entry, found, -⟩ := ConcurrentStore.find_setSection_self store key value
    (ttl.map (addMilliseconds (clock 0))) (writtenAt clock ttl)
  exact ⟨⟨key, entry⟩, rep.written.mem_contents.mpr found, rfl⟩

/-- Every entry of the store was touched before the one that a `Set` inserts, if the clock is
strictly increasing and past its epoch. -/
theorem touched_before {history : List TimedCall} {past : List Int}
    {earlier : List (Option Bytes)} (bounded : cfg.maxEntries ≠ 0)
    (reached : Run (ConcurrentStore.new cfg) history store past earlier)
    (keys : ∀ call ∈ history, call.1.key ≠ []) {now : Int}
    (increasing : ∀ before ∈ past, before < now) (range : ∀ before ∈ past, 0 ≤ before)
    (last : now < 2 ^ 63) :
    ∀ e ∈ store.contents, e.2.lastTouchNs < toNs now := by
  have start : Touched [] (ConcurrentStore.new cfg).contents := by
    rw [ConcurrentStore.new_contents]
    simp [Touched]
  have touched := touched bounded keys reached (ConcurrentStore.new_rep cfg)
    (ConcurrentStore.new_settled cfg) start
  intro e member
  obtain ⟨before, read, same⟩ := touched e member
  rw [same]
  exact toNs_lt (range before read) (increasing before read) last

/-- A new key that a `Set` without a TTL writes into a full store stays if and only if the store
has more than one place or holds nothing protected that lives on. -/
theorem kept_iff {history : List TimedCall} {past : List Int} {earlier : List (Option Bytes)}
    (bounded : 1 ≤ cfg.maxEntries)
    (reached : Run (ConcurrentStore.new cfg) history store past earlier)
    (keys : ∀ call ∈ history, call.1.key ≠ []) (nonempty : key ≠ [])
    (absent : store.find key = none) (full : cfg.maxEntries ≤ store.contents.card)
    (run : Run store [(.set key value none, clock)] after made results)
    (last : ∀ e ∈ store.contents, e.2.lastTouchNs < toNs (clock 0)) :
    inserted key value none clock ∈ after.contents ↔ ¬(cfg.maxEntries = 1 ∧
      ∃ e ∈ store.contents, e.2.inProtectedSegment = true ∧ ¬e.2.isExpired (clock 1)) := by
  have rep := reached.rep (ConcurrentStore.new_rep cfg)
  generalize left_eq : live (sweptAt clock none)
    (insert (inserted key value none clock) store.contents) = left
  have member : ∀ e, e ∈ left ↔ e = inserted key value none clock ∨
      e ∈ store.contents ∧ ¬e.2.isExpired (clock 1) := by
    intro e
    rw [← left_eq, mem_live, Finset.mem_insert, or_and_right]
    refine or_congr_left (and_iff_left_of_imp ?_)
    rintro rfl
    simp [inserted, ValueEntry.isExpired]
  have mine : inserted key value none clock ∈ left := (member _).mpr (.inl rfl)
  obtain ⟨-, fits, replaced⟩ := (set_replaces bounded reached keys nonempty run).2 absent full
    _ left rfl left_eq.symm
  by_cases few : left.card ≤ cfg.maxEntries
  · rw [fits few]
    refine iff_of_true mine ?_
    rintro ⟨single, e, stored, -, alive⟩
    have same := Finset.card_le_one.mp (by omega) e ((member e).mpr (.inr ⟨stored, alive⟩)) _ mine
    exact rep.inserted_notMem absent (same ▸ stored)
  · obtain ⟨one, victims, victim, replaces⟩ := replaced (by omega)
    have inside : ∀ e ∈ left, e ∈ (store.written key value none clock).contents := by
      intro e alive
      rw [rep.written_new absent, Finset.mem_insert]
      exact ((member e).mp alive).imp_right And.left
    have unique : Set.InjOn Sigma.fst (left : Set Entry) :=
      fun e alive e' alive' same => rep.written.key_unique (inside e alive) (inside e' alive') same
    have ranks : Set.InjOn rank (segment true left : Set Entry) := by
      have more : segment true left ⊆ segment true (store.written key value none clock).contents :=
        Finset.filter_subset_filter _ inside
      exact (rep.written.rank_injOn true).mono (Finset.coe_subset.mpr more)
    rw [replaces.mem_iff bounded one unique ranks (mem_segment.mpr ⟨mine, rfl⟩) ?_]
    · refine not_congr (and_congr_right fun _ => ?_)
      rw [← Finset.nonempty_iff_ne_empty]
      constructor
      · rintro ⟨e, inSegment⟩
        obtain ⟨alive, protect⟩ := mem_segment.mp inSegment
        rcases (member e).mp alive with rfl | ⟨stored, lives⟩
        · cases protect
        · exact ⟨e, stored, protect, lives⟩
      · rintro ⟨e, stored, protect, lives⟩
        exact ⟨e, mem_segment.mpr ⟨(member e).mpr (.inr ⟨stored, lives⟩), protect⟩⟩
    · intro e alive other
      exact last e (((member e).mp alive).resolve_left other).1

/-- From the epoch of the clock on, a `Set` without a TTL is read back at once, but for a new key in
a store for one entry that is protected and has not expired. -/
theorem read_your_write {history : List TimedCall} {past : List Int}
    {earlier : List (Option Bytes)} {later : Nat → Int} (bounded : 1 ≤ cfg.maxEntries)
    (reached : Run (ConcurrentStore.new cfg) history store past earlier)
    (keys : ∀ call ∈ history, call.1.key ≠ []) (nonempty : key ≠ [])
    (run : Run store [(.set key value none, clock), (.get key, later)] after made results)
    (increasing : (past ++ made).Pairwise (· < ·))
    (range : ∀ now ∈ past ++ made, 0 ≤ now ∧ now < 2 ^ 63) :
    results = [some value] ↔ ¬(cfg.maxEntries = 1 ∧ store.find key = none ∧
      ∃ e ∈ store.contents, e.2.inProtectedSegment = true ∧ ¬e.2.isExpired (clock 1)) := by
  have rep := reached.rep (ConcurrentStore.new_rep cfg)
  have settled := reached.settled (by omega) keys
  obtain ⟨middle, first, second, results₁, results₂, set, get, rfl, rfl⟩ :=
    @split cfg store after [(.set key value none, clock)] [(.get key, later)] _ _ run
  obtain ⟨rfl, written, -⟩ := set.set rep
  have enforced := set.enforced rep (by omega) (settled.keys_written rep nonempty)
  rw [List.nil_append, get_written rep enforced (set.rep rep) get]
  cases found : store.find key with
  | some entry =>
    rw [enforced.eq_of_fits (by rw [rep.card_written_old found]; exact settled.room)]
    exact iff_of_true (exists_written rep) (by simp)
  | none =>
    by_cases room : store.contents.card < cfg.maxEntries
    · rw [enforced.eq_of_fits (by rw [rep.card_written_new found]; omega)]
      refine iff_of_true (exists_written rep) ?_
      rintro ⟨single, -, e, member, -⟩
      have := Finset.card_pos.mpr ⟨e, member⟩
      omega
    · have mine : (∃ e ∈ middle.contents, e.1 = key) ↔
          inserted key value none clock ∈ middle.contents := by
        refine ⟨?_, fun member => ⟨_, member, rfl⟩⟩
        rintro ⟨e, member, here⟩
        have stored : inserted key value none clock ∈
            (store.written key value none clock).contents := by
          rw [rep.written_new found]
          exact Finset.mem_insert_self _ _
        obtain ⟨e', member', rfl | rfl⟩ := enforced.origin member
        · exact rep.written.key_unique member' stored here ▸ member
        · obtain rfl := rep.written.key_unique member' stored here
          exact member
      have here : clock 0 ∈ first ++ second := List.mem_append_left second written
      obtain ⟨-, -, before⟩ := List.pairwise_append.mp increasing
      have last := touched_before (by omega) reached keys
        (fun now read => before now read (clock 0) here)
        (fun now read => (range now (List.mem_append_left _ read)).1)
        (range _ (List.mem_append_right past here)).2
      rw [mine, kept_iff bounded reached keys nonempty found (by omega) set last]
      simp

/-- A store for two entries. -/
def pairConfig : Config := ⟨1, 2, fun _ => 0⟩

/-- In a store for two entries, the third key is read back. -/
theorem read_your_write_third : ∃ (store after : ConcurrentStore pairConfig) (past made : List Int),
    Run (ConcurrentStore.new pairConfig) [(.set (ascii "a") (ascii "x") none, fun n => n),
      (.get (ascii "a"), fun n => n + 2), (.set (ascii "b") (ascii "y") none, fun n => n + 4)] store
        past [some (ascii "x")] ∧
      Run store [(.set (ascii "c") (ascii "z") none, fun n => n + 6),
        (.get (ascii "c"), fun n => n + 8)] after made [some (ascii "z")] := by
  have first : ((ConcurrentStore.new pairConfig).runAll
      [(.set (ascii "a") (ascii "x") none, fun n => n), (.get (ascii "a"), fun n => n + 2),
        (.set (ascii "b") (ascii "y") none, fun n => n + 4)]).bind (fun r =>
        (r.1.runAll [(.set (ascii "c") (ascii "z") none, fun n => n + 6),
          (.get (ascii "c"), fun n => n + 8)]).map fun r' => (r.2, r'.2.1)) =
      some (([0, 2, 3, 4], [some (ascii "x")]), [6, 7, 8, 9]) := by decide
  obtain ⟨⟨store, past, earlier⟩, ends, same⟩ := Option.bind_eq_some_iff.mp first
  obtain ⟨⟨after, made, results⟩, ends', same⟩ := Option.map_eq_some_iff.mp same
  cases same
  have reached := of_runAll ends
  have run := of_runAll ends'
  obtain rfl := (read_your_write (by decide) reached (by decide) (by decide) run (by decide)
    (by decide)).mpr fun lost => absurd lost.1 (by decide)
  exact ⟨store, after, _, _, reached, run⟩

/-- Two runs of a caller that runs alone, one after the other. -/
theorem of_runAll_two {front back : List TimedCall} {past : List Int}
    {earlier : List (Option Bytes)}
    (ends : ((store.runAll front).bind fun r => (r.1.runAll back).map fun r' => (r.2, r'.2)) =
      some ((past, earlier), made, results)) :
    ∃ middle after, Run store front middle past earlier ∧ Run middle back after made results := by
  obtain ⟨⟨middle, past, earlier⟩, first, rest⟩ := Option.bind_eq_some_iff.mp ends
  obtain ⟨⟨after, made, results⟩, second, same⟩ := Option.map_eq_some_iff.mp rest
  cases same
  exact ⟨middle, after, of_runAll first, of_runAll second⟩

/-- A new key is not read back from a store for one entry that was read before, nor from any store
once the count of the clock passes its epoch. -/
theorem written_key_lost :
    (∃ (store after : ConcurrentStore singleConfig) (past made : List Int),
      Run (ConcurrentStore.new singleConfig) [(.set (ascii "a") (ascii "x") none, fun n => n),
        (.get (ascii "a"), fun n => n + 2)] store past [some (ascii "x")] ∧
      Run store [(.set (ascii "b") (ascii "y") none, fun n => n + 4),
        (.get (ascii "b"), fun n => n + 6)] after made [none] ∧
      (past ++ made).Pairwise (· < ·)) ∧
    ∃ (store after : ConcurrentStore pairConfig) (past made : List Int),
      Run (ConcurrentStore.new pairConfig) [(.set (ascii "a") (ascii "x") none, fun n => n - 4),
        (.set (ascii "b") (ascii "y") none, fun n => n - 2)] store past [] ∧
      Run store [(.set (ascii "c") (ascii "z") none, fun n => n),
        (.get (ascii "c"), fun n => n + 2)] after made [none] ∧
      (past ++ made).Pairwise (· < ·) := by
  have single : ((ConcurrentStore.new singleConfig).runAll
      [(.set (ascii "a") (ascii "x") none, fun n => n), (.get (ascii "a"), fun n => n + 2)]).bind
        (fun r => (r.1.runAll [(.set (ascii "b") (ascii "y") none, fun n => n + 4),
          (.get (ascii "b"), fun n => n + 6)]).map fun r' => (r.2, r'.2)) =
      some (([0, 2, 3], [some (ascii "x")]), [4, 5], [none]) := by decide
  have crossing : ((ConcurrentStore.new pairConfig).runAll
      [(.set (ascii "a") (ascii "x") none, fun n => n - 4),
        (.set (ascii "b") (ascii "y") none, fun n => n - 2)]).bind
        (fun r => (r.1.runAll [(.set (ascii "c") (ascii "z") none, fun n => n),
          (.get (ascii "c"), fun n => n + 2)]).map fun r' => (r.2, r'.2)) =
      some (([-4, -2], []), [0, 1], [none]) := by decide
  obtain ⟨store, after, before, run⟩ := of_runAll_two single
  obtain ⟨store', after', before', run'⟩ := of_runAll_two crossing
  exact ⟨⟨store, after, _, _, before, run, by decide⟩, store', after', _, _, before', run',
    by decide⟩

end Run

end DistributedCache.Core
