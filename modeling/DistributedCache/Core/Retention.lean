import DistributedCache.Core.Runs

/-! Which entries a `Set` keeps.  The results are about sequential runs: what one `Set` replaces,
and which protected entries outlast any number of `Set`s of new keys. -/

namespace DistributedCache.Core

open Lib

/-- The order of the victims of the eviction loop: by the last touch, then by key. -/
def touchOrder (e : Entry) : ℕ ×ₗ List ℕ := toLex (e.2.lastTouchNs, e.1.map UInt8.toNat)

/-- One entry too many: the protected entries in excess are demoted, and the unprotected entry that
was touched first is removed. -/
structure Replaces (maxEntries : Nat) (contents : Finset Entry) (victims : List Entry)
    (victim : Entry) (after : Finset Entry) : Prop where
  excess : Excess (max 1 (maxEntries / 2)) contents victims
  unprotected : victim ∈ segment false (victims.foldl demoteOne contents)
  oldest : ∀ e ∈ segment false (victims.foldl demoteOne contents), touchOrder victim ≤ touchOrder e
  after : after = (victims.foldl demoteOne contents).erase victim

/-- Among entries of frequency 1 the rank is the order of the last touches. -/
theorem touchOrder_le {e e' : Entry} (one : e.2.lfuCount = 1) (one' : e'.2.lfuCount = 1)
    (below : rank e ≤ rank e') : touchOrder e ≤ touchOrder e' := by
  rw [rank, rank, one, one', Prod.Lex.toLex_le_toLex] at below
  exact (below.resolve_left (lt_irrefl 1)).2

theorem Excess.lfuCount_eq_one {limit : Nat} {contents : Finset Entry} {victims : List Entry}
    (excess : Excess limit contents victims)
    (ones : ∀ e ∈ segment false contents, e.2.lfuCount = 1) :
    ∀ e ∈ segment false (victims.foldl demoteOne contents), e.2.lfuCount = 1 := by
  intro e member
  obtain ⟨stored, unprotected⟩ := mem_segment.mp member
  obtain ⟨e', member', rfl | rfl⟩ := excess.origin stored
  · exact ones e (mem_segment.mpr ⟨member', unprotected⟩)
  · rfl

theorem protectedEntriesLimit_eq {cfg : Config} (bounded : 1 ≤ cfg.maxEntries) :
    cfg.protectedEntriesLimit = max 1 (cfg.maxEntries / 2) :=
  if_pos bounded

/-- Where nothing has expired, the greatest protected entries stay protected. -/
theorem Enforced.greatest_subset {cfg : Config} {now : Int} {contents after : Finset Entry}
    (enforced : Enforced cfg now contents after) (lasting : live now contents = contents)
    (distinct : Set.InjOn rank (segment true contents : Set Entry)) :
    greatest rank cfg.protectedEntriesLimit (segment true contents) ⊆
      greatest rank cfg.protectedEntriesLimit (segment true after) := by
  cases enforced with
  | fits => exact Finset.Subset.refl _
  | swept =>
    rw [lasting]
  | evicted victims full excess evicts =>
    rw [lasting] at excess evicts
    have kept : segment true after =
        greatest rank cfg.protectedEntriesLimit (segment true contents) := by
      rw [← excess.segment_true]
      ext e
      constructor
      · intro member
        obtain ⟨stored, protect⟩ := mem_segment.mp member
        exact mem_segment.mpr ⟨evicts.subset stored, protect⟩
      · intro member
        exact mem_segment.mpr ⟨evicts.protected_mem member, (mem_segment.mp member).2⟩
    have few : (greatest rank cfg.protectedEntriesLimit (segment true contents)).card ≤
        cfg.protectedEntriesLimit := by
      rw [card_greatest distinct]
      exact min_le_left _ _
    rw [kept, greatest_eq_self few]

/-- The loops of `EnforceCapacity`, with one entry too many. -/
theorem replaces {cfg : Config} {contents after : Finset Entry} {victims : List Entry}
    (bounded : 1 ≤ cfg.maxEntries)
    (excess : Excess cfg.protectedEntriesLimit contents victims)
    (ones : ∀ e ∈ segment false contents, e.2.lfuCount = 1)
    (one : (victims.foldl demoteOne contents).card = cfg.maxEntries + 1)
    (evicts : EvictsTo cfg.maxEntries (victims.foldl demoteOne contents) after) :
    ∃ victim, Replaces cfg.maxEntries contents victims victim after := by
  have ones' := excess.lfuCount_eq_one ones
  obtain ⟨victim, member, least, same⟩ := evicts.one one
  rw [protectedEntriesLimit_eq bounded] at excess
  refine ⟨victim, excess, member, fun e member' => ?_, same⟩
  exact touchOrder_le (ones' victim member) (ones' e member') (least e member')

namespace ConcurrentStore

variable {cfg : Config} {store : ConcurrentStore cfg}

/-- No key is empty, and the store is not too full. -/
structure Settled (store : ConcurrentStore cfg) : Prop where
  keys : ∀ e ∈ store.contents, e.1 ≠ []
  room : store.contents.card ≤ cfg.maxEntries

theorem new_contents (cfg : Config) : (new cfg).contents = ∅ := by
  ext e
  rw [(new_rep cfg).mem_contents, find_new]
  simp

theorem new_settled (cfg : Config) : (new cfg).Settled := by
  refine ⟨?_, ?_⟩
  · rw [new_contents]
    simp
  · rw [new_contents]
    simp

/-- An entry that is not protected has frequency 1. -/
theorem Rep.lfuCount_eq_one (rep : store.Rep) {e : Entry}
    (member : e ∈ segment false store.contents) : e.2.lfuCount = 1 := by
  obtain ⟨stored, unprotected⟩ := mem_segment.mp member
  obtain ⟨positive, agrees⟩ := rep.segmented_of_find (rep.mem_contents.mp stored)
  have : ¬2 ≤ e.2.lfuCount := by
    intro many
    simp [agrees.mpr many] at unprotected
  omega

section

variable {key value : Bytes} {ttl : Option Int} {clock : Nat → Int}

theorem Rep.written (rep : store.Rep) : (store.written key value ttl clock).Rep :=
  rep.setSection key value _ _

/-- The key of a `Set` is the only key that its section changes. -/
theorem Rep.mem_written (rep : store.Rep) {e : Entry} (other : e.1 ≠ key) :
    e ∈ (store.written key value ttl clock).contents ↔ e ∈ store.contents := by
  rw [rep.written.mem_contents, rep.mem_contents, ConcurrentStore.written,
    find_setSection_ne store value _ _ other]

theorem Rep.written_new (rep : store.Rep) (absent : store.find key = none) :
    (store.written key value ttl clock).contents =
      insert (inserted key value ttl clock) store.contents :=
  rep.contents_setSection_new absent

theorem Rep.inserted_notMem (rep : store.Rep) (absent : store.find key = none) :
    inserted key value ttl clock ∉ store.contents := by
  intro member
  have found := rep.mem_contents.mp member
  rw [inserted, absent] at found
  cases found

theorem Rep.card_written_old (rep : store.Rep) {entry : ValueEntry}
    (found : store.find key = some entry) :
    (store.written key value ttl clock).contents.card = store.contents.card := by
  have total : (store.written key value ttl clock).totalEntries = store.totalEntries := by
    unfold ConcurrentStore.written ConcurrentStore.setSection
    rw [found]
    rfl
  rw [rep.written.card_contents, rep.card_contents, total]

theorem Rep.card_written_new (rep : store.Rep) (absent : store.find key = none) :
    (store.written key value ttl clock).contents.card = store.contents.card + 1 := by
  rw [rep.written_new absent, Finset.card_insert_of_notMem (rep.inserted_notMem absent)]

end

theorem Rep.card_getSection_le (rep : store.Rep) (key : Bytes) (now : Int) :
    (store.getSection key now).1.contents.card ≤ store.contents.card := by
  rw [rep.card_contents, (rep.getSection key now).card_contents, rep.total,
    (rep.getSection key now).total]
  exact (getSection_shrinks rep key now).length_le

theorem Settled.getSection (settled : store.Settled) (rep : store.Rep) (key : Bytes) (now : Int) :
    (store.getSection key now).1.Settled := by
  have shrinks := getSection_shrinks rep key now
  refine ⟨fun e member => ?_, (rep.card_getSection_le key now).trans settled.room⟩
  obtain ⟨i, member⟩ := mem_allEntries.mp (List.mem_toFinset.mp member)
  obtain ⟨e', member', same, -⟩ := shrinks i e member
  exact same ▸ settled.keys e' (List.mem_toFinset.mpr (mem_allEntries.mpr ⟨i, member'⟩))

theorem Settled.keys_written (settled : store.Settled) (rep : store.Rep) {key value : Bytes}
    {ttl : Option Int} {clock : Nat → Int} (nonempty : key ≠ []) :
    ∀ e ∈ (store.written key value ttl clock).contents, e.1 ≠ [] := by
  intro e member
  by_cases here : e.1 = key
  · exact here ▸ nonempty
  · exact settled.keys e ((rep.mem_written here).mp member)

end ConcurrentStore

namespace Run

variable {cfg : Config} {store after : ConcurrentStore cfg} {calls : List TimedCall}
  {made : List Int} {results : List (Option Bytes)} {key value : Bytes} {ttl : Option Int}
  {clock : Nat → Int}

/-- What a `Set` leaves of a bounded store without empty keys. -/
theorem enforced (rep : store.Rep) (bounded : cfg.maxEntries ≠ 0)
    (keys : ∀ e ∈ (store.written key value ttl clock).contents, e.1 ≠ [])
    (run : Run store [(.set key value ttl, clock)] after made results) :
    Enforced cfg (sweptAt clock ttl) (store.written key value ttl clock).contents
      after.contents := by
  obtain ⟨-, -, next, ends, agree⟩ := run.set rep
  rw [agree.contents]
  exact ConcurrentStore.enforceCapacity_contents rep.written bounded keys ends

theorem settled_call (bounded : cfg.maxEntries ≠ 0) {call : TimedCall} (rep : store.Rep)
    (settled : store.Settled) (nonempty : call.1.key ≠ [])
    (run : Run store [call] after made results) : after.Settled := by
  obtain ⟨request, clock⟩ := call
  cases request with
  | get key =>
    obtain ⟨agree, -⟩ := run.get rep
    have next := settled.getSection rep key (clock 1)
    exact ⟨agree.contents ▸ next.keys, agree.contents ▸ next.room⟩
  | set key value ttl =>
    have keys : ∀ e ∈ (store.written key value ttl clock).contents, e.1 ≠ [] :=
      settled.keys_written rep nonempty
    have enforced := run.enforced rep bounded keys
    refine ⟨fun e member => ?_, enforced.card_le⟩
    obtain ⟨e', member', rfl | rfl⟩ := enforced.origin member
    · exact keys e member'
    · exact keys e' member'

/-- With non-empty keys the store is never too full between two calls. -/
theorem settled (bounded : cfg.maxEntries ≠ 0) (keys : ∀ call ∈ calls, call.1.key ≠ [])
    (run : Run (ConcurrentStore.new cfg) calls store made results) : store.Settled :=
  run.invariant ConcurrentStore.Settled (fun call => call.1.key ≠ [])
    (fun _ _ _ _ _ rep settled nonempty run => settled_call bounded rep settled nonempty run)
    (ConcurrentStore.new_rep cfg) (ConcurrentStore.new_settled cfg) keys

/-- What a `Set` replaces in a store that a run over non-empty keys has reached. -/
theorem set_replaces {history : List TimedCall} {past : List Int} {earlier : List (Option Bytes)}
    (bounded : 1 ≤ cfg.maxEntries)
    (reached : Run (ConcurrentStore.new cfg) history store past earlier)
    (keys : ∀ call ∈ history, call.1.key ≠ []) (nonempty : key ≠ [])
    (run : Run store [(.set key value ttl, clock)] after made results) :
    (store.find key ≠ none ∨ store.contents.card < cfg.maxEntries →
      ∀ e, e.1 ≠ key → (e ∈ after.contents ↔ e ∈ store.contents)) ∧
    (store.find key = none → cfg.maxEntries ≤ store.contents.card →
      ∀ full left, full = insert (inserted key value ttl clock) store.contents →
        left = live (sweptAt clock ttl) full →
        (∀ e ∈ full, e.2.isExpired (sweptAt clock ttl) → ∀ e' ∈ after.contents, e'.1 ≠ e.1) ∧
        (left.card ≤ cfg.maxEntries → after.contents = left) ∧
        (cfg.maxEntries < left.card → left.card = cfg.maxEntries + 1 ∧
          ∃ victims victim, Replaces cfg.maxEntries left victims victim after.contents)) := by
  have rep := reached.rep (ConcurrentStore.new_rep cfg)
  have settled := reached.settled (by omega) keys
  have enforced := run.enforced rep (by omega) (settled.keys_written rep nonempty)
  have room := settled.room
  refine ⟨fun fits e other => ?_, fun absent full_store full left full_eq left_eq => ?_⟩
  · have few : (store.written key value ttl clock).contents.card ≤ cfg.maxEntries := by
      cases found : store.find key with
      | none =>
        rw [rep.card_written_new found]
        exact fits.resolve_left (not_not.mpr found)
      | some entry => rwa [rep.card_written_old found]
    rw [enforced.eq_of_fits few, rep.mem_written other]
  · have distinct : Set.InjOn Sigma.fst (full : Set Entry) := by
      rw [full_eq, ← rep.written_new absent]
      exact fun e member e' member' same => rep.written.key_unique member member' same
    have size : full.card = store.contents.card + 1 := by
      rw [full_eq, ← rep.written_new absent, rep.card_written_new absent]
    rw [rep.written_new absent, ← full_eq] at enforced
    have fewer : left.card ≤ full.card := by
      rw [left_eq]
      exact Finset.card_filter_le _ _
    subst left_eq
    refine ⟨fun e member expired e' member' same => ?_, fun few => ?_, fun many => ?_⟩
    · obtain ⟨origin, alive, rfl | rfl⟩ := enforced.origin_live (by omega) member'
      · obtain rfl := distinct (mem_live.mp alive).1 member same
        exact (mem_live.mp alive).2 expired
      · obtain rfl := distinct (mem_live.mp alive).1 member same
        exact (mem_live.mp alive).2 expired
    · exact enforced.eq_live (by omega) few
    · obtain ⟨victims, excess, evicts⟩ := enforced.evicts many
      have one : (live (sweptAt clock ttl) full).card = cfg.maxEntries + 1 := by omega
      have unique : Set.InjOn Sigma.fst (live (sweptAt clock ttl) full : Set Entry) :=
        distinct.mono (Finset.coe_subset.mpr (Finset.filter_subset _ _))
      have ones : ∀ e ∈ segment false (live (sweptAt clock ttl) full), e.2.lfuCount = 1 := by
        intro e member
        obtain ⟨alive, unprotected⟩ := mem_segment.mp member
        have stored : e ∈ (store.written key value ttl clock).contents := by
          rw [rep.written_new absent, ← full_eq]
          exact (mem_live.mp alive).1
        exact rep.written.lfuCount_eq_one (mem_segment.mpr ⟨stored, unprotected⟩)
      exact ⟨one, victims, replaces bounded excess ones (by rw [excess.card unique, one]) evicts⟩

/-- A store for one entry. -/
def singleConfig : Config := ⟨1, 1, fun _ => 0⟩

/-- The second key takes the place of the first. -/
theorem set_replaces_first : ∃ (store after : ConcurrentStore singleConfig) (past made : List Int),
    Run (ConcurrentStore.new singleConfig) [(.set (ascii "a") (ascii "x") none, fun n => n)] store
        past [] ∧
      Run store [(.set (ascii "b") (ascii "y") none, fun n => n + 2)] after made [] ∧
      ∃ victims victim, Replaces 1 {⟨ascii "a", ⟨ascii "x", none, 1, 0, false⟩⟩,
        ⟨ascii "b", ⟨ascii "y", none, 1, 2, false⟩⟩} victims victim after.contents := by
  have first : ((ConcurrentStore.new singleConfig).runAll
      [(.set (ascii "a") (ascii "x") none, fun n => n)]).map
        (fun r => (r.1.contents, r.1.find (ascii "b"), r.2.2)) =
      some ({⟨ascii "a", ⟨ascii "x", none, 1, 0, false⟩⟩}, none, []) := by decide
  obtain ⟨⟨store, past, earlier⟩, ends, same⟩ := Option.map_eq_some_iff.mp first
  obtain ⟨contents, absent, rfl⟩ : store.contents = _ ∧ store.find (ascii "b") = none ∧
      earlier = [] := by simpa using same
  have reached := of_runAll ends
  have rep := reached.rep (ConcurrentStore.new_rep _)
  obtain ⟨after, made, results, run⟩ :=
    total rep [(.set (ascii "b") (ascii "y") none, fun n : Nat => (n : Int) + 2)]
  obtain rfl := (run.set rep).1
  have left : live (sweptAt (fun n : Nat => (n : Int) + 2) none)
      (insert (inserted (ascii "b") (ascii "y") none fun n => n + 2) store.contents) =
      {⟨ascii "a", ⟨ascii "x", none, 1, 0, false⟩⟩,
        ⟨ascii "b", ⟨ascii "y", none, 1, 2, false⟩⟩} := by
    rw [contents]
    decide
  have replaced := (set_replaces (by decide) reached (by decide) (by decide) run).2 absent
    (by rw [contents]; decide) _ _ rfl rfl
  rw [left] at replaced
  exact ⟨store, after, past, made, reached, run, (replaced.2.2 (by decide)).2⟩

/-! ### Entries that outlast a scan -/

/-- Nothing expires, and no key is empty. -/
def Lasting (contents : Finset Entry) : Prop :=
  ∀ e ∈ contents, e.1 ≠ [] ∧ e.2.expiresAt = none

theorem Lasting.live {contents : Finset Entry} (lasting : Lasting contents) (now : Int) :
    live now contents = contents := by
  refine Finset.filter_true_of_mem fun e member => ?_
  simp [ValueEntry.isExpired, (lasting e member).2]

/-- A new key that a `Set` inserts costs none of the greatest protected entries. -/
theorem greatest_call (bounded : 1 ≤ cfg.maxEntries) (rep : store.Rep)
    (lasting : Lasting store.contents) (nonempty : key ≠ []) (absent : store.find key = none)
    (run : Run store [(.set key value none, clock)] after made results) :
    Lasting after.contents ∧
      greatest rank cfg.protectedEntriesLimit (segment true store.contents) ⊆
        greatest rank cfg.protectedEntriesLimit (segment true after.contents) := by
  have full : Lasting (store.written key value none clock).contents := by
    rw [rep.written_new absent]
    intro e member
    rcases Finset.mem_insert.mp member with rfl | old
    · exact ⟨nonempty, rfl⟩
    · exact lasting e old
  have enforced := run.enforced rep (by omega) fun e member => (full e member).1
  have same : segment true (store.written key value none clock).contents =
      segment true store.contents := by
    rw [rep.written_new absent, segment, Finset.filter_insert, if_neg (by simp [inserted])]
    rfl
  refine ⟨fun e member => ?_, ?_⟩
  · obtain ⟨e', member', rfl | rfl⟩ := enforced.origin member
    · exact full e member'
    · exact full e' member'
  · rw [← same]
    exact enforced.greatest_subset (full.live _) (rep.written.rank_injOn true)

/-- The protected entries of highest rank, as many as the limit of the protected segment allows,
outlast any number of `Set`s of new keys. -/
theorem scan_resistance {history scan : List TimedCall} {past : List Int}
    {earlier : List (Option Bytes)}
    (bounded : 1 ≤ cfg.maxEntries)
    (reached : Run (ConcurrentStore.new cfg) history store past earlier)
    (lasting : ∀ e ∈ store.contents, e.1 ≠ [] ∧ e.2.expiresAt = none)
    (run : Run store scan after made results)
    (fresh : ∀ front call back middle during answers, scan = front ++ call :: back →
      Run store front middle during answers →
      ∃ key value, call.1 = .set key value none ∧ key ≠ [] ∧ middle.find key = none) :
    (greatest rank (max 1 (cfg.maxEntries / 2)) (segment true store.contents)).card =
        min (segment true store.contents).card (max 1 (cfg.maxEntries / 2)) ∧
      ∀ e ∈ greatest rank (max 1 (cfg.maxEntries / 2)) (segment true store.contents),
        e ∈ after.contents ∧ e.2.inProtectedSegment = true := by
  have rep := reached.rep (ConcurrentStore.new_rep cfg)
  refine ⟨by rw [card_greatest (rep.rank_injOn true), min_comm], ?_⟩
  rw [← protectedEntriesLimit_eq bounded]
  suffices kept : greatest rank cfg.protectedEntriesLimit (segment true store.contents) ⊆
      greatest rank cfg.protectedEntriesLimit (segment true after.contents) by
    intro e member
    exact mem_segment.mp (mem_greatest.mp (kept member)).1
  clear reached
  induction run with
  | nil => exact Finset.Subset.refl _
  | @cons store middle after m request clock calls made results rest serves _ ih =>
    obtain ⟨key, value, same, nonempty, absent⟩ :=
      fresh [] (request, clock) calls store [] [] rfl (.nil store)
    have first : Run store [(request, clock)] middle _ _ := .cons serves (.nil middle)
    dsimp only at same
    subst same
    obtain ⟨lasting', kept⟩ := greatest_call bounded rep lasting nonempty absent first
    refine kept.trans (ih lasting' ?_ (first.rep rep))
    intro front call back middle' during answers split before
    exact fresh (_ :: front) call back middle' _ _ (by rw [split, List.cons_append])
      (.cons serves before)

/-- A key that was read keeps its place in a store for one entry. -/
theorem scan_resistance_one : ∃ (store after : ConcurrentStore singleConfig) (past made : List Int),
    Run (ConcurrentStore.new singleConfig) [(.set (ascii "a") (ascii "x") none, fun n => n),
      (.get (ascii "a"), fun n => n + 2)] store past [some (ascii "x")] ∧
      Run store [(.set (ascii "b") (ascii "y") none, fun n => n + 4)] after made [] ∧
      ⟨ascii "a", ⟨ascii "x", none, 2, 3, true⟩⟩ ∈ after.contents := by
  have first : ((ConcurrentStore.new singleConfig).runAll
      [(.set (ascii "a") (ascii "x") none, fun n => n), (.get (ascii "a"), fun n => n + 2)]).map
        (fun r => (r.1.contents, r.1.find (ascii "b"), r.2.2)) =
      some ({⟨ascii "a", ⟨ascii "x", none, 2, 3, true⟩⟩}, none, [some (ascii "x")]) := by decide
  obtain ⟨⟨store, past, earlier⟩, ends, same⟩ := Option.map_eq_some_iff.mp first
  obtain ⟨contents, absent, rfl⟩ : store.contents = _ ∧ store.find (ascii "b") = none ∧
      earlier = [some (ascii "x")] := by simpa using same
  have reached := of_runAll ends
  have rep := reached.rep (ConcurrentStore.new_rep _)
  obtain ⟨after, made, results, run⟩ :=
    total rep [(.set (ascii "b") (ascii "y") none, fun n : Nat => (n : Int) + 4)]
  obtain rfl := (run.set rep).1
  have kept := scan_resistance (by decide) reached (by rw [contents]; decide) run ?_
  · refine ⟨store, after, past, made, reached, run, (kept.2 _ ?_).1⟩
    rw [contents]
    decide
  · intro front call back middle during answers split before
    cases front with
    | nil =>
      cases before
      cases split
      exact ⟨_, _, rfl, by decide, absent⟩
    | cons _ front =>
      simp at split

end Run

end DistributedCache.Core
