import DistributedCache.Core.Admission

/-! Expired entries.  They stay in the store until a `Get` of their key or a sweep meets them.  Two
runs of the same calls are compared, one of which has dropped an expired entry before: the entries
that have not expired stay the same, and so do the answers. -/

namespace DistributedCache.Core

open Lib

theorem ValueEntry.isExpired_mono {entry : ValueEntry} {now later : Int} (order : now ≤ later)
    (expired : entry.isExpired now) : entry.isExpired later := by
  obtain ⟨expiry, same, early⟩ := isExpired_iff.mp expired
  exact isExpired_iff.mpr ⟨expiry, same, early.trans order⟩

theorem ValueEntry.isExpired_congr {entry entry' : ValueEntry} {now : Int}
    (same : entry.expiresAt = entry'.expiresAt) : entry.isExpired now = entry'.isExpired now := by
  rw [isExpired, isExpired, same]

theorem live_live {now later : Int} (order : now ≤ later) (contents : Finset Entry) :
    live later (live now contents) = live later contents := by
  ext e
  rw [mem_live, mem_live, mem_live, and_assoc]
  refine and_congr_right fun _ => and_iff_right_of_imp fun alive expired => ?_
  exact alive (ValueEntry.isExpired_mono order expired)

/-- The readings of the calls are in the order of the calls, each call having three. -/
def Chronological (calls : List TimedCall) : Prop :=
  (calls.flatMap fun call => [call.2 0, call.2 1, call.2 2]).Pairwise (· ≤ ·)

theorem Chronological.cons {call : TimedCall} {calls : List TimedCall}
    (order : Chronological (call :: calls)) :
    call.2 0 ≤ call.2 1 ∧ call.2 1 ≤ call.2 2 ∧ Chronological calls ∧
      ∀ later ∈ calls, call.2 2 ≤ later.2 0 := by
  unfold Chronological at order
  rw [List.flatMap_cons] at order
  obtain ⟨first, rest, across⟩ := List.pairwise_append.mp order
  refine ⟨?_, ?_, rest, fun later member => ?_⟩
  · simp at first
    omega
  · simp at first
    omega
  · exact across _ (by simp) _ (List.mem_flatMap.mpr ⟨later, member, by simp⟩)

namespace ConcurrentStore

variable {cfg : Config} {store store' after : ConcurrentStore cfg}

/-- What a `Get` of a key finds at a time: a value and when it expires. -/
def visible (store : ConcurrentStore cfg) (now : Int) (key : Bytes) : Option (Bytes × Option Int) :=
  ((store.find key).filter fun entry => !entry.isExpired now).map
    fun entry => (entry.value, entry.expiresAt)

theorem visible_eq_some {now : Int} {key value : Bytes} {expiry : Option Int} :
    store.visible now key = some (value, expiry) ↔ ∃ entry, store.find key = some entry ∧
      entry.isExpired now = false ∧ entry.value = value ∧ entry.expiresAt = expiry := by
  simp only [visible, Option.map_eq_some_iff, Option.filter_eq_some_iff, Bool.not_eq_true',
    Prod.mk.injEq, and_assoc]

theorem visible_congr {now : Int} {key : Bytes} (same : store.find key = store'.find key) :
    store.visible now key = store'.visible now key := by
  rw [visible, visible, same]

/-- The value and the expiry of an entry are all that is visible of it. -/
theorem visible_congr_entry {now : Int} {key : Bytes} {entry entry' : ValueEntry}
    (found : store.find key = some entry) (found' : store'.find key = some entry')
    (values : entry.value = entry'.value) (expiries : entry.expiresAt = entry'.expiresAt) :
    store.visible now key = store'.visible now key := by
  have expired : entry.isExpired now = entry'.isExpired now := ValueEntry.isExpired_congr expiries
  rw [visible, visible, found, found', Option.filter_some, Option.filter_some, expired]
  split
  · simp [values, expiries]
  · rfl

/-- What is visible now decides what will be visible. -/
theorem visible_mono {now later : Int} {key : Bytes} (order : now ≤ later)
    (same : store.visible now key = store'.visible now key) :
    store.visible later key = store'.visible later key := by
  have step : ∀ store₁ store₂ : ConcurrentStore cfg,
      store₁.visible now key = store₂.visible now key → ∀ seen,
      store₁.visible later key = some seen → store₂.visible later key = some seen := by
    rintro store₁ store₂ same ⟨value, expiry⟩ seen
    obtain ⟨entry, found, alive, rfl, rfl⟩ := visible_eq_some.mp seen
    have before : entry.isExpired now = false := by
      by_contra dead
      rw [entry.isExpired_mono order (by simpa using dead)] at alive
      cases alive
    have here := same.symm.trans (visible_eq_some.mpr ⟨entry, found, before, rfl, rfl⟩)
    obtain ⟨entry', found', -, value_eq, expiry_eq⟩ := visible_eq_some.mp here
    refine visible_eq_some.mpr ⟨entry', found', ?_, value_eq, expiry_eq⟩
    rw [ValueEntry.isExpired_congr expiry_eq, alive]
  refine Option.ext fun seen => ⟨step store store' same seen, step store' store same.symm seen⟩

/-- The answer of a `Get`. -/
theorem getSection_snd (key : Bytes) (now : Int) :
    (store.getSection key now).2 = (store.visible now key).map Prod.fst := by
  rw [getSection, visible]
  cases store.find key with
  | none => rfl
  | some entry =>
    dsimp only
    cases alive : entry.isExpired now <;> simp [alive]

/-- A `Get` changes nothing that is visible at its time. -/
theorem visible_getSection (key other : Bytes) (now : Int) :
    (store.getSection key now).1.visible now other = store.visible now other := by
  unfold getSection
  split
  · rfl
  · rename_i entry found
    split
    · rename_i dead
      by_cases here : other = key
      · subst here
        rw [visible, visible, find_eraseEntry_self, found]
        simp [dead]
      · exact visible_congr (find_eraseEntry_ne here)
    · by_cases here : other = key
      · subst here
        exact visible_congr_entry (find_touch_self now) found (by simp) (by simp)
      · exact visible_congr (find_touch_ne now here)

/-- A `Set` leaves the same visible if the same was visible before. -/
theorem visible_written {key value : Bytes} {ttl : Option Int} {clock : Nat → Int} {now : Int}
    (same : ∀ other, store.visible now other = store'.visible now other) (other : Bytes) :
    (store.written key value ttl clock).visible now other =
      (store'.written key value ttl clock).visible now other := by
  by_cases here : other = key
  · subst here
    obtain ⟨entry, found, value_eq, expiry_eq⟩ := find_setSection_self store other value
      (ttl.map (addMilliseconds (clock 0))) (writtenAt clock ttl)
    obtain ⟨entry', found', value_eq', expiry_eq'⟩ := find_setSection_self store' other value
      (ttl.map (addMilliseconds (clock 0))) (writtenAt clock ttl)
    exact visible_congr_entry found found' (value_eq.trans value_eq'.symm)
      (expiry_eq.trans expiry_eq'.symm)
  · calc (store.written key value ttl clock).visible now other
      _ = store.visible now other := visible_congr (find_setSection_ne store value _ _ here)
      _ = store'.visible now other := same other
      _ = (store'.written key value ttl clock).visible now other :=
        visible_congr (find_setSection_ne store' value _ _ here).symm

end ConcurrentStore

namespace Run

variable {cfg : Config}

/-- Two runs of the same calls answer the `Get`s alike if they keep a relation, over the time that
has passed, between stores in which the same is visible.  `good` is what is asked of each call in
the states of the two runs. -/
theorem answers_alike (R : Int → ConcurrentStore cfg → ConcurrentStore cfg → Prop)
    (good : TimedCall → ConcurrentStore cfg → ConcurrentStore cfg → Prop)
    (sees : ∀ now later a b, a.Rep → b.Rep → R now a b → now ≤ later →
      ∀ key, a.visible later key = b.visible later key)
    (next : ∀ now a b call a' b' made made' results results', a.Rep → b.Rep → R now a b →
      good call a b → now ≤ call.2 0 → call.2 0 ≤ call.2 1 → call.2 1 ≤ call.2 2 →
      Run a [call] a' made results → Run b [call] b' made' results' → R (call.2 2) a' b')
    {calls : List TimedCall} {now : Int} {a b a' b' : ConcurrentStore cfg} {made made' : List Int}
    {results results' : List (Option Bytes)} (repA : a.Rep) (repB : b.Rep) (start : R now a b)
    (order : Chronological calls) (after : ∀ call ∈ calls, now ≤ call.2 0)
    (runA : Run a calls a' made results) (runB : Run b calls b' made' results')
    (allowed : ∀ front call back x y past past' earlier earlier', calls = front ++ call :: back →
      Run a front x past earlier → Run b front y past' earlier' → good call x y) :
    results = results' := by
  induction calls generalizing now a b made made' results results' with
  | nil =>
    cases runA
    cases runB
    rfl
  | cons call calls ih =>
    obtain ⟨x, firstA, restA, answerA, answersA, callA, moreA, rfl, rfl⟩ :=
      @split cfg a a' [call] calls _ _ runA
    obtain ⟨y, firstB, restB, answerB, answersB, callB, moreB, rfl, rfl⟩ :=
      @split cfg b b' [call] calls _ _ runB
    obtain ⟨first, second, order', across⟩ := order.cons
    have early := after call List.mem_cons_self
    have here := allowed [] call calls a b [] [] [] [] rfl (.nil a) (.nil b)
    have related := next _ _ _ _ _ _ _ _ _ _ repA repB start here early first second callA callB
    have answers : answerA = answerB := by
      obtain ⟨request, clock⟩ := call
      cases request with
      | set key value ttl =>
        rw [(callA.set repA).1, (callB.set repB).1]
      | get key =>
        rw [(callA.get repA).2.1, (callB.get repB).2.1, ConcurrentStore.getSection_snd,
          ConcurrentStore.getSection_snd,
          sees now (clock 1) a b repA repB start (early.trans first)]
    rw [answers, ih (callA.rep repA) (callB.rep repB) related order' across moreA moreB]
    intro front other back x' y' past past' earlier earlier' split before before'
    refine allowed (call :: front) other back x' y' _ _ _ _ (by rw [split, List.cons_append])
      (callA.append before) (callB.append before')

/-- In a store without a limit the calls keep what is visible. -/
theorem visible_next (unbounded : cfg.maxEntries = 0) {a b a' b' : ConcurrentStore cfg}
    {call : TimedCall} {now : Int} {made made' : List Int} {results results' : List (Option Bytes)}
    (repA : a.Rep) (repB : b.Rep) (same : ∀ key, a.visible now key = b.visible now key)
    (early : now ≤ call.2 0) (first : call.2 0 ≤ call.2 1) (second : call.2 1 ≤ call.2 2)
    (runA : Run a [call] a' made results) (runB : Run b [call] b' made' results') (key : Bytes) :
    a'.visible (call.2 2) key = b'.visible (call.2 2) key := by
  obtain ⟨request, clock⟩ := call
  dsimp only at *
  cases request with
  | get other =>
    refine ConcurrentStore.visible_mono second ?_
    have before := ConcurrentStore.visible_mono (early.trans first) (same key)
    rw [ConcurrentStore.visible_congr ((runA.get repA).1.find key),
      ConcurrentStore.visible_congr ((runB.get repB).1.find key),
      ConcurrentStore.visible_getSection, ConcurrentStore.visible_getSection, before]
  | set other value ttl =>
    obtain ⟨-, -, nextA, endsA, agreeA⟩ := runA.set repA
    obtain ⟨-, -, nextB, endsB, agreeB⟩ := runB.set repB
    rw [ConcurrentStore.enforceCapacity, if_pos unbounded] at endsA endsB
    cases endsA
    cases endsB
    rw [ConcurrentStore.visible_congr (agreeA.find key),
      ConcurrentStore.visible_congr (agreeB.find key)]
    refine ConcurrentStore.visible_written (fun key => ?_) key
    exact ConcurrentStore.visible_mono (by omega) (same key)

end Run

/-! ### Bounded stores -/

/-- The same entries have not expired, and no key has two different entries. -/
structure Alike (now : Int) (a b : Finset Entry) : Prop where
  live : live now a = live now b
  common : ∀ e ∈ a, ∀ e' ∈ b, e.1 = e'.1 → e = e'

/-- The entries of the other keys. -/
def others (key : Bytes) (contents : Finset Entry) : Finset Entry :=
  contents.filter fun e => e.1 ≠ key

theorem mem_others {key : Bytes} {contents : Finset Entry} {e : Entry} :
    e ∈ others key contents ↔ e ∈ contents ∧ e.1 ≠ key :=
  Finset.mem_filter

namespace Alike

variable {now : Int} {a b a' b' : Finset Entry}

theorem mono {later : Int} (alike : Alike now a b) (order : now ≤ later) : Alike later a b := by
  refine ⟨?_, alike.common⟩
  rw [← live_live order a, alike.live, live_live order b]

theorem of_subset (alike : Alike now a b) (subset : a' ⊆ a) (subset' : b' ⊆ b)
    (same : Core.live now a' = Core.live now b') : Alike now a' b' :=
  ⟨same, fun e member e' member' => alike.common e (subset member) e' (subset' member')⟩

theorem others (alike : Alike now a b) (key : Bytes) :
    Alike now (Core.others key a) (Core.others key b) := by
  refine alike.of_subset (Finset.filter_subset _ _) (Finset.filter_subset _ _) ?_
  have swap : ∀ contents, Core.live now (Core.others key contents) =
      Core.others key (Core.live now contents) := fun contents => Finset.filter_comm _ _ contents
  rw [swap, swap, alike.live]

/-- Both sides get the same entry of a key. -/
theorem insert (alike : Alike now a b) (e : Entry) :
    Alike now (insert e (Core.others e.1 a)) (insert e (Core.others e.1 b)) := by
  refine ⟨?_, fun x member x' member' same => ?_⟩
  · have rest := (alike.others e.1).live
    unfold Core.live at rest ⊢
    rw [Finset.filter_insert, Finset.filter_insert, rest]
  · rcases Finset.mem_insert.mp member with rfl | old
    · rcases Finset.mem_insert.mp member' with rfl | old'
      · rfl
      · exact absurd same.symm (mem_others.mp old').2
    · rcases Finset.mem_insert.mp member' with rfl | old'
      · exact absurd same (mem_others.mp old).2
      · exact (alike.others e.1).common x old x' old' same

end Alike

namespace Enforced

variable {cfg : Config} {now : Int} {a b a' b' : Finset Entry}

/-- Where the entries that have not expired fit, they all stay. -/
theorem live_eq (enforced : Enforced cfg now a a') (room : (live now a).card ≤ cfg.maxEntries) :
    a' ⊆ a ∧ live now a' = live now a := by
  by_cases full : cfg.maxEntries < a.card
  · rw [enforced.eq_live full room, live_live le_rfl]
    exact ⟨Finset.filter_subset _ _, rfl⟩
  · rw [enforced.eq_of_fits (by omega)]
    exact ⟨Finset.Subset.refl _, rfl⟩

/-- With one entry too many after the sweep, the outcome is decided by what the sweep leaves. -/
theorem unique (enforced : Enforced cfg now a a') (enforced' : Enforced cfg now b b')
    (same : live now a = live now b) (keys : Set.InjOn Sigma.fst (a : Set Entry))
    (one : (live now a).card = cfg.maxEntries + 1) : a' = b' := by
  obtain ⟨victims, excess, evicts⟩ := enforced.evicts (by omega)
  obtain ⟨victims', excess', evicts'⟩ := enforced'.evicts (by rw [← same]; omega)
  rw [← same] at excess' evicts'
  have distinct : Set.InjOn Sigma.fst (live now a : Set Entry) :=
    keys.mono (Finset.coe_subset.mpr (Finset.filter_subset _ _))
  have demoted : victims'.foldl demoteOne (live now a) = victims.foldl demoteOne (live now a) := by
    have taken : ∀ e, e ∈ victims' ↔ e ∈ victims := by
      intro e
      rw [excess.mem_iff, excess'.mem_iff]
    ext e
    simp only [mem_foldl_demoteOne excess.protect, mem_foldl_demoteOne excess'.protect, taken]
  rw [demoted] at evicts'
  have size : (victims.foldl demoteOne (live now a)).card = cfg.maxEntries + 1 := by
    rw [excess.card distinct, one]
  obtain ⟨victim, member, least, rfl⟩ := evicts.one size
  obtain ⟨victim', member', least', rfl⟩ := evicts'.one size
  have ranks := le_antisymm (least victim' member') (least' victim member)
  rw [excess.keys distinct (mem_segment.mp member).1 (mem_segment.mp member').1
    (rank_injective_on_keys ranks)]

/-- `EnforceCapacity` does not tell stores apart that differ in expired entries. -/
theorem alike (enforced : Enforced cfg now a a') (enforced' : Enforced cfg now b b')
    (alike : Alike now a b) (keys : Set.InjOn Sigma.fst (a : Set Entry))
    (size : a.card ≤ cfg.maxEntries + 1) (distinct : Set.InjOn Sigma.fst (a' : Set Entry)) :
    Alike now a' b' := by
  by_cases room : (live now a).card ≤ cfg.maxEntries
  · obtain ⟨subset, kept⟩ := enforced.live_eq room
    obtain ⟨subset', kept'⟩ := enforced'.live_eq (alike.live ▸ room)
    exact alike.of_subset subset subset' (by rw [kept, kept', alike.live])
  · have fewer : (live now a).card ≤ a.card := Finset.card_filter_le _ _
    rw [← enforced.unique enforced' alike.live keys (by omega)]
    exact ⟨rfl, fun e member e' member' same => distinct member member' same⟩

end Enforced

namespace ConcurrentStore

variable {cfg : Config} {store store' after : ConcurrentStore cfg} {key : Bytes}

/-- The contents of a store that differs at one key. -/
theorem Rep.contents_others (rep : store.Rep) (rep' : after.Rep)
    (same : ∀ other, other ≠ key → after.find other = store.find other) :
    (∀ entry, after.find key = some entry →
      after.contents = insert ⟨key, entry⟩ (others key store.contents)) ∧
    (after.find key = none → after.contents = others key store.contents) := by
  constructor
  · intro entry found
    refine rep'.contents_eq fun other e => ?_
    rw [Finset.mem_insert, mem_others, rep.mem_contents]
    by_cases here : other = key
    · subst here
      simp [found, eq_comm]
    · simp [same other here, here]
  · intro absent
    refine rep'.contents_eq fun other e => ?_
    rw [mem_others, rep.mem_contents]
    by_cases here : other = key
    · subst here
      simp [absent]
    · simp [same other here, here]

/-- Alike contents, with the same outcome for one key. -/
theorem alike_of_find {after' : ConcurrentStore cfg} {now : Int} (rep : store.Rep)
    (rep' : store'.Rep) (repAfter : after.Rep) (repAfter' : after'.Rep)
    (alike : Alike now store.contents store'.contents)
    (same : ∀ other, other ≠ key → after.find other = store.find other)
    (same' : ∀ other, other ≠ key → after'.find other = store'.find other)
    (here : after.find key = after'.find key) : Alike now after.contents after'.contents := by
  obtain ⟨stored, absent⟩ := rep.contents_others repAfter same
  obtain ⟨stored', absent'⟩ := rep'.contents_others repAfter' same'
  cases found : after.find key with
  | some entry =>
    rw [stored entry found, stored' entry (here ▸ found)]
    exact alike.insert ⟨key, entry⟩
  | none =>
    rw [absent found, absent' (here ▸ found)]
    exact alike.others key

/-- The same entry of a key has not expired, if any. -/
theorem filter_find_of_alike {now : Int} (rep : store.Rep) (rep' : store'.Rep)
    (alike : Alike now store.contents store'.contents) (key : Bytes) :
    ((store.find key).filter fun entry => !entry.isExpired now) =
      (store'.find key).filter fun entry => !entry.isExpired now := by
  have alive : ∀ entry : ValueEntry, (!entry.isExpired now) = true ↔ ¬entry.isExpired now := by simp
  refine Option.ext fun entry => ?_
  have both := Finset.ext_iff.mp alike.live ⟨key, entry⟩
  rw [mem_live, mem_live, rep.mem_contents, rep'.mem_contents] at both
  rw [Option.filter_eq_some_iff, Option.filter_eq_some_iff, alive]
  exact both

theorem visible_of_alike {now : Int} (rep : store.Rep) (rep' : store'.Rep)
    (alike : Alike now store.contents store'.contents) (key : Bytes) :
    store.visible now key = store'.visible now key :=
  congrArg (Option.map _) (filter_find_of_alike rep rep' alike key)

theorem find_getSection_self (now : Int) : (store.getSection key now).1.find key =
    ((store.find key).filter fun entry => !entry.isExpired now).map
      fun entry => (touchEntry 0 entry now).1 := by
  rw [getSection]
  cases found : store.find key with
  | none => simpa using found
  | some entry =>
    dsimp only
    cases alive : entry.isExpired now with
    | true => simp [alive]
    | false =>
      rw [if_neg (by simp), find_touch_self, touchEntry_fst _ 0]
      simp [alive]

theorem alike_getSection {now : Int} (rep : store.Rep) (rep' : store'.Rep)
    (alike : Alike now store.contents store'.contents) (key : Bytes) :
    Alike now (store.getSection key now).1.contents (store'.getSection key now).1.contents := by
  refine alike_of_find rep rep' (rep.getSection key now) (rep'.getSection key now) alike
    (fun other => find_getSection_ne store _) (fun other => find_getSection_ne store' _) ?_
  rw [find_getSection_self, find_getSection_self, filter_find_of_alike rep rep' alike]

theorem find_written_congr {key value : Bytes} {ttl : Option Int} {clock : Nat → Int}
    (same : store.find key = store'.find key) :
    (store.written key value ttl clock).find key =
      (store'.written key value ttl clock).find key := by
  unfold ConcurrentStore.written setSection
  rw [same]
  cases store'.find key with
  | none => exact find_put_self.trans find_put_self.symm
  | some entry =>
    dsimp only
    rw [find_touch_self, find_touch_self, touchEntry_fst]

/-- A `Set` keeps stores alike if they both hold an entry of its key or both hold none. -/
theorem alike_written {key value : Bytes} {ttl : Option Int} {clock : Nat → Int} {now : Int}
    (rep : store.Rep) (rep' : store'.Rep) (alike : Alike now store.contents store'.contents)
    (good : (store.find key).isSome ↔ (store'.find key).isSome) :
    Alike now (store.written key value ttl clock).contents
      (store'.written key value ttl clock).contents := by
  refine alike_of_find rep rep' rep.written rep'.written alike
    (fun other => find_setSection_ne store value _ _)
    (fun other => find_setSection_ne store' value _ _) (find_written_congr ?_)
  cases found : store.find key with
  | none =>
    cases found' : store'.find key with
    | none => rfl
    | some entry => simp [found, found'] at good
  | some entry =>
    cases found' : store'.find key with
    | none => simp [found, found'] at good
    | some entry' =>
      have same := alike.common ⟨key, entry⟩ (rep.mem_contents.mpr found) ⟨key, entry'⟩
        (rep'.mem_contents.mpr found') rfl
      cases same
      rfl

end ConcurrentStore

namespace Run

variable {cfg : Config} {a b a' b' : ConcurrentStore cfg} {made made' : List Int}
  {results results' : List (Option Bytes)}

/-- A call keeps stores alike that are not too full, if a `Set` finds an entry of its key in both
or in none. -/
theorem alike_next (bounded : cfg.maxEntries ≠ 0) {call : TimedCall} {now : Int} (repA : a.Rep)
    (repB : b.Rep) (alike : Alike now a.contents b.contents) (settledA : a.Settled)
    (settledB : b.Settled) (nonempty : call.1.key ≠ [])
    (good : ∀ key value ttl, call.1 = .set key value ttl →
      ((a.find key).isSome ↔ (b.find key).isSome))
    (early : now ≤ call.2 0) (first : call.2 0 ≤ call.2 1) (second : call.2 1 ≤ call.2 2)
    (runA : Run a [call] a' made results) (runB : Run b [call] b' made' results') :
    Alike (call.2 2) a'.contents b'.contents := by
  obtain ⟨request, clock⟩ := call
  dsimp only at *
  cases request with
  | get key =>
    rw [(runA.get repA).1.contents, (runB.get repB).1.contents]
    refine Alike.mono ?_ second
    exact ConcurrentStore.alike_getSection repA repB (alike.mono (early.trans first)) key
  | set key value ttl =>
    have swept : now ≤ sweptAt clock ttl ∧ sweptAt clock ttl ≤ clock 2 := by
      unfold sweptAt
      split <;> omega
    have written : Alike (sweptAt clock ttl) (a.written key value ttl clock).contents
        (b.written key value ttl clock).contents :=
      ConcurrentStore.alike_written repA repB (alike.mono swept.1) (good key value ttl rfl)
    have size : (a.written key value ttl clock).contents.card ≤ cfg.maxEntries + 1 := by
      have room := settledA.room
      cases found : a.find key with
      | none =>
        rw [repA.card_written_new found]
        omega
      | some entry =>
        rw [repA.card_written_old found]
        omega
    have enforcedA := runA.enforced repA bounded (settledA.keys_written repA nonempty)
    have enforcedB := runB.enforced repB bounded (settledB.keys_written repB nonempty)
    refine (enforcedA.alike enforcedB written ?_ size ?_).mono swept.2
    · exact fun e member e' member' same => repA.written.key_unique member member' same
    · exact fun e member e' member' same => (runA.rep repA).key_unique member member' same

/-- Each `Set` of the calls finds an entry of its key in both runs or in neither. -/
def FindAlike (store store' : ConcurrentStore cfg) (calls : List TimedCall) : Prop :=
  ∀ front key value ttl clock back a b past past' earlier earlier',
    calls = front ++ (.set key value ttl, clock) :: back → Run store front a past earlier →
    Run store' front b past' earlier' → ((a.find key).isSome ↔ (b.find key).isSome)

/-- Without a limit, the answers depend on what is visible. -/
theorem answers_unbounded (unbounded : cfg.maxEntries = 0) {calls : List TimedCall} {now : Int}
    (repA : a.Rep) (repB : b.Rep) (same : ∀ key, a.visible now key = b.visible now key)
    (order : Chronological calls) (early : ∀ call ∈ calls, now ≤ call.2 0)
    (runA : Run a calls a' made results) (runB : Run b calls b' made' results') :
    results = results' := by
  refine answers_alike (fun now a b => ∀ key, a.visible now key = b.visible now key)
    (fun _ _ _ => True) ?_ ?_ repA repB same order early runA runB ?_
  · exact fun now later a b _ _ same le key => ConcurrentStore.visible_mono le (same key)
  · intro now a b call a' b' _ _ _ _ repA repB same _ le first second runA runB
    exact visible_next unbounded repA repB same le first second runA runB
  · exact fun _ _ _ _ _ _ _ _ _ _ _ _ => trivial

/-- With a limit, the answers from alike stores are the same if the `Set`s find alike. -/
theorem answers_bounded (bounded : cfg.maxEntries ≠ 0) {calls : List TimedCall} {now : Int}
    (repA : a.Rep) (repB : b.Rep) (alike : Alike now a.contents b.contents)
    (settledA : a.Settled) (settledB : b.Settled) (keys : ∀ call ∈ calls, call.1.key ≠ [])
    (order : Chronological calls) (early : ∀ call ∈ calls, now ≤ call.2 0)
    (runA : Run a calls a' made results) (runB : Run b calls b' made' results')
    (finds : FindAlike a b calls) : results = results' := by
  refine answers_alike
    (fun now a b => Alike now a.contents b.contents ∧ a.Settled ∧ b.Settled)
    (fun call a b => call.1.key ≠ [] ∧ ∀ key value ttl, call.1 = .set key value ttl →
      ((a.find key).isSome ↔ (b.find key).isSome)) ?_ ?_ repA repB ⟨alike, settledA, settledB⟩
    order early runA runB ?_
  · intro now later a b repA repB related le
    exact ConcurrentStore.visible_of_alike repA repB (related.1.mono le)
  · intro now a b call a' b' _ _ _ _ repA repB related good le first second runA runB
    obtain ⟨alike, settledA, settledB⟩ := related
    refine ⟨alike_next bounded repA repB alike settledA settledB good.1 good.2 le first second
      runA runB, ?_, ?_⟩
    · exact settled_call bounded repA settledA good.1 runA
    · exact settled_call bounded repB settledB good.1 runB
  · rintro front ⟨request, clock⟩ back x y past past' earlier earlier' split before before'
    refine ⟨keys _ (by simp [split]), ?_⟩
    rintro key value ttl rfl
    exact finds front key value ttl clock back x y _ _ _ _ split before before'

/-- Without the expired entry of a key, the contents are alike. -/
theorem alike_erase {now : Int} {key : Bytes} {entry : ValueEntry} {store : ConcurrentStore cfg}
    (rep : store.Rep) (expired : entry.isExpired now) :
    Alike now store.contents (store.contents.erase ⟨key, entry⟩) := by
  refine ⟨?_, fun e member e' member' same => ?_⟩
  · ext e
    rw [mem_live, mem_live, Finset.mem_erase, and_assoc]
    refine (and_iff_right_of_imp ?_).symm
    rintro ⟨-, alive⟩ rfl
    exact alive expired
  · exact rep.key_unique member (Finset.mem_of_mem_erase member') same

/-- An extra `Get` of an expired entry changes no later answer, if no later `Set` finds an entry of
its key in one of the two runs only. -/
theorem expired_as_absent {history later : List TimedCall} {past during : List Int}
    {earlier answer : List (Option Bytes)} {store middle after after' : ConcurrentStore cfg}
    {key : Bytes} {extra : Nat → Int} {entry : ValueEntry}
    (reached : Run (ConcurrentStore.new cfg) history store past earlier)
    (keys : ∀ call ∈ history ++ later, call.1.key ≠ [])
    (order : Chronological ((.get key, extra) :: later))
    (found : store.find key = some entry) (expired : entry.isExpired (extra 1))
    (get : Run store [(.get key, extra)] middle during answer)
    (run : Run store later after made results) (run' : Run middle later after' made' results')
    (finds : cfg.maxEntries ≠ 0 → FindAlike store middle later) :
    answer = [none] ∧ middle.contents = store.contents.erase ⟨key, entry⟩ ∧
      results' = results := by
  have rep := reached.rep (ConcurrentStore.new_rep cfg)
  have rep' := get.rep rep
  obtain ⟨agree, answer_eq, -⟩ := get.get rep
  have gone : store.getSection key (extra 1) = (store.eraseEntry key entry, none) := by
    rw [ConcurrentStore.getSection, found]
    exact if_pos expired
  rw [gone] at agree answer_eq
  have contents : middle.contents = store.contents.erase ⟨key, entry⟩ :=
    agree.contents.trans (rep.contents_eraseEntry found)
  refine ⟨answer_eq, contents, ?_⟩
  have alike : Alike (extra 1) store.contents middle.contents := contents ▸ alike_erase rep expired
  obtain ⟨-, second, order', across⟩ := order.cons
  have early : ∀ call ∈ later, extra 1 ≤ call.2 0 := fun call member =>
    second.trans (across call member)
  by_cases unbounded : cfg.maxEntries = 0
  · exact (answers_unbounded unbounded rep rep' (ConcurrentStore.visible_of_alike rep rep' alike)
      order' early run run').symm
  · have settled : store.Settled := reached.settled unbounded fun call member =>
      keys call (List.mem_append_left later member)
    have next := settled.getSection rep key (extra 1)
    rw [gone] at next
    have settled' : middle.Settled := ⟨agree.contents ▸ next.keys, agree.contents ▸ next.room⟩
    have keys' : ∀ call ∈ later, call.1.key ≠ [] := fun call member =>
      keys call (List.mem_append_right history member)
    exact (answers_bounded unbounded rep rep' alike settled settled' keys' order' early run run'
      (finds unbounded)).symm

/-- One entry that expires after a millisecond. -/
def shortLived : List TimedCall := [(.set (ascii "a") (ascii "x") (some 1), fun n => n)]

/-- A `Get` after the millisecond. -/
def lateGet : TimedCall := (.get (ascii "a"), fun n => n + 2000000)

/-- Another key is written and read back. -/
def otherKey : List TimedCall :=
  [(.set (ascii "b") (ascii "y") none, fun n => n + 2000003),
    (.get (ascii "b"), fun n => n + 2000006)]

/-- The other key is read back alike, with the expired entry in the store and without it. -/
theorem expired_as_absent_other : ∃ (store middle after after' : ConcurrentStore pairConfig)
    (past during made made' : List Int) (results : List (Option Bytes)),
    Run (ConcurrentStore.new pairConfig) shortLived store past [] ∧
      Run store [lateGet] middle during [none] ∧ Run store otherKey after made results ∧
      Run middle otherKey after' made' results := by
  have first : ((ConcurrentStore.new pairConfig).runAll shortLived).bind (fun r =>
      (r.1.runAll [lateGet]).map fun g => (r.1.find (ascii "a"),
        [r.1.find (ascii "b"), g.1.find (ascii "b")], r.2.2)) =
      some (some ⟨ascii "x", some 1000000, 1, 1, false⟩, [none, none], []) := by decide
  obtain ⟨⟨store, past, earlier⟩, ends, rest⟩ := Option.bind_eq_some_iff.mp first
  obtain ⟨⟨middle, during, answer⟩, ends', same⟩ := Option.map_eq_some_iff.mp rest
  obtain ⟨found, ⟨absent, absent'⟩, rfl⟩ : store.find (ascii "a") = _ ∧
    (store.find (ascii "b") = none ∧ middle.find (ascii "b") = none) ∧ earlier = [] := by
      simpa using same
  have reached := of_runAll ends
  have get := of_runAll ends'
  have rep := reached.rep (ConcurrentStore.new_rep _)
  obtain ⟨after, made, results, run⟩ := total rep otherKey
  obtain ⟨after', made', results', run'⟩ := total (get.rep rep) otherKey
  have finds : FindAlike store middle otherKey := by
    intro front key value ttl clock back a b _ _ _ _ split before before'
    cases front with
    | nil =>
      cases split
      cases before
      cases before'
      rw [absent, absent']
    | cons _ front => cases front <;> simp [otherKey] at split
  obtain ⟨rfl, -, rfl⟩ := expired_as_absent reached (by decide) (by unfold Chronological; decide)
    found (by decide) get run run' fun _ => finds
  exact ⟨store, middle, after, after', past, during, made, made', results', reached, get, run, run'⟩

/-- The calls that overwrite the expired entry, fill the store and read the key. -/
def overwrite : List TimedCall :=
  [(.set (ascii "a") (ascii "z") none, fun n => n + 2000003),
    (.set (ascii "b") (ascii "y") none, fun n => n + 2000006),
    (.set (ascii "c") (ascii "y") none, fun n => n + 2000009),
    (.get (ascii "a"), fun n => n + 2000012)]

/-- A `Set` that overwrites an expired entry promotes it, and its key outlasts one that was inserted
anew. -/
theorem overwritten_expired_kept : ∃ (store middle after after' : ConcurrentStore pairConfig)
    (past during made made' : List Int) (entry : ValueEntry),
    Run (ConcurrentStore.new pairConfig) shortLived store past [] ∧
      Chronological (shortLived ++ lateGet :: overwrite) ∧
      store.find (ascii "a") = some entry ∧ entry.isExpired (lateGet.2 0) ∧
      Run store [lateGet] middle during [none] ∧
      Run store overwrite after made [some (ascii "z")] ∧
      Run middle overwrite after' made' [none] := by
  have runs : ((ConcurrentStore.new pairConfig).runAll shortLived).bind (fun r =>
      (r.1.runAll [lateGet]).bind fun g => (r.1.runAll overwrite).bind fun x =>
        (g.1.runAll overwrite).map fun y =>
          (r.1.find (ascii "a"), [r.2.2, g.2.2, x.2.2, y.2.2])) =
      some (some ⟨ascii "x", some 1000000, 1, 1, false⟩,
        [[], [none], [some (ascii "z")], [none]]) := by decide
  obtain ⟨⟨store, past, earlier⟩, ends, rest⟩ := Option.bind_eq_some_iff.mp runs
  obtain ⟨⟨middle, during, answer⟩, endsGet, rest⟩ := Option.bind_eq_some_iff.mp rest
  obtain ⟨⟨after, made, results⟩, ends₁, rest⟩ := Option.bind_eq_some_iff.mp rest
  obtain ⟨⟨after', made', results'⟩, ends₂, same⟩ := Option.map_eq_some_iff.mp rest
  obtain ⟨found, rfl, rfl, rfl, rfl⟩ : store.find (ascii "a") = _ ∧ earlier = [] ∧
    answer = [none] ∧ results = [some (ascii "z")] ∧ results' = [none] := by simpa using same
  exact ⟨store, middle, after, after', past, during, made, made', _, of_runAll ends,
    by unfold Chronological; decide, found, by decide, of_runAll endsGet, of_runAll ends₁,
    of_runAll ends₂⟩

end Run

end DistributedCache.Core
