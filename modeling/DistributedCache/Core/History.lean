import DistributedCache.Core.Interleaving

/-! What a `Get` returns, in terms of the history of sections before it. -/

namespace DistributedCache.Core

open Lib

namespace Event

/-- What the section of a `Set` of `key` wrote. -/
def write (key : Bytes) : Event → Option (Bytes × Option Int)
  | wrote written value expiresAt => if written = key then some (value, expiresAt) else none
  | _ => none

/-- The reading of the clock that a section of a `Get` took. -/
def reading : Event → Option Int
  | looked _ now => some now
  | returned _ reading _ => reading
  | _ => none

end Event

/-- What the last `Set` of `key` among `events` wrote. -/
def lastWrite (key : Bytes) (events : List Event) : Option (Bytes × Option Int) :=
  events.reverse.findSome? (Event.write key)

/-- The readings of the clock that sections took, in order. -/
def readings (events : List Event) : List Int := events.filterMap Event.reading

theorem lastWrite_snoc (key : Bytes) (events : List Event) (event : Event) :
    lastWrite key (events ++ [event]) = (event.write key).or (lastWrite key events) := by
  cases h : event.write key <;> simp [lastWrite, h]

namespace ConcurrentStore

variable {cfg : Config} {store store' : ConcurrentStore cfg}

/-- Every entry of `store'` has the value and the expiry of the entry of its key in `store`. -/
def Retains (store store' : ConcurrentStore cfg) : Prop :=
  ∀ key entry', store'.find key = some entry' → ∃ entry, store.find key = some entry ∧
    entry.value = entry'.value ∧ entry.expiresAt = entry'.expiresAt

theorem Retains.refl (store : ConcurrentStore cfg) : store.Retains store :=
  fun _ entry found => ⟨entry, found, rfl, rfl⟩

theorem put_retains {key : Bytes} {entry entry' : ValueEntry} (found : store.find key = some entry)
    (value : entry.value = entry'.value) (expiry : entry.expiresAt = entry'.expiresAt) :
    store.Retains (store.put key entry') := by
  intro other entry'' found'
  by_cases same : other = key
  · subst same
    rw [find_put_self] at found'
    cases found'
    exact ⟨entry, found, value, expiry⟩
  · rw [find_put_ne same] at found'
    exact ⟨entry'', found', rfl, rfl⟩

theorem eraseEntry_retains (store : ConcurrentStore cfg) (key : Bytes) (entry : ValueEntry) :
    store.Retains (store.eraseEntry key entry) := by
  intro other entry' found
  by_cases same : other = key
  · subst same
    simp at found
  · rw [find_eraseEntry_ne same] at found
    exact ⟨entry', found, rfl, rfl⟩

/-- A section that drops entries of a stripe or reorders them retains the rest. -/
theorem subset_retains {i : Fin cfg.stripeCount} {map : Stripe} {total prot : Nat}
    (subset : map.entries ⊆ (store.stripes i).entries) :
    store.Retains ⟨Function.update store.stripes i map, total, prot⟩ := by
  intro key entry found
  refine ⟨entry, lookup_eq_some_iff.mpr ?_, rfl, rfl⟩
  have member := lookup_eq_some_iff.mp found
  unfold stripeFor at member ⊢
  by_cases same : cfg.stripeIndexForKey key = i
  · subst same
    exact subset (by simpa using member)
  · simpa [same] using member

theorem getSection_retains (store : ConcurrentStore cfg) (key : Bytes) (now : Int) :
    store.Retains (store.getSection key now).1 := by
  unfold getSection
  split
  · exact .refl store
  · rename_i entry found
    split
    · exact eraseEntry_retains store key entry
    · exact put_retains found (by simp) (by simp)

theorem sweepStripe_retains (now : Int) (store : ConcurrentStore cfg) (i : Fin cfg.stripeCount) :
    store.Retains (store.sweepStripe now i) := by
  refine subset_retains fun e member => ?_
  rw [show (AList.mk _ _ : Stripe).entries = _ from sweepEntries_kept ..] at member
  exact (List.mem_filter.mp member).1

theorem demoteSection_retains (store : ConcurrentStore cfg) (victim : Bytes) :
    store.Retains (store.demoteSection victim) := by
  unfold demoteSection
  split
  · exact .refl store
  · rename_i entry found
    split
    · exact put_retains found rfl rfl
    · exact .refl store

theorem evictSection_retains (store : ConcurrentStore cfg) (victim : Bytes) :
    store.Retains (store.evictSection victim) := by
  unfold evictSection
  split
  · exact .refl store
  · exact eraseEntry_retains store victim _

theorem find_reorder {i : Fin cfg.stripeCount} {map : Stripe}
    (perm : map.entries.Perm (store.stripes i).entries) (key : Bytes) :
    ({ store with stripes := Function.update store.stripes i map } : ConcurrentStore cfg).find key =
      store.find key := by
  unfold find stripeFor
  by_cases same : cfg.stripeIndexForKey key = i
  · subst same
    simpa using AList.perm_lookup perm
  · simp [same]

/-- Every stored entry is what the last `Set` of its key wrote. -/
def Recorded (events : List Event) (store : ConcurrentStore cfg) : Prop :=
  ∀ key entry, store.find key = some entry →
    lastWrite key events = some (entry.value, entry.expiresAt)

/-- A key without an entry was never written, or its last `Set` had expired at some reading. -/
def Accounted (events : List Event) (store : ConcurrentStore cfg) : Prop :=
  ∀ key, store.find key = none → lastWrite key events = none ∨ ∃ value expiry now,
    lastWrite key events = some (value, some expiry) ∧ now ∈ readings events ∧ expiry ≤ now

end ConcurrentStore

namespace Call

variable {cfg : Config} {store store' : ConcurrentStore cfg} {call call' : Call cfg}
  {action : Action} {event : Event}

/-- The call is outside `EnforceCapacity`. -/
def Plain : Call cfg → Prop
  | idle | setSection .. | getShared _ | getExclusive _ => True
  | _ => False

/-- A step is the section of a `Set`, or writes nothing and changes no value or expiry. -/
theorem advance_writes (moved : call.advance store action = some (store', call', event)) :
    (∃ key value expiresAt now, store' = store.setSection key value expiresAt now ∧
        event = .wrote key value expiresAt) ∨
      (store.Retains store' ∧ ∀ key, event.write key = none) := by
  cases advance_sound moved with
  | callSet key value expiresAt now =>
    exact .inr ⟨.refl store, fun _ => rfl⟩
  | callGet key =>
    exact .inr ⟨.refl store, fun _ => rfl⟩
  | reorder perm =>
    exact .inr ⟨ConcurrentStore.subset_retains perm.subset, fun _ => rfl⟩
  | proceed clock moved =>
    cases call with
    | idle => cases moved
    | setSection key value expiresAt now =>
      cases moved
      exact .inl ⟨key, value, expiresAt, now, rfl, rfl⟩
    | sweep now i =>
      cases moved
      exact .inr ⟨ConcurrentStore.sweepStripe_retains now store i, fun _ => rfl⟩
    | demote victim =>
      cases moved
      exact .inr ⟨ConcurrentStore.demoteSection_retains store victim, fun _ => rfl⟩
    | evict victim =>
      cases moved
      exact .inr ⟨ConcurrentStore.evictSection_retains store victim, fun _ => rfl⟩
    | getExclusive key =>
      cases moved
      exact .inr ⟨ConcurrentStore.getSection_retains store key clock, fun _ => rfl⟩
    | getShared key =>
      simp only [proceed] at moved
      split at moved <;> cases moved <;> exact .inr ⟨.refl store, fun _ => rfl⟩
    | loadTotal | reloadTotal | loadProtected | demoteScan | evictScan =>
      cases moved
      exact .inr ⟨.refl store, fun _ => rfl⟩

/-- A `Get` returns nothing if it finds no entry or an expired one, and else the entry's value. -/
theorem advance_returned {key : Bytes} {reading : Option Int} {result : Option Bytes}
    (moved : call.advance store action = some (store', call', .returned key reading result)) :
    (store.find key = none ∧ result = none) ∨ ∃ entry now, store.find key = some entry ∧
      reading = some now ∧ ((entry.isExpired now = true ∧ result = none) ∨
        (entry.isExpired now = false ∧ result = some entry.value)) := by
  cases advance_sound moved with
  | proceed clock moved =>
    cases call with
    | getShared key' =>
      simp only [proceed] at moved
      split at moved
      · rename_i absent
        cases moved
        exact .inl ⟨absent, rfl⟩
      · simp at moved
    | getExclusive key' =>
      simp only [proceed, Option.some.injEq, Prod.mk.injEq, Event.returned.injEq] at moved
      obtain ⟨-, -, rfl, rfl, rfl⟩ := moved
      unfold ConcurrentStore.getSection
      cases found : store.find key' with
      | none => exact .inl ⟨rfl, rfl⟩
      | some entry =>
        refine .inr ⟨entry, clock, rfl, rfl, ?_⟩
        cases expired : entry.isExpired clock <;> simp [expired]
    | _ => simp [proceed] at moved

/-- Outside `EnforceCapacity`, an entry disappears only by expiry, in a `Get` of its key. -/
theorem advance_dropped {key : Bytes} (plain : call.Plain)
    (moved : call.advance store action = some (store', call', event))
    (absent : store'.find key = none) :
    (store.find key = none ∧ event.write key = none) ∨ ∃ entry now,
      store.find key = some entry ∧ entry.isExpired now = true ∧
        event = .returned key (some now) none := by
  cases advance_sound moved with
  | callSet key value expiresAt now =>
    exact .inl ⟨absent, rfl⟩
  | callGet key =>
    exact .inl ⟨absent, rfl⟩
  | reorder perm =>
    rw [ConcurrentStore.find_reorder perm] at absent
    exact .inl ⟨absent, rfl⟩
  | proceed clock moved =>
    cases call with
    | idle => cases moved
    | setSection key' value expiresAt now =>
      cases moved
      by_cases same : key = key'
      · subst same
        obtain ⟨entry, found, -⟩ :=
          ConcurrentStore.find_setSection_self store key value expiresAt now
        simp [found] at absent
      · rw [ConcurrentStore.find_setSection_ne store value expiresAt now same] at absent
        exact .inl ⟨absent, by simp [Event.write, Ne.symm same]⟩
    | getShared key' =>
      simp only [proceed] at moved
      split at moved <;> cases moved <;> exact .inl ⟨absent, rfl⟩
    | getExclusive key' =>
      simp only [proceed, Option.some.injEq, Prod.mk.injEq] at moved
      obtain ⟨rfl, -, rfl⟩ := moved
      unfold ConcurrentStore.getSection at absent ⊢
      cases found : store.find key' with
      | none =>
        simp only [found] at absent
        exact .inl ⟨absent, rfl⟩
      | some entry =>
        by_cases same : key = key'
        · subst same
          cases expired : entry.isExpired clock with
          | false => simp [found, expired, ConcurrentStore.find_touch_self] at absent
          | true => exact .inr ⟨entry, clock, found, expired, by simp [expired]⟩
        · cases expired : entry.isExpired clock with
          | false =>
            simp only [found, expired, Bool.false_eq_true, if_false,
              ConcurrentStore.find_touch_ne clock same] at absent
            exact .inl ⟨absent, rfl⟩
          | true =>
            simp only [found, expired, if_true, ConcurrentStore.find_eraseEntry_ne same] at absent
            exact .inl ⟨absent, rfl⟩
    | _ => exact absurd plain id

theorem advance_plain (unbounded : cfg.maxEntries = 0) (plain : call.Plain)
    (moved : call.advance store action = some (store', call', event)) : call'.Plain := by
  cases advance_sound moved with
  | callSet key value expiresAt now =>
    trivial
  | callGet key =>
    trivial
  | reorder =>
    exact plain
  | proceed clock moved =>
    cases call with
    | idle => cases moved
    | setSection key value expiresAt now =>
      cases moved
      rw [enforceCapacity, if_pos unbounded]
      trivial
    | getShared key =>
      simp only [proceed] at moved
      split at moved <;> cases moved <;> trivial
    | getExclusive key =>
      cases moved
      trivial
    | _ => exact absurd plain id

theorem advance_recorded {events : List Event} (recorded : store.Recorded events)
    (moved : call.advance store action = some (store', call', event)) :
    store'.Recorded (events ++ [event]) := by
  intro key entry found
  rw [lastWrite_snoc]
  rcases advance_writes moved with ⟨written, value, expiresAt, now, rfl, rfl⟩ | ⟨retains, silent⟩
  · by_cases same : key = written
    · subst same
      obtain ⟨entry', found', rfl, rfl⟩ :=
        ConcurrentStore.find_setSection_self store key value expiresAt now
      obtain rfl : entry' = entry := Option.some.inj (found'.symm.trans found)
      simp [Event.write]
    · rw [ConcurrentStore.find_setSection_ne store value expiresAt now same] at found
      simp [Event.write, Ne.symm same, recorded key entry found]
  · obtain ⟨entry', found', value, expiry⟩ := retains key entry found
    rw [silent key, Option.none_or, recorded key entry' found', value, expiry]

theorem advance_accounted {events : List Event} (plain : call.Plain)
    (recorded : store.Recorded events) (accounted : store.Accounted events)
    (moved : call.advance store action = some (store', call', event)) :
    store'.Accounted (events ++ [event]) := by
  intro key absent
  rw [lastWrite_snoc, readings, List.filterMap_append]
  rcases advance_dropped plain moved absent with
    ⟨before, silent⟩ | ⟨entry, now, found, expired, rfl⟩
  · rw [silent, Option.none_or]
    refine (accounted key before).imp_right fun ⟨value, expiry, now, written, read, past⟩ => ?_
    exact ⟨value, expiry, now, written, List.mem_append_left _ read, past⟩
  · obtain ⟨expiry, expires, past⟩ := ValueEntry.isExpired_iff.mp expired
    refine .inr ⟨entry.value, expiry, now, ?_, by simp [Event.reading], past⟩
    simp [Event.write, recorded key entry found, expires]

end Call

/-- What the section in which a `Get` of `key` returns `result` owes to the sections `before` it.
A value is what the last `Set` of the key wrote, not expired at the reading of the section.  Where
nothing is ever evicted and the clock does not go back, the `Get` returns nothing only if the key
was never set or its last `Set` had expired at the last reading of the clock. -/
def Answers (cfg : Config) (before : List Event) (key : Bytes) (reading : Option Int)
    (result : Option Bytes) : Prop :=
  (∀ value, result = some value → ∃ expiresAt now, lastWrite key before = some (value, expiresAt) ∧
      reading = some now ∧ ∀ expiry, expiresAt = some expiry → now < expiry) ∧
    (cfg.maxEntries = 0 →
      (readings (before ++ [.returned key reading result])).Pairwise (· ≤ ·) → result = none →
      lastWrite key before = none ∨ ∃ value expiry now,
        lastWrite key before = some (value, some expiry) ∧
        (readings (before ++ [.returned key reading result])).getLast? = some now ∧ expiry ≤ now)

/-- The last element of an ordered list is its greatest. -/
theorem exists_getLast_ge {xs : List Int} (ordered : xs.Pairwise (· ≤ ·)) {x : Int}
    (member : x ∈ xs) : ∃ last, xs.getLast? = some last ∧ x ≤ last := by
  rcases List.eq_nil_or_concat xs with rfl | ⟨init, last, rfl⟩
  · cases member
  · rw [List.concat_eq_append] at ordered member ⊢
    refine ⟨last, by simp, ?_⟩
    rcases List.mem_append.mp member with early | late
    · exact (List.pairwise_append.mp ordered).2.2 x early last (by simp)
    · simp_all

theorem Call.advance_answers {cfg : Config} {store store' : ConcurrentStore cfg}
    {call call' : Call cfg} {action : Action} {events : List Event} {key : Bytes}
    {reading : Option Int} {result : Option Bytes} (recorded : store.Recorded events)
    (accounted : cfg.maxEntries = 0 → store.Accounted events)
    (moved : call.advance store action = some (store', call', .returned key reading result)) :
    Answers cfg events key reading result := by
  rcases advance_returned moved with ⟨absent, rfl⟩ | ⟨entry, now, found, rfl, outcome⟩
  · refine ⟨by simp, fun unbounded ordered _ => ?_⟩
    refine (accounted unbounded key absent).imp_right
      fun ⟨value, expiry, now, written, read, past⟩ => ?_
    have member : now ∈ readings (events ++ [.returned key reading none]) := by
      rw [readings, List.filterMap_append]
      exact List.mem_append_left _ read
    obtain ⟨last, isLast, later⟩ := exists_getLast_ge ordered member
    exact ⟨value, expiry, last, written, isLast, past.trans later⟩
  · have written := recorded key entry found
    rcases outcome with ⟨expired, rfl⟩ | ⟨fresh, rfl⟩
    · refine ⟨by simp, fun _ _ _ => .inr ?_⟩
      obtain ⟨expiry, expires, past⟩ := ValueEntry.isExpired_iff.mp expired
      exact ⟨entry.value, expiry, now, by rw [written, expires],
        by simp [readings, Event.reading], past⟩
    · refine ⟨?_, by simp⟩
      rintro value ⟨⟩
      refine ⟨entry.expiresAt, now, written, rfl, fun expiry expires => ?_⟩
      by_contra past
      have : entry.isExpired now = true :=
        ValueEntry.isExpired_iff.mpr ⟨expiry, expires, Int.not_lt.mp past⟩
      simp [this] at fresh

/-- After every schedule of concurrent calls, each `Get` that has returned answers to the sections
before the one in which it returned. -/
theorem get_answers {ι : Type} [DecidableEq ι] (cfg : Config) {schedule : List (ι × Action)}
    {after : Pool ι (ConcurrentStore cfg) (Call cfg)} {events before later : List Event}
    {key : Bytes} {reading : Option Int} {result : Option Bytes}
    (ran : (clients ι cfg).run (start ι cfg) schedule = some (after, events))
    (split : events = before ++ .returned key reading result :: later) :
    Answers cfg before key reading result := by
  refine (Program.run_induction (fun events (s : Pool ι (ConcurrentStore cfg) (Call cfg)) =>
    s.shared.Recorded events ∧ (cfg.maxEntries = 0 → s.shared.Accounted events ∧
      ∀ i, (s.thread i).Plain) ∧ ∀ before later key reading result,
        events = before ++ .returned key reading result :: later →
          Answers cfg before key reading result) ?_ ?_ ran).2.2 before later key reading result
    split
  · rintro events s ⟨i, action⟩ t event ⟨recorded, accounted, answers⟩ moved
    obtain ⟨shared, call, advanced, rfl⟩ := Program.step_eq_some.mp moved
    refine ⟨Call.advance_recorded recorded advanced, fun unbounded => ⟨?_, fun j => ?_⟩, ?_⟩
    · have plain := (accounted unbounded).2 i
      exact Call.advance_accounted plain recorded (accounted unbounded).1 advanced
    · by_cases same : j = i
      · subst same
        simpa using Call.advance_plain unbounded ((accounted unbounded).2 j) advanced
      · simpa [same] using (accounted unbounded).2 j
    · intro before later key reading result split
      rcases List.eq_nil_or_concat later with rfl | ⟨init, last, rfl⟩
      · obtain ⟨rfl, same⟩ := List.append_inj' split rfl
        obtain rfl : event = _ := List.singleton_inj.mp same
        exact Call.advance_answers recorded (fun unbounded => (accounted unbounded).1) advanced
      · rw [List.concat_eq_append, ← List.cons_append, ← List.append_assoc] at split
        exact answers before init key reading result (List.append_inj' split rfl).1
  · refine ⟨?_, fun _ => ⟨fun key _ => .inl rfl, fun i => trivial⟩, by simp⟩
    intro key entry found
    simp [start, ConcurrentStore.new, ConcurrentStore.find, ConcurrentStore.stripeFor] at found

/-- An unbounded store with two stripes. -/
def openConfig : Config := ⟨2, 0, fun key => if key = ascii "a" then 0 else 1⟩

/-- One client sets a key twice while another gets it, between its two sections once. -/
def overtaken : List (Bool × Action) :=
  [(false, .callSet (ascii "a") (ascii "x") (some 5) 0 0), (false, .proceed 1),
    (true, .callGet (ascii "a")), (true, .proceed 2),
    (false, .callSet (ascii "a") (ascii "y") none 3 3), (false, .proceed 4), (true, .proceed 5)]

theorem overtaken_answers : Answers openConfig
    [.called (ascii "a"), .wrote (ascii "a") (ascii "x") (some 5000000), .called (ascii "a"),
      .looked (ascii "a") 2, .called (ascii "a"), .wrote (ascii "a") (ascii "y") none]
    (ascii "a") (some 5) (some (ascii "y")) :=
  have ran : ((clients Bool openConfig).run (start Bool openConfig) overtaken).isSome =
    true := by decide
  get_answers openConfig (Option.some_get ran).symm
    (show _ = _ ++ _ :: [] from by decide)

end DistributedCache.Core
