import Mathlib.Data.List.Basic

/-! Streams that are cut into frames while they arrive in chunks.  A receiver keeps what it could
not yet cut, and gives up when that grows beyond a limit.  The rules say what it has cut in terms of
the stream alone. -/

namespace Lib

/-- How to cut the first frame off a stream: the frame and the stream after it.  A cut depends only
on what it removes. -/
structure Framing (α β : Type) where
  cut : List α → Option (β × List α)
  exact_cut : ∀ {s f rest}, cut s = some (f, rest) → ∃ bytes, bytes ≠ [] ∧ s = bytes ++ rest ∧
    ∀ t, cut (bytes ++ t) = some (f, t)

namespace Framing

variable {α β : Type} (F : Framing α β)

/-- The frames that can be cut off a stream, one after the other, and what is left of it. -/
inductive Splits : List α → List β → List α → Prop
  | stuck {s} : F.cut s = none → Splits s [] s
  | next {s f rest fs r} : F.cut s = some (f, rest) → Splits rest fs r → Splits s (f :: fs) r

/-- What is left of a stream after some of its frames. -/
inductive Reaches : List α → List α → Prop
  | refl {s} : Reaches s s
  | cut {s f rest t} : F.cut s = some (f, rest) → Reaches rest t → Reaches s t

/-- No frame of the stream is longer than `limit`. -/
def Short (limit : Nat) (s : List α) : Prop :=
  ∀ t f rest, F.Reaches s t → F.cut t = some (f, rest) → t.length ≤ rest.length + limit

/-- The receiver with `pending` left from earlier chunks: the frames that it cuts, what it is left
with, and whether it has given up. -/
inductive Receives (limit : Nat) : List α → List (List α) → List β → List α → Bool → Prop
  | done {pending} : Receives limit pending [] [] pending false
  | more {pending chunk chunks fs r gs r' gaveUp} : F.Splits (pending ++ chunk) fs r →
      r.length ≤ limit → Receives limit r chunks gs r' gaveUp →
      Receives limit pending (chunk :: chunks) (fs ++ gs) r' gaveUp
  | giveUp {pending chunk chunks fs r} : F.Splits (pending ++ chunk) fs r → limit < r.length →
      Receives limit pending (chunk :: chunks) fs r true

variable {F}

theorem cut_append {s rest : List α} {f : β} (h : F.cut s = some (f, rest)) (t : List α) :
    F.cut (s ++ t) = some (f, rest ++ t) := by
  obtain ⟨bytes, -, rfl, any⟩ := F.exact_cut h
  rw [List.append_assoc]
  exact any _

theorem cut_shorter {s rest : List α} {f : β} (h : F.cut s = some (f, rest)) :
    rest.length < s.length := by
  obtain ⟨bytes, nonempty, rfl, -⟩ := F.exact_cut h
  have := List.length_pos_of_ne_nil nonempty
  rw [List.length_append]
  omega

theorem Splits.exists (F : Framing α β) (s : List α) : ∃ fs r, F.Splits s fs r := by
  induction size : s.length using Nat.strongRecOn generalizing s with
  | _ n ih =>
    cases head : F.cut s with
    | none => exact ⟨[], s, .stuck head⟩
    | some p =>
      obtain ⟨fs, r, rest⟩ := ih _ (size ▸ cut_shorter head) p.2 rfl
      exact ⟨p.1 :: fs, r, .next head rest⟩

theorem Splits.unique {s r r' : List α} {fs fs' : List β} (h : F.Splits s fs r)
    (h' : F.Splits s fs' r') : fs = fs' ∧ r = r' := by
  induction h generalizing fs' with
  | stuck ended =>
    cases h' with
    | stuck => exact ⟨rfl, rfl⟩
    | next taken => simp [ended] at taken
  | next taken _ ih =>
    cases h' with
    | stuck ended => simp [taken] at ended
    | next taken' rest' =>
      rw [taken] at taken'
      cases taken'
      obtain ⟨rfl, rfl⟩ := ih rest'
      exact ⟨rfl, rfl⟩

theorem Splits.stuck_residue {s r : List α} {fs : List β} (h : F.Splits s fs r) :
    F.cut r = none := by
  induction h with
  | stuck ended => exact ended
  | next _ _ ih => exact ih

/-- What is left of a stream carries on where the stream stopped. -/
theorem Splits.append {s t r r' : List α} {fs gs : List β} (h : F.Splits s fs r)
    (h' : F.Splits (r ++ t) gs r') : F.Splits (s ++ t) (fs ++ gs) r' := by
  induction h with
  | stuck => exact h'
  | next taken _ ih => exact .next (cut_append taken t) (ih h')

theorem Splits.reaches {s r : List α} {fs : List β} (h : F.Splits s fs r) (t : List α) :
    F.Reaches (s ++ t) (r ++ t) := by
  induction h with
  | stuck => exact .refl
  | next taken _ ih => exact .cut (cut_append taken t) ih

theorem Reaches.length_le {s t : List α} (h : F.Reaches s t) : t.length ≤ s.length := by
  induction h with
  | refl => exact Nat.le_refl _
  | cut taken _ ih => exact Nat.le_trans ih (Nat.le_of_lt (cut_shorter taken))

/-- If no frame is as long as what is left of a stream, then nothing that follows gives a frame. -/
theorem Splits.append_long {s t r : List α} {fs : List β} {limit : Nat} (h : F.Splits s fs r)
    (long : limit < r.length) (short : F.Short limit (s ++ t)) :
    F.Splits (s ++ t) fs (r ++ t) := by
  have stuck : F.cut (r ++ t) = none := by
    cases head : F.cut (r ++ t) with
    | none => rfl
    | some p =>
      obtain ⟨bytes, -, split, any⟩ := F.exact_cut head
      have bound := short _ _ _ (h.reaches t) head
      rw [split, List.length_append] at bound
      obtain ⟨rest, rfl⟩ : ∃ rest, r = bytes ++ rest := by
        have := List.prefix_of_prefix_length_le (List.prefix_append bytes p.2)
          (split ▸ List.prefix_append r t) (by omega)
        exact this.imp fun _ => Eq.symm
      have ended := h.stuck_residue
      simp [any rest] at ended
  simpa using h.append (.stuck stuck)

theorem cut_nil : F.cut [] = none := by
  cases head : F.cut [] with
  | none => rfl
  | some p =>
    obtain ⟨bytes, nonempty, split, -⟩ := F.exact_cut head
    exact absurd (List.append_eq_nil_iff.mp split.symm).1 nonempty

/-- A stream made of short pieces, each of which is cut as a whole if at all, has short frames. -/
theorem short_flatten {limit : Nat} {pieces : List (List α)}
    (each : ∀ b ∈ pieces, b.length ≤ limit ∧
      ∀ t f rest, F.cut (b ++ t) = some (f, rest) → rest = t) :
    F.Short limit pieces.flatten := by
  induction pieces with
  | nil =>
    intro t f rest reaches head
    cases reaches with
    | refl => simp [cut_nil] at head
    | cut taken => simp [cut_nil] at taken
  | cons b pieces ih =>
    intro t f rest reaches head
    obtain ⟨bound, whole⟩ := each b (by simp)
    rw [List.flatten_cons] at reaches
    cases reaches with
    | refl =>
      obtain rfl := whole _ _ _ head
      rw [List.length_append]
      omega
    | cut taken reaches =>
      obtain rfl := whole _ _ _ taken
      exact ih (fun c member => each c (by simp [member])) t f rest reaches head

theorem Receives.exists (F : Framing α β) (limit : Nat) (pending : List α)
    (chunks : List (List α)) :
    ∃ fs r gaveUp, F.Receives limit pending chunks fs r gaveUp := by
  induction chunks generalizing pending with
  | nil => exact ⟨_, _, _, .done⟩
  | cons chunk chunks ih =>
    obtain ⟨fs, r, splits⟩ := Splits.exists F (pending ++ chunk)
    rcases Nat.lt_or_ge limit r.length with long | fits
    · exact ⟨_, _, _, .giveUp splits long⟩
    · obtain ⟨gs, r', gaveUp, rest⟩ := ih r
      exact ⟨_, _, _, .more splits fits rest⟩

/-- A receiver that has not given up has split the whole stream. -/
theorem Receives.splits {limit : Nat} {pending r : List α} {chunks : List (List α)} {fs : List β}
    (h : F.Receives limit pending chunks fs r false) (stuck : F.cut pending = none) :
    F.Splits (pending ++ chunks.flatten) fs r := by
  induction chunks generalizing pending fs with
  | nil =>
    cases h
    simpa using Splits.stuck stuck
  | cons chunk chunks ih =>
    cases h with
    | more splits fits rest =>
      rw [List.flatten_cons, ← List.append_assoc]
      exact splits.append (ih rest splits.stuck_residue)

/-- A receiver that has given up has split the stream up to the end of some chunk, and was left
there with more than the limit. -/
theorem Receives.gaveUp {limit : Nat} {pending r : List α} {chunks : List (List α)} {fs : List β}
    (h : F.Receives limit pending chunks fs r true) (stuck : F.cut pending = none) :
    ∃ before after, chunks = before ++ after ∧ F.Splits (pending ++ before.flatten) fs r ∧
      limit < r.length := by
  induction chunks generalizing pending fs with
  | nil => cases h
  | cons chunk chunks ih =>
    cases h with
    | giveUp splits long => exact ⟨[chunk], chunks, rfl, by simpa using splits, long⟩
    | more splits fits rest =>
      obtain ⟨before, after, rfl, tail, long⟩ := ih rest splits.stuck_residue
      refine ⟨chunk :: before, after, rfl, ?_, long⟩
      rw [List.flatten_cons, ← List.append_assoc]
      exact splits.append tail

/-- A receiver that has not given up was left with at most the limit after every chunk. -/
theorem Receives.fits {limit : Nat} {pending r : List α} {chunks : List (List α)} {fs : List β}
    (h : F.Receives limit pending chunks fs r false) (stuck : F.cut pending = none)
    (small : pending.length ≤ limit) {before after : List (List α)}
    (cut : chunks = before ++ after) {gs : List β} {r' : List α}
    (splits' : F.Splits (pending ++ before.flatten) gs r') : r'.length ≤ limit := by
  induction chunks generalizing pending fs before gs with
  | nil =>
    obtain ⟨rfl, rfl⟩ := List.append_eq_nil_iff.mp cut.symm
    obtain ⟨-, rfl⟩ := (Splits.stuck stuck).unique (by simpa using splits')
    exact small
  | cons chunk chunks ih =>
    cases before with
    | nil =>
      obtain ⟨-, rfl⟩ := (Splits.stuck stuck).unique (by simpa using splits')
      exact small
    | cons first before =>
      obtain ⟨rfl, tails⟩ := List.cons.inj cut
      cases h with
      | more splits fits rest =>
        obtain ⟨hs, r'', tail⟩ := Splits.exists F (_ ++ before.flatten)
        have whole := splits.append tail
        rw [List.append_assoc, ← List.flatten_cons] at whole
        obtain ⟨-, rfl⟩ := splits'.unique whole
        exact ih rest splits.stuck_residue fits tails tail

/-- On a stream with short frames the receiver cuts what can be cut, and it gives up exactly when
more than the limit is left, wherever the chunks end. -/
theorem Receives.short {limit : Nat} {r : List α} {chunks : List (List α)} {fs : List β}
    {gaveUp : Bool} (h : F.Receives limit [] chunks fs r gaveUp)
    (short : F.Short limit chunks.flatten) :
    ∃ left, F.Splits chunks.flatten fs left ∧ (gaveUp = true ↔ limit < left.length) := by
  cases gaveUp with
  | false =>
    have splits := h.splits cut_nil
    refine ⟨r, splits, ?_⟩
    have fits := h.fits cut_nil (Nat.zero_le _) (List.append_nil chunks).symm splits
    simp [fits]
  | true =>
    obtain ⟨before, after, rfl, splits, long⟩ := h.gaveUp cut_nil
    rw [List.flatten_append] at short ⊢
    refine ⟨r ++ after.flatten, splits.append_long long short, ?_⟩
    rw [List.length_append]
    simp only [true_iff]
    omega

/-- On a stream that is one frame the receiver cuts it, unless more than the limit arrives before
the last chunk: then it gives up without having cut anything. -/
theorem Receives.single {limit : Nat} {r : List α} {chunks : List (List α)} {fs : List β}
    {gaveUp : Bool} (h : F.Receives limit [] chunks fs r gaveUp) {f : β}
    (whole : F.cut chunks.flatten = some (f, [])) (nonempty : ∀ chunk ∈ chunks, chunk ≠ []) :
    (gaveUp = false ∧ fs = [f] ∧ r = [] ∧
      ∀ before after, chunks = before ++ after → after ≠ [] → before.flatten.length ≤ limit) ∨
    (gaveUp = true ∧ fs = [] ∧
      ∃ before after, chunks = before ++ after ∧ after ≠ [] ∧ limit < before.flatten.length) := by
  have one : F.Splits chunks.flatten [f] [] := .next whole (.stuck cut_nil)
  have early_stuck : ∀ before after, chunks = before ++ after → after ≠ [] →
      F.Splits before.flatten [] before.flatten := by
    rintro before after rfl more
    refine .stuck ?_
    cases head : F.cut before.flatten with
    | none => rfl
    | some p =>
      rw [List.flatten_append, cut_append head, Option.some.injEq, Prod.mk.injEq] at whole
      obtain ⟨chunk, member⟩ := List.exists_mem_of_ne_nil after more
      have empty := (List.append_eq_nil_iff.mp whole.2).2
      exact absurd (List.flatten_eq_nil_iff.mp empty chunk member)
        (nonempty chunk (List.mem_append_right before member))
  cases gaveUp with
  | false =>
    obtain ⟨rfl, rfl⟩ := (h.splits cut_nil).unique one
    refine .inl ⟨rfl, rfl, rfl, fun before after split more => ?_⟩
    exact h.fits cut_nil (Nat.zero_le _) split (early_stuck before after split more)
  | true =>
    obtain ⟨before, after, split, splits, long⟩ := h.gaveUp cut_nil
    by_cases last : after = []
    · subst last
      rw [List.append_nil] at split
      subst split
      obtain ⟨-, rfl⟩ := splits.unique one
      exact absurd long (Nat.not_lt_zero _)
    · obtain ⟨rfl, rfl⟩ := splits.unique (early_stuck before after split last)
      exact .inr ⟨rfl, rfl, before, after, split, last, long⟩

/-! ### Frames cut so far -/

/-- Frames cut off a stream one after the other, not always as many as can be cut, and what is left
of it. -/
inductive Takes (F : Framing α β) : List α → List β → List α → Prop
  | nil {s} : Takes F s [] s
  | next {s f rest fs r} : F.cut s = some (f, rest) → Takes F rest fs r → Takes F s (f :: fs) r

theorem Takes.append {s r : List α} {fs : List β} (h : F.Takes s fs r) (t : List α) :
    F.Takes (s ++ t) fs (r ++ t) := by
  induction h with
  | nil => exact .nil
  | next taken _ ih => exact .next (cut_append taken t) ih

theorem Takes.snoc {s r rest : List α} {fs : List β} {f : β} (h : F.Takes s fs r)
    (last : F.cut r = some (f, rest)) : F.Takes s (fs ++ [f]) rest := by
  induction h with
  | nil => exact .next last .nil
  | next taken _ ih => exact .next taken (ih last)

theorem Takes.splits {s r : List α} {fs : List β} (h : F.Takes s fs r) (stuck : F.cut r = none) :
    F.Splits s fs r := by
  induction h with
  | nil => exact .stuck stuck
  | next taken _ ih => exact .next taken (ih stuck)

end Framing

end Lib
