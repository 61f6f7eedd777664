import DistributedCache.Replication.Acknowledgement
import Mathlib.Data.Set.Finite.Lemmas

/-! Strong writes.  A majority of the replicas keeps every strong write that was acknowledged.  The
policy decides a strong write again only in calls that name its index, so a write whose quorum an
acknowledgement of a later index completes is left undecided. -/

namespace DistributedCache.Replication

open Lib

namespace AckPolicy

variable {replicaCount : Nat} {policy : AckPolicy replicaCount} {history : History}

/-! ### A majority keeps the acknowledged writes -/

/-- The strong writes that results have reported as acknowledged. -/
def History.ackedStrong (history : History) : Set Nat :=
  {i | ∃ call result, (call, .ok result) ∈ history ∧ result.logIndex = i ∧ result.acked = true ∧
    history.WrittenAs i .strongReplicaQuorum}

/-- A quorum holds each strong write that was acknowledged. -/
theorem quorum_of_ackedStrong {calls : List Call} {i : Nat}
    (acked : i ∈ (record replicaCount calls).ackedStrong) :
    replicaCount / 2 + 1 ≤ (reached replicaCount calls).replicaStream.ackCount i := by
  obtain ⟨call, result, member, rfl, acked, strong⟩ := acked
  have tracks := tracks_reached replicaCount calls
  obtain ⟨before, later, split⟩ := List.append_of_mem member
  have reports := reports_of_split split
  rw [List.append_cons] at split
  rcases reports.acked.mp acked with fast | ⟨-, positive, quorum⟩
  · have fast' := fast.append later
    rw [← split, ← tracks.modes, (tracks.modes _ _).mpr strong] at fast'
    cases fast'
  · rw [tracks.ackCount (tracks.indices _ _ strong).1, split]
    rw [reports.required, if_neg (by omega), reports.replicaAcks] at quorum
    exact quorum.trans
      (Set.ncard_le_ncard (History.holders_append _ _ _ _) (History.holders_finite _ _ _))

/-- Replicas that are too many to miss a quorum have a member with every index that a quorum
holds. -/
theorem exists_holder {stream : ReplicaStream replicaCount} {i : Nat}
    (quorum : replicaCount / 2 + 1 ≤ stream.ackCount i) {S : Finset (Fin replicaCount)}
    (large : replicaCount - (replicaCount / 2 + 1) < S.card) :
    ∃ r ∈ S, i ≤ stream.replicaProgress r := by
  rw [ackCount_eq_card] at quorum
  have meets := Finset.inter_nonempty_of_card_lt_card_add_card (Finset.subset_univ S)
    (Finset.subset_univ (Finset.univ.filter fun r => i ≤ stream.replicaProgress r))
    (by rw [Finset.card_univ, Fintype.card_fin]; omega)
  obtain ⟨r, member⟩ := meets
  obtain ⟨inS, holds⟩ := Finset.mem_inter.mp member
  exact ⟨r, inS, (Finset.mem_filter.mp holds).2⟩

/-- In every set of replicas that is too large to miss a quorum, one replica has all strong writes
that were acknowledged. -/
theorem majority_keeps_acked (calls : List Call) {S : Finset (Fin replicaCount)}
    (large : replicaCount - (replicaCount / 2 + 1) < S.card) :
    ∃ r ∈ S, ∀ i ∈ (record replicaCount calls).ackedStrong,
      i ≤ (reached replicaCount calls).replicaStream.replicaProgress r := by
  have tracks := tracks_reached replicaCount calls
  have bounded : (record replicaCount calls).ackedStrong.Finite := by
    refine (Set.finite_le_nat (record replicaCount calls).writes).subset ?_
    rintro i ⟨_, _, _, _, _, strong⟩
    exact (tracks.indices i _ strong).2
  rcases Set.eq_empty_or_nonempty (record replicaCount calls).ackedStrong with nothing | anything
  · obtain ⟨r, member⟩ : S.Nonempty := Finset.card_pos.mp (by omega)
    exact ⟨r, member, by simp [nothing]⟩
  · obtain ⟨last, acked, greatest⟩ := Set.exists_max_image _ id bounded anything
    obtain ⟨r, member, holds⟩ := exists_holder (quorum_of_ackedStrong acked) large
    exact ⟨r, member, fun i acked' => (greatest i acked').trans holds⟩

theorem quorumReached_kept : ∃ r ∈ ({1, 2} : Finset (Fin 3)),
    ∀ i ∈ (record 3 quorumReached).ackedStrong,
      i ≤ (reached 3 quorumReached).replicaStream.replicaProgress r :=
  majority_keeps_acked quorumReached (by decide)

/-! ### Writes that are left undecided -/

/-- Each strong write is acknowledged exactly if a quorum holds it, and with it every strong write
before it. -/
structure Settled (policy : AckPolicy replicaCount) : Prop where
  exact : ∀ i, policy.writeModes.lookup i = some .strongReplicaQuorum →
    (policy.acked.lookup i = some true ↔
      replicaCount / 2 + 1 ≤ policy.replicaStream.ackCount i)
  earlier : ∀ i j, policy.writeModes.lookup i = some .strongReplicaQuorum →
    policy.writeModes.lookup j = some .strongReplicaQuorum → i < j →
    policy.acked.lookup j = some true → policy.acked.lookup i = some true

/-- The call is an acknowledgement of a known index by a known replica, and completes the quorum of
a strong write before that index. -/
def Call.Forgets (policy : AckPolicy replicaCount) : Call → Prop
  | .applyWrite _ _ => False
  | .observeReplicaAck replicaId logIndex =>
    (policy.writeModes.lookup logIndex).isSome ∧ ∃ r : Fin replicaCount, r.val = replicaId ∧
      ∃ i, i < logIndex ∧ policy.writeModes.lookup i = some .strongReplicaQuorum ∧
        policy.replicaStream.replicaProgress r < i ∧
        policy.replicaStream.ackCount i = replicaCount / 2

theorem ackCount_anti (stream : ReplicaStream replicaCount) {i j : Nat} (below : i ≤ j) :
    stream.ackCount j ≤ stream.ackCount i := by
  refine List.countP_mono_left fun r _ holds => ?_
  simp only [decide_eq_true_eq] at holds ⊢
  exact below.trans holds

/-- Acknowledged strong writes that a quorum holds come with those before them. -/
theorem settled_of_exact (exact : ∀ i, policy.writeModes.lookup i = some .strongReplicaQuorum →
    (policy.acked.lookup i = some true ↔
      replicaCount / 2 + 1 ≤ policy.replicaStream.ackCount i)) : policy.Settled := by
  refine ⟨exact, fun i j strong strong' before acked => ?_⟩
  rw [exact j strong'] at acked
  rw [exact i strong]
  exact acked.trans (ackCount_anti _ before.le)

/-- One more replica holds the indices from its progress on up to the acknowledged one. -/
theorem ackCount_observed (r : Fin replicaCount) (logIndex i : Nat) (mode : WriteAckMode) :
    (policy.observed r logIndex mode).replicaStream.ackCount i =
      policy.replicaStream.ackCount i +
        if policy.replicaStream.replicaProgress r < i ∧ i ≤ logIndex then 1 else 0 := by
  have holds : ∀ r', i ≤ (policy.observed r logIndex mode).replicaStream.replicaProgress r' ↔
      i ≤ policy.replicaStream.replicaProgress r' ∨ (r' = r ∧ i ≤ logIndex) := by
    intro r'
    by_cases same : r' = r
    · subst same
      simp [AckPolicy.observed]
    · simp [AckPolicy.observed, same]
  rw [ackCount_eq_card, ackCount_eq_card]
  split
  · rename_i reaches
    rw [← Finset.card_insert_of_notMem
      (show r ∉ Finset.univ.filter fun r => i ≤ policy.replicaStream.replicaProgress r by
        simpa using reaches.1)]
    congr 1
    ext r'
    simp only [Finset.mem_filter, Finset.mem_univ, true_and, Finset.mem_insert, holds]
    tauto
  · rename_i unmoved
    rw [Nat.add_zero]
    congr 1
    ext r'
    simp only [Finset.mem_filter, Finset.mem_univ, true_and, holds]
    constructor
    · rintro (old | ⟨rfl, reaches⟩)
      · exact old
      · omega
    · exact .inl

theorem ackCount_new_write (tracks : Tracks history policy) {i : Nat}
    (new : history.writes < i) : policy.replicaStream.ackCount i = 0 := by
  rw [ReplicaStream.ackCount, List.countP_eq_zero]
  intro r _
  have := tracks.behind r
  simp only [decide_eq_true_eq]
  omega

theorem applyWrite_settled (positive : 0 < replicaCount) (tracks : Tracks history policy)
    (settled : policy.Settled) (mutation : Mutation) (mode : WriteAckMode) :
    (policy.applyWrite mutation mode).1.Settled := by
  refine settled_of_exact fun i strong => ?_
  have index : (policy.wal.append mutation).2 = history.writes + 1 := by
    simp [WalWriter.append, tracks.length]
  simp only [AckPolicy.applyWrite, index] at strong ⊢
  by_cases new : i = history.writes + 1
  · subst new
    rw [AList.lookup_insert, Option.some.injEq] at strong
    have unconfirmed := ackCount_new_write tracks (Nat.lt_succ_self _)
    simp [strong, hasReplicaQuorum, ReplicaStream.hasQuorum, quorumSize, unconfirmed]
    omega
  · rw [AList.lookup_insert_ne new] at strong ⊢
    exact settled.exact i strong

theorem observed_settled_iff (tracks : Tracks history policy) (settled : policy.Settled)
    (r : Fin replicaCount) {logIndex : Nat} {mode : WriteAckMode}
    (written : policy.writeModes.lookup logIndex = some mode) :
    (policy.observed r logIndex mode).Settled ↔
      ¬∃ i, i < logIndex ∧ policy.writeModes.lookup i = some .strongReplicaQuorum ∧
        policy.replicaStream.replicaProgress r < i ∧
        policy.replicaStream.ackCount i = replicaCount / 2 := by
  have committed : logIndex ≤ policy.wal.commitIndex := by
    rw [tracks.commit]
    exact (tracks.indices _ _ ((tracks.modes _ _).mp written)).2
  have undecided : ∀ i, i ≠ logIndex →
      (policy.observed r logIndex mode).acked.lookup i = policy.acked.lookup i := by
    intro i different
    simp only [AckPolicy.observed]
    split
    · exact AList.lookup_insert_ne different
    · rfl
  constructor
  · rintro settled' ⟨i, before, strong, reaches, short⟩
    have exact := settled.exact i strong
    have exact' := settled'.exact i strong
    rw [undecided i before.ne, exact, ackCount_observed, if_pos ⟨reaches, before.le⟩] at exact'
    omega
  · intro noEarlier
    refine settled_of_exact fun i strong => ?_
    rw [observed_writeModes] at strong
    by_cases named : i = logIndex
    · subst named
      obtain rfl : mode = .strongReplicaQuorum := by
        rw [written] at strong
        exact Option.some.inj strong
      rw [show (policy.observed r i .strongReplicaQuorum).acked.lookup i =
        some (hasReplicaQuorum (policy.observed r i .strongReplicaQuorum).replicaStream i) by
          simp [AckPolicy.observed, committed]]
      rw [Option.some.injEq, hasReplicaQuorum_iff]
      exact and_iff_right r.pos
    · rw [undecided i named, settled.exact i strong, ackCount_observed]
      split
      · rename_i reaches
        have complete : policy.replicaStream.ackCount i ≠ replicaCount / 2 :=
          fun short => noEarlier ⟨i, by omega, strong, reaches.1, short⟩
        omega
      · exact Iff.rfl

/-- A call leaves all strong writes settled unless it forgets one. -/
theorem apply_settled_iff (positive : 0 < replicaCount) (tracks : Tracks history policy)
    (settled : policy.Settled) (call : Call) :
    (policy.apply call).1.Settled ↔ ¬call.Forgets policy := by
  cases call with
  | applyWrite mutation mode =>
    exact iff_of_true (applyWrite_settled positive tracks settled mutation mode) id
  | observeReplicaAck replicaId logIndex =>
    rcases observeReplicaAck_cases policy replicaId logIndex with
      ⟨thrown, throws⟩ | ⟨r, mode, rfl, written, returns⟩
    · rw [AckPolicy.apply, throws]
      refine iff_of_true settled ?_
      rintro ⟨known, r, rfl, -⟩
      obtain ⟨mode, written⟩ := Option.isSome_iff_exists.mp known
      simp [observeReplicaAck, written, ackReplica_known] at throws
    · rw [AckPolicy.apply, returns, observed_settled_iff tracks settled r written]
      refine not_congr ⟨fun found => ⟨by simp [written], r, rfl, found⟩, ?_⟩
      rintro ⟨-, r', same, found⟩
      obtain rfl := Fin.ext same
      exact found

theorem reached_append (before later : List Call) :
    reached replicaCount (before ++ later) = after apply (reached replicaCount before) later :=
  after_append _ _ _

theorem new_settled (replicaCount : Nat) : (new replicaCount).Settled :=
  settled_of_exact (by simp [new])

/-- In a run none of whose calls forgets a write, all strong writes are settled. -/
theorem reached_settled (positive : 0 < replicaCount) {calls : List Call}
    (remembers : ∀ before call later, calls = before ++ call :: later →
      ¬call.Forgets (reached replicaCount before)) : (reached replicaCount calls).Settled := by
  induction calls using List.reverseRecOn with
  | nil => exact new_settled replicaCount
  | append_singleton calls call ih =>
    have settled := ih fun before call' later split =>
      remembers before call' (later ++ [call]) (by simp [split])
    rw [reached_append]
    exact (apply_settled_iff positive (tracks_reached replicaCount calls) settled call).mpr
      (remembers calls call [] rfl)

/-- Two settled policies with the same writes and the same acknowledgements have acknowledged the
same strong writes. -/
theorem Settled.same {policy' : AckPolicy replicaCount} {history' : History}
    (settled : policy.Settled) (settled' : policy'.Settled) (tracks : Tracks history policy)
    (tracks' : Tracks history' policy')
    (writes : ∀ i mode, history.WrittenAs i mode ↔ history'.WrittenAs i mode)
    (acks : ∀ r j, history.Acked r j ↔ history'.Acked r j) {i : Nat}
    (strong : history.WrittenAs i .strongReplicaQuorum) :
    policy.acked.lookup i = some true ↔ policy'.acked.lookup i = some true := by
  have positive := (tracks.indices i _ strong).1
  have strong' := (writes i _).mp strong
  rw [settled.exact i ((tracks.modes i _).mpr strong),
    settled'.exact i ((tracks'.modes i _).mpr strong'), tracks.ackCount positive,
    tracks'.ackCount positive]
  simp only [History.holders, acks]

/-- All strong writes are settled after every call exactly if no call forgets one.  In such runs
the acknowledged strong writes do not depend on the order of the acknowledgements. -/
theorem settled_iff_remembers (positive : 0 < replicaCount) (calls : List Call) :
    ((∀ before later, calls = before ++ later → (reached replicaCount before).Settled) ↔
      ∀ before call later, calls = before ++ call :: later →
        ¬call.Forgets (reached replicaCount before)) ∧
      ∀ calls', (reached replicaCount calls).Settled → (reached replicaCount calls').Settled →
        (∀ i mode, (record replicaCount calls).WrittenAs i mode ↔
          (record replicaCount calls').WrittenAs i mode) →
        (∀ r j, (record replicaCount calls).Acked r j ↔ (record replicaCount calls').Acked r j) →
        ∀ i, (record replicaCount calls).WrittenAs i .strongReplicaQuorum →
          ((reached replicaCount calls).acked.lookup i = some true ↔
            (reached replicaCount calls').acked.lookup i = some true) := by
  refine ⟨⟨?_, ?_⟩, ?_⟩
  · rintro settled before call later rfl
    have next := settled (before ++ [call]) later (by simp)
    rw [reached_append] at next
    exact (apply_settled_iff positive (tracks_reached replicaCount before)
      (settled before (call :: later) rfl) call).mp next
  · rintro remembers before later rfl
    exact reached_settled positive fun before' call later' split =>
      remembers before' call (later' ++ later) (by simp [split])
  · intro calls' settled settled' writes acks i strong
    exact settled.same settled' (tracks_reached replicaCount calls)
      (tracks_reached replicaCount calls') writes acks strong

theorem quorumReached_settled : (reached 3 quorumReached).Settled := by
  refine (settled_iff_remembers (by decide) quorumReached).1.mpr ?_ quorumReached [] (by simp)
  intro before call later split
  have named : ∀ replicaId logIndex, call = .observeReplicaAck replicaId logIndex →
      logIndex = 1 := by
    have member : call ∈ quorumReached := by
      rw [split]
      simp
    rintro replicaId logIndex rfl
    have known : (replicaId = 0 ∨ replicaId = 1) ∧ logIndex = 1 := by
      simpa [quorumReached, ← or_and_right] using member
    exact known.2
  cases call with
  | applyWrite mutation mode => exact id
  | observeReplicaAck replicaId logIndex =>
    obtain rfl := named replicaId logIndex rfl
    rintro ⟨-, r, -, i, first, -, reaches, -⟩
    omega

/-- Two strong writes; one of three replicas acknowledges the first, another one the second. -/
def skippedAck : List Call :=
  [.applyWrite ⟨ascii "k", ascii "v"⟩ .strongReplicaQuorum,
    .applyWrite ⟨ascii "k", ascii "w"⟩ .strongReplicaQuorum, .observeReplicaAck 0 1,
    .observeReplicaAck 1 2]

/-- The same calls with the two acknowledgements in the other order. -/
def skippedAckReversed : List Call :=
  [.applyWrite ⟨ascii "k", ascii "v"⟩ .strongReplicaQuorum,
    .applyWrite ⟨ascii "k", ascii "w"⟩ .strongReplicaQuorum, .observeReplicaAck 1 2,
    .observeReplicaAck 0 1]

/-- Two replicas hold the first write, which is not acknowledged; in the other order it is. -/
theorem skippedAck_unsettled : ¬(reached 3 skippedAck).Settled ∧
    (reached 3 skippedAck).writeModes.lookup 1 = some .strongReplicaQuorum ∧
    (reached 3 skippedAck).replicaStream.ackCount 1 = 2 ∧
    (reached 3 skippedAck).acked.lookup 1 = some false ∧
    (reached 3 skippedAckReversed).acked.lookup 1 = some true := by
  refine ⟨fun settled => ?_, rfl, rfl, rfl, rfl⟩
  have acked := (settled.exact 1 rfl).mpr (by decide)
  cases (show some false = some true from acked)

end AckPolicy

end DistributedCache.Replication
