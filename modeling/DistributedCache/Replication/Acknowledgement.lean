import DistributedCache.Replication.AckPolicy
import Mathlib.Data.Set.Card

/-! What the results of `AckPolicy` say about the calls so far: which replicas hold a write, when a
write is acknowledged, and that a majority of the replicas keeps every write that was. -/

namespace DistributedCache.Replication

open Lib

namespace AckPolicy

/-- The calls so far with their answers. -/
abbrev History := List (Call × Except StdException WriteResult)

namespace History

/-- Replica `replicaId` has acknowledged `logIndex` in a call that returned. -/
def Acked (history : History) (replicaId logIndex : Nat) : Prop :=
  ∃ result, (.observeReplicaAck replicaId logIndex, .ok result) ∈ history

/-- `logIndex` was written in `mode`. -/
def WrittenAs (history : History) (logIndex : Nat) (mode : WriteAckMode) : Prop :=
  ∃ mutation result, (.applyWrite mutation mode, .ok result) ∈ history ∧ result.logIndex = logIndex

def isWrite : Call × Except StdException WriteResult → Bool
  | (.applyWrite _ _, _) => true
  | _ => false

/-- The number of writes. -/
def writes (history : History) : Nat := history.countP isWrite

/-- The replicas that have acknowledged `logIndex` or a later index. -/
def holders (history : History) (replicaCount logIndex : Nat) : Set Nat :=
  {r | r < replicaCount ∧ ∃ j, logIndex ≤ j ∧ history.Acked r j}

theorem holders_finite (history : History) (replicaCount logIndex : Nat) :
    (history.holders replicaCount logIndex).Finite :=
  (Set.finite_lt_nat replicaCount).subset fun _ member => member.1

theorem Acked.append {history : History} {r j : Nat} (acked : history.Acked r j)
    (later : History) : Acked (history ++ later) r j :=
  acked.imp fun _ member => List.mem_append_left _ member

theorem holders_append (history later : History) (replicaCount logIndex : Nat) :
    history.holders replicaCount logIndex ⊆ (history ++ later).holders replicaCount logIndex := by
  rintro r ⟨known, j, above, acked⟩
  exact ⟨known, j, above, acked.append later⟩

theorem WrittenAs.append {history : History} {logIndex : Nat} {mode : WriteAckMode}
    (written : history.WrittenAs logIndex mode) (later : History) :
    WrittenAs (history ++ later) logIndex mode := by
  obtain ⟨mutation, result, member, index⟩ := written
  exact ⟨mutation, result, List.mem_append_left _ member, index⟩

/-! A further call in the history. -/

variable {history : History} {mutation : Mutation} {mode mode' : WriteAckMode}
  {replicaId r logIndex i : Nat} {result : WriteResult} {thrown : StdException}

@[simp] theorem writes_write : writes (history ++ [(.applyWrite mutation mode, .ok result)]) =
    history.writes + 1 := by
  simp [writes, isWrite]

@[simp] theorem writes_ack (answer : Except StdException WriteResult) :
    writes (history ++ [(.observeReplicaAck replicaId logIndex, answer)]) = history.writes := by
  simp [writes, isWrite]

@[simp] theorem writtenAs_write :
    WrittenAs (history ++ [(.applyWrite mutation mode, .ok result)]) i mode' ↔
      history.WrittenAs i mode' ∨ (mode' = mode ∧ i = result.logIndex) := by
  unfold WrittenAs
  constructor
  · rintro ⟨m, res, member, rfl⟩
    rcases List.mem_append.mp member with old | new
    · exact .inl ⟨m, res, old, rfl⟩
    · cases List.mem_singleton.mp new
      exact .inr ⟨rfl, rfl⟩
  · rintro (⟨m, res, old, rfl⟩ | ⟨rfl, rfl⟩)
    · exact ⟨m, res, List.mem_append_left _ old, rfl⟩
    · exact ⟨mutation, result, by simp, rfl⟩

@[simp] theorem writtenAs_ack (answer : Except StdException WriteResult) :
    WrittenAs (history ++ [(.observeReplicaAck replicaId logIndex, answer)]) i mode ↔
      history.WrittenAs i mode := by
  simp [WrittenAs]

@[simp] theorem acked_write (answer : Except StdException WriteResult) :
    Acked (history ++ [(.applyWrite mutation mode, answer)]) r i ↔ history.Acked r i := by
  simp [Acked]

@[simp] theorem acked_thrown :
    Acked (history ++ [(.observeReplicaAck replicaId logIndex, .error thrown)]) r i ↔
      history.Acked r i := by
  simp [Acked]

@[simp] theorem acked_ack :
    Acked (history ++ [(.observeReplicaAck replicaId logIndex, .ok result)]) r i ↔
      history.Acked r i ∨ (r = replicaId ∧ i = logIndex) := by
  unfold Acked
  constructor
  · rintro ⟨res, member⟩
    rcases List.mem_append.mp member with old | new
    · exact .inl ⟨res, old⟩
    · cases List.mem_singleton.mp new
      exact .inr ⟨rfl, rfl⟩
  · rintro (⟨res, old⟩ | ⟨rfl, rfl⟩)
    · exact ⟨res, List.mem_append_left _ old⟩
    · exact ⟨result, by simp⟩

end History

variable {replicaCount : Nat} {policy : AckPolicy replicaCount} {history : History}

theorem ackCount_eq_card (stream : ReplicaStream replicaCount) (logIndex : Nat) :
    stream.ackCount logIndex =
      (Finset.univ.filter fun r => logIndex ≤ stream.replicaProgress r).card := by
  rw [ReplicaStream.ackCount, List.countP_eq_length_filter]
  rfl

theorem ackCount_eq_ncard {stream : ReplicaStream replicaCount} {logIndex : Nat} {s : Set Nat}
    (same : ∀ r : Fin replicaCount, logIndex ≤ stream.replicaProgress r ↔ r.val ∈ s)
    (below : ∀ r ∈ s, r < replicaCount) : stream.ackCount logIndex = s.ncard := by
  have image : s = Fin.val '' {r : Fin replicaCount | logIndex ≤ stream.replicaProgress r} := by
    ext r
    simp only [Set.mem_image, Set.mem_ofPred_eq]
    constructor
    · intro member
      exact ⟨⟨r, below r member⟩, (same _).mpr member, rfl⟩
    · rintro ⟨r, holds, rfl⟩
      exact (same r).mp holds
  rw [image, Set.ncard_image_of_injective _ Fin.val_injective, ackCount_eq_card,
    ← Set.ncard_coe_finset]
  simp

/-- The state of the policy in terms of the calls so far. -/
structure Tracks (history : History) (policy : AckPolicy replicaCount) : Prop where
  length : policy.wal.entries.length = history.writes
  commit : policy.wal.commitIndex = history.writes
  modes : ∀ i mode, policy.writeModes.lookup i = some mode ↔ history.WrittenAs i mode
  indices : ∀ i mode, history.WrittenAs i mode → 1 ≤ i ∧ i ≤ history.writes
  progress : ∀ r i, 1 ≤ i → (i ≤ policy.replicaStream.replicaProgress r ↔
    ∃ j, i ≤ j ∧ history.Acked r j)
  behind : ∀ r, policy.replicaStream.replicaProgress r ≤ history.writes
  fast : ∀ i, history.WrittenAs i .fastLeaderCommit → policy.acked.lookup i = some true

theorem new_tracks (replicaCount : Nat) : Tracks [] (new replicaCount) := by
  refine ⟨rfl, rfl, ?_, ?_, ?_, ?_, ?_⟩
  · simp [History.WrittenAs, new]
  · simp [History.WrittenAs]
  · intro r i positive
    simp [History.Acked, new]
    omega
  · simp [new]
  · simp [History.WrittenAs]

/-- What a result says about the calls up to the one that returned it. -/
structure Reports (replicaCount : Nat) (history : History) (result : WriteResult) : Prop where
  replicaAcks :
    result.replicaAcks = (history.holders replicaCount result.logIndex).ncard
  required : result.requiredReplicaQuorum = if replicaCount = 0 then 0 else replicaCount / 2 + 1
  leaderCommitIndex : result.leaderCommitIndex = history.writes
  acked : result.acked = true ↔ history.WrittenAs result.logIndex .fastLeaderCommit ∨
    (history.WrittenAs result.logIndex .strongReplicaQuorum ∧ 0 < replicaCount ∧
      result.requiredReplicaQuorum ≤ result.replicaAcks)

theorem Tracks.ackCount (tracks : Tracks history policy) {i : Nat} (positive : 1 ≤ i) :
    policy.replicaStream.ackCount i = (history.holders replicaCount i).ncard := by
  refine ackCount_eq_ncard (fun r => ?_) fun r member => member.1
  rw [tracks.progress r i positive]
  exact ⟨fun held => ⟨r.isLt, held⟩, fun held => held.2⟩

/-- A result is right if the policy has just decided the index that it is about. -/
theorem Tracks.reports (tracks : Tracks history policy) {i : Nat} {mode : WriteAckMode}
    (written : history.WrittenAs i mode)
    (fresh : mode = .strongReplicaQuorum →
      policy.acked.lookup i = some (hasReplicaQuorum policy.replicaStream i)) :
    Reports replicaCount history (policy.buildResult i) := by
  refine ⟨tracks.ackCount (tracks.indices i mode written).1, rfl, tracks.commit, ?_⟩
  have unique : ∀ mode', history.WrittenAs i mode' ↔ mode' = mode := by
    intro mode'
    rw [← tracks.modes, (tracks.modes i mode).mpr written]
    simp [eq_comm]
  rw [show (policy.buildResult i).logIndex = i from rfl, unique, unique]
  cases mode with
  | fastLeaderCommit => simp [buildResult, tracks.fast i written]
  | strongReplicaQuorum =>
    simp only [buildResult, fresh rfl, Option.getD_some, hasReplicaQuorum_iff, reduceCtorEq,
      false_or, true_and, quorumSize]
    constructor
    · rintro ⟨positive, quorum⟩
      exact ⟨positive, by rwa [if_neg (by omega)]⟩
    · rintro ⟨positive, quorum⟩
      exact ⟨positive, by rwa [if_neg (by omega)] at quorum⟩

/-! ### One call -/

theorem Tracks.thrown (tracks : Tracks history policy) (replicaId logIndex : Nat)
    (thrown : StdException) :
    Tracks (history ++ [(.observeReplicaAck replicaId logIndex, .error thrown)]) policy := by
  obtain ⟨length, commit, modes, indices, progress, behind, fast⟩ := tracks
  exact ⟨by simpa using length, by simpa using commit, by simpa using modes,
    by simpa using indices, by simpa using progress, by simpa using behind, by simpa using fast⟩

theorem Tracks.observed (tracks : Tracks history policy) (r : Fin replicaCount) {logIndex : Nat}
    {mode : WriteAckMode} (written : history.WrittenAs logIndex mode) (result : WriteResult) :
    Tracks (history ++ [(.observeReplicaAck r logIndex, .ok result)])
      (policy.observed r logIndex mode) := by
  obtain ⟨positive, known⟩ := tracks.indices logIndex mode written
  refine ⟨by simpa using tracks.length, by simpa using tracks.commit, by simpa using tracks.modes,
    by simpa using tracks.indices, ?_, ?_, ?_⟩
  · intro r' i positive'
    simp only [History.acked_ack]
    by_cases same : r' = r
    · subst same
      simp only [AckPolicy.observed, Function.update_self, le_max_iff,
        tracks.progress r' i positive']
      constructor
      · rintro (⟨j, above, acked⟩ | above)
        · exact ⟨j, above, .inl acked⟩
        · exact ⟨logIndex, above, .inr ⟨trivial, rfl⟩⟩
      · rintro ⟨j, above, acked | ⟨-, rfl⟩⟩
        · exact .inl ⟨j, above, acked⟩
        · exact .inr above
    · have different : r'.val ≠ r.val := fun h => same (Fin.ext h)
      simpa [AckPolicy.observed, same, different] using tracks.progress r' i positive'
  · intro r'
    rw [History.writes_ack]
    by_cases same : r' = r
    · subst same
      simpa [AckPolicy.observed] using ⟨tracks.behind r', known⟩
    · simpa [AckPolicy.observed, same] using tracks.behind r'
  · intro i writtenFast
    rw [History.writtenAs_ack] at writtenFast
    simp only [AckPolicy.observed]
    split
    · rename_i strong
      have different : i ≠ logIndex := by
        rintro rfl
        have := (tracks.modes i _).mpr writtenFast
        rw [(tracks.modes i _).mpr written, strong] at this
        cases this
      rw [AList.lookup_insert_ne different]
      exact tracks.fast i writtenFast
    · exact tracks.fast i writtenFast

theorem Tracks.applyWrite (tracks : Tracks history policy) (mutation : Mutation)
    (mode : WriteAckMode) :
    Tracks (history ++ [(.applyWrite mutation mode, .ok (policy.applyWrite mutation mode).2)])
      (policy.applyWrite mutation mode).1 := by
  have index : (policy.wal.append mutation).2 = history.writes + 1 := by
    simp [WalWriter.append, tracks.length]
  have unwritten : ∀ mode', ¬history.WrittenAs (history.writes + 1) mode' := by
    intro mode' written
    have := (tracks.indices _ _ written).2
    omega
  refine ⟨by simp [AckPolicy.applyWrite, WalWriter.append, tracks.length],
    by simp [AckPolicy.applyWrite, WalWriter.append, tracks.length], ?_, ?_, ?_, ?_, ?_⟩
  · intro i mode'
    simp only [History.writtenAs_write, AckPolicy.applyWrite, buildResult, index]
    by_cases new : i = history.writes + 1
    · subst new
      simp [unwritten, eq_comm]
    · simp [new, AList.lookup_insert_ne new, tracks.modes]
  · intro i mode' written
    simp only [History.writtenAs_write, AckPolicy.applyWrite, buildResult, index] at written
    rw [History.writes_write]
    rcases written with old | ⟨-, rfl⟩
    · have := tracks.indices i mode' old
      omega
    · omega
  · simpa using tracks.progress
  · intro r
    rw [History.writes_write]
    exact (tracks.behind r).trans (Nat.le_succ _)
  · intro i written
    simp only [History.writtenAs_write, AckPolicy.applyWrite, buildResult, index] at written ⊢
    by_cases new : i = history.writes + 1
    · subst new
      have fast : mode = .fastLeaderCommit := by
        rcases written with old | ⟨same, -⟩
        · exact absurd old (unwritten _)
        · exact same.symm
      simp [fast, WalWriter.append, tracks.length]
    · rw [AList.lookup_insert_ne new]
      exact tracks.fast i (written.resolve_right fun h => new h.2)

/-- A call keeps track of the history, and its result is right. -/
theorem Tracks.apply (tracks : Tracks history policy) (call : Call) :
    Tracks (history ++ [(call, (policy.apply call).2)]) (policy.apply call).1 ∧
      ∀ result, (policy.apply call).2 = .ok result →
        Reports replicaCount (history ++ [(call, .ok result)]) result := by
  cases call with
  | applyWrite mutation mode =>
    have tracks' := tracks.applyWrite mutation mode
    refine ⟨tracks', ?_⟩
    rintro result ⟨⟩
    have written : History.WrittenAs
        (history ++ [(.applyWrite mutation mode, .ok (policy.applyWrite mutation mode).2)])
        (policy.applyWrite mutation mode).2.logIndex mode :=
      History.writtenAs_write.mpr (.inr ⟨rfl, rfl⟩)
    refine tracks'.reports written fun strong => ?_
    refine (AList.lookup_insert _).trans (congrArg some ?_)
    simp [AckPolicy.applyWrite, buildResult, strong, WalWriter.append]
  | observeReplicaAck replicaId logIndex =>
    rcases observeReplicaAck_cases policy replicaId logIndex with
      ⟨thrown, throws⟩ | ⟨r, mode, rfl, written, returns⟩
    · simp only [AckPolicy.apply, throws]
      exact ⟨tracks.thrown replicaId logIndex thrown, fun result => nofun⟩
    · simp only [AckPolicy.apply, returns]
      have known := (tracks.modes _ _).mp written
      have tracks' := tracks.observed r known
        ((policy.observed r logIndex mode).buildResult logIndex)
      refine ⟨tracks', ?_⟩
      rintro result ⟨⟩
      refine tracks'.reports (by simpa using known) fun strong => ?_
      have committed : logIndex ≤ policy.wal.commitIndex := by
        rw [tracks.commit]
        exact (tracks.indices _ _ known).2
      simp [AckPolicy.observed, strong, committed]

/-! ### Every list of calls -/

/-- The policy after a list of calls on a new one. -/
def reached (replicaCount : Nat) (calls : List Call) : AckPolicy replicaCount :=
  after apply (new replicaCount) calls

/-- The calls with the answers of a new policy. -/
def record (replicaCount : Nat) (calls : List Call) : History :=
  answers apply (new replicaCount) calls

theorem tracks_reached (replicaCount : Nat) (calls : List Call) :
    Tracks (record replicaCount calls) (reached replicaCount calls) :=
  answers_induction Tracks (fun _ _ call tracks => (tracks.apply call).1) (new_tracks replicaCount)
    calls

/-- A result and the calls before it, at a later time. -/
theorem reports_of_split {calls : List Call} {before later : History} {call : Call}
    {result : WriteResult}
    (split : record replicaCount calls = before ++ (call, .ok result) :: later) :
    Reports replicaCount (before ++ [(call, .ok result)]) result := by
  obtain ⟨early, rest, rfl, answered, remaining⟩ := answers_eq_append split
  cases rest with
  | nil => cases remaining
  | cons next rest =>
    rw [answers, List.cons.injEq, Prod.mk.injEq] at remaining
    obtain ⟨⟨rfl, returns⟩, -⟩ := remaining
    rw [← answered]
    exact ((tracks_reached replicaCount early).apply next).2 result returns

/-- The result of each call is right about the calls up to it, and an acknowledged write stays
acknowledged in later results. -/
theorem results_report {calls : List Call} {before later : History} {call : Call}
    {result : WriteResult}
    (split : record replicaCount calls = before ++ (call, .ok result) :: later) :
    Reports replicaCount (before ++ [(call, .ok result)]) result ∧
      ∀ call' result', (call', .ok result') ∈ later → result'.logIndex = result.logIndex →
        result.acked = true → result'.acked = true := by
  have reports := reports_of_split split
  refine ⟨reports, ?_⟩
  intro call' result' member same acked
  obtain ⟨between, final, rfl⟩ := List.append_of_mem member
  have reports' : Reports replicaCount
      (before ++ (call, .ok result) :: between ++ [(call', .ok result')]) result' :=
    reports_of_split (by simpa using split)
  rw [List.append_cons before, List.append_assoc _ between] at reports'
  rw [reports'.acked, same]
  rcases reports.acked.mp acked with fast | ⟨strong, positive, quorum⟩
  · exact .inl (fast.append _)
  · refine .inr ⟨strong.append _, positive, ?_⟩
    rw [reports'.required, reports'.replicaAcks, same, ← reports.required]
    refine quorum.trans ?_
    rw [reports.replicaAcks]
    exact Set.ncard_le_ncard (History.holders_append _ _ _ _) (History.holders_finite _ _ _)

/-- One strong write and two of three replicas that acknowledge it. -/
def quorumReached : List Call :=
  [.applyWrite ⟨ascii "k", ascii "v"⟩ .strongReplicaQuorum, .observeReplicaAck 0 1,
    .observeReplicaAck 1 1]

theorem quorumReached_reports :
    Reports 3 (record 3 quorumReached) ⟨1, true, 1, 2, 2⟩ :=
  (@results_report 3 quorumReached
    [(.applyWrite ⟨ascii "k", ascii "v"⟩ .strongReplicaQuorum, .ok ⟨1, false, 1, 0, 2⟩),
      (.observeReplicaAck 0 1, .ok ⟨1, false, 1, 1, 2⟩)] [] (.observeReplicaAck 1 1)
    ⟨1, true, 1, 2, 2⟩ rfl).1

/-! ### Writes start without acknowledgements -/

/-- No replica is ahead of the log, so none holds the next index. -/
theorem Tracks.ackCount_next (tracks : Tracks history policy) (mutation : Mutation) :
    policy.replicaStream.ackCount (policy.wal.append mutation).2 = 0 := by
  unfold ReplicaStream.ackCount
  rw [List.countP_eq_zero]
  intro r _
  have behind := tracks.behind r
  have index : (policy.wal.append mutation).2 = history.writes + 1 := by
    simp [WalWriter.append, tracks.length]
  simp only [decide_eq_true_eq, index]
  omega

/-- A strong write is not acknowledged when it is written. -/
theorem Tracks.applyWrite_strong (tracks : Tracks history policy) (mutation : Mutation) :
    (policy.applyWrite mutation .strongReplicaQuorum).2.replicaAcks = 0 ∧
      (policy.applyWrite mutation .strongReplicaQuorum).2.acked = false := by
  have none_yet := tracks.ackCount_next mutation
  have short : hasReplicaQuorum policy.replicaStream (policy.wal.append mutation).2 = false := by
    rw [Bool.eq_false_iff]
    intro quorum
    have some_acks := (hasReplicaQuorum_iff.mp quorum).2
    omega
  exact ⟨none_yet, by simp [AckPolicy.applyWrite, buildResult, short]⟩

/-- An acknowledgement throws exactly if its index or its replica is unknown. -/
theorem observeReplicaAck_throws_iff (policy : AckPolicy replicaCount) (replicaId logIndex : Nat) :
    (∃ thrown, (policy.observeReplicaAck replicaId logIndex).2 = .error thrown) ↔
      policy.writeModes.lookup logIndex = none ∨ replicaCount ≤ replicaId := by
  unfold observeReplicaAck
  cases policy.writeModes.lookup logIndex with
  | none => simp
  | some mode =>
    by_cases known : replicaId < replicaCount
    · have acks := ackReplica_known policy.replicaStream ⟨replicaId, known⟩ logIndex
      simp only at acks
      simp [acks, known]
    · simp [ReplicaStream.ackReplica, known, Nat.le_of_not_lt known]

/-- After every list of calls, no replica is ahead of the log, a strong write returns without an
acknowledgement, and an acknowledgement of an unknown index or replica changes nothing. -/
theorem unknown_acks_ignored (replicaCount : Nat) (calls : List Call) :
    (∀ r, (reached replicaCount calls).replicaStream.replicaProgress r ≤
      (reached replicaCount calls).wal.commitIndex) ∧
    (∀ mutation,
      ((reached replicaCount calls).applyWrite mutation .strongReplicaQuorum).2.replicaAcks = 0 ∧
      ((reached replicaCount calls).applyWrite mutation .strongReplicaQuorum).2.acked = false) ∧
    ∀ replicaId logIndex,
      ((∃ thrown, ((reached replicaCount calls).observeReplicaAck replicaId logIndex).2 =
          .error thrown) ↔
        (reached replicaCount calls).writeModes.lookup logIndex = none ∨
          replicaCount ≤ replicaId) ∧
      ∀ thrown,
        ((reached replicaCount calls).observeReplicaAck replicaId logIndex).2 = .error thrown →
        ((reached replicaCount calls).observeReplicaAck replicaId logIndex).1 =
          reached replicaCount calls := by
  have tracks := tracks_reached replicaCount calls
  refine ⟨fun r => ?_, tracks.applyWrite_strong, fun replicaId logIndex => ⟨?_, ?_⟩⟩
  · rw [tracks.commit]
    exact tracks.behind r
  · exact observeReplicaAck_throws_iff _ replicaId logIndex
  · intro thrown throws
    rcases observeReplicaAck_cases (reached replicaCount calls) replicaId logIndex with
      ⟨thrown', same⟩ | ⟨r, mode, -, -, returns⟩
    · rw [same]
    · rw [returns] at throws
      cases throws

end AckPolicy

end DistributedCache.Replication
