import DistributedCache.Replication.Quorum

/-! The log of the leader after any calls.  The index that a write returns is the place of its
mutation in the log for good, and the replica that is furthest among a majority has confirmed the
log up to a point that lies behind every strong write that was acknowledged. -/

namespace DistributedCache.Replication

open Lib

namespace WalWriter

def size (wal : WalWriter) : Nat := wal.entries.length

def entryAt (wal : WalWriter) (logIndex : Nat) : Except StdException Mutation :=
  if logIndex = 0 ∨ wal.size < logIndex then .error (.outOfRange "log_index out of range")
  else
    match wal.entries[logIndex - 1]? with
    | some mutation => .ok mutation
    | none => .error (.outOfRange "vector::at")

/-- The second check of the index, that of `at`, never fails. -/
theorem entryAt_eq_ok {wal : WalWriter} {logIndex : Nat} {mutation : Mutation} :
    wal.entryAt logIndex = .ok mutation ↔
      1 ≤ logIndex ∧ wal.entries[logIndex - 1]? = some mutation := by
  unfold entryAt
  by_cases outside : logIndex = 0 ∨ wal.size < logIndex
  · rw [if_pos outside]
    have absent : ¬(1 ≤ logIndex ∧ wal.entries[logIndex - 1]? = some mutation) := by
      rintro ⟨positive, present⟩
      obtain ⟨inside, -⟩ := List.getElem?_eq_some_iff.mp present
      unfold size at outside
      omega
    simp [absent]
  · rw [if_neg outside]
    have positive : 1 ≤ logIndex := by omega
    split
    · rename_i stored present
      simp [positive, present]
    · rename_i missing
      simp [missing]

theorem entryAt_of_le {wal : WalWriter} {logIndex : Nat} (positive : 1 ≤ logIndex)
    (inside : logIndex ≤ wal.size) : ∃ mutation, wal.entryAt logIndex = .ok mutation := by
  have below : logIndex - 1 < wal.entries.length := by
    unfold size at inside
    omega
  exact ⟨wal.entries[logIndex - 1], entryAt_eq_ok.mpr ⟨positive, List.getElem?_eq_getElem below⟩⟩

end WalWriter

namespace AckPolicy

variable {replicaCount : Nat} {policy : AckPolicy replicaCount}

namespace History

/-- The mutation of a write. -/
def mutation? : Call × Except StdException WriteResult → Option Mutation
  | (.applyWrite mutation _, _) => some mutation
  | _ => none

/-- The mutations of the writes, in order. -/
def mutations (history : History) : List Mutation := history.filterMap mutation?

@[simp] theorem mutations_write (mutation : Mutation) (mode : WriteAckMode)
    (answer : Except StdException WriteResult) (history : History) :
    mutations ((.applyWrite mutation mode, answer) :: history) = mutation :: history.mutations :=
  rfl

@[simp] theorem mutations_ack (replicaId logIndex : Nat)
    (answer : Except StdException WriteResult) (history : History) :
    mutations ((.observeReplicaAck replicaId logIndex, answer) :: history) = history.mutations :=
  rfl

theorem mutations_append (before later : History) :
    mutations (before ++ later) = before.mutations ++ later.mutations :=
  List.filterMap_append

theorem length_mutations (history : History) : history.mutations.length = history.writes := by
  unfold writes
  induction history with
  | nil => rfl
  | cons entry history ih =>
    obtain ⟨call, answer⟩ := entry
    cases call with
    | applyWrite mutation mode =>
      rw [mutations_write, List.length_cons, List.countP_cons_of_pos rfl, ih]
    | observeReplicaAck replicaId logIndex =>
      rw [mutations_ack, List.countP_cons_of_neg (by simp [isWrite]), ih]

end History

theorem entries_apply (policy : AckPolicy replicaCount) (call : Call) :
    (policy.apply call).1.wal.entries =
      policy.wal.entries ++ History.mutations [(call, (policy.apply call).2)] := by
  cases call with
  | applyWrite mutation mode => rfl
  | observeReplicaAck replicaId logIndex =>
    rcases observeReplicaAck_cases policy replicaId logIndex with
      ⟨thrown, throws⟩ | ⟨r, mode, rfl, written, returns⟩
    · rw [apply, throws, History.mutations_ack]
      exact (List.append_nil _).symm
    · rw [apply, returns, History.mutations_ack]
      exact (List.append_nil _).symm

/-- The log holds the mutations of all writes so far, in order. -/
theorem entries_reached (replicaCount : Nat) (calls : List Call) :
    (reached replicaCount calls).wal.entries = (record replicaCount calls).mutations := by
  refine answers_induction
    (fun (history : History) (policy : AckPolicy replicaCount) =>
      policy.wal.entries = history.mutations)
    (fun history policy call logged => ?_) rfl calls
  rw [entries_apply, logged, History.mutations_append]

/-- The index that a write returns is one more than the writes before it. -/
theorem logIndex_write {calls : List Call} {before later : History} {mutation : Mutation}
    {mode : WriteAckMode} {result : WriteResult}
    (split : record replicaCount calls =
      before ++ (.applyWrite mutation mode, .ok result) :: later) :
    result.logIndex = before.writes + 1 := by
  obtain ⟨early, rest, rfl, answered, remaining⟩ := answers_eq_append split
  cases rest with
  | nil => cases remaining
  | cons next rest =>
    rw [answers, List.cons.injEq, Prod.mk.injEq] at remaining
    obtain ⟨⟨rfl, returns⟩, -⟩ := remaining
    cases returns
    have length := (tracks_reached replicaCount early).length
    rw [record, answered] at length
    rw [← length]
    simp [applyWrite, buildResult, WalWriter.append, reached]

/-- The log keeps the mutation of each write at the index that the write returned. -/
theorem entryAt_write {calls : List Call} {before later : History} {mutation : Mutation}
    {mode : WriteAckMode} {result : WriteResult}
    (split : record replicaCount calls =
      before ++ (.applyWrite mutation mode, .ok result) :: later) :
    (reached replicaCount calls).wal.entryAt result.logIndex = .ok mutation := by
  rw [WalWriter.entryAt_eq_ok, logIndex_write split, entries_reached, split]
  refine ⟨Nat.le_add_left _ _, ?_⟩
  rw [Nat.add_sub_cancel, ← History.length_mutations, History.mutations_append,
    List.getElem?_append_right (Nat.le_refl _), Nat.sub_self, History.mutations_write]
  rfl

/-- Every write returned the index that counts the writes up to it, and the log keeps its mutation
there.  Of replicas that are too many to miss a quorum, take one that is furthest: the log up to its
progress can be read, and it has each strong write that was acknowledged. -/
theorem log_keeps_acked (replicaCount : Nat) (calls : List Call) :
    (∀ (before later : History) mutation mode result, record replicaCount calls =
        before ++ (.applyWrite mutation mode, .ok result) :: later →
      result.logIndex = before.writes + 1 ∧
        (reached replicaCount calls).wal.entryAt result.logIndex = .ok mutation) ∧
    ∀ S : Finset (Fin replicaCount), replicaCount - (replicaCount / 2 + 1) < S.card →
      ∀ r, (∀ other ∈ S, (reached replicaCount calls).replicaStream.replicaProgress other ≤
          (reached replicaCount calls).replicaStream.replicaProgress r) →
        (∀ i, 1 ≤ i → i ≤ (reached replicaCount calls).replicaStream.replicaProgress r →
          ∃ mutation, (reached replicaCount calls).wal.entryAt i = .ok mutation) ∧
        ∀ index ∈ (record replicaCount calls).ackedStrong,
          index ≤ (reached replicaCount calls).replicaStream.replicaProgress r := by
  have tracks := tracks_reached replicaCount calls
  constructor
  · intro before later mutation mode result split
    exact ⟨logIndex_write split, entryAt_write split⟩
  · intro S large r furthest
    constructor
    · intro i positive confirmed
      refine WalWriter.entryAt_of_le positive (confirmed.trans ?_)
      rw [WalWriter.size, tracks.length]
      exact tracks.behind r
    · intro index acked
      obtain ⟨holder, member, holds⟩ := exists_holder (quorum_of_ackedStrong acked) large
      exact holds.trans (furthest holder member)

/-- Two writes of which a majority confirms the strong one, and a late one. -/
def confirmedWrite : List Call :=
  [.applyWrite ⟨ascii "k", ascii "v"⟩ .fastLeaderCommit,
    .applyWrite ⟨ascii "k", ascii "w"⟩ .strongReplicaQuorum, .observeReplicaAck 0 2,
    .observeReplicaAck 1 2, .applyWrite ⟨ascii "l", ascii "u"⟩ .fastLeaderCommit]

theorem confirmedWrite_kept :
    (reached 3 confirmedWrite).wal.entryAt 2 = .ok ⟨ascii "k", ascii "w"⟩ ∧
      2 ≤ (reached 3 confirmedWrite).replicaStream.replicaProgress 1 := by
  obtain ⟨writes, quorums⟩ := log_keeps_acked 3 confirmedWrite
  obtain ⟨-, stored⟩ :=
    writes [(.applyWrite ⟨ascii "k", ascii "v"⟩ .fastLeaderCommit, .ok ⟨1, true, 1, 0, 2⟩)]
      _ ⟨ascii "k", ascii "w"⟩ .strongReplicaQuorum ⟨2, false, 2, 0, 2⟩ rfl
  obtain ⟨-, confirmed⟩ := quorums {1, 2} (by decide) 1 (by decide)
  refine ⟨stored, confirmed 2 ⟨.observeReplicaAck 1 2, ⟨2, true, 2, 2, 2⟩, ?_, rfl, rfl, ?_⟩⟩
  · exact .tail _ (.tail _ (.tail _ (.head _)))
  · exact ⟨_, _, .tail _ (.head _), rfl⟩

end AckPolicy

end DistributedCache.Replication
