import DistributedCache.Bytes
import DistributedCache.Lib.Machine
import Mathlib.Data.List.AList
import Mathlib.Data.List.FinRange
import Mathlib.Logic.Function.Basic

/-! Replicated writes: the log of the leader, the progress of the replicas, and the policy that
decides when a write is acknowledged.  A call that throws returns the exception with the state that
it leaves behind. -/

namespace DistributedCache.Replication

structure Mutation where
  key : Bytes
  value : Bytes
deriving DecidableEq, Repr

structure WalWriter where
  entries : List Mutation
  commitIndex : Nat
deriving DecidableEq, Repr

/-- `Append`: the log after it and the index of the new entry. -/
def WalWriter.append (wal : WalWriter) (mutation : Mutation) : WalWriter × Nat :=
  let entries := wal.entries ++ [mutation]
  (⟨entries, entries.length⟩, entries.length)

/-- The quorum that the constructor of `ReplicaStream` computes. -/
def quorumSize (replicaCount : Nat) : Nat := if replicaCount = 0 then 0 else replicaCount / 2 + 1

/-- The highest log index that each replica has acknowledged. -/
structure ReplicaStream (replicaCount : Nat) where
  replicaProgress : Fin replicaCount → Nat

namespace ReplicaStream

variable {replicaCount : Nat}

def ackReplica (stream : ReplicaStream replicaCount) (replicaId logIndex : Nat) :
    ReplicaStream replicaCount × Except StdException Unit :=
  if known : replicaId < replicaCount then
    if stream.replicaProgress ⟨replicaId, known⟩ < logIndex then
      (⟨Function.update stream.replicaProgress ⟨replicaId, known⟩ logIndex⟩, .ok ())
    else (stream, .ok ())
  else (stream, .error (.outOfRange "replica_id out of range"))

def ackCount (stream : ReplicaStream replicaCount) (logIndex : Nat) : Nat :=
  (List.finRange replicaCount).countP fun r => decide (logIndex ≤ stream.replicaProgress r)

def hasQuorum (stream : ReplicaStream replicaCount) (logIndex : Nat) : Bool :=
  decide (quorumSize replicaCount ≤ stream.ackCount logIndex)

end ReplicaStream

inductive WriteAckMode
  | fastLeaderCommit
  | strongReplicaQuorum
deriving DecidableEq, Repr

structure WriteResult where
  logIndex : Nat
  acked : Bool
  leaderCommitIndex : Nat
  replicaAcks : Nat
  requiredReplicaQuorum : Nat
deriving DecidableEq, Repr

structure AckPolicy (replicaCount : Nat) where
  wal : WalWriter
  replicaStream : ReplicaStream replicaCount
  writeModes : AList fun _ : Nat => WriteAckMode
  acked : AList fun _ : Nat => Bool

namespace AckPolicy

variable {replicaCount : Nat}

/-- The policy that the constructor makes. -/
def new (replicaCount : Nat) : AckPolicy replicaCount := ⟨⟨[], 0⟩, ⟨fun _ => 0⟩, ∅, ∅⟩

def buildResult (policy : AckPolicy replicaCount) (logIndex : Nat) : WriteResult where
  logIndex := logIndex
  acked := (policy.acked.lookup logIndex).getD false
  leaderCommitIndex := policy.wal.commitIndex
  replicaAcks := policy.replicaStream.ackCount logIndex
  requiredReplicaQuorum := quorumSize replicaCount

/-- `has_replica_quorum`, which both operations compute. -/
def hasReplicaQuorum (stream : ReplicaStream replicaCount) (logIndex : Nat) : Bool :=
  decide (0 < quorumSize replicaCount) && stream.hasQuorum logIndex

def applyWrite (policy : AckPolicy replicaCount) (mutation : Mutation) (mode : WriteAckMode) :
    AckPolicy replicaCount × WriteResult :=
  let (wal, logIndex) := policy.wal.append mutation
  let leaderCommitted := decide (logIndex ≤ wal.commitIndex)
  let acked := leaderCommitted && (decide (mode = .fastLeaderCommit) ||
    (decide (mode = .strongReplicaQuorum) && hasReplicaQuorum policy.replicaStream logIndex))
  let policy := { policy with
    wal := wal
    writeModes := policy.writeModes.insert logIndex mode
    acked := policy.acked.insert logIndex acked }
  (policy, policy.buildResult logIndex)

def observeReplicaAck (policy : AckPolicy replicaCount) (replicaId logIndex : Nat) :
    AckPolicy replicaCount × Except StdException WriteResult :=
  match policy.writeModes.lookup logIndex with
  | none => (policy, .error (.invalidArgument "unknown log index"))
  | some mode =>
    match policy.replicaStream.ackReplica replicaId logIndex with
    | (stream, .error thrown) => ({ policy with replicaStream := stream }, .error thrown)
    | (stream, .ok ()) =>
      let acked :=
        if mode = .strongReplicaQuorum then
          policy.acked.insert logIndex
            (decide (logIndex ≤ policy.wal.commitIndex) && hasReplicaQuorum stream logIndex)
        else policy.acked
      let policy := { policy with replicaStream := stream, acked := acked }
      (policy, .ok (policy.buildResult logIndex))

/-- A call of one of the two operations. -/
inductive Call
  | applyWrite (mutation : Mutation) (mode : WriteAckMode)
  | observeReplicaAck (replicaId logIndex : Nat)
deriving DecidableEq, Repr

def apply (policy : AckPolicy replicaCount) :
    Call → AckPolicy replicaCount × Except StdException WriteResult
  | .applyWrite mutation mode => ((policy.applyWrite mutation mode).1,
      .ok (policy.applyWrite mutation mode).2)
  | .observeReplicaAck replicaId logIndex => policy.observeReplicaAck replicaId logIndex

/-! ### What a call does -/

variable {policy : AckPolicy replicaCount}

theorem hasReplicaQuorum_iff {stream : ReplicaStream replicaCount} {logIndex : Nat} :
    hasReplicaQuorum stream logIndex = true ↔
      0 < replicaCount ∧ replicaCount / 2 + 1 ≤ stream.ackCount logIndex := by
  unfold hasReplicaQuorum ReplicaStream.hasQuorum quorumSize
  split <;> simp <;> omega

theorem ackReplica_known (stream : ReplicaStream replicaCount) (r : Fin replicaCount)
    (logIndex : Nat) : stream.ackReplica r logIndex =
      (⟨Function.update stream.replicaProgress r (max (stream.replicaProgress r) logIndex)⟩,
        .ok ()) := by
  unfold ReplicaStream.ackReplica
  rw [dif_pos r.isLt]
  split
  · rename_i behind
    rw [max_eq_right behind.le]
  · rename_i ahead
    rw [max_eq_left (Nat.le_of_not_lt ahead), Function.update_eq_self]

/-- The policy after replica `r` acknowledges index `logIndex`, which was written in `mode`. -/
def observed (policy : AckPolicy replicaCount) (r : Fin replicaCount) (logIndex : Nat)
    (mode : WriteAckMode) : AckPolicy replicaCount :=
  let stream : ReplicaStream replicaCount :=
    ⟨Function.update policy.replicaStream.replicaProgress r
      (max (policy.replicaStream.replicaProgress r) logIndex)⟩
  { policy with
    replicaStream := stream
    acked :=
      if mode = .strongReplicaQuorum then
        policy.acked.insert logIndex
          (decide (logIndex ≤ policy.wal.commitIndex) && hasReplicaQuorum stream logIndex)
      else policy.acked }

@[simp] theorem observed_wal (r : Fin replicaCount) (logIndex : Nat) (mode : WriteAckMode) :
    (policy.observed r logIndex mode).wal = policy.wal := rfl

@[simp] theorem observed_writeModes (r : Fin replicaCount) (logIndex : Nat)
    (mode : WriteAckMode) : (policy.observed r logIndex mode).writeModes = policy.writeModes := rfl

@[simp] theorem applyWrite_replicaStream (mutation : Mutation) (mode : WriteAckMode) :
    (policy.applyWrite mutation mode).1.replicaStream = policy.replicaStream := rfl

/-- An acknowledgement throws and changes nothing, or its replica and its index are known. -/
theorem observeReplicaAck_cases (policy : AckPolicy replicaCount) (replicaId logIndex : Nat) :
    (∃ thrown, policy.observeReplicaAck replicaId logIndex = (policy, .error thrown)) ∨
      ∃ (r : Fin replicaCount) (mode : WriteAckMode), r.val = replicaId ∧
        policy.writeModes.lookup logIndex = some mode ∧
        policy.observeReplicaAck replicaId logIndex = (policy.observed r logIndex mode,
          .ok ((policy.observed r logIndex mode).buildResult logIndex)) := by
  unfold observeReplicaAck
  cases written : policy.writeModes.lookup logIndex with
  | none => exact .inl ⟨_, rfl⟩
  | some mode =>
    by_cases known : replicaId < replicaCount
    · right
      refine ⟨⟨replicaId, known⟩, mode, rfl, rfl, ?_⟩
      have acks := ackReplica_known policy.replicaStream ⟨replicaId, known⟩ logIndex
      simp only at acks
      simp only [acks]
      rfl
    · left
      simp [ReplicaStream.ackReplica, known]

end AckPolicy

end DistributedCache.Replication
