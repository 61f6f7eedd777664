import DistributedCache.Control.RaftMetadataAdapter
import DistributedCache.Lib.Pool

/-! Concurrent calls of the adapter's operations.  A call of the heartbeat manager is one step, and
so is each `IsAlive` check that an election makes while it holds the mutex of the shards.  A node
may die between the check that elects it and the assignment, but then the thread that reported its
death waits for the mutex, and its own pass comes later. -/

namespace DistributedCache.Control

open Lib

/-- The adapter with the thread that holds its mutex. -/
structure SharedAdapter (ι : Type) extends RaftMetadataAdapter where
  owner : Option ι

/-- The shard for which an election runs: one that an election pass visits, with the shards that it
has still to visit, or a new one. -/
inductive Target
  | visit (shardId : Bytes) (todo : List Bytes)
  | add (shardId : Bytes) (replicas : List Bytes)
deriving DecidableEq, Repr

/-- The shards of the pass that have not been visited. -/
def Target.remaining : Target → List Bytes
  | visit shardId todo => shardId :: todo
  | add _ _ => []

/-- Where a thread's call stands. -/
inductive Phase
  /-- No call is in progress. -/
  | idle
  /-- `OnHeartbeatTimeout` or `IngestGossip` has updated the heartbeats and waits for the mutex. -/
  | awaitPass
  /-- `AddShard` waits for the mutex. -/
  | awaitAdd (shardId : Bytes) (replicas : List Bytes)
  /-- The election pass is at the head of its loop. -/
  | pass (todo : List Bytes)
  /-- `ElectLeaderIfNeeded` is about to check the first of the candidates. -/
  | elect (target : Target) (candidates : List Bytes)
  /-- `ElectLeaderIfNeeded` has chosen a leader and is about to assign it. -/
  | assign (target : Target) (leader : Bytes)
  /-- `AddShard` is about to return. -/
  | unlock
deriving DecidableEq, Repr

/-- What the environment gives to a step: a new call, the mutex with the order in which a pass
visits the shards, or nothing. -/
inductive Action
  | call (call : RaftMetadataAdapter.Call)
  | acquire (order : List Bytes)
  | proceed
deriving DecidableEq, Repr

namespace Phase

variable {ι : Type}

/-- The first step of a call. -/
def begin (s : SharedAdapter ι) : RaftMetadataAdapter.Call → SharedAdapter ι × Phase
  | .registerNode nodeId ms =>
    ({ s with heartbeat := s.heartbeat.registerNode nodeId ms }, idle)
  | .recordHeartbeat nodeId ms =>
    ({ s with heartbeat := s.heartbeat.recordHeartbeat nodeId ms }, idle)
  | .addShard shardId replicas => (s, awaitAdd shardId replicas)
  | .onHeartbeatTimeout nodeId ms =>
    ({ s with heartbeat := s.heartbeat.onHeartbeatTimeout nodeId ms }, awaitPass)
  | .ingestGossip observations =>
    ({ s with heartbeat := s.heartbeat.ingestGossip observations }, awaitPass)

/-- The next step of a thread that holds the mutex. -/
def proceed (s : SharedAdapter ι) : Phase → Option (SharedAdapter ι × Phase)
  | pass [] => some ({ s with owner := none }, idle)
  | pass (shardId :: todo) =>
    match s.shards.lookup shardId with
    | none => some (s, pass todo)
    | some shard =>
      if shard.leader ≠ [] ∧ s.heartbeat.isAlive shard.leader = true then some (s, pass todo)
      else some (s, elect (.visit shardId todo) shard.replicas)
  | elect target [] => some (s, assign target [])
  | elect target (candidate :: candidates) =>
    if s.heartbeat.isAlive candidate = true then some (s, assign target candidate)
    else some (s, elect target candidates)
  | assign (.visit shardId todo) leader =>
    some ({ s with shards := s.shards.modify shardId fun shard => { shard with leader := leader } },
      pass todo)
  | assign (.add shardId replicas) leader =>
    some ({ s with shards := s.shards.insert shardId ⟨replicas, leader⟩ }, unlock)
  | unlock => some ({ s with owner := none }, idle)
  | _ => none

/-- One step of thread `i`. -/
def advance [DecidableEq ι] (i : ι) (s : SharedAdapter ι) :
    Phase → Action → Option (SharedAdapter ι × Phase)
  | idle, .call call => some (begin s call)
  | awaitPass, .acquire order =>
    if s.owner = none ∧ order.Perm s.shards.keys then
      some ({ s with owner := some i }, pass order)
    else none
  | awaitAdd shardId replicas, .acquire _ =>
    if s.owner = none then
      some ({ s with owner := some i }, elect (.add shardId replicas) replicas)
    else none
  | phase, .proceed => phase.proceed s
  | _, _ => none

/-- The steps of thread `i`, from the phase on the left to the shared state and the phase on the
right. -/
inductive Advances (i : ι) (s : SharedAdapter ι) : Phase → SharedAdapter ι → Phase → Prop
  | beat (nodeId : Bytes) (ms : UInt64) :
      Advances i s idle { s with heartbeat := s.heartbeat.beat nodeId ms } idle
  | report (heartbeat : HeartbeatManager) :
      Advances i s idle { s with heartbeat := heartbeat } awaitPass
  | callAdd (shardId : Bytes) (replicas : List Bytes) :
      Advances i s idle s (awaitAdd shardId replicas)
  | acquirePass {order : List Bytes} : s.owner = none → order.Perm s.shards.keys →
      Advances i s awaitPass { s with owner := some i } (pass order)
  | acquireAdd {shardId : Bytes} {replicas : List Bytes} : s.owner = none →
      Advances i s (awaitAdd shardId replicas) { s with owner := some i }
        (elect (.add shardId replicas) replicas)
  | finish : Advances i s (pass []) { s with owner := none } idle
  | absent {shardId : Bytes} {todo : List Bytes} : s.shards.lookup shardId = none →
      Advances i s (pass (shardId :: todo)) s (pass todo)
  | keep {shardId : Bytes} {todo : List Bytes} {shard : ShardMetadata} :
      s.shards.lookup shardId = some shard → s.heartbeat.isAlive shard.leader = true →
      Advances i s (pass (shardId :: todo)) s (pass todo)
  | reelect {shardId : Bytes} {todo : List Bytes} {shard : ShardMetadata} :
      s.shards.lookup shardId = some shard →
      Advances i s (pass (shardId :: todo)) s (elect (.visit shardId todo) shard.replicas)
  | exhausted {target : Target} : Advances i s (elect target []) s (assign target [])
  | elected {target : Target} {candidate : Bytes} {candidates : List Bytes} :
      s.heartbeat.isAlive candidate = true →
      Advances i s (elect target (candidate :: candidates)) s (assign target candidate)
  | skip {target : Target} {candidate : Bytes} {candidates : List Bytes} :
      Advances i s (elect target (candidate :: candidates)) s (elect target candidates)
  | lead {shardId leader : Bytes} {todo : List Bytes} :
      Advances i s (assign (.visit shardId todo) leader)
        { s with shards := s.shards.modify shardId fun shard => { shard with leader := leader } }
        (pass todo)
  | store {shardId leader : Bytes} {replicas : List Bytes} :
      Advances i s (assign (.add shardId replicas) leader)
        { s with shards := s.shards.insert shardId ⟨replicas, leader⟩ } unlock
  | release : Advances i s unlock { s with owner := none } idle

/-- The thread holds the mutex. -/
def holds : Phase → Bool
  | idle | awaitPass | awaitAdd _ _ => false
  | pass _ | elect _ _ | assign _ _ | unlock => true

/-- The shards that the thread's pass has still to visit or is visiting. -/
def remaining : Phase → List Bytes
  | pass todo => todo
  | elect target _ | assign target _ => target.remaining
  | _ => []

theorem proceed_sound {i : ι} {s s' : SharedAdapter ι} {phase phase' : Phase}
    (moved : phase.proceed s = some (s', phase')) : Advances i s phase s' phase' := by
  unfold proceed at moved
  split at moved
  · cases moved
    exact .finish
  · split at moved
    · rename_i missing
      cases moved
      exact .absent missing
    · rename_i shard found
      split at moved
      · rename_i alive
        cases moved
        exact .keep found alive.2
      · cases moved
        exact .reelect found
  · cases moved
    exact .exhausted
  · split at moved
    · rename_i alive
      cases moved
      exact .elected alive
    · cases moved
      exact .skip
  · cases moved
    exact .lead
  · cases moved
    exact .store
  · cases moved
    exact .release
  · cases moved

theorem advance_sound [DecidableEq ι] {i : ι} {s s' : SharedAdapter ι} {phase phase' : Phase}
    {action : Action} (moved : phase.advance i s action = some (s', phase')) :
    Advances i s phase s' phase' := by
  unfold advance at moved
  split at moved
  · rename_i call
    cases call with
    | registerNode nodeId ms | recordHeartbeat nodeId ms =>
      cases moved
      exact .beat nodeId ms
    | addShard shardId replicas =>
      cases moved
      exact .callAdd shardId replicas
    | onHeartbeatTimeout | ingestGossip =>
      cases moved
      exact .report _
  · split at moved
    · rename_i free
      cases moved
      exact .acquirePass free.1 free.2
    · cases moved
  · split at moved
    · rename_i free
      cases moved
      exact .acquireAdd free
    · cases moved
  · exact proceed_sound moved
  · cases moved

end Phase

/-- Threads `ι` that call the adapter. -/
def controllers (ι : Type) [DecidableEq ι] : Program ι (SharedAdapter ι) Phase Action Unit where
  advance i s phase action := (phase.advance i s action).map fun r => (r.1, r.2, ())

namespace Controllers

variable {ι : Type}

def start (ι : Type) : Pool ι (SharedAdapter ι) Phase := ⟨⟨.new, none⟩, fun _ => .idle⟩

/-- Some thread has updated the heartbeats and has yet to begin its pass. -/
def Waiting (p : Pool ι (SharedAdapter ι) Phase) : Prop := ∃ i, p.thread i = .awaitPass

/-- The leader is alive, or some pass that is yet to begin will see that it is not. -/
def Attended (heartbeat : HeartbeatManager) (waiting : Prop) (leader : Bytes) : Prop :=
  leader = [] ∨ heartbeat.isAlive leader = true ∨ waiting

/-- The replicas of the shard for which an election runs. -/
def replicasOf (shards : Shards) : Target → List Bytes
  | .visit shardId _ =>
    match shards.lookup shardId with
    | none => []
    | some shard => shard.replicas
  | .add _ replicas => replicas

/-- What an election knows of its candidates and of the leader that it has chosen. -/
def Sound (s : RaftMetadataAdapter) (waiting : Prop) : Phase → Prop
  | .elect target candidates => candidates ⊆ replicasOf s.shards target
  | .assign target leader =>
    (leader = [] ∨ leader ∈ replicasOf s.shards target) ∧ Attended s.heartbeat waiting leader
  | _ => True

/-- The leader of every shard is one of its replicas, and it is alive unless a pass will come to
the shard.  Only the thread that holds the mutex is in an election. -/
structure Inv (p : Pool ι (SharedAdapter ι) Phase) : Prop where
  exclusive : ∀ i, (p.thread i).holds = true → p.shared.owner = some i
  member : ∀ shardId shard, p.shared.shards.lookup shardId = some shard →
    shard.leader = [] ∨ shard.leader ∈ shard.replicas
  attended : ∀ shardId shard, p.shared.shards.lookup shardId = some shard →
    Attended p.shared.heartbeat (Waiting p) shard.leader ∨ ∃ i, shardId ∈ (p.thread i).remaining
  sound : ∀ i, Sound p.shared.toRaftMetadataAdapter (Waiting p) (p.thread i)

theorem start_inv (ι : Type) : Inv (start ι) where
  exclusive _ holds := by cases holds
  member _ _ found := by cases found
  attended _ _ found := by cases found
  sound _ := trivial

theorem Attended.mono {heartbeat heartbeat' : HeartbeatManager} {waiting waiting' : Prop}
    {leader : Bytes} (attended : Attended heartbeat waiting leader)
    (next : heartbeat.isAlive leader = true ∨ waiting →
      heartbeat'.isAlive leader = true ∨ waiting') :
    Attended heartbeat' waiting' leader :=
  attended.imp_right next

theorem Sound.mono {s s' : RaftMetadataAdapter} {waiting waiting' : Prop} {phase : Phase}
    (sound : Sound s waiting phase) (shards : s'.shards = s.shards)
    (next : ∀ leader, s.heartbeat.isAlive leader = true ∨ waiting →
      s'.heartbeat.isAlive leader = true ∨ waiting') : Sound s' waiting' phase := by
  cases phase with
  | elect target candidates =>
    rw [Sound, shards]
    exact sound
  | assign target leader =>
    rw [Sound, shards]
    exact ⟨sound.1, sound.2.mono (next leader)⟩
  | _ => trivial

theorem sound_of_not_holds {s : RaftMetadataAdapter} {waiting : Prop} {phase : Phase}
    (free : phase.holds = false) : Sound s waiting phase := by
  cases phase <;> trivial

theorem remaining_of_not_holds {phase : Phase} (free : phase.holds = false) :
    phase.remaining = [] := by
  cases phase <;> first | rfl | cases free

section

variable {p : Pool ι (SharedAdapter ι) Phase} {i : ι}

theorem Inv.outside_of_holds (inv : Inv p) (holds : (p.thread i).holds = true) {j : ι}
    (different : j ≠ i) : (p.thread j).holds = false := by
  by_contra other
  have := (inv.exclusive i holds).symm.trans (inv.exclusive j (by simpa using other))
  exact different (Option.some.inj this).symm

/-- Only the pass of the thread that holds the mutex has shards to visit. -/
theorem Inv.attended_of_holds (inv : Inv p) (holds : (p.thread i).holds = true)
    {shardId : Bytes} {shard : ShardMetadata}
    (found : p.shared.shards.lookup shardId = some shard) :
    Attended p.shared.heartbeat (Waiting p) shard.leader ∨
      shardId ∈ (p.thread i).remaining := by
  refine (inv.attended shardId shard found).imp_right fun ⟨j, todo⟩ => ?_
  by_cases same : j = i
  · exact same ▸ todo
  · simp [remaining_of_not_holds (inv.outside_of_holds holds same)] at todo

variable [DecidableEq ι] {s' : SharedAdapter ι} {phase' : Phase}

theorem waiting_update (before : p.thread i ≠ .awaitPass) (waiting : Waiting p) :
    Waiting ⟨s', Function.update p.thread i phase'⟩ := by
  obtain ⟨j, awaits⟩ := waiting
  have different : j ≠ i := by
    rintro rfl
    exact before awaits
  exact ⟨j, by simpa [different] using awaits⟩

/-- A step outside the mutex that leaves the shards as they are: every leader that was attended has
to stay so. -/
theorem Inv.outside (inv : Inv p) (free : (p.thread i).holds = false)
    (free' : phase'.holds = false) (shards : s'.shards = p.shared.shards)
    (owner : s'.owner = p.shared.owner)
    (next : ∀ leader, p.shared.heartbeat.isAlive leader = true ∨ Waiting p →
      s'.heartbeat.isAlive leader = true ∨ Waiting ⟨s', Function.update p.thread i phase'⟩) :
    Inv ⟨s', Function.update p.thread i phase'⟩ where
  exclusive j holds := by
    by_cases same : j = i
    · subst same
      simp [free'] at holds
    · rw [owner]
      exact inv.exclusive j (by simpa [same] using holds)
  member shardId shard found := inv.member shardId shard (shards ▸ found)
  attended shardId shard found := by
    rcases inv.attended shardId shard (shards ▸ found) with attended | ⟨j, todo⟩
    · exact .inl (attended.mono (next _))
    · have different : j ≠ i := by
        rintro rfl
        simp [remaining_of_not_holds free] at todo
      exact .inr ⟨j, by simpa [different] using todo⟩
  sound j := by
    by_cases same : j = i
    · subst same
      exact sound_of_not_holds (by simpa using free')
    · simpa [same] using (inv.sound j).mono shards next

/-- A step that takes the mutex: until then no thread was in an election. -/
theorem Inv.acquire (inv : Inv p) (free : p.shared.owner = none)
    (attended : ∀ shardId shard, p.shared.shards.lookup shardId = some shard →
      Attended p.shared.heartbeat (Waiting p) shard.leader →
      Attended p.shared.heartbeat
          (Waiting ⟨{ p.shared with owner := some i }, Function.update p.thread i phase'⟩)
          shard.leader ∨ shardId ∈ phase'.remaining)
    (sound : ∀ waiting, Sound p.shared.toRaftMetadataAdapter waiting phase') :
    Inv ⟨{ p.shared with owner := some i }, Function.update p.thread i phase'⟩ := by
  have outside : ∀ j, (p.thread j).holds = false := by
    intro j
    by_contra holds
    simp [inv.exclusive j (by simpa using holds)] at free
  refine ⟨fun j holds => ?_, inv.member, fun shardId shard found => ?_, fun j => ?_⟩
  · by_cases same : j = i
    · rw [same]
    · simp [same, outside j] at holds
  · rcases inv.attended shardId shard found with old | ⟨j, todo⟩
    · exact (attended shardId shard found old).imp_right fun todo => ⟨i, by simpa using todo⟩
    · simp [remaining_of_not_holds (outside j)] at todo
  · by_cases same : j = i
    · subst same
      simpa using sound _
    · simpa [same] using sound_of_not_holds (outside j)

/-- A step of the thread that holds the mutex. -/
theorem Inv.inside (inv : Inv p) (holds : (p.thread i).holds = true)
    (heartbeat : s'.heartbeat = p.shared.heartbeat)
    (owner : phase'.holds = true → s'.owner = some i)
    (member : ∀ shardId shard, s'.shards.lookup shardId = some shard →
      shard.leader = [] ∨ shard.leader ∈ shard.replicas)
    (attended : ∀ shardId shard, s'.shards.lookup shardId = some shard →
      Attended p.shared.heartbeat (Waiting p) shard.leader ∨ shardId ∈ phase'.remaining)
    (sound : Sound s'.toRaftMetadataAdapter (Waiting p) phase') :
    Inv ⟨s', Function.update p.thread i phase'⟩ := by
  have waits : Waiting p → Waiting ⟨s', Function.update p.thread i phase'⟩ :=
    waiting_update fun awaits => by simp [awaits, Phase.holds] at holds
  refine ⟨fun j holds' => ?_, member, fun shardId shard found => ?_, fun j => ?_⟩
  · by_cases same : j = i
    · subst same
      exact owner (by simpa using holds')
    · simp [same, inv.outside_of_holds holds same] at holds'
  · refine (attended shardId shard found).imp (fun old => ?_) fun todo => ⟨i, by simpa using todo⟩
    rw [heartbeat]
    exact old.mono (Or.imp_right waits)
  · by_cases same : j = i
    · subst same
      simpa using sound.mono rfl fun leader => Or.imp_right waits
    · simpa [same] using sound_of_not_holds (inv.outside_of_holds holds same)

/-- What one step keeps. -/
theorem Inv.step (inv : Inv p) (moved : (p.thread i).Advances i p.shared s' phase') :
    Inv ⟨s', Function.update p.thread i phase'⟩ := by
  have sound := inv.sound i
  have owner := inv.exclusive i
  have attended := @Inv.attended_of_holds ι p i inv
  have inside := @Inv.inside ι p i _ s' phase' inv
  generalize here : p.thread i = phase at *
  cases moved with
  | beat nodeId ms =>
    refine inv.outside (by rw [here]; rfl) rfl rfl rfl fun leader => ?_
    exact Or.imp (HeartbeatManager.isAlive_beat_mono ms) (waiting_update (by rw [here]; simp))
  | report heartbeat =>
    exact inv.outside (by rw [here]; rfl) rfl rfl rfl fun leader _ => .inr ⟨i, by simp⟩
  | callAdd shardId replicas =>
    refine inv.outside (by rw [here]; rfl) rfl rfl rfl fun leader => ?_
    exact Or.imp_right (waiting_update (by rw [here]; simp))
  | @acquirePass order free perm =>
    refine inv.acquire free (fun shardId shard found _ => .inr ?_) fun _ => trivial
    exact perm.mem_iff.mpr (AList.lookup_isSome.mp (by simp [found]))
  | acquireAdd free =>
    refine inv.acquire free (fun shardId shard found attended => .inl ?_) fun _ => ?_
    · exact attended.mono (Or.imp_right (waiting_update (by rw [here]; simp)))
    · exact fun _ => id
  | finish | release =>
    refine inside rfl rfl (fun holds => by cases holds) inv.member (fun shardId shard found => ?_)
      trivial
    exact attended rfl found
  | @absent shardId todo missing =>
    refine inside rfl rfl (fun _ => owner rfl) inv.member (fun other shard found => ?_) trivial
    refine (attended rfl found).imp_right fun todo => ?_
    refine (List.mem_cons.mp todo).resolve_left ?_
    rintro rfl
    simp [missing] at found
  | @keep shardId todo shard found alive =>
    refine inside rfl rfl (fun _ => owner rfl) inv.member (fun other shard' found' => ?_) trivial
    by_cases same : other = shardId
    · subst same
      rw [found] at found'
      cases found'
      exact .inl (.inr (.inl alive))
    · exact (attended rfl found').imp_right fun todo => (List.mem_cons.mp todo).resolve_left same
  | @reelect shardId todo shard found =>
    refine inside rfl rfl (fun _ => owner rfl) inv.member (fun _ _ => attended rfl) ?_
    rw [Sound, replicasOf, found]
    exact fun _ => id
  | exhausted =>
    refine inside rfl rfl (fun _ => owner rfl) inv.member (fun _ _ => ?_) ⟨.inl rfl, .inl rfl⟩
    exact attended rfl
  | elected alive =>
    refine inside rfl rfl (fun _ => owner rfl) inv.member (fun _ _ => ?_)
      ⟨.inr (sound List.mem_cons_self), .inr (.inl alive)⟩
    exact attended rfl
  | skip =>
    refine inside rfl rfl (fun _ => owner rfl) inv.member (fun _ _ => ?_)
      fun _ member => sound (List.mem_cons_of_mem _ member)
    exact attended rfl
  | @lead shardId leader todo =>
    refine inside rfl rfl (fun _ => owner rfl) (fun other shard found => ?_)
      (fun other shard found => ?_) trivial
    · rw [Shards.lookup_modify] at found
      split at found
      · rename_i same
        subst same
        obtain ⟨old, stored, rfl⟩ := Option.map_eq_some_iff.mp found
        simpa [replicasOf, stored] using sound.1
      · exact inv.member other shard found
    · rw [Shards.lookup_modify] at found
      split at found
      · obtain ⟨old, -, rfl⟩ := Option.map_eq_some_iff.mp found
        exact .inl sound.2
      · rename_i different
        refine (attended rfl found).imp_right fun todo => ?_
        exact (List.mem_cons.mp todo).resolve_left different
  | @store shardId leader replicas =>
    refine inside rfl rfl (fun _ => owner rfl) (fun other shard found => ?_)
      (fun other shard found => ?_) trivial
    · by_cases same : other = shardId
      · subst same
        rw [AList.lookup_insert] at found
        cases found
        exact sound.1
      · rw [AList.lookup_insert_ne same] at found
        exact inv.member other shard found
    · by_cases same : other = shardId
      · subst same
        rw [AList.lookup_insert] at found
        cases found
        exact .inl sound.2
      · rw [AList.lookup_insert_ne same] at found
        exact attended rfl found

end

/-- After every schedule of concurrent calls, when no call is in progress, the leader of each shard
is empty, or it is one of the shard's replicas and alive. -/
theorem leaders_alive_at_rest [DecidableEq ι] {schedule : List (ι × Action)}
    {after : Pool ι (SharedAdapter ι) Phase} {events : List Unit}
    (ran : (controllers ι).run (start ι) schedule = some (after, events))
    (rest : ∀ i, after.thread i = .idle) (shardId : Bytes) (shard : ShardMetadata)
    (found : after.shared.shards.lookup shardId = some shard) :
    shard.leader = [] ∨
      (shard.leader ∈ shard.replicas ∧ after.shared.heartbeat.isAlive shard.leader = true) := by
  have inv : Inv after := by
    refine Program.run_invariant (fun _ => True) Inv ?_ (start_inv ι) ran fun _ _ => trivial
    rintro s ⟨i, action⟩ t e inv - moved
    obtain ⟨shared, phase, advanced, rfl⟩ := Program.step_eq_some.mp moved
    obtain ⟨r, taken, same⟩ := Option.map_eq_some_iff.mp advanced
    cases same
    exact inv.step (Phase.advance_sound taken)
  rcases inv.member shardId shard found with empty | member
  · exact .inl empty
  · rcases inv.attended shardId shard found with (empty | alive | ⟨i, awaits⟩) | ⟨i, todo⟩
    · exact .inl empty
    · exact .inr ⟨member, alive⟩
    · simp [rest i] at awaits
    · simp [rest i, Phase.remaining] at todo

/-- A node dies after it has been elected and before it is assigned. -/
def lateDeath : List (Bool × Action) :=
  [(false, .call (.registerNode (ascii "a") 100)), (false, .call (.registerNode (ascii "b") 100)),
    (false, .call (.addShard (ascii "s") [ascii "a", ascii "b"])), (false, .acquire []),
    (false, .proceed), (true, .call (.onHeartbeatTimeout (ascii "a") 200)), (false, .proceed),
    (false, .proceed), (true, .acquire [ascii "s"]), (true, .proceed), (true, .proceed),
    (true, .proceed), (true, .proceed), (true, .proceed)]

theorem lateDeath_leader : ∃ after events,
    (controllers Bool).run (start Bool) lateDeath = some (after, events) ∧
      after.shared.heartbeat.isAlive (ascii "b") = true := by
  have ran : ((controllers Bool).run (start Bool) lateDeath).isSome = true := by decide
  have led := leaders_alive_at_rest (Option.some_get ran).symm (by decide) (ascii "s")
    ⟨[ascii "a", ascii "b"], ascii "b"⟩ (by decide)
  exact ⟨_, _, (Option.some_get ran).symm, (led.resolve_left (by decide)).2⟩

end Controllers

end DistributedCache.Control
