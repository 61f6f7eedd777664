import DistributedCache.Lib.Pool
import Mathlib.Tactic.Common

/-! The threads of `main` from the moment they start to the exit code: the two listeners, the thread
that waits for the gRPC server, the timer of `--run-for-ms`, and `main` itself, which polls the stop
flag, shuts the gRPC server down, and joins the others.  Signals may set the flag at any time.  The
gRPC server is a parameter, and what `Shutdown()` and `Wait()` promise of it is a hypothesis. -/

namespace DistributedCache.Server

open Lib

inductive Role
  | main
  | resp
  | metrics
  | grpc
  | timer
  /-- The threads of the gRPC library, which `main` does not start. -/
  | server
deriving DecidableEq, Repr

/-- The threads that `main` joins, in the order in which it joins them. -/
def joined : List Role := [.grpc, .resp, .metrics, .timer]

/-- The gRPC server as `main` uses it: the state in which `BuildAndStart` leaves it, what its own
threads do (a call arrives, a call ends), the effect of a call of `Shutdown()`, and in which states
a call of `Shutdown()` and one of `Wait()` return. -/
structure GrpcServer (γ : Type) where
  started : γ
  works : γ → Nat → Option γ
  shutdown : γ → γ
  shutdownReturns : γ → Bool
  waitReturns : γ → Bool

/-- What `Shutdown()` promises when it has no deadline.  The server is `down` from the call on; its
pending calls end, in at most `remaining` steps of the library; and then `Shutdown()` and `Wait()`
return. -/
structure GrpcServer.ShutsDown {γ : Type} (grpc : GrpcServer γ) (down : γ → Prop)
    (remaining : γ → Nat) : Prop where
  shutdown : ∀ server, down (grpc.shutdown server)
  works : ∀ server choice next, down server → grpc.works server choice = some next →
    down next ∧ remaining next < remaining server
  returns : ∀ server, down server → (∃ choice, (grpc.works server choice).isSome = true) ∨
    (grpc.shutdownReturns server = true ∧ grpc.waitReturns server = true)

/-- What the threads share: `stop`, `listener_failed`, the gRPC server, and which threads have
ended.  A timer that was never started has nothing left to end. -/
structure Process (γ : Type) where
  stop : Bool
  failed : Bool
  server : γ
  finished : Role → Bool

/-- Where a thread stands. -/
inductive Stage
  /-- A listener is about to call `CreateListeningSocket`. -/
  | binding
  /-- It has failed to bind and is about to store `listener_failed`. -/
  | failing
  /-- `RequestStop` is about to store the flag. -/
  | requesting
  /-- `RequestStop` is about to notify the waiting threads. -/
  | notifying
  /-- A listener is about to load the flag. -/
  | looping
  /-- It is about to call `select`. -/
  | selecting
  /-- It is about to call `accept`. -/
  | accepting
  /-- It has a client in hand. -/
  | serving
  /-- It is about to close its socket. -/
  | closing
  /-- `server->Wait()` has not returned. -/
  | serverWait
  /-- The timer is in `wait_for`. -/
  | timing
  /-- `main` is about to load the flag. -/
  | polling
  /-- `main` is in `wait_for`. -/
  | pollWait
  /-- `main` is about to notify the timer. -/
  | announcing
  /-- `main` is about to call `server->Shutdown()`. -/
  | shuttingDown
  /-- `server->Shutdown()` has not returned. -/
  | shutdownWait
  /-- `main` is about to join the threads that are left. -/
  | joining (left : List Role)
  /-- `main` has returned an exit code. -/
  | returned (code : Nat)
  /-- The gRPC library serves its calls. -/
  | answering
  /-- The thread has ended. -/
  | done
deriving DecidableEq, Repr

/-- What the environment decides at a step: how a system call ends, why a wait returns, that a
signal arrives, or what the gRPC library does. -/
inductive Outcome
  | succeeds
  | fails
  | interrupted
  | timeout
  | signal
  | works (choice : Nat)
deriving DecidableEq, Repr

/-- What a step shows of the sockets and of the exit. -/
inductive Mark
  | bindFailed
  | opened
  | closed
deriving DecidableEq, Repr

variable {γ : Type} {grpc : GrpcServer γ}

namespace Process

def finish (process : Process γ) (role : Role) : Process γ :=
  { process with finished := Function.update process.finished role true }

/-- The exit code. -/
def exitCode (process : Process γ) : Nat := if process.failed then 1 else 0

/-- One step of the thread `role`.  `wait_for` returns the predicate when it times out, and else
only when the predicate holds; `server->Shutdown()` and `server->Wait()` return when the server
says so; a join returns after the thread has ended. -/
def advance (grpc : GrpcServer γ) (role : Role) (process : Process γ) :
    Stage → Outcome → Option (Process γ × Stage × Option Mark)
  | .returned _, _ | .done, _ => none
  | stage, .signal => some ({ process with stop := true }, stage, none)
  | .binding, .fails => some (process, .failing, some .bindFailed)
  | .binding, _ => some (process, .looping, some .opened)
  | .failing, _ => some ({ process with failed := true }, .requesting, none)
  | .requesting, _ => some ({ process with stop := true }, .notifying, none)
  | .notifying, _ => some (process.finish role, .done, none)
  | .looping, _ => some (process, if process.stop then .closing else .selecting, none)
  | .selecting, .fails => some (process, .closing, none)
  | .selecting, .succeeds => some (process, .accepting, none)
  | .selecting, _ => some (process, .looping, none)
  | .accepting, .succeeds => some (process, .serving, none)
  | .accepting, _ => some (process, .looping, none)
  | .serving, _ => some (process, .looping, none)
  | .closing, _ => some (process.finish role, .done, some .closed)
  | .serverWait, _ =>
    if grpc.waitReturns process.server then some (process.finish role, .done, none) else none
  | .timing, .timeout =>
    if process.stop then some (process.finish role, .done, none)
    else some (process, .requesting, none)
  | .timing, _ => if process.stop then some (process.finish role, .done, none) else none
  | .polling, _ => some (process, if process.stop then .announcing else .pollWait, none)
  | .pollWait, _ => some (process, .polling, none)
  | .announcing, _ => some (process, .shuttingDown, none)
  | .shuttingDown, _ =>
    some ({ process with server := grpc.shutdown process.server }, .shutdownWait, none)
  | .shutdownWait, _ =>
    if grpc.shutdownReturns process.server then some (process, .joining joined, none) else none
  | .joining [], _ => some (process, .returned process.exitCode, none)
  | .joining (next :: left), _ =>
    if process.finished next then some (process, .joining left, none) else none
  | .answering, .works choice =>
    (grpc.works process.server choice).map fun server =>
      ({ process with server := server }, .answering, none)
  | .answering, _ => none

/-- The ways in which a thread can move. -/
inductive Steps (grpc : GrpcServer γ) (role : Role) (process : Process γ) (outcome : Outcome) :
    Stage → Process γ → Stage → Option Mark → Prop
  | signal {stage : Stage} : outcome = .signal → stage ≠ .done →
      (∀ code, stage ≠ .returned code) →
      Steps grpc role process outcome stage { process with stop := true } stage none
  | bindFails : Steps grpc role process outcome .binding process .failing (some .bindFailed)
  | bind : Steps grpc role process outcome .binding process .looping (some .opened)
  | fail :
      Steps grpc role process outcome .failing { process with failed := true } .requesting none
  | request :
      Steps grpc role process outcome .requesting { process with stop := true } .notifying none
  | notify : Steps grpc role process outcome .notifying (process.finish role) .done none
  | leave : process.stop = true →
      Steps grpc role process outcome .looping process .closing none
  | select : process.stop = false →
      Steps grpc role process outcome .looping process .selecting none
  | selectFails : Steps grpc role process outcome .selecting process .closing none
  | ready : Steps grpc role process outcome .selecting process .accepting none
  | idle : Steps grpc role process outcome .selecting process .looping none
  | accept : Steps grpc role process outcome .accepting process .serving none
  | acceptFails : Steps grpc role process outcome .accepting process .looping none
  | serve : Steps grpc role process outcome .serving process .looping none
  | close : Steps grpc role process outcome .closing (process.finish role) .done (some .closed)
  | serverStops : grpc.waitReturns process.server = true →
      Steps grpc role process outcome .serverWait (process.finish role) .done none
  | timerEnds : process.stop = true →
      Steps grpc role process outcome .timing (process.finish role) .done none
  | expire : process.stop = false →
      Steps grpc role process outcome .timing process .requesting none
  | pollStop : process.stop = true →
      Steps grpc role process outcome .polling process .announcing none
  | poll : process.stop = false →
      Steps grpc role process outcome .polling process .pollWait none
  | wake : Steps grpc role process outcome .pollWait process .polling none
  | announce : Steps grpc role process outcome .announcing process .shuttingDown none
  | shutDown : Steps grpc role process outcome .shuttingDown
      { process with server := grpc.shutdown process.server } .shutdownWait none
  | downed : grpc.shutdownReturns process.server = true →
      Steps grpc role process outcome .shutdownWait process (.joining joined) none
  | join {next : Role} {left : List Role} : process.finished next = true →
      Steps grpc role process outcome (.joining (next :: left)) process (.joining left) none
  | exit : Steps grpc role process outcome (.joining []) process (.returned process.exitCode) none
  | answer {choice : Nat} {server : γ} : outcome = .works choice →
      grpc.works process.server choice = some server →
      Steps grpc role process outcome .answering { process with server := server } .answering none

theorem advance_sound {role : Role} {s t : Process γ} {stage stage' : Stage} {outcome : Outcome}
    {mark : Option Mark} (moved : s.advance grpc role stage outcome = some (t, stage', mark)) :
    Steps grpc role s outcome stage t stage' mark := by
  unfold advance at moved
  split at moved
  case h_1 | h_2 => cases moved
  case h_3 live ended =>
    cases moved
    exact .signal rfl ended fun code same => live code same
  case h_4 => cases moved; exact .bindFails
  case h_5 => cases moved; exact .bind
  case h_6 => cases moved; exact .fail
  case h_7 => cases moved; exact .request
  case h_8 => cases moved; exact .notify
  case h_9 =>
    cases stop : s.stop <;> simp only [stop] at moved <;> cases moved
    · exact .select stop
    · exact .leave stop
  case h_10 => cases moved; exact .selectFails
  case h_11 => cases moved; exact .ready
  case h_12 => cases moved; exact .idle
  case h_13 => cases moved; exact .accept
  case h_14 => cases moved; exact .acceptFails
  case h_15 => cases moved; exact .serve
  case h_16 => cases moved; exact .close
  case h_17 =>
    split at moved <;> cases moved
    rename_i down
    exact .serverStops down
  case h_18 =>
    cases stop : s.stop <;> simp only [stop] at moved <;> cases moved
    · exact .expire stop
    · exact .timerEnds stop
  case h_19 =>
    split at moved <;> cases moved
    rename_i stop
    exact .timerEnds stop
  case h_20 =>
    cases stop : s.stop <;> simp only [stop] at moved <;> cases moved
    · exact .poll stop
    · exact .pollStop stop
  case h_21 => cases moved; exact .wake
  case h_22 => cases moved; exact .announce
  case h_23 => cases moved; exact .shutDown
  case h_24 =>
    split at moved <;> cases moved
    rename_i returns
    exact .downed returns
  case h_25 => cases moved; exact .exit
  case h_26 =>
    split at moved <;> cases moved
    rename_i ended
    exact .join ended
  case h_27 =>
    obtain ⟨server, works, same⟩ := Option.map_eq_some_iff.mp moved
    cases same
    exact .answer rfl works
  case h_28 => cases moved

end Process

/-- The threads of the process, with the thread of each event. -/
def process (grpc : GrpcServer γ) :
    Program Role (Process γ) Stage Outcome (Role × Option Mark) where
  advance role s stage outcome :=
    (s.advance grpc role stage outcome).map fun r => (r.1, r.2.1, (role, r.2.2))

theorem process_step {s t : Pool Role (Process γ) Stage} {role : Role} {outcome : Outcome}
    {event : Role × Option Mark} (moved : (process grpc).step s (role, outcome) = some (t, event)) :
    ∃ shared stage mark, s.shared.advance grpc role (s.thread role) outcome =
      some (shared, stage, mark) ∧ t = ⟨shared, Function.update s.thread role stage⟩ ∧
        event = (role, mark) := by
  obtain ⟨shared, stage, advanced, rfl⟩ := Program.step_eq_some.mp moved
  obtain ⟨⟨shared', stage', mark⟩, steps, same⟩ := Option.map_eq_some_iff.mp advanced
  cases same
  exact ⟨_, _, _, steps, rfl, rfl⟩

/-- The threads when they start; the timer runs only with `--run-for-ms`. -/
def processStart (grpc : GrpcServer γ) (timed : Bool) : Pool Role (Process γ) Stage :=
  ⟨⟨false, false, grpc.started, fun role => decide (role = .timer) && !timed⟩, fun
    | .main => .polling
    | .resp | .metrics => .binding
    | .grpc => .serverWait
    | .timer => if timed then .timing else .done
    | .server => .answering⟩

/-- The marks of a thread, in order. -/
def marksOf (role : Role) (events : List (Role × Option Mark)) : List Mark :=
  events.filterMap fun e => if e.1 = role then e.2 else none

theorem marksOf_snoc (role other : Role) (events : List (Role × Option Mark)) (mark : Option Mark) :
    marksOf role (events ++ [(other, mark)]) =
      if other = role then marksOf role events ++ mark.toList else marksOf role events := by
  unfold marksOf
  rw [List.filterMap_append]
  by_cases same : other = role
  · cases mark <;> simp [same]
  · simp [same]

/-- What a thread has shown and what holds of the flags, by where the thread stands. -/
def Stage.Fits (role : Role) (s : Process γ) (marks : List Mark) : Stage → Prop
  | binding => marks = [] ∧ (role = .resp ∨ role = .metrics)
  | failing => marks = [.bindFailed] ∧ role ∈ joined
  | requesting | notifying => role ∈ joined ∧
      ((marks = [.bindFailed] ∧ s.failed = true) ∨ (marks = [] ∧ role = .timer))
  | looping | selecting | accepting | serving | closing => marks = [.opened] ∧ role ∈ joined
  | done => role ∈ joined ∧ ((marks = [.bindFailed] ∧ s.failed = true) ∨
      marks = [.opened, .closed] ∨ (marks = [] ∧ (role = .grpc ∨ role = .timer)))
  | serverWait => marks = [] ∧ role = .grpc
  | timing => marks = [] ∧ role = .timer
  | polling | pollWait => marks = [] ∧ role = .main
  | announcing | shuttingDown | shutdownWait => marks = [] ∧ role = .main ∧ s.stop = true
  | joining left => marks = [] ∧ role = .main ∧ s.stop = true ∧
      ∃ ended, ended ++ left = joined ∧ ∀ other ∈ ended, s.finished other = true
  | returned code => marks = [] ∧ role = .main ∧ s.stop = true ∧
      (∀ other ∈ joined, s.finished other = true) ∧ code = s.exitCode
  | answering => marks = [] ∧ role = .server

/-- The flags only rise. -/
structure Process.Rises (s t : Process γ) : Prop where
  stop : s.stop = true → t.stop = true
  failed : s.failed = true → t.failed = true
  finished : ∀ role, s.finished role = true → t.finished role = true

namespace Process

theorem rises_finish (s : Process γ) (role : Role) : s.Rises (s.finish role) := by
  refine ⟨id, id, fun other ended => ?_⟩
  by_cases same : other = role
  · simp [finish, same]
  · simp [finish, same, ended]

theorem Steps.rises {role : Role} {s t : Process γ} {stage stage' : Stage} {outcome : Outcome}
    {mark : Option Mark} (moved : Steps grpc role s outcome stage t stage' mark) :
    s.Rises t := by
  cases moved with
  | signal | request => exact ⟨fun _ => rfl, id, fun _ => id⟩
  | fail => exact ⟨id, fun _ => rfl, fun _ => id⟩
  | notify | close | serverStops | timerEnds => exact rises_finish s role
  | _ => exact ⟨id, id, fun _ => id⟩

end Process

/-- A thread that does not move fits on, unless `main` has returned and the exit code would
change. -/
theorem Stage.Fits.other {role : Role} {s t : Process γ} {marks : List Mark} {stage : Stage}
    (fits : stage.Fits role s marks) (rises : s.Rises t)
    (settled : ∀ code, stage = .returned code → t.failed = s.failed) :
    stage.Fits role t marks := by
  cases stage with
  | requesting | notifying | done =>
    exact ⟨fits.1, fits.2.imp_left fun h => ⟨h.1, rises.failed h.2⟩⟩
  | announcing | shuttingDown | shutdownWait => exact ⟨fits.1, fits.2.1, rises.stop fits.2.2⟩
  | joining left =>
    obtain ⟨unmarked, isMain, stop, ended, split, all⟩ := fits
    exact ⟨unmarked, isMain, rises.stop stop, ended, split,
      fun other member => rises.finished other (all other member)⟩
  | returned code =>
    obtain ⟨unmarked, isMain, stop, all, exit⟩ := fits
    refine ⟨unmarked, isMain, rises.stop stop,
      fun other member => rises.finished other (all other member), ?_⟩
    rw [exit, Process.exitCode, Process.exitCode, settled code rfl]
  | _ => exact fits

/-- A thread that moves fits where it goes. -/
theorem Process.Steps.fits {role : Role} {s t : Process γ} {stage stage' : Stage}
    {marks : List Mark} {outcome : Outcome} {mark : Option Mark}
    (moved : Steps grpc role s outcome stage t stage' mark) (fits : stage.Fits role s marks) :
    stage'.Fits role t (marks ++ mark.toList) := by
  have rises := moved.rises
  have quiet : ∀ {next : Stage}, next.Fits role t marks →
      next.Fits role t (marks ++ (none : Option Mark).toList) := by
    intro next fits
    rwa [Option.toList_none, List.append_nil]
  cases moved with
  | signal _ live running =>
    exact quiet (fits.other rises fun code same => absurd same (running code))
  | bindFails | bind =>
    obtain ⟨rfl, rfl | rfl⟩ := fits <;> exact ⟨rfl, by decide⟩
  | close =>
    obtain ⟨rfl, other⟩ := fits
    exact ⟨other, .inr (.inl rfl)⟩
  | fail => exact quiet ⟨fits.2, .inl ⟨fits.1, rfl⟩⟩
  | notify => exact quiet ⟨fits.1, fits.2.imp id fun h => .inr ⟨h.1, .inr h.2⟩⟩
  | request | leave | select | selectFails | ready | idle | accept | acceptFails | serve | poll
  | wake | announce | shutDown | answer => exact quiet fits
  | serverStops =>
    obtain ⟨unmarked, rfl⟩ := fits
    exact quiet ⟨by decide, .inr (.inr ⟨unmarked, .inl rfl⟩)⟩
  | timerEnds =>
    obtain ⟨unmarked, rfl⟩ := fits
    exact quiet ⟨by decide, .inr (.inr ⟨unmarked, .inr rfl⟩)⟩
  | expire =>
    obtain ⟨unmarked, rfl⟩ := fits
    exact quiet ⟨by decide, .inr ⟨unmarked, rfl⟩⟩
  | pollStop stop => exact quiet ⟨fits.1, fits.2, stop⟩
  | downed =>
    obtain ⟨unmarked, isMain, stop⟩ := fits
    exact quiet ⟨unmarked, isMain, stop, [], rfl, by simp⟩
  | @join next left now =>
    obtain ⟨unmarked, isMain, stop, ended, split, all⟩ := fits
    refine quiet ⟨unmarked, isMain, stop, ended ++ [next], by simpa using split, ?_⟩
    intro other member
    rcases List.mem_append.mp member with earlier | last
    · exact all other earlier
    · rwa [List.mem_singleton.mp last]
  | exit =>
    obtain ⟨unmarked, isMain, stop, ended, split, all⟩ := fits
    rw [List.append_nil] at split
    exact quiet ⟨unmarked, isMain, stop, split ▸ all, rfl⟩

/-- What holds of the process after the events of a run. -/
structure Orderly (events : List (Role × Option Mark)) (s : Pool Role (Process γ) Stage) :
    Prop where
  fits : ∀ role, (s.thread role).Fits role s.shared (marksOf role events)
  finished : ∀ role, s.shared.finished role = true ↔ s.thread role = .done
  failed : s.shared.failed = true → ∃ role, Mark.bindFailed ∈ marksOf role events

theorem orderly_start (timed : Bool) : Orderly [] (processStart grpc timed) where
  fits := by
    rintro (_ | _ | _ | _ | _ | _)
    · exact ⟨rfl, rfl⟩
    · exact ⟨rfl, .inl rfl⟩
    · exact ⟨rfl, .inr rfl⟩
    · exact ⟨rfl, rfl⟩
    · cases timed
      · exact ⟨by decide, .inr (.inr ⟨rfl, .inr rfl⟩)⟩
      · exact ⟨rfl, rfl⟩
    · exact ⟨rfl, rfl⟩
  finished := by
    rintro (_ | _ | _ | _ | _ | _) <;> cases timed <;> simp [processStart]
  failed := by
    intro failed
    cases failed

/-- Only a thread that ends is marked as ended. -/
theorem Process.Steps.finished {role : Role} {s t : Process γ} {stage stage' : Stage}
    {outcome : Outcome} {mark : Option Mark}
    (moved : Steps grpc role s outcome stage t stage' mark) (other : Role) :
    t.finished other = true ↔
      s.finished other = true ∨ (other = role ∧ stage' = .done) := by
  cases moved with
  | signal _ live => simp [live]
  | notify | close | serverStops | timerEnds =>
    by_cases same : other = role <;> simp [finish, same]
  | _ => simp

/-- The failure of a listener is stored after it has shown. -/
theorem Process.Steps.failed {role : Role} {s t : Process γ} {stage stage' : Stage}
    {outcome : Outcome} {mark : Option Mark}
    (moved : Steps grpc role s outcome stage t stage' mark) (failed : t.failed = true) :
    s.failed = true ∨ stage = .failing := by
  cases moved with
  | fail => exact .inr rfl
  | _ => exact .inl failed

/-- A thread that has not ended has not ended, and `main` has not returned, if it moves. -/
theorem Process.Steps.live {role : Role} {s t : Process γ} {stage stage' : Stage}
    {outcome : Outcome} {mark : Option Mark}
    (moved : Steps grpc role s outcome stage t stage' mark) :
    stage ≠ .done ∧ ∀ code, stage ≠ .returned code := by
  cases moved with
  | signal _ live running => exact ⟨live, running⟩
  | _ => simp

/-- After `main` has returned, the threads that it joins do not move, and no other one fails. -/
theorem Orderly.settled {events : List (Role × Option Mark)} {s : Pool Role (Process γ) Stage}
    (orderly : Orderly events s) {role : Role} {shared : Process γ} {stage : Stage}
    {outcome : Outcome} {mark : Option Mark} {code : Nat}
    (moved : Process.Steps grpc role s.shared outcome (s.thread role) shared stage mark)
    (exited : s.thread .main = .returned code) : shared.failed = s.shared.failed := by
  have fits := orderly.fits .main
  rw [exited] at fits
  obtain ⟨-, -, -, all, -⟩ := fits
  cases before : s.shared.failed with
  | true => exact moved.rises.failed before
  | false =>
    by_contra after
    rcases moved.failed (Bool.not_eq_false _ ▸ after) with failed | failing
    · simp [before] at failed
    · have fits := orderly.fits role
      rw [failing] at fits
      exact moved.live.1 ((orderly.finished role).mp (all role fits.2))

theorem Orderly.step {events : List (Role × Option Mark)} {s t : Pool Role (Process γ) Stage}
    {l : Role × Outcome} {event : Role × Option Mark} (orderly : Orderly events s)
    (moved : (process grpc).step s l = some (t, event)) : Orderly (events ++ [event]) t := by
  obtain ⟨role, outcome⟩ := l
  obtain ⟨shared', stage', mark, steps, rfl, rfl⟩ := process_step moved
  have sound := Process.advance_sound steps
  have keeps : ∀ other, Mark.bindFailed ∈ marksOf other events →
      Mark.bindFailed ∈ marksOf other (events ++ [(role, mark)]) := by
    intro other member
    rw [marksOf_snoc]
    split
    · exact List.mem_append_left _ member
    · exact member
  refine ⟨fun other => ?_, fun other => ?_, fun failed => ?_⟩
  · rw [marksOf_snoc]
    by_cases same : role = other
    · subst same
      simpa using sound.fits (orderly.fits role)
    · have settled : ∀ code, s.thread other = .returned code →
          shared'.failed = s.shared.failed := by
        intro code exited
        have fits := orderly.fits other
        rw [exited] at fits
        exact orderly.settled sound (fits.2.1 ▸ exited)
      simpa [same, Ne.symm same] using (orderly.fits other).other sound.rises settled
  · rw [sound.finished other, orderly.finished other]
    by_cases same : other = role
    · subst same
      simp [sound.live]
    · simp [same]
  · rcases sound.failed failed with before | failing
    · obtain ⟨other, member⟩ := orderly.failed before
      exact ⟨other, keeps other member⟩
    · have fits := orderly.fits role
      rw [failing] at fits
      have marks : marksOf role events = [.bindFailed] := fits.1
      exact ⟨role, keeps role (by rw [marks]; exact List.mem_singleton_self _)⟩

/-- The threads that `main` does not join show nothing. -/
theorem Stage.Fits.unmarked {role : Role} {s : Process γ} {marks : List Mark} {stage : Stage}
    (fits : stage.Fits role s marks) (other : role ∉ joined) : marks = [] := by
  cases stage with
  | failing | looping | selecting | accepting | serving | closing => exact absurd fits.2 other
  | requesting | notifying | done => exact absurd fits.1 other
  | _ => exact fits.1

theorem process_orderly {timed : Bool} {schedule : List (Role × Outcome)}
    {after : Pool Role (Process γ) Stage} {events : List (Role × Option Mark)}
    (ran : (process grpc).run (processStart grpc timed) schedule = some (after, events)) :
    Orderly events after :=
  Program.run_induction Orderly (fun _ _ _ _ _ orderly moved => orderly.step moved)
    (orderly_start timed) ran

/-- What has become of the sockets when `main` has returned `code`: the listener has failed to bind
and has no socket, or it has opened its socket and closed it, once each.  The code tells whether a
listener has failed to bind.  The gRPC server may do anything. -/
theorem exit_clean {timed : Bool} {schedule : List (Role × Outcome)}
    {after : Pool Role (Process γ) Stage} {events : List (Role × Option Mark)} {code : Nat}
    (ran : (process grpc).run (processStart grpc timed) schedule = some (after, events))
    (exited : after.thread .main = .returned code) :
    (∀ role ∈ joined, after.thread role = .done) ∧
      (∀ role, role = .resp ∨ role = .metrics →
        marksOf role events = [.bindFailed] ∨ marksOf role events = [.opened, .closed]) ∧
      (code = 1 ↔ ∃ role, Mark.bindFailed ∈ marksOf role events) ∧ (code = 0 ∨ code = 1) := by
  have orderly := process_orderly ran
  have fits := orderly.fits .main
  rw [exited] at fits
  obtain ⟨unmarked, -, -, all, rfl⟩ := fits
  have ended : ∀ role ∈ joined, after.thread role = .done :=
    fun role member => (orderly.finished role).mp (all role member)
  have shown : ∀ role ∈ joined, (marksOf role events = [.bindFailed] ∧
      after.shared.failed = true) ∨ marksOf role events = [.opened, .closed] ∨
        (marksOf role events = [] ∧ (role = .grpc ∨ role = .timer)) := by
    intro role member
    have fits := orderly.fits role
    rw [ended role member] at fits
    exact fits.2
  refine ⟨ended, ?_, ?_, ?_⟩
  · rintro role (rfl | rfl)
    · exact (shown .resp (by decide)).imp And.left fun h => h.resolve_right (by simp)
    · exact (shown .metrics (by decide)).imp And.left fun h => h.resolve_right (by simp)
  · constructor
    · intro one
      refine orderly.failed ?_
      by_contra clear
      simp [Process.exitCode, clear] at one
    · rintro ⟨role, member⟩
      by_cases isJoined : role ∈ joined
      · rcases shown role isJoined with ⟨-, failed⟩ | marks | ⟨marks, -⟩
        · simp [Process.exitCode, failed]
        · simp [marks] at member
        · simp [marks] at member
      · rw [(orderly.fits role).unmarked isJoined] at member
        cases member
  · unfold Process.exitCode
    split
    · exact .inr rfl
    · exact .inl rfl

/-! ### The end of the process -/

/-- Whether `main` has called `Shutdown()`. -/
def Stage.calledShutdown : Stage → Bool
  | shutdownWait | joining _ | returned _ => true
  | _ => false

/-- The steps that a thread can still take after the flag was set. -/
def Stage.left : Stage → Nat
  | done | returned _ | answering => 0
  | notifying | closing | serverWait | timing => 1
  | requesting | looping => 2
  | failing | serving => 3
  | binding | accepting => 4
  | selecting => 5
  | joining left => left.length + 1
  | shutdownWait => 6
  | shuttingDown => 7
  | announcing => 8
  | polling => 9
  | pollWait => 10

/-- A step of a thread that `main` starts or of `main` itself. -/
def ownStep (l : Role × Outcome) : Bool := l.1 != .server && l.2 != .signal

/-- A step of the gRPC library. -/
def libraryStep (l : Role × Outcome) : Bool := l.1 == .server && l.2 != .signal

theorem Stage.Fits.answering_iff {role : Role} {s : Process γ} {marks : List Mark} {stage : Stage}
    (fits : stage.Fits role s marks) : stage = .answering ↔ role = .server := by
  have other : role ∈ joined → role ≠ .server := by
    rintro member rfl
    exact absurd member (by decide)
  cases stage with
  | failing | looping | selecting | accepting | serving | closing => simp [other fits.2]
  | requesting | notifying | done => simp [other fits.1]
  | binding => rcases fits.2 with rfl | rfl <;> simp
  | serverWait | timing | polling | pollWait | answering => simp [fits.2]
  | _ => simp [fits.2.1]

namespace Process

theorem Steps.left_lt {role : Role} {s t : Process γ} {stage stage' : Stage} {outcome : Outcome}
    {mark : Option Mark} (moved : Steps grpc role s outcome stage t stage' mark)
    (stopped : s.stop = true) (own : outcome ≠ .signal) (main : stage ≠ .answering) :
    stage'.left < stage.left := by
  cases moved with
  | signal isSignal => exact absurd isSignal own
  | select running | expire running | poll running => simp [stopped] at running
  | answer => exact absurd rfl main
  | _ => simp [Stage.left, joined]

/-- A signal moves no thread. -/
theorem advance_signal {role : Role} {s t : Process γ} {stage stage' : Stage}
    {mark : Option Mark} (moved : s.advance grpc role stage .signal = some (t, stage', mark)) :
    stage' = stage := by
  cases stage <;> cases moved <;> rfl

/-- Who changes the gRPC server. -/
theorem Steps.server {role : Role} {s t : Process γ} {stage stage' : Stage} {outcome : Outcome}
    {mark : Option Mark} (moved : Steps grpc role s outcome stage t stage' mark) :
    stage = .shuttingDown ∨
      (stage = .answering ∧ ∃ choice, grpc.works s.server choice = some t.server) ∨
      ((stage = .answering → outcome = .signal) ∧ t.server = s.server) := by
  cases moved with
  | shutDown => exact .inl rfl
  | @answer choice server _ works => exact .inr (.inl ⟨rfl, choice, works⟩)
  | signal isSignal => exact .inr (.inr ⟨fun _ => isSignal, rfl⟩)
  | _ => exact .inr (.inr ⟨by simp, rfl⟩)

/-- A call of `Shutdown()` stays made. -/
theorem Steps.calledShutdown {role : Role} {s t : Process γ} {stage stage' : Stage}
    {outcome : Outcome} {mark : Option Mark}
    (moved : Steps grpc role s outcome stage t stage' mark) :
    stage'.calledShutdown = true ↔ stage.calledShutdown = true ∨
      (stage = .shuttingDown ∧ stage' = .shutdownWait ∧ t.server = grpc.shutdown s.server) := by
  cases moved with
  | @signal stage => cases stage <;> simp [Stage.calledShutdown]
  | _ => simp [Stage.calledShutdown]

end Process

/-- A thread that waits for no other one can move. -/
theorem exists_advance_of_stage {role : Role} {s : Process γ} {stage : Stage}
    (live : stage ≠ .done ∧ (∀ code, stage ≠ .returned code) ∧ stage ≠ .answering)
    (stopped : s.stop = true) (wait : stage = .serverWait → grpc.waitReturns s.server = true)
    (shutdown : stage = .shutdownWait → grpc.shutdownReturns s.server = true)
    (join : ∀ next left, stage = .joining (next :: left) → s.finished next = true) :
    (s.advance grpc role stage .succeeds).isSome = true := by
  cases stage with
  | done => exact absurd rfl live.1
  | returned code => exact absurd rfl (live.2.1 code)
  | answering => exact absurd rfl live.2.2
  | serverWait => simp [Process.advance, wait rfl]
  | shutdownWait => simp [Process.advance, shutdown rfl]
  | timing => simp [Process.advance, stopped]
  | joining left =>
    cases left with
    | nil => rfl
    | cons next left => simp [Process.advance, join next left rfl]
  | _ => rfl

/-- A thread that `main` joins and that has not ended can move. -/
theorem Orderly.joined_advances {events : List (Role × Option Mark)}
    {s : Pool Role (Process γ) Stage} (orderly : Orderly events s)
    (stopped : s.shared.stop = true) {role : Role} (member : role ∈ joined)
    (unfinished : s.shared.finished role = false)
    (returns : grpc.waitReturns s.shared.server = true) :
    (s.shared.advance grpc role (s.thread role) .succeeds).isSome = true := by
  have notMain : role ≠ .main := by
    rintro rfl
    exact absurd member (by decide)
  have notServer : role ≠ .server := by
    rintro rfl
    exact absurd member (by decide)
  have fits := orderly.fits role
  refine exists_advance_of_stage ⟨fun isDone => ?_, fun code exited => ?_,
    fits.answering_iff.not.mpr notServer⟩ stopped (fun _ => returns) (fun waiting => ?_)
    fun other left isJoining => ?_
  · simp [(orderly.finished role).mpr isDone] at unfinished
  · rw [exited] at fits
    exact absurd fits.2.1 notMain
  · rw [waiting] at fits
    exact absurd fits.2.1 notMain
  · rw [isJoining] at fits
    exact absurd fits.2.1 notMain

/-- `main` can move unless it has returned or waits for `Shutdown()` or for a thread. -/
theorem Orderly.main_advances {events : List (Role × Option Mark)}
    {s : Pool Role (Process γ) Stage} (orderly : Orderly events s)
    (stopped : s.shared.stop = true) (running : ∀ code, s.thread .main ≠ .returned code)
    (returns : s.thread .main = .shutdownWait → grpc.shutdownReturns s.shared.server = true)
    (ended : ∀ next left, s.thread .main = .joining (next :: left) →
      s.shared.finished next = true) :
    (s.shared.advance grpc .main (s.thread .main) .succeeds).isSome = true := by
  have fits := orderly.fits .main
  refine exists_advance_of_stage ⟨fun isDone => ?_, running,
    fits.answering_iff.not.mpr (by decide)⟩ stopped (fun serving => ?_) returns ended
  · rw [isDone] at fits
    exact absurd fits.1 (by decide)
  · rw [serving] at fits
    exact absurd fits.2 (by decide)

/-- The steps that the threads can still take together. -/
def stepsLeft (s : Pool Role (Process γ) Stage) : Nat :=
  (s.thread .main).left + (s.thread .resp).left + (s.thread .metrics).left +
    (s.thread .grpc).left + (s.thread .timer).left

theorem stepsLeft_update (s : Pool Role (Process γ) Stage) (shared : Process γ) {role : Role}
    (stage : Stage) (main : role ≠ .server) :
    stepsLeft ⟨shared, Function.update s.thread role stage⟩ + (s.thread role).left =
      stepsLeft s + stage.left := by
  cases role with
  | server => exact absurd rfl main
  | _ => simp only [stepsLeft, Function.update_apply]; simp; omega

theorem Stage.Fits.left_le {role : Role} {s : Process γ} {marks : List Mark} {stage : Stage}
    (fits : stage.Fits role s marks) : stage.left ≤ if role = .main then 10 else 5 := by
  cases stage with
  | polling | pollWait =>
    obtain ⟨-, rfl⟩ := fits
    decide
  | announcing | shuttingDown | shutdownWait =>
    obtain ⟨-, rfl, -⟩ := fits
    decide
  | joining left =>
    obtain ⟨-, rfl, -, ended, split, -⟩ := fits
    have := congrArg List.length split
    simp only [List.length_append, joined, List.length_cons, List.length_nil] at this
    simp only [Stage.left, if_true]
    omega
  | _ => simp only [Stage.left]; split <;> omega

theorem Orderly.stepsLeft_le {events : List (Role × Option Mark)}
    {s : Pool Role (Process γ) Stage} (orderly : Orderly events s) : stepsLeft s ≤ 30 := by
  have main := (orderly.fits .main).left_le
  have resp := (orderly.fits .resp).left_le
  have metrics := (orderly.fits .metrics).left_le
  have grpc := (orderly.fits .grpc).left_le
  have timer := (orderly.fits .timer).left_le
  simp only [reduceCtorEq, if_true, if_false] at main resp metrics grpc timer
  unfold stepsLeft
  omega

/-- After the flag was set, each step of a thread of `main` leaves fewer such steps. -/
theorem Orderly.stepsLeft_step {past : List (Role × Option Mark)}
    {s t : Pool Role (Process γ) Stage} {l : Role × Outcome} {event : Role × Option Mark}
    (orderly : Orderly past s) (stopped : s.shared.stop = true)
    (moved : (process grpc).step s l = some (t, event)) :
    t.shared.stop = true ∧ (if ownStep l then 1 else 0) + stepsLeft t ≤ stepsLeft s := by
  obtain ⟨role, outcome⟩ := l
  obtain ⟨shared', stage', mark, steps, rfl, rfl⟩ := process_step moved
  have sound := Process.advance_sound steps
  refine ⟨sound.rises.stop stopped, ?_⟩
  by_cases library : role = .server
  · subst library
    simp [ownStep, stepsLeft]
  · have balance := stepsLeft_update s shared' stage' library
    by_cases own : outcome = .signal
    · subst own
      obtain rfl := Process.advance_signal steps
      simp only [ownStep, bne_self_eq_false, Bool.and_false, Bool.false_eq_true, if_false]
      omega
    · have answers := (orderly.fits role).answering_iff.not.mpr library
      have less := sound.left_lt stopped own answers
      simp only [ownStep, bne_iff_ne.mpr library, bne_iff_ne.mpr own, Bool.and_self, if_true]
      omega

theorem Orderly.stepsLeft_run {schedule : List (Role × Outcome)}
    {s t : Pool Role (Process γ) Stage} {past events : List (Role × Option Mark)}
    (orderly : Orderly past s) (stopped : s.shared.stop = true)
    (ran : (process grpc).run s schedule = some (t, events)) :
    t.shared.stop = true ∧ schedule.countP ownStep + stepsLeft t ≤ stepsLeft s := by
  induction schedule generalizing s past events with
  | nil =>
    cases ran
    exact ⟨stopped, by simp⟩
  | cons l schedule ih =>
    obtain ⟨u, event, rest, moved, tail, rfl⟩ := Program.run_cons_eq_some.mp ran
    obtain ⟨stopped', less⟩ := orderly.stepsLeft_step stopped moved
    obtain ⟨stopped'', bound⟩ := ih (orderly.step moved) stopped' tail
    refine ⟨stopped'', ?_⟩
    rw [List.countP_cons]
    omega

/-! ### With the promises of the gRPC server -/

section

variable {down : γ → Prop} {remaining : γ → Nat} (promises : grpc.ShutsDown down remaining)
include promises

/-- Once `main` has called `Shutdown()` the server stays down, and each step of the library leaves
fewer such steps. -/
theorem Orderly.library_step {past : List (Role × Option Mark)}
    {s t : Pool Role (Process γ) Stage} {l : Role × Outcome} {event : Role × Option Mark}
    (orderly : Orderly past s) (called : (s.thread .main).calledShutdown = true)
    (isDown : down s.shared.server) (moved : (process grpc).step s l = some (t, event)) :
    (t.thread .main).calledShutdown = true ∧ down t.shared.server ∧
      (if libraryStep l then 1 else 0) + remaining t.shared.server ≤
        remaining s.shared.server := by
  obtain ⟨role, outcome⟩ := l
  obtain ⟨shared', stage', mark, steps, rfl, rfl⟩ := process_step moved
  have sound := Process.advance_sound steps
  have answers := (orderly.fits role).answering_iff
  refine ⟨?_, ?_⟩
  · by_cases main : role = .main
    · subst main
      simpa using sound.calledShutdown.mpr (.inl called)
    · simpa [Function.update_of_ne (Ne.symm main)] using called
  · rcases sound.server with shuts | ⟨-, choice, works⟩ | ⟨quiet, same⟩
    · -- only `main` calls `Shutdown()`, and only once
      have fits := orderly.fits role
      rw [shuts] at fits
      rw [fits.2.1] at shuts
      rw [shuts] at called
      cases called
    · obtain ⟨isDown', less⟩ := promises.works _ _ _ isDown works
      refine ⟨isDown', ?_⟩
      dsimp only
      split <;> omega
    · dsimp only at same ⊢
      refine ⟨same ▸ isDown, ?_⟩
      have idle : libraryStep (role, outcome) = false := by
        by_cases library : role = .server
        · simp [libraryStep, quiet (answers.mpr library)]
        · simp [libraryStep, library]
      simp [idle, same]

theorem Orderly.library_run {schedule : List (Role × Outcome)}
    {s t : Pool Role (Process γ) Stage} {past events : List (Role × Option Mark)}
    (orderly : Orderly past s) (called : (s.thread .main).calledShutdown = true)
    (isDown : down s.shared.server) (ran : (process grpc).run s schedule = some (t, events)) :
    schedule.countP libraryStep + remaining t.shared.server ≤ remaining s.shared.server := by
  induction schedule generalizing s past events with
  | nil =>
    cases ran
    simp
  | cons l schedule ih =>
    obtain ⟨u, event, rest, moved, tail, rfl⟩ := Program.run_cons_eq_some.mp ran
    obtain ⟨called', isDown', less⟩ := orderly.library_step promises called isDown moved
    have bound := ih (orderly.step moved) called' isDown' tail
    rw [List.countP_cons]
    omega

/-- Whenever `main` has called `Shutdown()`, the server is down. -/
theorem down_of_calledShutdown {timed : Bool} {schedule : List (Role × Outcome)}
    {s : Pool Role (Process γ) Stage} {events : List (Role × Option Mark)}
    (ran : (process grpc).run (processStart grpc timed) schedule = some (s, events))
    (called : (s.thread .main).calledShutdown = true) : down s.shared.server := by
  refine (Program.run_induction (fun events s => Orderly events s ∧
    ((s.thread .main).calledShutdown = true → down s.shared.server)) ?_
    ⟨orderly_start timed, fun called => by cases called⟩ ran).2 called
  rintro events s ⟨role, outcome⟩ t event ⟨orderly, isDown⟩ moved
  refine ⟨orderly.step moved, fun called => ?_⟩
  by_cases before : (s.thread .main).calledShutdown = true
  · exact (orderly.library_step promises before (isDown before) moved).2.1
  · -- the step is `main`'s call
    obtain ⟨shared', stage', mark, steps, rfl, rfl⟩ := process_step moved
    have sound := Process.advance_sound steps
    by_cases main : role = .main
    · subst main
      obtain ⟨-, -, same⟩ := (sound.calledShutdown.mp (by simpa using called)).resolve_left before
      dsimp only at same ⊢
      rw [same]
      exact promises.shutdown _
    · exact absurd (by simpa [Function.update_of_ne (Ne.symm main)] using called) before

/-- In every orderly state with the flag set, `main` has returned, or one of its threads can move,
or it has called `Shutdown()` and the library can move. -/
theorem Orderly.progress {events : List (Role × Option Mark)} {s : Pool Role (Process γ) Stage}
    (orderly : Orderly events s) (stopped : s.shared.stop = true)
    (isDown : (s.thread .main).calledShutdown = true → down s.shared.server) :
    (∃ code, s.thread .main = .returned code) ∨
      (∃ role, role ≠ .server ∧ ((process grpc).step s (role, .succeeds)).isSome = true) ∨
      ((s.thread .main).calledShutdown = true ∧
        ∃ choice, ((process grpc).step s (.server, .works choice)).isSome = true) := by
  have moves : ∀ role outcome, (s.shared.advance grpc role (s.thread role) outcome).isSome = true →
      ((process grpc).step s (role, outcome)).isSome = true := by
    intro role outcome advances
    simpa [Program.step, process] using advances
  by_cases busy : (s.thread .main).calledShutdown = true ∧
      ∃ choice, (grpc.works s.shared.server choice).isSome = true
  · obtain ⟨called, choice, works⟩ := busy
    refine .inr (.inr ⟨called, choice, moves .server (.works choice) ?_⟩)
    rw [(orderly.fits .server).answering_iff.mpr rfl]
    simpa [Process.advance] using works
  have returns : (s.thread .main).calledShutdown = true →
      grpc.shutdownReturns s.shared.server = true ∧ grpc.waitReturns s.shared.server = true :=
    fun called => (promises.returns _ (isDown called)).resolve_left fun works =>
      busy ⟨called, works⟩
  by_cases waits : ∃ next left, s.thread .main = .joining (next :: left) ∧
      s.shared.finished next = false
  · -- `main` waits for a thread that has not ended, and this thread can move
    obtain ⟨next, left, joining, unfinished⟩ := waits
    have called : (s.thread .main).calledShutdown = true := by rw [joining]; rfl
    have fits := orderly.fits .main
    rw [joining] at fits
    obtain ⟨-, -, -, ended, split, -⟩ := fits
    have member : next ∈ joined := split ▸ List.mem_append_right _ List.mem_cons_self
    have notServer : next ≠ .server := by
      rintro rfl
      exact absurd member (by decide)
    exact .inr (.inl ⟨next, notServer, moves next .succeeds
      (orderly.joined_advances stopped member unfinished (returns called).2)⟩)
  by_cases exited : ∃ code, s.thread .main = .returned code
  · exact .inl exited
  refine .inr (.inl ⟨.main, by decide, moves .main .succeeds (orderly.main_advances stopped
    (fun code isReturned => exited ⟨code, isReturned⟩) (fun waiting => ?_)
    fun next left joining => ?_)⟩)
  · exact (returns (by rw [waiting]; rfl)).1
  · by_contra unfinished
    exact waits ⟨next, left, joining, by simpa using unfinished⟩

/-- Once the flag is set, `main` and its threads take at most 30 more steps, and the library, from
the call of `Shutdown()` on, at most those that its pending calls need.  Until `main` returns one of
them can move, so whatever the order of their steps, the process ends. -/
theorem stop_completes {timed : Bool} {before later : List (Role × Outcome)}
    {s t : Pool Role (Process γ) Stage} {past events : List (Role × Option Mark)}
    (ran : (process grpc).run (processStart grpc timed) before = some (s, past))
    (stopped : s.shared.stop = true)
    (runs : (process grpc).run s later = some (t, events)) :
    later.countP ownStep ≤ 30 ∧
      ((s.thread .main).calledShutdown = true →
        later.countP libraryStep ≤ remaining s.shared.server) ∧
      ((∃ code, t.thread .main = .returned code) ∨
        (∃ role, role ≠ .server ∧ ((process grpc).step t (role, .succeeds)).isSome = true) ∨
        ((t.thread .main).calledShutdown = true ∧
          ∃ choice, ((process grpc).step t (.server, .works choice)).isSome = true)) := by
  have orderly := process_orderly ran
  have both := Program.run_append ran runs
  obtain ⟨stopped', bound⟩ := orderly.stepsLeft_run stopped runs
  have few := orderly.stepsLeft_le
  refine ⟨by omega, fun called => ?_, ?_⟩
  · have := orderly.library_run promises called (down_of_calledShutdown promises ran called) runs
    omega
  · exact (process_orderly both).progress promises stopped'
      (down_of_calledShutdown promises both)

end

/-- A gRPC server that counts its pending calls.  On the choice 0 a call arrives, until the server
is shut down, and on any other choice a pending call ends. -/
def countingServer : GrpcServer (Bool × Nat) where
  started := (false, 0)
  works server choice :=
    if choice = 0 then if server.1 then none else some (false, server.2 + 1)
    else if server.2 = 0 then none else some (server.1, server.2 - 1)
  shutdown server := (true, server.2)
  shutdownReturns server := server.1 && server.2 == 0
  waitReturns server := server.1 && server.2 == 0

theorem countingServer_shutsDown :
    countingServer.ShutsDown (fun server => server.1 = true) (fun server => server.2) where
  shutdown _ := rfl
  works := by
    rintro ⟨isDown, pending⟩ choice next rfl works
    simp only [countingServer, if_true] at works
    split at works
    · cases works
    · split at works <;> cases works
      rename_i some_pending
      exact ⟨rfl, Nat.sub_lt (Nat.pos_of_ne_zero some_pending) Nat.one_pos⟩
  returns := by
    rintro ⟨isDown, pending⟩ rfl
    cases pending with
    | zero => exact .inr ⟨rfl, rfl⟩
    | succ pending => exact .inl ⟨1, rfl⟩

/-- The metrics port is taken while a gRPC call is pending: the metrics listener fails and asks the
process to stop. -/
def portTaken : List (Role × Outcome) :=
  [(.resp, .succeeds), (.server, .works 0), (.metrics, .fails), (.resp, .succeeds),
    (.metrics, .succeeds), (.metrics, .succeeds), (.main, .succeeds)]

/-- The steps that are left.  `Shutdown()` returns after the pending call has ended. -/
def portTakenEnd : List (Role × Outcome) :=
  [(.resp, .timeout), (.main, .succeeds), (.resp, .succeeds), (.metrics, .succeeds),
    (.main, .succeeds), (.server, .works 1), (.main, .succeeds), (.grpc, .succeeds),
    (.main, .succeeds), (.resp, .succeeds), (.main, .succeeds), (.main, .succeeds),
    (.main, .succeeds), (.main, .succeeds)]

theorem portTaken_exits : ∃ after events,
    (process countingServer).run (processStart countingServer false) (portTaken ++ portTakenEnd) =
        some (after, events) ∧
      after.thread .main = .returned 1 ∧ (∀ role ∈ joined, after.thread role = .done) ∧
      (∀ role, role = .resp ∨ role = .metrics →
        marksOf role events = [.bindFailed] ∨ marksOf role events = [.opened, .closed]) ∧
      (1 = 1 ↔ ∃ role, Mark.bindFailed ∈ marksOf role events) ∧ (1 = 0 ∨ 1 = 1) := by
  have ends : ((process countingServer).run (processStart countingServer false)
      (portTaken ++ portTakenEnd)).map (fun r => r.1.thread .main) = some (.returned 1) := by
    decide +kernel
  obtain ⟨⟨after, events⟩, ran, exited⟩ := Option.map_eq_some_iff.mp ends
  exact ⟨after, events, ran, exited, exit_clean ran exited⟩

theorem portTaken_completes : ∃ s t past events,
    (process countingServer).run (processStart countingServer false) portTaken = some (s, past) ∧
      (process countingServer).run s portTakenEnd = some (t, events) ∧
      portTakenEnd.countP ownStep ≤ 30 ∧
      ((s.thread .main).calledShutdown = true →
        portTakenEnd.countP libraryStep ≤ s.shared.server.2) ∧
      ((∃ code, t.thread .main = .returned code) ∨
        (∃ role, role ≠ .server ∧
          ((process countingServer).step t (role, .succeeds)).isSome = true) ∨
        ((t.thread .main).calledShutdown = true ∧
          ∃ choice, ((process countingServer).step t (.server, .works choice)).isSome = true)) := by
  have ends : (((process countingServer).run (processStart countingServer false) portTaken).bind
      fun r => ((process countingServer).run r.1 portTakenEnd).map fun _ => r.1.shared.stop) =
      some true := by
    decide +kernel
  obtain ⟨⟨s, past⟩, ran, rest⟩ := Option.bind_eq_some_iff.mp ends
  obtain ⟨⟨t, events⟩, runs, stopped⟩ := Option.map_eq_some_iff.mp rest
  exact ⟨s, t, past, events, ran, runs,
    stop_completes countingServer_shutsDown ran stopped runs⟩

end DistributedCache.Server
