import DistributedCache.Core.Headroom
import DistributedCache.Lib.Atomic
import DistributedCache.Server.CacheNode

/-! The node as one map.  The server's store has no limit and its front ends set no TTL, and then
the concurrent connections and gRPC calls behave as callers of a single atomic object: a map on
which each request acts as the interpreter does. -/

namespace DistributedCache.Core.ConcurrentStore

variable {cfg : Config} {store : ConcurrentStore cfg}

theorem getSection_content (persistent : store.Persistent) (key : Bytes) (now : Int) :
    (store.getSection key now).2 = store.content key ∧ (store.getSection key now).1.Persistent ∧
      (store.getSection key now).1.content = store.content := by
  have alone := get_content persistent key fun _ => now
  cases found : store.find key with
  | none => simpa [getSection, content, found] using persistent
  | some entry => simpa only [get, found] using alone

theorem reorder_content (persistent : store.Persistent) {i : Fin cfg.stripeCount} {map : Stripe}
    (perm : map.entries.Perm (store.stripes i).entries) :
    let after : ConcurrentStore cfg :=
      { store with stripes := Function.update store.stripes i map }
    after.Persistent ∧ after.content = store.content := by
  have same := find_reorder perm
  refine ⟨fun key entry found => persistent key entry ?_, ?_⟩
  · rw [← same key]
    exact found
  · funext key
    simp only [content, same key]

end DistributedCache.Core.ConcurrentStore

namespace DistributedCache.Server

open DistributedCache.Core DistributedCache.Protocol Lib

/-- The effect of a request on a map, and the answer to it. -/
def interpretRequest (map : Bytes → Option Bytes) :
    Ingress → (Bytes → Option Bytes) × Answer
  | .resp cmd => ((interpret map cmd).1, .resp (interpret map cmd).2)
  | .grpcSet request =>
    if request.key = [] then
      (map, .grpcSet ⟨.invalidArgument, kEmptyKeyMessage⟩
        { ok := false, error := kEmptyKeyMessage })
    else (Function.update map request.key (some request.value),
      .grpcSet Status.success { ok := true })
  | .grpcGet request =>
    if request.key = [] then
      (map, .grpcGet ⟨.invalidArgument, kEmptyKeyMessage⟩
        { found := false, error := kEmptyKeyMessage })
    else match map request.key with
      | some value => (map, .grpcGet Status.success { found := true, value := value })
      | none => (map, .grpcGet Status.success { found := false })

/-- The call of the store is the one that serves the request, and it has not taken effect. -/
def Serves {cfg : Config} (request : Ingress) : Call cfg → Prop
  | .setSection key value expiresAt _ => expiresAt = none ∧ ∀ map, interpretRequest map request =
      (Function.update map key (some value), answerFor request setResult)
  | .getShared key | .getExclusive key => ∀ map, interpretRequest map request =
      (map, answerFor request (getResult (map key)))
  | _ => False

variable {cfg : Config}

theorem interpret_set {cmd : RESPCommand} {key value : Bytes}
    (word : toUpper cmd.name = ascii "SET") (args : cmd.args = [key, value]) (nonempty : key ≠ [])
    (map : Bytes → Option Bytes) : interpret map cmd =
      (Function.update map key (some value), encodeResult setResult) := by
  simp [interpret, args, spells_set.mpr word, nonempty, setResult, encodeResult]

theorem interpret_get {cmd : RESPCommand} {key : Bytes} (word : toUpper cmd.name = ascii "GET")
    (args : cmd.args = [key]) (nonempty : key ≠ []) (map : Bytes → Option Bytes) :
    interpret map cmd = (map, encodeResult (getResult (map key))) := by
  cases found : map key <;>
    simp [interpret, args, spells_get.mpr word, nonempty, found, getResult, encodeResult]

variable (cfg) in
theorem beginCommand_serves (cmd : RESPCommand) (now : Int) :
    match (beginCommand cmd.name cmd.args now : CommandResult ⊕ Call cfg) with
    | .inl result => ∀ map, interpret map cmd = (map, encodeResult result)
    | .inr call => Serves (.resp cmd) call := by
  rcases beginCommand_cases cfg cmd.name cmd.args now with
    ⟨result, begun, refused, dispatched⟩ | ⟨key, value, word, args, nonempty, begun⟩ |
      ⟨key, word, args, nonempty, begun⟩
  · rw [begun]
    intro map
    have line : executeCommand cmd (.new cfg) (fun _ => now) = some (_, errorLine cmd) :=
      executeCommand_refused refused _
    simp only [executeCommand, dispatched, Option.map_some, Option.some.injEq, Prod.mk.injEq,
      true_and] at line
    rw [interpret_refused refused, line]
  · rw [begun]
    refine ⟨rfl, fun map => ?_⟩
    simp only [interpretRequest, interpret_set word args nonempty, answerFor]
  · rw [begun]
    intro map
    simp only [interpretRequest, interpret_get word args nonempty, answerFor]

variable (cfg) in
/-- What a front end does before the store is the interpreter's answer, or a call of the store that
serves the request. -/
theorem beginRequest_serves (request : Ingress) (now : Int) :
    match (beginRequest request now : CommandResult ⊕ Call cfg) with
    | .inl result => ∀ map, interpretRequest map request = (map, answerFor request result)
    | .inr call => Serves request call := by
  cases request with
  | resp cmd =>
    have serves := beginCommand_serves cfg cmd now
    simp only [beginRequest]
    split <;> simp_all [interpretRequest, answerFor]
  | grpcSet request =>
    by_cases empty : request.key = []
    · simp only [beginRequest, beginCommand, toUpper_set, if_true, if_pos empty]
      intro map
      simp [interpretRequest, empty, answerFor, CacheServiceImpl.setReply, errorResult]
    · simp only [beginRequest, beginCommand, toUpper_set, if_true, if_neg empty]
      refine ⟨rfl, fun map => ?_⟩
      simp [interpretRequest, empty, answerFor, CacheServiceImpl.setReply, setResult]
  | grpcGet request =>
    by_cases empty : request.key = []
    · simp only [beginRequest, beginCommand, toUpper_get, set_ne_get.symm, if_true, if_false,
        if_pos empty]
      intro map
      simp [interpretRequest, empty, answerFor, CacheServiceImpl.getReply, errorResult]
    · simp only [beginRequest, beginCommand, toUpper_get, set_ne_get.symm, if_true, if_false,
        if_neg empty]
      intro map
      cases found : map request.key <;>
        simp [interpretRequest, empty, answerFor, CacheServiceImpl.getReply, getResult, found]

/-- A step of a call that serves a request leaves the content as it is, or it is the step in which
the request takes effect. -/
theorem proceed_serves {request : Ingress} {call call' : Call cfg}
    {store store' : ConcurrentStore cfg} {clock : Int} {event : Event}
    (unbounded : cfg.maxEntries = 0) (persistent : store.Persistent) (serves : Serves request call)
    (moved : call.proceed store clock = some (store', call', event)) :
    store'.Persistent ∧
      ((finishCommand call' event = none ∧ store'.content = store.content ∧ Serves request call') ∨
        ∃ result, finishCommand call' event = some result ∧
          interpretRequest store.content request = (store'.content, answerFor request result)) := by
  cases call with
  | setSection key value expiresAt now =>
    obtain ⟨rfl, effect⟩ := serves
    obtain ⟨persistent', content⟩ :=
      ConcurrentStore.setSection_content persistent key value now
    cases moved
    rw [Call.enforceCapacity, if_pos unbounded]
    exact ⟨persistent', .inr ⟨setResult, rfl, by rw [effect, content]⟩⟩
  | getShared key =>
    simp only [Call.proceed] at moved
    split at moved <;> cases moved
    · rename_i absent
      refine ⟨persistent, .inr ⟨getResult none, rfl, ?_⟩⟩
      rw [serves, ConcurrentStore.content, absent, Option.map_none]
    · exact ⟨persistent, .inl ⟨rfl, rfl, serves⟩⟩
  | getExclusive key =>
    obtain ⟨answer, persistent', content⟩ :=
      ConcurrentStore.getSection_content persistent key clock
    cases moved
    exact ⟨persistent', .inr ⟨_, rfl, by rw [serves, content, answer]⟩⟩
  | _ => exact absurd serves id

/-! ### The simulation -/

/-- What is seen of a worker as a caller of the map. -/
def sight {ι : Type} : ι × NodeEvent → Option (ι × Sight Ingress Answer)
  | (i, .invoked request) => some (i, .invoked request)
  | (i, .responded answer) => some (i, .responded answer)
  | _ => none

/-- The phase of a worker as a caller of the map.  A connection that was lost while its reply was
sent never receives the result. -/
def Worker.InPhase : Worker cfg → Phase Ingress Answer → Prop
  | executing _ cmd _ call, phase => phase = .called (.resp cmd) ∧ Serves (.resp cmd) call
  | counting _ _ reply, phase | replying _ _ reply, phase => phase = .done (.resp reply)
  | handling request call, phase => phase = .called request ∧ Serves request call
  | answering answer, phase => phase = .done answer
  | closed, _ => True
  | waiting, phase | outer _, phase | receiving _, phase | inner _, phase | refusing, phase =>
    phase = .idle

/-- The map that a node stands for. -/
def CacheNode.IsMap (node : CacheNode cfg) (map : Bytes → Option Bytes) : Prop :=
  node.store.Persistent ∧ map = node.store.content

theorem Worker.limitFrame_inPhase (stream : Stream) :
    (limitFrame stream : Worker cfg).InPhase .idle := by
  unfold limitFrame
  split <;> rfl

theorem Worker.nextFrame_inPhase (stream : Stream) (consumed : Nat) :
    (nextFrame stream consumed : Worker cfg).InPhase .idle := by
  unfold nextFrame
  dsimp only
  split
  · exact limitFrame_inPhase _
  · rfl

/-- Steps of caller `i` of the map, in phase `phase`, that match a step of its worker. -/
def Matches {ι : Type} (i : ι) (map : Bytes → Option Bytes) (phase : Phase Ingress Answer)
    (shown : NodeEvent) (node : CacheNode cfg) (worker : Worker cfg) : Prop :=
  ∃ es map' phase', (atomicObject ι interpretRequest).Moves i map phase es map' phase' ∧
    es.filterMap id = (sight (i, shown)).toList ∧ node.IsMap map' ∧ worker.InPhase phase'

section

variable {ι : Type} {i : ι} {map : Bytes → Option Bytes} {node : CacheNode cfg}
  {worker : Worker cfg} {request : Ingress} {answer : Answer}

/-- A step that does not concern the map. -/
theorem matches_quiet {phase : Phase Ingress Answer} {shown : NodeEvent} (isMap : node.IsMap map)
    (hidden : sight (i, shown) = none) (inPhase : worker.InPhase phase) :
    Matches i map phase shown node worker :=
  ⟨[], map, phase, .nil, by rw [hidden]; rfl, isMap, inPhase⟩

section

variable {call call' : Call cfg} {store : ConcurrentStore cfg} {clock : Int} {event : Event}
  (unbounded : cfg.maxEntries = 0) (isMap : node.IsMap map) (serves : Serves request call)
  (ran : call.proceed node.store clock = some (store, call', event))

include unbounded isMap serves ran

/-- A step of the call of the store after which it has not returned. -/
theorem matches_execute (unfinished : finishCommand call' event = none)
    (inPhase : Serves request call' → worker.InPhase (.called request)) :
    Matches i map (.called request) .silent { node with store := store } worker := by
  obtain ⟨persistent, rfl⟩ := isMap
  obtain ⟨persistent', ⟨-, content, serves'⟩ | ⟨result, finished, -⟩⟩ :=
    proceed_serves unbounded persistent serves ran
  · exact matches_quiet ⟨persistent', content.symm⟩ rfl (inPhase serves')
  · simp [unfinished] at finished

/-- The step in which the call of the store returns: the request takes effect in it. -/
theorem matches_executed {result : CommandResult}
    (finished : finishCommand call' event = some result)
    (inPhase : worker.InPhase (.done (answerFor request result))) :
    Matches i map (.called request) .silent { node with store := store } worker := by
  obtain ⟨persistent, rfl⟩ := isMap
  obtain ⟨persistent', ⟨unfinished, -⟩ | ⟨result', finished', effect⟩⟩ :=
    proceed_serves unbounded persistent serves ran
  · simp [unfinished] at finished
  · obtain rfl : result = result' := Option.some.inj (finished.symm.trans finished')
    refine ⟨[none], _, _, .one .perform rfl, rfl, ?_, ?_⟩
    · rw [effect]
      exact ⟨persistent', rfl⟩
    · rw [effect]
      exact inPhase

end

/-- The step in which an answer is returned. -/
theorem matches_respond (isMap : node.IsMap map) (inPhase : worker.InPhase .idle) :
    Matches i map (.done answer) (.responded answer) node worker :=
  ⟨[some (i, .responded answer)], map, .idle, .one .respond rfl, rfl, isMap, inPhase⟩

/-- The step in which a request is called, and answered at once if it does not need the store. -/
theorem matches_begin {n : Int} (isMap : node.IsMap map)
    (inPhase : match (beginRequest request n : CommandResult ⊕ Call cfg) with
      | .inl result => worker.InPhase (.done (answerFor request result))
      | .inr call => Serves request call → worker.InPhase (.called request)) :
    Matches i map .idle (.invoked request) node worker := by
  have serves := beginRequest_serves cfg request n
  cases begun : (beginRequest request n : CommandResult ⊕ Call cfg) with
  | inl result =>
    simp only [begun] at serves inPhase
    refine ⟨[some (i, .invoked request), none], _, _, .cons (.call request) rfl
      (.one .perform rfl), rfl, ?_, ?_⟩
    · rw [serves]
      exact isMap
    · rw [serves]
      exact inPhase
  | inr call =>
    simp only [begun] at serves inPhase
    exact ⟨[some (i, .invoked request)], map, _, .one (.call request) rfl, rfl, isMap,
      inPhase serves⟩

end

theorem cacheNode_simulates (ι : Type) (unbounded : cfg.maxEntries = 0) (idleTimeout : Int) :
    (cacheNode ι cfg idleTimeout).Simulates (atomicObject ι interpretRequest) sight id
      CacheNode.IsMap Worker.InPhase where
  matched := by
    rintro i node worker input node' worker' event map phase isMap inPhase moved
    obtain ⟨⟨after, next, shown⟩, advanced, same⟩ := Option.map_eq_some_iff.mp moved
    cases same
    show Matches i map phase shown after next
    cases Worker.advance_sound advanced with
    | step moved =>
      cases moved with
      | connect | leave | stay | hangUp | again | data | refuse =>
        cases inPhase
        exact matches_quiet isMap rfl (by trivial)
      | leaveFrames | stuck =>
        cases inPhase
        exact matches_quiet isMap rfl (Worker.limitFrame_inPhase _)
      | rpc request now remote =>
        cases inPhase
        refine matches_begin (n := now) isMap ?_
        cases begun : (beginRequest request now : CommandResult ⊕ Call cfg) with
        | inl result =>
          simp only [Worker.startCall, begun]
          rfl
        | inr call =>
          simp only [Worker.startCall, begun]
          exact fun serves => ⟨rfl, serves⟩
      | @take stream cmd consumed now running head =>
        cases inPhase
        refine matches_begin (n := now) isMap ?_
        simp only [beginRequest, Worker.startCommand]
        cases begun : (beginCommand cmd.name cmd.args now : CommandResult ⊕ Call cfg) with
        | inl result => rfl
        | inr call => exact fun serves => ⟨rfl, serves⟩
      | execute clock ran unfinished =>
        obtain ⟨rfl, serves⟩ := inPhase
        exact matches_execute unbounded isMap serves ran unfinished fun serves => ⟨rfl, serves⟩
      | executed clock ran finished =>
        obtain ⟨rfl, serves⟩ := inPhase
        exact matches_executed unbounded isMap serves ran finished rfl
      | count =>
        exact matches_quiet isMap rfl inPhase
      | reply =>
        cases inPhase
        exact matches_respond isMap (Worker.nextFrame_inPhase _ _)
      | fail => exact matches_quiet isMap rfl trivial
      | handle clock ran unfinished =>
        obtain ⟨rfl, serves⟩ := inPhase
        exact matches_execute unbounded isMap serves ran unfinished fun serves => ⟨rfl, serves⟩
      | handled clock ran finished =>
        obtain ⟨rfl, serves⟩ := inPhase
        exact matches_executed unbounded isMap serves ran finished rfl
      | answer =>
        cases inPhase
        exact matches_respond isMap rfl
    | reorder perm =>
      obtain ⟨persistent, rfl⟩ := isMap
      obtain ⟨persistent', content⟩ := ConcurrentStore.reorder_content persistent perm
      exact matches_quiet ⟨persistent', content.symm⟩ rfl inPhase
    | signal => exact matches_quiet isMap rfl inPhase

/-- Whatever the connections and the gRPC calls of a server do at the same time, what they see has
an order that explains it: the requests take effect on the map one after the other, each between
its call and its answer.  At the end the store holds what this order leaves in the map. -/
theorem cacheNode_linearizes {ι : Type} [DecidableEq ι] {idleTimeout : Int}
    (unbounded : cfg.maxEntries = 0) {schedule : List (ι × Input)}
    {after : Pool ι (CacheNode cfg) (Worker cfg)} {events : List (ι × NodeEvent)}
    (ran : (cacheNode ι cfg idleTimeout).run (nodeStart ι cfg) schedule = some (after, events)) :
    ∃ history, Linearizes interpretRequest (fun _ => none) (events.filterMap sight) history ∧
      after.shared.store.content =
        Lib.after interpretRequest (fun _ => none) (history.map fun entry => entry.2.1) := by
  have empty : (fun _ => none) = (ConcurrentStore.new cfg).content := by
    funext key
    simp [ConcurrentStore.content, ConcurrentStore.find_new]
  have idle : ∀ i, ((nodeStart ι cfg).thread i).InPhase .idle := fun _ => rfl
  obtain ⟨moves, final, seen, ran', shown, ⟨-, content⟩, -⟩ :=
    (cacheNode_simulates ι unbounded idleTimeout).run ⟨fun _ => none, fun _ => .idle⟩
      ⟨ConcurrentStore.new_persistent cfg, empty⟩ idle ran
  obtain ⟨history, linearizes, state⟩ := atomicObject_linearizes ran'
  refine ⟨history, ?_, content.symm.trans state⟩
  rw [← shown]
  exact linearizes

/-- A connection sets a key while a gRPC call gets it: the call takes effect first. -/
def mixedSchedule : List (Bool × Input) :=
  [(false, .connect 0), (false, .proceed 0),
    (false, .recv (.data (ascii "*3\r\n$3\r\nSET\r\n$1\r\na\r\n$1\r\nx\r\n") 1)),
    (false, .proceed 2), (true, .rpc (.grpcGet ⟨ascii "a"⟩) 3), (true, .proceed 4),
    (false, .proceed 5), (false, .proceed 6), (true, .proceed 7), (false, .send none)]

theorem mixedSchedule_linearizes : ∃ after events,
    (cacheNode Bool openConfig 10).run (nodeStart Bool openConfig) mixedSchedule =
        some (after, events) ∧
      ∃ history, Linearizes interpretRequest (fun _ => none) (events.filterMap sight) history ∧
        after.shared.store.content =
          Lib.after interpretRequest (fun _ => none) (history.map fun entry => entry.2.1) := by
  have ran : ((cacheNode Bool openConfig 10).run (nodeStart Bool openConfig)
    mixedSchedule).isSome = true := by decide +kernel
  exact ⟨_, _, (Option.some_get ran).symm, cacheNode_linearizes rfl (Option.some_get ran).symm⟩

end DistributedCache.Server
