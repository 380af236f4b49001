import RpcLoop.Foundation.Service
import RpcLoop.System.Answers

/-! What a connection is for. Both programs with all that is between them do, step
by step, what a service does that executes the requests its client sends, each
once and in order, and whose answers the client takes in that order. -/

namespace RpcLoop

open Foundation Asio

/-- The service behind a callback: a reply answers a request that was executed
behind others. -/
noncomputable def rpcService (callFun : Option CallbackFun) :
    Machine (Service Asked Reply) (Service.Event Asked Reply) :=
  Service.machine fun earlier a reply =>
    reply.Answers callFun (earlier.map Asked.request) a.request

/-- What can be seen of a connection is what the service has done: the calls of
`write`, the order in which their requests were handed over, the calls of the
callback, and the replies in the entries that callers can find. -/
structure Implements (callFun : Option CallbackFun) (s : RpcSystem)
    (service : Service Asked Reply) : Prop where
  asked : service.asked = s.asked
  sent : service.sent.map Asked.addr = s.client.loop.handed.map Outgoing.addr
  handled : s.session.handled.map RpcStruct.content =
    (service.sent.take service.answers.length).map fun a => a.request.content
  calls : s.session.calls =
    callsOf callFun ((service.sent.take service.answers.length).map Asked.request)
  taken : s.client.loop.answered.length = service.taken
  held : ClientLoop.Held (service.answers.take service.taken) s.client.loop

namespace RpcSystem

variable {layout : IntLayout} {callFun : Option CallbackFun} {memory : Memory}
  {requests : List Asked} {reads : Nat} {taken left : List Reply} {stage : Stage}
  {s next : RpcSystem} {event : Event}

/-- The service that a connection has been so far. -/
def service (s : RpcSystem) (requests : List Asked) (taken : List Reply) (stage : Stage)
    (left : List Reply) : Service Asked Reply where
  asked := s.asked
  sent := requests
  answers := taken ++ stage.reply ++ left
  taken := taken.length

theorem Delivering.sound
    (delivering : Delivering layout callFun memory requests reads taken stage left s)
    (few : s.asked.length < 2 ^ 32) :
    Service.Sound (fun earlier a reply => reply.Answers callFun (earlier.map Asked.request)
      a.request) (s.service requests taken stage left) := by
  have requesting := delivering.answering.serving.requesting
  have answered := delivering.answering.answered
  refine ⟨List.Nodup.of_map _ (requesting.ids_nodup few), List.Nodup.of_map _ requesting.distinct,
    requesting.known, ?_, ?_⟩
  · intro number reply found
    have inside := (List.getElem?_eq_some_iff.mp found).1
    rw [service, answered.length, List.length_take, List.length_map] at inside
    have short : number < requests.length := by omega
    refine ⟨requests[number], List.getElem?_eq_getElem short, ?_⟩
    have executed : ((requests.map Asked.request).take (reads / 2))[number]? =
        some requests[number].request := by
      rw [List.getElem?_take_of_lt (by omega), List.getElem?_map,
        List.getElem?_eq_getElem short]
      rfl
    have answers := answered.each number _ reply executed found
    rw [List.take_take, Nat.min_eq_left (by omega), ← List.map_take] at answers
    exact answers
  · simp only [service, List.length_append]
    omega

/-- The service that a connection is has done what the connection shows. -/
theorem Delivering.implements
    (delivering : Delivering layout callFun memory requests reads taken stage left s) :
    Implements callFun s (s.service requests taken stage left) := by
  have requesting := delivering.answering.serving.requesting
  obtain ⟨_, _, _, decodes⟩ := delivering.answering.serving.received.decodes
  obtain ⟨enough, _, _, _, decoding⟩ := decodes.parts
  have count : (s.service requests taken stage left).answers.length = reads / 2 := by
    rw [service, delivering.answering.answered.length, List.length_take,
      Nat.min_eq_left enough]
  have executed : (requests.take (reads / 2)).map Asked.request =
      (requests.map Asked.request).take (reads / 2) := List.map_take
  refine ⟨rfl, Handing.addrs requesting.handed, ?_, ?_, delivering.answered, ?_⟩
  · rw [count, decoding.handled, ← executed, List.map_map]
    rfl
  · rw [count, decoding.calls]
    exact congrArg _ executed.symm
  · have first : (s.service requests taken stage left).answers.take
        (s.service requests taken stage left).taken = taken := by
      simp only [service, List.append_assoc, List.take_left]
    rw [first]
    exact delivering.held

theorem Delivering.follows
    (delivering : Delivering layout callFun memory requests reads taken stage left s)
    (results : ResultsSound callFun) (transition : Transition layout callFun memory s event next)
    (guarded : LockStep s event next) (few : next.asked.length < 2 ^ 32) :
    ∃ requests' reads' taken' stage' left',
      Delivering layout callFun memory requests' reads' taken' stage' left' next ∧
      (rpcService callFun).Reaches (s.service requests taken stage left)
        (next.service requests' taken' stage' left') := by
  have asked := asked_grows transition
  have fewer : s.asked.length < 2 ^ 32 := Nat.lt_of_le_of_lt asked.length_le few
  obtain ⟨new, reads', more, taken', stage', left', later, first, whole⟩ :=
    delivering.grows results transition guarded fewer
  refine ⟨_, _, taken', stage', left', later, (later.sound few).reaches ?_⟩
  refine ⟨asked, List.prefix_append _ _, ?_, first.length_le⟩
  rw [service, service, whole]
  exact List.prefix_append _ _

/-- The connection and the service that it has been so far. -/
def Becomes (layout : IntLayout) (callFun : Option CallbackFun) (memory : Memory)
    (s : RpcSystem) (abstract : Service Asked Reply) : Prop :=
  ∃ requests reads taken stage left,
    Delivering layout callFun memory requests reads taken stage left s ∧
    abstract = s.service requests taken stage left

theorem Becomes.run {abstract : Service Asked Reply}
    (becomes : Becomes layout callFun memory s abstract) (results : ResultsSound callFun)
    {schedule : List Event} (reached : (machine layout callFun memory).run s schedule = some next)
    (guarded : (machine layout callFun memory).AllSteps LockStep s schedule)
    (few : next.asked.length < 2 ^ 32) :
    ∃ later, (rpcService callFun).Reaches abstract later ∧
      Becomes layout callFun memory next later := by
  rw [asked_length reached] at few
  have fewer : (machine layout callFun memory).AllSteps
      (fun _ _ after => after.asked.length < 2 ^ 32) s schedule := by
    refine Machine.allSteps_of_counted Event.writes (2 ^ 32 - 1)
      (fun count before => before.asked.length = count) ?_ rfl (by omega)
    intro count before event after same taken within
    have grown := asked_step (transition_of_step taken)
    rw [same] at grown
    exact ⟨by omega, grown⟩
  refine Machine.run_simulates ?_ becomes (guarded.and fewer) reached
  rintro before event after abstract ⟨_, _, _, _, _, delivering, rfl⟩ taken ⟨lockStep, within⟩
  obtain ⟨_, _, _, _, _, later, run⟩ :=
    delivering.follows results (transition_of_step taken) lockStep within
  exact ⟨_, run, _, _, _, _, _, later, rfl⟩

/-- A connection whose replies leave one at a time refines the service: at any
moment of a run what it shows is a state the service can reach, and from there the
service can go on to what it shows at any later moment. -/
theorem refines_of_run (layout : IntLayout) (callFun : Option CallbackFun)
    (memory : Memory) (results : ResultsSound callFun) (csq : ClientSendQueue)
    {first second : List Event} {middle final : RpcSystem}
    (reached : (machine layout callFun memory).run (start csq) first = some middle)
    (guarded : (machine layout callFun memory).AllSteps LockStep (start csq) first)
    (later : (machine layout callFun memory).run middle second = some final)
    (still : (machine layout callFun memory).AllSteps LockStep middle second)
    (few : (first.map Event.writes).sum + (second.map Event.writes).sum < 2 ^ 32) :
    ∃ early late, (rpcService callFun).Reaches .start early ∧ Implements callFun middle early ∧
      (rpcService callFun).Reaches early late ∧ Implements callFun final late := by
  have begun : Becomes layout callFun memory (start csq) .start :=
    ⟨[], 0, [], .between, [], .initial layout callFun memory csq, rfl⟩
  have asked := asked_length reached
  have total := asked_length later
  have none : (start csq).asked.length = 0 := rfl
  obtain ⟨early, toEarly, atMiddle⟩ := begun.run results reached guarded (by omega)
  obtain ⟨late, toLate, atFinal⟩ := atMiddle.run results later still (by omega)
  obtain ⟨_, _, _, _, _, before, rfl⟩ := atMiddle
  obtain ⟨_, _, _, _, _, after, rfl⟩ := atFinal
  exact ⟨_, _, toEarly, before.implements, toLate, after.implements⟩

/-- The answer of one request comes back. -/
def oneReply : List Event := oneExchange.drop oneRequest.length

theorem oneReply_refines :
    ∃ middle final, (machine .littleEndian (some LinkSession.callP) noMemory).run (start .on)
        oneRequest = some middle ∧
      (machine .littleEndian (some LinkSession.callP) noMemory).run middle oneReply =
        some final ∧ final.client.loop.answered.length = 1 ∧
      ∃ early late, (rpcService (some LinkSession.callP)).Reaches .start early ∧
        Implements (some LinkSession.callP) middle early ∧
        (rpcService (some LinkSession.callP)).Reaches early late ∧
        Implements (some LinkSession.callP) final late := by
  have runs : ((machine .littleEndian (some LinkSession.callP) noMemory).run (start .on)
      oneExchange).map (fun s => s.client.loop.answered.length) = some 1 := by
    decide +kernel
  have guarded : (machine .littleEndian (some LinkSession.callP) noMemory).AllSteps LockStep
      (start .on) (oneRequest ++ oneReply) := by
    decide +kernel
  obtain ⟨final, whole, answered⟩ := Option.map_eq_some_iff.mp runs
  have parts : oneExchange = oneRequest ++ oneReply := rfl
  rw [parts, Machine.run_append] at whole
  obtain ⟨middle, reached, later⟩ := Option.bind_eq_some_iff.mp whole
  exact ⟨middle, final, reached, later, answered, refines_of_run .littleEndian
    (some LinkSession.callP) noMemory callP_sound .on reached (by decide +kernel) later
    (guarded.suffix reached) (by decide)⟩

end RpcSystem

end RpcLoop
