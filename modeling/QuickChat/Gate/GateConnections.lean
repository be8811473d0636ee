import QuickChat.Common.AsioIOServicePool
import QuickChat.Gate.HttpResponse

/-!
# The connections of the gate

`CServer::Start` makes a connection on the next io context and accepts it; the handler of the accept
starts the connection, unless the accept has failed, and calls `Start` again. The connection reads one
request, handles it, writes the response, and waits for its deadline, which counts from when the
connection was made. Once the response is written the wait is cancelled, unless it is over by then; if
it is not cancelled, the socket is closed. A connection of which no handler is to come is destroyed, and
its socket is closed with it.

The handlers of a connection run on its context, one at a time, and `HandleReq` makes its calls there;
the accept belongs to the context of the server. Seconds pass at any point. What `HandleReq` throws ends
the connection, as no operation of it is left, but an assertion ends the gate.
-/

namespace QuickChat

/-- How far the accept and the read of a connection are, and the handler of the read. -/
inductive GateStage where
  | accepting
  | refused
  | reading
  | unread
  /-- what is left of `HandleReq` -/
  | handling (request : HttpRequest) (rest : HttpProgram (Except HttpError Unit))
  | handled (request : HttpRequest)
  | raised (request : HttpRequest) (e : HttpError)

/-- `async_write` of the response, which completes or not, and its handler. -/
inductive WriteOp where
  | writing
  | written (complete : Bool)
  | handled (complete : Bool)
  deriving DecidableEq, Repr

/-- `async_wait` for the deadline, and its handler. -/
inductive WaitOp where
  | waiting
  | expired
  | cancelled
  | handled
  deriving DecidableEq, Repr

structure GateConnection where
  /-- the index of its io context -/
  service : Nat
  /-- when the timer expires -/
  deadline_ : Nat
  stage : GateStage
  exchange : HttpExchange
  write : Option WriteOp
  wait : Option WaitOp
  shut : Bool
  /-- by the timer -/
  closed : Bool

namespace GateConnection

def new (service now : Nat) : GateConnection :=
  ⟨service, now + 60, .accepting, .init, none, none, false, false⟩

inductive Event where
  /-- `async_accept` completes, and its handler runs -/
  | accept (ok : Bool)
  /-- `async_read` completes with a request or an error, and its handler runs, up to the first call -/
  | read (result : Option HttpRequest)
  /-- `HandleReq` makes its next call -/
  | proceed (answer : (effect : HttpCall) → effect.Answer)
  /-- `HandleReq` returns or throws, and the handler of the read ends -/
  | finish
  /-- `async_write` completes -/
  | write (complete : Bool)
  | HandleWrite
  /-- `async_wait` completes at the deadline -/
  | expire
  | HandleWait

def Event.handler : Event → Bool
  | .read _ => true
  | .HandleWrite => true
  | .HandleWait => true
  | _ => false

def Event.accepts : Event → Bool
  | .accept _ => true
  | _ => false

def handling (con : GateConnection) : Bool :=
  match con.stage with
  | .handling _ _ => true
  | _ => false

def aborted (con : GateConnection) : Bool :=
  match con.stage with
  | .raised _ (.assertion _) => true
  | _ => false

/-- No handler of the connection is still to come, so it is destroyed. -/
def Released (con : GateConnection) : Prop :=
  (match con.stage with
    | .accepting => False
    | .reading => False
    | .handling _ _ => False
    | _ => True) ∧
  (match con.write with
    | some .writing => False
    | some (.written _) => False
    | _ => True) ∧
  match con.wait with
    | none => True
    | some .handled => True
    | some _ => False

/-- A call of `HandleReq`; `WriteResponse` starts the write. -/
def perform (con : GateConnection) (request : HttpRequest) (effect : HttpCall)
    (answer : effect.Answer) (rest : HttpProgram (Except HttpError Unit)) : GateConnection :=
  { con with
    stage := .handling request rest
    exchange := con.exchange.observe effect answer
    write :=
      match effect with
      | .WriteResponse => some .writing
      | _ => con.write }

def CheckDeadline (con : GateConnection) (request : HttpRequest) : GateConnection :=
  { con with stage := .handled request, wait := some .waiting }

/-- The handler of `async_write`; a wait that has expired is not cancelled. -/
def HandleWrite (con : GateConnection) (complete : Bool) : GateConnection :=
  { con with
    write := some (.handled complete)
    shut := true
    wait := if con.wait = some .waiting then some .cancelled else con.wait }

def step (cfg : ConfigMgr) (reader : JsonReader) (now : Nat) (con : GateConnection) :
    Event → Option GateConnection
  | .accept ok =>
      match con.stage with
      | .accepting => some { con with stage := if ok then .reading else .refused }
      | _ => none
  | .read result =>
      match con.stage, result with
      | .reading, none => some { con with stage := .unread }
      | .reading, some request =>
          some { con with
            stage := .handling request (HttpConnection.HandleReq cfg reader (.new request)).run }
      | _, _ => none
  | .proceed answer =>
      match con.stage with
      | .handling request (.call effect next) =>
          some (con.perform request effect (answer effect) (next (answer effect)))
      | _ => none
  | .finish =>
      match con.stage with
      | .handling request (.ret (.ok ())) => some (con.CheckDeadline request)
      | .handling request (.ret (.error e)) => some { con with stage := .raised request e }
      | _ => none
  | .write complete =>
      if con.write = some .writing ∧ (complete → con.closed = false) then
        some { con with write := some (.written complete) }
      else none
  | .HandleWrite =>
      match con.write with
      | some (.written complete) => some (con.HandleWrite complete)
      | _ => none
  | .expire =>
      if con.wait = some .waiting ∧ con.deadline_ ≤ now then some { con with wait := some .expired }
      else none
  | .HandleWait =>
      match con.wait with
      | some .expired => some { con with wait := some .handled, closed := true }
      | some .cancelled => some { con with wait := some .handled }
      | _ => none

end GateConnection

/-! ### The gate -/

structure GateConnections where
  pool : AsioIOServicePool
  now : Nat
  connections : List GateConnection

namespace GateConnections

inductive Event where
  /-- a second passes -/
  | elapse
  | connection (i : Nat) (event : GateConnection.Event)

def aborted (gate : GateConnections) : Bool := gate.connections.any GateConnection.aborted

def busy (gate : GateConnections) (service : Nat) : Bool :=
  gate.connections.any fun con => con.service = service ∧ con.handling

def Start (gate : GateConnections) : Option GateConnections :=
  gate.pool.GetIOService.map fun given =>
    { gate with pool := given.2, connections := gate.connections ++ [.new given.1 gate.now] }

def listen (size : Nat) : Option GateConnections := Start ⟨.new size, 0, []⟩

def step (cfg : ConfigMgr) (reader : JsonReader) (gate : GateConnections) :
    Event → Option GateConnections
  | .elapse => if gate.aborted then none else some { gate with now := gate.now + 1 }
  | .connection i event =>
      if gate.aborted then none
      else
        gate.connections[i]?.bind fun con =>
          if event.handler ∧ gate.busy con.service then none
          else
            (con.step cfg reader gate.now event).bind fun con =>
              let next := { gate with connections := gate.connections.set i con }
              if event.accepts then next.Start else some next

end GateConnections

end QuickChat
