import KmControl.Hub

/-!
Commands for the agents. Each command has a handler, which waits for the result on a
channel of its own; the table of waiters has the channels' senders, by the ids of the
commands. The results come from the agents' connections. As at the hub, a step is one
section under a lock or lies between two of them.
-/
namespace KmControl.Commands

open Hub

variable {Report Args : Type}

/-- What an agent is to run; the arguments of a tool are JSON. -/
inductive CommandKind (Args : Type) where
  | powerShell (script : String)
  | gui (tool : String) (args : Args)
deriving DecidableEq

structure CommandRequest (Args : Type) where
  commandId : Uuid
  kind : CommandKind Args
  destructive : Bool
deriving DecidableEq

structure CommandResult where
  commandId : Uuid
  exitCode : Option Int
  stdout : String
  stderr : String
  error : Option String
deriving DecidableEq, Repr

structure CommandApiReq (Args : Type) where
  script : String
  destructive : Bool
  kind : Option (CommandKind Args)
deriving DecidableEq

/-- What the caller gets, with the status of an error. -/
inductive Response where
  | result (result : CommandResult)
  | err (status : ℕ) (message : String)
deriving DecidableEq, Repr

/-- What a handler does next. It first clones the sender to the registered connection. -/
inductive CallPhase where
  | lookup
  | insert (connId : ConnId)
  | send (connId : ConnId)
  /-- The sending has failed, and the waiter is still in the table. -/
  | unsent
  | wait
  /-- The sender of its channel has gone without a result. -/
  | dropped
  | timedOut
  | answered (response : Response)
  /-- The caller has gone away, and the handler with it. -/
  | gone
deriving DecidableEq, Repr

/-- A handler, and the id that it draws for its command. -/
structure Call (Args : Type) where
  agentId : Uuid
  req : CommandApiReq Args
  commandId : Uuid
  phase : CallPhase
deriving DecidableEq

/-- A script is run where no kind is given. -/
def Call.command (call : Call Args) : CommandRequest Args where
  commandId := call.commandId
  kind := call.req.kind.getD (.powerShell call.req.script)
  destructive := call.req.destructive

/-- The phases in which a handler has the receiver of its channel. -/
def CallPhase.listening : CallPhase → Bool
  | .send _ | .unsent | .wait => true
  | .lookup | .insert _ | .dropped | .timedOut | .answered _ | .gone => false

/-- The channel of a handler. -/
structure Oneshot where
  value : Option CommandResult
  /-- The sender has been used or dropped. -/
  closed : Bool
deriving DecidableEq, Repr

abbrev CallId := ℕ

structure State (Report Args : Type) where
  hub : Hub.State Report
  /-- The handlers whose senders are in the table. -/
  pendingCmds : Uuid → Option CallId
  channels : CallId → Oneshot
  calls : CallId → Option (Call Args)
  nextCall : CallId
  /-- What was put into the channels to the connections. -/
  outbox : ConnId → List (CommandRequest Args)
  /-- A result whose waiter the task of a connection has taken out of the table. -/
  handing : ConnId → Option (CallId × CommandResult)

/-- What moves a handler: its own next step, an error on sending, the timeout, or the end
of its caller. -/
inductive CallInput where
  | go
  | fail
  | timeout
  | leave
deriving DecidableEq, Repr

inductive Op (Report Args : Type) where
  | hub (op : Hub.Op Report)
  | runCommand (agentId : Uuid) (req : CommandApiReq Args) (commandId : Uuid)
  | call (k : CallId) (input : CallInput)
  /-- A connection's task takes the waiter of a result out of the table. -/
  | commandResult (connId : ConnId) (result : CommandResult)
  /-- It then sends the result to the waiter. -/
  | hand (connId : ConnId)

namespace State

def new : State Report Args where
  hub := Hub.State.new
  pendingCmds _ := none
  channels _ := ⟨none, false⟩
  calls _ := none
  nextCall := 0
  outbox _ := []
  handing _ := none

def runCommand (s : State Report Args) (agentId : Uuid) (req : CommandApiReq Args)
    (commandId : Uuid) : State Report Args :=
  { s with
    calls := Function.update s.calls s.nextCall (some ⟨agentId, req, commandId, .lookup⟩)
    nextCall := s.nextCall + 1 }

def setPhase (s : State Report Args) (k : CallId) (call : Call Args) (phase : CallPhase) :
    State Report Args :=
  { s with calls := Function.update s.calls k (some { call with phase := phase }) }

/-- The sender of a channel is used or dropped. -/
def close (s : State Report Args) (k : CallId) (value : Option CommandResult) :
    State Report Args :=
  { s with channels := Function.update s.channels k ⟨value, true⟩ }

/-- A sender that was in the table is dropped. -/
def removeWaiter (s : State Report Args) (commandId : Uuid) : State Report Args :=
  match s.pendingCmds commandId with
  | some k =>
    { s.close k (s.channels k).value with
      pendingCmds := Function.update s.pendingCmds commandId none }
  | none => s

/-- A sender that was in the table under the same id is dropped. -/
def insertWaiter (s : State Report Args) (commandId : Uuid) (k : CallId) : State Report Args :=
  let s := s.removeWaiter commandId
  { s with pendingCmds := Function.update s.pendingCmds commandId (some k) }

def push (s : State Report Args) (connId : ConnId) (cmd : CommandRequest Args) :
    State Report Args :=
  { s with outbox := Function.update s.outbox connId (s.outbox connId ++ [cmd]) }

/-- The next step of a handler. -/
def callStep (s : State Report Args) (k : CallId) (call : Call Args) (input : CallInput) :
    State Report Args :=
  match call.phase, input with
  | .lookup, .go =>
    match s.hub.registry.registered call.agentId with
    | some connId => s.setPhase k call (.insert connId)
    | none => s.setPhase k call (.answered (.err 409 "agent not online"))
  | .insert connId, .go => (s.setPhase k call (.send connId)).insertWaiter call.commandId k
  | .send connId, .go => (s.push connId call.command).setPhase k call .wait
  | .send _, .fail => s.setPhase k call .unsent
  | .unsent, .go =>
    (s.removeWaiter call.commandId).setPhase k call (.answered (.err 409 "agent connection closed"))
  | .wait, .go =>
    match s.channels k with
    | ⟨some result, _⟩ => s.setPhase k call (.answered (.result result))
    | ⟨none, true⟩ => s.setPhase k call .dropped
    | ⟨none, false⟩ => s
  -- a result may arrive between the last look at the channel and that at the timer
  | .wait, .timeout => s.setPhase k call .timedOut
  | .wait, .leave => s.setPhase k call .gone
  | .dropped, .go =>
    (s.removeWaiter call.commandId).setPhase k call (.answered (.err 500 "command channel dropped"))
  | .timedOut, .go =>
    (s.removeWaiter call.commandId).setPhase k call (.answered (.err 504 "command timed out"))
  | _, _ => s

def call (s : State Report Args) (k : CallId) (input : CallInput) : State Report Args :=
  match s.calls k with
  | some call => s.callStep k call input
  | none => s

/-- The task of a connection waits for the next frame. -/
def reads (s : State Report Args) (connId : ConnId) : Bool :=
  match s.hub.conns connId, s.handing connId with
  | some ⟨_, _, _, .serving, none⟩, none => true
  | _, _ => false

def commandResult (s : State Report Args) (connId : ConnId) (result : CommandResult) :
    State Report Args :=
  if s.reads connId then
    match s.pendingCmds result.commandId with
    | some k =>
      { s with
        pendingCmds := Function.update s.pendingCmds result.commandId none
        handing := Function.update s.handing connId (some (k, result)) }
    | none => s
  else s

/-- Nothing is received where the receiver is gone. -/
def hand (s : State Report Args) (connId : ConnId) : State Report Args :=
  match s.handing connId with
  | some (k, result) =>
    let value :=
      if (s.calls k).any (·.phase.listening) then some result else (s.channels k).value
    { s.close k value with handing := Function.update s.handing connId none }
  | none => s

/-- A connection's task that has a result to hand on does nothing else. -/
def busy (s : State Report Args) : Hub.Op Report → Bool
  | .conn connId _ => (s.handing connId).isSome
  | .hello _ _ _ | .sessionRequest _ _ | .sessionRelease _ _ | .handler _ => false

end State

def step (db : Db) (low : Report → Bool) (s : State Report Args) : Op Report Args →
    State Report Args
  | .hub op => if s.busy op then s else { s with hub := Hub.step db low s.hub op }
  | .runCommand agentId req commandId => s.runCommand agentId req commandId
  | .call k input => s.call k input
  | .commandResult connId result => s.commandResult connId result
  | .hand connId => s.hand connId

def machine (db : Db) (low : Report → Bool) : Machine (State Report Args) (Op Report Args) where
  init := State.new
  step := step db low

/-- The result that a handler has answered with. -/
def State.received (s : State Report Args) (k : CallId) : Option CommandResult :=
  (s.calls k).bind fun call =>
    match call.phase with
    | .answered (.result result) => some result
    | _ => none

end KmControl.Commands
