import KmControl.Laptops
import Mathlib.Data.List.Infix

/-!
The agent's connection loop and the hub's side of the Hello. A turn of the loop connects,
sends the Hello with the saved identity, waits for the hub's answer and serves the
connection until it ends; whether the identity is dropped is read off the text of the
error. What the network does to a connection is given by what arrives at the agent.
-/
namespace KmControl.AgentLoop

open Hub Laptops

/-- `AgentState`: the identity that the file holds and the Hello carries. -/
abbrev AgentState := Laptop

section Texts

def contains (s part : String) : Bool := decide (part.toList <:+: s.toList)

def isAuthFailure (e : String) : Bool := contains e "during hello"

/-- The text of an error of the WebSocket library or of the system below it. None of them
speaks of a Hello, which is a word of this program. -/
structure WsError where
  text : String
  plain : isAuthFailure text = false

end Texts

section Hub

/-- What reaches the hub on an agent's connection before it is registered. -/
inductive Received where
  | hello (agentId : Uuid) (provisionToken : String)
  /-- Any other text. -/
  | text
  | control
  /-- A Close, the end of the stream, or an error. -/
  | gone

inductive HelloOutcome where
  | accepted (agentId : Uuid) (name : String)
  /-- A Close is sent. -/
  | refused
  | left

/-- The first part of `handle_socket`. A query that fails counts as no match. -/
def handleHello (verify : Uuid → String → Except Unit (Option String)) :
    List Received → Option HelloOutcome
  | [] => none
  | .hello agentId provisionToken :: _ =>
    match verify agentId provisionToken with
    | .ok (some name) => some (.accepted agentId name)
    | _ => some .refused
  | .text :: _ => some .refused
  | .gone :: _ => some .left
  | .control :: rest => handleHello verify rest

end Hub

section Connection

inductive HubToAgent where
  | helloOk
  | runCommand
deriving DecidableEq, Repr

/-- What the agent's stream yields. -/
inductive Item where
  /-- A text, as a frame of the hub if it parses. -/
  | text (frame : Option HubToAgent)
  | close
  | ended
  | control
  | error (e : WsError)

/-- The wait for `HelloOk`: an error, or what comes after it; `none` while it waits. -/
def awaitHello : List Item → Option (Except String (List Item))
  | [] => none
  | .text (some .helloOk) :: rest => some (.ok rest)
  | .text _ :: rest => awaitHello rest
  | .close :: _ => some (.error "hub closed connection during hello (auth failed?)")
  | .ended :: _ => some (.error "hub closed connection during hello (auth failed?)")
  | .control :: rest => awaitHello rest
  | .error e :: _ => some (.error ("ws error during hello: " ++ e.text))

/-- The loop that serves the connection. -/
def receive : List Item → Option (Except String Unit)
  | [] => none
  | .text _ :: rest => receive rest
  | .control :: rest => receive rest
  | .close :: _ => some (.ok ())
  | .ended :: _ => some (.ok ())
  | .error e :: _ => some (.error ("ws recv: " ++ e.text))

/-- What the network brings to the agent on one connection. -/
inductive Arrival where
  /-- The hub's answer to the Hello. -/
  | answer
  /-- A text that is no `HelloOk`. -/
  | text (runCommand : Bool)
  | control
  /-- A Close that is not the answer: the hub or a proxy on the way shuts down. -/
  | closed
  | ended
  | error (e : WsError)

/-- One attempt at the tries of `provision`. -/
structure Try where
  /-- The request reaches the hub. -/
  reaches : Bool
  /-- The response comes back. -/
  returns : Bool
  drawn : Drawn

/-- What one turn of the loop meets. -/
structure Turn where
  connected : Bool
  sent : Bool
  arrives : List Arrival
  /-- The hub's query for the Hello fails. -/
  queryFails : Bool
  /-- The file is removed when it is to be. -/
  removed : Bool
  /-- The laptop's MAC, or a placeholder. -/
  mac : String
  tries : List Try
  /-- A new identity is written to the file. -/
  saved : Bool
  /-- Id and name of an identity that is not registered. -/
  fallback : Uuid × String

def verify (t : Table) (queryFails : Bool) (agentId : Uuid) (provisionToken : String) :
    Except Unit (Option String) :=
  if queryFails then .error () else .ok (verifyAgent t agentId provisionToken)

/-- The hub's answer to a Hello. -/
def answer (t : Table) (queryFails : Bool) (state : AgentState) : Item :=
  match handleHello (verify t queryFails) [.hello state.agentId state.provisionToken] with
  | some (.accepted _ _) => .text (some .helloOk)
  | _ => .close

def Arrival.item (answer : Item) : Arrival → Item
  | .answer => answer
  | .text true => .text (some .runCommand)
  | .text false => .text none
  | .control => .control
  | .closed => .close
  | .ended => .ended
  | .error e => .error e

/-- The outcome of a connection; `none` while it lasts. -/
def connectOnce (t : Table) (state : AgentState) (turn : Turn) : Option (Except String Unit) :=
  if turn.connected = false then some (.error "ws connect")
  else if turn.sent = false then some (.error "send hello")
  else
    match awaitHello (turn.arrives.map (Arrival.item (answer t turn.queryFails state))) with
    | none => none
    | some (.error e) => some (.error e)
    | some (.ok rest) => receive rest

end Connection

section Provisioning

/-- `try_provision` until one succeeds. -/
def tryProvision (mac : String) : List Try → Table → Table × Option Laptop
  | [], t => (t, none)
  | a :: rest, t =>
    if a.reaches then
      match getOrCreateLaptop t mac a.drawn with
      | (t, some laptop) => if a.returns then (t, some laptop) else tryProvision mac rest t
      | (t, none) => tryProvision mac rest t
    else tryProvision mac rest t

/-- The table and the file afterwards, and the identity. One without a token was not
registered; `none` is an error. -/
def provision (t : Table) (file : Option AgentState) (turn : Turn) :
    Table × Option AgentState × Option AgentState :=
  match file with
  | some state => (t, file, some state)
  | none =>
    match tryProvision turn.mac (turn.tries.take 6) t with
    | (t, some laptop) => if turn.saved then (t, some laptop, some laptop) else (t, none, none)
    | (t, none) => (t, none, some ⟨turn.fallback.1, turn.fallback.2, ""⟩)

end Provisioning

/-- The agent and the hub's table. -/
structure System where
  state : AgentState
  file : Option AgentState
  table : Table
  /-- `run` has returned, or its connection goes on for ever. -/
  stopped : Bool
  /-- How often the identity was dropped and provisioning begun again. -/
  reprovisions : ℕ

inductive Op where
  | turn (turn : Turn)
  /-- The hub's table becomes another one, by other agents or by a new volume. -/
  | table (t : Table)

def reprovision (s : System) (turn : Turn) : System :=
  let file := if turn.removed then none else s.file
  match provision s.table file turn with
  | (table, file, fresh) =>
    { s with
      table := table, file := file, reprovisions := s.reprovisions + 1
      state := match fresh with
        | some fresh => if fresh.provisionToken = "" then s.state else fresh
        | none => s.state }

def step (s : System) : Op → System
  | .turn turn =>
    if s.stopped then s
    else match connectOnce s.table s.state turn with
      | none => { s with stopped := true }
      | some (.ok ()) => s
      | some (.error e) => if isAuthFailure e then reprovision s turn else s
  | .table t => { s with table := t }

/-- `run`, which returns at once if there is no token. -/
def machine (state : AgentState) (file : Option AgentState) (table : Table) : Machine System Op where
  init := ⟨state, file, table, decide (state.provisionToken = ""), 0⟩
  step := step

end KmControl.AgentLoop
