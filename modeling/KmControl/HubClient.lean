import KmControl.AgentLoop
import KmControl.Commands

/-!
The tools that give commands through the hub. They share one client, which keeps a token of the
hub and logs in anew, once for each command, when the hub refuses it. The hub forgets its tokens
when it is restarted. Each step of a tool's call is one request under way, one section under a
lock, or what lies between two of them.
-/
namespace KmControl.HubClient

open Hub Commands

variable {Report Args : Type}

section Calls

/-- A token of the hub, with the hub's life in which it was drawn. -/
structure AdminToken where
  life : ℕ
  number : ℕ
deriving DecidableEq

/-- What becomes of one command. -/
inductive CommandOutcome where
  | ok (result : CommandResult)
  /-- The hub has answered with another status. -/
  | failed (status : ℕ)
  /-- Refused twice; so often has the hub been restarted since the command was begun. -/
  | unauthorized (restarts : ℕ)
  | loginFailed
  | lost

/-- What a result shows: the output of the tool, or what it has written as errors. -/
def output (result : CommandResult) : String :=
  if result.stdout = "" then result.stderr else result.stdout

/-- The marks of a failure that a tool writes into its output. -/
def reportsFailure (out : String) : Bool :=
  AgentLoop.contains out "\"isError\"" || AgentLoop.contains out "\"refused\"" ||
    AgentLoop.contains out "background_unavailable"

def CommandOutcome.succeeded : CommandOutcome → Bool
  | .ok result => !reportsFailure (output result)
  | .failed _ | .unauthorized _ | .loginFailed | .lost => false

/-- Where `run_req` is; `again` after the first refusal. -/
inductive Phase where
  | token
  | login (again : Bool)
  /-- The reply to the login is under way. -/
  | granted (again : Bool) (token : AdminToken)
  | post (again : Bool) (token : AdminToken)
  | refused (again : Bool)
  /-- A handler of the hub has the command. -/
  | waiting (life : ℕ) (k : CallId)
  | replied (response : Commands.Response)
  | ended
deriving DecidableEq

/-- The handler of the command has been reached, and its reply has not been read. -/
def Phase.started : Phase → Bool
  | .waiting _ _ | .replied _ => true
  | .token | .login _ | .granted _ _ | .post _ _ | .refused _ | .ended => false

/-- A command that a handler of the hub was started for. -/
structure Accepted where
  step : ℕ
  life : ℕ
  call : CallId
  token : AdminToken

/-- A call of a tool: commands that are given one after the other. -/
structure Job (Args : Type) where
  agentId : Uuid
  steps : List (CommandApiReq Args)
  continueOnError : Bool
  results : List CommandOutcome := []
  phase : Phase
  /-- The hub's life in which the present command was begun. -/
  began : ℕ := 0
  /-- Requests that were given up and may still reach the hub. -/
  strays : List (ℕ × AdminToken) := []
  /-- What the hub has started for it. -/
  accepted : List Accepted := []

def Job.new (agentId : Uuid) (steps : List (CommandApiReq Args)) (continueOnError : Bool) :
    Job Args where
  agentId := agentId
  steps := steps
  continueOnError := continueOnError
  phase := if steps = [] then .ended else .token

/-- After a failure the rest is given up, unless the caller wants otherwise. -/
def Job.finish (job : Job Args) (outcome : CommandOutcome) : Job Args :=
  { job with
    results := job.results ++ [outcome]
    phase := if job.results.length + 1 < job.steps.length ∧
      (outcome.succeeded || job.continueOnError) = true then .token else .ended }

def outcomeOf : Commands.Response → CommandOutcome
  | .result result => .ok result
  | .err status _ => .failed status

end Calls

section Worlds

structure World (Report Args : Type) where
  commands : Commands.State Report Args
  /-- The tokens that the hub knows. -/
  tokens : List AdminToken
  drawn : ℕ
  /-- The token that the client keeps. -/
  cell : Option AdminToken
  /-- The replies to the logins of `list_agents`. -/
  listed : List AdminToken
  /-- How often the hub has been restarted. -/
  life : ℕ
  jobs : List (Job Args)

inductive Op (Report Args : Type) where
  /-- What the hub does otherwise, also for others that give commands. -/
  | hub (op : Commands.Op Report Args)
  | restart
  | call (agentId : Uuid) (steps : List (CommandApiReq Args)) (continueOnError : Bool)
  /-- The next step of a call; a handler that it starts draws an id for its command. -/
  | go (j : ℕ) (commandId : Uuid)
  | login (j : ℕ) (verified : Bool)
  /-- A request or its reply is lost. -/
  | lose (j : ℕ)
  /-- A request that was given up reaches the hub after all. -/
  | stray (j n : ℕ) (commandId : Uuid)
  /-- `list_agents` logs in with the same client. -/
  | listLogin
  /-- It keeps the token that it has got. -/
  | listKeep (n : ℕ)

namespace World

def new : World Report Args where
  commands := Commands.State.new
  tokens := []
  drawn := 0
  cell := none
  listed := []
  life := 0
  jobs := []

def set (w : World Report Args) (j : ℕ) (job : Job Args) : World Report Args :=
  { w with jobs := w.jobs.set j job }

/-- The hub knows nothing of before. -/
def restart (w : World Report Args) : World Report Args :=
  { w with commands := Commands.State.new, tokens := [], life := w.life + 1 }

/-- The hub draws a token. -/
def draw (w : World Report Args) : World Report Args :=
  { w with tokens := w.tokens ++ [⟨w.life, w.drawn⟩], drawn := w.drawn + 1 }

/-- A handler is started for a step, in the next number. -/
def start (w : World Report Args) (j : ℕ) (job : Job Args) (i : ℕ)
    (req : CommandApiReq Args) (token : AdminToken) (commandId : Uuid) : World Report Args :=
  let accepted : Accepted := ⟨i, w.life, w.commands.nextCall, token⟩
  { w.set j { job with accepted := job.accepted ++ [accepted] } with
    commands := w.commands.runCommand job.agentId req commandId }

/-- What `run_req` does next, by itself or with a request that reaches the hub. -/
def go (w : World Report Args) (j : ℕ) (job : Job Args) (commandId : Uuid) :
    World Report Args :=
  match job.phase with
  | .token =>
    let phase := match w.cell with
      | some token => .post false token
      | none => .login false
    w.set j { job with began := w.life, phase := phase }
  | .granted again token =>
    { w.set j { job with phase := .post again token } with cell := some token }
  | .post again token =>
    match job.steps[job.results.length]? with
    | some req =>
      if token ∈ w.tokens then
        w.start j { job with phase := .waiting w.life w.commands.nextCall } job.results.length
          req token commandId
      else w.set j { job with phase := .refused again }
    | none => w
  | .refused false => w.set j { job with phase := .login true }
  | .refused true => w.set j (job.finish (.unauthorized (w.life - job.began)))
  | .waiting life k =>
    if life = w.life then
      match (w.commands.calls k).map Call.phase with
      | some (.answered response) => w.set j { job with phase := .replied response }
      | _ => w
    else w
  | .replied response => w.set j (job.finish (outcomeOf response))
  | .login _ | .ended => w

def login (w : World Report Args) (j : ℕ) (job : Job Args) (verified : Bool) :
    World Report Args :=
  match job.phase, verified with
  | .login again, true => w.draw.set j { job with phase := .granted again ⟨w.life, w.drawn⟩ }
  | .login _, false => w.set j (job.finish .loginFailed)
  | _, _ => w

/-- A request that is given up before the hub has it may reach the hub later. -/
def lose (w : World Report Args) (j : ℕ) (job : Job Args) : World Report Args :=
  match job.phase with
  | .post _ token =>
    w.set j ({ job with strays := job.strays ++ [(job.results.length, token)] }.finish .lost)
  | .login _ | .granted _ _ | .refused _ | .waiting _ _ | .replied _ => w.set j (job.finish .lost)
  | .token | .ended => w

def stray (w : World Report Args) (j n : ℕ) (job : Job Args) (commandId : Uuid) :
    World Report Args :=
  match job.strays[n]? with
  | some (i, token) =>
    match job.steps[i]? with
    | some req =>
      if token ∈ w.tokens then
        w.start j { job with strays := job.strays.eraseIdx n } i req token commandId
      else w.set j { job with strays := job.strays.eraseIdx n }
    | none => w
  | none => w

/-- A step on one of the calls. -/
def on (w : World Report Args) (j : ℕ) (f : Job Args → World Report Args) :
    World Report Args :=
  match w.jobs[j]? with
  | some job => f job
  | none => w

def step (db : Db) (low : Report → Bool) (w : World Report Args) :
    Op Report Args → World Report Args
  | .hub op => { w with commands := Commands.step db low w.commands op }
  | .restart => w.restart
  | .call agentId steps continueOnError =>
    { w with jobs := w.jobs ++ [Job.new agentId steps continueOnError] }
  | .go j commandId => w.on j fun job => w.go j job commandId
  | .login j verified => w.on j fun job => w.login j job verified
  | .lose j => w.on j fun job => w.lose j job
  | .stray j n commandId => w.on j fun job => w.stray j n job commandId
  | .listLogin => { w.draw with listed := w.listed ++ [⟨w.life, w.drawn⟩] }
  | .listKeep n => { w with cell := w.listed[n]?.or w.cell }

end World

def machine (db : Db) (low : Report → Bool) :
    Machine (World Report Args) (Op Report Args) where
  init := World.new
  step := World.step db low

end Worlds

section Pushes

/-- A command that a handler has put into the channel to a connection. -/
structure Push (Args : Type) where
  life : ℕ
  id : CallId
  connId : ConnId
  call : Call Args

def push (w : World Report Args) : Op Report Args → Option (Push Args)
  | .hub (.call k .go) => (w.commands.calls k).bind fun call =>
    match call.phase with
    | .send connId => some ⟨w.life, k, connId, call⟩
    | _ => none
  | _ => none

/-- What was pushed in a run, the latest first. -/
def pushes (db : Db) (low : Report → Bool) (ops : List (Op Report Args)) : List (Push Args) :=
  (machine db low).log push ops

/-- The handler was started for this step of the call. -/
def Job.started (job : Job Args) (i : ℕ) (p : Push Args) : Bool :=
  job.accepted.any fun a => a.step = i && (a.life, a.call) = (p.life, p.id)

/-- What was pushed for one step of a call. -/
def Job.pushed (job : Job Args) (log : List (Push Args)) (i : ℕ) : List (Push Args) :=
  log.filter (job.started i)

end Pushes

end KmControl.HubClient
