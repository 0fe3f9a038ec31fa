import KmControl.HubSteps
import KmControl.LastWrite

/-!
An admin's view of the agents: the task that serves its WebSocket at the hub, and the
map that the client keeps. The task sends a snapshot, then subscribes to the broadcasts
and passes them on; when it has fallen behind by more than the channel holds, it goes
on with what is still there, after a new snapshot. The client reads in order.
-/
namespace KmControl.AdminView

open Hub LastWrite

variable {Report : Type}

/-- How many messages the channel of the broadcasts holds. -/
def capacity : ℕ := 256

abbrev Agents (Report : Type) := Uuid → Option (AgentView Report)

def insertAll (agents : Agents Report) (views : List (AgentView Report)) : Agents Report :=
  views.foldl (fun map view => Function.update map view.agentId (some view)) agents

/-- What the client does with a message; an alert goes to the window only. -/
def handleHubMsg (agents : Agents Report) : HubToAdmin Report → Agents Report
  | .snapshot views => insertAll (fun _ => none) views
  | .agentUpdated view => insertAll agents [view]
  | .alert _ _ _ => agents

inductive Task (Report : Type) where
  | connect
  /-- Some views are built, and that of the first agent of the rest is under way. -/
  | snapshot (done : List (AgentView Report)) (todo : List Uuid) (build : Build Report)
  | subscribe
  | serve
deriving DecidableEq

structure Admin (Report : Type) where
  task : Task Report
  /-- The next broadcast to receive, once the task has subscribed. -/
  rx : Option ℕ
  socket : List (HubToAdmin Report)
  /-- The map that the client keeps. -/
  agents : Agents Report

namespace Admin

/-- The client may have kept a map from before. -/
def new (agents : Agents Report) : Admin Report where
  task := Task.connect
  rx := none
  socket := []
  agents := agents

def beginSnapshot (db : Db) (a : Admin Report) : Admin Report :=
  { a with task := .snapshot [] (db.laptops.map Prod.fst) .start }

/-- The channel drops the oldest message when it is full. -/
def lagged (a : Admin Report) (sent : ℕ) : Bool :=
  a.rx.any fun pos => pos + capacity < sent

def recv (db : Db) (r : Registry Report) (a : Admin Report) : Admin Report :=
  match a.rx with
  | none => a
  | some pos =>
    if a.lagged r.bcast.length then
      { a with rx := some (r.bcast.length - capacity) }.beginSnapshot db
    else
      match r.bcast[pos]? with
      | some msg => { a with rx := some (pos + 1), socket := a.socket ++ [msg] }
      | none => a

/-- The next step of the task. -/
def go (db : Db) (r : Registry Report) (a : Admin Report) : Admin Report :=
  match a.task with
  | .connect => a.beginSnapshot db
  | .snapshot done [] _ =>
    { a with
      socket := a.socket ++ [.snapshot done]
      task := if a.rx.isSome then .serve else .subscribe }
  | .snapshot done (_ :: todo) (.built view) =>
    { a with task := .snapshot (done ++ view.toList) todo .start }
  | .snapshot done (A :: todo) build =>
    { a with task := .snapshot done (A :: todo) (build.next db r A) }
  | .subscribe => { a with rx := some r.bcast.length, task := .serve }
  | .serve => a.recv db r

def deliver (a : Admin Report) : Admin Report :=
  match a.socket with
  | [] => a
  | msg :: rest => { a with socket := rest, agents := handleHubMsg a.agents msg }

end Admin

structure World (Report : Type) where
  hub : State Report
  admin : Admin Report

inductive Op (Report : Type) where
  | hub (op : Hub.Op Report)
  /-- The next step of the task that serves the admin. -/
  | admin
  /-- The client handles the next message. -/
  | deliver

def step (db : Db) (low : Report → Bool) (w : World Report) : Op Report → World Report
  | .hub op => { w with hub := Hub.step db low w.hub op }
  | .admin => { w with admin := w.admin.go db w.hub.registry }
  | .deliver => { w with admin := w.admin.deliver }

def machine (db : Db) (low : Report → Bool) (agents : Agents Report) :
    Machine (World Report) (Op Report) where
  init := ⟨State.new, Admin.new agents⟩
  step := step db low

theorem insertAll_append (agents : Agents Report) (views more : List (AgentView Report)) :
    insertAll agents (views ++ more) = insertAll (insertAll agents views) more :=
  List.foldl_append

@[simp] theorem insertAll_nil (agents : Agents Report) : insertAll agents [] = agents := rfl

theorem insertAll_singleton (agents : Agents Report) (view : AgentView Report) (A : Uuid) :
    insertAll agents [view] A = if A = view.agentId then some view else agents A := by
  change Function.update agents view.agentId (some view) A = _
  by_cases h : A = view.agentId
  · rw [h, Function.update_self, if_pos rfl]
  · rw [Function.update_of_ne h, if_neg h]

/-- What a message says about an agent. -/
def tells : HubToAdmin Report → Uuid → Option (Option (AgentView Report))
  | .snapshot views, A => some (insertAll (fun _ => none) views A)
  | .agentUpdated view, A => if A = view.agentId then some (some view) else none
  | .alert _ _ _, _ => none

theorem tells_of_ne {view : AgentView Report} {A : Uuid} (h : view.agentId ≠ A) :
    tells (.agentUpdated view) A = none :=
  if_neg (Ne.symm h)

theorem tells_self (view : AgentView Report) :
    tells (.agentUpdated view) view.agentId = some (some view) :=
  if_pos rfl

/-- The client's map follows the messages. -/
theorem handleHubMsg_eq (agents : Agents Report) (msg : HubToAdmin Report) :
    handleHubMsg agents msg = apply tells agents msg := by
  funext A
  cases msg with
  | snapshot views => rfl
  | agentUpdated view =>
    change insertAll agents [view] A =
      (if A = view.agentId then some (some view) else none).getD (agents A)
    rw [insertAll_singleton]
    split
    · rfl
    · rfl
  | alert => rfl

/-- What the client's map will say when the messages under way have arrived. -/
def Admin.arriving (a : Admin Report) (A : Uuid) : Option (AgentView Report) :=
  a.socket.foldl handleHubMsg a.agents A

theorem Admin.arriving_deliver (a : Admin Report) (A : Uuid) :
    a.deliver.arriving A = a.arriving A := by
  unfold Admin.deliver Admin.arriving
  cases hsocket : a.socket with
  | nil =>
    dsimp only
    rw [hsocket]
  | cons msg rest => rfl

theorem Admin.arriving_concat {a b : Admin Report} {msg : HubToAdmin Report}
    (hsocket : b.socket = a.socket ++ [msg]) (hagents : b.agents = a.agents) (A : Uuid) :
    b.arriving A = (tells msg A).getD (a.arriving A) := by
  unfold Admin.arriving
  rw [hsocket, hagents, List.foldl_append]
  exact congrFun (handleHubMsg_eq _ msg) A

end KmControl.AdminView
