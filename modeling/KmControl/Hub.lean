import KmControl.Machine
import Mathlib.Data.Nat.Notation
import Mathlib.Logic.Function.Basic

/-!
The hub: what it keeps about agents and control sessions, the tasks that serve the
agents' connections, and the handlers of the admins' session requests. Every table has
its own lock, and a step of a task is one section under a lock, the sending of one
message, or what lies between two of them. The table of laptops does not change.
-/
namespace KmControl.Hub

abbrev Uuid := ℕ

abbrev ConnId := ℕ

/-- Session tokens, numbered in the order in which they are drawn; no two are equal. -/
abbrev Token := ℕ

variable {Report : Type}

structure AgentConn (Report : Type) where
  name : String
  lastStatus : Option Report
  connId : ConnId
deriving DecidableEq

structure ControlSession where
  adminUsername : String
  sessionToken : Token
deriving DecidableEq, Repr

structure AgentView (Report : Type) where
  agentId : Uuid
  name : String
  online : Bool
  status : Option Report
  controlledBy : Option String
deriving DecidableEq

inductive HubToAdmin (Report : Type) where
  | snapshot (agents : List (AgentView Report))
  | agentUpdated (agent : AgentView Report)
  /-- A battery is low; the message is made of the name and of the report. -/
  | alert (agentId : Uuid) (name : String) (report : Report)
deriving DecidableEq

/-- The registered laptops. Their ids are the primary key. -/
structure Db where
  laptops : List (Uuid × String)
  nodup : (laptops.map Prod.fst).Nodup

/-- The table of one laptop. -/
def Db.single (laptop : Uuid × String) : Db := ⟨[laptop], by simp⟩

def Db.laptopName (db : Db) (agentId : Uuid) : Option String := db.laptops.lookup agentId

/-- The tables that the tasks share, and all that was ever broadcast to the admins. -/
structure Registry (Report : Type) where
  online : Uuid → Option (AgentConn Report)
  agentAddr : Uuid → Option String
  sessions : Uuid → Option ControlSession
  bcast : List (HubToAdmin Report)
  /-- How many session tokens have been drawn. -/
  drawn : Token

namespace Registry

def new : Registry Report where
  online _ := none
  agentAddr _ := none
  sessions _ := none
  bcast := []
  drawn := 0

/-- A new connection takes over the last status of the one that it replaces. -/
def insertOnline (r : Registry Report) (agentId : Uuid) (name : String) (connId : ConnId) :
    Registry Report :=
  let prev := r.online agentId
  { r with online :=
      Function.update r.online agentId (some ⟨name, prev.bind (·.lastStatus), connId⟩) }

def insertAddr (r : Registry Report) (agentId : Uuid) (addr : String) : Registry Report :=
  { r with agentAddr := Function.update r.agentAddr agentId (some addr) }

/-- The report goes to whichever connection of the agent is registered. -/
def setStatus (r : Registry Report) (agentId : Uuid) (report : Report) : Registry Report :=
  match r.online agentId with
  | some conn =>
    { r with online :=
        Function.update r.online agentId (some { conn with lastStatus := some report }) }
  | none => r

def removeOnline (r : Registry Report) (agentId : Uuid) : Registry Report :=
  { r with online := Function.update r.online agentId none }

def removeAddr (r : Registry Report) (agentId : Uuid) : Registry Report :=
  { r with agentAddr := Function.update r.agentAddr agentId none }

def removeSession (r : Registry Report) (agentId : Uuid) : Registry Report :=
  { r with sessions := Function.update r.sessions agentId none }

def insertSession (r : Registry Report) (agentId : Uuid) (username : String) : Registry Report :=
  { r with
    sessions := Function.update r.sessions agentId (some ⟨username, r.drawn⟩)
    drawn := r.drawn + 1 }

def broadcast (r : Registry Report) (msg : HubToAdmin Report) : Registry Report :=
  { r with bcast := r.bcast ++ [msg] }

/-- The connection that is registered for an agent. -/
def registered (r : Registry Report) (agentId : Uuid) : Option ConnId :=
  (r.online agentId).map (·.connId)

/-- The view of an agent if it is built without interruption. -/
def agentView (db : Db) (r : Registry Report) (agentId : Uuid) : Option (AgentView Report) :=
  (db.laptopName agentId).map fun name =>
    { agentId := agentId
      name := name
      online := (r.online agentId).isSome
      status := (r.online agentId).bind (·.lastStatus)
      controlledBy := (r.sessions agentId).map (·.adminUsername) }

section Fields

variable (r : Registry Report) (agentId other : Uuid) (name addr : String) (connId : ConnId)
  (report : Report) (msg : HubToAdmin Report)

@[simp] theorem insertOnline_agentAddr :
    (r.insertOnline agentId name connId).agentAddr = r.agentAddr := rfl

@[simp] theorem insertOnline_sessions :
    (r.insertOnline agentId name connId).sessions = r.sessions := rfl

@[simp] theorem insertAddr_online : (r.insertAddr agentId addr).online = r.online := rfl

@[simp] theorem insertAddr_sessions : (r.insertAddr agentId addr).sessions = r.sessions := rfl

@[simp] theorem setStatus_agentAddr : (r.setStatus agentId report).agentAddr = r.agentAddr := by
  unfold setStatus
  split <;> rfl

@[simp] theorem setStatus_sessions : (r.setStatus agentId report).sessions = r.sessions := by
  unfold setStatus
  split <;> rfl

@[simp] theorem setStatus_bcast : (r.setStatus agentId report).bcast = r.bcast := by
  unfold setStatus
  split <;> rfl

@[simp] theorem setStatus_drawn : (r.setStatus agentId report).drawn = r.drawn := by
  unfold setStatus
  split <;> rfl

@[simp] theorem broadcast_online : (r.broadcast msg).online = r.online := rfl

@[simp] theorem broadcast_agentAddr : (r.broadcast msg).agentAddr = r.agentAddr := rfl

@[simp] theorem broadcast_sessions : (r.broadcast msg).sessions = r.sessions := rfl

@[simp] theorem broadcast_drawn : (r.broadcast msg).drawn = r.drawn := rfl

theorem sessions_insertSession : (r.insertSession agentId name).sessions other =
    if other = agentId then some ⟨name, r.drawn⟩ else r.sessions other := by
  unfold insertSession
  by_cases h : other = agentId
  · subst h
    simp
  · simp [h]

theorem sessions_removeSession : (r.removeSession agentId).sessions other =
    if other = agentId then none else r.sessions other := by
  unfold removeSession
  by_cases h : other = agentId
  · subst h
    simp
  · simp [h]

/-- What is left after a removal was there before. -/
theorem sessions_of_removeSession {session : ControlSession}
    (h : (r.removeSession agentId).sessions other = some session) :
    r.sessions other = some session := by
  rw [sessions_removeSession] at h
  split at h
  · cases h
  · exact h

theorem registered_insertOnline : (r.insertOnline agentId name connId).registered other =
    if other = agentId then some connId else r.registered other := by
  unfold registered insertOnline
  by_cases h : other = agentId
  · subst h
    simp
  · simp [h]

@[simp] theorem registered_setStatus :
    (r.setStatus agentId report).registered other = r.registered other := by
  unfold registered setStatus
  cases hconn : r.online agentId with
  | none => rfl
  | some conn =>
    by_cases h : other = agentId
    · subst h
      simp [hconn]
    · simp [h]

theorem registered_removeOnline : (r.removeOnline agentId).registered other =
    if other = agentId then none else r.registered other := by
  unfold registered removeOnline
  by_cases h : other = agentId
  · subst h
    simp
  · simp [h]

theorem registered_congr {r r' : Registry Report} (h : r'.online = r.online) :
    r'.registered = r.registered := by
  unfold registered
  rw [h]

end Fields

end Registry

/-- How far a task has come in building the view of an agent: it looks at the tables of
the laptops and of the connections, then at that of the sessions. -/
inductive Build (Report : Type) where
  | start
  | seen (name : String) (online : Bool) (status : Option Report)
  | built (view : Option (AgentView Report))
deriving DecidableEq

def Build.next (db : Db) (r : Registry Report) (agentId : Uuid) : Build Report → Build Report
  | .start =>
    match db.laptopName agentId with
    | some name => .seen name (r.online agentId).isSome ((r.online agentId).bind (·.lastStatus))
    | none => .built none
  | .seen name online status =>
    .built (some ⟨agentId, name, online, status, (r.sessions agentId).map (·.adminUsername)⟩)
  | .built view => .built view

/-- A broadcast of an agent's view that a task is at, and what it sends if the agent is
not in the table of laptops. -/
structure Cast (Report : Type) where
  build : Build Report
  fallback : Option (AgentView Report)
deriving DecidableEq

/-- `broadcast_agent` sends nothing about an agent that is not in the table. -/
def Cast.broadcastAgent : Cast Report := ⟨.start, none⟩

/-- The end of a cleanup sends at least that the agent is offline. -/
def Cast.farewell (agentId : Uuid) : Cast Report :=
  ⟨.start, some ⟨agentId, toString agentId, false, none, none⟩⟩

/-- The next step of a broadcast; it ends with the sending. -/
def Cast.go (db : Db) (agentId : Uuid) (cast : Cast Report) (r : Registry Report) :
    Registry Report × Option (Cast Report) :=
  match cast.build with
  | .built view =>
    match view.or cast.fallback with
    | some view => (r.broadcast (.agentUpdated view), none)
    | none => (r, none)
  | build => (r, some { cast with build := build.next db r agentId })

/-- A broadcast changes no table. -/
theorem Cast.go_registry (db : Db) (agentId : Uuid) (cast : Cast Report) (r : Registry Report) :
    (cast.go db agentId r).1 = r ∨
      ∃ view, (cast.go db agentId r).1 = r.broadcast (.agentUpdated view) := by
  unfold Cast.go
  split
  · split
    · rename_i view _
      exact Or.inr ⟨view, rfl⟩
    · exact Or.inl rfl
  · exact Or.inl rfl

section Fields

variable (db : Db) (agentId : Uuid) (cast : Cast Report) (r : Registry Report)

@[simp] theorem Cast.go_online : (cast.go db agentId r).1.online = r.online := by
  obtain h | ⟨view, h⟩ := cast.go_registry db agentId r <;> rw [h]
  rfl

@[simp] theorem Cast.go_agentAddr : (cast.go db agentId r).1.agentAddr = r.agentAddr := by
  obtain h | ⟨view, h⟩ := cast.go_registry db agentId r <;> rw [h]
  rfl

@[simp] theorem Cast.go_sessions : (cast.go db agentId r).1.sessions = r.sessions := by
  obtain h | ⟨view, h⟩ := cast.go_registry db agentId r <;> rw [h]
  rfl

@[simp] theorem Cast.go_drawn : (cast.go db agentId r).1.drawn = r.drawn := by
  obtain h | ⟨view, h⟩ := cast.go_registry db agentId r <;> rw [h]
  rfl

@[simp] theorem Cast.go_registered (other : Uuid) :
    (cast.go db agentId r).1.registered other = r.registered other := by
  rw [Registry.registered_congr (cast.go_online db agentId r)]

end Fields

/-- What the task of a connection does next, apart from a broadcast. The Hello has been
verified and the connection's number drawn. -/
inductive Phase (Report : Type) where
  | insertOnline
  | insertAddr
  | helloOk
  | serving
  | alertName (report : Report)
  | alert (report : Report) (name : String)
  /-- The cleanup begins with the look whether the connection is still registered. -/
  | cleanup
  | removeAddr
  | removeSession
  | closed
deriving DecidableEq

/-- The task of a connection. While it is at a broadcast it does nothing else. -/
structure Conn (Report : Type) where
  agentId : Uuid
  name : String
  streamAddr : String
  phase : Phase Report
  cast : Option (Cast Report)
deriving DecidableEq

/-- What moves the task of a connection: its own next step, an error on sending the
HelloOk, a report, or the end of the connection. Frames that change nothing are left
out, and so are results of commands. -/
inductive Input (Report : Type) where
  | go
  | fail
  | status (report : Report)
  | close
deriving DecidableEq

/-- The next step of a connection's task when it is at no broadcast. -/
def Conn.advance (low : Report → Bool) (connId : ConnId) (conn : Conn Report)
    (r : Registry Report) : Input Report → Registry Report × Conn Report
  | .go =>
    match conn.phase with
    | .insertOnline =>
      (r.insertOnline conn.agentId conn.name connId, { conn with phase := .insertAddr })
    | .insertAddr => (r.insertAddr conn.agentId conn.streamAddr, { conn with phase := .helloOk })
    | .helloOk => (r, { conn with phase := .serving, cast := some .broadcastAgent })
    | .serving => (r, conn)
    | .alertName report =>
      (r, { conn with
        phase := .alert report
          (((r.online conn.agentId).map (·.name)).getD (toString conn.agentId)) })
    | .alert report name =>
      (r.broadcast (.alert conn.agentId name report), { conn with phase := .serving })
    | .cleanup =>
      if r.registered conn.agentId = some connId then
        (r.removeOnline conn.agentId, { conn with phase := .removeAddr })
      else (r, { conn with phase := .closed })
    | .removeAddr => (r.removeAddr conn.agentId, { conn with phase := .removeSession })
    | .removeSession =>
      (r.removeSession conn.agentId,
        { conn with phase := .closed, cast := some (.farewell conn.agentId) })
    | .closed => (r, conn)
  | .fail =>
    match conn.phase with
    | .helloOk => (r, { conn with phase := .cleanup })
    | _ => (r, conn)
  | .status report =>
    match conn.phase with
    | .serving =>
      (r.setStatus conn.agentId report,
        { conn with
          phase := if low report then .alertName report else .serving
          cast := some .broadcastAgent })
    | _ => (r, conn)
  | .close =>
    match conn.phase with
    | .serving => (r, { conn with phase := .cleanup })
    | _ => (r, conn)

def Conn.step (db : Db) (low : Report → Bool) (connId : ConnId) (conn : Conn Report)
    (r : Registry Report) (input : Input Report) : Registry Report × Conn Report :=
  match conn.cast, input with
  | some cast, .go =>
    let (r, cast) := cast.go db conn.agentId r
    (r, { conn with cast := cast })
  | some _, _ => (r, conn)
  | none, input => conn.advance low connId r input

inductive Response where
  | granted (sessionToken : Token) (tailscaleAddr : Option String)
  | ok
  | notFound
  | conflict
  | forbidden
deriving DecidableEq, Repr

/-- What the handler of a session request or release does next, apart from a broadcast;
the response goes out when it is at none. -/
inductive HandlerPhase where
  | lookup
  | request
  | readAddr (token : Token)
  | release
  | respond (response : Response)
deriving DecidableEq, Repr

structure Handler (Report : Type) where
  admin : String
  agentId : Uuid
  phase : HandlerPhase
  cast : Option (Cast Report)
deriving DecidableEq

/-- The next step of a handler that is at no broadcast. -/
def Handler.advance (db : Db) (h : Handler Report) (r : Registry Report) :
    Registry Report × Handler Report :=
  match h.phase with
  | .lookup =>
    if (db.laptopName h.agentId).isSome then (r, { h with phase := .request })
    else (r, { h with phase := .respond .notFound })
  | .request =>
    if (r.sessions h.agentId).any fun s => s.adminUsername ≠ h.admin then
      (r, { h with phase := .respond .conflict })
    else (r.insertSession h.agentId h.admin, { h with phase := .readAddr r.drawn })
  | .readAddr token =>
    (r, { h with
      phase := .respond (.granted token (r.agentAddr h.agentId))
      cast := some .broadcastAgent })
  | .release =>
    match r.sessions h.agentId with
    | some s =>
      if s.adminUsername = h.admin then
        (r.removeSession h.agentId,
          { h with phase := .respond .ok, cast := some .broadcastAgent })
      else (r, { h with phase := .respond .forbidden })
    | none => (r, { h with phase := .respond .ok })
  | .respond _ => (r, h)

def Handler.step (db : Db) (h : Handler Report) (r : Registry Report) :
    Registry Report × Handler Report :=
  match h.cast with
  | some cast =>
    let (r, cast) := cast.go db h.agentId r
    (r, { h with cast := cast })
  | none => h.advance db r

structure State (Report : Type) where
  registry : Registry Report
  conns : ConnId → Option (Conn Report)
  nextConnId : ConnId
  handlers : ℕ → Option (Handler Report)
  nextHandler : ℕ

inductive Op (Report : Type) where
  /-- An agent's Hello is verified; it may have reported an address of its own. -/
  | hello (agentId : Uuid) (streamAddr : Option String) (peerIp : String)
  | conn (connId : ConnId) (input : Input Report)
  | sessionRequest (admin : String) (agentId : Uuid)
  | sessionRelease (admin : String) (agentId : Uuid)
  /-- The next step of a handler. -/
  | handler (h : ℕ)

namespace State

def new : State Report where
  registry := Registry.new
  conns _ := none
  nextConnId := 1
  handlers _ := none
  nextHandler := 0

/-- Only a registered laptop passes the verification, which also gives its name. -/
def hello (db : Db) (s : State Report) (agentId : Uuid) (streamAddr : Option String)
    (peerIp : String) : State Report :=
  match db.laptopName agentId with
  | some name =>
    { s with
      conns := Function.update s.conns s.nextConnId
        (some ⟨agentId, name, streamAddr.getD peerIp, .insertOnline, none⟩)
      nextConnId := s.nextConnId + 1 }
  | none => s

def conn (db : Db) (low : Report → Bool) (s : State Report) (connId : ConnId)
    (input : Input Report) : State Report :=
  match s.conns connId with
  | some conn =>
    let (registry, conn) := conn.step db low connId s.registry input
    { s with registry := registry, conns := Function.update s.conns connId (some conn) }
  | none => s

def call (s : State Report) (h : Handler Report) : State Report :=
  { s with
    handlers := Function.update s.handlers s.nextHandler (some h)
    nextHandler := s.nextHandler + 1 }

def handler (db : Db) (s : State Report) (i : ℕ) : State Report :=
  match s.handlers i with
  | some h =>
    let (registry, h) := h.step db s.registry
    { s with registry := registry, handlers := Function.update s.handlers i (some h) }
  | none => s

end State

def step (db : Db) (low : Report → Bool) (s : State Report) : Op Report → State Report
  | .hello agentId streamAddr peerIp => s.hello db agentId streamAddr peerIp
  | .conn connId input => s.conn db low connId input
  | .sessionRequest admin agentId => s.call ⟨admin, agentId, .lookup, none⟩
  | .sessionRelease admin agentId => s.call ⟨admin, agentId, .release, none⟩
  | .handler i => s.handler db i

def machine (db : Db) (low : Report → Bool) : Machine (State Report) (Op Report) where
  init := State.new
  step := step db low

end KmControl.Hub
