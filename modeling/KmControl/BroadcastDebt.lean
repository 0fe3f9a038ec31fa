import KmControl.ViewBuilding

/-!
Who still has to tell the admins about an agent. Each section that changes what is seen
of an agent belongs to a task that goes on to broadcast the agent's view. The task owes
this broadcast as long as what it has looked at for the view is what a new look finds.
-/
namespace KmControl.BroadcastDebt

open Hub HubSteps AdminView LastWrite ViewBuilding

variable {Report : Type} {db : Db} {low : Report → Bool}

/-- The phases after a change whose broadcast has not begun; a connection that has been
replaced owes none. -/
def phaseOwes (registered : Prop) : Phase Report → Prop
  | .removeAddr | .removeSession => True
  | .insertAddr | .helloOk | .cleanup => registered
  | .insertOnline | .serving | .alertName _ | .alert _ _ | .closed => False

/-- The task of a connection owes a broadcast. -/
def connOwes (db : Db) (r : Registry Report) (c : ConnId) (conn : Conn Report) : Prop :=
  match conn.cast with
  | some cast => Fresh db r conn.agentId cast.build
  | none => phaseOwes (r.registered conn.agentId = some c) conn.phase

theorem connOwes_of_some {r : Registry Report} {c : ConnId} {conn : Conn Report}
    {cast : Cast Report} (hcast : conn.cast = some cast) :
    connOwes db r c conn ↔ Fresh db r conn.agentId cast.build := by
  unfold connOwes
  rw [hcast]

theorem connOwes_of_none {r : Registry Report} {c : ConnId} {conn : Conn Report}
    (hcast : conn.cast = none) : connOwes db r c conn ↔
      phaseOwes (r.registered conn.agentId = some c) conn.phase := by
  unfold connOwes
  rw [hcast]

/-- A handler owes a broadcast. -/
def handlerOwes (db : Db) (r : Registry Report) (h : Handler Report) : Prop :=
  match h.cast with
  | some cast => Fresh db r h.agentId cast.build
  | none => ∃ token, h.phase = .readAddr token

theorem handlerOwes_of_some {r : Registry Report} {h : Handler Report} {cast : Cast Report}
    (hcast : h.cast = some cast) : handlerOwes db r h ↔ Fresh db r h.agentId cast.build := by
  unfold handlerOwes
  rw [hcast]

theorem handlerOwes_of_none {r : Registry Report} {h : Handler Report} (hcast : h.cast = none) :
    handlerOwes db r h ↔ ∃ token, h.phase = .readAddr token := by
  unfold handlerOwes
  rw [hcast]

/-- What is seen of an agent is the same in both tables. -/
def SameAt (A : Uuid) (r r' : Registry Report) : Prop :=
  r'.online A = r.online A ∧ r'.sessions A = r.sessions A

theorem SameAt.refl (A : Uuid) (r : Registry Report) : SameAt A r r := ⟨rfl, rfl⟩

theorem SameAt.agentView {A : Uuid} {r r' : Registry Report} (h : SameAt A r r') :
    r'.agentView db A = r.agentView db A := by
  unfold Registry.agentView
  rw [h.1, h.2]

theorem SameAt.registered {A : Uuid} {r r' : Registry Report} (h : SameAt A r r') :
    r'.registered A = r.registered A := by
  unfold Registry.registered
  rw [h.1]

theorem connOwes_congr {r r' : Registry Report} {c : ConnId} {conn : Conn Report}
    (hsame : SameAt conn.agentId r r') (h : connOwes db r c conn) : connOwes db r' c conn := by
  cases hcast : conn.cast with
  | some cast =>
    rw [connOwes_of_some hcast] at h ⊢
    exact h.congr hsame.agentView
  | none =>
    rw [connOwes_of_none hcast] at h ⊢
    rwa [hsame.registered]

theorem handlerOwes_congr {r r' : Registry Report} {h : Handler Report}
    (hsame : SameAt h.agentId r r') (howes : handlerOwes db r h) : handlerOwes db r' h := by
  cases hcast : h.cast with
  | some cast =>
    rw [handlerOwes_of_some hcast] at howes ⊢
    exact howes.congr hsame.agentView
  | none =>
    rw [handlerOwes_of_none hcast] at howes ⊢
    exact howes

/-- What a step of a task about an agent means to the admins: it changes what is seen
and is due to tell so, or it changes nothing that is seen, or it sends a view, or there
is nothing to send. -/
inductive Told (db : Db) (A : Uuid) (r r' : Registry Report) (due due' : Prop)
    (sent : Option (AgentView Report)) : Prop
  | changes (hdue : due') (hother : ∀ B, B ≠ A → SameAt B r r') (hbcast : r'.bcast = r.bcast)
  | keeps (hdue : due → due') (hsame : ∀ B, SameAt B r r')
    (hbcast : r'.bcast = r.bcast ∨
      ∃ id name report, r'.bcast = r.bcast ++ [.alert id name report])
  | sending (view : AgentView Report) (hsent : sent = some view) (hview : view.agentId = A)
    (hknown : (db.laptopName A).isSome = true) (hsame : ∀ B, SameAt B r r')
    (hbcast : r'.bcast = r.bcast ++ [.agentUpdated view])
  | silent (hunknown : db.laptopName A = none) (hsame : ∀ B, SameAt B r r')
    (hbcast : r'.bcast = r.bcast)

theorem sameAt_update {A B : Uuid} (h : B ≠ A) (r : Registry Report)
    (entry : Option (AgentConn Report)) :
    SameAt B r { r with online := Function.update r.online A entry } :=
  ⟨Function.update_of_ne h _ _, rfl⟩

theorem sameAt_setStatus {A B : Uuid} (h : B ≠ A) (r : Registry Report) (report : Report) :
    SameAt B r (r.setStatus A report) := by
  unfold Registry.setStatus
  cases r.online A with
  | none => exact SameAt.refl B r
  | some conn => exact sameAt_update h r _

theorem sameAt_go (cast : Cast Report) (A B : Uuid) (r : Registry Report) :
    SameAt B r (cast.go db A r).1 :=
  ⟨congrFun (cast.go_online db A r) B, congrFun (cast.go_sessions db A r) B⟩

theorem agentView_go (cast : Cast Report) (A : Uuid) (r : Registry Report) :
    (cast.go db A r).1.agentView db A = r.agentView db A :=
  (sameAt_go cast A A r).agentView

theorem told_cast {A : Uuid} {cast : Cast Report} (r : Registry Report) (due' : Prop)
    (hown : CastOwn db A cast)
    (hdue : ∀ next, (cast.go db A r).2 = some next → Fresh db r A next.build → due') :
    Told db A r (cast.go db A r).1 (Fresh db r A cast.build) due' (sends cast) := by
  have hsame : ∀ B, SameAt B r (cast.go db A r).1 := fun B => sameAt_go cast A B r
  rcases cast_cases cast A r hown with ⟨view, hsends, hview, hknown, hgo⟩ | ⟨hunknown, hgo⟩ | hgo
  · apply Told.sending view hsends hview hknown hsame
    rw [hgo]
    rfl
  · apply Told.silent hunknown hsame
    rw [hgo]
  · apply Told.keeps ?_ hsame
    · rw [hgo]
      exact Or.inl rfl
    · intro hfresh
      apply hdue _ (congrArg Prod.snd hgo)
      exact hfresh.next

/-- The view that a step of a connection's task sends. -/
def connSends (conn : Conn Report) (input : Input Report) : Option (AgentView Report) :=
  match input with
  | .go => conn.cast.bind sends
  | .fail | .status _ | .close => none

theorem told_move {c : ConnId} {conn conn' : Conn Report} {r r' : Registry Report}
    {input : Input Report} (hmove : Move db low c conn r input r' conn')
    (hown : ∀ cast, conn.cast = some cast → CastOwn db conn.agentId cast) :
    Told db conn.agentId r r' (connOwes db r c conn) (connOwes db r' c conn')
      (connSends conn input) := by
  have hkeeps : (connOwes db r c conn → connOwes db r c conn') →
      Told db conn.agentId r r (connOwes db r c conn) (connOwes db r c conn')
        (connSends conn input) :=
    fun h => .keeps h (fun B => SameAt.refl B r) (Or.inl rfl)
  have hno : ∀ phase : Phase Report, conn.cast = none → conn.phase = phase →
      ¬ phaseOwes (r.registered conn.agentId = some c) phase → ¬ connOwes db r c conn := by
    intro phase hcast hphase hnot howes
    rw [connOwes_of_none hcast, hphase] at howes
    exact hnot howes
  cases hmove with
  | stay => exact hkeeps id
  | cast cast hcast =>
    have htold : Told db conn.agentId r (cast.go db conn.agentId r).1
        (Fresh db r conn.agentId cast.build)
        (connOwes db (cast.go db conn.agentId r).1 c
          { conn with cast := (cast.go db conn.agentId r).2 }) (sends cast) := by
      apply told_cast r _ (hown cast hcast)
      intro next hnext hfresh
      apply (connOwes_of_some hnext).mpr
      exact hfresh.congr (agentView_go cast conn.agentId r)
    rw [← connOwes_of_some hcast] at htold
    have hsends : connSends conn .go = sends cast := by
      unfold connSends
      rw [hcast]
      rfl
    rw [hsends]
    exact htold
  | insertOnline hcast hphase =>
    refine .changes ?_ (fun B hB => sameAt_update hB r _) rfl
    rw [connOwes_of_none (by exact hcast)]
    change (r.insertOnline conn.agentId conn.name c).registered conn.agentId = some c
    rw [Registry.registered_insertOnline, if_pos rfl]
  | insertAddr hcast hphase =>
    refine .keeps (fun howes => ?_) (fun B => ⟨rfl, rfl⟩) (Or.inl rfl)
    rw [connOwes_of_none hcast, hphase] at howes
    rw [connOwes_of_none (by exact hcast)]
    exact howes
  | helloOk hcast hphase =>
    apply hkeeps
    intro _
    rw [connOwes_of_some rfl]
    trivial
  | fail hcast hphase =>
    apply hkeeps
    intro howes
    rw [connOwes_of_none hcast, hphase] at howes
    rw [connOwes_of_none (by exact hcast)]
    exact howes
  | setStatus report hcast hphase =>
    refine .changes ?_ (fun B hB => sameAt_setStatus hB r report) (r.setStatus_bcast _ _)
    rw [connOwes_of_some rfl]
    trivial
  | alertName report name hcast hphase | close hcast hphase =>
    exact hkeeps fun howes => absurd howes (hno _ hcast hphase id)
  | alert report name hcast hphase =>
    refine .keeps (fun howes => absurd howes (hno _ hcast hphase id)) (fun B => ⟨rfl, rfl⟩) ?_
    exact Or.inr ⟨_, _, _, rfl⟩
  | removeOnline hcast hphase hregistered =>
    refine .changes ?_ (fun B hB => sameAt_update hB r _) rfl
    rw [connOwes_of_none (by exact hcast)]
    trivial
  | stale hcast hphase hregistered =>
    exact hkeeps fun howes => absurd howes (hno _ hcast hphase hregistered)
  | removeAddr hcast hphase =>
    refine .keeps (fun _ => ?_) (fun B => ⟨rfl, rfl⟩) (Or.inl rfl)
    rw [connOwes_of_none (by exact hcast)]
    trivial
  | removeSession hcast hphase =>
    refine .changes ?_ (fun B hB => ⟨rfl, Function.update_of_ne hB _ _⟩) rfl
    rw [connOwes_of_some rfl]
    trivial

theorem told_handlerMove {h h' : Handler Report} {r r' : Registry Report}
    (hmove : HandlerMove db h r r' h')
    (hown : ∀ cast, h.cast = some cast → CastOwn db h.agentId cast) :
    Told db h.agentId r r' (handlerOwes db r h) (handlerOwes db r' h') (h.cast.bind sends) := by
  have hno : ∀ phase, h.cast = none → h.phase = phase → (∀ token, phase ≠ .readAddr token) →
      Told db h.agentId r r (handlerOwes db r h) (handlerOwes db r h') (h.cast.bind sends) := by
    intro phase hcast hphase hnot
    refine .keeps (fun howes => ?_) (fun B => SameAt.refl B r) (Or.inl rfl)
    obtain ⟨token, htoken⟩ := (handlerOwes_of_none hcast).mp howes
    exact absurd (hphase.symm.trans htoken) (hnot token)
  cases hmove with
  | stay => exact .keeps id (fun B => SameAt.refl B r) (Or.inl rfl)
  | cast cast hcast =>
    have htold : Told db h.agentId r (cast.go db h.agentId r).1
        (Fresh db r h.agentId cast.build)
        (handlerOwes db (cast.go db h.agentId r).1
          { h with cast := (cast.go db h.agentId r).2 }) (sends cast) := by
      apply told_cast r _ (hown cast hcast)
      intro next hnext hfresh
      apply (handlerOwes_of_some hnext).mpr
      exact hfresh.congr (agentView_go cast h.agentId r)
    rw [← handlerOwes_of_some hcast] at htold
    rw [hcast]
    exact htold
  | known name hcast hphase | unknown hcast hphase | conflict session hcast hphase
  | forbidden session hcast hphase | nothing hcast hphase =>
    exact hno _ hcast hphase fun token => by simp
  | grant hcast hphase hfree =>
    refine .changes ?_ (fun B hB => ⟨rfl, Function.update_of_ne hB _ _⟩) rfl
    rw [handlerOwes_of_none (by exact hcast)]
    exact ⟨_, rfl⟩
  | readAddr token hcast hphase =>
    refine .keeps (fun _ => ?_) (fun B => SameAt.refl B r) (Or.inl rfl)
    rw [handlerOwes_of_some rfl]
    trivial
  | release session hcast hphase hsession hown =>
    refine .changes ?_ (fun B hB => ⟨rfl, Function.update_of_ne hB _ _⟩) rfl
    rw [handlerOwes_of_some rfl]
    trivial

inductive TaskId where
  | conn (c : ConnId)
  | handler (i : ℕ)
deriving DecidableEq

/-- A task owes a broadcast about the agent. -/
def Owes (db : Db) (s : State Report) (B : Uuid) : TaskId → Prop
  | .conn c => ∃ conn, s.conns c = some conn ∧ conn.agentId = B ∧ connOwes db s.registry c conn
  | .handler i => ∃ h, s.handlers i = some h ∧ h.agentId = B ∧ handlerOwes db s.registry h

/-- The view that a step sends, with its task and the agent that the task serves. -/
def sending (s : State Report) : Hub.Op Report → Option (TaskId × Uuid × AgentView Report)
  | .conn c input => (s.conns c).bind fun conn =>
    (connSends conn input).map fun view => (.conn c, conn.agentId, view)
  | .handler i => (s.handlers i).bind fun h =>
    (h.cast.bind sends).map fun view => (.handler i, h.agentId, view)
  | .hello _ _ _ | .sessionRequest _ _ | .sessionRelease _ _ => none

/-- What a step of the hub means for what the admins know of an agent. -/
inductive Debt (db : Db) (s t : State Report) (op : Hub.Op Report) (B : Uuid) : Prop
  | due (id : TaskId) (hknown : (db.laptopName B).isSome = true) (howes : Owes db t B id)
    (hbcast : t.registry.bcast = s.registry.bcast)
  | same (hview : t.registry.agentView db B = s.registry.agentView db B)
    (howes : (db.laptopName B).isSome = true → ∀ id, Owes db s B id → Owes db t B id)
    (hbcast : t.registry.bcast = s.registry.bcast ∨
      ∃ msg, tells msg B = none ∧ t.registry.bcast = s.registry.bcast ++ [msg])
  | sending (id : TaskId) (view : AgentView Report) (hknown : (db.laptopName B).isSome = true)
    (hsending : sending s op = some (id, B, view))
    (hview : t.registry.agentView db B = s.registry.agentView db B)
    (howes : ∀ other, other ≠ id → Owes db s B other → Owes db t B other)
    (hbcast : t.registry.bcast = s.registry.bcast ++ [.agentUpdated view])
    (hagent : view.agentId = B)

/-- What the step of one task means to the admins is what that of the hub does. -/
theorem debt_of_told {s t : State Report} {op : Hub.Op Report} {A : Uuid} (id : TaskId)
    {due due' : Prop} {sent : Option (AgentView Report)}
    (htold : Told db A s.registry t.registry due due' sent)
    (hbefore : ∀ B, Owes db s B id ↔ A = B ∧ due) (hafter : ∀ B, Owes db t B id ↔ A = B ∧ due')
    (hothers : ∀ B other, other ≠ id → SameAt B s.registry t.registry →
      Owes db s B other → Owes db t B other)
    (hsending : ∀ view, sent = some view → sending s op = some (id, A, view)) (B : Uuid) :
    Debt db s t op B := by
  have hall : SameAt B s.registry t.registry → (A = B → due → due') →
      ∀ id, Owes db s B id → Owes db t B id := by
    intro hsame hdue other howes
    by_cases hother : other = id
    · subst hother
      obtain ⟨hA, howes⟩ := (hbefore B).mp howes
      exact (hafter B).mpr ⟨hA, hdue hA howes⟩
    · exact hothers B other hother hsame howes
  cases htold with
  | changes hdue hother hbcast =>
    by_cases hA : A = B
    · cases hname : db.laptopName B with
      | some name =>
        exact .due id (by rw [hname]; rfl) ((hafter B).mpr ⟨hA, hdue⟩) hbcast
      | none =>
        refine .same ?_ (fun hknown => ?_) (Or.inl hbcast)
        · rw [agentView_of_unknown hname, agentView_of_unknown hname]
        · rw [hname] at hknown
          cases hknown
    · have hsame := hother B (Ne.symm hA)
      exact .same hsame.agentView (fun _ => hall hsame fun h => absurd h hA) (Or.inl hbcast)
  | keeps hdue hsame hbcast =>
    refine .same (hsame B).agentView (fun _ => hall (hsame B) fun _ => hdue) ?_
    rcases hbcast with h | ⟨id, name, report, h⟩
    · exact Or.inl h
    · exact Or.inr ⟨_, rfl, h⟩
  | sending view hsent hview hknown hsame hbcast =>
    by_cases hA : A = B
    · subst hA
      exact .sending id view hknown (hsending view hsent) (hsame A).agentView
        (fun other hother => hothers A other hother (hsame A)) hbcast hview
    · refine .same (hsame B).agentView (fun _ => hall (hsame B) fun h => absurd h hA) ?_
      exact Or.inr ⟨_, tells_of_ne (hview ▸ hA), hbcast⟩
  | silent hunknown hsame hbcast =>
    refine .same (hsame B).agentView (fun hknown => hall (hsame B) fun hA => ?_) (Or.inl hbcast)
    rw [← hA, hunknown] at hknown
    cases hknown

theorem owes_conn_iff {s : State Report} {c : ConnId} {conn : Conn Report}
    (hget : s.conns c = some conn) (B : Uuid) :
    Owes db s B (.conn c) ↔ conn.agentId = B ∧ connOwes db s.registry c conn := by
  constructor
  · intro howes
    obtain ⟨other, hother, hrest⟩ := howes
    rw [hget] at hother
    cases hother
    exact hrest
  · exact fun howes => ⟨conn, hget, howes⟩

theorem owes_handler_iff {s : State Report} {i : ℕ} {h : Handler Report}
    (hget : s.handlers i = some h) (B : Uuid) :
    Owes db s B (.handler i) ↔ h.agentId = B ∧ handlerOwes db s.registry h := by
  constructor
  · intro howes
    obtain ⟨other, hother, hrest⟩ := howes
    rw [hget] at hother
    cases hother
    exact hrest
  · exact fun howes => ⟨h, hget, howes⟩

/-- A task that stays as it is owes what it owed. -/
theorem Owes.kept {s t : State Report} {B : Uuid} {id : TaskId} (howes : Owes db s B id)
    (hsame : SameAt B s.registry t.registry)
    (hconns : ∀ c conn, id = .conn c → s.conns c = some conn → t.conns c = some conn)
    (hhandlers : ∀ i h, id = .handler i → s.handlers i = some h → t.handlers i = some h) :
    Owes db t B id := by
  cases id with
  | conn c =>
    obtain ⟨conn, hget, hB, howes⟩ := howes
    subst hB
    exact ⟨conn, hconns c conn rfl hget, rfl, connOwes_congr hsame howes⟩
  | handler i =>
    obtain ⟨h, hget, hB, howes⟩ := howes
    subst hB
    exact ⟨h, hhandlers i h rfl hget, rfl, handlerOwes_congr hsame howes⟩

theorem debt_step {s : State Report} (hsound : Sound db s) (hcasts : CastsOwn db s)
    (hcalls : ∀ i, s.nextHandler ≤ i → s.handlers i = none) (op : Hub.Op Report) (B : Uuid) :
    Debt db s (Hub.step db low s op) op B := by
  apply step_rule (I := fun t => Debt db s t op B)
  · exact .same rfl (fun _ _ => id) (Or.inl rfl)
  · intro agentId name streamAddr peerIp _ _
    refine .same rfl (fun _ id howes => ?_) (Or.inl rfl)
    refine howes.kept ⟨rfl, rfl⟩ (fun c conn _ hget => ?_) fun i h _ hget => hget
    dsimp only
    rw [Function.update_of_ne, hget]
    intro heq
    rw [hsound.fresh c (Nat.le_of_eq heq.symm)] at hget
    cases hget
  · intro c conn input r' conn' hop hget hmove
    apply debt_of_told (.conn c) (told_move hmove fun cast => hcasts.conns c conn cast hget)
    · exact owes_conn_iff hget
    · rw [← hmove.agentId]
      exact owes_conn_iff (Function.update_self _ _ _)
    · intro A other hother hsame howes
      refine howes.kept hsame (fun d conn hd hget => ?_) fun i h _ hget => hget
      dsimp only
      rw [Function.update_of_ne, hget]
      exact fun heq => hother (hd.trans (congrArg TaskId.conn heq))
    · intro view hsent
      rw [hop]
      unfold sending
      dsimp only
      rw [hget, Option.bind_some, hsent]
      rfl
  · intro admin agentId phase _
    refine .same rfl (fun _ id howes => ?_) (Or.inl rfl)
    refine howes.kept ⟨rfl, rfl⟩ (fun c conn _ hget => hget) fun i h _ hget => ?_
    unfold State.call
    dsimp only
    rw [Function.update_of_ne, hget]
    intro heq
    rw [hcalls i (Nat.le_of_eq heq.symm)] at hget
    cases hget
  · intro i h r' h' hop hget hmove
    have hagent : h'.agentId = h.agentId := by cases hmove <;> rfl
    apply debt_of_told (.handler i)
      (told_handlerMove hmove fun cast => hcasts.handlers i h cast hget)
    · exact owes_handler_iff hget
    · rw [← hagent]
      exact owes_handler_iff (Function.update_self _ _ _)
    · intro A other hother hsame howes
      refine howes.kept hsame (fun c conn _ hget => hget) fun j g hj hg => ?_
      dsimp only
      rw [Function.update_of_ne, hg]
      exact fun heq => hother (hj.trans (congrArg TaskId.handler heq))
    · intro view hsent
      rw [hop]
      unfold sending
      dsimp only
      rw [hget, Option.bind_some, hsent]
      rfl

end KmControl.BroadcastDebt
