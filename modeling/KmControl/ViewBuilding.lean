import KmControl.AdminView

/-!
How a task builds and sends the view of an agent. What it has looked at may be overtaken
before it sends; the view that it sends is that of its own agent, a registered laptop.
-/
namespace KmControl.ViewBuilding

open Hub HubSteps

variable {Report : Type} {db : Db} {low : Report → Bool}

/-- What has been built of an agent's view is what it is now. -/
def Fresh (db : Db) (r : Registry Report) (A : Uuid) : Build Report → Prop
  | .start => True
  | .seen name online status =>
    (r.agentView db A).map (fun v => (v.name, v.online, v.status)) = some (name, online, status)
  | .built view => view = r.agentView db A

theorem Fresh.next {r : Registry Report} {A : Uuid} {build : Build Report}
    (h : Fresh db r A build) : Fresh db r A (build.next db r A) := by
  unfold Build.next
  cases build with
  | start =>
    unfold Fresh Registry.agentView
    cases db.laptopName A with
    | none => rfl
    | some name => rfl
  | seen name online status =>
    unfold Fresh Registry.agentView at h ⊢
    cases hname : db.laptopName A with
    | none =>
      rw [hname] at h
      cases h
    | some known =>
      rw [hname] at h
      cases h
      rfl
  | built view => exact h

theorem Fresh.congr {r r' : Registry Report} {A : Uuid} {build : Build Report}
    (h : Fresh db r A build) (hview : r'.agentView db A = r.agentView db A) :
    Fresh db r' A build := by
  cases build with
  | start => trivial
  | seen name online status =>
    unfold Fresh at h ⊢
    rwa [hview]
  | built view =>
    unfold Fresh at h ⊢
    rwa [hview]

/-- A view that is being built is that of a registered laptop, under its id. -/
def Own (db : Db) (A : Uuid) : Build Report → Prop
  | .start => True
  | .seen _ _ _ => (db.laptopName A).isSome = true
  | .built none => db.laptopName A = none
  | .built (some view) => view.agentId = A ∧ (db.laptopName A).isSome = true

theorem Own.next (r : Registry Report) {A : Uuid} {build : Build Report} (h : Own db A build) :
    Own db A (build.next db r A) := by
  unfold Build.next
  cases build with
  | start =>
    cases hname : db.laptopName A with
    | none => exact hname
    | some name =>
      unfold Own
      rw [hname]
      rfl
  | seen name online status => exact ⟨rfl, h⟩
  | built view => exact h

/-- The broadcasts that tasks are at. -/
def CastOwn (db : Db) (A : Uuid) (cast : Cast Report) : Prop :=
  Own db A cast.build ∧ ∀ view, cast.fallback = some view →
    view.agentId = A ∧ (db.laptopName A).isSome = true

/-- The view that the next step of a broadcast sends. -/
def sends (cast : Cast Report) : Option (AgentView Report) :=
  match cast.build with
  | .built view => view.or cast.fallback
  | .start | .seen _ _ _ => none

/-- A broadcast sends a view, ends without one as there is none, or goes on. -/
theorem cast_cases (cast : Cast Report) (A : Uuid) (r : Registry Report)
    (hown : CastOwn db A cast) :
    (∃ view, sends cast = some view ∧ view.agentId = A ∧ (db.laptopName A).isSome = true ∧
      cast.go db A r = (r.broadcast (.agentUpdated view), none)) ∨
    (db.laptopName A = none ∧ cast.go db A r = (r, none)) ∨
    cast.go db A r = (r, some { cast with build := cast.build.next db r A }) := by
  obtain ⟨hbuild, hfallback⟩ := hown
  unfold Cast.go sends
  cases hb : cast.build with
  | start => exact Or.inr (Or.inr rfl)
  | seen name online status => exact Or.inr (Or.inr rfl)
  | built view =>
    rw [hb] at hbuild
    dsimp only
    cases view with
    | some view => exact Or.inl ⟨view, rfl, hbuild.1, hbuild.2, rfl⟩
    | none =>
      cases hf : cast.fallback with
      | some view =>
        obtain ⟨hview, hknown⟩ := hfallback view hf
        exact Or.inl ⟨view, rfl, hview, hknown, rfl⟩
      | none => exact Or.inr (Or.inl ⟨hbuild, rfl⟩)

theorem CastOwn.go {cast : Cast Report} {A : Uuid} (h : CastOwn db A cast) (r : Registry Report) :
    ∀ next, (cast.go db A r).2 = some next → CastOwn db A next := by
  intro next hnext
  rcases cast_cases cast A r h with ⟨view, -, -, -, hgo⟩ | ⟨-, hgo⟩ | hgo
  · rw [hgo] at hnext
    cases hnext
  · rw [hgo] at hnext
    cases hnext
  · rw [hgo] at hnext
    cases hnext
    exact ⟨h.1.next r, h.2⟩

/-- All broadcasts under way are the agents' own. -/
structure CastsOwn (db : Db) (s : State Report) : Prop where
  conns : ∀ c conn cast, s.conns c = some conn → conn.cast = some cast →
    CastOwn db conn.agentId cast
  handlers : ∀ i h cast, s.handlers i = some h → h.cast = some cast → CastOwn db h.agentId cast

theorem castOwn_broadcastAgent (A : Uuid) : CastOwn db A (.broadcastAgent : Cast Report) :=
  ⟨trivial, fun _ h => absurd h.symm (Option.some_ne_none _)⟩

theorem castOwn_farewell {A : Uuid} (hknown : (db.laptopName A).isSome = true) :
    CastOwn db A (.farewell A : Cast Report) := by
  refine ⟨trivial, fun view h => ?_⟩
  cases h
  exact ⟨rfl, hknown⟩

theorem castOwn_move {c : ConnId} {conn conn' : Conn Report} {r r' : Registry Report}
    {input : Input Report} (hmove : Move db low c conn r input r' conn')
    (hknown : (db.laptopName conn.agentId).isSome = true)
    (hown : ∀ cast, conn.cast = some cast → CastOwn db conn.agentId cast) :
    ∀ cast, conn'.cast = some cast → CastOwn db conn.agentId cast := by
  cases hmove with
  | stay | insertOnline | insertAddr | fail | alertName | alert | close | removeOnline | stale
  | removeAddr => exact hown
  | cast cast hcast => exact (hown cast hcast).go r
  | helloOk | setStatus =>
    intro cast hcast
    cases hcast
    exact castOwn_broadcastAgent _
  | removeSession =>
    intro cast hcast
    cases hcast
    exact castOwn_farewell hknown

theorem castOwn_handlerMove {h h' : Handler Report} {r r' : Registry Report}
    (hmove : HandlerMove db h r r' h')
    (hown : ∀ cast, h.cast = some cast → CastOwn db h.agentId cast) :
    ∀ cast, h'.cast = some cast → CastOwn db h.agentId cast := by
  cases hmove with
  | stay | known | unknown | conflict | grant | forbidden | nothing => exact hown
  | cast cast hcast => exact (hown cast hcast).go r
  | readAddr | release =>
    intro cast hcast
    cases hcast
    exact castOwn_broadcastAgent _

theorem CastsOwn.step {s : State Report} (hs : CastsOwn db s) (hsound : Sound db s)
    (op : Hub.Op Report) : CastsOwn db (Hub.step db low s op) := by
  apply step_rule hs
  · intro agentId name streamAddr peerIp _ _
    refine ⟨fun c conn cast hget => ?_, hs.handlers⟩
    dsimp only at hget
    by_cases hc : c = s.nextConnId
    · rw [hc, Function.update_self] at hget
      cases hget
      exact fun hcast => absurd hcast.symm (Option.some_ne_none _)
    · rw [Function.update_of_ne hc] at hget
      exact hs.conns c conn cast hget
  · intro c conn input r' conn' _ hget hmove
    refine ⟨fun d other cast hother => ?_, hs.handlers⟩
    dsimp only at hother
    by_cases hd : d = c
    · rw [hd, Function.update_self] at hother
      cases hother
      rw [hmove.agentId]
      exact castOwn_move hmove (hsound.known c conn hget)
        (fun cast => hs.conns c conn cast hget) cast
    · rw [Function.update_of_ne hd] at hother
      exact hs.conns d other cast hother
  · intro admin agentId phase _
    refine ⟨hs.conns, fun i h cast hget => ?_⟩
    unfold State.call at hget
    dsimp only at hget
    by_cases hi : i = s.nextHandler
    · rw [hi, Function.update_self] at hget
      cases hget
      exact fun hcast => absurd hcast.symm (Option.some_ne_none _)
    · rw [Function.update_of_ne hi] at hget
      exact hs.handlers i h cast hget
  · intro i h r' h' _ hget hmove
    refine ⟨hs.conns, fun j g cast hg => ?_⟩
    dsimp only at hg
    by_cases hj : j = i
    · rw [hj, Function.update_self] at hg
      cases hg
      have hagent : h'.agentId = h.agentId := by cases hmove <;> rfl
      rw [hagent]
      exact castOwn_handlerMove hmove (fun cast => hs.handlers i h cast hget) cast
    · rw [Function.update_of_ne hj] at hg
      exact hs.handlers j g cast hg

theorem agentView_of_unknown {r : Registry Report} {B : Uuid} (h : db.laptopName B = none) :
    r.agentView db B = none := by
  unfold Registry.agentView
  rw [h]
  rfl

theorem castsOwn_run (ops : List (Hub.Op Report)) :
    CastsOwn db ((Hub.machine db low).run ops) := by
  induction ops using List.reverseRecOn with
  | nil => exact ⟨fun _ _ _ h => absurd h.symm (Option.some_ne_none _),
      fun _ _ _ h => absurd h.symm (Option.some_ne_none _)⟩
  | append_singleton ops op ih =>
    rw [Machine.run_concat]
    exact ih.step (sound_run ops) op

end KmControl.ViewBuilding
