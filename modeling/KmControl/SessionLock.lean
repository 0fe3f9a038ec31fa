import KmControl.HubSteps

/-!
Who may control an agent. The table of sessions is written in three places only: where
a request is granted, where its owner's release is, and where a cleanup removes the
session of its agent. Hence a granted session stays with its admin until then.
-/
namespace KmControl.SessionLock

open Hub HubSteps

variable {Report : Type} {db : Db} {low : Report → Bool}

/-- The step is that of a request that is granted this session. -/
def Grants (s : State Report) (op : Op Report) (A : Uuid) (session : ControlSession) : Prop :=
  ∃ i h, op = Op.handler i ∧ s.handlers i = some h ∧ h.cast = none ∧ h.phase = .request ∧
    h.agentId = A ∧
    (∀ held, s.registry.sessions A = some held → held.adminUsername = h.admin) ∧
    session = ⟨h.admin, s.registry.drawn⟩

/-- The step is that of an admin's release looking at the sessions. -/
def Releases (s : State Report) (op : Op Report) (A : Uuid) (admin : String) : Prop :=
  ∃ i h, op = Op.handler i ∧ s.handlers i = some h ∧ h.cast = none ∧ h.phase = .release ∧
    h.agentId = A ∧ h.admin = admin

/-- The step is that of a cleanup removing the session of the agent. -/
def Clears (s : State Report) (op : Op Report) (A : Uuid) : Prop :=
  ∃ c conn, op = Op.conn c .go ∧ s.conns c = some conn ∧ conn.cast = none ∧
    conn.phase = .removeSession ∧ conn.agentId = A

/-- What a step makes of the session of an agent. -/
theorem sessions_step (db : Db) (low : Report → Bool) (s : State Report) (op : Op Report) (A : Uuid) :
    (∃ session, Grants s op A session ∧
      (step db low s op).registry.sessions A = some session) ∨
    (∃ session, Releases s op A session.adminUsername ∧ s.registry.sessions A = some session ∧
      (step db low s op).registry.sessions A = none) ∨
    (Clears s op A ∧ (step db low s op).registry.sessions A = none) ∨
    (step db low s op).registry.sessions A = s.registry.sessions A := by
  apply step_rule (I := fun t => (∃ session, Grants s op A session ∧
      t.registry.sessions A = some session) ∨
    (∃ session, Releases s op A session.adminUsername ∧ s.registry.sessions A = some session ∧
      t.registry.sessions A = none) ∨
    (Clears s op A ∧ t.registry.sessions A = none) ∨
    t.registry.sessions A = s.registry.sessions A)
  · exact Or.inr (Or.inr (Or.inr rfl))
  · exact fun _ _ _ _ _ _ => Or.inr (Or.inr (Or.inr rfl))
  · intro c conn input r' conn' hop hget hmove
    refine Or.inr (Or.inr ?_)
    dsimp only
    cases hmove with
    | stay | insertOnline | insertAddr | helloOk | fail | alertName | alert | close
    | removeOnline | stale | removeAddr => exact Or.inr rfl
    | cast cast => exact Or.inr (by rw [Cast.go_sessions])
    | setStatus report => exact Or.inr (by rw [Registry.setStatus_sessions])
    | removeSession hcast hphase =>
      by_cases hA : A = conn.agentId
      · refine Or.inl ⟨⟨c, conn, hop, hget, hcast, hphase, hA.symm⟩, ?_⟩
        rw [hA]
        exact Function.update_self _ _ _
      · exact Or.inr (Function.update_of_ne hA _ _)
  · exact fun _ _ _ _ => Or.inr (Or.inr (Or.inr rfl))
  · intro i h r' h' hop hget hmove
    dsimp only
    cases hmove with
    | stay | known | unknown | conflict | readAddr | forbidden | nothing =>
      exact Or.inr (Or.inr (Or.inr rfl))
    | cast cast => exact Or.inr (Or.inr (Or.inr (by rw [Cast.go_sessions])))
    | grant hcast hphase hfree =>
      by_cases hA : A = h.agentId
      · subst hA
        exact Or.inl ⟨_, ⟨i, h, hop, hget, hcast, hphase, rfl, hfree, rfl⟩,
          Function.update_self _ _ _⟩
      · exact Or.inr (Or.inr (Or.inr (Function.update_of_ne hA _ _)))
    | release session hcast hphase hsession hown =>
      by_cases hA : A = h.agentId
      · subst hA
        exact Or.inr (Or.inl ⟨session, ⟨i, h, hop, hget, hcast, hphase, rfl, hown.symm⟩, hsession,
          Function.update_self _ _ _⟩)
      · exact Or.inr (Or.inr (Or.inr (Function.update_of_ne hA _ _)))

/-- The next step of a handler that is at no broadcast. -/
theorem step_handler {s : State Report} {i : ℕ} {h : Handler Report} (hget : s.handlers i = some h)
    (hcast : h.cast = none) : step db low s (.handler i) = { s with
      registry := (h.advance db s.registry).1
      handlers := Function.update s.handlers i (some (h.advance db s.registry).2) } := by
  change s.handler db i = _
  unfold State.handler Handler.step
  rw [hget]
  dsimp only
  rw [hcast]

theorem advance_request {h : Handler Report} {r : Registry Report} (hphase : h.phase = .request) :
    h.advance db r = if (r.sessions h.agentId).any fun s => s.adminUsername ≠ h.admin then
      (r, { h with phase := .respond .conflict })
    else (r.insertSession h.agentId h.admin, { h with phase := .readAddr r.drawn }) := by
  unfold Handler.advance
  rw [hphase]

theorem sessions_of_grants {s : State Report} {op : Op Report} {A : Uuid}
    {session : ControlSession} (hgrant : Grants s op A session) :
    (step db low s op).registry.sessions A = some session := by
  obtain ⟨i, h, rfl, hget, hcast, hphase, rfl, hfree, rfl⟩ := hgrant
  have hother : ¬ ((s.registry.sessions h.agentId).any fun s => s.adminUsername ≠ h.admin) := by
    intro hany
    obtain ⟨held, hheld, hne⟩ := (Option.any_eq_true _ _).mp hany
    exact of_decide_eq_true hne (hfree held hheld)
  rw [step_handler hget hcast, advance_request hphase, if_neg hother]
  exact Function.update_self _ _ _

/-- Nothing but the handler changes, which has its response. -/
def answer (s : State Report) (i : ℕ) (h : Handler Report) (response : Response) :
    State Report :=
  { s with handlers := Function.update s.handlers i (some { h with phase := .respond response }) }

/-- Whoever is not the owner is refused. -/
theorem refused_of_held (low : Report → Bool) {s : State Report} {A : Uuid} {session : ControlSession}
    (hsession : s.registry.sessions A = some session) {i : ℕ} {h : Handler Report}
    (hget : s.handlers i = some h) (hcast : h.cast = none) (hA : h.agentId = A)
    (hother : session.adminUsername ≠ h.admin) :
    (h.phase = .request → step db low s (.handler i) = answer s i h .conflict) ∧
    (h.phase = .release → step db low s (.handler i) = answer s i h .forbidden) := by
  subst hA
  constructor
  · intro hphase
    have hany : (s.registry.sessions h.agentId).any fun s => s.adminUsername ≠ h.admin := by
      apply (Option.any_eq_true _ _).mpr
      exact ⟨session, hsession, decide_eq_true hother⟩
    rw [step_handler hget hcast, advance_request hphase, if_pos hany]
    rfl
  · intro hphase
    rw [step_handler hget hcast]
    unfold Handler.advance
    rw [hphase]
    dsimp only
    rw [hsession]
    dsimp only
    rw [if_neg hother]
    rfl

/-- The last request that was granted to an admin for an agent. -/
def LatestGrant (db : Db) (low : Report → Bool) (ops : List (Op Report)) (A : Uuid)
    (session : ControlSession) : Prop :=
  ∃ pre op post, ops = pre ++ op :: post ∧ Grants ((machine db low).run pre) op A session ∧
    ∀ mid later, mid ++ [later] <+: post → ∀ token,
      ¬ Grants ((machine db low).run (pre ++ op :: mid)) later A ⟨session.adminUsername, token⟩

theorem LatestGrant.concat {ops : List (Op Report)} {A : Uuid} {session : ControlSession}
    (h : LatestGrant db low ops A session) {op : Op Report}
    (hno : ∀ token, ¬ Grants ((machine db low).run ops) op A ⟨session.adminUsername, token⟩) :
    LatestGrant db low (ops ++ [op]) A session := by
  obtain ⟨pre, first, post, rfl, hgrant, hlater⟩ := h
  refine ⟨pre, first, post ++ [op], by simp, hgrant, ?_⟩
  exact Machine.forall_step_concat.mpr ⟨hlater, hno⟩

theorem latestGrant_concat {ops : List (Op Report)} {A : Uuid} {session : ControlSession}
    {op : Op Report} (hgrant : Grants ((machine db low).run ops) op A session) :
    LatestGrant db low (ops ++ [op]) A session :=
  ⟨ops, op, [], rfl, hgrant, Machine.forall_step_nil⟩

/-- A session, once granted, stays with its admin, under the token of the latest grant,
until the admin's release or a cleanup. -/
theorem held_until {pre more : List (Op Report)} {op : Op Report} {A : Uuid} {admin : String}
    {token : Token} (hgrant : Grants ((machine db low).run pre) op A ⟨admin, token⟩)
    (huntil : ∀ mid later, mid ++ [later] <+: more →
      ¬ Releases ((machine db low).run (pre ++ op :: mid)) later A admin ∧
      ¬ Clears ((machine db low).run (pre ++ op :: mid)) later A) :
    ∃ latest, LatestGrant db low (pre ++ op :: more) A ⟨admin, latest⟩ ∧
      ((machine db low).run (pre ++ op :: more)).registry.sessions A = some ⟨admin, latest⟩ := by
  induction more using List.reverseRecOn with
  | nil =>
    refine ⟨token, latestGrant_concat hgrant, ?_⟩
    rw [Machine.run_concat]
    exact sessions_of_grants hgrant
  | append_singleton more last ih =>
    obtain ⟨huntil, hlast⟩ := Machine.forall_step_concat.mp huntil
    obtain ⟨latest, hlatest, hheld⟩ := ih huntil
    rw [← List.cons_append, ← List.append_assoc, Machine.run_concat]
    generalize pre ++ op :: more = ops at hlatest hheld hlast ⊢
    change ∃ latest, _ ∧ (step db low _ last).registry.sessions A = _
    by_cases hagain : ∃ session, Grants ((machine db low).run ops) last A session
    · obtain ⟨session, hagain⟩ := hagain
      have hsame : session.adminUsername = admin := by
        obtain ⟨i, h, -, -, -, -, -, hfree, rfl⟩ := hagain
        exact (hfree _ hheld).symm
      obtain ⟨owner, latest⟩ := session
      obtain rfl : owner = admin := hsame
      exact ⟨latest, latestGrant_concat hagain, sessions_of_grants hagain⟩
    · refine ⟨latest, hlatest.concat fun token h => hagain ⟨_, h⟩, ?_⟩
      rcases sessions_step db low ((machine db low).run ops) last A with
        ⟨session, h, -⟩ | ⟨session, h, hsession, -⟩ | ⟨h, -⟩ | h
      · exact absurd ⟨session, h⟩ hagain
      · rw [hheld] at hsession
        cases hsession
        exact absurd h hlast.1
      · exact absurd h hlast.2
      · rw [h, hheld]

/-- A request or release for one agent leaves the sessions of the others alone. -/
theorem sessions_of_ne (low : Report → Bool) {s : State Report} {A : Uuid} {i : ℕ} {h : Handler Report}
    (hget : s.handlers i = some h) (hA : h.agentId ≠ A) :
    (step db low s (.handler i)).registry.sessions A = s.registry.sessions A := by
  rcases sessions_step db low s (.handler i) A with
    ⟨session, hgrant, -⟩ | ⟨session, hrelease, -⟩ | ⟨hclear, -⟩ | h
  · obtain ⟨j, other, hop, hother, -, -, hagent, -⟩ := hgrant
    cases hop
    rw [hget] at hother
    cases hother
    exact absurd hagent hA
  · obtain ⟨j, other, hop, hother, -, -, hagent, -⟩ := hrelease
    cases hop
    rw [hget] at hother
    cases hother
    exact absurd hagent hA
  · obtain ⟨c, conn, hop, -⟩ := hclear
    cases hop
  · exact h

/-- The token that a handler has been granted. -/
def tokenOf : HandlerPhase → Option Token
  | .readAddr token => some token
  | .respond (.granted token _) => some token
  | .respond .ok | .respond .notFound | .respond .conflict | .respond .forbidden => none
  | .lookup | .request | .release => none

/-- Some request of the admin has been granted this token. -/
def Holds (s : State Report) (admin : String) (token : Token) : Prop :=
  ∃ i h, s.handlers i = some h ∧ h.admin = admin ∧ tokenOf h.phase = some token

/-- Tokens are drawn once, and that of a session went to its owner. -/
structure Drawn (s : State Report) : Prop where
  handlers : ∀ i h token, s.handlers i = some h →
    tokenOf h.phase = some token → token < s.registry.drawn
  sessions : ∀ A session, s.registry.sessions A = some session →
    session.sessionToken < s.registry.drawn
  owner : ∀ A session i h, s.registry.sessions A = some session → s.handlers i = some h →
    tokenOf h.phase = some session.sessionToken → h.admin = session.adminUsername

theorem Drawn.of_le {s t : State Report} (hs : Drawn s) (hdrawn : t.registry.drawn = s.registry.drawn)
    (hsessions : ∀ A session, t.registry.sessions A = some session →
      s.registry.sessions A = some session)
    (hhandlers : ∀ i h token, t.handlers i = some h → tokenOf h.phase = some token →
      ∃ h', s.handlers i = some h' ∧ tokenOf h'.phase = some token ∧ h'.admin = h.admin) :
    Drawn t := by
  refine ⟨fun i h token hget hgranted => ?_, fun A session hsession => ?_,
    fun A session i h hsession hget hgranted => ?_⟩
  · obtain ⟨h', hget', hgranted', -⟩ := hhandlers i h token hget hgranted
    exact hdrawn ▸ hs.handlers i h' token hget' hgranted'
  · exact hdrawn ▸ hs.sessions A session (hsessions A session hsession)
  · obtain ⟨h', hget', hgranted', hadmin⟩ := hhandlers i h _ hget hgranted
    exact hadmin.symm.trans (hs.owner A session i h' (hsessions A session hsession) hget' hgranted')

/-- A grant gives out the next token, and no other move gives out any. -/
theorem token_of_handlerMove {h h' : Handler Report} {r r' : Registry Report}
    (hmove : HandlerMove db h r r' h') : h'.admin = h.admin ∧ h'.agentId = h.agentId ∧
      ((r' = r.insertSession h.agentId h.admin ∧ tokenOf h'.phase = some r.drawn) ∨
        (r'.drawn = r.drawn ∧ (∀ A session, r'.sessions A = some session →
            r.sessions A = some session) ∧
          ∀ token, tokenOf h'.phase = some token → tokenOf h.phase = some token)) := by
  have hnone : ∀ token, tokenOf .request = some token → tokenOf h.phase = some token :=
    fun token htoken => absurd htoken.symm (Option.some_ne_none token)
  refine ⟨by cases hmove <;> rfl, by cases hmove <;> rfl, ?_⟩
  cases hmove with
  | stay response hphase => exact Or.inr ⟨rfl, fun _ _ => id, fun _ => id⟩
  | cast cast =>
    refine Or.inr ⟨cast.go_drawn db _ r, fun A session hsession => ?_, fun _ => id⟩
    rwa [Cast.go_sessions] at hsession
  | known | unknown | conflict | forbidden | nothing => exact Or.inr ⟨rfl, fun _ _ => id, hnone⟩
  | grant hcast hphase hfree => exact Or.inl ⟨rfl, rfl⟩
  | readAddr token hcast hphase =>
    refine Or.inr ⟨rfl, fun _ _ => id, fun token htoken => ?_⟩
    rw [hphase]
    exact htoken
  | release session hcast hphase hsession hown =>
    refine Or.inr ⟨rfl, fun A session => ?_, hnone⟩
    exact r.sessions_of_removeSession h.agentId A

/-- The task of a connection draws no token and makes no session. -/
theorem sessions_of_move {c : ConnId} {conn conn' : Conn Report} {r r' : Registry Report}
    {input : Input Report} (hmove : Move db low c conn r input r' conn') :
    r'.drawn = r.drawn ∧ ∀ A session, r'.sessions A = some session →
      r.sessions A = some session := by
  cases hmove with
  | stay | insertOnline | insertAddr | helloOk | fail | alertName | alert | close | removeOnline
  | stale | removeAddr => exact ⟨rfl, fun _ _ => id⟩
  | cast cast =>
    refine ⟨cast.go_drawn db _ r, fun A session hsession => ?_⟩
    rwa [Cast.go_sessions] at hsession
  | setStatus report =>
    refine ⟨r.setStatus_drawn _ _, fun A session hsession => ?_⟩
    rwa [Registry.setStatus_sessions] at hsession
  | removeSession hcast hphase =>
    exact ⟨rfl, fun A session => r.sessions_of_removeSession conn.agentId A⟩

theorem Drawn.step {s : State Report} (hs : Drawn s) (op : Op Report) :
    Drawn (step db low s op) := by
  apply step_rule hs
  · exact fun _ _ _ _ _ _ => hs.of_le rfl (fun _ _ => id) fun i h token hget htoken =>
      ⟨h, hget, htoken, rfl⟩
  · intro c conn input r' conn' _ _ hmove
    obtain ⟨hdrawn, hsessions⟩ := sessions_of_move hmove
    exact hs.of_le hdrawn hsessions fun i h token hget htoken => ⟨h, hget, htoken, rfl⟩
  · intro admin agentId phase hphase
    refine hs.of_le rfl (fun _ _ => id) fun i h token hget htoken => ?_
    unfold State.call at hget
    dsimp only at hget
    by_cases hi : i = s.nextHandler
    · rw [hi, Function.update_self] at hget
      cases hget
      rcases hphase with ⟨-, rfl⟩ | ⟨-, rfl⟩ <;> cases htoken
    · rw [Function.update_of_ne hi] at hget
      exact ⟨h, hget, htoken, rfl⟩
  · intro i h r' h' _ hget hmove
    obtain ⟨hadmin, hagent, ⟨rfl, htoken⟩ | ⟨hdrawn, hsessions, htoken⟩⟩ := token_of_handlerMove hmove
    · refine ⟨fun j g token hg hgtoken => ?_, fun A session hsession => ?_,
        fun A session j g hsession hg hgtoken => ?_⟩
      · dsimp only at hg
        by_cases hj : j = i
        · rw [hj, Function.update_self] at hg
          cases hg
          rw [htoken] at hgtoken
          cases hgtoken
          exact Nat.lt_succ_self _
        · rw [Function.update_of_ne hj] at hg
          exact Nat.lt_succ_of_lt (hs.handlers j g token hg hgtoken)
      · dsimp only at hsession
        rw [Registry.sessions_insertSession] at hsession
        split at hsession
        · cases hsession
          exact Nat.lt_succ_self _
        · exact Nat.lt_succ_of_lt (hs.sessions A session hsession)
      · dsimp only at hsession hg
        rw [Registry.sessions_insertSession] at hsession
        by_cases hj : j = i
        · rw [hj, Function.update_self] at hg
          cases hg
          rw [htoken] at hgtoken
          split at hsession
          · cases hsession
            exact hadmin
          · have hlt := hs.sessions A session hsession
            rw [Option.some.inj hgtoken] at hlt
            exact absurd hlt (Nat.lt_irrefl _)
        · rw [Function.update_of_ne hj] at hg
          split at hsession
          · cases hsession
            exact absurd (hs.handlers j g _ hg hgtoken) (Nat.lt_irrefl _)
          · exact hs.owner A session j g hsession hg hgtoken
    · refine hs.of_le hdrawn hsessions fun j g token hg hgtoken => ?_
      dsimp only at hg
      by_cases hj : j = i
      · rw [hj, Function.update_self] at hg
        cases hg
        exact ⟨h, hj ▸ hget, htoken token hgtoken, hadmin.symm⟩
      · rw [Function.update_of_ne hj] at hg
        exact ⟨g, hg, hgtoken, rfl⟩

theorem drawn_run (ops : List (Op Report)) : Drawn ((machine db low).run ops) := by
  apply (machine db low).run_invariant
  · exact ⟨fun _ _ _ h => absurd h.symm (Option.some_ne_none _),
      fun _ _ h => absurd h.symm (Option.some_ne_none _),
      fun _ _ _ _ h => absurd h.symm (Option.some_ne_none _)⟩
  · exact fun s op hs => hs.step op

def Refused : Response → Prop
  | .notFound | .conflict | .forbidden => True
  | .granted _ _ | .ok => False

/-- Where a handler stands that has changed nothing so far, or has been refused. -/
def Spared : HandlerPhase → Prop
  | .lookup | .request | .release => True
  | .readAddr _ => False
  | .respond response => Refused response

/-- Numbers of handlers are fresh, and a handler that broadcasts has changed something. -/
structure Calls (s : State Report) : Prop where
  fresh : ∀ i, s.nextHandler ≤ i → s.handlers i = none
  casts : ∀ i h, s.handlers i = some h → h.cast ≠ none → ¬ Spared h.phase

/-- A handler that has changed nothing so far came here without a change. -/
theorem spared_of_handlerMove {h h' : Handler Report} {r r' : Registry Report}
    (hmove : HandlerMove db h r r' h') (hcasts : h.cast ≠ none → ¬ Spared h.phase) :
    (h'.cast ≠ none → ¬ Spared h'.phase) ∧ (Spared h'.phase → Spared h.phase ∧ r' = r) := by
  cases hmove with
  | stay response hphase => exact ⟨hcasts, fun hspared => ⟨hspared, rfl⟩⟩
  | cast cast hcast =>
    have hno : ¬ Spared h.phase := by
      apply hcasts
      rw [hcast]
      exact Option.some_ne_none _
    exact ⟨fun _ => hno, fun hspared => absurd hspared hno⟩
  | known name hcast hphase | unknown hcast hphase | conflict session hcast hphase
  | forbidden session hcast hphase =>
    refine ⟨fun h => absurd hcast h, fun _ => ⟨?_, rfl⟩⟩
    rw [hphase]
    trivial
  | grant hcast hphase | nothing hcast hphase =>
    exact ⟨fun _ hspared => hspared, fun hspared => absurd hspared id⟩
  | readAddr token hcast hphase | release session hcast hphase =>
    exact ⟨fun _ hspared => hspared, fun hspared => absurd hspared id⟩

theorem Calls.of_handlers {s t : State Report} (hs : Calls s) (hnext : t.nextHandler = s.nextHandler)
    (hhandlers : t.handlers = s.handlers) : Calls t := by
  refine ⟨fun i hi => ?_, fun i h hget => ?_⟩
  · rw [hhandlers]
    exact hs.fresh i (hnext ▸ hi)
  · rw [hhandlers] at hget
    exact hs.casts i h hget

theorem Calls.step {s : State Report} (hs : Calls s) (op : Op Report) :
    Calls (step db low s op) := by
  apply step_rule hs
  · exact fun _ _ _ _ _ _ => hs.of_handlers rfl rfl
  · exact fun _ _ _ _ _ _ _ _ => hs.of_handlers rfl rfl
  · intro admin agentId phase hphase
    unfold State.call
    refine ⟨fun i hi => ?_, fun i h hget hcast => ?_⟩
    · dsimp only at hi ⊢
      rw [Function.update_of_ne (Nat.ne_of_gt hi)]
      exact hs.fresh i (Nat.le_of_succ_le hi)
    · dsimp only at hget
      by_cases hi : i = s.nextHandler
      · rw [hi, Function.update_self] at hget
        cases hget
        exact absurd rfl hcast
      · rw [Function.update_of_ne hi] at hget
        exact hs.casts i h hget hcast
  · intro i h r' h' _ hget hmove
    refine ⟨fun j hj => ?_, fun j g hg => ?_⟩
    · dsimp only at hj ⊢
      rw [Function.update_of_ne]
      · exact hs.fresh j hj
      · intro heq
        have hnone := hs.fresh j hj
        rw [heq, hget] at hnone
        cases hnone
    · dsimp only at hg
      by_cases hj : j = i
      · rw [hj, Function.update_self] at hg
        cases hg
        exact (spared_of_handlerMove hmove (hs.casts i h hget)).1
      · rw [Function.update_of_ne hj] at hg
        exact hs.casts j g hg

theorem calls_run (ops : List (Op Report)) : Calls ((machine db low).run ops) := by
  apply (machine db low).run_invariant
  · exact ⟨fun _ _ => rfl, fun _ _ h => absurd h.symm (Option.some_ne_none _)⟩
  · exact fun s op hs => hs.step op

/-- Only the handler itself differs. -/
def SameBut (i : ℕ) (s t : State Report) : Prop :=
  t.registry = s.registry ∧ t.conns = s.conns ∧ ∀ j, j ≠ i → t.handlers j = s.handlers j

theorem spared_step {s : State Report} (hs : Calls s) (op : Op Report) (i : ℕ)
    (hspared : ∀ h, (step db low s op).handlers i = some h → Spared h.phase) :
    (∀ h, s.handlers i = some h → Spared h.phase) ∧
      (op = .handler i → SameBut i s (step db low s op)) := by
  revert hspared
  apply step_rule (I := fun t => (∀ h, t.handlers i = some h → Spared h.phase) →
    (∀ h, s.handlers i = some h → Spared h.phase) ∧ (op = .handler i → SameBut i s t))
  · exact fun hspared => ⟨hspared, fun _ => ⟨rfl, rfl, fun _ _ => rfl⟩⟩
  · intro _ _ _ _ hop _ hspared
    refine ⟨hspared, fun heq => ?_⟩
    rw [hop] at heq
    cases heq
  · intro _ _ _ _ _ hop _ _ hspared
    refine ⟨hspared, fun heq => ?_⟩
    rw [hop] at heq
    cases heq
  · intro admin agentId phase hop hspared
    refine ⟨fun h hget => ?_, fun heq => ?_⟩
    · apply hspared h
      unfold State.call
      dsimp only
      rw [Function.update_of_ne, hget]
      intro hi
      have hnone := hs.fresh i (Nat.le_of_eq hi.symm)
      rw [hget] at hnone
      cases hnone
    · rcases hop with ⟨hop, -⟩ | ⟨hop, -⟩
      · rw [hop] at heq
        cases heq
      · rw [hop] at heq
        cases heq
  · intro j h r' h' hop hget hmove hspared
    dsimp only at hspared
    by_cases hi : i = j
    · subst hi
      rw [Function.update_self] at hspared
      obtain ⟨hbefore, rfl⟩ := (spared_of_handlerMove hmove (hs.casts i h hget)).2 (hspared h' rfl)
      refine ⟨fun g hg => ?_, fun _ => ⟨rfl, rfl, fun j hj => Function.update_of_ne hj _ _⟩⟩
      rw [hget] at hg
      cases hg
      exact hbefore
    · rw [Function.update_of_ne hi] at hspared
      refine ⟨hspared, fun heq => ?_⟩
      rw [hop] at heq
      cases heq
      exact absurd rfl hi

/-- A refused request or release has never changed anything. -/
theorem refused_changes_nothing (ops : List (Op Report)) {i : ℕ}
    (hspared : ∀ h, ((machine db low).run ops).handlers i = some h → Spared h.phase) :
    ∀ pre op, pre ++ [op] <+: ops → op = .handler i →
      SameBut i ((machine db low).run pre) ((machine db low).run (pre ++ [op])) := by
  induction ops using List.reverseRecOn with
  | nil => exact Machine.forall_step_nil
  | append_singleton ops op ih =>
    rw [Machine.run_concat] at hspared
    obtain ⟨hbefore, hsame⟩ := spared_step (calls_run ops) op i hspared
    have hlast : op = .handler i → SameBut i ((machine db low).run ops)
        ((machine db low).run (ops ++ [op])) := by
      rw [Machine.run_concat]
      exact hsame
    exact (Machine.forall_step_concat (C := fun pre op => op = .handler i →
      SameBut i ((machine db low).run pre) ((machine db low).run (pre ++ [op])))).mpr
      ⟨ih hbefore, hlast⟩

/-- Between the grant of a session and its owner's release or a cleanup it is the owner's
under the token of the latest grant. Meanwhile others are refused and what concerns
other agents does not touch it; only the owner has its token; and refusals change nothing. -/
theorem exclusive_control (ops : List (Op Report)) :
    (∀ pre op more A admin token, ops = pre ++ op :: more →
      Grants ((machine db low).run pre) op A ⟨admin, token⟩ →
      (∀ mid later, mid ++ [later] <+: more →
        ¬ Releases ((machine db low).run (pre ++ op :: mid)) later A admin ∧
        ¬ Clears ((machine db low).run (pre ++ op :: mid)) later A) →
      ∃ latest, LatestGrant db low ops A ⟨admin, latest⟩ ∧
        ((machine db low).run ops).registry.sessions A = some ⟨admin, latest⟩) ∧
    (∀ A session i h, ((machine db low).run ops).registry.sessions A = some session →
      ((machine db low).run ops).handlers i = some h →
      (h.agentId ≠ A → ((machine db low).run (ops ++ [.handler i])).registry.sessions A =
        some session) ∧
      (h.agentId = A → h.cast = none → session.adminUsername ≠ h.admin →
        (h.phase = .request → (machine db low).run (ops ++ [.handler i]) =
          answer ((machine db low).run ops) i h .conflict) ∧
        (h.phase = .release → (machine db low).run (ops ++ [.handler i]) =
          answer ((machine db low).run ops) i h .forbidden))) ∧
    (∀ A session admin, ((machine db low).run ops).registry.sessions A = some session →
      Holds ((machine db low).run ops) admin session.sessionToken →
      admin = session.adminUsername) ∧
    (∀ i h response, ((machine db low).run ops).handlers i = some h →
      h.phase = .respond response → Refused response →
      ∀ pre op, pre ++ [op] <+: ops → op = .handler i →
        SameBut i ((machine db low).run pre) ((machine db low).run (pre ++ [op]))) := by
  refine ⟨fun pre op more A admin token hops hgrant huntil => ?_,
    fun A session i h hsession hget => ⟨fun hA => ?_, fun hA hcast hother => ?_⟩,
    fun A session admin hsession hholds => ?_, fun i h response hget hphase hrefused => ?_⟩
  · subst hops
    exact held_until hgrant huntil
  · rw [Machine.run_concat, ← hsession]
    exact sessions_of_ne low hget hA
  · rw [Machine.run_concat]
    exact refused_of_held low hsession hget hcast hA hother
  · obtain ⟨i, h, hget, rfl, htoken⟩ := hholds
    exact (drawn_run ops).owner A session i h hsession hget htoken
  · apply refused_changes_nothing
    intro g hg
    rw [hget] at hg
    cases hg
    rw [hphase]
    exact hrefused

end KmControl.SessionLock
