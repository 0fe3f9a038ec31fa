import KmControl.Hub

/-!
What a step of the hub can do: one statement for the task of a connection, one for a
handler, and one for the whole hub. The connections that are registered are among those
that the hub serves.
-/
namespace KmControl.HubSteps

open Hub

variable {Report : Type} {db : Db} {low : Report → Bool}

/-- What the task of a connection can do to the tables and to itself. -/
inductive Move (db : Db) (low : Report → Bool) (connId : ConnId) (conn : Conn Report)
    (r : Registry Report) : Input Report → Registry Report → Conn Report → Prop
  | stay (input : Input Report) : Move db low connId conn r input r conn
  | cast (cast : Cast Report) (hcast : conn.cast = some cast) :
    Move db low connId conn r .go (cast.go db conn.agentId r).1
      { conn with cast := (cast.go db conn.agentId r).2 }
  | insertOnline (hcast : conn.cast = none) (hphase : conn.phase = .insertOnline) :
    Move db low connId conn r .go (r.insertOnline conn.agentId conn.name connId)
      { conn with phase := .insertAddr }
  | insertAddr (hcast : conn.cast = none) (hphase : conn.phase = .insertAddr) :
    Move db low connId conn r .go (r.insertAddr conn.agentId conn.streamAddr)
      { conn with phase := .helloOk }
  | helloOk (hcast : conn.cast = none) (hphase : conn.phase = .helloOk) :
    Move db low connId conn r .go r
      { conn with phase := .serving, cast := some .broadcastAgent }
  | fail (hcast : conn.cast = none) (hphase : conn.phase = .helloOk) :
    Move db low connId conn r .fail r { conn with phase := .cleanup }
  | setStatus (report : Report) (hcast : conn.cast = none) (hphase : conn.phase = .serving) :
    Move db low connId conn r (.status report) (r.setStatus conn.agentId report)
      { conn with
        phase := if low report then .alertName report else .serving
        cast := some .broadcastAgent }
  | alertName (report : Report) (name : String) (hcast : conn.cast = none)
    (hphase : conn.phase = .alertName report) :
    Move db low connId conn r .go r { conn with phase := .alert report name }
  | alert (report : Report) (name : String) (hcast : conn.cast = none)
    (hphase : conn.phase = .alert report name) :
    Move db low connId conn r .go (r.broadcast (.alert conn.agentId name report))
      { conn with phase := .serving }
  | close (hcast : conn.cast = none) (hphase : conn.phase = .serving) :
    Move db low connId conn r .close r { conn with phase := .cleanup }
  | removeOnline (hcast : conn.cast = none) (hphase : conn.phase = .cleanup)
    (hregistered : r.registered conn.agentId = some connId) :
    Move db low connId conn r .go (r.removeOnline conn.agentId)
      { conn with phase := .removeAddr }
  | stale (hcast : conn.cast = none) (hphase : conn.phase = .cleanup)
    (hregistered : r.registered conn.agentId ≠ some connId) :
    Move db low connId conn r .go r { conn with phase := .closed }
  | removeAddr (hcast : conn.cast = none) (hphase : conn.phase = .removeAddr) :
    Move db low connId conn r .go (r.removeAddr conn.agentId)
      { conn with phase := .removeSession }
  | removeSession (hcast : conn.cast = none) (hphase : conn.phase = .removeSession) :
    Move db low connId conn r .go (r.removeSession conn.agentId)
      { conn with phase := .closed, cast := some (.farewell conn.agentId) }

theorem move_advance (db : Db) (low : Report → Bool) (connId : ConnId) {conn : Conn Report}
    (hcast : conn.cast = none) (r : Registry Report) (input : Input Report) :
    Move db low connId conn r input (conn.advance low connId r input).1
      (conn.advance low connId r input).2 := by
  unfold Conn.advance
  cases input with
  | go =>
    dsimp only
    cases hphase : conn.phase with
    | insertOnline => exact .insertOnline hcast hphase
    | insertAddr => exact .insertAddr hcast hphase
    | helloOk => exact .helloOk hcast hphase
    | serving => exact .stay _
    | alertName report => exact .alertName report _ hcast hphase
    | alert report name => exact .alert report name hcast hphase
    | cleanup =>
      dsimp only
      split
      · rename_i hregistered
        exact .removeOnline hcast hphase hregistered
      · rename_i hregistered
        exact .stale hcast hphase hregistered
    | removeAddr => exact .removeAddr hcast hphase
    | removeSession => exact .removeSession hcast hphase
    | closed => exact .stay _
  | fail =>
    dsimp only
    split
    · rename_i hphase
      exact .fail hcast hphase
    · exact .stay _
  | status report =>
    dsimp only
    split
    · rename_i hphase
      exact .setStatus report hcast hphase
    · exact .stay _
  | close =>
    dsimp only
    split
    · rename_i hphase
      exact .close hcast hphase
    · exact .stay _

theorem move_step (db : Db) (low : Report → Bool) (connId : ConnId) (conn : Conn Report)
    (r : Registry Report) (input : Input Report) :
    Move db low connId conn r input (conn.step db low connId r input).1
      (conn.step db low connId r input).2 := by
  unfold Conn.step
  cases hcast : conn.cast with
  | none => exact move_advance db low connId hcast r input
  | some cast =>
    cases input with
    | go => exact .cast cast hcast
    | fail | status | close => exact .stay _

/-- What a handler can do to the tables and to itself. -/
inductive HandlerMove (db : Db) (h : Handler Report) (r : Registry Report) :
    Registry Report → Handler Report → Prop
  | stay (response : Response) (hphase : h.phase = .respond response) : HandlerMove db h r r h
  | cast (cast : Cast Report) (hcast : h.cast = some cast) :
    HandlerMove db h r (cast.go db h.agentId r).1 { h with cast := (cast.go db h.agentId r).2 }
  | known (name : String) (hcast : h.cast = none) (hphase : h.phase = .lookup)
    (hname : db.laptopName h.agentId = some name) :
    HandlerMove db h r r { h with phase := .request }
  | unknown (hcast : h.cast = none) (hphase : h.phase = .lookup)
    (hname : db.laptopName h.agentId = none) :
    HandlerMove db h r r { h with phase := .respond .notFound }
  | conflict (session : ControlSession) (hcast : h.cast = none) (hphase : h.phase = .request)
    (hsession : r.sessions h.agentId = some session) (hother : session.adminUsername ≠ h.admin) :
    HandlerMove db h r r { h with phase := .respond .conflict }
  | grant (hcast : h.cast = none) (hphase : h.phase = .request)
    (hfree : ∀ session, r.sessions h.agentId = some session → session.adminUsername = h.admin) :
    HandlerMove db h r (r.insertSession h.agentId h.admin) { h with phase := .readAddr r.drawn }
  | readAddr (token : Token) (hcast : h.cast = none) (hphase : h.phase = .readAddr token) :
    HandlerMove db h r r { h with
      phase := .respond (.granted token (r.agentAddr h.agentId))
      cast := some .broadcastAgent }
  | release (session : ControlSession) (hcast : h.cast = none) (hphase : h.phase = .release)
    (hsession : r.sessions h.agentId = some session) (hown : session.adminUsername = h.admin) :
    HandlerMove db h r (r.removeSession h.agentId)
      { h with phase := .respond .ok, cast := some .broadcastAgent }
  | forbidden (session : ControlSession) (hcast : h.cast = none) (hphase : h.phase = .release)
    (hsession : r.sessions h.agentId = some session) (hother : session.adminUsername ≠ h.admin) :
    HandlerMove db h r r { h with phase := .respond .forbidden }
  | nothing (hcast : h.cast = none) (hphase : h.phase = .release)
    (hsession : r.sessions h.agentId = none) :
    HandlerMove db h r r { h with phase := .respond .ok }

theorem handlerMove_step (db : Db) (h : Handler Report) (r : Registry Report) :
    HandlerMove db h r (h.step db r).1 (h.step db r).2 := by
  unfold Handler.step
  cases hcast : h.cast with
  | some cast => exact .cast cast hcast
  | none =>
    dsimp only
    unfold Handler.advance
    cases hphase : h.phase with
    | lookup =>
      dsimp only
      cases hname : db.laptopName h.agentId with
      | some name => exact .known name hcast hphase hname
      | none => exact .unknown hcast hphase hname
    | request =>
      dsimp only
      cases hsession : r.sessions h.agentId with
      | none =>
        apply HandlerMove.grant hcast hphase
        intro session hsome
        rw [hsession] at hsome
        cases hsome
      | some session =>
        by_cases hown : session.adminUsername = h.admin
        · have hgrant : HandlerMove db h r (r.insertSession h.agentId h.admin)
              { h with phase := .readAddr r.drawn } := by
            apply HandlerMove.grant hcast hphase
            intro other hsome
            rw [hsession] at hsome
            cases hsome
            exact hown
          simpa [hown] using hgrant
        · have hconflict : HandlerMove db h r r { h with phase := .respond .conflict } :=
            .conflict session hcast hphase hsession hown
          simpa [hown] using hconflict
    | readAddr token => exact .readAddr token hcast hphase
    | release =>
      dsimp only
      cases hsession : r.sessions h.agentId with
      | none => exact .nothing hcast hphase hsession
      | some session =>
        dsimp only
        split
        · rename_i hown
          exact .release session hcast hphase hsession hown
        · rename_i hother
          exact .forbidden session hcast hphase hsession hother
    | respond response => exact .stay response hphase

theorem conn_cases (db : Db) (low : Report → Bool) (s : State Report) (connId : ConnId) (input : Input Report) :
    s.conn db low connId input = s ∨
      ∃ conn r' conn', s.conns connId = some conn ∧
        Move db low connId conn s.registry input r' conn' ∧
        s.conn db low connId input = { s with
          registry := r', conns := Function.update s.conns connId (some conn') } := by
  unfold State.conn
  cases hconn : s.conns connId with
  | none => exact Or.inl rfl
  | some conn =>
    exact Or.inr ⟨conn, _, _, rfl, move_step db low connId conn s.registry input, rfl⟩

theorem handler_cases (db : Db) (s : State Report) (i : ℕ) :
    s.handler db i = s ∨
      ∃ h r' h', s.handlers i = some h ∧ HandlerMove db h s.registry r' h' ∧
        s.handler db i = { s with
          registry := r', handlers := Function.update s.handlers i (some h') } := by
  unfold State.handler
  cases hget : s.handlers i with
  | none => exact Or.inl rfl
  | some h => exact Or.inr ⟨h, _, _, rfl, handlerMove_step db h s.registry, rfl⟩

theorem conns_handler (db : Db) (low : Report → Bool) (s : State Report) (i : ℕ) :
    (step db low s (.handler i)).conns = s.conns := by
  change (s.handler db i).conns = s.conns
  obtain h | ⟨h, r', h', -, -, heq⟩ := handler_cases db s i
  · rw [h]
  · rw [heq]

/-- To see what holds after a step of the hub, look at a new connection, a new call, and
the moves of the tasks. -/
theorem step_rule {I : State Report → Prop} {s : State Report} {op : Op Report} (hstay : I s)
    (hhello : ∀ agentId name streamAddr peerIp, op = .hello agentId streamAddr peerIp →
      db.laptopName agentId = some name → I { s with
        conns := Function.update s.conns s.nextConnId
          (some ⟨agentId, name, streamAddr.getD peerIp, .insertOnline, none⟩)
        nextConnId := s.nextConnId + 1 })
    (hconn : ∀ connId conn input r' conn', op = .conn connId input →
      s.conns connId = some conn → Move db low connId conn s.registry input r' conn' →
      I { s with registry := r', conns := Function.update s.conns connId (some conn') })
    (hcall : ∀ admin agentId phase, (op = .sessionRequest admin agentId ∧ phase = .lookup) ∨
      (op = .sessionRelease admin agentId ∧ phase = .release) →
      I (s.call ⟨admin, agentId, phase, none⟩))
    (hhandler : ∀ i h r' h', op = .handler i → s.handlers i = some h →
      HandlerMove db h s.registry r' h' →
      I { s with registry := r', handlers := Function.update s.handlers i (some h') }) :
    I (step db low s op) := by
  cases op with
  | hello agentId streamAddr peerIp =>
    change I (s.hello db agentId streamAddr peerIp)
    unfold State.hello
    split
    · rename_i name hname
      exact hhello agentId name streamAddr peerIp rfl hname
    · exact hstay
  | conn connId input =>
    change I (s.conn db low connId input)
    obtain h | ⟨conn, r', conn', hget, hmove, h⟩ := conn_cases db low s connId input
    · rwa [h]
    · rw [h]
      exact hconn connId conn input r' conn' rfl hget hmove
  | sessionRequest admin agentId => exact hcall admin agentId .lookup (Or.inl ⟨rfl, rfl⟩)
  | sessionRelease admin agentId => exact hcall admin agentId .release (Or.inr ⟨rfl, rfl⟩)
  | handler i =>
    change I (s.handler db i)
    obtain h | ⟨h, r', h', hget, hmove, heq⟩ := handler_cases db s i
    · rwa [h]
    · rw [heq]
      exact hhandler i h r' h' rfl hget hmove

theorem Move.agentId {connId : ConnId} {conn conn' : Conn Report} {r r' : Registry Report}
    {input : Input Report} (h : Move db low connId conn r input r' conn') :
    conn'.agentId = conn.agentId := by
  cases h <;> rfl

theorem Move.streamAddr {connId : ConnId} {conn conn' : Conn Report} {r r' : Registry Report}
    {input : Input Report} (h : Move db low connId conn r input r' conn') :
    conn'.streamAddr = conn.streamAddr := by
  cases h <;> rfl

/-- The phases in which a connection may be the registered one. -/
def Live : Phase Report → Prop
  | .insertAddr | .helloOk | .serving | .alertName _ | .alert _ _ | .cleanup => True
  | .insertOnline | .removeAddr | .removeSession | .closed => False

/-- A task registers no connection but its own, and only while that may be registered. -/
theorem Move.registered {connId : ConnId} {conn conn' : Conn Report} {r r' : Registry Report}
    {input : Input Report} (h : Move db low connId conn r input r' conn')
    (hlive : ∀ A, r.registered A = some connId → conn.agentId = A ∧ Live conn.phase)
    {A : Uuid} {c : ConnId} (hc : r'.registered A = some c) :
    if c = connId then conn.agentId = A ∧ Live conn'.phase else r.registered A = some c := by
  have hsame : ∀ phase : Phase Report, (Live conn.phase → Live phase) →
      r.registered A = some c →
      if c = connId then conn.agentId = A ∧ Live phase else r.registered A = some c := by
    intro phase hphase hc
    split
    · rename_i heq
      rw [heq] at hc
      exact ⟨(hlive A hc).1, hphase (hlive A hc).2⟩
    · exact hc
  have hdead : ¬ Live conn.phase → r.registered A = some c → c ≠ connId := by
    intro hphase hc heq
    rw [heq] at hc
    exact hphase (hlive A hc).2
  cases h with
  | stay => exact hsame _ id hc
  | cast cast => exact hsame _ id (by rwa [Cast.go_registered] at hc)
  | insertOnline hcast hphase =>
    rw [Registry.registered_insertOnline] at hc
    split at hc
    · rename_i hA
      cases hc
      rw [if_pos rfl]
      exact ⟨hA.symm, trivial⟩
    · rw [if_neg (hdead (by rw [hphase]; exact id) hc)]
      exact hc
  | insertAddr | helloOk | fail | alertName | alert | close =>
    exact hsame _ (fun _ => trivial) hc
  | setStatus report =>
    refine hsame _ (fun _ => ?_) (by rwa [Registry.registered_setStatus] at hc)
    dsimp only
    split <;> trivial
  | removeOnline hcast hphase hregistered =>
    rw [Registry.registered_removeOnline] at hc
    split at hc
    · cases hc
    · rename_i hA
      rw [if_neg]
      · exact hc
      · intro heq
        rw [heq] at hc
        exact hA (hlive A hc).1.symm
  | stale hcast hphase hregistered =>
    rw [if_neg]
    · exact hc
    · intro heq
      rw [heq] at hc
      rw [(hlive A hc).1] at hregistered
      exact hregistered hc
  | removeAddr hcast hphase | removeSession hcast hphase =>
    rw [if_neg (hdead (by rw [hphase]; exact id) hc)]
    exact hc

/-- The numbers of connections are fresh, and the registered ones are being served. -/
structure Sound (db : Db) (s : State Report) : Prop where
  fresh : ∀ c, s.nextConnId ≤ c → s.conns c = none
  known : ∀ c conn, s.conns c = some conn → (db.laptopName conn.agentId).isSome = true
  live : ∀ A c, s.registry.registered A = some c →
    ∃ conn, s.conns c = some conn ∧ conn.agentId = A ∧ Live conn.phase

theorem Sound.of_conns {s t : State Report} (hs : Sound db s) (hconns : t.conns = s.conns)
    (hnext : t.nextConnId = s.nextConnId) (honline : t.registry.online = s.registry.online) :
    Sound db t := by
  refine ⟨fun c hc => ?_, fun c conn hget => ?_, fun A c hc => ?_⟩
  · rw [hconns]
    exact hs.fresh c (hnext ▸ hc)
  · rw [hconns] at hget
    exact hs.known c conn hget
  · rw [hconns]
    apply hs.live A c
    rwa [Registry.registered_congr honline] at hc

theorem HandlerMove.online {h h' : Handler Report} {r r' : Registry Report}
    (hmove : HandlerMove db h r r' h') : r'.online = r.online := by
  cases hmove with
  | cast cast => exact cast.go_online db _ r
  | stay | known | unknown | conflict | grant | readAddr | release | forbidden | nothing => rfl

theorem HandlerMove.agentAddr {h h' : Handler Report} {r r' : Registry Report}
    (hmove : HandlerMove db h r r' h') : r'.agentAddr = r.agentAddr := by
  cases hmove with
  | cast cast => exact cast.go_agentAddr db _ r
  | stay | known | unknown | conflict | grant | readAddr | release | forbidden | nothing => rfl

/-- A connection in the table with the number that is registered is the registered one. -/
theorem Sound.live_of_get {s : State Report} (hs : Sound db s) {c : ConnId} {conn : Conn Report}
    (hget : s.conns c = some conn) {A : Uuid} (hA : s.registry.registered A = some c) :
    conn.agentId = A ∧ Live conn.phase := by
  obtain ⟨other, hother, hrest⟩ := hs.live A c hA
  obtain rfl : conn = other := Option.some.inj (hget.symm.trans hother)
  exact hrest

theorem Sound.step {s : State Report} (hs : Sound db s) (op : Op Report) :
    Sound db (step db low s op) := by
  apply step_rule hs
  · intro agentId name streamAddr peerIp _ hname
    have hnone : s.conns s.nextConnId = none := hs.fresh _ (Nat.le_refl _)
    refine ⟨fun c hc => ?_, fun c conn hget => ?_, fun A c hc => ?_⟩
    · dsimp only at hc ⊢
      rw [Function.update_of_ne (Nat.ne_of_gt hc)]
      exact hs.fresh c (Nat.le_of_succ_le hc)
    · dsimp only at hget
      by_cases heq : c = s.nextConnId
      · subst heq
        rw [Function.update_self] at hget
        cases hget
        rw [hname]
        rfl
      · rw [Function.update_of_ne heq] at hget
        exact hs.known c conn hget
    · obtain ⟨conn, hget, hrest⟩ := hs.live A c hc
      refine ⟨conn, ?_, hrest⟩
      dsimp only
      rw [Function.update_of_ne, hget]
      intro heq
      rw [heq, hnone] at hget
      cases hget
  · intro connId conn input r' conn' _ hget hmove
    refine ⟨fun c hc => ?_, fun c other hother => ?_, fun A c hc => ?_⟩
    · dsimp only at hc ⊢
      rw [Function.update_of_ne]
      · exact hs.fresh c hc
      · intro heq
        have hnone := hs.fresh c hc
        rw [heq, hget] at hnone
        cases hnone
    · dsimp only at hother
      by_cases heq : c = connId
      · subst heq
        rw [Function.update_self] at hother
        cases hother
        rw [hmove.agentId]
        exact hs.known c conn hget
      · rw [Function.update_of_ne heq] at hother
        exact hs.known c other hother
    · have hwho := hmove.registered (fun _ => hs.live_of_get hget) hc
      dsimp only
      split at hwho
      · rename_i heq
        subst heq
        rw [Function.update_self]
        exact ⟨conn', rfl, hmove.agentId.trans hwho.1, hwho.2⟩
      · rename_i hne
        rw [Function.update_of_ne hne]
        exact hs.live A c hwho
  · exact fun _ _ _ _ => hs.of_conns rfl rfl rfl
  · exact fun i h r' h' _ _ hmove => hs.of_conns rfl rfl hmove.online

theorem sound_run (ops : List (Op Report)) : Sound db ((machine db low).run ops) := by
  apply (machine db low).run_invariant
  · exact ⟨fun _ _ => rfl, fun _ _ h => absurd h.symm (Option.some_ne_none _),
      fun _ _ h => absurd h.symm (Option.some_ne_none _)⟩
  · exact fun s op hs => hs.step op

end KmControl.HubSteps
