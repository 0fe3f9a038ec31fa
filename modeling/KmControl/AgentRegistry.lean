import KmControl.SessionLock

/-!
The three tables that the connections of an agent share. Registering takes two sections
and cleaning up three, and only the first of the cleanup looks at the number of the
connection. The tables agree in the end if no section of one connection undoes what
another has done in between.
-/
namespace KmControl.AgentRegistry

open Hub HubSteps SessionLock

variable {Report : Type} {db : Db} {low : Report → Bool}

/-- The address of the registered connection. -/
def registeredAddr (s : State Report) (A : Uuid) : Option String :=
  (s.registry.registered A).bind fun c => (s.conns c).map (·.streamAddr)

/-- The phases between two sections of a registration or of a cleanup. -/
def between : Phase Report → Bool
  | .insertAddr | .removeAddr | .removeSession => true
  | .insertOnline | .helloOk | .serving | .alertName _ | .alert _ _ | .cleanup | .closed => false

/-- No connection of the agent is between its sections. -/
def Quiet (s : State Report) (A : Uuid) : Prop :=
  ∀ c conn, s.conns c = some conn → conn.agentId = A → between conn.phase = false

/-- The registered connection has yet to store its address. -/
def StorePending (s : State Report) (A : Uuid) : Prop :=
  ∃ c conn, s.registry.registered A = some c ∧ s.conns c = some conn ∧ conn.phase = .insertAddr

/-- No connection is registered, and a cleanup has yet to remove the address. -/
def RemovePending (s : State Report) (A : Uuid) : Prop :=
  s.registry.registered A = none ∧
    ∃ c conn, s.conns c = some conn ∧ conn.agentId = A ∧ conn.phase = .removeAddr

/-- A connection that stores its address does so for the registered one, or before that
one does, or before a cleanup removes it; and a cleanup that removes the address finds
no connection registered, or one that has yet to store its own. -/
def KeepsAddr (s : State Report) (op : Op Report) (A : Uuid) : Prop :=
  ∀ c conn, op = Op.conn c .go → s.conns c = some conn → conn.agentId = A → conn.cast = none →
    (conn.phase = .insertAddr → registeredAddr s A = some conn.streamAddr ∨ StorePending s A ∨
      RemovePending s A) ∧
    (conn.phase = .removeAddr → s.registry.registered A = none ∨ StorePending s A)

/-- A session is granted beside a registered connection only when no cleanup has yet to
remove the session. -/
def GrantsApart (s : State Report) (op : Op Report) (A : Uuid) : Prop :=
  (∃ session, Grants s op A session) → (s.registry.online A).isSome = true →
    ∀ c conn, s.conns c = some conn → conn.agentId = A →
      conn.phase ≠ .removeAddr ∧ conn.phase ≠ .removeSession

/-- The address is that of the registered connection, or will be. -/
def Settled (s : State Report) (A : Uuid) : Prop :=
  s.registry.agentAddr A = registeredAddr s A ∨ StorePending s A ∨ RemovePending s A

theorem Settled.of_quiet {s : State Report} {A : Uuid} (h : Settled s A) (hsound : Sound db s)
    (hquiet : Quiet s A) : s.registry.agentAddr A = registeredAddr s A := by
  rcases h with h | ⟨c, conn, hc, hget, hphase⟩ | ⟨-, c, conn, hget, hA, hphase⟩
  · exact h
  · obtain ⟨other, hother, hA, -⟩ := hsound.live A c hc
    rw [hget] at hother
    cases hother
    have hno := hquiet c conn hget hA
    rw [hphase] at hno
    cases hno
  · have hno := hquiet c conn hget hA
    rw [hphase] at hno
    cases hno

/-- What is pending stays so if the registered connection and the pending ones do. -/
theorem Settled.of_same {s t : State Report} {A : Uuid} (h : Settled s A) (hsound : Sound db s)
    (hregistered : t.registry.registered A = s.registry.registered A)
    (haddr : t.registry.agentAddr A = s.registry.agentAddr A)
    (hconns : ∀ c conn, s.conns c = some conn → conn.agentId = A →
      ∃ conn', t.conns c = some conn' ∧ conn'.agentId = A ∧
        conn'.streamAddr = conn.streamAddr ∧
        (conn.phase = .insertAddr → conn'.phase = .insertAddr) ∧
        (conn.phase = .removeAddr → conn'.phase = .removeAddr)) : Settled t A := by
  rcases h with h | ⟨c, conn, hc, hget, hphase⟩ | ⟨hnone, c, conn, hget, hA, hphase⟩
  · refine Or.inl ?_
    rw [haddr, h]
    unfold registeredAddr
    rw [hregistered]
    cases hc : s.registry.registered A with
    | none => rfl
    | some c =>
      obtain ⟨conn, hget, hA, -⟩ := hsound.live A c hc
      obtain ⟨conn', hget', -, hstream, -⟩ := hconns c conn hget hA
      rw [Option.bind_some, Option.bind_some, hget, hget', Option.map_some, Option.map_some, hstream]
  · obtain ⟨other, hother, hA, -⟩ := hsound.live A c hc
    rw [hget] at hother
    cases hother
    obtain ⟨conn', hget', -, -, hinsert, -⟩ := hconns c conn hget hA
    exact Or.inr (Or.inl ⟨c, conn', hregistered.trans hc, hget', hinsert hphase⟩)
  · obtain ⟨conn', hget', hagent, -, -, hremove⟩ := hconns c conn hget hA
    exact Or.inr (Or.inr ⟨hregistered.trans hnone, c, conn', hget', hagent, hremove hphase⟩)

/-- The state after a move of one connection's task. -/
def moved (s : State Report) (c : ConnId) (r : Registry Report) (conn : Conn Report) :
    State Report :=
  { s with registry := r, conns := Function.update s.conns c (some conn) }

section Moved

variable {s : State Report} {c : ConnId} {conn conn' : Conn Report} {r : Registry Report} {A : Uuid}

theorem moved_conns_self : (moved s c r conn').conns c = some conn' := Function.update_self _ _ _

theorem moved_conns_of_ne {d : ConnId} (h : d ≠ c) : (moved s c r conn').conns d = s.conns d :=
  Function.update_of_ne h _ _

/-- A connection that stays registered keeps its address. -/
theorem registeredAddr_moved (hget : s.conns c = some conn)
    (hstream : conn'.streamAddr = conn.streamAddr)
    (hregistered : r.registered A = s.registry.registered A) :
    registeredAddr (moved s c r conn') A = registeredAddr s A := by
  have hmap : ∀ d, ((moved s c r conn').conns d).map (·.streamAddr) =
      (s.conns d).map (·.streamAddr) := by
    intro d
    by_cases hd : d = c
    · rw [hd, moved_conns_self, hget, Option.map_some, Option.map_some, hstream]
    · rw [moved_conns_of_ne hd]
  unfold registeredAddr
  rw [show (moved s c r conn').registry.registered A = s.registry.registered A from hregistered]
  simp only [hmap]

/-- Another connection's pending store is not touched. -/
theorem StorePending.moved (h : StorePending s A) (hget : s.conns c = some conn)
    (hphase : conn.phase ≠ .insertAddr)
    (hregistered : r.registered A = s.registry.registered A) :
    StorePending (moved s c r conn') A := by
  obtain ⟨d, other, hd, hother, hinsert⟩ := h
  refine ⟨d, other, hregistered.trans hd, ?_, hinsert⟩
  rw [moved_conns_of_ne, hother]
  intro heq
  rw [heq, hget] at hother
  cases hother
  exact hphase hinsert

theorem settled_insertAddr (hget : s.conns c = some conn) (hphase : conn.phase = .insertAddr)
    (hkeeps : registeredAddr s A = some conn.streamAddr ∨ StorePending s A ∨ RemovePending s A) :
    Settled (moved s c (s.registry.insertAddr A conn.streamAddr)
      { conn with phase := .helloOk }) A := by
  have hstored : registeredAddr s A = some conn.streamAddr →
      Settled (moved s c (s.registry.insertAddr A conn.streamAddr)
        { conn with phase := .helloOk }) A := by
    intro haddr
    have hsame : registeredAddr (moved s c (s.registry.insertAddr A conn.streamAddr)
        { conn with phase := .helloOk }) A = registeredAddr s A :=
      registeredAddr_moved hget rfl rfl
    exact Or.inl ((Function.update_self _ _ _).trans (hsame.trans haddr).symm)
  rcases hkeeps with haddr | ⟨d, other, hd, hother, hinsert⟩ | ⟨hnone, d, other, hother, hagent, hremove⟩
  · exact hstored haddr
  · by_cases hdc : d = c
    · apply hstored
      unfold registeredAddr
      rw [hd, hdc, Option.bind_some, hget]
      rfl
    · refine Or.inr (Or.inl ⟨d, other, hd, ?_, hinsert⟩)
      rw [moved_conns_of_ne hdc, hother]
  · refine Or.inr (Or.inr ⟨hnone, d, other, ?_, hagent, hremove⟩)
    rw [moved_conns_of_ne, hother]
    intro heq
    rw [heq, hget] at hother
    cases hother
    rw [hphase] at hremove
    cases hremove

theorem settled_removeAddr (hget : s.conns c = some conn) (hphase : conn.phase = .removeAddr)
    (hkeeps : s.registry.registered A = none ∨ StorePending s A) :
    Settled (moved s c (s.registry.removeAddr A) { conn with phase := .removeSession }) A := by
  rcases hkeeps with hnone | hpending
  · have hsame : registeredAddr (moved s c (s.registry.removeAddr A)
        { conn with phase := .removeSession }) A = registeredAddr s A :=
      registeredAddr_moved hget rfl rfl
    have haddr : registeredAddr s A = none := by
      unfold registeredAddr
      rw [hnone]
      rfl
    exact Or.inl ((Function.update_self _ _ _).trans (hsame.trans haddr).symm)
  · apply Or.inr
    apply Or.inl
    apply hpending.moved hget
    · rw [hphase]
      intro heq
      cases heq
    · rfl

end Moved

theorem Settled.conn {s : State Report} (hsound : Sound db s) {A : Uuid} (h : Settled s A)
    {c : ConnId} {conn conn' : Conn Report} {r' : Registry Report} {input : Input Report}
    (hget : s.conns c = some conn) (hmove : Move db low c conn s.registry input r' conn')
    (hkeeps : KeepsAddr s (.conn c input) A) : Settled (moved s c r' conn') A := by
  have hsame : r'.registered A = s.registry.registered A →
      r'.agentAddr A = s.registry.agentAddr A →
      (conn.agentId = A → (conn.phase = .insertAddr → conn'.phase = .insertAddr) ∧
        (conn.phase = .removeAddr → conn'.phase = .removeAddr)) →
      Settled (moved s c r' conn') A := by
    intro hregistered haddr hphase
    refine h.of_same hsound hregistered haddr fun d other hother hA => ?_
    by_cases hd : d = c
    · subst hd
      rw [hget] at hother
      cases hother
      exact ⟨conn', moved_conns_self, hmove.agentId.trans hA, hmove.streamAddr, hphase hA⟩
    · exact ⟨other, (moved_conns_of_ne hd).trans hother, hA, rfl, id, id⟩
  have hother : ∀ phase phase' : Phase Report, conn.phase = phase → phase ≠ .insertAddr →
      phase ≠ .removeAddr → (conn.phase = .insertAddr → phase' = .insertAddr) ∧
        (conn.phase = .removeAddr → phase' = .removeAddr) := by
    intro phase phase' hphase hinsert hremove
    exact ⟨fun h => absurd (hphase.symm.trans h) hinsert,
      fun h => absurd (hphase.symm.trans h) hremove⟩
  cases hmove with
  | stay => exact hsame rfl rfl fun _ => ⟨id, id⟩
  | cast cast hcast =>
    exact hsame (by rw [Cast.go_registered]) (by rw [Cast.go_agentAddr]) fun _ => ⟨id, id⟩
  | helloOk hcast hphase | fail hcast hphase | alertName report name hcast hphase
  | alert report name hcast hphase | close hcast hphase | stale hcast hphase
  | removeSession hcast hphase =>
    exact hsame rfl rfl fun _ => hother _ _ hphase (by simp) (by simp)
  | setStatus report hcast hphase =>
    exact hsame (Registry.registered_setStatus _ _ _ _) (by rw [Registry.setStatus_agentAddr])
      fun _ => hother _ _ hphase (by simp) (by simp)
  | insertOnline hcast hphase =>
    by_cases hA : A = conn.agentId
    · refine Or.inr (Or.inl ⟨c, _, ?_, moved_conns_self, rfl⟩)
      change (s.registry.insertOnline conn.agentId conn.name c).registered A = some c
      rw [Registry.registered_insertOnline, if_pos hA]
    · refine hsame ?_ rfl fun _ => hother _ _ hphase (by simp) (by simp)
      rw [Registry.registered_insertOnline, if_neg hA]
  | insertAddr hcast hphase =>
    by_cases hA : conn.agentId = A
    · subst hA
      exact settled_insertAddr hget hphase ((hkeeps c conn rfl hget rfl hcast).1 hphase)
    · exact hsame rfl (Function.update_of_ne (Ne.symm hA) _ _) fun h => absurd h hA
  | removeOnline hcast hphase hregistered =>
    by_cases hA : A = conn.agentId
    · refine Or.inr (Or.inr ⟨?_, c, _, moved_conns_self, hA.symm, rfl⟩)
      change (s.registry.removeOnline conn.agentId).registered A = none
      rw [Registry.registered_removeOnline, if_pos hA]
    · refine hsame ?_ rfl fun _ => hother _ _ hphase (by simp) (by simp)
      rw [Registry.registered_removeOnline, if_neg hA]
  | removeAddr hcast hphase =>
    by_cases hA : conn.agentId = A
    · subst hA
      exact settled_removeAddr hget hphase ((hkeeps c conn rfl hget rfl hcast).2 hphase)
    · exact hsame rfl (Function.update_of_ne (Ne.symm hA) _ _) fun h => absurd h hA

theorem Settled.step {s : State Report} (hsound : Sound db s) {A : Uuid} (h : Settled s A)
    {op : Op Report} (hkeeps : KeepsAddr s op A) : Settled (step db low s op) A := by
  apply step_rule (I := fun t => Settled t A) h
  · intro agentId name streamAddr peerIp _ _
    refine h.of_same hsound rfl rfl fun c conn hget hA => ⟨conn, ?_, hA, rfl, id, id⟩
    dsimp only
    rw [Function.update_of_ne, hget]
    intro heq
    have hnone := hsound.fresh c (Nat.le_of_eq heq.symm)
    rw [hget] at hnone
    cases hnone
  · intro c conn input r' conn' hop hget hmove
    subst hop
    exact h.conn hsound hget hmove hkeeps
  · exact fun _ _ _ _ => h.of_same hsound rfl rfl fun c conn hget hA =>
      ⟨conn, hget, hA, rfl, id, id⟩
  · intro i g r' g' _ _ hmove
    refine h.of_same hsound ?_ (congrFun hmove.agentAddr A) fun c conn hget hA =>
      ⟨conn, hget, hA, rfl, id, id⟩
    exact congrFun (Registry.registered_congr hmove.online) A

theorem settled_run {A : Uuid} (ops : List (Op Report))
    (hkeeps : (machine db low).Along (fun s op => KeepsAddr s op A) ops) :
    Settled ((machine db low).run ops) A := by
  induction ops using List.reverseRecOn with
  | nil => exact Or.inl rfl
  | append_singleton ops op ih =>
    obtain ⟨hops, hlast⟩ := Machine.along_concat.mp hkeeps
    rw [Machine.run_concat]
    exact (ih hops).step (sound_run ops) hlast

/-- The cleanup of this connection finds it registered. -/
def Checks (s : State Report) (op : Op Report) (A : Uuid) (c : ConnId) : Prop :=
  op = Op.conn c .go ∧ s.registry.registered A = some c ∧
    ∃ conn, s.conns c = some conn ∧ conn.agentId = A ∧ conn.phase = .cleanup

/-- A connection's cleanup is between its look at the registration and the removal of the
session. -/
def Cleaning (s : State Report) (A : Uuid) (c : ConnId) : Prop :=
  ∃ conn, s.conns c = some conn ∧ conn.agentId = A ∧
    (conn.phase = .removeAddr ∨ conn.phase = .removeSession)

/-- A cleanup that goes on to the session has found its connection registered. -/
theorem checks_of_cleaning {s : State Report} {op : Op Report} {A : Uuid} {c : ConnId}
    (hbefore : ¬ Cleaning s A c) (hafter : Cleaning (step db low s op) A c) : Checks s op A c := by
  revert hafter
  apply step_rule (I := fun t => Cleaning t A c → Checks s op A c)
  · exact fun hafter => absurd hafter hbefore
  · intro agentId name streamAddr peerIp _ _ hafter
    obtain ⟨conn, hget, hA, hphase⟩ := hafter
    dsimp only at hget
    by_cases hc : c = s.nextConnId
    · rw [hc, Function.update_self] at hget
      cases hget
      rcases hphase with hphase | hphase <;> cases hphase
    · rw [Function.update_of_ne hc] at hget
      exact absurd ⟨conn, hget, hA, hphase⟩ hbefore
  · intro d conn input r' conn' hop hget hmove hafter
    obtain ⟨other, hother, hA, hphase⟩ := hafter
    dsimp only at hother
    by_cases hc : c = d
    · subst hc
      rw [Function.update_self] at hother
      cases hother
      have hagent : conn.agentId = A := hmove.agentId.symm.trans hA
      have hno : conn.phase ≠ .removeAddr ∧ conn.phase ≠ .removeSession :=
        ⟨fun h => hbefore ⟨conn, hget, hagent, Or.inl h⟩,
          fun h => hbefore ⟨conn, hget, hagent, Or.inr h⟩⟩
      cases hmove with
      | stay | cast => exact absurd ⟨conn, hget, hagent, hphase⟩ hbefore
      | insertOnline | insertAddr | helloOk | fail | alertName | alert | close | stale
      | removeSession => rcases hphase with hphase | hphase <;> cases hphase
      | setStatus report =>
        dsimp only at hphase
        split at hphase
        · rcases hphase with hphase | hphase <;> cases hphase
        · rcases hphase with hphase | hphase <;> cases hphase
      | removeOnline hcast hcleanup hregistered =>
        subst hagent
        exact ⟨hop, hregistered, conn, hget, rfl, hcleanup⟩
      | removeAddr hcast hremove => exact absurd hremove hno.1
    · rw [Function.update_of_ne hc] at hother
      exact absurd ⟨other, hother, hA, hphase⟩ hbefore
  · exact fun _ _ _ _ hafter => absurd hafter hbefore
  · exact fun _ _ _ _ _ _ _ hafter => absurd hafter hbefore

/-- A session that is granted beside a registered connection is removed only by its
owner's release, or by a cleanup that has found its connection registered since. -/
def SessionsKept (db : Db) (low : Report → Bool) (ops : List (Op Report)) (A : Uuid) : Prop :=
  ∀ pre op mid last session, pre ++ op :: mid ++ [last] <+: ops →
    Grants ((machine db low).run pre) op A session →
    (((machine db low).run pre).registry.online A).isSome = true →
    ((machine db low).run (pre ++ op :: mid)).registry.sessions A = some session →
    ((machine db low).run (pre ++ op :: mid ++ [last])).registry.sessions A = none →
    Releases ((machine db low).run (pre ++ op :: mid)) last A session.adminUsername ∨
      ∃ c begun check rest, last = Op.conn c .go ∧ mid = begun ++ check :: rest ∧
        Checks ((machine db low).run (pre ++ op :: begun)) check A c

theorem sessionsKept {A : Uuid} (ops : List (Op Report))
    (hgrants : (machine db low).Along (fun s op => GrantsApart s op A) ops) :
    SessionsKept db low ops A := by
  intro pre op mid last session hprefix hgrant honline hbefore hafter
  rw [Machine.run_concat] at hafter
  change (step db low _ last).registry.sessions A = none at hafter
  rcases sessions_step db low ((machine db low).run (pre ++ op :: mid)) last A with
    ⟨other, -, h⟩ | ⟨other, hrelease, hother, -⟩ | ⟨⟨c, conn, hlast, hget, -, hphase, hA⟩, -⟩ | h
  · rw [h] at hafter
    cases hafter
  · rw [hbefore] at hother
    cases hother
    exact Or.inl hrelease
  · have hpre : pre ++ [op] <+: ops := by
      refine List.IsPrefix.trans ⟨mid ++ [last], ?_⟩ hprefix
      simp
    have hapart := hgrants pre op hpre ⟨session, hgrant⟩ honline
    have hidle : ¬ Cleaning ((machine db low).run (pre ++ [op])) A c := by
      intro hcleaning
      obtain ⟨conn, hconn, hagent, hremove⟩ := hcleaning
      obtain ⟨i, h, rfl, -⟩ := hgrant
      rw [Machine.run_concat] at hconn
      change (step db low _ (.handler i)).conns c = some conn at hconn
      rw [conns_handler] at hconn
      obtain ⟨hno, hno'⟩ := hapart c conn hconn hagent
      exact hremove.elim hno hno'
    have hcleaning : Cleaning ((machine db low).run (pre ++ [op] ++ mid)) A c := by
      refine ⟨conn, ?_, hA, Or.inr hphase⟩
      rw [List.append_assoc]
      exact hget
    obtain ⟨begun, check, rest, hmid, hnot, hnow⟩ :=
      Machine.exists_step_between (Q := fun s => Cleaning s A c) mid hidle hcleaning
    refine Or.inr ⟨c, begun, check, rest, hlast, hmid, ?_⟩
    rw [List.append_assoc] at hnot hnow
    exact checks_of_cleaning hnot hnow
  · rw [h, hbefore] at hafter
    cases hafter

/-- The agent has an address if and only if it is online, and it is the address of the
registered connection. -/
structure Consistent (s : State Report) (A : Uuid) : Prop where
  both : (s.registry.agentAddr A).isSome = (s.registry.online A).isSome
  own : ∀ conn, (s.registry.registered A).bind s.conns = some conn →
    s.registry.agentAddr A = some conn.streamAddr

theorem consistent_of_eq {s : State Report} {A : Uuid} (hsound : Sound db s)
    (h : s.registry.agentAddr A = registeredAddr s A) : Consistent s A := by
  unfold registeredAddr at h
  have honline : (s.registry.registered A).isSome = (s.registry.online A).isSome :=
    Option.isSome_map
  refine ⟨?_, fun conn hget => ?_⟩
  · rw [h, ← honline]
    cases hc : s.registry.registered A with
    | none => rfl
    | some c =>
      obtain ⟨conn, hget, -⟩ := hsound.live A c hc
      rw [Option.bind_some, hget]
      rfl
  · obtain ⟨c, hc, hconn⟩ := Option.bind_eq_some_iff.mp hget
    rw [h, hc, Option.bind_some, hconn]
    rfl

/-- Neither the address nor the session of an agent suffers from another connection. -/
def Orderly (s : State Report) (op : Op Report) (A : Uuid) : Prop :=
  KeepsAddr s op A ∧ GrantsApart s op A

theorem registry_consistent (A : Uuid) (ops : List (Op Report))
    (horderly : (machine db low).Along (fun s op => Orderly s op A) ops) :
    (Quiet ((machine db low).run ops) A → Consistent ((machine db low).run ops) A) ∧
      SessionsKept db low ops A := by
  refine ⟨fun hquiet => ?_, sessionsKept ops fun pre op hpre => (horderly pre op hpre).2⟩
  have hsettled := settled_run ops fun pre op hpre => (horderly pre op hpre).1
  exact consistent_of_eq (sound_run ops) (hsettled.of_quiet (sound_run ops) hquiet)

/-- Whether an agent is quiet can be seen from the connections numbered so far. -/
theorem quiet_of_numbered {s : State Report} (hsound : Sound db s) {A : Uuid}
    (h : ∀ c < s.nextConnId, (s.conns c).all fun conn => !between conn.phase) : Quiet s A := by
  intro c conn hget _
  by_cases hc : c < s.nextConnId
  · have hall := h c hc
    rw [hget] at hall
    simpa using hall
  · rw [hsound.fresh c (Nat.le_of_not_lt hc)] at hget
    cases hget

/-- One laptop, which connects from its tailnet address. -/
def oneLaptop : Db := .single (0, "student-01")

def connecting : List (Op Unit) := [.hello 0 (some "100.64.0.7") "10.0.0.2", .conn 1 .go, .conn 1 .go]

theorem connecting_consistent :
    Consistent ((machine oneLaptop fun _ => false).run connecting) 0 := by
  apply (registry_consistent 0 connecting ?_).1
  · exact quiet_of_numbered (sound_run connecting) (by decide)
  · apply Machine.along_of_alongFrom
    have hgrants : ∀ (s : State Unit) op, (∀ i, op ≠ Op.handler i) → GrantsApart s op 0 := by
      intro s op hop h
      obtain ⟨session, i, h, heq, -⟩ := h
      exact absurd heq (hop i)
    refine ⟨⟨?_, hgrants _ _ (by simp)⟩, ⟨?_, hgrants _ _ (by simp)⟩, ⟨?_, hgrants _ _ (by simp)⟩,
      trivial⟩
    · intro c conn hop
      cases hop
    · intro c conn hop hget hA hcast
      cases hop
      cases hget
      exact ⟨nofun, nofun⟩
    · intro c conn hop hget hA hcast
      cases hop
      cases hget
      exact ⟨fun _ => Or.inl rfl, nofun⟩

/-- The first connection ends and finds itself registered; then a second one registers
and stores its address, which the cleanup of the first removes. -/
def reconnecting : List (Op Unit) :=
  connecting ++ [.conn 1 .fail, .conn 1 .go, .hello 0 (some "100.64.0.7") "10.0.0.2",
    .conn 2 .go, .conn 2 .go, .conn 1 .go, .conn 1 .go]

theorem reconnecting_inconsistent :
    Quiet ((machine oneLaptop fun _ => false).run reconnecting) 0 ∧
      ¬ Consistent ((machine oneLaptop fun _ => false).run reconnecting) 0 := by
  refine ⟨quiet_of_numbered (sound_run reconnecting) (by decide), fun h => ?_⟩
  have hboth := h.both
  revert hboth
  decide

end KmControl.AgentRegistry
