import KmControl.HubSteps

/-!
A connection that another connection of its agent has replaced. Its loop keeps reading
frames, and it addresses the tables by the id of the agent. Its cleanup looks at its own
number first and leaves the tables alone; a status report does not look.
-/
namespace KmControl.SupersededConn

open Hub HubSteps

variable {Report : Type} {db : Db} {low : Report → Bool}

/-- What a read from the socket of a connection may give. -/
inductive Frame (Report : Type) where
  | status (report : Report)
  | commandResult
  | hello
  | badText
  /-- A ping, or a binary frame. -/
  | other
  | close
  | error
  | ended
deriving DecidableEq

/-- What a frame does to the loop that serves a connection. -/
def Frame.input : Frame Report → Option (Input Report)
  | .status report => some (.status report)
  | .close | .error | .ended => some .close
  | .commandResult | .hello | .badText | .other => none

/-- A step of the hub, or a frame that a connection has received. -/
inductive Turn (Report : Type) where
  | hub (op : Op Report)
  | frame (connId : ConnId) (frame : Frame Report)

def Turn.op? : Turn Report → Option (Op Report)
  | .hub op => some op
  | .frame connId received => received.input.map (Op.conn connId)

def machine (db : Db) (low : Report → Bool) : Machine (State Report) (Turn Report) where
  init := State.new
  step s turn :=
    match turn.op? with
    | some op => step db low s op
    | none => s

theorem sound_run (turns : List (Turn Report)) : Sound db ((machine db low).run turns) := by
  apply (machine db low).run_invariant (I := Sound db)
  · exact @HubSteps.sound_run Report db low []
  · intro s turn hs
    dsimp only [machine]
    split
    · exact hs.step _
    · exact hs

/-- The phases of a connection that is or has been registered and removes nothing. -/
def Past : Phase Report → Prop
  | .insertAddr | .helloOk | .serving | .alertName _ | .alert _ _ | .cleanup | .closed => True
  | .insertOnline | .removeAddr | .removeSession => False

theorem past_of_live {phase : Phase Report} (h : Live phase) : Past phase := by
  cases phase with
  | insertAddr | helloOk | serving | alertName | alert | cleanup | closed => trivial
  | insertOnline | removeAddr | removeSession => exact h

/-- The connection served the agent and is registered no more. -/
def Superseded (s : State Report) (A : Uuid) (c : ConnId) : Prop :=
  s.registry.registered A ≠ some c ∧
    ∃ conn, s.conns c = some conn ∧ conn.agentId = A ∧ Past conn.phase

/-- A task that is superseded never registers again, and its cleanup removes nothing. -/
theorem Move.past {c : ConnId} {conn conn' : Conn Report} {r r' : Registry Report}
    {input : Input Report} (h : Move db low c conn r input r' conn')
    (hother : r.registered conn.agentId ≠ some c) (hpast : Past conn.phase) :
    Past conn'.phase ∧ r'.registered conn.agentId ≠ some c := by
  cases h with
  | stay => exact ⟨hpast, hother⟩
  | cast cast => exact ⟨hpast, by rwa [Cast.go_registered]⟩
  | insertAddr | helloOk | fail | alertName | alert | close | stale => exact ⟨trivial, hother⟩
  | setStatus report =>
    refine ⟨?_, by rwa [Registry.registered_setStatus]⟩
    dsimp only
    split <;> trivial
  | removeOnline _ _ hregistered => exact absurd hregistered hother
  | insertOnline _ hphase | removeAddr _ hphase | removeSession _ hphase =>
    rw [hphase] at hpast
    exact hpast.elim

/-- A connection stays superseded. -/
theorem Superseded.step {s : State Report} {A : Uuid} {c : ConnId} (h : Superseded s A c)
    (hs : Sound db s) (op : Op Report) : Superseded (step db low s op) A c := by
  obtain ⟨hother, conn, hget, hA, hpast⟩ := h
  apply step_rule (I := fun t => Superseded t A c)
  · exact ⟨hother, conn, hget, hA, hpast⟩
  · intro agentId name streamAddr peerIp _ _
    refine ⟨hother, conn, ?_, hA, hpast⟩
    have hne : c ≠ s.nextConnId := by
      intro heq
      have hfresh := hs.fresh c (Nat.le_of_eq heq.symm)
      rw [hget] at hfresh
      cases hfresh
    exact (Function.update_of_ne hne _ _).trans hget
  · intro d mover input r' conn' _ hmover hmove
    by_cases hd : c = d
    · subst hd
      obtain rfl : mover = conn := Option.some.inj (hmover.symm.trans hget)
      obtain ⟨hpast', hother'⟩ := Move.past hmove (hA ▸ hother) hpast
      exact ⟨hA ▸ hother', conn', Function.update_self _ _ _, hmove.agentId.trans hA, hpast'⟩
    · refine ⟨fun hc => ?_, conn, (Function.update_of_ne hd _ _).trans hget, hA, hpast⟩
      have hwho := hmove.registered (fun _ => hs.live_of_get hmover) hc
      rw [if_neg hd] at hwho
      exact hother hwho
  · exact fun _ _ _ _ => ⟨hother, conn, hget, hA, hpast⟩
  · intro i handler r' handler' _ _ hmove
    refine ⟨?_, conn, hget, hA, hpast⟩
    rwa [Registry.registered_congr hmove.online]

/-- Replacing a connection supersedes it. -/
theorem superseded_of_replaced {s : State Report} {A : Uuid} {c d : ConnId} (hne : d ≠ c)
    (hs : Sound db s) (hbefore : s.registry.registered A = some c) {op : Op Report}
    (hafter : (step db low s op).registry.registered A = some d) :
    Superseded (step db low s op) A c := by
  obtain ⟨conn, hget, hA, hlive⟩ := hs.live A c hbefore
  have hother : ∀ r : Registry Report, r.registered A = some d → r.registered A ≠ some c :=
    fun r hd hc => hne (Option.some.inj (hd.symm.trans hc))
  have hsame : ∀ r : Registry Report, r.online = s.registry.online → r.registered A = some d →
      False := by
    intro r hr hd
    rw [Registry.registered_congr hr, hbefore] at hd
    exact hne (Option.some.inj hd).symm
  revert hafter
  apply step_rule (I := fun t => t.registry.registered A = some d → Superseded t A c)
  · exact fun hd => (hsame _ rfl hd).elim
  · exact fun _ _ _ _ _ _ hd => (hsame _ rfl hd).elim
  · intro e mover input r' conn' _ hmover hmove hd
    have hwho := hmove.registered (fun _ => hs.live_of_get hmover) hd
    by_cases hde : d = e
    · have hce : c ≠ e := fun hce => hne (hde.trans hce.symm)
      exact ⟨hother _ hd, conn, (Function.update_of_ne hce _ _).trans hget, hA,
        past_of_live hlive⟩
    · rw [if_neg hde, hbefore] at hwho
      exact (hne (Option.some.inj hwho).symm).elim
  · exact fun _ _ _ _ hd => (hsame _ rfl hd).elim
  · exact fun _ _ _ _ _ _ hmove hd => (hsame _ hmove.online hd).elim

/-- A step of the connection's task: a frame it has received, or a step of its own other
than the one that ends its registration by storing the address. -/
def OfConn (s : State Report) (c : ConnId) (turn : Turn Report) : Prop :=
  (∃ frame, turn = .frame c frame) ∨
    ∃ input, turn = .hub (.conn c input) ∧
      ∀ conn, s.conns c = some conn → conn.phase ≠ .insertAddr

/-- The three entries of an agent are the same. -/
def SameEntries (s t : State Report) (A : Uuid) : Prop :=
  t.registry.online A = s.registry.online A ∧ t.registry.agentAddr A = s.registry.agentAddr A ∧
    t.registry.sessions A = s.registry.sessions A

/-- The loop of a connection takes a report that differs from the one stored for its
agent. -/
def Overwrites (s : State Report) (A : Uuid) (c : ConnId) (turn : Turn Report) : Prop :=
  ∃ report conn entry, turn.op? = some (.conn c (.status report)) ∧ s.conns c = some conn ∧
    conn.phase = .serving ∧ conn.cast = none ∧ s.registry.online A = some entry ∧
      entry.lastStatus ≠ some report

theorem SameEntries.of_registry {s t : State Report} {A : Uuid}
    (honline : t.registry.online = s.registry.online)
    (haddr : t.registry.agentAddr = s.registry.agentAddr)
    (hsessions : t.registry.sessions = s.registry.sessions) : SameEntries s t A :=
  ⟨congrFun honline A, congrFun haddr A, congrFun hsessions A⟩

/-- A superseded task changes no entry unless it is at a report or stores its address. -/
theorem Move.sameEntries {s : State Report} {A : Uuid} {c : ConnId} {conn conn' : Conn Report}
    {r' : Registry Report} {input : Input Report} {conns : ConnId → Option (Conn Report)}
    (h : Move db low c conn s.registry input r' conn')
    (hother : s.registry.registered conn.agentId ≠ some c) (hpast : Past conn.phase)
    (haddr : conn.cast = none → conn.phase = .insertAddr → input ≠ .go)
    (hstatus : ∀ report, input = .status report → conn.cast = none → conn.phase ≠ .serving) :
    SameEntries s { s with registry := r', conns := conns } A := by
  cases h with
  | stay | helloOk | fail | alertName | alert | close | stale =>
    exact .of_registry rfl rfl rfl
  | cast cast =>
    exact .of_registry (cast.go_online db _ _) (cast.go_agentAddr db _ _)
      (cast.go_sessions db _ _)
  | insertAddr hcast hphase => exact absurd rfl (haddr hcast hphase)
  | setStatus report hcast hphase => exact absurd hphase (hstatus report rfl hcast)
  | removeOnline _ _ hregistered => exact absurd hregistered hother
  | insertOnline _ hphase | removeAddr _ hphase | removeSession _ hphase =>
    rw [hphase] at hpast
    exact hpast.elim

/-- A report that a serving loop takes changes the entry unless it is stored already. -/
theorem status_sameEntries {s : State Report} {A : Uuid} {c : ConnId} {conn : Conn Report}
    (hget : s.conns c = some conn) (hA : conn.agentId = A) (hcast : conn.cast = none)
    (hphase : conn.phase = .serving) (report : Report) :
    SameEntries s (step db low s (.conn c (.status report))) A ↔
      ∀ entry, s.registry.online A = some entry → entry.lastStatus = some report := by
  have hstep : (step db low s (.conn c (.status report))).registry =
      s.registry.setStatus A report := by
    subst hA
    simp only [step, State.conn, hget, Conn.step, hcast, Conn.advance, hphase]
  unfold SameEntries
  rw [hstep, Registry.setStatus_agentAddr, Registry.setStatus_sessions]
  unfold Registry.setStatus
  cases honline : s.registry.online A with
  | none => simp [honline]
  | some entry =>
    simp only [Function.update_self, Option.some.injEq, and_self, and_true]
    constructor
    · intro hsame other hother
      rw [← hother, ← hsame]
    · intro hsame
      rw [← hsame entry rfl]

/-- What one step of a superseded connection leaves unchanged. -/
theorem sameEntries_iff {s : State Report} {A : Uuid} {c : ConnId} (h : Superseded s A c)
    {turn : Turn Report} (hturn : OfConn s c turn) :
    SameEntries s ((machine db low).step s turn) A ↔ ¬ Overwrites s A c turn := by
  obtain ⟨hother, conn, hget, hA, hpast⟩ := h
  have hop : turn.op? = none ∨ ∃ input, turn.op? = some (.conn c input) ∧
      (input = .go → conn.phase ≠ .insertAddr) := by
    rcases hturn with ⟨frame, rfl⟩ | ⟨input, rfl, hphase⟩
    · cases frame with
      | commandResult | hello | badText | other => exact Or.inl rfl
      | status report => exact Or.inr ⟨.status report, rfl, nofun⟩
      | close | error | ended => exact Or.inr ⟨.close, rfl, nofun⟩
    · exact Or.inr ⟨input, rfl, fun _ => hphase conn hget⟩
  rcases hop with hnone | ⟨input, hinput, hgo⟩
  · have hstep : (machine db low).step s turn = s := by
      simp only [machine, hnone]
    rw [hstep]
    refine iff_of_true ⟨rfl, rfl, rfl⟩ ?_
    rintro ⟨report, _, _, hreport, -⟩
    rw [hnone] at hreport
    cases hreport
  · have hstep : (machine db low).step s turn = step db low s (.conn c input) := by
      simp only [machine, hinput]
    rw [hstep]
    by_cases hserve : (∃ report, input = .status report) ∧ conn.cast = none ∧ conn.phase = .serving
    · obtain ⟨⟨report, rfl⟩, hcast, hphase⟩ := hserve
      rw [status_sameEntries hget hA hcast hphase]
      constructor
      · rintro hsame ⟨report', conn', entry, hreport, -, -, -, honline, hdiffers⟩
        rw [hinput] at hreport
        cases hreport
        exact hdiffers (hsame entry honline)
      · intro hno entry honline
        by_contra hdiffers
        exact hno ⟨report, conn, entry, hinput, hget, hphase, hcast, honline, hdiffers⟩
    · refine iff_of_true ?_ ?_
      · change SameEntries s (s.conn db low c input) A
        obtain hstay | ⟨conn', r', conn'', hget', hmove, heq⟩ := conn_cases db low s c input
        · rw [hstay]
          exact ⟨rfl, rfl, rfl⟩
        · obtain rfl : conn = conn' := Option.some.inj (hget.symm.trans hget')
          rw [heq]
          refine Move.sameEntries hmove (hA ▸ hother) hpast (fun _ hphase hin => hgo hin hphase) ?_
          exact fun report hin hcast hphase => hserve ⟨⟨report, hin⟩, hcast, hphase⟩
      · rintro ⟨report, conn', entry, hreport, hget', hphase, hcast, -, -⟩
        obtain rfl : conn = conn' := Option.some.inj (hget.symm.trans hget')
        rw [hinput] at hreport
        cases hreport
        exact hserve ⟨⟨report, rfl⟩, hcast, hphase⟩

/-- A connection stays superseded in the rest of a run. -/
theorem superseded_run {turns later : List (Turn Report)} {A : Uuid} {c : ConnId}
    (h : Superseded ((machine db low).run turns) A c) :
    Superseded ((machine db low).run (turns ++ later)) A c := by
  have hboth : Sound db ((machine db low).run (turns ++ later)) ∧
      Superseded ((machine db low).run (turns ++ later)) A c := by
    rw [(machine db low).run_append]
    apply (machine db low).runFrom_invariant
      (I := fun s => Sound db s ∧ Superseded s A c)
    · rintro s turn ⟨hs, hpast⟩
      dsimp only [machine]
      split
      · exact ⟨hs.step _, hpast.step hs _⟩
      · exact ⟨hs, hpast⟩
    · exact ⟨sound_run turns, h⟩
  exact hboth.2

theorem Overwrites.ofConn {s : State Report} {A : Uuid} {c : ConnId} {turn : Turn Report}
    (h : Overwrites s A c turn) : OfConn s c turn := by
  obtain ⟨report, conn, entry, hreport, hget, hphase, -, -, -⟩ := h
  cases turn with
  | hub op =>
    cases hreport
    refine Or.inr ⟨_, rfl, fun conn' hget' => ?_⟩
    obtain rfl : conn = conn' := Option.some.inj (hget.symm.trans hget')
    rw [hphase]
    exact nofun
  | frame d received =>
    obtain ⟨input, -, hinput⟩ := Option.map_eq_some_iff.mp hreport
    cases hinput
    exact Or.inl ⟨received, rfl⟩

/-- Without a report on the connection nothing is overwritten. -/
theorem not_overwrites {s : State Report} {A : Uuid} {c : ConnId} {turn : Turn Report}
    (h : ∀ report, turn.op? ≠ some (.conn c (.status report))) : ¬ Overwrites s A c turn :=
  fun ⟨report, _, _, hreport, _⟩ => h report hreport

section Run

variable {before later : List (Turn Report)} {turn : Turn Report} {A : Uuid} {c d : ConnId}

/-- After another connection of the agent has replaced it, what a connection receives and
how it ends leaves the entries of the agent alone, precisely if its loop takes no report. -/
theorem inert_iff (hne : d ≠ c)
    (hbefore : ((machine db low).run before).registry.registered A = some c)
    (hafter : ((machine db low).run (before ++ [turn])).registry.registered A = some d) :
    (∀ mid u, mid ++ [u] <+: later →
      OfConn ((machine db low).run (before ++ [turn] ++ mid)) c u →
      SameEntries ((machine db low).run (before ++ [turn] ++ mid))
        ((machine db low).run (before ++ [turn] ++ mid ++ [u])) A) ↔
    ∀ mid u, mid ++ [u] <+: later →
      ¬ Overwrites ((machine db low).run (before ++ [turn] ++ mid)) A c u := by
  have hreplaced : Superseded ((machine db low).run (before ++ [turn])) A c := by
    rw [(machine db low).run_concat] at hafter ⊢
    dsimp only [machine] at hafter ⊢
    split at hafter
    · exact superseded_of_replaced hne (sound_run before) hbefore hafter
    · exact absurd (Option.some.inj (hafter.symm.trans hbefore)) hne
  have hstep : ∀ mid u, OfConn ((machine db low).run (before ++ [turn] ++ mid)) c u →
      (SameEntries ((machine db low).run (before ++ [turn] ++ mid))
        ((machine db low).run (before ++ [turn] ++ mid ++ [u])) A ↔
          ¬ Overwrites ((machine db low).run (before ++ [turn] ++ mid)) A c u) := by
    intro mid u hof
    rw [(machine db low).run_concat (before ++ [turn] ++ mid)]
    exact sameEntries_iff (superseded_run hreplaced) hof
  constructor
  · intro hsame mid u hmid hover
    exact (hstep mid u hover.ofConn).mp (hsame mid u hmid hover.ofConn) hover
  · exact fun hno mid u hmid hof => (hstep mid u hof).mpr (hno mid u hmid)

end Run

section Replaced

def oneLaptop : Db := .single (7, "laptop")

def lowBattery (_ : ℕ) : Bool := false

/-- Two connections of one laptop; the second is about to be registered. -/
def bothHellos : List (Turn ℕ) :=
  [.hub (.hello 7 none "10.0.0.1"), .hub (.conn 1 .go), .hub (.conn 1 .go), .hub (.conn 1 .go),
    .hub (.conn 1 .go), .hub (.conn 1 .go), .hub (.conn 1 .go),
    .hub (.hello 7 none "10.0.0.2")]

theorem closing_inert :
    let s := (machine oneLaptop lowBattery).run (bothHellos ++ [.hub (.conn 2 .go)] ++
      [.frame 1 .hello, .frame 1 .badText, .frame 1 .close])
    SameEntries s ((machine oneLaptop lowBattery).step s (.hub (.conn 1 .go))) 7 := by
  have hinert := (@inert_iff ℕ oneLaptop lowBattery bothHellos
    [.frame 1 .hello, .frame 1 .badText, .frame 1 .close, .hub (.conn 1 .go)]
    (.hub (.conn 2 .go)) 7 1 2 (by decide) rfl rfl).mpr
  refine hinert ?_ [.frame 1 .hello, .frame 1 .badText, .frame 1 .close] (.hub (.conn 1 .go))
    (List.prefix_refl _) (Or.inr ⟨.go, rfl, ?_⟩)
  · intro mid u hmid
    have hu : u ∈ mid ++ [u] := List.mem_append_right _ List.mem_cons_self
    apply not_overwrites
    intro report hreport
    have hmem := hmid.subset hu
    simp only [List.mem_cons, List.not_mem_nil, or_false] at hmem
    rcases hmem with rfl | rfl | rfl | rfl <;> cases hreport
  · intro conn hget
    cases hget
    exact nofun

/-- A report that the replaced connection still receives becomes the status of the new one. -/
theorem status_overwrites :
    let s := (machine oneLaptop lowBattery).run (bothHellos ++ [.hub (.conn 2 .go)])
    s.registry.registered 7 = some 2 ∧
      ¬ SameEntries s ((machine oneLaptop lowBattery).step s (.frame 1 (.status 42))) 7 := by
  refine ⟨rfl, fun h => ?_⟩
  have hstatus := congrArg (fun entry => entry.bind (·.lastStatus)) h.1
  cases hstatus

end Replaced

end KmControl.SupersededConn
