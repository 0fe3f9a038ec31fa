import KmControl.AdminOutlook

/-!
When the admin's map follows the hub: its outlook is right, or a task still owes a
broadcast, as long as no task sends what has been overtaken and no broadcast falls
between the admin's snapshot and its subscription.
-/
namespace KmControl.AdminConvergence

open Hub HubSteps AdminView LastWrite ViewBuilding BroadcastDebt AdminSteps AdminOutlook

variable {Report : Type} {db : Db} {low : Report → Bool}

/-- The map will be right about the agent, or a task will yet tell. -/
def Good (db : Db) (w : World Report) (B : Uuid) : Prop :=
  ((db.laptopName B).isSome = true ∧ ∃ id, Owes db w.hub B id) ∨ Outlook db w B

/-- A view that is sent about the agent is the current one, and before the subscription
the snapshot is right without it; or another task will yet tell. -/
def Settles (db : Db) (w : World Report) (op : AdminView.Op Report) (B : Uuid) : Prop :=
  ∀ o id view, op = .hub o → sending w.hub o = some (id, B, view) →
    (∃ other, other ≠ id ∧ Owes db w.hub B other) ∨
      if w.admin.rx.isSome then some view = w.hub.registry.agentView db B else SentOk db w B

theorem Good.hub {w : World Report} (hw : Ready db w) {B : Uuid} (h : Good db w B)
    (op : Hub.Op Report) (hsettles : Settles db w (.hub op) B) :
    Good db { w with hub := Hub.step db low w.hub op } B := by
  have hdebt : Debt db w.hub (Hub.step db low w.hub op) op B := hw.debt op B
  cases hdebt with
  | due id hknown howes hbcast => exact Or.inl ⟨hknown, id, howes⟩
  | same hview howes hbcast =>
    rcases h with ⟨hknown, id, hid⟩ | houtlook
    · exact Or.inl ⟨hknown, id, howes hknown id hid⟩
    · exact Or.inr (houtlook.hub hw hview hbcast)
  | sending id view hknown hsending hview howes hbcast hagent =>
    rcases hsettles op id view rfl hsending with ⟨other, hother, hdue⟩ | hok
    · exact Or.inl ⟨hknown, other, howes other hother hdue⟩
    · subst hagent
      exact Or.inr (outlook_sending hw hview hbcast hok)

theorem Good.step {w : World Report} (hw : Ready db w) {B : Uuid} (h : Good db w B)
    (op : AdminView.Op Report) (hsettles : Settles db w op B) :
    Good db (AdminView.step db low w op) B := by
  cases op with
  | hub op => exact h.hub hw op hsettles
  | admin => exact h.imp_right fun houtlook => houtlook.admin hw (adminMove_go db _ _)
  | deliver => exact h.imp_right fun houtlook => houtlook.deliver

theorem good_run (agents : Agents Report) (ops : List (AdminView.Op Report))
    (hsettles : (AdminView.machine db low agents).Along (fun w op => ∀ B, Settles db w op B) ops)
    (B : Uuid) : Good db ((AdminView.machine db low agents).run ops) B := by
  induction ops using List.reverseRecOn with
  | nil => exact Or.inr (Or.inr trivial)
  | append_singleton ops op ih =>
    obtain ⟨hops, hlast⟩ := Machine.along_concat.mp hsettles
    rw [Machine.run_concat]
    exact (ih hops).step (ready_run agents ops) op (hlast B)

/-- No task has a step left but to wait, and every message has been handled. -/
structure AtRest (w : World Report) : Prop where
  conns : ∀ c conn, w.hub.conns c = some conn →
    conn.cast = none ∧ (conn.phase = .serving ∨ conn.phase = .closed)
  handlers : ∀ i h, w.hub.handlers i = some h →
    h.cast = none ∧ ∃ response, h.phase = .respond response
  task : w.admin.task = .serve
  rx : w.admin.rx = some w.hub.registry.bcast.length
  socket : w.admin.socket = []

theorem AtRest.not_owes {w : World Report} (h : AtRest w) (B : Uuid) (id : TaskId) :
    ¬ Owes db w.hub B id := by
  intro howes
  cases id with
  | conn c =>
    obtain ⟨conn, hget, -, howes⟩ := howes
    obtain ⟨hcast, hphase⟩ := h.conns c conn hget
    rw [connOwes_of_none hcast] at howes
    rcases hphase with hphase | hphase
    · rw [hphase] at howes
      exact howes
    · rw [hphase] at howes
      exact howes
  | handler i =>
    obtain ⟨handler, hget, -, howes⟩ := howes
    obtain ⟨hcast, response, hphase⟩ := h.handlers i handler hget
    obtain ⟨token, htoken⟩ := (handlerOwes_of_none hcast).mp howes
    rw [hphase] at htoken
    cases htoken

theorem AtRest.agents_eq {w : World Report} (h : AtRest w) {B : Uuid} (hgood : Good db w B) :
    w.admin.agents B = w.hub.registry.agentView db B := by
  rcases hgood with ⟨-, id, howes⟩ | houtlook
  · exact absurd howes (h.not_owes B id)
  · have hunread : unread w = [] := by
      rw [unread_of_some h.rx, List.drop_eq_nil_of_le (Nat.le_max_left _ _)]
    have hlatest : latest tells B (unread w) = none := by
      rw [hunread]
      rfl
    have hahead : ¬ Lagged w := by
      rw [lagged_iff h.rx]
      exact Nat.not_lt_of_le (Nat.le_add_right _ _)
    have hsent := ((outlook_of_none hlatest).mp houtlook).resolve_left hahead
    rw [sentOk_of_served (Or.inr h.task)] at hsent
    unfold Admin.arriving at hsent
    rwa [h.socket] at hsent

/-- A view that is sent is current, and the admin has subscribed. -/
def timely [DecidableEq Report] (db : Db) (w : World Report) : AdminView.Op Report → Bool
  | .hub op => (sending w.hub op).all fun (_, B, view) =>
    w.admin.rx.isSome && some view = w.hub.registry.agentView db B
  | .admin | .deliver => true

theorem settles_of_timely [DecidableEq Report] {w : World Report} {op : AdminView.Op Report}
    (h : timely db w op = true) (B : Uuid) : Settles db w op B := by
  intro o id view hop hsending
  subst hop
  unfold timely at h
  dsimp only at h
  rw [hsending, Option.all_some, Bool.and_eq_true, decide_eq_true_iff] at h
  rw [if_pos h.1]
  exact Or.inr h.2

/-- Tasks that have not been started are at rest. -/
theorem atRest_of_numbered {w : World Report} (hw : Ready db w)
    (hconns : ∀ c < w.hub.nextConnId, ∀ conn ∈ w.hub.conns c,
      conn.cast = none ∧ (conn.phase = .serving ∨ conn.phase = .closed))
    (hhandlers : w.hub.nextHandler = 0) (htask : w.admin.task = .serve)
    (hrx : w.admin.rx = some w.hub.registry.bcast.length) (hsocket : w.admin.socket = []) :
    AtRest w := by
  refine ⟨fun c conn hget => ?_, fun i h hget => ?_, htask, hrx, hsocket⟩
  · apply hconns c ?_ conn hget
    apply Nat.lt_of_not_le
    intro hfresh
    rw [hw.sound.fresh c hfresh] at hget
    cases hget
  · have hfresh : w.hub.nextHandler ≤ i := hhandlers ▸ Nat.zero_le i
    rw [hw.calls.fresh i hfresh] at hget
    cases hget

/-- In a run that sends no overtaken view, and none between an admin's snapshot and its
subscription that the snapshot lacks, the admin's map ends up as the hub's views. -/
theorem views_converge (agents : Agents Report) (ops : List (AdminView.Op Report))
    (hsettles : (AdminView.machine db low agents).Along (fun w op => ∀ B, Settles db w op B) ops)
    (hrest : AtRest ((AdminView.machine db low agents).run ops)) :
    let w := (AdminView.machine db low agents).run ops
    ∀ B, w.admin.agents B = w.hub.registry.agentView db B :=
  fun B => hrest.agents_eq (good_run agents ops hsettles B)

def oneLaptop : Db := .single (0, "student-01")

/-- An agent connects, and its view is broadcast. -/
def connecting : List (AdminView.Op Unit) :=
  .hub (.hello 0 none "100.64.0.7") :: List.replicate 6 (.hub (.conn 1 .go))

/-- The admin has subscribed when the agent connects. -/
def watching : List (AdminView.Op Unit) :=
  List.replicate 6 .admin ++ connecting ++ [.admin, .deliver, .deliver]

theorem watching_converges :
    let w := (AdminView.machine oneLaptop (fun _ => false) fun _ => none).run watching
    w.admin.agents 0 = w.hub.registry.agentView oneLaptop 0 := by
  refine views_converge _ watching ?_ ?_ 0
  · intro pre op hpre
    apply settles_of_timely
    exact Machine.along_of_alongFrom
      (C := fun w op => timely oneLaptop w op = true) (by decide) pre op hpre
  · exact atRest_of_numbered (ready_run _ watching) (by decide) rfl rfl rfl rfl

/-- The agent connects when the admin has its snapshot and has yet to subscribe. -/
def missing : List (AdminView.Op Unit) :=
  List.replicate 5 .admin ++ connecting ++ [.admin, .deliver]

theorem missing_diverges :
    let w := (AdminView.machine oneLaptop (fun _ => false) fun _ => none).run missing
    AtRest w ∧ ¬ ∀ B, w.admin.agents B = w.hub.registry.agentView oneLaptop B := by
  refine ⟨atRest_of_numbered (ready_run _ missing) (by decide) rfl rfl rfl rfl, fun h => ?_⟩
  have hagent := h 0
  revert hagent
  decide

end KmControl.AdminConvergence
