import KmControl.BroadcastDebt
import KmControl.SessionLock

/-!
What the steps of an admin's task do, and what is true of it in every run: when it has a
place in the channel of the broadcasts, and whose views are in its snapshot. Of the
broadcasts it can still receive the last ones that the channel holds.
-/
namespace KmControl.AdminSteps

open Hub HubSteps AdminView LastWrite ViewBuilding BroadcastDebt

variable {Report : Type} {db : Db} {low : Report → Bool}

theorem isSome_laptopName {A : Uuid} :
    (db.laptopName A).isSome = true ↔ A ∈ db.laptops.map Prod.fst := by
  unfold Db.laptopName
  rw [List.lookup_isSome_iff, List.mem_map]
  constructor
  · intro h
    obtain ⟨entry, hmem, hA⟩ := h
    exact ⟨entry, hmem, (beq_iff_eq.mp hA).symm⟩
  · intro h
    obtain ⟨entry, hmem, rfl⟩ := h
    exact ⟨entry, hmem, beq_self_eq_true _⟩

/-- What the admin's task can do. -/
inductive AdminMove (db : Db) (r : Registry Report) (a : Admin Report) : Admin Report → Prop
  | stay : AdminMove db r a a
  | begin (htask : a.task = .connect) : AdminMove db r a (a.beginSnapshot db)
  | build (done : List (AgentView Report)) (A : Uuid) (todo : List Uuid) (build : Build Report)
    (htask : a.task = .snapshot done (A :: todo) build) :
    AdminMove db r a { a with task := .snapshot done (A :: todo) (build.next db r A) }
  | add (done : List (AgentView Report)) (A : Uuid) (todo : List Uuid)
    (view : Option (AgentView Report))
    (htask : a.task = .snapshot done (A :: todo) (.built view)) :
    AdminMove db r a { a with task := .snapshot (done ++ view.toList) todo .start }
  | send (done : List (AgentView Report)) (build : Build Report)
    (htask : a.task = .snapshot done [] build) :
    AdminMove db r a { a with
      socket := a.socket ++ [.snapshot done]
      task := if a.rx.isSome then .serve else .subscribe }
  | subscribe (htask : a.task = .subscribe) :
    AdminMove db r a { a with rx := some r.bcast.length, task := .serve }
  | resync (pos : ℕ) (htask : a.task = .serve) (hrx : a.rx = some pos)
    (hlagged : a.lagged r.bcast.length = true) :
    AdminMove db r a ({ a with rx := some (r.bcast.length - capacity) }.beginSnapshot db)
  | pass (pos : ℕ) (msg : HubToAdmin Report) (htask : a.task = .serve) (hrx : a.rx = some pos)
    (hlagged : a.lagged r.bcast.length = false) (hmsg : r.bcast[pos]? = some msg) :
    AdminMove db r a { a with rx := some (pos + 1), socket := a.socket ++ [msg] }

theorem adminMove_go (db : Db) (r : Registry Report) (a : Admin Report) :
    AdminMove db r a (a.go db r) := by
  unfold Admin.go
  cases htask : a.task with
  | connect => exact .begin htask
  | subscribe => exact .subscribe htask
  | snapshot done todo build =>
    cases todo with
    | nil => exact .send done build htask
    | cons A todo =>
      cases build with
      | start => exact .build done A todo _ htask
      | seen name online status => exact .build done A todo _ htask
      | built view => exact .add done A todo view htask
  | serve =>
    dsimp only
    unfold Admin.recv
    cases hrx : a.rx with
    | none => exact .stay
    | some pos =>
      dsimp only
      cases hlagged : a.lagged r.bcast.length with
      | true => exact .resync pos htask hrx hlagged
      | false =>
        rw [if_neg Bool.false_ne_true]
        cases hmsg : r.bcast[pos]? with
        | none => exact .stay
        | some msg => exact .pass pos msg htask hrx hlagged hmsg

/-- What is true of the admin's task in every run. -/
structure Ready (db : Db) (w : World Report) : Prop where
  sound : Sound db w.hub
  casts : CastsOwn db w.hub
  calls : SessionLock.Calls w.hub
  early : w.admin.task = .connect ∨ w.admin.task = .subscribe → w.admin.rx = none
  late : w.admin.task = .serve → w.admin.rx ≠ none
  bound : ∀ pos, w.admin.rx = some pos → pos ≤ w.hub.registry.bcast.length
  listed : ∀ done todo build, w.admin.task = .snapshot done todo build → todo.Nodup ∧
    (∀ A ∈ todo, (db.laptopName A).isSome = true) ∧ ∀ A ∈ todo.head?, Own db A build

theorem Ready.debt {w : World Report} (hw : Ready db w) (op : Hub.Op Report) (B : Uuid) :
    Debt db w.hub (Hub.step db low w.hub op) op B :=
  debt_step hw.sound hw.casts hw.calls.fresh op B

/-- Broadcasts are only added. -/
theorem bcast_length_le {s t : State Report} {op : Hub.Op Report} {B : Uuid}
    (h : Debt db s t op B) : s.registry.bcast.length ≤ t.registry.bcast.length := by
  cases h with
  | due id hknown howes hbcast => exact Nat.le_of_eq (congrArg List.length hbcast.symm)
  | same hview howes hbcast =>
    rcases hbcast with hbcast | ⟨msg, -, hbcast⟩
    · exact Nat.le_of_eq (congrArg List.length hbcast.symm)
    · rw [hbcast, List.length_append]
      exact Nat.le_add_right _ _
  | sending id view hknown hsending hview howes hbcast =>
    rw [hbcast, List.length_append]
    exact Nat.le_add_right _ _

theorem listed_beginSnapshot {a : Admin Report} {done : List (AgentView Report)}
    {todo : List Uuid} {build : Build Report}
    (h : (a.beginSnapshot db).task = .snapshot done todo build) : todo.Nodup ∧
      (∀ A ∈ todo, (db.laptopName A).isSome = true) ∧ ∀ A ∈ todo.head?, Own db A build := by
  cases h
  exact ⟨db.nodup, fun A hA => isSome_laptopName.mpr hA, fun _ _ => trivial⟩

theorem Ready.hub {w : World Report} (hw : Ready db w) (op : Hub.Op Report) :
    Ready db { w with hub := Hub.step db low w.hub op } := by
  refine ⟨hw.sound.step op, hw.casts.step hw.sound op, hw.calls.step op, hw.early, hw.late, ?_,
    hw.listed⟩
  intro pos hpos
  exact Nat.le_trans (hw.bound pos hpos) (bcast_length_le (hw.debt op 0))

theorem Ready.deliver {w : World Report} (hw : Ready db w) :
    Ready db { w with admin := w.admin.deliver } := by
  have hsame : w.admin.deliver.task = w.admin.task ∧ w.admin.deliver.rx = w.admin.rx := by
    unfold Admin.deliver
    cases w.admin.socket with
    | nil => exact ⟨rfl, rfl⟩
    | cons msg rest => exact ⟨rfl, rfl⟩
  refine ⟨hw.sound, hw.casts, hw.calls, ?_, ?_, ?_, ?_⟩
  · rw [hsame.1, hsame.2]
    exact hw.early
  · rw [hsame.1, hsame.2]
    exact hw.late
  · rw [hsame.2]
    exact hw.bound
  · rw [hsame.1]
    exact hw.listed

theorem Ready.admin {w : World Report} (hw : Ready db w) {a : Admin Report}
    (hmove : AdminMove db w.hub.registry w.admin a) : Ready db { w with admin := a } := by
  cases hmove with
  | stay => exact hw
  | begin htask =>
    refine ⟨hw.sound, hw.casts, hw.calls, fun h => ?_, fun h => ?_, hw.bound,
      fun _ _ _ => listed_beginSnapshot⟩
    · rcases h with h | h <;> cases h
    · cases h
  | build done A todo build htask =>
    obtain ⟨hnodup, hknown, hown⟩ := hw.listed done (A :: todo) build htask
    refine ⟨hw.sound, hw.casts, hw.calls, fun h => ?_, fun h => ?_, hw.bound, ?_⟩
    · rcases h with h | h <;> cases h
    · cases h
    · intro done' todo' build' htask'
      cases htask'
      refine ⟨hnodup, hknown, fun B hB => ?_⟩
      cases hB
      exact (hown A rfl).next _
  | add done A todo view htask =>
    obtain ⟨hnodup, hknown, hown⟩ := hw.listed done (A :: todo) _ htask
    refine ⟨hw.sound, hw.casts, hw.calls, fun h => ?_, fun h => ?_, hw.bound, ?_⟩
    · rcases h with h | h <;> cases h
    · cases h
    · intro done' todo' build' htask'
      cases htask'
      exact ⟨hnodup.of_cons, fun B hB => hknown B (List.mem_cons_of_mem A hB), fun _ _ => trivial⟩
  | send done build htask =>
    refine ⟨hw.sound, hw.casts, hw.calls, fun h => ?_, fun h => ?_, hw.bound, ?_⟩
    · dsimp only at h ⊢
      cases hrx : w.admin.rx with
      | none => rfl
      | some pos =>
        rw [hrx] at h
        rcases h with h | h <;> cases h
    · dsimp only at h ⊢
      cases hrx : w.admin.rx with
      | none =>
        rw [hrx] at h
        cases h
      | some pos => exact Option.some_ne_none pos
    · intro done' todo' build' htask'
      dsimp only at htask'
      split at htask' <;> cases htask'
  | subscribe htask =>
    refine ⟨hw.sound, hw.casts, hw.calls, fun h => ?_, fun _ => Option.some_ne_none _, ?_, ?_⟩
    · rcases h with h | h <;> cases h
    · intro pos hpos
      cases hpos
      exact Nat.le_refl _
    · intro done' todo' build' htask'
      cases htask'
  | resync pos htask hrx hlagged =>
    refine ⟨hw.sound, hw.casts, hw.calls, fun h => ?_, fun h => ?_, ?_,
      fun _ _ _ => listed_beginSnapshot⟩
    · rcases h with h | h <;> cases h
    · cases h
    · intro pos hpos
      rw [← Option.some.inj hpos]
      exact Nat.sub_le _ _
  | pass pos msg htask hrx hlagged hmsg =>
    refine ⟨hw.sound, hw.casts, hw.calls, fun h => ?_, fun _ => Option.some_ne_none _, ?_, ?_⟩
    · dsimp only at h
      rw [htask] at h
      rcases h with h | h <;> cases h
    · intro next hnext
      cases hnext
      exact (List.getElem?_eq_some_iff.mp hmsg).1
    · intro done' todo' build' htask'
      dsimp only at htask'
      rw [htask] at htask'
      cases htask'

theorem ready_run (agents : Agents Report) (ops : List (AdminView.Op Report)) :
    Ready db ((AdminView.machine db low agents).run ops) := by
  apply (AdminView.machine db low agents).run_invariant
  · have hsound : Sound db ((Hub.machine db low).run []) := sound_run []
    have hcasts : CastsOwn db ((Hub.machine db low).run []) := castsOwn_run []
    have hcalls : SessionLock.Calls ((Hub.machine db low).run []) := SessionLock.calls_run []
    refine ⟨hsound, hcasts, hcalls, fun _ => rfl, fun h => ?_, fun _ h => ?_, fun _ _ _ h => ?_⟩
    · cases h
    · cases h
    · cases h
  · intro w op hw
    cases op with
    | hub op => exact hw.hub op
    | admin => exact hw.admin (adminMove_go db w.hub.registry w.admin)
    | deliver => exact hw.deliver

/-- The first broadcast that the admin's task can still receive. -/
def kept (a : Admin Report) (sent : ℕ) : ℕ :=
  match a.rx with
  | none => sent
  | some pos => max pos (sent - capacity)

def unread (w : World Report) : List (HubToAdmin Report) :=
  w.hub.registry.bcast.drop (kept w.admin w.hub.registry.bcast.length)

/-- The admin's task will find that it has missed something. -/
def Lagged (w : World Report) : Prop := w.admin.lagged w.hub.registry.bcast.length = true

theorem lagged_iff {w : World Report} {pos : ℕ} (hrx : w.admin.rx = some pos) :
    Lagged w ↔ pos + capacity < w.hub.registry.bcast.length := by
  unfold Lagged Admin.lagged
  rw [hrx]
  exact decide_eq_true_iff

theorem not_lagged_of_none {w : World Report} (hrx : w.admin.rx = none) : ¬ Lagged w := by
  unfold Lagged Admin.lagged
  rw [hrx]
  exact Bool.false_ne_true

theorem unread_of_none {w : World Report} (hrx : w.admin.rx = none) : unread w = [] := by
  unfold unread kept
  rw [hrx]
  exact List.drop_length

theorem unread_of_some {w : World Report} {pos : ℕ} (hrx : w.admin.rx = some pos) :
    unread w = w.hub.registry.bcast.drop (max pos (w.hub.registry.bcast.length - capacity)) := by
  unfold unread kept
  rw [hrx]

/-- A task that has fallen behind does not catch up by what is added. -/
theorem Lagged.mono {w : World Report} (h : Lagged w) {s : State Report}
    (hle : w.hub.registry.bcast.length ≤ s.registry.bcast.length) :
    Lagged { w with hub := s } := by
  cases hrx : w.admin.rx with
  | none => exact absurd h (not_lagged_of_none hrx)
  | some pos =>
    rw [lagged_iff hrx] at h
    exact (lagged_iff (w := { w with hub := s }) hrx).mpr (Nat.lt_of_lt_of_le h hle)

/-- The channel takes one more message, if it is subscribed to, and may drop its oldest. -/
theorem unread_concat {w : World Report} (hw : Ready db w) {pos : ℕ}
    (hrx : w.admin.rx = some pos) {s : State Report} {msg : HubToAdmin Report}
    (hbcast : s.registry.bcast = w.hub.registry.bcast ++ [msg]) :
    unread { w with hub := s } = unread w ++ [msg] ∨
      Lagged { w with hub := s } ∧ unread { w with hub := s } = (unread w).drop 1 ++ [msg] := by
  have hbound := hw.bound pos hrx
  have hlength : s.registry.bcast.length = w.hub.registry.bcast.length + 1 := by
    rw [hbcast, List.length_append]
    rfl
  have hlagged : Lagged { w with hub := s } ↔ pos + capacity < s.registry.bcast.length :=
    lagged_iff (w := { w with hub := s }) hrx
  have hunread : unread { w with hub := s } =
      s.registry.bcast.drop (max pos (s.registry.bcast.length - capacity)) :=
    unread_of_some (w := { w with hub := s }) hrx
  rw [hlagged, hunread, unread_of_some hrx, hlength, hbcast]
  by_cases hkept : w.hub.registry.bcast.length + 1 ≤ pos + capacity
  · refine Or.inl ?_
    rw [Nat.max_eq_left (by omega), Nat.max_eq_left (by omega), List.drop_append_of_le_length hbound]
  · refine Or.inr ⟨by omega, ?_⟩
    have hnext : w.hub.registry.bcast.length + 1 - capacity =
        w.hub.registry.bcast.length - capacity + 1 := by
      unfold capacity at hkept ⊢
      omega
    have hle : w.hub.registry.bcast.length - capacity + 1 ≤ w.hub.registry.bcast.length := by
      unfold capacity at hkept ⊢
      omega
    rw [Nat.max_eq_right (by omega), Nat.max_eq_right (by omega), List.drop_drop, hnext,
      List.drop_append_of_le_length hle]

end KmControl.AdminSteps
