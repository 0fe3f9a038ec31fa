import KmControl.AdminSteps

/-!
What the admin's map will say of an agent. Of the messages that still reach the admin
about the agent the last one decides; without any, what has been sent or put into a
snapshot so far does. The steps of the admin's task and of its client keep this right.
-/
namespace KmControl.AdminOutlook

open Hub HubSteps AdminView LastWrite ViewBuilding BroadcastDebt AdminSteps

variable {Report : Type} {db : Db} {low : Report → Bool}

/-- A snapshot that is being built is right about the agent so far. -/
def SnapshotOk (db : Db) (r : Registry Report) (done : List (AgentView Report))
    (todo : List Uuid) (build : Build Report) (B : Uuid) : Prop :=
  if B ∈ todo then todo.head? = some B → Fresh db r B build
  else insertAll (fun _ => none) done B = r.agentView db B

theorem SnapshotOk.congr {r r' : Registry Report} {done : List (AgentView Report)}
    {todo : List Uuid} {build : Build Report} {B : Uuid} (h : SnapshotOk db r done todo build B)
    (hview : r'.agentView db B = r.agentView db B) : SnapshotOk db r' done todo build B := by
  unfold SnapshotOk at h ⊢
  split
  · rename_i hB
    rw [if_pos hB] at h
    exact fun hhead => (h hhead).congr hview
  · rename_i hB
    rw [if_neg hB] at h
    exact h.trans hview.symm

/-- A snapshot begins with nothing, and so with nothing wrong. -/
theorem snapshotOk_begin (r : Registry Report) (B : Uuid) :
    SnapshotOk db r [] (db.laptops.map Prod.fst) .start B := by
  unfold SnapshotOk
  split
  · exact fun _ => trivial
  · rename_i hB
    refine (agentView_of_unknown ?_).symm
    rwa [← isSome_laptopName, Bool.not_eq_true, Option.isSome_eq_false_iff,
      Option.isNone_iff_eq_none] at hB

theorem SnapshotOk.build {r : Registry Report} {done : List (AgentView Report)} {A : Uuid}
    {todo : List Uuid} {build : Build Report} {B : Uuid}
    (h : SnapshotOk db r done (A :: todo) build B) :
    SnapshotOk db r done (A :: todo) (build.next db r A) B := by
  unfold SnapshotOk at h ⊢
  split
  · rename_i hB
    rw [if_pos hB] at h
    intro hhead
    have hA : A = B := Option.some.inj hhead
    subst hA
    exact (h rfl).next
  · rename_i hB
    rwa [if_neg hB] at h

/-- The views of a snapshot are those of different agents. -/
theorem SnapshotOk.add {r : Registry Report} {done : List (AgentView Report)} {A : Uuid}
    {todo : List Uuid} {view : Option (AgentView Report)} {B : Uuid}
    (hnodup : (A :: todo).Nodup) (hknown : (db.laptopName A).isSome = true)
    (hown : Own db A (.built view)) (h : SnapshotOk db r done (A :: todo) (.built view) B) :
    SnapshotOk db r (done ++ view.toList) todo .start B := by
  cases view with
  | none =>
    rw [show db.laptopName A = none from hown] at hknown
    cases hknown
  | some view =>
    unfold SnapshotOk at h ⊢
    split
    · exact fun _ => trivial
    · rename_i hB
      rw [Option.toList_some, insertAll_append, insertAll_singleton, hown.1]
      by_cases hA : B = A
      · subst hA
        rw [if_pos List.mem_cons_self] at h
        rw [if_pos rfl]
        exact h rfl
      · rw [if_neg (List.not_mem_cons_of_ne_of_not_mem hA hB)] at h
        rw [if_neg hA]
        exact h

/-- What has been sent so far, or put into the snapshot, is right about the agent. -/
def SentOk (db : Db) (w : World Report) (B : Uuid) : Prop :=
  match w.admin.task with
  | .connect => True
  | .snapshot done todo build => SnapshotOk db w.hub.registry done todo build B
  | .subscribe | .serve => w.admin.arriving B = w.hub.registry.agentView db B

theorem SentOk.congr {w : World Report} {B : Uuid} (h : SentOk db w B) {s : State Report}
    (hview : s.registry.agentView db B = w.hub.registry.agentView db B) :
    SentOk db { w with hub := s } B := by
  unfold SentOk at h ⊢
  dsimp only
  cases htask : w.admin.task with
  | connect => trivial
  | snapshot done todo build =>
    rw [htask] at h
    exact SnapshotOk.congr h hview
  | subscribe | serve =>
    rw [htask] at h
    exact Eq.trans h hview.symm

theorem sentOk_of_served {w : World Report} {B : Uuid}
    (htask : w.admin.task = .subscribe ∨ w.admin.task = .serve) :
    SentOk db w B ↔ w.admin.arriving B = w.hub.registry.agentView db B := by
  unfold SentOk
  rcases htask with htask | htask <;> rw [htask]

theorem sentOk_of_snapshot {w : World Report} {B : Uuid} {done : List (AgentView Report)}
    {todo : List Uuid} {build : Build Report} (htask : w.admin.task = .snapshot done todo build) :
    SentOk db w B ↔ SnapshotOk db w.hub.registry done todo build B := by
  unfold SentOk
  rw [htask]

theorem arriving_send {w : World Report} {a : Admin Report} (msg : HubToAdmin Report) {B : Uuid}
    (htask : a.task = .subscribe ∨ a.task = .serve) (hsocket : a.socket = w.admin.socket ++ [msg])
    (hagents : a.agents = w.admin.agents) :
    SentOk db { w with admin := a } B ↔
      (tells msg B).getD (w.admin.arriving B) = w.hub.registry.agentView db B := by
  rw [sentOk_of_served htask, Admin.arriving_concat hsocket hagents]

/-- The map will be right about the agent if nothing more is broadcast. -/
def Outlook (db : Db) (w : World Report) (B : Uuid) : Prop :=
  match latest tells B (unread w) with
  | some view => view = w.hub.registry.agentView db B
  | none => Lagged w ∨ SentOk db w B

theorem outlook_of_some {w : World Report} {B : Uuid} {view : Option (AgentView Report)}
    (h : latest tells B (unread w) = some view) :
    Outlook db w B ↔ view = w.hub.registry.agentView db B := by
  unfold Outlook
  rw [h]

theorem outlook_of_none {w : World Report} {B : Uuid} (h : latest tells B (unread w) = none) :
    Outlook db w B ↔ Lagged w ∨ SentOk db w B := by
  unfold Outlook
  rw [h]

/-- The outlook stays when the messages to be received end in the same way. -/
theorem Outlook.congr {w w' : World Report} {B : Uuid} (h : Outlook db w B)
    (hlatest : latest tells B (unread w') = latest tells B (unread w))
    (hview : w'.hub.registry.agentView db B = w.hub.registry.agentView db B)
    (hrest : Lagged w ∨ SentOk db w B → Lagged w' ∨ SentOk db w' B) : Outlook db w' B := by
  cases hold : latest tells B (unread w) with
  | some view =>
    rw [outlook_of_some hold] at h
    rw [outlook_of_some (hlatest.trans hold)]
    exact h.trans hview.symm
  | none =>
    rw [outlook_of_none hold] at h
    rw [outlook_of_none (hlatest.trans hold)]
    exact hrest h

/-- Nothing changes for an agent by a step that tells nothing about it. -/
theorem Outlook.hub {w : World Report} (hw : Ready db w) {B : Uuid} (h : Outlook db w B)
    {s : State Report} (hview : s.registry.agentView db B = w.hub.registry.agentView db B)
    (hbcast : s.registry.bcast = w.hub.registry.bcast ∨
      ∃ msg, tells msg B = none ∧ s.registry.bcast = w.hub.registry.bcast ++ [msg]) :
    Outlook db { w with hub := s } B := by
  have hle : w.hub.registry.bcast.length ≤ s.registry.bcast.length := by
    rcases hbcast with hbcast | ⟨msg, -, hbcast⟩
    · exact Nat.le_of_eq (congrArg List.length hbcast.symm)
    · rw [hbcast, List.length_append]
      exact Nat.le_add_right _ _
  have hsame : latest tells B (unread { w with hub := s }) = latest tells B (unread w) →
      Outlook db { w with hub := s } B := by
    intro hlatest
    apply h.congr hlatest hview
    exact Or.imp (fun hlagged => hlagged.mono hle) fun hsent => hsent.congr hview
  rcases hbcast with hbcast | ⟨msg, htells, hbcast⟩
  · apply hsame
    unfold unread
    rw [hbcast]
  · cases hrx : w.admin.rx with
    | none =>
      apply hsame
      rw [unread_of_none hrx, unread_of_none (w := { w with hub := s }) hrx]
    | some pos =>
      rcases unread_concat hw hrx hbcast with hunread | ⟨hlagged, hunread⟩
      · apply hsame
        rw [hunread, latest_concat_of_none tells htells]
      · cases hlatest : latest tells B ((unread w).drop 1) with
        | some view =>
          apply hsame
          rw [hunread, latest_concat_of_none tells htells, hlatest, latest_drop tells hlatest]
        | none =>
          rw [outlook_of_none]
          · exact Or.inl hlagged
          · rw [hunread, latest_concat_of_none tells htells, hlatest]

/-- A view that reaches the channel decides the outlook of its agent. -/
theorem outlook_sending {w : World Report} (hw : Ready db w) {view : AgentView Report}
    {s : State Report}
    (hview : s.registry.agentView db view.agentId = w.hub.registry.agentView db view.agentId)
    (hbcast : s.registry.bcast = w.hub.registry.bcast ++ [.agentUpdated view])
    (hok : if w.admin.rx.isSome then some view = w.hub.registry.agentView db view.agentId
      else SentOk db w view.agentId) :
    Outlook db { w with hub := s } view.agentId := by
  cases hrx : w.admin.rx with
  | none =>
    rw [hrx, if_neg (by simp)] at hok
    rw [outlook_of_none]
    · exact Or.inr (hok.congr hview)
    · rw [unread_of_none (w := { w with hub := s }) hrx]
      rfl
  | some pos =>
    rw [hrx, if_pos (by exact rfl)] at hok
    have hlast : ∀ msgs : List (HubToAdmin Report),
        latest tells view.agentId (msgs ++ [.agentUpdated view]) = some (some view) := by
      intro msgs
      rw [latest_concat, tells_self]
      rfl
    have hlatest : latest tells view.agentId (unread { w with hub := s }) = some (some view) := by
      rcases unread_concat hw hrx hbcast with hunread | ⟨-, hunread⟩
      · rw [hunread, hlast]
      · rw [hunread, hlast]
    apply (outlook_of_some hlatest).mpr
    exact hok.trans hview.symm

/-- The outlook stays when the task receives nothing and what it has sent stays right. -/
theorem Outlook.sent {w : World Report} {B : Uuid} (h : Outlook db w B) {a : Admin Report}
    (hrx : a.rx = w.admin.rx)
    (hsent : SentOk db w B → SentOk db { w with admin := a } B) :
    Outlook db { w with admin := a } B := by
  have hunread : unread { w with admin := a } = unread w := by
    unfold unread kept
    dsimp only
    rw [hrx]
  have hlagged : Lagged w → Lagged { w with admin := a } := by
    unfold Lagged Admin.lagged
    dsimp only
    rw [hrx]
    exact id
  exact h.congr (by rw [hunread]) rfl (Or.imp hlagged hsent)

theorem Outlook.deliver {w : World Report} {B : Uuid} (h : Outlook db w B) :
    Outlook db { w with admin := w.admin.deliver } B := by
  have hsame : w.admin.deliver.rx = w.admin.rx ∧ w.admin.deliver.task = w.admin.task := by
    unfold Admin.deliver
    cases w.admin.socket with
    | nil => exact ⟨rfl, rfl⟩
    | cons msg rest => exact ⟨rfl, rfl⟩
  apply h.sent hsame.1
  unfold SentOk
  dsimp only
  rw [hsame.2, Admin.arriving_deliver]
  exact id

/-- The task of the admin keeps the outlook by each of its steps. -/
theorem Outlook.admin {w : World Report} (hw : Ready db w) {B : Uuid} (h : Outlook db w B)
    {a : Admin Report} (hmove : AdminMove db w.hub.registry w.admin a) :
    Outlook db { w with admin := a } B := by
  cases hmove with
  | stay => exact h
  | begin htask =>
    refine h.sent rfl fun _ => ?_
    apply (sentOk_of_snapshot rfl).mpr
    exact snapshotOk_begin _ B
  | build done A todo build htask =>
    refine h.sent rfl fun hsent => ?_
    apply (sentOk_of_snapshot rfl).mpr
    exact ((sentOk_of_snapshot htask).mp hsent).build
  | add done A todo view htask =>
    obtain ⟨hnodup, hknown, hown⟩ := hw.listed done (A :: todo) _ htask
    refine h.sent rfl fun hsent => ?_
    apply (sentOk_of_snapshot rfl).mpr
    exact ((sentOk_of_snapshot htask).mp hsent).add hnodup (hknown A List.mem_cons_self)
      (hown A rfl)
  | send done build htask =>
    refine h.sent rfl fun hsent => ?_
    have hdone : insertAll (fun _ => none) done B = w.hub.registry.agentView db B := by
      have hok := (sentOk_of_snapshot htask).mp hsent
      unfold SnapshotOk at hok
      rwa [if_neg List.not_mem_nil] at hok
    refine (arriving_send (.snapshot done) ?_ ?_ ?_).mpr hdone
    · dsimp only
      split
      · exact Or.inr rfl
      · exact Or.inl rfl
    · rfl
    · rfl
  | subscribe htask =>
    have hrx := hw.early (Or.inr htask)
    have hsent : SentOk db w B := by
      have hnone : latest tells B (unread w) = none := by
        rw [unread_of_none hrx]
        rfl
      exact ((outlook_of_none hnone).mp h).resolve_left (not_lagged_of_none hrx)
    apply (outlook_of_none ?_).mpr
    · apply Or.inr
      apply (sentOk_of_served (Or.inr rfl)).mpr
      exact (sentOk_of_served (Or.inl htask)).mp hsent
    · rw [unread_of_some (show _ = some w.hub.registry.bcast.length from rfl),
        List.drop_eq_nil_of_le]
      · rfl
      · exact Nat.le_max_left _ _
  | resync pos htask hrx hlagged =>
    have hbehind := (lagged_iff hrx).mp hlagged
    generalize ha : ({ w.admin with
      rx := some (w.hub.registry.bcast.length - capacity) }.beginSnapshot db) = a
    have hrx' : a.rx = some (w.hub.registry.bcast.length - capacity) := by
      rw [← ha]
      rfl
    have htask' : a.task = .snapshot [] (db.laptops.map Prod.fst) .start := by
      rw [← ha]
      rfl
    have hunread : unread { w with admin := a } = unread w := by
      rw [unread_of_some hrx, unread_of_some (w := { w with admin := a }) hrx', Nat.max_self,
        Nat.max_eq_right (by omega)]
    refine h.congr ?_ rfl fun _ => Or.inr ?_
    · rw [hunread]
    · exact (sentOk_of_snapshot htask').mpr (snapshotOk_begin _ B)
  | pass pos msg htask hrx hlagged hmsg =>
    have hahead : ¬ Lagged w := by
      unfold Lagged
      rw [hlagged]
      exact Bool.false_ne_true
    have hkept : w.hub.registry.bcast.length ≤ pos + capacity :=
      Nat.le_of_not_lt fun h => hahead ((lagged_iff hrx).mpr h)
    have hpos : pos < w.hub.registry.bcast.length := (List.getElem?_eq_some_iff.mp hmsg).1
    have hget : w.hub.registry.bcast[pos] = msg := (List.getElem?_eq_some_iff.mp hmsg).2
    generalize ha : ({ w.admin with
      rx := some (pos + 1), socket := w.admin.socket ++ [msg] } : Admin Report) = a
    have hrx' : a.rx = some (pos + 1) := by rw [← ha]
    have hunread : unread w = msg :: unread { w with admin := a } := by
      rw [unread_of_some hrx, unread_of_some (w := { w with admin := a }) hrx']
      dsimp only
      rw [Nat.max_eq_left (by omega), Nat.max_eq_left (by omega),
        List.drop_eq_getElem_cons hpos, hget]
    have hsent : SentOk db { w with admin := a } B ↔
        (tells msg B).getD (w.admin.arriving B) = w.hub.registry.agentView db B := by
      rw [← ha]
      exact arriving_send msg (Or.inr htask) rfl rfl
    cases hrest : latest tells B (unread { w with admin := a }) with
    | some view =>
      apply (outlook_of_some hrest).mpr
      have hlatest : latest tells B (unread w) = some view := by
        rw [hunread, latest_cons, hrest]
        rfl
      exact (outlook_of_some hlatest).mp h
    | none =>
      apply (outlook_of_none hrest).mpr
      apply Or.inr
      apply hsent.mpr
      have hlatest : latest tells B (unread w) = tells msg B := by
        rw [hunread, latest_cons, hrest]
        rfl
      cases htells : tells msg B with
      | some view => exact (outlook_of_some (hlatest.trans htells)).mp h
      | none =>
        have hold := ((outlook_of_none (hlatest.trans htells)).mp h).resolve_left hahead
        exact (sentOk_of_served (Or.inr htask)).mp hold

end KmControl.AdminOutlook
