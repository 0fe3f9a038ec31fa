import KmControl.Commands

/-!
What a step of a command's handler can do, and what stays of a handler over a run: its
id, that its waiter has been put into the table, its answer, and that no result can
reach it any more.
-/
namespace KmControl.CommandSteps

open Hub hiding State Op Response step machine
open Commands

variable {Report Args : Type} {db : Db} {low : Report → Bool}

section Fields

variable (s : State Report Args) (k : CallId) (call : Call Args) (phase : CallPhase)
  (value : Option CommandResult) (id : Uuid) (connId : ConnId) (cmd : CommandRequest Args)

@[simp] theorem setPhase_self :
    (s.setPhase k call phase).calls k = some { call with phase := phase } :=
  Function.update_self _ _ _

theorem setPhase_of_ne {k l : CallId} (h : l ≠ k) :
    (s.setPhase k call phase).calls l = s.calls l :=
  Function.update_of_ne h _ _

@[simp] theorem removeWaiter_calls : (s.removeWaiter id).calls = s.calls := by
  unfold State.removeWaiter
  split <;> rfl

@[simp] theorem removeWaiter_nextCall : (s.removeWaiter id).nextCall = s.nextCall := by
  unfold State.removeWaiter
  split <;> rfl

@[simp] theorem removeWaiter_hub : (s.removeWaiter id).hub = s.hub := by
  unfold State.removeWaiter
  split <;> rfl

@[simp] theorem removeWaiter_outbox : (s.removeWaiter id).outbox = s.outbox := by
  unfold State.removeWaiter
  split <;> rfl

@[simp] theorem removeWaiter_handing : (s.removeWaiter id).handing = s.handing := by
  unfold State.removeWaiter
  split <;> rfl

theorem removeWaiter_pendingCmds :
    (s.removeWaiter id).pendingCmds = Function.update s.pendingCmds id none := by
  unfold State.removeWaiter
  cases h : s.pendingCmds id with
  | none =>
    dsimp only
    rw [← h, Function.update_eq_self]
  | some k => rfl

theorem removeWaiter_value (l : CallId) :
    ((s.removeWaiter id).channels l).value = (s.channels l).value := by
  unfold State.removeWaiter
  cases s.pendingCmds id with
  | none => rfl
  | some k =>
    change (Function.update s.channels k _ l).value = _
    by_cases hl : l = k
    · rw [hl, Function.update_self]
    · rw [Function.update_of_ne hl]

end Fields

/-- What a handler can do, and the phase that it comes to. -/
inductive CallMove (s : State Report Args) (k : CallId) (call : Call Args) :
    CallInput → CallPhase → State Report Args → Prop
  | stay (input : CallInput) : CallMove s k call input call.phase s
  | offline (hphase : call.phase = .lookup)
    (hregistered : s.hub.registry.registered call.agentId = none) :
    CallMove s k call .go (.answered (.err 409 "agent not online"))
      (s.setPhase k call (.answered (.err 409 "agent not online")))
  | online (connId : ConnId) (hphase : call.phase = .lookup)
    (hregistered : s.hub.registry.registered call.agentId = some connId) :
    CallMove s k call .go (.insert connId) (s.setPhase k call (.insert connId))
  | insert (connId : ConnId) (hphase : call.phase = .insert connId) :
    CallMove s k call .go (.send connId)
      ((s.setPhase k call (.send connId)).insertWaiter call.commandId k)
  | send (connId : ConnId) (hphase : call.phase = .send connId) :
    CallMove s k call .go .wait ((s.push connId call.command).setPhase k call .wait)
  | fail (connId : ConnId) (hphase : call.phase = .send connId) :
    CallMove s k call .fail .unsent (s.setPhase k call .unsent)
  | receive (result : CommandResult) (hphase : call.phase = .wait)
    (hvalue : (s.channels k).value = some result) :
    CallMove s k call .go (.answered (.result result))
      (s.setPhase k call (.answered (.result result)))
  | dropped (hphase : call.phase = .wait) :
    CallMove s k call .go .dropped (s.setPhase k call .dropped)
  | timeout (hphase : call.phase = .wait) :
    CallMove s k call .timeout .timedOut (s.setPhase k call .timedOut)
  | leave (hphase : call.phase = .wait) : CallMove s k call .leave .gone (s.setPhase k call .gone)
  | finish (status : ℕ) (message : String)
    (hphase : call.phase = .unsent ∨ call.phase = .dropped ∨ call.phase = .timedOut) :
    CallMove s k call .go (.answered (.err status message))
      ((s.removeWaiter call.commandId).setPhase k call (.answered (.err status message)))

theorem callMove_callStep (s : State Report Args) (k : CallId) (call : Call Args)
    (input : CallInput) : ∃ phase, CallMove s k call input phase (s.callStep k call input) := by
  unfold State.callStep
  split
  · rename_i hphase
    cases hregistered : s.hub.registry.registered call.agentId with
    | some connId => exact ⟨_, .online connId hphase hregistered⟩
    | none => exact ⟨_, .offline hphase hregistered⟩
  · rename_i connId hphase
    exact ⟨_, .insert connId hphase⟩
  · rename_i connId hphase
    exact ⟨_, .send connId hphase⟩
  · rename_i connId hphase
    exact ⟨_, .fail connId hphase⟩
  · rename_i hphase
    exact ⟨_, .finish _ _ (Or.inl hphase)⟩
  · rename_i hphase
    split
    · rename_i result closed hchannel
      exact ⟨_, .receive result hphase (congrArg Oneshot.value hchannel)⟩
    · exact ⟨_, .dropped hphase⟩
    · exact ⟨_, .stay _⟩
  · rename_i hphase
    exact ⟨_, .timeout hphase⟩
  · rename_i hphase
    exact ⟨_, .leave hphase⟩
  · rename_i hphase
    exact ⟨_, .finish _ _ (Or.inr (Or.inl hphase))⟩
  · rename_i hphase
    exact ⟨_, .finish _ _ (Or.inr (Or.inr hphase))⟩
  · exact ⟨_, .stay _⟩

/-- The waiter has been put into the table. -/
def Inserted : CallPhase → Prop
  | .lookup | .insert _ => False
  | .send _ | .unsent | .wait | .dropped | .timedOut | .answered _ | .gone => True

/-- No result can reach the handler any more. -/
def Unheard : CallPhase → Prop
  | .unsent | .dropped | .timedOut | .gone | .answered (.err _ _) => True
  | .lookup | .insert _ | .send _ | .wait | .answered (.result _) => False

/-- How a handler may go on. -/
structure Later (a b : Call Args) : Prop where
  commandId : b.commandId = a.commandId
  agentId : b.agentId = a.agentId
  inserted : Inserted a.phase → Inserted b.phase
  unheard : Unheard a.phase → Unheard b.phase
  answered : ∀ response, a.phase = .answered response → b.phase = .answered response

theorem Later.refl (a : Call Args) : Later a a := ⟨rfl, rfl, id, id, fun _ => id⟩

theorem Later.trans {a b c : Call Args} (hab : Later a b) (hbc : Later b c) : Later a c where
  commandId := hbc.commandId.trans hab.commandId
  agentId := hbc.agentId.trans hab.agentId
  inserted h := hbc.inserted (hab.inserted h)
  unheard h := hbc.unheard (hab.unheard h)
  answered response h := hbc.answered response (hab.answered response h)

/-- A handler goes on by its moves. -/
theorem CallMove.later {s t : State Report Args} {k : CallId} {call : Call Args}
    {input : CallInput} {phase : CallPhase} (hmove : CallMove s k call input phase t) :
    Later call { call with phase := phase } := by
  have hnew : (Inserted call.phase → Inserted phase) → (Unheard call.phase → Unheard phase) →
      (∀ response, call.phase ≠ .answered response) → Later call { call with phase := phase } :=
    fun hinserted hunheard hopen =>
      ⟨rfl, rfl, hinserted, hunheard, fun response h => absurd h (hopen response)⟩
  cases hmove with
  | stay => exact Later.refl call
  | offline hphase | fail connId hphase | dropped hphase | timeout hphase | leave hphase =>
    rw [hphase] at hnew
    exact hnew (fun _ => trivial) (fun _ => trivial) fun _ => nofun
  | online connId hphase =>
    rw [hphase] at hnew
    exact hnew id id fun _ => nofun
  | insert connId hphase | send connId hphase =>
    rw [hphase] at hnew
    exact hnew (fun _ => trivial) id fun _ => nofun
  | receive result hphase =>
    rw [hphase] at hnew
    exact hnew (fun _ => trivial) False.elim fun _ => nofun
  | finish status message hphase =>
    apply hnew (fun _ => trivial) (fun _ => trivial)
    rcases hphase with hphase | hphase | hphase <;> rw [hphase] <;> exact fun _ => nofun

/-- A handler's step changes its own phase only. -/
theorem CallMove.calls {s t : State Report Args} {k : CallId} {call : Call Args}
    {input : CallInput} {phase : CallPhase} (hget : s.calls k = some call)
    (hmove : CallMove s k call input phase t) :
    t.calls = Function.update s.calls k (some { call with phase := phase }) ∧
      t.nextCall = s.nextCall := by
  cases hmove with
  | stay => exact ⟨by rw [← hget, Function.update_eq_self], rfl⟩
  | offline | online | fail | receive | dropped | timeout | leave | send => exact ⟨rfl, rfl⟩
  | insert connId hphase => exact ⟨removeWaiter_calls _ _, removeWaiter_nextCall _ _⟩
  | finish status message hphase =>
    refine ⟨?_, removeWaiter_nextCall _ _⟩
    exact congrArg (Function.update · k _) (removeWaiter_calls _ _)

/-- The numbers of handlers are fresh. -/
def Numbered (s : State Report Args) : Prop := ∀ k, s.nextCall ≤ k → s.calls k = none

theorem Numbered.lt {s : State Report Args} (h : Numbered s) {k : CallId} {call : Call Args}
    (hget : s.calls k = some call) : k < s.nextCall := by
  apply Nat.lt_of_not_le
  intro hle
  rw [h k hle] at hget
  cases hget

/-- To see what holds after a step, look at the hub, at a new handler, at the moves of the
handlers, and at the two sections in which a connection's task passes a result on. -/
theorem step_rule {I : State Report Args → Prop} {s : State Report Args} {op : Op Report Args}
    (hstay : I s) (hhub : ∀ o, op = .hub o → I { s with hub := Hub.step db low s.hub o })
    (hrun : ∀ agentId req commandId, op = .runCommand agentId req commandId →
      I (s.runCommand agentId req commandId))
    (hcall : ∀ k input call phase t, op = .call k input → s.calls k = some call →
      CallMove s k call input phase t → I t)
    (hresult : ∀ connId result k, op = .commandResult connId result → s.reads connId = true →
      s.pendingCmds result.commandId = some k → I { s with
        pendingCmds := Function.update s.pendingCmds result.commandId none
        handing := Function.update s.handing connId (some (k, result)) })
    (hhand : ∀ connId k result value, op = .hand connId → s.handing connId = some (k, result) →
      value = some result ∨ value = (s.channels k).value →
      I { s.close k value with handing := Function.update s.handing connId none }) :
    I (step db low s op) := by
  cases op with
  | hub op =>
    unfold Commands.step
    dsimp only
    split
    · exact hstay
    · exact hhub op rfl
  | runCommand agentId req commandId => exact hrun agentId req commandId rfl
  | call k input =>
    change I (s.call k input)
    unfold Commands.State.call
    cases hget : s.calls k with
    | none => exact hstay
    | some call =>
      obtain ⟨phase, hmove⟩ := callMove_callStep s k call input
      exact hcall k input call phase _ rfl hget hmove
  | commandResult connId result =>
    change I (s.commandResult connId result)
    unfold State.commandResult
    split
    · rename_i hreads
      cases hpending : s.pendingCmds result.commandId with
      | none => exact hstay
      | some k => exact hresult connId result k rfl hreads hpending
    · exact hstay
  | hand connId =>
    change I (s.hand connId)
    unfold State.hand
    cases hhanding : s.handing connId with
    | none => exact hstay
    | some entry =>
      apply hhand connId entry.1 entry.2 _ rfl hhanding
      split
      · exact Or.inl rfl
      · exact Or.inr rfl

theorem Numbered.step {s : State Report Args} (hs : Numbered s) (op : Op Report Args) :
    Numbered (step db low s op) := by
  apply step_rule hs
  · exact fun o _ => hs
  · intro agentId req commandId _ k hk
    change s.nextCall + 1 ≤ k at hk
    change Function.update s.calls s.nextCall _ k = none
    rw [Function.update_of_ne (Nat.ne_of_gt hk)]
    exact hs k (Nat.le_of_succ_le hk)
  · intro k input call phase t _ hget hmove l hl
    obtain ⟨hcalls, hnext⟩ := hmove.calls hget
    rw [hnext] at hl
    rw [hcalls, Function.update_of_ne (Nat.ne_of_gt (Nat.lt_of_lt_of_le (hs.lt hget) hl))]
    exact hs l hl
  · exact fun _ _ _ _ _ _ => hs
  · exact fun _ _ _ _ _ _ _ => hs

theorem numbered_run (ops : List (Op Report Args)) : Numbered ((machine db low).run ops) :=
  (machine db low).run_invariant (fun _ _ => rfl) (fun _ op hs => hs.step op) ops

/-- A handler goes on from where it is. -/
theorem later_step {s : State Report Args} (hs : Numbered s) {k : CallId} {call : Call Args}
    (hget : s.calls k = some call) (op : Op Report Args) :
    ∃ next, (step db low s op).calls k = some next ∧ Later call next := by
  have hstay : ∃ next, s.calls k = some next ∧ Later call next := ⟨call, hget, Later.refl call⟩
  apply step_rule (I := fun t => ∃ next, t.calls k = some next ∧ Later call next) hstay
  · exact fun _ _ => hstay
  · intro agentId req commandId _
    refine ⟨call, ?_, Later.refl call⟩
    change Function.update s.calls s.nextCall _ k = some call
    rw [Function.update_of_ne (Nat.ne_of_lt (hs.lt hget)), hget]
  · intro l input other phase t _ hother hmove
    rw [(hmove.calls hother).1]
    by_cases hl : k = l
    · subst hl
      rw [hget] at hother
      cases hother
      exact ⟨_, Function.update_self _ _ _, hmove.later⟩
    · rw [Function.update_of_ne hl]
      exact hstay
  · exact fun _ _ _ _ _ _ => hstay
  · exact fun _ _ _ _ _ _ _ => hstay

theorem later_run {pre ops : List (Op Report Args)} (hpre : pre <+: ops) {k : CallId}
    {call : Call Args} (hget : ((machine db low).run pre).calls k = some call) :
    ∃ next, ((machine db low).run ops).calls k = some next ∧ Later call next := by
  have hboth : Numbered ((machine db low).run ops) ∧
      ∃ next, ((machine db low).run ops).calls k = some next ∧ Later call next := by
    apply Machine.run_of_prefix (machine db low) (I := fun s =>
      Numbered s ∧ ∃ next, s.calls k = some next ∧ Later call next) ?_ hpre
    · exact ⟨numbered_run pre, call, hget, Later.refl call⟩
    · intro s op ⟨hs, next, hnext, hlater⟩
      obtain ⟨last, hlast, hthen⟩ := later_step hs hnext op
      exact ⟨hs.step op, last, hlast, hlater.trans hthen⟩
  exact hboth.2

theorem received_eq_some_iff {s : State Report Args} {k : CallId} {result : CommandResult} :
    s.received k = some result ↔
      ∃ call, s.calls k = some call ∧ call.phase = .answered (.result result) := by
  unfold State.received
  rw [Option.bind_eq_some_iff]
  refine exists_congr fun call => and_congr_right fun _ => ?_
  split
  · rename_i other hphase
    rw [hphase]
    constructor
    · intro h
      cases h
      rfl
    · intro h
      cases h
      rfl
  · rename_i hother
    constructor
    · nofun
    · exact fun h => absurd h (hother result)

/-- A caller keeps the result that it has received. -/
theorem received_of_prefix {pre ops : List (Op Report Args)} (hpre : pre <+: ops) {k : CallId}
    {result : CommandResult} (h : ((machine db low).run pre).received k = some result) :
    ((machine db low).run ops).received k = some result := by
  obtain ⟨call, hget, hphase⟩ := received_eq_some_iff.mp h
  obtain ⟨next, hnext, hlater⟩ := later_run hpre hget
  exact received_eq_some_iff.mpr ⟨next, hnext, hlater.answered _ hphase⟩

/-- A handler that no result can reach receives none. -/
theorem received_of_unheard {pre ops : List (Op Report Args)} (hpre : pre <+: ops) {k : CallId}
    {call : Call Args} (hget : ((machine db low).run pre).calls k = some call)
    (hunheard : Unheard call.phase) : ((machine db low).run ops).received k = none := by
  obtain ⟨next, hnext, hlater⟩ := later_run hpre hget
  rw [Option.eq_none_iff_forall_ne_some]
  intro result h
  obtain ⟨last, hlast, hphase⟩ := received_eq_some_iff.mp h
  rw [hnext] at hlast
  cases hlast
  have hstill := hlater.unheard hunheard
  rw [hphase] at hstill
  exact hstill

end KmControl.CommandSteps
