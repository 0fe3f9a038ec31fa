import KmControl.CommandRouting

/-!
What becomes of a result. It changes nothing when its id is unknown, when a result with
the id has been read before, or when the handler has answered; between the timeout and
the handler's next step it takes the waiter which the handler is about to remove, and
gets no further. Any other goes to the handler that drew the id, and only once.
-/
namespace KmControl.CommandResults

open Hub hiding State Op Response step machine
open Commands CommandSteps CommandTable CommandRouting

variable {Report Args : Type} {db : Db} {low : Report → Bool}

theorem commandResult_of_none {s : State Report Args} {connId : ConnId} {result : CommandResult}
    (h : s.pendingCmds result.commandId = none) : s.commandResult connId result = s := by
  unfold State.commandResult
  rw [h]
  exact ite_self _

/-- A waiter is put into the table by the handler that drew its id. -/
theorem pending_step {s : State Report Args} (op : Op Report Args) {id : Uuid} {k : CallId}
    (h : (step db low s op).pendingCmds id = some k) : s.pendingCmds id = some k ∨
      ∃ call connId, s.calls k = some call ∧ call.commandId = id ∧
        call.phase = .insert connId := by
  have hstep : ∀ l, (step db low s op).pendingCmds id = some l → s.pendingCmds id = some l ∨
      ∃ call connId, s.calls l = some call ∧ call.commandId = id ∧
        call.phase = .insert connId := by
    apply step_rule (I := fun t => ∀ l, t.pendingCmds id = some l → s.pendingCmds id = some l ∨
      ∃ call connId, s.calls l = some call ∧ call.commandId = id ∧ call.phase = .insert connId)
    · exact fun _ => Or.inl
    · exact fun _ _ _ => Or.inl
    · exact fun _ _ _ _ _ => Or.inl
    · intro l input call phase t _ hget hmove m hm
      cases hmove with
      | stay | offline | online | send | fail | receive | dropped | timeout | leave =>
        exact Or.inl hm
      | insert connId hphase =>
        change Function.update ((s.setPhase l call _).removeWaiter call.commandId).pendingCmds
          call.commandId (some l) id = some m at hm
        by_cases hid : id = call.commandId
        · rw [hid, Function.update_self] at hm
          cases hm
          exact Or.inr ⟨call, connId, hget, hid.symm, hphase⟩
        · rw [Function.update_of_ne hid] at hm
          exact Or.inl (pending_of_removeWaiter hm).2
      | finish status message hphase => exact Or.inl (pending_of_removeWaiter hm).2
    · intro connId result l _ _ _ m hm
      dsimp only at hm
      by_cases hid : id = result.commandId
      · rw [hid, Function.update_self] at hm
        cases hm
      · rw [Function.update_of_ne hid] at hm
        exact Or.inl hm
    · exact fun _ _ _ _ _ _ _ _ => Or.inl
  exact hstep k h

/-- A handler with the id has put its waiter into the table, and it is there no more. -/
def Spent (s : State Report Args) (id : Uuid) : Prop :=
  s.pendingCmds id = none ∧
    ∃ k call, s.calls k = some call ∧ call.commandId = id ∧ Inserted call.phase

theorem spent_run {pre ops : List (Op Report Args)} (h : Secret db low ops)
    (hpre : pre <+: ops) {id : Uuid} (hspent : Spent ((machine db low).run pre) id) :
    Spent ((machine db low).run ops) id := by
  obtain ⟨more, rfl⟩ := hpre
  induction more using List.reverseRecOn with
  | nil => rwa [List.append_nil]
  | append_singleton more op ih =>
    rw [← List.append_assoc] at h ⊢
    have hbefore := h.of_prefix (List.prefix_append _ _)
    obtain ⟨hnone, k, call, hget, hid, hinserted⟩ := ih hbefore
    rw [Machine.run_concat]
    obtain ⟨next, hnext, hlater⟩ := later_step (numbered_run _) hget op
    refine ⟨?_, k, next, hnext, hlater.commandId.trans hid, hlater.inserted hinserted⟩
    rw [Option.eq_none_iff_forall_ne_some]
    intro l hl
    rcases pending_step op hl with hold | ⟨other, connId, hother, hsame, hphase⟩
    · rw [hnone] at hold
      cases hold
    · have hown := (routed_run _ hbefore).unique hbefore.fresh hget hother (hid.trans hsame.symm)
      subst hown
      rw [hget] at hother
      cases hother
      rw [hphase] at hinserted
      exact hinserted

/-- When a result has been read, the waiter of its id is gone for good. -/
theorem pending_of_read {pre ops : List (Op Report Args)} (h : Secret db low ops)
    {connId : ConnId} {result : CommandResult} (hpre : pre ++ [.commandResult connId result] <+: ops)
    (hreads : ((machine db low).run pre).reads connId = true)
    (hdrawn : result.commandId ∈ drawn ops) :
    ((machine db low).run ops).pendingCmds result.commandId = none := by
  have hbefore : pre <+: ops := (List.prefix_append _ _).trans hpre
  obtain ⟨cmd, hcmd, hsame⟩ := h.known pre connId result hpre hdrawn
  obtain ⟨k, call, conn, hget, hid, hinserted, -⟩ :=
    (routed_run pre (h.of_prefix hbefore)).outbox connId cmd hcmd
  have hspent : Spent ((machine db low).run (pre ++ [.commandResult connId result]))
      result.commandId := by
    rw [Machine.run_concat]
    have hstep : ∃ next, (step db low ((machine db low).run pre)
        (.commandResult connId result)).calls k = some next ∧ Later call next :=
      later_step (numbered_run pre) hget _
    obtain ⟨next, hnext, hlater⟩ := hstep
    refine ⟨?_, k, next, hnext, hlater.commandId.trans (hid.symm.trans hsame),
      hlater.inserted hinserted⟩
    change (State.commandResult _ connId result).pendingCmds _ = none
    unfold State.commandResult
    rw [if_pos hreads]
    cases hpending : ((machine db low).run pre).pendingCmds result.commandId with
    | none => exact hpending
    | some l => exact Function.update_self _ _ _
  exact (spent_run h hpre hspent).1

/-- The id of the result is unknown, or one with the id has been read before, or its
handler has answered. -/
def Stale (db : Db) (low : Report → Bool) (pre : List (Op Report Args)) (result : CommandResult) :
    Prop :=
  result.commandId ∉ drawn pre ∨
  (∃ before connId other, before ++ [.commandResult connId other] <+: pre ∧
    ((machine db low).run before).reads connId = true ∧ other.commandId = result.commandId) ∨
  ∃ k call response, ((machine db low).run pre).calls k = some call ∧
    call.commandId = result.commandId ∧ call.phase = .answered response

theorem pending_of_stale {pre : List (Op Report Args)} (h : Secret db low pre)
    {result : CommandResult} (hstale : Stale db low pre result) :
    ((machine db low).run pre).pendingCmds result.commandId = none := by
  have hrouted := routed_run pre h
  by_cases hdrawn : result.commandId ∈ drawn pre
  · rcases hstale with hunknown | hread | ⟨k, call, response, hget, hid, hphase⟩
    · exact absurd hdrawn hunknown
    · obtain ⟨before, connId, other, hpre, hreads, hid⟩ := hread
      rw [← hid] at hdrawn ⊢
      exact pending_of_read h hpre hreads hdrawn
    · rw [Option.eq_none_iff_forall_ne_some]
      intro l hl
      obtain ⟨other, hother, hsame, hwaiting⟩ := hrouted.pending _ l hl
      have hown := hrouted.unique h.fresh hget hother (hid.trans hsame.symm)
      subst hown
      rw [hget] at hother
      cases hother
      rw [hphase] at hwaiting
      exact hwaiting
  · rw [Option.eq_none_iff_forall_ne_some]
    intro l hl
    obtain ⟨other, hother, hsame, -⟩ := hrouted.pending _ l hl
    apply hdrawn
    rw [← hsame]
    exact List.mem_of_getElem? (hrouted.number l other hother)

theorem handing_of_reads {s : State Report Args} {connId : ConnId}
    (h : s.reads connId = true) : s.handing connId = none := by
  unfold State.reads at h
  split at h
  · rename_i hnone
    exact hnone
  · cases h

/-- A result whose handler listens no more only takes the waiter out of the table. -/
theorem hand_commandResult {s : State Report Args} {connId : ConnId} {result : CommandResult}
    (hreads : s.reads connId = true)
    (hdeaf : ∀ k, s.pendingCmds result.commandId = some k →
      (s.calls k).any (·.phase.listening) = false) :
    (s.commandResult connId result).hand connId = s.removeWaiter result.commandId := by
  have hfree := handing_of_reads hreads
  unfold State.commandResult State.removeWaiter
  rw [if_pos hreads]
  cases hpending : s.pendingCmds result.commandId with
  | none =>
    dsimp only
    unfold State.hand
    rw [hfree]
  | some k =>
    have hback : Function.update (Function.update s.handing connId (some (k, result))) connId none =
        s.handing := by
      rw [Function.update_idem, ← hfree, Function.update_eq_self]
    unfold State.hand
    dsimp only
    rw [Function.update_self]
    dsimp only
    rw [hdeaf k hpending, if_neg Bool.false_ne_true, hback]
    rfl

theorem removeWaiter_idem (s : State Report Args) (id : Uuid) :
    (s.removeWaiter id).removeWaiter id = s.removeWaiter id := by
  have hnone : (s.removeWaiter id).pendingCmds id = none := by
    rw [removeWaiter_pendingCmds, Function.update_self]
  generalize s.removeWaiter id = t at hnone ⊢
  unfold State.removeWaiter
  rw [hnone]

/-- When a handler has timed out, it removes its own waiter in any case. -/
theorem go_removeWaiter {s : State Report Args} {k : CallId} {call : Call Args}
    (hget : s.calls k = some call) (hphase : call.phase = .timedOut) :
    (s.removeWaiter call.commandId).call k .go = s.call k .go := by
  unfold Commands.State.call
  rw [removeWaiter_calls, hget]
  dsimp only
  unfold State.callStep
  rw [hphase]
  dsimp only
  rw [removeWaiter_idem]

theorem late_result {pre : List (Op Report Args)} (h : Secret db low pre) {connId : ConnId}
    {result : CommandResult} {k : CallId} {call : Call Args}
    (hget : ((machine db low).run pre).calls k = some call)
    (hid : call.commandId = result.commandId) (hphase : call.phase = .timedOut)
    (hreads : ((machine db low).run pre).reads connId = true) :
    (machine db low).run (pre ++ [.commandResult connId result, .hand connId, .call k .go]) =
      (machine db low).run (pre ++ [.call k .go]) := by
  rw [Machine.run_append, Machine.run_concat]
  change (((((machine db low).run pre).commandResult connId result).hand connId).call k .go) =
    ((machine db low).run pre).call k .go
  rw [hand_commandResult hreads, ← hid, go_removeWaiter hget hphase]
  intro l hl
  obtain ⟨other, hother, hsame, -⟩ := (routed_run pre h).pending _ l hl
  have hown := (routed_run pre h).unique h.fresh hget hother (hid.trans hsame.symm)
  subst hown
  rw [hget, Option.any_some, hphase]
  rfl

/-- A result gets to no caller when its handler is past listening. -/
theorem not_received_of_unheard {pre ops : List (Op Report Args)} (h : Secret db low ops)
    (hpre : pre <+: ops) {result : CommandResult} {k : CallId} {call : Call Args}
    (hget : ((machine db low).run pre).calls k = some call)
    (hid : call.commandId = result.commandId) (hunheard : Unheard call.phase) (l : CallId) :
    ((machine db low).run ops).received l ≠ some result := by
  intro hreceived
  have hrouted := routed_run ops h
  obtain ⟨next, hnext, hlater⟩ := later_run hpre hget
  obtain ⟨other, hother, hsame, -⟩ := hrouted.received l result hreceived
  have hown := hrouted.unique h.fresh hnext hother ((hlater.commandId.trans hid).trans hsame)
  subst hown
  rw [received_of_unheard hpre hget hunheard] at hreceived
  cases hreceived

/-- Every caller gets at most one result, that of its own command from a connection of the
agent that the command is for. A result that is unknown, read before or too late for an
answer changes nothing; one that comes between a timeout and the handler's next step
gets to no caller and leaves what the handler alone would have left. -/
theorem routing_exact (ops : List (Op Report Args)) (h : Secret db low ops) :
    (∀ pre k result, pre <+: ops → ((machine db low).run pre).received k = some result →
      ((machine db low).run ops).received k = some result) ∧
    (∀ k result, ((machine db low).run ops).received k = some result →
      ∃ call, ((machine db low).run ops).calls k = some call ∧
        result.commandId = call.commandId ∧ Reported db low ops call.agentId result) ∧
    (∀ pre connId result, pre ++ [.commandResult connId result] <+: ops →
      Stale db low pre result →
        (machine db low).run (pre ++ [.commandResult connId result]) = (machine db low).run pre) ∧
    (∀ pre connId result k call, pre ++ [.commandResult connId result] <+: ops →
      ((machine db low).run pre).calls k = some call → call.commandId = result.commandId →
      call.phase = .timedOut →
        (∀ post l, pre <+: post → post <+: ops →
          ((machine db low).run post).received l ≠ some result) ∧
        (((machine db low).run pre).reads connId = true →
          (machine db low).run
              (pre ++ [.commandResult connId result, .hand connId, .call k .go]) =
            (machine db low).run (pre ++ [.call k .go]))) := by
  refine ⟨fun pre k result hpre => received_of_prefix hpre, ?_, ?_, ?_⟩
  · intro k result hreceived
    obtain ⟨call, hget, hid, hreported, -⟩ := (routed_run ops h).received k result hreceived
    exact ⟨call, hget, hid, hreported⟩
  · intro pre connId result hpre hstale
    rw [Machine.run_concat]
    apply commandResult_of_none
    exact pending_of_stale (h.of_prefix ((List.prefix_append _ _).trans hpre)) hstale
  · intro pre connId result k call hpre hget hid hphase
    have hbefore : pre <+: ops := (List.prefix_append _ _).trans hpre
    refine ⟨fun post l hpost hops => ?_, late_result (h.of_prefix hbefore) hget hid hphase⟩
    apply not_received_of_unheard (h.of_prefix hops) hpost hget hid
    rw [hphase]
    trivial

def oneLaptop : Db := .single (0, "student-01")

/-- An agent connects, and a command is sent to it. -/
def asking : List (Op Unit Unit) :=
  .hub (.hello 0 none "100.64.0.7") :: List.replicate 6 (.hub (.conn 1 .go)) ++
    .runCommand 0 ⟨"hostname", false, none⟩ 7 :: List.replicate 3 (.call 0 .go)

def hostname : CommandResult := ⟨7, some 0, "student-01", "", none⟩

def answering : List (Op Unit Unit) :=
  asking ++ [.commandResult 1 hostname, .hand 1, .call 0 .go]

theorem answering_exact :
    ∃ call, ((machine oneLaptop fun _ => false).run answering).calls 0 = some call ∧
      hostname.commandId = call.commandId ∧
        Reported oneLaptop (fun _ => false) answering call.agentId hostname :=
  (routing_exact answering (secret_of_sent (by decide)
    (Machine.along_of_alongFrom (by decide)))).2.1 0 hostname (by decide)

/-- The result comes when the timer has run out and the waiter is still in the table. -/
def late : List (Op Unit Unit) := asking ++ [.call 0 .timeout]

theorem late_result_taken :
    Secret oneLaptop (fun _ => false) (late ++ [.commandResult 1 hostname]) ∧
    (((machine oneLaptop fun _ => false).run late).calls 0).map (fun call =>
      (call.commandId, call.phase)) = some (hostname.commandId, .timedOut) ∧
    (machine oneLaptop fun _ => false).run (late ++ [.commandResult 1 hostname]) ≠
      (machine oneLaptop fun _ => false).run late := by
  refine ⟨secret_of_sent (by decide) (Machine.along_of_alongFrom (by decide)), by decide, ?_⟩
  intro h
  have hpending := congrFun (congrArg State.pendingCmds h) hostname.commandId
  revert hpending
  decide

end KmControl.CommandResults
