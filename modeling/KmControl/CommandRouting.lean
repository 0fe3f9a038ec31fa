import KmControl.CommandTable

/-!
Where the results of commands go in a run in which no id is drawn twice and a drawn id
is reported only by a connection that it was sent to: every step keeps the waiters, the
commands and the results with those that they are for.
-/
namespace KmControl.CommandRouting

open Hub hiding State Op Response step machine
open HubSteps (Sound)
open Commands CommandSteps CommandTable

variable {Report Args : Type} {db : Db} {low : Report → Bool}
  {ids : List Uuid} {reported : Uuid → CommandResult → Prop}

theorem routed_call {s t : State Report Args} (h : Routed db ids reported s) {k : CallId}
    {call : Call Args} {input : CallInput} {phase : CallPhase} (hget : s.calls k = some call)
    (hmove : CallMove s k call input phase t) : Routed db ids reported t := by
  have hlater := hmove.later
  cases hmove with
  | stay => exact h
  | offline hphase =>
    apply h.setPhase hget hlater nofun ?_ nofun
    intro hpending
    obtain ⟨other, hother, -, hwaiting⟩ := h.pending _ k hpending
    rw [hget] at hother
    cases hother
    rw [hphase] at hwaiting
    exact hwaiting
  | online connId hphase hregistered =>
    apply h.setPhase hget hlater ?_ ?_ nofun
    · intro other hother
      obtain ⟨conn, hconn, hagent, -⟩ := h.sound.live _ connId hregistered
      rcases hother with hother | hother <;> cases hother
      exact ⟨conn, hconn, hagent⟩
    · intro hpending
      obtain ⟨other, hother, -, hwaiting⟩ := h.pending _ k hpending
      rw [hget] at hother
      cases hother
      rw [hphase] at hwaiting
      exact hwaiting
  | insert connId hphase =>
    have hsent : Routed db ids reported (s.setPhase k call (.send connId)) := by
      apply h.setPhase hget hlater ?_ (fun _ => trivial) nofun
      intro other hother
      rcases hother with hother | hother <;> cases hother
      exact h.target k call connId hget (Or.inl hphase)
    have hnone : ∀ result, ¬ Mine reported s k result := by
      intro result hmine
      obtain ⟨other, hother, -, -, hinserted⟩ := hmine
      rw [hget] at hother
      cases hother
      rw [hphase] at hinserted
      exact hinserted
    have hawaits : Awaits s k := by
      constructor
      · rw [Option.eq_none_iff_forall_ne_some]
        exact fun result hvalue => hnone result (h.value k result hvalue)
      · exact fun connId result hhanding => hnone result (h.handing connId k result hhanding)
    exact hsent.insertWaiter (setPhase_self s k call _) rfl trivial hawaits
  | send connId hphase =>
    exact (h.push hget hphase).setPhase hget hlater nofun (fun _ => trivial) nofun
  | fail | dropped | timeout | leave =>
    exact h.setPhase hget hlater nofun (fun _ => trivial) nofun
  | receive result hphase hvalue =>
    apply h.setPhase hget hlater nofun
    · intro hpending
      have hnone := (h.awaits _ k hpending).1
      rw [hvalue] at hnone
      cases hnone
    · intro other hother
      cases hother
      exact h.value k result hvalue
  | finish status message hphase =>
    apply (h.removeWaiter call.commandId).setPhase ?_ hlater nofun ?_ nofun
    · rw [removeWaiter_calls, hget]
    · exact fun hpending => absurd rfl (pending_of_removeWaiter hpending).1

theorem routed_runCommand {s : State Report Args} (h : Routed db ids reported s) (agentId : Uuid)
    (req : CommandApiReq Args) (commandId : Uuid) :
    Routed db (ids ++ [commandId]) reported (s.runCommand agentId req commandId) := by
  have hlt : ∀ k call, s.calls k = some call → k < s.nextCall := by
    intro k call hget
    rw [h.count]
    exact (List.getElem?_eq_some_iff.mp (h.number k call hget)).1
  have hnew : ∀ k call, (s.runCommand agentId req commandId).calls k = some call →
      k = s.nextCall ∧ call = ⟨agentId, req, commandId, .lookup⟩ ∨ s.calls k = some call := by
    intro k call hget
    change Function.update s.calls s.nextCall _ k = some call at hget
    by_cases hk : k = s.nextCall
    · rw [hk, Function.update_self] at hget
      exact Or.inl ⟨hk, (Option.some.inj hget).symm⟩
    · rw [Function.update_of_ne hk] at hget
      exact Or.inr hget
  have hold : ∀ k call, s.calls k = some call →
      (s.runCommand agentId req commandId).calls k = some call := by
    intro k call hget
    change Function.update s.calls s.nextCall _ k = some call
    rw [Function.update_of_ne (Nat.ne_of_lt (hlt k call hget)), hget]
  have hmine : ∀ k result, Mine reported s k result →
      Mine reported (s.runCommand agentId req commandId) k result :=
    fun k result hmine => hmine.mono (fun _ => id) fun call hget =>
      ⟨call, hold k call hget, Later.refl call⟩
  refine ⟨h.sound, ?_, ?_, ?_, ?_, ?_, h.awaits, ?_, ?_, ?_⟩
  · rw [List.length_append, ← h.count]
    rfl
  · intro k call hget
    rcases hnew k call hget with ⟨rfl, rfl⟩ | hget
    · rw [h.count, List.getElem?_concat_length]
    · rw [List.getElem?_append_left (h.count ▸ hlt k call hget)]
      exact h.number k call hget
  · intro k call connId hget hphase
    rcases hnew k call hget with ⟨rfl, rfl⟩ | hget
    · rcases hphase with hphase | hphase <;> cases hphase
    · exact h.target k call connId hget hphase
  · intro connId cmd hcmd
    obtain ⟨k, call, conn, hget, hrest⟩ := h.outbox connId cmd hcmd
    exact ⟨k, call, conn, hold k call hget, hrest⟩
  · intro id k hpending
    obtain ⟨call, hget, hrest⟩ := h.pending id k hpending
    exact ⟨call, hold k call hget, hrest⟩
  · exact fun connId k result hget => hmine k result (h.handing connId k result hget)
  · exact fun k result hget => hmine k result (h.value k result hget)
  · intro k result hreceived
    obtain ⟨call, hget, hphase⟩ := received_eq_some_iff.mp hreceived
    rcases hnew k call hget with ⟨rfl, rfl⟩ | hget
    · cases hphase
    · exact hmine k result (h.received k result (received_eq_some_iff.mpr ⟨call, hget, hphase⟩))

/-- The waiter that a result takes out of the table is that of the command which the
connection was sent. -/
theorem routed_commandResult {s : State Report Args} (h : Routed db ids reported s)
    (hfresh : ids.Nodup) {connId : ConnId} {result : CommandResult} {k : CallId}
    (hpending : s.pendingCmds result.commandId = some k)
    (hknown : result.commandId ∈ ids →
      ∃ cmd ∈ s.outbox connId, cmd.commandId = result.commandId)
    (hreported : ∀ conn, s.hub.conns connId = some conn → reported conn.agentId result) :
    Routed db ids reported { s with
      pendingCmds := Function.update s.pendingCmds result.commandId none
      handing := Function.update s.handing connId (some (k, result)) } := by
  obtain ⟨call, hget, hid, hwaiting⟩ := h.pending _ k hpending
  have hmine : Mine reported s k result := by
    have hdrawn : result.commandId ∈ ids := by
      rw [← hid]
      exact List.mem_of_getElem? (h.number k call hget)
    obtain ⟨cmd, hcmd, hsame⟩ := hknown hdrawn
    obtain ⟨l, other, conn, hother, hdrawn, hinserted, hconn, hagent⟩ := h.outbox connId cmd hcmd
    have hown : k = l := by
      apply h.unique hfresh hget hother
      rw [hid, ← hsame, hdrawn]
    subst hown
    rw [hget] at hother
    cases hother
    exact ⟨call, hget, hid.symm, hagent ▸ hreported conn hconn, hinserted⟩
  have hstill : ∀ id l, Function.update s.pendingCmds result.commandId none id = some l →
      id ≠ result.commandId ∧ s.pendingCmds id = some l := by
    intro id l hl
    by_cases heq : id = result.commandId
    · rw [heq, Function.update_self] at hl
      cases hl
    · rw [Function.update_of_ne heq] at hl
      exact ⟨heq, hl⟩
  refine h.of_calls rfl rfl rfl ?_ ?_ ?_ ?_ ?_
  · exact fun _ _ => Or.inl
  · exact fun id l hl => Or.inl (hstill id l hl).2
  · intro id l hl
    obtain ⟨hne, hold⟩ := hstill id l hl
    refine ⟨(h.awaits id l hold).1, fun c other hother => ?_⟩
    dsimp only at hother
    by_cases hc : c = connId
    · rw [hc, Function.update_self] at hother
      cases hother
      obtain ⟨same, hsame, hid', -⟩ := h.pending id k hold
      rw [hget] at hsame
      cases hsame
      exact hne (hid'.symm.trans hid)
    · rw [Function.update_of_ne hc] at hother
      exact (h.awaits id l hold).2 c other hother
  · intro c l other hother
    dsimp only at hother
    by_cases hc : c = connId
    · rw [hc, Function.update_self] at hother
      cases hother
      exact Or.inr hmine
    · rw [Function.update_of_ne hc] at hother
      exact Or.inl hother
  · exact fun _ _ => Or.inl

theorem routed_hand {s : State Report Args} (h : Routed db ids reported s) {connId : ConnId}
    {k : CallId} {result : CommandResult} (hhanding : s.handing connId = some (k, result))
    {value : Option CommandResult} (hvalue : value = some result ∨ value = (s.channels k).value) :
    Routed db ids reported
      { s.close k value with handing := Function.update s.handing connId none } := by
  have hstill : ∀ c l other, Function.update s.handing connId none c = some (l, other) →
      s.handing c = some (l, other) := by
    intro c l other hl
    by_cases hc : c = connId
    · rw [hc, Function.update_self] at hl
      cases hl
    · rwa [Function.update_of_ne hc] at hl
  refine h.of_calls rfl rfl rfl ?_ ?_ ?_ ?_ ?_
  · exact fun _ _ => Or.inl
  · exact fun _ _ => Or.inl
  · intro id l hl
    obtain ⟨hnone, hfree⟩ := h.awaits id l hl
    refine ⟨?_, fun c other hother => hfree c other (hstill c l other hother)⟩
    change (Function.update s.channels k _ l).value = none
    rw [Function.update_of_ne, hnone]
    intro heq
    rw [heq] at hfree
    exact hfree connId result hhanding
  · exact fun c l other hother => Or.inl (hstill c l other hother)
  · intro l other hother
    change (Function.update s.channels k _ l).value = some other at hother
    by_cases hl : l = k
    · rw [hl, Function.update_self] at hother
      rcases hvalue with hvalue | hvalue
      · rw [hvalue] at hother
        cases hother
        exact Or.inr (hl ▸ h.handing connId k result hhanding)
      · rw [hvalue] at hother
        exact Or.inl (hl ▸ hother)
    · rw [Function.update_of_ne hl] at hother
      exact Or.inl hother

theorem routed_mono {reported' : Uuid → CommandResult → Prop} {s : State Report Args}
    (h : Routed db ids reported s)
    (hreported : ∀ agentId result, reported agentId result → reported' agentId result) :
    Routed db ids reported' s := by
  have hmine : ∀ k result, Mine reported s k result → Mine reported' s k result :=
    fun k result hmine => hmine.mono (fun agentId => hreported agentId result) fun call hget =>
      ⟨call, hget, Later.refl call⟩
  exact { h with
    handing := fun connId k result hget => hmine k result (h.handing connId k result hget)
    value := fun k result hget => hmine k result (h.value k result hget)
    received := fun k result hget => hmine k result (h.received k result hget) }

/-- The ids that the handlers draw, in order. -/
def drawn (ops : List (Op Report Args)) : List Uuid :=
  ops.filterMap fun op =>
    match op with
    | .runCommand _ _ commandId => some commandId
    | .hub _ | .call _ _ | .commandResult _ _ | .hand _ => none

theorem drawn_runCommand (ops : List (Op Report Args)) (agentId : Uuid) (req : CommandApiReq Args)
    (commandId : Uuid) : drawn (ops ++ [.runCommand agentId req commandId]) =
      drawn ops ++ [commandId] :=
  List.filterMap_append

theorem drawn_concat (ops : List (Op Report Args)) {op : Op Report Args}
    (hop : ∀ agentId req commandId, op ≠ .runCommand agentId req commandId) :
    drawn (ops ++ [op]) = drawn ops := by
  unfold drawn
  rw [List.filterMap_append]
  cases op with
  | runCommand agentId req commandId => exact absurd rfl (hop agentId req commandId)
  | hub | call | commandResult | hand => exact List.append_nil _

/-- No id is drawn twice, and none is reported but by a connection that it was sent to. -/
structure Secret (db : Db) (low : Report → Bool) (ops : List (Op Report Args)) : Prop where
  fresh : (drawn ops).Nodup
  known : ∀ pre connId result, pre ++ [.commandResult connId result] <+: ops →
    result.commandId ∈ drawn ops →
      ∃ cmd ∈ ((machine db low).run pre).outbox connId, cmd.commandId = result.commandId

theorem Secret.of_prefix {pre ops : List (Op Report Args)} (h : Secret db low ops)
    (hpre : pre <+: ops) : Secret db low pre := by
  have hdrawn : drawn pre <+: drawn ops := hpre.filterMap _
  refine ⟨h.fresh.sublist hdrawn.sublist, fun mid connId result hmid hid => ?_⟩
  exact h.known mid connId result (hmid.trans hpre) (hdrawn.subset hid)

/-- The connection that reports a result was sent its id. -/
def sent (s : State Report Args) : Op Report Args → Bool
  | .commandResult connId result => (s.outbox connId).any (·.commandId == result.commandId)
  | .hub _ | .runCommand _ _ _ | .call _ _ | .hand _ => true

theorem secret_of_sent {ops : List (Op Report Args)} (hfresh : (drawn ops).Nodup)
    (hsent : (machine db low).Along (fun s op => sent s op = true) ops) : Secret db low ops := by
  refine ⟨hfresh, fun pre connId result hpre _ => ?_⟩
  obtain ⟨cmd, hcmd, hid⟩ := List.any_eq_true.mp (hsent pre _ hpre)
  exact ⟨cmd, hcmd, beq_iff_eq.mp hid⟩

/-- A connection of the agent has reported the result. -/
def Reported (db : Db) (low : Report → Bool) (ops : List (Op Report Args)) (agentId : Uuid)
    (result : CommandResult) : Prop :=
  ∃ pre connId conn, pre ++ [.commandResult connId result] <+: ops ∧
    ((machine db low).run pre).hub.conns connId = some conn ∧ conn.agentId = agentId

theorem Reported.of_prefix {pre ops : List (Op Report Args)} {agentId : Uuid}
    {result : CommandResult} (h : Reported db low pre agentId result) (hpre : pre <+: ops) :
    Reported db low ops agentId result := by
  obtain ⟨mid, connId, conn, hmid, hrest⟩ := h
  exact ⟨mid, connId, conn, hmid.trans hpre, hrest⟩

theorem routed_run (ops : List (Op Report Args)) (h : Secret db low ops) :
    Routed db (drawn ops) (Reported db low ops) ((machine db low).run ops) := by
  induction ops using List.reverseRecOn with
  | nil =>
    have hsound : Sound db ((Hub.machine db low).run []) := HubSteps.sound_run []
    exact ⟨hsound, rfl, nofun, nofun, fun _ _ h => absurd h List.not_mem_nil, nofun, nofun, nofun,
      nofun, nofun⟩
  | append_singleton ops op ih =>
    have hpre : ops <+: ops ++ [op] := List.prefix_append _ _
    have hbefore : Routed db (drawn ops) (Reported db low (ops ++ [op]))
        ((machine db low).run ops) :=
      routed_mono (ih (h.of_prefix hpre)) fun _ _ hreported => hreported.of_prefix hpre
    rw [Machine.run_concat]
    by_cases hop : ∃ agentId req commandId, op = .runCommand agentId req commandId
    · obtain ⟨agentId, req, commandId, rfl⟩ := hop
      rw [drawn_runCommand]
      exact routed_runCommand hbefore agentId req commandId
    · have hdrawn : drawn (ops ++ [op]) = drawn ops :=
        drawn_concat ops fun agentId req commandId heq => hop ⟨agentId, req, commandId, heq⟩
      have hfresh := h.fresh
      rw [hdrawn] at hfresh ⊢
      apply step_rule hbefore
      · exact fun o _ => hbefore.hub o
      · exact fun agentId req commandId heq => absurd ⟨agentId, req, commandId, heq⟩ hop
      · exact fun k input call phase t _ hget hmove => routed_call hbefore hget hmove
      · intro connId result k heq _ hpending
        subst heq
        apply routed_commandResult hbefore hfresh hpending
        · intro hid
          exact h.known ops connId result (List.prefix_refl _) (hdrawn ▸ hid)
        · exact fun conn hconn => ⟨ops, connId, conn, List.prefix_refl _, hconn, rfl⟩
      · exact fun connId k result value _ hhanding hvalue => routed_hand hbefore hhanding hvalue

end KmControl.CommandRouting
