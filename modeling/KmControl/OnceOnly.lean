import KmControl.CommandSteps
import KmControl.HubClient
import Mathlib.Data.List.Perm.Basic

/-!
A step of a tool's call is sent to the agent at most once, whatever is refused, lost or
restarted: a handler sends its command once, the client asks for a step again only where no
handler was started for it, and a request that was given up is asked for no more. Where the
call is to stop at a failure, a step is sent only after all before it have succeeded.
-/
namespace KmControl.OnceOnly

open Hub Commands CommandSteps HubClient

variable {Report Args : Type} {db : Db} {low : Report → Bool}

section Handlers

/-- The handler has nothing to send any more. -/
def Past : CallPhase → Prop
  | .lookup | .insert _ | .send _ => False
  | .unsent | .wait | .dropped | .timedOut | .answered _ | .gone => True

/-- The handler has sent its command. -/
def Sent : CallPhase → Prop
  | .wait | .dropped | .timedOut | .answered (.result _) | .gone => True
  | .lookup | .insert _ | .send _ | .unsent | .answered (.err _ _) => False

/-- A handler goes on with the same command. -/
structure Onward (a b : Call Args) : Prop where
  agentId : b.agentId = a.agentId
  req : b.req = a.req
  past : Past a.phase → Past b.phase

theorem Onward.refl (a : Call Args) : Onward a a := ⟨rfl, rfl, id⟩

variable {s t : Commands.State Report Args} {k : CallId} {call : Call Args}
  {input : CallInput} {phase : CallPhase}

theorem onward_of_move (hmove : CallMove s k call input phase t) :
    Onward call { call with phase := phase } := by
  refine ⟨rfl, rfl, fun hpast => ?_⟩
  cases hmove with
  | stay => exact hpast
  | online connId hphase | insert connId hphase =>
    rw [hphase] at hpast
    exact hpast.elim
  | offline | send | fail | receive | dropped | timeout | leave | finish => trivial

/-- Only by sending does a handler come to have sent. -/
theorem sent_of_move (hmove : CallMove s k call input phase t) (hsent : Sent phase) :
    Sent call.phase ∨ ∃ connId, call.phase = .send connId ∧ input = .go := by
  cases hmove with
  | stay => exact Or.inl hsent
  | send connId hphase => exact Or.inr ⟨connId, hphase, rfl⟩
  | receive result hphase | dropped hphase | timeout hphase | leave hphase =>
    rw [hphase]
    exact Or.inl trivial
  | offline | online | insert | fail | finish => exact hsent.elim

theorem onward_step (hs : Numbered s) (hget : s.calls k = some call)
    (op : Commands.Op Report Args) :
    ∃ next, (Commands.step db low s op).calls k = some next ∧ Onward call next := by
  have hstay : ∃ next, s.calls k = some next ∧ Onward call next := ⟨call, hget, .refl call⟩
  apply step_rule (I := fun t => ∃ next, t.calls k = some next ∧ Onward call next) hstay
  · exact fun _ _ => hstay
  · intro agentId req commandId _
    refine ⟨call, ?_, .refl call⟩
    change Function.update s.calls s.nextCall _ k = some call
    rw [Function.update_of_ne (Nat.ne_of_lt (hs.lt hget)), hget]
  · intro l input other phase t _ hother hmove
    rw [(hmove.calls hother).1]
    by_cases hl : k = l
    · subst hl
      rw [hget] at hother
      cases hother
      exact ⟨_, Function.update_self _ _ _, onward_of_move hmove⟩
    · rw [Function.update_of_ne hl]
      exact hstay
  · exact fun _ _ _ _ _ _ => hstay
  · exact fun _ _ _ _ _ _ _ => hstay

/-- What is sent in a step of the hub, with the number of the handler. -/
inductive Sending (s t : Commands.State Report Args) (op : Commands.Op Report Args) : Prop
  | push (k : CallId) (call : Call Args) (connId : ConnId) (hop : op = .call k .go)
    (hget : s.calls k = some call) (hphase : call.phase = .send connId)
    (ht : t = (s.push connId call.command).setPhase k call .wait) : Sending s t op
  | quiet (hop : ∀ k call connId, op = .call k .go → s.calls k = some call →
      call.phase ≠ .send connId)
    (houtbox : t.outbox = s.outbox)
    (hsent : ∀ k next, t.calls k = some next → Sent next.phase →
      ∃ call, s.calls k = some call ∧ Sent call.phase) : Sending s t op

theorem Sending.of_calls {op : Commands.Op Report Args}
    (hop : ∀ k call connId, op = .call k .go → s.calls k = some call →
      call.phase ≠ .send connId)
    (houtbox : t.outbox = s.outbox) (hcalls : t.calls = s.calls) : Sending s t op :=
  .quiet hop houtbox fun k next hnext hsent => ⟨next, hcalls ▸ hnext, hsent⟩

/-- A handler's move sends nothing, if it is not the sending. -/
theorem quiet_of_move {op : Commands.Op Report Args} (hop : op = .call k input)
    (hget : s.calls k = some call) (hmove : CallMove s k call input phase t)
    (hpush : ∀ connId, input = .go → call.phase ≠ .send connId) : Sending s t op := by
  refine .quiet ?_ ?_ ?_
  · intro l other connId hother hget'
    rw [hop] at hother
    cases hother
    rw [hget] at hget'
    cases hget'
    exact hpush connId rfl
  · cases hmove with
    | send connId hphase => exact absurd hphase (hpush connId rfl)
    | stay | offline | online | fail | receive | dropped | timeout | leave => rfl
    | insert | finish => exact removeWaiter_outbox _ _
  · intro l next hnext hsent
    rw [(hmove.calls hget).1] at hnext
    by_cases hl : l = k
    · subst hl
      rw [Function.update_self] at hnext
      cases hnext
      rcases sent_of_move hmove hsent with hbefore | ⟨connId, hphase, hgo⟩
      · exact ⟨call, hget, hbefore⟩
      · exact absurd hphase (hpush connId hgo)
    · rw [Function.update_of_ne hl] at hnext
      exact ⟨next, hnext, hsent⟩

theorem sending_call (s : Commands.State Report Args) (k : CallId) (input : CallInput) :
    Sending s (s.call k input) (.call k input) := by
  unfold Commands.State.call
  cases hget : s.calls k with
  | none =>
    refine .of_calls ?_ rfl rfl
    intro l other connId hother hget'
    cases hother
    rw [hget] at hget'
    cases hget'
  | some call =>
    by_cases hpush : ∃ connId, input = .go ∧ call.phase = .send connId
    · obtain ⟨connId, rfl, hphase⟩ := hpush
      refine .push k call connId rfl hget hphase ?_
      dsimp only
      unfold Commands.State.callStep
      rw [hphase]
    · obtain ⟨phase, hmove⟩ := callMove_callStep s k call input
      exact quiet_of_move rfl hget hmove fun connId hgo hphase => hpush ⟨connId, hgo, hphase⟩

theorem sending_step (s : Commands.State Report Args) (op : Commands.Op Report Args) :
    Sending s (Commands.step db low s op) op := by
  by_cases hcall : ∃ k input, op = .call k input
  · obtain ⟨k, input, rfl⟩ := hcall
    exact sending_call s k input
  · have hno : ∀ k call connId, op = .call k .go → s.calls k = some call →
        call.phase ≠ .send connId := fun k _ _ hop => absurd ⟨k, .go, hop⟩ hcall
    apply step_rule (I := fun t => Sending s t op) (.of_calls hno rfl rfl)
    · exact fun _ _ => .of_calls hno rfl rfl
    · intro agentId req commandId _
      refine .quiet hno rfl fun k next hnext hsent => ?_
      change Function.update s.calls s.nextCall _ k = some next at hnext
      by_cases hk : k = s.nextCall
      · rw [hk, Function.update_self] at hnext
        cases hnext
        exact hsent.elim
      · rw [Function.update_of_ne hk] at hnext
        exact ⟨next, hnext, hsent⟩
    · exact fun k input _ _ _ hop => absurd ⟨k, input, hop⟩ hcall
    · exact fun _ _ _ _ _ _ => .of_calls hno rfl rfl
    · exact fun _ _ _ _ _ _ _ => .of_calls hno rfl rfl

end Handlers

section Logs

/-- What the log of the pushes says of the hub in its present life. -/
structure Logged (life : ℕ) (s : Commands.State Report Args) (log : List (Push Args)) :
    Prop where
  numbered : Numbered s
  nodup : (log.map fun p => (p.life, p.id)).Nodup
  /-- A handler that is in the log sends no more. -/
  past : ∀ p ∈ log, p.life < life ∨
    p.life = life ∧ ∃ call, s.calls p.id = some call ∧ Past call.phase
  sent : ∀ k call, s.calls k = some call → Sent call.phase → ∃ p ∈ log, p.life = life ∧ p.id = k
  outbox : ∀ connId, s.outbox connId =
    ((log.filter fun p => p.life = life ∧ p.connId = connId).map (·.call.command)).reverse

variable {w : World Report Args} {log : List (Push Args)}

theorem push_of_send {k : CallId} {call : Call Args} {connId : ConnId}
    (hget : w.commands.calls k = some call) (hphase : call.phase = .send connId) :
    push w (.hub (.call k .go)) = some ⟨w.life, k, connId, call⟩ := by
  unfold push
  dsimp only
  rw [hget, Option.bind_some, hphase]

theorem push_of_quiet {op : Commands.Op Report Args}
    (hop : ∀ k call connId, op = .call k .go → w.commands.calls k = some call →
      call.phase ≠ .send connId) : push w (.hub op) = none := by
  unfold push
  split
  · rename_i k heq
    cases heq
    rw [Option.bind_eq_none_iff]
    intro call hget
    split
    · rename_i connId hphase
      exact absurd hphase (hop k call connId rfl hget)
    · rfl
  · rfl

theorem push_eq_some {op : HubClient.Op Report Args} {p : Push Args} (h : push w op = some p) :
    p.life = w.life ∧ w.commands.calls p.id = some p.call := by
  unfold push at h
  split at h
  · rename_i k
    obtain ⟨call, hget, hphase⟩ := Option.bind_eq_some_iff.mp h
    split at hphase
    · cases hphase
      exact ⟨rfl, hget⟩
    · cases hphase
  · cases h

/-- The handlers that were past their sending stay so. -/
theorem Logged.past_step (h : Logged w.life w.commands log) (op : Commands.Op Report Args) :
    ∀ p ∈ log, p.life < w.life ∨ p.life = w.life ∧
      ∃ call, (Commands.step db low w.commands op).calls p.id = some call ∧ Past call.phase := by
  intro p hp
  rcases h.past p hp with hold | ⟨hlife, call, hget, hpast⟩
  · exact Or.inl hold
  · obtain ⟨next, hnext, honward⟩ := onward_step h.numbered hget op
    exact Or.inr ⟨hlife, next, hnext, honward.past hpast⟩

theorem Logged.push (h : Logged w.life w.commands log) {k : CallId} {call : Call Args}
    {connId : ConnId} (hget : w.commands.calls k = some call)
    (hphase : call.phase = .send connId)
    (hstep : Commands.step db low w.commands (.call k .go) =
      (w.commands.push connId call.command).setPhase k call .wait) :
    Logged w.life (Commands.step db low w.commands (.call k .go))
      (⟨w.life, k, connId, call⟩ :: log) where
  numbered := h.numbered.step _
  nodup := by
    rw [List.map_cons, List.nodup_cons]
    refine ⟨fun hmem => ?_, h.nodup⟩
    obtain ⟨p, hp, heq⟩ := List.mem_map.mp hmem
    obtain ⟨hlife, hid⟩ := Prod.mk.inj heq
    rcases h.past p hp with hold | ⟨-, other, hother, hpast⟩
    · exact absurd hlife (Nat.ne_of_lt hold)
    · rw [hid, hget] at hother
      cases hother
      rw [hphase] at hpast
      exact hpast
  past p hp := by
    rcases List.mem_cons.mp hp with rfl | hp
    · refine Or.inr ⟨rfl, { call with phase := .wait }, ?_, trivial⟩
      rw [hstep]
      exact Function.update_self _ _ _
    · exact h.past_step _ p hp
  sent l next hnext hsent := by
    by_cases hl : l = k
    · exact ⟨_, List.mem_cons_self, rfl, hl.symm⟩
    · rw [hstep] at hnext
      change Function.update w.commands.calls k _ l = some next at hnext
      rw [Function.update_of_ne hl] at hnext
      obtain ⟨p, hp, hlife, hid⟩ := h.sent l next hnext hsent
      exact ⟨p, List.mem_cons_of_mem _ hp, hlife, hid⟩
  outbox c := by
    rw [hstep]
    change Function.update w.commands.outbox connId _ c = _
    by_cases hc : c = connId
    · subst hc
      rw [Function.update_self, h.outbox c, List.filter_cons_of_pos (by simp), List.map_cons,
        List.reverse_cons]
    · rw [Function.update_of_ne hc, h.outbox c, List.filter_cons_of_neg (by simp [Ne.symm hc])]

theorem Logged.step (h : Logged w.life w.commands log) (op : Commands.Op Report Args) :
    Logged w.life (Commands.step db low w.commands op)
      ((HubClient.push w (.hub op)).toList ++ log) := by
  have hsending : Sending w.commands (Commands.step db low w.commands op) op := sending_step _ op
  cases hsending with
  | push k call connId hop hget hphase ht =>
    subst hop
    rw [push_of_send hget hphase]
    exact h.push hget hphase ht
  | quiet hop houtbox hsent =>
    rw [push_of_quiet hop]
    refine ⟨h.numbered.step _, h.nodup, h.past_step op, ?_, fun c => ?_⟩
    · intro k next hnext hphase
      obtain ⟨call, hget, hcall⟩ := hsent k next hnext hphase
      exact h.sent k call hget hcall
    · rw [houtbox]
      exact h.outbox c

/-- A restart leaves the log of a life that is over. -/
theorem Logged.restart {life : ℕ} {s : Commands.State Report Args} (h : Logged life s log) :
    Logged (life + 1) (Commands.State.new : Commands.State Report Args) log := by
  have hold : ∀ p ∈ log, p.life < life + 1 := by
    intro p hp
    rcases h.past p hp with hlt | ⟨heq, -⟩
    · exact Nat.lt_succ_of_lt hlt
    · exact Nat.lt_succ_of_le heq.le
  refine ⟨fun _ _ => rfl, h.nodup, fun p hp => Or.inl (hold p hp), nofun, fun c => ?_⟩
  rw [List.filter_eq_nil_iff.mpr]
  · rfl
  · intro p hp
    have hne := Nat.ne_of_lt (hold p hp)
    simp [hne]

end Logs

section Steps

variable {job : Job Args}

/-- The steps that a handler was started for, and those that one may still be started for. -/
def asked (job : Job Args) : List ℕ := job.accepted.map (·.step) ++ job.strays.map Prod.fst

/-- No step is asked for again. -/
structure Asked (job : Job Args) : Prop where
  nodup : (asked job).Nodup
  reached : ∀ i ∈ asked job,
    i < job.results.length ∨ i = job.results.length ∧ job.phase.started = true

theorem Asked.not_mem (h : Asked job) (hphase : job.phase.started = false) :
    job.results.length ∉ asked job := by
  intro hmem
  rcases h.reached _ hmem with hlt | ⟨-, hstarted⟩
  · exact absurd hlt (Nat.lt_irrefl _)
  · rw [hphase] at hstarted
    cases hstarted

theorem Asked.finish (h : Asked job) (outcome : CommandOutcome) : Asked (job.finish outcome) where
  nodup := h.nodup
  reached i hi := by
    left
    change i < (job.results ++ [outcome]).length
    rw [List.length_append, List.length_singleton, Nat.lt_succ_iff]
    rcases h.reached i hi with hlt | ⟨rfl, -⟩
    · exact hlt.le
    · exact Nat.le_refl _

/-- A step is asked for that was not before. -/
theorem Asked.cons {job' : Job Args} (h : Asked job)
    (hphase : job.phase.started = false)
    (hasked : (asked job').Perm (job.results.length :: asked job))
    (hresults : job'.results.length = job.results.length ∧ job'.phase.started = true ∨
      job'.results.length = job.results.length + 1) : Asked job' where
  nodup := hasked.nodup_iff.mpr (List.nodup_cons.mpr ⟨h.not_mem hphase, h.nodup⟩)
  reached i hi := by
    have hle : i ≤ job.results.length := by
      rcases List.mem_cons.mp (hasked.mem_iff.mp hi) with rfl | hi
      · exact Nat.le_refl _
      · rcases h.reached i hi with hlt | ⟨rfl, -⟩
        · exact hlt.le
        · exact Nat.le_refl _
    rcases hresults with ⟨hlength, hstarted⟩ | hlength
    · rw [hlength]
      exact hle.lt_or_eq.imp_right fun heq => ⟨heq, hstarted⟩
    · rw [hlength]
      exact Or.inl (Nat.lt_succ_of_le hle)

/-- Less is asked for, or the same in another way. -/
theorem Asked.of_subperm {job' : Job Args} (h : Asked job)
    (hasked : (asked job').Subperm (asked job))
    (hlength : job'.results.length = job.results.length)
    (hstarted : job.phase.started = true → job'.phase.started = true) : Asked job' where
  nodup := by
    obtain ⟨l, hperm, hsub⟩ := hasked
    exact hperm.nodup_iff.mp (h.nodup.sublist hsub)
  reached i hi := by
    rw [hlength]
    exact (h.reached i (hasked.subset hi)).imp_right fun ⟨heq, hold⟩ => ⟨heq, hstarted hold⟩

/-- A call that stops at a failure asks for its steps in their order, and goes on only after
a success. -/
structure InOrder (job : Job Args) : Prop where
  range : asked job = List.range (asked job).length
  strays : job.strays.length ≤ 1
  running : job.phase ≠ .ended →
    job.strays = [] ∧ job.accepted.length = job.results.length + job.phase.started.toNat
  ended : job.phase = .ended → (asked job).length ≤ job.results.length
  succeeded : ∀ i < job.results.length, i + 1 < job.results.length ∨ job.phase ≠ .ended →
    ∃ outcome, job.results[i]? = some outcome ∧ outcome.succeeded = true

/-- The step of a request that was given up, beside the other steps. -/
theorem asked_of_stray {n i : ℕ} {token : AdminToken} (hstray : job.strays[n]? = some (i, token)) :
    (i :: (job.accepted.map (·.step) ++ (job.strays.eraseIdx n).map Prod.fst)).Perm
      (asked job) := by
  obtain ⟨hn, hget⟩ := List.getElem?_eq_some_iff.mp hstray
  have hperm : ((i, token) :: job.strays.eraseIdx n).Perm job.strays := by
    rw [← hget]
    exact List.getElem_cons_eraseIdx_perm hn
  exact List.perm_middle.symm.trans ((hperm.map Prod.fst).append_left _)

/-- The only request that was given up is the last one. -/
theorem InOrder.stray (h : InOrder job) {n i : ℕ} {token : AdminToken}
    (hstray : job.strays[n]? = some (i, token)) :
    job.phase = .ended ∧ job.strays = [(i, token)] ∧ n = 0 := by
  obtain ⟨hn, hget⟩ := List.getElem?_eq_some_iff.mp hstray
  have hone : job.strays.length = 1 := Nat.le_antisymm h.strays (Nat.zero_lt_of_lt hn)
  have hzero : n = 0 := Nat.lt_one_iff.mp (hone ▸ hn)
  refine ⟨?_, ?_, hzero⟩
  · by_contra hphase
    rw [(h.running hphase).1] at hone
    cases hone
  · obtain ⟨last, hlast⟩ := List.length_eq_one_iff.mp hone
    subst hzero
    rw [hlast] at hstray ⊢
    exact congrArg (fun e => [e]) (Option.some.inj hstray)

theorem InOrder.phase (h : InOrder job) {began : ℕ} {phase : Phase}
    (hphase : job.phase ≠ .ended) (hnew : phase ≠ .ended)
    (hstarted : phase.started = job.phase.started) :
    InOrder { job with began := began, phase := phase } where
  range := h.range
  strays := h.strays
  running _ := by
    rw [hstarted]
    exact h.running hphase
  ended heq := absurd heq hnew
  succeeded i hi _ := h.succeeded i hi (Or.inr hphase)

theorem started_eq_false_of_ended {phase : Phase} (h : phase = .ended) :
    phase.started = false := by
  subst h
  rfl

/-- After the last result there may be an unfinished step. -/
theorem InOrder.finish (h : InOrder job) (hcontinue : job.continueOnError = false)
    (hphase : job.phase ≠ .ended) {outcome : CommandOutcome}
    (houtcome : outcome.succeeded = true → job.phase.started = true) :
    InOrder (job.finish outcome) := by
  obtain ⟨hstrays, hlength⟩ := h.running hphase
  have hasked : (asked job).length = job.results.length + job.phase.started.toNat := by
    rw [asked, hstrays, List.map_nil, List.append_nil, List.length_map, hlength]
  have hgoes : (job.finish outcome).phase ≠ .ended → outcome.succeeded = true := by
    intro hne
    unfold Job.finish at hne
    dsimp only at hne
    split at hne
    · rename_i hgo
      rw [hcontinue, Bool.or_false] at hgo
      exact hgo.2
    · exact absurd rfl hne
  have hresults : (job.finish outcome).results = job.results ++ [outcome] := rfl
  refine ⟨h.range, h.strays, fun hne => ?_, fun _ => ?_, fun i hi hbefore => ?_⟩
  · refine ⟨hstrays, ?_⟩
    have hnew : (job.finish outcome).phase.started = false := by
      unfold Job.finish
      dsimp only
      split <;> rfl
    rw [hnew, hresults, List.length_append]
    have hold := houtcome (hgoes hne)
    rw [hold] at hlength
    exact hlength
  · change (asked job).length ≤ _
    rw [hasked, hresults, List.length_append]
    exact Nat.add_le_add_left (Bool.toNat_le _) _
  · rw [hresults, List.length_append, List.length_singleton] at hi hbefore
    rw [hresults]
    rcases Nat.lt_succ_iff_lt_or_eq.mp hi with hlt | rfl
    · rw [List.getElem?_append_left hlt]
      exact h.succeeded i hlt (Or.inr hphase)
    · rcases hbefore with hlt | hne
      · exact absurd hlt (Nat.lt_irrefl _)
      · exact ⟨outcome, List.getElem?_concat_length, hgoes hne⟩

/-- The call with a request that it gives up, whose step may still be started. -/
theorem asked_lose (job : Job Args) (token : AdminToken) :
    asked ({ job with strays := job.strays ++ [(job.results.length, token)] }.finish .lost) =
      asked job ++ [job.results.length] := by
  change job.accepted.map (·.step) ++ (job.strays ++ [(job.results.length, token)]).map Prod.fst = _
  rw [List.map_append, ← List.append_assoc]
  rfl

theorem InOrder.lose (h : InOrder job) (hcontinue : job.continueOnError = false)
    (hphase : job.phase ≠ .ended) (hstarted : job.phase.started = false) (token : AdminToken) :
    InOrder
      ({ job with strays := job.strays ++ [(job.results.length, token)] }.finish .lost) := by
  obtain ⟨hstrays, hlength⟩ := h.running hphase
  rw [hstarted] at hlength
  have hasked : (asked job).length = job.results.length := by
    rw [asked, hstrays, List.map_nil, List.append_nil, List.length_map, hlength]
    rfl
  have hended : ({ job with strays := job.strays ++ [(job.results.length, token)] }.finish
      .lost).phase = .ended := by
    unfold Job.finish
    dsimp only
    rw [hcontinue]
    exact if_neg fun hgo => nomatch hgo.2
  refine ⟨?_, ?_, fun hne => absurd hended hne, fun _ => ?_, ?_⟩
  · rw [asked_lose, h.range, hasked, List.length_append, List.length_range, List.length_singleton,
      List.range_succ]
  · change (job.strays ++ [(job.results.length, token)]).length ≤ 1
    rw [hstrays]
    exact Nat.le_refl _
  · rw [asked_lose, List.length_append, hasked]
    change _ ≤ (job.results ++ [CommandOutcome.lost]).length
    rw [List.length_append]
    exact Nat.le_refl _
  · intro i hi hbefore
    change i < (job.results ++ [CommandOutcome.lost]).length at hi
    change i + 1 < (job.results ++ [CommandOutcome.lost]).length ∨ _ at hbefore
    rw [List.length_append, List.length_singleton] at hi hbefore
    rcases hbefore with hlt | hne
    · have hi' := Nat.lt_of_succ_lt_succ hlt
      obtain ⟨outcome, hget, hsucceeded⟩ := h.succeeded i hi' (Or.inr hphase)
      exact ⟨outcome, (List.getElem?_append_left hi').trans hget, hsucceeded⟩
    · exact absurd hended hne

/-- A handler is started for the next step. -/
theorem InOrder.start (h : InOrder job) {life : ℕ} {k : CallId} {accepted : Accepted}
    (hphase : job.phase ≠ .ended) (hstarted : job.phase.started = false)
    (hstep : accepted.step = job.results.length) :
    InOrder { job with
      phase := .waiting life k, accepted := job.accepted ++ [accepted] } := by
  obtain ⟨hstrays, hlength⟩ := h.running hphase
  rw [hstarted] at hlength
  have hasked : asked { job with
      phase := .waiting life k, accepted := job.accepted ++ [accepted] } =
      asked job ++ [job.results.length] := by
    change (job.accepted ++ [accepted]).map (·.step) ++ job.strays.map Prod.fst = _
    rw [asked, hstrays, List.map_append, List.map_singleton, hstep, List.map_nil, List.append_nil,
      List.append_nil]
  have hlast : (asked job).length = job.results.length := by
    rw [asked, hstrays, List.map_nil, List.append_nil, List.length_map, hlength]
    rfl
  refine ⟨?_, h.strays, fun _ => ⟨hstrays, ?_⟩, nofun, fun i hi _ => ?_⟩
  · rw [hasked, h.range, hlast, List.length_append, List.length_range, List.length_singleton,
      List.range_succ]
  · change (job.accepted ++ [accepted]).length = job.results.length + 1
    rw [List.length_append, hlength]
    rfl
  · exact h.succeeded i hi (Or.inr hphase)

/-- The request that was given up is dropped, or a handler is started for it. -/
theorem InOrder.of_stray {job' : Job Args} (h : InOrder job) (hended : job.phase = .ended)
    (hphase : job'.phase = job.phase) (hresults : job'.results = job.results)
    (hstrays : job'.strays = []) (hasked : asked job' <+: asked job) : InOrder job' where
  range := by
    have hprefix := List.prefix_iff_eq_take.mp hasked
    rw [h.range, List.take_range, Nat.min_eq_left hasked.length_le] at hprefix
    exact hprefix
  strays := hstrays ▸ Nat.zero_le 1
  running hne := absurd (hphase.trans hended) hne
  ended _ := by
    rw [hresults]
    exact hasked.length_le.trans (h.ended hended)
  succeeded := by
    rw [hresults, hphase]
    exact h.succeeded

end Steps

section Tokens

variable {tokens : List AdminToken} {life : ℕ} {job : Job Args}

/-- The token was drawn, and a restart may have come after it. -/
def Drawn (tokens : List AdminToken) (life : ℕ) (token : AdminToken) : Prop :=
  token ∈ tokens ∨ token.life < life

def PhaseTokens (tokens : List AdminToken) (life began : ℕ) : Phase → Prop
  | .granted again token | .post again token =>
    Drawn tokens life token ∧ (again = true → began ≤ token.life)
  | .refused again => again = true → began < life
  | .token | .login _ | .waiting _ _ | .replied _ | .ended => True

/-- A command is refused a second time only after a restart. -/
structure Granted (tokens : List AdminToken) (life : ℕ) (job : Job Args) : Prop where
  began : job.began ≤ life
  phase : PhaseTokens tokens life job.began job.phase
  unauthorized : ∀ n, .unauthorized n ∈ job.results → 0 < n

theorem PhaseTokens.mono {tokens' : List AdminToken} {life' began : ℕ} {phase : Phase}
    (h : PhaseTokens tokens life began phase) (hlife : life ≤ life')
    (hdrawn : ∀ token, Drawn tokens life token → Drawn tokens' life' token) :
    PhaseTokens tokens' life' began phase := by
  cases phase with
  | granted again token | post again token => exact ⟨hdrawn token h.1, h.2⟩
  | refused again => exact fun hagain => (h hagain).trans_le hlife
  | token | login | waiting | replied | ended => trivial

theorem Granted.mono {tokens' : List AdminToken} {life' : ℕ} (h : Granted tokens life job)
    (hlife : life ≤ life')
    (hdrawn : ∀ token, Drawn tokens life token → Drawn tokens' life' token) :
    Granted tokens' life' job :=
  ⟨h.began.trans hlife, h.phase.mono hlife hdrawn, h.unauthorized⟩

theorem Granted.finish (h : Granted tokens life job) {outcome : CommandOutcome}
    (houtcome : ∀ n, outcome = .unauthorized n → 0 < n) :
    Granted tokens life (job.finish outcome) where
  began := h.began
  phase := by
    unfold Job.finish
    dsimp only
    split <;> trivial
  unauthorized n hn := by
    rcases List.mem_append.mp hn with hold | hnew
    · exact h.unauthorized n hold
    · exact houtcome n (List.mem_singleton.mp hnew).symm

/-- A token that the hub does not know was drawn before the hub was restarted. -/
theorem restarted_of_refused {began : ℕ} {again : Bool} {token : AdminToken}
    (h : PhaseTokens tokens life began (.post again token)) (hrefused : token ∉ tokens) :
    PhaseTokens tokens life began (.refused again) :=
  fun hagain => (h.2 hagain).trans_lt (h.1.resolve_left hrefused)

end Tokens

section Handled

variable {life : ℕ} {s : Commands.State Report Args} {log : List (Push Args)} {job : Job Args}

theorem started_eq_true_iff {i : ℕ} {p : Push Args} : job.started i p = true ↔
    ∃ a ∈ job.accepted, a.step = i ∧ (a.life, a.call) = (p.life, p.id) := by
  unfold Job.started
  rw [List.any_eq_true]
  simp only [Bool.and_eq_true, decide_eq_true_eq]

/-- The handlers that were started for a call. -/
structure Handled (life : ℕ) (s : Commands.State Report Args) (log : List (Push Args))
    (job : Job Args) : Prop where
  accepted : ∀ a ∈ job.accepted, a.life ≤ life ∧ (a.life = life →
    ∃ call, s.calls a.call = some call ∧ call.agentId = job.agentId ∧
      job.steps[a.step]? = some call.req)
  pushed : ∀ p ∈ log, ∀ a ∈ job.accepted, (a.life, a.call) = (p.life, p.id) →
    job.steps[a.step]? = some p.call.req ∧ p.call.agentId = job.agentId
  waiting : ∀ l k, job.phase = .waiting l k →
    ∃ a ∈ job.accepted, a.step = job.results.length ∧ (a.life, a.call) = (l, k)
  replied : ∀ result, job.phase = .replied (.result result) →
    ∃ p ∈ log, job.started job.results.length p = true
  done : ∀ i result, job.results[i]? = some (.ok result) →
    ∃ p ∈ log, job.started i p = true

/-- Phases without a handler. -/
def Unhandled : Phase → Prop
  | .waiting _ _ | .replied (.result _) => False
  | .token | .login _ | .granted _ _ | .post _ _ | .refused _ | .replied (.err _ _) | .ended => True

theorem Handled.phase (h : Handled life s log job) {began : ℕ} {phase : Phase}
    {strays : List (ℕ × AdminToken)} (hphase : Unhandled phase) :
    Handled life s log { job with began := began, phase := phase, strays := strays } where
  accepted := h.accepted
  pushed := h.pushed
  waiting l k hwaiting := by
    change phase = _ at hwaiting
    rw [hwaiting] at hphase
    exact hphase.elim
  replied result hreplied := by
    change phase = _ at hreplied
    rw [hreplied] at hphase
    exact hphase.elim
  done := h.done

theorem Handled.finish (h : Handled life s log job) {outcome : CommandOutcome}
    (houtcome : ∀ result, outcome = .ok result →
      ∃ p ∈ log, job.started job.results.length p = true) :
    Handled life s log (job.finish outcome) := by
  have hphase : Unhandled (job.finish outcome).phase := by
    unfold Job.finish
    dsimp only
    split <;> trivial
  refine ⟨h.accepted, h.pushed, fun l k hwaiting => ?_, fun result hreplied => ?_, ?_⟩
  · rw [hwaiting] at hphase
    exact hphase.elim
  · rw [hreplied] at hphase
    exact hphase.elim
  · intro i result hget
    change (job.results ++ [outcome])[i]? = some (.ok result) at hget
    rcases lt_or_ge i job.results.length with hlt | hge
    · rw [List.getElem?_append_left hlt] at hget
      exact h.done i result hget
    · rw [List.getElem?_append_right hge, List.getElem?_singleton] at hget
      split at hget
      · rename_i hzero
        have hi : i = job.results.length := Nat.le_antisymm (Nat.le_of_sub_eq_zero hzero) hge
        rw [hi]
        exact houtcome result (Option.some.inj hget)
      · cases hget

theorem Handled.step {w : World Report Args} (h : Handled w.life w.commands log job)
    (hlogged : Logged w.life w.commands log) (op : Commands.Op Report Args) :
    Handled w.life (Commands.step db low w.commands op)
      ((HubClient.push w (.hub op)).toList ++ log) job where
  accepted a ha := by
    obtain ⟨hle, hpresent⟩ := h.accepted a ha
    refine ⟨hle, fun hlife => ?_⟩
    obtain ⟨call, hget, hagent, hreq⟩ := hpresent hlife
    obtain ⟨next, hnext, honward⟩ := onward_step hlogged.numbered hget op
    exact ⟨next, hnext, honward.agentId.trans hagent, honward.req ▸ hreq⟩
  pushed p hp a ha heq := by
    rcases List.mem_append.mp hp with hnew | hold
    · obtain ⟨hlife, hget⟩ := push_eq_some (Option.mem_toList.mp hnew)
      obtain ⟨hlife', hid⟩ := Prod.mk.inj heq
      obtain ⟨call, hcall, hagent, hreq⟩ := (h.accepted a ha).2 (hlife'.trans hlife)
      rw [hid, hget] at hcall
      cases hcall
      exact ⟨hreq, hagent⟩
    · exact h.pushed p hold a ha heq
  waiting := h.waiting
  replied result hreplied := by
    obtain ⟨p, hp, hstarted⟩ := h.replied result hreplied
    exact ⟨p, List.mem_append_right _ hp, hstarted⟩
  done i result hget := by
    obtain ⟨p, hp, hstarted⟩ := h.done i result hget
    exact ⟨p, List.mem_append_right _ hp, hstarted⟩

/-- The hub has started a handler that has sent nothing yet. -/
theorem Handled.accept (h : Handled life s log job) {a : Accepted} {phase : Phase}
    {strays : List (ℕ × AdminToken)} {call : Call Args} (hlife : a.life = life)
    (hget : s.calls a.call = some call) (hagent : call.agentId = job.agentId)
    (hreq : job.steps[a.step]? = some call.req)
    (hfresh : ∀ p ∈ log, (a.life, a.call) ≠ (p.life, p.id))
    (hwaiting : ∀ l k, phase = .waiting l k → job.phase = .waiting l k ∨
      a.step = job.results.length ∧ (a.life, a.call) = (l, k))
    (hreplied : ∀ response, phase = .replied response → job.phase = .replied response) :
    Handled life s log { job with
      phase := phase, strays := strays, accepted := job.accepted ++ [a] } := by
  have hstarted : ∀ i p, job.started i p = true → ({ job with
      phase := phase, strays := strays, accepted := job.accepted ++ [a] } : Job Args).started i p =
        true := by
    intro i p hp
    obtain ⟨b, hb, hstep⟩ := started_eq_true_iff.mp hp
    exact started_eq_true_iff.mpr ⟨b, List.mem_append_left _ hb, hstep⟩
  refine ⟨fun b hb => ?_, fun p hp b hb heq => ?_, fun l k hphase => ?_,
    fun result hphase => ?_, ?_⟩
  · rcases List.mem_append.mp hb with hold | hnew
    · exact h.accepted b hold
    · obtain rfl := List.mem_singleton.mp hnew
      exact ⟨hlife.le, fun _ => ⟨call, hget, hagent, hreq⟩⟩
  · rcases List.mem_append.mp hb with hold | hnew
    · exact h.pushed p hp b hold heq
    · obtain rfl := List.mem_singleton.mp hnew
      exact absurd heq (hfresh p hp)
  · rcases hwaiting l k hphase with hbefore | ⟨hstep, heq⟩
    · obtain ⟨b, hb, hrest⟩ := h.waiting l k hbefore
      exact ⟨b, List.mem_append_left _ hb, hrest⟩
    · exact ⟨a, List.mem_append_right _ (List.mem_singleton_self a), hstep, heq⟩
  · obtain ⟨p, hp, hbefore⟩ := h.replied result (hreplied _ hphase)
    exact ⟨p, hp, hstarted _ p hbefore⟩
  · intro i result hdone
    obtain ⟨p, hp, hbefore⟩ := h.done i result hdone
    exact ⟨p, hp, hstarted i p hbefore⟩

/-- The handler of a step has answered with the result, and so it has sent the command. -/
theorem Handled.reply (h : Handled life s log job) (hlogged : Logged life s log) {k : CallId}
    {call : Call Args} {response : Commands.Response} (hphase : job.phase = .waiting life k)
    (hget : s.calls k = some call) (hanswered : call.phase = .answered response) :
    Handled life s log { job with phase := .replied response } := by
  refine ⟨h.accepted, h.pushed, nofun, fun result hreplied => ?_, h.done⟩
  cases hreplied
  obtain ⟨a, ha, hstep, heq⟩ := h.waiting life k hphase
  obtain ⟨p, hp, hlife, hid⟩ := hlogged.sent k call hget (by rw [hanswered]; trivial)
  refine ⟨p, hp, started_eq_true_iff.mpr ⟨a, ha, hstep, ?_⟩⟩
  rw [heq, hlife, hid]

end Handled

section Runs

/-- What holds of a call at any time. -/
structure Good (tokens : List AdminToken) (life : ℕ) (s : Commands.State Report Args)
    (log : List (Push Args)) (job : Job Args) : Prop where
  asked : Asked job
  inOrder : job.continueOnError = false → InOrder job
  granted : Granted tokens life job
  handled : Handled life s log job

structure Inv (w : World Report Args) (log : List (Push Args)) : Prop where
  logged : Logged w.life w.commands log
  tokens : ∀ token ∈ w.tokens, token.life = w.life
  cell : ∀ token ∈ w.cell, Drawn w.tokens w.life token
  listed : ∀ token ∈ w.listed, Drawn w.tokens w.life token
  jobs : ∀ job ∈ w.jobs, Good w.tokens w.life w.commands log job

variable {w : World Report Args} {log : List (Push Args)} {job : Job Args}

theorem good_new (tokens : List AdminToken) (life : ℕ) (s : Commands.State Report Args)
    (log : List (Push Args)) (agentId : Uuid) (steps : List (CommandApiReq Args))
    (continueOnError : Bool) : Good tokens life s log (Job.new agentId steps continueOnError) := by
  have hphase : (Job.new agentId steps continueOnError).phase = .ended ∨
      (Job.new agentId steps continueOnError).phase = .token := by
    unfold Job.new
    dsimp only
    split
    · exact Or.inl rfl
    · exact Or.inr rfl
  refine ⟨⟨List.nodup_nil, nofun⟩, fun _ => ⟨rfl, Nat.zero_le 1, fun hne => ?_, fun _ => ?_, ?_⟩,
    ⟨Nat.zero_le life, ?_, nofun⟩, ⟨nofun, nofun, fun l k hwaiting => ?_, fun r hreplied => ?_, ?_⟩⟩
  · rw [hphase.resolve_left hne]
    exact ⟨rfl, rfl⟩
  · exact Nat.le_refl _
  · nofun
  · rcases hphase with heq | heq <;> rw [heq] <;> trivial
  · rw [hwaiting] at hphase
    rcases hphase with heq | heq <;> cases heq
  · rw [hreplied] at hphase
    rcases hphase with heq | heq <;> cases heq
  · intro i result hget
    change ([] : List CommandOutcome)[i]? = _ at hget
    rw [List.getElem?_nil] at hget
    cases hget

theorem Inv.hub (h : Inv w log) (op : Commands.Op Report Args) :
    Inv { w with commands := Commands.step db low w.commands op }
      ((push w (.hub op)).toList ++ log) where
  logged := h.logged.step op
  tokens := h.tokens
  cell := h.cell
  listed := h.listed
  jobs job hjob := by
    have hgood := h.jobs job hjob
    exact ⟨hgood.asked, hgood.inOrder, hgood.granted, hgood.handled.step h.logged op⟩

theorem Drawn.restart {tokens : List AdminToken} {life : ℕ} {token : AdminToken}
    (htokens : ∀ token ∈ tokens, token.life = life) (h : Drawn tokens life token) :
    Drawn [] (life + 1) token := by
  rcases h with hmem | hlt
  · exact Or.inr (Nat.lt_succ_of_le (htokens token hmem).le)
  · exact Or.inr (Nat.lt_succ_of_lt hlt)

theorem Inv.restart (h : Inv w log) : Inv w.restart log where
  logged := h.logged.restart
  tokens := nofun
  cell token htoken := (h.cell token htoken).restart h.tokens
  listed token htoken := (h.listed token htoken).restart h.tokens
  jobs job hjob := by
    have hgood := h.jobs job hjob
    refine ⟨hgood.asked, hgood.inOrder,
      hgood.granted.mono (Nat.le_succ _) fun _ hdrawn => hdrawn.restart h.tokens, ?_⟩
    refine ⟨fun a ha => ?_, hgood.handled.pushed, hgood.handled.waiting, hgood.handled.replied,
      hgood.handled.done⟩
    have hle := (hgood.handled.accepted a ha).1
    exact ⟨hle.trans (Nat.le_succ _), fun heq => absurd heq (Nat.ne_of_lt (Nat.lt_succ_of_le hle))⟩

theorem Drawn.append {tokens : List AdminToken} {life : ℕ} {token : AdminToken}
    (h : Drawn tokens life token) (more : List AdminToken) : Drawn (tokens ++ more) life token :=
  h.imp_left (List.mem_append_left more)

theorem Inv.draw (h : Inv w log) : Inv w.draw log where
  logged := h.logged
  tokens token htoken := by
    rcases List.mem_append.mp htoken with hold | hnew
    · exact h.tokens token hold
    · rw [List.mem_singleton.mp hnew]
      rfl
  cell token htoken := (h.cell token htoken).append _
  listed token htoken := (h.listed token htoken).append _
  jobs job hjob := by
    have hgood := h.jobs job hjob
    exact ⟨hgood.asked, hgood.inOrder,
      hgood.granted.mono (Nat.le_refl _) fun _ hdrawn => hdrawn.append _, hgood.handled⟩

/-- A call has gone on, and the others have not. -/
theorem Inv.set (h : Inv w log) (j : ℕ) (hjob : Good w.tokens w.life w.commands log job) :
    Inv (w.set j job) log where
  logged := h.logged
  tokens := h.tokens
  cell := h.cell
  listed := h.listed
  jobs other hother := by
    rcases List.mem_or_eq_of_mem_set hother with hold | rfl
    · exact h.jobs other hold
    · exact hjob

theorem unhandled_of_not_started {phase : Phase} (h : phase.started = false) :
    Unhandled phase := by
  cases phase with
  | waiting | replied => cases h
  | token | login | granted | post | refused | ended => trivial

section Moves

variable {tokens : List AdminToken} {life : ℕ} {s : Commands.State Report Args}

/-- A move between phases without a handler. -/
theorem Good.phase (h : Good tokens life s log job) {began : ℕ} {phase : Phase}
    (hphase : job.phase ≠ .ended) (hstarted : job.phase.started = false) (hnew : phase ≠ .ended)
    (hquiet : phase.started = false) (hbegan : began ≤ life)
    (htokens : PhaseTokens tokens life began phase) :
    Good tokens life s log { job with began := began, phase := phase } where
  asked := h.asked.of_subperm (List.Subperm.refl _) rfl
    fun hold => absurd (hstarted.symm.trans hold) Bool.false_ne_true
  inOrder hcontinue := (h.inOrder hcontinue).phase hphase hnew (hquiet.trans hstarted.symm)
  granted := ⟨hbegan, htokens, h.granted.unauthorized⟩
  handled := h.handled.phase (unhandled_of_not_started hquiet)

theorem Good.finish (h : Good tokens life s log job) {outcome : CommandOutcome}
    (hphase : job.phase ≠ .ended)
    (hsucceeded : outcome.succeeded = true → job.phase.started = true)
    (hunauthorized : ∀ n, outcome = .unauthorized n → 0 < n)
    (hok : ∀ result, outcome = .ok result →
      ∃ p ∈ log, job.started job.results.length p = true) :
    Good tokens life s log (job.finish outcome) where
  asked := h.asked.finish outcome
  inOrder hcontinue := (h.inOrder hcontinue).finish hcontinue hphase hsucceeded
  granted := h.granted.finish hunauthorized
  handled := h.handled.finish hok

/-- The command has failed. -/
theorem Good.fail (h : Good tokens life s log job) {outcome : CommandOutcome}
    (hphase : job.phase ≠ .ended) (hfailed : outcome.succeeded = false)
    (hunauthorized : ∀ n, outcome = .unauthorized n → 0 < n)
    (hok : ∀ result, outcome ≠ .ok result) :
    Good tokens life s log (job.finish outcome) :=
  h.finish hphase (fun hsucceeded => absurd (hfailed.symm.trans hsucceeded) Bool.false_ne_true)
    hunauthorized fun result heq => absurd heq (hok result)

theorem Good.reply (h : Good tokens life s log job) (hlogged : Logged life s log) {k : CallId}
    {call : Call Args} {response : Commands.Response} (hphase : job.phase = .waiting life k)
    (hget : s.calls k = some call) (hanswered : call.phase = .answered response) :
    Good tokens life s log { job with phase := .replied response } where
  asked := h.asked.of_subperm (List.Subperm.refl _) rfl fun _ => rfl
  inOrder hcontinue :=
    (h.inOrder hcontinue).phase (by rw [hphase]; nofun) nofun (by rw [hphase]; rfl)
  granted := ⟨h.granted.began, trivial, h.granted.unauthorized⟩
  handled := h.handled.reply hlogged hphase hget hanswered

theorem Good.finishReply (h : Good tokens life s log job) {response : Commands.Response}
    (hphase : job.phase = .replied response) :
    Good tokens life s log (job.finish (outcomeOf response)) := by
  cases response with
  | result result =>
    refine h.finish (by rw [hphase]; nofun) (fun _ => by rw [hphase]; rfl) nofun ?_
    exact fun _ _ => h.handled.replied result hphase
  | err status message => exact h.fail (by rw [hphase]; nofun) rfl nofun nofun

/-- A request is given up that the hub does not have yet. -/
theorem Good.lose (h : Good tokens life s log job) {again : Bool} {token : AdminToken}
    (hphase : job.phase = .post again token) :
    Good tokens life s log
      ({ job with strays := job.strays ++ [(job.results.length, token)] }.finish .lost) where
  asked := by
    refine h.asked.cons (by rw [hphase]; rfl) ?_ (Or.inr ?_)
    · rw [asked_lose]
      exact List.perm_append_singleton _ _
    · exact List.length_append
  inOrder hcontinue := (h.inOrder hcontinue).lose hcontinue (by rw [hphase]; nofun)
    (by rw [hphase]; rfl) token
  granted := by
    have hstray : Granted tokens life
        { job with strays := job.strays ++ [(job.results.length, token)] } :=
      ⟨h.granted.began, h.granted.phase, h.granted.unauthorized⟩
    exact hstray.finish nofun
  handled := by
    have hunhandled : Unhandled job.phase := by
      rw [hphase]
      trivial
    have hstray : Handled life s log
        { job with strays := job.strays ++ [(job.results.length, token)] } :=
      h.handled.phase hunhandled
    exact hstray.finish nofun

theorem Logged.fresh (h : Logged life s log) :
    ∀ p ∈ log, (life, s.nextCall) ≠ (p.life, p.id) := by
  intro p hp heq
  obtain ⟨hlife, hid⟩ := Prod.mk.inj heq
  rcases h.past p hp with hold | ⟨-, call, hget, -⟩
  · exact absurd hlife.symm (Nat.ne_of_lt hold)
  · exact absurd hid.symm (Nat.ne_of_lt (h.numbered.lt hget))

/-- The hub starts a handler for the step that is asked for. -/
theorem Good.start {again : Bool} {token : AdminToken} {req : CommandApiReq Args}
    {commandId : Uuid} (h : Good tokens life (s.runCommand job.agentId req commandId) log job)
    (hlogged : Logged life s log) (hphase : job.phase = .post again token)
    (hreq : job.steps[job.results.length]? = some req) :
    Good tokens life (s.runCommand job.agentId req commandId) log { job with
      phase := .waiting life s.nextCall
      accepted := job.accepted ++ [⟨job.results.length, life, s.nextCall, token⟩] } where
  asked := by
    refine h.asked.cons (by rw [hphase]; rfl) ?_ (Or.inl ⟨rfl, rfl⟩)
    change ((job.accepted ++ [_]).map Accepted.step ++ job.strays.map Prod.fst).Perm _
    rw [List.map_append, List.append_assoc]
    exact List.perm_middle
  inOrder hcontinue :=
    (h.inOrder hcontinue).start (by rw [hphase]; nofun) (by rw [hphase]; rfl) rfl
  granted := ⟨h.granted.began, trivial, h.granted.unauthorized⟩
  handled := by
    refine h.handled.accept rfl (Function.update_self _ _ _) rfl hreq hlogged.fresh ?_ nofun
    intro l k hwaiting
    cases hwaiting
    exact Or.inr ⟨rfl, rfl⟩

/-- It starts one for a request that was given up. -/
theorem Good.startStray {n i : ℕ} {token : AdminToken} {req : CommandApiReq Args}
    {commandId : Uuid} (h : Good tokens life (s.runCommand job.agentId req commandId) log job)
    (hlogged : Logged life s log) (hstray : job.strays[n]? = some (i, token))
    (hreq : job.steps[i]? = some req) :
    Good tokens life (s.runCommand job.agentId req commandId) log { job with
      strays := job.strays.eraseIdx n
      accepted := job.accepted ++ [⟨i, life, s.nextCall, token⟩] } where
  asked := by
    refine h.asked.of_subperm (List.Perm.subperm ?_) rfl id
    change ((job.accepted ++ [_]).map Accepted.step ++ _).Perm _
    rw [List.map_append, List.append_assoc]
    exact List.perm_middle.trans (asked_of_stray hstray)
  inOrder hcontinue := by
    have hinOrder := h.inOrder hcontinue
    obtain ⟨hended, honly, rfl⟩ := hinOrder.stray hstray
    have hnone : job.strays.eraseIdx 0 = [] := by rw [honly]; rfl
    refine hinOrder.of_stray hended rfl rfl hnone ?_
    change (job.accepted ++ [_]).map Accepted.step ++ (job.strays.eraseIdx 0).map Prod.fst <+:
      job.accepted.map (·.step) ++ job.strays.map Prod.fst
    rw [hnone, honly, List.map_append, List.map_nil, List.append_nil]
    exact List.prefix_rfl
  granted := ⟨h.granted.began, h.granted.phase, h.granted.unauthorized⟩
  handled :=
    h.handled.accept rfl (Function.update_self _ _ _) rfl hreq hlogged.fresh
      (fun _ _ => Or.inl) fun _ => id

theorem Good.dropStray (h : Good tokens life s log job) {n i : ℕ} {token : AdminToken}
    (hstray : job.strays[n]? = some (i, token)) :
    Good tokens life s log { job with strays := job.strays.eraseIdx n } where
  asked := by
    refine h.asked.of_subperm (List.Sublist.subperm ?_) rfl id
    exact ((List.eraseIdx_sublist _ _).map Prod.fst).append_left _
  inOrder hcontinue := by
    have hinOrder := h.inOrder hcontinue
    obtain ⟨hended, honly, rfl⟩ := hinOrder.stray hstray
    have hnone : job.strays.eraseIdx 0 = [] := by rw [honly]; rfl
    refine hinOrder.of_stray hended rfl rfl hnone ?_
    change _ ++ (job.strays.eraseIdx 0).map Prod.fst <+: _
    rw [hnone, List.map_nil, List.append_nil]
    exact List.prefix_append _ _
  granted := ⟨h.granted.began, h.granted.phase, h.granted.unauthorized⟩
  handled := ⟨h.handled.accepted, h.handled.pushed, h.handled.waiting, h.handled.replied,
    h.handled.done⟩

end Moves

/-- The hub starts the handler, and the call notes it. -/
theorem Inv.start (h : Inv w log) (hjob : job ∈ w.jobs) {j i : ℕ} {job' : Job Args}
    {req : CommandApiReq Args} {token : AdminToken} {commandId : Uuid}
    (hgood : Good w.tokens w.life (w.commands.runCommand job'.agentId req commandId) log job →
      Good w.tokens w.life (w.commands.runCommand job'.agentId req commandId) log { job' with
        accepted := job'.accepted ++ [⟨i, w.life, w.commands.nextCall, token⟩] }) :
    Inv (w.start j job' i req token commandId) log := by
  have hcommands : Inv
      { w with commands := w.commands.runCommand job'.agentId req commandId } log :=
    @Inv.hub Report Args (.single (0, "")) (fun _ => false) w log h
      (.runCommand job'.agentId req commandId)
  exact hcommands.set j (hgood (hcommands.jobs job hjob))

theorem Inv.go (h : Inv w log) (hjob : job ∈ w.jobs) (j : ℕ) (commandId : Uuid) :
    Inv (w.go j job commandId) log := by
  have hgood := h.jobs job hjob
  have htokens := hgood.granted.phase
  unfold World.go
  split
  · rename_i hphase
    dsimp only
    cases hcell : w.cell with
    | none =>
      refine h.set j (hgood.phase (by rw [hphase]; nofun) (by rw [hphase]; rfl) nofun rfl ?_ ?_)
      · exact Nat.le_refl _
      · trivial
    | some token =>
      refine h.set j (hgood.phase (by rw [hphase]; nofun) (by rw [hphase]; rfl) nofun rfl ?_ ?_)
      · exact Nat.le_refl _
      · exact ⟨h.cell token hcell, nofun⟩
  · rename_i again token hphase
    rw [hphase] at htokens
    have hnext : Good w.tokens w.life w.commands log { job with phase := .post again token } :=
      hgood.phase (by rw [hphase]; nofun) (by rw [hphase]; rfl) nofun rfl hgood.granted.began
        htokens
    have hset := h.set j hnext
    refine ⟨hset.logged, hset.tokens, fun other hother => ?_, hset.listed, hset.jobs⟩
    cases hother
    exact htokens.1
  · rename_i again token hphase
    split
    · rename_i req hreq
      split
      · refine h.start hjob fun hnext => ?_
        have hbefore : Good w.tokens w.life
          (w.commands.runCommand job.agentId req commandId) log job := hnext
        exact hbefore.start h.logged hphase hreq
      · rename_i hrefused
        rw [hphase] at htokens
        exact h.set j (hgood.phase (by rw [hphase]; nofun) (by rw [hphase]; rfl) nofun rfl
          hgood.granted.began (restarted_of_refused htokens hrefused))
    · exact h
  · rename_i hphase
    exact h.set j (hgood.phase (by rw [hphase]; nofun) (by rw [hphase]; rfl) nofun rfl
      hgood.granted.began trivial)
  · rename_i hphase
    rw [hphase] at htokens
    refine h.set j (hgood.fail (by rw [hphase]; nofun) rfl ?_ nofun)
    intro n hn
    cases hn
    exact Nat.sub_pos_of_lt (htokens rfl)
  · rename_i life k hphase
    split
    · rename_i hlife
      subst hlife
      split
      · rename_i response hcall
        obtain ⟨call, hget, hanswered⟩ := Option.map_eq_some_iff.mp hcall
        exact h.set j (hgood.reply h.logged hphase hget hanswered)
      · exact h
    · exact h
  · rename_i response hphase
    exact h.set j (hgood.finishReply hphase)
  · exact h
  · exact h

theorem Inv.login (h : Inv w log) (hjob : job ∈ w.jobs) (j : ℕ) (verified : Bool) :
    Inv (w.login j job verified) log := by
  unfold World.login
  split
  · rename_i again hphase
    have hgood := h.draw.jobs job hjob
    refine h.draw.set j (hgood.phase (by rw [hphase]; nofun) (by rw [hphase]; rfl) nofun rfl
      hgood.granted.began ⟨Or.inl ?_, fun _ => ?_⟩)
    · exact List.mem_append_right _ (List.mem_singleton_self _)
    · exact hgood.granted.began
  · rename_i hphase
    exact h.set j ((h.jobs job hjob).fail (by rw [hphase]; nofun) rfl nofun nofun)
  · exact h

theorem Inv.lose (h : Inv w log) (hjob : job ∈ w.jobs) (j : ℕ) : Inv (w.lose j job) log := by
  have hgood := h.jobs job hjob
  unfold World.lose
  split
  · rename_i hphase
    exact h.set j (hgood.lose hphase)
  any_goals
    rename_i hphase
    exact h.set j (hgood.fail (by rw [hphase]; nofun) rfl nofun nofun)
  · exact h
  · exact h

theorem Inv.stray (h : Inv w log) (hjob : job ∈ w.jobs) (j n : ℕ) (commandId : Uuid) :
    Inv (w.stray j n job commandId) log := by
  unfold World.stray
  split
  · rename_i i token hstray
    split
    · rename_i req hreq
      split
      · refine h.start hjob fun hnext => ?_
        have hbefore : Good w.tokens w.life
          (w.commands.runCommand job.agentId req commandId) log job := hnext
        exact hbefore.startStray h.logged hstray hreq
      · exact h.set j ((h.jobs job hjob).dropStray hstray)
    · exact h
  · exact h

theorem Inv.on (h : Inv w log) (j : ℕ) {f : Job Args → World Report Args}
    (hf : ∀ job ∈ w.jobs, Inv (f job) log) : Inv (w.on j f) log := by
  unfold World.on
  split
  · rename_i job hget
    exact hf job (List.mem_of_getElem? hget)
  · exact h

theorem Inv.step (h : Inv w log) (op : HubClient.Op Report Args) :
    Inv (World.step db low w op) ((push w op).toList ++ log) := by
  cases op with
  | hub op => exact h.hub op
  | restart => exact h.restart
  | call agentId steps continueOnError =>
    refine ⟨h.logged, h.tokens, h.cell, h.listed, fun job hjob => ?_⟩
    rcases List.mem_append.mp hjob with hold | hnew
    · exact h.jobs job hold
    · rw [List.mem_singleton.mp hnew]
      exact good_new _ _ _ _ agentId steps continueOnError
  | go j commandId => exact h.on j fun job hjob => h.go hjob j commandId
  | login j verified => exact h.on j fun job hjob => h.login hjob j verified
  | lose j => exact h.on j fun job hjob => h.lose hjob j
  | stray j n commandId => exact h.on j fun job hjob => h.stray hjob j n commandId
  | listLogin =>
    refine ⟨h.draw.logged, h.draw.tokens, h.draw.cell, fun token htoken => ?_, h.draw.jobs⟩
    rcases List.mem_append.mp htoken with hold | hnew
    · exact h.draw.listed token hold
    · rw [List.mem_singleton.mp hnew]
      exact Or.inl (List.mem_append_right _ (List.mem_singleton_self _))
  | listKeep n =>
    refine ⟨h.logged, h.tokens, fun token htoken => ?_, h.listed, h.jobs⟩
    change w.listed[n]?.or w.cell = some token at htoken
    rcases Option.or_eq_some_iff.mp htoken with hget | ⟨-, hcell⟩
    · exact h.listed token (List.mem_of_getElem? hget)
    · exact h.cell token hcell

theorem inv_run (ops : List (HubClient.Op Report Args)) :
    Inv ((HubClient.machine db low).run ops) (pushes db low ops) := by
  refine (HubClient.machine db low).log_invariant push (I := Inv) ?_
    (fun w log op h => h.step op) ops
  exact ⟨⟨fun _ _ => rfl, List.nodup_nil, nofun, nofun, fun _ => rfl⟩, nofun, nofun, nofun, nofun⟩

end Runs

section Careful

variable {log : List (Push Args)} {job : Job Args}

/-- What is pushed for the steps of a call, as the results of the call go. -/
structure Careful (log : List (Push Args)) (job : Job Args) : Prop where
  once : ∀ i, (job.pushed log i).length ≤ 1
  own : ∀ i, ∀ p ∈ job.pushed log i,
    job.steps[i]? = some p.call.req ∧ p.call.agentId = job.agentId
  delivered : ∀ i result, job.results[i]? = some (.ok result) → (job.pushed log i).length = 1
  ordered : job.continueOnError = false → ∀ i, job.pushed log i ≠ [] → ∀ j < i,
    ∃ result, job.results[j]? = some (.ok result) ∧ reportsFailure (output result) = false
  relogin : ∀ n, .unauthorized n ∈ job.results → 0 < n

theorem mem_pushed_iff {i : ℕ} {p : Push Args} : p ∈ job.pushed log i ↔
    p ∈ log ∧ ∃ a ∈ job.accepted, a.step = i ∧ (a.life, a.call) = (p.life, p.id) := by
  unfold Job.pushed
  rw [List.mem_filter, started_eq_true_iff]

theorem length_le_one_of_nodup_map {α β : Type*} {f : α → β} {l : List α} (h : (l.map f).Nodup)
    (heq : ∀ a ∈ l, ∀ b ∈ l, f a = f b) : l.length ≤ 1 := by
  cases l with
  | nil => exact Nat.zero_le 1
  | cons a rest =>
    cases rest with
    | nil => exact Nat.le_refl 1
    | cons b rest =>
      rw [List.map_cons, List.nodup_cons] at h
      refine absurd ?_ h.1
      rw [heq a List.mem_cons_self b (List.mem_cons_of_mem a List.mem_cons_self)]
      exact List.mem_map_of_mem List.mem_cons_self

variable {tokens : List AdminToken} {life : ℕ} {s : Commands.State Report Args}

/-- A step has one handler, and a handler is in the log once. -/
theorem pushed_once (h : Good tokens life s log job) (hlogged : Logged life s log) (i : ℕ) :
    (job.pushed log i).length ≤ 1 := by
  have hsteps : (job.accepted.map (·.step)).Nodup := (List.nodup_append.mp h.asked.nodup).1
  have hsub : (job.pushed log i).Sublist log := List.filter_sublist
  refine length_le_one_of_nodup_map (hlogged.nodup.sublist (hsub.map _)) ?_
  intro p hp q hq
  obtain ⟨-, a, ha, hstep, hkey⟩ := mem_pushed_iff.mp hp
  obtain ⟨-, b, hb, hstep', hkey'⟩ := mem_pushed_iff.mp hq
  obtain rfl := List.inj_on_of_nodup_map hsteps ha hb (hstep.trans hstep'.symm)
  exact hkey.symm.trans hkey'

/-- Before a step of a call in order all results are successes. -/
theorem InOrder.succeeded_before (h : InOrder job) {i : ℕ} (hi : i ∈ asked job) {j : ℕ}
    (hj : j < i) : ∃ result, job.results[j]? = some (.ok result) ∧
      reportsFailure (output result) = false := by
  have hlength : i < (asked job).length := by
    rw [h.range] at hi
    exact List.mem_range.mp hi
  have hsucceeded : ∃ outcome, job.results[j]? = some outcome ∧ outcome.succeeded = true := by
    by_cases hphase : job.phase = .ended
    · have hle := h.ended hphase
      exact h.succeeded j (by omega) (Or.inl (by omega))
    · obtain ⟨hstrays, haccepted⟩ := h.running hphase
      have hasked : (asked job).length = job.accepted.length := by
        rw [asked, hstrays, List.map_nil, List.append_nil, List.length_map]
      have hone := Bool.toNat_le job.phase.started
      exact h.succeeded j (by omega) (Or.inr hphase)
  obtain ⟨outcome, hget, hsuccess⟩ := hsucceeded
  cases outcome with
  | ok result => exact ⟨result, hget, by simpa [CommandOutcome.succeeded] using hsuccess⟩
  | failed | unauthorized | loginFailed | lost => cases hsuccess

theorem careful_of_good (h : Good tokens life s log job) (hlogged : Logged life s log) :
    Careful log job where
  once := pushed_once h hlogged
  own i p hp := by
    obtain ⟨hlog, a, ha, rfl, hkey⟩ := mem_pushed_iff.mp hp
    exact h.handled.pushed p hlog a ha hkey
  delivered i result hget := by
    obtain ⟨p, hp, hstarted⟩ := h.handled.done i result hget
    have hmem : p ∈ job.pushed log i := List.mem_filter.mpr ⟨hp, hstarted⟩
    exact Nat.le_antisymm (pushed_once h hlogged i) (List.length_pos_of_mem hmem)
  ordered hcontinue i hne j hj := by
    obtain ⟨p, hp⟩ := List.exists_mem_of_ne_nil _ hne
    obtain ⟨-, a, ha, rfl, -⟩ := mem_pushed_iff.mp hp
    exact (h.inOrder hcontinue).succeeded_before
      (List.mem_append_left _ (List.mem_map_of_mem ha)) hj
  relogin := h.granted.unauthorized

/-- The channels to the connections have what the handlers have pushed, and of that each call
has for each of its steps one command at most. -/
theorem once_only (ops : List (HubClient.Op Report Args)) :
    (∀ connId, ((HubClient.machine db low).run ops).commands.outbox connId =
      (((pushes db low ops).filter fun p =>
        p.life = ((HubClient.machine db low).run ops).life ∧ p.connId = connId).map
          (·.call.command)).reverse) ∧
    ∀ job ∈ ((HubClient.machine db low).run ops).jobs, Careful (pushes db low ops) job := by
  have hinv : Inv ((HubClient.machine db low).run ops) (pushes db low ops) := inv_run ops
  exact ⟨hinv.logged.outbox, fun job hjob => careful_of_good (hinv.jobs job hjob) hinv.logged⟩

def connecting : List (HubClient.Op Unit Unit) :=
  .hub (.hub (.hello 0 none "100.64.0.7")) :: List.replicate 6 (.hub (.hub (.conn 1 .go)))

/-- The hub is restarted before the first of two commands; the second is given up when the hub
has it. -/
def restarted : List (HubClient.Op Unit Unit) :=
  .call 0 [⟨"hostname", false, none⟩, ⟨"whoami", false, none⟩] false ::
    [.go 0 0, .login 0 true, .go 0 0, .restart] ++ connecting ++
    [.go 0 0, .go 0 0, .login 0 true, .go 0 0, .go 0 7] ++
    List.replicate 3 (.hub (.call 0 .go)) ++
    [.hub (.commandResult 1 ⟨7, some 0, "student-01", "", none⟩), .hub (.hand 1),
      .hub (.call 0 .go), .go 0 0, .go 0 0, .go 0 0, .go 0 8] ++
    List.replicate 3 (.hub (.call 1 .go)) ++ [.lose 0]

theorem once_only_restarted :
    ((pushes (.single (0, "student-01")) (fun _ => false) restarted).map
      fun p => (p.life, p.id, p.call.commandId)) = [(1, 1, 8), (1, 0, 7)] ∧
    ∀ job ∈ ((HubClient.machine (.single (0, "student-01")) fun _ => false).run restarted).jobs,
      Careful (pushes (.single (0, "student-01")) (fun _ => false) restarted) job :=
  ⟨by decide, (once_only restarted).2⟩

end Careful

end KmControl.OnceOnly
