import KmControl.CommandSteps
import KmControl.HubSteps

/-!
What the table of waiters, the channels and the connections hold: each waiter is that of
the handler that drew its id, each command was sent to a connection of its agent, and
each result on its way to a handler is its own. Small changes of the state keep this.
-/
namespace KmControl.CommandTable

open Hub hiding State Op Response step machine
open HubSteps (Sound)
open Commands CommandSteps

variable {Report Args : Type} {db : Db} {low : Report → Bool}

/-- The phases in which a handler's waiter may be in the table. -/
def Waiting : CallPhase → Prop
  | .send _ | .unsent | .wait | .dropped | .timedOut | .gone => True
  | .lookup | .insert _ | .answered _ => False

/-- A result is for the handler, as far as its id and what has been reported tell. -/
def Mine (reported : Uuid → CommandResult → Prop) (s : State Report Args) (k : CallId)
    (result : CommandResult) : Prop :=
  ∃ call, s.calls k = some call ∧ result.commandId = call.commandId ∧
    reported call.agentId result ∧ Inserted call.phase

/-- No result is on its way to the handler. -/
def Awaits (s : State Report Args) (k : CallId) : Prop :=
  (s.channels k).value = none ∧ ∀ connId result, s.handing connId ≠ some (k, result)

/-- Waiters, commands and results are with those that they are for. -/
structure Routed (db : Db) (ids : List Uuid) (reported : Uuid → CommandResult → Prop)
    (s : State Report Args) : Prop where
  sound : Sound db s.hub
  count : s.nextCall = ids.length
  number : ∀ k call, s.calls k = some call → ids[k]? = some call.commandId
  target : ∀ k call connId, s.calls k = some call →
    call.phase = .insert connId ∨ call.phase = .send connId →
      ∃ conn, s.hub.conns connId = some conn ∧ conn.agentId = call.agentId
  outbox : ∀ connId, ∀ cmd ∈ s.outbox connId, ∃ k call conn, s.calls k = some call ∧
    cmd.commandId = call.commandId ∧ Inserted call.phase ∧
      s.hub.conns connId = some conn ∧ conn.agentId = call.agentId
  pending : ∀ id k, s.pendingCmds id = some k →
    ∃ call, s.calls k = some call ∧ call.commandId = id ∧ Waiting call.phase
  awaits : ∀ id k, s.pendingCmds id = some k → Awaits s k
  handing : ∀ connId k result, s.handing connId = some (k, result) → Mine reported s k result
  value : ∀ k result, (s.channels k).value = some result → Mine reported s k result
  received : ∀ k result, s.received k = some result → Mine reported s k result

variable {ids : List Uuid} {reported : Uuid → CommandResult → Prop}

/-- Ids tell the handlers apart. -/
theorem Routed.unique {s : State Report Args} (h : Routed db ids reported s) (hfresh : ids.Nodup)
    {k l : CallId} {a b : Call Args} (ha : s.calls k = some a) (hb : s.calls l = some b)
    (hid : a.commandId = b.commandId) : k = l := by
  have hk := h.number k a ha
  have hl := h.number l b hb
  apply (List.getElem?_inj (List.getElem?_eq_some_iff.mp hk).1 hfresh).mp
  rw [hk, hl, hid]

theorem Mine.mono {reported' : Uuid → CommandResult → Prop} {s t : State Report Args}
    {k : CallId} {result : CommandResult} (h : Mine reported s k result)
    (hreported : ∀ agentId, reported agentId result → reported' agentId result)
    (hcalls : ∀ call, s.calls k = some call → ∃ next, t.calls k = some next ∧ Later call next) :
    Mine reported' t k result := by
  obtain ⟨call, hget, hid, hrep, hinserted⟩ := h
  obtain ⟨next, hnext, hlater⟩ := hcalls call hget
  refine ⟨next, hnext, hid.trans hlater.commandId.symm, ?_, hlater.inserted hinserted⟩
  rw [hlater.agentId]
  exact hreported _ hrep

/-- The connections stay, and those of an agent stay its own. -/
theorem conns_step {s : Hub.State Report} (hs : Sound db s) (op : Hub.Op Report) {c : ConnId}
    {conn : Conn Report} (hget : s.conns c = some conn) :
    ∃ next, (Hub.step db low s op).conns c = some next ∧ next.agentId = conn.agentId := by
  have hstay : ∃ next, s.conns c = some next ∧ next.agentId = conn.agentId := ⟨conn, hget, rfl⟩
  apply HubSteps.step_rule
    (I := fun t => ∃ next, t.conns c = some next ∧ next.agentId = conn.agentId) hstay
  · intro agentId name streamAddr peerIp _ _
    refine ⟨conn, ?_, rfl⟩
    dsimp only
    rw [Function.update_of_ne, hget]
    intro heq
    rw [hs.fresh c (Nat.le_of_eq heq.symm)] at hget
    cases hget
  · intro d other input r' conn' _ hother hmove
    dsimp only
    by_cases hc : c = d
    · subst hc
      rw [hget] at hother
      cases hother
      exact ⟨conn', Function.update_self _ _ _, hmove.agentId⟩
    · rw [Function.update_of_ne hc]
      exact hstay
  · exact fun _ _ _ _ => hstay
  · exact fun _ _ _ _ _ _ _ => hstay

theorem Routed.hub {s : State Report Args} (h : Routed db ids reported s) (op : Hub.Op Report) :
    Routed db ids reported { s with hub := Hub.step db low s.hub op } where
  sound := h.sound.step op
  count := h.count
  number := h.number
  target k call connId hget hphase := by
    obtain ⟨conn, hconn, hagent⟩ := h.target k call connId hget hphase
    obtain ⟨next, hnext, hsame⟩ := conns_step h.sound op hconn
    exact ⟨next, hnext, hsame.trans hagent⟩
  outbox connId cmd hcmd := by
    obtain ⟨k, call, conn, hget, hid, hinserted, hconn, hagent⟩ := h.outbox connId cmd hcmd
    obtain ⟨next, hnext, hsame⟩ := conns_step h.sound op hconn
    exact ⟨k, call, next, hget, hid, hinserted, hnext, hsame.trans hagent⟩
  pending := h.pending
  awaits := h.awaits
  handing := h.handing
  value := h.value
  received := h.received

/-- A handler may go on to a phase that fits with what it has and has sent. -/
theorem Routed.setPhase {s : State Report Args} (h : Routed db ids reported s) {k : CallId}
    {call : Call Args} (hget : s.calls k = some call) {phase : CallPhase}
    (hlater : Later call { call with phase := phase })
    (htarget : ∀ connId, phase = .insert connId ∨ phase = .send connId →
      ∃ conn, s.hub.conns connId = some conn ∧ conn.agentId = call.agentId)
    (hwaiting : s.pendingCmds call.commandId = some k → Waiting phase)
    (hresult : ∀ result, phase = .answered (.result result) → Mine reported s k result) :
    Routed db ids reported (s.setPhase k call phase) := by
  have hcalls : ∀ l other, s.calls l = some other →
      ∃ next, (s.setPhase k call phase).calls l = some next ∧ Later other next := by
    intro l other hother
    by_cases hl : l = k
    · subst hl
      rw [hget] at hother
      cases hother
      exact ⟨_, setPhase_self _ _ _ _, hlater⟩
    · exact ⟨other, (setPhase_of_ne s call phase hl).trans hother, Later.refl other⟩
  have hmine : ∀ l result, Mine reported s l result →
      Mine reported (s.setPhase k call phase) l result :=
    fun l result hmine => hmine.mono (fun _ => id) (hcalls l)
  refine ⟨h.sound, h.count, ?_, ?_, ?_, ?_, h.awaits, ?_, ?_, ?_⟩
  · intro l other hother
    by_cases hl : l = k
    · subst hl
      rw [setPhase_self] at hother
      cases hother
      exact h.number l call hget
    · rw [setPhase_of_ne s call phase hl] at hother
      exact h.number l other hother
  · intro l other connId hother hphase
    by_cases hl : l = k
    · subst hl
      rw [setPhase_self] at hother
      cases hother
      exact htarget connId hphase
    · rw [setPhase_of_ne s call phase hl] at hother
      exact h.target l other connId hother hphase
  · intro connId cmd hcmd
    obtain ⟨l, other, conn, hother, hid, hinserted, hconn⟩ := h.outbox connId cmd hcmd
    obtain ⟨next, hnext, hthen⟩ := hcalls l other hother
    refine ⟨l, next, conn, hnext, hid.trans hthen.commandId.symm, hthen.inserted hinserted,
      hconn.1, hconn.2.trans hthen.agentId.symm⟩
  · intro id l hpending
    obtain ⟨other, hother, hid, hopen⟩ := h.pending id l hpending
    by_cases hl : l = k
    · subst hl
      rw [hget] at hother
      cases hother
      subst hid
      exact ⟨_, setPhase_self _ _ _ _, rfl, hwaiting hpending⟩
    · exact ⟨other, (setPhase_of_ne s call phase hl).trans hother, hid, hopen⟩
  · exact fun connId l result hhanding => hmine l result (h.handing connId l result hhanding)
  · exact fun l result hvalue => hmine l result (h.value l result hvalue)
  · intro l result hreceived
    apply hmine
    obtain ⟨other, hother, hphase⟩ := received_eq_some_iff.mp hreceived
    by_cases hl : l = k
    · subst hl
      rw [setPhase_self] at hother
      cases hother
      exact hresult result hphase
    · rw [setPhase_of_ne s call phase hl] at hother
      exact h.received l result (received_eq_some_iff.mpr ⟨other, hother, hphase⟩)

theorem Routed.of_calls {s t : State Report Args} (h : Routed db ids reported s)
    (hhub : t.hub = s.hub) (hcalls : t.calls = s.calls) (hnext : t.nextCall = s.nextCall)
    (houtbox : ∀ connId, ∀ cmd ∈ t.outbox connId, cmd ∈ s.outbox connId ∨
      ∃ k call conn, s.calls k = some call ∧ cmd.commandId = call.commandId ∧
        Inserted call.phase ∧ s.hub.conns connId = some conn ∧ conn.agentId = call.agentId)
    (hpending : ∀ id k, t.pendingCmds id = some k → s.pendingCmds id = some k ∨
      ∃ call, s.calls k = some call ∧ call.commandId = id ∧ Waiting call.phase)
    (hawaits : ∀ id k, t.pendingCmds id = some k → Awaits t k)
    (hhanding : ∀ connId k result, t.handing connId = some (k, result) →
      s.handing connId = some (k, result) ∨ Mine reported s k result)
    (hvalue : ∀ k result, (t.channels k).value = some result →
      (s.channels k).value = some result ∨ Mine reported s k result) :
    Routed db ids reported t := by
  have hmine : ∀ k result, Mine reported s k result → Mine reported t k result := by
    intro k result hmine
    unfold Mine
    rw [hcalls]
    exact hmine
  refine ⟨hhub ▸ h.sound, hnext ▸ h.count, ?_, ?_, ?_, ?_, hawaits, ?_, ?_, ?_⟩
  · rw [hcalls]
    exact h.number
  · rw [hcalls, hhub]
    exact h.target
  · intro connId cmd hcmd
    rw [hcalls, hhub]
    rcases houtbox connId cmd hcmd with hold | hnew
    · exact h.outbox connId cmd hold
    · exact hnew
  · intro id k hget
    rw [hcalls]
    rcases hpending id k hget with hold | hnew
    · exact h.pending id k hold
    · exact hnew
  · intro connId k result hget
    rcases hhanding connId k result hget with hold | hnew
    · exact hmine k result (h.handing connId k result hold)
    · exact hmine k result hnew
  · intro k result hget
    rcases hvalue k result hget with hold | hnew
    · exact hmine k result (h.value k result hold)
    · exact hmine k result hnew
  · intro k result hget
    unfold State.received at hget
    rw [hcalls] at hget
    exact hmine k result (h.received k result hget)

/-- What leaves the table has been in it, and what is on its way stays as it is. -/
theorem pending_of_removeWaiter {s : State Report Args} {id other : Uuid} {k : CallId}
    (h : (s.removeWaiter id).pendingCmds other = some k) :
    other ≠ id ∧ s.pendingCmds other = some k := by
  rw [removeWaiter_pendingCmds] at h
  by_cases hid : other = id
  · rw [hid, Function.update_self] at h
    cases h
  · rw [Function.update_of_ne hid] at h
    exact ⟨hid, h⟩

theorem awaits_removeWaiter {s : State Report Args} {id : Uuid} {k : CallId} :
    Awaits (s.removeWaiter id) k ↔ Awaits s k := by
  unfold Awaits
  rw [removeWaiter_value, removeWaiter_handing]

theorem Routed.removeWaiter {s : State Report Args} (h : Routed db ids reported s) (id : Uuid) :
    Routed db ids reported (s.removeWaiter id) := by
  apply h.of_calls (removeWaiter_hub _ _) (removeWaiter_calls _ _) (removeWaiter_nextCall _ _)
  · intro connId cmd hcmd
    rw [removeWaiter_outbox] at hcmd
    exact Or.inl hcmd
  · exact fun other k hget => Or.inl (pending_of_removeWaiter hget).2
  · exact fun other k hget => awaits_removeWaiter.mpr (h.awaits _ k (pending_of_removeWaiter hget).2)
  · intro connId k result hget
    rw [removeWaiter_handing] at hget
    exact Or.inl hget
  · intro k result hget
    rw [removeWaiter_value] at hget
    exact Or.inl hget

theorem Routed.insertWaiter {s : State Report Args} (h : Routed db ids reported s) {k : CallId}
    {call : Call Args} (hget : s.calls k = some call) {id : Uuid} (hid : call.commandId = id)
    (hwaiting : Waiting call.phase) (hawaits : Awaits s k) :
    Routed db ids reported (s.insertWaiter id k) := by
  have hnew : ∀ other l, (s.insertWaiter id k).pendingCmds other = some l →
      other = id ∧ l = k ∨ (s.removeWaiter id).pendingCmds other = some l := by
    intro other l hl
    change Function.update (s.removeWaiter id).pendingCmds id (some k) other = some l at hl
    by_cases heq : other = id
    · rw [heq, Function.update_self] at hl
      exact Or.inl ⟨heq, (Option.some.inj hl).symm⟩
    · rw [Function.update_of_ne heq] at hl
      exact Or.inr hl
  refine (h.removeWaiter id).of_calls rfl rfl rfl ?_ ?_ ?_ ?_ ?_
  · exact fun _ _ => Or.inl
  · intro other l hl
    rcases hnew other l hl with ⟨rfl, rfl⟩ | hold
    · refine Or.inr ⟨call, ?_, hid, hwaiting⟩
      rw [removeWaiter_calls, hget]
    · exact Or.inl hold
  · intro other l hl
    change Awaits (s.removeWaiter id) l
    rcases hnew other l hl with ⟨rfl, rfl⟩ | hold
    · exact awaits_removeWaiter.mpr hawaits
    · exact (h.removeWaiter id).awaits other l hold
  · exact fun _ _ _ => Or.inl
  · exact fun _ _ => Or.inl

theorem Routed.push {s : State Report Args} (h : Routed db ids reported s) {k : CallId}
    {call : Call Args} (hget : s.calls k = some call) {connId : ConnId}
    (hphase : call.phase = .send connId) :
    Routed db ids reported (s.push connId call.command) := by
  refine h.of_calls rfl rfl rfl ?_ ?_ h.awaits ?_ ?_
  · intro other cmd hcmd
    change cmd ∈ Function.update s.outbox connId _ other at hcmd
    by_cases hc : other = connId
    · rw [hc, Function.update_self, List.mem_append, List.mem_singleton] at hcmd
      rcases hcmd with hold | rfl
      · exact Or.inl (hc ▸ hold)
      · obtain ⟨conn, hconn, hagent⟩ := h.target k call connId hget (Or.inr hphase)
        refine Or.inr ⟨k, call, conn, hget, rfl, ?_, hc ▸ hconn, hagent⟩
        rw [hphase]
        trivial
    · rw [Function.update_of_ne hc] at hcmd
      exact Or.inl hcmd
  · exact fun _ _ => Or.inl
  · exact fun _ _ _ => Or.inl
  · exact fun _ _ => Or.inl

end KmControl.CommandTable
