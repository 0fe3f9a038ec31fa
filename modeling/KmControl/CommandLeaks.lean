import KmControl.CommandResults

/-!
Waiters that nobody waits for. A handler takes its waiter out of the table on each path
on which it returns, but when its caller goes away it is dropped where it waits, and the
waiter stays.
-/
namespace KmControl.CommandLeaks

open Hub hiding State Op Response step machine
open Commands CommandSteps CommandTable

variable {Report Args : Type} {db : Db} {low : Report → Bool}

/-- The handler has not returned and has not been dropped. -/
def Running : CallPhase → Prop
  | .lookup | .insert _ | .send _ | .unsent | .wait | .dropped | .timedOut => True
  | .answered _ | .gone => False

/-- Each waiter in the table is that of a running handler. -/
def NoLeak (s : State Report Args) : Prop :=
  ∀ id k, s.pendingCmds id = some k →
    ∃ call, s.calls k = some call ∧ call.commandId = id ∧ Running call.phase

/-- A caller goes away while its handler waits and the waiter is in the table. -/
def Abandons (s : State Report Args) (op : Op Report Args) : Prop :=
  ∃ k call, op = .call k .leave ∧ s.calls k = some call ∧ call.phase = .wait ∧
    s.pendingCmds call.commandId = some k

/-- The handler has not put its waiter into the table. -/
def Early (s : State Report Args) (k : CallId) : Prop :=
  ∀ call, s.calls k = some call → ¬ Inserted call.phase

/-- The table holds waiters of running handlers only, and no result is on its way to them
or to handlers that have none yet. -/
structure Tidy (s : State Report Args) : Prop where
  numbered : Numbered s
  pending : ∀ id k, s.pendingCmds id = some k → ∃ call, s.calls k = some call ∧
    call.commandId = id ∧ Running call.phase ∧ Inserted call.phase
  awaits : ∀ id k, s.pendingCmds id = some k → Awaits s k
  early : ∀ k, Early s k → Awaits s k

section Steps

variable {s t : State Report Args} {k : CallId} {call : Call Args}

theorem Tidy.noLeak (h : Tidy s) : NoLeak s := by
  intro id k hpending
  obtain ⟨call, hget, hid, hrunning, -⟩ := h.pending id k hpending
  exact ⟨call, hget, hid, hrunning⟩

/-- A waiter in the table is there under the id of its handler. -/
theorem Tidy.waiter (h : Tidy s) (hget : s.calls k = some call) {id : Uuid}
    (hpending : s.pendingCmds id = some k) :
    call.commandId = id ∧ Running call.phase ∧ Inserted call.phase := by
  obtain ⟨other, hother, hrest⟩ := h.pending id k hpending
  rw [hget] at hother
  cases hother
  exact hrest

/-- A step in which a handler goes on, no waiter is added and no result is passed on. -/
theorem Tidy.goes_on (h : Tidy s) (hnumbered : Numbered t) (hget : s.calls k = some call)
    {phase : CallPhase} (hcalls : t.calls = Function.update s.calls k (some { call with phase := phase }))
    (hinserted : Inserted call.phase → Inserted phase)
    (hpending : ∀ id l, t.pendingCmds id = some l → s.pendingCmds id = some l)
    (hawaits : ∀ l, Awaits s l → Awaits t l)
    (hrunning : t.pendingCmds call.commandId = some k → Running phase) : Tidy t where
  numbered := hnumbered
  pending id l hl := by
    have hold := hpending id l hl
    rw [hcalls]
    by_cases hk : l = k
    · subst hk
      obtain ⟨hid, -, hin⟩ := h.waiter hget hold
      exact ⟨_, Function.update_self _ _ _, hid, hrunning (hid ▸ hl), hinserted hin⟩
    · rw [Function.update_of_ne hk]
      exact h.pending id l hold
  awaits id l hl := hawaits l (h.awaits id l (hpending id l hl))
  early l hl := by
    refine hawaits l (h.early l fun other hother hin => ?_)
    by_cases hk : l = k
    · subst hk
      rw [hget] at hother
      cases hother
      refine hl { call with phase := phase } ?_ (hinserted hin)
      rw [hcalls, Function.update_self]
    · refine hl other ?_ hin
      rw [hcalls, Function.update_of_ne hk]
      exact hother

/-- A handler whose waiter has just been put into the table. -/
theorem Tidy.insert (h : Tidy s) (hget : s.calls k = some call) {connId : ConnId}
    (hphase : call.phase = .insert connId)
    (hnumbered : Numbered ((s.setPhase k call (.send connId)).insertWaiter call.commandId k)) :
    Tidy ((s.setPhase k call (.send connId)).insertWaiter call.commandId k) := by
  have hearly : Early s k := by
    intro other hother hin
    rw [hget] at hother
    cases hother
    rw [hphase] at hin
    exact hin
  have hawaits : ∀ l, Awaits s l →
      Awaits ((s.setPhase k call (.send connId)).insertWaiter call.commandId k) l :=
    fun l hl => awaits_removeWaiter.mpr hl
  have hcalls : ((s.setPhase k call (.send connId)).insertWaiter call.commandId k).calls =
      Function.update s.calls k (some { call with phase := .send connId }) :=
    removeWaiter_calls _ _
  have hnew : ∀ id l, ((s.setPhase k call (.send connId)).insertWaiter
      call.commandId k).pendingCmds id = some l →
        id = call.commandId ∧ l = k ∨ s.pendingCmds id = some l := by
    intro id l hl
    change Function.update ((s.setPhase k call (.send connId)).removeWaiter
      call.commandId).pendingCmds call.commandId (some k) id = some l at hl
    by_cases hid : id = call.commandId
    · rw [hid, Function.update_self] at hl
      exact Or.inl ⟨hid, (Option.some.inj hl).symm⟩
    · rw [Function.update_of_ne hid] at hl
      exact Or.inr (pending_of_removeWaiter hl).2
  refine ⟨hnumbered, ?_, ?_, ?_⟩
  · intro id l hl
    rw [hcalls]
    by_cases hk : l = k
    · subst hk
      refine ⟨_, Function.update_self _ _ _, ?_, trivial, trivial⟩
      rcases hnew id l hl with ⟨rfl, -⟩ | hold
      · rfl
      · exact (h.waiter hget hold).1
    · rw [Function.update_of_ne hk]
      rcases hnew id l hl with ⟨-, hsame⟩ | hold
      · exact absurd hsame hk
      · exact h.pending id l hold
  · intro id l hl
    rcases hnew id l hl with ⟨-, rfl⟩ | hold
    · exact hawaits l (h.early l hearly)
    · exact hawaits l (h.awaits id l hold)
  · intro l hl
    refine hawaits l (h.early l fun other hother hin => ?_)
    by_cases hk : l = k
    · subst hk
      exact hearly other hother hin
    · refine hl other ?_ hin
      rw [hcalls, Function.update_of_ne hk]
      exact hother

/-- A move of a handler, unless its caller abandons it. -/
theorem Tidy.move (h : Tidy s) {input : CallInput} {phase : CallPhase}
    (hget : s.calls k = some call) (hmove : CallMove s k call input phase t)
    (hnumbered : Numbered t) (hkept : ¬ Abandons s (.call k input)) : Tidy t := by
  have hcalls := (hmove.calls hget).1
  have hinserted := hmove.later.inserted
  cases hmove with
  | stay => exact h
  | insert connId hphase => exact h.insert hget hphase hnumbered
  | offline hphase | online connId hphase =>
    refine h.goes_on hnumbered hget hcalls hinserted (fun _ _ => id) (fun _ => id) fun hpending => ?_
    have hin := (h.waiter hget hpending).2.2
    rw [hphase] at hin
    exact absurd hin id
  | send connId hphase | fail connId hphase | dropped hphase | timeout hphase =>
    exact h.goes_on hnumbered hget hcalls hinserted (fun _ _ => id) (fun _ => id) fun _ => trivial
  | receive result hphase hvalue =>
    refine h.goes_on hnumbered hget hcalls hinserted (fun _ _ => id) (fun _ => id) fun hpending => ?_
    have hnone := (h.awaits _ k hpending).1
    rw [hvalue] at hnone
    cases hnone
  | leave hphase =>
    refine h.goes_on hnumbered hget hcalls hinserted (fun _ _ => id) (fun _ => id) fun hpending => ?_
    exact absurd ⟨k, call, rfl, hget, hphase, hpending⟩ hkept
  | finish status message hphase =>
    refine h.goes_on hnumbered hget hcalls hinserted ?_ ?_ ?_
    · exact fun id l hl => (pending_of_removeWaiter hl).2
    · exact fun l hl => awaits_removeWaiter.mpr hl
    · exact fun hpending => absurd rfl (pending_of_removeWaiter hpending).1

theorem Tidy.runCommand (h : Tidy s) (agentId : Uuid) (req : CommandApiReq Args)
    (commandId : Uuid) (hnumbered : Numbered (s.runCommand agentId req commandId)) :
    Tidy (s.runCommand agentId req commandId) := by
  have hold : ∀ l other, s.calls l = some other →
      (s.runCommand agentId req commandId).calls l = some other := by
    intro l other hother
    change Function.update s.calls s.nextCall _ l = some other
    rw [Function.update_of_ne (Nat.ne_of_lt (h.numbered.lt hother)), hother]
  refine ⟨hnumbered, ?_, h.awaits, ?_⟩
  · intro id l hl
    obtain ⟨other, hother, hrest⟩ := h.pending id l hl
    exact ⟨other, hold l other hother, hrest⟩
  · exact fun l hl => h.early l fun other hother => hl other (hold l other hother)

/-- A connection's task takes a waiter out of the table. -/
theorem Tidy.commandResult (h : Tidy s) {id : Uuid} (hpending : s.pendingCmds id = some k)
    (connId : ConnId) (result : CommandResult) : Tidy { s with
      pendingCmds := Function.update s.pendingCmds id none
      handing := Function.update s.handing connId (some (k, result)) } := by
  have hlater : ∀ l, l ≠ k → Awaits s l → Awaits { s with
      pendingCmds := Function.update s.pendingCmds id none
      handing := Function.update s.handing connId (some (k, result)) } l := by
    intro l hl hawaits
    refine ⟨hawaits.1, fun other r => ?_⟩
    change Function.update s.handing connId (some (k, result)) other ≠ _
    by_cases hconn : other = connId
    · rw [hconn, Function.update_self]
      intro heq
      exact hl (congrArg Prod.fst (Option.some.inj heq)).symm
    · rw [Function.update_of_ne hconn]
      exact hawaits.2 other r
  have hother : ∀ other l, Function.update s.pendingCmds id none other = some l →
      other ≠ id ∧ s.pendingCmds other = some l := by
    intro other l hl
    by_cases hid : other = id
    · rw [hid, Function.update_self] at hl
      cases hl
    · rw [Function.update_of_ne hid] at hl
      exact ⟨hid, hl⟩
  obtain ⟨call, hget, hid, -, hin⟩ := h.pending id k hpending
  refine ⟨h.numbered, ?_, ?_, ?_⟩
  · exact fun other l hl => h.pending other l (hother other l hl).2
  · intro other l hl
    obtain ⟨hne, hold⟩ := hother other l hl
    refine hlater l ?_ (h.awaits other l hold)
    rintro rfl
    exact hne ((h.waiter hget hold).1.symm.trans hid)
  · intro l hl
    refine hlater l ?_ (h.early l hl)
    rintro rfl
    exact hl call hget hin

/-- A result is passed on to a handler whose waiter is no longer in the table. -/
theorem Tidy.hand (h : Tidy s) {connId : ConnId} {result : CommandResult}
    (hhanding : s.handing connId = some (k, result)) (value : Option CommandResult) :
    Tidy { s.close k value with handing := Function.update s.handing connId none } := by
  have hlater : ∀ l, Awaits s l →
      Awaits { s.close k value with handing := Function.update s.handing connId none } l := by
    intro l hawaits
    have hl : l ≠ k := by
      rintro rfl
      exact hawaits.2 connId result hhanding
    refine ⟨?_, fun other r => ?_⟩
    · change (Function.update s.channels k _ l).value = none
      rw [Function.update_of_ne hl]
      exact hawaits.1
    · change Function.update s.handing connId none other ≠ _
      by_cases hconn : other = connId
      · rw [hconn, Function.update_self]
        nofun
      · rw [Function.update_of_ne hconn]
        exact hawaits.2 other r
  exact ⟨h.numbered, h.pending, fun id l hl => hlater l (h.awaits id l hl),
    fun l hl => hlater l (h.early l hl)⟩

theorem Tidy.step (h : Tidy s) {op : Op Report Args} (hkept : ¬ Abandons s op) :
    Tidy (step db low s op) := by
  have hnumbered : Numbered (Commands.step db low s op) := h.numbered.step op
  revert hnumbered
  apply step_rule (I := fun t => Numbered t → Tidy t)
  · exact fun _ => h
  · exact fun _ _ _ => ⟨h.numbered, h.pending, h.awaits, h.early⟩
  · exact fun agentId req commandId _ hnext => h.runCommand agentId req commandId hnext
  · rintro k input call phase t rfl hget hmove hnext
    exact h.move hget hmove hnext hkept
  · exact fun connId result k _ _ hpending _ => h.commandResult hpending connId result
  · exact fun connId k result value _ hhanding _ _ => h.hand hhanding value

end Steps

/-- In every state of a run the waiters belong to running handlers, precisely if no caller
goes away while its handler waits with its waiter in the table. -/
theorem noLeak_iff (ops : List (Op Report Args)) :
    (∀ pre, pre <+: ops → NoLeak ((machine db low).run pre)) ↔
      (machine db low).Along (fun s op => ¬ Abandons s op) ops := by
  constructor
  · rintro h pre op hpre ⟨k, call, rfl, hget, hphase, hpending⟩
    have hafter := h _ hpre
    rw [Machine.run_concat] at hafter
    have hstep : (machine db low).step ((machine db low).run pre) (.call k .leave) =
        ((machine db low).run pre).setPhase k call .gone := by
      change ((machine db low).run pre).call k .leave = _
      unfold Commands.State.call State.callStep
      simp only [hget, hphase]
    rw [hstep] at hafter
    obtain ⟨other, hother, -, hrunning⟩ := hafter call.commandId k hpending
    rw [setPhase_self] at hother
    cases hother
    exact hrunning
  · intro hkept pre hpre
    have htidy : Tidy ((machine db low).run pre) :=
      Machine.run_invariant_along ⟨fun _ _ => rfl, nofun, nofun, fun _ _ => ⟨rfl, nofun⟩⟩
        (fun s op hs hop => hs.step hop) pre (hkept.of_prefix hpre)
    exact htidy.noLeak

/-- The caller of a command goes away before the agent answers. -/
theorem waiter_leaked :
    ¬ NoLeak ((machine CommandResults.oneLaptop fun _ => false).run
      (CommandResults.asking ++ [.call 0 .leave])) := by
  intro h
  have hpending : ((machine CommandResults.oneLaptop fun _ => false).run
      (CommandResults.asking ++ [.call 0 .leave])).pendingCmds 7 = some 0 := by decide
  obtain ⟨call, hget, -, hrunning⟩ := h 7 0 hpending
  have hphase : (((machine CommandResults.oneLaptop fun _ => false).run
      (CommandResults.asking ++ [.call 0 .leave])).calls 0).map (·.phase) = some .gone := by decide
  rw [hget] at hphase
  have hgone : call.phase = .gone := Option.some.inj hphase
  rw [hgone] at hrunning
  exact hrunning

end KmControl.CommandLeaks
