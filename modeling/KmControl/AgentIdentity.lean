import KmControl.AgentLoop

/-!
When an agent drops its identity. Every way in which the wait for the hub's answer ends
without `HelloOk` gives an error whose text speaks of the Hello, and so the identity is
dropped whether the hub has refused it or the connection has failed.
-/
namespace KmControl.AgentIdentity

open Laptops AgentLoop

section Texts

theorem contains_append (a part b : String) : contains (a ++ part ++ b) part = true := by
  refine decide_eq_true ⟨a.toList, b.toList, ?_⟩
  rw [String.toList_append, String.toList_append]

theorem isAuthFailure_closed :
    isAuthFailure "hub closed connection during hello (auth failed?)" = true := by
  have htext : "hub closed connection during hello (auth failed?)" =
      "hub closed connection " ++ "during hello" ++ " (auth failed?)" := by simp
  rw [htext]
  exact contains_append _ _ _

theorem isAuthFailure_during (e : String) : isAuthFailure ("ws error during hello: " ++ e) = true := by
  have htext : "ws error during hello: " ++ e = "ws error " ++ "during hello" ++ (": " ++ e) := by
    rw [← String.append_assoc]
    congr 1
  rw [htext]
  exact contains_append _ _ _

/-- A text that is too short does not speak of the Hello. -/
theorem not_isAuthFailure_of_length {e : String} (h : e.toList.length < 12) :
    isAuthFailure e = false :=
  decide_eq_false fun hinfix => absurd hinfix.length_le (Nat.not_le.mpr h)

theorem not_isAuthFailure_recv {e : WsError} : isAuthFailure ("ws recv: " ++ e.text) = false := by
  have hplain := of_decide_eq_false e.plain
  refine decide_eq_false fun hinfix => hplain ?_
  rw [String.toList_append] at hinfix
  simpa [List.infix_cons_iff] using hinfix

end Texts

section Hello

/-- What ends the wait for the answer, unless a `HelloOk` has ended it. -/
def decides : Arrival → Bool
  | .text _ => false
  | .control => false
  | _ => true

def endedBy (arrives : List Arrival) : Option Arrival := arrives.find? decides

variable {ans : Item} {arrives : List Arrival}

theorem awaitHello_of_none (h : endedBy arrives = none) :
    awaitHello (arrives.map (Arrival.item ans)) = none := by
  induction arrives with
  | nil => rfl
  | cons a rest ih =>
    unfold endedBy at h ih
    rw [List.find?_cons] at h
    cases a with
    | text runCommand => cases runCommand <;> exact ih h
    | control => exact ih h
    | answer | closed | ended | error e => exact nomatch h

/-- Texts and control frames are passed over. -/
theorem awaitHello_of_some {a : Arrival} (h : endedBy arrives = some a) :
    ∃ rest, awaitHello (arrives.map (Arrival.item ans)) = awaitHello (a.item ans :: rest) := by
  induction arrives with
  | nil => exact nomatch h
  | cons b rest ih =>
    unfold endedBy at h ih
    rw [List.find?_cons] at h
    cases b with
    | text runCommand => cases runCommand <;> exact ih h
    | control => exact ih h
    | answer | closed | ended | error e =>
      obtain rfl := Option.some.inj h
      exact ⟨_, rfl⟩

theorem decides_of_endedBy {a : Arrival} (h : endedBy arrives = some a) : decides a = true :=
  List.find?_some h

/-- Everything else than the answer is taken for a rejection. -/
theorem awaitHello_of_other {a : Arrival} (h : endedBy arrives = some a) (hother : a ≠ .answer) :
    ∃ e, awaitHello (arrives.map (Arrival.item ans)) = some (.error e) ∧ isAuthFailure e = true := by
  obtain ⟨rest, heq⟩ := @awaitHello_of_some ans arrives a h
  have hdecides := decides_of_endedBy h
  rw [heq]
  cases a with
  | answer => exact absurd rfl hother
  | text runCommand | control => exact nomatch hdecides
  | closed | ended => exact ⟨_, rfl, isAuthFailure_closed⟩
  | error e => exact ⟨_, rfl, isAuthFailure_during e.text⟩

theorem receive_error {items : List Item} {e : String} (h : receive items = some (.error e)) :
    isAuthFailure e = false := by
  induction items with
  | nil => exact nomatch h
  | cons item rest ih =>
    cases item with
    | text frame | control => exact ih h
    | close | ended => exact nomatch h
    | error cause =>
      obtain rfl := Except.error.inj (Option.some.inj h)
      exact not_isAuthFailure_recv

end Hello

section Turns

variable {s : System} {turn : Turn}

/-- The hub has no such laptop, and says so. -/
def NoMatch (s : System) (turn : Turn) : Prop :=
  turn.queryFails = false ∧
    verifyAgent s.table s.state.agentId s.state.provisionToken = none

theorem answer_cases (s : System) (turn : Turn) :
    (answer s.table turn.queryFails s.state = .close ∧ (turn.queryFails = true ∨ NoMatch s turn)) ∨
      answer s.table turn.queryFails s.state = .text (some .helloOk) ∧ turn.queryFails = false ∧
        ¬ NoMatch s turn := by
  unfold answer handleHello verify NoMatch
  cases turn.queryFails with
  | true => exact Or.inl ⟨rfl, Or.inl rfl⟩
  | false =>
    cases hverify : verifyAgent s.table s.state.agentId s.state.provisionToken with
    | none => exact Or.inl ⟨rfl, Or.inr ⟨rfl, rfl⟩⟩
    | some name => exact Or.inr ⟨rfl, rfl, fun h => nomatch h.2⟩

/-- The error of the turn is taken for a rejection. -/
def Drops (s : System) (turn : Turn) : Prop :=
  ∃ e, connectOnce s.table s.state turn = some (.error e) ∧ isAuthFailure e = true

/-- The Hello was sent, and the wait for its answer was ended by `a`. -/
def HelloEndedBy (turn : Turn) (a : Arrival) : Prop :=
  turn.connected = true ∧ turn.sent = true ∧ endedBy turn.arrives = some a

theorem not_drops_of_unsent (h : ¬ (turn.connected = true ∧ turn.sent = true)) : ¬ Drops s turn := by
  rintro ⟨e, he, hfailure⟩
  unfold connectOnce at he
  split at he
  · obtain rfl := Except.error.inj (Option.some.inj he)
    rw [not_isAuthFailure_of_length (by decide)] at hfailure
    exact nomatch hfailure
  split at he
  · obtain rfl := Except.error.inj (Option.some.inj he)
    rw [not_isAuthFailure_of_length (by decide)] at hfailure
    exact nomatch hfailure
  · rename_i hconnected hsent
    rw [Bool.not_eq_false] at hconnected hsent
    exact h ⟨hconnected, hsent⟩

/-- Once the Hello is sent, the outcome is that of the wait for its answer. -/
theorem connectOnce_of_sent (hconnected : turn.connected = true) (hsent : turn.sent = true) :
    connectOnce s.table s.state turn =
      match awaitHello (turn.arrives.map
        (Arrival.item (answer s.table turn.queryFails s.state))) with
      | none => none
      | some (.error e) => some (.error e)
      | some (.ok rest) => receive rest := by
  have hc : ¬ turn.connected = false := by rw [hconnected]; decide
  have hs : ¬ turn.sent = false := by rw [hsent]; decide
  exact (if_neg hc).trans (if_neg hs)

theorem drops_of_awaitHello (hconnected : turn.connected = true) (hsent : turn.sent = true) {e : String}
    (h : awaitHello (turn.arrives.map (Arrival.item (answer s.table turn.queryFails s.state))) =
      some (.error e)) (hfailure : isAuthFailure e = true) : Drops s turn :=
  ⟨e, by rw [connectOnce_of_sent hconnected hsent, h], hfailure⟩

/-- The identity is dropped exactly if the wait ends other than by a `HelloOk`. -/
theorem drops_iff : Drops s turn ↔ ∃ a, HelloEndedBy turn a ∧
    (a = .answer → answer s.table turn.queryFails s.state = .close) := by
  by_cases hgone : turn.connected = true ∧ turn.sent = true
  swap
  · exact iff_of_false (not_drops_of_unsent hgone) fun ⟨a, ⟨hc, hs, _⟩, _⟩ => hgone ⟨hc, hs⟩
  obtain ⟨hconnected, hsent⟩ := hgone
  cases hended : endedBy turn.arrives with
  | none =>
    refine iff_of_false ?_ fun ⟨a, ⟨_, _, h⟩, _⟩ => nomatch hended.symm.trans h
    rintro ⟨e, he, -⟩
    rw [connectOnce_of_sent hconnected hsent, awaitHello_of_none hended] at he
    exact nomatch he
  | some a =>
    by_cases ha : a = .answer
    swap
    · obtain ⟨e, he, hfailure⟩ := awaitHello_of_other hended ha
      exact iff_of_true (drops_of_awaitHello hconnected hsent he hfailure)
        ⟨a, ⟨hconnected, hsent, hended⟩, fun h => absurd h ha⟩
    obtain rfl := ha
    obtain ⟨rest, hrest⟩ :=
      @awaitHello_of_some (answer s.table turn.queryFails s.state) turn.arrives .answer hended
    change _ = awaitHello (answer s.table turn.queryFails s.state :: rest) at hrest
    rcases answer_cases s turn with ⟨hclose, -⟩ | ⟨hok, -⟩
    · have herror := hrest.trans (congrArg (fun item => awaitHello (item :: rest)) hclose)
      exact iff_of_true (drops_of_awaitHello hconnected hsent herror isAuthFailure_closed)
        ⟨.answer, ⟨hconnected, hsent, hended⟩, fun _ => hclose⟩
    · refine iff_of_false ?_ fun ⟨a, ⟨_, _, h⟩, hclose⟩ => ?_
      · rintro ⟨e, he, hfailure⟩
        rw [connectOnce_of_sent hconnected hsent, hrest, hok] at he
        rw [receive_error he] at hfailure
        exact nomatch hfailure
      · obtain rfl := Option.some.inj (hended.symm.trans h)
        exact nomatch hok.symm.trans (hclose rfl)

end Turns

section Runs

variable {state : AgentState} {file : Option AgentState} {table : Table} {ops : List Op}

/-- The file changed, or provisioning was begun again. -/
def Dropped (s s' : System) : Prop := s'.file ≠ s.file ∨ s'.reprovisions ≠ s.reprovisions

/-- The hub refused the turn's Hello because it has no matching laptop. -/
def Rejected (s : System) : Op → Prop
  | .turn turn => HelloEndedBy turn .answer ∧ NoMatch s turn
  | .table _ => False

/-- The identity is dropped only by rejections. -/
def OnlyRejected (state : AgentState) (file : Option AgentState) (table : Table) (ops : List Op) : Prop :=
  ∀ pre op, pre ++ [op] <+: ops →
    Dropped ((machine state file table).run pre) ((machine state file table).run (pre ++ [op])) →
      Rejected ((machine state file table).run pre) op

/-- If the wait for the answer ends, then by the answer, and the hub's query does not fail. -/
def Undisturbed (s : System) : Op → Prop
  | .turn turn => s.stopped = false → ∀ a, HelloEndedBy turn a → a = .answer ∧ turn.queryFails = false
  | .table _ => True

theorem not_dropped {s s' : System} (hfile : s'.file = s.file)
    (hcount : s'.reprovisions = s.reprovisions) : ¬ Dropped s s' :=
  fun h => h.elim (absurd hfile) (absurd hcount)

theorem dropped_step_iff (s : System) (turn : Turn) :
    Dropped s (step s (.turn turn)) ↔ s.stopped = false ∧ Drops s turn := by
  unfold step
  cases hstopped : s.stopped with
  | true => exact iff_of_false (not_dropped rfl rfl) fun h => nomatch h.1
  | false =>
    dsimp only
    rw [if_neg Bool.false_ne_true]
    cases hconnect : connectOnce s.table s.state turn with
    | none =>
      refine iff_of_false (not_dropped rfl rfl) ?_
      rintro ⟨-, e, he, -⟩
      exact nomatch hconnect.symm.trans he
    | some outcome =>
      cases outcome with
      | ok u =>
        refine iff_of_false (not_dropped rfl rfl) ?_
        rintro ⟨-, e, he, -⟩
        exact nomatch hconnect.symm.trans he
      | error e =>
        dsimp only
        cases hfailure : isAuthFailure e with
        | true =>
          rw [if_pos rfl]
          exact iff_of_true (Or.inr (Nat.succ_ne_self _)) ⟨rfl, e, hconnect, hfailure⟩
        | false =>
          rw [if_neg Bool.false_ne_true]
          refine iff_of_false (not_dropped rfl rfl) ?_
          rintro ⟨-, e', he, hfailure'⟩
          obtain rfl := Except.error.inj (Option.some.inj (hconnect.symm.trans he))
          exact nomatch hfailure.symm.trans hfailure'

/-- One step drops the identity only after a rejection exactly if it is undisturbed. -/
theorem rejected_iff_undisturbed (s : System) (op : Op) :
    (Dropped s (step s op) → Rejected s op) ↔ Undisturbed s op := by
  cases op with
  | table t => exact iff_of_true (fun h => absurd h (not_dropped rfl rfl)) trivial
  | turn turn =>
    rw [dropped_step_iff, drops_iff]
    constructor
    · intro h hstopped a hended
      by_cases hclose : a = .answer → answer s.table turn.queryFails s.state = .close
      · obtain ⟨hanswer, hnone⟩ := h ⟨hstopped, a, hended, hclose⟩
        exact ⟨Option.some.inj (hended.2.2.symm.trans hanswer.2.2), hnone.1⟩
      · obtain ⟨rfl, hok⟩ := Classical.not_imp.mp hclose
        rcases answer_cases s turn with ⟨h, -⟩ | ⟨-, hquery, -⟩
        · exact absurd h hok
        · exact ⟨rfl, hquery⟩
    · rintro h ⟨hstopped, a, hended, hclose⟩
      obtain ⟨rfl, hquery⟩ := h hstopped a hended
      rcases answer_cases s turn with ⟨-, hfails | hnone⟩ | ⟨hok, -⟩
      · exact nomatch hquery.symm.trans hfails
      · exact ⟨hended, hnone⟩
      · exact nomatch hok.symm.trans (hclose rfl)

theorem onlyRejected_iff :
    OnlyRejected state file table ops ↔ (machine state file table).Along Undisturbed ops := by
  refine forall₃_congr fun pre op _ => ?_
  rw [Machine.run_concat]
  exact rejected_iff_undisturbed _ op

/-- A connection that breaks before the answer costs any registered laptop its identity. -/
theorem dropped_of_other {turn : Turn} {a : Arrival} (htoken : state.provisionToken ≠ "")
    (hended : HelloEndedBy turn a) (hother : a ≠ .answer) :
    ¬ OnlyRejected state file table [.turn turn] := by
  intro honly
  have hstopped : ((machine state file table).run []).stopped = false := decide_eq_false htoken
  have hdrops : Drops ((machine state file table).run []) turn :=
    drops_iff.mpr ⟨a, hended, fun h => absurd h hother⟩
  have hdropped : Dropped ((machine state file table).run [])
      ((machine state file table).run ([] ++ [.turn turn])) := by
    rw [Machine.run_concat]
    exact (dropped_step_iff _ turn).mpr ⟨hstopped, hdrops⟩
  obtain ⟨hanswer, -⟩ := honly [] (.turn turn) (List.prefix_refl _) hdropped
  exact hother (Option.some.inj (hended.2.2.symm.trans hanswer.2.2))

/-- A laptop that the hub knows. -/
def registered : AgentState := ⟨7, "student-01", "secret"⟩

def brokenTurn : Turn where
  connected := true
  sent := true
  arrives := [.ended]
  queryFails := false
  removed := true
  mac := "52:54:00:00:00:01"
  tries := []
  saved := false
  fallback := (8, "student-temp-000008")

theorem dropped_without_rejection :
    ¬ OnlyRejected registered (some registered) [⟨registered, "52:54:00:00:00:01"⟩]
      [.turn brokenTurn] := by
  have htoken : registered.provisionToken ≠ "" := by simp [registered]
  exact dropped_of_other htoken ⟨rfl, rfl, rfl⟩ nofun

end Runs

end KmControl.AgentIdentity
