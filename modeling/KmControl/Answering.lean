import KmControl.Machine

/-!
Requests to a machine that answers them in a list of outputs. An output is `true`
if it answers; a request may be followed by a bounded number of other outputs
before the one that answers it. `Owes s b` stands for a request that is still open
in state `s` and may be followed by `b` more outputs.
-/
namespace KmControl.Answering

/-- How many outputs there are before the first answer. -/
def unanswered (outputs : List Bool) : ℕ := (outputs.takeWhile fun o => !o).length

theorem unanswered_le_of_answer {outputs others rest : List Bool}
    (h : outputs = others ++ true :: rest) : unanswered outputs ≤ others.length := by
  subst h
  induction others with
  | nil => exact Nat.zero_le _
  | cons o others ih =>
    cases o with
    | true => exact Nat.zero_le _
    | false => exact Nat.succ_le_succ ih

theorem unanswered_le_length (outputs : List Bool) : unanswered outputs ≤ outputs.length :=
  (List.takeWhile_sublist _).length_le

variable {σ ι : Type*} (m : Machine σ ι) (out : σ → List Bool)

/-- Every request made while the machine runs is followed by at most `bound` other
outputs before its answer. -/
def AnsweredWithin (bound : ℕ) (running : σ → Bool) (request : ι) (ops : List ι) : Prop :=
  ∀ pre post, ops = pre ++ request :: post → running (m.run pre) = true →
    unanswered ((out (m.run ops)).drop (out (m.run pre)).length) ≤ bound

/-- What a step may do while an answer is owed: it puts out nothing, the answer, or
one of the `b` outputs that are left. -/
def Pays (Owes : σ → ℕ → Prop) (s s' : σ) (b : ℕ) : Prop :=
  (out s' = out s ∧ Owes s' b) ∨ out s' = out s ++ [true] ∨
    ∃ b', b = b' + 1 ∧ out s' = out s ++ [false] ∧ Owes s' b'

variable {m out}

/-- The outputs of a run that starts owing an answer: the answer is among them, or
it is still owed. -/
theorem outputs_of_owes {Owes : σ → ℕ → Prop} {C : σ → ι → Prop}
    (hpays : ∀ s op b, Owes s b → C s op → Pays out Owes s (m.step s op) b)
    (hgrows : ∀ s op, out s <+: out (m.step s op)) {pre : List ι} {b : ℕ}
    (howes : Owes (m.run pre) b) (post : List ι) (halong : m.Along C (pre ++ post)) :
    ∃ outputs, out (m.run (pre ++ post)) = out (m.run pre) ++ outputs ∧
      ((∃ others rest, outputs = others ++ true :: rest ∧ others.length ≤ b) ∨
        ∃ b', outputs.length + b' = b ∧ Owes (m.run (pre ++ post)) b') := by
  induction post using List.reverseRecOn with
  | nil =>
    rw [List.append_nil]
    exact ⟨[], (List.append_nil _).symm, Or.inr ⟨b, Nat.zero_add b, howes⟩⟩
  | append_singleton post op ih =>
    rw [← List.append_assoc] at halong ⊢
    obtain ⟨hpre, hop⟩ := Machine.along_concat.mp halong
    obtain ⟨outputs, hout, hcase⟩ := ih hpre
    rw [Machine.run_concat]
    rcases hcase with ⟨others, rest, hanswer, hle⟩ | ⟨b', hb, hstill⟩
    · obtain ⟨more, hmore⟩ := hgrows (m.run (pre ++ post)) op
      refine ⟨outputs ++ more, ?_, Or.inl ⟨others, rest ++ more, ?_, hle⟩⟩
      · rw [← hmore, hout, List.append_assoc]
      · rw [hanswer, List.append_assoc, List.cons_append]
    · rcases hpays _ op b' hstill hop with ⟨hsame, hkept⟩ | hanswer | ⟨b'', hless, hother, hkept⟩
      · exact ⟨outputs, hsame.trans hout, Or.inr ⟨b', hb, hkept⟩⟩
      · refine ⟨outputs ++ [true], ?_, Or.inl ⟨outputs, [], rfl, by omega⟩⟩
        rw [hanswer, hout, List.append_assoc]
      · refine ⟨outputs ++ [false], ?_, Or.inr ⟨b'', ?_, hkept⟩⟩
        · rw [hother, hout, List.append_assoc]
        · rw [List.length_append, List.length_singleton]
          omega

/-- If a request opens a debt and every step pays, every request is answered in time. -/
theorem answeredWithin_of_pays {Owes : σ → ℕ → Prop} {C : σ → ι → Prop} {bound : ℕ}
    {running : σ → Bool} {request : ι}
    (hopens : ∀ s, running s = true → Owes (m.step s request) bound ∧ out (m.step s request) = out s)
    (hpays : ∀ s op b, Owes s b → C s op → Pays out Owes s (m.step s op) b)
    (hgrows : ∀ s op, out s <+: out (m.step s op)) (ops : List ι) (halong : m.Along C ops) :
    AnsweredWithin m out bound running request ops := by
  rintro pre post rfl hrunning
  obtain ⟨howes, hsame⟩ := hopens _ hrunning
  rw [← Machine.run_concat] at howes hsame
  rw [List.append_cons] at halong ⊢
  obtain ⟨outputs, hout, hcase⟩ := outputs_of_owes hpays hgrows howes post halong
  rw [hout, hsame, List.drop_left]
  rcases hcase with ⟨others, rest, hanswer, hle⟩ | ⟨b', hb, -⟩
  · exact Nat.le_trans (unanswered_le_of_answer hanswer) hle
  · exact Nat.le_trans (unanswered_le_length outputs) (Nat.le.intro hb)

end KmControl.Answering
