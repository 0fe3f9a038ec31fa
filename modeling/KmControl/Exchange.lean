import Mathlib.Data.List.Basic

/-!
Programs that ask and go on with the replies. Run on given replies, such a program says
what it makes of them, whoever has sent them; served by a responder with a state, every
reply is what the state gives at that moment.
-/
namespace KmControl

inductive Exchange (Req Rep α : Type) where
  | failed
  | done (result : α)
  | ask (request : Req) (next : Rep → Exchange Req Rep α)

namespace Exchange

variable {Req Rep α β σ ι : Type}

/-- Go on with a value, or fail. -/
def attempt : Option β → (β → Exchange Req Rep α) → Exchange Req Rep α
  | none, _ => .failed
  | some b, next => next b

/-- What comes of the replies; one that does not arrive ends the program. -/
def run : Exchange Req Rep α → List (Option Rep) → Option α
  | .failed, _ => none
  | .done result, _ => some result
  | .ask _ next, some reply :: replies => (next reply).run replies
  | .ask _ _, _ => none

/-- What comes of it with a responder, and the state in which the responder is left. Each
turn can bring changes of its own before the request. -/
def serve (answer : ι → σ → Req → σ × Rep) : Exchange Req Rep α → σ → List ι → Option α × σ
  | .failed, s, _ => (none, s)
  | .done result, s, _ => (some result, s)
  | .ask _ _, s, [] => (none, s)
  | .ask request next, s, turn :: turns =>
    (next (answer turn s request).2).serve answer (answer turn s request).1 turns

@[simp] theorem attempt_some (b : β) (next : β → Exchange Req Rep α) :
    attempt (some b) next = next b := rfl

theorem serve_ask (answer : ι → σ → Req → σ × Rep) (request : Req)
    (next : Rep → Exchange Req Rep α) (s : σ) (turn : ι) (turns : List ι) :
    (ask request next).serve answer s (turn :: turns) =
      (next (answer turn s request).2).serve answer (answer turn s request).1 turns := rfl

theorem run_attempt_iff {o : Option β} {next : β → Exchange Req Rep α}
    {replies : List (Option Rep)} {a : α} :
    (attempt o next).run replies = some a ↔ ∃ b, o = some b ∧ (next b).run replies = some a := by
  cases o with
  | none => exact iff_of_false nofun fun ⟨_, h, _⟩ => nomatch h
  | some b => exact ⟨fun h => ⟨b, rfl, h⟩, fun ⟨_, hb, h⟩ => Option.some.inj hb ▸ h⟩

theorem run_ask_iff {request : Req} {next : Rep → Exchange Req Rep α}
    {replies : List (Option Rep)} {a : α} :
    (ask request next).run replies = some a ↔
      ∃ reply rest, replies = some reply :: rest ∧ (next reply).run rest = some a := by
  constructor
  · intro h
    match replies with
    | [] | none :: _ => cases h
    | some reply :: rest => exact ⟨reply, rest, rfl, h⟩
  · rintro ⟨reply, rest, rfl, h⟩
    exact h

theorem run_done_iff {result a : α} {replies : List (Option Rep)} :
    (done result : Exchange Req Rep α).run replies = some a ↔ result = a :=
  Option.some_inj

end Exchange

end KmControl
