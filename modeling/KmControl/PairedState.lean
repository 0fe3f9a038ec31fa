import KmControl.Machine
import KmControl.SortedMap
import Mathlib.Data.String.Basic

/-!
The paired clients of the host and the file that keeps them. A call inserts its client
under the lock, then makes a copy of the data, and then writes the copy, without the
lock: so the copy can be an old one, and a write that fails finds the client inserted.
-/
namespace KmControl.PairedState

section Data

/-- The certificate of each client by its id, and the fingerprints of all of them. -/
structure StateData where
  clients : SortedMap String String
  pairedFingerprints : List String
deriving DecidableEq

def StateData.empty : StateData := ⟨SortedMap.empty, []⟩

structure Client where
  id : String
  fingerprint : String
  pem : String
deriving DecidableEq

def StateData.hasClient (d : StateData) (id : String) : Bool := (d.clients.find? id).isSome

def StateData.hasPairedCert (d : StateData) (fingerprint : String) : Bool :=
  d.pairedFingerprints.any fun f => f = fingerprint

def StateData.insert (d : StateData) (client : Client) : StateData where
  clients := d.clients.insert client.id client.pem
  pairedFingerprints :=
    if d.hasPairedCert client.fingerprint then d.pairedFingerprints
    else d.pairedFingerprints ++ [client.fingerprint]

/-- The file: what was written of some data, or what a write that failed has left. -/
inductive File where
  | missing
  | json (d : StateData)
  | broken
deriving DecidableEq

/-- What the host starts with; a file that cannot be parsed keeps it from starting. -/
def File.loadOrDefault : File → Option StateData
  | .missing => some StateData.empty
  | .json d => some d
  | .broken => none

/-- How the write of a file ends. -/
inductive Outcome where
  | done
  | failed (left : File)
deriving DecidableEq

def Outcome.ok : Outcome → Bool
  | .done => true
  | .failed _ => false

def Outcome.file (json : StateData) : Outcome → File
  | .done => .json json
  | .failed left => left

end Data

section Calls

/-- Where a call of `add_paired` stands. -/
inductive Phase where
  | inserted
  | serialised (json : StateData)
  | returned (ok : Bool)
deriving DecidableEq

structure Call where
  /-- Its insertion has changed the data. -/
  changed : Bool
  phase : Phase
deriving DecidableEq

structure State where
  data : StateData
  file : File
  calls : List Call
deriving DecidableEq

inductive Op where
  /-- A call begins and inserts its client. -/
  | insert (client : Client)
  | serialise (i : ℕ)
  | write (i : ℕ) (outcome : Outcome)
deriving DecidableEq

namespace State

/-- The state after `load_or_default`, from a file or without one. -/
def load : Option StateData → State
  | none => ⟨StateData.empty, .missing, []⟩
  | some d => ⟨d, .json d, []⟩

def setCall (s : State) (i : ℕ) (call : Call) : State := { s with calls := s.calls.set i call }

def insert (s : State) (client : Client) : State where
  data := s.data.insert client
  file := s.file
  calls := s.calls ++ [⟨s.data.insert client ≠ s.data, .inserted⟩]

def serialise (s : State) (i : ℕ) : State :=
  match s.calls[i]? with
  | some ⟨changed, .inserted⟩ => s.setCall i ⟨changed, .serialised s.data⟩
  | _ => s

def write (s : State) (i : ℕ) (outcome : Outcome) : State :=
  match s.calls[i]? with
  | some ⟨changed, .serialised json⟩ =>
    { s.setCall i ⟨changed, .returned outcome.ok⟩ with file := outcome.file json }
  | _ => s

end State

def step (s : State) : Op → State
  | .insert client => s.insert client
  | .serialise i => s.serialise i
  | .write i outcome => s.write i outcome

def machine (stored : Option StateData) : Machine State Op := ⟨State.load stored, step⟩

/-- `add_paired` where nothing comes in between. -/
def addPaired (s : State) (client : Client) (outcome : Outcome) : State :=
  [Op.insert client, .serialise s.calls.length, .write s.calls.length outcome].foldl step s

end Calls

section Agreement

/-- A call that has returned an error has changed nothing. -/
def Atomic (s : State) : Prop :=
  ∀ call ∈ s.calls, call.phase = .returned false → call.changed = false

/-- When every call has returned without an error, the file gives the data again. -/
def Saved (s : State) : Prop :=
  (∀ call ∈ s.calls, call.phase = .returned true) → s.file.loadOrDefault = some s.data

structure Agrees (s : State) : Prop where
  atomic : Atomic s
  saved : Saved s

/-- No write fails of a call that has changed the data; and when a write ends the last
call in progress, and no call has failed, the data is still what the call has copied. -/
def InTime (s : State) : Op → Prop
  | .insert _ | .serialise _ => True
  | .write i outcome => ∀ changed json, s.calls[i]? = some ⟨changed, .serialised json⟩ →
    if outcome.ok then
      (∀ j call, j ≠ i → s.calls[j]? = some call → call.phase = .returned true) → json = s.data
    else changed = false

variable {s : State} {i : ℕ} {old new : Call}

theorem forall_setCall_iff {C : Call → Prop} (h : s.calls[i]? = some old) :
    (∀ call ∈ (s.setCall i new).calls, C call) ↔
      C new ∧ ∀ j call, j ≠ i → s.calls[j]? = some call → C call := by
  obtain ⟨hi, -⟩ := List.getElem?_eq_some_iff.mp h
  have hself : (s.calls.set i new)[i]? = some new := List.getElem?_set_self hi
  simp only [State.setCall, List.mem_iff_getElem?]
  constructor
  · intro hall
    refine ⟨hall new ⟨i, hself⟩, fun j call hj hcall => hall call ⟨j, ?_⟩⟩
    rw [List.getElem?_set_ne (Ne.symm hj)]
    exact hcall
  · rintro ⟨hnew, hrest⟩ call ⟨j, hcall⟩
    by_cases hj : j = i
    · rw [hj, hself] at hcall
      exact Option.some.inj hcall ▸ hnew
    · rw [List.getElem?_set_ne (Ne.symm hj)] at hcall
      exact hrest j call hj hcall

theorem Atomic.others (h : Atomic s) (j : ℕ) (call : Call) (hcall : s.calls[j]? = some call) :
    call.phase = .returned false → call.changed = false :=
  h call (List.mem_of_getElem? hcall)

theorem Agrees.load (stored : Option StateData) : Agrees (State.load stored) := by
  cases stored with
  | none | some d => exact ⟨fun _ h => absurd h List.not_mem_nil, fun _ => rfl⟩

/-- A call that begins is in progress. -/
theorem Agrees.insert (h : Agrees s) (client : Client) : Agrees (s.insert client) where
  atomic call hcall hphase := by
    rcases List.mem_append.mp hcall with hold | hnew
    · exact h.atomic call hold hphase
    · cases List.mem_singleton.mp hnew
      cases hphase
  saved hall := by
    have hlast := hall _ (List.mem_append_right _ List.mem_cons_self)
    cases hlast

/-- So is one that has made its copy. -/
theorem Agrees.serialise (h : Agrees s) (i : ℕ) : Agrees (s.serialise i) := by
  unfold State.serialise
  split
  · rename_i changed hcall
    constructor
    · refine (forall_setCall_iff hcall).mpr ⟨nofun, fun j call _ hj => h.atomic.others j call hj⟩
    · intro hall
      cases ((forall_setCall_iff hcall).mp hall).1
  · exact h

/-- A call that nothing comes in between of. -/
theorem addPaired_eq (s : State) (client : Client) (outcome : Outcome) :
    addPaired s client outcome =
      { data := s.data.insert client
        file := outcome.file (s.data.insert client)
        calls := s.calls ++ [⟨s.data.insert client ≠ s.data, .returned outcome.ok⟩] } := by
  simp [addPaired, step, State.insert, State.serialise, State.write, State.setCall]

/-- What the write of a copy asks for. -/
theorem inTime_write_iff {changed : Bool} {json : StateData} {outcome : Outcome}
    (hcall : s.calls[i]? = some ⟨changed, .serialised json⟩) :
    InTime s (.write i outcome) ↔
      if outcome.ok then
        (∀ j call, j ≠ i → s.calls[j]? = some call → call.phase = .returned true) → json = s.data
      else changed = false := by
  constructor
  · intro h
    exact h changed json hcall
  · intro h changed' json' hcall'
    cases hcall.symm.trans hcall'
    exact h

/-- What a write leaves agrees exactly if the write was in time. -/
theorem agrees_write_iff (h : Agrees s) (i : ℕ) (outcome : Outcome) :
    Agrees (s.write i outcome) ↔ InTime s (.write i outcome) := by
  unfold State.write
  split
  · rename_i changed json hcall
    rw [inTime_write_iff hcall]
    have hothers : ∀ j call, j ≠ i → s.calls[j]? = some call →
        call.phase = .returned false → call.changed = false :=
      fun j call _ hj => h.atomic.others j call hj
    cases outcome with
    | done =>
      change _ ↔ (_ → json = s.data)
      constructor
      · intro hagrees hreturned
        exact Option.some.inj (hagrees.saved ((forall_setCall_iff hcall).mpr ⟨rfl, hreturned⟩))
      · intro hdata
        refine ⟨(forall_setCall_iff hcall).mpr ⟨nofun, hothers⟩, fun hall => ?_⟩
        exact congrArg some (hdata ((forall_setCall_iff hcall).mp hall).2)
    | failed left =>
      change _ ↔ changed = false
      constructor
      · intro hagrees
        exact ((forall_setCall_iff hcall).mp hagrees.atomic).1 rfl
      · intro hchanged
        refine ⟨(forall_setCall_iff hcall).mpr ⟨fun _ => hchanged, hothers⟩, fun hall => ?_⟩
        cases ((forall_setCall_iff hcall).mp hall).1
  · rename_i hother
    exact iff_of_true h fun changed json hcall => absurd hcall (hother changed json)

theorem agrees_step_iff (h : Agrees s) (op : Op) : Agrees (step s op) ↔ InTime s op := by
  cases op with
  | insert client => exact iff_of_true (h.insert client) trivial
  | serialise i => exact iff_of_true (h.serialise i) trivial
  | write i outcome => exact agrees_write_iff h i outcome

/-- The file and the data agree after every part of a run exactly if every write of the
run is in time. -/
theorem agrees_iff_inTime (stored : Option StateData) (ops : List Op) :
    (∀ pre, pre <+: ops → Agrees ((machine stored).run pre)) ↔
      (machine stored).Along InTime ops := by
  induction ops using List.reverseRecOn with
  | nil =>
    refine iff_of_true (fun pre hpre => ?_) Machine.forall_step_nil
    rw [List.prefix_nil.mp hpre]
    exact Agrees.load stored
  | append_singleton ops op ih =>
    have hparts : (∀ pre, pre <+: ops ++ [op] → Agrees ((machine stored).run pre)) ↔
        (∀ pre, pre <+: ops → Agrees ((machine stored).run pre)) ∧
          Agrees ((machine stored).run (ops ++ [op])) := by
      constructor
      · intro h
        exact ⟨fun pre hpre => h pre (hpre.trans (List.prefix_append _ _)),
          h _ (List.prefix_refl _)⟩
      · rintro ⟨hops, hlast⟩ pre hpre
        rcases List.prefix_concat_iff.mp hpre with rfl | hshort
        · exact hlast
        · exact hops pre hshort
    rw [hparts, Machine.along_concat, Machine.run_concat, ih]
    refine and_congr_right fun halong => ?_
    exact agrees_step_iff (ih.mpr halong ops (List.prefix_refl _)) op

end Agreement

section Divergence

def anna : Client := ⟨"anna", "f1", "pem1"⟩

def ben : Client := ⟨"ben", "f2", "pem2"⟩

/-- The disk is full when the client is to be written. -/
def fullDisk : List Op := [.insert anna, .serialise 0, .write 0 (.failed .missing)]

/-- The first call writes its copy after the second one has inserted and written. -/
def overtaken : List Op :=
  [.insert anna, .serialise 0, .insert ben, .serialise 1, .write 1 .done, .write 0 .done]

theorem diverges_fullDisk_overtaken :
    ¬ (∀ stored ops, Atomic ((machine stored).run ops)) ∧
      ¬ ∀ stored ops, Saved ((machine stored).run ops) := by
  constructor
  · intro h
    have hlast := h none fullDisk _ List.mem_cons_self rfl
    revert hlast
    decide
  · intro h
    have hlast := h none overtaken
    revert hlast
    unfold Saved
    decide

end Divergence

end KmControl.PairedState
