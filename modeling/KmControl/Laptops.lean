import KmControl.Decimal
import KmControl.Hub
import Mathlib.Data.List.Nodup

/-!
The table of laptops of the hub. A laptop is known by its MAC: the first request for a
MAC inserts a row with a new id, a name from the number of rows and a token, and every
later one returns that row. The id, the token and the MAC of a row never change, and no
row is deleted.
-/
namespace KmControl.Laptops

open Decimal Hub

/-- What a request for a laptop returns. -/
structure Laptop where
  agentId : Uuid
  name : String
  provisionToken : String
deriving DecidableEq

structure Row extends Laptop where
  mac : String
deriving DecidableEq

abbrev Table := List Row

/-- What is generated for a MAC that is new. -/
structure Drawn where
  agentId : Uuid
  provisionToken : String

structure Request where
  mac : String
  drawn : Drawn

/-- `student-{:02}`. -/
def studentName (n : ℕ) : String := "student-" ++ String.ofList (padded 2 n)

/-- The ids and the MACs of the table are unique. -/
def insert (t : Table) (row : Row) : Option Table :=
  if ∃ r ∈ t, r.agentId = row.agentId ∨ r.mac = row.mac then none else some (t ++ [row])

def getOrCreateLaptop (t : Table) (mac : String) (drawn : Drawn) : Table × Option Laptop :=
  match t.find? fun r => r.mac = mac with
  | some row => (t, some row.toLaptop)
  | none =>
    let laptop : Laptop := ⟨drawn.agentId, studentName (t.length + 1), drawn.provisionToken⟩
    match insert t ⟨laptop, mac⟩ with
    | some t => (t, some laptop)
    | none => (t, none)

/-- The name of the laptop with this id, if the token is its own. -/
def verifyAgent (t : Table) (agentId : Uuid) (provisionToken : String) : Option String :=
  (t.find? fun r => r.agentId = agentId ∧ r.provisionToken = provisionToken).map (·.name)

/-- The requests take the lock of the database one after the other. -/
def machine : Machine Table Request where
  init := []
  step t req := (getOrCreateLaptop t req.mac req.drawn).1

/-- The id that is generated for a new MAC is not yet in the table. -/
def Fresh (t : Table) (req : Request) : Prop :=
  (∀ r ∈ t, r.mac ≠ req.mac) → ∀ r ∈ t, r.agentId ≠ req.drawn.agentId

/-- Each id and each MAC has one row, and the names follow the order of the rows. -/
structure Sound (t : Table) : Prop where
  ids : (t.map fun r => r.agentId).Nodup
  macs : (t.map Row.mac).Nodup
  names : t.map (fun r => r.name) = (List.range t.length).map fun i => studentName (i + 1)

section Rows

variable {t : Table} {req : Request}

/-- The row that a request for a new MAC inserts. -/
def newRow (t : Table) (req : Request) : Row :=
  ⟨⟨req.drawn.agentId, studentName (t.length + 1), req.drawn.provisionToken⟩, req.mac⟩

theorem studentName_injective : Function.Injective studentName := fun n m h => by
  have hchars := congrArg String.toList h
  unfold studentName at hchars
  rw [String.toList_append, String.toList_append, List.append_cancel_left_eq, String.toList_ofList,
    String.toList_ofList] at hchars
  exact padded_injective 2 hchars

theorem Sound.nodup_names (h : Sound t) : (t.map fun r => r.name).Nodup := by
  rw [h.names]
  exact List.Nodup.map (fun i j hij => Nat.succ.inj (studentName_injective hij))
    List.nodup_range

/-- A request finds the row of its MAC, or it inserts one. -/
theorem getOrCreateLaptop_cases (hfresh : Fresh t req) :
    (∃ row ∈ t, row.mac = req.mac ∧
      getOrCreateLaptop t req.mac req.drawn = (t, some row.toLaptop)) ∨
    (∀ r ∈ t, r.mac ≠ req.mac) ∧ (∀ r ∈ t, r.agentId ≠ req.drawn.agentId) ∧
      getOrCreateLaptop t req.mac req.drawn =
        (t ++ [newRow t req], some (newRow t req).toLaptop) := by
  unfold getOrCreateLaptop
  cases hfind : t.find? fun r => r.mac = req.mac with
  | some row =>
    have hmac : row.mac = req.mac := of_decide_eq_true (List.find?_some hfind :)
    exact Or.inl ⟨row, List.mem_of_find?_eq_some hfind, hmac, rfl⟩
  | none =>
    have hmacs : ∀ r ∈ t, r.mac ≠ req.mac := fun r hr hmac =>
      List.find?_eq_none.mp hfind r hr (decide_eq_true hmac)
    have hids := hfresh hmacs
    have hinsert : insert t (newRow t req) = some (t ++ [newRow t req]) := if_neg (by
      rintro ⟨r, hr, hid | hmac⟩
      · exact hids r hr hid
      · exact hmacs r hr hmac)
    refine Or.inr ⟨hmacs, hids, ?_⟩
    unfold newRow at hinsert
    dsimp only
    rw [hinsert]
    rfl

theorem nodup_map_concat {α : Type} {f : Row → α} {row : Row} (h : (t.map f).Nodup)
    (hnew : ∀ r ∈ t, f r ≠ f row) : ((t ++ [row]).map f).Nodup := by
  rw [List.map_append, List.map_singleton, List.nodup_append']
  refine ⟨h, List.nodup_singleton _, ?_⟩
  rw [List.disjoint_singleton]
  intro hmem
  obtain ⟨r, hr, heq⟩ := List.mem_map.mp hmem
  exact hnew r hr heq

theorem Sound.insert (h : Sound t) (hmacs : ∀ r ∈ t, r.mac ≠ req.mac)
    (hids : ∀ r ∈ t, r.agentId ≠ req.drawn.agentId) : Sound (t ++ [newRow t req]) where
  ids := nodup_map_concat h.ids hids
  macs := nodup_map_concat h.macs hmacs
  names := by
    rw [List.map_append, h.names, List.length_append, List.length_singleton, List.range_succ,
      List.map_append]
    rfl

/-- Only rows at the end are added. -/
theorem prefix_step (hfresh : Fresh t req) : t <+: machine.step t req := by
  change t <+: (getOrCreateLaptop t req.mac req.drawn).1
  rcases getOrCreateLaptop_cases hfresh with ⟨row, -, -, heq⟩ | ⟨-, -, heq⟩
  · exact ⟨[], by rw [heq, List.append_nil]⟩
  · rw [heq]
    exact List.prefix_append _ _

theorem Sound.step (h : Sound t) (hfresh : Fresh t req) : Sound (machine.step t req) := by
  change Sound (getOrCreateLaptop t req.mac req.drawn).1
  rcases getOrCreateLaptop_cases hfresh with ⟨row, -, -, heq⟩ | ⟨hmacs, hids, heq⟩
  · rwa [heq]
  · rw [heq]
    exact h.insert hmacs hids

end Rows

section Runs

variable {ops pre : List Request} {req : Request}

theorem sound_run (hfresh : machine.Along Fresh ops) : Sound (machine.run ops) :=
  Machine.run_invariant_along ⟨List.nodup_nil, List.nodup_nil, rfl⟩
    (fun _ _ h hfresh => h.step hfresh) ops hfresh

theorem prefix_run (hfresh : machine.Along Fresh ops) (hpre : pre <+: ops) :
    machine.run pre <+: machine.run ops := by
  induction ops using List.reverseRecOn with
  | nil => exact List.prefix_nil.mp hpre ▸ List.prefix_refl _
  | append_singleton ops op ih =>
    obtain ⟨hops, hlast⟩ := Machine.along_concat.mp hfresh
    rcases List.prefix_concat_iff.mp hpre with rfl | hshort
    · exact List.prefix_refl _
    · rw [Machine.run_concat]
      exact (ih hops hshort).trans (prefix_step hlast)

/-- The request was made and got this laptop. -/
def Answered (ops : List Request) (req : Request) (laptop : Laptop) : Prop :=
  ∃ pre, pre ++ [req] <+: ops ∧
    (getOrCreateLaptop (machine.run pre) req.mac req.drawn).2 = some laptop

/-- Every request is answered with a row of its MAC, which is there from then on. -/
theorem answered_with_row (hfresh : machine.Along Fresh ops) (hpre : pre ++ [req] <+: ops) :
    ∃ row ∈ machine.run ops, row.mac = req.mac ∧
      (getOrCreateLaptop (machine.run pre) req.mac req.drawn).2 = some row.toLaptop := by
  have hsubset := (prefix_run hfresh hpre).subset
  rw [Machine.run_concat] at hsubset
  change (getOrCreateLaptop (machine.run pre) req.mac req.drawn).1 ⊆ _ at hsubset
  rcases getOrCreateLaptop_cases (hfresh pre req hpre) with ⟨row, hrow, hmac, heq⟩ | ⟨-, -, heq⟩
  · rw [heq] at hsubset ⊢
    exact ⟨row, hsubset hrow, hmac, rfl⟩
  · rw [heq] at hsubset ⊢
    exact ⟨_, hsubset (List.mem_append_right _ List.mem_cons_self), rfl, rfl⟩

theorem Answered.row (hfresh : machine.Along Fresh ops) {laptop : Laptop}
    (h : Answered ops req laptop) :
    ∃ row ∈ machine.run ops, row.mac = req.mac ∧ row.toLaptop = laptop := by
  obtain ⟨pre, hpre, hresponse⟩ := h
  obtain ⟨row, hrow, hmac, heq⟩ := answered_with_row hfresh hpre
  exact ⟨row, hrow, hmac, Option.some.inj (heq.symm.trans hresponse)⟩

/-- Every row was handed out. -/
theorem answered_of_row (hfresh : machine.Along Fresh ops) :
    ∀ row ∈ machine.run ops, ∃ req, Answered ops req row.toLaptop := by
  induction ops using List.reverseRecOn with
  | nil => exact nofun
  | append_singleton ops op ih =>
    obtain ⟨hops, hlast⟩ := Machine.along_concat.mp hfresh
    intro row hrow
    rw [Machine.run_concat] at hrow
    change row ∈ (getOrCreateLaptop (machine.run ops) op.mac op.drawn).1 at hrow
    have hold : row ∈ machine.run ops → ∃ req, Answered (ops ++ [op]) req row.toLaptop := fun hmem => by
      obtain ⟨req, pre, hpre, hresponse⟩ := ih hops row hmem
      exact ⟨req, pre, hpre.trans (List.prefix_append _ _), hresponse⟩
    rcases getOrCreateLaptop_cases hlast with ⟨_, -, -, heq⟩ | ⟨-, -, heq⟩
    · rw [heq] at hrow
      exact hold hrow
    · rw [heq] at hrow
      rcases List.mem_append.mp hrow with hmem | hnew
      · exact hold hmem
      · rw [List.mem_singleton.mp hnew]
        exact ⟨op, ops, List.prefix_refl _, by rw [heq]⟩

theorem eq_of_agentId {t : Table} (h : Sound t) {r r' : Row} (hr : r ∈ t) (hr' : r' ∈ t)
    (hid : r.agentId = r'.agentId) : r = r' := List.inj_on_of_nodup_map h.ids hr hr' hid

theorem verifyAgent_eq_some_iff {t : Table} (h : Sound t) {agentId : Uuid} {token name : String} :
    verifyAgent t agentId token = some name ↔ ∃ row ∈ t, row.toLaptop = ⟨agentId, name, token⟩ := by
  unfold verifyAgent
  rw [Option.map_eq_some_iff]
  constructor
  · rintro ⟨row, hfind, rfl⟩
    have hmatch : row.agentId = agentId ∧ row.provisionToken = token :=
      of_decide_eq_true (List.find?_some hfind :)
    obtain ⟨rfl, rfl⟩ := hmatch
    exact ⟨row, List.mem_of_find?_eq_some hfind, rfl⟩
  · rintro ⟨row, hrow, hlaptop⟩
    have hmatch : row.agentId = agentId ∧ row.provisionToken = token :=
      ⟨congrArg Laptop.agentId hlaptop, congrArg Laptop.provisionToken hlaptop⟩
    have hsome : (t.find? fun r => r.agentId = agentId ∧ r.provisionToken = token).isSome = true :=
      List.find?_isSome.mpr ⟨row, hrow, (decide_eq_true hmatch :)⟩
    obtain ⟨found, hfind⟩ := Option.isSome_iff_exists.mp hsome
    have hfound : found.agentId = agentId ∧ found.provisionToken = token :=
      of_decide_eq_true (List.find?_some hfind :)
    have hsame := eq_of_agentId h (List.mem_of_find?_eq_some hfind) hrow
      (hfound.1.trans hmatch.1.symm)
    exact ⟨found, hfind, hsame ▸ congrArg Laptop.name hlaptop⟩

/-- The table as the hub's other tasks see it. -/
def hubDb {t : Table} (h : Sound t) : Db :=
  ⟨t.map fun r => (r.agentId, r.name), by rw [List.map_map]; exact h.ids⟩

/-- The name that the verification gives is the one that they see. -/
theorem laptopName_of_verifyAgent {t : Table} (h : Sound t) {agentId : Uuid} {token name : String}
    (hverify : verifyAgent t agentId token = some name) :
    (hubDb h).laptopName agentId = some name := by
  obtain ⟨row, hrow, hlaptop⟩ := (verifyAgent_eq_some_iff h).mp hverify
  obtain ⟨before, after, rfl⟩ := List.append_of_mem hrow
  have hids := h.ids
  rw [List.map_append, List.map_cons, List.nodup_append'] at hids
  refine List.lookup_eq_some_iff.mpr ⟨before.map fun r => (r.agentId, r.name),
    after.map fun r => (r.agentId, r.name), ?_, fun p hp => ?_⟩
  · change List.map _ _ = _
    rw [List.map_append, List.map_cons, hlaptop]
  · obtain ⟨r, hr, rfl⟩ := List.mem_map.mp hp
    rw [bne_iff_ne]
    intro hid
    refine hids.2.2 (List.mem_map_of_mem hr) (List.mem_cons.mpr (Or.inl ?_))
    rw [hlaptop]
    exact hid.symm

theorem agentId_of_mem_run : ∀ r ∈ machine.run ops, r.agentId ∈ ops.map fun req => req.drawn.agentId := by
  induction ops using List.reverseRecOn with
  | nil => exact nofun
  | append_singleton ops op ih =>
    intro r hr
    rw [Machine.run_concat] at hr
    change r ∈ (getOrCreateLaptop (machine.run ops) op.mac op.drawn).1 at hr
    rw [List.map_append]
    unfold getOrCreateLaptop Laptops.insert at hr
    split at hr
    · exact List.mem_append_left _ (ih r hr)
    · dsimp only at hr
      split at hr <;> rename_i hinsert
      · split at hinsert
        · exact nomatch hinsert
        · rw [← Option.some.inj hinsert] at hr
          rcases List.mem_append.mp hr with hold | hnew
          · exact List.mem_append_left _ (ih r hold)
          · rw [List.mem_singleton.mp hnew]
            exact List.mem_append_right _ List.mem_cons_self
      · exact List.mem_append_left _ (ih r hr)

/-- Ids that never repeat are fresh. -/
theorem fresh_of_nodup (h : (ops.map fun req => req.drawn.agentId).Nodup) :
    machine.Along Fresh ops := by
  rintro pre req ⟨rest, rfl⟩ - r hr hid
  have hmem := agentId_of_mem_run r hr
  rw [List.map_append, List.map_append, List.append_assoc, List.nodup_append'] at h
  exact h.2.2 hmem (hid ▸ List.mem_append_left _ List.mem_cons_self)

/-- Each MAC has one laptop from its first request on, no two share a name or an id, and
exactly the pairs that were handed out are accepted, under their names. -/
theorem provisioning_stable (hfresh : machine.Along Fresh ops) :
    (∀ pre req, pre ++ [req] <+: ops → ∃ laptop,
      (getOrCreateLaptop (machine.run pre) req.mac req.drawn).2 = some laptop) ∧
      (∀ req req' laptop laptop', Answered ops req laptop → Answered ops req' laptop' →
        (req.mac = req'.mac → laptop = laptop') ∧
          (req.mac ≠ req'.mac → laptop.name ≠ laptop'.name ∧ laptop.agentId ≠ laptop'.agentId)) ∧
      ∀ agentId token name, verifyAgent (machine.run ops) agentId token = some name ↔
        ∃ req, Answered ops req ⟨agentId, name, token⟩ := by
  have hsound := sound_run hfresh
  refine ⟨fun pre req hpre => ?_, fun req req' laptop laptop' h h' => ?_, fun agentId token name => ?_⟩
  · obtain ⟨row, -, -, hresponse⟩ := answered_with_row hfresh hpre
    exact ⟨_, hresponse⟩
  · obtain ⟨row, hrow, hmac, rfl⟩ := h.row hfresh
    obtain ⟨row', hrow', hmac', rfl⟩ := h'.row hfresh
    rw [← hmac, ← hmac']
    refine ⟨fun hsame => ?_, fun hother => ⟨fun hname => hother ?_, fun hid => hother ?_⟩⟩
    · rw [List.inj_on_of_nodup_map hsound.macs hrow hrow' hsame]
    · rw [List.inj_on_of_nodup_map hsound.nodup_names hrow hrow' hname]
    · rw [eq_of_agentId hsound hrow hrow' hid]
  · rw [verifyAgent_eq_some_iff hsound]
    constructor
    · rintro ⟨row, hrow, hlaptop⟩
      exact hlaptop ▸ answered_of_row hfresh row hrow
    · rintro ⟨req, h⟩
      obtain ⟨row, hrow, -, hlaptop⟩ := h.row hfresh
      exact ⟨row, hrow, hlaptop⟩

def firstAsks : Request := ⟨"52:54:00:00:00:01", 1, "a"⟩
def secondAsks : Request := ⟨"52:54:00:00:00:02", 2, "b"⟩
def firstAsksAgain : Request := ⟨"52:54:00:00:00:01", 3, "c"⟩

theorem first_keeps_laptop : ∃ laptop,
    Answered [firstAsks, secondAsks, firstAsksAgain] firstAsks laptop ∧
      Answered [firstAsks, secondAsks, firstAsksAgain] firstAsksAgain laptop := by
  have hfresh : machine.Along Fresh [firstAsks, secondAsks, firstAsksAgain] :=
    fresh_of_nodup (by decide)
  obtain ⟨hanswer, hsame, -⟩ := provisioning_stable hfresh
  obtain ⟨laptop, hfirst⟩ := hanswer [] firstAsks ⟨[secondAsks, firstAsksAgain], rfl⟩
  obtain ⟨laptop', hagain⟩ := hanswer [firstAsks, secondAsks] firstAsksAgain (List.prefix_refl _)
  have h : Answered [firstAsks, secondAsks, firstAsksAgain] firstAsks laptop :=
    ⟨[], ⟨[secondAsks, firstAsksAgain], rfl⟩, hfirst⟩
  have h' : Answered [firstAsks, secondAsks, firstAsksAgain] firstAsksAgain laptop' :=
    ⟨_, List.prefix_refl _, hagain⟩
  exact ⟨laptop, h, (hsame _ _ _ _ h h').1 rfl ▸ h'⟩

end Runs

end KmControl.Laptops
