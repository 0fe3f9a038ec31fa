import KmControl.ByteFields
import KmControl.ErasureCode

/-!
The third-party Reed-Solomon crate, as a parameter. `Lawful` is its documented
behaviour: for every block size it accepts there is one separable systematic
code, the same at encoder and decoder, which acts on each byte column of the
shards independently; reconstruction fills the data shards of a block of which
at least as many shards as data shards are present. Both operations work on
slices in place, so the number of shards is fixed by their types.
-/
namespace KmControl

open ByteFields

structure FecRs where
  /-- Whether `ReedSolomon::new(data, parity)` succeeds. -/
  new : ℕ → ℕ → Bool
  encode : (data parity : ℕ) → (Fin (data + parity) → Bytes) →
    Option (Fin (data + parity) → Bytes)
  reconstructData : (data parity : ℕ) → (Fin (data + parity) → Option Bytes) →
    Option (Fin (data + parity) → Option Bytes)

namespace FecRs

variable {d p : ℕ}

/-- The `j`-th byte of every shard. -/
def column (shards : Fin d → Bytes) (j : ℕ) : Fin d → UInt8 := fun i => byteAt (shards i) j

/-- The present shards belong to the codeword of `msg`, column by column. -/
def Agrees (c : SystematicCode UInt8 d p) (len : ℕ) (msg : Fin d → Bytes)
    (slots : Fin (d + p) → Option Bytes) : Prop :=
  (∀ k, (msg k).length = len) ∧
    ∀ i s, slots i = some s → s.length = len ∧
      ∀ j, j < len → byteAt s j = c.codeword (column msg j) i

def present (slots : Fin d → Option Bytes) : Finset (Fin d) :=
  Finset.univ.filter fun i => (slots i).isSome

structure CodesWith (rs : FecRs) (d p : ℕ) (c : SystematicCode UInt8 d p) : Prop where
  encode_eq : ∀ len (shards : Fin (d + p) → Bytes), 0 < len →
    (∀ i, (shards i).length = len) → ∃ out, rs.encode d p shards = some out ∧
      ∀ i, (out i).length = len ∧ ∀ j, j < len →
        byteAt (out i) j = c.codeword (column (fun k => shards (Fin.castAdd p k)) j) i
  reconstruct_eq : ∀ len (slots : Fin (d + p) → Option Bytes), 0 < len →
    d ≤ (present slots).card → (∃ msg, Agrees c len msg slots) →
      ∃ msg out, Agrees c len msg slots ∧ rs.reconstructData d p slots = some out ∧
        (∀ k, out (Fin.castAdd p k) = some (msg k)) ∧
        ∀ k, out (Fin.natAdd d k) = slots (Fin.natAdd d k)

structure Lawful (rs : FecRs) : Prop where
  new_ok : ∀ d p, 1 ≤ d → 1 ≤ p → d + p ≤ 256 → rs.new d p = true
  codes : ∀ d p, 1 ≤ d → 1 ≤ p → d + p ≤ 256 →
    ∃ c : SystematicCode UInt8 d p, c.MDS ∧ rs.CodesWith d p c

/-- Reconstruction works on shards of one length and makes none of another. -/
def KeepsLengths (rs : FecRs) : Prop :=
  ∀ d p len (slots out : Fin (d + p) → Option Bytes), 1 ≤ d → d ≤ (present slots).card →
    (∀ i s, slots i = some s → s.length = len) → rs.reconstructData d p slots = some out →
      ∀ i s, out i = some s → s.length = len

/-- Separability makes the message behind enough shards unique. -/
theorem Agrees.unique {c : SystematicCode UInt8 d p} (hc : c.MDS) {len : ℕ}
    {msg msg' : Fin d → Bytes} {slots : Fin (d + p) → Option Bytes}
    (hcard : d ≤ (present slots).card) (h : Agrees c len msg slots)
    (h' : Agrees c len msg' slots) : msg = msg' := by
  funext k
  apply ext_byteAt ((h.1 k).trans (h'.1 k).symm)
  intro j hj
  rw [h.1 k] at hj
  have hcolumn : column msg j = column msg' j := by
    refine hc _ _ (present slots) hcard fun i hi => ?_
    obtain ⟨s, hs⟩ := Option.isSome_iff_exists.mp (Finset.mem_filter.mp hi).2
    exact ((h.2 i s hs).2 j hj).symm.trans ((h'.2 i s hs).2 j hj)
  exact congrFun hcolumn k

section OfCodes

variable (codes : ∀ d p, SystematicCode UInt8 d p)

open Classical in
/-- The crate built from a family of codes. -/
noncomputable def ofCodes : FecRs where
  new _ _ := true
  encode d p shards := some fun i => List.ofFn fun j : Fin (shards i).length =>
    (codes d p).codeword (column (fun k => shards (Fin.castAdd p k)) j) i
  reconstructData d p slots :=
    if h : ∃ msg : Fin d → Bytes, ∃ len, Agrees (codes d p) len msg slots then
      some (Fin.addCases (fun k => some (h.choose k)) fun k => slots (Fin.natAdd d k))
    else none

theorem ofCodes_codesWith (d p : ℕ) (hd : 1 ≤ d) :
    (ofCodes codes).CodesWith d p (codes d p) where
  encode_eq len shards _ hlen := by
    refine ⟨_, rfl, fun i => ⟨by simp [hlen], fun j hj => ?_⟩⟩
    have hj' : j < (shards i).length := (hlen i).symm ▸ hj
    simp only [byteAt, List.getD_eq_getElem?_getD, List.getElem?_ofFn, dif_pos hj',
      Option.getD_some]
  reconstruct_eq len slots _ hcard hmsg := by
    have h : ∃ msg : Fin d → Bytes, ∃ len, Agrees (codes d p) len msg slots := by
      obtain ⟨msg, hagree⟩ := hmsg
      exact ⟨msg, len, hagree⟩
    obtain ⟨len', hchosen⟩ := h.choose_spec
    -- A present shard fixes the length, so the chosen message has it too.
    have hlen : len' = len := by
      obtain ⟨msg, hagree⟩ := hmsg
      obtain ⟨i, hi⟩ := Finset.card_pos.mp (lt_of_lt_of_le hd hcard)
      obtain ⟨s, hs⟩ := Option.isSome_iff_exists.mp (Finset.mem_filter.mp hi).2
      exact (hchosen.2 i s hs).1.symm.trans (hagree.2 i s hs).1
    subst hlen
    refine ⟨h.choose, _, hchosen, dif_pos h, fun k => ?_, fun k => ?_⟩
    · exact Fin.addCases_left k
    · exact Fin.addCases_right k

theorem ofCodes_keepsLengths : (ofCodes codes).KeepsLengths := by
  intro d p len slots out hd hcard hlens hout i s hs
  unfold ofCodes at hout
  dsimp only at hout
  split at hout
  · rename_i h
    obtain ⟨len', hchosen⟩ := h.choose_spec
    have hlen : len' = len := by
      obtain ⟨k, hk⟩ := Finset.card_pos.mp (lt_of_lt_of_le hd hcard)
      obtain ⟨t, ht⟩ := Option.isSome_iff_exists.mp (Finset.mem_filter.mp hk).2
      exact (hchosen.2 k t ht).1.symm.trans (hlens k t ht)
    cases hout
    revert hs
    refine Fin.addCases (fun k hs => ?_) (fun k hs => ?_) i
    · beta_reduce at hs
      rw [Fin.addCases_left, Option.some.injEq] at hs
      rw [← hs, hchosen.1 k, hlen]
    · beta_reduce at hs
      rw [Fin.addCases_right] at hs
      exact hlens _ s hs
  · cases hout

/-- A crate with the documented behaviour exists. -/
theorem exists_lawful_keepsLengths : ∃ rs : FecRs, rs.Lawful ∧ rs.KeepsLengths := by
  classical
  let codes : ∀ d p, SystematicCode UInt8 d p := fun d p =>
    if h : d + p ≤ 256 then (SystematicCode.exists_byte_mds h).choose
    else ⟨fun _ _ => 0⟩
  have hmds : ∀ d p, d + p ≤ 256 → (codes d p).MDS := by
    intro d p h
    simp only [codes, dif_pos h]
    exact (SystematicCode.exists_byte_mds h).choose_spec
  refine ⟨ofCodes codes, ⟨fun _ _ _ _ _ => rfl, fun d p hd _ h => ?_⟩, ofCodes_keepsLengths codes⟩
  exact ⟨codes d p, hmds d p h, ofCodes_codesWith codes d p hd⟩

theorem exists_lawful : ∃ rs : FecRs, rs.Lawful := by
  obtain ⟨rs, hrs, -⟩ := exists_lawful_keepsLengths
  exact ⟨rs, hrs⟩

end OfCodes

end FecRs

end KmControl
