import Mathlib.FieldTheory.Finite.GaloisField
import Mathlib.LinearAlgebra.Lagrange

/-!
Systematic erasure codes over an alphabet. A code sends a message of `d`
symbols to a codeword of `d + p` symbols that starts with the message. It is
maximum distance separable when any `d` symbols of a codeword determine the
message. Interpolating the message by a polynomial of degree below `d` and
evaluating it at further points of a field gives such a code; over the field
with 256 elements this is a code on bytes for every `d + p` up to 256.
-/
namespace KmControl

structure SystematicCode (α : Type*) (d p : ℕ) where
  parity : (Fin d → α) → Fin p → α

namespace SystematicCode

variable {α β : Type*} {d p : ℕ}

def codeword (c : SystematicCode α d p) (msg : Fin d → α) : Fin (d + p) → α :=
  Fin.append msg (c.parity msg)

/-- Any `d` positions of a codeword determine its message. -/
def MDS (c : SystematicCode α d p) : Prop :=
  ∀ (msg msg' : Fin d → α) (positions : Finset (Fin (d + p))), d ≤ positions.card →
    (∀ i ∈ positions, c.codeword msg i = c.codeword msg' i) → msg = msg'

@[simp] theorem codeword_castAdd (c : SystematicCode α d p) (msg : Fin d → α) (i : Fin d) :
    c.codeword msg (Fin.castAdd p i) = msg i := by
  simp [codeword]

/-- Relabel the symbols of a code along a bijection of alphabets. -/
def relabel (c : SystematicCode β d p) (e : α ≃ β) : SystematicCode α d p where
  parity msg := e.symm ∘ c.parity (e ∘ msg)

theorem codeword_relabel (c : SystematicCode β d p) (e : α ≃ β) (msg : Fin d → α)
    (i : Fin (d + p)) : (c.relabel e).codeword msg i = e.symm (c.codeword (e ∘ msg) i) := by
  refine Fin.addCases (fun j => ?_) (fun j => ?_) i
  · simp [codeword]
  · simp [codeword, relabel]

theorem MDS.relabel {c : SystematicCode β d p} (hc : c.MDS) (e : α ≃ β) :
    (c.relabel e).MDS := by
  intro msg msg' positions hcard hagree
  have h : e ∘ msg = e ∘ msg' := by
    refine hc _ _ positions hcard fun i hi => ?_
    have hi' := hagree i hi
    simpa only [codeword_relabel, EmbeddingLike.apply_eq_iff_eq] using hi'
  funext i
  exact e.injective (congrFun h i)

section Interpolation

open Polynomial

variable {F : Type*} [Field F] (points : Fin (d + p) → F)

/-- The polynomial of degree below `d` through the message at the first points. -/
noncomputable def messagePolynomial (msg : Fin d → F) : F[X] :=
  Lagrange.interpolate Finset.univ (fun i => points (Fin.castAdd p i)) msg

/-- Parity symbols are the values of the message polynomial at the other points. -/
noncomputable def interpolation : SystematicCode F d p where
  parity msg := fun j => (messagePolynomial points msg).eval (points (Fin.natAdd d j))

variable {points} (hpoints : Function.Injective points)
include hpoints

omit [Field F] in
private theorem messagePoints_injOn :
    Set.InjOn (fun i : Fin d => points (Fin.castAdd p i)) (Finset.univ : Finset (Fin d)) :=
  fun _ _ _ _ h => Fin.castAdd_injective d p (hpoints h)

theorem eval_messagePolynomial (msg : Fin d → F) (i : Fin (d + p)) :
    (messagePolynomial points msg).eval (points i) = (interpolation points).codeword msg i := by
  refine Fin.addCases (fun j => ?_) (fun j => ?_) i
  · rw [codeword_castAdd]
    exact Lagrange.eval_interpolate_at_node msg (messagePoints_injOn hpoints)
      (Finset.mem_univ j)
  · simp [codeword, interpolation]

theorem degree_messagePolynomial_lt (msg : Fin d → F) :
    (messagePolynomial points msg).degree < d := by
  simpa [messagePolynomial] using
    Lagrange.degree_interpolate_lt msg (messagePoints_injOn hpoints)

/-- Two message polynomials that agree at `d` points coincide. -/
theorem interpolation_mds : (interpolation points).MDS := by
  classical
  intro msg msg' positions hcard hagree
  have hdegree : ∀ m : Fin d → F,
      (messagePolynomial points m).degree < (positions.image points).card := by
    intro m
    rw [Finset.card_image_of_injective _ hpoints]
    exact (degree_messagePolynomial_lt hpoints m).trans_le (by exact_mod_cast hcard)
  have hpoly : messagePolynomial points msg = messagePolynomial points msg' := by
    refine eq_of_degrees_lt_of_eval_finset_eq _ (hdegree msg) (hdegree msg') ?_
    intro x hx
    obtain ⟨i, hi, rfl⟩ := Finset.mem_image.mp hx
    rw [eval_messagePolynomial hpoints, eval_messagePolynomial hpoints]
    exact hagree i hi
  funext i
  have h := eval_messagePolynomial hpoints msg (Fin.castAdd p i)
  rw [hpoly, eval_messagePolynomial hpoints] at h
  simpa using h.symm

end Interpolation

/-- With at most 256 positions there is a separable code on bytes. -/
theorem exists_byte_mds (h : d + p ≤ 256) : ∃ c : SystematicCode UInt8 d p, c.MDS := by
  classical
  have : Fintype (GaloisField 2 8) := Fintype.ofFinite _
  have hcard : Fintype.card (GaloisField 2 8) = 256 := by
    rw [← Nat.card_eq_fintype_card, GaloisField.card 2 8 (by decide)]
    rfl
  let bytes : UInt8 ≃ Fin 256 := ⟨UInt8.toFin, UInt8.ofFin, fun _ => rfl, fun _ => rfl⟩
  let symbols : UInt8 ≃ GaloisField 2 8 :=
    bytes.trans (Fintype.equivFinOfCardEq hcard).symm
  have hpos : Fintype.card (Fin (d + p)) ≤ Fintype.card (GaloisField 2 8) := by
    rw [Fintype.card_fin, hcard]
    exact h
  obtain ⟨points⟩ := Function.Embedding.nonempty_of_card_le hpos
  exact ⟨(interpolation points).relabel symbols, (interpolation_mds points.injective).relabel _⟩

end SystematicCode

end KmControl
