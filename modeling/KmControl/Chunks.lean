import Mathlib.Data.List.Basic
import Mathlib.Data.List.Range
import Mathlib.Tactic.Ring

/-!
A sequence cut into pieces of one length, and put together again. The last
piece is filled up with padding; clipping the joined pieces to the length of
the sequence removes it.
-/
namespace KmControl.Chunks

variable {α : Type*}

/-- The `k`-th piece of length `n`. -/
def piece (n : ℕ) (s : List α) (k : ℕ) : List α := (s.drop (k * n)).take n

def padded (n : ℕ) (z : α) (s : List α) : List α := s ++ List.replicate (n - s.length) z

/-- The part of consecutive pieces that lies in the interval from `lo` to `hi`;
the first piece starts at position `off`. -/
def clip (lo hi : ℕ) : ℕ → List (List α) → List α
  | _, [] => []
  | off, p :: rest =>
    let start := max off lo
    let stop := min (off + p.length) hi
    (if start < stop then (p.take (stop - off)).drop (start - off) else []) ++
      clip lo hi (off + p.length) rest

@[simp] theorem length_padded {n : ℕ} (z : α) {s : List α} (h : s.length ≤ n) :
    (padded n z s).length = n := by
  simp only [padded, List.length_append, List.length_replicate]
  omega

theorem length_piece_le (n : ℕ) (s : List α) (k : ℕ) : (piece n s k).length ≤ n :=
  List.length_take_le n _

private theorem padded_append_piece (n m : ℕ) (z : α) (s : List α) :
    padded (m * n) z (s.take (m * n)) ++ padded n z (piece n s m) =
      padded ((m + 1) * n) z (s.take ((m + 1) * n)) := by
  have hsucc : (m + 1) * n = m * n + n := by ring
  by_cases hlen : s.length ≤ m * n
  · -- The sequence has ended: both sides only add padding.
    have hnil : piece n s m = [] := by
      rw [piece, List.drop_eq_nil_of_le hlen, List.take_nil]
    have hcount : (m + 1) * n - s.length = (m * n - s.length) + n := by omega
    rw [hnil, List.take_of_length_le hlen, List.take_of_length_le (by omega)]
    simp only [padded, List.length_nil, List.nil_append, Nat.sub_zero, List.append_assoc,
      hcount, List.replicate_add]
  · have hfull : (s.take (m * n)).length = m * n := by
      simp only [List.length_take]
      omega
    have hsplit : s.take ((m + 1) * n) = s.take (m * n) ++ piece n s m := by
      rw [hsucc, List.take_add, piece]
    have hcount : (m + 1) * n - (s.take (m * n) ++ piece n s m).length =
        n - (piece n s m).length := by
      rw [List.length_append, hfull]
      omega
    rw [hsplit]
    simp only [padded, hfull, Nat.sub_self, List.replicate_zero, List.append_nil, hcount,
      List.append_assoc]

/-- Joining the padded pieces gives back the sequence with padding at its end. -/
theorem flatMap_padded_piece (n m : ℕ) (z : α) (s : List α) :
    (List.range m).flatMap (fun k => padded n z (piece n s k)) =
      padded (m * n) z (s.take (m * n)) := by
  induction m with
  | zero => simp [padded]
  | succ m ih =>
    rw [List.range_succ, List.flatMap_append, ih, List.flatMap_singleton]
    exact padded_append_piece n m z s

/-- Clipping piece by piece is clipping the joined pieces. -/
theorem clip_eq (lo hi off : ℕ) (pieces : List (List α)) :
    clip lo hi off pieces = (pieces.flatten.take (hi - off)).drop (lo - off) := by
  induction pieces generalizing off with
  | nil => simp [clip]
  | cons p rest ih =>
    have hhead : (if max off lo < min (off + p.length) hi then
        (p.take (min (off + p.length) hi - off)).drop (max off lo - off) else []) =
          (p.take (hi - off)).drop (lo - off) := by
      have hlo : max off lo - off = lo - off := by omega
      split
      · have hstop : p.take (min (off + p.length) hi - off) = p.take (hi - off) := by
          apply List.take_eq_take_iff.mpr
          omega
        rw [hstop, hlo]
      · rw [List.drop_eq_nil_of_le]
        simp only [List.length_take]
        omega
    have hrest : rest.flatten.take (hi - (off + p.length)) =
        rest.flatten.take (hi - off - p.length) := by
      rw [Nat.sub_add_eq]
    simp only [clip, List.flatten_cons]
    rw [hhead, ih, hrest, List.take_append, List.drop_append, List.length_take]
    congr 1
    by_cases hshort : hi - off < p.length
    · have hzero : hi - off - p.length = 0 := by omega
      simp [hzero]
    · have hdrop : lo - (off + p.length) = lo - off - min (hi - off) p.length := by omega
      rw [hdrop]

/-- A traversal none of whose steps fails. -/
theorem mapM_eq_some_map {β : Type*} {l : List α} {g : α → Option β} {h : α → β}
    (hg : ∀ x ∈ l, g x = some (h x)) : l.mapM g = some (l.map h) := by
  induction l with
  | nil => rfl
  | cons x rest ih =>
    rw [List.mapM_cons, hg x List.mem_cons_self, ih fun y hy => hg y (List.mem_cons_of_mem _ hy)]
    rfl

/-- What a traversal has collected. -/
theorem of_mapM_eq_some {β : Type*} {l : List α} {g : α → Option β} {ys : List β}
    (h : l.mapM g = some ys) : ys.length = l.length ∧ ∀ y ∈ ys, ∃ x ∈ l, g x = some y := by
  induction l generalizing ys with
  | nil =>
    cases h
    exact ⟨rfl, fun y hy => absurd hy List.not_mem_nil⟩
  | cons x rest ih =>
    rw [List.mapM_cons] at h
    obtain ⟨y, hy, h⟩ := Option.bind_eq_some_iff.mp h
    obtain ⟨zs, hzs, h⟩ := Option.bind_eq_some_iff.mp h
    cases h
    obtain ⟨hlen, hmem⟩ := ih hzs
    refine ⟨congrArg Nat.succ hlen, fun z hz => ?_⟩
    rcases List.mem_cons.mp hz with rfl | hz
    · exact ⟨x, List.mem_cons_self, hy⟩
    · obtain ⟨w, hw, hgw⟩ := hmem z hz
      exact ⟨w, List.mem_cons_of_mem _ hw, hgw⟩

/-- A traversal that succeeds does so at every step. -/
theorem mem_of_mapM_eq_some {β : Type*} {l : List α} {g : α → Option β} {ys : List β}
    (h : l.mapM g = some ys) {x : α} (hx : x ∈ l) : ∃ y ∈ ys, g x = some y := by
  induction l generalizing ys with
  | nil => cases hx
  | cons first rest ih =>
    rw [List.mapM_cons] at h
    obtain ⟨y, hy, h⟩ := Option.bind_eq_some_iff.mp h
    obtain ⟨zs, hzs, h⟩ := Option.bind_eq_some_iff.mp h
    cases h
    rcases List.mem_cons.mp hx with rfl | hx
    · exact ⟨y, List.mem_cons_self, hy⟩
    · obtain ⟨z, hz, hgz⟩ := ih hzs hx
      exact ⟨z, List.mem_cons_of_mem _ hz, hgz⟩

/-- Values of a function on a list are its values on some list of the same elements. -/
theorem exists_map_eq {β : Type*} {l : List α} {g : α → β} {ys : List β}
    (h : ∀ y ∈ ys, ∃ x ∈ l, g x = y) : ∃ xs : List α, (∀ x ∈ xs, x ∈ l) ∧ xs.map g = ys := by
  induction ys with
  | nil => exact ⟨[], fun _ hx => absurd hx List.not_mem_nil, rfl⟩
  | cons y rest ih =>
    obtain ⟨x, hx, rfl⟩ := h y List.mem_cons_self
    obtain ⟨xs, hmem, rfl⟩ := ih fun z hz => h z (List.mem_cons_of_mem _ hz)
    exact ⟨x :: xs, List.forall_mem_cons.mpr ⟨hx, hmem⟩, rfl⟩

end KmControl.Chunks
