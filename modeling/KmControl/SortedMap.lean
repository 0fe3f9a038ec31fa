import Mathlib.Data.List.Basic
import Mathlib.Data.List.Pairwise
import Mathlib.Data.List.Perm.Subperm
import Mathlib.Order.Basic
import Mathlib.Order.Defs.LinearOrder
import Mathlib.Order.Lattice

/-!
Finite maps kept as a list of entries in strictly ascending key order, the
order an ordered map iterates in. The order is a field of the structure, so
every operation carries its own proof of it; lookups are characterized by
membership of the entry, and every other lemma is read off that.
-/
namespace KmControl

/-- Machine words as keys. -/
instance instLinearOrderWord : LinearOrder UInt32 where
  le_refl := UInt32.le_refl
  le_trans _ _ _ := UInt32.le_trans
  le_antisymm _ _ := UInt32.le_antisymm
  le_total := UInt32.le_total
  lt_iff_le_not_ge a b := by
    rw [UInt32.not_le]
    exact ⟨fun h => ⟨UInt32.le_of_lt h, h⟩, fun h => h.2⟩
  toDecidableLE := UInt32.decLe
  toDecidableEq := instDecidableEqUInt32
  toDecidableLT := UInt32.decLt

structure SortedMap (κ β : Type*) [LinearOrder κ] where
  entries : List (κ × β)
  sorted : entries.Pairwise (fun a b => a.1 < b.1)

namespace SortedMap

variable {κ β : Type*} [LinearOrder κ]

def empty : SortedMap κ β := ⟨[], List.Pairwise.nil⟩

def keys (m : SortedMap κ β) : List κ := m.entries.map Prod.fst

def size (m : SortedMap κ β) : ℕ := m.entries.length

def find? (m : SortedMap κ β) (k : κ) : Option β :=
  (m.entries.find? (fun e => decide (e.1 = k))).map Prod.snd

/-- The entry with the least key. -/
def first? (m : SortedMap κ β) : Option (κ × β) := m.entries.head?

def erase (m : SortedMap κ β) (k : κ) : SortedMap κ β :=
  ⟨m.entries.filter (fun e => decide (e.1 ≠ k)), m.sorted.filter _⟩

/-- Keys strictly below `k`, in ascending order. -/
def below (m : SortedMap κ β) (k : κ) : List κ :=
  (m.entries.filter (fun e => decide (e.1 < k))).map Prod.fst

/-- Keys of the entries that satisfy `p`, in ascending order. -/
def keysWhere (m : SortedMap κ β) (p : β → Bool) : List κ :=
  (m.entries.filter (fun e => p e.2)).map Prod.fst

private theorem insert_sorted (m : SortedMap κ β) (k : κ) (v : β) :
    (m.entries.filter (fun e => decide (e.1 < k)) ++
      (k, v) :: m.entries.filter (fun e => decide (k < e.1))).Pairwise
        (fun a b => a.1 < b.1) := by
  refine List.pairwise_append.mpr ⟨m.sorted.filter _, ?_, ?_⟩
  · refine List.pairwise_cons.mpr ⟨?_, m.sorted.filter _⟩
    intro e he
    simpa using (List.mem_filter.mp he).2
  · intro a ha b hb
    have hak : a.1 < k := by simpa using (List.mem_filter.mp ha).2
    rcases List.mem_cons.mp hb with rfl | hb
    · exact hak
    · have hkb : k < b.1 := by simpa using (List.mem_filter.mp hb).2
      exact hak.trans hkb

/-- Insert an entry, replacing the one with the same key if there is one. -/
def insert (m : SortedMap κ β) (k : κ) (v : β) : SortedMap κ β :=
  ⟨m.entries.filter (fun e => decide (e.1 < k)) ++
    (k, v) :: m.entries.filter (fun e => decide (k < e.1)), insert_sorted m k v⟩

theorem entry_unique (m : SortedMap κ β) {a b : κ × β}
    (ha : a ∈ m.entries) (hb : b ∈ m.entries) (hk : a.1 = b.1) : a = b := by
  obtain ⟨i, hi, rfl⟩ := List.getElem_of_mem ha
  obtain ⟨j, hj, rfl⟩ := List.getElem_of_mem hb
  have hsorted := List.pairwise_iff_getElem.mp m.sorted
  rcases Nat.lt_trichotomy i j with hij | rfl | hji
  · exact absurd hk (hsorted i j hi hj hij).ne
  · rfl
  · exact absurd hk (hsorted j i hj hi hji).ne'

theorem find?_eq_some_iff (m : SortedMap κ β) (k : κ) (v : β) :
    m.find? k = some v ↔ (k, v) ∈ m.entries := by
  constructor
  · intro h
    obtain ⟨e, he, rfl⟩ := Option.map_eq_some_iff.mp h
    have hk : e.1 = k := by simpa using List.find?_some he
    subst hk
    exact List.mem_of_find?_eq_some he
  · intro h
    cases hf : m.entries.find? (fun e => decide (e.1 = k)) with
    | none =>
      have hne := List.find?_eq_none.mp hf _ h
      simp at hne
    | some e =>
      have hk : e.1 = k := by simpa using List.find?_some hf
      have he := entry_unique m (List.mem_of_find?_eq_some hf) h hk
      simp [find?, hf, he]

theorem mem_keys_iff (m : SortedMap κ β) (k : κ) :
    k ∈ m.keys ↔ ∃ v, m.find? k = some v := by
  simp [keys, find?_eq_some_iff]

@[simp] theorem find?_empty (k : κ) : (empty : SortedMap κ β).find? k = none := rfl

@[simp] theorem find?_insert (m : SortedMap κ β) (k k' : κ) (v : β) :
    (m.insert k v).find? k' = if k' = k then some v else m.find? k' := by
  apply Option.ext
  intro w
  rw [find?_eq_some_iff]
  split
  · rename_i heq
    subst heq
    simp [insert, eq_comm]
  · rename_i hne
    rw [find?_eq_some_iff]
    have hcase : k' < k ∨ k < k' := lt_or_gt_of_ne hne
    simp only [insert, List.mem_append, List.mem_cons, List.mem_filter, decide_eq_true_eq,
      Prod.mk.injEq]
    constructor
    · rintro (h | ⟨h, -⟩ | h)
      · exact h.1
      · exact absurd h hne
      · exact h.1
    · intro h
      rcases hcase with hlt | hgt
      · exact Or.inl ⟨h, hlt⟩
      · exact Or.inr (Or.inr ⟨h, hgt⟩)

@[simp] theorem find?_erase (m : SortedMap κ β) (k k' : κ) :
    (m.erase k).find? k' = if k' = k then none else m.find? k' := by
  apply Option.ext
  intro w
  rw [find?_eq_some_iff]
  split
  · rename_i heq
    subst heq
    simp [erase]
  · rename_i hne
    rw [find?_eq_some_iff]
    simp [erase, hne]

theorem find?_of_first? {m : SortedMap κ β} {k : κ} {v : β} (h : m.first? = some (k, v)) :
    m.find? k = some v :=
  (m.find?_eq_some_iff k v).mpr (List.mem_of_mem_head? h)

theorem first?_eq_none_iff (m : SortedMap κ β) : m.first? = none ↔ m.size = 0 := by
  simp [first?, size, List.length_eq_zero_iff]

theorem mem_below_iff (m : SortedMap κ β) (k k' : κ) :
    k' ∈ m.below k ↔ k' < k ∧ ∃ v, m.find? k' = some v := by
  simp only [below, List.mem_map, List.mem_filter, decide_eq_true_eq, find?_eq_some_iff]
  constructor
  · rintro ⟨⟨a, v⟩, ⟨hmem, hlt⟩, rfl⟩
    exact ⟨hlt, v, hmem⟩
  · rintro ⟨hlt, v, hmem⟩
    exact ⟨(k', v), ⟨hmem, hlt⟩, rfl⟩

theorem mem_keysWhere_iff (m : SortedMap κ β) (p : β → Bool) (k : κ) :
    k ∈ m.keysWhere p ↔ ∃ v, m.find? k = some v ∧ p v = true := by
  simp only [keysWhere, List.mem_map, List.mem_filter, find?_eq_some_iff]
  constructor
  · rintro ⟨⟨a, v⟩, ⟨hmem, hp⟩, rfl⟩
    exact ⟨v, hmem, hp⟩
  · rintro ⟨v, hmem, hp⟩
    exact ⟨(k, v), ⟨hmem, hp⟩, rfl⟩

theorem nodup_map_fst_filter (m : SortedMap κ β) (p : κ × β → Bool) :
    ((m.entries.filter p).map Prod.fst).Nodup := by
  rw [List.nodup_iff_pairwise_ne]
  exact List.pairwise_map.mpr ((m.sorted.filter p).imp fun h => h.ne)

theorem nodup_below (m : SortedMap κ β) (k : κ) : (m.below k).Nodup :=
  m.nodup_map_fst_filter _

theorem nodup_keysWhere (m : SortedMap κ β) (p : β → Bool) : (m.keysWhere p).Nodup :=
  m.nodup_map_fst_filter _

/-- A map whose keys are among some has no more entries than those. -/
theorem size_le (m : SortedMap κ β) (ks : List κ)
    (h : ∀ k v, m.find? k = some v → k ∈ ks) : m.size ≤ ks.length := by
  have hnodup : m.keys.Nodup := by
    rw [List.nodup_iff_pairwise_ne]
    exact List.pairwise_map.mpr (m.sorted.imp fun hlt => hlt.ne)
  have hsub : m.keys ⊆ ks := by
    intro k hk
    obtain ⟨v, hv⟩ := (m.mem_keys_iff k).mp hk
    exact h k v hv
  have hle := (hnodup.subperm hsub).length_le
  rwa [keys, List.length_map] at hle

/-- A map has no more entries than one that has all of its keys. -/
theorem size_le_size (m : SortedMap κ β) {γ : Type*} (m' : SortedMap κ γ)
    (h : ∀ k v, m.find? k = some v → ∃ v', m'.find? k = some v') : m.size ≤ m'.size := by
  have hle := m.size_le m'.keys fun k v hk => (m'.mem_keys_iff k).mpr (h k v hk)
  rwa [keys, List.length_map] at hle

theorem size_insert_le (m : SortedMap κ β) (k : κ) (v : β) :
    (m.insert k v).size ≤ m.size + 1 := by
  have hle := (m.insert k v).size_le (k :: m.keys) fun k' v' hk' => by
    rw [find?_insert] at hk'
    split at hk'
    · rename_i heq
      exact heq ▸ List.mem_cons_self
    · exact List.mem_cons_of_mem _ ((m.mem_keys_iff k').mpr ⟨v', hk'⟩)
  rwa [List.length_cons, keys, List.length_map] at hle

theorem size_erase_lt {m : SortedMap κ β} {k : κ} {v : β} (h : m.find? k = some v) :
    (m.erase k).size < m.size := by
  have hmem : (k, v) ∈ m.entries := (m.find?_eq_some_iff k v).mp h
  refine List.length_filter_lt_length_iff_exists.mpr ⟨(k, v), hmem, ?_⟩
  simp

section Map

variable {γ : Type*} (g : β → γ)

/-- The map with every value replaced by its image. -/
def map (m : SortedMap κ β) : SortedMap κ γ where
  entries := m.entries.map fun e => (e.1, g e.2)
  sorted := List.pairwise_map.mpr m.sorted

theorem ext_entries {m m' : SortedMap κ β} (h : m.entries = m'.entries) : m = m' := by
  cases m
  cases m'
  cases h
  rfl

instance [DecidableEq β] : DecidableEq (SortedMap κ β) := fun m m' =>
  decidable_of_iff (m.entries = m'.entries) ⟨ext_entries, congrArg entries⟩

private theorem filter_map_entries (m : SortedMap κ β) (p : κ → Bool) :
    (m.map g).entries.filter (fun e => p e.1) =
      (m.entries.filter fun e => p e.1).map fun e => (e.1, g e.2) := by
  rw [map, List.filter_map]
  rfl

theorem find?_map (m : SortedMap κ β) (k : κ) : (m.map g).find? k = (m.find? k).map g := by
  unfold find? map
  rw [List.find?_map, Option.map_map, Option.map_map]
  rfl

theorem map_erase (m : SortedMap κ β) (k : κ) : (m.erase k).map g = (m.map g).erase k :=
  ext_entries (filter_map_entries g m fun k' => decide (k' ≠ k)).symm

theorem map_insert (m : SortedMap κ β) (k : κ) (v : β) :
    (m.insert k v).map g = (m.map g).insert k (g v) := by
  apply ext_entries
  have hlow := filter_map_entries g m fun k' => decide (k' < k)
  have hhigh := filter_map_entries g m fun k' => decide (k < k')
  simp only [insert, hlow, hhigh]
  exact List.map_append

theorem below_map (m : SortedMap κ β) (k : κ) : (m.map g).below k = m.below k := by
  rw [below, filter_map_entries g m fun k' => decide (k' < k), List.map_map]
  rfl

theorem keysWhere_map (m : SortedMap κ β) (p : γ → Bool) :
    (m.map g).keysWhere p = m.keysWhere fun v => p (g v) := by
  rw [keysWhere, map, List.filter_map, List.map_map]
  rfl

theorem size_map (m : SortedMap κ β) : (m.map g).size = m.size := List.length_map _

theorem first?_map (m : SortedMap κ β) :
    (m.map g).first? = m.first?.map fun e => (e.1, g e.2) := List.head?_map

end Map

end SortedMap

end KmControl
