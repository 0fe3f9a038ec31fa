import Mathlib.Data.List.Basic

/-!
Maps that are kept up to date by messages. A message decides the values of some keys and
leaves the others alone; after a list of messages the last one that decides a key has
its say, and without any the old value stays.
-/
namespace KmControl.LastWrite

variable {K M V : Type*} (write : M → K → Option V)

def apply (map : K → V) (m : M) : K → V := fun k => (write m k).getD (map k)

/-- What the last message to decide a key says about it. -/
def latest (k : K) : List M → Option V
  | [] => none
  | m :: msgs => (latest k msgs).or (write m k)

@[simp] theorem latest_nil (k : K) : latest write k [] = none := rfl

@[simp] theorem latest_cons (k : K) (m : M) (msgs : List M) :
    latest write k (m :: msgs) = (latest write k msgs).or (write m k) := rfl

theorem latest_append (k : K) (msgs more : List M) :
    latest write k (msgs ++ more) = (latest write k more).or (latest write k msgs) := by
  induction msgs with
  | nil => simp
  | cons m msgs ih => rw [List.cons_append, latest_cons, ih, latest_cons, Option.or_assoc]

theorem latest_concat (k : K) (msgs : List M) (m : M) :
    latest write k (msgs ++ [m]) = (write m k).or (latest write k msgs) := by
  rw [latest_append]
  rfl

/-- A message that leaves the key alone changes nothing for it at the end of a list. -/
theorem latest_concat_of_none {k : K} {m : M} (h : write m k = none) (msgs : List M) :
    latest write k (msgs ++ [m]) = latest write k msgs := by
  rw [latest_concat, h, Option.none_or]

theorem foldl_apply (map : K → V) (msgs : List M) (k : K) :
    msgs.foldl (apply write) map k = (latest write k msgs).getD (map k) := by
  induction msgs generalizing map with
  | nil => rfl
  | cons m msgs ih =>
    rw [List.foldl_cons, ih, latest_cons]
    cases latest write k msgs with
    | none => rfl
    | some v => rfl

/-- Old messages may be dropped from a list in which a later one decides the key. -/
theorem latest_drop {k : K} {v : V} {n : ℕ} {msgs : List M}
    (h : latest write k (msgs.drop n) = some v) : latest write k msgs = some v := by
  rw [← List.take_append_drop n msgs, latest_append, h]
  rfl

end KmControl.LastWrite
