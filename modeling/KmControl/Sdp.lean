import KmControl.RtspMessage

/-!
Session descriptions: lines of the form `x=...`, of which the attributes are kept. Those
before the first media line belong to the session. The parser is a parameter that reads
what follows this grammar.
-/
namespace KmControl.Sdp

open RtspMessage Decimal

section Attributes

structure Session where
  attributes : List (Text × Option Text)
deriving DecidableEq

/-- The value of the first attribute of this name, if there is one. -/
def Session.getFirstAttributeValue (sdp : Session) (attr : Text) : Option (Option Text) :=
  (sdp.attributes.find? fun a => a.1 = attr).map Prod.snd

def parseU32 (l : Text) : Option UInt32 :=
  (parse 0 (2 ^ 32 - 1) l).map fun x => UInt32.ofNat x.toNat

def sdpAttr (sdp : Session) (attr : Text) : Option UInt32 :=
  (sdp.getFirstAttributeValue attr).join.bind fun s => parseU32 (trim s)

theorem parseU32_numeral (n : UInt32) : parseU32 (numeral n.toNat) = some n := by
  have hlt := n.toNat_lt
  have hread : parse 0 (2 ^ 32 - 1) (numeral n.toNat) = some (n.toNat : ℤ) := by
    unfold parse
    rw [parseValue_numeral]
    exact if_pos (decide_eq_true (by omega))
  unfold parseU32
  rw [hread]
  exact congrArg some UInt32.ofNat_toNat

theorem sdpAttr_of_mem {sdp : Session} (h : (sdp.attributes.map Prod.fst).Nodup) {attr : Text}
    {n : UInt32} (hmem : (attr, some (numeral n.toNat)) ∈ sdp.attributes) :
    sdpAttr sdp attr = some n := by
  have hfound : sdp.getFirstAttributeValue attr = some (some (numeral n.toNat)) :=
    congrArg (Option.map Prod.snd) (find?_of_mem h hmem)
  unfold sdpAttr
  rw [hfound, Option.join_some, Option.bind_some, trim_of_not_isWhitespace (isWord_numeral _).2]
  exact parseU32_numeral n

end Attributes

section Laws

/-- A description with an origin, a name, attributes with values and one medium, whose
protocol and formats can be empty. -/
structure SdpText where
  origin : List Text
  name : Text
  attributes : List (Text × Text)
  timing : List Text
  media : List Text

def attributeLine (a : Text × Text) : Text := "a=".toList ++ a.1 ++ ":".toList ++ a.2 ++ "\r\n".toList

def words (ws : List Text) : Text := [' '].intercalate ws

def SdpText.text (d : SdpText) : Text :=
  "v=0\r\no=".toList ++ words d.origin ++ "\r\ns=".toList ++ d.name ++ "\r\n".toList ++
    d.attributes.flatMap attributeLine ++ "t=".toList ++ words d.timing ++
      "\r\nm=".toList ++ words d.media ++ "\r\n".toList

/-- Every character of a line is seen in print or a blank. -/
def IsLine (l : Text) : Prop := ∀ c ∈ l, visible c = true ∨ isBlank c = true

instance (l : Text) : Decidable (IsLine l) :=
  decidable_of_iff (l.all (fun c => visible c || isBlank c) = true) (by simp [IsLine])

def IsToken (l : Text) : Prop := l ≠ [] ∧ ∀ c ∈ l, visible c = true

instance (l : Text) : Decidable (IsToken l) :=
  decidable_of_iff (l ≠ [] ∧ l.all visible = true) (by simp [IsToken])

theorem toNat_of_isLine {l : Text} (h : IsLine l) {c : Char} (hc : c ∈ l) :
    32 ≤ c.toNat ∧ c.toNat < 128 := by
  rcases h c hc with hseen | hblank
  · have hbounds : 33 ≤ c.toNat ∧ c.toNat ≤ 126 := of_decide_eq_true hseen
    omega
  · have heq : c.toNat = 32 := of_decide_eq_true hblank
    omega

theorem isLine_append {a b : Text} (ha : IsLine a) (hb : IsLine b) : IsLine (a ++ b) :=
  fun c hc => (List.mem_append.mp hc).elim (ha c) (hb c)

theorem isLine_token {l : Text} (h : IsToken l) : IsLine l := fun c hc => Or.inl (h.2 c hc)

theorem isLine_words {ws : List Text} (h : ∀ w ∈ ws, ∀ c ∈ w, visible c = true) :
    IsLine (words ws) := by
  induction ws with
  | nil => exact fun c hc => absurd hc List.not_mem_nil
  | cons w ws ih =>
    have hrest := ih fun w' hw' => h w' (List.mem_cons_of_mem _ hw')
    have hw : IsLine w := fun c hc => Or.inl (h w List.mem_cons_self c hc)
    unfold words at hrest ⊢
    cases ws with
    | nil =>
      rw [List.intercalate_singleton]
      exact hw
    | cons w' ws =>
      rw [List.intercalate_cons_cons]
      intro c hc
      rcases List.mem_append.mp hc with hc | hc
      · rcases List.mem_append.mp hc with hc | hc
        · exact hw c hc
        · exact Or.inr (by rw [List.mem_singleton.mp hc]; decide)
      · exact hrest c hc

theorem isToken_numeral (n : ℕ) : IsToken (numeral n) := by
  refine ⟨Nat.toDigits_ne_nil, fun c hc => visible_of_isAlphanum ?_⟩
  exact Bool.or_eq_true_iff.mpr (Or.inr (isDigit_numeral hc))

structure SdpText.WellFormed (d : SdpText) : Prop where
  origin : d.origin.length = 6 ∧ ∀ w ∈ d.origin, IsToken w
  ids : ∀ w ∈ (d.origin.drop 1).take 2, ∃ n < 2 ^ 64, w = numeral n
  name : d.name ≠ [] ∧ IsLine d.name
  attributes : ∀ a ∈ d.attributes, IsToken a.1 ∧ ':' ∉ a.1 ∧ IsToken a.2
  timing : ∃ n < 2 ^ 64, ∃ m < 2 ^ 64, d.timing = [numeral n, numeral m]
  media : ∃ kind, ∃ port < 2 ^ 16, ∃ proto fmt, d.media = [kind, numeral port, proto, fmt] ∧
    IsToken kind ∧ (∀ c ∈ proto, visible c = true) ∧ ∀ c ∈ fmt, visible c = true

/-- The parser of session descriptions. -/
structure SdpTypes where
  parse : Bytes → Option Session

structure SdpTypes.Grammar (lib : SdpTypes) : Prop where
  parse : ∀ d : SdpText, d.WellFormed →
    lib.parse (ascii d.text) = some ⟨d.attributes.map fun a => (a.1, some a.2)⟩

end Laws

end KmControl.Sdp
