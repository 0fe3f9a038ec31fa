import KmControl.ByteFields
import KmControl.Decimal
import Mathlib.Data.List.Infix
import Mathlib.Data.List.Perm.Basic

/-!
RTSP messages, and what reads and writes them. What the parser makes of a text depends
on the head of the message and on as many bytes after it as the head announces; a text
that follows the grammar is read as what it says. The parser, the serializer and the
reading of URLs are parameters that come with these laws.
-/
namespace KmControl.RtspMessage

open Decimal

abbrev Text := List Char

section Texts

/-- The bytes of a text that is ASCII. -/
def ascii (l : Text) : Bytes := l.map fun c => UInt8.ofNat c.toNat

/-- Bytes that are the UTF-8 of a text, else nothing. -/
def fromUtf8 (l : Bytes) : Option Bytes :=
  if ByteArray.validateUTF8 ⟨l.toArray⟩ then some l else none

/-- The text of bytes that are ASCII. -/
def text (l : Bytes) : Text := l.map fun b => Char.ofNat b.toNat

theorem ascii_append (a b : Text) : ascii (a ++ b) = ascii a ++ ascii b := List.map_append

theorem text_ascii {l : Text} (h : ∀ c ∈ l, c.toNat < 128) : text (ascii l) = l := by
  unfold text ascii
  rw [List.map_map]
  refine (List.map_congr_left fun c hc => ?_).trans (List.map_id l)
  have hlt := h c hc
  have hbyte : (UInt8.ofNat c.toNat).toNat = c.toNat := by
    rw [UInt8.toNat_ofNat']
    omega
  change Char.ofNat (UInt8.ofNat c.toNat).toNat = c
  rw [hbyte]
  exact Char.ofNat_toNat c

theorem eq_of_fromUtf8 {l l' : Bytes} (h : fromUtf8 l = some l') : l' = l := by
  unfold fromUtf8 at h
  split at h
  · exact (Option.some.inj h).symm
  · cases h

theorem fromUtf8_ascii {l : Text} (h : ∀ c ∈ l, c.toNat < 128) :
    fromUtf8 (ascii l) = some (ascii l) := by
  have hencode : l.flatMap String.utf8EncodeChar = ascii l := by
    unfold ascii
    rw [← List.flatMap_singleton' (l.map _), List.flatMap_map]
    refine List.flatMap_congr fun c hc => ?_
    have hlt := h c hc
    have hsize : c.utf8Size = 1 := by
      have hle : c.val ≤ 127 := UInt32.le_iff_toNat_le.mpr (Nat.le_of_lt_succ hlt)
      exact if_pos hle
    rw [String.utf8EncodeChar_eq_singleton hsize]
    refine congrArg (fun b => [b]) (UInt8.toNat_inj.mp ?_)
    rw [UInt32.toNat_toUInt8, UInt8.toNat_ofNat']
    rfl
  have hvalid : ByteArray.validateUTF8 ⟨(ascii l).toArray⟩ = true := by
    rw [ByteArray.validateUTF8_eq_true_iff]
    refine ⟨l, ?_⟩
    unfold List.utf8Encode
    rw [hencode]
    exact ByteArray.ext List.data_toByteArray.symm
  exact if_pos hvalid

end Texts

section Messages

inductive Method where
  | options
  | describe
  | setup
  | announce
  | play
  | other (name : Text)
deriving DecidableEq

def Method.name : Method → Text
  | .options => "OPTIONS".toList
  | .describe => "DESCRIBE".toList
  | .setup => "SETUP".toList
  | .announce => "ANNOUNCE".toList
  | .play => "PLAY".toList
  | .other name => name

inductive Version where
  | v1
  | v2
deriving DecidableEq

/-- What the host reads of a URL. -/
structure Url where
  queryPairs : List (Text × Text)
deriving DecidableEq

/-- The name of a header field and its value. -/
abbrev Field := Text × Text

structure Request where
  method : Method
  uri : Option Url
  version : Version
  fields : List Field
  body : Bytes
deriving DecidableEq

inductive Status where
  | ok
  | badRequest
deriving DecidableEq

structure Response where
  version : Version
  status : Status
  fields : List Field
  body : Bytes
deriving DecidableEq

inductive Message where
  | request (req : Request)
  | response (resp : Response)
  | data (channel : UInt8) (body : Bytes)
deriving DecidableEq

/-- What the parser returns. -/
inductive Parsed where
  | message (m : Message)
  | incomplete
  | error
deriving DecidableEq

def lower (name : Text) : Text := name.map Char.toLower

/-- The value of a field; names are compared without regard to case. -/
def header (fields : List Field) (name : Text) : Option Text :=
  (fields.find? fun f => lower f.1 = lower name).map Prod.snd

/-- With different keys every element of a list is found by its own. -/
theorem find?_of_mem {α κ : Type} [DecidableEq κ] {key : α → κ} {l : List α}
    (h : (l.map key).Nodup) {x : α} (hmem : x ∈ l) :
    l.find? (fun y => decide (key y = key x)) = some x := by
  induction l with
  | nil => exact absurd hmem List.not_mem_nil
  | cons y l ih =>
    obtain ⟨hnew, hrest⟩ := List.nodup_cons.mp h
    rcases List.mem_cons.mp hmem with rfl | hmem
    · exact List.find?_cons_of_pos (decide_eq_true rfl)
    · have hne : key y ≠ key x := fun heq => hnew (List.mem_map.mpr ⟨_, hmem, heq.symm⟩)
      rw [List.find?_cons_of_neg (by simpa using hne)]
      exact ih hrest hmem

theorem header_of_mem {fields : List Field} (h : (fields.map fun f => lower f.1).Nodup)
    {name value : Text} (hmem : (name, value) ∈ fields) : header fields name = some value :=
  congrArg (Option.map Prod.snd) (find?_of_mem h hmem)

theorem header_eq_none {fields : List Field} {name : Text}
    (h : ∀ f ∈ fields, lower f.1 ≠ lower name) : header fields name = none := by
  unfold header
  rw [List.find?_eq_none.mpr fun f hf => by simpa using h f hf]
  rfl

end Messages

section Heads

/-- Where the head of a message ends: after the first empty line. -/
def headEnd : Bytes → Option ℕ
  | [] => none
  | b :: l => if [13, 10, 13, 10] <+: b :: l then some 4 else (headEnd l).map (· + 1)

variable {x y : Bytes} {e : ℕ}

theorem headEnd_cases {b : UInt8} {l : Bytes} (h : headEnd (b :: l) = some e) :
    ([13, 10, 13, 10] <+: b :: l ∧ e = 4) ∨
      (¬ [13, 10, 13, 10] <+: b :: l ∧ ∃ n, headEnd l = some n ∧ e = n + 1) := by
  unfold headEnd at h
  split at h
  · rename_i hpre
    exact Or.inl ⟨hpre, (Option.some.inj h).symm⟩
  · rename_i hpre
    obtain ⟨n, hn, rfl⟩ := Option.map_eq_some_iff.mp h
    exact Or.inr ⟨hpre, n, hn, rfl⟩

theorem headEnd_bounds (h : headEnd x = some e) : 4 ≤ e ∧ e ≤ x.length := by
  induction x generalizing e with
  | nil => cases h
  | cons b l ih =>
    rcases headEnd_cases h with ⟨hpre, rfl⟩ | ⟨-, n, hn, rfl⟩
    · exact ⟨Nat.le_refl 4, hpre.length_le⟩
    · obtain ⟨hlow, hhigh⟩ := ih hn
      exact ⟨Nat.le_succ_of_le hlow, Nat.succ_le_succ hhigh⟩

/-- The head ends with a line feed. -/
theorem headEnd_last (h : headEnd x = some e) : x[e - 1]? = some 10 := by
  induction x generalizing e with
  | nil => cases h
  | cons b l ih =>
    rcases headEnd_cases h with ⟨⟨rest, hrest⟩, rfl⟩ | ⟨-, n, hn, rfl⟩
    · rw [← hrest]
      rfl
    · obtain ⟨hlow, -⟩ := headEnd_bounds hn
      rw [Nat.add_sub_cancel, ← ih hn]
      obtain ⟨k, rfl⟩ := Nat.exists_eq_add_of_le' (Nat.one_le_of_lt hlow)
      rfl

theorem mem_of_headEnd (h : headEnd x = some e) : 13 ∈ x := by
  induction x generalizing e with
  | nil => cases h
  | cons b l ih =>
    rcases headEnd_cases h with ⟨⟨rest, hrest⟩, -⟩ | ⟨-, n, hn, -⟩
    · rw [← hrest]
      exact List.mem_cons_self
    · exact List.mem_cons_of_mem b (ih hn)

theorem headEnd_append (h : headEnd x = some e) (y : Bytes) : headEnd (x ++ y) = some e := by
  induction x generalizing e with
  | nil => cases h
  | cons b l ih =>
    rcases headEnd_cases h with ⟨hpre, rfl⟩ | ⟨hpre, n, hn, rfl⟩
    · exact if_pos (hpre.trans (List.prefix_append _ _))
    · have hlong : ([13, 10, 13, 10] : Bytes).length ≤ (b :: l).length :=
        (headEnd_bounds hn).1.trans ((headEnd_bounds hn).2.trans (Nat.le_succ _))
      have hnot : ¬ [13, 10, 13, 10] <+: b :: (l ++ y) := fun hlater =>
        hpre (List.prefix_of_prefix_length_le hlater (List.prefix_append (b :: l) y) hlong)
      rw [List.cons_append, headEnd, if_neg hnot, ih hn]
      rfl

/-- The head is found in any part of the text that holds it. -/
theorem headEnd_of_append (h : headEnd (x ++ y) = some e) (he : e ≤ x.length) :
    headEnd x = some e := by
  induction x generalizing e with
  | nil =>
    have hlow := (headEnd_bounds h).1
    exact absurd (hlow.trans he) (by decide)
  | cons b l ih =>
    rcases headEnd_cases h with ⟨hpre, rfl⟩ | ⟨hpre, n, hn, rfl⟩
    · exact if_pos (List.prefix_of_prefix_length_le hpre (List.prefix_append (b :: l) y) he)
    · have hnot : ¬ [13, 10, 13, 10] <+: b :: l := fun hearlier =>
        hpre (hearlier.trans (List.prefix_append (b :: l) y))
      rw [headEnd, if_neg hnot, ih hn (Nat.le_of_succ_le_succ he)]
      rfl

end Heads

section Laws

/-- The parser and the serializer of RTSP messages, and the reading of URLs. -/
structure RtspTypes where
  parse : Bytes → Parsed
  /-- How many bytes of a body a head announces. -/
  contentLength : Bytes → ℕ
  /-- A request that is built from header fields and a body, without a URI. -/
  write : Method → List Field → Bytes → Bytes
  parseUrl : Text → Option Url

variable (lib : RtspTypes)

/-- The text has a head and as many bytes after it as the head announces. -/
def RtspTypes.Complete (x : Bytes) : Prop :=
  ∃ e, headEnd x = some e ∧ e + lib.contentLength (x.take e) ≤ x.length

/-- A dollar sign begins a message of interleaved data. -/
def IsData (x : Bytes) : Prop := x.head? = some 36

/-- What the parser needs of a text, and what it reads of it. -/
structure RtspTypes.Incremental : Prop where
  incomplete : ∀ x, ¬ IsData x → ¬ lib.Complete x → lib.parse x = .incomplete
  complete : ∀ x, ¬ IsData x → lib.Complete x → lib.parse x ≠ .incomplete
  trailing : ∀ x e, ¬ IsData x → headEnd x = some e →
    e + lib.contentLength (x.take e) ≤ x.length →
      lib.parse x = lib.parse (x.take (e + lib.contentLength (x.take e)))
  body : ∀ x e req, headEnd x = some e → lib.parse x = .message (.request req) →
    req.body = (x.drop e).take (lib.contentLength (x.take e))
  request : ∀ x req, lib.parse x = .message (.request req) → ¬ IsData x

/-- A request as the grammar has it, with a target that is not yet a URL. -/
structure RequestText where
  method : Method
  target : Text
  fields : List Field
  body : Bytes

def fieldLine (f : Field) : Text := f.1 ++ ": ".toList ++ f.2 ++ "\r\n".toList

def RequestText.line (r : RequestText) : Text :=
  r.method.name ++ " ".toList ++ r.target ++ " RTSP/1.0\r\n".toList

def RequestText.bytes (r : RequestText) : Bytes :=
  ascii (r.line ++ r.fields.flatMap fieldLine ++ "\r\n".toList) ++ r.body

/-- A character that is seen in print. -/
def visible (c : Char) : Bool := 33 ≤ c.toNat ∧ c.toNat ≤ 126

theorem isAlphanum_cases {c : Char} (h : c.isAlphanum = true) :
    (65 ≤ c.toNat ∧ c.toNat ≤ 90) ∨ (97 ≤ c.toNat ∧ c.toNat ≤ 122) ∨
      (48 ≤ c.toNat ∧ c.toNat ≤ 57) := by
  rcases Bool.or_eq_true_iff.mp h with hletter | hdigit
  · rcases Bool.or_eq_true_iff.mp hletter with hupper | hlower
    · have hbounds : c.val ≥ 'A'.val ∧ c.val ≤ 'Z'.val := of_decide_eq_true hupper
      exact Or.inl ⟨UInt32.le_iff_toNat_le.mp hbounds.1, UInt32.le_iff_toNat_le.mp hbounds.2⟩
    · obtain ⟨hlow, hhigh⟩ := Bool.and_eq_true_iff.mp hlower
      exact Or.inr (Or.inl ⟨UInt32.le_iff_toNat_le.mp (of_decide_eq_true hlow),
        UInt32.le_iff_toNat_le.mp (of_decide_eq_true hhigh)⟩)
  · exact Or.inr (Or.inr (Char.isDigit_iff_toNat.mp hdigit))

theorem visible_of_isAlphanum {c : Char} (h : c.isAlphanum = true) : visible c = true := by
  refine decide_eq_true ?_
  rcases isAlphanum_cases h with hcase | hcase | hcase <;> omega

def isBlank (c : Char) : Bool := c.toNat = 32

/-- A field name of letters, digits and hyphens, and a value without blanks at its ends. -/
structure FieldOk (f : Field) : Prop where
  name : f.1 ≠ [] ∧ ∀ c ∈ f.1, c.isAlphanum = true ∨ c = '-'
  value : ∀ c ∈ f.2, visible c = true ∨ isBlank c = true
  ends : (∃ c, f.2.head? = some c ∧ visible c = true) ∧
    ∃ c, f.2.getLast? = some c ∧ visible c = true

/-- The field that announces the length of a body that is not empty. -/
def lengthField (body : Bytes) : List Field :=
  if body = [] then [] else [("Content-Length".toList, numeral body.length)]

structure RequestText.WellFormed (r : RequestText) : Prop where
  method : ∀ name, r.method ≠ .other name
  target : r.target ≠ [] ∧ ∀ c ∈ r.target, visible c = true
  fields : ∀ f ∈ r.fields, FieldOk f
  names : (r.fields.map fun f => lower f.1).Nodup
  length : header r.fields "Content-Length".toList =
    (lengthField r.body).head?.map Prod.snd

/-- A character of a query that stands for itself. -/
def unreserved (c : Char) : Bool := c.isAlphanum || c = '/'

/-- The grammar of requests and of URLs with a query of one pair. -/
structure RtspTypes.Grammar : Prop where
  parse : ∀ (r : RequestText) (u : Url), r.WellFormed → lib.parseUrl r.target = some u →
    lib.parse r.bytes = .message (.request ⟨r.method, some u, .v1, r.fields, r.body⟩)
  write : ∀ m fields body, ((fields ++ lengthField body).map fun f => lower f.1).Nodup →
    ∃ written, written.Perm (fields ++ lengthField body) ∧
      lib.write m fields body = RequestText.bytes ⟨m, "*".toList, written, body⟩
  query : ∀ key value : Text, (∀ c ∈ key, unreserved c = true) → key ≠ [] →
    (∀ c ∈ value, unreserved c = true) →
      lib.parseUrl ("rtsp://localhost?".toList ++ key ++ "=".toList ++ value) =
        some ⟨[(key, value)]⟩
  root : ∃ u, lib.parseUrl "rtsp://localhost/".toList = some u

end Laws

end KmControl.RtspMessage
