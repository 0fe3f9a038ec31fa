import KmControl.MoonRtsp
import KmControl.Readers

/-!
Replies over RTSP. The host writes a reply and closes the connection, and the client reads
until it has a whole reply, in whatever parts it comes.
-/
namespace KmControl.RtspReplies

open RtspMessage Sdp Decimal

section Laws

/-- The parser and the serializer of replies. -/
structure ReplyTypes where
  parse : Bytes → Parsed
  write : Response → Bytes

/-- The fields of a reply before the length of its body is added to them. -/
structure ReplyOk (r : Response) : Prop where
  fields : ∀ f ∈ r.fields, FieldOk f
  names : (lower "Content-Length".toList :: r.fields.map fun f => lower f.1).Nodup

def allFields (r : Response) : List Field := r.fields ++ lengthField r.body

variable {r : Response}

theorem names_allFields (h : ReplyOk r) : ((allFields r).map fun f => lower f.1).Nodup := by
  unfold allFields lengthField
  split
  · rw [List.append_nil]
    exact (List.nodup_cons.mp h.names).2
  · rw [List.map_append]
    exact (List.perm_append_singleton _ _).nodup_iff.mpr h.names

/-- A reply is read as it was written, with the length of its body beside its fields; for a
part of it more is needed. -/
structure ReplyTypes.Lawful (lib : ReplyTypes) : Prop where
  whole : ∀ r, ReplyOk r → ∃ read, read.Perm (allFields r) ∧
    lib.parse (lib.write r) = .message (.response { r with fields := read })
  part : ∀ r x, ReplyOk r → x <+: lib.write r → x ≠ lib.write r → lib.parse x = .incomplete

end Laws

section Reading

/-- The loop of `round_trip` that reads a reply; nothing is read at the end of the stream. -/
def roundTrip (lib : ReplyTypes) (buf : Bytes) (reads : List Bytes) : Option Response :=
  match lib.parse buf with
  | .message (.response r) => some r
  | .message _ | .error => none
  | .incomplete =>
    match reads with
    | [] => none
    | chunk :: reads => if chunk = [] then none else roundTrip lib (buf ++ chunk) reads

variable {lib : ReplyTypes} {r : Response}

theorem roundTrip_of_parts (hlib : lib.Lawful) (hr : ReplyOk r) {buf : Bytes}
    {reads : List Bytes} (hne : ∀ chunk ∈ reads, chunk ≠ [])
    (hwhole : buf ++ reads.flatten = lib.write r) :
    ∃ read, read.Perm (allFields r) ∧
      roundTrip lib buf reads = some { r with fields := read } := by
  induction reads generalizing buf with
  | nil =>
    rw [List.flatten_nil, List.append_nil] at hwhole
    obtain ⟨read, hperm, hparse⟩ := hlib.whole r hr
    refine ⟨read, hperm, ?_⟩
    unfold roundTrip
    rw [hwhole, hparse]
  | cons chunk reads ih =>
    have hchunk : chunk ≠ [] := hne chunk List.mem_cons_self
    rw [List.flatten_cons, ← List.append_assoc] at hwhole
    have hpart : lib.parse buf = .incomplete := by
      refine hlib.part r buf hr ⟨chunk ++ reads.flatten, ?_⟩ fun heq => ?_
      · rw [← List.append_assoc, hwhole]
      · rw [List.append_assoc, ← heq] at hwhole
        have hnil := List.append_cancel_left (hwhole.trans (List.append_nil buf).symm)
        exact hchunk (List.append_eq_nil_iff.mp hnil).1
    obtain ⟨read, hperm, hrest⟩ :=
      ih (fun c hc => hne c (List.mem_cons_of_mem chunk hc)) hwhole
    refine ⟨read, hperm, ?_⟩
    unfold roundTrip
    rw [hpart]
    dsimp only
    rw [if_neg hchunk, hrest]

/-- The client has the reply, with its fields in some order, once all of it has come. -/
theorem roundTrip_write (hlib : lib.Lawful) (hr : ReplyOk r) {reads : List Bytes}
    (hne : ∀ chunk ∈ reads, chunk ≠ []) (hwhole : reads.flatten = lib.write r) :
    ∃ reply, roundTrip lib [] reads = some reply ∧ reply.status = r.status ∧
      reply.body = r.body ∧ ∀ f ∈ r.fields, header reply.fields f.1 = some f.2 := by
  have hbegun : [] ++ reads.flatten = lib.write r := hwhole
  obtain ⟨read, hperm, hread⟩ := roundTrip_of_parts hlib hr hne hbegun
  refine ⟨_, hread, rfl, rfl, fun f hf => ?_⟩
  have hnames : (read.map fun f => lower f.1).Nodup :=
    (hperm.map _).nodup_iff.mpr (names_allFields hr)
  exact header_of_mem hnames (hperm.mem_iff.mpr (List.mem_append_left _ hf))

end Reading

section Fields

variable {name value : Text}

/-- A name of letters, digits and hyphens. -/
def PlainName (name : Text) : Prop :=
  name ≠ [] ∧ name.all (fun c => c.isAlphanum || decide (c = '-')) = true

instance (name : Text) : Decidable (PlainName name) :=
  inferInstanceAs (Decidable (name ≠ [] ∧ _ = true))

theorem fieldOk_of_line (hname : PlainName name) (hvalue : IsLine value)
    (hfirst : ∃ c, value.head? = some c ∧ visible c = true)
    (hlast : ∃ c, value.getLast? = some c ∧ visible c = true) : FieldOk (name, value) where
  name := by
    refine ⟨hname.1, fun c hc => ?_⟩
    rcases Bool.or_eq_true_iff.mp (List.all_eq_true.mp hname.2 c hc) with halnum | hhyphen
    · exact Or.inl halnum
    · exact Or.inr (of_decide_eq_true hhyphen)
  value := hvalue
  ends := ⟨hfirst, hlast⟩

theorem fieldOk_of_token (hname : PlainName name) (hvalue : IsToken value) :
    FieldOk (name, value) := by
  obtain ⟨c, l, hcons⟩ := List.exists_cons_of_ne_nil hvalue.1
  refine fieldOk_of_line hname (isLine_token hvalue) ⟨c, ?_, ?_⟩ ?_
  · rw [hcons]
    rfl
  · exact hvalue.2 c (hcons ▸ List.mem_cons_self)
  · exact ⟨_, List.getLast?_eq_some_getLast hvalue.1, hvalue.2 _ (List.getLast_mem _)⟩

theorem fieldOk_allFields {r : Response} (h : ReplyOk r) : ∀ f ∈ allFields r, FieldOk f := by
  intro f hf
  rcases List.mem_append.mp hf with hf | hf
  · exact h.fields f hf
  · unfold lengthField at hf
    split at hf
    · exact absurd hf List.not_mem_nil
    · rw [List.mem_singleton.mp hf]
      exact fieldOk_of_token (by decide) (isToken_numeral _)

end Fields

section Reader

open Readers

def codeOf : Status → Text
  | .ok => "200".toList
  | .badRequest => "400".toList

def reasonOf : Status → List Text
  | .ok => ["OK".toList]
  | .badRequest => ["Bad".toList, "Request".toList]

def versionText : Version → Text
  | .v1 => "RTSP/1.0".toList
  | .v2 => "RTSP/2.0".toList

def statusWords (r : Response) : List Text :=
  versionText r.version :: codeOf r.status :: reasonOf r.status

def statusOf (code : Text) : Option Status :=
  if code = "200".toList then some .ok
  else if code = "400".toList then some .badRequest
  else none

def parseStatus (l : Text) : Option (Version × Status) :=
  match splitWhitespace l with
  | version :: code :: _ => do
    let version ← versionOf version
    let status ← statusOf code
    some (version, status)
  | _ => none

def parseHead (head : Bytes) : Option ((Version × Status) × List Field) :=
  match lines (text head) with
  | [] => none
  | first :: rest => do
    let status ← parseStatus first
    let fields ← (rest.takeWhile (· ≠ [])).mapM parseField
    some (status, fields)

def bodyLength (fields : List Field) : ℕ :=
  ((header fields "Content-Length".toList).bind parseDigits).getD 0

/-- The fields come before the body, with its length among them. -/
def parse (x : Bytes) : Parsed :=
  match headEnd x with
  | none => .incomplete
  | some e =>
    match parseHead (x.take e) with
    | none => .error
    | some ((version, status), fields) =>
      if e + bodyLength fields ≤ x.length then
        .message (.response ⟨version, status, fields, (x.drop e).take (bodyLength fields)⟩)
      else .incomplete

def headText (r : Response) : Text := words (statusWords r) ++ tail (allFields r)

def write (r : Response) : Bytes := ascii (headText r) ++ r.body

def replyTypes : ReplyTypes := ⟨parse, write⟩

variable {r : Response}

theorem isToken_statusWords (r : Response) : ∀ w ∈ statusWords r, IsToken w := by
  have hversion : IsToken (versionText r.version) := by
    cases r.version <;> decide
  have hcode : IsToken (codeOf r.status) := by
    cases r.status <;> decide
  have hreason : ∀ w ∈ reasonOf r.status, IsToken w := by
    cases r.status with
    | ok => exact List.forall_mem_singleton.mpr (by decide)
    | badRequest =>
      exact List.forall_mem_cons.mpr ⟨by decide, List.forall_mem_singleton.mpr (by decide)⟩
  exact List.forall_mem_cons.mpr ⟨hversion, List.forall_mem_cons.mpr ⟨hcode, hreason⟩⟩

theorem isLine_status (r : Response) : IsLine (words (statusWords r)) :=
  isLine_words fun w hw => (isToken_statusWords r w hw).2

theorem parseStatus_words (r : Response) :
    parseStatus (words (statusWords r)) = some (r.version, r.status) := by
  have hwords : splitWhitespace (words (statusWords r)) = statusWords r :=
    splitWhitespace_intercalate fun w hw => isWord_of_isToken (isToken_statusWords r w hw)
  have hversion : versionOf (versionText r.version) = some r.version := by
    cases r.version <;> decide
  have hstatus : statusOf (codeOf r.status) = some r.status := by
    cases r.status <;> decide
  unfold parseStatus
  rw [hwords]
  unfold statusWords
  dsimp only
  rw [hversion, hstatus]
  rfl

theorem headEnd_headText (h : ReplyOk r) :
    headEnd (ascii (headText r)) = some (ascii (headText r)).length := by
  unfold headText
  rw [ascii_append, headEnd_skip (not_mem_ascii (isLine_status r)),
    headEnd_tail (fieldOk_allFields h), Option.map_some, List.length_append, ascii, ascii,
    List.length_map, List.length_map, Nat.add_comm]

theorem toNat_headText (h : ReplyOk r) : ∀ c ∈ headText r, c.toNat < 128 := by
  intro c hc
  rcases List.mem_append.mp hc with hc | hc
  · exact (toNat_of_isLine (isLine_status r) hc).2
  · rcases List.mem_append.mp hc with hc | hc
    · rcases List.mem_append.mp hc with hc | hc
      · exact toNat_lineEnd hc
      · obtain ⟨l, hl, hc⟩ := List.mem_flatMap.mp hc
        obtain ⟨f, hf, rfl⟩ := List.mem_map.mp hl
        rcases List.mem_append.mp hc with hc | hc
        · exact (toNat_of_isLine (isLine_fieldText (fieldOk_allFields h f hf)) hc).2
        · exact toNat_lineEnd hc
    · exact toNat_lineEnd hc

theorem parseHead_headText (h : ReplyOk r) :
    parseHead (ascii (headText r)) = some ((r.version, r.status), allFields r) := by
  have hfields : ∀ l ∈ (allFields r).map fieldText, IsLine l := by
    intro l hl
    obtain ⟨f, hf, rfl⟩ := List.mem_map.mp hl
    exact isLine_fieldText (fieldOk_allFields h f hf)
  have hlines : lines (headText r) =
      words (statusWords r) :: ((allFields r).map fieldText ++ [[], []]) := by
    unfold headText tail
    rw [List.append_assoc "\r\n".toList, ← List.append_assoc,
      lines_cons (isLine_status r), lines_flatMap hfields]
    rfl
  have htake : ((allFields r).map fieldText ++ [[], []]).takeWhile (· ≠ []) =
      (allFields r).map fieldText := by
    have hall : ∀ l ∈ (allFields r).map fieldText, decide (l ≠ []) = true := by
      intro l hl
      obtain ⟨f, hf, rfl⟩ := List.mem_map.mp hl
      exact decide_eq_true (fieldText_ne_nil (fieldOk_allFields h f hf))
    rw [List.takeWhile_append_of_pos hall]
    exact List.append_nil _
  unfold parseHead
  rw [text_ascii (toNat_headText h), hlines]
  dsimp only
  rw [parseStatus_words, htake, mapM_parseField (fieldOk_allFields h)]
  rfl

theorem bodyLength_allFields (h : ReplyOk r) : bodyLength (allFields r) = r.body.length := by
  unfold bodyLength
  by_cases hempty : r.body = []
  · have hfields : allFields r = r.fields := by
      unfold allFields lengthField
      rw [if_pos hempty, List.append_nil]
    have hnone : header r.fields "Content-Length".toList = none :=
      header_eq_none fun f hf heq => (List.nodup_cons.mp h.names).1
        (heq ▸ List.mem_map_of_mem hf)
    rw [hfields, hnone, hempty]
    rfl
  · have hmem : ("Content-Length".toList, numeral r.body.length) ∈ allFields r := by
      unfold allFields lengthField
      rw [if_neg hempty]
      exact List.mem_append_right _ (List.mem_singleton_self _)
    rw [header_of_mem (names_allFields h) hmem, Option.bind_some, parseDigits_numeral]
    rfl

/-- A part of a reply, with its head or without. -/
theorem parse_of_isPrefix (h : ReplyOk r) {x : Bytes} (hpre : x <+: write r) :
    parse x = if x = write r then .message (.response { r with fields := allFields r })
      else .incomplete := by
  obtain ⟨rest, hrest⟩ := hpre
  have hhead : headEnd (write r) = some (ascii (headText r)).length :=
    headEnd_append (headEnd_headText h) r.body
  have hlength : (write r).length = (ascii (headText r)).length + r.body.length :=
    List.length_append
  unfold parse
  cases he : headEnd x with
  | none =>
    have hne : x ≠ write r := by
      rintro rfl
      rw [he] at hhead
      cases hhead
    rw [if_neg hne]
  | some e =>
    have hsame : headEnd (write r) = some e := hrest ▸ headEnd_append he rest
    obtain rfl : (ascii (headText r)).length = e := Option.some.inj (hhead.symm.trans hsame)
    have hle := (headEnd_bounds he).2
    have htake : x.take (ascii (headText r)).length = ascii (headText r) := by
      have hwhole : (x ++ rest).take (ascii (headText r)).length = ascii (headText r) := by
        rw [hrest]
        exact List.take_left
      rwa [List.take_append_of_le_length hle] at hwhole
    dsimp only
    rw [htake, parseHead_headText h]
    dsimp only
    rw [bodyLength_allFields h]
    by_cases heq : x = write r
    · have hdrop : (write r).drop (ascii (headText r)).length = r.body := List.drop_left
      rw [if_pos heq, heq, if_pos hlength.ge, hdrop, List.take_length]
    · have hshort : x.length < (write r).length := by
        rw [← hrest, List.length_append]
        have hpos : rest ≠ [] := by
          rintro rfl
          exact heq (by rw [← hrest, List.append_nil])
        have := List.length_pos_of_ne_nil hpos
        omega
      rw [if_neg heq, if_neg (by omega)]

/-- The reader follows the grammar of replies. -/
theorem lawful : replyTypes.Lawful where
  whole r h :=
    ⟨allFields r, List.Perm.refl _, (parse_of_isPrefix h List.prefix_rfl).trans (if_pos rfl)⟩
  part _ _ h hpre hne := (parse_of_isPrefix h hpre).trans (if_neg hne)

end Reader

end KmControl.RtspReplies
