import KmControl.Sdp

/-!
A parser and a serializer of RTSP messages and a parser of session descriptions that
follow the grammars: heads are taken apart line by line, URLs at their query.
-/
namespace KmControl.Readers

open RtspMessage Sdp Decimal

section Texts

def cr : Char := Char.ofNat 13

def lf : Char := Char.ofNat 10

def stripCr (l : Text) : Text := if l.getLast? = some cr then l.dropLast else l

/-- The lines of a text without their ends. -/
def lines (t : Text) : List Text := (t.splitOnP fun c => c = lf).map stripCr

theorem toNat_lineEnd {c : Char} (hc : c ∈ "\r\n".toList) : c.toNat < 128 := by
  rcases List.mem_cons.mp hc with rfl | hc
  · decide
  · rw [List.mem_singleton.mp hc]
    decide

theorem lines_cons {l : Text} (h : IsLine l) (t : Text) :
    lines (l ++ "\r\n".toList ++ t) = l :: lines t := by
  have hfree : ∀ c ∈ l ++ [cr], decide (c = lf) = false := by
    intro c hc
    refine decide_eq_false fun heq => ?_
    rcases List.mem_append.mp hc with hc | hc
    · have hlow := (toNat_of_isLine h hc).1
      rw [heq] at hlow
      exact absurd hlow (by decide)
    · rw [List.mem_singleton.mp hc] at heq
      exact absurd heq (by decide)
  have hsplit : l ++ "\r\n".toList ++ t = (l ++ [cr]) ++ lf :: t := by
    simp only [List.append_assoc]
    rfl
  unfold lines
  rw [hsplit, List.splitOnP_append_cons_of_forall_mem hfree lf (decide_eq_true rfl),
    List.map_cons]
  refine congrArg (· :: _) ?_
  unfold stripCr
  rw [if_pos (by rw [List.getLast?_append]; rfl), List.dropLast_concat]

theorem lines_flatMap {ls : List Text} (h : ∀ l ∈ ls, IsLine l) (t : Text) :
    lines (ls.flatMap (· ++ "\r\n".toList) ++ t) = ls ++ lines t := by
  induction ls with
  | nil => rfl
  | cons l ls ih =>
    rw [List.flatMap_cons, List.append_assoc, lines_cons (h l List.mem_cons_self),
      ih fun l' hl' => h l' (List.mem_cons_of_mem _ hl')]
    rfl

end Texts

section Heads

/-- What the head of a request says. -/
structure Head where
  method : Method
  uri : Option Url
  version : Version
  fields : List Field

def methodOf (name : Text) : Method :=
  if name = "OPTIONS".toList then .options
  else if name = "DESCRIBE".toList then .describe
  else if name = "SETUP".toList then .setup
  else if name = "ANNOUNCE".toList then .announce
  else if name = "PLAY".toList then .play
  else .other name

def versionOf (name : Text) : Option Version :=
  if name = "RTSP/1.0".toList then some .v1
  else if name = "RTSP/2.0".toList then some .v2
  else none

/-- The pairs of a query, between ampersands. -/
def pairs (query : Text) : List (Text × Text) :=
  ((query.splitOnP fun c => c = '&').filter fun p => !p.isEmpty).map fun p =>
    (p.takeWhile (· ≠ '='), (p.dropWhile (· ≠ '=')).drop 1)

def parseUrl (t : Text) : Option Url :=
  if "rtsp://".toList <+: t then some ⟨pairs ((t.dropWhile (· ≠ '?')).drop 1)⟩ else none

def uriOf (target : Text) : Option (Option Url) :=
  if target = "*".toList then some none else (parseUrl target).map some

def parseField (l : Text) : Option Field :=
  if ':' ∈ l then some (l.takeWhile (· ≠ ':'), trim ((l.dropWhile (· ≠ ':')).drop 1)) else none

def parseHead (head : Bytes) : Option Head :=
  match lines (text head) with
  | [] => none
  | start :: rest =>
    match splitWhitespace start with
    | [method, target, version] => do
      let uri ← uriOf target
      let version ← versionOf version
      let fields ← (rest.takeWhile (· ≠ [])).mapM parseField
      some ⟨methodOf method, uri, version, fields⟩
    | _ => none

def contentLength (head : Bytes) : ℕ :=
  (((parseHead head).bind fun h => header h.fields "Content-Length".toList).bind parseDigits).getD 0

/-- A message of interleaved data, with its channel and its length before it. -/
def parseData : Bytes → Parsed
  | _ :: channel :: high :: low :: rest =>
    let size := (ByteFields.u16OfBe high low).toNat
    if size ≤ rest.length then .message (.data channel (rest.take size)) else .incomplete
  | _ => .incomplete

def parse (x : Bytes) : Parsed :=
  if x.head? = some 36 then parseData x
  else match headEnd x with
    | none => .incomplete
    | some e =>
      let size := contentLength (x.take e)
      if e + size ≤ x.length then
        match parseHead (x.take e) with
        | none => .error
        | some h => .message (.request ⟨h.method, h.uri, h.version, h.fields,
            (x.drop e).take size⟩)
      else .incomplete

def write (m : Method) (fields : List Field) (body : Bytes) : Bytes :=
  RequestText.bytes ⟨m, "*".toList, fields ++ lengthField body, body⟩

def rtspTypes : RtspTypes := ⟨parse, contentLength, write, parseUrl⟩

end Heads

section Increments

variable {x : Bytes} {e : ℕ}

theorem parse_complete (hx : ¬ x.head? = some 36) (he : headEnd x = some e)
    (hlen : e + contentLength (x.take e) ≤ x.length) :
    parse x = match parseHead (x.take e) with
      | none => .error
      | some h => .message (.request ⟨h.method, h.uri, h.version, h.fields,
          (x.drop e).take (contentLength (x.take e))⟩) := by
  unfold parse
  rw [if_neg hx, he]
  exact if_pos hlen

theorem parse_incomplete (hx : ¬ x.head? = some 36) (h : ¬ rtspTypes.Complete x) :
    parse x = .incomplete := by
  unfold parse
  rw [if_neg hx]
  cases he : headEnd x with
  | none => rfl
  | some e => exact if_neg fun hlen => h ⟨e, he, hlen⟩

theorem not_isData_of_parse {req : Request} (h : parse x = .message (.request req)) :
    ¬ IsData x := by
  intro hx
  unfold IsData at hx
  unfold parse at h
  rw [if_pos hx] at h
  unfold parseData at h
  split at h
  · dsimp only at h
    split at h
    · cases h
    · cases h
  · cases h

/-- The reader needs the head and the body of a message, and reads no more than these. -/
theorem incremental : rtspTypes.Incremental where
  incomplete _ hx h := parse_incomplete hx h
  complete x hx h := by
    obtain ⟨e, he, hlen⟩ := h
    change parse x ≠ .incomplete
    rw [parse_complete hx he hlen]
    split
    · exact fun heq => by cases heq
    · exact fun heq => by cases heq
  trailing x e hx he hlen := by
    change e + contentLength (x.take e) ≤ x.length at hlen
    change parse x = parse (x.take (e + contentLength (x.take e)))
    generalize hn : e + contentLength (x.take e) = n at hlen ⊢
    have hshort : (x.take n).length = n := List.length_take_of_le hlen
    have hwhole : x.take n ++ x.drop n = x := List.take_append_drop n x
    have htake : (x.take n).take e = x.take e := by
      rw [List.take_take, Nat.min_eq_left (by omega)]
    have hhead : headEnd (x.take n) = some e :=
      headEnd_of_append (hwhole.symm ▸ he) (by omega)
    have hdata : ¬ IsData (x.take n) := by
      intro hdata
      apply hx
      unfold IsData at *
      rw [← hwhole, List.head?_append, hdata]
      rfl
    have hbody : ((x.take n).drop e).take (contentLength (x.take e)) =
        (x.drop e).take (contentLength (x.take e)) := by
      rw [List.drop_take, List.take_take, Nat.min_eq_left (by omega)]
    rw [parse_complete hx he (hn ▸ hlen),
      parse_complete hdata hhead (by rw [htake, hn, hshort]), htake, hbody]
  body x e req he h := by
    have hx := not_isData_of_parse h
    change parse x = _ at h
    by_cases hlen : e + contentLength (x.take e) ≤ x.length
    · rw [parse_complete hx he hlen] at h
      split at h
      · cases h
      · cases h
        rfl
    · have hshort : ¬ rtspTypes.Complete x := by
        rintro ⟨e', he', hlen'⟩
        obtain rfl : e' = e := Option.some.inj (he'.symm.trans he)
        exact hlen hlen'
      rw [parse_incomplete hx hshort] at h
      cases h
  request _ _ h := not_isData_of_parse h

end Increments

section Requests

theorem isWhitespace_of_visible {c : Char} (h : visible c = true) : isWhitespace c = false := by
  have hbounds : 33 ≤ c.toNat ∧ c.toNat ≤ 126 := of_decide_eq_true h
  unfold isWhitespace
  simp only [List.contains_cons, List.contains_nil, Bool.or_eq_false_iff, decide_eq_false_iff_not,
    beq_eq_false_iff_ne, and_true]
  omega

theorem isWord_of_isToken {l : Text} (h : IsToken l) : IsWord l :=
  ⟨h.1, fun c hc => isWhitespace_of_visible (h.2 c hc)⟩

/-- Blanks around a text go, and no more. -/
theorem trim_cons {v : Text} {first last : Char} (hfirst : v.head? = some first)
    (hlast : v.getLast? = some last) (hseen : visible first = true) (hseen' : visible last = true) :
    trim (' ' :: v) = v := by
  obtain ⟨v, rfl⟩ : ∃ v', v = first :: v' := by
    cases v with
    | nil => cases hfirst
    | cons c v =>
      obtain rfl : c = first := Option.some.inj hfirst
      exact ⟨v, rfl⟩
  have hne : first :: v ≠ [] := List.cons_ne_nil first v
  have hend : (first :: v).getLast hne = last := by
    rw [List.getLast?_eq_some_getLast hne] at hlast
    exact Option.some.inj hlast
  have hblank : isWhitespace ' ' = true := by decide
  unfold trim
  rw [List.dropWhile_cons_of_pos hblank,
    List.dropWhile_cons_of_neg (by rw [isWhitespace_of_visible hseen]; exact Bool.false_ne_true),
    List.rdropWhile_eq_self_iff]
  intro hne'
  rw [hend, isWhitespace_of_visible hseen']
  exact Bool.false_ne_true

def fieldText (f : Field) : Text := f.1 ++ ": ".toList ++ f.2

theorem parseField_fieldText {f : Field} (h : FieldOk f) : parseField (fieldText f) = some f := by
  have hname : ∀ c ∈ f.1, decide (c ≠ ':') = true := by
    intro c hc
    refine decide_eq_true fun heq => ?_
    rcases h.name.2 c hc with halnum | hhyphen
    · rw [heq] at halnum
      exact absurd halnum (by decide)
    · rw [heq] at hhyphen
      exact absurd hhyphen (by decide)
  have hshape : fieldText f = f.1 ++ ':' :: ' ' :: f.2 := by
    unfold fieldText
    rw [List.append_assoc]
    rfl
  have htake : (fieldText f).takeWhile (· ≠ ':') = f.1 := by
    rw [hshape, List.takeWhile_append_of_pos hname]
    exact List.append_nil f.1
  have hdrop : (fieldText f).dropWhile (· ≠ ':') = ':' :: ' ' :: f.2 := by
    rw [hshape, List.dropWhile_append_of_pos hname]
    rfl
  have hmem : ':' ∈ fieldText f := hshape ▸ List.mem_append_right _ List.mem_cons_self
  obtain ⟨⟨first, hfirst, hseen⟩, last, hlast, hseen'⟩ := h.ends
  unfold parseField
  rw [if_pos hmem, htake, hdrop]
  exact congrArg (fun v => some (f.1, v)) (trim_cons hfirst hlast hseen hseen')

theorem mapM_parseField {fields : List Field} (h : ∀ f ∈ fields, FieldOk f) :
    (fields.map fieldText).mapM parseField = some fields := by
  induction fields with
  | nil => rfl
  | cons f fields ih =>
    rw [List.map_cons, List.mapM_cons, parseField_fieldText (h f List.mem_cons_self),
      ih fun f' hf' => h f' (List.mem_cons_of_mem _ hf')]
    rfl

theorem isLine_fieldText {f : Field} (h : FieldOk f) : IsLine (fieldText f) := by
  intro c hc
  rcases List.mem_append.mp hc with hc | hc
  · rcases List.mem_append.mp hc with hc | hc
    · rcases h.name.2 c hc with halnum | rfl
      · exact Or.inl (visible_of_isAlphanum halnum)
      · exact Or.inl (by decide)
    · have hsep : IsLine ": ".toList := by decide
      exact hsep c hc
  · exact h.value c hc

theorem fieldText_ne_nil {f : Field} (h : FieldOk f) : fieldText f ≠ [] := by
  unfold fieldText
  rw [List.append_assoc]
  exact fun heq => h.name.1 (List.append_eq_nil_iff.mp heq).1

/-- The head of a request without the end of its first line. -/
def tail (fields : List Field) : Text :=
  "\r\n".toList ++ (fields.map fieldText).flatMap (· ++ "\r\n".toList) ++ "\r\n".toList

theorem not_mem_ascii {l : Text} (h : IsLine l) : (13 : UInt8) ∉ ascii l := by
  intro hmem
  obtain ⟨c, hc, heq⟩ := List.mem_map.mp hmem
  obtain ⟨hlow, hhigh⟩ := toNat_of_isLine h hc
  have hnat := congrArg UInt8.toNat heq
  rw [UInt8.toNat_ofNat'] at hnat
  change c.toNat % 2 ^ 8 = 13 at hnat
  omega

/-- The first empty line is not within a line that is not empty. -/
theorem headEnd_skip {l : Bytes} (h : 13 ∉ l) (rest : Bytes) :
    headEnd (l ++ rest) = (headEnd rest).map (· + l.length) := by
  induction l with
  | nil => simp
  | cons b l ih =>
    have hl : 13 ∉ l := fun hmem => h (List.mem_cons_of_mem b hmem)
    have hnot : ¬ [13, 10, 13, 10] <+: b :: (l ++ rest) := fun hpre =>
      h ((List.cons_prefix_cons.mp hpre).1 ▸ List.mem_cons_self)
    rw [List.cons_append, headEnd, if_neg hnot, ih hl, Option.map_map]
    rfl

theorem headEnd_tail {fields : List Field} (h : ∀ f ∈ fields, FieldOk f) :
    headEnd (ascii (tail fields)) = some (tail fields).length := by
  induction fields with
  | nil => decide
  | cons f fields ih =>
    have hf := h f List.mem_cons_self
    obtain ⟨c, l, hcons⟩ := List.exists_cons_of_ne_nil (fieldText_ne_nil hf)
    have hshape : tail (f :: fields) = "\r\n".toList ++ fieldText f ++ tail fields := by
      unfold tail
      rw [List.map_cons, List.flatMap_cons]
      simp only [List.append_assoc]
    have hfree : 13 ∉ 10 :: ascii (fieldText f) :=
      List.not_mem_cons_of_ne_of_not_mem (by decide) (not_mem_ascii (isLine_fieldText hf))
    have hbytes : ascii (tail (f :: fields)) =
        13 :: (10 :: ascii (fieldText f) ++ ascii (tail fields)) := by
      rw [hshape, ascii_append, ascii_append]
      rfl
    have hnot : ¬ [13, 10, 13, 10] <+: 13 :: (10 :: ascii (fieldText f) ++ ascii (tail fields)) := by
      intro hpre
      rw [hcons] at hpre hfree
      have hthird := (List.cons_prefix_cons.mp (List.cons_prefix_cons.mp
        (List.cons_prefix_cons.mp hpre).2).2).1
      exact hfree (List.mem_cons_of_mem _ (hthird ▸ List.mem_cons_self))
    have hlen : (tail (f :: fields)).length =
        (tail fields).length + (10 :: ascii (fieldText f)).length + 1 := by
      rw [hshape]
      simp only [List.length_append, List.length_cons, ascii, List.length_map]
      change 2 + _ + _ = _
      omega
    rw [hbytes, headEnd, if_neg hnot, headEnd_skip hfree,
      ih fun f' hf' => h f' (List.mem_cons_of_mem _ hf'), hlen]
    rfl

end Requests

section Grammar

variable {r : RequestText}

/-- The first line of a request. -/
def start (r : RequestText) : Text := words [r.method.name, r.target, "RTSP/1.0".toList]

def headText (r : RequestText) : Text := start r ++ tail r.fields

theorem bytes_eq (r : RequestText) : r.bytes = ascii (headText r) ++ r.body := by
  have hfields : r.fields.flatMap fieldLine =
      (r.fields.map fieldText).flatMap (· ++ "\r\n".toList) := by
    rw [List.flatMap_map]
    rfl
  have hline : r.line = start r ++ "\r\n".toList := by
    unfold RequestText.line start words
    rw [List.intercalate_cons_cons, List.intercalate_cons_cons, List.intercalate_singleton]
    simp only [List.append_assoc]
    rfl
  unfold RequestText.bytes headText tail
  rw [hfields, hline]
  simp only [List.append_assoc]

theorem isToken_name {m : Method} (h : ∀ name, m ≠ .other name) : IsToken m.name := by
  cases m with
  | other name => exact absurd rfl (h name)
  | _ => decide

theorem methodOf_name {m : Method} (h : ∀ name, m ≠ .other name) : methodOf m.name = m := by
  cases m with
  | other name => exact absurd rfl (h name)
  | _ => decide

theorem isToken_of_mem_start (h : r.WellFormed) :
    ∀ w ∈ [r.method.name, r.target, "RTSP/1.0".toList], IsToken w := by
  intro w hw
  simp only [List.mem_cons, List.not_mem_nil, or_false] at hw
  rcases hw with rfl | rfl | rfl
  · exact isToken_name h.method
  · exact h.target
  · decide

theorem isLine_start (h : r.WellFormed) : IsLine (start r) :=
  isLine_words fun w hw => (isToken_of_mem_start h w hw).2

theorem toNat_headText (h : r.WellFormed) : ∀ c ∈ headText r, c.toNat < 128 := by
  intro c hc
  rcases List.mem_append.mp hc with hc | hc
  · exact (toNat_of_isLine (isLine_start h) hc).2
  · rcases List.mem_append.mp hc with hc | hc
    · rcases List.mem_append.mp hc with hc | hc
      · exact toNat_lineEnd hc
      · obtain ⟨l, hl, hc⟩ := List.mem_flatMap.mp hc
        obtain ⟨f, hf, rfl⟩ := List.mem_map.mp hl
        rcases List.mem_append.mp hc with hc | hc
        · exact (toNat_of_isLine (isLine_fieldText (h.fields f hf)) hc).2
        · exact toNat_lineEnd hc
    · exact toNat_lineEnd hc

theorem headEnd_headText (h : r.WellFormed) :
    headEnd (ascii (headText r)) = some (ascii (headText r)).length := by
  have hline := isLine_start h
  unfold headText
  rw [ascii_append, headEnd_skip (not_mem_ascii hline), headEnd_tail h.fields, Option.map_some,
    List.length_append, ascii, ascii, List.length_map, List.length_map, Nat.add_comm]

theorem parseHead_headText (h : r.WellFormed) {u : Url} (hu : parseUrl r.target = some u) :
    parseHead (ascii (headText r)) = some ⟨r.method, some u, .v1, r.fields⟩ := by
  have hfields : ∀ l ∈ r.fields.map fieldText, IsLine l := by
    intro l hl
    obtain ⟨f, hf, rfl⟩ := List.mem_map.mp hl
    exact isLine_fieldText (h.fields f hf)
  have hlines : lines (headText r) = start r :: (r.fields.map fieldText ++ [[], []]) := by
    unfold headText tail
    rw [List.append_assoc "\r\n".toList, ← List.append_assoc,
      lines_cons (isLine_start h), lines_flatMap hfields]
    rfl
  have htake : (r.fields.map fieldText ++ [[], []]).takeWhile (· ≠ []) =
      r.fields.map fieldText := by
    have hall : ∀ l ∈ r.fields.map fieldText, decide (l ≠ []) = true := by
      intro l hl
      obtain ⟨f, hf, rfl⟩ := List.mem_map.mp hl
      exact decide_eq_true (fieldText_ne_nil (h.fields f hf))
    rw [List.takeWhile_append_of_pos hall]
    exact List.append_nil _
  have hwords : splitWhitespace (start r) = [r.method.name, r.target, "RTSP/1.0".toList] :=
    splitWhitespace_intercalate fun w hw => isWord_of_isToken (isToken_of_mem_start h w hw)
  have huri : uriOf r.target = some (some u) := by
    have hstar : r.target ≠ "*".toList := by
      intro heq
      have hnone : parseUrl "*".toList = none := by decide
      rw [heq, hnone] at hu
      cases hu
    unfold uriOf
    rw [if_neg hstar, hu]
    rfl
  have hversion : versionOf "RTSP/1.0".toList = some .v1 := by decide
  unfold parseHead
  rw [text_ascii (toNat_headText h), hlines]
  dsimp only
  rw [hwords]
  dsimp only
  rw [huri, hversion, htake, mapM_parseField h.fields, methodOf_name h.method]
  rfl

/-- The announced length is that of the body. -/
theorem contentLength_headText (h : r.WellFormed) {u : Url} (hu : parseUrl r.target = some u) :
    contentLength (ascii (headText r)) = r.body.length := by
  unfold contentLength
  rw [parseHead_headText h hu]
  change ((header r.fields "Content-Length".toList).bind parseDigits).getD 0 = _
  rw [h.length]
  unfold lengthField
  split
  · rename_i hempty
    rw [hempty]
    rfl
  · change (parseDigits (numeral r.body.length)).getD 0 = _
    rw [parseDigits_numeral]
    rfl

theorem head?_bytes (h : r.WellFormed) : r.bytes.head? ≠ some 36 := by
  have hname : ∀ c l, r.method.name = c :: l → UInt8.ofNat c.toNat ≠ 36 := by
    intro c l hname
    cases hm : r.method with
    | other name => exact absurd hm (h.method name)
    | _ =>
      rw [hm] at hname
      obtain rfl := (List.cons.inj hname).1
      decide
  obtain ⟨c, l, hcons⟩ := List.exists_cons_of_ne_nil (isToken_name h.method).1
  intro heq
  unfold RequestText.bytes RequestText.line at heq
  rw [hcons] at heq
  exact hname c l hcons (Option.some.inj heq)

/-- A request that follows the grammar is read as what it says. -/
theorem parse_bytes (h : r.WellFormed) {u : Url} (hu : parseUrl r.target = some u) :
    parse r.bytes = .message (.request ⟨r.method, some u, .v1, r.fields, r.body⟩) := by
  have htake : r.bytes.take (ascii (headText r)).length = ascii (headText r) := by
    rw [bytes_eq, List.take_left]
  have hhead : headEnd r.bytes = some (ascii (headText r)).length := by
    rw [bytes_eq]
    exact headEnd_append (headEnd_headText h) r.body
  have hsize := contentLength_headText h hu
  have hdrop : r.bytes.drop (ascii (headText r)).length = r.body := by
    rw [bytes_eq, List.drop_left]
  have hlen : r.bytes.length = (ascii (headText r)).length + r.body.length := by
    rw [bytes_eq, List.length_append]
  rw [parse_complete (head?_bytes h) hhead (by rw [htake, hsize, hlen]), htake,
    parseHead_headText h hu, hsize, hdrop, List.take_length]

theorem pairs_singleton {key value : Text} (hkey : ∀ c ∈ key, unreserved c = true) (hne : key ≠ [])
    (hvalue : ∀ c ∈ value, unreserved c = true) :
    pairs (key ++ "=".toList ++ value) = [(key, value)] := by
  have hother : ∀ c, unreserved c = true → c ≠ '&' ∧ c ≠ '=' := by
    intro c hc
    constructor <;> (rintro rfl; exact absurd hc (by decide))
  have hmem : ∀ c ∈ key ++ "=".toList ++ value, decide (c = '&') = false := by
    intro c hc
    refine decide_eq_false ?_
    rcases List.mem_append.mp hc with hc | hc
    · rcases List.mem_append.mp hc with hc | hc
      · exact (hother c (hkey c hc)).1
      · rw [List.mem_singleton.mp hc]
        decide
    · exact (hother c (hvalue c hc)).1
  have hstop : ∀ c ∈ key, decide (c ≠ '=') = true := fun c hc =>
    decide_eq_true (hother c (hkey c hc)).2
  have hshape : key ++ "=".toList ++ value = key ++ '=' :: value := by
    rw [List.append_assoc]
    rfl
  have hfull : (key ++ '=' :: value).isEmpty = false := by
    rw [List.isEmpty_eq_false_iff]
    exact fun heq => hne (List.append_eq_nil_iff.mp heq).1
  have htake : (key ++ '=' :: value).takeWhile (· ≠ '=') = key := by
    rw [List.takeWhile_append_of_pos hstop]
    exact List.append_nil key
  have hdrop : (key ++ '=' :: value).dropWhile (· ≠ '=') = '=' :: value := by
    rw [List.dropWhile_append_of_pos hstop]
    rfl
  unfold pairs
  rw [List.splitOnP_eq_singleton hmem, hshape, List.filter_cons_of_pos (by rw [hfull]; rfl),
    List.filter_nil, List.map_singleton, htake, hdrop]
  rfl

theorem parseUrl_query {key value : Text} (hkey : ∀ c ∈ key, unreserved c = true) (hne : key ≠ [])
    (hvalue : ∀ c ∈ value, unreserved c = true) :
    parseUrl ("rtsp://localhost?".toList ++ key ++ "=".toList ++ value) = some ⟨[(key, value)]⟩ := by
  have hshape : "rtsp://localhost?".toList ++ key ++ "=".toList ++ value =
      "rtsp://".toList ++ ("localhost?".toList ++ (key ++ "=".toList ++ value)) := by
    simp only [List.append_assoc]
    rfl
  have hdrop : ("rtsp://localhost?".toList ++ (key ++ "=".toList ++ value)).dropWhile (· ≠ '?') =
      '?' :: (key ++ "=".toList ++ value) := rfl
  unfold parseUrl
  rw [if_pos ⟨_, hshape.symm⟩]
  simp only [List.append_assoc] at hdrop ⊢
  rw [hdrop, List.drop_one, List.tail_cons, ← List.append_assoc, pairs_singleton hkey hne hvalue]

theorem grammar : rtspTypes.Grammar where
  parse _ _ h hu := parse_bytes h hu
  write _ fields body _ := ⟨fields ++ lengthField body, List.Perm.refl _, rfl⟩
  query _ _ hkey hne hvalue := parseUrl_query hkey hne hvalue
  root := ⟨⟨[]⟩, by decide⟩

end Grammar

section Descriptions

def attributeOf (l : Text) : Option (Text × Option Text) :=
  if "a=".toList <+: l then
    let a := l.drop 2
    some (a.takeWhile (· ≠ ':'), if ':' ∈ a then some ((a.dropWhile (· ≠ ':')).drop 1) else none)
  else none

/-- The attributes before the first medium. -/
def parseSdp (x : Bytes) : Option Session :=
  match lines (text x) with
  | [] => none
  | version :: rest =>
    if version = "v=0".toList then
      some ⟨(rest.takeWhile fun l => ¬ "m=".toList <+: l).filterMap attributeOf⟩
    else none

def sdpTypes : SdpTypes := ⟨parseSdp⟩

def attributeText (a : Text × Text) : Text := "a=".toList ++ a.1 ++ ":".toList ++ a.2

/-- The lines of a description after its version. -/
def sdpLines (d : SdpText) : List Text :=
  ["o=".toList ++ words d.origin, "s=".toList ++ d.name] ++ d.attributes.map attributeText ++
    ["t=".toList ++ words d.timing, "m=".toList ++ words d.media]

variable {d : SdpText}

theorem text_eq (d : SdpText) :
    d.text = ("v=0".toList :: sdpLines d).flatMap (· ++ "\r\n".toList) := by
  have hattributes : (d.attributes.map attributeText).flatMap (· ++ "\r\n".toList) =
      d.attributes.flatMap attributeLine := by
    rw [List.flatMap_map]
    rfl
  unfold sdpLines SdpText.text
  rw [List.flatMap_cons, List.flatMap_append, List.flatMap_append, hattributes]
  simp only [List.flatMap_cons, List.flatMap_nil, List.append_assoc, List.append_nil]
  rfl

theorem isLine_attributeText {a : Text × Text} (hname : IsToken a.1) (hvalue : IsToken a.2) :
    IsLine (attributeText a) := by
  have hkind : IsLine "a=".toList := by decide
  have hcolon : IsLine ":".toList := by decide
  exact isLine_append (isLine_append (isLine_append hkind (isLine_token hname)) hcolon)
    (isLine_token hvalue)

theorem isLine_sdpLines (h : d.WellFormed) : ∀ l ∈ sdpLines d, IsLine l := by
  obtain ⟨n, -, m, -, htiming⟩ := h.timing
  obtain ⟨kind, port, -, proto, fmt, hmedia, hkind, hproto, hfmt⟩ := h.media
  have hkey : IsLine "o=".toList ∧ IsLine "s=".toList ∧ IsLine "t=".toList ∧
      IsLine "m=".toList := by decide
  intro l hl
  unfold sdpLines at hl
  simp only [List.mem_append, List.mem_cons, List.not_mem_nil, or_false, List.mem_map] at hl
  rcases hl with ((rfl | rfl) | ⟨a, ha, rfl⟩) | rfl | rfl
  · exact isLine_append hkey.1 (isLine_words fun w hw => (h.origin.2 w hw).2)
  · exact isLine_append hkey.2.1 h.name.2
  · exact isLine_attributeText (h.attributes a ha).1 (h.attributes a ha).2.2
  · refine isLine_append hkey.2.2.1 (isLine_words fun w hw => ?_)
    simp only [htiming, List.mem_cons, List.not_mem_nil, or_false] at hw
    rcases hw with rfl | rfl
    · exact (isToken_numeral n).2
    · exact (isToken_numeral m).2
  · refine isLine_append hkey.2.2.2 (isLine_words fun w hw => ?_)
    simp only [hmedia, List.mem_cons, List.not_mem_nil, or_false] at hw
    rcases hw with rfl | rfl | rfl | rfl
    · exact hkind.2
    · exact (isToken_numeral port).2
    · exact hproto
    · exact hfmt

theorem attributeOf_attributeText {a : Text × Text} (hname : ':' ∉ a.1) :
    attributeOf (attributeText a) = some (a.1, some a.2) := by
  have hstop : ∀ c ∈ a.1, decide (c ≠ ':') = true := fun c hc =>
    decide_eq_true fun heq => hname (heq ▸ hc)
  have hshape : (attributeText a).drop 2 = a.1 ++ ':' :: a.2 := by
    unfold attributeText
    simp only [List.append_assoc]
    rfl
  have hkind : "a=".toList <+: attributeText a :=
    ⟨a.1 ++ (":".toList ++ a.2), by unfold attributeText; simp only [List.append_assoc]⟩
  have hmem : ':' ∈ a.1 ++ ':' :: a.2 := List.mem_append_right _ List.mem_cons_self
  have htake : (a.1 ++ ':' :: a.2).takeWhile (· ≠ ':') = a.1 := by
    rw [List.takeWhile_append_of_pos hstop]
    exact List.append_nil _
  have hdrop : (a.1 ++ ':' :: a.2).dropWhile (· ≠ ':') = ':' :: a.2 := by
    rw [List.dropWhile_append_of_pos hstop]
    rfl
  unfold attributeOf
  rw [if_pos hkind]
  dsimp only
  rw [hshape, if_pos hmem, htake, hdrop]
  rfl

theorem attributeOf_of_head {c : Char} (h : c ≠ 'a') (l : Text) : attributeOf (c :: l) = none :=
  if_neg fun hpre => h (List.cons_prefix_cons.mp hpre).1.symm

/-- A description that follows the grammar is read as its attributes. -/
theorem parseSdp_text (h : d.WellFormed) :
    parseSdp (ascii d.text) = some ⟨d.attributes.map fun a => (a.1, some a.2)⟩ := by
  have hall : ∀ l ∈ "v=0".toList :: sdpLines d, IsLine l := by
    intro l hl
    rcases List.mem_cons.mp hl with rfl | hl
    · decide
    · exact isLine_sdpLines h l hl
  have hascii : ∀ c ∈ d.text, c.toNat < 128 := by
    rw [text_eq]
    intro c hc
    obtain ⟨l, hl, hc⟩ := List.mem_flatMap.mp hc
    rcases List.mem_append.mp hc with hc | hc
    · exact (toNat_of_isLine (hall l hl) hc).2
    · exact toNat_lineEnd hc
  have hlines : lines d.text = "v=0".toList :: (sdpLines d ++ [[]]) := by
    have hsplit := lines_flatMap hall []
    rw [List.append_nil, ← text_eq] at hsplit
    exact hsplit
  have hattributes : (d.attributes.map attributeText).filterMap attributeOf =
      d.attributes.map fun a => (a.1, some a.2) := by
    rw [List.filterMap_map]
    exact List.filterMap_eq_map_iff_forall_eq_some.mpr fun a ha =>
      attributeOf_attributeText (h.attributes a ha).2.1
  have hbefore : (sdpLines d ++ [[]]).takeWhile (fun l => ¬ "m=".toList <+: l) =
      ["o=".toList ++ words d.origin, "s=".toList ++ d.name] ++ d.attributes.map attributeText ++
        ["t=".toList ++ words d.timing] := by
    have hother : ∀ l ∈ ["o=".toList ++ words d.origin, "s=".toList ++ d.name] ++
        d.attributes.map attributeText ++ ["t=".toList ++ words d.timing],
          decide (¬ "m=".toList <+: l) = true := by
      intro l hl
      refine decide_eq_true fun hpre => ?_
      simp only [List.mem_append, List.mem_cons, List.not_mem_nil, or_false, List.mem_map] at hl
      rcases hl with ((rfl | rfl) | ⟨a, -, rfl⟩) | rfl
      all_goals exact absurd (List.cons_prefix_cons.mp hpre).1 (by decide)
    have hsplit : sdpLines d ++ [[]] = (["o=".toList ++ words d.origin, "s=".toList ++ d.name] ++
        d.attributes.map attributeText ++ ["t=".toList ++ words d.timing]) ++
          ["m=".toList ++ words d.media, []] := by
      unfold sdpLines
      simp only [List.append_assoc]
      rfl
    have hstop : ("m=".toList ++ words d.media) :: [[]] = ["m=".toList ++ words d.media, []] := rfl
    rw [hsplit, List.takeWhile_append_of_pos hother, ← hstop, List.takeWhile_cons_of_neg,
      List.append_nil]
    exact fun hpre => of_decide_eq_true hpre ⟨_, rfl⟩
  have horigin : attributeOf ("o=".toList ++ words d.origin) = none :=
    attributeOf_of_head (by decide) ('=' :: words d.origin)
  have hname : attributeOf ("s=".toList ++ d.name) = none :=
    attributeOf_of_head (by decide) ('=' :: d.name)
  have htiming : attributeOf ("t=".toList ++ words d.timing) = none :=
    attributeOf_of_head (by decide) ('=' :: words d.timing)
  unfold parseSdp
  rw [text_ascii hascii, hlines]
  dsimp only
  rw [if_pos rfl, hbefore, List.filterMap_append, List.filterMap_append, hattributes,
    List.filterMap_cons_none htiming, List.filterMap_cons_none horigin,
    List.filterMap_cons_none hname]
  exact congrArg (fun l => some (Session.mk l)) (List.append_nil _)

theorem sdpGrammar : sdpTypes.Grammar where
  parse d h := by
    change parseSdp (ascii d.text) = _
    exact parseSdp_text h

end Descriptions

end KmControl.Readers
