import KmControl.HostRtsp
import KmControl.MoonRtsp
import KmControl.Readers

/-!
From the parameters of the client to the context of the host. What the client puts in the
place of the target is all that the host substitutes, so that each request is read as it
was meant, with its number and its body.
-/
namespace KmControl.RtspRoundTrip

open RtspMessage Sdp Decimal IpLiteral HostRtsp MoonRtsp Replace

section Clean

/-- ASCII in which the host substitutes nothing. -/
def CleanText (l : Text) : Prop :=
  l.all (fun c => decide (c.toNat < 128 ∧ c ≠ 'Y')) = true ∧ ¬ "streamid".toList <:+: l

instance (l : Text) : Decidable (CleanText l) :=
  inferInstanceAs (Decidable (_ = true ∧ ¬ "streamid".toList <:+: l))

variable {a b l : Text}

theorem CleanText.char (h : CleanText l) {c : Char} (hc : c ∈ l) : c.toNat < 128 ∧ c ≠ 'Y' :=
  of_decide_eq_true (List.all_eq_true.mp h.1 c hc)

theorem cleanText_of_not_mem {c : Char} (hc : c ∈ "streamid".toList) (hl : c ∉ l)
    (hall : ∀ d ∈ l, d.toNat < 128 ∧ d ≠ 'Y') : CleanText l :=
  ⟨List.all_eq_true.mpr fun d hd => decide_eq_true (hall d hd), free_of_not_mem hc hl⟩

theorem CleanText.all_append (ha : CleanText a) (hb : CleanText b) :
    (a ++ b).all (fun c => decide (c.toNat < 128 ∧ c ≠ 'Y')) = true := by
  rw [List.all_append, ha.1, hb.1]
  rfl

/-- A cut behind a character that is not in `streamid`. -/
theorem CleanText.append_last (x : Char) (ha : CleanText a) (hb : CleanText b)
    (hx : a.getLast? = some x) (hnot : x ∉ "streamid".toList) : CleanText (a ++ b) :=
  ⟨ha.all_append hb, free_append ha.2 hb.2 (not_straddles_of_last hx hnot)⟩

/-- A cut before such a character. -/
theorem CleanText.append_first {x : Char} (ha : CleanText a) (hb : CleanText (x :: b))
    (hnot : x ∉ "streamid".toList) : CleanText (a ++ x :: b) :=
  ⟨ha.all_append hb, free_append ha.2 hb.2 (not_straddles_of_first hnot)⟩

theorem cleanText_numeral (n : ℕ) : CleanText (numeral n) := by
  have hdigit : ∀ c ∈ numeral n, 48 ≤ c.toNat ∧ c.toNat ≤ 57 := fun c hc =>
    Char.isDigit_iff_toNat.mp (isDigit_numeral hc)
  have hs : 's' ∉ numeral n := fun hs => absurd (hdigit 's' hs) (by decide)
  refine cleanText_of_not_mem (by decide) hs fun d hd => ?_
  have hbounds := hdigit d hd
  refine ⟨by omega, ?_⟩
  rintro rfl
  exact absurd hbounds (by decide)

theorem cleanText_ip {v : IpVersion} (h : parseIpAddr l = some v) : CleanText l := by
  have hhex : ∀ c, IsIpChar c → c.toNat < 128 ∧ c ≠ 'Y' ∧ c ≠ 's' := by
    rintro c (hhex | rfl | rfl)
    · unfold isHexDigit at hhex
      have hcases : (48 ≤ c.toNat ∧ c.toNat ≤ 57) ∨ (97 ≤ c.toNat ∧ c.toNat ≤ 102) ∨
          (65 ≤ c.toNat ∧ c.toNat ≤ 70) := by
        rcases Bool.or_eq_true_iff.mp hhex with hhex | hupper
        · rcases Bool.or_eq_true_iff.mp hhex with hdigit | hlower
          · exact Or.inl (Char.isDigit_iff_toNat.mp hdigit)
          · exact Or.inr (Or.inl (of_decide_eq_true hlower))
        · exact Or.inr (Or.inr (of_decide_eq_true hupper))
      refine ⟨by omega, ?_, ?_⟩
      · rintro rfl
        exact absurd hcases (by decide)
      · rintro rfl
        exact absurd hcases (by decide)
    · decide
    · decide
  have hchars := (isIpChar_of_parseIpAddr h).2
  have hs : 's' ∉ l := fun hs => (hhex 's' (hchars 's' hs)).2.2 rfl
  exact cleanText_of_not_mem (by decide) hs fun d hd =>
    ⟨(hhex d (hchars d hd)).1, (hhex d (hchars d hd)).2.1⟩

/-- Lines that are clean each by itself. -/
theorem cleanText_flatMap {α : Type} {line : α → Text} {xs : List α}
    (h : ∀ x ∈ xs, CleanText (line x) ∧ (line x).getLast? = some (Char.ofNat 10))
    (hb : CleanText b) : CleanText (xs.flatMap line ++ b) := by
  induction xs with
  | nil => exact hb
  | cons x xs ih =>
    obtain ⟨hclean, hlast⟩ := h x List.mem_cons_self
    rw [List.flatMap_cons, List.append_assoc]
    exact hclean.append_last _ (ih fun y hy => h y (List.mem_cons_of_mem _ hy)) hlast (by decide)

end Clean

section Substitution

variable {before rest : Text}

theorem free_streamid {l : Text} (h : CleanText l) : ¬ streamid <:+: ascii l := by
  intro hinside
  have htext := hinside.map fun b : UInt8 => Char.ofNat b.toNat
  have hback : text (ascii l) = l := text_ascii fun c hc => (h.char hc).1
  exact h.2 (hback ▸ htext)

theorem not_mem_ascii_clean {l : Text} (h : CleanText l) : (89 : UInt8) ∉ ascii l := by
  intro hmem
  obtain ⟨c, hc, heq⟩ := List.mem_map.mp hmem
  obtain ⟨hlow, hne⟩ := h.char hc
  have hnat := congrArg UInt8.toNat heq
  rw [UInt8.toNat_ofNat'] at hnat
  change c.toNat % 2 ^ 8 = 89 at hnat
  have hc : c.toNat = 89 := by omega
  exact hne (Char.toNat_inj.mp hc)

/-- The target of the client becomes a URL, and nothing else changes. -/
theorem fixed_target (hbefore : CleanText before) (hrest : CleanText rest) :
    fixed (ascii (before ++ "streamid".toList ++ rest)) =
      ascii (before ++ "rtsp://localhost?streamid".toList ++ rest) := by
  have hsplit : ascii (before ++ "streamid".toList ++ rest) =
      ascii before ++ (streamid ++ ascii rest) := by
    rw [ascii_append, ascii_append, List.append_assoc]
    rfl
  have hfree : ¬ playSlash <:+: ascii before ++ (ascii "rtsp://localhost?streamid".toList ++
      ascii rest) := by
    refine free_of_not_mem (x := 89) (by decide) fun hmem => ?_
    rcases List.mem_append.mp hmem with hmem | hmem
    · exact not_mem_ascii_clean hbefore hmem
    · rcases List.mem_append.mp hmem with hmem | hmem
      · exact absurd hmem (by decide)
      · exact not_mem_ascii_clean hrest hmem
  unfold fixed
  rw [hsplit, replaceAll_append_pat unbordered_streamid streamid_ne_nil,
    replaceAll_of_free (free_streamid hbefore), replaceAll_of_free (free_streamid hrest),
    replaceAll_of_free hfree, ascii_append, ascii_append, List.append_assoc]

theorem fixed_play (hrest : CleanText rest) :
    fixed (ascii ("PLAY /".toList ++ rest)) = ascii ("PLAY rtsp://localhost/".toList ++ rest) := by
  have hfree : ¬ streamid <:+: playSlash ++ ascii rest :=
    free_append (by decide) (free_streamid hrest)
      (not_straddles_of_last (x := 47) (by decide) (by decide))
  have hno : ¬ playSlash <:+: ascii rest :=
    free_of_not_mem (x := 89) (by decide) (not_mem_ascii_clean hrest)
  unfold fixed
  rw [ascii_append, ascii_append]
  change replaceAll playSlash _ (replaceAll streamid _ (playSlash ++ ascii rest)) = _
  rw [replaceAll_of_free hfree, replaceAll_pat_append playSlash_ne_nil, replaceAll_of_free hno]

end Substitution

section Fields

/-- A client that knows its host by an address, before its number leaves the signed words. -/
structure Ready (client : RtspClient) : Prop where
  host : ∃ v, parseIpAddr client.hostIp = some v
  cseq : client.cseq.toNat < 2 ^ 31
  session : client.sessionId = none ∨ client.sessionId = some "KmcSession".toList

/-- The name of a field that the host leaves as it is. -/
def PlainName (name : Text) : Prop :=
  name ≠ [] ∧ name.all (fun c => c.isAlphanum || decide (c = '-')) = true ∧
    CleanText (name ++ ": ".toList)

instance (name : Text) : Decidable (PlainName name) :=
  inferInstanceAs (Decidable (name ≠ [] ∧ _ = true ∧ CleanText _))

structure PlainField (f : Field) : Prop where
  name : PlainName f.1
  value : IsToken f.2
  clean : CleanText f.2

variable {f : Field}

theorem PlainField.fieldOk (h : PlainField f) : FieldOk f where
  name := by
    refine ⟨h.name.1, fun c hc => ?_⟩
    rcases Bool.or_eq_true_iff.mp (List.all_eq_true.mp h.name.2.1 c hc) with halnum | hhyphen
    · exact Or.inl halnum
    · exact Or.inr (of_decide_eq_true hhyphen)
  value c hc := Or.inl (h.value.2 c hc)
  ends := by
    obtain ⟨c, l, hcons⟩ := List.exists_cons_of_ne_nil h.value.1
    refine ⟨⟨c, by rw [hcons]; rfl, h.value.2 c (hcons ▸ List.mem_cons_self)⟩, ?_⟩
    exact ⟨_, List.getLast?_eq_some_getLast h.value.1, h.value.2 _ (List.getLast_mem _)⟩

theorem PlainField.cleanText_fieldLine (h : PlainField f) :
    CleanText (fieldLine f) ∧ (fieldLine f).getLast? = some (Char.ofNat 10) := by
  have hend : CleanText "\r\n".toList := by decide
  have hname : (f.1 ++ ": ".toList).getLast? = some ' ' := by
    rw [List.getLast?_append]
    rfl
  refine ⟨?_, ?_⟩
  · unfold fieldLine
    rw [List.append_assoc]
    exact h.name.2.2.append_last _ (h.clean.append_first hend (by decide)) hname (by decide)
  · unfold fieldLine
    rw [List.getLast?_append]
    rfl

theorem isToken_ip {l : Text} {v : IpVersion} (h : parseIpAddr l = some v) : IsToken l := by
  obtain ⟨hne, hchars⟩ := isIpChar_of_parseIpAddr h
  refine ⟨hne, fun c hc => ?_⟩
  rcases hchars c hc with hhex | rfl | rfl
  · refine decide_eq_true ?_
    rcases Bool.or_eq_true_iff.mp hhex with hhex | hupper
    · rcases Bool.or_eq_true_iff.mp hhex with hdigit | hlower
      · have hbounds : 48 ≤ c.toNat ∧ c.toNat ≤ 57 := Char.isDigit_iff_toNat.mp hdigit
        omega
      · have hbounds := of_decide_eq_true hlower
        omega
    · have hbounds := of_decide_eq_true hupper
      omega
  · decide
  · decide

theorem plainField_numeral {name : Text} (h : PlainName name) (n : ℕ) :
    PlainField (name, numeral n) :=
  ⟨h, isToken_numeral n, cleanText_numeral n⟩

end Fields

section Description

variable {hostIp : Text} {cfg : StreamCfg} {videoPort : UInt16} {encEnabled : UInt32}

theorem value_of_mem {a : Text × Text} (h : a ∈ attributes cfg encEnabled) :
    ∃ n, a.2 = numeral n := by
  unfold attributes at h
  simp only [List.mem_cons, List.not_mem_nil, or_false] at h
  rcases h with rfl | rfl | rfl | rfl | rfl | rfl | rfl | rfl | rfl | rfl | rfl | rfl | rfl | rfl |
    rfl
  case inr.inr.inr.inr.inr.inr.inl => exact ⟨4, by decide⟩
  case inr.inr.inr.inr.inr.inr.inr.inl => exact ⟨7000, by decide⟩
  case inr.inr.inr.inr.inr.inr.inr.inr.inl => exact ⟨0, by decide⟩
  all_goals exact ⟨_, rfl⟩

/-- The names of the attributes. -/
def attributeNames : List Text := (attributes ⟨0, 0, 0, 0, 0, 0⟩ 0).map Prod.fst

theorem map_fst_attributes : (attributes cfg encEnabled).map Prod.fst = attributeNames := by
  unfold attributeNames attributes
  simp only [List.map_cons, List.map_nil]

theorem name_of_mem {a : Text × Text} (h : a ∈ attributes cfg encEnabled) :
    a.1 ∈ attributeNames := by
  have hmem : a.1 ∈ (attributes cfg encEnabled).map Prod.fst := List.mem_map_of_mem h
  rwa [map_fst_attributes] at hmem

/-- A name without a colon that the host leaves as it is. -/
def PlainAttribute (name : Text) : Prop :=
  IsToken name ∧ ':' ∉ name ∧ CleanText ("a=".toList ++ name ++ ":".toList)

instance (name : Text) : Decidable (PlainAttribute name) :=
  inferInstanceAs (Decidable (IsToken name ∧ ':' ∉ name ∧ CleanText _))

theorem plainAttribute_of_mem {a : Text × Text} (h : a ∈ attributes cfg encEnabled) :
    PlainAttribute a.1 := by
  have hall : attributeNames.all (fun name => decide (PlainAttribute name)) = true := by
    decide +kernel
  exact of_decide_eq_true (List.all_eq_true.mp hall a.1 (name_of_mem h))

theorem cleanText_addrtype (hostIp : Text) :
    CleanText ("o=android 0 ".toList ++ numeral rtspClientVersion ++ " IN ".toList ++
      addrtype hostIp ++ " ".toList) ∧ IsToken (addrtype hostIp) := by
  unfold addrtype
  split
  · decide
  · decide

theorem cleanText_attributeLine {a : Text × Text} (h : a ∈ attributes cfg encEnabled) :
    CleanText (attributeLine a) ∧ (attributeLine a).getLast? = some (Char.ofNat 10) := by
  obtain ⟨n, hn⟩ := value_of_mem h
  have hend : CleanText "\r\n".toList := by decide
  have hname : ("a=".toList ++ a.1 ++ ":".toList).getLast? = some ':' := by
    rw [List.getLast?_append]
    rfl
  have hvalue : CleanText (a.2 ++ "\r\n".toList) := by
    rw [hn]
    exact (cleanText_numeral n).append_first hend (by decide)
  refine ⟨?_, ?_⟩
  · unfold attributeLine
    rw [List.append_assoc]
    exact (plainAttribute_of_mem h).2.2.append_last _ hvalue hname (by decide)
  · unfold attributeLine
    rw [List.getLast?_append]
    rfl

theorem cleanText_sdpBody {v : IpVersion} (hip : parseIpAddr hostIp = some v) :
    CleanText (sdpBody hostIp cfg videoPort encEnabled) := by
  have hversion : CleanText "v=0\r\n".toList := by decide
  have hname : CleanText "s=NVIDIA Streaming Client\r\n".toList := by decide
  have htiming : CleanText "t=0 0\r\n".toList := by decide
  have hmedia : CleanText "m=video ".toList := by decide
  have hend : CleanText "\r\n".toList := by decide
  have hblanks : CleanText "  \r\n".toList := by decide
  have horigin := (cleanText_addrtype hostIp).1.append_last ' '
    ((cleanText_ip hip).append_first hend (by decide)) (by rw [List.getLast?_append]; rfl) (by decide)
  have hport := hmedia.append_last ' '
    ((cleanText_numeral videoPort.toNat).append_first hblanks (by decide)) (by decide) (by decide)
  have hattributes := cleanText_flatMap (fun a (ha : a ∈ attributes cfg encEnabled) =>
    cleanText_attributeLine ha) (htiming.append_last (Char.ofNat 10) hport (by decide) (by decide))
  have hnamed := hname.append_last (Char.ofNat 10) hattributes (by decide) (by decide)
  have hfrom := horigin.append_last (Char.ofNat 10) hnamed
    (by rw [← List.append_assoc, List.getLast?_append]; rfl) (by decide)
  have hbody := hversion.append_last (Char.ofNat 10) hfrom (by decide) (by decide)
  unfold sdpBody
  simp only [List.append_assoc] at hbody ⊢
  exact hbody

/-- The body of an ANNOUNCE as the grammar has it. -/
def description (hostIp : Text) (cfg : StreamCfg) (videoPort : UInt16) (encEnabled : UInt32) :
    SdpText where
  origin := ["android".toList, numeral 0, numeral rtspClientVersion, "IN".toList,
    addrtype hostIp, hostIp]
  name := "NVIDIA Streaming Client".toList
  attributes := attributes cfg encEnabled
  timing := [numeral 0, numeral 0]
  media := ["video".toList, numeral videoPort.toNat, [], []]

theorem text_description : (description hostIp cfg videoPort encEnabled).text =
    sdpBody hostIp cfg videoPort encEnabled := by
  unfold SdpText.text description sdpBody words
  simp only [List.intercalate_cons_cons, List.intercalate_singleton, List.append_assoc]
  rfl

theorem wellFormed_description {v : IpVersion} (hip : parseIpAddr hostIp = some v) :
    (description hostIp cfg videoPort encEnabled).WellFormed where
  origin := by
    refine ⟨rfl, fun w hw => ?_⟩
    simp only [description, List.mem_cons, List.not_mem_nil, or_false] at hw
    rcases hw with rfl | rfl | rfl | rfl | rfl | rfl
    · decide
    · decide
    · decide
    · decide
    · exact (cleanText_addrtype hostIp).2
    · exact isToken_ip hip
  ids := by
    intro w hw
    change w ∈ [numeral 0, numeral rtspClientVersion] at hw
    simp only [List.mem_cons, List.not_mem_nil, or_false] at hw
    rcases hw with rfl | rfl
    · exact ⟨0, by decide, rfl⟩
    · exact ⟨rtspClientVersion, by decide, rfl⟩
  name := by
    have hname : "NVIDIA Streaming Client".toList ≠ [] ∧ IsLine "NVIDIA Streaming Client".toList := by
      decide
    exact hname
  attributes := by
    intro a ha
    obtain ⟨n, hn⟩ := value_of_mem ha
    have hname := plainAttribute_of_mem ha
    exact ⟨hname.1, hname.2.1, hn ▸ isToken_numeral n⟩
  timing := ⟨0, by decide, 0, by decide, rfl⟩
  media := ⟨"video".toList, videoPort.toNat, videoPort.toNat_lt, [], [], rfl, by decide,
    fun c hc => absurd hc List.not_mem_nil, fun c hc => absurd hc List.not_mem_nil⟩

/-- What the host reads in the description of the client. -/
theorem sdpAttr_description (attr : Negotiation.Attribute) :
    sdpAttr ⟨(attributes cfg encEnabled).map fun a => (a.1, some a.2)⟩ (attributeName attr) =
      some (match attr with
        | .clientViewportWd => cfg.width
        | .clientViewportHt => cfg.height
        | .maxFPS => cfg.fps
        | .packetSize => cfg.packetSize
        | .configuredBitrateKbps => cfg.bitrateKbps
        | .bitStreamFormat => cfg.videoFormat) := by
  have hnodup : attributeNames.Nodup := by decide +kernel
  have hnames : ((attributes cfg encEnabled).map fun a => (a.1, some a.2)).map Prod.fst =
      attributeNames := by
    rw [List.map_map, ← map_fst_attributes]
    rfl
  refine sdpAttr_of_mem (by rw [hnames]; exact hnodup) (List.mem_map.mpr ?_)
  cases attr with
  | clientViewportWd => exact ⟨_, List.mem_of_getElem? (i := 0) rfl, rfl⟩
  | clientViewportHt => exact ⟨_, List.mem_of_getElem? (i := 1) rfl, rfl⟩
  | maxFPS => exact ⟨_, List.mem_of_getElem? (i := 2) rfl, rfl⟩
  | packetSize => exact ⟨_, List.mem_of_getElem? (i := 3) rfl, rfl⟩
  | configuredBitrateKbps => exact ⟨_, List.mem_of_getElem? (i := 4) rfl, rfl⟩
  | bitStreamFormat => exact ⟨_, List.mem_of_getElem? (i := 5) rfl, rfl⟩

/-- The context that an ANNOUNCE leaves. -/
theorem context_announce {sdpLib : SdpTypes} (hsdp : sdpLib.Grammar) {v : IpVersion}
    (hip : parseIpAddr hostIp = some v) (srv : RtspServer) {req : Request}
    (hbody : req.body = ascii (sdpBody hostIp cfg videoPort encEnabled)) (cseq : ℤ) :
    (announce sdpLib srv req cseq).2.context = some ⟨cfg.width, cfg.height, cfg.fps,
      cfg.packetSize, UInt32.ofNat (min (1000 * cfg.bitrateKbps.toNat) (2 ^ 32 - 1)),
      cfg.videoFormat⟩ := by
  have hparse := hsdp.parse (description hostIp cfg videoPort encEnabled)
    (wellFormed_description hip)
  rw [text_description] at hparse
  unfold announce
  rw [hbody, hparse]
  dsimp only [Option.map_some, Negotiation.announce]
  unfold Negotiation.negotiate Negotiation.saturatingMul
  change some _ = some _
  simp only [description, sdpAttr_description, Option.getD_some]
  rw [Nat.mul_comm]
  rfl

end Description

section Asks

/-- What the client asks of the host. -/
inductive Ask where
  | setup (stream : Stream)
  | announce (cfg : StreamCfg) (videoPort : UInt16) (encEnabled : UInt32)
  | play

namespace Ask

def method : Ask → Method
  | .setup _ => .setup
  | .announce _ _ _ => .announce
  | .play => .play

def target : Ask → Text
  | .setup stream => stream.streamid
  | .announce _ _ _ => controlStreamId
  | .play => playTarget

def extra : Ask → List Field
  | .announce _ _ _ => [("Content-Type".toList, "application/sdp".toList)]
  | _ => []

def body (hostIp : Text) : Ask → Text
  | .announce cfg videoPort encEnabled => sdpBody hostIp cfg videoPort encEnabled
  | _ => []

/-- The target after the substitutions. -/
def url : Ask → Text
  | .setup stream => "rtsp://localhost?".toList ++ stream.streamid
  | .announce _ _ _ => "rtsp://localhost?".toList ++ controlStreamId
  | .play => "rtsp://localhost/".toList

/-- The bytes that the client sends. -/
def wire (ask : Ask) (lib : RtspTypes) (client : RtspClient) : Option Bytes :=
  (client.encode lib ask.method ask.target ask.extra (ascii (ask.body client.hostIp))).1

variable {client : RtspClient} {ask : Ask}

theorem method_ne_other (ask : Ask) : ∀ name, ask.method ≠ .other name := by
  intro name
  cases ask <;> exact fun heq => by cases heq

/-- The fields of a request and the one that announces the length of its body. -/
theorem plainFields (h : Ready client) (ask : Ask) (body : Bytes) :
    ∀ f ∈ client.fields ask.extra ++ lengthField body, PlainField f := by
  have hextra : ∀ f ∈ ask.extra, PlainField f := by
    intro f hf
    cases ask with
    | announce cfg videoPort encEnabled =>
      rw [List.mem_singleton.mp hf]
      exact ⟨by decide, by decide, by decide⟩
    | _ => exact absurd hf List.not_mem_nil
  have hsession : ∀ f ∈ client.sessionFields, PlainField f := by
    intro f hf
    unfold RtspClient.sessionFields at hf
    rcases h.session with hs | hs
    · rw [hs] at hf
      exact absurd hf List.not_mem_nil
    · rw [hs] at hf
      rw [List.mem_singleton.mp hf]
      exact ⟨by decide, by decide, by decide⟩
  have hlength : ∀ f ∈ lengthField body, PlainField f := by
    intro f hf
    unfold lengthField at hf
    split at hf
    · exact absurd hf List.not_mem_nil
    · rw [List.mem_singleton.mp hf]
      exact plainField_numeral (by decide) _
  obtain ⟨v, hv⟩ := h.host
  intro f hf
  unfold RtspClient.fields at hf
  simp only [List.mem_append, List.mem_cons, List.not_mem_nil, or_false] at hf
  rcases hf with (((rfl | rfl | rfl) | hf) | hf) | hf
  · exact plainField_numeral (by decide) _
  · exact plainField_numeral (by decide) _
  · have hname : PlainName "Host".toList := by decide
    exact ⟨hname, isToken_ip hv, cleanText_ip hv⟩
  · exact hsession f hf
  · exact hextra f hf
  · exact hlength f hf

def fieldNames : List Text :=
  ["CSeq".toList, "X-GS-ClientVersion".toList, "Host".toList] ++ ["Session".toList] ++
    ["Content-Type".toList] ++ ["Content-Length".toList]

theorem names_nodup (client : RtspClient) (ask : Ask) (body : Bytes) :
    ((client.fields ask.extra ++ lengthField body).map fun f => lower f.1).Nodup := by
  have hall : (fieldNames.map lower).Nodup := by decide
  have hsession : (client.sessionFields.map Prod.fst).Sublist ["Session".toList] := by
    unfold RtspClient.sessionFields
    split
    · exact List.nil_sublist _
    · exact List.Sublist.refl _
  have hextra : (ask.extra.map Prod.fst).Sublist ["Content-Type".toList] := by
    cases ask with
    | announce cfg videoPort encEnabled => exact List.Sublist.refl _
    | _ => exact List.nil_sublist _
  have hlength : ((lengthField body).map Prod.fst).Sublist ["Content-Length".toList] := by
    unfold lengthField
    split
    · exact List.nil_sublist _
    · exact List.Sublist.refl _
  have hnames : ((client.fields ask.extra ++ lengthField body).map Prod.fst).Sublist fieldNames := by
    unfold RtspClient.fields
    rw [List.map_append, List.map_append, List.map_append]
    exact (((List.Sublist.refl _).append hsession).append hextra).append hlength
  have hlower := hnames.map lower
  rw [List.map_map] at hlower
  exact hall.sublist hlower

/-- What follows the target of a request. -/
def afterTarget (fields : List Field) (b : Text) : Text :=
  ' ' :: ("RTSP/1.0\r\n".toList ++ (fields.flatMap fieldLine ++ ("\r\n".toList ++ b)))

theorem bytes_eq_ascii (m : Method) (t : Text) (fields : List Field) (b : Text) :
    RequestText.bytes ⟨m, t, fields, ascii b⟩ =
      ascii (m.name ++ " ".toList ++ t ++ afterTarget fields b) := by
  have hshape : m.name ++ " ".toList ++ t ++ afterTarget fields b =
      (m.name ++ " ".toList ++ t ++ " RTSP/1.0\r\n".toList ++ fields.flatMap fieldLine ++
        "\r\n".toList) ++ b := by
    unfold afterTarget
    simp only [List.append_assoc]
    rfl
  rw [hshape, ascii_append _ b]
  rfl

theorem cleanText_afterTarget {fields : List Field} {b : Text} (h : ∀ f ∈ fields, PlainField f)
    (hb : CleanText b) : CleanText (afterTarget fields b) := by
  have hversion : CleanText " RTSP/1.0\r\n".toList := by decide
  have hend : CleanText "\r\n".toList := by decide
  have hfields := cleanText_flatMap (fun f hf => (h f hf).cleanText_fieldLine)
    (hend.append_last (Char.ofNat 10) hb (by decide) (by decide))
  exact hversion.append_last (Char.ofNat 10) hfields (by decide) (by decide)

theorem cleanText_body (h : Ready client) (ask : Ask) : CleanText (ask.body client.hostIp) := by
  obtain ⟨v, hv⟩ := h.host
  cases ask with
  | announce cfg videoPort encEnabled => exact cleanText_sdpBody hv
  | setup stream =>
    have hnil : CleanText [] := by decide
    exact hnil
  | play =>
    have hnil : CleanText [] := by decide
    exact hnil

/-- In a request of the client the host substitutes the target alone. -/
theorem fixed_request (ask : Ask) {fields : List Field} {b : Text}
    (h : CleanText (afterTarget fields b)) :
    fixed (ascii (ask.method.name ++ " ".toList ++ ask.target ++ afterTarget fields b)) =
      ascii (ask.method.name ++ " ".toList ++ ask.url ++ afterTarget fields b) := by
  have hstream : ∀ value : Text, ask.target = "streamid".toList ++ value →
      ask.url = "rtsp://localhost?streamid".toList ++ value →
        CleanText (ask.method.name ++ " ".toList) → CleanText value →
          fixed (ascii (ask.method.name ++ " ".toList ++ ask.target ++ afterTarget fields b)) =
            ascii (ask.method.name ++ " ".toList ++ ask.url ++ afterTarget fields b) := by
    intro value htarget hurl hname hvalue
    have hrest : CleanText (value ++ afterTarget fields b) := hvalue.append_first h (by decide)
    have hfixed := fixed_target hname hrest
    rw [htarget, hurl]
    simp only [List.append_assoc] at hfixed ⊢
    exact hfixed
  have hcontrol : controlStreamId = "streamid".toList ++ "=control/13/0".toList ∧
      "rtsp://localhost?".toList ++ controlStreamId =
        "rtsp://localhost?streamid".toList ++ "=control/13/0".toList := by decide
  cases ask with
  | setup stream =>
    have hname : CleanText ("SETUP".toList ++ " ".toList) := by decide
    cases stream with
    | video => exact hstream "=video/0/0".toList (by decide) (by decide) hname (by decide)
    | audio => exact hstream "=audio/0/0".toList (by decide) (by decide) hname (by decide)
    | control => exact hstream "=control/13/0".toList hcontrol.1 hcontrol.2 hname (by decide)
  | announce cfg videoPort encEnabled =>
    have hname : CleanText ("ANNOUNCE".toList ++ " ".toList) := by decide
    exact hstream "=control/13/0".toList hcontrol.1 hcontrol.2 hname (by decide)
  | play =>
    have hfixed := fixed_play h
    change fixed (ascii ("PLAY".toList ++ " ".toList ++ "/".toList ++ afterTarget fields b)) =
      ascii ("PLAY".toList ++ " ".toList ++ "rtsp://localhost/".toList ++ afterTarget fields b)
    simp only [List.append_assoc] at hfixed ⊢
    exact hfixed

theorem wellFormed_request (h : Ready client) (ask : Ask) {written : List Field} {body : Bytes}
    (hperm : written.Perm (client.fields ask.extra ++ lengthField body)) :
    (RequestText.mk ask.method ask.url written body).WellFormed := by
  have hnodup : (written.map fun f => lower f.1).Nodup :=
    (hperm.map _).nodup_iff.mpr (names_nodup client ask body)
  refine ⟨method_ne_other ask, ?_, fun f hf => (plainFields h ask body f (hperm.mem_iff.mp hf)).fieldOk,
    hnodup, ?_⟩
  · have htoken : IsToken ask.url := by
      cases ask with
      | setup stream => cases stream <;> decide
      | announce cfg videoPort encEnabled =>
        have hurl : IsToken ("rtsp://localhost?".toList ++ controlStreamId) := by decide
        exact hurl
      | play => decide
    exact htoken
  · by_cases hempty : body = []
    · have hlength : lengthField body = [] := if_pos hempty
      have hother := names_nodup client ask [0]
      rw [List.map_append] at hother
      rw [hlength, List.append_nil] at hperm
      rw [hlength]
      exact header_eq_none fun f hf heq => (List.nodup_append.mp hother).2.2 _
        (List.mem_map_of_mem (hperm.mem_iff.mp hf)) _ (List.mem_singleton_self _) heq
    · have hlength : lengthField body = [("Content-Length".toList, numeral body.length)] :=
        if_neg hempty
      rw [hlength] at hperm ⊢
      exact header_of_mem hnodup
        (hperm.mem_iff.mpr (List.mem_append_right _ (List.mem_singleton_self _)))

/-- A request of the client reaches the host as it was meant. -/
theorem receive_wire {lib : RtspTypes} (hlib : lib.Grammar) (h : Ready client) (ask : Ask) {u : Url}
    (hu : lib.parseUrl ask.url = some u) :
    ∃ wire fields, ask.wire lib client = some wire ∧
      receive lib [] [wire] = .message (.request
        ⟨ask.method, some u, .v1, fields, ascii (ask.body client.hostIp)⟩) ∧
      header fields "CSeq".toList = some (numeral client.cseq.toNat) := by
  let body := ask.body client.hostIp
  obtain ⟨written, hperm, hwire⟩ := encode_eq hlib client (method_ne_other ask) ask.target
    (names_nodup client ask (ascii body))
  have hclean : CleanText (afterTarget written body) :=
    cleanText_afterTarget (fun f hf => plainFields h ask (ascii body) f (hperm.mem_iff.mp hf))
      (cleanText_body h ask)
  have hwell := wellFormed_request h ask hperm
  rw [bytes_eq_ascii] at hwire
  refine ⟨_, written, hwire, ?_, ?_⟩
  · have hfirst : (ask.method.name ++ " ".toList ++ ask.target).all
        (fun c => decide (c.toNat < 128)) = true := by
      cases ask with
      | setup stream => cases stream <;> decide
      | announce cfg videoPort encEnabled =>
        have hline : ("ANNOUNCE".toList ++ " ".toList ++ controlStreamId).all
          (fun c => decide (c.toNat < 128)) = true := by decide
        exact hline
      | play => decide
    have hascii : ∀ c ∈ ask.method.name ++ " ".toList ++ ask.target ++ afterTarget written body,
        c.toNat < 128 := by
      intro c hc
      rcases List.mem_append.mp hc with hc | hc
      · exact of_decide_eq_true (List.all_eq_true.mp hfirst c hc)
      · exact (hclean.char hc).1
    have hne : ascii (ask.method.name ++ " ".toList ++ ask.target ++ afterTarget written body) ≠
        [] := by
      intro heq
      rw [ascii_append] at heq
      exact List.cons_ne_nil _ _ (List.append_eq_nil_iff.mp heq).2
    have hparse := hlib.parse _ u hwell hu
    rw [bytes_eq_ascii, ← fixed_request ask hclean] at hparse
    unfold receive
    rw [if_neg hne, fromUtf8_ascii hascii]
    dsimp only
    rw [List.nil_append, hparse]
  · have hmem : ("CSeq".toList, numeral client.cseq.toNat) ∈ written :=
      hperm.mem_iff.mpr (List.mem_append_left _ (List.mem_append_left _
        (List.mem_append_left _ List.mem_cons_self)))
    exact header_of_mem hwell.names hmem

end Ask

end Asks

section Negotiation

variable {lib : RtspTypes} {sdpLib : SdpTypes} {client : RtspClient} {srv : RtspServer}

/-- The bytes of a request, read at once, give a request with its method, number and body. -/
structure Arrives (lib : RtspTypes) (client : RtspClient) (ask : Ask) (wire : Bytes)
    (req : Request) : Prop where
  sent : ask.wire lib client = some wire
  received : receive lib [] [wire] = .message (.request req)
  method : req.method = ask.method
  cseq : cseqOf req = client.cseq.toNat
  body : req.body = ascii (ask.body client.hostIp)

/-- The port of a stream on the host. -/
def portOf (ports : StreamPorts) : Stream → UInt16
  | .video => ports.video
  | .audio => ports.audio
  | .control => ports.control

/-- Every request arrives, SETUP gives the port of its stream, and ANNOUNCE leaves the
parameters of the client. -/
structure RoundTrips (lib : RtspTypes) (sdpLib : SdpTypes) (client : RtspClient)
    (srv : RtspServer) : Prop where
  setup : ∀ stream, ∃ wire req, Arrives lib client (.setup stream) wire req ∧
    srv.ports.port (streamOf req.uri) = some (portOf srv.ports stream) ∧
    (header (respond sdpLib srv (.request req)).1.fields "Transport".toList).bind parseServerPort =
      some (portOf srv.ports stream)
  announce : ∀ cfg videoPort encEnabled, ∃ wire req,
    Arrives lib client (.announce cfg videoPort encEnabled) wire req ∧
    (respond sdpLib srv (.request req)).2.context = some ⟨cfg.width, cfg.height, cfg.fps,
      cfg.packetSize, UInt32.ofNat (min (1000 * cfg.bitrateKbps.toNat) (2 ^ 32 - 1)),
      cfg.videoFormat⟩
  play : ∃ wire req, Arrives lib client .play wire req

theorem cseqOf_numeral {req : Request} {n : ℕ}
    (h : header req.fields "CSeq".toList = some (numeral n)) (hn : n < 2 ^ 31) :
    cseqOf req = n := by
  have hsigned : signed (n : ℤ) = numeral n := by
    unfold signed
    rw [if_neg (by omega), Int.natAbs_natCast]
  unfold cseqOf
  rw [h, Option.bind_some, ← hsigned, parse_signed (by omega) (by omega)]
  rfl

theorem arrives (hlib : lib.Grammar) (h : Ready client) (ask : Ask) {u : Url}
    (hu : lib.parseUrl ask.url = some u) :
    ∃ wire req, Arrives lib client ask wire req ∧ req.uri = some u := by
  obtain ⟨wire, fields, hwire, hreceive, hcseq⟩ := Ask.receive_wire hlib h ask hu
  exact ⟨wire, _, ⟨hwire, hreceive, rfl, cseqOf_numeral hcseq h.cseq, rfl⟩, rfl⟩

/-- The URL that the host parses in the place of a stream's target. -/
theorem parseUrl_streamid (hlib : lib.Grammar) {value : Text}
    (hvalue : value.all unreserved = true) :
    lib.parseUrl ("rtsp://localhost?".toList ++ ("streamid=".toList ++ value)) =
      some ⟨[("streamid".toList, value)]⟩ := by
  have hkey : "streamid".toList.all unreserved = true := by decide
  have hquery := hlib.query "streamid".toList value (List.all_eq_true.mp hkey) (by decide)
    (List.all_eq_true.mp hvalue)
  simp only [List.append_assoc] at hquery
  exact hquery

theorem afterText_append {needle : Text} (hne : needle ≠ []) (t : Text) :
    afterText needle (needle ++ t) = some t := by
  obtain ⟨c, l, rfl⟩ := List.exists_cons_of_ne_nil hne
  rw [List.cons_append, afterText, if_pos ⟨t, rfl⟩, ← List.cons_append, List.drop_left]

/-- The port of a reply is found, unless it is zero. -/
theorem parseServerPort_numeral {port : UInt16} (h : port ≠ 0) :
    parseServerPort ("server_port=".toList ++ numeral port.toNat) = some port := by
  have hlt := port.toNat_lt
  have hpos : 0 < port.toNat := Nat.pos_of_ne_zero fun hzero => h (UInt16.toNat_inj.mp hzero)
  have hdigits : (numeral port.toNat).takeWhile Char.isDigit = numeral port.toNat :=
    List.takeWhile_eq_self_iff.mpr fun c hc => isDigit_numeral hc
  have hwide : (UInt32.ofNat port.toNat).toNat = port.toNat := by
    rw [UInt32.toNat_ofNat']
    omega
  have hread : parseU32 (numeral port.toNat) = some (UInt32.ofNat port.toNat) := by
    have hparsed := parseU32_numeral (UInt32.ofNat port.toNat)
    rwa [hwide] at hparsed
  have hrange : decide (0 < UInt32.ofNat port.toNat ∧ UInt32.ofNat port.toNat ≤ 65535) = true := by
    refine decide_eq_true ⟨UInt32.lt_iff_toNat_lt.mpr ?_, UInt32.le_iff_toNat_le.mpr ?_⟩
    · rw [hwide]
      exact hpos
    · rw [hwide]
      exact Nat.le_of_lt_succ hlt
  unfold parseServerPort
  rw [afterText_append (by decide), Option.bind_some, hdigits, hread, Option.filter_some,
    if_pos hrange, Option.map_some, hwide, UInt16.ofNat_toNat]

theorem setup_roundTrip (hlib : lib.Grammar) (sdpLib : SdpTypes) (h : Ready client)
    (hports : ∀ stream, portOf srv.ports stream ≠ 0) (stream : Stream) :
    ∃ wire req, Arrives lib client (.setup stream) wire req ∧
      srv.ports.port (streamOf req.uri) = some (portOf srv.ports stream) ∧
      (header (respond sdpLib srv (.request req)).1.fields "Transport".toList).bind
        parseServerPort = some (portOf srv.ports stream) := by
  have hurl : ∃ u, lib.parseUrl (Ask.setup stream).url = some u ∧
      srv.ports.port (streamOf (some u)) = some (portOf srv.ports stream) := by
    cases stream with
    | video => exact ⟨_, parseUrl_streamid hlib (by decide : "video/0/0".toList.all unreserved = true), rfl⟩
    | audio => exact ⟨_, parseUrl_streamid hlib (by decide : "audio/0/0".toList.all unreserved = true), rfl⟩
    | control => exact ⟨_, parseUrl_streamid hlib (by decide : "control/13/0".toList.all unreserved = true), rfl⟩
  obtain ⟨u, hu, hport⟩ := hurl
  obtain ⟨wire, req, harrives, huri⟩ := arrives hlib h (.setup stream) hu
  rw [← huri] at hport
  refine ⟨wire, req, harrives, hport, ?_⟩
  have hmethod : req.method = .setup := harrives.method
  unfold respond
  dsimp only
  rw [hmethod]
  dsimp only
  unfold HostRtsp.setup
  rw [hport]
  exact parseServerPort_numeral (hports stream)

/-- What the client asks for is what the host takes it for, and what both then use. -/
theorem negotiation_roundTrip (hlib : lib.Grammar) (hsdp : sdpLib.Grammar) (h : Ready client)
    (hports : ∀ stream, portOf srv.ports stream ≠ 0) : RoundTrips lib sdpLib client srv where
  setup := setup_roundTrip hlib sdpLib h hports
  announce cfg videoPort encEnabled := by
    obtain ⟨v, hv⟩ := h.host
    have hu := parseUrl_streamid hlib (by decide : "control/13/0".toList.all unreserved = true)
    obtain ⟨wire, req, harrives, -⟩ :=
      arrives hlib h (.announce cfg videoPort encEnabled) hu
    refine ⟨wire, req, harrives, ?_⟩
    have hmethod : req.method = .announce := harrives.method
    unfold respond
    dsimp only
    rw [hmethod]
    exact context_announce hsdp hv srv harrives.body _
  play := by
    obtain ⟨u, hu⟩ := hlib.root
    obtain ⟨wire, req, harrives, -⟩ := arrives hlib h .play hu
    exact ⟨wire, req, harrives⟩

theorem negotiation_roundTrip_default :
    RoundTrips Readers.rtspTypes Readers.sdpTypes
      { hostIp := "192.168.0.7".toList, sessionId := some "KmcSession".toList } {} :=
  negotiation_roundTrip Readers.grammar Readers.sdpGrammar
    ⟨⟨.v4, by decide⟩, by decide, Or.inr rfl⟩ (fun stream => by cases stream <;> decide)

end Negotiation

end KmControl.RtspRoundTrip
