import KmControl.Negotiation
import KmControl.Replace
import KmControl.Sdp

/-!
The RTSP server of the host. A request is read until the parser has all of it, with every
piece decoded by itself and the substitutions made anew in all that has come; what it asks
for is answered once, and the connection ends.
-/
namespace KmControl.HostRtsp

open RtspMessage Sdp Decimal Negotiation Replace

section Reading

def streamid : Bytes := ascii "streamid".toList

def playSlash : Bytes := ascii "PLAY /".toList

/-- What the parser gets in the place of the raw text. -/
def fixed (raw : Bytes) : Bytes :=
  replaceAll playSlash (ascii "PLAY rtsp://localhost/".toList)
    (replaceAll streamid (ascii "rtsp://localhost?streamid".toList) raw)

/-- How the loop ends that reads a message. -/
inductive Received where
  | message (m : Message)
  | closed
  | badText
  | badMessage
deriving DecidableEq

/-- The loop of `handle_connection`: what has been read so far, and what the reads return. -/
def receive (lib : RtspTypes) : Bytes → List Bytes → Received
  | _, [] => .closed
  | raw, chunk :: reads =>
    if chunk = [] then .closed
    else match fromUtf8 chunk with
      | none => .badText
      | some text =>
        match lib.parse (fixed (raw ++ text)) with
        | .message m => .message m
        | .incomplete => receive lib (raw ++ text) reads
        | .error => .badMessage

end Reading

section Answers

structure StreamPorts where
  video : UInt16 := 47998
  audio : UInt16 := 48000
  control : UInt16 := 47999

/-- The server, the state of the session, and what the play hook has been called with. -/
structure RtspServer where
  ports : StreamPorts := {}
  context : Option StreamContext := none
  sessionActive : Bool := false
  playHook : Bool := false
  played : List StreamContext := []

def cseqField (cseq : ℤ) : Field := ("CSeq".toList, signed cseq)

def resp (cseq : ℤ) (version : Version) (status : Status) : Response :=
  ⟨version, status, [cseqField cseq], []⟩

def options (req : Request) (cseq : ℤ) : Response :=
  ⟨req.version, .ok, [cseqField cseq,
    ("Public".toList, "OPTIONS DESCRIBE SETUP PLAY ANNOUNCE".toList)], []⟩

def describe (req : Request) (cseq : ℤ) : Response :=
  ⟨req.version, .ok, [cseqField cseq], ascii
    ("a=x-ss-general.featureFlags:2\n".toList ++
      "a=x-ss-general.encryptionSupported:1\n".toList ++
      "a=x-ss-general.encryptionRequested:1\n".toList ++
      "sprop-parameter-sets=AAAAAU\n".toList ++
      "a=x-nv-video[0].refPicInvalidation:1\n".toList ++
      "a=fmtp:96 packetization-mode=1\n".toList)⟩

/-- The stream that the URL of a SETUP names. -/
def streamOf (uri : Option Url) : Text :=
  ((uri.bind fun u => u.queryPairs.find? fun p => p.1 = "streamid".toList).map fun p =>
    p.2.takeWhile (· ≠ '/')).getD []

def StreamPorts.port (ports : StreamPorts) (stream : Text) : Option UInt16 :=
  if stream = "video".toList then some ports.video
  else if stream = "audio".toList then some ports.audio
  else if stream = "control".toList then some ports.control
  else none

def setup (ports : StreamPorts) (req : Request) (cseq : ℤ) : Response :=
  match ports.port (streamOf req.uri) with
  | none => resp cseq req.version .badRequest
  | some port => ⟨req.version, .ok, [cseqField cseq,
      ("Session".toList, "KmcSession;timeout = 90".toList),
      ("Transport".toList, "server_port=".toList ++ numeral port.toNat)], []⟩

/-- The name under which an attribute stands in the description. -/
def attributeName : Attribute → Text
  | .clientViewportWd => "x-nv-video[0].clientViewportWd".toList
  | .clientViewportHt => "x-nv-video[0].clientViewportHt".toList
  | .maxFPS => "x-nv-video[0].maxFPS".toList
  | .packetSize => "x-nv-video[0].packetSize".toList
  | .configuredBitrateKbps => "x-ml-video.configuredBitrateKbps".toList
  | .bitStreamFormat => "x-nv-vqos[0].bitStreamFormat".toList

def announce (sdpLib : SdpTypes) (srv : RtspServer) (req : Request) (cseq : ℤ) :
    Response × RtspServer :=
  let sdp := (sdpLib.parse req.body).map fun sdp a => sdpAttr sdp (attributeName a)
  (resp cseq req.version (if sdp.isSome then .ok else .badRequest),
    { srv with context := Negotiation.announce srv.context sdp })

def play (srv : RtspServer) (req : Request) (cseq : ℤ) : Response × RtspServer :=
  (resp cseq req.version .ok,
    if srv.playHook then
      { srv with played := srv.played ++ [Negotiation.play srv.context] }
    else srv)

/-- The number of a request in a signed 32-bit word, or zero. -/
def cseqOf (req : Request) : ℤ :=
  ((header req.fields "CSeq".toList).bind fun v => parse (-2 ^ 31) (2 ^ 31 - 1) v).getD 0

def respond (sdpLib : SdpTypes) (srv : RtspServer) : Message → Response × RtspServer
  | .request req =>
    match req.method with
    | .options => (options req (cseqOf req), srv)
    | .describe => (describe req (cseqOf req), srv)
    | .setup => (setup srv.ports req (cseqOf req), srv)
    | .announce => announce sdpLib srv req (cseqOf req)
    | .play => play srv req (cseqOf req)
    | .other _ => (resp (cseqOf req) req.version .badRequest, srv)
  | _ => (resp 0 .v2 .badRequest, srv)

def handleConnection (lib : RtspTypes) (sdpLib : SdpTypes) (srv : RtspServer)
    (reads : List Bytes) : Option Response × RtspServer :=
  if srv.sessionActive then
    match receive lib [] reads with
    | .message m => let answer := respond sdpLib srv m; (some answer.1, answer.2)
    | _ => (none, srv)
  else (none, srv)

end Answers

section Cuts

variable {a b : Bytes}

theorem unbordered_streamid : Unbordered streamid := unbordered_of_head (by decide)

theorem streamid_ne_nil : streamid ≠ [] := by decide

theorem playSlash_ne_nil : playSlash ≠ [] := by decide

theorem unbordered_playSlash : Unbordered playSlash := unbordered_of_head (by decide)

/-- A part of `PLAY /` is also the beginning of what replaces it. -/
theorem playSlash_part {s t : Bytes} (ht : t ≠ []) (h : playSlash = s ++ t) :
    s <+: ascii "PLAY rtsp://localhost/".toList := by
  have hlen : s.length ≤ 5 := by
    have hsplit := congrArg List.length h
    have := List.length_pos_iff.mpr ht
    rw [List.length_append] at hsplit
    change 6 = _ at hsplit
    omega
  have hpart : s <+: playSlash.take 5 :=
    List.prefix_take_iff.mpr ⟨⟨t, h.symm⟩, hlen⟩
  exact hpart.trans ⟨ascii "rtsp://localhost/".toList, by decide⟩

/-- Where nothing is cut but `PLAY /`, what a part becomes is a part of what the whole
becomes. -/
theorem fixed_isPrefix (h : ∀ s t, ¬ Straddles streamid a b s t) : fixed a <+: fixed (a ++ b) := by
  unfold fixed
  rw [replaceAll_append streamid_ne_nil h]
  generalize replaceAll streamid _ a = a'
  generalize replaceAll streamid _ b = b'
  by_cases hcut : ∃ s t, Straddles playSlash a' b' s t
  · obtain ⟨s, t, hs⟩ := hcut
    obtain ⟨q, rfl⟩ := hs.suffix
    obtain ⟨rest, rfl⟩ := hs.follows
    have hjoin : q ++ s ++ (t ++ rest) = q ++ (playSlash ++ rest) := by
      rw [hs.split]
      simp only [List.append_assoc]
    rw [replaceAll_append_part unbordered_playSlash q hs.right hs.split, hjoin,
      replaceAll_append_pat unbordered_playSlash playSlash_ne_nil]
    exact (List.prefix_append_right_inj _).mpr
      ((playSlash_part hs.right hs.split).trans (List.prefix_append _ _))
  · rw [replaceAll_append playSlash_ne_nil fun s t hs => hcut ⟨s, t, hs⟩]
    exact List.prefix_append _ _

/-- A part of `streamid` begins with `s`, and nothing in it ends a line. -/
theorem part_of_streamid {s t : Bytes} (hs : s ≠ []) (h : streamid = s ++ t) :
    (∃ s', s = 115 :: s') ∧ ∀ c ∈ s, c ≠ 10 ∧ c ≠ 80 := by
  obtain ⟨a, s', rfl⟩ := List.exists_cons_of_ne_nil hs
  have ha : some a = streamid.head? := by
    rw [h]
    rfl
  have hlf : 10 ∉ streamid := by decide
  have hP : 80 ∉ streamid := by decide
  obtain rfl : a = 115 := Option.some.inj ha
  have hin : ∀ c ∈ 115 :: s', c ∈ streamid := fun c hc => h ▸ List.mem_append_left t hc
  exact ⟨⟨s', rfl⟩, fun c hc => ⟨fun heq => hlf (heq ▸ hin c hc), fun heq => hP (heq ▸ hin c hc)⟩⟩

/-- A part of `streamid` at the end stays as it is. -/
theorem fixed_part {s t : Bytes} (hs : s ≠ []) (ht : t ≠ []) (h : streamid = s ++ t) (q : Bytes) :
    fixed (q ++ s) = fixed q ++ s := by
  unfold fixed
  rw [replaceAll_append_part unbordered_streamid q ht h]
  obtain ⟨⟨s', rfl⟩, hparts⟩ := part_of_streamid hs h
  have hfree : ¬ playSlash <:+: 115 :: s' :=
    free_of_not_mem (x := 80) (by decide) fun hmem => (hparts 80 hmem).2 rfl
  rw [replaceAll_append playSlash_ne_nil (not_straddles_of_first (by decide)),
    replaceAll_of_free hfree]

/-- Where `streamid` stands in the text, what it is replaced by begins with another letter. -/
theorem fixed_streamid (q rest : Bytes) :
    ∃ z, fixed (q ++ (streamid ++ rest)) = fixed q ++ 114 :: z := by
  unfold fixed
  rw [replaceAll_append_pat unbordered_streamid streamid_ne_nil]
  generalize replaceAll streamid _ q = q'
  generalize replaceAll streamid _ rest = rest'
  have hhead : ascii "rtsp://localhost?streamid".toList ++ rest' =
      114 :: (ascii "tsp://localhost?streamid".toList ++ rest') := rfl
  have hother : ∀ l : Bytes, ¬ playSlash <+: 114 :: l := fun l hpre =>
    absurd (List.cons_prefix_cons.mp hpre).1 (by decide)
  rw [hhead, replaceAll_append playSlash_ne_nil (not_straddles_of_first (by decide)),
    replaceAll_cons (hother _)]
  exact ⟨_, rfl⟩

end Cuts

end KmControl.HostRtsp
