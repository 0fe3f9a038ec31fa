import KmControl.IpLiteral
import KmControl.Sdp

/-!
The RTSP requests of the client. They are written with an asterisk in the place of the
target, which the first line then gets in the form that the host expects; ANNOUNCE carries
the parameters of the stream in a session description.
-/
namespace KmControl.MoonRtsp

open RtspMessage Sdp Decimal IpLiteral

section Requests

structure StreamCfg where
  width : UInt32
  height : UInt32
  fps : UInt32
  bitrateKbps : UInt32
  packetSize : UInt32
  videoFormat : UInt32

structure RtspClient where
  hostIp : Text
  cseq : UInt32 := 1
  sessionId : Option Text := none

inductive Stream where
  | video
  | audio
  | control

def controlStreamId : Text := "streamid=control/13/0".toList

def playTarget : Text := "/".toList

def Stream.streamid : Stream → Text
  | .video => "streamid=video/0/0".toList
  | .audio => "streamid=audio/0/0".toList
  | .control => controlStreamId

/-- The port that is taken when the reply names none. -/
def Stream.fallback : Stream → UInt16
  | .video => 47998
  | .audio => 48000
  | .control => 47999

def rtspClientVersion : ℕ := 14

/-- Where the first line ends. -/
def lineEnd : Bytes → Option ℕ
  | [] => none
  | b :: l => if [13, 10] <+: b :: l then some 0 else (lineEnd l).map (· + 1)

def splitOnce (sep : UInt8) (l : Bytes) : Option (Bytes × Bytes) :=
  if sep ∈ l then some (l.takeWhile (· ≠ sep), (l.dropWhile (· ≠ sep)).drop 1) else none

def rewriteRequestTarget (wire : Bytes) (target : Text) : Option Bytes := do
  let eol ← lineEnd wire
  let line ← fromUtf8 (wire.take eol)
  let (method, rest) ← splitOnce 32 line
  let (_, version) ← splitOnce 32 rest
  some (method ++ [32] ++ ascii target ++ [32] ++ version ++ wire.drop eol)

def RtspClient.sessionFields (client : RtspClient) : List Field :=
  match client.sessionId with
  | none => []
  | some session => [("Session".toList, session)]

def RtspClient.fields (client : RtspClient) (extra : List Field) : List Field :=
  [("CSeq".toList, numeral client.cseq.toNat),
    ("X-GS-ClientVersion".toList, numeral rtspClientVersion), ("Host".toList, client.hostIp)] ++
      client.sessionFields ++ extra

/-- The bytes of a request; its number is used up. -/
def RtspClient.encode (client : RtspClient) (lib : RtspTypes) (method : Method) (target : Text)
    (extra : List Field) (body : Bytes) : Option Bytes × RtspClient :=
  (rewriteRequestTarget (lib.write method (client.fields extra) body) target,
    { client with cseq := client.cseq + 1 })

end Requests

section Targets

theorem lineEnd_append {l : Bytes} (h : 13 ∉ l) (rest : Bytes) :
    lineEnd (l ++ 13 :: 10 :: rest) = some l.length := by
  induction l with
  | nil => exact if_pos ⟨rest, rfl⟩
  | cons b l ih =>
    have hl : 13 ∉ l := fun hmem => h (List.mem_cons_of_mem b hmem)
    have hnot : ¬ [13, 10] <+: b :: (l ++ 13 :: 10 :: rest) := fun hpre =>
      h ((List.cons_prefix_cons.mp hpre).1 ▸ List.mem_cons_self)
    rw [List.cons_append, lineEnd, if_neg hnot, ih hl]
    rfl

theorem bytes_eq_line (r : RequestText) : r.bytes =
    ascii (r.method.name ++ " ".toList ++ r.target ++ " RTSP/1.0".toList) ++
      13 :: 10 :: (ascii (r.fields.flatMap fieldLine ++ "\r\n".toList) ++ r.body) := by
  have hline : r.line = (r.method.name ++ " ".toList ++ r.target ++ " RTSP/1.0".toList) ++
      "\r\n".toList := by
    unfold RequestText.line
    simp only [List.append_assoc]
    rfl
  unfold RequestText.bytes
  rw [hline, List.append_assoc, ascii_append, ascii_append, List.append_assoc, List.append_assoc]
  rfl

/-- The target takes the place of the asterisk. -/
theorem rewriteRequestTarget_bytes {m : Method} (hm : ∀ name, m ≠ .other name)
    (fields : List Field) (body : Bytes) (target : Text) :
    rewriteRequestTarget (RequestText.bytes ⟨m, "*".toList, fields, body⟩) target =
      some (RequestText.bytes ⟨m, target, fields, body⟩) := by
  let line := ascii (m.name ++ " ".toList ++ "*".toList ++ " RTSP/1.0".toList)
  have hline : 13 ∉ line ∧ fromUtf8 line = some line ∧
      splitOnce 32 line = some (ascii m.name, ascii "* RTSP/1.0".toList) := by
    cases m with
    | other name => exact absurd rfl (hm name)
    | _ => exact ⟨by decide, by decide, by decide⟩
  obtain ⟨hfree, htext, hsplit⟩ := hline
  have hsplit' : splitOnce 32 (ascii "* RTSP/1.0".toList) =
      some (ascii "*".toList, ascii "RTSP/1.0".toList) := by decide
  have htarget : ascii m.name ++ [32] ++ ascii target ++ [32] ++ ascii "RTSP/1.0".toList =
      ascii (m.name ++ " ".toList ++ target ++ " RTSP/1.0".toList) := by
    simp only [ascii_append, List.append_assoc]
    rfl
  rw [bytes_eq_line, bytes_eq_line]
  unfold rewriteRequestTarget
  rw [lineEnd_append hfree, Option.bind_eq_bind, Option.bind_some, List.take_left, htext,
    Option.bind_eq_bind, Option.bind_some, hsplit, Option.bind_eq_bind, Option.bind_some]
  dsimp only
  rw [hsplit', Option.bind_some, List.drop_left, htarget]

/-- A request is written with its target in the first line and its fields in some order. -/
theorem encode_eq {lib : RtspTypes} (hlib : lib.Grammar) (client : RtspClient) {m : Method}
    (hm : ∀ name, m ≠ .other name) (target : Text) {extra : List Field} {body : Bytes}
    (hnames : ((client.fields extra ++ lengthField body).map fun f => lower f.1).Nodup) :
    ∃ written, written.Perm (client.fields extra ++ lengthField body) ∧
      (client.encode lib m target extra body).1 =
        some (RequestText.bytes ⟨m, target, written, body⟩) := by
  obtain ⟨written, hperm, hwrite⟩ := hlib.write m (client.fields extra) body hnames
  refine ⟨written, hperm, ?_⟩
  unfold RtspClient.encode
  rw [hwrite]
  exact rewriteRequestTarget_bytes hm written body target

end Targets

section Replies

/-- What stands after the first occurrence of a text. -/
def afterText (needle : Text) : Text → Option Text
  | [] => none
  | c :: t => if needle <+: c :: t then some ((c :: t).drop needle.length) else afterText needle t

def parseServerPort (transport : Text) : Option UInt16 :=
  (afterText "server_port=".toList transport).bind fun t =>
    ((parseU32 (t.takeWhile Char.isDigit)).filter fun p => decide (0 < p ∧ p ≤ 65535)).map fun p =>
      UInt16.ofNat p.toNat

/-- The session of the first SETUP whose reply names one. -/
def RtspClient.learn (client : RtspClient) (resp : Response) : RtspClient :=
  match client.sessionId, header resp.fields "Session".toList with
  | none, some v =>
    let token := trim (v.takeWhile (· ≠ ';'))
    if token = [] then client else { client with sessionId := some token }
  | _, _ => client

/-- The port that a reply to SETUP gives. -/
def setupPort (stream : Stream) (resp : Response) : UInt16 :=
  ((header resp.fields "Transport".toList).bind parseServerPort).getD stream.fallback

end Replies

section Description

def addrtype (hostIp : Text) : Text :=
  match parseIpAddr hostIp with
  | some .v6 => "IPv6".toList
  | _ => "IPv4".toList

/-- Four fifths of the bitrate, in 64-bit words and then in a 32-bit word. -/
def StreamCfg.adjustedKbps (cfg : StreamCfg) : UInt32 :=
  UInt32.ofNat (cfg.bitrateKbps.toNat * 80 % 2 ^ 64 / 100)

def StreamCfg.hevc (cfg : StreamCfg) : ℕ := if cfg.videoFormat = 1 then 1 else 0

/-- The attributes of the description, those first that the host reads. -/
def attributes (cfg : StreamCfg) (encEnabled : UInt32) : List (Text × Text) :=
  [("x-nv-video[0].clientViewportWd".toList, numeral cfg.width.toNat),
    ("x-nv-video[0].clientViewportHt".toList, numeral cfg.height.toNat),
    ("x-nv-video[0].maxFPS".toList, numeral cfg.fps.toNat),
    ("x-nv-video[0].packetSize".toList, numeral cfg.packetSize.toNat),
    ("x-ml-video.configuredBitrateKbps".toList, numeral cfg.bitrateKbps.toNat),
    ("x-nv-vqos[0].bitStreamFormat".toList, numeral cfg.videoFormat.toNat),
    ("x-nv-video[0].rateControlMode".toList, "4".toList),
    ("x-nv-video[0].timeoutLengthMs".toList, "7000".toList),
    ("x-nv-video[0].framesWithInvalidRefThreshold".toList, "0".toList),
    ("x-nv-video[0].initialBitrateKbps".toList, numeral cfg.adjustedKbps.toNat),
    ("x-nv-video[0].initialPeakBitrateKbps".toList, numeral cfg.adjustedKbps.toNat),
    ("x-nv-vqos[0].bw.minimumBitrateKbps".toList, numeral cfg.adjustedKbps.toNat),
    ("x-nv-vqos[0].bw.maximumBitrateKbps".toList, numeral cfg.adjustedKbps.toNat),
    ("x-nv-clientSupportHevc".toList, numeral cfg.hevc),
    ("x-ss-general.encryptionEnabled".toList, numeral encEnabled.toNat)]

def sdpBody (hostIp : Text) (cfg : StreamCfg) (videoPort : UInt16) (encEnabled : UInt32) : Text :=
  "v=0\r\n".toList ++
    ("o=android 0 ".toList ++ numeral rtspClientVersion ++ " IN ".toList ++ addrtype hostIp ++
      " ".toList ++ hostIp ++ "\r\n".toList) ++
    "s=NVIDIA Streaming Client\r\n".toList ++
    (attributes cfg encEnabled).flatMap attributeLine ++
    "t=0 0\r\n".toList ++
    ("m=video ".toList ++ numeral videoPort.toNat ++ "  \r\n".toList)

end Description

end KmControl.MoonRtsp
