import KmControl.Exchange
import KmControl.Launch
import KmControl.RtspReplies
import KmControl.RtspRoundTrip
import KmControl.RtspSegments

/-!
The negotiation of a stream. The client makes seven requests, each over a connection of its
own, and both directions come in pieces; between two of them the host answers others.
-/
namespace KmControl.Handshake

open RtspMessage Sdp Decimal IpLiteral HostRtsp MoonRtsp Replace RtspRoundTrip RtspSegments
open RtspReplies (ReplyTypes ReplyOk roundTrip roundTrip_write)
open Launch (LaunchSession ServerConfig HttpAsk route)
open Negotiation (StreamContext)

section Client

structure RtspNegotiated where
  videoPort : UInt16
  audioPort : UInt16
  controlPort : UInt16
deriving DecidableEq

/-- The URL of the launch, or one made of the address where there is none. -/
def resolveTargetUrl (hostIp : Text) (rtspPort : UInt16) (sessionUrl : Text) : Option Text :=
  let url := trim sessionUrl
  if url = [] then some ("rtsp://".toList ++ hostIp ++ ":".toList ++ numeral rtspPort.toNat)
  else if "rtspenc://".toList <+: url then none
  else if "rtspru://".toList <+: url then none
  else if "rtsp://".toList <+: url then some url
  else none

/-- A number in a text that is no whole description. -/
def scanSdpUint (t attr : Text) : Option UInt32 :=
  (afterText (attr ++ ":".toList) t).bind fun rest => parseU32 (rest.takeWhile Char.isDigit)

def ssEncControlV2 : UInt32 := 1

variable {α : Type} (lib : RtspTypes) (replies : ReplyTypes)

/-- A request is sent, and its reply has to say that it is fulfilled. -/
def exchange (client : RtspClient) (m : Method) (target : Text) (extra : List Field) (body : Bytes)
    (next : Response → RtspClient → Exchange Bytes (List Bytes) α) :
    Exchange Bytes (List Bytes) α :=
  let encoded := client.encode lib m target extra body
  .attempt encoded.1 fun wire =>
  .ask wire fun reads =>
  .attempt ((roundTrip replies [] reads).filter fun resp => resp.status = .ok) fun resp =>
  next resp encoded.2

def setup (client : RtspClient) (stream : Stream)
    (next : UInt16 → RtspClient → Exchange Bytes (List Bytes) α) : Exchange Bytes (List Bytes) α :=
  exchange lib replies client .setup stream.streamid [] [] fun resp client =>
  next (setupPort stream resp) (client.learn resp)

def handshake (hostIp : Text) (rtspPort : UInt16) (sessionUrl : Text) (cfg : StreamCfg) :
    Exchange Bytes (List Bytes) RtspNegotiated :=
  .attempt (resolveTargetUrl hostIp rtspPort sessionUrl) fun url =>
  exchange lib replies { hostIp := hostIp } .options url [] [] fun _ client =>
  exchange lib replies client .describe url [("Accept".toList, "application/sdp".toList)] []
    fun description client =>
  let encSupported :=
    (scanSdpUint (text description.body) "x-ss-general.encryptionSupported".toList).getD 0
  setup lib replies client .video fun video client =>
  setup lib replies client .audio fun audio client =>
  setup lib replies client .control fun control client =>
  exchange lib replies client .announce controlStreamId
    [("Content-Type".toList, "application/sdp".toList)]
    (ascii (sdpBody hostIp cfg video (encSupported &&& ssEncControlV2))) fun _ client =>
  exchange lib replies client .play playTarget [] [] fun _ _ =>
  .done ⟨video, audio, control⟩

end Client

section Host

structure Host where
  session : Option LaunchSession := none
  rtsp : RtspServer := {}

/-- The RTSP server sees whether there is a session. -/
def Host.server (host : Host) : RtspServer :=
  { host.rtsp with sessionActive := host.session.isSome }

/-- A connection of another client. -/
inductive HostOp where
  | http (ask : HttpAsk)
  | rtsp (reads : List Bytes)

/-- A way to cut bytes into pieces. -/
structure Cut where
  parts : Bytes → List Bytes
  flatten : ∀ w, (parts w).flatten = w
  nonempty : ∀ w, ∀ part ∈ parts w, part ≠ []

/-- All bytes in one piece. -/
def Cut.whole : Cut where
  parts w := if w = [] then [] else [w]
  flatten w := by
    split
    · rename_i h
      exact h.symm
    · exact List.append_nil w
  nonempty w part hpart := by
    split at hpart
    · exact absurd hpart List.not_mem_nil
    · rename_i h
      exact List.mem_singleton.mp hpart ▸ h

/-- What goes before a request of the client, and how the request and its reply are cut. -/
structure Turn where
  before : List HostOp := []
  reads : Cut := .whole
  chunks : Cut := .whole

/-- What reads and writes the messages of both sides, and how the host is set up. -/
structure Setting where
  lib : RtspTypes
  sdpLib : SdpTypes
  replies : ReplyTypes
  config : ServerConfig
  localIp : Option String

structure Setting.Lawful (net : Setting) : Prop where
  grammar : net.lib.Grammar
  incremental : net.lib.Incremental
  sdpGrammar : net.sdpLib.Grammar
  replies : net.replies.Lawful

variable (net : Setting)

def Host.step (host : Host) : HostOp → Host
  | .http ask => { host with session := (route net.config net.localIp host.session ask).1 }
  | .rtsp reads =>
    { host with rtsp := (handleConnection net.lib net.sdpLib host.server reads).2 }

/-- The host when the request of the client comes. -/
def Turn.start (turn : Turn) (host : Host) : Host := turn.before.foldl (Host.step net) host

/-- The reply to the bytes of a request, in pieces. -/
def answer (turn : Turn) (host : Host) (wire : Bytes) : Host × List Bytes :=
  let host := turn.start net host
  let answered := handleConnection net.lib net.sdpLib host.server (turn.reads.parts wire)
  ({ host with rtsp := answered.2 },
    answered.1.elim [] fun r => turn.chunks.parts (net.replies.write r))

end Host

section Pieces

variable {lib : RtspTypes}

/-- In a request with `streamid` in its first line alone no read is taken for the end. -/
theorem not_cutsToken {a b p rest : Bytes} (ha : 13 ∉ a) (hb : ¬ streamid <:+: b)
    (hwire : p ++ rest = a ++ b) : ¬ CutsToken lib p rest := by
  rintro ⟨q, s, t, rfl, hs, -, hfull⟩
  obtain ⟨after, rfl⟩ := hs.follows
  have hjoin : q ++ (streamid ++ after) = a ++ b := by
    rw [← hwire, hs.split]
    simp only [List.append_assoc]
  have hfixed : fixed (q ++ s) = fixed q ++ s := fixed_part hs.left hs.right hs.split q
  have hq : 13 ∉ q := by
    rcases List.append_eq_append_iff.mp hjoin with ⟨c, rfl, -⟩ | ⟨c, -, rfl⟩
    · exact fun hmem => ha (List.mem_append_left _ hmem)
    · exact absurd ⟨c, after, by rw [List.append_assoc]⟩ hb
  have hs13 : 13 ∉ s := by
    have hall : (13 : UInt8) ∉ streamid := by decide
    exact fun hmem => hall (hs.split ▸ List.mem_append_left t hmem)
  have hfree : 13 ∉ fixed (q ++ s) := by
    rw [hfixed]
    unfold fixed
    refine fun hmem => (List.mem_append.mp hmem).elim (fun hmem => ?_) hs13
    rcases mem_replaceAll hmem with hmem | hmem
    · exact absurd hmem (by decide)
    · rcases mem_replaceAll hmem with hmem | hmem
      · exact absurd hmem (by decide)
      · exact hq hmem
  obtain ⟨e, he, -⟩ := hfull
  exact hfree (mem_of_headEnd he)

theorem fromUtf8_part {l : Text} (hl : ∀ c ∈ l, c.toNat < 128) {raw chunk rest : Bytes}
    (hwire : raw ++ (chunk ++ rest) = ascii l) : (fromUtf8 chunk).isSome := by
  obtain ⟨_, l', rfl, -, hl'⟩ := List.map_eq_append_iff.mp hwire.symm
  obtain ⟨part, _, rfl, hpart, -⟩ := List.map_eq_append_iff.mp hl'
  have htext : ∀ c ∈ part, c.toNat < 128 := fun c hc =>
    hl c (List.mem_append_right _ (List.mem_append_left _ hc))
  change ascii part = chunk at hpart
  rw [← hpart, fromUtf8_ascii htext]
  rfl

theorem unharmed_of_parts {l : Text} (hl : ∀ c ∈ l, c.toNat < 128)
    (hcut : ∀ p rest, p ++ rest = ascii l → ¬ CutsToken lib p rest) {raw : Bytes}
    {reads : List Bytes} (hwire : raw ++ reads.flatten = ascii l) : Unharmed lib raw reads := by
  induction reads generalizing raw with
  | nil => trivial
  | cons chunk reads ih =>
    rw [List.flatten_cons] at hwire
    have hnext : raw ++ chunk ++ reads.flatten = ascii l := by rw [List.append_assoc, hwire]
    exact ⟨fromUtf8_part hl hwire, hcut _ _ hnext, fun _ => ih hnext⟩

variable {line : Text} {fields : List Field} {b : Text} {req : Request}

/-- A request that is read in one piece is read in any pieces. -/
theorem receive_parts (hinc : lib.Incremental) (hline : IsLine line)
    (hb : CleanText (Ask.afterTarget fields b))
    (hone : receive lib [] [ascii (line ++ Ask.afterTarget fields b)] = .message (.request req))
    (cut : Cut) :
    receive lib [] (cut.parts (ascii (line ++ Ask.afterTarget fields b))) =
      .message (.request req) := by
  have hwire := cut.flatten (ascii (line ++ Ask.afterTarget fields b))
  have hl : ∀ c ∈ line ++ Ask.afterTarget fields b, c.toNat < 128 := by
    intro c hc
    rcases List.mem_append.mp hc with hc | hc
    · exact (toNat_of_isLine hline hc).2
    · exact (hb.char hc).1
  refine (receive_iff_unharmed hinc (cut.nonempty _) ?_).mpr (unharmed_of_parts hl ?_ hwire)
  · rw [hwire]
    exact hone
  · intro p rest hp
    rw [ascii_append] at hp
    exact not_cutsToken (Readers.not_mem_ascii hline) (free_streamid hb) hp

end Pieces

section Requests

variable {lib : RtspTypes} {client : RtspClient} {req : Request}

/-- The client sends a request that the host reads in any pieces. -/
def Reaches (lib : RtspTypes) (client : RtspClient) (m : Method) (target : Text)
    (extra : List Field) (body : Bytes) (req : Request) : Prop :=
  ∃ wire, (client.encode lib m target extra body).1 = some wire ∧
    ∀ cut : Cut, receive lib [] (cut.parts wire) = .message (.request req)

theorem isLine_ask (ask : Ask) : IsLine (ask.method.name ++ " ".toList ++ ask.target) := by
  cases ask with
  | setup stream => cases stream <;> decide
  | announce cfg videoPort encEnabled =>
    have hline : IsLine ("ANNOUNCE".toList ++ " ".toList ++ controlStreamId) := by decide
    exact hline
  | play => decide

/-- SETUP, ANNOUNCE and PLAY reach the host. -/
theorem reaches_ask (hlib : lib.Grammar) (hinc : lib.Incremental) (h : Ready client) (ask : Ask)
    {u : Url} (hu : lib.parseUrl ask.url = some u) :
    ∃ req, Reaches lib client ask.method ask.target ask.extra (ascii (ask.body client.hostIp)) req ∧
      req.method = ask.method ∧ req.uri = some u ∧ req.body = ascii (ask.body client.hostIp) := by
  obtain ⟨wire, fields, hwire, hone, -⟩ := Ask.receive_wire hlib h ask hu
  obtain ⟨written, hperm, hwritten⟩ := encode_eq hlib client (Ask.method_ne_other ask) ask.target
    (Ask.names_nodup client ask (ascii (ask.body client.hostIp)))
  have hclean : CleanText (Ask.afterTarget written (ask.body client.hostIp)) :=
    Ask.cleanText_afterTarget (fun f hf => Ask.plainFields h ask _ f (hperm.mem_iff.mp hf))
      (Ask.cleanText_body h ask)
  rw [Ask.bytes_eq_ascii] at hwritten
  obtain rfl : wire = _ := Option.some.inj (hwire.symm.trans hwritten)
  exact ⟨_, ⟨_, hwritten, receive_parts hinc (isLine_ask ask) hclean hone⟩, rfl, rfl, rfl⟩

/-- A URL that stays as it is on the way. -/
structure PlainUrl (lib : RtspTypes) (url : Text) : Prop where
  token : IsToken url
  clean : CleanText url
  parsed : ∃ u, lib.parseUrl url = some u

/-- In a request for a URL nothing is substituted. -/
theorem fixed_of_clean {l : Text} (h : CleanText l) : fixed (ascii l) = ascii l := by
  have hplay : ¬ playSlash <:+: ascii l :=
    free_of_not_mem (x := 89) (by decide) (not_mem_ascii_clean h)
  unfold fixed
  rw [replaceAll_of_free (free_streamid h), replaceAll_of_free hplay]

/-- What OPTIONS and DESCRIBE add to the fields. -/
def PlainExtra (extra : List Field) : Prop :=
  extra = [] ∨ extra = [("Accept".toList, "application/sdp".toList)]

variable {m : Method} {url : Text} {extra written : List Field}

theorem plainFields_plain (h : Ready client) (hextra : PlainExtra extra) :
    ∀ f ∈ client.fields extra, PlainField f := by
  intro f hf
  rcases List.mem_append.mp hf with hf | hf
  · exact Ask.plainFields h .play [] f (List.mem_append_left _ (List.mem_append_left _ hf))
  · rcases hextra with rfl | rfl
    · exact absurd hf List.not_mem_nil
    · rw [List.mem_singleton.mp hf]
      exact ⟨by decide, by decide, by decide⟩

theorem names_plain (hsession : client.sessionId = none) (hextra : PlainExtra extra) :
    (lower "Content-Length".toList :: (client.fields extra).map fun f => lower f.1).Nodup := by
  unfold RtspClient.fields RtspClient.sessionFields
  rw [hsession]
  rcases hextra with rfl | rfl
  · simp only [List.append_nil, List.map_cons, List.map_nil]
    decide
  · simp only [List.append_nil, List.cons_append, List.nil_append, List.map_cons, List.map_nil]
    decide

theorem wellFormed_plain (h : Ready client) (hsession : client.sessionId = none)
    (hextra : PlainExtra extra) (hm : ∀ name, m ≠ .other name) (hurl : IsToken url)
    (hperm : written.Perm (client.fields extra)) :
    (RequestText.mk m url written []).WellFormed := by
  obtain ⟨hlength, hnames⟩ := List.nodup_cons.mp (names_plain hsession hextra)
  refine ⟨hm, hurl, fun f hf => ?_, (hperm.map _).nodup_iff.mpr hnames, ?_⟩
  · exact (plainFields_plain h hextra f (hperm.mem_iff.mp hf)).fieldOk
  · exact header_eq_none fun f hf heq => hlength (heq ▸ List.mem_map_of_mem (hperm.mem_iff.mp hf))

theorem line_plain (hm : m = .options ∨ m = .describe) (hurl : PlainUrl lib url) :
    CleanText (m.name ++ " ".toList ++ url) ∧ IsLine (m.name ++ " ".toList ++ url) := by
  have hname : CleanText (m.name ++ " ".toList) ∧ IsLine (m.name ++ " ".toList) ∧
      (m.name ++ " ".toList).getLast? = some ' ' := by
    rcases hm with rfl | rfl <;> decide
  refine ⟨hname.1.append_last ' ' hurl.clean hname.2.2 (by decide), fun c hc => ?_⟩
  rcases List.mem_append.mp hc with hc | hc
  · exact hname.2.1 c hc
  · exact Or.inl (hurl.token.2 c hc)

/-- OPTIONS and DESCRIBE reach the host; they have no session yet. -/
theorem reaches_plain (hlib : lib.Grammar) (hinc : lib.Incremental) (h : Ready client)
    (hsession : client.sessionId = none) (hextra : PlainExtra extra)
    (hm : m = .options ∨ m = .describe) (hurl : PlainUrl lib url) :
    ∃ req, Reaches lib client m url extra [] req ∧ req.method = m := by
  obtain ⟨u, hu⟩ := hurl.parsed
  have hother : ∀ name, m ≠ .other name := by
    rcases hm with rfl | rfl <;> exact nofun
  have hall : client.fields extra ++ lengthField [] = client.fields extra := List.append_nil _
  obtain ⟨written, hperm, hwritten⟩ := encode_eq hlib client hother url
    (hall.symm ▸ (List.nodup_cons.mp (names_plain hsession hextra)).2)
  rw [hall] at hperm
  have hafter : CleanText (Ask.afterTarget written []) :=
    Ask.cleanText_afterTarget
      (fun f hf => plainFields_plain h hextra f (hperm.mem_iff.mp hf)) (by decide)
  obtain ⟨hclean, hline⟩ := line_plain hm hurl
  have hall : CleanText (m.name ++ " ".toList ++ url ++ Ask.afterTarget written []) :=
    hclean.append_first hafter (by decide)
  have hbytes : RequestText.bytes ⟨m, url, written, []⟩ =
      ascii (m.name ++ " ".toList ++ url ++ Ask.afterTarget written []) :=
    Ask.bytes_eq_ascii m url written []
  have hparse := hlib.parse _ u (wellFormed_plain h hsession hextra hother hurl.token hperm) hu
  rw [hbytes] at hwritten hparse
  have hne : ascii (m.name ++ " ".toList ++ url ++ Ask.afterTarget written []) ≠ [] := by
    rw [ascii_append]
    exact List.append_ne_nil_of_right_ne_nil _ (List.cons_ne_nil _ _)
  have hone : receive lib [] [ascii (m.name ++ " ".toList ++ url ++ Ask.afterTarget written [])] =
      .message (.request ⟨m, some u, .v1, written, []⟩) := by
    unfold receive
    rw [if_neg hne, fromUtf8_ascii fun c hc => (hall.char hc).1]
    dsimp only
    rw [List.nil_append, fixed_of_clean hall, hparse]
  exact ⟨_, ⟨_, hwritten, receive_parts hinc hline hafter hone⟩, rfl⟩

end Requests

section Replies

variable {sdpLib : SdpTypes} {srv : RtspServer}

theorem isToken_signed (x : ℤ) : IsToken (signed x) := by
  have hdigits := isToken_numeral x.natAbs
  unfold signed
  split
  · refine ⟨List.cons_ne_nil _ _, fun c hc => ?_⟩
    rcases List.mem_cons.mp hc with rfl | hc
    · decide
    · exact hdigits.2 c hc
  · exact hdigits

theorem fieldOk_cseq (cseq : ℤ) : FieldOk (cseqField cseq) :=
  RtspReplies.fieldOk_of_token (by decide) (isToken_signed cseq)

theorem replyOk_resp (cseq : ℤ) (version : Version) (status : Status) :
    ReplyOk (resp cseq version status) where
  fields := List.forall_mem_singleton.mpr (fieldOk_cseq cseq)
  names := by
    simp only [resp, cseqField, List.map_cons, List.map_nil]
    decide

theorem replyOk_options (req : Request) (cseq : ℤ) : ReplyOk (options req cseq) where
  fields := by
    refine List.forall_mem_cons.mpr ⟨fieldOk_cseq cseq, List.forall_mem_singleton.mpr ?_⟩
    exact RtspReplies.fieldOk_of_line (by decide) (by decide) ⟨'O', by decide⟩ ⟨'E', by decide⟩
  names := by
    simp only [options, cseqField, List.map_cons, List.map_nil]
    decide

theorem replyOk_describe (req : Request) (cseq : ℤ) : ReplyOk (describe req cseq) where
  fields := List.forall_mem_singleton.mpr (fieldOk_cseq cseq)
  names := by
    simp only [describe, cseqField, List.map_cons, List.map_nil]
    decide

theorem replyOk_setup (ports : StreamPorts) (req : Request) (cseq : ℤ) :
    ReplyOk (HostRtsp.setup ports req cseq) := by
  unfold HostRtsp.setup
  split
  · exact replyOk_resp _ _ _
  · rename_i port _
    have hport : IsToken ("server_port=".toList ++ numeral port.toNat) := by
      have hname : IsToken "server_port=".toList := by decide
      refine ⟨List.append_ne_nil_of_left_ne_nil hname.1 _, fun c hc => ?_⟩
      exact (List.mem_append.mp hc).elim (hname.2 c) ((isToken_numeral _).2 c)
    refine ⟨List.forall_mem_cons.mpr ⟨fieldOk_cseq cseq, List.forall_mem_cons.mpr ⟨?_,
      List.forall_mem_singleton.mpr (RtspReplies.fieldOk_of_token (by decide) hport)⟩⟩, ?_⟩
    · exact RtspReplies.fieldOk_of_line (by decide) (by decide) ⟨'K', by decide⟩ ⟨'0', by decide⟩
    · simp only [cseqField, List.map_cons, List.map_nil]
      decide

/-- Whatever the host replies can be read. -/
theorem replyOk_respond (m : Message) : ReplyOk (respond sdpLib srv m).1 := by
  unfold respond
  split
  · split
    · exact replyOk_options _ _
    · exact replyOk_describe _ _
    · exact replyOk_setup _ _ _
    · exact replyOk_resp _ _ _
    · exact replyOk_resp _ _ _
    · exact replyOk_resp _ _ _
  · exact replyOk_resp _ _ _

end Replies

section Turns

variable {net : Setting} {host host' : Host}

/-- A request for a session. -/
def HostOp.Launches : HostOp → Prop
  | .http ask => ask.https = true ∧ (ask.path = "/launch" ∨ ask.path = "/resume")
  | .rtsp _ => False

/-- A request that sets the parameters of the stream. -/
def HostOp.Announces (lib : RtspTypes) : HostOp → Prop
  | .http _ => False
  | .rtsp reads => ∃ req, receive lib [] reads = .message (.request req) ∧ req.method = .announce

/-- What does not change while the host answers: its ports, its hook and that there is a
session, which is the same unless another is asked for. -/
structure Keeps (ops : List HostOp) (host host' : Host) : Prop where
  ports : host'.rtsp.ports = host.rtsp.ports
  playHook : host'.rtsp.playHook = host.rtsp.playHook
  active : host.session.isSome → host'.session.isSome
  session : (∀ op ∈ ops, ¬ op.Launches) → host'.session = host.session

theorem Keeps.trans {ops ops' : List HostOp} {mid : Host} (h : Keeps ops host mid)
    (h' : Keeps ops' mid host') : Keeps (ops ++ ops') host host' where
  ports := h'.ports.trans h.ports
  playHook := h'.playHook.trans h.playHook
  active hsession := h'.active (h.active hsession)
  session hops := (h'.session fun op hop => hops op (List.mem_append_right _ hop)).trans
    (h.session fun op hop => hops op (List.mem_append_left _ hop))

theorem respond_ports (sdpLib : SdpTypes) (srv : RtspServer) (m : Message) :
    (respond sdpLib srv m).2.ports = srv.ports ∧
      (respond sdpLib srv m).2.playHook = srv.playHook := by
  unfold respond
  split
  · split
    · exact ⟨rfl, rfl⟩
    · exact ⟨rfl, rfl⟩
    · exact ⟨rfl, rfl⟩
    · exact ⟨rfl, rfl⟩
    · unfold play
      dsimp only
      split <;> exact ⟨rfl, rfl⟩
    · exact ⟨rfl, rfl⟩
  · exact ⟨rfl, rfl⟩

theorem handleConnection_cases (lib : RtspTypes) (sdpLib : SdpTypes) (srv : RtspServer)
    (reads : List Bytes) :
    (handleConnection lib sdpLib srv reads).2 = srv ∨
      ∃ m, receive lib [] reads = .message m ∧
        (handleConnection lib sdpLib srv reads).2 = (respond sdpLib srv m).2 := by
  unfold handleConnection
  split
  · split
    · rename_i m hm
      exact Or.inr ⟨m, hm, rfl⟩
    · exact Or.inl rfl
  · exact Or.inl rfl

theorem keeps_step (host : Host) (op : HostOp) : Keeps [op] host (host.step net op) := by
  cases op with
  | http ask =>
    refine ⟨rfl, rfl, fun hsession => ?_, fun hops => ?_⟩
    · change (route net.config net.localIp host.session ask).1.isSome
      unfold route
      split
      · exact hsession
      · split
        · exact hsession
        · split
          · rfl
          · exact hsession
    · change (route net.config net.localIp host.session ask).1 = host.session
      have hnot : ¬ (ask.https = true ∧ (ask.path = "/launch" ∨ ask.path = "/resume")) :=
        hops _ (List.mem_singleton_self _)
      unfold route
      rw [if_neg hnot]
      split
      · rfl
      · split <;> rfl
  | rtsp reads =>
    have hkept :
        (handleConnection net.lib net.sdpLib host.server reads).2.ports = host.server.ports ∧
          (handleConnection net.lib net.sdpLib host.server reads).2.playHook =
            host.server.playHook := by
      rcases handleConnection_cases net.lib net.sdpLib host.server reads with heq | ⟨m, -, heq⟩
      · rw [heq]
        exact ⟨rfl, rfl⟩
      · rw [heq]
        exact respond_ports net.sdpLib _ m
    exact ⟨hkept.1, hkept.2, id, fun _ => rfl⟩

theorem keeps_foldl (ops : List HostOp) (host : Host) :
    Keeps ops host (ops.foldl (Host.step net) host) := by
  induction ops generalizing host with
  | nil => exact ⟨rfl, rfl, id, fun _ => rfl⟩
  | cons op ops ih => exact (keeps_step host op).trans (ih _)

/-- Only ANNOUNCE changes the parameters. -/
theorem context_respond {sdpLib : SdpTypes} (srv : RtspServer) {m : Message}
    (h : ∀ req, m = .request req → req.method ≠ .announce) :
    (respond sdpLib srv m).2.context = srv.context := by
  unfold respond
  split
  · rename_i req
    split
    · rfl
    · rfl
    · rfl
    · rename_i hann
      exact absurd hann (h req rfl)
    · unfold play
      dsimp only
      split <;> rfl
    · rfl
  · rfl

theorem context_foldl {ops : List HostOp} (h : ∀ op ∈ ops, ¬ op.Announces net.lib) (host : Host) :
    (ops.foldl (Host.step net) host).rtsp.context = host.rtsp.context := by
  induction ops generalizing host with
  | nil => rfl
  | cons op ops ih =>
    rw [List.foldl_cons, ih fun o ho => h o (List.mem_cons_of_mem op ho)]
    cases op with
    | http ask => rfl
    | rtsp reads =>
      change (handleConnection net.lib net.sdpLib host.server reads).2.context =
        host.server.context
      rcases handleConnection_cases net.lib net.sdpLib host.server reads with heq | ⟨m, hm, heq⟩
      · rw [heq]
      · rw [heq]
        refine context_respond host.server fun req hreq hann => ?_
        exact h _ List.mem_cons_self ⟨req, hreq ▸ hm, hann⟩

end Turns

section Steps

variable {net : Setting}

/-- The host after it has answered a request of the client. -/
def Turn.after (net : Setting) (turn : Turn) (req : Request) (host : Host) : Host :=
  { turn.start net host with
    rtsp := (respond net.sdpLib (turn.start net host).server (.request req)).2 }

theorem keeps_start (net : Setting) (turn : Turn) (host : Host) :
    Keeps turn.before host (turn.start net host) :=
  keeps_foldl turn.before host

theorem keeps_after (net : Setting) (turn : Turn) (req : Request) (host : Host) :
    Keeps turn.before host (turn.after net req host) := by
  have hstart := keeps_start net turn host
  have hrespond := respond_ports net.sdpLib (turn.start net host).server (.request req)
  exact ⟨hrespond.1.trans hstart.ports, hrespond.2.trans hstart.playHook, hstart.active,
    hstart.session⟩

variable {client : RtspClient} {m : Method} {target : Text} {extra : List Field} {body : Bytes}
  {req : Request} {host : Host}

/-- One request: the client goes on with the reply that the host has written. -/
theorem serve_exchange (hnet : net.Lawful) (turn : Turn) (hsession : host.session.isSome)
    (hreaches : Reaches net.lib client m target extra body req) {reply : Response}
    (hreply : (respond net.sdpLib (turn.start net host).server (.request req)).1 = reply)
    (hok : reply.status = .ok) :
    ∃ read : Response, read.body = reply.body ∧
      (∀ f ∈ reply.fields, header read.fields f.1 = some f.2) ∧
      ∀ {α : Type} (next : Response → RtspClient → Exchange Bytes (List Bytes) α)
        (turns : List Turn),
        (exchange net.lib net.replies client m target extra body next).serve (answer net) host
            (turn :: turns) =
          (next read { client with cseq := client.cseq + 1 }).serve (answer net)
            (turn.after net req host) turns := by
  obtain ⟨wire, hwire, hreceive⟩ := hreaches
  have hreplyOk : ReplyOk reply := hreply ▸ replyOk_respond _
  obtain ⟨read, hread, hstatus, hbody, hfields⟩ := roundTrip_write hnet.replies hreplyOk
    (turn.chunks.nonempty _) (turn.chunks.flatten (net.replies.write reply))
  have hactive : (turn.start net host).server.sessionActive = true :=
    (keeps_start net turn host).active hsession
  have hanswer : answer net turn host wire =
      (turn.after net req host, turn.chunks.parts (net.replies.write reply)) := by
    unfold answer handleConnection
    dsimp only
    rw [if_pos hactive, hreceive turn.reads]
    dsimp only
    rw [hreply]
    rfl
  have hfulfilled : (roundTrip net.replies [] (turn.chunks.parts (net.replies.write reply))).filter
      (fun resp => resp.status = .ok) = some read := by
    rw [hread, Option.filter_some, if_pos (decide_eq_true (hstatus.trans hok))]
  refine ⟨read, hbody, hfields, fun next turns => ?_⟩
  unfold exchange
  dsimp only
  rw [hwire]
  rw [Exchange.attempt_some, Exchange.serve_ask, hanswer]
  dsimp only
  rw [hfulfilled]
  rfl

/-- OPTIONS and DESCRIBE. -/
theorem serve_plain (hnet : net.Lawful) (turn : Turn) (h : Ready client)
    (hnone : client.sessionId = none) (hsession : host.session.isSome)
    (hextra : PlainExtra extra) (hm : m = .options ∨ m = .describe) {url : Text}
    (hurl : PlainUrl net.lib url) :
    ∃ host' read, Keeps turn.before host host' ∧
      ∀ {α : Type} (next : Response → RtspClient → Exchange Bytes (List Bytes) α)
        (turns : List Turn),
        (exchange net.lib net.replies client m url extra [] next).serve (answer net) host
            (turn :: turns) =
          (next read { client with cseq := client.cseq + 1 }).serve (answer net) host' turns := by
  obtain ⟨req, hreaches, hmethod⟩ :=
    reaches_plain hnet.grammar hnet.incremental h hnone hextra hm hurl
  have hok : ∀ srv : RtspServer, (respond net.sdpLib srv (.request req)).1.status = .ok := by
    intro srv
    unfold respond
    dsimp only
    rw [hmethod]
    rcases hm with rfl | rfl <;> rfl
  obtain ⟨read, -, -, hserve⟩ := serve_exchange hnet turn hsession hreaches rfl (hok _)
  exact ⟨_, read, keeps_after net turn req host, hserve⟩

/-- The client once it knows the session, a request later. -/
def joined (client : RtspClient) : RtspClient :=
  { client with cseq := client.cseq + 1, sessionId := some "KmcSession".toList }

theorem learn_session (h : client.sessionId = none ∨ client.sessionId = some "KmcSession".toList)
    {read : Response}
    (hread : header read.fields "Session".toList = some "KmcSession;timeout = 90".toList) :
    ({ client with cseq := client.cseq + 1 } : RtspClient).learn read = joined client := by
  have htoken : trim ("KmcSession;timeout = 90".toList.takeWhile (· ≠ ';')) =
      "KmcSession".toList := by decide
  unfold RtspClient.learn joined
  rcases h with hnone | hsome
  · rw [hnone, hread]
    dsimp only
    rw [htoken, if_neg (by decide)]
  · rw [hsome]

theorem parseUrl_stream {lib : RtspTypes} (hlib : lib.Grammar) (stream : Stream) :
    ∃ u, lib.parseUrl (Ask.setup stream).url = some u ∧
      ∀ ports : StreamPorts, ports.port (streamOf (some u)) = some (portOf ports stream) := by
  cases stream with
  | video =>
    exact ⟨_, parseUrl_streamid hlib (by decide : "video/0/0".toList.all unreserved = true),
      fun _ => rfl⟩
  | audio =>
    exact ⟨_, parseUrl_streamid hlib (by decide : "audio/0/0".toList.all unreserved = true),
      fun _ => rfl⟩
  | control =>
    exact ⟨_, parseUrl_streamid hlib (by decide : "control/13/0".toList.all unreserved = true),
      fun _ => rfl⟩

/-- SETUP: the client has the port of its stream and the session. -/
theorem serve_setup (hnet : net.Lawful) (turn : Turn) (h : Ready client)
    (hsession : host.session.isSome) (stream : Stream)
    (hport : portOf host.rtsp.ports stream ≠ 0) :
    ∃ host', Keeps turn.before host host' ∧
      ∀ {α : Type} (next : UInt16 → RtspClient → Exchange Bytes (List Bytes) α)
        (turns : List Turn),
        (setup net.lib net.replies client stream next).serve (answer net) host (turn :: turns) =
          (next (portOf host.rtsp.ports stream) (joined client)).serve (answer net) host'
            turns := by
  obtain ⟨u, hu, hports⟩ := parseUrl_stream hnet.grammar stream
  obtain ⟨req, hreaches, hmethod, huri, -⟩ :=
    reaches_ask hnet.grammar hnet.incremental h (.setup stream) hu
  have hkept : (turn.start net host).server.ports = host.rtsp.ports :=
    (keeps_start net turn host).ports
  have hreply : (respond net.sdpLib (turn.start net host).server (.request req)).1 =
      ⟨req.version, .ok, [cseqField (cseqOf req),
        ("Session".toList, "KmcSession;timeout = 90".toList), ("Transport".toList,
          "server_port=".toList ++ numeral (portOf host.rtsp.ports stream).toNat)], []⟩ := by
    change req.method = .setup at hmethod
    unfold respond
    dsimp only
    rw [hmethod]
    dsimp only
    unfold HostRtsp.setup
    rw [hkept, huri, hports]
  obtain ⟨read, -, hfields, hserve⟩ := serve_exchange hnet turn hsession hreaches hreply rfl
  have hread : header read.fields "Session".toList = some "KmcSession;timeout = 90".toList :=
    hfields _ (List.mem_cons_of_mem _ List.mem_cons_self)
  have htransport : header read.fields "Transport".toList =
      some ("server_port=".toList ++ numeral (portOf host.rtsp.ports stream).toNat) :=
    hfields _ (List.mem_cons_of_mem _ (List.mem_cons_of_mem _ List.mem_cons_self))
  have hgiven : setupPort stream read = portOf host.rtsp.ports stream := by
    unfold setupPort
    rw [htransport, Option.bind_some, parseServerPort_numeral hport]
    rfl
  refine ⟨_, keeps_after net turn req host, fun next turns => ?_⟩
  have hgo := hserve (fun resp client => next (setupPort stream resp) (client.learn resp)) turns
  rw [learn_session h.session hread, hgiven] at hgo
  exact hgo

/-- What the parameters of the client become on the host. -/
def contextOf (cfg : StreamCfg) : StreamContext :=
  ⟨cfg.width, cfg.height, cfg.fps, cfg.packetSize,
    UInt32.ofNat (min (1000 * cfg.bitrateKbps.toNat) (2 ^ 32 - 1)), cfg.videoFormat⟩

/-- ANNOUNCE: the host takes the parameters of the client. -/
theorem serve_announce (hnet : net.Lawful) (turn : Turn) (h : Ready client)
    (hsession : host.session.isSome) (cfg : StreamCfg) (videoPort : UInt16) (encEnabled : UInt32) :
    ∃ host' read, Keeps turn.before host host' ∧ host'.rtsp.context = some (contextOf cfg) ∧
      ∀ {α : Type} (next : Response → RtspClient → Exchange Bytes (List Bytes) α)
        (turns : List Turn),
        (exchange net.lib net.replies client .announce controlStreamId
            [("Content-Type".toList, "application/sdp".toList)]
            (ascii (sdpBody client.hostIp cfg videoPort encEnabled)) next).serve (answer net) host
            (turn :: turns) =
          (next read { client with cseq := client.cseq + 1 }).serve (answer net) host' turns := by
  obtain ⟨v, hv⟩ := h.host
  have hu := parseUrl_streamid hnet.grammar
    (by decide : "control/13/0".toList.all unreserved = true)
  obtain ⟨req, hreaches, hmethod, -, hbody⟩ :=
    reaches_ask hnet.grammar hnet.incremental h (.announce cfg videoPort encEnabled) hu
  have hparse := hnet.sdpGrammar.parse (description client.hostIp cfg videoPort encEnabled)
    (wellFormed_description hv)
  rw [text_description] at hparse
  have hrespond : respond net.sdpLib (turn.start net host).server (.request req) =
      announce net.sdpLib (turn.start net host).server req (cseqOf req) := by
    change req.method = .announce at hmethod
    unfold respond
    dsimp only
    rw [hmethod]
  have hreply : (respond net.sdpLib (turn.start net host).server (.request req)).1 =
      resp (cseqOf req) req.version .ok := by
    rw [hrespond]
    unfold announce
    rw [hbody]
    change (resp (cseqOf req) req.version (if ((net.sdpLib.parse (ascii (sdpBody client.hostIp cfg
      videoPort encEnabled))).map _).isSome then .ok else .badRequest)) = _
    rw [hparse]
    rfl
  have hcontext : (turn.after net req host).rtsp.context = some (contextOf cfg) := by
    change (respond net.sdpLib (turn.start net host).server (.request req)).2.context = _
    rw [hrespond]
    exact context_announce hnet.sdpGrammar hv _ hbody _
  obtain ⟨read, -, -, hserve⟩ := serve_exchange hnet turn hsession hreaches hreply rfl
  exact ⟨_, read, keeps_after net turn req host, hcontext, hserve⟩

/-- PLAY: the hook gets the parameters that were announced last. -/
theorem serve_play (hnet : net.Lawful) (turn : Turn) (h : Ready client)
    (hsession : host.session.isSome) (hquiet : ∀ op ∈ turn.before, ¬ op.Announces net.lib)
    {ctx : StreamContext} (hctx : host.rtsp.context = some ctx) :
    ∃ host' read, Keeps turn.before host host' ∧ host'.rtsp.context = some ctx ∧
      (host'.rtsp.playHook = true → ∃ earlier, host'.rtsp.played = earlier ++ [ctx]) ∧
      ∀ {α : Type} (next : Response → RtspClient → Exchange Bytes (List Bytes) α)
        (turns : List Turn),
        (exchange net.lib net.replies client .play playTarget [] [] next).serve (answer net) host
            (turn :: turns) =
          (next read { client with cseq := client.cseq + 1 }).serve (answer net) host' turns := by
  obtain ⟨u, hu⟩ := hnet.grammar.root
  obtain ⟨req, hreaches, hmethod, -⟩ := reaches_ask hnet.grammar hnet.incremental h .play hu
  have hrespond : ∀ srv, respond net.sdpLib srv (.request req) = play srv req (cseqOf req) := by
    intro srv
    change req.method = .play at hmethod
    unfold respond
    dsimp only
    rw [hmethod]
  have hkept : (turn.start net host).server.context = some ctx :=
    (context_foldl hquiet host).trans hctx
  obtain ⟨read, -, -, hserve⟩ := serve_exchange hnet turn hsession hreaches
    (congrArg Prod.fst (hrespond _)) rfl
  have hplayed : (turn.after net req host).rtsp =
      (play (turn.start net host).server req (cseqOf req)).2 :=
    congrArg Prod.snd (hrespond _)
  refine ⟨_, read, keeps_after net turn req host, ?_, ?_, hserve⟩
  · rw [hplayed]
    unfold play
    dsimp only
    split <;> exact hkept
  · rw [hplayed]
    unfold play
    dsimp only
    split
    · intro _
      refine ⟨(turn.start net host).server.played, ?_⟩
      change _ ++ [Negotiation.play (turn.start net host).server.context] = _
      rw [hkept]
      rfl
    · rename_i hnone
      exact fun hhook => absurd hhook hnone

end Steps

section Whole

variable {net : Setting} {hostIp sessionUrl url : Text} {rtspPort : UInt16} {host : Host}

/-- The turns of one negotiation. -/
structure Turns where
  options : Turn
  describe : Turn
  setup : Stream → Turn
  announce : Turn
  play : Turn

def Turns.list (turns : Turns) : List Turn :=
  [turns.options, turns.describe, turns.setup .video, turns.setup .audio, turns.setup .control,
    turns.announce, turns.play]

/-- All that others ask for during a negotiation. -/
def Turns.others (turns : Turns) : List HostOp := turns.list.flatMap Turn.before

/-- The parameters of the client are those of the host, and the hook has got them. -/
structure Negotiated (cfg : StreamCfg) (turns : Turns) (host host' : Host) : Prop where
  keeps : Keeps turns.others host host'
  context : host'.rtsp.context = some (contextOf cfg)
  played : host'.rtsp.playHook = true → ∃ earlier, host'.rtsp.played = earlier ++ [contextOf cfg]

def portsOf (ports : StreamPorts) : RtspNegotiated := ⟨ports.video, ports.audio, ports.control⟩

/-- With a session the negotiation comes to its end, however requests and replies are cut and
whatever others do, if they announce nothing just before PLAY. -/
theorem handshake_completes (cfg : StreamCfg) (hnet : net.Lawful) {v : IpVersion}
    (hip : parseIpAddr hostIp = some v)
    (htarget : resolveTargetUrl hostIp rtspPort sessionUrl = some url)
    (hurl : PlainUrl net.lib url) (hsession : host.session.isSome)
    (hports : ∀ stream, portOf host.rtsp.ports stream ≠ 0) (turns : Turns)
    (hquiet : ∀ op ∈ turns.play.before, ¬ op.Announces net.lib) :
    ∃ host', (handshake net.lib net.replies hostIp rtspPort sessionUrl cfg).serve (answer net) host
        turns.list = (some (portsOf host.rtsp.ports), host') ∧ Negotiated cfg turns host host' := by
  have hready : ∀ n : UInt32, n.toNat < 2 ^ 31 → ∀ id, id = none ∨ id = some "KmcSession".toList →
      Ready ⟨hostIp, n, id⟩ := fun n hn id hid => ⟨⟨v, hip⟩, hn, hid⟩
  -- before the first SETUP the client has no session
  obtain ⟨host₁, _, hkeeps₁, hserve₁⟩ := serve_plain hnet turns.options
    (hready 1 (by decide) none (Or.inl rfl)) rfl hsession (Or.inl rfl) (Or.inl rfl) hurl
  obtain ⟨host₂, description, hkeeps, hserve₂⟩ := serve_plain hnet turns.describe
    (hready (1 + 1) (by decide) none (Or.inl rfl)) rfl (hkeeps₁.active hsession) (Or.inr rfl)
    (Or.inr rfl) hurl
  have hkeeps₂ := hkeeps₁.trans hkeeps
  have hsetup : ∀ {ops : List HostOp} {mid : Host}, Keeps ops host mid → ∀ n : UInt32,
      n.toNat < 2 ^ 31 → ∀ id, id = none ∨ id = some "KmcSession".toList → ∀ stream,
        ∃ mid', Keeps (ops ++ (turns.setup stream).before) host mid' ∧
          ∀ (next : UInt16 → RtspClient → Exchange Bytes (List Bytes) RtspNegotiated) ts,
            (setup net.lib net.replies ⟨hostIp, n, id⟩ stream next).serve (answer net) mid
                (turns.setup stream :: ts) =
              (next (portOf host.rtsp.ports stream) (joined ⟨hostIp, n, id⟩)).serve (answer net)
                mid' ts := by
    intro ops mid hmid n hn id hid stream
    obtain ⟨mid', hkeeps, hserve⟩ := serve_setup hnet (turns.setup stream) (hready n hn id hid)
      (hmid.active hsession) stream (by rw [hmid.ports]; exact hports stream)
    rw [hmid.ports] at hserve
    exact ⟨mid', hmid.trans hkeeps, fun next ts => hserve next ts⟩
  obtain ⟨host₃, hkeeps₃, hserve₃⟩ :=
    hsetup hkeeps₂ (1 + 1 + 1) (by decide) none (Or.inl rfl) .video
  obtain ⟨host₄, hkeeps₄, hserve₄⟩ :=
    hsetup hkeeps₃ (1 + 1 + 1 + 1) (by decide) _ (Or.inr rfl) .audio
  obtain ⟨host₅, hkeeps₅, hserve₅⟩ :=
    hsetup hkeeps₄ (1 + 1 + 1 + 1 + 1) (by decide) _ (Or.inr rfl) .control
  obtain ⟨host₆, _, hkeeps, hcontext, hserve₆⟩ := serve_announce hnet turns.announce
    (hready (1 + 1 + 1 + 1 + 1 + 1) (by decide) _ (Or.inr rfl)) (hkeeps₅.active hsession) cfg
    host.rtsp.ports.video
    (((scanSdpUint (text description.body) "x-ss-general.encryptionSupported".toList).getD 0) &&&
      ssEncControlV2)
  have hkeeps₆ := hkeeps₅.trans hkeeps
  obtain ⟨host₇, _, hkeeps, hplaying, hplayed, hserve₇⟩ := serve_play hnet turns.play
    (hready (1 + 1 + 1 + 1 + 1 + 1 + 1) (by decide) _ (Or.inr rfl)) (hkeeps₆.active hsession) hquiet
    hcontext
  have hothers : turns.others = turns.options.before ++ turns.describe.before ++
      (turns.setup .video).before ++ (turns.setup .audio).before ++
      (turns.setup .control).before ++ turns.announce.before ++ turns.play.before := by
    simp only [Turns.others, Turns.list, List.flatMap_cons, List.flatMap_nil, List.append_nil,
      List.append_assoc]
  refine ⟨host₇, ?_, hothers ▸ hkeeps₆.trans hkeeps, hplaying, hplayed⟩
  unfold handshake Turns.list
  rw [htarget, Exchange.attempt_some, hserve₁, hserve₂]
  dsimp only
  rw [hserve₃, joined, hserve₄, joined, hserve₅, joined]
  exact (hserve₆ _ _).trans (hserve₇ _ _)

end Whole

end KmControl.Handshake
