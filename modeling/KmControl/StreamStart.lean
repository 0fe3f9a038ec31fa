import KmControl.Handshake

/-!
The start of a stream, from the address that is entered to the PLAY request: the client asks
the host what it is, then for a session, and then it negotiates.
-/
namespace KmControl.StreamStart

open RtspMessage Sdp Decimal IpLiteral HostRtsp MoonRtsp RtspRoundTrip Handshake
open Launch (LaunchSession LaunchResult ServerInfo ServerConfig KeyDraws HttpAsk route)
open Pairing (XmlTypes)
open MoonPairing (Identity)
open Documents (ReadsDocuments)

section Address

def defaultBasePort : UInt16 := 47989

/-- The ports for HTTP, HTTPS and RTSP. -/
def portsFromBase (base : UInt16) : UInt16 × UInt16 × UInt16 := (base, base - 5, base + 21)

/-- What stands before the last separator and after it. -/
def rsplitOnce (sep : Char) (l : Text) : Option (Text × Text) :=
  if sep ∈ l then
    some (((l.reverse.dropWhile (· ≠ sep)).drop 1).reverse,
      (l.reverse.takeWhile (· ≠ sep)).reverse)
  else none

/-- The host and the first port of an address; a colon in the host is that of an IPv6 literal. -/
def splitHostBase (address : Text) : Text × UInt16 :=
  match rsplitOnce ':' address with
  | some (host, port) =>
    if ':' ∈ host then (address, defaultBasePort)
    else match parse 0 (2 ^ 16 - 1) port with
      | some p => if p ≠ 0 then (host, UInt16.ofNat p.toNat) else (address, defaultBasePort)
      | none => (address, defaultBasePort)
  | none => (address, defaultBasePort)

end Address

section Client

def packetSize : UInt32 := 1392

def scmHevc : BitVec 32 := 2

/-- HEVC only if both sides have it. -/
def pickHevc (codecModeSupport : ℤ) (allowHevc : Bool) : Bool :=
  allowHevc && decide (BitVec.ofInt 32 codecModeSupport &&& scmHevc ≠ 0)

/-- The parameters of a stream at 20 Mbit/s. -/
def streamCfg (info : ServerInfo) (width height fps : UInt32) (allowHevc : Bool) : StreamCfg where
  width := width
  height := height
  fps := fps
  bitrateKbps := 20000
  packetSize := packetSize
  videoFormat := if pickHevc info.codecModeSupport allowHevc then 1 else 0

/-- What becomes of a request over HTTP: it does not arrive, its reply does not, or both do. -/
inductive Way where
  | lost
  | unanswered
  | answered
deriving DecidableEq

structure HttpTurn where
  before : List HostOp := []
  way : Way := .answered

/-- A request is sent to the port of the host that serves it. -/
def Reached (config : ServerConfig) (httpPort httpsPort : UInt16) (ask : HttpAsk) : Prop :=
  if ask.https then httpsPort = config.httpsPort else httpPort = config.httpPort

instance (config : ServerConfig) (httpPort httpsPort : UInt16) (ask : HttpAsk) :
    Decidable (Reached config httpPort httpsPort ask) :=
  inferInstanceAs (Decidable (if ask.https then httpsPort = config.httpsPort
    else httpPort = config.httpPort))

variable (net : Setting)

/-- The reply over HTTP, if the request is for a port of the host. -/
def answerHttp (httpPort httpsPort : UInt16) (turn : HttpTurn) (host : Host) (ask : HttpAsk) :
    Host × Option String :=
  let host := turn.before.foldl (Host.step net) host
  if turn.way = .lost ∨ ¬ Reached net.config httpPort httpsPort ask then (host, none)
  else
    (host.step net (.http ask),
      if turn.way = .answered then some (route net.config net.localIp host.session ask).2 else none)

/-- The reply over RTSP, if the connection is to the port of the host. -/
def answerRtsp (rtspPort : UInt16) (turn : Turn) (host : Host) (wire : Bytes) :
    Host × List Bytes :=
  if rtspPort = net.config.rtspPort then answer net turn host wire else (turn.start net host, [])

/-- The turns of one start. -/
structure StartTurns where
  https : HttpTurn := {}
  http : HttpTurn := {}
  launch : HttpTurn := {}
  rtsp : Turns

structure Started where
  info : ServerInfo
  launch : LaunchResult
  negotiated : RtspNegotiated

variable (xml : XmlTypes) (identity : Identity) (draws : KeyDraws) (width height fps : UInt32)
  (allowHevc : Bool)

/-- `start`, up to the ports of the media. -/
def start (address : Text) (turns : StartTurns) (host : Host) : Option Started × Host :=
  let (hostIp, base) := splitHostBase address
  let (http, https, rtspPort) := portsFromBase base
  match (Launch.queryServerInfo xml identity https draws).serve (answerHttp net http https) host
    [turns.https, turns.http] with
  | (none, host) => (none, host)
  | (some info, host) =>
    match (Launch.launch xml identity draws width height fps (info.currentGame ≠ 0)).serve
      (answerHttp net http https) host [turns.launch] with
    | (none, host) => (none, host)
    | (some launch, host) =>
      let cfg := streamCfg info width height fps allowHevc
      match (handshake net.lib net.replies hostIp rtspPort launch.rtspSessionUrl.toList cfg).serve
        (answerRtsp net rtspPort) host turns.rtsp.list with
      | (none, host) => (none, host)
      | (some negotiated, host) => (some ⟨info, launch, negotiated⟩, host)

end Client

section Url

variable {lib : RtspTypes} {localIp : Option String}

/-- URLs with the address of a host are read. -/
def ReadsHosts (lib : RtspTypes) : Prop :=
  ∀ (ip : Text) (port : UInt16), parseIpAddr ip = some .v4 →
    ∃ u, lib.parseUrl ("rtsp://".toList ++ ip ++ ":".toList ++ numeral port.toNat) = some u

/-- The host is reached at an IPv4 address. -/
def ReachedAt (localIp : Option String) : Prop :=
  ∀ ip ∈ localIp, parseIpAddr ip.toList = some .v4

theorem ReachedAt.localIpOk (h : ReachedAt localIp) : Launch.LocalIpOk localIp :=
  fun ip hip => ⟨.v4, h ip hip⟩

theorem sessionUrl_eq (config : ServerConfig) (h : ReachedAt localIp) :
    ∃ ip : Text, parseIpAddr ip = some .v4 ∧ (Launch.sessionUrl config localIp).toList =
      "rtsp://".toList ++ ip ++ ":".toList ++ numeral config.rtspPort.toNat := by
  have hip : parseIpAddr (localIp.getD "127.0.0.1").toList = some .v4 := by
    cases hlocal : localIp with
    | none => decide
    | some ip => exact h ip hlocal
  have hnumber : (Launch.number config.rtspPort.toNat).toList = numeral config.rtspPort.toNat :=
    String.toList_ofList
  refine ⟨_, hip, ?_⟩
  unfold Launch.sessionUrl
  rw [String.toList_append, String.toList_append, String.toList_append, hnumber]

theorem plainUrl_sessionUrl (config : ServerConfig) (hlib : ReadsHosts lib)
    (h : ReachedAt localIp) :
    PlainUrl lib (Launch.sessionUrl config localIp).toList := by
  obtain ⟨ip, hip, heq⟩ := sessionUrl_eq config h
  rw [heq]
  have hscheme : CleanText "rtsp://".toList ∧ IsToken "rtsp://".toList := by decide
  have hcolon : CleanText ":".toList ∧ IsToken ":".toList := by decide
  have hport := cleanText_numeral config.rtspPort.toNat
  refine ⟨⟨?_, ?_⟩, ?_, hlib ip config.rtspPort hip⟩
  · exact List.append_ne_nil_of_right_ne_nil _ (isToken_numeral _).1
  · intro c hc
    rcases List.mem_append.mp hc with hc | hc
    · rcases List.mem_append.mp hc with hc | hc
      · exact (List.mem_append.mp hc).elim (hscheme.2.2 c) ((isToken_ip hip).2 c)
      · exact hcolon.2.2 c hc
    · exact (isToken_numeral _).2 c hc
  · have hrest : CleanText (':' :: numeral config.rtspPort.toNat) :=
      hcolon.1.append_last ':' hport (by decide) (by decide)
    have hafter : CleanText (ip ++ ':' :: numeral config.rtspPort.toNat) :=
      (cleanText_ip hip).append_first hrest (by decide)
    have hall := hscheme.1.append_last '/' hafter (by decide) (by decide)
    simp only [List.append_assoc] at hall ⊢
    exact hall

/-- The client goes to the URL of the launch. -/
theorem resolveTargetUrl_sessionUrl (config : ServerConfig) (h : ReachedAt localIp)
    (hostIp : Text) (rtspPort : UInt16) :
    resolveTargetUrl hostIp rtspPort (Launch.sessionUrl config localIp).toList =
      some (Launch.sessionUrl config localIp).toList := by
  have hplain : Launch.PlainText (Launch.sessionUrl config localIp) :=
    Launch.plainText_sessionUrl h.localIpOk
  obtain ⟨ip, -, heq⟩ := sessionUrl_eq config h
  have hother : ∀ c : Char, c ≠ ':' → ∀ scheme rest : Text,
      ¬ "rtsp".toList ++ c :: scheme <+: "rtsp".toList ++ ':' :: rest := by
    intro c hc scheme rest hpre
    have hnext := (List.prefix_append_right_inj _).mp hpre
    exact hc (List.cons_prefix_cons.mp hnext).1
  have hshape : (Launch.sessionUrl config localIp).toList = "rtsp".toList ++ ':' ::
      ("//".toList ++ ip ++ ":".toList ++ numeral config.rtspPort.toNat) := by
    rw [heq]
    simp only [List.append_assoc]
    rfl
  have hscheme : "rtsp://".toList <+: (Launch.sessionUrl config localIp).toList := by
    rw [heq, List.append_assoc, List.append_assoc]
    exact List.prefix_append _ _
  have hne : (Launch.sessionUrl config localIp).toList ≠ [] := by
    rw [hshape]
    exact List.append_ne_nil_of_right_ne_nil _ (List.cons_ne_nil _ _)
  have henc : ¬ "rtspenc://".toList <+: (Launch.sessionUrl config localIp).toList := by
    rw [hshape]
    exact hother 'e' (by decide) "nc://".toList _
  have hru : ¬ "rtspru://".toList <+: (Launch.sessionUrl config localIp).toList := by
    rw [hshape]
    exact hother 'r' (by decide) "u://".toList _
  unfold resolveTargetUrl
  dsimp only
  rw [hplain.trim, if_neg hne, if_neg henc, if_neg hru, if_pos hscheme]

end Url

section Phases

variable {net : Setting} {xml : XmlTypes} {httpPort httpsPort : UInt16} {turn : HttpTurn}

theorem keeps_answerHttp (net : Setting) (httpPort httpsPort : UInt16) (turn : HttpTurn)
    (host : Host) (ask : HttpAsk) :
    Keeps (turn.before ++ [.http ask]) host
      (answerHttp net httpPort httpsPort turn host ask).1 := by
  have hbefore : Keeps turn.before host (turn.before.foldl (Host.step net) host) :=
    keeps_foldl turn.before host
  unfold answerHttp
  dsimp only
  split
  · exact hbefore.trans ⟨rfl, rfl, id, fun _ => rfl⟩
  · exact hbefore.trans (keeps_step _ _)

theorem answerHttp_of_answered (hway : turn.way = .answered)
    (hhttp : httpPort = net.config.httpPort) (hhttps : httpsPort = net.config.httpsPort)
    (host : Host) (ask : HttpAsk) :
    answerHttp net httpPort httpsPort turn host ask =
      ((turn.before.foldl (Host.step net) host).step net (.http ask),
        some (route net.config net.localIp (turn.before.foldl (Host.step net) host).session
          ask).2) := by
  have hreached : Reached net.config httpPort httpsPort ask := by
    unfold Reached
    split
    · exact hhttps
    · exact hhttp
  have hnot : ¬ (turn.way = .lost ∨ ¬ Reached net.config httpPort httpsPort ask) := by
    rw [hway]
    exact not_or.mpr ⟨nofun, not_not.mpr hreached⟩
  unfold answerHttp
  dsimp only
  rw [if_neg hnot, if_pos hway]

theorem reply_of_ne_answered (hway : turn.way ≠ .answered) (host : Host) (ask : HttpAsk) :
    (answerHttp net httpPort httpsPort turn host ask).2 = none := by
  unfold answerHttp
  dsimp only
  rw [if_neg hway]
  split <;> rfl

/-- What the client knows of the host before it asks for a session. -/
def infoOf (config : ServerConfig) : ServerInfo :=
  ⟨Launch.serverInfoAppVersion, Launch.serverInfoGfeVersion, true, 0, config.httpsPort, 1⟩

/-- `/serverinfo`, over HTTPS or else over HTTP. -/
theorem serve_info (identity : Identity) (draws : KeyDraws) (hx : ReadsDocuments xml)
    (hnamed : net.config.Named) (hip : ReachedAt net.localIp)
    (hhttp : httpPort = net.config.httpPort) (hhttps : httpsPort = net.config.httpsPort)
    {https http : HttpTurn} (hway : https.way = .answered ∨ http.way = .answered) (host : Host) :
    ∃ host' ops, Keeps ops host host' ∧
      (Launch.queryServerInfo xml identity httpsPort draws).serve
        (answerHttp net httpPort httpsPort) host [https, http] =
          (some (infoOf net.config), host') := by
  have hreply : ∀ session uuid secure, (route net.config net.localIp session
      (Launch.infoAsk identity uuid secure)).2 = Launch.serverInfo net.config net.localIp :=
    fun _ _ _ => rfl
  have hread : Launch.readServerInfo xml httpsPort (Launch.serverInfo net.config net.localIp) =
      some (infoOf net.config) :=
    Launch.readServerInfo_serverInfo hx hnamed hip.localIpOk httpsPort
  let first := Launch.infoAsk identity (draws.uuid 0) true
  let second := Launch.infoAsk identity (draws.uuid 1) false
  have hkept := keeps_answerHttp net httpPort httpsPort https host first
  unfold Launch.queryServerInfo
  by_cases hfirst : https.way = .answered
  · refine ⟨_, _, hkept, ?_⟩
    rw [Exchange.serve_ask, answerHttp_of_answered hfirst hhttp hhttps]
    dsimp only
    rw [hreply, hread]
    rfl
  · have hsecond := hway.resolve_left hfirst
    rw [Exchange.serve_ask, reply_of_ne_answered hfirst]
    refine ⟨_, _, hkept.trans (keeps_answerHttp net httpPort httpsPort http _ second), ?_⟩
    dsimp only
    rw [Exchange.serve_ask, answerHttp_of_answered hsecond hhttp hhttps]
    dsimp only
    rw [hreply, Option.bind_some, hread]
    rfl

/-- The session that a launch leaves on the host. -/
def sessionOf (draws : KeyDraws) (width height fps : UInt32) : LaunchSession :=
  ⟨draws.rikey, draws.rikeyid, width, height, fps⟩

/-- `/launch`: the host has the key and the mode of the client. -/
theorem serve_launch (identity : Identity) (draws : KeyDraws) (width height fps : UInt32)
    (resume : Bool) (hx : ReadsDocuments xml) (hip : ReachedAt net.localIp)
    (hhttp : httpPort = net.config.httpPort) (hhttps : httpsPort = net.config.httpsPort)
    (hway : turn.way = .answered) (host : Host) :
    ∃ host' ops, Keeps ops host host' ∧ host'.session = some (sessionOf draws width height fps) ∧
      (Launch.launch xml identity draws width height fps resume).serve
        (answerHttp net httpPort httpsPort) host [turn] =
          (some ⟨Launch.sessionUrl net.config net.localIp, draws.rikey, draws.rikeyIv⟩, host') := by
  have hroute : ∀ session, route net.config net.localIp session
      (Launch.launchAsk identity draws width height fps resume) =
        (some (sessionOf draws width height fps), Launch.launchXml net.config net.localIp) := by
    intro session
    unfold sessionOf
    have hsession : Launch.launchSession (Launch.launchParams identity draws width height fps) =
        ⟨draws.rikey, draws.rikeyid, width, height, fps⟩ := Launch.launchSession_launchParams
    rw [← hsession]
    cases resume <;> rfl
  have hread : Launch.readLaunch xml (Launch.launchXml net.config net.localIp) =
      some (Launch.sessionUrl net.config net.localIp) :=
    Launch.readLaunch_launchXml hx hip.localIpOk
  refine ⟨_, _, keeps_answerHttp net httpPort httpsPort turn host
    (Launch.launchAsk identity draws width height fps resume), ?_, ?_⟩
  · rw [answerHttp_of_answered hway hhttp hhttps]
    exact congrArg Prod.fst (hroute _)
  · unfold Launch.launch
    rw [Exchange.serve_ask, answerHttp_of_answered hway hhttp hhttps]
    dsimp only
    rw [hroute, Option.bind_some, hread]
    rfl

end Phases

section Whole

/-- What both sides rest on: their readers, and that the host is where the client looks for it. -/
structure Setup (net : Setting) (xml : XmlTypes) (address hostIp : Text) : Prop where
  lawful : net.Lawful
  hosts : ReadsHosts net.lib
  documents : ReadsDocuments xml
  named : net.config.Named
  reached : ReachedAt net.localIp
  ip : ∃ v, parseIpAddr hostIp = some v
  target : ∃ base, splitHostBase address = (hostIp, base) ∧
    (net.config.httpPort, net.config.httpsPort, net.config.rtspPort) = portsFromBase base

/-- The requests of one start that must not be lost, and what others must not do. -/
structure Undisturbed (lib : RtspTypes) (turns : StartTurns) : Prop where
  info : turns.https.way = .answered ∨ turns.http.way = .answered
  launch : turns.launch.way = .answered
  play : ∀ op ∈ turns.rtsp.play.before, ¬ op.Announces lib

variable {net : Setting} {xml : XmlTypes} {identity : Identity} {draws : KeyDraws}
  {width height fps : UInt32} {allowHevc : Bool} {address hostIp : Text} {turns : StartTurns}
  {host host' : Host}

/-- The parameters of every stream: H.264, whatever the client allows. -/
def cfgOf (width height fps : UInt32) : StreamCfg := ⟨width, height, fps, 20000, packetSize, 0⟩

theorem streamCfg_infoOf (config : ServerConfig) (width height fps : UInt32) (allowHevc : Bool) :
    streamCfg (infoOf config) width height fps allowHevc = cfgOf width height fps := by
  have hnone : pickHevc 1 allowHevc = false := by
    cases allowHevc <;> decide
  unfold streamCfg infoOf
  rw [hnone]
  rfl

/-- How both sides stand when the client goes on to the media: the hook of the host has the
parameters of the client, and its session the key, if none has asked for another since. -/
structure Agreed (draws : KeyDraws) (width height fps : UInt32) (turns : StartTurns)
    (host host' : Host) : Prop where
  session : (∀ op ∈ turns.rtsp.others, ¬ op.Launches) →
    host'.session = some (sessionOf draws width height fps)
  context : host'.rtsp.context = some (contextOf (cfgOf width height fps))
  played : host.rtsp.playHook = true →
    ∃ earlier, host'.rtsp.played = earlier ++ [contextOf (cfgOf width height fps)]

end Whole

section Defaults

theorem readsHosts : ReadsHosts Readers.rtspTypes := by
  intro ip port _
  have hscheme : "rtsp://".toList <+: "rtsp://".toList ++ ip ++ ":".toList ++
      numeral port.toNat := by
    rw [List.append_assoc, List.append_assoc]
    exact List.prefix_append _ _
  refine Option.isSome_iff_exists.mp ?_
  change (Readers.parseUrl ("rtsp://".toList ++ ip ++ ":".toList ++ numeral port.toNat)).isSome
  unfold Readers.parseUrl
  rw [if_pos hscheme]
  rfl

/-- The host as it is set up by default, with readers for both sides. -/
def defaultSetting : Setting where
  lib := Readers.rtspTypes
  sdpLib := Readers.sdpTypes
  replies := RtspReplies.replyTypes
  config := ⟨"KMC Streamhost", "0123456789ABCDEF", 47989, 47984, 48010⟩
  localIp := some "192.168.0.7"

theorem setup_defaultSetting : Setup defaultSetting ⟨Documents.parse⟩
    "192.168.0.7:47989".toList "192.168.0.7".toList where
  lawful := ⟨Readers.grammar, Readers.incremental, Readers.sdpGrammar, RtspReplies.lawful⟩
  hosts := readsHosts
  documents := Documents.readsDocuments
  named := ⟨by decide, by decide⟩
  reached := by
    intro ip hip
    obtain rfl : "192.168.0.7" = ip := Option.some.inj hip
    decide
  ip := ⟨.v4, by decide⟩
  target := ⟨47989, by decide +kernel, by decide⟩

/-- The first request is lost, and another client announces its parameters before this one. -/
def defaultTurns : StartTurns where
  https := { way := .lost }
  rtsp := ⟨{}, { before := [.rtsp [RtspSegments.announced ++ [169]]] }, fun _ => {}, {}, {}⟩

end Defaults

end KmControl.StreamStart
