import KmControl.Documents
import KmControl.MoonPairing
import KmControl.IpLiteral
import KmControl.Readers

/-!
The requests before a stream. The client asks the host what it is and then for a session; with
that request it gives its key and its mode, and it gets the URL for the negotiation.
-/
namespace KmControl.Launch

open Pairing HostPairing MoonPairing Documents Decimal Sdp ByteFields

section Host

structure ServerConfig where
  name : String
  uniqueId : String
  httpPort : UInt16
  httpsPort : UInt16
  rtspPort : UInt16

/-- What a launch leaves for the other parts of the host. -/
structure LaunchSession where
  remoteInputKey : Bytes
  remoteInputKeyId : ℤ
  width : UInt32
  height : UInt32
  refreshRate : UInt32
deriving DecidableEq

def serverInfoAppVersion : String := "7.1.431.-1"

def serverInfoGfeVersion : String := "3.23.0.74"

def number (n : ℕ) : String := String.ofList (numeral n)

/-- Every client counts as paired, and H.264 alone is offered. -/
def serverInfo (config : ServerConfig) (localIp : Option String) : String :=
  rootXml
    [("hostname", escapeXml config.name), ("appversion", serverInfoAppVersion),
      ("GfeVersion", serverInfoGfeVersion), ("uniqueid", config.uniqueId),
      ("HttpsPort", number config.httpsPort.toNat), ("ExternalPort", number config.httpPort.toNat),
      ("mac", "00:00:00:00:00:00"), ("MaxLumaPixelsHEVC", "0"),
      ("LocalIP", escapeXml (localIp.getD "")), ("ServerCodecModeSupport", number 1),
      ("SupportedDisplayMode", ""), ("PairStatus", "1"), ("currentgame", "0"),
      ("state", "KMC_SERVER_FREE")]

def appList : String :=
  "<root status_code=\"200\"><App><IsHdrSupported>0</IsHdrSupported>" ++
    "<AppTitle>Desktop</AppTitle><ID>1</ID></App></root>"

/-- The size and the rate of a mode `WxHxR`. -/
def parseMode (mode : Option String) : UInt32 × UInt32 × UInt32 :=
  match mode.map fun m => m.toList.splitOnP fun c => c = 'x' with
  | some [width, height, refresh] =>
    ((parseU32 width).getD 0, (parseU32 height).getD 0, (parseU32 refresh).getD 60)
  | _ => (0, 0, 60)

def launchSession (params : Params) : LaunchSession :=
  let mode := parseMode (params "mode")
  { remoteInputKey := ((params "rikey").bind hexDecode).getD []
    remoteInputKeyId :=
      ((params "rikeyid").bind fun s => parse (-2 ^ 63) (2 ^ 63 - 1) s.toList).getD 0
    width := mode.1
    height := mode.2.1
    refreshRate := mode.2.2 }

def sessionUrl (config : ServerConfig) (localIp : Option String) : String :=
  "rtsp://" ++ localIp.getD "127.0.0.1" ++ ":" ++ number config.rtspPort.toNat

def launchXml (config : ServerConfig) (localIp : Option String) : String :=
  rootXml [("gamesession", "1"), ("sessionUrl0", sessionUrl config localIp)]

structure HttpAsk where
  https : Bool
  path : String
  params : Params

/-- The answers to the requests that are not for the pairing, and the session after them. -/
def route (config : ServerConfig) (localIp : Option String) (session : Option LaunchSession)
    (ask : HttpAsk) : Option LaunchSession × String :=
  if ask.path = "/serverinfo" then (session, serverInfo config localIp)
  else if ask.https ∧ ask.path = "/applist" then (session, appList)
  else if ask.https ∧ (ask.path = "/launch" ∨ ask.path = "/resume") then
    (some (launchSession ask.params), launchXml config localIp)
  else (session, "not found")

end Host

section Client

structure ServerInfo where
  appVersion : String
  gfeVersion : String
  pairStatus : Bool
  currentGame : ℤ
  httpsPort : UInt16
  codecModeSupport : ℤ
deriving DecidableEq

structure LaunchResult where
  rtspSessionUrl : String
  rikey : Bytes
  rikeyIv : Bytes

/-- The random values of one launch: the key, and the first bytes of its vector. -/
structure KeyDraws where
  rikey : Bytes
  iv : UInt8 × UInt8 × UInt8 × UInt8
  uuid : ℕ → String
  length_rikey : rikey.length = 16

def KeyDraws.rikeyIv (draws : KeyDraws) : Bytes :=
  [draws.iv.1, draws.iv.2.1, draws.iv.2.2.1, draws.iv.2.2.2] ++ List.replicate 12 0

/-- The first bytes of the vector as a signed word. -/
def KeyDraws.rikeyid (draws : KeyDraws) : ℤ :=
  (u32OfBe draws.iv.1 draws.iv.2.1 draws.iv.2.2.1 draws.iv.2.2.2).toBitVec.toInt

variable (xml : XmlTypes)

/-- An integer of an element, within the bounds of its type. -/
def xmlInt (doc : Doc) (tag : String) (lo hi : ℤ) : Option ℤ :=
  (xmlText doc tag).bind fun s => parse lo hi s.toList

def readServerInfo (httpsPort : UInt16) (body : String) : Option ServerInfo :=
  (xml.parse body).map fun doc =>
    { appVersion := (xmlText doc "appversion").getD ""
      gfeVersion := (xmlText doc "GfeVersion").getD ""
      pairStatus := xmlText doc "PairStatus" = some "1"
      currentGame := (xmlInt doc "currentgame" (-2 ^ 63) (2 ^ 63 - 1)).getD 0
      httpsPort := ((xmlInt doc "HttpsPort" 0 (2 ^ 16 - 1)).map fun p =>
        UInt16.ofNat p.toNat).getD httpsPort
      codecModeSupport := (xmlInt doc "ServerCodecModeSupport" (-2 ^ 31) (2 ^ 31 - 1)).getD 0 }

def infoAsk (identity : Identity) (uuid : String) (https : Bool) : HttpAsk :=
  ⟨https, "/serverinfo", collect [("uniqueid", identity.uniqueId), ("uuid", uuid)]⟩

/-- Over HTTPS first, and over HTTP if there is no reply. -/
def queryServerInfo (identity : Identity) (httpsPort : UInt16) (draws : KeyDraws) :
    Exchange HttpAsk (Option String) ServerInfo :=
  .ask (infoAsk identity (draws.uuid 0) true) fun
    | some body => .attempt (readServerInfo xml httpsPort body) .done
    | none => .ask (infoAsk identity (draws.uuid 1) false) fun reply =>
      .attempt (reply.bind (readServerInfo xml httpsPort)) .done

def modeText (width height fps : UInt32) : String :=
  String.ofList (['x'].intercalate [numeral width.toNat, numeral height.toNat, numeral fps.toNat])

def launchParams (identity : Identity) (draws : KeyDraws) (width height fps : UInt32) : Params :=
  collect
    [("uniqueid", identity.uniqueId), ("uuid", draws.uuid 2), ("appid", "1"),
      ("mode", modeText width height fps), ("additionalStates", "1"), ("sops", "0"),
      ("rikey", hexEncode draws.rikey), ("rikeyid", String.ofList (signed draws.rikeyid)),
      ("localAudioPlayMode", "0"), ("surroundAudioInfo", "196610"),
      ("remoteControllersBitmap", "0"), ("gcmap", "0"), ("gcpersist", "0"), ("corever", "1")]

def launchAsk (identity : Identity) (draws : KeyDraws) (width height fps : UInt32)
    (resume : Bool) : HttpAsk :=
  ⟨true, if resume then "/resume" else "/launch", launchParams identity draws width height fps⟩

def readLaunch (body : String) : Option String :=
  (xml.parse body).bind fun doc => xmlText doc "sessionUrl0"

def launch (identity : Identity) (draws : KeyDraws) (width height fps : UInt32) (resume : Bool) :
    Exchange HttpAsk (Option String) LaunchResult :=
  .ask (launchAsk identity draws width height fps resume) fun reply =>
  .attempt (reply.bind (readLaunch xml)) fun url =>
  .done ⟨url, draws.rikey, draws.rikeyIv⟩

end Client

section Texts

/-- A character that stands for itself in documents and is no white space. -/
def isPlainChar (c : Char) : Bool := c.isAlphanum || ['.', '-', ':', '_', '/'].contains c

def PlainText (s : String) : Prop := s.toList.all isPlainChar = true

instance (s : String) : Decidable (PlainText s) := inferInstanceAs (Decidable (_ = true))

theorem visible_of_isPlainChar {c : Char} (h : isPlainChar c = true) :
    RtspMessage.visible c = true := by
  rcases Bool.or_eq_true_iff.mp h with halnum | hmark
  · exact RtspMessage.visible_of_isAlphanum halnum
  · have hmem := List.contains_iff_mem.mp hmark
    simp only [List.mem_cons, List.not_mem_nil, or_false] at hmem
    rcases hmem with rfl | rfl | rfl | rfl | rfl <;> decide

variable {s : String}

theorem PlainText.plain (h : PlainText s) : Plain s := by
  intro c hc hmem
  have hplain := List.all_eq_true.mp h c hmem
  have hnone : "&<>\"".toList.any isPlainChar = false := by decide
  exact absurd (List.any_eq_true.mpr ⟨c, hc, hplain⟩) (by rw [hnone]; exact Bool.false_ne_true)

theorem PlainText.isXmlChar (h : PlainText s) : s.toList.all isXmlChar = true := by
  refine List.all_eq_true.mpr fun c hc => ?_
  have hvisible := of_decide_eq_true (visible_of_isPlainChar (List.all_eq_true.mp h c hc))
  refine decide_eq_true ?_
  omega

theorem PlainText.trim (h : PlainText s) : trim s.toList = s.toList :=
  trim_of_not_isWhitespace fun c hc =>
    Readers.isWhitespace_of_visible (visible_of_isPlainChar (List.all_eq_true.mp h c hc))

theorem plainText_number (n : ℕ) : PlainText (number n) := by
  unfold PlainText number
  rw [String.toList_ofList]
  refine List.all_eq_true.mpr fun c hc => ?_
  have hdigit := isDigit_numeral hc
  unfold isPlainChar Char.isAlphanum
  rw [hdigit, Bool.or_true, Bool.true_or]

theorem plainText_append {s t : String} (hs : PlainText s) (ht : PlainText t) :
    PlainText (s ++ t) := by
  unfold PlainText
  rw [String.toList_append, List.all_append, hs, ht]
  rfl

theorem isPlainChar_of_isHexDigit {c : Char} (h : IpLiteral.isHexDigit c = true) :
    isPlainChar c = true := by
  have hall : ∀ n < 128, IpLiteral.isHexDigit (Char.ofNat n) = true →
      isPlainChar (Char.ofNat n) = true := by decide +kernel
  have hlow : c.toNat < 128 := by
    rcases Bool.or_eq_true_iff.mp h with hleft | hupper
    · rcases Bool.or_eq_true_iff.mp hleft with hdigit | hlower
      · have hbounds : 48 ≤ c.toNat ∧ c.toNat ≤ 57 := Char.isDigit_iff_toNat.mp hdigit
        omega
      · have hbounds := of_decide_eq_true hlower
        omega
    · have hbounds := of_decide_eq_true hupper
      omega
  have hc := hall c.toNat hlow
  rw [Char.ofNat_toNat] at hc
  exact hc h

theorem plainText_ip {v : IpLiteral.IpVersion} (h : IpLiteral.parseIpAddr s.toList = some v) :
    PlainText s := by
  refine List.all_eq_true.mpr fun c hc => ?_
  rcases (IpLiteral.isIpChar_of_parseIpAddr h).2 c hc with hhex | rfl | rfl
  · exact isPlainChar_of_isHexDigit hhex
  · decide
  · decide

/-- The text of an element that is the only one of its name. -/
theorem xmlText_of_mem {doc : Doc} (hdoc : (doc.map Prod.fst).Nodup) {tag : String}
    (hs : PlainText s) (hmem : (tag, some s) ∈ doc) : xmlText doc tag = some s := by
  have hfound := RtspMessage.find?_of_mem hdoc hmem
  unfold xmlText
  rw [hfound, Option.bind_some, Option.map_some, hs.trim, String.ofList_toList]

end Texts

section Replies

variable {xml : XmlTypes} {config : ServerConfig} {localIp : Option String}

/-- Names that documents can have. -/
structure ServerConfig.Named (config : ServerConfig) : Prop where
  name : config.name.toList.all isXmlChar = true
  uniqueId : PlainText config.uniqueId

def LocalIpOk (localIp : Option String) : Prop :=
  ∀ ip ∈ localIp, ∃ v, IpLiteral.parseIpAddr ip.toList = some v

theorem LocalIpOk.plainText (h : LocalIpOk localIp) {fallback : String}
    (hfallback : PlainText fallback) : PlainText (localIp.getD fallback) := by
  cases localIp with
  | none => exact hfallback
  | some ip =>
    obtain ⟨v, hv⟩ := h ip rfl
    exact plainText_ip hv

theorem plainText_sessionUrl (h : LocalIpOk localIp) : PlainText (sessionUrl config localIp) :=
  plainText_append (plainText_append (plainText_append (by decide) (h.plainText (by decide)))
    (by decide)) (plainText_number _)

/-- What `/serverinfo` tells, before it is written. -/
def infoElements (config : ServerConfig) (localIp : Option String) : List (String × String) :=
  [("hostname", config.name), ("appversion", serverInfoAppVersion),
    ("GfeVersion", serverInfoGfeVersion), ("uniqueid", config.uniqueId),
    ("HttpsPort", number config.httpsPort.toNat), ("ExternalPort", number config.httpPort.toNat),
    ("mac", "00:00:00:00:00:00"), ("MaxLumaPixelsHEVC", "0"), ("LocalIP", localIp.getD ""),
    ("ServerCodecModeSupport", number 1), ("SupportedDisplayMode", ""), ("PairStatus", "1"),
    ("currentgame", "0"), ("state", "KMC_SERVER_FREE")]

theorem escapeXml_of_plainText {s : String} (h : PlainText s) : escapeXml s = s :=
  escapeXml_of_plain h.plain

theorem serverInfo_eq (h : config.Named) :
    serverInfo config localIp =
      rootXml ((infoElements config localIp).map fun e => (e.1, escapeXml e.2)) := by
  have happ : escapeXml serverInfoAppVersion = serverInfoAppVersion :=
    escapeXml_of_plainText (by decide)
  have hgfe : escapeXml serverInfoGfeVersion = serverInfoGfeVersion :=
    escapeXml_of_plainText (by decide)
  have hmac : escapeXml "00:00:00:00:00:00" = "00:00:00:00:00:00" :=
    escapeXml_of_plainText (by decide)
  have hstate : escapeXml "KMC_SERVER_FREE" = "KMC_SERVER_FREE" :=
    escapeXml_of_plainText (by decide)
  have hzero : escapeXml "0" = "0" := escapeXml_of_plainText (by decide)
  have hone : escapeXml "1" = "1" := escapeXml_of_plainText (by decide)
  have hnone : escapeXml "" = "" := escapeXml_of_plainText (by decide)
  have hnumber : ∀ n, escapeXml (number n) = number n := fun n =>
    escapeXml_of_plainText (plainText_number n)
  refine congrArg rootXml ?_
  simp only [infoElements, List.map_cons, List.map_nil, happ, hgfe, hmac, hstate, hzero, hone,
    hnone, hnumber, escapeXml_of_plainText h.uniqueId]

theorem elementOk_info (h : config.Named) (hip : LocalIpOk localIp) :
    ∀ e ∈ infoElements config localIp, ElementOk e := by
  have hok : ∀ {tag s : String}, (tag.toList ≠ [] ∧ tag.toList.all Char.isAlphanum = true) →
      s.toList.all isXmlChar = true → ElementOk (tag, s) := fun htag hs => ⟨htag, hs⟩
  have hplain : ∀ {tag s : String}, (tag.toList ≠ [] ∧ tag.toList.all Char.isAlphanum = true) →
      PlainText s → ElementOk (tag, s) := fun htag hs => ⟨htag, hs.isXmlChar⟩
  simp only [infoElements, List.forall_mem_cons]
  refine ⟨hok (by decide) h.name, hplain (by decide) (by decide), hplain (by decide) (by decide),
    hplain (by decide) h.uniqueId, hplain (by decide) (plainText_number _),
    hplain (by decide) (plainText_number _), hplain (by decide) (by decide),
    hplain (by decide) (by decide), hplain (by decide) (hip.plainText (by decide)),
    hplain (by decide) (plainText_number _), hplain (by decide) (by decide),
    hplain (by decide) (by decide), hplain (by decide) (by decide), hplain (by decide) (by decide),
    nofun⟩

/-- The elements of a document that the host writes. -/
def docOf (elements : List (String × String)) : Doc :=
  ("root", none) :: elements.map readElement

theorem xmlText_docOf {elements : List (String × String)}
    (h : ("root" :: elements.map Prod.fst).Nodup) {tag s : String} (hs : PlainText s)
    (hne : s ≠ "") (hmem : (tag, s) ∈ elements) : xmlText (docOf elements) tag = some s := by
  have htags : (docOf elements).map Prod.fst = "root" :: elements.map Prod.fst := by
    unfold docOf
    rw [List.map_cons, List.map_map]
    rfl
  refine xmlText_of_mem (htags ▸ h) hs (List.mem_cons_of_mem _ ?_)
  refine List.mem_map.mpr ⟨_, hmem, ?_⟩
  unfold readElement
  rw [if_neg hne]

theorem parse_serverInfo (hx : ReadsDocuments xml) (h : config.Named) (hip : LocalIpOk localIp) :
    xml.parse (serverInfo config localIp) = some (docOf (infoElements config localIp)) := by
  rw [serverInfo_eq h]
  exact hx _ (elementOk_info h hip)

theorem number_ne (n : ℕ) : number n ≠ "" := by
  intro h
  have hdigits : numeral n = [] := by
    have hlist := congrArg String.toList h
    unfold number at hlist
    rwa [String.toList_ofList] at hlist
  exact Nat.toDigits_ne_nil hdigits

theorem parse_number {lo hi : ℤ} {n : ℕ} (hlo : lo ≤ 0) (hhi : (n : ℤ) ≤ hi) :
    parse lo hi (number n).toList = some (n : ℤ) := by
  have hsigned : signed (n : ℤ) = numeral n := by
    unfold signed
    rw [if_neg (by omega), Int.natAbs_natCast]
  unfold number
  rw [String.toList_ofList, ← hsigned, parse_signed (by omega) hhi]

/-- The client reads of the host what the host is. -/
theorem readServerInfo_serverInfo (hx : ReadsDocuments xml) (h : config.Named)
    (hip : LocalIpOk localIp) (httpsPort : UInt16) :
    readServerInfo xml httpsPort (serverInfo config localIp) =
      some ⟨serverInfoAppVersion, serverInfoGfeVersion, true, 0, config.httpsPort, 1⟩ := by
  have htags : ("root" :: (infoElements config localIp).map Prod.fst).Nodup := by
    unfold infoElements
    simp only [List.map_cons, List.map_nil]
    decide +kernel
  have hread : ∀ {tag s : String}, PlainText s → s ≠ "" → (tag, s) ∈ infoElements config localIp →
      xmlText (docOf (infoElements config localIp)) tag = some s := fun hs hne hmem =>
    xmlText_docOf htags hs hne hmem
  have happ : xmlText (docOf (infoElements config localIp)) "appversion" =
      some serverInfoAppVersion := hread (by decide) (by decide) (by simp [infoElements])
  have hgfe : xmlText (docOf (infoElements config localIp)) "GfeVersion" =
      some serverInfoGfeVersion := hread (by decide) (by decide) (by simp [infoElements])
  have hpaired : xmlText (docOf (infoElements config localIp)) "PairStatus" = some "1" :=
    hread (by decide) (by decide) (by simp [infoElements])
  have hgame : xmlText (docOf (infoElements config localIp)) "currentgame" = some "0" :=
    hread (by decide) (by decide) (by simp [infoElements])
  have hport : xmlText (docOf (infoElements config localIp)) "HttpsPort" =
      some (number config.httpsPort.toNat) :=
    hread (plainText_number _) (number_ne _) (by simp [infoElements])
  have hcodec : xmlText (docOf (infoElements config localIp)) "ServerCodecModeSupport" =
      some (number 1) := hread (plainText_number _) (number_ne _) (by simp [infoElements])
  have hlt := config.httpsPort.toNat_lt
  have hzero : parse (-2 ^ 63) (2 ^ 63 - 1) "0".toList = some 0 := by decide
  unfold readServerInfo xmlInt
  rw [parse_serverInfo hx h hip, Option.map_some, happ, hgfe, hpaired, hgame, hport, hcodec]
  simp only [Option.bind_some, Option.getD_some, decide_true, hzero]
  rw [parse_number (by decide) (by omega), parse_number (by decide) (by decide), Option.map_some,
    Option.getD_some, Option.getD_some, Int.toNat_natCast, UInt16.ofNat_toNat]
  rfl

theorem readLaunch_launchXml (hx : ReadsDocuments xml) (hip : LocalIpOk localIp) :
    readLaunch xml (launchXml config localIp) = some (sessionUrl config localIp) := by
  have hurl : PlainText (sessionUrl config localIp) := plainText_sessionUrl hip
  let elements := [("gamesession", "1"), ("sessionUrl0", sessionUrl config localIp)]
  have hshape : launchXml config localIp =
      rootXml (elements.map fun e => (e.1, escapeXml e.2)) := by
    have hone : escapeXml "1" = "1" := escapeXml_of_plainText (by decide)
    simp only [launchXml, elements, List.map_cons, List.map_nil, hone,
      escapeXml_of_plainText hurl]
  have hok : ∀ e ∈ elements, ElementOk e := by
    simp only [elements, List.forall_mem_cons]
    have htag : "sessionUrl0".toList ≠ [] ∧ "sessionUrl0".toList.all Char.isAlphanum = true := by
      decide
    exact ⟨⟨by decide, by decide⟩, ⟨htag, hurl.isXmlChar⟩, nofun⟩
  have htags : ("root" :: elements.map Prod.fst).Nodup := by
    simp only [elements, List.map_cons, List.map_nil]
    decide +kernel
  have hne : sessionUrl config localIp ≠ "" := by
    intro heq
    have hlist := congrArg String.toList heq
    simp [sessionUrl] at hlist
  have htext : xmlText (docOf elements) "sessionUrl0" = some (sessionUrl config localIp) :=
    xmlText_docOf htags hurl hne (by simp [elements])
  unfold readLaunch
  rw [hshape, hx elements hok]
  exact htext

end Replies

section Sessions

variable {identity : Identity} {draws : KeyDraws} {width height fps : UInt32}

theorem parseMode_modeText :
    parseMode (some (modeText width height fps)) = (width, height, fps) := by
  have hfree : ∀ n, ∀ c ∈ numeral n, decide (c = 'x') = false := by
    intro n c hc
    refine decide_eq_false ?_
    rintro rfl
    exact absurd (isDigit_numeral hc) (by decide)
  have hshape : (modeText width height fps).toList = numeral width.toNat ++ 'x' ::
      (numeral height.toNat ++ 'x' :: numeral fps.toNat) := by
    unfold modeText
    rw [String.toList_ofList, List.intercalate_cons_cons, List.intercalate_cons_cons,
      List.intercalate_singleton, List.append_assoc, List.append_assoc]
    rfl
  unfold parseMode
  rw [Option.map_some, hshape,
    List.splitOnP_append_cons_of_forall_mem (hfree _) 'x' (decide_eq_true rfl),
    List.splitOnP_append_cons_of_forall_mem (hfree _) 'x' (decide_eq_true rfl),
    List.splitOnP_eq_singleton (hfree _)]
  dsimp only
  rw [parseU32_numeral, parseU32_numeral, parseU32_numeral]
  rfl

/-- The host takes from the request what the client has put into it. -/
theorem launchSession_launchParams :
    launchSession (launchParams identity draws width height fps) =
      ⟨draws.rikey, draws.rikeyid, width, height, fps⟩ := by
  have hmode : launchParams identity draws width height fps "mode" =
      some (modeText width height fps) := by simp [launchParams, collect]
  have hkey : launchParams identity draws width height fps "rikey" =
      some (hexEncode draws.rikey) := by simp [launchParams, collect]
  have hid : launchParams identity draws width height fps "rikeyid" =
      some (String.ofList (signed draws.rikeyid)) := by simp [launchParams, collect]
  have hbounds : -2 ^ 63 ≤ draws.rikeyid ∧ draws.rikeyid ≤ 2 ^ 63 - 1 := by
    have hlow := BitVec.toInt_lt (x := (u32OfBe draws.iv.1 draws.iv.2.1 draws.iv.2.2.1
      draws.iv.2.2.2).toBitVec)
    have hhigh := BitVec.le_toInt (u32OfBe draws.iv.1 draws.iv.2.1 draws.iv.2.2.1
      draws.iv.2.2.2).toBitVec
    unfold KeyDraws.rikeyid
    omega
  unfold launchSession
  rw [hmode, hkey, hid, parseMode_modeText, Option.bind_some, Option.bind_some,
    hexDecode_hexEncode, String.toList_ofList, parse_signed hbounds.1 hbounds.2]
  rfl

end Sessions

end KmControl.Launch
