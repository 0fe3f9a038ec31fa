import KmControl.Exchange
import KmControl.HostPairing

/-!
The pairing on the side of the client. The replies are checked one after the other; the
hash that comes with the second is not among the things that are checked.
-/
namespace KmControl.MoonPairing

open Pairing HostPairing

structure Identity where
  certPem : String
  keyPem : String
  uniqueId : String

/-- Where the host is, and the certificate that it is known by. -/
structure PairedHost where
  address : String
  httpPort : UInt16
  httpsPort : UInt16
  rtspPort : UInt16
  serverCertPem : String

structure Address where
  address : String
  httpPort : UInt16
  httpsPort : UInt16

/-- The random values of one pairing. -/
structure Randoms where
  salt : Bytes
  challenge : Bytes
  secret : Bytes
  uuid : ℕ → String
  length_salt : salt.length = 16
  length_challenge : challenge.length = 16
  length_secret : secret.length = 16

def defaultRtspPort : UInt16 := 48010

section Replies

variable (c : Crypto) (xml : XmlTypes)

/-- The document of a reply that says so. -/
def confirmed (body : String) : Option Doc :=
  (xml.parse body).filter fun doc => xmlText doc "paired" = some "1"

/-- The bytes of an element. -/
def hexText (doc : Doc) (tag : String) : Option Bytes := (xmlText doc tag).bind hexDecode

def readServerCert (body : String) : Option String :=
  (confirmed xml body).bind fun doc => (hexText doc "plaincert").bind fromUtf8

/-- The hash of the host and its challenge, which have 48 bytes. -/
def readChallengeResponse (key : Bytes) (body : String) : Option Bytes :=
  ((xml.parse body).bind fun doc => (hexText doc "challengeresponse").bind fun bytes =>
    aesEcbDecrypt c bytes key).filter fun chresp => decide (48 ≤ chresp.length)

/-- The secret of the host and its signature, made with the key of the certificate that
the host has sent. -/
def readPairingSecret (serverCertPem body : String) : Option Bytes :=
  ((xml.parse body).bind fun doc => hexText doc "pairingsecret").filter fun secret =>
    decide (16 ≤ secret.length) && c.rsaVerify serverCertPem (secret.take 16) (secret.drop 16)

variable {c xml}

theorem utf8_ne_nil {t : String} (h : t ≠ "") : utf8 t ≠ [] := fun heq => by
  have hsame := fromUtf8_utf8 t
  have hempty : fromUtf8 [] = some "" := fromUtf8_utf8 ""
  rw [heq, hempty] at hsame
  exact h (Option.some.inj hsame).symm

theorem xmlText_paired {doc : Doc}
    (h : (doc.find? fun n => n.1 = "paired") = some ("paired", some "1")) :
    xmlText doc "paired" = some "1" := by
  unfold xmlText
  rw [h]
  decide

theorem xmlText_hex {doc : Doc} {tag : String} {l : Bytes}
    (h : (doc.find? fun n => n.1 = tag) = some (tag, some (hexEncode l))) :
    hexText doc tag = some l := by
  have htrim : Decimal.trim (hexEncode l).toList = (hexEncode l).toList :=
    Decimal.trim_of_not_isWhitespace fun _ hc => not_isWhitespace_of_mem_hexEncode hc
  unfold hexText xmlText
  rw [h, Option.bind_some, Option.map_some, htrim, String.ofList_toList, Option.bind_some,
    hexDecode_hexEncode]

/-- A reply that carries bytes is read as these bytes. -/
theorem parse_element (hx : xml.Lawful) {tag : String}
    (htag : tag ∈ ["plaincert", "challengeresponse", "pairingsecret"]) {l : Bytes} (hl : l ≠ []) :
    ∃ doc, xml.parse (pairedXml (element (tag, hexEncode l))) = some doc ∧
      xmlText doc "paired" = some "1" ∧ hexText doc tag = some l := by
  obtain ⟨text, hparse⟩ := hx.element tag htag l hl
  refine ⟨_, hparse, xmlText_paired (by simp), xmlText_hex ?_⟩
  simp only [List.mem_cons, List.not_mem_nil, or_false] at htag
  rcases htag with rfl | rfl | rfl <;> simp

theorem confirmed_pairedXml (hx : xml.Lawful) : ∃ doc, confirmed xml (pairedXml "") = some doc := by
  obtain ⟨text, hparse⟩ := hx.paired
  exact ⟨_, Option.filter_eq_some_iff.mpr ⟨hparse, decide_eq_true (xmlText_paired (by simp))⟩⟩

theorem readServerCert_element (hx : xml.Lawful) {certPem : String} (h : certPem ≠ "") :
    readServerCert xml (pairedXml (element ("plaincert", hexEncode (utf8 certPem)))) =
      some certPem := by
  obtain ⟨doc, hparse, hpaired, htext⟩ := parse_element hx (by simp : "plaincert" ∈ _)
    (utf8_ne_nil h)
  have hdoc : confirmed xml (pairedXml (element ("plaincert", hexEncode (utf8 certPem)))) =
      some doc := Option.filter_eq_some_iff.mpr ⟨hparse, decide_eq_true hpaired⟩
  unfold readServerCert
  rw [hdoc, Option.bind_some, htext, Option.bind_some, fromUtf8_utf8]

theorem readChallengeResponse_element (hx : xml.Lawful) {key cipher chresp : Bytes}
    (h : aesEcbDecrypt c cipher key = some chresp) (hlen : 48 ≤ chresp.length) :
    readChallengeResponse c xml key
      (pairedXml (element ("challengeresponse", hexEncode cipher))) = some chresp := by
  have hne : cipher ≠ [] := by
    rintro rfl
    obtain rfl := Option.some.inj h
    cases hlen
  obtain ⟨doc, hparse, -, htext⟩ := parse_element hx (by simp : "challengeresponse" ∈ _) hne
  unfold readChallengeResponse
  rw [hparse, Option.bind_some, htext, Option.bind_some, h, Option.filter_some,
    if_pos (decide_eq_true hlen)]

theorem readPairingSecret_element (hx : xml.Lawful) {certPem : String} {secret signature : Bytes}
    (hlen : secret.length = 16) (h : c.rsaVerify certPem secret signature = true) :
    readPairingSecret c xml certPem
      (pairedXml (element ("pairingsecret", hexEncode (secret ++ signature)))) =
        some (secret ++ signature) := by
  have hne : secret ++ signature ≠ [] := by
    intro heq
    rw [(List.append_eq_nil_iff.mp heq).1] at hlen
    cases hlen
  obtain ⟨doc, hparse, -, htext⟩ := parse_element hx (by simp : "pairingsecret" ∈ _) hne
  have hlong : 16 ≤ (secret ++ signature).length := by
    rw [List.length_append]
    omega
  unfold readPairingSecret
  rw [hparse, Option.bind_some, htext, Option.filter_some, List.take_left' hlen,
    List.drop_left' hlen, h, decide_eq_true hlong]
  rfl

end Replies

section Requests

variable (identity : Identity) (rand : Randoms)

def request (stage : ℕ) (more : List (String × String)) : Params :=
  collect ([("uniqueid", identity.uniqueId), ("uuid", rand.uuid stage), ("devicename", "roth"),
    ("updateState", "1")] ++ more)

def getServerCert : Params :=
  request identity rand 1 [("phrase", "getservercert"), ("salt", hexEncode rand.salt),
    ("clientcert", hexEncode (utf8 identity.certPem))]

def clientChallenge (encChallenge : Bytes) : Params :=
  request identity rand 2 [("clientchallenge", hexEncode encChallenge)]

def serverChallengeResp (encHash : Bytes) : Params :=
  request identity rand 3 [("serverchallengeresp", hexEncode encHash)]

def clientPairingSecret (signed : Bytes) : Params :=
  request identity rand 4 [("clientpairingsecret", hexEncode (rand.secret ++ signed))]

def pairChallenge : Params := request identity rand 5 [("phrase", "pairchallenge")]

/-- What the client encrypts has whole blocks. -/
theorem encrypt_challenge (c : Crypto) (rand : Randoms) (key : Bytes) :
    ∃ enc, aesEcbEncrypt c rand.challenge key = some enc :=
  ⟨_, if_pos (by rw [rand.length_challenge])⟩

theorem encrypt_hash {c : Crypto} (hc : c.Lawful) (data key : Bytes) :
    ∃ enc, aesEcbEncrypt c (c.sha256 data) key = some enc :=
  ⟨_, if_pos (by rw [hc.length_sha256])⟩

end Requests

section Pair

variable (c : Crypto) (xml : XmlTypes) (identity : Identity) (addr : Address) (pin : String)
  (rand : Randoms)

/-- The hash that the host compares in the end. -/
def challengeHash (chresp certSig : Bytes) : Bytes :=
  c.sha256 ((chresp.drop 32).take 16 ++ certSig ++ rand.secret)

def pairedHost (serverCertPem : String) : PairedHost :=
  ⟨addr.address, addr.httpPort, addr.httpsPort, defaultRtspPort, serverCertPem⟩

/-- The five stages. The first 32 bytes of `chresp`, which only a host with the PIN can
have made, are not looked at; nor is the fourth reply. -/
def pair : Exchange Params String PairedHost :=
  let key := deriveKey c rand.salt pin
  .ask (getServerCert identity rand) fun body =>
  .attempt (readServerCert xml body) fun serverCertPem =>
  .attempt (aesEcbEncrypt c rand.challenge key) fun encChallenge =>
  .ask (clientChallenge identity rand encChallenge) fun body =>
  .attempt (readChallengeResponse c xml key body) fun chresp =>
  .attempt (c.certSignature identity.certPem) fun certSig =>
  .attempt (aesEcbEncrypt c (challengeHash c rand chresp certSig) key) fun encHash =>
  .ask (serverChallengeResp identity rand encHash) fun body =>
  .attempt (readPairingSecret c xml serverCertPem body) fun _ =>
  .attempt (c.rsaSign identity.keyPem rand.secret) fun signed =>
  .ask (clientPairingSecret identity rand signed) fun _ =>
  .ask (pairChallenge identity rand) fun body =>
  .attempt (confirmed xml body) fun _ =>
  .done (pairedHost addr serverCertPem)

end Pair

end KmControl.MoonPairing
