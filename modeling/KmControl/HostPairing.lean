import KmControl.PairedState
import KmControl.Pairing

/-!
The pairing on the side of the host. A table keeps what is known of each client that is
being paired; every request is taken apart, changes the entry of its client and is
answered, in any order. A client whose hash and signature agree is added to the paired ones.
-/
namespace KmControl.HostPairing

open Pairing PairedState

section Requests

/-- The parameters of a request by their names. -/
abbrev Params := String → Option String

/-- What the pairs of a query give; a later pair replaces an earlier one. -/
def collect (query : List (String × String)) : Params := fun name =>
  (query.reverse.find? fun p => p.1 = name).map Prod.snd

inductive Command where
  | getServerCert (id pem : String) (salt : Bytes)
  | pairChallenge
  | clientChallenge (id : String) (challenge : Bytes)
  | serverChallengeResp (id : String) (response : Bytes)
  | clientPairingSecret (id : String) (secret : Bytes)
deriving DecidableEq

/-- The client that a command names. -/
def Command.clientId : Command → Option String
  | .getServerCert id _ _ | .clientChallenge id _ | .serverChallengeResp id _
  | .clientPairingSecret id _ => some id
  | .pairChallenge => none

def parseGetServerCert (params : Params) : Option Command := do
  let pem ← ((params "clientcert").bind hexDecode).bind fromUtf8
  let id ← params "uniqueid"
  let salt ← (params "salt").bind hexDecode
  if salt.length = 16 then some (.getServerCert id pem salt) else none

/-- A command with an id and bytes in digits. -/
def parseBytes (make : String → Bytes → Command) (params : Params) (name : String) :
    Option Command := do
  let id ← params "uniqueid"
  let bytes ← (params name).bind hexDecode
  some (make id bytes)

/-- What a request asks for, by its phrase or by the parameter it has. -/
def parseCommand (params : Params) : Option Command :=
  match params "phrase" with
  | some phrase =>
    if phrase = "getservercert" then parseGetServerCert params
    else if phrase = "pairchallenge" then some .pairChallenge
    else none
  | none =>
    if (params "clientchallenge").isSome then
      parseBytes .clientChallenge params "clientchallenge"
    else if (params "serverchallengeresp").isSome then
      parseBytes .serverChallengeResp params "serverchallengeresp"
    else if (params "clientpairingsecret").isSome then
      parseBytes .clientPairingSecret params "clientpairingsecret"
    else none

theorem clientId_of_parseBytes {make : String → Bytes → Command} {params : Params} {name : String}
    {command : Command} (hmake : ∀ id bytes, (make id bytes).clientId = some id)
    (h : parseBytes make params name = some command) : command.clientId = params "uniqueid" := by
  obtain ⟨id, hid, h⟩ := Option.bind_eq_some_iff.mp h
  obtain ⟨bytes, -, h⟩ := Option.bind_eq_some_iff.mp h
  obtain rfl := Option.some.inj h
  rw [hmake, hid]

/-- A command names the client that the request names, if it names one. -/
theorem clientId_of_parseCommand {params : Params} {command : Command} {id : String}
    (h : parseCommand params = some command) (hid : command.clientId = some id) :
    params "uniqueid" = some id := by
  unfold parseCommand at h
  split at h
  · split at h
    · obtain ⟨pem, -, h⟩ := Option.bind_eq_some_iff.mp h
      obtain ⟨id', hid', h⟩ := Option.bind_eq_some_iff.mp h
      obtain ⟨salt, -, h⟩ := Option.bind_eq_some_iff.mp h
      split at h
      · obtain rfl := Option.some.inj h
        exact hid'.trans hid
      · cases h
    · split at h
      · obtain rfl := Option.some.inj h
        cases hid
      · cases h
  · split at h
    · exact (clientId_of_parseBytes (fun _ _ => rfl) h).symm.trans hid
    · split at h
      · exact (clientId_of_parseBytes (fun _ _ => rfl) h).symm.trans hid
      · split at h
        · exact (clientId_of_parseBytes (fun _ _ => rfl) h).symm.trans hid
        · cases h

end Requests

section Manager

/-- What is known of a client that is being paired. -/
structure PendingClient where
  pem : String
  salt : Bytes
  key : Option Bytes := none
  serverSecret : Option Bytes := none
  serverChallenge : Option Bytes := none
  clientHash : Option Bytes := none

/-- The certificate of the host and its key. -/
structure Server where
  serverCertPem : String
  serverKeyPem : String

/-- The random bytes that a challenge draws. -/
structure Draws where
  secret : Bytes
  challenge : Bytes
  length_secret : secret.length = 16
  length_challenge : challenge.length = 16

/-- The table of the clients that are being paired, and the paired ones. -/
structure HostState where
  pending : SortedMap String PendingClient
  paired : PairedState.State

variable (c : Crypto) (server : Server)

def HostState.setPending (s : HostState) (id : String) (client : PendingClient) : HostState :=
  { s with pending := s.pending.insert id client }

def registerPin (s : HostState) (id pin : String) : Option HostState :=
  (s.pending.find? id).map fun client =>
    s.setPending id { client with key := some (deriveKey c client.salt pin) }

/-- The answer to a challenge is the hash that the secret goes into, and a challenge in
return. The secret is drawn before anything can fail. -/
def PendingClient.clientChallenge (client : PendingClient) (challenge : Bytes) (draws : Draws) :
    PendingClient × Option Bytes :=
  match client.key with
  | none => (client, none)
  | some key =>
    match aesEcbDecrypt c challenge key, c.certSignature server.serverCertPem with
    | some decrypted, some certSig =>
      ({ client with serverSecret := some draws.secret, serverChallenge := some draws.challenge },
        aesEcbEncrypt c (c.sha256 (decrypted ++ certSig ++ draws.secret) ++ draws.challenge) key)
    | _, _ => ({ client with serverSecret := some draws.secret }, none)

/-- The hash of the client is kept, and the secret goes out with a signature. -/
def PendingClient.serverChallengeResponse (client : PendingClient) (response : Bytes) :
    PendingClient × Option Bytes :=
  match client.key with
  | none => (client, none)
  | some key =>
    match aesEcbDecrypt c response key with
    | none => (client, none)
    | some decrypted =>
      ({ client with clientHash := some decrypted }, client.serverSecret.bind fun secret =>
        (c.rsaSign server.serverKeyPem secret).map fun signature => secret ++ signature)

/-- The secret of the client goes into the hash that it has sent, and is signed by it. -/
def PendingClient.verifyPairingSecret (client : PendingClient) (secret : Bytes) : Bool :=
  match client.clientHash, client.serverChallenge, c.certSignature client.pem with
  | some hash, some challenge, some certSig =>
    decide (16 ≤ secret.length) &&
      decide (c.sha256 (challenge ++ certSig ++ secret.take 16) = hash) &&
      c.rsaVerify client.pem (secret.take 16) (secret.drop 16)
  | _, _, _ => false

/-- An entry of the table changes and gives bytes to answer with. -/
def HostState.update (s : HostState) (id : String)
    (f : PendingClient → PendingClient × Option Bytes) : HostState × Option Bytes :=
  match s.pending.find? id with
  | none => (s, none)
  | some client => (s.setPending id (f client).1, (f client).2)

/-- The client that a secret confirms. -/
def HostState.confirmed (s : HostState) (id : String) (secret : Bytes) :
    Option PairedState.Client :=
  (s.pending.find? id).bind fun client =>
    if client.verifyPairingSecret c secret then
      (c.certFingerprint client.pem).map fun fingerprint => ⟨id, fingerprint, client.pem⟩
    else none

def HostState.checkClientPairingSecret (s : HostState) (id : String) (secret : Bytes)
    (outcome : PairedState.Outcome) : HostState × Bool :=
  match s.confirmed c id secret with
  | none => (s, false)
  | some client => ({ s with paired := addPaired s.paired client outcome }, outcome.ok)

variable {c} {s : HostState} {id : String}

theorem find?_setPending (s : HostState) (id id' : String) (client : PendingClient) :
    (s.setPending id client).pending.find? id' =
      if id' = id then some client else s.pending.find? id' :=
  SortedMap.find?_insert _ _ _ _

theorem find?_update (s : HostState) (id id' : String)
    (f : PendingClient → PendingClient × Option Bytes) :
    (s.update id f).1.pending.find? id' =
      if id' = id then (s.pending.find? id).map fun client => (f client).1
      else s.pending.find? id' := by
  unfold HostState.update
  cases h : s.pending.find? id with
  | none =>
    by_cases hid : id' = id
    · rw [if_pos hid, hid, h]
      rfl
    · rw [if_neg hid]
  | some client => exact find?_setPending s id id' _

theorem paired_update (s : HostState) (id : String)
    (f : PendingClient → PendingClient × Option Bytes) : (s.update id f).1.paired = s.paired := by
  unfold HostState.update
  split <;> rfl

theorem find?_registerPin (s : HostState) (id id' pin : String) :
    ((registerPin c s id pin).getD s).pending.find? id' =
      if id' = id then (s.pending.find? id).map fun client =>
        { client with key := some (deriveKey c client.salt pin) }
      else s.pending.find? id' := by
  unfold registerPin
  cases h : s.pending.find? id with
  | none =>
    by_cases hid : id' = id
    · rw [if_pos hid, hid]
      exact h
    · rw [if_neg hid]
      rfl
  | some client => exact find?_setPending s id id' _

theorem paired_registerPin (s : HostState) (id pin : String) :
    ((registerPin c s id pin).getD s).paired = s.paired := by
  unfold registerPin
  cases s.pending.find? id <;> rfl

theorem pending_checkClientPairingSecret (s : HostState) (id : String) (secret : Bytes)
    (outcome : PairedState.Outcome) :
    (s.checkClientPairingSecret c id secret outcome).1.pending = s.pending := by
  unfold HostState.checkClientPairingSecret
  split <;> rfl

end Manager

section Steps

variable (c : Crypto) (server : Server)

/-- The reply that carries bytes, if there are any. -/
def replyWith (tag : String) : Option Bytes → String
  | none => badRequest
  | some bytes => pairedXml (element (tag, hexEncode bytes))

/-- A command changes the state and is answered; `outcome` is that of the write of the file. -/
def handle (s : HostState) (draws : Draws) (outcome : PairedState.Outcome) :
    Command → HostState × String
  | .getServerCert id pem salt => (s.setPending id { pem := pem, salt := salt },
      pairedXml (element ("plaincert", hexEncode (utf8 server.serverCertPem))))
  | .pairChallenge => (s, pairedXml "")
  | .clientChallenge id challenge =>
    let result := s.update id fun client => client.clientChallenge c server challenge draws
    (result.1, replyWith "challengeresponse" result.2)
  | .serverChallengeResp id response =>
    let result := s.update id fun client => client.serverChallengeResponse c server response
    (result.1, replyWith "pairingsecret" result.2)
  | .clientPairingSecret id secret =>
    let result := s.checkClientPairingSecret c id secret outcome
    (result.1, if result.2 then pairedXml "" else badRequest)

def handlePair (s : HostState) (params : Params) (draws : Draws) (outcome : PairedState.Outcome) :
    HostState × String :=
  match parseCommand params with
  | none => (s, badRequest)
  | some command => handle c server s draws outcome command

/-- The form of the PIN page. -/
def submitPin (s : HostState) (form : Params) : HostState :=
  match form "uniqueid", form "pin" with
  | some id, some pin => (registerPin c s id pin).getD s
  | _, _ => s

inductive Op where
  | request (params : Params) (draws : Draws) (outcome : PairedState.Outcome)
  | submitPin (form : Params)

def step (s : HostState) : Op → HostState
  | .request params draws outcome => (handlePair c server s params draws outcome).1
  | .submitPin form => submitPin c s form

/-- The host, with what was paired when it started. -/
def machine (stored : Option PairedState.StateData) : Machine HostState Op :=
  ⟨⟨SortedMap.empty, PairedState.State.load stored⟩, step c server⟩

end Steps

end KmControl.HostPairing
