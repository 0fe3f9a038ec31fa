import KmControl.PairingLink
import KmControl.PairingLog

/-!
A client and the host together. The requests of the client are answered one after the
other, with other requests and other PINs in between; where none of these is for the
client, it is paired.
-/
namespace KmControl.PairingRun

open Pairing HostPairing MoonPairing PairingLink PairingLog

section Requests

variable (identity : Identity) (rand : Randoms)

theorem parse_getServerCert : parseCommand (getServerCert identity rand) =
    some (.getServerCert identity.uniqueId identity.certPem rand.salt) := by
  simp [parseCommand, parseGetServerCert, getServerCert, request, collect, rand.length_salt]

theorem parse_clientChallenge (bytes : Bytes) : parseCommand (clientChallenge identity rand bytes) =
    some (.clientChallenge identity.uniqueId bytes) := by
  simp [parseCommand, parseBytes, clientChallenge, request, collect]

theorem parse_serverChallengeResp (bytes : Bytes) :
    parseCommand (serverChallengeResp identity rand bytes) =
      some (.serverChallengeResp identity.uniqueId bytes) := by
  simp [parseCommand, parseBytes, serverChallengeResp, request, collect]

theorem parse_clientPairingSecret (bytes : Bytes) :
    parseCommand (clientPairingSecret identity rand bytes) =
      some (.clientPairingSecret identity.uniqueId (rand.secret ++ bytes)) := by
  simp [parseCommand, parseBytes, clientPairingSecret, request, collect]

theorem parse_pairChallenge : parseCommand (pairChallenge identity rand) = some .pairChallenge := by
  simp [parseCommand, pairChallenge, request, collect]

end Requests

section Between

variable {c : Crypto} {server : Server} {s : HostState} {id pin : String} {op : Op}
  {ops : List Op} {client : PendingClient}

/-- No request of this client. -/
def NoRequest (id : String) : Op → Prop
  | .request params _ _ => params "uniqueid" ≠ some id
  | .submitPin _ => True

/-- No request of this client, nor another PIN for it. -/
def Quiet (id pin : String) : Op → Prop
  | .request params _ _ => params "uniqueid" ≠ some id
  | .submitPin form => form "uniqueid" = some id → ∀ p, form "pin" = some p → p = pin

/-- The PIN is the last that is entered for the client, which makes no request. -/
def Entered (id pin : String) (ops : List Op) : Prop :=
  ∃ earlier form later, ops = earlier ++ .submitPin form :: later ∧
    (∀ op ∈ earlier, NoRequest id op) ∧ form "uniqueid" = some id ∧ form "pin" = some pin ∧
    ∀ op ∈ later, Quiet id pin op

theorem Quiet.noRequest (h : Quiet id pin op) : NoRequest id op := by
  cases op with
  | request params draws outcome => exact h
  | submitPin form => trivial

theorem find?_handle_of_ne {draws : Draws} {outcome : PairedState.Outcome} {command : Command}
    (h : command.clientId ≠ some id) :
    (handle c server s draws outcome command).1.pending.find? id = s.pending.find? id := by
  cases command with
  | getServerCert id' pem salt =>
    change (s.setPending id' _).pending.find? id = _
    rw [find?_setPending, if_neg fun heq => h (congrArg some heq.symm)]
  | pairChallenge => rfl
  | clientChallenge id' challenge =>
    change (s.update id' _).1.pending.find? id = _
    rw [find?_update, if_neg fun heq => h (congrArg some heq.symm)]
  | serverChallengeResp id' response =>
    change (s.update id' _).1.pending.find? id = _
    rw [find?_update, if_neg fun heq => h (congrArg some heq.symm)]
  | clientPairingSecret id' secret =>
    change (s.checkClientPairingSecret c id' secret outcome).1.pending.find? id = _
    rw [pending_checkClientPairingSecret]

theorem find?_request_of_ne {params : Params} {draws : Draws} {outcome : PairedState.Outcome}
    (h : params "uniqueid" ≠ some id) :
    (step c server s (.request params draws outcome)).pending.find? id = s.pending.find? id := by
  change (handlePair c server s params draws outcome).1.pending.find? id = _
  unfold handlePair
  cases hcommand : parseCommand params with
  | none => rfl
  | some command =>
    exact find?_handle_of_ne fun hid => h (clientId_of_parseCommand hcommand hid)

/-- Without a request of the client only the key of its entry changes. -/
theorem find?_noRequest (h : NoRequest id op) (hfind : s.pending.find? id = some client) :
    ∃ key, (step c server s op).pending.find? id = some { client with key := key } := by
  cases op with
  | request params draws outcome =>
    rw [find?_request_of_ne h]
    exact ⟨client.key, hfind⟩
  | submitPin form =>
    change ∃ key, (submitPin c s form).pending.find? id = some { client with key := key }
    unfold submitPin
    split
    · rename_i id' pin' _ _
      rw [find?_registerPin]
      by_cases hid : id = id'
      · rw [if_pos hid, ← hid, hfind]
        exact ⟨some (deriveKey c client.salt pin'), rfl⟩
      · rw [if_neg hid]
        exact ⟨client.key, hfind⟩
    · exact ⟨client.key, hfind⟩

theorem find?_foldl_noRequest (h : ∀ op ∈ ops, NoRequest id op)
    (hfind : s.pending.find? id = some client) :
    ∃ key, (ops.foldl (step c server) s).pending.find? id = some { client with key := key } := by
  induction ops generalizing s client with
  | nil => exact ⟨client.key, hfind⟩
  | cons op ops ih =>
    obtain ⟨key, hkey⟩ : ∃ key, (step c server s op).pending.find? id =
      some { client with key := key } := find?_noRequest (h op List.mem_cons_self) hfind
    obtain ⟨key', hkey'⟩ := ih (fun o ho => h o (List.mem_cons_of_mem op ho)) hkey
    exact ⟨key', hkey'⟩

/-- Nor does the key, once it is that of the PIN. -/
theorem find?_quiet (h : Quiet id pin op) (hfind : s.pending.find? id = some client)
    (hkey : client.key = some (deriveKey c client.salt pin)) :
    (step c server s op).pending.find? id = some client := by
  cases op with
  | request params draws outcome =>
    rw [find?_request_of_ne h]
    exact hfind
  | submitPin form =>
    change (submitPin c s form).pending.find? id = some client
    unfold submitPin
    split
    · rename_i id' pin' hid' hpin'
      rw [find?_registerPin]
      by_cases hid : id = id'
      · subst hid
        obtain rfl := h hid' pin' hpin'
        rw [if_pos rfl, hfind, Option.map_some, ← hkey]
      · rw [if_neg hid]
        exact hfind
    · exact hfind

theorem find?_foldl_quiet (h : ∀ op ∈ ops, Quiet id pin op)
    (hfind : s.pending.find? id = some client)
    (hkey : client.key = some (deriveKey c client.salt pin)) :
    (ops.foldl (step c server) s).pending.find? id = some client := by
  induction ops generalizing s with
  | nil => exact hfind
  | cons op ops ih =>
    exact ih (fun o ho => h o (List.mem_cons_of_mem op ho))
      (find?_quiet (h op List.mem_cons_self) hfind hkey)

/-- When the PIN has been entered, the key is that of the PIN. -/
theorem find?_foldl_entered (h : Entered id pin ops) (hfind : s.pending.find? id = some client) :
    (ops.foldl (step c server) s).pending.find? id =
      some { client with key := some (deriveKey c client.salt pin) } := by
  obtain ⟨earlier, form, later, rfl, hearlier, hid, hpin, hlater⟩ := h
  obtain ⟨key, hbefore⟩ : ∃ key, (earlier.foldl (step c server) s).pending.find? id =
    some { client with key := key } := find?_foldl_noRequest hearlier hfind
  rw [List.foldl_append, List.foldl_cons]
  refine find?_foldl_quiet hlater ?_ rfl
  change (submitPin c _ form).pending.find? id = _
  unfold submitPin
  rw [hid, hpin]
  dsimp only
  rw [find?_registerPin, if_pos rfl, hbefore]
  rfl

end Between

section Persisted

variable {c : Crypto} {server : Server} {s : HostState} {op : Op} {ops : List Op}
  {client : PairedState.Client} {d : PairedState.StateData}

/-- The data has the client and its fingerprint. -/
structure Persisted (client : PairedState.Client) (d : PairedState.StateData) : Prop where
  listed : d.clients.find? client.id = some client.pem
  known : client.fingerprint ∈ d.pairedFingerprints

theorem mem_fingerprints_insert (d : PairedState.StateData) (client : PairedState.Client)
    (fingerprint : String) : fingerprint ∈ (d.insert client).pairedFingerprints ↔
      fingerprint = client.fingerprint ∨ fingerprint ∈ d.pairedFingerprints := by
  change fingerprint ∈ (if _ then _ else _) ↔ _
  split
  · rename_i hknown
    obtain ⟨f, hmem, hf⟩ := List.any_eq_true.mp hknown
    obtain rfl := of_decide_eq_true hf
    exact ⟨Or.inr, fun h => h.elim (fun heq => heq ▸ hmem) fun h => h⟩
  · rw [List.mem_append, List.mem_singleton, or_comm]

theorem persisted_insert (client : PairedState.Client) (d : PairedState.StateData) :
    Persisted client (d.insert client) where
  listed := by
    change (SortedMap.insert _ _ _).find? _ = _
    rw [SortedMap.find?_insert, if_pos rfl]
  known := (mem_fingerprints_insert _ _ _).mpr (Or.inl rfl)

theorem Persisted.insert (h : Persisted client d) {other : PairedState.Client}
    (hne : client.id ≠ other.id) : Persisted client (d.insert other) where
  listed := by
    change (SortedMap.insert _ _ _).find? _ = _
    rw [SortedMap.find?_insert, if_neg hne]
    exact h.listed
  known := (mem_fingerprints_insert _ _ _).mpr (Or.inr h.known)

/-- Requests of others leave the client in the data. -/
theorem Persisted.step (h : Persisted client s.paired.data) (hop : NoRequest client.id op) :
    Persisted client (step c server s op).paired.data := by
  rcases paired_step c server s op with hsame |
    ⟨params, draws, outcome, id, secret, other, rfl, hcommand, hconfirmed, hpaired⟩
  · rw [hsame]
    exact h
  · rw [hpaired, PairedState.addPaired_eq]
    refine h.insert fun heq => hop ?_
    rw [heq, id_of_confirmed hconfirmed]
    exact clientId_of_parseCommand hcommand rfl

theorem Persisted.foldl (h : Persisted client s.paired.data)
    (hops : ∀ op ∈ ops, NoRequest client.id op) :
    Persisted client (ops.foldl (HostPairing.step c server) s).paired.data := by
  induction ops generalizing s with
  | nil => exact h
  | cons op ops ih =>
    exact ih (h.step (hops op List.mem_cons_self)) fun o ho => hops o (List.mem_cons_of_mem op ho)

end Persisted

section Stages

variable {c : Crypto} {xml : XmlTypes} {server : Server} {identity : Identity} {rand : Randoms}
  {s : HostState} {pin : String}

/-- What comes before a request, what the host draws at it, and how a write ends. -/
structure Turn where
  before : List Op
  draws : Draws
  outcome : PairedState.Outcome

def answer (c : Crypto) (server : Server) (turn : Turn) (s : HostState) (params : Params) :
    HostState × String :=
  handlePair c server (turn.before.foldl (step c server) s) params turn.draws turn.outcome

/-- Nothing is known but what the client has registered with, and perhaps the key. -/
def registered (identity : Identity) (rand : Randoms) : PendingClient :=
  { pem := identity.certPem, salt := rand.salt }

def keyed (c : Crypto) (identity : Identity) (rand : Randoms) (pin : String) : PendingClient :=
  { registered identity rand with key := some (deriveKey c rand.salt pin) }

def challenged (c : Crypto) (identity : Identity) (rand : Randoms) (pin : String) (draws : Draws) :
    PendingClient :=
  { keyed c identity rand pin with
    serverSecret := some draws.secret, serverChallenge := some draws.challenge }

def hashed (c : Crypto) (identity : Identity) (rand : Randoms) (pin : String) (draws : Draws)
    (hash : Bytes) : PendingClient :=
  { challenged c identity rand pin draws with clientHash := some hash }

theorem answer_eq {turn : Turn} {params : Params} {command : Command}
    (h : parseCommand params = some command) :
    answer c server turn s params =
      handle c server (turn.before.foldl (step c server) s) turn.draws turn.outcome command := by
  unfold answer handlePair
  rw [h]

theorem update_eq {id : String} {client : PendingClient} {f : PendingClient → PendingClient × Option Bytes}
    (h : s.pending.find? id = some client) :
    s.update id f = (s.setPending id (f client).1, (f client).2) := by
  unfold HostState.update
  rw [h]

/-- The host answers the first request with its certificate. -/
theorem answer_getServerCert (turn : Turn) :
    ∃ s', answer c server turn s (getServerCert identity rand) =
        (s', pairedXml (element ("plaincert", hexEncode (utf8 server.serverCertPem)))) ∧
      s'.pending.find? identity.uniqueId = some (registered identity rand) := by
  refine ⟨_, answer_eq (parse_getServerCert identity rand), ?_⟩
  rw [find?_setPending, if_pos rfl]
  rfl

/-- The answer to the challenge is decrypted as the hash and the challenge of the host. -/
theorem answer_clientChallenge (hc : c.Lawful) {turn : Turn} {certSig enc : Bytes}
    (hsig : c.certSignature server.serverCertPem = some certSig)
    (hfind : s.pending.find? identity.uniqueId = some (registered identity rand))
    (hentered : Entered identity.uniqueId pin turn.before)
    (henc : aesEcbEncrypt c rand.challenge (deriveKey c rand.salt pin) = some enc) :
    ∃ s' cipher, answer c server turn s (clientChallenge identity rand enc) =
        (s', pairedXml (element ("challengeresponse", hexEncode cipher))) ∧
      s'.pending.find? identity.uniqueId = some (challenged c identity rand pin turn.draws) ∧
      aesEcbDecrypt c cipher (deriveKey c rand.salt pin) =
        some (c.sha256 (rand.challenge ++ certSig ++ turn.draws.secret) ++ turn.draws.challenge) := by
  have hkey := length_deriveKey hc rand.salt pin
  have hbefore : (turn.before.foldl (step c server) s).pending.find? identity.uniqueId =
    some (keyed c identity rand pin) := find?_foldl_entered hentered hfind
  obtain ⟨cipher, hcipher, hback⟩ := aesEcbDecrypt_aesEcbEncrypt hc hkey
    (show (c.sha256 (rand.challenge ++ certSig ++ turn.draws.secret) ++
      turn.draws.challenge).length % 16 = 0 by
        rw [List.length_append, hc.length_sha256, turn.draws.length_challenge])
  have hstage : (keyed c identity rand pin).clientChallenge c server enc turn.draws =
      (challenged c identity rand pin turn.draws, some cipher) := by
    simp only [PendingClient.clientChallenge, keyed, decrypt_of_encrypt hc hkey henc, hsig, hcipher]
    rfl
  refine ⟨(turn.before.foldl (step c server) s).setPending identity.uniqueId
    (challenged c identity rand pin turn.draws), cipher, ?_, ?_, hback⟩
  · rw [answer_eq (parse_clientChallenge identity rand enc)]
    unfold handle
    dsimp only
    rw [update_eq hbefore, hstage]
    rfl
  · rw [find?_setPending, if_pos rfl]

/-- The answer to the hash is the secret of the host with its signature. -/
theorem answer_serverChallengeResp (hc : c.Lawful)
    (hserver : c.KeyPair server.serverCertPem server.serverKeyPem) {turn : Turn} {draws : Draws}
    {hash enc : Bytes}
    (hfind : s.pending.find? identity.uniqueId = some (challenged c identity rand pin draws))
    (hquiet : ∀ op ∈ turn.before, Quiet identity.uniqueId pin op)
    (henc : aesEcbEncrypt c hash (deriveKey c rand.salt pin) = some enc) :
    ∃ s' signature, answer c server turn s (serverChallengeResp identity rand enc) =
        (s', pairedXml (element ("pairingsecret", hexEncode (draws.secret ++ signature)))) ∧
      s'.pending.find? identity.uniqueId = some (hashed c identity rand pin draws hash) ∧
      c.rsaVerify server.serverCertPem draws.secret signature = true := by
  have hbefore : (turn.before.foldl (step c server) s).pending.find? identity.uniqueId =
    some (challenged c identity rand pin draws) := find?_foldl_quiet hquiet hfind rfl
  obtain ⟨signature, hsigned, hverify⟩ := hserver.signed draws.secret
  have hstage : (challenged c identity rand pin draws).serverChallengeResponse c server enc =
      (hashed c identity rand pin draws hash, some (draws.secret ++ signature)) := by
    have hback := decrypt_of_encrypt hc (length_deriveKey hc rand.salt pin) henc
    simp only [PendingClient.serverChallengeResponse, challenged, keyed, hback, Option.bind_some,
      hsigned, Option.map_some]
    rfl
  refine ⟨(turn.before.foldl (step c server) s).setPending identity.uniqueId
    (hashed c identity rand pin draws hash), signature, ?_, ?_, hverify⟩
  · rw [answer_eq (parse_serverChallengeResp identity rand enc)]
    unfold handle
    dsimp only
    rw [update_eq hbefore, hstage]
    rfl
  · rw [find?_setPending, if_pos rfl]

/-- The secret confirms the client, which is added to the paired ones. -/
theorem answer_clientPairingSecret {turn : Turn} {draws : Draws} {certSig signed : Bytes}
    {fingerprint : String} (hsig : c.certSignature identity.certPem = some certSig)
    (hfingerprint : c.certFingerprint identity.certPem = some fingerprint)
    (hfind : s.pending.find? identity.uniqueId = some (hashed c identity rand pin draws
      (c.sha256 (draws.challenge ++ certSig ++ rand.secret))))
    (hquiet : ∀ op ∈ turn.before, Quiet identity.uniqueId pin op)
    (hverify : c.rsaVerify identity.certPem rand.secret signed = true) :
    (answer c server turn s (clientPairingSecret identity rand signed)).1.paired =
      PairedState.addPaired (turn.before.foldl (step c server) s).paired
        ⟨identity.uniqueId, fingerprint, identity.certPem⟩ turn.outcome := by
  have hbefore : (turn.before.foldl (step c server) s).pending.find? identity.uniqueId =
    some (hashed c identity rand pin draws (c.sha256 (draws.challenge ++ certSig ++ rand.secret))) :=
      find?_foldl_quiet hquiet hfind rfl
  have hconfirmed : (turn.before.foldl (step c server) s).confirmed c identity.uniqueId
      (rand.secret ++ signed) = some ⟨identity.uniqueId, fingerprint, identity.certPem⟩ := by
    have hlong : 16 ≤ (rand.secret ++ signed).length := by
      rw [List.length_append, rand.length_secret]
      omega
    have htake : (rand.secret ++ signed).take 16 = rand.secret := List.take_left' rand.length_secret
    have hdrop : (rand.secret ++ signed).drop 16 = signed := List.drop_left' rand.length_secret
    unfold HostState.confirmed
    rw [hbefore, Option.bind_some]
    simp only [PendingClient.verifyPairingSecret, hashed, challenged, keyed, registered, hsig, htake,
      hdrop, hverify, hlong, hfingerprint]
    rfl
  rw [answer_eq (parse_clientPairingSecret identity rand signed)]
  change (HostState.checkClientPairingSecret c _ identity.uniqueId _ _).1.paired = _
  unfold HostState.checkClientPairingSecret
  rw [hconfirmed]

end Stages

section Complete

variable {c : Crypto} {xml : XmlTypes} {server : Server} {identity : Identity}

/-- The PIN is entered after the first request, and else nothing for the client comes in
between its requests. -/
structure Uninterrupted (id pin : String) (second third fourth fifth : Turn) : Prop where
  entered : Entered id pin second.before
  quiet : ∀ turn ∈ [third, fourth, fifth], ∀ op ∈ turn.before, Quiet id pin op

/-- A client whose requests are all answered, with the PIN that is entered on the host, is
accepted: in whatever state the host was, it has the client afterwards and has written it, and
the client has the certificate of the host. -/
def Complete (c : Crypto) (xml : XmlTypes) (server : Server) (identity : Identity) : Prop :=
  ∀ (addr : Address) (pin : String) (rand : Randoms) (s : HostState)
    (first second third fourth fifth : Turn),
    Uninterrupted identity.uniqueId pin second third fourth fifth →
    let exchange := pair c xml identity addr pin rand
    let accepted := (exchange.serve (answer c server) s [first, second, third, fourth]).2.paired
    let final := exchange.serve (answer c server) s [first, second, third, fourth, fifth]
    final.1 = some (pairedHost addr server.serverCertPem) ∧
      ∃ fingerprint, c.certFingerprint identity.certPem = some fingerprint ∧
        Persisted ⟨identity.uniqueId, fingerprint, identity.certPem⟩ accepted.data ∧
        accepted.file = fourth.outcome.file accepted.data ∧
        Persisted ⟨identity.uniqueId, fingerprint, identity.certPem⟩ final.2.paired.data

/-- The first four stages of the client with the host. -/
theorem serve_pair (hc : c.Lawful) (hx : xml.Lawful)
    (hserver : c.KeyPair server.serverCertPem server.serverKeyPem)
    (hid : c.KeyPair identity.certPem identity.keyPem) (addr : Address) (rand : Randoms)
    (s : HostState) (first : Turn) {pin fingerprint : String} {second third fourth fifth : Turn}
    (hturns : Uninterrupted identity.uniqueId pin second third fourth fifth)
    (hfingerprint : c.certFingerprint identity.certPem = some fingerprint) :
    ∃ s' before, (∀ turns, (pair c xml identity addr pin rand).serve (answer c server) s
        (first :: second :: third :: fourth :: turns) =
          (Exchange.ask (pairChallenge identity rand) fun body =>
            .attempt (confirmed xml body) fun _ =>
            .done (pairedHost addr server.serverCertPem)).serve (answer c server) s' turns) ∧
      s'.paired = PairedState.addPaired before
        ⟨identity.uniqueId, fingerprint, identity.certPem⟩ fourth.outcome := by
  obtain ⟨serverSig, hserverSig⟩ := hserver.signature
  obtain ⟨certSig, hcertSig⟩ := hid.signature
  obtain ⟨signed, hsigned, hverify⟩ := hid.signed rand.secret
  obtain ⟨encChallenge, hencChallenge⟩ := encrypt_challenge c rand (deriveKey c rand.salt pin)
  obtain ⟨s₁, hfirst, hfind₁⟩ : ∃ s', answer c server first s (getServerCert identity rand) =
    (s', pairedXml (element ("plaincert", hexEncode (utf8 server.serverCertPem)))) ∧
      s'.pending.find? identity.uniqueId = some (registered identity rand) :=
        answer_getServerCert first
  obtain ⟨s₂, cipher, hsecond, hfind₂, hdecrypt⟩ :=
    answer_clientChallenge hc hserverSig hfind₁ hturns.entered hencChallenge
  -- The client finds the challenge of the host behind the hash.
  have hcut : ((c.sha256 (rand.challenge ++ serverSig ++ second.draws.secret) ++
      second.draws.challenge).drop 32).take 16 = second.draws.challenge := by
    rw [List.drop_left' (hc.length_sha256 _), List.take_of_length_le
      second.draws.length_challenge.le]
  have hchresp := readChallengeResponse_element hx hdecrypt (by
    rw [List.length_append, hc.length_sha256, second.draws.length_challenge])
  obtain ⟨encHash, hencHash⟩ := encrypt_hash hc
    (second.draws.challenge ++ certSig ++ rand.secret) (deriveKey c rand.salt pin)
  obtain ⟨s₃, signature, hthird, hfind₃, hsignature⟩ := answer_serverChallengeResp hc hserver hfind₂
    (hturns.quiet third (by simp)) hencHash
  have hsecret := readPairingSecret_element hx second.draws.length_secret hsignature
  refine ⟨(answer c server fourth s₃ (clientPairingSecret identity rand signed)).1, _,
    fun turns => ?_, answer_clientPairingSecret hcertSig hfingerprint hfind₃
      (hturns.quiet fourth (by simp)) hverify⟩
  unfold pair
  simp only [Exchange.serve, Exchange.attempt, hfirst, readServerCert_element hx hserver.named,
    hencChallenge, hsecond, hchresp, hcertSig, challengeHash, hcut, hencHash, hthird, hsecret,
    hsigned]

/-- The pairing of a client that the host can answer. -/
theorem pairing_complete (hc : c.Lawful) (hx : xml.Lawful)
    (hserver : c.KeyPair server.serverCertPem server.serverKeyPem)
    (hid : c.KeyPair identity.certPem identity.keyPem) : Complete c xml server identity := by
  intro addr pin rand s first second third fourth fifth hturns
  obtain ⟨fingerprint, hfingerprint⟩ := hid.fingerprint
  obtain ⟨s', before, hserve, hpaired⟩ :=
    serve_pair hc hx hserver hid addr rand s first hturns hfingerprint
  obtain ⟨doc, hdoc⟩ := confirmed_pairedXml hx
  have hlast : answer c server fifth s' (pairChallenge identity rand) =
      (fifth.before.foldl (step c server) s', pairedXml "") :=
    answer_eq (parse_pairChallenge identity rand)
  have hpersisted : Persisted ⟨identity.uniqueId, fingerprint, identity.certPem⟩ s'.paired.data := by
    rw [hpaired, PairedState.addPaired_eq]
    exact persisted_insert _ _
  dsimp only
  rw [hserve [], hserve [fifth]]
  simp only [Exchange.serve, Exchange.attempt, hlast, hdoc, true_and]
  refine ⟨fingerprint, hfingerprint, hpersisted, ?_, hpersisted.foldl fun op hop =>
    (hturns.quiet fifth (by simp) op hop).noRequest⟩
  rw [hpaired, PairedState.addPaired_eq]

def someDraws : Draws := ⟨List.replicate 16 7, List.replicate 16 9, rfl, rfl⟩

def otherRequest : Op := .request (collect [("uniqueid", "FEDCBA9876543210")]) someDraws .done

def pinForm (pin : String) : Params :=
  collect [("uniqueid", clientIdentity.uniqueId), ("pin", pin)]

def someTurns : List Turn :=
  [⟨[], someDraws, .done⟩,
    ⟨[.submitPin (pinForm "0000"), .submitPin (pinForm "1234"), otherRequest], someDraws, .done⟩,
    ⟨[], someDraws, .done⟩, ⟨[], someDraws, .failed .missing⟩, ⟨[], someDraws, .done⟩]

def hostServer : Server :=
  ⟨Pem.pem "CERTIFICATE" Certificates.hostCert, Pem.pem "PRIVATE KEY" Certificates.hostKey⟩

theorem hostServer_keyPair :
    Certificates.crypto.KeyPair hostServer.serverCertPem hostServer.serverKeyPem :=
  Certificates.keyPair_host

/-- A wrong PIN is entered before the right one, another client asks for something, and the
write of the file fails. -/
theorem pairing_complete_someTurns :
    ((pair Certificates.crypto ⟨XmlReader.parse⟩ clientIdentity hostAddress "1234" someRandoms).serve
      (answer Certificates.crypto hostServer) ⟨SortedMap.empty, PairedState.State.load none⟩
      someTurns).1 = some (pairedHost hostAddress hostServer.serverCertPem) := by
  refine (pairing_complete Certificates.crypto_lawful XmlReader.xmlTypes_lawful hostServer_keyPair
    clientIdentity_keyPair hostAddress "1234" someRandoms _ _ _ _ _ _ ⟨?_, ?_⟩).1
  · refine ⟨[.submitPin (pinForm "0000")], pinForm "1234", [otherRequest], rfl, ?_, by decide,
      by decide, ?_⟩
    · intro op hop
      obtain rfl := List.mem_singleton.mp hop
      trivial
    · intro op hop
      obtain rfl := List.mem_singleton.mp hop
      change collect _ _ ≠ _
      decide
  · intro turn hturn op hop
    simp only [List.mem_cons, List.not_mem_nil, or_false] at hturn
    rcases hturn with rfl | rfl | rfl <;> cases hop

end Complete

end KmControl.PairingRun
