import KmControl.HostPairing

/-!
What the host has seen. Each request that is processed and each PIN that is entered leaves
an event; the entry of a client in the table is what the events for its id come to, and so
a client is added to the paired ones only after the right events.
-/
namespace KmControl.PairingLog

open Pairing HostPairing

section Events

inductive Event where
  | registered (id pem : String) (salt : Bytes)
  | pinEntered (id pin : String)
  /-- A challenge has been answered with one of the host. -/
  | challenged (id : String) (serverChallenge : Bytes)
  /-- A hash of the client has been kept. -/
  | responded (id : String) (clientHash : Bytes)
deriving DecidableEq

def Event.clientId : Event → String
  | .registered id _ _ | .pinEntered id _ | .challenged id _ | .responded id _ => id

/-- The key that a challenge or a response is decrypted with. -/
def keyOf (s : HostState) (id : String) : Option Bytes :=
  (s.pending.find? id).bind PendingClient.key

/-- The event that a command leaves. -/
def requested (c : Crypto) (server : Server) (s : HostState) (draws : Draws) :
    Command → Option Event
  | .getServerCert id pem salt => some (.registered id pem salt)
  | .clientChallenge id challenge => do
    let key ← keyOf s id
    let _ ← aesEcbDecrypt c challenge key
    let _ ← c.certSignature server.serverCertPem
    some (.challenged id draws.challenge)
  | .serverChallengeResp id response => do
    let key ← keyOf s id
    let hash ← aesEcbDecrypt c response key
    some (.responded id hash)
  | .pairChallenge | .clientPairingSecret _ _ => none

/-- The event of a form that is sent; for an id without an entry there is none. -/
def entered (s : HostState) (form : Params) : Option Event :=
  match form "uniqueid", form "pin" with
  | some id, some pin => (s.pending.find? id).map fun _ => .pinEntered id pin
  | _, _ => none

def event (c : Crypto) (server : Server) (s : HostState) : Op → Option Event
  | .request params draws _ => (parseCommand params).bind (requested c server s draws)
  | .submitPin form => entered s form

/-- The events of a run, the latest first. -/
def events (c : Crypto) (server : Server) (stored : Option PairedState.StateData)
    (ops : List Op) : List Event :=
  (machine c server stored).log (event c server) ops

/-- The events after the latest registration of an id, which was with these values. -/
structure Since (id : String) (log : List Event) (pem : String) (salt : Bytes)
    (recent : List Event) : Prop where
  registered : ∃ older, log = recent ++ .registered id pem salt :: older
  latest : ∀ pem' salt', .registered id pem' salt' ∉ recent

def pinOf (id : String) : Event → Option String
  | .pinEntered id' pin => if id' = id then some pin else none
  | _ => none

def challengeOf (id : String) : Event → Option Bytes
  | .challenged id' challenge => if id' = id then some challenge else none
  | _ => none

def hashOf (id : String) : Event → Option Bytes
  | .responded id' hash => if id' = id then some hash else none
  | _ => none

/-- A secret confirms a client: since the latest registration of its id, which was with its
certificate, its PIN was entered, and the latest challenge and the latest hash agree with
the secret, which is signed with the same certificate. -/
def Justified (c : Crypto) (log : List Event) (client : PairedState.Client) (secret : Bytes) :
    Prop :=
  ∃ salt recent pin challenge certSig,
    Since client.id log client.pem salt recent ∧
    recent.findSome? (pinOf client.id) = some pin ∧
    recent.findSome? (challengeOf client.id) = some challenge ∧
    recent.findSome? (hashOf client.id) =
      some (c.sha256 (challenge ++ certSig ++ secret.take 16)) ∧
    c.certSignature client.pem = some certSig ∧
    c.certFingerprint client.pem = some client.fingerprint ∧
    16 ≤ secret.length ∧ c.rsaVerify client.pem (secret.take 16) (secret.drop 16) = true

end Events

section Entries

/-- What an event makes of the entry of its client. The secret of the host is left out: no
check reads it. -/
def Event.apply (c : Crypto) : Event → Option PendingClient → Option PendingClient
  | .registered _ pem salt, _ => some { pem := pem, salt := salt }
  | .pinEntered _ pin, entry => entry.map fun client =>
      { client with key := some (deriveKey c client.salt pin) }
  | .challenged _ challenge, entry => entry.map fun client =>
      { client with serverChallenge := some challenge }
  | .responded _ hash, entry => entry.map fun client => { client with clientHash := some hash }

/-- What the events come to for an id. -/
def entry (c : Crypto) (id : String) : List Event → Option PendingClient
  | [] => none
  | e :: older => if e.clientId = id then e.apply c (entry c id older) else entry c id older

/-- What a step makes of an entry that leaves an event or none. -/
def noted (c : Crypto) : Option Event → Option PendingClient → Option PendingClient
  | none, entry => entry
  | some e, entry => e.apply c entry

/-- What recent events come to for a client. -/
structure Summed (c : Crypto) (id : String) (recent : List Event) (client : PendingClient) :
    Prop where
  key : client.key = (recent.findSome? (pinOf id)).map (deriveKey c client.salt)
  challenge : client.serverChallenge = recent.findSome? (challengeOf id)
  hash : client.clientHash = recent.findSome? (hashOf id)

variable {c : Crypto} {id pem : String} {salt : Bytes} {log recent : List Event} {e : Event}
  {client : PendingClient}

theorem Since.cons (h : Since id log pem salt recent)
    (he : ∀ pem' salt', e ≠ .registered id pem' salt') :
    Since id (e :: log) pem salt (e :: recent) where
  registered := by
    obtain ⟨older, rfl⟩ := h.registered
    exact ⟨older, rfl⟩
  latest pem' salt' hmem := by
    rcases List.mem_cons.mp hmem with heq | hmem
    · exact he pem' salt' heq.symm
    · exact h.latest pem' salt' hmem

/-- The events of other clients are not counted. -/
theorem Summed.cons_of_ne (h : Summed c id recent client) (he : e.clientId ≠ id) :
    Summed c id (e :: recent) client := by
  have hnone : pinOf id e = none ∧ challengeOf id e = none ∧ hashOf id e = none := by
    cases e <;> simp_all [Event.clientId, pinOf, challengeOf, hashOf]
  refine ⟨?_, ?_, ?_⟩
  · rw [List.findSome?_cons, hnone.1]
    exact h.key
  · rw [List.findSome?_cons, hnone.2.1]
    exact h.challenge
  · rw [List.findSome?_cons, hnone.2.2]
    exact h.hash

/-- An entry is what the events since the latest registration come to. -/
theorem exists_since_of_entry (h : entry c id log = some client) :
    ∃ recent, Since id log client.pem client.salt recent ∧ Summed c id recent client := by
  induction log generalizing client with
  | nil => cases h
  | cons e older ih =>
    unfold entry at h
    split at h
    · rename_i hid
      cases e with
      | registered id' pem salt =>
        obtain rfl := Option.some.inj h
        obtain rfl : id' = id := hid
        exact ⟨[], ⟨⟨older, rfl⟩, nofun⟩, ⟨rfl, rfl, rfl⟩⟩
      | pinEntered id' pin =>
        obtain rfl : id' = id := hid
        obtain ⟨before, hbefore, rfl⟩ := Option.map_eq_some_iff.mp h
        obtain ⟨recent, hsince, hsum⟩ := ih hbefore
        exact ⟨_, hsince.cons nofun, ⟨by simp [pinOf], hsum.challenge, hsum.hash⟩⟩
      | challenged id' challenge =>
        obtain rfl : id' = id := hid
        obtain ⟨before, hbefore, rfl⟩ := Option.map_eq_some_iff.mp h
        obtain ⟨recent, hsince, hsum⟩ := ih hbefore
        exact ⟨_, hsince.cons nofun, ⟨hsum.key, by simp [challengeOf], hsum.hash⟩⟩
      | responded id' hash =>
        obtain rfl : id' = id := hid
        obtain ⟨before, hbefore, rfl⟩ := Option.map_eq_some_iff.mp h
        obtain ⟨recent, hsince, hsum⟩ := ih hbefore
        exact ⟨_, hsince.cons nofun, ⟨hsum.key, hsum.challenge, by simp [hashOf]⟩⟩
    · rename_i hid
      obtain ⟨recent, hsince, hsum⟩ := ih h
      refine ⟨e :: recent, hsince.cons ?_, hsum.cons_of_ne hid⟩
      rintro pem salt rfl
      exact hid rfl

theorem entry_noted {e : Option Event} (h : ∀ x ∈ e, x.clientId = id) :
    entry c id (e.toList ++ log) = noted c e (entry c id log) := by
  cases e with
  | none => rfl
  | some e => exact if_pos (h e rfl)

theorem entry_others {e : Option Event} (h : ∀ x ∈ e, x.clientId ≠ id) :
    entry c id (e.toList ++ log) = entry c id log := by
  cases e with
  | none => rfl
  | some e => exact if_neg (h e rfl)

end Entries

section Steps

variable {c : Crypto} {server : Server} {s : HostState} {log : List Event} {draws : Draws}
  {outcome : PairedState.Outcome} {id : String} {client : PendingClient}

/-- An entry without the secret of the host. -/
def hide (client : PendingClient) : PendingClient := { client with serverSecret := none }

/-- The table is what the events come to. -/
def Tied (c : Crypto) (s : HostState) (log : List Event) : Prop :=
  ∀ id, (s.pending.find? id).map hide = entry c id log

/-- The table after a change of one entry. -/
theorem Tied.change (h : Tied c s log) (id : String) {s' : HostState} {e : Option Event}
    (hid : ∀ x ∈ e, x.clientId = id)
    (hmine : (s'.pending.find? id).map hide = noted c e ((s.pending.find? id).map hide))
    (hothers : ∀ id', id' ≠ id → s'.pending.find? id' = s.pending.find? id') :
    Tied c s' (e.toList ++ log) := by
  intro id'
  by_cases heq : id' = id
  · subst heq
    rw [entry_noted hid, ← h id', hmine]
  · rw [entry_others fun x hx hthis => heq (hthis.symm.trans (hid x hx)), ← h id', hothers id' heq]

theorem keyOf_eq (hfind : s.pending.find? id = some client) : keyOf s id = client.key := by
  unfold keyOf
  rw [hfind]
  rfl

/-- The event that a challenge leaves is what changes in the entry. -/
theorem hide_clientChallenge (hfind : s.pending.find? id = some client) (challenge : Bytes)
    (draws : Draws) :
    some (hide (client.clientChallenge c server challenge draws).1) =
      noted c (requested c server s draws (.clientChallenge id challenge)) (some (hide client)) := by
  have hkeyOf := keyOf_eq hfind
  obtain ⟨pem, salt, key, secret, serverChallenge, hash⟩ := client
  cases key with
  | none => simp only [requested, hkeyOf, Option.bind_eq_bind, Option.bind_none]; rfl
  | some key =>
    simp only [PendingClient.clientChallenge, requested, hkeyOf, Option.bind_eq_bind,
      Option.bind_some]
    cases aesEcbDecrypt c challenge key with
    | none => rfl
    | some decrypted => cases c.certSignature server.serverCertPem <;> rfl

theorem hide_serverChallengeResponse (hfind : s.pending.find? id = some client)
    (response : Bytes) (draws : Draws) :
    some (hide (client.serverChallengeResponse c server response).1) =
      noted c (requested c server s draws (.serverChallengeResp id response))
        (some (hide client)) := by
  have hkeyOf := keyOf_eq hfind
  obtain ⟨pem, salt, key, secret, serverChallenge, hash⟩ := client
  cases key with
  | none => simp only [requested, hkeyOf, Option.bind_eq_bind, Option.bind_none]; rfl
  | some key =>
    simp only [PendingClient.serverChallengeResponse, requested, hkeyOf, Option.bind_eq_bind,
      Option.bind_some]
    cases aesEcbDecrypt c response key <;> rfl

theorem Tied.update (h : Tied c s log) {f : PendingClient → PendingClient × Option Bytes}
    {e : Option Event} (hid : ∀ x ∈ e, x.clientId = id) (hnone : s.pending.find? id = none → e = none)
    (hsome : ∀ client, s.pending.find? id = some client →
      some (hide (f client).1) = noted c e (some (hide client))) :
    Tied c (s.update id f).1 (e.toList ++ log) := by
  refine h.change id hid ?_ fun id' hne => by rw [find?_update, if_neg hne]
  rw [find?_update, if_pos rfl]
  cases hfind : s.pending.find? id with
  | none =>
    rw [hnone hfind]
    rfl
  | some client => exact hsome client hfind

theorem keyOf_none (h : s.pending.find? id = none) : keyOf s id = none := by
  unfold keyOf
  rw [h]
  rfl

/-- A command leaves its event. -/
theorem Tied.handle (h : Tied c s log) (command : Command) :
    Tied c (handle c server s draws outcome command).1
      ((requested c server s draws command).toList ++ log) := by
  cases command with
  | getServerCert id pem salt =>
    refine h.change id (fun x hx => ?_) ?_ fun id' hne => ?_
    · obtain rfl := Option.some.inj hx
      rfl
    · change ((s.setPending id _).pending.find? id).map hide = _
      rw [find?_setPending, if_pos rfl]
      rfl
    · change (s.setPending id _).pending.find? id' = _
      rw [find?_setPending, if_neg hne]
  | pairChallenge => exact h
  | clientChallenge id challenge =>
    refine h.update (fun x hx => ?_) (fun hnone => ?_) fun client hfind =>
      hide_clientChallenge hfind challenge draws
    · simp only [requested, Option.bind_eq_bind, Option.mem_def, Option.bind_eq_some_iff] at hx
      obtain ⟨_, _, _, _, _, _, hx⟩ := hx
      obtain rfl := Option.some.inj hx
      rfl
    · simp only [requested, keyOf_none hnone, Option.bind_eq_bind, Option.bind_none]
  | serverChallengeResp id response =>
    refine h.update (fun x hx => ?_) (fun hnone => ?_) fun client hfind =>
      hide_serverChallengeResponse hfind response draws
    · simp only [requested, Option.bind_eq_bind, Option.mem_def, Option.bind_eq_some_iff] at hx
      obtain ⟨_, _, _, _, hx⟩ := hx
      obtain rfl := Option.some.inj hx
      rfl
    · simp only [requested, keyOf_none hnone, Option.bind_eq_bind, Option.bind_none]
  | clientPairingSecret id secret =>
    intro id'
    change (((s.checkClientPairingSecret c id secret outcome).1.pending.find? id').map hide) = _
    rw [pending_checkClientPairingSecret]
    exact h id'

theorem Tied.submitPin (h : Tied c s log) (form : Params) :
    Tied c (submitPin c s form) ((entered s form).toList ++ log) := by
  unfold HostPairing.submitPin entered
  cases form "uniqueid" with
  | none => exact h
  | some id =>
    cases form "pin" with
    | none => exact h
    | some pin =>
      dsimp only
      refine h.change id (fun x hx => ?_) ?_ fun id' hne => ?_
      · obtain ⟨_, -, rfl⟩ := Option.map_eq_some_iff.mp hx
        rfl
      · rw [find?_registerPin, if_pos rfl]
        cases s.pending.find? id <;> rfl
      · rw [find?_registerPin, if_neg hne]

theorem Tied.step (h : Tied c s log) (op : Op) :
    Tied c (step c server s op) ((event c server s op).toList ++ log) := by
  cases op with
  | submitPin form => exact h.submitPin form
  | request params draws outcome =>
    change Tied c (handlePair c server s params draws outcome).1
      (((parseCommand params).bind (requested c server s draws)).toList ++ log)
    unfold handlePair
    cases parseCommand params with
    | none => exact h
    | some command => exact h.handle command

end Steps

section Soundness

variable {c : Crypto} {server : Server} {s : HostState} {log : List Event} {id : String}
  {client : PendingClient}

/-- Where no PIN was entered, no challenge has been answered. -/
def Keyed (c : Crypto) (log : List Event) : Prop :=
  ∀ id client, entry c id log = some client → client.key = none → client.serverChallenge = none

theorem exists_key_of_challenged {op : Op} {challenge : Bytes}
    (h : Event.challenged id challenge ∈ event c server s op) : ∃ key, keyOf s id = some key := by
  cases op with
  | submitPin form =>
    change _ ∈ entered s form at h
    unfold entered at h
    split at h
    · obtain ⟨_, -, h⟩ := Option.map_eq_some_iff.mp h
      cases h
    · cases h
  | request params draws outcome =>
    obtain ⟨command, -, h⟩ := Option.bind_eq_some_iff.mp h
    cases command with
    | getServerCert | pairChallenge | clientPairingSecret => cases h
    | clientChallenge id' challenge' =>
      obtain ⟨key, hkey, h⟩ := Option.bind_eq_some_iff.mp h
      obtain ⟨_, -, h⟩ := Option.bind_eq_some_iff.mp h
      obtain ⟨_, -, h⟩ := Option.bind_eq_some_iff.mp h
      cases h
      exact ⟨key, hkey⟩
    | serverChallengeResp id' response =>
      obtain ⟨_, -, h⟩ := Option.bind_eq_some_iff.mp h
      obtain ⟨_, -, h⟩ := Option.bind_eq_some_iff.mp h
      cases h

theorem Keyed.step (htied : Tied c s log) (h : Keyed c log) (op : Op) :
    Keyed c ((event c server s op).toList ++ log) := by
  cases hevent : event c server s op with
  | none => exact h
  | some e =>
    intro id client hentry hkey
    change (if e.clientId = id then _ else _) = _ at hentry
    split at hentry
    · rename_i hid
      cases e with
      | registered id' pem salt =>
        obtain rfl := Option.some.inj hentry
        rfl
      | pinEntered id' pin =>
        obtain ⟨_, -, rfl⟩ := Option.map_eq_some_iff.mp hentry
        cases hkey
      | challenged id' challenge =>
        obtain rfl : id' = id := hid
        obtain ⟨before, hbefore, rfl⟩ := Option.map_eq_some_iff.mp hentry
        obtain ⟨key, hkeyOf⟩ := exists_key_of_challenged hevent
        obtain ⟨pending, hfind, rfl⟩ := Option.map_eq_some_iff.mp ((htied id').trans hbefore)
        rw [keyOf_eq hfind] at hkeyOf
        exact nomatch hkeyOf.symm.trans hkey
      | responded id' hash =>
        obtain ⟨before, hbefore, rfl⟩ := Option.map_eq_some_iff.mp hentry
        exact h id before hbefore hkey
    · exact h id client hentry hkey

/-- The table of every run is what its events come to. -/
theorem tied_run (c : Crypto) (server : Server) (stored : Option PairedState.StateData)
    (ops : List Op) :
    Tied c ((machine c server stored).run ops) (events c server stored ops) ∧
      Keyed c (events c server stored ops) :=
  (machine c server stored).log_invariant (event c server)
    (I := fun s log => Tied c s log ∧ Keyed c log) ⟨fun _ => rfl, nofun⟩
    (fun _ _ op h => ⟨h.1.step op, h.2.step h.1 op⟩) ops

theorem id_of_confirmed {secret : Bytes} {client : PairedState.Client}
    (h : s.confirmed c id secret = some client) : client.id = id := by
  obtain ⟨pending, -, h⟩ := Option.bind_eq_some_iff.mp h
  split at h
  · obtain ⟨fingerprint, -, rfl⟩ := Option.map_eq_some_iff.mp h
    rfl
  · cases h

/-- The client that a secret confirms is justified by the events. -/
theorem justified_of_confirmed (htied : Tied c s log) (hkeyed : Keyed c log) {secret : Bytes}
    {client : PairedState.Client} (h : s.confirmed c id secret = some client) :
    Justified c log client secret := by
  obtain ⟨pending, hfind, h⟩ := Option.bind_eq_some_iff.mp h
  split at h
  · rename_i hverify
    obtain ⟨fingerprint, hfingerprint, rfl⟩ := Option.map_eq_some_iff.mp h
    unfold PendingClient.verifyPairingSecret at hverify
    split at hverify
    · rename_i hash challenge certSig hhash hchallenge hcertSig
      simp only [Bool.and_eq_true, decide_eq_true_eq] at hverify
      obtain ⟨⟨hlen, rfl⟩, hsigned⟩ := hverify
      have hentry : entry c id log = some (hide pending) := by
        rw [← htied id, hfind]
        rfl
      obtain ⟨recent, hsince, hsum⟩ := exists_since_of_entry hentry
      have hkey : pending.key ≠ none := fun hnone => by
        exact nomatch (hkeyed id _ hentry hnone).symm.trans hchallenge
      obtain ⟨pin, hpin⟩ : ∃ pin, recent.findSome? (pinOf id) = some pin := by
        refine Option.ne_none_iff_exists'.mp fun hnone => hkey ?_
        have hkeyOf := hsum.key
        rw [hnone] at hkeyOf
        exact hkeyOf
      exact ⟨pending.salt, recent, pin, challenge, certSig, hsince, hpin,
        hsum.challenge.symm.trans hchallenge, hsum.hash.symm.trans hhash, hcertSig, hfingerprint,
        hlen, hsigned⟩
    · cases hverify
  · cases h

/-- Only a secret that confirms a client changes the paired ones. -/
theorem paired_step (c : Crypto) (server : Server) (s : HostState) (op : Op) :
    (step c server s op).paired = s.paired ∨
      ∃ params draws outcome id secret client, op = .request params draws outcome ∧
        parseCommand params = some (.clientPairingSecret id secret) ∧
        s.confirmed c id secret = some client ∧
        (step c server s op).paired = PairedState.addPaired s.paired client outcome := by
  cases op with
  | submitPin form =>
    left
    change (submitPin c s form).paired = _
    unfold HostPairing.submitPin
    split
    · exact paired_registerPin _ _ _
    · rfl
  | request params draws outcome =>
    change (handlePair c server s params draws outcome).1.paired = _ ∨ _
    unfold handlePair
    split
    · exact Or.inl rfl
    · rename_i command hcommand
      cases command with
      | getServerCert | pairChallenge => exact Or.inl rfl
      | clientChallenge | serverChallengeResp => exact Or.inl (paired_update _ _ _)
      | clientPairingSecret id secret =>
        cases hconfirmed : s.confirmed c id secret with
        | none =>
          left
          change (s.checkClientPairingSecret c id secret outcome).1.paired = _
          unfold HostState.checkClientPairingSecret
          rw [hconfirmed]
        | some client =>
          refine Or.inr ⟨params, draws, outcome, id, secret, client, rfl, hcommand, hconfirmed, ?_⟩
          change (handlePair c server s params draws outcome).1.paired = _
          unfold handlePair
          rw [hcommand]
          change (s.checkClientPairingSecret c id secret outcome).1.paired = _
          unfold HostState.checkClientPairingSecret
          rw [hconfirmed]

/-- A secret has confirmed this client in the course of a run. -/
def Accepted (c : Crypto) (server : Server) (stored : Option PairedState.StateData)
    (ops : List Op) (client : PairedState.Client) : Prop :=
  ∃ pre params draws outcome secret, pre ++ [.request params draws outcome] <+: ops ∧
    parseCommand params = some (.clientPairingSecret client.id secret) ∧
    Justified c (events c server stored pre) client secret

/-- Each client of some data, and each fingerprint, was there at the start or is of a client
that was accepted. -/
structure Accounted (c : Crypto) (server : Server) (stored : Option PairedState.StateData)
    (ops : List Op) (data : PairedState.StateData) : Prop where
  clients : ∀ id pem, data.clients.find? id = some pem →
    (PairedState.State.load stored).data.clients.find? id = some pem ∨
      ∃ fingerprint, Accepted c server stored ops ⟨id, fingerprint, pem⟩
  fingerprints : ∀ fingerprint ∈ data.pairedFingerprints,
    fingerprint ∈ (PairedState.State.load stored).data.pairedFingerprints ∨
      ∃ id pem, Accepted c server stored ops ⟨id, fingerprint, pem⟩

/-- A step of a run changes the paired clients only by one that is justified. -/
theorem paired_run_step (c : Crypto) (server : Server) (stored : Option PairedState.StateData)
    (ops : List Op) (op : Op) :
    let s := (machine c server stored).run ops
    (step c server s op).paired = s.paired ∨
      ∃ params draws outcome secret client, op = .request params draws outcome ∧
        parseCommand params = some (.clientPairingSecret client.id secret) ∧
        Justified c (events c server stored ops) client secret ∧
        (step c server s op).paired = PairedState.addPaired s.paired client outcome := by
  obtain ⟨htied, hkeyed⟩ := tied_run c server stored ops
  rcases paired_step c server ((machine c server stored).run ops) op with hsame |
    ⟨params, draws, outcome, id, secret, client, hop, hcommand, hconfirmed, hpaired⟩
  · exact Or.inl hsame
  · obtain rfl := id_of_confirmed hconfirmed
    exact Or.inr ⟨params, draws, outcome, secret, client, hop, hcommand,
      justified_of_confirmed htied hkeyed hconfirmed, hpaired⟩

theorem Accepted.mono {stored : Option PairedState.StateData} {ops : List Op} {op : Op}
    {client : PairedState.Client} (h : Accepted c server stored ops client) :
    Accepted c server stored (ops ++ [op]) client := by
  obtain ⟨pre, params, draws, outcome, secret, hpre, hcommand, hjustified⟩ := h
  exact ⟨pre, params, draws, outcome, secret, hpre.trans (List.prefix_append _ _), hcommand,
    hjustified⟩

/-- The paired clients of a run are those that were stored and those that were accepted. -/
theorem accounted_run (c : Crypto) (server : Server) (stored : Option PairedState.StateData)
    (ops : List Op) :
    Accounted c server stored ops ((machine c server stored).run ops).paired.data := by
  induction ops using List.reverseRecOn with
  | nil => exact ⟨fun _ _ h => Or.inl h, fun _ h => Or.inl h⟩
  | append_singleton ops op ih =>
    have hold : Accounted c server stored (ops ++ [op])
        ((machine c server stored).run ops).paired.data :=
      ⟨fun id pem h => (ih.clients id pem h).imp_right fun ⟨f, hf⟩ => ⟨f, hf.mono⟩,
        fun f h => (ih.fingerprints f h).imp_right fun ⟨id, pem, hf⟩ => ⟨id, pem, hf.mono⟩⟩
    rw [Machine.run_concat]
    rcases paired_run_step c server stored ops op with hsame |
      ⟨params, draws, outcome, secret, client, rfl, hcommand, hjustified, hpaired⟩
    · change (step c server _ op).paired = _ at hsame
      change Accounted c server stored _ (step c server _ op).paired.data
      rw [hsame]
      exact hold
    · have haccepted : Accepted c server stored (ops ++ [.request params draws outcome]) client :=
        ⟨ops, params, draws, outcome, secret, List.prefix_refl _, hcommand, hjustified⟩
      change Accounted c server stored _ (step c server _ _).paired.data
      rw [hpaired, PairedState.addPaired_eq]
      refine ⟨fun id pem h => ?_, fun fingerprint h => ?_⟩
      · change (SortedMap.insert _ _ _).find? id = _ at h
        rw [SortedMap.find?_insert] at h
        split at h
        · rename_i hid
          subst hid
          obtain rfl := Option.some.inj h
          exact Or.inr ⟨client.fingerprint, haccepted⟩
        · exact hold.clients id pem h
      · change fingerprint ∈ (if _ then _ else _ ++ [client.fingerprint]) at h
        split at h
        · exact hold.fingerprints fingerprint h
        · rcases List.mem_append.mp h with h | h
          · exact hold.fingerprints fingerprint h
          · rw [List.mem_singleton.mp h]
            exact Or.inr ⟨client.id, client.pem, haccepted⟩

/-- A run changes the paired clients only by one that the events since the latest
registration of its id justify, so that each of them was stored or is accounted for. -/
structure Sound (c : Crypto) (server : Server) : Prop where
  step : ∀ stored ops op, let s := (machine c server stored).run ops
    (step c server s op).paired = s.paired ∨
      ∃ params draws outcome secret client, op = .request params draws outcome ∧
        parseCommand params = some (.clientPairingSecret client.id secret) ∧
        Justified c (events c server stored ops) client secret ∧
        (step c server s op).paired = PairedState.addPaired s.paired client outcome
  run : ∀ stored ops,
    Accounted c server stored ops ((machine c server stored).run ops).paired.data

/-- Whoever is paired has gone through the stages since its latest registration. -/
theorem pairing_sound (c : Crypto) (server : Server) : Sound c server :=
  ⟨paired_run_step c server, accounted_run c server⟩

end Soundness

end KmControl.PairingLog
