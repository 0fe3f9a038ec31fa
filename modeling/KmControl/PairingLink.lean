import KmControl.Certificates
import KmControl.MoonPairing
import KmControl.XmlReader

/-!
What ties the certificate to the PIN. Only the hash in the second reply is made with the
key of the PIN, and the client does not compare it: the replies that it takes are those
that pass the other checks, all of which somebody without the PIN can pass.
-/
namespace KmControl.PairingLink

open Pairing HostPairing MoonPairing

variable {c : Crypto} {xml : XmlTypes} {identity : Identity} {addr : Address} {pin : String}
  {rand : Randoms} {replies : List (Option String)}

section Checks

/-- The certificate that came in the first stage is tied to the PIN: the second reply, when
it is decrypted, begins with the hash that its signature and the secret of the third stage
go into. -/
def Linked (c : Crypto) (xml : XmlTypes) (pin : String) (rand : Randoms)
    (replies : List (Option String)) (certPem : String) : Prop :=
  ∃ first second third rest chresp doc secret certSig,
    replies = some first :: some second :: some third :: rest ∧
    readServerCert xml first = some certPem ∧
    readChallengeResponse c xml (deriveKey c rand.salt pin) second = some chresp ∧
    xml.parse third = some doc ∧ hexText doc "pairingsecret" = some secret ∧
    c.certSignature certPem = some certSig ∧
    chresp.take 32 = c.sha256 (rand.challenge ++ certSig ++ secret.take 16)

/-- What five replies carry that pass the checks of the client. -/
structure Transcript where
  serverCertPem : String
  chresp : Bytes
  pairingSecret : Bytes

/-- The checks that the client makes. -/
def passed (c : Crypto) (xml : XmlTypes) (key : Bytes) : List (Option String) → Option Transcript
  | some first :: some second :: some third :: some _ :: some fifth :: _ => do
    let serverCertPem ← readServerCert xml first
    let chresp ← readChallengeResponse c xml key second
    let pairingSecret ← readPairingSecret c xml serverCertPem third
    let _ ← confirmed xml fifth
    some ⟨serverCertPem, chresp, pairingSecret⟩
  | _ => none

/-- The hash of the second reply is the one that the certificate and the secret give. -/
def Transcript.HashAgrees (c : Crypto) (rand : Randoms) (t : Transcript) : Prop :=
  ∃ certSig, c.certSignature t.serverCertPem = some certSig ∧
    t.chresp.take 32 = c.sha256 (rand.challenge ++ certSig ++ t.pairingSecret.take 16)

theorem passed_iff {key : Bytes} {t : Transcript} : passed c xml key replies = some t ↔
    ∃ first second third fourth fifth rest doc,
      replies = some first :: some second :: some third :: some fourth :: some fifth :: rest ∧
      readServerCert xml first = some t.serverCertPem ∧
      readChallengeResponse c xml key second = some t.chresp ∧
      readPairingSecret c xml t.serverCertPem third = some t.pairingSecret ∧
      confirmed xml fifth = some doc := by
  constructor
  · intro h
    unfold passed at h
    split at h
    · rename_i first second third fourth fifth rest
      simp only [Option.bind_eq_bind, Option.bind_eq_some_iff] at h
      obtain ⟨cert, hcert, chresp, hchresp, secret, hsecret, doc, hdoc, heq⟩ := h
      obtain rfl := Option.some.inj heq
      exact ⟨first, second, third, fourth, fifth, rest, doc, rfl, hcert, hchresp, hsecret, hdoc⟩
    · cases h
  · rintro ⟨first, second, third, fourth, fifth, rest, doc, rfl, hcert, hchresp, hsecret, hdoc⟩
    unfold passed
    simp only [hcert, hchresp, hsecret, hdoc, Option.bind_eq_bind, Option.bind_some]

/-- The secret of the third reply, without the check of its signature. -/
theorem readPairingSecret_iff {certPem body : String} {secret : Bytes} :
    readPairingSecret c xml certPem body = some secret ↔
      ∃ doc, xml.parse body = some doc ∧ hexText doc "pairingsecret" = some secret ∧
        16 ≤ secret.length ∧ c.rsaVerify certPem (secret.take 16) (secret.drop 16) = true := by
  unfold readPairingSecret
  rw [Option.filter_eq_some_iff, Option.bind_eq_some_iff]
  simp only [Bool.and_eq_true, decide_eq_true_eq]
  constructor
  · rintro ⟨⟨doc, hdoc, hsecret⟩, hlen, hverify⟩
    exact ⟨doc, hdoc, hsecret, hlen, hverify⟩
  · rintro ⟨doc, hdoc, hsecret, hlen, hverify⟩
    exact ⟨⟨doc, hdoc, hsecret⟩, hlen, hverify⟩

end Checks

section Runs

/-- The client can use its own certificate and key. -/
structure Usable (c : Crypto) (identity : Identity) (rand : Randoms) : Prop where
  signature : ∃ certSig, c.certSignature identity.certPem = some certSig
  signed : ∃ signed, c.rsaSign identity.keyPem rand.secret = some signed

theorem usable_of_keyPair (h : c.KeyPair identity.certPem identity.keyPem) (rand : Randoms) :
    Usable c identity rand where
  signature := h.signature
  signed := (h.signed rand.secret).imp fun _ hsigned => hsigned.1

/-- The client takes exactly the replies that pass its checks. -/
theorem run_pair_iff (hc : c.Lawful) {host : PairedHost} :
    (pair c xml identity addr pin rand).run replies = some host ↔
      Usable c identity rand ∧ ∃ t, passed c xml (deriveKey c rand.salt pin) replies = some t ∧
        pairedHost addr t.serverCertPem = host := by
  obtain ⟨encChallenge, hchallenge⟩ := encrypt_challenge c rand (deriveKey c rand.salt pin)
  unfold pair
  simp only [Exchange.run_ask_iff, Exchange.run_attempt_iff, Exchange.run_done_iff]
  constructor
  · rintro ⟨first, _, rfl, cert, hcert, _, -, second, _, rfl, chresp, hchresp, certSig, hcertSig, _,
      -, third, _, rfl, secret, hsecret, signed, hsigned, fourth, _, rfl, fifth, rest, rfl, doc, hdoc,
      rfl⟩
    exact ⟨⟨⟨certSig, hcertSig⟩, ⟨signed, hsigned⟩⟩, ⟨cert, chresp, secret⟩, passed_iff.mpr ⟨first,
      second, third, fourth, fifth, rest, doc, rfl, hcert, hchresp, hsecret, hdoc⟩, rfl⟩
  · rintro ⟨⟨⟨certSig, hcertSig⟩, ⟨signed, hsigned⟩⟩, t, ht, rfl⟩
    obtain ⟨first, second, third, fourth, fifth, rest, doc, rfl, hcert, hchresp, hsecret, hdoc⟩ :=
      passed_iff.mp ht
    obtain ⟨encHash, hhash⟩ := encrypt_hash hc
      ((t.chresp.drop 32).take 16 ++ certSig ++ rand.secret) (deriveKey c rand.salt pin)
    exact ⟨first, _, rfl, _, hcert, encChallenge, hchallenge, second, _, rfl, _, hchresp, certSig,
      hcertSig, encHash, hhash, third, _, rfl, _, hsecret, signed, hsigned, fourth, _, rfl, fifth,
      rest, rfl, doc, hdoc, rfl⟩

/-- Of replies that pass the checks, the hash is what ties the certificate to the PIN. -/
theorem linked_iff_of_passed {t : Transcript}
    (ht : passed c xml (deriveKey c rand.salt pin) replies = some t) :
    Linked c xml pin rand replies t.serverCertPem ↔ t.HashAgrees c rand := by
  obtain ⟨first, second, third, fourth, fifth, rest, -, rfl, hcert, hchresp, hsecret, -⟩ :=
    passed_iff.mp ht
  obtain ⟨doc, hdoc, htext, -, -⟩ := readPairingSecret_iff.mp hsecret
  constructor
  · rintro ⟨_, _, _, _, chresp, doc', secret, certSig, heq, -, hchresp', hdoc', htext', hcertSig,
      hhash⟩
    simp only [List.cons.injEq, Option.some.injEq] at heq
    obtain ⟨rfl, rfl, rfl, rfl⟩ := heq
    obtain rfl : chresp = t.chresp := Option.some.inj (hchresp'.symm.trans hchresp)
    obtain rfl : doc' = doc := Option.some.inj (hdoc'.symm.trans hdoc)
    obtain rfl : secret = t.pairingSecret := Option.some.inj (htext'.symm.trans htext)
    exact ⟨certSig, hcertSig, hhash⟩
  · rintro ⟨certSig, hcertSig, hhash⟩
    exact ⟨first, second, third, _, t.chresp, doc, t.pairingSecret, certSig, rfl, hcert, hchresp,
      hdoc, htext, hcertSig, hhash⟩

/-- A client with a certificate of its own, which asks a host at an address. -/
def clientIdentity : Identity :=
  ⟨Pem.pem "CERTIFICATE" Certificates.clientCert, Pem.pem "PRIVATE KEY" Certificates.clientKey,
    "0123456789ABCDEF"⟩

def hostAddress : Address := ⟨"192.168.0.7", 47989, 47984⟩

def someRandoms : Randoms where
  salt := List.range 16 |>.map UInt8.ofNat
  challenge := List.replicate 16 0x5a
  secret := List.replicate 16 0xc3
  uuid stage := toString stage
  length_salt := rfl
  length_challenge := rfl
  length_secret := rfl

theorem clientIdentity_keyPair :
    Certificates.crypto.KeyPair clientIdentity.certPem clientIdentity.keyPem :=
  Certificates.keyPair_client

end Runs

section Stranger

variable {certPem keyPem : String} {secret signature : Bytes}

/-- The replies of somebody with a certificate and its key, and with no PIN. -/
def strangerReplies (certPem : String) (cipher secret signature : Bytes) : List (Option String) :=
  [some (pairedXml (element ("plaincert", hexEncode (utf8 certPem)))),
    some (pairedXml (element ("challengeresponse", hexEncode cipher))),
    some (pairedXml (element ("pairingsecret", hexEncode (secret ++ signature)))),
    some "", some (pairedXml "")]

theorem decrypt_cipher (hc : c.Lawful) {key cipher : Bytes} (hkey : key.length = 16)
    (hlen : cipher.length = 48) :
    ∃ chresp, aesEcbDecrypt c cipher key = some chresp ∧ chresp.length = 48 ∧
      c.encryptBlock key (chresp.take 16) = cipher.take 16 := by
  have hblock : (cipher.take 16).length = 16 := List.length_take_of_le (by omega)
  obtain ⟨chresp, hdecrypt, hlength, -⟩ := ecb_ecb (h := show cipher.length % 16 = 0 by omega)
    (hc.length_decryptBlock key) (fun b hb => hc.encrypt_decrypt key b hkey hb)
  refine ⟨chresp, hdecrypt, hlength.trans hlen, ?_⟩
  have hfirst : chresp.take 16 = c.decryptBlock key (cipher.take 16) := by
    unfold ecb at hdecrypt
    rw [if_pos (by omega), hlen] at hdecrypt
    rw [← Option.some.inj hdecrypt]
    exact List.take_left' (hc.length_decryptBlock key _ hblock)
  rw [hfirst, hc.encrypt_decrypt key _ hkey hblock]

/-- Whatever PIN the client has, it takes these replies. -/
theorem passed_stranger (hc : c.Lawful) (hx : xml.Lawful) (hnamed : certPem ≠ "")
    (hsecret : secret.length = 16) (hverify : c.rsaVerify certPem secret signature = true)
    {key cipher : Bytes} (hkey : key.length = 16) (hlen : cipher.length = 48) :
    ∃ chresp, passed c xml key (strangerReplies certPem cipher secret signature) =
        some ⟨certPem, chresp, secret ++ signature⟩ ∧
      c.encryptBlock key (chresp.take 16) = cipher.take 16 := by
  obtain ⟨chresp, hdecrypt, hlength, hfirst⟩ := decrypt_cipher hc hkey hlen
  obtain ⟨doc, hdoc⟩ := confirmed_pairedXml hx
  refine ⟨chresp, passed_iff.mpr ⟨_, _, _, _, _, [], doc, rfl, readServerCert_element hx hnamed,
    readChallengeResponse_element hx hdecrypt hlength.ge,
    readPairingSecret_element hx hsecret hverify, hdoc⟩, hfirst⟩

/-- Replies that are made without the PIN are taken whatever the PIN is; they are tied to it
only if the second begins with the one block that is right. -/
theorem run_stranger (hc : c.Lawful) (hx : xml.Lawful)
    (hid : c.KeyPair identity.certPem identity.keyPem) (hnamed : certPem ≠ "")
    (hsecret : secret.length = 16) (hverify : c.rsaVerify certPem secret signature = true)
    {cipher : Bytes} (hlen : cipher.length = 48) (addr : Address) (pin : String) (rand : Randoms) :
    (pair c xml identity addr pin rand).run (strangerReplies certPem cipher secret signature) =
        some (pairedHost addr certPem) ∧
      (Linked c xml pin rand (strangerReplies certPem cipher secret signature) certPem →
        ∃ certSig, c.certSignature certPem = some certSig ∧
          c.encryptBlock (deriveKey c rand.salt pin)
            ((c.sha256 (rand.challenge ++ certSig ++ secret)).take 16) = cipher.take 16) := by
  obtain ⟨chresp, hpassed, hfirst⟩ := passed_stranger hc hx hnamed hsecret hverify
    (length_deriveKey hc rand.salt pin) hlen
  refine ⟨(run_pair_iff hc).mpr ⟨usable_of_keyPair hid rand, _, hpassed, rfl⟩, fun hlinked => ?_⟩
  obtain ⟨certSig, hcertSig, hhash⟩ := (linked_iff_of_passed hpassed).mp hlinked
  have hblock := congrArg (List.take 16) hhash
  rw [List.take_take, List.take_left' hsecret] at hblock
  exact ⟨certSig, hcertSig, hblock ▸ hfirst⟩

end Stranger

end KmControl.PairingLink
