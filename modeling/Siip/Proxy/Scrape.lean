/-
  `siip_resolve.register_certificate`: the key text of a server that the proxy registers by itself.

  The key goes through the PEM text of the server's public key to colon-separated upper-case digits,
  then through the chain's check, the certificate and its encoding in the cache, and is compared in
  `verify` with a key that comes out of a PEM text another way. All of these agree, as long as
  the check can count the characters of the text (`scrape_roundtrip_iff`).
-/
import Siip.Lib.Pem
import Siip.Proxy.Keys
import Siip.Proxy.Requests

namespace Siip.Proxy

open Python Pallet

/-- `base64.b64decode` of a `str`, which has to be ASCII. -/
def b64decodeStr (s : Str) : Option Bytes :=
  if s.all fun c => c.toNat < 128 then b64decode (utf8Bytes s) else none

/-- `s[i:i+2] for i in range(0, len(s), 2)` -/
def pairs : Str → List Str
  | [] => []
  | [a] => [[a]]
  | a :: b :: s => [a, b] :: pairs s

/-- The key text that `register_certificate` computes. Whether the text is not ASCII or no base 64,
    it is a `ValueError`. -/
def scrapedKey (dumpPublickey : Bytes → Except Exn Bytes) (derCert : Bytes) : Except Exn Str := do
  let pubkey ← dumpPublickey derCert
  let pubkey ← decode pubkey
  let pubkey := remove "-----BEGIN PUBLIC KEY-----".toList pubkey
  let pubkey := remove "-----END PUBLIC KEY-----".toList pubkey
  let pubkey := remove ['\n'] pubkey
  match b64decodeStr pubkey with
  | none => .error (.binascii (utf8Bytes pubkey))
  | some pubkey => .ok ([':'].intercalate (pairs ((hex pubkey).map Char.toUpper)))

def registerCertificate (dumpPublickey : Bytes → Except Exn Bytes)
    (register : Str → Str → Str → Str → Str → Except Exn Unit) (domain ip : Str)
    (derCert : Bytes) : Except Exn Unit := do
  let pubkey ← scrapedKey dumpPublickey derCert
  register domain "Proxy".toList ip "{}".toList pubkey

/-! ## The text of a key -/

theorem pairs_hex (bs : Bytes) : pairs ((hex bs).map Char.toUpper) = bs.map byteText := by
  induction bs with
  | nil => rfl
  | cons x bs ih =>
    show byteText x :: pairs ((hex bs).map Char.toUpper) = byteText x :: bs.map byteText
    rw [ih]

theorem scrapedKey_of_decoded {dumpPublickey : Bytes → Except Exn Bytes} {derCert pem bs : Bytes}
    {text : Str} (hdump : dumpPublickey derCert = .ok pem) (hdecode : decode pem = .ok text)
    (hkey : b64decodeStr (remove ['\n'] (remove "-----END PUBLIC KEY-----".toList
      (remove "-----BEGIN PUBLIC KEY-----".toList text))) = some bs) :
    scrapedKey dumpPublickey derCert = .ok (SiipCertificate.pkStrOf bs) := by
  unfold scrapedKey
  rw [hdump]
  show (decode pem).bind _ = _
  rw [hdecode]
  dsimp only [Except.bind]
  rw [hkey]
  dsimp only
  rw [pairs_hex, pkStrOf_eq]

section

/-! The library calls that give the PEM text of the public key in a certificate. -/

variable (publicKeyOf : Bytes → Bytes)

def dumpPublickey (derCert : Bytes) : Except Exn Bytes := .ok (publicKeyPem (publicKeyOf derCert))

theorem scrapedKey_eq (derCert : Bytes) :
    scrapedKey (dumpPublickey publicKeyOf) derCert =
      .ok (SiipCertificate.pkStrOf (publicKeyOf derCert)) := by
  have hplain := b64encode_plain (publicKeyOf derCert)
  have hascii : ∀ b ∈ b64encode (publicKeyOf derCert), b < 128 := fun b hb => (hplain b hb).2.2.2
  have hdecode : decode (publicKeyPem (publicKeyOf derCert)) =
      .ok (asciiChars (publicKeyPem (publicKeyOf derCert))) := by
    rw [decode, fromUtf8_asciiChars (publicKeyPem_ascii _)]
  have hchars : (asciiChars (b64encode (publicKeyOf derCert))).all (fun c => c.toNat < 128) =
      true := by
    refine List.all_eq_true.mpr fun c hc => ?_
    obtain ⟨b, hb, rfl⟩ := List.mem_map.mp hc
    rw [toNat_asciiChar (hascii b hb), decide_eq_true_eq]
    exact UInt8.lt_iff_toNat_lt.mp (hascii b hb)
  have hb64 : b64decodeStr (asciiChars (b64encode (publicKeyOf derCert))) =
      some (publicKeyOf derCert) := by
    rw [b64decodeStr, if_pos hchars, utf8Bytes_asciiChars hascii, b64decode_b64encode]
  have hkey := (congrArg b64decodeStr (remove_publicKeyPem (publicKeyOf derCert))).trans hb64
  exact scrapedKey_of_decoded rfl hdecode hkey

/-! ## From the server to the chain and back -/

/-- The server is refused for its key. -/
def Refuses (cert : SiipCertificate) (server : Bytes) : Prop :=
  ∃ msg, cert.verify (dumpPublickey publicKeyOf) server = .error (.siipCert msg)

/-- The chain accepts the key text of the server, and the certificate made of it, as well as the one
    that the cache gives back, holds the server's key and refuses just the servers with another. -/
def ScrapesBack (ip domain : Str) (derCert : Bytes) : Prop :=
  ∃ text cert cached, scrapedKey (dumpPublickey publicKeyOf) derCert = .ok text ∧
    accepts (checkKey (utf8Bytes text)) = true ∧
    SiipCertificate.new ip domain (.str text) = .ok cert ∧
    decodeCertificate cert.encode = .ok cached ∧
    ∀ c, c = cert ∨ c = cached → c.publicKey = publicKeyOf derCert ∧
      ∀ server, Refuses publicKeyOf c server ↔ publicKeyOf server ≠ publicKeyOf derCert

theorem pkBytes_publicKeyPem (publicKey : Bytes) :
    SiipCertificate.pkBytes (publicKeyPem publicKey) = some publicKey := by
  rw [SiipCertificate.pkBytes, splitlines_publicKeyPem, b64decode_b64encode]

theorem refuses_iff {cert : SiipCertificate} {server : Bytes} :
    Refuses publicKeyOf cert server ↔ publicKeyOf server ≠ cert.publicKey := by
  unfold Refuses SiipCertificate.verify dumpPublickey
  dsimp only
  rw [pkBytes_publicKeyPem]
  dsimp only
  split
  · rename_i hne
    exact iff_of_true ⟨_, rfl⟩ (Ne.symm hne)
  · rename_i heq
    simp [Classical.not_not.mp heq]

/-- The check counts in an `i32`, and the text of `n` bytes has `3 * n - 1` characters. -/
theorem accepts_pkStrOf_iff (publicKey : Bytes) :
    accepts (checkKey (utf8Bytes (SiipCertificate.pkStrOf publicKey))) = true ↔
      publicKey.length ≤ 715827883 := by
  have htext := fromUtf8_utf8Bytes (SiipCertificate.pkStrOf publicKey)
  by_cases hne : publicKey = []
  · subst hne
    refine iff_of_true ?_ (Nat.zero_le _)
    exact (accepts_iff htext (Nat.zero_le _)).mpr (Or.inl rfl)
  · obtain ⟨hkey, hlen⟩ := keyText_pkStrOf hne
    constructor
    · intro haccepts
      by_contra hlong
      obtain ⟨c, hdigit, hget⟩ := digit_of_accepts_overflow htext (by omega) haccepts
      -- in the text, the character at which the counter overflows is a separator
      have hcolon := ((spaced_iff _).mpr (Or.inr hkey)).1 (2 ^ 31) c hget
      rw [if_pos (by decide)] at hcolon
      exact ne_colon_of_mem hdigit hcolon
    · intro hshort
      exact (accepts_iff htext (by omega)).mpr (Or.inr hkey)

/-- The key comes back from the chain exactly when its text is not too long for the check. -/
theorem scrape_roundtrip_iff (ip domain : Str) (derCert : Bytes) :
    ScrapesBack publicKeyOf ip domain derCert ↔ (publicKeyOf derCert).length ≤ 715827883 := by
  rw [← accepts_pkStrOf_iff]
  constructor
  · intro h
    obtain ⟨text, -, -, htext, haccepts, -⟩ := h
    obtain rfl := Except.ok.inj ((scrapedKey_eq publicKeyOf derCert).symm.trans htext)
    exact haccepts
  · intro haccepts
    refine ⟨_, _, _, scrapedKey_eq publicKeyOf derCert, haccepts, new_pkStrOf ip domain _,
      decodeCertificate_encode _, ?_⟩
    intro c hc
    obtain rfl | rfl := hc
    · exact ⟨rfl, fun server => refuses_iff publicKeyOf⟩
    · exact ⟨rfl, fun server => refuses_iff publicKeyOf⟩

end

/-- The shortest keys that are too long. -/
theorem scrape_too_long :
    ¬ ScrapesBack id [] [] (List.replicate 715827884 0) := by
  intro h
  obtain ⟨text, -, -, htext, haccepts, -⟩ := h
  obtain rfl := Except.ok.inj ((scrapedKey_eq id _).symm.trans htext)
  have hlen := (accepts_pkStrOf_iff _).mp haccepts
  rw [id, List.length_replicate] at hlen
  omega

end Siip.Proxy
