/-
  `siip_certificate`: the certificate as the proxy holds it, its check against a server's, and
  its encoding in the cache.

  The three library calls that turn a DER certificate into the PEM text of its public key are one
  parameter, `dumpPublickey`.
-/
import Siip.Lib.Json
import Siip.Proxy.Socket

namespace Siip.Proxy

open Python

structure SiipCertificate where
  ip : Str
  domain : Str
  publicKey : Bytes
  deriving DecidableEq

namespace SiipCertificate

/-- `SiipCertificate(ip, domain, public_key)`: a `str` is hexadecimal, with or without colons. -/
def new (ip domain : Str) : Value → Except Exn SiipCertificate
  | .str publicKey =>
    let text := publicKey.filter (· ≠ ':')
    match fromHex text with
    | none => .error (.fromHex text)
    | some publicKey => .ok { ip, domain, publicKey }
  | .bytes publicKey => .ok { ip, domain, publicKey }

/-- `_pk_str` -/
def pkStrOf (s : Bytes) : Str :=
  [':'].intercalate (s.map fun x => (hex [x]).map Char.toUpper)

def pkStr (self : SiipCertificate) : Str := pkStrOf self.publicKey

/-- The public key in the PEM text of one. -/
def pkBytes (pkStr : Bytes) : Option Bytes :=
  b64decode ((splitlines pkStr).drop 1).dropLast.flatten

def verify (dumpPublickey : Bytes → Except Exn Bytes) (self : SiipCertificate) (derCert : Bytes) :
    Except Exn Unit :=
  match dumpPublickey derCert with
  | .error e => .error e
  | .ok pkStr =>
    match pkBytes pkStr with
    | none => .error (.binascii pkStr)
    | some pk =>
      if self.publicKey ≠ pk then
        .error (.siipCert ("Invalid SIIP Certificate ".toList ++ pkStrOf pk))
      else .ok ()

def encode (self : SiipCertificate) : Str :=
  Json.dumps [("ip".toList, self.ip), ("domain".toList, self.domain),
    ("public_key".toList, hex self.publicKey)]

end SiipCertificate

/-- `fields[name]`: of two members of one name the later counts. -/
def field (name : Str) (fields : List (Str × Str)) : Except Exn Str :=
  match fields.reverse.lookup name with
  | none => .error (.key name)
  | some value => .ok value

def decodeCertificate (encoded : Str) : Except Exn SiipCertificate :=
  match Json.loads encoded with
  | none => .error (.jsonDecode encoded)
  | some fields => do
    let ip ← field "ip".toList fields
    let domain ← field "domain".toList fields
    let publicKey ← field "public_key".toList fields
    SiipCertificate.new ip domain (.str publicKey)

/-! ## What is encoded is decoded, what is verified is the server's key -/

theorem SiipCertificate.new_eq_ok_iff {ip domain key : Str} {c : SiipCertificate} :
    SiipCertificate.new ip domain (.str key) = .ok c ↔
      ip = c.ip ∧ domain = c.domain ∧ fromHex (key.filter (· ≠ ':')) = some c.publicKey := by
  obtain ⟨ip', domain', publicKey⟩ := c
  unfold new
  dsimp only
  cases fromHex (key.filter (· ≠ ':')) <;> simp

theorem SiipCertificate.toOption_new_eq_some_iff {ip domain key : Str} {c : SiipCertificate} :
    (SiipCertificate.new ip domain (.str key)).toOption = some c ↔
      ip = c.ip ∧ domain = c.domain ∧ fromHex (key.filter (· ≠ ':')) = some c.publicKey := by
  rw [← SiipCertificate.new_eq_ok_iff]
  cases SiipCertificate.new ip domain (.str key) <;> simp [Except.toOption]

theorem SiipCertificate.verify_eq_ok_iff {dumpPublickey : Bytes → Except Exn Bytes}
    {cert : SiipCertificate} {derCert : Bytes} :
    cert.verify dumpPublickey derCert = .ok () ↔
      ∃ pkStr, dumpPublickey derCert = .ok pkStr ∧ pkBytes pkStr = some cert.publicKey := by
  unfold verify
  cases dumpPublickey derCert with
  | error e => simp
  | ok pkStr =>
    cases hpk : pkBytes pkStr with
    | none => simp [hpk]
    | some pk =>
      by_cases hkey : cert.publicKey = pk
      · simp [hkey, hpk]
      · simp [hkey, hpk, Ne.symm hkey]

theorem decodeCertificate_encode (cert : SiipCertificate) :
    decodeCertificate cert.encode = .ok cert := by
  have hcolon : (hex cert.publicKey).filter (· ≠ ':') = hex cert.publicKey := by
    rw [List.filter_eq_self]
    intro c hc
    exact decide_eq_true fun h => colon_notMem_hex cert.publicKey (h ▸ hc)
  rw [decodeCertificate, SiipCertificate.encode, Json.loads_dumps]
  change SiipCertificate.new cert.ip cert.domain (.str (hex cert.publicKey)) = .ok cert
  rw [SiipCertificate.new, hcolon, fromHex_hex]

end Siip.Proxy
