/-
  `HttpUrl.parse` on the texts of its grammar, `[protocol://]host[:port][/uri]`.

  The first split looks for `://` in the whole text. Where the protocol is given it ends there;
  where it is not, the split may find a `://` of the uri, and then takes what is before it for the
  protocol. Everywhere else the parts are read as they are written (`parse_urlText_iff`).
-/
import Siip.Proxy.HttpParse

namespace Siip.Proxy

open Python

/-! ## The grammar -/

/-- A port in decimal. -/
structure PortText where
  text : Bytes
  number : Nat
  text_eq : numeral 10 text = some number

/-- The parts of a URL. The uri is what follows its slash. -/
structure UrlText where
  protocol : Option Bytes
  host : Bytes
  port : Option PortText
  uri : Option Bytes
  protocol_free : ∀ p ∈ protocol, p ≠ [] ∧ 58 ∉ p ∧ 47 ∉ p
  host_free : host ≠ [] ∧ 58 ∉ host ∧ 47 ∉ host

namespace UrlText

variable (self : UrlText)

def protocolBytes : Bytes :=
  match self.protocol with
  | some protocol => protocol ++ asBytes "://"
  | none => []

def portBytes : Bytes :=
  match self.port with
  | some port => asBytes ":" ++ port.text
  | none => []

def uriBytes : Bytes :=
  match self.uri with
  | some uri => asBytes "/" ++ uri
  | none => []

def bytes : Bytes := self.protocolBytes ++ (self.host ++ self.portBytes ++ self.uriBytes)

/-- What the parts say. -/
def url : HttpUrl :=
  let protocol :=
    match self.protocol with
    | some protocol => lower protocol
    | none => asBytes "https"
  { protocol
    host := lower self.host
    port :=
      match self.port with
      | some port => port.number
      | none => if protocol = asBytes "https" then 443 else 80
    uri :=
      match self.uri with
      | some uri => asBytes "/" ++ uri
      | none => asBytes "/" }

end UrlText

/-! ## The three splits -/

theorem slash_eq : asBytes "/" = [47] := by decide +kernel

theorem colon_eq : asBytes ":" = [58] := by decide +kernel

theorem protocolEnd_eq : asBytes "://" = [58, 47, 47] := by decide +kernel

/-- The protocol and what follows it, as `parse` takes them. -/
def splitProtocol (string : Bytes) : Bytes × Bytes :=
  match splitMax (asBytes "://") 1 string with
  | [protocol, string] => (lower protocol, string)
  | _ => (asBytes "https", string)

/-- The host with its port, and the uri. -/
def splitUri (string : Bytes) : Bytes × Bytes :=
  match splitMax (asBytes "/") 1 string with
  | [host, url] => (host, asBytes "/" ++ url)
  | _ => (string, asBytes "/")

/-- The host without its port, and the URL of the parts. -/
def splitPort (protocol host uri : Bytes) : Except Exn HttpUrl :=
  if (find (asBytes ":") host).isSome then
    match split (asBytes ":") host with
    | [host, port] =>
      match int 10 port with
      | none => .error (.intLiteral 10 port)
      | some port => .ok { protocol, host := lower host, port, uri }
    | fields => .error (.unpack 2 fields.length)
  else
    let port := if protocol = asBytes "https" then 443 else 80
    .ok { protocol, host := lower host, port, uri }

theorem parse_eq (string : Bytes) :
    HttpUrl.parse string =
      splitPort (splitProtocol string).1 (splitUri (splitProtocol string).2).1
        (splitUri (splitProtocol string).2).2 := rfl

theorem splitProtocol_append {protocol : Bytes} (h : 58 ∉ protocol) (rest : Bytes) :
    splitProtocol (protocol ++ asBytes "://" ++ rest) = (lower protocol, rest) := by
  rw [splitProtocol, protocolEnd_eq, splitMax_of_notMem h]
  rfl

theorem splitProtocol_of_find {string : Bytes} (h : find (asBytes "://") string = none) :
    splitProtocol string = (asBytes "https", string) := by
  rw [splitProtocol, splitMax, h]

theorem splitUri_append {host : Bytes} (h : 47 ∉ host) (uri : Bytes) :
    splitUri (host ++ 47 :: uri) = (host, 47 :: uri) := by
  rw [splitUri, slash_eq, splitMax_singleton_append h]
  rfl

theorem splitUri_of_notMem {host : Bytes} (h : 47 ∉ host) : splitUri host = (host, asBytes "/") := by
  unfold splitUri
  rw [slash_eq, splitMax, find_singleton_eq_none h]

section

variable {host : Bytes} (h : 58 ∉ host) (protocol uri : Bytes)

include h

theorem splitPort_of_notMem :
    splitPort protocol host uri =
      .ok ⟨protocol, lower host, if protocol = asBytes "https" then 443 else 80, uri⟩ := by
  rw [splitPort, colon_eq, find_singleton_eq_none h, Option.isSome_none, if_neg (by decide)]

/-- Up to its first colon the host is read as it is. -/
theorem splitPort_append (port : Bytes) :
    splitPort protocol (host ++ 58 :: port) uri =
      match host :: port.splitOn 58 with
      | [host, port] =>
        match int 10 port with
        | none => .error (.intLiteral 10 port)
        | some port => .ok { protocol, host := lower host, port, uri }
      | fields => .error (.unpack 2 fields.length) := by
  rw [splitPort, colon_eq, find_singleton_append h, Option.isSome_some, if_pos rfl, split_singleton,
    List.splitOn_append_cons_self_of_not_mem h]

end

theorem PortText.digits (port : PortText) :
    port.text ≠ [] ∧ ∀ b ∈ port.text, 48 ≤ b.toNat ∧ b ≠ 58 := by
  obtain ⟨hne, hdigits⟩ := digitValue_of_numeral port.text_eq
  refine ⟨hne, fun b hb => ?_⟩
  obtain ⟨d, hd⟩ := hdigits b hb
  have hrange := range_of_digitValue (by decide) hd
  refine ⟨by omega, ?_⟩
  rintro rfl
  exact absurd hrange (by decide)

namespace UrlText

variable (self : UrlText)

theorem slash_notMem_port : 47 ∉ self.portBytes := by
  unfold portBytes
  split
  · rename_i port _
    rw [colon_eq, List.mem_append, not_or]
    refine ⟨by decide, fun h => ?_⟩
    exact absurd (port.digits.2 47 h).1 (by decide)
  · exact List.not_mem_nil

/-- A `://` after the protocol is one of the uri. -/
theorem find_protocolEnd :
    find (asBytes "://") (self.host ++ self.portBytes ++ self.uriBytes) =
      (find (asBytes "://") self.uriBytes).map (· + (self.host ++ self.portBytes).length) := by
  rw [protocolEnd_eq, List.append_assoc, find_append_of_notMem self.host_free.2.1]
  unfold portBytes
  split
  · rename_i port _
    obtain ⟨hne, hdigits⟩ := port.digits
    have hcolon : 58 ∉ port.text := fun h => (hdigits 58 h).2 rfl
    -- behind the colon of the port comes a digit
    have hpre : ¬ [58, 47, 47].isPrefixOf (58 :: (port.text ++ self.uriBytes)) = true := by
      obtain ⟨d, ds, htext⟩ := List.exists_cons_of_ne_nil hne
      have hd : d ≠ 47 := by
        rintro rfl
        exact absurd (hdigits 47 (htext ▸ List.mem_cons_self)).1 (by decide)
      simp [htext, List.isPrefixOf, hd.symm]
    rw [colon_eq, List.singleton_append, List.cons_append, find, if_neg hpre,
      find_append_of_notMem hcolon, Option.map_map, Option.map_map]
    refine congrArg (Option.map · (find [58, 47, 47] self.uriBytes)) (funext fun i => ?_)
    simp only [Function.comp, List.length_append, List.length_cons]
    omega
  · rw [List.nil_append, List.append_nil]

/-- The split finds the protocol, and the default one unless the uri has a `://` in it. -/
theorem splitProtocol_bytes
    (h : self.protocol.isSome ∨ find (asBytes "://") self.uriBytes = none) :
    splitProtocol self.bytes =
      (self.url.protocol, self.host ++ self.portBytes ++ self.uriBytes) := by
  unfold bytes protocolBytes url
  cases hprotocol : self.protocol with
  | some protocol => exact splitProtocol_append (self.protocol_free protocol hprotocol).2.1 _
  | none =>
    have hfind := self.find_protocolEnd
    rw [h.resolve_left (by simp [hprotocol]), Option.map_none] at hfind
    exact splitProtocol_of_find hfind

/-- The rest is cut at its first slash. -/
theorem splitUri_bytes :
    splitUri (self.host ++ self.portBytes ++ self.uriBytes) =
      (self.host ++ self.portBytes, self.url.uri) := by
  have hslash : 47 ∉ self.host ++ self.portBytes := by
    rw [List.mem_append, not_or]
    exact ⟨self.host_free.2.2, self.slash_notMem_port⟩
  unfold uriBytes url
  cases self.uri with
  | some uri =>
    dsimp only
    rw [slash_eq]
    exact splitUri_append hslash uri
  | none =>
    dsimp only
    rw [List.append_nil]
    exact splitUri_of_notMem hslash

/-- The part before it, at its only colon. -/
theorem splitPort_bytes :
    splitPort self.url.protocol (self.host ++ self.portBytes) self.url.uri = .ok self.url := by
  have hcolon := self.host_free.2.1
  cases hport : self.port with
  | some port =>
    have hbytes : self.host ++ self.portBytes = self.host ++ 58 :: port.text := by
      rw [portBytes, hport, colon_eq]
      rfl
    have hdigits : 58 ∉ port.text := fun h => (port.digits.2 58 h).2 rfl
    rw [hbytes, splitPort_append hcolon, List.splitOn_eq_singleton hdigits]
    simp only [int_of_numeral (by decide) port.text_eq, url, hport]
  | none =>
    have hbytes : self.host ++ self.portBytes = self.host := by
      rw [portBytes, hport, List.append_nil]
    rw [hbytes, splitPort_of_notMem hcolon]
    simp only [url, hport]

end UrlText

/-! ## The grammar is read -/

/-- The protocol that `parse` returns is the one that the first split gives. -/
theorem protocol_of_parse {string : Bytes} {url : HttpUrl} (h : HttpUrl.parse string = .ok url) :
    url.protocol = (splitProtocol string).1 := by
  rw [parse_eq, splitPort] at h
  split at h
  · split at h
    · split at h
      · exact absurd h (by simp)
      · obtain ⟨⟩ := h
        rfl
    · exact absurd h (by simp)
  · obtain ⟨⟩ := h
    rfl

/-- A `://` of the uri is taken for the end of the protocol, which then has a slash in it. -/
theorem slash_mem_protocol {self : UrlText} (hprotocol : self.protocol = none) {i : Nat}
    (h : find (asBytes "://") self.uriBytes = some i) : 47 ∈ (splitProtocol self.bytes).1 := by
  have hfind := self.find_protocolEnd
  rw [h, Option.map_some] at hfind
  have hmem : 47 ∈ self.uriBytes.take i := by
    unfold UrlText.uriBytes at h ⊢
    cases huri : self.uri with
    | none =>
      rw [huri] at h
      exact absurd h (by simp [protocolEnd_eq, find])
    | some uri =>
      rw [huri] at h
      dsimp only at h ⊢
      rw [slash_eq, protocolEnd_eq, find_append_of_notMem (by decide)] at h
      obtain ⟨j, -, rfl⟩ := Option.map_eq_some_iff.mp h
      rw [slash_eq, List.singleton_append]
      exact List.mem_cons_self
  have hbytes : self.bytes = self.host ++ self.portBytes ++ self.uriBytes := by
    rw [UrlText.bytes, UrlText.protocolBytes, hprotocol]
    rfl
  have htake : self.bytes.take (i + (self.host ++ self.portBytes).length) =
      self.host ++ self.portBytes ++ self.uriBytes.take i := by
    rw [hbytes, Nat.add_comm, List.take_length_add_append]
  rw [splitProtocol, splitMax, hbytes, hfind, ← hbytes]
  dsimp only
  rw [htake]
  exact List.mem_map.mpr ⟨47, List.mem_append_right _ hmem, by decide⟩

/-- `parse` reads the grammar, but for the URLs without protocol whose uri has a `://` in it. -/
theorem parse_urlText_iff (self : UrlText) :
    HttpUrl.parse self.bytes = .ok self.url ↔
      self.protocol.isSome ∨ find (asBytes "://") self.uriBytes = none := by
  constructor
  · intro h
    by_contra hnot
    obtain ⟨hprotocol, huri⟩ := not_or.mp hnot
    have hnone : self.protocol = none := by simpa using hprotocol
    obtain ⟨i, hi⟩ := Option.ne_none_iff_exists'.mp huri
    have hslash := slash_mem_protocol hnone hi
    have hdefault : self.url.protocol = asBytes "https" := by
      rw [UrlText.url, hnone]
    rw [← protocol_of_parse h, hdefault] at hslash
    exact absurd hslash (by decide +kernel)
  · intro h
    rw [parse_eq, self.splitProtocol_bytes h, self.splitUri_bytes]
    exact self.splitPort_bytes

/-- A host, a path, and another URL in the query. -/
def nestedUrl : UrlText where
  protocol := none
  host := asBytes "a.b"
  port := none
  uri := some (asBytes "?u=http://c.d/")
  protocol_free := fun p hp => absurd hp (Option.not_mem_none p)
  host_free := by decide +kernel

/-- The other URL is taken for the one that is asked for. -/
theorem nestedUrl_misread :
    HttpUrl.parse nestedUrl.bytes =
        .ok ⟨asBytes "a.b/?u=http", asBytes "c.d", 80, asBytes "/"⟩ ∧
      nestedUrl.url = ⟨asBytes "https", asBytes "a.b", 443, asBytes "/?u=http://c.d/"⟩ ∧
      HttpUrl.parse nestedUrl.bytes ≠ .ok nestedUrl.url := by
  have hparse : HttpUrl.parse nestedUrl.bytes =
      .ok ⟨asBytes "a.b/?u=http", asBytes "c.d", 80, asBytes "/"⟩ := by
    decide +kernel
  refine ⟨hparse, by decide +kernel, fun h => ?_⟩
  have hurl := Except.ok.inj (hparse.symm.trans h)
  exact absurd (congrArg HttpUrl.port hurl) (by decide +kernel)

end Siip.Proxy
