/-
  What `handle_http` writes to a server is one well-formed request, whatever the client has sent.

  A dictionary that `parse_header` has built is `Writable`: each name stands there once, in its
  canonical form, and every field fits in a line. `handle_http` keeps it so, and it cuts the host
  and the path out of a URL that had neither a blank nor an end of line in it. So no client can put
  a line of its own into the header block (`forwarded_request`). It can take `Content-Length` out
  of it, and then the body that follows is no body to the server.
-/
import Siip.Proxy.HopByHop
import Siip.Proxy.HeaderFormat
import Siip.Proxy.MessageBoundary
import Siip.Proxy.UrlText
import Siip.Proxy.Response
import Siip.Proxy.Tunnel

namespace Siip.Proxy

open Lib Python

/-! ## Dictionaries that can be written -/

/-- Names once each and in canonical form, and fields that fit in a line. -/
structure Writable (headers : Headers) : Prop where
  nodup : headers.names.Nodup
  canonical : ∀ name ∈ headers.names, capitalize name = name
  free : ∀ f ∈ headers, FieldFree f

theorem find_capitalize {a b : UInt8} (ha : ∀ c, lowerByte c = a ↔ c = a)
    (hb : ∀ c, lowerByte c = b ↔ c = b) (name : Bytes) :
    find [a, b] (capitalize name) = none ↔ find [a, b] name = none := by
  have hlower : ∀ s : Bytes, find [a, b] (lower s) = none ↔ find [a, b] s = none :=
    find_map_eq_none_iff ha hb
  rw [← hlower, lower_capitalize, hlower]

theorem FieldFree.capitalize {f : Bytes × Bytes} (h : FieldFree f) :
    FieldFree (capitalize f.1, f.2) := by
  have hsep : asBytes ": " = [58, 32] := by decide
  obtain ⟨hkey, hline, hvalue⟩ := h
  rw [hsep] at hkey
  refine ⟨?_, ?_, hvalue⟩
  · rw [hsep]
    exact (find_capitalize (by decide +kernel) (by decide +kernel) f.1).mpr hkey
  · exact (find_capitalize (by decide +kernel) (by decide +kernel) f.1).mpr hline

theorem FieldFree.join {key old value : Bytes} (hold : FieldFree (key, old))
    (h : FieldFree (key, value)) : FieldFree (key, old ++ asBytes "," ++ value) := by
  have hsep : asBytes "," = [44] := by decide
  refine ⟨h.1, h.2.1, ?_⟩
  rw [hsep, List.append_assoc]
  exact find_append_cons (by decide) (by decide) hold.2.2 h.2.2

theorem Headers.mem_of_get? {headers : Headers} {name value : Bytes}
    (h : headers.get? name = some value) : (name, value) ∈ headers := by
  obtain ⟨f, hfind, rfl⟩ := Option.map_eq_some_iff.mp h
  obtain rfl : f.1 = name := by simpa using List.find?_some hfind
  exact List.mem_of_find?_eq_some hfind

theorem Headers.mem_set {headers : Headers} {key value : Bytes} {f : Bytes × Bytes}
    (h : f ∈ Headers.set key value headers) : f = (key, value) ∨ f ∈ headers := by
  induction headers with
  | nil => exact .inl (List.mem_singleton.mp h)
  | cons g headers ih =>
    rw [set] at h
    split at h
    · rcases List.mem_cons.mp h with rfl | h
      · exact .inl rfl
      · exact .inr (List.mem_cons_of_mem g h)
    · rcases List.mem_cons.mp h with rfl | h
      · exact .inr List.mem_cons_self
      · exact (ih h).imp id (List.mem_cons_of_mem g)

namespace Writable

variable {headers : Headers}

theorem nil : Writable [] := ⟨List.nodup_nil, by simp [Headers.names], by simp⟩

theorem set (h : Writable headers) {key value : Bytes} (hkey : capitalize key = key)
    (hfree : FieldFree (key, value)) : Writable (Headers.set key value headers) where
  nodup := Headers.nodup_set _ _ _ h.nodup
  canonical name hname := by
    rw [Headers.names_set] at hname
    split at hname
    · exact h.canonical name hname
    · rcases List.mem_append.mp hname with hmem | hmem
      · exact h.canonical name hmem
      · rwa [List.mem_singleton.mp hmem]
  free f hf := by
    rcases Headers.mem_set hf with rfl | hmem
    · exact hfree
    · exact h.free f hmem

theorem add (h : Writable headers) {key value : Bytes} (hkey : capitalize key = key)
    (hfree : FieldFree (key, value)) : Writable (headers.add key value) := by
  unfold Headers.add
  split
  · rename_i old hget
    exact h.set hkey ((h.free _ (Headers.mem_of_get? hget)).join hfree)
  · exact h.set hkey hfree

theorem addAll {fields : List (Bytes × Bytes)} (hfields : ∀ f ∈ fields, FieldFree f) :
    Writable (Headers.addAll [] fields) := by
  induction fields using List.reverseRecOn with
  | nil => exact .nil
  | append_singleton fields f ih =>
    rw [Headers.addAll_concat]
    obtain ⟨hinit, hlast⟩ := List.forall_mem_append.mp hfields
    exact (ih hinit).add (capitalize_capitalize f.1)
      (hlast f (List.mem_singleton_self f)).capitalize

theorem pop (h : Writable headers) (key : Bytes) : Writable (headers.pop key) := by
  have hsub : (headers.pop key).names.Sublist headers.names :=
    List.filter_sublist.map Prod.fst
  exact ⟨hsub.nodup h.nodup, fun name hname => h.canonical name (hsub.subset hname),
    fun f hf => h.free f (List.mem_of_mem_filter hf)⟩

theorem popAll (h : Writable headers) (keys : List Bytes) : Writable (headers.popAll keys) := by
  unfold Headers.popAll
  induction keys generalizing headers with
  | nil => exact h
  | cons key keys ih => exact ih (h.pop key)

/-- Read as the fields of a header block, it is itself again. -/
theorem addAll_self (h : Writable headers) : Headers.addAll [] headers = headers := by
  have hnames : (headers.map fun f => capitalize f.1) = headers.names :=
    List.map_congr_left fun f hf => h.canonical f.1 (List.mem_map_of_mem hf)
  rw [Headers.addAll_of_nodup (hnames ▸ h.nodup)]
  refine (List.map_congr_left fun f hf => ?_).trans headers.map_id
  rw [h.canonical f.1 (List.mem_map_of_mem hf)]
  rfl

end Writable

/-! ## What is cut out of a URL -/

section

variable {string : Bytes}

theorem infix_splitProtocol : (splitProtocol string).2 <:+: string := by
  unfold splitProtocol
  split
  · rename_i protocol rest hsplit
    exact infix_of_mem_splitMax (n := 1) (by rw [hsplit]; simp)
  · exact List.infix_refl string

theorem infix_splitUri : (splitUri string).1 <:+: string ∧
    ∃ uri, uri <:+: string ∧ (splitUri string).2 = 47 :: uri := by
  unfold splitUri
  split
  · rename_i host uri hsplit
    have hfield : ∀ f ∈ [host, uri], f <:+: string := fun f hf =>
      infix_of_mem_splitMax (n := 1) (hsplit ▸ hf)
    exact ⟨hfield host (by simp), uri, hfield uri (by simp), by rw [slash_eq]; rfl⟩
  · exact ⟨List.infix_refl string, [], List.nil_infix, slash_eq⟩

theorem splitPort_eq_ok {protocol host uri : Bytes} {url : HttpUrl}
    (h : splitPort protocol host uri = .ok url) :
    url.uri = uri ∧ ∃ name, name <:+: host ∧ url.host = lower name := by
  unfold splitPort at h
  split at h
  · split at h
    · rename_i name port hsplit
      split at h
      · exact absurd h (by simp)
      · cases h
        exact ⟨rfl, name, infix_of_mem_splitMax (n := host.length) (hsplit ▸ List.mem_cons_self),
          rfl⟩
    · exact absurd h (by simp)
  · cases h
    exact ⟨rfl, host, List.infix_refl host, rfl⟩

/-- Host and path come from the text of the URL. -/
theorem infix_of_parse {url : HttpUrl} (h : HttpUrl.parse string = .ok url) :
    (∃ name, name <:+: string ∧ url.host = lower name) ∧
      ∃ uri, uri <:+: string ∧ url.uri = 47 :: uri := by
  rw [parse_eq] at h
  obtain ⟨huri, name, hname, hhost⟩ := splitPort_eq_ok h
  obtain ⟨hsub, uri, hsuffix, hsplit⟩ :
      (splitUri (splitProtocol string).2).1 <:+: (splitProtocol string).2 ∧
        ∃ uri, uri <:+: (splitProtocol string).2 ∧
          (splitUri (splitProtocol string).2).2 = 47 :: uri := infix_splitUri
  exact ⟨⟨name, (hname.trans hsub).trans infix_splitProtocol, hhost⟩, uri,
    hsuffix.trans infix_splitProtocol, huri.trans hsplit⟩

/-- A URL of a request line gives a path of a request line, and a host that fits in a line. -/
theorem free_of_parse {url : HttpUrl} (h : HttpUrl.parse string = .ok url) (hspace : 32 ∉ string)
    (hline : find crlf string = none) :
    (32 ∉ url.uri ∧ find crlf url.uri = none) ∧ find crlf url.host = none := by
  obtain ⟨⟨name, hname, hhost⟩, uri, huri, hslash⟩ := infix_of_parse h
  rw [hhost, hslash]
  refine ⟨⟨?_, ?_⟩, ?_⟩
  · exact fun hmem => hspace (huri.subset ((List.mem_cons.mp hmem).resolve_left (by decide)))
  · exact find_append_cons (s := []) (by decide) (by decide) rfl
      (find_eq_none_of_isInfix huri hline)
  · exact (find_map_eq_none_iff (by decide +kernel) (by decide +kernel) name).mpr
      (find_eq_none_of_isInfix hname hline)

end

/-! ## What `handle_http` forwards -/

/-- The header block that the proxy writes can be written. -/
theorem writable_forwardedHeaders {self : HttpRequest} {text : Bytes} {url : HttpUrl}
    {headers : Headers} (hself : Writable self.headers) (htext : self.url = some text)
    (hurl : HttpUrl.parse text = .ok url) (hhost : find crlf url.host = none)
    (h : self.forwardedHeaders = .ok headers) : Writable headers := by
  have hnames : ∀ name ∈ [asBytes "Host", asBytes "Content-Length"],
      capitalize name = name ∧ find (asBytes ": ") name = none ∧ find crlf name = none := by
    decide +kernel
  obtain ⟨⟨hcap, hkey, hline⟩, hcap', hkey', hline'⟩ := by simpa using hnames
  have hset := hself.set hcap ⟨hkey, hline, hhost⟩
  unfold HttpRequest.forwardedHeaders at h
  rw [htext] at h
  dsimp only at h
  rw [hurl] at h
  obtain rfl := Except.ok.inj h
  refine Writable.popAll (Writable.popAll ?_ _) _
  cases self.body with
  | none => exact hset
  | some body =>
    exact hset.set hcap' ⟨hkey', hline', (Response.decimal_free body.length).2⟩

/-! ## When there is no body -/

/-- Something that the client sends says that a body follows. -/
def HttpRequest.Announced (self : HttpRequest) : Prop :=
  self.headers.isChunked ∨ self.headers.get? (asBytes "Content-Length") ≠ none

theorem addBody_isSome {body body' : Option Bytes} {data : Bytes}
    (h : addBody body data = .ok body') : body'.isSome = true := by
  cases body with
  | none => exact absurd h (by simp [addBody])
  | some body =>
    cases h
    rfl

theorem chunk_isSome {self self' : BodyParser} {buf buf' : Bytes}
    (h : chunk self buf = .ok (some (self', buf'))) : self'.body.isSome = true := by
  unfold chunk at h
  split at h
  · exact absurd h (by simp)
  · dsimp only at h
    split at h
    · exact absurd h (by simp)
    · split at h
      · exact absurd h (by simp)
      · split at h
        · exact absurd h (by simp)
        · rename_i body hadd
          cases h
          exact addBody_isSome hadd

namespace HttpRequest

theorem feedBody_isSome {self : HttpRequest} (hself : self.Announced) {s s' : BodyParser × Bytes}
    {rcvd : Bytes} (h : self.feedBody s rcvd = .ok s') (hs : s.1.body.isSome = true) :
    s'.1.body.isSome = true := by
  unfold feedBody at h
  split at h
  · exact Pass.drain_keeps (P := fun st : BodyParser => st.body.isSome = true)
      (fun hrun _ => chunk_isSome hrun) h hs
  · rename_i hplain
    obtain ⟨value, hvalue⟩ := Option.ne_none_iff_exists'.mp (hself.resolve_left hplain)
    rw [hvalue] at h
    dsimp only at h
    split at h
    · exact absurd h (by simp)
    · split at h
      · exact absurd h (by simp)
      · rename_i body hadd
        cases h
        exact addBody_isSome hadd

/-- A request without a body is one in which nothing has announced a body. -/
theorem isSome_of_parseBody {self request : HttpRequest} (hself : self.Announced)
    {sock sock' : BufferedSocket} (hbody : self.body.isSome = true)
    (h : self.parseBody sock = .ok (request, sock')) : request.body.isSome = true := by
  unfold parseBody at h
  split at h
  · exact absurd h (by simp)
  · rename_i s hfirst
    obtain ⟨r, hloop, h⟩ := bind_eq_ok_iff.mp h
    obtain ⟨-, rfl, -⟩ := finishBody_eq_ok h
    exact recvLoop_keeps (P := fun s : BodyParser × Bytes => s.1.body.isSome = true)
      (fun hfeed hs => feedBody_isSome hself hfeed hs) hloop (feedBody_isSome hself hfirst hbody)

/-- Where nothing announces a body, nothing is received. -/
theorem parseBody_of_not_announced {self : HttpRequest} (hself : ¬ self.Announced)
    (sock : BufferedSocket) : self.parseBody sock = .ok ({ self with body := none }, sock) := by
  obtain ⟨hplain, hunsized⟩ := not_or.mp hself
  unfold Headers.isChunked at hplain
  have hfirst : self.feedBody ({ body := self.body, done := false }, []) [] =
      .ok ({ body := none, done := true }, []) := by
    rw [feedBody, if_neg hplain, not_not.mp hunsized]
    rfl
  rw [parseBody, hfirst]
  dsimp only
  rw [recvLoop_of_done rfl]
  rfl

/-- What `parse` returns began with a header block. -/
theorem head_of_parse {sock sock' : BufferedSocket} {request : HttpRequest}
    (h : HttpRequest.parse sock = .ok (some request, sock')) :
    ∃ (head : RequestHead) (sock'' : BufferedSocket),
      sock.unread = head.bytes ++ sock''.unread ∧
        head.request.parseBody sock'' = .ok (request, sock') := by
  obtain ⟨⟨header, sock''⟩, hheader, h⟩ := bind_eq_ok_iff.mp h
  cases header with
  | none => exact absurd h (by simp)
  | some header =>
    obtain ⟨⟨request', sock'''⟩, hbody, h⟩ := bind_eq_ok_iff.mp h
    cases h
    obtain ⟨head, rfl, hunread⟩ := head_of_parseHeader hheader
    exact ⟨head, sock'', hunread, hbody⟩

end HttpRequest

/-! ## What the server reads -/

/-- The head that is written for a URL, with a dictionary of headers. -/
def RequestHead.forwarded (self : RequestHead) {url : HttpUrl}
    (hurl : HttpUrl.parse self.url = .ok url) {headers : Headers} (hheaders : Writable headers) :
    RequestHead where
  method := self.method
  url := url.uri
  version := self.version
  fields := headers
  method_free := self.method_free
  url_free := (free_of_parse hurl self.url_free.1 self.url_free.2).1
  version_free := self.version_free
  fields_free := hheaders.free

/-- The header block and the body that follows it, as the server reads them from a connection that
    is closed after them. -/
def ReadAs (head : RequestHead) (stream : Bytes) (body : Option Bytes) (rest : Bytes) : Prop :=
  ∀ cut : Segmentation stream, ∃ sock,
    HttpRequest.parse ⟨⟨cut.pieces, true⟩, []⟩ = .ok (some { head.request with body }, sock) ∧
      sock.unread = rest

theorem readAs_of_sized {head : RequestHead} {body : Bytes} (hplain : ¬ head.headers.isChunked)
    (hlength : head.headers.get? (asBytes "Content-Length") = some (decimal body.length)) :
    ReadAs head (head.bytes ++ body) (some body) [] := by
  intro cut
  obtain ⟨sock, hheader, hunread, hclosed⟩ := parseHeader_of_head head body cut true
  let m : Message := ⟨head, .sized body hplain (by
    rw [hlength, Option.bind_some, numeral_decimal])⟩
  obtain ⟨sock', hbody, hnil⟩ := m.parseBody_of_closed hunread hclosed
  refine ⟨sock', ?_, hnil⟩
  rw [HttpRequest.parse_of_header hheader]
  exact congrArg (Except.bind · _) hbody

theorem readAs_of_not_announced {head : RequestHead} (h : ¬ head.request.Announced)
    (rest : Bytes) : ReadAs head (head.bytes ++ rest) none rest := by
  intro cut
  obtain ⟨sock, hheader, hunread, -⟩ := parseHeader_of_head head rest cut true
  refine ⟨sock, ?_, hunread⟩
  rw [HttpRequest.parse_of_header hheader, HttpRequest.parseBody_of_not_announced h]
  rfl

/-- What the headers that are forwarded say of a body. -/
theorem framing_of_forwardedHeaders {self : HttpRequest} {text : Bytes} {url : HttpUrl}
    {headers : Headers} (htext : self.url = some text) (hurl : HttpUrl.parse text = .ok url)
    (h : self.forwardedHeaders = .ok headers)
    (hbody : self.body = none → self.headers.get? (asBytes "Content-Length") = none) :
    ¬ headers.isChunked ∧ headers.get? (asBytes "Content-Length") =
      if asBytes "Content-Length" ∈ self.connectionHeaders then none
      else self.body.map fun body => decimal body.length := by
  obtain ⟨headers', hheaders, hget⟩ := HttpRequest.get?_forwardedHeaders htext hurl
  obtain rfl : headers = headers' := Except.ok.inj (h.symm.trans hheaders)
  constructor
  · have hhop : asBytes "Transfer-Encoding" ∈ hopByHopHeaders := by decide +kernel
    rw [Headers.isChunked, hget, if_pos (Or.inl hhop)]
    exact Option.some_ne_none _ ∘ Eq.symm
  · have hhop : asBytes "Content-Length" ∉ hopByHopHeaders := by decide +kernel
    have hne : asBytes "Host" ≠ asBytes "Content-Length" := by decide +kernel
    rw [hget, if_congr (or_iff_right hhop) rfl rfl]
    refine if_congr Iff.rfl rfl ?_
    cases hself : self.body with
    | none =>
      rw [if_neg (by simp), if_neg hne, hbody hself]
      rfl
    | some body => rw [if_pos ⟨rfl, rfl⟩]

/-- What the client sends is forwarded as one request: its method and version, the path of its URL,
    and the headers of `forwardedHeaders`, each in a line of its own. The server reads just this
    request and its body, unless the client has listed `Content-Length`: then it reads a request
    without a body, and finds the body behind it. -/
theorem forwarded_request (net : Network) {sock sock' : BufferedSocket} {request : HttpRequest}
    {sent : Sent} (hparse : HttpRequest.parse sock = .ok (some request, sock'))
    (h : request.handleHttp net = .ok sent) :
    ∃ (head : RequestHead) (text : Bytes) (url : HttpUrl),
      request.url = some text ∧ HttpUrl.parse text = .ok url ∧
      request.method = some head.method ∧ head.url = url.uri ∧
      request.version = some head.version ∧ request.forwardedHeaders = .ok head.fields ∧
      head.headers = head.fields ∧
      sent.written.flatten = head.bytes ++ request.body.getD [] ∧
      if asBytes "Content-Length" ∈ request.connectionHeaders then
        ReadAs head sent.written.flatten none (request.body.getD [])
      else ReadAs head sent.written.flatten request.body [] := by
  obtain ⟨head, sock'', -, hparseBody⟩ := HttpRequest.head_of_parse hparse
  obtain ⟨body, rfl⟩ := HttpRequest.eq_of_parseBody hparseBody
  obtain ⟨headers, hheaders, h⟩ := bind_eq_ok_iff.mp h
  cases hurl : HttpUrl.parse head.url with
  | error e =>
    rw [HttpRequest.forwardedHeaders] at hheaders
    exact absurd hheaders (by simp [RequestHead.request, hurl, bind, Except.bind])
  | ok url =>
    have hhost := (free_of_parse hurl head.url_free.1 head.url_free.2).2
    have hwritable := writable_forwardedHeaders (Writable.addAll head.fields_free) rfl hurl hhost
      hheaders
    let forwarded := head.forwarded hurl hwritable
    have hself : forwarded.headers = headers := hwritable.addAll_self
    have hwritten : sent.written.flatten = forwarded.bytes ++ body.getD [] :=
      written_of_request hurl rfl h
    refine ⟨forwarded, head.url, url, rfl, hurl, rfl, rfl, rfl, hheaders, hself, hwritten, ?_⟩
    have hbodiless : body = none → head.headers.get? (asBytes "Content-Length") = none := by
      intro hnone
      by_contra hlength
      have hannounced : head.request.Announced := .inr hlength
      have hsome := HttpRequest.isSome_of_parseBody hannounced rfl hparseBody
      rw [hnone] at hsome
      exact absurd hsome (by simp)
    have htext : { head.request with body }.url = some head.url := rfl
    obtain ⟨hplain, hlength⟩ := framing_of_forwardedHeaders htext hurl hheaders hbodiless
    rw [hwritten]
    rw [← hself] at hplain hlength
    split
    · rename_i hlisted
      rw [if_pos hlisted] at hlength
      exact readAs_of_not_announced (not_or.mpr ⟨hplain, not_not.mpr hlength⟩) _
    · rename_i hunlisted
      rw [if_neg hunlisted] at hlength
      cases body with
      | none => exact readAs_of_not_announced (not_or.mpr ⟨hplain, not_not.mpr hlength⟩) []
      | some body => exact readAs_of_sized hplain hlength

/-- A client that lists `Content-Length`. -/
def smuggler : HttpRequest :=
  postTo [(asBytes "Content-Length", asBytes "1"), (asBytes "Connection", asBytes "content-length")]

/-- What follows its header block is left for the next request. -/
theorem forwarded_request_smuggler :
    ∃ head : RequestHead, head.fields = [(asBytes "Host", asBytes "example.com")] ∧
      ReadAs head (asBytes "POST /a HTTP/1.1\r\nHost: example.com\r\n\r\nx") none
        (asBytes "x") := by
  have hparse : HttpRequest.parse ⟨⟨[⟨asBytes "POST http://Example.com/a HTTP/1.1\r\n", by
      decide +kernel⟩, ⟨asBytes "Content-Length: 1\r\nConnection: content-length\r\n\r\nx", by
      decide +kernel⟩], true⟩, []⟩ = .ok (some smuggler, ⟨⟨[], true⟩, []⟩) := by decide +kernel
  have hsent : smuggler.handleHttp openNet = .ok ⟨.tcp 0, [asBytes "POST /a HTTP/1.1\r\n",
      asBytes "Host: example.com\r\n", asBytes "\r\n", asBytes "x"]⟩ := by decide +kernel
  have hheaders : smuggler.forwardedHeaders = .ok [(asBytes "Host", asBytes "example.com")] := by
    decide +kernel
  have hlisted : asBytes "Content-Length" ∈ smuggler.connectionHeaders := by decide +kernel
  obtain ⟨head, -, -, -, -, -, -, -, hfields, -, -, hread⟩ := forwarded_request openNet hparse hsent
  rw [if_pos hlisted] at hread
  exact ⟨head, Except.ok.inj (hfields.symm.trans hheaders), hread⟩

end Siip.Proxy
