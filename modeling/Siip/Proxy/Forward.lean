/-
  `proxy.ProxyHandler.handle_http`, up to the response: which headers it forwards, and what it
  has written to the server when it begins to read the response.

  `handle_http` sets `Host` and, where there is a body, `Content-Length`; only then it removes what
  the client listed in its `Connection` header, and the hop-by-hop headers. So what it has set
  reaches the server unless the client listed it (`forwarded_framed_iff`).
-/
import Siip.Proxy.Headers
import Siip.Proxy.Requests

namespace Siip.Proxy

open Lib Python

/-- `self.pop(key, None)` -/
def Headers.pop (key : Bytes) (self : Headers) : Headers := self.filter fun h => h.1 ≠ key

/-- `for key in keys: self.pop(key, None)` -/
def Headers.popAll (keys : List Bytes) (self : Headers) : Headers :=
  keys.foldl (fun headers key => headers.pop key) self

def hopByHopHeaders : List Bytes :=
  [asBytes "Keep-Alive", asBytes "Transfer-Encoding", asBytes "TE", asBytes "Connection",
    asBytes "Trailer", asBytes "Upgrade", asBytes "Proxy-Authorization",
    asBytes "Proxy-Authenticate"]

namespace HttpRequest

/-- The names that the `Connection` header lists. -/
def connectionHeaders (self : HttpRequest) : List Bytes :=
  match self.headers.get? (asBytes "Connection") with
  | none => []
  | some value => (split (asBytes ",") value).map fun name => capitalize (strip name)

def forwardedHeaders (self : HttpRequest) : Except Exn Headers :=
  match self.url with
  | none => .error .attribute
  | some url => do
    let url ← HttpUrl.parse url
    let headers := Headers.set (asBytes "Host") url.host self.headers
    let headers :=
      match self.body with
      | none => headers
      | some body => Headers.set (asBytes "Content-Length") (decimal body.length) headers
    .ok ((headers.popAll self.connectionHeaders).popAll hopByHopHeaders)

/-- `handle_http`, up to the response. `parse_header` gives a request all parts of its first
    line. -/
def handleHttp (net : Network) (self : HttpRequest) : Except Exn Sent := do
  let headers ← self.forwardedHeaders
  match self.method, self.url, self.version with
  | some method, some url, some version =>
    request net method url headers (self.body.map .bytes) version .unverified
  | _, _, _ => .error .type

end HttpRequest

/-! ## What is written -/

/-- The header block and the body, as the server's parser expects them. -/
theorem written_of_request {net : Network} {head : RequestHead} {text : Bytes} {url : HttpUrl}
    {body : Option Bytes} {context : SslContext} {sent : Sent}
    (hurl : HttpUrl.parse text = .ok url) (huri : head.url = url.uri)
    (h : request net head.method text head.fields (body.map .bytes) head.version context =
      .ok sent) :
    sent.written.flatten = head.bytes ++ body.getD [] := by
  obtain ⟨wrapper, -, h⟩ := bind_eq_ok_iff.mp h
  obtain ⟨⟨wrapper', sock⟩, -, h⟩ := bind_eq_ok_iff.mp h
  obtain ⟨url', hurl', h⟩ := bind_eq_ok_iff.mp h
  obtain rfl : url = url' := Except.ok.inj (hurl.symm.trans hurl')
  cases sock with
  | none => exact absurd h (by simp)
  | some sock =>
    have hcrlf : asBytes "\r\n" = crlf := by decide
    obtain ⟨⟩ := h
    rw [RequestHead.bytes, RequestHead.requestLine, huri, hcrlf]
    cases body <;>
      simp [List.flatMap_def, RequestHead.fieldLine]

/-! ## What is removed -/

theorem Headers.get?_pop (self : Headers) (key name : Bytes) :
    (self.pop key).get? name = if name = key then none else self.get? name := by
  unfold pop
  induction self with
  | nil =>
    rw [List.filter_nil]
    split <;> rfl
  | cons h self ih =>
    by_cases hkey : h.1 = key
    · rw [List.filter_cons_of_neg (by simpa using hkey), ih, get?_cons, hkey]
      split
      · rfl
      · rename_i hname
        rw [if_neg fun h => hname h.symm]
    · rw [List.filter_cons_of_pos (by simpa using hkey), get?_cons, get?_cons, ih]
      by_cases hname : h.1 = name
      · rw [if_pos hname, if_pos hname, if_neg fun h => hkey (hname.trans h)]
      · rw [if_neg hname, if_neg hname]

theorem Headers.get?_popAll (self : Headers) (keys : List Bytes) (name : Bytes) :
    (self.popAll keys).get? name = if name ∈ keys then none else self.get? name := by
  unfold popAll
  induction keys generalizing self with
  | nil => rfl
  | cons key keys ih =>
    rw [List.foldl_cons, ih, get?_pop]
    by_cases hname : name = key
    · rw [if_pos hname, if_pos (List.mem_cons.mpr (Or.inl hname)), ite_self]
    · rw [if_neg hname]
      refine if_congr ?_ rfl rfl
      rw [List.mem_cons, or_iff_right hname]

/-- The `Connection` header lists no name that is `name` in some letter case. -/
def HttpRequest.Unlisted (name : Bytes) (self : HttpRequest) : Prop :=
  ∀ value, self.headers.get? (asBytes "Connection") = some value →
    ∀ token ∈ split (asBytes ",") value, lower (strip token) ≠ lower name

theorem HttpRequest.capitalize_notMem_iff (self : HttpRequest) (name : Bytes) :
    capitalize name ∉ self.connectionHeaders ↔ self.Unlisted name := by
  unfold Unlisted connectionHeaders
  cases self.headers.get? (asBytes "Connection") with
  | none => simp
  | some value => simp [capitalize_eq_iff]

/-- A header that is forwarded unless it is listed. -/
theorem HttpRequest.get?_eq_some_iff {self : HttpRequest} {headers : Headers} {name value : Bytes}
    (hname : capitalize name = name)
    (hget : headers.get? name = if name ∈ self.connectionHeaders then none else some value) :
    headers.get? name = some value ↔ self.Unlisted name := by
  rw [hget, ← self.capitalize_notMem_iff, hname]
  split <;> simp_all

/-! ## What is forwarded -/

/-- `Host` is what the URL says, and `Content-Length` what the body says. -/
structure Framed (request : HttpRequest) (url : HttpUrl) (headers : Headers) : Prop where
  host : headers.get? (asBytes "Host") = some url.host
  length : ∀ body, request.body = some body →
    headers.get? (asBytes "Content-Length") = some (decimal body.length)

theorem HttpRequest.get?_forwardedHeaders {self : HttpRequest} {text : Bytes} {url : HttpUrl}
    (htext : self.url = some text) (hurl : HttpUrl.parse text = .ok url) :
    ∃ headers, self.forwardedHeaders = .ok headers ∧
      ∀ name, headers.get? name =
        if name ∈ hopByHopHeaders ∨ name ∈ self.connectionHeaders then none
        else if asBytes "Content-Length" = name ∧ self.body.isSome = true then
          self.body.map fun body => decimal body.length
        else if asBytes "Host" = name then some url.host
        else self.headers.get? name := by
  unfold forwardedHeaders
  rw [htext]
  dsimp only
  rw [hurl]
  refine ⟨_, rfl, fun name => ?_⟩
  rw [Headers.get?_popAll, Headers.get?_popAll]
  by_cases hhop : name ∈ hopByHopHeaders
  · rw [if_pos hhop, if_pos (Or.inl hhop)]
  · rw [if_neg hhop, if_congr (or_iff_right hhop) rfl rfl]
    refine if_congr Iff.rfl rfl ?_
    cases self.body with
    | none => simp [Headers.get?_set]
    | some body => simp [Headers.get?_set]

/-- What `handle_http` has set is forwarded if and only if the client has not listed it. -/
theorem forwarded_framed_iff (self : HttpRequest) (text : Bytes) (url : HttpUrl)
    (htext : self.url = some text) (hurl : HttpUrl.parse text = .ok url) :
    (∃ headers, self.forwardedHeaders = .ok headers ∧ Framed self url headers) ↔
      self.Unlisted (asBytes "Host") ∧
        (self.body ≠ none → self.Unlisted (asBytes "Content-Length")) := by
  obtain ⟨headers, hheaders, hget⟩ := HttpRequest.get?_forwardedHeaders htext hurl
  have hhop : asBytes "Host" ∉ hopByHopHeaders ∧ asBytes "Content-Length" ∉ hopByHopHeaders := by
    decide +kernel
  have hne : asBytes "Content-Length" ≠ asBytes "Host" := by decide +kernel
  have hhost : headers.get? (asBytes "Host") = some url.host ↔ self.Unlisted (asBytes "Host") := by
    refine HttpRequest.get?_eq_some_iff (by decide +kernel) ?_
    simp only [hget, hhop.1, hne, false_or, false_and, if_false, if_true]
  have hlength : ∀ body, self.body = some body →
      (headers.get? (asBytes "Content-Length") = some (decimal body.length) ↔
        self.Unlisted (asBytes "Content-Length")) := by
    intro body hbody
    refine HttpRequest.get?_eq_some_iff (by decide +kernel) ?_
    simp only [hget, hhop.2, hbody, Option.isSome_some, Option.map_some, false_or, and_self,
      if_true]
  constructor
  · intro h
    obtain ⟨headers', hheaders', hframed⟩ := h
    obtain rfl : headers = headers' := Except.ok.inj (hheaders.symm.trans hheaders')
    refine ⟨hhost.mp hframed.host, fun hbody => ?_⟩
    obtain ⟨body, hbody⟩ := Option.ne_none_iff_exists'.mp hbody
    exact (hlength body hbody).mp (hframed.length body hbody)
  · intro h
    obtain ⟨hunlisted, hbody⟩ := h
    refine ⟨headers, hheaders, hhost.mpr hunlisted, fun body hsome => ?_⟩
    exact (hlength body hsome).mpr (hbody (by rw [hsome]; exact Option.some_ne_none body))

/-- A request to forward, with the headers that its client sent. -/
def postTo (fields : Headers) : HttpRequest where
  method := some (asBytes "POST")
  url := some (asBytes "http://Example.com/a")
  version := some (asBytes "HTTP/1.1")
  headers := fields
  body := some (asBytes "x")

theorem postTo_framed :
    ∃ headers,
      (postTo [(asBytes "Connection", asBytes "close, TE")]).forwardedHeaders = .ok headers ∧
      Framed (postTo [(asBytes "Connection", asBytes "close, TE")])
        ⟨asBytes "http", asBytes "example.com", 80, asBytes "/a"⟩ headers := by
  have hvalue : ∀ name, lower name ≠ asBytes "close" → lower name ≠ asBytes "te" →
      (postTo [(asBytes "Connection", asBytes "close, TE")]).Unlisted name := by
    intro name hclose hte value hget token htoken
    obtain rfl : asBytes "close, TE" = value := Option.some.inj hget
    rw [show split (asBytes ",") (asBytes "close, TE") = [asBytes "close", asBytes " TE"] by
      decide +kernel] at htoken
    rcases List.mem_pair.mp htoken with rfl | rfl
    · rw [show lower (strip (asBytes "close")) = asBytes "close" by decide +kernel]
      exact hclose.symm
    · rw [show lower (strip (asBytes " TE")) = asBytes "te" by decide +kernel]
      exact hte.symm
  exact (forwarded_framed_iff (postTo [(asBytes "Connection", asBytes "close, TE")])
    (asBytes "http://Example.com/a") ⟨asBytes "http", asBytes "example.com", 80, asBytes "/a"⟩ rfl
    (by decide +kernel)).mpr
    ⟨hvalue _ (by decide +kernel) (by decide +kernel),
      fun _ => hvalue _ (by decide +kernel) (by decide +kernel)⟩

/-- A client that lists `Content-Length` has its body forwarded without a length. -/
theorem postTo_unframed :
    HttpRequest.parse ⟨⟨[⟨asBytes
        "POST http://Example.com/a HTTP/1.1\r\nContent-Length: 1\r\nConnection: content-length\r\n\r\nx",
        by decide +kernel⟩], true⟩, []⟩ =
      .ok (some (postTo [(asBytes "Content-Length", asBytes "1"),
        (asBytes "Connection", asBytes "content-length")]), ⟨⟨[], true⟩, []⟩) ∧
      (postTo [(asBytes "Content-Length", asBytes "1"),
        (asBytes "Connection", asBytes "content-length")]).forwardedHeaders =
        .ok [(asBytes "Host", asBytes "example.com")] ∧
      Headers.get? [(asBytes "Host", asBytes "example.com")] (asBytes "Content-Length") = none := by
  refine ⟨?_, ?_, ?_⟩ <;> decide +kernel

end Siip.Proxy
