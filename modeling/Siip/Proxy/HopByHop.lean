/-
  Which headers of a client reach the server: the rules 3 and 4 of `handle_http`.

  Names are canonical in the dictionary (`Te`), and the list of hop-by-hop headers is written out
  by hand (`TE`). All its names but this one are canonical, so the header `TE` is the one that is
  forwarded against the rules, unless the client lists it itself (`endToEnd_iff`).
-/
import Siip.Proxy.Forward
import Siip.Proxy.HeaderBlock

namespace Siip.Proxy

open Lib Python

/-! ## The names of a dictionary -/

theorem Headers.mem_names_iff (self : Headers) (name : Bytes) :
    name ∈ self.names ↔ self.get? name ≠ none := by
  rw [ne_eq, get?_eq_none_iff, not_not]

theorem Headers.mem_names_addAll_iff (fields : List (Bytes × Bytes)) (name : Bytes) :
    name ∈ (Headers.addAll [] fields).names ↔ ∃ f ∈ fields, capitalize f.1 = name := by
  have hjoined : ∀ values, joined values = none ↔ values = [] := by
    intro values
    cases values <;> simp [joined]
  rw [mem_names_iff, get?_addAll, ne_eq, hjoined, valuesOf, List.map_eq_nil_iff,
    List.filter_eq_nil_iff]
  simp

/-- Names are canonical. -/
theorem Headers.capitalize_of_mem_names {fields : List (Bytes × Bytes)} {name : Bytes}
    (h : name ∈ (Headers.addAll [] fields).names) : capitalize name = name := by
  obtain ⟨f, -, rfl⟩ := (mem_names_addAll_iff fields name).mp h
  exact capitalize_capitalize f.1

/-! ## End-to-end headers -/

namespace HttpRequest

/-- The name of a hop-by-hop header, or one that the client lists, in any letter case. -/
def HopByHop (self : HttpRequest) (name : Bytes) : Prop :=
  (∃ hop ∈ hopByHopHeaders, lower name = lower hop) ∨ ¬ self.Unlisted name

/-- What the proxy sets itself. -/
def SetByProxy (self : HttpRequest) (name : Bytes) : Prop :=
  name = asBytes "Host" ∨ name = asBytes "Content-Length" ∧ self.body.isSome = true

end HttpRequest

/-- Apart from what the proxy sets itself, exactly the hop-by-hop headers are removed, and the
    others keep their values. -/
structure EndToEnd (request : HttpRequest) (headers : Headers) : Prop where
  removed : ∀ name ∈ headers.names, ¬ request.SetByProxy name → ¬ request.HopByHop name
  kept : ∀ name value, request.headers.get? name = some value → ¬ request.SetByProxy name →
    ¬ request.HopByHop name → headers.get? name = some value

namespace HttpRequest

variable {self : HttpRequest} {headers : Headers} {name : Bytes}

/-- What is forwarded under a name that the proxy does not set. -/
theorem get?_of_forwardedHeaders (h : self.forwardedHeaders = .ok headers)
    (hset : ¬ self.SetByProxy name) :
    headers.get? name =
      if name ∈ hopByHopHeaders ∨ name ∈ self.connectionHeaders then none
      else self.headers.get? name := by
  obtain ⟨hhost, hlength⟩ := not_or.mp hset
  cases htext : self.url with
  | none =>
    rw [forwardedHeaders, htext] at h
    exact absurd h (by simp)
  | some text =>
    cases hurl : HttpUrl.parse text with
    | error e =>
      rw [forwardedHeaders, htext] at h
      simp [hurl, bind, Except.bind] at h
    | ok url =>
      obtain ⟨headers', hheaders, hget⟩ := get?_forwardedHeaders htext hurl
      obtain rfl : headers = headers' := Except.ok.inj (h.symm.trans hheaders)
      have hlength' : ¬ (asBytes "Content-Length" = name ∧ self.body.isSome = true) :=
        fun h' => hlength ⟨h'.1.symm, h'.2⟩
      have hhost' : ¬ asBytes "Host" = name := fun h' => hhost h'.symm
      rw [hget, if_neg hlength', if_neg hhost']

/-- Every name of the list but `TE` is canonical, and `TE` is not. -/
theorem hopByHop_canonical :
    ∀ hop ∈ hopByHopHeaders, capitalize hop = hop ∨ hop = asBytes "TE" := by
  decide +kernel

theorem te_not_canonical : capitalize (asBytes "TE") ≠ asBytes "TE" := by
  decide +kernel

/-- A canonical name is removed if and only if it is hop-by-hop, unless it is that of `TE`. -/
theorem removed_iff (hname : capitalize name = name) :
    name ∈ hopByHopHeaders ∨ name ∈ self.connectionHeaders ↔
      self.HopByHop name ∧ (lower name = lower (asBytes "TE") → ¬ self.Unlisted name) := by
  have hlisted : name ∈ self.connectionHeaders ↔ ¬ self.Unlisted name := by
    rw [← self.capitalize_notMem_iff, hname, not_not]
  rw [hlisted]
  constructor
  · rintro (hhop | hlist)
    · refine ⟨Or.inl ⟨name, hhop, rfl⟩, fun hte => ?_⟩
      -- its only spelling in the list is not canonical
      rcases hopByHop_canonical name hhop with hcanon | rfl
      · have hcap := capitalize_eq_iff.mpr hte
        rw [hcanon] at hcap
        rw [hcap] at hhop
        exact absurd hhop (by decide +kernel)
      · exact absurd hname te_not_canonical
    · exact ⟨Or.inr hlist, fun _ => hlist⟩
  · rintro ⟨hhop | hlist, hte⟩
    · obtain ⟨hop, hmem, hlower⟩ := hhop
      rcases hopByHop_canonical hop hmem with hcanon | rfl
      · rw [← capitalize_eq_iff, hname, hcanon] at hlower
        exact Or.inl (hlower ▸ hmem)
      · exact Or.inr (hte hlower)
    · exact Or.inr hlist

theorem not_setByProxy_te : ¬ self.SetByProxy (capitalize (asBytes "TE")) := by
  rintro (hhost | ⟨hlength, -⟩)
  · exact absurd hhost (by decide +kernel)
  · exact absurd hlength (by decide +kernel)

section

variable {fields : List (Bytes × Bytes)} (hfields : self.headers = Headers.addAll [] fields)

include hfields

/-- A field named `TE` that the client does not list is forwarded. -/
theorem te_mem_names (h : self.forwardedHeaders = .ok headers)
    (hunlisted : self.Unlisted (asBytes "TE")) {f : Bytes × Bytes} (hf : f ∈ fields)
    (hname : lower f.1 = lower (asBytes "TE")) :
    capitalize (asBytes "TE") ∈ headers.names := by
  have hmem : capitalize (asBytes "TE") ∈ self.headers.names := by
    rw [hfields]
    exact (Headers.mem_names_addAll_iff fields _).mpr ⟨f, hf, capitalize_eq_iff.mpr hname⟩
  have hkept : ¬ (capitalize (asBytes "TE") ∈ hopByHopHeaders ∨
      capitalize (asBytes "TE") ∈ self.connectionHeaders) := by
    rintro (hhop | hlist)
    · exact absurd hhop (by decide +kernel)
    · exact (self.capitalize_notMem_iff _).mpr hunlisted hlist
  rw [Headers.mem_names_iff] at hmem ⊢
  rwa [get?_of_forwardedHeaders h not_setByProxy_te, if_neg hkept]

/-- Without such a field, what is removed of the dictionary is what is hop-by-hop. -/
theorem removed_iff_hopByHop
    (hte : (∀ f ∈ fields, lower f.1 ≠ lower (asBytes "TE")) ∨ ¬ self.Unlisted (asBytes "TE"))
    (hmem : name ∈ self.headers.names) :
    name ∈ hopByHopHeaders ∨ name ∈ self.connectionHeaders ↔ self.HopByHop name := by
  rw [hfields] at hmem
  rw [removed_iff (Headers.capitalize_of_mem_names hmem), and_iff_left]
  intro hname
  rcases hte with hfield | hlisted
  · obtain ⟨f, hf, rfl⟩ := (Headers.mem_names_addAll_iff fields name).mp hmem
    rw [lower_capitalize] at hname
    exact absurd hname (hfield f hf)
  · unfold Unlisted at hlisted ⊢
    rwa [hname]

/-- The proxy keeps its rules on a dictionary that `parse_header` has built, if and only if no
    field is named `TE` or the client lists it. -/
theorem endToEnd_iff_of_fields (h : self.forwardedHeaders = .ok headers) :
    EndToEnd self headers ↔
      (∀ f ∈ fields, lower f.1 ≠ lower (asBytes "TE")) ∨ ¬ self.Unlisted (asBytes "TE") := by
  constructor
  · intro hrules
    by_contra hte
    obtain ⟨hfield, hunlisted⟩ := not_or.mp hte
    rw [not_not] at hunlisted
    obtain ⟨f, hf, hname⟩ : ∃ f ∈ fields, lower f.1 = lower (asBytes "TE") := by simpa using hfield
    exact hrules.removed _ (te_mem_names hfields h hunlisted hf hname) not_setByProxy_te
      (Or.inl ⟨asBytes "TE", by decide +kernel, lower_capitalize _⟩)
  · intro hte
    refine ⟨fun name hmem hset hhop => ?_, fun name value hget hset hhop => ?_⟩
    · rw [Headers.mem_names_iff, get?_of_forwardedHeaders h hset] at hmem
      obtain ⟨hkept, hget⟩ := not_forall.mp (mt ite_eq_left_iff.mpr hmem)
      rw [← ne_eq, ← Headers.mem_names_iff] at hget
      exact hkept ((removed_iff_hopByHop hfields hte hget).mpr hhop)
    · have hmem : name ∈ self.headers.names := by
        rw [Headers.mem_names_iff, hget]
        exact Option.some_ne_none value
      rw [get?_of_forwardedHeaders h hset,
        if_neg (mt (removed_iff_hopByHop hfields hte hmem).mp hhop), hget]

end

/-! ## From the wire -/

/-- The body is all that `parse_body` changes. -/
theorem eq_of_parseBody {request : HttpRequest} {sock sock' : BufferedSocket}
    (h : self.parseBody sock = .ok (request, sock')) :
    ∃ body, request = { self with body } := by
  unfold parseBody at h
  split at h
  · exact absurd h (by simp)
  · obtain ⟨r, -, h⟩ := bind_eq_ok_iff.mp h
    exact ⟨r.1.1.body, (finishBody_eq_ok h).2.1⟩

theorem eq_of_parse {head : RequestHead} {tail : Bytes} {cut : Segmentation (head.bytes ++ tail)}
    {closed : Bool} {request : HttpRequest} {sock : BufferedSocket}
    (h : HttpRequest.parse ⟨⟨cut.pieces, closed⟩, []⟩ = .ok (some request, sock)) :
    ∃ body, request = { head.request with body } := by
  obtain ⟨sock', hheader, -, -⟩ := parseHeader_of_head head tail cut closed
  rw [parse_of_header hheader] at h
  obtain ⟨⟨request', sock''⟩, hbody, ⟨⟩⟩ := bind_eq_ok_iff.mp h
  exact eq_of_parseBody hbody

end HttpRequest

/-- A request whose headers are forwarded is forwarded by the rules if and only if its client has
    sent no `TE`, in any letter case, or has listed it in `Connection`. -/
theorem endToEnd_iff (head : RequestHead) (tail : Bytes) (cut : Segmentation (head.bytes ++ tail))
    (closed : Bool) (request : HttpRequest) (sock : BufferedSocket)
    (hparse : HttpRequest.parse ⟨⟨cut.pieces, closed⟩, []⟩ = .ok (some request, sock))
    (headers : Headers) (hforward : request.forwardedHeaders = .ok headers) :
    EndToEnd request headers ↔
      (∀ f ∈ head.fields, lower f.1 ≠ lower (asBytes "TE")) ∨
        ¬ head.request.Unlisted (asBytes "TE") := by
  obtain ⟨body, rfl⟩ := HttpRequest.eq_of_parse hparse
  exact HttpRequest.endToEnd_iff_of_fields rfl hforward

/-- `GET http://a/ HTTP/1.1` with some header fields. -/
def getA (fields : List (Bytes × Bytes)) (fields_free : ∀ f ∈ fields,
    find (asBytes ": ") f.1 = none ∧ find crlf f.1 = none ∧ find crlf f.2 = none) :
    RequestHead where
  method := asBytes "GET"
  url := asBytes "http://a/"
  version := asBytes "HTTP/1.1"
  fields := fields
  method_free := by decide +kernel
  url_free := by decide +kernel
  version_free := find_crlf_http11
  fields_free := fields_free

/-- The request line and `te: trailers`. -/
def getTe : RequestHead :=
  getA [(asBytes "te", asBytes "trailers")] (by decide +kernel)

/-- The same, with `Connection: TE`. -/
def getTeListed : RequestHead :=
  getA [(asBytes "te", asBytes "trailers"), (asBytes "Connection", asBytes "TE")]
    (by decide +kernel)

theorem getTeListed_endToEnd :
    EndToEnd { getTeListed.request with body := none } [(asBytes "Host", asBytes "a")] := by
  refine (endToEnd_iff getTeListed [] ⟨[⟨getTeListed.bytes, by decide +kernel⟩], by decide +kernel⟩
    false _ ⟨⟨[], false⟩, []⟩ (by decide +kernel) _ (by decide +kernel)).mpr (Or.inr fun h => ?_)
  exact h (asBytes "TE") (by decide +kernel) (asBytes "TE") (by decide +kernel) (by decide +kernel)

/-- What the client says of `TE` is passed on to the server. -/
theorem getTe_forwarded :
    HttpRequest.parse ⟨⟨[⟨getTe.bytes, by decide +kernel⟩], false⟩, []⟩ =
        .ok (some { getTe.request with body := none }, ⟨⟨[], false⟩, []⟩) ∧
      HttpRequest.forwardedHeaders { getTe.request with body := none } =
        .ok [(asBytes "Te", asBytes "trailers"), (asBytes "Host", asBytes "a")] ∧
      ¬ EndToEnd { getTe.request with body := none }
        [(asBytes "Te", asBytes "trailers"), (asBytes "Host", asBytes "a")] := by
  refine ⟨by decide +kernel, by decide +kernel, fun h => ?_⟩
  exact h.removed (capitalize (asBytes "TE")) (by decide +kernel) HttpRequest.not_setByProxy_te
    (Or.inl ⟨asBytes "TE", by decide +kernel, lower_capitalize _⟩)

end Siip.Proxy
