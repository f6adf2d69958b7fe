/-
  The language of `parse_header`.

  What it accepts is exactly a well-formed header block with anything behind it
  (`header_format`): from a request that it returns the bytes that it took can be told but for the
  letter case of names and the lines that it joined. No block is the beginning of another one, so
  where a request ends does not depend on what follows (`bytes_unambiguous`).
-/
import Siip.Proxy.HeaderBlock

namespace Siip.Proxy

open Lib Python

/-! ## What a line does -/

theorem eq_requestLine {line method url version : Bytes}
    (h : splitMax (asBytes " ") 2 line = [method, url, version]) :
    line = method ++ asBytes " " ++ url ++ asBytes " " ++ version ∧ 32 ∉ method ∧ 32 ∉ url := by
  have hsp : asBytes " " = [32] := by decide
  rw [hsp] at h ⊢
  obtain ⟨t, rfl, hmethod, h⟩ := eq_of_splitMax_singleton h
  obtain ⟨t', rfl, hurl, h⟩ := eq_of_splitMax_singleton h
  obtain ⟨rfl, -⟩ := List.cons.inj h
  exact ⟨by simp, hmethod, hurl⟩

theorem eq_fieldLine {line key value : Bytes}
    (h : splitMax (asBytes ": ") 1 line = [key, value]) :
    line = RequestHead.fieldLine (key, value) ∧ find (asBytes ": ") key = none := by
  have hsep : asBytes ": " = [58, 32] := by decide
  rw [RequestHead.fieldLine]
  rw [hsep] at h ⊢
  obtain ⟨t, rfl, hkey, h⟩ := eq_of_splitMax (by decide) h
  obtain ⟨rfl, -⟩ := List.cons.inj h
  exact ⟨rfl, hkey⟩

/-- The parser before and after a line without a CRLF in it. -/
inductive LineRead : HeaderParser → Bytes → HeaderParser → Prop
  | requestLine {request : HttpRequest} {method url version : Bytes}
      (hmethod : 32 ∉ method) (hurl : 32 ∉ url) :
      LineRead { state := .start, request }
        (method ++ asBytes " " ++ url ++ asBytes " " ++ version)
        { state := .rcvHdrs, request := { request with
          method := some method, url := some url, version := some version } }
  | field {request : HttpRequest} {key value : Bytes} (hkey : find (asBytes ": ") key = none) :
      LineRead { state := .rcvHdrs, request } (RequestHead.fieldLine (key, value))
        { state := .rcvHdrs, request := { request with
          headers := request.headers.add (capitalize key) value } }
  | empty {request : HttpRequest} :
      LineRead { state := .rcvHdrs, request } [] { state := .rcvBody, request }

theorem lineRead_of_run {self self' : HeaderParser} {buf buf' : Bytes}
    (h : headerPass.run self buf = .ok (some (self', buf'))) :
    ∃ line, buf = line ++ crlf ++ buf' ∧ find crlf line = none ∧ LineRead self line self' := by
  rw [headerPass_run] at h
  cases hfind : find crlf buf with
  | none =>
    rw [headerLine, hfind] at h
    exact absurd h (by simp)
  | some newline =>
    obtain ⟨line, rest, rfl, hfree⟩ := eq_line_of_find hfind
    rw [headerLine, find_line hfree] at h
    simp only [take_line, drop_line] at h
    obtain ⟨state, request⟩ := self
    cases state with
    | start =>
      dsimp only at h
      split at h
      · rename_i hsplit
        cases h
        obtain ⟨rfl, hmethod, hurl⟩ := eq_requestLine hsplit
        exact ⟨_, rfl, hfree, .requestLine hmethod hurl⟩
      · exact absurd h (by simp)
    | rcvHdrs =>
      dsimp only at h
      split at h
      · rename_i hempty
        cases h
        obtain rfl := List.eq_nil_of_length_eq_zero hempty
        exact ⟨[], rfl, hfree, .empty⟩
      · split at h
        · rename_i hsplit
          cases h
          obtain ⟨rfl, hkey⟩ := eq_fieldLine hsplit
          exact ⟨_, rfl, hfree, .field hkey⟩
        · exact absurd h (by simp)
    | rcvBody => exact absurd h (by simp)

/-! ## What is accepted -/

/-- Name and value of a header line. -/
def FieldFree (f : Bytes × Bytes) : Prop :=
  find (asBytes ": ") f.1 = none ∧ find crlf f.1 = none ∧ find crlf f.2 = none

theorem fieldFree_of_fieldLine {key value : Bytes} (hkey : find (asBytes ": ") key = none)
    (hfree : find crlf (RequestHead.fieldLine (key, value)) = none) : FieldFree (key, value) :=
  ⟨hkey, find_eq_none_of_append (find_eq_none_of_append hfree),
    find_eq_none_of_append_right hfree⟩

/-- The lines of the fields and the empty line. -/
def fieldBlock (fields : List (Bytes × Bytes)) : Bytes :=
  fields.flatMap (fun f => RequestHead.fieldLine f ++ crlf) ++ crlf

theorem fieldBlock_of_drain {request : HttpRequest} {buf rest : Bytes} {parser : HeaderParser}
    (h : headerPass.drain { state := .rcvHdrs, request } buf = .ok (parser, rest))
    (hdone : parser.state = .rcvBody) :
    ∃ fields, (∀ f ∈ fields, FieldFree f) ∧ buf = fieldBlock fields ++ rest ∧
      parser.request = { request with headers := request.headers.addAll fields } := by
  generalize hst : ({ state := .rcvHdrs, request } : HeaderParser) = st at h
  induction st, buf using Pass.drain.induct headerPass generalizing request with
  | case1 st buf e hrun =>
    rw [Pass.drain_of_error hrun] at h
    exact absurd h (by simp)
  | case2 st buf hrun =>
    rw [Pass.drain_of_none hrun] at h
    cases h
    exact absurd (hst ▸ hdone) (by simp)
  | case3 st buf st' buf' hrun ih =>
    rw [Pass.drain_of_some hrun] at h
    obtain ⟨line, rfl, hfree, hread⟩ := lineRead_of_run hrun
    subst hst
    cases hread with
    | @field _ key value hkey =>
      obtain ⟨fields, hfields, rfl, hrequest⟩ := ih rfl h
      refine ⟨(key, value) :: fields, ?_, ?_, hrequest⟩
      · exact List.forall_mem_cons.mpr ⟨fieldFree_of_fieldLine hkey hfree, hfields⟩
      · simp only [fieldBlock, List.flatMap_cons, List.append_assoc]
    | empty =>
      rw [Pass.drain_of_none (headerPass_stop _ _ rfl)] at h
      cases h
      exact ⟨[], by simp, rfl, rfl⟩

theorem head_of_drain {buf rest : Bytes} {parser : HeaderParser}
    (h : headerPass.drain HeaderParser.init buf = .ok (parser, rest))
    (hdone : parser.state = .rcvBody) :
    ∃ head : RequestHead, parser.request = head.request ∧ buf = head.bytes ++ rest := by
  cases hrun : headerPass.run HeaderParser.init buf with
  | error e =>
    rw [Pass.drain_of_error hrun] at h
    exact absurd h (by simp)
  | ok o =>
    cases o with
    | none =>
      rw [Pass.drain_of_none hrun] at h
      cases h
      exact absurd hdone (by decide)
    | some p =>
      obtain ⟨parser', buf'⟩ := p
      rw [Pass.drain_of_some hrun] at h
      obtain ⟨line, rfl, hfree, hread⟩ := lineRead_of_run hrun
      generalize hinit : HeaderParser.init = st at hread
      cases hread with
      | @requestLine _ method url version hmethod hurl =>
        cases hinit
        obtain ⟨fields, hfields, rfl, hrequest⟩ := fieldBlock_of_drain h hdone
        have hfree' := find_eq_none_of_append (find_eq_none_of_append hfree)
        exact ⟨{
          method, url, version, fields
          method_free := ⟨hmethod, find_eq_none_of_append (find_eq_none_of_append hfree')⟩
          url_free := ⟨hurl, find_eq_none_of_append_right hfree'⟩
          version_free := find_eq_none_of_append_right hfree
          fields_free := hfields }, hrequest, by
            simp only [RequestHead.bytes, RequestHead.requestLine, fieldBlock, List.append_assoc]⟩
      | field hkey => exact absurd hinit (by simp [HeaderParser.init])
      | empty => exact absurd hinit (by simp [HeaderParser.init])

/-- Lines are taken, so the request line is still to come only where there is no line at all. -/
theorem find_of_drain_start {buf rest : Bytes} {parser : HeaderParser}
    (h : headerPass.drain HeaderParser.init buf = .ok (parser, rest))
    (hstart : parser.state = .start) : find crlf buf = none := by
  have hpass : ∀ {st : HeaderParser} {buf st' buf'},
      headerPass.run st buf = .ok (some (st', buf')) → st.state ≠ .start → st'.state ≠ .start := by
    intro st buf st' buf' hrun _
    obtain ⟨line, -, -, hread⟩ := lineRead_of_run hrun
    cases hread <;> simp
  by_contra hfind
  cases hrun : headerPass.run HeaderParser.init buf with
  | error e =>
    rw [Pass.drain_of_error hrun] at h
    exact absurd h (by simp)
  | ok o =>
    cases o with
    | none =>
      obtain ⟨newline, hnewline⟩ := Option.ne_none_iff_exists'.mp hfind
      rw [headerPass_run, headerLine, hnewline] at hrun
      dsimp only [HeaderParser.init] at hrun
      split at hrun <;> exact absurd hrun (by simp)
    | some p =>
      obtain ⟨parser', buf'⟩ := p
      rw [Pass.drain_of_some hrun] at h
      obtain ⟨line, -, -, hread⟩ := lineRead_of_run hrun
      refine Pass.drain_keeps hpass h ?_ hstart
      cases hread
      simp

/-- What `parse_header` returns, from its loop. -/
theorem recvLoop_of_parseHeader {sock sock' : BufferedSocket} {request : Option HttpRequest}
    (h : HttpRequest.parseHeader sock = .ok (request, sock')) :
    ∃ parser buf sock'', recvLoop headerPass.feed (Pass.stateIs HeaderParser.done)
        (HeaderParser.init, []) sock = .ok ((parser, buf), sock'') ∧
      headerPass.drain HeaderParser.init sock.unread = .ok (parser, buf ++ sock''.unread) ∧
      ((parser.state = .start ∧ request = none ∧ sock' = sock'') ∨
        parser.state = .rcvBody ∧ request = some parser.request ∧ sock' = sock''.rewind buf) := by
  obtain ⟨⟨⟨parser, buf⟩, sock''⟩, hloop, h⟩ := bind_eq_ok_iff.mp h
  have hreflects := recvLoop_reflects headerPass_stable headerPass_stop
    (show headerPass.run HeaderParser.init [] = .ok none from rfl) sock
  rw [hloop] at hreflects
  refine ⟨parser, buf, sock'', hloop, hreflects, ?_⟩
  dsimp only at h
  cases hstate : parser.state with
  | start =>
    rw [hstate] at h
    cases h
    exact .inl ⟨rfl, rfl, rfl⟩
  | rcvHdrs =>
    rw [hstate] at h
    exact absurd h (by simp)
  | rcvBody =>
    rw [hstate] at h
    cases h
    exact .inr ⟨rfl, rfl, rfl⟩

/-- Whatever is on the connection: a request is returned only for a well-formed header block, as
    which it took the bytes, and left what follows. -/
theorem head_of_parseHeader {sock sock' : BufferedSocket} {request : HttpRequest}
    (h : HttpRequest.parseHeader sock = .ok (some request, sock')) :
    ∃ head : RequestHead, request = head.request ∧ sock.unread = head.bytes ++ sock'.unread := by
  obtain ⟨parser, buf, sock'', -, hdrain, ⟨-, hnone, -⟩ | ⟨hdone, hsome, rfl⟩⟩ :=
    recvLoop_of_parseHeader h
  · exact absurd hnone (by simp)
  · obtain ⟨head, hrequest, hbytes⟩ := head_of_drain hdrain hdone
    refine ⟨head, (Option.some.inj hsome).trans hrequest, ?_⟩
    rw [hbytes, BufferedSocket.unread, BufferedSocket.unread, BufferedSocket.rewind,
      List.append_assoc]

theorem none_of_parseHeader {sock sock' : BufferedSocket}
    (h : HttpRequest.parseHeader sock = .ok (none, sock')) :
    sock.wrappedSocket.closed = true ∧ find crlf sock.unread = none := by
  obtain ⟨parser, buf, sock'', hloop, hdrain, ⟨hstart, -, -⟩ | ⟨-, hsome, -⟩⟩ :=
    recvLoop_of_parseHeader h
  · have hdone : Pass.stateIs HeaderParser.done (parser, buf) = false := by
      rw [Pass.stateIs, HeaderParser.done, hstart]
      rfl
    exact ⟨(ended_of_recvLoop hloop hdone).1, find_of_drain_start hdrain hstart⟩
  · exact absurd hsome (by simp)

/-! ## One way to read it -/

/-- Two texts that begin with a line begin with the same line. -/
theorem line_unique {line line' rest rest' : Bytes} (h : find crlf line = none)
    (h' : find crlf line' = none) (heq : line ++ crlf ++ rest = line' ++ crlf ++ rest') :
    line = line' ∧ rest = rest' := by
  have hfind := find_line h rest
  rw [heq, find_line h', Option.some_inj] at hfind
  rw [List.append_assoc, List.append_assoc] at heq
  obtain ⟨hline, hrest⟩ := List.append_inj heq hfind.symm
  exact ⟨hline, List.append_cancel_left hrest⟩

/-- A header block of one field. -/
def headOfField (f : Bytes × Bytes) (h : FieldFree f) : RequestHead where
  method := []
  url := []
  version := []
  fields := [f]
  method_free := ⟨List.not_mem_nil, rfl⟩
  url_free := ⟨List.not_mem_nil, rfl⟩
  version_free := rfl
  fields_free := List.forall_mem_singleton.mpr h

theorem find_fieldLine_of_free {f : Bytes × Bytes} (h : FieldFree f) :
    find crlf (RequestHead.fieldLine f) = none :=
  (headOfField f h).find_fieldLine (List.mem_singleton_self f)

theorem fieldLine_injective {f g : Bytes × Bytes} (hf : FieldFree f) (hg : FieldFree g)
    (h : RequestHead.fieldLine f = RequestHead.fieldLine g) : f = g := by
  have hsplit := (headOfField f hf).split_fieldLine (List.mem_singleton_self f)
  rw [h, (headOfField g hg).split_fieldLine (List.mem_singleton_self g)] at hsplit
  simp only [List.cons.injEq, and_true] at hsplit
  exact Prod.ext hsplit.1.symm hsplit.2.symm

theorem fieldBlock_cons (f : Bytes × Bytes) (fields : List (Bytes × Bytes)) (rest : Bytes) :
    fieldBlock (f :: fields) ++ rest =
      RequestHead.fieldLine f ++ crlf ++ (fieldBlock fields ++ rest) := by
  simp only [fieldBlock, List.flatMap_cons, List.append_assoc]

theorem fieldLine_ne_nil (f : Bytes × Bytes) : RequestHead.fieldLine f ≠ [] := by
  have hsep : asBytes ": " = [58, 32] := by decide
  simp [RequestHead.fieldLine, hsep]

theorem fieldBlock_unique {fields fields' : List (Bytes × Bytes)} (h : ∀ f ∈ fields, FieldFree f)
    (h' : ∀ f ∈ fields', FieldFree f) {rest rest' : Bytes}
    (heq : fieldBlock fields ++ rest = fieldBlock fields' ++ rest') :
    fields = fields' ∧ rest = rest' := by
  have hempty : find crlf [] = none := rfl
  induction fields generalizing fields' with
  | nil =>
    cases fields' with
    | nil => exact ⟨rfl, List.append_cancel_left heq⟩
    | cons g fields' =>
      rw [fieldBlock_cons] at heq
      obtain ⟨hline, -⟩ := line_unique hempty
        (find_fieldLine_of_free (h' g List.mem_cons_self)) heq
      exact absurd hline.symm (fieldLine_ne_nil g)
  | cons f fields ih =>
    obtain ⟨hf, hfields⟩ := List.forall_mem_cons.mp h
    rw [fieldBlock_cons] at heq
    cases fields' with
    | nil =>
      obtain ⟨hline, -⟩ := line_unique (find_fieldLine_of_free hf) hempty heq
      exact absurd hline (fieldLine_ne_nil f)
    | cons g fields' =>
      obtain ⟨hg, hfields'⟩ := List.forall_mem_cons.mp h'
      rw [fieldBlock_cons] at heq
      obtain ⟨hline, hrest⟩ := line_unique (find_fieldLine_of_free hf) (find_fieldLine_of_free hg)
        heq
      obtain rfl := fieldLine_injective hf hg hline
      obtain ⟨rfl, rfl⟩ := ih hfields hfields' hrest
      exact ⟨rfl, rfl⟩

/-- No header block is the beginning of another. -/
theorem bytes_unambiguous {head head' : RequestHead} {rest rest' : Bytes}
    (heq : head.bytes ++ rest = head'.bytes ++ rest') : head = head' ∧ rest = rest' := by
  have hbytes : ∀ (head : RequestHead) (rest : Bytes), head.bytes ++ rest =
      head.requestLine ++ crlf ++ (fieldBlock head.fields ++ rest) := by
    intro head rest
    simp only [RequestHead.bytes, fieldBlock, List.append_assoc]
  rw [hbytes, hbytes] at heq
  obtain ⟨hline, hblock⟩ := line_unique head.find_requestLine head'.find_requestLine heq
  obtain ⟨hfields, hrest⟩ := fieldBlock_unique head.fields_free head'.fields_free hblock
  have hsplit := head.split_requestLine
  rw [hline, head'.split_requestLine] at hsplit
  simp only [List.cons.injEq, and_true] at hsplit
  obtain ⟨hmethod, hurl, hversion⟩ := hsplit
  refine ⟨?_, hrest⟩
  cases head
  cases head'
  cases hmethod
  cases hurl
  cases hversion
  cases hfields
  rfl

/-- `parse_header` returns a request exactly for a well-formed header block, which it takes to the
    last byte; it can be read in one way only. `None` it returns exactly where the client has
    closed the connection before the end of a first line. -/
theorem header_format (pieces : List Piece) (closed : Bool) :
    (∀ request sock, HttpRequest.parseHeader ⟨⟨pieces, closed⟩, []⟩ = .ok (some request, sock) →
        ∃ head : RequestHead, request = head.request ∧ flat pieces = head.bytes ++ sock.unread) ∧
      (∀ (head : RequestHead) rest, flat pieces = head.bytes ++ rest →
        (∃ sock, HttpRequest.parseHeader ⟨⟨pieces, closed⟩, []⟩ = .ok (some head.request, sock) ∧
          sock.unread = rest) ∧
        ∀ (head' : RequestHead) rest', flat pieces = head'.bytes ++ rest' →
          head' = head ∧ rest' = rest) ∧
      ((∃ sock, HttpRequest.parseHeader ⟨⟨pieces, closed⟩, []⟩ = .ok (none, sock)) ↔
        closed = true ∧ find crlf (flat pieces) = none) := by
  refine ⟨fun request sock h => head_of_parseHeader h, fun head rest hflat => ⟨?_, ?_⟩, ?_, ?_⟩
  · obtain ⟨sock, hparse, hunread, -⟩ := parseHeader_of_head head rest ⟨pieces, hflat⟩ closed
    exact ⟨sock, hparse, hunread⟩
  · intro head' rest' hflat'
    exact bytes_unambiguous (hflat'.symm.trans hflat)
  · intro h
    obtain ⟨sock, h⟩ := h
    exact none_of_parseHeader h
  · intro h
    obtain ⟨rfl, hfind⟩ := h
    have hrun : headerPass.run HeaderParser.init (flat pieces) = .ok none := by
      rw [headerPass_run, headerLine, hfind]
    have hall : headerOutcome ⟨⟨pieces, true⟩, []⟩ = .ok none := by
      rw [headerOutcome_of_closed rfl, BufferedSocket.unread, List.nil_append,
        Pass.drain_of_none hrun]
      rfl
    cases hparse : HttpRequest.parseHeader ⟨⟨pieces, true⟩, []⟩ with
    | error e =>
      rw [headerOutcome, hparse] at hall
      exact absurd hall (by simp [Except.map])
    | ok r =>
      obtain ⟨request, sock⟩ := r
      rw [headerOutcome, hparse] at hall
      obtain rfl : request = none := Option.map_eq_none_iff.mp (Except.ok.inj hall)
      exact ⟨sock, rfl⟩

end Siip.Proxy
