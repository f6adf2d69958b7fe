/-
  Well-formed request messages, and how the parsers read them: line by line and chunk by chunk.

  A `Message` is a header block and a body that the headers announce, either by `Content-Length`
  or as chunks. `RequestHead.readsAll` and `readsAll_chunks` say that the passes of the parsers
  read its bytes record by record.
-/
import Siip.Proxy.HttpParse

namespace Siip.Proxy

open Lib Python

/-! ## Messages -/

/-- Fields added one after the other. -/
def Headers.addAll (headers : Headers) (fields : List (Bytes × Bytes)) : Headers :=
  fields.foldl (fun headers f => headers.add (capitalize f.1) f.2) headers

theorem find_crlf_http11 : find crlf (asBytes "HTTP/1.1") = none := by decide +kernel

/-- A request line and header fields that can be told apart. -/
structure RequestHead where
  method : Bytes
  url : Bytes
  version : Bytes
  fields : List (Bytes × Bytes)
  method_free : 32 ∉ method ∧ find crlf method = none
  url_free : 32 ∉ url ∧ find crlf url = none
  version_free : find crlf version = none
  fields_free : ∀ f ∈ fields,
    find (asBytes ": ") f.1 = none ∧ find crlf f.1 = none ∧ find crlf f.2 = none

namespace RequestHead

def requestLine (self : RequestHead) : Bytes :=
  self.method ++ asBytes " " ++ self.url ++ asBytes " " ++ self.version

def fieldLine (f : Bytes × Bytes) : Bytes := f.1 ++ asBytes ": " ++ f.2

def bytes (self : RequestHead) : Bytes :=
  (self.requestLine ++ crlf) ++ (self.fields.flatMap (fun f => fieldLine f ++ crlf) ++ crlf)

/-- The dictionary that the fields build. -/
def headers (self : RequestHead) : Headers := Headers.addAll [] self.fields

/-- The request as the header parser leaves it. -/
def request (self : RequestHead) : HttpRequest where
  method := some self.method
  url := some self.url
  version := some self.version
  headers := self.headers
  body := some []

end RequestHead

/-- A chunk under a size line that gives its length in hexadecimal. -/
structure Chunk where
  size : Bytes
  data : Bytes
  size_eq : numeral 16 size = some data.length

def Chunk.bytes (c : Chunk) : Bytes := c.size ++ crlf ++ c.data ++ crlf

/-- `Transfer-Encoding: chunked`, in any letter case -/
def Headers.isChunked (headers : Headers) : Prop :=
  (headers.get? (asBytes "Transfer-Encoding")).map lower = some (asBytes "chunked")

inductive MessageBody (headers : Headers) where
  | sized (body : Bytes) (plain : ¬ headers.isChunked)
      (length : (headers.get? (asBytes "Content-Length")).bind (numeral 10) = some body.length)
  | chunked (chunks : List Chunk) (last : Chunk) (isChunked : headers.isChunked)
      (nonempty : ∀ c ∈ chunks, c.data ≠ []) (last_empty : last.data = [])

namespace MessageBody

variable {headers : Headers}

def bytes : MessageBody headers → Bytes
  | sized body _ _ => body
  | chunked chunks last _ _ _ => chunks.flatMap Chunk.bytes ++ last.bytes

def data : MessageBody headers → Bytes
  | sized body _ _ => body
  | chunked chunks _ _ _ _ => chunks.flatMap Chunk.data

end MessageBody

structure Message where
  head : RequestHead
  body : MessageBody head.headers

namespace Message

def bytes (m : Message) : Bytes := m.head.bytes ++ m.body.bytes

/-- The request that `m` says. -/
def request (m : Message) : HttpRequest := { m.head.request with body := some m.body.data }

end Message

/-! ## Lines -/

section

variable {line : Bytes} (h : find crlf line = none)

include h

theorem find_line (rest : Bytes) : find crlf (line ++ crlf ++ rest) = some line.length := by
  rw [List.append_assoc]
  exact find_append_sep (by decide) h rest

/-- What is not yet a whole line shows no end of line. -/
theorem find_of_line_prefix {t u : Bytes} (ht : line ++ crlf = t ++ u) (hu : u ≠ []) :
    find crlf t = none :=
  find_of_strict_prefix (by decide) h ht hu

omit h in
theorem take_line (rest : Bytes) : (line ++ crlf ++ rest).take line.length = line := by
  rw [List.append_assoc, List.take_left]

omit h in
theorem drop_line (rest : Bytes) : (line ++ crlf ++ rest).drop (line.length + 2) = rest := by
  have hlen : line.length + 2 = (line ++ crlf).length := by simp [crlf]
  rw [hlen, List.drop_left]

omit h in
/-- The first end of line cuts the buffer in its first line and what follows. -/
theorem eq_line_of_find {buf : Bytes} {newline : Nat} (h : find crlf buf = some newline) :
    ∃ line rest, buf = line ++ crlf ++ rest ∧ find crlf line = none := by
  obtain ⟨line, rest, rfl, hline⟩ := split_at_find (by decide) h
  exact ⟨line, rest, rfl, hline⟩

end

namespace RequestHead

variable (self : RequestHead)

theorem find_requestLine : find crlf self.requestLine = none := by
  have hsp : asBytes " " = [32] := by decide
  rw [requestLine, hsp]
  simp only [List.append_assoc, List.singleton_append]
  exact find_append_cons (by decide) (by decide) self.method_free.2
    (find_append_cons (by decide) (by decide) self.url_free.2 self.version_free)

theorem split_requestLine :
    splitMax (asBytes " ") 2 self.requestLine = [self.method, self.url, self.version] := by
  have hsp : asBytes " " = [32] := by decide
  rw [requestLine, hsp]
  simp only [List.append_assoc, List.cons_append, List.nil_append]
  rw [splitMax_singleton_append self.method_free.1, splitMax_singleton_append self.url_free.1]
  rfl

theorem reads_requestLine :
    Reads headerPass HeaderParser.init (self.requestLine ++ crlf)
      { state := .rcvHdrs, request := { self.request with headers := [] } } where
  whole rest := by
    rw [headerPass_run, headerLine, find_line self.find_requestLine]
    simp only [HeaderParser.init, take_line, drop_line, split_requestLine]
    rfl
  waits ht hu := by
    rw [headerPass_run, headerLine, find_of_line_prefix self.find_requestLine ht hu]

theorem find_fieldLine {f : Bytes × Bytes} (hf : f ∈ self.fields) :
    find crlf (fieldLine f) = none := by
  obtain ⟨-, hname, hvalue⟩ := self.fields_free f hf
  have hsep : asBytes ": " = [58, 32] := by decide
  rw [fieldLine, hsep]
  simp only [List.append_assoc, List.cons_append, List.nil_append]
  exact find_append_cons (by decide) (by decide) hname
    (find_append_cons (s := []) (by decide) (by decide) rfl hvalue)

theorem split_fieldLine {f : Bytes × Bytes} (hf : f ∈ self.fields) :
    splitMax (asBytes ": ") 1 (fieldLine f) = [f.1, f.2] := by
  obtain ⟨hname, -, -⟩ := self.fields_free f hf
  have hsep : asBytes ": " = [58, 32] := by decide
  rw [hsep] at hname
  rw [fieldLine, hsep]
  simp only [List.append_assoc, List.cons_append, List.nil_append]
  rw [splitMax_append_sep (by decide) hname]
  rfl

theorem reads_fieldLine {f : Bytes × Bytes} (hf : f ∈ self.fields) (request : HttpRequest) :
    Reads headerPass { state := .rcvHdrs, request } (fieldLine f ++ crlf)
      { state := .rcvHdrs,
        request := { request with headers := request.headers.add (capitalize f.1) f.2 } } where
  whole rest := by
    have hne : (fieldLine f).length ≠ 0 := by simp [fieldLine, asBytes]
    rw [headerPass_run, headerLine, find_line (self.find_fieldLine hf)]
    simp only [take_line, drop_line, if_neg hne, self.split_fieldLine hf]
  waits ht hu := by
    rw [headerPass_run, headerLine, find_of_line_prefix (self.find_fieldLine hf) ht hu]

theorem reads_emptyLine (request : HttpRequest) :
    Reads headerPass { state := .rcvHdrs, request } crlf { state := .rcvBody, request } where
  whole rest := by
    have hfind : find crlf (crlf ++ rest) = some 0 :=
      find_line (show find crlf [] = none from rfl) rest
    rw [headerPass_run, headerLine, hfind]
    rfl
  waits ht hu := by
    have hfind := find_of_line_prefix (show find crlf [] = none from rfl) ht hu
    rw [headerPass_run, headerLine, hfind]

theorem readsAll_fields {fields : List (Bytes × Bytes)} (hsub : ∀ f ∈ fields, f ∈ self.fields)
    (request : HttpRequest) :
    ReadsAll headerPass HeaderParser.done { state := .rcvHdrs, request }
      (fields.flatMap (fun f => fieldLine f ++ crlf) ++ crlf)
      { state := .rcvBody,
        request := { request with headers := request.headers.addAll fields } } := by
  induction fields generalizing request with
  | nil =>
    have h : ReadsAll headerPass HeaderParser.done { state := .rcvHdrs, request } (crlf ++ [])
        { state := .rcvBody, request } := .cons rfl (reads_emptyLine request) (.nil _)
    exact h
  | cons f fields ih =>
    rw [List.flatMap_cons, List.append_assoc]
    exact .cons rfl (self.reads_fieldLine (hsub f (by simp)) request)
      (ih (fun g hg => hsub g (List.mem_cons_of_mem f hg)) _)

/-- The passes of `parse_header` read the whole header block. -/
theorem readsAll :
    ReadsAll headerPass HeaderParser.done HeaderParser.init self.bytes
      { state := .rcvBody, request := self.request } :=
  .cons rfl self.reads_requestLine (self.readsAll_fields (fun _ hf => hf) _)

end RequestHead

/-! ## Chunks -/

theorem find_of_numeral {size : Bytes} {n : Nat} (h : numeral 16 size = some n) :
    find crlf size = none := by
  apply find_eq_none_of_notMem
  intro hmem
  obtain ⟨d, hd⟩ := (digitValue_of_numeral h).2 13 hmem
  exact absurd (range_of_digitValue (by decide) hd) (by decide)

theorem Chunk.find_size (c : Chunk) : find crlf c.size = none := find_of_numeral c.size_eq

/-- Without an end of line a pass waits. -/
theorem chunk_of_find {buf : Bytes} (h : find crlf buf = none) (self : BodyParser) :
    chunk self buf = .ok none := by
  rw [chunk, h]

/-- A pass over a size line and what follows it. -/
theorem chunk_line {line : Bytes} (hline : find crlf line = none) (rest : Bytes)
    (self : BodyParser) :
    chunk self (line ++ crlf ++ rest) =
      match int 16 line with
      | none => .error (.intLiteral 16 line)
      | some size =>
        if size + 2 > rest.length then .ok none
        else
          match addBody self.body (sliceTo rest size) with
          | .error e => .error e
          | .ok body =>
            .ok (some ({ body, done := self.done || decide (size = 0) },
              sliceFrom rest (size + 2))) := by
  have hlen : ((line ++ crlf ++ rest).length : Int) - line.length - 2 = rest.length := by
    simp only [List.length_append, crlf, List.length_cons, List.length_nil]
    omega
  rw [chunk, find_line hline]
  cases hsize : int 16 line with
  | none => simp only [take_line, hsize]
  | some size =>
    by_cases hshort : size + 2 > rest.length
    · simp only [take_line, hsize, hlen, if_pos hshort]
    · cases hadd : addBody self.body (sliceTo rest size) with
      | error e => simp only [take_line, drop_line, hsize, hlen, if_neg hshort, hadd]
      | ok body => simp only [take_line, drop_line, hsize, hlen, if_neg hshort, hadd]

/-- A chunk is waited for until its data and the CRLF after it are there. -/
theorem chunk_of_short {size r : Bytes} {n : Nat} (hsize : numeral 16 size = some n)
    (hr : r.length < n + 2) (self : BodyParser) :
    chunk self (size ++ crlf ++ r) = .ok none := by
  rw [chunk_line (find_of_numeral hsize), int_of_numeral (by decide) hsize]
  dsimp only
  rw [if_pos (by omega)]

theorem Chunk.bytes_append (c : Chunk) (x : Bytes) :
    c.bytes ++ x = c.size ++ crlf ++ (c.data ++ (crlf ++ x)) := by
  simp only [bytes, List.append_assoc]

theorem Chunk.reads (c : Chunk) (body : Bytes) (done : Bool) :
    Reads chunkPass { body := some body, done } c.bytes
      { body := some (body ++ c.data), done := done || decide (c.data = []) } where
  whole rest := by
    have hwhole : ¬ (c.data.length : Int) + 2 > (c.data ++ (crlf ++ rest)).length := by
      simp only [List.length_append, crlf, List.length_cons, List.length_nil]
      omega
    have hrest : sliceFrom (c.data ++ (crlf ++ rest)) (c.data.length + 2) = rest := by
      have hlen : (c.data.length + 2 : Int) = (c.data ++ crlf).length := by simp [crlf]
      rw [hlen, ← List.append_assoc, sliceFrom_append]
    have hzero : decide ((c.data.length : Int) = 0) = decide (c.data = []) := by simp
    rw [chunkPass_run, c.bytes_append, chunk_line c.find_size, int_of_numeral (by decide) c.size_eq]
    simp only [if_neg hwhole, addBody, sliceTo_append, hrest, hzero]
  waits {t u} ht hu := by
    rw [chunkPass_run]
    have hbytes : c.size ++ crlf ++ (c.data ++ crlf) = t ++ u := by
      rw [← ht, Chunk.bytes]
      simp only [List.append_assoc]
    -- either the size line is whole and the data is not, or the size line is not
    rcases cut_append hbytes with ⟨t', rfl, hcut⟩ | ⟨u', hline, hu'⟩
    · have hlen := congrArg List.length hcut
      have hpos := List.length_pos_of_ne_nil hu
      simp only [List.length_append, crlf, List.length_cons, List.length_nil] at hlen
      exact chunk_of_short c.size_eq (by omega) _
    · have hfind := find_of_line_prefix c.find_size hline hu'
      exact chunk_of_find hfind _

theorem readsAll_chunks {chunks : List Chunk} {last : Chunk} (hne : ∀ c ∈ chunks, c.data ≠ [])
    (hlast : last.data = []) (body : Bytes) :
    ReadsAll chunkPass BodyParser.done { body := some body, done := false }
      (chunks.flatMap Chunk.bytes ++ last.bytes)
      { body := some (body ++ chunks.flatMap Chunk.data), done := true } := by
  induction chunks generalizing body with
  | nil =>
    have hread := last.reads body false
    rw [hlast] at hread
    have := ReadsAll.cons rfl hread (.nil _ : ReadsAll chunkPass BodyParser.done _ _ _)
    simpa using this
  | cons c chunks ih =>
    have hread := c.reads body false
    rw [decide_eq_false (hne c (by simp))] at hread
    rw [List.flatMap_cons, List.append_assoc, List.flatMap_cons, ← List.append_assoc body]
    exact .cons rfl hread (ih (fun d hd => hne d (List.mem_cons_of_mem c hd)) _)

end Siip.Proxy
