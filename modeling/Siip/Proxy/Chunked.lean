/-
  Chunked bodies: what is encoded is read back, and which of the bytes that are accepted are not
  the encoding of anything.

  `parse_body` decodes what a `Chunk` list encodes, however it is cut (`chunked_roundtrip`). But it
  reads a size line with `int`, skips two bytes after the data whatever they are, and goes on
  reading the buffer after the chunk of size zero. `Loose` streams and bodies that end within a
  piece are all that it accepts beside the grammar (`accepted_valid_iff`).
-/
import Siip.Proxy.MessageBoundary

namespace Siip.Proxy

open Lib Python

/-! ## What is read back -/

theorem HttpRequest.parseBody_init {self : HttpRequest} (hchunked : self.headers.isChunked)
    (hbody : self.body = some []) (sock : BufferedSocket) :
    self.parseBody sock =
      (recvLoop chunkPass.feed (Pass.stateIs BodyParser.done) BodyParser.init sock).bind
        self.finishBody := by
  rw [parseBody_of_isChunked hchunked, hbody]
  rfl

/-- The parser of the body goes on from its beginning. -/
theorem resumes_init :
    Resumes chunkPass.feed (Pass.stateIs BodyParser.done) BodyParser.init [] BodyParser.init :=
  ⟨rfl, fun _ => rfl⟩

/-- All byte strings but the empty one can be sent as chunks. -/
theorem exists_chunkedBody (strings : List Bytes) (hne : ∀ s ∈ strings, s ≠ []) :
    ∃ b : ChunkedBody, b.chunks.map Chunk.data = strings ∧ b.data = strings.flatten := by
  have hchunk : ∀ data : Bytes, ∃ c : Chunk, c.data = data := by
    intro data
    obtain ⟨size, hsize⟩ := exists_numeral data.length
    exact ⟨⟨size, data, hsize⟩, rfl⟩
  have hchunks : ∃ chunks : List Chunk, chunks.map Chunk.data = strings := by
    induction strings with
    | nil => exact ⟨[], rfl⟩
    | cons s strings ih =>
      obtain ⟨c, rfl⟩ := hchunk s
      obtain ⟨chunks, rfl⟩ := ih fun t ht => hne t (List.mem_cons_of_mem _ ht)
      exact ⟨c :: chunks, rfl⟩
  obtain ⟨chunks, rfl⟩ := hchunks
  obtain ⟨last, hlast⟩ := hchunk []
  exact ⟨⟨chunks, last, fun c hc => hne c.data (List.mem_map_of_mem hc), hlast⟩, rfl, rfl⟩

/-- Decoding undoes encoding, however the encoding is cut. -/
theorem chunked_roundtrip (self : HttpRequest) (hchunked : self.headers.isChunked)
    (hbody : self.body = some []) (b : ChunkedBody) (cut : Segmentation b.bytes) (closed : Bool) :
    ∃ sock, self.parseBody ⟨⟨cut.pieces, closed⟩, []⟩ =
      .ok ({ self with body := some b.data }, sock) ∧ sock.unread = [] := by
  have hunread : BufferedSocket.unread ⟨⟨cut.pieces, closed⟩, []⟩ = b.bytes := by
    rw [BufferedSocket.unread, List.nil_append, cut.flat_pieces]
  obtain ⟨sock, hloop, hnil⟩ := recvLoop_of_frame b.frames b.feed_bytes rfl resumes_init
    (by rw [hunread, List.nil_append]) (by rw [hunread]; exact b.bytes_ne_nil) (Or.inr rfl)
  refine ⟨sock, ?_, hnil⟩
  rw [HttpRequest.parseBody_init hchunked hbody, hloop]
  rfl

/-- A request that announces chunks. -/
def postChunked : HttpRequest where
  method := some (asBytes "POST")
  url := some (asBytes "/")
  version := some (asBytes "HTTP/1.1")
  headers := [(asBytes "Transfer-Encoding", asBytes "chunked")]

/-- One chunk of one byte. -/
def chunkedX : ChunkedBody where
  chunks := [⟨asBytes "1", asBytes "x", by decide +kernel⟩]
  last := ⟨asBytes "0", [], by decide +kernel⟩
  nonempty := by decide +kernel
  last_empty := rfl

/-- Cut within the size line and within the last CRLF. -/
theorem chunkedX_roundtrip :
    ∃ sock, postChunked.parseBody ⟨⟨[⟨asBytes "1\r", by decide +kernel⟩,
        ⟨asBytes "\nx\r\n0\r\n\r", by decide +kernel⟩,
        ⟨asBytes "\n", by decide +kernel⟩], false⟩, []⟩ =
      .ok ({ postChunked with body := some (asBytes "x") }, sock) ∧ sock.unread = [] :=
  chunked_roundtrip postChunked (by unfold Headers.isChunked; decide +kernel) rfl chunkedX
    ⟨[⟨asBytes "1\r", by decide +kernel⟩, ⟨asBytes "\nx\r\n0\r\n\r", by decide +kernel⟩,
      ⟨asBytes "\n", by decide +kernel⟩], by decide +kernel⟩ false

/-! ## Streams that begin with chunks -/

theorem line_inj {l l' x y : Bytes} (hl : find crlf l = none) (hl' : find crlf l' = none)
    (h : l ++ crlf ++ x = l' ++ crlf ++ y) : l = l' ∧ x = y := by
  have hlen : l.length = l'.length := by
    have hfind := find_line hl x
    rw [h, find_line hl' y] at hfind
    exact (Option.some.inj hfind).symm
  rw [List.append_assoc, List.append_assoc] at h
  obtain ⟨rfl, hrest⟩ := List.append_inj h hlen
  exact ⟨rfl, List.append_cancel_left hrest⟩

/-- A size line that `int` reads and that is more than hexadecimal digits. -/
def LooseSize (tail : Bytes) : Prop :=
  ∃ size rest, tail = size ++ crlf ++ rest ∧ find crlf size = none ∧ int 16 size ≠ none ∧
    numeral 16 size = none

/-- A size line of hexadecimal digits, data of that length, and then two bytes that are no
    CRLF. -/
def LooseEnd (tail : Bytes) : Prop :=
  ∃ size data sep rest, tail = size ++ crlf ++ (data ++ (sep ++ rest)) ∧
    numeral 16 size = some data.length ∧ sep.length = 2 ∧ sep ≠ crlf

/-- After some chunks with data there is something that is accepted for a chunk and is none. -/
def Loose (stream : Bytes) : Prop :=
  ∃ chunks : List Chunk, ∃ tail, stream = chunks.flatMap Chunk.bytes ++ tail ∧
    (∀ c ∈ chunks, c.data ≠ []) ∧ (LooseSize tail ∨ LooseEnd tail)

namespace Chunk

variable {c c' : Chunk} {x y : Bytes}

/-- The first chunk of a stream is determined by it. -/
theorem data_of_append_eq (h : c.bytes ++ x = c'.bytes ++ y) : c.data = c'.data ∧ x = y := by
  rw [bytes_append, bytes_append] at h
  obtain ⟨hsize, h⟩ := line_inj c.find_size c'.find_size h
  have hlen : c.data.length = c'.data.length :=
    Option.some.inj (c.size_eq.symm.trans (hsize ▸ c'.size_eq))
  obtain ⟨hdata, h⟩ := List.append_inj h hlen
  exact ⟨hdata, List.append_cancel_left h⟩

theorem not_loose (c : Chunk) (x : Bytes) :
    ¬ (LooseSize (c.bytes ++ x) ∨ LooseEnd (c.bytes ++ x)) := by
  rw [bytes_append]
  rintro (⟨size, rest, h, hfind, -, hnumeral⟩ | ⟨size, data, sep, rest, h, hnumeral, hsep, hne⟩)
  · obtain ⟨rfl, -⟩ := line_inj c.find_size hfind h
    exact absurd (c.size_eq.symm.trans hnumeral) (by simp)
  · obtain ⟨rfl, hdata⟩ := line_inj c.find_size (find_of_numeral hnumeral) h
    have hlen : c.data.length = data.length := Option.some.inj (c.size_eq.symm.trans hnumeral)
    obtain ⟨-, hend⟩ := List.append_inj hdata hlen
    exact hne (List.append_inj hend (by rw [hsep]; rfl)).1.symm

end Chunk

namespace ChunkedBody

variable {b b' : ChunkedBody} {x y : Bytes}

/-- A stream begins with at most one body. -/
theorem rest_unique (h : b.bytes ++ x = b'.bytes ++ y) : x = y := by
  obtain ⟨chunks, last, hne, hlast⟩ := b
  obtain ⟨chunks', last', hne', hlast'⟩ := b'
  simp only [bytes, List.append_assoc] at h
  induction chunks generalizing chunks' with
  | nil =>
    cases chunks' with
    | nil => exact (Chunk.data_of_append_eq h).2
    | cons c' chunks' =>
      rw [List.flatMap_nil, List.nil_append, List.flatMap_cons, List.append_assoc] at h
      exact absurd ((Chunk.data_of_append_eq h).1.symm.trans hlast) (hne' c' (by simp))
  | cons c chunks ih =>
    rw [List.flatMap_cons, List.append_assoc] at h
    cases chunks' with
    | nil => exact absurd ((Chunk.data_of_append_eq h).1.trans hlast') (hne c (by simp))
    | cons c' chunks' =>
      rw [List.flatMap_cons, List.append_assoc] at h
      exact ih (fun d hd => hne d (List.mem_cons_of_mem c hd)) chunks'
        (fun d hd => hne' d (List.mem_cons_of_mem c' hd)) (Chunk.data_of_append_eq h).2

theorem not_loose (b : ChunkedBody) (x : Bytes) : ¬ Loose (b.bytes ++ x) := by
  intro h
  obtain ⟨chunks', tail, h, hne', htail⟩ := h
  obtain ⟨chunks, last, hne, hlast⟩ := b
  simp only [bytes, List.append_assoc] at h
  induction chunks generalizing chunks' with
  | nil =>
    cases chunks' with
    | nil =>
      rw [List.flatMap_nil, List.nil_append, List.nil_append] at h
      exact last.not_loose x (h ▸ htail)
    | cons c' chunks' =>
      rw [List.flatMap_nil, List.nil_append, List.flatMap_cons, List.append_assoc] at h
      exact absurd ((Chunk.data_of_append_eq h).1.symm.trans hlast) (hne' c' (by simp))
  | cons c chunks ih =>
    rw [List.flatMap_cons, List.append_assoc] at h
    cases chunks' with
    | nil =>
      rw [List.flatMap_nil, List.nil_append] at h
      exact c.not_loose _ (h ▸ htail)
    | cons c' chunks' =>
      rw [List.flatMap_cons, List.append_assoc] at h
      exact ih chunks' (fun d hd => hne' d (List.mem_cons_of_mem c' hd))
        (fun d hd => hne d (List.mem_cons_of_mem c hd)) (Chunk.data_of_append_eq h).2

end ChunkedBody

/-! ## What a stream begins with -/

/-- Without an end of line there is nothing to read. -/
theorem stuck_of_find {tail : Bytes} (h : find crlf tail = none) (st : BodyParser) :
    Stuck chunkPass st tail := by
  rintro t u p rfl
  rw [chunkPass_run, chunk_of_find (find_eq_none_of_append h)]
  simp

/-- After a size line there is nothing to read either, where nothing is read after the whole of
    any part of the rest. -/
theorem stuck_of_line {line rest : Bytes} (hfind : find crlf line = none) {st : BodyParser}
    (h : ∀ {t u p}, rest = t ++ u → chunk st (line ++ crlf ++ t) ≠ .ok (some p)) :
    Stuck chunkPass st (line ++ crlf ++ rest) := by
  intro t u p ht
  rw [chunkPass_run]
  rcases cut_append ht with ⟨t', rfl, hrest⟩ | ⟨u', hline, hu'⟩
  · exact h hrest
  · have hnone := find_of_line_prefix hfind hline hu'
    rw [chunk_of_find hnone]
    simp

/-- What a stream begins with, where it is read from. -/
inductive Begins (st : BodyParser) (tail : Bytes) : Prop
  | chunk (c : Chunk) (rest : Bytes) (eq : tail = c.bytes ++ rest)
  | loose (h : LooseSize tail ∨ LooseEnd tail)
  | stuck (h : Stuck chunkPass st tail)

/-- After a size line of hexadecimal digits. -/
theorem begins_of_numeral (st : BodyParser) {size rest : Bytes} {n : Nat}
    (hsize : numeral 16 size = some n) : Begins st (size ++ crlf ++ rest) := by
  by_cases hshort : rest.length < n + 2
  · refine .stuck (stuck_of_line (find_of_numeral hsize) fun {t u p} ht => ?_)
    rw [ht, List.length_append] at hshort
    rw [chunk_of_short hsize (by omega)]
    simp
  · obtain ⟨data, rest, rfl, rfl⟩ : ∃ data rest', rest = data ++ rest' ∧ data.length = n :=
      ⟨rest.take n, rest.drop n, (List.take_append_drop n rest).symm, by
        rw [List.length_take]; omega⟩
    rw [List.length_append] at hshort
    obtain ⟨sep, rest, rfl, hsep⟩ : ∃ sep rest', rest = sep ++ rest' ∧ sep.length = 2 :=
      ⟨rest.take 2, rest.drop 2, (List.take_append_drop 2 rest).symm, by
        rw [List.length_take]; omega⟩
    by_cases hcrlf : sep = crlf
    · exact .chunk ⟨size, data, hsize⟩ rest (by rw [hcrlf, Chunk.bytes_append])
    · exact .loose (Or.inr ⟨size, data, sep, rest, rfl, hsize, hsep, hcrlf⟩)

theorem begins (st : BodyParser) (tail : Bytes) : Begins st tail := by
  cases hfind : find crlf tail with
  | none => exact .stuck (stuck_of_find hfind st)
  | some newline =>
    obtain ⟨line, rest, rfl, hline⟩ := eq_line_of_find hfind
    cases hnumeral : numeral 16 line with
    | some n => exact begins_of_numeral st hnumeral
    | none =>
      cases hint : int 16 line with
      | some k => exact .loose (Or.inl ⟨line, rest, rfl, hline, by simp [hint], hnumeral⟩)
      | none =>
        refine .stuck (stuck_of_line hline fun {t u p} _ => ?_)
        rw [chunk_line hline, hint]
        simp

theorem Loose.cons {c : Chunk} (hc : c.data ≠ []) {rest : Bytes} (h : Loose rest) :
    Loose (c.bytes ++ rest) := by
  obtain ⟨chunks, tail, rfl, hne, htail⟩ := h
  refine ⟨c :: chunks, tail, ?_, List.forall_mem_cons.mpr ⟨hc, hne⟩, htail⟩
  rw [List.flatMap_cons, List.append_assoc]

/-- A stream is loose, or begins with a body, or never completes one. -/
theorem scan (stream acc : Bytes) :
    Loose stream ∨ (∃ b : ChunkedBody, ∃ rest, stream = b.bytes ++ rest) ∨
      ∃ e tail mid, stream = e ++ tail ∧
        ReadsAll chunkPass BodyParser.done { body := some acc, done := false } e mid ∧
        mid.done = false ∧ Stuck chunkPass mid tail := by
  induction hn : stream.length using Nat.strongRecOn generalizing stream acc with
  | ind n ih =>
    subst hn
    rcases begins { body := some acc, done := false } stream with ⟨c, rest, rfl⟩ | hloose | hstuck
    · by_cases hc : c.data = []
      · exact Or.inr (Or.inl ⟨⟨[], c, fun _ h => absurd h List.not_mem_nil, hc⟩, rest, rfl⟩)
      · have hshort : rest.length < (c.bytes ++ rest).length := by
          have := List.length_pos_of_ne_nil c.bytes_ne_nil
          rw [List.length_append]
          omega
        rcases ih rest.length hshort rest (acc ++ c.data) rfl with
          hloose | ⟨b, rest, rfl⟩ | ⟨e, tail, mid, rfl, hreads, hdone, hstuck⟩
        · exact Or.inl (hloose.cons hc)
        · refine Or.inr (Or.inl ⟨⟨c :: b.chunks, b.last,
            List.forall_mem_cons.mpr ⟨hc, b.nonempty⟩, b.last_empty⟩, rest, ?_⟩)
          simp only [ChunkedBody.bytes, List.flatMap_cons, List.append_assoc]
        · have hread := c.reads acc false
          rw [decide_eq_false hc] at hread
          exact Or.inr (Or.inr ⟨c.bytes ++ e, tail, mid, by rw [List.append_assoc],
            .cons rfl hread hreads, hdone, hstuck⟩)
    · exact Or.inl ⟨[], stream, rfl, fun _ h => absurd h List.not_mem_nil, hloose⟩
    · exact Or.inr (Or.inr ⟨[], stream, _, rfl, .nil _, rfl, hstuck⟩)

/-! ## What is accepted -/

/-- What has been consumed of the stream is a body, with the data that has been decoded. -/
def DecodesBody (stream : Bytes) (request : HttpRequest) (sock : BufferedSocket) : Prop :=
  ∃ b : ChunkedBody, stream = b.bytes ++ sock.unread ∧ request.body = some b.data

/-- A body at the beginning of the stream ends with a piece. -/
def EndsOnPiece (stream : Bytes) (pieces : List Piece) : Prop :=
  ∀ b : ChunkedBody, ∀ rest, stream = b.bytes ++ rest → Boundary pieces b.bytes.length

/-- What the loop has consumed when it is done is a chunked body, if and only if the stream is not
    loose and its body ends with a piece. -/
theorem decodesBody_iff {self : HttpRequest} {stream : Bytes} (cut : Segmentation stream)
    (hsize : ∀ p ∈ cut.pieces, p.val.length ≤ 4096) {closed : Bool} {s : BodyParser × Bytes}
    {sock : BufferedSocket}
    (hloop : recvLoop chunkPass.feed (Pass.stateIs BodyParser.done) BodyParser.init
      ⟨⟨cut.pieces, closed⟩, []⟩ = .ok (s, sock))
    (hdone : s.1.done = true) :
    DecodesBody stream { self with body := s.1.body } sock ↔
      ¬ Loose stream ∧ EndsOnPiece stream cut.pieces := by
  have hexact : ∀ (b : ChunkedBody) rest, stream = b.bytes ++ rest → _ := fun b rest hrest =>
    recvLoop_exact b.frames b.feed_bytes rfl resumes_init (cut.flat_pieces.trans hrest)
      b.bytes_ne_nil hsize closed
  constructor
  · intro h
    obtain ⟨b, hstream, -⟩ := h
    refine ⟨hstream ▸ b.not_loose _, fun b' rest hrest => ?_⟩
    obtain rfl := ChunkedBody.rest_unique (hstream.symm.trans hrest)
    exact (hexact b' _ hrest).2 s _ hloop rfl
  · intro h
    obtain ⟨hstrict, hend⟩ := h
    rcases scan stream [] with hloose | ⟨b, rest, hrest⟩ |
      ⟨e, tail, mid, hcut, hreads, hmid, hstuck⟩
    · exact absurd hloose hstrict
    · obtain ⟨sock'', hloop', hunread⟩ := (hexact b rest hrest).1 (hend b rest hrest)
      obtain ⟨rfl, rfl⟩ := Prod.mk.inj (Except.ok.inj (hloop.symm.trans hloop'))
      exact ⟨b, hunread ▸ hrest, rfl⟩
    · have hunread : stream = [] ++ BufferedSocket.unread ⟨⟨cut.pieces, closed⟩, []⟩ := by
        rw [BufferedSocket.unread, List.nil_append, List.nil_append, cut.flat_pieces]
      have hnever := recvLoop_of_unfinished
        (hcut ▸ hreads.unfinished hmid hstuck) resumes_init hunread
      rw [hloop] at hnever
      exact absurd (hdone.symm.trans hnever) (by decide)

/-- Where `parse_body` accepts a stream, what it has consumed is a chunked body, if and only if
    the stream is not loose and its body ends with a piece. A closed stream that it does not accept
    makes it raise. -/
theorem accepted_valid_iff (self : HttpRequest) (hchunked : self.headers.isChunked)
    (hbody : self.body = some []) (stream : Bytes) (cut : Segmentation stream)
    (hsize : ∀ p ∈ cut.pieces, p.val.length ≤ 4096) (closed : Bool) :
    (∀ request sock, self.parseBody ⟨⟨cut.pieces, closed⟩, []⟩ = .ok (request, sock) →
      (DecodesBody stream request sock ↔ ¬ Loose stream ∧ EndsOnPiece stream cut.pieces)) ∧
      (closed = true → (¬ ∃ r, self.parseBody ⟨⟨cut.pieces, closed⟩, []⟩ = .ok r) →
        ∃ e, self.parseBody ⟨⟨cut.pieces, closed⟩, []⟩ = .error (.raised e)) := by
  refine ⟨fun request sock haccept => ?_, fun hclosed hrefused => ?_⟩
  · rw [HttpRequest.parseBody_init hchunked hbody] at haccept
    obtain ⟨⟨s, sock'⟩, hloop, hfinish⟩ := bind_eq_ok_iff.mp haccept
    obtain ⟨hdone, rfl, rfl⟩ := HttpRequest.finishBody_eq_ok hfinish
    exact decodesBody_iff cut hsize hloop hdone
  · exact (self.parseBody_of_closed hclosed).resolve_left hrefused

/-- A chunk of one byte is accepted, and a letter that is no digit is refused. -/
theorem chunkedX_decodes :
    DecodesBody chunkedX.bytes { postChunked with body := some (asBytes "x") }
        ⟨⟨[], false⟩, []⟩ ∧
      ∃ e, postChunked.parseBody ⟨⟨[⟨asBytes "z\r\n", by decide +kernel⟩], true⟩, []⟩ =
        .error (.raised e) := by
  have hchunked : postChunked.headers.isChunked := by
    unfold Headers.isChunked
    decide +kernel
  have hvalid := (accepted_valid_iff postChunked hchunked rfl chunkedX.bytes
    ⟨[⟨chunkedX.bytes, chunkedX.bytes_ne_nil⟩], by decide +kernel⟩ (by decide +kernel) false).1
      { postChunked with body := some (asBytes "x") } ⟨⟨[], false⟩, []⟩ (by decide +kernel)
  have hraises := (accepted_valid_iff postChunked hchunked rfl (asBytes "z\r\n")
    ⟨[⟨asBytes "z\r\n", by decide +kernel⟩], by decide +kernel⟩ (by decide +kernel) true).2
  refine ⟨hvalid.mpr ⟨?_, fun b rest h => ?_⟩, hraises rfl ?_⟩
  · have h := chunkedX.not_loose []
    rwa [List.append_nil] at h
  · obtain rfl : [] = rest := ChunkedBody.rest_unique ((List.append_nil _).trans h)
    rw [List.append_nil] at h
    rw [← h]
    exact boundary_flat _
  · have herror : postChunked.parseBody ⟨⟨[⟨asBytes "z\r\n", by decide +kernel⟩], true⟩, []⟩ =
        .error (.raised (.intLiteral 16 (asBytes "z"))) := by
      decide +kernel
    rintro ⟨r, hr⟩
    exact absurd (herror.symm.trans hr) (by simp)

/-- A sign before the size: it is read as if it were not there. -/
theorem plusX_accepted :
    HttpRequest.parseBody postChunked
        ⟨⟨[⟨asBytes "+1\r\nx\r\n0\r\n\r\n", by decide +kernel⟩], false⟩, []⟩ =
      .ok ({ postChunked with body := some (asBytes "x") }, ⟨⟨[], false⟩, []⟩) ∧
      ¬ DecodesBody (asBytes "+1\r\nx\r\n0\r\n\r\n")
        { postChunked with body := some (asBytes "x") } ⟨⟨[], false⟩, []⟩ := by
  refine ⟨by decide +kernel, fun h => ?_⟩
  have hloose : Loose (asBytes "+1\r\nx\r\n0\r\n\r\n") :=
    ⟨[], _, rfl, by simp, Or.inl ⟨asBytes "+1", asBytes "x\r\n0\r\n\r\n", by decide +kernel,
      by decide +kernel, by decide +kernel, by decide +kernel⟩⟩
  obtain ⟨b, hstream, -⟩ := h
  rw [hstream] at hloose
  exact b.not_loose _ hloose

end Siip.Proxy
