/-
  Parsing a byte stream that arrives in pieces.

  A `Pass` is one pass of a parser over a buffer: it reads a record from the front, or asks for
  more bytes, or fails. `drain` repeats it. Where a pass is `Stable`, draining a buffer in two
  steps is draining it at once, so it does not matter how the bytes come. `ReadsAll` says that the
  records of an encoding are read one by one, and that every proper prefix of a record asks for
  more; from it, feeding an encoding in pieces agrees with feeding it at once (`ReadsAll.frames`).
  An `Unfinished` stream is one of which no part finishes the parser.

  The last part is about the pieces themselves: where the one that completes a given prefix of
  the stream lies, and which positions of the stream are boundaries between pieces.
-/
import Siip.Lib.Bytes

namespace Siip.Lib

universe u v

variable {σ : Type u} {ε : Type v}

/-- Where two texts in a row are cut: in the second, or within the first. -/
theorem cut_append {a b t u : Bytes} (h : a ++ b = t ++ u) :
    (∃ t', t = a ++ t' ∧ b = t' ++ u) ∨ ∃ c, a = t ++ c ∧ c ≠ [] := by
  rcases List.append_eq_append_iff.mp h with ⟨t', ht, hb⟩ | ⟨c, ha, hu⟩
  · exact Or.inl ⟨t', ht, hb⟩
  · by_cases hc : c = []
    · subst hc
      exact Or.inl ⟨[], by rw [ha, List.append_nil, List.append_nil], hu.symm⟩
    · exact Or.inr ⟨c, ha, hc⟩

/-! ## Draining a buffer -/

structure Pass (σ : Type u) (ε : Type v) where
  run : σ → Bytes → Except ε (Option (σ × Bytes))
  shrinks : ∀ {st buf st' buf'}, run st buf = .ok (some (st', buf')) → buf'.length < buf.length

namespace Pass

/-- Passes until one asks for more bytes. -/
def drain (pass : Pass σ ε) (st : σ) (buf : Bytes) : Except ε (σ × Bytes) :=
  match _h : pass.run st buf with
  | .error e => .error e
  | .ok none => .ok (st, buf)
  | .ok (some (st', buf')) => pass.drain st' buf'
termination_by buf.length
decreasing_by exact pass.shrinks _h

/-- A test of the state, whatever the buffer. -/
def stateIs (done : σ → Bool) (s : σ × Bytes) : Bool := done s.1

/-- The state and the unread buffer, with newly received bytes. -/
def feed (pass : Pass σ ε) (s : σ × Bytes) (rcvd : Bytes) : Except ε (σ × Bytes) :=
  pass.drain s.1 (s.2 ++ rcvd)

variable {pass : Pass σ ε} {st : σ} {buf : Bytes}

theorem drain_of_none (h : pass.run st buf = .ok none) : pass.drain st buf = .ok (st, buf) := by
  rw [drain]
  split <;> simp_all

theorem drain_of_some {st' : σ} {buf' : Bytes} (h : pass.run st buf = .ok (some (st', buf'))) :
    pass.drain st buf = pass.drain st' buf' := by
  rw [drain]
  split <;> simp_all

end Pass

/-! ## Passes that do not look ahead -/

namespace Pass

/-- Neither what a pass reads nor the error that it raises depends on the bytes behind it. -/
structure Stable (pass : Pass σ ε) : Prop where
  read : ∀ {st buf st' buf'} (x : Bytes), pass.run st buf = .ok (some (st', buf')) →
    pass.run st (buf ++ x) = .ok (some (st', buf' ++ x))
  fail : ∀ {st buf e} (x : Bytes), pass.run st buf = .error e →
    pass.run st (buf ++ x) = .error e

variable {pass : Pass σ ε} {st st' : σ} {buf buf' : Bytes}

theorem drain_of_error {e : ε} (h : pass.run st buf = .error e) : pass.drain st buf = .error e := by
  rw [drain]
  split <;> simp_all

/-- What every pass keeps, draining keeps. -/
theorem drain_keeps {P : σ → Prop}
    (hpass : ∀ {st buf st' buf'}, pass.run st buf = .ok (some (st', buf')) → P st → P st')
    {st' : σ} {buf' : Bytes} (h : pass.drain st buf = .ok (st', buf')) (hst : P st) : P st' := by
  induction st, buf using drain.induct pass with
  | case1 st buf e hrun =>
    rw [drain_of_error hrun] at h
    exact absurd h (by simp)
  | case2 st buf hrun =>
    rw [drain_of_none hrun] at h
    cases h
    exact hst
  | case3 st buf st'' buf'' hrun ih =>
    rw [drain_of_some hrun] at h
    exact ih h (hpass hrun hst)

/-- What draining raises, a pass has raised. -/
theorem run_of_drain_error {e : ε} (h : pass.drain st buf = .error e) :
    ∃ st' buf', pass.run st' buf' = .error e := by
  induction st, buf using drain.induct pass with
  | case1 st buf e' hrun =>
    rw [drain_of_error hrun] at h
    obtain rfl := Except.error.inj h
    exact ⟨st, buf, hrun⟩
  | case2 st buf hrun =>
    rw [drain_of_none hrun] at h
    exact absurd h (by simp)
  | case3 st buf st'' buf'' hrun ih =>
    rw [drain_of_some hrun] at h
    exact ih h

/-- A drained buffer is one from which no pass can read. -/
theorem run_of_drain (h : pass.drain st buf = .ok (st', buf')) : pass.run st' buf' = .ok none := by
  induction st, buf using drain.induct pass with
  | case1 st buf e hrun =>
    rw [drain_of_error hrun] at h
    exact absurd h (by simp)
  | case2 st buf hrun =>
    rw [drain_of_none hrun] at h
    obtain ⟨⟩ := h
    exact hrun
  | case3 st buf st'' buf'' hrun ih =>
    rw [drain_of_some hrun] at h
    exact ih h

namespace Stable

variable (hpass : pass.Stable)

include hpass

theorem drain_append (h : pass.drain st buf = .ok (st', buf')) (x : Bytes) :
    pass.drain st (buf ++ x) = pass.drain st' (buf' ++ x) := by
  induction st, buf using drain.induct pass with
  | case1 st buf e hrun =>
    rw [drain_of_error hrun] at h
    exact absurd h (by simp)
  | case2 st buf hrun =>
    rw [drain_of_none hrun] at h
    obtain ⟨⟩ := h
    rfl
  | case3 st buf st'' buf'' hrun ih =>
    rw [drain_of_some hrun] at h
    rw [drain_of_some (hpass.read x hrun), ih h]

theorem drain_append_of_error {e : ε} (h : pass.drain st buf = .error e) (x : Bytes) :
    pass.drain st (buf ++ x) = .error e := by
  induction st, buf using drain.induct pass with
  | case1 st buf e' hrun =>
    rw [drain_of_error hrun] at h
    obtain ⟨⟩ := h
    exact drain_of_error (hpass.fail x hrun)
  | case2 st buf hrun =>
    rw [drain_of_none hrun] at h
    exact absurd h (by simp)
  | case3 st buf st'' buf'' hrun ih =>
    rw [drain_of_some hrun] at h
    rw [drain_of_some (hpass.read x hrun), ih h]

end Stable

end Pass

/-! ## Counting passes -/

/-- The loop over a pass, with the number of times that its body is entered: as long as `entered`
    holds of the buffer and no pass leaves the loop or fails. -/
inductive Pass.Loop (pass : Pass σ ε) (entered : Bytes → Prop) :
    σ → Bytes → Nat → Except ε (σ × Bytes) → Prop
  | ends {st : σ} {buf : Bytes} (h : ¬ entered buf) : Loop pass entered st buf 0 (.ok (st, buf))
  | leaves {st : σ} {buf : Bytes} (h : entered buf) (hrun : pass.run st buf = .ok none) :
      Loop pass entered st buf 1 (.ok (st, buf))
  | raises {st : σ} {buf : Bytes} {e : ε} (h : entered buf) (hrun : pass.run st buf = .error e) :
      Loop pass entered st buf 1 (.error e)
  | again {st st' : σ} {buf buf' : Bytes} {n : Nat} {r : Except ε (σ × Bytes)} (h : entered buf)
      (hrun : pass.run st buf = .ok (some (st', buf')))
      (rest : Loop pass entered st' buf' n r) : Loop pass entered st buf (n + 1) r

/-- Where nothing could be read before some bytes came, a pass over the buffer with them leaves
    none of the old bytes, and not all of the new ones. -/
def Pass.Greedy (pass : Pass σ ε) : Prop :=
  ∀ {st st' buf x buf'}, pass.run st buf = .ok none →
    pass.run st (buf ++ x) = .ok (some (st', buf')) → buf'.length < x.length

namespace Pass.Loop

variable {pass : Pass σ ε} {entered : Bytes → Prop} {st st' : σ} {buf buf' : Bytes} {n : Nat}
  {r : Except ε (σ × Bytes)}

/-- Every loop ends. -/
theorem exists_loop (pass : Pass σ ε) (entered : Bytes → Prop) (st : σ) (buf : Bytes) :
    ∃ n r, Loop pass entered st buf n r := by
  induction st, buf using drain.induct pass with
  | case1 st buf e hrun =>
    by_cases h : entered buf
    · exact ⟨1, _, .raises h hrun⟩
    · exact ⟨0, _, .ends h⟩
  | case2 st buf hrun =>
    by_cases h : entered buf
    · exact ⟨1, _, .leaves h hrun⟩
    · exact ⟨0, _, .ends h⟩
  | case3 st buf st' buf' hrun ih =>
    by_cases h : entered buf
    · obtain ⟨n, r, hloop⟩ := ih
      exact ⟨n + 1, r, .again h hrun hloop⟩
    · exact ⟨0, _, .ends h⟩

/-- What it ends with is what draining the buffer gives. -/
theorem eq_drain (hends : ∀ st buf, ¬ entered buf → pass.run st buf = .ok none)
    (h : Loop pass entered st buf n r) : r = pass.drain st buf := by
  induction h with
  | @ends st buf h => exact (drain_of_none (hends st buf h)).symm
  | leaves h hrun => exact (drain_of_none hrun).symm
  | raises h hrun => exact (drain_of_error hrun).symm
  | again h hrun _ ih => rw [ih, drain_of_some hrun]

/-- Each pass but the last makes the buffer shorter, and the last one still finds something. -/
theorem le_length (hne : ∀ buf, entered buf → buf ≠ []) (h : Loop pass entered st buf n r) :
    n ≤ buf.length := by
  induction h with
  | ends h => exact Nat.zero_le _
  | @leaves st buf h hrun => exact List.length_pos_of_ne_nil (hne buf h)
  | @raises st buf e h hrun => exact List.length_pos_of_ne_nil (hne buf h)
  | again h hrun _ ih => exact Nat.lt_of_le_of_lt ih (pass.shrinks hrun)

/-- A loop over a greedy pass enters its body no more than once for each new byte. -/
theorem le_new (hne : ∀ buf, entered buf → buf ≠ []) (hgreedy : pass.Greedy)
    (hidle : pass.run st buf = .ok none) {x : Bytes} (hx : x ≠ [])
    (h : Loop pass entered st (buf ++ x) n r) : n ≤ x.length := by
  have hpos := List.length_pos_of_ne_nil hx
  cases h with
  | ends h => exact Nat.zero_le _
  | leaves h hrun => exact hpos
  | raises h hrun => exact hpos
  | again h hrun rest => exact Nat.lt_of_le_of_lt (rest.le_length hne) (hgreedy hidle hrun)

end Pass.Loop

/-! ## Records -/

/-- In state `st` a pass reads the record `c`, whatever follows it, and waits for the whole
    of it. -/
structure Reads (pass : Pass σ ε) (st : σ) (c : Bytes) (st' : σ) : Prop where
  whole : ∀ rest, pass.run st (c ++ rest) = .ok (some (st', rest))
  waits : ∀ {t u}, c = t ++ u → u ≠ [] → pass.run st t = .ok none

/-- Passes read the bytes record by record, from states that are not done. -/
inductive ReadsAll (pass : Pass σ ε) (done : σ → Bool) : σ → Bytes → σ → Prop
  | nil (st : σ) : ReadsAll pass done st [] st
  | cons {st mid st' : σ} {c cs : Bytes} : done st = false → Reads pass st c mid →
      ReadsAll pass done mid cs st' → ReadsAll pass done st (c ++ cs) st'

/-- `feed` waits for the whole of `e`: after a proper prefix it is not done, and from there on
    it behaves as if all had come at once. -/
def Frames (feed : σ → Bytes → Except ε σ) (done : σ → Bool) (init : σ) (e : Bytes) : Prop :=
  ∀ {t u}, e = t ++ u → u ≠ [] →
    ∃ st, feed init t = .ok st ∧ done st = false ∧ ∀ x, feed st x = feed init (t ++ x)

namespace ReadsAll

variable {pass : Pass σ ε} {done : σ → Bool} {st st' : σ} {e : Bytes}

theorem append {mid : σ} {e' : Bytes} (h : ReadsAll pass done st e mid)
    (h' : ReadsAll pass done mid e' st') : ReadsAll pass done st (e ++ e') st' := by
  induction h with
  | nil st => exact h'
  | cons hdone hread _ ih =>
    rw [List.append_assoc]
    exact .cons hdone hread (ih h')

theorem drain_append (h : ReadsAll pass done st e st') (rest : Bytes) :
    pass.drain st (e ++ rest) = pass.drain st' rest := by
  induction h with
  | nil st => rfl
  | @cons st mid st' c cs _ hread _ ih =>
    rw [List.append_assoc, Pass.drain_of_some (hread.whole (cs ++ rest)), ih]

theorem drain_prefix (h : ReadsAll pass done st e st') {t u : Bytes} (he : e = t ++ u)
    (hu : u ≠ []) :
    ∃ mid buf, pass.drain st t = .ok (mid, buf) ∧ done mid = false ∧
      ∀ x, pass.drain mid (buf ++ x) = pass.drain st (t ++ x) := by
  induction h generalizing t with
  | nil st => exact absurd (List.append_eq_nil_iff.mp he.symm).2 hu
  | @cons st mid st' c cs hdone hread hrest ih =>
    -- either the record is whole in `t`, or `t` ends within it
    rcases cut_append he with ⟨t', rfl, hcs⟩ | ⟨c', hc, hc'⟩
    · obtain ⟨mid', buf, hdrain, hdone', hresume⟩ := ih hcs
      refine ⟨mid', buf, ?_, hdone', fun x => ?_⟩
      · rw [Pass.drain_of_some (hread.whole t'), hdrain]
      · rw [hresume, List.append_assoc, Pass.drain_of_some (hread.whole (t' ++ x))]
    · exact ⟨st, t, Pass.drain_of_none (hread.waits hc hc'), hdone, fun _ => rfl⟩

theorem frames (h : ReadsAll pass done st e st') :
    Frames pass.feed (Pass.stateIs done) (st, []) e := by
  intro t u he hu
  obtain ⟨mid, buf, hdrain, hdone, hresume⟩ := h.drain_prefix he hu
  exact ⟨(mid, buf), hdrain, hdone, hresume⟩

end ReadsAll

/-! ## Streams that are not finished -/

/-- No part of the stream finishes the parser: after it `feed` is not done and behaves as if all
    had come at once, or it fails. -/
def Unfinished (feed : σ → Bytes → Except ε σ) (done : σ → Bool) (init : σ) (stream : Bytes) :
    Prop :=
  ∀ {t u st}, stream = t ++ u → feed init t = .ok st →
    done st = false ∧ ∀ x, feed st x = feed init (t ++ x)

theorem Frames.unfinished {feed : σ → Bytes → Except ε σ} {done : σ → Bool} {init : σ}
    {e t u : Bytes} (hf : Frames feed done init e) (he : e = t ++ u) (hu : u ≠ []) :
    Unfinished feed done init t := by
  intro t' u' st ht hfeed
  obtain ⟨mid, hmid, hdone, hresume⟩ := hf (u := u' ++ u) (by rw [he, ht, List.append_assoc])
    (by simp [hu])
  obtain rfl : mid = st := Except.ok.inj (hmid.symm.trans hfeed)
  exact ⟨hdone, hresume⟩

/-- No pass reads anything from the bytes, nor from a part of them. -/
def Stuck (pass : Pass σ ε) (st : σ) (tail : Bytes) : Prop :=
  ∀ {t u p}, tail = t ++ u → pass.run st t ≠ .ok (some p)

theorem ReadsAll.unfinished {pass : Pass σ ε} {done : σ → Bool} {st mid : σ} {e tail : Bytes}
    (h : ReadsAll pass done st e mid) (hdone : done mid = false) (hstuck : Stuck pass mid tail) :
    Unfinished pass.feed (Pass.stateIs done) (st, []) (e ++ tail) := by
  intro t u s hstream hfeed
  rw [Pass.feed, List.nil_append] at hfeed
  -- the part ends in the tail, or within the records
  rcases cut_append hstream with ⟨t', rfl, hcut⟩ | ⟨c, hc, hne⟩
  · rw [h.drain_append] at hfeed
    cases hrun : pass.run mid t' with
    | error e' =>
      rw [Pass.drain_of_error hrun] at hfeed
      exact absurd hfeed (by simp)
    | ok o =>
      cases o with
      | some p => exact absurd hrun (hstuck hcut)
      | none =>
        rw [Pass.drain_of_none hrun] at hfeed
        obtain ⟨⟩ := hfeed
        refine ⟨hdone, fun x => ?_⟩
        rw [Pass.feed, Pass.feed, List.nil_append, List.append_assoc, h.drain_append]
  · obtain ⟨mid', buf, hdrain, hdone', hresume⟩ := h.drain_prefix hc hne
    obtain rfl : (mid', buf) = s := Except.ok.inj (hdrain.symm.trans hfeed)
    refine ⟨hdone', fun x => ?_⟩
    rw [Pass.feed, Pass.feed, List.nil_append]
    exact hresume x

/-! ## Pieces of a stream -/

abbrev Piece := { b : Bytes // b ≠ [] }

def flat (pieces : List Piece) : Bytes := (pieces.map Subtype.val).flatten

@[simp] theorem flat_nil : flat [] = [] := rfl

@[simp] theorem flat_cons (p : Piece) (ps : List Piece) : flat (p :: ps) = p.val ++ flat ps := rfl

@[simp] theorem flat_append (ps qs : List Piece) : flat (ps ++ qs) = flat ps ++ flat qs := by
  simp [flat]

theorem Piece.length_pos (p : Piece) : 0 < p.val.length := List.length_pos_of_ne_nil p.property

/-- The piece `p` that completes the prefix `e` of the stream: `u` is the part of `p` that belongs
    to `e`, and `x` what it brings of what follows. -/
theorem exists_completing {pieces : List Piece} {e rest : Bytes} (h : flat pieces = e ++ rest)
    (he : e ≠ []) :
    ∃ pre p post u x, pieces = pre ++ p :: post ∧ u ≠ [] ∧ e = flat pre ++ u ∧ p.val = u ++ x ∧
      rest = x ++ flat post := by
  induction pieces generalizing e with
  | nil => exact absurd (List.append_eq_nil_iff.mp h.symm).1 he
  | cons p ps ih =>
    rw [flat_cons] at h
    rcases List.append_eq_append_iff.mp h with ⟨e', rfl, hps⟩ | ⟨x, hp, hrest⟩
    · by_cases he' : e' = []
      · refine ⟨[], p, ps, p.val, [], rfl, p.property, ?_, ?_, ?_⟩ <;> simp_all
      · obtain ⟨pre, p', post, u, x, rfl, hu, rfl, hp', hrest⟩ := ih hps he'
        exact ⟨p :: pre, p', post, u, x, rfl, hu, by simp, hp', hrest⟩
    · exact ⟨[], p, ps, e, x, rfl, he, rfl, hp, hrest⟩

/-- Position `n` of the stream is between two pieces, or at one of its ends. -/
def Boundary (pieces : List Piece) (n : Nat) : Prop :=
  ∃ a b, pieces = a ++ b ∧ (flat a).length = n

theorem boundary_zero (pieces : List Piece) : Boundary pieces 0 := ⟨[], pieces, rfl, rfl⟩

theorem boundary_flat (pieces : List Piece) : Boundary pieces (flat pieces).length :=
  ⟨pieces, [], (List.append_nil _).symm, rfl⟩

theorem boundary_nil_iff {n : Nat} : Boundary [] n ↔ n = 0 := by
  constructor
  · intro h
    obtain ⟨a, b, h, rfl⟩ := h
    rw [(List.append_eq_nil_iff.mp h.symm).1]
    rfl
  · rintro rfl
    exact boundary_zero []

theorem boundary_append_iff {ps qs : List Piece} {n : Nat} :
    Boundary (ps ++ qs) ((flat ps).length + n) ↔ Boundary qs n := by
  constructor
  · intro h
    obtain ⟨a, b, h, hlen⟩ := h
    rcases List.append_eq_append_iff.mp h with ⟨a', rfl, rfl⟩ | ⟨b', rfl, rfl⟩
    · rw [flat_append, List.length_append] at hlen
      exact ⟨a', b, rfl, by omega⟩
    · rw [flat_append, List.length_append] at hlen
      obtain rfl : n = 0 := by omega
      exact boundary_zero qs
  · intro h
    obtain ⟨a, b, rfl, rfl⟩ := h
    exact ⟨ps ++ a, b, by rw [List.append_assoc], by rw [flat_append, List.length_append]⟩

theorem boundary_cons_iff {p : Piece} {ps : List Piece} {n : Nat} (hn : 0 < n) :
    Boundary (p :: ps) n ↔ p.val.length ≤ n ∧ Boundary ps (n - p.val.length) := by
  constructor
  · intro h
    obtain ⟨a, b, h, hlen⟩ := h
    cases a with
    | nil => exact absurd hlen (by simp; omega)
    | cons p' a =>
      obtain ⟨rfl, rfl⟩ := List.cons.inj h
      rw [flat_cons, List.length_append] at hlen
      exact ⟨by omega, a, b, rfl, by omega⟩
  · intro h
    obtain ⟨hle, a, b, rfl, hlen⟩ := h
    refine ⟨p :: a, b, rfl, ?_⟩
    rw [flat_cons, List.length_append]
    omega

/-- A stream cut into pieces. -/
structure Segmentation (stream : Bytes) where
  pieces : List Piece
  flat_pieces : flat pieces = stream

end Siip.Lib
