/-
  When `parse` asks the client for more than the request that it has sent.

  A rewound socket still holds the bytes that came with the header block, but the next `recv` asks
  the wrapped socket as well. Where these bytes are the whole body there is nothing more to come,
  and on a connection that stays open `parse` waits for it (`parse_completes_iff`).
-/
import Siip.Proxy.MessageBoundary

namespace Siip.Proxy

open Lib Python

/-- From a connection that stays open after the pieces, `parse` returns the request that `m` says:
    it has not received beyond them. -/
def Completes (m : Message) (pieces : List Piece) : Prop :=
  ∃ sock, HttpRequest.parse ⟨⟨pieces, false⟩, []⟩ = .ok (some m.request, sock)

/-- A piece ends within the body, or right before it. -/
def CutsBody (m : Message) (pieces : List Piece) : Prop :=
  ∃ n, Boundary pieces n ∧ m.head.bytes.length ≤ n ∧ n < m.bytes.length

section

variable {m : Message} {pre post : List Piece} {p : Piece} {u q : Bytes} (hu : u ≠ [])
  (hhead : m.head.bytes = flat pre ++ u) (hp : p.val = u ++ q)
  (hbody : m.body.bytes = q ++ flat post)

include hu hhead hp hbody

/-- Only the piece that completes the header block can be the last one. -/
theorem cutsBody_iff : CutsBody m (pre ++ p :: post) ↔ post ≠ [] := by
  have hstream : m.bytes.length = (flat (pre ++ p :: post)).length := by
    rw [Message.bytes, hhead, hbody, flat_append, flat_cons, hp]
    simp only [List.append_assoc]
  have hends : EndsWithPiece m (pre ++ p :: post) ↔ CutsBody m (pre ++ p :: post) := by
    unfold EndsWithPiece CutsBody
    rw [and_iff_right]
    rw [hstream]
    exact boundary_flat _
  have hafter : m.body.bytes.length - q.length = (flat post).length := by
    rw [hbody, List.length_append, Nat.add_sub_cancel_left]
  rw [← hends, endsWithPiece_iff hu hhead hp, hafter, and_iff_left (boundary_flat post), hbody,
    List.length_append]
  cases post with
  | nil => simp
  | cons p₁ post =>
    have := p₁.length_pos
    simp only [flat_cons, List.length_append, ne_eq, reduceCtorEq, not_false_eq_true, iff_true]
    omega

/-- What else there is of the body is received with the next piece, and nothing more. -/
theorem completes_of_cut (hcut : m.body.bytes = [] ∨ post ≠ [])
    (hfits : Fits m.head.bytes.length (pre ++ p :: post)) : Completes m (pre ++ p :: post) := by
  suffices h : ParsesExactly m [] (pre ++ p :: post) false by
    obtain ⟨sock, hparse, -⟩ := h
    exact ⟨sock, hparse⟩
  rw [parsesExactly_iff (parseHeader_of_completing hu hhead hp hfits.header)]
  by_cases hne : m.body.bytes = []
  · refine ⟨_, m.parseBody_empty hne _, ?_⟩
    rw [BufferedSocket.unread, ← hbody, hne]
  · have hpost := hcut.resolve_left hne
    cases post with
    | nil => exact absurd rfl hpost
    | cons p₁ post =>
      have hpos := p₁.length_pos
      have hroom := hfits.room hu hp (congrArg List.length hhead)
      have hblen : m.body.bytes.length = q.length + (flat (p₁ :: post)).length := by
        rw [hbody, List.length_append]
      rw [m.parseBody_cons_iff hne hroom (fun p' hp' => hfits.1 p' (by simp [hp']))
        (by rw [List.append_nil, hbody])]
      refine ⟨by rw [hblen, flat_cons, List.length_append]; omega, ?_⟩
      rw [hblen, Nat.add_sub_cancel_left]
      exact boundary_flat _

/-- A body that came with the header block is waited for. -/
theorem parse_waiting (hpost : post = []) (hne : m.body.bytes ≠ [])
    (hfits : Fits m.head.bytes.length (pre ++ p :: post)) :
    HttpRequest.parse ⟨⟨pre ++ p :: post, false⟩, []⟩ = .error .waiting := by
  subst hpost
  rw [HttpRequest.parse_of_header (parseHeader_of_completing hu hhead hp hfits.header),
    m.parseBody_waiting hne (hfits.length_lt hu hp)]
  rfl

end

/-- A request that its client has sent whole is parsed without asking for more, if and only if its
    body is empty or some piece ends within it or right before it; else `parse` waits. -/
theorem parse_completes_iff (m : Message) (cut : Segmentation m.bytes)
    (hfits : Fits m.head.bytes.length cut.pieces) :
    (Completes m cut.pieces ↔ m.body.bytes = [] ∨ CutsBody m cut.pieces) ∧
      (¬ Completes m cut.pieces →
        HttpRequest.parse ⟨⟨cut.pieces, false⟩, []⟩ = .error .waiting) := by
  obtain ⟨pieces, hflat⟩ := cut
  obtain ⟨pre, p, post, u, q, rfl, hu, hhead, hp, hbody⟩ :=
    exists_completing hflat m.head.bytes_ne_nil
  dsimp only at hfits ⊢
  rw [cutsBody_iff hu hhead hp hbody]
  by_cases hcut : m.body.bytes = [] ∨ post ≠ []
  · have hcompletes := completes_of_cut hu hhead hp hbody hcut hfits
    exact ⟨iff_of_true hcompletes hcut, fun h => absurd hcompletes h⟩
  · have hwaiting : HttpRequest.parse ⟨⟨pre ++ p :: post, false⟩, []⟩ = .error .waiting := by
      obtain ⟨hne, hpost⟩ := not_or.mp hcut
      exact parse_waiting hu hhead hp hbody (not_not.mp hpost) hne hfits
    have hnot : ¬ Completes m (pre ++ p :: post) := by
      intro h
      obtain ⟨sock, hparse⟩ := h
      exact absurd (hparse.symm.trans hwaiting) (by simp)
    exact ⟨iff_of_false hnot hcut, fun _ => hwaiting⟩

/-- Header block and body in two pieces. -/
theorem postX_completes :
    Completes postX [⟨postX.head.bytes, postX.head.bytes_ne_nil⟩,
      ⟨postX.body.bytes, by decide +kernel⟩] := by
  refine (parse_completes_iff postX ⟨[⟨postX.head.bytes, postX.head.bytes_ne_nil⟩,
      ⟨postX.body.bytes, by decide +kernel⟩], by decide +kernel⟩
    (fits_of_length_le (by decide +kernel) _)).1.mpr (Or.inr ?_)
  exact ⟨postX.head.bytes.length, ⟨[_], [_], rfl, by decide +kernel⟩, Nat.le_refl _,
    by decide +kernel⟩

/-- The same bytes in one piece: `parse` waits for more. -/
theorem postX_waits :
    HttpRequest.parse ⟨⟨[⟨postX.bytes, by decide +kernel⟩], false⟩, []⟩ = .error .waiting ∧
      ¬ Completes postX [⟨postX.bytes, by decide +kernel⟩] := by
  have hwaiting : HttpRequest.parse ⟨⟨[⟨postX.bytes, by decide +kernel⟩], false⟩, []⟩ =
      .error .waiting := by
    decide +kernel
  refine ⟨hwaiting, fun h => ?_⟩
  obtain ⟨sock, hparse⟩ := h
  exact absurd (hparse.symm.trans hwaiting) (by simp)

end Siip.Proxy
