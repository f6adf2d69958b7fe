/-
  `passive_proxy`: the relay between the two ends of a tunnel.

  In every iteration `select` returns some of the sockets that it is asked about. A socket that can
  be read is read until nothing is pending, and what came is appended to the buffer for the other
  side; a socket that can be written takes a beginning of its buffer (`moves_iterate`). Whatever the
  order of reads, partial writes and closes, what one side has taken and what is buffered for it is
  what the other side has sent (`relay_faithful`), and the line that is logged is the first that
  came.
-/
import Siip.Lib.Run
import Siip.Proxy.Message
import Siip.Proxy.Requests

namespace Siip.Proxy

open Lib Python

/-! ## Sockets -/

/-- A connected socket: what its `recv` has returned and what its `send` has taken, so far. -/
structure Peer where
  received : Bytes := []
  accepted : Bytes := []
  deriving DecidableEq

/-- What the reads of one iteration give: what the first `recv` returns, and then one piece each
    time that some bytes are pending. -/
inductive Received where
  /-- `ssl.SSL_ERROR_WANT_READ` -/
  | wantRead
  | raises (e : Exn)
  | bytes (b : Bytes) (pending : List Piece)

/-- What the reads of one iteration return, all in all; nothing where the socket is not read. -/
def Received.taken (readable : Bool) : Received → Bytes
  | .bytes b pending => if readable then b ++ flat pending else []
  | _ => []

/-- How many of the bytes offered to it `send` takes. -/
abbrev Send := (offered : Bytes) → Except Exn (Fin (offered.length + 1))

/-- What `send` takes of the bytes offered to it; nothing where the socket is not written. -/
def Send.taken (writable : Bool) (send : Send) (offered : Bytes) : Bytes :=
  match send offered with
  | .ok n => if writable then offered.take n else []
  | .error _ => []

namespace Peer

def recv (b : Bytes) (self : Peer) : Peer := { self with received := self.received ++ b }

theorem recv_nil (self : Peer) : self.recv [] = self := by
  rw [recv, List.append_nil]

theorem recv_append (a b : Bytes) (self : Peer) : self.recv (a ++ b) = (self.recv a).recv b := by
  simp [recv]

def send (offered : Bytes) (n : Nat) (self : Peer) : Peer :=
  { self with accepted := self.accepted ++ offered.take n }

/-- `while pending != 0: b += recv(pending)` -/
def drain (b : Bytes) (self : Peer) : List Piece → Bytes × Peer
  | [] => (b, self)
  | p :: pending => drain (b ++ p.val) (self.recv p.val) pending

theorem drain_recv (b : Bytes) (self : Peer) (pending : List Piece) :
    drain b (self.recv b) pending = (b ++ flat pending, self.recv (b ++ flat pending)) := by
  induction pending generalizing b with
  | nil => rw [drain, flat_nil, List.append_nil]
  | cons p pending ih =>
    rw [drain, ← recv_append, ih, flat_cons, List.append_assoc]

end Peer

/-! ## One side -/

/-- The variables of `passive_proxy` for what comes from one side: `client_closed`,
    `client_line_rcvd`, `line_client` and `client_to_server`, or those of the server. -/
structure Inbound where
  closed : Bool := false
  lineRcvd : Bool := false
  line : Bytes := []
  buffer : Bytes := []
  deriving DecidableEq

namespace Inbound

/-- The first line is kept for the log. -/
def keepLine (log : Bool) (b : Bytes) (self : Inbound) : Inbound :=
  if log && !self.lineRcvd then
    let line := self.line ++ b
    match find crlf line with
    | some idx => { self with lineRcvd := true, line := line.take idx }
    | none => { self with line }
  else self

/-- `if client in read`, and the same for the server. -/
def read (log readable : Bool) (rcvd : Received) (self : Inbound) (peer : Peer) :
    Except Exn (Inbound × Peer) :=
  if readable then
    match rcvd with
    | .wantRead => .ok (self, peer)
    | .raises e => .error e
    | .bytes b pending =>
      let (b, peer) := (peer.recv b).drain b pending
      if b.length = 0 then .ok ({ self with closed := true }, peer)
      else .ok ({ self.keepLine log b with buffer := self.buffer ++ b }, peer)
  else .ok (self, peer)

/-- `if server in write`, and the same for the client: `peer` is the other side. -/
def write (writable : Bool) (send : Send) (self : Inbound) (peer : Peer) :
    Except Exn (Inbound × Peer) :=
  if writable then
    match send self.buffer with
    | .error e => .error e
    | .ok n => .ok ({ self with buffer := self.buffer.drop n }, peer.send self.buffer n)
  else .ok (self, peer)

end Inbound

/-! ## The loop -/

/-- What one iteration finds: which sockets are ready, of those that `select` is asked about, and
    what reading from them and writing to them gives. -/
structure Turn where
  clientReadable : Bool
  serverReadable : Bool
  clientWritable : Bool
  serverWritable : Bool
  clientRecv : Received
  serverRecv : Received
  clientSend : Send
  serverSend : Send

structure Relay where
  client : Peer := {}
  server : Peer := {}
  fromClient : Inbound := {}
  fromServer : Inbound := {}
  deriving DecidableEq

namespace Relay

def goesOn (self : Relay) : Bool :=
  decide (self.fromClient.buffer.length ≠ 0) || decide (self.fromServer.buffer.length ≠ 0) ||
    (!self.fromClient.closed && !self.fromServer.closed)

/-- The body of the loop. What is selected is decided before anything is read. -/
def iterate (log : Bool) (self : Relay) (turn : Turn) : Except Exn Relay := do
  let clientReadable := !self.fromClient.closed && turn.clientReadable
  let serverReadable := !self.fromServer.closed && turn.serverReadable
  let serverWritable := decide (self.fromClient.buffer.length ≠ 0) && turn.serverWritable
  let clientWritable := decide (self.fromServer.buffer.length ≠ 0) && turn.clientWritable
  let (fromClient, client) ← self.fromClient.read log clientReadable turn.clientRecv self.client
  let (fromServer, server) ← self.fromServer.read log serverReadable turn.serverRecv self.server
  let (fromClient, server) ← fromClient.write serverWritable turn.serverSend server
  let (fromServer, client) ← fromServer.write clientWritable turn.clientSend client
  .ok { client, server, fromClient, fromServer }

/-- The state after the iterations so far, which may be all. -/
def relay (log : Bool) (turns : List Turn) : Except Exn Relay :=
  loop goesOn (iterate log) {} turns

/-- `'%-32s'` -/
def ljust (width : Nat) (s : Str) : Str := s ++ List.replicate (width - s.length) ' '

/-- The line that is printed when the loop has ended. -/
def report (domain : Str) (self : Relay) : Except Exn Str := do
  let lineClient ← decode self.fromClient.line
  let lineClient := if lineClient.length > 32 then lineClient.take 31 ++ ['…'] else lineClient
  let lineServer ← decode self.fromServer.line
  .ok (ljust 32 domain ++ ": ".toList ++ ljust 32 lineClient ++ " => ".toList ++ lineServer)

end Relay

/-- What is printed at the end of the tunnel, if the log is on. -/
def passiveProxy (log : Bool) (domain : Str) (turns : List Turn) : Except Halt (Option Str) :=
  match Relay.relay log turns with
  | .error e => .error (.raised e)
  | .ok self =>
    if self.goesOn then .error .waiting
    else if log then
      match self.report domain with
      | .error e => .error (.raised e)
      | .ok line => .ok (some line)
    else .ok none

/-! ## What is relayed -/

/-- What `receiver` has taken, and then what is buffered for it, is what `sender` has sent. -/
def Inbound.Faithful (self : Inbound) (sender receiver : Peer) : Prop :=
  receiver.accepted ++ self.buffer = sender.received

namespace Inbound

variable {self self' : Inbound} {peer peer' : Peer}

/-- Reading appends to the buffer what the socket has given, all of it; only where something came
    is it looked at for the log. -/
theorem read_eq_ok {log readable : Bool} {rcvd : Received}
    (h : self.read log readable rcvd peer = .ok (self', peer')) :
    peer' = peer.recv (rcvd.taken readable) ∧
      self'.buffer = self.buffer ++ rcvd.taken readable ∧
      (rcvd.taken readable = [] ∧ self'.line = self.line ∧ self'.lineRcvd = self.lineRcvd ∨
        self'.line = (self.keepLine log (rcvd.taken readable)).line ∧
          self'.lineRcvd = (self.keepLine log (rcvd.taken readable)).lineRcvd) := by
  unfold read at h
  cases readable with
  | false =>
    have hnone : rcvd.taken false = [] := by cases rcvd <;> rfl
    obtain ⟨⟩ := h
    rw [hnone]
    exact ⟨(peer.recv_nil).symm, (List.append_nil _).symm, Or.inl ⟨rfl, rfl, rfl⟩⟩
  | true =>
    rw [if_pos rfl] at h
    cases rcvd with
    | wantRead =>
      obtain ⟨⟩ := h
      exact ⟨(peer.recv_nil).symm, (List.append_nil _).symm, Or.inl ⟨rfl, rfl, rfl⟩⟩
    | raises e => exact absurd h (by simp)
    | bytes b pending =>
      rw [Received.taken, if_pos rfl]
      simp only [Peer.drain_recv] at h
      split at h
      · rename_i hempty
        obtain ⟨⟩ := h
        have hnil := List.length_eq_zero_iff.mp hempty
        refine ⟨rfl, ?_, Or.inl ⟨hnil, rfl, rfl⟩⟩
        rw [hnil, List.append_nil]
      · obtain ⟨⟩ := h
        exact ⟨rfl, rfl, Or.inr ⟨rfl, rfl⟩⟩

/-- Writing takes off the buffer what the socket has taken, and nothing else. -/
theorem write_eq_ok {writable : Bool} {send : Send}
    (h : self.write writable send peer = .ok (self', peer')) :
    self.buffer = Send.taken writable send self.buffer ++ self'.buffer ∧
      peer'.accepted = peer.accepted ++ Send.taken writable send self.buffer ∧
      peer'.received = peer.received ∧ self'.line = self.line ∧ self'.lineRcvd = self.lineRcvd := by
  unfold write at h
  unfold Send.taken
  cases writable with
  | false =>
    obtain ⟨⟩ := h
    cases send self.buffer <;> exact ⟨rfl, (List.append_nil _).symm, rfl, rfl, rfl⟩
  | true =>
    rw [if_pos rfl] at h
    split at h
    · exact absurd h (by simp)
    · rename_i n hsend
      obtain ⟨⟩ := h
      rw [hsend]
      exact ⟨(List.take_append_drop _ _).symm, rfl, rfl, rfl, rfl⟩

end Inbound

namespace Relay

variable {log : Bool} {self self' : Relay} {turn : Turn} {turns : List Turn}

/-! The sockets that are selected, of those that the loop asks about. -/

def clientRead (self : Relay) (turn : Turn) : Bool := !self.fromClient.closed && turn.clientReadable

def serverRead (self : Relay) (turn : Turn) : Bool := !self.fromServer.closed && turn.serverReadable

def serverWritten (self : Relay) (turn : Turn) : Bool :=
  decide (self.fromClient.buffer.length ≠ 0) && turn.serverWritable

def clientWritten (self : Relay) (turn : Turn) : Bool :=
  decide (self.fromServer.buffer.length ≠ 0) && turn.clientWritable

/-- The four branches of an iteration, in their order. -/
theorem iterate_eq_ok (h : self.iterate log turn = .ok self') :
    ∃ fromClient client fromServer server,
      self.fromClient.read log (self.clientRead turn) turn.clientRecv self.client =
        .ok (fromClient, client) ∧
      self.fromServer.read log (self.serverRead turn) turn.serverRecv self.server =
        .ok (fromServer, server) ∧
      fromClient.write (self.serverWritten turn) turn.serverSend server =
        .ok (self'.fromClient, self'.server) ∧
      fromServer.write (self.clientWritten turn) turn.clientSend client =
        .ok (self'.fromServer, self'.client) := by
  obtain ⟨⟨fromClient, client⟩, hreadClient, h⟩ := bind_eq_ok_iff.mp h
  obtain ⟨⟨fromServer, server⟩, hreadServer, h⟩ := bind_eq_ok_iff.mp h
  obtain ⟨⟨fromClient', server'⟩, hwriteServer, h⟩ := bind_eq_ok_iff.mp h
  obtain ⟨⟨fromServer', client'⟩, hwriteClient, h⟩ := bind_eq_ok_iff.mp h
  obtain ⟨⟩ := h
  exact ⟨fromClient, client, fromServer, server, hreadClient, hreadServer, hwriteServer,
    hwriteClient⟩

/-- What an iteration does for one direction, from `sender` to `receiver`: `rcvd` is what comes
    from the one, and `sent` is what the other takes. -/
structure Moves (rcvd sent : Bytes) (inbound inbound' : Inbound)
    (sender sender' receiver receiver' : Peer) : Prop where
  received : sender'.received = sender.received ++ rcvd
  accepted : receiver'.accepted = receiver.accepted ++ sent
  buffer : inbound.buffer ++ rcvd = sent ++ inbound'.buffer

/-- An iteration takes from either side what its `recv` returns, and gives to the other what its
    `send` takes of the buffer, with what has just come at the end of it. -/
theorem moves_iterate (h : self.iterate log turn = .ok self') :
    let rcvd := turn.clientRecv.taken (self.clientRead turn)
    let rcvd' := turn.serverRecv.taken (self.serverRead turn)
    Moves rcvd
        (Send.taken (self.serverWritten turn) turn.serverSend (self.fromClient.buffer ++ rcvd))
        self.fromClient self'.fromClient self.client self'.client self.server self'.server ∧
      Moves rcvd'
        (Send.taken (self.clientWritten turn) turn.clientSend (self.fromServer.buffer ++ rcvd'))
        self.fromServer self'.fromServer self.server self'.server self.client self'.client := by
  obtain ⟨fromClient, client, fromServer, server, hreadClient, hreadServer, hwriteServer,
    hwriteClient⟩ := iterate_eq_ok h
  obtain ⟨rfl, hbuffer, -⟩ := Inbound.read_eq_ok hreadClient
  obtain ⟨rfl, hbuffer', -⟩ := Inbound.read_eq_ok hreadServer
  obtain ⟨hsent, htaken, hkept, -⟩ := Inbound.write_eq_ok hwriteServer
  obtain ⟨hsent', htaken', hkept', -⟩ := Inbound.write_eq_ok hwriteClient
  rw [hbuffer] at hsent htaken
  rw [hbuffer'] at hsent' htaken'
  exact ⟨⟨hkept', htaken, hsent⟩, ⟨hkept, htaken', hsent'⟩⟩

/-- Neither direction loses or repeats bytes, or takes any from the other. -/
def Faithful (self : Relay) : Prop :=
  self.fromClient.Faithful self.client self.server ∧
    self.fromServer.Faithful self.server self.client

/-- What was sent before is neither lost nor repeated, and what is sent now comes after it. -/
theorem Moves.faithful {rcvd sent : Bytes} {inbound inbound' : Inbound}
    {sender sender' receiver receiver' : Peer}
    (h : Moves rcvd sent inbound inbound' sender sender' receiver receiver')
    (hfaithful : inbound.Faithful sender receiver) : inbound'.Faithful sender' receiver' := by
  unfold Inbound.Faithful at hfaithful ⊢
  calc receiver'.accepted ++ inbound'.buffer
      = receiver.accepted ++ (inbound.buffer ++ rcvd) := by
        rw [h.accepted, List.append_assoc, ← h.buffer]
    _ = sender'.received := by rw [← List.append_assoc, hfaithful, h.received]

theorem Faithful.iterate (hfaithful : self.Faithful) (h : self.iterate log turn = .ok self') :
    self'.Faithful :=
  ⟨(moves_iterate h).1.faithful hfaithful.1, (moves_iterate h).2.faithful hfaithful.2⟩

theorem faithful_init : Faithful {} := ⟨rfl, rfl⟩

theorem faithful_relay (h : relay log turns = .ok self) : self.Faithful :=
  loop_invariant (fun hfaithful hbody => hfaithful.iterate hbody) faithful_init h

/-- When the loop has ended nothing is left to be sent, and one side at least has closed. -/
theorem ended_of_goesOn (h : self.goesOn = false) :
    self.fromClient.buffer = [] ∧ self.fromServer.buffer = [] ∧
      (self.fromClient.closed = true ∨ self.fromServer.closed = true) := by
  simp only [goesOn, Bool.or_eq_false_iff, decide_eq_false_iff_not, not_not,
    List.length_eq_zero_iff, Bool.and_eq_false_iff, Bool.not_eq_eq_eq_not, Bool.not_false] at h
  exact ⟨h.1.1, h.1.2, h.2⟩

end Relay

/-- After any iterations, whatever they find, each side has taken a beginning of what the other
    has sent and the rest is buffered for it; when the loop ends nothing is buffered, and one side
    at least has closed. -/
theorem relay_faithful (log : Bool) (turns : List Turn) (self : Relay)
    (h : Relay.relay log turns = .ok self) :
    self.server.accepted ++ self.fromClient.buffer = self.client.received ∧
      self.client.accepted ++ self.fromServer.buffer = self.server.received ∧
      (self.goesOn = false → self.fromClient.buffer = [] ∧ self.fromServer.buffer = [] ∧
        (self.fromClient.closed = true ∨ self.fromServer.closed = true)) :=
  ⟨(Relay.faithful_relay h).1, (Relay.faithful_relay h).2, Relay.ended_of_goesOn⟩

/-- The client sends `ab`, with the second byte pending, and closes; the server takes one byte, and
    then the other. -/
def abTurns : List Turn :=
  [{ clientReadable := true, serverReadable := false, clientWritable := false,
     serverWritable := true, clientRecv := .bytes [97] [⟨[98], by decide⟩], serverRecv := .wantRead,
     clientSend := fun _ => .ok 0, serverSend := fun _ => .ok 0 },
   { clientReadable := true, serverReadable := true, clientWritable := false,
     serverWritable := true, clientRecv := .bytes [] [], serverRecv := .wantRead,
     clientSend := fun _ => .ok 0, serverSend := fun offered => .ok (Fin.ofNat _ 1) },
   { clientReadable := false, serverReadable := true, clientWritable := false,
     serverWritable := true, clientRecv := .wantRead, serverRecv := .wantRead,
     clientSend := fun _ => .ok 0, serverSend := fun offered => .ok (Fin.last _) }]

/-- Both bytes are delivered, in their order. -/
theorem relay_faithful_ab :
    ∃ self, Relay.relay true abTurns = .ok self ∧ self.goesOn = false ∧
      self.client.received = [97, 98] ∧ self.server.accepted = [97, 98] ∧
      self.client.accepted = [] := by
  obtain ⟨self, hrelay, hends, hreceived, hreceived'⟩ :
      ∃ self, Relay.relay true abTurns = .ok self ∧ self.goesOn = false ∧
        self.client.received = [97, 98] ∧ self.server.received = [] :=
    ⟨{ client := { received := [97, 98] }, server := { accepted := [97, 98] },
       fromClient := { closed := true, line := [97, 98] } }, by decide +kernel, by decide +kernel,
      rfl, rfl⟩
  obtain ⟨hclient, hserver, hempty⟩ := relay_faithful true abTurns self hrelay
  obtain ⟨hnone, hnone', -⟩ := hempty hends
  rw [hnone, List.append_nil, hreceived] at hclient
  rw [hnone', List.append_nil, hreceived'] at hserver
  exact ⟨self, hrelay, hends, hreceived, hclient, hserver⟩

/-! ## What is logged -/

/-- What is kept of all that has been received: its first line, or the beginning of it. -/
inductive FirstLine (received : Bytes) : Bool → Bytes → Prop
  | whole {line : Bytes} (rest : Bytes) (eq : received = line ++ crlf ++ rest)
      (hline : find crlf line = none) : FirstLine received true line
  | begun (hline : find crlf received = none) : FirstLine received false received

namespace Inbound

variable {self self' : Inbound} {peer peer' : Peer} {received : Bytes}

def Logged (self : Inbound) (received : Bytes) : Prop :=
  FirstLine received self.lineRcvd self.line

theorem Logged.keepLine (h : self.Logged received) (b : Bytes) :
    (self.keepLine true b).Logged (received ++ b) := by
  obtain ⟨closed, lineRcvd, line, buffer⟩ := self
  unfold Inbound.keepLine
  cases h with
  | whole rest eq hline =>
    rw [if_neg (by simp)]
    exact .whole (rest ++ b) (by rw [eq, List.append_assoc]) hline
  | begun hline =>
    rw [if_pos (by simp)]
    dsimp only
    cases hfind : find crlf (line ++ b) with
    | none => exact .begun hfind
    | some idx =>
      obtain ⟨first, rest, hbuf, hfree⟩ := eq_line_of_find hfind
      rw [hbuf, find_line hfree] at hfind
      obtain rfl := Option.some.inj hfind
      have htake : (line ++ b).take first.length = first := by rw [hbuf, take_line]
      rw [Logged]
      dsimp only
      rw [htake]
      exact .whole rest hbuf hfree

theorem Logged.read (h : self.Logged peer.received) {readable : Bool} {rcvd : Received}
    (hread : self.read true readable rcvd peer = .ok (self', peer')) :
    self'.Logged peer'.received := by
  obtain ⟨rfl, -, ⟨hnone, hline, hrcvd⟩ | ⟨hline, hrcvd⟩⟩ := read_eq_ok hread
  · rw [hnone, peer.recv_nil, Logged, hline, hrcvd]
    exact h
  · rw [Logged, hline, hrcvd]
    exact h.keepLine _

theorem Logged.write (h : self.Logged received) {writable : Bool} {send : Send}
    (hwrite : self.write writable send peer = .ok (self', peer')) : self'.Logged received := by
  obtain ⟨-, -, -, hline, hrcvd⟩ := write_eq_ok hwrite
  rw [Logged, hline, hrcvd]
  exact h

end Inbound

namespace Relay

variable {self self' : Relay} {turn : Turn} {turns : List Turn}

def Logged (self : Relay) : Prop :=
  self.fromClient.Logged self.client.received ∧ self.fromServer.Logged self.server.received

theorem Logged.iterate (hlogged : self.Logged) (h : self.iterate true turn = .ok self') :
    self'.Logged := by
  obtain ⟨hclient, hserver⟩ := hlogged
  obtain ⟨fromClient, client, fromServer, server, hreadClient, hreadServer, hwriteServer,
    hwriteClient⟩ := iterate_eq_ok h
  obtain ⟨-, -, hkept, -⟩ := Inbound.write_eq_ok hwriteServer
  obtain ⟨-, -, hkept', -⟩ := Inbound.write_eq_ok hwriteClient
  refine ⟨?_, ?_⟩
  · rw [hkept']
    exact (hclient.read hreadClient).write hwriteServer
  · rw [hkept]
    exact (hserver.read hreadServer).write hwriteClient

theorem logged_init : Logged {} := ⟨.begun rfl, .begun rfl⟩

/-- What is logged of each side is the first line that it has sent. -/
theorem logged_relay (h : relay true turns = .ok self) : self.Logged :=
  loop_invariant (fun hlogged hbody => hlogged.iterate hbody) logged_init h

end Relay

/-- A tunnel that has ended has delivered all that it has received. -/
theorem delivered_of_passiveProxy {log : Bool} {domain : Str} {turns : List Turn}
    {printed : Option Str} (h : passiveProxy log domain turns = .ok printed) :
    ∃ self, Relay.relay log turns = .ok self ∧ self.server.accepted = self.client.received ∧
      self.client.accepted = self.server.received := by
  unfold passiveProxy at h
  split at h
  · exact absurd h (by simp)
  · rename_i self hrelay
    split at h
    · exact absurd h (by simp)
    · rename_i hends
      obtain ⟨hclient, hserver⟩ := Relay.faithful_relay hrelay
      obtain ⟨hempty, hempty', -⟩ := Relay.ended_of_goesOn (Bool.eq_false_iff.mpr hends)
      rw [Inbound.Faithful, hempty, List.append_nil] at hclient
      rw [Inbound.Faithful, hempty', List.append_nil] at hserver
      exact ⟨self, hrelay, hclient, hserver⟩

end Siip.Proxy
