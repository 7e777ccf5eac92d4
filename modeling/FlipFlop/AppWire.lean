import FlipFlop.AppDelivery
import FlipFlop.AppMessage
import FlipFlop.AppShift
/-!
# AppWire — the examples' loops over datagrams (`app/examples/client/main.rs`, `app/examples/server/main.rs`)

Either side encodes into a buffer of 32 bytes and sends nothing if that fails, and decodes what it receives into such a
buffer and ignores what does not decode.  Neither ever happens between the two: the link over bytes is the link over
messages (`wire_outputs`), for events of up to sixteen bytes.  Of a client that may be sent any bytes at all, the last
theorem says what it knows, and that it never leaves the mode in which it sends no command (`client_state`).
-/
namespace FlipFlop
namespace App

open Postcard (Serde LawfulSerde ser varint length_varint length_ser_uint32_le length_ser_uint64_le length_ser_prod)

variable {E T : Type}

def MAX_DATAGRAM_SIZE : Nat := 32

/-- `postcard::to_slice(.., &mut send_buf)`: the bytes of the message, if the buffer holds them. -/
def encoded (bs : List UInt8) : Option (List UInt8) :=
  (Postcard.toSlice bs (Vector.replicate MAX_DATAGRAM_SIZE 0)).map (fun sendBuf => sendBuf.toList.take bs.length)

/-- `&recv_buf[..len]`: a datagram longer than the buffer is cut off. -/
def recvBuf (datagram : List UInt8) : List UInt8 := datagram.take MAX_DATAGRAM_SIZE

def Server.answer [Serde E] (secsSince : T → T → UInt64) (s : Server E T) (datagram : List UInt8) (now : T) :
    Option (List UInt8) :=
  match CommandRequest.fromBytes (C := Command) (recvBuf datagram) with
  | .error _ => none
  | .ok request => encoded (s.reply secsSince request now).toBytes

def Client.send (c : Client) : Option (List UInt8) := encoded c.request.toBytes

/-- The reply a datagram carries. -/
def replyOf [Serde E] (datagram : List UInt8) : Option (EventReply (EventOf E NoEE)) :=
  (EventReply.fromBytes (recvBuf datagram)).toOption

def Client.hear [Serde E] (c : Client) (datagram : List UInt8) : Client :=
  match replyOf (E := E) datagram with
  | some reply => c.receive reply
  | none => c

/-- A turn of the link with the messages as bytes. -/
def Link.wireStep [Serde E] (secsSince : T → T → UInt64) (l : Link E T) : Act E T → Link E T × Seen E
  | .push event instant => ({ l with server := l.server.push event instant }, .stored l.server.eventOffset)
  | .poll _ .requestLost => (l, .nothing)
  | .poll _ .replyLost => (l, .nothing)
  | .poll now .delivered =>
    match l.client.send.bind (fun datagram => l.server.answer secsSince datagram now) with
    | none => (l, .nothing)
    | some datagram =>
      ({ l with client := l.client.hear (E := E) datagram }, ((replyOf datagram).map Seen.received).getD .nothing)

/-! ## Every message fits -/

theorem encoded_of_le {bs : List UInt8} (h : bs.length ≤ MAX_DATAGRAM_SIZE) : encoded bs = some bs := by
  obtain ⟨out, hout, hlist⟩ := Rust.writeFront_of_le bs (Vector.replicate MAX_DATAGRAM_SIZE 0) h
  rw [encoded, Postcard.toSlice, hout, Option.map_some, hlist, List.take_left]

theorem recvBuf_of_le {bs : List UInt8} (h : bs.length ≤ MAX_DATAGRAM_SIZE) : recvBuf bs = bs := List.take_of_length_le h

theorem length_commandRequest (request : CommandRequest Command) : request.toBytes.length ≤ MAX_DATAGRAM_SIZE := by
  obtain ⟨last, command⟩ := request
  have hlast : (ser last).length ≤ 6 := by
    cases last with
    | none => show 1 ≤ 6; decide
    | some n =>
      have := length_ser_uint32_le n
      show (1 :: ser n).length ≤ 6
      rw [List.length_cons]
      omega
  have hcommand : (serialiseLastField command).length ≤ 1 := by
    cases command with
    | none => decide
    | some command => cases command; decide
  show (ser last ++ serialiseLastField command).length ≤ 32
  rw [List.length_append]
  omega

/-- The events are short enough to go with their offset and age. -/
def Short (E : Type) [Serde E] : Prop := ∀ e : E, (ser e).length ≤ 16

theorem length_ser_eventOf [Serde E] (hshort : Short E) (event : EventOf E NoEE) : (ser event).length ≤ 22 := by
  have hindex : ∀ i < 128, (varint 32 i).length = 1 := by
    intro i hi
    rw [length_varint (by decide) (by omega), Postcard.varintLen_of_lt hi]
  cases event with
  | logged e offset =>
    have he := hshort e
    have ho := length_ser_uint32_le offset
    show (varint 32 0 ++ ser (e, offset)).length ≤ 22
    rw [List.length_append, hindex 0 (by decide), length_ser_prod]
    omega
  | ephemeral e =>
    show (varint 32 1 ++ []).length ≤ 22
    rw [List.append_nil, hindex 1 (by decide)]
    decide
  | recovery start stop =>
    have hstart := length_ser_uint32_le start
    have hstop := length_ser_uint32_le stop
    show (varint 32 2 ++ ser (start, stop)).length ≤ 22
    rw [List.length_append, hindex 2 (by decide), length_ser_prod]
    omega

theorem length_eventReply [Serde E] (hshort : Short E) (reply : EventReply (EventOf E NoEE)) :
    reply.toBytes.length ≤ MAX_DATAGRAM_SIZE := by
  obtain ⟨ticks, event⟩ := reply
  have hticks := length_ser_uint64_le ticks
  have hevent : (serialiseLastField event).length ≤ 22 := by
    cases event with
    | none => exact Nat.zero_le 22
    | some event => exact length_ser_eventOf hshort event
  show (ser ticks ++ serialiseLastField event).length ≤ 32
  rw [List.length_append]
  omega

/-! ## The link over bytes is the link -/

theorem answer_send [Serde E] (hshort : Short E) (secsSince : T → T → UInt64) (s : Server E T) (c : Client) (now : T) :
    c.send.bind (fun datagram => s.answer secsSince datagram now) = some (s.reply secsSince c.request now).toBytes := by
  have hfits := length_commandRequest c.request
  have hround : CommandRequest.fromBytes c.request.toBytes = .ok c.request :=
    commandRequest_round_trip_iff.2 ⟨_, rfl⟩ c.request
  rw [Client.send, encoded_of_le hfits, Option.bind_some, Server.answer, recvBuf_of_le hfits, hround]
  exact encoded_of_le (length_eventReply hshort _)

theorem replyOf_toBytes [Serde E] [LawfulSerde E] (hshort : Short E) (reply : EventReply (EventOf E NoEE)) :
    replyOf reply.toBytes = some reply := by
  rw [replyOf, recvBuf_of_le (length_eventReply hshort reply), eventReply_round_trip]
  rfl

theorem wireStep_eq_step [Serde E] [LawfulSerde E] (hshort : Short E) (secsSince : T → T → UInt64) (l : Link E T)
    (a : Act E T) : l.wireStep secsSince a = l.step secsSince a := by
  cases a with
  | push event instant => rfl
  | poll now fate =>
    cases fate with
    | requestLost => rfl
    | replyLost => rfl
    | delivered =>
      have hreply := replyOf_toBytes hshort (l.server.reply secsSince l.client.request now)
      rw [Link.wireStep, answer_send hshort]
      simp only [Client.hear, hreply, Option.map_some, Option.getD_some]
      rfl

/-- **Nothing is lost between a message and its bytes**: over every run the link of 32-byte datagrams does what the link
of messages does. -/
theorem wire_outputs [Serde E] [LawfulSerde E] (hshort : Short E) (secsSince : T → T → UInt64) (b : UInt32)
    (acts : List (Act E T)) :
    Mealy.run (Link.wireStep secsSince) (Link.init b) acts = after secsSince b acts ∧
    Mealy.outputs (Link.wireStep secsSince) (Link.init b) acts = seen secsSince b acts := by
  have hstep : Link.wireStep (E := E) secsSince = Link.step secsSince :=
    funext fun l => funext fun a => wireStep_eq_step hshort secsSince l a
  rw [hstep]
  exact ⟨rfl, rfl⟩

/-- The events of the examples take a byte. -/
theorem short_event : Short Event := by
  intro event
  cases event
  decide

theorem wire_outputs_two_events :
    Mealy.run (Link.wireStep (fun now t => UInt64.ofNat (now - t))) (Link.init 3) exampleActs
      = after (fun now t => UInt64.ofNat (now - t)) 3 exampleActs ∧
    Mealy.outputs (Link.wireStep (fun now t => UInt64.ofNat (now - t))) (Link.init 3) exampleActs
      = seen (fun now t => UInt64.ofNat (now - t)) 3 exampleActs :=
  wire_outputs short_event _ 3 exampleActs

/-! ## A client that is sent anything -/

/-- The events a client is sent in some datagrams, newest first. -/
def newestFirst (E : Type) [Serde E] (datagrams : List (List UInt8)) : List (EventOf E NoEE) :=
  (datagrams.filterMap (fun datagram => (replyOf datagram).bind EventReply.event)).reverse

/-- Where an event leaves its client. -/
def EventOf.leadsTo : EventOf E NoEE → Option UInt32
  | .logged _ offset => some offset
  | .recovery start _ => some start
  | .ephemeral _ => none

def EventOf.isLogged : EventOf E NoEE → Bool
  | .logged _ _ => true
  | _ => false

/-- How far an event has its client recover. -/
def EventOf.recoversTo : EventOf E NoEE → Option (Option UInt32)
  | .recovery start stop => some (if start ≠ stop then some stop else none)
  | _ => none

/-- What a client knows of a server once it has been sent `events`. -/
def Client.knowing (events : List (EventOf E NoEE)) : Client :=
  { lastEventOffset := events.findSome? EventOf.leadsTo
    eventCount := UInt32.ofNat ((events.takeWhile (fun event => !event.isRecovery)).countP EventOf.isLogged)
    initMode := true
    recoveryEventOffset := (events.findSome? EventOf.recoversTo).join }

theorem Client.ext_fields {c d : Client} (hlast : c.lastEventOffset = d.lastEventOffset)
    (hcount : c.eventCount = d.eventCount) (hinit : c.initMode = d.initMode)
    (hrecovery : c.recoveryEventOffset = d.recoveryEventOffset) : c = d := by
  cases c
  cases d
  cases hlast
  cases hcount
  cases hinit
  cases hrecovery
  rfl

theorem receive_knowing (events : List (EventOf E NoEE)) (ticks : UInt64) (event : EventOf E NoEE) :
    (Client.knowing events).receive ⟨ticks, some event⟩ = Client.knowing (event :: events) := by
  cases event with
  | logged e offset =>
    have hpast : (EventOf.logged e offset :: events).takeWhile (fun event => !event.isRecovery)
        = .logged e offset :: events.takeWhile (fun event => !event.isRecovery) := List.takeWhile_cons_of_pos rfl
    refine Client.ext_fields rfl ?_ (ite_self true) rfl
    simp only [Client.knowing, hpast]
    rw [List.countP_cons_of_pos rfl]
    exact (Counter.ofNat_succ _).symm
  | ephemeral e =>
    have hpast : (EventOf.ephemeral e :: events).takeWhile (fun event => !event.isRecovery)
        = .ephemeral e :: events.takeWhile (fun event => !event.isRecovery) := List.takeWhile_cons_of_pos rfl
    refine Client.ext_fields rfl ?_ rfl rfl
    simp only [Client.knowing, hpast]
    rw [List.countP_cons_of_neg Bool.false_ne_true]
    rfl
  | recovery start stop =>
    have hpast : (EventOf.recovery start stop :: events).takeWhile (fun event => !event.isRecovery) = [] :=
      List.takeWhile_cons_of_neg Bool.false_ne_true
    refine Client.ext_fields rfl ?_ rfl rfl
    simp only [Client.knowing, hpast]
    rfl

/-- **What a client knows, whatever it is sent**: it asks from the last event or recovery, counts the events logged since
the last recovery, and never leaves the mode it starts in, so that no request of its carries a command. -/
theorem client_state [Serde E] (datagrams : List (List UInt8)) :
    datagrams.foldl (Client.hear (E := E)) Client.init = Client.knowing (newestFirst E datagrams) ∧
    (datagrams.foldl (Client.hear (E := E)) Client.init).request
      = { lastEventOffset := (newestFirst E datagrams).findSome? EventOf.leadsTo, command := none } := by
  have hstate : datagrams.foldl (Client.hear (E := E)) Client.init = Client.knowing (newestFirst E datagrams) := by
    induction datagrams using List.reverseRecOn with
    | nil => rfl
    | append_singleton datagrams datagram ih =>
      rw [List.foldl_append, ih, List.foldl_cons, List.foldl_nil, newestFirst, newestFirst, List.filterMap_append,
        Client.hear]
      cases hreply : replyOf (E := E) datagram with
      | none => simp [hreply]
      | some reply =>
        obtain ⟨ticks, event⟩ := reply
        cases event with
        | none => simp [hreply, Client.receive]
        | some event => simp [hreply, receive_knowing]
  rw [hstate]
  exact ⟨rfl, rfl⟩

end App
end FlipFlop
