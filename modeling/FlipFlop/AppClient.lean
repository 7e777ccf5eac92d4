import FlipFlop.AppServer
/-!
# AppClient — the reference client's loop, and the link to its server (`app/examples/client/main.rs`)

One turn of the client's loop sends a request and takes the reply that arrives before the next turn, if one does.  The
link is the client and the server with a transport between them that may lose either message (`Fate`); what an observer
sees of a turn is `Seen`.
-/
namespace FlipFlop
namespace App

structure Client where
  lastEventOffset : Option UInt32
  eventCount : UInt32
  initMode : Bool
  recoveryEventOffset : Option UInt32
  deriving Repr, DecidableEq

variable {E T : Type}

namespace Client

def init : Client := { lastEventOffset := none, eventCount := 0, initMode := true, recoveryEventOffset := none }

def request (c : Client) : CommandRequest Command :=
  { lastEventOffset := c.lastEventOffset, command := if c.initMode then none else some .someCommand }

def receive (c : Client) (reply : EventReply (EventOf E NoEE)) : Client :=
  match reply.event with
  | some (.recovery start stop) =>
    { initMode := true, eventCount := 0, lastEventOffset := some start
      recoveryEventOffset := if start ≠ stop then some stop else none }
  | some (.logged _ offset) =>
    { c with
      eventCount := c.eventCount + 1
      lastEventOffset := some offset
      initMode := if some offset = c.recoveryEventOffset then true else c.initMode }
  | _ => c

theorem receive_of_none (c : Client) (reply : EventReply (EventOf E NoEE)) (h : reply.event = none) :
    c.receive reply = c := by
  unfold receive; rw [h]

theorem receive_logged (c : Client) (reply : EventReply (EventOf E NoEE)) {e : E} {o : UInt32}
    (h : reply.event = some (.logged e o)) : (c.receive reply).lastEventOffset = some o := by
  unfold receive; rw [h]

theorem receive_recovery (c : Client) (reply : EventReply (EventOf E NoEE)) {start stop : UInt32}
    (h : reply.event = some (.recovery start stop)) : (c.receive reply).lastEventOffset = some start := by
  unfold receive; rw [h]

end Client

/-! ## The link -/

structure Link (E T : Type) where
  server : Server E T
  client : Client

inductive Fate
  | requestLost
  | replyLost
  | delivered
  deriving Repr, DecidableEq

inductive Act (E T : Type)
  | push (event : E) (instant : T)
  | poll (now : T) (fate : Fate)

inductive Seen (E : Type)
  | stored (offset : UInt32)
  | received (reply : EventReply (EventOf E NoEE))
  | nothing

namespace Link

def init (eventOffset : UInt32) : Link E T := { server := Server.init eventOffset, client := Client.init }

def step (secsSince : T → T → UInt64) (l : Link E T) : Act E T → Link E T × Seen E
  | .push event instant => ({ l with server := l.server.push event instant }, .stored l.server.eventOffset)
  | .poll _ .requestLost => (l, .nothing)
  | .poll now .replyLost => ({ l with server := (l.server.step secsSince (.request l.client.request now)).1 }, .nothing)
  | .poll now .delivered =>
    let reply := l.server.reply secsSince l.client.request now
    ({ server := (l.server.step secsSince (.request l.client.request now)).1, client := l.client.receive reply },
      .received reply)

end Link

def Seen.loggedOffset : Seen E → Option UInt32
  | .received ⟨_, some (.logged _ offset)⟩ => some offset
  | _ => none

def Seen.storedOffset : Seen E → Option UInt32
  | .stored offset => some offset
  | _ => none

def Seen.isRecovery : Seen E → Bool
  | .received ⟨_, some (.recovery _ _)⟩ => true
  | _ => false

/-- The offsets of the logged events received, in order. -/
def loggedOffsets (seen : List (Seen E)) : List UInt32 := seen.filterMap Seen.loggedOffset

/-- The offsets given to the events generated, in order. -/
def generatedOffsets (seen : List (Seen E)) : List UInt32 := seen.filterMap Seen.storedOffset

end App
end FlipFlop
