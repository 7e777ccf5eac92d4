import FlipFlop.Serde
/-!
# AppMessage — the requests and replies of `app/src/lib.rs`

The last field of either message is written without its `Option` tag: nothing for `None`, the value alone for `Some`
(`serialise_last_field`), and read as `None` whenever the value does not decode (`deserialise_last_field`).  So `None`
and `Some` are told apart by whether a value is there to decode, and the round trip rests on the empty input not being
one (`commandRequest_round_trip_iff`).
-/
namespace FlipFlop
namespace App

open Postcard (Serde LawfulSerde ser de de_ser de_ser_nil varint takeVarint)

structure CommandRequest (C : Type) where
  lastEventOffset : Option UInt32
  command : Option C
  deriving Repr, DecidableEq

abbrev NoEE := Unit

inductive EventOf (E EE : Type)
  | logged (event : E) (offset : UInt32)
  | ephemeral (event : EE)
  | recovery (start stop : UInt32)
  deriving Repr, DecidableEq

structure EventReply (E : Type) where
  deltaTicks : UInt64
  event : Option E
  deriving Repr, DecidableEq

/-- Given an event and its time, return an event reply containing it. -/
def eventReply {E T : Type} (maybeEvent : Option (E × T)) (durationSince : T → UInt64) : EventReply E :=
  match maybeEvent with
  | some (e, t) => { deltaTicks := durationSince t, event := some e }
  | none => { deltaTicks := 0, event := none }

/-! ## The last field -/

def serialiseLastField {α : Type} [Serde α] : Option α → List UInt8
  | some o => ser o
  | none => ser ()

/-- What the attempt read before it failed is gone, and nothing is read after the last field. -/
def deserialiseLastField {α : Type} [Serde α] (bs : List UInt8) : Option α :=
  match de (α := α) bs with
  | .error _ => none
  | .ok (v, _) => some v

def CommandRequest.toBytes {C : Type} [Serde C] (r : CommandRequest C) : List UInt8 :=
  ser r.lastEventOffset ++ serialiseLastField r.command

def CommandRequest.fromBytes {C : Type} [Serde C] (bs : List UInt8) : Except Postcard.Error (CommandRequest C) :=
  match de (α := Option UInt32) bs with
  | .error e => .error e
  | .ok (lastEventOffset, rest) => .ok { lastEventOffset, command := deserialiseLastField rest }

def EventReply.toBytes {E : Type} [Serde E] (r : EventReply E) : List UInt8 :=
  ser r.deltaTicks ++ serialiseLastField r.event

def EventReply.fromBytes {E : Type} [Serde E] (bs : List UInt8) : Except Postcard.Error (EventReply E) :=
  match de (α := UInt64) bs with
  | .error e => .error e
  | .ok (deltaTicks, rest) => .ok { deltaTicks, event := deserialiseLastField rest }

/-! ## Events on the wire -/

variable {E EE C : Type}

instance [Serde E] [Serde EE] : Serde (EventOf E EE) where
  ser
    | .logged e offset => varint 32 0 ++ ser (e, offset)
    | .ephemeral e => varint 32 1 ++ ser e
    | .recovery start stop => varint 32 2 ++ ser (start, stop)
  de bs :=
    match takeVarint 32 bs with
    | .error e => .error e
    | .ok (0, rest) =>
      match de (α := E × UInt32) rest with
      | .error e => .error e
      | .ok ((e, offset), rest) => .ok (.logged e offset, rest)
    | .ok (1, rest) =>
      match de (α := EE) rest with
      | .error e => .error e
      | .ok (e, rest) => .ok (.ephemeral e, rest)
    | .ok (2, rest) =>
      match de (α := UInt32 × UInt32) rest with
      | .error e => .error e
      | .ok ((start, stop), rest) => .ok (.recovery start stop, rest)
    | .ok (_, _) => .error .custom

instance [Serde E] [LawfulSerde E] [Serde EE] [LawfulSerde EE] : LawfulSerde (EventOf E EE) := ⟨fun x rest => by
  cases x with
  | logged e offset =>
    simp only [Serde.ser, Serde.de, List.append_assoc]
    rw [Postcard.takeVarint_varint (by decide) (by decide)]
    have := de_ser (e, offset) rest
    simp only [Serde.ser, Serde.de, List.append_assoc] at this
    simp only [this]
  | ephemeral e =>
    simp only [Serde.ser, Serde.de, List.append_assoc]
    rw [Postcard.takeVarint_varint (by decide) (by decide)]
    simp only [de_ser]
  | recovery start stop =>
    simp only [Serde.ser, Serde.de, List.append_assoc]
    rw [Postcard.takeVarint_varint (by decide) (by decide)]
    have := de_ser (start, stop) rest
    simp only [Serde.ser, Serde.de, List.append_assoc] at this
    simp only [this]⟩

/-- No event, not even one that encodes to nothing, is read off the empty input: its kind comes first. -/
theorem de_eventOf_nil [Serde E] [Serde EE] : de (α := EventOf E EE) [] = .error .unexpectedEnd := by
  simp only [Serde.de]
  rw [Postcard.takeVarint_nil (by decide)]

/-! ## Round trips -/

theorem deserialise_serialise_some [Serde C] [LawfulSerde C] (c : C) :
    deserialiseLastField (serialiseLastField (some c)) = some c := by
  simp only [serialiseLastField, deserialiseLastField]
  rw [de_ser_nil]

/-- **The last field survives exactly when the empty input is no value.** -/
theorem lastField_round_trip_iff [Serde C] [LawfulSerde C] :
    (∀ o : Option C, deserialiseLastField (serialiseLastField o) = o) ↔ ∃ e, de (α := C) [] = .error e := by
  constructor
  · intro h
    have hnone : deserialiseLastField (α := C) [] = none := h none
    unfold deserialiseLastField at hnone
    split at hnone
    · rename_i e he
      exact ⟨e, he⟩
    · cases hnone
  · rintro ⟨e, he⟩ o
    cases o with
    | some c => exact deserialise_serialise_some c
    | none =>
      show deserialiseLastField (α := C) [] = none
      unfold deserialiseLastField
      rw [he]

/-- A reply may be read with another type of events than it was written with, and so a request. -/
theorem eventReply_fromBytes_toBytes {E' : Type} [Serde E] [Serde E'] (r : EventReply E) :
    EventReply.fromBytes (E := E') r.toBytes
      = .ok ⟨r.deltaTicks, deserialiseLastField (serialiseLastField r.event)⟩ := by
  unfold EventReply.fromBytes EventReply.toBytes
  rw [de_ser]

theorem commandRequest_fromBytes_toBytes {C' : Type} [Serde C] [Serde C'] (r : CommandRequest C) :
    CommandRequest.fromBytes (C := C') r.toBytes =
      .ok ⟨r.lastEventOffset, deserialiseLastField (serialiseLastField r.command)⟩ := by
  unfold CommandRequest.fromBytes CommandRequest.toBytes
  rw [de_ser]

theorem eventReply_round_trip [Serde E] [LawfulSerde E] [Serde EE] [LawfulSerde EE]
    (r : EventReply (EventOf E EE)) : EventReply.fromBytes r.toBytes = .ok r := by
  have hlast := lastField_round_trip_iff.2 ⟨_, de_eventOf_nil⟩ r.event
  rw [eventReply_fromBytes_toBytes, hlast]

theorem commandRequest_round_trip_iff [Serde C] [LawfulSerde C] :
    (∀ r : CommandRequest C, CommandRequest.fromBytes r.toBytes = .ok r) ↔ ∃ e, de (α := C) [] = .error e := by
  rw [← lastField_round_trip_iff]
  constructor
  · intro h o
    have := h { lastEventOffset := none, command := o }
    rw [commandRequest_fromBytes_toBytes] at this
    simpa using this
  · intro h r
    rw [commandRequest_fromBytes_toBytes, h]

/-- **Every message survives its encoding** — every reply, and every request exactly when the command's decoder
refuses the empty input. -/
theorem messages_round_trip (E EE C : Type) [Serde E] [LawfulSerde E] [Serde EE] [LawfulSerde EE] [Serde C]
    [LawfulSerde C] :
    (∀ r : EventReply (EventOf E EE), EventReply.fromBytes r.toBytes = .ok r) ∧
    ((∀ r : CommandRequest C, CommandRequest.fromBytes r.toBytes = .ok r) ↔ ∃ e, de (α := C) [] = .error e) :=
  ⟨eventReply_round_trip, commandRequest_round_trip_iff⟩

/-! ## The vocabulary of the examples (`app/examples/common/lib.rs`) -/

inductive Command
  | someCommand
  deriving Repr, DecidableEq

inductive Event
  | someEvent
  deriving Repr, DecidableEq

instance : Serde Command := Postcard.Serde.unitVariant .someCommand

instance : LawfulSerde Command := Postcard.LawfulSerde.unitVariant Command.someCommand (fun .someCommand => rfl)

instance : Serde Event := Postcard.Serde.unitVariant .someEvent

instance : LawfulSerde Event := Postcard.LawfulSerde.unitVariant Event.someEvent (fun .someEvent => rfl)

theorem messages_round_trip_examples :
    (∀ r : EventReply (EventOf Event NoEE), EventReply.fromBytes r.toBytes = .ok r) ∧
    (∀ r : CommandRequest Command, CommandRequest.fromBytes r.toBytes = .ok r) ∧
    ¬ ∀ r : CommandRequest Unit, CommandRequest.fromBytes r.toBytes = .ok r := by
  refine ⟨(messages_round_trip Event NoEE Command).1, (messages_round_trip Event NoEE Command).2.2 ⟨_, rfl⟩, ?_⟩
  intro h
  obtain ⟨e, he⟩ := (messages_round_trip Event NoEE Unit).2.1 h
  cases he

end App
end FlipFlop
