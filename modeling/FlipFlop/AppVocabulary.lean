import FlipFlop.AppMessage
/-!
# AppVocabulary — messages between two versions of an application (`app/src/lib.rs`)

A request or a reply may be read with other commands or events than it was written with.  Its first field is read all the
same, for it does not depend on what follows it, and a last field that does not decode is an absent one
(`vocabulary_mismatch`).
-/
namespace FlipFlop
namespace App

open Postcard (Serde Local Error ser de)

/-- The last field is what its bytes decode to, and absent where they do not. -/
theorem deserialiseLastField_eq {α : Type} [Serde α] (bs : List UInt8) :
    deserialiseLastField (α := α) bs = (Postcard.fromBytes (α := α) bs).toOption := by
  unfold deserialiseLastField Postcard.fromBytes
  cases de (α := α) bs <;> rfl

/-! ## The first field -/

/-- A message is refused exactly when its first field is, and that field stays the same whatever is put behind it. -/
structure FirstFieldDecides {F M : Type} [Serde F] (fromBytes : List UInt8 → Except Error M) (first : M → F) : Prop where
  fails_iff : ∀ bs, (∃ e, fromBytes bs = .error e) ↔ ∃ e, Postcard.fromBytes (α := F) bs = .error e
  independent : ∀ bs m, fromBytes bs = .ok m → ∃ front rest, bs = front ++ rest ∧ de front = .ok (first m, []) ∧
    ∀ rest', ∃ m', fromBytes (front ++ rest') = .ok m' ∧ first m' = first m

theorem firstFieldDecides_of_de {F M : Type} [Serde F] (hlocal : Local (de (α := F)))
    {fromBytes : List UInt8 → Except Error M} {first : M → F} {message : F → List UInt8 → M}
    (hok : ∀ {bs x rest}, de (α := F) bs = .ok (x, rest) → fromBytes bs = .ok (message x rest))
    (herror : ∀ {bs e}, de (α := F) bs = .error e → fromBytes bs = .error e)
    (hfirst : ∀ x rest, first (message x rest) = x) : FirstFieldDecides fromBytes first where
  fails_iff bs := by
    cases hde : de (α := F) bs with
    | error e => simp [herror hde, Postcard.fromBytes, hde]
    | ok p => simp [hok hde, Postcard.fromBytes, hde]
  independent bs m hm := by
    cases hde : de (α := F) bs with
    | error e =>
      rw [herror hde] at hm
      cases hm
    | ok p =>
      rw [hok hde] at hm
      cases hm
      obtain ⟨front, hsplit, hfront⟩ := hlocal hde
      have halone : de (α := F) front = .ok (p.1, []) := by
        have := hfront []
        rwa [List.append_nil] at this
      rw [hfirst]
      exact ⟨front, p.2, hsplit, halone, fun rest' => ⟨_, hok (hfront rest'), hfirst _ _⟩⟩

theorem commandRequest_firstFieldDecides (C : Type) [Serde C] :
    FirstFieldDecides (CommandRequest.fromBytes (C := C)) CommandRequest.lastEventOffset :=
  firstFieldDecides_of_de (Postcard.local_option Postcard.local_uint32)
    (fun h => by rw [CommandRequest.fromBytes, h]) (fun h => by rw [CommandRequest.fromBytes, h]) (fun _ _ => rfl)

theorem eventReply_firstFieldDecides (E : Type) [Serde E] :
    FirstFieldDecides (EventReply.fromBytes (E := E)) EventReply.deltaTicks :=
  firstFieldDecides_of_de Postcard.local_uint64
    (fun h => by rw [EventReply.fromBytes, h]) (fun h => by rw [EventReply.fromBytes, h]) (fun _ _ => rfl)

/-! ## Two vocabularies -/

/-- **A mismatch of vocabularies never loses the protocol's own fields**: what was written with one type of commands is
read with any other, its offset unchanged and its command whatever the other type decodes from the bytes behind it; so
with events and ticks.  On any bytes at all only the first field decides whether there is a message. -/
theorem vocabulary_mismatch (C C' E E' : Type) [Serde C] [Serde C'] [Serde E] [Serde E'] :
    (∀ r : CommandRequest C, CommandRequest.fromBytes (C := C') r.toBytes
      = .ok { lastEventOffset := r.lastEventOffset
              command := (Postcard.fromBytes (serialiseLastField r.command)).toOption }) ∧
    (∀ r : EventReply E, EventReply.fromBytes (E := E') r.toBytes
      = .ok { deltaTicks := r.deltaTicks, event := (Postcard.fromBytes (serialiseLastField r.event)).toOption }) ∧
    FirstFieldDecides (CommandRequest.fromBytes (C := C')) CommandRequest.lastEventOffset ∧
    FirstFieldDecides (EventReply.fromBytes (E := E')) EventReply.deltaTicks := by
  refine ⟨?_, ?_, commandRequest_firstFieldDecides C', eventReply_firstFieldDecides E'⟩
  · intro r
    rw [commandRequest_fromBytes_toBytes, deserialiseLastField_eq]
  · intro r
    rw [eventReply_fromBytes_toBytes, deserialiseLastField_eq]

end App
end FlipFlop
