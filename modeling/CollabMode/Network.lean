import CollabMode.Following

/-!
# Servers and the messages between them

A `Network` has a server for each id and the messages on their way.  A message is
delivered whenever it likes, also before one that was sent earlier, or it is lost when
the connection breaks.  What a server does by itself, and what its connections tell it,
happens in between.
-/

namespace CollabMode

/-- A message that is about the connection it comes over. -/
def Msg.isOfConnection : Msg → Bool
  | .iceProgress _ _ | .failedToConnect _ _ _ | .connectionBroke _ _ | .hey _ | .bye => true
  | _ => false

/-- No message of a peer, or one about the connection. -/
def Event.isLocal : Event → Bool
  | .message msg => msg.body.isOfConnection
  | _ => true

structure Network.Packet where
  source : ServerId
  dest : ServerId
  reqId : Option RequestId
  body : Msg
deriving DecidableEq, Repr

def Network.Packet.event (self : Packet) : Event :=
  .message { host := self.source, body := self.body, reqId := self.reqId }

/-- The message that an effect sends. -/
def Effect.packet? (source : ServerId) : Effect → Option Network.Packet
  | .send dest reqId body => some { source, dest, reqId, body }
  | _ => none

structure Network where
  servers : ServerId → Server
  wire : List Network.Packet

namespace Network

inductive Act where
  | turn (os : Os) (id : ServerId) (event : Event)
  | deliver (os : Os) (index : Nat)
  | lose (index : Nat)

def start (config : ServerId → Config) (idealWorld : ServerId → WorldState) : Network :=
  { servers := fun id => .new id (config id) (idealWorld id), wire := [] }

/-- A server handles an event. -/
def handle (os : Os) (self : Network) (id : ServerId) (event : Event) : Option Network := do
  let (server, effects) ← (self.servers id).handle os event
  some
    { servers := Function.update self.servers id server
      wire := self.wire ++ effects.filterMap (Effect.packet? id) }

/-- Take a message from the wire. -/
def take (self : Network) (index : Nat) : Network :=
  { self with wire := self.wire.eraseIdx index }

def step (self : Network) : Act → Option Network
  | .turn os id event => if event.isLocal then self.handle os id event else none
  | .deliver os index => do
      let packet ← self.wire[index]?
      (self.take index).handle os packet.dest packet.event
  | .lose index => if index < self.wire.length then some (self.take index) else none

/-- The copy that `p` keeps of document `d` of `h`. -/
def copy (self : Network) (p h : ServerId) (d : DocId) : Option RemoteDocEntry :=
  (self.servers p).remoteDocs.get h d

/-- The document that `h` serves under `d`. -/
def doc (self : Network) (h : ServerId) (d : DocId) : Option Doc := (self.servers h).hosted d

/-- Servers go by their ids, and their documents as well. -/
structure Ok (net : Network) : Prop where
  hostId : ∀ id, (net.servers id).hostId = id
  ids : ∀ id, (net.servers id).IdsOk

theorem ok_start (config : ServerId → Config) (idealWorld : ServerId → WorldState) :
    (start config idealWorld).Ok :=
  ⟨fun _ => rfl, fun _ => ⟨List.nodup_nil, by simp [start, Server.new, AssocMap.keys]⟩⟩

/-- What a server does when it handles an event. -/
structure Turn (os : Os) (before : Network) (id : ServerId) (event : Event) (after : Network)
    (effects : List Effect) : Prop where
  handle : (before.servers id).handle os event = some (after.servers id, effects)
  others : ∀ other, other ≠ id → after.servers other = before.servers other
  wire : after.wire = before.wire ++ effects.filterMap (Effect.packet? id)

theorem turn_of_handle {os : Os} {net t : Network} {id : ServerId} {event : Event}
    (h : net.handle os id event = some t) : ∃ effects, Turn os net id event t effects := by
  simp only [Network.handle, Option.bind_eq_bind, Option.bind_eq_some_iff, Prod.exists] at h
  obtain ⟨server, effects, hhandle, ht⟩ := h
  cases ht
  refine ⟨effects, ?_, fun other hne => Function.update_of_ne hne server net.servers, rfl⟩
  simpa using hhandle

namespace Turn

variable {os : Os} {before after : Network} {id : ServerId} {event : Event}
  {effects : List Effect}

theorem handled (h : Turn os before id event after effects) :
    Server.Handled os (before.servers id) event (after.servers id) effects :=
  Server.handled h.handle

theorem ok (h : Turn os before id event after effects) (hok : before.Ok) : after.Ok := by
  refine ⟨fun other => ?_, fun other => ?_⟩
  · by_cases hne : other = id
    · rw [hne, h.handled.projects.1]
      exact hok.hostId id
    · rw [h.others other hne]
      exact hok.hostId other
  · by_cases hne : other = id
    · rw [hne]
      exact (hok.ids id).handled h.handled
    · rw [h.others other hne]
      exact hok.ids other

/-- A message that is asked of a host is on its way to it. -/
theorem mem_wire_of_asked (h : Turn os before id event after effects) {dest : ServerId}
    {d : DocId} {body : Msg} (hasked : body ∈ asked dest d effects) :
    ∃ reqId, { source := id, dest, reqId, body } ∈ after.wire := by
  obtain ⟨⟨host, msg⟩, hsent, rfl⟩ := List.mem_map.mp hasked
  obtain ⟨hmem, hdest⟩ := List.mem_filter.mp hsent
  obtain ⟨e, he, hdoc⟩ := List.mem_filterMap.mp hmem
  obtain ⟨rfl, -⟩ := of_decide_eq_true hdest
  cases e with
  | send host' reqId msg' =>
      obtain ⟨_, _, heq⟩ := Option.map_eq_some_iff.mp hdoc
      cases heq
      refine ⟨reqId, ?_⟩
      rw [h.wire]
      exact List.mem_append_right _ (List.mem_filterMap.mpr ⟨_, he, rfl⟩)
  | _ => cases hdoc

/-- A new message about a document is one that a host tells or that a client asks. -/
theorem mem_docMsgs {packet : Packet} {d : DocId}
    (hmem : packet ∈ effects.filterMap (Effect.packet? id)) (hdoc : packet.body.docId? = some d) :
    packet.source = id ∧ (packet.dest, packet.body) ∈ docMsgs effects := by
  obtain ⟨e, he, hpacket⟩ := List.mem_filterMap.mp hmem
  cases e with
  | send dest reqId body =>
      cases hpacket
      exact ⟨rfl, List.mem_filterMap.mpr ⟨_, he, Option.map_eq_some_iff.mpr ⟨d, hdoc, rfl⟩⟩⟩
  | _ => cases hpacket

end Turn

end Network

end CollabMode
