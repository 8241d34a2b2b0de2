import CollabMode.Settlement
import Mathlib.Data.List.Perm.Basic

/-!
# The answers to a request

Two servers handle a request of the editor of one of them.  `Exchange` has the
messages between the two that carry the id of the request, and what the editor was
answered under it.  The messages are delivered in any order, and in between either
server may do anything else.  A handler that panics ends its server, and what comes for
that server stays on its way.

When the request does not make the server panic, and every message that the answer hangs on is
settled as it is delivered, the editor has exactly one answer as soon as no message is on its
way.  A message that is not settled leaves the editor without an answer, or gives it a second
one.
-/

namespace CollabMode

namespace Answering

structure Packet where
  source : ServerId
  dest : ServerId
  body : Msg
deriving DecidableEq, Repr

/-- The server whose editor may wait for what becomes of the packet. -/
def Packet.asker (p : Packet) : ServerId := if p.body.role = .reply then p.dest else p.source

inductive Side where
  | client
  | host
deriving DecidableEq, Repr

structure Exchange where
  parties : Parties
  client : Server
  host : Server
  /-- The servers that a panic has ended. -/
  gone : List Side
  /-- The messages between the two that carry the id of the request. -/
  wire : List Packet
  /-- What the editor got under the id. -/
  responses : List Response
deriving DecidableEq, Repr

inductive Act where
  /-- A server does something else. -/
  | turn (os : Os) (side : Side) (event : Event)
  | deliver (os : Os) (index : Nat)

namespace Parties

/-- The message between the two that an effect sends. -/
def packet? (c : Parties) (here : ServerId) : Effect → Option Packet
  | .send dest (some reqId) body =>
      if reqId = c.reqId ∧ c.has dest then some { source := here, dest, body } else none
  | _ => none

/-- The answer that an effect gives to the editor. -/
def answer? (c : Parties) (here : ServerId) : Effect → Option Response
  | .resp reqId resp => if here = c.client ∧ reqId = c.reqId then some resp else none
  | _ => none

/-- The server that a packet goes to. -/
def side (c : Parties) (id : ServerId) : Side := if id = c.client then .client else .host

def message (c : Parties) (p : Packet) : Message :=
  { host := p.source, body := p.body, reqId := some c.reqId }

/-- What a packet counts. -/
def packetOwed (c : Parties) (p : Packet) : Nat := c.owed p.source p.dest (some c.reqId) p.body

end Parties

namespace Exchange

def server (self : Exchange) : Side → Server
  | .client => self.client
  | .host => self.host

def setServer (self : Exchange) (side : Side) (server : Server) : Exchange :=
  match side with
  | .client => { self with client := server }
  | .host => { self with host := server }

def turn (os : Os) (self : Exchange) (side : Side) (event : Event) : Exchange :=
  match (self.server side).handle os event with
  | none => { self with gone := side :: self.gone }
  | some (server, effects) =>
      let here := (self.server side).hostId
      { self.setServer side server with
        wire := self.wire ++ effects.filterMap (self.parties.packet? here)
        responses := self.responses ++ effects.filterMap (self.parties.answer? here) }

/-- The event is not part of the request.  Ids are not used twice, and nobody answers
what he was not asked. -/
def apart (self : Exchange) (side : Side) : Event → Bool
  | .request reqId _ => side = .host || reqId ≠ self.parties.reqId
  | .message msg =>
      msg.reqId ≠ some self.parties.reqId ||
        !self.parties.has msg.host && (side = .host || msg.body.role ≠ .reply)
  | _ => true

/-- A packet is taken from the wire. -/
def taken (self : Exchange) (index : Nat) : Exchange :=
  { self with wire := self.wire.eraseIdx index }

@[simp] theorem server_taken (self : Exchange) (index : Nat) (side : Side) :
    (self.taken index).server side = self.server side := by cases side <;> rfl

@[simp] theorem parties_taken (self : Exchange) (index : Nat) :
    (self.taken index).parties = self.parties := rfl

/-- A packet is handled. -/
def delivered (os : Os) (self : Exchange) (index : Nat) (p : Packet) : Exchange :=
  (self.taken index).turn os (self.parties.side p.dest) (.message (self.parties.message p))

def step (self : Exchange) : Act → Option Exchange
  | .turn os side event =>
      if self.apart side event && !self.gone.contains side then some (self.turn os side event)
      else none
  | .deliver os index => do
      let p ← self.wire[index]?
      if self.gone.contains (self.parties.side p.dest) then none
      else some (self.delivered os index p)

/-- The two before the request. -/
def idle (client host : Server) (reqId : RequestId) : Exchange :=
  { parties := { client := client.hostId, host := host.hostId, reqId }
    client, host, gone := [], wire := [], responses := [] }

/-- The editor makes the request. -/
def ask (os : Os) (client host : Server) (reqId : RequestId) (req : Request) : Exchange :=
  (idle client host reqId).turn os .client (.request reqId req)

/-- A message that the editor's answer hangs on is settled where it arrives. -/
def Settles (self : Exchange) : Act → Bool
  | .turn _ _ _ => true
  | .deliver os index =>
      self.wire[index]?.all fun p =>
        p.asker != self.parties.client ||
          (self.server (self.parties.side p.dest)).settles os p.source p.body

/-! ## The books of an exchange -/

/-- What the editor has and will get. -/
def books (self : Exchange) : Nat :=
  self.responses.length + (self.wire.map self.parties.packetOwed).sum

theorem books_taken {x : Exchange} {index : Nat} {p : Packet} (h : x.wire[index]? = some p) :
    x.books = (x.taken index).books + x.parties.packetOwed p := by
  obtain ⟨hlt, rfl⟩ := List.getElem?_eq_some_iff.mp h
  have hsum := ((List.getElem_cons_eraseIdx_perm hlt).map x.parties.packetOwed).sum_nat
  simp only [List.map_cons, List.sum_cons] at hsum
  simp only [books, taken]
  omega

/-- The servers go by the ids of the parties, and packets go between them. -/
structure Sound (exchange : Exchange) : Prop where
  client : exchange.client.hostId = exchange.parties.client
  host : exchange.host.hostId = exchange.parties.host
  distinct : exchange.parties.client ≠ exchange.parties.host
  clientKeys : exchange.client.KeysOk
  hostKeys : exchange.host.KeysOk
  routed : ∀ p ∈ exchange.wire,
    exchange.parties.has p.source = true ∧ exchange.parties.has p.dest = true

/-- What the effects of a turn count is what they add to the wire and the answers. -/
theorem outstanding_eq (c : Parties) (here : ServerId) (effects : List Effect) :
    c.outstanding here effects = (effects.filterMap (c.answer? here)).length +
      ((effects.filterMap (c.packet? here)).map c.packetOwed).sum := by
  induction effects with
  | nil => rfl
  | cons e effects ih =>
      rw [Parties.outstanding_cons, ih, List.filterMap_cons, List.filterMap_cons]
      cases e with
      | resp reqId resp =>
          by_cases hours : here = c.client ∧ reqId = c.reqId
          · simp [Parties.answer?, Parties.packet?, Parties.effectOwed, Parties.answered, hours]
            omega
          · simp [Parties.answer?, Parties.packet?, Parties.effectOwed, Parties.answered, hours]
      | send dest reqId body =>
          cases reqId with
          | none => simp [Parties.answer?, Parties.packet?, Parties.effectOwed]
          | some reqId =>
              by_cases hours : reqId = c.reqId ∧ c.has dest = true
              · obtain ⟨rfl, hdest⟩ := hours
                simp [Parties.answer?, Parties.packet?, Parties.effectOwed, Parties.packetOwed,
                  hdest]
                omega
              · have hnone : c.owed here dest (some reqId) body = 0 := by
                  simp only [Parties.owed, Option.some.injEq]
                  rw [if_neg fun h => hours ⟨h.1, h.2.2⟩]
                simp [Parties.answer?, Parties.packet?, Parties.effectOwed, hours, hnone]
      | _ => simp [Parties.answer?, Parties.packet?, Parties.effectOwed]

/-- What counts nothing gives no answer and no packet that counts. -/
theorem of_outstanding_eq_zero {c : Parties} {here : ServerId} {effects : List Effect}
    (h : c.outstanding here effects = 0) :
    effects.filterMap (c.answer? here) = [] ∧
      ∀ p ∈ effects.filterMap (c.packet? here), c.packetOwed p = 0 := by
  rw [outstanding_eq, Nat.add_eq_zero_iff] at h
  obtain ⟨hanswers, hpackets⟩ := h
  refine ⟨List.eq_nil_of_length_eq_zero hanswers, fun p hp => ?_⟩
  exact List.sum_eq_zero_iff_forall_eq_nat.mp hpackets _ (List.mem_map_of_mem hp)

namespace Sound

variable {x t : Exchange}

theorem has_server (h : x.Sound) (side : Side) :
    x.parties.has (x.server side).hostId = true := by
  cases side with
  | client => rw [server, h.client]; exact Parties.has_client
  | host => rw [server, h.host]; exact Parties.has_host

theorem keys (h : x.Sound) (side : Side) : (x.server side).KeysOk := by
  cases side with
  | client => exact h.clientKeys
  | host => exact h.hostKeys

/-- The server that a packet goes to goes by the id on it. -/
theorem hostId_side (h : x.Sound) {id : ServerId} (hid : x.parties.has id = true) :
    (x.server (x.parties.side id)).hostId = id := by
  unfold Parties.side
  split
  next hclient => rw [server, h.client, hclient]
  next hclient =>
      rw [server, h.host]
      exact (by simpa [Parties.has, hclient] using hid : id = x.parties.host).symm

/-- A turn that panics changes nothing, and another one puts its effects on the wire and among
the answers. -/
theorem turn (h : x.Sound) (os : Os) (s : Side) (e : Event) :
    (x.turn os s e).Sound ∧ (x.turn os s e).parties = x.parties ∧
      ((x.server s).handle os e = none ∧ (x.turn os s e).wire = x.wire ∧
          (x.turn os s e).responses = x.responses ∨
        ∃ after effects, (x.server s).handle os e = some (after, effects) ∧
          (x.turn os s e).wire =
            x.wire ++ effects.filterMap (x.parties.packet? (x.server s).hostId) ∧
          (x.turn os s e).responses =
            x.responses ++ effects.filterMap (x.parties.answer? (x.server s).hostId)) := by
  unfold Exchange.turn
  cases hhandle : (x.server s).handle os e with
  | none => exact ⟨{ h with }, rfl, .inl ⟨rfl, rfl, rfl⟩⟩
  | some turned =>
      obtain ⟨after, effects⟩ := turned
      have hhandled := Server.handled hhandle
      have hhost : after.hostId = (x.server s).hostId := hhandled.projects.1
      have hkeys : after.KeysOk := (h.keys s).handled hhandled
      have hrouted : ∀ p ∈ x.wire ++
          effects.filterMap (x.parties.packet? (x.server s).hostId),
          x.parties.has p.source = true ∧ x.parties.has p.dest = true := by
        intro p hp
        rcases List.mem_append.mp hp with hp | hp
        · exact h.routed p hp
        · obtain ⟨effect, _, he⟩ := List.mem_filterMap.mp hp
          unfold Parties.packet? at he
          split at he
          next =>
              split at he
              next hours => cases he; exact ⟨h.has_server s, hours.2⟩
              next => cases he
          next => cases he
      refine ⟨?_, by cases s <;> rfl, .inr ⟨after, effects, rfl, rfl, rfl⟩⟩
      cases s with
      | client =>
          exact ⟨hhost.trans h.client, h.host, h.distinct, hkeys, h.hostKeys, hrouted⟩
      | host =>
          exact ⟨h.client, hhost.trans h.host, h.distinct, h.clientKeys, hkeys, hrouted⟩

/-- What is not part of the request brings nothing. -/
theorem brought_of_apart {side : Side} {event : Event} (h : x.Sound) (os : Os)
    (hapart : x.apart side event = true) :
    x.parties.Admits os (x.server side) event ∧
      x.parties.brought (x.server side) event = 0 := by
  cases event with
  | request reqId req =>
      have hother : ¬((x.server side).hostId = x.parties.client ∧ reqId = x.parties.reqId) := by
        rintro ⟨hme, hid⟩
        cases side with
        | client => simp [apart, hid] at hapart
        | host => exact h.distinct (hme.symm.trans h.host)
      refine ⟨fun hme hid => absurd ⟨hme, hid⟩ hother, ?_⟩
      rw [Parties.brought, Parties.answered, if_neg hother, Nat.mul_zero]
  | message msg =>
      have hfree : ¬x.parties.Concerns (x.server side).hostId msg := by
        rintro ⟨hid, hasker⟩
        simp only [apart, hid, ne_eq, not_true_eq_false, decide_false, Bool.false_or,
          Bool.and_eq_true, Bool.not_eq_true', Bool.or_eq_true, decide_eq_true_eq] at hapart
        obtain ⟨hstranger, hplain⟩ := hapart
        split at hasker
        next hreply =>
            rcases hplain with rfl | hplain
            · exact h.distinct (hasker.symm.trans h.host)
            · exact hplain hreply
        next => simp [hasker] at hstranger
      refine ⟨⟨fun hc => absurd hc hfree, fun hc => absurd hc hfree, fun hc => absurd hc hfree⟩, ?_⟩
      rw [Parties.brought, Parties.returned]
      split
      next => rfl
      next => exact Parties.owed_of_not_concerns hfree
  | _ => exact ⟨trivial, rfl⟩

theorem taken (h : x.Sound) (index : Nat) : (x.taken index).Sound :=
  { h with routed := fun p hp => h.routed p (List.mem_of_mem_eraseIdx hp) }

end Sound

/-! ## Steps that count nothing -/

/-- The editor got nothing, and nothing that counts was sent or taken from the wire. -/
structure Still (x t : Exchange) : Prop where
  sound : t.Sound
  parties : t.parties = x.parties
  responses : t.responses = x.responses
  books : t.books = x.books
  wire : ∀ p ∈ t.wire, p ∈ x.wire ∨ x.parties.packetOwed p = 0

section

variable {x t : Exchange}

theorem Still.trans {u : Exchange} (h : Still x t) (h' : Still t u) : Still x u where
  sound := h'.sound
  parties := h'.parties.trans h.parties
  responses := h'.responses.trans h.responses
  books := h'.books.trans h.books
  wire := fun p hp => (h'.wire p hp).elim (h.wire p) fun hzero => .inr (h.parties ▸ hzero)

theorem still_taken (h : x.Sound) {index : Nat} {p : Packet} (hp : x.wire[index]? = some p)
    (hzero : x.parties.packetOwed p = 0) : Still x (x.taken index) where
  sound := h.taken index
  parties := rfl
  responses := rfl
  books := by rw [books_taken hp, hzero, Nat.add_zero]
  wire := fun _ hq => .inl (List.mem_of_mem_eraseIdx hq)

theorem books_turn (h : x.Sound) {os : Os} {s : Side} {e : Event} {after : Server}
    {effects : List Effect} (hhandle : (x.server s).handle os e = some (after, effects)) :
    (x.turn os s e).books =
      x.books + x.parties.outstanding (x.server s).hostId effects := by
  obtain ⟨-, hparties, ⟨hnone, -, -⟩ | ⟨after', effects', hhandle', hwire, hresponses⟩⟩ :=
    h.turn os s e
  · cases hhandle.symm.trans hnone
  · cases hhandle.symm.trans hhandle'
    rw [books, books, hwire, hresponses, hparties, outstanding_eq, List.length_append,
      List.map_append, List.sum_append_nat]
    omega

theorem still_turn (h : x.Sound) {os : Os} {s : Side} {e : Event}
    (hcount : ∀ after effects, (x.server s).handle os e = some (after, effects) →
      x.parties.outstanding (x.server s).hostId effects = 0) : Still x (x.turn os s e) := by
  obtain ⟨hsound, hparties, ⟨-, hwire, hresponses⟩ |
    ⟨after, effects, hhandle, hwire, hresponses⟩⟩ := h.turn os s e
  · refine ⟨hsound, hparties, hresponses, by rw [books, books, hwire, hresponses, hparties], ?_⟩
    exact fun p hp => .inl (hwire ▸ hp)
  · have hzero := hcount after effects hhandle
    obtain ⟨hanswers, hpackets⟩ := of_outstanding_eq_zero hzero
    rw [hanswers, List.append_nil] at hresponses
    refine ⟨hsound, hparties, hresponses, by rw [books_turn h hhandle, hzero, Nat.add_zero], ?_⟩
    intro p hp
    rw [hwire] at hp
    exact (List.mem_append.mp hp).imp_right (hpackets p)

/-- A turn of a server that is not part of the request. -/
theorem still_apart (h : x.Sound) {os : Os} {s : Side} {e : Event}
    (hapart : x.apart s e = true) : Still x (x.turn os s e) := by
  obtain ⟨hadmits, hnone⟩ := h.brought_of_apart os hapart
  refine still_turn h fun after effects hhandle => ?_
  rw [Parties.outstanding_handle (h.has_server s) (h.keys s) hadmits hhandle, hnone]

/-- When the answers are all in the books, no packet counts. -/
theorem weightless {x : Exchange} (h : x.books = x.responses.length) {p : Packet}
    (hp : p ∈ x.wire) : x.parties.packetOwed p = 0 := by
  have hsum : (x.wire.map x.parties.packetOwed).sum = 0 := by
    simp only [books] at h
    omega
  exact List.sum_eq_zero_iff_forall_eq_nat.mp hsum _ (List.mem_map_of_mem hp)

end

/-! ## The packet that is delivered -/

/-- The editor of the client waits for a packet that counts. -/
theorem asker_of_owed {c : Parties} {p : Packet} (howed : c.packetOwed p ≠ 0) :
    p.asker = c.client := by
  by_contra hne
  have hfree : ¬c.Concerns p.dest (c.message p) := fun hconcerns => hne hconcerns.2
  exact howed (Parties.owed_of_not_concerns hfree)

/-- A packet that is on the wire. -/
structure OnWire (x : Exchange) (index : Nat) (p : Packet) : Prop where
  sound : x.Sound
  packet : x.wire[index]? = some p

namespace OnWire

variable {x : Exchange} {os : Os} {index : Nat} {p : Packet}

theorem routed (h : x.OnWire index p) :
    x.parties.has p.source = true ∧ x.parties.has p.dest = true :=
  h.sound.routed p (List.mem_of_getElem? h.packet)

theorem hostId (h : x.OnWire index p) : (x.server (x.parties.side p.dest)).hostId = p.dest :=
  h.sound.hostId_side h.routed.2

theorem asker_of_concerns (h : x.OnWire index p)
    (hconcerns : x.parties.Concerns (x.server (x.parties.side p.dest)).hostId
      (x.parties.message p)) : p.asker = x.parties.client := by
  rw [h.hostId] at hconcerns
  exact hconcerns.2

theorem settles_iff (h : x.OnWire index p) :
    x.Settles (.deliver os index) = true ↔ (p.asker = x.parties.client →
      (x.server (x.parties.side p.dest)).settles os p.source p.body = true) := by
  rw [Settles, h.packet, Option.all_some, Bool.or_eq_true, bne_iff_ne,
    Classical.or_iff_not_imp_left, not_not]

/-- A packet for which the editor waits counts, when it is of a kind that can. -/
theorem owed_ne_zero (h : x.OnWire index p) (hasker : p.asker = x.parties.client)
    (hrole : p.body.role ≠ .other) : x.parties.packetOwed p ≠ 0 := by
  obtain ⟨hsource, hdest⟩ := h.routed
  unfold Packet.asker at hasker
  cases hbody : p.body.role with
  | other => exact absurd hbody hrole
  | _ =>
      rw [hbody] at hasker
      simp only [reduceCtorEq, if_false, if_true] at hasker
      simp [Parties.packetOwed, Parties.owed, hbody, hsource, hdest, hasker]

/-- A packet that is settled is as the books demand. -/
theorem fair (h : x.OnWire index p) (hsettles : x.Settles (.deliver os index) = true)
    (hplain : p.body.role = .batch → x.parties.packetOwed p = 0) :
    x.parties.Fair os (x.server (x.parties.side p.dest)) (x.parties.message p) := by
  refine ⟨fun hc => ?_, fun _ _ => h.routed.1, fun hc hbatch => ?_⟩
  · exact h.settles_iff.mp hsettles (h.asker_of_concerns hc)
  · have hbatch : p.body.role = .batch := hbatch
    exact h.owed_ne_zero (h.asker_of_concerns hc) (by simp [hbatch]) (hplain hbatch)

/-- What a packet that is settled gives back. -/
theorem outstanding (h : x.OnWire index p) (hsettles : x.Settles (.deliver os index) = true)
    (hplain : p.body.role = .batch → x.parties.packetOwed p = 0) {after : Server}
    {effects : List Effect}
    (hhandle : (x.server (x.parties.side p.dest)).handle os (.message (x.parties.message p)) =
      some (after, effects)) :
    x.parties.outstanding (x.server (x.parties.side p.dest)).hostId effects =
      if p.body.role = .reset then 0 else x.parties.packetOwed p := by
  rw [Parties.outstanding_message (h.sound.has_server _) (h.sound.keys _)
    (h.fair hsettles hplain) hhandle, Parties.returned, h.hostId]
  rfl

/-- A packet that counts nothing is settled. -/
theorem settles_of_weightless (h : x.OnWire index p) (hzero : x.parties.packetOwed p = 0) :
    x.Settles (.deliver os index) = true := by
  refine h.settles_iff.mpr fun hasker => ?_
  by_cases hrole : p.body.role = .other
  · exact Server.settles_of_other os _ hrole _
  · exact absurd hzero (h.owed_ne_zero hasker hrole)

/-- A packet is handled, and the effects of the turn count nothing. -/
theorem still_delivered (h : x.OnWire index p)
    (hcount : ∀ after effects, (x.server (x.parties.side p.dest)).handle os
      (.message (x.parties.message p)) = some (after, effects) →
      x.parties.outstanding (x.server (x.parties.side p.dest)).hostId effects = 0) :
    Still (x.taken index) (x.delivered os index p) := by
  refine still_turn (h.sound.taken index) fun after effects hhandle => ?_
  rw [server_taken] at hhandle ⊢
  exact hcount after effects hhandle

/-- A packet that counts nothing changes nothing. -/
theorem still (h : x.OnWire index p) (hzero : x.parties.packetOwed p = 0) :
    Still x (x.delivered os index p) := by
  refine (still_taken h.sound h.packet hzero).trans (h.still_delivered fun _ _ hhandle => ?_)
  rw [h.outstanding (h.settles_of_weightless hzero) (fun _ => hzero) hhandle, hzero, ite_self]

/-- A packet is handled, and the effects of the turn are on the wire and among the answers. -/
theorem wire_delivered (h : x.OnWire index p) {after : Server} {effects : List Effect}
    (hhandle : (x.server (x.parties.side p.dest)).handle os (.message (x.parties.message p)) =
      some (after, effects)) :
    (x.delivered os index p).parties = x.parties ∧
      (x.delivered os index p).wire =
        (x.taken index).wire ++ effects.filterMap (x.parties.packet? p.dest) ∧
      (x.delivered os index p).responses =
        x.responses ++ effects.filterMap (x.parties.answer? p.dest) := by
  obtain ⟨-, hparties, hturn⟩ := (h.sound.taken index).turn os (x.parties.side p.dest)
    (.message (x.parties.message p))
  rw [server_taken, parties_taken, h.hostId] at hturn
  rcases hturn with ⟨hnone, -, -⟩ | ⟨after', effects', hturned, hwire, hresponses⟩
  · cases hhandle.symm.trans hnone
  · cases hhandle.symm.trans hturned
    exact ⟨hparties, hwire, hresponses⟩

/-- A packet is handled, and the books have what the effects of the turn count. -/
theorem books_delivered (h : x.OnWire index p) {after : Server} {effects : List Effect}
    (hhandle : (x.server (x.parties.side p.dest)).handle os (.message (x.parties.message p)) =
      some (after, effects)) :
    (x.delivered os index p).Sound ∧ (x.delivered os index p).books + x.parties.packetOwed p =
      x.books + x.parties.outstanding (x.server (x.parties.side p.dest)).hostId effects := by
  have hy := h.sound.taken index
  rw [← server_taken x index] at hhandle
  have hbooks := books_turn hy hhandle
  rw [server_taken, parties_taken] at hbooks
  refine ⟨(hy.turn os _ _).1, ?_⟩
  rw [delivered, hbooks, books_taken h.packet]
  omega

end OnWire

/-! ## One answer -/

/-- The editor gets one answer, or has it and a reset is on its way. -/
inductive Once (x : Exchange) : Prop where
  | owed (sound : x.Sound) (books : x.books = 1)
  | reset (sound : x.Sound) (answered : x.responses.length = 1) (books : x.books = 3)
      (resets : ∀ p ∈ x.wire, x.parties.packetOwed p ≠ 0 → p.body.role = .reset)

/-- The editor gets no answer, or has one and a refusal is on its way or has come. -/
inductive NotOnce (x : Exchange) : Prop where
  | never (sound : x.Sound) (books : x.books = 0)
  | twice (sound : x.Sound) (answered : 1 ≤ x.responses.length) (books : x.books = 2)
      (refusals : ∀ p ∈ x.wire, x.parties.packetOwed p ≠ 0 → p.body.isRefusal = true)

section

variable {x t : Exchange} {os : Os} {index : Nat} {p : Packet}

theorem Once.sound (h : x.Once) : x.Sound := by
  cases h with
  | owed sound _ => exact sound
  | reset sound _ _ _ => exact sound

theorem NotOnce.sound (h : x.NotOnce) : x.Sound := by
  cases h with
  | never sound _ => exact sound
  | twice sound _ _ _ => exact sound

theorem Once.still (h : x.Once) (hstill : Still x t) : t.Once := by
  cases h with
  | owed _ books => exact .owed hstill.sound (hstill.books.trans books)
  | reset _ answered books resets =>
      refine .reset hstill.sound (by rw [hstill.responses, answered]) (hstill.books.trans books) ?_
      intro p hp howed
      rw [hstill.parties] at howed
      exact resets p ((hstill.wire p hp).resolve_right howed) howed

theorem NotOnce.still (h : x.NotOnce) (hstill : Still x t) : t.NotOnce := by
  cases h with
  | never _ books => exact .never hstill.sound (hstill.books.trans books)
  | twice _ answered books refusals =>
      refine .twice hstill.sound (by rw [hstill.responses]; exact answered)
        (hstill.books.trans books) ?_
      intro p hp howed
      rw [hstill.parties] at howed
      exact refusals p ((hstill.wire p hp).resolve_right howed) howed

namespace OnWire

/-- The packet that counts for one is a question or a reply, and is handled. -/
theorem of_owed_one (h : x.OnWire index p) (hone : x.parties.packetOwed p = 1) (os : Os) :
    (p.body.role = .question ∨ p.body.role = .reply) ∧
      ∃ after effects, (x.server (x.parties.side p.dest)).handle os
        (.message (x.parties.message p)) = some (after, effects) := by
  have howed : x.parties.packetOwed p ≠ 0 := by omega
  have hasker := asker_of_owed howed
  have hrole : p.body.role = .question ∨ p.body.role = .reply := by
    unfold Packet.asker at hasker
    cases hbody : p.body.role with
    | question => exact .inl rfl
    | reply => exact .inr rfl
    | other => exact absurd (Parties.owed_other hbody ..) howed
    | _ =>
        rw [hbody, if_neg (by simp)] at hasker
        simp [Parties.packetOwed, Parties.owed, hbody, h.routed, hasker] at hone
  refine ⟨hrole, ?_⟩
  cases hhandle : (x.server (x.parties.side p.dest)).handle os (.message (x.parties.message p)) with
  | some turned => exact ⟨_, _, rfl⟩
  | none =>
      have hpanics : p.body.role = .batch ∨ p.body.role = .reset ∧ _ :=
        Server.role_of_panics hhandle
      rcases hrole with hrole | hrole <;> simp [hrole] at hpanics

/-- The books are at one, and are so again when the packet that counts is settled. -/
theorem once_of_owed (h : x.OnWire index p) (hbooks : x.books = 1)
    (howed : x.parties.packetOwed p ≠ 0) (hsettles : x.Settles (.deliver os index) = true) :
    (x.delivered os index p).Once := by
  have htaken := books_taken h.packet
  have hone : x.parties.packetOwed p = 1 := by omega
  obtain ⟨hrole, after, effects, hhandle⟩ := h.of_owed_one hone os
  have hplain : p.body.role ≠ .batch ∧ p.body.role ≠ .reset := by
    rcases hrole with hrole | hrole <;> simp [hrole]
  obtain ⟨hsound, hcount⟩ := h.books_delivered hhandle
  rw [h.outstanding hsettles (fun hbatch => absurd hbatch hplain.1) hhandle, if_neg hplain.2]
    at hcount
  exact .owed hsound (by omega)

/-- The books are empty when the packet that counts is not settled. -/
theorem never_of_owed (h : x.OnWire index p) (hbooks : x.books = 1)
    (howed : x.parties.packetOwed p ≠ 0) (hnot : ¬x.Settles (.deliver os index) = true) :
    (x.delivered os index p).NotOnce := by
  have htaken := books_taken h.packet
  have hone : x.parties.packetOwed p = 1 := by omega
  obtain ⟨hrole, after, effects, hhandle⟩ := h.of_owed_one hone os
  rw [h.settles_iff, Classical.not_imp, Bool.not_eq_true] at hnot
  have hlost : x.parties.outstanding (x.server (x.parties.side p.dest)).hostId effects = 0 := by
    rcases hrole with hask | hreply
    · exact Parties.outstanding_lost_question hask (h.sound.keys _) hnot.2 hhandle
    · exact Parties.outstanding_lost_reply hreply hnot.2 rfl hhandle
  obtain ⟨hsound, hcount⟩ := h.books_delivered hhandle
  exact .never hsound (by omega)

/-- A reset counts for two, so that the books are at one when it is taken. -/
theorem once_taken_reset (h : x.OnWire index p) (hbooks : x.books = 3)
    (hreset : p.body.role = .reset) (howed : x.parties.packetOwed p ≠ 0) :
    (x.taken index).books = 1 ∧ p.source = x.parties.client := by
  have hsource : p.source = x.parties.client := by
    simpa [Packet.asker, hreset] using asker_of_owed howed
  have htwo : x.parties.packetOwed p = 2 := by
    simp [Parties.packetOwed, Parties.owed, hreset, h.routed, hsource]
  have htaken := books_taken h.packet
  exact ⟨by omega, hsource⟩

/-- A reset that is settled is not heard of again. -/
theorem once_of_reset (h : x.OnWire index p) (hbooks : x.books = 3)
    (hreset : p.body.role = .reset) (howed : x.parties.packetOwed p ≠ 0)
    (hsettles : x.Settles (.deliver os index) = true) : (x.delivered os index p).Once := by
  obtain ⟨hfirst, -⟩ := h.once_taken_reset hbooks hreset howed
  refine (Once.owed (h.sound.taken index) hfirst).still (h.still_delivered fun _ _ hhandle => ?_)
  rw [h.outstanding hsettles (by simp [hreset]) hhandle, if_pos hreset]

/-- A reset that is not settled is refused, next to the answer that the editor has. -/
theorem twice_of_reset (h : x.OnWire index p) (hbooks : x.books = 3)
    (hanswered : x.responses.length = 1) (hreset : p.body.role = .reset)
    (howed : x.parties.packetOwed p ≠ 0) (hnot : ¬x.Settles (.deliver os index) = true) :
    (x.delivered os index p).NotOnce := by
  have hy := h.sound.taken index
  obtain ⟨hfirst, hsource⟩ := h.once_taken_reset hbooks hreset howed
  rw [h.settles_iff, Classical.not_imp, Bool.not_eq_true] at hnot
  cases hhandle : (x.server (x.parties.side p.dest)).handle os (.message (x.parties.message p)) with
  | none =>
      rcases Server.role_of_panics hhandle with hbatch | ⟨-, hsettles⟩
      · cases hreset.symm.trans hbatch
      · cases hnot.2.symm.trans hsettles
  | some turned =>
      obtain ⟨after, effects⟩ := turned
      obtain ⟨unasked, reply, rfl, hunasked, hreply, hrefusal⟩ :=
        Parties.outstanding_refused_reset x.parties p.dest hreset hnot.2 hhandle
      have hone : x.parties.owed p.dest p.source (some x.parties.reqId) reply = 1 := by
        simp [Parties.owed, hreply, h.routed, hsource]
      obtain ⟨hanswers, hpackets⟩ := of_outstanding_eq_zero hunasked
      obtain ⟨hsound, hcount⟩ := h.books_delivered hhandle
      obtain ⟨hparties, hwire, hresponses⟩ := h.wire_delivered hhandle
      have htaken := books_taken h.packet
      refine .twice hsound ?_ ?_ fun q hq howed => ?_
      · rw [hresponses, List.length_append]
        exact Nat.le_trans (Nat.le_of_eq hanswered.symm) (Nat.le_add_right ..)
      · rw [h.hostId, Parties.outstanding_append, hunasked, Parties.outstanding_cons,
          Parties.outstanding_nil] at hcount
        have hone : x.parties.effectOwed p.dest
            (.send p.source (some x.parties.reqId) reply) = 1 := hone
        simp only [Parties.message] at hcount
        omega
      · rw [hparties] at howed
        rw [hwire, List.filterMap_append, List.mem_append, List.mem_append] at hq
        rcases hq with hq | hq | hq
        · exact absurd (weightless (hfirst.trans hanswered.symm) hq) howed
        · exact absurd (hpackets q hq) howed
        · simp only [Parties.packet?, Parties.message, h.routed.1, and_self, if_true,
            List.filterMap_cons, List.filterMap_nil, List.mem_singleton] at hq
          rw [hq]
          exact hrefusal

/-- The editor that has its answer is told of a refusal. -/
theorem twice_of_refusal (h : x.OnWire index p) (hbooks : x.books = 2)
    (hanswered : 1 ≤ x.responses.length)
    (hrefusals : ∀ q ∈ x.wire, x.parties.packetOwed q ≠ 0 → q.body.isRefusal = true)
    (howed : x.parties.packetOwed p ≠ 0) : (x.delivered os index p).NotOnce := by
  have hrefusal := hrefusals p (List.mem_of_getElem? h.packet) howed
  have hreply : p.body.role = .reply := Msg.role_of_isRefusal hrefusal
  have hdest : p.dest = x.parties.client := by
    simpa [Packet.asker, hreply] using asker_of_owed howed
  have hone : x.parties.packetOwed p = 1 := by
    simp [Parties.packetOwed, Parties.owed, hreply, h.routed, hdest]
  obtain ⟨-, resp, hhandle⟩ := Server.handle_refusal os (x.server (x.parties.side p.dest))
    (show (x.parties.message p).body.isRefusal = true from hrefusal) rfl
  obtain ⟨hsound, hcount⟩ := h.books_delivered hhandle
  obtain ⟨hparties, hwire, hresponses⟩ := h.wire_delivered hhandle
  refine .twice hsound ?_ ?_ fun q hq howed => ?_
  · rw [hresponses, List.length_append]
    exact Nat.le_trans hanswered (Nat.le_add_right ..)
  · rw [Parties.outstanding_cons, Parties.outstanding_nil, Parties.effectOwed, h.hostId,
      Parties.answered, if_pos ⟨hdest, rfl⟩] at hcount
    omega
  · rw [hparties] at howed
    rw [hwire] at hq
    simp only [Parties.packet?, List.filterMap_cons, List.filterMap_nil, List.append_nil] at hq
    exact hrefusals q (List.mem_of_mem_eraseIdx hq) howed

end OnWire

/-- A step is a turn of a server that is not part of the request, or handles a packet. -/
theorem step_cases {act : Act} (hsound : x.Sound) (hstep : x.step act = some t) :
    (∃ os side event, act = .turn os side event ∧ Still x t) ∨
      ∃ os index p, act = .deliver os index ∧ x.OnWire index p ∧ t = x.delivered os index p := by
  cases act with
  | turn os side event =>
      simp only [step] at hstep
      split at hstep
      next hapart =>
          cases hstep
          rw [Bool.and_eq_true] at hapart
          exact .inl ⟨os, side, event, rfl, still_apart hsound hapart.1⟩
      next => cases hstep
  | deliver os index =>
      simp only [step, Option.bind_eq_bind, Option.bind_eq_some_iff] at hstep
      obtain ⟨p, hp, hstep⟩ := hstep
      split at hstep
      next => cases hstep
      next =>
          cases hstep
          exact .inr ⟨os, index, p, rfl, ⟨hsound, hp⟩, rfl⟩

/-- A step that is settled keeps the one answer. -/
theorem Once.step {act : Act} (h : x.Once) (hsettles : x.Settles act = true)
    (hstep : x.step act = some t) : t.Once := by
  obtain ⟨_, _, _, -, hstill⟩ | ⟨os, index, p, rfl, hp, rfl⟩ := step_cases h.sound hstep
  · exact h.still hstill
  · by_cases howed : x.parties.packetOwed p = 0
    · exact h.still (hp.still howed)
    · cases h with
      | owed _ books => exact hp.once_of_owed books howed hsettles
      | reset _ _ books resets =>
          exact hp.once_of_reset books (resets p (List.mem_of_getElem? hp.packet) howed) howed
            hsettles

/-- A step that is not settled ends it. -/
theorem Once.not_step {act : Act} (h : x.Once) (hnot : ¬x.Settles act = true)
    (hstep : x.step act = some t) : t.NotOnce := by
  obtain ⟨_, _, _, rfl, -⟩ | ⟨os, index, p, rfl, hp, rfl⟩ := step_cases h.sound hstep
  · exact absurd rfl hnot
  · have howed : x.parties.packetOwed p ≠ 0 := fun hzero => hnot (hp.settles_of_weightless hzero)
    cases h with
    | owed _ books => exact hp.never_of_owed books howed hnot
    | reset _ answered books resets =>
        exact hp.twice_of_reset books answered
          (resets p (List.mem_of_getElem? hp.packet) howed) howed hnot

/-- What went wrong stays wrong. -/
theorem NotOnce.step {act : Act} (h : x.NotOnce) (hstep : x.step act = some t) : t.NotOnce := by
  obtain ⟨_, _, _, -, hstill⟩ | ⟨os, index, p, rfl, hp, rfl⟩ := step_cases h.sound hstep
  · exact h.still hstill
  · by_cases howed : x.parties.packetOwed p = 0
    · exact h.still (hp.still howed)
    · cases h with
      | never _ books =>
          have htaken := books_taken hp.packet
          omega
      | twice _ answered books refusals =>
          exact hp.twice_of_refusal books answered refusals howed

end

/-! ## From the request on -/

section

variable {client host : Server} {os : Os} {reqId : RequestId} {req : Request} {x : Exchange}

theorem sound_idle (hclient : client.Reachable) (hhost : host.Reachable)
    (hother : client.hostId ≠ host.hostId) (reqId : RequestId) : (idle client host reqId).Sound :=
  ⟨rfl, rfl, hother, hclient.keysOk, hhost.keysOk, by simp [idle]⟩

@[simp] theorem server_idle (client host : Server) (reqId : RequestId) :
    (idle client host reqId).server .client = client := rfl

/-- A request that makes the server panic is not answered. -/
theorem never_of_panics (hidle : (idle client host reqId).Sound)
    (hpanics : client.survives os req = false) : (ask os client host reqId req).NotOnce := by
  have hnone : client.handle os (.request reqId req) = none := by
    rw [← Server.handleEditorRequest_isSome os client reqId req] at hpanics
    exact Option.isNone_iff_eq_none.mp (Option.isSome_eq_false_iff.mp hpanics)
  refine NotOnce.still (.never hidle rfl) (still_turn hidle fun after effects hhandle => ?_)
  cases hnone.symm.trans hhandle

/-- Another request is answered at once, or passed on, or both. -/
theorem once_ask (hidle : (idle client host reqId).Sound) (hknown : req.isKnown = true)
    (hdest : ∀ dest, req.dest? = some dest → dest = client.hostId ∨ dest = host.hostId)
    (hsurvives : client.survives os req = true) : (ask os client host reqId req).Once := by
  obtain ⟨⟨after, effects⟩, hhandle⟩ :
      ∃ turn, client.handle os (.request reqId req) = some turn := by
    rw [← Server.handleEditorRequest_isSome os client reqId req] at hsurvives
    exact Option.isSome_iff_exists.mp hsurvives
  have hfits : (idle client host reqId).parties.Fits client.hostId reqId req := by
    refine fun _ _ => ⟨hknown, fun dest hreq => ?_⟩
    rcases hdest dest hreq with rfl | rfl
    · exact Parties.has_client
    · exact Parties.has_host
  have hanswered : (idle client host reqId).parties.answered client.hostId reqId = 1 :=
    if_pos ⟨rfl, rfl⟩
  have hbooks := books_turn hidle (s := .client) hhandle
  have hempty : (idle client host reqId).books = 0 := rfl
  obtain ⟨hsound, -, ⟨hnone, -, -⟩ | ⟨after', effects', hturned, hwire, hresponses⟩⟩ :=
    hidle.turn os .client (.request reqId req)
  · cases hhandle.symm.trans hnone
  cases hhandle.symm.trans hturned
  rw [server_idle, hempty, Nat.zero_add] at hbooks
  rw [server_idle] at hwire hresponses
  by_cases hforwards : client.forwardsReset req = true
  · rw [Parties.outstanding_forwardsReset (Parties.has_client) hfits hforwards hhandle, hanswered]
      at hbooks
    obtain ⟨dest, docId, file, -, -, rfl⟩ := Parties.handle_forwardsReset hforwards hhandle
    refine .reset hsound ?_ hbooks fun p hp _ => ?_
    · rw [ask, hresponses]
      simp [Parties.answer?, List.filterMap_cons, idle]
    · rw [ask, hwire] at hp
      simp only [idle, Parties.packet?, List.nil_append, List.filterMap_cons, List.filterMap_nil]
        at hp
      split at hp
      next => simp at hp
      next hpacket =>
          split at hpacket
          next =>
              cases hpacket
              rw [List.mem_singleton.mp hp]
              rfl
          next => cases hpacket
  · rw [Parties.outstanding_request (Parties.has_client) hfits (Bool.eq_false_iff.mpr hforwards)
      hhandle, hanswered] at hbooks
    exact .owed hsound hbooks

/-- A request is answered once exactly when it does not make the server panic, and all the
messages that it leads to are settled. -/
theorem answered_once_iff (hclient : client.Reachable) (hhost : host.Reachable)
    (hother : client.hostId ≠ host.hostId) (hknown : req.isKnown = true)
    (hdest : ∀ dest, req.dest? = some dest → dest = client.hostId ∨ dest = host.hostId)
    {acts : List Act} (hrun : Run.run step (ask os client host reqId req) acts = some x)
    (hdone : x.wire = []) :
    x.responses.length = 1 ↔ client.survives os req = true ∧
      Run.Meets step (fun x act => x.Settles act = true) (ask os client host reqId req) acts := by
  have hidle := sound_idle hclient hhost hother reqId
  have hbooks : x.books = x.responses.length := by simp [books, hdone]
  have hnever (h : x.NotOnce) : x.responses.length ≠ 1 := by
    cases h with
    | never _ books => omega
    | twice _ _ books => omega
  cases hsurvives : client.survives os req with
  | false =>
      have hx := Run.invariant_all (fun _ _ _ h hstep => NotOnce.step h hstep)
        (never_of_panics hidle hsurvives) hrun
      simp [hnever hx]
  | true =>
      rcases Run.meets_or (fun _ _ _ h hcond hstep => Once.step h hcond hstep)
        (fun _ _ _ h hcond hstep => Once.not_step h hcond hstep)
        (fun _ _ _ h hstep => NotOnce.step h hstep) (once_ask hidle hknown hdest hsurvives)
        hrun with ⟨hmeets, hx⟩ | ⟨hnot, hx⟩
      · have hone : x.responses.length = 1 := by
          cases hx with
          | owed _ books => omega
          | reset _ answered _ _ => exact answered
        simp [hone, hmeets]
      · simp [hnot, hnever hx]

end

/-! ## Conversations -/

/-- A server that a peer has connected to. -/
def met (hostId peer : ServerId) (permission : List (ServerId × Permission))
    (events : List Event) : Option Server :=
  let connect := Event.signaling [] (.connect peer hostId false)
  let hey := Event.message { host := peer, body := Server.helloMsg, reqId := none }
  Run.run Server.step
    (.new hostId { hostId := some hostId, permission, trustedHosts := [] }
      { WorldState.new with trusted := [peer] })
    ((connect :: hey :: events).map fun event => (Os.bare, event))

theorem reachable_of_met {hostId peer : ServerId} {permission : List (ServerId × Permission)}
    {events : List Event} {self : Server} (h : met hostId peer permission events = some self) :
    self.Reachable := ⟨_, _, _, _, h⟩

/-- The editor makes a request. -/
def opening (client host : Option Server) (req : Request) : Option Exchange := do
  return ask .bare (← client) (← host) 7 req

/-- The messages that the request leads to are delivered one after the other. -/
def conversation (client host : Option Server) (req : Request) (deliveries : Nat) :
    Option Exchange := do
  Run.run step (← opening client host req) (List.replicate deliveries (.deliver .bare 0))

theorem of_conversation {client host : Option Server} {req : Request} {deliveries : Nat}
    {x : Exchange} (h : conversation client host req deliveries = some x) :
    ∃ self peer, client = some self ∧ host = some peer ∧
      Run.run step (ask .bare self peer 7 req)
        (List.replicate deliveries (.deliver .bare 0)) = some x := by
  simp only [conversation, opening, Option.bind_eq_bind, Option.bind_eq_some_iff] at h
  obtain ⟨_, ⟨self, hself, peer, hpeer, heq⟩, hrun⟩ := h
  cases heq
  exact ⟨self, peer, hself, hpeer, hrun⟩

def projectHost : Option Server :=
  met 1 0 [] [.request 0 (.declareProjects [{ name := ['p'], path := ['/', 'p'] }])]

theorem hostId_client {self : Server} (h : met 0 1 [] [] = some self) :
    self.hostId = 0 ∧ self.remoteConnected 1 = true := by
  have hfacts : (met 0 1 [] []).map (fun s => (s.hostId, s.remoteConnected 1)) =
      some (0, true) := by decide +kernel
  rw [h] at hfacts
  simpa using hfacts

theorem hostId_projectHost {self : Server} (h : projectHost = some self) : self.hostId = 1 := by
  have hfacts : projectHost.map Server.hostId = some 1 := by decide +kernel
  rw [h] at hfacts
  simpa using hfacts

/-- The host lists its projects. -/
theorem answered_once_iff_listProjects :
    ∃ x, conversation (met 0 1 [] []) projectHost (.listProjects 1) 2 = some x ∧
      x.responses.length = 1 := by
  have hwire : (conversation (met 0 1 [] []) projectHost (.listProjects 1) 2).map wire =
      some [] := by decide +kernel
  have hsettles : (opening (met 0 1 [] []) projectHost (.listProjects 1)).all (fun asked =>
      decide (Run.Meets step (fun x act => x.Settles act = true) asked
        (List.replicate 2 (.deliver .bare 0)))) = true := by decide +kernel
  obtain ⟨x, hx, hdone⟩ := Option.map_eq_some_iff.mp hwire
  obtain ⟨self, peer, hself, hpeer, hrun⟩ := of_conversation hx
  have hid := (hostId_client hself).1
  have hid' := hostId_projectHost hpeer
  rw [hself, hpeer] at hsettles
  exact ⟨x, hx, (answered_once_iff (reachable_of_met hself) (reachable_of_met hpeer)
    (by rw [hid, hid']; decide) rfl (fun dest hdest => .inr (by cases hdest; exact hid'.symm))
    hrun hdone).mpr ⟨rfl, of_decide_eq_true hsettles⟩⟩

/-- A file that nobody has open is moved, and nobody is told. -/
theorem not_answered_once : ¬∀ (client host : Server) (os : Os) (reqId : RequestId)
    (req : Request) (x : Exchange) (acts : List Act), client.Reachable → host.Reachable →
    client.hostId ≠ host.hostId → client.remoteConnected host.hostId = true →
    req.isKnown = true →
    (∀ dest, req.dest? = some dest → dest = client.hostId ∨ dest = host.hostId) →
    Run.run step (ask os client host reqId req) acts = some x → x.wire = [] →
    x.responses.length = 1 := by
  intro hall
  have hnone : (conversation (met 0 1 [] []) projectHost (.moveFile 1 ['p'] ['a'] ['b']) 1).map
      (fun x => (x.wire, x.responses.length)) = some ([], 0) := by decide +kernel
  obtain ⟨x, hx, hout⟩ := Option.map_eq_some_iff.mp hnone
  obtain ⟨hwire, hresponses⟩ := Prod.mk.inj hout
  obtain ⟨self, peer, hself, hpeer, hrun⟩ := of_conversation hx
  obtain ⟨hid, hconnected⟩ := hostId_client hself
  have hid' := hostId_projectHost hpeer
  have hone := hall self peer .bare 7 _ x _ (reachable_of_met hself) (reachable_of_met hpeer)
    (by rw [hid, hid']; decide) (by rw [hid']; exact hconnected) rfl
    (fun dest hdest => .inr (by cases hdest; exact hid'.symm)) hrun hwire
  omega

/-- The file of a document of the host that the client has open. -/
def openedFile : EditorFileDesc := { hostId := 1, project := ['p'], file := ['a'] }

/-- A client that has a document of the host open. -/
def openedClient : Option Server :=
  met 0 1 [] [.message
    { host := 1, reqId := some 3
      body := .snapshot
        { content := ['x'], name := ['a'], internalDoc := InternalDoc.new 1, seq := 0, siteId := 1
          fileDesc := .projectFile ['p'] ['a'], docId := 1 } }]

/-- The host denies a reset that the editor was told of already. -/
example : (conversation openedClient (met 1 0 [(0, { write := false })] [])
    (.resetFromDisk openedFile) 2).map responses =
    some [.resetFromDisk openedFile,
      .error .permissionDenied "Write permission denied"] := by decide +kernel

/-- A deletion past the end of the document makes the server of the editor panic. -/
example : (conversation openedClient projectHost
    (.sendOps [{ op := .del 0 ['x', 'y'], groupSeq := 1 }] openedFile) 0).map
      (fun x => (x.gone, x.wire, x.responses)) = some ([.client], [], []) := by decide +kernel

end Exchange

end Answering

end CollabMode
