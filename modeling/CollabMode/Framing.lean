import CollabMode.Transport
import Mathlib.Tactic.Ring

/-!
# Frames of a byte stream

What `frame_write` puts on the stream of a peer, and what the loop of `IoRemote`
makes of it.  The loop waits for a frame and for a message to send at the same time.
When it turns to a message to send, the call of `frame_read` that is under way is
dropped, and the bytes that it has read are gone.  The next call takes other bytes for a
length, asks for as much memory, and the process aborts.

`toVec` and `fromSlice` stand for the JSON printer and parser.
-/

namespace CollabMode

/-! ## Big-endian numbers -/

/-- The last `width` digits of a number to the base 256. -/
def beDigits : Nat → Nat → List Byte
  | 0, _ => []
  | width + 1, n => UInt8.ofNat (n / 256 ^ width) :: beDigits width n

/-- `u64::to_be_bytes`. -/
def toBeBytes (n : Nat) : List Byte := beDigits 8 n

theorem length_beDigits (width n : Nat) : (beDigits width n).length = width := by
  induction width with
  | zero => rfl
  | succ width ih => rw [beDigits, List.length_cons, ih]

theorem foldl_beDigits (width n acc : Nat) :
    (beDigits width n).foldl (fun n byte => n * 256 + byte.toNat) acc =
      acc * 256 ^ width + n % 256 ^ width := by
  induction width generalizing acc with
  | zero => simp [beDigits, Nat.mod_one]
  | succ width ih =>
      have hdigit : (UInt8.ofNat (n / 256 ^ width)).toNat = n / 256 ^ width % 256 := by simp
      have hmod : n % 256 ^ (width + 1) =
          n % 256 ^ width + 256 ^ width * (n / 256 ^ width % 256) := by
        rw [Nat.pow_succ, Nat.mod_mul]
      rw [beDigits, List.foldl_cons, ih, hdigit, hmod]
      ring

theorem fromBeBytes_toBeBytes {n : Nat} (h : n < 2 ^ 64) : fromBeBytes (toBeBytes n) = n := by
  have hfold := foldl_beDigits 8 n 0
  rw [Nat.mod_eq_of_lt (by omega)] at hfold
  simpa [fromBeBytes, toBeBytes] using hfold

theorem isLength_toBeBytes {allocates : Nat → Bool} (data : ByteVec allocates) :
    IsLength allocates (toBeBytes data.bytes.length) data.bytes where
  eight := length_beDigits _ _
  length := fromBeBytes_toBeBytes (data.bounded.trans (by decide))
  bounded := data.bounded
  allocated := data.allocated

/-! ## Writing frames -/

section

variable {allocates : Nat → Bool} (toVec : Message → Except String (ByteVec allocates))

/-- `frame_write`.  A message that has no text leaves the stream as it is. -/
def frameWrite (message : Message) : Except String (List Byte) := do
  let data ← toVec message
  return toBeBytes data.bytes.length ++ data.bytes

/-- The stream of a peer that writes these messages one after the other. -/
def writeAll : List Message → Except String (List Byte)
  | [] => .ok []
  | message :: messages => do
      let frame ← frameWrite toVec message
      let rest ← writeAll messages
      return frame ++ rest

end

section

variable {allocates : Nat → Bool} {toVec : Message → Except String (ByteVec allocates)}

theorem writeAll_cons {message : Message} {messages : List Message} {bytes : List Byte} :
    writeAll toVec (message :: messages) = .ok bytes ↔
      ∃ data rest, toVec message = .ok data ∧ writeAll toVec messages = .ok rest ∧
        bytes = toBeBytes data.bytes.length ++ (data.bytes ++ rest) := by
  rw [writeAll, frameWrite]
  cases hdata : toVec message with
  | error err => simp [bind, Except.bind]
  | ok data =>
      cases hrest : writeAll toVec messages with
      | error err => simp [bind, Except.bind, pure, Except.pure]
      | ok rest => simp [bind, Except.bind, pure, Except.pure, eq_comm]

/-- Where no whole frame is there is no message. -/
theorem eq_nil_of_waits {messages : List Message} {bytes stream : List Byte}
    (hwaits : frameRead allocates stream = .waits) (hwritten : writeAll toVec messages = .ok bytes)
    (hpre : bytes <+: stream) : messages = [] := by
  cases messages with
  | nil => rfl
  | cons message messages =>
      obtain ⟨data, rest, -, -, rfl⟩ := writeAll_cons.mp hwritten
      obtain ⟨tail, rfl⟩ := hpre
      rw [List.append_assoc, List.append_assoc, frameRead_frame (isLength_toBeBytes data)] at hwaits
      cases hwaits

end

/-! ## A frame at the front of a stream -/

/-- Some of a stream that begins with a frame is either less than the frame, or it is
the frame and some of what comes after. -/
theorem frameRead_of_append {allocates : Nat → Bool} {len payload more bytes tail : List Byte}
    (h : IsLength allocates len payload) (heq : bytes ++ tail = len ++ (payload ++ more)) :
    frameRead allocates bytes = .waits ∨
      ∃ rest, frameRead allocates bytes = .frame payload rest ∧ bytes = len ++ (payload ++ rest) ∧
        rest ++ tail = more := by
  by_cases hshort : bytes.length < 8 + payload.length
  · refine .inl ?_
    unfold frameRead
    split
    next => rfl
    next height =>
        have htake : bytes.take 8 = len := by
          have hfront : (bytes ++ tail).take 8 = len := by
            rw [heq, ← h.eight, List.take_left]
          rwa [List.take_append_of_le_length (by omega)] at hfront
        have hbound := h.bounded
        simp only [htake, h.length]
        rw [if_neg (by omega), if_neg (by simp [h.allocated]), if_pos (by omega)]
  · refine .inr ?_
    have hlen : (len ++ payload).length ≤ bytes.length := by
      rw [List.length_append, h.eight]
      omega
    have hpre : len ++ payload <+: bytes :=
      List.prefix_of_prefix_length_le ⟨more, by rw [heq, List.append_assoc]⟩ ⟨tail, rfl⟩ hlen
    obtain ⟨rest, rfl⟩ := hpre
    refine ⟨rest, ?_, List.append_assoc _ _ _, ?_⟩
    · rw [List.append_assoc]
      exact frameRead_frame h
    · rw [List.append_assoc, List.append_assoc] at heq
      exact List.append_cancel_left (List.append_cancel_left heq)

namespace IoRemote

section

variable (allocates : Nat → Bool) (fromSlice : List Byte → Except String Message)

/-- The loop after some events. -/
def after : IoRemote → List Event → IoRemote
  | self, [] => self
  | self, event :: events => (self.step allocates fromSlice event).2.after events

/-- The bytes from which the loop is still to read frames. -/
def stream (self : IoRemote) (events : List Event) : List Byte :=
  self.pending ++ (self.arrived ++ arrivals events)

/-- What the loop says at its end. -/
def farewell (self : IoRemote) : List Message :=
  if self.ending = some .exits then [connectionBroke self.peerId self.connectionId] else []

/-- No part of a frame has been read when the loop turns to a message to send.  When it ends
because of that message, or because nobody can send any more, no whole frame is left to read.
After its end nothing comes from the peer. -/
def Spares : IoRemote → List Event → Prop
  | _, [] => True
  | self, event :: events =>
      (self.ending = none →
        match event with
        | .command true => self.pending = []
        | .command false => frameRead allocates (self.stream events) = .waits
        | .senderDropped => frameRead allocates (self.stream events) = .waits
        | .closes => arrivals events = []
        | .arrives _ => True
        | .poll => True) ∧
      (self.step allocates fromSlice event).2.Spares events

/-- What comes out of the loop is what the peer has sent, in its order.  Every message that
arrives whole, before the loop ends or after, comes out before the loop ends or runs out of
frames to read. -/
def Delivers (toVec : Message → Except String (ByteVec allocates)) (sent : List Message)
    (self : IoRemote) (events : List Event) : Prop :=
  ∃ delivered,
    self.messages allocates fromSlice events =
        delivered ++ (self.after allocates fromSlice events).farewell ∧
      delivered <+: sent ∧
      (((self.after allocates fromSlice events).ending = none →
          frameRead allocates ((self.after allocates fromSlice events).pending ++
            (self.after allocates fromSlice events).arrived) = .waits) →
        ∀ first bytes, first <+: sent → writeAll toVec first = .ok bytes →
          bytes <+: self.stream events → first <+: delivered)

end

variable {allocates : Nat → Bool} {toVec : Message → Except String (ByteVec allocates)}
  {fromSlice : List Byte → Except String Message}

theorem step_of_running {self : IoRemote} (h : self.ending = none) (event : Event) :
    self.step allocates fromSlice event = match event with
      | .arrives bytes => ([], { self with arrived := self.arrived ++ bytes })
      | .closes => ([], { self with closed := true })
      | .poll => self.poll allocates fromSlice
      | .command written => if written then ([], { self with pending := [] }) else self.exit
      | .senderDropped => self.exit := by
  unfold step
  refine (if_neg (by simp [h])).trans ?_
  cases event <;> rfl

theorem after_of_ended {self : IoRemote} (h : self.ending.isSome = true) (events : List Event) :
    self.after allocates fromSlice events = self := by
  induction events with
  | nil => rfl
  | cons event events ih => simpa [after, step, h] using ih

theorem delivers_exit {self : IoRemote} {sent : List Message} {events : List Event}
    {event : Event} (h : self.step allocates fromSlice event = self.exit)
    (hwaits : frameRead allocates (self.stream (event :: events)) = .waits) :
    self.Delivers allocates fromSlice toVec sent (event :: events) := by
  have hafter : self.after allocates fromSlice (event :: events) = self.exit.2 := by
    rw [after, h, after_of_ended rfl]
  refine ⟨[], ?_, List.nil_prefix, fun _ first bytes _ hbytes harrived => ?_⟩
  · rw [messages, hafter, h, messages_of_ended rfl]
    rfl
  · rw [eq_nil_of_waits hwaits hbytes harrived]

theorem delivers_step {self next : IoRemote} {sent : List Message} {events : List Event}
    {event : Event} (h : self.step allocates fromSlice event = ([], next))
    (hstream : next.stream events = self.stream (event :: events))
    (hnext : next.Delivers allocates fromSlice toVec sent events) :
    self.Delivers allocates fromSlice toVec sent (event :: events) := by
  obtain ⟨delivered, hmessages, hpre, hall⟩ := hnext
  refine ⟨delivered, ?_, hpre, ?_⟩
  · rw [messages, after, h]
    exact hmessages
  · rw [after, h, ← hstream]
    exact hall

/-- A frame that is read is the first that was sent. -/
theorem delivers_frame {self next : IoRemote} {message : Message} {sent : List Message}
    {events : List Event} {data : ByteVec allocates}
    (h : self.step allocates fromSlice .poll = ([message], next))
    (hdata : toVec message = .ok data)
    (hstream : self.stream (.poll :: events) =
      toBeBytes data.bytes.length ++ (data.bytes ++ next.stream events))
    (hnext : next.Delivers allocates fromSlice toVec sent events) :
    self.Delivers allocates fromSlice toVec (message :: sent) (.poll :: events) := by
  obtain ⟨delivered, hmessages, hpre, hall⟩ := hnext
  refine ⟨message :: delivered, ?_, List.cons_prefix_cons.mpr ⟨rfl, hpre⟩, ?_⟩
  · rw [messages, after, h, hmessages]
    rfl
  · rw [after, h]
    intro hwaits first bytes hfirst hbytes harrived
    cases first with
    | nil => exact List.nil_prefix
    | cons message' first =>
        obtain ⟨rfl, hsent⟩ := List.cons_prefix_cons.mp hfirst
        obtain ⟨data', rest, hdata', hrest, rfl⟩ := writeAll_cons.mp hbytes
        cases hdata.symm.trans hdata'
        rw [hstream, List.prefix_append_right_inj, List.prefix_append_right_inj] at harrived
        exact List.cons_prefix_cons.mpr ⟨rfl, hall hwaits first rest hsent hrest harrived⟩

theorem arrivals_tail {event : Event} {events : List Event}
    (h : arrivals (event :: events) = []) : arrivals events = [] := by
  rw [arrivals, List.flatMap_cons] at h
  exact (List.append_eq_nil_iff.mp h).2

/-- What is left to read is the front of the frames that are still to come. -/
theorem delivers_of_stream {self : IoRemote} {sent : List Message} {bytes : List Byte}
    {events : List Event}
    (hjson : ∀ message ∈ sent, ∀ data, toVec message = .ok data →
      fromSlice data.bytes = .ok message)
    (hwritten : writeAll toVec sent = .ok bytes) (hstream : self.stream events <+: bytes)
    (hspares : self.Spares allocates fromSlice events) (hrunning : self.ending = none)
    (hclosed : self.closed = true → arrivals events = []) :
    self.Delivers allocates fromSlice toVec sent events := by
  induction events generalizing self sent bytes with
  | nil =>
      refine ⟨[], by simp [messages, after, farewell, hrunning], List.nil_prefix, ?_⟩
      intro hwaits first read _ hread harrived
      have hwaits := hwaits hrunning
      rw [after, ← List.append_nil self.arrived] at hwaits
      rw [eq_nil_of_waits hwaits hread harrived]
  | cons event events ih =>
      obtain ⟨hevent, hspares⟩ := hspares
      have hevent := hevent hrunning
      have hrun (next : IoRemote) (hstep : self.step allocates fromSlice event = ([], next))
          (hsame : next.stream events = self.stream (event :: events))
          (hnext : next.ending = none) (hend : next.closed = true → arrivals events = []) :
          self.Delivers allocates fromSlice toVec sent (event :: events) := by
        rw [hstep] at hspares
        exact delivers_step hstep hsame (ih hjson hwritten (hsame ▸ hstream) hspares hnext hend)
      have hstep := @step_of_running allocates fromSlice self hrunning event
      have htail := fun h => arrivals_tail (hclosed h)
      cases event with
      | arrives new => exact hrun _ hstep (by simp [stream, arrivals]) hrunning htail
      | closes => exact hrun _ hstep rfl hrunning fun _ => hevent
      | senderDropped => exact delivers_exit hstep hevent
      | command written =>
          cases written with
          | false => exact delivers_exit hstep hevent
          | true =>
              refine hrun _ hstep ?_ hrunning htail
              rw [stream, stream, hevent]
              rfl
      | poll =>
          have hwaiting (hread : frameRead allocates (self.pending ++ self.arrived) = .waits) :
              self.Delivers allocates fromSlice toVec sent (.poll :: events) := by
            cases hclosed' : self.closed with
            | true =>
                refine delivers_exit (by simp [hstep, poll, hread, hclosed']) ?_
                rw [stream, hclosed hclosed', List.append_nil]
                exact hread
            | false =>
                refine hrun { self with pending := self.pending ++ self.arrived, arrived := [] }
                  (by simp [hstep, poll, hread, hclosed']) ?_ hrunning htail
                simp [stream, arrivals]
          obtain ⟨tail, htail'⟩ := hstream
          have hread_arrived : self.pending ++ self.arrived ++ (arrivals events ++ tail) =
              bytes := by
            rw [← htail']
            simp [stream, arrivals]
          cases sent with
          | nil =>
              cases hwritten
              have hnone := (List.append_eq_nil_iff.mp hread_arrived).1
              exact hwaiting (by rw [hnone]; rfl)
          | cons message sent =>
              obtain ⟨data, rest, hdata, hrest, rfl⟩ := writeAll_cons.mp hwritten
              have hparse := hjson message (by simp) data hdata
              rcases frameRead_of_append (isLength_toBeBytes data) hread_arrived with
                hread | ⟨left, hread, hbytes, hleft⟩
              · exact hwaiting hread
              · have hpoll : self.step allocates fromSlice .poll =
                    ([message], { self with pending := [], arrived := left }) := by
                  simp [hstep, poll, hread, hparse]
                rw [hpoll] at hspares
                refine delivers_frame hpoll hdata ?_
                  (ih (fun m hm => hjson m (by simp [hm])) hrest ?_ hspares hrunning htail)
                · rw [stream, stream, ← List.append_assoc, hbytes]
                  simp [arrivals]
                · exact ⟨tail, by simpa [stream] using hleft⟩

/-- A loop that sends its messages between frames, and does not end before it has read all of
them, delivers what the peer has sent, in whatever pieces the stream arrives. -/
theorem delivers_sent {sent : List Message} {bytes : List Byte} {events : List Event}
    (peer : ServerId) (connectionId : ConnectionId)
    (hjson : ∀ message ∈ sent, ∀ data, toVec message = .ok data →
      fromSlice data.bytes = .ok message)
    (hwritten : writeAll toVec sent = .ok bytes) (harrivals : arrivals events <+: bytes)
    (hspares : (new peer connectionId).Spares allocates fromSlice events) :
    (new peer connectionId).Delivers allocates fromSlice toVec sent events :=
  delivers_of_stream hjson hwritten harrivals hspares rfl nofun

end IoRemote

def byeMessage : Message := { host := 7, body := .bye, reqId := none }

def byeVec : ByteVec addressable := ⟨byeText, by decide, by decide⟩

/-- A printer that knows this one message. -/
def printBye (message : Message) : Except String (ByteVec addressable) :=
  if message = byeMessage then .ok byeVec else .error "key must be a string"

theorem parseBye_printBye {message : Message} {data : ByteVec addressable}
    (h : printBye message = .ok data) : parseBye data.bytes = .ok message := by
  rw [printBye] at h
  split at h
  next hbye =>
      cases h
      rw [hbye]
      decide
  next => cases h

namespace IoRemote

/-- The length comes first, and the rest while nothing is sent.  Then a message is sent, and the
peer closes the stream. -/
theorem delivers_sent_bye :
    (new 5 0).Delivers addressable parseBye printBye [byeMessage]
      [.arrives byeLength, .poll, .arrives byeText, .poll, .command true, .closes, .poll] := by
  have hwritten : writeAll printBye [byeMessage] = .ok (byeLength ++ byeText) := rfl
  refine delivers_sent 5 0 (fun _ _ _ => parseBye_printBye) hwritten ⟨[], by decide⟩ ?_
  exact ⟨fun _ => trivial, fun _ => trivial, fun _ => trivial, fun _ => trivial,
    fun _ => by decide, fun _ => rfl, fun _ => trivial, trivial⟩

/-- A message is sent after the length has come.  The next eight bytes are taken for a length,
for which there is no memory, and what the peer has sent is lost. -/
theorem not_delivers_bye :
    ∃ events, arrivals events = byeLength ++ byeText ∧
      writeAll printBye [byeMessage] = .ok (byeLength ++ byeText) ∧
      parseBye byeText = .ok byeMessage ∧
      ((new 5 0).after addressable parseBye events).ending = some .aborts ∧
      ¬(new 5 0).Delivers addressable parseBye printBye [byeMessage] events := by
  refine ⟨[.arrives byeLength, .poll, .command true, .arrives byeText, .poll], by decide, rfl,
    by decide, by decide, ?_⟩
  rintro ⟨delivered, hmessages, -, hall⟩
  have hnone : delivered = [] := by
    have h : [] = delivered ++ [] := hmessages
    simpa using h.symm
  have hpre := hall nofun [byeMessage] _ List.prefix_rfl rfl ⟨[], by decide⟩
  rw [hnone] at hpre
  exact absurd hpre (by simp)

end IoRemote

end CollabMode
