import CollabMode.Messages

/-!
# Transports

How the bytes of a peer become messages of the server, from `webchannel.rs`,
`io_remote.rs` and `byte_stream.rs`.  Over SCTP each message has a stream of its
own.  Over SSH and standard input all messages share one stream of bytes.  A
message is eight bytes of length and then its text.

A reader asks for the memory of the whole text as soon as it has the length.
`allocates` says which sizes there is memory for, and the process aborts at another.

`fromSlice` stands for the JSON parser.  It gives a whole message, and so also the
name of the host that sends it.  A connection belongs to one peer, and `Authentic`
says that its messages bear the name of that peer.
-/

namespace CollabMode

abbrev Byte := UInt8

/-- `u64::from_be_bytes`. -/
def fromBeBytes (bytes : List Byte) : Nat := bytes.foldl (fun n byte => n * 256 + byte.toNat) 0

/-- It is a panic to ask for a vector of this many bytes. -/
def capacityOverflow : Nat := 2 ^ 63

/-- `MAX_FRAME_SIZE`. -/
def maxFrameSize : Nat := 64 * 1024

/-- `Vec<u8>`, a vector for which there was memory. -/
structure ByteVec (allocates : Nat → Bool) where
  bytes : List Byte
  bounded : bytes.length < capacityOverflow
  allocated : allocates bytes.length = true

/-! ## Streams of an SCTP association -/

/-- What comes of reading a stream. -/
inductive StreamRead where
  /-- More has to arrive. -/
  | waits
  | panics
  /-- There is no memory for the text. -/
  | aborts
  | fails (reason : String)
  | payload (bytes : List Byte)
deriving DecidableEq, Repr

def shortBufferReason : String :=
  "Failed to read from stream because buffer too short which should never happen"

/-- The loop that reads the text of a message.  The list has what arrives, a packet
for each call of `read`.  A packet without bytes is the end of the stream. -/
def readContent (contentLength : Nat) : List Byte → List (List Byte) → StreamRead
  | fullBuffer, [] => if fullBuffer.length < contentLength then .waits else .payload fullBuffer
  | fullBuffer, packet :: packets =>
      if fullBuffer.length < contentLength then
        let remaining := contentLength - fullBuffer.length
        let toRead := min remaining maxFrameSize
        if packet.length > toRead then .fails shortBufferReason
        else if packet.length = 0 then
          let got := fullBuffer.length
          .fails s!"EOF while reading content: expected {contentLength} bytes, got {got}"
        else readContent contentLength (fullBuffer ++ packet) packets
      else .payload fullBuffer

/-- Read the length and then the text. -/
def readPayload (allocates : Nat → Bool) : List (List Byte) → StreamRead
  | [] => .waits
  | lenBytes :: packets =>
      let n := lenBytes.length
      if n > 8 then .fails shortBufferReason
      else if n < 8 then
        .fails s!"Failed to read full length (8 bytes) prefix: only got {n} bytes"
      else
        let contentLength := fromBeBytes lenBytes
        if contentLength ≥ capacityOverflow then .panics
        else if !allocates contentLength then .aborts
        else readContent contentLength [] packets

structure SctpStream where
  id : Nat
  packets : List (List Byte)
deriving DecidableEq, Repr

def pingStreamId : Nat := 0

section

variable (allocates : Nat → Bool) (fromSlice : List Byte → Except String Message)

def serializationErr (remoteHostid : ServerId) (reason : String) : Message :=
  { host := remoteHostid, body := .serializationErr reason, reqId := none }

def connectionBroke (peer : ServerId) (connectionId : ConnectionId) : Message :=
  { host := peer, body := .connectionBroke peer connectionId, reqId := none }

def readFromStream (remoteHostid : ServerId) (packets : List (List Byte)) : List Message :=
  match readPayload allocates packets with
  | .waits => []
  | .panics => []
  | .aborts => []
  | .fails reason => [serializationErr remoteHostid reason]
  | .payload bytes =>
      match fromSlice bytes with
      -- The message is passed on as it was sent.
      | .ok message => [message]
      | .error err => [serializationErr remoteHostid s!"Failed to deserialize message: {err}"]

/-- Streams of our own parity are those that we opened. -/
def ignoresStream (parity id : Nat) : Bool := id = pingStreamId || id % 2 = parity % 2

def handleIncomingStream (parity : Nat) (peer : ServerId) (stream : SctpStream) : List Message :=
  if ignoresStream parity stream.id then []
  else readFromStream allocates fromSlice peer stream.packets

/-- The messages of an association, in the order of its streams.  The streams are
read at the same time, so the server can get them in another order. -/
def sctpMessages (parity : Nat) (peer : ServerId) (connectionId : ConnectionId)
    (streams : List SctpStream) : List Message :=
  streams.flatMap (handleIncomingStream allocates fromSlice parity peer) ++
    [connectionBroke peer connectionId]

/-! ## One stream of bytes -/

/-- What comes of reading a frame from some bytes. -/
inductive FrameRead where
  | waits
  | panics
  | aborts
  | frame (payload rest : List Byte)
deriving DecidableEq, Repr

/-- `frame_read`, without the parser. -/
def frameRead (allocates : Nat → Bool) (bytes : List Byte) : FrameRead :=
  if bytes.length < 8 then .waits
  else
    let len := fromBeBytes (bytes.take 8)
    if len ≥ capacityOverflow then .panics
    else if !allocates len then .aborts
    else if bytes.length < 8 + len then .waits
    else .frame ((bytes.drop 8).take len) ((bytes.drop 8).drop len)

/-- How the loop has ended. -/
inductive Ending where
  | exits
  | panics
  | aborts
deriving DecidableEq, Repr

structure IoRemote where
  peerId : ServerId
  connectionId : ConnectionId
  /-- What has arrived and has not been read. -/
  arrived : List Byte
  /-- What the call of `frame_read` that is under way has read. -/
  pending : List Byte
  /-- Nothing more arrives. -/
  closed : Bool
  ending : Option Ending
deriving DecidableEq, Repr

namespace IoRemote

def new (peerId : ServerId) (connectionId : ConnectionId) : IoRemote :=
  { peerId, connectionId, arrived := [], pending := [], closed := false, ending := none }

inductive Event where
  | arrives (bytes : List Byte)
  | closes
  /-- The loop turns to the call of `frame_read`. -/
  | poll
  /-- The loop turns to a message to send, which may fail. -/
  | command (written : Bool)
  | senderDropped
deriving DecidableEq, Repr

/-- The loop ends, and says so. -/
def exit (self : IoRemote) : List Message × IoRemote :=
  ([connectionBroke self.peerId self.connectionId], { self with ending := some .exits })

def poll (self : IoRemote) : List Message × IoRemote :=
  let bytes := self.pending ++ self.arrived
  match frameRead allocates bytes with
  | .waits =>
      if self.closed then self.exit else ([], { self with pending := bytes, arrived := [] })
  | .panics => ([], { self with ending := some .panics })
  | .aborts => ([], { self with ending := some .aborts })
  | .frame payload rest =>
      match fromSlice payload with
      | .ok message => ([message], { self with pending := [], arrived := rest })
      | .error _ => self.exit

/-- One turn of the loop, or of the world around it. -/
def step (self : IoRemote) (event : Event) : List Message × IoRemote :=
  if self.ending.isSome then ([], self)
  else
    match event with
    | .arrives bytes => ([], { self with arrived := self.arrived ++ bytes })
    | .closes => ([], { self with closed := true })
    | .poll => self.poll allocates fromSlice
    | .command written =>
        -- The call of `frame_read` is dropped, with what it has read.
        if written then ([], { self with pending := [] }) else self.exit
    | .senderDropped => self.exit

def messages : IoRemote → List Event → List Message
  | _, [] => []
  | self, event :: events =>
      (self.step allocates fromSlice event).1 ++
        messages (self.step allocates fromSlice event).2 events

/-- What arrives in a run. -/
def arrivals (events : List Event) : List Byte :=
  events.flatMap fun
    | .arrives bytes => bytes
    | _ => []

end IoRemote

/-! ## What a peer sends -/

/-- The bytes that a peer sends over its connection. -/
inductive Sent where
  | sctp (parity : Nat) (streams : List SctpStream)
  | io (bytes : List Byte)
deriving DecidableEq, Repr

/-- The server can get the message from the connection of the peer. -/
def Receives (peer : ServerId) (connectionId : ConnectionId) (message : Message) : Sent → Prop
  | .sctp parity streams =>
      message ∈ sctpMessages allocates fromSlice parity peer connectionId streams
  | .io bytes =>
      ∃ events, IoRemote.arrivals events = bytes ∧
        message ∈ (IoRemote.new peer connectionId).messages allocates fromSlice events

/-- Every message of the connection bears the name of the peer. -/
def Authentic (peer : ServerId) (connectionId : ConnectionId) (sent : Sent) : Prop :=
  ∀ message, Receives allocates fromSlice peer connectionId message sent → message.host = peer

/-! ## The texts among the bytes -/

/-- `len` is the length of `payload` in eight bytes, and there is memory for the payload. -/
structure IsLength (len payload : List Byte) : Prop where
  eight : len.length = 8
  length : fromBeBytes len = payload.length
  bounded : payload.length < capacityOverflow
  allocated : allocates payload.length = true

/-- The stream has the length of the payload in one packet and then the payload in
packets that are not too long. -/
def StreamCarries (packets : List (List Byte)) (payload : List Byte) : Prop :=
  ∃ len content rest, packets = len :: (content ++ rest) ∧ IsLength allocates len payload ∧
    content.flatten = payload ∧ ∀ packet ∈ content, packet ≠ [] ∧ packet.length ≤ maxFrameSize

/-- The payload is among the bytes.  It may come after other messages, and after a
part of a frame that was dropped. -/
inductive BytesCarry : List Byte → List Byte → Prop where
  | frame {len payload rest : List Byte} (h : IsLength allocates len payload) :
      BytesCarry (len ++ (payload ++ rest)) payload
  | after {len first rest payload : List Byte} {message : Message}
      (h : IsLength allocates len first) (parsed : fromSlice first = .ok message)
      (later : BytesCarry rest payload) : BytesCarry (len ++ (first ++ rest)) payload
  | dropped {part rest payload : List Byte} (h : frameRead allocates part = .waits)
      (later : BytesCarry rest payload) : BytesCarry (part ++ rest) payload

def Sent.Carries (payload : List Byte) : Sent → Prop
  | .sctp parity streams =>
      ∃ stream ∈ streams, ignoresStream parity stream.id = false ∧
        StreamCarries allocates stream.packets payload
  | .io bytes => BytesCarry allocates fromSlice bytes payload

end

/-! ## Reading a stream -/

theorem readContent_eq_payload {n : Nat} {buffer payload : List Byte}
    {packets : List (List Byte)} (hbuffer : buffer.length ≤ n) :
    readContent n buffer packets = .payload payload ↔
      ∃ content rest, packets = content ++ rest ∧ buffer ++ content.flatten = payload ∧
        payload.length = n ∧ ∀ packet ∈ content, packet ≠ [] ∧ packet.length ≤ maxFrameSize := by
  induction packets generalizing buffer with
  | nil =>
      simp only [readContent]
      split
      next h =>
          refine ⟨fun heq => (by cases heq), ?_⟩
          rintro ⟨content, rest, hnil, rfl, hlen, _⟩
          obtain ⟨rfl, rfl⟩ := List.append_eq_nil_iff.mp hnil.symm
          simp only [List.flatten_nil, List.append_nil] at hlen
          omega
      next h =>
          constructor
          · intro heq
            cases heq
            exact ⟨[], [], rfl, by simp, by omega, by simp⟩
          · rintro ⟨content, rest, hnil, rfl, _, _⟩
            obtain ⟨rfl, rfl⟩ := List.append_eq_nil_iff.mp hnil.symm
            simp
  | cons packet packets ih =>
      simp only [readContent]
      split
      next hmore =>
          split
          next hlong =>
              refine ⟨fun heq => (by cases heq), ?_⟩
              rintro ⟨content, rest, hpackets, rfl, hlen, hfit⟩
              -- The packet is longer than what is left or than a frame.
              cases content with
              | nil =>
                  simp only [List.flatten_nil, List.append_nil] at hlen
                  omega
              | cons first content =>
                  obtain ⟨rfl, rfl⟩ := List.cons.inj hpackets
                  have hfirst := (hfit packet (by simp)).2
                  simp only [List.flatten_cons, List.length_append] at hlen
                  omega
          next hfits =>
              split
              next hempty =>
                  refine ⟨fun heq => (by cases heq), ?_⟩
                  rintro ⟨content, rest, hpackets, rfl, hlen, hfit⟩
                  cases content with
                  | nil =>
                      simp only [List.flatten_nil, List.append_nil] at hlen
                      omega
                  | cons first content =>
                      obtain ⟨rfl, rfl⟩ := List.cons.inj hpackets
                      exact absurd (List.length_eq_zero_iff.mp hempty)
                        (hfit packet (by simp)).1
              next hsome =>
                  rw [ih (by rw [List.length_append]; omega)]
                  constructor
                  · rintro ⟨content, rest, rfl, rfl, hlen, hfit⟩
                    refine ⟨packet :: content, rest, rfl, by simp, hlen, fun p hp => ?_⟩
                    rcases List.mem_cons.mp hp with rfl | hp
                    · exact ⟨fun h => hsome (by simp [h]), by omega⟩
                    · exact hfit p hp
                  · rintro ⟨content, rest, hpackets, rfl, hlen, hfit⟩
                    cases content with
                    | nil =>
                        simp only [List.flatten_nil, List.append_nil] at hlen
                        omega
                    | cons first content =>
                        obtain ⟨rfl, rfl⟩ := List.cons.inj hpackets
                        exact ⟨content, rest, rfl, by simp, hlen,
                          fun p hp => hfit p (by simp [hp])⟩
      next hdone =>
          constructor
          · intro heq
            cases heq
            exact ⟨[], packet :: packets, rfl, by simp, by omega, by simp⟩
          · rintro ⟨content, rest, hpackets, rfl, hlen, hfit⟩
            cases content with
            | nil => simp
            | cons first content =>
                have hfirst := List.length_pos_of_ne_nil (hfit first (by simp)).1
                simp only [List.flatten_cons, List.length_append] at hlen
                omega

theorem readPayload_eq_payload {allocates : Nat → Bool} {packets : List (List Byte)}
    {payload : List Byte} :
    readPayload allocates packets = .payload payload ↔
      StreamCarries allocates packets payload := by
  cases packets with
  | nil =>
      refine ⟨fun h => (by cases h), ?_⟩
      rintro ⟨len, content, rest, heq, _⟩
      cases heq
  | cons len packets =>
      constructor
      · intro h
        simp only [readPayload] at h
        split at h
        next => cases h
        next =>
            split at h
            next => cases h
            next =>
                split at h
                next => cases h
                next hbound =>
                    split at h
                    next => cases h
                    next halloc =>
                        obtain ⟨content, rest, rfl, rfl, hlen, hfit⟩ :=
                          (readContent_eq_payload (Nat.zero_le _)).mp h
                        exact ⟨len, content, rest, rfl,
                          ⟨by omega, hlen.symm, by rw [hlen]; omega,
                            by rw [hlen]; simpa using halloc⟩, by simp, hfit⟩
      · rintro ⟨len', content, rest, heq, ⟨height, hlen, hbound, halloc⟩, hpayload, hfit⟩
        obtain ⟨rfl, rfl⟩ := List.cons.inj heq
        have hread : readContent payload.length [] (content ++ rest) = .payload payload :=
          (readContent_eq_payload (Nat.zero_le _)).mpr
            ⟨content, rest, rfl, by simpa using hpayload, rfl, hfit⟩
        simpa [readPayload, height, hlen, Nat.not_le.mpr hbound, halloc] using hread

/-! ## Reading frames -/

section

variable {allocates : Nat → Bool}

theorem frameRead_frame {len payload rest : List Byte} (h : IsLength allocates len payload) :
    frameRead allocates (len ++ (payload ++ rest)) = .frame payload rest := by
  have hbound := h.bounded
  have htake : (len ++ (payload ++ rest)).take 8 = len := by rw [← h.eight, List.take_left]
  have hdrop : (len ++ (payload ++ rest)).drop 8 = payload ++ rest := by
    rw [← h.eight, List.drop_left]
  simp only [frameRead, htake, hdrop, h.length, List.length_append, h.eight, List.take_left,
    List.drop_left]
  rw [if_neg (by omega), if_neg (by omega), if_neg (by simp [h.allocated]), if_neg (by omega)]

theorem exists_of_frameRead {bytes payload rest : List Byte}
    (h : frameRead allocates bytes = .frame payload rest) :
    ∃ len, IsLength allocates len payload ∧ bytes = len ++ (payload ++ rest) := by
  simp only [frameRead] at h
  split at h
  next => cases h
  next height =>
      split at h
      next => cases h
      next hbound =>
          split at h
          next => cases h
          next halloc =>
              split at h
              next => cases h
              next hlen =>
                  cases h
                  have hpayload : ((bytes.drop 8).take (fromBeBytes (bytes.take 8))).length =
                      fromBeBytes (bytes.take 8) := by
                    rw [List.length_take, List.length_drop]
                    omega
                  refine ⟨bytes.take 8, ⟨?_, hpayload.symm, ?_, ?_⟩, ?_⟩
                  · rw [List.length_take]
                    omega
                  · rw [hpayload]
                    omega
                  · rw [hpayload]
                    simpa using halloc
                  · rw [List.take_append_drop, List.take_append_drop]

end

namespace IoRemote

variable {allocates : Nat → Bool} {fromSlice : List Byte → Except String Message}

theorem host_of_mem_exit {self : IoRemote} {message : Message} (h : message ∈ self.exit.1) :
    message.host = self.peerId := by
  cases List.mem_singleton.mp h
  rfl

theorem messages_of_ended {self : IoRemote} (h : self.ending.isSome = true)
    (events : List Event) : self.messages allocates fromSlice events = [] := by
  induction events with
  | nil => rfl
  | cons event events ih => simpa [messages, step, h] using ih

/-- What has been read is no whole frame, and the payloads still to come are among the
bytes. -/
theorem host_of_mem_messages {peer : ServerId} {self : IoRemote} {events : List Event}
    {message : Message} (hmem : message ∈ self.messages allocates fromSlice events)
    (hpeer : self.peerId = peer) (hwaits : frameRead allocates self.pending = .waits)
    (hnames : ∀ payload message,
      BytesCarry allocates fromSlice (self.pending ++ (self.arrived ++ arrivals events)) payload →
      fromSlice payload = .ok message → message.host = peer) :
    message.host = peer := by
  induction events generalizing self with
  | nil => cases hmem
  | cons event events ih =>
      cases hended : self.ending.isSome with
      | true => rw [messages_of_ended hended] at hmem; cases hmem
      | false =>
      have hexit : message ∈ self.exit.1 ++ self.exit.2.messages allocates fromSlice events →
          message.host = peer := by
        intro h
        rw [messages_of_ended rfl, List.append_nil] at h
        exact (host_of_mem_exit h).trans hpeer
      simp only [messages, step, hended, Bool.false_eq_true, if_false] at hmem
      cases event with
      | arrives bytes =>
          refine ih hmem hpeer hwaits fun payload message' hcarry => hnames payload message' ?_
          simpa [arrivals, List.append_assoc] using hcarry
      | closes => exact ih hmem hpeer hwaits hnames
      | senderDropped => exact hexit hmem
      | command written =>
          cases written with
          | false => exact hexit hmem
          | true =>
              exact ih hmem hpeer rfl
                fun payload message' hcarry => hnames payload message' (.dropped hwaits hcarry)
      | poll =>
          simp only [poll] at hmem
          cases hread : frameRead allocates (self.pending ++ self.arrived) with
          | waits =>
              simp only [hread] at hmem
              split at hmem
              next => exact hexit hmem
              next =>
                  refine ih hmem hpeer hread
                    fun payload message' hcarry => hnames payload message' ?_
                  simpa [arrivals, List.append_assoc] using hcarry
          | panics =>
              simp only [hread, List.nil_append] at hmem
              rw [messages_of_ended rfl] at hmem
              cases hmem
          | aborts =>
              simp only [hread, List.nil_append] at hmem
              rw [messages_of_ended rfl] at hmem
              cases hmem
          | frame payload rest =>
              obtain ⟨len, hlen, hbytes⟩ := exists_of_frameRead hread
              have hall : self.pending ++ (self.arrived ++ arrivals (.poll :: events)) =
                  len ++ (payload ++ (rest ++ arrivals events)) := by
                rw [← List.append_assoc, hbytes]
                simp [arrivals, List.append_assoc]
              rw [hall] at hnames
              cases hparse : fromSlice payload with
              | error err =>
                  simp only [hread, hparse] at hmem
                  exact hexit hmem
              | ok message' =>
                  simp only [hread, hparse, List.singleton_append] at hmem
                  rcases List.mem_cons.mp hmem with rfl | hmem
                  · exact hnames payload _ (.frame hlen) hparse
                  · exact ih hmem hpeer rfl
                      fun later m hcarry => hnames later m (.after hlen hparse hcarry)

/-- A payload that is among the bytes is read in some run. -/
theorem exists_mem_messages {bytes payload : List Byte} {message : Message} (peer : ServerId)
    (connectionId : ConnectionId) (hcarry : BytesCarry allocates fromSlice bytes payload)
    (hparse : fromSlice payload = .ok message) :
    ∃ events, arrivals events = bytes ∧
      message ∈ (new peer connectionId).messages allocates fromSlice events := by
  induction hcarry with
  | @frame len payload rest hlen =>
      refine ⟨[.arrives (len ++ (payload ++ rest)), .poll], by simp [arrivals], ?_⟩
      simp [messages, step, poll, new, frameRead_frame hlen, hparse]
  | @after len first rest payload first' hlen hfirst _ ih =>
      obtain ⟨events, rfl, hmem⟩ := ih hparse
      refine ⟨[.arrives (len ++ first), .poll] ++ events, by simp [arrivals], ?_⟩
      have hread : frameRead allocates (len ++ first) = .frame first [] := by
        have hframe : frameRead allocates (len ++ (first ++ [])) = .frame first [] :=
          frameRead_frame hlen
        rwa [List.append_nil] at hframe
      simpa [messages, step, poll, new, hread, hfirst] using .inr hmem
  | @dropped part rest payload hpart _ ih =>
      obtain ⟨events, rfl, hmem⟩ := ih hparse
      refine ⟨[.arrives part, .poll, .command true] ++ events, by simp [arrivals], ?_⟩
      simpa [messages, step, poll, new, hpart] using hmem

end IoRemote

/-! ## Authenticity -/

section

variable {allocates : Nat → Bool} {fromSlice : List Byte → Except String Message}

theorem mem_readFromStream {peer : ServerId} {packets : List (List Byte)} {message : Message}
    (h : message ∈ readFromStream allocates fromSlice peer packets) :
    message.host = peer ∨
      ∃ payload, StreamCarries allocates packets payload ∧ fromSlice payload = .ok message := by
  unfold readFromStream at h
  split at h
  next => cases h
  next => cases h
  next => cases h
  next =>
      cases List.mem_singleton.mp h
      exact .inl rfl
  next payload hread =>
      split at h
      next message' hparse =>
          cases List.mem_singleton.mp h
          exact .inr ⟨payload, readPayload_eq_payload.mp hread, hparse⟩
      next =>
          cases List.mem_singleton.mp h
          exact .inl rfl

theorem mem_readFromStream_of_carries {packets : List (List Byte)} {payload : List Byte}
    {message : Message} (peer : ServerId) (hcarry : StreamCarries allocates packets payload)
    (hparse : fromSlice payload = .ok message) :
    message ∈ readFromStream allocates fromSlice peer packets := by
  simp [readFromStream, readPayload_eq_payload.mpr hcarry, hparse]

/-- The messages of a connection bear the name of its peer when, and only when, every
text among the bytes does that is a message. -/
theorem authentic_iff (peer : ServerId) (connectionId : ConnectionId) (sent : Sent) :
    Authentic allocates fromSlice peer connectionId sent ↔
      ∀ payload message, sent.Carries allocates fromSlice payload →
        fromSlice payload = .ok message → message.host = peer := by
  constructor
  · intro h payload message hcarry hparse
    refine h message ?_
    cases sent with
    | sctp parity streams =>
        obtain ⟨stream, hmem, htaken, hcarry⟩ := hcarry
        refine List.mem_append_left _ (List.mem_flatMap.mpr ⟨stream, hmem, ?_⟩)
        simpa [handleIncomingStream, htaken] using
          mem_readFromStream_of_carries peer hcarry hparse
    | io bytes => exact IoRemote.exists_mem_messages peer connectionId hcarry hparse
  · intro h message hreceives
    cases sent with
    | sctp parity streams =>
        rcases List.mem_append.mp hreceives with hmem | hmem
        · obtain ⟨stream, hstream, hmem⟩ := List.mem_flatMap.mp hmem
          cases htaken : ignoresStream parity stream.id with
          | true => simp [handleIncomingStream, htaken] at hmem
          | false =>
              simp only [handleIncomingStream, htaken, Bool.false_eq_true, if_false] at hmem
              rcases mem_readFromStream hmem with hpeer | ⟨payload, hcarry, hparse⟩
              · exact hpeer
              · exact h payload message ⟨stream, hstream, htaken, hcarry⟩ hparse
        · cases List.mem_singleton.mp hmem
          rfl
    | io bytes =>
        obtain ⟨events, rfl, hmem⟩ := hreceives
        exact IoRemote.host_of_mem_messages hmem rfl rfl h

end

/-- The text of a Bye of host 7. -/
def byeText : List Byte :=
  "\x7b\"host\":\"7\",\"body\":\x7b\"kind\":\"Bye\"\x7d,\"req_id\":null\x7d".toList.map fun c =>
    UInt8.ofNat c.toNat

/-- A parser that knows this one text. -/
def parseBye (bytes : List Byte) : Except String Message :=
  if bytes = byeText then .ok { host := 7, body := .bye, reqId := none }
  else .error "expected value at line 1 column 1"

/-- The length of the text in eight bytes. -/
def byeLength : List Byte := [0, 0, 0, 0, 0, 0, 0, 48]

/-- Memory of 47 bits. -/
def addressable (size : Nat) : Bool := size < 2 ^ 47

/-- The peer 5 says Bye in the name of the host 7, over either transport. -/
theorem not_authentic_bye :
    ¬Authentic addressable parseBye 5 0 (.sctp 1 [{ id := 2, packets := [byeLength, byeText] }]) ∧
      ¬Authentic addressable parseBye 5 0 (.io (byeLength ++ byeText)) := by
  have hparse : parseBye byeText = .ok { host := 7, body := .bye, reqId := none } := by decide
  constructor
  · intro h
    have hhost := h { host := 7, body := .bye, reqId := none }
      (List.mem_append_left _ (by decide))
    cases hhost
  · intro h
    have hhost := h { host := 7, body := .bye, reqId := none }
      ⟨[.arrives (byeLength ++ byeText), .poll], by decide, by decide⟩
    cases hhost

end CollabMode
