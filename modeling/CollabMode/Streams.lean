import CollabMode.Framing

/-!
# Sending over SCTP

The sender of `webchannel.rs`.  Each message opens a stream of its own, writes eight
bytes of length and then the text, a chunk at a time.  `toString` stands for the JSON
printer.  An association keeps the order and the bounds of the packets of a stream, and
says nothing about the order of two streams.

A side counts its streams in 16 bits, from 1 or from 2 and in steps of two.  Stream 0 is
for pings, and is open from the beginning.  An association does not open a stream twice, so
that the side that starts from 2 fails when it is back at 0.
-/

namespace CollabMode

/-! ## The sender -/

/-- `PING_STREAM_ID`, as the sender has it. -/
def pingStream : UInt16 := 0

/-- What the association does with one message: which streams it opens, and which
writes of the new stream succeed, the first one being number 0. -/
structure Association where
  opens : UInt16 → Bool
  writes : Nat → Bool
  /-- `run` has opened the stream of the pings. -/
  ping : opens pingStream = false

/-- What comes of a call of `handle_outgoing_message`. -/
structure Outgoing where
  streamId : UInt16
  /-- The packets that are on the stream, if it was opened. -/
  packets : Option (List (List Byte))
  /-- What the sender tells its own server. -/
  told : List Message
  ok : Bool
deriving DecidableEq

/-- The number of packets that a call has written. -/
def Outgoing.written (out : Outgoing) : Nat := (out.packets.getD []).length

/-- `stream.write`.  The list has the packets before. -/
def writePacket (association : Association) (packets : List (List Byte)) (packet : List Byte) :
    Option (List (List Byte)) :=
  if association.writes packets.length then some (packets ++ [packet]) else none

/-- The loop that writes the text in chunks.  It gives the packets of the stream, and
whether every write succeeded. -/
def writeChunks (association : Association) (data : List Byte) (offset : Nat)
    (packets : List (List Byte)) : List (List Byte) × Bool :=
  if offset < data.length then
    let chunkEnd := min (offset + maxFrameSize) data.length
    match writePacket association packets ((data.take chunkEnd).drop offset) with
    | none => (packets, false)
    | some packets => writeChunks association data chunkEnd packets
  else (packets, true)
termination_by data.length - offset
decreasing_by simp only [maxFrameSize]; omega

def streamIdClientInit : UInt16 := 1

def streamIdServerInit : UInt16 := 2

/-- The identifiers of the two hosts are compared as strings. -/
def streamIdInit (myId peerId : String) : UInt16 :=
  if myId < peerId then streamIdClientInit else streamIdServerInit

structure SctpRemote where
  peerId : ServerId
  nextStreamId : UInt16
  streamIdParity : UInt16
deriving DecidableEq, Repr

namespace SctpRemote

def new (peerId : ServerId) (streamIdInit : UInt16) : SctpRemote :=
  { peerId, nextStreamId := streamIdInit, streamIdParity := streamIdInit }

variable {allocates : Nat → Bool} (toString : Message → Except String (ByteVec allocates))

def handleOutgoingMessage (self : SctpRemote) (association : Association) (message : Message) :
    Outgoing × SctpRemote :=
  let streamId := self.nextStreamId
  let after := { self with nextStreamId := self.nextStreamId + 2 }
  if !association.opens streamId then
    ({ streamId, packets := none, told := [], ok := false }, after)
  else
    match toString message with
    | .error _ =>
        let told := [serializationErr self.peerId s!"{self.peerId}"]
        ({ streamId, packets := some [], told, ok := false }, after)
    | .ok data =>
        match writePacket association [] (toBeBytes data.bytes.length) with
        | none => ({ streamId, packets := some [], told := [], ok := false }, after)
        | some packets =>
            let (packets, ok) := writeChunks association data.bytes 0 packets
            ({ streamId, packets := some packets, told := [], ok }, after)

/-- The calls of `run_inner`.  The loop ends with the first message that fails. -/
def outgoing : SctpRemote → List (Association × Message) → List Outgoing
  | _, [] => []
  | self, (association, message) :: sends =>
      let (out, after) := self.handleOutgoingMessage toString association message
      if out.ok then out :: outgoing after sends else [out]

/-- The number of the stream of message `i`. -/
def streamIdAt (self : SctpRemote) (i : Nat) : UInt16 := self.nextStreamId + 2 * UInt16.ofNat i

/-- The remote after some messages. -/
def afterAll (self : SctpRemote) (sends : List (Association × Message)) : SctpRemote :=
  sends.foldl (fun self send => (self.handleOutgoingMessage toString send.1 send.2).2) self

end SctpRemote

/-! ## Framing -/

/-- The loop writes what is left of the text, in packets that are neither empty nor too
long. -/
theorem writeChunks_ok {association : Association} {data : List Byte} {offset : Nat}
    {packets after : List (List Byte)}
    (h : writeChunks association data offset packets = (after, true)) :
    ∃ content, after = packets ++ content ∧ content.flatten = data.drop offset ∧
      ∀ packet ∈ content, packet ≠ [] ∧ packet.length ≤ maxFrameSize := by
  fun_induction writeChunks association data offset packets with
  | case1 => cases h
  | case2 offset packets hlt chunkEnd packets' hwrite ih =>
      obtain ⟨content, rfl, hflat, hfit⟩ := ih h
      have hpackets : packets ++ [(data.take chunkEnd).drop offset] = packets' := by
        simp only [writePacket] at hwrite
        split at hwrite
        next => exact Option.some.inj hwrite
        next => cases hwrite
      have hlen : ((data.take chunkEnd).drop offset).length = chunkEnd - offset := by
        rw [List.length_drop, List.length_take]
        omega
      refine ⟨(data.take chunkEnd).drop offset :: content, by simp [← hpackets], ?_, ?_⟩
      · rw [List.flatten_cons, hflat]
        -- The chunk ends where the rest of the text begins.
        have hsplit : data.drop offset =
            (data.take chunkEnd).drop offset ++ data.drop chunkEnd := by
          have hend : offset ≤ (data.take chunkEnd).length := by
            rw [List.length_take]
            simp only [chunkEnd, maxFrameSize]
            omega
          rw [← List.drop_append_of_le_length hend, List.take_append_drop]
        exact hsplit.symm
      · intro packet hpacket
        rcases List.mem_cons.mp hpacket with rfl | hpacket
        · constructor
          · intro hnil
            rw [hnil, List.length_nil] at hlen
            simp only [chunkEnd, maxFrameSize] at hlen
            omega
          · rw [hlen]
            simp only [chunkEnd]
            omega
        · exact hfit packet hpacket
  | case3 offset packets hge =>
      cases h
      exact ⟨[], by simp, (List.drop_eq_nil_of_le (by omega)).symm, by simp⟩

theorem writeChunks_true {association : Association} (h : ∀ k, association.writes k = true)
    (data : List Byte) (offset : Nat) (packets : List (List Byte)) :
    (writeChunks association data offset packets).2 = true := by
  fun_induction writeChunks association data offset packets with
  | case1 offset packets hlt chunkEnd hwrite => simp [writePacket, h] at hwrite
  | case2 offset packets hlt chunkEnd packets' hwrite ih => exact ih
  | case3 => rfl

/-- The loop waits until the last packet is there. -/
theorem readContent_part {n : Nat} {buffer : List Byte} {content part : List (List Byte)}
    (hlen : (buffer ++ content.flatten).length = n)
    (hfit : ∀ packet ∈ content, packet ≠ [] ∧ packet.length ≤ maxFrameSize)
    (hpart : part <+: content) (hne : part.length < content.length) :
    readContent n buffer part = .waits := by
  induction content generalizing buffer part with
  | nil => simp at hne
  | cons packet content ih =>
      have hpacket := hfit packet (by simp)
      have hpos := List.length_pos_of_ne_nil hpacket.1
      simp only [List.flatten_cons, List.length_append] at hlen
      cases part with
      | nil =>
          simp only [readContent]
          rw [if_pos (by omega)]
      | cons first part =>
          obtain ⟨rfl, hrest⟩ := List.cons_prefix_cons.mp hpart
          simp only [readContent]
          rw [if_pos (by omega), if_neg (by omega), if_neg (by omega)]
          exact ih (by simp only [List.length_append]; omega)
            (fun p hp => hfit p (List.mem_cons_of_mem _ hp)) hrest
            (by simpa using hne)

section

variable {allocates : Nat → Bool} {toString : Message → Except String (ByteVec allocates)}
variable {fromSlice : List Byte → Except String Message}

/-- What the call writes when it succeeds. -/
theorem SctpRemote.handleOutgoingMessage_ok {self after : SctpRemote} {association : Association}
    {message : Message} {out : Outgoing}
    (h : self.handleOutgoingMessage toString association message = (out, after))
    (hok : out.ok = true) :
    ∃ data content, toString message = .ok data ∧
      out.packets = some (toBeBytes data.bytes.length :: content) ∧
      content.flatten = data.bytes ∧
      ∀ packet ∈ content, packet ≠ [] ∧ packet.length ≤ maxFrameSize := by
  simp only [handleOutgoingMessage] at h
  split at h
  next =>
      cases h
      cases hok
  next =>
      split at h
      next =>
          cases h
          cases hok
      next data hdata =>
          split at h
          next =>
              cases h
              cases hok
          next packets hwrite =>
              cases h
              have hpackets : packets = [toBeBytes data.bytes.length] := by
                simp only [writePacket] at hwrite
                split at hwrite
                next => exact (Option.some.inj hwrite).symm
                next => cases hwrite
              obtain ⟨content, hafter, hflat, hfit⟩ :=
                writeChunks_ok (Prod.ext rfl hok : writeChunks association data.bytes 0 packets =
                  ((writeChunks association data.bytes 0 packets).1, true))
              refine ⟨data, content, hdata, ?_, by simpa using hflat, hfit⟩
              rw [hafter, hpackets]
              rfl

/-- The reader makes of a first part of such a stream nothing, and of the whole stream,
with or without its end, the message. -/
theorem readFromStream_of_carries {data : ByteVec allocates} {content arrived : List (List Byte)}
    {message : Message} (peer : ServerId) (hparse : fromSlice data.bytes = .ok message)
    (hflat : content.flatten = data.bytes)
    (hfit : ∀ packet ∈ content, packet ≠ [] ∧ packet.length ≤ maxFrameSize)
    (harrived : arrived <+: toBeBytes data.bytes.length :: content ++ [[]]) :
    readFromStream allocates fromSlice peer arrived =
      if content.length < arrived.length then [message] else [] := by
  have hlen := isLength_toBeBytes data
  split
  next hall =>
      have hcarry : StreamCarries allocates arrived data.bytes := by
        obtain ⟨rest, hrest⟩ := harrived
        have hwhole : toBeBytes data.bytes.length :: content <+: arrived :=
          List.prefix_of_prefix_length_le ⟨[[]], rfl⟩ ⟨rest, hrest⟩ (by rwa [List.length_cons])
        obtain ⟨more, hmore⟩ := hwhole
        exact ⟨_, content, more, hmore.symm, hlen, hflat, hfit⟩
      simp [readFromStream, readPayload_eq_payload.mpr hcarry, hparse]
  next hsome =>
      have hpart : arrived <+: toBeBytes data.bytes.length :: content :=
        List.prefix_of_prefix_length_le harrived ⟨[[]], rfl⟩ (by simp; omega)
      have hwaits : readPayload allocates arrived = .waits := by
        cases arrived with
        | nil => rfl
        | cons first part =>
            obtain ⟨rfl, hrest⟩ := List.cons_prefix_cons.mp hpart
            rw [List.length_cons] at hsome
            have hread : readContent data.bytes.length [] part = .waits :=
              readContent_part (by simp [hflat]) hfit hrest (by omega)
            simpa [readPayload, hlen.eight, hlen.length, Nat.not_le.mpr hlen.bounded,
              hlen.allocated] using hread
      simp [readFromStream, hwaits]

namespace SctpRemote

/-! ## A run of the sender -/

/-- SCTP takes the stream and its packets. -/
def Takes (association : Association) (streamId : UInt16) : Prop :=
  association.opens streamId = true ∧ ∀ k, association.writes k = true

theorem handleOutgoingMessage_takes {self : SctpRemote} {association : Association}
    {message : Message} {data : ByteVec allocates} (htakes : Takes association self.nextStreamId)
    (hdata : toString message = .ok data) :
    (self.handleOutgoingMessage toString association message).1.ok = true := by
  simp [handleOutgoingMessage, htakes.1, hdata, writePacket, htakes.2, writeChunks_true htakes.2]

/-- What comes of message `i` is what comes of it at the remote after the messages
before. -/
theorem outgoing_getElem? {self : SctpRemote} {sends : List (Association × Message)} {i : Nat}
    {out : Outgoing} (h : (self.outgoing toString sends)[i]? = some out) :
    ∃ association message, sends[i]? = some (association, message) ∧
      out = ((self.afterAll toString (sends.take i)).handleOutgoingMessage toString association
        message).1 := by
  induction sends generalizing self i with
  | nil => simp [outgoing] at h
  | cons send sends ih =>
      obtain ⟨association, message⟩ := send
      simp only [outgoing] at h
      cases i with
      | zero =>
          refine ⟨association, message, rfl, ?_⟩
          split at h <;> simpa [afterAll] using h.symm
      | succ i =>
          split at h
          next =>
              obtain ⟨association', message', hsend, rfl⟩ := ih (by simpa using h)
              exact ⟨association', message', by simpa using hsend, rfl⟩
          next => simp at h

/-- A message takes the next stream, whatever becomes of it. -/
theorem streams_handleOutgoingMessage (self : SctpRemote) (association : Association)
    (message : Message) :
    (self.handleOutgoingMessage toString association message).1.streamId = self.nextStreamId ∧
      (self.handleOutgoingMessage toString association message).2.nextStreamId =
        self.nextStreamId + 2 := by
  simp only [handleOutgoingMessage]
  split
  next => exact ⟨rfl, rfl⟩
  next =>
      split
      next => exact ⟨rfl, rfl⟩
      next => split <;> exact ⟨rfl, rfl⟩

/-- The counter wraps around after 65536. -/
theorem toNat_streamIdAt (self : SctpRemote) (i : Nat) :
    (self.streamIdAt i).toNat = (self.nextStreamId.toNat + 2 * i) % 65536 := by
  have htwo : (2 : UInt16).toNat = 2 := rfl
  rw [streamIdAt, UInt16.toNat_add, UInt16.toNat_mul, UInt16.toNat_ofNat', htwo]
  omega

theorem streamIdAt_succ (self : SctpRemote) (association : Association) (message : Message)
    (i : Nat) :
    (self.handleOutgoingMessage toString association message).2.streamIdAt i =
      self.streamIdAt (i + 1) := by
  have htwo : (2 : UInt16).toNat = 2 := rfl
  rw [← UInt16.toNat_inj, toNat_streamIdAt, toNat_streamIdAt,
    (self.streams_handleOutgoingMessage _ _).2, UInt16.toNat_add, htwo]
  omega

theorem streamIdAt_zero (self : SctpRemote) : self.streamIdAt 0 = self.nextStreamId := by
  have hlt := self.nextStreamId.toNat_lt
  rw [← UInt16.toNat_inj, toNat_streamIdAt]
  omega

/-- SCTP takes every stream and every packet, and every message has a text. -/
def TakesAll (toString : Message → Except String (ByteVec allocates)) (self : SctpRemote)
    (sends : List (Association × Message)) : Prop :=
  ∀ i association message, sends[i]? = some (association, message) →
    Takes association (self.streamIdAt i) ∧ ∃ data, toString message = .ok data

/-- Then every message is sent, and the next ones follow. -/
theorem outgoing_takes {self : SctpRemote} {sends : List (Association × Message)}
    (h : TakesAll toString self sends) :
    ((self.outgoing toString sends).length = sends.length ∧
      ∀ out ∈ self.outgoing toString sends, out.ok = true) ∧
    ∀ more, self.outgoing toString (sends ++ more) =
      self.outgoing toString sends ++ (self.afterAll toString sends).outgoing toString more := by
  induction sends generalizing self with
  | nil => simp [outgoing, afterAll]
  | cons send sends ih =>
      obtain ⟨association, message⟩ := send
      obtain ⟨htakes, data, hdata⟩ := h 0 association message rfl
      rw [streamIdAt_zero] at htakes
      have hok := handleOutgoingMessage_takes htakes hdata
      have hrest : TakesAll toString (self.handleOutgoingMessage toString association message).2
          sends := by
        intro i association' message' hsend
        rw [streamIdAt_succ]
        exact h (i + 1) association' message' hsend
      obtain ⟨⟨hlength, hall⟩, hmore⟩ := ih hrest
      simp only [outgoing, hok, if_true, List.cons_append]
      refine ⟨⟨by simp [hlength], fun out hout => ?_⟩, fun more => ?_⟩
      · rcases List.mem_cons.mp hout with rfl | hout
        · exact hok
        · exact hall out hout
      · rw [hmore]
        rfl

/-- The packets of stream `i` that have arrived.  `arrivals` has what arrives over the
association, each packet with the number of its message. -/
def onStream (arrivals : List (Nat × List Byte)) (i : Nat) : List (List Byte) :=
  (arrivals.filter fun arrival => arrival.1 = i).map Prod.snd

/-- SCTP keeps the order and the bounds of the packets of a stream: what has arrived is a
first part of what was written and of the end of the stream. -/
def KeepsOrder (outs : List Outgoing) (arrivals : List (Nat × List Byte)) : Prop :=
  ∀ i out packets, outs[i]? = some out → out.packets = some packets →
    onStream arrivals i <+: packets ++ [[]]

/-- Of each message that was sent the reader makes that message, once all of its stream
is there, and nothing before. -/
def Reconstructs (allocates : Nat → Bool) (fromSlice : List Byte → Except String Message)
    (peer : ServerId) (sends : List (Association × Message)) (outs : List Outgoing)
    (arrivals : List (Nat × List Byte)) : Prop :=
  ∀ i association message out, sends[i]? = some (association, message) → outs[i]? = some out →
    out.ok = true →
    readFromStream allocates fromSlice peer (onStream arrivals i) =
      if out.written ≤ (onStream arrivals i).length then [message] else []

/-- Messages of any size, and any number of them, come out as they went in, in whatever
order their streams arrive. -/
theorem outgoing_reconstructs
    (hserde : ∀ message data, toString message = .ok data → fromSlice data.bytes = .ok message)
    (self : SctpRemote) (peer : ServerId) (sends : List (Association × Message))
    (arrivals : List (Nat × List Byte))
    (hkeeps : KeepsOrder (self.outgoing toString sends) arrivals) :
    Reconstructs allocates fromSlice peer sends (self.outgoing toString sends) arrivals ∧
      (TakesAll toString self sends →
        (self.outgoing toString sends).length = sends.length ∧
          ∀ out ∈ self.outgoing toString sends, out.ok = true) := by
  refine ⟨?_, fun htakes => (outgoing_takes htakes).1⟩
  intro i association message out hsend hout hok
  obtain ⟨association', message', hsend', hcall⟩ := outgoing_getElem? hout
  obtain ⟨rfl, rfl⟩ := Prod.mk.inj (Option.some.inj (hsend.symm.trans hsend'))
  obtain ⟨data, content, hdata, hpackets, hflat, hfit⟩ :=
    handleOutgoingMessage_ok (Prod.ext hcall.symm rfl) hok
  have harrived := hkeeps i out _ hout hpackets
  rw [readFromStream_of_carries peer (hserde message data hdata) hflat hfit harrived]
  have hwritten : out.written = content.length + 1 := by simp [Outgoing.written, hpackets]
  rw [hwritten]
  rfl

theorem writeChunks_short {association : Association} {data : List Byte}
    {packets : List (List Byte)} (hwrites : ∀ k, association.writes k = true)
    (hpos : 0 < data.length) (hshort : data.length ≤ maxFrameSize) :
    writeChunks association data 0 packets = (packets ++ [data], true) := by
  rw [writeChunks, if_pos hpos]
  simp only [writePacket, hwrites, if_true, Nat.zero_add, Nat.min_eq_right hshort,
    List.take_length, List.drop_zero]
  rw [writeChunks, if_neg (Nat.lt_irrefl _)]

/-- A Bye over an association that opens every other stream than that of the pings. -/
def byeSend : Association × Message := (⟨(· ≠ pingStream), fun _ => true, rfl⟩, byeMessage)

theorem outgoing_bye (self : SctpRemote) (h : self.nextStreamId ≠ pingStream)
    (sends : List (Association × Message)) :
    self.outgoing printBye (byeSend :: sends) =
      ⟨self.nextStreamId, some [byeLength, byeText], [], true⟩ ::
        { self with nextStreamId := self.nextStreamId + 2 }.outgoing printBye sends := by
  have hchunks : writeChunks byeSend.1 byeText 0 [byeLength] = ([byeLength] ++ [byeText], true) :=
    writeChunks_short (fun _ => rfl) (by decide) (by decide)
  have hprint : printBye byeSend.2 = .ok byeVec := rfl
  have hopens : byeSend.1.opens self.nextStreamId = true := decide_eq_true h
  have hwrite : writePacket byeSend.1 [] (toBeBytes byeVec.bytes.length) = some [byeLength] := rfl
  have hbye : self.handleOutgoingMessage printBye byeSend.1 byeSend.2 =
      (⟨self.nextStreamId, some [byeLength, byeText], [], true⟩,
        { self with nextStreamId := self.nextStreamId + 2 }) := by
    simp only [handleOutgoingMessage, hopens, hprint, hwrite, Bool.not_true, Bool.false_eq_true,
      if_false]
    rw [show byeVec.bytes = byeText from rfl, hchunks]
    rfl
  rw [show byeSend :: sends = (byeSend.1, byeSend.2) :: sends from rfl, outgoing, hbye]
  rfl

/-- The Byes are taken until the number of the stream is that of the pings. -/
theorem takesAll_byes {self : SctpRemote} {n : Nat}
    (h : ∀ i < n, self.streamIdAt i ≠ pingStream) :
    TakesAll printBye self (List.replicate n byeSend) := by
  intro i association message hsend
  obtain ⟨hi, hsend⟩ := List.getElem?_eq_some_iff.mp hsend
  rw [List.getElem_replicate] at hsend
  cases hsend
  rw [List.length_replicate] at hi
  exact ⟨⟨decide_eq_true (h i hi), fun _ => rfl⟩, byeVec, rfl⟩

/-- Two Byes are sent and the text of the second one comes first. -/
theorem outgoing_reconstructs_byes :
    Reconstructs addressable parseBye 7 (List.replicate 2 byeSend)
      ((new 5 1).outgoing printBye (List.replicate 2 byeSend))
      [(1, byeLength), (1, byeText), (0, byeLength), (0, byeText), (0, [])] ∧
    ((new 5 1).outgoing printBye (List.replicate 2 byeSend)).length = 2 := by
  have htakes : TakesAll printBye (new 5 1) (List.replicate 2 byeSend) :=
    takesAll_byes (by decide)
  have hkeeps : KeepsOrder ((new 5 1).outgoing printBye (List.replicate 2 byeSend))
      [(1, byeLength), (1, byeText), (0, byeLength), (0, byeText), (0, [])] := by
    intro i out packets hout hpackets
    have houts : (new 5 1).outgoing printBye (List.replicate 2 byeSend) =
        [⟨1, some [byeLength, byeText], [], true⟩,
          ⟨1 + 2, some [byeLength, byeText], [], true⟩] :=
      (outgoing_bye (new 5 1) (by decide) [byeSend]).trans
        (congrArg _ (outgoing_bye { new 5 1 with nextStreamId := 1 + 2 } (by decide) []))
    rw [houts] at hout
    rcases i with _ | _ | i
    · cases hout
      cases hpackets
      decide
    · cases hout
      cases hpackets
      decide
    · cases hout
  obtain ⟨hall, hlength⟩ := outgoing_reconstructs (fun _ _ => parseBye_printBye) (new 5 1) 7 _ _
    hkeeps
  exact ⟨hall, (hlength htakes).1⟩

/-! ## The numbers of the streams -/

theorem nextStreamId_afterAll (toString : Message → Except String (ByteVec allocates))
    (self : SctpRemote) (sends : List (Association × Message)) :
    (self.afterAll toString sends).nextStreamId = self.streamIdAt sends.length := by
  induction sends generalizing self with
  | nil => exact (streamIdAt_zero self).symm
  | cons send sends ih => exact (ih _).trans (streamIdAt_succ self send.1 send.2 _)

/-- A message that was sent has its own stream, which is not that of the pings. -/
theorem handleOutgoingMessage_opens {self : SctpRemote} {association : Association}
    {message : Message}
    (h : (self.handleOutgoingMessage toString association message).1.ok = true) :
    self.nextStreamId ≠ pingStream := by
  intro hping
  rw [handleOutgoingMessage, hping, association.ping] at h
  cases h

/-- The number of the stream of message `i`. -/
theorem outgoing_streamId {self : SctpRemote} {sends : List (Association × Message)} {i : Nat}
    {out : Outgoing} (h : (self.outgoing toString sends)[i]? = some out) :
    out.streamId = self.streamIdAt i ∧ (out.ok = true → self.streamIdAt i ≠ pingStream) := by
  obtain ⟨association, message, hsend, rfl⟩ := outgoing_getElem? h
  have hlen : (sends.take i).length = i :=
    List.length_take_of_le (List.getElem?_eq_some_iff.mp hsend).1.le
  have hnext := nextStreamId_afterAll toString self (sends.take i)
  rw [hlen] at hnext
  exact ⟨(streams_handleOutgoingMessage _ _ _).1.trans hnext,
    fun hok => hnext ▸ handleOutgoingMessage_opens hok⟩

/-- The messages before have been sent. -/
theorem outgoing_ok_before {self : SctpRemote} {sends : List (Association × Message)} {i j : Nat}
    {out : Outgoing} (h : (self.outgoing toString sends)[i]? = some out) (hj : j < i) :
    ∃ out', (self.outgoing toString sends)[j]? = some out' ∧ out'.ok = true := by
  induction sends generalizing self i j with
  | nil => cases h
  | cons send sends ih =>
      obtain ⟨association, message⟩ := send
      obtain ⟨i, rfl⟩ := Nat.exists_eq_succ_of_ne_zero (Nat.ne_zero_of_lt hj)
      simp only [outgoing] at h ⊢
      split at h
      next hok =>
          rw [if_pos hok]
          cases j with
          | zero => exact ⟨_, rfl, hok⟩
          | succ j => exact ih h (Nat.lt_of_succ_lt_succ hj)
      next => cases h

/-- No message comes behind the one with the number of the stream of the pings. -/
theorem outgoing_le {self : SctpRemote} (hinit : self.nextStreamId = streamIdServerInit)
    {sends : List (Association × Message)} {i : Nat} {out : Outgoing}
    (h : (self.outgoing toString sends)[i]? = some out) : i ≤ 32767 := by
  by_contra hlt
  obtain ⟨out', hout', hok⟩ := outgoing_ok_before h (Nat.not_le.mp hlt)
  refine (outgoing_streamId hout').2 hok (UInt16.toNat_inj.mp ?_)
  rw [toNat_streamIdAt, hinit]
  rfl

/-- The two streams are not that of the pings, and they are not the same. -/
def Apart (mine theirs : UInt16) : Prop :=
  mine ≠ pingStream ∧ theirs ≠ pingStream ∧ mine ≠ theirs

/-- The message of the side that starts from 2 is one of the first 32767, the first one being
message 0.  Where both start from 2 they are not the same one. -/
def KeepsClear (myId peerId : String) (i j : Nat) : Prop :=
  if myId < peerId then j < 32767
  else if peerId < myId then i < 32767
  else i < 32767 ∧ j < 32767 ∧ i ≠ j

/-- Streams of two sides, message `i` of the one and message `j` of the other. -/
theorem apart_iff_keepsClear (myId peerId : String) (me peer : ServerId)
    (sends sends' : List (Association × Message)) (i j : Nat) (out out' : Outgoing)
    (hout : ((new peer (streamIdInit myId peerId)).outgoing toString sends)[i]? = some out)
    (hout' : ((new me (streamIdInit peerId myId)).outgoing toString sends')[j]? = some out') :
    Apart out.streamId out'.streamId ↔ KeepsClear myId peerId i j := by
  have hmine := toNat_streamIdAt (new peer (streamIdInit myId peerId)) i
  have htheirs := toNat_streamIdAt (new me (streamIdInit peerId myId)) j
  have hzero : pingStream.toNat = 0 := rfl
  have hone : streamIdClientInit.toNat = 1 := rfl
  have htwo : streamIdServerInit.toNat = 2 := rfl
  have hle (h : streamIdInit myId peerId = streamIdServerInit) : i ≤ 32767 := outgoing_le h hout
  have hle' (h : streamIdInit peerId myId = streamIdServerInit) : j ≤ 32767 := outgoing_le h hout'
  simp only [Apart, Ne, (outgoing_streamId hout).1, (outgoing_streamId hout').1,
    ← UInt16.toNat_inj, hzero]
  rw [hmine, htheirs]
  simp only [new, KeepsClear, streamIdInit] at hle hle' ⊢
  split
  next hlt =>
      rw [if_neg (String.lt_asymm hlt)] at hle' ⊢
      have := hle' rfl
      rw [hone, htwo]
      omega
  next hge =>
      rw [if_neg hge] at hle
      have := hle rfl
      split
      next hgt =>
          rw [hone, htwo]
          omega
      next heq =>
          rw [if_neg heq] at hle'
          have := hle' rfl
          rw [htwo]
          omega

theorem apart_first_byes :
    Apart 2 1 ↔ KeepsClear "b" "a" 0 0 := by
  refine @apart_iff_keepsClear addressable printBye "b" "a" 8 7 [byeSend] [byeSend] 0 0
    ⟨2, some [byeLength, byeText], [], true⟩ ⟨1, some [byeLength, byeText], [], true⟩ ?_ ?_
  · rw [outgoing_bye _ (by decide)]
    rfl
  · rw [outgoing_bye _ (by decide)]
    rfl

/-- The Bye that has the number of the stream of the pings is lost. -/
theorem outgoing_bye_lost {self : SctpRemote} {n : Nat}
    (hclear : ∀ i < n, self.streamIdAt i ≠ pingStream) (hping : self.streamIdAt n = pingStream) :
    (self.outgoing printBye (List.replicate (n + 1) byeSend))[n]? =
      some ⟨pingStream, none, [], false⟩ := by
  obtain ⟨⟨hlength, -⟩, hmore⟩ := outgoing_takes (takesAll_byes hclear)
  have hlast := nextStreamId_afterAll printBye self (List.replicate n byeSend)
  rw [List.length_replicate] at hlength hlast
  rw [hping] at hlast
  rw [List.replicate_succ', hmore, List.getElem?_append_right hlength.le, hlength, Nat.sub_self]
  generalize self.afterAll printBye _ = after at hlast
  simp only [outgoing, handleOutgoingMessage, hlast, byeSend]
  rfl

/-- The host `b` sends 32768 Byes to `a`.  The last one has the number of the stream of the pings,
which is not opened again, and is lost. -/
theorem not_apart_wrapped :
    ∃ out out', ((new 7 (streamIdInit "b" "a")).outgoing printBye
        (List.replicate 32768 byeSend))[32767]? = some out ∧
      ((new 8 (streamIdInit "a" "b")).outgoing printBye [byeSend])[0]? = some out' ∧
      out = ⟨pingStream, none, [], false⟩ ∧ ¬Apart out.streamId out'.streamId := by
  have hinit : (new 7 (streamIdInit "b" "a")).nextStreamId.toNat = 2 := by decide
  have hclear : ∀ i < 32767, (new 7 (streamIdInit "b" "a")).streamIdAt i ≠ pingStream := by
    intro i hi hping
    have := congrArg UInt16.toNat hping
    rw [toNat_streamIdAt, hinit, show pingStream.toNat = 0 from rfl] at this
    omega
  have hping : (new 7 (streamIdInit "b" "a")).streamIdAt 32767 = pingStream := by
    rw [← UInt16.toNat_inj, toNat_streamIdAt, hinit]
    rfl
  refine ⟨_, ⟨1, some [byeLength, byeText], [], true⟩, outgoing_bye_lost hclear hping, ?_, rfl,
    fun hapart => hapart.1 rfl⟩
  rw [outgoing_bye _ (by decide)]
  rfl

end SctpRemote

end

end CollabMode
