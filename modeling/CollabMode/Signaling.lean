import CollabMode.Lib.AssocMap
import Mathlib.Data.Finset.Dedup
import Mathlib.Data.Finset.Insert

/-!
# The signaling server

`signaling.rs` and `signaling/server.rs`.  An endpoint opens a connection and binds an
id in the headers of the upgrade.  The server keeps, for each id, the channel of a
connection and the endpoints that are trusted.  Each connection has a task of its own,
which ends at its own time and then removes the entry of its id.

`Tasks.step` takes one step of one task at a time.  Between two steps of a task any
other task may go on.

`parseIdentityHeader` and `verifyIdentity` stand for what reads and checks an identity
with base64, X.509 and ECDSA against the clock.
-/

namespace CollabMode

namespace Signaling

abbrev EndpointId := String

/-- A certificate hashed by SHA-256 and printed in hex. -/
abbrev CertDerHash := String

inductive SignalingMsg where
  | bound (id : EndpointId) (trusted : List EndpointId)
  | connect (sender receiver : EndpointId) (initiator : Bool)
  | sdp (sender receiver : EndpointId) (sdp : String)
  | candidate (sender receiver : EndpointId) (candidate : String)
  | trust (sender : EndpointId) (trusted : List EndpointId)
  | trusted (id : EndpointId) (trusted : List EndpointId)
  | idNotFound (id : EndpointId) (reason : String)
  | rejected (id : EndpointId) (reason : String)
  | ping
  | pong
  | terminate (reason : String)
deriving DecidableEq, Repr

/-- What stands after the first `::`. -/
def afterColons : List Char → Option (List Char)
  | ':' :: ':' :: rest => some rest
  | _ :: rest => afterColons rest
  | [] => none

/-- `id_hash`. -/
def idHash (id : EndpointId) : CertDerHash :=
  match afterColons id.toList with
  | some rest => String.ofList rest
  | none => id

/-! ## Binding -/

/-- The headers of an upgrade that the server reads. -/
structure BindHeaders where
  id : Option String
  identity : Option String
  signature : Option String
  trusted : Option String
deriving DecidableEq, Repr

/-- Alice binds her id and trusts bob. -/
def aliceHeaders : BindHeaders :=
  { id := some "alice::AA"
    identity := some "0:cert"
    signature := some "signature"
    trusted := some "bob::BB" }

/-- The one certificate is that of alice. -/
def aliceHash (_ : String) : CertDerHash := "AA"

def aliceVerified (_ _ : String) : Except String CertDerHash := .ok "AA"

def bindHeaderId : String := "X-Collab-Endpoint-Id"
def bindHeaderIdentity : String := "X-Collab-Identity"
def bindHeaderSignature : String := "X-Collab-Signature"
def bindHeaderTrusted : String := "X-Collab-Trusted"

def decodeTrustedHeader (value : String) : List EndpointId :=
  if value.isEmpty then [] else (value.toList.splitOn ',').map String.ofList

/-- A header is what `to_str` gives, which takes only visible ASCII. -/
def headerStr (header : Option String) (name : String) : Except String String :=
  match header with
  | some value => .ok value
  | none => .error s!"missing {name}"

def withContext (name : String) : Except String α → Except String α
  | .ok a => .ok a
  | .error e => .error s!"{name}: {e}"

section

variable {Identity : Type} (parseIdentityHeader : String → Except String Identity)
  (verifyIdentity : Identity → String → Except String CertDerHash)

/-- The endpoint and the endpoints it trusts, or the reason of the refusal. -/
def validateBind (headers : BindHeaders) : Except String (EndpointId × Finset EndpointId) := do
  let id ← headerStr headers.id bindHeaderId
  let identityStr ← headerStr headers.identity bindHeaderIdentity
  let identity ← withContext bindHeaderIdentity (parseIdentityHeader identityStr)
  let signature ← headerStr headers.signature bindHeaderSignature
  let trustedStr ← headerStr headers.trusted bindHeaderTrusted
  let trusted := decodeTrustedHeader trustedStr
  let certHash ← withContext "identity verify" (verifyIdentity identity signature)
  if idHash id ≠ certHash then
    .error s!"bind id hash {idHash id} != cert hash {certHash}"
  else .ok (id, trusted.toFinset)

end

/-! ## The server -/

/-- A connection, and also the channel that sends to it. -/
abbrev ConnId := Nat

structure EndpointInfo where
  msgTx : ConnId
  trusted : Finset EndpointId
deriving DecidableEq

structure Server where
  endpointMap : List (EndpointId × EndpointInfo)
deriving DecidableEq

/-- What is put into a channel. -/
inductive Frame where
  | text (msg : SignalingMsg)
  | close (reason : Option String)
deriving DecidableEq, Repr

/-- What comes out of the stream of a connection. -/
inductive Received where
  /-- The stream has failed. -/
  | error
  | text (msg : SignalingMsg)
  /-- A text that is no message. -/
  | garbled
  /-- A frame that is no text. -/
  | other
deriving DecidableEq, Repr

/-- What comes of handling a message. -/
structure Outcome where
  server : Server
  sent : List (ConnId × Frame)
  /-- The connection is served on. -/
  ok : Bool
deriving DecidableEq

namespace Server

def new : Server := { endpointMap := [] }

/-- Override the trust list of `id`, if it is bound. -/
def updateTrust (self : Server) (id : EndpointId) (trusted : Finset EndpointId) : Server :=
  { self with endpointMap := AssocMap.modify self.endpointMap id fun info =>
      { info with trusted := trusted } }

def removeEndpoint (self : Server) (id : EndpointId) : Server :=
  { self with endpointMap := AssocMap.erase self.endpointMap id }

def getEndpointInfo (self : Server) (id : EndpointId) : Option EndpointInfo :=
  AssocMap.get self.endpointMap id

def register (self : Server) (id : EndpointId) (info : EndpointInfo) : Server :=
  { self with endpointMap := AssocMap.insert self.endpointMap id info }

/-- Put a frame into a channel.  It is an error when nobody takes from the channel. -/
def send (self : Server) (streaming : ConnId → Bool) (c : ConnId) (frame : Frame) : Outcome :=
  if streaming c then { server := self, sent := [(c, frame)], ok := true }
  else { server := self, sent := [], ok := false }

def respUnsupported (msg : String) : Frame := .close (some msg)

/-- The id that a message gives is the one that was bound. -/
def checkId (providedId : EndpointId) (recordedId : Option EndpointId) : Bool :=
  match recordedId with
  | some endpointId => decide (endpointId = providedId)
  | none => true

def wrongId : Frame :=
  respUnsupported "You are using a endpoint id different from the one recorded"

section

variable (streaming : ConnId → Bool) (respTx : ConnId) (endpointId : Option EndpointId)

/-- Pass a message on to its receiver. -/
def route (self : Server) (sender receiver : EndpointId) (msg : SignalingMsg) : Outcome :=
  if checkId sender endpointId then
    match self.getEndpointInfo receiver with
    | none =>
        self.send streaming respTx
          (.text (.idNotFound sender s!"No endpoint found for id: {receiver}"))
    | some receiverInfo =>
        if sender ∈ receiverInfo.trusted then
          self.send streaming receiverInfo.msgTx (.text msg)
        else
          self.send streaming respTx
            (.text (.rejected sender s!"Sender not in {receiver}’s trust list"))
  else { self.send streaming respTx wrongId with ok := false }

def handleMessage (self : Server) : Received → Outcome
  | .error => { server := self, sent := [], ok := false }
  | .garbled => { server := self, sent := [], ok := false }
  | .text (.trust sender trusted) =>
      if checkId sender endpointId then
        (self.updateTrust sender trusted.toFinset).send streaming respTx
          (.text (.trusted sender trusted))
      else { self.send streaming respTx wrongId with ok := false }
  | .text (.connect sender receiver initiator) =>
      self.route streaming respTx endpointId sender receiver (.connect sender receiver initiator)
  | .text (.sdp sender receiver sdp) =>
      self.route streaming respTx endpointId sender receiver (.sdp sender receiver sdp)
  | .text (.candidate sender receiver candidate) =>
      self.route streaming respTx endpointId sender receiver
        (.candidate sender receiver candidate)
  | .text .ping => { server := self, sent := [], ok := true }
  | .text .pong => { server := self, sent := [], ok := true }
  | .text _ =>
      self.send streaming respTx
        (respUnsupported "Send Connect, SDP, Candidate, Trust, or Ping only")
  | .other => self.send streaming respTx (respUnsupported "We only support text message")

end

end Server

/-! ## The tasks -/

/-- How far the task of a connection is.  From the bind on it has an id, and it can
still have its stream, from which frames come and to which the frames in its channel
go. -/
inductive Conn where
  | upgrading
  /-- The loop of `handle_connection`. -/
  | serving (endpointId : EndpointId) (streaming : Bool)
  /-- The loop has ended, and the entry is to be removed. -/
  | ended (endpointId : EndpointId) (streaming : Bool)
deriving DecidableEq, Repr

def Conn.streaming : Conn → Bool
  | .upgrading => false
  | .serving _ streaming => streaming
  | .ended _ streaming => streaming

structure Tasks where
  server : Server
  conns : List (ConnId × Conn)
  /-- The next connection. -/
  next : ConnId
deriving DecidableEq

inductive Event where
  | accept
  /-- The upgrade arrives.  What comes after the check of the headers may fail. -/
  | upgrade (c : ConnId) (headers : BindHeaders) (completes : Bool)
  | receive (c : ConnId) (msg : Received)
  /-- `send_receive_stream` returns. -/
  | streamEnds (c : ConnId)
  /-- The loop finds that nothing more comes from the stream. -/
  | drained (c : ConnId)
  /-- `remove_endpoint` at the end of the task. -/
  | remove (c : ConnId)
deriving DecidableEq, Repr

namespace Tasks

def new : Tasks := { server := .new, conns := [], next := 0 }

def conn (self : Tasks) (c : ConnId) : Option Conn := AssocMap.get self.conns c

def setConn (self : Tasks) (c : ConnId) (conn : Conn) : Tasks :=
  { self with conns := AssocMap.insert self.conns c conn }

def dropConn (self : Tasks) (c : ConnId) : Tasks :=
  { self with conns := AssocMap.erase self.conns c }

def streaming (self : Tasks) (c : ConnId) : Bool :=
  match self.conn c with
  | some conn => conn.streaming
  | none => false

/-- The connection is bound and served, and its stream is there. -/
def Open (self : Tasks) (c : ConnId) : Prop := ∃ id, self.conn c = some (.serving id true)

section

variable {Identity : Type} (parseIdentityHeader : String → Except String Identity)
  (verifyIdentity : Identity → String → Except String CertDerHash)

/-- `handle_connection` after the upgrade has arrived. -/
def upgrade (self : Tasks) (c : ConnId) (headers : BindHeaders) (completes : Bool) : Tasks :=
  match validateBind parseIdentityHeader verifyIdentity headers with
  | .error _ => self.dropConn c
  | .ok (id, trusted) =>
      if completes then
        { self.setConn c (.serving id true) with
          server := self.server.register id { msgTx := c, trusted := trusted } }
      else self.dropConn c

/-- One turn of the loop of `handle_connection`. -/
def receive (self : Tasks) (c : ConnId) (id : EndpointId) (streaming : Bool) (msg : Received) :
    List (ConnId × Frame) × Tasks :=
  let outcome := self.server.handleMessage self.streaming c (some id) msg
  if outcome.ok then (outcome.sent, { self with server := outcome.server })
  else
    let close := outcome.server.send self.streaming c (.close none)
    (outcome.sent ++ close.sent,
      { self.setConn c (.ended id streaming) with server := outcome.server })

/-- The frames that a step puts into the channels, and what it leaves.  `none` means
that the task is not there to take the step. -/
def handle (self : Tasks) : Event → Option (List (ConnId × Frame) × Tasks)
  | .accept => some ([], { self.setConn self.next .upgrading with next := self.next + 1 })
  | .upgrade c headers completes =>
      match self.conn c with
      | some .upgrading =>
          some ([], self.upgrade parseIdentityHeader verifyIdentity c headers completes)
      | _ => none
  | .receive c msg =>
      match self.conn c with
      | some (.serving id streaming) => some (self.receive c id streaming msg)
      | _ => none
  | .streamEnds c =>
      match self.conn c with
      | some (.serving id true) => some ([], self.setConn c (.serving id false))
      | some (.ended id true) => some ([], self.setConn c (.ended id false))
      | _ => none
  | .drained c =>
      match self.conn c with
      | some (.serving id false) => some ([], self.setConn c (.ended id false))
      | _ => none
  | .remove c =>
      match self.conn c with
      | some (.ended id _) =>
          some ([], { self.dropConn c with server := self.server.removeEndpoint id })
      | _ => none

def step (self : Tasks) (event : Event) : Option Tasks :=
  (self.handle parseIdentityHeader verifyIdentity event).map Prod.snd

end

end Tasks

end Signaling

end CollabMode
