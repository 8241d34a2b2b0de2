import CollabMode.Signaling

/-!
# The signaling worker

`worker/src/index.ts`, `d1.ts` and the tables of `migrations/0001_init.sql`.  The worker
does what the signaling server does, with a database for the bindings and the trust
lists and a durable object for the sockets of each endpoint.

What runs between two awaits runs alone.  A `Task` is what is left of a handler at an
await, and `World.run` lets one of them go on to its next await.  A statement of the
database is made when its task goes on.  A batch is made as a whole or not at all.

`parseIdentity`, `hashCert` and `verifyIdentity` stand for what reads and checks an
identity.
-/

namespace CollabMode

namespace Worker

open Signaling (EndpointId CertDerHash SignalingMsg BindHeaders)

/-! ## The database -/

structure D1 where
  /-- The primary key is the endpoint. -/
  bindings : List (EndpointId × CertDerHash)
  /-- The primary key is the whole row. -/
  trusted : List (EndpointId × EndpointId)
  blacklist : List CertDerHash
deriving DecidableEq, Repr

namespace D1

def new : D1 := { bindings := [], trusted := [], blacklist := [] }

def isBlacklisted (db : D1) (certHash : CertDerHash) : Bool := decide (certHash ∈ db.blacklist)

/-- `INSERT OR IGNORE`. -/
def addToBlacklist (db : D1) (certHash : CertDerHash) : D1 :=
  if certHash ∈ db.blacklist then db else { db with blacklist := db.blacklist ++ [certHash] }

/-- One `INSERT INTO trusted` for each peer.  It fails when the row is there. -/
def insertTrusted (endpointId : EndpointId) :
    List EndpointId → List (EndpointId × EndpointId) → Option (List (EndpointId × EndpointId))
  | [], rows => some rows
  | peer :: peers, rows =>
      if (endpointId, peer) ∈ rows then none
      else insertTrusted endpointId peers (rows ++ [(endpointId, peer)])

/-- `DELETE FROM trusted WHERE endpoint_id = ?`. -/
def deleteTrusted (db : D1) (endpointId : EndpointId) : List (EndpointId × EndpointId) :=
  db.trusted.filter fun row => row.1 ≠ endpointId

def upsertBindingAndTrust (db : D1) (endpointId : EndpointId) (certHash : CertDerHash)
    (trusted : List EndpointId) : Option D1 :=
  (insertTrusted endpointId trusted (db.deleteTrusted endpointId)).map fun rows =>
    { db with
      bindings := AssocMap.insert db.bindings endpointId certHash
      trusted := rows }

def replaceTrust (db : D1) (endpointId : EndpointId) (trusted : List EndpointId) : Option D1 :=
  (insertTrusted endpointId trusted (db.deleteTrusted endpointId)).map fun rows =>
    { db with trusted := rows }

def isBound (db : D1) (endpointId : EndpointId) : Bool :=
  (AssocMap.get db.bindings endpointId).isSome

def isTrustedBy (db : D1) (endpointId candidate : EndpointId) : Bool :=
  decide ((endpointId, candidate) ∈ db.trusted)

def deleteEndpoint (db : D1) (endpointId : EndpointId) : D1 :=
  { db with
    bindings := AssocMap.erase db.bindings endpointId
    trusted := db.deleteTrusted endpointId }

end D1

/-! ## Sockets and tasks -/

/-- An upgrade, and the socket that it becomes. -/
abbrev SocketId := Nat

structure Attachment where
  endpointId : EndpointId
  certHash : CertDerHash
  rejectCount : Nat
  /-- A fresh bind for the endpoint has taken over. -/
  replaced : Bool
deriving DecidableEq, Repr

structure Socket where
  attachment : Attachment
  /-- `close` was called on the socket. -/
  closing : Bool
deriving DecidableEq, Repr

/-- A Connect, SDP or Candidate message on its way. -/
structure Routed where
  ws : SocketId
  /-- The attachment of the socket when the message came. -/
  att : Attachment
  sender : EndpointId
  receiver : EndpointId
  msg : SignalingMsg
deriving DecidableEq, Repr

/-- What is left of a handler at an await. -/
inductive Task where
  | upsertBindingAndTrust (ws : SocketId) (id : EndpointId) (certHash : CertDerHash)
      (trusted : List EndpointId)
  /-- The upgrade is handed over to the durable object. -/
  | handOver (ws : SocketId) (id : EndpointId) (certHash : CertDerHash)
  | replaceTrust (ws : SocketId) (sender : EndpointId) (trusted : List EndpointId)
  | isBound (routed : Routed)
  | isTrustedBy (routed : Routed)
  /-- The message is on its way to the durable object of the receiver. -/
  | route (routed : Routed)
  /-- It is there, and it goes to a socket if the endpoint trusts the sender. -/
  | routeTrusted (routed : Routed) (receiverWs : SocketId) (endpointId : EndpointId)
  | addToBlacklist (ws : SocketId) (certHash : CertDerHash)
  | deleteEndpoint (endpointId : EndpointId)
deriving DecidableEq, Repr

inductive Output where
  | response (ws : SocketId) (status : Nat)
  | send (ws : SocketId) (msg : SignalingMsg)
  | close (ws : SocketId) (code : Nat) (reason : String)
deriving DecidableEq, Repr

/-- What comes on a socket. -/
inductive Raw where
  | binary
  /-- A text that is no message. -/
  | garbled
  | text (msg : SignalingMsg)
deriving DecidableEq, Repr

structure World where
  db : D1
  /-- The sockets of all durable objects, the oldest first. -/
  sockets : List (SocketId × Socket)
  tasks : List Task
  /-- The next upgrade. -/
  next : SocketId
deriving DecidableEq, Repr

/-- `REJECT_THRESHOLD`. -/
def rejectThreshold : Nat := 100

namespace World

def new : World := { db := .new, sockets := [], tasks := [], next := 0 }

def socket (self : World) (ws : SocketId) : Option Socket := AssocMap.get self.sockets ws

def spawn (self : World) (task : Task) : World := { self with tasks := self.tasks ++ [task] }

/-- The sockets of a durable object. -/
def getWebSockets (self : World) (id : EndpointId) : List (SocketId × Socket) :=
  self.sockets.filter fun entry => entry.2.attachment.endpointId = id

/-- `ws.send`, which throws once `close` was called. -/
def send (self : World) (ws : SocketId) (msg : SignalingMsg) : Option Output :=
  match self.socket ws with
  | some { closing := false, .. } => some (.send ws msg)
  | _ => none

/-- `ws.close`. -/
def close (self : World) (ws : SocketId) (code : Nat) (reason : String) : List Output × World :=
  match self.socket ws with
  | some { closing := false, attachment } =>
      ([.close ws code reason],
        { self with sockets := AssocMap.insert self.sockets ws { closing := true, attachment } })
  | _ => ([], self)

/-! ## The durable object -/

/-- The sockets of the endpoint are marked and closed. -/
def replaceSocket (id : EndpointId) (socket : Socket) : Socket :=
  if socket.attachment.endpointId = id then
    { closing := true, attachment := { socket.attachment with replaced := true } }
  else socket

def rebinding (self : World) (id : EndpointId) : List Output :=
  (self.getWebSockets id).filterMap fun entry =>
    if entry.2.closing then none else some (.close entry.1 1000 "rebinding")

def handleUpgrade (self : World) (ws : SocketId) (id : EndpointId) (certHash : CertDerHash) :
    List Output × World :=
  if id = "" ∨ certHash = "" then ([.response ws 500], self)
  else
    let attachment := { endpointId := id, certHash, rejectCount := 0, replaced := false }
    let sockets := AssocMap.mapVals (replaceSocket id) self.sockets
    (self.rebinding id ++ [.response ws 101],
      { self with sockets := AssocMap.insert sockets ws { closing := false, attachment } })

/-- `serializeAttachment`. -/
def serializeAttachment (self : World) (ws : SocketId) (att : Attachment) : World :=
  { self with sockets := AssocMap.modify self.sockets ws fun socket =>
      { socket with attachment := att } }

def bumpReject (self : World) (ws : SocketId) (att : Attachment) : World :=
  let att := { att with rejectCount := att.rejectCount + 1 }
  let self := self.serializeAttachment ws att
  if att.rejectCount > rejectThreshold then self.spawn (.addToBlacklist ws att.certHash)
  else self

/-- The sender gets a reply.  Nothing more is done when the socket is gone. -/
def reject (self : World) (routed : Routed) (reply : SignalingMsg) : List Output × World :=
  match self.send routed.ws reply with
  | some output => ([output], self.bumpReject routed.ws routed.att)
  | none => ([], self)

def idNotFound (routed : Routed) : SignalingMsg :=
  .idNotFound routed.sender s!"No endpoint found for id: {routed.receiver}"

def wrongId : String := "You are using a endpoint id different from the one recorded"

/-- `webSocketMessage` up to its first await. -/
def webSocketMessage (self : World) (ws : SocketId) (att : Attachment) :
    Raw → List Output × World
  | .binary => self.close ws 1003 "We only support text message"
  | .garbled => self.close ws 1003 "Unsupported"
  | .text .ping => ([], self)
  | .text .pong => ([], self)
  | .text (.trust sender trusted) =>
      if sender ≠ att.endpointId then self.close ws 1003 wrongId
      else ([], self.spawn (.replaceTrust ws sender trusted))
  | .text (.connect sender receiver initiator) =>
      if sender ≠ att.endpointId then self.close ws 1003 wrongId
      else ([], self.spawn
        (.isBound { ws, att, sender, receiver, msg := .connect sender receiver initiator }))
  | .text (.sdp sender receiver sdp) =>
      if sender ≠ att.endpointId then self.close ws 1003 wrongId
      else ([], self.spawn
        (.isBound { ws, att, sender, receiver, msg := .sdp sender receiver sdp }))
  | .text (.candidate sender receiver candidate) =>
      if sender ≠ att.endpointId then self.close ws 1003 wrongId
      else ([], self.spawn
        (.isBound { ws, att, sender, receiver, msg := .candidate sender receiver candidate }))
  | .text _ => self.close ws 1003 "Send Connect, SDP, Candidate, Trust, or Ping only"

/-- `cleanup`, for a socket that is closed or broken. -/
def cleanup (self : World) (ws : SocketId) (att : Attachment) : World :=
  let self := { self with sockets := AssocMap.erase self.sockets ws }
  if att.replaced then self else self.spawn (.deleteEndpoint att.endpointId)

/-- A handler goes on to its next await. -/
def resume (self : World) : Task → List Output × World
  | .upsertBindingAndTrust ws id certHash trusted =>
      match self.db.upsertBindingAndTrust id certHash trusted with
      | some db => ([], { self with db }.spawn (.handOver ws id certHash))
      | none => ([.response ws 500], self)
  | .handOver ws id certHash => self.handleUpgrade ws id certHash
  | .replaceTrust ws sender trusted =>
      match self.db.replaceTrust sender trusted with
      | some db => ((self.send ws (.trusted sender trusted)).toList, { self with db })
      | none => ([], self)
  | .isBound routed =>
      if self.db.isBound routed.receiver then ([], self.spawn (.isTrustedBy routed))
      else self.reject routed (idNotFound routed)
  | .isTrustedBy routed =>
      if self.db.isTrustedBy routed.receiver routed.sender then
        ([], self.spawn (.route routed))
      else
        self.reject routed
          (.rejected routed.sender s!"{routed.receiver} does not trust sender")
  | .route routed =>
      match self.getWebSockets routed.receiver with
      | [] => ((self.send routed.ws (idNotFound routed)).toList, self)
      | (receiverWs, socket) :: _ =>
          ([], self.spawn (.routeTrusted routed receiverWs socket.attachment.endpointId))
  | .routeTrusted routed receiverWs endpointId =>
      if self.db.isTrustedBy endpointId routed.sender then
        ((self.send receiverWs routed.msg).toList, self)
      else
        ((self.send routed.ws
          (.rejected routed.sender s!"{endpointId} does not trust sender")).toList, self)
  | .addToBlacklist ws certHash =>
      { self with db := self.db.addToBlacklist certHash }.close ws 1008
        "abuse: too many rejected attempts"
  | .deleteEndpoint endpointId => ([], { self with db := self.db.deleteEndpoint endpointId })

end World

/-! ## The entry point -/

section

variable {Identity : Type} (parseIdentity : String → Except String Identity)
  (hashCert : Identity → CertDerHash)
  (verifyIdentity : Identity → String → Except String CertDerHash)

def decodeTrustedHeader (value : String) : List EndpointId :=
  if value.length = 0 then [] else (value.toList.splitOn ',').map String.ofList

/-- `fetch` up to the upsert, or the status of a refusal.  `success` is the answer of the
rate limiter. -/
def authenticate (db : D1) (headers : BindHeaders) (success : Bool) :
    Except Nat (EndpointId × CertDerHash × List EndpointId) :=
  match headers with
  | { id := some id, identity := some identityHeader, signature := some sig,
      trusted := some trustedHeader } =>
      match parseIdentity identityHeader with
      | .error _ => .error 401
      | .ok identity =>
          let certHash := hashCert identity
          if !success then .error 429
          else if db.isBlacklisted certHash then .error 403
          else
            match verifyIdentity identity sig with
            | .error _ => .error 401
            | .ok _ =>
                if Signaling.idHash id ≠ certHash then .error 401
                else .ok (id, certHash, decodeTrustedHeader trustedHeader)
  | _ => .error 401

inductive Event where
  | fetch (headers : BindHeaders) (success : Bool)
  /-- A handler goes on. -/
  | resume (i : Nat)
  | message (ws : SocketId) (raw : Raw)
  /-- The socket is closed or broken. -/
  | closed (ws : SocketId)
  /-- The timer closes the socket. -/
  | expire (ws : SocketId)
deriving DecidableEq, Repr

namespace World

def fetch (self : World) (headers : BindHeaders) (success : Bool) : List Output × World :=
  let ws := self.next
  let self := { self with next := ws + 1 }
  match authenticate parseIdentity hashCert verifyIdentity self.db headers success with
  | .error status => ([.response ws status], self)
  | .ok (id, certHash, trusted) =>
      ([], self.spawn (.upsertBindingAndTrust ws id certHash trusted))

/-- One event.  `none` means that there is no such task or socket. -/
def handle (self : World) : Event → Option (List Output × World)
  | .fetch headers success =>
      some (self.fetch parseIdentity hashCert verifyIdentity headers success)
  | .resume i =>
      (self.tasks[i]?).map fun task => { self with tasks := self.tasks.eraseIdx i }.resume task
  | .message ws raw =>
      (self.socket ws).map fun socket => self.webSocketMessage ws socket.attachment raw
  | .closed ws => (self.socket ws).map fun socket => ([], self.cleanup ws socket.attachment)
  | .expire ws => (self.socket ws).map fun _ => self.close ws 1000 "lifetime"

def step (self : World) (event : Event) : Option World :=
  (self.handle parseIdentity hashCert verifyIdentity event).map Prod.snd

end World

end

end Worker

end CollabMode
