import CollabMode.Docs
import CollabMode.Lib.AssocMap

/-!
# Worlds

`WorldState` of `server.rs`: signaling servers and peers, with the state of the
connection to each.  A server keeps two, one that says what the editor wants and
one that says what is there.

Instants are milliseconds on some clock.  A connection id is a random number, and
what draws one gets it as an argument.
-/

namespace CollabMode

/-- Milliseconds. -/
abbrev Instant := Nat

abbrev ConnectionId := Nat

abbrev ProjectId := Text

/-- A project as the editor and the configuration file give it. -/
structure ConfigProject where
  name : ProjectId
  path : Text
deriving DecidableEq, Repr

inductive TransportConfig where
  | sctp (signalingAddr : Text)
  | sshStdio (sshHost : Text) (command : List Text) (projects : List ConfigProject)
deriving DecidableEq, Repr

inductive SignalingStatus where
  | pending
  | binding (since : Instant)
  | bound
  | disconnected (nextRetryAt : Instant) (strideSecs : Nat)
  | failed (reason : String)
deriving DecidableEq, Repr

structure SignalingState where
  status : SignalingStatus := .pending
  /-- The trusted hosts that the signaling server has confirmed. -/
  trusted : List ServerId := []
  trustSentAt : Option Nat := none
  retryStrideSecs : Nat := 0
deriving DecidableEq, Repr

inductive RemoteStatus where
  | pending
  | connectingStage1 (since : Instant)
  | connectingStage2 (since : Instant)
  | connected
  | disconnected (nextRetryAt : Instant) (strideSecs : Nat)
  | failed (reason : String)
deriving DecidableEq, Repr

structure RemoteState where
  transport : TransportConfig
  status : RemoteStatus
  everConnected : Bool
  retryStrideSecs : Nat
  /-- Drawn for each attempt to connect. -/
  connectionId : ConnectionId
deriving DecidableEq, Repr

structure WorldState where
  signaling : List (Text × SignalingState)
  remotes : List (ServerId × RemoteState)
  trusted : List ServerId
deriving DecidableEq, Repr

def initialRetryStrideSecs : Nat := 1

def maxRetryStrideSecs : Nat := 60

def nextStride (cur : Nat) : Nat := min (cur * 2) maxRetryStrideSecs

namespace WorldState

def new : WorldState := { signaling := [], remotes := [], trusted := [] }

def remote? (self : WorldState) (peer : ServerId) : Option RemoteState :=
  AssocMap.get self.remotes peer

def signaling? (self : WorldState) (addr : Text) : Option SignalingState :=
  AssocMap.get self.signaling addr

/-- The message is about another attempt than the peer's current one. -/
def isStaleConnectionAttempt (self : WorldState) (peer : ServerId)
    (msgConnectionId : ConnectionId) : Bool :=
  (self.remote? peer).map RemoteState.connectionId != some msgConnectionId

/-! ## Peers -/

def insertRemote (self : WorldState) (peer : ServerId) (state : RemoteState) : WorldState :=
  { self with remotes := AssocMap.insert self.remotes peer state }

def modifyRemote (self : WorldState) (peer : ServerId) (f : RemoteState → RemoteState) :
    WorldState :=
  { self with remotes := AssocMap.modify self.remotes peer f }

/-- A new attempt to connect, with what is known of the peer. -/
def setRemoteAttempt (self : WorldState) (peer : ServerId) (transport : TransportConfig)
    (status : RemoteStatus) (connectionId : ConnectionId) : WorldState :=
  let (everConnected, retryStrideSecs) :=
    match self.remote? peer with
    | some r => (r.everConnected, r.retryStrideSecs)
    | none => (false, initialRetryStrideSecs)
  self.insertRemote peer { transport, status, everConnected, retryStrideSecs, connectionId }

def setRemoteConnecting1 (self : WorldState) (now : Instant) (connectionId : ConnectionId)
    (peer : ServerId) (transport : TransportConfig) : WorldState :=
  self.setRemoteAttempt peer transport (.connectingStage1 now) connectionId

def setRemoteConnecting2 (self : WorldState) (now : Instant) (connectionId : ConnectionId)
    (peer : ServerId) (transport : TransportConfig) : WorldState :=
  self.setRemoteAttempt peer transport (.connectingStage2 now) connectionId

/-- A peer that is known keeps its connection id. -/
def setRemotePending (self : WorldState) (connectionId : ConnectionId) (peer : ServerId)
    (transport : TransportConfig) : WorldState :=
  let connectionId :=
    match self.remote? peer with
    | some r => r.connectionId
    | none => connectionId
  self.setRemoteAttempt peer transport .pending connectionId

def markRemoteConnected (self : WorldState) (peer : ServerId) : WorldState :=
  self.modifyRemote peer fun state =>
    { state with
      status := .connected
      everConnected := true
      retryStrideSecs := initialRetryStrideSecs }

def markRemoteDisconnected (self : WorldState) (now : Instant) (peer : ServerId) : WorldState :=
  self.modifyRemote peer fun state =>
    let stride := state.retryStrideSecs
    { state with
      status := .disconnected (now + stride * 1000) stride
      retryStrideSecs := nextStride stride }

def markRemoteFailed (self : WorldState) (peer : ServerId) (reason : String) : WorldState :=
  self.modifyRemote peer fun state => { state with status := .failed reason }

def removeRemote (self : WorldState) (peer : ServerId) : WorldState :=
  { self with remotes := AssocMap.erase self.remotes peer }

/-! ## Signaling servers -/

/-- Change the state of a signaling server, or add the default one with the change. -/
def upsertSignaling (self : WorldState) (addr : Text) (f : SignalingState → SignalingState)
    (status : SignalingStatus) : WorldState :=
  let state :=
    match self.signaling? addr with
    | some s => f s
    | none => { status }
  { self with signaling := AssocMap.insert self.signaling addr state }

def modifySignaling (self : WorldState) (addr : Text) (f : SignalingState → SignalingState) :
    WorldState :=
  { self with signaling := AssocMap.modify self.signaling addr f }

def setSignalingBinding (self : WorldState) (now : Instant) (addr : Text) : WorldState :=
  self.upsertSignaling addr (fun s => { s with status := .binding now }) (.binding now)

def markSignalingBound (self : WorldState) (addr : Text) : WorldState :=
  self.upsertSignaling addr
    (fun s => { s with status := .bound, retryStrideSecs := initialRetryStrideSecs }) .bound

def markSignalingDisconnected (self : WorldState) (now : Instant) (addr : Text) : WorldState :=
  self.modifySignaling addr fun state =>
    let stride :=
      if state.retryStrideSecs = 0 then initialRetryStrideSecs else state.retryStrideSecs
    { state with
      status := .disconnected (now + stride * 1000) stride
      retryStrideSecs := nextStride stride }

def markSignalingFailed (self : WorldState) (addr : Text) (reason : String) : WorldState :=
  self.upsertSignaling addr (fun s => { s with status := .failed reason }) (.failed reason)

def removeSignaling (self : WorldState) (addr : Text) : WorldState :=
  { self with signaling := AssocMap.erase self.signaling addr }

end WorldState

end CollabMode
