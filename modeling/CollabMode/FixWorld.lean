import CollabMode.EditorHandlers

/-!
# Connections

`fix_world` of `server.rs`, which makes the current world like the ideal one, and
the handlers that change either: the notifications of the editor and the messages
of signaling servers.  `handle` is one turn of the main loop.
-/

namespace CollabMode

/-! ## Addresses -/

/-- The position of `://`. -/
def schemeEnd : Text → Option Nat
  | [] => none
  | c :: s =>
      if [':', '/', '/'].isPrefixOf (c :: s) then some 0 else (schemeEnd s).map (· + 1)

def normalizeSignalingAddr (addr : Text) : Text :=
  match schemeEnd addr with
  | some idx => if idx > 0 then addr else ['w', 's', 's', ':', '/', '/'] ++ addr
  | none => ['w', 's', 's', ':', '/', '/'] ++ addr

/-- Whether the lists have the same hosts. -/
def sameHosts (a b : List ServerId) : Bool := a.all b.contains && b.all a.contains

namespace Server

def isCertTrusted (os : Os) (self : Server) (certHash : Nat) : Bool :=
  self.idealWorld.trusted.any (fun id => os.idHash id == certHash) ||
    self.localTrustedHosts.any (fun id => os.idHash id == certHash)

def helloMsg : Msg :=
  .hey { message := "Nice to meet ya", credentials := "", version := "v1.0.0" }

/-! ## Attempts to connect -/

/-- Send Connect to a signaling server.  The peer has failed if that fails. -/
def sendConnectMessage (os : Os) (self : Server) (peerId : ServerId) (signalingAddr : Text)
    (initiator : Bool) : Turn :=
  let msg := SignalingMsg.connect self.hostId peerId initiator
  if os.signalingSend signalingAddr msg then (self, [.signalingSend signalingAddr msg])
  else
    let reason := "Failed to send Connect message: "
    ({ self with currentWorld := self.currentWorld.markRemoteFailed peerId reason },
      [.signalingSend signalingAddr msg, .notif (.connectionBroke peerId reason)])

def tryConnectRemoteSctp (os : Os) (self : Server) (hostId : ServerId) (signalingAddr : Text) :
    Turn :=
  let self :=
    { self with
      currentWorld := self.currentWorld.setRemoteConnecting1 os.now (os.newConnectionId hostId)
        hostId (.sctp signalingAddr) }
  let (self, effects) := self.sendConnectMessage os hostId signalingAddr true
  (self, .notif (.connecting hostId) :: effects)

def tryConnectRemoteSsh (os : Os) (self : Server) (hostId : ServerId) (sshHost : Text)
    (command : List Text) (projects : List ConfigProject) : Turn :=
  let connectionId := os.newConnectionId hostId
  let self :=
    { self with
      currentWorld := self.currentWorld.setRemoteConnecting1 os.now connectionId hostId
        (.sshStdio sshHost command projects) }
  match os.envoyId with
  | none =>
      let reason := "Failed to generate cert: "
      ({ self with currentWorld := self.currentWorld.markRemoteFailed hostId reason },
        [.notif (.connecting hostId),
          .queue { host := os.envoyName, reqId := none
                   body := .failedToConnect os.envoyName reason connectionId }])
  | some envoyId =>
      -- The connection is made under the name of the envoy.
      ({ self with localTrustedHosts := self.localTrustedHosts.insert envoyId },
        [.notif (.connecting hostId),
          .startConnect envoyId connectionId
            [.envoyInit self.hostId envoyId projects, helloMsg]])

def tryConnectRemote (os : Os) (self : Server) (hostId : ServerId)
    (transport : TransportConfig) : Turn :=
  if hostId = self.hostId then (self, [])
  else
    match transport with
    | .sshStdio sshHost command projects =>
        self.tryConnectRemoteSsh os hostId sshHost command projects
    | .sctp signalingAddr => self.tryConnectRemoteSctp os hostId signalingAddr

/-! ## The passes of fix_world -/

/-- Do something for each of a list, one after the other. -/
def forEach {α : Type} (f : Server → α → Turn) : Server → List α → Turn
  | self, [] => (self, [])
  | self, a :: as =>
      let (self, effects) := f self a
      let (self, effects') := forEach f self as
      (self, effects ++ effects')

/-- Take down a connection that is not wanted. -/
def dropRemote (self : Server) (peer : ServerId) : Turn :=
  ({ self with currentWorld := self.currentWorld.removeRemote peer }, [.disconnect peer])

def notWanted (self : Server) : List ServerId :=
  (AssocMap.keys self.currentWorld.remotes).filter fun peer =>
    (self.idealWorld.remote? peer).isNone

/-- Whether it is time to connect to the peer. -/
def needsStart (os : Os) (self : Server) (peer : ServerId) : Bool :=
  match self.currentWorld.remote? peer with
  | none => true
  | some cur =>
      match cur.status with
      | .pending => true
      | .disconnected nextRetryAt _ => decide (os.now ≥ nextRetryAt)
      | _ => false

def toStart (os : Os) (self : Server) : List (ServerId × TransportConfig) :=
  (self.idealWorld.remotes.filter fun entry => self.needsStart os entry.1).map
    fun entry => (entry.1, entry.2.transport)

/-- Whether the signaling server that the transport needs is there. -/
def signalingReady (self : Server) : TransportConfig → Bool
  | .sctp signalingAddr =>
      (self.currentWorld.signaling? signalingAddr).any fun s => s.status == .bound
  | .sshStdio .. => true

/-- Connect to the peer, unless the signaling server is not there yet. -/
def startRemote (os : Os) (self : Server) (entry : ServerId × TransportConfig) : Turn :=
  if self.signalingReady entry.2 then self.tryConnectRemote os entry.1 entry.2
  else
    ({ self with
        currentWorld := self.currentWorld.setRemotePending (os.newConnectionId entry.1)
          entry.1 entry.2 }, [])

def fixWorldRemotes (os : Os) (self : Server) : Turn :=
  let (self, dropped) := self.forEach dropRemote self.notWanted
  let (self, started) := self.forEach (startRemote os) (self.toStart os)
  (self, dropped ++ started)

def timedOut (os : Os) (self : Server) : List (ServerId × String) :=
  self.currentWorld.remotes.filterMap fun entry =>
    match entry.2.status with
    | .connectingStage1 since =>
        if os.now - since > 10000 then some (entry.1, "stage1 timeout") else none
    | .connectingStage2 since =>
        if os.now - since > 30000 then some (entry.1, "stage2 timeout") else none
    | _ => none

def timeOut (os : Os) (self : Server) (entry : ServerId × String) : Turn :=
  let (peer, reason) := entry
  let currentWorld :=
    if (self.currentWorld.remote? peer).any RemoteState.everConnected then
      self.currentWorld.markRemoteDisconnected os.now peer
    else self.currentWorld.markRemoteFailed peer reason
  ({ self with currentWorld }, [.disconnect peer, .notif (.failedToConnect peer reason)])

def fixWorldTimeouts (os : Os) (self : Server) : Turn :=
  self.forEach (timeOut os) (self.timedOut os)

/-- Signaling servers that have not answered for too long. -/
def bindTimedOut (os : Os) (self : Server) : List Text :=
  self.currentWorld.signaling.filterMap fun entry =>
    match entry.2.status with
    | .binding since => if os.now - since > 10000 then some entry.1 else none
    | _ => none

def failBind (self : Server) (addr : Text) : Turn :=
  ({ self with currentWorld := self.currentWorld.markSignalingFailed addr "bind timeout" },
    [.signalingRemove addr])

def dropSignaling (self : Server) (addr : Text) : Turn :=
  ({ self with currentWorld := self.currentWorld.removeSignaling addr }, [.signalingRemove addr])

def signalingNotWanted (self : Server) : List Text :=
  (AssocMap.keys self.currentWorld.signaling).filter fun addr =>
    (self.idealWorld.signaling? addr).isNone

def toBind (os : Os) (self : Server) : List Text :=
  (AssocMap.keys self.idealWorld.signaling).filter fun addr =>
    match self.currentWorld.signaling? addr with
    | none => true
    | some state =>
        match state.status with
        | .pending => true
        | .disconnected nextRetryAt _ => decide (os.now ≥ nextRetryAt)
        | _ => false

def bindSignaling (os : Os) (self : Server) (addr : Text) : Turn :=
  let currentWorld := self.currentWorld.setSignalingBinding os.now addr
  let trusted := ((self.idealWorld.signaling? addr).map SignalingState.trusted).getD []
  let effects :=
    [Effect.notif (.connectionProgress none s!"Binding to signaling server {showText addr}"),
      .signalingBind addr trusted]
  if os.signalingBind addr then ({ self with currentWorld }, effects)
  else
    ({ self with currentWorld := currentWorld.markSignalingFailed addr "" },
      effects ++ [.notif (.acceptStopped addr "")])

/-- Bound signaling servers that are to be told again who is trusted. -/
def toSync (os : Os) (self : Server) : List Text :=
  (self.currentWorld.signaling.filter fun entry =>
    entry.2.status == .bound && !sameHosts entry.2.trusted self.idealWorld.trusted &&
      !entry.2.trustSentAt.any fun t => os.unixEpochSecs - t < 5).map Prod.fst

def syncTrust (os : Os) (self : Server) (addr : Text) : Turn :=
  ({ self with
      currentWorld := self.currentWorld.modifySignaling addr fun s =>
        { s with trustSentAt := some os.unixEpochSecs } },
    [.signalingSend addr (.trust self.hostId self.idealWorld.trusted)])

def fixWorldSignaling (os : Os) (self : Server) : Turn :=
  let (self, failed) := self.forEach failBind (self.bindTimedOut os)
  let (self, dropped) := self.forEach dropSignaling self.signalingNotWanted
  let (self, bound) := self.forEach (bindSignaling os) (self.toBind os)
  let (self, synced) := self.forEach (syncTrust os) (self.toSync os)
  (self, failed ++ dropped ++ bound ++ synced)

def fixWorld (os : Os) (self : Server) : Turn :=
  let (self, signaling) := self.fixWorldSignaling os
  let (self, remotes) := self.fixWorldRemotes os
  let (self, timeouts) := self.fixWorldTimeouts os
  (self, signaling ++ remotes ++ timeouts)

/-! ## Notifications of the editor -/

def handleAcceptConnection (os : Os) (self : Server) (addr : Text) : Turn :=
  let self :=
    { self with
      idealWorld := { self.idealWorld with
        signaling := AssocMap.insert self.idealWorld.signaling addr { status := .bound } } }
  let bind : Turn :=
    let currentWorld := self.currentWorld.setSignalingBinding os.now addr
    let effects := [Effect.signalingBind addr self.idealWorld.trusted]
    if os.signalingBind addr then ({ self with currentWorld }, effects)
    else
      ({ self with currentWorld := currentWorld.markSignalingFailed addr "" },
        effects ++ [.notif (.errorResponse .internalError none
          "Failed to bind to signaling server: ")])
  match (self.currentWorld.signaling? addr).map SignalingState.status with
  | some .bound => (self, [.notif (.acceptingConnection addr)])
  | some (.binding _) => (self, [])
  | _ => bind

/-- The editor wants a connection to a host. -/
def handleConnect (os : Os) (self : Server) (hostId : ServerId)
    (transport : TransportConfig) : Turn :=
  let transport :=
    match transport with
    | .sctp signalingAddr => .sctp (normalizeSignalingAddr signalingAddr)
    | other => other
  let self :=
    { self with
      idealWorld := self.idealWorld.insertRemote hostId
        { transport, status := .connected, everConnected := false
          retryStrideSecs := initialRetryStrideSecs
          connectionId := os.newConnectionId hostId }
      -- A peer that failed is tried again.
      currentWorld := self.currentWorld.modifyRemote hostId fun state =>
        match state.status with
        | .failed _ => { state with status := .pending }
        | _ => state }
  let note : List Effect :=
    if self.remoteConnected hostId then [.notif (.connected hostId "Already connected")] else []
  (self, note ++ [.fixWorldNext])

def handleStopAccepting (self : Server) (addr : Text) : Turn :=
  ({ self with idealWorld := self.idealWorld.removeSignaling addr },
    [.notif (.acceptStopped addr "Stopped accepting by user request"), .fixWorldNext])

def handleEditorNotification (os : Os) (self : Server) (notif : EditorNotification) : Turn :=
  match notif with
  | .acceptConnection addr => self.handleAcceptConnection os (normalizeSignalingAddr addr)
  | .connect hostId transport => self.handleConnect os hostId transport
  | .sendInfo info file => self.handleSendInfoFromEditor info file
  | .stopAccepting addr => self.handleStopAccepting (normalizeSignalingAddr addr)
  | .unknown _ => (self, [])

/-! ## Messages of signaling servers -/

/-- Put a trusted peer that connects into both worlds. -/
def declarePeer (os : Os) (self : Server) (peerId : ServerId) (signalingAddr : Text) : Server :=
  let transport := TransportConfig.sctp signalingAddr
  let connectionId := os.newConnectionId peerId
  { self with
    idealWorld :=
      { self.idealWorld with
        trusted := self.idealWorld.trusted.insert peerId
        remotes := AssocMap.insert self.idealWorld.remotes peerId
          { transport, status := .connected, everConnected := true
            retryStrideSecs := initialRetryStrideSecs, connectionId } }
    currentWorld :=
      self.currentWorld.setRemoteConnecting2 os.now connectionId peerId transport }

def isConnectingOrConnected (self : Server) (peerId : ServerId) : Bool :=
  match (self.currentWorld.remote? peerId).map RemoteState.status with
  | some (.connectingStage2 _) => true
  | some .connected => true
  | _ => false

def handleSignalingConnectMsg (os : Os) (self : Server) (signalingAddr : Text)
    (peerId : ServerId) (initiator : Bool) : Turn :=
  if self.isConnectingOrConnected peerId then (self, [])
  else if !self.isCertTrusted os (os.idHash peerId) then
    ({ self with
        currentWorld := self.currentWorld.markRemoteFailed peerId "certificate not trusted" },
      [.notif (.errorResponse .permissionDenied none
          s!"Refusing connection from {peerId}: certificate not trusted"),
        .signalingSend signalingAddr
          (.rejected peerId "Provided certificate not in my trusted list")])
  else
    let self := self.declarePeer os peerId signalingAddr
    let (self, sent) :=
      if initiator then self.sendConnectMessage os peerId signalingAddr false else (self, [])
    (self, sent ++ [.startConnect peerId (os.newConnectionId peerId) [helloMsg]])

def handleSignalingMsg (os : Os) (self : Server) (signalingAddr : Text) (msg : SignalingMsg) :
    Turn :=
  let confirm (world : WorldState) (trusted : List ServerId) : WorldState :=
    world.modifySignaling signalingAddr fun s => { s with trusted, trustSentAt := none }
  match msg with
  | .bound _ trusted =>
      ({ self with
          currentWorld := confirm (self.currentWorld.markSignalingBound signalingAddr) trusted },
        [.fixWorldNext, .notif (.acceptingConnection signalingAddr)])
  | .trusted _ trusted =>
      ({ self with currentWorld := confirm self.currentWorld trusted }, [])
  | .connect sender _ initiator =>
      self.handleSignalingConnectMsg os signalingAddr sender initiator
  | .rejected id reason =>
      ({ self with
          currentWorld := self.currentWorld.markRemoteFailed id
            s!"Rejected by signaling: {reason}" },
        [.notif (.rejected .networkError s!"Connection to {id} rejected: {reason}")])
  | .idNotFound id reason =>
      ({ self with
          currentWorld := self.currentWorld.markRemoteFailed id s!"IdNotFound: {reason}" },
        [.notif (.errorResponse .networkError none s!"Signaling error: {reason}")])
  | .trust _ _ | .other => (self, [])

def handleAcceptStopped (os : Os) (self : Server) (signalingAddr : Text) (reason : String) :
    Turn :=
  ({ self with currentWorld := self.currentWorld.markSignalingDisconnected os.now signalingAddr },
    [.notif (.acceptStopped signalingAddr reason), .fixWorldNext])

end Server

/-! ## The main loop -/

/-- What the main loop waits for. -/
inductive Event where
  | request (reqId : RequestId) (req : Request)
  | notification (notif : EditorNotification)
  | message (msg : Message)
  | signaling (addr : Text) (msg : SignalingMsg)
  | acceptStopped (addr : Text) (reason : String)
  | fixWorld
  | fileChanged (path : UnixPath.Path) (timestamp : Instant)
deriving DecidableEq, Repr

/-- One turn of the main loop. -/
def Server.handle (os : Os) (self : Server) (event : Event) : Option Turn :=
  match event with
  | .request reqId req => self.handleEditorRequest os reqId req
  | .notification notif => some (self.handleEditorNotification os notif)
  | .message msg => self.handleRemoteMessage os msg
  | .signaling addr msg => some (self.handleSignalingMsg os addr msg)
  | .acceptStopped addr reason => some (self.handleAcceptStopped os addr reason)
  | .fixWorld => some (self.fixWorld os)
  | .fileChanged path timestamp =>
      (self.resetDocFromDisk os none path (some timestamp)).map Prod.snd

end CollabMode
