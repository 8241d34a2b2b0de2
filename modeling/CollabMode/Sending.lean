import CollabMode.Refusals
import CollabMode.Outcomes

/-!
# What a host sends to a signaling server

A signaling server, and the worker, go on with an endpoint that is bound as long as it sends
what such an endpoint may send: Connect, SDP, Candidate and Trust messages with its own id, and
Ping and Pong.  All else closes the connection.

A host that refuses the Connect of a peer sends Rejected to the signaling server, which is a
message that only comes from signaling servers.  All other messages of a host are among those
that it may send.  Yet the signaling server also closes the connection of the sender when the
connection of the receiver has ended and its entry is still there.  The worker does not.
-/

namespace CollabMode

open Signaling (EndpointId CertDerHash Frame Tasks)

/-! ## The signaling server -/

namespace Signaling

/-- An endpoint that is bound may send the message. -/
def SignalingMsg.Permitted (id : EndpointId) : SignalingMsg → Prop
  | .trust sender _ => sender = id
  | .connect sender _ _ => sender = id
  | .sdp sender _ _ => sender = id
  | .candidate sender _ _ => sender = id
  | .ping => True
  | .pong => True
  | _ => False

/-- The receiver of a message that goes to another endpoint. -/
def SignalingMsg.receiver? : SignalingMsg → Option EndpointId
  | .connect _ receiver _ => some receiver
  | .sdp _ receiver _ => some receiver
  | .candidate _ receiver _ => some receiver
  | _ => none

/-- The connection goes on, and no Close is put into its channel. -/
def Outcome.Keeps (outcome : Outcome) (c : ConnId) : Prop :=
  outcome.ok = true ∧ ∀ reason, (c, .close reason) ∉ outcome.sent

namespace Server

variable {self : Server} {streaming : ConnId → Bool} {c : ConnId} {id : EndpointId}

/-- A text is put into a channel. -/
theorem keeps_send_text {d : ConnId} {msg : SignalingMsg} :
    (self.send streaming d (.text msg)).Keeps c ↔ streaming d = true := by
  unfold send
  split
  next hd => simp [Outcome.Keeps, hd]
  next hd => simp [Outcome.Keeps, hd]

theorem not_keeps_send_close (hstream : streaming c = true) (reason : Option String) (ok : Bool) :
    ¬Outcome.Keeps { self.send streaming c (.close reason) with ok } c := by
  simp only [send, hstream, if_true]
  exact fun h => h.2 reason (List.mem_singleton_self _)

/-- No message is lost on the way to the receiver: its connection still has its stream, or
there is no entry, or the sender is not trusted. -/
def Delivers (self : Server) (streaming : ConnId → Bool) (sender receiver : EndpointId) : Prop :=
  ∀ info, self.getEndpointInfo receiver = some info → sender ∈ info.trusted →
    streaming info.msgTx = true

theorem keeps_route (hstream : streaming c = true) {sender receiver : EndpointId}
    {msg : SignalingMsg} :
    (self.route streaming c (some id) sender receiver msg).Keeps c ↔
      sender = id ∧ self.Delivers streaming id receiver := by
  unfold route
  split
  next hid =>
      have hid : id = sender := of_decide_eq_true hid
      subst hid
      simp only [Delivers, true_and]
      split
      next hnone => simp [keeps_send_text, hstream, hnone]
      next info hsome =>
          split
          next htrusted => simp [keeps_send_text, hsome, htrusted]
          next htrusted => simp [keeps_send_text, hstream, hsome, htrusted]
  next hid =>
      have hne : sender ≠ id := fun heq => hid (decide_eq_true heq.symm)
      exact iff_of_false (not_keeps_send_close hstream _ _) fun h => hne h.1

/-- A message keeps the connection when its sender may send it and it is not lost. -/
theorem keeps_handleMessage (hstream : streaming c = true) (msg : SignalingMsg) :
    (self.handleMessage streaming c (some id) (.text msg)).Keeps c ↔
      msg.Permitted id ∧
        ∀ receiver, msg.receiver? = some receiver → self.Delivers streaming id receiver := by
  have hclose (reason : String) :
      ¬(self.send streaming c (respUnsupported reason)).Keeps c := by
    simp only [respUnsupported, send, hstream, if_true]
    exact fun h => h.2 _ (List.mem_singleton_self _)
  cases msg with
  | connect sender receiver initiator =>
      simpa [handleMessage, SignalingMsg.Permitted, SignalingMsg.receiver?] using
        keeps_route hstream
  | sdp sender receiver sdp =>
      simpa [handleMessage, SignalingMsg.Permitted, SignalingMsg.receiver?] using
        keeps_route hstream
  | candidate sender receiver candidate =>
      simpa [handleMessage, SignalingMsg.Permitted, SignalingMsg.receiver?] using
        keeps_route hstream
  | trust sender trusted =>
      simp only [handleMessage, SignalingMsg.Permitted, SignalingMsg.receiver?]
      split
      next hid =>
          have hid : id = sender := of_decide_eq_true hid
          simp [keeps_send_text, hstream, hid]
      next hid =>
          have hne : sender ≠ id := fun heq => hid (decide_eq_true heq.symm)
          exact iff_of_false (not_keeps_send_close hstream _ _) fun h => hne h.1
  | ping | pong =>
      simp [handleMessage, Outcome.Keeps, SignalingMsg.Permitted, SignalingMsg.receiver?]
  | bound | trusted | idNotFound | rejected | terminate =>
      exact iff_of_false (hclose _) fun h => h.1

end Server

namespace Tasks

section

variable {Identity : Type} (parseIdentity : String → Except String Identity)
  (verifyIdentity : Identity → String → Except String CertDerHash)

/-- The message is handled, and the connection goes on and is not told to close. -/
def Keeps (self : Tasks) (c : ConnId) (msg : SignalingMsg) : Prop :=
  ∀ frames after,
    self.handle parseIdentity verifyIdentity (.receive c (.text msg)) = some (frames, after) →
      after.Open c ∧ ∀ reason, (c, .close reason) ∉ frames

end

variable {Identity : Type} {parseIdentity : String → Except String Identity}
  {verifyIdentity : Identity → String → Except String CertDerHash}

theorem keeps_iff {self : Tasks} {c : ConnId} {id : EndpointId}
    (hconn : self.conn c = some (.serving id true)) (msg : SignalingMsg) :
    self.Keeps parseIdentity verifyIdentity c msg ↔
      msg.Permitted id ∧ ∀ receiver, msg.receiver? = some receiver →
        self.server.Delivers self.streaming id receiver := by
  have hstream : self.streaming c = true := by
    rw [streaming, hconn]
    rfl
  rw [← Server.keeps_handleMessage hstream]
  simp only [Keeps, handle, hconn, Option.some.injEq, receive, Outcome.Keeps]
  split
  next hok =>
      simp only [hok, true_and]
      constructor
      · intro h
        exact (h _ _ rfl).2
      · rintro h frames after heq
        cases heq
        exact ⟨⟨id, hconn⟩, h⟩
  next hok =>
      refine iff_of_false (fun h => ?_) fun h => hok h.1
      obtain ⟨id', hopen⟩ := (h _ _ rfl).1
      cases (AssocMap.get_insert_self ..).symm.trans hopen

end Tasks

end Signaling

/-! ## The worker -/

namespace Worker

/-- The handlers that a step has started or sent on to their next await. -/
def World.started (before after : World) : List Task := after.tasks.drop before.tasks.length

@[simp] theorem World.started_self (self : World) : self.started self = [] :=
  List.drop_length

@[simp] theorem World.started_spawn (self : World) (task : Task) :
    self.started (self.spawn task) = [task] := List.drop_left

theorem World.started_of_tasks {before after : World} (h : after.tasks = before.tasks) :
    before.started after = [] := by
  rw [started, h, List.drop_length]

/-- What a handler comes to put out, from one of its awaits on.  It may find any world at each
of them. -/
inductive Task.Outputs : Task → Output → Prop where
  | now {task : Task} {output : Output} (world : World) (mem : output ∈ (world.resume task).1) :
      Outputs task output
  | later {task next : Task} {output : Output} (world : World)
      (mem : next ∈ world.started (world.resume task).2) (rest : Outputs next output) :
      Outputs task output

def Output.closes (ws : SocketId) : Output → Bool
  | .close ws' _ _ => ws' == ws
  | _ => false

/-- Neither the message nor what comes of it closes the socket. -/
def World.Keeps (self : World) (ws : SocketId) (msg : Signaling.SignalingMsg) : Prop :=
  ∀ socket, self.socket ws = some socket →
    (∀ output ∈ (self.webSocketMessage ws socket.attachment (.text msg)).1,
      output.closes ws = false) ∧
    ∀ task ∈ self.started (self.webSocketMessage ws socket.attachment (.text msg)).2,
      ∀ output, task.Outputs output → output.closes ws = false

/-- The socket is that of the endpoint, and it has not had too many of its messages
rejected. -/
def World.Bound (self : World) (ws : SocketId) (id : EndpointId) : Prop :=
  ∃ att, self.socket ws = some { attachment := att, closing := false } ∧ att.endpointId = id ∧
    att.rejectCount < rejectThreshold

/-- A handler of Trust, or of a message that a connection which is below the limit has
sent. -/
def Task.Lenient : Task → Prop
  | .replaceTrust _ _ _ => True
  | .isBound routed => routed.att.rejectCount < rejectThreshold
  | .isTrustedBy routed => routed.att.rejectCount < rejectThreshold
  | .route routed => routed.att.rejectCount < rejectThreshold
  | .routeTrusted routed _ _ => routed.att.rejectCount < rejectThreshold
  | _ => False

namespace World

variable {self : World}

theorem closes_send {ws ws' : SocketId} {msg : Signaling.SignalingMsg} :
    ∀ output ∈ (self.send ws' msg).toList, output.closes ws = false := by
  unfold send
  split <;> simp [Output.closes]

theorem closes_reject {ws : SocketId} {routed : Routed} {reply : Signaling.SignalingMsg} :
    ∀ output ∈ (self.reject routed reply).1, output.closes ws = false := by
  have hsend := @closes_send self ws routed.ws reply
  unfold reject
  split
  next output houtput =>
      rw [houtput] at hsend
      exact hsend
  next => exact List.forall_mem_nil _

/-- Below the limit a rejected message starts nothing. -/
theorem started_reject {routed : Routed} (h : routed.att.rejectCount < rejectThreshold)
    (reply : Signaling.SignalingMsg) : self.started (self.reject routed reply).2 = [] := by
  have hlimit : ¬routed.att.rejectCount + 1 > rejectThreshold := Nat.not_lt_of_le h
  unfold reject
  split
  next =>
      simp only [bumpReject, if_neg hlimit]
      exact started_of_tasks rfl
  next => exact started_self self

end World

/-- What comes of such a handler closes nothing. -/
theorem Task.Lenient.resume {task : Task} (h : task.Lenient) (world : World) (ws : SocketId) :
    (∀ output ∈ (world.resume task).1, output.closes ws = false) ∧
      ∀ next ∈ world.started (world.resume task).2, next.Lenient := by
  have hnone {after : World} (hstarted : world.started after = []) :
      ∀ next ∈ world.started after, next.Lenient := by
    rw [hstarted]
    exact List.forall_mem_nil _
  have hnext {next : Task} (hlenient : next.Lenient) :
      ∀ next' ∈ world.started (world.spawn next), next'.Lenient := by
    rw [World.started_spawn]
    exact List.forall_mem_singleton.mpr hlenient
  cases task with
  | replaceTrust ws' sender trusted =>
      simp only [World.resume]
      split
      next => exact ⟨World.closes_send, hnone (World.started_of_tasks rfl)⟩
      next => exact ⟨List.forall_mem_nil _, hnone (World.started_self _)⟩
  | isBound routed =>
      simp only [World.resume]
      split
      next => exact ⟨List.forall_mem_nil _, hnext h⟩
      next => exact ⟨World.closes_reject, hnone (World.started_reject h _)⟩
  | isTrustedBy routed =>
      simp only [World.resume]
      split
      next => exact ⟨List.forall_mem_nil _, hnext h⟩
      next => exact ⟨World.closes_reject, hnone (World.started_reject h _)⟩
  | route routed =>
      simp only [World.resume]
      split
      next => exact ⟨World.closes_send, hnone (World.started_self _)⟩
      next => exact ⟨List.forall_mem_nil _, hnext h⟩
  | routeTrusted routed receiverWs endpointId =>
      simp only [World.resume]
      split <;> exact ⟨World.closes_send, hnone (World.started_self _)⟩
  | upsertBindingAndTrust | handOver | addToBlacklist | deleteEndpoint => cases h

theorem Task.Lenient.outputs {task : Task} {output : Output} (h : task.Lenient)
    (houtput : task.Outputs output) (ws : SocketId) : output.closes ws = false := by
  induction houtput with
  | now world mem => exact (h.resume world ws).1 _ mem
  | later world mem rest ih => exact ih ((h.resume world ws).2 _ mem)

namespace World

theorem closes_close {self : World} {ws : SocketId} {att : Attachment}
    (h : self.socket ws = some { attachment := att, closing := false }) (code : Nat)
    (reason : String) : .close ws code reason ∈ (self.close ws code reason).1 := by
  simp only [close, h]
  exact List.mem_singleton_self _

/-- The socket stays open when its endpoint may send the message. -/
theorem keeps_iff {self : World} {ws : SocketId} {id : EndpointId} (hbound : self.Bound ws id)
    (msg : Signaling.SignalingMsg) : self.Keeps ws msg ↔ msg.Permitted id := by
  obtain ⟨att, hsocket, rfl, hlimit⟩ := hbound
  have hclosed (code : Nat) (reason : String)
      (h : self.webSocketMessage ws att (.text msg) = self.close ws code reason) :
      ¬self.Keeps ws msg := by
    intro hkeeps
    have hopen := (hkeeps _ hsocket).1
    rw [h] at hopen
    have hcloses := hopen _ (closes_close hsocket code reason)
    simp [Output.closes] at hcloses
  have hspawned (task : Task) (hlenient : task.Lenient)
      (h : self.webSocketMessage ws att (.text msg) = ([], self.spawn task)) :
      self.Keeps ws msg := by
    intro socket hsome
    cases hsocket.symm.trans hsome
    rw [h]
    refine ⟨List.forall_mem_nil _, fun task' hmem output houtput => ?_⟩
    rw [started_spawn] at hmem
    cases List.mem_singleton.mp hmem
    exact hlenient.outputs houtput ws
  have hrouted (routed : Routed)
      (h : self.webSocketMessage ws att (.text msg) = ([], self.spawn (.isBound routed)))
      (hatt : routed.att = att) : self.Keeps ws msg := by
    have hlenient : (Task.isBound routed).Lenient := by
      rw [Task.Lenient, hatt]
      exact hlimit
    exact hspawned _ hlenient h
  cases msg with
  | connect sender receiver initiator =>
      by_cases hid : sender = att.endpointId
      · exact iff_of_true (hrouted _ (if_neg (not_not_intro hid)) rfl) hid
      · exact iff_of_false (hclosed _ _ (if_pos hid)) hid
  | sdp sender receiver sdp =>
      by_cases hid : sender = att.endpointId
      · exact iff_of_true (hrouted _ (if_neg (not_not_intro hid)) rfl) hid
      · exact iff_of_false (hclosed _ _ (if_pos hid)) hid
  | candidate sender receiver candidate =>
      by_cases hid : sender = att.endpointId
      · exact iff_of_true (hrouted _ (if_neg (not_not_intro hid)) rfl) hid
      · exact iff_of_false (hclosed _ _ (if_pos hid)) hid
  | trust sender trusted =>
      by_cases hid : sender = att.endpointId
      · exact iff_of_true (hspawned (.replaceTrust ..) trivial (if_neg (not_not_intro hid))) hid
      · exact iff_of_false (hclosed _ _ (if_pos hid)) hid
  | ping | pong =>
      refine iff_of_true (fun socket _ => ⟨List.forall_mem_nil _, ?_⟩) trivial
      simp [webSocketMessage]
  | bound | trusted | idNotFound | rejected | terminate =>
      exact iff_of_false (hclosed _ _ rfl) id

end World

end Worker

/-! ## The host -/

/-- A message as the host sends it.  `name` gives the ids of hosts as those of endpoints. -/
def wire (name : ServerId → EndpointId) : SignalingMsg → Option Signaling.SignalingMsg
  | .bound id trusted => some (.bound (name id) (trusted.map name))
  | .connect sender receiver initiator => some (.connect (name sender) (name receiver) initiator)
  | .trust sender trusted => some (.trust (name sender) (trusted.map name))
  | .trusted id trusted => some (.trusted (name id) (trusted.map name))
  | .idNotFound id reason => some (.idNotFound (name id) reason)
  | .rejected id reason => some (.rejected (name id) reason)
  | .other => none

/-- The socket of an attempt to connect, which an actor creates with its own id. -/
structure Sock where
  myId : EndpointId
  peerId : EndpointId

namespace Sock

def sendSdp (self : Sock) (sdp : String) : Signaling.SignalingMsg := .sdp self.myId self.peerId sdp

def sendCandidate (self : Sock) (candidate : String) : Signaling.SignalingMsg :=
  .candidate self.myId self.peerId candidate

inductive Sends (self : Sock) : Signaling.SignalingMsg → Prop where
  | sdp (sdp : String) : Sends self (self.sendSdp sdp)
  | candidate (candidate : String) : Sends self (self.sendCandidate candidate)

end Sock

/-- The effect sends nothing to a signaling server, or Connect or Trust with the host's own
id. -/
def Effect.OwnSignal (hostId : ServerId) : Effect → Prop
  | .signalingSend _ (.connect sender _ _) => sender = hostId
  | .signalingSend _ (.trust sender _) => sender = hostId
  | .signalingSend _ _ => False
  | _ => True

namespace Server

variable {name : ServerId → EndpointId} {os : Os} {self : Server}

/-- What a host sends to signaling servers in a turn, and from the socket of the connection that
it starts. -/
inductive Sends (name : ServerId → EndpointId) (os : Os) (self : Server) :
    Event → Signaling.SignalingMsg → Prop where
  | reaction {addr addr' : Text} {incoming msg : SignalingMsg} {sent : Signaling.SignalingMsg}
      (mem : .signalingSend addr' msg ∈ (self.handleSignalingMsg os addr incoming).2)
      (wire : wire name msg = some sent) : Sends name os self (.signaling addr incoming) sent
  | fixWorld {addr : Text} {msg : SignalingMsg} {sent : Signaling.SignalingMsg}
      (mem : .signalingSend addr msg ∈ (self.fixWorld os).2)
      (wire : wire name msg = some sent) : Sends name os self .fixWorld sent
  | sock {addr : Text} {incoming : SignalingMsg} {peer : ServerId} {connectionId : ConnectionId}
      {msgs : List Msg} {sent : Signaling.SignalingMsg}
      (mem : .startConnect peer connectionId msgs ∈ (self.handleSignalingMsg os addr incoming).2)
      (sends : Sock.Sends { myId := name self.hostId, peerId := name peer } sent) :
      Sends name os self (.signaling addr incoming) sent

/-- A peer whose certificate is not trusted connects, and is turned away. -/
def TurnsAway (os : Os) (self : Server) : Event → Prop
  | .signaling _ (.connect peer _ _) =>
      self.isConnectingOrConnected peer = false ∧ self.isCertTrusted os (os.idHash peer) = false
  | _ => False

theorem own_sendConnectMessage (os : Os) (self : Server) (peer : ServerId) (addr : Text)
    (initiator : Bool) :
    ∀ e ∈ (self.sendConnectMessage os peer addr initiator).2, e.OwnSignal self.hostId := by
  unfold sendConnectMessage
  dsimp only
  split <;> simp [Effect.OwnSignal]

theorem own_tryConnectRemote (os : Os) (self : Server) (peer : ServerId)
    (transport : TransportConfig) :
    ∀ e ∈ (self.tryConnectRemote os peer transport).2, e.OwnSignal self.hostId := by
  unfold tryConnectRemote
  split
  next => exact List.forall_mem_nil _
  next =>
      cases transport with
      | sshStdio sshHost command projects =>
          simp only [tryConnectRemoteSsh]
          split <;> simp [Effect.OwnSignal]
      | sctp addr =>
          let connecting : Server :=
            { self with
              currentWorld := self.currentWorld.setRemoteConnecting1 os.now
                (os.newConnectionId peer) peer (.sctp addr) }
          have hsend : ∀ e ∈ (connecting.sendConnectMessage os peer addr true).2,
              e.OwnSignal self.hostId := own_sendConnectMessage os connecting peer addr true
          exact List.forall_mem_cons.mpr ⟨trivial, hsend⟩

/-- The host keeps its id and sends under it. -/
structure Owns (s t : Server) (effects : List Effect) : Prop where
  hostId : t.hostId = s.hostId
  own : ∀ e ∈ effects, e.OwnSignal s.hostId

theorem Owns.trans {s t u : Server} {effects effects' : List Effect} (h : Owns s t effects)
    (h' : Owns t u effects') : Owns s u (effects ++ effects') :=
  ⟨h'.hostId.trans h.hostId, List.forall_mem_append.mpr ⟨h.own, h.hostId ▸ h'.own⟩⟩

theorem owns_forEach {α : Type} {f : Server → α → Turn} (hf : ∀ s a, Owns s (f s a).1 (f s a).2)
    (self : Server) (as : List α) :
    Owns self (self.forEach f as).1 (self.forEach f as).2 := by
  have hloop : (self.forEach f as).1.hostId = self.hostId ∧
      ∀ e ∈ (self.forEach f as).2, e.OwnSignal self.hostId := by
    refine forEach_rule (P := fun s => s.hostId = self.hostId) (fun s a _ hs => ?_) rfl
    exact ⟨(hf s a).hostId.trans hs, hs ▸ (hf s a).own⟩
  exact ⟨hloop.1, hloop.2⟩

/-- What `fix_world` sends to signaling servers is Connect and Trust with the host's own id. -/
theorem owns_fixWorld (os : Os) (self : Server) :
    Owns self (self.fixWorld os).1 (self.fixWorld os).2 := by
  have hfail := owns_forEach (f := failBind) fun s addr =>
    ⟨rfl, by simp [failBind, Effect.OwnSignal]⟩
  have hdrop := owns_forEach (f := dropSignaling) fun s addr =>
    ⟨rfl, by simp [dropSignaling, Effect.OwnSignal]⟩
  have hbind := owns_forEach (f := bindSignaling os) fun s addr => by
    unfold bindSignaling
    dsimp only
    split <;> exact ⟨rfl, by simp [Effect.OwnSignal]⟩
  have hsync := owns_forEach (f := syncTrust os) fun s addr =>
    ⟨rfl, by simp [syncTrust, Effect.OwnSignal]⟩
  have hremote := owns_forEach (f := dropRemote) fun s peer =>
    ⟨rfl, by simp [dropRemote, Effect.OwnSignal]⟩
  have hstart := owns_forEach (f := startRemote os) fun s entry => by
    unfold startRemote
    split
    next =>
        exact ⟨hostId_of_tables (leavesTables_tryConnectRemote os s entry.1 entry.2).tables,
          own_tryConnectRemote os s entry.1 entry.2⟩
    next => exact ⟨rfl, List.forall_mem_nil _⟩
  have htime := owns_forEach (f := timeOut os) fun s entry =>
    ⟨rfl, by simp [timeOut, Effect.OwnSignal]⟩
  simp only [fixWorld, fixWorldSignaling, fixWorldRemotes, fixWorldTimeouts]
  exact (((((hfail _ _).trans (hdrop _ _)).trans (hbind _ _)).trans (hsync _ _)).trans
    ((hremote _ _).trans (hstart _ _))).trans (htime _ _)

/-- A host that trusts the peer answers with Connect and its own id. -/
theorem own_handleSignalingConnectMsg {addr : Text} {peer receiver : ServerId} {initiator : Bool}
    (h : ¬self.TurnsAway os (.signaling addr (.connect peer receiver initiator))) :
    ∀ e ∈ (self.handleSignalingConnectMsg os addr peer initiator).2,
      e.OwnSignal self.hostId := by
  unfold handleSignalingConnectMsg
  split
  next => exact List.forall_mem_nil _
  next hconnecting =>
      split
      next huntrusted =>
          exact absurd ⟨Bool.not_eq_true _ ▸ hconnecting, by simpa using huntrusted⟩ h
      next =>
          dsimp only
          refine List.forall_mem_append.mpr ⟨?_, by simp [Effect.OwnSignal]⟩
          split
          next => exact own_sendConnectMessage os (self.declarePeer os peer addr) peer addr false
          next => exact List.forall_mem_nil _

/-- A refusal goes to the signaling server. -/
theorem effects_of_turnsAway {addr : Text} {peer receiver : ServerId} {initiator : Bool}
    (h : self.TurnsAway os (.signaling addr (.connect peer receiver initiator))) :
    (self.handleSignalingConnectMsg os addr peer initiator).2 =
      [.notif (.errorResponse .permissionDenied none
          s!"Refusing connection from {peer}: certificate not trusted"),
        .signalingSend addr (.rejected peer "Provided certificate not in my trusted list")] := by
  simp only [handleSignalingConnectMsg, h.1, h.2, Bool.false_eq_true, if_false, Bool.not_false,
    if_true]

/-- All messages but Connect are only noted. -/
theorem connect_of_mem {addr : Text} {incoming : SignalingMsg} {e : Effect}
    (hmem : e ∈ (self.handleSignalingMsg os addr incoming).2) (hnote : ∀ note, e ≠ .notif note)
    (hnext : e ≠ .fixWorldNext) :
    ∃ peer receiver initiator, incoming = .connect peer receiver initiator := by
  cases incoming with
  | connect peer receiver initiator => exact ⟨peer, receiver, initiator, rfl⟩
  | bound | trusted | rejected | idNotFound | trust | other =>
      simp [handleSignalingMsg, hnote, hnext] at hmem

theorem permitted_of_own {addr : Text} {hostId : ServerId} {msg : SignalingMsg}
    {sent : Signaling.SignalingMsg} (h : (Effect.signalingSend addr msg).OwnSignal hostId)
    (hwire : wire name msg = some sent) : sent.Permitted (name hostId) := by
  cases msg with
  | connect sender receiver initiator => cases hwire; exact congrArg name h
  | trust sender trusted => cases hwire; exact congrArg name h
  | bound | trusted | rejected | idNotFound | other => cases h

/-- A host sends what it may send, but for the refusal. -/
theorem Sends.permitted_iff {event : Event} {sent : Signaling.SignalingMsg}
    (h : self.Sends name os event sent) :
    sent.Permitted (name self.hostId) ↔ ¬self.TurnsAway os event := by
  cases h with
  | fixWorld mem wire =>
      exact iff_of_true (permitted_of_own ((owns_fixWorld os self).own _ mem) wire) id
  | @reaction addr addr' incoming msg _ mem wire =>
      obtain ⟨peer, receiver, initiator, rfl⟩ := connect_of_mem mem (by simp) (by simp)
      by_cases hturnsAway : self.TurnsAway os (.signaling addr (.connect peer receiver initiator))
      · refine iff_of_false ?_ (not_not_intro hturnsAway)
        rw [handleSignalingMsg, effects_of_turnsAway hturnsAway] at mem
        simp only [List.mem_cons, List.not_mem_nil, or_false, reduceCtorEq, false_or,
          Effect.signalingSend.injEq] at mem
        obtain ⟨-, rfl⟩ := mem
        cases wire
        exact id
      · exact iff_of_true (permitted_of_own (own_handleSignalingConnectMsg hturnsAway _ mem) wire)
          hturnsAway
  | @sock addr incoming peer connectionId msgs _ mem sends =>
      have hpermitted : sent.Permitted (name self.hostId) := by
        cases sends <;> rfl
      refine iff_of_true hpermitted fun hturnsAway => ?_
      obtain ⟨_, _, _, rfl⟩ := connect_of_mem mem (by simp) (by simp)
      rw [handleSignalingMsg, effects_of_turnsAway hturnsAway] at mem
      simp at mem

/-! ## The host and both servers -/

section

variable {Identity : Type} (parseIdentity : String → Except String Identity)
  (verifyIdentity : Identity → String → Except String CertDerHash)

/-- Neither the signaling server nor the worker closes the connection of the sender. -/
def StaysBound (tasks : Tasks) (c : Signaling.ConnId) (world : Worker.World)
    (ws : Worker.SocketId) (sent : Signaling.SignalingMsg) : Prop :=
  tasks.Keeps parseIdentity verifyIdentity c sent ∧ world.Keeps ws sent

variable {parseIdentity verifyIdentity}

/-- A host stays bound after a message that it sends when the turn turns no peer away, and
the connection of a receiver that trusts the host has not ended.  No other messages keep it
bound. -/
theorem staysBound_iff {event : Event} {sent : Signaling.SignalingMsg}
    (h : self.Sends name os event sent) {tasks : Tasks} {c : Signaling.ConnId}
    (hconn : tasks.conn c = some (.serving (name self.hostId) true)) {world : Worker.World}
    {ws : Worker.SocketId} (hbound : world.Bound ws (name self.hostId)) :
    StaysBound parseIdentity verifyIdentity tasks c world ws sent ↔
      ¬self.TurnsAway os event ∧ ∀ receiver, sent.receiver? = some receiver →
        tasks.server.Delivers tasks.streaming (name self.hostId) receiver := by
  rw [StaysBound, Tasks.keeps_iff hconn, Worker.World.keeps_iff hbound, h.permitted_iff]
  constructor
  · rintro ⟨⟨hallowed, hdelivers⟩, -⟩
    exact ⟨hallowed, hdelivers⟩
  · rintro ⟨hallowed, hdelivers⟩
    exact ⟨⟨hallowed, hdelivers⟩, hallowed⟩

end

/-! ## A stranger, and a peer that leaves -/

/-- The certificate is the one that the signature names. -/
def signedHash (_ : Unit) (signature : String) : Except String CertDerHash := .ok signature

/-- Alice, and then bob, who trust each other, and bob's connection has ended. -/
def bobLeaves : List Signaling.Event :=
  let alice := { Signaling.aliceHeaders with signature := some "AA" }
  let bob : Signaling.BindHeaders :=
    { id := some "bob::BB", identity := some "0:cert", signature := some "BB"
      trusted := some "alice::AA" }
  [.accept, .upgrade 0 alice true, .accept, .upgrade 1 bob true, .streamEnds 1]

/-- Alice is bound to the worker. -/
def aliceFetches : List Worker.Event := [.fetch Signaling.aliceHeaders true, .resume 0, .resume 0]

/-- Alice is the host 0, bob 1 and carol 2. -/
def endpointName (id : ServerId) : EndpointId :=
  if id = 0 then "alice::AA" else if id = 1 then "bob::BB" else "carol::CC"

/-- Alice is bound and wants to connect to bob. -/
def wantsBob : List (Os × Event) :=
  let addr := "wss://a".toList
  [(Os.bare, .notification (.acceptConnection addr)), (Os.bare, .signaling addr (.bound 0 [])),
    (Os.bare, .notification (.connect 1 (.sctp addr)))]

/-- Carol's Connect comes in. -/
def carolCalls : Event := .signaling "wss://a".toList (.connect 2 0 true)

/-- Alice, who wants to connect to bob. -/
def wantingBob : Server :=
  (Run.run step (.new 0 ⟨none, [], []⟩ .new) wantsBob).getD (.new 0 ⟨none, [], []⟩ .new)

theorem sends_connect :
    wantingBob.Sends endpointName Os.bare .fixWorld (.connect "alice::AA" "bob::BB" true) :=
  @Sends.fixWorld _ _ _ "wss://a".toList _ _
    (List.mem_cons_of_mem _ (List.mem_singleton_self _)) rfl

theorem sends_rejected :
    wantingBob.Sends endpointName Os.bare carolCalls
      (.rejected "carol::CC" "Provided certificate not in my trusted list") :=
  @Sends.reaction _ _ _ _ "wss://a".toList _ _ _
    (List.mem_cons_of_mem _ (List.mem_singleton_self _)) rfl

/-- Her connections. -/
structure AliceBound (tasks : Tasks) (world : Worker.World) : Prop where
  conn : tasks.conn 0 = some (.serving (endpointName wantingBob.hostId) true)
  socket : world.Bound 0 (endpointName wantingBob.hostId)

/-- Alice calls bob through a signaling server that knows nobody but her. -/
theorem staysBound_caller :
    ∃ tasks world,
      Run.run (Tasks.step anyIdentity signedHash) .new (bobLeaves.take 2) = some tasks ∧
      Run.run (Worker.World.step anyIdentity anyCert anySignature) .new aliceFetches =
        some world ∧
      (StaysBound anyIdentity signedHash tasks 0 world 0
          (.connect "alice::AA" "bob::BB" true) ↔
        ¬wantingBob.TurnsAway Os.bare .fixWorld ∧ ∀ receiver,
          (Signaling.SignalingMsg.connect "alice::AA" "bob::BB" true).receiver? = some receiver →
            tasks.server.Delivers tasks.streaming (endpointName wantingBob.hostId) receiver) := by
  have hbound : ∃ tasks world,
      Run.run (Tasks.step anyIdentity signedHash) .new (bobLeaves.take 2) = some tasks ∧
      Run.run (Worker.World.step anyIdentity anyCert anySignature) .new aliceFetches =
        some world ∧ AliceBound tasks world :=
    ⟨_, _, rfl, rfl, rfl, _, rfl, rfl, by decide⟩
  obtain ⟨tasks, world, htasks, hworld, halice⟩ := hbound
  exact ⟨tasks, world, htasks, hworld, staysBound_iff sends_connect halice.conn halice.socket⟩

/-- The refusal of carol closes both connections of alice.  So does, at the signaling server, the
call to bob while he leaves. -/
theorem not_staysBound :
    ∃ tasks world,
      Run.run step (.new 0 ⟨none, [], []⟩ .new) wantsBob = some wantingBob ∧
      Run.run (Tasks.step anyIdentity signedHash) .new bobLeaves = some tasks ∧
      Run.run (Worker.World.step anyIdentity anyCert anySignature) .new aliceFetches =
        some world ∧
      AliceBound tasks world ∧
      (∃ sent, wantingBob.Sends endpointName Os.bare carolCalls sent ∧
        ¬tasks.Keeps anyIdentity signedHash 0 sent ∧ ¬world.Keeps 0 sent) ∧
      ∃ sent, wantingBob.Sends endpointName Os.bare .fixWorld sent ∧
        ¬tasks.Keeps anyIdentity signedHash 0 sent := by
  have hbound : ∃ tasks world,
      Run.run (Tasks.step anyIdentity signedHash) .new bobLeaves = some tasks ∧
      Run.run (Worker.World.step anyIdentity anyCert anySignature) .new aliceFetches =
        some world ∧ AliceBound tasks world ∧
      tasks.server.getEndpointInfo "bob::BB" = some { msgTx := 1, trusted := {"alice::AA"} } ∧
      tasks.streaming 1 = false :=
    ⟨_, _, rfl, rfl, ⟨rfl, _, rfl, rfl, by decide⟩, rfl, rfl⟩
  obtain ⟨tasks, world, htasks, hworld, halice, hbob, hended⟩ := hbound
  refine ⟨tasks, world, rfl, htasks, hworld, halice,
    ⟨_, sends_rejected, fun h => ?_, fun h => ?_⟩, _, sends_connect, fun h => ?_⟩
  · exact ((Tasks.keeps_iff halice.conn _).mp h).1
  · exact (Worker.World.keeps_iff halice.socket _).mp h
  · have hdelivers := ((Tasks.keeps_iff halice.conn _).mp h).2 "bob::BB" rfl
    cases hended.symm.trans (hdelivers _ hbob (Finset.mem_singleton_self _))

end Server

end CollabMode
