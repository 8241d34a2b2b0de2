import CollabMode.Turns
import CollabMode.Lib.Run
import Mathlib.Logic.Relation

/-!
# Changes to the worlds

What a turn of the main loop can do to the two worlds of a server, as a series of single
changes to the current one (`Change`).  What each of these keeps, every turn keeps.
-/

namespace CollabMode

namespace WorldState

/-- One change to the current world.  Connection ids are drawn with `newId`. -/
inductive Change (newId : ServerId → ConnectionId) : WorldState → WorldState → Prop where
  | attempt (world : WorldState) (peer : ServerId) (transport : TransportConfig)
      (status : RemoteStatus) :
      Change newId world (world.setRemoteAttempt peer transport status (newId peer))
  | pending (world : WorldState) (peer : ServerId) (transport : TransportConfig) :
      Change newId world (world.setRemotePending (newId peer) peer transport)
  | mark (world : WorldState) (peer : ServerId) {f : RemoteState → RemoteState}
      (id : ∀ r, (f r).connectionId = r.connectionId)
      (stride : ∀ r, 0 < r.retryStrideSecs → 0 < (f r).retryStrideSecs) :
      Change newId world (world.modifyRemote peer f)
  | remove (world : WorldState) (peer : ServerId) : Change newId world (world.removeRemote peer)
  | signaling {world world' : WorldState} (remotes : world'.remotes = world.remotes)
      (nodup : (AssocMap.keys world.signaling).Nodup → (AssocMap.keys world'.signaling).Nodup) :
      Change newId world world'

variable {newId : ServerId → ConnectionId} (world : WorldState)

theorem change_markRemoteConnected (peer : ServerId) :
    Change newId world (world.markRemoteConnected peer) :=
  .mark world peer (fun _ => rfl) fun _ _ => Nat.one_pos

theorem change_markRemoteDisconnected (now : Instant) (peer : ServerId) :
    Change newId world (world.markRemoteDisconnected now peer) :=
  .mark world peer (fun _ => rfl) fun r h => by simp [nextStride, maxRetryStrideSecs, h]

theorem change_markRemoteFailed (peer : ServerId) (reason : String) :
    Change newId world (world.markRemoteFailed peer reason) :=
  .mark world peer (fun _ => rfl) fun _ h => h

theorem change_upsertSignaling (addr : Text) (f : SignalingState → SignalingState)
    (status : SignalingStatus) : Change newId world (world.upsertSignaling addr f status) :=
  .signaling rfl fun h => AssocMap.nodup_insert h addr _

theorem change_modifySignaling (addr : Text) (f : SignalingState → SignalingState) :
    Change newId world (world.modifySignaling addr f) :=
  .signaling rfl fun h => AssocMap.nodup_modify h addr f

theorem change_removeSignaling (addr : Text) : Change newId world (world.removeSignaling addr) :=
  .signaling rfl fun h => AssocMap.nodup_erase h addr

end WorldState

namespace Server

open WorldState

/-- What a turn has done to the worlds. -/
structure Changes (os : Os) (before after : Server) : Prop where
  current : Relation.ReflTransGen (Change os.newConnectionId) before.currentWorld
    after.currentWorld
  ideal : (AssocMap.keys before.idealWorld.remotes).Nodup →
    (AssocMap.keys after.idealWorld.remotes).Nodup

variable {os : Os} {before after : Server}

/-- Both worlds are left alone. -/
theorem Changes.of_same (current : after.currentWorld = before.currentWorld)
    (ideal : after.idealWorld.remotes = before.idealWorld.remotes) : Changes os before after :=
  ⟨by rw [current], by rw [ideal]; exact id⟩

theorem Changes.of_rest (h : after.rest = before.rest) : Changes os before after :=
  .of_same (currentWorld_of_rest h) (congrArg WorldState.remotes (idealWorld_of_rest h))

theorem Changes.trans {s t u : Server} (h : Changes os s t) (h' : Changes os t u) :
    Changes os s u :=
  ⟨h.current.trans h'.current, h'.ideal ∘ h.ideal⟩

/-- One change to the current world. -/
theorem Changes.one (change : Change os.newConnectionId before.currentWorld after.currentWorld)
    (ideal : after.idealWorld.remotes = before.idealWorld.remotes) : Changes os before after :=
  ⟨.single change, by rw [ideal]; exact id⟩

variable (os)

theorem changes_forEach {α : Type} {f : Server → α → Turn} (hf : ∀ s a, Changes os s (f s a).1)
    (self : Server) (as : List α) : Changes os self (self.forEach f as).1 :=
  (forEach_rule (P := fun s => Changes os self s) (E := fun _ => True)
    (fun s a _ hs => ⟨hs.trans (hf s a), fun _ _ => trivial⟩) (.of_same rfl rfl)).1

theorem changes_sendConnectMessage (self : Server) (peerId : ServerId) (addr : Text)
    (initiator : Bool) :
    Changes os self (self.sendConnectMessage os peerId addr initiator).1 := by
  unfold sendConnectMessage
  dsimp only
  split
  next => exact .of_same rfl rfl
  next => exact .one (change_markRemoteFailed _ _ _) rfl

theorem changes_tryConnectRemote (self : Server) (hostId : ServerId)
    (transport : TransportConfig) :
    Changes os self (self.tryConnectRemote os hostId transport).1 := by
  unfold tryConnectRemote
  split
  next => exact .of_same rfl rfl
  next =>
      have hattempt : Changes os self { self with
          currentWorld := self.currentWorld.setRemoteConnecting1 os.now
            (os.newConnectionId hostId) hostId transport } :=
        .one (.attempt self.currentWorld hostId transport _) rfl
      cases transport with
      | sshStdio sshHost command projects =>
          simp only [tryConnectRemoteSsh]
          split
          next => exact hattempt.trans (.one (change_markRemoteFailed _ _ _) rfl)
          next => exact hattempt.trans (.of_same rfl rfl)
      | sctp addr => exact hattempt.trans (changes_sendConnectMessage os _ hostId addr true)

theorem changes_startRemote (self : Server) (entry : ServerId × TransportConfig) :
    Changes os self (startRemote os self entry).1 := by
  unfold startRemote
  split
  next => exact changes_tryConnectRemote os self entry.1 entry.2
  next => exact .one (.pending self.currentWorld entry.1 entry.2) rfl

theorem changes_timeOut (self : Server) (entry : ServerId × String) :
    Changes os self (timeOut os self entry).1 := by
  simp only [timeOut]
  split
  next => exact .one (change_markRemoteDisconnected _ _ _) rfl
  next => exact .one (change_markRemoteFailed _ _ _) rfl

theorem changes_bindSignaling (self : Server) (addr : Text) :
    Changes os self (bindSignaling os self addr).1 := by
  have hbinding : Changes os self { self with
      currentWorld := self.currentWorld.setSignalingBinding os.now addr } :=
    .one (change_upsertSignaling _ _ _ _) rfl
  unfold bindSignaling
  dsimp only
  split
  next => exact hbinding
  next => exact hbinding.trans (.one (change_upsertSignaling _ _ _ _) rfl)

theorem changes_fixWorldSignaling (self : Server) :
    Changes os self (self.fixWorldSignaling os).1 := by
  have hfail := changes_forEach os (f := failBind) fun s addr =>
    .one (change_upsertSignaling _ _ _ _) rfl
  have hdrop := changes_forEach os (f := dropSignaling) fun s addr =>
    .one (change_removeSignaling _ _) rfl
  have hbind := changes_forEach os (changes_bindSignaling os)
  have hsync := changes_forEach os (f := syncTrust os) fun s addr =>
    .one (change_modifySignaling _ _ _) rfl
  simp only [fixWorldSignaling]
  exact (((hfail _ _).trans (hdrop _ _)).trans (hbind _ _)).trans (hsync _ _)

theorem changes_fixWorldRemotes (self : Server) :
    Changes os self (self.fixWorldRemotes os).1 := by
  have hdrop := changes_forEach os (f := dropRemote) fun s q => .one (.remove _ q) rfl
  have hstart := changes_forEach os (changes_startRemote os)
  simp only [fixWorldRemotes]
  exact (hdrop _ _).trans (hstart _ _)

theorem changes_fixWorld (self : Server) : Changes os self (self.fixWorld os).1 := by
  have htime := changes_forEach os (changes_timeOut os)
  simp only [fixWorld, fixWorldTimeouts]
  exact ((changes_fixWorldSignaling os _).trans (changes_fixWorldRemotes os _)).trans (htime _ _)

theorem changes_attemptFailed (self : Server) (q : ServerId) (connectionId : ConnectionId)
    (reason noteReason : String) :
    Changes os self (self.attemptFailed os q connectionId reason noteReason).1 := by
  unfold attemptFailed
  split
  next => exact .of_same rfl rfl
  next =>
      dsimp only
      split
      next => exact .one (change_markRemoteDisconnected _ _ _) rfl
      next => exact .one (change_markRemoteFailed _ _ _) rfl

theorem changes_declarePeer (self : Server) (peerId : ServerId) (addr : Text) :
    Changes os self (self.declarePeer os peerId addr) :=
  ⟨.single (.attempt self.currentWorld peerId _ _), fun h => AssocMap.nodup_insert h peerId _⟩

theorem changes_handleSignalingConnectMsg (self : Server) (addr : Text) (peerId : ServerId)
    (initiator : Bool) :
    Changes os self (self.handleSignalingConnectMsg os addr peerId initiator).1 := by
  unfold handleSignalingConnectMsg
  dsimp only
  split
  next => exact .of_same rfl rfl
  next =>
      split
      next => exact .one (change_markRemoteFailed _ _ _) rfl
      next =>
          have hdeclared := changes_declarePeer os self peerId addr
          cases initiator with
          | false => exact hdeclared
          | true => exact hdeclared.trans (changes_sendConnectMessage os _ peerId addr false)

theorem changes_handleEditorRequest {self after : Server} {reqId : RequestId} {req : Request}
    {effects : List Effect}
    (h : self.handleEditorRequest os reqId req = some (after, effects)) :
    Changes os self after := by
  rcases handleEditorRequest_rest h with hrest | ⟨_, _, _, rfl⟩ | ⟨_, _, rfl⟩
  · exact .of_rest hrest
  · exact .of_same rfl rfl
  · unfold handleDeclareProjects
    split
    next => exact .of_same rfl rfl
    next => split <;> exact .of_same rfl rfl

theorem changes_handleRemoteMessage {self after : Server} {msg : Message} {effects : List Effect}
    (h : self.handleRemoteMessage os msg = some (after, effects)) :
    Changes os self after := by
  rcases handleRemoteMessage_cases h with hrest | ⟨_, _, _, _, rfl⟩ | ⟨_, rfl⟩ | rfl
  · exact .of_rest hrest
  · exact changes_attemptFailed os self _ _ _ _
  · exact .one (change_markRemoteConnected _ _) rfl
  · exact .one (.remove _ _) rfl

theorem changes_handleEditorNotification (self : Server) (notif : EditorNotification) :
    Changes os self (self.handleEditorNotification os notif).1 := by
  cases notif with
  | connect hostId transport =>
      refine ⟨.single (.mark _ _ (fun r => ?_) fun r h => ?_),
        fun h => AssocMap.nodup_insert h hostId _⟩
      · split <;> rfl
      · split <;> exact h
  | acceptConnection addr =>
      simp only [handleEditorNotification, handleAcceptConnection]
      split
      next => exact .of_same rfl rfl
      next => exact .of_same rfl rfl
      next =>
          have hbinding : Relation.ReflTransGen (Change os.newConnectionId) self.currentWorld
              (self.currentWorld.setSignalingBinding os.now (normalizeSignalingAddr addr)) :=
            .single (change_upsertSignaling _ _ _ _)
          split
          next => exact ⟨hbinding, id⟩
          next => exact ⟨hbinding.tail (change_upsertSignaling _ _ _ _), id⟩
  | sendInfo info file =>
      simp only [handleEditorNotification, handleSendInfoFromEditor]
      split <;> exact .of_same rfl rfl
  | stopAccepting addr => exact .of_same rfl rfl
  | unknown method => exact .of_same rfl rfl

theorem changes_handleSignalingMsg (self : Server) (addr : Text) (msg : SignalingMsg) :
    Changes os self (self.handleSignalingMsg os addr msg).1 := by
  cases msg with
  | connect sender receiver initiator => exact changes_handleSignalingConnectMsg os self _ _ _
  | rejected id reason => exact .one (change_markRemoteFailed _ _ _) rfl
  | idNotFound id reason => exact .one (change_markRemoteFailed _ _ _) rfl
  | bound sender trusted =>
      exact ⟨.tail (.single (change_upsertSignaling _ _ _ _)) (change_modifySignaling _ _ _), id⟩
  | trusted sender trusted => exact .one (change_modifySignaling _ _ _) rfl
  | trust | other => exact .of_same rfl rfl

variable {os}

theorem changes_step {self after : Server} {turn : Os × Event}
    (h : self.step turn = some after) : Changes turn.1 self after := by
  obtain ⟨os, event⟩ := turn
  obtain ⟨⟨after, effects⟩, hturn, rfl⟩ := Option.map_eq_some_iff.mp h
  cases event with
  | request reqId req => exact changes_handleEditorRequest os hturn
  | message msg => exact changes_handleRemoteMessage os hturn
  | notification notif =>
      have hchanges := changes_handleEditorNotification os self notif
      rwa [Option.some.inj hturn] at hchanges
  | signaling addr msg =>
      have hchanges := changes_handleSignalingMsg os self addr msg
      rwa [Option.some.inj hturn] at hchanges
  | acceptStopped addr reason =>
      cases hturn
      exact .one (change_modifySignaling _ _ _) rfl
  | fixWorld =>
      have hfix : self.fixWorld os = (after, effects) := Option.some.inj hturn
      have hchanges := changes_fixWorld os self
      rw [hfix] at hchanges
      exact hchanges
  | fileChanged path timestamp =>
      obtain ⟨⟨res, self', effects⟩, hturn, heq⟩ := Option.map_eq_some_iff.mp hturn
      cases heq
      exact .of_rest (rest_resetDocFromDisk hturn)

end Server

end CollabMode
