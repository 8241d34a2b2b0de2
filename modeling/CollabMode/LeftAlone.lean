import CollabMode.Turns

/-!
# After a peer says Bye

The handler of Bye takes the peer out of the current world and tells `fix_world` to
run.  The ideal world is not changed, and what the editor once asked for stays in
it.  So the peer is connected to again, unless nobody asked for it.

`NotWanted` says that nobody did.  It holds from then on, until the editor asks for
the peer or the peer's own Connect comes in, and while it holds `fix_world` makes
no attempt.
-/

namespace CollabMode

/-- The effect is part of an attempt to connect to the peer.  The editor is told of
each attempt, over SSH as well. -/
def Effect.attempts (peer : ServerId) : Effect → Bool
  | .notif (.connecting hostId) => hostId == peer
  | .signalingSend _ (.connect _ receiver initiator) => receiver == peer && initiator
  | _ => false

/-- The editor asks for the peer, or the peer connects. -/
def Event.asksFor (peer : ServerId) : Event → Bool
  | .notification (.connect hostId _) => hostId == peer
  | .signaling _ (.connect sender _ _) => sender == peer
  | _ => false

namespace Server

/-- The peer is not in the ideal world.  A host does not connect to itself. -/
def NotWanted (peer : ServerId) (self : Server) : Prop :=
  self.idealWorld.remote? peer = none ∨ peer = self.hostId

instance (peer : ServerId) (self : Server) : Decidable (self.NotWanted peer) :=
  inferInstanceAs (Decidable (_ ∨ _))

variable {peer : ServerId}

/-! ## The passes of fix_world -/

/-- `t` wants the same peers as `s`, and nothing in `effects` is an attempt to
connect to `peer`. -/
structure Idle (peer : ServerId) (s t : Server) (effects : List Effect) : Prop where
  idealWorld : t.idealWorld = s.idealWorld
  hostId : t.hostId = s.hostId
  effects : ∀ e ∈ effects, ¬e.attempts peer

theorem Idle.trans {s t u : Server} {effects effects' : List Effect}
    (h : Idle peer s t effects) (h' : Idle peer t u effects') :
    Idle peer s u (effects ++ effects') := by
  refine ⟨h'.idealWorld.trans h.idealWorld, h'.hostId.trans h.hostId, fun e he => ?_⟩
  rcases List.mem_append.mp he with he | he
  · exact h.effects e he
  · exact h'.effects e he

theorem NotWanted.of_idle {self self' : Server} {effects : List Effect}
    (h : self.NotWanted peer) (hidle : Idle peer self self' effects) : self'.NotWanted peer := by
  unfold NotWanted
  rw [hidle.idealWorld, hidle.hostId]
  exact h

/-- A loop is idle when each of its turns is. -/
theorem idle_forEach {α : Type} {f : Server → α → Turn} {self : Server} {as : List α}
    (hf : ∀ s, ∀ a ∈ as, s.hostId = self.hostId → Idle peer s (f s a).1 (f s a).2) :
    Idle peer self (self.forEach f as).1 (self.forEach f as).2 := by
  have hsame : (self.forEach f as).1.idealWorld = self.idealWorld ∧
      (self.forEach f as).1.hostId = self.hostId ∧
      ∀ e ∈ (self.forEach f as).2, ¬e.attempts peer := by
    rw [← and_assoc]
    refine forEach_rule (P := fun s => s.idealWorld = self.idealWorld ∧ s.hostId = self.hostId)
      ?_ ⟨rfl, rfl⟩
    intro s a ha hs
    have h := hf s a ha hs.2
    exact ⟨⟨h.idealWorld.trans hs.1, h.hostId.trans hs.2⟩, h.effects⟩
  exact ⟨hsame.1, hsame.2.1, hsame.2.2⟩

theorem idle_fixWorldSignaling (os : Os) (self : Server) :
    Idle peer self (self.fixWorldSignaling os).1 (self.fixWorldSignaling os).2 := by
  have hfail (s : Server) : Idle peer s (s.forEach failBind (s.bindTimedOut os)).1
      (s.forEach failBind (s.bindTimedOut os)).2 :=
    idle_forEach fun t addr _ _ => ⟨rfl, rfl, by simp [failBind, Effect.attempts]⟩
  have hdrop (s : Server) : Idle peer s (s.forEach dropSignaling s.signalingNotWanted).1
      (s.forEach dropSignaling s.signalingNotWanted).2 :=
    idle_forEach fun t addr _ _ => ⟨rfl, rfl, by simp [dropSignaling, Effect.attempts]⟩
  have hbind (s : Server) : Idle peer s (s.forEach (bindSignaling os) (s.toBind os)).1
      (s.forEach (bindSignaling os) (s.toBind os)).2 :=
    idle_forEach fun t addr _ _ => by
      unfold bindSignaling
      dsimp only
      split <;> exact ⟨rfl, rfl, by simp [Effect.attempts]⟩
  have hsync (s : Server) : Idle peer s (s.forEach (syncTrust os) (s.toSync os)).1
      (s.forEach (syncTrust os) (s.toSync os)).2 :=
    idle_forEach fun t addr _ _ => ⟨rfl, rfl, by simp [syncTrust, Effect.attempts]⟩
  simp only [fixWorldSignaling]
  exact (((hfail self).trans (hdrop _)).trans (hbind _)).trans (hsync _)

theorem idle_fixWorldTimeouts (os : Os) (self : Server) :
    Idle peer self (self.fixWorldTimeouts os).1 (self.fixWorldTimeouts os).2 :=
  idle_forEach fun t entry _ _ => ⟨rfl, rfl, by simp [timeOut, Effect.attempts]⟩

theorem idle_sendConnectMessage (os : Os) (self : Server) {peerId : ServerId} (addr : Text)
    {initiator : Bool} (h : peerId = peer → initiator = false) :
    Idle peer self (self.sendConnectMessage os peerId addr initiator).1
      (self.sendConnectMessage os peerId addr initiator).2 := by
  have hsend : ¬(Effect.signalingSend addr (.connect self.hostId peerId initiator)).attempts
      peer := by
    intro hattempt
    simp only [Effect.attempts, Bool.and_eq_true, beq_iff_eq] at hattempt
    rw [h hattempt.1] at hattempt
    cases hattempt.2
  unfold sendConnectMessage
  dsimp only
  split
  next => exact ⟨rfl, rfl, by simpa using hsend⟩
  next => exact ⟨rfl, rfl, by simpa [Effect.attempts] using hsend⟩

theorem idle_tryConnectRemote (os : Os) (self : Server) {hostId : ServerId}
    (transport : TransportConfig) (h : hostId ≠ peer ∨ peer = self.hostId) :
    Idle peer self (self.tryConnectRemote os hostId transport).1
      (self.tryConnectRemote os hostId transport).2 := by
  unfold tryConnectRemote
  split
  next => exact ⟨rfl, rfl, by simp⟩
  next hself =>
      have hne : hostId ≠ peer := by
        rcases h with h | h
        · exact h
        · rwa [h]
      cases transport with
      | sshStdio sshHost command projects =>
          simp only [tryConnectRemoteSsh]
          split <;> exact ⟨rfl, rfl, by simp [Effect.attempts, hne]⟩
      | sctp addr =>
          simp only [tryConnectRemoteSctp]
          have hquiet : hostId = peer → true = false := fun heq => absurd heq hne
          have hsend := idle_sendConnectMessage os
            { self with
              currentWorld := self.currentWorld.setRemoteConnecting1 os.now
                (os.newConnectionId hostId) hostId (.sctp addr) }
            addr hquiet
          refine ⟨hsend.idealWorld, hsend.hostId, fun e he => ?_⟩
          rcases List.mem_cons.mp he with rfl | he
          · simpa [Effect.attempts] using hne
          · exact hsend.effects e he

theorem remote?_of_mem_toStart {os : Os} {self : Server} {entry : ServerId × TransportConfig}
    (h : entry ∈ self.toStart os) : self.idealWorld.remote? entry.1 ≠ none := by
  obtain ⟨remote, hmem, rfl⟩ := List.mem_map.mp h
  exact AssocMap.get_ne_none_of_mem (List.mem_filter.mp hmem).1

theorem idle_fixWorldRemotes (os : Os) {self : Server} (h : self.NotWanted peer) :
    Idle peer self (self.fixWorldRemotes os).1 (self.fixWorldRemotes os).2 := by
  have hdrop : Idle peer self (self.forEach dropRemote self.notWanted).1
      (self.forEach dropRemote self.notWanted).2 :=
    idle_forEach fun t p _ _ => ⟨rfl, rfl, by simp [dropRemote, Effect.attempts]⟩
  have hwanted := h.of_idle hdrop
  simp only [fixWorldRemotes]
  refine hdrop.trans (idle_forEach fun t entry hentry ht => ?_)
  unfold startRemote
  split
  next =>
      refine idle_tryConnectRemote os t entry.2 ?_
      rcases hwanted with hwanted | hwanted
      · exact .inl fun heq => remote?_of_mem_toStart hentry (heq ▸ hwanted)
      · exact .inr (hwanted.trans ht.symm)
  next => exact ⟨rfl, rfl, by simp⟩

/-- `fix_world` makes no attempt to connect to a peer that nobody asked for. -/
theorem idle_fixWorld (os : Os) {self : Server} (h : self.NotWanted peer) :
    Idle peer self (self.fixWorld os).1 (self.fixWorld os).2 := by
  have hsignaling : Idle peer self (self.fixWorldSignaling os).1 (self.fixWorldSignaling os).2 :=
    idle_fixWorldSignaling os self
  have hremotes := idle_fixWorldRemotes os (h.of_idle hsignaling)
  simp only [fixWorld]
  exact (hsignaling.trans hremotes).trans (idle_fixWorldTimeouts os _)

/-! ## Runs -/

theorem NotWanted.of_rest {self self' : Server} (h : self.NotWanted peer)
    (hrest : self'.rest = self.rest) : self'.NotWanted peer := by
  unfold NotWanted
  rw [idealWorld_of_rest hrest, hostId_of_rest hrest]
  exact h

theorem NotWanted.handleEditorRequest {os : Os} {self self' : Server} {reqId : RequestId}
    {req : Request} {effects : List Effect} (h : self.NotWanted peer)
    (hturn : self.handleEditorRequest os reqId req = some (self', effects)) :
    self'.NotWanted peer := by
  rcases handleEditorRequest_rest hturn with hrest | ⟨_, _, _, rfl⟩ | ⟨_, _, rfl⟩
  · exact h.of_rest hrest
  · exact h
  · unfold handleDeclareProjects
    split
    next => exact h
    next => split <;> exact h

theorem NotWanted.handleConnect {os : Os} {self : Server} (h : self.NotWanted peer)
    {hostId : ServerId} (hne : hostId ≠ peer) (transport : TransportConfig) :
    (self.handleConnect os hostId transport).1.NotWanted peer := by
  refine h.imp_left fun h => ?_
  refine Eq.trans (AssocMap.get_insert_of_ne (Ne.symm hne)) h

theorem NotWanted.declarePeer {os : Os} {self : Server} (h : self.NotWanted peer)
    {peerId : ServerId} (hne : peerId ≠ peer) (addr : Text) :
    (self.declarePeer os peerId addr).NotWanted peer := by
  refine h.imp_left fun h => ?_
  refine Eq.trans (AssocMap.get_insert_of_ne (Ne.symm hne)) h

theorem NotWanted.handleSignalingConnectMsg {os : Os} {self : Server} (h : self.NotWanted peer)
    {peerId : ServerId} (hne : peerId ≠ peer) (addr : Text) (initiator : Bool) :
    (self.handleSignalingConnectMsg os addr peerId initiator).1.NotWanted peer := by
  unfold Server.handleSignalingConnectMsg
  dsimp only
  split
  next => exact h
  next =>
      split
      next => exact h
      next =>
          have hpeer : (self.declarePeer os peerId addr).NotWanted peer := h.declarePeer hne addr
          cases initiator with
          | false => exact hpeer
          | true =>
              exact hpeer.of_idle
                (idle_sendConnectMessage os (self.declarePeer os peerId addr) addr fun _ => rfl)

theorem NotWanted.step {self self' : Server} {turn : Os × Event} (h : self.NotWanted peer)
    (hasks : ¬turn.2.asksFor peer) (hstep : self.step turn = some self') :
    self'.NotWanted peer := by
  obtain ⟨os, event⟩ := turn
  obtain ⟨⟨self', effects⟩, hturn, rfl⟩ := Option.map_eq_some_iff.mp hstep
  cases event with
  | request reqId req => exact h.handleEditorRequest hturn
  | message msg =>
      rcases handleRemoteMessage_rest hturn with hrest | ⟨_, _, rfl⟩
      · exact h.of_rest hrest
      · exact h
  | notification notif =>
      cases notif with
      | connect hostId transport =>
          cases hturn
          exact h.handleConnect (by simpa [Event.asksFor] using hasks) transport
      | acceptConnection addr =>
          have hturn := congrArg Prod.fst (Option.some.inj hturn)
          rw [← hturn]
          simp only [handleEditorNotification, handleAcceptConnection]
          split
          next => exact h
          next => exact h
          next => split <;> exact h
      | sendInfo info file =>
          have hturn := congrArg Prod.fst (Option.some.inj hturn)
          rw [← hturn]
          simp only [handleEditorNotification, handleSendInfoFromEditor]
          split <;> exact h
      | stopAccepting addr => cases hturn; exact h
      | unknown method => cases hturn; exact h
  | signaling addr msg =>
      cases msg with
      | connect sender receiver initiator =>
          have hturn := congrArg Prod.fst (Option.some.inj hturn)
          rw [← hturn]
          exact h.handleSignalingConnectMsg (by simpa [Event.asksFor] using hasks) addr initiator
      | bound => cases hturn; exact h
      | trust => cases hturn; exact h
      | trusted => cases hturn; exact h
      | rejected => cases hturn; exact h
      | idNotFound => cases hturn; exact h
      | other => cases hturn; exact h
  | acceptStopped addr reason => cases hturn; exact h
  | fixWorld =>
      have hidle := h.of_idle (idle_fixWorld os h)
      rwa [Option.some.inj hturn] at hidle
  | fileChanged path timestamp =>
      obtain ⟨⟨res, self', effects⟩, hturn, heq⟩ := Option.map_eq_some_iff.mp hturn
      cases heq
      exact h.of_rest (rest_resetDocFromDisk hturn)

/-! ## After Bye -/

/-- However the run goes on, `fix_world` makes no attempt to connect to the peer, as
long as nobody asks for it. -/
def LeftAlone (peer : ServerId) (self : Server) : Prop :=
  ∀ turns self' os, (∀ turn ∈ turns, ¬turn.2.asksFor peer) →
    Run.run step self turns = some self' → ∀ e ∈ (self'.fixWorld os).2, ¬e.attempts peer

theorem NotWanted.leftAlone {self : Server} (h : self.NotWanted peer) : self.LeftAlone peer := by
  intro turns self' os hquiet hrun
  have hwanted : self'.NotWanted peer :=
    Run.invariant (fun s turn t hs hasks hstep => hs.step hasks hstep) h
      (Run.Meets.of_forall hquiet self) hrun
  exact (idle_fixWorld os hwanted).effects

/-- A peer that nobody asked for is left alone once its Bye has been handled. -/
theorem leftAlone_of_bye {os : Os} {self self' : Server} {reqId : Option RequestId}
    {effects : List Effect}
    (hbye : self.handle os (.message { host := peer, body := .bye, reqId }) =
      some (self', effects)) (hwanted : self.NotWanted peer) : self'.LeftAlone peer := by
  refine NotWanted.leftAlone ?_
  cases hbye
  exact hwanted

/-- The editor asks for the peer 5 over SSH.  The envoy there connects under an id of its own,
9, and greets.  Nobody asked for that id. -/
def envoySession : List (Os × Event) :=
  let os : Os := { Os.bare with newConnectionId := fun _ => 2, envoyId := some 9 }
  [(os, .notification (.connect 5 (.sshStdio ['b'] [] []))),
    (os, .fixWorld),
    (os, .message { host := 9, body := helloMsg, reqId := none })]

theorem leftAlone_of_bye_sample :
    ∃ self, Run.run step (new 0 ⟨none, [], []⟩ WorldState.new) envoySession = some self ∧
      9 ∈ self.localTrustedHosts ∧ (self.handleBye 9).1.LeftAlone 9 :=
  ⟨_, rfl, by decide, @leftAlone_of_bye 9 Os.bare _ _ none _ rfl (by decide)⟩

/-- The turns of a session with the peer 5, which ends with its Bye. -/
def byeSession : List (Os × Event) :=
  let addr := ['w', 's', 's', ':', '/', '/', 'a']
  [(Os.bare, .notification (.acceptConnection addr)),
    (Os.bare, .signaling addr (.bound 0 [5])),
    (Os.bare, .request 1 (.updateConfig [5] [])),
    (Os.bare, .notification (.connect 5 (.sctp addr))),
    (Os.bare, .fixWorld),
    (Os.bare, .signaling addr (.connect 5 0 false)),
    (Os.bare, .message { host := 5, body := helloMsg, reqId := none })]

/-- The editor asked for the peer, so it is connected to again. -/
theorem not_leftAlone_of_bye :
    ∃ self self' effects,
      Run.run step (new 0 ⟨none, [], []⟩ WorldState.new) byeSession = some self ∧
      self.handle Os.bare (.message { host := 5, body := .bye, reqId := none }) =
        some (self', effects) ∧
      ¬self'.LeftAlone 5 := by
  obtain ⟨self, hself⟩ := Option.isSome_iff_exists.mp
    (show (Run.run step (new 0 ⟨none, [], []⟩ WorldState.new) byeSession).isSome by decide)
  refine ⟨self, _, _, hself, rfl, fun h => ?_⟩
  cases hself
  have hattempt := h [] _ Os.bare (by simp) rfl
  revert hattempt
  decide

end Server

end CollabMode
