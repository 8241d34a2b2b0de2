import CollabMode.Attempts

/-!
# Outcomes of attempts

`fix_world` starts an attempt for a peer that is in the ideal world, and keeps a record of it
under the peer's id.  The connection is made under a name, and the first message that comes in
from it, and the reports that it failed or broke, carry that name.  For an attempt through
signaling the name is the peer's id.  Over ssh it is that of an envoy, which no record has, and
so no outcome of the attempt reaches the peer's record.
-/

namespace CollabMode

/-- The name and the id of the connection that an effect starts, or reports as failed. -/
def Effect.connects? : Effect → Option (ServerId × ConnectionId)
  | .startConnect name connectionId _ => some (name, connectionId)
  | .queue msg => (Event.message msg).failure?
  | _ => none

/-- The first message from a connection. -/
def Event.Greets (name : ServerId) : Event → Prop
  | .message { host, body := .hey _, .. } => host = name
  | _ => False

namespace Server

variable {os : Os} {self : Server}

/-! ## The attempts of fix_world -/

/-- The calls of a loop, each with the server that it is made on. -/
def callsOf {α : Type} (f : Server → α → Turn) : Server → List α → List (Server × α)
  | _, [] => []
  | self, a :: as => (self, a) :: callsOf f (f self a).1 as

theorem mem_forEach {α : Type} {f : Server → α → Turn} {e : Effect} (self : Server)
    (as : List α) :
    e ∈ (self.forEach f as).2 ↔ ∃ call ∈ callsOf f self as, e ∈ (f call.1 call.2).2 := by
  induction as generalizing self with
  | nil => simp [forEach, callsOf]
  | cons a as ih => simp only [forEach, callsOf, List.mem_append, ih, List.exists_mem_cons_iff]

/-- The server when `fix_world` comes to the attempts. -/
def beforeAttempts (os : Os) (self : Server) : Server :=
  let (self, _) := self.fixWorldSignaling os
  (self.forEach dropRemote self.notWanted).1

/-- The attempts that `fix_world` makes, or puts off until a signaling server is there, each
with the server that it is made on. -/
def attemptCalls (os : Os) (self : Server) : List (Server × (ServerId × TransportConfig)) :=
  callsOf (startRemote os) (self.beforeAttempts os) ((self.beforeAttempts os).toStart os)

theorem connects?_forEach {α : Type} {f : Server → α → Turn}
    (hf : ∀ s a, ∀ e ∈ (f s a).2, e.connects? = none) (self : Server) (as : List α) :
    ∀ e ∈ (self.forEach f as).2, e.connects? = none := by
  intro e he
  obtain ⟨call, _, he⟩ := (mem_forEach self as).mp he
  exact hf call.1 call.2 e he

/-- The pass over the signaling servers starts no connections. -/
theorem connects?_fixWorldSignaling (os : Os) (self : Server) :
    ∀ e ∈ (self.fixWorldSignaling os).2, e.connects? = none := by
  have hfail := @connects?_forEach _ failBind fun s addr => by simp [failBind, Effect.connects?]
  have hdrop := @connects?_forEach _ dropSignaling fun s addr => by
    simp [dropSignaling, Effect.connects?]
  have hbind := @connects?_forEach _ (bindSignaling os) fun s addr => by
    simp only [bindSignaling]
    split <;> simp [Effect.connects?]
  have hsync := @connects?_forEach _ (syncTrust os) fun s addr => by
    simp [syncTrust, Effect.connects?]
  simp only [fixWorldSignaling, List.forall_mem_append]
  exact ⟨⟨⟨hfail _ _, hdrop _ _⟩, hbind _ _⟩, hsync _ _⟩

/-- The connections that `fix_world` makes are those of its attempts. -/
theorem mem_fixWorld_iff {e : Effect} (h : e.connects? ≠ none) :
    e ∈ (self.fixWorld os).2 ↔
      ∃ call ∈ self.attemptCalls os, e ∈ (startRemote os call.1 call.2).2 := by
  have hsignaling : e ∉ (self.fixWorldSignaling os).2 :=
    fun he => h (connects?_fixWorldSignaling os self e he)
  have hdrop : ∀ s as, e ∉ (forEach dropRemote s as).2 := fun s as he =>
    h (connects?_forEach (fun s peer => by simp [dropRemote, Effect.connects?]) s as e he)
  have htime : ∀ s as, e ∉ (forEach (timeOut os) s as).2 := fun s as he =>
    h (connects?_forEach (fun s entry => by simp [timeOut, Effect.connects?]) s as e he)
  simp only [fixWorld, fixWorldRemotes, fixWorldTimeouts, List.mem_append, hsignaling, hdrop,
    htime, false_or, or_false, mem_forEach, attemptCalls, beforeAttempts]

/-! ## The name of a connection -/

/-- The connection that an attempt is made with: one that is started at once, or, when the
peer has answered through signaling, then. -/
inductive Connects (os : Os) (call : Server × (ServerId × TransportConfig)) :
    ServerId → ConnectionId → Prop where
  | atOnce {name : ServerId} {connectionId : ConnectionId} {e : Effect}
      (mem : e ∈ (startRemote os call.1 call.2).2)
      (connects : e.connects? = some (name, connectionId)) : Connects os call name connectionId
  | answered {name : ServerId} {connectionId : ConnectionId} {e : Effect} (os' : Os)
      (later : Server) {addr : Text} (initiator : Bool) (transport : call.2.2 = .sctp addr)
      (mem : e ∈ (later.handleSignalingConnectMsg os' addr call.2.1 initiator).2)
      (connects : e.connects? = some (name, connectionId)) : Connects os call name connectionId

/-- The connection to a peer is made under its id. -/
def NamesPeer (os : Os) (peer : ServerId) : TransportConfig → Prop
  | .sctp _ => True
  | .sshStdio .. => os.envoyId.getD os.envoyName = peer

theorem connects?_sendConnectMessage (os : Os) (self : Server) (peerId : ServerId) (addr : Text)
    (initiator : Bool) :
    ∀ e ∈ (self.sendConnectMessage os peerId addr initiator).2, e.connects? = none := by
  unfold sendConnectMessage
  dsimp only
  split <;> simp [Effect.connects?]

theorem name_of_answer {later : Server} {addr : Text} {peer name : ServerId}
    {connectionId : ConnectionId} {initiator : Bool} {e : Effect}
    (hmem : e ∈ (later.handleSignalingConnectMsg os addr peer initiator).2)
    (h : e.connects? = some (name, connectionId)) : name = peer := by
  simp only [handleSignalingConnectMsg] at hmem
  split at hmem
  next => cases hmem
  next =>
      split at hmem
      next =>
          simp only [List.mem_cons, List.not_mem_nil, or_false] at hmem
          rcases hmem with rfl | rfl <;> cases h
      next =>
          rcases List.mem_append.mp hmem with hsent | hstart
          · split at hsent
            next =>
                rw [connects?_sendConnectMessage _ _ _ _ _ e hsent] at h
                cases h
            next => cases hsent
          · cases List.mem_singleton.mp hstart
            cases h
            rfl

/-- What is started at once is the connection to an envoy. -/
theorem name_of_start {entry : ServerId × TransportConfig} {name : ServerId}
    {connectionId : ConnectionId} {e : Effect} (hmem : e ∈ (startRemote os self entry).2)
    (h : e.connects? = some (name, connectionId)) :
    name = entry.1 ↔ NamesPeer os entry.1 entry.2 := by
  obtain ⟨peer, transport⟩ := entry
  simp only [startRemote] at hmem
  split at hmem
  next =>
      simp only [tryConnectRemote] at hmem
      split at hmem
      next => cases hmem
      next =>
          cases transport with
          | sctp addr =>
              simp only [tryConnectRemoteSctp, List.mem_cons] at hmem
              rcases hmem with rfl | hsent
              · cases h
              · rw [connects?_sendConnectMessage _ _ _ _ _ e hsent] at h
                cases h
          | sshStdio sshHost command projects =>
              simp only [tryConnectRemoteSsh] at hmem
              simp only [NamesPeer]
              split at hmem
              next hnone =>
                  simp only [List.mem_cons, List.not_mem_nil, or_false] at hmem
                  rcases hmem with rfl | rfl
                  · cases h
                  · cases h
                    rw [hnone, Option.getD_none]
              next envoyId hsome =>
                  simp only [List.mem_cons, List.not_mem_nil, or_false] at hmem
                  rcases hmem with rfl | rfl
                  · cases h
                  · cases h
                    rw [hsome, Option.getD_some]
  next => cases hmem

theorem Connects.name {call : Server × (ServerId × TransportConfig)} {name : ServerId}
    {connectionId : ConnectionId} (h : Connects os call name connectionId) :
    name = call.2.1 ↔ NamesPeer os call.2.1 call.2.2 := by
  cases h with
  | answered os' later initiator transport mem connects =>
      rw [transport]
      exact iff_of_true (name_of_answer mem connects) trivial
  | atOnce mem connects => exact name_of_start mem connects

/-! ## Outcomes -/

/-- The record of the peer is that of the attempt, which has not ended. -/
def Current (self : Server) (peer : ServerId) (connectionId : ConnectionId) : Prop :=
  ∃ r, self.currentWorld.remote? peer = some r ∧ r.connectionId = connectionId ∧
    r.status.ended = false

/-- The records of all others stay as they are. -/
def SparesOthers (peer : ServerId) (before after : Server) : Prop :=
  ∀ other, other ≠ peer → after.currentWorld.remote? other = before.currentWorld.remote? other

/-- The first message from the connection connects the peer. -/
def GreetingReaches (self : Server) (name peer : ServerId) : Prop :=
  ∀ turn after, turn.2.Greets name → step self turn = some after →
    after.remoteStatus? peer = some .connected ∧ SparesOthers peer self after

/-- A report of the failure of the connection changes the status of the peer. -/
def FailureReaches (self : Server) (name : ServerId) (connectionId : ConnectionId)
    (peer : ServerId) : Prop :=
  ∀ turn after, turn.2.failure? = some (name, connectionId) → step self turn = some after →
    after.remoteStatus? peer ≠ self.remoteStatus? peer ∧ SparesOthers peer self after

variable {peer name : ServerId} {connectionId : ConnectionId}

theorem sparesOthers_modifyRemote (self : Server) (peer : ServerId)
    (f : RemoteState → RemoteState) :
    SparesOthers peer self
      { self with currentWorld := self.currentWorld.modifyRemote peer f } := by
  intro other hne
  simp only [WorldState.remote?, WorldState.modifyRemote, AssocMap.get_modify, if_neg hne]

/-- The turn of a first message. -/
theorem step_of_greets {turn : Os × Event} (h : turn.2.Greets name) :
    ∃ config, step self turn =
      some { self with currentWorld := self.currentWorld.markRemoteConnected name, config } := by
  obtain ⟨os, event⟩ := turn
  simp only [Event.Greets] at h
  split at h
  next host hey reqId => cases h; exact ⟨_, rfl⟩
  next => cases h

theorem greetingReaches_self (hcurrent : self.Current peer connectionId) :
    self.GreetingReaches peer peer := by
  intro turn after hgreets hstep
  obtain ⟨r, hr, _, _⟩ := hcurrent
  obtain ⟨config, hturn⟩ := @step_of_greets self peer turn hgreets
  cases hstep.symm.trans hturn
  refine ⟨?_, fun other hne => sparesOthers_modifyRemote self peer _ other hne⟩
  simp only [remoteStatus?, WorldState.markRemoteConnected, WorldState.remote?,
    WorldState.modifyRemote, AssocMap.get_modify, if_true]
  rw [WorldState.remote?] at hr
  rw [hr]
  rfl

theorem failureReaches_self (hcurrent : self.Current peer connectionId) :
    self.FailureReaches peer connectionId peer := by
  intro turn after hfailure hstep
  obtain ⟨r, hr, hid, hlive⟩ := hcurrent
  obtain ⟨reason, noteReason, hturn⟩ := @Attempting.step_of_failure? self turn _ _ hfailure
  have hrecord : self.connectionId? peer = some connectionId := by
    rw [connectionId?, hr, Option.map_some, hid]
  obtain ⟨f, hended, hmarks⟩ :=
    @Attempting.attemptFailed_marks turn.1 _ _ _ hrecord reason noteReason
  cases hstep.symm.trans hturn
  rw [hmarks]
  refine ⟨?_, sparesOthers_modifyRemote self peer f⟩
  rw [Attempting.remoteStatus?_modifyRemote, hr, Option.map_some, if_pos rfl, remoteStatus?, hr,
    Option.map_some]
  intro heq
  have hdown := hended r
  rw [Option.some.inj heq, hlive] at hdown
  cases hdown

theorem status_attemptFailed (os : Os) (self : Server) (hne : peer ≠ name)
    (connectionId : ConnectionId) (reason noteReason : String) :
    (self.attemptFailed os name connectionId reason noteReason).1.remoteStatus? peer =
      self.remoteStatus? peer := by
  by_cases hrecord : self.connectionId? name = some connectionId
  · obtain ⟨f, _, hmarks⟩ := @Attempting.attemptFailed_marks os _ _ _ hrecord reason noteReason
    simp only [hmarks, Attempting.remoteStatus?_modifyRemote, if_neg hne]
    rfl
  · rw [Attempting.attemptFailed_stale hrecord]

/-- A report under another name leaves the status of the peer as it is. -/
theorem not_failureReaches (hne : peer ≠ name) :
    ¬self.FailureReaches name connectionId peer := by
  intro h
  let broke : Os × Event :=
    (Os.bare, .message
      { host := name, body := .connectionBroke name connectionId, reqId := none })
  have hfailure : broke.2.failure? = some (name, connectionId) := rfl
  obtain ⟨reason, noteReason, hstep⟩ := @Attempting.step_of_failure? self _ _ _ hfailure
  exact (h broke _ hfailure hstep).1 (status_attemptFailed _ self hne _ _ _)

/-- So does a first message. -/
theorem not_greetingReaches (hne : peer ≠ name)
    (hunconnected : self.remoteStatus? peer ≠ some .connected) :
    ¬self.GreetingReaches name peer := by
  intro h
  let hey : Os × Event := (Os.bare, .message
    { host := name, body := .hey { message := "", credentials := "", version := "" }
      reqId := none })
  obtain ⟨config, hstep⟩ := @step_of_greets self name hey rfl
  refine hunconnected ?_
  rw [← (h hey _ rfl hstep).1]
  simp only [remoteStatus?, WorldState.markRemoteConnected, WorldState.remote?,
    WorldState.modifyRemote, AssocMap.get_modify, if_neg hne]

/-- The outcomes of an attempt reach the record of its peer when the connection is made under
the id of the peer, and not otherwise. -/
theorem outcomesReach_iff {call : Server × (ServerId × TransportConfig)}
    (_ : call ∈ self.attemptCalls os) (hconnects : Connects os call name connectionId)
    {later : Server} (hcurrent : later.Current call.2.1 connectionId) :
    later.GreetingReaches name call.2.1 ∧ later.FailureReaches name connectionId call.2.1 ↔
      NamesPeer os call.2.1 call.2.2 := by
  rw [← hconnects.name]
  constructor
  · rintro ⟨_, hfailure⟩
    by_contra hne
    exact not_failureReaches (Ne.symm hne) hfailure
  · rintro rfl
    exact ⟨greetingReaches_self hcurrent, failureReaches_self hcurrent⟩

/-! ## Two attempts -/

/-- A server that wants a connection to the peer 5, and is bound to a signaling server. -/
def wanting (transport : TransportConfig) : Server :=
  let signaling := WorldState.new.markSignalingBound ['s']
  { Server.new 0 ⟨none, [], []⟩
      (signaling.insertRemote 5
        { transport, status := .connected, everConnected := false
          retryStrideSecs := initialRetryStrideSecs, connectionId := 1 }) with
    currentWorld := signaling, localTrustedHosts := [5] }

/-- Envoys have the id 9. -/
def withEnvoy : Os := { Os.bare with newConnectionId := fun _ => 2, envoyId := some 9 }

/-- The peer 5 has answered through signaling. -/
def answered : Server :=
  (((wanting (.sctp ['s'])).fixWorld withEnvoy).1.handleSignalingConnectMsg withEnvoy ['s'] 5
    false).1

theorem outcomesReach_answered :
    ∃ call ∈ (wanting (.sctp ['s'])).attemptCalls withEnvoy,
      Connects withEnvoy call 5 2 ∧ answered.Current 5 2 ∧
        (answered.GreetingReaches 5 call.2.1 ∧ answered.FailureReaches 5 2 call.2.1 ↔
          NamesPeer withEnvoy call.2.1 call.2.2) := by
  have hcall : ((wanting (.sctp ['s'])).beforeAttempts withEnvoy, (5, .sctp ['s'])) ∈
      (wanting (.sctp ['s'])).attemptCalls withEnvoy := List.mem_singleton_self _
  have hconnects : Connects withEnvoy
      ((wanting (.sctp ['s'])).beforeAttempts withEnvoy, (5, .sctp ['s'])) 5 2 :=
    .answered withEnvoy ((wanting (.sctp ['s'])).fixWorld withEnvoy).1 false rfl
      (List.mem_singleton_self _) rfl
  have hcurrent : answered.Current 5 2 := ⟨_, rfl, rfl, rfl⟩
  exact ⟨_, hcall, hconnects, hcurrent, outcomesReach_iff hcall hconnects hcurrent⟩

/-- The peer is reached over ssh, as it should be, and no outcome reaches its record. -/
theorem not_outcomesReach_ssh :
    ∃ call ∈ (wanting (.sshStdio ['b'] [] [])).attemptCalls withEnvoy,
      call.2.1 = 5 ∧ Connects withEnvoy call 9 2 ∧
        ((wanting (.sshStdio ['b'] [] [])).fixWorld withEnvoy).1.Current 5 2 ∧
        ¬((wanting (.sshStdio ['b'] [] [])).fixWorld withEnvoy).1.GreetingReaches 9 5 ∧
        ¬((wanting (.sshStdio ['b'] [] [])).fixWorld withEnvoy).1.FailureReaches 9 2 5 := by
  refine ⟨((wanting (.sshStdio ['b'] [] [])).beforeAttempts withEnvoy, _),
    List.mem_singleton_self _, rfl,
    .atOnce (List.mem_cons_of_mem _ (List.mem_singleton_self _)) rfl, ⟨_, rfl, rfl, rfl⟩, ?_, ?_⟩
  · exact not_greetingReaches (by decide) (by decide)
  · exact not_failureReaches (by decide)

end Server

end CollabMode
