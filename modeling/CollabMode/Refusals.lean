import CollabMode.Attempts
import CollabMode.Signaling
import CollabMode.Worker

/-!
# Refused Connect messages

A signaling server that does not know the receiver of a Connect answers with IdNotFound, and one
whose receiver does not trust the sender with Rejected.  The Rust server and the worker put the
sender's id into the answer, which is the id of the host that gets it.  The host takes it for the
id of the peer, and marks the record of that id as failed.  So the record of the peer stays as
it is.
-/

namespace CollabMode

open Signaling (EndpointId CertDerHash Frame Tasks)

/-! ## The signaling server -/

namespace Signaling

/-- The id in an answer that refuses a message. -/
def SignalingMsg.refused? : SignalingMsg → Option EndpointId
  | .idNotFound id _ => some id
  | .rejected id _ => some id
  | _ => none

/-- The sender of a message that goes to another endpoint. -/
def SignalingMsg.sender? : SignalingMsg → Option EndpointId
  | .connect sender _ _ => some sender
  | .sdp sender _ _ => some sender
  | .candidate sender _ _ => some sender
  | _ => none

/-- What is put into a channel is the frame. -/
theorem Server.mem_send {self : Server} {streaming : ConnId → Bool} {c d : ConnId}
    {frame frame' : Frame} (h : (d, frame') ∈ (self.send streaming c frame).sent) :
    d = c ∧ frame' = frame := by
  unfold Server.send at h
  split at h
  next => exact Prod.mk.injEq .. ▸ List.mem_singleton.mp h
  next => cases h

/-- A refusal goes back, with the id of the sender. -/
theorem Server.refused_route {self : Server} {streaming : ConnId → Bool} {respTx d : ConnId}
    {endpointId : Option EndpointId} {sender receiver id : EndpointId} {msg answer : SignalingMsg}
    (hmsg : msg.refused? = none)
    (h : (d, .text answer) ∈ (self.route streaming respTx endpointId sender receiver msg).sent)
    (hrefused : answer.refused? = some id) : d = respTx ∧ id = sender := by
  unfold Server.route at h
  split at h
  next =>
      split at h
      next =>
          obtain ⟨rfl, hframe⟩ := Server.mem_send h
          cases hframe
          exact ⟨rfl, (Option.some.inj hrefused).symm⟩
      next =>
          split at h
          next =>
              obtain ⟨-, hframe⟩ := Server.mem_send h
              cases hframe
              cases hmsg.symm.trans hrefused
          next =>
              obtain ⟨rfl, hframe⟩ := Server.mem_send h
              cases hframe
              exact ⟨rfl, (Option.some.inj hrefused).symm⟩
  next =>
      obtain ⟨-, hframe⟩ := Server.mem_send h
      cases hframe

theorem Tasks.refused_receive {Identity : Type}
    {parseIdentity : String → Except String Identity}
    {verifyIdentity : Identity → String → Except String CertDerHash} {self after : Tasks}
    {c d : ConnId} {sender receiver id : EndpointId} {initiator : Bool}
    {frames : List (ConnId × Frame)} {answer : SignalingMsg}
    (h : self.handle parseIdentity verifyIdentity
      (.receive c (.text (.connect sender receiver initiator))) = some (frames, after))
    (hmem : (d, .text answer) ∈ frames) (hrefused : answer.refused? = some id) :
    d = c ∧ id = sender := by
  simp only [Tasks.handle] at h
  split at h
  next id' streaming _ =>
      have hmem : (d, .text answer) ∈
          (self.receive c id' streaming (.text (.connect sender receiver initiator))).1 := by
        rw [Option.some.inj h]
        exact hmem
      unfold Tasks.receive at hmem
      dsimp only at hmem
      split at hmem
      next => exact Server.refused_route rfl hmem hrefused
      next =>
          rcases List.mem_append.mp hmem with hmem | hmem
          · exact Server.refused_route rfl hmem hrefused
          · obtain ⟨-, hframe⟩ := Server.mem_send hmem
            cases hframe
  next => cases h

end Signaling

/-! ## The worker -/

namespace Worker

def Task.routed? : Task → Option Routed
  | .isBound routed => some routed
  | .isTrustedBy routed => some routed
  | .route routed => some routed
  | .routeTrusted routed _ _ => some routed
  | _ => none

/-- The sender is the one that the message names. -/
def Routed.OfSender (routed : Routed) : Prop := routed.msg.sender? = some routed.sender

namespace World

theorem mem_send {self : World} {ws ws' : SocketId} {msg msg' : Signaling.SignalingMsg}
    (h : .send ws' msg' ∈ (self.send ws msg).toList) : ws' = ws ∧ msg' = msg := by
  unfold send at h
  split at h
  next => cases List.mem_singleton.mp h; exact ⟨rfl, rfl⟩
  next => cases h

theorem mem_reject {self : World} {routed : Routed} {ws : SocketId}
    {reply msg : Signaling.SignalingMsg} (h : .send ws msg ∈ (self.reject routed reply).1) :
    ws = routed.ws ∧ msg = reply := by
  unfold reject at h
  split at h
  next output hsend =>
      cases List.mem_singleton.mp h
      have hsent : .send ws msg ∈ (self.send routed.ws reply).toList := by
        rw [hsend]
        exact List.mem_cons_self
      exact mem_send hsent
  next => cases h

/-- A refusal goes back, with the id of the sender. -/
theorem refused_resume {self : World} {task : Task} {routed : Routed} {ws : SocketId}
    {answer : Signaling.SignalingMsg} {id : EndpointId} (htask : task.routed? = some routed)
    (hrouted : routed.OfSender) (h : .send ws answer ∈ (self.resume task).1)
    (hrefused : answer.refused? = some id) : ws = routed.ws ∧ id = routed.sender := by
  have hback {answer' : Signaling.SignalingMsg} (hanswer : answer'.refused? = some routed.sender)
      (hsent : ws = routed.ws ∧ answer = answer') : ws = routed.ws ∧ id = routed.sender := by
    obtain ⟨hws, rfl⟩ := hsent
    exact ⟨hws, Option.some.inj (hrefused.symm.trans hanswer)⟩
  cases task with
  | isBound routed =>
      cases htask
      simp only [resume] at h
      split at h
      next => cases h
      next => exact hback rfl (mem_reject h)
  | isTrustedBy routed =>
      cases htask
      simp only [resume] at h
      split at h
      next => cases h
      next => exact hback rfl (mem_reject h)
  | route routed =>
      cases htask
      simp only [resume] at h
      split at h
      next => exact hback rfl (mem_send h)
      next => cases h
  | routeTrusted routed receiverWs endpointId =>
      cases htask
      simp only [resume] at h
      split at h
      next =>
          -- The message itself is passed on, which refuses nothing.
          obtain ⟨-, rfl⟩ := mem_send h
          cases hmsg : routed.msg <;> simp [hmsg, Signaling.SignalingMsg.refused?] at hrefused <;>
            simp [Routed.OfSender, hmsg, Signaling.SignalingMsg.sender?] at hrouted
      next => exact hback rfl (mem_send h)
  | upsertBindingAndTrust | handOver | replaceTrust | addToBlacklist | deleteEndpoint => cases htask

/-! ### Runs of the worker -/

/-- Every message on its way has the sender that it names. -/
def Routes (self : World) : Prop :=
  ∀ task ∈ self.tasks, ∀ routed, task.routed? = some routed → routed.OfSender

theorem Routes.of_tasks {self after : World} (h : self.Routes) (htasks : after.tasks = self.tasks) :
    after.Routes := by
  rw [Routes, htasks]
  exact h

theorem Routes.spawn {self : World} (h : self.Routes) {task : Task}
    (htask : ∀ routed, task.routed? = some routed → routed.OfSender) :
    (self.spawn task).Routes := by
  intro task' hmem
  rcases List.mem_append.mp hmem with hmem | hmem
  · exact h task' hmem
  · cases List.mem_singleton.mp hmem
    exact htask

theorem tasks_close (self : World) (ws : SocketId) (code : Nat) (reason : String) :
    (self.close ws code reason).2.tasks = self.tasks := by
  unfold close
  split <;> rfl

theorem Routes.reject {self : World} (h : self.Routes) (routed : Routed)
    (reply : Signaling.SignalingMsg) : (self.reject routed reply).2.Routes := by
  unfold World.reject
  split
  next =>
      simp only [bumpReject]
      split
      next => exact (h.of_tasks rfl : Routes (serializeAttachment ..)).spawn nofun
      next => exact h.of_tasks rfl
  next => exact h

theorem Routes.resume {self : World} (h : self.Routes) {task : Task}
    (htask : ∀ routed, task.routed? = some routed → routed.OfSender) :
    (self.resume task).2.Routes := by
  cases task with
  | upsertBindingAndTrust ws id certHash trusted =>
      simp only [World.resume]
      split
      next => exact (h.of_tasks rfl : Routes { self with db := _ }).spawn nofun
      next => exact h
  | handOver ws id certHash =>
      simp only [World.resume, handleUpgrade]
      split <;> exact h.of_tasks rfl
  | replaceTrust ws sender trusted =>
      simp only [World.resume]
      split <;> exact h.of_tasks rfl
  | isBound routed =>
      simp only [World.resume]
      split
      next => exact h.spawn htask
      next => exact h.reject routed _
  | isTrustedBy routed =>
      simp only [World.resume]
      split
      next => exact h.spawn htask
      next => exact h.reject routed _
  | route routed =>
      simp only [World.resume]
      split
      next => exact h
      next => exact h.spawn htask
  | routeTrusted routed receiverWs endpointId =>
      simp only [World.resume]
      split <;> exact h
  | addToBlacklist ws certHash => exact h.of_tasks (tasks_close ..)
  | deleteEndpoint endpointId => exact h.of_tasks rfl

theorem Routes.webSocketMessage {self : World} (h : self.Routes) (ws : SocketId)
    (att : Attachment) (raw : Raw) : (self.webSocketMessage ws att raw).2.Routes := by
  have hclose (code : Nat) (reason : String) : (self.close ws code reason).2.Routes :=
    h.of_tasks (tasks_close ..)
  cases raw with
  | binary => exact hclose _ _
  | garbled => exact hclose _ _
  | text msg =>
      cases msg with
      | ping | pong => exact h
      | bound | trusted | idNotFound | rejected | terminate => exact hclose _ _
      | trust sender trusted =>
          simp only [World.webSocketMessage]
          split
          next => exact hclose _ _
          next => exact h.spawn nofun
      | connect sender receiver initiator =>
          simp only [World.webSocketMessage]
          split
          next => exact hclose _ _
          next => exact h.spawn fun routed hrouted => by cases hrouted; rfl
      | sdp sender receiver sdp =>
          simp only [World.webSocketMessage]
          split
          next => exact hclose _ _
          next => exact h.spawn fun routed hrouted => by cases hrouted; rfl
      | candidate sender receiver candidate =>
          simp only [World.webSocketMessage]
          split
          next => exact hclose _ _
          next => exact h.spawn fun routed hrouted => by cases hrouted; rfl

section

variable {Identity : Type} {parseIdentity : String → Except String Identity}
  {hashCert : Identity → CertDerHash}
  {verifyIdentity : Identity → String → Except String CertDerHash}

theorem Routes.step {self after : World} (h : self.Routes) {event : Event}
    (hstep : self.step parseIdentity hashCert verifyIdentity event = some after) :
    after.Routes := by
  obtain ⟨⟨outputs, after⟩, hhandle, rfl⟩ := Option.map_eq_some_iff.mp hstep
  cases event with
  | fetch headers success =>
      have hroutes :
          (self.fetch parseIdentity hashCert verifyIdentity headers success).2.Routes := by
        simp only [fetch]
        split
        next => exact h.of_tasks rfl
        next => exact (h.of_tasks rfl : Routes { self with next := _ }).spawn nofun
      rwa [Option.some.inj hhandle] at hroutes
  | resume i =>
      obtain ⟨task, hi, hresume⟩ := Option.map_eq_some_iff.mp hhandle
      have htaken : Routes { self with tasks := self.tasks.eraseIdx i } :=
        fun task hmem => h task (List.mem_of_mem_eraseIdx hmem)
      have hroutes := htaken.resume (h task (List.mem_of_getElem? hi))
      rwa [hresume] at hroutes
  | message ws raw =>
      obtain ⟨socket, -, hmessage⟩ := Option.map_eq_some_iff.mp hhandle
      have hroutes := h.webSocketMessage ws socket.attachment raw
      rwa [hmessage] at hroutes
  | closed ws =>
      obtain ⟨socket, -, hcleanup⟩ := Option.map_eq_some_iff.mp hhandle
      cases hcleanup
      simp only [cleanup]
      split
      next => exact h.of_tasks rfl
      next => exact (h.of_tasks rfl : Routes { self with sockets := _ }).spawn nofun
  | expire ws =>
      obtain ⟨socket, -, hclose⟩ := Option.map_eq_some_iff.mp hhandle
      have hroutes : (self.close ws 1000 "lifetime").2.Routes := h.of_tasks (tasks_close ..)
      rwa [hclose] at hroutes

theorem routes_of_run {events : List Event} {self : World}
    (hrun : Run.run (step parseIdentity hashCert verifyIdentity) new events = some self) :
    self.Routes :=
  Run.invariant_all (fun _ _ _ h hstep => h.step hstep) (fun _ hmem => by cases hmem) hrun

end

end World

end Worker

/-! ## The answer -/

section

variable {Identity : Type} (parseIdentity : String → Except String Identity)
  (hashCert : Identity → CertDerHash)
  (verifyIdentity : Identity → String → Except String CertDerHash)

/-- The signaling server or the worker refuses a Connect from the sender to the receiver, and
this is what comes on the sender's connection. -/
inductive Refuses (sender receiver : EndpointId) (answer : Signaling.SignalingMsg) : Prop
  | server {tasks after : Tasks} {c : Signaling.ConnId} {initiator : Bool}
      {frames : List (Signaling.ConnId × Frame)}
      (handle : tasks.handle parseIdentity verifyIdentity
        (.receive c (.text (.connect sender receiver initiator))) = some (frames, after))
      (mem : (c, .text answer) ∈ frames) (refused : answer.refused?.isSome)
  | worker {events : List Worker.Event} {world after : Worker.World} {i : Nat}
      {task : Worker.Task} {routed : Worker.Routed} {initiator : Bool}
      {outputs : List Worker.Output}
      (run : Run.run (Worker.World.step parseIdentity hashCert verifyIdentity) .new events =
        some world)
      (getTask : world.tasks[i]? = some task) (getRouted : task.routed? = some routed)
      (connect : routed.msg = .connect sender receiver initiator)
      (handle : world.handle parseIdentity hashCert verifyIdentity (.resume i) =
        some (outputs, after))
      (mem : .send routed.ws answer ∈ outputs) (refused : answer.refused?.isSome)

variable {parseIdentity hashCert verifyIdentity}

/-- The answer has the id of the sender. -/
theorem Refuses.refused? {sender receiver : EndpointId} {answer : Signaling.SignalingMsg}
    (h : Refuses parseIdentity hashCert verifyIdentity sender receiver answer) :
    answer.refused? = some sender := by
  cases h with
  | @server tasks _ c initiator _ handle mem refused =>
      obtain ⟨id, hid⟩ := Option.isSome_iff_exists.mp refused
      obtain ⟨-, rfl⟩ := Signaling.Tasks.refused_receive handle mem hid
      exact hid
  | @worker _ world _ i task routed initiator _ run htask hrouted connect handle mem refused =>
      obtain ⟨id, hid⟩ := Option.isSome_iff_exists.mp refused
      have hof := Worker.World.routes_of_run run task (List.mem_of_getElem? htask) routed hrouted
      have hsender : routed.sender = sender := by
        rw [Worker.Routed.OfSender, connect] at hof
        exact (Option.some.inj hof).symm
      simp only [Worker.World.handle, htask, Option.map_some, Option.some.injEq] at handle
      have hmem : .send routed.ws answer ∈
          (Worker.World.resume { world with tasks := world.tasks.eraseIdx i } task).1 := by
        rw [handle]
        exact mem
      obtain ⟨-, rfl⟩ := Worker.World.refused_resume hrouted hof hmem hid
      rw [hid, hsender]

/-! ## The host -/

/-- A message as the host reads it.  `number` gives the ids of endpoints as those of hosts. -/
def received (number : EndpointId → ServerId) : Signaling.SignalingMsg → SignalingMsg
  | .bound id trusted => .bound (number id) (trusted.map number)
  | .connect sender receiver initiator => .connect (number sender) (number receiver) initiator
  | .trust sender trusted => .trust (number sender) (trusted.map number)
  | .trusted id trusted => .trusted (number id) (trusted.map number)
  | .idNotFound id reason => .idNotFound (number id) reason
  | .rejected id reason => .rejected (number id) reason
  | .sdp _ _ _ | .candidate _ _ _ | .ping | .pong | .terminate _ => .other

/-- The reason that a host finds in a refusal. -/
def refusalReason : Signaling.SignalingMsg → String
  | .idNotFound _ reason => s!"IdNotFound: {reason}"
  | .rejected _ reason => s!"Rejected by signaling: {reason}"
  | _ => ""

/-- The turn marks the peer as failed, and no other peer. -/
def FailsOnly (peer : ServerId) (before after : Server) : Prop :=
  (∃ reason, after.remoteStatus? peer = some (.failed reason)) ∧
    ∀ q, q ≠ peer → after.currentWorld.remote? q = before.currentWorld.remote? q

/-- A host marks the id in the refusal. -/
theorem handleSignalingMsg_refused {os : Os} {self : Server} {addr : Text}
    {number : EndpointId → ServerId} {answer : Signaling.SignalingMsg} {id : EndpointId}
    (h : answer.refused? = some id) :
    (self.handleSignalingMsg os addr (received number answer)).1 =
      { self with
        currentWorld :=
          self.currentWorld.markRemoteFailed (number id) (refusalReason answer) } := by
  cases answer <;> cases h <;> rfl

theorem remote?_markRemoteFailed (self : WorldState) (q peer : ServerId) (reason : String) :
    (self.markRemoteFailed q reason).remote? peer =
      if peer = q then (self.remote? q).map fun r => { r with status := .failed reason }
      else self.remote? peer := by
  simp only [WorldState.markRemoteFailed, WorldState.modifyRemote, WorldState.remote?,
    AssocMap.get_modify]
  split
  next heq => rw [heq]
  next => rfl

/-- When a Connect is refused, the answer marks the record of the receiver, and that only, when
and only when there is nothing to do: the record is failed already, and the sender has no record
of itself or one that is failed already for this reason.  A host that connects to itself is the
exception. -/
theorem failsOnly_iff {sender receiver : EndpointId} {answer : Signaling.SignalingMsg}
    (h : Refuses parseIdentity hashCert verifyIdentity sender receiver answer)
    (number : EndpointId → ServerId) (os : Os) (self : Server) (addr : Text) :
    FailsOnly (number receiver) self
        (self.handleSignalingMsg os addr (received number answer)).1 ↔
      if number receiver = number sender then
        self.currentWorld.remote? (number receiver) ≠ none
      else
        (∃ reason, self.remoteStatus? (number receiver) = some (.failed reason)) ∧
          ∀ state, self.currentWorld.remote? (number sender) = some state →
            state.status = .failed (refusalReason answer) := by
  rw [handleSignalingMsg_refused h.refused?]
  simp only [FailsOnly, Server.remoteStatus?, remote?_markRemoteFailed]
  split
  next hself =>
      simp only [hself]
      constructor
      · rintro ⟨⟨reason, hfailed⟩, -⟩ hnone
        rw [hnone] at hfailed
        cases hfailed
      · intro hsome
        obtain ⟨r, hr⟩ := Option.ne_none_iff_exists'.mp hsome
        exact ⟨⟨_, by rw [hr]; rfl⟩, fun q hq => if_neg hq⟩
  next hne =>
      refine and_congr_right fun _ => ?_
      constructor
      · intro hothers state hstate
        have hown := hothers (number sender) (Ne.symm hne)
        rw [if_pos rfl, hstate, Option.map_some] at hown
        exact (congrArg RemoteState.status (Option.some.inj hown)).symm
      · intro hown q _
        split
        next hq =>
            rw [hq]
            cases hstate : self.currentWorld.remote? (number sender) with
            | none => rfl
            | some state =>
                rw [Option.map_some, ← hown state hstate]
        next => rfl

end

/-! ## Two peers at once -/

/-- Alice is bound, and nobody else is. -/
def aliceAlone : Tasks :=
  { server := { endpointMap := [("alice::AA", { msgTx := 0, trusted := ∅ })] }
    conns := [(0, .serving "alice::AA" true)]
    next := 1 }

/-- The answer to Alice's Connect to bob. -/
def noBob : Signaling.SignalingMsg :=
  .idNotFound "alice::AA" "No endpoint found for id: bob::BB"

/-- Nobody's certificate is looked at. -/
def anyIdentity (_ : String) : Except String Unit := .ok ()

def anyCert (_ : Unit) : CertDerHash := "AA"

def anySignature (_ : Unit) (_ : String) : Except String CertDerHash := .ok "AA"

theorem refuses_bob :
    Refuses anyIdentity anyCert anySignature "alice::AA" "bob::BB" noBob :=
  .server (show aliceAlone.handle anyIdentity anySignature
      (.receive 0 (.text (.connect "alice::AA" "bob::BB" true))) =
        some ([(0, .text noBob)], aliceAlone) from rfl)
    List.mem_cons_self rfl

/-- Alice is the host 0, bob 1 and carol 2. -/
def hostNumber (id : EndpointId) : ServerId :=
  if id = "alice::AA" then 0 else if id = "bob::BB" then 1 else 2

/-- Alice's editor wants to connect to bob and carol. -/
def twoPeers : List (Os × Event) :=
  let addr := "wss://a".toList
  [(Os.bare, .notification (.acceptConnection addr)),
    (Os.bare, .signaling addr (.bound 0 [])),
    (Os.bare, .notification (.connect 1 (.sctp addr))),
    (Os.bare, .notification (.connect 2 (.sctp addr))),
    (Os.bare, .fixWorld)]

/-- A host on the way to both. -/
def connecting : Server :=
  (Run.run Server.step (.new 0 ⟨none, [], []⟩ .new) twoPeers).getD (.new 0 ⟨none, [], []⟩ .new)

theorem failsOnly_iff_sample :
    FailsOnly (hostNumber "bob::BB") connecting
        (connecting.handleSignalingMsg Os.bare "wss://a".toList (received hostNumber noBob)).1 ↔
      if hostNumber "bob::BB" = hostNumber "alice::AA" then
        connecting.currentWorld.remote? (hostNumber "bob::BB") ≠ none
      else
        (∃ reason, connecting.remoteStatus? (hostNumber "bob::BB") = some (.failed reason)) ∧
          ∀ state, connecting.currentWorld.remote? (hostNumber "alice::AA") = some state →
            state.status = .failed (refusalReason noBob) :=
  failsOnly_iff refuses_bob hostNumber Os.bare connecting "wss://a".toList

/-- Bob's record stays as it is, and so does carol's. -/
theorem not_failsOnly :
    Run.run Server.step (.new 0 ⟨none, [], []⟩ .new) twoPeers = some connecting ∧
      Refuses anyIdentity anyCert anySignature "alice::AA" "bob::BB" noBob ∧
      (connecting.handleSignalingMsg Os.bare "wss://a".toList
        (received hostNumber noBob)).1.remoteStatus? 1 = some (.connectingStage1 0) ∧
      ¬FailsOnly 1 connecting
        (connecting.handleSignalingMsg Os.bare "wss://a".toList (received hostNumber noBob)).1 := by
  have hstays : (connecting.handleSignalingMsg Os.bare "wss://a".toList
      (received hostNumber noBob)).1.remoteStatus? 1 = some (.connectingStage1 0) := rfl
  refine ⟨rfl, refuses_bob, hstays, fun h => ?_⟩
  obtain ⟨reason, hfailed⟩ := h.1
  cases hstays.symm.trans hfailed

end CollabMode
