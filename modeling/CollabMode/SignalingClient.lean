import CollabMode.FixWorld
import CollabMode.Lib.Run

/-!
# Signaling clients

`SignalingChannel` of `signaling/client.rs` beside the server that uses it.  `bind` puts a
handle under the address and starts an actor, and `remove` takes the handle out and tells
the actor to shut down.  An actor ends at its own time: it takes the handle under its
address out, whosever it is, and then it reports to the server that it has stopped.

So several actors of one address can be there at once.  `Undisturbed` says that one that
ends does not touch what belongs to a later one, and `SparesLaterClients` is when this is so.
-/

namespace CollabMode

/-- A client, by the order in which the clients were started. -/
abbrev ClientId := Nat

inductive ClientPhase where
  /-- The actor connects, or it is connected. -/
  | running
  /-- The cleanup is done, and the report is still to be sent. -/
  | cleaned
  | gone
deriving DecidableEq, Repr

structure ClientActor where
  addr : Text
  phase : ClientPhase
deriving DecidableEq, Repr

structure SignalingChannel where
  /-- The handles, one for each bound address. -/
  clients : List (Text × ClientId)
  /-- All actors that were ever started. -/
  actors : List ClientActor
deriving DecidableEq, Repr

namespace SignalingChannel

def new : SignalingChannel := { clients := [], actors := [] }

def client? (self : SignalingChannel) (addr : Text) : Option ClientId :=
  AssocMap.get self.clients addr

/-- `ok` says that the request of the bind can be made. -/
def bind (self : SignalingChannel) (ok : Bool) (addr : Text) : SignalingChannel :=
  if (self.client? addr).isSome then self
  else if ok then
    { clients := AssocMap.insert self.clients addr self.actors.length
      actors := self.actors ++ [{ addr, phase := .running }] }
  else self

def remove (self : SignalingChannel) (addr : Text) : SignalingChannel :=
  { self with clients := AssocMap.erase self.clients addr }

/-- An actor stops serving, after an error or a shutdown, and does its cleanup. -/
def cleanup (self : SignalingChannel) (c : ClientId) : Option SignalingChannel :=
  match self.actors[c]? with
  | some { addr, phase := .running } =>
      some
        { clients := AssocMap.erase self.clients addr
          actors := self.actors.set c { addr, phase := .cleaned } }
  | _ => none

/-- The address of the report, which an actor sends after its cleanup. -/
def report (self : SignalingChannel) (c : ClientId) : Option (Text × SignalingChannel) :=
  match self.actors[c]? with
  | some { addr, phase := .cleaned } =>
      some (addr, { self with actors := self.actors.set c { addr, phase := .gone } })
  | _ => none

/-- What a handler of the server does with the channel. -/
def apply (os : Os) (self : SignalingChannel) : Effect → SignalingChannel
  | .signalingBind addr _ => self.bind (os.signalingBind addr) addr
  | .signalingRemove addr => self.remove addr
  | _ => self

/-- No client was started for the address after this one. -/
def Last (self : SignalingChannel) (c : ClientId) (addr : Text) : Prop :=
  ∀ actor ∈ self.actors.drop (c + 1), actor.addr ≠ addr

end SignalingChannel

/-- `AcceptStopped` on its way to the server.  The server does not see who sent it. -/
structure AcceptStopped where
  signalingAddr : Text
  reason : String
  client : ClientId
deriving DecidableEq, Repr

structure SignalingHost where
  server : Server
  channel : SignalingChannel
  queue : List AcceptStopped

namespace SignalingHost

inductive Act where
  /-- A turn of the main loop for something else than a report. -/
  | turn (os : Os) (event : Event)
  | cleanup (c : ClientId)
  | report (c : ClientId) (reason : String)
  /-- The main loop takes the oldest report. -/
  | acceptStopped (os : Os)

def start (server : Server) : SignalingHost := { server, channel := .new, queue := [] }

/-- A bind of an address that has a client is `Ok`. -/
def bindOk (self : SignalingHost) (os : Os) : Os :=
  { os with
    signalingBind := fun addr => (self.channel.client? addr).isSome || os.signalingBind addr }

def turn (self : SignalingHost) (os : Os) (event : Event) : Option SignalingHost :=
  let os := self.bindOk os
  (self.server.handle os event).map fun r =>
    { self with
      server := r.1
      channel := r.2.foldl (SignalingChannel.apply os) self.channel }

def step (self : SignalingHost) : Act → Option SignalingHost
  | .turn _ (.acceptStopped _ _) => none
  | .turn os event => self.turn os event
  | .cleanup c => (self.channel.cleanup c).map fun channel => { self with channel }
  | .report c reason =>
      (self.channel.report c).map fun r =>
        { self with
          channel := r.2
          queue := self.queue ++ [{ signalingAddr := r.1, reason, client := c }] }
  | .acceptStopped os =>
      match self.queue with
      | [] => none
      | report :: queue =>
          { self with queue }.turn os (.acceptStopped report.signalingAddr report.reason)

/-- A cleanup takes out only the actor's own handle, and a report changes only the entry of
its address, and that only when no client was started for it later. -/
def Undisturbed (self : SignalingHost) (act : Act) : Prop :=
  ∀ after, self.step act = some after →
    match act with
    | .cleanup c =>
        ∀ addr d, self.channel.client? addr = some d → d ≠ c →
          after.channel.client? addr = some d
    | .acceptStopped _ =>
        ∀ report queue, self.queue = report :: queue → ∀ addr,
          after.server.currentWorld.signaling? addr ≠ self.server.currentWorld.signaling? addr →
            addr = report.signalingAddr ∧ self.channel.Last report.client addr
    | _ => True

/-- The entry says already what `mark_signaling_disconnected` puts there. -/
def Waiting (now : Instant) (state : SignalingState) : Prop :=
  state.status = .disconnected (now + maxRetryStrideSecs * 1000) maxRetryStrideSecs ∧
    state.retryStrideSecs = maxRetryStrideSecs

/-- When an actor does its cleanup, no client was started for its address later, or there
is no handle any more.  When its report is taken, no client was started for the address
later, or the server keeps no entry that the report could change. -/
def SparesLaterClients (self : SignalingHost) : Act → Prop
  | .cleanup c =>
      ∀ addr, self.channel.actors[c]? = some { addr, phase := .running } →
        self.channel.Last c addr ∨ self.channel.client? addr = none
  | .acceptStopped os =>
      ∀ report queue, self.queue = report :: queue →
        self.channel.Last report.client report.signalingAddr ∨
          ∀ state, self.server.currentWorld.signaling? report.signalingAddr = some state →
            Waiting os.now state
  | _ => True

end SignalingHost

namespace SignalingChannel

/-! ## Handles and actors -/

theorem last_iff {self : SignalingChannel} {c : ClientId} {addr : Text} :
    self.Last c addr ↔
      ∀ d actor, c < d → self.actors[d]? = some actor → actor.addr ≠ addr := by
  simp only [Last, List.mem_iff_getElem?, List.getElem?_drop]
  constructor
  · intro h d actor hd hactor
    refine h actor ⟨d - (c + 1), ?_⟩
    rwa [Nat.add_sub_cancel' hd]
  · rintro h actor ⟨i, hi⟩
    exact h (c + 1 + i) actor (Nat.lt_of_lt_of_le (Nat.lt_succ_self c) (Nat.le_add_right _ _)) hi

/-- A handle belongs to the client that was started last for the address. -/
def Ordered (self : SignalingChannel) : Prop :=
  ∀ addr c, self.client? addr = some c →
    (∃ phase, self.actors[c]? = some { addr, phase }) ∧ self.Last c addr

theorem ordered_new : new.Ordered := nofun

/-- The last client for an address is the only one that is last. -/
theorem Last.eq {self : SignalingChannel} {addr : Text} {c d : ClientId}
    {phase phase' : ClientPhase} (hc : self.Last c addr) (hd : self.Last d addr)
    (hcActor : self.actors[c]? = some { addr, phase })
    (hdActor : self.actors[d]? = some { addr, phase := phase' }) : c = d := by
  rcases Nat.lt_trichotomy c d with hlt | heq | hlt
  · exact absurd rfl (last_iff.mp hc d _ hlt hdActor)
  · exact heq
  · exact absurd rfl (last_iff.mp hd c _ hlt hcActor)

theorem Ordered.bind {self : SignalingChannel} (h : self.Ordered) (ok : Bool) (addr : Text) :
    (self.bind ok addr).Ordered := by
  unfold SignalingChannel.bind
  split
  next => exact h
  next hnone =>
  split
  next =>
      intro addr' c hc
      refine (?_ : (∃ phase, (self.actors ++ [_])[c]? = some _) ∧ _)
      rw [last_iff]
      have hget : (if addr' = addr then some self.actors.length else self.client? addr') =
          some c := (AssocMap.get_insert _ _ _ _).symm.trans hc
      split at hget
      next haddr =>
          cases hget
          subst haddr
          refine ⟨⟨.running, by simp⟩, fun d actor hd hactor => ?_⟩
          have hlt := (List.getElem?_eq_some_iff.mp hactor).1
          simp only [List.length_append, List.length_singleton] at hlt
          exact absurd (Nat.lt_succ_iff.mp hlt) (Nat.not_le.mpr hd)
      next haddr =>
          obtain ⟨⟨phase, hactor⟩, hlast⟩ := h addr' c hget
          have hlt := (List.getElem?_eq_some_iff.mp hactor).1
          refine ⟨⟨phase, (List.getElem?_append_left hlt).trans hactor⟩, fun d actor hd hd' => ?_⟩
          rcases Nat.lt_or_ge d self.actors.length with hdlt | hdge
          · rw [List.getElem?_append_left hdlt] at hd'
            exact last_iff.mp hlast d actor hd hd'
          · rw [List.getElem?_append_right hdge] at hd'
            have hmem := List.mem_of_getElem? hd'
            rw [List.mem_singleton.mp hmem]
            exact Ne.symm haddr
  next => exact h

theorem Ordered.remove {self : SignalingChannel} (h : self.Ordered) (addr : Text) :
    (self.remove addr).Ordered := by
  intro addr' c hc
  have hget : (if addr' = addr then none else self.client? addr') = some c :=
    (AssocMap.get_erase _ _ _).symm.trans hc
  split at hget
  next => cases hget
  next => exact h addr' c hget

theorem Ordered.apply {self : SignalingChannel} (h : self.Ordered) (os : Os) (effect : Effect) :
    (self.apply os effect).Ordered := by
  unfold SignalingChannel.apply
  split
  · exact h.bind _ _
  · exact h.remove _
  · exact h

theorem Ordered.foldl {self : SignalingChannel} (h : self.Ordered) (os : Os)
    (effects : List Effect) : (effects.foldl (SignalingChannel.apply os) self).Ordered := by
  induction effects generalizing self with
  | nil => exact h
  | cons effect effects ih => exact ih (h.apply os effect)

/-- An actor goes on to another phase. -/
theorem Ordered.set {self : SignalingChannel} (h : self.Ordered) {c : ClientId} {addr : Text}
    {phase : ClientPhase} (hactor : self.actors[c]? = some { addr, phase }) (phase' : ClientPhase) :
    Ordered { self with actors := self.actors.set c { addr, phase := phase' } } := by
  have hlt := (List.getElem?_eq_some_iff.mp hactor).1
  intro addr' d hd
  obtain ⟨⟨dphase, hdActor⟩, hlast⟩ := h addr' d hd
  refine ⟨?_, last_iff.mpr fun e actor he hactor' => ?_⟩
  · simp only [List.getElem?_set]
    split
    next heq =>
        subst heq
        cases hactor.symm.trans hdActor
        exact ⟨phase', rfl⟩
    next => exact ⟨dphase, hdActor⟩
  · simp only [List.getElem?_set] at hactor'
    split at hactor'
    next heq =>
        subst heq
        cases hactor'
        show addr ≠ addr'
        exact last_iff.mp hlast c _ he hactor
    next => exact last_iff.mp hlast e actor he hactor'

theorem cleanup_eq_some {self after : SignalingChannel} {c : ClientId} :
    self.cleanup c = some after ↔
      ∃ addr, self.actors[c]? = some { addr, phase := .running } ∧
        after =
          { clients := AssocMap.erase self.clients addr
            actors := self.actors.set c { addr, phase := .cleaned } } := by
  unfold cleanup
  split
  next addr hactor => simp [hactor, eq_comm]
  next hnot =>
      refine ⟨nofun, ?_⟩
      rintro ⟨addr, hactor, -⟩
      exact absurd hactor (hnot addr)

theorem Ordered.cleanup {self after : SignalingChannel} (h : self.Ordered) {c : ClientId}
    (hstep : self.cleanup c = some after) : after.Ordered := by
  obtain ⟨addr, hactor, rfl⟩ := cleanup_eq_some.mp hstep
  exact (h.set hactor .cleaned).remove addr

theorem Ordered.report {self after : SignalingChannel} (h : self.Ordered) {c : ClientId}
    {addr : Text} (hstep : self.report c = some (addr, after)) : after.Ordered := by
  unfold SignalingChannel.report at hstep
  split at hstep
  next addr' hactor =>
      cases hstep
      exact h.set hactor .gone
  next => cases hstep

/-- The handle that a cleanup takes out is the actor's own. -/
theorem cleanup_keeps_iff {self after : SignalingChannel} (h : self.Ordered) {c : ClientId}
    {addr : Text} (hactor : self.actors[c]? = some { addr, phase := .running })
    (hstep : self.cleanup c = some after) :
    (∀ addr' d, self.client? addr' = some d → d ≠ c → after.client? addr' = some d) ↔
      (self.Last c addr ∨ self.client? addr = none) := by
  obtain ⟨addr₀, hactor₀, rfl⟩ := cleanup_eq_some.mp hstep
  cases hactor.symm.trans hactor₀
  have hget (addr' : Text) : AssocMap.get (AssocMap.erase self.clients addr) addr' =
      if addr' = addr then none else self.client? addr' := AssocMap.get_erase _ _ _
  constructor
  · intro hkeeps
    cases hclient : self.client? addr with
    | none => exact .inr rfl
    | some d =>
        by_cases hd : d = c
        · exact .inl (hd ▸ (h addr d hclient).2)
        · have hgone := (hget addr).symm.trans (hkeeps addr d hclient hd)
          rw [if_pos rfl] at hgone
          cases hgone
  · intro hor addr' d hclient hd
    refine (hget addr').trans ?_
    split
    next heq =>
        subst heq
        rcases hor with hlast | hnone
        · obtain ⟨⟨phase, hdActor⟩, hdLast⟩ := h addr' d hclient
          exact absurd (hdLast.eq hlast hdActor hactor) hd
        · rw [hnone] at hclient
          cases hclient
    next => exact hclient

end SignalingChannel

/-! ## Entries -/

namespace WorldState

theorem signaling?_markSignalingDisconnected (self : WorldState) (now : Instant)
    (addr addr' : Text) :
    ∃ f : SignalingState → SignalingState,
      (self.markSignalingDisconnected now addr).signaling? addr' =
        (if addr' = addr then (self.signaling? addr').map f else self.signaling? addr') ∧
      ∀ state, f state = state ↔ SignalingHost.Waiting now state := by
  refine ⟨_, AssocMap.get_modify _ _ _ _, fun state => ?_⟩
  obtain ⟨status, trusted, trustSentAt, stride⟩ := state
  simp only [SignalingHost.Waiting, SignalingState.mk.injEq, true_and]
  constructor
  · rintro ⟨hstatus, hstride⟩
    have hmax : stride = maxRetryStrideSecs := by
      simp only [nextStride, maxRetryStrideSecs, initialRetryStrideSecs] at hstride ⊢
      split at hstride <;> omega
    subst hmax
    exact ⟨hstatus.symm, rfl⟩
  · rintro ⟨rfl, rfl⟩
    exact ⟨rfl, rfl⟩

end WorldState

namespace SignalingHost

/-- A report changes the entry of its address, unless there is none or it says so already. -/
theorem acceptStopped_changes_iff {self after : SignalingHost} {os : Os} {report : AcceptStopped}
    {queue : List AcceptStopped} (hqueue : self.queue = report :: queue)
    (hstep : self.step (.acceptStopped os) = some after) (addr : Text) :
    after.server.currentWorld.signaling? addr ≠ self.server.currentWorld.signaling? addr ↔
      addr = report.signalingAddr ∧ ∃ state,
        self.server.currentWorld.signaling? addr = some state ∧ ¬Waiting os.now state := by
  have hafter : after.server.currentWorld =
      self.server.currentWorld.markSignalingDisconnected os.now report.signalingAddr := by
    simp only [step, hqueue, turn, Server.handle, Option.map_some, Option.some.injEq] at hstep
    rw [← hstep]
    rfl
  obtain ⟨f, hget, hf⟩ := self.server.currentWorld.signaling?_markSignalingDisconnected os.now
    report.signalingAddr addr
  rw [hafter, hget]
  split
  next haddr =>
      cases hstate : self.server.currentWorld.signaling? addr with
      | none => simp
      | some state => simp [haddr, hf]
  next haddr => simp [haddr]

theorem undisturbed_iff_of_ordered {self : SignalingHost} (h : self.channel.Ordered) (act : Act) :
    self.Undisturbed act ↔ self.SparesLaterClients act := by
  cases act with
  | turn os event => exact iff_of_true (fun _ _ => trivial) trivial
  | report c reason => exact iff_of_true (fun _ _ => trivial) trivial
  | cleanup c =>
      constructor
      · intro hundisturbed addr hactor
        have hcleanup := SignalingChannel.cleanup_eq_some.mpr ⟨addr, hactor, rfl⟩
        refine (SignalingChannel.cleanup_keeps_iff h hactor hcleanup).mp ?_
        exact hundisturbed { self with channel := _ } (by simp [step, hcleanup])
      · intro hspares after hstep
        obtain ⟨channel, hcleanup, rfl⟩ := Option.map_eq_some_iff.mp hstep
        obtain ⟨addr, hactor, -⟩ := SignalingChannel.cleanup_eq_some.mp hcleanup
        exact (SignalingChannel.cleanup_keeps_iff h hactor hcleanup).mpr (hspares addr hactor)
  | acceptStopped os =>
      constructor
      · intro hundisturbed report queue hqueue
        obtain ⟨after, hstep⟩ : ∃ after, self.step (.acceptStopped os) = some after := by
          simp only [step, hqueue]
          exact ⟨_, rfl⟩
        by_cases hlast : self.channel.Last report.client report.signalingAddr
        · exact .inl hlast
        · refine .inr fun state hstate => ?_
          by_contra hnot
          have hchanged := (acceptStopped_changes_iff hqueue hstep report.signalingAddr).mpr
            ⟨rfl, state, hstate, hnot⟩
          exact hlast (hundisturbed after hstep report queue hqueue _ hchanged).2
      · intro hspares after hstep report queue hqueue addr hchanged
        obtain ⟨rfl, state, hstate, hnot⟩ :=
          (acceptStopped_changes_iff hqueue hstep addr).mp hchanged
        refine ⟨rfl, (hspares report queue hqueue).resolve_right fun hwaiting => ?_⟩
        exact hnot (hwaiting state hstate)

theorem ordered_turn {self after : SignalingHost} (h : self.channel.Ordered) {os : Os}
    {event : Event} (hturn : self.turn os event = some after) : after.channel.Ordered := by
  obtain ⟨⟨server, effects⟩, -, rfl⟩ := Option.map_eq_some_iff.mp hturn
  exact h.foldl _ effects

theorem ordered_step {self after : SignalingHost} (h : self.channel.Ordered) {act : Act}
    (hstep : self.step act = some after) : after.channel.Ordered := by
  cases act with
  | turn os event =>
      unfold step at hstep
      split at hstep
      next => cases hstep
      next heq =>
          cases heq
          exact ordered_turn h hstep
      all_goals contradiction
  | cleanup c =>
      obtain ⟨channel, hcleanup, rfl⟩ := Option.map_eq_some_iff.mp hstep
      exact h.cleanup hcleanup
  | report c reason =>
      obtain ⟨⟨addr, channel⟩, hreport, rfl⟩ := Option.map_eq_some_iff.mp hstep
      exact h.report hreport
  | acceptStopped os =>
      simp only [step] at hstep
      split at hstep
      next => cases hstep
      next report queue hqueue => exact @ordered_turn { self with queue } _ h _ _ hstep

/-- The ends of the actors disturb no later client throughout a run exactly when all of it
spares later clients. -/
theorem undisturbed_iff (server : Server) (acts : List Act) :
    Run.Meets step Undisturbed (start server) acts ↔
      Run.Meets step SparesLaterClients (start server) acts :=
  @Run.Meets.congr _ _ step Undisturbed SparesLaterClients (fun self => self.channel.Ordered)
    (fun _ _ _ h _ hstep => ordered_step h hstep) (fun _ act h => undisturbed_iff_of_ordered h act)
    _ _ SignalingChannel.ordered_new

/-! ## Accepting again -/

def accepting : Act :=
  .turn .bare (.notification (.acceptConnection ['w', 's', 's', ':', '/', '/', 'a']))

def stopping : Act :=
  .turn .bare (.notification (.stopAccepting ['w', 's', 's', ':', '/', '/', 'a']))

/-- The editor stops accepting connections and accepts them again, and only then does the
first client do its cleanup. -/
theorem not_undisturbed :
    ¬∀ (server : Server) (acts : List Act), Run.Meets step Undisturbed (start server) acts := by
  intro h
  let server := Server.new 0 ⟨none, [], []⟩ WorldState.new
  have hmeets := h server
    ([accepting, stopping, .turn .bare .fixWorld, accepting] ++ [.cleanup 0])
  obtain ⟨self, hrun, after, hstep, hbefore, hafter⟩ : ∃ self,
      Run.run step (start server) [accepting, stopping, .turn .bare .fixWorld, accepting] =
          some self ∧
        ∃ after, self.step (.cleanup 0) = some after ∧
          self.channel.client? ['w', 's', 's', ':', '/', '/', 'a'] = some 1 ∧
          after.channel.client? ['w', 's', 's', ':', '/', '/', 'a'] = none :=
    ⟨_, rfl, _, rfl, by decide, by decide⟩
  have hkept := hmeets.of_run hrun after hstep _ 1 hbefore (by decide)
  rw [hafter] at hkept
  cases hkept

end SignalingHost

end CollabMode
