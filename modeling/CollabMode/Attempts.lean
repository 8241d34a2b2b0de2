import CollabMode.Changes

/-!
# Attempts to connect

Each attempt to connect to a peer draws a connection id, which goes into the peer's record and
into the reports of its failure.  A report with another id than the record's is stale and
ignored.  But a record that is reset to Pending keeps its id, until the next attempt is made.  So
a late report of the attempt that failed is not stale then, and fails the new request.

`Attempting` is a server with the attempts to connect to one peer.  What is proved is that this
is the only way for a late report to get through (`ignoresLate_of_inTime`).
-/

namespace CollabMode

/-- The peer and the attempt that a report of a failure is about. -/
def Event.failure? : Event → Option (ServerId × ConnectionId)
  | .message { host := _, body := .failedToConnect peer _ connectionId, reqId := _ } =>
      some (peer, connectionId)
  | .message { host := _, body := .connectionBroke peer connectionId, reqId := _ } =>
      some (peer, connectionId)
  | _ => none

/-- The last attempt to connect has failed, or its connection broke. -/
def RemoteStatus.ended : RemoteStatus → Bool
  | .disconnected _ _ | .failed _ => true
  | _ => false

/-! ## Ids of records -/

namespace WorldState

/-- The peer's record keeps its id, or has the new one. -/
def KeepsId (peer : ServerId) (connectionId : ConnectionId) (before after : WorldState) : Prop :=
  ∀ r', after.remote? peer = some r' → r'.connectionId = connectionId ∨
    ∃ r, before.remote? peer = some r ∧ r.connectionId = r'.connectionId

variable {peer : ServerId} {connectionId : ConnectionId}

theorem KeepsId.of_remotes {before after : WorldState} (h : after.remotes = before.remotes) :
    KeepsId peer connectionId before after :=
  fun r' hr' => .inr ⟨r', by rwa [remote?, ← h], rfl⟩

theorem KeepsId.trans {s t u : WorldState} (h : KeepsId peer connectionId s t)
    (h' : KeepsId peer connectionId t u) : KeepsId peer connectionId s u := by
  intro r'' hr''
  rcases h' r'' hr'' with hnew | ⟨r', hr', hsame⟩
  · exact .inl hnew
  · rw [← hsame]
    exact h r' hr'

theorem keepsId_insertRemote (self : WorldState) (q : ServerId) {state : RemoteState}
    (h : q = peer → state.connectionId = connectionId ∨
      ∃ r, self.remote? peer = some r ∧ r.connectionId = state.connectionId) :
    KeepsId peer connectionId self (self.insertRemote q state) := by
  intro r' hr'
  by_cases hq : q = peer
  · subst hq
    have hstate : state = r' :=
      Option.some.inj ((AssocMap.get_insert_self self.remotes q state).symm.trans hr')
    exact hstate ▸ h rfl
  · exact .inr ⟨r', (AssocMap.get_insert_of_ne (Ne.symm hq)).symm.trans hr', rfl⟩

/-- A new attempt draws an id. -/
theorem keepsId_setRemoteAttempt (self : WorldState) (newId : ServerId → ConnectionId)
    (q : ServerId) (transport : TransportConfig) (status : RemoteStatus) :
    KeepsId peer (newId peer) self (self.setRemoteAttempt q transport status (newId q)) :=
  self.keepsId_insertRemote q fun hq => .inl (hq ▸ rfl)

/-- A record that is reset keeps the id. -/
theorem keepsId_setRemotePending (self : WorldState) (newId : ServerId → ConnectionId)
    (q : ServerId) (transport : TransportConfig) :
    KeepsId peer (newId peer) self (self.setRemotePending (newId q) q transport) := by
  refine self.keepsId_insertRemote q fun hq => ?_
  subst hq
  cases hr : self.remote? q with
  | none => exact .inl rfl
  | some r => exact .inr ⟨r, rfl, rfl⟩

theorem keepsId_modifyRemote (self : WorldState) (q : ServerId) {f : RemoteState → RemoteState}
    (hf : ∀ r, (f r).connectionId = r.connectionId) :
    KeepsId peer connectionId self (self.modifyRemote q f) := by
  intro r' hr'
  have hget := (AssocMap.get_modify self.remotes q peer f).symm.trans hr'
  split at hget
  next =>
      obtain ⟨r, hr, rfl⟩ := Option.map_eq_some_iff.mp hget
      exact .inr ⟨r, hr, (hf r).symm⟩
  next => exact .inr ⟨r', hget, rfl⟩

theorem keepsId_removeRemote (self : WorldState) (q : ServerId) :
    KeepsId peer connectionId self (self.removeRemote q) := by
  intro r' hr'
  have hget := (AssocMap.get_erase self.remotes q peer).symm.trans hr'
  split at hget
  next => cases hget
  next => exact .inr ⟨r', hget, rfl⟩

theorem Change.keepsId {newId : ServerId → ConnectionId} {before after : WorldState}
    (h : Change newId before after) : KeepsId peer (newId peer) before after := by
  cases h with
  | attempt q transport status => exact keepsId_setRemoteAttempt before newId q transport status
  | pending q transport => exact keepsId_setRemotePending before newId q transport
  | mark q id stride => exact keepsId_modifyRemote before q id
  | remove q => exact keepsId_removeRemote before q
  | signaling remotes nodup => exact .of_remotes remotes

end WorldState

namespace Server

/-- The peer's record keeps its id, or has the one that is drawn in the turn. -/
abbrev Draws (os : Os) (peer : ServerId) (before after : Server) : Prop :=
  before.currentWorld.KeepsId peer (os.newConnectionId peer) after.currentWorld

theorem Changes.draws {os : Os} {before after : Server} (h : Changes os before after)
    (peer : ServerId) : Draws os peer before after := by
  have hkept : ∀ world, Relation.ReflTransGen (WorldState.Change os.newConnectionId)
      before.currentWorld world →
      before.currentWorld.KeepsId peer (os.newConnectionId peer) world := by
    intro world hchanges
    induction hchanges with
    | refl => exact .of_remotes rfl
    | tail _ hchange ih => exact ih.trans hchange.keepsId
  exact hkept after.currentWorld h.current

/-- Each turn draws at most one id for a peer. -/
theorem draws_step (peer : ServerId) {self after : Server} {turn : Os × Event}
    (h : self.step turn = some after) : Draws turn.1 peer self after :=
  (changes_step h).draws peer

/-- What the server thinks of the connection to a peer. -/
def remoteStatus? (self : Server) (peer : ServerId) : Option RemoteStatus :=
  (self.currentWorld.remote? peer).map RemoteState.status

/-- The id in the record of a peer. -/
def connectionId? (self : Server) (peer : ServerId) : Option ConnectionId :=
  (self.currentWorld.remote? peer).map RemoteState.connectionId

theorem Draws.connectionId? {os : Os} {peer : ServerId} {before after : Server}
    (h : Draws os peer before after) {id : ConnectionId}
    (hid : after.connectionId? peer = some id) :
    id = os.newConnectionId peer ∨ before.connectionId? peer = some id := by
  obtain ⟨r', hr', rfl⟩ := Option.map_eq_some_iff.mp hid
  refine (h r' hr').imp_right fun ⟨r, hr, hsame⟩ => ?_
  rw [Server.connectionId?, hr, ← hsame]
  rfl

end Server

/-! ## Attempts -/

/-- A server with the attempts to connect to one peer. -/
structure Attempting where
  server : Server
  /-- All ids that have been drawn for the peer. -/
  drawn : List ConnectionId
  /-- The ids of the attempts, oldest first. -/
  attempts : List ConnectionId
  /-- The peer's record has been Pending since the last attempt. -/
  reset : Bool

namespace Attempting

variable (peer : ServerId)

/-- The record is the one of the last attempt, unless it gets another id. -/
def observe (self : Attempting) (os : Os) (after : Server) : Attempting :=
  let self' := { self with server := after, drawn := os.newConnectionId peer :: self.drawn }
  match after.currentWorld.remote? peer with
  | none => self'
  | some r =>
      if r.status = .pending then { self' with reset := true }
      else if self.server.connectionId? peer = some r.connectionId then self'
      else { self' with attempts := self.attempts ++ [r.connectionId], reset := false }

def step (self : Attempting) (turn : Os × Event) : Option Attempting :=
  (self.server.step turn).map (self.observe peer turn.1)

/-- A record that is there at the start counts as an attempt. -/
def start (server : Server) : Attempting :=
  let ids := (server.connectionId? peer).toList
  { server, drawn := ids, attempts := ids
    reset := server.remoteStatus? peer == some .pending }

/-- The place of the peer's current attempt among its attempts. -/
def current? (self : Attempting) : Option Nat :=
  match self.server.currentWorld.remote? peer with
  | none => none
  | some _ => if self.reset then none else some (self.attempts.length - 1)

/-- An id that has not been drawn before. -/
def Fresh (self : Attempting) (turn : Os × Event) : Prop :=
  turn.1.newConnectionId peer ∉ self.drawn

/-- A report that changes what the server thinks of the peer is about the peer, and about no
attempt but the current one. -/
def IgnoresLate (self : Attempting) (turn : Os × Event) : Prop :=
  ∀ about connectionId after, turn.2.failure? = some (about, connectionId) →
    self.server.step turn = some after →
    after.remoteStatus? peer ≠ self.server.remoteStatus? peer →
    about = peer ∧ ∀ n, self.attempts[n]? = some connectionId → self.current? peer = some n

/-- A report with the id in the peer's record comes before the record is reset. -/
def InTime (self : Attempting) (turn : Os × Event) : Prop :=
  ∀ report ∈ turn.2.failure?, report.1 = peer →
    self.server.connectionId? peer = some report.2 → self.reset = false

/-- What holds while the ids that are drawn are new. -/
structure Inv (state : Attempting) : Prop where
  nodup : state.attempts.Nodup
  drawn : ∀ id ∈ state.attempts, id ∈ state.drawn
  record : ∀ id, state.server.connectionId? peer = some id → id ∈ state.drawn
  last : ∀ id, state.server.connectionId? peer = some id → state.reset = false →
    state.attempts.getLast? = some id

variable {peer}

theorem inv_start (server : Server) : Inv peer (start peer server) := by
  refine ⟨?_, fun _ h => h, fun id hid => ?_, fun id hid _ => ?_⟩
  · simp only [start]
    cases server.connectionId? peer <;> simp
  · have hid : server.connectionId? peer = some id := hid
    simp [start, hid]
  · have hid : server.connectionId? peer = some id := hid
    simp [start, hid]

theorem Inv.step {self after : Attempting} {turn : Os × Event} (h : Inv peer self)
    (hfresh : Fresh peer self turn) (hstep : self.step peer turn = some after) :
    Inv peer after := by
  obtain ⟨server, hserver, rfl⟩ := Option.map_eq_some_iff.mp hstep
  have hdraws := Server.draws_step peer hserver
  have hdrawn (id : ConnectionId) (hid : id ∈ self.attempts) :
      id ∈ turn.1.newConnectionId peer :: self.drawn := List.mem_cons_of_mem _ (h.drawn id hid)
  have hrecord (id : ConnectionId) (hid : server.connectionId? peer = some id) :
      id ∈ turn.1.newConnectionId peer :: self.drawn := by
    rcases hdraws.connectionId? hid with rfl | hsame
    · exact List.mem_cons_self
    · exact List.mem_cons_of_mem _ (h.record id hsame)
  simp only [observe]
  cases hr : server.currentWorld.remote? peer with
  | none =>
      have hnone : server.connectionId? peer = none := by rw [Server.connectionId?, hr]; rfl
      refine ⟨h.nodup, hdrawn, hrecord, fun id hid => ?_⟩
      cases hnone.symm.trans hid
  | some r =>
      have hsome : server.connectionId? peer = some r.connectionId := by
        rw [Server.connectionId?, hr]
        rfl
      dsimp only
      split
      next => exact ⟨h.nodup, hdrawn, hrecord, fun _ _ hreset => by cases hreset⟩
      next =>
          split
          next hsame =>
              refine ⟨h.nodup, hdrawn, hrecord, fun id hid hreset => ?_⟩
              cases hsome.symm.trans hid
              exact h.last _ hsame hreset
          next hother =>
              -- The record has the new id, which is that of no attempt before.
              have hnew := (hdraws.connectionId? hsome).resolve_right hother
              have hnodup : (self.attempts ++ [r.connectionId]).Nodup := by
                refine List.nodup_append.mpr ⟨h.nodup, List.nodup_singleton _, ?_⟩
                rintro id hid _ hlast rfl
                cases List.mem_singleton.mp hlast
                exact hfresh (hnew ▸ h.drawn _ hid)
              refine ⟨hnodup, fun id hid => ?_, hrecord, fun id hid _ => ?_⟩
              · rcases List.mem_append.mp hid with hid | hid
                · exact hdrawn id hid
                · cases List.mem_singleton.mp hid
                  exact hrecord _ hsome
              · cases hsome.symm.trans hid
                exact List.getLast?_concat

/-! ## Late reports -/

/-- The turn of a report. -/
theorem handle_of_failure? {os : Os} {self : Server} {event : Event} {about : ServerId}
    {connectionId : ConnectionId} (h : event.failure? = some (about, connectionId)) :
    ∃ reason noteReason,
      self.handle os event = some (self.attemptFailed os about connectionId reason noteReason) := by
  unfold Event.failure? at h
  split at h
  next => cases h; exact ⟨_, _, rfl⟩
  next => cases h; exact ⟨_, _, rfl⟩
  next => cases h

theorem attemptFailed_stale {os : Os} {self : Server} {about : ServerId}
    {connectionId : ConnectionId} (h : self.connectionId? about ≠ some connectionId)
    (reason noteReason : String) :
    (self.attemptFailed os about connectionId reason noteReason).1 = self := by
  have hstale : self.currentWorld.isStaleConnectionAttempt about connectionId = true :=
    bne_iff_ne.mpr h
  rw [Server.attemptFailed, if_pos hstale]

/-- A report with the id of the record marks it. -/
theorem attemptFailed_marks {os : Os} {self : Server} {about : ServerId}
    {connectionId : ConnectionId} (h : self.connectionId? about = some connectionId)
    (reason noteReason : String) :
    ∃ f : RemoteState → RemoteState, (∀ r, (f r).status.ended = true) ∧
      (self.attemptFailed os about connectionId reason noteReason).1 =
        { self with currentWorld := self.currentWorld.modifyRemote about f } := by
  have hcurrent : ¬self.currentWorld.isStaleConnectionAttempt about connectionId = true :=
    fun hstale => bne_iff_ne.mp hstale h
  rw [Server.attemptFailed, if_neg hcurrent]
  dsimp only
  split
  next => exact ⟨_, fun _ => rfl, rfl⟩
  next => exact ⟨_, fun _ => rfl, rfl⟩

/-- The id of the last attempt stands for no other attempt. -/
theorem Inv.current? {self : Attempting} (h : Inv peer self) {connectionId : ConnectionId}
    (hid : self.server.connectionId? peer = some connectionId) (hreset : self.reset = false)
    {n : Nat} (hn : self.attempts[n]? = some connectionId) : self.current? peer = some n := by
  have hlast := h.last connectionId hid hreset
  rw [List.getLast?_eq_getElem?] at hlast
  have hplace : n = self.attempts.length - 1 :=
    (List.getElem?_inj (List.getElem?_eq_some_iff.mp hn).1 h.nodup).mp (hn.trans hlast.symm)
  obtain ⟨r, hr, -⟩ := Option.map_eq_some_iff.mp hid
  simp only [Attempting.current?, hr, hreset, Bool.false_eq_true, if_false, hplace]

theorem remoteStatus?_modifyRemote (self : Server) (about peer : ServerId)
    (f : RemoteState → RemoteState) :
    ({ self with currentWorld := self.currentWorld.modifyRemote about f } : Server).remoteStatus?
        peer =
      (self.currentWorld.remote? peer).map fun r =>
        if peer = about then (f r).status else r.status := by
  simp only [Server.remoteStatus?, WorldState.remote?, WorldState.modifyRemote,
    AssocMap.get_modify]
  split <;> simp [Function.comp_def]

theorem step_of_failure? {self : Server} {turn : Os × Event} {about : ServerId}
    {connectionId : ConnectionId} (h : turn.2.failure? = some (about, connectionId)) :
    ∃ reason noteReason, self.step turn =
      some (self.attemptFailed turn.1 about connectionId reason noteReason).1 := by
  obtain ⟨reason, noteReason, hhandle⟩ := @handle_of_failure? turn.1 self _ _ _ h
  exact ⟨reason, noteReason, by rw [Server.step, hhandle]; rfl⟩

theorem Inv.ignoresLate {self : Attempting} (h : Inv peer self) {turn : Os × Event}
    (htime : InTime peer self turn) : IgnoresLate peer self turn := by
  intro about connectionId after hfailure hstep hchanged
  obtain ⟨reason, noteReason, hturn⟩ := @step_of_failure? self.server turn _ _ hfailure
  cases hstep.symm.trans hturn
  by_cases hid : self.server.connectionId? about = some connectionId
  · obtain ⟨f, -, hmarks⟩ := @attemptFailed_marks turn.1 _ _ _ hid reason noteReason
    have habout : peer = about := by
      by_contra hne
      refine hchanged ?_
      simp only [hmarks, remoteStatus?_modifyRemote, if_neg hne]
      rfl
    subst habout
    exact ⟨rfl, fun n hn => h.current? hid (htime _ hfailure rfl hid) hn⟩
  · rw [attemptFailed_stale hid] at hchanged
    exact absurd rfl hchanged

/-- A report of the attempt that failed gets through to a record that has been reset. -/
theorem not_ignoresLate_of_reset {self : Attempting} {connectionId : ConnectionId}
    {turn : Os × Event} (hfailure : turn.2.failure? = some (peer, connectionId))
    (hpending : self.server.remoteStatus? peer = some .pending)
    (hid : self.server.connectionId? peer = some connectionId) (hreset : self.reset = true)
    (hmem : connectionId ∈ self.attempts) : ¬IgnoresLate peer self turn := by
  intro h
  obtain ⟨reason, noteReason, hturn⟩ := @step_of_failure? self.server turn _ _ hfailure
  obtain ⟨f, hmarked, hmarks⟩ := @attemptFailed_marks turn.1 _ _ _ hid reason noteReason
  obtain ⟨r, hr, -⟩ := Option.map_eq_some_iff.mp hpending
  have hchanged :
      (self.server.attemptFailed turn.1 peer connectionId reason noteReason).1.remoteStatus? peer ≠
        self.server.remoteStatus? peer := by
    rw [hpending, hmarks, remoteStatus?_modifyRemote, hr, Option.map_some, if_pos rfl]
    intro heq
    have hended := hmarked r
    rw [Option.some.inj heq] at hended
    cases hended
  obtain ⟨n, hn⟩ := List.mem_iff_getElem?.mp hmem
  have hcurrent := (h peer connectionId _ hfailure hturn hchanged).2 n hn
  simp only [Attempting.current?, hr, hreset, if_true] at hcurrent
  cases hcurrent

/-- While the ids that are drawn are new, and no report with the id of a record comes after the
record is reset, a report changes nothing but the status of the attempt that it is about. -/
theorem ignoresLate_of_inTime {server : Server} {turns : List (Os × Event)}
    (hfresh : Run.Meets (step peer) (Fresh peer) (start peer server) turns)
    (htime : Run.Meets (step peer) (InTime peer) (start peer server) turns) :
    Run.Meets (step peer) (IgnoresLate peer) (start peer server) turns :=
  Run.Meets.of_invariant (fun _ _ _ hinv hmeets hstep => hinv.step hmeets.1 hstep)
    (fun _ _ hinv hmeets => hinv.ignoresLate hmeets.2) (inv_start server)
    (Run.meets_and.mpr ⟨hfresh, htime⟩)

instance (self : Attempting) (turn : Os × Event) : Decidable (Fresh peer self turn) :=
  inferInstanceAs (Decidable (_ ∉ _))

instance (self : Attempting) (turn : Os × Event) : Decidable (InTime peer self turn) :=
  inferInstanceAs (Decidable (∀ report ∈ turn.2.failure?, report.1 = peer →
    self.server.connectionId? peer = some report.2 → self.reset = false))

/-- The world at some time, with the id that is drawn next. -/
def osAt (now : Instant) (connectionId : ConnectionId) : Os :=
  { Os.bare with now, newConnectionId := fun _ => connectionId }

/-- The peer 5 answers, but the connection is not made in time. -/
def timedOut : List (Os × Event) :=
  let addr := "wss://a".toList
  [(osAt 0 1, .notification (.acceptConnection addr)),
    (osAt 0 2, .signaling addr (.bound 0 [5])),
    (osAt 0 3, .request 1 (.updateConfig [5] [])),
    (osAt 0 4, .notification (.connect 5 (.sctp addr))),
    (osAt 0 5, .fixWorld),
    (osAt 0 6, .signaling addr (.connect 5 0 false)),
    (osAt 40000 7, .fixWorld)]

/-- A late report of the attempt that timed out. -/
def lateReport (connectionId : ConnectionId) : Os × Event :=
  (osAt 40000 connectionId,
    .message { host := 5, body := .failedToConnect 5 "timeout" 6, reqId := none })

def connectAgain : Os × Event :=
  (osAt 40000 8, .notification (.connect 5 (.sctp "wss://a".toList)))

def fresh : Server := .new 0 ⟨none, [], []⟩ WorldState.new

theorem ignoresLate_of_inTime_sample :
    Run.Meets (step 5) (IgnoresLate 5) (start 5 fresh)
      (timedOut ++ [connectAgain, (osAt 40000 9, .fixWorld), lateReport 10]) :=
  ignoresLate_of_inTime (by decide +kernel) (by decide +kernel)

/-- The report comes between the editor's request and the next attempt. -/
theorem not_ignoresLate :
    ∃ self, Run.run (step 5) (start 5 fresh) (timedOut ++ [connectAgain]) = some self ∧
      Run.Meets (step 5) (Fresh 5) (start 5 fresh) (timedOut ++ [connectAgain, lateReport 9]) ∧
      self.server.remoteStatus? 5 = some .pending ∧ ¬IgnoresLate 5 self (lateReport 9) :=
  ⟨_, rfl, by decide +kernel, rfl, not_ignoresLate_of_reset rfl rfl rfl rfl (by decide)⟩

end Attempting

end CollabMode
