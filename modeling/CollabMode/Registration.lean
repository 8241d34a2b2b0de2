import CollabMode.Lib.Run
import CollabMode.Lib.Slots
import CollabMode.Signaling

/-!
# Registration follows the connections

The map of the signaling server is a registry of slots: a connection claims the slot of
its id when it binds, it writes a trust list with a `Trust` message, and it releases the
slot when its task ends.  `Watched` keeps the registry beside the tasks, and `Inv` says
that the map has what the registry says.

The server looks only at ids.  So a connection that was put out by another bind of its
id can still write over the trust list of the newer one and remove its entry.  `SparesLaterBinds`
leaves out just that.
-/

namespace CollabMode

namespace Signaling

abbrev Registry := Slots EndpointId ConnId (Finset EndpointId)

/-- The tasks, and what the connections have bound and declared. -/
structure Watched where
  tasks : Tasks
  registry : Registry

namespace Watched

def new : Watched where
  tasks := .new
  registry :=
    { owner := fun _ => none
      value := fun _ => ∅
      latest := fun _ => none
      key := fun _ => none
      holding := fun _ => False
      declared := fun _ => ∅ }

section

variable {Identity : Type} (parseIdentityHeader : String → Except String Identity)
  (verifyIdentity : Identity → String → Except String CertDerHash)

/-- What an event that takes place means for the registry. -/
def note (registry : Registry) : Event → Registry
  | .upgrade c headers true =>
      match validateBind parseIdentityHeader verifyIdentity headers with
      | .ok (id, trusted) => registry.claim id c trusted
      | .error _ => registry
  | .receive c (.text (.trust sender trusted)) =>
      if registry.key c = some sender then registry.write sender c trusted.toFinset
      else registry
  | .remove c =>
      match registry.key c with
      | some id => registry.release id c
      | none => registry
  | _ => registry

def step (self : Watched) (event : Event) : Option Watched :=
  (self.tasks.step parseIdentityHeader verifyIdentity event).map fun tasks =>
    { tasks, registry := note parseIdentityHeader verifyIdentity self.registry event }

/-- An endpoint whose last bind belongs to an open connection has the channel and the
trust list of that connection. -/
def Follows (self : Watched) : Prop :=
  ∀ id c, self.registry.latest id = some c → self.tasks.Open c →
    self.tasks.server.getEndpointInfo id =
      some { msgTx := c, trusted := self.registry.declared c }

/-- The event leaves the map following the connections, and an entry that goes with it
belongs to the connection that ends. -/
def Keeps (self : Watched) (event : Event) : Prop :=
  ∀ after, self.step parseIdentityHeader verifyIdentity event = some after →
    after.Follows ∧
      ∀ id info, self.tasks.server.getEndpointInfo id = some info →
        after.tasks.server.getEndpointInfo id = none → event = .remove info.msgTx

end

/-- A connection ends only when no connection that bound its id later is still there,
and it does not declare another trust list than a connection that bound its id later
and is open. -/
def SparesLaterBinds (self : Watched) : Event → Prop
  | .remove c =>
      ∀ id streaming, self.tasks.conn c = some (.ended id streaming) →
        self.registry.MayRelease id c
  | .receive c (.text (.trust sender trusted)) =>
      ∀ streaming, self.tasks.conn c = some (.serving sender streaming) →
        self.registry.MayWrite self.tasks.Open sender c trusted.toFinset
  | _ => True

end Watched

/-! ## The tasks -/

/-- The id that the task has bound. -/
def Conn.endpointId : Conn → Option EndpointId
  | .upgrading => none
  | .serving id _ => some id
  | .ended id _ => some id

namespace Tasks

def boundTo (self : Tasks) (c : ConnId) : Option EndpointId :=
  (self.conn c).bind Conn.endpointId

theorem boundTo_of_conn {self : Tasks} {c : ConnId} {conn : Option Conn}
    (h : self.conn c = conn) : self.boundTo c = conn.bind Conn.endpointId := by
  rw [boundTo, h]

theorem conn_setConn (self : Tasks) (c c' : ConnId) (conn : Conn) :
    (self.setConn c conn).conn c' = if c' = c then some conn else self.conn c' :=
  AssocMap.get_insert _ _ _ _

theorem conn_dropConn (self : Tasks) (c c' : ConnId) :
    (self.dropConn c).conn c' = if c' = c then none else self.conn c' :=
  AssocMap.get_erase _ _ _

/-- No connection binds, and none opens. -/
structure SameBound (before after : Tasks) : Prop where
  boundTo : ∀ c, after.boundTo c = before.boundTo c
  opened : ∀ c, after.Open c → before.Open c
  next : before.next ≤ after.next
  upgrading : ∀ c, after.conn c = some .upgrading →
    before.conn c = some .upgrading ∨ c = before.next
  known : ∀ c, after.conn c ≠ none → before.conn c ≠ none ∨ c < after.next

/-- The connections are those of before, but for one, which keeps its id. -/
theorem SameBound.of_conn {before after : Tasks} {c : ConnId}
    (hconn : ∀ c', c' ≠ c → after.conn c' = before.conn c')
    (hbound : after.boundTo c = before.boundTo c) (hopen : after.Open c → before.Open c)
    (hnext : before.next ≤ after.next)
    (hup : after.conn c = some .upgrading →
      before.conn c = some .upgrading ∨ c = before.next)
    (hknown : after.conn c ≠ none → before.conn c ≠ none ∨ c < after.next) :
    SameBound before after where
  boundTo c' := by
    by_cases hc : c' = c
    · rw [hc, hbound]
    · rw [Tasks.boundTo, Tasks.boundTo, hconn c' hc]
  opened c' h := by
    by_cases hc : c' = c
    · exact hc ▸ hopen (hc ▸ h)
    · rw [Open, hconn c' hc] at h
      exact h
  next := hnext
  upgrading c' h := by
    by_cases hc : c' = c
    · exact hc ▸ hup (hc ▸ h)
    · exact .inl ((hconn c' hc).symm.trans h)
  known c' h := by
    by_cases hc : c' = c
    · exact hc ▸ hknown (hc ▸ h)
    · exact .inl (hconn c' hc ▸ h)

end Tasks

namespace Server

variable (self : Server) (id id' : EndpointId)

theorem getEndpointInfo_register (info : EndpointInfo) :
    (self.register id info).getEndpointInfo id' =
      if id' = id then some info else self.getEndpointInfo id' :=
  AssocMap.get_insert _ _ _ _

theorem getEndpointInfo_removeEndpoint :
    (self.removeEndpoint id).getEndpointInfo id' =
      if id' = id then none else self.getEndpointInfo id' :=
  AssocMap.get_erase _ _ _

theorem getEndpointInfo_updateTrust (trusted : Finset EndpointId) :
    (self.updateTrust id trusted).getEndpointInfo id' =
      if id' = id then (self.getEndpointInfo id').map fun info => { info with trusted := trusted }
      else self.getEndpointInfo id' :=
  AssocMap.get_modify _ _ _ _

variable {self}

@[simp] theorem send_server (streaming : ConnId → Bool) (c : ConnId) (frame : Frame) :
    (self.send streaming c frame).server = self := by
  unfold send
  split <;> rfl

/-- Only a `Trust` message for the id of its connection changes the map. -/
theorem handleMessage_server (streaming : ConnId → Bool) (c : ConnId)
    (endpointId : EndpointId) (msg : Received) :
    (self.handleMessage streaming c (some endpointId) msg).server =
      match msg with
      | .text (.trust sender trusted) =>
          if endpointId = sender then self.updateTrust sender trusted.toFinset else self
      | _ => self := by
  have hroute (sender receiver : EndpointId) (msg : SignalingMsg) :
      (self.route streaming c (some endpointId) sender receiver msg).server = self := by
    unfold route
    split
    next =>
        split
        next => exact send_server _ _ _
        next =>
            split
            next => exact send_server _ _ _
            next => exact send_server _ _ _
    next => exact send_server _ _ _
  cases msg with
  | error => rfl
  | garbled => rfl
  | other => exact send_server _ _ _
  | text msg =>
      cases msg with
      | trust sender trusted =>
          by_cases hid : endpointId = sender
          · simp [handleMessage, checkId, hid]
          · simp [handleMessage, checkId, hid]
      | connect sender receiver initiator => exact hroute _ _ _
      | sdp sender receiver sdp => exact hroute _ _ _
      | candidate sender receiver candidate => exact hroute _ _ _
      | ping => rfl
      | pong => rfl
      | bound id trusted => exact send_server _ _ _
      | trusted id trusted => exact send_server _ _ _
      | idNotFound id reason => exact send_server _ _ _
      | rejected id reason => exact send_server _ _ _
      | terminate reason => exact send_server _ _ _

end Server

/-! ## What a step does -/

section

variable {Identity : Type} {parseIdentityHeader : String → Except String Identity}
  {verifyIdentity : Identity → String → Except String CertDerHash}

namespace Tasks

/-- A step binds, or it declares a trust list, or it removes an entry, or it does
nothing of the kind. -/
inductive Step (before : Tasks) : Event → Tasks → Prop where
  | quiet {event : Event} {after : Tasks} (same : SameBound before after)
      (server : after.server = before.server)
      (note : ∀ registry : Registry,
        (∀ c id, before.boundTo c = some id → registry.key c = some id) →
        Watched.note parseIdentityHeader verifyIdentity registry event = registry)
      (unremoved : ∀ c, event ≠ .remove c)
      (spares : ∀ registry, Watched.SparesLaterBinds ⟨before, registry⟩ event) :
      Step before event after
  | bind {c : ConnId} {headers : BindHeaders} {id : EndpointId} {trusted : Finset EndpointId}
      (hconn : before.conn c = some .upgrading)
      (hvalid : validateBind parseIdentityHeader verifyIdentity headers = .ok (id, trusted)) :
      Step before (.upgrade c headers true)
        { before.setConn c (.serving id true) with
          server := before.server.register id { msgTx := c, trusted := trusted } }
  | trust {c : ConnId} {sender : EndpointId} {streaming : Bool} {trusted : List EndpointId}
      {after : Tasks} (hconn : before.conn c = some (.serving sender streaming))
      (same : SameBound before after) (others : ∀ p, p ≠ c → before.Open p → after.Open p)
      (server : after.server = before.server.updateTrust sender trusted.toFinset) :
      Step before (.receive c (.text (.trust sender trusted))) after
  | remove {c : ConnId} {id : EndpointId} {streaming : Bool}
      (hconn : before.conn c = some (.ended id streaming)) :
      Step before (.remove c)
        { before.dropConn c with server := before.server.removeEndpoint id }

theorem sameBound_dropConn {self : Tasks} {c : ConnId} (h : self.conn c = some .upgrading) :
    SameBound self (self.dropConn c) := by
  have hnone : (self.dropConn c).conn c = none := by rw [conn_dropConn, if_pos rfl]
  refine .of_conn (c := c) (fun c' hc => by rw [conn_dropConn, if_neg hc]) ?_ ?_
    (Nat.le_refl _) ?_ (fun hknown => absurd hnone hknown)
  · rw [boundTo_of_conn hnone, boundTo_of_conn h]
    rfl
  · rintro ⟨id, hopen⟩
    cases hnone.symm.trans hopen
  · intro hup
    cases hnone.symm.trans hup

/-- The connection stays as it is, or it goes on to `conn`, with the same id. -/
theorem sameBound_setConn {self : Tasks} {c : ConnId} {conn conn' : Conn}
    (h : self.conn c = some conn) (hid : conn'.endpointId = conn.endpointId)
    (hbound : conn.endpointId ≠ none) (hopen : ∀ id, conn' ≠ .serving id true) :
    SameBound self (self.setConn c conn') := by
  have hself : (self.setConn c conn').conn c = some conn' := by rw [conn_setConn, if_pos rfl]
  refine .of_conn (c := c) (fun c' hc => by rw [conn_setConn, if_neg hc]) ?_ ?_
    (Nat.le_refl _) ?_ fun _ => .inl (by rw [h]; nofun)
  · rw [boundTo_of_conn hself, boundTo_of_conn h]
    exact hid
  · rintro ⟨id, hserving⟩
    exact absurd (Option.some.inj (hself.symm.trans hserving)) (hopen id)
  · intro hup
    cases Option.some.inj (hself.symm.trans hup)
    exact absurd hid.symm hbound

/-- The connection is served on, or it ends and keeps its id. -/
theorem receive_spec {self : Tasks} {c : ConnId} {id : EndpointId} {streaming : Bool}
    (h : self.conn c = some (.serving id streaming)) (msg : Received) :
    SameBound self (self.receive c id streaming msg).2 ∧
      (∀ p, p ≠ c → self.Open p → (self.receive c id streaming msg).2.Open p) ∧
      (self.receive c id streaming msg).2.server =
        (self.server.handleMessage self.streaming c (some id) msg).server := by
  cases hok : (self.server.handleMessage self.streaming c (some id) msg).ok with
  | true =>
      simp only [receive, hok, if_true]
      exact ⟨.of_conn (c := c) (fun _ _ => rfl) rfl (fun hopen => hopen) (Nat.le_refl _) .inl
        .inl, fun _ _ hopen => hopen, trivial⟩
  | false =>
      simp only [receive, hok, Bool.false_eq_true, if_false]
      obtain ⟨hbound, hopened, hnext, hup, hknown⟩ :
          SameBound self (self.setConn c (.ended id streaming)) :=
        sameBound_setConn h rfl nofun nofun
      refine ⟨⟨hbound, hopened, hnext, hup, hknown⟩, fun p hp hopen => ?_, trivial⟩
      obtain ⟨id', hopen⟩ := hopen
      exact ⟨id', ((conn_setConn _ _ _ _).trans (if_neg hp)).trans hopen⟩

theorem step_inv {self after : Tasks} {event : Event} (hnext : self.conn self.next = none)
    (h : self.step parseIdentityHeader verifyIdentity event = some after) :
    @Step Identity parseIdentityHeader verifyIdentity self event after := by
  obtain ⟨⟨sent, tasks⟩, hhandle, rfl⟩ := Option.map_eq_some_iff.mp h
  cases event with
  | accept =>
      cases hhandle
      have hself : (self.setConn self.next .upgrading).conn self.next = some .upgrading := by
        rw [conn_setConn, if_pos rfl]
      refine .quiet (.of_conn (c := self.next) (fun c hc => ?_) ?_ ?_ (Nat.le_succ _)
        (fun _ => .inr rfl) fun _ => .inr (Nat.lt_succ_self _)) rfl (fun _ _ => rfl) nofun
        fun _ => trivial
      · exact (conn_setConn _ _ _ _).trans (if_neg hc)
      · exact (boundTo_of_conn hself).trans (boundTo_of_conn hnext).symm
      · rintro ⟨id, hopen⟩
        cases hself.symm.trans hopen
  | upgrade c headers completes =>
      simp only [handle] at hhandle
      split at hhandle
      next hconn =>
          cases hhandle
          unfold upgrade
          cases hvalid : validateBind parseIdentityHeader verifyIdentity headers with
          | error reason =>
              refine .quiet (sameBound_dropConn hconn) rfl (fun _ _ => ?_) nofun fun _ => trivial
              cases completes <;> simp [Watched.note, hvalid]
          | ok bound =>
              cases completes with
              | true => exact .bind hconn hvalid
              | false =>
                  exact .quiet (sameBound_dropConn hconn) rfl (fun _ _ => rfl) nofun
                    fun _ => trivial
      next => cases hhandle
  | receive c msg =>
      simp only [handle] at hhandle
      split at hhandle
      next id streaming hconn =>
          rw [← congrArg Prod.snd (Option.some.inj hhandle)]
          obtain ⟨hsame, hothers, hserver⟩ := receive_spec hconn msg
          rw [Server.handleMessage_server] at hserver
          by_cases htrust : ∃ trusted, msg = .text (.trust id trusted)
          · obtain ⟨trusted, rfl⟩ := htrust
            exact .trust hconn hsame hothers (hserver.trans (if_pos rfl))
          · have hother {sender : EndpointId} {trusted : List EndpointId}
                (h : msg = .text (.trust sender trusted)) : id ≠ sender := by
              rintro rfl
              exact htrust ⟨trusted, h⟩
            refine .quiet hsame ?_ (fun registry hkey => ?_) nofun fun registry => ?_
            · rw [hserver]
              split
              next sender trusted => exact if_neg (hother rfl)
              next => rfl
            · unfold Watched.note
              split
              next => cases ‹_ = _›
              next heq =>
                  cases heq
                  rw [hkey c id (boundTo_of_conn hconn)]
                  exact if_neg fun heq => hother rfl (Option.some.inj heq)
              next heq => cases heq
              next => rfl
            · unfold Watched.SparesLaterBinds
              split
              next heq => cases heq
              next heq =>
                  cases heq
                  intro streaming' hconn'
                  cases hconn.symm.trans hconn'
                  exact absurd rfl (hother rfl)
              next => trivial
      next => cases hhandle
  | streamEnds c =>
      simp only [handle] at hhandle
      split at hhandle
      next id hconn =>
          cases hhandle
          exact .quiet (sameBound_setConn hconn rfl nofun nofun) rfl (fun _ _ => rfl) nofun
            fun _ => trivial
      next id hconn =>
          cases hhandle
          exact .quiet (sameBound_setConn hconn rfl nofun nofun) rfl (fun _ _ => rfl) nofun
            fun _ => trivial
      next => cases hhandle
  | drained c =>
      simp only [handle] at hhandle
      split at hhandle
      next id hconn =>
          cases hhandle
          exact .quiet (sameBound_setConn hconn rfl nofun nofun) rfl (fun _ _ => rfl) nofun
            fun _ => trivial
      next => cases hhandle
  | remove c =>
      simp only [handle] at hhandle
      split at hhandle
      next id streaming hconn =>
          cases hhandle
          exact .remove hconn
      next => cases hhandle

end Tasks

/-! ## The registry -/

namespace Watched

/-- The map and the tasks have what the registry says. -/
structure Agrees (watched : Watched) : Prop where
  map : ∀ id, watched.tasks.server.getEndpointInfo id =
    (watched.registry.owner id).map fun c => { msgTx := c, trusted := watched.registry.value id }
  key : ∀ c id, watched.tasks.boundTo c = some id → watched.registry.key c = some id
  holding : ∀ c, watched.registry.holding c ↔ watched.tasks.boundTo c ≠ none
  upgrading : ∀ c, watched.tasks.conn c = some .upgrading → watched.registry.key c = none
  fresh : ∀ c, watched.tasks.next ≤ c → watched.registry.key c = none ∧ watched.tasks.conn c = none
  kept : watched.registry.Kept

/-- The registry is in order, and every open connection finds its own trust list. -/
structure Inv (watched : Watched) : Prop where
  agrees : watched.Agrees
  told : watched.registry.Told watched.tasks.Open

theorem inv_new : new.Inv where
  agrees :=
    { map := fun _ => rfl
      key := nofun
      holding := fun _ => ⟨False.elim, fun h => h rfl⟩
      upgrading := nofun
      fresh := fun _ _ => ⟨rfl, rfl⟩
      kept := ⟨nofun, fun _ _ => ⟨nofun, nofun⟩⟩ }
  told := nofun

theorem Agrees.holding_of_open {self : Watched} (h : self.Agrees) {c : ConnId}
    (hopen : self.tasks.Open c) : self.registry.holding c := by
  obtain ⟨id, hconn⟩ := hopen
  refine (h.holding c).mpr ?_
  rw [Tasks.boundTo_of_conn hconn]
  nofun

theorem Agrees.follows_iff {self : Watched} (h : self.Agrees) :
    self.Follows ↔ self.registry.Told self.tasks.Open := by
  refine forall_congr' fun id => forall_congr' fun c =>
    forall_congr' fun hlatest => forall_congr' fun hopen => ?_
  have howner := (h.kept.owner id c).mpr ⟨hlatest, h.holding_of_open hopen⟩
  rw [h.map, howner]
  simp

/-- What the registry does not note leaves it in order. -/
theorem Agrees.sameBound {self : Watched} (h : self.Agrees) {tasks : Tasks}
    {registry : Registry} (hsame : self.tasks.SameBound tasks)
    (hmap : ∀ id, tasks.server.getEndpointInfo id =
      (registry.owner id).map fun c => { msgTx := c, trusted := registry.value id })
    (hkey : registry.key = self.registry.key)
    (hholding : registry.holding = self.registry.holding) (hkept : registry.Kept) :
    Agrees { tasks, registry } where
  map := hmap
  key c id hbound := by
    rw [hsame.boundTo] at hbound
    exact hkey ▸ h.key c id hbound
  holding c := by
    rw [hholding, hsame.boundTo]
    exact h.holding c
  upgrading c hup := by
    rcases hsame.upgrading c hup with hup | rfl
    · exact hkey ▸ h.upgrading c hup
    · exact hkey ▸ (h.fresh _ (Nat.le_refl _)).1
  fresh c hc := by
    obtain ⟨hnokey, hnoconn⟩ := h.fresh c (Nat.le_trans hsame.next hc)
    refine ⟨hkey ▸ hnokey, by_contra fun hconn => ?_⟩
    rcases hsame.known c hconn with hbefore | hlt
    · exact hbefore hnoconn
    · exact absurd hc (Nat.not_le.mpr hlt)
  kept := hkept

theorem step_inv {self after : Watched} {event : Event} (h : self.Agrees)
    (hstep : self.step parseIdentityHeader verifyIdentity event = some after) :
    @Tasks.Step Identity parseIdentityHeader verifyIdentity self.tasks event after.tasks ∧
      after.registry = note parseIdentityHeader verifyIdentity self.registry event := by
  obtain ⟨tasks, htasks, rfl⟩ := Option.map_eq_some_iff.mp hstep
  exact ⟨Tasks.step_inv (h.fresh _ (Nat.le_refl _)).2 htasks, rfl⟩

/-- A bind claims the slot of its id. -/
theorem Agrees.bind {self : Watched} (h : self.Agrees) {c : ConnId} {id : EndpointId}
    (hconn : self.tasks.conn c = some .upgrading) (trusted : Finset EndpointId) :
    Agrees
      { tasks := { self.tasks.setConn c (.serving id true) with
          server := self.tasks.server.register id { msgTx := c, trusted := trusted } }
        registry := self.registry.claim id c trusted } := by
  have hnew := h.upgrading c hconn
  have hset (c' : ConnId) : (self.tasks.setConn c (.serving id true)).conn c' =
      if c' = c then some (.serving id true) else self.tasks.conn c' :=
    Tasks.conn_setConn _ _ _ _
  have hbound (c' : ConnId) : (self.tasks.setConn c (.serving id true)).boundTo c' =
      if c' = c then some id else self.tasks.boundTo c' := by
    rw [Tasks.boundTo_of_conn (hset c')]
    split
    next => rfl
    next => rfl
  constructor
  · intro id'
    refine (Server.getEndpointInfo_register _ _ _ _).trans ?_
    simp only [Slots.claim, Function.update_apply]
    split
    next => rfl
    next => exact h.map id'
  · intro c' id' hid
    have hid := (hbound c').symm.trans hid
    simp only [Slots.claim, Function.update_apply]
    split at hid
    next hc => rw [if_pos hc, hid]
    next hc => rw [if_neg hc, h.key c' id' hid]
  · intro c'
    refine Iff.trans ?_ (Iff.of_eq (congrArg (· ≠ none) (hbound c'))).symm
    simp only [Slots.claim]
    by_cases hc : c' = c
    · simp [hc]
    · simp [hc, h.holding c']
  · intro c' hup
    have hup := (hset c').symm.trans hup
    split at hup
    next => cases hup
    next hc => simpa [Slots.claim, hc] using h.upgrading c' hup
  · intro c' hc'
    obtain ⟨hkey, hnone⟩ := h.fresh c' hc'
    have hc : c' ≠ c := by
      rintro rfl
      cases hnone.symm.trans hconn
    exact ⟨by simpa [Slots.claim, hc] using hkey,
      (hset c').trans ((if_neg hc).trans hnone)⟩
  · exact h.kept.claim hnew

/-- A connection that ends releases the slot of its id. -/
theorem Agrees.remove {self : Watched} (h : self.Agrees) {c : ConnId} {id : EndpointId}
    {streaming : Bool} (hconn : self.tasks.conn c = some (.ended id streaming))
    (hmay : self.registry.MayRelease id c) :
    Agrees
      { tasks := { self.tasks.dropConn c with
          server := self.tasks.server.removeEndpoint id }
        registry := self.registry.release id c } := by
  have hset (c' : ConnId) : (self.tasks.dropConn c).conn c' =
      if c' = c then none else self.tasks.conn c' := Tasks.conn_dropConn _ _ _
  have hbound (c' : ConnId) : (self.tasks.dropConn c).boundTo c' =
      if c' = c then none else self.tasks.boundTo c' := by
    rw [Tasks.boundTo_of_conn (hset c')]
    split
    next => rfl
    next => rfl
  constructor
  · intro id'
    refine (Server.getEndpointInfo_removeEndpoint _ _ _).trans ?_
    simp only [Slots.release, Function.update_apply]
    split
    next => rfl
    next => exact h.map id'
  · intro c' id' hid
    have hid := (hbound c').symm.trans hid
    split at hid
    next => cases hid
    next => exact h.key c' id' hid
  · intro c'
    refine Iff.trans ?_ (Iff.of_eq (congrArg (· ≠ none) (hbound c'))).symm
    simp only [Slots.release]
    by_cases hc : c' = c
    · simp [hc]
    · simp [hc, h.holding c']
  · intro c' hup
    have hup := (hset c').symm.trans hup
    split at hup
    next => cases hup
    next => exact h.upgrading c' hup
  · intro c' hc'
    obtain ⟨hkey, hnone⟩ := h.fresh c' hc'
    refine ⟨hkey, (hset c').trans ?_⟩
    split
    next => rfl
    next => exact hnone
  · exact h.kept.release (h.key c id (Tasks.boundTo_of_conn hconn)) hmay

/-- A `Trust` message writes to the slot of its id. -/
theorem Agrees.trust {self : Watched} (h : self.Agrees) {tasks : Tasks} {c : ConnId}
    {sender : EndpointId} {trusted : Finset EndpointId} (hsame : self.tasks.SameBound tasks)
    (hserver : tasks.server = self.tasks.server.updateTrust sender trusted) :
    Agrees { tasks, registry := self.registry.write sender c trusted } := by
  refine h.sameBound hsame (fun id => ?_) rfl rfl h.kept.write
  rw [hserver, Server.getEndpointInfo_updateTrust, h.map]
  simp only [Slots.write, Function.update_apply]
  split
  next => cases self.registry.owner id <;> rfl
  next => rfl

theorem Inv.step {self after : Watched} (h : self.Inv) {event : Event}
    (hspares : self.SparesLaterBinds event)
    (hstep : self.step parseIdentityHeader verifyIdentity event = some after) :
    after.Inv := by
  obtain ⟨hstep, hnote⟩ := step_inv h.agrees hstep
  obtain ⟨tasks, registry⟩ := after
  subst hnote
  cases hstep with
  | quiet hsame hserver hquiet _ _ =>
      simp only at hsame hserver
      rw [hquiet self.registry h.agrees.key]
      refine ⟨h.agrees.sameBound hsame (fun id => ?_) rfl rfl h.agrees.kept,
        h.told.mono hsame.opened⟩
      rw [hserver]
      exact h.agrees.map id
  | @bind c headers id trusted hconn hvalid =>
      have hnote : note parseIdentityHeader verifyIdentity self.registry
          (.upgrade c headers true) = self.registry.claim id c trusted := by
        simp [note, hvalid]
      rw [hnote]
      refine ⟨h.agrees.bind hconn trusted, h.told.claim h.agrees.kept
        (h.agrees.upgrading c hconn) fun p hopen => ?_⟩
      by_cases hp : p = c
      · exact .inl hp
      · obtain ⟨id', hopen⟩ := hopen
        exact .inr ⟨id', ((Tasks.conn_setConn _ _ _ _).trans (if_neg hp)).symm.trans hopen⟩
  | @trust c sender streaming trusted _ hconn hsame hothers hserver =>
      simp only at hsame hserver
      have hkey := h.agrees.key c sender (Tasks.boundTo_of_conn hconn)
      have hnote : note parseIdentityHeader verifyIdentity self.registry
          (.receive c (.text (.trust sender trusted))) =
            self.registry.write sender c trusted.toFinset := if_pos hkey
      rw [hnote]
      refine ⟨h.agrees.trust hsame hserver,
        (Slots.Told.write_iff h.agrees.kept (h.told.mono hsame.opened) hkey).mpr ?_⟩
      exact fun p hlatest hopen => hspares streaming hconn p hlatest (hsame.opened p hopen)
  | @remove c id streaming hconn =>
      have hkey := h.agrees.key c id (Tasks.boundTo_of_conn hconn)
      have hnote : note parseIdentityHeader verifyIdentity self.registry (.remove c) =
          self.registry.release id c := by
        simp [note, hkey]
      rw [hnote]
      refine ⟨h.agrees.remove hconn (hspares id streaming hconn), h.told.release.mono ?_⟩
      rintro p ⟨id', hopen⟩
      have hdrop := (Tasks.conn_dropConn self.tasks c p).symm.trans hopen
      split at hdrop
      next => cases hdrop
      next => exact ⟨id', hdrop⟩

/-- An entry goes only with a connection that ends. -/
theorem Inv.removes {self after : Watched} (h : self.Inv) {event : Event}
    (hspares : self.SparesLaterBinds event)
    (hstep : self.step parseIdentityHeader verifyIdentity event = some after)
    {id : EndpointId} {info : EndpointInfo}
    (hbefore : self.tasks.server.getEndpointInfo id = some info)
    (hafter : after.tasks.server.getEndpointInfo id = none) : event = .remove info.msgTx := by
  obtain ⟨hstep, -⟩ := step_inv h.agrees hstep
  obtain ⟨tasks, registry⟩ := after
  cases hstep with
  | quiet _ hserver _ _ _ =>
      simp only at hserver hafter
      rw [hserver, hbefore] at hafter
      cases hafter
  | bind hconn hvalid =>
      have hafter := (Server.getEndpointInfo_register _ _ _ _).symm.trans hafter
      split at hafter
      next => cases hafter
      next => cases hbefore.symm.trans hafter
  | trust hconn _ _ hserver =>
      simp only at hserver hafter
      rw [hserver, Server.getEndpointInfo_updateTrust, hbefore] at hafter
      split at hafter
      next => cases hafter
      next => cases hafter
  | @remove c id' streaming hconn =>
      have hafter := (Server.getEndpointInfo_removeEndpoint _ _ _).symm.trans hafter
      split at hafter
      next hid =>
          subst hid
          obtain ⟨p, howner, rfl⟩ :=
            Option.map_eq_some_iff.mp ((h.agrees.map id).symm.trans hbefore)
          rw [h.agrees.kept.owner_eq_iff.mpr (hspares id streaming hconn) p howner]
      next => cases hbefore.symm.trans hafter

/-- The map follows the connections after an event that spares later binds, and only then. -/
theorem Inv.keeps_iff {self : Watched} (h : self.Inv) (event : Event) :
    self.Keeps parseIdentityHeader verifyIdentity event ↔ self.SparesLaterBinds event := by
  constructor
  · intro hkeeps
    unfold SparesLaterBinds
    split
    next c =>
        intro id streaming hconn
        refine h.agrees.kept.owner_eq_iff.mp fun p howner => ?_
        have hstep : ∃ after, self.step parseIdentityHeader verifyIdentity (.remove c) =
            some after ∧ after.tasks.server = self.tasks.server.removeEndpoint id := by
          simp [Watched.step, Tasks.step, Tasks.handle, hconn]
        obtain ⟨after, hstep, hserver⟩ := hstep
        have hbefore := h.agrees.map id
        rw [howner] at hbefore
        have hremove := (hkeeps after hstep).2 id _ hbefore (by
          rw [hserver, Server.getEndpointInfo_removeEndpoint, if_pos rfl])
        cases hremove
        rfl
    next c sender trusted =>
        intro streaming hconn p hlatest hopen
        obtain ⟨hsame, hothers, hserver⟩ :=
          Tasks.receive_spec hconn (.text (.trust sender trusted))
        have hkey := h.agrees.key c sender (Tasks.boundTo_of_conn hconn)
        rw [Server.handleMessage_server] at hserver
        have hstep : self.step parseIdentityHeader verifyIdentity
            (.receive c (.text (.trust sender trusted))) =
            some
              { tasks := (self.tasks.receive c sender streaming
                  (.text (.trust sender trusted))).2
                registry := self.registry.write sender c trusted.toFinset } := by
          simp [Watched.step, Tasks.step, Tasks.handle, note, hconn, hkey]
        have hagrees : Agrees
            { tasks := (self.tasks.receive c sender streaming
                (.text (.trust sender trusted))).2
              registry := self.registry.write sender c trusted.toFinset } :=
          h.agrees.trust hsame (hserver.trans (if_pos rfl))
        have htold := hagrees.follows_iff.mp (hkeeps _ hstep).1
        have hmay := (Slots.Told.write_iff h.agrees.kept (h.told.mono hsame.opened) hkey).mp htold
        by_cases hp : p = c
        · exact .inl hp
        · exact hmay p hlatest (hothers p hp hopen)
    next => trivial
  · intro hspares after hstep
    exact ⟨(h.step hspares hstep).agrees.follows_iff.mpr (h.step hspares hstep).told,
      fun id info hbefore hafter => h.removes hspares hstep hbefore hafter⟩

variable (parseIdentityHeader verifyIdentity) in
/-- The map follows the connections in every state of a run when, and only when, every
event of the run spares later binds. -/
theorem follows_connections_iff (events : List Event) :
    Run.Meets (Watched.step parseIdentityHeader verifyIdentity)
        (Keeps parseIdentityHeader verifyIdentity) new events ↔
      Run.Meets (Watched.step parseIdentityHeader verifyIdentity) SparesLaterBinds new events :=
  (Run.Meets.congr (fun _ _ _ hinv hspares hstep => Inv.step hinv hspares hstep)
    (fun _ event hinv => (Inv.keeps_iff hinv event).symm) inv_new).symm

end Watched

end

/-- Alice opens a second connection before the task of her first one ends. -/
def aliceRebinds : List Event :=
  [.accept, .upgrade 0 aliceHeaders true, .accept, .upgrade 1 aliceHeaders true,
    .streamEnds 0, .drained 0]

/-- The end of the first connection removes the entry of the second one. -/
theorem not_follows_connections :
    ¬Run.Meets (Watched.step .ok aliceVerified) (Watched.Keeps .ok aliceVerified) .new
      (aliceRebinds ++ [.remove 0]) := by
  intro h
  have hbefore : ∃ w, Run.run (Watched.step .ok aliceVerified) .new aliceRebinds = some w ∧
      ∃ after, w.step .ok aliceVerified (.remove 0) = some after ∧
        after.registry.latest "alice::AA" = some 1 ∧
        after.tasks.conn 1 = some (.serving "alice::AA" true) ∧
        after.tasks.server.getEndpointInfo "alice::AA" = none :=
    ⟨_, rfl, _, rfl, by decide, by decide, by decide⟩
  obtain ⟨w, hrun, after, hstep, hlatest, hconn, hgone⟩ := hbefore
  have hfollows := (h.of_run hrun after hstep).1 "alice::AA" 1 hlatest ⟨_, hconn⟩
  rw [hgone] at hfollows
  cases hfollows

end Signaling

end CollabMode
