import CollabMode.Lib.Run
import CollabMode.Worker

/-!
# Bindings follow the sockets

An upgrade writes the rows of its endpoint, and only later is it handed over to the
durable object, where it takes the place of an older socket.  A socket that is closed
has the rows deleted, and a `Trust` message has them replaced.  All this is done at
awaits, so one upgrade can write its rows, an old socket can have them deleted, and then
the upgrade is handed over.

`Watched` keeps who wrote the rows of an endpoint last and what each upgrade declares.
`Settled` says that the rows are those of the last upgrade.  It may fail as long as
another upgrade is still to write the rows (`Rescued`).  `ResumesInTurn` leaves out the awaits
that end otherwise.
-/

namespace CollabMode

namespace Worker

open Signaling (EndpointId CertDerHash SignalingMsg BindHeaders aliceHeaders aliceHash
  aliceVerified)

/-! ## Statements of the database -/

namespace D1

theorem mem_deleteTrusted {db : D1} {id : EndpointId} {row : EndpointId × EndpointId} :
    row ∈ db.deleteTrusted id ↔ row ∈ db.trusted ∧ row.1 ≠ id := by
  simp [deleteTrusted]

/-- The peers can be inserted when none is there and none comes twice. -/
theorem insertTrusted_eq_some {id : EndpointId} {peers : List EndpointId}
    {rows rows' : List (EndpointId × EndpointId)} :
    insertTrusted id peers rows = some rows' ↔
      peers.Nodup ∧ (∀ peer ∈ peers, (id, peer) ∉ rows) ∧
        rows' = rows ++ peers.map fun peer => (id, peer) := by
  induction peers generalizing rows with
  | nil => simp [insertTrusted, eq_comm]
  | cons peer peers ih =>
      unfold insertTrusted
      split
      next hmem =>
          refine ⟨nofun, fun h => ?_⟩
          exact absurd hmem (h.2.1 peer (by simp))
      next hmem =>
          rw [ih, List.nodup_cons]
          constructor
          · rintro ⟨hnodup, hnew, rfl⟩
            have hpeer : peer ∉ peers := fun h => hnew peer h (by simp)
            refine ⟨⟨hpeer, hnodup⟩, fun p hp => ?_, by simp⟩
            rcases List.mem_cons.mp hp with rfl | hp
            · exact hmem
            · exact fun h => hnew p hp (List.mem_append_left _ h)
          · rintro ⟨⟨hpeer, hnodup⟩, hnew, rfl⟩
            refine ⟨hnodup, fun p hp h => ?_, by simp⟩
            rcases List.mem_append.mp h with h | h
            · exact hnew p (by simp [hp]) h
            · have heq : p = peer := by simpa using h
              exact hpeer (heq ▸ hp)

/-- The rows of an endpoint, and those of the others. -/
structure HasTrusted (before after : D1) (id : EndpointId) (trusted : List EndpointId) :
    Prop where
  own : ∀ peer, (id, peer) ∈ after.trusted ↔ peer ∈ trusted
  others : ∀ id' peer, id' ≠ id → ((id', peer) ∈ after.trusted ↔ (id', peer) ∈ before.trusted)

theorem hasTrusted_insert {db after : D1} {id : EndpointId} {trusted : List EndpointId}
    (h : after.trusted = db.deleteTrusted id ++ trusted.map fun peer => (id, peer)) :
    HasTrusted db after id trusted where
  own peer := by simp [h, mem_deleteTrusted]
  others id' peer hid := by simp [h, mem_deleteTrusted, hid, Ne.symm hid]

theorem insertTrusted_deleteTrusted {db : D1} {id : EndpointId} {trusted : List EndpointId}
    {rows : List (EndpointId × EndpointId)} :
    insertTrusted id trusted (db.deleteTrusted id) = some rows ↔
      trusted.Nodup ∧ rows = db.deleteTrusted id ++ trusted.map fun peer => (id, peer) := by
  rw [insertTrusted_eq_some]
  simp [mem_deleteTrusted]

theorem upsertBindingAndTrust_some {db after : D1} {id : EndpointId} {certHash : CertDerHash}
    {trusted : List EndpointId}
    (h : db.upsertBindingAndTrust id certHash trusted = some after) :
    trusted.Nodup ∧ after.bindings = AssocMap.insert db.bindings id certHash ∧
      HasTrusted db after id trusted := by
  obtain ⟨rows, hrows, rfl⟩ := Option.map_eq_some_iff.mp h
  obtain ⟨hnodup, rfl⟩ := insertTrusted_deleteTrusted.mp hrows
  exact ⟨hnodup, rfl, hasTrusted_insert rfl⟩

theorem upsertBindingAndTrust_none {db : D1} {id : EndpointId} {certHash : CertDerHash}
    {trusted : List EndpointId} (h : db.upsertBindingAndTrust id certHash trusted = none) :
    ¬trusted.Nodup := by
  intro hnodup
  rw [upsertBindingAndTrust, insertTrusted_deleteTrusted.mpr ⟨hnodup, rfl⟩] at h
  cases h

theorem replaceTrust_some {db after : D1} {id : EndpointId} {trusted : List EndpointId}
    (h : db.replaceTrust id trusted = some after) :
    trusted.Nodup ∧ after.bindings = db.bindings ∧ HasTrusted db after id trusted := by
  obtain ⟨rows, hrows, rfl⟩ := Option.map_eq_some_iff.mp h
  obtain ⟨hnodup, rfl⟩ := insertTrusted_deleteTrusted.mp hrows
  exact ⟨hnodup, rfl, hasTrusted_insert rfl⟩

theorem replaceTrust_none {db : D1} {id : EndpointId} {trusted : List EndpointId}
    (h : db.replaceTrust id trusted = none) : ¬trusted.Nodup := by
  intro hnodup
  rw [replaceTrust, insertTrusted_deleteTrusted.mpr ⟨hnodup, rfl⟩] at h
  cases h

theorem hasTrusted_deleteEndpoint (db : D1) (id : EndpointId) :
    HasTrusted db (db.deleteEndpoint id) id [] :=
  hasTrusted_insert (by simp [deleteEndpoint])

end D1

/-! ## What is watched -/

structure Watched where
  world : World
  /-- The upgrade that wrote the rows of the endpoint last. -/
  latest : EndpointId → Option SocketId
  /-- The list that an upgrade has declared last. -/
  declared : SocketId → List EndpointId
  /-- The endpoint and the certificate of an upgrade. -/
  who : SocketId → Option (EndpointId × CertDerHash)

namespace Watched

def new : Watched where
  world := .new
  latest _ := none
  declared _ := []
  who _ := none

section

variable {Identity : Type} (parseIdentity : String → Except String Identity)
  (hashCert : Identity → CertDerHash)
  (verifyIdentity : Identity → String → Except String CertDerHash)

/-- What an event that takes place means for the upgrades.  `world` is what it leaves. -/
def note (self : Watched) (world : World) : Event → Watched
  | .fetch headers success =>
      match authenticate parseIdentity hashCert verifyIdentity self.world.db headers success with
      | .ok (id, certHash, _) =>
          { self with world, who := Function.update self.who self.world.next (id, certHash) }
      | .error _ => { self with world }
  | .resume i =>
      match self.world.tasks[i]? with
      | some (.upsertBindingAndTrust ws id certHash trusted) =>
          match self.world.db.upsertBindingAndTrust id certHash trusted with
          | some _ =>
              { self with
                world
                latest := Function.update self.latest id (some ws)
                declared := Function.update self.declared ws trusted }
          | none => { self with world }
      | _ => { self with world }
  | .message ws (.text (.trust sender trusted)) =>
      match self.world.socket ws with
      | some socket =>
          if sender = socket.attachment.endpointId then
            { self with world, declared := Function.update self.declared ws trusted }
          else { self with world }
      | none => { self with world }
  | _ => { self with world }

def step (self : Watched) (event : Event) : Option Watched :=
  (self.world.step parseIdentity hashCert verifyIdentity event).map fun world =>
    self.note parseIdentity hashCert verifyIdentity world event

end

/-- The database has the binding of each socket that is open and not replaced, and the
rows that it declared last, unless something is in progress. -/
def Follows (self : Watched) : Prop :=
  self.world.tasks = [] →
    ∀ ws socket, self.world.socket ws = some socket → socket.closing = false →
      socket.attachment.replaced = false →
      AssocMap.get self.world.db.bindings socket.attachment.endpointId =
          some socket.attachment.certHash ∧
        ∀ peer, (socket.attachment.endpointId, peer) ∈ self.world.db.trusted ↔
          peer ∈ self.declared ws

/-! ## Awaits in turn -/

/-- Another upgrade is still to write the rows of the endpoint. -/
def Rescued (self : Watched) (id : EndpointId) : Prop :=
  ∃ ws certHash trusted,
    .upsertBindingAndTrust ws id certHash trusted ∈ self.world.tasks ∧ trusted.Nodup

/-- The upgrade waits for its hand-over. -/
def Handing (tasks : List Task) (ws : SocketId) (id : EndpointId) : Prop :=
  ∃ certHash, .handOver ws id certHash ∈ tasks

def Opened (self : Watched) (ws : SocketId) (id : EndpointId) : Prop :=
  ∃ socket, self.world.socket ws = some socket ∧ socket.closing = false ∧
    socket.attachment.endpointId = id

/-- The upgrade wrote the rows last, and it is open or will be. -/
def Stands (self : Watched) (id : EndpointId) (ws : SocketId) : Prop :=
  self.latest id = some ws ∧ (Handing self.world.tasks ws id ∨ self.Opened ws id)

/-- What a handler may do when it goes on, beside the tasks `others`.

* The rows are deleted when nobody is open who wrote them.
* A list is written when it is what the last upgrade declares, or when that is still to
  be written, or when it cannot be written.
* An upgrade is handed over when it wrote the rows last, or when the one that did is
  still to be handed over.

All this does not matter as long as another upgrade is still to write the rows. -/
def MayResume (self : Watched) (others : List Task) : Task → Prop
  | .deleteEndpoint id => self.Rescued id ∨ ∀ ws, ¬self.Stands id ws
  | .replaceTrust ws sender trusted =>
      self.Rescued sender ∨ ∀ last, self.Stands sender last →
        (trusted.Nodup ∧ ∀ peer, peer ∈ trusted ↔ peer ∈ self.declared last) ∨
          .replaceTrust last sender (self.declared last) ∈ others ∨
          (¬trusted.Nodup ∧ ¬(ws = last ∧ trusted = self.declared last))
  | .handOver ws id _ =>
      self.Rescued id ∨ self.latest id = some ws ∨
        ∃ last, self.latest id = some last ∧ Handing others last id
  | _ => True

def ResumesInTurn (self : Watched) : Event → Prop
  | .resume i =>
      ∀ task, self.world.tasks[i]? = some task →
        self.MayResume (self.world.tasks.eraseIdx i) task
  | _ => True

/-! ## The invariant -/

/-- A task bears the endpoint and the certificate of its upgrade. -/
def Named (who : SocketId → Option (EndpointId × CertDerHash)) : Task → Prop
  | .upsertBindingAndTrust ws id certHash _ => who ws = some (id, certHash)
  | .handOver ws id certHash => who ws = some (id, certHash)
  | .replaceTrust ws sender _ => ∃ certHash, who ws = some (sender, certHash)
  | .isBound routed => who routed.ws = some (routed.att.endpointId, routed.att.certHash)
  | .isTrustedBy routed => who routed.ws = some (routed.att.endpointId, routed.att.certHash)
  | .route routed => who routed.ws = some (routed.att.endpointId, routed.att.certHash)
  | .routeTrusted routed _ _ =>
      who routed.ws = some (routed.att.endpointId, routed.att.certHash)
  | .addToBlacklist _ _ => True
  | .deleteEndpoint _ => True

/-- The rows are those of the upgrade, or its list is still to be written. -/
structure Stored (watched : Watched) (id : EndpointId) (ws : SocketId) : Prop where
  binding : ∃ certHash, watched.who ws = some (id, certHash) ∧
    AssocMap.get watched.world.db.bindings id = some certHash
  trusted : (∀ peer, (id, peer) ∈ watched.world.db.trusted ↔ peer ∈ watched.declared ws) ∨
    .replaceTrust ws id (watched.declared ws) ∈ watched.world.tasks

/-- The upgrade that wrote the rows last is the one that is open or will be, and the
rows are its own. -/
structure Settled (watched : Watched) (id : EndpointId) : Prop where
  opened : ∀ ws, watched.Opened ws id → watched.latest id = some ws ∨
    ∃ last, watched.latest id = some last ∧ Handing watched.world.tasks last id
  stored : ∀ ws, watched.Stands id ws → watched.Stored id ws

/-- Sockets and tasks bear the endpoint and the certificate of their upgrade. -/
structure AllNamed (watched : Watched) : Prop where
  sockets : ∀ ws socket, watched.world.socket ws = some socket →
    watched.who ws = some (socket.attachment.endpointId, socket.attachment.certHash)
  tasks : ∀ task ∈ watched.world.tasks, Named watched.who task
  latest : ∀ id ws, watched.latest id = some ws → ∃ certHash, watched.who ws = some (id, certHash)
  valid : ∀ ws id certHash, watched.who ws = some (id, certHash) → id ≠ "" ∧ certHash ≠ ""
  fresh : ∀ ws, watched.world.next ≤ ws → watched.who ws = none

structure Inv (watched : Watched) : Prop where
  named : watched.AllNamed
  settled : ∀ id, watched.Rescued id ∨ watched.Settled id

theorem inv_new : new.Inv where
  named := ⟨nofun, nofun, nofun, nofun, fun _ _ => rfl⟩
  settled _ := .inr
    { opened := by
        rintro ws ⟨socket, hsocket, -⟩
        cases hsocket
      stored := by
        rintro ws ⟨hlatest, -⟩
        cases hlatest }

theorem Inv.follows {self : Watched} (h : self.Inv) : self.Follows := by
  intro htasks ws socket hsocket hclosing _
  have hnone (task : Task) : task ∉ self.world.tasks := by simp [htasks]
  have hopened : self.Opened ws socket.attachment.endpointId := ⟨socket, hsocket, hclosing, rfl⟩
  rcases h.settled socket.attachment.endpointId with ⟨_, _, _, hmem, -⟩ | hsettled
  · exact absurd hmem (hnone _)
  · have hlatest : self.latest socket.attachment.endpointId = some ws := by
      rcases hsettled.opened ws hopened with hlatest | ⟨_, _, _, hmem⟩
      · exact hlatest
      · exact absurd hmem (hnone _)
    obtain ⟨⟨certHash, hwho, hbinding⟩, hrows⟩ := hsettled.stored ws ⟨hlatest, .inr hopened⟩
    cases (h.named.sockets ws socket hsocket).symm.trans hwho
    exact ⟨hbinding, hrows.resolve_right (hnone _)⟩

/-! ## Steps that leave rows and claims as they are -/

/-- A task that neither writes the rows of an endpoint nor hands over. -/
def Quiet : Task → Prop
  | .upsertBindingAndTrust _ _ _ _ => False
  | .handOver _ _ _ => False
  | .replaceTrust _ _ _ => False
  | _ => True

/-- The rows stay, no socket opens, and only quiet tasks come. -/
structure LeavesRows (who : SocketId → Option (EndpointId × CertDerHash)) (before after : World) :
    Prop where
  bindings : after.db.bindings = before.db.bindings
  trusted : after.db.trusted = before.db.trusted
  next : before.next ≤ after.next
  sockets : ∀ ws socket, after.socket ws = some socket →
    ∃ socket', before.socket ws = some socket' ∧
    socket'.attachment.endpointId = socket.attachment.endpointId ∧
    socket'.attachment.certHash = socket.attachment.certHash ∧
    (socket.closing = false → socket'.closing = false)
  tasks : ∃ new, after.tasks = before.tasks ++ new ∧ ∀ task ∈ new, Quiet task ∧ Named who task

section

variable {who : SocketId → Option (EndpointId × CertDerHash)}

theorem LeavesRows.refl (world : World) : LeavesRows who world world where
  bindings := rfl
  trusted := rfl
  next := Nat.le_refl _
  sockets _ socket h := ⟨socket, h, rfl, rfl, id⟩
  tasks := ⟨[], by simp, List.forall_mem_nil _⟩

theorem LeavesRows.trans {a b c : World} (hab : LeavesRows who a b) (hbc : LeavesRows who b c) :
    LeavesRows who a c where
  bindings := hbc.bindings.trans hab.bindings
  trusted := hbc.trusted.trans hab.trusted
  next := Nat.le_trans hab.next hbc.next
  sockets ws socket h := by
    obtain ⟨socket', h', hid', hhash', hclosing'⟩ := hbc.sockets ws socket h
    obtain ⟨socket'', h'', hid'', hhash'', hclosing''⟩ := hab.sockets ws socket' h'
    exact ⟨socket'', h'', hid''.trans hid', hhash''.trans hhash',
      fun hclosing => hclosing'' (hclosing' hclosing)⟩
  tasks := by
    obtain ⟨new, hnew, hquiet⟩ := hab.tasks
    obtain ⟨new', hnew', hquiet'⟩ := hbc.tasks
    refine ⟨new ++ new', by rw [hnew', hnew, List.append_assoc], fun task hmem => ?_⟩
    rcases List.mem_append.mp hmem with hmem | hmem
    · exact hquiet task hmem
    · exact hquiet' task hmem

theorem LeavesRows.spawn {world : World} {task : Task} (hquiet : Quiet task)
    (hnamed : Named who task) :
    LeavesRows who world (world.spawn task) where
  bindings := rfl
  trusted := rfl
  next := Nat.le_refl _
  sockets _ socket h := ⟨socket, h, rfl, rfl, id⟩
  tasks := ⟨[task], rfl, fun task' hmem => by
    cases List.mem_singleton.mp hmem
    exact ⟨hquiet, hnamed⟩⟩

theorem LeavesRows.close (world : World) (ws : SocketId) (code : Nat) (reason : String) :
    LeavesRows who world (world.close ws code reason).2 := by
  unfold World.close
  split
  next socket attachment hsocket =>
      refine ⟨rfl, rfl, Nat.le_refl _, fun ws' socket' h => ?_, [], by simp, List.forall_mem_nil _⟩
      have hget := (AssocMap.get_insert _ _ _ _).symm.trans h
      split at hget
      next hws =>
          subst hws
          cases hget
          exact ⟨_, hsocket, rfl, rfl, fun hclosing => by cases hclosing⟩
      next => exact ⟨socket', hget, rfl, rfl, id⟩
  next => exact .refl world

theorem LeavesRows.serializeAttachment {world : World} {ws : SocketId} {att : Attachment}
    (hatt : ∀ socket, world.socket ws = some socket →
      socket.attachment.endpointId = att.endpointId ∧
        socket.attachment.certHash = att.certHash) :
    LeavesRows who world (world.serializeAttachment ws att) := by
  refine ⟨rfl, rfl, Nat.le_refl _, fun ws' socket' h => ?_, [], (List.append_nil _).symm,
    List.forall_mem_nil _⟩
  have hget := (AssocMap.get_modify _ _ _ _).symm.trans h
  split at hget
  next hws =>
      subst hws
      obtain ⟨socket, hsocket, rfl⟩ := Option.map_eq_some_iff.mp hget
      exact ⟨socket, hsocket, (hatt socket hsocket).1, (hatt socket hsocket).2, id⟩
  next => exact ⟨socket', hget, rfl, rfl, id⟩

theorem LeavesRows.reject {world : World} {routed : Routed} (reply : SignalingMsg)
    (hatt : ∀ socket, world.socket routed.ws = some socket →
      socket.attachment.endpointId = routed.att.endpointId ∧
        socket.attachment.certHash = routed.att.certHash) :
    LeavesRows who world (world.reject routed reply).2 := by
  unfold World.reject
  split
  next =>
      unfold World.bumpReject
      have hserialize : LeavesRows who world (world.serializeAttachment routed.ws
          { routed.att with rejectCount := routed.att.rejectCount + 1 }) :=
        .serializeAttachment hatt
      simp only
      split
      next => exact hserialize.trans (.spawn trivial trivial)
      next => exact hserialize
  next => exact .refl world

theorem LeavesRows.cleanup (world : World) (ws : SocketId) (att : Attachment) :
    LeavesRows who world (world.cleanup ws att) := by
  have herase : LeavesRows who world { world with sockets := AssocMap.erase world.sockets ws } := by
    refine ⟨rfl, rfl, Nat.le_refl _, fun ws' socket' h => ?_, [], (List.append_nil _).symm,
      List.forall_mem_nil _⟩
    have hget := (AssocMap.get_erase _ _ _).symm.trans h
    split at hget
    next => cases hget
    next => exact ⟨socket', hget, rfl, rfl, id⟩
  unfold World.cleanup
  simp only
  split
  next => exact herase
  next => exact herase.trans (.spawn trivial trivial)

/-- A quiet task that does not delete rows. -/
theorem LeavesRows.resume {world : World} {task : Task} (hquiet : Quiet task)
    (hnamed : Named who task) (hdelete : ∀ id, task ≠ .deleteEndpoint id)
    (hsockets : ∀ ws socket, world.socket ws = some socket →
      who ws = some (socket.attachment.endpointId, socket.attachment.certHash)) :
    LeavesRows who world (world.resume task).2 := by
  have hatt (routed : Routed)
      (h : who routed.ws = some (routed.att.endpointId, routed.att.certHash)) (socket : Socket)
      (hsocket : world.socket routed.ws = some socket) :
      socket.attachment.endpointId = routed.att.endpointId ∧
        socket.attachment.certHash = routed.att.certHash := by
    have heq := Option.some.inj ((hsockets _ socket hsocket).symm.trans h)
    exact ⟨congrArg Prod.fst heq, congrArg Prod.snd heq⟩
  unfold World.resume
  split
  next => exact hquiet.elim
  next => exact hquiet.elim
  next => exact hquiet.elim
  next routed =>
      split
      next => exact .spawn trivial hnamed
      next => exact .reject _ (hatt routed hnamed)
  next routed =>
      split
      next => exact .spawn trivial hnamed
      next => exact .reject _ (hatt routed hnamed)
  next routed =>
      split
      next => exact .refl world
      next => exact .spawn trivial hnamed
  next routed receiverWs id =>
      split
      next => exact .refl world
      next => exact .refl world
  next ws certHash =>
      refine LeavesRows.trans ?_ (.close _ ws 1008 _)
      have hrows : LeavesRows who world { world with db := world.db.addToBlacklist certHash } := by
        unfold D1.addToBlacklist
        split
        next => exact .refl world
        next => exact ⟨rfl, rfl, Nat.le_refl _, fun _ socket h => ⟨socket, h, rfl, rfl, id⟩,
          [], (List.append_nil _).symm, List.forall_mem_nil _⟩
      exact hrows
  next id => exact absurd rfl (hdelete id)

/-- A message is refused, or it comes to an await.  A `Trust` message is still to be
written. -/
theorem LeavesRows.webSocketMessage {world : World} {ws : SocketId} {att : Attachment} {raw : Raw}
    (hwho : who ws = some (att.endpointId, att.certHash))
    (htrust : ∀ trusted, raw ≠ .text (.trust att.endpointId trusted)) :
    LeavesRows who world (world.webSocketMessage ws att raw).2 := by
  have hroute (sender receiver : EndpointId) (msg : SignalingMsg) :
      LeavesRows who world (if sender ≠ att.endpointId then world.close ws 1003 World.wrongId
        else ([], world.spawn (.isBound { ws, att, sender, receiver, msg }))).2 := by
    split
    next => exact .close _ _ _ _
    next => exact .spawn trivial hwho
  unfold World.webSocketMessage
  split
  next => exact .close _ _ _ _
  next => exact .close _ _ _ _
  next => exact .refl world
  next => exact .refl world
  next sender trusted =>
      split
      next => exact .close _ _ _ _
      next hsender => exact absurd (by rw [not_not.mp hsender]) (htrust trusted)
  next => exact hroute _ _ _
  next => exact hroute _ _ _
  next => exact hroute _ _ _
  next => exact .close _ _ _ _

end

/-! ## What the steps leave -/

section

variable {before after : Watched} {id : EndpointId}

theorem Stored.mono {ws : SocketId} (h : before.Stored id ws)
    (hwho : ∀ entry, before.who ws = some entry → after.who ws = some entry)
    (hbinding : AssocMap.get after.world.db.bindings id = AssocMap.get before.world.db.bindings id)
    (hrows : ∀ peer, (id, peer) ∈ after.world.db.trusted ↔ (id, peer) ∈ before.world.db.trusted)
    (hdeclared : after.declared ws = before.declared ws)
    (htask : .replaceTrust ws id (before.declared ws) ∈ before.world.tasks →
      .replaceTrust ws id (before.declared ws) ∈ after.world.tasks) : after.Stored id ws where
  binding := by
    obtain ⟨certHash, hcert, hget⟩ := h.binding
    exact ⟨certHash, hwho _ hcert, hbinding.trans hget⟩
  trusted := by
    rw [hdeclared]
    exact h.trusted.imp (fun htrusted peer => (hrows peer).trans (htrusted peer)) htask

theorem Settled.mono (h : before.Settled id)
    (hopened : ∀ ws, after.Opened ws id → before.Opened ws id)
    (hlatest : after.latest id = before.latest id)
    (hhanding : ∀ ws, Handing after.world.tasks ws id ↔ Handing before.world.tasks ws id)
    (hstored : ∀ ws, before.latest id = some ws → before.Stored id ws → after.Stored id ws) :
    after.Settled id where
  opened ws hws := by
    rw [hlatest]
    simp only [hhanding]
    exact h.opened ws (hopened ws hws)
  stored ws := by
    rintro ⟨hlast, hstands⟩
    rw [hlatest] at hlast
    exact hstored ws hlast
      (h.stored ws ⟨hlast, hstands.imp (hhanding ws).mp (hopened ws)⟩)

end

theorem mem_eraseIdx_of_ne {tasks : List Task} {i : Nat} {task task' : Task}
    (hi : tasks[i]? = some task) (hne : task' ≠ task) :
    task' ∈ tasks.eraseIdx i ↔ task' ∈ tasks := by
  rw [List.mem_eraseIdx_iff_getElem?, List.mem_iff_getElem?]
  refine ⟨fun ⟨j, _, hj⟩ => ⟨j, hj⟩, fun ⟨j, hj⟩ => ⟨j, ?_, hj⟩⟩
  rintro rfl
  exact hne (Option.some.inj (hj.symm.trans hi))

/-- The handler that goes on is taken from the tasks. -/
def taken (self : Watched) (i : Nat) : Watched :=
  { self with world := { self.world with tasks := self.world.tasks.eraseIdx i } }

theorem AllNamed.taken {self : Watched} (h : self.AllNamed) (i : Nat) :
    (self.taken i).AllNamed where
  sockets := h.sockets
  tasks task hmem := h.tasks task (List.mem_of_mem_eraseIdx hmem)
  latest := h.latest
  valid := h.valid
  fresh := h.fresh

theorem Inv.taken {self : Watched} (h : self.Inv) {i : Nat} {task : Task}
    (hi : self.world.tasks[i]? = some task) (hquiet : Quiet task) : (self.taken i).Inv where
  named := h.named.taken i
  settled id := by
    have hmem {task' : Task} (hloud : ¬Quiet task') :
        task' ∈ self.world.tasks.eraseIdx i ↔ task' ∈ self.world.tasks := by
      refine mem_eraseIdx_of_ne hi ?_
      rintro rfl
      exact hloud hquiet
    refine (h.settled id).imp ?_ fun hsettled => ?_
    · rintro ⟨ws, certHash, trusted, htask, hnodup⟩
      exact ⟨ws, certHash, trusted, (hmem (by exact not_false)).mpr htask, hnodup⟩
    · refine hsettled.mono (fun _ hopened => hopened) rfl (fun ws => ?_) fun ws _ hstored => ?_
      · exact exists_congr fun certHash => hmem (by exact not_false)
      · exact hstored.mono (fun _ h => h) rfl (fun _ => Iff.rfl) rfl (hmem (by exact not_false)).mpr

theorem Inv.leavesRows {self : Watched} (h : self.Inv) {world : World}
    (hleaves : LeavesRows self.who self.world world) : Inv { self with world } where
  named :=
    { sockets := fun ws socket hsocket => by
        obtain ⟨socket', hsocket', hid, hhash, -⟩ := hleaves.sockets ws socket hsocket
        rw [← hid, ← hhash]
        exact h.named.sockets ws socket' hsocket'
      tasks := fun task hmem => by
        obtain ⟨new, hnew, hquiet⟩ := hleaves.tasks
        rw [hnew] at hmem
        rcases List.mem_append.mp hmem with hmem | hmem
        · exact h.named.tasks task hmem
        · exact (hquiet task hmem).2
      latest := h.named.latest
      valid := h.named.valid
      fresh := fun ws hws => h.named.fresh ws (Nat.le_trans hleaves.next hws) }
  settled id := by
    obtain ⟨new, hnew, hquiet⟩ := hleaves.tasks
    have hmem {task : Task} (hloud : ¬Quiet task) :
        task ∈ world.tasks ↔ task ∈ self.world.tasks := by
      rw [hnew, List.mem_append]
      exact or_iff_left fun hmem => hloud (hquiet task hmem).1
    refine (h.settled id).imp ?_ fun hsettled => ?_
    · rintro ⟨ws, certHash, trusted, htask, hnodup⟩
      exact ⟨ws, certHash, trusted, (hmem (by exact not_false)).mpr htask, hnodup⟩
    · refine hsettled.mono ?_ rfl (fun ws => ?_) fun ws _ hstored => ?_
      · rintro ws ⟨socket, hsocket, hclosing, hid⟩
        obtain ⟨socket', hsocket', hid', -, hclosing'⟩ := hleaves.sockets ws socket hsocket
        exact ⟨socket', hsocket', hclosing' hclosing, hid'.trans hid⟩
      · exact exists_congr fun certHash => hmem (by exact not_false)
      · exact hstored.mono (fun _ h => h) (by rw [hleaves.bindings])
          (fun _ => by rw [hleaves.trusted]) rfl (hmem (by exact not_false)).mpr

/-! ## The four tasks that write or hand over -/

section

variable {self : Watched} {i : Nat}

theorem Rescued.taken {id : EndpointId} (h : self.Rescued id) {task : Task}
    (hi : self.world.tasks[i]? = some task)
    (hother : ∀ ws certHash trusted, task = .upsertBindingAndTrust ws id certHash trusted →
      ¬trusted.Nodup) : (self.taken i).Rescued id := by
  obtain ⟨ws, certHash, trusted, hmem, hnodup⟩ := h
  refine ⟨ws, certHash, trusted, (mem_eraseIdx_of_ne hi ?_).mpr hmem, hnodup⟩
  rintro rfl
  exact hother ws certHash trusted rfl hnodup

theorem handing_taken {id : EndpointId} {task : Task} (hi : self.world.tasks[i]? = some task)
    (hother : ∀ ws certHash, task ≠ .handOver ws id certHash) (ws : SocketId) :
    Handing (self.taken i).world.tasks ws id ↔ Handing self.world.tasks ws id :=
  exists_congr fun certHash => mem_eraseIdx_of_ne hi (hother ws certHash).symm

/-- The rows of other endpoints stay. -/
theorem Inv.others (h : self.Inv) {after : Watched} {task : Task} {id' : EndpointId}
    (hi : self.world.tasks[i]? = some task)
    (htask : ∀ {task' : Task}, task' ∈ self.world.tasks.eraseIdx i → task' ∈ after.world.tasks)
    (hupsert : ∀ ws certHash trusted, task ≠ .upsertBindingAndTrust ws id' certHash trusted)
    (hreplace : ∀ ws trusted, task ≠ .replaceTrust ws id' trusted)
    (hwho : after.who = self.who) (hlatest : after.latest id' = self.latest id')
    (hdeclared : ∀ ws, self.latest id' = some ws → after.declared ws = self.declared ws)
    (hbinding : AssocMap.get after.world.db.bindings id' =
      AssocMap.get self.world.db.bindings id')
    (hrows : ∀ peer, (id', peer) ∈ after.world.db.trusted ↔ (id', peer) ∈ self.world.db.trusted)
    (hopened : ∀ ws, after.Opened ws id' → self.Opened ws id')
    (hhanding : ∀ ws, Handing after.world.tasks ws id' ↔ Handing self.world.tasks ws id') :
    after.Rescued id' ∨ after.Settled id' := by
  refine (h.settled id').imp ?_ fun hsettled => ?_
  · rintro ⟨ws, certHash, trusted, hmem, hnodup⟩
    exact ⟨ws, certHash, trusted,
      htask ((mem_eraseIdx_of_ne hi (hupsert ws certHash trusted).symm).mpr hmem), hnodup⟩
  · refine hsettled.mono hopened hlatest hhanding fun ws hlast hstored => ?_
    exact hstored.mono (fun _ hentry => hwho ▸ hentry) hbinding hrows (hdeclared ws hlast)
      fun hmem => htask ((mem_eraseIdx_of_ne hi (hreplace ws _).symm).mpr hmem)

/-- The rows are those of the upgrade that writes them. -/
theorem Inv.upsert (h : self.Inv) {ws : SocketId} {id : EndpointId} {certHash : CertDerHash}
    {trusted : List EndpointId} {db : D1}
    (hi : self.world.tasks[i]? = some (.upsertBindingAndTrust ws id certHash trusted))
    (hdb : self.world.db.upsertBindingAndTrust id certHash trusted = some db) :
    Inv
      { self with
        world := { (self.taken i).world with db }.spawn (.handOver ws id certHash)
        latest := Function.update self.latest id (some ws)
        declared := Function.update self.declared ws trusted } := by
  have hwho : self.who ws = some (id, certHash) := h.named.tasks _ (List.mem_of_getElem? hi)
  obtain ⟨-, hbindings, hown, hothers⟩ := D1.upsertBindingAndTrust_some hdb
  have hnamed := h.named.taken i
  refine ⟨⟨hnamed.sockets, fun task hmem => ?_, fun id' ws' hlast => ?_, hnamed.valid,
    hnamed.fresh⟩, fun id' => ?_⟩
  · rcases List.mem_append.mp hmem with hmem | hmem
    · exact hnamed.tasks task hmem
    · cases List.mem_singleton.mp hmem
      exact hwho
  · simp only [Function.update_apply] at hlast
    split at hlast
    next hid =>
        cases hlast
        exact ⟨certHash, hid ▸ hwho⟩
    next => exact h.named.latest id' ws' hlast
  · by_cases hid : id' = id
    · subst hid
      refine .inr ⟨fun ws' _ => .inr ⟨ws, Function.update_self _ _ _, certHash, by
        simp [World.spawn]⟩, ?_⟩
      rintro ws' ⟨hlast, -⟩
      cases (Function.update_self _ _ _).symm.trans hlast
      refine ⟨⟨certHash, hwho, ?_⟩, .inl fun peer => ?_⟩
      · exact (congrArg (AssocMap.get · id') hbindings).trans (AssocMap.get_insert_self _ _ _)
      · exact (hown peer).trans
          (Iff.of_eq (congrArg (peer ∈ ·) (Function.update_self ws trusted self.declared).symm))
    · refine h.others hi (fun hmem => List.mem_append_left _ hmem) ?_ nofun rfl
        (Function.update_of_ne hid _ _) (fun ws' hlast => ?_) ?_ (fun peer => hothers id' peer hid)
        (fun _ hopened => hopened) fun ws' => ?_
      · intro ws' certHash' trusted' heq
        cases heq
        exact hid rfl
      · refine Function.update_of_ne ?_ _ _
        rintro rfl
        obtain ⟨certHash', hwho'⟩ := h.named.latest id' _ hlast
        cases hwho.symm.trans hwho'
        exact hid rfl
      · exact (congrArg (AssocMap.get · id') hbindings).trans (AssocMap.get_insert_of_ne hid)
      · rw [← handing_taken hi nofun]
        refine exists_congr fun certHash' => ?_
        refine List.mem_append.trans (or_iff_left fun hmem => ?_)
        cases List.mem_singleton.mp hmem
        exact hid rfl

/-- The batch fails, and nothing is written. -/
theorem Inv.upsert_none (h : self.Inv) {ws : SocketId} {id : EndpointId} {certHash : CertDerHash}
    {trusted : List EndpointId}
    (hi : self.world.tasks[i]? = some (.upsertBindingAndTrust ws id certHash trusted))
    (hdb : self.world.db.upsertBindingAndTrust id certHash trusted = none) :
    (self.taken i).Inv where
  named := h.named.taken i
  settled id' := by
    refine (h.settled id').imp (fun hrescued => ?_) fun hsettled => ?_
    · refine hrescued.taken hi fun ws' certHash' trusted' heq => ?_
      cases heq
      exact D1.upsertBindingAndTrust_none hdb
    · refine hsettled.mono (fun _ hopened => hopened) rfl (handing_taken hi nofun)
        fun ws' _ hstored => ?_
      exact hstored.mono (fun _ h => h) rfl (fun _ => Iff.rfl) rfl
        (mem_eraseIdx_of_ne hi (by nofun)).mpr

/-- The rows of an endpoint go of which nobody is open who wrote them. -/
theorem Inv.deleteEndpoint (h : self.Inv) {id : EndpointId}
    (hi : self.world.tasks[i]? = some (.deleteEndpoint id))
    (hmay : self.Rescued id ∨ ∀ ws, ¬self.Stands id ws) :
    Inv
      { self with
        world := { (self.taken i).world with db := self.world.db.deleteEndpoint id } } := by
  have hnamed := h.named.taken i
  refine ⟨⟨hnamed.sockets, hnamed.tasks, hnamed.latest, hnamed.valid, hnamed.fresh⟩,
    fun id' => ?_⟩
  obtain ⟨-, hothers⟩ := D1.hasTrusted_deleteEndpoint self.world.db id
  by_cases hid : id' = id
  · subst hid
    rcases h.settled id' with hrescued | hsettled
    · exact .inl (hrescued.taken hi nofun)
    · refine hmay.imp (fun hrescued => hrescued.taken hi nofun) fun hnone => ?_
      refine ⟨fun ws hopened => ?_, fun ws hstands => ?_⟩
      · exact (hsettled.opened ws hopened).imp_right fun ⟨last, hlast, hhanding⟩ =>
          ⟨last, hlast, (handing_taken hi nofun last).mpr hhanding⟩
      · exact absurd ⟨hstands.1, hstands.2.imp_left (handing_taken hi nofun ws).mp⟩ (hnone ws)
  · exact h.others hi (fun hmem => hmem) nofun nofun rfl rfl (fun _ _ => rfl)
      ((AssocMap.get_erase _ _ _).trans (if_neg hid)) (fun peer => hothers id' peer hid)
      (fun _ hopened => hopened) (handing_taken hi nofun)

/-- A list is written, or it cannot be. -/
theorem Inv.replaceTrust (h : self.Inv) {ws : SocketId} {sender : EndpointId}
    {trusted : List EndpointId} {db : D1}
    (hi : self.world.tasks[i]? = some (.replaceTrust ws sender trusted))
    (hmay : self.MayResume (self.world.tasks.eraseIdx i) (.replaceTrust ws sender trusted))
    (hdb : db = (self.world.db.replaceTrust sender trusted).getD self.world.db) :
    Inv { self with world := { (self.taken i).world with db } } := by
  have hnamed := h.named.taken i
  have hbindings : db.bindings = self.world.db.bindings := by
    rw [hdb]
    cases hreplace : self.world.db.replaceTrust sender trusted with
    | none => rfl
    | some after => exact (D1.replaceTrust_some hreplace).2.1
  have hothers (id' peer : EndpointId) (hid : id' ≠ sender) :
      (id', peer) ∈ db.trusted ↔ (id', peer) ∈ self.world.db.trusted := by
    rw [hdb]
    cases hreplace : self.world.db.replaceTrust sender trusted with
    | none => exact Iff.rfl
    | some after => exact (D1.replaceTrust_some hreplace).2.2.others id' peer hid
  refine ⟨⟨hnamed.sockets, hnamed.tasks, hnamed.latest, hnamed.valid, hnamed.fresh⟩,
    fun id' => ?_⟩
  by_cases hid : id' = sender
  · subst hid
    rcases h.settled id' with hrescued | hsettled
    · exact .inl (hrescued.taken hi nofun)
    · refine Or.imp (fun hrescued => Rescued.taken hrescued hi nofun) (fun hmay => ?_) hmay
      refine ⟨fun ws' hopened => ?_, fun last hstands => ?_⟩
      · exact (hsettled.opened ws' hopened).imp_right fun ⟨last, hlast, hhanding⟩ =>
          ⟨last, hlast, (handing_taken hi nofun last).mpr hhanding⟩
      · have hstands : self.Stands id' last :=
          ⟨hstands.1, hstands.2.imp_left (handing_taken hi nofun last).mp⟩
        obtain ⟨⟨certHash, hwho, hbinding⟩, hrows⟩ := hsettled.stored last hstands
        refine ⟨⟨certHash, hwho, hbindings ▸ hbinding⟩, ?_⟩
        rcases hmay last hstands with ⟨hnodup, hsame⟩ | hlater | ⟨hnodup, hother⟩
        · cases hreplace : self.world.db.replaceTrust id' trusted with
          | none => exact absurd hnodup (D1.replaceTrust_none hreplace)
          | some after =>
              rw [hreplace] at hdb
              cases hdb
              exact .inl fun peer =>
                ((D1.replaceTrust_some hreplace).2.2.own peer).trans (hsame peer)
        · exact .inr hlater
        · cases hreplace : self.world.db.replaceTrust id' trusted with
          | some after => exact absurd (D1.replaceTrust_some hreplace).1 hnodup
          | none =>
              rw [hreplace] at hdb
              cases hdb
              refine hrows.imp id (mem_eraseIdx_of_ne hi ?_).mpr
              intro heq
              injection heq with hws _ htrusted
              exact hother ⟨hws.symm, htrusted.symm⟩
  · refine h.others hi (fun hmem => hmem) nofun ?_ rfl rfl (fun _ _ => rfl) (by rw [hbindings])
      (fun peer => hothers id' peer hid) (fun _ hopened => hopened) (handing_taken hi nofun)
    intro ws' trusted' heq
    cases heq
    exact hid rfl

/-- The sockets after a hand-over. -/
theorem socket_handOver {world : World} {ws ws' : SocketId} {id : EndpointId}
    {certHash : CertDerHash} {socket : Socket}
    (hvalid : ¬(id = "" ∨ certHash = ""))
    (h : (world.handleUpgrade ws id certHash).2.socket ws' = some socket) :
    (ws' = ws ∧ socket.attachment.endpointId = id ∧ socket.attachment.certHash = certHash) ∨
      ∃ socket', world.socket ws' = some socket' ∧
        socket'.attachment.endpointId = socket.attachment.endpointId ∧
        socket'.attachment.certHash = socket.attachment.certHash ∧
        (socket.closing = false → socket'.closing = false ∧ socket.attachment.endpointId ≠ id) := by
  unfold World.handleUpgrade at h
  rw [if_neg hvalid] at h
  have hget := (AssocMap.get_insert _ _ _ _).symm.trans h
  split at hget
  next hws =>
      cases hget
      exact .inl ⟨hws, rfl, rfl⟩
  next =>
      rw [AssocMap.get_mapVals] at hget
      obtain ⟨socket', hsocket', rfl⟩ := Option.map_eq_some_iff.mp hget
      refine .inr ⟨socket', hsocket', ?_⟩
      unfold World.replaceSocket
      split
      next => exact ⟨rfl, rfl, fun hclosing => by cases hclosing⟩
      next hid => exact ⟨rfl, rfl, fun hclosing => ⟨hclosing, hid⟩⟩

/-- The upgrade takes the place of the older sockets of its endpoint. -/
theorem Inv.handOver (h : self.Inv) {ws : SocketId} {id : EndpointId} {certHash : CertDerHash}
    (hi : self.world.tasks[i]? = some (.handOver ws id certHash))
    (hmay : self.MayResume (self.world.tasks.eraseIdx i) (.handOver ws id certHash)) :
    Inv { self with world := ((self.taken i).world.handleUpgrade ws id certHash).2 } := by
  have hwho : self.who ws = some (id, certHash) := h.named.tasks _ (List.mem_of_getElem? hi)
  have hvalid : ¬(id = "" ∨ certHash = "") := by
    obtain ⟨hid, hhash⟩ := h.named.valid ws id certHash hwho
    simp [hid, hhash]
  have hnamed := h.named.taken i
  have hsame : ((self.taken i).world.handleUpgrade ws id certHash).2.db = self.world.db ∧
      ((self.taken i).world.handleUpgrade ws id certHash).2.tasks =
        self.world.tasks.eraseIdx i ∧
      ((self.taken i).world.handleUpgrade ws id certHash).2.next = self.world.next := by
    unfold World.handleUpgrade
    rw [if_neg hvalid]
    exact ⟨rfl, rfl, rfl⟩
  obtain ⟨hdb, htasks, hnext⟩ := hsame
  have hopened (ws' : SocketId) (id' : EndpointId)
      (hopened : Opened { self with world := ((self.taken i).world.handleUpgrade ws id certHash).2 }
        ws' id') : (ws' = ws ∧ id' = id) ∨ (id' ≠ id ∧ self.Opened ws' id') := by
    obtain ⟨socket, hsocket, hclosing, rfl⟩ := hopened
    rcases socket_handOver hvalid hsocket with ⟨hws, hid, -⟩ | ⟨socket', hsocket', hid, -, hold⟩
    · exact .inl ⟨hws, hid⟩
    · obtain ⟨hclosing', hne⟩ := hold hclosing
      exact .inr ⟨hne, socket', hsocket', hclosing', hid⟩
  refine ⟨⟨fun ws' socket hsocket => ?_, htasks ▸ hnamed.tasks, hnamed.latest, hnamed.valid,
    hnext ▸ hnamed.fresh⟩, fun id' => ?_⟩
  · rcases socket_handOver hvalid hsocket with
      ⟨hws, hid, hhash⟩ | ⟨socket', hsocket', hid, hhash, -⟩
    · rw [hws, hid, hhash]
      exact hwho
    · rw [← hid, ← hhash]
      exact h.named.sockets ws' socket' hsocket'
  · by_cases hid : id' = id
    · subst hid
      have hrescued (hrescued : self.Rescued id') : Rescued { self with
          world := ((self.taken i).world.handleUpgrade ws id' certHash).2 } id' := by
        obtain ⟨ws', certHash', trusted, hmem, hnodup⟩ := hrescued.taken hi nofun
        exact ⟨ws', certHash', trusted, htasks ▸ hmem, hnodup⟩
      rcases h.settled id' with hother | hsettled
      · exact .inl (hrescued hother)
      refine Or.imp hrescued (fun hmay => ?_) hmay
      -- The last to write its rows was to be handed over, so the rows were its own.
      have hstored (last : SocketId) (hlast : self.latest id' = some last) :
          self.Stored id' last := by
        refine hsettled.stored last ⟨hlast, .inl ?_⟩
        rcases hmay with hws | ⟨last', hlast', certHash', hmem⟩
        · cases hlast.symm.trans hws
          exact ⟨certHash, List.mem_of_getElem? hi⟩
        · cases hlast.symm.trans hlast'
          exact ⟨certHash', List.mem_of_mem_eraseIdx hmem⟩
      refine ⟨fun ws' hws' => ?_, fun last ⟨hlast, _⟩ => ?_⟩
      · rcases hopened ws' id' hws' with ⟨rfl, -⟩ | ⟨hne, -⟩
        · refine hmay.imp_right fun ⟨last, hlast, hhanding⟩ => ⟨last, hlast, ?_⟩
          exact htasks.symm ▸ hhanding
        · exact absurd rfl hne
      · refine (hstored last hlast).mono (fun _ hentry => hentry) (by rw [hdb])
          (fun peer => by rw [hdb]) rfl fun hmem => ?_
        rw [htasks]
        exact (mem_eraseIdx_of_ne hi (by nofun)).mpr hmem
    · refine h.others hi (fun hmem => htasks.symm ▸ hmem) nofun nofun rfl rfl (fun _ _ => rfl)
        (by rw [hdb]) (fun peer => by rw [hdb]) (fun ws' hws' => ?_) fun ws' => ?_
      · rcases hopened ws' id' hws' with ⟨-, heq⟩ | ⟨-, hold⟩
        · exact absurd heq hid
        · exact hold
      · rw [htasks]
        refine handing_taken hi (fun ws'' certHash' heq => ?_) ws'
        cases heq
        exact hid rfl

end

/-! ## Upgrades and messages that come in -/

/-- A new upgrade has a name of its own, and its rows are still to be written. -/
theorem Inv.fetch {self : Watched} (h : self.Inv) {id : EndpointId} {certHash : CertDerHash}
    (hid : id ≠ "") (hhash : certHash ≠ "") (trusted : List EndpointId) :
    Inv
      { self with
        world := { self.world with next := self.world.next + 1 }.spawn
          (.upsertBindingAndTrust self.world.next id certHash trusted)
        who := Function.update self.who self.world.next (id, certHash) } := by
  have hnew := h.named.fresh self.world.next (Nat.le_refl _)
  have hwho {ws : SocketId} {entry : EndpointId × CertDerHash} (hentry : self.who ws = some entry) :
      Function.update self.who self.world.next (some (id, certHash)) ws = some entry := by
    rw [Function.update_of_ne ?_, hentry]
    rintro rfl
    rw [hnew] at hentry
    cases hentry
  have hnamed (task : Task) (htask : Named self.who task) :
      Named (Function.update self.who self.world.next (some (id, certHash))) task := by
    cases task with
    | replaceTrust ws sender trusted =>
        obtain ⟨certHash', hentry⟩ := htask
        exact ⟨certHash', hwho hentry⟩
    | upsertBindingAndTrust ws id' certHash' trusted => exact hwho htask
    | handOver ws id' certHash' => exact hwho htask
    | isBound routed => exact hwho htask
    | isTrustedBy routed => exact hwho htask
    | route routed => exact hwho htask
    | routeTrusted routed receiverWs id' => exact hwho htask
    | addToBlacklist ws certHash' => trivial
    | deleteEndpoint id' => trivial
  refine ⟨⟨fun ws socket hsocket => hwho (h.named.sockets ws socket hsocket), fun task hmem => ?_,
    fun id' ws hlast => ?_, fun ws id' certHash' hentry => ?_, fun ws hws => ?_⟩, fun id' => ?_⟩
  · rcases List.mem_append.mp hmem with hmem | hmem
    · exact hnamed task (h.named.tasks task hmem)
    · cases List.mem_singleton.mp hmem
      exact Function.update_self _ _ _
  · obtain ⟨certHash', hentry⟩ := h.named.latest id' ws hlast
    exact ⟨certHash', hwho hentry⟩
  · simp only [Function.update_apply] at hentry
    split at hentry
    next =>
        cases hentry
        exact ⟨hid, hhash⟩
    next => exact h.named.valid ws id' certHash' hentry
  · have hlt : self.world.next < ws := hws
    exact (Function.update_of_ne (Nat.ne_of_gt hlt) _ _).trans
      (h.named.fresh ws (Nat.le_of_lt hlt))
  · refine (h.settled id').imp ?_ fun hsettled => ?_
    · rintro ⟨ws, certHash', trusted', hmem, hnodup⟩
      exact ⟨ws, certHash', trusted', List.mem_append_left _ hmem, hnodup⟩
    · refine hsettled.mono (fun _ hopened => hopened) rfl (fun ws => ?_) fun ws _ hstored => ?_
      · refine exists_congr fun certHash' => List.mem_append.trans (or_iff_left ?_)
        simp
      · exact hstored.mono (fun _ hentry => hwho hentry) rfl (fun _ => Iff.rfl) rfl
          (List.mem_append_left _)

/-- A list that is declared is still to be written. -/
theorem Inv.trust {self : Watched} (h : self.Inv) {ws : SocketId} {socket : Socket}
    (hsocket : self.world.socket ws = some socket) (trusted : List EndpointId) :
    Inv
      { self with
        world := self.world.spawn (.replaceTrust ws socket.attachment.endpointId trusted)
        declared := Function.update self.declared ws trusted } := by
  have hwho := h.named.sockets ws socket hsocket
  refine ⟨⟨h.named.sockets, fun task hmem => ?_, h.named.latest, h.named.valid, h.named.fresh⟩,
    fun id' => ?_⟩
  · rcases List.mem_append.mp hmem with hmem | hmem
    · exact h.named.tasks task hmem
    · cases List.mem_singleton.mp hmem
      exact ⟨_, hwho⟩
  · refine (h.settled id').imp ?_ fun hsettled => ?_
    · rintro ⟨ws', certHash', trusted', hmem, hnodup⟩
      exact ⟨ws', certHash', trusted', List.mem_append_left _ hmem, hnodup⟩
    · refine hsettled.mono (fun _ hopened => hopened) rfl (fun ws' => ?_)
        fun ws' hlast hstored => ?_
      · refine exists_congr fun certHash' => List.mem_append.trans (or_iff_left ?_)
        simp
      · by_cases hws : ws' = ws
        · subst hws
          obtain ⟨certHash', hwho'⟩ := h.named.latest id' ws' hlast
          cases hwho.symm.trans hwho'
          refine ⟨hstored.binding, .inr (List.mem_append_right _ (List.mem_singleton.mpr ?_))⟩
          exact congrArg _ (Function.update_self _ _ _)
        · exact hstored.mono (fun _ hentry => hentry) rfl (fun _ => Iff.rfl)
            (Function.update_of_ne hws _ _) (List.mem_append_left _)

/-! ## Runs -/

section

variable {Identity : Type} {parseIdentity : String → Except String Identity}
  {hashCert : Identity → CertDerHash}
  {verifyIdentity : Identity → String → Except String CertDerHash}

/-- Only an id with the hash of the certificate is let in, and it is not empty. -/
theorem authenticate_ok {db : D1} {headers : BindHeaders} {success : Bool} {id : EndpointId}
    {certHash : CertDerHash} {trusted : List EndpointId}
    (hhash : ∀ identity, hashCert identity ≠ "")
    (h : authenticate parseIdentity hashCert verifyIdentity db headers success =
      .ok (id, certHash, trusted)) : id ≠ "" ∧ certHash ≠ "" := by
  unfold authenticate at h
  split at h
  next =>
      split at h
      next => cases h
      next identity _ =>
          simp only at h
          repeat' split at h
          all_goals first
            | (cases h; done)
            | skip
          next hid =>
              cases h
              refine ⟨?_, hhash identity⟩
              rintro rfl
              exact hhash identity ((not_not.mp hid).symm.trans (by decide))
  next => cases h

theorem Inv.step (hhash : ∀ identity, hashCert identity ≠ "") {self after : Watched}
    (h : self.Inv) {event : Event} (hturns : self.ResumesInTurn event)
    (hstep : self.step parseIdentity hashCert verifyIdentity event = some after) :
    after.Inv := by
  obtain ⟨world, hworld, rfl⟩ := Option.map_eq_some_iff.mp hstep
  obtain ⟨⟨outputs, world⟩, hhandle, rfl⟩ := Option.map_eq_some_iff.mp hworld
  cases event with
  | fetch headers success =>
      simp only [World.handle, World.fetch, Option.some.injEq] at hhandle
      simp only [note]
      cases hauth : authenticate parseIdentity hashCert verifyIdentity self.world.db headers
        success with
      | error status =>
          simp only [hauth] at hhandle
          cases hhandle
          exact h.leavesRows ⟨rfl, rfl, Nat.le_succ _,
            fun _ socket hsocket => ⟨socket, hsocket, rfl, rfl, id⟩, [], (List.append_nil _).symm,
            List.forall_mem_nil _⟩
      | ok bound =>
          obtain ⟨id, certHash, trusted⟩ := bound
          simp only [hauth] at hhandle
          cases hhandle
          obtain ⟨hid, hcert⟩ := authenticate_ok hhash hauth
          exact h.fetch hid hcert trusted
  | resume i =>
      obtain ⟨task, hi, hresume⟩ := Option.map_eq_some_iff.mp hhandle
      have hmay := hturns task hi
      have hnote (hother : ∀ ws id certHash trusted,
          task ≠ .upsertBindingAndTrust ws id certHash trusted) :
          self.note parseIdentity hashCert verifyIdentity world (.resume i) =
            { self with world } := by
        simp only [note, hi]
        split
        next heq => exact absurd (Option.some.inj heq) (hother _ _ _ _)
        next => rfl
      have hquiet (hquiet : Quiet task) (hdelete : ∀ id, task ≠ .deleteEndpoint id) :
          Inv { self with world } := by
        have hleaves : LeavesRows self.who (self.taken i).world (outputs, world).2 := by
          rw [← hresume]
          exact .resume hquiet (h.named.tasks task (List.mem_of_getElem? hi)) hdelete
            h.named.sockets
        exact (h.taken hi hquiet).leavesRows hleaves
      cases task with
      | upsertBindingAndTrust ws id certHash trusted =>
          cases hdb : self.world.db.upsertBindingAndTrust id certHash trusted with
          | some db =>
              simp only [World.resume, hdb] at hresume
              cases hresume
              simp only [note, hi, hdb]
              exact h.upsert hi hdb
          | none =>
              simp only [World.resume, hdb] at hresume
              cases hresume
              simp only [note, hi, hdb]
              exact h.upsert_none hi hdb
      | handOver ws id certHash =>
          rw [hnote nofun, show world = _ from (congrArg Prod.snd hresume).symm]
          exact h.handOver hi hmay
      | replaceTrust ws sender trusted =>
          rw [hnote nofun]
          have hreplace := @Inv.replaceTrust self i h ws sender trusted _ hi hmay rfl
          cases hdb : self.world.db.replaceTrust sender trusted with
          | some db =>
              simp only [World.resume, hdb] at hresume
              cases hresume
              rwa [hdb] at hreplace
          | none =>
              simp only [World.resume, hdb] at hresume
              cases hresume
              rwa [hdb] at hreplace
      | deleteEndpoint id =>
          cases hresume
          rw [hnote nofun]
          exact h.deleteEndpoint hi hmay
      | isBound routed => exact hnote nofun ▸ hquiet trivial nofun
      | isTrustedBy routed => exact hnote nofun ▸ hquiet trivial nofun
      | route routed => exact hnote nofun ▸ hquiet trivial nofun
      | routeTrusted routed receiverWs id => exact hnote nofun ▸ hquiet trivial nofun
      | addToBlacklist ws certHash => exact hnote nofun ▸ hquiet trivial nofun
  | message ws raw =>
      obtain ⟨socket, hsocket, hmessage⟩ := Option.map_eq_some_iff.mp hhandle
      have hwho := h.named.sockets ws socket hsocket
      by_cases htrust : ∃ trusted, raw = .text (.trust socket.attachment.endpointId trusted)
      · obtain ⟨trusted, rfl⟩ := htrust
        have hnote : self.note parseIdentity hashCert verifyIdentity world
            (.message ws (.text (.trust socket.attachment.endpointId trusted))) =
            { self with world, declared := Function.update self.declared ws trusted } := by
          simp [note, hsocket]
        simp only [World.webSocketMessage, ne_eq, not_true_eq_false, if_false] at hmessage
        cases hmessage
        rw [hnote]
        exact h.trust hsocket trusted
      · have hleaves : LeavesRows self.who self.world (outputs, world).2 := by
          rw [← hmessage]
          exact .webSocketMessage hwho fun trusted heq => htrust ⟨trusted, heq⟩
        have hnote : self.note parseIdentity hashCert verifyIdentity world (.message ws raw) =
            { self with world } := by
          unfold note
          split
          next => cases ‹_ = _›
          next => cases ‹_ = _›
          next heq =>
              cases heq
              rw [hsocket]
              refine if_neg ?_
              rintro rfl
              exact htrust ⟨_, rfl⟩
          next => rfl
        rw [hnote]
        exact h.leavesRows hleaves
  | closed ws =>
      obtain ⟨socket, hsocket, hclosed⟩ := Option.map_eq_some_iff.mp hhandle
      cases hclosed
      exact h.leavesRows (.cleanup _ _ _)
  | expire ws =>
      obtain ⟨socket, hsocket, hexpire⟩ := Option.map_eq_some_iff.mp hhandle
      have hleaves : LeavesRows self.who self.world (outputs, world).2 := by
        rw [← hexpire]
        exact .close _ _ _ _
      exact h.leavesRows hleaves

variable (parseIdentity verifyIdentity) in
/-- When handlers go on in turn, the database has the binding of every open socket, and the rows
that it declared last, whenever nothing is in progress. -/
theorem bindings_follow (hhash : ∀ identity, hashCert identity ≠ "") {events : List Event}
    {after : Watched}
    (hturns : Run.Meets (Watched.step parseIdentity hashCert verifyIdentity) ResumesInTurn new
      events)
    (hrun : Run.run (Watched.step parseIdentity hashCert verifyIdentity) new events = some after) :
    after.Follows :=
  (Run.invariant (fun _ _ _ hinv hevent hstep => Inv.step hhash hinv hevent hstep) inv_new hturns
    hrun).follows

end

/-- Alice connects again, and her first socket is closed when the second one is there. -/
def aliceReconnects : List Event :=
  [.fetch aliceHeaders true, .resume 0, .resume 0, .fetch aliceHeaders true, .resume 0, .resume 0,
    .closed 0]

theorem bindings_follow_alice :
    ∃ after, Run.run (Watched.step .ok aliceHash aliceVerified) new aliceReconnects = some after ∧
      after.Follows := by
  obtain ⟨after, hrun⟩ : ∃ after,
      Run.run (Watched.step .ok aliceHash aliceVerified) new aliceReconnects = some after :=
    ⟨_, rfl⟩
  refine ⟨after, hrun, bindings_follow .ok aliceVerified ?_ ?_ hrun⟩
  · exact fun _ => show "AA" ≠ "" by decide
  have hupsert (self : Watched) {task : Task} (ws : SocketId) (others : List Task)
      (htask : some (.upsertBindingAndTrust ws "alice::AA" "AA" ["bob::BB"]) = some task) :
      self.MayResume others task := by
    cases htask
    trivial
  have hhand (self : Watched) {task : Task} (ws : SocketId) (others : List Task)
      (hlatest : self.latest "alice::AA" = some ws)
      (htask : some (.handOver ws "alice::AA" "AA") = some task) :
      self.MayResume others task := by
    cases htask
    exact .inr (.inl hlatest)
  refine ⟨trivial, fun _ h => ?_⟩
  cases h
  refine ⟨fun _ => hupsert _ 0 _, fun _ h => ?_⟩
  cases h
  refine ⟨fun _ => hhand _ 0 _ rfl, fun _ h => ?_⟩
  cases h
  refine ⟨trivial, fun _ h => ?_⟩
  cases h
  refine ⟨fun _ => hupsert _ 1 _, fun _ h => ?_⟩
  cases h
  refine ⟨fun _ => hhand _ 1 _ rfl, fun _ h => ?_⟩
  cases h
  exact ⟨trivial, fun _ _ => trivial⟩

/-- Her first socket is closed after the second upgrade has written its rows and before
it is handed over. -/
theorem not_bindings_follow :
    ¬∀ after, Run.run (Watched.step .ok aliceHash aliceVerified) new
        [.fetch aliceHeaders true, .resume 0, .resume 0, .fetch aliceHeaders true, .resume 0,
          .closed 0, .resume 0, .resume 0] = some after → after.Follows := by
  intro h
  have hgone : ∃ after, Run.run (Watched.step .ok aliceHash aliceVerified) new
      [.fetch aliceHeaders true, .resume 0, .resume 0, .fetch aliceHeaders true, .resume 0,
        .closed 0, .resume 0, .resume 0] = some after ∧ after.world.tasks = [] ∧
      after.world.socket 1 = some
        { attachment :=
            { endpointId := "alice::AA", certHash := "AA", rejectCount := 0, replaced := false }
          closing := false } ∧
      AssocMap.get after.world.db.bindings "alice::AA" = none :=
    ⟨_, rfl, by decide, by decide, by decide⟩
  obtain ⟨after, hrun, htasks, hsocket, hnone⟩ := hgone
  have hfollows := (h after hrun htasks 1 _ hsocket rfl rfl).1
  rw [hnone] at hfollows
  cases hfollows

end Watched

end Worker

end CollabMode
