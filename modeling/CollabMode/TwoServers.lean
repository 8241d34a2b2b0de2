import CollabMode.Bindings
import CollabMode.Identities
import CollabMode.Registration

/-!
# The worker and the signaling server

What an endpoint sees of the two servers when one thing after the other is processed to
its end: a bind, a message, a connection that is closed.  The reasons of replies are
left out, and so is the answer to a ping.

`Agree` relates the map of the server to the rows of the database and the connections to
the sockets.  It is kept by every input that is `Clean`, and on every other input the
two servers show something else.  They part ways on a list that names a peer twice, which
the primary key of the worker refuses, on a bind of an id that is bound, where the
worker closes the older socket, and on headers that only one of the two accepts.
-/

namespace CollabMode

namespace TwoServers

open Signaling (EndpointId CertDerHash SignalingMsg BindHeaders Packages RawHeaders Tasks Frame)
open Worker (World Output Attachment Socket Routed)

inductive Input where
  /-- The clock of the server shows `now`. -/
  | bind (now : Nat) (raw : RawHeaders)
  | message (c : Nat) (msg : SignalingMsg)
  /-- The client closes its connection. -/
  | close (c : Nat)
deriving DecidableEq, Repr

/-- What the endpoints see. -/
inductive Seen where
  | accepted (c : Nat)
  | refused (c : Nat)
  | sent (c : Nat) (msg : SignalingMsg)
  | closed (c : Nat)
deriving DecidableEq, Repr

def withoutReason : SignalingMsg → SignalingMsg
  | .idNotFound id _ => .idNotFound id ""
  | .rejected id _ => .rejected id ""
  | msg => msg

/-! ## The signaling server -/

/-- A message that is put into the channel of a connection. -/
def seenFrame : Nat × Frame → Option Seen
  | (c, .text msg) => some (.sent c (withoutReason msg))
  | (_, .close _) => none

def isClose : Nat × Frame → Bool
  | (_, .text _) => false
  | (_, .close _) => true

section

variable (p : Packages)

/-- A step of the tasks at a time. -/
def stepAt (now : Nat) (t : Tasks) (event : Signaling.Event) : Tasks :=
  (t.step (Signaling.parseIdentityHeader p) (Signaling.verifyIdentity p now) event).getD t

/-- The stream of a connection ends, and so does its task. -/
def finishTask (t : Tasks) (c : Nat) : Tasks :=
  [.streamEnds c, .drained c, .remove c].foldl (stepAt p 0) t

def processTasks (t : Tasks) : Input → List Seen × Tasks
  | .bind now raw =>
      let c := t.next
      let t := stepAt p now t .accept
      let t := stepAt p now t (.upgrade c raw.toStr true)
      (if (t.conn c).isSome then [.accepted c] else [.refused c], t)
  -- Only a bind looks at the clock.
  | .message c msg =>
      match t.handle (Signaling.parseIdentityHeader p) (Signaling.verifyIdentity p 0)
          (.receive c (.text msg)) with
      | none => ([], t)
      | some (frames, t) =>
          if frames.any isClose then
            (frames.filterMap seenFrame ++ [.closed c], finishTask p t c)
          else (frames.filterMap seenFrame, t)
  | .close c => ([], finishTask p t c)

end

/-! ## The worker -/

def seenOutput : Output → Seen
  | .response ws status => if status = 101 then .accepted ws else .refused ws
  | .send ws msg => .sent ws (withoutReason msg)
  | .close ws _ _ => .closed ws

/-- The handlers go on to their end, at most `n` times to the next await. -/
def settle : Nat → World → List Output × World
  | 0, w => ([], w)
  | n + 1, w =>
      match w.tasks with
      | [] => ([], w)
      | task :: tasks =>
          let (outputs, w) := { w with tasks }.resume task
          let (later, w) := settle n w
          (outputs ++ later, w)

/-- No handler has more awaits than these. -/
def awaits : Nat := 8

def finishSocket (w : World) (ws : Nat) : World :=
  match w.socket ws with
  | some socket => w.cleanup ws socket.attachment
  | none => w

/-- The sockets that the worker has closed. -/
def closedSockets (outputs : List Output) : List Nat :=
  outputs.filterMap fun
    | .close ws _ _ => some ws
    | _ => none

/-- The handlers go on to their end, and the sockets that are closed are cleaned up. -/
def complete (r : List Output × World) : List Seen × World :=
  let (later, w) := settle awaits r.2
  let outputs := r.1 ++ later
  let w := (closedSockets outputs).foldl finishSocket w
  (outputs.map seenOutput, (settle awaits w).2)

def processWorld (p : Packages) (w : World) : Input → List Seen × World
  | .bind now raw =>
      complete (w.fetch (Worker.parseIdentity p) (Worker.hashCert p) (Worker.verifyIdentity p now)
        (Worker.readHeaders p raw) true)
  | .message c msg =>
      match w.socket c with
      | some socket => complete (w.webSocketMessage c socket.attachment (.text msg))
      | none => ([], w)
  | .close c => complete ([], finishSocket w c)

/-! ## Both -/

structure Both where
  tasks : Tasks
  world : World

namespace Both

def new : Both := { tasks := .new, world := .new }

section

variable (p : Packages)

def after (self : Both) (input : Input) : Both where
  tasks := (processTasks p self.tasks input).2
  world := (processWorld p self.world input).2

def step (self : Both) (input : Input) : Option Both := some (self.after p input)

/-- The two servers show the same. -/
def ShowsSame (self : Both) (input : Input) : Prop :=
  (processTasks p self.tasks input).1 = (processWorld p self.world input).1

instance (self : Both) (input : Input) : Decidable (self.ShowsSame p input) :=
  inferInstanceAs (Decidable (_ = _))

/-- The endpoint that the headers bind on the server, and those that it trusts. -/
def validated (now : Nat) (raw : RawHeaders) : Except String (EndpointId × Finset EndpointId) :=
  Signaling.validateBind (Signaling.parseIdentityHeader p) (Signaling.verifyIdentity p now)
    raw.toStr

/-- The endpoint that the headers bind on the worker, its certificate and those that it trusts. -/
def authenticated (self : Both) (now : Nat) (raw : RawHeaders) :
    Except Nat (EndpointId × CertDerHash × List EndpointId) :=
  Worker.authenticate (Worker.parseIdentity p) (Worker.hashCert p) (Worker.verifyIdentity p now)
    self.world.db (Worker.readHeaders p raw) true

/-- The headers pass the checks of the worker, with a list that names nobody twice. -/
def Passes (self : Both) (now : Nat) (raw : RawHeaders) (id : EndpointId) : Prop :=
  ∃ certHash trusted,
    self.authenticated p now raw = .ok (id, certHash, trusted) ∧ trusted.Nodup

/-- The headers of a bind are valid for both servers or for neither, lists name nobody twice, and
an id is bound only while it has no connection. -/
def Clean (self : Both) : Input → Prop
  | .bind now raw =>
      ((∃ bound, validated p now raw = .ok bound) ↔ ∃ id, self.Passes p now raw id) ∧
        ∀ id, self.Passes p now raw id → ∀ c socket, self.world.socket c = some socket →
          socket.attachment.endpointId ≠ id
  | .message c (.trust sender trusted) =>
      ∀ socket, self.world.socket c = some socket → socket.attachment.endpointId = sender →
        trusted.Nodup
  | _ => True

end

/-- The connection has not had too many of its messages rejected. -/
def BelowLimit (self : Both) : Input → Prop
  | .message c _ =>
      ∀ socket, self.world.socket c = some socket →
        socket.attachment.rejectCount < Worker.rejectThreshold
  | _ => True

/-- The map has what the database has, and each connection is a socket. -/
structure Agree (both : Both) : Prop where
  next : both.world.next = both.tasks.next
  idle : both.world.tasks = []
  nodup : (AssocMap.keys both.world.sockets).Nodup
  conns : ∀ c, both.tasks.conn c =
    (both.world.socket c).map fun socket => .serving socket.attachment.endpointId true
  unclosed : ∀ c socket, both.world.socket c = some socket →
    socket.closing = false ∧ socket.attachment.replaced = false
  entries : ∀ id info, both.tasks.server.getEndpointInfo id = some info →
    (∃ socket, both.world.socket info.msgTx = some socket ∧
      socket.attachment.endpointId = id) ∧
    ∀ peer, peer ∈ info.trusted ↔ (id, peer) ∈ both.world.db.trusted
  bound : ∀ id, both.world.db.isBound id = (both.tasks.server.getEndpointInfo id).isSome
  owner : ∀ c socket, both.world.socket c = some socket →
    ∃ info, both.tasks.server.getEndpointInfo socket.attachment.endpointId = some info ∧
      info.msgTx = c
  fresh : ∀ c, both.tasks.next ≤ c → both.world.socket c = none

theorem agree_new : new.Agree where
  next := rfl
  idle := rfl
  nodup := List.nodup_nil
  conns _ := rfl
  unclosed := nofun
  entries := nofun
  bound _ := rfl
  owner := nofun
  fresh _ _ := rfl

end Both

/-! ## The headers -/

theorem decodeTrustedHeader_eq (value : String) :
    Worker.decodeTrustedHeader value = Signaling.decodeTrustedHeader value := by
  unfold Worker.decodeTrustedHeader Signaling.decodeTrustedHeader
  by_cases h : value = ""
  · subst h
    rfl
  · have hlength : value.length ≠ 0 := by simpa using h
    have hempty : value.isEmpty = false := by simpa using h
    rw [if_neg hlength, hempty]
    rfl

section

variable {p : Packages} {now : Nat} {raw : RawHeaders} {id : EndpointId}

theorem texts_of_validated {trusted : Finset EndpointId}
    (h : Both.validated p now raw = .ok (id, trusted)) :
    raw.toStr.id = some id ∧ ∃ text, raw.toStr.trusted = some text ∧
      trusted = (Signaling.decodeTrustedHeader text).toFinset := by
  unfold Both.validated at h
  generalize raw.toStr = headers at h ⊢
  obtain ⟨idText, identity, signature, trustedText⟩ := headers
  cases idText with
  | none => cases h
  | some idText =>
  cases identity with
  | none => cases h
  | some identity =>
  cases hparse : Signaling.parseIdentityHeader p identity with
  | error reason =>
      simp [Signaling.validateBind, Signaling.headerStr, hparse, Signaling.withContext, bind,
        Except.bind] at h
  | ok parsed =>
  cases signature with
  | none =>
      simp [Signaling.validateBind, Signaling.headerStr, hparse, Signaling.withContext, bind,
        Except.bind] at h
  | some signature =>
  cases trustedText with
  | none =>
      simp [Signaling.validateBind, Signaling.headerStr, hparse, Signaling.withContext, bind,
        Except.bind] at h
  | some trustedText =>
  cases hverify : Signaling.verifyIdentity p now parsed signature with
  | error reason =>
      simp [Signaling.validateBind, Signaling.headerStr, hparse, hverify, Signaling.withContext,
        bind, Except.bind] at h
  | ok certHash =>
      simp only [Signaling.validateBind, Signaling.headerStr, hparse, hverify,
        Signaling.withContext, bind, Except.bind] at h
      split at h
      next => cases h
      next =>
          cases h
          exact ⟨rfl, trustedText, rfl, rfl⟩

variable {both : Both} {certHash : CertDerHash} {trusted : List EndpointId}

theorem texts_of_authenticated (h : both.authenticated p now raw = .ok (id, certHash, trusted)) :
    (Worker.readHeaders p raw).id = some id ∧
      (∃ text, (Worker.readHeaders p raw).trusted = some text ∧
        trusted = Worker.decodeTrustedHeader text) ∧
      Signaling.idHash id = certHash ∧ ∃ der, certHash = p.hashDer der := by
  unfold Both.authenticated Worker.authenticate at h
  split at h
  next idText identity signature trustedText heq =>
      split at h
      next => cases h
      next parsed hparse =>
          dsimp only at h
          split at h
          next => cases h
          next =>
              split at h
              next => cases h
              next =>
                  split at h
                  next => cases h
                  next =>
                      split at h
                      next => cases h
                      next hid =>
                          cases h
                          rw [heq]
                          exact ⟨rfl, ⟨trustedText, rfl, rfl⟩, not_not.mp hid, parsed.certDer, rfl⟩
  next => cases h

theorem status_of_authenticated {status : Nat} (h : both.authenticated p now raw = .error status) :
    status ≠ 101 := by
  unfold Both.authenticated Worker.authenticate at h
  split at h
  next =>
      split at h
      next => cases h; decide
      next =>
          dsimp only at h
          split at h
          next => cases h; decide
          next =>
              split at h
              next => cases h; decide
              next =>
                  split at h
                  next => cases h; decide
                  next =>
                      split at h
                      next => cases h; decide
                      next => cases h
  next => cases h; decide

/-- The endpoint and the certificate that the worker lets in have names. -/
theorem ne_empty_of_authenticated (hhash : ∀ der, p.hashDer der ≠ "")
    (h : both.authenticated p now raw = .ok (id, certHash, trusted)) : id ≠ "" ∧ certHash ≠ "" := by
  obtain ⟨-, -, hid, der, rfl⟩ := texts_of_authenticated h
  refine ⟨?_, hhash der⟩
  rintro rfl
  exact hhash der (hid.symm.trans (by decide))

/-- Where both let the bind in, they read the same. -/
theorem validated_eq (hget : ∀ value text, Signaling.toStr value = some text →
      p.headersGet value = text)
    {bound : EndpointId × Finset EndpointId} (h : Both.validated p now raw = .ok bound)
    (h' : both.authenticated p now raw = .ok (id, certHash, trusted)) :
    Both.validated p now raw = .ok (id, trusted.toFinset) := by
  obtain ⟨id', trusted'⟩ := bound
  have hread {value : Option Signaling.Bytes} {text : String}
      (h : value.bind Signaling.toStr = some text) : value.map p.headersGet = some text := by
    obtain ⟨bytes, rfl, hbytes⟩ := Option.bind_eq_some_iff.mp h
    exact congrArg some (hget bytes text hbytes)
  obtain ⟨hid, text, htext, rfl⟩ := texts_of_validated h
  obtain ⟨hid', ⟨text', htext', rfl⟩, -⟩ := texts_of_authenticated h'
  cases (hread hid).symm.trans hid'
  cases (hread htext).symm.trans htext'
  rw [h, decodeTrustedHeader_eq]

end

/-! ## Binds -/

section

variable {p : Packages} {now : Nat} {raw : RawHeaders}

/-- The tasks with one more connection. -/
def accepted (t : Tasks) : Tasks := { t.setConn t.next .upgrading with next := t.next + 1 }

theorem conn_accepted (t : Tasks) (c : Nat) :
    (accepted t).conn c = if c = t.next then some .upgrading else t.conn c :=
  Tasks.conn_setConn _ _ _ _

theorem processTasks_bind (t : Tasks) :
    processTasks p t (.bind now raw) =
      let after := (accepted t).upgrade (Signaling.parseIdentityHeader p)
        (Signaling.verifyIdentity p now) t.next raw.toStr true
      (if (after.conn t.next).isSome then [.accepted t.next] else [.refused t.next], after) := by
  have haccept : stepAt p now t .accept = accepted t := rfl
  have hupgrade : stepAt p now (accepted t) (.upgrade t.next raw.toStr true) =
      (accepted t).upgrade (Signaling.parseIdentityHeader p) (Signaling.verifyIdentity p now) t.next
        raw.toStr true := by
    simp [stepAt, Tasks.step, Tasks.handle, conn_accepted]
  simp only [processTasks, haccept, hupgrade]

theorem processTasks_bind_error {t : Tasks} (hnew : t.conn t.next = none) {reason : String}
    (h : Both.validated p now raw = .error reason) :
    (processTasks p t (.bind now raw)).1 = [.refused t.next] ∧
      let after := (processTasks p t (.bind now raw)).2
      (∀ c, after.conn c = t.conn c) ∧ after.server = t.server ∧ after.next = t.next + 1 := by
  unfold Both.validated at h
  have hupgrade : (accepted t).upgrade (Signaling.parseIdentityHeader p)
      (Signaling.verifyIdentity p now) t.next raw.toStr true = (accepted t).dropConn t.next := by
    simp [Tasks.upgrade, h]
  have hdrop (c : Nat) : ((accepted t).dropConn t.next).conn c = t.conn c := by
    rw [Tasks.conn_dropConn, conn_accepted]
    split
    next hc => rw [hc, hnew]
    next => rfl
  rw [processTasks_bind, hupgrade]
  refine ⟨?_, hdrop, rfl, rfl⟩
  simp only [hdrop, hnew]
  rfl

theorem processTasks_bind_ok {t : Tasks} {id : EndpointId} {trusted : Finset EndpointId}
    (h : Both.validated p now raw = .ok (id, trusted)) :
    (processTasks p t (.bind now raw)).1 = [.accepted t.next] ∧
      let after := (processTasks p t (.bind now raw)).2
      (∀ c, after.conn c = if c = t.next then some (.serving id true) else t.conn c) ∧
        after.server = t.server.register id { msgTx := t.next, trusted := trusted } ∧
        after.next = t.next + 1 := by
  unfold Both.validated at h
  let served : Tasks :=
    { (accepted t).setConn t.next (.serving id true) with
      server := t.server.register id { msgTx := t.next, trusted := trusted } }
  have hupgrade : (accepted t).upgrade (Signaling.parseIdentityHeader p)
      (Signaling.verifyIdentity p now) t.next raw.toStr true = served := by
    simp only [Tasks.upgrade, h, if_true]
    rfl
  have hserved (c : Nat) : served.conn c =
      if c = t.next then some (.serving id true) else t.conn c := by
    refine (Tasks.conn_setConn _ _ _ _).trans ?_
    rw [conn_accepted]
    split
    next => rfl
    next => rfl
  rw [processTasks_bind, hupgrade]
  refine ⟨?_, hserved, rfl, rfl⟩
  simp only [hserved, if_true]
  rfl

end

/-! ## Handlers that go on to their end -/

theorem settle_nil {w : World} (h : w.tasks = []) (n : Nat) : settle n w = ([], w) := by
  cases n with
  | zero => rfl
  | succ n => simp [settle, h]

theorem settle_one {w : World} {task : Worker.Task} (h : w.tasks = [task]) (n : Nat) :
    settle (n + 1) w =
      (({ w with tasks := [] }.resume task).1 ++
          (settle n ({ w with tasks := [] }.resume task).2).1,
        (settle n ({ w with tasks := [] }.resume task).2).2) := by
  simp [settle, h]

/-- Handlers that close nothing. -/
theorem complete_of_open {r : List Output × World} {later : List Output} {w : World}
    (hsettle : settle awaits r.2 = (later, w)) (hidle : w.tasks = [])
    (hopen : closedSockets (r.1 ++ later) = []) :
    complete r = ((r.1 ++ later).map seenOutput, w) := by
  unfold complete
  rw [hsettle]
  simp only [hopen, List.foldl_nil, settle_nil hidle]

theorem complete_fst {r : List Output × World} {later : List Output} {w : World}
    (hsettle : settle awaits r.2 = (later, w)) :
    (complete r).1 = (r.1 ++ later).map seenOutput := by
  unfold complete
  rw [hsettle]

section

variable {p : Packages} {now : Nat} {raw : RawHeaders} {both : Both}

theorem processWorld_bind_error (hidle : both.world.tasks = []) {status : Nat}
    (h : both.authenticated p now raw = .error status) :
    processWorld p both.world (.bind now raw) =
      ([.refused both.world.next], { both.world with next := both.world.next + 1 }) := by
  have hstatus := status_of_authenticated h
  unfold Both.authenticated at h
  have hfetch : both.world.fetch (Worker.parseIdentity p) (Worker.hashCert p)
      (Worker.verifyIdentity p now) (Worker.readHeaders p raw) true =
        ([.response both.world.next status], { both.world with next := both.world.next + 1 }) := by
    simp [World.fetch, h]
  have hsettle : settle awaits { both.world with next := both.world.next + 1 } =
      ([], { both.world with next := both.world.next + 1 }) := settle_nil (by exact hidle) _
  rw [processWorld, hfetch,
    @complete_of_open ([.response both.world.next status], _) [] _ hsettle hidle rfl]
  simp [seenOutput, hstatus]

/-- What a bind that is let in comes to. -/
theorem settle_fetch (hidle : both.world.tasks = []) {id : EndpointId} {certHash : CertDerHash}
    {trusted : List EndpointId} (h : both.authenticated p now raw = .ok (id, certHash, trusted)) :
    let fetched := both.world.fetch (Worker.parseIdentity p) (Worker.hashCert p)
      (Worker.verifyIdentity p now) (Worker.readHeaders p raw) true
    fetched.1 = [] ∧
      settle awaits fetched.2 =
        match both.world.db.upsertBindingAndTrust id certHash trusted with
        | none =>
            ([.response both.world.next 500], { both.world with next := both.world.next + 1 })
        | some db =>
            { both.world with db, next := both.world.next + 1 }.handleUpgrade both.world.next id
              certHash := by
  obtain ⟨t, ⟨db, sockets, tasks, next⟩⟩ := both
  cases hidle
  unfold Both.authenticated at h
  have hfetch : World.fetch (Worker.parseIdentity p) (Worker.hashCert p)
      (Worker.verifyIdentity p now) ⟨db, sockets, [], next⟩ (Worker.readHeaders p raw) true =
        ([], ⟨db, sockets, [.upsertBindingAndTrust next id certHash trusted], next + 1⟩) := by
    simp [World.fetch, h, World.spawn]
  refine ⟨by rw [hfetch], ?_⟩
  rw [hfetch, show awaits = 7 + 1 from rfl, settle_one rfl]
  simp only [World.resume]
  cases hdb : db.upsertBindingAndTrust id certHash trusted with
  | none =>
      simp only [settle_nil]
      rfl
  | some after =>
      have hidle : (World.handleUpgrade ⟨after, sockets, [], next + 1⟩ next id certHash).2.tasks =
          [] := by
        unfold World.handleUpgrade
        split <;> rfl
      have hhandOver : settle 7 ⟨after, sockets, [.handOver next id certHash], next + 1⟩ =
          World.handleUpgrade ⟨after, sockets, [], next + 1⟩ next id certHash := by
        refine (settle_one rfl 6).trans ?_
        simp only [World.resume, settle_nil hidle, List.append_nil]
      exact hhandOver

end

theorem rebinding_eq_nil {w : World} (hnodup : (AssocMap.keys w.sockets).Nodup) {id : EndpointId}
    (hnone : ∀ c socket, w.socket c = some socket → socket.attachment.endpointId ≠ id) :
    w.rebinding id = [] := by
  refine List.filterMap_eq_nil_iff.mpr fun entry hmem => ?_
  obtain ⟨hmem, hid⟩ := List.mem_filter.mp hmem
  exact absurd (by simpa using hid) (hnone entry.1 entry.2 (AssocMap.get_of_mem hnodup hmem))

/-- An older socket of the endpoint is closed first. -/
theorem exists_close_of_rebinding {w : World} {id : EndpointId} {c : Nat} {socket : Socket}
    (hsocket : w.socket c = some socket) (hopen : socket.closing = false)
    (hid : socket.attachment.endpointId = id) :
    ∃ c rest, w.rebinding id = .close c 1000 "rebinding" :: rest := by
  have hmem : Output.close c 1000 "rebinding" ∈ w.rebinding id := by
    refine List.mem_filterMap.mpr ⟨(c, socket), ?_, by simp [hopen]⟩
    exact List.mem_filter.mpr ⟨AssocMap.mem_of_get hsocket, by simpa using hid⟩
  cases hlist : w.rebinding id with
  | nil => rw [hlist] at hmem; cases hmem
  | cons output rest =>
      have hhead : output ∈ w.rebinding id := by simp [hlist]
      obtain ⟨entry, -, heq⟩ := List.mem_filterMap.mp hhead
      split at heq
      next => cases heq
      next =>
          cases heq
          exact ⟨entry.1, rest, rfl⟩

section

variable {w : World} {id : EndpointId} {certHash : CertDerHash}

/-- The worker has no fault to find with the hand-over. -/
theorem handleUpgrade_eq (w : World) (ws : Nat) (hid : id ≠ "") (hhash : certHash ≠ "") :
    w.handleUpgrade ws id certHash =
      (w.rebinding id ++ [.response ws 101],
        { w with
          sockets := AssocMap.insert (AssocMap.mapVals (World.replaceSocket id) w.sockets) ws
            { attachment := { endpointId := id, certHash, rejectCount := 0, replaced := false }
              closing := false } }) := by
  unfold World.handleUpgrade
  rw [if_neg (by simp [hid, hhash])]

/-- The other sockets stay when the endpoint has none of them. -/
theorem socket_handleUpgrade (ws : Nat) (hid : id ≠ "") (hhash : certHash ≠ "")
    (hnone : ∀ c socket, w.socket c = some socket → socket.attachment.endpointId ≠ id) (c : Nat) :
    (w.handleUpgrade ws id certHash).2.socket c =
      if c = ws then
        some
          { attachment := { endpointId := id, certHash, rejectCount := 0, replaced := false }
            closing := false }
      else w.socket c := by
  rw [handleUpgrade_eq w ws hid hhash]
  refine (AssocMap.get_insert _ _ _ _).trans ?_
  split
  next => rfl
  next =>
      rw [AssocMap.get_mapVals]
      cases hget : AssocMap.get w.sockets c with
      | none => exact hget.symm
      | some old =>
          refine Eq.trans ?_ hget.symm
          simp [World.replaceSocket, hnone c old hget]

end

namespace Both

section

variable {p : Packages}

/-- A connection that is refused leaves everything but its name. -/
theorem Agree.refused {both : Both} (h : both.Agree) {tasks : Tasks}
    (hconn : ∀ c, tasks.conn c = both.tasks.conn c) (hserver : tasks.server = both.tasks.server)
    (hnext : tasks.next = both.tasks.next + 1) :
    Agree { tasks, world := { both.world with next := both.world.next + 1 } } where
  next := by rw [hnext, ← h.next]
  idle := h.idle
  nodup := h.nodup
  conns c := (hconn c).trans (h.conns c)
  unclosed := h.unclosed
  entries id info hinfo := h.entries id info (hserver ▸ hinfo)
  bound id := hserver ▸ h.bound id
  owner c socket hsocket := hserver ▸ h.owner c socket hsocket
  fresh c hc := h.fresh c (Nat.le_of_succ_le (hnext.ge.trans hc))

/-- A connection that is let in is the only one of its endpoint. -/
theorem Agree.accepted {both : Both} (h : both.Agree) {tasks : Tasks} {db : Worker.D1}
    {id : EndpointId} {certHash : CertDerHash} {trusted : List EndpointId} (hid : id ≠ "")
    (hhash : certHash ≠ "")
    (hnone : ∀ c socket, both.world.socket c = some socket → socket.attachment.endpointId ≠ id)
    (hdb : both.world.db.upsertBindingAndTrust id certHash trusted = some db)
    (hconn : ∀ c, tasks.conn c =
      if c = both.tasks.next then some (.serving id true) else both.tasks.conn c)
    (hserver : tasks.server = both.tasks.server.register id
      { msgTx := both.tasks.next, trusted := trusted.toFinset })
    (hnext : tasks.next = both.tasks.next + 1) :
    Agree
      { tasks
        world := ({ both.world with db, next := both.world.next + 1 }.handleUpgrade both.world.next
          id certHash).2 } := by
  obtain ⟨-, hbindings, hown, hothers⟩ := Worker.D1.upsertBindingAndTrust_some hdb
  have hsocket (c : Nat) := socket_handleUpgrade
    (w := { both.world with db, next := both.world.next + 1 }) both.world.next hid hhash hnone c
  have hne {c : Nat} {old : Socket} (hold : both.world.socket c = some old) :
      c ≠ both.tasks.next := by
    rintro rfl
    rw [h.fresh _ (Nat.le_refl _)] at hold
    cases hold
  simp only [handleUpgrade_eq _ _ hid hhash, h.next] at hsocket ⊢
  constructor
  · rw [hnext, ← h.next]
  · exact h.idle
  · refine AssocMap.nodup_insert ?_ _ _
    rw [AssocMap.keys_mapVals]
    exact h.nodup
  · intro c
    rw [hconn c, hsocket c]
    split
    next => rfl
    next => exact h.conns c
  · intro c new hnew
    rw [hsocket c] at hnew
    split at hnew
    next =>
        cases hnew
        exact ⟨rfl, rfl⟩
    next => exact h.unclosed c new hnew
  · intro id' info hinfo
    simp only [hserver, Signaling.Server.getEndpointInfo_register] at hinfo
    split at hinfo
    next heq =>
        cases hinfo
        refine ⟨⟨_, (hsocket _).trans (if_pos rfl), heq.symm⟩, fun peer => ?_⟩
        rw [heq, List.mem_toFinset]
        exact (hown peer).symm
    next heq =>
        obtain ⟨⟨old, hold, holdId⟩, hrows⟩ := h.entries id' info hinfo
        refine ⟨⟨old, (hsocket _).trans ((if_neg (hne hold)).trans hold), holdId⟩, fun peer => ?_⟩
        exact (hrows peer).trans (hothers id' peer heq).symm
  · intro id'
    simp only [hserver, Signaling.Server.getEndpointInfo_register, Worker.D1.isBound, hbindings,
      AssocMap.get_insert]
    split
    next => rfl
    next => exact h.bound id'
  · intro c new hnew
    rw [hsocket c] at hnew
    simp only [hserver, Signaling.Server.getEndpointInfo_register]
    split at hnew
    next hc =>
        cases hnew
        exact ⟨_, if_pos rfl, hc.symm⟩
    next =>
        rw [if_neg (hnone c new hnew)]
        exact h.owner c new hnew
  · intro c hc
    have hlt : both.tasks.next < c := hnext.ge.trans hc
    rw [hsocket c, if_neg (Nat.ne_of_gt hlt)]
    exact h.fresh c (Nat.le_of_lt hlt)

/-- A connection that is closed takes its rows with it. -/
theorem Agree.closed {both : Both} (h : both.Agree) {c : Nat} {socket : Socket}
    (hsocket : both.world.socket c = some socket) {tasks : Tasks}
    (hconn : ∀ c', tasks.conn c' = if c' = c then none else both.tasks.conn c')
    (hserver : tasks.server = both.tasks.server.removeEndpoint socket.attachment.endpointId)
    (hnext : tasks.next = both.tasks.next) :
    Agree
      { tasks
        world :=
          { both.world with
            db := both.world.db.deleteEndpoint socket.attachment.endpointId
            sockets := AssocMap.erase both.world.sockets c } } := by
  obtain ⟨-, hothers⟩ :=
    Worker.D1.hasTrusted_deleteEndpoint both.world.db socket.attachment.endpointId
  obtain ⟨info, hinfo, hinfoTx⟩ := h.owner c socket hsocket
  have hget (c' : Nat) :
      AssocMap.get (AssocMap.erase both.world.sockets c) c' =
        if c' = c then none else both.world.socket c' := AssocMap.get_erase _ _ _
  have holder {c' : Nat} {old : Socket}
      (hold : AssocMap.get (AssocMap.erase both.world.sockets c) c' = some old) :
      c' ≠ c ∧ both.world.socket c' = some old := by
    rw [hget c'] at hold
    split at hold
    next => cases hold
    next hc => exact ⟨hc, hold⟩
  -- The endpoint has no other connection.
  have hother {c' : Nat} {old : Socket}
      (hold : AssocMap.get (AssocMap.erase both.world.sockets c) c' = some old) :
      old.attachment.endpointId ≠ socket.attachment.endpointId := by
    intro heq
    obtain ⟨hc, hold⟩ := holder hold
    obtain ⟨info', hinfo', rfl⟩ := h.owner c' old hold
    rw [heq, hinfo] at hinfo'
    cases hinfo'
    exact hc hinfoTx
  refine ⟨h.next.trans hnext.symm, h.idle, ?_, fun c' => ?_, fun c' old hold => ?_,
    fun id info' hinfo' => ?_, fun id => ?_, fun c' old hold => ?_, fun c' hc' => ?_⟩
  · exact h.nodup.sublist ((List.filter_sublist).map _)
  · refine (hconn c').trans ?_
    show _ = (AssocMap.get (AssocMap.erase both.world.sockets c) c').map _
    rw [hget c', h.conns c']
    split
    next => rfl
    next => rfl
  · exact h.unclosed c' old (holder hold).2
  · simp only [hserver, Signaling.Server.getEndpointInfo_removeEndpoint] at hinfo'
    split at hinfo'
    next => cases hinfo'
    next hid =>
        obtain ⟨⟨old, hold, holdId⟩, hrows⟩ := h.entries id info' hinfo'
        refine ⟨⟨old, (hget _).trans ((if_neg ?_).trans hold), holdId⟩, fun peer => ?_⟩
        · rintro heq
          rw [heq, hsocket] at hold
          cases hold
          exact hid holdId.symm
        · exact (hrows peer).trans (hothers id peer hid).symm
  · simp only [hserver, Signaling.Server.getEndpointInfo_removeEndpoint, Worker.D1.isBound,
      Worker.D1.deleteEndpoint, AssocMap.get_erase]
    split
    next => rfl
    next => exact h.bound id
  · simp only [hserver, Signaling.Server.getEndpointInfo_removeEndpoint]
    rw [if_neg (hother hold)]
    exact h.owner c' old (holder hold).2
  · refine (hget c').trans ?_
    split
    next => rfl
    next => exact h.fresh c' (hnext ▸ hc')

/-- A rejected message is counted. -/
theorem Agree.counted {both : Both} (h : both.Agree) {c : Nat} {socket : Socket}
    (hsocket : both.world.socket c = some socket) (n : Nat) :
    Agree
      { both with
        world := both.world.serializeAttachment c
          { socket.attachment with rejectCount := n } } := by
  have hget (c' : Nat) : (both.world.serializeAttachment c
      { socket.attachment with rejectCount := n }).socket c' =
      if c' = c then some { socket with attachment := { socket.attachment with rejectCount := n } }
      else both.world.socket c' := by
    refine (AssocMap.get_modify _ _ _ _).trans ?_
    split
    next hc =>
        subst hc
        exact congrArg (Option.map _) hsocket
    next => rfl
  -- Only the count of the socket is new.
  have hold {c' : Nat} {new : Socket} (hnew : (both.world.serializeAttachment c
      { socket.attachment with rejectCount := n }).socket c' = some new) :
      ∃ old, both.world.socket c' = some old ∧ new.closing = old.closing ∧
        new.attachment.replaced = old.attachment.replaced ∧
        new.attachment.endpointId = old.attachment.endpointId := by
    rw [hget c'] at hnew
    split at hnew
    next hc =>
        cases hnew
        exact ⟨socket, hc ▸ hsocket, rfl, rfl, rfl⟩
    next => exact ⟨new, hnew, rfl, rfl, rfl⟩
  refine ⟨h.next, h.idle, ?_, fun c' => ?_, fun c' new hnew => ?_, fun id info hinfo => ?_,
    h.bound, fun c' new hnew => ?_, fun c' hc' => ?_⟩
  · exact AssocMap.nodup_modify h.nodup _ _
  · refine (h.conns c').trans ?_
    rw [hget c']
    split
    next hc =>
        subst hc
        rw [hsocket]
        rfl
    next => rfl
  · obtain ⟨old, hold, hclosing, hreplaced, -⟩ := hold hnew
    rw [hclosing, hreplaced]
    exact h.unclosed c' old hold
  · obtain ⟨⟨old, hold', hid⟩, hrows⟩ := h.entries id info hinfo
    refine ⟨?_, hrows⟩
    rw [hget]
    split
    next hc =>
        rw [hc, hsocket] at hold'
        cases hold'
        exact ⟨_, rfl, hid⟩
    next => exact ⟨old, hold', hid⟩
  · obtain ⟨old, hold, -, -, hid⟩ := hold hnew
    rw [hid]
    exact h.owner c' old hold
  · rw [hget c']
    split
    next hc =>
        rw [hc] at hc'
        cases (h.fresh c hc').symm.trans hsocket
    next => exact h.fresh c' hc'

/-- A trust list that names nobody twice is written. -/
theorem Agree.trusted {both : Both} (h : both.Agree) {db : Worker.D1} {id : EndpointId}
    {trusted : List EndpointId} (hdb : both.world.db.replaceTrust id trusted = some db) :
    Agree
      { tasks := { both.tasks with
          server := both.tasks.server.updateTrust id trusted.toFinset }
        world := { both.world with db } } := by
  obtain ⟨-, hbindings, hown, hothers⟩ := Worker.D1.replaceTrust_some hdb
  refine ⟨h.next, h.idle, h.nodup, h.conns, h.unclosed, fun id' info hinfo => ?_, fun id' => ?_,
    fun c socket hsocket => ?_, h.fresh⟩
  · simp only [Signaling.Server.getEndpointInfo_updateTrust] at hinfo
    split at hinfo
    next hid =>
        subst hid
        obtain ⟨old, hold, rfl⟩ := Option.map_eq_some_iff.mp hinfo
        refine ⟨(h.entries id' old hold).1, fun peer => ?_⟩
        exact List.mem_toFinset.trans (hown peer).symm
    next hid =>
        obtain ⟨hsocket, hrows⟩ := h.entries id' info hinfo
        exact ⟨hsocket, fun peer => (hrows peer).trans (hothers id' peer hid).symm⟩
  · simp only [Signaling.Server.getEndpointInfo_updateTrust, Worker.D1.isBound, hbindings]
    split
    next =>
        rw [Option.isSome_map]
        exact h.bound id'
    next => exact h.bound id'
  · obtain ⟨info, hinfo, hc⟩ := h.owner c socket hsocket
    simp only [Signaling.Server.getEndpointInfo_updateTrust]
    split
    next => exact ⟨_, congrArg (Option.map _) hinfo, hc⟩
    next => exact ⟨info, hinfo, hc⟩

end

end Both

/-! ## Connections that are closed -/

section

variable {p : Packages}

theorem dropConn_setConn (t : Tasks) (c : Nat) (conn : Signaling.Conn) :
    (t.setConn c conn).dropConn c = t.dropConn c := by
  simp [Tasks.setConn, Tasks.dropConn, AssocMap.erase_insert]

theorem finishTask_eq {t : Tasks} {c : Nat} {id : EndpointId}
    (h : t.conn c = some (.serving id true) ∨ t.conn c = some (.ended id true)) :
    finishTask p t c =
      { t.dropConn c with server := t.server.removeEndpoint id } := by
  have hself (t' : Tasks) (conn : Signaling.Conn) : (t'.setConn c conn).conn c = some conn := by
    rw [Tasks.conn_setConn, if_pos rfl]
  have hremove (t' : Tasks) : stepAt p 0 (t'.setConn c (.ended id false)) (.remove c) =
      { t'.dropConn c with server := t'.server.removeEndpoint id } := by
    simp only [stepAt, Tasks.step, Tasks.handle, hself, dropConn_setConn]
    rfl
  rcases h with h | h
  · have hends : stepAt p 0 t (.streamEnds c) = t.setConn c (.serving id false) := by
      simp [stepAt, Tasks.step, Tasks.handle, h]
    have hdrained : stepAt p 0 (t.setConn c (.serving id false)) (.drained c) =
        (t.setConn c (.serving id false)).setConn c (.ended id false) := by
      simp only [stepAt, Tasks.step, Tasks.handle, hself]
      rfl
    simp only [finishTask, List.foldl_cons, List.foldl_nil, hends, hdrained, hremove,
      dropConn_setConn]
    rfl
  · have hends : stepAt p 0 t (.streamEnds c) = t.setConn c (.ended id false) := by
      simp [stepAt, Tasks.step, Tasks.handle, h]
    have hdrained : stepAt p 0 (t.setConn c (.ended id false)) (.drained c) =
        t.setConn c (.ended id false) := by
      simp only [stepAt, Tasks.step, Tasks.handle, hself]
      rfl
    simp only [finishTask, List.foldl_cons, List.foldl_nil, hends, hdrained, hremove]

end

/-- The worker cleans up after a socket. -/
theorem settle_cleanup {w : World} (hidle : w.tasks = []) {c : Nat} {att : Attachment}
    (hreplaced : att.replaced = false) :
    settle awaits (w.cleanup c att) =
      ([], { w with
        db := w.db.deleteEndpoint att.endpointId
        sockets := AssocMap.erase w.sockets c }) := by
  have htasks : (w.cleanup c att).tasks = [.deleteEndpoint att.endpointId] := by
    simp [World.cleanup, hreplaced, World.spawn, hidle]
  refine (settle_one htasks 7).trans ?_
  have hresume : { w.cleanup c att with tasks := [] }.resume (.deleteEndpoint att.endpointId) =
      ([], { w with
        db := w.db.deleteEndpoint att.endpointId
        sockets := AssocMap.erase w.sockets c }) := by
    simp [World.resume, World.cleanup, hreplaced, World.spawn, hidle]
  rw [hresume]
  have hidle' : World.tasks
      { w with
        db := w.db.deleteEndpoint att.endpointId
        sockets := AssocMap.erase w.sockets c } = [] := hidle
  simp only [settle_nil hidle', List.nil_append]

/-- The worker closes a socket and cleans up after it. -/
theorem complete_close {w : World} (hidle : w.tasks = []) {c : Nat} {socket : Socket}
    (hsocket : w.socket c = some socket) (hclosing : socket.closing = false)
    (hreplaced : socket.attachment.replaced = false) (code : Nat) (reason : String) :
    complete (w.close c code reason) =
      ([.closed c], { w with
        db := w.db.deleteEndpoint socket.attachment.endpointId
        sockets := AssocMap.erase w.sockets c }) := by
  obtain ⟨att, closing⟩ := socket
  cases hclosing
  let closed : World := { w with sockets := AssocMap.insert w.sockets c ⟨att, true⟩ }
  have hclose : w.close c code reason = ([.close c code reason], closed) := by
    simp only [World.close, hsocket]
    rfl
  have hfinish : finishSocket closed c = closed.cleanup c att := by
    have hget : closed.socket c = some ⟨att, true⟩ := AssocMap.get_insert_self _ _ _
    simp [finishSocket, hget]
  have hidle' : closed.tasks = [] := hidle
  have hlater : settle awaits closed = ([], closed) := settle_nil hidle' _
  have hcleanup := settle_cleanup hidle' (c := c) hreplaced
  unfold complete
  rw [hclose]
  simp only [hlater, List.append_nil, closedSockets, List.filterMap_cons, List.filterMap_nil,
    List.foldl_cons, List.foldl_nil, hfinish, hcleanup, List.map_cons, List.map_nil, seenOutput,
    closed, AssocMap.erase_insert]

end TwoServers

end CollabMode
