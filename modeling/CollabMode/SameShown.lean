import CollabMode.TwoServers

/-!
# The worker and the signaling server show the same

Each input is handled alike by the two servers when it is `Clean`, and shows the difference
when it is not (`Handled`).  So the endpoints see the same throughout a run exactly when all of
it is clean.
-/

namespace CollabMode

namespace TwoServers

open Signaling (EndpointId CertDerHash SignalingMsg Packages RawHeaders Tasks Frame)
open Worker (World Output Attachment Socket Routed)

/-! ## Messages -/

section

variable {p : Packages}

theorem streaming_of_conn {t : Tasks} {c : Nat} {id : EndpointId}
    (h : t.conn c = some (.serving id true)) : t.streaming c = true := by
  rw [Tasks.streaming, h]
  rfl

theorem send_of_conn {t : Tasks} {c : Nat} {id : EndpointId}
    (h : t.conn c = some (.serving id true)) (server : Signaling.Server) (frame : Frame) :
    server.send t.streaming c frame = { server, sent := [(c, frame)], ok := true } := by
  rw [Signaling.Server.send, streaming_of_conn h]
  rfl

/-- The server puts one message into a channel. -/
theorem processTasks_reply {t : Tasks} {c c' : Nat} {id : EndpointId} {msg reply : SignalingMsg}
    {server : Signaling.Server} (h : t.conn c = some (.serving id true))
    (hreply : t.server.handleMessage t.streaming c (some id) (.text msg) =
      { server, sent := [(c', .text reply)], ok := true }) :
    processTasks p t (.message c msg) =
      ([.sent c' (withoutReason reply)], { t with server }) := by
  simp [processTasks, Tasks.handle, h, Tasks.receive, hreply, isClose, seenFrame]

/-- The server puts nothing into a channel. -/
theorem processTasks_silent {t : Tasks} {c : Nat} {id : EndpointId} {msg : SignalingMsg}
    (h : t.conn c = some (.serving id true))
    (hsilent : t.server.handleMessage t.streaming c (some id) (.text msg) =
      { server := t.server, sent := [], ok := true }) :
    processTasks p t (.message c msg) = ([], t) := by
  simp [processTasks, Tasks.handle, h, Tasks.receive, hsilent]

/-- The server closes the connection, whether it gives up serving it or not. -/
theorem processTasks_close {t : Tasks} {c : Nat} {id : EndpointId} {msg : SignalingMsg}
    {reason : Option String} {ok : Bool} (h : t.conn c = some (.serving id true))
    (hclose : t.server.handleMessage t.streaming c (some id) (.text msg) =
      { server := t.server, sent := [(c, .close reason)], ok }) :
    processTasks p t (.message c msg) =
      ([.closed c], { t.dropConn c with server := t.server.removeEndpoint id }) := by
  cases ok with
  | true =>
      simp [processTasks, Tasks.handle, h, Tasks.receive, hclose, isClose, seenFrame,
        finishTask_eq (.inl h)]
  | false =>
      have hended : (t.setConn c (.ended id true)).conn c = some (.ended id true) := by
        rw [Tasks.conn_setConn, if_pos rfl]
      have hfinish : finishTask p
          { t.setConn c (.ended id true) with server := t.server } c =
            { t.dropConn c with server := t.server.removeEndpoint id } := by
        refine (finishTask_eq (.inr hended)).trans ?_
        rw [← dropConn_setConn t c (.ended id true)]
        rfl
      simp only [processTasks, Tasks.handle, h, Tasks.receive, hclose, send_of_conn h]
      simpa [isClose, seenFrame] using hfinish

end

/-- The only handler goes on. -/
theorem settle_spawn {w : World} (hidle : w.tasks = []) (task : Worker.Task) (n : Nat) :
    settle (n + 1) (w.spawn task) =
      ((w.resume task).1 ++ (settle n (w.resume task).2).1, (settle n (w.resume task).2).2) := by
  obtain ⟨db, sockets, tasks, next⟩ := w
  cases hidle
  exact settle_one rfl n

theorem send_of_socket {w : World} {c : Nat} {socket : Socket} (h : w.socket c = some socket)
    (hopen : socket.closing = false) (msg : SignalingMsg) : w.send c msg = some (.send c msg) := by
  obtain ⟨attachment, closing⟩ := socket
  cases hopen
  rw [World.send, h]

/-- The worker counts a message that it rejects. -/
theorem reject_eq {w : World} {routed : Routed} {socket : Socket}
    (h : w.socket routed.ws = some socket) (hopen : socket.closing = false)
    (hbelow : routed.att.rejectCount < Worker.rejectThreshold) (reply : SignalingMsg) :
    w.reject routed reply =
      ([.send routed.ws reply],
        w.serializeAttachment routed.ws
          { routed.att with rejectCount := routed.att.rejectCount + 1 }) := by
  rw [World.reject, send_of_socket h hopen]
  simp only [World.bumpReject]
  rw [if_neg (Nat.not_lt.mpr hbelow)]

section

variable {w : World} {routed : Routed} {socket : Socket}

theorem settle_isBound_not (hidle : w.tasks = []) (h : w.socket routed.ws = some socket)
    (hopen : socket.closing = false)
    (hbelow : routed.att.rejectCount < Worker.rejectThreshold)
    (hbound : w.db.isBound routed.receiver = false) :
    settle awaits (w.spawn (.isBound routed)) =
      ([.send routed.ws (World.idNotFound routed)],
        w.serializeAttachment routed.ws
          { routed.att with rejectCount := routed.att.rejectCount + 1 }) := by
  have hresume := reject_eq h hopen hbelow (World.idNotFound routed)
  refine (settle_spawn hidle _ 7).trans ?_
  simp only [World.resume, hbound, Bool.false_eq_true, if_false, hresume]
  rw [settle_nil (by exact hidle)]
  rfl

theorem settle_isTrustedBy_not (hidle : w.tasks = []) (h : w.socket routed.ws = some socket)
    (hopen : socket.closing = false)
    (hbelow : routed.att.rejectCount < Worker.rejectThreshold)
    (hbound : w.db.isBound routed.receiver = true)
    (htrusted : w.db.isTrustedBy routed.receiver routed.sender = false) :
    settle awaits (w.spawn (.isBound routed)) =
      ([.send routed.ws (.rejected routed.sender s!"{routed.receiver} does not trust sender")],
        w.serializeAttachment routed.ws
          { routed.att with rejectCount := routed.att.rejectCount + 1 }) := by
  have hresume := reject_eq h hopen hbelow
    (.rejected routed.sender s!"{routed.receiver} does not trust sender")
  refine (settle_spawn hidle _ 7).trans ?_
  simp only [World.resume, hbound, if_true]
  rw [settle_spawn hidle]
  simp only [World.resume, htrusted, Bool.false_eq_true, if_false, hresume]
  rw [settle_nil (by exact hidle)]
  rfl

/-- The message reaches the socket of its receiver. -/
theorem settle_forward (hidle : w.tasks = []) {c : Nat} {rest : List (Nat × Socket)}
    (hget : w.getWebSockets routed.receiver = (c, socket) :: rest)
    (hsocket : w.socket c = some socket) (hopen : socket.closing = false)
    (hid : socket.attachment.endpointId = routed.receiver)
    (hbound : w.db.isBound routed.receiver = true)
    (htrusted : w.db.isTrustedBy routed.receiver routed.sender = true) :
    settle awaits (w.spawn (.isBound routed)) = ([.send c routed.msg], w) := by
  refine (settle_spawn hidle _ 7).trans ?_
  simp only [World.resume, hbound, if_true]
  rw [settle_spawn hidle]
  simp only [World.resume, htrusted, if_true]
  rw [settle_spawn hidle]
  simp only [World.resume, hget]
  rw [settle_spawn hidle]
  simp only [World.resume, hid, htrusted, if_true, send_of_socket hsocket hopen]
  rw [settle_nil hidle]
  rfl

end

namespace Both

/-! ## The inputs one by one -/

section

variable {p : Packages}

/-- The input is clean exactly when the two servers show the same, and then they agree on
what is left. -/
structure Handled (p : Packages) (both : Both) (input : Input) : Prop where
  same : both.ShowsSame p input ↔
    both.Clean p input
  agree : both.Clean p input →
    (both.after p input).Agree

theorem Handled.of_clean {both : Both} {input : Input}
    (hclean : both.Clean p input)
    (hsame : both.ShowsSame p input)
    (hagree : (both.after p input).Agree) :
    both.Handled p input :=
  ⟨iff_of_true hsame hclean, fun _ => hagree⟩

theorem Handled.of_unclean {both : Both} {input : Input}
    (hunclean : ¬both.Clean p input)
    (hdiffer : ¬both.ShowsSame p input) :
    both.Handled p input :=
  ⟨iff_of_false hdiffer hunclean, fun hclean => absurd hclean hunclean⟩

section

variable {both : Both} {now : Nat} {raw : RawHeaders} {id : EndpointId} {certHash : CertDerHash}
  {trusted : List EndpointId}

theorem not_passes_of_error {status : Nat} (h : both.authenticated p now raw = .error status) :
    ¬∃ id, both.Passes p now raw id := by
  rintro ⟨id, certHash, trusted, hok, -⟩
  cases h.symm.trans hok

theorem not_passes_of_duplicate
    (h : both.authenticated p now raw = .ok (id, certHash, trusted)) (hdup : ¬trusted.Nodup) :
    ¬∃ id, both.Passes p now raw id := by
  rintro ⟨id', certHash', trusted', hok, hnodup⟩
  cases h.symm.trans hok
  exact hdup hnodup

/-- A bind that the worker refuses. -/
theorem Agree.bind_refused (h : both.Agree) (hnone : ¬∃ id, both.Passes p now raw id)
    (hworld : processWorld p both.world (.bind now raw) =
      ([.refused both.world.next], { both.world with next := both.world.next + 1 })) :
    both.Handled p (.bind now raw) := by
  have hnew : both.tasks.conn both.tasks.next = none := by
    rw [h.conns, h.fresh _ (Nat.le_refl _)]
    rfl
  cases hvalid : validated p now raw with
  | error reason =>
      obtain ⟨hseen, hconn, hserver, hnext⟩ := processTasks_bind_error hnew hvalid
      refine .of_clean ⟨iff_of_false ?_ hnone, fun id hid => absurd ⟨id, hid⟩ hnone⟩ ?_ ?_
      · rintro ⟨bound, hbound⟩
        cases hvalid.symm.trans hbound
      · rw [ShowsSame, hseen, hworld, h.next]
      · unfold after
        rw [hworld]
        exact h.refused hconn hserver hnext
  | ok bound =>
      obtain ⟨hseen, -⟩ := processTasks_bind_ok hvalid
      refine .of_unclean (fun hclean => hnone (hclean.1.mp ⟨bound, hvalid⟩)) ?_
      rw [ShowsSame, hseen, hworld]
      simp

/-- The list names a peer twice. -/
theorem Agree.bind_duplicate (h : both.Agree)
    (hauth : both.authenticated p now raw = .ok (id, certHash, trusted))
    (hdb : both.world.db.upsertBindingAndTrust id certHash trusted = none) :
    both.Handled p (.bind now raw) := by
  obtain ⟨hfetch, hsettle⟩ := settle_fetch h.idle hauth
  rw [hdb] at hsettle
  refine h.bind_refused
    (not_passes_of_duplicate hauth (Worker.D1.upsertBindingAndTrust_none hdb)) ?_
  have hcomplete := complete_of_open hsettle h.idle (by rw [hfetch]; rfl)
  rw [hfetch] at hcomplete
  exact hcomplete

/-- What the worker does about a bind that it lets in. -/
theorem Agree.settle_bind (h : both.Agree)
    (hauth : both.authenticated p now raw = .ok (id, certHash, trusted)) (hid : id ≠ "")
    (hcert : certHash ≠ "") {db : Worker.D1}
    (hdb : both.world.db.upsertBindingAndTrust id certHash trusted = some db) :
    let fetched := both.world.fetch (Worker.parseIdentity p) (Worker.hashCert p)
      (Worker.verifyIdentity p now) (Worker.readHeaders p raw) true
    let stored : World := { both.world with db, next := both.world.next + 1 }
    fetched.1 = [] ∧ settle awaits fetched.2 =
      (stored.rebinding id ++ [.response both.world.next 101],
        (stored.handleUpgrade both.world.next id certHash).2) := by
  obtain ⟨hfetch, hsettle⟩ := settle_fetch h.idle hauth
  rw [hdb] at hsettle
  exact ⟨hfetch, hsettle.trans (by simp only [handleUpgrade_eq _ _ hid hcert])⟩

/-- What the endpoints see of the worker when it lets a bind in. -/
theorem Agree.seen_bind (h : both.Agree)
    (hauth : both.authenticated p now raw = .ok (id, certHash, trusted)) (hid : id ≠ "")
    (hcert : certHash ≠ "") {db : Worker.D1}
    (hdb : both.world.db.upsertBindingAndTrust id certHash trusted = some db) :
    let stored : World := { both.world with db, next := both.world.next + 1 }
    (processWorld p both.world (.bind now raw)).1 =
      (stored.rebinding id).map seenOutput ++ [.accepted both.world.next] := by
  obtain ⟨hfetch, hsettle⟩ := h.settle_bind hauth hid hcert hdb
  have hseen := complete_fst hsettle
  rw [hfetch] at hseen
  rw [processWorld, hseen, List.nil_append, List.map_append]
  rfl

/-- The server refuses what the worker lets in. -/
theorem Agree.bind_unlike (h : both.Agree)
    (hauth : both.authenticated p now raw = .ok (id, certHash, trusted)) (hid : id ≠ "")
    (hcert : certHash ≠ "") {db : Worker.D1}
    (hdb : both.world.db.upsertBindingAndTrust id certHash trusted = some db) {reason : String}
    (hvalid : validated p now raw = .error reason) : both.Handled p (.bind now raw) := by
  have hnew : both.tasks.conn both.tasks.next = none := by
    rw [h.conns, h.fresh _ (Nat.le_refl _)]
    rfl
  obtain ⟨hseen, -⟩ := processTasks_bind_error hnew hvalid
  refine .of_unclean (fun hclean => ?_) ?_
  · obtain ⟨bound, hbound⟩ := hclean.1.mpr
      ⟨id, certHash, trusted, hauth, (Worker.D1.upsertBindingAndTrust_some hdb).1⟩
    cases hvalid.symm.trans hbound
  · rw [ShowsSame, hseen, h.seen_bind hauth hid hcert hdb]
    intro hsame
    have hmem : Seen.accepted both.world.next ∈ [Seen.refused both.tasks.next] :=
      hsame ▸ List.mem_append_right _ List.mem_cons_self
    simp at hmem

/-- The endpoint has a connection, which the worker closes. -/
theorem Agree.bind_again (h : both.Agree) {c : Nat} {socket : Socket} {db : Worker.D1}
    (hauth : both.authenticated p now raw = .ok (id, certHash, trusted))
    (hvalid : validated p now raw = .ok (id, trusted.toFinset))
    (hid : id ≠ "") (hcert : certHash ≠ "")
    (hdb : both.world.db.upsertBindingAndTrust id certHash trusted = some db)
    (hsocket : both.world.socket c = some socket) (hsocketId : socket.attachment.endpointId = id) :
    both.Handled p (.bind now raw) := by
  obtain ⟨hseen, -⟩ := processTasks_bind_ok hvalid
  let stored : World := { both.world with db, next := both.world.next + 1 }
  obtain ⟨c', rest, hclose⟩ : ∃ c rest, stored.rebinding id = .close c 1000 "rebinding" :: rest :=
    exists_close_of_rebinding hsocket (h.unclosed c socket hsocket).1 hsocketId
  refine .of_unclean (fun hclean => ?_) ?_
  · exact hclean.2 id ⟨certHash, trusted, hauth, (Worker.D1.upsertBindingAndTrust_some hdb).1⟩
      c socket hsocket hsocketId
  · rw [ShowsSame, hseen, h.seen_bind hauth hid hcert hdb, hclose]
    simp [seenOutput]

/-- The worker lets the connection in. -/
theorem Agree.processWorld_bind_ok (h : both.Agree) {db : Worker.D1}
    (hauth : both.authenticated p now raw = .ok (id, certHash, trusted))
    (hid : id ≠ "") (hcert : certHash ≠ "")
    (hdb : both.world.db.upsertBindingAndTrust id certHash trusted = some db)
    (hnone : ∀ c socket, both.world.socket c = some socket → socket.attachment.endpointId ≠ id) :
    let stored : World := { both.world with db, next := both.world.next + 1 }
    processWorld p both.world (.bind now raw) =
      ([.accepted both.world.next], (stored.handleUpgrade both.world.next id certHash).2) := by
  intro stored
  obtain ⟨hfetch, hsettle⟩ := h.settle_bind hauth hid hcert hdb
  have hempty : stored.rebinding id = [] := rebinding_eq_nil h.nodup hnone
  have hidle : (stored.handleUpgrade both.world.next id certHash).2.tasks = [] := by
    rw [handleUpgrade_eq _ _ hid hcert]
    exact h.idle
  have hcomplete := complete_of_open hsettle hidle (by rw [hfetch, hempty]; rfl)
  rw [hfetch, hempty] at hcomplete
  exact hcomplete

/-- Both servers let the connection in. -/
theorem Agree.bind_ok (h : both.Agree) {db : Worker.D1}
    (hauth : both.authenticated p now raw = .ok (id, certHash, trusted))
    (hvalid : validated p now raw = .ok (id, trusted.toFinset))
    (hid : id ≠ "") (hcert : certHash ≠ "")
    (hdb : both.world.db.upsertBindingAndTrust id certHash trusted = some db)
    (hnone : ∀ c socket, both.world.socket c = some socket → socket.attachment.endpointId ≠ id) :
    both.Handled p (.bind now raw) := by
  obtain ⟨hseen, hconn, hserver, hnext⟩ := processTasks_bind_ok hvalid
  have hworld := h.processWorld_bind_ok hauth hid hcert hdb hnone
  have hpasses : both.Passes p now raw id :=
    ⟨certHash, trusted, hauth, (Worker.D1.upsertBindingAndTrust_some hdb).1⟩
  refine .of_clean ⟨iff_of_true ⟨_, hvalid⟩ ⟨id, hpasses⟩, ?_⟩ ?_ ?_
  · rintro id' ⟨certHash', trusted', hauth', -⟩
    cases hauth.symm.trans hauth'
    exact hnone
  · rw [ShowsSame, hseen, hworld, h.next]
  · unfold after
    rw [hworld]
    exact h.accepted hid hcert hnone hdb hconn hserver hnext

theorem Agree.bind (h : both.Agree) (hhash : ∀ der, p.hashDer der ≠ "")
    (hget : ∀ value text, Signaling.toStr value = some text → p.headersGet value = text)
    (now : Nat) (raw : RawHeaders) : both.Handled p (.bind now raw) := by
  cases hauth : both.authenticated p now raw with
  | error status =>
      exact h.bind_refused (not_passes_of_error hauth) (processWorld_bind_error h.idle hauth)
  | ok result =>
      obtain ⟨id, certHash, trusted⟩ := result
      obtain ⟨hid, hcert⟩ := ne_empty_of_authenticated hhash hauth
      cases hdb : both.world.db.upsertBindingAndTrust id certHash trusted with
      | none => exact h.bind_duplicate hauth hdb
      | some db =>
          cases hvalid : validated p now raw with
          | error reason => exact h.bind_unlike hauth hid hcert hdb hvalid
          | ok bound =>
              have hvalid := validated_eq hget hvalid hauth
              by_cases hnone : ∀ c socket, both.world.socket c = some socket →
                  socket.attachment.endpointId ≠ id
              · exact h.bind_ok hauth hvalid hid hcert hdb hnone
              · push Not at hnone
                obtain ⟨c, socket, hsocket, hsocketId⟩ := hnone
                exact h.bind_again hauth hvalid hid hcert hdb hsocket hsocketId

end

section

variable {both : Both} {c : Nat} {socket : Socket} {msg : SignalingMsg}

theorem Agree.conn_of_socket (h : both.Agree) (hsocket : both.world.socket c = some socket) :
    both.tasks.conn c = some (.serving socket.attachment.endpointId true) := by
  rw [h.conns, hsocket, Option.map_some]

/-- Both servers close the connection. -/
theorem Agree.message_close (h : both.Agree) (hsocket : both.world.socket c = some socket)
    {reason : Option String} {ok : Bool} {code : Nat} {text : String}
    (hclean : both.Clean p (.message c msg))
    (htasks : both.tasks.server.handleMessage both.tasks.streaming c
      (some socket.attachment.endpointId) (.text msg) =
        { server := both.tasks.server, sent := [(c, .close reason)], ok })
    (hworld : both.world.webSocketMessage c socket.attachment (.text msg) =
      both.world.close c code text) :
    both.Handled p (.message c msg) := by
  have hconn := h.conn_of_socket hsocket
  obtain ⟨hopen, hreplaced⟩ := h.unclosed c socket hsocket
  have hright := complete_close h.idle hsocket hopen hreplaced code text
  have hprocess : processWorld p both.world
      (.message c msg) = complete (both.world.close c code text) := by
    simp only [processWorld, hsocket, hworld]
  refine .of_clean hclean ?_ ?_
  · rw [ShowsSame, processTasks_close hconn htasks, hprocess, hright]
  · unfold after
    rw [processTasks_close hconn htasks, hprocess, hright]
    exact h.closed hsocket (fun c' => Tasks.conn_dropConn _ _ _) rfl rfl

/-- Neither server answers. -/
theorem Agree.message_silent (h : both.Agree) (hsocket : both.world.socket c = some socket)
    (hclean : both.Clean p (.message c msg))
    (htasks : both.tasks.server.handleMessage both.tasks.streaming c
      (some socket.attachment.endpointId) (.text msg) =
        { server := both.tasks.server, sent := [], ok := true })
    (hworld : both.world.webSocketMessage c socket.attachment (.text msg) = ([], both.world)) :
    both.Handled p (.message c msg) := by
  have hright := @complete_of_open ([], both.world) [] _ (settle_nil h.idle _) h.idle rfl
  have hprocess : processWorld p both.world
      (.message c msg) = complete ([], both.world) := by
    simp only [processWorld, hsocket, hworld]
  refine .of_clean hclean ?_ ?_
  · rw [ShowsSame, processTasks_silent (h.conn_of_socket hsocket) htasks, hprocess, hright]
    rfl
  · unfold after
    rw [processTasks_silent (h.conn_of_socket hsocket) htasks, hprocess, hright]
    exact h

/-- Each server sends one message. -/
theorem Agree.message_reply (h : both.Agree) (hsocket : both.world.socket c = some socket)
    {c' : Nat} {reply reply' : SignalingMsg} {server : Signaling.Server} {w w' : World}
    (hclean : both.Clean p (.message c msg))
    (htasks : both.tasks.server.handleMessage both.tasks.streaming c
      (some socket.attachment.endpointId) (.text msg) =
        { server, sent := [(c', .text reply)], ok := true })
    (hworld : both.world.webSocketMessage c socket.attachment (.text msg) = ([], w))
    (hsettle : settle awaits w = ([.send c' reply'], w')) (hidle : w'.tasks = [])
    (hsame : withoutReason reply = withoutReason reply')
    (hagree : Agree { tasks := { both.tasks with server }, world := w' }) :
    both.Handled p (.message c msg) := by
  have hright := @complete_of_open ([], w) _ _ hsettle hidle rfl
  have hprocess : processWorld p both.world
      (.message c msg) = complete ([], w) := by
    simp only [processWorld, hsocket, hworld]
  refine .of_clean hclean ?_ ?_
  · rw [ShowsSame, processTasks_reply (h.conn_of_socket hsocket) htasks, hprocess, hright, hsame]
    rfl
  · unfold after
    rw [processTasks_reply (h.conn_of_socket hsocket) htasks, hprocess, hright]
    exact hagree

end

/-! ## Messages that are passed on -/

/-- The oldest socket of a bound endpoint is the one that the map has. -/
theorem Agree.getWebSockets_of_info {both : Both} (h : both.Agree) {id : EndpointId}
    {info : Signaling.EndpointInfo} (hinfo : both.tasks.server.getEndpointInfo id = some info) :
    ∃ socket rest, both.world.getWebSockets id = (info.msgTx, socket) :: rest ∧
      both.world.socket info.msgTx = some socket ∧ socket.attachment.endpointId = id := by
  obtain ⟨⟨socket, hsocket, hid⟩, -⟩ := h.entries id info hinfo
  have hmem : (info.msgTx, socket) ∈ both.world.getWebSockets id :=
    List.mem_filter.mpr ⟨AssocMap.mem_of_get hsocket, by simpa using hid⟩
  cases hlist : both.world.getWebSockets id with
  | nil =>
      rw [hlist] at hmem
      cases hmem
  | cons entry rest =>
      have hentry : entry ∈ both.world.getWebSockets id := by simp [hlist]
      obtain ⟨hentry, hentryId⟩ := List.mem_filter.mp hentry
      have hentryId : entry.2.attachment.endpointId = id := by simpa using hentryId
      have hentrySocket := AssocMap.get_of_mem h.nodup hentry
      obtain ⟨info', hinfo', hc⟩ := h.owner entry.1 entry.2 hentrySocket
      rw [hentryId, hinfo] at hinfo'
      cases hinfo'
      rw [hc]
      exact ⟨entry.2, rest, rfl, hentrySocket, hentryId⟩

section

variable {both : Both} {c : Nat} {socket : Socket} {msg : SignalingMsg} {receiver : EndpointId}

/-- What both servers do with a message to `receiver`, once its kind is looked at. -/
theorem Agree.message_route (h : both.Agree) (hsocket : both.world.socket c = some socket)
    (hbelow : socket.attachment.rejectCount < Worker.rejectThreshold)
    (hclean : both.Clean p (.message c msg))
    (htasks : both.tasks.server.handleMessage both.tasks.streaming c
      (some socket.attachment.endpointId) (.text msg) =
        both.tasks.server.route both.tasks.streaming c (some socket.attachment.endpointId)
          socket.attachment.endpointId receiver msg)
    (hworld : both.world.webSocketMessage c socket.attachment (.text msg) =
      ([], both.world.spawn (.isBound
        { ws := c
          att := socket.attachment
          sender := socket.attachment.endpointId
          receiver
          msg }))) :
    both.Handled p (.message c msg) := by
  have hopen := (h.unclosed c socket hsocket).1
  have hconn := h.conn_of_socket hsocket
  have hcheck (id : EndpointId) : Signaling.Server.checkId id (some id) = true := by
    simp [Signaling.Server.checkId]
  have hbound := h.bound receiver
  cases hinfo : both.tasks.server.getEndpointInfo receiver with
  | none =>
      rw [hinfo] at hbound
      refine h.message_reply hsocket hclean (htasks.trans ?_) hworld
        (settle_isBound_not h.idle hsocket hopen hbelow hbound) h.idle rfl (h.counted hsocket _)
      rw [Signaling.Server.route, if_pos (hcheck _), hinfo]
      exact send_of_conn hconn _ _
  | some info =>
      rw [hinfo] at hbound
      obtain ⟨receiverSocket, rest, hget, hreceiver, hreceiverId⟩ := h.getWebSockets_of_info hinfo
      have hrows := (h.entries receiver info hinfo).2 socket.attachment.endpointId
      by_cases htrusted : socket.attachment.endpointId ∈ info.trusted
      · have hdb : both.world.db.isTrustedBy receiver socket.attachment.endpointId = true :=
          decide_eq_true (hrows.mp htrusted)
        refine h.message_reply hsocket hclean (htasks.trans ?_) hworld
          (settle_forward h.idle hget hreceiver (h.unclosed _ _ hreceiver).1 hreceiverId hbound hdb)
          h.idle rfl h
        rw [Signaling.Server.route, if_pos (hcheck _), hinfo]
        simp only [htrusted, if_true]
        exact send_of_conn (h.conn_of_socket hreceiver) _ _
      · have hdb : both.world.db.isTrustedBy receiver socket.attachment.endpointId = false :=
          decide_eq_false fun hmem => htrusted (hrows.mpr hmem)
        have hroute : both.tasks.server.route both.tasks.streaming c
            (some socket.attachment.endpointId) socket.attachment.endpointId receiver msg =
              { server := both.tasks.server
                sent := [(c, .text (.rejected socket.attachment.endpointId
                  s!"Sender not in {receiver}’s trust list"))]
                ok := true } := by
          rw [Signaling.Server.route, if_pos (hcheck _), hinfo]
          simp only [htrusted, if_false]
          exact send_of_conn hconn _ _
        exact h.message_reply hsocket hclean (htasks.trans hroute) hworld
          (settle_isTrustedBy_not h.idle hsocket hopen hbelow hbound hdb) h.idle rfl
          (h.counted hsocket _)

/-- A trust list of the endpoint itself. -/
theorem Agree.message_trust (h : both.Agree) (hsocket : both.world.socket c = some socket)
    (trusted : List EndpointId) :
    both.Handled p
      (.message c (.trust socket.attachment.endpointId trusted)) := by
  have hopen := (h.unclosed c socket hsocket).1
  have hconn := h.conn_of_socket hsocket
  have htasks : both.tasks.server.handleMessage both.tasks.streaming c
      (some socket.attachment.endpointId)
      (.text (.trust socket.attachment.endpointId trusted)) =
        { server := both.tasks.server.updateTrust socket.attachment.endpointId trusted.toFinset
          sent := [(c, .text (.trusted socket.attachment.endpointId trusted))]
          ok := true } := by
    simp [Signaling.Server.handleMessage, Signaling.Server.checkId, send_of_conn hconn]
  have hworld : both.world.webSocketMessage c socket.attachment
      (.text (.trust socket.attachment.endpointId trusted)) =
        ([], both.world.spawn (.replaceTrust c socket.attachment.endpointId trusted)) := by
    simp [World.webSocketMessage]
  have hsettle : settle awaits
      (both.world.spawn (.replaceTrust c socket.attachment.endpointId trusted)) = _ :=
    settle_spawn h.idle _ 7
  cases hdb : both.world.db.replaceTrust socket.attachment.endpointId trusted with
  | none =>
      -- The list names a peer twice, and the worker does not answer.
      have hdup := Worker.D1.replaceTrust_none hdb
      simp only [World.resume, hdb, settle_nil h.idle] at hsettle
      refine .of_unclean (fun hclean => hdup (hclean socket hsocket rfl)) ?_
      have hright : complete
          ([], both.world.spawn (.replaceTrust c socket.attachment.endpointId trusted)) =
            ([], both.world) := @complete_of_open ([], _) [] _ hsettle h.idle rfl
      rw [ShowsSame, processTasks_reply hconn htasks, processWorld]
      simp only [hsocket, hworld, hright]
      exact List.cons_ne_nil _ _
  | some db =>
      have hsend := send_of_socket hsocket hopen (.trusted socket.attachment.endpointId trusted)
      have hidle : World.tasks { both.world with db } = [] := h.idle
      simp only [World.resume, hdb, hsend, settle_nil hidle] at hsettle
      refine h.message_reply hsocket (fun socket' hsocket' _ => ?_) htasks hworld hsettle hidle rfl
        (h.trusted hdb)
      exact (Worker.D1.replaceTrust_some hdb).1

end

/-- A message that both servers refuse with a close. -/
theorem Agree.message_wrongId {both : Both} (h : both.Agree) {c : Nat} {socket : Socket}
    {msg : SignalingMsg} (hsocket : both.world.socket c = some socket)
    (hclean : both.Clean p (.message c msg))
    (htasks : both.tasks.server.handleMessage both.tasks.streaming c
      (some socket.attachment.endpointId) (.text msg) =
        { both.tasks.server.send both.tasks.streaming c Signaling.Server.wrongId with ok := false })
    (hworld : both.world.webSocketMessage c socket.attachment (.text msg) =
      both.world.close c 1003 World.wrongId) :
    both.Handled p (.message c msg) := by
  have hclose : both.tasks.server.handleMessage both.tasks.streaming c
      (some socket.attachment.endpointId) (.text msg) =
        { server := both.tasks.server, sent := [(c, Signaling.Server.wrongId)], ok := false } := by
    rw [htasks, send_of_conn (h.conn_of_socket hsocket)]
  exact h.message_close hsocket hclean hclose hworld

theorem Agree.message_text {both : Both} (h : both.Agree) {c : Nat} {socket : Socket}
    (hsocket : both.world.socket c = some socket)
    (hbelow : socket.attachment.rejectCount < Worker.rejectThreshold) (msg : SignalingMsg) :
    both.Handled p (.message c msg) := by
  have hconn := h.conn_of_socket hsocket
  have hcheck {sender : EndpointId} (hsender : sender ≠ socket.attachment.endpointId) :
      Signaling.Server.checkId sender (some socket.attachment.endpointId) = false := by
    simp [Signaling.Server.checkId, Ne.symm hsender]
  cases msg with
  | connect sender receiver initiator =>
      by_cases hsender : sender = socket.attachment.endpointId
      · subst hsender
        exact h.message_route hsocket hbelow trivial rfl (by simp [World.webSocketMessage])
      · refine h.message_wrongId hsocket trivial ?_ (by simp [World.webSocketMessage, hsender])
        simp [Signaling.Server.handleMessage, Signaling.Server.route, hcheck hsender]
  | sdp sender receiver sdp =>
      by_cases hsender : sender = socket.attachment.endpointId
      · subst hsender
        exact h.message_route hsocket hbelow trivial rfl (by simp [World.webSocketMessage])
      · refine h.message_wrongId hsocket trivial ?_ (by simp [World.webSocketMessage, hsender])
        simp [Signaling.Server.handleMessage, Signaling.Server.route, hcheck hsender]
  | candidate sender receiver candidate =>
      by_cases hsender : sender = socket.attachment.endpointId
      · subst hsender
        exact h.message_route hsocket hbelow trivial rfl (by simp [World.webSocketMessage])
      · refine h.message_wrongId hsocket trivial ?_ (by simp [World.webSocketMessage, hsender])
        simp [Signaling.Server.handleMessage, Signaling.Server.route, hcheck hsender]
  | trust sender trusted =>
      by_cases hsender : sender = socket.attachment.endpointId
      · subst hsender
        exact h.message_trust hsocket trusted
      · refine h.message_wrongId hsocket (fun socket' hsocket' hown => ?_) ?_
          (by simp [World.webSocketMessage, hsender])
        · rw [hsocket] at hsocket'
          cases hsocket'
          exact absurd hown.symm hsender
        · simp [Signaling.Server.handleMessage, hcheck hsender]
  | ping => exact h.message_silent hsocket trivial rfl rfl
  | pong => exact h.message_silent hsocket trivial rfl rfl
  | bound id trusted => exact h.message_close hsocket trivial (send_of_conn hconn _ _) rfl
  | trusted id trusted => exact h.message_close hsocket trivial (send_of_conn hconn _ _) rfl
  | idNotFound id reason => exact h.message_close hsocket trivial (send_of_conn hconn _ _) rfl
  | rejected id reason => exact h.message_close hsocket trivial (send_of_conn hconn _ _) rfl
  | terminate reason => exact h.message_close hsocket trivial (send_of_conn hconn _ _) rfl

/-- Nothing comes on a connection that is not there. -/
theorem Agree.message_gone {both : Both} (h : both.Agree) {c : Nat}
    (hsocket : both.world.socket c = none) (msg : SignalingMsg) :
    both.Handled p (.message c msg) := by
  have hconn : both.tasks.conn c = none := by
    rw [h.conns, hsocket, Option.map_none]
  have hleft : processTasks p both.tasks (.message c msg) =
      ([], both.tasks) := by
    simp [processTasks, Tasks.handle, hconn]
  have hright : processWorld p both.world (.message c msg) =
      ([], both.world) := by
    simp [processWorld, hsocket]
  refine .of_clean ?_ ?_ ?_
  · cases msg with
    | trust sender trusted =>
        intro socket hsome
        rw [hsocket] at hsome
        cases hsome
    | _ => trivial
  · rw [ShowsSame, hleft, hright]
  · unfold after
    rw [hleft, hright]
    exact h

/-- The client closes its connection. -/
theorem Agree.close {both : Both} (h : both.Agree) (c : Nat) :
    both.Handled p (.close c) := by
  cases hsocket : both.world.socket c with
  | none =>
      have hconn : both.tasks.conn c = none := by
        rw [h.conns, hsocket, Option.map_none]
      have hleft : finishTask p both.tasks c = both.tasks := by
        simp [finishTask, stepAt, Tasks.step, Tasks.handle, hconn]
      have hright : processWorld p both.world (.close c) =
          ([], both.world) := by
        simp only [processWorld, finishSocket, hsocket]
        exact @complete_of_open ([], both.world) [] _ (settle_nil h.idle _) h.idle rfl
      refine .of_clean trivial ?_ ?_
      · rw [ShowsSame, hright]
        rfl
      · unfold after
        rw [hright, processTasks, hleft]
        exact h
  | some socket =>
      have hsettle := settle_cleanup h.idle (c := c) (h.unclosed c socket hsocket).2
      have hright : processWorld p both.world (.close c) =
          ([], { both.world with
            db := both.world.db.deleteEndpoint socket.attachment.endpointId
            sockets := AssocMap.erase both.world.sockets c }) := by
        simp only [processWorld, finishSocket, hsocket]
        exact @complete_of_open ([], _) [] _ hsettle h.idle rfl
      refine .of_clean trivial ?_ ?_
      · rw [ShowsSame, hright]
        rfl
      · unfold after
        rw [hright, processTasks, finishTask_eq (.inl (h.conn_of_socket hsocket))]
        exact h.closed hsocket (fun c' => Tasks.conn_dropConn _ _ _) rfl rfl

end

/-! ## Runs -/

theorem Agree.handled {p : Packages} (hhash : ∀ der, p.hashDer der ≠ "")
    (hget : ∀ value text, Signaling.toStr value = some text → p.headersGet value = text)
    {both : Both} (h : both.Agree) {input : Input} (hbelow : both.BelowLimit input) :
    both.Handled p input := by
  cases input with
  | bind now raw => exact h.bind hhash hget now raw
  | message c msg =>
      cases hsocket : both.world.socket c with
      | none => exact h.message_gone hsocket msg
      | some socket => exact h.message_text hsocket (hbelow socket hsocket) msg
  | close c => exact h.close c

/-- The endpoints see the same of both servers throughout a run below the limits exactly
when every input of it is clean. -/
theorem shows_same_iff {p : Packages} (hhash : ∀ der, p.hashDer der ≠ "")
    (hget : ∀ value text, Signaling.toStr value = some text → p.headersGet value = text)
    {inputs : List Input}
    (hbelow : Run.Meets (step p) (fun both input => both.BelowLimit input) new inputs) :
    Run.Meets (step p) (ShowsSame p) new inputs ↔ Run.Meets (step p) (Clean p) new inputs := by
  have hboth : Run.Meets (step p)
      (fun both input => both.BelowLimit input ∧ both.ShowsSame p input) new inputs ↔
      Run.Meets (step p) (fun both input => both.BelowLimit input ∧ both.Clean p input) new
        inputs := by
    refine Run.Meets.congr ?_ ?_ agree_new
    · rintro both input after h ⟨hlow, hsame⟩ hstep
      cases hstep
      have hhandled := Agree.handled hhash hget h hlow
      exact hhandled.agree (hhandled.same.mp hsame)
    · intro both input h
      refine and_congr_right fun hlow => ?_
      exact (Agree.handled hhash hget h hlow).same
  rw [Run.meets_and, Run.meets_and] at hboth
  exact (and_iff_right hbelow).symm.trans (hboth.trans (and_iff_right hbelow))

/-! ## Alice -/

/-- The value of a digit of base64. -/
def sextet (c : Char) : Option Nat :=
  if c.isUpper then some (c.toNat - 65)
  else if c.isLower then some (c.toNat - 71)
  else if c.isDigit then some (c.toNat + 4)
  else if c = '+' then some 62
  else if c = '/' then some 63
  else none

/-- Base64 with padding. -/
def base64 : List Char → Option Signaling.Bytes
  | [] => some []
  | a :: b :: c :: d :: cs => do
      let n := 64 * (← sextet a) + (← sextet b)
      if c = '=' then
        if d = '=' ∧ cs = [] ∧ n % 16 = 0 then some [(n / 16).toUInt8] else none
      else
        let n := 64 * n + (← sextet c)
        if d = '=' then
          if cs = [] ∧ n % 4 = 0 then some [(n / 1024).toUInt8, (n / 4 % 256).toUInt8] else none
        else
          let n := 64 * n + (← sextet d)
          return (n / 65536).toUInt8 :: (n / 256 % 256).toUInt8 :: (n % 256).toUInt8 ::
            (← base64 cs)
  | _ => none

def fromBase64 (s : String) : Except String Signaling.Bytes :=
  match base64 s.toList with
  | some bytes => .ok bytes
  | none => .error "Invalid input"

/-- A certificate for a key on the curve P-256. -/
def aliceCert : String :=
  "MIIBCDCBsAIBATAKBggqhkjOPQQDAjAQMQ4wDAYDVQQDDAVhbGljZTAgFw0yNjExMTkyMjI3MThaGA8yMTI2MTAy" ++
    "NjIyMjcxOFowEDEOMAwGA1UEAwwFYWxpY2UwWTATBgcqhkjOPQIBBggqhkjOPQMBBwNCAASoIzD7ZLP5b1+nEX7N" ++
    "lqzaP0IoYATTlkHlP0NGmiPcvkMwvTZW23eeBoR51zFJZ9IH3MQovioXEtxJ0+NdzqQVMAoGCCqGSM49BAMCA0cA" ++
    "MEQCIG24CaLvDCHOh4HQN0p4NzndfoDZDAD4nwCkFMFNa1gHAiAUYiihJmFT2pZU7kCfxUVlBMCJZ6UoaHsnVLrC" ++
    "+b8Vmw=="

def aliceIdentity : String := "1763586000:" ++ aliceCert

/-- Her signature of the identity. -/
def aliceSignature : String :=
  "sYtMCXFJWNIxWXGy3jtc0eUDy1vAZfWQTHxn36ynBoYg7zEqgJAkI/2fOV4S+8IJju8c/YUlzivqd47FdhPw/g=="

/-- The hash of the certificate. -/
def aliceFingerprint : CertDerHash :=
  "FC:6C:80:94:85:81:D3:55:71:89:A5:BD:29:CB:7F:01:13:F2:DD:F7:B1:79:90:E3:4A:B4:2F:2C:6E:BB:E5:21"

/-- What the packages make of the certificate and the signature of alice. -/
def alicePackages : Packages where
  headersGet := Signaling.asciiText
  decode := fromBase64
  encode _ := aliceCert
  parseX509 der := .ok ((der.drop 118).take 65)
  verify _ msg _ := msg == aliceIdentity
  hashDer _ := aliceFingerprint
  number s := (Signaling.parseU64 s.toList).toOption
  fromBase64 := fromBase64
  x509Certificate der := .ok ((der.drop 92).take 91)
  subtleVerify _ _ msg := .ok (msg == aliceIdentity)

def asciiBytes (s : String) : Signaling.Bytes := s.toList.map fun c => c.toNat.toUInt8

/-- Alice binds her id. -/
def aliceBinds (trusted : String) : RawHeaders where
  id := some (asciiBytes ("alice::" ++ aliceFingerprint))
  identity := some (asciiBytes aliceIdentity)
  signature := some (asciiBytes aliceSignature)
  trusted := some (asciiBytes trusted)

def isVisible (c : Char) : Bool := 32 ≤ c.toNat && c.toNat < 127

theorem toNat_of_isVisible {c : Char} (h : isVisible c = true) :
    32 ≤ c.toNat ∧ c.toNat < 127 ∧ c.toNat.toUInt8.toNat = c.toNat := by
  simp only [isVisible, Bool.and_eq_true, decide_eq_true_eq] at h
  exact ⟨h.1, h.2, UInt8.toNat_ofNat_of_lt' (Nat.lt_trans h.2 (by decide))⟩

theorem asciiText_asciiBytes {s : String} (h : s.toList.all isVisible = true) :
    Signaling.asciiText (asciiBytes s) = s := by
  have hchar {c : Char} (hc : c ∈ s.toList) : Char.ofNat c.toNat.toUInt8.toNat = c := by
    rw [(toNat_of_isVisible (List.all_eq_true.mp h c hc)).2.2, Char.ofNat_toNat]
  rw [Signaling.asciiText, asciiBytes, List.map_map]
  refine (congrArg String.ofList ?_).trans String.ofList_toList
  exact (List.map_congr_left fun c hc => hchar hc).trans (List.map_id _)

theorem toStr_asciiBytes {s : String} (h : s.toList.all isVisible = true) :
    Signaling.toStr (asciiBytes s) = some s := by
  rw [Signaling.toStr, asciiText_asciiBytes h, if_pos]
  refine List.all_eq_true.mpr fun b hb => ?_
  obtain ⟨c, hc, rfl⟩ := List.mem_map.mp hb
  obtain ⟨hlow, hhigh, hbyte⟩ := toNat_of_isVisible (List.all_eq_true.mp h c hc)
  have hle : (32 : UInt8) ≤ c.toNat.toUInt8 := UInt8.le_iff_toNat_le.mpr (by rw [hbyte]; exact hlow)
  have hlt : c.toNat.toUInt8 < 127 := UInt8.lt_iff_toNat_lt.mpr (by rw [hbyte]; exact hhigh)
  simp [hle, hlt]

theorem toStr_of_visible {id identity signature trusted : String}
    (hid : id.toList.all isVisible = true) (hidentity : identity.toList.all isVisible = true)
    (hsignature : signature.toList.all isVisible = true)
    (htrusted : trusted.toList.all isVisible = true) :
    RawHeaders.toStr
        { id := some (asciiBytes id), identity := some (asciiBytes identity)
          signature := some (asciiBytes signature), trusted := some (asciiBytes trusted) } =
      { id := some id, identity := some identity, signature := some signature
        trusted := some trusted } := by
  simp [RawHeaders.toStr, toStr_asciiBytes, hid, hidentity, hsignature, htrusted]

theorem readHeaders_of_visible {id identity signature trusted : String}
    (hid : id.toList.all isVisible = true) (hidentity : identity.toList.all isVisible = true)
    (hsignature : signature.toList.all isVisible = true)
    (htrusted : trusted.toList.all isVisible = true) :
    Worker.readHeaders alicePackages
        { id := some (asciiBytes id), identity := some (asciiBytes identity)
          signature := some (asciiBytes signature), trusted := some (asciiBytes trusted) } =
      { id := some id, identity := some identity, signature := some signature
        trusted := some trusted } := by
  simp [Worker.readHeaders, alicePackages, asciiText_asciiBytes, hid, hidentity, hsignature,
    htrusted]

/-- A text that is not taken apart again. -/
theorem fromBase64_of_chars {s : String} (h : ∃ cs, s = String.ofList cs ∧
    cs.all isVisible = true ∧ (base64 cs).isSome = true) :
    s.toList.all isVisible = true ∧ ∃ der, fromBase64 s = .ok der := by
  obtain ⟨cs, rfl, hvisible, hsome⟩ := h
  obtain ⟨der, hder⟩ := Option.isSome_iff_exists.mp hsome
  rw [fromBase64, String.toList_ofList, hder]
  exact ⟨hvisible, der, rfl⟩

theorem append_eq_ofList {s t : String} {cs ds : List Char} (hs : s = String.ofList cs)
    (ht : t = String.ofList ds) : s ++ t = String.ofList (cs ++ ds) := by
  rw [String.ofList_append, hs, ht]

theorem fromBase64_aliceCert : aliceCert.toList.all isVisible = true ∧
    ∃ der, fromBase64 aliceCert = .ok der :=
  fromBase64_of_chars ⟨_, append_eq_ofList (append_eq_ofList (append_eq_ofList
    (append_eq_ofList rfl rfl) rfl) rfl) rfl, by decide +kernel, by decide +kernel⟩

theorem fromBase64_aliceSignature : aliceSignature.toList.all isVisible = true ∧
    ∃ bytes, fromBase64 aliceSignature = .ok bytes :=
  fromBase64_of_chars ⟨_, rfl, by decide +kernel, by decide +kernel⟩

theorem toList_aliceIdentity :
    aliceIdentity.toList = "1763586000:".toList ++ aliceCert.toList := String.toList_append

theorem splitOnce_aliceIdentity : Signaling.splitOnce ':' aliceIdentity.toList =
    some ("1763586000".toList, aliceCert.toList) := by
  rw [toList_aliceIdentity]
  generalize aliceCert.toList = cs
  rfl

/-- The identity is printed as it was read. -/
theorem text_aliceIdentity (cert : Signaling.Bytes) :
    Signaling.Identity.text alicePackages { timestamp := 1763586000, cert } = aliceIdentity := by
  have hprinted : toString (1763586000 : Nat) ++ ":" = "1763586000:" := by decide
  exact congrArg (· ++ aliceCert) hprinted

theorem isVisible_aliceIdentity : aliceIdentity.toList.all isVisible = true := by
  rw [toList_aliceIdentity, List.all_append, fromBase64_aliceCert.1, Bool.and_true]
  decide

theorem isVisible_aliceId : ("alice::" ++ aliceFingerprint).toList.all isVisible = true := by
  decide

theorem idHash_aliceId : Signaling.idHash ("alice::" ++ aliceFingerprint) = aliceFingerprint := by
  decide

theorem aliceFingerprint_ne : aliceFingerprint ≠ "" := by decide

theorem inTime_alice :
    Signaling.absDiff 1763586001 1763586000 ≤ Signaling.maxTimestampOffset := by decide

section

variable {trusted : String} (htrusted : trusted.toList.all isVisible = true)

include htrusted

/-- The server lets alice in. -/
theorem validated_alice : validated alicePackages 1763586001 (aliceBinds trusted) =
    .ok ("alice::" ++ aliceFingerprint, (Signaling.decodeTrustedHeader trusted).toFinset) := by
  obtain ⟨-, der, hder⟩ := fromBase64_aliceCert
  obtain ⟨hsignature, bytes, hbytes⟩ := fromBase64_aliceSignature
  have hparse : Signaling.parseIdentityHeader alicePackages aliceIdentity =
      .ok { timestamp := 1763586000, cert := der } := by
    refine Signaling.parseIdentityHeader_ok splitOnce_aliceIdentity (by decide) ?_
    rw [show alicePackages.decode = fromBase64 from rfl, String.ofList_toList, hder]
  have hverify : Signaling.verifyIdentity alicePackages 1763586001
      { timestamp := 1763586000, cert := der } aliceSignature = .ok aliceFingerprint := by
    refine Signaling.verifyIdentity_ok inTime_alice hbytes rfl ?_
    rw [text_aliceIdentity]
    exact beq_self_eq_true aliceIdentity
  exact Signaling.validateBind_ok
    (toStr_of_visible isVisible_aliceId isVisible_aliceIdentity hsignature htrusted)
    hparse hverify idHash_aliceId

/-- The worker lets alice in. -/
theorem authenticated_alice {both : Both}
    (hfree : both.world.db.isBlacklisted aliceFingerprint = false) :
    both.authenticated alicePackages 1763586001 (aliceBinds trusted) =
      .ok ("alice::" ++ aliceFingerprint, aliceFingerprint,
        Worker.decodeTrustedHeader trusted) := by
  obtain ⟨-, der, hder⟩ := fromBase64_aliceCert
  obtain ⟨hsignature, bytes, hbytes⟩ := fromBase64_aliceSignature
  have hparse : Worker.parseIdentity alicePackages aliceIdentity =
      .ok { timestamp := 1763586000, signedBytes := aliceIdentity, certDer := der } := by
    refine Worker.parseIdentity_ok splitOnce_aliceIdentity (by decide) ?_
    rw [show alicePackages.fromBase64 = fromBase64 from rfl, String.ofList_toList, hder]
  have hverify : Worker.verifyIdentity alicePackages 1763586001
      { timestamp := 1763586000, signedBytes := aliceIdentity, certDer := der } aliceSignature =
        .ok aliceFingerprint := by
    refine Worker.verifyIdentity_ok inTime_alice hbytes rfl ?_
    exact congrArg Except.ok (beq_self_eq_true aliceIdentity)
  exact Worker.authenticate_ok
    (readHeaders_of_visible isVisible_aliceId isVisible_aliceIdentity hsignature htrusted)
    hparse hfree hverify idHash_aliceId

end

/-- What the worker has after alice is let in. -/
theorem sockets_alice :
    (new.after alicePackages (.bind 1763586001 (aliceBinds "bob::BB"))).world.sockets =
      [(0,
        { attachment :=
            { endpointId := "alice::" ++ aliceFingerprint, certHash := aliceFingerprint
              rejectCount := 0, replaced := false }
          closing := false })] := by
  have hauth := @authenticated_alice "bob::BB" (by decide) new rfl
  obtain ⟨hid, hcert⟩ := ne_empty_of_authenticated (fun _ => aliceFingerprint_ne) hauth
  have hdb : new.world.db.upsertBindingAndTrust ("alice::" ++ aliceFingerprint) aliceFingerprint
      (Worker.decodeTrustedHeader "bob::BB") = some
        { bindings := [("alice::" ++ aliceFingerprint, aliceFingerprint)]
          trusted := [("alice::" ++ aliceFingerprint, "bob::BB")]
          blacklist := [] } := rfl
  rw [after, agree_new.processWorld_bind_ok hauth hid hcert hdb (by intro c socket h; cases h)]
  simp [World.handleUpgrade, hid, hcert, new, World.new, AssocMap.insert, AssocMap.mapVals]

/-- She binds her id, asks for bob, who is not there, and closes the connection. -/
def aliceAsks : List Input :=
  [.bind 1763586001 (aliceBinds "bob::BB"),
    .message 0 (.connect ("alice::" ++ aliceFingerprint) "bob::BB" true), .close 0]

theorem shows_same_alice :
    Run.Meets (step alicePackages) (ShowsSame alicePackages) new aliceAsks := by
  have hbelow : Run.Meets (step alicePackages) (fun both input => both.BelowLimit input) new
      aliceAsks := by
    refine ⟨trivial, fun both h => ?_⟩
    cases Option.some.inj h
    refine ⟨fun socket hsocket => ?_, fun _ _ => ⟨trivial, fun _ _ => trivial⟩⟩
    rw [World.socket, sockets_alice] at hsocket
    cases hsocket
    decide
  refine (shows_same_iff (fun _ => aliceFingerprint_ne) ?_ hbelow).mpr ?_
  · intro value text h
    unfold Signaling.toStr at h
    split at h
    next => exact Option.some.inj h
    next => cases h
  · refine ⟨⟨iff_of_true ⟨_, validated_alice (by decide)⟩ ⟨_, aliceFingerprint, _,
      authenticated_alice (by decide) rfl, by decide⟩, ?_⟩, ?_⟩
    · intro id _ c socket h
      cases h
    · exact fun _ _ => ⟨trivial, fun _ _ => ⟨trivial, fun _ _ => trivial⟩⟩

/-- She trusts bob twice, which only the server takes. -/
theorem not_shows_same :
    ¬∀ inputs : List Input,
      Run.Meets (step alicePackages) (fun both input => both.BelowLimit input) new inputs →
        Run.Meets (step alicePackages) (ShowsSame alicePackages) new inputs := by
  intro h
  have hsame := (h [.bind 1763586001 (aliceBinds "bob::BB,bob::BB")]
    ⟨trivial, fun _ _ => trivial⟩).1
  have hvisible : "bob::BB,bob::BB".toList.all isVisible = true := by decide
  have hfree : new.world.db.isBlacklisted aliceFingerprint = false := rfl
  have hauth := authenticated_alice hvisible hfree
  have hclean := (agree_new.bind_duplicate hauth (by decide)).same.mp hsame
  obtain ⟨id, certHash, trusted, hauth', hnodup⟩ := hclean.1.mp ⟨_, validated_alice hvisible⟩
  cases hauth.symm.trans hauth'
  revert hnodup
  decide

end Both

end TwoServers

end CollabMode
