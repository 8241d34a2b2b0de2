import CollabMode.Replying

/-!
# The books of a request

`outstanding` counts what a turn of a server adds to the books of one request of the
editor: an answer, a question on its way to the host, a reply on its way back.  A reset that is
passed on counts for two, next to the answer that the editor has already.

A request puts one into the books, or three when it is such a reset (`outstanding_request`,
`outstanding_forwardsReset`).
-/

namespace CollabMode

namespace Answering

/-- A request of the editor of `client` that `host` may have to answer. -/
structure Parties where
  client : ServerId
  host : ServerId
  reqId : RequestId
deriving DecidableEq, Repr

namespace Parties

variable (c : Parties)

def has (id : ServerId) : Bool := id == c.client || id == c.host

/-- What an answer counts at a server. -/
def answered (here : ServerId) (reqId : RequestId) : Nat :=
  if here = c.client ∧ reqId = c.reqId then 1 else 0

/-- What a message counts on its way.  A batch with a request id would count for two,
so there is none while the books are at one, and none next to a reset. -/
def owed (source dest : ServerId) (reqId : Option RequestId) (msg : Msg) : Nat :=
  if reqId = some c.reqId ∧ c.has source ∧ c.has dest then
    match msg.role with
    | .question => if source = c.client then 1 else 0
    | .reply => if dest = c.client then 1 else 0
    | .reset => if source = c.client then 2 else 0
    | .batch => if source = c.client then 2 else 0
    | .other => 0
  else 0

def effectOwed (here : ServerId) : Effect → Nat
  | .resp reqId _ => c.answered here reqId
  | .send dest reqId msg => c.owed here dest reqId msg
  | _ => 0

/-- What a turn of a server puts into the books. -/
def outstanding (here : ServerId) (effects : List Effect) : Nat :=
  (effects.map (c.effectOwed here)).sum

variable {c} {here source dest : ServerId}

@[simp] theorem has_client : c.has c.client = true := by simp [has]

@[simp] theorem has_host : c.has c.host = true := by simp [has]

@[simp] theorem owed_none (source dest : ServerId) (msg : Msg) :
    c.owed source dest none msg = 0 := by simp [owed]

theorem owed_other {m : Msg} (h : m.role = .other) (source dest : ServerId)
    (reqId : Option RequestId) : c.owed source dest reqId m = 0 := by simp [owed, h]

/-- A question is passed on. -/
theorem owed_forward {m : Msg} (h : m.role = .question) (hhere : c.has here = true)
    {reqId : RequestId} (hdest : here = c.client → reqId = c.reqId → c.has dest = true) :
    c.owed here dest (some reqId) m = c.answered here reqId := by
  by_cases hours : here = c.client ∧ reqId = c.reqId
  · obtain ⟨rfl, rfl⟩ := hours
    simp [owed, answered, hdest rfl rfl, h]
  · by_cases hme : here = c.client
    · have hreq : reqId ≠ c.reqId := fun h => hours ⟨hme, h⟩
      simp [owed, answered, hreq]
    · simp [owed, answered, hme, h]

/-- A reset is passed on. -/
theorem owed_forwardReset {docId : DocId} (hhere : c.has here = true) {reqId : RequestId}
    (hdest : here = c.client → reqId = c.reqId → c.has dest = true) :
    c.owed here dest (some reqId) (.resetFromDisk docId) = 2 * c.answered here reqId := by
  by_cases hours : here = c.client ∧ reqId = c.reqId
  · obtain ⟨rfl, rfl⟩ := hours
    simp [owed, answered, hdest rfl rfl, Msg.role]
  · by_cases hme : here = c.client
    · have hreq : reqId ≠ c.reqId := fun h => hours ⟨hme, h⟩
      simp [owed, answered, hreq]
    · simp [owed, answered, hme, Msg.role]

/-- A question is turned into a reply. -/
theorem owed_reply {m r : Msg} (h : m.role = .question) (h' : r.role = .reply)
    (here source : ServerId) (reqId : Option RequestId) :
    c.owed here source reqId r = c.owed source here reqId m := by
  simp only [owed, h, h', and_comm]

/-- A reply is turned into an answer. -/
theorem owed_answer {msg : Msg} (h : msg.role = .reply) (hhere : c.has here = true)
    {reqId : RequestId} (hsource : here = c.client → reqId = c.reqId → c.has source = true) :
    c.owed source here (some reqId) msg = c.answered here reqId := by
  by_cases hours : here = c.client ∧ reqId = c.reqId
  · obtain ⟨rfl, rfl⟩ := hours
    simp [owed, answered, hsource rfl rfl, h]
  · by_cases hme : here = c.client
    · have hreq : reqId ≠ c.reqId := fun h => hours ⟨hme, h⟩
      simp [owed, answered, hreq]
    · simp [owed, answered, hme, h]

/-- A question or a batch of another server than the client. -/
theorem owed_of_source_ne {msg : Msg} (h : msg.role ≠ .reply) (hsource : source ≠ c.client)
    (dest : ServerId) (reqId : Option RequestId) : c.owed source dest reqId msg = 0 := by
  cases hrole : msg.role with
  | reply => exact absurd hrole h
  | _ => simp [owed, hrole, hsource]

/-- A reply to another server than the client. -/
theorem owed_of_dest_ne {msg : Msg} (h : msg.role = .reply) (hdest : dest ≠ c.client)
    (source : ServerId) (reqId : Option RequestId) : c.owed source dest reqId msg = 0 := by
  simp [owed, h, hdest]

@[simp] theorem outstanding_nil (here : ServerId) : c.outstanding here [] = 0 := rfl

@[simp] theorem outstanding_cons (here : ServerId) (e : Effect) (effects : List Effect) :
    c.outstanding here (e :: effects) = c.effectOwed here e + c.outstanding here effects := by
  simp [outstanding]

@[simp] theorem outstanding_append (here : ServerId) (effects effects' : List Effect) :
    c.outstanding here (effects ++ effects') =
      c.outstanding here effects + c.outstanding here effects' := by
  simp [outstanding]

theorem outstanding_eq_zero {effects : List Effect} (h : ∀ e ∈ effects, c.effectOwed here e = 0) :
    c.outstanding here effects = 0 := by
  induction effects with
  | nil => rfl
  | cons e effects ih =>
      rw [outstanding_cons, h e List.mem_cons_self,
        ih fun e' he => h e' (List.mem_cons_of_mem e he)]

@[simp] theorem outstanding_fs (here : ServerId) (calls : List FsCall) :
    c.outstanding here (calls.map Effect.fs) = 0 := by
  refine outstanding_eq_zero fun e he => ?_
  obtain ⟨call, _, rfl⟩ := List.mem_map.mp he
  rfl

theorem outstanding_calls_send (here : ServerId) (calls : List FsCall) (dest : ServerId)
    (reqId : Option RequestId) (msg : Msg) :
    c.outstanding here (calls.map Effect.fs ++ [.send dest reqId msg]) =
      c.owed here dest reqId msg := by simp [effectOwed]

/-- A message to each of a list of hosts. -/
theorem outstanding_send {hosts : List ServerId} {reqId : Option RequestId} {msg : Msg}
    (h : ∀ host ∈ hosts, c.owed here host reqId msg = 0) :
    c.outstanding here (hosts.map fun host => .send host reqId msg) = 0 := by
  refine outstanding_eq_zero fun e he => ?_
  obtain ⟨host, hhost, rfl⟩ := List.mem_map.mp he
  exact h host hhost

/-- All are told without a request id. -/
theorem outstanding_told (here : ServerId) (hosts : List ServerId) (msg : Msg) :
    c.outstanding here (hosts.map fun host => .send host none msg) = 0 :=
  outstanding_send fun _ _ => owed_none ..

theorem outstanding_broadcastOps (here : ServerId) (doc : Doc) (reqId : Option RequestId)
    (docId : DocId) (ops : List (FatOp Op)) :
    c.outstanding here (Server.broadcastOps doc reqId docId ops) = 0 :=
  outstanding_send fun _ _ => owed_other rfl ..

/-! ## Requests of the editor -/

/-- The request is passed on to one of the two, if it is the one that is counted. -/
def Fits (c : Parties) (here : ServerId) (reqId : RequestId) (req : Request) : Prop :=
  here = c.client → reqId = c.reqId →
    req.isKnown = true ∧ ∀ dest, req.dest? = some dest → c.has dest = true

section

variable {os : Os} {before after : Server} {effects : List Effect} {reqId : RequestId}

theorem outstanding_ifConnected {hostId : ServerId} {turn : Option Turn}
    (h : before.ifConnected reqId hostId turn = some (after, effects))
    (hturn : turn = some (after, effects) →
      c.outstanding here effects = c.answered here reqId) :
    c.outstanding here effects = c.answered here reqId := by
  unfold Server.ifConnected at h
  split at h
  next => exact hturn h
  next => cases h; simp [effectOwed]

theorem outstanding_resetDocFromDisk {reqId : Option RequestId} {path : UnixPath.Path}
    {timestamp : Option Instant} {res : Except String Unit}
    (h : before.resetDocFromDisk os reqId path timestamp = some (res, after, effects)) :
    c.outstanding here effects = 0 := by
  simp only [Server.resetDocFromDisk] at h
  split at h
  next => cases h; rfl
  next =>
      split at h
      next => cases h; rfl
      next =>
          split at h
          next => cases h; rfl
          next => cases h; rfl
          next =>
              simp only [Option.bind_eq_bind, Option.bind_eq_some_iff, Prod.exists] at h
              obtain ⟨res', reset, _, h⟩ := h
              split at h
              next => cases h; rfl
              next =>
                  cases h
                  rw [outstanding_append]
                  split
                  next => rfl
                  next => rw [outstanding_broadcastOps]; rfl

theorem outstanding_openOwnDoc (self : Server) (reqId : RequestId) (docId : DocId) (doc : DocEntry)
    (file : EditorFileDesc) :
    c.outstanding here (self.openOwnDoc reqId docId doc file).2 = c.answered here reqId := by
  simp [Server.openOwnDoc, effectOwed, Server.watchFiles]

theorem outstanding_openFileFromEditor {file : EditorFileDesc} {mode : OpenMode}
    (hhere : c.has before.hostId = true)
    (hdest : before.hostId = c.client → reqId = c.reqId → c.has file.hostId = true)
    (h : before.openFileFromEditor os reqId file mode = (after, effects)) :
    c.outstanding before.hostId effects = c.answered before.hostId reqId := by
  unfold Server.openFileFromEditor at h
  dsimp only at h
  split at h
  next =>
      split at h
      next => cases h; simp [effectOwed]
      next =>
          split at h
          next => cases h; simp [effectOwed]
          next =>
              split at h
              next => cases h; exact outstanding_openOwnDoc ..
              next =>
                  split at h
                  next => cases h; simp [effectOwed]
                  next => cases h; simp [outstanding_openOwnDoc]
  next =>
      split at h
      next => cases h; simp [effectOwed]
      next =>
          cases h
          simp [effectOwed, owed_forward (m := .requestFile (FileDesc.from file) mode) rfl
            hhere hdest]

theorem outstanding_handleShareFileFromEditor {filename content : Text}
    (h : before.handleShareFileFromEditor os reqId filename content = (after, effects)) :
    c.outstanding here effects = c.answered here reqId := by
  unfold Server.handleShareFileFromEditor at h
  dsimp only at h
  split at h
  next => cases h; simp [effectOwed]
  next => split at h <;> cases h <;> simp [effectOwed, Server.watchFiles]

theorem outstanding_handleSendOpsFromEditor {ops : List EditorFatOp} {file : EditorFileDesc}
    (h : before.handleSendOpsFromEditor reqId ops file = some (after, effects)) :
    c.outstanding here effects = c.answered here reqId := by
  simp only [Server.handleSendOpsFromEditor] at h
  split at h
  next => cases h; simp [effectOwed]
  next =>
      simp only [Option.bind_eq_bind, Option.bind_eq_some_iff, Prod.exists] at h
      obtain ⟨res, doc, _, h⟩ := h
      split at h
      next => cases h; simp [effectOwed]
      next contextOps _ => cases h; cases contextOps <;> simp [effectOwed]

theorem outstanding_handleUndoFromEditor {file : EditorFileDesc} {kind : UndoKind}
    (h : before.handleUndoFromEditor reqId file kind = some (after, effects)) :
    c.outstanding here effects = c.answered here reqId := by
  simp only [Server.handleUndoFromEditor] at h
  split at h
  next => cases h; simp [effectOwed]
  next =>
      cases kind <;>
      · obtain ⟨_, _, h⟩ := Option.bind_eq_some_iff.mp h
        cases h
        simp [effectOwed]

theorem outstanding_listFilesFromEditor {hostId : ServerId} {dir : Option FileDesc}
    (hhere : c.has before.hostId = true)
    (hdest : before.hostId = c.client → reqId = c.reqId → c.has hostId = true)
    (h : before.listFilesFromEditor os reqId hostId dir = (after, effects)) :
    c.outstanding before.hostId effects = c.answered before.hostId reqId := by
  unfold Server.listFilesFromEditor at h
  split at h
  next => cases h; simp [effectOwed, owed_forward (m := .listFiles dir) rfl hhere hdest]
  next => cases h; simp [effectOwed]

theorem outstanding_makeDirectoryFromEditor {file : EditorFileDesc}
    (hhere : c.has before.hostId = true)
    (hdest : before.hostId = c.client → reqId = c.reqId → c.has file.hostId = true)
    (h : before.makeDirectoryFromEditor os reqId file = (after, effects)) :
    c.outstanding before.hostId effects = c.answered before.hostId reqId := by
  unfold Server.makeDirectoryFromEditor at h
  split at h
  next => cases h; simp [effectOwed]
  next =>
      cases h
      simp [effectOwed, owed_forward (m := .makeDirectory (FileDesc.from file)) rfl hhere hdest]

theorem outstanding_handleMoveFileFromEditor {hostId : ServerId} {project : ProjectId}
    {oldPath newPath : Text} (hhere : c.has before.hostId = true)
    (hdest : before.hostId = c.client → reqId = c.reqId → c.has hostId = true)
    (h : before.handleMoveFileFromEditor os reqId hostId project oldPath newPath =
      (after, effects)) :
    c.outstanding before.hostId effects = c.answered before.hostId reqId := by
  simp only [Server.handleMoveFileFromEditor] at h
  split at h
  next =>
      cases h
      simp [effectOwed, owed_forward (m := .moveFile project oldPath newPath) rfl hhere hdest]
  next => split at h <;> cases h <;> simp [effectOwed, outstanding_told]

theorem outstanding_handleSaveFileFromEditor {file : EditorFileDesc}
    (hhere : c.has before.hostId = true)
    (hdest : before.hostId = c.client → reqId = c.reqId → c.has file.hostId = true)
    (h : before.handleSaveFileFromEditor os reqId file = (after, effects)) :
    c.outstanding before.hostId effects = c.answered before.hostId reqId := by
  unfold Server.handleSaveFileFromEditor at h
  split at h
  next =>
      split at h
      next docId _ _ =>
          cases h
          simp [effectOwed, owed_forward (m := .saveFile docId) rfl hhere hdest]
      next => cases h; simp [effectOwed]
  next => split at h <;> cases h <;> simp [effectOwed]

theorem outstanding_handleResetFromDiskFromEditor {file : EditorFileDesc}
    (hstays : file.hostId ≠ before.hostId → (before.remoteDocs.getByEditorDesc file).isSome = false)
    (h : before.handleResetFromDiskFromEditor os reqId file = some (after, effects)) :
    c.outstanding here effects = c.answered here reqId := by
  simp only [Server.handleResetFromDiskFromEditor] at h
  split at h
  next hother =>
      split at h <;> cases h
      next hdoc => simp [hdoc] at hstays; exact absurd hstays hother
      next => simp [effectOwed]
  next =>
      split at h
      next => cases h; simp [effectOwed]
      next =>
          split at h
          next => cases h; simp [effectOwed]
          next =>
              simp only [Option.bind_eq_bind, Option.bind_eq_some_iff, Prod.exists] at h
              obtain ⟨res, reset, effects', hreset, h⟩ := h
              cases h
              simp [effectOwed, outstanding_resetDocFromDisk hreset]

theorem outstanding_handleDisconnectFromFile {file : EditorFileDesc}
    (h : before.handleDisconnectFromFile reqId file = (after, effects)) :
    c.outstanding here effects = c.answered here reqId := by
  unfold Server.handleDisconnectFromFile at h
  split at h <;> cases h
  next docId _ _ => simp [effectOwed, owed_other (m := .stopSendingOps docId) rfl]
  next => simp [effectOwed]

theorem outstanding_handleCloseFileLocally (os : Os) (self : Server) (file : FileDesc)
    (delete : Bool) : c.outstanding here (self.handleCloseFileLocally os file delete).2.2 = 0 := by
  unfold Server.handleCloseFileLocally
  split
  next => rfl
  next =>
      dsimp only
      split
      next => exact outstanding_fs ..
      next => simp [effectOwed, Server.watchFiles]

theorem outstanding_handleCloseFileFromEditor {file : EditorFileDesc} {delete : Bool}
    (hhere : c.has before.hostId = true)
    (hdest : before.hostId = c.client → reqId = c.reqId → c.has file.hostId = true)
    (h : before.handleCloseFileFromEditor os reqId file delete = (after, effects)) :
    c.outstanding before.hostId effects = c.answered before.hostId reqId := by
  simp only [Server.handleCloseFileFromEditor] at h
  split at h
  next =>
      cases h
      simp [effectOwed, owed_forward (m := .closeFile (FileDesc.from file) delete) rfl
        hhere hdest]
  next =>
      split at h <;> cases h <;>
        simp [effectOwed, outstanding_handleCloseFileLocally, outstanding_told]

theorem outstanding_request {req : Request} (hhere : c.has before.hostId = true)
    (hfits : c.Fits before.hostId reqId req) (hstays : before.forwardsReset req = false)
    (h : before.handleEditorRequest os reqId req = some (after, effects)) :
    c.outstanding before.hostId effects = c.answered before.hostId reqId := by
  have hdest {dest : ServerId} (hreq : req.dest? = some dest) :
      before.hostId = c.client → reqId = c.reqId → c.has dest = true :=
    fun hme hid => (hfits hme hid).2 dest hreq
  cases req with
  | init => cases h; simp [effectOwed]
  | connectionState => cases h; simp [effectOwed]
  | unknown method =>
      cases h
      have hother : ¬(before.hostId = c.client ∧ reqId = c.reqId) := by
        rintro ⟨hme, hid⟩
        cases (hfits hme hid).1
      simp [answered, hother]
  | listProjects hostId =>
      exact outstanding_ifConnected h fun h =>
        outstanding_listFilesFromEditor hhere (hdest rfl) (Option.some.inj h)
  | listFiles dir =>
      exact outstanding_ifConnected h fun h =>
        outstanding_listFilesFromEditor hhere (hdest rfl) (Option.some.inj h)
  | openFile file mode =>
      exact outstanding_ifConnected h fun h =>
        outstanding_openFileFromEditor hhere (hdest rfl) (Option.some.inj h)
  | makeDirectory file =>
      exact outstanding_ifConnected h fun h =>
        outstanding_makeDirectoryFromEditor hhere (hdest rfl) (Option.some.inj h)
  | sendOps ops file => exact outstanding_handleSendOpsFromEditor h
  | undo file kind => exact outstanding_handleUndoFromEditor h
  | shareFile filename content =>
      exact outstanding_handleShareFileFromEditor (Option.some.inj h)
  | updateConfig trustedHosts permission => cases h; simp [effectOwed]
  | declareProjects projects =>
      have h := Option.some.inj h
      unfold Server.handleDeclareProjects at h
      split at h
      next => cases h; simp [effectOwed]
      next => split at h <;> cases h <;> simp [effectOwed]
  | moveFile hostId project oldPath newPath =>
      exact outstanding_ifConnected h fun h =>
        outstanding_handleMoveFileFromEditor hhere (hdest rfl) (Option.some.inj h)
  | saveFile file =>
      exact outstanding_ifConnected h fun h =>
        outstanding_handleSaveFileFromEditor hhere (hdest rfl) (Option.some.inj h)
  | resetFromDisk file =>
      simp only [Server.handleEditorRequest, Server.ifConnected] at h
      split at h
      next hconnected =>
          refine outstanding_handleResetFromDiskFromEditor (fun hother => ?_) h
          rw [Bool.or_eq_true, decide_eq_true_eq] at hconnected
          simpa [Server.forwardsReset, hother, hconnected.resolve_left hother] using hstays
      next => cases h; simp [effectOwed]
  | disconnectFromFile file =>
      exact outstanding_ifConnected h fun h =>
        outstanding_handleDisconnectFromFile (Option.some.inj h)
  | closeFile file =>
      exact outstanding_handleCloseFileFromEditor hhere (hdest rfl) (Option.some.inj h)
  | deleteFile file =>
      exact outstanding_ifConnected h fun h =>
        outstanding_handleCloseFileFromEditor hhere (hdest rfl) (Option.some.inj h)
  | printHistory file =>
      simp only [Server.handleEditorRequest] at h
      split at h <;> cases h <;> simp [effectOwed]

/-- A reset is passed on and answered. -/
theorem handle_forwardsReset {req : Request} (hforwards : before.forwardsReset req = true)
    (h : before.handleEditorRequest os reqId req = some (after, effects)) :
    ∃ dest docId file, req.dest? = some dest ∧ after = before ∧
      effects = [.send dest (some reqId) (.resetFromDisk docId),
        .resp reqId (.resetFromDisk file)] := by
  cases req with
  | resetFromDisk file =>
      simp only [Server.forwardsReset, Bool.and_eq_true, decide_eq_true_eq] at hforwards
      obtain ⟨⟨hother, hconnected⟩, hdoc⟩ := hforwards
      obtain ⟨⟨docId, doc⟩, hdoc⟩ := Option.isSome_iff_exists.mp hdoc
      simp only [Server.handleEditorRequest, Server.ifConnected, hconnected, Bool.or_true, if_true,
        Server.handleResetFromDiskFromEditor, if_pos hother, hdoc] at h
      cases h
      exact ⟨_, docId, file, rfl, rfl, rfl⟩
  | _ => cases hforwards

theorem outstanding_forwardsReset {req : Request} (hhere : c.has before.hostId = true)
    (hfits : c.Fits before.hostId reqId req) (hforwards : before.forwardsReset req = true)
    (h : before.handleEditorRequest os reqId req = some (after, effects)) :
    c.outstanding before.hostId effects = 3 * c.answered before.hostId reqId := by
  obtain ⟨dest, docId, file, hdest, -, rfl⟩ := handle_forwardsReset hforwards h
  rw [outstanding_cons, outstanding_cons, outstanding_nil, effectOwed, effectOwed,
    owed_forwardReset hhere fun hme hid => (hfits hme hid).2 _ hdest]
  omega

end

end Parties

end Answering

end CollabMode
