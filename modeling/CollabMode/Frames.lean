import CollabMode.FixWorld

/-!
# What handlers leave alone

The handlers that work on documents change the two tables of documents and the
counters and site ids that go with them, and no other part of the server.  `rest`
is what they leave alone.
-/

namespace CollabMode

namespace Server

/-- The server without its documents. -/
def rest (self : Server) : Server :=
  { self with
    docs := []
    remoteDocs := RemoteDocs.new
    nextDocId := 0
    nextSiteId := 0
    siteIdMap := [] }

theorem hostId_of_rest {self other : Server} (h : self.rest = other.rest) :
    self.hostId = other.hostId := (congrArg Server.hostId h :)

theorem siteId_of_rest {self other : Server} (h : self.rest = other.rest) :
    self.siteId = other.siteId := (congrArg Server.siteId h :)

theorem config_of_rest {self other : Server} (h : self.rest = other.rest) :
    self.config = other.config := (congrArg Server.config h :)

theorem projects_of_rest {self other : Server} (h : self.rest = other.rest) :
    self.projects = other.projects := (congrArg Server.projects h :)

theorem idealWorld_of_rest {self other : Server} (h : self.rest = other.rest) :
    self.idealWorld = other.idealWorld := (congrArg Server.idealWorld h :)

theorem currentWorld_of_rest {self other : Server} (h : self.rest = other.rest) :
    self.currentWorld = other.currentWorld := (congrArg Server.currentWorld h :)

@[simp] theorem rest_setDoc (self : Server) (docId : DocId) (doc : DocEntry) :
    (self.setDoc docId doc).rest = self.rest := rfl

@[simp] theorem rest_addDoc (self : Server) (doc : DocEntry) :
    (self.addDoc doc).2.rest = self.rest := rfl

@[simp] theorem rest_remoteDocs (self : Server) (remoteDocs : RemoteDocs) :
    ({ self with remoteDocs } : Server).rest = self.rest := rfl

@[simp] theorem rest_docs (self : Server) (docs : List (DocId × DocEntry)) :
    ({ self with docs } : Server).rest = self.rest := rfl

@[simp] theorem rest_siteIdOf (self : Server) (hostId : ServerId) :
    (self.siteIdOf hostId).2.rest = self.rest := by
  unfold siteIdOf
  split <;> rfl

theorem rest_removeDocs (os : Os) (self : Server) (docIds : List DocId) :
    (self.removeDocs os docIds).1.rest = self.rest := by
  induction docIds generalizing self with
  | nil => rfl
  | cons docId docIds ih =>
      simp only [removeDocs]
      rw [ih]
      rfl

theorem rest_handleCloseFileLocally (os : Os) (self : Server) (file : FileDesc) (delete : Bool) :
    (self.handleCloseFileLocally os file delete).2.1.rest = self.rest := by
  unfold handleCloseFileLocally
  split
  next => rfl
  next docIds _ _ _ =>
      dsimp only
      split <;> exact rest_removeDocs os self docIds

theorem rest_moveFileOnDisk (os : Os) (self : Server) (project : ProjectId)
    (oldPath newPath : Text) :
    (self.moveFileOnDisk os project oldPath newPath).2.1.rest = self.rest := by
  unfold moveFileOnDisk
  split
  next => rfl
  next =>
      dsimp only
      split <;> rfl

theorem rest_saveFileToDisk (os : Os) (self : Server) (docId : DocId) :
    (self.saveFileToDisk os docId).2.1.rest = self.rest := by
  unfold saveFileToDisk
  split <;> rfl

theorem rest_resetDocFromDisk {os : Os} {self self' : Server} {reqId : Option RequestId}
    {path : UnixPath.Path} {timestamp : Option Instant} {res : Except String Unit}
    {effects : List Effect}
    (h : self.resetDocFromDisk os reqId path timestamp = some (res, self', effects)) :
    self'.rest = self.rest := by
  simp only [resetDocFromDisk] at h
  split at h
  next => cases h; rfl
  next =>
      split at h
      next => cases h; rfl
      next =>
          split at h
          next => cases h; rfl
          next => cases h; rfl
          next =>
              simp only [Option.bind_eq_bind, Option.bind_eq_some_iff, Prod.exists] at h
              obtain ⟨res, reset, _, h⟩ := h
              split at h <;> cases h <;> rfl

/-! ## Loops -/

theorem forEach_rule {α : Type} {f : Server → α → Turn} {P : Server → Prop} {E : Effect → Prop}
    {as : List α} (hf : ∀ self, ∀ a ∈ as, P self → P (f self a).1 ∧ ∀ e ∈ (f self a).2, E e)
    {self : Server} (hself : P self) :
    P (self.forEach f as).1 ∧ ∀ e ∈ (self.forEach f as).2, E e := by
  induction as generalizing self with
  | nil =>
      refine ⟨hself, fun e he => ?_⟩
      cases he
  | cons a as ih =>
      obtain ⟨hfirst, heffects⟩ := hf self a (by simp) hself
      obtain ⟨hrest, heffects'⟩ := ih (fun s b hb => hf s b (by simp [hb])) hfirst
      refine ⟨hrest, fun e he => ?_⟩
      rcases List.mem_append.mp he with he | he
      · exact heffects e he
      · exact heffects' e he

/-! ## Messages of peers -/

theorem rest_handleOpFromServer (self : Server) (reqId : Option RequestId) (docId : DocId)
    (ops : List (FatOp Op)) (host : ServerId) :
    (self.handleOpFromServer reqId docId ops host).1.rest = self.rest := by
  unfold handleOpFromServer
  split
  next => rfl
  next =>
      split
      next => rfl
      next =>
          dsimp only
          split <;> rfl

theorem rest_acceptOps {self self' : Server} {reqId : Option RequestId} {docId : DocId}
    {doc : DocEntry} {contextOps : ContextOps} {host : ServerId} {res : Except CollabError Unit}
    {effects : List Effect}
    (h : self.acceptOps reqId docId doc contextOps host = some (res, self', effects)) :
    self'.rest = self.rest := by
  simp only [acceptOps, Option.bind_eq_bind, Option.bind_eq_some_iff, Prod.exists] at h
  obtain ⟨res, applied, _, h⟩ := h
  split at h <;> cases h <;> rfl

theorem rest_handleOpFromClient {self self' : Server} {reqId : Option RequestId}
    {contextOps : ContextOps} {host : ServerId} {res : Except CollabError Unit}
    {effects : List Effect}
    (h : self.handleOpFromClient reqId contextOps host = some (res, self', effects)) :
    self'.rest = self.rest := by
  simp only [handleOpFromClient] at h
  split at h
  next => cases h; rfl
  next =>
      split at h
      next => cases h; rfl
      next =>
          split at h
          next => cases h; rfl
          next =>
              split at h
              next => exact rest_acceptOps h
              next =>
                  split at h
                  next => cases h; rfl
                  next => exact rest_acceptOps h

theorem rest_handleRequestOps (self : Server) (reqId : Option RequestId) (docId : DocId)
    (after : GlobalSeq) (host : ServerId) :
    (self.handleRequestOps reqId docId after host).1.rest = self.rest := by
  unfold handleRequestOps
  split <;> rfl

theorem rest_handleRequestFile (os : Os) (self : Server) (reqId : Option RequestId)
    (fileDesc : FileDesc) (host : ServerId) (mode : OpenMode) :
    (self.handleRequestFile os reqId fileDesc host mode).1.rest = self.rest := by
  have hsite := rest_siteIdOf self host
  unfold handleRequestFile
  split
  next => rfl
  next =>
      dsimp only
      split
      next => exact hsite
      next =>
          split
          next => exact hsite
          next =>
              split
              next => exact hsite
              next => exact hsite

theorem rest_handleSnapshot (self : Server) (reqId : RequestId) (snapshot : NewSnapshot)
    (host : ServerId) : (self.handleSnapshot reqId snapshot host).1.rest = self.rest := by
  unfold handleSnapshot
  split <;> rfl

theorem rest_handleMoveFile (os : Os) (self : Server) (reqId : Option RequestId)
    (project : ProjectId) (oldPath newPath : Text) (host : ServerId) :
    (self.handleMoveFile os reqId project oldPath newPath host).1.rest = self.rest := by
  unfold handleMoveFile
  dsimp only
  split <;> exact rest_moveFileOnDisk os self project oldPath newPath

theorem rest_handleCloseFileFromRemote (os : Os) (self : Server) (reqId : Option RequestId)
    (fileDesc : FileDesc) (requester : ServerId) (delete : Bool) :
    (self.handleCloseFileFromRemote os reqId fileDesc requester delete).1.rest = self.rest := by
  unfold handleCloseFileFromRemote
  split
  next => rfl
  next =>
      dsimp only
      split <;> exact rest_handleCloseFileLocally os self fileDesc delete

theorem rest_handleMakeDirectory (os : Os) (self : Server) (reqId : Option RequestId)
    (fileDesc : FileDesc) (host : ServerId) :
    (self.handleMakeDirectory os reqId fileDesc host).1 = self := by
  unfold handleMakeDirectory
  split <;> rfl

theorem rest_handleSaveFile (os : Os) (self : Server) (reqId : Option RequestId) (docId : DocId)
    (host : ServerId) : (self.handleSaveFile os reqId docId host).1.rest = self.rest :=
  rest_saveFileToDisk os self docId

theorem rest_handleResetFromDisk {os : Os} {self self' : Server} {reqId : Option RequestId}
    {docId : DocId} {host : ServerId} {effects : List Effect}
    (h : self.handleResetFromDisk os reqId docId host = some (self', effects)) :
    self'.rest = self.rest := by
  simp only [handleResetFromDisk] at h
  split at h
  next => cases h; rfl
  next =>
      simp only [Option.bind_eq_bind, Option.bind_eq_some_iff, Prod.exists] at h
      obtain ⟨res, reset, effects', hreset, h⟩ := h
      split at h <;> cases h <;> exact rest_resetDocFromDisk hreset

theorem rest_handleStopSendingOps (self : Server) (docId : DocId) (host : ServerId) :
    (self.handleStopSendingOps docId host).1.rest = self.rest := by
  unfold handleStopSendingOps
  split <;> rfl

theorem rest_handleDocFatal (self : Server) (docId : DocId) (reason : String) (host : ServerId) :
    (self.handleDocFatal docId reason host).1.rest = self.rest := rfl

/-! ## Requests of the editor -/

theorem rest_handleSendOpsFromEditor {self self' : Server} {reqId : RequestId}
    {ops : List EditorFatOp} {file : EditorFileDesc} {effects : List Effect}
    (h : self.handleSendOpsFromEditor reqId ops file = some (self', effects)) :
    self'.rest = self.rest := by
  simp only [handleSendOpsFromEditor] at h
  split at h
  next => cases h; rfl
  next =>
      simp only [Option.bind_eq_bind, Option.bind_eq_some_iff, Prod.exists] at h
      obtain ⟨res, doc, _, h⟩ := h
      split at h <;> cases h <;> rfl

theorem rest_handleUndoFromEditor {self self' : Server} {reqId : RequestId}
    {file : EditorFileDesc} {kind : UndoKind} {effects : List Effect}
    (h : self.handleUndoFromEditor reqId file kind = some (self', effects)) : self' = self := by
  unfold handleUndoFromEditor at h
  split at h
  next => cases h; rfl
  next =>
      cases kind with
      | undo =>
          obtain ⟨_, _, h⟩ := Option.bind_eq_some_iff.mp h
          cases h
          rfl
      | redo =>
          obtain ⟨_, _, h⟩ := Option.bind_eq_some_iff.mp h
          cases h
          rfl

theorem rest_openOwnDoc (self : Server) (reqId : RequestId) (docId : DocId) (doc : DocEntry)
    (fileDesc : EditorFileDesc) :
    (self.openOwnDoc reqId docId doc fileDesc).1.rest = self.rest := by
  unfold openOwnDoc
  dsimp only
  split <;> rfl

theorem rest_openFileFromEditor (os : Os) (self : Server) (reqId : RequestId)
    (fileDesc : EditorFileDesc) (mode : OpenMode) :
    (self.openFileFromEditor os reqId fileDesc mode).1.rest = self.rest := by
  unfold openFileFromEditor
  dsimp only
  split
  next =>
      split
      next => rfl
      next =>
          split
          next => rfl
          next =>
              split
              next => exact rest_openOwnDoc self reqId ..
              next =>
                  split
                  next => rfl
                  next => exact rest_openOwnDoc _ reqId ..
  next => split <;> rfl

theorem rest_handleShareFileFromEditor (os : Os) (self : Server) (reqId : RequestId)
    (filename content : Text) :
    (self.handleShareFileFromEditor os reqId filename content).1.rest = self.rest := by
  unfold handleShareFileFromEditor
  dsimp only
  split
  next => rfl
  next => split <;> rfl

theorem rest_handleMoveFileFromEditor (os : Os) (self : Server) (reqId : RequestId)
    (hostId : ServerId) (project : ProjectId) (oldPath newPath : Text) :
    (self.handleMoveFileFromEditor os reqId hostId project oldPath newPath).1.rest =
      self.rest := by
  unfold handleMoveFileFromEditor
  split
  next => rfl
  next =>
      dsimp only
      split <;> exact rest_moveFileOnDisk os self project oldPath newPath

theorem rest_handleSaveFileFromEditor (os : Os) (self : Server) (reqId : RequestId)
    (file : EditorFileDesc) :
    (self.handleSaveFileFromEditor os reqId file).1.rest = self.rest := by
  unfold handleSaveFileFromEditor
  split
  next => split <;> rfl
  next =>
      split
      next => rfl
      next docId _ _ => exact rest_saveFileToDisk os self docId

theorem rest_handleResetFromDiskFromEditor {os : Os} {self self' : Server} {reqId : RequestId}
    {file : EditorFileDesc} {effects : List Effect}
    (h : self.handleResetFromDiskFromEditor os reqId file = some (self', effects)) :
    self'.rest = self.rest := by
  simp only [handleResetFromDiskFromEditor] at h
  split at h
  next => split at h <;> cases h <;> rfl
  next =>
      split at h
      next => cases h; rfl
      next =>
          split at h
          next => cases h; rfl
          next =>
              simp only [Option.bind_eq_bind, Option.bind_eq_some_iff, Prod.exists] at h
              obtain ⟨res, reset, effects', hreset, h⟩ := h
              cases h
              exact rest_resetDocFromDisk hreset

theorem rest_handleDisconnectFromFile (self : Server) (reqId : RequestId)
    (file : EditorFileDesc) :
    (self.handleDisconnectFromFile reqId file).1.rest = self.rest := by
  unfold handleDisconnectFromFile
  split <;> rfl

theorem rest_handleCloseFileFromEditor (os : Os) (self : Server) (reqId : RequestId)
    (editorFile : EditorFileDesc) (delete : Bool) :
    (self.handleCloseFileFromEditor os reqId editorFile delete).1.rest = self.rest := by
  unfold handleCloseFileFromEditor
  dsimp only
  split
  next => rfl
  next => split <;> exact rest_handleCloseFileLocally os self _ delete

/-! ## The dispatchers -/

/-- A refused request leaves the server as it was. -/
theorem ifConnected_some {self self' : Server} {reqId : RequestId} {hostId : ServerId}
    {turn : Option Turn} {effects : List Effect}
    (h : self.ifConnected reqId hostId turn = some (self', effects)) :
    turn = some (self', effects) ∨ self' = self := by
  unfold ifConnected at h
  split at h
  next => exact .inl h
  next =>
      cases h
      exact .inr rfl

theorem ifWriteAllowed_some {self self' : Server} {msg : Message} {turn : Option Turn}
    {effects : List Effect} (h : self.ifWriteAllowed msg turn = some (self', effects)) :
    turn = some (self', effects) ∧ self.config.writeAllowed msg.host = true ∨
      self' = self ∧ self.config.writeAllowed msg.host = false ∧
        effects = [.send msg.host msg.reqId (.permissionDenied "Write permission denied")] := by
  unfold ifWriteAllowed at h
  split at h
  next hw => exact .inl ⟨h, hw⟩
  next hw =>
      cases h
      exact .inr ⟨rfl, Bool.not_eq_true _ ▸ hw, rfl⟩

theorem rest_of_some {self self' : Server} {turn : Turn} {effects : List Effect}
    (hturn : turn.1.rest = self.rest) (h : some turn = some (self', effects)) :
    self'.rest = self.rest := by
  rw [← hturn, Option.some.inj h]

/-- A request that is passed on to a turn of a handler. -/
theorem rest_of_ifConnected {self self' : Server} {reqId : RequestId} {hostId : ServerId}
    {turn : Turn} {effects : List Effect} (hturn : turn.1.rest = self.rest)
    (h : self.ifConnected reqId hostId (some turn) = some (self', effects)) :
    self'.rest = self.rest := by
  rcases ifConnected_some h with h | rfl
  · exact rest_of_some hturn h
  · rfl

theorem rest_of_ifWriteAllowed {self self' : Server} {msg : Message} {turn : Turn}
    {effects : List Effect} (hturn : turn.1.rest = self.rest)
    (h : self.ifWriteAllowed msg (some turn) = some (self', effects)) :
    self'.rest = self.rest := by
  rcases ifWriteAllowed_some h with ⟨h, _⟩ | ⟨rfl, _⟩
  · exact rest_of_some hturn h
  · rfl

/-- The requests that change more than documents. -/
theorem handleEditorRequest_rest {os : Os} {self self' : Server} {reqId : RequestId}
    {req : Request} {effects : List Effect}
    (h : self.handleEditorRequest os reqId req = some (self', effects)) :
    self'.rest = self.rest ∨
      (∃ trustedHosts permission, req = .updateConfig trustedHosts permission ∧
        self' = (self.handleUpdateConfigFromEditor os reqId trustedHosts permission).1) ∨
      ∃ projects, req = .declareProjects projects ∧
        self' = (self.handleDeclareProjects os reqId projects).1 := by
  cases req with
  | updateConfig trustedHosts permission =>
      exact .inr (.inl ⟨_, _, rfl, congrArg Prod.fst (Option.some.inj h).symm⟩)
  | declareProjects projects =>
      exact .inr (.inr ⟨_, rfl, congrArg Prod.fst (Option.some.inj h).symm⟩)
  | init => cases h; exact .inl rfl
  | connectionState => cases h; exact .inl rfl
  | unknown => cases h; exact .inl rfl
  | listProjects hostId =>
      refine .inl (rest_of_ifConnected ?_ h)
      unfold listFilesFromEditor
      split <;> rfl
  | listFiles dir =>
      refine .inl (rest_of_ifConnected ?_ h)
      unfold listFilesFromEditor
      split <;> rfl
  | openFile file mode => exact .inl (rest_of_ifConnected (rest_openFileFromEditor ..) h)
  | makeDirectory file =>
      refine .inl (rest_of_ifConnected ?_ h)
      unfold makeDirectoryFromEditor
      split <;> rfl
  | sendOps ops file => exact .inl (rest_handleSendOpsFromEditor h)
  | undo file kind => exact .inl (rest_handleUndoFromEditor h ▸ rfl)
  | shareFile filename content =>
      exact .inl (rest_of_some (rest_handleShareFileFromEditor ..) h)
  | moveFile hostId project oldPath newPath =>
      exact .inl (rest_of_ifConnected (rest_handleMoveFileFromEditor ..) h)
  | saveFile file => exact .inl (rest_of_ifConnected (rest_handleSaveFileFromEditor ..) h)
  | resetFromDisk file =>
      rcases ifConnected_some h with h | rfl
      · exact .inl (rest_handleResetFromDiskFromEditor h)
      · exact .inl rfl
  | disconnectFromFile file =>
      exact .inl (rest_of_ifConnected (rest_handleDisconnectFromFile ..) h)
  | closeFile file =>
      exact .inl (rest_of_some (rest_handleCloseFileFromEditor ..) h)
  | deleteFile file =>
      exact .inl (rest_of_ifConnected (rest_handleCloseFileFromEditor ..) h)
  | printHistory file =>
      simp only [handleEditorRequest] at h
      split at h <;> cases h <;> exact .inl rfl

/-- The messages that change more than documents are about connections. -/
theorem handleRemoteMessage_cases {os : Os} {self self' : Server} {msg : Message}
    {effects : List Effect} (h : self.handleRemoteMessage os msg = some (self', effects)) :
    self'.rest = self.rest ∨
      (∃ peer connectionId reason noteReason,
        self' = (self.attemptFailed os peer connectionId reason noteReason).1) ∨
      (∃ hey, self' = (self.handleHey os hey msg.host).1) ∨
      self' = (self.handleBye msg.host).1 := by
  obtain ⟨host, body, reqId⟩ := msg
  cases body with
  | failedToConnect peer reason connectionId =>
      exact .inr (.inl ⟨_, _, _, _, congrArg Prod.fst (Option.some.inj h).symm⟩)
  | connectionBroke peer connectionId =>
      exact .inr (.inl ⟨_, _, _, _, congrArg Prod.fst (Option.some.inj h).symm⟩)
  | hey hey => exact .inr (.inr (.inl ⟨hey, congrArg Prod.fst (Option.some.inj h).symm⟩))
  | bye => exact .inr (.inr (.inr (congrArg Prod.fst (Option.some.inj h).symm)))
  | requestFile file mode =>
      simp only [handleRemoteMessage] at h
      split at h
      next => cases h; exact .inl rfl
      next => exact .inl (rest_of_some (rest_handleRequestFile ..) h)
  | snapshot snapshot =>
      simp only [handleRemoteMessage] at h
      split at h
      next => cases h; exact .inl rfl
      next => exact .inl (rest_of_some (rest_handleSnapshot ..) h)
  | makeDirectory file =>
      exact .inl (rest_of_ifWriteAllowed (rest_handleMakeDirectory .. ▸ rfl) h)
  | opFromClient ops =>
      obtain ⟨⟨res, self', effects⟩, h, heq⟩ := Option.map_eq_some_iff.mp h
      cases heq
      exact .inl (rest_handleOpFromClient h)
  | opFromServer doc ops => exact .inl (rest_of_some (rest_handleOpFromServer ..) h)
  | requestOps doc after => exact .inl (rest_of_some (rest_handleRequestOps ..) h)
  | moveFile project source dest => exact .inl (rest_of_ifWriteAllowed (rest_handleMoveFile ..) h)
  | saveFile doc => exact .inl (rest_of_ifWriteAllowed (rest_handleSaveFile ..) h)
  | resetFromDisk doc =>
      rcases ifWriteAllowed_some h with ⟨h, _⟩ | ⟨rfl, _⟩
      · exact .inl (rest_handleResetFromDisk h)
      · exact .inl rfl
  | stopSendingOps doc => exact .inl (rest_of_some (rest_handleStopSendingOps ..) h)
  | closeFile file delete => exact .inl (rest_of_some (rest_handleCloseFileFromRemote ..) h)
  | docFatal doc reason => exact .inl (rest_of_some (rest_handleDocFatal ..) h)
  | infoFromServer info =>
      simp only [handleRemoteMessage] at h
      split at h
      next => split at h <;> cases h <;> exact .inl rfl
      next => cases h; exact .inl rfl
  | fileSaved doc =>
      simp only [handleRemoteMessage] at h
      split at h
      next => cases h; exact .inl rfl
      next => split at h <;> cases h <;> exact .inl rfl
  | infoFromClient info =>
      simp only [handleRemoteMessage] at h
      split at h <;> cases h <;> exact .inl rfl
  | listFiles dir =>
      simp only [handleRemoteMessage] at h
      split at h <;> cases h <;> exact .inl rfl
  | fileList files =>
      simp only [handleRemoteMessage] at h
      split at h <;> cases h <;> exact .inl rfl
  | errorResp code file message =>
      simp only [handleRemoteMessage] at h
      split at h <;> cases h <;> exact .inl rfl
  | directoryMade file =>
      simp only [handleRemoteMessage] at h
      split at h <;> cases h <;> exact .inl rfl
  | fileMoved project source dest =>
      simp only [handleRemoteMessage] at h
      split at h <;> cases h <;> exact .inl rfl
  | fileDeleted file =>
      simp only [handleRemoteMessage] at h
      split at h <;> cases h <;> exact .inl rfl
  | permissionDenied reason =>
      simp only [handleRemoteMessage] at h
      split at h <;> cases h <;> exact .inl rfl
  | fileClosed file => cases h; exact .inl rfl
  | iceProgress peer message => cases h; exact .inl rfl
  | shareSingleFile filename content => cases h; exact .inl rfl
  | fileShared doc => cases h; exact .inl rfl
  | info info => cases h; exact .inl rfl
  | envoyInit hostId envoyId projects => cases h; exact .inl rfl
  | envoyInitError reason => cases h; exact .inl rfl
  | serializationErr reason => cases h; exact .inl rfl
  | badRequest reason => cases h; exact .inl rfl

theorem handleRemoteMessage_rest {os : Os} {self self' : Server} {msg : Message}
    {effects : List Effect} (h : self.handleRemoteMessage os msg = some (self', effects)) :
    self'.rest = self.rest ∨
      ∃ currentWorld trustedHosts, self' =
        { self with currentWorld, config := { self.config with trustedHosts } } := by
  rcases handleRemoteMessage_cases h with hrest | ⟨_, _, _, _, rfl⟩ | ⟨_, rfl⟩ | rfl
  · exact .inl hrest
  · refine .inr ?_
    unfold attemptFailed
    split
    next => exact ⟨_, _, rfl⟩
    next => dsimp only; split <;> exact ⟨_, _, rfl⟩
  · exact .inr ⟨_, _, rfl⟩
  · exact .inr ⟨_, _, rfl⟩

end Server

end CollabMode
