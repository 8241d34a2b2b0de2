import CollabMode.RemoteHandlers

/-!
# Requests of the editor

`handle_editor_request` of `server.rs` and the handlers it calls.  A request for a
file of another host is passed on to that host.  An error that a handler does not
answer itself is answered as an internal error.
-/

namespace CollabMode

open UnixPath (Path)

/-! ## Texts of errors -/

def EditorFileDesc.text (self : EditorFileDesc) : String :=
  if self.file.isEmpty then s!"{self.hostId}/{showText self.project}"
  else s!"{self.hostId}/{showText self.project}/{showText self.file}"

def EngineError.text : EngineError → String
  | .opMissing op => s!"An op that we expect to exist isn’t there: {reprStr op}"
  | .opMismatch op localOp =>
      s!"We expect to find {reprStr op}, but instead find {reprStr localOp}"
  | .seqMismatch expected op => s!"We expect to see global sequence {expected} in op {reprStr op}"
  | .siteSeqMismatch expected op =>
      s!"We expect to see site sequence number {expected} in op {reprStr op}"
  | .seqMissing op => s!"Op {reprStr op} should have a global seq number, but doesn’t"
  | .emptyInsert op => s!"Insertion cannot be empty: {reprStr op}"
  | .deleteInEmptyDoc => "You can’t delete in empty doc"
  | .undoError msg => s!"Undo error: {msg}"

def DocError.text : DocError → String
  | .engine err => err.text
  | .collab err => err.text

/-! ## Ops of the editor -/

namespace RemoteDoc

/-- Process the ops of the editor and then the ops that arrived before.  Returns
what the editor is to apply and the batch to send, if it is time to send one. -/
def sendOps (self : RemoteDoc) (docId : DocId) (ops : List EditorFatOp) :
    Option (Except String (List EditorLeanOp × Option ContextOps) × RemoteDoc) := do
  let remoteOps := self.remoteOpBuffer
  let (res, self) ← processEditorOps ops { self with remoteOpBuffer := [] }
  match res with
  | .error err => some (.error s!"Failed to process local ops: {err.text}", self)
  | .ok () => do
      let (res, self) ← processServerOps remoteOps self
      match res with
      | .error err => some (.error s!"Failed to apply remote ops: {err.text}", self)
      | .ok leanOps =>
          let (contextOps, engine) := self.engine.maybePackageLocalOps docId
          some (.ok (leanOps, contextOps), { self with engine })

end RemoteDoc

namespace Server

def handleSendOpsFromEditor (self : Server) (reqId : RequestId) (ops : List EditorFatOp)
    (file : EditorFileDesc) : Option Turn :=
  match self.remoteDocs.getByEditorDesc file with
  | none => some (self, [.resp reqId (.error .ioError s!"File not found: {file.text}")])
  | some (docId, remoteDoc) => do
      let hostId := file.hostId
      let (res, doc) ← remoteDoc.toRemoteDoc.sendOps docId ops
      match res with
      | .error err =>
          some ({ self with remoteDocs := (self.remoteDocs.remove hostId docId).2 },
            [.resp reqId (.error .docFatal err)])
      | .ok (leanOps, contextOps) =>
          let self :=
            { self with
              remoteDocs :=
                self.remoteDocs.set hostId docId { remoteDoc with toRemoteDoc := doc } }
          let sent := contextOps.toList.map fun ops => Effect.send hostId none (.opFromClient ops)
          some (self, sent ++
            [.resp reqId (.sendOps leanOps doc.engine.currentSeq doc.engine.gh.localOps.length
              doc.buffer.length)])

def handleUndoFromEditor (self : Server) (reqId : RequestId) (file : EditorFileDesc)
    (kind : UndoKind) : Option Turn :=
  match self.remoteDocs.getByEditorDesc file with
  | none =>
      some (self, [.resp reqId (.error .internalError s!"Remote doc not found: {file.text}")])
  | some (_, remoteDoc) => do
      let (ops, context) ←
        match kind with
        | .undo => remoteDoc.engine.generateUndoOp
        | .redo => remoteDoc.engine.generateRedoOp
      some (self, [.resp reqId (.undo ops context)])

/-! ## Opening and sharing files -/

/-- A document that this host serves, with a client's copy of it for the host's own
editor. -/
def ownRemoteDoc (self : Server) (doc : DocEntry) (fileDesc : FileDesc) : RemoteDocEntry :=
  { toRemoteDoc := RemoteDoc.new doc.buffer
      (ClientEngine.new self.siteId doc.engine.currentSeq doc.engine.internalDoc)
    name := doc.name, fileDesc }

/-- Open a document of this host that is in the table. -/
def openOwnDoc (self : Server) (reqId : RequestId) (docId : DocId) (doc : DocEntry)
    (fileDesc : EditorFileDesc) : Turn :=
  let doc := { doc with subscribers := AssocMap.insert doc.subscribers self.hostId 0 }
  let self := self.setDoc docId doc
  let self :=
    match self.remoteDocs.getByEditorDesc fileDesc with
    | some _ => self
    | none =>
        { self with
          remoteDocs := self.remoteDocs.insert self.hostId docId
            (self.ownRemoteDoc doc (FileDesc.from fileDesc)) fileDesc }
  -- The answer has the text of the host's document in either case.
  (self, [.resp reqId (.openFile doc.buffer self.siteId doc.name fileDesc), self.watchFiles])

def openFileFromEditor (os : Os) (self : Server) (reqId : RequestId) (fileDesc : EditorFileDesc)
    (mode : OpenMode) : Turn :=
  let desc := FileDesc.from fileDesc
  if self.hostId = fileDesc.hostId then
    if fileDesc.isProject then
      (self, [.resp reqId (.error .badRequest "Cannot open a project directory")])
    else
      match self.pathIdFromFileDesc desc with
      | .error err => (self, [.resp reqId (.error .ioError err)])
      | .ok pathId =>
          -- The loop over the documents keeps the last one.
          match self.docs.reverse.find? fun entry => entry.2.matches pathId with
          | some (docId, doc) => self.openOwnDoc reqId docId doc fileDesc
          | none =>
              let (res, calls) :=
                self.openFileFromDisk os fileDesc.project fileDesc.file mode true
              match res with
              | .error (_, err) =>
                  (self, calls.map Effect.fs ++ [.resp reqId (.error .ioError err)])
              | .ok (content, fullPath) =>
                  let baseName := (UnixPath.fileName fileDesc.file).getD fileDesc.file
                  let doc := DocEntry.new os baseName (.path fullPath) desc content
                    (ServerEngine.new (utf8Len content)) (some fullPath)
                  let (docId, self) := self.addDoc doc
                  let (self, effects) := self.openOwnDoc reqId docId doc fileDesc
                  (self, (calls ++ DocEntry.newCalls (.path fullPath)).map Effect.fs ++ effects)
  else
    match self.remoteDocs.getByEditorDesc fileDesc with
    | some (_, remoteDoc) =>
        (self, [.resp reqId (.openFile remoteDoc.buffer remoteDoc.engine.site remoteDoc.name
          fileDesc)])
    | none => (self, [.send fileDesc.hostId (some reqId) (.requestFile desc mode)])

def handleShareFileFromEditor (os : Os) (self : Server) (reqId : RequestId)
    (filename content : Text) : Turn :=
  let expanded := (os.expanduser filename).getD filename
  let fileDesc : FileDesc :=
    if UnixPath.isAbsolute expanded then .projectFile reservedFilesProject expanded
    else .projectFile reservedBuffersProject filename
  match self.pathIdFromFileDesc fileDesc with
  | .error err => (self, [.resp reqId (.error .internalError err)])
  | .ok pathId =>
      match self.findDoc pathId with
      | some _ =>
          (self, [.resp reqId
            (.error .internalError s!"File {showText filename} already exists")])
      | none =>
          let onDisk := os.pathExists expanded
          let opened := onDisk && os.openFile expanded false != .notOpened
          let pathId : PathId := if onDisk then .path expanded else .buffer expanded
          let doc := DocEntry.new os filename pathId fileDesc content
            (ServerEngine.new (utf8Len content)) (if opened then some expanded else none)
          let doc := { doc with subscribers := [(self.hostId, 0)] }
          let (docId, self) := self.addDoc doc
          let remoteDoc : RemoteDocEntry :=
            { toRemoteDoc := RemoteDoc.new content
                (ClientEngine.new self.siteId 0 (InternalDoc.new content.length))
              name := filename, fileDesc }
          let editorFileDesc := EditorFileDesc.new fileDesc self.hostId
          let self :=
            { self with
              remoteDocs := self.remoteDocs.insert self.hostId docId remoteDoc editorFileDesc }
          let calls := [FsCall.stat expanded] ++ (if onDisk then [.open expanded false] else []) ++
            DocEntry.newCalls pathId
          (self, calls.map Effect.fs ++
            [.resp reqId (.shareFile editorFileDesc self.siteId), self.watchFiles])

/-! ## Other requests on files -/

def listFilesFromEditor (os : Os) (self : Server) (reqId : RequestId) (hostId : ServerId)
    (dir : Option FileDesc) : Turn :=
  if self.hostId ≠ hostId then (self, [.send hostId (some reqId) (.listFiles dir)])
  else
    let (res, calls) := self.listFilesFromDisk os dir
    let resp : Response :=
      match res with
      | .ok files => .listFiles files
      | .error err => .error .ioError err
    (self, calls.map Effect.fs ++ [.resp reqId resp])

def makeDirectoryFromEditor (os : Os) (self : Server) (reqId : RequestId)
    (fileDesc : EditorFileDesc) : Turn :=
  if self.hostId = fileDesc.hostId then
    let (res, calls) := self.makeDirectoryOnDisk os fileDesc.project fileDesc.file
    let resp : Response :=
      match res with
      | .error err => .error .ioError err
      | .ok () => .makeDirectory fileDesc
    (self, calls.map Effect.fs ++ [.resp reqId resp])
  else
    (self, [.send fileDesc.hostId (some reqId) (.makeDirectory (FileDesc.from fileDesc))])

def handleMoveFileFromEditor (os : Os) (self : Server) (reqId : RequestId) (hostId : ServerId)
    (project : ProjectId) (oldPath newPath : Text) : Turn :=
  if self.hostId ≠ hostId then
    (self, [.send hostId (some reqId) (.moveFile project oldPath newPath)])
  else
    let (res, self, calls) := self.moveFileOnDisk os project oldPath newPath
    match res with
    | .error err => (self, calls.map Effect.fs ++ [.resp reqId (.error .ioError err)])
    | .ok subscribers =>
        (self, calls.map Effect.fs ++
          [.resp reqId (.moveFile self.hostId project oldPath newPath)] ++
          (subscribers.filter (· ≠ self.hostId)).map fun subscriber =>
            .send subscriber none (.fileMoved project oldPath newPath))

def handleSaveFileFromEditor (os : Os) (self : Server) (reqId : RequestId)
    (file : EditorFileDesc) : Turn :=
  if file.hostId ≠ self.hostId then
    match self.remoteDocs.getByEditorDesc file with
    | some (docId, _) => (self, [.send file.hostId (some reqId) (.saveFile docId)])
    | none => (self, [.resp reqId (.error .ioError s!"Remote file not open: {file.text}")])
  else
    match self.remoteDocs.getByEditorDesc file with
    | none => (self, [.resp reqId (.error .ioError "File not open")])
    | some (docId, _) =>
        let (res, self, calls) := self.saveFileToDisk os docId
        let resp : Response :=
          match res with
          | .error err => .error .ioError err
          | .ok () => .saveFile file
        (self, calls.map Effect.fs ++ [.resp reqId resp])

def handleResetFromDiskFromEditor (os : Os) (self : Server) (reqId : RequestId)
    (file : EditorFileDesc) : Option Turn :=
  if file.hostId ≠ self.hostId then
    match self.remoteDocs.getByEditorDesc file with
    | some (docId, _) =>
        some (self, [.send file.hostId (some reqId) (.resetFromDisk docId),
          .resp reqId (.resetFromDisk file)])
    | none => some (self, [.resp reqId (.error .ioError s!"Remote file not open: {file.text}")])
  else
    match self.remoteDocs.getByEditorDesc file with
    | none => some (self, [.resp reqId (.error .ioError "File not open")])
    | some (docId, _) =>
        match (self.doc? docId).bind DocEntry.canonFilename with
        | none => some (self, [.resp reqId (.error .ioError "Doc has no on-disk file")])
        | some path => do
            let (res, self, effects) ← self.resetDocFromDisk os (some reqId) path none
            let resp : Response :=
              match res with
              | .error err => .error .ioError err
              | .ok () => .resetFromDisk file
            some (self, effects ++ [.resp reqId resp])

def handleDisconnectFromFile (self : Server) (reqId : RequestId) (file : EditorFileDesc) : Turn :=
  match self.remoteDocs.getByEditorDesc file with
  | some (docId, _) =>
      ({ self with remoteDocs := self.remoteDocs.removeByEditorDesc file },
        [.send file.hostId (some reqId) (.stopSendingOps docId), .resp reqId .null])
  | none => (self, [.resp reqId .null])

def handleCloseFileFromEditor (os : Os) (self : Server) (reqId : RequestId)
    (editorFile : EditorFileDesc) (delete : Bool) : Turn :=
  let file := FileDesc.from editorFile
  if editorFile.hostId ≠ self.hostId then
    (self, [.send editorFile.hostId (some reqId) (.closeFile file delete)])
  else
    let (res, self, effects) := self.handleCloseFileLocally os file delete
    match res with
    | .error err => (self, effects ++ [.resp reqId (.error .ioError err)])
    | .ok subscribers =>
        (self, effects ++ [.resp reqId .null] ++
          (subscribers.filter (· ≠ self.hostId)).map fun subscriber =>
            .send subscriber none (closedMsg file delete))

/-! ## Requests on the server -/

def connectionState (self : Server) : ConnectionStateResp :=
  { connections := self.currentWorld.remotes.map fun remote =>
      { hostId := remote.1, status := remote.2.status, transport := remote.2.transport }
    accepting := (self.currentWorld.signaling.filter fun s => s.2.status == .bound).map Prod.fst
    live := self.docs.map fun entry =>
      { file := EditorFileDesc.new entry.2.fileDesc self.hostId
        subscribers := AssocMap.keys entry.2.subscribers
        filename := entry.2.name, seq := entry.2.engine.currentSeq }
    connected := self.remoteDocs.docs.map fun entry =>
      { file := EditorFileDesc.new entry.2.fileDesc entry.1.1, filename := entry.2.name }
    projects := self.projects.map fun proj => { name := proj.2.name, path := proj.2.root }
    trustedHosts := self.idealWorld.trusted
    permission := self.config.permission }

def handleUpdateConfigFromEditor (os : Os) (self : Server) (reqId : RequestId)
    (trustedHosts : List ServerId) (permission : List (ServerId × Permission)) : Turn :=
  let self :=
    { self with
      idealWorld := { self.idealWorld with trusted := trustedHosts }
      config := { self.config with trustedHosts, permission } }
  (self, [.fs .saveConfig,
    .resp reqId (if os.saveConfig then .null
      else .error .internalError "Failed to write config file")])

def handleDeclareProjects (os : Os) (self : Server) (reqId : RequestId)
    (projects : List ConfigProject) : Turn :=
  match projects.find? fun project => isReserved project.name with
  | some project =>
      (self, [.resp reqId (.error .badRequest
        s!"Project name {showText project.name} is reserved and cannot be used")])
  | none =>
      match expandProjectPaths os projects with
      | .error err => (self, [.resp reqId (.error .ioError err)])
      | .ok projects =>
          ({ self with projects := insertProjects self.projects projects }, [.resp reqId .null])

/-! ## The dispatcher -/

def remoteConnected (self : Server) (hostId : ServerId) : Bool :=
  (self.currentWorld.remote? hostId).any fun r => r.status == .connected

/-- Refuse a request to a host that is not connected. -/
def ifConnected (self : Server) (reqId : RequestId) (hostId : ServerId) (turn : Option Turn) :
    Option Turn :=
  if hostId = self.hostId || self.remoteConnected hostId then turn
  else some (self, [.resp reqId (.error .notConnected s!"Not connected to remote {hostId}")])

def handleEditorRequest (os : Os) (self : Server) (reqId : RequestId) (req : Request) :
    Option Turn :=
  match req with
  | .init => some (self, [.resp reqId (.init self.hostId)])
  | .connectionState => some (self, [.resp reqId (.connectionState self.connectionState)])
  | .listProjects hostId =>
      self.ifConnected reqId hostId <| some (self.listFilesFromEditor os reqId hostId none)
  | .listFiles dir =>
      self.ifConnected reqId dir.hostId <|
        some (self.listFilesFromEditor os reqId dir.hostId (some (FileDesc.from dir)))
  | .openFile file mode =>
      self.ifConnected reqId file.hostId <| some (self.openFileFromEditor os reqId file mode)
  | .makeDirectory file =>
      self.ifConnected reqId file.hostId <| some (self.makeDirectoryFromEditor os reqId file)
  | .sendOps ops file => self.handleSendOpsFromEditor reqId ops file
  | .undo file kind => self.handleUndoFromEditor reqId file kind
  | .shareFile filename content =>
      some (self.handleShareFileFromEditor os reqId filename content)
  | .updateConfig trustedHosts permission =>
      some (self.handleUpdateConfigFromEditor os reqId trustedHosts permission)
  | .declareProjects projects => some (self.handleDeclareProjects os reqId projects)
  | .moveFile hostId project oldPath newPath =>
      self.ifConnected reqId hostId <|
        some (self.handleMoveFileFromEditor os reqId hostId project oldPath newPath)
  | .saveFile file =>
      self.ifConnected reqId file.hostId <| some (self.handleSaveFileFromEditor os reqId file)
  | .resetFromDisk file =>
      self.ifConnected reqId file.hostId <| self.handleResetFromDiskFromEditor os reqId file
  | .disconnectFromFile file =>
      self.ifConnected reqId file.hostId <| some (self.handleDisconnectFromFile reqId file)
  | .closeFile file => some (self.handleCloseFileFromEditor os reqId file false)
  | .deleteFile file =>
      self.ifConnected reqId file.hostId <|
        some (self.handleCloseFileFromEditor os reqId file true)
  | .printHistory file =>
      match self.remoteDocs.getByEditorDesc file with
      | none => some (self, [.resp reqId (.error .ioError s!"File not found: {file.text}")])
      | some _ => some (self, [.resp reqId .printHistory])
  | .unknown _ => some (self, [])

/-- Pass information about a file on to those who have it open. -/
def handleSendInfoFromEditor (self : Server) (info : Text) (file : EditorFileDesc) : Turn :=
  match self.remoteDocs.getByEditorDesc file with
  | some (docId, _) =>
      (self, [.send file.hostId none
        (.infoFromClient { docId, sender := self.hostId, value := info })])
  | none => (self, [])

end Server

end CollabMode
