import CollabMode.Server

/-!
# Messages of peers

`handle_remote_message` of `server.rs` and the handlers it calls.  A handler takes
the server to the next one and returns what it does outside.  There is no next one
when it panics.

The handlers of ops are in two parts, one for the document and one that looks it up
and sends.  The part for a peer's document says which ops it asks for again and
leaves the messages to the other.
-/

namespace CollabMode

open UnixPath (Path)

def CollabError.text : CollabError → String
  | .docFatal msg => s!"Doc fatal error ({msg})"

/-! ## Ops of a host -/

namespace RemoteDoc

/-- The sequence number of the next op to keep. -/
def expectedGseq (self : RemoteDoc) : GlobalSeq :=
  self.engine.currentSeq + self.remoteOpBuffer.length + 1

/-- The loop over ops of the host.  Returns the sequence numbers after which to ask
for ops, and whether all ops had one. -/
def keepServerOps : List (FatOp Op) → RemoteDoc → Bool × List GlobalSeq × RemoteDoc
  | [], self => (true, [], self)
  | remoteOp :: ops, self =>
      let expectedGseq := self.expectedGseq
      match remoteOp.seq with
      | none => (false, [], self)
      | some gseq =>
          if gseq < expectedGseq then keepServerOps ops self
          else if gseq > expectedGseq then
            let (numbered, asked, self) := keepServerOps ops self
            (numbered, (expectedGseq - 1) :: asked, self)
          else
            keepServerOps ops { self with remoteOpBuffer := self.remoteOpBuffer ++ [remoteOp] }

end RemoteDoc

namespace Server

def handleOpFromServer (self : Server) (reqId : Option RequestId) (docId : DocId)
    (ops : List (FatOp Op)) (remoteHostId : ServerId) : Turn :=
  match ops with
  | [] => (self, [])
  | op :: _ =>
      match self.remoteDocs.get remoteHostId docId with
      | none => (self, [.send remoteHostId reqId (.stopSendingOps docId)])
      | some remoteDoc =>
          let opIsNotOurs := op.site != remoteDoc.engine.site
          let (numbered, asked, doc) := RemoteDoc.keepServerOps ops remoteDoc.toRemoteDoc
          let requests := asked.map fun after =>
            Effect.send remoteHostId reqId (.requestOps docId after)
          if !numbered then
            -- The notification is sent when the op without a number comes up.
            ({ self with remoteDocs := (self.remoteDocs.remove remoteHostId docId).2 },
              requests ++ [.notif (.errorResponse .docFatal (some remoteDoc.fileDesc)
                "Received remote op without global seq, terminating doc")])
          else
            let grew := doc.remoteOpBuffer.length > remoteDoc.remoteOpBuffer.length
            let arrived : List Effect :=
              match doc.remoteOpBuffer.getLast?.bind FatOp.seq with
              | some lastSeq =>
                  if opIsNotOurs && grew then
                    [.notif (.remoteOpsArrived
                      (EditorFileDesc.new remoteDoc.fileDesc remoteHostId) lastSeq)]
                  else []
              | none => []
            ({ self with
                remoteDocs :=
                  self.remoteDocs.set remoteHostId docId { remoteDoc with toRemoteDoc := doc } },
              requests ++ arrived)

/-! ## Ops of a client -/

/-- Send ops to all subscribers. -/
def broadcastOps (doc : Doc) (reqId : Option RequestId) (docId : DocId)
    (ops : List (FatOp Op)) : List Effect :=
  (AssocMap.keys doc.subscribers).map fun host => .send host reqId (.opFromServer docId ops)

/-- Process the ops of a client that passed the checks. -/
def acceptOps (self : Server) (reqId : Option RequestId) (docId : DocId) (doc : DocEntry)
    (contextOps : ContextOps) (remoteHostId : ServerId) :
    Option (Except CollabError Unit × Turn) := do
  let (processedOps, engine) := doc.engine.processOps contextOps.ops contextOps.context
  let subscribers :=
    match contextOps.ops.getLast? with
    | some lastOp => AssocMap.insert doc.subscribers remoteHostId lastOp.siteSeq
    | none => doc.subscribers
  let (res, applied) ← Doc.applyOps processedOps { doc.toDoc with engine, subscribers }
  let self := self.setDoc docId { doc with toDoc := applied }
  match res with
  | .error err => some (.error err, self, [])
  | .ok () => some (.ok (), self, broadcastOps applied reqId docId processedOps)

def handleOpFromClient (self : Server) (reqId : Option RequestId) (contextOps : ContextOps)
    (remoteHostId : ServerId) : Option (Except CollabError Unit × Turn) :=
  let docId := contextOps.doc
  let refuse (msg : Msg) : Option (Except CollabError Unit × Turn) :=
    some (.ok (), self, [.send remoteHostId reqId msg])
  if !self.config.writeAllowed remoteHostId then
    refuse (.permissionDenied "Write permission denied")
  else
    match self.doc? docId with
    | none => refuse (.badRequest s!"Doc {docId} not found")
    | some doc =>
        match AssocMap.get doc.subscribers remoteHostId with
        | none => refuse (.badRequest s!"Doc {showText doc.name} ({docId}) not open")
        | some lastSeq =>
            let expectedSeq := lastSeq + 1
            -- Only the first op of the batch is looked at.
            match contextOps.ops.head? with
            | none => self.acceptOps reqId docId doc contextOps remoteHostId
            | some firstOp =>
                if firstOp.siteSeq ≠ expectedSeq then
                  let expected := expectedSeq
                  let got := firstOp.siteSeq
                  refuse (.docFatal docId s!"Site seq mismatch: expected {expected}, got {got}")
                else self.acceptOps reqId docId doc contextOps remoteHostId

def handleRequestOps (self : Server) (reqId : Option RequestId) (docId : DocId)
    (after : GlobalSeq) (remoteHostId : ServerId) : Turn :=
  match self.doc? docId with
  | none => (self, [.send remoteHostId reqId (.badRequest s!"Doc {docId} not found")])
  | some doc =>
      let self := self.setDoc docId
        { doc with subscribers := AssocMap.insert doc.subscribers remoteHostId 0 }
      let ops := doc.engine.globalOpsAfter after
      (self,
        if ops.isEmpty then [] else [.send remoteHostId reqId (.opFromServer docId ops)])

/-! ## Files of this host -/

def handleRequestFile (os : Os) (self : Server) (reqId : Option RequestId) (fileDesc : FileDesc)
    (remoteHostId : ServerId) (mode : OpenMode) : Turn :=
  match self.pathIdFromFileDesc fileDesc with
  | .error err => (self, [.send remoteHostId reqId (.errorResp .ioError (some fileDesc) err)])
  | .ok pathId =>
      let (siteId, self) := self.siteIdOf remoteHostId
      match fileDesc with
      | .project _ =>
          (self, [.send remoteHostId reqId (.badRequest "Cannot open a project directory")])
      | .projectFile project file =>
          -- The requester is not a subscriber before it asks for ops.
          match self.findDoc pathId with
          | some (docId, doc) =>
              (self, [.send remoteHostId reqId (.snapshot
                { content := doc.buffer, internalDoc := doc.engine.internalDoc, name := doc.name
                  seq := doc.engine.currentSeq, siteId, fileDesc, docId })])
          | none =>
              let createAllowed := self.config.createAllowed remoteHostId
              let (res, calls) := self.openFileFromDisk os project file mode createAllowed
              match res with
              | .error (code, err) =>
                  (self, calls.map Effect.fs ++
                    [.send remoteHostId reqId (.errorResp code (some fileDesc) err)])
              | .ok (content, fullPath) =>
                  let name := (UnixPath.fileName file).getD file
                  let doc := DocEntry.new os name (.path fullPath) fileDesc content
                    (ServerEngine.new (utf8Len content)) (some fullPath)
                  let (docId, self) := self.addDoc doc
                  (self, (calls ++ DocEntry.newCalls (.path fullPath)).map Effect.fs ++
                    [.send remoteHostId reqId (.snapshot
                      { content, internalDoc := InternalDoc.new content.length, name, seq := 0
                        siteId, fileDesc, docId }),
                      self.watchFiles])

def handleSnapshot (self : Server) (reqId : RequestId) (snapshot : NewSnapshot)
    (remoteHostId : ServerId) : Turn :=
  match self.remoteDocs.docs.find? fun entry =>
      entry.1.1 == remoteHostId && entry.2.fileDesc == snapshot.fileDesc with
  | some (_, remoteDoc) =>
      (self, [.resp reqId (.error .badRequest
        s!"File {showText remoteDoc.name} is already opened from {remoteHostId}")])
  | none =>
      let remoteDoc : RemoteDocEntry :=
        { toRemoteDoc := RemoteDoc.new snapshot.content
            (ClientEngine.new snapshot.siteId snapshot.seq snapshot.internalDoc)
          name := snapshot.name, fileDesc := snapshot.fileDesc }
      let editorFileDesc := EditorFileDesc.new snapshot.fileDesc remoteHostId
      ({ self with
          remoteDocs :=
            self.remoteDocs.insert remoteHostId snapshot.docId remoteDoc editorFileDesc },
        [.resp reqId (.openFile snapshot.content snapshot.siteId snapshot.name editorFileDesc),
          .send remoteHostId (some reqId) (.requestOps snapshot.docId snapshot.seq)])

/-- Take over what another program wrote to a file. -/
def resetDocFromDisk (os : Os) (self : Server) (reqId : Option RequestId) (path : Path)
    (timestamp : Option Instant) : Option (Except String Unit × Turn) :=
  let found := self.docs.find? fun entry =>
    match entry.2.canonFilename with
    | some canonFilename => UnixPath.same canonFilename path
    | none => false
  match found with
  | none => some (.ok (), self, [])
  | some (docId, doc) =>
      -- What was written before the last save is what was saved.
      if timestamp.any (· ≤ doc.lastSavedAt) then some (.ok (), self, [])
      else
        let calls := [Effect.fs (.open path false)]
        match os.openFile path false with
        | .notOpened => some (.error s!"Re-opening {showPath path}", self, calls)
        | .opened _ none => some (.error s!"Reading {showPath path}", self, calls)
        | .opened _ (some newContent) => do
            let chunks := os.diff doc.buffer newContent
            let (ops, _) := chunksToOps chunks externalProcessSiteId doc.nextExternalSiteSeq
            let (res, reset) ← doc.toDoc.resetFromDisk chunks
            let diskFile := if ops.isEmpty then doc.diskFile else some path
            let self := self.setDoc docId { doc with toDoc := reset, diskFile }
            match res with
            | .error err => some (.error err.text, self, calls)
            | .ok processed =>
                let sent := if ops.isEmpty then [] else broadcastOps reset reqId docId processed
                some (.ok (), self, calls ++ sent)

def handleMoveFile (os : Os) (self : Server) (reqId : Option RequestId) (project : ProjectId)
    (oldPath newPath : Text) (remoteHostId : ServerId) : Turn :=
  let (res, self, calls) := self.moveFileOnDisk os project oldPath newPath
  match res with
  | .error err =>
      (self, calls.map Effect.fs ++ [.send remoteHostId reqId (.errorResp .ioError none err)])
  | .ok subscribers =>
      (self, calls.map Effect.fs ++ subscribers.map fun subscriber =>
        .send subscriber (if remoteHostId = subscriber then reqId else none)
          (.fileMoved project oldPath newPath))

def closedMsg (file : FileDesc) (delete : Bool) : Msg :=
  if delete then .fileDeleted file else .fileClosed file

def handleCloseFileFromRemote (os : Os) (self : Server) (reqId : Option RequestId)
    (fileDesc : FileDesc) (requester : ServerId) (delete : Bool) : Turn :=
  if !self.config.deleteAllowed requester then
    (self, [.send requester reqId
      (.permissionDenied "Permission denied for deleting/closing file")])
  else
    let (res, self, effects) := self.handleCloseFileLocally os fileDesc delete
    let msg := closedMsg fileDesc delete
    match res with
    | .error err =>
        (self, effects ++ [.send requester reqId (.errorResp .ioError (some fileDesc) err)])
    | .ok subscribers =>
        let told := subscribers.filterMap fun subscriber =>
          if subscriber = requester then some (Effect.send subscriber reqId msg)
          else if subscriber ≠ self.hostId then some (.send subscriber none msg)
          else none
        -- The requester gets an answer also when it is no subscriber.
        let answer :=
          if subscribers.contains requester then [] else [Effect.send requester reqId msg]
        (self, effects ++ told ++ answer)

/-- Send `info` to all subscribers but the one it comes from. -/
def broadcastInfo (self : Server) (reqId : Option RequestId) (info : Info) :
    Except String (List Effect) :=
  match self.doc? info.docId with
  | none => .error s!"Doc {info.docId} not found"
  | some doc =>
      .ok <| ((AssocMap.keys doc.subscribers).filter (· ≠ info.sender)).map fun host =>
        .send host reqId (.infoFromServer info)

/-! ## Connections -/

/-- An attempt to connect failed, or a connection broke.  Only peers that were once
connected are tried again. -/
def attemptFailed (os : Os) (self : Server) (peer : ServerId) (connectionId : ConnectionId)
    (reason noteReason : String) : Turn :=
  if self.currentWorld.isStaleConnectionAttempt peer connectionId then (self, [])
  else
    let note := Effect.notif (.connectionBroke peer noteReason)
    if (self.currentWorld.remote? peer).any RemoteState.everConnected then
      ({ self with currentWorld := self.currentWorld.markRemoteDisconnected os.now peer },
        [.fixWorldNext, note])
    else
      ({ self with currentWorld := self.currentWorld.markRemoteFailed peer reason }, [note])

def handleHey (os : Os) (self : Server) (hey : HeyMessage) (host : ServerId) : Turn :=
  let self :=
    { self with
      currentWorld := self.currentWorld.markRemoteConnected host
      config := { self.config with trustedHosts := self.idealWorld.trusted } }
  let failed :=
    if os.saveConfig then []
    else
      [Effect.notif (.unimportantError host "Failed to save new trusted host to config file, ")]
  (self, [.notif (.connected host hey.message), .fs .saveConfig] ++ failed)

/-- The peer is shutting down. -/
def handleBye (self : Server) (host : ServerId) : Turn :=
  ({ self with currentWorld := self.currentWorld.removeRemote host },
    [.disconnect host, .fixWorldNext, .notif (.remoteLeft host "Peer said goodbye")])

/-! ## The dispatcher -/

/-- Refuse a message for which the sender needs write permission. -/
def ifWriteAllowed (self : Server) (msg : Message) (turn : Option Turn) : Option Turn :=
  if self.config.writeAllowed msg.host then turn
  else
    some (self, [.send msg.host msg.reqId (.permissionDenied "Write permission denied")])

/-- Refuse a message that has to be a request or an answer to one. -/
def missingReqId (self : Server) (msg : Message) : Turn :=
  (self, [.send msg.host none (.badRequest "Missing req_id")])

def handleMakeDirectory (os : Os) (self : Server) (reqId : Option RequestId)
    (fileDesc : FileDesc) (remoteHostId : ServerId) : Turn :=
  match fileDesc with
  | .project id =>
      (self, [.send remoteHostId reqId (.errorResp .badRequest (some fileDesc)
        s!"Cannot create project root as directory: {showText id}")])
  | .projectFile project file =>
      let (res, calls) := self.makeDirectoryOnDisk os project file
      let reply : Msg :=
        match res with
        | .error err => .errorResp .ioError (some fileDesc) err
        | .ok () => .directoryMade fileDesc
      (self, calls.map Effect.fs ++ [.send remoteHostId reqId reply])

def handleSaveFile (os : Os) (self : Server) (reqId : Option RequestId) (docId : DocId)
    (remoteHostId : ServerId) : Turn :=
  let (res, self, calls) := self.saveFileToDisk os docId
  let reply : Msg :=
    match res with
    | .error err => .errorResp .ioError ((self.doc? docId).map DocEntry.fileDesc) err
    | .ok () => .fileSaved docId
  (self, calls.map Effect.fs ++ [.send remoteHostId reqId reply])

def handleResetFromDisk (os : Os) (self : Server) (reqId : Option RequestId) (docId : DocId)
    (remoteHostId : ServerId) : Option Turn :=
  let fileDesc := (self.doc? docId).map DocEntry.fileDesc
  match (self.doc? docId).bind DocEntry.canonFilename with
  | none =>
      some (self, [.send remoteHostId reqId
        (.errorResp .ioError fileDesc s!"Doc {docId} not found or has no path")])
  | some path => do
      let (res, self, effects) ← self.resetDocFromDisk os reqId path none
      match res with
      | .error err =>
          some (self, effects ++ [.send remoteHostId reqId (.errorResp .ioError fileDesc err)])
      | .ok () => some (self, effects)

def handleStopSendingOps (self : Server) (docId : DocId) (remoteHostId : ServerId) : Turn :=
  match self.doc? docId with
  | none => (self, [])
  | some doc =>
      (self.setDoc docId
        { doc with subscribers := AssocMap.erase doc.subscribers remoteHostId }, [])

def handleDocFatal (self : Server) (docId : DocId) (reason : String) (remoteHostId : ServerId) :
    Turn :=
  let (removed, remoteDocs) := self.remoteDocs.remove remoteHostId docId
  ({ self with remoteDocs },
    [.notif (.errorResponse .docFatal (removed.map RemoteDocEntry.fileDesc) reason)])

def handleRemoteMessage (os : Os) (self : Server) (msg : Message) : Option Turn :=
  let host := msg.host
  match msg.body with
  | .iceProgress peer progress =>
      some (self, [.notif (.connectionProgress (some peer) progress)])
  | .failedToConnect peer reason connectionId =>
      some (self.attemptFailed os peer connectionId reason reason)
  | .connectionBroke peer connectionId =>
      some (self.attemptFailed os peer connectionId "broke before reaching Connected" "")
  | .hey hey => some (self.handleHey os hey host)
  | .listFiles dir =>
      match msg.reqId with
      | none => some (self.missingReqId msg)
      | some _ =>
          let (res, calls) := self.listFilesFromDisk os dir
          let reply : Msg :=
            match res with
            | .ok files => .fileList files
            | .error err => .errorResp .ioError dir err
          some (self, calls.map Effect.fs ++ [.send host msg.reqId reply])
  | .fileList files =>
      match msg.reqId with
      | none =>
          some (self, [.notif (.unimportantError host
            s!"Received file list from remote {host}, but without req_id")])
      | some reqId => some (self, [.resp reqId (.listFiles files)])
  | .errorResp code file message =>
      match msg.reqId with
      | some reqId => some (self, [.resp reqId (.error code message)])
      | none => some (self, [.notif (.errorResponse code file message)])
  | .requestFile file mode =>
      match msg.reqId with
      | none => some (self.missingReqId msg)
      | some _ => some (self.handleRequestFile os msg.reqId file host mode)
  | .snapshot snapshot =>
      match msg.reqId with
      | none => some (self, [])
      | some reqId => some (self.handleSnapshot reqId snapshot host)
  | .makeDirectory file =>
      self.ifWriteAllowed msg <| some (self.handleMakeDirectory os msg.reqId file host)
  | .directoryMade file =>
      match msg.reqId with
      | none => some (self, [])
      | some reqId => some (self, [.resp reqId (.makeDirectory (EditorFileDesc.new file host))])
  | .opFromClient ops => (self.handleOpFromClient msg.reqId ops host).map Prod.snd
  | .opFromServer doc ops => some (self.handleOpFromServer msg.reqId doc ops host)
  | .requestOps doc after => some (self.handleRequestOps msg.reqId doc after host)
  | .moveFile project source dest =>
      self.ifWriteAllowed msg <|
        some (self.handleMoveFile os msg.reqId project source dest host)
  | .fileMoved project oldPath newPath =>
      match msg.reqId with
      | some reqId => some (self, [.resp reqId (.moveFile host project oldPath newPath)])
      | none => some (self, [.notif (.fileMoved host project oldPath newPath)])
  | .saveFile doc => self.ifWriteAllowed msg <| some (self.handleSaveFile os msg.reqId doc host)
  | .resetFromDisk doc =>
      self.ifWriteAllowed msg <| self.handleResetFromDisk os msg.reqId doc host
  | .fileSaved doc =>
      match msg.reqId with
      | none => some (self.missingReqId msg)
      | some reqId =>
          match self.remoteDocs.get host doc with
          | some remoteDoc =>
              some (self, [.resp reqId
                (.saveFile (EditorFileDesc.new remoteDoc.fileDesc host))])
          | none => some (self, [])
  | .stopSendingOps doc => some (self.handleStopSendingOps doc host)
  | .closeFile file delete =>
      some (self.handleCloseFileFromRemote os msg.reqId file host delete)
  | .fileDeleted file =>
      let file := EditorFileDesc.new file host
      match msg.reqId with
      | some reqId => some (self, [.resp reqId (.deleteFile file)])
      | none => some (self, [.notif (.fileDeleted file)])
  | .fileClosed file => some (self, [.notif (.fileClosed (EditorFileDesc.new file host))])
  | .infoFromClient info =>
      match self.broadcastInfo msg.reqId info with
      | .ok sent => some (self, sent)
      | .error _ => some (self, [])
  | .infoFromServer info =>
      match self.remoteDocs.get host info.docId with
      | some remoteDoc =>
          let file := EditorFileDesc.new remoteDoc.fileDesc host
          if os.isJson info.value then
            some (self, [.notif (.infoReceived file info.value info.sender)])
          else some (self, [])
      | none => some (self, [.send host msg.reqId (.stopSendingOps info.docId)])
  | .permissionDenied reason =>
      match msg.reqId with
      | some reqId => some (self, [.resp reqId (.error .permissionDenied reason)])
      | none => some (self, [.notif (.internalError (some host) reason)])
  | .docFatal doc reason => some (self.handleDocFatal doc reason host)
  | .bye => some (self.handleBye host)
  | .shareSingleFile _ _ | .fileShared _ | .info _ | .envoyInit _ _ _ | .envoyInitError _
  | .serializationErr _ | .badRequest _ =>
      some (self, [.notif (.internalError (some host)
        s!"Unrecognized message type from {host}: {reprStr msg.body}")])

end Server

end CollabMode
