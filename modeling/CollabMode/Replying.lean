import CollabMode.Hosting

/-!
# Questions and replies

A request of the editor for a file of another host is a question to that host.  The
reply carries the id of the request and is turned into the answer.

`Server.settles` says when this goes well.  It does not when the host is asked to open a
project, since the refusal is not taken for a reply; when a file is moved that the
client has no part of open, since only subscribers are told; when a file is closed
without being deleted, since the message that says so is only noted; and when the client
has lost the file that was saved.  A reset is answered before the host is asked, and must
not fail.

A handler that panics ends the server, and nothing is answered.  `Server.survives` says
when a request leads to no panic.
-/

namespace CollabMode

/-! ## Questions and replies -/

/-- What a message between servers does for a request of the editor. -/
inductive Role where
  /-- The request is passed on, and is answered when the host replies. -/
  | question
  /-- The message is turned into an answer when it has a request id. -/
  | reply
  /-- The request has its answer already, and the host replies when it refuses. -/
  | reset
  /-- Ops are refused with a reply, and are never sent with a request id. -/
  | batch
  | other
deriving DecidableEq, Repr

def Msg.role : Msg → Role
  | .listFiles _ | .requestFile _ _ | .makeDirectory _ | .moveFile _ _ _ | .saveFile _
  | .closeFile _ _ => .question
  | .fileList _ | .errorResp _ _ _ | .snapshot _ | .directoryMade _ | .fileMoved _ _ _
  | .fileSaved _ | .fileDeleted _ | .permissionDenied _ => .reply
  | .resetFromDisk _ => .reset
  | .opFromClient _ => .batch
  | _ => .other

/-- The message refuses something. -/
def Msg.isRefusal : Msg → Bool
  | .errorResp _ _ _ | .permissionDenied _ => true
  | _ => false

theorem Msg.role_of_isRefusal {msg : Msg} (h : msg.isRefusal = true) : msg.role = .reply := by
  cases msg with
  | errorResp | permissionDenied => rfl
  | _ => cases h

/-- The host that a request of the editor is passed on to. -/
def Request.dest? : Request → Option ServerId
  | .listProjects hostId | .moveFile hostId _ _ _ => some hostId
  | .listFiles file | .openFile file _ | .makeDirectory file | .saveFile file
  | .resetFromDisk file | .disconnectFromFile file | .closeFile file | .deleteFile file =>
      some file.hostId
  | _ => none

def Request.isKnown : Request → Bool
  | .unknown _ => false
  | _ => true

/-! ## When the host replies -/

/-- A move of the path takes the document along. -/
def DocEntry.movesWith (os : Os) (self : DocEntry) (oldFullPath : UnixPath.Path) : Bool :=
  match self.absFilename with
  | .buffer _ => false
  | .path path =>
      UnixPath.same path oldFullPath ||
        UnixPath.startsWith path oldFullPath && (os.diffPaths path oldFullPath).isSome

namespace Server

/-- The project of the file can be looked up. -/
def knows (self : Server) : FileDesc → Bool
  | .project id => (AssocMap.get self.projects id).isSome
  | .projectFile project _ => isReserved project || (AssocMap.get self.projects project).isSome

/-- Moving the file goes well. -/
def canMove (os : Os) (self : Server) (project : ProjectId) (oldPath newPath : Text) : Bool :=
  match AssocMap.get self.projects project with
  | none => false
  | some proj =>
      let newFullPath := UnixPath.join proj.root newPath
      !os.pathExists newFullPath && (UnixPath.parent newFullPath).all os.createDirAll &&
        os.rename (UnixPath.join proj.root oldPath) newFullPath &&
        self.docs.all fun entry => !entry.2.absFilename.isBuffer

/-- The host has a document open that moves with the file. -/
def followsMove (os : Os) (self : Server) (host : ServerId) (project : ProjectId)
    (oldPath : Text) : Bool :=
  match AssocMap.get self.projects project with
  | none => false
  | some proj =>
      self.docs.any fun entry =>
        entry.2.movesWith os (UnixPath.join proj.root oldPath) &&
          (AssocMap.keys entry.2.subscribers).contains host

/-- The document that is saved at a path. -/
def docOfFile (self : Server) (path : UnixPath.Path) : Option (DocId × DocEntry) :=
  self.docs.find? fun entry => entry.2.canonFilename.any (UnixPath.same · path)

/-- The document can be read again from its file, and takes over what is there. -/
def canReset (os : Os) (self : Server) (docId : DocId) : Bool :=
  match (self.doc? docId).bind DocEntry.canonFilename with
  | none => false
  | some path =>
      match self.docOfFile path, os.openFile path false with
      | none, _ => true
      | some (_, doc), .opened _ (some newContent) =>
          (doc.toDoc.resetFromDisk (os.diff doc.buffer newContent)).all fun reset =>
            match reset.1 with
            | .ok _ => true
            | .error _ => false
      | some _, _ => false

/-- Reading the document again does not panic. -/
def rereads (os : Os) (self : Server) (docId : DocId) : Bool :=
  ((self.doc? docId).bind DocEntry.canonFilename).all fun path =>
    match self.docOfFile path, os.openFile path false with
    | some (_, doc), .opened _ (some newContent) =>
        (doc.toDoc.resetFromDisk (os.diff doc.buffer newContent)).isSome
    | _, _ => true

/-- The request does not make the server panic. -/
def survives (os : Os) (self : Server) : Request → Bool
  | .sendOps ops file =>
      (self.remoteDocs.getByEditorDesc file).all fun entry =>
        (entry.2.toRemoteDoc.sendOps entry.1 ops).isSome
  | .undo file .undo =>
      (self.remoteDocs.getByEditorDesc file).all fun entry => entry.2.engine.generateUndoOp.isSome
  | .undo file .redo =>
      (self.remoteDocs.getByEditorDesc file).all fun entry => entry.2.engine.generateRedoOp.isSome
  | .resetFromDisk file =>
      file.hostId ≠ self.hostId ||
        (self.remoteDocs.getByEditorDesc file).all fun entry => self.rereads os entry.1
  | _ => true

/-- The request is a reset that is passed on to the host of the file. -/
def forwardsReset (self : Server) : Request → Bool
  | .resetFromDisk file =>
      file.hostId ≠ self.hostId && self.remoteConnected file.hostId &&
        (self.remoteDocs.getByEditorDesc file).isSome
  | _ => false

/-- The message of `sender` is replied to if the sender waits for a reply, and is turned
into an answer if the editor waits for one. -/
def settles (os : Os) (self : Server) (sender : ServerId) : Msg → Bool
  | .requestFile (.project id) _ => (AssocMap.get self.projects id).isNone
  | .moveFile project oldPath newPath =>
      !self.config.writeAllowed sender || !self.canMove os project oldPath newPath ||
        self.followsMove os sender project oldPath
  | .closeFile file false => !self.config.deleteAllowed sender || !self.knows file
  -- The editor has its answer already.
  | .resetFromDisk docId => self.config.writeAllowed sender && self.canReset os docId
  | .fileSaved docId => (self.remoteDocs.get sender docId).isSome
  | _ => true

theorem settles_of_other (os : Os) (self : Server) {msg : Msg} (h : msg.role = .other)
    (sender : ServerId) : self.settles os sender msg = true := by
  cases msg with
  | listFiles | requestFile | makeDirectory | moveFile | saveFile | closeFile | fileList
  | errorResp | snapshot | directoryMade | fileMoved | fileSaved | fileDeleted
  | permissionDenied | resetFromDisk | opFromClient => cases h
  | _ => rfl

/-! ## Moves and closed files -/

/-- The hosts to tell of a move are those that have a moved document open. -/
theorem moveDocs_ok {os : Os} {oldFullPath newFullPath : UnixPath.Path}
    {docs : List (DocId × DocEntry)} {hosts : List ServerId}
    (h : (moveDocs os oldFullPath newFullPath docs).1 = .ok hosts) :
    (docs.all fun entry => !entry.2.absFilename.isBuffer) = true ∧ hosts.Nodup ∧
      ∀ host, host ∈ hosts ↔ ∃ entry ∈ docs, entry.2.movesWith os oldFullPath = true ∧
        host ∈ AssocMap.keys entry.2.subscribers := by
  induction docs generalizing hosts with
  | nil =>
      cases h
      simp
  | cons entry docs ih =>
      obtain ⟨docId, doc⟩ := entry
      simp only [moveDocs] at h
      split at h
      next => cases h
      next absFilename hpath =>
          have hfile : doc.absFilename.isBuffer = false := by rw [hpath]; rfl
          split at h
          next hstays =>
              obtain ⟨hfiles, hnodup, hhosts⟩ := ih h
              have hstays : doc.movesWith os oldFullPath = false := by
                simp only [DocEntry.movesWith, hpath]
                split at hstays
                next => cases hstays
                next hsame =>
                    split at hstays
                    next hunder => simp [hsame, Option.map_eq_none_iff.mp hstays]
                    next hunder => simp [hsame, hunder]
              refine ⟨by simpa [hfile] using hfiles, hnodup, fun host => ?_⟩
              simp [hhosts host, hstays]
          next path hmoved =>
              obtain ⟨rest, hrest, rfl⟩ :
                  ∃ rest, (moveDocs os oldFullPath newFullPath docs).1 = .ok rest ∧
                    AssocMap.keys doc.subscribers ∪ rest = hosts := by
                cases hrest : (moveDocs os oldFullPath newFullPath docs).1 with
                | error err => rw [hrest] at h; cases h
                | ok rest =>
                    rw [hrest] at h
                    exact ⟨rest, rfl, Except.ok.inj h⟩
              obtain ⟨hfiles, hnodup, hhosts⟩ := ih hrest
              have hmoves : doc.movesWith os oldFullPath = true := by
                simp only [DocEntry.movesWith, hpath]
                split at hmoved
                next hsame => simp [hsame]
                next =>
                    split at hmoved
                    next hunder =>
                        obtain ⟨diff, hdiff, _⟩ := Option.map_eq_some_iff.mp hmoved
                        simp [hunder, hdiff]
                    next => cases hmoved
              refine ⟨by simpa [hfile] using hfiles, List.Nodup.union _ hnodup, fun host => ?_⟩
              simp [hhosts host, hmoves]

theorem moveCalls_ok {os : Os} {oldFullPath newFullPath : UnixPath.Path}
    (h : (moveCalls os oldFullPath newFullPath).1 = .ok ()) :
    os.pathExists newFullPath = false ∧
      (UnixPath.parent newFullPath).all os.createDirAll = true ∧
      os.rename oldFullPath newFullPath = true := by
  have hunless {ok : Bool} {err : String} (h : failUnless ok err = .ok ()) : ok = true := by
    unfold failUnless at h
    split at h
    next hok => exact hok
    next => cases h
  simp only [moveCalls] at h
  split at h
  next => cases h
  next hfree =>
      refine ⟨by simpa using hfree, ?_⟩
      cases hparent : UnixPath.parent newFullPath with
      | none =>
          simp only [hparent] at h
          exact ⟨rfl, hunless h⟩
      | some parent =>
          simp only [hparent] at h
          split at h
          next => cases h
          next hmade => exact ⟨hunless hmade, hunless h⟩

theorem moveFileOnDisk_ok {os : Os} {self : Server} {project : ProjectId} {oldPath newPath : Text}
    {hosts : List ServerId}
    (h : (self.moveFileOnDisk os project oldPath newPath).1 = .ok hosts) :
    self.canMove os project oldPath newPath = true ∧ hosts.Nodup ∧
      ∀ host, host ∈ hosts ↔ self.followsMove os host project oldPath = true := by
  simp only [moveFileOnDisk, project?] at h
  cases hproj : AssocMap.get self.projects project with
  | none => rw [hproj] at h; cases h
  | some proj =>
      simp only [hproj] at h
      split at h
      next => cases h
      next hcalls =>
          obtain ⟨hfiles, hnodup, hhosts⟩ := moveDocs_ok h
          refine ⟨?_, hnodup, fun host => ?_⟩
          · obtain ⟨hfree, hmade, hrenamed⟩ := moveCalls_ok hcalls
            simp [canMove, hproj, hfree, hmade, hrenamed, hfiles]
          · simp [followsMove, hproj, hhosts host]

/-- A file can be closed when its project can be looked up. -/
theorem knows_of_found {self : Server} {file : FileDesc}
    {found : List DocId × Option UnixPath.Path × List ServerId}
    (h : self.findDocsAndPathToDelete file = .ok found) : self.knows file = true := by
  have hproject {id : ProjectId} {proj : Project} (h : self.project? id = .ok proj) :
      (AssocMap.get self.projects id).isSome = true := by
    unfold project? at h
    split at h
    next hproj => rw [hproj]; rfl
    next => cases h
  cases file with
  | project id =>
      simp only [findDocsAndPathToDelete] at h
      split at h
      next => cases h
      next hproj => exact hproject hproj
  | projectFile project path =>
      simp only [findDocsAndPathToDelete] at h
      split at h
      next hreserved => simp [knows, hreserved]
      next =>
          split at h
          next => cases h
          next hproj => simp [knows, hproject hproj]

/-- The search of `reset_doc_from_disk`. -/
theorem find?_docOfFile (self : Server) (path : UnixPath.Path) :
    (self.docs.find? fun entry =>
      match entry.2.canonFilename with
      | some canonFilename => UnixPath.same canonFilename path
      | none => false) = self.docOfFile path := by
  refine congrArg (List.find? · self.docs) (funext fun entry => ?_)
  cases entry.2.canonFilename <;> rfl

/-- A reset that fails can be told from the document and its file. -/
theorem canReset_of_error {os : Os} {self after : Server} {reqId : Option RequestId}
    {docId : DocId} {path : UnixPath.Path} {err : String} {effects : List Effect}
    (hpath : (self.doc? docId).bind DocEntry.canonFilename = some path)
    (h : self.resetDocFromDisk os reqId path none = some (.error err, after, effects)) :
    self.canReset os docId = false := by
  simp only [resetDocFromDisk] at h
  simp only [canReset, hpath]
  split at h
  next => cases h
  next k doc hfind =>
      have hfind : self.docOfFile path = some (k, doc) :=
        (self.find?_docOfFile path).symm.trans hfind
      rw [if_neg (by simp)] at h
      split at h
      next hopen => simp [hfind, hopen]
      next hopen => simp [hfind, hopen]
      next content hopen =>
          simp only [Option.bind_eq_bind, Option.bind_eq_some_iff, Prod.exists] at h
          obtain ⟨res, reset, hreset, h⟩ := h
          cases res with
          | error err => simp [hfind, hopen, hreset]
          | ok processed => cases h

/-- Without a buffer among the documents the move goes well. -/
theorem exists_moveDocs (os : Os) (oldFullPath newFullPath : UnixPath.Path)
    {docs : List (DocId × DocEntry)}
    (h : (docs.all fun entry => !entry.2.absFilename.isBuffer) = true) :
    ∃ hosts, (moveDocs os oldFullPath newFullPath docs).1 = .ok hosts := by
  induction docs with
  | nil => exact ⟨[], rfl⟩
  | cons entry docs ih =>
      obtain ⟨docId, doc⟩ := entry
      rw [List.all_cons, Bool.and_eq_true] at h
      obtain ⟨hosts, hhosts⟩ := ih h.2
      cases hfile : doc.absFilename with
      | buffer name => simp [hfile, PathId.isBuffer] at h
      | path absFilename =>
          simp only [moveDocs, hfile, hhosts]
          split
          next => exact ⟨hosts, rfl⟩
          next => exact ⟨_, rfl⟩

theorem moveCalls_of {os : Os} {oldFullPath newFullPath : UnixPath.Path}
    (hfree : os.pathExists newFullPath = false)
    (hmade : (UnixPath.parent newFullPath).all os.createDirAll = true)
    (hrenamed : os.rename oldFullPath newFullPath = true) :
    (moveCalls os oldFullPath newFullPath).1 = .ok () := by
  cases hparent : UnixPath.parent newFullPath with
  | none => simp [moveCalls, hfree, hparent, hrenamed, failUnless]
  | some parent =>
      rw [hparent, Option.all_some] at hmade
      simp [moveCalls, hfree, hparent, hmade, hrenamed, failUnless]

theorem exists_moveFileOnDisk {os : Os} {self : Server} {project : ProjectId}
    {oldPath newPath : Text} (h : self.canMove os project oldPath newPath = true) :
    ∃ hosts, (self.moveFileOnDisk os project oldPath newPath).1 = .ok hosts := by
  cases hproj : AssocMap.get self.projects project with
  | none => simp [canMove, hproj] at h
  | some proj =>
      simp only [canMove, hproj, Bool.and_eq_true, Bool.not_eq_true'] at h
      obtain ⟨⟨⟨hfree, hmade⟩, hrenamed⟩, hfiles⟩ := h
      obtain ⟨hosts, hhosts⟩ := exists_moveDocs os (UnixPath.join proj.root oldPath)
        (UnixPath.join proj.root newPath) hfiles
      exact ⟨hosts, by simp [moveFileOnDisk, project?, hproj, moveCalls_of hfree hmade hrenamed,
        hhosts]⟩

/-- A file can be closed when its project can be looked up. -/
theorem exists_found {self : Server} {file : FileDesc} (h : self.knows file = true) :
    ∃ found, self.findDocsAndPathToDelete file = .ok found := by
  cases file with
  | project id =>
      obtain ⟨proj, hproj⟩ := Option.isSome_iff_exists.mp h
      exact ⟨_, by simp [findDocsAndPathToDelete, project?, hproj]; rfl⟩
  | projectFile project path =>
      cases hreserved : isReserved project with
      | true =>
          obtain ⟨pathId, hpath⟩ : ∃ pathId,
              self.pathIdFromFileDesc (.projectFile project path) = .ok pathId := by
            simp only [isReserved, Bool.or_eq_true, beq_iff_eq] at hreserved
            rcases hreserved with rfl | rfl
            · exact ⟨.buffer path, rfl⟩
            · exact ⟨.path path, rfl⟩
          simp only [findDocsAndPathToDelete, hreserved, if_true, hpath]
          cases self.findDoc pathId with
          | none => exact ⟨_, rfl⟩
          | some entry => exact ⟨_, rfl⟩
      | false =>
          rw [knows, hreserved, Bool.false_or] at h
          obtain ⟨proj, hproj⟩ := Option.isSome_iff_exists.mp h
          exact ⟨_, by simp [findDocsAndPathToDelete, project?, hproj, hreserved]; rfl⟩

/-! ## Panics -/

/-- Reading a document again panics when its own reset does. -/
theorem resetDocFromDisk_isSome {os : Os} {self : Server} {docId : DocId} {path : UnixPath.Path}
    (reqId : Option RequestId)
    (hpath : (self.doc? docId).bind DocEntry.canonFilename = some path) :
    (self.resetDocFromDisk os reqId path none).isSome = self.rereads os docId := by
  simp only [resetDocFromDisk]
  split
  next hfind =>
      have hfind : self.docOfFile path = none := (self.find?_docOfFile path).symm.trans hfind
      simp [rereads, hpath, hfind]
  next k doc hfind =>
      have hfind : self.docOfFile path = some (k, doc) :=
        (self.find?_docOfFile path).symm.trans hfind
      rw [if_neg (by simp)]
      split
      next hopen => simp [rereads, hpath, hfind, hopen]
      next hopen => simp [rereads, hpath, hfind, hopen]
      next content hopen =>
          cases hreset : doc.toDoc.resetFromDisk (os.diff doc.buffer content) with
          | none => simp [rereads, hpath, hfind, hopen, hreset]
          | some reset =>
              obtain ⟨res, reset⟩ := reset
              cases res <;> simp [rereads, hpath, hfind, hopen, hreset]

/-- A reset that can be told from the document and its file to fail does. -/
theorem error_of_not_canReset (os : Os) {self : Server} {docId : DocId} {path : UnixPath.Path}
    (reqId : Option RequestId)
    (hpath : (self.doc? docId).bind DocEntry.canonFilename = some path)
    (h : self.canReset os docId = false) :
    ∃ err after effects,
      self.resetDocFromDisk os reqId path none = some (.error err, after, effects) := by
  simp only [canReset, hpath] at h
  simp only [resetDocFromDisk]
  split
  next hfind =>
      have hfind : self.docOfFile path = none := (self.find?_docOfFile path).symm.trans hfind
      simp [hfind] at h
  next k doc hfind =>
      have hfind : self.docOfFile path = some (k, doc) :=
        (self.find?_docOfFile path).symm.trans hfind
      rw [if_neg (by simp)]
      split
      next => exact ⟨_, _, _, rfl⟩
      next => exact ⟨_, _, _, rfl⟩
      next content hopen =>
          simp only [hfind, hopen] at h
          cases hreset : doc.toDoc.resetFromDisk (os.diff doc.buffer content) with
          | none => simp [hreset] at h
          | some reset =>
              obtain ⟨res, reset⟩ := reset
              cases res with
              | ok ops => simp [hreset] at h
              | error err => exact ⟨_, _, _, rfl⟩

theorem ifConnected_isSome (self : Server) (reqId : RequestId) (hostId : ServerId) (turn : Turn) :
    (self.ifConnected reqId hostId (some turn)).isSome = true := by
  unfold ifConnected
  split <;> rfl

/-- A request is handled when it does not make the server panic. -/
theorem handleEditorRequest_isSome (os : Os) (self : Server) (reqId : RequestId) (req : Request) :
    (self.handleEditorRequest os reqId req).isSome = self.survives os req := by
  cases req with
  | listProjects | listFiles | openFile | makeDirectory | moveFile | saveFile
  | disconnectFromFile | deleteFile => exact ifConnected_isSome ..
  | sendOps ops file =>
      simp only [handleEditorRequest, handleSendOpsFromEditor, survives]
      split
      next hdoc => simp [hdoc]
      next docId doc hdoc =>
          cases hsend : doc.toRemoteDoc.sendOps docId ops with
          | none => simp [hdoc, hsend]
          | some sent =>
              obtain ⟨res, rd⟩ := sent
              cases res <;> simp [hdoc, hsend]
  | undo file kind =>
      cases kind <;> simp only [handleEditorRequest, handleUndoFromEditor, survives] <;> split
      · next hdoc => simp [hdoc]
      · next docId doc hdoc =>
          cases hundo : doc.engine.generateUndoOp <;> simp [hdoc, hundo]
      · next hdoc => simp [hdoc]
      · next docId doc hdoc =>
          cases hundo : doc.engine.generateRedoOp <;> simp [hdoc, hundo]
  | resetFromDisk file =>
      simp only [handleEditorRequest, ifConnected, handleResetFromDiskFromEditor, survives]
      by_cases hown : file.hostId = self.hostId
      · rw [if_pos (by simp [hown]), if_neg (not_not_intro hown)]
        simp only [hown, ne_eq, not_true_eq_false, decide_false, Bool.false_or]
        split
        next hdoc => simp [hdoc]
        next docId _ hdoc =>
            rw [hdoc, Option.all_some]
            split
            next hpath => simp [rereads, hpath]
            next path hpath =>
                rw [← resetDocFromDisk_isSome (some reqId) hpath, Option.bind_eq_bind,
                  Option.isSome_bind]
                simp
      · have hother : decide (file.hostId ≠ self.hostId) = true := decide_eq_true hown
        rw [hother, Bool.true_or, if_pos hown]
        split
        next => split <;> rfl
        next => rfl
  | printHistory file =>
      simp only [handleEditorRequest, survives]
      split <;> rfl
  | init | connectionState | shareFile | updateConfig | declareProjects | closeFile | unknown =>
      rfl

/-- Of the messages only those that reset a document or bring ops can make the server panic, and
a reset that does is settled. -/
theorem role_of_panics {os : Os} {self : Server} {msg : Message}
    (h : self.handleRemoteMessage os msg = none) :
    msg.body.role = .batch ∨
      msg.body.role = .reset ∧ self.settles os msg.host msg.body = true := by
  have hallowed {turn : Turn} : self.ifWriteAllowed msg (some turn) ≠ none := by
    unfold ifWriteAllowed
    split <;> exact Option.some_ne_none _
  obtain ⟨host, body, reqId⟩ := msg
  cases body with
  | opFromClient => exact .inl rfl
  | resetFromDisk docId =>
      refine .inr ⟨rfl, ?_⟩
      simp only [handleRemoteMessage, ifWriteAllowed] at h
      split at h
      next hwrite =>
          rw [settles, hwrite, Bool.true_and]
          by_contra hcan
          rw [Bool.not_eq_true] at hcan
          simp only [handleResetFromDisk] at h
          split at h
          next => cases h
          next path hpath =>
              obtain ⟨err, after, effects, herror⟩ :=
                error_of_not_canReset os reqId hpath hcan
              simp [herror] at h
      next => cases h
  | makeDirectory | moveFile | saveFile => exact absurd h hallowed
  | listFiles | requestFile | fileList | errorResp | snapshot | directoryMade | fileMoved
  | fileDeleted | permissionDenied =>
      cases reqId <;> cases h
  | fileSaved =>
      cases reqId with
      | none => cases h
      | some reqId =>
          simp only [handleRemoteMessage] at h
          split at h <;> cases h
  | infoFromClient =>
      simp only [handleRemoteMessage] at h
      split at h <;> cases h
  | infoFromServer =>
      simp only [handleRemoteMessage] at h
      split at h
      next => split at h <;> cases h
      next => cases h
  | _ => cases h

/-- A refusal is an answer to the editor. -/
theorem handle_refusal (os : Os) (self : Server) {msg : Message} (h : msg.body.isRefusal = true)
    {reqId : RequestId} (hid : msg.reqId = some reqId) :
    self.settles os msg.host msg.body = true ∧
      ∃ resp, self.handleRemoteMessage os msg = some (self, [.resp reqId resp]) := by
  obtain ⟨host, body, _⟩ := msg
  obtain rfl := hid
  cases body with
  | errorResp | permissionDenied => exact ⟨rfl, _, rfl⟩
  | _ => cases h

/-! ## Subscribers -/

end Server

theorem Doc.subscribers_of_applyOps {ops : List (FatOp Op)} {self self' : Doc}
    {res : Except CollabError Unit} (h : Doc.applyOps ops self = some (res, self')) :
    self'.subscribers = self.subscribers := by
  induction ops generalizing self with
  | nil => cases h; rfl
  | cons op ops ih =>
      simp only [Doc.applyOps, Doc.applyOp, ServerEngine.convertInternalOpAndApply,
        Option.bind_eq_bind, Option.bind_eq_some_iff] at h
      obtain ⟨⟨res, self₁⟩, ⟨_, ⟨⟨instr, doc⟩, hconv, heq⟩, ⟨res', buffer⟩, happly, h₁⟩, h⟩ := h
      cases heq
      cases res' with
      | error err' => cases h₁; cases h; rfl
      | ok u' =>
          cases h₁
          dsimp only at h
          split at h
          next => cases h; rfl
          next => exact (ih h :)

theorem Doc.subscribers_of_resetFromDisk {self self' : Doc} {chunks : List Chunk}
    {res : Except CollabError (List (FatOp Op))}
    (h : self.resetFromDisk chunks = some (res, self')) :
    self'.subscribers = self.subscribers := by
  simp only [Doc.resetFromDisk] at h
  split at h
  next => cases h; rfl
  next =>
      simp only [Doc.processAndApply, Option.bind_eq_bind, Option.bind_eq_some_iff,
        Prod.exists] at h
      obtain ⟨res', applied, happly, h⟩ := h
      split at h <;> cases h <;> exact (Doc.subscribers_of_applyOps happly :)

namespace Server

/-- Documents have ids of their own, and no host is twice among the subscribers. -/
structure KeysOk (server : Server) : Prop where
  ids : server.IdsOk
  subscribers : ∀ d doc, server.hosted d = some doc → (AssocMap.keys doc.subscribers).Nodup

theorem KeysOk.handled {os : Os} {before after : Server} {event : Event} {effects : List Effect}
    (h : before.KeysOk) (hturn : Handled os before event after effects) : after.KeysOk := by
  refine ⟨h.ids.handled hturn, fun d doc hdoc => ?_⟩
  have hstep := hturn.hostStep h.ids d
  rw [hdoc] at hstep
  generalize hserved : before.hosted d = served at hstep
  generalize told d effects = told at hstep
  cases hstep with
  | still => exact h.subscribers d doc hserved
  | refused => exact h.subscribers d doc hserved
  | found => exact h.subscribers d doc hserved
  | subscribed | openedOwn => exact AssocMap.nodup_insert (h.subscribers d _ hserved) _ _
  | unsubscribed =>
      exact (h.subscribers d _ hserved).sublist (List.filter_sublist.map Prod.fst)
  | made => exact List.nodup_nil
  | madeOwn => exact List.nodup_singleton _
  | reset unasked applies tells =>
      rw [Doc.subscribers_of_resetFromDisk applies]
      exact h.subscribers d _ hserved
  | @accepted host reqId ops entry lastSeq res applied about allowed passes applies =>
      rw [Doc.subscribers_of_applyOps applies]
      have hkeys := h.subscribers d _ hserved
      simp only [recorded]
      split
      next => exact AssocMap.nodup_insert hkeys _ _
      next => exact hkeys

theorem Reachable.keysOk {self : Server} (h : self.Reachable) : self.KeysOk := by
  refine h.invariant (fun hostId config idealWorld => ?_) fun _ _ _ _ _ hs hturn =>
    hs.handled hturn
  exact ⟨⟨List.nodup_nil, by simp [new, AssocMap.keys]⟩, by simp [new, hosted, doc?]⟩

theorem KeysOk.nodup {self : Server} (h : self.KeysOk) {docId : DocId} {doc : DocEntry}
    (hmem : (docId, doc) ∈ self.docs) : (AssocMap.keys doc.subscribers).Nodup :=
  h.subscribers docId doc.toDoc (hosted_of_get (AssocMap.get_of_mem h.ids.nodup hmem))

/-- No host is told twice that a file is closed. -/
theorem KeysOk.nodup_found {self : Server} (h : self.KeysOk) {file : FileDesc}
    {docIds : List DocId} {path : Option UnixPath.Path} {hosts : List ServerId}
    (hfound : self.findDocsAndPathToDelete file = .ok (docIds, path, hosts)) : hosts.Nodup := by
  have hunion (docs : List (DocId × DocEntry)) : (subscribersOf docs).Nodup := by
    induction docs with
    | nil => exact List.nodup_nil
    | cons entry docs ih => exact List.Nodup.union _ ih
  cases file with
  | project id =>
      simp only [findDocsAndPathToDelete] at hfound
      split at hfound
      next => cases hfound
      next => cases hfound; exact hunion _
  | projectFile project filePath =>
      simp only [findDocsAndPathToDelete] at hfound
      split at hfound
      next =>
          split at hfound
          next => cases hfound
          next =>
              split at hfound
              next docId doc hfind =>
                  cases hfound
                  exact h.nodup (List.mem_of_find?_eq_some hfind)
              next => cases hfound; exact List.nodup_nil
      next =>
          split at hfound
          next => cases hfound
          next => cases hfound; exact hunion _

end Server

end CollabMode
