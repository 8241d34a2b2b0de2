import CollabMode.Frames
import CollabMode.Lib.Run

/-!
# The turns of a server

`Handled` lists the turns that can touch the two tables of documents, one for each
handler, with what the dispatchers have checked before.  All other turns leave the
tables alone and send nothing about documents.

`DocsStep` says what a turn can do to the documents that a host serves.  An
invariant of these documents needs one case for each of its five ways and no case
for each message.
-/

namespace CollabMode

/-- The snapshot that is sent. -/
def Effect.snapshot? : Effect → Option NewSnapshot
  | .send _ _ (.snapshot snapshot) => some snapshot
  | _ => none

/-- The snapshots among the effects. -/
def snapshots (effects : List Effect) : List NewSnapshot := effects.filterMap Effect.snapshot?

@[simp] theorem snapshots_append (effects effects' : List Effect) :
    snapshots (effects ++ effects') = snapshots effects ++ snapshots effects' :=
  List.filterMap_append

@[simp] theorem snapshots_fs (calls : List FsCall) : snapshots (calls.map Effect.fs) = [] := by
  rw [snapshots, List.filterMap_map]
  exact List.filterMap_none calls

/-- The document that a message between a host and its clients is about. -/
def Msg.docId? : Msg → Option DocId
  | .opFromClient ops => some ops.doc
  | .opFromServer doc _ => some doc
  | .requestOps doc _ => some doc
  | .stopSendingOps doc => some doc
  | .docFatal doc _ => some doc
  | .snapshot s => some s.docId
  | _ => none

/-- The document that a client's message to the host is about. -/
def Msg.asked? : Msg → Option DocId
  | .opFromClient ops => some ops.doc
  | .requestOps doc _ => some doc
  | .stopSendingOps doc => some doc
  | _ => none

/-- The document that a host's message to a client is about. -/
def Msg.told? : Msg → Option DocId
  | .opFromServer doc _ => some doc
  | .docFatal doc _ => some doc
  | .snapshot s => some s.docId
  | _ => none

def Effect.docMsg? : Effect → Option (ServerId × Msg)
  | .send host _ msg => msg.docId?.map fun _ => (host, msg)
  | _ => none

/-- The messages about documents among the effects, each with the host it goes to. -/
def docMsgs (effects : List Effect) : List (ServerId × Msg) := effects.filterMap Effect.docMsg?

@[simp] theorem docMsgs_nil : docMsgs [] = [] := rfl

@[simp] theorem docMsgs_append (effects effects' : List Effect) :
    docMsgs (effects ++ effects') = docMsgs effects ++ docMsgs effects' := List.filterMap_append

@[simp] theorem docMsgs_fs (calls : List FsCall) : docMsgs (calls.map Effect.fs) = [] := by
  rw [docMsgs, List.filterMap_map]
  exact List.filterMap_none calls

theorem docMsgs_eq_nil {effects : List Effect} :
    docMsgs effects = [] ↔ ∀ e ∈ effects, e.docMsg? = none := List.filterMap_eq_nil_iff

theorem docMsgs_ite {p : Prop} [Decidable p] {e : Effect} (h : e.docMsg? = none) :
    docMsgs (if p then [e] else []) = [] := by
  split
  next => simp [docMsgs, h]
  next => rfl

/-- The call on the file system. -/
def Effect.call? : Effect → Option FsCall
  | .fs call => some call
  | _ => none

/-- The calls among the effects. -/
def calls (effects : List Effect) : List FsCall := effects.filterMap Effect.call?

@[simp] theorem calls_nil : calls [] = [] := rfl

@[simp] theorem calls_append (effects effects' : List Effect) :
    calls (effects ++ effects') = calls effects ++ calls effects' := List.filterMap_append

@[simp] theorem calls_fs (cs : List FsCall) : calls (cs.map Effect.fs) = cs := by
  rw [calls, List.filterMap_map]
  exact List.filterMap_some

theorem calls_cons (e : Effect) (effects : List Effect) :
    calls (e :: effects) = e.call?.toList ++ calls effects := by
  cases h : e.call? with
  | none => simp [calls, h]
  | some call => simp [calls, h]

theorem calls_eq_nil {effects : List Effect} (h : ∀ e ∈ effects, e.call? = none) :
    calls effects = [] := List.filterMap_eq_nil_iff.mpr h

theorem calls_send (host : ServerId) (reqId : Option RequestId) (msg : Msg)
    (effects : List Effect) : calls (.send host reqId msg :: effects) = calls effects := rfl

/-- What a document goes by. -/
def DocEntry.names (self : DocEntry) : Text × PathId × FileDesc :=
  (self.name, self.absFilename, self.fileDesc)

/-- The editor or a peer closes or deletes a file. -/
def Event.closes : Event → Bool
  | .message { body := .closeFile _ _, .. } => true
  | .request _ (.closeFile _) => true
  | .request _ (.deleteFile _) => true
  | _ => false

/-- Documents may be made, moved or closed. -/
def Event.places : Event → Bool
  | .message { body := .requestFile _ _, .. } => true
  | .message { body := .moveFile _ _ _, .. } => true
  | .request _ (.openFile _ _) => true
  | .request _ (.shareFile _ _) => true
  | .request _ (.moveFile _ _ _ _) => true
  | event => event.closes

def Event.isMessage : Event → Bool
  | .message _ => true
  | _ => false

namespace Server

/-- The tables of documents, with the counters and ids that go with them, and the
projects. -/
structure Tables where
  hostId : ServerId
  siteId : SiteId
  projects : List (ProjectId × Project)
  docs : List (DocId × DocEntry)
  remoteDocs : RemoteDocs
  nextDocId : DocId
  nextSiteId : SiteId
  siteIdMap : List (ServerId × SiteId)

def tables (self : Server) : Tables :=
  { hostId := self.hostId, siteId := self.siteId, projects := self.projects, docs := self.docs
    remoteDocs := self.remoteDocs, nextDocId := self.nextDocId, nextSiteId := self.nextSiteId
    siteIdMap := self.siteIdMap }

section

variable {before after : Server} (h : after.tables = before.tables)
include h

theorem hostId_of_tables : after.hostId = before.hostId := congrArg Tables.hostId h

theorem siteId_of_tables : after.siteId = before.siteId := congrArg Tables.siteId h

theorem projects_of_tables : after.projects = before.projects := congrArg Tables.projects h

theorem docs_of_tables : after.docs = before.docs := congrArg Tables.docs h

theorem remoteDocs_of_tables : after.remoteDocs = before.remoteDocs := congrArg Tables.remoteDocs h

theorem nextDocId_of_tables : after.nextDocId = before.nextDocId := congrArg Tables.nextDocId h

end

/-- One turn of the main loop, by the handler that does its work. -/
inductive Handled (os : Os) (before : Server) : Event → Server → List Effect → Prop where
  /-- Nothing comes from a peer, and the tables are left alone. -/
  | idle {event : Event} {after : Server} {effects : List Effect}
      (away : event.isMessage = false) (tables : after.tables = before.tables)
      (quiet : docMsgs effects = []) : Handled os before event after effects
  /-- A message that is answered or noted, or refused. -/
  | noted {msg : Message} {after : Server} {effects : List Effect}
      (tables : after.tables = before.tables) (quiet : docMsgs effects = [])
      (still : calls effects = []) (plain : msg.body.asked? = none) :
      Handled os before (.message msg) after effects
  /-- Information about a file that is not open. -/
  | strayInfo {host : ServerId} {reqId : Option RequestId} {info : Info}
      (stray : before.remoteDocs.get host info.docId = none) :
      Handled os before (.message { host, body := .infoFromServer info, reqId }) before
        [.send host reqId (.stopSendingOps info.docId)]
  | hey {host : ServerId} {reqId : Option RequestId} {hey : HeyMessage} {after : Server}
      {effects : List Effect} (h : before.handleHey os hey host = (after, effects)) :
      Handled os before (.message { host, body := .hey hey, reqId }) after effects
  | listFiles {host : ServerId} {reqId : RequestId} {dir : Option FileDesc} (reply : Msg)
      (snap : (Effect.send host (some reqId) reply).docMsg? = none) :
      Handled os before (.message { host, body := .listFiles dir, reqId := some reqId }) before
        ((before.listFilesFromDisk os dir).2.map Effect.fs ++ [.send host (some reqId) reply])
  | makeDirectory {host : ServerId} {reqId : Option RequestId} {file : FileDesc} {after : Server}
      {effects : List Effect} (allowed : before.config.writeAllowed host = true)
      (h : before.handleMakeDirectory os reqId file host = (after, effects)) :
      Handled os before (.message { host, body := .makeDirectory file, reqId }) after effects
  | requestFile {host : ServerId} {reqId : RequestId} {file : FileDesc} {mode : OpenMode}
      {after : Server} {effects : List Effect}
      (h : before.handleRequestFile os (some reqId) file host mode = (after, effects)) :
      Handled os before (.message { host, body := .requestFile file mode, reqId := some reqId })
        after effects
  | snapshot {host : ServerId} {reqId : RequestId} {snapshot : NewSnapshot} {after : Server}
      {effects : List Effect} (h : before.handleSnapshot reqId snapshot host = (after, effects)) :
      Handled os before (.message { host, body := .snapshot snapshot, reqId := some reqId })
        after effects
  | opFromClient {host : ServerId} {reqId : Option RequestId} {ops : ContextOps}
      {res : Except CollabError Unit} {after : Server} {effects : List Effect}
      (h : before.handleOpFromClient reqId ops host = some (res, after, effects)) :
      Handled os before (.message { host, body := .opFromClient ops, reqId }) after effects
  | opFromServer {host : ServerId} {reqId : Option RequestId} {doc : DocId}
      {ops : List (FatOp Op)} {after : Server} {effects : List Effect}
      (h : before.handleOpFromServer reqId doc ops host = (after, effects)) :
      Handled os before (.message { host, body := .opFromServer doc ops, reqId }) after effects
  | requestOps {host : ServerId} {reqId : Option RequestId} {doc : DocId} {seq : GlobalSeq}
      {after : Server} {effects : List Effect}
      (h : before.handleRequestOps reqId doc seq host = (after, effects)) :
      Handled os before (.message { host, body := .requestOps doc seq, reqId }) after effects
  | moveFile {host : ServerId} {reqId : Option RequestId} {project : ProjectId}
      {source dest : Text} {after : Server} {effects : List Effect}
      (allowed : before.config.writeAllowed host = true)
      (h : before.handleMoveFile os reqId project source dest host = (after, effects)) :
      Handled os before (.message { host, body := .moveFile project source dest, reqId })
        after effects
  | saveFile {host : ServerId} {reqId : Option RequestId} {doc : DocId} {after : Server}
      {effects : List Effect} (allowed : before.config.writeAllowed host = true)
      (h : before.handleSaveFile os reqId doc host = (after, effects)) :
      Handled os before (.message { host, body := .saveFile doc, reqId }) after effects
  | resetFromDisk {host : ServerId} {reqId : Option RequestId} {doc : DocId} {after : Server}
      {effects : List Effect} (allowed : before.config.writeAllowed host = true)
      (h : before.handleResetFromDisk os reqId doc host = some (after, effects)) :
      Handled os before (.message { host, body := .resetFromDisk doc, reqId }) after effects
  | stopSendingOps {host : ServerId} {reqId : Option RequestId} {doc : DocId} {after : Server}
      {effects : List Effect} (h : before.handleStopSendingOps doc host = (after, effects)) :
      Handled os before (.message { host, body := .stopSendingOps doc, reqId }) after effects
  | closeFile {host : ServerId} {reqId : Option RequestId} {file : FileDesc} {delete : Bool}
      {after : Server} {effects : List Effect}
      (h : before.handleCloseFileFromRemote os reqId file host delete = (after, effects)) :
      Handled os before (.message { host, body := .closeFile file delete, reqId }) after effects
  | docFatal {host : ServerId} {reqId : Option RequestId} {doc : DocId} {reason : String}
      {after : Server} {effects : List Effect}
      (h : before.handleDocFatal doc reason host = (after, effects)) :
      Handled os before (.message { host, body := .docFatal doc reason, reqId }) after effects
  | openFile {reqId : RequestId} {file : EditorFileDesc} {mode : OpenMode} {after : Server}
      {effects : List Effect}
      (h : before.openFileFromEditor os reqId file mode = (after, effects)) :
      Handled os before (.request reqId (.openFile file mode)) after effects
  | sendOps {reqId : RequestId} {ops : List EditorFatOp} {file : EditorFileDesc} {after : Server}
      {effects : List Effect}
      (h : before.handleSendOpsFromEditor reqId ops file = some (after, effects)) :
      Handled os before (.request reqId (.sendOps ops file)) after effects
  | shareFile {reqId : RequestId} {filename content : Text} {after : Server}
      {effects : List Effect}
      (h : before.handleShareFileFromEditor os reqId filename content = (after, effects)) :
      Handled os before (.request reqId (.shareFile filename content)) after effects
  | moveFileFromEditor {reqId : RequestId} {hostId : ServerId} {project : ProjectId}
      {oldPath newPath : Text} {after : Server} {effects : List Effect}
      (h : before.handleMoveFileFromEditor os reqId hostId project oldPath newPath =
        (after, effects)) :
      Handled os before (.request reqId (.moveFile hostId project oldPath newPath)) after effects
  | saveFileFromEditor {reqId : RequestId} {file : EditorFileDesc} {after : Server}
      {effects : List Effect}
      (h : before.handleSaveFileFromEditor os reqId file = (after, effects)) :
      Handled os before (.request reqId (.saveFile file)) after effects
  | resetFromDiskFromEditor {reqId : RequestId} {file : EditorFileDesc} {after : Server}
      {effects : List Effect}
      (h : before.handleResetFromDiskFromEditor os reqId file = some (after, effects)) :
      Handled os before (.request reqId (.resetFromDisk file)) after effects
  | disconnectFromFile {reqId : RequestId} {file : EditorFileDesc} {after : Server}
      {effects : List Effect} (h : before.handleDisconnectFromFile reqId file = (after, effects)) :
      Handled os before (.request reqId (.disconnectFromFile file)) after effects
  | closeFileFromEditor {reqId : RequestId} {file : EditorFileDesc} {after : Server}
      {effects : List Effect}
      (h : before.handleCloseFileFromEditor os reqId file false = (after, effects)) :
      Handled os before (.request reqId (.closeFile file)) after effects
  | deleteFileFromEditor {reqId : RequestId} {file : EditorFileDesc} {after : Server}
      {effects : List Effect}
      (h : before.handleCloseFileFromEditor os reqId file true = (after, effects)) :
      Handled os before (.request reqId (.deleteFile file)) after effects
  | declareProjects {reqId : RequestId} {projects : List ConfigProject} {after : Server}
      {effects : List Effect}
      (h : before.handleDeclareProjects os reqId projects = (after, effects)) :
      Handled os before (.request reqId (.declareProjects projects)) after effects
  | fileChanged {path : UnixPath.Path} {timestamp : Instant} {res : Except String Unit}
      {after : Server} {effects : List Effect}
      (h : before.resetDocFromDisk os none path (some timestamp) = some (res, after, effects)) :
      Handled os before (.fileChanged path timestamp) after effects

/-! ## Connections -/

/-- `t` has the tables of `s`, and nothing is sent about documents. -/
structure LeavesTables (s t : Server) (effects : List Effect) : Prop where
  tables : t.tables = s.tables
  quiet : ∀ e ∈ effects, e.docMsg? = none

theorem LeavesTables.trans {s t u : Server} {effects effects' : List Effect}
    (h : LeavesTables s t effects) (h' : LeavesTables t u effects') :
    LeavesTables s u (effects ++ effects') := by
  refine ⟨h'.tables.trans h.tables, fun e he => ?_⟩
  rcases List.mem_append.mp he with he | he
  · exact h.quiet e he
  · exact h'.quiet e he

theorem LeavesTables.handled {os : Os} {before after : Server} {event : Event}
    {effects : List Effect} (h : LeavesTables before after effects)
    (away : event.isMessage = false) :
    Handled os before event after effects :=
  .idle away h.tables (docMsgs_eq_nil.mpr h.quiet)

theorem leavesTables_forEach {α : Type} {f : Server → α → Turn}
    (hf : ∀ s a, LeavesTables s (f s a).1 (f s a).2) (self : Server) (as : List α) :
    LeavesTables self (self.forEach f as).1 (self.forEach f as).2 := by
  have hloop : (self.forEach f as).1.tables = self.tables ∧
      ∀ e ∈ (self.forEach f as).2, e.docMsg? = none := by
    refine forEach_rule (P := fun s => s.tables = self.tables) (fun s a _ hs => ?_) rfl
    exact ⟨(hf s a).tables.trans hs, (hf s a).quiet⟩
  exact ⟨hloop.1, hloop.2⟩

theorem leavesTables_sendConnectMessage (os : Os) (self : Server) (peerId : ServerId) (addr : Text)
    (initiator : Bool) :
    LeavesTables self (self.sendConnectMessage os peerId addr initiator).1
      (self.sendConnectMessage os peerId addr initiator).2 := by
  unfold sendConnectMessage
  dsimp only
  split <;> exact ⟨rfl, by simp [Effect.docMsg?]⟩

theorem leavesTables_tryConnectRemote (os : Os) (self : Server) (hostId : ServerId)
    (transport : TransportConfig) :
    LeavesTables self (self.tryConnectRemote os hostId transport).1
      (self.tryConnectRemote os hostId transport).2 := by
  unfold tryConnectRemote
  split
  next => exact ⟨rfl, by simp⟩
  next =>
      cases transport with
      | sshStdio sshHost command projects =>
          simp only [tryConnectRemoteSsh]
          split <;> exact ⟨rfl, by simp [Effect.docMsg?]⟩
      | sctp addr =>
          simp only [tryConnectRemoteSctp]
          have hsend := leavesTables_sendConnectMessage os
            { self with
              currentWorld := self.currentWorld.setRemoteConnecting1 os.now
                (os.newConnectionId hostId) hostId (.sctp addr) } hostId addr true
          refine ⟨hsend.tables, fun e he => ?_⟩
          rcases List.mem_cons.mp he with rfl | he
          · rfl
          · exact hsend.quiet e he

theorem leavesTables_fixWorld (os : Os) (self : Server) :
    LeavesTables self (self.fixWorld os).1 (self.fixWorld os).2 := by
  have hfail := leavesTables_forEach (f := failBind) fun s addr =>
    ⟨rfl, by simp [failBind, Effect.docMsg?]⟩
  have hdrop := leavesTables_forEach (f := dropSignaling) fun s addr =>
    ⟨rfl, by simp [dropSignaling, Effect.docMsg?]⟩
  have hbind := leavesTables_forEach (f := bindSignaling os) fun s addr => by
    unfold bindSignaling
    dsimp only
    split <;> exact ⟨rfl, by simp [Effect.docMsg?]⟩
  have hsync := leavesTables_forEach (f := syncTrust os) fun s addr =>
    ⟨rfl, by simp [syncTrust, Effect.docMsg?]⟩
  have hremote := leavesTables_forEach (f := dropRemote) fun s peer =>
    ⟨rfl, by simp [dropRemote, Effect.docMsg?]⟩
  have hstart := leavesTables_forEach (f := startRemote os) fun s entry => by
    unfold startRemote
    split
    next => exact leavesTables_tryConnectRemote os s entry.1 entry.2
    next => exact ⟨rfl, by simp⟩
  have htime := leavesTables_forEach (f := timeOut os) fun s entry =>
    ⟨rfl, by simp [timeOut, Effect.docMsg?]⟩
  simp only [fixWorld, fixWorldSignaling, fixWorldRemotes, fixWorldTimeouts]
  exact (((((hfail _ _).trans (hdrop _ _)).trans (hbind _ _)).trans (hsync _ _)).trans
    ((hremote _ _).trans (hstart _ _))).trans (htime _ _)

/-! ## The dispatchers -/

theorem turn_of_some {turn : Turn} {after : Server} {effects : List Effect}
    (h : some turn = some (after, effects)) : turn = (after, effects) := Option.some.inj h

/-- A request that was passed on, or refused. -/
theorem Handled.of_ifConnected {os : Os} {before after : Server} {reqId : RequestId}
    {hostId : ServerId} {turn : Turn} {req : Request} {effects : List Effect}
    (h : before.ifConnected reqId hostId (some turn) = some (after, effects))
    (hturn : turn = (after, effects) → Handled os before (.request reqId req) after effects) :
    Handled os before (.request reqId req) after effects := by
  unfold ifConnected at h
  split at h
  next => exact hturn (turn_of_some h)
  next =>
      cases h
      exact .idle rfl rfl rfl

theorem Handled.of_ifWriteAllowed {os : Os} {before after : Server} {msg : Message} {turn : Turn}
    {effects : List Effect}
    (hplain : msg.body.asked? = none)
    (h : before.ifWriteAllowed msg (some turn) = some (after, effects))
    (hturn : before.config.writeAllowed msg.host = true → turn = (after, effects) →
      Handled os before (.message msg) after effects) :
    Handled os before (.message msg) after effects := by
  unfold ifWriteAllowed at h
  split at h
  next hw => exact hturn hw (turn_of_some h)
  next =>
      cases h
      exact .noted rfl rfl rfl hplain

theorem handled_request {os : Os} {before after : Server} {reqId : RequestId} {req : Request}
    {effects : List Effect} (h : before.handleEditorRequest os reqId req = some (after, effects)) :
    Handled os before (.request reqId req) after effects := by
  cases req with
  | openFile file mode => exact .of_ifConnected h .openFile
  | sendOps ops file => exact .sendOps h
  | shareFile filename content => exact .shareFile (turn_of_some h)
  | moveFile hostId project oldPath newPath => exact .of_ifConnected h .moveFileFromEditor
  | saveFile file => exact .of_ifConnected h .saveFileFromEditor
  | resetFromDisk file =>
      simp only [handleEditorRequest, ifConnected] at h
      split at h
      next => exact .resetFromDiskFromEditor h
      next => cases h; exact .idle rfl rfl rfl
  | disconnectFromFile file => exact .of_ifConnected h .disconnectFromFile
  | closeFile file => exact .closeFileFromEditor (turn_of_some h)
  | deleteFile file => exact .of_ifConnected h .deleteFileFromEditor
  | init => cases h; exact .idle rfl rfl rfl
  | connectionState => cases h; exact .idle rfl rfl rfl
  | unknown => cases h; exact .idle rfl rfl rfl
  | listProjects hostId =>
      refine .of_ifConnected h fun h => ?_
      unfold listFilesFromEditor at h
      split at h <;> cases h <;> exact .idle rfl rfl (by simp [docMsgs, Effect.docMsg?, Msg.docId?])
  | listFiles dir =>
      refine .of_ifConnected h fun h => ?_
      unfold listFilesFromEditor at h
      split at h <;> cases h <;> exact .idle rfl rfl (by simp [docMsgs, Effect.docMsg?, Msg.docId?])
  | makeDirectory file =>
      refine .of_ifConnected h fun h => ?_
      unfold makeDirectoryFromEditor at h
      split at h <;> cases h <;> exact .idle rfl rfl (by simp [docMsgs, Effect.docMsg?, Msg.docId?])
  | undo file kind =>
      simp only [handleEditorRequest, handleUndoFromEditor] at h
      split at h
      next => cases h; exact .idle rfl rfl rfl
      next =>
          cases kind <;>
          · obtain ⟨_, _, h⟩ := Option.bind_eq_some_iff.mp h
            cases h
            exact .idle rfl rfl rfl
  | updateConfig trustedHosts permission =>
      cases turn_of_some h
      exact .idle rfl rfl rfl
  | declareProjects projects => exact .declareProjects (turn_of_some h)
  | printHistory file =>
      simp only [handleEditorRequest] at h
      split at h <;> cases h <;> exact .idle rfl rfl rfl

theorem handled_message {os : Os} {before after : Server} {msg : Message} {effects : List Effect}
    (h : before.handleRemoteMessage os msg = some (after, effects)) :
    Handled os before (.message msg) after effects := by
  obtain ⟨host, body, reqId⟩ := msg
  cases body with
  | requestFile file mode =>
      cases reqId with
      | none => cases h; exact .noted rfl rfl rfl rfl
      | some reqId => exact .requestFile (turn_of_some h)
  | snapshot snapshot =>
      cases reqId with
      | none => cases h; exact .noted rfl rfl rfl rfl
      | some reqId => exact .snapshot (turn_of_some h)
  | opFromClient ops =>
      obtain ⟨⟨res, self', effects⟩, h, heq⟩ := Option.map_eq_some_iff.mp h
      cases heq
      exact .opFromClient h
  | opFromServer doc ops => exact .opFromServer (turn_of_some h)
  | requestOps doc seq => exact .requestOps (turn_of_some h)
  | moveFile project source dest => exact .of_ifWriteAllowed rfl h .moveFile
  | saveFile doc => exact .of_ifWriteAllowed rfl h .saveFile
  | resetFromDisk doc =>
      simp only [handleRemoteMessage, ifWriteAllowed] at h
      split at h
      next hw => exact .resetFromDisk hw h
      next => cases h; exact .noted rfl rfl rfl rfl
  | stopSendingOps doc => exact .stopSendingOps (turn_of_some h)
  | closeFile file delete => exact .closeFile (turn_of_some h)
  | docFatal doc reason => exact .docFatal (turn_of_some h)
  | makeDirectory file => exact .of_ifWriteAllowed rfl h .makeDirectory
  | failedToConnect peer reason connectionId =>
      simp only [handleRemoteMessage, attemptFailed] at h
      split at h
      next => cases h; exact .noted rfl rfl rfl rfl
      next => split at h <;> cases h <;> exact .noted rfl rfl rfl rfl
  | connectionBroke peer connectionId =>
      simp only [handleRemoteMessage, attemptFailed] at h
      split at h
      next => cases h; exact .noted rfl rfl rfl rfl
      next => split at h <;> cases h <;> exact .noted rfl rfl rfl rfl
  | hey hey => exact .hey (turn_of_some h)
  | bye => cases h; exact .noted rfl rfl rfl rfl
  | infoFromServer info =>
      simp only [handleRemoteMessage] at h
      split at h
      next => split at h <;> cases h <;> exact .noted rfl rfl rfl rfl
      next hstray => cases h; exact .strayInfo hstray
  | fileSaved doc =>
      simp only [handleRemoteMessage] at h
      split at h
      next => cases h; exact .noted rfl rfl rfl rfl
      next => split at h <;> cases h <;> exact .noted rfl rfl rfl rfl
  | infoFromClient info =>
      simp only [handleRemoteMessage] at h
      split at h
      next sent hsent =>
          cases h
          have hinfo : ∀ e ∈ effects, ∃ host info, e = .send host reqId (.infoFromServer info) := by
            unfold broadcastInfo at hsent
            split at hsent
            next => cases hsent
            next =>
                cases hsent
                intro e he
                obtain ⟨host, _, rfl⟩ := List.mem_map.mp he
                exact ⟨host, _, rfl⟩
          refine .noted rfl (docMsgs_eq_nil.mpr fun e he => ?_) (calls_eq_nil fun e he => ?_) rfl
          · obtain ⟨_, _, rfl⟩ := hinfo e he
            rfl
          · obtain ⟨_, _, rfl⟩ := hinfo e he
            rfl
      next => cases h; exact .noted rfl rfl rfl rfl
  | listFiles dir =>
      cases reqId with
      | none => cases h; exact .noted rfl rfl rfl rfl
      | some reqId =>
          cases turn_of_some h
          refine .listFiles _ ?_
          split <;> rfl
  | fileList files =>
      simp only [handleRemoteMessage] at h
      split at h <;> cases h <;> exact .noted rfl rfl rfl rfl
  | errorResp code file message =>
      simp only [handleRemoteMessage] at h
      split at h <;> cases h <;> exact .noted rfl rfl rfl rfl
  | directoryMade file =>
      simp only [handleRemoteMessage] at h
      split at h <;> cases h <;> exact .noted rfl rfl rfl rfl
  | fileMoved project source dest =>
      simp only [handleRemoteMessage] at h
      split at h <;> cases h <;> exact .noted rfl rfl rfl rfl
  | fileDeleted file =>
      simp only [handleRemoteMessage] at h
      split at h <;> cases h <;> exact .noted rfl rfl rfl rfl
  | permissionDenied reason =>
      simp only [handleRemoteMessage] at h
      split at h <;> cases h <;> exact .noted rfl rfl rfl rfl
  | fileClosed file => cases h; exact .noted rfl rfl rfl rfl
  | iceProgress peer message => cases h; exact .noted rfl rfl rfl rfl
  | shareSingleFile filename content => cases h; exact .noted rfl rfl rfl rfl
  | fileShared doc => cases h; exact .noted rfl rfl rfl rfl
  | info info => cases h; exact .noted rfl rfl rfl rfl
  | envoyInit hostId envoyId projects => cases h; exact .noted rfl rfl rfl rfl
  | envoyInitError reason => cases h; exact .noted rfl rfl rfl rfl
  | serializationErr reason => cases h; exact .noted rfl rfl rfl rfl
  | badRequest reason => cases h; exact .noted rfl rfl rfl rfl

/-- What a turn of the main loop is. -/
theorem handled {os : Os} {before after : Server} {event : Event} {effects : List Effect}
    (h : before.handle os event = some (after, effects)) :
    Handled os before event after effects := by
  cases event with
  | request reqId req => exact handled_request h
  | message msg => exact handled_message h
  | fileChanged path timestamp =>
      obtain ⟨⟨res, self', effects⟩, h, heq⟩ := Option.map_eq_some_iff.mp h
      cases heq
      exact .fileChanged h
  | fixWorld =>
      have hleaves := leavesTables_fixWorld os before
      rw [turn_of_some h] at hleaves
      exact hleaves.handled rfl
  | acceptStopped addr reason => cases h; exact .idle rfl rfl rfl
  | notification notif =>
      have h := turn_of_some h
      cases notif with
      | acceptConnection addr =>
          simp only [handleEditorNotification, handleAcceptConnection] at h
          split at h
          next => cases h; exact .idle rfl rfl rfl
          next => cases h; exact .idle rfl rfl rfl
          next => split at h <;> cases h <;> exact .idle rfl rfl rfl
      | connect hostId transport =>
          cases h
          refine .idle rfl rfl ?_
          rw [docMsgs_append, docMsgs_ite rfl]
          rfl
      | sendInfo info file =>
          simp only [handleEditorNotification, handleSendInfoFromEditor] at h
          split at h <;> cases h <;> exact .idle rfl rfl rfl
      | stopAccepting addr => cases h; exact .idle rfl rfl rfl
      | unknown method => cases h; exact .idle rfl rfl rfl
  | signaling addr msg =>
      have h := turn_of_some h
      cases msg with
      | connect sender receiver initiator =>
          simp only [handleSignalingMsg, handleSignalingConnectMsg] at h
          split at h
          next => cases h; exact .idle rfl rfl rfl
          next =>
              split at h
              next => cases h; exact .idle rfl rfl rfl
              next =>
                  have hsend := leavesTables_sendConnectMessage os
                    (before.declarePeer os sender addr) sender addr false
                  cases initiator with
                  | false => cases h; exact .idle rfl rfl rfl
                  | true =>
                      have hleaves : LeavesTables before after effects := by
                        cases h
                        refine ⟨hsend.tables, fun e he => ?_⟩
                        rcases List.mem_append.mp he with he | he
                        · exact hsend.quiet e he
                        · cases List.mem_singleton.mp he
                          rfl
                      exact hleaves.handled rfl
      | bound => cases h; exact .idle rfl rfl rfl
      | trust => cases h; exact .idle rfl rfl rfl
      | trusted => cases h; exact .idle rfl rfl rfl
      | rejected => cases h; exact .idle rfl rfl rfl
      | idNotFound => cases h; exact .idle rfl rfl rfl
      | other => cases h; exact .idle rfl rfl rfl

/-! ## The documents of the host -/

@[simp] theorem nextDocId_setDoc (self : Server) (docId : DocId) (doc : DocEntry) :
    (self.setDoc docId doc).nextDocId = self.nextDocId := rfl

@[simp] theorem nextDocId_siteIdOf (self : Server) (hostId : ServerId) :
    (self.siteIdOf hostId).2.nextDocId = self.nextDocId := by
  unfold siteIdOf
  split <;> rfl

theorem doc?_setDoc (self : Server) (docId k : DocId) (doc : DocEntry) :
    (self.setDoc docId doc).doc? k = if k = docId then some doc else self.doc? k :=
  AssocMap.get_insert ..

theorem siteIdOf_remoteDocs (self : Server) (hostId : ServerId) :
    (self.siteIdOf hostId).2.remoteDocs = self.remoteDocs := by
  unfold siteIdOf
  split <;> rfl

theorem siteIdOf_docs (self : Server) (hostId : ServerId) :
    (self.siteIdOf hostId).2.docs = self.docs := by
  unfold siteIdOf
  split <;> rfl

theorem findDoc_siteIdOf (self : Server) (hostId : ServerId) (pathId : PathId) :
    (self.siteIdOf hostId).2.findDoc pathId = self.findDoc pathId := by
  rw [findDoc, siteIdOf_docs]
  rfl

theorem config_siteIdOf (self : Server) (hostId : ServerId) :
    (self.siteIdOf hostId).2.config = self.config := config_of_rest (rest_siteIdOf self hostId)

theorem openFileFromDisk_siteIdOf (os : Os) (self : Server) (hostId : ServerId)
    (project : ProjectId) (path : Text) (mode : OpenMode) (allowed : Bool) :
    (self.siteIdOf hostId).2.openFileFromDisk os project path mode allowed =
      self.openFileFromDisk os project path mode allowed := by
  unfold siteIdOf
  split <;> rfl

/-- What a turn can do to the documents. -/
inductive DocsStep (before after : Server) : Prop where
  | keep (docs : after.docs = before.docs) (next : after.nextDocId = before.nextDocId)
  | update (docId : DocId) (doc doc' : DocEntry) (mem : (docId, doc) ∈ before.docs)
      (docs : after.docs = AssocMap.insert before.docs docId doc') (names : doc'.names = doc.names)
      (next : after.nextDocId = before.nextDocId)
  | add (doc : DocEntry) (docs : after.docs = AssocMap.insert before.docs before.nextDocId doc)
      (next : after.nextDocId = before.nextDocId + 1)
  | move (os : Os) (oldPath newPath : UnixPath.Path)
      (docs : after.docs = (moveDocs os oldPath newPath before.docs).2)
      (next : after.nextDocId = before.nextDocId)

/-- The documents stay, or one changes and keeps its names. -/
inductive Kept (before after : Server) : Prop where
  | keep (docs : after.docs = before.docs) (next : after.nextDocId = before.nextDocId)
  | update (docId : DocId) (doc doc' : DocEntry) (mem : (docId, doc) ∈ before.docs)
      (docs : after.docs = AssocMap.insert before.docs docId doc') (names : doc'.names = doc.names)
      (next : after.nextDocId = before.nextDocId)

theorem Kept.docsStep {before after : Server} (h : Kept before after) : DocsStep before after := by
  cases h with
  | keep docs next => exact .keep docs next
  | update docId doc doc' mem docs names next => exact .update docId doc doc' mem docs names next

/-- The documents that are closed with a file. -/
def docsToClose (self : Server) (file : FileDesc) : List DocId :=
  match self.findDocsAndPathToDelete file with
  | .ok (docIds, _, _) => docIds
  | .error _ => []

/-- The documents that an event closes. -/
def closing (self : Server) : Event → List DocId
  | .message { host, body := .closeFile file _, .. } =>
      if self.config.deleteAllowed host then self.docsToClose file else []
  | .request _ (.closeFile file) =>
      if file.hostId = self.hostId then self.docsToClose (FileDesc.from file) else []
  | .request _ (.deleteFile file) =>
      if file.hostId = self.hostId then self.docsToClose (FileDesc.from file) else []
  | _ => []

/-- Documents were closed, and no others changed. -/
structure Closes (docIds : List DocId) (before after : Server) : Prop where
  docs : after.docs = docIds.foldl AssocMap.erase before.docs
  next : after.nextDocId = before.nextDocId

theorem kept_setDoc {self : Server} {docId : DocId} {doc doc' : DocEntry}
    (hget : self.doc? docId = some doc) (names : doc'.names = doc.names) :
    Kept self (self.setDoc docId doc') :=
  .update docId doc doc' (AssocMap.mem_of_get hget) rfl names rfl

theorem kept_acceptOps {self after : Server} {reqId : Option RequestId} {docId : DocId}
    {doc : DocEntry} {contextOps : ContextOps} {host : ServerId} {res : Except CollabError Unit}
    {effects : List Effect} (hget : self.doc? docId = some doc)
    (h : self.acceptOps reqId docId doc contextOps host = some (res, after, effects)) :
    Kept self after := by
  simp only [acceptOps, Option.bind_eq_bind, Option.bind_eq_some_iff, Prod.exists] at h
  obtain ⟨res, applied, _, h⟩ := h
  split at h <;> cases h <;> exact kept_setDoc hget rfl

theorem kept_handleOpFromClient {self after : Server} {reqId : Option RequestId}
    {contextOps : ContextOps} {host : ServerId} {res : Except CollabError Unit}
    {effects : List Effect}
    (h : self.handleOpFromClient reqId contextOps host = some (res, after, effects)) :
    Kept self after := by
  simp only [handleOpFromClient] at h
  split at h
  next => cases h; exact .keep rfl rfl
  next =>
      split at h
      next => cases h; exact .keep rfl rfl
      next doc hget =>
          split at h
          next => cases h; exact .keep rfl rfl
          next =>
              split at h
              next => exact kept_acceptOps hget h
              next =>
                  split at h
                  next => cases h; exact .keep rfl rfl
                  next => exact kept_acceptOps hget h

theorem kept_handleRequestOps {self after : Server} {reqId : Option RequestId}
    {docId : DocId} {seq : GlobalSeq} {host : ServerId} {effects : List Effect}
    (h : self.handleRequestOps reqId docId seq host = (after, effects)) : Kept self after := by
  unfold handleRequestOps at h
  split at h
  next => cases h; exact .keep rfl rfl
  next doc hget => cases h; exact kept_setDoc hget rfl

theorem kept_handleStopSendingOps {self after : Server} {docId : DocId} {host : ServerId}
    {effects : List Effect} (h : self.handleStopSendingOps docId host = (after, effects)) :
    Kept self after := by
  unfold handleStopSendingOps at h
  split at h
  next => cases h; exact .keep rfl rfl
  next doc hget => cases h; exact kept_setDoc hget rfl

/-- A document is added, or nothing happens. -/
theorem docs_handleRequestFile {os : Os} {self after : Server} {reqId : Option RequestId}
    {file : FileDesc} {host : ServerId} {mode : OpenMode} {effects : List Effect}
    (h : self.handleRequestFile os reqId file host mode = (after, effects)) :
    (after.docs = self.docs ∧ after.nextDocId = self.nextDocId) ∨
      ∃ doc, after.docs = AssocMap.insert self.docs self.nextDocId doc ∧
        after.nextDocId = self.nextDocId + 1 := by
  have hdocs := siteIdOf_docs self host
  have hnext := nextDocId_siteIdOf self host
  have hadd (doc : DocEntry) : ((self.siteIdOf host).2.addDoc doc).2.docs =
      AssocMap.insert self.docs self.nextDocId doc := by
    show AssocMap.insert (self.siteIdOf host).2.docs (self.siteIdOf host).2.nextDocId doc = _
    rw [hdocs, hnext]
  unfold handleRequestFile at h
  split at h
  next => cases h; exact .inl ⟨rfl, rfl⟩
  next =>
      dsimp only at h
      split at h
      next => cases h; exact .inl ⟨hdocs, hnext⟩
      next =>
          split at h
          next => cases h; exact .inl ⟨hdocs, hnext⟩
          next =>
              split at h
              next => cases h; exact .inl ⟨hdocs, hnext⟩
              next content fullPath _ =>
                  cases h
                  exact .inr ⟨_, hadd _, congrArg (· + 1) hnext⟩

theorem docs_openOwnDoc (self : Server) (reqId : RequestId) (docId : DocId) (doc : DocEntry)
    (file : EditorFileDesc) :
    (self.openOwnDoc reqId docId doc file).1.docs = AssocMap.insert self.docs docId
        { doc with subscribers := AssocMap.insert doc.subscribers self.hostId 0 } ∧
      (self.openOwnDoc reqId docId doc file).1.nextDocId = self.nextDocId := by
  unfold openOwnDoc
  dsimp only
  split <;> exact ⟨rfl, rfl⟩

theorem docsStep_openFileFromEditor {os : Os} {self after : Server} {reqId : RequestId}
    {file : EditorFileDesc} {mode : OpenMode} {effects : List Effect}
    (h : self.openFileFromEditor os reqId file mode = (after, effects)) :
    DocsStep self after := by
  unfold openFileFromEditor at h
  dsimp only at h
  split at h
  next =>
      split at h
      next => cases h; exact .keep rfl rfl
      next =>
          split at h
          next => cases h; exact .keep rfl rfl
          next =>
              split at h
              next docId doc hfind =>
                  obtain ⟨hdocs, hnext⟩ := docs_openOwnDoc self reqId docId doc file
                  rw [h] at hdocs hnext
                  have hmem := List.mem_reverse.mp (List.mem_of_find?_eq_some hfind)
                  exact .update docId doc _ hmem hdocs rfl hnext
              next =>
                  split at h
                  next => cases h; exact .keep rfl rfl
                  next content fullPath _ =>
                      cases h
                      exact .add _
                        ((docs_openOwnDoc _ reqId _ _ file).1.trans (AssocMap.insert_insert ..))
                        (docs_openOwnDoc _ reqId _ _ file).2
  next => split at h <;> cases h <;> exact .keep rfl rfl

theorem docsStep_handleShareFileFromEditor {os : Os} {self after : Server} {reqId : RequestId}
    {filename content : Text} {effects : List Effect}
    (h : self.handleShareFileFromEditor os reqId filename content = (after, effects)) :
    DocsStep self after := by
  unfold handleShareFileFromEditor at h
  dsimp only at h
  split at h
  next => cases h; exact .keep rfl rfl
  next => split at h <;> cases h <;> first | exact .keep rfl rfl | exact .add _ rfl rfl

theorem kept_saveFileToDisk (os : Os) (self : Server) (docId : DocId) :
    Kept self (self.saveFileToDisk os docId).2.1 := by
  unfold saveFileToDisk
  split
  next => exact .keep rfl rfl
  next doc hget =>
      refine kept_setDoc hget ?_
      simp only [DocEntry.saveToDisk]
      split
      next => rfl
      next => split <;> rfl

theorem kept_resetDocFromDisk {os : Os} {self after : Server} {reqId : Option RequestId}
    {path : UnixPath.Path} {timestamp : Option Instant} {res : Except String Unit}
    {effects : List Effect}
    (h : self.resetDocFromDisk os reqId path timestamp = some (res, after, effects)) :
    Kept self after := by
  simp only [resetDocFromDisk] at h
  split at h
  next => cases h; exact .keep rfl rfl
  next docId doc hfind =>
      have hmem := List.mem_of_find?_eq_some hfind
      split at h
      next => cases h; exact .keep rfl rfl
      next =>
          split at h
          next => cases h; exact .keep rfl rfl
          next => cases h; exact .keep rfl rfl
          next =>
              simp only [Option.bind_eq_bind, Option.bind_eq_some_iff, Prod.exists] at h
              obtain ⟨res, reset, _, h⟩ := h
              split at h <;> cases h <;> exact .update docId doc _ hmem rfl rfl rfl

theorem docsStep_moveFileOnDisk (os : Os) (self : Server) (project : ProjectId)
    (oldPath newPath : Text) :
    DocsStep self (self.moveFileOnDisk os project oldPath newPath).2.1 := by
  unfold moveFileOnDisk
  split
  next => exact .keep rfl rfl
  next =>
      dsimp only
      split
      next => exact .keep rfl rfl
      next => exact .move os _ _ rfl rfl

theorem closes_removeDocs (os : Os) (self : Server) (docIds : List DocId) :
    Closes docIds self (self.removeDocs os docIds).1 := by
  induction docIds generalizing self with
  | nil => exact ⟨rfl, rfl⟩
  | cons docId docIds ih => exact ⟨(ih _).docs, (ih _).next⟩

theorem closes_handleCloseFileLocally (os : Os) (self : Server) (file : FileDesc)
    (delete : Bool) :
    Closes (self.docsToClose file) self (self.handleCloseFileLocally os file delete).2.1 := by
  unfold handleCloseFileLocally docsToClose
  cases self.findDocsAndPathToDelete file with
  | error err => exact ⟨rfl, rfl⟩
  | ok found =>
      dsimp only
      split <;> exact closes_removeDocs os self found.1

theorem closes_handleCloseFileFromRemote {os : Os} {self after : Server}
    {reqId : Option RequestId} {file : FileDesc} {requester : ServerId} {delete : Bool}
    {effects : List Effect}
    (h : self.handleCloseFileFromRemote os reqId file requester delete = (after, effects)) :
    Closes (self.closing (.message { host := requester, body := .closeFile file delete, reqId }))
      self after := by
  simp only [handleCloseFileFromRemote] at h
  simp only [closing]
  split at h
  next hdenied =>
      cases h
      rw [if_neg (by simpa using hdenied)]
      exact ⟨rfl, rfl⟩
  next hallowed =>
      rw [if_pos (by simpa using hallowed)]
      split at h <;> cases h <;> exact closes_handleCloseFileLocally ..

theorem closes_handleCloseFileFromEditor {os : Os} {self after : Server} {reqId : RequestId}
    {file : EditorFileDesc} {delete : Bool} {effects : List Effect}
    (h : self.handleCloseFileFromEditor os reqId file delete = (after, effects)) :
    Closes (if file.hostId = self.hostId then self.docsToClose (FileDesc.from file) else [])
      self after := by
  simp only [handleCloseFileFromEditor] at h
  split at h
  next haway =>
      cases h
      rw [if_neg haway]
      exact ⟨rfl, rfl⟩
  next hown =>
      rw [if_pos (not_not.mp hown)]
      split at h <;> cases h <;> exact closes_handleCloseFileLocally ..

theorem docs_handleOpFromServer (self : Server) (reqId : Option RequestId) (docId : DocId)
    (ops : List (FatOp Op)) (host : ServerId) :
    (self.handleOpFromServer reqId docId ops host).1.docs = self.docs ∧
      (self.handleOpFromServer reqId docId ops host).1.nextDocId = self.nextDocId := by
  unfold handleOpFromServer
  split
  next => exact ⟨rfl, rfl⟩
  next =>
      split
      next => exact ⟨rfl, rfl⟩
      next =>
          dsimp only
          split <;> exact ⟨rfl, rfl⟩

/-- Only the projects change. -/
theorem after_handleDeclareProjects {os : Os} {self after : Server} {reqId : RequestId}
    {entries : List ConfigProject} {effects : List Effect}
    (h : self.handleDeclareProjects os reqId entries = (after, effects)) :
    ∃ projects, after = { self with projects } := by
  unfold handleDeclareProjects at h
  split at h
  next => cases h; exact ⟨_, rfl⟩
  next => split at h <;> cases h <;> exact ⟨_, rfl⟩

/-- The other turns keep the names of the documents. -/
theorem Handled.kept {os : Os} {before after : Server} {event : Event} {effects : List Effect}
    (h : Handled os before event after effects) (hplaces : event.places = false) :
    Kept before after := by
  cases h with
  | requestFile h | openFile h | shareFile h | moveFileFromEditor h | closeFile h
  | closeFileFromEditor h | deleteFileFromEditor h => cases hplaces
  | moveFile allowed h => cases hplaces
  | idle away tables quiet => exact .keep (docs_of_tables tables) (nextDocId_of_tables tables)
  | noted tables quiet still => exact .keep (docs_of_tables tables) (nextDocId_of_tables tables)
  | hey h => cases h; exact .keep rfl rfl
  | strayInfo stray => exact .keep rfl rfl
  | listFiles reply snap => exact .keep rfl rfl
  | makeDirectory allowed h =>
      unfold handleMakeDirectory at h
      split at h <;> cases h <;> exact .keep rfl rfl
  | declareProjects h =>
      obtain ⟨projects, rfl⟩ := after_handleDeclareProjects h
      exact .keep rfl rfl
  | opFromClient h => exact kept_handleOpFromClient h
  | requestOps h => exact kept_handleRequestOps h
  | stopSendingOps h => exact kept_handleStopSendingOps h
  | fileChanged h => exact kept_resetDocFromDisk h
  | snapshot h =>
      unfold handleSnapshot at h
      split at h <;> cases h <;> exact .keep rfl rfl
  | opFromServer h =>
      obtain ⟨hdocs, hnext⟩ := docs_handleOpFromServer before ..
      rw [h] at hdocs hnext
      exact .keep hdocs hnext
  | docFatal h => cases h; exact .keep rfl rfl
  | saveFile allowed h => cases h; exact kept_saveFileToDisk ..
  | saveFileFromEditor h =>
      simp only [handleSaveFileFromEditor] at h
      split at h
      next => split at h <;> cases h <;> exact .keep rfl rfl
      next =>
          split at h
          next => cases h; exact .keep rfl rfl
          next => cases h; exact kept_saveFileToDisk ..
  | resetFromDisk allowed h =>
      simp only [handleResetFromDisk] at h
      split at h
      next => cases h; exact .keep rfl rfl
      next =>
          simp only [Option.bind_eq_bind, Option.bind_eq_some_iff, Prod.exists] at h
          obtain ⟨res, reset, effects', hreset, h⟩ := h
          split at h <;> cases h <;> exact kept_resetDocFromDisk hreset
  | resetFromDiskFromEditor h =>
      simp only [handleResetFromDiskFromEditor] at h
      split at h
      next => split at h <;> cases h <;> exact .keep rfl rfl
      next =>
          split at h
          next => cases h; exact .keep rfl rfl
          next =>
              split at h
              next => cases h; exact .keep rfl rfl
              next =>
                  simp only [Option.bind_eq_bind, Option.bind_eq_some_iff, Prod.exists] at h
                  obtain ⟨res, reset, effects', hreset, h⟩ := h
                  cases h
                  exact kept_resetDocFromDisk hreset
  | sendOps h =>
      simp only [handleSendOpsFromEditor] at h
      split at h
      next => cases h; exact .keep rfl rfl
      next =>
          simp only [Option.bind_eq_bind, Option.bind_eq_some_iff, Prod.exists] at h
          obtain ⟨res, doc, _, h⟩ := h
          split at h <;> cases h <;> exact .keep rfl rfl
  | disconnectFromFile h =>
      unfold handleDisconnectFromFile at h
      split at h <;> cases h <;> exact .keep rfl rfl

/-- What a turn does to the documents. -/
theorem Handled.docsStep {os : Os} {before after : Server} {event : Event}
    {effects : List Effect} (h : Handled os before event after effects) :
    DocsStep before after ∨ event.closes = true ∧ Closes (before.closing event) before after := by
  cases hplaces : event.places with
  | false => exact .inl (h.kept hplaces).docsStep
  | true =>
      cases h with
      | idle away tables quiet =>
          exact .inl <| .keep (docs_of_tables tables) (nextDocId_of_tables tables)
      | noted tables quiet still =>
          exact .inl <| .keep (docs_of_tables tables) (nextDocId_of_tables tables)
      | requestFile h =>
          rcases docs_handleRequestFile h with ⟨hdocs, hnext⟩ | ⟨doc, hdocs, hnext⟩
          · exact .inl <| .keep hdocs hnext
          · exact .inl <| .add doc hdocs hnext
      | openFile h => exact .inl <| docsStep_openFileFromEditor h
      | shareFile h => exact .inl <| docsStep_handleShareFileFromEditor h
      | moveFile allowed h =>
          simp only [handleMoveFile] at h
          split at h <;> cases h <;> exact .inl <| docsStep_moveFileOnDisk ..
      | moveFileFromEditor h =>
          simp only [handleMoveFileFromEditor] at h
          split at h
          next => cases h; exact .inl <| .keep rfl rfl
          next => split at h <;> cases h <;> exact .inl <| docsStep_moveFileOnDisk ..
      | closeFile h => exact .inr ⟨rfl, closes_handleCloseFileFromRemote h⟩
      | closeFileFromEditor h => exact .inr ⟨rfl, closes_handleCloseFileFromEditor h⟩
      | deleteFileFromEditor h => exact .inr ⟨rfl, closes_handleCloseFileFromEditor h⟩
      | _ => cases hplaces

/-- The ids of the host stay, and only a declaration changes the projects. -/
theorem Handled.projects {os : Os} {before after : Server} {event : Event}
    {effects : List Effect} (h : Handled os before event after effects) :
    after.hostId = before.hostId ∧ after.siteId = before.siteId ∧
      (after.projects = before.projects ∨ ∃ reqId projects,
        event = .request reqId (.declareProjects projects) ∧
          before.handleDeclareProjects os reqId projects = (after, effects)) := by
  have hrest (hrest : after.rest = before.rest) : after.hostId = before.hostId ∧
      after.siteId = before.siteId ∧ (after.projects = before.projects ∨ ∃ reqId projects,
        event = .request reqId (.declareProjects projects) ∧
          before.handleDeclareProjects os reqId projects = (after, effects)) :=
    ⟨hostId_of_rest hrest, siteId_of_rest hrest, .inl (projects_of_rest hrest)⟩
  have hturn {turn : Turn} (hturn : turn.1.rest = before.rest) (h : turn = (after, effects)) :
      after.rest = before.rest := by
    rwa [h] at hturn
  cases h with
  | idle away tables quiet =>
      exact ⟨hostId_of_tables tables, siteId_of_tables tables, .inl (projects_of_tables tables)⟩
  | noted tables quiet still =>
      exact ⟨hostId_of_tables tables, siteId_of_tables tables, .inl (projects_of_tables tables)⟩
  | hey h => cases h; exact ⟨rfl, rfl, .inl rfl⟩
  | strayInfo stray => exact ⟨rfl, rfl, .inl rfl⟩
  | declareProjects h =>
      obtain ⟨projects, rfl⟩ := after_handleDeclareProjects h
      exact ⟨rfl, rfl, .inr ⟨_, _, rfl, h⟩⟩
  | listFiles reply snap => exact hrest rfl
  | makeDirectory allowed h => exact hrest (hturn (congrArg rest (rest_handleMakeDirectory ..)) h)
  | requestFile h => exact hrest (hturn (rest_handleRequestFile ..) h)
  | snapshot h => exact hrest (hturn (rest_handleSnapshot ..) h)
  | opFromClient h => exact hrest (rest_handleOpFromClient h)
  | opFromServer h => exact hrest (hturn (rest_handleOpFromServer ..) h)
  | requestOps h => exact hrest (hturn (rest_handleRequestOps ..) h)
  | moveFile allowed h => exact hrest (hturn (rest_handleMoveFile ..) h)
  | saveFile allowed h => exact hrest (hturn (rest_handleSaveFile ..) h)
  | resetFromDisk allowed h => exact hrest (rest_handleResetFromDisk h)
  | stopSendingOps h => exact hrest (hturn (rest_handleStopSendingOps ..) h)
  | closeFile h => exact hrest (hturn (rest_handleCloseFileFromRemote ..) h)
  | docFatal h => exact hrest (hturn (rest_handleDocFatal ..) h)
  | openFile h => exact hrest (hturn (rest_openFileFromEditor ..) h)
  | sendOps h => exact hrest (rest_handleSendOpsFromEditor h)
  | shareFile h => exact hrest (hturn (rest_handleShareFileFromEditor ..) h)
  | moveFileFromEditor h => exact hrest (hturn (rest_handleMoveFileFromEditor ..) h)
  | saveFileFromEditor h => exact hrest (hturn (rest_handleSaveFileFromEditor ..) h)
  | resetFromDiskFromEditor h => exact hrest (rest_handleResetFromDiskFromEditor h)
  | disconnectFromFile h => exact hrest (hturn (rest_handleDisconnectFromFile ..) h)
  | closeFileFromEditor h => exact hrest (hturn (rest_handleCloseFileFromEditor ..) h)
  | deleteFileFromEditor h => exact hrest (hturn (rest_handleCloseFileFromEditor ..) h)
  | fileChanged h => exact hrest (rest_resetDocFromDisk h)

/-! ## Looking up documents after a turn -/

theorem get_foldl_erase (docIds : List DocId) (docs : List (DocId × DocEntry)) (docId : DocId) :
    AssocMap.get (docIds.foldl AssocMap.erase docs) docId =
      if docId ∈ docIds then none else AssocMap.get docs docId := by
  induction docIds generalizing docs with
  | nil => simp
  | cons first docIds ih =>
      rw [List.foldl_cons, ih, AssocMap.get_erase]
      by_cases h : docId = first
      · simp [h]
      · simp [h]

theorem Closes.doc? {docIds : List DocId} {before after : Server} (h : Closes docIds before after)
    (docId : DocId) : after.doc? docId = if docId ∈ docIds then none else before.doc? docId := by
  rw [Server.doc?, h.docs, get_foldl_erase]
  rfl

/-- A move gives documents other paths and does nothing else. -/
theorem get_moveDocs (os : Os) (oldPath newPath : UnixPath.Path) {docs : List (DocId × DocEntry)}
    {docId : DocId} {doc : DocEntry} (h : AssocMap.get docs docId = some doc) :
    ∃ absFilename, AssocMap.get (moveDocs os oldPath newPath docs).2 docId =
      some { doc with absFilename } := by
  induction docs with
  | nil => cases h
  | cons entry docs ih =>
      obtain ⟨k, first⟩ := entry
      have hcons (absFilename : PathId) (rest : List (DocId × DocEntry))
          (hrest : AssocMap.get docs docId = some doc →
            ∃ path, AssocMap.get rest docId = some { doc with absFilename := path }) :
          ∃ path, AssocMap.get ((k, { first with absFilename }) :: rest) docId =
            some { doc with absFilename := path } := by
        by_cases hk : k = docId
        · simp only [AssocMap.get, hk, if_true, Option.some_inj] at h ⊢
          exact ⟨absFilename, by rw [h]⟩
        · simp only [AssocMap.get, hk, if_false] at h ⊢
          exact hrest h
      simp only [moveDocs]
      split
      next => exact hcons first.absFilename docs fun h => ⟨doc.absFilename, h⟩
      next =>
          split
          next => exact hcons first.absFilename _ ih
          next path _ => exact hcons (.path path) _ ih

/-- A turn that is no close keeps every document under its id. -/
theorem DocsStep.keeps {before after : Server} (h : DocsStep before after) {docId : DocId}
    {doc : DocEntry} (hget : before.doc? docId = some doc) :
    ∃ doc', after.doc? docId = some doc' := by
  have hinsert (k : DocId) (new : DocEntry)
      (hdocs : after.docs = AssocMap.insert before.docs k new) :
      ∃ doc', after.doc? docId = some doc' := by
    rw [Server.doc?, hdocs, AssocMap.get_insert]
    split
    next => exact ⟨new, rfl⟩
    next => exact ⟨doc, hget⟩
  cases h with
  | keep docs next => exact ⟨doc, by rw [Server.doc?, docs]; exact hget⟩
  | update k _ new mem docs names next => exact hinsert k new docs
  | add new docs next => exact hinsert _ new docs
  | move os oldPath newPath docs next =>
      obtain ⟨absFilename, hmoved⟩ := get_moveDocs os oldPath newPath hget
      exact ⟨_, by rw [Server.doc?, docs]; exact hmoved⟩

/-! ## Reachable servers -/

/-- A turn of the main loop, without what it does outside. -/
def step (self : Server) (turn : Os × Event) : Option Server :=
  (self.handle turn.1 turn.2).map Prod.fst

/-- A state that a server can come to. -/
def Reachable (self : Server) : Prop :=
  ∃ hostId config idealWorld turns, Run.run step (new hostId config idealWorld) turns = some self

/-- What every turn keeps holds of all reachable servers. -/
theorem Reachable.invariant {self : Server} (h : self.Reachable) {P : Server → Prop}
    (hnew : ∀ hostId config idealWorld, P (new hostId config idealWorld))
    (hstep : ∀ os before event after effects, P before → Handled os before event after effects →
      P after) : P self := by
  obtain ⟨hostId, config, idealWorld, turns, hrun⟩ := h
  refine Run.invariant_all (fun s turn t hs hturn => ?_) (hnew hostId config idealWorld) hrun
  obtain ⟨⟨t, effects⟩, hhandle, rfl⟩ := Option.map_eq_some_iff.mp hturn
  exact hstep turn.1 s turn.2 t effects hs (handled hhandle)

/-- Documents have ids of their own, below the next one. -/
structure IdsOk (server : Server) : Prop where
  nodup : (AssocMap.keys server.docs).Nodup
  lt : ∀ docId ∈ AssocMap.keys server.docs, docId < server.nextDocId

theorem keys_moveDocs (os : Os) (oldPath newPath : UnixPath.Path)
    (docs : List (DocId × DocEntry)) :
    AssocMap.keys (moveDocs os oldPath newPath docs).2 = AssocMap.keys docs := by
  induction docs with
  | nil => rfl
  | cons entry docs ih =>
      obtain ⟨docId, doc⟩ := entry
      simp only [moveDocs]
      split
      next => rfl
      next =>
          split
          next => exact congrArg (docId :: ·) ih
          next => exact congrArg (docId :: ·) ih

theorem sublist_foldl_erase (docIds : List DocId) (docs : List (DocId × DocEntry)) :
    (docIds.foldl AssocMap.erase docs).Sublist docs := by
  induction docIds generalizing docs with
  | nil => exact List.Sublist.refl _
  | cons docId docIds ih => exact (ih _).trans List.filter_sublist

theorem IdsOk.docsStep {before after : Server} (h : before.IdsOk)
    (hstep : DocsStep before after) : after.IdsOk := by
  cases hstep with
  | keep docs next => exact ⟨docs ▸ h.nodup, docs ▸ next ▸ h.lt⟩
  | update docId doc doc' mem docs names next =>
      refine ⟨docs ▸ AssocMap.nodup_insert h.nodup docId doc', fun k hk => ?_⟩
      rw [docs] at hk
      rw [next]
      rcases AssocMap.mem_keys_insert hk with rfl | hk
      · exact h.lt k (AssocMap.mem_keys mem)
      · exact h.lt k hk
  | add doc docs next =>
      refine ⟨docs ▸ AssocMap.nodup_insert h.nodup _ doc, fun k hk => ?_⟩
      rw [docs] at hk
      rw [next]
      rcases AssocMap.mem_keys_insert hk with rfl | hk
      · exact Nat.lt_succ_self _
      · exact Nat.lt_succ_of_lt (h.lt k hk)
  | move os oldPath newPath docs next =>
      have hkeys : AssocMap.keys after.docs = AssocMap.keys before.docs := by
        rw [docs, keys_moveDocs]
      exact ⟨hkeys ▸ h.nodup, hkeys ▸ next ▸ h.lt⟩

theorem IdsOk.closes {before after : Server} {docIds : List DocId} (h : before.IdsOk)
    (hclose : Closes docIds before after) : after.IdsOk := by
  have hsub : (AssocMap.keys after.docs).Sublist (AssocMap.keys before.docs) := by
    rw [hclose.docs]
    exact (sublist_foldl_erase docIds before.docs).map Prod.fst
  exact ⟨h.nodup.sublist hsub, fun k hk => hclose.next ▸ h.lt k (hsub.subset hk)⟩

theorem IdsOk.handled {os : Os} {before after : Server} {event : Event} {effects : List Effect}
    (h : before.IdsOk) (hturn : Handled os before event after effects) : after.IdsOk := by
  rcases hturn.docsStep with hstep | ⟨_, hclose⟩
  · exact h.docsStep hstep
  · exact h.closes hclose

theorem Reachable.idsOk {self : Server} (h : self.Reachable) : self.IdsOk :=
  h.invariant (fun _ _ _ => ⟨List.nodup_nil, by simp [new, AssocMap.keys]⟩)
    fun _ _ _ _ _ hs hturn => hs.handled hturn

end Server

end CollabMode
