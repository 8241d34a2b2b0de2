import CollabMode.World
import CollabMode.Lib.UnixPath

/-!
# Messages

File descriptors, the messages between hosts, and what a server and its editor
say to each other, from `types.rs` and `message.rs`.  Metadata that no handler
reads is left out.

An `Effect` is what a handler does outside of its server: a message, an answer or
a notification to the editor, a call on the file system, a change to the
connections.  An `Os` answers the calls, for one turn of a handler.  The file
system is as the `Os` says for the whole turn.
-/

namespace CollabMode

open UnixPath (Path)

/-! ## File descriptors -/

/-- The virtual project of the documents that are not files. -/
def reservedBuffersProject : ProjectId := ['_', 'b', 'u', 'f', 'f', 'e', 'r', 's']

/-- The virtual project of the files that are in no project. -/
def reservedFilesProject : ProjectId := ['_', 'f', 'i', 'l', 'e', 's']

def isReserved (project : ProjectId) : Bool :=
  project == reservedBuffersProject || project == reservedFilesProject

inductive FileDesc where
  | project (id : ProjectId)
  | projectFile (project : ProjectId) (file : Text)
deriving DecidableEq, Repr

structure EditorFileDesc where
  hostId : ServerId
  project : ProjectId
  /-- Empty for the directory of the project. -/
  file : Text
deriving DecidableEq, Repr

def EditorFileDesc.new (fileDesc : FileDesc) (hostId : ServerId) : EditorFileDesc :=
  match fileDesc with
  | .project id => { hostId, project := id, file := [] }
  | .projectFile project file => { hostId, project, file }

def EditorFileDesc.isProject (self : EditorFileDesc) : Bool := self.file.isEmpty

/-- `trim_matches('/')`. -/
def trimSlashes (s : Text) : Text :=
  ((s.dropWhile (· == '/')).reverse.dropWhile (· == '/')).reverse

/-- The descriptor that hosts use, `FileDesc::from`. -/
def FileDesc.from (editorFile : EditorFileDesc) : FileDesc :=
  if editorFile.file.isEmpty then .project editorFile.project
  else .projectFile editorFile.project (trimSlashes editorFile.file)

inductive OpenMode where
  | create
  | open
deriving DecidableEq, Repr

structure ListFilesEntry where
  file : EditorFileDesc
  filename : Text
  isDirectory : Bool
deriving DecidableEq, Repr

/-! ## Between hosts -/

inductive ErrorCode where
  | parseError
  | invalidRequest
  | methodNotFound
  | invalidParams
  | internalError
  | serverErrorStart
  | serverErrorEnd
  | notInitialized
  | docFatal
  | permissionDenied
  | ioError
  | networkError
  | badRequest
  | notConnected
deriving DecidableEq, Repr

structure NewSnapshot where
  content : Text
  name : Text
  internalDoc : InternalDoc
  seq : GlobalSeq
  /-- The site id that the host gives to the receiver. -/
  siteId : SiteId
  fileDesc : FileDesc
  docId : DocId
deriving DecidableEq, Repr

structure Info where
  docId : DocId
  sender : ServerId
  value : Text
deriving DecidableEq, Repr

structure HeyMessage where
  message : String
  credentials : String
  version : String
deriving DecidableEq, Repr

inductive Msg where
  | shareSingleFile (filename : Text) (content : Text)
  | fileShared (doc : DocId)
  | listFiles (dir : Option FileDesc)
  | fileList (files : List ListFilesEntry)
  | opFromClient (ops : ContextOps)
  | opFromServer (doc : DocId) (ops : List (FatOp Op))
  | requestOps (doc : DocId) (after : GlobalSeq)
  | requestFile (file : FileDesc) (mode : OpenMode)
  | makeDirectory (file : FileDesc)
  | directoryMade (file : FileDesc)
  | moveFile (project : ProjectId) (source dest : Text)
  | fileMoved (project : ProjectId) (source dest : Text)
  | saveFile (doc : DocId)
  | fileSaved (doc : DocId)
  | closeFile (file : FileDesc) (delete : Bool)
  | fileDeleted (file : FileDesc)
  | fileClosed (file : FileDesc)
  | snapshot (snapshot : NewSnapshot)
  | resetFromDisk (doc : DocId)
  | info (info : Info)
  | infoFromClient (info : Info)
  | infoFromServer (info : Info)
  | iceProgress (peer : ServerId) (message : String)
  | hey (hey : HeyMessage)
  | bye
  | envoyInit (hostId envoyId : ServerId) (projects : List ConfigProject)
  | envoyInitError (reason : String)
  | failedToConnect (peer : ServerId) (reason : String) (connectionId : ConnectionId)
  | connectionBroke (peer : ServerId) (connectionId : ConnectionId)
  | stopSendingOps (doc : DocId)
  | serializationErr (reason : String)
  | permissionDenied (reason : String)
  | badRequest (reason : String)
  | docFatal (doc : DocId) (reason : String)
  | errorResp (code : ErrorCode) (file : Option FileDesc) (message : String)
deriving DecidableEq, Repr

abbrev RequestId := Nat

/-- What a connection hands to the server. -/
structure Message where
  host : ServerId
  body : Msg
  reqId : Option RequestId
deriving DecidableEq, Repr

/-- What goes to a signaling server and comes from it. -/
inductive SignalingMsg where
  | bound (id : ServerId) (trusted : List ServerId)
  | trust (sender : ServerId) (trusted : List ServerId)
  | trusted (id : ServerId) (trusted : List ServerId)
  | connect (sender receiver : ServerId) (initiator : Bool)
  | rejected (id : ServerId) (reason : String)
  | idNotFound (id : ServerId) (reason : String)
  | other
deriving DecidableEq, Repr

/-! ## With the editor -/

structure Permission where
  write : Bool := true
  create : Bool := true
  delete : Bool := false
deriving DecidableEq, Repr

inductive UndoKind where
  | undo
  | redo
deriving DecidableEq, Repr

inductive Request where
  | init
  | connectionState
  | listProjects (hostId : ServerId)
  | listFiles (dir : EditorFileDesc)
  | openFile (file : EditorFileDesc) (mode : OpenMode)
  | makeDirectory (file : EditorFileDesc)
  | sendOps (ops : List EditorFatOp) (file : EditorFileDesc)
  | undo (file : EditorFileDesc) (kind : UndoKind)
  | shareFile (filename content : Text)
  | updateConfig (trustedHosts : List ServerId) (permission : List (ServerId × Permission))
  | declareProjects (projects : List ConfigProject)
  | moveFile (hostId : ServerId) (project : ProjectId) (oldPath newPath : Text)
  | saveFile (file : EditorFileDesc)
  | resetFromDisk (file : EditorFileDesc)
  | disconnectFromFile (file : EditorFileDesc)
  | closeFile (file : EditorFileDesc)
  | deleteFile (file : EditorFileDesc)
  | printHistory (file : EditorFileDesc)
  | unknown (method : String)
deriving DecidableEq, Repr

inductive EditorNotification where
  | acceptConnection (addr : Text)
  | connect (hostId : ServerId) (transportConfig : TransportConfig)
  | sendInfo (info : Text) (file : EditorFileDesc)
  | stopAccepting (addr : Text)
  | unknown (method : String)
deriving DecidableEq, Repr

structure LiveDocEntry where
  file : EditorFileDesc
  subscribers : List ServerId
  filename : Text
  seq : GlobalSeq
deriving DecidableEq, Repr

structure ConnectedDocEntry where
  file : EditorFileDesc
  filename : Text
deriving DecidableEq, Repr

structure ConnectionStateEntry where
  hostId : ServerId
  status : RemoteStatus
  transport : TransportConfig
deriving DecidableEq, Repr

structure ConnectionStateResp where
  connections : List ConnectionStateEntry
  accepting : List Text
  live : List LiveDocEntry
  connected : List ConnectedDocEntry
  projects : List ConfigProject
  trustedHosts : List ServerId
  permission : List (ServerId × Permission)
deriving DecidableEq, Repr

inductive Response where
  | null
  | error (code : ErrorCode) (message : String)
  | init (hostId : ServerId)
  | connectionState (resp : ConnectionStateResp)
  | listFiles (files : List ListFilesEntry)
  | openFile (content : Text) (siteId : SiteId) (filename : Text) (file : EditorFileDesc)
  | makeDirectory (file : EditorFileDesc)
  | sendOps (ops : List EditorLeanOp) (lastGlobalSeq : GlobalSeq) (pendingLocalOps docLen : Nat)
  | undo (ops : List EditInstruction) (context : Nat)
  | shareFile (file : EditorFileDesc) (siteId : SiteId)
  | moveFile (hostId : ServerId) (project : ProjectId) (oldPath newPath : Text)
  | saveFile (file : EditorFileDesc)
  | resetFromDisk (file : EditorFileDesc)
  | deleteFile (file : EditorFileDesc)
  | printHistory
deriving DecidableEq, Repr

/-- A notification, by its code. -/
inductive Note where
  | connectionProgress (hostId : Option ServerId) (message : String)
  | connecting (hostId : ServerId)
  | connected (hostId : ServerId) (message : String)
  | connectionBroke (hostId : ServerId) (reason : String)
  | failedToConnect (hostId : ServerId) (reason : String)
  | rejected (code : ErrorCode) (message : String)
  | remoteLeft (hostId : ServerId) (message : String)
  | acceptingConnection (addr : Text)
  | acceptStopped (addr : Text) (reason : String)
  | remoteOpsArrived (file : EditorFileDesc) (lastSeq : GlobalSeq)
  | fileMoved (hostId : ServerId) (project : ProjectId) (oldPath newPath : Text)
  | fileDeleted (file : EditorFileDesc)
  | fileClosed (file : EditorFileDesc)
  | infoReceived (file : EditorFileDesc) (info : Text) (sender : ServerId)
  | errorResponse (code : ErrorCode) (file : Option FileDesc) (message : String)
  | internalError (hostId : Option ServerId) (message : String)
  | unimportantError (hostId : ServerId) (message : String)
deriving DecidableEq, Repr

/-! ## Effects -/

/-- A call on the file system. -/
inductive FsCall where
  | stat (path : Path)
  | readDir (path : Path)
  | canonicalize (path : Path)
  /-- Open for reading and writing, and read. -/
  | open (path : Path) (create : Bool)
  /-- Replace what is in the file that was opened at `path`. -/
  | overwrite (path : Path)
  | createDirAll (path : Path)
  | rename (old new : Path)
  | removeDirAll (path : Path)
  | removeFile (path : Path)
  /-- Write the configuration file of the server. -/
  | saveConfig
deriving DecidableEq, Repr

inductive Effect where
  | fs (call : FsCall)
  | send (host : ServerId) (reqId : Option RequestId) (msg : Msg)
  | resp (reqId : RequestId) (resp : Response)
  | notif (note : Note)
  /-- Tell the watcher of files which ones are open. -/
  | watchFiles (paths : List Path)
  | disconnect (peer : ServerId)
  | startConnect (peer : ServerId) (connectionId : ConnectionId) (msgs : List Msg)
  | signalingBind (addr : Text) (trusted : List ServerId)
  | signalingSend (addr : Text) (msg : SignalingMsg)
  | signalingRemove (addr : Text)
  /-- Put a message among those of the peers. -/
  | queue (msg : Message)
  | fixWorldNext
deriving DecidableEq, Repr

/-- What comes of opening a file and reading it.  There is no content when reading
fails. -/
inductive Opened where
  | notOpened
  | opened (isBinary : Bool) (content : Option Text)
deriving DecidableEq, Repr

structure DirEntry where
  name : Text
  /-- Nothing when the entry cannot be accessed. -/
  isDir : Option Bool
deriving DecidableEq, Repr

/-- The answers of the world outside for one turn. -/
structure Os where
  /-- What stands at a path: nothing, a directory, or something else. -/
  stat : Path → Option Bool
  readDir : Path → Option (List (Option DirEntry))
  canonicalize : Path → Option Path
  openFile : Path → (create : Bool) → Opened
  overwrite : Path → Bool
  createDirAll : Path → Bool
  rename : Path → Path → Bool
  removeDirAll : Path → Bool
  removeFile : Path → Bool
  saveConfig : Bool
  /-- The path of `path` from `base`. -/
  diffPaths : (path base : Path) → Option Path
  /-- Put the home directory in the place of a tilde. -/
  expanduser : Text → Option Text
  /-- A diff of the first text to the second. -/
  diff : Text → Text → List Chunk
  isJson : Text → Bool
  now : Instant
  unixEpochSecs : Nat
  newConnectionId : ServerId → ConnectionId
  /-- The certificate that is part of a host's id. -/
  idHash : ServerId → Nat
  /-- The name of an envoy, and the id of a new one if a certificate can be made. -/
  envoyName : ServerId
  envoyId : Option ServerId
  signalingBind : Text → Bool
  signalingSend : Text → SignalingMsg → Bool

namespace Os

def pathExists (os : Os) (path : Path) : Bool := (os.stat path).isSome

def isDir (os : Os) (path : Path) : Bool := os.stat path == some true

/-- An empty disk.  Nothing can be opened, and all other calls succeed. -/
def bare : Os :=
  { stat := fun _ => none
    readDir := fun _ => none
    canonicalize := fun _ => none
    openFile := fun _ _ => .notOpened
    overwrite := fun _ => true
    createDirAll := fun _ => true
    rename := fun _ _ => true
    removeDirAll := fun _ => true
    removeFile := fun _ => true
    saveConfig := true
    diffPaths := fun _ _ => none
    expanduser := some
    diff := fun old new => [.delete old, .insert new]
    isJson := fun _ => true
    now := 0
    unixEpochSecs := 0
    newConnectionId := id
    idHash := id
    envoyName := 0
    envoyId := none
    signalingBind := fun _ => true
    signalingSend := fun _ _ => true }

end Os

end CollabMode
