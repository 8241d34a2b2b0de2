import CollabMode.Messages
import Mathlib.Data.Char
import Mathlib.Data.List.Lex
import Mathlib.Data.List.Sort

/-!
# The server

The record `Server` of `server.rs` and the functions that its handlers share: the
two tables of documents, projects and their paths, permissions, and the functions
that go to the disk.  A function that calls the file system returns the calls
beside its result.

A table of documents has the document of `Docs` in each entry, with the names it
goes by.  The file that a document is saved to is known by the path it was opened
at.
-/

namespace CollabMode

open UnixPath (Path)

/-- A path in a message. -/
def showPath (path : Path) : String := String.ofList path

def showText (s : Text) : String := String.ofList s

/-- `content.len()`, which counts bytes. -/
def utf8Len (content : Text) : Nat := (content.map Char.utf8Size).sum

/-! ## Documents of this host -/

inductive PathId where
  /-- The unique name of a buffer. -/
  | buffer (name : Text)
  /-- The unique absolute path of a file. -/
  | path (path : Path)
deriving DecidableEq, Repr

namespace PathId

def isBuffer : PathId → Bool
  | .buffer _ => true
  | .path _ => false

/-- Paths are compared by their components. -/
def same : PathId → PathId → Bool
  | .buffer name, .buffer name' => name == name'
  | .path p, .path p' => UnixPath.same p p'
  | _, _ => false

end PathId

structure DocEntry extends Doc where
  name : Text
  absFilename : PathId
  /-- `absFilename` without links, if there is such a file. -/
  canonFilename : Option Path
  fileDesc : FileDesc
  /-- The file that the document is saved to. -/
  diskFile : Option Path
  lastSavedAt : Instant
deriving DecidableEq, Repr

namespace DocEntry

def new (os : Os) (name : Text) (absFilename : PathId) (fileDesc : FileDesc) (content : Text)
    (engine : ServerEngine) (diskFile : Option Path) : DocEntry :=
  let canonFilename :=
    match absFilename with
    | .path path => os.canonicalize path
    | .buffer _ => none
  { toDoc := Doc.new content engine
    name, absFilename, canonFilename, fileDesc, diskFile, lastSavedAt := os.now }

/-- The calls of `new`. -/
def newCalls : PathId → List FsCall
  | .path path => [.canonicalize path]
  | .buffer _ => []

def «matches» (self : DocEntry) (pathId : PathId) : Bool := self.absFilename.same pathId

/-- Changes on the disk up to this long after a save are taken for echoes of it. -/
def lastSavedAtBuffer : Nat := 100

def saveToDisk (os : Os) (self : DocEntry) : Except String Unit × DocEntry × List FsCall :=
  match self.diskFile with
  | none => (.ok (), self, [])
  | some file =>
      if os.overwrite file then
        (.ok (), { self with lastSavedAt := os.now + lastSavedAtBuffer }, [.overwrite file])
      else (.error s!"Failed to write to file: {showPath file}", self, [.overwrite file])

end DocEntry

/-! ## Documents of peers -/

structure RemoteDocEntry extends RemoteDoc where
  name : Text
  fileDesc : FileDesc
deriving DecidableEq, Repr

structure RemoteDocs where
  docs : List ((ServerId × DocId) × RemoteDocEntry)
  editorMap : List (EditorFileDesc × DocId)
deriving DecidableEq, Repr

namespace RemoteDocs

def new : RemoteDocs := { docs := [], editorMap := [] }

def insert (self : RemoteDocs) (hostId : ServerId) (docId : DocId) (remoteDoc : RemoteDocEntry)
    (editorFileDesc : EditorFileDesc) : RemoteDocs :=
  { docs := AssocMap.insert self.docs (hostId, docId) remoteDoc
    editorMap := AssocMap.insert self.editorMap editorFileDesc docId }

def get (self : RemoteDocs) (hostId : ServerId) (docId : DocId) : Option RemoteDocEntry :=
  AssocMap.get self.docs (hostId, docId)

/-- Put back a document that was looked up. -/
def set (self : RemoteDocs) (hostId : ServerId) (docId : DocId) (remoteDoc : RemoteDocEntry) :
    RemoteDocs :=
  { self with docs := AssocMap.insert self.docs (hostId, docId) remoteDoc }

def getByEditorDesc (self : RemoteDocs) (editorFile : EditorFileDesc) :
    Option (DocId × RemoteDocEntry) := do
  let docId ← AssocMap.get self.editorMap editorFile
  let doc ← self.get editorFile.hostId docId
  some (docId, doc)

def remove (self : RemoteDocs) (hostId : ServerId) (docId : DocId) :
    Option RemoteDocEntry × RemoteDocs :=
  match self.get hostId docId with
  | none => (none, self)
  | some removed =>
      (some removed,
        { docs := AssocMap.erase self.docs (hostId, docId)
          editorMap :=
            AssocMap.erase self.editorMap (EditorFileDesc.new removed.fileDesc hostId) })

def removeByEditorDesc (self : RemoteDocs) (editorFile : EditorFileDesc) : RemoteDocs :=
  match AssocMap.get self.editorMap editorFile with
  | none => self
  | some docId =>
      { docs := AssocMap.erase self.docs (editorFile.hostId, docId)
        editorMap := AssocMap.erase self.editorMap editorFile }

end RemoteDocs

/-! ## The record -/

structure Project where
  name : ProjectId
  /-- The absolute path of the directory. -/
  root : Text
deriving DecidableEq, Repr

structure Config where
  hostId : Option ServerId
  permission : List (ServerId × Permission)
  trustedHosts : List ServerId
deriving DecidableEq, Repr

namespace Config

/-- Always everything for ourselves, and the default for those who have no entry. -/
def allowed (self : Config) (what : Permission → Bool) (hostId : ServerId) : Bool :=
  if some hostId = self.hostId then true
  else
    match AssocMap.get self.permission hostId with
    | some permission => what permission
    | none => what {}

def writeAllowed (self : Config) (hostId : ServerId) : Bool := self.allowed Permission.write hostId

def createAllowed (self : Config) (hostId : ServerId) : Bool :=
  self.allowed Permission.create hostId

def deleteAllowed (self : Config) (hostId : ServerId) : Bool :=
  self.allowed Permission.delete hostId

end Config

structure Server where
  hostId : ServerId
  /-- The site of this host in its own documents. -/
  siteId : SiteId
  nextSiteId : SiteId
  nextDocId : DocId
  docs : List (DocId × DocEntry)
  remoteDocs : RemoteDocs
  projects : List (ProjectId × Project)
  siteIdMap : List (ServerId × SiteId)
  config : Config
  idealWorld : WorldState
  currentWorld : WorldState
  localTrustedHosts : List ServerId
deriving DecidableEq, Repr

/-- A server after a handler, and what the handler did. -/
abbrev Turn := Server × List Effect

namespace Server

def new (hostId : ServerId) (config : Config) (idealWorld : WorldState) : Server :=
  { hostId, siteId := 0, nextSiteId := 1, nextDocId := 1, docs := [], remoteDocs := RemoteDocs.new
    projects := [], siteIdMap := [], config, idealWorld, currentWorld := WorldState.new
    localTrustedHosts := [] }

def doc? (self : Server) (docId : DocId) : Option DocEntry := AssocMap.get self.docs docId

def setDoc (self : Server) (docId : DocId) (doc : DocEntry) : Server :=
  { self with docs := AssocMap.insert self.docs docId doc }

/-- The document at a path. -/
def findDoc (self : Server) (pathId : PathId) : Option (DocId × DocEntry) :=
  self.docs.find? fun entry => entry.2.matches pathId

/-- Add a document under the next id. -/
def addDoc (self : Server) (doc : DocEntry) : DocId × Server :=
  (self.nextDocId, { self.setDoc self.nextDocId doc with nextDocId := self.nextDocId + 1 })

/-- What `resend_watch_files` sends. -/
def watchFiles (self : Server) : Effect :=
  .watchFiles <| self.docs.filterMap fun entry =>
    match entry.2.absFilename with
    | .path path => some path
    | .buffer _ => none

/-- The site id of a host.  A host without one gets the next. -/
def siteIdOf (self : Server) (hostId : ServerId) : SiteId × Server :=
  match AssocMap.get self.siteIdMap hostId with
  | some siteId => (siteId, self)
  | none =>
      (self.nextSiteId,
        { self with
          nextSiteId := self.nextSiteId + 1
          siteIdMap := AssocMap.insert self.siteIdMap hostId self.nextSiteId })

/-! ## Projects -/

def project? (self : Server) (project : ProjectId) : Except String Project :=
  match AssocMap.get self.projects project with
  | some proj => .ok proj
  | none => .error s!"Project {showText project} not found"

def pathIdFromFileDesc (self : Server) (fileDesc : FileDesc) : Except String PathId :=
  match fileDesc with
  | .project project =>
      match self.project? project with
      | .ok proj => .ok (.path proj.root)
      | .error err => .error err
  | .projectFile project file =>
      if project = reservedBuffersProject then .ok (.buffer file)
      else if project = reservedFilesProject then .ok (.path file)
      else
        match self.project? project with
        | .ok proj => .ok (.path (UnixPath.join proj.root file))
        | .error err => .error err

/-- The documents that are files and are under no project. -/
def localDocsNotInAnyProject (self : Server) : List (DocId × DocEntry) :=
  self.docs.filter fun entry =>
    match entry.2.absFilename with
    | .path path => !self.projects.any fun proj => UnixPath.startsWith path proj.2.root
    | .buffer _ => false

/-- The projects with their paths made absolute. -/
def expandProjectPaths (os : Os) : List ConfigProject → Except String (List ConfigProject)
  | [] => .ok []
  | project :: projects =>
      match os.expanduser project.path with
      | none => .error s!"Failed to expand path {showText project.path}"
      | some expanded =>
          if UnixPath.isAbsolute expanded then
            match expandProjectPaths os projects with
            | .error err => .error err
            | .ok projects => .ok ({ project with path := expanded } :: projects)
          else
            .error (s!"Project path '{showText expanded}' is not absolute. " ++
              "All project paths must be absolute.")

/-- Add the projects, or replace the ones that have their names. -/
def insertProjects (projects : List (ProjectId × Project)) :
    List ConfigProject → List (ProjectId × Project)
  | [] => projects
  | entry :: entries =>
      insertProjects
        (AssocMap.insert projects entry.name { name := entry.name, root := entry.path }) entries

/-! ## The disk -/

/-- The path that `open_file_from_disk` opens. -/
def diskPath (self : Server) (project : ProjectId) (relPath : Text) : Except String Path :=
  if project = reservedBuffersProject then .error s!"No existing doc {showText relPath}"
  -- Names in the project of files are absolute paths.
  else if project = reservedFilesProject then .ok relPath
  else
    match self.project? project with
    | .ok proj => .ok (UnixPath.join proj.root relPath)
    | .error err => .error err

/-- Read a file.  Returns its text and its path. -/
def openFileFromDisk (os : Os) (self : Server) (project : ProjectId) (relPath : Text)
    (mode : OpenMode) (createAllowed : Bool) :
    Except (ErrorCode × String) (Text × Path) × List FsCall :=
  match self.diskPath project relPath with
  | .error err => (.error (.ioError, err), [])
  | .ok fullPath =>
      -- Whether the file is there is only asked of those who may not create it.
      let asks := mode = .create && !createAllowed
      let calls := if asks then [FsCall.stat fullPath] else []
      if asks && !os.pathExists fullPath then
        (.error (.permissionDenied,
          s!"Permission denied: Creating file '{showPath fullPath}' is not allowed"), calls)
      else
        let create := mode = .create && createAllowed
        let calls := calls ++ [.open fullPath create]
        match os.openFile fullPath create with
        | .notOpened =>
            (.error (.ioError, s!"Failed to create/open file: {showPath fullPath}"), calls)
        | .opened isBinary content =>
            if isBinary then
              (.error (.ioError, s!"Cannot open binary file: {showPath fullPath}"), calls)
            else
              match content with
              | none => (.error (.ioError, s!"Failed to read file: {showPath fullPath}"), calls)
              | some content => (.ok (content, fullPath), calls)

def makeDirectoryOnDisk (os : Os) (self : Server) (project : ProjectId) (relPath : Text) :
    Except String Unit × List FsCall :=
  if isReserved project then
    (.error s!"Cannot create directory in reserved project {showText project}", [])
  else
    match self.project? project with
    | .error err => (.error err, [])
    | .ok proj =>
        let fullPath := UnixPath.join proj.root relPath
        if os.createDirAll fullPath then (.ok (), [.createDirAll fullPath])
        else
          (.error s!"Failed to create directory: {showPath fullPath}", [.createDirAll fullPath])

/-- The loop over the entries of a directory. -/
def listEntries (hostId : ServerId) (project : ProjectId) (dir : Path)
    (fileOf : Text → Option Text) :
    List (Option DirEntry) → Except String (List ListFilesEntry) × List FsCall
  | [] => (.ok [], [])
  | none :: _ => (.error s!"Can't access files in {showPath dir}", [])
  | some entry :: entries =>
      let call := FsCall.stat (UnixPath.join dir entry.name)
      match entry.isDir with
      | none => (.error s!"Can't access file {showText entry.name}", [call])
      | some isDirectory =>
          match fileOf entry.name with
          | none => (.error "Failed to calculate relative path", [call])
          | some file =>
              let (res, calls) := listEntries hostId project dir fileOf entries
              match res with
              | .error err => (.error err, call :: calls)
              | .ok files =>
                  (.ok ({ file := { hostId, project, file }, filename := entry.name
                          isDirectory } :: files), call :: calls)

def sortEntries (files : List ListFilesEntry) : List ListFilesEntry :=
  files.insertionSort fun a b => a.filename ≤ b.filename

/-- List a directory that is there. -/
def listDirectory (os : Os) (self : Server) (project : ProjectId) (dir : Path) (failed : String)
    (fileOf : Text → Option Text) : Except String (List ListFilesEntry) × List FsCall :=
  match os.readDir dir with
  | none => (.error failed, [.readDir dir])
  | some entries =>
      let (res, calls) := listEntries self.hostId project dir fileOf entries
      match res with
      | .error err => (.error err, .readDir dir :: calls)
      | .ok files => (.ok (sortEntries files), .readDir dir :: calls)

/-- List a directory in a project, the documents of a virtual project, or the
projects. -/
def listFilesFromDisk (os : Os) (self : Server) (dir : Option FileDesc) :
    Except String (List ListFilesEntry) × List FsCall :=
  match dir with
  | some (.projectFile project file) =>
      if project = reservedBuffersProject then
        (.error s!"{showText reservedBuffersProject} doesn't have subdirectories", [])
      else
        match self.project? project with
        | .error err => (.error err, [])
        | .ok proj =>
            let filename := UnixPath.join proj.root file
            match os.stat filename with
            | none => (.error s!"Can't access file {showPath filename}", [.stat filename])
            | some false => (.error s!"Not a directory: {showPath filename}", [.stat filename])
            | some true =>
                let (res, calls) := self.listDirectory os project filename
                  s!"Can't access file {showPath filename}"
                  fun name => os.diffPaths (UnixPath.join filename name) proj.root
                (res, .stat filename :: calls)
  | some (.project id) =>
      if id = reservedBuffersProject then
        (.ok <| sortEntries <| (self.docs.filter fun entry => entry.2.absFilename.isBuffer).map
          fun entry =>
            { file := { hostId := self.hostId, project := id, file := entry.2.name }
              filename := entry.2.name, isDirectory := false }, [])
      else if id = reservedFilesProject then
        (.ok <| sortEntries <| self.localDocsNotInAnyProject.filterMap fun entry =>
          match entry.2.absFilename with
          | .path path =>
              some { file := { hostId := self.hostId, project := id, file := path }
                     filename := entry.2.name, isDirectory := false }
          | .buffer _ => none, [])
      else
        match self.project? id with
        | .error err => (.error err, [])
        | .ok proj =>
            self.listDirectory os id proj.root s!"Can't access project root {showPath proj.root}"
              some
  | none =>
      let entry (name : ProjectId) : ListFilesEntry :=
        { file := { hostId := self.hostId, project := name, file := [] }
          filename := name, isDirectory := true }
      (.ok <| sortEntries <| (self.projects.map fun proj => entry proj.2.name) ++
        [entry reservedBuffersProject, entry reservedFilesProject], [])

/-- The loop over the documents after a move.  Returns the hosts to tell. -/
def moveDocs (os : Os) (oldFullPath newFullPath : Path) :
    List (DocId × DocEntry) → Except String (List ServerId) × List (DocId × DocEntry)
  | [] => (.ok [], [])
  | (docId, doc) :: docs =>
      match doc.absFilename with
      | .buffer _ => (.error "Cannot move buffer", (docId, doc) :: docs)
      | .path absFilename =>
          let moved : Option Path :=
            if UnixPath.same absFilename oldFullPath then some newFullPath
            else if UnixPath.startsWith absFilename oldFullPath then
              (os.diffPaths absFilename oldFullPath).map (UnixPath.join newFullPath)
            else none
          let (res, docs) := moveDocs os oldFullPath newFullPath docs
          match moved with
          | none => (res, (docId, doc) :: docs)
          | some path =>
              (res.map (List.union (AssocMap.keys doc.subscribers)),
                (docId, { doc with absFilename := .path path }) :: docs)

/-- The error of a call that failed. -/
def failUnless (ok : Bool) (err : String) : Except String Unit := if ok then .ok () else .error err

/-- The calls of a move, up to the first that fails. -/
def moveCalls (os : Os) (oldFullPath newFullPath : Path) : Except String Unit × List FsCall :=
  let calls := [FsCall.stat newFullPath]
  if os.pathExists newFullPath then
    (.error s!"Target path already exists on disk: {showPath newFullPath}", calls)
  else
    let (made, calls) : Except String Unit × List FsCall :=
      match UnixPath.parent newFullPath with
      | none => (.ok (), calls)
      | some parent =>
          (failUnless (os.createDirAll parent)
            s!"Failed to create parent directory: {showPath parent}",
            calls ++ [.createDirAll parent])
    match made with
    | .error err => (.error err, calls)
    | .ok () =>
        (failUnless (os.rename oldFullPath newFullPath)
          s!"Failed to move file from {showPath oldFullPath} to {showPath newFullPath}",
          calls ++ [.rename oldFullPath newFullPath])

/-- Returns the hosts to tell. -/
def moveFileOnDisk (os : Os) (self : Server) (project : ProjectId) (oldPath newPath : Text) :
    Except String (List ServerId) × Server × List FsCall :=
  match self.project? project with
  | .error err => (.error err, self, [])
  | .ok proj =>
      let oldFullPath := UnixPath.join proj.root oldPath
      let newFullPath := UnixPath.join proj.root newPath
      let (res, calls) := moveCalls os oldFullPath newFullPath
      match res with
      | .error err => (.error err, self, calls)
      | .ok () =>
          let (res, docs) := moveDocs os oldFullPath newFullPath self.docs
          (res, { self with docs }, calls)

/-- The documents at a path or below it. -/
def docsUnder (self : Server) (path : Path) : List (DocId × DocEntry) :=
  self.docs.filter fun entry =>
    match entry.2.absFilename with
    | .path absFilename => UnixPath.startsWith absFilename path
    | .buffer _ => false

/-- All subscribers of the documents. -/
def subscribersOf (docs : List (DocId × DocEntry)) : List ServerId :=
  docs.foldr (fun entry => List.union (AssocMap.keys entry.2.subscribers)) []

/-- The documents to close with a file, the path to delete, and the hosts to tell. -/
def findDocsAndPathToDelete (self : Server) (file : FileDesc) :
    Except String (List DocId × Option Path × List ServerId) :=
  let under (path : Path) : List DocId × Option Path × List ServerId :=
    let docs := self.docsUnder path
    (AssocMap.keys docs, some path, subscribersOf docs)
  match file with
  | .project id =>
      match self.project? id with
      | .error err => .error err
      | .ok proj => .ok (under proj.root)
  | .projectFile project filePath =>
      if isReserved project then
        match self.pathIdFromFileDesc file with
        | .error err => .error err
        | .ok pathId =>
            match self.findDoc pathId with
            | some (docId, doc) =>
                .ok ([docId],
                  match doc.absFilename with
                  | .path path => some path
                  | .buffer _ => none,
                  AssocMap.keys doc.subscribers)
            | none => .ok ([], none, [])
      else
        match self.project? project with
        | .error err => .error err
        | .ok proj => .ok (under (UnixPath.join proj.root filePath))

/-- Remove the documents.  Their text is saved first. -/
def removeDocs (os : Os) (self : Server) : List DocId → Server × List FsCall
  | [] => (self, [])
  | docId :: docIds =>
      let saved :=
        match self.doc? docId with
        | some doc => (doc.saveToDisk os).2.2
        | none => []
      let self :=
        { self with
          docs := AssocMap.erase self.docs docId
          remoteDocs := (self.remoteDocs.remove self.hostId docId).2 }
      let (self, calls) := removeDocs os self docIds
      (self, saved ++ calls)

/-- Delete a file or a directory. -/
def deletePath (os : Os) (path : Path) : Except String Unit × List FsCall :=
  match os.stat path with
  | some true =>
      (failUnless (os.removeDirAll path) s!"Failed to delete directory: {showPath path}",
        [.stat path, .removeDirAll path])
  | some false =>
      (failUnless (os.removeFile path) s!"Failed to delete file: {showPath path}",
        [.stat path, .removeFile path])
  | none => (.ok (), [.stat path])

/-- Returns the hosts to tell. -/
def handleCloseFileLocally (os : Os) (self : Server) (file : FileDesc) (delete : Bool) :
    Except String (List ServerId) × Turn :=
  match self.findDocsAndPathToDelete file with
  | .error err => (.error err, self, [])
  | .ok (docsToRemove, pathToDelete, subscribers) =>
      let (self, saved) := self.removeDocs os docsToRemove
      let (res, deleted) :=
        match delete, pathToDelete with
        | true, some path => deletePath os path
        | _, _ => (.ok (), [])
      let effects := (saved ++ deleted).map Effect.fs
      match res with
      | .error err => (.error err, self, effects)
      | .ok () => (.ok subscribers, self, effects ++ [self.watchFiles])

def saveFileToDisk (os : Os) (self : Server) (docId : DocId) :
    Except String Unit × Server × List FsCall :=
  match self.doc? docId with
  | none => (.error s!"Doc {docId} not found", self, [])
  | some doc =>
      let (res, doc, calls) := doc.saveToDisk os
      (res, self.setDoc docId doc, calls)

end Server

end CollabMode
