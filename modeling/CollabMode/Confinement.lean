import CollabMode.Calls
import CollabMode.Creation

/-!
# Projects as roots

Which paths a peer's message about a declared project takes the server to.  The
paths are compared as strings: parent components are resolved, and there are no
links.

The handlers join the string of the message to the root of the project and go there.
`StaysInside` says which strings keep each of them under the root.
-/

namespace CollabMode

open UnixPath (Path Under Stays)

def FileDesc.projectId : FileDesc → ProjectId
  | .project id => id
  | .projectFile id _ => id

/-- The project that the message names a file of. -/
def Msg.project? : Msg → Option ProjectId
  | .requestFile file _ => some file.projectId
  | .listFiles (some dir) => some dir.projectId
  | .makeDirectory file => some file.projectId
  | .moveFile project _ _ => some project
  | .closeFile file _ => some file.projectId
  | _ => none

/-- The paths that the call names.  A file that is open is written without one. -/
def FsCall.paths : FsCall → List Path
  | .stat path => [path]
  | .readDir path => [path]
  | .canonicalize path => [path]
  | .open path _ => [path]
  | .createDirAll path => [path]
  | .rename old new => [old, new]
  | .removeDirAll path => [path]
  | .removeFile path => [path]
  | .overwrite _ => []
  | .saveConfig => []

/-- Directories have entries with proper names. -/
def Os.NamesEntries (os : Os) : Prop :=
  ∀ dir entries entry, os.readDir dir = some entries → some entry ∈ entries →
    UnixPath.IsName entry.name

namespace Server

/-- All paths of the calls are under `root`. -/
def AllUnder (root : Path) (cs : List FsCall) : Prop :=
  ∀ call ∈ cs, ∀ path ∈ call.paths, Under root path

@[simp] theorem allUnder_nil (root : Path) : AllUnder root [] := nofun

@[simp] theorem allUnder_cons {root : Path} {call : FsCall} {cs : List FsCall} :
    AllUnder root (call :: cs) ↔ (∀ path ∈ call.paths, Under root path) ∧ AllUnder root cs :=
  List.forall_mem_cons

@[simp] theorem allUnder_append {root : Path} {cs ds : List FsCall} :
    AllUnder root (cs ++ ds) ↔ AllUnder root cs ∧ AllUnder root ds :=
  List.forall_mem_append

/-! ## Roots of projects -/

/-- All projects are at absolute paths. -/
def RootsAbsolute (self : Server) : Prop :=
  AssocMap.AllVals (fun proj : Project => UnixPath.isAbsolute proj.root = true) self.projects

theorem isAbsolute_of_expandProjectPaths {os : Os} {entries expanded : List ConfigProject}
    (h : expandProjectPaths os entries = .ok expanded) :
    ∀ entry ∈ expanded, UnixPath.isAbsolute entry.path = true := by
  induction entries generalizing expanded with
  | nil => cases h; simp
  | cons entry entries ih =>
      unfold expandProjectPaths at h
      split at h
      next => cases h
      next path hpath =>
          split at h
          next habs =>
              split at h
              next => cases h
              next rest hrest =>
                  cases h
                  exact List.forall_mem_cons.mpr ⟨habs, ih hrest⟩
          next => cases h

theorem allVals_insertProjects {P : Project → Prop} {entries : List ConfigProject}
    (hentries : ∀ entry ∈ entries, P { name := entry.name, root := entry.path })
    {projects : List (ProjectId × Project)} (h : AssocMap.AllVals P projects) :
    AssocMap.AllVals P (insertProjects projects entries) := by
  induction entries generalizing projects with
  | nil => exact h
  | cons entry entries ih =>
      obtain ⟨hentry, hentries⟩ := List.forall_mem_cons.mp hentries
      exact ih hentries (h.insert _ hentry)

theorem RootsAbsolute.handled {os : Os} {before after : Server} {event : Event}
    {effects : List Effect} (h : before.RootsAbsolute)
    (hturn : Handled os before event after effects) : after.RootsAbsolute := by
  obtain ⟨_, _, hsame | ⟨reqId, entries, _, hdeclare⟩⟩ := hturn.projects
  · rw [RootsAbsolute, hsame]
    exact h
  · unfold handleDeclareProjects at hdeclare
    split at hdeclare
    next => cases hdeclare; exact h
    next =>
        split at hdeclare
        next => cases hdeclare; exact h
        next expanded hexpand =>
            cases hdeclare
            exact allVals_insertProjects (isAbsolute_of_expandProjectPaths hexpand) h

theorem Reachable.rootsAbsolute {self : Server} (h : self.Reachable) : self.RootsAbsolute :=
  h.invariant (fun _ _ _ => by simp [RootsAbsolute, new, AssocMap.AllVals])
    fun _ _ _ _ _ hs hturn => hs.handled hturn

theorem Reachable.isAbsolute_root {self : Server} (h : self.Reachable) {project : ProjectId}
    {proj : Project} (hproj : self.project? project = .ok proj) :
    UnixPath.isAbsolute proj.root = true := by
  unfold project? at hproj
  split at hproj
  next hget => cases hproj; exact h.rootsAbsolute.get hget
  next => cases hproj

/-! ## The functions that go to the disk -/

theorem allUnder_openFileFromDisk {os : Os} {self : Server} {project : ProjectId} {relPath : Text}
    {mode : OpenMode} {createAllowed : Bool} {root fullPath : Path}
    (hpath : self.diskPath project relPath = .ok fullPath) :
    AllUnder root (self.openFileFromDisk os project relPath mode createAllowed).2 ↔
      Under root fullPath := by
  constructor
  · intro h
    simp only [openFileFromDisk, hpath] at h
    split at h
    next hasks =>
        have hasks : (decide (mode = .create) && !createAllowed) = true := by
          simpa using (Bool.and_eq_true_iff.mp hasks).1
        simpa [hasks, FsCall.paths] using h
    next =>
        have hopen (asked : List FsCall) (create : Bool)
            (h : AllUnder root (asked ++ [.open fullPath create])) : Under root fullPath :=
          h _ (List.mem_append_right _ List.mem_cons_self) _ List.mem_cons_self
        split at h
        next => exact hopen _ _ h
        next =>
            split at h
            next => exact hopen _ _ h
            next => split at h <;> exact hopen _ _ h
  · intro h call hcall path hmem
    obtain ⟨fullPath', hpath', hcases⟩ := calls_openFileFromDisk hcall
    cases hpath.symm.trans hpath'
    rcases hcases with rfl | rfl <;> exact List.mem_singleton.mp hmem ▸ h

/-- The file that was read is the one at the path. -/
theorem diskPath_of_openFileFromDisk {os : Os} {self : Server} {project : ProjectId}
    {relPath content : Text} {mode : OpenMode} {createAllowed : Bool} {fullPath : Path}
    (h : (self.openFileFromDisk os project relPath mode createAllowed).1 =
      .ok (content, fullPath)) : self.diskPath project relPath = .ok fullPath := by
  unfold openFileFromDisk at h
  split at h
  next => cases h
  next path hpath =>
      dsimp only at h
      split at h
      next => cases h
      next =>
          split at h
          next => cases h
          next =>
              split at h
              next => cases h
              next => split at h <;> cases h; exact hpath

theorem allUnder_listDirectory {os : Os} (hos : os.NamesEntries) (self : Server)
    (project : ProjectId) {root dir : Path} (failed : String) (fileOf : Text → Option Text)
    (habs : UnixPath.isAbsolute dir = true) (hdir : Under root dir) :
    AllUnder root (self.listDirectory os project dir failed fileOf).2 := by
  obtain ⟨stats, heq, hstats⟩ := calls_listDirectory os self project dir failed fileOf
  rw [heq, allUnder_cons]
  refine ⟨by simpa [FsCall.paths] using hdir, fun call hcall path hmem => ?_⟩
  obtain ⟨entries, entry, hread, hentry, rfl⟩ := hstats call hcall
  cases List.mem_singleton.mp hmem
  exact hdir.join_name habs (hos dir entries entry hread hentry)

theorem allUnder_deletePath (os : Os) (root path : Path) :
    AllUnder root (deletePath os path).2 ↔ Under root path := by
  unfold deletePath
  split <;> simp [FsCall.paths]

theorem allUnder_removeDocs (os : Os) (self : Server) (docIds : List DocId) (root : Path) :
    AllUnder root (self.removeDocs os docIds).2 := by
  intro call hcall path hmem
  obtain ⟨_, _, _, _, _, _, rfl⟩ := mem_removeDocs hcall
  cases hmem

theorem allUnder_moveCalls (os : Os) (root old new : Path) :
    AllUnder root (moveCalls os old new).2 ↔
      Under root new ∧ (os.pathExists new = true ∨
        match UnixPath.parent new with
        | none => Under root old
        | some parent =>
            Under root parent ∧ (os.createDirAll parent = false ∨ Under root old)) := by
  unfold moveCalls
  cases hexists : os.pathExists new with
  | true => simp [FsCall.paths]
  | false =>
      cases hparent : UnixPath.parent new with
      | none => simp [FsCall.paths, and_comm]
      | some parent =>
          cases hmade : os.createDirAll parent with
          | false => simp [FsCall.paths, failUnless, hmade]
          | true =>
              simp only [FsCall.paths, failUnless, hmade, Bool.false_eq_true, if_false, if_true,
                List.cons_append, List.nil_append, allUnder_cons, allUnder_nil, and_true,
                List.forall_mem_cons, List.not_mem_nil, false_implies, implies_true, false_or,
                reduceCtorEq]
              tauto

/-! ## Messages about a project -/

/-- The move of a file between two strings stays under the root.  The directory that
the file moves to is made before the file moves. -/
def StaysMoving (os : Os) (root source dest : Path) : Prop :=
  Stays root dest ∧ (os.pathExists (UnixPath.join root dest) = true ∨
    match UnixPath.parent (UnixPath.join root dest) with
    | none => Stays root source
    | some parent => Under root parent ∧ (os.createDirAll parent = false ∨ Stays root source))

/-- When the strings of a message keep the server under the root of the project that the
message names. -/
def StaysInside (os : Os) (self : Server) (root : Path) (msg : Message) : Prop :=
  match msg.body with
  | .requestFile (.projectFile _ file) _ =>
      msg.reqId = none ∨ (self.findDoc (.path (UnixPath.join root file))).isSome = true ∨
        Stays root file
  | .listFiles (some (.projectFile _ file)) => msg.reqId = none ∨ Stays root file
  | .makeDirectory (.projectFile _ file) =>
      self.config.writeAllowed msg.host = false ∨ Stays root file
  | .moveFile _ source dest =>
      self.config.writeAllowed msg.host = false ∨ StaysMoving os root source dest
  | .closeFile (.projectFile _ file) delete =>
      self.config.deleteAllowed msg.host = false ∨ delete = false ∨ Stays root file
  | _ => True

section

variable {os : Os} {self : Server} {project : ProjectId} {proj : Project}
  (hproj : self.project? project = .ok proj) (hres : isReserved project = false)
  (habs : UnixPath.isAbsolute proj.root = true)

include hres

theorem ne_reserved : project ≠ reservedBuffersProject ∧ project ≠ reservedFilesProject := by
  simpa [isReserved] using hres

include hproj

theorem pathIdFromFileDesc_project (file : Text) :
    self.pathIdFromFileDesc (.projectFile project file) =
      .ok (.path (UnixPath.join proj.root file)) := by
  obtain ⟨hbuffers, hfiles⟩ := ne_reserved hres
  simp [pathIdFromFileDesc, hbuffers, hfiles, hproj]

theorem diskPath_project (file : Text) :
    self.diskPath project file = .ok (UnixPath.join proj.root file) := by
  obtain ⟨hbuffers, hfiles⟩ := ne_reserved hres
  simp [diskPath, hbuffers, hfiles, hproj]

include habs

theorem allUnder_handleRequestFile (reqId : Option RequestId) (file : Text) (host : ServerId)
    (mode : OpenMode) :
    AllUnder proj.root
        (calls (self.handleRequestFile os reqId (.projectFile project file) host mode).2) ↔
      (self.findDoc (.path (UnixPath.join proj.root file))).isSome = true ∨
        Stays proj.root file := by
  have hpath := diskPath_project hproj hres file
  rw [calls_handleRequestFile, pathIdFromFileDesc_project hproj hres, ← UnixPath.stays_iff habs]
  dsimp only
  cases self.findDoc (.path (UnixPath.join proj.root file)) with
  | some entry => simp
  | none =>
      have hopen : AllUnder proj.root (self.openFileFromDisk os project file mode
          (self.config.createAllowed host)).2 ↔ Under proj.root (UnixPath.join proj.root file) :=
        allUnder_openFileFromDisk hpath
      simp only [allUnder_append, hopen, Option.isSome_none, Bool.false_eq_true, false_or,
        and_iff_left_iff_imp]
      intro hunder
      split
      next => exact allUnder_nil _
      next content fullPath hread =>
          cases hpath.symm.trans (diskPath_of_openFileFromDisk hread)
          simpa [FsCall.paths] using hunder

theorem allUnder_listFilesFromDisk_project (hos : os.NamesEntries) :
    AllUnder proj.root (self.listFilesFromDisk os (some (.project project))).2 := by
  obtain ⟨hbuffers, hfiles⟩ := ne_reserved hres
  simp only [listFilesFromDisk, hbuffers, hfiles, hproj, if_false]
  exact allUnder_listDirectory hos self project _ some habs (UnixPath.under_refl _)

theorem allUnder_listFilesFromDisk (hos : os.NamesEntries) (file : Text) :
    AllUnder proj.root (self.listFilesFromDisk os (some (.projectFile project file))).2 ↔
      Stays proj.root file := by
  obtain ⟨hbuffers, _⟩ := ne_reserved hres
  rw [← UnixPath.stays_iff habs]
  simp only [listFilesFromDisk, hbuffers, hproj, if_false]
  split
  next => simp [FsCall.paths]
  next => simp [FsCall.paths]
  next =>
      simp only [allUnder_cons, FsCall.paths, List.forall_mem_singleton, and_iff_left_iff_imp]
      exact allUnder_listDirectory hos self project _ _ (UnixPath.isAbsolute_join habs file)

theorem allUnder_makeDirectoryOnDisk (file : Text) :
    AllUnder proj.root (self.makeDirectoryOnDisk os project file).2 ↔ Stays proj.root file := by
  rw [← UnixPath.stays_iff habs]
  simp only [makeDirectoryOnDisk, hres, hproj, Bool.false_eq_true, if_false]
  split <;> simp [FsCall.paths]

omit hres in
theorem allUnder_moveFileOnDisk (source dest : Text) :
    AllUnder proj.root (self.moveFileOnDisk os project source dest).2.2 ↔
      StaysMoving os proj.root source dest := by
  have hcalls : (self.moveFileOnDisk os project source dest).2.2 =
      (moveCalls os (UnixPath.join proj.root source) (UnixPath.join proj.root dest)).2 := by
    simp only [moveFileOnDisk, hproj]
    split <;> rfl
  rw [hcalls, allUnder_moveCalls, StaysMoving, ← UnixPath.stays_iff habs,
    ← UnixPath.stays_iff habs]

omit hres habs in
theorem allUnder_handleCloseFileLocally_project (delete : Bool) :
    AllUnder proj.root
      (calls (self.handleCloseFileLocally os (.project project) delete).2.2) := by
  rw [calls_handleCloseFileLocally]
  simp only [findDocsAndPathToDelete, hproj, allUnder_append, allUnder_removeDocs, true_and]
  cases delete with
  | false => exact allUnder_nil _
  | true => exact (allUnder_deletePath os proj.root proj.root).mpr (UnixPath.under_refl _)

theorem allUnder_handleCloseFileLocally (file : Text) (delete : Bool) :
    AllUnder proj.root
        (calls (self.handleCloseFileLocally os (.projectFile project file) delete).2.2) ↔
      delete = false ∨ Stays proj.root file := by
  rw [calls_handleCloseFileLocally, ← UnixPath.stays_iff habs]
  simp only [findDocsAndPathToDelete, hproj, hres, Bool.false_eq_true, if_false, allUnder_append,
    allUnder_removeDocs, true_and]
  cases delete with
  | false => simp
  | true => simpa using allUnder_deletePath os proj.root (UnixPath.join proj.root file)

end

/-- A message about a declared project stays under the root of the project when and only
when its strings do. -/
theorem allUnder_iff {os : Os} (hos : os.NamesEntries) {before after : Server}
    (hreach : before.Reachable) {msg : Message} {project : ProjectId} {proj : Project}
    (hmsg : msg.body.project? = some project) (hproj : before.project? project = .ok proj)
    (hres : isReserved project = false) {effects : List Effect}
    (h : before.handleRemoteMessage os msg = some (after, effects)) :
    AllUnder proj.root (calls effects) ↔ before.StaysInside os proj.root msg := by
  have habs := hreach.isAbsolute_root hproj
  obtain ⟨host, body, reqId⟩ := msg
  cases body with
  | requestFile file mode =>
      cases reqId with
      | none =>
          cases h
          cases file <;> simp [StaysInside, calls_send]
      | some reqId =>
          have hcalls : calls effects =
              calls (before.handleRequestFile os (some reqId) file host mode).2 := by
            rw [turn_of_some h]
          rw [hcalls]
          cases file with
          | project id => simp [calls_handleRequestFile_project, StaysInside]
          | projectFile id file =>
              obtain rfl : id = project := Option.some.inj hmsg
              simpa [StaysInside] using
                allUnder_handleRequestFile hproj hres habs (some reqId) file host mode
  | listFiles dir =>
      cases dir with
      | none => cases hmsg
      | some dir =>
          cases reqId with
          | none =>
              cases h
              cases dir <;> simp [StaysInside, calls_send]
          | some reqId =>
              have hcalls : calls effects = (before.listFilesFromDisk os (some dir)).2 := by
                cases turn_of_some h
                exact calls_sent _
              rw [hcalls]
              cases dir with
              | project id =>
                  obtain rfl : id = project := Option.some.inj hmsg
                  simpa [StaysInside] using allUnder_listFilesFromDisk_project hproj hres habs hos
              | projectFile id file =>
                  obtain rfl : id = project := Option.some.inj hmsg
                  simpa [StaysInside] using allUnder_listFilesFromDisk hproj hres habs hos file
  | makeDirectory file =>
      simp only [handleRemoteMessage, ifWriteAllowed] at h
      cases hwrite : before.config.writeAllowed host with
      | false =>
          simp only [hwrite, Bool.false_eq_true, if_false] at h
          cases h
          cases file <;> simp [StaysInside, calls_send, hwrite]
      | true =>
          rw [hwrite, if_pos rfl] at h
          cases file with
          | project id =>
              cases turn_of_some h
              simp [StaysInside, calls_send]
          | projectFile id file =>
              obtain rfl : id = project := Option.some.inj hmsg
              have hcalls : calls effects = (before.makeDirectoryOnDisk os id file).2 := by
                cases turn_of_some h
                exact calls_sent _
              rw [hcalls]
              simpa [StaysInside, hwrite] using allUnder_makeDirectoryOnDisk hproj hres habs file
  | moveFile id source dest =>
      obtain rfl : id = project := Option.some.inj hmsg
      simp only [handleRemoteMessage, ifWriteAllowed] at h
      cases hwrite : before.config.writeAllowed host with
      | false =>
          simp only [hwrite, Bool.false_eq_true, if_false] at h
          cases h
          simp [StaysInside, calls_send, hwrite]
      | true =>
          rw [hwrite, if_pos rfl] at h
          have hcalls := calls_handleMoveFile os before reqId id source dest host
          rw [turn_of_some h] at hcalls
          rw [show calls effects = _ from hcalls]
          simpa [StaysInside, hwrite] using allUnder_moveFileOnDisk hproj habs source dest
  | closeFile file delete =>
      have hcalls := calls_handleCloseFileFromRemote os before reqId file host delete
      rw [turn_of_some h] at hcalls
      rw [show calls effects = _ from hcalls]
      cases hdelete : before.config.deleteAllowed host with
      | false => cases file <;> simp [StaysInside, hdelete]
      | true =>
          rw [if_pos rfl]
          cases file with
          | project id =>
              obtain rfl : id = project := Option.some.inj hmsg
              simpa [StaysInside] using allUnder_handleCloseFileLocally_project hproj delete
          | projectFile id file =>
              obtain rfl : id = project := Option.some.inj hmsg
              simpa [StaysInside, hdelete] using
                allUnder_handleCloseFileLocally hproj hres habs file delete
  | _ => cases hmsg

/-- A host whose editor has declared a project. -/
def declared : Server :=
  (fresh.handleDeclareProjects Os.bare 1 [{ name := ['p'], path := "/srv/p".toList }]).1

theorem declared_reachable : declared.Reachable :=
  ⟨0, _, WorldState.new,
    [(Os.bare, .request 1 (.declareProjects [{ name := ['p'], path := "/srv/p".toList }]))], rfl⟩

/-- A request for a file of the project. -/
def requestIn (file : Text) : Message :=
  { host := 5, body := .requestFile (.projectFile ['p'] file) .create, reqId := some 1 }

theorem allUnder_iff_sample :
    ∃ turn, declared.handleRemoteMessage Os.bare (requestIn "a/../b".toList) = some turn ∧
      (AllUnder "/srv/p".toList (calls turn.2) ↔
        declared.StaysInside Os.bare "/srv/p".toList (requestIn "a/../b".toList)) :=
  have hos : Os.bare.NamesEntries := fun _ _ _ hread => nomatch hread
  ⟨_, rfl, allUnder_iff hos declared_reachable rfl rfl
    (by decide : isReserved ['p'] = false) rfl⟩

/-- A parent component takes the server out of the project. -/
theorem not_allUnder :
    declared.Reachable ∧ declared.project? ['p'] = .ok ⟨['p'], "/srv/p".toList⟩ ∧
      ∃ turn, declared.handleRemoteMessage Os.bare (requestIn "../secret".toList) = some turn ∧
        calls turn.2 = [.open "/srv/p/../secret".toList true] ∧
        ¬AllUnder "/srv/p".toList (calls turn.2) := by
  refine ⟨declared_reachable, rfl, _, rfl, rfl, fun h => ?_⟩
  exact absurd (h _ List.mem_cons_self _ List.mem_cons_self) (by decide)

end Server

end CollabMode
