import CollabMode.Names

/-!
# Turns that keep the names of documents

A turn that is `Nameable` keeps documents and descriptors together: it makes a document
only at a path that its descriptor leads back to, moves no file that is open and moves
no project of such a file.

A name is lost where the slashes at the ends of a string count: in the absolute path of
a file that is shared, and in a file of a project that is opened by an absolute path.
-/

namespace CollabMode

open UnixPath (Path)

namespace Server

/-! ## Turns -/

/-- The slashes that are taken off the ends do not count. -/
def TrimKeeps (self : Server) (project : ProjectId) (file : Text) : Prop :=
  (file = [] → isReserved project = false) ∧
    ∀ path trimmed, self.diskPath project file = .ok path →
      self.diskPath project (trimSlashes file) = .ok trimmed →
      UnixPath.components trimmed = UnixPath.components path

theorem trimKeeps_of_trimmed (self : Server) (project : ProjectId) {file : Text}
    (hne : file ≠ []) (htrimmed : trimSlashes file = file) : self.TrimKeeps project file := by
  refine ⟨fun hnil => absurd hnil hne, fun path trimmed hpath htrim => ?_⟩
  rw [htrimmed, hpath] at htrim
  cases htrim
  rfl

/-- The file that an event has the host move. -/
def moveOf (self : Server) : Event → Option (ProjectId × Text × Text)
  | .message { host, body := .moveFile project oldPath newPath, .. } =>
      if self.config.writeAllowed host then some (project, oldPath, newPath) else none
  | .request _ (.moveFile hostId project oldPath newPath) =>
      if self.hostId = hostId then some (project, oldPath, newPath) else none
  | _ => none

/-- A turn that keeps documents and descriptors together. -/
structure Nameable (os : Os) (before : Server) (event : Event) : Prop where
  /-- What is shared is a buffer, and its name has no slash at its ends. -/
  share : ∀ reqId filename content, event = .request reqId (.shareFile filename content) →
    before.newText os event ≠ none →
    (os.expanduser filename).getD filename = filename ∧ os.pathExists filename = false ∧
      filename ≠ [] ∧ trimSlashes filename = filename
  openFile : ∀ reqId file mode, event = .request reqId (.openFile file mode) →
    before.newText os event ≠ none → before.TrimKeeps file.project file.file
  request : ∀ host reqId project file mode,
    event = .message
      { host, body := .requestFile (.projectFile project file) mode, reqId := some reqId } →
    before.newText os event ≠ none ∨
      (∃ pathId, before.pathIdFromFileDesc (.projectFile project file) = .ok pathId ∧
        before.findDoc pathId ≠ none) →
    before.TrimKeeps project file
  /-- Files that are open stay where they are. -/
  move : ∀ project oldPath newPath proj, before.moveOf event = some (project, oldPath, newPath) →
    before.project? project = .ok proj →
    (moveCalls os (UnixPath.join proj.root oldPath) (UnixPath.join proj.root newPath)).1 = .ok () →
    before.docsUnder (UnixPath.join proj.root oldPath) = []
  /-- So do the projects of files that are open. -/
  declare : ∀ reqId entries expanded, event = .request reqId (.declareProjects entries) →
    expandProjectPaths os entries = .ok expanded →
    ∀ entry ∈ expanded, ∀ doc ∈ before.docs, ∀ file,
      doc.2.fileDesc = .projectFile entry.name file →
      ∀ proj, before.project? entry.name = .ok proj →
      UnixPath.components entry.path = UnixPath.components proj.root

section

variable {before after : Server}

theorem NamedBy.congr (hprojects : after.projects = before.projects) {names : Names}
    (h : before.NamedBy names) : after.NamedBy names := by
  cases h with
  | buffer desc pathId name ne trimmed => exact .buffer desc pathId name ne trimmed
  | file desc pathId relative ne same => exact .file desc pathId relative ne same
  | inProject desc pathId declared same =>
      refine .inProject desc pathId ?_ same
      rw [project?, hprojects]
      exact declared

variable (h : before.WellNamed) (hprojects : after.projects = before.projects)
  (hids : after.IdsOk)
include h hprojects hids

/-- Documents were closed or stayed. -/
theorem WellNamed.of_sublist (hsub : after.nameList.Sublist before.nameList) : after.WellNamed where
  named names hmem := (h.named names (hsub.subset hmem)).congr hprojects
  distinct := h.distinct.sublist hsub
  ids := hids
  roots := by rw [RootsAbsolute, hprojects]; exact h.roots
  free := hprojects ▸ h.free

theorem WellNamed.kept (hkept : Kept before after) : after.WellNamed := by
  have hlist : after.nameList = before.nameList := by
    cases hkept with
    | keep docs next => rw [nameList, docs, nameList]
    | update docId doc doc' mem docs names next =>
        rw [nameList, docs]
        exact AssocMap.map_insert_of_mem h.ids.nodup mem names
  exact h.of_sublist hprojects hids (hlist ▸ List.Sublist.refl _)

theorem WellNamed.closes {docIds : List DocId} (hclose : Closes docIds before after) :
    after.WellNamed := by
  refine h.of_sublist hprojects hids ?_
  rw [nameList, hclose.docs]
  exact (sublist_foldl_erase docIds before.docs).map _

/-- A document was made at a path where there was none. -/
theorem WellNamed.add {doc : DocEntry}
    (hdocs : after.docs = AssocMap.insert before.docs before.nextDocId doc)
    (hnamed : before.NamedBy doc.names)
    (hnew : ∀ entry ∈ before.docs, entry.2.matches doc.absFilename = false) : after.WellNamed := by
  have hfresh : before.nextDocId ∉ AssocMap.keys before.docs :=
    fun hmem => absurd (h.ids.lt _ hmem) (Nat.lt_irrefl _)
  have hlist : after.nameList = before.nameList ++ [doc.names] := by
    rw [nameList, hdocs, AssocMap.insert_of_not_mem hfresh, List.map_append]
    rfl
  refine ⟨fun names hmem => ?_, ?_, hids, ?_, hprojects ▸ h.free⟩
  · rw [hlist] at hmem
    rcases List.mem_append.mp hmem with hmem | hmem
    · exact (h.named names hmem).congr hprojects
    · cases List.mem_singleton.mp hmem
      exact hnamed.congr hprojects
  · rw [hlist]
    refine List.pairwise_append.mpr ⟨h.distinct, List.pairwise_singleton _ _, fun a ha b hb => ?_⟩
    obtain ⟨entry, hentry, rfl⟩ := List.mem_map.mp ha
    cases List.mem_singleton.mp hb
    exact hnew entry hentry
  · rw [RootsAbsolute, hprojects]
    exact h.roots

end

/-! ## Paths on the disk -/

theorem pathId_of_diskPath {self : Server} {project : ProjectId} {file : Text} {path : Path}
    (h : self.diskPath project file = .ok path) :
    self.pathIdFromFileDesc (.projectFile project file) = .ok (.path path) := by
  simp only [pathIdFromFileDesc]
  unfold diskPath at h
  split at h
  next => cases h
  next hbuffers =>
      rw [if_neg hbuffers]
      split at h
      next hfiles => cases h; rw [if_pos hfiles]
      next hfiles =>
          rw [if_neg hfiles]
          split at h
          next proj hproj => cases h; rfl
          next => cases h

section

variable {self : Server} {project : ProjectId} {file fullPath : Text}
  (hkeeps : self.TrimKeeps project file) (hdisk : self.diskPath project file = .ok fullPath)
include hkeeps hdisk

/-- The path is found again without the slashes. -/
theorem TrimKeeps.pathId : ∃ trimmed,
    self.pathIdFromFileDesc (.projectFile project (trimSlashes file)) = .ok (.path trimmed) ∧
      UnixPath.components trimmed = UnixPath.components fullPath := by
  have htrim : ∃ trimmed, self.diskPath project (trimSlashes file) = .ok trimmed := by
    unfold diskPath at hdisk ⊢
    split at hdisk
    next => cases hdisk
    next hbuffers =>
        rw [if_neg hbuffers]
        split at hdisk
        next hfiles => exact ⟨_, if_pos hfiles⟩
        next hfiles =>
            rw [if_neg hfiles]
            split at hdisk
            next proj hproj => exact ⟨_, rfl⟩
            next => cases hdisk
  obtain ⟨trimmed, htrim⟩ := htrim
  exact ⟨trimmed, pathId_of_diskPath htrim, hkeeps.2 _ _ hdisk htrim⟩

/-- So a document at the path can go by the string, with or without slashes. -/
theorem TrimKeeps.namedBy (name : Text) {file' : Text}
    (hfile : file' = file ∨ file' = trimSlashes file) :
    self.NamedBy (name, .path fullPath, .projectFile project file') := by
  have htrim : trimSlashes file' = trimSlashes file := by
    rcases hfile with rfl | rfl
    · rfl
    · exact trimSlashes_trimSlashes file
  by_cases hbuffers : project = reservedBuffersProject
  · simp [diskPath, hbuffers] at hdisk
  by_cases hfiles : project = reservedFilesProject
  · subst hfiles
    have hpath : fullPath = file := by simpa [diskPath, hbuffers, eq_comm] using hdisk
    have hsame : UnixPath.components (trimSlashes file) = UnixPath.components file :=
      hkeeps.2 _ _ (hpath ▸ hdisk) (by simp [diskPath, hbuffers])
    have hrelative : RelativeName file := by
      refine ⟨fun hnil => absurd (hkeeps.1 hnil) (by decide), ?_⟩
      rw [← Bool.not_eq_true, ← UnixPath.rootDir_mem_components, ← hsame,
        UnixPath.rootDir_mem_components, isAbsolute_trimSlashes]
      exact Bool.false_ne_true
    have hne : file' ≠ [] := by
      rcases hfile with rfl | rfl
      · exact hrelative.1
      · exact (trimSlashes_spec hrelative).1
    subst hpath
    exact .file rfl rfl hrelative hne (htrim ▸ hsame)
  · cases hproj : self.project? project with
    | error err => simp [diskPath, hbuffers, hfiles, hproj] at hdisk
    | ok proj =>
        have hdiskOf (f : Text) : self.diskPath project f = .ok (UnixPath.join proj.root f) := by
          simp [diskPath, hbuffers, hfiles, hproj]
        exact .inProject rfl rfl hproj (htrim ▸ hkeeps.2 _ _ hdisk (hdiskOf _))

end

/-! ## What a turn makes -/

section

variable {os : Os} {self after : Server} {effects : List Effect}

/-- The document that opening a file makes. -/
theorem made_openFileFromEditor {reqId : RequestId} {file : EditorFileDesc} {mode : OpenMode}
    (h : self.openFileFromEditor os reqId file mode = (after, effects)) :
    Kept self after ∨
      ∃ doc name fullPath pathId, after.docs = AssocMap.insert self.docs self.nextDocId doc ∧
        doc.names = (name, .path fullPath, FileDesc.from file) ∧ file.isProject = false ∧
        self.newText os (.request reqId (.openFile file mode)) ≠ none ∧
        self.diskPath file.project file.file = .ok fullPath ∧
        self.pathIdFromFileDesc (FileDesc.from file) = .ok pathId ∧
        ∀ entry ∈ self.docs, entry.2.matches pathId = false := by
  unfold openFileFromEditor at h
  dsimp only at h
  split at h
  next hhost =>
      split at h
      next => cases h; exact .inl <| .keep rfl rfl
      next hproject =>
          split at h
          next => cases h; exact .inl <| .keep rfl rfl
          next pathId hpath =>
              split at h
              next docId doc hfind =>
                  obtain ⟨hdocs, hnext⟩ := docs_openOwnDoc self reqId docId doc file
                  rw [h] at hdocs hnext
                  have hmem := List.mem_reverse.mp (List.mem_of_find?_eq_some hfind)
                  exact .inl <| .update docId doc _ hmem hdocs rfl hnext
              next hfind =>
                  split at h
                  next => cases h; exact .inl <| .keep rfl rfl
                  next content fullPath hread =>
                      cases h
                      have hnew : self.newText os (.request reqId (.openFile file mode)) =
                          some content := by
                        simp [newText, hhost, hproject, ownDoc?, hpath, hfind, contentOf, hread,
                          Except.toOption]
                      refine .inr ⟨_, (UnixPath.fileName file.file).getD file.file, fullPath,
                        pathId, (docs_openOwnDoc _ reqId _ _ file).1.trans
                          (AssocMap.insert_insert ..), rfl,
                        Bool.eq_false_iff.mpr hproject, by simp [hnew],
                        diskPath_of_openFileFromDisk hread, hpath, fun entry hmem => ?_⟩
                      have hnot := List.find?_eq_none.mp hfind entry (List.mem_reverse.mpr hmem)
                      simpa using hnot
  next => split at h <;> cases h <;> exact .inl <| .keep rfl rfl

/-- The document that a peer's request makes. -/
theorem made_handleRequestFile {reqId : RequestId} {file : FileDesc} {host : ServerId}
    {mode : OpenMode}
    (h : self.handleRequestFile os (some reqId) file host mode = (after, effects)) :
    Kept self after ∨
      ∃ doc name fullPath project filename,
        after.docs = AssocMap.insert self.docs self.nextDocId doc ∧
        file = .projectFile project filename ∧
        doc.names = (name, .path fullPath, .projectFile project filename) ∧
        self.newText os (.message { host, body := .requestFile file mode, reqId := some reqId }) ≠
          none ∧
        self.diskPath project filename = .ok fullPath ∧
        ∀ entry ∈ self.docs, entry.2.matches (.path fullPath) = false := by
  have hdocs := siteIdOf_docs self host
  have hnext := nextDocId_siteIdOf self host
  unfold handleRequestFile at h
  split at h
  next => cases h; exact .inl <| .keep rfl rfl
  next pathId hpath =>
      dsimp only at h
      split at h
      next => cases h; exact .inl <| .keep hdocs hnext
      next project filename =>
          split at h
          next => cases h; exact .inl <| .keep hdocs hnext
          next hnone =>
              split at h
              next => cases h; exact .inl <| .keep hdocs hnext
              next content fullPath hread =>
                  cases h
                  rw [openFileFromDisk_siteIdOf, config_siteIdOf] at hread
                  rw [findDoc_siteIdOf] at hnone
                  have hdisk := diskPath_of_openFileFromDisk hread
                  cases hpath.symm.trans (pathId_of_diskPath hdisk)
                  have hnew : self.newText os (.message
                      ⟨host, .requestFile (.projectFile project filename) mode, some reqId⟩) =
                        some content := by
                    simp [newText, hpath, hnone, contentOf, hread, Except.toOption]
                  have hadd (doc : DocEntry) : ((self.siteIdOf host).2.addDoc doc).2.docs =
                      AssocMap.insert self.docs self.nextDocId doc := by
                    show AssocMap.insert (self.siteIdOf host).2.docs
                      (self.siteIdOf host).2.nextDocId doc = _
                    rw [hdocs, hnext]
                  refine .inr ⟨_, (UnixPath.fileName filename).getD filename, fullPath, project,
                    filename, hadd _, rfl, rfl, by simp [hnew], hdisk, fun entry hmem => ?_⟩
                  simpa using List.find?_eq_none.mp hnone entry hmem

/-- The document that is shared, under the name it was shared by. -/
theorem made_handleShareFileFromEditor {reqId : RequestId} {filename content : Text}
    (hbuffer : self.newText os (.request reqId (.shareFile filename content)) ≠ none →
      (os.expanduser filename).getD filename = filename ∧ os.pathExists filename = false ∧
        UnixPath.isAbsolute filename = false)
    (h : self.handleShareFileFromEditor os reqId filename content = (after, effects)) :
    Kept self after ∨
      ∃ doc, after.docs = AssocMap.insert self.docs self.nextDocId doc ∧
        doc.names = (filename, .buffer filename, .projectFile reservedBuffersProject filename) ∧
        self.newText os (.request reqId (.shareFile filename content)) ≠ none ∧
        ∀ entry ∈ self.docs, entry.2.matches (.buffer filename) = false := by
  have hpathId : self.pathIdFromFileDesc
      (if UnixPath.isAbsolute ((os.expanduser filename).getD filename) then
        .projectFile reservedFilesProject ((os.expanduser filename).getD filename)
      else .projectFile reservedBuffersProject filename) =
      .ok (if UnixPath.isAbsolute ((os.expanduser filename).getD filename) then
        .path ((os.expanduser filename).getD filename) else .buffer filename) := by
    split
    next => simp [pathIdFromFileDesc, reservedFilesProject, reservedBuffersProject]
    next => simp [pathIdFromFileDesc]
  simp only [handleShareFileFromEditor] at h
  rw [hpathId] at h
  dsimp only at h
  split at h
  next => cases h; exact .inl <| .keep rfl rfl
  next hnone =>
      have hnew : self.newText os (.request reqId (.shareFile filename content)) = some content :=
        if_pos hnone
      obtain ⟨hexpand, hexists, habs⟩ := hbuffer (by simp [hnew])
      rw [hexpand, habs, if_neg Bool.false_ne_true] at hnone
      cases h
      refine .inr ⟨_, rfl, ?_, by simp [hnew], fun entry hmem => ?_⟩
      · simp [DocEntry.names, DocEntry.new, hexpand, hexists, habs]
      · simpa using List.find?_eq_none.mp hnone entry hmem

end

/-! ## Every turn -/

theorem moveDocs_of_docsUnder {os : Os} {oldPath newPath : Path} {docs : List (DocId × DocEntry)}
    (h : ∀ entry ∈ docs, ∀ path, entry.2.absFilename = .path path →
      UnixPath.startsWith path oldPath = false) :
    (moveDocs os oldPath newPath docs).2 = docs := by
  induction docs with
  | nil => rfl
  | cons entry docs ih =>
      obtain ⟨docId, doc⟩ := entry
      obtain ⟨hentry, hrest⟩ := List.forall_mem_cons.mp h
      simp only [moveDocs]
      split
      next => rfl
      next path hpath =>
          have hstarts := hentry path hpath
          have hsame : UnixPath.same path oldPath = false := by
            rw [Bool.eq_false_iff] at hstarts ⊢
            intro hsame
            rw [UnixPath.same_iff] at hsame
            exact hstarts (UnixPath.startsWith_iff.mpr (hsame ▸ List.prefix_rfl))
          simp only [hsame, hstarts, Bool.false_eq_true, if_false, ih hrest]

/-- A move that finds no open files changes nothing. -/
theorem docs_moveFileOnDisk {os : Os} {self : Server} {project : ProjectId}
    {oldPath newPath : Text}
    (h : ∀ proj, self.project? project = .ok proj →
      (moveCalls os (UnixPath.join proj.root oldPath) (UnixPath.join proj.root newPath)).1 =
        .ok () →
      self.docsUnder (UnixPath.join proj.root oldPath) = []) :
    (self.moveFileOnDisk os project oldPath newPath).2.1.docs = self.docs ∧
      (self.moveFileOnDisk os project oldPath newPath).2.1.nextDocId = self.nextDocId := by
  unfold moveFileOnDisk
  split
  next => exact ⟨rfl, rfl⟩
  next proj hproj =>
      dsimp only
      split
      next => exact ⟨rfl, rfl⟩
      next hcalls =>
          refine ⟨moveDocs_of_docsUnder fun entry hmem path hpath => ?_, rfl⟩
          have hnot := List.filter_eq_nil_iff.mp (h proj hproj hcalls) entry hmem
          simpa [hpath] using hnot

theorem get_insertProjects {entries : List ConfigProject}
    {projects : List (ProjectId × Project)} {project : ProjectId} {proj : Project}
    (h : AssocMap.get projects project = some proj) {P : Text → Prop} (hroot : P proj.root)
    (hentries : ∀ entry ∈ entries, entry.name = project → P entry.path) :
    ∃ proj', AssocMap.get (insertProjects projects entries) project = some proj' ∧
      P proj'.root := by
  induction entries generalizing projects proj with
  | nil => exact ⟨proj, h, hroot⟩
  | cons entry entries ih =>
      obtain ⟨hentry, hrest⟩ := List.forall_mem_cons.mp hentries
      by_cases hname : entry.name = project
      · have hget : AssocMap.get (AssocMap.insert projects entry.name
            { name := entry.name, root := entry.path }) project =
              some ⟨entry.name, entry.path⟩ := by rw [← hname, AssocMap.get_insert_self]
        exact ih hget (hentry hname) hrest
      · refine ih ?_ hroot hrest
        rw [AssocMap.get_insert_of_ne (Ne.symm hname)]
        exact h

theorem names_insertProjects {entries : List ConfigProject}
    {projects : List (ProjectId × Project)} {proj : ProjectId × Project}
    (h : proj ∈ insertProjects projects entries) :
    proj ∈ projects ∨ ∃ entry ∈ entries, entry.name = proj.1 := by
  induction entries generalizing projects with
  | nil => exact .inl h
  | cons entry entries ih =>
      rcases ih h with hmem | ⟨other, hother, hname⟩
      · rcases AssocMap.mem_insert hmem with rfl | hmem
        · exact .inr ⟨entry, List.mem_cons_self, rfl⟩
        · exact .inl hmem
      · exact .inr ⟨other, List.mem_cons_of_mem _ hother, hname⟩

theorem names_of_expandProjectPaths {os : Os} {entries expanded : List ConfigProject}
    (h : expandProjectPaths os entries = .ok expanded) :
    expanded.map ConfigProject.name = entries.map ConfigProject.name := by
  induction entries generalizing expanded with
  | nil => cases h; rfl
  | cons entry entries ih =>
      unfold expandProjectPaths at h
      split at h
      next => cases h
      next path hpath =>
          split at h
          next =>
              split at h
              next => cases h
              next rest hrest =>
                  cases h
                  exact congrArg (entry.name :: ·) (ih hrest)
          next => cases h

theorem WellNamed.declareProjects {os : Os} {before after : Server} {reqId : RequestId}
    {entries : List ConfigProject} {effects : List Effect} (h : before.WellNamed)
    (hname : Nameable os before (.request reqId (.declareProjects entries)))
    (hroots : after.RootsAbsolute)
    (hturn : before.handleDeclareProjects os reqId entries = (after, effects)) :
    after.WellNamed := by
  unfold handleDeclareProjects at hturn
  split at hturn
  next => cases hturn; exact h
  next hfree =>
      split at hturn
      next => cases hturn; exact h
      next expanded hexpand =>
          cases hturn
          refine ⟨fun names hmem => ?_, h.distinct, ⟨h.ids.nodup, h.ids.lt⟩, hroots,
            fun proj hmem => ?_⟩
          · cases h.named names hmem with
            | buffer desc pathId name ne trimmed => exact .buffer desc pathId name ne trimmed
            | file desc pathId relative ne same => exact .file desc pathId relative ne same
            | @inProject path file project proj desc pathId declared same =>
                obtain ⟨doc, hdoc, rfl⟩ := List.mem_map.mp hmem
                obtain ⟨proj', hget, hsame⟩ := get_insertProjects (get_of_project? declared)
                  (P := fun root => UnixPath.components root = UnixPath.components proj.root) rfl
                  fun entry hentry heq => hname.declare _ _ _ rfl hexpand entry hentry doc hdoc file
                    (by rw [heq]; exact desc) proj (by rw [heq]; exact declared)
                have hdeclared' : project? { before with
                    projects := insertProjects before.projects expanded } project = .ok proj' := by
                  simp only [project?, hget]
                refine .inProject desc pathId hdeclared' ?_
                have hroot := h.isAbsolute_root declared
                have hroot' : UnixPath.isAbsolute proj'.root = true := hroots.get hget
                rw [UnixPath.components_join hroot (isAbsolute_trimSlashes file)] at same
                rw [UnixPath.components_join hroot' (isAbsolute_trimSlashes file), hsame, same]
          · rcases names_insertProjects hmem with hmem | ⟨entry, hentry, hproj⟩
            · exact h.free proj hmem
            · have hin : entry.name ∈ entries.map ConfigProject.name :=
                names_of_expandProjectPaths hexpand ▸ List.mem_map_of_mem hentry
              obtain ⟨entry', hentry', heq⟩ := List.mem_map.mp hin
              have hnot := List.find?_eq_none.mp hfree entry' hentry'
              rw [← hproj, ← heq]
              simpa using hnot

theorem WellNamed.handled {os : Os} {before after : Server} {event : Event}
    {effects : List Effect} (h : before.WellNamed) (hname : Nameable os before event)
    (hturn : Handled os before event after effects) : after.WellNamed := by
  have hids := h.ids.handled hturn
  obtain ⟨_, _, hprojects | ⟨reqId, entries, rfl, hdeclare⟩⟩ := hturn.projects
  case inr => exact h.declareProjects hname (h.roots.handled hturn) hdeclare
  cases hplaces : event.places with
  | false => exact h.kept hprojects hids (hturn.kept hplaces)
  | true =>
      cases hturn with
      | idle away tables quiet =>
          exact h.kept hprojects hids (.keep (docs_of_tables tables) (nextDocId_of_tables tables))
      | noted tables quiet still =>
          exact h.kept hprojects hids (.keep (docs_of_tables tables) (nextDocId_of_tables tables))
      | requestFile hturn =>
          rcases made_handleRequestFile hturn with hkept |
            ⟨doc, name, fullPath, project, file, hdocs, rfl, hnames, hnew, hdisk, hnone⟩
          · exact h.kept hprojects hids hkept
          · have hkeeps := hname.request _ _ _ _ _ rfl (.inl hnew)
            refine h.add hprojects hids hdocs ?_ ?_
            · rw [hnames]
              exact hkeeps.namedBy hdisk name (.inl rfl)
            · obtain ⟨_, hpath, _⟩ : doc.name = _ ∧ doc.absFilename = _ ∧ doc.fileDesc = _ := by
                simpa [DocEntry.names] using hnames
              rwa [hpath]
      | @openFile reqId file mode _ _ hturn =>
          rcases made_openFileFromEditor hturn with hkept |
            ⟨doc, name, fullPath, pathId, hdocs, hnames, hproject, hnew, hdisk, hpathId, hnone⟩
          · exact h.kept hprojects hids hkept
          · have hkeeps := hname.openFile _ _ _ rfl hnew
            have hfrom : FileDesc.from file =
                .projectFile file.project (trimSlashes file.file) := by
              rw [FileDesc.from, if_neg]
              simpa [EditorFileDesc.isProject] using hproject
            rw [hfrom] at hnames hpathId
            obtain ⟨trimmed, hpath, hsame⟩ := hkeeps.pathId hdisk
            cases hpath.symm.trans hpathId
            refine h.add hprojects hids hdocs ?_ fun entry hmem => ?_
            · rw [hnames]
              exact hkeeps.namedBy hdisk name (.inr rfl)
            · obtain ⟨_, hpath, _⟩ : doc.name = _ ∧ doc.absFilename = _ ∧ doc.fileDesc = _ := by
                simpa [DocEntry.names] using hnames
              have hnot := hnone entry hmem
              rw [Bool.eq_false_iff] at hnot ⊢
              rw [hpath]
              exact fun hmatch => hnot (PathId.same_trans hmatch (PathId.same_path.mpr hsame.symm))
      | @shareFile reqId filename content _ _ hturn =>
          have hbuffer (hnew : before.newText os
              (.request reqId (.shareFile filename content)) ≠ none) := hname.share _ _ _ rfl hnew
          rcases made_handleShareFileFromEditor
            (fun hnew => ⟨(hbuffer hnew).1, (hbuffer hnew).2.1,
              (hbuffer hnew).2.2.2 ▸ isAbsolute_trimSlashes filename⟩) hturn with hkept |
            ⟨doc, hdocs, hnames, hnew, hnone⟩
          · exact h.kept hprojects hids hkept
          · obtain ⟨_, _, hne, htrim⟩ := hbuffer hnew
            refine h.add hprojects hids hdocs ?_ ?_
            · rw [hnames]
              exact .buffer rfl rfl rfl hne htrim
            · obtain ⟨_, hpath, _⟩ : doc.name = _ ∧ doc.absFilename = _ ∧ doc.fileDesc = _ := by
                simpa [DocEntry.names] using hnames
              rwa [hpath]
      | @moveFile host reqId project source dest _ _ allowed hturn =>
          obtain ⟨hdocs, hnext⟩ := docs_moveFileOnDisk fun proj =>
            hname.move project source dest proj (if_pos allowed)
          simp only [handleMoveFile] at hturn
          split at hturn <;> cases hturn <;> exact h.kept hprojects hids (.keep hdocs hnext)
      | @moveFileFromEditor reqId hostId project source dest _ _ hturn =>
          simp only [handleMoveFileFromEditor] at hturn
          split at hturn
          next => cases hturn; exact h
          next hhost =>
              obtain ⟨hdocs, hnext⟩ := docs_moveFileOnDisk fun proj =>
                hname.move project source dest proj (if_pos (not_not.mp hhost))
              split at hturn <;> cases hturn <;> exact h.kept hprojects hids (.keep hdocs hnext)
      | closeFile hturn =>
          have hclose := closes_handleCloseFileFromRemote hturn
          exact h.closes hprojects hids hclose
      | closeFileFromEditor hturn =>
          have hclose := closes_handleCloseFileFromEditor hturn
          exact h.closes hprojects hids hclose
      | deleteFileFromEditor hturn =>
          have hclose := closes_handleCloseFileFromEditor hturn
          exact h.closes hprojects hids hclose
      | _ => cases hplaces

/-! ## Answers -/

/-- The descriptor in an answer finds the document that was opened. -/
def Told (after : Server) : Effect → Prop
  | .resp _ (.openFile content _ _ file) =>
      file.hostId = after.hostId →
        ∃ docId doc, after.doc? docId = some doc ∧ doc.buffer = content ∧ after.Finds file docId
  | .resp _ (.shareFile file _) => ∃ docId, after.nextDocId = docId + 1 ∧ after.Finds file docId
  | .send _ _ (.snapshot snapshot) =>
      after.Finds (EditorFileDesc.new snapshot.fileDesc after.hostId) snapshot.docId
  | _ => True

def Truthful (after : Server) (effects : List Effect) : Prop := ∀ e ∈ effects, Told after e

@[simp] theorem truthful_nil (after : Server) : Truthful after [] := by simp [Truthful]

@[simp] theorem truthful_append {after : Server} {effects effects' : List Effect} :
    Truthful after (effects ++ effects') ↔ Truthful after effects ∧ Truthful after effects' :=
  List.forall_mem_append

@[simp] theorem truthful_cons {after : Server} {e : Effect} {effects : List Effect} :
    Truthful after (e :: effects) ↔ Told after e ∧ Truthful after effects :=
  List.forall_mem_cons

@[simp] theorem truthful_fs (after : Server) (calls : List FsCall) :
    Truthful after (calls.map Effect.fs) := by
  simp [Truthful, Told]

/-- Opens, shares or requests a file. -/
def namesFile : Event → Bool
  | .message { body := .requestFile _ _, .. } => true
  | .request _ (.openFile _ _) => true
  | .request _ (.shareFile _ _) => true
  | _ => false

section

variable {before after : Server} (hprojects : after.projects = before.projects)
include hprojects

theorem project?_congr (project : ProjectId) :
    after.project? project = before.project? project := by
  rw [project?, hprojects, project?]

theorem pathIdFromFileDesc_congr (file : FileDesc) :
    after.pathIdFromFileDesc file = before.pathIdFromFileDesc file := by
  cases file <;> simp only [pathIdFromFileDesc, project?_congr hprojects]

theorem TrimKeeps.congr {project : ProjectId} {file : Text} (h : before.TrimKeeps project file) :
    after.TrimKeeps project file := by
  have hdisk (f : Text) : after.diskPath project f = before.diskPath project f := by
    rw [diskPath, project?_congr hprojects, diskPath]
  refine ⟨h.1, fun path trimmed hpath htrim => ?_⟩
  rw [hdisk] at hpath htrim
  exact h.2 path trimmed hpath htrim

end

section

variable {os : Os} {self after : Server} {effects : List Effect}

/-- The descriptor of a request that finds a document goes on finding it when an editor
uses it. -/
theorem WellNamed.finds_requested (h : self.WellNamed) {project : ProjectId} {file : Text}
    (hkeeps : self.TrimKeeps project file) {pathId : PathId}
    (hpath : self.pathIdFromFileDesc (.projectFile project file) = .ok pathId)
    {entry : DocId × DocEntry} (hmem : entry ∈ self.docs) (hmatch : entry.2.matches pathId = true)
    (hostId : ServerId) : self.Finds { hostId, project, file } entry.1 := by
  by_cases hbuffers : project = reservedBuffersProject
  · subst hbuffers
    have hpathId : pathId = .buffer file := by simpa [pathIdFromFileDesc, eq_comm] using hpath
    subst hpathId
    cases h.named entry.2.names (List.mem_map_of_mem hmem) with
    | @buffer name desc pathId _ ne trimmed =>
        have hsame : PathId.same (.buffer name) (.buffer file) = true := pathId ▸ hmatch
        obtain rfl := PathId.same_buffer.mp hsame
        refine h.finds hmem ?_ hmatch
        simp [FileDesc.from, ne, pathIdFromFileDesc, trimmed]
    | @file path _ desc pathId relative ne same =>
        have hsame : PathId.same (.path path) (.buffer file) = true := pathId ▸ hmatch
        cases hsame
    | @inProject path _ _ _ desc pathId declared same =>
        have hsame : PathId.same (.path path) (.buffer file) = true := pathId ▸ hmatch
        cases hsame
  by_cases hfiles : project = reservedFilesProject
  · subst hfiles
    have hdisk (f : Text) : self.diskPath reservedFilesProject f = .ok f := by
      simp [diskPath, hbuffers]
    have hpathId : pathId = .path file := by
      simpa [pathIdFromFileDesc, hbuffers, eq_comm] using hpath
    subst hpathId
    have hne : file ≠ [] := fun hnil => absurd (hkeeps.1 hnil) (by decide)
    refine h.finds hmem (pathId_file hostId hne) (PathId.same_trans hmatch ?_)
    exact PathId.same_path.mpr (hkeeps.2 _ _ (hdisk _) (hdisk _)).symm
  · cases hproj : self.project? project with
    | error err => simp [pathIdFromFileDesc, hbuffers, hfiles, hproj] at hpath
    | ok proj =>
        have hdisk (f : Text) : self.diskPath project f = .ok (UnixPath.join proj.root f) := by
          simp [diskPath, hbuffers, hfiles, hproj]
        cases hpath.symm.trans (pathId_of_diskPath (hdisk file))
        exact h.finds_inProject hmem hproj (hkeeps.2 _ _ (hdisk _) (hdisk _)) hmatch

theorem truthful_handleRequestFile (h : after.WellNamed) {reqId : RequestId} {file : FileDesc}
    {host : ServerId} {mode : OpenMode} (hprojects : after.projects = self.projects)
    (hkeeps : ∀ project filename, file = .projectFile project filename →
      self.newText os (.message ⟨host, .requestFile file mode, some reqId⟩) ≠ none ∨
        (∃ pathId, self.pathIdFromFileDesc (.projectFile project filename) = .ok pathId ∧
          self.findDoc pathId ≠ none) →
      self.TrimKeeps project filename)
    (hturn : self.handleRequestFile os (some reqId) file host mode = (after, effects)) :
    Truthful after effects := by
  have hfinds {project : ProjectId} {filename : Text} {pathId : PathId}
      (hpath : self.pathIdFromFileDesc (.projectFile project filename) = .ok pathId)
      (hkeeps : self.TrimKeeps project filename) {docId : DocId} {doc : DocEntry}
      (hmem : (docId, doc) ∈ after.docs) (hmatch : doc.matches pathId = true) :
      after.Finds (EditorFileDesc.new (.projectFile project filename) after.hostId) docId :=
    h.finds_requested (hkeeps.congr hprojects)
      ((pathIdFromFileDesc_congr hprojects _).trans hpath) hmem hmatch after.hostId
  unfold handleRequestFile at hturn
  split at hturn
  next => cases hturn; simp [Told]
  next pathId hpath =>
      dsimp only at hturn
      split at hturn
      next => cases hturn; simp [Told]
      next project filename =>
          split at hturn
          next docId doc hfound =>
              cases hturn
              have hmem := List.mem_of_find?_eq_some hfound
              have hmatch : doc.matches pathId = true := by simpa using List.find?_some hfound
              have hkeeps := hkeeps _ _ rfl (.inr ⟨pathId, hpath, by
                rw [← findDoc_siteIdOf self host, hfound]; exact Option.some_ne_none _⟩)
              simpa [Told] using hfinds hpath hkeeps hmem hmatch
          next hnone =>
              split at hturn
              next => cases hturn; simp [Told]
              next content fullPath hread =>
                  cases hturn
                  rw [openFileFromDisk_siteIdOf, config_siteIdOf] at hread
                  rw [findDoc_siteIdOf] at hnone
                  cases hpath.symm.trans (pathId_of_diskPath (diskPath_of_openFileFromDisk hread))
                  have hnew : self.newText os (.message
                      ⟨host, .requestFile (.projectFile project filename) mode, some reqId⟩) =
                        some content := by
                    simp [newText, hpath, hnone, contentOf, hread, Except.toOption]
                  have hkeeps := hkeeps _ _ rfl (.inl (by simp [hnew]))
                  have hmem := AssocMap.mem_of_get (doc?_addDoc (self.siteIdOf host).2
                    (DocEntry.new os ((UnixPath.fileName filename).getD filename) (.path fullPath)
                      (.projectFile project filename) content
                      (ServerEngine.new (utf8Len content)) (some fullPath)))
                  have hmatch : PathId.same (.path fullPath) (.path fullPath) = true :=
                    PathId.same_path.mpr rfl
                  have hfound := hfinds hpath hkeeps hmem hmatch
                  simp only [truthful_append, truthful_fs, true_and, truthful_cons, truthful_nil,
                    and_true, Told, watchFiles]
                  exact hfound

theorem truthful_openOwnDoc {reqId : RequestId} {docId : DocId} {doc : DocEntry}
    {file : EditorFileDesc} {pathId : PathId}
    (h : (self.openOwnDoc reqId docId doc file).1.WellNamed)
    (hpath : self.pathIdFromFileDesc (FileDesc.from file) = .ok pathId)
    (hmatch : doc.matches pathId = true) :
    Truthful (self.openOwnDoc reqId docId doc file).1
      (self.openOwnDoc reqId docId doc file).2 := by
  have hdocs := (docs_openOwnDoc self reqId docId doc file).1
  have hget : (self.openOwnDoc reqId docId doc file).1.doc? docId = some
      { doc with subscribers := AssocMap.insert doc.subscribers self.hostId 0 } := by
    rw [doc?, hdocs, AssocMap.get_insert_self]
  have hprojects : (self.openOwnDoc reqId docId doc file).1.projects = self.projects := by
    simp only [openOwnDoc]
    split <;> rfl
  have hfinds := h.finds (AssocMap.mem_of_get hget)
    ((pathIdFromFileDesc_congr hprojects _).trans hpath) hmatch
  have heffects : ∃ watch, (self.openOwnDoc reqId docId doc file).2 =
      [.resp reqId (.openFile doc.buffer self.siteId doc.name file), .watchFiles watch] := by
    simp only [openOwnDoc]
    split <;> exact ⟨_, rfl⟩
  obtain ⟨watch, heffects⟩ := heffects
  rw [heffects]
  simp only [truthful_cons, truthful_nil, and_true, Told]
  exact fun _ => ⟨docId, _, hget, rfl, hfinds⟩

theorem truthful_openFileFromEditor (h : after.WellNamed) {reqId : RequestId}
    {file : EditorFileDesc} {mode : OpenMode}
    (hkeeps : self.newText os (.request reqId (.openFile file mode)) ≠ none →
      self.TrimKeeps file.project file.file)
    (hturn : self.openFileFromEditor os reqId file mode = (after, effects)) :
    Truthful after effects := by
  unfold openFileFromEditor at hturn
  dsimp only at hturn
  split at hturn
  next hhost =>
      split at hturn
      next => cases hturn; simp [Told]
      next hproject =>
          split at hturn
          next => cases hturn; simp [Told]
          next pathId hpath =>
              split at hturn
              next docId doc hfound =>
                  have hmatch : doc.matches pathId = true := by simpa using List.find?_some hfound
                  cases hturn
                  exact truthful_openOwnDoc h hpath hmatch
              next hfound =>
                  split at hturn
                  next => cases hturn; simp [Told]
                  next content fullPath hread =>
                      cases hturn
                      have hnew : self.newText os (.request reqId (.openFile file mode)) =
                          some content := by
                        simp [newText, hhost, hproject, ownDoc?, hpath, hfound, contentOf, hread,
                          Except.toOption]
                      have hfrom : FileDesc.from file =
                          .projectFile file.project (trimSlashes file.file) := by
                        rw [FileDesc.from, if_neg]
                        simpa [EditorFileDesc.isProject] using hproject
                      obtain ⟨trimmed, hpathId, hsame⟩ := (hkeeps (by simp [hnew])).pathId
                        (diskPath_of_openFileFromDisk hread)
                      rw [← hfrom] at hpathId
                      rw [truthful_append]
                      refine ⟨truthful_fs _ _, truthful_openOwnDoc h hpathId ?_⟩
                      exact PathId.same_path.mpr hsame.symm
  next hhost =>
      split at hturn
      next =>
          cases hturn
          simpa [Told] using fun heq => absurd heq.symm hhost
      next => cases hturn; simp [Told]

theorem truthful_handleShareFileFromEditor (h : after.WellNamed) {reqId : RequestId}
    {filename content : Text}
    (hturn : self.handleShareFileFromEditor os reqId filename content = (after, effects)) :
    Truthful after effects := by
  simp only [handleShareFileFromEditor] at hturn
  split at hturn
  next => cases hturn; simp [Told]
  next pathId hpath =>
      split at hturn
      next => cases hturn; simp [Told]
      next hnone =>
          cases hturn
          have hlive := h.finds_live (AssocMap.mem_of_get (doc?_addDoc self _))
          simp only [truthful_append, truthful_fs, true_and, truthful_cons, truthful_nil, and_true,
            Told, watchFiles]
          exact ⟨self.nextDocId, rfl, hlive⟩

end

/-- What an editor or a peer is told of a file that it opens leads back to it. -/
theorem WellNamed.truthful {os : Os} {self : Server} (h : self.WellNamed) {event : Event}
    (hname : Nameable os self event) (hnames : namesFile event = true) {after : Server}
    {effects : List Effect} (hhandle : self.handle os event = some (after, effects)) :
    Truthful after effects := by
  have hturn := Server.handled hhandle
  have hafter := h.handled hname hturn
  cases event with
  | request reqId req =>
      cases req <;> try cases hnames
      next file mode =>
          simp only [handle, handleEditorRequest, ifConnected] at hhandle
          split at hhandle
          next =>
              exact truthful_openFileFromEditor hafter (hname.openFile _ _ _ rfl)
                (turn_of_some hhandle)
          next => cases hhandle; simp [Told]
      next filename content =>
          exact truthful_handleShareFileFromEditor hafter (turn_of_some hhandle)
  | message msg =>
      obtain ⟨host, body, reqId⟩ := msg
      cases body <;> try cases hnames
      next file mode =>
          cases reqId with
          | none => cases hhandle; simp [Told]
          | some reqId =>
              have hprojects : after.projects = self.projects := by
                have hrest := rest_handleRequestFile os self (some reqId) file host mode
                rw [turn_of_some hhandle] at hrest
                exact projects_of_rest hrest
              refine truthful_handleRequestFile hafter hprojects (fun project filename hfile => ?_)
                (turn_of_some hhandle)
              subst hfile
              exact hname.request _ _ _ _ _ rfl
  | _ => cases hnames

/-- In a run of such turns every document has one name. -/
theorem oneName_of_nameable {hostId : ServerId} {config : Config} {idealWorld : WorldState}
    {turns : List (Os × Event)}
    (hturns : Run.Meets step (fun self turn => Nameable turn.1 self turn.2)
      (new hostId config idealWorld) turns)
    {self : Server} (hrun : Run.run step (new hostId config idealWorld) turns = some self) :
    self.OneName ∧ ∀ os event turn, Nameable os self event → namesFile event = true →
      self.handle os event = some turn → Truthful turn.1 turn.2 := by
  have hnamed : self.WellNamed := by
    refine Run.invariant (fun s turn t hs hmeets hstep => ?_) ⟨?_, ?_, ?_, ?_, ?_⟩ hturns hrun
    · obtain ⟨⟨t, effects⟩, hturn, rfl⟩ := Option.map_eq_some_iff.mp hstep
      exact hs.handled hmeets (handled hturn)
    · simp [nameList, new]
    · exact List.Pairwise.nil
    · exact ⟨List.nodup_nil, by simp [new, AssocMap.keys]⟩
    · simp [RootsAbsolute, new, AssocMap.AllVals]
    · simp [new]
  exact ⟨hnamed.oneName, fun os event turn hname hnames hhandle =>
    hnamed.truthful hname hnames hhandle⟩

/-- Two buffers are shared. -/
def twoShared : List (Os × Event) :=
  [(Os.bare, .request 1 (.shareFile ['a'] ['b'])), (Os.bare, .request 2 (.shareFile ['c'] ['d']))]

/-- A peer asks for the second. -/
def asksForSecond : Event :=
  .message
    { host := 5, body := .requestFile (.projectFile reservedBuffersProject ['c']) .open
      reqId := some 3 }

theorem nameable_twoShared :
    Run.Meets step (fun self turn => Nameable turn.1 self turn.2) fresh twoShared := by
  have hshare (self : Server) {reqId : RequestId} {name content : Text}
      (hname : name ≠ [] ∧ trimSlashes name = name) :
      Nameable Os.bare self (.request reqId (.shareFile name content)) := by
    refine ⟨?_, by simp, by simp, ?_, by simp⟩
    · rintro reqId filename content hevent -
      cases hevent
      exact ⟨rfl, rfl, hname⟩
    · rintro project oldPath newPath proj hmove
      cases hmove
  exact ⟨hshare _ (by decide), fun s _ => ⟨hshare s (by decide), fun _ _ => trivial⟩⟩

theorem oneName_of_nameable_sample :
    ∃ self turn, Run.run step fresh twoShared = some self ∧ self.docs.length = 2 ∧ self.OneName ∧
      self.handle Os.bare asksForSecond = some turn ∧ Truthful turn.1 turn.2 := by
  have hnamed := @oneName_of_nameable 0 ⟨none, [], []⟩ WorldState.new twoShared
    nameable_twoShared _ rfl
  refine ⟨_, _, rfl, rfl, hnamed.1, rfl, hnamed.2 Os.bare asksForSecond _ ?_ rfl rfl⟩
  refine ⟨by simp [asksForSecond], by simp [asksForSecond], ?_, ?_, by simp [asksForSecond]⟩
  · rintro host reqId project file mode hevent -
    cases hevent
    exact trimKeeps_of_trimmed _ _ (by decide) (by decide)
  · rintro project oldPath newPath proj hmove
    cases hmove

/-- The host shares a file by its absolute path. -/
def sharingAbsolute : Turn := fresh.handleShareFileFromEditor Os.bare 1 ['/', 'a'] ['b']

/-- The file is told by a descriptor that leads to another path. -/
theorem not_oneName :
    Run.run step fresh [(Os.bare, .request 1 (.shareFile ['/', 'a'] ['b']))] =
        some sharingAbsolute.1 ∧ ¬sharingAbsolute.1.OneName := by
  refine ⟨rfl, fun h => ?_⟩
  have hmem : (1, (sharingAbsolute.1.docs.head (by decide)).2) ∈ sharingAbsolute.1.docs := by decide
  have hdiffs : Os.bare.DiffsBelow := fun _ _ _ _ _ hdiff => nomatch hdiff
  obtain ⟨pathId, hpath, _, hfind⟩ := h.reported Os.bare hdiffs _ hmem _ .live
  have htrimmed : sharingAbsolute.1.pathIdFromFileDesc (FileDesc.from (EditorFileDesc.new
      (sharingAbsolute.1.docs.head (by decide)).2.fileDesc sharingAbsolute.1.hostId)) =
        .ok (.path ['a']) := by decide
  cases htrimmed.symm.trans hpath
  exact absurd hfind (by decide)

end Server

end CollabMode
