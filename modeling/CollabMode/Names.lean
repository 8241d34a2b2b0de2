import CollabMode.Confinement
import CollabMode.Opening
import Mathlib.Data.List.DropRight

/-!
# The names of a document

A document of a host has a path or the name of a buffer, and a descriptor that editors
and peers are told.  Opening a file goes the other way, from a descriptor to a path, and
on the way `FileDesc.from` takes the slashes off the ends of the string.

`WellNamed` says that the descriptors of all documents lead back to them, and that no
two documents are at one path.  Then each document is found by whatever it is reported
as.
-/

namespace CollabMode

open UnixPath (Path)

/-! ## Slashes -/

theorem eq_append_replicate (s : Text) (c : Char) :
    ∃ n, s = (s.reverse.dropWhile (· == c)).reverse ++ List.replicate n c := by
  have hsplit := List.takeWhile_append_dropWhile (p := (· == c)) (l := s.reverse)
  have hall : s.reverse.takeWhile (· == c) =
      List.replicate (s.reverse.takeWhile (· == c)).length c := by
    refine List.eq_replicate_of_mem fun d hd => ?_
    exact eq_of_beq (List.all_eq_true.mp List.all_takeWhile d hd)
  refine ⟨(s.reverse.takeWhile (· == c)).length, ?_⟩
  rw [← List.reverse_inj, List.reverse_append, List.reverse_reverse, List.reverse_replicate,
    ← hall, hsplit]

/-- A name that does not begin at the root directory. -/
def RelativeName (file : Text) : Prop := file ≠ [] ∧ UnixPath.isAbsolute file = false

theorem dropWhile_of_relative {file : Text} (h : UnixPath.isAbsolute file = false) :
    file.dropWhile (· == '/') = file := by
  cases file with
  | nil => rfl
  | cons c file =>
      have hc : (c == '/') = false := by simpa [UnixPath.isAbsolute] using h
      rw [List.dropWhile_cons, hc]
      rfl

/-- What is left has no slash at its beginning. -/
theorem isAbsolute_trimSlashes (file : Text) : UnixPath.isAbsolute (trimSlashes file) = false := by
  obtain ⟨n, hn⟩ := eq_append_replicate (file.dropWhile (· == '/')) '/'
  have hhead := List.head?_dropWhile_not (· == '/') file
  cases htrim : trimSlashes file with
  | nil => rfl
  | cons c rest =>
      rw [show ((file.dropWhile (· == '/')).reverse.dropWhile (· == '/')).reverse = c :: rest from
        htrim] at hn
      rw [hn] at hhead
      simpa [UnixPath.isAbsolute] using hhead

theorem trimSlashes_trimSlashes (file : Text) :
    trimSlashes (trimSlashes file) = trimSlashes file := by
  have hdrop := dropWhile_of_relative (isAbsolute_trimSlashes file)
  rw [trimSlashes, hdrop]
  simp only [trimSlashes, List.reverse_reverse, List.dropWhile_idempotent]

theorem trimSlashes_spec {file : Text} (h : RelativeName file) :
    trimSlashes file ≠ [] ∧ ∃ n, file = trimSlashes file ++ List.replicate n '/' := by
  obtain ⟨hne, habs⟩ := h
  obtain ⟨n, hn⟩ := eq_append_replicate file '/'
  have htrim : file = trimSlashes file ++ List.replicate n '/' := by
    rw [trimSlashes, dropWhile_of_relative habs]
    exact hn
  refine ⟨fun hnil => ?_, n, htrim⟩
  rw [hnil, List.nil_append] at htrim
  rw [htrim] at hne habs
  cases n with
  | zero => exact hne rfl
  | succ n => cases habs

theorem components_trimSlashes {file : Text} (h : RelativeName file) :
    UnixPath.components (trimSlashes file) = UnixPath.components file := by
  obtain ⟨hne, n, htrim⟩ := trimSlashes_spec h
  conv_rhs => rw [htrim]
  exact (UnixPath.components_append_slashes hne n).symm

theorem components_join_trimSlashes {root file : Text} (hroot : UnixPath.isAbsolute root = true)
    (h : RelativeName file) :
    UnixPath.components (UnixPath.join root (trimSlashes file)) =
      UnixPath.components (UnixPath.join root file) := by
  obtain ⟨_, n, htrim⟩ := trimSlashes_spec h
  refine UnixPath.components_join_congr hroot (isAbsolute_trimSlashes file) h.2 ?_
  conv_rhs => rw [htrim]
  exact (UnixPath.body_append_slashes _ n).symm

namespace PathId

theorem same_symm {p q : PathId} (h : p.same q = true) : q.same p = true := by
  cases p <;> cases q <;> simp_all [PathId.same, UnixPath.same_iff]

theorem same_trans {p q r : PathId} (h : p.same q = true) (h' : q.same r = true) :
    p.same r = true := by
  cases p <;> cases q <;> cases r <;> simp_all [PathId.same, UnixPath.same_iff]

@[simp] theorem same_path {p q : Path} :
    PathId.same (.path p) (.path q) = true ↔ UnixPath.components p = UnixPath.components q :=
  UnixPath.same_iff

@[simp] theorem same_buffer {a b : Text} : PathId.same (.buffer a) (.buffer b) = true ↔ a = b :=
  beq_iff_eq

end PathId

/-- What `DocEntry.names` gives. -/
abbrev Names := Text × PathId × FileDesc

/-- What is left of a path below an absolute one. -/
def Os.DiffsBelow (os : Os) : Prop :=
  ∀ path base rel, UnixPath.isAbsolute base = true → UnixPath.startsWith path base = true →
    os.diffPaths path base = some rel →
    UnixPath.isAbsolute rel = false ∧
      UnixPath.components path = UnixPath.components base ++ UnixPath.body rel

namespace Server

/-! ## What is reported -/

/-- Opening the descriptor finds the document, for the editor of this host and for the
editors of others. -/
def Finds (self : Server) (file : EditorFileDesc) (docId : DocId) : Prop :=
  ∃ pathId, self.pathIdFromFileDesc (FileDesc.from file) = .ok pathId ∧
    (self.docs.reverse.find? fun entry => entry.2.matches pathId).map Prod.fst = some docId ∧
    (self.findDoc pathId).map Prod.fst = some docId

/-- The descriptors that editors and peers are told for a document: in the state of
connections, and in the lists of files. -/
inductive Reported (os : Os) (server : Server) (doc : DocEntry) : EditorFileDesc → Prop where
  | live : Reported os server doc (EditorFileDesc.new doc.fileDesc server.hostId)
  | buffer (isBuffer : doc.absFilename.isBuffer = true) : Reported os server doc
      { hostId := server.hostId, project := reservedBuffersProject, file := doc.name }
  | file {path : Path} (isFile : doc.absFilename = .path path)
      (outside : ∀ proj ∈ server.projects, UnixPath.startsWith path proj.2.root = false) :
      Reported os server doc
        { hostId := server.hostId, project := reservedFilesProject, file := path }
  | inRoot {project : ProjectId} {proj : Project} {name : Text}
      (declared : server.project? project = .ok proj) (isName : UnixPath.IsName name)
      (stands : doc.matches (.path (UnixPath.join proj.root name)) = true) :
      Reported os server doc { hostId := server.hostId, project, file := name }
  | inDirectory {project : ProjectId} {proj : Project} {dir name rel : Text}
      (declared : server.project? project = .ok proj)
      (relative : UnixPath.isAbsolute dir = false) (isName : UnixPath.IsName name)
      (diff : os.diffPaths (UnixPath.join (UnixPath.join proj.root dir) name) proj.root = some rel)
      (stands : doc.matches
        (.path (UnixPath.join (UnixPath.join proj.root dir) name)) = true) :
      Reported os server doc { hostId := server.hostId, project, file := rel }

/-- Documents are at different paths, and whatever they are reported as finds them. -/
structure OneName (server : Server) : Prop where
  distinct : server.docs.Pairwise fun a b => a.2.absFilename.same b.2.absFilename = false
  reported : ∀ os : Os, os.DiffsBelow → ∀ entry ∈ server.docs, ∀ file,
    Reported os server entry.2 file → server.Finds file entry.1

/-! ## Descriptors that lead back -/

/-- The descriptor and the path of a document belong together. -/
inductive NamedBy (server : Server) (names : Names) : Prop where
  | buffer {file : Text} (desc : names.2.2 = .projectFile reservedBuffersProject file)
      (pathId : names.2.1 = .buffer file) (name : names.1 = file) (ne : file ≠ [])
      (trimmed : trimSlashes file = file)
  | file {path file : Text} (desc : names.2.2 = .projectFile reservedFilesProject file)
      (pathId : names.2.1 = .path path) (relative : RelativeName path) (ne : file ≠ [])
      (same : UnixPath.components (trimSlashes file) = UnixPath.components path)
  | inProject {path file : Text} {project : ProjectId} {proj : Project}
      (desc : names.2.2 = .projectFile project file) (pathId : names.2.1 = .path path)
      (declared : server.project? project = .ok proj)
      (same : UnixPath.components (UnixPath.join proj.root (trimSlashes file)) =
        UnixPath.components path)

/-- The names of the documents. -/
def nameList (self : Server) : List Names := self.docs.map fun entry => entry.2.names

structure WellNamed (server : Server) : Prop where
  named : ∀ names ∈ server.nameList, server.NamedBy names
  distinct : server.nameList.Pairwise fun a b => a.2.1.same b.2.1 = false
  ids : server.IdsOk
  roots : server.RootsAbsolute
  free : ∀ proj ∈ server.projects, isReserved proj.1 = false

/-! ## Descriptors of well named documents -/

theorem get_of_project? {self : Server} {project : ProjectId} {proj : Project}
    (h : self.project? project = .ok proj) : AssocMap.get self.projects project = some proj := by
  unfold project? at h
  split at h
  next hget => cases h; exact hget
  next => cases h

section

variable {self : Server} (h : self.WellNamed)
include h

theorem WellNamed.isAbsolute_root {project : ProjectId} {proj : Project}
    (hproj : self.project? project = .ok proj) : UnixPath.isAbsolute proj.root = true :=
  h.roots.get (get_of_project? hproj)

theorem WellNamed.not_reserved {project : ProjectId} {proj : Project}
    (hproj : self.project? project = .ok proj) : isReserved project = false :=
  h.free _ (AssocMap.mem_of_get (get_of_project? hproj))

omit h in
theorem pathId_file (hostId : ServerId) {file : Text} (hne : file ≠ []) :
    self.pathIdFromFileDesc (FileDesc.from { hostId, project := reservedFilesProject, file }) =
      .ok (.path (trimSlashes file)) := by
  simp [FileDesc.from, hne, pathIdFromFileDesc, reservedFilesProject, reservedBuffersProject]

/-- A descriptor in a project, with or without slashes at its ends. -/
theorem WellNamed.pathId_inProject {project : ProjectId} {proj : Project}
    (hproj : self.project? project = .ok proj) (hostId : ServerId) (file : Text) :
    ∃ path, self.pathIdFromFileDesc (FileDesc.from { hostId, project, file }) = .ok (.path path) ∧
      UnixPath.components path =
        UnixPath.components (UnixPath.join proj.root (trimSlashes file)) := by
  cases file with
  | nil =>
      refine ⟨proj.root, ?_, ?_⟩
      · simp [FileDesc.from, pathIdFromFileDesc, hproj]
      · show _ = UnixPath.components (UnixPath.join proj.root [])
        rw [UnixPath.components_join (h.isAbsolute_root hproj) rfl, UnixPath.body_nil,
          List.append_nil]
  | cons c file =>
      refine ⟨_, ?_, rfl⟩
      have hfrom : FileDesc.from { hostId, project, file := c :: file } =
          .projectFile project (trimSlashes (c :: file)) := rfl
      rw [hfrom, pathIdFromFileDesc_project hproj (h.not_reserved hproj)]

/-- A path that is the one of a document finds it. -/
theorem WellNamed.finds {entry : DocId × DocEntry} (hmem : entry ∈ self.docs)
    {file : EditorFileDesc} {pathId : PathId}
    (hpath : self.pathIdFromFileDesc (FileDesc.from file) = .ok pathId)
    (hsame : entry.2.matches pathId = true) : self.Finds file entry.1 := by
  have hunique : ∀ other ∈ self.docs, other.2.matches pathId = true → other = entry := by
    intro other hother hmatch
    by_contra hne
    have hdistinct : self.docs.Pairwise fun a b =>
        a.2.absFilename.same b.2.absFilename = false := List.pairwise_map.mp h.distinct
    have hsymm : Std.Symm fun a b : DocId × DocEntry =>
        a.2.absFilename.same b.2.absFilename = false := by
      refine ⟨fun a b hab => ?_⟩
      rw [Bool.eq_false_iff] at hab ⊢
      exact fun hba => hab (PathId.same_symm hba)
    have hdiffer := hdistinct.forall hother hmem hne
    have hboth := PathId.same_trans hmatch (PathId.same_symm hsame)
    rw [hdiffer] at hboth
    cases hboth
  have hfind (docs : List (DocId × DocEntry)) (hdocs : ∀ e, e ∈ docs ↔ e ∈ self.docs) :
      (docs.find? fun entry => entry.2.matches pathId).map Prod.fst = some entry.1 := by
    cases hfound : docs.find? fun entry => entry.2.matches pathId with
    | none =>
        have hnot := List.find?_eq_none.mp hfound entry ((hdocs entry).mpr hmem)
        exact absurd hsame hnot
    | some other =>
        have hother := (hdocs other).mp (List.mem_of_find?_eq_some hfound)
        have hmatch : other.2.matches pathId = true := by simpa using List.find?_some hfound
        rw [hunique other hother hmatch]
        rfl
  exact ⟨pathId, hpath, hfind _ fun e => List.mem_reverse, hfind _ fun e => Iff.rfl⟩

/-- A descriptor in a project that leads to the path of a document finds it. -/
theorem WellNamed.finds_inProject {entry : DocId × DocEntry} (hmem : entry ∈ self.docs)
    {project : ProjectId} {proj : Project} (hproj : self.project? project = .ok proj)
    {hostId : ServerId} {file path : Text}
    (hsame : UnixPath.components (UnixPath.join proj.root (trimSlashes file)) =
      UnixPath.components path)
    (hstands : entry.2.matches (.path path) = true) :
    self.Finds { hostId, project, file } entry.1 := by
  obtain ⟨path', hpath, hcomponents⟩ := h.pathId_inProject hproj hostId file
  refine h.finds hmem hpath (PathId.same_trans hstands ?_)
  rw [PathId.same_path, hcomponents, hsame]

/-- Every document is found by its own descriptor. -/
theorem WellNamed.finds_live {entry : DocId × DocEntry} (hmem : entry ∈ self.docs) :
    self.Finds (EditorFileDesc.new entry.2.fileDesc self.hostId) entry.1 := by
  cases h.named entry.2.names (List.mem_map_of_mem hmem) with
  | @buffer file desc pathId name ne trimmed =>
      have hdesc : entry.2.fileDesc = .projectFile reservedBuffersProject file := desc
      have hpathId : entry.2.absFilename = .buffer file := pathId
      have hfrom : self.pathIdFromFileDesc (FileDesc.from
          (EditorFileDesc.new entry.2.fileDesc self.hostId)) = .ok (.buffer file) := by
        rw [hdesc]
        simp [EditorFileDesc.new, FileDesc.from, ne, pathIdFromFileDesc, trimmed]
      refine h.finds hmem hfrom ?_
      rw [DocEntry.matches, hpathId, PathId.same_buffer]
  | @file path file desc pathId relative ne same =>
      have hdesc : entry.2.fileDesc = .projectFile reservedFilesProject file := desc
      have hpathId : entry.2.absFilename = .path path := pathId
      rw [hdesc]
      refine h.finds hmem (pathId_file _ ne) ?_
      rw [DocEntry.matches, hpathId, PathId.same_path, same]
  | @inProject path file project proj desc pathId declared same =>
      have hdesc : entry.2.fileDesc = .projectFile project file := desc
      have hpathId : entry.2.absFilename = .path path := pathId
      rw [hdesc]
      refine h.finds_inProject hmem declared same ?_
      rw [DocEntry.matches, hpathId, PathId.same_path]

/-- A file that is under no project has a name that is relative to the directory that the
server was started in. -/
theorem WellNamed.relative_of_outside {doc : DocEntry} (hnamed : self.NamedBy doc.names)
    {path : Path} (hpath : doc.absFilename = .path path)
    (houtside : ∀ proj ∈ self.projects, UnixPath.startsWith path proj.2.root = false) :
    RelativeName path := by
  cases hnamed with
  | buffer desc pathId name ne trimmed => cases hpath.symm.trans pathId
  | file desc pathId relative ne same =>
      cases hpath.symm.trans pathId
      exact relative
  | @inProject path file project proj desc pathId declared same =>
      cases hpath.symm.trans pathId
      have hstarts : UnixPath.startsWith path proj.root = true := by
        rw [UnixPath.startsWith_iff, ← same, UnixPath.components_join (h.isAbsolute_root declared)
          (isAbsolute_trimSlashes file)]
        exact List.prefix_append _ _
      have hnot := houtside _ (AssocMap.mem_of_get (get_of_project? declared))
      rw [hstarts] at hnot
      cases hnot

theorem WellNamed.oneName : self.OneName := by
  refine ⟨List.pairwise_map.mp h.distinct, fun os hos entry hmem file hreported => ?_⟩
  have hnamed := h.named entry.2.names (List.mem_map_of_mem hmem)
  cases hreported with
  | live => exact h.finds_live hmem
  | buffer isBuffer =>
      cases hnamed with
      | buffer desc pathId name ne trimmed =>
          have hdesc : entry.2.fileDesc = .projectFile reservedBuffersProject entry.2.name :=
            desc.trans (by rw [← name]; rfl)
          have hlive := h.finds_live hmem
          rwa [hdesc] at hlive
      | file desc pathId relative ne same =>
          have hpathId : entry.2.absFilename = .path _ := pathId
          rw [hpathId] at isBuffer
          cases isBuffer
      | inProject desc pathId declared same =>
          have hpathId : entry.2.absFilename = .path _ := pathId
          rw [hpathId] at isBuffer
          cases isBuffer
  | @file path isFile outside =>
      have hrelative := h.relative_of_outside hnamed isFile outside
      refine h.finds hmem (pathId_file _ hrelative.1) ?_
      rw [DocEntry.matches, isFile, PathId.same_path, components_trimSlashes hrelative]
  | inRoot declared isName stands =>
      have hrelative : RelativeName _ := ⟨isName.2.1, UnixPath.isAbsolute_of_isName isName⟩
      exact h.finds_inProject hmem declared
        (components_join_trimSlashes (h.isAbsolute_root declared) hrelative) stands
  | @inDirectory project proj dir name rel declared relative isName diff stands =>
      have hroot := h.isAbsolute_root declared
      have hname := UnixPath.isAbsolute_of_isName isName
      have hpath : UnixPath.components (UnixPath.join (UnixPath.join proj.root dir) name) =
          UnixPath.components proj.root ++ (UnixPath.body dir ++ [.normal name]) := by
        rw [UnixPath.components_join (UnixPath.isAbsolute_join hroot dir) hname,
          UnixPath.components_join hroot relative, UnixPath.body_of_isName isName,
          List.append_assoc]
      obtain ⟨habs, hrel⟩ := hos _ _ _ hroot
        (UnixPath.startsWith_iff.mpr (hpath ▸ List.prefix_append _ _)) diff
      have hbody : UnixPath.body rel = UnixPath.body dir ++ [.normal name] :=
        List.append_cancel_left (hrel.symm.trans hpath)
      have hne : rel ≠ [] := fun hnil => by simp [hnil] at hbody
      refine h.finds_inProject hmem declared ?_ stands
      rw [components_join_trimSlashes hroot ⟨hne, habs⟩, UnixPath.components_join hroot habs, hrel]

end

/-! ## Where documents are reported -/

section

variable {os : Os} {self : Server}

theorem reported_connectionState {entry : LiveDocEntry} (h : entry ∈ self.connectionState.live) :
    ∃ doc ∈ self.docs, entry.filename = doc.2.name ∧ Reported os self doc.2 entry.file := by
  obtain ⟨doc, hmem, rfl⟩ := List.mem_map.mp h
  exact ⟨doc, hmem, rfl, .live⟩

theorem mem_sortEntries {files : List ListFilesEntry} {entry : ListFilesEntry} :
    entry ∈ sortEntries files ↔ entry ∈ files :=
  (List.perm_insertionSort _ files).mem_iff

/-- The lists of buffers and of files outside of projects. -/
theorem reported_virtual {id : ProjectId} (hres : isReserved id = true)
    {files : List ListFilesEntry}
    (h : (self.listFilesFromDisk os (some (.project id))).1 = .ok files) :
    ∀ entry ∈ files, ∃ doc ∈ self.docs, Reported os self doc.2 entry.file := by
  intro entry hmem
  by_cases hbuffers : id = reservedBuffersProject
  · subst hbuffers
    simp only [listFilesFromDisk, if_true, Except.ok.injEq] at h
    rw [← h, mem_sortEntries] at hmem
    obtain ⟨doc, hdoc, rfl⟩ := List.mem_map.mp hmem
    obtain ⟨hdoc, hbuffer⟩ := List.mem_filter.mp hdoc
    exact ⟨doc, hdoc, .buffer hbuffer⟩
  · obtain rfl : id = reservedFilesProject := by simpa [isReserved, hbuffers] using hres
    simp only [listFilesFromDisk, if_neg hbuffers, if_true, Except.ok.injEq] at h
    rw [← h, mem_sortEntries] at hmem
    obtain ⟨doc, hdoc, hentry⟩ := List.mem_filterMap.mp hmem
    obtain ⟨hdoc, houtside⟩ := List.mem_filter.mp hdoc
    split at hentry
    next path hpath =>
        cases hentry
        rw [hpath] at houtside
        refine ⟨doc, hdoc, .file hpath fun proj hproj => ?_⟩
        have hnot : (self.projects.any fun proj => UnixPath.startsWith path proj.2.root) =
            false := by simpa using houtside
        exact Bool.eq_false_iff.mpr fun hstarts =>
          Bool.eq_false_iff.mp hnot (List.any_eq_true.mpr ⟨proj, hproj, hstarts⟩)
    next => cases hentry

theorem listed_listEntries {hostId : ServerId} {project : ProjectId} {dir : Path}
    {fileOf : Text → Option Text} {entries : List (Option DirEntry)} {files : List ListFilesEntry}
    (h : (listEntries hostId project dir fileOf entries).1 = .ok files) :
    ∀ entry ∈ files, ∃ file, fileOf entry.filename = some file ∧
      entry.file = { hostId, project, file } ∧
      ∃ found, some found ∈ entries ∧ found.name = entry.filename := by
  induction entries generalizing files with
  | nil => cases h; exact nofun
  | cons found entries ih =>
      cases found with
      | none => cases h
      | some found =>
          simp only [listEntries] at h
          split at h
          next => cases h
          next =>
              split at h
              next => cases h
              next file hfile =>
                  split at h
                  next => cases h
                  next rest hrest =>
                      cases h
                      refine List.forall_mem_cons.mpr
                        ⟨⟨file, hfile, rfl, found, List.mem_cons_self, rfl⟩, fun entry hmem => ?_⟩
                      obtain ⟨file, hfile, heq, found', hfound, hname⟩ := ih hrest entry hmem
                      exact ⟨file, hfile, heq, found', List.mem_cons_of_mem _ hfound, hname⟩

theorem listed_listDirectory {project : ProjectId} {dir : Path} {failed : String}
    {fileOf : Text → Option Text} {files : List ListFilesEntry} (hos : os.NamesEntries)
    (h : (self.listDirectory os project dir failed fileOf).1 = .ok files) :
    ∀ entry ∈ files, UnixPath.IsName entry.filename ∧ ∃ file, fileOf entry.filename = some file ∧
      entry.file = { hostId := self.hostId, project, file } := by
  intro entry hmem
  unfold listDirectory at h
  split at h
  next => cases h
  next entries hread =>
      dsimp only at h
      split at h
      next => cases h
      next listed hlisted =>
          cases h
          obtain ⟨file, hfile, heq, found, hfound, hname⟩ :=
            listed_listEntries hlisted entry (mem_sortEntries.mp hmem)
          exact ⟨hname ▸ hos dir entries found hread hfound, file, hfile, heq⟩

/-- The list of the directory of a project. -/
theorem reported_project {id : ProjectId} {proj : Project} (hproj : self.project? id = .ok proj)
    (hres : isReserved id = false) (hos : os.NamesEntries) {files : List ListFilesEntry}
    (h : (self.listFilesFromDisk os (some (.project id))).1 = .ok files) :
    ∀ entry ∈ files, ∀ doc : DocEntry,
      doc.matches (.path (UnixPath.join proj.root entry.filename)) = true →
      Reported os self doc entry.file := by
  intro entry hmem doc hmatch
  obtain ⟨hbuffers, hfiles⟩ := ne_reserved hres
  simp only [listFilesFromDisk, if_neg hbuffers, if_neg hfiles, hproj] at h
  obtain ⟨hname, file, hfile, heq⟩ := listed_listDirectory hos h entry hmem
  cases hfile
  rw [heq]
  exact .inRoot hproj hname hmatch

/-- The list of a directory in a project, which editors name by a relative path. -/
theorem reported_directory {project : ProjectId} {proj : Project} {dir : Text}
    (hproj : self.project? project = .ok proj) (hres : isReserved project = false)
    (hrel : UnixPath.isAbsolute dir = false) (hos : os.NamesEntries) {files : List ListFilesEntry}
    (h : (self.listFilesFromDisk os (some (.projectFile project dir))).1 = .ok files) :
    ∀ entry ∈ files, ∀ doc : DocEntry,
      doc.matches (.path (UnixPath.join (UnixPath.join proj.root dir) entry.filename)) = true →
      Reported os self doc entry.file := by
  intro entry hmem doc hmatch
  obtain ⟨hbuffers, _⟩ := ne_reserved hres
  simp only [listFilesFromDisk, if_neg hbuffers, hproj] at h
  split at h
  next => cases h
  next => cases h
  next =>
      obtain ⟨hname, file, hfile, heq⟩ := listed_listDirectory hos h entry hmem
      rw [heq]
      exact .inDirectory hproj hrel hname hfile hmatch

end

end Server

end CollabMode
