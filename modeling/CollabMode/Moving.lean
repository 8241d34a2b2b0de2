import CollabMode.Confinement
import CollabMode.Replying

/-!
# Moving a file

`move_file_on_disk` renames the file first and goes through the documents then.  A hosted buffer
ends the loop with an error, whether or not it has to do with the move, and the file stays
renamed.  When there is none, the documents below the old path get new names, but keep the
canonical names that changes on the disk are recognised by (`moveDocs_files`).
-/

namespace UnixPath

/-- `p'` is `p` with `new` in the place of `old`. -/
def Rebased (old new p p' : Path) : Prop :=
  ∃ rel, isAbsolute rel = false ∧ components p = components old ++ body rel ∧
    components p' = components (join new rel)

/-- The path itself becomes the new one. -/
theorem rebased_same {old p : Path} (h : same p old = true) (new : Path) :
    Rebased old new p new := by
  refine ⟨[], rfl, by rw [same_iff.mp h, body_nil, List.append_nil], ?_⟩
  unfold join
  split
  next habs => cases habs
  next =>
      split
      next => rw [List.append_nil]
      next hne => exact (components_append_slashes (fun hnil => hne (.inl hnil)) 1).symm

/-- No path stays the same when its place changes. -/
theorem not_rebased_self {old new : Path} (hnew : isAbsolute new = true)
    (hne : components old ≠ components new) (p : Path) : ¬ Rebased old new p p := by
  rintro ⟨rel, hrel, hold, hp⟩
  rw [components_join hnew hrel, hold] at hp
  exact hne (List.append_cancel_right hp)

end UnixPath

namespace CollabMode

open UnixPath (Path)

/-- The relative path from a directory to what is below it. -/
def Os.RelatesPaths (os : Os) : Prop :=
  ∀ path base, UnixPath.isAbsolute base = true → UnixPath.startsWith path base = true →
    ∃ rel, os.diffPaths path base = some rel ∧ UnixPath.isAbsolute rel = false ∧
      UnixPath.components path = UnixPath.components base ++ UnixPath.body rel

namespace DocEntry

/-- The document is at the path or below it. -/
def isUnder (self : DocEntry) (path : Path) : Bool :=
  match self.absFilename with
  | .buffer _ => false
  | .path absFilename => UnixPath.startsWith absFilename path

/-- The document has a canonical name that is the path or below it. -/
def canonUnder (self : DocEntry) (path : Path) : Bool :=
  self.canonFilename.any (UnixPath.startsWith · path)

/-- What a move from `old` to `new` is to do to a document, where the canonical names of these
paths are `oldCanon` and `newCanon`. -/
structure Moves (old new oldCanon newCanon : Path) (doc doc' : DocEntry) : Prop where
  path : ∃ path path', doc.absFilename = .path path ∧ doc'.absFilename = .path path' ∧
    UnixPath.Rebased old new path path'
  canon : ∀ canon, doc.canonFilename = some canon → UnixPath.startsWith canon oldCanon = true →
    ∃ canon', doc'.canonFilename = some canon' ∧ UnixPath.Rebased oldCanon newCanon canon canon'
  rest : doc' = { doc with
    absFilename := doc'.absFilename
    canonFilename := doc'.canonFilename
    fileDesc := doc'.fileDesc }

/-- The document as the loop leaves it. -/
def moved (os : Os) (oldFullPath newFullPath : Path) (self : DocEntry) : DocEntry :=
  match self.absFilename with
  | .buffer _ => self
  | .path absFilename =>
      if UnixPath.same absFilename oldFullPath then
        { self with absFilename := .path newFullPath }
      else if UnixPath.startsWith absFilename oldFullPath then
        match os.diffPaths absFilename oldFullPath with
        | none => self
        | some rel => { self with absFilename := .path (UnixPath.join newFullPath rel) }
      else self

end DocEntry

namespace Server

/-! ## The loop -/

/-- When all documents are files, each is moved on its own. -/
theorem moveDocs_files {os : Os} {oldFullPath newFullPath : Path}
    {docs : List (DocId × DocEntry)}
    (h : ∀ entry ∈ docs, entry.2.absFilename.isBuffer = false) :
    ∃ hosts, moveDocs os oldFullPath newFullPath docs =
      (.ok hosts, AssocMap.mapVals (DocEntry.moved os oldFullPath newFullPath) docs) := by
  induction docs with
  | nil => exact ⟨[], rfl⟩
  | cons entry docs ih =>
      obtain ⟨docId, doc⟩ := entry
      obtain ⟨hfile, hrest⟩ := List.forall_mem_cons.mp h
      obtain ⟨hosts, ih⟩ := ih hrest
      cases hpath : doc.absFilename with
      | buffer name =>
          rw [show doc.absFilename.isBuffer = true by rw [hpath]; rfl] at hfile
          cases hfile
      | path absFilename =>
          have hmoved : AssocMap.mapVals (DocEntry.moved os oldFullPath newFullPath)
              ((docId, doc) :: docs) = (docId, doc.moved os oldFullPath newFullPath) ::
                AssocMap.mapVals (DocEntry.moved os oldFullPath newFullPath) docs := rfl
          simp only [moveDocs, hpath, ih, hmoved, DocEntry.moved]
          by_cases hsame : UnixPath.same absFilename oldFullPath = true
          · simp only [hsame, if_true]
            exact ⟨_, rfl⟩
          · by_cases hunder : UnixPath.startsWith absFilename oldFullPath = true
            · cases hrel : os.diffPaths absFilename oldFullPath with
              | none =>
                  simp only [hsame, hunder, Bool.false_eq_true, if_false, if_true, Option.map_none]
                  exact ⟨_, rfl⟩
              | some rel =>
                  simp only [hsame, hunder, Bool.false_eq_true, if_false, if_true, Option.map_some]
                  exact ⟨_, rfl⟩
            · simp only [hsame, hunder, Bool.false_eq_true, if_false]
              exact ⟨_, rfl⟩

/-- A buffer ends the loop with an error. -/
theorem moveDocs_buffer {os : Os} {oldFullPath newFullPath : Path}
    {docs : List (DocId × DocEntry)}
    (h : ∃ entry ∈ docs, entry.2.absFilename.isBuffer = true) :
    ∃ err, (moveDocs os oldFullPath newFullPath docs).1 = .error err := by
  obtain ⟨entry, hmem, hbuffer⟩ := h
  cases hmoves : (moveDocs os oldFullPath newFullPath docs).1 with
  | error err => exact ⟨err, rfl⟩
  | ok hosts =>
      have hfile := List.all_eq_true.mp (moveDocs_ok hmoves).1 entry hmem
      rw [hbuffer] at hfile
      cases hfile

/-- The file is renamed, or the calls end with an error and it is not. -/
theorem moveCalls_cases (os : Os) (oldFullPath newFullPath : Path) :
    ((moveCalls os oldFullPath newFullPath).1 = .ok () ∧
      .rename oldFullPath newFullPath ∈ (moveCalls os oldFullPath newFullPath).2 ∧
      os.rename oldFullPath newFullPath = true) ∨
    (∃ err, (moveCalls os oldFullPath newFullPath).1 = .error err) ∧
      ∀ old new, .rename old new ∈ (moveCalls os oldFullPath newFullPath).2 →
        os.rename old new = false := by
  -- The last call is the one that may rename.
  have hlast (calls : List FsCall) (hcalls : ∀ old new, .rename old new ∉ calls) (err : String) :
      (failUnless (os.rename oldFullPath newFullPath) err = .ok () ∧
        .rename oldFullPath newFullPath ∈ calls ++ [.rename oldFullPath newFullPath] ∧
        os.rename oldFullPath newFullPath = true) ∨
      (∃ err', failUnless (os.rename oldFullPath newFullPath) err = .error err') ∧
        ∀ old new, .rename old new ∈ calls ++ [.rename oldFullPath newFullPath] →
          os.rename old new = false := by
    cases hrename : os.rename oldFullPath newFullPath with
    | true => exact .inl ⟨rfl, List.mem_append_right _ List.mem_cons_self, rfl⟩
    | false =>
        refine .inr ⟨⟨err, rfl⟩, fun old new hmem => ?_⟩
        rcases List.mem_append.mp hmem with hmem | hmem
        · exact absurd hmem (hcalls old new)
        · cases List.mem_singleton.mp hmem
          exact hrename
  unfold moveCalls
  split
  next => exact .inr ⟨⟨_, rfl⟩, fun old new hmem => by cases List.mem_singleton.mp hmem⟩
  next =>
      cases UnixPath.parent newFullPath with
      | none => exact hlast _ (fun old new hmem => by cases List.mem_singleton.mp hmem) _
      | some parent =>
          dsimp only
          cases os.createDirAll parent with
          | false =>
              refine .inr ⟨⟨_, rfl⟩, fun old new hmem => ?_⟩
              simp [failUnless] at hmem
          | true => exact hlast _ (fun old new hmem => by simp at hmem) _

/-! ## All or nothing -/

section Move

variable (os : Os) (self : Server) (project : ProjectId) (oldPath newPath : Text)

/-- The file is renamed. -/
def renamesFile : Bool :=
  match AssocMap.get self.projects project with
  | none => false
  | some proj =>
      !os.pathExists (UnixPath.join proj.root newPath) &&
        (UnixPath.parent (UnixPath.join proj.root newPath)).all os.createDirAll &&
        os.rename (UnixPath.join proj.root oldPath) (UnixPath.join proj.root newPath)

/-- A document that is below what is moved goes along, and nothing else changes.  The hosts to
tell are the subscribers of these documents. -/
def MovesAll (old new oldCanon newCanon : Path) (hosts : List ServerId) (after : Server) : Prop :=
  List.Forall₂ (fun entry entry' => entry'.1 = entry.1 ∧
    if entry.2.isUnder old then DocEntry.Moves old new oldCanon newCanon entry.2 entry'.2
    else entry'.2 = entry.2) self.docs after.docs ∧
  hosts.Nodup ∧ ∀ host, host ∈ hosts ↔ ∃ entry ∈ self.docs, entry.2.isUnder old = true ∧
    host ∈ AssocMap.keys entry.2.subscribers

/-- No file has been renamed, and every document keeps its path and descriptor. -/
def MovesNothing (after : Server) (calls : List FsCall) : Prop :=
  (∀ old new, .rename old new ∈ calls → os.rename old new = false) ∧
  List.Forall₂ (fun entry entry' => entry'.1 = entry.1 ∧
    entry'.2.absFilename = entry.2.absFilename ∧ entry'.2.fileDesc = entry.2.fileDesc)
    self.docs after.docs

/-- A move that fails does nothing, and one that succeeds does everything.  The canonical names
of the old and the new path are `oldCanon` and `newCanon`. -/
def MovesAllOrNothing (oldCanon newCanon : Path) : Prop :=
  match self.moveFileOnDisk os project oldPath newPath with
  | (.error _, after, calls) => self.MovesNothing os after calls
  | (.ok hosts, after, _) => ∃ proj, AssocMap.get self.projects project = some proj ∧
      self.MovesAll (UnixPath.join proj.root oldPath) (UnixPath.join proj.root newPath)
        oldCanon newCanon hosts after

/-- No document is a buffer, and none that is below what is moved has a canonical name there. -/
def Movable (oldCanon : Path) : Prop :=
  ∀ proj, AssocMap.get self.projects project = some proj → ∀ entry ∈ self.docs,
    entry.2.absFilename.isBuffer = false ∧
      (entry.2.isUnder (UnixPath.join proj.root oldPath) = true →
        entry.2.canonUnder oldCanon = false)

end Move

section Iff

variable {os : Os} {self : Server} {project : ProjectId} {oldPath newPath : Text}
  {oldCanon newCanon : Path}

theorem moveCalls_ok_iff {proj : Project} (hproj : AssocMap.get self.projects project = some proj) :
    (moveCalls os (UnixPath.join proj.root oldPath) (UnixPath.join proj.root newPath)).1 = .ok () ↔
      self.renamesFile os project oldPath newPath = true := by
  simp only [renamesFile, hproj, Bool.and_eq_true, Bool.not_eq_true']
  constructor
  · intro h
    obtain ⟨hfree, hmade, hrename⟩ := moveCalls_ok h
    exact ⟨⟨hfree, hmade⟩, hrename⟩
  · rintro ⟨⟨hfree, hmade⟩, hrename⟩
    cases hparent : UnixPath.parent (UnixPath.join proj.root newPath) with
    | none => simp [moveCalls, hfree, hparent, failUnless, hrename]
    | some parent =>
        have hmade : os.createDirAll parent = true := by simpa [hparent] using hmade
        simp [moveCalls, hfree, hparent, failUnless, hmade, hrename]

/-- What the loop does to a document. -/
theorem isUnder_of_moved (hdiff : os.RelatesPaths) {old : Path}
    (hold : UnixPath.isAbsolute old = true) (new : Path) {doc : DocEntry}
    (hunder : doc.isUnder old = true) :
    ∃ path path', doc.absFilename = .path path ∧ UnixPath.Rebased old new path path' ∧
      doc.moved os old new = { doc with absFilename := .path path' } := by
  cases hpath : doc.absFilename with
  | buffer name => simp [DocEntry.isUnder, hpath] at hunder
  | path path =>
      have hunder : UnixPath.startsWith path old = true := by
        simpa [DocEntry.isUnder, hpath] using hunder
      simp only [DocEntry.moved, hpath]
      split
      next hsame => exact ⟨path, new, rfl, UnixPath.rebased_same hsame new, rfl⟩
      next =>
          obtain ⟨rel, hrel, habs, hbelow⟩ := hdiff path old hold hunder
          rw [hrel]
          exact ⟨path, _, rfl, ⟨rel, habs, hbelow, rfl⟩, rfl⟩

theorem moved_of_not_isUnder (old new : Path) {doc : DocEntry} (hunder : doc.isUnder old = false) :
    doc.moved os old new = doc := by
  cases hpath : doc.absFilename with
  | buffer name => simp only [DocEntry.moved, hpath]
  | path path =>
      have hunder : UnixPath.startsWith path old = false := by
        simpa [DocEntry.isUnder, hpath] using hunder
      have hsame : UnixPath.same path old = false := by
        refine Bool.eq_false_iff.mpr fun hsame => Bool.eq_false_iff.mp hunder ?_
        rw [UnixPath.startsWith_iff, UnixPath.same_iff.mp hsame]
      simp only [DocEntry.moved, hpath, hsame, hunder, Bool.false_eq_true, if_false]

theorem movesWith_eq_isUnder (hdiff : os.RelatesPaths) {old : Path}
    (hold : UnixPath.isAbsolute old = true) (doc : DocEntry) :
    doc.movesWith os old = doc.isUnder old := by
  cases hpath : doc.absFilename with
  | buffer name => simp only [DocEntry.movesWith, DocEntry.isUnder, hpath]
  | path path =>
      simp only [DocEntry.movesWith, DocEntry.isUnder, hpath]
      cases hunder : UnixPath.startsWith path old with
      | false =>
          have hsame : UnixPath.same path old = false := by
            refine Bool.eq_false_iff.mpr fun hsame => Bool.eq_false_iff.mp hunder ?_
            rw [UnixPath.startsWith_iff, UnixPath.same_iff.mp hsame]
          rw [hsame, Bool.false_and, Bool.or_false]
      | true =>
          obtain ⟨rel, hrel, -⟩ := hdiff path old hold hunder
          rw [hrel, Option.isSome_some, Bool.and_true, Bool.or_true]

/-- A document that is moved keeps its canonical name. -/
theorem moves_moved_iff (hdiff : os.RelatesPaths) (hnew : UnixPath.isAbsolute newCanon = true)
    (hne : UnixPath.components oldCanon ≠ UnixPath.components newCanon) {old : Path}
    (hold : UnixPath.isAbsolute old = true) (new : Path) {doc : DocEntry}
    (hunder : doc.isUnder old = true) :
    DocEntry.Moves old new oldCanon newCanon doc (doc.moved os old new) ↔
      doc.canonUnder oldCanon = false := by
  obtain ⟨path, path', hpath, hrebased, hmoved⟩ := isUnder_of_moved hdiff hold new hunder
  rw [hmoved]
  constructor
  · intro h
    refine Bool.eq_false_iff.mpr fun hcanon => ?_
    obtain ⟨canon, hsome, hstarts⟩ := Option.any_eq_true _ _ |>.mp hcanon
    obtain ⟨canon', hsome', hrebased⟩ := h.canon canon hsome hstarts
    cases hsome.symm.trans hsome'
    exact UnixPath.not_rebased_self hnew hne canon hrebased
  · intro hcanon
    refine ⟨⟨path, path', hpath, rfl, hrebased⟩, fun canon hsome hstarts => ?_, rfl⟩
    rw [DocEntry.canonUnder, hsome, Option.any_some, hstarts] at hcanon
    cases hcanon

/-- With files only the loop does everything but the canonical names. -/
theorem movesAll_iff (hdiff : os.RelatesPaths) (hnew : UnixPath.isAbsolute newCanon = true)
    (hne : UnixPath.components oldCanon ≠ UnixPath.components newCanon) {old : Path}
    (hold : UnixPath.isAbsolute old = true) (new : Path)
    (hfiles : ∀ entry ∈ self.docs, entry.2.absFilename.isBuffer = false) :
    ∃ hosts docs, moveDocs os old new self.docs = (.ok hosts, docs) ∧
      (self.MovesAll old new oldCanon newCanon hosts { self with docs } ↔
        ∀ entry ∈ self.docs, entry.2.isUnder old = true → entry.2.canonUnder oldCanon = false) := by
  obtain ⟨hosts, hmoves⟩ := @moveDocs_files os old new _ hfiles
  obtain ⟨-, hnodup, hhosts⟩ := moveDocs_ok (congrArg Prod.fst hmoves)
  simp only [movesWith_eq_isUnder hdiff hold] at hhosts
  refine ⟨hosts, _, hmoves, ?_⟩
  have hone (doc : DocEntry) :
      (if doc.isUnder old then
        DocEntry.Moves old new oldCanon newCanon doc (doc.moved os old new)
      else doc.moved os old new = doc) ↔
      (doc.isUnder old = true → doc.canonUnder oldCanon = false) := by
    split
    next hunder =>
        rw [moves_moved_iff hdiff hnew hne hold new hunder]
        exact ⟨fun h _ => h, fun h => h hunder⟩
    next hunder =>
        have hstays : doc.moved os old new = doc :=
          moved_of_not_isUnder old new (Bool.eq_false_iff.mpr hunder)
        exact iff_of_true hstays fun h => absurd h hunder
  have hall : List.Forall₂ (fun entry entry' : DocId × DocEntry => entry'.1 = entry.1 ∧
        if entry.2.isUnder old then DocEntry.Moves old new oldCanon newCanon entry.2 entry'.2
        else entry'.2 = entry.2) self.docs
        (AssocMap.mapVals (DocEntry.moved os old new) self.docs) ↔
      ∀ entry ∈ self.docs, entry.2.isUnder old = true → entry.2.canonUnder oldCanon = false := by
    rw [AssocMap.mapVals, List.forall₂_map_right_iff, List.forall₂_same]
    exact forall₂_congr fun entry _ => (and_iff_right rfl).trans (hone entry.2)
  exact ⟨fun h => hall.mp h.1, fun h => ⟨hall.mpr h, hnodup, hhosts⟩⟩

/-- A move is all or nothing when and only when, if it renames the file, no document is a buffer
and none that it takes along has a canonical name below the old one. -/
theorem movesAllOrNothing_iff (hroots : self.RootsAbsolute) (hdiff : os.RelatesPaths)
    (hnew : UnixPath.isAbsolute newCanon = true)
    (hne : UnixPath.components oldCanon ≠ UnixPath.components newCanon) :
    self.MovesAllOrNothing os project oldPath newPath oldCanon newCanon ↔
      (self.renamesFile os project oldPath newPath = true →
        self.Movable project oldPath oldCanon) := by
  cases hproj : AssocMap.get self.projects project with
  | none =>
      have hnothing : self.MovesNothing os self [] :=
        ⟨nofun, List.forall₂_same.mpr fun _ _ => ⟨rfl, rfl, rfl⟩⟩
      simp only [MovesAllOrNothing, moveFileOnDisk, project?, hproj]
      exact iff_of_true hnothing fun h => by simp [renamesFile, hproj] at h
  | some proj =>
      have hold : UnixPath.isAbsolute (UnixPath.join proj.root oldPath) = true :=
        UnixPath.isAbsolute_join (hroots _ (AssocMap.mem_of_get hproj)) oldPath
      have hok := @moveCalls_ok_iff os self project oldPath newPath proj hproj
      simp only [MovesAllOrNothing, moveFileOnDisk, project?, hproj]
      rcases moveCalls_cases os (UnixPath.join proj.root oldPath) (UnixPath.join proj.root newPath)
        with ⟨hcalls, hmem, hrename⟩ | ⟨⟨err, hcalls⟩, hkept⟩
      · have hrenames := hok.mp hcalls
        simp only [hcalls]
        by_cases hbuffer : ∃ entry ∈ self.docs, entry.2.absFilename.isBuffer = true
        · -- The buffer ends the loop, with the file renamed.
          obtain ⟨err, herr⟩ := @moveDocs_buffer os (UnixPath.join proj.root oldPath)
            (UnixPath.join proj.root newPath) _ hbuffer
          simp only [herr]
          refine iff_of_false (fun h => ?_) fun h => ?_
          · exact Bool.eq_false_iff.mp (h.1 _ _ hmem) hrename
          · obtain ⟨entry, hentry, hbuffer⟩ := hbuffer
            exact Bool.eq_false_iff.mp (h hrenames proj hproj entry hentry).1 hbuffer
        · have hfiles : ∀ entry ∈ self.docs, entry.2.absFilename.isBuffer = false :=
            fun entry hentry => Bool.eq_false_iff.mpr fun h => hbuffer ⟨entry, hentry, h⟩
          obtain ⟨hosts, docs, hmoves, hall⟩ := movesAll_iff hdiff hnew hne hold
            (UnixPath.join proj.root newPath) hfiles
          simp only [hmoves]
          constructor
          · rintro ⟨_, hproj', h⟩ - _ hproj'' entry hentry
            cases hproj'
            cases hproj.symm.trans hproj''
            exact ⟨hfiles entry hentry, hall.mp h entry hentry⟩
          · intro h
            exact ⟨proj, rfl, hall.mpr fun entry hentry => (h hrenames proj hproj entry hentry).2⟩
      · simp only [hcalls]
        refine iff_of_true ⟨hkept, List.forall₂_same.mpr fun _ _ => ⟨rfl, rfl, rfl⟩⟩ fun h => ?_
        cases hcalls.symm.trans (hok.mpr h)

end Iff

/-- A disk with a file that can be moved. -/
def diskWithC (canonicalize : Path → Option Path) : Os :=
  { Os.bare with
    stat := fun path => if UnixPath.same path "/srv/p/c".toList then some false else none
    canonicalize
    openFile := fun _ _ => .opened false (some ['x'])
    diffPaths := UnixPath.below }

theorem diskWithC_relatesPaths (canonicalize : Path → Option Path) :
    (diskWithC canonicalize).RelatesPaths :=
  fun _ _ => UnixPath.below_of_startsWith

def openC : Message :=
  { host := 5, body := .requestFile (.projectFile ['p'] ['c']) .open, reqId := some 1 }

/-- The file of the project is open. -/
def withC (canonicalize : Path → Option Path) : Server :=
  ((declared.handleRemoteMessage (diskWithC canonicalize) openC).map Prod.fst).getD declared

theorem withC_reachable (canonicalize : Path → Option Path) : (withC canonicalize).Reachable :=
  ⟨0, _, WorldState.new,
    [(Os.bare, .request 1 (.declareProjects [{ name := ['p'], path := "/srv/p".toList }])),
      (diskWithC canonicalize, .message openC)], rfl⟩

theorem movesAllOrNothing_iff_sample :
    (withC fun _ => none).MovesAllOrNothing (diskWithC fun _ => none) ['p'] ['c'] ['d']
        "/srv/p/c".toList "/srv/p/d".toList ↔
      ((withC fun _ => none).renamesFile (diskWithC fun _ => none) ['p'] ['c'] ['d'] = true →
        (withC fun _ => none).Movable ['p'] ['c'] "/srv/p/c".toList) :=
  movesAllOrNothing_iff (withC_reachable _).rootsAbsolute (diskWithC_relatesPaths _) (by decide)
    (by decide)

/-- A shared buffer somewhere else. -/
def withBuffer : Server := (declared.handleShareFileFromEditor Os.bare 2 ['b'] ['x']).1

/-- The buffer has nothing to do with the move, and the file is renamed. -/
theorem not_movesAllOrNothing :
    withBuffer.Reachable ∧ ∃ after,
      withBuffer.moveFileOnDisk (diskWithC some) ['p'] ['c'] ['d'] =
          (.error "Cannot move buffer", after,
            [.stat "/srv/p/d".toList, .createDirAll "/srv/p".toList,
              .rename "/srv/p/c".toList "/srv/p/d".toList]) ∧
        (diskWithC some).rename "/srv/p/c".toList "/srv/p/d".toList = true ∧
        ¬withBuffer.MovesAllOrNothing (diskWithC some) ['p'] ['c'] ['d'] "/srv/p/c".toList
          "/srv/p/d".toList := by
  refine ⟨⟨0, _, WorldState.new,
    [(Os.bare, .request 1 (.declareProjects [{ name := ['p'], path := "/srv/p".toList }])),
      (Os.bare, .request 2 (.shareFile ['b'] ['x']))], rfl⟩, _, rfl, rfl, fun h => ?_⟩
  have hkept : (diskWithC some).rename "/srv/p/c".toList "/srv/p/d".toList = false :=
    h.1 _ _ (List.mem_cons_of_mem _ (List.mem_cons_of_mem _ List.mem_cons_self))
  cases hkept

/-- The document moves, and is not found any more when the file at the new place changes. -/
theorem canonFilename_stays :
    (withC some).Reachable ∧
      ((withC some).moveFileOnDisk (diskWithC some) ['p'] ['c'] ['d']).1 = .ok [] ∧
      (withC some).docOfFile "/srv/p/c".toList ≠ none ∧
      ((withC some).moveFileOnDisk (diskWithC some) ['p'] ['c'] ['d']).2.1.docOfFile
        "/srv/p/d".toList = none :=
  ⟨withC_reachable some, rfl, by decide, rfl⟩

end Server

end CollabMode
