import CollabMode.Turns

/-!
# Calls on the file system

The calls that the handlers of a peer's messages make, one lemma for each function
that goes to the disk.  What a message may do to the disk, and where, is read off
them.
-/

namespace CollabMode

open UnixPath (Path)

namespace Server

/-! ## The functions that go to the disk -/

/-- Only the path of the file is looked at and opened. -/
theorem calls_openFileFromDisk {os : Os} {self : Server} {project : ProjectId} {relPath : Text}
    {mode : OpenMode} {createAllowed : Bool} {call : FsCall}
    (h : call ∈ (self.openFileFromDisk os project relPath mode createAllowed).2) :
    ∃ fullPath, self.diskPath project relPath = .ok fullPath ∧
      (call = .stat fullPath ∨
        call = .open fullPath (mode = .create && createAllowed)) := by
  unfold openFileFromDisk at h
  split at h
  next => cases h
  next fullPath hpath =>
      refine ⟨fullPath, hpath, ?_⟩
      dsimp only at h
      split at h
      next =>
          split at h
          next => exact .inl (List.mem_singleton.mp h)
          next => cases h
      next =>
          have hmem : call ∈ (if (decide (mode = .create) && !createAllowed) = true then
              [FsCall.stat fullPath] else []) ++
                [.open fullPath (decide (mode = .create) && createAllowed)] := by
            split at h
            next => exact h
            next =>
                split at h
                next => exact h
                next => split at h <;> exact h
          rcases List.mem_append.mp hmem with hmem | hmem
          · split at hmem
            next => exact .inl (List.mem_singleton.mp hmem)
            next => cases hmem
          · exact .inr (List.mem_singleton.mp hmem)

theorem mem_listEntries {hostId : ServerId} {project : ProjectId} {dir : Path}
    {fileOf : Text → Option Text} {entries : List (Option DirEntry)} {call : FsCall}
    (h : call ∈ (listEntries hostId project dir fileOf entries).2) :
    ∃ entry, some entry ∈ entries ∧ call = .stat (UnixPath.join dir entry.name) := by
  induction entries with
  | nil => cases h
  | cons entry entries ih =>
      cases entry with
      | none => cases h
      | some entry =>
          have hlater (hmem : call ∈ (listEntries hostId project dir fileOf entries).2) :
              ∃ entry', some entry' ∈ some entry :: entries ∧
                call = .stat (UnixPath.join dir entry'.name) := by
            obtain ⟨entry', hentry, heq⟩ := ih hmem
            exact ⟨entry', List.mem_cons_of_mem _ hentry, heq⟩
          have hfirst (hmem : call = .stat (UnixPath.join dir entry.name)) :
              ∃ entry', some entry' ∈ some entry :: entries ∧
                call = .stat (UnixPath.join dir entry'.name) :=
            ⟨entry, List.mem_cons_self, hmem⟩
          simp only [listEntries] at h
          split at h
          next => exact hfirst (List.mem_singleton.mp h)
          next =>
              split at h
              next => exact hfirst (List.mem_singleton.mp h)
              next =>
                  split at h <;>
                    exact (List.mem_cons.mp h).elim hfirst hlater

/-- A directory is read, and then its entries are looked at. -/
theorem calls_listDirectory (os : Os) (self : Server) (project : ProjectId) (dir : Path)
    (failed : String) (fileOf : Text → Option Text) :
    ∃ stats, (self.listDirectory os project dir failed fileOf).2 = .readDir dir :: stats ∧
      ∀ call ∈ stats, ∃ entries entry, os.readDir dir = some entries ∧ some entry ∈ entries ∧
        call = .stat (UnixPath.join dir entry.name) := by
  unfold listDirectory
  split
  next => exact ⟨[], rfl, by simp⟩
  next entries hread =>
      refine ⟨(listEntries self.hostId project dir fileOf entries).2, ?_, fun call hcall => ?_⟩
      · dsimp only
        split <;> rfl
      · obtain ⟨entry, hentry, heq⟩ := mem_listEntries hcall
        exact ⟨entries, entry, hread, hentry, heq⟩

/-- Listing looks at the disk and does nothing to it. -/
theorem mem_listFilesFromDisk {os : Os} {self : Server} {dir : Option FileDesc} {call : FsCall}
    (h : call ∈ (self.listFilesFromDisk os dir).2) :
    (∃ path, call = .stat path) ∨ ∃ path, call = .readDir path := by
  have hlist {project : ProjectId} {path : Path} {failed : String} {fileOf : Text → Option Text}
      (h : call ∈ (self.listDirectory os project path failed fileOf).2) :
      (∃ path, call = .stat path) ∨ ∃ path, call = .readDir path := by
    obtain ⟨stats, heq, hstats⟩ := calls_listDirectory os self project path failed fileOf
    rw [heq] at h
    rcases List.mem_cons.mp h with rfl | h
    · exact .inr ⟨_, rfl⟩
    · obtain ⟨_, _, _, _, rfl⟩ := hstats call h
      exact .inl ⟨_, rfl⟩
  unfold listFilesFromDisk at h
  split at h
  next =>
      split at h
      next => cases h
      next =>
          split at h
          next => cases h
          next =>
              dsimp only at h
              split at h
              next => exact .inl ⟨_, List.mem_singleton.mp h⟩
              next => exact .inl ⟨_, List.mem_singleton.mp h⟩
              next =>
                  rcases List.mem_cons.mp h with rfl | h
                  · exact .inl ⟨_, rfl⟩
                  · exact hlist h
  next =>
      split at h
      next => cases h
      next =>
          split at h
          next => cases h
          next =>
              split at h
              next => cases h
              next => exact hlist h
  next => cases h

theorem mem_makeDirectoryOnDisk {os : Os} {self : Server} {project : ProjectId} {relPath : Text}
    {call : FsCall} (h : call ∈ (self.makeDirectoryOnDisk os project relPath).2) :
    ∃ path, call = .createDirAll path := by
  unfold makeDirectoryOnDisk at h
  split at h
  next => cases h
  next =>
      split at h
      next => cases h
      next =>
          dsimp only at h
          split at h <;> exact ⟨_, List.mem_singleton.mp h⟩

theorem mem_moveCalls {os : Os} {oldPath newPath : Path} {call : FsCall}
    (h : call ∈ (moveCalls os oldPath newPath).2) :
    call = .stat newPath ∨ (∃ parent, call = .createDirAll parent) ∨
      call = .rename oldPath newPath := by
  simp only [moveCalls] at h
  split at h
  next => exact .inl (List.mem_singleton.mp h)
  next =>
      cases hparent : UnixPath.parent newPath with
      | none =>
          simp only [hparent] at h
          rcases List.mem_cons.mp h with h | h
          · exact .inl h
          · exact .inr (.inr (List.mem_singleton.mp h))
      | some parent =>
          simp only [hparent] at h
          split at h
          next =>
              rcases List.mem_cons.mp h with h | h
              · exact .inl h
              · exact .inr (.inl ⟨_, List.mem_singleton.mp h⟩)
          next =>
              rcases List.mem_cons.mp h with h | h
              · exact .inl h
              · rcases List.mem_cons.mp h with h | h
                · exact .inr (.inl ⟨_, h⟩)
                · exact .inr (.inr (List.mem_singleton.mp h))

theorem mem_saveToDisk {os : Os} {doc : DocEntry} {call : FsCall}
    (h : call ∈ (doc.saveToDisk os).2.2) :
    ∃ path, doc.diskFile = some path ∧ call = .overwrite path := by
  unfold DocEntry.saveToDisk at h
  split at h
  next => cases h
  next path hfile => split at h <;> exact ⟨path, hfile, List.mem_singleton.mp h⟩

theorem mem_deletePath {os : Os} {path : Path} {call : FsCall} (h : call ∈ (deletePath os path).2) :
    call = .stat path ∨ call = .removeDirAll path ∨ call = .removeFile path := by
  unfold deletePath at h
  split at h
  next =>
      rcases List.mem_cons.mp h with h | h
      · exact .inl h
      · exact .inr (.inl (List.mem_singleton.mp h))
  next =>
      rcases List.mem_cons.mp h with h | h
      · exact .inl h
      · exact .inr (.inr (List.mem_singleton.mp h))
  next => exact .inl (List.mem_singleton.mp h)

/-- A document is saved once, when it is removed. -/
theorem mem_removeDocs {os : Os} {self : Server} {docIds : List DocId} {call : FsCall}
    (h : call ∈ (self.removeDocs os docIds).2) :
    ∃ docId ∈ docIds, ∃ doc, self.doc? docId = some doc ∧
      ∃ path, doc.diskFile = some path ∧ call = .overwrite path := by
  induction docIds generalizing self with
  | nil => cases h
  | cons docId docIds ih =>
      simp only [removeDocs] at h
      rcases List.mem_append.mp h with h | h
      · cases hget : self.doc? docId with
        | none => simp [hget] at h
        | some doc =>
            simp only [hget] at h
            exact ⟨docId, List.mem_cons_self, doc, hget, mem_saveToDisk h⟩
      · obtain ⟨docId', hmem, doc, hget, hpath⟩ := ih h
        refine ⟨docId', List.mem_cons_of_mem _ hmem, doc, ?_, hpath⟩
        have herase := AssocMap.get_erase self.docs docId docId'
        have hget : AssocMap.get (AssocMap.erase self.docs docId) docId' = some doc := hget
        rw [hget] at herase
        split at herase
        next => cases herase
        next => exact herase.symm

/-! ## The handlers -/

theorem calls_sent {host : ServerId} {reqId : Option RequestId} {msg : Msg} (cs : List FsCall) :
    calls (cs.map Effect.fs ++ [.send host reqId msg]) = cs := by
  rw [calls_append, calls_fs]
  exact List.append_nil cs

/-- The calls for a file that is requested. -/
theorem calls_handleRequestFile (os : Os) (self : Server) (reqId : Option RequestId)
    (project : ProjectId) (file : Text) (host : ServerId) (mode : OpenMode) :
    calls (self.handleRequestFile os reqId (.projectFile project file) host mode).2 =
      match self.pathIdFromFileDesc (.projectFile project file) with
      | .error _ => []
      | .ok pathId =>
          match self.findDoc pathId with
          | some _ => []
          | none =>
              let opened :=
                self.openFileFromDisk os project file mode (self.config.createAllowed host)
              opened.2 ++
                match opened.1 with
                | .error _ => []
                | .ok (_, fullPath) => [.canonicalize fullPath] := by
  cases hpath : self.pathIdFromFileDesc (.projectFile project file) with
  | error err => simp [handleRequestFile, hpath, calls_send]
  | ok pathId =>
      cases hdoc : self.findDoc pathId with
      | some entry => simp [handleRequestFile, hpath, findDoc_siteIdOf, hdoc, calls_send]
      | none =>
          simp only [handleRequestFile, hpath, findDoc_siteIdOf, hdoc, openFileFromDisk_siteIdOf,
            config_siteIdOf]
          cases hres : (self.openFileFromDisk os project file mode
              (self.config.createAllowed host)).1 with
          | error err => simp [calls_send]
          | ok content =>
              simp only [calls_append, calls_fs, List.append_assoc]
              rfl

theorem calls_handleRequestFile_project (os : Os) (self : Server) (reqId : Option RequestId)
    (project : ProjectId) (host : ServerId) (mode : OpenMode) :
    calls (self.handleRequestFile os reqId (.project project) host mode).2 = [] := by
  simp only [handleRequestFile]
  split <;> rfl

theorem calls_handleMoveFile (os : Os) (self : Server) (reqId : Option RequestId)
    (project : ProjectId) (oldPath newPath : Text) (host : ServerId) :
    calls (self.handleMoveFile os reqId project oldPath newPath host).2 =
      (self.moveFileOnDisk os project oldPath newPath).2.2 := by
  simp only [handleMoveFile]
  split
  next => exact calls_sent _
  next =>
      rw [calls_append, calls_fs, calls_eq_nil, List.append_nil]
      intro e he
      obtain ⟨_, _, rfl⟩ := List.mem_map.mp he
      rfl

theorem calls_handleCloseFileLocally (os : Os) (self : Server) (file : FileDesc)
    (delete : Bool) :
    calls (self.handleCloseFileLocally os file delete).2.2 =
      match self.findDocsAndPathToDelete file with
      | .error _ => []
      | .ok (docIds, path, _) =>
          (self.removeDocs os docIds).2 ++
            match delete, path with
            | true, some path => (deletePath os path).2
            | _, _ => [] := by
  cases hfind : self.findDocsAndPathToDelete file with
  | error err => simp [handleCloseFileLocally, hfind]
  | ok found =>
      obtain ⟨docIds, path, subscribers⟩ := found
      simp only [handleCloseFileLocally, hfind]
      cases delete with
      | false => simp [watchFiles, calls_cons, Effect.call?]
      | true =>
          cases path with
          | none => simp [watchFiles, calls_cons, Effect.call?]
          | some path =>
              dsimp only
              cases (deletePath os path).1 with
              | error err => simp
              | ok _ => simp [watchFiles, calls_cons, Effect.call?]

theorem server_handleCloseFileLocally (os : Os) (self : Server) (file : FileDesc)
    (delete : Bool) :
    (self.handleCloseFileLocally os file delete).2.1 =
      match self.findDocsAndPathToDelete file with
      | .error _ => self
      | .ok (docIds, _, _) => (self.removeDocs os docIds).1 := by
  cases hfind : self.findDocsAndPathToDelete file with
  | error err => simp [handleCloseFileLocally, hfind]
  | ok found =>
      simp only [handleCloseFileLocally, hfind]
      split <;> rfl

theorem server_handleCloseFileFromRemote (os : Os) (self : Server) (reqId : Option RequestId)
    (file : FileDesc) (requester : ServerId) (delete : Bool) :
    (self.handleCloseFileFromRemote os reqId file requester delete).1 =
      if self.config.deleteAllowed requester then (self.handleCloseFileLocally os file delete).2.1
      else self := by
  simp only [handleCloseFileFromRemote]
  cases self.config.deleteAllowed requester with
  | false => rfl
  | true =>
      simp only [Bool.not_true, Bool.false_eq_true, if_false, if_true]
      split <;> rfl

theorem calls_handleCloseFileFromRemote (os : Os) (self : Server) (reqId : Option RequestId)
    (file : FileDesc) (requester : ServerId) (delete : Bool) :
    calls (self.handleCloseFileFromRemote os reqId file requester delete).2 =
      if self.config.deleteAllowed requester then
        calls (self.handleCloseFileLocally os file delete).2.2
      else [] := by
  simp only [handleCloseFileFromRemote]
  cases hallowed : self.config.deleteAllowed requester with
  | false => rfl
  | true =>
      simp only [Bool.not_true, Bool.false_eq_true, if_false, if_true]
      split
      next => simp [calls_send]
      next subscribers _ =>
          have htold (hostId : ServerId) : calls (subscribers.filterMap fun subscriber =>
              if subscriber = requester then
                some (Effect.send subscriber reqId (closedMsg file delete))
              else if subscriber ≠ hostId then
                some (.send subscriber none (closedMsg file delete))
              else none) = [] := by
            refine calls_eq_nil fun e he => ?_
            obtain ⟨subscriber, _, hsend⟩ := List.mem_filterMap.mp he
            split at hsend
            next => cases hsend; rfl
            next => split at hsend <;> cases hsend; rfl
          have hanswer : calls (if subscribers.contains requester then []
              else [Effect.send requester reqId (closedMsg file delete)]) = [] := by
            split <;> rfl
          rw [calls_append, calls_append, hanswer, List.append_nil, htold, List.append_nil]

theorem calls_handleHey (os : Os) (self : Server) (hey : HeyMessage) (host : ServerId) :
    calls (self.handleHey os hey host).2 = [.saveConfig] := by
  simp only [handleHey]
  split <;> rfl

theorem mem_moveFileOnDisk {os : Os} {self : Server} {project : ProjectId}
    {oldPath newPath : Text} {call : FsCall}
    (h : call ∈ (self.moveFileOnDisk os project oldPath newPath).2.2) :
    ∃ old new, call ∈ (moveCalls os old new).2 := by
  unfold moveFileOnDisk at h
  split at h
  next => cases h
  next =>
      dsimp only at h
      split at h <;> exact ⟨_, _, h⟩

theorem mem_saveFileToDisk {os : Os} {self : Server} {docId : DocId} {call : FsCall}
    (h : call ∈ (self.saveFileToDisk os docId).2.2) : ∃ path, call = .overwrite path := by
  unfold saveFileToDisk at h
  split at h
  next => cases h
  next =>
      obtain ⟨path, _, heq⟩ := mem_saveToDisk h
      exact ⟨path, heq⟩

theorem calls_broadcastOps (doc : Doc) (reqId : Option RequestId) (docId : DocId)
    (ops : List (FatOp Op)) : calls (broadcastOps doc reqId docId ops) = [] := by
  refine calls_eq_nil fun e he => ?_
  obtain ⟨_, _, rfl⟩ := List.mem_map.mp he
  rfl

/-- The file is opened and read, and never made. -/
theorem mem_resetDocFromDisk {os : Os} {self after : Server} {reqId : Option RequestId}
    {path : Path} {timestamp : Option Instant} {res : Except String Unit} {effects : List Effect}
    (h : self.resetDocFromDisk os reqId path timestamp = some (res, after, effects)) :
    ∀ call ∈ calls effects, call = .open path false := by
  have hopen (rest : List Effect) (hrest : calls rest = []) :
      ∀ call ∈ calls ([Effect.fs (.open path false)] ++ rest), call = .open path false := by
    intro call hcall
    rw [calls_append, hrest, List.append_nil] at hcall
    exact List.mem_singleton.mp hcall
  simp only [resetDocFromDisk] at h
  split at h
  next => cases h; simp
  next =>
      split at h
      next => cases h; simp
      next =>
          split at h
          next => cases h; exact hopen [] rfl
          next => cases h; exact hopen [] rfl
          next =>
              simp only [Option.bind_eq_bind, Option.bind_eq_some_iff, Prod.exists] at h
              obtain ⟨res, reset, _, h⟩ := h
              split at h
              next => cases h; exact hopen [] rfl
              next =>
                  cases h
                  refine hopen _ ?_
                  split
                  next => rfl
                  next => exact calls_broadcastOps ..

theorem mem_handleResetFromDisk {os : Os} {self after : Server} {reqId : Option RequestId}
    {docId : DocId} {host : ServerId} {effects : List Effect}
    (h : self.handleResetFromDisk os reqId docId host = some (after, effects)) :
    ∀ call ∈ calls effects, ∃ path, call = .open path false := by
  simp only [handleResetFromDisk] at h
  split at h
  next => cases h; simp [calls_send]
  next path _ =>
      simp only [Option.bind_eq_bind, Option.bind_eq_some_iff, Prod.exists] at h
      obtain ⟨res, reset, effects', hreset, h⟩ := h
      have hcalls := mem_resetDocFromDisk hreset
      split at h
      next =>
          cases h
          intro call hcall
          rw [calls_append, calls_send, calls_nil, List.append_nil] at hcall
          exact ⟨path, hcalls call hcall⟩
      next =>
          cases h
          exact fun call hcall => ⟨path, hcalls call hcall⟩

theorem calls_acceptOps {self after : Server} {reqId : Option RequestId} {docId : DocId}
    {doc : DocEntry} {contextOps : ContextOps} {host : ServerId} {res : Except CollabError Unit}
    {effects : List Effect}
    (h : self.acceptOps reqId docId doc contextOps host = some (res, after, effects)) :
    calls effects = [] := by
  simp only [acceptOps, Option.bind_eq_bind, Option.bind_eq_some_iff, Prod.exists] at h
  obtain ⟨res, applied, _, h⟩ := h
  split at h
  next => cases h; rfl
  next => cases h; exact calls_broadcastOps ..

theorem calls_handleOpFromClient {self after : Server} {reqId : Option RequestId}
    {contextOps : ContextOps} {host : ServerId} {res : Except CollabError Unit}
    {effects : List Effect}
    (h : self.handleOpFromClient reqId contextOps host = some (res, after, effects)) :
    calls effects = [] := by
  simp only [handleOpFromClient] at h
  split at h
  next => cases h; rfl
  next =>
      split at h
      next => cases h; rfl
      next =>
          split at h
          next => cases h; rfl
          next =>
              split at h
              next => exact calls_acceptOps h
              next =>
                  split at h
                  next => cases h; rfl
                  next => exact calls_acceptOps h

theorem calls_handleOpFromServer (self : Server) (reqId : Option RequestId) (docId : DocId)
    (ops : List (FatOp Op)) (host : ServerId) :
    calls (self.handleOpFromServer reqId docId ops host).2 = [] := by
  have hrequests (asked : List GlobalSeq) :
      calls (asked.map fun after => Effect.send host reqId (.requestOps docId after)) = [] := by
    refine calls_eq_nil fun e he => ?_
    obtain ⟨_, _, rfl⟩ := List.mem_map.mp he
    rfl
  unfold handleOpFromServer
  split
  next => rfl
  next =>
      split
      next => rfl
      next =>
          dsimp only
          split
          next => rw [calls_append, hrequests]; rfl
          next =>
              rw [calls_append, hrequests]
              split
              next => split <;> rfl
              next => rfl

end Server

end CollabMode
