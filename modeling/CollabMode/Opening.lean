import CollabMode.Batches
import CollabMode.Calls
import CollabMode.Delivery

/-!
# What the editor is given

An editor that opens a file gets a text and works on it from then on.  The positions
it sends are taken in the document that the server keeps for it, so the two must be the
same.

There are three copies of the text, the host's, the one kept for the editor and the one
in a snapshot.  `LensAgree` says that each goes with an engine that counts the same
characters.  A turn whose texts fit (`TextsFit`) keeps it, and then the answer to OpenFile is the
copy that the editor's ops go to, `Describes`.
-/

namespace CollabMode

/-! ## Lengths of documents -/

namespace Doc

/-- The engine counts the characters of the text. -/
def LenAgrees (self : Doc) : Prop := self.engine.editorLen = self.buffer.length

theorem lenAgrees_applyOps {ops : List (FatOp Op)} {self self' : Doc} {u : Unit}
    (hself : self.LenAgrees) (h : applyOps ops self = some (.ok u, self')) : self'.LenAgrees := by
  induction ops generalizing self with
  | nil => cases h; exact hself
  | cons op ops ih =>
      simp only [applyOps, applyOp, Option.bind_eq_bind, Option.bind_eq_some_iff] at h
      obtain ⟨⟨res, self₁⟩, ⟨⟨instr, engine⟩, hconv, ⟨res', buffer⟩, happly, h₁⟩, h⟩ := h
      cases res' with
      | error err => cases h₁; cases h
      | ok u' =>
          cases h₁
          dsimp only at h
          split at h
          next => cases h
          next hcheck => exact ih (checkLen_ok.mp hcheck) h

/-- A batch that fits is applied, and the lengths agree after it. -/
theorem lenAgrees_of_fits {ops : List (FatOp Op)} {self self' : Doc}
    {res : Except CollabError Unit} (hself : self.LenAgrees)
    (hfits : Fits (ops.map FatOp.op) self.engine.internalDoc self.buffer)
    (h : applyOps ops self = some (res, self')) : res = .ok () ∧ self'.LenAgrees := by
  obtain ⟨_, internalDoc, buffer, _, _, happly⟩ := applyOps_of_fits hfits
  cases happly.symm.trans h
  exact ⟨rfl, lenAgrees_applyOps hself happly⟩

theorem lenAgrees_new {content : Text} (h : IsAscii content) :
    (Doc.new content (ServerEngine.new (utf8Len content))).LenAgrees :=
  (InternalDoc.new_editorLen _).trans ((utf8Len_eq_length content).mpr h)

end Doc

namespace RemoteDoc

/-- The engine counts the characters of the text. -/
def LenAgrees (self : RemoteDoc) : Prop := self.engine.editorLen = self.buffer.length

theorem lenAgrees_processEditorOps {ops : List EditorFatOp} {self self' : RemoteDoc} {u : Unit}
    (hself : self.LenAgrees) (h : processEditorOps ops self = some (.ok u, self')) :
    self'.LenAgrees := by
  induction ops generalizing self with
  | nil => cases h; exact hself
  | cons op ops ih =>
      simp only [processEditorOps, processEditorOp, Option.bind_eq_bind,
        Option.bind_eq_some_iff] at h
      obtain ⟨⟨res, self₁⟩, ⟨⟨res', engine⟩, _, h₁⟩, h⟩ := h
      cases res' with
      | error err => cases h₁; cases h
      | ok instrs =>
          simp only [Option.bind_eq_some_iff] at h₁
          obtain ⟨⟨res'', self₂⟩, _, h₁⟩ := h₁
          cases res'' with
          | error err => cases h₁; cases h
          | ok u' =>
              dsimp only at h₁
              split at h₁
              next => cases h₁; cases h
              next hcheck =>
                  cases h₁
                  exact ih (checkLen_ok.mp hcheck) h

theorem lenAgrees_processServerOp {op : FatOp Op} {self self' : RemoteDoc}
    {leanOps : List EditorLeanOp} (hself : self.LenAgrees)
    (h : self.processServerOp op = some (.ok leanOps, self')) : self'.LenAgrees := by
  simp only [processServerOp, Option.bind_eq_bind, Option.bind_eq_some_iff] at h
  obtain ⟨⟨res, engine⟩, hremote, h⟩ := h
  cases res with
  | error err => cases h
  | ok r =>
      obtain ⟨_, ⟨_, rfl, _, _, hack⟩ | ⟨_, _, _, _, rfl⟩⟩ :=
        ClientEngine.processRemoteOp_ok hremote
      · cases h
        show engine.editorLen = _
        rw [hack.result]
        exact hself
      · simp only [Option.bind_eq_some_iff, applyEditInstruction, Option.bind_eq_bind] at h
        obtain ⟨⟨res', self₁⟩, ⟨⟨res'', self₂⟩, _, hcheck⟩, h⟩ := h
        cases res' with
        | error err => cases h
        | ok u =>
            cases h
            cases res'' with
            | error err => cases hcheck
            | ok u' =>
                obtain ⟨heq, rfl⟩ := Prod.mk.inj (Option.some.inj hcheck)
                exact checkLen_ok.mp heq

theorem lenAgrees_processServerOps {ops : List (FatOp Op)} {self self' : RemoteDoc}
    {leanOps : List EditorLeanOp} (hself : self.LenAgrees)
    (h : processServerOps ops self = some (.ok leanOps, self')) : self'.LenAgrees := by
  induction ops generalizing self leanOps with
  | nil => cases h; exact hself
  | cons op ops ih =>
      simp only [processServerOps, Option.bind_eq_bind, Option.bind_eq_some_iff] at h
      obtain ⟨⟨res, self₁⟩, hone, h⟩ := h
      cases res with
      | error err => cases h
      | ok leanOps₁ =>
          simp only [Option.bind_eq_some_iff] at h
          obtain ⟨⟨res, self₂⟩, hall, h⟩ := h
          cases res with
          | error err => cases h
          | ok leanOps₂ =>
              cases h
              exact ih (lenAgrees_processServerOp hself hone) hall

theorem lenAgrees_sendOps {docId : DocId} {ops : List EditorFatOp} {self self' : RemoteDoc}
    {r : List EditorLeanOp × Option ContextOps} (hself : self.LenAgrees)
    (h : self.sendOps docId ops = some (.ok r, self')) : self'.LenAgrees := by
  obtain ⟨edited, received, engine, hlocal, hserver, hpackage, rfl⟩ := sendOps_stages h
  have hstart : LenAgrees { self with remoteOpBuffer := [] } := hself
  have hedited : edited.LenAgrees := lenAgrees_processEditorOps hstart hlocal
  have hreceived := lenAgrees_processServerOps hedited hserver
  obtain ⟨_, hsent⟩ := received.engine.maybePackageLocalOps_sent docId
  rw [hpackage] at hsent
  show ClientEngine.editorLen engine = _
  rw [show engine = _ from hsent]
  exact hreceived

/-- Keeping ops changes nothing else. -/
theorem keepServerOps_frame (ops : List (FatOp Op)) (self : RemoteDoc) :
    ∃ remoteOpBuffer, (keepServerOps ops self).2.2 = { self with remoteOpBuffer } := by
  induction ops generalizing self with
  | nil => exact ⟨_, rfl⟩
  | cons op ops ih =>
      simp only [keepServerOps]
      split
      next => exact ⟨_, rfl⟩
      next =>
          split
          next => exact ih self
          next =>
              split
              next => exact ih self
              next => exact ih _

end RemoteDoc

theorem RemoteDocs.getByEditorDesc_insert (self : RemoteDocs) {hostId : ServerId} (docId : DocId)
    (remoteDoc : RemoteDocEntry) {file : EditorFileDesc} (hhost : file.hostId = hostId) :
    (self.insert hostId docId remoteDoc file).getByEditorDesc file = some (docId, remoteDoc) := by
  refine RemoteDocs.getByEditorDesc_some.mpr ⟨AssocMap.get_insert_self _ _ _, ?_⟩
  rw [hhost]
  exact AssocMap.get_insert_self _ _ _

namespace Server

/-! ## The servers in which lengths agree -/

/-- Engine and text count the same characters in all documents. -/
structure LensAgree (server : Server) : Prop where
  docs : AssocMap.AllVals (fun doc : DocEntry => doc.LenAgrees) server.docs
  remoteDocs : AssocMap.AllVals (fun doc : RemoteDocEntry => doc.LenAgrees) server.remoteDocs.docs

/-- The document of this host that opening the file finds. -/
def ownDoc? (self : Server) (file : EditorFileDesc) : Option (DocId × DocEntry) :=
  match self.pathIdFromFileDesc (FileDesc.from file) with
  | .error _ => none
  | .ok pathId => self.docs.reverse.find? fun entry => entry.2.matches pathId

/-- The text of the document that an event makes. -/
def newText (os : Os) (self : Server) : Event → Option Text
  | .request reqId (.openFile file mode) =>
      if self.hostId = file.hostId ∧ file.isProject = false ∧ self.ownDoc? file = none then
        self.contentOf os (.openFile reqId file mode)
      else none
  | .message { host, body := .requestFile file mode, reqId := some reqId } =>
      match self.pathIdFromFileDesc file with
      | .error _ => none
      | .ok pathId =>
          if self.findDoc pathId = none then
            self.contentOf os (.requestFile host (some reqId) file mode)
          else none
  | .request _ (.shareFile filename content) =>
      let expanded := (os.expanduser filename).getD filename
      let pathId : PathId :=
        if UnixPath.isAbsolute expanded then .path expanded else .buffer filename
      if self.findDoc pathId = none then some content else none
  | _ => none

/-- The file that an event has the host read again, and when it changed. -/
def resetOf (self : Server) : Event → Option (UnixPath.Path × Option Instant)
  | .fileChanged path timestamp => some (path, some timestamp)
  | .message { body := .resetFromDisk docId, .. } =>
      ((self.doc? docId).bind DocEntry.canonFilename).map fun path => (path, none)
  | .request _ (.resetFromDisk file) =>
      ((self.remoteDocs.getByEditorDesc file).bind fun kept =>
        (self.doc? kept.1).bind DocEntry.canonFilename).map fun path => (path, none)
  | _ => none

/-- The changes that are read from the disk can be applied. -/
def ResetFits (os : Os) (self : Server) (path : UnixPath.Path) (timestamp : Option Instant) :
    Prop :=
  ∀ docId doc isBinary content,
    (self.docs.find? fun entry =>
      match entry.2.canonFilename with
      | some canonFilename => UnixPath.same canonFilename path
      | none => false) = some (docId, doc) →
    timestamp.any (· ≤ doc.lastSavedAt) = false →
    os.openFile path false = .opened isBinary (some content) →
    Fits ((doc.ordered (chunksToOps (os.diff doc.buffer content) externalProcessSiteId
      doc.nextExternalSiteSeq).1 doc.engine.currentSeq).map FatOp.op)
      doc.engine.internalDoc doc.buffer

/-- The texts that a turn brings fit what the server keeps. -/
structure TextsFit (os : Os) (before : Server) (event : Event) : Prop where
  /-- New documents have one byte for each character. -/
  ascii : ∀ text, before.newText os event = some text → IsAscii text
  /-- What a peer sends of its document is in order. -/
  snapshot : ∀ host reqId snapshot,
    event = .message { host, body := .snapshot snapshot, reqId := some reqId } →
    snapshot.internalDoc.editorLen = snapshot.content.length
  /-- A batch is refused or can be applied. -/
  batch : ∀ host reqId ops, event = .message { host, body := .opFromClient ops, reqId } →
    before.RefusesOrFits ops host
  reset : ∀ path timestamp, before.resetOf event = some (path, timestamp) →
    before.ResetFits os path timestamp
  /-- A file of this host that is kept for the editor has caught up. -/
  pulled : ∀ reqId file mode kept, event = .request reqId (.openFile file mode) →
    before.hostId = file.hostId → before.remoteDocs.getByEditorDesc file = some kept →
    ∀ text, (before.ownDoc? file).map (fun found => found.2.buffer) = some text ∨
      before.newText os event = some text → kept.2.buffer = text

/-- The editor is given the text that its ops go to. -/
def Describes (after : Server) (effects : List Effect) : Prop :=
  ∀ reqId content siteId name file,
    .resp reqId (.openFile content siteId name file) ∈ effects →
    ∃ docId remoteDoc, after.remoteDocs.getByEditorDesc file = some (docId, remoteDoc) ∧
      content = remoteDoc.buffer ∧ content.length = remoteDoc.engine.editorLen

/-! ## Opening a file -/

section

variable {self : Server} (h : self.LensAgree)
include h

theorem LensAgree.setDoc {docId : DocId} {doc : DocEntry} (hdoc : doc.LenAgrees) :
    (self.setDoc docId doc).LensAgree := ⟨h.docs.insert docId hdoc, h.remoteDocs⟩

theorem LensAgree.addDoc {doc : DocEntry} (hdoc : doc.LenAgrees) :
    (self.addDoc doc).2.LensAgree := ⟨h.docs.insert _ hdoc, h.remoteDocs⟩

theorem LensAgree.insertRemote {hostId : ServerId} {docId : DocId} {remoteDoc : RemoteDocEntry}
    {file : EditorFileDesc} (hdoc : remoteDoc.LenAgrees) :
    ({ self with remoteDocs := self.remoteDocs.insert hostId docId remoteDoc file } :
      Server).LensAgree := ⟨h.docs, h.remoteDocs.insert _ hdoc⟩

theorem LensAgree.get {docId : DocId} {doc : DocEntry} (hget : self.doc? docId = some doc) :
    doc.LenAgrees := h.docs.get hget

theorem LensAgree.siteIdOf (hostId : ServerId) : (self.siteIdOf hostId).2.LensAgree := by
  refine ⟨?_, ?_⟩
  · rw [siteIdOf_docs]
    exact h.docs
  · rw [siteIdOf_remoteDocs]
    exact h.remoteDocs

theorem LensAgree.openOwnDoc {doc : DocEntry} (hdoc : doc.LenAgrees) (reqId : RequestId)
    (docId : DocId) {file : EditorFileDesc} (hhost : self.hostId = file.hostId)
    (hkept : ∀ kept, self.remoteDocs.getByEditorDesc file = some kept →
      kept.2.buffer = doc.buffer) :
    (self.openOwnDoc reqId docId doc file).1.LensAgree ∧
      Describes (self.openOwnDoc reqId docId doc file).1
        (self.openOwnDoc reqId docId doc file).2 := by
  have hset : (self.setDoc docId { doc with
      subscribers := AssocMap.insert doc.subscribers self.hostId 0 }).LensAgree := h.setDoc hdoc
  have hanswer {after : Server} {docId' : DocId} {remoteDoc : RemoteDocEntry}
      (hdesc : after.remoteDocs.getByEditorDesc file = some (docId', remoteDoc))
      (hbuffer : remoteDoc.buffer = doc.buffer) (hlen : remoteDoc.LenAgrees) (watch : Effect)
      (hwatch : ∀ reqId resp, watch ≠ .resp reqId resp) :
      Describes after [.resp reqId (.openFile doc.buffer self.siteId doc.name file), watch] := by
    intro reqId' content siteId name file' hmem
    rcases List.mem_cons.mp hmem with heq | hmem
    · cases heq
      exact ⟨docId', remoteDoc, hdesc, hbuffer.symm, hbuffer ▸ hlen.symm⟩
    · exact absurd (List.mem_singleton.mp hmem).symm (hwatch _ _)
  simp only [Server.openOwnDoc]
  split
  next kept hdesc =>
      have hdesc : self.remoteDocs.getByEditorDesc file = some kept := hdesc
      refine ⟨hset, hanswer hdesc (hkept kept hdesc) ?_ _ fun _ _ heq => by cases heq⟩
      exact h.remoteDocs.get (RemoteDocs.getByEditorDesc_some.mp hdesc).2
  next hnone =>
      have hremote : (self.ownRemoteDoc doc (FileDesc.from file)).LenAgrees := hdoc
      exact ⟨hset.insertRemote hremote, hanswer
        (RemoteDocs.getByEditorDesc_insert _ docId _ hhost.symm) rfl hremote _
          fun _ _ heq => by cases heq⟩

theorem LensAgree.openFileFromEditor {os : Os} {reqId : RequestId} {file : EditorFileDesc}
    {mode : OpenMode}
    (hascii : ∀ text, self.newText os (.request reqId (.openFile file mode)) = some text →
      IsAscii text)
    (hpulled : self.hostId = file.hostId → ∀ kept,
      self.remoteDocs.getByEditorDesc file = some kept → ∀ text,
      (self.ownDoc? file).map (fun found => found.2.buffer) = some text ∨
        self.newText os (.request reqId (.openFile file mode)) = some text →
      kept.2.buffer = text) :
    (self.openFileFromEditor os reqId file mode).1.LensAgree ∧
      Describes (self.openFileFromEditor os reqId file mode).1
        (self.openFileFromEditor os reqId file mode).2 := by
  have herror (code : ErrorCode) (err : String) (cs : List FsCall) :
      Describes self (cs.map Effect.fs ++ [.resp reqId (.error code err)]) := by
    intro reqId' content siteId name file' hmem
    rcases List.mem_append.mp hmem with hmem | hmem
    · obtain ⟨_, _, heq⟩ := List.mem_map.mp hmem
      cases heq
    · cases List.mem_singleton.mp hmem
  unfold Server.openFileFromEditor
  dsimp only
  split
  next hhost =>
      cases hproject : file.isProject with
      | true => exact ⟨h, herror _ _ []⟩
      | false =>
          rw [if_neg Bool.false_ne_true]
          cases hpath : self.pathIdFromFileDesc (FileDesc.from file) with
          | error err => exact ⟨h, herror _ _ []⟩
          | ok pathId =>
              have hown : self.ownDoc? file =
                  self.docs.reverse.find? fun entry => entry.2.matches pathId := by
                simp only [ownDoc?, hpath]
              dsimp only
              cases hfound : self.docs.reverse.find? fun entry => entry.2.matches pathId with
              | some found =>
                  have hmem := List.mem_reverse.mp (List.mem_of_find?_eq_some hfound)
                  refine h.openOwnDoc (h.docs found hmem) reqId found.1 hhost fun kept hkept => ?_
                  exact hpulled hhost kept hkept _ (.inl (by rw [hown, hfound]; rfl))
              | none =>
                  have hnew : self.newText os (.request reqId (.openFile file mode)) =
                      ((self.openFileFromDisk os file.project file.file mode true).1.toOption).map
                        Prod.fst := by
                    simp only [newText, hhost, hproject, hown, hfound, true_and, if_true]
                    rfl
                  dsimp only
                  split
                  next code err hread => exact ⟨h, herror _ _ _⟩
                  next content fullPath hread =>
                      rw [hread] at hnew
                      have hlen : (DocEntry.new os
                          ((UnixPath.fileName file.file).getD file.file) (.path fullPath)
                          (FileDesc.from file) content (ServerEngine.new (utf8Len content))
                          (some fullPath)).LenAgrees := Doc.lenAgrees_new (hascii content hnew)
                      have hcopy : ∀ kept, self.remoteDocs.getByEditorDesc file = some kept →
                          kept.2.buffer = content :=
                        fun kept hkept => hpulled hhost kept hkept content (.inr hnew)
                      obtain ⟨hafter, hdescribes⟩ :=
                        (h.addDoc hlen).openOwnDoc hlen reqId self.nextDocId hhost hcopy
                      refine ⟨hafter, fun reqId' content' siteId name file' hmem => ?_⟩
                      refine hdescribes reqId' content' siteId name file' ?_
                      rcases List.mem_append.mp hmem with hmem | hmem
                      · obtain ⟨_, _, heq⟩ := List.mem_map.mp hmem
                        cases heq
                      · exact hmem
  next hhost =>
      split
      next docId remoteDoc hdesc =>
          refine ⟨h, fun reqId' content siteId name file' hmem => ?_⟩
          cases List.mem_singleton.mp hmem
          have hget := (RemoteDocs.getByEditorDesc_some.mp hdesc).2
          exact ⟨docId, remoteDoc, hdesc, rfl, (h.remoteDocs.get hget).symm⟩
      next =>
          refine ⟨h, fun reqId' content siteId name file' hmem => ?_⟩
          cases List.mem_singleton.mp hmem

theorem LensAgree.handleSnapshot {reqId : RequestId} {snapshot : NewSnapshot} {host : ServerId}
    (hsnapshot : snapshot.internalDoc.editorLen = snapshot.content.length) :
    (self.handleSnapshot reqId snapshot host).1.LensAgree ∧
      Describes (self.handleSnapshot reqId snapshot host).1
        (self.handleSnapshot reqId snapshot host).2 := by
  have hhost : (EditorFileDesc.new snapshot.fileDesc host).hostId = host := by
    cases snapshot.fileDesc <;> rfl
  unfold Server.handleSnapshot
  split
  next =>
      refine ⟨h, fun reqId' content siteId name file hmem => ?_⟩
      cases List.mem_singleton.mp hmem
  next =>
      refine ⟨h.insertRemote hsnapshot, fun reqId' content siteId name file hmem => ?_⟩
      rcases List.mem_cons.mp hmem with heq | hmem
      · cases heq
        have hdesc := RemoteDocs.getByEditorDesc_insert self.remoteDocs snapshot.docId
          { toRemoteDoc := RemoteDoc.new snapshot.content
              (ClientEngine.new snapshot.siteId snapshot.seq snapshot.internalDoc)
            name := snapshot.name, fileDesc := snapshot.fileDesc } hhost
        exact ⟨snapshot.docId, _, hdesc, rfl, hsnapshot.symm⟩
      · cases List.mem_singleton.mp hmem

/-! ## The other turns -/

theorem LensAgree.remove (hostId : ServerId) (docId : DocId) :
    ({ self with remoteDocs := (self.remoteDocs.remove hostId docId).2 } : Server).LensAgree := by
  refine ⟨h.docs, ?_⟩
  show AssocMap.AllVals _ (self.remoteDocs.remove hostId docId).2.docs
  unfold RemoteDocs.remove
  split
  next => exact h.remoteDocs
  next => exact fun p hp => h.remoteDocs p (AssocMap.mem_erase.mp hp).1

theorem LensAgree.removeDocs (os : Os) (docIds : List DocId) :
    (self.removeDocs os docIds).1.LensAgree := by
  induction docIds generalizing self with
  | nil => exact h
  | cons docId docIds ih =>
      have hremote := h.remove self.hostId docId
      exact ih ⟨fun p hp => h.docs p (AssocMap.mem_erase.mp hp).1, hremote.remoteDocs⟩

theorem LensAgree.handleCloseFileLocally (os : Os) (file : FileDesc) (delete : Bool) :
    (self.handleCloseFileLocally os file delete).2.1.LensAgree := by
  rw [server_handleCloseFileLocally]
  split
  next => exact h
  next => exact h.removeDocs os _

theorem LensAgree.moveFileOnDisk (os : Os) (project : ProjectId) (oldPath newPath : Text) :
    (self.moveFileOnDisk os project oldPath newPath).2.1.LensAgree := by
  have hmove (old new : UnixPath.Path) (docs : List (DocId × DocEntry))
      (hdocs : AssocMap.AllVals (fun doc : DocEntry => doc.LenAgrees) docs) :
      AssocMap.AllVals (fun doc : DocEntry => doc.LenAgrees) (moveDocs os old new docs).2 := by
    induction docs with
    | nil => exact hdocs
    | cons entry docs ih =>
        obtain ⟨hentry, hrest⟩ := List.forall_mem_cons.mp hdocs
        obtain ⟨docId, doc⟩ := entry
        simp only [moveDocs]
        split
        next => exact hdocs
        next =>
            split
            next => exact List.forall_mem_cons.mpr ⟨hentry, ih hrest⟩
            next => exact List.forall_mem_cons.mpr ⟨hentry, ih hrest⟩
  unfold Server.moveFileOnDisk
  split
  next => exact h
  next =>
      dsimp only
      split
      next => exact h
      next => exact ⟨hmove _ _ _ h.docs, h.remoteDocs⟩

theorem LensAgree.saveFileToDisk (os : Os) (docId : DocId) :
    (self.saveFileToDisk os docId).2.1.LensAgree := by
  unfold Server.saveFileToDisk
  split
  next => exact h
  next doc hget =>
      refine h.setDoc ?_
      have hdoc := h.get hget
      unfold DocEntry.saveToDisk
      split
      next => exact hdoc
      next => split <;> exact hdoc

theorem LensAgree.resetDocFromDisk {os : Os} {reqId : Option RequestId} {path : UnixPath.Path}
    {timestamp : Option Instant} (hfits : self.ResetFits os path timestamp)
    {res : Except String Unit} {after : Server} {effects : List Effect}
    (hreset : self.resetDocFromDisk os reqId path timestamp = some (res, after, effects)) :
    after.LensAgree := by
  simp only [Server.resetDocFromDisk] at hreset
  split at hreset
  next => cases hreset; exact h
  next docId doc hfind =>
      have hdoc : doc.LenAgrees := h.docs _ (List.mem_of_find?_eq_some hfind)
      split at hreset
      next => cases hreset; exact h
      next hlate =>
          split at hreset
          next => cases hreset; exact h
          next => cases hreset; exact h
          next isBinary content hopen =>
              have hfits := hfits docId doc isBinary content hfind (by simpa using hlate) hopen
              simp only [Option.bind_eq_bind, Option.bind_eq_some_iff, Prod.exists] at hreset
              obtain ⟨res', reset, happly, hreset⟩ := hreset
              have hafter : reset.LenAgrees := by
                simp only [Doc.resetFromDisk] at happly
                split at happly
                next => cases happly; exact hdoc
                next =>
                    rw [Doc.processAndApply, Doc.processOps_eq] at happly
                    simp only [Option.bind_eq_bind, Option.bind_eq_some_iff] at happly
                    obtain ⟨⟨res'', applied⟩, happly, hres⟩ := happly
                    have hstart : Doc.LenAgrees { doc.toDoc with
                        engine := (doc.append (doc.ordered (chunksToOps
                          (os.diff doc.buffer content) externalProcessSiteId
                            doc.nextExternalSiteSeq).1 doc.engine.currentSeq)).engine
                        nextExternalSiteSeq := (chunksToOps (os.diff doc.buffer content)
                          externalProcessSiteId doc.nextExternalSiteSeq).2 } := hdoc
                    obtain ⟨rfl, happlied⟩ := Doc.lenAgrees_of_fits hstart hfits happly
                    cases hres
                    exact happlied
              split at hreset
              next => cases hreset; exact h.setDoc hafter
              next => cases hreset; exact h.setDoc hafter

theorem LensAgree.handleOpFromClient {reqId : Option RequestId} {contextOps : ContextOps}
    {host : ServerId} (hfits : self.RefusesOrFits contextOps host)
    {res : Except CollabError Unit} {after : Server} {effects : List Effect}
    (hhandle : self.handleOpFromClient reqId contextOps host = some (res, after, effects)) :
    after.LensAgree := by
  rcases self.handleOpFromClient_cases reqId contextOps host with
    ⟨_, msg, _, _, hrun⟩ | ⟨hallowed, doc, lastSeq, hpasses, hrun⟩
  · cases hrun.symm.trans hhandle
    exact h
  · rw [acceptOps_eq] at hrun
    rw [hrun] at hhandle
    obtain ⟨⟨res', applied⟩, happly, heq⟩ := Option.map_eq_some_iff.mp hhandle
    cases heq
    have hstart : (recorded doc.toDoc contextOps host).LenAgrees := h.get hpasses.get
    have hfits := hfits.resolve_left (hpasses.not_refuses hallowed) doc hpasses.get
    exact h.setDoc (Doc.lenAgrees_of_fits hstart hfits happly).2

theorem LensAgree.handleOpFromServer (reqId : Option RequestId) (docId : DocId)
    (ops : List (FatOp Op)) (host : ServerId) :
    (self.handleOpFromServer reqId docId ops host).1.LensAgree := by
  unfold Server.handleOpFromServer
  split
  next => exact h
  next op ops =>
      split
      next => exact h
      next remoteDoc hget =>
          dsimp only
          split
          next => exact h.remove host docId
          next =>
              obtain ⟨buffer, hkeep⟩ :=
                RemoteDoc.keepServerOps_frame (op :: ops) remoteDoc.toRemoteDoc
              refine ⟨h.docs, h.remoteDocs.insert _ ?_⟩
              show RemoteDoc.LenAgrees (RemoteDoc.keepServerOps _ _).2.2
              rw [hkeep]
              exact h.remoteDocs.get hget

theorem LensAgree.handleSendOpsFromEditor {reqId : RequestId} {ops : List EditorFatOp}
    {file : EditorFileDesc} {after : Server} {effects : List Effect}
    (hhandle : self.handleSendOpsFromEditor reqId ops file = some (after, effects)) :
    after.LensAgree := by
  simp only [Server.handleSendOpsFromEditor] at hhandle
  split at hhandle
  next => cases hhandle; exact h
  next docId remoteDoc hdesc =>
      simp only [Option.bind_eq_bind, Option.bind_eq_some_iff, Prod.exists] at hhandle
      obtain ⟨res, doc, hsend, hhandle⟩ := hhandle
      split at hhandle
      next => cases hhandle; exact h.remove _ docId
      next =>
          cases hhandle
          have hget := (RemoteDocs.getByEditorDesc_some.mp hdesc).2
          exact ⟨h.docs, h.remoteDocs.insert _
            (RemoteDoc.lenAgrees_sendOps (h.remoteDocs.get hget) hsend)⟩

theorem LensAgree.handleRequestFile {os : Os} {reqId : RequestId} {file : FileDesc}
    {host : ServerId} {mode : OpenMode}
    (hascii : ∀ text, self.newText os
      (.message { host, body := .requestFile file mode, reqId := some reqId }) = some text →
      IsAscii text) :
    (self.handleRequestFile os (some reqId) file host mode).1.LensAgree := by
  have hsite := h.siteIdOf host
  simp only [Server.handleRequestFile]
  split
  next => exact h
  next pathId hpath =>
      split
      next => exact hsite
      next project path =>
          split
          next => exact hsite
          next hnone =>
              split
              next => exact hsite
              next content fullPath hread =>
                  rw [openFileFromDisk_siteIdOf, config_siteIdOf] at hread
                  rw [findDoc_siteIdOf] at hnone
                  refine hsite.addDoc (Doc.lenAgrees_new (hascii content ?_))
                  simp [newText, hpath, hnone, contentOf, hread, Except.toOption]

theorem LensAgree.handleShareFileFromEditor {os : Os} {reqId : RequestId}
    {filename content : Text}
    (hascii : ∀ text, self.newText os (.request reqId (.shareFile filename content)) = some text →
      IsAscii text) :
    (self.handleShareFileFromEditor os reqId filename content).1.LensAgree := by
  simp only [Server.handleShareFileFromEditor]
  split
  next => exact h
  next pathId hpath =>
      split
      next => exact h
      next hnone =>
          have hascii : IsAscii content := by
            refine hascii content ?_
            have hsame : pathId =
                if UnixPath.isAbsolute ((os.expanduser filename).getD filename) then
                  PathId.path ((os.expanduser filename).getD filename)
                else .buffer filename := by
              split at hpath
              next habs =>
                  rw [if_pos habs]
                  exact (Except.ok.inj hpath).symm
              next habs =>
                  rw [if_neg habs]
                  exact (Except.ok.inj hpath).symm
            simp only [newText]
            rw [← hsame, if_pos hnone]
          refine (h.addDoc ?_).insertRemote ?_
          · exact Doc.lenAgrees_new hascii
          · exact InternalDoc.new_editorLen _

theorem LensAgree.handled {os : Os} {event : Event} {after : Server} {effects : List Effect}
    (hfits : TextsFit os self event) (hturn : Handled os self event after effects) :
    after.LensAgree := by
  have hmake {turn : Turn} (hturn : turn.1.LensAgree) (heq : turn = (after, effects)) :
      after.LensAgree := by
    rwa [heq] at hturn
  cases hturn with
  | idle away tables quiet =>
      exact ⟨docs_of_tables tables ▸ h.docs, remoteDocs_of_tables tables ▸ h.remoteDocs⟩
  | noted tables quiet still =>
      exact ⟨docs_of_tables tables ▸ h.docs, remoteDocs_of_tables tables ▸ h.remoteDocs⟩
  | hey hturn => cases hturn; exact ⟨h.docs, h.remoteDocs⟩
  | strayInfo stray => exact h
  | listFiles reply snap => exact h
  | makeDirectory allowed hturn => exact hmake (rest_handleMakeDirectory .. ▸ h) hturn
  | declareProjects hturn =>
      obtain ⟨projects, rfl⟩ := after_handleDeclareProjects hturn
      exact ⟨h.docs, h.remoteDocs⟩
  | requestFile hturn => exact hmake (h.handleRequestFile hfits.ascii) hturn
  | shareFile hturn => exact hmake (h.handleShareFileFromEditor hfits.ascii) hturn
  | snapshot hturn => exact hmake (h.handleSnapshot (hfits.snapshot _ _ _ rfl)).1 hturn
  | openFile hturn =>
      exact hmake (h.openFileFromEditor hfits.ascii fun hhost kept hkept =>
        hfits.pulled _ _ _ kept rfl hhost hkept).1 hturn
  | opFromClient hturn => exact h.handleOpFromClient (hfits.batch _ _ _ rfl) hturn
  | opFromServer hturn => exact hmake (h.handleOpFromServer ..) hturn
  | sendOps hturn => exact h.handleSendOpsFromEditor hturn
  | requestOps hturn =>
      unfold Server.handleRequestOps at hturn
      split at hturn
      next => cases hturn; exact h
      next doc hget => cases hturn; exact h.setDoc (h.get hget :)
  | stopSendingOps hturn =>
      unfold Server.handleStopSendingOps at hturn
      split at hturn
      next => cases hturn; exact h
      next doc hget => cases hturn; exact h.setDoc (h.get hget :)
  | docFatal hturn => cases hturn; exact h.remove ..
  | moveFile allowed hturn =>
      simp only [Server.handleMoveFile] at hturn
      split at hturn <;> cases hturn <;> exact h.moveFileOnDisk ..
  | moveFileFromEditor hturn =>
      simp only [Server.handleMoveFileFromEditor] at hturn
      split at hturn
      next => cases hturn; exact h
      next => split at hturn <;> cases hturn <;> exact h.moveFileOnDisk ..
  | saveFile allowed hturn => cases hturn; exact h.saveFileToDisk ..
  | saveFileFromEditor hturn =>
      simp only [Server.handleSaveFileFromEditor] at hturn
      split at hturn
      next => split at hturn <;> cases hturn <;> exact h
      next =>
          split at hturn
          next => cases hturn; exact h
          next => cases hturn; exact h.saveFileToDisk ..
  | resetFromDisk allowed hturn =>
      simp only [Server.handleResetFromDisk] at hturn
      split at hturn
      next => cases hturn; exact h
      next path hpath =>
          simp only [Option.bind_eq_bind, Option.bind_eq_some_iff, Prod.exists] at hturn
          obtain ⟨res, reset, effects', hreset, hturn⟩ := hturn
          have hafter := h.resetDocFromDisk
            (hfits.reset path none (by simp only [resetOf, hpath]; rfl)) hreset
          split at hturn <;> cases hturn <;> exact hafter
  | resetFromDiskFromEditor hturn =>
      simp only [Server.handleResetFromDiskFromEditor] at hturn
      split at hturn
      next => split at hturn <;> cases hturn <;> exact h
      next =>
          split at hturn
          next => cases hturn; exact h
          next docId kept hdesc =>
              split at hturn
              next => cases hturn; exact h
              next path hpath =>
                  simp only [Option.bind_eq_bind, Option.bind_eq_some_iff, Prod.exists] at hturn
                  obtain ⟨res, reset, effects', hreset, hturn⟩ := hturn
                  cases hturn
                  exact h.resetDocFromDisk (hfits.reset path none
                    (by simp only [resetOf, hdesc, Option.bind_some, hpath]; rfl)) hreset
  | fileChanged hturn => exact h.resetDocFromDisk (hfits.reset _ _ rfl) hturn
  | disconnectFromFile hturn =>
      unfold Server.handleDisconnectFromFile at hturn
      split at hturn
      next =>
          cases hturn
          refine ⟨h.docs, ?_⟩
          show AssocMap.AllVals _ (self.remoteDocs.removeByEditorDesc _).docs
          unfold RemoteDocs.removeByEditorDesc
          split
          next => exact h.remoteDocs
          next => exact fun p hp => h.remoteDocs p (AssocMap.mem_erase.mp hp).1
      next => cases hturn; exact h
  | closeFile hturn =>
      simp only [Server.handleCloseFileFromRemote] at hturn
      split at hturn
      next => cases hturn; exact h
      next => split at hturn <;> cases hturn <;> exact h.handleCloseFileLocally ..
  | closeFileFromEditor hturn =>
      simp only [Server.handleCloseFileFromEditor] at hturn
      split at hturn
      next => cases hturn; exact h
      next => split at hturn <;> cases hturn <;> exact h.handleCloseFileLocally ..
  | deleteFileFromEditor hturn =>
      simp only [Server.handleCloseFileFromEditor] at hturn
      split at hturn
      next => cases hturn; exact h
      next => split at hturn <;> cases hturn <;> exact h.handleCloseFileLocally ..

end

/-- A file is opened, by name or with a snapshot. -/
def opens : Event → Bool
  | .request _ (.openFile _ _) => true
  | .message { body := .snapshot _, .. } => true
  | _ => false

theorem LensAgree.describes {os : Os} {self : Server} (h : self.LensAgree) {event : Event}
    (hfits : TextsFit os self event) (hopens : opens event = true) {after : Server}
    {effects : List Effect} (hhandle : self.handle os event = some (after, effects)) :
    Describes after effects := by
  cases event with
  | request reqId req =>
      cases req <;> try cases hopens
      next file mode =>
          have hopened := (h.openFileFromEditor hfits.ascii fun hhost kept hkept =>
            hfits.pulled _ _ _ kept rfl hhost hkept).2
          simp only [Server.handle, handleEditorRequest, ifConnected] at hhandle
          split at hhandle
          next =>
              rw [turn_of_some hhandle] at hopened
              exact hopened
          next =>
              cases hhandle
              intro reqId' content siteId name file' hmem
              cases List.mem_singleton.mp hmem
  | message msg =>
      obtain ⟨host, body, reqId⟩ := msg
      cases body <;> try cases hopens
      next snapshot =>
          cases reqId with
          | none =>
              cases hhandle
              intro reqId' content siteId name file' hmem
              cases hmem
          | some reqId =>
              have hsnapshot := hfits.snapshot host reqId snapshot rfl
              have hopened : Describes (self.handleSnapshot reqId snapshot host).1
                  (self.handleSnapshot reqId snapshot host).2 := (h.handleSnapshot hsnapshot).2
              rw [turn_of_some hhandle] at hopened
              exact hopened
  | _ => cases hopens

/-- When the texts fit in every turn, an opened file is answered with the text that the editor's
ops go to. -/
theorem describes_of_textsFit {hostId : ServerId} {config : Config} {idealWorld : WorldState}
    {turns : List (Os × Event)}
    (hfits : Run.Meets step (fun self turn => TextsFit turn.1 self turn.2)
      (new hostId config idealWorld) turns)
    {before : Server} (hrun : Run.run step (new hostId config idealWorld) turns = some before)
    {os : Os} {event : Event} (hevent : TextsFit os before event) (hopens : opens event = true)
    {after : Server} {effects : List Effect}
    (hhandle : before.handle os event = some (after, effects)) : Describes after effects := by
  have hlens : before.LensAgree := by
    refine Run.invariant (fun s turn t hs hmeets hstep => ?_)
      ⟨by simp [new, AssocMap.AllVals], by simp [new, RemoteDocs.new, AssocMap.AllVals]⟩ hfits hrun
    obtain ⟨⟨t, effects⟩, hturn, rfl⟩ := Option.map_eq_some_iff.mp hstep
    exact hs.handled hmeets (handled hturn)
  exact hlens.describes hevent hopens hhandle

theorem describes_of_textsFit_sample :
    ∃ turn, (sharing ['a', 'b', 'c']).1.handle Os.bare (.request 2 (.openFile sharedFile .create)) =
      some turn ∧ Describes turn.1 turn.2 := by
  have hshare : TextsFit Os.bare fresh (.request 1 (.shareFile ['a'] ['a', 'b', 'c'])) := by
    refine ⟨fun text htext => ?_, nofun, nofun, nofun, nofun⟩
    obtain rfl : ['a', 'b', 'c'] = text := Option.some.inj htext
    decide
  have hopen : TextsFit Os.bare (sharing ['a', 'b', 'c']).1
      (.request 2 (.openFile sharedFile .create)) := by
    have hnew : (sharing ['a', 'b', 'c']).1.newText Os.bare
        (.request 2 (.openFile sharedFile .create)) = none := by decide
    refine ⟨fun text htext => ?_, nofun, nofun, nofun, ?_⟩
    · rw [hnew] at htext
      cases htext
    · intro reqId file mode kept hevent _ hkept text htext
      cases hevent
      have hbuffer : ((sharing ['a', 'b', 'c']).1.remoteDocs.getByEditorDesc sharedFile).map
          (fun kept => kept.2.buffer) = some ['a', 'b', 'c'] := by decide
      have hown : ((sharing ['a', 'b', 'c']).1.ownDoc? sharedFile).map
          (fun found => found.2.buffer) = some ['a', 'b', 'c'] := by decide
      rw [hkept] at hbuffer
      rw [hown, hnew] at htext
      rcases htext with htext | htext
      · exact Option.some.inj (hbuffer.trans htext)
      · cases htext
  exact ⟨_, rfl, @describes_of_textsFit 0 _ WorldState.new
    [(Os.bare, .request 1 (.shareFile ['a'] ['a', 'b', 'c']))]
    ⟨hshare, fun _ _ => trivial⟩ _ rfl Os.bare _ hopen rfl _ _ rfl⟩

/-- A peer inserts a character into a document of the host. -/
def insertion : List (Os × Event) :=
  [(Os.bare, .request 1 (.shareFile ['a'] ['a', 'b', 'c'])),
    (Os.bare, .message { host := 5, body := .requestOps 1 0, reqId := none }),
    (Os.bare, .message
      { host := 5, reqId := none
        body := .opFromClient { context := 0, doc := 1
                                ops := [{ seq := none, op := .ins (0, ['x']) 1, siteSeq := 1
                                          kind := .original, groupSeq := 0 }] } })]

/-- The host's editor opens the file again, without having pulled the insertion.  It is
given the host's text, and its ops go to a document that has not the character. -/
theorem not_describes :
    ∃ before turn, Run.run step fresh insertion = some before ∧
      before.handle Os.bare (.request 2 (.openFile sharedFile .create)) = some turn ∧
      ¬Describes turn.1 turn.2 := by
  have hbuffer : ((Run.run step fresh insertion).bind fun before =>
      (before.handle Os.bare (.request 2 (.openFile sharedFile .create))).map fun turn =>
        (turn.1.remoteDocs.getByEditorDesc sharedFile).map fun kept => kept.2.buffer) =
      some (some ['a', 'b', 'c']) := by decide
  have hanswer : ((Run.run step fresh insertion).bind fun before =>
      (before.handle Os.bare (.request 2 (.openFile sharedFile .create))).map fun turn =>
        turn.2.head?) =
      some (some (.resp 2 (.openFile ['x', 'a', 'b', 'c'] 0 ['a'] sharedFile))) := by decide
  obtain ⟨before, hrun, hbuffer⟩ := Option.bind_eq_some_iff.mp hbuffer
  obtain ⟨turn, hhandle, hbuffer⟩ := Option.map_eq_some_iff.mp hbuffer
  rw [hrun, Option.bind_some, hhandle] at hanswer
  refine ⟨before, turn, hrun, hhandle, fun h => ?_⟩
  obtain ⟨docId, remoteDoc, hdesc, hcontent, _⟩ :=
    h _ _ _ _ _ (List.mem_of_mem_head? (Option.some.inj hanswer))
  rw [hdesc] at hbuffer
  have htext : remoteDoc.buffer = ['a', 'b', 'c'] := Option.some.inj hbuffer
  rw [htext] at hcontent
  exact absurd hcontent (by decide)

end Server

end CollabMode
