import CollabMode.Following

/-!
# The two maps of remote documents

A server keeps the copies of documents in one map, and which descriptor of the editor goes to
which copy in another.  A copy goes in under a descriptor that the caller gives (`Insertion`),
and when it is removed the descriptor is put together again from the file that the copy has.
The maps are in step (`InStep`) exactly when the two descriptors are the same for every copy
(`Keyed`), and an insertion keeps them so exactly when it `Fits`.
-/

namespace CollabMode

/-- A copy that is put in: its document, the file that it has and the descriptor that it goes
under. -/
structure Insertion where
  docId : DocId
  fileDesc : FileDesc
  file : EditorFileDesc
deriving DecidableEq, Repr

theorem EditorFileDesc.new_hostId (fileDesc : FileDesc) (host : ServerId) :
    (EditorFileDesc.new fileDesc host).hostId = host := by
  cases fileDesc <;> rfl

namespace RemoteDocs

/-- A document that neither map leads to. -/
structure Unreachable (maps : RemoteDocs) (host : ServerId) (docId : DocId) : Prop where
  copy : maps.get host docId = none
  desc : ∀ file, file.hostId = host → AssocMap.get maps.editorMap file ≠ some docId

/-- The two maps are in step. -/
structure InStep (maps : RemoteDocs) : Prop where
  target : ∀ file docId, AssocMap.get maps.editorMap file = some docId →
    ∃ entry, maps.get file.hostId docId = some entry
  unique : ∀ host docId entry, maps.get host docId = some entry →
    ∃! file, file.hostId = host ∧ AssocMap.get maps.editorMap file = some docId
  removed : ∀ host docId, (maps.remove host docId).2.Unreachable host docId
  removedByDesc : ∀ file docId entry, maps.getByEditorDesc file = some (docId, entry) →
    (maps.removeByEditorDesc file).Unreachable file.hostId docId

/-- Each copy is found under the descriptor that its file gives, and there are no other
descriptors. -/
structure Keyed (maps : RemoteDocs) : Prop where
  indexed : ∀ host docId entry, maps.get host docId = some entry →
    AssocMap.get maps.editorMap (EditorFileDesc.new entry.fileDesc host) = some docId
  rebuilt : ∀ file docId, AssocMap.get maps.editorMap file = some docId →
    ∃ entry, maps.get file.hostId docId = some entry ∧
      file = EditorFileDesc.new entry.fileDesc file.hostId

/-- The descriptor is the one that the file gives.  It is a new one for a document without
a copy, and that of the copy that is replaced otherwise. -/
def Fits (maps : RemoteDocs) (new : Insertion) : Prop :=
  new.file = EditorFileDesc.new new.fileDesc new.file.hostId ∧
    match maps.get new.file.hostId new.docId with
    | none => AssocMap.get maps.editorMap new.file = none
    | some old => EditorFileDesc.new old.fileDesc new.file.hostId = new.file

instance (maps : RemoteDocs) (new : Insertion) : Decidable (maps.Fits new) :=
  match h : maps.get new.file.hostId new.docId with
  | none =>
      decidable_of_iff (new.file = EditorFileDesc.new new.fileDesc new.file.hostId ∧
        AssocMap.get maps.editorMap new.file = none) (by rw [Fits, h])
  | some old =>
      decidable_of_iff (new.file = EditorFileDesc.new new.fileDesc new.file.hostId ∧
        EditorFileDesc.new old.fileDesc new.file.hostId = new.file) (by rw [Fits, h])

theorem keyed_new : RemoteDocs.new.Keyed := ⟨nofun, nofun⟩

section

variable {maps : RemoteDocs}

theorem editorMap_remove {host : ServerId} {docId : DocId} {entry : RemoteDocEntry}
    (h : maps.get host docId = some entry) (file : EditorFileDesc) :
    AssocMap.get (maps.remove host docId).2.editorMap file =
      if file = EditorFileDesc.new entry.fileDesc host then none
      else AssocMap.get maps.editorMap file := by
  simp only [remove, h]
  exact AssocMap.get_erase ..

theorem editorMap_removeByEditorDesc (file file' : EditorFileDesc) :
    AssocMap.get (maps.removeByEditorDesc file).editorMap file' =
      if file' = file then none else AssocMap.get maps.editorMap file' := by
  unfold removeByEditorDesc
  split
  next hnone =>
      split
      next hk => rw [hk, hnone]
      next => rfl
  next => exact AssocMap.get_erase ..

/-- A descriptor leads to one copy, and two descriptors of a host to different ones. -/
theorem Keyed.file_eq (h : maps.Keyed) {host : ServerId} {docId : DocId} {entry : RemoteDocEntry}
    (hget : maps.get host docId = some entry) {file : EditorFileDesc} (hhost : file.hostId = host)
    (hfile : AssocMap.get maps.editorMap file = some docId) :
    file = EditorFileDesc.new entry.fileDesc host := by
  obtain ⟨entry', hget', hrebuilt⟩ := h.rebuilt file docId hfile
  rw [hhost, hget] at hget'
  cases hget'
  rwa [hhost] at hrebuilt

theorem Keyed.unreachable_remove (h : maps.Keyed) (host : ServerId) (docId : DocId) :
    (maps.remove host docId).2.Unreachable host docId := by
  refine ⟨by rw [get_remove, if_pos rfl], fun file hhost hfile => ?_⟩
  cases hget : maps.get host docId with
  | none =>
      simp only [remove, hget] at hfile
      obtain ⟨entry, hentry, _⟩ := h.rebuilt file docId hfile
      rw [hhost, hget] at hentry
      cases hentry
  | some entry =>
      rw [editorMap_remove hget] at hfile
      split at hfile
      next => cases hfile
      next hne => exact hne (h.file_eq hget hhost hfile)

theorem Keyed.unreachable_removeByEditorDesc (h : maps.Keyed) {file : EditorFileDesc}
    {docId : DocId} {entry : RemoteDocEntry}
    (hdesc : maps.getByEditorDesc file = some (docId, entry)) :
    (maps.removeByEditorDesc file).Unreachable file.hostId docId := by
  obtain ⟨hmap, hget⟩ := getByEditorDesc_some.mp hdesc
  refine ⟨by rw [get_removeByEditorDesc hdesc, if_pos rfl], fun file' hhost hfile => ?_⟩
  rw [editorMap_removeByEditorDesc] at hfile
  split at hfile
  next => cases hfile
  next hne => exact hne ((h.file_eq hget hhost hfile).trans (h.file_eq hget rfl hmap).symm)

theorem Keyed.inStep (h : maps.Keyed) : maps.InStep where
  target file docId hfile :=
    let ⟨entry, hentry, _⟩ := h.rebuilt file docId hfile
    ⟨entry, hentry⟩
  unique host docId entry hget :=
    ⟨EditorFileDesc.new entry.fileDesc host,
      ⟨EditorFileDesc.new_hostId .., h.indexed host docId entry hget⟩,
      fun _ hfile => h.file_eq hget hfile.1 hfile.2⟩
  removed := h.unreachable_remove
  removedByDesc _ _ _ := h.unreachable_removeByEditorDesc

/-- The removal of a copy takes one descriptor along, so that is the one that leads to it. -/
theorem InStep.indexed (h : maps.InStep) {host : ServerId} {docId : DocId}
    {entry : RemoteDocEntry} (hget : maps.get host docId = some entry) {file : EditorFileDesc}
    (hhost : file.hostId = host) (hfile : AssocMap.get maps.editorMap file = some docId) :
    file = EditorFileDesc.new entry.fileDesc host := by
  by_contra hne
  refine (h.removed host docId).desc file hhost ?_
  rw [editorMap_remove hget, if_neg hne, hfile]

theorem inStep_iff_keyed : maps.InStep ↔ maps.Keyed := by
  refine ⟨fun h => ⟨fun host docId entry hget => ?_, fun file docId hfile => ?_⟩, Keyed.inStep⟩
  · obtain ⟨file, ⟨hhost, hfile⟩, _⟩ := h.unique host docId entry hget
    rw [← h.indexed hget hhost hfile]
    exact hfile
  · obtain ⟨entry, hget⟩ := h.target file docId hfile
    exact ⟨entry, hget, h.indexed hget rfl hfile⟩

/-! ## Removals and updates -/

theorem Keyed.remove (h : maps.Keyed) (host : ServerId) (docId : DocId) :
    (maps.remove host docId).2.Keyed := by
  cases hget : maps.get host docId with
  | none =>
      simp only [RemoteDocs.remove, hget]
      exact h
  | some entry =>
      refine ⟨fun host' docId' entry' hget' => ?_, fun file docId' hfile => ?_⟩
      · rw [get_remove] at hget'
        split at hget'
        next => cases hget'
        next hne =>
            rw [editorMap_remove hget, if_neg, h.indexed host' docId' entry' hget']
            -- One descriptor would lead to two documents.
            intro heq
            have hhost : host' = host := by
              have hhosts := congrArg EditorFileDesc.hostId heq
              rwa [EditorFileDesc.new_hostId, EditorFileDesc.new_hostId] at hhosts
            have hdoc := h.indexed host' docId' entry' hget'
            rw [heq, h.indexed host docId entry hget] at hdoc
            cases hdoc
            exact hne (by rw [hhost])
      · rw [editorMap_remove hget] at hfile
        split at hfile
        next => cases hfile
        next hne =>
            obtain ⟨entry', hget', hrebuilt⟩ := h.rebuilt file docId' hfile
            refine ⟨entry', ?_, hrebuilt⟩
            rw [get_remove, if_neg, hget']
            intro heq
            cases heq
            exact hne (h.file_eq hget rfl hfile)

theorem Keyed.removeByEditorDesc (h : maps.Keyed) (file : EditorFileDesc) :
    (maps.removeByEditorDesc file).Keyed := by
  cases hmap : AssocMap.get maps.editorMap file with
  | none =>
      simp only [RemoteDocs.removeByEditorDesc, hmap]
      exact h
  | some docId =>
      -- In step, this is the other removal.
      obtain ⟨entry, hget, hrebuilt⟩ := h.rebuilt file docId hmap
      have hsame : maps.removeByEditorDesc file = (maps.remove file.hostId docId).2 := by
        simp only [RemoteDocs.removeByEditorDesc, RemoteDocs.remove, hmap, hget, ← hrebuilt]
      rw [hsame]
      exact h.remove file.hostId docId

/-- A copy that stays that of its file. -/
theorem Keyed.set (h : maps.Keyed) {host : ServerId} {docId : DocId} {old new : RemoteDocEntry}
    (hget : maps.get host docId = some old) (hfile : new.fileDesc = old.fileDesc) :
    (maps.set host docId new).Keyed := by
  refine ⟨fun host' docId' entry hentry => ?_, fun file docId' hmap => ?_⟩
  · rw [get_set] at hentry
    split at hentry
    next hk =>
        cases hk
        cases hentry
        rw [hfile]
        exact h.indexed host docId old hget
    next => exact h.indexed host' docId' entry hentry
  · obtain ⟨entry, hentry, hrebuilt⟩ := h.rebuilt file docId' hmap
    rw [get_set]
    split
    next hk =>
        cases hk
        rw [hget] at hentry
        cases hentry
        exact ⟨new, rfl, by rwa [hfile]⟩
    next => exact ⟨entry, hentry, hrebuilt⟩

/-! ## Insertions -/

theorem editorMap_insert (host : ServerId) (docId : DocId) (entry : RemoteDocEntry)
    (file file' : EditorFileDesc) :
    AssocMap.get (maps.insert host docId entry file).editorMap file' =
      if file' = file then some docId else AssocMap.get maps.editorMap file' :=
  AssocMap.get_insert ..

theorem Keyed.insert (h : maps.Keyed) {docId : DocId} {entry : RemoteDocEntry}
    {file : EditorFileDesc} (hfits : maps.Fits { docId, fileDesc := entry.fileDesc, file }) :
    (maps.insert file.hostId docId entry file).Keyed := by
  obtain ⟨hfile, hold⟩ := hfits
  dsimp only at hfile hold
  refine ⟨fun host docId' entry' hget => ?_, fun file' docId' hmap => ?_⟩
  · rw [get_insert] at hget
    rw [editorMap_insert]
    split at hget
    next hk =>
        cases hk
        cases hget
        rw [if_pos hfile.symm]
    next hne =>
        have hindexed := h.indexed host docId' entry' hget
        rw [if_neg, hindexed]
        -- The descriptor would have been there, for this document and for another.
        intro heq
        have hhost : host = file.hostId := by rw [← heq, EditorFileDesc.new_hostId]
        rw [heq] at hindexed
        split at hold
        next => rw [hold] at hindexed; cases hindexed
        next old hgetOld =>
            have hthis := h.indexed file.hostId docId old hgetOld
            rw [hold, hindexed] at hthis
            cases hthis
            exact hne (by rw [hhost])
  · rw [editorMap_insert] at hmap
    rw [get_insert]
    split at hmap
    next heq =>
        cases hmap
        exact ⟨entry, by rw [heq, if_pos rfl], by rw [heq]; exact hfile⟩
    next hne =>
        obtain ⟨entry', hget, hrebuilt⟩ := h.rebuilt file' docId' hmap
        refine ⟨entry', ?_, hrebuilt⟩
        rw [if_neg, hget]
        intro hk
        obtain ⟨hhost, rfl⟩ := Prod.mk.inj hk
        rw [← hhost, hget] at hold
        exact hne (hrebuilt.trans hold)

/-- An insertion that does not fit puts the maps out of step. -/
theorem Keyed.fits (h : maps.Keyed) {docId : DocId} {entry : RemoteDocEntry}
    {file : EditorFileDesc} (hafter : (maps.insert file.hostId docId entry file).Keyed) :
    maps.Fits { docId, fileDesc := entry.fileDesc, file } := by
  have hentry : (maps.insert file.hostId docId entry file).get file.hostId docId = some entry := by
    rw [get_insert, if_pos rfl]
  have hmap : AssocMap.get (maps.insert file.hostId docId entry file).editorMap file =
      some docId := by rw [editorMap_insert, if_pos rfl]
  have hfile := hafter.file_eq hentry rfl hmap
  refine ⟨hfile, ?_⟩
  dsimp only
  split
  next hnone =>
      rw [Option.eq_none_iff_forall_ne_some]
      intro other hother
      -- The copy that the descriptor led to would now have none.
      obtain ⟨kept, hkept, hrebuilt⟩ := h.rebuilt file other hother
      have hne : other ≠ docId := by
        rintro rfl
        rw [hnone] at hkept
        cases hkept
      have hgot : (maps.insert file.hostId docId entry file).get file.hostId other =
          some kept := by
        rw [get_insert, if_neg (by simpa using hne), hkept]
      have hindexed := hafter.indexed file.hostId other kept hgot
      rw [← hrebuilt, hmap] at hindexed
      exact hne (Option.some.inj hindexed).symm
  next old hold =>
      by_contra hne
      -- The old descriptor still leads to the document.
      have hstill : AssocMap.get (maps.insert file.hostId docId entry file).editorMap
          (EditorFileDesc.new old.fileDesc file.hostId) = some docId := by
        rw [editorMap_insert, if_neg hne, h.indexed file.hostId docId old hold]
      exact hne ((hafter.file_eq hentry (EditorFileDesc.new_hostId ..) hstill).trans hfile.symm)

/-- What an insertion, when there is one, makes of the maps. -/
inductive Inserted (maps : RemoteDocs) : Option Insertion → RemoteDocs → Prop where
  | none : Inserted maps none maps
  | some (entry : RemoteDocEntry) (docId : DocId) (file : EditorFileDesc) :
      Inserted maps (some { docId, fileDesc := entry.fileDesc, file })
        (maps.insert file.hostId docId entry file)

/-- A copy under the descriptor that its file gives. -/
theorem Inserted.of_new (host : ServerId) (docId : DocId) (entry : RemoteDocEntry) :
    maps.Inserted
      (.some { docId, fileDesc := entry.fileDesc, file := EditorFileDesc.new entry.fileDesc host })
      (maps.insert host docId entry (EditorFileDesc.new entry.fileDesc host)) := by
  have h := @Inserted.some maps entry docId (EditorFileDesc.new entry.fileDesc host)
  rwa [EditorFileDesc.new_hostId] at h

theorem Inserted.keyed_iff {new : Option Insertion} {maps' : RemoteDocs}
    (hinserted : Inserted maps new maps') (h : maps.Keyed) :
    maps'.Keyed ↔ ∀ insertion ∈ new, maps.Fits insertion := by
  cases hinserted with
  | none => simpa using h
  | some entry docId file =>
      constructor
      · rintro hafter _ ⟨⟩
        exact h.fits hafter
      · intro hfits
        exact h.insert (hfits _ rfl)

end

end RemoteDocs

namespace Server

/-! ## What the handlers insert -/

/-- The document that an own file is opened as. -/
def opensAs (os : Os) (self : Server) (file : EditorFileDesc) (mode : OpenMode) : Option DocId :=
  match self.pathIdFromFileDesc (FileDesc.from file) with
  | .error _ => none
  | .ok pathId =>
      match self.docs.reverse.find? fun entry => entry.2.matches pathId with
      | some (docId, _) => some docId
      | none =>
          match (self.openFileFromDisk os file.project file.file mode true).1 with
          | .error _ => none
          | .ok _ => some self.nextDocId

/-- The file that the editor shares a text as, when there is none yet. -/
def sharesAs (os : Os) (self : Server) (filename : Text) : Option FileDesc :=
  let expanded := (os.expanduser filename).getD filename
  let fileDesc : FileDesc :=
    if UnixPath.isAbsolute expanded then .projectFile reservedFilesProject expanded
    else .projectFile reservedBuffersProject filename
  match self.pathIdFromFileDesc fileDesc with
  | .error _ => none
  | .ok pathId => if (self.findDoc pathId).isSome then none else some fileDesc

/-- The copy that an event puts in. -/
def insertion? (os : Os) (self : Server) : Event → Option Insertion
  | .request _ (.openFile file mode) =>
      if self.hostId = file.hostId ∧ file.isProject = false ∧
          self.remoteDocs.getByEditorDesc file = none then
        (self.opensAs os file mode).map fun docId =>
          { docId, fileDesc := FileDesc.from file, file }
      else none
  | .request _ (.shareFile filename _) =>
      (self.sharesAs os filename).map fun fileDesc =>
        { docId := self.nextDocId, fileDesc, file := EditorFileDesc.new fileDesc self.hostId }
  | .message { host, body := .snapshot snapshot, reqId := some _ } =>
      if self.remoteDocs.docs.any fun entry =>
          entry.1.1 == host && entry.2.fileDesc == snapshot.fileDesc then none
      else
        some
          { docId := snapshot.docId, fileDesc := snapshot.fileDesc
            file := EditorFileDesc.new snapshot.fileDesc host }
  | _ => none

/-- The events that a copy may come with. -/
def bringsCopy : Event → Bool
  | .request _ (.openFile _ _) => true
  | .request _ (.shareFile _ _) => true
  | .message { body := .snapshot _, reqId := some _, .. } => true
  | _ => false

variable {os : Os} {before after : Server} {effects : List Effect}

theorem insertion?_of_bringsCopy {event : Event} (h : bringsCopy event = false) :
    before.insertion? os event = none := by
  unfold insertion?
  split
  next => cases h
  next => cases h
  next => cases h
  next => rfl

/-- A copy that is found is kept, and there is a new one otherwise. -/
theorem inserted_openOwnDoc (self : Server) (reqId : RequestId) (docId : DocId) (doc : DocEntry)
    (file : EditorFileDesc) (hhost : self.hostId = file.hostId) :
    self.remoteDocs.Inserted
      (if self.remoteDocs.getByEditorDesc file = none then
        some { docId, fileDesc := FileDesc.from file, file }
      else none)
      (self.openOwnDoc reqId docId doc file).1.remoteDocs := by
  rw [remoteDocs_openOwnDoc]
  cases self.remoteDocs.getByEditorDesc file with
  | some kept =>
      rw [if_neg (Option.some_ne_none kept)]
      exact .none
  | none =>
      rw [if_pos rfl, hhost]
      exact .some (ownRemoteDoc _ _ (FileDesc.from file)) docId file

theorem inserted_openFileFromEditor {reqId : RequestId} {file : EditorFileDesc}
    {mode : OpenMode} (hturn : before.openFileFromEditor os reqId file mode = (after, effects)) :
    before.remoteDocs.Inserted (before.insertion? os (.request reqId (.openFile file mode)))
      after.remoteDocs := by
  simp only [openFileFromEditor] at hturn
  simp only [insertion?]
  split at hturn
  next hown =>
      split at hturn
      next hproject =>
          cases hturn
          rw [if_neg (by simp [hproject])]
          exact .none
      next hproject =>
          rw [Bool.not_eq_true] at hproject
          simp only [hown, hproject, true_and]
          split at hturn
          next err hpath =>
              cases hturn
              simp only [opensAs, hpath, Option.map_none, ite_self]
              exact .none
          next pathId hpath =>
              split at hturn
              next docId doc hfind =>
                  have hinserted := inserted_openOwnDoc before reqId docId doc file hown
                  rw [hturn] at hinserted
                  simpa only [opensAs, hpath, hfind, Option.map_some] using hinserted
              next hfind =>
                  split at hturn
                  next err hdisk =>
                      cases hturn
                      simp only [opensAs, hpath, hfind, hdisk, Option.map_none, ite_self]
                      exact .none
                  next content fullPath hdisk =>
                      cases hturn
                      simp only [opensAs, hpath, hfind, hdisk]
                      exact inserted_openOwnDoc (before.addDoc _).2 reqId before.nextDocId _ file
                        hown
  next haway =>
      rw [if_neg (by simp [haway])]
      split at hturn <;> cases hturn <;> exact .none

theorem inserted_handleShareFileFromEditor {reqId : RequestId} {filename content : Text}
    (hturn : before.handleShareFileFromEditor os reqId filename content = (after, effects)) :
    before.remoteDocs.Inserted
      (before.insertion? os (.request reqId (.shareFile filename content))) after.remoteDocs := by
  simp only [handleShareFileFromEditor] at hturn
  simp only [insertion?]
  split at hturn
  next err hpath =>
      cases hturn
      simp only [sharesAs, hpath]
      exact .none
  next pathId hpath =>
      split at hturn
      next found hfound =>
          cases hturn
          simp only [sharesAs, hpath, hfound]
          exact .none
      next hfound =>
          cases hturn
          simp only [sharesAs, hpath, hfound]
          rw [if_neg (by simp), Option.map_some]
          exact .of_new before.hostId before.nextDocId
            { toRemoteDoc := RemoteDoc.new content
                (ClientEngine.new before.siteId 0 (InternalDoc.new content.length))
              name := filename, fileDesc := _ }

theorem inserted_handleSnapshot {reqId : RequestId} {snapshot : NewSnapshot} {host : ServerId}
    (hturn : before.handleSnapshot reqId snapshot host = (after, effects)) :
    before.remoteDocs.Inserted
      (before.insertion? os
        (.message { host, body := .snapshot snapshot, reqId := some reqId })) after.remoteDocs := by
  simp only [handleSnapshot] at hturn
  simp only [insertion?]
  split at hturn
  next found hfound =>
      cases hturn
      rw [if_pos (List.any_eq_true.mpr ⟨_, List.mem_of_find?_eq_some hfound,
        @List.find?_some _ _ _ _ hfound⟩)]
      exact .none
  next hnone =>
      cases hturn
      rw [if_neg]
      · exact .of_new host snapshot.docId
          { toRemoteDoc := RemoteDoc.new snapshot.content
              (ClientEngine.new snapshot.siteId snapshot.seq snapshot.internalDoc)
            name := snapshot.name, fileDesc := snapshot.fileDesc }
      · rw [List.any_eq_true]
        rintro ⟨entry, hmem, hopen⟩
        exact List.find?_eq_none.mp hnone entry hmem hopen

/-! ## The other turns -/

theorem keyed_handleOpFromServer {reqId : Option RequestId} {docId : DocId}
    {ops : List (FatOp Op)} {host : ServerId} (hkeyed : before.remoteDocs.Keyed)
    (hturn : before.handleOpFromServer reqId docId ops host = (after, effects)) :
    after.remoteDocs.Keyed := by
  simp only [handleOpFromServer] at hturn
  split at hturn
  next => cases hturn; exact hkeyed
  next op ops =>
      split at hturn
      next => cases hturn; exact hkeyed
      next entry hget =>
          split at hturn
          next => cases hturn; exact hkeyed.remove host docId
          next => cases hturn; exact hkeyed.set hget rfl

theorem keyed_handleSendOpsFromEditor {reqId : RequestId} {ops : List EditorFatOp}
    {file : EditorFileDesc} (hkeyed : before.remoteDocs.Keyed)
    (hturn : before.handleSendOpsFromEditor reqId ops file = some (after, effects)) :
    after.remoteDocs.Keyed := by
  simp only [handleSendOpsFromEditor] at hturn
  split at hturn
  next => cases hturn; exact hkeyed
  next docId entry hdesc =>
      simp only [Option.bind_eq_bind, Option.bind_eq_some_iff, Prod.exists] at hturn
      obtain ⟨res, doc, _, hturn⟩ := hturn
      split at hturn
      next => cases hturn; exact hkeyed.remove file.hostId docId
      next => cases hturn; exact hkeyed.set (RemoteDocs.getByEditorDesc_some.mp hdesc).2 rfl

theorem keyed_removeDocs (os : Os) {self : Server} (hkeyed : self.remoteDocs.Keyed)
    (docIds : List DocId) : (self.removeDocs os docIds).1.remoteDocs.Keyed := by
  induction docIds generalizing self with
  | nil => exact hkeyed
  | cons docId docIds ih => exact ih (hkeyed.remove self.hostId docId)

theorem keyed_handleCloseFileLocally (os : Os) {self : Server} (hkeyed : self.remoteDocs.Keyed)
    (file : FileDesc) (delete : Bool) :
    (self.handleCloseFileLocally os file delete).2.1.remoteDocs.Keyed := by
  unfold handleCloseFileLocally
  split
  next => exact hkeyed
  next docIds pathToDelete subscribers _ =>
      dsimp only
      split <;> exact keyed_removeDocs os hkeyed docIds

theorem keyed_handleCloseFileFromRemote {reqId : Option RequestId} {file : FileDesc}
    {requester : ServerId} {delete : Bool} (hkeyed : before.remoteDocs.Keyed)
    (hturn : before.handleCloseFileFromRemote os reqId file requester delete = (after, effects)) :
    after.remoteDocs.Keyed := by
  simp only [handleCloseFileFromRemote] at hturn
  split at hturn
  next => cases hturn; exact hkeyed
  next => split at hturn <;> cases hturn <;> exact keyed_handleCloseFileLocally os hkeyed ..

theorem keyed_handleCloseFileFromEditor {reqId : RequestId} {file : EditorFileDesc}
    {delete : Bool} (hkeyed : before.remoteDocs.Keyed)
    (hturn : before.handleCloseFileFromEditor os reqId file delete = (after, effects)) :
    after.remoteDocs.Keyed := by
  simp only [handleCloseFileFromEditor] at hturn
  split at hturn
  next => cases hturn; exact hkeyed
  next => split at hturn <;> cases hturn <;> exact keyed_handleCloseFileLocally os hkeyed ..

/-- A turn that brings no copy keeps the maps in step. -/
theorem Handled.keyed {event : Event} (hturn : Handled os before event after effects)
    (hkeyed : before.remoteDocs.Keyed) (hbrings : bringsCopy event = false) :
    after.remoteDocs.Keyed := by
  have hsame (h : after.remoteDocs = before.remoteDocs) : after.remoteDocs.Keyed := by rwa [h]
  cases hturn with
  | idle away tables quiet => exact hsame (remoteDocs_of_tables tables)
  | noted tables quiet still plain => exact hsame (remoteDocs_of_tables tables)
  | strayInfo => exact hkeyed
  | hey hturn => cases hturn; exact hkeyed
  | listFiles reply snap => exact hkeyed
  | makeDirectory allowed hturn =>
      unfold handleMakeDirectory at hturn
      split at hturn <;> cases hturn <;> exact hkeyed
  | requestFile hturn => exact hsame (remoteDocs_handleRequestFile hturn).1
  | snapshot => cases hbrings
  | opFromClient hturn => exact hsame (remoteDocs_handleOpFromClient hturn).1
  | opFromServer hturn => exact keyed_handleOpFromServer hkeyed hturn
  | requestOps hturn => exact hsame (remoteDocs_handleRequestOps hturn).1
  | moveFile allowed hturn =>
      simp only [handleMoveFile] at hturn
      split at hturn <;> cases hturn <;> exact hsame (remoteDocs_moveFileOnDisk ..)
  | saveFile allowed hturn => cases hturn; exact hsame (remoteDocs_saveFileToDisk ..)
  | resetFromDisk allowed hturn =>
      simp only [handleResetFromDisk] at hturn
      split at hturn
      next => cases hturn; exact hkeyed
      next =>
          simp only [Option.bind_eq_bind, Option.bind_eq_some_iff, Prod.exists] at hturn
          obtain ⟨res, reset, effects', hreset, hturn⟩ := hturn
          have hcopies := (remoteDocs_resetDocFromDisk hreset).1
          split at hturn <;> cases hturn <;> exact hsame hcopies
  | stopSendingOps hturn =>
      unfold handleStopSendingOps at hturn
      split at hturn <;> cases hturn <;> exact hkeyed
  | closeFile hturn => exact keyed_handleCloseFileFromRemote hkeyed hturn
  | docFatal hturn => cases hturn; exact hkeyed.remove _ _
  | openFile => cases hbrings
  | sendOps hturn => exact keyed_handleSendOpsFromEditor hkeyed hturn
  | shareFile => cases hbrings
  | moveFileFromEditor hturn =>
      simp only [handleMoveFileFromEditor] at hturn
      split at hturn
      next => cases hturn; exact hkeyed
      next => split at hturn <;> cases hturn <;> exact hsame (remoteDocs_moveFileOnDisk ..)
  | saveFileFromEditor hturn =>
      simp only [handleSaveFileFromEditor] at hturn
      split at hturn
      next => split at hturn <;> cases hturn <;> exact hkeyed
      next =>
          split at hturn
          next => cases hturn; exact hkeyed
          next => cases hturn; exact hsame (remoteDocs_saveFileToDisk ..)
  | resetFromDiskFromEditor hturn =>
      simp only [handleResetFromDiskFromEditor] at hturn
      split at hturn
      next => split at hturn <;> cases hturn <;> exact hkeyed
      next =>
          split at hturn
          next => cases hturn; exact hkeyed
          next =>
              split at hturn
              next => cases hturn; exact hkeyed
              next =>
                  simp only [Option.bind_eq_bind, Option.bind_eq_some_iff, Prod.exists] at hturn
                  obtain ⟨res, reset, effects', hreset, hturn⟩ := hturn
                  have hcopies := (remoteDocs_resetDocFromDisk hreset).1
                  cases hturn
                  exact hsame hcopies
  | disconnectFromFile hturn =>
      unfold handleDisconnectFromFile at hturn
      split at hturn
      next => cases hturn; exact hkeyed.removeByEditorDesc _
      next => cases hturn; exact hkeyed
  | closeFileFromEditor hturn => exact keyed_handleCloseFileFromEditor hkeyed hturn
  | deleteFileFromEditor hturn => exact keyed_handleCloseFileFromEditor hkeyed hturn
  | declareProjects hturn =>
      obtain ⟨projects, rfl⟩ := after_handleDeclareProjects hturn
      exact hkeyed
  | fileChanged hturn => exact hsame (remoteDocs_resetDocFromDisk hturn).1

/-! ## Runs -/

/-- A turn that brings a copy. -/
theorem inserted_of_bringsCopy {event : Event} (hbrings : bringsCopy event = true)
    (hhandle : before.handle os event = some (after, effects)) :
    before.remoteDocs.Inserted (before.insertion? os event) after.remoteDocs := by
  unfold bringsCopy at hbrings
  split at hbrings
  next reqId file mode =>
      have hopen : before.ifConnected reqId file.hostId
          (some (before.openFileFromEditor os reqId file mode)) = some (after, effects) := hhandle
      unfold ifConnected at hopen
      split at hopen
      next => exact inserted_openFileFromEditor (turn_of_some hopen)
      next haway =>
          cases hopen
          have hne : before.hostId ≠ file.hostId := by
            rintro heq
            simp [heq] at haway
          simp only [insertion?, hne, false_and, if_false]
          exact .none
  next => exact inserted_handleShareFileFromEditor (turn_of_some hhandle)
  next => exact inserted_handleSnapshot (turn_of_some hhandle)
  next => cases hbrings

/-- Every copy that the event brings fits. -/
def InsertsInStep (self : Server) (turn : Os × Event) : Prop :=
  ∀ new ∈ self.insertion? turn.1 turn.2, self.remoteDocs.Fits new

/-- The maps are in step after the turn. -/
def LeavesInStep (self : Server) (turn : Os × Event) : Prop :=
  ∀ after, step self turn = some after → after.remoteDocs.InStep

instance (self : Server) (turn : Os × Event) : Decidable (self.InsertsInStep turn) :=
  match h : self.insertion? turn.1 turn.2 with
  | none => isTrue (by rintro new hnew; rw [h] at hnew; cases hnew)
  | some new =>
      decidable_of_iff (self.remoteDocs.Fits new) (by simp [InsertsInStep, h])

/-- An event that brings a copy is handled. -/
theorem step_of_insertion {turn : Os × Event} {new : Insertion}
    (h : new ∈ before.insertion? turn.1 turn.2) : ∃ after, step before turn = some after := by
  obtain ⟨os, event⟩ := turn
  simp only [insertion?] at h
  split at h
  next reqId file mode =>
      refine ⟨(before.openFileFromEditor os reqId file mode).1, ?_⟩
      have hown : before.hostId = file.hostId := by
        split at h
        next hown => exact hown.1
        next => cases h
      have hconnected : before.ifConnected reqId file.hostId
          (some (before.openFileFromEditor os reqId file mode)) =
            some (before.openFileFromEditor os reqId file mode) := by
        rw [ifConnected, if_pos (by simp [hown])]
      exact congrArg (Option.map Prod.fst) hconnected
  next => exact ⟨_, rfl⟩
  next => exact ⟨_, rfl⟩
  next => cases h

theorem keyed_iff_insertsInStep (hkeyed : before.remoteDocs.Keyed) {turn : Os × Event}
    (hstep : step before turn = some after) :
    after.remoteDocs.Keyed ↔ before.InsertsInStep turn := by
  obtain ⟨⟨after, effects⟩, hhandle, rfl⟩ := Option.map_eq_some_iff.mp hstep
  cases hbrings : bringsCopy turn.2 with
  | true => exact (inserted_of_bringsCopy hbrings hhandle).keyed_iff hkeyed
  | false =>
      have hnone : before.insertion? turn.1 turn.2 = none := insertion?_of_bringsCopy hbrings
      simp only [InsertsInStep, hnone]
      exact iff_of_true ((handled hhandle).keyed hkeyed hbrings) nofun

theorem leavesInStep_iff_insertsInStep (hkeyed : before.remoteDocs.Keyed) (turn : Os × Event) :
    before.LeavesInStep turn ↔ before.InsertsInStep turn := by
  constructor
  · intro hleaves new hnew
    obtain ⟨after, hstep⟩ := step_of_insertion hnew
    have hkept := RemoteDocs.inStep_iff_keyed.mp (hleaves after hstep)
    exact (keyed_iff_insertsInStep hkeyed hstep).mp hkept new hnew
  · intro hinserts after hstep
    exact RemoteDocs.inStep_iff_keyed.mpr ((keyed_iff_insertsInStep hkeyed hstep).mpr hinserts)

/-- In a run of a server the maps stay in step, as long as every copy that is put in fits. -/
theorem leavesInStep_iff (hostId : ServerId) (config : Config) (idealWorld : WorldState)
    (turns : List (Os × Event)) :
    Run.Meets step LeavesInStep (Server.new hostId config idealWorld) turns ↔
      Run.Meets step InsertsInStep (Server.new hostId config idealWorld) turns := by
  have hstep : ∀ before turn after, before.remoteDocs.Keyed → InsertsInStep before turn →
      step before turn = some after → after.remoteDocs.Keyed :=
    fun _ _ _ hkeyed hinserts hstep => (keyed_iff_insertsInStep hkeyed hstep).mpr hinserts
  have hiff : ∀ before turn, before.remoteDocs.Keyed →
      (InsertsInStep before turn ↔ LeavesInStep before turn) :=
    fun _ turn hkeyed => (leavesInStep_iff_insertsInStep hkeyed turn).symm
  exact (Run.Meets.congr hstep hiff RemoteDocs.keyed_new).symm

/-- The descriptor that a close leaves behind. -/
def leftBehind : EditorFileDesc :=
  { hostId := 0, project := reservedBuffersProject, file := ['/', 'a'] }

/-- The editor shares a text, opens it under a name with a slash in front, and closes it. -/
def openedTwice : List (Os × Event) :=
  [(Os.bare, .request 1 (.shareFile ['a'] ['b'])),
    (Os.bare, .request 2 (.openFile leftBehind .open)),
    (Os.bare, .request 3 (.closeFile { leftBehind with file := ['a'] }))]

theorem run_openedTwice : ∃ last after, Run.run step fresh (openedTwice.take 2) = some last ∧
    step last openedTwice[2] = some after ∧
      AssocMap.get after.remoteDocs.editorMap leftBehind = some 1 ∧
      after.remoteDocs.get leftBehind.hostId 1 = none :=
  ⟨_, _, rfl, rfl, by decide, by decide⟩

theorem not_leavesInStep_openedTwice : ¬Run.Meets step LeavesInStep fresh openedTwice := by
  intro h
  obtain ⟨last, after, hlast, hstep, hmap, hget⟩ := run_openedTwice
  have hrun : Run.Meets step LeavesInStep fresh (openedTwice.take 2 ++ openedTwice[2] :: []) := h
  obtain ⟨entry, hentry⟩ := (hrun.of_run hlast after hstep).target leftBehind 1 hmap
  rw [hget] at hentry
  cases hentry

end Server

end CollabMode
