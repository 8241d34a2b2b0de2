import CollabMode.Turns
import CollabMode.DocsSpec

/-!
# How documents come about

A host comes to serve a document when its editor opens a file, when a peer requests
one, and when its editor shares a text.  In all three the engine starts with the
length of the text in bytes, while the text is counted in characters later on.

`LengthsAgree` is what a new document is to satisfy, now and after any valid ops.
It does when, and only when, all characters take one byte.
-/

namespace CollabMode

open Tombstone

/-! ## Bytes and characters -/

/-- Every character takes one byte. -/
def IsAscii (content : Text) : Prop := ∀ c ∈ content, c.utf8Size = 1

instance (content : Text) : Decidable (IsAscii content) :=
  List.decidableBAll (fun c : Char => c.utf8Size = 1) content

theorem length_le_utf8Len (content : Text) : content.length ≤ utf8Len content := by
  induction content with
  | nil => exact Nat.le_refl _
  | cons c content ih =>
      have hpos := Char.utf8Size_pos c
      simp only [utf8Len, List.map_cons, List.sum_cons, List.length_cons] at ih ⊢
      omega

theorem utf8Len_eq_length (content : Text) :
    utf8Len content = content.length ↔ IsAscii content := by
  induction content with
  | nil => simp [utf8Len, IsAscii]
  | cons c content ih =>
      have hpos := Char.utf8Size_pos c
      have hle := length_le_utf8Len content
      have hcons : utf8Len (c :: content) = c.utf8Size + utf8Len content := rfl
      have hascii : IsAscii (c :: content) ↔ c.utf8Size = 1 ∧ IsAscii content := by
        simp [IsAscii]
      rw [hascii, ← ih, hcons, List.length_cons]
      omega

theorem InternalDoc.new_editorLen (n : Nat) : (InternalDoc.new n).editorLen = n := by
  have h := (Shows.new (List.replicate n ' ')).editorLen_eq
  rwa [List.length_replicate] at h

theorem InternalDoc.new_internalLen (n : Nat) : (InternalDoc.new n).internalLen = n := by
  have h := (Shows.new (List.replicate n ' ')).internalLen_eq
  rwa [List.length_replicate, Seq.allLive_items, List.length_replicate] at h

/-! ## What happens to a document -/

/-- The calls that handlers make on a document and its engine. -/
inductive DocCall where
  | processOps (ops : List (FatOp Op)) (context : GlobalSeq)
  | applyOp (op : FatOp Op)
deriving DecidableEq, Repr

namespace Doc

/-- The calls, up to the first that fails. -/
def run : List DocCall → Doc → Option (Except CollabError Unit × Doc)
  | [], self => some (.ok (), self)
  | .processOps ops context :: calls, self =>
      run calls { self with engine := (self.engine.processOps ops context).2 }
  | .applyOp op :: calls, self => do
      let (res, self) ← self.applyOp op
      match res with
      | .error err => some (.error err, self)
      | .ok () => run calls self

/-- The ops that are applied. -/
def applied (calls : List DocCall) : List Op :=
  calls.filterMap fun
    | .applyOp op => some op.op
    | .processOps _ _ => none

theorem run_shows {calls : List DocCall} {self : Doc} {d : Seq Char} (h : self.Shows d)
    (hvalid : AllValid d.items (applied calls)) :
    ∃ self', run calls self = some (.ok (), self') ∧ self'.Shows (replay d (applied calls)) := by
  induction calls generalizing self d with
  | nil => exact ⟨self, rfl, h⟩
  | cons call calls ih =>
      cases call with
      | processOps ops context =>
          have h' : Doc.Shows { self with engine := (self.engine.processOps ops context).2 } d := h
          exact ih h' hvalid
      | applyOp op =>
          obtain ⟨hop, hrest⟩ := hvalid
          obtain ⟨internalDoc, hrun, hshows⟩ := applyOp_shows h hop
          obtain ⟨self', hruns, hshows'⟩ := ih hshows (by rw [Op.apply_items]; exact hrest)
          refine ⟨self', ?_, hshows'⟩
          simp only [run, hrun, Option.bind_eq_bind, Option.bind_some]
          exact hruns

end Doc

/-! ## Creation -/

inductive Creation where
  | openFile (reqId : RequestId) (file : EditorFileDesc) (mode : OpenMode)
  | requestFile (host : ServerId) (reqId : Option RequestId) (file : FileDesc) (mode : OpenMode)
  | shareFile (reqId : RequestId) (filename content : Text)
deriving DecidableEq, Repr

def Creation.event : Creation → Event
  | .openFile reqId file mode => .request reqId (.openFile file mode)
  | .requestFile host reqId file mode =>
      .message { host, body := .requestFile file mode, reqId }
  | .shareFile reqId filename content => .request reqId (.shareFile filename content)

namespace Server

/-- The text that a document starts with. -/
def contentOf (os : Os) (self : Server) : Creation → Option Text
  | .openFile _ file mode =>
      ((self.openFileFromDisk os file.project file.file mode true).1.toOption).map Prod.fst
  | .requestFile host _ (.projectFile project file) mode =>
      ((self.openFileFromDisk os project file mode
        (self.config.createAllowed host)).1.toOption).map Prod.fst
  | .requestFile _ _ (.project _) _ => none
  | .shareFile _ _ content => some content

/-- A client is given the internal document, in a snapshot or in the document that
the host keeps for its own editor. -/
def Gives (before after : Server) (effects : List Effect) (docId : DocId)
    (internalDoc : InternalDoc) : Prop :=
  (∃ snapshot ∈ snapshots effects,
    snapshot.docId = docId ∧ snapshot.internalDoc = internalDoc) ∨
  (∃ remoteDoc, before.remoteDocs.get before.hostId docId = none ∧
    after.remoteDocs.get before.hostId docId = some remoteDoc ∧
    remoteDoc.engine.internalDoc = internalDoc)

/-- Engine, text and what clients are given count the same characters, and engine and
text go on doing so whatever valid ops follow. -/
structure LengthsAgree (before after : Server) (effects : List Effect) (docId : DocId)
    (doc : DocEntry) : Prop where
  engine : doc.engine.editorLen = doc.buffer.length
  given : ∀ internalDoc, Gives before after effects docId internalDoc →
    internalDoc.internalLen = doc.buffer.length
  later : ∀ calls, AllValid doc.buffer (Doc.applied calls) →
    ∃ doc', Doc.run calls doc.toDoc = some (.ok (), doc') ∧
      doc'.engine.editorLen = doc'.buffer.length

/-- A document that has just been made, with what clients are given of it. -/
structure Made (before after : Server) (effects : List Effect) (docId : DocId) (content : Text)
    (doc : DocEntry) : Prop where
  buffer : doc.buffer = content
  engine : doc.engine = ServerEngine.new (utf8Len content)
  given : ∀ internalDoc, Gives before after effects docId internalDoc →
    internalDoc = InternalDoc.new content.length ∨ internalDoc = InternalDoc.new (utf8Len content)

theorem Made.lengths_iff {before after : Server} {effects : List Effect} {docId : DocId}
    {content : Text} {doc : DocEntry} (h : Made before after effects docId content doc) :
    LengthsAgree before after effects docId doc ↔ IsAscii content := by
  obtain ⟨rfl, hengine, hgiven⟩ := h
  have hlen : doc.engine.editorLen = utf8Len doc.buffer := by
    rw [hengine]
    exact InternalDoc.new_editorLen _
  constructor
  · intro hagree
    rw [← utf8Len_eq_length, ← hlen]
    exact hagree.engine
  · intro hascii
    have hbytes := (utf8Len_eq_length _).mpr hascii
    have hshows : doc.toDoc.Shows (Seq.allLive doc.buffer) := by
      show Shows doc.engine.internalDoc _ _
      rw [hengine, hbytes]
      exact Shows.new doc.buffer
    refine ⟨hlen.trans hbytes, fun internalDoc hgives => ?_, fun calls hvalid => ?_⟩
    · rcases hgiven internalDoc hgives with rfl | rfl
      · exact InternalDoc.new_internalLen _
      · rw [InternalDoc.new_internalLen, hbytes]
    · rw [← Seq.allLive_items doc.buffer] at hvalid
      obtain ⟨doc', hrun, hshows'⟩ := Doc.run_shows hshows hvalid
      exact ⟨doc', hrun, hshows'.editorLen_eq⟩

/-! ## The three handlers -/

theorem doc?_setDoc_self (self : Server) (docId : DocId) (doc : DocEntry) :
    (self.setDoc docId doc).doc? docId = some doc := AssocMap.get_insert_self _ _ _

theorem doc?_addDoc (self : Server) (doc : DocEntry) :
    (self.addDoc doc).2.doc? self.nextDocId = some doc := AssocMap.get_insert_self _ _ _

theorem RemoteDocs.get_insert_self (docs : RemoteDocs) (hostId : ServerId) (docId : DocId)
    (remoteDoc : RemoteDocEntry) (editorFileDesc : EditorFileDesc) :
    (docs.insert hostId docId remoteDoc editorFileDesc).get hostId docId = some remoteDoc :=
  AssocMap.get_insert_self _ _ _

/-- What a creation leaves behind. -/
def CreatedIn (os : Os) (before : Server) (c : Creation) (after : Server)
    (effects : List Effect) : Prop :=
  after.nextDocId ≠ before.nextDocId →
    ∃ content doc, before.contentOf os c = some content ∧
      after.doc? before.nextDocId = some doc ∧
      Made before after effects before.nextDocId content doc

theorem createdIn_requestFile (os : Os) (self : Server) (host : ServerId)
    (reqId : Option RequestId) (file : FileDesc) (mode : OpenMode) :
    CreatedIn os self (.requestFile host reqId file mode)
      (self.handleRequestFile os reqId file host mode).1
      (self.handleRequestFile os reqId file host mode).2 := by
  have hid := nextDocId_siteIdOf self host
  have hremote := siteIdOf_remoteDocs self host
  simp only [handleRequestFile]
  split
  next => exact fun h => absurd rfl h
  next pathId _ =>
      split
      next => exact fun h => absurd hid h
      next project path =>
          split
          next => exact fun h => absurd hid h
          next =>
              split
              next => exact fun h => absurd hid h
              next content fullPath hread =>
                  intro _
                  rw [openFileFromDisk_siteIdOf, config_siteIdOf] at hread
                  refine ⟨content, _, ?_, hid ▸ doc?_addDoc _ _, rfl, rfl, fun internalDoc => ?_⟩
                  · simp [contentOf, hread, Except.toOption]
                  · rintro (⟨snapshot, hmem, _, rfl⟩ | ⟨remoteDoc, hnone, hsome, _⟩)
                    · rw [snapshots_append, snapshots_fs] at hmem
                      cases List.mem_singleton.mp hmem
                      exact .inl rfl
                    · have hget : (self.siteIdOf host).2.remoteDocs.get self.hostId self.nextDocId =
                          some remoteDoc := hsome
                      rw [hremote, hnone] at hget
                      cases hget

theorem createdIn_shareFile (os : Os) (self : Server) (reqId : RequestId)
    (filename content : Text) :
    CreatedIn os self (.shareFile reqId filename content)
      (self.handleShareFileFromEditor os reqId filename content).1
      (self.handleShareFileFromEditor os reqId filename content).2 := by
  simp only [handleShareFileFromEditor]
  split
  next => exact fun h => absurd rfl h
  next =>
      split
      next => exact fun h => absurd rfl h
      next =>
          intro _
          refine ⟨content, _, rfl, doc?_setDoc_self _ _ _, rfl, rfl, fun internalDoc => ?_⟩
          rintro (⟨snapshot, hmem, _⟩ | ⟨remoteDoc, _, hget, rfl⟩)
          · rw [snapshots_append, snapshots_fs] at hmem
            cases hmem
          · cases (RemoteDocs.get_insert_self _ _ _ _ _).symm.trans hget
            exact .inl rfl

theorem nextDocId_openOwnDoc (self : Server) (reqId : RequestId) (docId : DocId) (doc : DocEntry)
    (fileDesc : EditorFileDesc) :
    (self.openOwnDoc reqId docId doc fileDesc).1.nextDocId = self.nextDocId := by
  simp only [openOwnDoc]
  split <;> rfl

theorem doc?_openOwnDoc (self : Server) (reqId : RequestId) (docId : DocId) (doc : DocEntry)
    (fileDesc : EditorFileDesc) :
    (self.openOwnDoc reqId docId doc fileDesc).1.doc? docId =
      some { doc with subscribers := AssocMap.insert doc.subscribers self.hostId 0 } := by
  simp only [openOwnDoc]
  split <;> exact AssocMap.get_insert_self _ _ _

/-- The document that the host makes for its own editor has a copy of the internal
document. -/
theorem internalDoc_of_openOwnDoc {self : Server} (reqId : RequestId) {docId : DocId}
    {doc : DocEntry} {fileDesc : EditorFileDesc} {remoteDoc : RemoteDocEntry}
    (hsome : (self.openOwnDoc reqId docId doc fileDesc).1.remoteDocs.get self.hostId docId =
      some remoteDoc)
    (hnone : self.remoteDocs.get self.hostId docId = none) :
    remoteDoc.engine.internalDoc = doc.engine.internalDoc := by
  simp only [openOwnDoc] at hsome
  split at hsome
  next => cases hnone.symm.trans hsome
  next =>
      cases (RemoteDocs.get_insert_self _ _ _ _ _).symm.trans hsome
      rfl

theorem createdIn_openFile (os : Os) (self : Server) (reqId : RequestId) (file : EditorFileDesc)
    (mode : OpenMode) :
    CreatedIn os self (.openFile reqId file mode)
      (self.openFileFromEditor os reqId file mode).1
      (self.openFileFromEditor os reqId file mode).2 := by
  simp only [openFileFromEditor]
  split
  next =>
      split
      next => exact fun h => absurd rfl h
      next =>
          split
          next => exact fun h => absurd rfl h
          next =>
              split
              next => exact fun h => absurd (nextDocId_openOwnDoc _ _ _ _ _) h
              next =>
                  split
                  next => exact fun h => absurd rfl h
                  next content fullPath hread =>
                      intro _
                      refine ⟨content, _, ?_, doc?_openOwnDoc _ reqId _ _ file, rfl, rfl,
                        fun internalDoc => ?_⟩
                      · simp [contentOf, hread, Except.toOption]
                      · rintro (⟨snapshot, hmem, _⟩ | ⟨remoteDoc, hnone, hsome, rfl⟩)
                        · rw [snapshots_append, snapshots_fs] at hmem
                          cases hmem
                        · exact .inr (internalDoc_of_openOwnDoc reqId hsome hnone)
  next =>
      split
      next => exact fun h => absurd rfl h
      next => exact fun h => absurd rfl h

/-! ## Every new document -/

theorem createdIn_handle {os : Os} {before after : Server} {c : Creation}
    {effects : List Effect} (h : before.handle os c.event = some (after, effects)) :
    CreatedIn os before c after effects := by
  cases c with
  | openFile reqId file mode =>
      cases handled h with
      | idle away tables quiet => exact fun hnew => absurd (nextDocId_of_tables tables) hnew
      | openFile h =>
          have hcreated := createdIn_openFile os before reqId file mode
          rwa [h] at hcreated
  | requestFile host reqId file mode =>
      cases handled h with
      | idle away tables quiet => cases away
      | noted tables quiet still => exact fun hnew => absurd (nextDocId_of_tables tables) hnew
      | @requestFile _ reqId _ _ _ _ h =>
          have hcreated := createdIn_requestFile os before host (some reqId) file mode
          rwa [h] at hcreated
  | shareFile reqId filename content =>
      cases handled h with
      | idle away tables quiet => exact fun hnew => absurd (nextDocId_of_tables tables) hnew
      | shareFile h =>
          have hcreated := createdIn_shareFile os before reqId filename content
          rwa [h] at hcreated

/-- The lengths of a new document agree, and go on agreeing, when and only when its
text takes one byte for each character. -/
theorem lengthsAgree_iff {os : Os} {before after : Server} {c : Creation}
    {effects : List Effect} (h : before.handle os c.event = some (after, effects))
    (hnew : after.nextDocId ≠ before.nextDocId) :
    ∃ content doc, before.contentOf os c = some content ∧
      after.doc? before.nextDocId = some doc ∧ doc.buffer = content ∧
      (LengthsAgree before after effects before.nextDocId doc ↔ IsAscii content) := by
  obtain ⟨content, doc, hcontent, hdoc, hmade⟩ := createdIn_handle h hnew
  exact ⟨content, doc, hcontent, hdoc, hmade.buffer, hmade.lengths_iff⟩

/-- A host that has just started. -/
def fresh : Server := new 0 ⟨none, [], []⟩ WorldState.new

/-- The host after its editor has shared the text. -/
def sharing (content : Text) : Turn := fresh.handleShareFileFromEditor Os.bare 1 ['a'] content

/-- The document that `sharing` makes, as an editor names it. -/
def sharedFile : EditorFileDesc := { hostId := 0, project := reservedBuffersProject, file := ['a'] }

theorem lengthsAgree_iff_sample :
    ∃ content doc, fresh.contentOf Os.bare (.shareFile 1 ['a'] ['b']) = some content ∧
      (sharing ['b']).1.doc? 1 = some doc ∧ doc.buffer = content ∧
      (LengthsAgree fresh (sharing ['b']).1 (sharing ['b']).2 1 doc ↔ IsAscii content) :=
  lengthsAgree_iff (c := .shareFile 1 ['a'] ['b']) rfl (by decide)

/-- One character that takes two bytes. -/
theorem not_lengthsAgree :
    ∃ doc, fresh.handle Os.bare (Creation.event (.shareFile 1 ['a'] ['é'])) =
        some (sharing ['é']) ∧
      (sharing ['é']).1.doc? 1 = some doc ∧ doc.buffer = ['é'] ∧
      ¬LengthsAgree fresh (sharing ['é']).1 (sharing ['é']).2 1 doc ∧
      AllValid doc.buffer [.ins (0, ['b']) 0] ∧
      (doc.toDoc.applyOp { seq := none, op := .ins (0, ['b']) 0, siteSeq := 1, kind := .original
                           groupSeq := 0 }).map Prod.fst =
        some (.error (.docFatal "Engine editor_len 3 doesn't match buffer len 2")) := by
  refine ⟨_, rfl, rfl, rfl, fun h => ?_, ?_, by decide⟩
  · exact absurd h.engine (by decide)
  · exact ⟨(Op.ok_ins (Nat.zero_le _) (by decide)).valid, trivial⟩

end Server

end CollabMode
