import CollabMode.Hosting
import CollabMode.Delivery

/-!
# A document at its client

`ClientStep` lists what a turn of a client can do to the copy it keeps of a document,
with what it asks the host for.  A copy is made from a snapshot, or, when the host's own
editor opens the document, from the document itself.
-/

namespace CollabMode

/-- What a client asks a host about a document. -/
def asked (h : ServerId) (d : DocId) (effects : List Effect) : List Msg :=
  ((docMsgs effects).filter fun sent => sent.1 = h ∧ sent.2.asked? = some d).map Prod.snd

@[simp] theorem asked_nil (h : ServerId) (d : DocId) : asked h d [] = [] := rfl

@[simp] theorem asked_append (h : ServerId) (d : DocId) (effects effects' : List Effect) :
    asked h d (effects ++ effects') = asked h d effects ++ asked h d effects' := by
  rw [asked, docMsgs_append, List.filter_append, List.map_append]
  rfl

theorem asked_of_quiet {effects : List Effect} (hquiet : docMsgs effects = []) (h : ServerId)
    (d : DocId) : asked h d effects = [] := by
  rw [asked, hquiet]
  rfl

@[simp] theorem asked_fs (h : ServerId) (d : DocId) (calls : List FsCall) :
    asked h d (calls.map Effect.fs) = [] := asked_of_quiet (docMsgs_fs calls) h d

theorem asked_eq_nil {h : ServerId} {d : DocId} {effects : List Effect}
    (hplain : ∀ host reqId msg, .send host reqId msg ∈ effects → msg.asked? = none) :
    asked h d effects = [] := by
  refine List.map_eq_nil_iff.mpr (List.filter_eq_nil_iff.mpr fun sent hsent => ?_)
  obtain ⟨e, he, hsome⟩ := List.mem_filterMap.mp hsent
  cases e with
  | send host reqId msg =>
      obtain ⟨_, _, rfl⟩ := Option.map_eq_some_iff.mp hsome
      simp [hplain host reqId msg he]
  | _ => cases hsome

/-- The document that a message to a host is about. -/
def Effect.asked? : Effect → Option DocId
  | .send _ _ msg => msg.asked?
  | _ => none

theorem asked_of_plain {effects : List Effect} (hplain : ∀ e ∈ effects, e.asked? = none)
    (h : ServerId) (d : DocId) : asked h d effects = [] :=
  asked_eq_nil fun _ _ _ hmem => hplain _ hmem

theorem asked_send (h : ServerId) (d : DocId) (host : ServerId) (reqId : Option RequestId)
    (msg : Msg) (effects : List Effect) : asked h d (.send host reqId msg :: effects) =
      (if host = h ∧ msg.asked? = some d then [msg] else []) ++ asked h d effects := by
  rw [← List.singleton_append, asked_append]
  congr 1
  cases msg <;> simp [asked, docMsgs, Effect.docMsg?, Msg.docId?, Msg.asked?, List.filter_cons] <;>
    split <;> rfl

theorem asked_send_of_eq {h : ServerId} {d : DocId} {msg : Msg} (hmsg : msg.asked? = some d)
    (reqId : Option RequestId) (effects : List Effect) :
    asked h d (.send h reqId msg :: effects) = msg :: asked h d effects := by
  rw [asked_send, if_pos ⟨rfl, hmsg⟩]
  rfl

theorem asked_send_of_ne {h host : ServerId} {d docId : DocId} {msg : Msg}
    (hmsg : msg.asked? = some docId) (hne : (h, d) ≠ (host, docId)) (reqId : Option RequestId)
    (effects : List Effect) : asked h d (.send host reqId msg :: effects) = asked h d effects := by
  rw [asked_send, if_neg]
  · rfl
  · rintro ⟨rfl, hd⟩
    exact hne (Prod.ext rfl (Option.some.inj (hd.symm.trans hmsg)))

theorem asked_map {α : Type} {f : α → Effect} {g : α → Msg} {h host : ServerId} {d docId : DocId}
    {reqId : Option RequestId} {as : List α} (hf : ∀ a, f a = .send host reqId (g a))
    (hg : ∀ a ∈ as, (g a).asked? = some docId) :
    asked h d (as.map f) = if (h, d) = (host, docId) then as.map g else [] := by
  induction as with
  | nil => split <;> rfl
  | cons a as ih =>
      obtain ⟨ha, has⟩ := List.forall_mem_cons.mp hg
      rw [List.map_cons, hf]
      by_cases hk : (h, d) = (host, docId)
      · cases hk
        rw [asked_send_of_eq ha, ih has, if_pos rfl, if_pos rfl, List.map_cons]
      · rw [asked_send_of_ne ha hk, ih has, if_neg hk, if_neg hk]

namespace RemoteDocs

theorem get_set (self : RemoteDocs) (host h : ServerId) (docId d : DocId)
    (entry : RemoteDocEntry) :
    (self.set host docId entry).get h d =
      if (h, d) = (host, docId) then some entry else self.get h d := AssocMap.get_insert ..

theorem get_insert (self : RemoteDocs) (host h : ServerId) (docId d : DocId)
    (entry : RemoteDocEntry) (file : EditorFileDesc) :
    (self.insert host docId entry file).get h d =
      if (h, d) = (host, docId) then some entry else self.get h d := AssocMap.get_insert ..

theorem get_remove (self : RemoteDocs) (host h : ServerId) (docId d : DocId) :
    (self.remove host docId).2.get h d =
      if (h, d) = (host, docId) then none else self.get h d := by
  unfold remove
  split
  next hnone =>
      split
      next hk => cases hk; exact hnone
      next => rfl
  next => exact AssocMap.get_erase ..

theorem get_removeByEditorDesc {self : RemoteDocs} {file : EditorFileDesc} {docId : DocId}
    {entry : RemoteDocEntry} (hdesc : self.getByEditorDesc file = some (docId, entry))
    (h : ServerId) (d : DocId) :
    (self.removeByEditorDesc file).get h d =
      if (h, d) = (file.hostId, docId) then none else self.get h d := by
  rw [removeByEditorDesc, (getByEditorDesc_some.mp hdesc).1]
  exact AssocMap.get_erase ..

end RemoteDocs

/-- The batch of an engine has all its local ops. -/
theorem ClientEngine.batch_of_package {eng eng' : ClientEngine} {docId : DocId}
    {batch : ContextOps} (h : eng.maybePackageLocalOps docId = (some batch, eng')) :
    batch = { context := eng.currentSeq, doc := docId, ops := eng.gh.localOps } := by
  rw [maybePackageLocalOps_eq] at h
  split at h
  next =>
      split at h
      next => cases h; rfl
      next => cases h
  next => cases h

namespace Server

/-- The ops of a host come from peer `h`, or information about a file does. -/
def brings (h : ServerId) (d : DocId) : Event → Prop
  | .message { host, body := .opFromServer doc _, .. } => host = h ∧ doc = d
  | .message { host, body := .infoFromServer info, .. } => host = h ∧ info.docId = d
  | _ => False

/-- What a turn can do to the copy of document `d` of host `h`, and what the host is
asked for. -/
inductive ClientStep (before after : Server) (h : ServerId) (d : DocId) :
    Event → Option RemoteDocEntry → Option RemoteDocEntry → List Msg → Prop where
  | still {event : Event} {copy : Option RemoteDocEntry} :
      ClientStep before after h d event copy copy []
  /-- After an error. -/
  | ended {event : Event} {copy : Option RemoteDocEntry} :
      ClientStep before after h d event copy none []
  /-- The copy goes with the document when it is the host's own. -/
  | closed {event : Event} {copy : Option RemoteDocEntry} (own : h = before.hostId)
      (closing : d ∈ before.closing event) : ClientStep before after h d event copy none []
  | kept {reqId : Option RequestId} {ops : List (FatOp Op)} {entry : RemoteDocEntry}
      {asks : List GlobalSeq} {doc : RemoteDoc}
      (keeps : RemoteDoc.keepServerOps ops entry.toRemoteDoc = (true, asks, doc)) :
      ClientStep before after h d (.message { host := h, body := .opFromServer d ops, reqId })
        (some entry) (some { entry with toRemoteDoc := doc }) (asks.map (.requestOps d))
  | unnumbered {reqId : Option RequestId} {ops : List (FatOp Op)} {entry : RemoteDocEntry}
      {asks : List GlobalSeq} {doc : RemoteDoc}
      (keeps : RemoteDoc.keepServerOps ops entry.toRemoteDoc = (false, asks, doc)) :
      ClientStep before after h d (.message { host := h, body := .opFromServer d ops, reqId })
        (some entry) none (asks.map (.requestOps d))
  | stray {event : Event} (brought : brings h d event) :
      ClientStep before after h d event none none [.stopSendingOps d]
  | opened {reqId : RequestId} {snapshot : NewSnapshot} {copy : Option RemoteDocEntry}
      {entry : RemoteDocEntry} (about : snapshot.docId = d)
      (made : entry.toRemoteDoc = RemoteDoc.new snapshot.content
        (ClientEngine.new snapshot.siteId snapshot.seq snapshot.internalDoc)) :
      ClientStep before after h d
        (.message { host := h, body := .snapshot snapshot, reqId := some reqId }) copy (some entry)
        [.requestOps d snapshot.seq]
  | openedOwn {reqId : RequestId} {req : Request} {copy : Option RemoteDocEntry}
      {entry : RemoteDocEntry} {doc : Doc} {content : Text} {internalDoc : InternalDoc}
      (own : h = before.hostId) (hosted : after.hosted d = some doc)
      (subscribed : AssocMap.get doc.subscribers h = some 0)
      (made : entry.toRemoteDoc = RemoteDoc.new content
        (ClientEngine.new before.siteId doc.engine.currentSeq internalDoc)) :
      ClientStep before after h d (.request reqId req) copy (some entry) []
  | sent {reqId : RequestId} {ops : List EditorFatOp} {file : EditorFileDesc}
      {entry : RemoteDocEntry} {leanOps : List EditorLeanOp} {batch : Option ContextOps}
      {doc : RemoteDoc} (sends : entry.sendOps d ops = some (.ok (leanOps, batch), doc)) :
      ClientStep before after h d (.request reqId (.sendOps ops file)) (some entry)
        (some { entry with toRemoteDoc := doc }) (batch.toList.map .opFromClient)
  | dropped {reqId : RequestId} {file : EditorFileDesc} {entry : RemoteDocEntry} :
      ClientStep before after h d (.request reqId (.disconnectFromFile file)) (some entry) none
        [.stopSendingOps d]

variable {os : Os} {before after : Server} {effects : List Effect}

theorem ClientStep.of_same {event : Event} {h : ServerId} {d : DocId} {asks : List Msg}
    (copy : after.remoteDocs.get h d = before.remoteDocs.get h d) (quiet : asks = []) :
    ClientStep before after h d event (before.remoteDocs.get h d) (after.remoteDocs.get h d)
      asks := by
  rw [copy, quiet]
  exact .still

theorem clientStep_handleOpFromServer {reqId : Option RequestId} {docId : DocId}
    {ops : List (FatOp Op)} {host : ServerId}
    (hturn : before.handleOpFromServer reqId docId ops host = (after, effects)) (h : ServerId)
    (d : DocId) :
    ClientStep before after h d (.message { host, body := .opFromServer docId ops, reqId })
      (before.remoteDocs.get h d) (after.remoteDocs.get h d) (asked h d effects) := by
  have hasked (asks : List GlobalSeq) (rest : List Effect)
      (hrest : ∀ host reqId msg, .send host reqId msg ∈ rest → msg.asked? = none) :
      asked h d ((asks.map fun after => Effect.send host reqId (.requestOps docId after)) ++ rest) =
        if (h, d) = (host, docId) then asks.map (.requestOps docId) else [] := by
    rw [asked_append, asked_map (fun _ => rfl) (fun _ _ => rfl), asked_eq_nil hrest,
      List.append_nil]
  simp only [handleOpFromServer] at hturn
  split at hturn
  next => cases hturn; exact .still
  next op ops =>
      split at hturn
      next hnone =>
          cases hturn
          by_cases hk : (h, d) = (host, docId)
          · cases hk
            rw [hnone, asked_send_of_eq rfl]
            exact .stray ⟨rfl, rfl⟩
          · rw [asked_send_of_ne rfl hk]
            exact .still
      next entry hget =>
          split at hturn
          next hunnumbered =>
              cases hturn
              rw [hasked _ _ (by simp), RemoteDocs.get_remove]
              by_cases hk : (h, d) = (host, docId)
              · cases hk
                rw [if_pos rfl, if_pos rfl, hget]
                exact .unnumbered (Prod.ext (by simpa using hunnumbered) rfl)
              · rw [if_neg hk, if_neg hk]
                exact .still
          next hnumbered =>
              cases hturn
              rw [hasked _ _ ?_, RemoteDocs.get_set]
              · by_cases hk : (h, d) = (host, docId)
                · cases hk
                  rw [if_pos rfl, if_pos rfl, hget]
                  exact .kept (Prod.ext (by simpa using hnumbered) rfl)
                · rw [if_neg hk, if_neg hk]
                  exact .still
              · intro host' reqId' msg hmem
                split at hmem
                next => split at hmem <;> simp at hmem
                next => cases hmem

theorem clientStep_handleSnapshot {reqId : RequestId} {snapshot : NewSnapshot} {host : ServerId}
    (hturn : before.handleSnapshot reqId snapshot host = (after, effects)) (h : ServerId)
    (d : DocId) :
    ClientStep before after h d
      (.message { host, body := .snapshot snapshot, reqId := some reqId })
      (before.remoteDocs.get h d) (after.remoteDocs.get h d) (asked h d effects) := by
  unfold handleSnapshot at hturn
  split at hturn
  next => cases hturn; exact .still
  next =>
      cases hturn
      rw [RemoteDocs.get_insert, ← List.singleton_append, asked_append]
      by_cases hk : (h, d) = (host, snapshot.docId)
      · cases hk
        rw [if_pos rfl, asked_send_of_eq rfl]
        exact .opened rfl rfl
      · rw [if_neg hk, asked_send_of_ne rfl hk]
        exact .still

theorem clientStep_handleSendOpsFromEditor {reqId : RequestId} {ops : List EditorFatOp}
    {file : EditorFileDesc}
    (hturn : before.handleSendOpsFromEditor reqId ops file = some (after, effects))
    (h : ServerId) (d : DocId) :
    ClientStep before after h d (.request reqId (.sendOps ops file))
      (before.remoteDocs.get h d) (after.remoteDocs.get h d) (asked h d effects) := by
  simp only [handleSendOpsFromEditor] at hturn
  split at hturn
  next => cases hturn; exact .still
  next docId entry hdesc =>
      obtain ⟨_, hget⟩ := RemoteDocs.getByEditorDesc_some.mp hdesc
      simp only [Option.bind_eq_bind, Option.bind_eq_some_iff, Prod.exists] at hturn
      obtain ⟨res, doc, hsends, hturn⟩ := hturn
      split at hturn
      next =>
          cases hturn
          rw [RemoteDocs.get_remove]
          split
          next => exact .ended
          next => exact .still
      next leanOps batch =>
          cases hturn
          obtain ⟨_, received, engine, _, _, hpackage, _⟩ := RemoteDoc.sendOps_stages hsends
          have habout : ∀ ops ∈ batch.toList, (Msg.opFromClient ops).asked? = some docId := by
            intro ops hops
            rw [Option.mem_toList.mp hops] at hpackage
            rw [ClientEngine.batch_of_package hpackage]
            rfl
          rw [RemoteDocs.get_set, asked_append, asked_map (fun _ => rfl) habout]
          by_cases hk : (h, d) = (file.hostId, docId)
          · cases hk
            rw [if_pos rfl, if_pos rfl, hget, asked_eq_nil (by simp), List.append_nil]
            exact .sent hsends
          · rw [if_neg hk, if_neg hk]
            exact .still

/-! ## Opening and closing -/

/-- The host's own editor opens a document. -/
theorem clientStep_openOwnDoc {self : Server} (hhost : self.hostId = before.hostId)
    (hsite : self.siteId = before.siteId) (reqId reqId' : RequestId) (req : Request)
    (docId : DocId) (doc : DocEntry) (file : EditorFileDesc) (h : ServerId) (d : DocId) :
    ClientStep before (self.openOwnDoc reqId docId doc file).1 h d (.request reqId' req)
      (self.remoteDocs.get h d) ((self.openOwnDoc reqId docId doc file).1.remoteDocs.get h d)
      [] := by
  have hhosted := hosted_openOwnDoc self reqId docId docId doc file
  rw [if_pos rfl] at hhosted
  rw [remoteDocs_openOwnDoc]
  split
  next => exact .still
  next =>
      rw [RemoteDocs.get_insert]
      by_cases hk : (h, d) = (self.hostId, docId)
      · cases hk
        have hmade : (self.ownRemoteDoc doc (FileDesc.from file)).toRemoteDoc =
            RemoteDoc.new doc.buffer (ClientEngine.new before.siteId doc.engine.currentSeq
              doc.engine.internalDoc) := by
          rw [← hsite]
          rfl
        rw [if_pos rfl]
        exact .openedOwn hhost hhosted (AssocMap.get_insert_self ..) hmade
      · rw [if_neg hk]
        exact .still

theorem clientStep_openFileFromEditor {reqId : RequestId} {file : EditorFileDesc}
    {mode : OpenMode} (hturn : before.openFileFromEditor os reqId file mode = (after, effects))
    (h : ServerId) (d : DocId) :
    ClientStep before after h d (.request reqId (.openFile file mode))
      (before.remoteDocs.get h d) (after.remoteDocs.get h d) (asked h d effects) := by
  have hown (self : Server) (docId : DocId) (doc : DocEntry) :
      asked h d (self.openOwnDoc reqId docId doc file).2 = [] := rfl
  have hadd (doc : DocEntry) :
      ClientStep before ((before.addDoc doc).2.openOwnDoc reqId (before.addDoc doc).1 doc file).1
        h d (.request reqId (.openFile file mode)) (before.remoteDocs.get h d)
        (((before.addDoc doc).2.openOwnDoc reqId (before.addDoc doc).1 doc file).1.remoteDocs.get
          h d) [] :=
    @clientStep_openOwnDoc before (before.addDoc doc).2 rfl rfl reqId reqId (.openFile file mode)
      (before.addDoc doc).1 doc file h d
  simp only [openFileFromEditor] at hturn
  split at hturn
  next =>
      split at hturn
      next => cases hturn; exact .still
      next =>
          split at hturn
          next => cases hturn; exact .still
          next =>
              split at hturn
              next docId doc _ =>
                  have hquiet := hown before docId doc
                  have hstep : ClientStep before (before.openOwnDoc reqId docId doc file).1 h d
                      (.request reqId (.openFile file mode)) _ _ [] :=
                    clientStep_openOwnDoc rfl rfl reqId reqId (.openFile file mode) docId doc file
                      h d
                  rw [hturn] at hquiet hstep
                  rw [hquiet]
                  exact hstep
              next =>
                  split at hturn
                  next =>
                      cases hturn
                      rw [asked_append, asked_fs]
                      exact .still
                  next content fullPath _ =>
                      cases hturn
                      rw [asked_append, asked_fs, hown]
                      exact hadd _
  next =>
      split at hturn
      next => cases hturn; exact .still
      next =>
          cases hturn
          refine .of_same rfl (asked_eq_nil fun _ _ _ hmem => ?_)
          cases List.mem_singleton.mp hmem
          rfl

theorem clientStep_handleShareFileFromEditor {reqId : RequestId} {filename content : Text}
    (hturn : before.handleShareFileFromEditor os reqId filename content = (after, effects))
    (h : ServerId) (d : DocId) :
    ClientStep before after h d (.request reqId (.shareFile filename content))
      (before.remoteDocs.get h d) (after.remoteDocs.get h d) (asked h d effects) := by
  rw [asked_of_quiet ((Handled.shareFile hturn).quiet rfl)]
  have hmake (doc : DocEntry) (entry : RemoteDocEntry) (file : EditorFileDesc)
      (hseq : doc.engine.currentSeq = 0) (hsubscribers : doc.subscribers = [(before.hostId, 0)])
      (hmade : entry.toRemoteDoc = RemoteDoc.new content
        (ClientEngine.new before.siteId 0 (InternalDoc.new content.length))) :
      ClientStep before { (before.addDoc doc).2 with
          remoteDocs := before.remoteDocs.insert before.hostId before.nextDocId entry file } h d
        (.request reqId (.shareFile filename content)) (before.remoteDocs.get h d)
        ((before.remoteDocs.insert before.hostId before.nextDocId entry file).get h d) [] := by
    rw [RemoteDocs.get_insert]
    by_cases hk : (h, d) = (before.hostId, before.nextDocId)
    · cases hk
      rw [if_pos rfl]
      refine .openedOwn rfl ((hosted_addDoc before doc before.nextDocId).trans (if_pos rfl)) ?_
        (by rw [hseq]; exact hmade)
      rw [hsubscribers]
      exact if_pos rfl
    · rw [if_neg hk]
      exact .still
  simp only [handleShareFileFromEditor] at hturn
  split at hturn
  next => cases hturn; exact .still
  next =>
      split at hturn
      next => cases hturn; exact .still
      next =>
          cases hturn
          exact hmake _ _ _ rfl rfl rfl

theorem get_removeDocs (os : Os) (self : Server) (docIds : List DocId) (h : ServerId)
    (d : DocId) : (self.removeDocs os docIds).1.remoteDocs.get h d =
      if h = self.hostId ∧ d ∈ docIds then none else self.remoteDocs.get h d := by
  induction docIds generalizing self with
  | nil => simp [removeDocs]
  | cons docId docIds ih =>
      simp only [removeDocs]
      rw [ih, RemoteDocs.get_remove]
      by_cases hh : h = self.hostId
      · by_cases hd : d = docId
        · simp [hh, hd]
        · simp [hh, hd]
      · simp [hh]

/-- A close takes the host's own copies along. -/
theorem get_handleCloseFileLocally (os : Os) (self : Server) (file : FileDesc) (delete : Bool)
    (h : ServerId) (d : DocId) :
    (self.handleCloseFileLocally os file delete).2.1.remoteDocs.get h d =
      if h = self.hostId ∧ d ∈ self.docsToClose file then none else self.remoteDocs.get h d := by
  unfold handleCloseFileLocally docsToClose
  cases self.findDocsAndPathToDelete file with
  | error err => simp
  | ok found =>
      dsimp only
      split <;> exact get_removeDocs os self found.1 h d

theorem get_handleCloseFileFromRemote {reqId : Option RequestId} {file : FileDesc}
    {requester : ServerId} {delete : Bool}
    (hturn : before.handleCloseFileFromRemote os reqId file requester delete = (after, effects))
    (h : ServerId) (d : DocId) : after.remoteDocs.get h d =
      if h = before.hostId ∧ d ∈ before.closing
        (.message { host := requester, body := .closeFile file delete, reqId })
      then none else before.remoteDocs.get h d := by
  simp only [handleCloseFileFromRemote] at hturn
  split at hturn
  next hdenied =>
      cases hturn
      have hnone : before.closing
          (.message { host := requester, body := .closeFile file delete, reqId }) = [] :=
        if_neg (by simpa using hdenied)
      simp [hnone]
  next hallowed =>
      have hall : before.closing
          (.message { host := requester, body := .closeFile file delete, reqId }) =
            before.docsToClose file := if_pos (by simpa using hallowed)
      simp only [hall]
      split at hturn <;> cases hturn <;> exact get_handleCloseFileLocally ..

theorem get_handleCloseFileFromEditor {reqId : RequestId} {file : EditorFileDesc} {delete : Bool}
    (hturn : before.handleCloseFileFromEditor os reqId file delete = (after, effects))
    (h : ServerId) (d : DocId) : after.remoteDocs.get h d =
      if h = before.hostId ∧
        d ∈ (if file.hostId = before.hostId then before.docsToClose (FileDesc.from file) else [])
      then none else before.remoteDocs.get h d := by
  simp only [handleCloseFileFromEditor] at hturn
  split at hturn
  next haway =>
      cases hturn
      simp [haway]
  next hown =>
      simp only [not_not.mp hown, if_true]
      split at hturn <;> cases hturn <;> exact get_handleCloseFileLocally ..

theorem ClientStep.of_close {event : Event} {closed : List DocId}
    (closing : before.closing event = closed) {h : ServerId} {d : DocId}
    (copy : after.remoteDocs.get h d =
      if h = before.hostId ∧ d ∈ closed then none else before.remoteDocs.get h d)
    {asks : List Msg} (quiet : asks = []) :
    ClientStep before after h d event (before.remoteDocs.get h d) (after.remoteDocs.get h d)
      asks := by
  rw [copy, quiet]
  split
  next hclosed => exact .closed hclosed.1 (closing ▸ hclosed.2)
  next => exact .still

/-! ## The other turns -/

theorem plain_fs_append {calls : List FsCall} (h : ∀ e ∈ effects, e.asked? = none) :
    ∀ e ∈ calls.map Effect.fs ++ effects, e.asked? = none := by
  refine List.forall_mem_append.mpr ⟨fun e he => ?_, h⟩
  obtain ⟨call, _, rfl⟩ := List.mem_map.mp he
  rfl

theorem plain_broadcastOps (doc : Doc) (reqId : Option RequestId) (docId : DocId)
    (ops : List (FatOp Op)) : ∀ e ∈ broadcastOps doc reqId docId ops, e.asked? = none := by
  intro e he
  obtain ⟨host, _, rfl⟩ := List.mem_map.mp he
  rfl

theorem remoteDocs_resetDocFromDisk {reqId : Option RequestId} {path : UnixPath.Path}
    {timestamp : Option Instant} {res : Except String Unit}
    (hturn : before.resetDocFromDisk os reqId path timestamp = some (res, after, effects)) :
    after.remoteDocs = before.remoteDocs ∧
      ∀ e ∈ effects, e.asked? = none := by
  simp only [resetDocFromDisk] at hturn
  split at hturn
  next => cases hturn; exact ⟨rfl, List.forall_mem_nil _⟩
  next =>
      split at hturn
      next => cases hturn; exact ⟨rfl, List.forall_mem_nil _⟩
      next =>
          split at hturn
          next => cases hturn; exact ⟨rfl, by simp [Effect.asked?]⟩
          next => cases hturn; exact ⟨rfl, by simp [Effect.asked?]⟩
          next =>
              simp only [Option.bind_eq_bind, Option.bind_eq_some_iff, Prod.exists] at hturn
              obtain ⟨res', reset, _, hturn⟩ := hturn
              split at hturn
              next => cases hturn; exact ⟨rfl, by simp [Effect.asked?]⟩
              next =>
                  cases hturn
                  refine ⟨rfl, List.forall_mem_append.mpr ⟨by simp [Effect.asked?], ?_⟩⟩
                  split
                  next => exact List.forall_mem_nil _
                  next => exact plain_broadcastOps _ _ _ _

theorem remoteDocs_handleRequestFile {reqId : Option RequestId} {file : FileDesc}
    {host : ServerId} {mode : OpenMode}
    (hturn : before.handleRequestFile os reqId file host mode = (after, effects)) :
    after.remoteDocs = before.remoteDocs ∧
      ∀ e ∈ effects, e.asked? = none := by
  have hcopies := siteIdOf_remoteDocs before host
  unfold handleRequestFile at hturn
  split at hturn
  next => cases hturn; exact ⟨rfl, by simp [Effect.asked?, Msg.asked?]⟩
  next =>
      dsimp only at hturn
      split at hturn
      next => cases hturn; exact ⟨hcopies, by simp [Effect.asked?, Msg.asked?]⟩
      next =>
          split at hturn
          next => cases hturn; exact ⟨hcopies, by simp [Effect.asked?, Msg.asked?]⟩
          next =>
              split at hturn
              next =>
                  cases hturn
                  exact ⟨hcopies, plain_fs_append (by simp [Effect.asked?, Msg.asked?])⟩
              next =>
                  cases hturn
                  exact ⟨hcopies,
                    plain_fs_append (by simp [Effect.asked?, Msg.asked?, watchFiles])⟩

theorem remoteDocs_handleOpFromClient {reqId : Option RequestId} {ops : ContextOps}
    {host : ServerId} {res : Except CollabError Unit}
    (hturn : before.handleOpFromClient reqId ops host = some (res, after, effects)) :
    after.remoteDocs = before.remoteDocs ∧
      ∀ e ∈ effects, e.asked? = none := by
  have haccept {docId : DocId} {doc : DocEntry}
      (hturn : before.acceptOps reqId docId doc ops host = some (res, after, effects)) :
      after.remoteDocs = before.remoteDocs ∧
        ∀ e ∈ effects, e.asked? = none := by
    simp only [acceptOps, Option.bind_eq_bind, Option.bind_eq_some_iff, Prod.exists] at hturn
    obtain ⟨res', applied, _, hturn⟩ := hturn
    split at hturn
    next => cases hturn; exact ⟨rfl, List.forall_mem_nil _⟩
    next =>
        cases hturn
        exact ⟨rfl, plain_broadcastOps _ _ _ _⟩
  simp only [handleOpFromClient] at hturn
  split at hturn
  next => cases hturn; exact ⟨rfl, by simp [Effect.asked?, Msg.asked?]⟩
  next =>
      split at hturn
      next => cases hturn; exact ⟨rfl, by simp [Effect.asked?, Msg.asked?]⟩
      next =>
          split at hturn
          next => cases hturn; exact ⟨rfl, by simp [Effect.asked?, Msg.asked?]⟩
          next =>
              split at hturn
              next => exact haccept hturn
              next =>
                  split at hturn
                  next => cases hturn; exact ⟨rfl, by simp [Effect.asked?, Msg.asked?]⟩
                  next => exact haccept hturn

theorem remoteDocs_handleRequestOps {reqId : Option RequestId} {docId : DocId}
    {seq : GlobalSeq} {host : ServerId}
    (hturn : before.handleRequestOps reqId docId seq host = (after, effects)) :
    after.remoteDocs = before.remoteDocs ∧
      ∀ e ∈ effects, e.asked? = none := by
  unfold handleRequestOps at hturn
  split at hturn
  next => cases hturn; exact ⟨rfl, by simp [Effect.asked?, Msg.asked?]⟩
  next =>
      cases hturn
      refine ⟨rfl, ?_⟩
      split
      next => exact List.forall_mem_nil _
      next => simp [Effect.asked?, Msg.asked?]

theorem remoteDocs_moveFileOnDisk (os : Os) (self : Server) (project : ProjectId)
    (oldPath newPath : Text) :
    (self.moveFileOnDisk os project oldPath newPath).2.1.remoteDocs = self.remoteDocs := by
  unfold moveFileOnDisk
  split
  next => rfl
  next =>
      dsimp only
      split <;> rfl

theorem remoteDocs_saveFileToDisk (os : Os) (self : Server) (docId : DocId) :
    (self.saveFileToDisk os docId).2.1.remoteDocs = self.remoteDocs := by
  unfold saveFileToDisk
  split <;> rfl

theorem get_handleDocFatal {docId : DocId} {reason : String} {host : ServerId}
    (hturn : before.handleDocFatal docId reason host = (after, effects)) (h : ServerId)
    (d : DocId) : after.remoteDocs.get h d =
      if (h, d) = (host, docId) then none else before.remoteDocs.get h d := by
  cases hturn
  exact RemoteDocs.get_remove ..

/-- A turn that leaves the copies alone and asks for nothing. -/
theorem ClientStep.of_plain {event : Event} {h : ServerId} {d : DocId}
    (copies : after.remoteDocs = before.remoteDocs) (plain : ∀ e ∈ effects, e.asked? = none) :
    ClientStep before after h d event (before.remoteDocs.get h d) (after.remoteDocs.get h d)
      (asked h d effects) :=
  .of_same (by rw [copies]) (asked_of_plain plain h d)

/-- What a turn does to the copy of a document. -/
theorem Handled.clientStep {event : Event} (hturn : Handled os before event after effects)
    (h : ServerId) (d : DocId) :
    ClientStep before after h d event (before.remoteDocs.get h d) (after.remoteDocs.get h d)
      (asked h d effects) := by
  have hquiet (hspeaks : speaks event = false) : asked h d effects = [] :=
    asked_of_quiet (hturn.quiet hspeaks) h d
  cases hturn with
  | idle away tables quiet =>
      exact .of_same (by rw [remoteDocs_of_tables tables]) (asked_of_quiet quiet h d)
  | noted tables quiet still plain =>
      exact .of_same (by rw [remoteDocs_of_tables tables]) (asked_of_quiet quiet h d)
  | @strayInfo host reqId info stray =>
      by_cases hk : (h, d) = (host, info.docId)
      · cases hk
        rw [stray, asked_send_of_eq rfl]
        exact .stray ⟨rfl, rfl⟩
      · rw [asked_send_of_ne rfl hk]
        exact .still
  | hey hturn => cases hturn; exact .of_same rfl (hquiet rfl)
  | listFiles reply snap => exact .of_same rfl (hquiet rfl)
  | makeDirectory allowed hturn =>
      unfold handleMakeDirectory at hturn
      split at hturn <;> cases hturn <;> exact .of_same rfl (hquiet rfl)
  | requestFile hturn =>
      obtain ⟨hcopies, hplain⟩ := remoteDocs_handleRequestFile hturn
      exact .of_plain hcopies hplain
  | snapshot hturn => exact clientStep_handleSnapshot hturn h d
  | opFromClient hturn =>
      obtain ⟨hcopies, hplain⟩ := remoteDocs_handleOpFromClient hturn
      exact .of_plain hcopies hplain
  | opFromServer hturn => exact clientStep_handleOpFromServer hturn h d
  | requestOps hturn =>
      obtain ⟨hcopies, hplain⟩ := remoteDocs_handleRequestOps hturn
      exact .of_plain hcopies hplain
  | moveFile allowed hturn =>
      simp only [handleMoveFile] at hturn
      split at hturn <;> cases hturn <;>
        exact .of_same (by rw [remoteDocs_moveFileOnDisk]) (hquiet rfl)
  | @saveFile _ _ doc _ _ allowed hturn =>
      cases hturn
      exact .of_same (congrArg (RemoteDocs.get · h d) (remoteDocs_saveFileToDisk os before doc))
        (hquiet rfl)
  | resetFromDisk allowed hturn =>
      simp only [handleResetFromDisk] at hturn
      split at hturn
      next =>
          cases hturn
          exact .of_plain rfl (by simp [Effect.asked?, Msg.asked?])
      next =>
          simp only [Option.bind_eq_bind, Option.bind_eq_some_iff, Prod.exists] at hturn
          obtain ⟨res, reset, effects', hreset, hturn⟩ := hturn
          obtain ⟨hcopies, hplain⟩ := remoteDocs_resetDocFromDisk hreset
          split at hturn
          next =>
              cases hturn
              exact .of_plain hcopies
                (List.forall_mem_append.mpr ⟨hplain, by simp [Effect.asked?, Msg.asked?]⟩)
          next => cases hturn; exact .of_plain hcopies hplain
  | stopSendingOps hturn =>
      unfold handleStopSendingOps at hturn
      split at hturn <;> cases hturn <;> exact .still
  | closeFile hturn =>
      exact .of_close rfl (get_handleCloseFileFromRemote hturn h d) (hquiet rfl)
  | docFatal hturn =>
      rw [hquiet rfl, get_handleDocFatal hturn]
      split
      next => exact .ended
      next => exact .still
  | openFile hturn => exact clientStep_openFileFromEditor hturn h d
  | sendOps hturn => exact clientStep_handleSendOpsFromEditor hturn h d
  | shareFile hturn => exact clientStep_handleShareFileFromEditor hturn h d
  | moveFileFromEditor hturn =>
      simp only [handleMoveFileFromEditor] at hturn
      split at hturn
      next => cases hturn; exact .of_same rfl (hquiet rfl)
      next =>
          split at hturn <;> cases hturn <;>
            exact .of_same (by rw [remoteDocs_moveFileOnDisk]) (hquiet rfl)
  | saveFileFromEditor hturn =>
      simp only [handleSaveFileFromEditor] at hturn
      split at hturn
      next => split at hturn <;> cases hturn <;> exact .of_same rfl (hquiet rfl)
      next =>
          split at hturn
          next => cases hturn; exact .of_same rfl (hquiet rfl)
          next =>
              cases hturn
              exact .of_same (by rw [remoteDocs_saveFileToDisk]) (hquiet rfl)
  | resetFromDiskFromEditor hturn =>
      simp only [handleResetFromDiskFromEditor] at hturn
      split at hturn
      next =>
          split at hturn <;> cases hturn <;>
            exact .of_plain rfl (by simp [Effect.asked?, Msg.asked?])
      next =>
          split at hturn
          next => cases hturn; exact .of_plain rfl (by simp [Effect.asked?])
          next =>
              split at hturn
              next => cases hturn; exact .of_plain rfl (by simp [Effect.asked?])
              next =>
                  simp only [Option.bind_eq_bind, Option.bind_eq_some_iff, Prod.exists] at hturn
                  obtain ⟨res, reset, effects', hreset, hturn⟩ := hturn
                  obtain ⟨hcopies, hplain⟩ := remoteDocs_resetDocFromDisk hreset
                  cases hturn
                  exact .of_plain hcopies
                    (List.forall_mem_append.mpr ⟨hplain, by simp [Effect.asked?]⟩)
  | @disconnectFromFile reqId file _ _ hturn =>
      unfold handleDisconnectFromFile at hturn
      split at hturn
      next docId entry hdesc =>
          cases hturn
          rw [RemoteDocs.get_removeByEditorDesc hdesc]
          by_cases hk : (h, d) = (file.hostId, docId)
          · cases hk
            rw [if_pos rfl, asked_send_of_eq rfl, (RemoteDocs.getByEditorDesc_some.mp hdesc).2]
            exact .dropped
          · rw [if_neg hk, asked_send_of_ne rfl hk]
            exact .still
      next => cases hturn; exact .still
  | closeFileFromEditor hturn =>
      exact .of_close rfl (get_handleCloseFileFromEditor hturn h d) (hquiet rfl)
  | deleteFileFromEditor hturn =>
      exact .of_close rfl (get_handleCloseFileFromEditor hturn h d) (hquiet rfl)
  | declareProjects hturn =>
      obtain ⟨projects, rfl⟩ := after_handleDeclareProjects hturn
      exact .of_same rfl (hquiet rfl)
  | fileChanged hturn =>
      obtain ⟨hcopies, hplain⟩ := remoteDocs_resetDocFromDisk hturn
      exact .of_plain hcopies hplain

/-- The host's own copy of a document that is closed goes with it. -/
theorem get_closed {event : Event} (hhandle : before.handle os event = some (after, effects))
    {d : DocId} (hclosing : d ∈ before.closing event) :
    after.remoteDocs.get before.hostId d = none := by
  -- The documents of a file that the editor closes, when the file is one of this host.
  have hown {reqId : RequestId} {file : EditorFileDesc} {delete : Bool}
      (hturn : before.handleCloseFileFromEditor os reqId file delete = (after, effects))
      (hmem : d ∈ if file.hostId = before.hostId then before.docsToClose (FileDesc.from file)
        else []) : after.remoteDocs.get before.hostId d = none := by
    rw [get_handleCloseFileFromEditor hturn]
    exact if_pos ⟨rfl, hmem⟩
  unfold closing at hclosing
  split at hclosing
  next host file delete reqId =>
      rw [get_handleCloseFileFromRemote (turn_of_some hhandle)]
      exact if_pos ⟨rfl, hclosing⟩
  next reqId file => exact hown (turn_of_some hhandle) hclosing
  next reqId file =>
      simp only [handle, handleEditorRequest, ifConnected] at hhandle
      split at hhandle
      next => exact hown (turn_of_some hhandle) hclosing
      next haway =>
          rw [if_neg fun hhost => haway (by simp [hhost])] at hclosing
          cases hclosing
  next => cases hclosing

end Server

end CollabMode
