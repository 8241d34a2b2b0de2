import CollabMode.Batches

/-!
# A document at its host

`HostStep` lists what a turn of a host can do to one of its documents, with what the
host tells its clients about it.  A client's message about the document is handled in
one of four ways, and the other turns make the document, take over a changed file, open
it for the host's own editor or close it.
-/

namespace CollabMode

/-- What a host tells its clients about a document. -/
def told (d : DocId) (effects : List Effect) : List (ServerId × Msg) :=
  (docMsgs effects).filter fun sent => sent.2.told? = some d

@[simp] theorem told_nil (d : DocId) : told d [] = [] := rfl

@[simp] theorem told_append (d : DocId) (effects effects' : List Effect) :
    told d (effects ++ effects') = told d effects ++ told d effects' := by
  rw [told, docMsgs_append, List.filter_append]
  rfl

theorem told_of_quiet {effects : List Effect} (h : docMsgs effects = []) (d : DocId) :
    told d effects = [] := by
  rw [told, h]
  rfl

@[simp] theorem told_fs (d : DocId) (calls : List FsCall) : told d (calls.map Effect.fs) = [] :=
  told_of_quiet (docMsgs_fs calls) d

theorem told_eq_nil {d : DocId} {effects : List Effect}
    (h : ∀ host reqId msg, .send host reqId msg ∈ effects → msg.told? = none) :
    told d effects = [] := by
  refine List.filter_eq_nil_iff.mpr fun sent hsent => ?_
  obtain ⟨e, he, hsome⟩ := List.mem_filterMap.mp hsent
  cases e with
  | send host reqId msg =>
      obtain ⟨_, _, rfl⟩ := Option.map_eq_some_iff.mp hsome
      simp [h host reqId msg he]
  | _ => cases hsome

theorem told_send (d : DocId) (host : ServerId) (reqId : Option RequestId) (msg : Msg)
    (effects : List Effect) : told d (.send host reqId msg :: effects) =
      (if msg.told? = some d then [(host, msg)] else []) ++ told d effects := by
  rw [← List.singleton_append, told_append]
  congr 1
  cases msg <;> simp [told, docMsgs, Effect.docMsg?, Msg.docId?, Msg.told?, List.filter_cons]

theorem told_send_of_eq {d : DocId} {msg : Msg} (h : msg.told? = some d) (host : ServerId)
    (reqId : Option RequestId) (effects : List Effect) :
    told d (.send host reqId msg :: effects) = (host, msg) :: told d effects := by
  rw [told_send, if_pos h]
  rfl

theorem told_send_of_ne {d : DocId} {msg : Msg} (h : msg.told? ≠ some d) (host : ServerId)
    (reqId : Option RequestId) (effects : List Effect) :
    told d (.send host reqId msg :: effects) = told d effects := by
  rw [told_send, if_neg h]
  rfl

/-- What is told with ops that go to all subscribers. -/
def Doc.tell (self : Doc) (d : DocId) (ops : List (FatOp Op)) : List (ServerId × Msg) :=
  (AssocMap.keys self.subscribers).map fun host => (host, .opFromServer d ops)

theorem told_broadcastOps (doc : Doc) (reqId : Option RequestId) (docId d : DocId)
    (ops : List (FatOp Op)) :
    told d (Server.broadcastOps doc reqId docId ops) =
      if docId = d then doc.tell d ops else [] := by
  rw [Server.broadcastOps, Doc.tell]
  induction AssocMap.keys doc.subscribers with
  | nil => split <;> rfl
  | cons host hosts ih =>
      rw [List.map_cons, told_send, ih]
      by_cases h : docId = d
      · simp [Msg.told?, h]
      · simp [Msg.told?, h]

/-- A client's message about the document arrives. -/
def Event.asks (d : DocId) : Event → Bool
  | .message msg => msg.body.asked? = some d
  | _ => false

namespace Server

/-- The document that is served under an id. -/
def hosted (self : Server) (d : DocId) : Option Doc := (self.doc? d).map DocEntry.toDoc

theorem hosted_of_get {self : Server} {d : DocId} {doc : DocEntry} (h : self.doc? d = some doc) :
    self.hosted d = some doc.toDoc := by
  rw [hosted, h]
  rfl

theorem hosted_of_docs {before after : Server} (h : after.docs = before.docs) (d : DocId) :
    after.hosted d = before.hosted d := by
  rw [hosted, doc?, h]
  rfl

theorem hosted_setDoc (self : Server) (docId d : DocId) (doc : DocEntry) :
    (self.setDoc docId doc).hosted d = if d = docId then some doc.toDoc else self.hosted d := by
  rw [hosted, doc?_setDoc]
  split <;> rfl

theorem hosted_moveDocs (os : Os) (oldPath newPath : UnixPath.Path)
    (docs : List (DocId × DocEntry)) (d : DocId) :
    (AssocMap.get (moveDocs os oldPath newPath docs).2 d).map DocEntry.toDoc =
      (AssocMap.get docs d).map DocEntry.toDoc := by
  cases h : AssocMap.get docs d with
  | some doc =>
      obtain ⟨absFilename, hmoved⟩ := get_moveDocs os oldPath newPath h
      rw [hmoved]
      rfl
  | none =>
      cases h' : AssocMap.get (moveDocs os oldPath newPath docs).2 d with
      | none => rfl
      | some doc =>
          have hkey := AssocMap.mem_keys (AssocMap.mem_of_get h')
          rw [keys_moveDocs] at hkey
          obtain ⟨entry, hentry, rfl⟩ := List.mem_map.mp hkey
          exact absurd h (AssocMap.get_ne_none_of_mem hentry)

/-- What a turn can do to a document, and what its clients are told. -/
inductive HostStep (os : Os) (before : Server) (d : DocId) :
    Event → Option Doc → Option Doc → List (ServerId × Msg) → Prop where
  | still {event : Event} {served : Option Doc} (unasked : event.asks d = false) :
      HostStep os before d event served served []
  /-- There is no such document. -/
  | absent {msg : Message} (plain : ∀ ops, msg.body ≠ .opFromClient ops) :
      HostStep os before d (.message msg) none none []
  | refused {host : ServerId} {reqId : Option RequestId} {ops : ContextOps}
      {served : Option Doc} {told : List (ServerId × Msg)} (about : ops.doc = d)
      (refuses : before.Refuses ops host)
      (fatal : ∀ sent ∈ told, ∃ reason, sent = (host, .docFatal d reason)) :
      HostStep os before d (.message { host, body := .opFromClient ops, reqId }) served served told
  /-- The record stays also when an op cannot be applied, and then nobody is told. -/
  | accepted {host : ServerId} {reqId : Option RequestId} {ops : ContextOps} {entry : DocEntry}
      {lastSeq : LocalSeq} {res : Except CollabError Unit} {applied : Doc} (about : ops.doc = d)
      (allowed : before.config.writeAllowed host = true)
      (passes : before.Passes ops host entry lastSeq)
      (applies : Doc.applyOps (entry.ordered ops.ops ops.context)
        (recorded entry.toDoc ops host) = some (res, applied)) :
      HostStep os before d (.message { host, body := .opFromClient ops, reqId })
        (some entry.toDoc) (some applied)
        (match res with
        | .error _ => []
        | .ok () => applied.tell d (entry.ordered ops.ops ops.context))
  | subscribed {host : ServerId} {reqId : Option RequestId} {after : GlobalSeq} {doc : Doc} :
      HostStep os before d (.message { host, body := .requestOps d after, reqId }) (some doc)
        (some { doc with subscribers := AssocMap.insert doc.subscribers host 0 })
        (if (doc.engine.globalOpsAfter after).isEmpty then []
          else [(host, .opFromServer d (doc.engine.globalOpsAfter after))])
  | unsubscribed {host : ServerId} {reqId : Option RequestId} {doc : Doc} :
      HostStep os before d (.message { host, body := .stopSendingOps d, reqId }) (some doc)
        (some { doc with subscribers := AssocMap.erase doc.subscribers host }) []
  /-- A client is sent what the document is now. -/
  | found {host : ServerId} {reqId : Option RequestId} {file : FileDesc} {mode : OpenMode}
      {doc : Doc} {name : Text} :
      HostStep os before d (.message { host, body := .requestFile file mode, reqId }) (some doc)
        (some doc) [(host, .snapshot
          { content := doc.buffer, internalDoc := doc.engine.internalDoc, name
            seq := doc.engine.currentSeq, siteId := (before.siteIdOf host).1
            fileDesc := file, docId := d })]
  /-- The document is made for a client. -/
  | made {host : ServerId} {reqId : Option RequestId} {file : FileDesc} {mode : OpenMode}
      {content name : Text} (next : d = before.nextDocId) :
      HostStep os before d (.message { host, body := .requestFile file mode, reqId }) none
        (some (Doc.new content (ServerEngine.new (utf8Len content)))) [(host, .snapshot
          { content, internalDoc := InternalDoc.new content.length, name, seq := 0
            siteId := (before.siteIdOf host).1, fileDesc := file, docId := d })]
  /-- The document is made for the host's own editor. -/
  | madeOwn {event : Event} {content : Text} (unasked : event.asks d = false)
      (next : d = before.nextDocId) :
      HostStep os before d event none
        (some { Doc.new content (ServerEngine.new (utf8Len content)) with
          subscribers := [(before.hostId, 0)] }) []
  | openedOwn {reqId : RequestId} {file : EditorFileDesc} {mode : OpenMode} {doc : Doc} :
      HostStep os before d (.request reqId (.openFile file mode)) (some doc)
        (some { doc with subscribers := AssocMap.insert doc.subscribers before.hostId 0 }) []
  /-- Another program has changed the file. -/
  | reset {event : Event} {doc applied : Doc} {newContent : Text}
      {res : Except CollabError (List (FatOp Op))} {told : List (ServerId × Msg)}
      (unasked : event.asks d = false)
      (applies : doc.resetFromDisk (os.diff doc.buffer newContent) = some (res, applied))
      (tells : told = [] ∨ ∃ processed, res = .ok processed ∧ told = applied.tell d processed)
      (all : ∀ processed, res = .ok processed → processed = [] ∨
        told = applied.tell d processed) :
      HostStep os before d event (some doc) (some applied) told
  | closed {event : Event} {doc : Doc} (unasked : event.asks d = false)
      (closing : d ∈ before.closing event) : HostStep os before d event (some doc) none []

/-! ## Messages of clients -/

/-- A document that is left alone. -/
theorem HostStep.of_same {os : Os} {before after : Server} {event : Event} {d : DocId}
    {told : List (ServerId × Msg)} (unasked : event.asks d = false)
    (hosted : after.hosted d = before.hosted d) (quiet : told = []) :
    HostStep os before d event (before.hosted d) (after.hosted d) told := by
  rw [hosted, quiet]
  exact .still unasked

theorem not_asks {host : ServerId} {body : Msg} {reqId : Option RequestId} {k d : DocId}
    (h : body.asked? = some k) (hne : k ≠ d) :
    Event.asks d (.message { host, body, reqId }) = false := by
  simp [Event.asks, h, hne]

theorem hostStep_opFromClient (os : Os) {before after : Server} {reqId : Option RequestId}
    {ops : ContextOps} {host : ServerId} {res : Except CollabError Unit} {effects : List Effect}
    (h : before.handleOpFromClient reqId ops host = some (res, after, effects)) (d : DocId) :
    HostStep os before d (.message { host, body := .opFromClient ops, reqId }) (before.hosted d)
      (after.hosted d) (told d effects) := by
  have haway (hne : ops.doc ≠ d) :
      Event.asks d (.message { host, body := .opFromClient ops, reqId }) = false :=
    not_asks rfl hne
  rcases before.handleOpFromClient_cases reqId ops host with
    ⟨hrefuses, msg, hmsg, hdoc, hrun⟩ | ⟨hallowed, entry, lastSeq, hpasses, hrun⟩
  · cases hrun.symm.trans h
    rw [told_send, told_nil, List.append_nil]
    by_cases hd : ops.doc = d
    · refine .refused hd hrefuses fun sent hsent => ?_
      split at hsent
      next htold =>
          cases List.mem_singleton.mp hsent
          cases msg with
          | docFatal doc reason => exact ⟨reason, by cases htold; rfl⟩
          | _ => first | (cases hmsg; done) | cases htold
      next => cases hsent
    · refine .of_same (haway hd) rfl (if_neg fun htold => hd (hdoc d htold).symm)
  · rw [acceptOps_eq] at hrun
    rw [hrun] at h
    obtain ⟨⟨res', applied⟩, happly, heq⟩ := Option.map_eq_some_iff.mp h
    cases heq
    by_cases hd : ops.doc = d
    · subst hd
      rw [hosted_setDoc, if_pos rfl, hosted_of_get hpasses.get]
      convert HostStep.accepted rfl hallowed hpasses happly using 1
      cases res with
      | error err => rfl
      | ok u => exact (told_broadcastOps ..).trans (if_pos rfl)
    · refine .of_same (haway hd) (by rw [hosted_setDoc, if_neg (Ne.symm hd)]) ?_
      cases res with
      | error err => rfl
      | ok u => rw [told_broadcastOps, if_neg hd]

theorem hostStep_requestOps (os : Os) {before after : Server} {reqId : Option RequestId}
    {docId : DocId} {seq : GlobalSeq} {host : ServerId} {effects : List Effect}
    (h : before.handleRequestOps reqId docId seq host = (after, effects)) (d : DocId) :
    HostStep os before d (.message { host, body := .requestOps docId seq, reqId })
      (before.hosted d) (after.hosted d) (told d effects) := by
  unfold handleRequestOps at h
  split at h
  next hnone =>
      cases h
      rw [told_send_of_ne ?_, told_nil]
      · by_cases hd : docId = d
        · subst hd
          rw [hosted, hnone]
          exact .absent nofun
        · exact .of_same (not_asks rfl hd) rfl rfl
      · exact nofun
  next entry hget =>
      cases h
      by_cases hd : docId = d
      · subst hd
        rw [hosted_setDoc, if_pos rfl, hosted_of_get hget]
        have htold : ∀ ops : List (FatOp Op), told docId (if ops.isEmpty then []
            else [Effect.send host reqId (.opFromServer docId ops)]) =
              if ops.isEmpty then [] else [(host, .opFromServer docId ops)] := by
          intro ops
          split
          next => rfl
          next => exact told_send_of_eq rfl ..
        rw [htold]
        exact .subscribed
      · refine .of_same (not_asks rfl hd) (by rw [hosted_setDoc, if_neg (Ne.symm hd)]) ?_
        split
        next => rfl
        next => exact told_send_of_ne (by simpa [Msg.told?] using hd) ..

theorem hostStep_stopSendingOps (os : Os) {before after : Server} {reqId : Option RequestId}
    {docId : DocId} {host : ServerId} {effects : List Effect}
    (h : before.handleStopSendingOps docId host = (after, effects)) (d : DocId) :
    HostStep os before d (.message { host, body := .stopSendingOps docId, reqId })
      (before.hosted d) (after.hosted d) (told d effects) := by
  unfold handleStopSendingOps at h
  split at h
  next hnone =>
      cases h
      by_cases hd : docId = d
      · subst hd
        rw [hosted, hnone]
        exact .absent nofun
      · exact .of_same (not_asks rfl hd) rfl rfl
  next entry hget =>
      cases h
      by_cases hd : docId = d
      · subst hd
        rw [hosted_setDoc, if_pos rfl, hosted_of_get hget]
        exact .unsubscribed
      · exact .of_same (not_asks rfl hd) (by rw [hosted_setDoc, if_neg (Ne.symm hd)]) rfl

/-! ## Making documents -/

theorem hosted_of_insert {before after : Server} {k : DocId} {doc : DocEntry}
    (h : after.docs = AssocMap.insert before.docs k doc) (d : DocId) :
    after.hosted d = if d = k then some doc.toDoc else before.hosted d := by
  rw [hosted, doc?, h, AssocMap.get_insert]
  split <;> rfl

theorem IdsOk.get {self : Server} (h : self.IdsOk) {d : DocId} {doc : DocEntry}
    (hmem : (d, doc) ∈ self.docs) : self.doc? d = some doc := AssocMap.get_of_mem h.nodup hmem

theorem IdsOk.lt_of_get {self : Server} (h : self.IdsOk) {d : DocId} {doc : DocEntry}
    (hget : self.doc? d = some doc) : d < self.nextDocId :=
  h.lt d (AssocMap.mem_keys (AssocMap.mem_of_get hget))

theorem IdsOk.hosted_next {self : Server} (h : self.IdsOk) : self.hosted self.nextDocId = none := by
  cases hget : self.doc? self.nextDocId with
  | none => rw [hosted, hget]; rfl
  | some doc => exact absurd (h.lt_of_get hget) (Nat.lt_irrefl _)

theorem hosted_siteIdOf (self : Server) (host : ServerId) (d : DocId) :
    (self.siteIdOf host).2.hosted d = self.hosted d := hosted_of_docs (siteIdOf_docs self host) d

theorem hostStep_requestFile {os : Os} {before after : Server} (hids : before.IdsOk)
    {reqId : RequestId} {file : FileDesc} {host : ServerId} {mode : OpenMode}
    {effects : List Effect}
    (h : before.handleRequestFile os (some reqId) file host mode = (after, effects)) (d : DocId) :
    HostStep os before d
      (.message { host, body := .requestFile file mode, reqId := some reqId })
      (before.hosted d) (after.hosted d) (told d effects) := by
  have hsite := hosted_siteIdOf before host d
  have hdocs := siteIdOf_docs before host
  have hadd (doc : DocEntry) : ((before.siteIdOf host).2.addDoc doc).2.hosted d =
      if d = before.nextDocId then some doc.toDoc else before.hosted d := by
    refine (hosted_of_insert (show ((before.siteIdOf host).2.addDoc doc).2.docs = _ from rfl)
      d).trans ?_
    rw [hsite, nextDocId_siteIdOf]
  have hid (doc : DocEntry) : ((before.siteIdOf host).2.addDoc doc).1 = before.nextDocId :=
    nextDocId_siteIdOf before host
  simp only [handleRequestFile] at h
  split at h
  next => cases h; exact .of_same rfl rfl rfl
  next pathId _ =>
      split at h
      next => cases h; exact .of_same rfl hsite rfl
      next project path =>
          split at h
          next docId doc hfind =>
              cases h
              rw [hsite]
              have hmem := List.mem_of_find?_eq_some hfind
              rw [hdocs] at hmem
              by_cases hd : docId = d
              · subst hd
                rw [hosted_of_get (hids.get hmem), told_send_of_eq rfl, told_nil]
                exact .found
              · rw [told_send_of_ne (by simpa [Msg.told?] using hd), told_nil]
                exact .still rfl
          next =>
              split at h
              next =>
                  cases h
                  refine .of_same rfl hsite ?_
                  rw [told_append, told_fs]
                  rfl
              next content fullPath _ =>
                  cases h
                  rw [told_append, told_fs, List.nil_append]
                  rw [hadd, hid]
                  by_cases hd : d = before.nextDocId
                  · subst hd
                    rw [if_pos rfl, hids.hosted_next, told_send_of_eq rfl]
                    exact .made rfl
                  · rw [if_neg hd, told_send_of_ne (by simpa [Msg.told?] using Ne.symm hd)]
                    exact .still rfl

theorem told_openOwnDoc (self : Server) (reqId : RequestId) (docId d : DocId) (doc : DocEntry)
    (file : EditorFileDesc) : told d (self.openOwnDoc reqId docId doc file).2 = [] := rfl

theorem hosted_openOwnDoc (self : Server) (reqId : RequestId) (docId d : DocId) (doc : DocEntry)
    (file : EditorFileDesc) : (self.openOwnDoc reqId docId doc file).1.hosted d =
      if d = docId then
        some { doc.toDoc with subscribers := AssocMap.insert doc.subscribers self.hostId 0 }
      else self.hosted d :=
  hosted_of_insert (docs_openOwnDoc self reqId docId doc file).1 d

/-- The host's own copy is kept when there is one, and is added otherwise. -/
theorem remoteDocs_openOwnDoc (self : Server) (reqId : RequestId) (docId : DocId)
    (doc : DocEntry) (file : EditorFileDesc) :
    (self.openOwnDoc reqId docId doc file).1.remoteDocs =
      match self.remoteDocs.getByEditorDesc file with
      | some _ => self.remoteDocs
      | none => self.remoteDocs.insert self.hostId docId
          (self.ownRemoteDoc doc (FileDesc.from file)) file := by
  cases hkept : self.remoteDocs.getByEditorDesc file with
  | some kept => simp only [openOwnDoc, setDoc, hkept]
  | none =>
      simp only [openOwnDoc, setDoc, hkept]
      rfl

theorem hosted_addDoc (self : Server) (doc : DocEntry) (d : DocId) :
    (self.addDoc doc).2.hosted d =
      if d = self.nextDocId then some doc.toDoc else self.hosted d :=
  hosted_of_insert (show (self.addDoc doc).2.docs = _ from rfl) d

theorem hostStep_openFileFromEditor {os : Os} {before after : Server} (hids : before.IdsOk)
    {reqId : RequestId} {file : EditorFileDesc} {mode : OpenMode} {effects : List Effect}
    (h : before.openFileFromEditor os reqId file mode = (after, effects)) (d : DocId) :
    HostStep os before d (.request reqId (.openFile file mode)) (before.hosted d) (after.hosted d)
      (told d effects) := by
  simp only [openFileFromEditor] at h
  split at h
  next =>
      split at h
      next => cases h; exact .of_same rfl rfl rfl
      next =>
          split at h
          next => cases h; exact .of_same rfl rfl rfl
          next pathId _ =>
              split at h
              next docId doc hfind =>
                  have hget := hids.get (List.mem_reverse.mp (List.mem_of_find?_eq_some hfind))
                  have hhosted := hosted_openOwnDoc before reqId docId d doc file
                  have hquiet := told_openOwnDoc before reqId docId d doc file
                  rw [h] at hhosted hquiet
                  rw [hhosted, hquiet]
                  by_cases hd : d = docId
                  · subst hd
                    rw [if_pos rfl, hosted_of_get hget]
                    exact .openedOwn
                  · rw [if_neg hd]
                    exact .still rfl
              next =>
                  split at h
                  next =>
                      cases h
                      refine .of_same rfl rfl ?_
                      rw [told_append, told_fs]
                      rfl
                  next content fullPath _ =>
                      cases h
                      rw [told_append, told_fs, told_openOwnDoc, hosted_openOwnDoc, hosted_addDoc]
                      by_cases hd : d = before.nextDocId
                      · subst hd
                        rw [hids.hosted_next]
                        refine Eq.symm (if_pos rfl) ▸ ?_
                        exact .madeOwn rfl rfl
                      · rw [if_neg hd]
                        refine Eq.symm (if_neg hd) ▸ ?_
                        exact .still rfl
  next =>
      split at h <;> cases h <;> exact .of_same rfl rfl rfl

theorem hostStep_handleShareFileFromEditor {os : Os} {before after : Server}
    (hids : before.IdsOk) {reqId : RequestId} {filename content : Text} {effects : List Effect}
    (h : before.handleShareFileFromEditor os reqId filename content = (after, effects))
    (d : DocId) :
    HostStep os before d (.request reqId (.shareFile filename content)) (before.hosted d)
      (after.hosted d) (told d effects) := by
  simp only [handleShareFileFromEditor] at h
  split at h
  next => cases h; exact .of_same rfl rfl rfl
  next pathId _ =>
      split at h
      next => cases h; exact .of_same rfl rfl rfl
      next =>
          cases h
          rw [told_append, told_fs]
          show HostStep os before d _ (before.hosted d) ((before.addDoc _).2.hosted d) _
          rw [hosted_addDoc]
          by_cases hd : d = before.nextDocId
          · subst hd
            rw [if_pos rfl, hids.hosted_next]
            exact .madeOwn rfl rfl
          · rw [if_neg hd]
            exact .still rfl

/-! ## Changing and closing documents -/

theorem hostStep_resetDocFromDisk {os : Os} {before after : Server} (hids : before.IdsOk)
    {event : Event} {d : DocId} (unasked : event.asks d = false) {reqId : Option RequestId}
    {path : UnixPath.Path} {timestamp : Option Instant} {res : Except String Unit}
    {effects : List Effect}
    (h : before.resetDocFromDisk os reqId path timestamp = some (res, after, effects)) :
    HostStep os before d event (before.hosted d) (after.hosted d) (told d effects) := by
  simp only [resetDocFromDisk] at h
  split at h
  next => cases h; exact .of_same unasked rfl rfl
  next docId entry hfind =>
      have hget := hids.get (List.mem_of_find?_eq_some hfind)
      split at h
      next => cases h; exact .of_same unasked rfl rfl
      next =>
          split at h
          next => cases h; exact .of_same unasked rfl rfl
          next => cases h; exact .of_same unasked rfl rfl
          next newContent _ =>
              simp only [Option.bind_eq_bind, Option.bind_eq_some_iff, Prod.exists] at h
              obtain ⟨res', reset, happly, h⟩ := h
              -- What is sent about this document, and nothing about another.
              have hstep {told : List (ServerId × Msg)} (diskFile : Option UnixPath.Path)
                  (htold : told = [] ∨ ∃ processed, res' = .ok processed ∧
                    told = if docId = d then reset.tell d processed else [])
                  (hall : ∀ processed, res' = .ok processed → processed = [] ∨
                    told = if docId = d then reset.tell d processed else []) :
                  HostStep os before d event (before.hosted d)
                    ((before.setDoc docId
                      { entry with toDoc := reset, diskFile }).hosted d) told := by
                rw [hosted_setDoc]
                by_cases hd : d = docId
                · subst hd
                  rw [if_pos rfl, hosted_of_get hget]
                  simp only [if_true] at htold hall
                  exact .reset unasked happly htold hall
                · rw [if_neg hd]
                  have hquiet : told = [] := by
                    rcases htold with htold | ⟨_, _, htold⟩
                    · exact htold
                    · rw [htold, if_neg (Ne.symm hd)]
                  rw [hquiet]
                  exact .still unasked
              split at h
              next => cases h; exact hstep _ (.inl rfl) fun _ heq => by cases heq
              next processed =>
                  cases h
                  rw [told_append]
                  show HostStep os before d event _ _ (told d _)
                  split
                  next hnone =>
                      refine hstep _ (.inl rfl) fun processed heq => .inl ?_
                      dsimp only [Doc.resetFromDisk] at happly
                      rw [if_pos hnone] at happly
                      cases happly
                      exact (Except.ok.inj heq).symm
                  next =>
                      rw [told_broadcastOps]
                      exact hstep _ (.inr ⟨processed, rfl, rfl⟩) fun _ heq =>
                        .inr (Except.ok.inj heq ▸ rfl)

theorem hosted_moveFileOnDisk (os : Os) (self : Server) (project : ProjectId)
    (oldPath newPath : Text) (d : DocId) :
    (self.moveFileOnDisk os project oldPath newPath).2.1.hosted d = self.hosted d := by
  unfold moveFileOnDisk
  split
  next => rfl
  next =>
      dsimp only
      split
      next => rfl
      next => exact hosted_moveDocs ..

theorem hosted_saveFileToDisk (os : Os) (self : Server) (docId d : DocId) :
    (self.saveFileToDisk os docId).2.1.hosted d = self.hosted d := by
  unfold saveFileToDisk
  split
  next => rfl
  next doc hget =>
      dsimp only
      rw [hosted_setDoc]
      have hdoc : (doc.saveToDisk os).2.1.toDoc = doc.toDoc := by
        simp only [DocEntry.saveToDisk]
        split
        next => rfl
        next => split <;> rfl
      by_cases hd : d = docId
      · rw [if_pos hd, hd, hosted_of_get hget, hdoc]
      · rw [if_neg hd]

theorem Closes.hosted {docIds : List DocId} {before after : Server} (h : Closes docIds before after)
    (d : DocId) : after.hosted d = if d ∈ docIds then none else before.hosted d := by
  rw [Server.hosted, h.doc?]
  split <;> rfl

theorem hostStep_closes {os : Os} {before after : Server} {event : Event} {d : DocId}
    (unasked : event.asks d = false) (h : Closes (before.closing event) before after) :
    HostStep os before d event (before.hosted d) (after.hosted d) [] := by
  rw [h.hosted]
  by_cases hd : d ∈ before.closing event
  · rw [if_pos hd]
    cases before.hosted d with
    | none => exact .still unasked
    | some doc => exact .closed unasked hd
  · rw [if_neg hd]
    exact .still unasked

/-! ## All turns -/

/-- Messages about documents may be sent. -/
def speaks : Event → Bool
  | .message { body := .requestFile _ _, .. } => true
  | .message { body := .snapshot _, .. } => true
  | .message { body := .opFromClient _, .. } => true
  | .message { body := .opFromServer _ _, .. } => true
  | .message { body := .requestOps _ _, .. } => true
  | .message { body := .infoFromServer _, .. } => true
  | .message { body := .resetFromDisk _, .. } => true
  | .request _ (.openFile _ _) => true
  | .request _ (.sendOps _ _) => true
  | .request _ (.resetFromDisk _) => true
  | .request _ (.disconnectFromFile _) => true
  | .fileChanged _ _ => true
  | _ => false

theorem docMsgs_map {α : Type} {f : α → Effect} (h : ∀ a, (f a).docMsg? = none) (as : List α) :
    docMsgs (as.map f) = [] := by
  refine docMsgs_eq_nil.mpr fun e he => ?_
  obtain ⟨a, _, rfl⟩ := List.mem_map.mp he
  exact h a

theorem quiet_handleCloseFileLocally (os : Os) (self : Server) (file : FileDesc)
    (delete : Bool) : docMsgs (self.handleCloseFileLocally os file delete).2.2 = [] := by
  unfold handleCloseFileLocally
  split
  next => rfl
  next =>
      dsimp only
      split
      next => exact docMsgs_fs _
      next =>
          rw [docMsgs_append, docMsgs_fs]
          rfl

theorem quiet_closedMsg (host : ServerId) (reqId : Option RequestId) (file : FileDesc)
    (delete : Bool) : (Effect.send host reqId (closedMsg file delete)).docMsg? = none := by
  cases delete <;> rfl

theorem quiet_handleCloseFileFromRemote {os : Os} {before after : Server}
    {reqId : Option RequestId} {file : FileDesc} {requester : ServerId} {delete : Bool}
    {effects : List Effect}
    (h : before.handleCloseFileFromRemote os reqId file requester delete = (after, effects)) :
    docMsgs effects = [] := by
  simp only [handleCloseFileFromRemote] at h
  split at h
  next => cases h; rfl
  next =>
      split at h
      next =>
          cases h
          rw [docMsgs_append, quiet_handleCloseFileLocally]
          rfl
      next =>
          cases h
          rw [docMsgs_append, docMsgs_append, quiet_handleCloseFileLocally, List.nil_append]
          refine List.append_eq_nil_iff.mpr ⟨docMsgs_eq_nil.mpr fun e he => ?_, ?_⟩
          · obtain ⟨subscriber, _, hsome⟩ := List.mem_filterMap.mp he
            split at hsome
            next => cases hsome; exact quiet_closedMsg ..
            next =>
                split at hsome
                next => cases hsome; exact quiet_closedMsg ..
                next => cases hsome
          · split
            next => rfl
            next => exact docMsgs_eq_nil.mpr fun e he => by
                      cases List.mem_singleton.mp he
                      exact quiet_closedMsg ..

theorem quiet_handleCloseFileFromEditor {os : Os} {before after : Server} {reqId : RequestId}
    {file : EditorFileDesc} {delete : Bool} {effects : List Effect}
    (h : before.handleCloseFileFromEditor os reqId file delete = (after, effects)) :
    docMsgs effects = [] := by
  simp only [handleCloseFileFromEditor] at h
  split at h
  next => cases h; rfl
  next =>
      split at h
      next =>
          cases h
          rw [docMsgs_append, quiet_handleCloseFileLocally]
          rfl
      next =>
          cases h
          rw [docMsgs_append, docMsgs_append, quiet_handleCloseFileLocally]
          exact docMsgs_map (fun _ => quiet_closedMsg ..) _

/-- The other turns send no message about a document. -/
theorem Handled.quiet {os : Os} {before after : Server} {event : Event} {effects : List Effect}
    (h : Handled os before event after effects) (hspeaks : speaks event = false) :
    docMsgs effects = [] := by
  cases h with
  | requestFile h | snapshot h | opFromClient h | opFromServer h | requestOps h | strayInfo h
  | resetFromDisk allowed h | openFile h | sendOps h | resetFromDiskFromEditor h
  | disconnectFromFile h | fileChanged h => cases hspeaks
  | idle away tables quiet => exact quiet
  | noted tables quiet still => exact quiet
  | hey h =>
      cases h
      rw [docMsgs_append]
      split <;> rfl
  | listFiles reply snap =>
      rw [docMsgs_append, docMsgs_fs]
      exact docMsgs_eq_nil.mpr fun e he => by
        cases List.mem_singleton.mp he
        exact snap
  | makeDirectory allowed h =>
      simp only [handleMakeDirectory] at h
      split at h
      next => cases h; rfl
      next =>
          cases h
          rw [docMsgs_append, docMsgs_fs]
          split <;> rfl
  | moveFile allowed h =>
      simp only [handleMoveFile] at h
      split at h
      next =>
          cases h
          rw [docMsgs_append, docMsgs_fs]
          rfl
      next =>
          cases h
          rw [docMsgs_append, docMsgs_fs]
          exact docMsgs_map (fun _ => rfl) _
  | saveFile allowed h =>
      cases h
      rw [docMsgs_append, docMsgs_fs]
      split <;> rfl
  | stopSendingOps h =>
      unfold handleStopSendingOps at h
      split at h <;> cases h <;> rfl
  | closeFile h => exact quiet_handleCloseFileFromRemote h
  | docFatal h => cases h; rfl
  | shareFile h =>
      simp only [handleShareFileFromEditor] at h
      split at h
      next => cases h; rfl
      next =>
          split at h
          next => cases h; rfl
          next =>
              cases h
              rw [docMsgs_append, docMsgs_fs]
              rfl
  | moveFileFromEditor h =>
      simp only [handleMoveFileFromEditor] at h
      split at h
      next => cases h; rfl
      next =>
          split at h
          next =>
              cases h
              rw [docMsgs_append, docMsgs_fs]
              rfl
          next =>
              cases h
              rw [docMsgs_append, docMsgs_append, docMsgs_fs]
              exact docMsgs_map (fun _ => rfl) _
  | saveFileFromEditor h =>
      simp only [handleSaveFileFromEditor] at h
      split at h
      next => split at h <;> cases h <;> rfl
      next =>
          split at h
          next => cases h; rfl
          next =>
              cases h
              rw [docMsgs_append, docMsgs_fs]
              rfl
  | closeFileFromEditor h => exact quiet_handleCloseFileFromEditor h
  | deleteFileFromEditor h => exact quiet_handleCloseFileFromEditor h
  | declareProjects h =>
      unfold handleDeclareProjects at h
      split at h
      next => cases h; rfl
      next => split at h <;> cases h <;> rfl

theorem told_handleOpFromServer {before after : Server} {reqId : Option RequestId}
    {docId : DocId} {ops : List (FatOp Op)} {host : ServerId} {effects : List Effect}
    (h : before.handleOpFromServer reqId docId ops host = (after, effects)) (d : DocId) :
    told d effects = [] := by
  have hasked (asked : List GlobalSeq) : told d (asked.map fun after =>
      Effect.send host reqId (.requestOps docId after)) = [] :=
    told_eq_nil fun _ _ _ hmem => by
      obtain ⟨_, _, heq⟩ := List.mem_map.mp hmem
      cases heq
      rfl
  simp only [handleOpFromServer] at h
  split at h
  next => cases h; rfl
  next =>
      split at h
      next => cases h; rfl
      next =>
          split at h
          next =>
              cases h
              rw [told_append, hasked]
              rfl
          next =>
              cases h
              rw [told_append, hasked]
              split
              next => split <;> rfl
              next => rfl

/-- What a turn does to a document of the host. -/
theorem Handled.hostStep {os : Os} {before after : Server} {event : Event} {effects : List Effect}
    (h : Handled os before event after effects) (hids : before.IdsOk) (d : DocId) :
    HostStep os before d event (before.hosted d) (after.hosted d) (told d effects) := by
  have hquiet (hspeaks : speaks event = false) : told d effects = [] :=
    told_of_quiet (h.quiet hspeaks) d
  cases h with
  | idle away tables quiet =>
      refine .of_same ?_ (hosted_of_docs (docs_of_tables tables) d) (told_of_quiet quiet d)
      cases event <;> first | rfl | cases away
  | noted tables quiet still plain =>
      refine .of_same ?_ (hosted_of_docs (docs_of_tables tables) d) (told_of_quiet quiet d)
      simp [Event.asks, plain]
  | opFromClient h => exact hostStep_opFromClient os h d
  | requestOps h => exact hostStep_requestOps os h d
  | stopSendingOps h => exact hostStep_stopSendingOps os h d
  | requestFile h => exact hostStep_requestFile hids h d
  | openFile h => exact hostStep_openFileFromEditor hids h d
  | shareFile h => exact hostStep_handleShareFileFromEditor hids h d
  | fileChanged h => exact hostStep_resetDocFromDisk hids rfl h
  | resetFromDisk allowed h =>
      simp only [handleResetFromDisk] at h
      split at h
      next => cases h; exact .of_same rfl rfl rfl
      next =>
          simp only [Option.bind_eq_bind, Option.bind_eq_some_iff, Prod.exists] at h
          obtain ⟨res, reset, effects', hreset, h⟩ := h
          split at h
          next =>
              cases h
              rw [told_append]
              exact (List.append_nil (told d effects')).symm ▸
                hostStep_resetDocFromDisk hids rfl hreset
          next => cases h; exact hostStep_resetDocFromDisk hids rfl hreset
  | resetFromDiskFromEditor h =>
      simp only [handleResetFromDiskFromEditor] at h
      split at h
      next => split at h <;> cases h <;> exact .of_same rfl rfl rfl
      next =>
          split at h
          next => cases h; exact .of_same rfl rfl rfl
          next =>
              split at h
              next => cases h; exact .of_same rfl rfl rfl
              next =>
                  simp only [Option.bind_eq_bind, Option.bind_eq_some_iff, Prod.exists] at h
                  obtain ⟨res, reset, effects', hreset, h⟩ := h
                  cases h
                  rw [told_append]
                  exact (List.append_nil (told d effects')).symm ▸
                    hostStep_resetDocFromDisk hids rfl hreset
  | moveFile allowed h =>
      simp only [handleMoveFile] at h
      split at h <;> cases h <;>
        exact .of_same rfl (hosted_moveFileOnDisk ..) (hquiet rfl)
  | moveFileFromEditor h =>
      simp only [handleMoveFileFromEditor] at h
      split at h
      next => cases h; exact .of_same rfl rfl rfl
      next =>
          split at h <;> cases h <;>
            exact .of_same rfl (hosted_moveFileOnDisk ..) (hquiet rfl)
  | saveFile allowed h =>
      cases h
      exact .of_same rfl (hosted_saveFileToDisk ..) (hquiet rfl)
  | saveFileFromEditor h =>
      simp only [handleSaveFileFromEditor] at h
      split at h
      next => split at h <;> cases h <;> exact .of_same rfl rfl rfl
      next =>
          split at h
          next => cases h; exact .of_same rfl rfl rfl
          next =>
              cases h
              exact .of_same rfl (hosted_saveFileToDisk ..) (hquiet rfl)
  | closeFile h =>
      rw [hquiet rfl]
      exact hostStep_closes rfl (closes_handleCloseFileFromRemote h)
  | closeFileFromEditor h =>
      rw [hquiet rfl]
      exact hostStep_closes rfl (closes_handleCloseFileFromEditor h)
  | deleteFileFromEditor h =>
      rw [hquiet rfl]
      exact hostStep_closes rfl (closes_handleCloseFileFromEditor h)
  | hey h =>
      cases h
      exact .of_same rfl rfl (hquiet rfl)
  | strayInfo stray => exact .of_same rfl rfl rfl
  | listFiles reply snap =>
      exact .of_same rfl rfl (hquiet rfl)
  | makeDirectory allowed h =>
      unfold handleMakeDirectory at h
      split at h <;> cases h <;> exact .of_same rfl rfl (hquiet rfl)
  | declareProjects h =>
      obtain ⟨projects, rfl⟩ := after_handleDeclareProjects h
      exact .of_same rfl rfl (hquiet rfl)
  | docFatal h => cases h; exact .of_same rfl rfl rfl
  | snapshot h =>
      unfold handleSnapshot at h
      split at h <;> cases h <;> exact .of_same rfl rfl rfl
  | opFromServer h =>
      obtain ⟨hdocs, _⟩ := docs_handleOpFromServer before ..
      rw [h] at hdocs
      exact .of_same rfl (hosted_of_docs hdocs d) (told_handleOpFromServer h d)
  | sendOps h =>
      simp only [handleSendOpsFromEditor] at h
      split at h
      next => cases h; exact .of_same rfl rfl rfl
      next =>
          simp only [Option.bind_eq_bind, Option.bind_eq_some_iff, Prod.exists] at h
          obtain ⟨res, doc, _, h⟩ := h
          split at h
          next => cases h; exact .of_same rfl rfl rfl
          next contextOps _ =>
              cases h
              refine .of_same rfl rfl ?_
              cases contextOps <;> rfl
  | disconnectFromFile h =>
      unfold handleDisconnectFromFile at h
      split at h <;> cases h <;> exact .of_same rfl rfl rfl

end Server

end CollabMode
