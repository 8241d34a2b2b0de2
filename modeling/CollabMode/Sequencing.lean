import CollabMode.Lib.Sessions
import CollabMode.Subscriptions

/-!
# The numbers of a client's ops

A host keeps the number of the last op it has accepted from each subscriber of a document, and
refuses a batch that does not go on from there.  A client numbers its ops anew with every engine
it makes, and the host sets its number to 0 when it is asked for ops.  A client also asks when it
finds a gap, in the middle of a session, and the host's own editor may open a document again.

`Watch` adds to a network the books that the two ends do not keep: which engine of the client a
message on the wire is from, and the number of the last op the host has accepted of each.
-/

namespace CollabMode

open Sessions

/-! ## What a client sends -/

namespace ClientEngine

/-- The ops that wait have numbers above 0. -/
def Numbered (self : ClientEngine) : Prop := ∀ op ∈ self.gh.localOps, 0 < op.siteSeq

variable {eng eng' : ClientEngine}

theorem LocalStep.numbered {editorOp : EditorFatOp} {siteSeq : LocalSeq} {ops : List Op}
    {instrs : List EditInstruction} {doc : InternalDoc} {gh : GlobalHistory}
    (h : eng.LocalStep editorOp siteSeq ops instrs doc gh eng') (heng : eng.Numbered) :
    eng'.Numbered := by
  obtain ⟨-, new, hlocal, -, hseqs⟩ := GlobalHistory.recordOps_ok h.records
  rw [h.result, Numbered]
  show ∀ op ∈ gh.localOps, 0 < op.siteSeq
  rw [hlocal]
  refine List.forall_mem_append.mpr ⟨heng, fun op hop => ?_⟩
  rw [hseqs op hop, h.siteSeq_eq]
  exact Nat.succ_pos _

theorem AckStep.numbered {op localOp : FatOp Op} {localOps : List (FatOp Op)}
    (h : eng.AckStep op localOp localOps eng') (heng : eng.Numbered) : eng'.Numbered := by
  rw [Numbered, h.localOps_eq] at heng
  rw [h.result]
  exact (List.forall_mem_cons.mp heng).2

theorem ForeignStep.numbered {op : FatOp Op} {instr : EditInstruction} {doc : InternalDoc}
    (h : eng.ForeignStep op instr doc eng') (heng : eng.Numbered) : eng'.Numbered := by
  have hseqs : eng'.gh.localOps.map FatOp.siteSeq = eng.gh.localOps.map FatOp.siteSeq := by
    rw [h.result, map_bumpUndoDeltas fun _ _ => rfl, FatOp.keeps_siteSeq.past]
  intro op' hop
  have hmem : op'.siteSeq ∈ eng.gh.localOps.map FatOp.siteSeq := hseqs ▸ List.mem_map_of_mem hop
  obtain ⟨localOp, hlocal, heq⟩ := List.mem_map.mp hmem
  exact heq ▸ heng localOp hlocal

end ClientEngine

namespace RemoteDoc

open ClientEngine

/-- What the steps of the engine keep is kept when the editor sends ops, up to the batch. -/
theorem sendOps_engine {P : ClientEngine → Prop}
    (hlocal : ∀ eng editorOp siteSeq ops instrs doc gh eng',
      eng.LocalStep editorOp siteSeq ops instrs doc gh eng' → P eng → P eng')
    {self self' : RemoteDoc} {docId : DocId} {ops : List EditorFatOp}
    {leanOps : List EditorLeanOp} {batch : Option ContextOps}
    (hack : ∀ eng op localOp localOps eng', op ∈ self.remoteOpBuffer →
      op.seq = some (eng.currentSeq + 1) → eng.AckStep op localOp localOps eng' → P eng → P eng')
    (hforeign : ∀ eng op instr doc eng', op ∈ self.remoteOpBuffer →
      op.seq = some (eng.currentSeq + 1) → eng.ForeignStep op instr doc eng' → P eng → P eng')
    (h : self.sendOps docId ops = some (.ok (leanOps, batch), self')) (hP : P self.engine) :
    ∃ eng, P eng ∧ eng.maybePackageLocalOps docId = (batch, self'.engine) := by
  have hedited {ops : List EditorFatOp} {self self' : RemoteDoc} (hP : P self.engine)
      (h : processEditorOps ops self = some (.ok (), self')) : P self'.engine := by
    induction ops generalizing self with
    | nil => cases h; exact hP
    | cons op ops ih =>
        simp only [processEditorOps, Option.bind_eq_bind, Option.bind_eq_some_iff] at h
        obtain ⟨⟨res, self₁⟩, hone, h⟩ := h
        cases res with
        | error err => cases h
        | ok u =>
            obtain ⟨_, _, _, _, engine, _, hstep, _, rfl⟩ := processEditorOp_ok hone
            exact ih (hlocal _ _ _ _ _ _ _ _ hstep hP) h
  have hreceived {ops : List (FatOp Op)} {doc doc' : RemoteDoc} {leanOps : List EditorLeanOp}
      (hops : ∀ op ∈ ops, op ∈ self.remoteOpBuffer) (hP : P doc.engine)
      (h : processServerOps ops doc = some (.ok leanOps, doc')) : P doc'.engine := by
    induction ops generalizing doc leanOps with
    | nil => cases h; exact hP
    | cons op ops ih =>
        obtain ⟨hop, hops⟩ := List.forall_mem_cons.mp hops
        simp only [processServerOps, Option.bind_eq_bind, Option.bind_eq_some_iff] at h
        obtain ⟨⟨res, doc₁⟩, hone, h⟩ := h
        cases res with
        | error err => cases h
        | ok leanOps₁ =>
            simp only [Option.bind_eq_some_iff] at h
            obtain ⟨⟨res, doc₂⟩, hall, h⟩ := h
            cases res with
            | error err => cases h
            | ok leanOps₂ =>
                cases h
                obtain ⟨hseq, ⟨_, _, _, _, hstep, rfl⟩ | ⟨_, _, _, _, _, hstep, _, rfl⟩⟩ :=
                  processServerOp_ok hone
                · exact ih hops (hack _ _ _ _ _ hop hseq hstep hP) hall
                · exact ih hops (hforeign _ _ _ _ _ hop hseq hstep hP) hall
  obtain ⟨edited, received, engine, hedit, hserver, hpackage, rfl⟩ := sendOps_stages h
  have hP : P ({ self with remoteOpBuffer := [] } : RemoteDoc).engine := hP
  exact ⟨received.engine, hreceived (fun _ hop => hop) (hedited hP hedit) hserver, hpackage⟩

/-- A batch goes on from the last op that was sent. -/
structure GoesOn (batch : ContextOps) (docId : DocId) (sent sent' : LocalSeq) : Prop where
  doc : batch.doc = docId
  first : ∃ op, batch.ops.head? = some op ∧ op.siteSeq = sent + 1
  last : ∃ op, batch.ops.getLast? = some op ∧ op.siteSeq = sent'
  pos : 0 < sent'

/-- What the editor's ops do to the numbers of an engine. -/
theorem sendOps_sent {self self' : RemoteDoc} {docId : DocId} {ops : List EditorFatOp}
    {leanOps : List EditorLeanOp} {batch : Option ContextOps}
    (h : self.sendOps docId ops = some (.ok (leanOps, batch), self'))
    (hself : self.engine.Numbered) :
    self'.engine.Numbered ∧
      match batch with
      | none => self'.engine.lastSiteSeqSentOut = self.engine.lastSiteSeqSentOut
      | some batch => GoesOn batch docId self.engine.lastSiteSeqSentOut
          self'.engine.lastSiteSeqSentOut := by
  obtain ⟨eng, ⟨hnumbered, hsent⟩, hpackage⟩ :=
    sendOps_engine
      (P := fun eng => eng.Numbered ∧ eng.lastSiteSeqSentOut = self.engine.lastSiteSeqSentOut)
      (fun _ _ _ _ _ _ _ _ hstep hP => ⟨hstep.numbered hP.1, by rw [hstep.result]; exact hP.2⟩)
      (fun _ _ _ _ _ _ _ hstep hP => ⟨hstep.numbered hP.1, by rw [hstep.result]; exact hP.2⟩)
      (fun _ _ _ _ _ _ _ hstep hP => ⟨hstep.numbered hP.1, by rw [hstep.result]; exact hP.2⟩)
      h ⟨hself, rfl⟩
  rw [maybePackageLocalOps_eq] at hpackage
  split at hpackage
  next first last hfirst hlast =>
      split at hpackage
      next hnext =>
          obtain ⟨rfl, hengine⟩ := Prod.mk.inj hpackage
          rw [← hengine]
          refine ⟨hnumbered, rfl, ⟨first, hfirst, hsent ▸ hnext⟩, ⟨last, hlast, rfl⟩, ?_⟩
          exact hnumbered last (List.mem_of_getLast? hlast)
      next =>
          obtain ⟨rfl, hengine⟩ := Prod.mk.inj hpackage
          rw [← hengine]
          exact ⟨hnumbered, hsent⟩
  next =>
      obtain ⟨rfl, hengine⟩ := Prod.mk.inj hpackage
      rw [← hengine]
      exact ⟨hnumbered, hsent⟩

end RemoteDoc

/-- The number of the last op that the client of a copy has sent. -/
def RemoteDocEntry.sent (self : RemoteDocEntry) : LocalSeq := self.engine.lastSiteSeqSentOut

/-- What a client asks its host, and what it has sent before and after that. -/
inductive CopySends (d : DocId) : Option LocalSeq → Option LocalSeq → List Msg → Prop where
  | asks {sent : Option LocalSeq} {seqs : List GlobalSeq} :
      CopySends d sent sent (seqs.map (.requestOps d))
  | leaves {sent : Option LocalSeq} {msgs : List Msg}
      (plain : ∀ msg ∈ msgs, ∀ ops, msg ≠ .opFromClient ops) : CopySends d sent none msgs
  | opens {sent : Option LocalSeq} {seq : GlobalSeq} : CopySends d sent (some 0) [.requestOps d seq]
  | batch {n n' : LocalSeq} {batch : ContextOps} (next : RemoteDoc.GoesOn batch d n n') :
      CopySends d (some n) (some n') [.opFromClient batch]

theorem CopySends.idle {d : DocId} {sent : Option LocalSeq} : CopySends d sent sent [] :=
  show CopySends d sent sent (([] : List GlobalSeq).map (.requestOps d)) from .asks

namespace RemoteDoc

/-- The copy without the ops that it keeps. -/
def bare (self : RemoteDoc) : RemoteDoc := { self with remoteOpBuffer := [] }

theorem bare_of_keepServerOps {ops : List (FatOp Op)} {self doc : RemoteDoc} {numbered : Bool}
    {asks : List GlobalSeq} (h : keepServerOps ops self = (numbered, asks, doc)) :
    doc.bare = self.bare := by
  induction ops generalizing self asks with
  | nil => cases h; rfl
  | cons op ops ih =>
      simp only [keepServerOps] at h
      split at h
      next => cases h; rfl
      next =>
          split at h
          next => exact ih h
          next =>
              split at h
              next =>
                  generalize hkeep : keepServerOps ops self = kept at h
                  obtain ⟨numbered', asks', doc'⟩ := kept
                  cases h
                  exact ih hkeep
              next => exact (ih h :)

theorem engine_of_keepServerOps {ops : List (FatOp Op)} {self doc : RemoteDoc} {numbered : Bool}
    {asks : List GlobalSeq} (h : keepServerOps ops self = (numbered, asks, doc)) :
    doc.engine = self.engine := by
  have hbare := congrArg RemoteDoc.engine (bare_of_keepServerOps h)
  exact hbare

end RemoteDoc

namespace Server

/-- The document that a request of the own editor opens. -/
def opening (self : Server) : Event → Option DocId
  | .request _ (.openFile file _) =>
      if self.hostId = file.hostId ∧ file.isProject = false then
        match self.pathIdFromFileDesc (FileDesc.from file) with
        | .error _ => none
        | .ok pathId =>
            match self.docs.reverse.find? fun entry => entry.2.matches pathId with
            | some (docId, _) => some docId
            | none => some self.nextDocId
      else none
  | .request _ (.shareFile _ _) => some self.nextDocId
  | _ => none

/-- The editor has opened the file before, and gets no new copy. -/
def keepsCopy (self : Server) : Event → Bool
  | .request _ (.openFile file _) => (self.remoteDocs.getByEditorDesc file).isSome
  | _ => false

/-- The number of the last op that was accepted from a peer. -/
def recordedOf (self : Server) (p : ServerId) (d : DocId) : Option LocalSeq :=
  (self.hosted d).bind fun doc => AssocMap.get doc.subscribers p

/-- What a request of the own editor that opens files does to a document and to the own copy. -/
inductive OpenStep (before after : Server) (event : Event) (d : DocId) : Prop where
  | still (hosted : after.hosted d = before.hosted d)
      (copy : after.remoteDocs.get before.hostId d = before.remoteDocs.get before.hostId d)
  | kept (opens : before.opening event = some d) (keeps : before.keepsCopy event = true)
      (recorded : after.recordedOf before.hostId d = some 0)
      (copy : after.remoteDocs.get before.hostId d = before.remoteDocs.get before.hostId d)
  | opened (opens : before.opening event = some d) (keeps : before.keepsCopy event = false)
      (recorded : after.recordedOf before.hostId d = some 0) (doc : Doc)
      (hosted : after.hosted d = some doc) (entry : RemoteDocEntry)
      (copy : after.remoteDocs.get before.hostId d = some entry) (internalDoc : InternalDoc)
      (made : entry.toRemoteDoc = RemoteDoc.new doc.buffer
        (ClientEngine.new before.siteId doc.engine.currentSeq internalDoc))
      (internal : internalDoc = doc.engine.internalDoc ∨
        d = before.nextDocId ∧ internalDoc = InternalDoc.new doc.buffer.length)

theorem openStep_openOwnDoc {before self : Server} (hself : self.hostId = before.hostId)
    (hsite : self.siteId = before.siteId) (hcopies : self.remoteDocs = before.remoteDocs)
    (reqId : RequestId) {reqId' : RequestId}
    {docId : DocId} (doc : DocEntry) {file : EditorFileDesc} {mode : OpenMode}
    (hopens : before.opening (.request reqId' (.openFile file mode)) = some docId)
    {d : DocId} (hhosted : d ≠ docId → self.hosted d = before.hosted d) :
    OpenStep before (self.openOwnDoc reqId docId doc file).1
      (.request reqId' (.openFile file mode)) d := by
  have hafter := hosted_openOwnDoc self reqId docId d doc file
  have hcopy := remoteDocs_openOwnDoc self reqId docId doc file
  rw [hcopies, hself] at hcopy
  by_cases hd : d = docId
  · subst hd
    rw [if_pos rfl] at hafter
    have hrecorded : (self.openOwnDoc reqId d doc file).1.recordedOf before.hostId d = some 0 := by
      rw [recordedOf, hafter, ← hself]
      exact AssocMap.get_insert_self ..
    cases hdesc : before.remoteDocs.getByEditorDesc file with
    | some found =>
        rw [hdesc] at hcopy
        exact .kept hopens (by rw [keepsCopy, hdesc]; rfl) hrecorded (by rw [hcopy])
    | none =>
        rw [hdesc] at hcopy
        refine .opened hopens (by rw [keepsCopy, hdesc]; rfl) hrecorded _ hafter
          (self.ownRemoteDoc doc (FileDesc.from file)) ?_ doc.engine.internalDoc
          (by rw [ownRemoteDoc, hsite]) (.inl rfl)
        rw [hcopy]
        exact AssocMap.get_insert_self ..
  · rw [if_neg hd, hhosted hd] at hafter
    refine .still hafter ?_
    rw [hcopy]
    split
    next => rfl
    next =>
        rw [RemoteDocs.get_insert, if_neg]
        exact fun heq => hd (Prod.mk.inj heq).2

variable {os : Os} {before after : Server} {effects : List Effect}

theorem openStep_openFileFromEditor {reqId : RequestId} {file : EditorFileDesc} {mode : OpenMode}
    (hturn : before.openFileFromEditor os reqId file mode = (after, effects)) (d : DocId) :
    OpenStep before after (.request reqId (.openFile file mode)) d := by
  have hadd (doc : DocEntry)
      (hopens : before.opening (.request reqId (.openFile file mode)) = some before.nextDocId) :
      OpenStep before
        ((before.addDoc doc).2.openOwnDoc reqId (before.addDoc doc).1 doc file).1
        (.request reqId (.openFile file mode)) d := by
    refine @openStep_openOwnDoc before (before.addDoc doc).2 rfl rfl rfl reqId reqId
      before.nextDocId doc file mode hopens d fun hd => ?_
    rw [hosted_addDoc]
    exact if_neg hd
  simp only [openFileFromEditor] at hturn
  split at hturn
  next hown =>
      split at hturn
      next => cases hturn; exact .still rfl rfl
      next hfile =>
          have hopening : before.opening (.request reqId (.openFile file mode)) =
              match before.pathIdFromFileDesc (FileDesc.from file) with
              | .error _ => none
              | .ok pathId =>
                  match before.docs.reverse.find? fun entry => entry.2.matches pathId with
                  | some (docId, _) => some docId
                  | none => some before.nextDocId := if_pos ⟨hown, by simpa using hfile⟩
          split at hturn
          next => cases hturn; exact .still rfl rfl
          next pathId hpath =>
              rw [hpath] at hopening
              dsimp only at hopening
              split at hturn
              next docId doc hfind =>
                  rw [hfind] at hopening
                  have hstep : OpenStep before (before.openOwnDoc reqId docId doc file).1
                      (.request reqId (.openFile file mode)) d :=
                    openStep_openOwnDoc rfl rfl rfl reqId doc hopening fun _ => rfl
                  rw [hturn] at hstep
                  exact hstep
              next hfind =>
                  rw [hfind] at hopening
                  split at hturn
                  next => cases hturn; exact .still rfl rfl
                  next =>
                      cases hturn
                      exact hadd _ hopening
  next =>
      split at hturn <;> cases hturn <;> exact .still rfl rfl

theorem openStep_handleShareFileFromEditor {reqId : RequestId} {filename content : Text}
    (hturn : before.handleShareFileFromEditor os reqId filename content = (after, effects))
    (d : DocId) : OpenStep before after (.request reqId (.shareFile filename content)) d := by
  have hmake (doc : DocEntry) (entry : RemoteDocEntry) (file : EditorFileDesc)
      (hsubscribers : doc.subscribers = [(before.hostId, 0)])
      (hmade : entry.toRemoteDoc = RemoteDoc.new doc.buffer
        (ClientEngine.new before.siteId doc.engine.currentSeq
          (InternalDoc.new doc.buffer.length))) :
      OpenStep before { (before.addDoc doc).2 with
          remoteDocs := before.remoteDocs.insert before.hostId before.nextDocId entry file }
        (.request reqId (.shareFile filename content)) d := by
    have hhosted := hosted_addDoc before doc d
    by_cases hd : d = before.nextDocId
    · subst hd
      rw [if_pos rfl] at hhosted
      refine .opened rfl rfl ?_ doc.toDoc hhosted entry (AssocMap.get_insert_self ..) _ hmade
        (.inr ⟨rfl, rfl⟩)
      show Option.bind ((before.addDoc doc).2.hosted before.nextDocId) _ = some 0
      rw [hhosted, Option.bind_some, hsubscribers]
      exact if_pos rfl
    · rw [if_neg hd] at hhosted
      refine .still hhosted ?_
      rw [RemoteDocs.get_insert, if_neg]
      exact fun heq => hd (Prod.mk.inj heq).2
  simp only [handleShareFileFromEditor] at hturn
  split at hturn
  next => cases hturn; exact .still rfl rfl
  next =>
      split at hturn
      next => cases hturn; exact .still rfl rfl
      next =>
          cases hturn
          exact hmake _ _ _ rfl rfl

/-! ## What the ends of a session do -/

/-- A request to open or share a file. -/
def opensFile : Event → Bool
  | .request _ (.openFile _ _) => true
  | .request _ (.shareFile _ _) => true
  | _ => false

theorem Handled.openStep {event : Event} (hturn : Handled os before event after effects)
    (hopens : opensFile event = true) (d : DocId) : OpenStep before after event d := by
  cases hturn with
  | openFile hturn => exact openStep_openFileFromEditor hturn d
  | shareFile hturn => exact openStep_handleShareFileFromEditor hturn d
  | idle away tables quiet =>
      exact .still (hosted_of_docs (docs_of_tables tables) d) (by rw [remoteDocs_of_tables tables])
  | _ => cases hopens

/-- The other requests make no copy. -/
theorem Handled.copy_of_request {reqId : RequestId} {req : Request}
    (hturn : Handled os before (.request reqId req) after effects)
    (hopens : opensFile (.request reqId req) = false) (hsend : ∀ ops file, req ≠ .sendOps ops file)
    (h : ServerId) (d : DocId) :
    after.remoteDocs.get h d = before.remoteDocs.get h d ∨ after.remoteDocs.get h d = none := by
  have hclose {closed : Prop} [Decidable closed] (hcopy : after.remoteDocs.get h d =
      if closed then none else before.remoteDocs.get h d) :
      after.remoteDocs.get h d = before.remoteDocs.get h d ∨ after.remoteDocs.get h d = none := by
    rw [hcopy]
    split
    next => exact .inr rfl
    next => exact .inl rfl
  have hstep := hturn.clientStep h d
  cases hturn with
  | idle away tables quiet => exact .inl (by rw [remoteDocs_of_tables tables])
  | openFile | shareFile => cases hopens
  | sendOps => exact absurd rfl (hsend _ _)
  | moveFileFromEditor hturn =>
      simp only [handleMoveFileFromEditor] at hturn
      split at hturn
      next => cases hturn; exact .inl rfl
      next => split at hturn <;> cases hturn <;> exact .inl (by rw [remoteDocs_moveFileOnDisk])
  | saveFileFromEditor hturn =>
      simp only [handleSaveFileFromEditor] at hturn
      split at hturn
      next => split at hturn <;> cases hturn <;> exact .inl rfl
      next =>
          split at hturn
          next => cases hturn; exact .inl rfl
          next => cases hturn; exact .inl (by rw [remoteDocs_saveFileToDisk])
  | resetFromDiskFromEditor hturn =>
      simp only [handleResetFromDiskFromEditor] at hturn
      split at hturn
      next => split at hturn <;> cases hturn <;> exact .inl rfl
      next =>
          split at hturn
          next => cases hturn; exact .inl rfl
          next =>
              split at hturn
              next => cases hturn; exact .inl rfl
              next =>
                  simp only [Option.bind_eq_bind, Option.bind_eq_some_iff, Prod.exists] at hturn
                  obtain ⟨res, reset, effects', hreset, hturn⟩ := hturn
                  cases hturn
                  exact .inl (by rw [(remoteDocs_resetDocFromDisk hreset).1])
  | disconnectFromFile hturn =>
      unfold handleDisconnectFromFile at hturn
      split at hturn
      next docId entry hdesc =>
          cases hturn
          exact hclose (RemoteDocs.get_removeByEditorDesc hdesc h d)
      next => cases hturn; exact .inl rfl
  | closeFileFromEditor hturn => exact hclose (get_handleCloseFileFromEditor hturn h d)
  | deleteFileFromEditor hturn => exact hclose (get_handleCloseFileFromEditor hturn h d)
  | declareProjects hturn =>
      obtain ⟨projects, rfl⟩ := after_handleDeclareProjects hturn
      exact .inl rfl

/-- The ops of the editor are taken by the copy, or end it. -/
theorem copy_of_sendOps {reqId : RequestId} {ops : List EditorFatOp} {file : EditorFileDesc}
    (hturn : before.handleSendOpsFromEditor reqId ops file = some (after, effects))
    (h : ServerId) (d : DocId) :
    after.remoteDocs.get h d = before.remoteDocs.get h d ∧ asked h d effects = [] ∨
      after.remoteDocs.get h d = none ∧ asked h d effects = [] ∨
      ∃ entry leanOps batch doc, file.hostId = h ∧
        before.remoteDocs.getByEditorDesc file = some (d, entry) ∧
        before.remoteDocs.get h d = some entry ∧
        entry.sendOps d ops = some (.ok (leanOps, batch), doc) ∧
        after.remoteDocs.get h d = some { entry with toRemoteDoc := doc } ∧
        asked h d effects = batch.toList.map .opFromClient := by
  simp only [handleSendOpsFromEditor] at hturn
  split at hturn
  next => cases hturn; exact .inl ⟨rfl, rfl⟩
  next docId entry hdesc =>
      obtain ⟨_, hget⟩ := RemoteDocs.getByEditorDesc_some.mp hdesc
      simp only [Option.bind_eq_bind, Option.bind_eq_some_iff, Prod.exists] at hturn
      obtain ⟨res, doc, hsends, hturn⟩ := hturn
      split at hturn
      next =>
          cases hturn
          rw [RemoteDocs.get_remove]
          split
          next => exact .inr (.inl ⟨rfl, rfl⟩)
          next => exact .inl ⟨rfl, rfl⟩
      next leanOps batch =>
          cases hturn
          obtain ⟨_, received, engine, _, _, hpackage, _⟩ := RemoteDoc.sendOps_stages hsends
          have habout : ∀ ops ∈ batch.toList, (Msg.opFromClient ops).asked? = some docId := by
            intro ops hops
            rw [Option.mem_toList.mp hops] at hpackage
            rw [ClientEngine.batch_of_package hpackage]
            rfl
          rw [RemoteDocs.get_set, asked_append, asked_map (fun _ => rfl) habout]
          by_cases hk : (h, d) = (file.hostId, docId)
          · cases hk
            rw [if_pos rfl, if_pos rfl, asked_eq_nil (by simp), List.append_nil]
            exact .inr (.inr ⟨entry, leanOps, batch, doc, rfl, hdesc, hget, hsends, rfl, rfl⟩)
          · rw [if_neg hk, if_neg hk]
            exact .inl ⟨rfl, rfl⟩

/-- Every engine of a copy keeps its numbers above 0. -/
def CopyNumbered (copy : Option RemoteDocEntry) : Prop :=
  ∀ entry, copy = some entry → entry.engine.Numbered

theorem copyNumbered_none : CopyNumbered none := nofun

/-- A copy that has just been made. -/
theorem sent_of_made {entry : RemoteDocEntry} {content : Text} {site : SiteId} {seq : GlobalSeq}
    {internalDoc : InternalDoc}
    (made : entry.toRemoteDoc = RemoteDoc.new content (ClientEngine.new site seq internalDoc)) :
    entry.sent = 0 ∧ CopyNumbered (some entry) := by
  refine ⟨?_, fun entry' heq => ?_⟩
  · rw [RemoteDocEntry.sent, made]
    rfl
  · cases heq
    rw [made]
    exact List.forall_mem_nil _

theorem sends_of_sendOps {entry : RemoteDocEntry} {d : DocId} {ops : List EditorFatOp}
    {leanOps : List EditorLeanOp} {batch : Option ContextOps} {doc : RemoteDoc}
    (hsends : entry.sendOps d ops = some (.ok (leanOps, batch), doc))
    (hentry : entry.engine.Numbered) :
    CopySends d (some entry.sent) (some { entry with toRemoteDoc := doc }.sent)
        (batch.toList.map .opFromClient) ∧
      CopyNumbered (some { entry with toRemoteDoc := doc }) := by
  obtain ⟨hnumbered, hsent⟩ := RemoteDoc.sendOps_sent hsends hentry
  have hcopy : CopyNumbered (some { entry with toRemoteDoc := doc }) := by
    intro entry' heq
    cases heq
    exact hnumbered
  refine ⟨?_, hcopy⟩
  cases batch with
  | none =>
      have hsent : { entry with toRemoteDoc := doc }.sent = entry.sent := hsent
      rw [hsent]
      exact .idle
  | some batch => exact .batch hsent

theorem Handled.sends_of_sendOps {reqId : RequestId} {ops : List EditorFatOp}
    {file : EditorFileDesc}
    (hturn : Handled os before (.request reqId (.sendOps ops file)) after effects) (h : ServerId)
    (d : DocId) (hcopy : CopyNumbered (before.remoteDocs.get h d)) :
    CopySends d ((before.remoteDocs.get h d).map RemoteDocEntry.sent)
        ((after.remoteDocs.get h d).map RemoteDocEntry.sent) (asked h d effects) ∧
      CopyNumbered (after.remoteDocs.get h d) := by
  cases hturn with
  | idle away tables quiet =>
      rw [remoteDocs_of_tables tables, asked_of_quiet quiet]
      exact ⟨.idle, hcopy⟩
  | sendOps hturn =>
      rcases copy_of_sendOps hturn h d with ⟨hsame, hasked⟩ | ⟨hnone, hasked⟩ |
          ⟨entry, leanOps, batch, doc, -, -, hget, hsends, hafter, hasked⟩
      · rw [hsame, hasked]
        exact ⟨.idle, hcopy⟩
      · rw [hnone, hasked]
        exact ⟨.leaves (List.forall_mem_nil _), copyNumbered_none⟩
      · rw [hget, hafter, hasked]
        exact Server.sends_of_sendOps hsends (hcopy entry hget)

/-- What a client asks in a turn, and what it has sent then. -/
theorem Handled.sends {event : Event} (hturn : Handled os before event after effects)
    {h : ServerId} {d : DocId} (hown : h = before.hostId → opensFile event = false)
    (hcopy : CopyNumbered (before.remoteDocs.get h d)) :
    CopySends d ((before.remoteDocs.get h d).map RemoteDocEntry.sent)
        ((after.remoteDocs.get h d).map RemoteDocEntry.sent) (asked h d effects) ∧
      CopyNumbered (after.remoteDocs.get h d) := by
  have hstep := hturn.clientStep h d
  have hrequest : ∀ reqId req, event = .request reqId req → h = before.hostId →
      (∀ ops file, req ≠ .sendOps ops file) →
      after.remoteDocs.get h d = before.remoteDocs.get h d ∨ after.remoteDocs.get h d = none := by
    rintro reqId req rfl hh hsend
    exact hturn.copy_of_request (hown hh) hsend h d
  by_cases hsend : ∃ reqId ops file, event = .request reqId (.sendOps ops file)
  · obtain ⟨reqId, ops, file, rfl⟩ := hsend
    exact hturn.sends_of_sendOps h d hcopy
  · generalize before.remoteDocs.get h d = copy at *
    generalize after.remoteDocs.get h d = copy' at *
    generalize asked h d effects = asks at *
    cases hstep with
    | still => exact ⟨.idle, hcopy⟩
    | ended | closed => exact ⟨.leaves (List.forall_mem_nil _), copyNumbered_none⟩
    | @kept reqId ops entry asks doc keeps =>
        have hengine := RemoteDoc.engine_of_keepServerOps keeps
        have hsent : { entry with toRemoteDoc := doc }.sent = entry.sent :=
          congrArg ClientEngine.lastSiteSeqSentOut hengine
        refine ⟨?_, fun entry' heq => ?_⟩
        · rw [Option.map_some, Option.map_some, hsent]
          exact .asks
        · cases heq
          have hnumbered := hcopy entry rfl
          rw [← hengine] at hnumbered
          exact hnumbered
    | unnumbered =>
        refine ⟨.leaves fun msg hmem ops heq => ?_, copyNumbered_none⟩
        obtain ⟨seq, -, rfl⟩ := List.mem_map.mp hmem
        cases heq
    | stray | dropped =>
        refine ⟨.leaves fun msg hmem ops heq => ?_, copyNumbered_none⟩
        cases List.mem_singleton.mp hmem
        cases heq
    | @opened _ _ _ entry about made =>
        obtain ⟨hsent, hnumbered⟩ := sent_of_made made
        rw [Option.map_some, hsent]
        exact ⟨.opens, hnumbered⟩
    | @openedOwn reqId req _ entry _ _ _ own =>
        rcases hrequest reqId req rfl own
            fun ops file heq => hsend ⟨reqId, ops, file, heq ▸ rfl⟩ with
          hsame | hnone
        · rw [hsame]
          exact ⟨.idle, hcopy⟩
        · cases hnone
    | sent => exact absurd ⟨_, _, _, rfl⟩ hsend

/-- Before there is a copy, only a snapshot makes one. -/
theorem Handled.copy_none {event : Event} (hturn : Handled os before event after effects)
    {h : ServerId} {d : DocId} (hown : h = before.hostId → opensFile event = false)
    (hcopy : before.remoteDocs.get h d = none)
    (hsnapshot : ∀ snapshot reqId,
      event = .message { host := h, body := .snapshot snapshot, reqId } →
      snapshot.docId ≠ d) :
    after.remoteDocs.get h d = none ∧
      ∀ msg ∈ asked h d effects, ∀ ops, msg ≠ .opFromClient ops := by
  have hstep := hturn.clientStep h d
  have hrequest : ∀ reqId req, event = .request reqId req → h = before.hostId →
      after.remoteDocs.get h d = none := by
    rintro reqId req rfl hh
    by_cases hsend : ∃ ops file, req = .sendOps ops file
    · obtain ⟨ops, file, rfl⟩ := hsend
      cases hturn with
      | idle away tables quiet => rw [remoteDocs_of_tables tables, hcopy]
      | sendOps hturn =>
          rcases copy_of_sendOps hturn h d with ⟨hsame, -⟩ | ⟨hnone, -⟩ |
              ⟨_, _, _, _, -, -, hget, -⟩
          · rw [hsame, hcopy]
          · exact hnone
          · rw [hcopy] at hget
            cases hget
    · rcases hturn.copy_of_request (hown hh) (fun ops file heq => hsend ⟨ops, file, heq⟩) h d with
        hsame | hnone
      · rw [hsame, hcopy]
      · exact hnone
  rw [hcopy] at hstep
  generalize after.remoteDocs.get h d = copy' at hstep hrequest ⊢
  generalize asked h d effects = asks at hstep ⊢
  cases hstep with
  | still => exact ⟨rfl, List.forall_mem_nil _⟩
  | ended | closed => exact ⟨rfl, List.forall_mem_nil _⟩
  | stray =>
      refine ⟨rfl, fun msg hmem ops heq => ?_⟩
      cases List.mem_singleton.mp hmem
      cases heq
  | opened about => exact absurd about (hsnapshot _ _ rfl)
  | openedOwn own => cases hrequest _ _ rfl own

/-- Opening a file of the own host asks no host for anything. -/
theorem Handled.asked_of_opens {event : Event} (hturn : Handled os before event after effects)
    (hopens : opensFile event = true) (h : ServerId) (d : DocId) : asked h d effects = [] := by
  have hstep := hturn.clientStep h d
  generalize before.remoteDocs.get h d = copy at hstep
  generalize after.remoteDocs.get h d = copy' at hstep
  generalize asked h d effects = asks at hstep ⊢
  cases hstep with
  | still | ended | closed | openedOwn => rfl
  | kept | unnumbered | opened | sent | dropped => cases hopens
  | stray brought =>
      cases event with
      | message => cases hopens
      | _ => cases brought

/-- The ids of documents go up. -/
theorem Handled.nextDocId_le {event : Event} (hturn : Handled os before event after effects) :
    before.nextDocId ≤ after.nextDocId := by
  rcases hturn.docsStep with hstep | ⟨-, hcloses⟩
  · cases hstep with
    | keep _ next => exact Nat.le_of_eq next.symm
    | update _ _ _ _ _ _ next => exact Nat.le_of_eq next.symm
    | add _ _ next => exact next ▸ Nat.le_succ _
    | move _ _ _ _ next => exact Nat.le_of_eq next.symm
  · exact Nat.le_of_eq hcloses.next.symm

/-- There is no document under an id that has not been given. -/
theorem IdsOk.hosted_of_le {self : Server} (h : self.IdsOk) {d : DocId} (hle : self.nextDocId ≤ d) :
    self.hosted d = none := by
  cases hget : self.doc? d with
  | none => rw [hosted, hget]; rfl
  | some doc => exact absurd hle (Nat.not_le_of_lt (h.lt_of_get hget))

/-- A document that was closed is not made again. -/
theorem HostStep.none_of_lt {event : Event} {d : DocId} {next : Option Doc}
    {sent : List (ServerId × Msg)} (h : HostStep os before d event none next sent)
    (hlt : d < before.nextDocId) : next = none := by
  cases h with
  | still | absent | refused => rfl
  | made next | madeOwn _ next => exact absurd next (Nat.ne_of_lt hlt)

/-- The message of a peer about a document. -/
def isAskOf (p : ServerId) (d : DocId) : Event → Bool
  | .message msg => msg.host = p ∧ msg.body.asked? = some d
  | _ => false

theorem hosted_bind_subscribers {self : Server} {d : DocId} {doc : Doc}
    (h : self.hosted d = some doc) (p : ServerId) :
    self.recordedOf p d = AssocMap.get doc.subscribers p := by
  rw [recordedOf, h]
  rfl

theorem get_recorded_of_ne {doc : Doc} {ops : ContextOps} {host p : ServerId} (hne : p ≠ host) :
    AssocMap.get (recorded doc ops host).subscribers p = AssocMap.get doc.subscribers p := by
  unfold recorded
  split
  next => exact AssocMap.get_insert_of_ne hne
  next => rfl

section HostStep

variable {event : Event} {now next : Option Doc} {sent : List (ServerId × Msg)} {d : DocId}
  {p : ServerId} {doc doc' : Doc}

/-- The number of a peer stays when the turn is about something else. -/
theorem HostStep.recorded_still (h : HostStep os before d event now next sent)
    (hnow : now = some doc) (hnext : next = some doc')
    (hask : isAskOf p d event = false) (hown : p = before.hostId → opensFile event = false) :
    AssocMap.get doc'.subscribers p = AssocMap.get doc.subscribers p := by
  cases h with
  | still | refused => cases hnow; cases hnext; rfl
  | absent | made | madeOwn => cases hnow
  | found => cases hnow; cases hnext; rfl
  | @accepted host _ _ _ _ _ _ about _ _ applies =>
      cases hnow
      cases hnext
      rw [Doc.subscribers_of_applyOps applies]
      refine get_recorded_of_ne ?_
      rintro rfl
      simp [isAskOf, Msg.asked?, about] at hask
  | @subscribed host =>
      cases hnow
      cases hnext
      refine AssocMap.get_insert_of_ne ?_
      rintro rfl
      simp [isAskOf, Msg.asked?] at hask
  | @unsubscribed host =>
      cases hnow
      cases hnext
      refine (AssocMap.get_erase ..).trans (if_neg ?_)
      rintro rfl
      simp [isAskOf, Msg.asked?] at hask
  | openedOwn =>
      cases hnow
      cases hnext
      refine AssocMap.get_insert_of_ne ?_
      intro hp
      cases hown hp
  | reset _ applies =>
      cases hnow
      cases hnext
      rw [Doc.subscribers_of_resetFromDisk applies]
  | closed => cases hnext

/-- A question sets the number to 0. -/
theorem HostStep.recorded_ask {reqId : Option RequestId} {seq : GlobalSeq}
    (h : HostStep os before d (.message { host := p, body := .requestOps d seq, reqId }) now next
      sent) (hnow : now = some doc) (hnext : next = some doc') :
    AssocMap.get doc'.subscribers p = some 0 := by
  cases h with
  | subscribed => cases hnext; exact AssocMap.get_insert_self ..
  | absent => cases hnow
  | still unasked | reset unasked | madeOwn unasked =>
      simp [Event.asks, Msg.asked?] at unasked
  | closed => cases hnext

theorem HostStep.recorded_stop {reqId : Option RequestId}
    (h : HostStep os before d (.message { host := p, body := .stopSendingOps d, reqId }) now next
      sent) (hnow : now = some doc) (hnext : next = some doc') :
    AssocMap.get doc'.subscribers p = none := by
  cases h with
  | unsubscribed =>
      cases hnext
      exact (AssocMap.get_erase ..).trans (if_pos rfl)
  | absent => cases hnow
  | still unasked | reset unasked | madeOwn unasked =>
      simp [Event.asks, Msg.asked?] at unasked
  | closed => cases hnext

end HostStep

/-- The host takes a batch into the history of its document. -/
def accepts (self : Server) (ops : ContextOps) (p : ServerId) : Bool :=
  self.config.writeAllowed p && (self.recordedOf p ops.doc).any fun lastSeq =>
    ops.ops.head?.all fun op => op.siteSeq == lastSeq + 1

theorem accepts_of_passes {self : Server} {ops : ContextOps} {p : ServerId} {entry : DocEntry}
    {lastSeq : LocalSeq} (hallowed : self.config.writeAllowed p = true)
    (h : self.Passes ops p entry lastSeq) : self.accepts ops p = true := by
  have hrecorded : self.recordedOf p ops.doc = some lastSeq :=
    (hosted_bind_subscribers (hosted_of_get h.get) p).trans h.subscribed
  rw [accepts, hallowed, hrecorded]
  cases hfirst : ops.ops.head? with
  | none => rfl
  | some op => simp [h.first op hfirst]

theorem not_refuses_of_accepts {self : Server} {ops : ContextOps} {p : ServerId}
    (h : self.accepts ops p = true) : ¬self.Refuses ops p := by
  rw [accepts, Bool.and_eq_true] at h
  obtain ⟨hallowed, hany⟩ := h
  rintro (hdenied | hrefused)
  · rw [hallowed] at hdenied
    cases hdenied
  · cases hrecorded : self.recordedOf p ops.doc with
    | none => rw [hrecorded] at hany; cases hany
    | some lastSeq =>
        rw [hrecorded] at hany
        simp only [recordedOf, hosted, Option.bind_map, Option.bind_eq_some_iff] at hrecorded
        obtain ⟨doc, hget, hsub⟩ := hrecorded
        obtain ⟨op, hop, hne⟩ := hrefused doc lastSeq hget hsub
        rw [hop] at hany
        exact hne (by simpa using hany)

section HostStep

variable {now next : Option Doc} {sent : List (ServerId × Msg)} {p : ServerId} {doc doc' : Doc}
  {ops : ContextOps} {reqId : Option RequestId}

/-- A batch that is accepted leaves the number of its last op. -/
theorem HostStep.recorded_batch
    (h : HostStep os before ops.doc (.message { host := p, body := .opFromClient ops, reqId }) now
      next sent) (hnow : now = some doc) (hnext : next = some doc') :
    AssocMap.get doc'.subscribers p =
      match before.accepts ops p, ops.ops.getLast? with
      | true, some op => some op.siteSeq
      | _, _ => AssocMap.get doc.subscribers p := by
  cases h with
  | refused about refuses =>
      cases hnow
      cases hnext
      cases haccepts : before.accepts ops p with
      | false => rfl
      | true => exact absurd refuses (not_refuses_of_accepts haccepts)
  | accepted about allowed passes applies =>
      cases hnow
      cases hnext
      rw [Doc.subscribers_of_applyOps applies, accepts_of_passes allowed passes]
      unfold recorded
      cases ops.ops.getLast? with
      | none => rfl
      | some op => exact AssocMap.get_insert_self ..
  | still unasked | reset unasked | madeOwn unasked =>
      simp [Event.asks, Msg.asked?] at unasked
  | absent => cases hnow
  | closed => cases hnext

end HostStep


/-- A client is told that its batch does not go on only when it does not. -/
theorem mismatch_of_docFatal {self : Server} {reqId reqId' : Option RequestId} {ops : ContextOps}
    {host p : ServerId} {d : DocId} {reason : String} {res : Except CollabError Unit}
    (h : self.handleOpFromClient reqId ops host = some (res, after, effects))
    (hmem : .send p reqId' (.docFatal d reason) ∈ effects) :
    self.config.writeAllowed host = true ∧ ∃ entry lastSeq op, self.doc? ops.doc = some entry ∧
      AssocMap.get entry.subscribers host = some lastSeq ∧ ops.ops.head? = some op ∧
      op.siteSeq ≠ lastSeq + 1 := by
  have haccept {doc : DocEntry}
      (h : self.acceptOps reqId ops.doc doc ops host = some (res, after, effects)) : False := by
    rw [acceptOps_eq, Option.map_eq_some_iff] at h
    obtain ⟨⟨res', applied⟩, -, heq⟩ := h
    cases heq
    cases res with
    | error => cases hmem
    | ok => obtain ⟨_, -, heq⟩ := List.mem_map.mp hmem; cases heq
  unfold handleOpFromClient at h
  dsimp only at h
  split at h
  next => cases h; cases List.mem_singleton.mp hmem
  next hallowed =>
      split at h
      next => cases h; cases List.mem_singleton.mp hmem
      next doc hget =>
          split at h
          next => cases h; cases List.mem_singleton.mp hmem
          next lastSeq hsub =>
              split at h
              next => exact (haccept h).elim
              next op hop =>
                  split at h
                  next hne =>
                    exact ⟨by simpa using hallowed, doc, lastSeq, op, hget, hsub, hop, hne⟩
                  next => exact (haccept h).elim

end Server

end CollabMode
