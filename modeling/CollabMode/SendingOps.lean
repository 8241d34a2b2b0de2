import CollabMode.EditTracking
import CollabMode.Delivery

/-!
# Sending ops from Emacs

`collab--send-ops-now` empties the list of pending ops and then sends them.  When the request
fails, `collab--catch-error` turns the mode off for one code and leaves it on for the others, and
a quit goes past it.  The ops are not put back.

The server is the one that answers, and what it tells of the document is the buffer that it keeps
for the editor.
-/

namespace CollabMode

namespace EditTracking

/-! ## Edits of the server -/

/-- Point stays inside the buffer. -/
def insertEdit (text : Text) (edit : Edit) : Text :=
  Tombstone.insertAt (min edit.pos text.length) edit.content text

/-- `delete-region`, which signals an error out of range. -/
def deleteEdit (text : Text) (edit : Edit) : Option Text :=
  drain text edit.pos (edit.pos + edit.content.length)

def deleteAll : List Edit → Text → Text × Bool
  | [], text => (text, true)
  | edit :: edits, text =>
      match deleteEdit text edit with
      | some text => deleteAll edits text
      | none => (text, false)

/-- `collab--apply-edit-instruction`, and whether it came to the end without an error. -/
def applyEditInstruction (instr : EditInstruction) (text : Text) : Text × Bool :=
  match instr with
  | .ins edits => (edits.reverse.foldl insertEdit text, true)
  | .del edits => deleteAll edits.reverse text

def applyRemoteOps : List EditorLeanOp → Text → Text × Bool
  | [], text => (text, true)
  | op :: ops, text =>
      match applyEditInstruction op.op text with
      | (text, true) => applyRemoteOps ops text
      | (text, false) => (text, false)

/-! ## The request -/

/-- `ErrorCode as i32`. -/
def errorNumber : ErrorCode → Int
  | .parseError => -32700
  | .invalidRequest => -32600
  | .methodNotFound => -32601
  | .invalidParams => -32602
  | .internalError => -32603
  | .serverErrorStart => -32099
  | .serverErrorEnd => -32000
  | .notInitialized => -32002
  | .docFatal => 103
  | .permissionDenied => 104
  | .ioError => 105
  | .networkError => 106
  | .badRequest => 113
  | .notConnected => 114

/-- `collab--error-code-alist`. -/
def errorCodeAlist : List (Int × ErrorCode) :=
  [.parseError, .invalidRequest, .methodNotFound, .invalidParams, .internalError, .notInitialized,
    .docFatal, .permissionDenied, .ioError, .networkError, .badRequest, .notConnected].map
    fun code => (errorNumber code, code)

/-- `collab--encode-op`. -/
def EditOp.encode : EditOp → EditorFatOp
  | .ins pos str groupSeq => { op := .ins (pos - 1) str, groupSeq }
  | .del pos str groupSeq => { op := .del (pos - 1) str, groupSeq }

structure MonitoredBuffer where
  monitored : Bool
  /-- There is a connection to the collab process. -/
  connection : Bool
  file : EditorFileDesc
  text : Text
  tracker : Tracker
deriving DecidableEq, Repr

/-- What comes of a request. -/
inductive Outcome where
  /-- The server handles it and its answer arrives. -/
  | answered
  /-- There is an error with this code, and the server does not handle it. -/
  | refused (code : Int)
  /-- The time is up, before or after the server has handled it. -/
  | timedOut (handled : Bool)
  | quit (handled : Bool)
  /-- The collab process ends. -/
  | shutdown
deriving DecidableEq, Repr

def answer (reqId : RequestId) (effects : List Effect) : Option Response :=
  effects.findSome? fun
    | .resp id resp => if id = reqId then some resp else none
    | _ => none

namespace MonitoredBuffer

/-- `collab--catch-error` on an error with this code, if it has one. -/
def catchError (self : MonitoredBuffer) (code : Option Int) : MonitoredBuffer :=
  if (code.bind fun code => errorCodeAlist.lookup code) = some .docFatal then
    { self with monitored := false }
  else self

/-- `collab--send-ops`.  `none` is a panic of the server. -/
def sendOps (self : MonitoredBuffer) (ops : List EditOp) (server : Server) (reqId : RequestId)
    (outcome : Outcome) : Option (MonitoredBuffer × Server) :=
  if !self.connection then
    -- The precondition turns the mode off.  The request is made all the same and signals an error.
    some (catchError { self with monitored := false } none, server)
  else
    let handle := server.handleSendOpsFromEditor reqId (ops.map EditOp.encode) self.file
    match outcome with
    | .answered => do
        let (server, effects) ← handle
        match answer reqId effects with
        | some (.sendOps leanOps _ _ _) =>
            let (text, complete) := applyRemoteOps leanOps self.text
            let self := { self with text }
            some (if complete then self else self.catchError none, server)
        | some (.error code _) => some (self.catchError (some (errorNumber code)), server)
        | _ => some (self, server)
    | .refused code => some (self.catchError (some code), server)
    -- A quit is not an error, but the mode stays on as with an error without a code.
    | .timedOut handled => do
        let (server, _) ← if handled then handle else some (server, [])
        some (self.catchError none, server)
    | .quit handled => do
        let (server, _) ← if handled then handle else some (server, [])
        some (self, server)
    -- `collab--shutdown-cleanup` turns the mode off in every buffer.
    | .shutdown => some ({ self with monitored := false }, server)

/-- `collab--send-ops-now`. -/
def sendOpsNow (self : MonitoredBuffer) (server : Server) (reqId : RequestId) (outcome : Outcome) :
    Option (MonitoredBuffer × Server) :=
  match self.tracker.pendingOps with
  | .trackingError _ => some ({ self with monitored := false }, server)
  | .ops _ =>
      let (ops, tracker) := self.tracker.sendOpsNow
      { self with tracker }.sendOps ops server reqId outcome

/-- The text that the server has for the buffer, with the pending ops, is the text of the
buffer. -/
def InSync (self : MonitoredBuffer) (server : Server) : Prop :=
  ∃ docId doc pending, server.remoteDocs.getByEditorDesc self.file = some (docId, doc) ∧
    self.tracker.pendingOps = .ops pending ∧ applyOps doc.buffer pending.reverse = some self.text

/-- The mode is on, and the buffer is in sync unless there was a tracking error or the server does
not have the document. -/
structure Working (buffer : MonitoredBuffer) (server : Server) : Prop where
  monitored : buffer.monitored = true
  sync : ∀ docId doc pending, server.remoteDocs.getByEditorDesc buffer.file = some (docId, doc) →
    buffer.tracker.pendingOps = .ops pending →
    applyOps doc.buffer pending.reverse = some buffer.text

/-- What is left of a buffer after its ops were sent: it is in sync, or the mode is off. -/
def Safe (self : MonitoredBuffer) (server : Server) : Prop :=
  self.monitored = false ∨ self.InSync server

/-- The pending ops change nothing. -/
def Idle (self : MonitoredBuffer) (server : Server) : Prop :=
  ∃ docId doc, server.remoteDocs.getByEditorDesc self.file = some (docId, doc) ∧
    doc.buffer = self.text

/-- The server takes the pending ops, and the ops that it answers with change nothing. -/
def Quiet (self : MonitoredBuffer) (server : Server) : Prop :=
  ∃ docId doc leanOps batch doc',
    server.remoteDocs.getByEditorDesc self.file = some (docId, doc) ∧
    doc.sendOps docId (self.tracker.sendOpsNow.1.map EditOp.encode) =
      some (.ok (leanOps, batch), doc') ∧
    (applyRemoteOps leanOps self.text).1 = self.text

/-- Nothing is lost: the mode is turned off, or the server answers for a document that it has, or
what the failure loses changes nothing. -/
def Lossless (self : MonitoredBuffer) (server : Server) (outcome : Outcome) : Prop :=
  (∃ reason, self.tracker.pendingOps = .trackingError reason) ∨ self.connection = false ∨
    match outcome with
    | .answered => (server.remoteDocs.getByEditorDesc self.file).isSome
    | .refused code => code = errorNumber .docFatal ∨ self.Idle server
    | .timedOut handled | .quit handled =>
        if handled then self.Quiet server else self.Idle server
    | .shutdown => True

end MonitoredBuffer

/-! ## Emacs and the server do the same -/

theorem foldl_insertEdit {edits : List Edit} {text after : Text}
    (h : insertEdits edits text = (.ok (), after)) : edits.foldl insertEdit text = after := by
  induction edits generalizing text with
  | nil =>
      cases h
      rfl
  | cons edit edits ih =>
      simp only [insertEdits] at h
      split at h
      next => cases h
      next hpos =>
          rw [List.foldl_cons, insertEdit, Nat.min_eq_left (Nat.le_of_not_lt hpos)]
          exact ih h

theorem deleteAll_of_deleteEdits {edits : List Edit} {text after : Text}
    (h : deleteEdits edits text = some after) : deleteAll edits text = (after, true) := by
  induction edits generalizing text with
  | nil =>
      cases h
      rfl
  | cons edit edits ih =>
      obtain ⟨between, hdrain, hrest⟩ := Option.bind_eq_some_iff.mp h
      simp only [deleteAll, deleteEdit, hdrain]
      exact ih hrest

/-- An instruction that the server runs on a text does the same in Emacs. -/
theorem applyEditInstruction_of_apply {instr : EditInstruction} {text after : Text}
    (h : instr.apply text = some (.ok (), after)) :
    applyEditInstruction instr text = (after, true) := by
  cases instr with
  | ins edits =>
      simp only [applyEditInstruction, foldl_insertEdit (Option.some.inj h)]
  | del edits =>
      obtain ⟨buffer, hdelete, heq⟩ := Option.map_eq_some_iff.mp h
      cases heq
      exact deleteAll_of_deleteEdits hdelete

theorem applyRemoteOps_append (ops ops' : List EditorLeanOp) {text between : Text}
    (h : applyRemoteOps ops text = (between, true)) :
    applyRemoteOps (ops ++ ops') text = applyRemoteOps ops' between := by
  induction ops generalizing text with
  | nil =>
      cases h
      rfl
  | cons op ops ih =>
      cases hop : applyEditInstruction op.op text with
      | mk text' complete =>
          cases complete with
          | true =>
              simp only [List.cons_append, applyRemoteOps, hop] at h ⊢
              exact ih h
          | false =>
              simp only [applyRemoteOps, hop] at h
              cases h

theorem applyRemoteOps_processServerOp {doc doc' : RemoteDoc} {op : FatOp Op}
    {leanOps : List EditorLeanOp} (h : doc.processServerOp op = some (.ok leanOps, doc')) :
    applyRemoteOps leanOps doc.buffer = (doc'.buffer, true) := by
  simp only [RemoteDoc.processServerOp, Option.bind_eq_bind, Option.bind_eq_some_iff] at h
  obtain ⟨⟨res, engine⟩, -, h⟩ := h
  rcases res with err | _ | ⟨leanOp, _⟩
  · cases h
  · cases h
    rfl
  · simp only [RemoteDoc.applyEditInstruction, RemoteDoc.applyEditInstructionUnchecked,
      Option.bind_eq_bind, Option.bind_eq_some_iff] at h
    obtain ⟨⟨res, applied⟩, ⟨_, ⟨⟨res', buffer⟩, happly, heq⟩, hcheck⟩, h⟩ := h
    cases heq
    cases res' with
    | error err =>
        cases hcheck
        cases h
    | ok u =>
        cases hcheck
        dsimp only at h
        split at h
        · cases h
        · cases h
          simp only [applyRemoteOps, applyEditInstruction_of_apply happly]

/-- What the server answers takes its text before to its text after. -/
theorem applyRemoteOps_processServerOps {ops : List (FatOp Op)} {doc doc' : RemoteDoc}
    {leanOps : List EditorLeanOp} (h : doc.processServerOps ops = some (.ok leanOps, doc')) :
    applyRemoteOps leanOps doc.buffer = (doc'.buffer, true) := by
  induction ops generalizing doc leanOps with
  | nil =>
      cases h
      rfl
  | cons op ops ih =>
      simp only [RemoteDoc.processServerOps, Option.bind_eq_bind, Option.bind_eq_some_iff] at h
      obtain ⟨⟨res, between⟩, hone, h⟩ := h
      cases res with
      | error err => cases h
      | ok first =>
          simp only [Option.bind_eq_some_iff] at h
          obtain ⟨⟨res, last⟩, hall, h⟩ := h
          cases res with
          | error err => cases h
          | ok rest =>
              cases h
              rw [applyRemoteOps_append _ _ (applyRemoteOps_processServerOp hone)]
              exact ih hall

/-- An op that the server takes does to its text what it does to the mirror. -/
theorem buffer_processEditorOp {op : EditOp} {doc doc' : RemoteDoc} {u : Unit} {text : Text}
    (h : doc.processEditorOp op.encode = some (.ok u, doc'))
    (htext : op.apply doc.buffer = some text) : doc'.buffer = text := by
  obtain ⟨ops, instrs, idoc, gh, engine, buffer, hstep, hrun, rfl⟩ :=
    RemoteDoc.processEditorOp_ok h
  have hmakes := hstep.makes
  cases op with
  | ins pos str groupSeq =>
      obtain ⟨a, b, hsplit, hpos, rfl⟩ := apply_ins_iff.mp htext
      have hinstrs : instrs = [.ins [⟨pos - 1, str⟩]] := by
        generalize hop : (EditOp.encode (.ins pos str groupSeq)).op = editorOp at hmakes
        cases hmakes with
        | ins => cases hop; rfl
        | del => cases hop
        | undo redo => cases redo <;> cases hop
      have hlen : a.length = pos - 1 := by omega
      rw [hinstrs, hsplit, ← hlen] at hrun
      have hle : ¬a.length > (a ++ b).length := by simp
      simp only [runInstructions, EditInstruction.apply, List.reverse_singleton, insertEdits, hle,
        if_false, Option.some.injEq] at hrun
      rw [← hrun]
      simp [Tombstone.insertAt]
  | del pos str groupSeq =>
      obtain ⟨a, b, hsplit, hpos, rfl⟩ := apply_del_iff.mp htext
      have hinstrs : instrs = [.del [⟨pos - 1, str⟩]] := by
        generalize hop : (EditOp.encode (.del pos str groupSeq)).op = editorOp at hmakes
        cases hmakes with
        | ins => cases hop
        | del => cases hop; rfl
        | undo redo => cases redo <;> cases hop
      have hlen : a.length = pos - 1 := by omega
      rw [hinstrs, hsplit, ← hlen] at hrun
      have hdrain : drain (a ++ str ++ b) a.length (a.length + str.length) = some (a ++ b) := by
        rw [drain, if_pos ⟨Nat.le_add_right _ _, by simp⟩, List.append_assoc, List.take_left,
          ← List.append_assoc, ← List.length_append, List.drop_left]
      simp only [runInstructions, EditInstruction.apply, List.reverse_singleton, deleteEdits,
        hdrain, Option.bind_eq_bind, Option.bind_some, Option.map_some, Option.some.injEq] at hrun
      exact hrun.symm

theorem buffer_processEditorOps {ops : List EditOp} {doc doc' : RemoteDoc} {u : Unit} {text : Text}
    (h : RemoteDoc.processEditorOps (ops.map EditOp.encode) doc = some (.ok u, doc'))
    (htext : applyOps doc.buffer ops = some text) : doc'.buffer = text := by
  induction ops generalizing doc with
  | nil =>
      cases h
      cases htext
      rfl
  | cons op ops ih =>
      simp only [List.map_cons, RemoteDoc.processEditorOps, Option.bind_eq_bind,
        Option.bind_eq_some_iff] at h
      obtain ⟨⟨res, between⟩, hone, h⟩ := h
      obtain ⟨text', hfirst, hrest⟩ := Option.bind_eq_some_iff.mp htext
      cases res with
      | error err => cases h
      | ok u =>
          refine ih h ?_
          rw [buffer_processEditorOp hone hfirst]
          exact hrest

/-- A request that the server takes leaves it with the text of the buffer, after its answer. -/
theorem applyRemoteOps_sendOps {doc doc' : RemoteDoc} {docId : DocId} {ops : List EditOp}
    {leanOps : List EditorLeanOp} {batch : Option ContextOps} {text : Text}
    (h : doc.sendOps docId (ops.map EditOp.encode) = some (.ok (leanOps, batch), doc'))
    (htext : applyOps doc.buffer ops = some text) :
    applyRemoteOps leanOps text = (doc'.buffer, true) := by
  obtain ⟨edited, received, engine, hlocal, hserver, -, rfl⟩ := RemoteDoc.sendOps_stages h
  have hedited : edited.buffer = text := buffer_processEditorOps hlocal htext
  rw [← hedited]
  have hanswer := applyRemoteOps_processServerOps hserver
  exact hanswer

/-! ## The answers of the server -/

section

variable {server : Server} {reqId : RequestId} {file : EditorFileDesc} {ops : List EditorFatOp}

theorem handleSendOpsFromEditor_none (h : server.remoteDocs.getByEditorDesc file = none) :
    ∃ effects message, server.handleSendOpsFromEditor reqId ops file = some (server, effects) ∧
      answer reqId effects = some (.error .ioError message) := by
  refine ⟨[.resp reqId (.error .ioError s!"File not found: {file.text}")],
    s!"File not found: {file.text}", ?_, ?_⟩
  · simp only [Server.handleSendOpsFromEditor, h]
  · simp [answer]

theorem handleSendOpsFromEditor_error {docId : DocId} {doc : RemoteDocEntry} {err : String}
    {doc' : RemoteDoc} (hget : server.remoteDocs.getByEditorDesc file = some (docId, doc))
    (h : doc.sendOps docId ops = some (.error err, doc')) :
    ∃ after effects, server.handleSendOpsFromEditor reqId ops file = some (after, effects) ∧
      answer reqId effects = some (.error .docFatal err) ∧
      after.remoteDocs.getByEditorDesc file = none := by
  refine ⟨_, _, by simp only [Server.handleSendOpsFromEditor, hget, h]; rfl, ?_, ?_⟩
  · simp [answer]
  · exact (RemoteDocs.getByEditorDesc_remove hget).1

theorem handleSendOpsFromEditor_ok {docId : DocId} {doc : RemoteDocEntry}
    {leanOps : List EditorLeanOp} {batch : Option ContextOps} {doc' : RemoteDoc}
    (hget : server.remoteDocs.getByEditorDesc file = some (docId, doc))
    (h : doc.sendOps docId ops = some (.ok (leanOps, batch), doc')) :
    ∃ after effects lastSeq pendingOps docLen entry,
      server.handleSendOpsFromEditor reqId ops file = some (after, effects) ∧
      answer reqId effects = some (.sendOps leanOps lastSeq pendingOps docLen) ∧
      after.remoteDocs.getByEditorDesc file = some (docId, entry) ∧
      entry.buffer = doc'.buffer := by
  refine ⟨_, _, doc'.engine.currentSeq, doc'.engine.gh.localOps.length, doc'.buffer.length,
    { doc with toRemoteDoc := doc' },
    by simp only [Server.handleSendOpsFromEditor, hget, h]; rfl, ?_, ?_, rfl⟩
  · cases batch <;> simp [answer]
  · exact RemoteDocs.getByEditorDesc_set hget _

end

/-! ## Ops that are lost -/

theorem lookup_docFatal (code : Int) :
    errorCodeAlist.lookup code = some .docFatal ↔ code = errorNumber .docFatal := by
  constructor
  · intro h
    have hmem : (code, ErrorCode.docFatal) ∈ errorCodeAlist := by
      obtain ⟨l₁, l₂, hsplit, -⟩ := List.lookup_eq_some_iff.mp h
      rw [hsplit]
      simp
    obtain ⟨code', -, heq⟩ := List.mem_map.mp hmem
    cases heq
    rfl
  · rintro rfl
    rfl

namespace MonitoredBuffer

variable {self after : MonitoredBuffer} {server server' : Server} {reqId : RequestId}
  {outcome : Outcome} {pending : List EditOp}

theorem catchError_none (self : MonitoredBuffer) : self.catchError none = self := rfl

theorem inSync_nil (h : self.tracker.pendingOps = .ops []) :
    self.InSync server ↔ self.Idle server := by
  constructor
  · rintro ⟨docId, doc, pending, hget, hpending, htext⟩
    cases h.symm.trans hpending
    exact ⟨docId, doc, hget, Option.some.inj htext⟩
  · rintro ⟨docId, doc, hget, htext⟩
    exact ⟨docId, doc, [], hget, h, congrArg some htext⟩

/-- The mode stays on and no ops are left. -/
theorem safe_iff_idle (hmonitored : self.monitored = true) (h : self.tracker.pendingOps = .ops []) :
    self.Safe server ↔ self.Idle server := by
  rw [Safe, hmonitored, inSync_nil h]
  exact or_iff_right Bool.noConfusion

/-- The buffer when its ops have been taken from it. -/
def emptied (self : MonitoredBuffer) : MonitoredBuffer :=
  { self with tracker := self.tracker.sendOpsNow.2 }

theorem sendOpsNow_ops (h : self.tracker.pendingOps = .ops pending) :
    self.tracker.sendOpsNow.1 = pending.reverse ∧
      self.emptied.tracker.pendingOps = .ops [] := by
  simp [emptied, Tracker.sendOpsNow, h]

/-- A request that is handled and whose answer is lost. -/
theorem idle_of_handled (hworking : self.Working server)
    (hpending : self.tracker.pendingOps = .ops pending) {effects : List Effect}
    (h : server.handleSendOpsFromEditor reqId (self.tracker.sendOpsNow.1.map EditOp.encode)
      self.file = some (server', effects)) :
    self.emptied.Idle server' ↔ self.Quiet server := by
  have hops := (sendOpsNow_ops hpending).1
  cases hget : server.remoteDocs.getByEditorDesc self.file with
  | none =>
      obtain ⟨_, _, hhandle, -⟩ :=
        @handleSendOpsFromEditor_none server reqId self.file
          (self.tracker.sendOpsNow.1.map EditOp.encode) hget
      cases hhandle.symm.trans h
      refine iff_of_false ?_ ?_
      · rintro ⟨_, _, hsome, -⟩
        cases hget.symm.trans hsome
      · rintro ⟨_, _, _, _, _, hsome, -⟩
        cases hget.symm.trans hsome
  | some found =>
      obtain ⟨docId, doc⟩ := found
      cases hsend : doc.sendOps docId (self.tracker.sendOpsNow.1.map EditOp.encode) with
      | none =>
          simp only [Server.handleSendOpsFromEditor, hget, hsend, Option.bind_eq_bind,
            Option.bind_none] at h
          cases h
      | some result =>
          obtain ⟨res, doc'⟩ := result
          cases res with
          | error err =>
              obtain ⟨_, _, hhandle, -, hgone⟩ :=
                @handleSendOpsFromEditor_error server reqId self.file _ _ _ _ _ hget hsend
              cases hhandle.symm.trans h
              refine iff_of_false ?_ ?_
              · rintro ⟨_, _, hsome, -⟩
                cases hgone.symm.trans hsome
              · rintro ⟨_, _, _, _, _, hsome, hok, -⟩
                cases hget.symm.trans hsome
                cases hsend.symm.trans hok
          | ok made =>
              obtain ⟨leanOps, batch⟩ := made
              obtain ⟨_, _, _, _, _, entry, hhandle, -, hentry, hbuffer⟩ :=
                @handleSendOpsFromEditor_ok server reqId self.file _ _ _ _ _ _ hget hsend
              cases hhandle.symm.trans h
              have hsync := hworking.sync docId doc pending hget hpending
              rw [← hops] at hsync
              have hanswer := applyRemoteOps_sendOps hsend hsync
              constructor
              · rintro ⟨_, _, hsome, htext⟩
                cases hentry.symm.trans hsome
                refine ⟨docId, doc, leanOps, batch, doc', hget, hsend, ?_⟩
                rw [hanswer, ← hbuffer]
                exact htext
              · rintro ⟨_, _, _, _, _, hsome, hok, htext⟩
                cases hget.symm.trans hsome
                cases hsend.symm.trans hok
                rw [hanswer] at htext
                exact ⟨docId, entry, hentry, hbuffer.trans htext⟩

/-- A request whose answer does not arrive. -/
theorem safe_of_lost (reqId : RequestId) (hworking : self.Working server)
    (hpending : self.tracker.pendingOps = .ops pending) (handled : Bool)
    (h : ((if handled then
          server.handleSendOpsFromEditor reqId (self.tracker.sendOpsNow.1.map EditOp.encode)
            self.file
        else some (server, [])).bind fun r => some (self.emptied, r.1)) = some (after, server')) :
    after.Safe server' ↔ if handled then self.Quiet server else self.Idle server := by
  have hempty := (sendOpsNow_ops hpending).2
  have hmonitored : self.emptied.monitored = true := hworking.monitored
  obtain ⟨⟨server₁, effects⟩, hhandled, heq⟩ := Option.bind_eq_some_iff.mp h
  obtain ⟨rfl, rfl⟩ := Prod.mk.inj (Option.some.inj heq)
  rw [safe_iff_idle hmonitored hempty]
  cases handled with
  | true => exact idle_of_handled hworking hpending hhandled
  | false =>
      cases hhandled
      exact Iff.rfl

/-- A request whose answer arrives. -/
theorem safe_of_answered (hworking : self.Working server)
    (hpending : self.tracker.pendingOps = .ops pending) (hconnection : self.connection = true)
    (h : self.emptied.sendOps self.tracker.sendOpsNow.1 server reqId .answered =
      some (after, server')) :
    after.Safe server' ↔ (server.remoteDocs.getByEditorDesc self.file).isSome := by
  obtain ⟨hops, hempty⟩ := sendOpsNow_ops hpending
  have hmonitored : self.emptied.monitored = true := hworking.monitored
  have hconnection : self.emptied.connection = true := hconnection
  simp only [sendOps, hconnection, Bool.not_true, Bool.false_eq_true, if_false,
    Option.bind_eq_bind, Option.bind_eq_some_iff] at h
  obtain ⟨⟨server₁, effects⟩, hhandled, h⟩ := h
  cases hget : server.remoteDocs.getByEditorDesc self.file with
  | none =>
      obtain ⟨_, _, hhandle, hanswer⟩ :=
        @handleSendOpsFromEditor_none server reqId self.file
          (self.tracker.sendOpsNow.1.map EditOp.encode) hget
      cases hhandle.symm.trans hhandled
      simp only [hanswer] at h
      -- The file is not found, which is no DocFatal.
      obtain ⟨rfl, rfl⟩ := Prod.mk.inj (Option.some.inj h)
      refine iff_of_false ?_ Bool.noConfusion
      rw [show self.emptied.catchError (some (errorNumber .ioError)) = self.emptied from rfl,
        safe_iff_idle hmonitored hempty]
      rintro ⟨_, _, hsome, -⟩
      cases hget.symm.trans hsome
  | some found =>
      obtain ⟨docId, doc⟩ := found
      refine iff_of_true ?_ rfl
      cases hsend : doc.sendOps docId (self.tracker.sendOpsNow.1.map EditOp.encode) with
      | none =>
          have hpanic : server.handleSendOpsFromEditor reqId
              (self.tracker.sendOpsNow.1.map EditOp.encode) self.file = none := by
            simp only [Server.handleSendOpsFromEditor, hget, hsend, Option.bind_eq_bind,
              Option.bind_none]
          cases hpanic.symm.trans hhandled
      | some result =>
          obtain ⟨res, doc'⟩ := result
          cases res with
          | error err =>
              obtain ⟨_, _, hhandle, hanswer, -⟩ :=
                @handleSendOpsFromEditor_error server reqId self.file _ _ _ _ _ hget hsend
              cases hhandle.symm.trans hhandled
              simp only [hanswer] at h
              obtain ⟨rfl, rfl⟩ := Prod.mk.inj (Option.some.inj h)
              exact .inl rfl
          | ok made =>
              obtain ⟨leanOps, batch⟩ := made
              obtain ⟨_, _, _, _, _, entry, hhandle, hanswer, hentry, hbuffer⟩ :=
                @handleSendOpsFromEditor_ok server reqId self.file _ _ _ _ _ _ hget hsend
              cases hhandle.symm.trans hhandled
              have hsync := hworking.sync docId doc pending hget hpending
              rw [← hops] at hsync
              have happly : applyRemoteOps leanOps self.emptied.text = (doc'.buffer, true) :=
                applyRemoteOps_sendOps hsend hsync
              simp only [hanswer, happly, if_true] at h
              obtain ⟨rfl, rfl⟩ := Prod.mk.inj (Option.some.inj h)
              exact .inr ⟨docId, entry, [], hentry, hempty, congrArg some hbuffer⟩

/-- Sending loses nothing just when the condition is met. -/
theorem safe_iff_lossless (hworking : self.Working server)
    (h : self.sendOpsNow server reqId outcome = some (after, server')) :
    after.Safe server' ↔ self.Lossless server outcome := by
  unfold sendOpsNow at h
  split at h
  next reason hpending =>
      obtain ⟨rfl, rfl⟩ := Prod.mk.inj (Option.some.inj h)
      exact iff_of_true (.inl rfl) (.inl ⟨reason, hpending⟩)
  next pending hpending =>
      have h : self.emptied.sendOps self.tracker.sendOpsNow.1 server reqId outcome =
          some (after, server') := h
      have hnoError : ¬∃ reason, self.tracker.pendingOps = .trackingError reason := by
        rintro ⟨reason, hreason⟩
        cases hpending.symm.trans hreason
      unfold Lossless
      rw [or_iff_right hnoError]
      cases hconnection : self.connection with
      | false =>
          have hconnection : self.emptied.connection = false := hconnection
          simp only [sendOps, hconnection, Bool.not_false, if_true] at h
          obtain ⟨rfl, rfl⟩ := Prod.mk.inj (Option.some.inj h)
          exact iff_of_true (.inl rfl) (.inl rfl)
      | true =>
          rw [or_iff_right Bool.noConfusion]
          have hempty := (sendOpsNow_ops hpending).2
          have hmonitored : self.emptied.monitored = true := hworking.monitored
          have hconnected : self.emptied.connection = true := hconnection
          cases outcome with
          | answered => exact safe_of_answered hworking hpending hconnection h
          | refused code =>
              simp only [sendOps, hconnected, Bool.not_true, Bool.false_eq_true, if_false] at h
              obtain ⟨rfl, rfl⟩ := Prod.mk.inj (Option.some.inj h)
              simp only [catchError, Option.bind_some, lookup_docFatal]
              split
              next hcode => exact iff_of_true (.inl rfl) (.inl hcode)
              next hcode =>
                  rw [or_iff_right hcode]
                  exact safe_iff_idle hmonitored hempty
          | timedOut handled =>
              simp only [sendOps, hconnected, Bool.not_true, Bool.false_eq_true, if_false,
                catchError_none] at h
              refine safe_of_lost reqId hworking hpending handled ?_
              cases handled <;> exact h
          | quit handled =>
              simp only [sendOps, hconnected, Bool.not_true, Bool.false_eq_true, if_false] at h
              refine safe_of_lost reqId hworking hpending handled ?_
              cases handled <;> exact h
          | shutdown =>
              simp only [sendOps, hconnected, Bool.not_true, Bool.false_eq_true, if_false] at h
              obtain ⟨rfl, rfl⟩ := Prod.mk.inj (Option.some.inj h)
              exact iff_of_true (.inl rfl) trivial

/-- The buffer of a file of host 7, in which a character was typed that is still to be sent. -/
def typed : MonitoredBuffer :=
  { monitored := true
    connection := true
    file := Server.followed
    text := ['a', 'b']
    tracker := { Tracker.new with pendingOps := .ops [.ins 2 ['b'] 1] } }

theorem working_typed : typed.Working Server.following := by
  refine ⟨rfl, fun docId doc pending hget hpending => ?_⟩
  cases hget
  cases hpending
  rfl

theorem safe_typed : ∃ after server', typed.sendOpsNow Server.following 2 .answered =
    some (after, server') ∧ (after.Safe server' ↔ typed.Lossless Server.following .answered) :=
  ⟨_, _, rfl, @safe_iff_lossless typed _ _ _ 2 .answered working_typed rfl⟩

/-- The time is up before the server has handled the request.  The character is lost. -/
theorem not_safe_typed : ∃ after server', typed.sendOpsNow Server.following 2 (.timedOut false) =
    some (after, server') ∧ after.monitored = true ∧ after.tracker.pendingOps = .ops [] ∧
      ¬after.Safe server' := by
  refine ⟨_, _, rfl, rfl, rfl, fun hsafe => ?_⟩
  rcases hsafe with hoff | ⟨docId, doc, pending, hget, hpending, htext⟩
  · cases hoff
  · cases hget
    cases hpending
    exact absurd htext (by decide)

end MonitoredBuffer

end EditTracking

end CollabMode
