import CollabMode.Creation

/-!
# Ops of a host in order

A peer keeps the ops that arrive from a host until its editor sends ops, and then
processes them.  Batches are pieces of the host's history and can come late, twice,
in any order, or not at all.

The ops that are kept are always a prefix of what the history has after the last op
processed, `InOrder`.  So the engine is passed the history and nothing else, and an
op that is further on only makes the peer ask for what is missing.
-/

namespace CollabMode

/-- The ops of a history are numbered from 1. -/
def IsHistory (history : List (FatOp Op)) : Prop :=
  ∀ i op, history[i]? = some op → op.seq = some (i + 1)

theorem prefix_snoc {α : Type} {l ops : List α} {n : Nat} {a : α} (h : ops <+: l.drop n)
    (ha : l[n + ops.length]? = some a) : ops ++ [a] <+: l.drop n := by
  obtain ⟨rest, hrest⟩ := h
  rw [← List.getElem?_drop, ← hrest, List.getElem?_append_right (Nat.le_refl _),
    Nat.sub_self] at ha
  cases rest with
  | nil => cases ha
  | cons b rest =>
      cases ha
      exact ⟨rest, by rw [← hrest, List.append_assoc]; rfl⟩

/-- The first op of a piece, and the piece after it. -/
theorem cons_prefix_drop {α : Type} {l ops : List α} {a : α} {i : Nat} (h : a :: ops <+: l.drop i) :
    l[i]? = some a ∧ ops <+: l.drop (i + 1) := by
  obtain ⟨rest, hrest⟩ := h
  constructor
  · rw [← Nat.add_zero i, ← List.getElem?_drop, ← hrest]
    rfl
  · refine ⟨rest, ?_⟩
    rw [← List.drop_drop, ← hrest]
    rfl

theorem drop_of_prefix {α : Type} {l ops : List α} {n : Nat} (h : ops <+: l.drop n) :
    l.drop n = ops ++ l.drop (n + ops.length) := by
  obtain ⟨rest, hrest⟩ := h
  rw [← List.drop_drop, ← hrest, List.drop_left]

/-- Packaging only notes what was sent. -/
theorem ClientEngine.maybePackageLocalOps_sent (eng : ClientEngine) (doc : DocId) :
    ∃ lastSiteSeqSentOut, (eng.maybePackageLocalOps doc).2 = { eng with lastSiteSeqSentOut } := by
  rw [maybePackageLocalOps_eq]
  split
  next => split <;> exact ⟨_, rfl⟩
  next => exact ⟨_, rfl⟩

/-- An op that is the next one is not out of turn. -/
theorem ClientEngine.seqMatches {eng eng' : ClientEngine} {op op' : FatOp Op} {expected : GlobalSeq}
    (hseq : op.seq = some (eng.currentSeq + 1)) :
    eng.processRemoteOp op ≠ some (.error (.seqMismatch expected op'), eng') := by
  intro h
  simp only [processRemoteOp, hseq, ne_eq, not_true_eq_false, if_false] at h
  split at h
  next =>
      split at h
      next => cases h
      next => split at h <;> cases h
  next =>
      simp only [Option.bind_eq_bind, Option.bind_eq_some_iff] at h
      obtain ⟨_, _, h⟩ := h
      cases h

namespace RemoteDoc

/-- The number of the last op that the peer has. -/
def held (self : RemoteDoc) : Nat := self.engine.currentSeq + self.remoteOpBuffer.length

/-- The ops that are kept come next in the history. -/
def InOrder (history : List (FatOp Op)) (self : RemoteDoc) : Prop :=
  self.remoteOpBuffer <+: history.drop self.engine.currentSeq

variable {history : List (FatOp Op)}

theorem InOrder.seqs (hh : IsHistory history) {self : RemoteDoc} (h : self.InOrder history) :
    self.remoteOpBuffer.map FatOp.seq =
      (List.range' (self.engine.currentSeq + 1) self.remoteOpBuffer.length).map some := by
  refine List.ext_getElem (by simp) fun i hi hi' => ?_
  rw [List.length_map] at hi
  have hget : history[self.engine.currentSeq + i]? = some self.remoteOpBuffer[i] := by
    rw [← List.getElem?_drop, drop_of_prefix h, List.getElem?_append_left hi,
      List.getElem?_eq_getElem hi]
  rw [List.getElem_map, hh _ _ hget, List.getElem_map, List.getElem_range']
  congr 1
  omega

/-! ## Ops that arrive -/

/-- A piece of the history is kept as far as it goes on from what is there.  The ops
before it are asked for if they are missing. -/
theorem keepServerOps_spec (hh : IsHistory history) {ops : List (FatOp Op)} {i : Nat}
    (hops : ops <+: history.drop i) {self : RemoteDoc} (h : self.InOrder history) :
    ∃ asked buffer, keepServerOps ops self =
        (true, asked, { self with remoteOpBuffer := buffer }) ∧
      buffer <+: history.drop self.engine.currentSeq ∧
      (ops ≠ [] → self.held < i → self.held ∈ asked) := by
  induction ops generalizing self i with
  | nil => exact ⟨[], _, rfl, h, fun hne => absurd rfl hne⟩
  | cons op ops ih =>
      obtain ⟨hget, hrest⟩ := cons_prefix_drop hops
      have hseq := hh i op hget
      simp only [keepServerOps, hseq]
      split
      next hlt =>
          obtain ⟨asked, buffer, hkeep, hbuffer, _⟩ := ih hrest h
          refine ⟨asked, buffer, hkeep, hbuffer, fun _ hgap => ?_⟩
          have hlt : i + 1 < self.held + 1 := hlt
          exact absurd hlt (by omega)
      next hge =>
          split
          next hgt =>
              obtain ⟨asked, buffer, hkeep, hbuffer, _⟩ := ih hrest h
              exact ⟨self.held :: asked, buffer, by rw [hkeep]; rfl, hbuffer,
                fun _ _ => List.mem_cons_self⟩
          next hle =>
              have hnext : i = self.held := by
                have hge : ¬i + 1 < self.held + 1 := hge
                have hle : ¬i + 1 > self.held + 1 := hle
                omega
              let kept : RemoteDoc := { self with remoteOpBuffer := self.remoteOpBuffer ++ [op] }
              have hpush : kept.remoteOpBuffer <+: history.drop kept.engine.currentSeq :=
                prefix_snoc h (by rw [← hget, hnext]; rfl)
              obtain ⟨asked, buffer, hkeep, hbuffer, _⟩ := ih hrest hpush
              exact ⟨asked, buffer, hkeep, hbuffer, fun _ hgap => absurd hnext (Nat.ne_of_gt hgap)⟩

/-! ## Ops that are processed -/

/-- The calls of `process_remote_op` in the loop over the ops that arrived, each with the
engine it is made on. -/
def serverCalls : List (FatOp Op) → RemoteDoc → List (ClientEngine × FatOp Op)
  | [], _ => []
  | op :: ops, self =>
      (self.engine, op) ::
        match self.processServerOp op with
        | some (.ok _, self) => serverCalls ops self
        | _ => []

/-- The calls of `process_remote_op` when the editor sends ops. -/
def sendCalls (self : RemoteDoc) (ops : List EditorFatOp) : List (ClientEngine × FatOp Op) :=
  match processEditorOps ops { self with remoteOpBuffer := [] } with
  | some (.ok (), doc) => serverCalls self.remoteOpBuffer doc
  | _ => []

/-- The editor's ops leave the place in the history alone. -/
theorem processEditorOps_seq {ops : List EditorFatOp} {self self' : RemoteDoc} {u : Unit}
    (h : processEditorOps ops self = some (.ok u, self')) :
    self'.engine.currentSeq = self.engine.currentSeq ∧
      self'.remoteOpBuffer = self.remoteOpBuffer := by
  induction ops generalizing self with
  | nil => cases h; exact ⟨rfl, rfl⟩
  | cons op ops ih =>
      simp only [processEditorOps, Option.bind_eq_bind, Option.bind_eq_some_iff] at h
      obtain ⟨⟨res, self₁⟩, hone, h⟩ := h
      cases res with
      | error err => cases h
      | ok u =>
          obtain ⟨_, _, _, _, engine, buffer, hstep, _, rfl⟩ := processEditorOp_ok hone
          obtain ⟨hseq, hbuffer⟩ := ih h
          refine ⟨hseq.trans ?_, hbuffer⟩
          rw [hstep.result]

/-- Ops that come next are passed one by one, each at its turn. -/
theorem serverCalls_spec (hh : IsHistory history) {ops : List (FatOp Op)} {self : RemoteDoc}
    (hops : ops <+: history.drop self.engine.currentSeq) :
    (serverCalls ops self).map Prod.snd <+: ops ∧
      ∀ call ∈ serverCalls ops self, call.2.seq = some (call.1.currentSeq + 1) := by
  induction ops generalizing self with
  | nil => exact ⟨List.prefix_rfl, by simp [serverCalls]⟩
  | cons op ops ih =>
      obtain ⟨hget, hrest⟩ := cons_prefix_drop hops
      have hseq := hh _ op hget
      simp only [serverCalls]
      split
      next leanOps self' hone =>
          obtain ⟨_, hcase⟩ := processServerOp_ok hone
          have hnext : self'.engine.currentSeq = self.engine.currentSeq + 1 := by
            rcases hcase with ⟨_, _, _, _, hack, rfl⟩ | ⟨_, _, _, _, _, hforeign, _, rfl⟩
            · rw [hack.result]
            · rw [hforeign.result]
          obtain ⟨hpre, hcalls⟩ := ih (hnext ▸ hrest)
          exact ⟨List.cons_prefix_cons.mpr ⟨rfl, hpre⟩,
            List.forall_mem_cons.mpr ⟨hseq, hcalls⟩⟩
      next =>
          exact ⟨List.cons_prefix_cons.mpr ⟨rfl, List.nil_prefix⟩,
            List.forall_mem_cons.mpr ⟨hseq, by simp⟩⟩

/-- When all of them are taken, all were passed. -/
theorem serverCalls_of_ok {ops : List (FatOp Op)} {self self' : RemoteDoc}
    {leanOps : List EditorLeanOp}
    (h : processServerOps ops self = some (.ok leanOps, self')) :
    (serverCalls ops self).map Prod.snd = ops ∧
      self'.engine.currentSeq = self.engine.currentSeq + ops.length ∧
      self'.remoteOpBuffer = self.remoteOpBuffer := by
  induction ops generalizing self leanOps with
  | nil => cases h; exact ⟨rfl, rfl, rfl⟩
  | cons op ops ih =>
      simp only [processServerOps, Option.bind_eq_bind, Option.bind_eq_some_iff] at h
      obtain ⟨⟨res, self₁⟩, hone, h⟩ := h
      cases res with
      | error err => cases h
      | ok leanOps₁ =>
          simp only [Option.bind_eq_some_iff] at h
          obtain ⟨⟨res, self₂⟩, hall, h⟩ := h
          cases res with
          | error err => cases h
          | ok leanOps₂ =>
              cases h
              obtain ⟨_, hcase⟩ := processServerOp_ok hone
              have hnext : self₁.engine.currentSeq = self.engine.currentSeq + 1 ∧
                  self₁.remoteOpBuffer = self.remoteOpBuffer := by
                rcases hcase with ⟨_, _, _, _, hack, rfl⟩ | ⟨_, _, _, _, _, hforeign, _, rfl⟩
                · exact ⟨by rw [hack.result], rfl⟩
                · exact ⟨by rw [hforeign.result], rfl⟩
              obtain ⟨hcalls, hseq, hbuffer⟩ := ih hall
              refine ⟨?_, ?_, hbuffer.trans hnext.2⟩
              · simp only [serverCalls, hone, List.map_cons, hcalls]
              · rw [hseq, hnext.1, List.length_cons, Nat.add_assoc, Nat.add_comm 1]

/-- What was kept is passed to the engine when the editor sends ops. -/
theorem sendCalls_spec (hh : IsHistory history) {self : RemoteDoc} (h : self.InOrder history)
    (ops : List EditorFatOp) :
    (self.sendCalls ops).map Prod.snd <+: history.drop self.engine.currentSeq ∧
      ∀ call ∈ self.sendCalls ops, call.2.seq = some (call.1.currentSeq + 1) := by
  unfold sendCalls
  split
  next doc hlocal =>
      have hseq := (processEditorOps_seq hlocal).1
      have hbuffer : self.remoteOpBuffer <+: history.drop doc.engine.currentSeq := hseq ▸ h
      obtain ⟨hpre, hcalls⟩ := serverCalls_spec hh hbuffer
      exact ⟨hpre.trans h, hcalls⟩
  next => exact ⟨List.nil_prefix, by simp⟩

/-- The stages of sending ops. -/
theorem sendOps_stages {self self' : RemoteDoc} {docId : DocId} {ops : List EditorFatOp}
    {leanOps : List EditorLeanOp} {batch : Option ContextOps}
    (h : self.sendOps docId ops = some (.ok (leanOps, batch), self')) :
    ∃ edited received engine,
      processEditorOps ops { self with remoteOpBuffer := [] } = some (.ok (), edited) ∧
      processServerOps self.remoteOpBuffer edited = some (.ok leanOps, received) ∧
      received.engine.maybePackageLocalOps docId = (batch, engine) ∧
      self' = { received with engine } := by
  simp only [sendOps, Option.bind_eq_bind, Option.bind_eq_some_iff] at h
  obtain ⟨⟨res, edited⟩, hlocal, h⟩ := h
  cases res with
  | error err => cases h
  | ok u =>
      simp only [Option.bind_eq_some_iff] at h
      obtain ⟨⟨res, received⟩, hserver, h⟩ := h
      cases res with
      | error err => cases h
      | ok leanOps =>
          cases h
          exact ⟨edited, received, _, hlocal, hserver, rfl, rfl⟩

theorem sendOps_ok {self self' : RemoteDoc} {docId : DocId} {ops : List EditorFatOp}
    {r : List EditorLeanOp × Option ContextOps}
    (h : self.sendOps docId ops = some (.ok r, self')) :
    (self.sendCalls ops).map Prod.snd = self.remoteOpBuffer ∧
      self'.engine.currentSeq = self.engine.currentSeq + self.remoteOpBuffer.length ∧
      self'.remoteOpBuffer = [] := by
  obtain ⟨edited, received, engine, hlocal, hserver, hpackage, rfl⟩ := sendOps_stages h
  obtain ⟨hseq, hbuffer⟩ := processEditorOps_seq hlocal
  obtain ⟨hcalls, hseq', hbuffer'⟩ := serverCalls_of_ok hserver
  refine ⟨?_, ?_, hbuffer'.trans hbuffer⟩
  · simp only [sendCalls, hlocal, hcalls]
  · obtain ⟨lastSiteSeqSentOut, hsent⟩ := received.engine.maybePackageLocalOps_sent docId
    rw [hpackage] at hsent
    show engine.currentSeq = _
    rw [show engine = _ from hsent, hseq', hseq]

end RemoteDoc

namespace Server

/-! ## Turns of a server -/

/-- The calls of `process_remote_op` in a turn. -/
def remoteCalls (self : Server) : Event → List (ClientEngine × FatOp Op)
  | .request _ (.sendOps ops file) =>
      match self.remoteDocs.getByEditorDesc file with
      | some (_, remoteDoc) => remoteDoc.sendCalls ops
      | none => []
  | _ => []

/-- The calls of `process_remote_op` over a run.  A panic ends it. -/
def runCalls : List (Os × Event) → Server → List (ClientEngine × FatOp Op)
  | [], _ => []
  | turn :: turns, self =>
      self.remoteCalls turn.2 ++
        match self.step turn with
        | some self => runCalls turns self
        | none => []

/-- What happens to a document of a host: a piece of the history arrives, and the
editor sends ops. -/
inductive Delivery (history : List (FatOp Op)) (file : EditorFileDesc) (docId : DocId) :
    Event → Prop where
  | batch {reqId : Option RequestId} {ops : List (FatOp Op)} {i : Nat}
      (piece : ops <+: history.drop i) :
      Delivery history file docId
        (.message { host := file.hostId, body := .opFromServer docId ops, reqId })
  | sendOps {reqId : RequestId} {ops : List EditorFatOp} :
      Delivery history file docId (.request reqId (.sendOps ops file))

/-- The document is open, and the last op processed has the number `seq`. -/
def OpenAt (self : Server) (history : List (FatOp Op)) (file : EditorFileDesc) (docId : DocId)
    (seq : GlobalSeq) : Prop :=
  ∃ remoteDoc, self.remoteDocs.getByEditorDesc file = some (docId, remoteDoc) ∧
    remoteDoc.InOrder history ∧ remoteDoc.engine.currentSeq = seq

/-- The document is not open any more. -/
structure Gone (server : Server) (file : EditorFileDesc) (docId : DocId) : Prop where
  desc : server.remoteDocs.getByEditorDesc file = none
  get : server.remoteDocs.get file.hostId docId = none

end Server

namespace RemoteDocs

theorem getByEditorDesc_some {self : RemoteDocs} {file : EditorFileDesc} {docId : DocId}
    {remoteDoc : RemoteDocEntry} :
    self.getByEditorDesc file = some (docId, remoteDoc) ↔
      AssocMap.get self.editorMap file = some docId ∧
        self.get file.hostId docId = some remoteDoc := by
  simp only [getByEditorDesc, Option.bind_eq_bind, Option.bind_eq_some_iff]
  constructor
  · rintro ⟨docId', hmap, doc, hget, heq⟩
    cases heq
    exact ⟨hmap, hget⟩
  · rintro ⟨hmap, hget⟩
    exact ⟨docId, hmap, remoteDoc, hget, rfl⟩

theorem getByEditorDesc_set {self : RemoteDocs} {file : EditorFileDesc} {docId : DocId}
    {remoteDoc : RemoteDocEntry} (h : self.getByEditorDesc file = some (docId, remoteDoc))
    (remoteDoc' : RemoteDocEntry) :
    (self.set file.hostId docId remoteDoc').getByEditorDesc file = some (docId, remoteDoc') :=
  getByEditorDesc_some.mpr
    ⟨(getByEditorDesc_some.mp h).1, AssocMap.get_insert_self _ _ _⟩

/-- A document that was removed is found neither way. -/
theorem getByEditorDesc_remove {self : RemoteDocs} {file : EditorFileDesc} {docId : DocId}
    {remoteDoc : RemoteDocEntry} (h : self.getByEditorDesc file = some (docId, remoteDoc)) :
    (self.remove file.hostId docId).2.getByEditorDesc file = none ∧
      (self.remove file.hostId docId).2.get file.hostId docId = none := by
  obtain ⟨hmap, hget⟩ := getByEditorDesc_some.mp h
  have hnone : (self.remove file.hostId docId).2.get file.hostId docId = none := by
    simp only [remove, hget]
    rw [get, AssocMap.get_erase, if_pos rfl]
  refine ⟨?_, hnone⟩
  rw [Option.eq_none_iff_forall_ne_some]
  rintro ⟨docId', remoteDoc'⟩ hsome
  obtain ⟨hmap', hget'⟩ := getByEditorDesc_some.mp hsome
  have hsame : docId' = docId := by
    simp only [remove, hget] at hmap'
    rw [AssocMap.get_erase] at hmap'
    split at hmap'
    next => cases hmap'
    next => exact Option.some.inj (hmap'.symm.trans hmap)
  rw [hsame, hnone] at hget'
  cases hget'

end RemoteDocs

namespace Server

variable {history : List (FatOp Op)} {file : EditorFileDesc} {docId : DocId}

theorem OpenAt.batch (hh : IsHistory history) {self : Server} {remoteDoc : RemoteDocEntry}
    (hdesc : self.remoteDocs.getByEditorDesc file = some (docId, remoteDoc))
    (horder : remoteDoc.InOrder history) {ops : List (FatOp Op)} {i : Nat}
    (hops : ops <+: history.drop i) (reqId : Option RequestId) :
    (self.handleOpFromServer reqId docId ops file.hostId).1.OpenAt history file docId
        remoteDoc.engine.currentSeq ∧
      (ops ≠ [] → remoteDoc.held < i →
        .send file.hostId reqId (.requestOps docId remoteDoc.held) ∈
          (self.handleOpFromServer reqId docId ops file.hostId).2) := by
  cases ops with
  | nil => exact ⟨⟨remoteDoc, hdesc, horder, rfl⟩, fun hne => absurd rfl hne⟩
  | cons op ops =>
      obtain ⟨asked, buffer, hkeep, hbuffer, hasked⟩ :=
        RemoteDoc.keepServerOps_spec hh hops horder
      have hget := (RemoteDocs.getByEditorDesc_some.mp hdesc).2
      simp only [handleOpFromServer, hget, hkeep, Bool.not_true, Bool.false_eq_true, if_false]
      refine ⟨⟨_, RemoteDocs.getByEditorDesc_set hdesc _, hbuffer, rfl⟩, fun hne hgap => ?_⟩
      exact List.mem_append_left _ (List.mem_map.mpr ⟨_, hasked hne hgap, rfl⟩)

/-- The editor's ops have all ops that were kept processed, or end the document. -/
theorem OpenAt.sendOps {self after : Server}
    {remoteDoc : RemoteDocEntry}
    (hdesc : self.remoteDocs.getByEditorDesc file = some (docId, remoteDoc))
    (horder : remoteDoc.InOrder history) {reqId : RequestId} {ops : List EditorFatOp}
    {effects : List Effect}
    (h : self.handleSendOpsFromEditor reqId ops file = some (after, effects)) :
    after.Gone file docId ∨
      after.OpenAt history file docId
          (remoteDoc.engine.currentSeq + (remoteDoc.sendCalls ops).length) ∧
        history.drop remoteDoc.engine.currentSeq = (remoteDoc.sendCalls ops).map Prod.snd ++
          history.drop (remoteDoc.engine.currentSeq + (remoteDoc.sendCalls ops).length) := by
  simp only [handleSendOpsFromEditor, hdesc, Option.bind_eq_bind, Option.bind_eq_some_iff] at h
  obtain ⟨⟨res, doc⟩, hsend, h⟩ := h
  cases res with
  | error err =>
      cases h
      obtain ⟨hnone, hget⟩ := RemoteDocs.getByEditorDesc_remove hdesc
      exact .inl ⟨hnone, hget⟩
  | ok r =>
      cases h
      obtain ⟨hcalls, hseq, hbuffer⟩ := RemoteDoc.sendOps_ok hsend
      have hlen : (remoteDoc.sendCalls ops).length = remoteDoc.remoteOpBuffer.length := by
        rw [← hcalls, List.length_map]
      refine .inr ⟨⟨_, RemoteDocs.getByEditorDesc_set hdesc _, ?_, hseq.trans (by rw [hlen])⟩, ?_⟩
      · show doc.remoteOpBuffer <+: _
        rw [hbuffer]
        exact List.nil_prefix
      · rw [hcalls, hlen]
        exact drop_of_prefix horder

/-- What one turn does. -/
theorem OpenAt.turn (hh : IsHistory history) {self : Server} {seq : GlobalSeq}
    (h : self.OpenAt history file docId seq) {turn : Os × Event}
    (hturn : Delivery history file docId turn.2) :
    ((self.remoteCalls turn.2).map Prod.snd <+: history.drop seq ∧
      ∀ call ∈ self.remoteCalls turn.2, call.2.seq = some (call.1.currentSeq + 1)) ∧
    ∀ after, self.step turn = some after → after.Gone file docId ∨
      after.OpenAt history file docId (seq + (self.remoteCalls turn.2).length) ∧
        history.drop seq = (self.remoteCalls turn.2).map Prod.snd ++
          history.drop (seq + (self.remoteCalls turn.2).length) := by
  obtain ⟨os, event⟩ := turn
  obtain ⟨remoteDoc, hdesc, horder, rfl⟩ := h
  cases hturn with
  | @batch reqId ops i piece =>
      refine ⟨⟨List.nil_prefix, by simp [remoteCalls]⟩, fun after hstep => .inr ?_⟩
      cases Option.some.inj hstep
      exact ⟨(OpenAt.batch hh hdesc horder piece reqId).1, rfl⟩
  | @sendOps reqId ops =>
      have hcalls : self.remoteCalls (.request reqId (.sendOps ops file)) =
          remoteDoc.sendCalls ops := by
        simp only [remoteCalls, hdesc]
      rw [hcalls]
      refine ⟨RemoteDoc.sendCalls_spec hh horder ops, fun after hstep => ?_⟩
      obtain ⟨⟨after', effects⟩, hhandle, rfl⟩ := Option.map_eq_some_iff.mp hstep
      exact OpenAt.sendOps hdesc horder hhandle

/-- A document that is gone stays gone, and nothing is passed to its engine. -/
theorem Gone.turn {self : Server} (h : self.Gone file docId) {turn : Os × Event}
    (hturn : Delivery history file docId turn.2) :
    self.remoteCalls turn.2 = [] ∧ self.step turn = some self := by
  obtain ⟨os, event⟩ := turn
  cases hturn with
  | @batch reqId ops i piece =>
      refine ⟨rfl, ?_⟩
      cases ops with
      | nil => rfl
      | cons op ops =>
          show some (self.handleOpFromServer reqId docId (op :: ops) file.hostId).1 = some self
          simp only [handleOpFromServer, h.get]
  | @sendOps reqId ops =>
      refine ⟨by simp only [remoteCalls, h.desc], ?_⟩
      show (self.handleSendOpsFromEditor reqId ops file).map Prod.fst = some self
      simp only [handleSendOpsFromEditor, h.desc, Option.map_some]

theorem Gone.run {self : Server} (h : self.Gone file docId) {turns : List (Os × Event)}
    (hturns : ∀ turn ∈ turns, Delivery history file docId turn.2) :
    runCalls turns self = [] ∧ Run.run step self turns = some self := by
  induction turns with
  | nil => exact ⟨rfl, rfl⟩
  | cons turn turns ih =>
      obtain ⟨hturn, hturns⟩ := List.forall_mem_cons.mp hturns
      obtain ⟨hcalls, hstep⟩ := h.turn hturn
      obtain ⟨hrest, hrun⟩ := ih hturns
      refine ⟨?_, ?_⟩
      · simp only [runCalls, hcalls, hstep, hrest, List.append_nil]
      · rw [Run.run_cons, hstep]
        exact hrun

theorem OpenAt.run (hh : IsHistory history) {self : Server} {seq : GlobalSeq}
    (h : self.OpenAt history file docId seq) {turns : List (Os × Event)}
    (hturns : ∀ turn ∈ turns, Delivery history file docId turn.2) :
    ((runCalls turns self).map Prod.snd <+: history.drop seq ∧
      ∀ call ∈ runCalls turns self, call.2.seq = some (call.1.currentSeq + 1)) ∧
    ∀ after, Run.run step self turns = some after → after.Gone file docId ∨
      after.OpenAt history file docId (seq + (runCalls turns self).length) := by
  induction turns generalizing self seq with
  | nil =>
      refine ⟨⟨List.nil_prefix, by simp [runCalls]⟩, fun after hrun => .inr ?_⟩
      cases hrun
      exact h
  | cons turn turns ih =>
      obtain ⟨hturn, hturns⟩ := List.forall_mem_cons.mp hturns
      obtain ⟨⟨hpre, hseqs⟩, hstep⟩ := h.turn hh hturn
      simp only [runCalls, Run.run_cons]
      cases hself : self.step turn with
      | none =>
          rw [List.append_nil]
          exact ⟨⟨hpre, hseqs⟩, fun after hrun => by cases hrun⟩
      | some next =>
          dsimp only [Option.bind_some]
          rcases hstep next hself with hgone | ⟨hopen, hdrop⟩
          · obtain ⟨hnone, hrun⟩ := hgone.run hturns
            rw [hnone, List.append_nil]
            refine ⟨⟨hpre, hseqs⟩, fun after hafter => .inl ?_⟩
            cases hrun.symm.trans hafter
            exact hgone
          · obtain ⟨⟨hpre', hseqs'⟩, hafter⟩ := ih hopen hturns
            refine ⟨⟨?_, List.forall_mem_append.mpr ⟨hseqs, hseqs'⟩⟩, fun after hrun => ?_⟩
            · rw [List.map_append, hdrop]
              exact (List.prefix_append_right_inj _).mpr hpre'
            · rw [List.length_append, ← Nat.add_assoc]
              exact hafter after hrun

/-- Whatever batches of the host's history arrive between the editor's ops, the engine is
passed the history in order, each op once and at its turn.  What is kept comes next, and
a batch that is further on has the peer ask for the ops it does not have. -/
theorem delivers (hh : IsHistory history) {self : Server} {remoteDoc : RemoteDocEntry}
    (hdesc : self.remoteDocs.getByEditorDesc file = some (docId, remoteDoc))
    (hfresh : remoteDoc.remoteOpBuffer = []) {turns : List (Os × Event)}
    (hturns : ∀ turn ∈ turns, Delivery history file docId turn.2) :
    (runCalls turns self).map Prod.snd <+: history.drop remoteDoc.engine.currentSeq ∧
    (∀ call ∈ runCalls turns self, ∀ expected op engine,
      call.1.processRemoteOp call.2 ≠ some (.error (.seqMismatch expected op), engine)) ∧
    ∀ after, Run.run step self turns = some after → ∀ remoteDoc',
      after.remoteDocs.get file.hostId docId = some remoteDoc' →
        remoteDoc'.engine.currentSeq =
            remoteDoc.engine.currentSeq + (runCalls turns self).length ∧
        remoteDoc'.remoteOpBuffer.map FatOp.seq =
            (List.range' (remoteDoc'.engine.currentSeq + 1)
              remoteDoc'.remoteOpBuffer.length).map some ∧
        ∀ os reqId i ops next effects, ops <+: history.drop i → ops ≠ [] →
          remoteDoc'.held < i →
          after.handle os (.message { host := file.hostId, body := .opFromServer docId ops, reqId })
            = some (next, effects) →
          .send file.hostId reqId (.requestOps docId remoteDoc'.held) ∈ effects := by
  have hopen : self.OpenAt history file docId remoteDoc.engine.currentSeq := by
    refine ⟨remoteDoc, hdesc, ?_, rfl⟩
    rw [RemoteDoc.InOrder, hfresh]
    exact List.nil_prefix
  obtain ⟨⟨hpre, hseqs⟩, hrun⟩ := hopen.run hh hturns
  refine ⟨hpre, fun call hcall expected op engine herr => ?_, fun after hafter doc hget => ?_⟩
  · exact ClientEngine.seqMatches (hseqs call hcall) herr
  · rcases hrun after hafter with hgone | ⟨doc', hdesc', horder, hseq⟩
    · rw [hgone.get] at hget
      cases hget
    · cases (RemoteDocs.getByEditorDesc_some.mp hdesc').2.symm.trans hget
      refine ⟨hseq, horder.seqs hh, fun os reqId i ops next effects hops hne hgap hhandle => ?_⟩
      have hasks := (OpenAt.batch hh hdesc' horder hops reqId).2 hne hgap
      rwa [turn_of_some hhandle] at hasks

/-- A peer that has opened a file of host 7. -/
def following : Server :=
  (fresh.handleSnapshot 1
    { content := ['a'], internalDoc := InternalDoc.new 1, name := ['f'], seq := 0, siteId := 1
      fileDesc := .projectFile ['p'] ['f'], docId := 3 } 7).1

/-- Two insertions of another site. -/
def twoInsertions : List (FatOp Op) :=
  [{ seq := some 1, op := .ins (0, ['b']) 2, siteSeq := 1, kind := .original, groupSeq := 0 },
    { seq := some 2, op := .ins (0, ['c']) 2, siteSeq := 2, kind := .original, groupSeq := 0 }]

def followed : EditorFileDesc := EditorFileDesc.new (.projectFile ['p'] ['f']) 7

/-- The second insertion comes first, and then both. -/
def arrivals : List (Os × Event) :=
  [(Os.bare, .message
      { host := 7, body := .opFromServer 3 (twoInsertions.drop 1), reqId := none }),
    (Os.bare, .message { host := 7, body := .opFromServer 3 twoInsertions, reqId := none }),
    (Os.bare, .request 2 (.sendOps [] followed))]

theorem delivers_sample :
    ∃ remoteDoc, following.remoteDocs.getByEditorDesc followed = some (3, remoteDoc) ∧
      (runCalls arrivals following).map Prod.snd <+:
        twoInsertions.drop remoteDoc.engine.currentSeq := by
  have hh : IsHistory twoInsertions := by
    intro i op hop
    match i with
    | 0 => cases hop; rfl
    | 1 => cases hop; rfl
    | i + 2 => cases hop
  have hturns : ∀ turn ∈ arrivals, Delivery twoInsertions followed 3 turn.2 := by
    intro turn hturn
    simp only [arrivals, List.mem_cons, List.not_mem_nil, or_false] at hturn
    rcases hturn with rfl | rfl | rfl
    · exact .batch List.prefix_rfl
    · exact .batch (i := 0) List.prefix_rfl
    · exact .sendOps
  exact ⟨_, rfl, (@delivers twoInsertions followed 3 hh following _ rfl rfl arrivals hturns).1⟩

/-- All ops were passed after all. -/
example : ((runCalls arrivals following).map Prod.snd).length = 2 := by decide

/-- A snapshot opens a document in the state that `delivers` starts from. -/
theorem opened_handleSnapshot (self : Server) (reqId : RequestId) (snapshot : NewSnapshot)
    (host : ServerId)
    (hnew : (self.remoteDocs.docs.find? fun entry =>
      entry.1.1 == host && entry.2.fileDesc == snapshot.fileDesc) = none) :
    ∃ remoteDoc, (self.handleSnapshot reqId snapshot host).1.remoteDocs.getByEditorDesc
        (EditorFileDesc.new snapshot.fileDesc host) = some (snapshot.docId, remoteDoc) ∧
      remoteDoc.remoteOpBuffer = [] ∧ remoteDoc.engine.currentSeq = snapshot.seq := by
  have hhost : (EditorFileDesc.new snapshot.fileDesc host).hostId = host := by
    cases snapshot.fileDesc <;> rfl
  simp only [handleSnapshot, hnew]
  exact ⟨_, RemoteDocs.getByEditorDesc_some.mpr
    ⟨AssocMap.get_insert_self _ _ _, by rw [hhost]; exact AssocMap.get_insert_self _ _ _⟩, rfl, rfl⟩

/-- The answer to a peer that asks for ops goes on after the last one it has. -/
theorem pieces_handleRequestOps {self : Server} {reqId : Option RequestId} {docId : DocId}
    {held : GlobalSeq} {host : ServerId} {ops : List (FatOp Op)}
    (h : .send host reqId (.opFromServer docId ops) ∈
      (self.handleRequestOps reqId docId held host).2) :
    ∃ doc, self.doc? docId = some doc ∧ ops = doc.engine.gh.global.drop held := by
  unfold handleRequestOps at h
  split at h
  next => cases List.mem_singleton.mp h
  next doc hget =>
      dsimp only at h
      split at h
      next => cases h
      next =>
          cases List.mem_singleton.mp h
          exact ⟨doc, hget, GlobalHistory.opsAfter_eq _ _⟩

end Server

end CollabMode
