import CollabMode.Ack
import CollabMode.Watching

/-!
# Copies of a document's history

The history of a document that is served is numbered from 1 and only grows, and the id of the
document is not given again.  What the host sends of the history is a piece of it.  So a copy has
what the host has ordered since the snapshot, op for op and in the same order, however late the
messages come and whichever of them are lost, and what it keeps for later comes next.
-/

namespace CollabMode

/-- What an op is known by on both ends: its number, its site, and its number there. -/
def FatOp.key (op : FatOp Op) : Option GlobalSeq × SiteId × LocalSeq :=
  (op.seq, op.site, op.siteSeq)

theorem FatOp.key_through (op : FatOp Op) (ops : List (FatOp Op)) :
    (Grid.through FatOp.transform op ops).key = op.key :=
  Grid.Keeps.through (fun a b => by simp [key]) op ops

/-! ## Copies -/

theorem IsHistory.getElem?_of_seq {history : List (FatOp Op)} (hh : IsHistory history)
    {op : FatOp Op} (hmem : op ∈ history) {n : Nat} (hseq : op.seq = some (n + 1)) :
    history[n]? = some op := by
  obtain ⟨i, hi⟩ := List.mem_iff_getElem?.mp hmem
  have hnum := hh i op hi
  rw [hseq, Option.some_inj, Nat.succ_inj] at hnum
  exact hnum ▸ hi

/-- The ordered ops of an engine are those of the history, from the snapshot to the last number
that it has seen. -/
structure ClientEngine.Replicates (history : List (FatOp Op)) (eng : ClientEngine) : Prop where
  le : eng.currentSeq ≤ history.length
  global : eng.gh.global.map FatOp.key <:+ (history.take eng.currentSeq).map FatOp.key

namespace ClientEngine.Replicates

variable {history : List (FatOp Op)} {eng eng' : ClientEngine}

theorem new {seq : GlobalSeq} (hseq : seq ≤ history.length) (site : SiteId)
    (internalDoc : InternalDoc) : (ClientEngine.new site seq internalDoc).Replicates history :=
  ⟨hseq, List.nil_suffix⟩

theorem mono (h : eng.Replicates history) (new : List (FatOp Op)) :
    eng.Replicates (history ++ new) := by
  refine ⟨?_, ?_⟩
  · rw [List.length_append]
    exact Nat.le_add_right_of_le h.le
  · rw [List.take_append_of_le_length h.le]
    exact h.global

/-- The next op of the history is taken. -/
theorem snoc (h : eng.Replicates history) {op op' : FatOp Op}
    (hnext : history[eng.currentSeq]? = some op) (hkey : op'.key = op.key)
    (hseq : eng'.currentSeq = eng.currentSeq + 1)
    (hglobal : eng'.gh.global = eng.gh.global ++ [op']) : eng'.Replicates history := by
  refine ⟨?_, ?_⟩
  · rw [hseq]
    exact (List.getElem?_eq_some_iff.mp hnext).1
  · obtain ⟨front, hfront⟩ := h.global
    refine ⟨front, ?_⟩
    rw [hseq, hglobal, List.take_add_one, hnext, List.map_append, List.map_append, ← hfront,
      List.append_assoc]
    simp [hkey]

end ClientEngine.Replicates

/-- A copy has the history up to a number, and what it keeps comes next. -/
structure RemoteDoc.Replicates (history : List (FatOp Op)) (doc : RemoteDoc) : Prop where
  engine : doc.engine.Replicates history
  inOrder : doc.InOrder history

namespace RemoteDoc.Replicates

variable {history : List (FatOp Op)} {self self' : RemoteDoc}

theorem new {seq : GlobalSeq} (hseq : seq ≤ history.length) (content : Text) (site : SiteId)
    (internalDoc : InternalDoc) :
    (RemoteDoc.new content (ClientEngine.new site seq internalDoc)).Replicates history :=
  ⟨.new hseq site internalDoc, List.nil_prefix⟩

theorem mono (h : self.Replicates history) (new : List (FatOp Op)) :
    self.Replicates (history ++ new) := by
  refine ⟨h.engine.mono new, ?_⟩
  rw [InOrder, List.drop_append_of_le_length h.engine.le]
  exact h.inOrder.trans (List.prefix_append _ _)

theorem keepServerOps (h : self.Replicates history) (hh : IsHistory history)
    {ops : List (FatOp Op)} {i : Nat} (hops : ops <+: history.drop i) {numbered : Bool}
    {asks : List GlobalSeq} (hkeeps : RemoteDoc.keepServerOps ops self = (numbered, asks, self')) :
    numbered = true ∧ self'.Replicates history := by
  obtain ⟨asked, buffer, hkeep, hbuffer, -⟩ := keepServerOps_spec hh hops h.inOrder
  cases hkeep.symm.trans hkeeps
  exact ⟨rfl, h.engine, hbuffer⟩

theorem sendOps (h : self.Replicates history) (hh : IsHistory history) {docId : DocId}
    {ops : List EditorFatOp} {leanOps : List EditorLeanOp} {batch : Option ContextOps}
    (hsends : self.sendOps docId ops = some (.ok (leanOps, batch), self')) :
    self'.Replicates history := by
  have hmem : ∀ op ∈ self.remoteOpBuffer, op ∈ history := fun op hop =>
    List.mem_of_mem_drop (h.inOrder.subset hop)
  obtain ⟨eng, heng, hpackage⟩ :=
    sendOps_engine (P := ClientEngine.Replicates history)
      (fun eng _ _ _ _ _ gh _ hstep hP => by
        rw [hstep.result]
        exact ⟨hP.le, by rw [(GlobalHistory.recordOps_ok hstep.records).1]; exact hP.global⟩)
      (fun _ _ _ _ _ hop hseq hstep hP => by
        rw [hstep.result]
        exact hP.snoc (hh.getElem?_of_seq (hmem _ hop) hseq) rfl rfl rfl)
      (fun _ _ _ _ _ hop hseq hstep hP => by
        rw [hstep.result]
        exact hP.snoc (hh.getElem?_of_seq (hmem _ hop) hseq) (FatOp.key_through _ _) rfl rfl)
      hsends h.engine
  obtain ⟨sent, hsent⟩ := eng.maybePackageLocalOps_sent docId
  rw [hpackage] at hsent
  have hengine : self'.engine = { eng with lastSiteSeqSentOut := sent } := hsent
  refine ⟨by rw [hengine]; exact ⟨heng.le, heng.global⟩, ?_⟩
  rw [InOrder, (sendOps_ok hsends).2.2]
  exact List.nil_prefix

end RemoteDoc.Replicates

/-! ## The history at the host -/

theorem Doc.currentSeq_of_applyOps {ops : List (FatOp Op)} {self self' : Doc}
    {res : Except CollabError Unit} (h : applyOps ops self = some (res, self')) :
    self'.engine.currentSeq = self.engine.currentSeq := by
  induction ops generalizing self with
  | nil => cases h; rfl
  | cons op ops ih =>
      simp only [applyOps, applyOp, ServerEngine.convertInternalOpAndApply, Option.bind_eq_bind,
        Option.bind_eq_some_iff] at h
      obtain ⟨⟨res, self₁⟩, ⟨_, ⟨⟨instr, doc⟩, hconv, heq⟩, ⟨res', buffer⟩, happly, h₁⟩, h⟩ := h
      cases heq
      cases res' with
      | error err' => cases h₁; cases h; rfl
      | ok u' =>
          cases h₁
          dsimp only at h
          split at h
          next => cases h; rfl
          next => exact (ih h :)

/-- The document has this history. -/
structure Doc.Logs (history : List (FatOp Op)) (doc : Doc) : Prop where
  numbered : Numbered doc
  global : doc.engine.gh.global = history

namespace Doc.Logs

variable {history : List (FatOp Op)} {doc doc' : Doc}

theorem isHistory (h : doc.Logs history) : IsHistory history := h.global ▸ h.numbered.seqs

theorem currentSeq (h : doc.Logs history) : doc.engine.currentSeq = history.length :=
  h.numbered.counted.trans (congrArg List.length h.global)

theorem new (content : Text) (len : Nat) : (Doc.new content (ServerEngine.new len)).Logs [] :=
  ⟨⟨rfl, fun _ _ hop => nomatch hop⟩, rfl⟩

/-- The text and the subscribers do not matter. -/
theorem of_engine (h : doc.Logs history) (hseq : doc'.engine.currentSeq = doc.engine.currentSeq)
    (hgh : doc'.engine.gh = doc.engine.gh) : doc'.Logs history := by
  refine ⟨⟨?_, ?_⟩, hgh ▸ h.global⟩
  · rw [hseq, hgh]
    exact h.numbered.counted
  · rw [hgh]
    exact h.numbered.seqs

/-- A batch that is ordered comes after the rest, also when it cannot be applied. -/
theorem applyOps (h : doc.Logs history) {ops : List (FatOp Op)} {context : GlobalSeq}
    {ordered : Doc} {res : Except CollabError Unit}
    (hrun : Doc.applyOps (doc.ordered ops context) ordered = some (res, doc'))
    (hordered : ordered.engine = (doc.append (doc.ordered ops context)).engine) :
    doc'.Logs (history ++ doc.ordered ops context) := by
  have happend : (doc.append (doc.ordered ops context)).Logs
      (history ++ doc.ordered ops context) :=
    ⟨h.numbered.append ops context, congrArg (· ++ doc.ordered ops context) h.global⟩
  refine happend.of_engine ?_ ?_
  · rw [currentSeq_of_applyOps hrun, hordered]
  · rw [gh_of_applyOps hrun, hordered]

/-- Also what another program has changed comes after the rest. -/
theorem resetFromDisk (h : doc.Logs history) {chunks : List Chunk}
    {res : Except CollabError (List (FatOp Op))}
    (hrun : doc.resetFromDisk chunks = some (res, doc')) :
    ∃ new, doc'.Logs (history ++ new) ∧ ∀ processed, res = .ok processed → processed = new := by
  simp only [Doc.resetFromDisk] at hrun
  split at hrun
  next =>
      cases hrun
      refine ⟨[], ?_, fun _ heq => ?_⟩
      · rw [List.append_nil]
        exact h.of_engine rfl rfl
      · cases heq
        rfl
  next =>
      simp only [processAndApply, processOps_eq, Option.bind_eq_bind, Option.bind_eq_some_iff,
        Prod.exists] at hrun
      obtain ⟨res', applied, happly, hrun⟩ := hrun
      refine ⟨_, (h.applyOps happly rfl).of_engine ?_ ?_, ?_⟩
      all_goals split at hrun <;> cases hrun
      all_goals first | rfl | (intro _ heq; cases heq; try rfl)

end Doc.Logs

/-- What a host sends of a history is a piece of it, or a snapshot of what it was. -/
def Msg.Tells (d : DocId) (history : List (FatOp Op)) : Msg → Prop
  | .opFromServer docId ops => docId = d → ∃ i, ops <+: history.drop i
  | .snapshot made => made.docId = d → made.seq ≤ history.length
  | _ => True

theorem Msg.Tells.mono {d : DocId} {history : List (FatOp Op)} {msg : Msg}
    (h : msg.Tells d history) (new : List (FatOp Op)) : msg.Tells d (history ++ new) := by
  cases msg with
  | opFromServer docId ops =>
      intro habout
      obtain ⟨i, hi⟩ := h habout
      rw [Msg.Tells] at h
      refine ⟨i, hi.trans ?_⟩
      rw [List.drop_append]
      exact List.prefix_append _ _
  | snapshot snapshot =>
      intro habout
      rw [List.length_append]
      exact Nat.le_add_right_of_le (h habout)
  | _ => trivial

theorem Msg.tells_of_told? {d : DocId} {history : List (FatOp Op)} {msg : Msg}
    (h : msg.told? ≠ some d) : msg.Tells d history := by
  cases msg with
  | opFromServer docId ops => exact fun habout => absurd (congrArg some habout) h
  | snapshot made => exact fun habout => absurd (congrArg some habout) h
  | _ => trivial

theorem Msg.tells_of_isOfConnection {d : DocId} {history : List (FatOp Op)} {msg : Msg}
    (h : msg.isOfConnection = true) : msg.Tells d history := by
  cases msg with
  | opFromServer | snapshot => cases h
  | _ => trivial

theorem Msg.docId?_of_told? {d : DocId} {msg : Msg} (h : msg.told? = some d) :
    msg.docId? = some d := by
  cases msg <;> first | exact h | cases h

theorem tells_tell {doc : Doc} {d : DocId} {ops history : List (FatOp Op)} {i : Nat}
    (hops : ops <+: history.drop i) : ∀ sent ∈ doc.tell d ops, sent.2.Tells d history := by
  intro sent hsent
  obtain ⟨host, -, rfl⟩ := List.mem_map.mp hsent
  exact fun _ => ⟨i, hops⟩

namespace Server

variable {os : Os} {before after : Server} {event : Event} {d : DocId} {now next : Option Doc}
  {sent : List (ServerId × Msg)} {history : List (FatOp Op)}

/-- A turn adds to the history of a document, and what is told of it is a piece of it. -/
theorem HostStep.grows (h : HostStep os before d event now next sent) (hh : IsHistory history)
    (hnow : ∀ doc, now = some doc → doc.Logs history)
    (hearly : before.nextDocId ≤ d → history = []) :
    ∃ new, IsHistory (history ++ new) ∧ (now = none → new = []) ∧
      (∀ doc, next = some doc → doc.Logs (history ++ new)) ∧
      ∀ msg ∈ sent, msg.2.Tells d (history ++ new) := by
  have hsame {next : Option Doc} {sent : List (ServerId × Msg)}
      (hnext : ∀ doc, next = some doc → doc.Logs history)
      (hsent : ∀ msg ∈ sent, msg.2.Tells d history) :
      ∃ new, IsHistory (history ++ new) ∧ (now = none → new = []) ∧
        (∀ doc, next = some doc → doc.Logs (history ++ new)) ∧
        ∀ msg ∈ sent, msg.2.Tells d (history ++ new) :=
    ⟨[], by rw [List.append_nil]; exact ⟨hh, fun _ => rfl, hnext, hsent⟩⟩
  cases h with
  | still | absent => exact hsame hnow (by simp)
  | refused _ _ fatal =>
      refine hsame hnow fun msg hmsg => ?_
      obtain ⟨reason, rfl⟩ := fatal msg hmsg
      trivial
  | @accepted host reqId ops entry lastSeq res applied _ _ _ applies =>
      have hlogs := (hnow _ rfl).applyOps applies rfl
      refine ⟨_, hlogs.isHistory, nofun, fun doc heq => ?_, ?_⟩
      · cases heq
        exact hlogs
      · cases res with
        | error err => simp
        | ok u => exact tells_tell (i := history.length) (by simp)
  | @subscribed host reqId seq doc =>
      have hlogs := hnow _ rfl
      refine hsame (fun doc heq => ?_) fun msg hmsg => ?_
      · cases heq
        exact hlogs.of_engine rfl rfl
      · split at hmsg
        next => cases hmsg
        next =>
            cases List.mem_singleton.mp hmsg
            refine fun _ => ⟨seq, ?_⟩
            rw [ServerEngine.globalOpsAfter, GlobalHistory.opsAfter_eq, hlogs.global]
  | unsubscribed | openedOwn =>
      refine hsame (fun doc heq => ?_) (by simp)
      cases heq
      exact (hnow _ rfl).of_engine rfl rfl
  | found =>
      refine hsame hnow fun msg hmsg => ?_
      cases List.mem_singleton.mp hmsg
      exact fun _ => (hnow _ rfl).currentSeq.le
  | made next =>
      obtain rfl := hearly next.ge
      refine hsame (fun doc heq => ?_) fun msg hmsg => ?_
      · cases heq
        exact Doc.Logs.new _ _
      · cases List.mem_singleton.mp hmsg
        exact fun _ => Nat.le_refl 0
  | @madeOwn event content _ next =>
      obtain rfl := hearly next.ge
      refine hsame (fun doc heq => ?_) (by simp)
      cases heq
      exact (Doc.Logs.new content _).of_engine rfl rfl
  | reset _ applies tells =>
      obtain ⟨new, hlogs, hnew⟩ := (hnow _ rfl).resetFromDisk applies
      refine ⟨new, hlogs.isHistory, nofun, fun doc heq => ?_, ?_⟩
      · cases heq
        exact hlogs
      · rcases tells with rfl | ⟨processed, hres, rfl⟩
        · simp
        · rw [hnew processed hres]
          exact tells_tell (i := history.length) (by simp)
  | closed => exact hsame nofun (by simp)

/-- A turn of a client keeps its copy on the history. -/
theorem ClientStep.replicates {h : ServerId} {copy copy' : Option RemoteDocEntry}
    {asks : List Msg} (hstep : ClientStep before after h d event copy copy' asks)
    (hh : IsHistory history) (hcopy : ∀ entry, copy = some entry → entry.Replicates history)
    (harrived : ∀ msg, event = .message msg → msg.host = h → msg.body.Tells d history)
    (hown : h = before.hostId → ∀ doc, after.hosted d = some doc → doc.Logs history) :
    ∀ entry, copy' = some entry → entry.Replicates history := by
  intro entry' heq
  cases hstep with
  | still => exact hcopy entry' heq
  | ended | closed | unnumbered | stray | dropped => cases heq
  | kept keeps =>
      cases heq
      obtain ⟨i, hi⟩ := harrived _ rfl rfl rfl
      exact ((hcopy _ rfl).keepServerOps hh hi keeps).2
  | opened about made =>
      cases heq
      rw [made]
      exact .new (harrived _ rfl rfl about) _ _ _
  | openedOwn own hosted _ made =>
      cases heq
      rw [made]
      exact .new (hown own _ hosted).currentSeq.le _ _ _
  | sent sends =>
      cases heq
      exact (hcopy _ rfl).sendOps hh sends

end Server

/-! ## Runs -/

namespace Network

/-- What is known of a document in all places. -/
structure Shares (h : ServerId) (d : DocId) (history : List (FatOp Op)) (net : Network) : Prop where
  isHistory : IsHistory history
  logs : ∀ doc, net.doc h d = some doc → doc.Logs history
  copies : ∀ p entry, net.copy p h d = some entry → entry.Replicates history
  wire : ∀ packet ∈ net.wire, packet.source = h → packet.body.Tells d history
  early : (net.servers h).nextDocId ≤ d → history = []

theorem shares_start (h : ServerId) (d : DocId) (config : ServerId → Config)
    (idealWorld : ServerId → WorldState) : (start config idealWorld).Shares h d [] :=
  ⟨nofun, nofun, nofun, nofun, fun _ => rfl⟩

section Turn

variable {os : Os} {net before after : Network} {id h : ServerId} {event : Event}
  {effects : List Effect} {d : DocId} {history : List (FatOp Op)}

/-- The host's turn. -/
theorem Shares.grows (hnet : net.Shares h d history) (hok : before.Ok)
    (hservers : before.servers = net.servers) (hturn : Turn os before id event after effects) :
    ∃ new, IsHistory (history ++ new) ∧
      (∀ doc, after.doc h d = some doc → doc.Logs (history ++ new)) ∧
      (∀ packet ∈ effects.filterMap (Effect.packet? id), packet.source = h →
        packet.body.Tells d (history ++ new)) ∧
      ((after.servers h).nextDocId ≤ d → history ++ new = []) := by
  have hnow : ∀ doc, before.doc h d = some doc → doc.Logs history := by
    rw [Network.doc, hservers]
    exact hnet.logs
  have hearly : (before.servers h).nextDocId ≤ d → history = [] := hservers ▸ hnet.early
  by_cases hid : h = id
  · subst hid
    obtain ⟨new, hh, hnone, hdoc, hsent⟩ :=
      (hturn.hostStep hok d).grows hnet.isHistory hnow hearly
    refine ⟨new, hh, hdoc, fun packet hmem hsource => ?_, fun hnext => ?_⟩
    · cases hdocId : packet.body.told? with
      | none => exact Msg.tells_of_told? (by simp [hdocId])
      | some k =>
          by_cases hk : k = d
          · obtain ⟨-, hmsg⟩ := Turn.mem_docMsgs hmem (Msg.docId?_of_told? (hk ▸ hdocId))
            refine hsent (packet.dest, packet.body) (List.mem_filter.mpr ⟨hmsg, ?_⟩)
            exact decide_eq_true (hk ▸ hdocId)
          · refine Msg.tells_of_told? ?_
            rw [hdocId]
            exact fun heq => hk (Option.some.inj heq)
    · have hle := hturn.handled.nextDocId_le.trans hnext
      rw [hnone ((hok.ids h).hosted_of_le hle), hearly hle]
      rfl
  · refine ⟨[], ?_⟩
    rw [List.append_nil]
    refine ⟨hnet.isHistory, ?_, fun packet hmem hsource => ?_, ?_⟩
    · rw [hturn.doc_of_ne hid]
      exact hnow
    · obtain ⟨e, he, hpacket⟩ := List.mem_filterMap.mp hmem
      cases e with
      | send => cases hpacket; exact absurd hsource.symm hid
      | _ => cases hpacket
    · rw [hturn.others h hid]
      exact hearly

theorem Shares.turn (hnet : net.Shares h d history) (hok : before.Ok)
    (hservers : before.servers = net.servers) (hkept : ∀ packet ∈ before.wire, packet ∈ net.wire)
    (harrived : ∀ msg, event = .message msg → msg.body.isOfConnection = true ∨
      ∃ packet ∈ net.wire, packet.source = msg.host ∧ packet.body = msg.body)
    (hturn : Turn os before id event after effects) :
    ∃ new, after.Shares h d (history ++ new) := by
  obtain ⟨new, hh, hdoc, hsent, hearly⟩ := hnet.grows hok hservers hturn
  refine ⟨new, hh, hdoc, fun p => ?_, fun packet hmem hsource => ?_, hearly⟩
  · have hbefore : ∀ entry, before.copy p h d = some entry →
        entry.Replicates (history ++ new) := by
      rw [copy, hservers]
      exact fun entry hentry => (hnet.copies p entry hentry).mono new
    by_cases hp : p = id
    · subst hp
      refine (hturn.clientStep h d).replicates hh hbefore (fun msg hmsg hhost => ?_)
        fun hown => ?_
      · rcases harrived msg hmsg with hconn | ⟨packet, hmem, hsource, hbody⟩
        · exact Msg.tells_of_isOfConnection hconn
        · rw [← hbody]
          exact (hnet.wire packet hmem (hsource.trans hhost)).mono new
      · rw [hok.hostId] at hown
        exact hown ▸ hdoc
    · rw [hturn.copy_of_ne hp]
      exact hbefore
  · rw [hturn.wire] at hmem
    rcases List.mem_append.mp hmem with hold | hnew
    · exact (hnet.wire packet (hkept packet hold) hsource).mono new
    · exact hsent packet hnew hsource

end Turn

variable {net net' : Network} {h : ServerId} {d : DocId} {history : List (FatOp Op)}

theorem Shares.step (hnet : net.Shares h d history) (hok : net.Ok) {act : Act}
    (hstep : net.step act = some net') :
    net'.Ok ∧ ∃ new, net'.Shares h d (history ++ new) := by
  cases act with
  | turn os id event =>
      simp only [Network.step] at hstep
      split at hstep
      next hlocal =>
          obtain ⟨effects, hturn⟩ := turn_of_handle hstep
          refine ⟨hturn.ok hok, hnet.turn hok rfl (fun _ hmem => hmem) (fun msg hmsg => ?_) hturn⟩
          rw [hmsg] at hlocal
          exact .inl hlocal
      next => cases hstep
  | deliver os index =>
      simp only [Network.step, Option.bind_eq_bind, Option.bind_eq_some_iff] at hstep
      obtain ⟨packet, hpacket, hhandle⟩ := hstep
      obtain ⟨effects, hturn⟩ := turn_of_handle hhandle
      have htaken : (net.take index).Ok := ⟨hok.hostId, hok.ids⟩
      refine ⟨hturn.ok htaken, hnet.turn htaken rfl (fun _ => List.mem_of_mem_eraseIdx)
        (fun msg hmsg => ?_) hturn⟩
      cases hmsg
      exact .inr ⟨packet, List.mem_of_getElem? hpacket, rfl, rfl⟩
  | lose index =>
      simp only [Network.step] at hstep
      split at hstep
      next =>
          cases hstep
          refine ⟨⟨hok.hostId, hok.ids⟩, [], ?_⟩
          rw [List.append_nil]
          exact ⟨hnet.isHistory, hnet.logs, hnet.copies,
            fun packet hmem => hnet.wire packet (List.mem_of_mem_eraseIdx hmem), hnet.early⟩
      next => cases hstep

theorem Shares.run (hnet : net.Shares h d history) (hok : net.Ok) {acts : List Act}
    (hrun : Run.run Network.step net acts = some net') :
    net'.Ok ∧ ∃ new, net'.Shares h d (history ++ new) := by
  induction acts generalizing net history with
  | nil =>
      cases hrun
      exact ⟨hok, [], by rw [List.append_nil]; exact hnet⟩
  | cons act acts ih =>
      obtain ⟨mid, hstep, hrest⟩ := Run.run_cons_some.mp hrun
      obtain ⟨hmid, new, hshares⟩ := hnet.step hok hstep
      obtain ⟨hok', new', hshares'⟩ := ih hshares hmid hrest
      exact ⟨hok', new ++ new', by rw [← List.append_assoc]; exact hshares'⟩

/-- At any time of a run the host, the copies and the messages on their way share one history,
later ones go on from it, and no engine is passed an op out of its turn. -/
theorem shares_history {config : ServerId → Config} {idealWorld : ServerId → WorldState}
    {acts acts' : List Act} (hrun : Run.run step (start config idealWorld) acts = some net)
    (hrun' : Run.run step net acts' = some net') (h : ServerId) (d : DocId) :
    ∃ history new, net.Shares h d history ∧ net'.Shares h d (history ++ new) ∧
      ∀ p entry, net'.copy p h d = some entry → ∀ ops, ∀ call ∈ entry.sendCalls ops,
        ∀ expected op eng,
          call.1.processRemoteOp call.2 ≠ some (.error (.seqMismatch expected op), eng) := by
  obtain ⟨hok, history, hshares⟩ := (shares_start h d config idealWorld).run
    (ok_start config idealWorld) hrun
  obtain ⟨-, new, hshares'⟩ := hshares.run hok hrun'
  refine ⟨history, new, hshares, hshares', fun p entry hcopy ops call hcall expected op eng => ?_⟩
  exact ClientEngine.seqMatches ((RemoteDoc.sendCalls_spec hshares'.isHistory
    (hshares'.copies p entry hcopy).inOrder ops).2 call hcall)

/-- An op of host 0 is lost on its way to host 1, and asked for. -/
theorem shares_history_sample :
    ∃ net net', Run.run step (start noConfig nobodyWanted) session = some net ∧
      Run.run step net (Watch.twoBatches.drop session.length) = some net' ∧
      ((net'.copy 1 0 1).map fun entry => entry.engine.gh.global.length) = some 3 ∧
      ∃ history new, net.Shares 0 1 history ∧ net'.Shares 0 1 (history ++ new) := by
  have hlen : ((Run.run step (start noConfig nobodyWanted) session).bind fun net =>
      (Run.run step net (Watch.twoBatches.drop session.length)).map fun net' =>
        (net'.copy 1 0 1).map fun entry => entry.engine.gh.global.length) = some (some 3) := by
    decide +kernel
  obtain ⟨net, hrun, hlen⟩ := Option.bind_eq_some_iff.mp hlen
  obtain ⟨net', hrun', hlen⟩ := Option.map_eq_some_iff.mp hlen
  obtain ⟨history, new, hshares, hshares', -⟩ := shares_history hrun hrun' 0 1
  exact ⟨net, net', hrun, hrun', hlen, history, new, hshares, hshares'⟩

end Network

end CollabMode
