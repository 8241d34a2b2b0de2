import CollabMode.Embedding
import CollabMode.TwoLevel

/-!
# Convergence of the servers

A copy of a document shows what the host had after the last op that the copy has taken, with the
copy's own ops on top of it.  So when it has taken all and has no op of its own it shows the
host's text (`servers_converge`).  What is asked for is what the system asks for, in terms of the
copy alone.

When editors only insert into their text and delete what stands in it, nothing else is asked for
but the order.  Then also no request to edit is refused, whatever was ordered meanwhile
(`plain_servers_converge`).
-/

namespace CollabMode

open Tombstone

namespace RemoteDoc

/-- The ops that an undo or a redo takes are own ops, and from each of them on the copy has the
host's history. -/
def UndoesAsOrdered (doc : Doc) (self : RemoteDoc) (op : EditorFatOp) : Prop :=
  ∀ redo, op.op = .undoing redo self.engine.gh.totalLen →
    ∀ entry ∈ self.engine.gh.undoEntries redo,
      entry.2.site = self.engine.site ∧
        opsOf (self.engine.gh.global.drop (entry.1 - 1)) =
          opsOf ((doc.engine.gh.global.take self.engine.currentSeq).drop
            (self.engine.currentSeq - self.engine.gh.global.length + (entry.1 - 1)))

instance (doc : Doc) (self : RemoteDoc) (op : EditorFatOp) :
    Decidable (self.UndoesAsOrdered doc op) :=
  inferInstanceAs (Decidable (∀ redo : Bool, op.op = .undoing redo self.engine.gh.totalLen →
    ∀ entry ∈ self.engine.gh.undoEntries redo, _ ∧ _))

/-- The edit fits the text of the copy, and what it undoes stands as the host ordered it. -/
def EditStands (doc : Doc) (self : RemoteDoc) (op : EditorFatOp) : Prop :=
  op.op.FitsText self.buffer ∧ self.UndoesAsOrdered doc op

instance (doc : Doc) (self : RemoteDoc) (op : EditorFatOp) : Decidable (self.EditStands doc op) :=
  inferInstanceAs (Decidable (_ ∧ _))

/-- An op of another site agrees with the local ops. -/
def AgreesWithLocal (self : RemoteDoc) (op : FatOp Op) : Prop :=
  op.site ≠ self.engine.site → op.op.Agrees (opsOf self.engine.gh.localOps)

instance (self : RemoteDoc) (op : FatOp Op) : Decidable (self.AgreesWithLocal op) :=
  inferInstanceAs (Decidable (_ → _))

/-- The copy has all that the host has, and the host has all of the copy. -/
def CaughtUp (doc : Doc) (self : RemoteDoc) : Prop :=
  self.engine.gh.localOps = [] ∧ self.engine.currentSeq = doc.engine.currentSeq

instance (doc : Doc) (self : RemoteDoc) : Decidable (self.CaughtUp doc) :=
  inferInstanceAs (Decidable (_ ∧ _))

end RemoteDoc

theorem Mirrors.undoesAsOrdered {content : Text} {doc : Doc} {site : Site} {op : EditorFatOp}
    (h : Mirrors content doc site) (hop : site.doc.UndoesAsOrdered doc op) :
    CollabMode.UndoesAsOrdered doc site op.op := by
  have hbase : site.doc.engine.currentSeq - site.doc.engine.gh.global.length = site.base := by
    rw [h.counted, Nat.add_sub_cancel]
  intro redo heq entry hentry
  have hordered := hop redo heq entry hentry
  rwa [hbase] at hordered

/-! ## What the steps keep -/

theorem Hosts.subscribers {content : Text} {doc : Doc} (h : Hosts content doc)
    (subscribers : List (ServerId × LocalSeq)) : Hosts content { doc with subscribers } :=
  ⟨⟨h.numbered.counted, h.numbered.seqs⟩, h.valid, h.shows⟩

theorem Wired.subscribers {doc : Doc} {id : SiteId} {m : Nat} {site : Site}
    (h : Wired doc id m site) (subscribers : List (ServerId × LocalSeq)) :
    Wired { doc with subscribers } id m site :=
  { site_eq := h.site_eq, notExternal := h.notExternal, seen := h.seen, down := h.down
    own := h.own, numbers := h.numbers, window := h.window, single := h.single
    outstanding := h.outstanding }

theorem Mirrors.subscribers {content : Text} {doc : Doc} {site : Site}
    (h : Mirrors content doc site) (subscribers : List (ServerId × LocalSeq)) :
    Mirrors content { doc with subscribers } site :=
  ⟨h.counted, h.valid, h.shows⟩

theorem Hosts.synced {content : Text} {doc : Doc} (h : Hosts content doc) : doc.Synced :=
  { ok := h.shows.ok, counted := h.numbered.counted, length := h.shows.editorLen_eq.symm }

/-- The next batch of a peer is applied. -/
theorem Mirrors.applies {content : Text} {doc : Doc} {id : SiteId} {m : Nat} {site : Site}
    (h : Mirrors content doc site) (hwired : Wired doc id m site) (hdoc : Hosts content doc)
    {batch : ContextOps} {up : List ContextOps} (hup : site.up = batch :: up) :
    ∃ doc', Doc.applyOps (doc.ordered batch.ops batch.context)
      (doc.append (doc.ordered batch.ops batch.context)) = some (.ok (), doc') := by
  have hshows : (doc.append (doc.ordered batch.ops batch.context)).Shows (doc.latest content) :=
    hdoc.shows
  obtain ⟨internalDoc, hrun, -⟩ := Doc.applyOps_shows hshows (h.order hwired hdoc hup)
  exact ⟨_, hrun⟩

theorem mirror_serves (content : Text) :
    System.Serves (Hosts content)
      (fun doc id site => (∃ m, Wired doc id m site) ∧ Mirrors content doc site)
      RemoteDoc.EditStands RemoteDoc.AgreesWithLocal where
  keeps :=
    { mirror_keeps content with
      edit := fun doc id site editorOp rd hdoc h hedit =>
        (mirror_keeps content).edit doc id site editorOp rd hdoc h
          ⟨hedit.1, h.2.undoesAsOrdered hedit.2⟩ }
  applies _ _ _ _ _ hdoc h hup := h.1.elim fun _ hwired => h.2.applies hwired hdoc hup
  resets _ _ hdoc hspells := by
    obtain ⟨processed, doc', hrun, -⟩ := hdoc.synced.reset hdoc.shows hspells
    exact ⟨processed, doc', hrun⟩
  doc_subscribers _ subscribers hdoc := hdoc.subscribers subscribers
  site_subscribers _ subscribers _ _ h :=
    ⟨h.1.imp fun _ hwired => hwired.subscribers subscribers, h.2.subscribers subscribers⟩

/-! ## What is taken -/

/-- An edit of the text is taken. -/
theorem RemoteDoc.takes_edit {self : RemoteDoc} {d : Seq Char} (h : self.Shows d)
    (hnumber : self.nextSiteSeq = self.engine.currentSiteSeq + 1)
    (htip : self.engine.gh.TipFits .original) {editorOp : EditorFatOp}
    (hedit : editorOp.op.Fits self.buffer.length) (hfits : editorOp.op.FitsText self.buffer) :
    ∃ rd, self.processEditorOp editorOp = some (.ok (), rd) := by
  obtain ⟨op, groupSeq⟩ := editorOp
  have hmade : ∃ op' instr doc buffer d', op.kind = .original ∧
      ClientEngine.localOpsOf { self.engine with currentSiteSeq := self.nextSiteSeq } op =
        some (.ok ([op'], [instr]),
          { self.engine with currentSiteSeq := self.nextSiteSeq, internalDoc := doc }) ∧
      instr.apply self.buffer = some (.ok (), buffer) ∧ CollabMode.Shows doc buffer d' := by
    cases op with
    | ins pos text =>
        obtain ⟨op', doc, hconv, -, -, happly, hshows⟩ := h.ins hedit.1 hfits self.engine.site
        have hlen : text.length ≠ 0 := mt List.eq_nil_of_length_eq_zero hedit.1
        refine ⟨op', _, doc, _, _, rfl, ?_, happly, hshows⟩
        simp only [ClientEngine.localOpsOf, hlen, if_false, hconv, Option.bind_eq_bind,
          Option.bind_some]
    | del pos text =>
        obtain ⟨op', doc, hconv, -, -, happly, hshows⟩ :=
          h.del hfits.1 hfits.2 self.engine.site
        have hlen : self.engine.internalDoc.ranges.length ≠ 0 := fun hnil => by
          have hpos := List.length_pos_iff.mpr hfits.1
          have hle := hedit.2
          rw [← h.editorLen_eq, InternalDoc.editorLen, List.eq_nil_of_length_eq_zero hnil] at hle
          simp only [List.map_nil, List.sum_nil] at hle
          omega
        refine ⟨op', _, doc, _, _, rfl, ?_, happly, hshows⟩
        simp only [ClientEngine.localOpsOf, hlen, if_false, hconv, Option.bind_eq_bind,
          Option.bind_some]
    | undo context => exact hedit.elim
    | redo context => exact hedit.elim
  obtain ⟨op', instr, doc, buffer, d', hkind, hmade, happly, hshows⟩ := hmade
  obtain ⟨_, -, -, hrecord⟩ := GlobalHistory.recordOp_of htip (fun i e hkind => by simp at hkind)
    self.nextSiteSeq groupSeq op'
  generalize GlobalHistory.mk _ _ _ _ = gh at hrecord
  refine ⟨_, @RemoteDoc.processEditorOp_of self ⟨op, groupSeq⟩
    { self.engine with currentSiteSeq := self.nextSiteSeq, internalDoc := doc, gh } [instr] buffer
    ?_ ?_ ?_⟩
  · simp only [ClientEngine.processLocalOp, hnumber, ne_eq, not_true_eq_false, if_false]
    rw [← hnumber]
    simp only [hmade, Option.bind_eq_bind, Option.bind_some, hkind, GlobalHistory.recordOps,
      hrecord]
  · simp only [runInstructions, happly]
  · exact hshows.editorLen_eq.symm

/-- What arrives is taken. -/
theorem Mirrors.takes {content : Text} {doc : Doc} {id : SiteId} {m : Nat} {site : Site}
    (h : Mirrors content doc site) (hwired : Wired doc id m site) (hdoc : Hosts content doc)
    {op : FatOp Op} {down : List (FatOp Op)} (hdown : site.down = op :: down) :
    ∃ leanOps rd, site.doc.processServerOp op = some (.ok leanOps, rd) := by
  have hseq := hwired.next_seq hdoc.numbered hdown
  by_cases hsite : op.site = id
  · obtain ⟨localOp, localOps, _, hlocal, -, hpayload, -⟩ := hwired.next_own hdown hsite
    have hown : localOp.site = site.doc.engine.site := by
      rw [hwired.site_eq]
      exact hwired.own localOp (by simp [hlocal])
    obtain ⟨engine, hrun, -⟩ := ClientEngine.processRemoteOp_ack hseq
      (hsite.trans hwired.site_eq.symm) hlocal hown (congrArg Prod.snd hpayload).symm
    refine ⟨[], { site.doc with engine }, ?_⟩
    simp only [RemoteDoc.processServerOp, hrun, Option.bind_eq_bind, Option.bind_some]
  · have hop := (hdoc.valid_drop site.doc.engine.currentSeq).2
    rw [hwired.down.symm.trans hdown] at hop
    obtain ⟨-, hthrough, -⟩ := validSquare.row hop.1 h.valid
      (Grid.SepRow.of_key Op.site_transform (hwired.ne_site hsite))
    rw [← replay_items] at hthrough
    obtain ⟨instr, idoc, hconv, happly, hshows⟩ := h.shows.internal hthrough
    obtain ⟨buffer, happly, hlen⟩ : ∃ buffer, instr.apply site.doc.buffer = some (.ok (), buffer) ∧
        checkLen idoc.editorLen buffer.length = .ok () := ⟨_, happly, hshows.checkLen⟩
    have hcarried : (Grid.through FatOp.transform op site.doc.engine.gh.localOps).op =
        Grid.through Op.transform op.op (opsOf site.doc.engine.gh.localOps) :=
      FatOp.hom_op.through op _
    obtain ⟨engine, hrun, hstep⟩ := ClientEngine.processRemoteOp_foreign hseq
      (fun heq => hsite (heq.trans hwired.site_eq))
      ((congrArg site.doc.engine.internalDoc.convertInternalOpAndApply hcarried).trans hconv)
    have hcheck : checkLen engine.editorLen buffer.length = .ok () := by
      rw [hstep.result]
      exact hlen
    refine ⟨[⟨instr, op.site⟩], { site.doc with engine, buffer }, ?_⟩
    simp only [RemoteDoc.processServerOp, hrun, Option.bind_eq_bind, Option.bind_some,
      RemoteDoc.applyEditInstruction, RemoteDoc.applyEditInstructionUnchecked, happly,
      RemoteDoc.verifyBufferEngineSync, hcheck]

/-! ## Editors that only insert and delete -/

/-- The engine has only insertions and deletions of its own, and its tip is a place of the undo
queue. -/
structure ClientEngine.OnlyEdits (eng : ClientEngine) : Prop where
  plain : AllPlain eng.gh.localOps
  tip : ∀ tip, eng.gh.undoTip = some tip → tip < eng.gh.undoQueue.length

namespace ClientEngine

variable {eng eng' : ClientEngine}

theorem OnlyEdits.new (site : SiteId) (seq : GlobalSeq) (doc : InternalDoc) :
    (ClientEngine.new site seq doc).OnlyEdits := ⟨nofun, nofun⟩

theorem OnlyEdits.tipFits (h : eng.OnlyEdits) : eng.gh.TipFits .original := by
  rw [GlobalHistory.TipFits]
  cases htip : eng.gh.undoTip with
  | none => exact Nat.le_refl _
  | some tip => exact Nat.le_of_lt (h.tip tip htip)

theorem LocalStep.onlyEdits {editorOp : EditorFatOp} {siteSeq : LocalSeq} {ops : List Op}
    {instrs : List EditInstruction} {doc : InternalDoc} {gh : GlobalHistory}
    (hstep : eng.LocalStep editorOp siteSeq ops instrs doc gh eng') (h : eng.OnlyEdits)
    (hedit : editorOp.op.IsEdit) : eng'.OnlyEdits := by
  obtain ⟨-, new, hlocal, hops, -⟩ := GlobalHistory.recordOps_ok hstep.records
  rw [hstep.result]
  refine ⟨?_, (GlobalHistory.recordOps_queue hstep.records h.tip).2⟩
  show AllPlain gh.localOps
  rw [hlocal]
  intro op hop
  rcases List.mem_append.mp (opsOf_append _ _ ▸ hop) with hold | hnew
  · exact h.plain op hold
  · exact hstep.makes.plain hedit op (hops ▸ hnew)

theorem AckStep.onlyEdits {op localOp : FatOp Op} {localOps : List (FatOp Op)}
    (hstep : eng.AckStep op localOp localOps eng') (h : eng.OnlyEdits) : eng'.OnlyEdits := by
  have hplain := h.plain
  rw [hstep.localOps_eq] at hplain
  rw [hstep.result]
  exact ⟨fun op hop => hplain op (List.mem_cons_of_mem _ hop), h.tip⟩

theorem ForeignStep.onlyEdits {op : FatOp Op} {instr : EditInstruction} {doc : InternalDoc}
    (hstep : eng.ForeignStep op instr doc eng') (h : eng.OnlyEdits) : eng'.OnlyEdits := by
  rw [hstep.result]
  refine ⟨?_, fun tip htip => (h.tip tip htip).trans_eq (List.length_map _).symm⟩
  show ∀ op ∈ opsOf (ClientEngine.bumpUndoDeltas 0 _), op.Plain
  rw [opsOf, ClientEngine.map_bumpUndoDeltas (fun _ _ => rfl), FatOp.hom_op.past]
  exact plain_of_map (keeps_plain.past _ _) h.plain

end ClientEngine

theorem EditorOp.Fits.isEdit {n : Nat} {op : EditorOp} (h : op.Fits n) : op.IsEdit := by
  cases op with
  | ins | del => trivial
  | undo | redo => exact h

/-- A non-empty edit within the text of the copy, which names the characters that it deletes. -/
def RemoteDoc.EditFits (_ : Doc) (self : RemoteDoc) (op : EditorFatOp) : Prop :=
  op.op.Fits self.buffer.length ∧ op.op.FitsText self.buffer

instance (doc : Doc) (self : RemoteDoc) (op : EditorFatOp) : Decidable (self.EditFits doc op) :=
  inferInstanceAs (Decidable (_ ∧ _))

theorem plain_keeps (content : Text) :
    System.Keeps (fun doc => Hosts content doc ∧ AllPlain doc.engine.gh.global)
      (fun doc id site => ((∃ m, Wired doc id m site) ∧ Mirrors content doc site) ∧
        site.doc.engine.OnlyEdits)
      (fun doc site op => site.doc.EditFits doc op) (fun _ _ _ => True) where
  join doc id hdoc hid := ⟨(mirror_keeps content).join doc id hdoc.1 hid, .new ..⟩
  edit doc id site editorOp rd hdoc h hedit hrun := by
    refine ⟨(mirror_keeps content).edit doc id site editorOp rd hdoc.1 h.1
      ⟨hedit.2, hedit.1.isEdit.undoesAsOrdered doc site⟩ hrun, ?_⟩
    obtain ⟨_, _, _, _, _, _, hstep, -, rfl⟩ := RemoteDoc.processEditorOp_ok hrun
    exact hstep.onlyEdits h.2 hedit.1.isEdit
  send doc id site hdoc h := by
    refine ⟨(mirror_keeps content).send doc id site hdoc.1 h.1, ?_⟩
    obtain ⟨q, hq⟩ := Site.send_engine site
    rw [hq]
    exact ⟨h.2.plain, h.2.tip⟩
  receive doc id site batch up processed doc' hdoc h hup hrun := by
    obtain ⟨hhosts, hself, hothers⟩ := (mirror_keeps content).receive doc id site batch up
      processed doc' hdoc.1 h.1 hup hrun
    refine ⟨⟨hhosts, ?_⟩, ⟨hself, h.2⟩, fun id' site' hne h' => ⟨hothers id' site' hne h'.1, h'.2⟩⟩
    obtain ⟨rfl, happly⟩ := Doc.processAndApply_ok hrun
    have hglobal : doc'.engine.gh.global = doc.engine.gh.global ++ _ := Doc.applyOps_global happly
    obtain ⟨⟨⟨m, hwired⟩, -⟩, h⟩ := h
    rw [AllPlain, hglobal, opsOf_append]
    refine fun op hop => (List.mem_append.mp hop).elim (hdoc.2 op) ?_
    rw [(hwired.opsOf_ordered hup).1]
    refine plain_of_map (keeps_plain.carry _ _) (fun op hop => h.plain op ?_) op
    obtain ⟨x, hx, rfl⟩ := List.mem_map.mp hop
    exact List.mem_map_of_mem (List.mem_of_mem_take hx)
  deliver doc id site op down rd leanOps hdoc h _ hdown hrun := by
    obtain ⟨⟨⟨m, hwired⟩, hmirror⟩, h⟩ := h
    have hplain : op.op.Plain := hdoc.2 op.op (List.mem_map_of_mem (List.mem_of_mem_drop
      (hwired.down ▸ hdown ▸ List.mem_cons_self)))
    refine ⟨(mirror_keeps content).deliver doc id site op down rd leanOps hdoc.1
      ⟨⟨m, hwired⟩, hmirror⟩ (fun _ => hplain.agrees h.plain) hdown hrun, ?_⟩
    obtain ⟨-, ⟨-, _, _, _, hstep, rfl⟩ | ⟨-, _, _, _, _, hstep, -, rfl⟩⟩ :=
      RemoteDoc.processServerOp_ok hrun
    · exact hstep.onlyEdits h
    · exact hstep.onlyEdits h
  external doc chunks processed doc' hdoc hspells hrun := by
    obtain ⟨hhosts, hsites⟩ := (mirror_keeps content).external doc chunks processed doc' hdoc.1
      hspells hrun
    refine ⟨⟨hhosts, ?_⟩, fun id site h => ⟨hsites id site h.1, h.2⟩⟩
    obtain ⟨n, happly, hproc⟩ := Doc.resetFromDisk_ok hrun
    have hglobal : doc'.engine.gh.global = doc.engine.gh.global ++ processed :=
      Doc.applyOps_global happly
    rw [AllPlain, hglobal, opsOf_append]
    refine fun op hop => (List.mem_append.mp hop).elim (hdoc.2 op) ?_
    rw [hproc]
    exact Doc.plain_ordered (plain_chunksToOps hspells.2) op

theorem plain_serves (content : Text) :
    System.Serves (fun doc => Hosts content doc ∧ AllPlain doc.engine.gh.global)
      (fun doc id site => ((∃ m, Wired doc id m site) ∧ Mirrors content doc site) ∧
        site.doc.engine.OnlyEdits)
      RemoteDoc.EditFits (fun _ _ => True) where
  keeps := plain_keeps content
  applies doc id site batch up hdoc h :=
    (mirror_serves content).applies doc id site batch up hdoc.1 h.1
  resets doc chunks hdoc := (mirror_serves content).resets doc chunks hdoc.1
  doc_subscribers _ subscribers hdoc := ⟨hdoc.1.subscribers subscribers, hdoc.2⟩
  site_subscribers doc subscribers id site h :=
    ⟨(mirror_serves content).site_subscribers doc subscribers id site h.1, h.2⟩

theorem plain_takes (content : Text) :
    System.Takes (fun doc => Hosts content doc ∧ AllPlain doc.engine.gh.global)
      (fun doc id site => ((∃ m, Wired doc id m site) ∧ Mirrors content doc site) ∧
        site.doc.engine.OnlyEdits)
      RemoteDoc.EditFits where
  edit _ _ _ _ _ h hedit :=
    h.1.1.elim fun _ hwired =>
      RemoteDoc.takes_edit h.1.2.shows hwired.numbers h.2.tipFits hedit.1 hedit.2
  deliver _ _ _ _ _ hdoc h hdown :=
    h.1.1.elim fun _ hwired => h.1.2.takes hwired hdoc.1 hdown

/-! ## Runs -/

/-- The copy shows what the host had after the last op that it has taken, with its own ops on
top. -/
structure RemoteDoc.Follows (content : Text) (doc : Doc) (rd : RemoteDoc) : Prop where
  shows : rd.Shows (replay (doc.version content rd.engine.currentSeq)
    (opsOf rd.engine.gh.localOps))
  displays : rd.CaughtUp doc → rd.Displays (doc.latest content).items doc.buffer

theorem Mirrors.follows {content : Text} {doc : Doc} {site : Site} {rd : RemoteDoc}
    (h : Mirrors content doc site) (hdoc : Hosts content doc) (hsite : site.doc = rd.bare) :
    rd.Follows content doc := by
  have hshows := h.shows
  rw [hsite] at hshows
  refine ⟨hshows, fun ⟨hlocal, hseq⟩ => ?_⟩
  have hshows : rd.Shows (replay (doc.version content rd.engine.currentSeq)
    (opsOf rd.engine.gh.localOps)) := hshows
  rw [hlocal, hseq,
    Doc.version_length (Nat.le_of_eq hdoc.numbered.counted.symm)] at hshows
  have hshows : rd.Shows (doc.latest content) := hshows
  have hhost : doc.buffer = (doc.latest content).live := hdoc.shows.text_eq
  rw [hhost]
  refine ⟨hshows.text_eq, ?_⟩
  rw [← hshows.flags]
  rfl

namespace Network

variable {config : ServerId → Config} {idealWorld : ServerId → WorldState} {acts : List Act}
  {net : Network} {h : ServerId} {d : DocId} {doc : Doc}

/-- After a run in order the host shows its history, and each copy follows it. -/
theorem servers_converge (hdiff : ∀ act ∈ acts, act.Diffs)
    (horder : Run.Meets step (GoesInOrder RemoteDoc.EditStands RemoteDoc.AgreesWithLocal h d)
      (start config idealWorld) acts)
    (hrun : Run.run step (start config idealWorld) acts = some net)
    (hdoc : net.doc h d = some doc) :
    ∃ content, doc.buffer = (doc.latest content).live ∧
      ∀ p entry, net.copy p h d = some entry → entry.Follows content doc := by
  have hnet := embeds_run mirror_serves Hosts.start hdiff horder hrun
  obtain ⟨content, hhosts, hpeers⟩ := hnet.served doc hdoc
  refine ⟨content, hhosts.shows.text_eq, fun p entry hcopy => ?_⟩
  rcases hpeers p with ⟨hnone, -⟩ | ⟨id, site, -, ⟨-, hmirror⟩, hstands⟩
  · cases hnone.symm.trans hcopy
  · exact hmirror.follows hhosts (hstands.copy entry hcopy)

/-- The same on a system that has a diff. -/
def Act.diffing : Act → Act
  | .turn os id event => .turn { os with diff := Server.headDiff } id event
  | .deliver os index => .deliver { os with diff := Server.headDiff } index
  | .lose index => .lose index

theorem diffs_diffing (acts : List Act) : ∀ act ∈ acts.map Act.diffing, act.Diffs := by
  intro act hmem
  obtain ⟨act, -, rfl⟩ := List.mem_map.mp hmem
  cases act with
  | turn | deliver => exact Server.headDiff_diffs
  | lose => trivial

open Server (sharedFile)

/-- An editor sends ops for the shared buffer. -/
def sends (id : ServerId) (reqId : RequestId) (ops : List EditorFatOp) : Act :=
  .turn Os.bare id (.request reqId (.sendOps ops sharedFile))

/-- After the two batches everything is delivered, and the editors ask for it. -/
def settled : List Act :=
  Watch.twoBatches ++ List.replicate 4 (.deliver Os.bare 0) ++ [sends 0 5 [], sends 1 5 []] ++
    List.replicate 3 (.deliver Os.bare 0) ++ [sends 0 6 [], sends 1 6 []]

/-- Host 1 takes its last op back while host 0 types. -/
def undone : List Act :=
  settled ++ [sends 1 7 [⟨.undo 5, 4⟩], sends 0 7 [⟨.ins 6 ['w'], 3⟩]] ++
    List.replicate 6 (.deliver Os.bare 0) ++ [sends 0 8 [], sends 1 8 []]

/-- Host 1 shows the text of host 0. -/
theorem servers_converge_sample :
    ∃ net doc entry,
      Run.run step (start noConfig nobodyWanted) (undone.map Act.diffing) = some net ∧
        net.doc 0 1 = some doc ∧ net.copy 1 0 1 = some entry ∧ entry.buffer = doc.buffer := by
  have hend : ((Run.run step (start noConfig nobodyWanted) (undone.map Act.diffing)).bind
      fun net => (net.doc 0 1).bind fun doc => (net.copy 1 0 1).map fun entry =>
        decide (entry.CaughtUp doc)) = some true := by decide +kernel
  obtain ⟨net, hrun, hend⟩ := Option.bind_eq_some_iff.mp hend
  obtain ⟨doc, hdoc, hend⟩ := Option.bind_eq_some_iff.mp hend
  obtain ⟨entry, hcopy, hcaught⟩ := Option.map_eq_some_iff.mp hend
  obtain ⟨content, -, hcopies⟩ :=
    servers_converge (diffs_diffing undone) (by decide +kernel) hrun hdoc
  exact ⟨net, doc, entry, hrun, hdoc, hcopy,
    ((hcopies 1 entry hcopy).displays (of_decide_eq_true hcaught)).1⟩

/-- What an editor sends is taken. -/
theorem Embeds.takes {P : Text → Doc → Prop} {Q : Text → Doc → SiteId → Site → Prop}
    {editC : Doc → RemoteDoc → EditorFatOp → Prop} {deliverC : RemoteDoc → FatOp Op → Prop}
    (hnet : net.Embeds P Q h d)
    (hs : ∀ content, System.Serves (P content) (Q content) editC deliverC)
    (ht : ∀ content, System.Takes (P content) (Q content) editC) (hdoc : net.doc h d = some doc)
    {p : ServerId} {entry : RemoteDocEntry} (hcopy : net.copy p h d = some entry)
    {ops : List EditorFatOp} (hmeets : entry.SendMeets (editC doc) deliverC ops) :
    ∃ leanOps batch rd, entry.sendOps d ops = some (.ok (leanOps, batch), rd) := by
  obtain ⟨content, hP, hpeers⟩ := hnet.served doc hdoc
  obtain ⟨history, hshares⟩ := hnet.shares
  have horder : entry.InOrder doc.engine.gh.global := by
    rw [(hshares.logs doc hdoc).global]
    exact (hshares.copies p entry hcopy).inOrder
  exact (hpeers p).takes (hs content) (ht content) hP hcopy horder hmeets d

/-- When editors only insert and delete, the order is enough.  Then the ops that an editor sends
next are taken. -/
theorem plain_servers_converge (hdiff : ∀ act ∈ acts, act.Diffs)
    (horder : Run.Meets step (GoesInOrder RemoteDoc.EditFits (fun _ _ => True) h d)
      (start config idealWorld) acts)
    (hrun : Run.run step (start config idealWorld) acts = some net)
    (hdoc : net.doc h d = some doc) :
    ∃ content, doc.buffer = (doc.latest content).live ∧
      ∀ p entry, net.copy p h d = some entry → entry.Follows content doc ∧
        ∀ ops, entry.SendMeets (RemoteDoc.EditFits doc) (fun _ _ => True) ops →
          ∃ leanOps batch rd, entry.sendOps d ops = some (.ok (leanOps, batch), rd) := by
  have hnet := embeds_run plain_serves (fun content => ⟨Hosts.start content, nofun⟩) hdiff horder
    hrun
  obtain ⟨content, hhosts, hpeers⟩ := hnet.served doc hdoc
  refine ⟨content, hhosts.1.shows.text_eq, fun p entry hcopy =>
    ⟨?_, fun ops hmeets => hnet.takes plain_serves plain_takes hdoc hcopy hmeets⟩⟩
  rcases hpeers p with ⟨hnone, -⟩ | ⟨id, site, -, ⟨⟨-, hmirror⟩, -⟩, hstands⟩
  · cases hnone.symm.trans hcopy
  · exact hmirror.follows hhosts.1 (hstands.copy entry hcopy)

/-- Host 1 has an op that is not ordered yet, and its editor deletes a character. -/
theorem plain_servers_converge_sample :
    ∃ net doc entry leanOps batch rd,
      Run.run step (start noConfig nobodyWanted) (Watch.twoBatches.map Act.diffing) = some net ∧
        net.doc 0 1 = some doc ∧ net.copy 1 0 1 = some entry ∧
        entry.sendOps 1 [⟨.del 0 ['y'], 4⟩] = some (.ok (leanOps, batch), rd) := by
  have hend : ((Run.run step (start noConfig nobodyWanted)
      (Watch.twoBatches.map Act.diffing)).bind
      fun net => (net.doc 0 1).bind fun doc => (net.copy 1 0 1).map fun entry =>
        decide (entry.SendMeets (RemoteDoc.EditFits doc) (fun _ _ => True) [⟨.del 0 ['y'], 4⟩])) =
      some true := by decide +kernel
  obtain ⟨net, hrun, hend⟩ := Option.bind_eq_some_iff.mp hend
  obtain ⟨doc, hdoc, hend⟩ := Option.bind_eq_some_iff.mp hend
  obtain ⟨entry, hcopy, hmeets⟩ := Option.map_eq_some_iff.mp hend
  obtain ⟨content, -, hcopies⟩ :=
    plain_servers_converge (diffs_diffing Watch.twoBatches) (by decide +kernel) hrun hdoc
  obtain ⟨leanOps, batch, rd, hsends⟩ := (hcopies 1 entry hcopy).2 _ (of_decide_eq_true hmeets)
  exact ⟨net, doc, entry, leanOps, batch, rd, hrun, hdoc, hcopy, hsends⟩

end Network

end CollabMode
