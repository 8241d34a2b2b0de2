import CollabMode.ServerConvergence
import CollabMode.Updates

/-!
# When the network is quiet

A client that is not cut off misses nothing for good (`nothing_missed`), so when no message about
its document is on its way its copy keeps all that it has not taken.  An editor that then asks for
what arrived either sends all ops of its own that wait, or has none and shows the host's text
(`quiet_servers_converge`).

The second needs that a copy is never stuck with ops that it does not send, and this is about the
numbers of its ops.  They leave no gap when each op of the editor makes an op (`Gapless`), so an
undo or a redo must find one.
-/

namespace CollabMode

open Grid (Outstanding)

/-! ## Numbers without a gap -/

theorem Window.le_of_window {seqs : List Nat} {m m' last current : Nat}
    (h : Window seqs m last current) (h' : Window seqs m' last current) : m' ≤ m := by
  refine Nat.le_of_not_lt fun hlt => ?_
  have hlength : m < seqs.length := hlt.trans_le h'.le
  have hsent : seqs[m] ≤ last :=
    h'.before _ (List.mem_take_iff_getElem.mpr ⟨m, by omega, rfl⟩)
  have hwaits : last < seqs[m] :=
    h.after _ (List.mem_drop_iff_getElem.mpr ⟨0, by omega, by simp only [Nat.add_zero]⟩)
  omega

/-- The numbers tell how many of the ops were sent. -/
theorem Window.unique {seqs : List Nat} {m m' last current : Nat}
    (h : Window seqs m last current) (h' : Window seqs m' last current) : m = m' :=
  Nat.le_antisymm (h'.le_of_window h) (h.le_of_window h')

namespace ClientEngine

/-- The numbers of the local ops, of which the first `m` were sent, go up to the last number
given. -/
structure Gapless (eng : ClientEngine) (m : Nat) : Prop where
  tight : Tight (eng.gh.localOps.map FatOp.siteSeq) m eng.lastSiteSeqSentOut eng.currentSiteSeq
  newest : ∀ q, (eng.gh.localOps.map FatOp.siteSeq).getLast? = some q → q = eng.currentSiteSeq

variable {eng eng' : ClientEngine} {m : Nat}

theorem Gapless.new (site : SiteId) (seq : GlobalSeq) (doc : InternalDoc) :
    (ClientEngine.new site seq doc).Gapless 0 := ⟨.nil, nofun⟩

/-- An op of the editor makes an op. -/
theorem LocalStep.gapless {editorOp : EditorFatOp} {siteSeq : LocalSeq} {ops : List Op}
    {instrs : List EditInstruction} {doc : InternalDoc} {gh : GlobalHistory}
    (hstep : eng.LocalStep editorOp siteSeq ops instrs doc gh eng') (h : eng.Gapless m)
    (hmade : ops ≠ []) : eng'.Gapless m := by
  obtain ⟨-, new, hlocal, hops, hseqs⟩ := GlobalHistory.recordOps_ok hstep.records
  have hnew : new ≠ [] := by
    rintro rfl
    exact hmade hops.symm
  have hnumbers : gh.localOps.map FatOp.siteSeq = eng.gh.localOps.map FatOp.siteSeq ++
      List.replicate new.length (eng.currentSiteSeq + 1) := by
    rw [hlocal, List.map_append, List.append_right_inj]
    refine List.eq_replicate_iff.mpr ⟨List.length_map _, fun q hq => ?_⟩
    obtain ⟨op, hop, rfl⟩ := List.mem_map.mp hq
    exact (hseqs op hop).trans hstep.siteSeq_eq
  have hlength : new.length ≠ 0 := mt List.eq_nil_of_length_eq_zero hnew
  rw [hstep.result]
  constructor
  · show Tight (gh.localOps.map FatOp.siteSeq) m eng.lastSiteSeqSentOut siteSeq
    rw [hnumbers, hstep.siteSeq_eq]
    exact h.tight.push fun hn => absurd hn hlength
  · show ∀ q, (gh.localOps.map FatOp.siteSeq).getLast? = some q → q = siteSeq
    intro q hq
    rw [hnumbers, List.getLast?_append, List.getLast?_replicate, if_neg hlength] at hq
    cases hq
    exact hstep.siteSeq_eq.symm

/-- The first op comes back. -/
theorem AckStep.gapless {op localOp : FatOp Op} {localOps : List (FatOp Op)}
    (hstep : eng.AckStep op localOp localOps eng') (h : eng.Gapless (m + 1)) :
    eng'.Gapless m := by
  obtain ⟨htight, hnewest⟩ := h
  rw [hstep.localOps_eq, List.map_cons] at htight hnewest
  rw [hstep.result]
  refine ⟨htight.pop, fun q hq => hnewest q ?_⟩
  rw [List.getLast?_cons, show (localOps.map FatOp.siteSeq).getLast? = some q from hq]
  rfl

theorem ForeignStep.gapless {op : FatOp Op} {instr : EditInstruction} {doc : InternalDoc}
    (hstep : eng.ForeignStep op instr doc eng') (h : eng.Gapless m) : eng'.Gapless m := by
  have hnumbers : (bumpUndoDeltas 0 (Grid.past FatOp.transform op eng.gh.localOps)).map
      FatOp.siteSeq = eng.gh.localOps.map FatOp.siteSeq := by
    rw [map_bumpUndoDeltas fun _ _ => rfl, FatOp.keeps_siteSeq.past]
  rw [hstep.result]
  exact ⟨by dsimp only; rw [hnumbers]; exact h.tight,
    by dsimp only; rw [hnumbers]; exact h.newest⟩

/-- All local ops are sent, or none. -/
theorem Gapless.maybePackageLocalOps (h : eng.Gapless m) {d : DocId} {batch : Option ContextOps}
    (hpackage : eng.maybePackageLocalOps d = (batch, eng')) : ∃ m', eng'.Gapless m' := by
  rw [maybePackageLocalOps_eq] at hpackage
  split at hpackage
  next first last hfirst hlast =>
      split at hpackage
      next =>
          cases hpackage
          have hq : (eng.gh.localOps.map FatOp.siteSeq).getLast? = some last.siteSeq := by
            rw [List.getLast?_map, hlast]
            rfl
          have hlast' := h.newest _ hq
          refine ⟨(eng.gh.localOps.map FatOp.siteSeq).length, ?_, h.newest⟩
          show Tight (eng.gh.localOps.map FatOp.siteSeq) _ last.siteSeq eng.currentSiteSeq
          rw [hlast'] at hq ⊢
          exact h.tight.flush hq
      next =>
          cases hpackage
          exact ⟨m, h⟩
  next =>
      cases hpackage
      exact ⟨m, h⟩

/-- When all that was sent has come back, nothing waits that is not sent now. -/
theorem Gapless.none_waits (h : eng.Gapless 0) {d : DocId}
    (hpackage : (eng.maybePackageLocalOps d).1 = none) : eng.gh.localOps = [] := by
  rw [maybePackageLocalOps_eq] at hpackage
  cases hlocal : eng.gh.localOps with
  | nil => rfl
  | cons first rest =>
      have hnext : first.siteSeq = eng.lastSiteSeqSentOut + 1 :=
        h.tight.next _ (by rw [hlocal]; rfl)
      simp only [hlocal, List.head?_cons, List.getLast?_cons, if_pos hnext] at hpackage
      cases hpackage

/-- A batch has all local ops. -/
theorem maybePackageLocalOps_cases {d : DocId} {batch : Option ContextOps}
    (hpackage : eng.maybePackageLocalOps d = (batch, eng')) :
    batch = none ∧ eng' = eng ∨ ∃ lastSiteSeqSentOut,
      batch = some ⟨eng.currentSeq, d, eng.gh.localOps⟩ ∧
        eng' = { eng with lastSiteSeqSentOut } := by
  rw [maybePackageLocalOps_eq] at hpackage
  split at hpackage
  next =>
      split at hpackage <;> cases hpackage
      · exact .inr ⟨_, rfl, rfl⟩
      · exact .inl ⟨rfl, rfl⟩
  next =>
      cases hpackage
      exact .inl ⟨rfl, rfl⟩

end ClientEngine

/-! ## The invariant of a copy -/

/-- An undo or a redo finds an op. -/
def RemoteDoc.FindsOp (self : RemoteDoc) (op : EditorFatOp) : Prop :=
  ∀ redo, op.op = .undoing redo self.engine.gh.totalLen →
    self.engine.gh.undoEntries redo ≠ []

instance (self : RemoteDoc) (op : EditorFatOp) : Decidable (self.FindsOp op) :=
  inferInstanceAs (Decidable (∀ redo : Bool, op.op = .undoing redo self.engine.gh.totalLen → _))

theorem EditorOp.IsEdit.findsOp {self : RemoteDoc} {op : EditorFatOp} (h : op.op.IsEdit) :
    self.FindsOp op := by
  intro redo hop
  rw [hop] at h
  cases redo <;> cases h

theorem ClientEngine.Makes.ne_nil {self : RemoteDoc} {op : EditorFatOp} {ops : List Op}
    {instrs : List EditInstruction} {doc : InternalDoc}
    (h : self.engine.Makes op.op ops instrs doc) (hfinds : self.FindsOp op) : ops ≠ [] := by
  generalize hop : op.op = editorOp at h
  cases h with
  | ins | del => exact List.cons_ne_nil _ _
  | undo redo hops =>
      rintro rfl
      have hlength := congrArg List.length hops
      rw [List.length_map, GlobalHistory.inverses_length] at hlength
      exact hfinds redo hop (List.eq_nil_of_length_eq_zero (by simpa using hlength.symm))

section Gapless

variable {P : Doc → Prop} {Q : Doc → SiteId → Site → Prop}
  {editC editC' : Doc → RemoteDoc → EditorFatOp → Prop} {deliverC : RemoteDoc → FatOp Op → Prop}

/-- A copy whose numbers leave no gap, also what becomes of it. -/
theorem System.Serves.gapless (hs : System.Serves P Q editC deliverC)
    (hwired : ∀ doc id site, Q doc id site → ∃ m, Wired doc id m site)
    (hedit : ∀ doc rd op, editC' doc rd op → editC doc rd op ∧ rd.FindsOp op) :
    System.Serves P (fun doc id site => Q doc id site ∧ ∃ m, site.doc.engine.Gapless m)
      editC' deliverC where
  keeps :=
    { join := fun doc id hdoc hid => ⟨hs.keeps.join doc id hdoc hid, 0, .new ..⟩
      edit := by
        intro doc id site editorOp rd hdoc ⟨h, m, hgapless⟩ hc hrun
        obtain ⟨hc, hfinds⟩ := hedit _ _ _ hc
        refine ⟨hs.keeps.edit doc id site editorOp rd hdoc h hc hrun, m, ?_⟩
        obtain ⟨_, _, _, _, _, _, hstep, -, rfl⟩ := RemoteDoc.processEditorOp_ok hrun
        exact hstep.gapless hgapless (hstep.makes.ne_nil hfinds)
      send := by
        intro doc id site hdoc ⟨h, m, hgapless⟩
        refine ⟨hs.keeps.send doc id site hdoc h, ?_⟩
        rw [Site.send_eq rfl]
        exact hgapless.maybePackageLocalOps rfl
      receive := by
        intro doc id site batch up processed doc' hdoc ⟨h, hgapless⟩ hup hrun
        obtain ⟨hdoc', hself, hothers⟩ :=
          hs.keeps.receive doc id site batch up processed doc' hdoc h hup hrun
        exact ⟨hdoc', ⟨hself, hgapless⟩, fun id' site' hne h' => ⟨hothers id' site' hne h'.1, h'.2⟩⟩
      deliver := by
        intro doc id site op down rd leanOps hdoc ⟨h, m, hgapless⟩ hc hdown hrun
        refine ⟨hs.keeps.deliver doc id site op down rd leanOps hdoc h hc hdown hrun, ?_⟩
        obtain ⟨n, hw⟩ := hwired doc id site h
        obtain ⟨-, ⟨hsite, localOp, localOps, _, hstep, rfl⟩ | ⟨-, _, _, _, _, hstep, -, rfl⟩⟩ :=
          RemoteDoc.processServerOp_ok hrun
        · -- The op that comes back was sent.
          obtain ⟨_, _, m', -, hm, -⟩ := hw.next_own hdown (hsite.trans hw.site_eq)
          have hsame : m = m' + 1 := (hgapless.tight.window.unique hw.window).trans hm
          exact ⟨m', hstep.gapless (hsame ▸ hgapless)⟩
        · exact ⟨m, hstep.gapless hgapless⟩
      external := fun doc chunks processed doc' hdoc hspells hrun =>
        have h := hs.keeps.external doc chunks processed doc' hdoc hspells hrun
        ⟨h.1, fun id site hsite => ⟨h.2 id site hsite.1, hsite.2⟩⟩ }
  applies doc id site batch up hdoc h := hs.applies doc id site batch up hdoc h.1
  resets := hs.resets
  doc_subscribers := hs.doc_subscribers
  site_subscribers doc subscribers id site h :=
    ⟨hs.site_subscribers doc subscribers id site h.1, h.2⟩

end Gapless

/-- A client that has taken the whole history, and of which no batch is on its way, waits for
nothing. -/
theorem Wired.none_sent {doc : Doc} {id : SiteId} {m : Nat} {site : Site}
    (h : Wired doc id m site) (hup : site.up = [])
    (hseq : site.doc.engine.currentSeq = doc.engine.gh.global.length) :
    m = 0 ∨ site.doc.engine.gh.localOps = [] := by
  have hout := h.outstanding
  rw [Site.onItsWay, hup] at hout
  have hheld : payloads (site.doc.engine.gh.localOps.take m) = [] := by
    cases hout with
    | ordered hdrop _ _ _ hcarry =>
        rw [hseq, List.drop_of_length_le (by simp)] at hdrop
        have hparts := hdrop.symm
        rw [List.append_eq_nil_iff, List.append_eq_nil_iff] at hparts
        have hlength := congrArg List.length hcarry
        rw [Grid.carry_length, hparts.1.2] at hlength
        exact List.eq_nil_of_length_eq_zero hlength.symm
  rcases List.take_eq_nil_iff.mp (List.map_eq_nil_iff.mp hheld) with hm | hlocal
  · exact .inl hm
  · exact .inr hlocal

/-- A client of which nothing is on its way, and to which nothing is, sends all its ops or has
none. -/
theorem Peer.Served.settles {P : Doc → Prop} {Q : Doc → SiteId → Site → Prop}
    {editC : Doc → RemoteDoc → EditorFatOp → Prop} {deliverC : RemoteDoc → FatOp Op → Prop}
    {worksAs : SiteId → Prop} {self : Peer} {doc : Doc}
    (h : self.Served (fun doc id site => Q doc id site ∧ ∃ m, site.doc.engine.Gapless m) worksAs
      doc)
    (hs : System.Serves P (fun doc id site => Q doc id site ∧ ∃ m, site.doc.engine.Gapless m)
      editC deliverC)
    (hwired : ∀ doc id site, Q doc id site → ∃ m, Wired doc id m site) (hdoc : P doc)
    {entry : RemoteDocEntry} (hentry : self.copy = some entry)
    (horder : entry.InOrder doc.engine.gh.global) (hup : self.up = [])
    (hheld : entry.held = doc.engine.gh.global.length) {d : DocId} {ops : List EditorFatOp}
    {leanOps : List EditorLeanOp} {batch : Option ContextOps} {rd : RemoteDoc}
    (hmeets : entry.SendMeets (editC doc) deliverC ops)
    (hsends : entry.sendOps d ops = some (.ok (leanOps, batch), rd)) :
    ∃ id site, Q doc id site ∧ site.doc = rd.bare ∧
      rd.engine.currentSeq = doc.engine.gh.global.length ∧
      (batch = none → rd.engine.gh.localOps = []) ∧
      ∀ sent ∈ batch, sent.ops = rd.engine.gh.localOps ∧ sent.context = rd.engine.currentSeq := by
  have hseq : rd.engine.currentSeq = doc.engine.gh.global.length :=
    (RemoteDoc.sendOps_ok hsends).2.1.trans hheld
  let entry' : RemoteDocEntry := { entry with toRemoteDoc := rd }
  let self' : Peer := { self with copy := some entry', up := batch.toList }
  have hafter : self'.Served _ worksAs doc :=
    h.sent hs hdoc hentry horder hmeets hsends (by rw [hup]; rfl) rfl (.refl _)
  obtain ⟨_, received, engine, -, -, hpackage, hresult⟩ := RemoteDoc.sendOps_stages hsends
  have hengine : rd.engine = engine := congrArg RemoteDoc.engine hresult
  rcases hafter with ⟨hnone, -⟩ | ⟨id, site, -, ⟨hsite, m, hgapless⟩, hstands⟩
  · cases hnone
  have hbare : site.doc = rd.bare := hstands.copy _ rfl
  have hsame : site.doc.engine = rd.engine := by rw [hbare]; rfl
  refine ⟨id, site, hsite, hbare, hseq, fun hbatch => ?_, fun sent hsent => ?_⟩
  · obtain ⟨n, hw⟩ := hwired doc id site hsite
    have hup : site.up = [] := by
      rw [hstands.up]
      exact List.map_eq_nil_iff.mpr (congrArg Option.toList hbatch)
    rcases hw.none_sent hup (hsame ▸ hseq) with hn | hlocal
    · -- All that was sent has come back.
      obtain rfl : m = 0 := (hgapless.tight.window.unique hw.window).trans hn
      rcases ClientEngine.maybePackageLocalOps_cases hpackage with ⟨-, heq⟩ | ⟨_, hsome, -⟩
      · rw [hsame, hengine, heq] at hgapless
        rw [hengine, heq]
        exact hgapless.none_waits (congrArg Prod.fst (hbatch ▸ hpackage))
      · cases hbatch.symm.trans hsome
    · exact hsame ▸ hlocal
  · rcases ClientEngine.maybePackageLocalOps_cases hpackage with ⟨hnone, -⟩ | ⟨_, hsome, heq⟩
    · cases hnone.symm.trans hsent
    · cases hsome.symm.trans hsent
      rw [hengine, heq]
      exact ⟨rfl, rfl⟩

namespace Network

/-! ## A quiet network -/

section Quiet

variable (p h : ServerId) (d : DocId) (net : Network)

/-- No message about the document is on its way between the client and the host. -/
def Quiet : Prop :=
  ∀ packet ∈ net.wire, packet.source = p ∧ packet.dest = h ∨ packet.source = h ∧ packet.dest = p →
    packet.body.docId? ≠ some d

instance : Decidable (net.Quiet p h d) :=
  inferInstanceAs (Decidable (∀ packet ∈ net.wire, _ → _))

end Quiet

variable {p h : ServerId} {d : DocId} {net : Network} {doc : Doc} {entry : RemoteDocEntry}

namespace Quiet

variable {β : Type} {f : Msg → Option β}

theorem pick_asked (hquiet : net.Quiet p h d) (hf : ∀ msg b, f msg = some b → msg.asked? = some d) :
    net.wire.filterMap (Packet.pick p h f) = [] := by
  refine List.filterMap_eq_nil_iff.mpr fun packet hmem => ?_
  cases hpick : packet.pick p h f with
  | none => rfl
  | some b =>
      obtain ⟨hsource, hdest, hbody⟩ := Packet.pick_some hpick
      exact absurd (Msg.docId?_of_asked? (hf _ _ hbody))
        (hquiet packet hmem (.inl ⟨hsource, hdest⟩))

theorem pick_told (hquiet : net.Quiet p h d) (hf : ∀ msg b, f msg = some b → msg.told? = some d) :
    net.wire.filterMap (Packet.pick h p f) = [] := by
  refine List.filterMap_eq_nil_iff.mpr fun packet hmem => ?_
  cases hpick : packet.pick h p f with
  | none => rfl
  | some b =>
      obtain ⟨hsource, hdest, hbody⟩ := Packet.pick_some hpick
      exact absurd (Msg.docId?_of_told? (hf _ _ hbody))
        (hquiet packet hmem (.inr ⟨hsource, hdest⟩))

theorem up (hquiet : net.Quiet p h d) : (net.peer p h d).up = [] :=
  hquiet.pick_asked fun _ _ hbatch => by
    obtain ⟨rfl, hdoc⟩ := Msg.batch?_some hbatch
    exact congrArg some hdoc

theorem requests (hquiet : net.Quiet p h d) : net.requests p h d = [] :=
  hquiet.pick_asked fun _ _ => Msg.asked?_of_request?

theorem tops (hquiet : net.Quiet p h d) : net.tops p h d = [] :=
  hquiet.pick_told fun _ _ => Msg.told?_of_top?

/-- The copy has all ops of the host, or keeps them. -/
theorem held (hquiet : net.Quiet p h d) (hupdated : net.Updated p h d)
    (hdoc : net.doc h d = some doc) (hcopy : net.copy p h d = some entry) :
    entry.held = doc.engine.currentSeq := by
  refine (hupdated doc hdoc).complete hquiet.requests hquiet.tops ?_
  show (net.copy p h d).map _ = some entry.held
  rw [hcopy]
  rfl

end Quiet

variable {config : ServerId → Config} {idealWorld : ServerId → WorldState} {acts : List Act}

/-- A copy that is not cut off has all ops of the host, or the newest is on its way to it, or a
question of it is.  When there is no message on its way it keeps all that it has not taken. -/
theorem nothing_missed (hdiff : ∀ act ∈ acts, act.Diffs)
    (horder : Run.Meets step
      (fun net act => net.GoesInOrder RemoteDoc.EditStands RemoteDoc.AgreesWithLocal h d act ∧
        net.NotCutOff p h d act) (start config idealWorld) acts)
    (hrun : Run.run step (start config idealWorld) acts = some net)
    (hdoc : net.doc h d = some doc) (hcopy : net.copy p h d = some entry) :
    (net.log p h d doc).Due entry.held ∧ (net.Quiet p h d →
      entry.remoteOpBuffer = doc.engine.gh.global.drop entry.engine.currentSeq) := by
  obtain ⟨hnet, hupdated⟩ := updated_run mirror_serves Hosts.start hdiff horder hrun
  refine ⟨(hupdated doc hdoc).due _ (by rw [log, hcopy]; rfl), fun hquiet => ?_⟩
  obtain ⟨history, hshares⟩ := hnet.shares
  have hlogs := hshares.logs doc hdoc
  have horder : entry.InOrder doc.engine.gh.global := by
    rw [hlogs.global]
    exact (hshares.copies p entry hcopy).inOrder
  have hheld : entry.engine.currentSeq + entry.remoteOpBuffer.length =
      doc.engine.gh.global.length :=
    (hquiet.held hupdated hdoc hcopy).trans hlogs.numbered.counted
  refine horder.eq_of_length ?_
  rw [List.length_drop, ← hheld]
  omega

/-- Host 0 types twice, and host 1 gets the second op first and asks for what it misses.  The
first message is lost after the answer is sent, and host 1 has typed meanwhile. -/
def overtaken : List Act :=
  session ++
    [sends 0 2 [⟨.ins 0 ['z'], 1⟩], .deliver Os.bare 0, .deliver Os.bare 0, sends 0 3 [],
      sends 0 4 [⟨.ins 0 ['w'], 2⟩], .deliver Os.bare 1, .deliver Os.bare 1, .deliver Os.bare 1,
      sends 1 2 [⟨.ins 1 ['y'], 1⟩], .deliver Os.bare 1, .lose 0, .deliver Os.bare 1,
      .deliver Os.bare 0, .deliver Os.bare 1]

/-- Host 1 keeps the two ops and its own. -/
theorem nothing_missed_sample :
    ∃ net doc entry,
      Run.run step (start noConfig nobodyWanted) (overtaken.map Act.diffing) = some net ∧
        net.doc 0 1 = some doc ∧ net.copy 1 0 1 = some entry ∧
        entry.remoteOpBuffer = doc.engine.gh.global ∧ entry.remoteOpBuffer.length = 3 := by
  have hend : ((Run.run step (start noConfig nobodyWanted) (overtaken.map Act.diffing)).bind
      fun net => (net.doc 0 1).bind fun doc => (net.copy 1 0 1).map fun entry =>
        decide (net.Quiet 1 0 1 ∧ entry.engine.currentSeq = 0 ∧
          entry.remoteOpBuffer.length = 3)) = some true := by decide +kernel
  obtain ⟨net, hrun, hend⟩ := Option.bind_eq_some_iff.mp hend
  obtain ⟨doc, hdoc, hend⟩ := Option.bind_eq_some_iff.mp hend
  obtain ⟨entry, hcopy, hend⟩ := Option.map_eq_some_iff.mp hend
  obtain ⟨hquiet, hseq, hlength⟩ := of_decide_eq_true hend
  have hkeeps := (nothing_missed (diffs_diffing overtaken) (by decide +kernel) hrun hdoc
    hcopy).2 hquiet
  rw [hseq, List.drop_zero] at hkeeps
  exact ⟨net, doc, entry, hrun, hdoc, hcopy, hkeeps, hlength⟩

/-- The invariant of a copy that follows the host and leaves no gap in its numbers. -/
abbrev Settles (Q : Text → Doc → SiteId → Site → Prop) (content : Text) (doc : Doc) (id : SiteId)
    (site : Site) : Prop :=
  Q content doc id site ∧ ∃ m, site.doc.engine.Gapless m

/-- When the network is quiet, what the editor sends is packaged to the last op. -/
theorem Embeds.settles {P : Text → Doc → Prop} {Q : Text → Doc → SiteId → Site → Prop}
    {editC : Doc → RemoteDoc → EditorFatOp → Prop} {deliverC : RemoteDoc → FatOp Op → Prop}
    (hnet : net.Embeds P (Settles Q) h d) (hupdated : net.Updated p h d)
    (hs : ∀ content, System.Serves (P content) (Settles Q content) editC deliverC)
    (hwired : ∀ content doc id site, Q content doc id site → ∃ m, Wired doc id m site)
    (hdoc : net.doc h d = some doc) (hcopy : net.copy p h d = some entry)
    (hquiet : net.Quiet p h d) {ops : List EditorFatOp} {leanOps : List EditorLeanOp}
    {batch : Option ContextOps} {rd : RemoteDoc}
    (hmeets : entry.SendMeets (editC doc) deliverC ops)
    (hsends : entry.sendOps d ops = some (.ok (leanOps, batch), rd)) :
    ∃ content id site, P content doc ∧ Q content doc id site ∧ site.doc = rd.bare ∧
      (∀ sent ∈ batch, sent.ops = rd.engine.gh.localOps ∧
        sent.context = doc.engine.currentSeq) ∧ (batch = none → rd.CaughtUp doc) := by
  obtain ⟨content, hP, hpeers⟩ := hnet.served doc hdoc
  obtain ⟨history, hshares⟩ := hnet.shares
  have hlogs := hshares.logs doc hdoc
  have hcounted := hlogs.numbered.counted
  have horder : entry.InOrder doc.engine.gh.global := by
    rw [hlogs.global]
    exact (hshares.copies p entry hcopy).inOrder
  have hheld := (hquiet.held hupdated hdoc hcopy).trans hcounted
  obtain ⟨id, site, hsite, hbare, hseq, hnone, hsome⟩ := (hpeers p).settles (hs content)
    (hwired content) hP hcopy horder hquiet.up hheld hmeets hsends
  have hseq := hseq.trans hcounted.symm
  exact ⟨content, id, site, hP, hsite, hbare,
    fun sent hsent => (hsome sent hsent).imp_right fun hcontext => hcontext.trans hseq,
    fun hbatch => ⟨hnone hbatch, hseq⟩⟩

/-- The edit stands, and if it is an undo or a redo it finds an op. -/
def UndoesOp (doc : Doc) (rd : RemoteDoc) (op : EditorFatOp) : Prop :=
  rd.EditStands doc op ∧ rd.FindsOp op

instance (doc : Doc) (rd : RemoteDoc) (op : EditorFatOp) : Decidable (UndoesOp doc rd op) :=
  inferInstanceAs (Decidable (_ ∧ _))

theorem mirror_settles (content : Text) :
    System.Serves (Hosts content)
      (Settles (fun content doc id site => (∃ m, Wired doc id m site) ∧ Mirrors content doc site)
        content) UndoesOp RemoteDoc.AgreesWithLocal :=
  (mirror_serves content).gapless (fun _ _ _ h => h.1) fun _ _ _ h => h

/-- Then the editors ask for it, and host 1 takes its op back. -/
def takenBack : List Act :=
  overtaken ++
    [sends 1 3 [], sends 1 4 [⟨.undo 3, 2⟩], .deliver Os.bare 0, .deliver Os.bare 0,
      .deliver Os.bare 1]

theorem plain_settles (content : Text) :
    System.Serves (fun doc => Hosts content doc ∧ AllPlain doc.engine.gh.global)
      (Settles (fun content doc id site => ((∃ m, Wired doc id m site) ∧
        Mirrors content doc site) ∧ site.doc.engine.OnlyEdits) content)
      RemoteDoc.EditFits (fun _ _ => True) :=
  (plain_serves content).gapless (fun _ _ _ h => h.1.1)
    fun _ _ _ h => ⟨h, (EditorOp.Fits.isEdit h.1).findsOp⟩

/-- When editors only insert and delete, nothing else is asked for, and what an editor sends is
taken. -/
theorem quiet_plain_servers_converge (hdiff : ∀ act ∈ acts, act.Diffs)
    (horder : Run.Meets step
      (fun net act => net.GoesInOrder RemoteDoc.EditFits (fun _ _ => True) h d act ∧
        net.NotCutOff p h d act) (start config idealWorld) acts)
    (hrun : Run.run step (start config idealWorld) acts = some net)
    (hdoc : net.doc h d = some doc) (hcopy : net.copy p h d = some entry)
    (hquiet : net.Quiet p h d) {ops : List EditorFatOp}
    (hmeets : entry.SendMeets (RemoteDoc.EditFits doc) (fun _ _ => True) ops) :
    ∃ leanOps batch rd, entry.sendOps d ops = some (.ok (leanOps, batch), rd) ∧
      (∀ sent ∈ batch, sent.ops = rd.engine.gh.localOps ∧
        sent.context = doc.engine.currentSeq) ∧ (batch = none → rd.buffer = doc.buffer) := by
  obtain ⟨hnet, hupdated⟩ := updated_run plain_settles
    (fun content => ⟨Hosts.start content, nofun⟩) hdiff horder hrun
  obtain ⟨leanOps, batch, rd, hsends⟩ := hnet.takes plain_settles
    (fun content => (plain_takes content).mono fun _ _ _ h => h.1) hdoc hcopy hmeets
  obtain ⟨content, id, site, hhosts, hsite, hbare, hsome, hnone⟩ := hnet.settles hupdated
    plain_settles (fun _ _ _ _ h => h.1.1) hdoc hcopy hquiet hmeets hsends
  exact ⟨leanOps, batch, rd, hsends, hsome, fun hbatch =>
    ((hsite.1.2.follows hhosts.1 hbare).displays (hnone hbatch)).1⟩

/-- Host 1 types before it has taken the ops that came, among them its own. -/
theorem quiet_plain_servers_converge_sample :
    ∃ net doc entry leanOps batch rd,
      Run.run step (start noConfig nobodyWanted) (overtaken.map Act.diffing) = some net ∧
        net.doc 0 1 = some doc ∧ net.copy 1 0 1 = some entry ∧
        entry.sendOps 1 [⟨.ins 0 ['v'], 2⟩] = some (.ok (leanOps, batch), rd) ∧
        ∀ sent ∈ batch, sent.ops = rd.engine.gh.localOps := by
  have hend : ((Run.run step (start noConfig nobodyWanted) (overtaken.map Act.diffing)).bind
      fun net => (net.doc 0 1).bind fun doc => (net.copy 1 0 1).map fun entry =>
        decide (net.Quiet 1 0 1 ∧ entry.SendMeets (RemoteDoc.EditFits doc) (fun _ _ => True)
          [⟨.ins 0 ['v'], 2⟩])) = some true := by decide +kernel
  obtain ⟨net, hrun, hend⟩ := Option.bind_eq_some_iff.mp hend
  obtain ⟨doc, hdoc, hend⟩ := Option.bind_eq_some_iff.mp hend
  obtain ⟨entry, hcopy, hend⟩ := Option.map_eq_some_iff.mp hend
  obtain ⟨hquiet, hmeets⟩ := of_decide_eq_true hend
  obtain ⟨leanOps, batch, rd, hsends, hsome, -⟩ := quiet_plain_servers_converge
    (diffs_diffing overtaken) (by decide +kernel) hrun hdoc hcopy hquiet hmeets
  exact ⟨net, doc, entry, leanOps, batch, rd, hrun, hdoc, hcopy, hsends,
    fun sent hsent => (hsome sent hsent).1⟩

end Network

end CollabMode
