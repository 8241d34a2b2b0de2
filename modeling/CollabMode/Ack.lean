import CollabMode.System
import CollabMode.StopAndWait
import CollabMode.Lib.Outstanding

/-!
# What comes back is what the client holds

The host carries a batch past all ops it has ordered since the batch's context,
at once.  The client carries the ops it has sent past each of these ops as it
arrives.  `Wired` is the invariant of a peer in a run of the system: `down` is
the rest of the host's history, the numbers of the local ops form a `Window`, and
the ops that were sent are `Grid.Outstanding`.  So the op that comes back has
the positions, the content and the number of the head of the local ops.

For this the local ops must be ops of the client's own site.  An undo makes an op
of the site of the op that it inverts, so it must find own ops in the undo queue
(`OwnUndos`).
-/

namespace CollabMode

open Grid (Outstanding)

/-! ## What is compared -/

/-- The op and the number that its client gave it. -/
def FatOp.payload (op : FatOp Op) : Op × LocalSeq := (op.op, op.siteSeq)

def payloadTransform (a b : Op × LocalSeq) : Op × LocalSeq := (a.1.transform b.1, a.2)

theorem FatOp.hom_payload : Grid.Hom FatOp.transform payloadTransform FatOp.payload :=
  fun _ _ => rfl

/-- The op is one of site `id`. -/
def Own (id : SiteId) (p : Op × LocalSeq) : Prop := p.1.site = id

theorem keeps_own (id : SiteId) : Grid.Keeps payloadTransform (Own id) := by
  intro a b
  simp [Own, payloadTransform]

/-- The payloads of a history. -/
abbrev payloads (ops : List (FatOp Op)) : List (Op × LocalSeq) := ops.map FatOp.payload

/-! ## The invariant -/

/-- The host numbers its history from 1. -/
structure Numbered (doc : Doc) : Prop where
  counted : doc.engine.currentSeq = doc.engine.gh.global.length
  seqs : ∀ i op, doc.engine.gh.global[i]? = some op → op.seq = some (i + 1)

theorem Numbered.start (content : Text) : Numbered (System.start content).doc :=
  ⟨rfl, fun i op h => by simp [System.start, Doc.new, ServerEngine.new, GlobalHistory.new] at h⟩

/-- The batch of a peer that is on its way. -/
def Site.onItsWay (site : Site) : Option (Nat × List (Op × LocalSeq)) :=
  site.up.head?.map fun batch => (batch.context, payloads batch.ops)

/-- A peer of which the first `m` local ops were sent. -/
structure Wired (doc : Doc) (id : SiteId) (m : Nat) (site : Site) : Prop where
  site_eq : site.doc.engine.site = id
  notExternal : id ≠ externalProcessSiteId
  seen : site.doc.engine.currentSeq ≤ doc.engine.gh.global.length
  down : site.down = doc.engine.gh.global.drop site.doc.engine.currentSeq
  own : ∀ op ∈ site.doc.engine.gh.localOps, op.site = id
  numbers : site.doc.nextSiteSeq = site.doc.engine.currentSiteSeq + 1
  window : Window (site.doc.engine.gh.localOps.map FatOp.siteSeq) m
    site.doc.engine.lastSiteSeqSentOut site.doc.engine.currentSiteSeq
  single : site.up.length ≤ 1
  outstanding : Outstanding payloadTransform (Own id) (payloads doc.engine.gh.global)
    site.doc.engine.currentSeq site.onItsWay
    (payloads (site.doc.engine.gh.localOps.take m))

/-- An undo or a redo finds ops of the own site. -/
def OwnUndos (eng : ClientEngine) (op : EditorOp) : Prop :=
  ∀ redo, op = .undoing redo eng.gh.totalLen →
    ∀ entry ∈ eng.gh.undoEntries redo, entry.2.site = eng.site

instance (eng : ClientEngine) (op : EditorOp) : Decidable (OwnUndos eng op) :=
  inferInstanceAs (Decidable (∀ redo : Bool, op = .undoing redo eng.gh.totalLen →
    ∀ entry ∈ eng.gh.undoEntries redo, entry.2.site = eng.site))

/-- The payloads of a batch that was ordered. -/
theorem payloads_ordered (doc : Doc) (ops : List (FatOp Op))
    (context : GlobalSeq) :
    payloads (doc.ordered ops context) =
      Grid.carry payloadTransform ((payloads doc.engine.gh.global).drop context)
        (payloads ops) := by
  rw [payloads, Doc.ordered, ServerEngine.map_assignSeqs fun _ _ => rfl,
    FatOp.hom_payload.carry, List.map_drop]

namespace Wired

variable {doc : Doc} {id : SiteId} {m : Nat} {site : Site}

theorem le (h : Wired doc id m site) : m ≤ site.doc.engine.gh.localOps.length := by
  have := h.window.le
  rwa [List.length_map] at this

theorem join (hdoc : Numbered doc) (hid : id ≠ externalProcessSiteId) :
    Wired doc id 0 (Site.join doc id) := by
  have hdrop : doc.engine.gh.global.drop doc.engine.currentSeq = [] :=
    List.drop_eq_nil_of_le (Nat.le_of_eq hdoc.counted.symm)
  refine ⟨rfl, hid, Nat.le_of_eq hdoc.counted, hdrop.symm, fun _ h => (by cases h), rfl,
    Window.nil, Nat.zero_le _, Outstanding.idle ?_⟩
  show ∀ op ∈ (payloads doc.engine.gh.global).drop doc.engine.currentSeq, _
  rw [← List.map_drop, hdrop]
  simp

/-- An op of the editor. -/
theorem edit (h : Wired doc id m site) {editorOp : EditorFatOp} {rd : RemoteDoc}
    (hown : OwnUndos site.doc.engine editorOp.op)
    (hrun : site.doc.processEditorOp editorOp = some (.ok (), rd)) :
    Wired doc id m { site with doc := rd } := by
  obtain ⟨ops, instrs, idoc, gh, eng, buffer, hstep, _, rfl⟩ := RemoteDoc.processEditorOp_ok hrun
  obtain ⟨_, new, hnew, hops, hseqs⟩ := GlobalHistory.recordOps_ok hstep.records
  have hsites := hstep.makes.site hown
  rw [hstep.result]
  have hlocal : gh.localOps = site.doc.engine.gh.localOps ++ new := hnew
  have hnumbers : gh.localOps.map FatOp.siteSeq = site.doc.engine.gh.localOps.map FatOp.siteSeq ++
      List.replicate new.length (site.doc.engine.currentSiteSeq + 1) := by
    rw [hlocal, List.map_append]
    congr 1
    refine List.eq_replicate_iff.mpr ⟨List.length_map _, fun q hq => ?_⟩
    obtain ⟨op, hop, rfl⟩ := List.mem_map.mp hq
    rw [hseqs op hop, hstep.siteSeq_eq]
  refine ⟨h.site_eq, h.notExternal, h.seen, h.down, ?_, rfl, ?_, h.single, ?_⟩
  · intro op hop
    rcases List.mem_append.mp (hlocal ▸ hop) with hop | hop
    · exact h.own op hop
    · rw [← h.site_eq]
      exact hsites op.op (hops ▸ List.mem_map_of_mem hop)
  · have := h.window.push new.length
    rw [← hnumbers, ← hstep.siteSeq_eq] at this
    exact this
  · have htake : gh.localOps.take m = site.doc.engine.gh.localOps.take m := by
      rw [hlocal, List.take_append_of_le_length h.le]
    show Outstanding _ _ _ _ _ (payloads (gh.localOps.take m))
    rw [htake]
    exact h.outstanding

/-- Sending does nothing, or sends all local ops when none is outstanding. -/
theorem send (h : Wired doc id m site) : ∃ m', Wired doc id m' site.send := by
  have hpackage := ClientEngine.maybePackageLocalOps_eq site.doc.engine 0
  split at hpackage
  next first last hfirst hlast =>
      split at hpackage
      next hnext =>
          have hm : m = 0 := by
            refine h.window.eq_zero_of_head (q := first.siteSeq) ?_ ?_
            · rw [List.head?_map, hfirst]
              rfl
            · rw [hnext]
              exact Nat.lt_succ_self _
          subst hm
          obtain ⟨hway, _⟩ := h.outstanding.of_nil
          have hup : site.up = [] := by simpa [Site.onItsWay] using hway
          have hne : site.doc.engine.gh.localOps ≠ [] := by
            rintro hnil
            simp [hnil] at hfirst
          have hsend : site.send = { site with
              doc := { site.doc with
                engine := { site.doc.engine with lastSiteSeqSentOut := last.siteSeq } }
              up := [⟨site.doc.engine.currentSeq, 0, site.doc.engine.gh.localOps⟩] } := by
            simp [Site.send, hpackage, hup]
          refine ⟨site.doc.engine.gh.localOps.length, ?_⟩
          rw [hsend]
          refine ⟨h.site_eq, h.notExternal, h.seen, h.down, h.own, h.numbers, ?_,
            Nat.le_refl 1, ?_⟩
          · have := h.window.flush (q := last.siteSeq) (by rw [List.getLast?_map, hlast]; rfl)
            rwa [List.length_map] at this
          · show Outstanding _ _ _ _ (some (site.doc.engine.currentSeq,
              payloads site.doc.engine.gh.localOps)) _
            rw [List.take_length]
            refine h.outstanding.send (by simpa using hne) fun p hp => ?_
            obtain ⟨op, hop, rfl⟩ := List.mem_map.mp hp
            exact h.own op hop
      next =>
          have hsend : site.send = site := by simp [Site.send, hpackage]
          exact ⟨m, by rw [hsend]; exact h⟩
  next =>
      have hsend : site.send = site := by simp [Site.send, hpackage]
      exact ⟨m, by rw [hsend]; exact h⟩

/-- The host orders ops of other sites. -/
theorem push (h : Wired doc id m site) {doc' : Doc} {new : List (FatOp Op)}
    (hglobal : doc'.engine.gh.global = doc.engine.gh.global ++ new)
    (hnew : ∀ op ∈ new, op.site ≠ id) : Wired doc' id m (site.push new) := by
  refine ⟨h.site_eq, h.notExternal, ?_, ?_, h.own, h.numbers, h.window, h.single, ?_⟩
  · rw [hglobal, List.length_append]
    exact Nat.le_trans h.seen (Nat.le_add_right _ _)
  · show site.down ++ new = doc'.engine.gh.global.drop site.doc.engine.currentSeq
    rw [hglobal, List.drop_append_of_le_length h.seen, h.down]
  · rw [hglobal]
    show Outstanding _ _ (payloads (_ ++ new)) _ _ _
    rw [payloads, List.map_append]
    refine h.outstanding.append (by rw [List.length_map]; exact h.seen) fun p hp => ?_
    obtain ⟨op, hop, rfl⟩ := List.mem_map.mp hp
    exact hnew op hop

/-- The host orders the batch of this peer. -/
theorem order (h : Wired doc id m site) {batch : ContextOps}
    {up : List ContextOps} (hup : site.up = batch :: up) {doc' : Doc}
    (hglobal : doc'.engine.gh.global =
      doc.engine.gh.global ++ doc.ordered batch.ops batch.context) :
    (∀ op ∈ doc.ordered batch.ops batch.context, op.site = id) ∧
      Wired doc' id m ({ site with up }.push (doc.ordered batch.ops batch.context)) := by
  have hnil : up = [] := by
    have := h.single
    rw [hup, List.length_cons] at this
    exact List.length_eq_zero_iff.mp (by omega)
  have hout := h.outstanding
  have hway : site.onItsWay = some (batch.context, payloads batch.ops) := by
    simp [Site.onItsWay, hup]
  rw [hway] at hout
  obtain ⟨hown, hordered⟩ := hout.order (by rw [List.length_map]; exact h.seen) (keeps_own id)
  rw [← payloads_ordered] at hown hordered
  refine ⟨fun op hop => hown op.payload (List.mem_map_of_mem hop), ?_⟩
  subst hnil
  refine ⟨h.site_eq, h.notExternal, ?_, ?_, h.own, h.numbers, h.window, Nat.zero_le _, ?_⟩
  · rw [hglobal, List.length_append]
    exact Nat.le_trans h.seen (Nat.le_add_right _ _)
  · show site.down ++ _ = doc'.engine.gh.global.drop site.doc.engine.currentSeq
    rw [hglobal, List.drop_append_of_le_length h.seen, h.down]
  · rw [hglobal]
    show Outstanding _ _ (payloads (_ ++ _)) _ none _
    rw [payloads, List.map_append]
    exact hordered

/-- The next op is the client's own.  It is the head of the local ops. -/
theorem next_own (h : Wired doc id m site) {op : FatOp Op} {down : List (FatOp Op)}
    (hdown : site.down = op :: down) (hop : op.site = id) :
    ∃ localOp localOps m', site.doc.engine.gh.localOps = localOp :: localOps ∧ m = m' + 1 ∧
      op.payload = localOp.payload ∧
      Outstanding payloadTransform (Own id) (payloads doc.engine.gh.global)
        (site.doc.engine.currentSeq + 1) site.onItsWay (payloads (localOps.take m')) := by
  have hdrop : (payloads doc.engine.gh.global).drop site.doc.engine.currentSeq =
      op.payload :: payloads down := by
    rw [← List.map_drop, ← h.down, hdown]
    rfl
  obtain ⟨held, hheld, hout⟩ := h.outstanding.ack hdrop hop
  cases m with
  | zero => cases hheld
  | succ m =>
      cases hlocal : site.doc.engine.gh.localOps with
      | nil => simp [hlocal] at hheld
      | cons localOp localOps =>
          rw [hlocal] at hheld
          obtain ⟨heq, hrest⟩ := List.cons.inj hheld
          obtain rfl : payloads (localOps.take m) = held := hrest
          exact ⟨localOp, localOps, m, rfl, rfl, heq.symm, hout⟩

/-- The peer takes its own op. -/
theorem ack (h : Wired doc id m site) {op : FatOp Op} {down : List (FatOp Op)}
    (hdown : site.down = op :: down) (hop : op.site = id) {localOp : FatOp Op}
    {localOps : List (FatOp Op)} {engine : ClientEngine}
    (hack : site.doc.engine.AckStep op localOp localOps engine) :
    ∃ m', Wired doc id m' { site with doc := { site.doc with engine }, down } := by
  obtain ⟨localOp', localOps', m', hlocal, rfl, _, hout⟩ := h.next_own hdown hop
  rw [hack.localOps_eq] at hlocal
  obtain ⟨rfl, rfl⟩ := List.cons.inj hlocal
  have hwindow := h.window
  rw [hack.localOps_eq, List.map_cons] at hwindow
  rw [hack.result]
  refine ⟨m', h.site_eq, h.notExternal, ?_, ?_, ?_, h.numbers, hwindow.pop, h.single, hout⟩
  · have hlt := congrArg List.length (h.down.symm.trans hdown)
    rw [List.length_drop, List.length_cons] at hlt
    exact Nat.lt_of_sub_eq_succ hlt
  · show down = doc.engine.gh.global.drop (site.doc.engine.currentSeq + 1)
    rw [← List.drop_drop, ← h.down, hdown]
    rfl
  · intro op' hop'
    exact h.own op' (by rw [hack.localOps_eq]; exact List.mem_cons_of_mem _ hop')

/-- The peer takes an op of another site. -/
theorem foreign (h : Wired doc id m site) {op : FatOp Op} {down : List (FatOp Op)}
    (hdown : site.down = op :: down) (hop : op.site ≠ id) {instr : EditInstruction}
    {idoc : InternalDoc} {engine : ClientEngine}
    (hforeign : site.doc.engine.ForeignStep op instr idoc engine) (buffer : Text) :
    Wired doc id m { site with doc := { site.doc with engine, buffer }, down } := by
  have hdrop : (payloads doc.engine.gh.global).drop site.doc.engine.currentSeq =
      op.payload :: payloads down := by
    rw [← List.map_drop, ← h.down, hdown]
    rfl
  have hmap : ∀ {β : Type} {f : FatOp Op → β}, (∀ op kind, f { op with kind } = f op) →
      (ClientEngine.bumpUndoDeltas 0
        (Grid.past FatOp.transform op site.doc.engine.gh.localOps)).map f =
      (Grid.past FatOp.transform op site.doc.engine.gh.localOps).map f :=
    fun hf => ClientEngine.map_bumpUndoDeltas hf 0 _
  have hheld : payloads ((ClientEngine.bumpUndoDeltas 0
      (Grid.past FatOp.transform op site.doc.engine.gh.localOps)).take m) =
      Grid.past payloadTransform op.payload (payloads (site.doc.engine.gh.localOps.take m)) := by
    rw [payloads, List.map_take, hmap fun _ _ => rfl, FatOp.hom_payload.past, ← Grid.past_take,
      ← List.map_take]
  have hout := h.outstanding.foreign hdrop hop
  rw [← hheld] at hout
  rw [hforeign.result]
  refine ⟨h.site_eq, h.notExternal, ?_, ?_, ?_, h.numbers, ?_, h.single, hout⟩
  · have hlt := congrArg List.length (h.down.symm.trans hdown)
    rw [List.length_drop, List.length_cons] at hlt
    exact Nat.lt_of_sub_eq_succ hlt
  · show down = doc.engine.gh.global.drop (site.doc.engine.currentSeq + 1)
    rw [← List.drop_drop, ← h.down, hdown]
    rfl
  · intro op' hop'
    have hmem := List.mem_map_of_mem (f := FatOp.site) hop'
    rw [hmap fun _ _ => rfl, FatOp.keeps_site.past] at hmem
    obtain ⟨x, hx, heq⟩ := List.mem_map.mp hmem
    rw [← heq]
    exact h.own x hx
  · show Window ((ClientEngine.bumpUndoDeltas 0
      (Grid.past FatOp.transform op site.doc.engine.gh.localOps)).map FatOp.siteSeq) _ _ _
    rw [hmap fun _ _ => rfl, FatOp.keeps_siteSeq.past]
    exact h.window

/-- The next op carries the next number. -/
theorem next_seq (h : Wired doc id m site) (hdoc : Numbered doc) {op : FatOp Op}
    {down : List (FatOp Op)} (hdown : site.down = op :: down) :
    op.seq = some (site.doc.engine.currentSeq + 1) := by
  refine hdoc.seqs _ _ ?_
  have := congrArg List.head? (h.down.symm.trans hdown)
  rwa [List.head?_drop] at this

end Wired

/-! ## The steps -/

theorem Numbered.append {doc : Doc} (h : Numbered doc) (ops : List (FatOp Op))
    (context : GlobalSeq) : Numbered (doc.append (doc.ordered ops context)) := by
  refine ⟨?_, fun i op hop => ?_⟩
  · show doc.engine.currentSeq + _ = (doc.engine.gh.global ++ _).length
    rw [List.length_append, h.counted]
  · have hop : (doc.engine.gh.global ++ doc.ordered ops context)[i]? = some op := hop
    by_cases hi : i < doc.engine.gh.global.length
    · rw [List.getElem?_append_left hi] at hop
      exact h.seqs i op hop
    · rw [List.getElem?_append_right (Nat.le_of_not_lt hi)] at hop
      rw [ServerEngine.assignSeqs_getElem hop, h.counted]
      congr 1
      omega

/-- The text of the document does not matter. -/
theorem Numbered.of_applyOps {doc doc' : Doc} (h : Numbered doc) {ops : List (FatOp Op)}
    (hrun : Doc.applyOps ops doc = some (.ok (), doc')) : Numbered doc' := by
  obtain ⟨idoc, buffer, rfl⟩ := Doc.applyOps_ok hrun
  exact ⟨h.counted, h.seqs⟩

theorem Doc.applyOps_global {doc doc' : Doc} {ops : List (FatOp Op)}
    (hrun : Doc.applyOps ops doc = some (.ok (), doc')) :
    doc'.engine.gh.global = doc.engine.gh.global := by
  obtain ⟨idoc, buffer, rfl⟩ := Doc.applyOps_ok hrun
  rfl

theorem site_chunksToOps {chunks : List Chunk} (hne : ∀ chunk ∈ chunks, chunk.text ≠ [])
    {siteId : SiteId} {nextSeq : LocalSeq} :
    ∀ op ∈ (chunksToOps chunks siteId nextSeq).1, op.site = siteId := by
  intro op hop
  have hmem := List.mem_map_of_mem (f := FatOp.op) hop
  rw [chunksToOps_op, List.mem_reverse] at hmem
  exact (chunksToRawOps_ok hne (Nat.le_refl _) op.op hmem).2.2.2

/-- Ordering keeps the sites. -/
theorem Doc.site_ordered {doc : Doc} {ops : List (FatOp Op)} {context : GlobalSeq} {id : SiteId}
    (h : ∀ op ∈ ops, op.site = id) : ∀ op ∈ doc.ordered ops context, op.site = id := by
  intro op hop
  have hmem := List.mem_map_of_mem (f := FatOp.site) hop
  rw [Doc.ordered, ServerEngine.map_assignSeqs fun _ _ => rfl, FatOp.keeps_site.carry] at hmem
  obtain ⟨x, hx, heq⟩ := List.mem_map.mp hmem
  rw [← heq]
  exact h x hx

theorem wired_keeps :
    System.Keeps Numbered (fun doc id site => ∃ m, Wired doc id m site)
      (fun _ site editorOp => OwnUndos site.doc.engine editorOp.op) (fun _ _ _ => True) where
  join _ _ hdoc hid := ⟨0, Wired.join hdoc hid⟩
  edit _ _ _ _ _ _ h hown hrun := h.imp fun _ h => h.edit hown hrun
  send _ _ _ _ h := h.elim fun _ h => h.send
  receive doc id site batch up processed doc' hdoc h hup hrun := by
    obtain ⟨m, h⟩ := h
    obtain ⟨rfl, happly⟩ := Doc.processAndApply_ok hrun
    have hglobal := Doc.applyOps_global happly
    obtain ⟨hown, hwired⟩ := h.order hup hglobal
    refine ⟨(hdoc.append _ _).of_applyOps happly, ⟨m, hwired⟩, fun id' site' hne h' => ?_⟩
    exact h'.imp fun m' h' => h'.push hglobal fun op hop heq =>
      hne (heq.symm.trans (hown op hop))
  deliver doc id site op down rd leanOps hdoc h _ hdown hrun := by
    obtain ⟨m, h⟩ := h
    obtain ⟨_, ⟨hsite, localOp, localOps, engine, hack, rfl⟩ |
      ⟨hsite, instr, idoc, engine, buffer, hforeign, _, rfl⟩⟩ := RemoteDoc.processServerOp_ok hrun
    · exact h.ack hdown (hsite.trans h.site_eq) hack
    · exact ⟨m, h.foreign hdown (fun heq => hsite (heq.trans h.site_eq.symm)) hforeign buffer⟩
  external doc chunks processed doc' hdoc hspells hrun := by
    obtain ⟨n, happly, hproc⟩ := Doc.resetFromDisk_ok hrun
    have hglobal := Doc.applyOps_global happly
    refine ⟨?_, fun id site h => ?_⟩
    · rw [hproc] at happly
      have hnum : Numbered { doc with nextExternalSiteSeq := n } := ⟨hdoc.counted, hdoc.seqs⟩
      exact (hnum.append _ _).of_applyOps happly
    · obtain ⟨m, h⟩ := h
      refine ⟨m, h.push hglobal fun op hop heq => h.notExternal (heq.symm.trans ?_)⟩
      rw [hproc] at hop
      exact Doc.site_ordered (site_chunksToOps hspells.2) op hop

/-- When an op comes back to its peer, it has the positions, the content and the
number of the head of the local ops, and takes its place.  No op that comes is
refused. -/
theorem acked_op_is_head {content : Text} {acts : List Act} {sys : System}
    (hown : Run.Meets System.step (System.Cond
      (fun _ site editorOp => OwnUndos site.doc.engine editorOp.op) fun _ _ _ => True)
      (System.start content) acts)
    (hrun : Run.run System.step (System.start content) acts = some sys)
    {id : SiteId} {site : Site} (hsite : sys.site? id = some site)
    {op : FatOp Op} {down : List (FatOp Op)} (hdown : site.down = op :: down) :
    (op.site = id → ∃ localOp localOps engine,
      site.doc.engine.gh.localOps = localOp :: localOps ∧
      op.op = localOp.op ∧ op.siteSeq = localOp.siteSeq ∧
      site.doc.engine.processRemoteOp op = some (.ok none, engine) ∧
      engine.gh.history.map FatOp.op = site.doc.engine.gh.history.map FatOp.op) ∧
    ∀ err engine, site.doc.engine.processRemoteOp op ≠ some (.error err, engine) := by
  have hinv := wired_keeps.run (Numbered.start content) hown hrun
  obtain ⟨m, h⟩ := hinv.sites id site hsite
  have hseq := h.next_seq hinv.doc hdown
  have hack : op.site = id → ∃ localOp localOps engine,
      site.doc.engine.gh.localOps = localOp :: localOps ∧
      op.op = localOp.op ∧ op.siteSeq = localOp.siteSeq ∧
      site.doc.engine.processRemoteOp op = some (.ok none, engine) ∧
      engine.gh.history.map FatOp.op = site.doc.engine.gh.history.map FatOp.op := by
    intro hop
    obtain ⟨localOp, localOps, m', hlocal, _, hpayload, _⟩ := h.next_own hdown hop
    have heqop : op.op = localOp.op := congrArg Prod.fst hpayload
    have heqseq : op.siteSeq = localOp.siteSeq := congrArg Prod.snd hpayload
    have hls : localOp.site = site.doc.engine.site := by
      rw [h.site_eq]
      exact h.own localOp (by simp [hlocal])
    obtain ⟨engine, hproc, hstep⟩ := ClientEngine.processRemoteOp_ack hseq
      (hop.trans h.site_eq.symm) hlocal hls heqseq.symm
    refine ⟨localOp, localOps, engine, hlocal, heqop, heqseq, hproc, ?_⟩
    rw [hstep.result]
    simp [GlobalHistory.history, hlocal, heqop]
  refine ⟨hack, fun err engine herr => ?_⟩
  by_cases hop : op.site = id
  · obtain ⟨_, _, _, _, _, _, hproc, _⟩ := hack hop
    rw [hproc] at herr
    cases herr
  · exact ClientEngine.processRemoteOp_foreign_error hseq
      (fun heq => hop (heq.trans h.site_eq)) herr

/-- Peer 2 deletes both characters, and the host orders an insertion between them
first. -/
def deletionMeetsInsertion : List Act :=
  [ .join 1, .join 2, .edit 2 ⟨.del 0 ['a', 'b'], 1⟩, .send 2, .edit 1 ⟨.ins 1 ['x'], 1⟩,
    .send 1, .receive 1, .receive 2, .deliver 2 ]

/-- The deletion comes back in two segments, as the peer holds it. -/
theorem acked_op_is_head_sample :
    ∃ sys site op down localOp localOps,
      Run.run System.step (System.start ['a', 'b']) deletionMeetsInsertion = some sys ∧
      sys.site? 2 = some site ∧ site.down = op :: down ∧
      site.doc.engine.gh.localOps = localOp :: localOps ∧ op.op = localOp.op ∧
      op.op = .mark [(0, ['a']), (2, ['b'])] false 2 := by
  obtain ⟨sys, hrun⟩ := Option.isSome_iff_exists.mp (show (Run.run System.step
    (System.start ['a', 'b']) deletionMeetsInsertion).isSome by decide)
  obtain ⟨site, hsite⟩ := Option.isSome_iff_exists.mp (show (sys.site? 2).isSome by
    cases hrun
    rfl)
  obtain ⟨op, down, hdown⟩ : ∃ op down, site.down = op :: down := by
    cases hrun
    cases hsite
    exact ⟨_, _, rfl⟩
  obtain ⟨hack, _⟩ := acked_op_is_head (by decide) hrun hsite hdown
  obtain ⟨localOp, localOps, _, hlocal, heq, _⟩ := hack (by
    cases hrun
    cases hsite
    cases hdown
    rfl)
  refine ⟨sys, site, op, down, localOp, localOps, hrun, hsite, hdown, hlocal, heq, ?_⟩
  cases hrun
  cases hsite
  cases hdown
  rfl

/-- Peer 2 joins at sequence number 1 and edits, an op of peer 1 comes in, peer 2
undoes and edits again.  Its undo queue leads to the op of peer 1. -/
def undoOfForeignOp : List Act :=
  [ .join 1, .edit 1 ⟨.ins 0 ['a'], 1⟩, .send 1, .receive 1, .deliver 1, .join 2,
    .edit 2 ⟨.ins 1 ['b'], 1⟩, .edit 1 ⟨.ins 0 ['c'], 2⟩, .send 1, .receive 1, .deliver 2,
    .edit 2 ⟨.undo 2, 2⟩, .edit 2 ⟨.ins 0 ['d'], 3⟩, .send 2, .receive 2, .deliver 2, .deliver 2 ]

/-- The second edit comes back and is refused. -/
theorem acked_op_is_head_fails :
    ∃ sys site op localOp engine,
      Run.run System.step (System.start []) undoOfForeignOp = some sys ∧
      sys.site? 2 = some site ∧ site.down = [op] ∧
      site.doc.engine.processRemoteOp op = some (.error (.opMismatch op localOp), engine) := by
  exact ⟨_, _, _, _, _, rfl, rfl, rfl, rfl⟩

end CollabMode
