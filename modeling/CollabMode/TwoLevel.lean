import CollabMode.Convergence

/-!
# The two levels of a history

A peer's history is what the host has ordered, followed by the peer's own ops that
it has not.  When the editors only insert into their text and delete what stands in
it, the first part should be the host's history from the peer's snapshot on, up to
what is on its way, and both parts, replayed on the snapshot, should give the peer's
document.

`process_remote_op` records an op of another site after carrying it past the local
ops, not as the host ordered it.  So this holds as long as no insertion among the
local ops moves an op that arrives (`InPlace`).
-/

namespace CollabMode

open Tombstone

/-! ## Ops that stay in place -/

/-- The operation stands before `b`, so `transform` does not move it. -/
def Op.Before : Op → Op → Prop
  | .ins (p, _) site, .ins (q, _) site' => posLessThan p q site site' = true
  | .mark segs _ _, .ins (q, _) _ => ∀ seg ∈ segs, seg.1 + seg.2.length ≤ q
  | _, .mark _ _ _ => True

instance (a b : Op) : Decidable (a.Before b) :=
  match a, b with
  | .ins (p, _) site, .ins (q, _) site' =>
      inferInstanceAs (Decidable (posLessThan p q site site' = true))
  | .mark segs _ _, .ins (q, _) _ =>
      inferInstanceAs (Decidable (∀ seg ∈ segs, seg.1 + seg.2.length ≤ q))
  | .ins _ _, .mark _ _ _ => isTrue trivial
  | .mark _ _ _, .mark _ _ _ => isTrue trivial

/-- Segments before an insertion are not touched. -/
theorem splitSegs_before {q : Nat} {u : Text} {s s' : SiteId} {segs : List (Nat × Text)}
    (hne : ∀ seg ∈ segs, seg.2 ≠ []) (h : ∀ seg ∈ segs, seg.1 + seg.2.length ≤ q) :
    splitSegs q u s s' segs = segs := by
  induction segs with
  | nil => rfl
  | cons seg segs ih =>
      have htail := ih (fun seg hseg => hne seg (by simp [hseg])) fun seg hseg =>
        h seg (by simp [hseg])
      rw [splitSegs, List.flatMap_cons, transformDI_eq (hne seg (by simp)),
        if_pos (h seg (by simp))]
      exact congrArg (seg :: ·) htail

/-- Only what stands before an insertion is left alone by it. -/
theorem Op.transform_eq_self {strict : Bool} {items : List Char} {a b : Op}
    (ha : a.Ok strict items) (hb : b.Ok strict items) : a.transform b = a ↔ a.Before b := by
  cases b with
  | mark segs live s' => cases a <;> simp [Before]
  | ins op' s' =>
      obtain ⟨q, u⟩ := op'
      cases a with
      | ins op s =>
          obtain ⟨p, t⟩ := op
          by_cases hlt : posLessThan p q s s' = true
          · simp [Before, Op.transform, transformII, hlt]
          · simp [Before, Op.transform, transformII, hlt, hb.ins.2]
      | mark segs live s =>
          have hr : SegsInRange items.length segs := ha.inRange
          constructor
          · intro heq
            have hu : 0 < u.length := List.length_pos_iff.mpr hb.ins.2
            have hsplit : splitSegs q u s s' segs = segs := (Op.mark.inj heq).1
            have hcov : covers (segRuns (splitSegs q u s s' segs)) = _ :=
              covers_splitSegs hr.nonempty
            rw [hsplit] at hcov
            intro seg hseg
            -- The last character of a segment behind the insertion would be covered again
            -- further right, and so on for ever.
            by_contra hlt
            have hstep : ∀ i, q ≤ i → covers (segRuns segs) i = true →
                covers (segRuns segs) (i + u.length) = true := by
              intro i hi hc
              rw [hcov, shift, if_neg (by omega), if_neg (by omega), Nat.add_sub_cancel]
              exact hc
            have hfar : ∀ k, ∃ i, q ≤ i ∧ k ≤ i ∧ covers (segRuns segs) i = true := by
              intro k
              induction k with
              | zero =>
                  have hpos := List.length_pos_iff.mpr (hr.nonempty seg hseg)
                  refine ⟨seg.1 + seg.2.length - 1, by omega, Nat.zero_le _, covers_iff.mpr
                    ⟨_, List.mem_map_of_mem hseg, ?_, ?_⟩⟩
                  · dsimp only
                    omega
                  · dsimp only
                    omega
              | succ k ih =>
                  obtain ⟨i, hq, hk, hc⟩ := ih
                  exact ⟨i + u.length, by omega, by omega, hstep i hq hc⟩
            obtain ⟨i, _, hi, hc⟩ := hfar items.length
            obtain ⟨r, hrmem, h1, h2⟩ := covers_iff.mp hc
            obtain ⟨seg', hseg', rfl⟩ := List.mem_map.mp hrmem
            have := hr.le seg' hseg'
            dsimp only at h1 h2
            omega
          · intro h
            exact congrArg (Op.mark · live s) (splitSegs_before hr.nonempty h)

/-- An operation that stands before all of `ops` is carried past them as it is. -/
theorem Op.through_before {items : List Char} {a : Op} {ops : List Op}
    (ha : a.Ok false items) (hops : Grid.OkAll Op.applyItems (Op.Ok false) items ops)
    (hsite : ∀ b ∈ ops, a.site ≠ b.site) (h : ∀ b ∈ ops, a.Before b) :
    Grid.through Op.transform a ops = a := by
  induction ops generalizing items with
  | nil => rfl
  | cons b ops ih =>
      have hself : a.transform b = a := (transform_eq_self ha hops.1).mpr (h b (by simp))
      have hok := (itemsSquare false items a b ha hops.1 (hsite b (by simp))).2.1
      rw [hself] at hok
      rw [Grid.through_cons, hself]
      exact ih hok hops.2 (fun b hb => hsite b (by simp [hb])) fun b hb => h b (by simp [hb])

/-! ## Editors that only insert and delete -/

/-- The editor inserts or deletes. -/
def EditorOp.IsEdit : EditorOp → Prop
  | .ins _ _ => True
  | .del _ _ => True
  | .undo _ => False
  | .redo _ => False

instance (op : EditorOp) : Decidable op.IsEdit :=
  match op with
  | .ins _ _ => isTrue trivial
  | .del _ _ => isTrue trivial
  | .undo _ => isFalse id
  | .redo _ => isFalse id

theorem EditorOp.IsEdit.undoesAsOrdered {op : EditorOp} (h : op.IsEdit) (doc : Doc) (site : Site) :
    UndoesAsOrdered doc site op := by
  rintro redo rfl
  cases redo <;> cases h

/-- The op of an editor that inserts or deletes brings nothing back. -/
theorem convertEditorOpAndApply_plain {doc doc' : InternalDoc} {op : EditorOp} {site : SiteId}
    {op' : Op} (h : doc.convertEditorOpAndApply op site = some (op', doc')) : op'.Plain := by
  cases op with
  | ins pos text =>
      simp only [InternalDoc.convertEditorOpAndApply, Option.bind_eq_bind,
        Option.bind_eq_some_iff] at h
      obtain ⟨_, _, _, _, _, heq, _, _, h⟩ := h
      cases heq
      cases h
      trivial
  | del pos text =>
      simp only [InternalDoc.convertEditorOpAndApply, Option.bind_eq_bind,
        Option.bind_eq_some_iff] at h
      obtain ⟨_, _, _, _, _, _, _, _, _, heq, _, _, h⟩ := h
      cases heq
      cases h
      rfl
  | undo context => cases h
  | redo context => cases h

theorem ClientEngine.Makes.plain {eng : ClientEngine} {op : EditorOp} {ops : List Op}
    {instrs : List EditInstruction} {doc : InternalDoc} (h : eng.Makes op ops instrs doc)
    (hedit : op.IsEdit) : ∀ op ∈ ops, op.Plain := by
  cases h with
  | ins hne hconv => simpa using convertEditorOpAndApply_plain hconv
  | del hconv => simpa using convertEditorOpAndApply_plain hconv
  | undo redo hops hall => cases redo <;> cases hedit

/-- All ops bring nothing back. -/
def AllPlain (ops : List (FatOp Op)) : Prop := ∀ op ∈ opsOf ops, op.Plain

theorem keeps_plain : Grid.Keeps Op.transform Op.Plain :=
  fun a b => propext (Op.plain_transform a b)

/-- `f` keeps what is plain if it keeps which ops are. -/
theorem plain_of_map {ops ops' : List Op} (h : ops.map Op.Plain = ops'.map Op.Plain)
    (hops : ∀ op ∈ ops', op.Plain) : ∀ op ∈ ops, op.Plain := by
  intro op hop
  have hmem : op.Plain ∈ ops'.map Op.Plain := h ▸ List.mem_map_of_mem hop
  obtain ⟨op', hop', heq⟩ := List.mem_map.mp hmem
  exact heq ▸ hops op' hop'

/-- Ordering keeps what is plain. -/
theorem Doc.plain_ordered {doc : Doc} {ops : List (FatOp Op)} {context : GlobalSeq}
    (h : AllPlain ops) : AllPlain (doc.ordered ops context) := by
  refine plain_of_map ?_ h
  rw [Doc.ordered, opsOf, ServerEngine.map_assignSeqs (fun _ _ => rfl), FatOp.hom_op.carry,
    keeps_plain.carry]

theorem plain_chunksToOps {chunks : List Chunk} (hne : ∀ chunk ∈ chunks, chunk.text ≠ [])
    {siteId : SiteId} {nextSeq : LocalSeq} : AllPlain (chunksToOps chunks siteId nextSeq).1 := by
  intro op hop
  rw [opsOf, chunksToOps_op, List.mem_reverse] at hop
  exact (chunksToRawOps_ok hne (Nat.le_refl _) op hop).2.2.1

/-! ## The invariant -/

/-- The two levels of a peer's history. -/
structure TwoLevel (content : Text) (doc : Doc) (site : Site) : Prop where
  plain : AllPlain site.doc.engine.gh.localOps
  joined : site.base ≤ site.doc.engine.currentSeq
  snapshot : ∃ text, Shows site.snapshot text (doc.version content site.base)
  global : site.doc.engine.gh.global =
    (doc.engine.gh.global.take site.doc.engine.currentSeq).drop site.base

/-- An op of another site that arrives stands before all local ops. -/
def InPlace (site : Site) (op : FatOp Op) : Prop :=
  op.site ≠ site.doc.engine.site → ∀ b ∈ opsOf site.doc.engine.gh.localOps, op.op.Before b

instance (site : Site) (op : FatOp Op) : Decidable (InPlace site op) :=
  inferInstanceAs (Decidable (_ → _))

namespace TwoLevel

variable {content : Text} {doc doc' : Doc} {id : SiteId} {m : Nat} {site : Site}

theorem join (hdoc : Hosts content doc) : TwoLevel content doc (Site.join doc id) := by
  refine ⟨fun _ h => (by cases h), Nat.le_refl _, ⟨doc.buffer, ?_⟩, ?_⟩
  · show Shows doc.engine.internalDoc doc.buffer (doc.version content doc.engine.currentSeq)
    rw [Doc.version_length (Nat.le_of_eq hdoc.numbered.counted.symm)]
    exact hdoc.shows
  · exact (List.drop_eq_nil_of_le (List.length_take_le _ _)).symm

theorem edit (h : TwoLevel content doc site) {editorOp : EditorFatOp}
    (hedit : editorOp.op.IsEdit) {rd : RemoteDoc}
    (hrun : site.doc.processEditorOp editorOp = some (.ok (), rd)) :
    TwoLevel content doc { site with doc := rd } := by
  obtain ⟨ops, instrs, idoc, gh, eng, buffer, hstep, _, rfl⟩ := RemoteDoc.processEditorOp_ok hrun
  obtain ⟨hglobal, new, hnew, hops, _⟩ := GlobalHistory.recordOps_ok hstep.records
  rw [hstep.result]
  refine ⟨?_, h.joined, h.snapshot, hglobal.trans h.global⟩
  show AllPlain gh.localOps
  rw [hnew]
  intro op hop
  rcases List.mem_append.mp (opsOf_append _ _ ▸ hop) with hop | hop
  · exact h.plain op hop
  · exact hstep.makes.plain hedit op (hops ▸ hop)

theorem send (h : TwoLevel content doc site) : TwoLevel content doc site.send := by
  obtain ⟨q, hq⟩ := Site.send_engine site
  have hbase : site.send.base = site.base := rfl
  have hsnapshot : site.send.snapshot = site.snapshot := rfl
  refine ⟨?_, ?_, ?_, ?_⟩
  · rw [hq]
    exact h.plain
  · rw [hq, hbase]
    exact h.joined
  · rw [hbase, hsnapshot]
    exact h.snapshot
  · rw [hq, hbase]
    exact h.global

/-- The host orders ops. -/
theorem push (h : TwoLevel content doc site)
    (hseen : site.doc.engine.currentSeq ≤ doc.engine.gh.global.length)
    {new : List (FatOp Op)} (hglobal : doc'.engine.gh.global = doc.engine.gh.global ++ new)
    (ops : List (FatOp Op)) : TwoLevel content doc' (site.push ops) := by
  refine ⟨h.plain, h.joined, ?_, ?_⟩
  · obtain ⟨text, hsnapshot⟩ := h.snapshot
    refine ⟨text, ?_⟩
    show Shows site.snapshot text (doc'.version content site.base)
    rw [Doc.version_append content hglobal (Nat.le_trans h.joined hseen)]
    exact hsnapshot
  · show site.doc.engine.gh.global =
      (doc'.engine.gh.global.take site.doc.engine.currentSeq).drop site.base
    rw [hglobal, List.take_append_of_le_length hseen]
    exact h.global

/-- What the host makes of a batch is plain. -/
theorem order (h : TwoLevel content doc site) (hwired : Wired doc id m site)
    {batch : ContextOps} {up : List ContextOps} (hup : site.up = batch :: up) :
    AllPlain (doc.ordered batch.ops batch.context) := by
  rw [AllPlain, (hwired.opsOf_ordered hup).1]
  refine plain_of_map (keeps_plain.carry _ _) fun op hop => h.plain op ?_
  obtain ⟨x, hx, rfl⟩ := List.mem_map.mp hop
  exact List.mem_map_of_mem (List.mem_of_mem_take hx)

/-- The next op of the host goes to the end of the first level. -/
theorem global_succ (h : TwoLevel content doc site) (hwired : Wired doc id m site)
    {op : FatOp Op} {down : List (FatOp Op)} (hdown : site.down = op :: down) :
    site.doc.engine.gh.global ++ [op] =
      (doc.engine.gh.global.take (site.doc.engine.currentSeq + 1)).drop site.base := by
  have hget : doc.engine.gh.global[site.doc.engine.currentSeq]? = some op := by
    have := congrArg List.head? (hwired.down.symm.trans hdown)
    rwa [List.head?_drop] at this
  have hlen : (doc.engine.gh.global.take site.doc.engine.currentSeq).length =
      site.doc.engine.currentSeq := by
    rw [List.length_take, Nat.min_eq_left hwired.seen]
  rw [List.take_add_one, hget, Option.toList_some,
    List.drop_append_of_le_length (hlen.symm ▸ h.joined), ← h.global]

theorem ack (h : TwoLevel content doc site) (hwired : Wired doc id m site) {op : FatOp Op}
    {down : List (FatOp Op)} (hdown : site.down = op :: down) {localOp : FatOp Op}
    {localOps : List (FatOp Op)} {engine : ClientEngine}
    (hack : site.doc.engine.AckStep op localOp localOps engine) :
    TwoLevel content doc { site with doc := { site.doc with engine }, down } := by
  have hplain := h.plain
  rw [hack.localOps_eq] at hplain
  rw [hack.result]
  exact ⟨fun op hop => hplain op (List.mem_cons_of_mem _ hop), Nat.le_succ_of_le h.joined,
    h.snapshot, h.global_succ hwired hdown⟩

theorem foreign (h : TwoLevel content doc site) (hwired : Wired doc id m site)
    (hmirror : Mirrors content doc site) (hdoc : Hosts content doc) {op : FatOp Op}
    {down : List (FatOp Op)} (hdown : site.down = op :: down) (hsite : op.site ≠ id)
    (hbefore : ∀ b ∈ opsOf site.doc.engine.gh.localOps, op.op.Before b)
    {instr : EditInstruction} {idoc : InternalDoc} {engine : ClientEngine}
    (hforeign : site.doc.engine.ForeignStep op instr idoc engine) (buffer : Text) :
    TwoLevel content doc { site with doc := { site.doc with engine, buffer }, down } := by
  have hop := (hdoc.valid_drop site.doc.engine.currentSeq).2
  rw [hwired.down.symm.trans hdown] at hop
  have hthrough : Grid.through FatOp.transform op site.doc.engine.gh.localOps = op := by
    have hlean : (Grid.through FatOp.transform op site.doc.engine.gh.localOps).op = op.op :=
      (FatOp.hom_op.through op _).trans (Op.through_before hop.1.ok hmirror.valid.ok
        (hwired.ne_site hsite) hbefore)
    exact FatOp.through_eq_self hlean
  rw [hforeign.result, hthrough]
  refine ⟨?_, Nat.le_succ_of_le h.joined, h.snapshot, h.global_succ hwired hdown⟩
  show ∀ op ∈ opsOf (ClientEngine.bumpUndoDeltas 0 _), op.Plain
  rw [opsOf, ClientEngine.map_bumpUndoDeltas (fun _ _ => rfl), FatOp.hom_op.past]
  exact plain_of_map (keeps_plain.past _ _) h.plain

/-- Replaying both levels on the snapshot gives the document of the peer. -/
theorem replays (h : TwoLevel content doc site) (hmirror : Mirrors content doc site)
    (hdoc : Hosts content doc) :
    ∃ instrs idoc, InternalDoc.convertAll (opsOf site.doc.engine.gh.history) site.snapshot =
        some (instrs, idoc) ∧
      idoc.ranges = site.doc.engine.internalDoc.ranges ∧
      site.doc.buffer = liveItems
        (replay (doc.version content site.base) (opsOf site.doc.engine.gh.history)).items
        (flags idoc.ranges) := by
  obtain ⟨text, hsnapshot⟩ := h.snapshot
  have htake : doc.engine.gh.global.take site.doc.engine.currentSeq =
      doc.engine.gh.global.take site.base ++ site.doc.engine.gh.global := by
    have := List.take_append_drop site.base (doc.engine.gh.global.take site.doc.engine.currentSeq)
    rwa [List.take_take, Nat.min_eq_left h.joined, ← h.global, eq_comm] at this
  have hversion : doc.version content site.doc.engine.currentSeq =
      replay (doc.version content site.base) (opsOf site.doc.engine.gh.global) := by
    rw [Doc.version, htake, opsOf_append, replay_append]
    rfl
  have hfirst : AllValid (doc.version content site.base).items
      (opsOf site.doc.engine.gh.global) := by
    have := (hdoc.valid_drop site.doc.engine.currentSeq).1
    rw [htake, opsOf_append] at this
    exact ((AllValid.append_iff (d := Seq.allLive content)).mp this).2
  have hhistory : AllValid (doc.version content site.base).items
      (opsOf site.doc.engine.gh.history) := by
    rw [GlobalHistory.history, opsOf_append]
    exact AllValid.append_iff.mpr ⟨hfirst, hversion ▸ hmirror.valid⟩
  obtain ⟨instrs, idoc, hrun, _, hshows⟩ := hsnapshot.convertAll hhistory
  have hpeer := hmirror.shows
  rw [hversion, ← replay_append, ← opsOf_append] at hpeer
  have hranges : idoc.ranges = site.doc.engine.internalDoc.ranges :=
    RangesOk.flags_inj hshows.ok.ranges hpeer.ok.ranges (hshows.flags.symm.trans hpeer.flags)
  refine ⟨instrs, idoc, hrun, hranges, ?_⟩
  rw [hpeer.text_eq, ← hshows.flags]
  rfl

end TwoLevel

/-! ## The steps -/

theorem twoLevel_keeps (content : Text) :
    System.Keeps (fun doc => Hosts content doc ∧ AllPlain doc.engine.gh.global)
      (fun doc id site => ((∃ m, Wired doc id m site) ∧ Mirrors content doc site) ∧
        TwoLevel content doc site)
      (fun _ site editorOp => editorOp.op.FitsText site.doc.buffer ∧ editorOp.op.IsEdit)
      (fun _ site op => InPlace site op) where
  join doc id hdoc hid := ⟨(mirror_keeps content).join doc id hdoc.1 hid, TwoLevel.join hdoc.1⟩
  edit doc id site editorOp rd hdoc h hedit hrun :=
    ⟨(mirror_keeps content).edit doc id site editorOp rd hdoc.1 h.1
      ⟨hedit.1, hedit.2.undoesAsOrdered doc site⟩ hrun, h.2.edit hedit.2 hrun⟩
  send doc id site hdoc h := ⟨(mirror_keeps content).send doc id site hdoc.1 h.1, h.2.send⟩
  receive doc id site batch up processed doc' hdoc h hup hrun := by
    obtain ⟨hhosts, hself, hothers⟩ := (mirror_keeps content).receive doc id site batch up
      processed doc' hdoc.1 h.1 hup hrun
    obtain ⟨rfl, happly⟩ := Doc.processAndApply_ok hrun
    have hglobal : doc'.engine.gh.global = doc.engine.gh.global ++ _ := Doc.applyOps_global happly
    obtain ⟨⟨⟨m, hwired⟩, _⟩, h⟩ := h
    refine ⟨⟨hhosts, ?_⟩, ⟨hself, ?_⟩, fun id' site' hne h' => ⟨hothers id' site' hne h'.1, ?_⟩⟩
    · rw [AllPlain, hglobal, opsOf_append]
      exact fun op hop => (List.mem_append.mp hop).elim (hdoc.2 op) (h.order hwired hup op)
    · have h' : TwoLevel content doc { site with up } := ⟨h.plain, h.joined, h.snapshot, h.global⟩
      exact h'.push hwired.seen hglobal _
    · obtain ⟨⟨⟨m', hwired'⟩, _⟩, h'⟩ := h'
      exact h'.push hwired'.seen hglobal _
  deliver doc id site op down rd leanOps hdoc h hplace hdown hrun := by
    obtain ⟨⟨⟨m, hwired⟩, hmirror⟩, htwo⟩ := h
    have hplain : op.op.Plain := hdoc.2 op.op (List.mem_map_of_mem (List.mem_of_mem_drop
      (hwired.down ▸ hdown ▸ List.mem_cons_self)))
    refine ⟨(mirror_keeps content).deliver doc id site op down rd leanOps hdoc.1
      ⟨⟨m, hwired⟩, hmirror⟩ (fun _ => hplain.agrees htwo.plain) hdown hrun, ?_⟩
    obtain ⟨_, ⟨_, localOp, localOps, engine, hack, rfl⟩ |
      ⟨hsite, instr, idoc, engine, buffer, hforeign, _, rfl⟩⟩ := RemoteDoc.processServerOp_ok hrun
    · exact htwo.ack hwired hdown hack
    · have hother : op.site ≠ id := fun heq => hsite (heq.trans hwired.site_eq.symm)
      exact htwo.foreign hwired hmirror hdoc.1 hdown hother (hplace hsite) hforeign buffer
  external doc chunks processed doc' hdoc hspells hrun := by
    obtain ⟨hhosts, hsites⟩ := (mirror_keeps content).external doc chunks processed doc' hdoc.1
      hspells hrun
    obtain ⟨n, happly, hproc⟩ := Doc.resetFromDisk_ok hrun
    have hglobal : doc'.engine.gh.global = doc.engine.gh.global ++ processed :=
      Doc.applyOps_global happly
    refine ⟨⟨hhosts, ?_⟩, fun id site h => ⟨hsites id site h.1, ?_⟩⟩
    · rw [AllPlain, hglobal, opsOf_append]
      refine fun op hop => (List.mem_append.mp hop).elim (hdoc.2 op) ?_
      rw [hproc]
      exact Doc.plain_ordered (plain_chunksToOps hspells.2) op
    · obtain ⟨⟨⟨m, hwired⟩, _⟩, h⟩ := h
      exact h.push hwired.seen hglobal _

/-- In every state that is reached, the first level of a peer's history and what is on
its way are the host's history from the snapshot on, both levels replayed on the
snapshot are the peer's document, and the host shows its history. -/
theorem two_levels {content : Text} {acts : List Act} {sys : System}
    (hcond : Run.Meets System.step (System.Cond
      (fun _ site editorOp => editorOp.op.FitsText site.doc.buffer ∧ editorOp.op.IsEdit)
      (fun _ site op => InPlace site op)) (System.start content) acts)
    (hrun : Run.run System.step (System.start content) acts = some sys) :
    sys.doc.buffer = (sys.doc.latest content).live ∧
      ∀ id site, sys.site? id = some site →
        site.doc.engine.gh.global ++ site.down = sys.doc.engine.gh.global.drop site.base ∧
        (∃ instrs idoc,
          InternalDoc.convertAll (opsOf site.doc.engine.gh.history) site.snapshot =
            some (instrs, idoc) ∧
          idoc.ranges = site.doc.engine.internalDoc.ranges ∧
          site.doc.buffer = liveItems (replay (sys.doc.version content site.base)
            (opsOf site.doc.engine.gh.history)).items (flags idoc.ranges)) ∧
        (site.doc.engine.gh.localOps = [] → site.down = [] →
          site.doc.buffer = sys.doc.buffer ∧
          site.doc.engine.internalDoc.ranges = sys.doc.engine.internalDoc.ranges) := by
  have hinv := (twoLevel_keeps content).run ⟨Hosts.start content, fun _ h => (by cases h)⟩
    hcond hrun
  obtain ⟨hdoc, _⟩ := hinv.doc
  refine ⟨hdoc.shows.text_eq, fun id site hsite => ?_⟩
  obtain ⟨⟨⟨m, hwired⟩, hmirror⟩, htwo⟩ := hinv.sites id site hsite
  refine ⟨?_, htwo.replays hmirror hdoc, fun hlocal hdown => ?_⟩
  · have hlen : (sys.doc.engine.gh.global.take site.doc.engine.currentSeq).length =
        site.doc.engine.currentSeq := by
      rw [List.length_take, Nat.min_eq_left hwired.seen]
    rw [htwo.global, hwired.down, ← List.drop_append_of_le_length (hlen.symm ▸ htwo.joined),
      List.take_append_drop]
  · have hseen : sys.doc.engine.gh.global.length ≤ site.doc.engine.currentSeq :=
      List.drop_eq_nil_iff.mp (hwired.down.symm.trans hdown)
    have hshows := hmirror.shows
    rw [hlocal, Doc.version_length hseen] at hshows
    have hshows : site.doc.Shows (sys.doc.latest content) := hshows
    exact ⟨hshows.text_eq.trans hdoc.shows.text_eq.symm, RangesOk.flags_inj hshows.ok.ranges
      hdoc.shows.ok.ranges (hshows.flags.symm.trans hdoc.shows.flags)⟩

/-- Peer 2 deletes a character and the program's file changes in front of it, while
peer 1 holds an insertion at the end. -/
def insertionBehind : List Act :=
  [ .join 1, .join 2, .edit 1 ⟨.ins 2 ['a'], 1⟩, .edit 2 ⟨.del 1 ['y'], 1⟩, .send 2, .receive 2,
    .external [.insert ['b'], .equal ['x']], .deliver 1, .deliver 1 ]

theorem two_levels_sample :
    ∃ sys site, Run.run System.step (System.start ['x', 'y']) insertionBehind = some sys ∧
      sys.site? 1 = some site ∧ site.doc.buffer = ['b', 'x', 'a'] ∧
      site.doc.engine.gh.global ++ site.down = sys.doc.engine.gh.global.drop site.base := by
  obtain ⟨sys, hrun⟩ := Option.isSome_iff_exists.mp (show (Run.run System.step
    (System.start ['x', 'y']) insertionBehind).isSome by decide)
  obtain ⟨site, hsite⟩ := Option.isSome_iff_exists.mp (show (sys.site? 1).isSome by
    cases hrun
    rfl)
  obtain ⟨hlevels, _⟩ := (two_levels (by decide) hrun).2 1 site hsite
  refine ⟨sys, site, hrun, hsite, ?_, hlevels⟩
  cases hrun
  cases hsite
  rfl

/-- Peer 1 inserts at the front, and an insertion further back arrives. -/
def insertionInFront : List Act :=
  [ .join 1, .join 2, .edit 1 ⟨.ins 0 ['a'], 1⟩, .edit 2 ⟨.ins 1 ['b'], 1⟩, .send 2, .receive 2,
    .deliver 1 ]

/-- Peer 1 records the insertion one place further right than the host, and replaying
its history does not give its text. -/
theorem two_levels_fails :
    ∃ sys site, Run.run System.step (System.start ['x', 'y']) insertionInFront = some sys ∧
      sys.site? 1 = some site ∧
      opsOf (site.doc.engine.gh.global ++ site.down) = [.ins (2, ['b']) 2] ∧
      opsOf (sys.doc.engine.gh.global.drop site.base) = [.ins (1, ['b']) 2] ∧
      site.doc.buffer = ['a', 'x', 'b', 'y'] ∧
      (replay (sys.doc.version ['x', 'y'] site.base) (opsOf site.doc.engine.gh.history)).live =
        ['a', 'x', 'y', 'b'] :=
  ⟨_, _, rfl, rfl, rfl, rfl, rfl, rfl⟩

end CollabMode
