import CollabMode.Recording
import CollabMode.Writing

/-!
# What an engine is fed

The calls of a run, with what the host holds to (`HostSound`) and what an editor should
(`EditsWithin`), and what holds of an engine after calls that are both (`Fed`).  The engine takes
edits that are not.  The document keeps its invariant, every entry of the undo queue is
a place of the history, and each own op was in range where it stands there.  So the ops that
an undo makes fit the document, in an engine that was made at 0 (`Fed.undone_own`).

A mark that does not fit panics, so that the marks which were applied did fit
(`fits_of_convertAll`).  On any text as long as the live text their edits make one as long as the
new live text (`AppliedAll.edits`).
-/

namespace CollabMode

open Tombstone

/-! ## Marks that did not panic -/

namespace InternalDoc

variable {doc doc' : InternalDoc}

theorem internalLen_eq_flags (doc : InternalDoc) : doc.internalLen = (flags doc.ranges).length :=
  (flags_length _).symm

theorem applySegs_cons (live : Bool) (seg : Nat × Text) (segs : List (Nat × Text)) (c : Cursor)
    (doc : InternalDoc) : applySegs live (seg :: segs) c doc =
      (applySegs live [seg] c doc).bind fun r => applySegs live segs r.1 r.2 := by
  cases live <;>
    simp only [applySegs, Bool.false_eq_true, if_true, if_false, Option.bind_eq_bind,
      Option.bind_assoc, Option.bind_some]

/-- The end of a segment is checked. -/
theorem applySegs_le {live : Bool} {seg : Nat × Text} {c : Cursor} {r : Cursor × InternalDoc}
    (h : applySegs live [seg] c doc = some r) : seg.1 + seg.2.length ≤ doc.internalLen := by
  have hmark {c₁ : Cursor} {r₁ : List (Nat × Nat) × Cursor × InternalDoc}
      (h : applyMark live doc seg.1 seg.2.length c₁ = some r₁) :
      seg.1 + seg.2.length ≤ doc.internalLen := by
    simp only [applyMark, Option.bind_eq_bind, Option.bind_eq_some_iff] at h
    obtain ⟨_, hle, -⟩ := h
    exact assert?_some.mp hle
  simp only [applySegs, Option.bind_eq_bind, Option.bind_eq_some_iff] at h
  obtain ⟨⟨q, c₁⟩, -, h⟩ := h
  cases live with
  | true =>
      simp only [if_true, applyMarkLive, Option.bind_eq_bind, Option.bind_eq_some_iff] at h
      obtain ⟨_, ⟨_, hrun, -⟩, -⟩ := h
      exact hmark hrun
  | false =>
      simp only [Bool.false_eq_true, if_false, applyMarkDead, Option.bind_eq_some_iff] at h
      obtain ⟨_, hrun, -⟩ := h
      exact hmark hrun

theorem applySegs_inRange {live : Bool} {segs : List (Nat × Text)} {c : Cursor}
    {r : Cursor × InternalDoc} (hdoc : DocOk doc) (hc : CursorOk doc.ranges c)
    (hne : ∀ seg ∈ segs, seg.2 ≠ []) (h : applySegs live segs c doc = some r) :
    ∀ seg ∈ segs, seg.2 ≠ [] ∧ seg.1 + seg.2.length ≤ doc.internalLen := by
  induction segs generalizing doc c with
  | nil => nofun
  | cons seg segs ih =>
      rw [applySegs_cons, Option.bind_eq_some_iff] at h
      obtain ⟨⟨c₁, doc₁⟩, hfirst, hrest⟩ := h
      have hseg := applySegs_le hfirst
      obtain ⟨hne', hnes⟩ := List.forall_mem_cons.mp hne
      obtain ⟨c₁', doc₁', hrun, hdoc₁, hc₁, hflags⟩ := applySegs_spec live [seg] doc c hdoc hc
        (by simpa using ⟨hne', hseg⟩)
      cases hrun.symm.trans hfirst
      refine List.forall_mem_cons.mpr ⟨⟨hne', hseg⟩, ?_⟩
      have hlen : doc₁.internalLen = doc.internalLen := by
        rw [internalLen_eq_flags, hflags, paint_length, internalLen_eq_flags]
      rw [← hlen]
      exact ih hdoc₁ hc₁ hnes hrest

/-- The cursor stays one of the document, wherever the segments are. -/
theorem convertSegs_cursorOk {live : Bool} {segs : List (Nat × Text)} {c : Cursor}
    {acc : List (Nat × Text)} {r : Cursor × List (Nat × Text)} (hc : CursorOk doc.ranges c)
    (h : doc.convertSegs live segs c acc = some r) : CursorOk doc.ranges r.1 := by
  induction segs generalizing c acc with
  | nil =>
      cases h
      exact hc
  | cons seg segs ih =>
      simp only [convertSegs, Option.bind_eq_bind, Option.bind_eq_some_iff] at h
      obtain ⟨⟨q, c₁⟩, hconv, acc', -, hrest⟩ := h
      exact ih (convertPos_keeps_cursorOk hc hconv) hrest

/-- A mark that did not panic fits the document. -/
theorem convertInternalOpAndApply_fits {segs : List (Nat × Text)} {live : Bool} {site : SiteId}
    {instr : EditInstruction} (hdoc : DocOk doc) (hne : ∀ seg ∈ segs, seg.2 ≠ [])
    (h : doc.convertInternalOpAndApply (.mark segs live site) = some (instr, doc')) :
    (Op.mark segs live site).Fits doc.internalLen := by
  obtain ⟨c, doc₁, hcur, hrs, hc, hcs⟩ := getCursor_spec hdoc.cursors site
  rw [convertInternalOpAndApply] at h
  simp only [Op.site, hcur, Option.bind_eq_bind, Option.bind_eq_some_iff] at h
  obtain ⟨⟨c₁, edits⟩, hconv, ⟨c₂, doc₂⟩, happly, -⟩ := h
  have hdoc₁ : DocOk doc₁ := ⟨hrs ▸ hdoc.ranges, hrs ▸ hcs⟩
  have hfits := applySegs_inRange hdoc₁ (convertSegs_cursorOk (hrs ▸ hc) hconv) hne happly
  rwa [internalLen_eq_flags, hrs, ← internalLen_eq_flags] at hfits

end InternalDoc

/-! ## Lengths and ranges of operations -/

/-- How many characters the operation inserts. -/
def Op.grows : Op → Nat
  | .ins (_, s) _ => s.length
  | .mark _ _ _ => 0

theorem Op.grows_transform (a b : Op) : (a.transform b).grows = a.grows := by
  cases a with
  | ins op site =>
      cases b with
      | ins base site' =>
          simp only [transform, transformII]
          split <;> rfl
      | mark segs live site' => rfl
  | mark segs live site => cases b <;> rfl

theorem Op.Nonempty.transform {a : Op} (h : a.Nonempty) (b : Op) : (a.transform b).Nonempty := by
  cases a with
  | ins op site =>
      cases b with
      | ins base site' =>
          simp only [Op.transform, transformII]
          split <;> exact h
      | mark segs live site' => exact h
  | mark segs live site => cases b <;> trivial

/-- Carrying an operation past another one keeps it in range, wherever the other one is. -/
theorem Op.InRange.transform {a : Op} {n : Nat} (h : a.InRange n) (b : Op) :
    (a.transform b).InRange (n + b.grows) := by
  cases b with
  | mark segs live site =>
      rw [transform_mark]
      exact h
  | ins base site' =>
      obtain ⟨q, u⟩ := base
      cases a with
      | ins op site =>
          obtain ⟨p, s⟩ := op
          have hp : p ≤ n := h
          simp only [Op.transform, transformII]
          split
          · exact Nat.le_trans hp (Nat.le_add_right _ _)
          · exact Nat.add_le_add_right hp _
      | mark segs live site => exact SegsInRange.split h

/-- The inverse is in range after the operation. -/
theorem Op.InRange.inverse {a : Op} {n : Nat} (h : a.InRange n) (hne : a.Nonempty) :
    a.inverse.InRange (n + a.grows) := by
  cases a with
  | ins op site =>
      obtain ⟨p, s⟩ := op
      have hp : p ≤ n := h
      have hs : s ≠ [] := hne
      exact ⟨by simpa using hs, by simp [segRuns, Ascending], by simpa [grows] using hp⟩
  | mark segs live site => exact h

theorem Op.nonempty_inverse (a : Op) : a.inverse.Nonempty := by
  cases a <;> trivial

/-- An operation that is in range somewhere. -/
def Op.WellFormed (op : Op) : Prop := op.Nonempty ∧ ∃ n, op.InRange n

theorem Op.WellFormed.transform {a : Op} (h : a.WellFormed) (b : Op) :
    (a.transform b).WellFormed := by
  obtain ⟨hne, n, hn⟩ := h
  exact ⟨hne.transform b, _, hn.transform b⟩

theorem Op.WellFormed.inverse {a : Op} (h : a.WellFormed) : a.inverse.WellFormed := by
  obtain ⟨hne, n, hn⟩ := h
  exact ⟨a.nonempty_inverse, _, hn.inverse hne⟩

theorem Op.WellFormed.through {a : Op} (h : a.WellFormed) (ops : List Op) :
    (Grid.through Op.transform a ops).WellFormed := by
  induction ops generalizing a with
  | nil => exact h
  | cons b ops ih => exact ih (h.transform b)

theorem Op.Nonempty.through {a : Op} (h : a.Nonempty) (ops : List Op) :
    (Grid.through Op.transform a ops).Nonempty := by
  induction ops generalizing a with
  | nil => exact h
  | cons b ops ih => exact ih (h.transform b)

theorem Op.wellFormed_past {ops : List Op} (h : ∀ b ∈ ops, b.WellFormed) (a : Op) :
    ∀ b ∈ Grid.past Op.transform a ops, b.WellFormed := by
  induction ops generalizing a with
  | nil => nofun
  | cons b ops ih =>
      obtain ⟨hb, hops⟩ := List.forall_mem_cons.mp h
      exact List.forall_mem_cons.mpr ⟨hb.transform a, ih hops _⟩

/-- The number of characters after `ops`, when there are `n` before. -/
abbrev grown (n : Nat) (ops : List Op) : Nat := Grid.runAll (fun m op => m + op.grows) n ops

theorem grown_append (n : Nat) (ops ops' : List Op) :
    grown n (ops ++ ops') = grown (grown n ops) ops' := Grid.runAll_append ..

theorem grown_add (n m : Nat) (ops : List Op) : grown (n + m) ops = grown n ops + m := by
  induction ops generalizing n with
  | nil => rfl
  | cons op ops ih =>
      show grown (n + m + op.grows) ops = grown (n + op.grows) ops + m
      rw [← ih, Nat.add_right_comm]

theorem grown_past (n : Nat) (a : Op) (ops : List Op) :
    grown n (Grid.past Op.transform a ops) = grown n ops := by
  induction ops generalizing n a with
  | nil => rfl
  | cons b ops ih =>
      show grown (n + (b.transform a).grows) _ = grown (n + b.grows) ops
      rw [Op.grows_transform, ih]

theorem Op.InRange.through {a : Op} {n : Nat} (h : a.InRange n) (ops : List Op) :
    (Grid.through Op.transform a ops).InRange (grown n ops) := by
  induction ops generalizing a n with
  | nil => exact h
  | cons b ops ih => exact ih (h.transform b)

/-- Each op of the site was in range where it stands in the history. -/
abbrev OwnInRange (site : SiteId) (n : Nat) (ops : List Op) : Prop :=
  Grid.OkAll (fun m op => m + op.grows) (fun m op => op.site = site → op.InRange m) n ops

/-- An op of another site moves the ops behind it. -/
theorem OwnInRange.past {site : SiteId} {n : Nat} {ops : List Op} (h : OwnInRange site n ops)
    (a : Op) : OwnInRange site (n + a.grows) (Grid.past Op.transform a ops) := by
  induction ops generalizing n a with
  | nil => trivial
  | cons b ops ih =>
      refine ⟨fun hsite => (h.1 ((Op.site_transform b a).symm.trans hsite)).transform a, ?_⟩
      show OwnInRange site (n + a.grows + (b.transform a).grows) _
      rw [Op.grows_transform, Nat.add_right_comm, ← Op.grows_transform a b]
      exact ih h.2 (a.transform b)

/-! ## Marks, one after the other -/

theorem Op.WellFormed.inRange {op : Op} (h : op.WellFormed) {n : Nat} (hfits : op.Fits n) :
    op.InRange n := by
  obtain ⟨-, m, hm⟩ := h
  cases op with
  | ins op site => exact hfits.2
  | mark segs live site =>
      have hm : SegsInRange m segs := hm
      exact ⟨hm.nonempty, hm.ascending, fun seg hseg => (hfits seg hseg).2⟩

/-- An operation that was applied. -/
structure AppliedInternal (doc : InternalDoc) (op : Op) (instr : EditInstruction)
    (doc' : InternalDoc) : Prop where
  ok : DocOk doc'
  length : doc'.internalLen = doc.internalLen + op.grows
  flags : ∀ d : Seq Char, d.flags = flags doc.ranges → flags doc'.ranges = (op.apply d).flags
  writes : ∀ d : Seq Char, d.flags = CollabMode.flags doc.ranges →
    instr.apply d.live = some (.ok (), (op.written d).live)

theorem editorLen_eq_live {doc : InternalDoc} {d : Seq Char} (hd : d.flags = flags doc.ranges) :
    doc.editorLen = d.live.length := by
  rw [Seq.live_length, hd, flags_count, InternalDoc.editorLen_eq]

/-- A text as long as the live text is edited into one as long as the new live text. -/
theorem AppliedInternal.edits {doc doc' : InternalDoc} {op : Op} {instr : EditInstruction}
    (h : AppliedInternal doc op instr doc') {text : Text} (htext : text.length = doc.editorLen) :
    ∃ text', instr.apply text = some (.ok (), text') ∧ text'.length = doc'.editorLen := by
  obtain ⟨d, hd, rfl⟩ := Seq.exists_live (CollabMode.flags doc.ranges)
    (htext.trans (by rw [flags_count, InternalDoc.editorLen_eq]))
  refine ⟨_, h.writes d hd, (editorLen_eq_live ?_).symm⟩
  rw [Op.written_flags, h.flags d hd]

theorem applied_inRange {doc : InternalDoc} (hdoc : DocOk doc) {op : Op} (hne : op.Nonempty)
    (hop : op.InRange doc.internalLen) :
    ∃ instr doc', doc.convertInternalOpAndApply op = some (instr, doc') ∧
      AppliedInternal doc op instr doc' := by
  obtain ⟨d, hd⟩ := InternalDoc.exists_seq (flags doc.ranges)
  obtain ⟨doc', hrun, hflags, hok⟩ :=
    InternalDoc.convertInternalOpAndApply_spec hdoc (.inl hop) d hd
  have hlen (d : Seq Char) (hd : d.flags = flags doc.ranges) :
      doc.internalLen = d.items.length := by
    rw [InternalDoc.internalLen_eq_flags, ← hd, d.length_eq]
  refine ⟨_, doc', hrun, hok hne, ?_, fun d₁ hd₁ => ?_, fun d₁ hd₁ => ?_⟩
  · rw [InternalDoc.internalLen_eq_flags, hflags, ← Seq.length_eq, Op.apply_items, hlen d hd]
    cases op with
    | ins op site => exact insertAt_length ..
    | mark segs live site => rfl
  · obtain ⟨doc'', hrun', hflags', -⟩ :=
      InternalDoc.convertInternalOpAndApply_spec hdoc (.inl hop) d₁ hd₁
    cases hrun'.symm.trans hrun
    exact hflags'
  · exact instruction_written d₁ hd₁ (hlen d₁ hd₁ ▸ hop)

/-- Marks that were applied one after the other. -/
structure AppliedAll (doc : InternalDoc) (ops : List Op) (instrs : List EditInstruction)
    (doc' : InternalDoc) : Prop where
  ok : DocOk doc'
  length : doc'.internalLen = doc.internalLen
  flags : ∀ d : Seq Char, d.flags = flags doc.ranges → flags doc'.ranges = (replay d ops).flags
  writes : ∀ d : Seq Char, d.flags = CollabMode.flags doc.ranges →
    runInstructions instrs d.live = some (writtenAll d ops).live

section Marks

variable {doc doc' : InternalDoc} {ops : List Op} {instrs : List EditInstruction}

/-- Marks that fit can be applied. -/
theorem convertAll_of_fits (hdoc : DocOk doc) (hops : ∀ op ∈ ops, op.IsMark ∧ op.WellFormed)
    (hfits : ∀ op ∈ ops, op.Fits doc.internalLen) :
    ∃ instrs doc', InternalDoc.convertAll ops doc = some (instrs, doc') ∧
      AppliedAll doc ops instrs doc' := by
  induction ops generalizing doc with
  | nil =>
      exact ⟨[], doc, rfl, hdoc, rfl, fun d hd => hd.symm, fun d _ => rfl⟩
  | cons op ops ih =>
      obtain ⟨⟨hmark, hformed⟩, hops⟩ := List.forall_mem_cons.mp hops
      obtain ⟨hfit, hfits⟩ := List.forall_mem_cons.mp hfits
      obtain ⟨instr, doc₁, hrun, happlied⟩ :=
        applied_inRange hdoc hformed.1 (hformed.inRange hfit)
      have hlen : doc₁.internalLen = doc.internalLen := by
        obtain ⟨segs, live, site, rfl⟩ := hmark
        exact happlied.length
      obtain ⟨instrs, doc', hrest, hall⟩ := ih happlied.ok hops (hlen ▸ hfits)
      refine ⟨instr :: instrs, doc', ?_, hall.ok, hall.length.trans hlen, fun d hd =>
        hall.flags (op.apply d) (happlied.flags d hd).symm, fun d hd => ?_⟩
      · simp only [InternalDoc.convertAll, hrun, hrest, Option.bind_eq_bind, Option.bind_some]
      · have hflags : (op.written d).flags = flags doc₁.ranges := by
          rw [Op.written_flags, happlied.flags d hd]
        simp only [runInstructions, happlied.writes d hd, hall.writes _ hflags]
        rfl

/-- Marks that were applied fit the document. -/
theorem fits_of_convertAll (hdoc : DocOk doc) (hops : ∀ op ∈ ops, op.IsMark ∧ op.WellFormed)
    (h : InternalDoc.convertAll ops doc = some (instrs, doc')) :
    ∀ op ∈ ops, op.Fits doc.internalLen := by
  induction ops generalizing doc doc' instrs with
  | nil => nofun
  | cons op ops ih =>
      obtain ⟨⟨⟨segs, live, site, rfl⟩, hformed⟩, hops'⟩ := List.forall_mem_cons.mp hops
      simp only [InternalDoc.convertAll, Option.bind_eq_bind, Option.bind_eq_some_iff] at h
      obtain ⟨⟨instr, doc₁⟩, hrun, ⟨instrs₁, doc₂⟩, hrest, -⟩ := h
      obtain ⟨-, m, hm⟩ := id hformed
      have hfit := InternalDoc.convertInternalOpAndApply_fits hdoc (SegsInRange.nonempty hm) hrun
      obtain ⟨instr', doc₁', hrun', happlied⟩ :=
        applied_inRange hdoc hformed.1 (hformed.inRange hfit)
      cases hrun'.symm.trans hrun
      have hlen : doc₁.internalLen = doc.internalLen := happlied.length
      exact List.forall_mem_cons.mpr ⟨hfit, hlen ▸ ih happlied.ok hops' hrest⟩

theorem convertAll_applied (hdoc : DocOk doc) (hops : ∀ op ∈ ops, op.IsMark ∧ op.WellFormed)
    (h : InternalDoc.convertAll ops doc = some (instrs, doc')) :
    AppliedAll doc ops instrs doc' := by
  obtain ⟨instrs', doc₁, hrun, happlied⟩ :=
    convertAll_of_fits hdoc hops (fits_of_convertAll hdoc hops h)
  cases hrun.symm.trans h
  exact happlied

/-- A text as long as the live text is edited into one as long as the new live text. -/
theorem AppliedAll.edits (h : AppliedAll doc ops instrs doc') {text : Text}
    (htext : text.length = doc.editorLen) :
    ∃ text', runInstructions instrs text = some text' ∧ text'.length = doc'.editorLen := by
  obtain ⟨d, hd, rfl⟩ := Seq.exists_live (CollabMode.flags doc.ranges)
    (htext.trans (by rw [flags_count, InternalDoc.editorLen_eq]))
  refine ⟨_, h.writes d hd, (editorLen_eq_live ?_).symm⟩
  rw [writtenAll_flags, h.flags d hd]

end Marks

/-! ## Runs -/

namespace ClientEngine

/-- The engine after a call, whatever it answers. -/
def after (self : ClientEngine) : Call → Option ClientEngine
  | .processLocalOp editorOp siteSeq => (self.processLocalOp editorOp siteSeq).map Prod.snd
  | .processRemoteOp op => (self.processRemoteOp op).map Prod.snd
  | .maybePackageLocalOps doc => some (self.maybePackageLocalOps doc).2

/-- An op of the own site that comes in is the one at the head of the local history, as what
a host sends is (`acked_op_is_head`). -/
def Echoes (eng : ClientEngine) : Call → Prop
  | .processLocalOp _ _ => True
  | .processRemoteOp op => op.seq = some (eng.currentSeq + 1) → op.site = eng.site →
      ∀ localOp, eng.gh.localOps.head? = some localOp →
        op.siteSeq = localOp.siteSeq ∧ op.op = localOp.op ∧ op.groupSeq = localOp.groupSeq
  | .maybePackageLocalOps _ => True

/-- What the host holds to.  An own op comes back as it was sent, and an op of another site,
carried past the local ops, is not empty and lies within the document. -/
def HostSound (eng : ClientEngine) (call : Call) : Prop :=
  Echoes eng call ∧
    match call with
    | .processLocalOp _ _ => True
    | .processRemoteOp op => op.seq = some (eng.currentSeq + 1) → op.site ≠ eng.site →
        op.op.Nonempty ∧ (Grid.through Op.transform op.op (opsOf eng.gh.localOps)).InRange
          eng.internalDoc.internalLen
    | .maybePackageLocalOps _ => True

/-- An edit that is next is not empty and lies within the text. -/
def EditsWithin (eng : ClientEngine) : Call → Prop
  | .processLocalOp editorOp siteSeq => siteSeq = eng.currentSiteSeq + 1 →
      editorOp.op.IsEdit → editorOp.op.Fits eng.editorLen
  | .processRemoteOp _ => True
  | .maybePackageLocalOps _ => True

/-- The engines made from a new one at `base` by a host that is sound and an editor that sends
what it likes. -/
def Reachable (base : GlobalSeq) (eng : ClientEngine) : Prop :=
  ∃ site doc calls, DocOk doc ∧ Run.Meets after HostSound (new site base doc) calls ∧
    Run.run after (new site base doc) calls = some eng

/-- The engines of which, besides, every edit so far was within the text. -/
def ReachedWithin (base : GlobalSeq) (eng : ClientEngine) : Prop :=
  ∃ site doc calls, DocOk doc ∧
    Run.Meets after (fun eng call => HostSound eng call ∧ EditsWithin eng call)
      (new site base doc) calls ∧
    Run.run after (new site base doc) calls = some eng

theorem ReachedWithin.reachable {base : GlobalSeq} {eng : ClientEngine}
    (h : ReachedWithin base eng) : Reachable base eng := by
  obtain ⟨site, doc, calls, hdoc, hmeets, hrun⟩ := h
  exact ⟨site, doc, calls, hdoc, hmeets.mono fun _ _ hcall => hcall.1, hrun⟩

/-- One more call. -/
theorem ReachedWithin.after {base : GlobalSeq} {eng eng' : ClientEngine}
    (h : ReachedWithin base eng) {call : Call} (hhost : HostSound eng call)
    (hedits : EditsWithin eng call) (hrun : eng.after call = some eng') :
    ReachedWithin base eng' := by
  obtain ⟨site, doc, calls, hdoc, hmeets, hcalls⟩ := h
  exact ⟨site, doc, calls ++ [call], hdoc, hmeets.concat hcalls ⟨hhost, hedits⟩,
    (Run.run_concat hcalls).trans hrun⟩

/-- What holds of an engine made at `base` from a document of `n` characters. -/
structure Fed (base : GlobalSeq) (n : Nat) (eng : ClientEngine) : Prop where
  doc : DocOk eng.internalDoc
  counted : eng.currentSeq = base + eng.gh.global.length
  length : eng.internalDoc.internalLen = grown n (opsOf eng.gh.history)
  wellFormed : ∀ op ∈ opsOf eng.gh.history, op.WellFormed
  ownInRange : OwnInRange eng.site n (opsOf eng.gh.history)
  entries : ∀ e : Nat, e ∈ eng.gh.undoQueue → 0 < e ∧ e ≤ eng.gh.totalLen
  tip : ∀ tip, eng.gh.undoTip = some tip → tip < eng.gh.undoQueue.length
  /-- In an engine made at 0 the entries lead to own ops. -/
  own : base = 0 → (∀ op ∈ opsOf eng.gh.localOps, op.site = eng.site) ∧
    ∀ e : Nat, e ∈ eng.gh.undoQueue →
      ((opsOf eng.gh.history)[e - 1]?).map Op.site = some eng.site

theorem Fed.new {base : GlobalSeq} {doc : InternalDoc} (hdoc : DocOk doc) (site : SiteId) :
    Fed base doc.internalLen (ClientEngine.new site base doc) where
  doc := hdoc
  counted := rfl
  length := rfl
  wellFormed := nofun
  ownInRange := trivial
  entries := nofun
  tip := nofun
  own _ := ⟨nofun, nofun⟩

/-- Counting the op changes nothing else. -/
theorem Fed.of_siteSeq {base : GlobalSeq} {n : Nat} {eng : ClientEngine} (h : Fed base n eng)
    (currentSiteSeq lastSiteSeqSentOut : LocalSeq) :
    Fed base n { eng with currentSiteSeq, lastSiteSeqSentOut } :=
  ⟨h.doc, h.counted, h.length, h.wellFormed, h.ownInRange, h.entries, h.tip, h.own⟩

namespace Fed

variable {base : GlobalSeq} {n : Nat} {eng eng' : ClientEngine}

/-- Where the next undo starts is in the queue. -/
theorem tip_le (h : Fed base n eng) :
    eng.gh.undoTip.getD eng.gh.undoQueue.length ≤ eng.gh.undoQueue.length := by
  cases htip : eng.gh.undoTip with
  | none => exact Nat.le_refl _
  | some tip => exact Nat.le_of_lt (h.tip tip htip)

/-- Ops of the editor enter the history. -/
theorem record (h : Fed base n eng) {kind : EditorOpKind} {siteSeq : LocalSeq}
    {groupSeq : GroupSeq} {ops : List Op} {doc : InternalDoc} {gh : GlobalHistory}
    (hrec : GlobalHistory.recordOps kind siteSeq groupSeq ops eng.gh = some (.ok (), gh))
    (hdoc : DocOk doc) (hlen : doc.internalLen = grown eng.internalDoc.internalLen ops)
    (hformed : ∀ op ∈ ops, op.WellFormed)
    (hrange : Grid.OkAll (fun m op => m + op.grows) (fun m op => op.InRange m)
      eng.internalDoc.internalLen ops)
    (hown : base = 0 → ∀ op ∈ ops, op.site = eng.site) :
    Fed base n { eng with currentSiteSeq := siteSeq, internalDoc := doc, gh } := by
  obtain ⟨hglobal, new, hlocal, rfl, -⟩ := GlobalHistory.recordOps_ok hrec
  obtain ⟨hqueue, htip⟩ := GlobalHistory.recordOps_queue hrec h.tip
  have hhist : opsOf gh.history = opsOf eng.gh.history ++ opsOf new := by
    rw [GlobalHistory.history, hglobal, hlocal, ← List.append_assoc, opsOf_append,
      GlobalHistory.history]
  have htotal : gh.totalLen = eng.gh.totalLen + (opsOf new).length := by
    have := congrArg List.length hhist
    simpa using this
  refine ⟨hdoc, ?_, ?_, ?_, ?_, fun e he => ?_, htip, fun hbase => ⟨?_, fun e he => ?_⟩⟩
  · rw [hglobal]
    exact h.counted
  · rw [hhist, grown_append, ← h.length]
    exact hlen
  · rw [hhist]
    exact List.forall_mem_append.mpr ⟨h.wellFormed, hformed⟩
  · rw [hhist]
    refine (Grid.OkAll_append ..).mpr ⟨h.ownInRange, ?_⟩
    rw [← grown, ← h.length]
    refine Grid.OkAll.mono (fun m op hop => ?_) hrange
    exact fun _ => hop
  · rcases hqueue e he with he | ⟨hlt, hle⟩
    · exact ⟨(h.entries e he).1, Nat.le_trans (h.entries e he).2 (htotal ▸ Nat.le_add_right _ _)⟩
    · exact ⟨Nat.zero_lt_of_lt hlt, hle⟩
  · show ∀ op ∈ opsOf gh.localOps, _
    rw [hlocal, opsOf_append]
    exact List.forall_mem_append.mpr ⟨(h.own hbase).1, hown hbase⟩
  · show ((opsOf gh.history)[e - 1]?).map Op.site = some eng.site
    have hlen' : (opsOf eng.gh.history).length = eng.gh.totalLen := by simp
    rw [hhist]
    rcases hqueue e he with he | ⟨hlt, hle⟩
    · have hbound := h.entries e he
      rw [List.getElem?_append_left (by omega)]
      exact (h.own hbase).2 e he
    · rw [List.getElem?_append_right (by omega), List.getElem?_eq_getElem (by omega),
        Option.map_some]
      exact congrArg some (hown hbase _ (List.getElem_mem _))

/-- The echo of an own op changes none of it. -/
theorem ack (h : Fed base n eng) {op localOp : FatOp Op} {localOps : List (FatOp Op)}
    (hstep : eng.AckStep op localOp localOps eng') (hop : op.op = localOp.op) :
    Fed base n eng' := by
  obtain ⟨hlocal, -, -, rfl⟩ := hstep
  have hhist : opsOf ((eng.gh.global ++ [op]) ++ localOps) = opsOf eng.gh.history := by
    rw [GlobalHistory.history, hlocal]
    simp [hop]
  have htotal : (eng.gh.global ++ [op]).length + localOps.length = eng.gh.totalLen := by
    rw [GlobalHistory.totalLen, hlocal]
    simp [Nat.add_assoc, Nat.add_comm 1]
  refine ⟨h.doc, ?_, ?_, ?_, ?_, fun e he => ?_, h.tip, fun hbase => ⟨?_, ?_⟩⟩
  · show eng.currentSeq + 1 = _
    rw [h.counted, List.length_append, List.length_singleton, Nat.add_assoc]
  · exact h.length.trans (congrArg (grown n) hhist.symm)
  · show ∀ b ∈ opsOf ((eng.gh.global ++ [op]) ++ localOps), _
    rw [hhist]
    exact h.wellFormed
  · show OwnInRange eng.site n (opsOf ((eng.gh.global ++ [op]) ++ localOps))
    rw [hhist]
    exact h.ownInRange
  · exact ⟨(h.entries e he).1, (h.entries e he).2.trans_eq htotal.symm⟩
  · have hown := (h.own hbase).1
    rw [hlocal] at hown
    exact (List.forall_mem_cons.mp hown).2
  · show ∀ e : Nat, e ∈ eng.gh.undoQueue →
      ((opsOf ((eng.gh.global ++ [op]) ++ localOps))[e - 1]?).map Op.site = some eng.site
    rw [hhist]
    exact (h.own hbase).2

/-- The site at an entry once another op stands at `k`. -/
theorem site_insert {sites : List SiteId} {k : Nat} (hk : k ≤ sites.length) {site x : SiteId}
    {e : Nat} (hpos : 0 < e) (h : sites[e - 1]? = some site) :
    (sites.take k ++ x :: sites.drop k)[(if e > k then e + 1 else e) - 1]? = some site := by
  have htake : (sites.take k).length = k := by simpa using hk
  split
  next hgt =>
      rw [List.getElem?_append_right (by omega), htake,
        show e + 1 - 1 - k = (e - 1 - k) + 1 by omega, List.getElem?_cons_succ,
        List.getElem?_drop, ← h]
      congr 1
      omega
  next hle =>
      rw [List.getElem?_append_left (by omega), List.getElem?_take_of_lt (by omega), h]

/-- An op of another site comes in. -/
theorem foreign (h : Fed base n eng) {op : FatOp Op} {instr : EditInstruction} {doc : InternalDoc}
    (hstep : eng.ForeignStep op instr doc eng') (hsite : op.site ≠ eng.site)
    (hne : op.op.Nonempty)
    (hrange : (Grid.through Op.transform op.op (opsOf eng.gh.localOps)).InRange
      eng.internalDoc.internalLen) : Fed base n eng' := by
  obtain ⟨hrun, rfl⟩ := hstep
  -- The op as it is recorded, and the local ops behind it.
  have hop : (Grid.through FatOp.transform op eng.gh.localOps).op =
      Grid.through Op.transform op.op (opsOf eng.gh.localOps) := FatOp.hom_op.through ..
  have hlocal : opsOf (bumpUndoDeltas 0 (Grid.past FatOp.transform op eng.gh.localOps)) =
      Grid.past Op.transform op.op (opsOf eng.gh.localOps) := by
    rw [opsOf, map_bumpUndoDeltas fun _ _ => rfl]
    exact FatOp.hom_op.past ..
  have hgrows : (Grid.through Op.transform op.op (opsOf eng.gh.localOps)).grows = op.op.grows :=
    Grid.Keeps.through Op.grows_transform ..
  rw [hop] at hrun
  have hne' := hne.through (opsOf eng.gh.localOps)
  obtain ⟨instr', doc', hrun', happlied⟩ := applied_inRange h.doc hne' hrange
  cases hrun'.symm.trans hrun
  have hhist : opsOf eng.gh.history = opsOf eng.gh.global ++ opsOf eng.gh.localOps :=
    opsOf_append ..
  have hhist' : opsOf ((eng.gh.global ++ [Grid.through FatOp.transform op eng.gh.localOps]) ++
      bumpUndoDeltas 0 (Grid.past FatOp.transform op eng.gh.localOps)) =
      opsOf eng.gh.global ++ Grid.through Op.transform op.op (opsOf eng.gh.localOps) ::
        Grid.past Op.transform op.op (opsOf eng.gh.localOps) := by
    rw [opsOf_append, opsOf_append, hlocal, List.append_assoc, ← hop]
    rfl
  have hformed := h.wellFormed
  have hown := h.ownInRange
  have hlen := h.length
  rw [hhist] at hformed hown hlen
  obtain ⟨hformedGlobal, hformedLocal⟩ := List.forall_mem_append.mp hformed
  obtain ⟨hownGlobal, hownLocal⟩ := (Grid.OkAll_append ..).mp hown
  have htotal : ((eng.gh.global ++ [Grid.through FatOp.transform op eng.gh.localOps]) ++
      bumpUndoDeltas 0 (Grid.past FatOp.transform op eng.gh.localOps)).length =
      eng.gh.totalLen + 1 := by
    have := congrArg List.length hhist'
    simp only [List.length_map, List.length_append, List.length_cons, Grid.past_length] at this ⊢
    rw [this, GlobalHistory.totalLen, Nat.add_assoc]
  refine ⟨happlied.ok, ?_, ?_, ?_, ?_, ?_, ?_, fun hbase => ⟨?_, ?_⟩⟩
  · show eng.currentSeq + 1 = _
    rw [h.counted, List.length_append, List.length_singleton, Nat.add_assoc]
  · show doc.internalLen = grown n (opsOf (_ ++ _))
    rw [happlied.length, hhist', hgrows, hlen, grown_append, grown_append]
    show _ = grown (grown n _ + _) _
    rw [grown_add, grown_past, hgrows]
  · show ∀ b ∈ opsOf (_ ++ _), _
    rw [hhist']
    exact List.forall_mem_append.mpr ⟨hformedGlobal,
      List.forall_mem_cons.mpr ⟨⟨hne', _, hrange⟩, Op.wellFormed_past hformedLocal _⟩⟩
  · show OwnInRange eng.site n (opsOf (_ ++ _))
    rw [hhist']
    refine (Grid.OkAll_append ..).mpr ⟨hownGlobal, fun hsite' => ?_, ?_⟩
    · exact absurd ((Grid.Keeps.through Op.site_transform ..).symm.trans hsite') hsite
    · have hpast := OwnInRange.past hownLocal op.op
      rw [← hgrows] at hpast
      exact hpast
  · rintro e' he'
    obtain ⟨e, he, rfl⟩ := List.mem_map.mp he'
    obtain ⟨hpos, hle⟩ := h.entries e he
    rw [← GlobalHistory.history_length, GlobalHistory.history, htotal]
    split
    · exact ⟨Nat.succ_pos e, Nat.succ_le_succ hle⟩
    · exact ⟨hpos, Nat.le_succ_of_le hle⟩
  · intro tip htip
    rw [List.length_map]
    exact h.tip tip htip
  · show ∀ b ∈ opsOf (bumpUndoDeltas 0 _), b.site = eng.site
    have hsites : (Grid.past Op.transform op.op (opsOf eng.gh.localOps)).map Op.site =
        (opsOf eng.gh.localOps).map Op.site := Grid.Keeps.past Op.site_transform ..
    rw [hlocal]
    intro b hb
    have hmem := List.mem_map_of_mem (f := Op.site) hb
    rw [hsites] at hmem
    obtain ⟨b', hb', heq⟩ := List.mem_map.mp hmem
    exact heq.symm.trans ((h.own hbase).1 b' hb')
  · rintro e' he'
    obtain ⟨e, he, rfl⟩ := List.mem_map.mp he'
    show ((opsOf (_ ++ _))[_]?).map Op.site = some eng.site
    have hsite' := (h.own hbase).2 e he
    have hsites : (Grid.past Op.transform op.op (opsOf eng.gh.localOps)).map Op.site =
        (opsOf eng.gh.localOps).map Op.site := Grid.Keeps.past Op.site_transform ..
    have hk : eng.gh.global.length = ((opsOf eng.gh.global).map Op.site).length := by simp
    have hcounted : eng.currentSeq = eng.gh.global.length := by
      rw [h.counted, hbase, Nat.zero_add]
    rw [← List.getElem?_map] at hsite' ⊢
    rw [hhist', hcounted, List.map_append, List.map_cons, hsites]
    rw [hhist, List.map_append] at hsite'
    have := site_insert (k := eng.gh.global.length) (x := (Grid.through Op.transform op.op
      (opsOf eng.gh.localOps)).site) (by simp) (h.entries e he).1 hsite'
    rwa [hk, List.take_left, List.drop_left, ← hk] at this

/-- What an undo or a redo makes are marks that are in range somewhere. -/
theorem undone (h : Fed base n eng) (redo : Bool) :
    ∀ op ∈ (eng.gh.undoEntries redo).map eng.gh.undone, op.IsMark ∧ op.WellFormed := by
  rintro op hop
  obtain ⟨entry, hentry, rfl⟩ := List.mem_map.mp hop
  obtain ⟨-, hget, -⟩ := GlobalHistory.groupEntries_mem hentry
  obtain ⟨segs, hmark⟩ := eng.gh.isMark_undone entry
  refine ⟨⟨_, _, _, hmark⟩, ?_⟩
  exact (h.wellFormed _ (List.mem_map_of_mem (List.mem_of_getElem? hget))).inverse.through _

/-- In an engine made at 0 they are ops of the own site and fit the document. -/
theorem undone_own (h : Fed 0 n eng) (redo : Bool) :
    ∀ op ∈ (eng.gh.undoEntries redo).map eng.gh.undone,
      op.site = eng.site ∧ op.Fits eng.internalDoc.internalLen := by
  rintro op hop
  obtain ⟨entry, hentry, rfl⟩ := List.mem_map.mp hop
  obtain ⟨hpos, hget, hmem⟩ := GlobalHistory.groupEntries_mem hentry
  have hget' : (opsOf eng.gh.history)[entry.1 - 1]? = some entry.2.op := by
    rw [List.getElem?_map, hget]
    rfl
  have hsite : entry.2.op.site = eng.site := by
    have := (h.own rfl).2 _ hmem
    rw [hget'] at this
    exact Option.some_inj.mp this
  obtain ⟨segs, hmark⟩ := eng.gh.isMark_undone entry
  refine ⟨by rw [hmark]; exact hsite, ?_⟩
  -- The op was in range where it stands, and its inverse is carried from there.
  obtain ⟨hsplit, -⟩ := split_history hpos hget'
  have hown := h.ownInRange
  rw [hsplit] at hown
  obtain ⟨-, hrange, -⟩ := (Grid.OkAll_append ..).mp hown
  have hne := (h.wellFormed _ (List.mem_of_getElem? hget')).1
  have hend := ((hrange hsite).inverse hne).through ((opsOf eng.gh.history).drop entry.1)
  have hlen : eng.internalDoc.internalLen = grown (grown n ((opsOf eng.gh.history).take
      (entry.1 - 1)) + entry.2.op.grows) ((opsOf eng.gh.history).drop entry.1) := by
    rw [h.length]
    conv_lhs => rw [hsplit, grown_append]
    rfl
  have hend : (eng.gh.undone entry).InRange eng.internalDoc.internalLen := by
    rw [hlen]
    exact hend
  rw [hmark] at hend ⊢
  exact fun seg hseg => ⟨SegsInRange.nonempty hend seg hseg, SegsInRange.le hend seg hseg⟩

/-- An op of the editor that is taken. -/
theorem localStep (h : Fed base n eng) {editorOp : EditorFatOp} {siteSeq : LocalSeq} {ops : List Op}
    {instrs : List EditInstruction} {doc : InternalDoc} {gh : GlobalHistory}
    (hstep : eng.LocalStep editorOp siteSeq ops instrs doc gh eng')
    (hsound : editorOp.op.IsEdit → editorOp.op.Fits eng.editorLen) : Fed base n eng' := by
  obtain ⟨-, hmakes, hrec, rfl⟩ := hstep
  obtain ⟨op, groupSeq⟩ := editorOp
  have hedit : ∀ op' doc', op.IsEdit → op.Fits eng.editorLen →
      eng.internalDoc.convertEditorOpAndApply op eng.site = some (op', doc') →
      DocOk doc' ∧ doc'.internalLen = grown eng.internalDoc.internalLen [op'] ∧ op'.WellFormed ∧
        op'.InRange eng.internalDoc.internalLen ∧ op'.site = eng.site := by
    intro op' doc' _ hfits hconv
    obtain ⟨op₁, doc₁, happlied⟩ := InternalDoc.authorApplied_spec h.doc hfits eng.site
    cases happlied.run.symm.trans hconv
    obtain ⟨d, hd⟩ := InternalDoc.exists_seq (flags eng.internalDoc.ranges)
    refine ⟨happlied.ok, ?_, ⟨happlied.nonempty, _, happlied.inRange⟩, happlied.inRange,
      convertEditorOpAndApply_site hconv⟩
    rw [InternalDoc.internalLen_eq_flags, (happlied.applies d hd).1, ← Seq.length_eq,
      Op.apply_items, InternalDoc.internalLen_eq_flags, ← hd, ← Seq.length_eq]
    cases op' with
    | ins op site => exact insertAt_length ..
    | mark segs live site => rfl
  cases hmakes with
  | ins hne hconv =>
      obtain ⟨hdoc, hlen, hformed, hrange, hsite⟩ := hedit _ _ trivial (hsound trivial) hconv
      exact h.record hrec hdoc hlen (by simpa using hformed) ⟨hrange, trivial⟩
        fun _ => by simpa using hsite
  | del hconv =>
      obtain ⟨hdoc, hlen, hformed, hrange, hsite⟩ := hedit _ _ trivial (hsound trivial) hconv
      exact h.record hrec hdoc hlen (by simpa using hformed) ⟨hrange, trivial⟩
        fun _ => by simpa using hsite
  | undo redo hops hconv =>
      have hnone : ∀ b ∈ opsOf [], ∃ segs live site, b = .mark segs live site := nofun
      have hops : ops = (eng.gh.undoEntries redo).map eng.gh.undone := by
        rw [hops]
        exact GlobalHistory.opsOf_inverses eng.gh _ hnone
      subst hops
      have hmarks := h.undone redo
      have hall := convertAll_applied h.doc hmarks hconv
      have hfits := fits_of_convertAll h.doc hmarks hconv
      have hgrown : ∀ (ops : List Op) (m : Nat), (∀ op ∈ ops, op.IsMark ∧ op.InRange m) →
          grown m ops = m ∧
            Grid.OkAll (fun m op => m + op.grows) (fun m op => op.InRange m) m ops := by
        intro ops m hops
        induction ops with
        | nil => exact ⟨rfl, trivial⟩
        | cons op ops ih =>
            obtain ⟨⟨⟨segs, live, site, rfl⟩, hop⟩, hops'⟩ := List.forall_mem_cons.mp hops
            exact ⟨(ih hops').1, hop, (ih hops').2⟩
      obtain ⟨hlen, hrange⟩ := hgrown _ eng.internalDoc.internalLen fun op hop =>
        ⟨(hmarks op hop).1, (hmarks op hop).2.inRange (hfits op hop)⟩
      refine h.record hrec hall.ok (hall.length.trans hlen.symm) (fun op hop => (hmarks op hop).2)
        hrange fun hbase => ?_
      subst hbase
      exact fun op hop => (h.undone_own redo op hop).1

end Fed

/-- An op that comes in is refused, with nothing changed, or taken. -/
theorem processRemoteOp_cases {eng eng' : ClientEngine} {op : FatOp Op}
    {res : Except EngineError (Option (EditorLeanOp × GlobalSeq))}
    (hechoes : eng.Echoes (.processRemoteOp op))
    (h : eng.processRemoteOp op = some (res, eng')) :
    (∃ err, res = .error err) ∧ eng' = eng ∨
      (op.site = eng.site ∧ ∃ localOp localOps, op.op = localOp.op ∧
        op.groupSeq = localOp.groupSeq ∧ eng.AckStep op localOp localOps eng') ∨
      op.seq = some (eng.currentSeq + 1) ∧ op.site ≠ eng.site ∧
        ∃ instr doc, eng.ForeignStep op instr doc eng' := by
  cases res with
  | ok r =>
      obtain ⟨hseq, ⟨hsite, -, localOp, localOps, hack⟩ | ⟨hsite, instr, doc, hforeign, -⟩⟩ :=
        processRemoteOp_ok h
      · obtain ⟨-, hop, hgroup⟩ := hechoes hseq hsite localOp (by rw [hack.localOps_eq]; rfl)
        exact .inr (.inl ⟨hsite, localOp, localOps, hop, hgroup, hack⟩)
      · exact .inr (.inr ⟨hseq, hsite, instr, doc, hforeign⟩)
  | error err =>
      refine .inl ⟨⟨err, rfl⟩, ?_⟩
      by_cases hseq : op.seq = some (eng.currentSeq + 1)
      · by_cases hsite : op.site = eng.site
        · cases hlocal : eng.gh.localOps with
          | nil =>
              simp only [processRemoteOp, hseq, ne_eq, not_true_eq_false, if_false, hsite, if_true,
                hlocal] at h
              cases h
              rfl
          | cons localOp localOps =>
              obtain ⟨hls, hop, -⟩ := hechoes hseq hsite localOp (by rw [hlocal]; rfl)
              have hsite' : localOp.site = eng.site := by rw [FatOp.site, ← hop]; exact hsite
              obtain ⟨_, hok, -⟩ := processRemoteOp_ack hseq hsite hlocal hsite' hls.symm
              cases hok.symm.trans h
        · exact absurd h (processRemoteOp_foreign_error hseq hsite)
      · unfold processRemoteOp at h
        split at h
        next =>
            cases h
            rfl
        next seq hseq' =>
            rw [if_pos (fun heq => hseq (by rw [hseq', heq]))] at h
            cases h
            rfl

/-- Such a call keeps the invariant, whatever it answers. -/
theorem Fed.after {base : GlobalSeq} {n : Nat} {eng eng' : ClientEngine} (h : Fed base n eng)
    {call : Call} (hhost : HostSound eng call) (hedits : EditsWithin eng call)
    (hrun : eng.after call = some eng') : Fed base n eng' := by
  obtain ⟨hechoes, hsound⟩ := hhost
  cases call with
  | processLocalOp editorOp siteSeq =>
      obtain ⟨⟨res, eng₁⟩, hcall, heq⟩ := Option.map_eq_some_iff.mp hrun
      obtain rfl : eng₁ = eng' := heq
      rcases processLocalOp_cases hcall with ⟨-, -, rfl⟩ | ⟨-, ⟨-, -, rfl⟩ |
        ⟨instrs, ops, doc, gh, -, hstep⟩⟩
      · exact h
      · exact h.of_siteSeq _ _
      · exact h.localStep hstep (hedits hstep.siteSeq_eq)
  | processRemoteOp op =>
      obtain ⟨⟨res, eng₁⟩, hcall, heq⟩ := Option.map_eq_some_iff.mp hrun
      obtain rfl : eng₁ = eng' := heq
      rcases processRemoteOp_cases hechoes hcall with ⟨-, rfl⟩ |
        ⟨-, localOp, localOps, hop, -, hack⟩ | ⟨hseq, hsite, instr, doc, hforeign⟩
      · exact h
      · exact h.ack hack hop
      · exact h.foreign hforeign hsite (hsound hseq hsite).1 (hsound hseq hsite).2
  | maybePackageLocalOps doc =>
      cases hrun
      rw [maybePackageLocalOps_eq]
      split
      · split
        · exact h.of_siteSeq _ _
        · exact h
      · exact h

theorem ReachedWithin.fed {base : GlobalSeq} {eng : ClientEngine} (h : ReachedWithin base eng) :
    ∃ n, Fed base n eng := by
  obtain ⟨site, doc, calls, hdoc, hmeets, hrun⟩ := h
  exact ⟨doc.internalLen, Run.invariant
    (fun _ _ _ hfed hcall hstep => hfed.after hcall.1 hcall.2 hstep) (Fed.new hdoc site) hmeets
    hrun⟩

/-- Site 1 has typed two insertions of one group. -/
def typedGroup : ClientEngine :=
  { gh :=
      { global := []
        localOps := [⟨none, .ins (1, ['a', 'b']) 1, 1, .original, 1⟩,
          ⟨none, .ins (2, ['c']) 1, 2, .original, 1⟩]
        undoQueue := [1, 2]
        undoTip := none }
    internalDoc := { ranges := [.live 6], cursors := [(1, ⟨0, 0, some 0⟩)] }
    site := 1
    currentSeq := 0
    currentSiteSeq := 2
    lastSiteSeqSentOut := 0 }

theorem typedGroup_reachedWithin : ReachedWithin 0 typedGroup := by
  refine ⟨1, InternalDoc.new 3, [.processLocalOp ⟨.ins 1 ['a', 'b'], 1⟩ 1,
    .processLocalOp ⟨.ins 2 ['c'], 1⟩ 2], InternalDoc.new_ok 3,
    ⟨⟨⟨trivial, trivial⟩, fun _ _ => by decide⟩, fun t ht => ?_⟩, by decide +kernel⟩
  cases ht
  exact ⟨⟨⟨trivial, trivial⟩, fun _ _ => by decide⟩, fun t _ => trivial⟩

/-- Then its editor has deleted nothing, which the engine takes for a deletion. -/
def deletedNothing : ClientEngine :=
  { typedGroup with
    gh :=
      { typedGroup.gh with
        localOps := typedGroup.gh.localOps ++ [⟨none, .mark [(2, [])] false 1, 3, .original, 2⟩]
        undoQueue := [1, 2, 3] }
    internalDoc := { ranges := [.live 2, .dead 0, .live 4], cursors := [(1, ⟨0, 0, some 0⟩)] }
    currentSiteSeq := 3 }

theorem deletedNothing_reachable : Reachable 0 deletedNothing := by
  refine ⟨1, InternalDoc.new 3, [.processLocalOp ⟨.ins 1 ['a', 'b'], 1⟩ 1,
    .processLocalOp ⟨.ins 2 ['c'], 1⟩ 2, .processLocalOp ⟨.del 2 [], 2⟩ 3],
    InternalDoc.new_ok 3, ?_, by decide +kernel⟩
  exact ⟨⟨trivial, trivial⟩, fun _ _ => ⟨⟨trivial, trivial⟩, fun _ _ =>
    ⟨⟨trivial, trivial⟩, fun _ _ => trivial⟩⟩⟩

end ClientEngine

end CollabMode
