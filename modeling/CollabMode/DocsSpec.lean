import CollabMode.Docs
import CollabMode.EngineSpec
import CollabMode.DocRefine

/-!
# Documents that show a sequence

`Shows doc text d` says that an internal document and a text both stand for the
sequence `d`, the one with its tombstones, the other without.  Every method of a
document keeps this, whatever valid operation comes, so the check of the lengths
never fails.

`Op.Valid` is what the operations of a run satisfy.  Those of the editors carry
the characters that stand in the document.  Those made from a change of another
program may not, since their positions were taken from the text, but they bring
nothing back.
-/

namespace CollabMode

open Tombstone

/-! ## Valid operations -/

/-- The operation may run on `items`, and shows the right text there. -/
structure Op.Valid (items : List Char) (op : Op) : Prop where
  ok : op.Ok false items
  shows : op.Matches items ∨ op.Plain ∧ op.site = externalProcessSiteId

theorem Op.Ok.weaken {items : List Char} {op : Op} {strict : Bool} (h : op.Ok strict items) :
    op.Ok false items :=
  ⟨h.inRange, h.nonempty, fun hf => by cases hf⟩

theorem Op.Ok.valid {items : List Char} {op : Op} (h : op.Ok true items) : op.Valid items :=
  ⟨h.weaken, Or.inl (h.matches rfl)⟩

/-- The ops of an editor carry the characters that stand there. -/
theorem Op.Valid.strict {items : List Char} {op : Op} (h : op.Valid items)
    (hsite : op.site ≠ externalProcessSiteId) : op.Ok true items :=
  ⟨h.ok.inRange, h.ok.nonempty, fun _ => h.shows.resolve_right fun hp => hsite hp.2⟩

/-- A mark keeps its characters when an insertion is made before it. -/
theorem Op.Matches.transform {items : List Char} {a b : Op} (ha : a.Ok false items)
    (hb : b.Ok false items) (h : a.Matches items) :
    (a.transform b).Matches (b.applyItems items) := by
  cases a with
  | ins op s => cases b <;> trivial
  | mark segs live s =>
      cases b with
      | ins op' s' => exact SegsMatch.split hb.ins.1 ha.inRange h
      | mark segs' live' s' => exact h

theorem Op.Valid.transform {items : List Char} {a b : Op} (ha : a.Valid items)
    (hb : b.Ok false items)
    (h : (a.transform b).Ok false (b.applyItems items)) :
    (a.transform b).Valid (b.applyItems items) := by
  refine ⟨h, ha.shows.imp (fun hm => hm.transform ha.ok hb) fun ⟨hp, hs⟩ => ?_⟩
  exact ⟨(Op.plain_transform a b).mpr hp, by rw [Op.site_transform, hs]⟩

/-- Concurrent operations of different sites stay valid. -/
theorem validSquare :
    Grid.Square Op.transform Op.applyItems Op.Valid fun a b => a.site ≠ b.site := by
  intro items a b ha hb hsite
  obtain ⟨h1, h2, heq⟩ := itemsSquare false items a b ha.ok hb.ok hsite
  exact ⟨hb.transform ha.ok h1, ha.transform hb.ok h2, heq⟩

/-- The document after `ops`. -/
abbrev replay (d : Seq Char) (ops : List Op) : Seq Char := Grid.runAll Op.apply d ops

/-- Every operation is valid where its turn comes. -/
abbrev AllValid (items : List Char) (ops : List Op) : Prop :=
  Grid.OkAll Op.applyItems Op.Valid items ops

theorem replay_items (d : Seq Char) (ops : List Op) :
    (replay d ops).items = Grid.runAll Op.applyItems d.items ops := by
  induction ops generalizing d with
  | nil => rfl
  | cons op ops ih =>
      show (replay (op.apply d) ops).items = _
      rw [ih, Op.apply_items]
      rfl

theorem replay_append (d : Seq Char) (ops ops' : List Op) :
    replay d (ops ++ ops') = replay (replay d ops) ops' :=
  Grid.runAll_append Op.apply d ops ops'

theorem AllValid.append_iff {d : Seq Char} {ops ops' : List Op} :
    AllValid d.items (ops ++ ops') ↔
      AllValid d.items ops ∧ AllValid (replay d ops).items ops' := by
  rw [replay_items]
  exact Grid.OkAll_append Op.applyItems Op.Valid d.items ops ops'

/-! ## What a document shows -/

/-- The internal document and the text stand for `d`. -/
structure Shows (doc : InternalDoc) (text : Text) (d : Seq Char) : Prop where
  ok : DocOk doc
  flags : d.flags = flags doc.ranges
  text_eq : text = d.live

namespace Shows

variable {doc : InternalDoc} {text : Text} {d : Seq Char}

theorem new (content : Text) :
    Shows (InternalDoc.new content.length) content (Seq.allLive content) := by
  refine ⟨InternalDoc.new_ok _, ?_, (Seq.allLive_live content).symm⟩
  unfold InternalDoc.new Seq.allLive
  split
  next => simp [CollabMode.flags]
  next h =>
      obtain rfl : content = [] := List.length_eq_zero_iff.mp (by omega)
      rfl

theorem internalLen_eq (h : Shows doc text d) : doc.internalLen = d.items.length := by
  rw [d.length_eq, h.flags, flags_length, InternalDoc.internalLen_eq]

theorem editorLen_eq (h : Shows doc text d) : doc.editorLen = text.length := by
  rw [h.text_eq, d.live_length, h.flags, flags_count, InternalDoc.editorLen_eq]

theorem checkLen (h : Shows doc text d) :
    CollabMode.checkLen doc.editorLen text.length = .ok () := by
  rw [CollabMode.checkLen, if_neg]
  exact not_not_intro h.editorLen_eq

/-- A valid internal operation. -/
theorem internal (h : Shows doc text d) {op : Op} (hop : op.Valid d.items) :
    ∃ instr doc', doc.convertInternalOpAndApply op = some (instr, doc') ∧
      instr.apply text = some (.ok (), (op.apply d).live) ∧
      Shows doc' (op.apply d).live (op.apply d) := by
  have hrange : op.InRange doc.internalLen := h.internalLen_eq ▸ hop.ok.inRange
  obtain ⟨doc', hrun, hflags, hok⟩ :=
    InternalDoc.convertInternalOpAndApply_spec h.ok (Or.inl hrange) d h.flags
  refine ⟨_, doc', hrun, ?_, hok hop.ok.nonempty, hflags.symm, rfl⟩
  rw [h.text_eq]
  exact InternalDoc.instruction_apply d h.flags hop.ok.inRange (hop.shows.imp_right And.left)

end Shows

/-! ## The editor's operations -/

/-- The operation is one that an editor showing `text` makes: it inserts within
the text, or deletes some of it. -/
def EditorOp.FitsText (text : Text) : EditorOp → Prop
  | .ins pos _ => pos ≤ text.length
  | .del pos content => content ≠ [] ∧ (text.drop pos).take content.length = content
  | .undo _ => True
  | .redo _ => True

instance (text : Text) (op : EditorOp) : Decidable (op.FitsText text) :=
  match op with
  | .ins pos _ => inferInstanceAs (Decidable (pos ≤ text.length))
  | .del pos content =>
      inferInstanceAs (Decidable (content ≠ [] ∧ (text.drop pos).take content.length = content))
  | .undo _ => isTrue trivial
  | .redo _ => isTrue trivial

/-- The text names at least as many characters as are deleted. -/
theorem le_of_take_drop {text content : Text} {pos : Nat} (hne : content ≠ [])
    (h : (text.drop pos).take content.length = content) :
    pos + content.length ≤ text.length := by
  have hlen := congrArg List.length h
  rw [List.length_take, List.length_drop] at hlen
  have := List.length_pos_iff.mpr hne
  omega

namespace Shows

variable {doc : InternalDoc} {text : Text} {d : Seq Char}

/-- An insertion of the editor. -/
theorem ins (h : Shows doc text d) {pos : Nat} {content : Text} (hne : content ≠ [])
    (hpos : pos ≤ text.length) (site : SiteId) :
    ∃ op' doc', doc.convertEditorOpAndApply (.ins pos content) site = some (op', doc') ∧
      op'.Ok true d.items ∧ op'.site = site ∧
      (EditInstruction.ins [⟨pos, content⟩]).apply text = some (.ok (), (op'.apply d).live) ∧
      Shows doc' (op'.apply d).live (op'.apply d) := by
  have hfits : (EditorOp.ins pos content).Fits doc.editorLen := by
    rw [h.editorLen_eq]
    exact ⟨hne, hpos⟩
  obtain ⟨op', doc', happlied⟩ :=
    InternalDoc.convertEditorOpAndApply_spec h.ok hfits site d h.flags
  obtain ⟨hok, hflags, hlive⟩ := happlied.refines trivial
  refine ⟨op', doc', happlied.run, hok, happlied.site_eq, ?_, happlied.ok, hflags.symm, rfl⟩
  have hle : ¬ pos > text.length := by omega
  rw [hlive, ← h.text_eq]
  simp [EditInstruction.apply, insertEdits, EditorOp.applyText, hle]

/-- A deletion of the editor. -/
theorem del (h : Shows doc text d) {pos : Nat} {content : Text} (hne : content ≠ [])
    (hmatch : (text.drop pos).take content.length = content) (site : SiteId) :
    ∃ op' doc', doc.convertEditorOpAndApply (.del pos content) site = some (op', doc') ∧
      op'.Ok true d.items ∧ op'.site = site ∧
      (EditInstruction.del [⟨pos, content⟩]).apply text = some (.ok (), (op'.apply d).live) ∧
      Shows doc' (op'.apply d).live (op'.apply d) := by
  have hle := le_of_take_drop hne hmatch
  have hfits : (EditorOp.del pos content).Fits doc.editorLen := by
    rw [h.editorLen_eq]
    exact ⟨hne, hle⟩
  obtain ⟨op', doc', happlied⟩ :=
    InternalDoc.convertEditorOpAndApply_spec h.ok hfits site d h.flags
  obtain ⟨hok, hflags, hlive⟩ := happlied.refines (by rw [← h.text_eq]; exact hmatch)
  refine ⟨op', doc', happlied.run, hok, happlied.site_eq, ?_, happlied.ok, hflags.symm, rfl⟩
  rw [hlive, ← h.text_eq]
  simp [EditInstruction.apply, deleteEdits, drain, EditorOp.applyText, hle]

end Shows

/-! ## Lists of operations -/

/-- The text after the instructions, if none is refused. -/
def runInstructions : List EditInstruction → Text → Option Text
  | [], buffer => some buffer
  | instr :: instrs, buffer =>
      match instr.apply buffer with
      | some (.ok (), buffer) => runInstructions instrs buffer
      | _ => none

/-- Valid internal operations, one after the other. -/
theorem Shows.convertAll {doc : InternalDoc} {text : Text} {d : Seq Char} {ops : List Op}
    (h : Shows doc text d) (hops : AllValid d.items ops) :
    ∃ instrs doc', InternalDoc.convertAll ops doc = some (instrs, doc') ∧
      runInstructions instrs text = some (replay d ops).live ∧
      Shows doc' (replay d ops).live (replay d ops) := by
  induction ops generalizing doc text d with
  | nil =>
      refine ⟨[], doc, rfl, ?_, h.ok, h.flags, rfl⟩
      exact congrArg some h.text_eq
  | cons op ops ih =>
      obtain ⟨hop, hrest⟩ := hops
      obtain ⟨instr, doc₁, hrun, happly, hshows⟩ := h.internal hop
      obtain ⟨instrs, doc', hruns, happlies, hshows'⟩ :=
        ih hshows (by rw [Op.apply_items]; exact hrest)
      refine ⟨instr :: instrs, doc', by simp [InternalDoc.convertAll, hrun, hruns], ?_, hshows'⟩
      simp [runInstructions, happly, happlies]

/-! ## The methods of the host's document -/

namespace Doc

/-- The host's document shows `d`. -/
abbrev Shows (self : Doc) (d : Seq Char) : Prop :=
  CollabMode.Shows self.engine.internalDoc self.buffer d

/-- The document with another internal document and text. -/
def setText (self : Doc) (internalDoc : InternalDoc) (buffer : Text) : Doc :=
  { self with engine := { self.engine with internalDoc }, buffer }

theorem applyOp_shows {self : Doc} {d : Seq Char} (h : self.Shows d) {op : FatOp Op}
    (hop : op.op.Valid d.items) :
    ∃ internalDoc, self.applyOp op =
        some (.ok (), self.setText internalDoc (op.op.apply d).live) ∧
      (self.setText internalDoc (op.op.apply d).live).Shows (op.op.apply d) := by
  obtain ⟨instr, doc', hrun, happly, hshows⟩ := h.internal hop
  have hcheck : checkLen doc'.editorLen (op.op.apply d).live.length = .ok () := hshows.checkLen
  refine ⟨doc', ?_, hshows⟩
  simp only [applyOp, ServerEngine.convertInternalOpAndApply, hrun, happly, Option.bind_eq_bind,
    Option.bind_some, ServerEngine.editorLen]
  rw [hcheck]
  rfl

theorem applyOps_shows {ops : List (FatOp Op)} {self : Doc} {d : Seq Char} (h : self.Shows d)
    (hops : AllValid d.items (ops.map FatOp.op)) :
    ∃ internalDoc, applyOps ops self =
        some (.ok (), self.setText internalDoc (replay d (ops.map FatOp.op)).live) ∧
      (self.setText internalDoc (replay d (ops.map FatOp.op)).live).Shows
        (replay d (ops.map FatOp.op)) := by
  induction ops generalizing self d with
  | nil =>
      have htext : self.buffer = d.live := h.text_eq
      refine ⟨self.engine.internalDoc, ?_, h.ok, h.flags, rfl⟩
      show _ = some (Except.ok (), self.setText _ d.live)
      rw [← htext]
      rfl
  | cons op ops ih =>
      obtain ⟨hop, hrest⟩ := hops
      obtain ⟨doc₁, hrun, hshows⟩ := applyOp_shows h hop
      obtain ⟨doc', hruns, hshows'⟩ := ih hshows (by rw [Op.apply_items]; exact hrest)
      refine ⟨doc', ?_, hshows'⟩
      simp only [applyOps, hrun, hruns, Option.bind_eq_bind, Option.bind_some]
      rfl

theorem applyOps_ok {ops : List (FatOp Op)} {self self' : Doc} {u : Unit}
    (h : applyOps ops self = some (.ok u, self')) :
    ∃ internalDoc buffer, self' = self.setText internalDoc buffer := by
  induction ops generalizing self with
  | nil =>
      cases h
      exact ⟨_, _, rfl⟩
  | cons op ops ih =>
      simp only [applyOps, applyOp, ServerEngine.convertInternalOpAndApply, Option.bind_eq_bind,
        Option.bind_eq_some_iff] at h
      obtain ⟨⟨res, self₁⟩, ⟨_, ⟨⟨instr, doc⟩, _, heq⟩, ⟨res', buffer⟩, _, h₁⟩, h⟩ := h
      cases heq
      cases res' with
      | error err =>
          cases h₁
          cases h
      | ok u' =>
          cases h₁
          split at h
          · cases h
          · obtain ⟨doc', buffer', rfl⟩ := ih h
            exact ⟨doc', buffer', rfl⟩

/-- The document with `new` at the end of its history. -/
def append (self : Doc) (new : List (FatOp Op)) : Doc :=
  { self with engine := { self.engine with
    currentSeq := self.engine.currentSeq + new.length
    gh := { self.engine.gh with global := self.engine.gh.global ++ new } } }

/-- What the host makes of a batch: the batch carried past what it has ordered
since the context, and numbered. -/
def ordered (self : Doc) (ops : List (FatOp Op)) (context : GlobalSeq) : List (FatOp Op) :=
  ServerEngine.assignSeqs (self.engine.currentSeq + 1)
    (Grid.carry FatOp.transform (self.engine.gh.global.drop context) ops)

@[simp] theorem append_nil (self : Doc) : self.append [] = self := by
  simp [append]

theorem ordered_length (self : Doc) (ops : List (FatOp Op)) (context : GlobalSeq) :
    (self.ordered ops context).length = ops.length := by
  rw [ordered, ServerEngine.assignSeqs_length, Grid.carry_length]

theorem processOps_eq (self : Doc) (ops : List (FatOp Op)) (context : GlobalSeq) :
    self.engine.processOps ops context =
      (self.ordered ops context, (self.append (self.ordered ops context)).engine) := by
  rw [ServerEngine.processOps_eq, append, ordered_length]
  rfl

/-- The batch that was ordered and applied. -/
theorem processAndApply_ok {self self' : Doc} {ops processed : List (FatOp Op)}
    {context : GlobalSeq} (h : self.processAndApply ops context = some (.ok processed, self')) :
    processed = self.ordered ops context ∧
      applyOps processed (self.append processed) = some (.ok (), self') := by
  rw [processAndApply, processOps_eq] at h
  simp only [Option.bind_eq_bind, Option.bind_eq_some_iff] at h
  obtain ⟨⟨res, self₁⟩, happly, h⟩ := h
  cases res with
  | error err => cases h
  | ok u =>
      cases h
      exact ⟨rfl, happly⟩

theorem processAndApply_of {self self' : Doc} {ops : List (FatOp Op)} {context : GlobalSeq}
    (h : applyOps (self.ordered ops context) (self.append (self.ordered ops context)) =
      some (.ok (), self')) :
    self.processAndApply ops context = some (.ok (self.ordered ops context), self') := by
  rw [processAndApply, processOps_eq]
  simp only [Option.bind_eq_bind]
  rw [show applyOps (self.ordered ops context)
    { self with engine := (self.append (self.ordered ops context)).engine } = _ from h]
  rfl

/-- A change by another program is ordered like a batch made in the last state. -/
theorem resetFromDisk_ok {self self' : Doc} {chunks : List Chunk}
    {processed : List (FatOp Op)} (h : self.resetFromDisk chunks = some (.ok processed, self')) :
    ∃ nextExternalSiteSeq,
      applyOps processed (append { self with nextExternalSiteSeq } processed) =
        some (.ok (), self') ∧
      processed = self.ordered (chunksToOps chunks externalProcessSiteId
        self.nextExternalSiteSeq).1 self.engine.currentSeq := by
  simp only [resetFromDisk] at h
  split at h
  next hempty =>
      cases h
      refine ⟨(chunksToOps chunks externalProcessSiteId self.nextExternalSiteSeq).2, ?_,
        by rw [List.isEmpty_iff.mp hempty]; rfl⟩
      rw [append_nil]
      rfl
  next =>
      obtain ⟨hproc, happly⟩ := processAndApply_ok h
      exact ⟨_, happly, hproc⟩

end Doc

/-! ## The methods of a peer's document -/

namespace RemoteDoc

/-- The peer's document shows `d`. -/
abbrev Shows (self : RemoteDoc) (d : Seq Char) : Prop :=
  CollabMode.Shows self.engine.internalDoc self.buffer d

theorem applyInstructions_ok {instrs : List EditInstruction} {self self' : RemoteDoc} {u : Unit}
    (h : applyInstructions instrs self = some (.ok u, self')) :
    ∃ buffer, runInstructions instrs self.buffer = some buffer ∧
      self' = { self with buffer } := by
  induction instrs generalizing self with
  | nil =>
      cases h
      exact ⟨_, rfl, rfl⟩
  | cons instr instrs ih =>
      simp only [applyInstructions, applyEditInstructionUnchecked, Option.bind_eq_bind,
        Option.bind_eq_some_iff] at h
      obtain ⟨_, ⟨⟨res, buffer⟩, happly, heq⟩, h⟩ := h
      cases heq
      cases res with
      | error err => cases h
      | ok u =>
          obtain ⟨buffer', hrest, rfl⟩ := ih h
          exact ⟨buffer', by simp [runInstructions, happly, hrest], rfl⟩

theorem applyInstructions_of {instrs : List EditInstruction} {self : RemoteDoc} {buffer : Text}
    (h : runInstructions instrs self.buffer = some buffer) :
    applyInstructions instrs self = some (.ok (), { self with buffer }) := by
  induction instrs generalizing self with
  | nil =>
      cases h
      rfl
  | cons instr instrs ih =>
      simp only [runInstructions] at h
      split at h
      next buffer₁ happly =>
          have hrest := @ih { self with buffer := buffer₁ } h
          simp only [applyInstructions, applyEditInstructionUnchecked, happly, Option.bind_eq_bind,
            Option.bind_some, hrest]
      next => cases h

/-- The engine takes the op, and its instructions give a text of the right length. -/
theorem processEditorOp_of {self : RemoteDoc} {editorOp : EditorFatOp} {engine : ClientEngine}
    {instrs : List EditInstruction} {buffer : Text}
    (hcall : self.engine.processLocalOp editorOp self.nextSiteSeq = some (.ok instrs, engine))
    (hedits : runInstructions instrs self.buffer = some buffer)
    (hlen : buffer.length = engine.editorLen) :
    self.processEditorOp editorOp =
      some (.ok (), { self with nextSiteSeq := self.nextSiteSeq + 1, engine, buffer }) := by
  have hrun := @applyInstructions_of instrs
    { self with nextSiteSeq := self.nextSiteSeq + 1, engine } buffer hedits
  simp only [processEditorOp, hcall, Option.bind_eq_bind, Option.bind_some, hrun,
    verifyBufferEngineSync, checkLen, hlen, ne_eq, not_true_eq_false, if_false]

/-- An accepted op of the editor. -/
theorem processEditorOp_ok {self self' : RemoteDoc} {editorOp : EditorFatOp} {u : Unit}
    (h : self.processEditorOp editorOp = some (.ok u, self')) :
    ∃ ops instrs doc gh engine buffer,
      self.engine.LocalStep editorOp self.nextSiteSeq ops instrs doc gh engine ∧
      runInstructions instrs self.buffer = some buffer ∧
      self' = { self with nextSiteSeq := self.nextSiteSeq + 1, engine, buffer } := by
  simp only [processEditorOp, Option.bind_eq_bind, Option.bind_eq_some_iff] at h
  obtain ⟨⟨res, engine⟩, hlocal, h⟩ := h
  cases res with
  | error err => cases h
  | ok instrs =>
      simp only [Option.bind_eq_some_iff] at h
      obtain ⟨⟨res, self₁⟩, hinstrs, h⟩ := h
      cases res with
      | error err => cases h
      | ok u =>
          obtain ⟨buffer, hrun, rfl⟩ := applyInstructions_ok hinstrs
          obtain ⟨ops, doc, gh, hstep⟩ := ClientEngine.processLocalOp_ok hlocal
          dsimp only at h
          split at h
          · cases h
          · cases h
            exact ⟨ops, instrs, doc, gh, engine, buffer, hstep, hrun, rfl⟩

/-- An op that the server sent was taken. -/
theorem processServerOp_ok {self self' : RemoteDoc} {op : FatOp Op} {leanOps : List EditorLeanOp}
    (h : self.processServerOp op = some (.ok leanOps, self')) :
    op.seq = some (self.engine.currentSeq + 1) ∧
      ((op.site = self.engine.site ∧ ∃ localOp localOps engine,
          self.engine.AckStep op localOp localOps engine ∧ self' = { self with engine }) ∨
        (op.site ≠ self.engine.site ∧ ∃ instr doc engine buffer,
          self.engine.ForeignStep op instr doc engine ∧
          instr.apply self.buffer = some (.ok (), buffer) ∧
          self' = { self with engine, buffer })) := by
  simp only [processServerOp, Option.bind_eq_bind, Option.bind_eq_some_iff] at h
  obtain ⟨⟨res, engine⟩, hremote, h⟩ := h
  cases res with
  | error err => cases h
  | ok r =>
      obtain ⟨hseq, ⟨hsite, rfl, localOp, localOps, hack⟩ | ⟨hsite, instr, doc, hforeign, rfl⟩⟩ :=
        ClientEngine.processRemoteOp_ok hremote
      · cases h
        exact ⟨hseq, Or.inl ⟨hsite, localOp, localOps, engine, hack, rfl⟩⟩
      · simp only [applyEditInstruction, applyEditInstructionUnchecked, Option.bind_eq_bind,
          Option.bind_eq_some_iff] at h
        obtain ⟨⟨res, self₁⟩, ⟨_, ⟨⟨res', buffer⟩, happly, heq⟩, hcheck⟩, h⟩ := h
        cases heq
        cases res' with
        | error err =>
            cases hcheck
            cases h
        | ok u =>
            cases hcheck
            split at h
            · cases h
            · cases h
              exact ⟨hseq, Or.inr ⟨hsite, instr, doc, engine, buffer, hforeign, happly, rfl⟩⟩

end RemoteDoc

/-! ## Changes of other programs -/

theorem numberExternalOps_op (ops : List Op) (n : LocalSeq) :
    (numberExternalOps n ops).map FatOp.op = ops := by
  induction ops generalizing n with
  | nil => rfl
  | cons op ops ih => simp [numberExternalOps, ih]

theorem chunksToOps_op (chunks : List Chunk) (site : SiteId) (nextSeq : LocalSeq) :
    (chunksToOps chunks site nextSeq).1.map FatOp.op = (chunksToRawOps site 0 chunks).reverse :=
  numberExternalOps_op _ _

/-- What a diff of the text is turned into may run on the document, last change
first. -/
theorem chunksToRawOps_ok {site : SiteId} {n pos : Nat} {chunks : List Chunk}
    (hne : ∀ chunk ∈ chunks, chunk.text ≠ [])
    (hlen : pos + (chunks.flatMap Chunk.old).length ≤ n) :
    ∀ op ∈ chunksToRawOps site pos chunks,
      op.InRange n ∧ op.Nonempty ∧ op.Plain ∧ op.site = site := by
  induction chunks generalizing pos with
  | nil =>
      intro op h
      cases h
  | cons chunk chunks ih =>
      intro op h
      have htext := hne chunk (by simp)
      have ih := fun {pos' : Nat} (hle : pos' + (chunks.flatMap Chunk.old).length ≤ n) =>
        ih (fun chunk hc => hne chunk (by simp [hc])) hle
      rw [List.flatMap_cons, List.length_append] at hlen
      cases chunk with
      | equal s => exact ih (by simp only [Chunk.old] at hlen; omega) op h
      | insert s =>
          rcases List.mem_cons.mp h with rfl | h
          · exact ⟨by simp only [Op.InRange]; omega, htext, trivial, rfl⟩
          · exact ih (by omega) op h
      | delete s =>
          simp only [Chunk.old] at hlen
          rcases List.mem_cons.mp h with rfl | h
          · refine ⟨⟨?_, ?_, ?_⟩, trivial, rfl, rfl⟩
            · simpa using show s ≠ [] from htext
            · simp [Ascending]
            · simp only [List.mem_singleton, forall_eq]
              omega
          · exact ih (by omega) op h

theorem Op.InRange.mono {n n' : Nat} {op : Op} (h : op.InRange n) (hle : n ≤ n') :
    op.InRange n' := by
  cases op with
  | ins op s => exact Nat.le_trans h hle
  | mark segs live s =>
      exact ⟨h.nonempty, h.ascending, fun seg hseg => Nat.le_trans (h.le seg hseg) hle⟩

theorem Op.applyItems_length_le (items : List Char) (op : Op) :
    items.length ≤ (op.applyItems items).length := by
  cases op with
  | ins op s => simp [Op.applyItems]
  | mark segs live s => exact Nat.le_refl _

/-- Changes of other programs need only be in range of the first document. -/
theorem allValid_external {items : List Char} {ops : List Op}
    (h : ∀ op ∈ ops, op.InRange items.length ∧ op.Nonempty ∧ op.Plain ∧
      op.site = externalProcessSiteId) : AllValid items ops := by
  induction ops generalizing items with
  | nil => trivial
  | cons op ops ih =>
      obtain ⟨hrange, hne, hplain⟩ := h op (by simp)
      refine ⟨⟨⟨hrange, hne, fun hf => by cases hf⟩, Or.inr hplain⟩, ih fun b hb => ?_⟩
      obtain ⟨hrange', hrest⟩ := h b (by simp [hb])
      exact ⟨hrange'.mono (op.applyItems_length_le items), hrest⟩

/-- The ops for a diff of the text that a document shows. -/
theorem Shows.chunksToOps_valid {doc : InternalDoc} {text : Text} {d : Seq Char}
    (h : Shows doc text d) {chunks : List Chunk} (hold : chunks.flatMap Chunk.old = text)
    (hne : ∀ chunk ∈ chunks, chunk.text ≠ []) (nextSeq : LocalSeq) :
    AllValid d.items ((chunksToOps chunks externalProcessSiteId nextSeq).1.map FatOp.op) := by
  have hlen : text.length ≤ d.items.length := by
    rw [h.text_eq, d.live_length, d.length_eq]
    exact List.count_le_length
  rw [chunksToOps_op]
  refine allValid_external fun op hop => ?_
  exact chunksToRawOps_ok hne (by rw [hold, Nat.zero_add]; exact hlen) op (List.mem_reverse.mp hop)

end CollabMode
