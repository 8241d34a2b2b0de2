import CollabMode.Feeding

/-!
# The preview of an undo

The editor asks for the ops of the next undo, applies them to its text, and sends the undo
with the context it was told, the length of the history.  Nothing that changes what an undo
generates leaves that length as it is.  An op of the editor or of another site makes the
history longer, and an acknowledgement only moves an op from one part of it to the other
(`after_same`).

So the undo makes the edits of the preview.  That they give the editor as many characters as the
engine counts holds as long as the editor's edits have been within its text.
-/

namespace CollabMode

/-- What an undo looks at in an op of the history. -/
def undoKey (op : FatOp Op) : Op × GroupSeq := (op.op, op.groupSeq)

/-- The two histories are the same to an undo. -/
structure SameUndo (gh gh' : GlobalHistory) : Prop where
  history : gh'.history.map undoKey = gh.history.map undoKey
  queue : gh'.undoQueue = gh.undoQueue
  tip : gh'.undoTip = gh.undoTip

namespace SameUndo

variable {gh gh' gh'' : GlobalHistory}

theorem rfl' : SameUndo gh gh := ⟨rfl, rfl, rfl⟩

theorem trans (h : SameUndo gh gh') (h' : SameUndo gh' gh'') : SameUndo gh gh'' :=
  ⟨h'.history.trans h.history, h'.queue.trans h.queue, h'.tip.trans h.tip⟩

theorem opsOf_eq (h : SameUndo gh gh') : opsOf gh'.history = opsOf gh.history := by
  have := congrArg (List.map Prod.fst) h.history
  rw [List.map_map, List.map_map] at this
  exact this

theorem totalLen_eq (h : SameUndo gh gh') : gh'.totalLen = gh.totalLen := by
  have := congrArg List.length h.history
  simpa using this

theorem nth_eq (h : SameUndo gh gh') (i : Nat) :
    (gh'.nthInUndoQueue i).map undoKey = (gh.nthInUndoQueue i).map undoKey := by
  have hnth (gh : GlobalHistory) : (gh.nthInUndoQueue i).map undoKey =
      gh.undoQueue[i]?.bind fun seq =>
        if 0 < seq then (gh.history.map undoKey)[seq - 1]? else none := by
    ext key
    simp only [Option.map_eq_some_iff, GlobalHistory.nthInUndoQueue_some, Option.bind_eq_some_iff,
      List.getElem?_map]
    constructor
    · rintro ⟨op, ⟨seq, hseq, hpos, hget⟩, rfl⟩
      exact ⟨seq, hseq, by rw [if_pos hpos, hget]; rfl⟩
    · rintro ⟨seq, hseq, hget⟩
      split at hget
      next hpos =>
          obtain ⟨op, hop, rfl⟩ := Option.map_eq_some_iff.mp hget
          exact ⟨op, ⟨seq, hseq, hpos, hop⟩, rfl⟩
      next => cases hget
  rw [hnth, hnth, h.queue, h.history]

theorem allOpsAfter_eq (h : SameUndo gh gh') (seq : GlobalSeq) :
    (gh'.allOpsAfter seq).map opsOf = (gh.allOpsAfter seq).map opsOf := by
  have hafter (gh : GlobalHistory) : (gh.allOpsAfter seq).map opsOf =
      if seq ≤ gh.totalLen then some ((opsOf gh.history).drop seq) else none := by
    ext ops
    simp only [Option.map_eq_some_iff, GlobalHistory.allOpsAfter_some]
    constructor
    · rintro ⟨_, ⟨hle, rfl⟩, rfl⟩
      rw [if_pos hle, opsOf_drop]
    · intro hget
      split at hget
      next hle =>
          cases hget
          exact ⟨_, ⟨hle, rfl⟩, opsOf_drop ..⟩
      next => cases hget
  rw [hafter, hafter, h.totalLen_eq, h.opsOf_eq]

theorem generateLoop_eq (h : SameUndo gh gh') (places : List Nat) (prev : Option GroupSeq)
    {ops ops' : List (FatOp Op)} (hops : opsOf ops' = opsOf ops) :
    (gh'.generateUndoLoop places prev ops').map opsOf =
      (gh.generateUndoLoop places prev ops).map opsOf := by
  induction places generalizing prev ops ops' with
  | nil => exact congrArg some hops
  | cons i places ih =>
      simp only [GlobalHistory.generateUndoLoop]
      have hnth := h.nth_eq i
      cases hop' : gh'.nthInUndoQueue i with
      | none =>
          rw [hop', Option.map_none, eq_comm, Option.map_eq_none_iff] at hnth
          rw [hnth]
          rfl
      | some op' =>
          rw [hop', Option.map_some, eq_comm, Option.map_eq_some_iff] at hnth
          obtain ⟨op, hop, hkey⟩ := hnth
          obtain ⟨hopeq, hgroup⟩ := Prod.mk.inj hkey
          obtain ⟨seq, hseq, -, -⟩ := GlobalHistory.nthInUndoQueue_some.mp hop
          simp only [hop, h.queue, hseq, hgroup, Option.bind_eq_bind, Option.bind_some]
          split
          · exact congrArg some hops
          · have hbase := h.allOpsAfter_eq seq
            cases hbase' : gh'.allOpsAfter seq with
            | none =>
                rw [hbase', Option.map_none, eq_comm, Option.map_eq_none_iff] at hbase
                rw [hbase]
                rfl
            | some base' =>
                rw [hbase', Option.map_some, eq_comm, Option.map_eq_some_iff] at hbase
                obtain ⟨base, hbase, hbeq⟩ := hbase
                rw [hbase]
                refine ih (some op'.groupSeq) ?_
                have hinv : op'.inverse.op = op.inverse.op := congrArg Op.inverse hopeq.symm
                rw [opsOf_append, opsOf_append, hops]
                refine congrArg (opsOf ops ++ ·) (congrArg (fun op => [op]) ?_)
                rw [FatOp.op_batchTransform, FatOp.op_batchTransform, opsOf_append, opsOf_append,
                  hops, hbeq, hinv]

/-- An undo makes the same ops. -/
theorem generate_eq (h : SameUndo gh gh') (redo : Bool) :
    (gh'.generateUndoOp1 redo).map opsOf = (gh.generateUndoOp1 redo).map opsOf := by
  have hplaces : gh'.undoPlaces redo = gh.undoPlaces redo := by
    rw [GlobalHistory.undoPlaces, GlobalHistory.undoPlaces, h.queue, h.tip]
  rw [GlobalHistory.generateUndoOp1, GlobalHistory.generateUndoOp1, hplaces]
  exact h.generateLoop_eq _ none rfl

end SameUndo

namespace ClientEngine

variable {eng eng' : ClientEngine}

/-- The engines are the same to an undo. -/
def Same (eng eng' : ClientEngine) : Prop :=
  SameUndo eng.gh eng'.gh ∧ eng'.internalDoc = eng.internalDoc

theorem Same.refl (eng : ClientEngine) : Same eng eng := ⟨SameUndo.rfl', rfl⟩

/-- A call makes the history longer, or changes nothing that an undo looks at. -/
theorem after_same {call : Call} (hechoes : eng.Echoes call) (hrun : eng.after call = some eng') :
    eng.gh.totalLen < eng'.gh.totalLen ∨ Same eng eng' := by
  cases call with
  | processLocalOp editorOp siteSeq =>
      obtain ⟨⟨res, eng₁⟩, hcall, heq⟩ := Option.map_eq_some_iff.mp hrun
      obtain rfl : eng₁ = eng' := heq
      obtain ⟨op, groupSeq⟩ := editorOp
      rcases processLocalOp_cases hcall with ⟨-, -, rfl⟩ | ⟨-, ⟨-, -, rfl⟩ |
        ⟨instrs, ops, doc, gh, -, -, hmakes, hrec, rfl⟩⟩
      · exact .inr (Same.refl _)
      · exact .inr (Same.refl _)
      · cases ops with
        | nil =>
            -- There was nothing to undo.
            cases hrec
            cases hmakes with
            | undo redo _ hconv =>
                cases hconv
                exact .inr (Same.refl _)
        | cons op ops =>
            obtain ⟨hglobal, new, hlocal, hnew, -⟩ := GlobalHistory.recordOps_ok hrec
            have hlen := congrArg List.length hnew
            simp only [List.length_map, List.length_cons] at hlen
            refine .inl ?_
            simp only [GlobalHistory.totalLen, hglobal, hlocal, List.length_append, hlen]
            omega
  | processRemoteOp op =>
      obtain ⟨⟨res, eng₁⟩, hcall, heq⟩ := Option.map_eq_some_iff.mp hrun
      obtain rfl : eng₁ = eng' := heq
      rcases processRemoteOp_cases hechoes hcall with ⟨-, rfl⟩ |
        ⟨-, localOp, localOps, hop, hgroup, hlocal, -, -, rfl⟩ | ⟨-, -, instr, doc, -, rfl⟩
      · exact .inr (Same.refl _)
      · refine .inr ⟨⟨?_, rfl, rfl⟩, rfl⟩
        have hkey : undoKey op = undoKey localOp := by rw [undoKey, undoKey, hop, hgroup]
        simp [GlobalHistory.history, hlocal, hkey]
      · refine .inl ?_
        have hlen : (bumpUndoDeltas 0 (Grid.past FatOp.transform op eng.gh.localOps)).length =
            eng.gh.localOps.length := by
          have := congrArg List.length (map_bumpUndoDeltas (f := FatOp.op) (fun _ _ => rfl) 0
            (Grid.past FatOp.transform op eng.gh.localOps))
          simpa using this
        simp only [GlobalHistory.totalLen, List.length_append, List.length_singleton, hlen]
        omega
  | maybePackageLocalOps doc =>
      cases hrun
      rw [maybePackageLocalOps_eq]
      refine .inr ?_
      split
      · split <;> exact Same.refl _
      · exact Same.refl _

/-- When the length has not changed, nothing has that an undo looks at. -/
theorem run_same {calls : List Call} (hechoes : Run.Meets after Echoes eng calls)
    (hrun : Run.run after eng calls = some eng') :
    eng.gh.totalLen < eng'.gh.totalLen ∨ Same eng eng' := by
  have hstep (eng₁ : ClientEngine) (call : Call) (eng₂ : ClientEngine)
      (h : eng.gh.totalLen < eng₁.gh.totalLen ∨ Same eng eng₁) (hcall : eng₁.Echoes call)
      (hstep : eng₁.after call = some eng₂) :
      eng.gh.totalLen < eng₂.gh.totalLen ∨ Same eng eng₂ := by
    rcases after_same hcall hstep with hlt | ⟨hgh, hdoc⟩ <;> rcases h with hlt₁ | ⟨hgh₁, hdoc₁⟩
    · exact .inl (Nat.lt_trans hlt₁ hlt)
    · exact .inl (hgh₁.totalLen_eq ▸ hlt)
    · exact .inl (hgh.totalLen_eq ▸ hlt₁)
    · exact .inr ⟨hgh₁.trans hgh, hdoc.trans hdoc₁⟩
  exact Run.invariant hstep (.inr (Same.refl _)) hechoes hrun

/-- The engine `eng'` does the undo that `eng` previewed.  It makes the edits of the preview, in
their order.  An editor that has applied them to its text has the text of the document, and
that is as long as the engine counts. -/
def DoesAsPreviewed (eng eng' : ClientEngine) (redo : Bool) (instrs : List EditInstruction)
    (context : Nat) (groupSeq : GroupSeq) : Prop :=
  eng'.internalDoc = eng.internalDoc ∧ ∃ eng'',
    eng'.processLocalOp ⟨.undoing redo context, groupSeq⟩ (eng'.currentSiteSeq + 1) =
      some (.ok instrs, eng'') ∧
    ∀ rd : RemoteDoc, rd.engine = eng' → rd.nextSiteSeq = eng'.currentSiteSeq + 1 →
      rd.buffer.length = eng.editorLen → ∃ text, runInstructions instrs rd.buffer = some text ∧
        text.length = eng''.editorLen ∧
        rd.processEditorOp ⟨.undoing redo context, groupSeq⟩ = some (.ok (),
          { rd with nextSiteSeq := rd.nextSiteSeq + 1, engine := eng'', buffer := text })

end ClientEngine

end CollabMode
