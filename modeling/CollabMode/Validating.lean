import CollabMode.Feeding

/-!
# What `process_local_op` checks

`process_local_op` counts the op before it looks at it.  So it leaves the engine as it was only
when it refuses the op for its number, and an op with the right number must be one that it
takes.  It does not check the places of an edit, nor that a deletion deletes something.  What it
takes unchecked leaves a document on which later edits go wrong that are within the text, so
`validates_iff` is about engines that were given none of it (`ReachedWithin`).
-/

namespace CollabMode

namespace ClientEngine

variable {eng : ClientEngine} {editorOp : EditorFatOp} {siteSeq : LocalSeq}

/-- The op has the next number and is an edit within the text, or an undo or a redo in the
context that the engine is in. -/
def Valid (eng : ClientEngine) (editorOp : EditorFatOp) (siteSeq : LocalSeq) : Prop :=
  siteSeq = eng.currentSiteSeq + 1 ∧
    (editorOp.op.Fits eng.editorLen ∨ ∃ redo, editorOp.op = .undoing redo eng.gh.totalLen)

instance (eng : ClientEngine) (editorOp : EditorFatOp) (siteSeq : LocalSeq) :
    Decidable (eng.Valid editorOp siteSeq) :=
  inferInstanceAs (Decidable (_ ∧ (_ ∨ ∃ redo : Bool, editorOp.op = .undoing redo eng.gh.totalLen)))

/-- The call comes back, with no empty range in the document, and when the op is not valid it is
refused and leaves the engine as it was. -/
structure Validates (eng : ClientEngine) (editorOp : EditorFatOp) (siteSeq : LocalSeq) :
    Prop where
  returns : ∃ res eng', eng.processLocalOp editorOp siteSeq = some (res, eng') ∧
    ∀ r ∈ eng'.internalDoc.ranges, r.len ≠ 0
  refuses : ¬ eng.Valid editorOp siteSeq →
    ∃ err, eng.processLocalOp editorOp siteSeq = some (.error err, eng)

/-- What an undo or a redo takes back, carried to the end of the history, lies within the
document. -/
def UndoFits (eng : ClientEngine) (redo : Bool) : Prop :=
  ∀ entry ∈ eng.gh.undoEntries redo, (eng.gh.undone entry).Fits eng.internalDoc.internalLen

theorem Fed.ranges {base : GlobalSeq} {n : Nat} (h : Fed base n eng) :
    ∀ r ∈ eng.internalDoc.ranges, r.len ≠ 0 := fun r hr => Nat.ne_of_gt (h.doc.ranges.pos r hr)

/-- An edit within the text is taken. -/
theorem Fed.takes_edit {base : GlobalSeq} {n : Nat} (h : Fed base n eng)
    (hfits : editorOp.op.Fits eng.editorLen) :
    ∃ instrs eng', eng.processLocalOp editorOp (eng.currentSiteSeq + 1) =
      some (.ok instrs, eng') := by
  obtain ⟨op, groupSeq⟩ := editorOp
  obtain ⟨op', doc', happlied⟩ := InternalDoc.authorApplied_spec h.doc hfits eng.site
  have hmade : ∃ instrs, localOpsOf { eng with currentSiteSeq := eng.currentSiteSeq + 1 } op =
      some (.ok ([op'], instrs),
        { eng with currentSiteSeq := eng.currentSiteSeq + 1, internalDoc := doc' }) := by
    cases op with
    | ins pos text =>
        have hne : text.length ≠ 0 := mt List.eq_nil_of_length_eq_zero hfits.1
        refine ⟨[.ins [⟨pos, text⟩]], ?_⟩
        simp only [localOpsOf, hne, if_false, happlied.run, Option.bind_eq_bind, Option.bind_some]
    | del pos text =>
        have hne : eng.internalDoc.ranges.length ≠ 0 := fun hnil => by
          have hpos := List.length_pos_iff.mpr hfits.1
          have hle : pos + text.length ≤ eng.internalDoc.editorLen := hfits.2
          rw [InternalDoc.editorLen, List.eq_nil_of_length_eq_zero hnil] at hle
          simp only [List.map_nil, List.sum_nil] at hle
          omega
        refine ⟨[.del [⟨pos, text⟩]], ?_⟩
        simp only [localOpsOf, hne, if_false, happlied.run, Option.bind_eq_bind, Option.bind_some]
    | undo context => exact hfits.elim
    | redo context => exact hfits.elim
  obtain ⟨instrs, hmade⟩ := hmade
  have hkind : op.kind = .original := by
    cases op with
    | ins pos text => rfl
    | del pos text => rfl
    | undo context => exact hfits.elim
    | redo context => exact hfits.elim
  have htip : eng.gh.TipFits .original := h.tip_le
  obtain ⟨gh, hrec⟩ : ∃ gh, eng.gh.recordOp .original (eng.currentSiteSeq + 1) groupSeq op' =
      some (.ok (), gh) := by
    obtain ⟨_, -, -, hrec⟩ := GlobalHistory.recordOp_of htip (fun i e hkind => by simp at hkind)
      (eng.currentSiteSeq + 1) groupSeq op'
    exact ⟨_, hrec⟩
  refine ⟨instrs,
    { eng with currentSiteSeq := eng.currentSiteSeq + 1, internalDoc := doc', gh }, ?_⟩
  simp only [processLocalOp, ne_eq, not_true_eq_false, if_false, hmade, Option.bind_eq_bind,
    Option.bind_some, hkind, GlobalHistory.recordOps, hrec]

/-- An undo or a redo is taken when what it takes back fits. -/
theorem Fed.takes_undo {base : GlobalSeq} {n : Nat} (h : Fed base n eng) {redo : Bool}
    (hfits : eng.UndoFits redo) (groupSeq : GroupSeq) :
    ∃ instrs eng', eng.processLocalOp ⟨.undoing redo eng.gh.totalLen, groupSeq⟩
      (eng.currentSiteSeq + 1) = some (.ok instrs, eng') := by
  obtain ⟨fatOps, hgen⟩ := Option.isSome_iff_exists.mp
    (GlobalHistory.generateUndoOp1_isSome h.entries h.tip_le redo)
  have hops := GlobalHistory.opsOf_generated hgen
  obtain ⟨instrs, doc, hconv, -⟩ := convertAll_of_fits h.doc (h.undone redo) fun op hop => by
    obtain ⟨entry, hentry, rfl⟩ := List.mem_map.mp hop
    exact hfits entry hentry
  rw [← hops] at hconv
  obtain ⟨new, gh, hcall, -⟩ := processLocalOp_undoing hgen hconv groupSeq
  exact ⟨instrs, _, hcall⟩

/-- An undo or a redo that did not panic fitted the document. -/
theorem Fed.undoFits_of_returns {base : GlobalSeq} {n : Nat} (h : Fed base n eng) {redo : Bool}
    {groupSeq : GroupSeq} {res : Except EngineError (List EditInstruction)}
    {eng' : ClientEngine} (hcall : eng.processLocalOp ⟨.undoing redo eng.gh.totalLen, groupSeq⟩
      (eng.currentSiteSeq + 1) = some (res, eng')) : eng.UndoFits redo := by
  have hmade := localOpsOf_undoing { eng with currentSiteSeq := eng.currentSiteSeq + 1 } redo
  simp only [processLocalOp, ne_eq, not_true_eq_false, if_false, hmade, Option.bind_eq_bind,
    Option.bind_eq_some_iff, Option.map_eq_some_iff] at hcall
  obtain ⟨-, ⟨fatOps, hgen, ⟨instrs, doc⟩, hconv, -⟩, -⟩ := hcall
  rw [GlobalHistory.opsOf_generated hgen] at hconv
  exact fun entry hentry =>
    fits_of_convertAll h.doc (h.undone redo) hconv _ (List.mem_map_of_mem hentry)

/-- An op that is taken with the next number is validated. -/
theorem Fed.validates_of_takes {base : GlobalSeq} {n : Nat} (h : Fed base n eng)
    (hvalid : editorOp.op.Fits eng.editorLen ∨ ∃ redo, editorOp.op = .undoing redo eng.gh.totalLen)
    (hsound : editorOp.op.IsEdit → editorOp.op.Fits eng.editorLen)
    (htakes : ∃ instrs eng', eng.processLocalOp editorOp (eng.currentSiteSeq + 1) =
      some (.ok instrs, eng')) : eng.Validates editorOp siteSeq := by
  by_cases hseq : siteSeq = eng.currentSiteSeq + 1
  · subst hseq
    obtain ⟨instrs, eng', hcall⟩ := htakes
    have hafter : eng.after (.processLocalOp editorOp (eng.currentSiteSeq + 1)) = some eng' := by
      rw [ClientEngine.after, hcall]
      rfl
    have hhost : eng.HostSound (.processLocalOp editorOp (eng.currentSiteSeq + 1)) :=
      ⟨trivial, trivial⟩
    have hfed' := h.after hhost (fun _ => hsound) hafter
    exact ⟨⟨_, _, hcall, hfed'.ranges⟩, fun hnot => absurd ⟨rfl, hvalid⟩ hnot⟩
  · have hcall : eng.processLocalOp editorOp siteSeq =
        some (.error (.siteSeqMismatch (eng.currentSiteSeq + 1) editorOp.op), eng) := by
      rw [processLocalOp, if_pos hseq]
    exact ⟨⟨_, _, hcall, h.ranges⟩, fun _ => ⟨_, hcall⟩⟩

end ClientEngine

end CollabMode
