import CollabMode.Marking

/-!
# A redo after an undo

The redo makes the inverses of the marks of the undo, and goes on behind the old tip when the
entry there has the group of the undo (`UndoRecorded.undoEntries`).  So what it restores is what
marks and their inverses restore, and the tip is the old one when nothing comes behind them.

The marks are inverses of whole ops, and cover characters that others have changed since.  They
name the characters that an editor typed or said that it deleted.
-/

namespace CollabMode

open Tombstone

/-! ## What the redo takes -/

namespace GlobalHistory

variable {gh gh' : GlobalHistory} {groupSeq : GroupSeq} {ops : List Op} {new : List (FatOp Op)}
  {t : Nat}

/-- The marks of an undo were recorded before the place `t` of the queue. -/
structure UndoRecorded (gh gh' : GlobalHistory) (groupSeq : GroupSeq) (ops : List Op)
    (new : List (FatOp Op)) (t : Nat) : Prop extends Recorded gh gh' groupSeq ops new where
  marks : ∀ op ∈ ops, op.IsMark
  le : ops.length ≤ t
  queue_eq : ∀ i, gh'.undoQueue[i]? =
    if t - ops.length ≤ i ∧ i < t then some (gh.totalLen + (t - i)) else gh.undoQueue[i]?

/-- The places of the undo, visited forward, give the inverses of its marks, the last mark
first. -/
theorem UndoRecorded.redoes (h : UndoRecorded gh gh' groupSeq ops new t) (rest : List Nat)
    {m : Nat} (hm : m ≤ ops.length) {prev : Option GroupSeq}
    (hprev : prev = none ∨ prev = some groupSeq) :
    (gh'.groupEntries (List.range' (t - m) m ++ rest) prev).map gh'.undone =
      (ops.take m).reverse.map Op.inverse ++
        (gh'.groupEntries rest (if m = 0 then prev else some groupSeq)).map gh'.undone := by
  induction m generalizing prev with
  | zero => rfl
  | succ m ih =>
      have hle := h.le
      have hlen : new.length = ops.length := by rw [← h.ops_eq, List.length_map]
      have hm' : m < new.length := by omega
      -- The entry of this place, and the mark that it leads to.
      have hentry : gh'.undoQueue[t - (m + 1)]? = some (gh.totalLen + m + 1) := by
        rw [h.queue_eq, if_pos ⟨by omega, by omega⟩]
        congr 1
        omega
      have hget : gh'.history[gh.totalLen + m + 1 - 1]? = some new[m] := by
        rw [h.history_eq, Nat.add_sub_cancel, List.getElem?_append_right (by simp),
          history_length, Nat.add_sub_cancel_left, List.getElem?_eq_getElem hm']
      have hnth : gh'.nthInUndoQueue (t - (m + 1)) = some new[m] :=
        nthInUndoQueue_some.mpr ⟨_, hentry, Nat.succ_pos _, hget⟩
      have hgroup : new[m].groupSeq = groupSeq := h.group_eq _ (List.getElem_mem hm')
      have hop : ops[m]? = some new[m].op := by
        rw [← h.ops_eq, List.getElem?_map, List.getElem?_eq_getElem hm']
        rfl
      have hundone : gh'.undone (gh.totalLen + m + 1, new[m]) = new[m].op.inverse := by
        have hlen' : (opsOf gh.history).length = gh.totalLen := by simp
        refine through_marks fun b hb => h.marks b ?_
        rw [h.history_eq, opsOf_append, h.ops_eq, List.drop_append] at hb
        rcases List.mem_append.mp hb with hb | hb
        · rw [List.drop_eq_nil_of_le (by omega)] at hb
          cases hb
        · exact List.mem_of_mem_drop hb
      have hsame : (prev.any fun group => group != new[m].groupSeq) = false := by
        rw [hgroup]
        rcases hprev with rfl | rfl <;> simp
      have hrange : List.range' (t - (m + 1)) (m + 1) = (t - (m + 1)) :: List.range' (t - m) m := by
        rw [List.range'_succ, show t - (m + 1) + 1 = t - m by omega]
      rw [hrange, List.cons_append, groupEntries, hentry, hnth]
      simp only [hsame, Bool.false_eq_true, if_false, List.map_cons, hundone]
      rw [hgroup, ih (Nat.le_of_succ_le hm) (.inr rfl), List.take_add_one, hop]
      simp

/-- Behind them the redo stops, unless the next entry has the group of the undo. -/
theorem UndoRecorded.stops_iff (h : UndoRecorded gh gh' groupSeq ops new t)
    (hentries : ∀ e : Nat, e ∈ gh.undoQueue → 0 < e ∧ e ≤ gh.totalLen) :
    gh'.groupEntries (List.range' t (gh.undoQueue.length - t)) (some groupSeq) = [] ↔
      ∀ op, gh.nthInUndoQueue t = some op → op.groupSeq ≠ groupSeq := by
  rcases Nat.lt_or_ge t gh.undoQueue.length with hlt | hge
  · obtain ⟨n, hn⟩ := Nat.exists_eq_succ_of_ne_zero (Nat.sub_ne_zero_of_lt hlt)
    have hget : gh.undoQueue[t]? = some gh.undoQueue[t] := List.getElem?_eq_getElem hlt
    obtain ⟨hpos, hle⟩ := hentries _ (List.getElem_mem hlt)
    have hplace : gh.undoQueue[t] - 1 < gh.history.length := by
      rw [history_length]
      exact Nat.lt_of_lt_of_le (Nat.sub_lt hpos Nat.one_pos) hle
    have hop := List.getElem?_eq_getElem hplace
    have hnth := nthInUndoQueue_some.mpr ⟨_, hget, hpos, hop⟩
    have hget' : gh'.undoQueue[t]? = some gh.undoQueue[t] := by
      rw [h.queue_eq, if_neg fun hin => Nat.lt_irrefl t hin.2, hget]
    have hnth' := nthInUndoQueue_some.mpr ⟨_, hget', hpos,
      (congrArg (·[gh.undoQueue[t] - 1]?) h.history_eq).trans
        ((List.getElem?_append_left hplace).trans hop)⟩
    rw [hn, List.range'_succ, groupEntries, hget', hnth', hnth]
    by_cases hgroup : gh.history[gh.undoQueue[t] - 1].groupSeq = groupSeq
    · refine iff_of_false ?_ fun hne => hne _ rfl hgroup
      simp [hgroup]
    · refine iff_of_true ?_ fun op heq => by cases heq; exact hgroup
      simp [Ne.symm hgroup]
  · rw [Nat.sub_eq_zero_of_le hge]
    refine iff_of_true rfl fun op hop => ?_
    obtain ⟨seq, hseq, -⟩ := nthInUndoQueue_some.mp hop
    rw [List.getElem?_eq_none hge] at hseq
    cases hseq

/-- What the redo makes. -/
theorem UndoRecorded.undoEntries (h : UndoRecorded gh gh' groupSeq ops new t) (hne : ops ≠ [])
    (ht : t ≤ gh.undoQueue.length) (htip : gh'.undoTip = some (t - ops.length)) :
    (gh'.undoEntries true).map gh'.undone = ops.reverse.map Op.inverse ++
      (gh'.groupEntries (List.range' t (gh.undoQueue.length - t)) (some groupSeq)).map
        gh'.undone := by
  have hle := h.le
  have hplaces : gh'.undoPlaces true = List.range' (t - ops.length) ops.length ++
      List.range' t (gh.undoQueue.length - t) := by
    have hsplit := @List.range'_append_1 (t - ops.length) ops.length (gh.undoQueue.length - t)
    rw [Nat.sub_add_cancel hle] at hsplit
    have hlen : gh'.undoQueue.length - (t - ops.length) =
        ops.length + (gh.undoQueue.length - t) := by
      rw [h.length_eq]
      omega
    rw [undoPlaces, if_pos rfl, htip, hsplit, ← hlen]
  rw [GlobalHistory.undoEntries, hplaces, h.redoes _ (Nat.le_refl _) (.inl rfl), List.take_length,
    if_neg fun hzero => hne (List.eq_nil_of_length_eq_zero hzero)]

end GlobalHistory

namespace ClientEngine

variable {eng eng₁ eng₂ : ClientEngine}

/-- The engine shows what it showed before, whatever the characters are, its tip is the same, and
the instructions of the undo and of the redo give the editor its text back. -/
structure Restores (eng eng' : ClientEngine) (instrs instrs' : List EditInstruction)
    (text : Text) : Prop where
  live : ∀ items : Text, items.length = eng.internalDoc.internalLen →
    liveItems items (flags eng'.internalDoc.ranges) =
      liveItems items (flags eng.internalDoc.ranges)
  tip : eng'.gh.undoTip = eng.gh.undoTip
  text : ∃ text₁, runInstructions instrs text = some text₁ ∧
    runInstructions instrs' text₁ = some text

/-- The marks that the next undo makes. -/
def undoMarks (eng : ClientEngine) : List Op := (eng.gh.undoEntries false).map eng.gh.undone

/-- An undo and then a redo, both in the context of the engine. -/
structure UndoneRedone (eng : ClientEngine) (groupSeq groupSeq' : GroupSeq)
    (instrs : List EditInstruction) (eng₁ : ClientEngine) (instrs' : List EditInstruction)
    (eng₂ : ClientEngine) : Prop where
  undo : eng.processLocalOp ⟨.undo eng.gh.totalLen, groupSeq⟩ (eng.currentSiteSeq + 1) =
    some (.ok instrs, eng₁)
  redo : eng₁.processLocalOp ⟨.redo eng₁.gh.totalLen, groupSeq'⟩ (eng₁.currentSiteSeq + 1) =
    some (.ok instrs', eng₂)

/-- What an undo or a redo does in an engine made at 0. -/
theorem Fed.runs {n : Nat} (h : Fed 0 n eng) (redo : Bool) (groupSeq : GroupSeq) :
    ∃ fatOps instrs doc gh, eng.gh.generateUndoOp1 redo = some fatOps ∧
      opsOf fatOps = (eng.gh.undoEntries redo).map eng.gh.undone ∧
      eng.internalDoc.convertAll (opsOf fatOps) = some (instrs, doc) ∧
      AppliedAll eng.internalDoc (opsOf fatOps) instrs doc ∧
      GlobalHistory.recordOps (EditorOp.undoing redo eng.gh.totalLen).kind
        (eng.currentSiteSeq + 1) groupSeq (opsOf fatOps) eng.gh = some (.ok (), gh) ∧
      eng.processLocalOp ⟨.undoing redo eng.gh.totalLen, groupSeq⟩ (eng.currentSiteSeq + 1) =
        some (.ok instrs,
          { eng with currentSiteSeq := eng.currentSiteSeq + 1, internalDoc := doc, gh }) ∧
      Fed 0 n { eng with currentSiteSeq := eng.currentSiteSeq + 1, internalDoc := doc, gh } := by
  obtain ⟨fatOps, hgen⟩ := Option.isSome_iff_exists.mp
    (GlobalHistory.generateUndoOp1_isSome h.entries h.tip_le redo)
  have hops := GlobalHistory.opsOf_generated hgen
  obtain ⟨instrs, doc, hconv, happlied⟩ := convertAll_of_fits h.doc (h.undone redo)
    fun op hop => (h.undone_own redo op hop).2
  rw [← hops] at hconv happlied
  obtain ⟨new, gh, hcall, hrec, -⟩ := processLocalOp_undoing hgen hconv groupSeq
  refine ⟨fatOps, instrs, doc, gh, hgen, hops, hconv, happlied, hrec, hcall, ?_⟩
  have hhost : eng.HostSound (.processLocalOp ⟨.undoing redo eng.gh.totalLen, groupSeq⟩
      (eng.currentSiteSeq + 1)) := ⟨trivial, trivial⟩
  refine h.after hhost (fun _ hedit => by cases redo <;> exact hedit.elim) ?_
  rw [ClientEngine.after, hcall]
  rfl

/-- The engine after the undo and after the redo, which makes the ops `more` behind the inverses
of the marks. -/
structure RedoneWith (eng eng₁ eng₂ : ClientEngine) (instrs instrs' : List EditInstruction)
    (more : List Op) : Prop where
  undo : eng.internalDoc.convertAll eng.undoMarks = some (instrs, eng₁.internalDoc)
  undo_applied : AppliedAll eng.internalDoc eng.undoMarks instrs eng₁.internalDoc
  redo : eng₁.internalDoc.convertAll (eng.undoMarks.reverse.map Op.inverse ++ more) =
    some (instrs', eng₂.internalDoc)
  redo_applied : AppliedAll eng₁.internalDoc (eng.undoMarks.reverse.map Op.inverse ++ more) instrs'
    eng₂.internalDoc
  tip_iff : eng₂.gh.undoTip = eng.gh.undoTip ↔ more = []

/-- No entry behind the tip has the group. -/
def Ends (eng : ClientEngine) (groupSeq : GroupSeq) : Prop :=
  ∀ op, eng.gh.nthInUndoQueue (eng.gh.undoTip.getD eng.gh.undoQueue.length) = some op →
    op.groupSeq ≠ groupSeq

theorem Fed.redone {n : Nat} (h : Fed 0 n eng) (hne : eng.undoMarks ≠ [])
    (groupSeq groupSeq' : GroupSeq) :
    ∃ instrs eng₁ instrs' eng₂ more, UndoneRedone eng groupSeq groupSeq' instrs eng₁ instrs' eng₂ ∧
      RedoneWith eng eng₁ eng₂ instrs instrs' more ∧ (more = [] ↔ eng.Ends groupSeq) := by
  obtain ⟨fatOps, instrs, doc₁, gh₁, hgen, hops, hconv, happlied, hrec, hcall, hfed₁⟩ :=
    h.runs false groupSeq
  obtain ⟨hle, new, gh', hrec', hnew, htip₁, hqueue⟩ :=
    GlobalHistory.generate_undo hgen (eng.currentSiteSeq + 1) groupSeq
  cases hrec'.symm.trans hrec
  have hops : opsOf fatOps = eng.undoMarks := hops
  have hlen : fatOps.length = eng.undoMarks.length := by rw [← hops, List.length_map]
  rw [hops] at hconv happlied hnew htip₁
  rw [hlen] at hle htip₁ hqueue
  rw [if_neg hne] at htip₁
  obtain ⟨fatOps₂, instrs', doc₂, gh₂, hgen₂, hops₂, hconv₂, happlied₂, hrec₂, hcall₂, -⟩ :=
    hfed₁.runs true groupSeq'
  obtain ⟨new₂, gh', hrec', -, htip₂⟩ :=
    GlobalHistory.generate_redo hgen₂ (eng.currentSiteSeq + 1 + 1) groupSeq'
  cases hrec'.symm.trans hrec₂
  -- The redo makes the inverses, and what stands behind the tip.
  have hundo : GlobalHistory.UndoRecorded eng.gh gh₁ groupSeq eng.undoMarks new
      (eng.gh.undoTip.getD eng.gh.undoQueue.length) :=
    ⟨hnew, fun op hop => (h.undone false op hop).1, hle, hqueue⟩
  have hredo := hundo.undoEntries hne h.tip_le htip₁
  have hends := hundo.stops_iff h.entries
  generalize hmore : gh₁.groupEntries _ _ = entries at hredo hends
  have hops₂ := hops₂.trans hredo
  rw [hops₂] at hconv₂ happlied₂
  refine ⟨instrs, _, instrs', _, entries.map gh₁.undone, ⟨hcall, hcall₂⟩,
    ⟨hconv, happlied, hconv₂, happlied₂, ?_⟩, List.map_eq_nil_iff.trans hends⟩
  -- The tip is where the redo ends.
  have hlen₂ : fatOps₂.length = eng.undoMarks.length + entries.length := by
    have := congrArg List.length hops₂
    simpa using this
  have hpos := List.length_pos_iff.mpr hne
  have hne₂ : opsOf fatOps₂ ≠ [] := fun hnil => by
    have : fatOps₂.length = 0 := by simpa using congrArg List.length hnil
    omega
  have htip₁ : gh₁.undoTip.getD 0 =
      eng.gh.undoTip.getD eng.gh.undoQueue.length - eng.undoMarks.length := by
    rw [htip₁, Option.getD_some]
  rw [if_neg hne₂] at htip₂
  rw [List.map_eq_nil_iff, ← List.length_eq_zero_iff]
  refine (iff_of_eq (congrArg (· = eng.gh.undoTip) (htip₂ : gh₂.undoTip = _))).trans ?_
  rw [htip₁, hlen₂, hnew.length_eq]
  cases htip : eng.gh.undoTip with
  | none =>
      rw [htip, Option.getD_none] at hle hmore
      rw [Nat.sub_self] at hmore
      rw [← hmore, Option.getD_none]
      have hend : eng.gh.undoQueue.length - eng.undoMarks.length + (eng.undoMarks.length + 0) =
          eng.gh.undoQueue.length := by omega
      exact iff_of_true (if_pos hend) rfl
  | some tip =>
      have hlt := h.tip tip htip
      rw [htip, Option.getD_some] at hle
      rw [Option.getD_some]
      constructor
      · intro heq
        split at heq
        next => cases heq
        next =>
            have := Option.some_inj.mp heq
            omega
      · intro hzero
        rw [if_neg (by omega)]
        congr 1
        omega

/-- The live text is what it was when and only when every character that the marks cover was as
the first of them would not have it. -/
theorem RedoneWith.live_iff {eng eng₁ eng₂ : ClientEngine} {instrs instrs' : List EditInstruction}
    (h : RedoneWith eng eng₁ eng₂ instrs instrs' []) (hmarks : ∀ op ∈ eng.undoMarks, op.IsMark)
    {d : Seq Char} (hd : d.flags = flags eng.internalDoc.ranges) :
    (∀ items : Text, items.length = eng.internalDoc.internalLen →
      liveItems items (flags eng₂.internalDoc.ranges) =
        liveItems items (flags eng.internalDoc.ranges)) ↔ Turned d.flags eng.undoMarks := by
  have hflags₂ := h.redo_applied.flags _ (h.undo_applied.flags d hd).symm
  have hlen : (flags eng₂.internalDoc.ranges).length = (flags eng.internalDoc.ranges).length := by
    rw [← InternalDoc.internalLen_eq_flags, ← InternalDoc.internalLen_eq_flags,
      h.redo_applied.length, h.undo_applied.length]
  rw [← replay_inverses_iff hmarks, ← List.append_nil (List.map _ _), ← hflags₂, hd]
  refine ⟨fun hlive => flags_eq_of_live hlen fun items hitems => hlive items ?_,
    fun heq _ _ => by rw [heq]⟩
  rw [hitems, hlen, InternalDoc.internalLen_eq_flags]

/-- Then an editor has its text back when and only when what the redo puts in is what stood
there. -/
theorem RedoneWith.text_iff {eng eng₁ eng₂ : ClientEngine} {instrs instrs' : List EditInstruction}
    (h : RedoneWith eng eng₁ eng₂ instrs instrs' []) (hmarks : ∀ op ∈ eng.undoMarks, op.IsMark)
    {d : Seq Char} (hd : d.flags = flags eng.internalDoc.ranges)
    (hturned : Turned d.flags eng.undoMarks) :
    (∃ text₁, runInstructions instrs d.live = some text₁ ∧
      runInstructions instrs' text₁ = some d.live) ↔ BringsBack d eng.undoMarks := by
  have hflags₁ : (writtenAll d eng.undoMarks).flags = flags eng₁.internalDoc.ranges := by
    rw [writtenAll_flags, h.undo_applied.flags d hd]
  have hundo := h.undo_applied.writes d hd
  have hredo := h.redo_applied.writes _ hflags₁
  rw [List.append_nil] at hredo
  rw [← live_inverses_iff hmarks d hturned, ← Option.some_inj, ← hredo]
  constructor
  · rintro ⟨text₁, hundo', hredo'⟩
    cases hundo'.symm.trans hundo
    exact hredo'
  · exact fun heq => ⟨_, hundo, heq⟩

/-- Site 1 has typed three characters, which have come back from the host. -/
def typedShared : ClientEngine :=
  { gh :=
      { global := [⟨some 1, .ins (0, ['a', 'b', 'c']) 1, 1, .original, 1⟩]
        localOps := []
        undoQueue := [1]
        undoTip := none }
    internalDoc := { ranges := [.live 3], cursors := [(1, ⟨0, 0, none⟩)] }
    site := 1
    currentSeq := 1
    currentSiteSeq := 1
    lastSiteSeqSentOut := 0 }

/-- Site 2 has deleted the second character. -/
def deletedByOther : ClientEngine :=
  { typedShared with
    gh :=
      { typedShared.gh with
        global := typedShared.gh.global ++ [⟨some 2, .mark [(1, ['b'])] false 2, 1, .original, 1⟩] }
    internalDoc := { ranges := [.live 1, .dead 1, .live 1],
                     cursors := [(1, ⟨0, 0, none⟩), (2, ⟨0, 0, some 0⟩)] }
    currentSeq := 2 }

/-- Site 2 has deleted it under another name, and has taken that back. -/
def renamedByOther : ClientEngine :=
  { typedShared with
    gh :=
      { typedShared.gh with
        global := typedShared.gh.global ++
          [⟨some 2, .mark [(1, ['x'])] false 2, 1, .original, 1⟩,
            ⟨some 3, .mark [(1, ['x'])] true 2, 2, .undo 1, 2⟩] }
    internalDoc := { ranges := [.live 3],
                     cursors := [(1, ⟨0, 0, none⟩), (2, ⟨0, 0, some 0⟩)] }
    currentSeq := 3 }

theorem typedShared_reachedWithin : ReachedWithin 0 typedShared := by
  refine ⟨1, InternalDoc.new 0, [.processLocalOp ⟨.ins 0 ['a', 'b', 'c'], 1⟩ 1,
    .processRemoteOp ⟨some 1, .ins (0, ['a', 'b', 'c']) 1, 1, .original, 1⟩],
    InternalDoc.new_ok 0, ⟨⟨⟨trivial, trivial⟩, fun _ _ => by decide⟩, fun t ht => ?_⟩,
    by decide +kernel⟩
  cases ht
  -- The insertion comes back as it was sent.
  have hechoes : ∀ localOp : FatOp Op, [(⟨none, .ins (0, ['a', 'b', 'c']) 1, 1, .original, 1⟩ :
      FatOp Op)].head? = some localOp →
      1 = localOp.siteSeq ∧ .ins (0, ['a', 'b', 'c']) 1 = localOp.op ∧ 1 = localOp.groupSeq := by
    rintro _ hhead
    cases hhead
    exact ⟨rfl, rfl, rfl⟩
  exact ⟨⟨⟨fun _ _ => hechoes, fun _ hne => absurd rfl hne⟩, trivial⟩, fun _ _ => trivial⟩

/-- A mark of site 2 on one character of a document of three. -/
theorem ReachedWithin.marked {eng' : ClientEngine} (h : ReachedWithin 0 eng)
    (hsite : eng.site = 1) (hlocal : eng.gh.localOps = []) (hlen : eng.internalDoc.internalLen = 3)
    (op : FatOp Op) {c : Char} {live : Bool} (hop : op.op = .mark [(1, [c])] live 2)
    (hrun : eng.after (.processRemoteOp op) = some eng') : ReachedWithin 0 eng' := by
  have hother : ¬ op.site = eng.site := by
    rw [FatOp.site, hop, hsite]
    exact fun heq => absurd heq (by decide : ¬ (2 : SiteId) = 1)
  have hrange : SegsInRange eng.internalDoc.internalLen [(1, [c])] := by
    rw [hlen]
    exact ⟨by simp, by simp [Ascending], by simp⟩
  have hhost : eng.HostSound (.processRemoteOp op) := by
    refine ⟨fun _ heq => absurd heq hother, fun _ _ => ?_⟩
    rw [hlocal, hop]
    exact ⟨trivial, hrange⟩
  exact h.after hhost trivial hrun

end ClientEngine

end CollabMode
