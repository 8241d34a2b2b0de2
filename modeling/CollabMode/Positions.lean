import CollabMode.DocRefine
import Mathlib.Order.Bounds.Defs

/-!
# Positions and panics

`convert_pos` starts from a cursor, which should decide how far it has to search and
nothing else.  An editor position has several internal ones when it lies at dead ranges.
The search takes the first of them (`convertPos_least`).  Only a cursor that stands there
already, behind a dead range, is believed without a search (`convertPos_behindDead`).

Wherever the search ends, the loops that insert and mark go on from there without a panic
(`never_panics`).
-/

namespace CollabMode

open Tombstone

/-- The position behind a live character is the first one with that many before it. -/
theorem isLeast_liveBefore {f : List Bool} {q : Nat} (h : f[q]? = some true) :
    IsLeast {q' | liveBefore q' f = liveBefore (q + 1) f} (q + 1) := by
  refine ⟨rfl, fun q' hq' => ?_⟩
  by_contra hlt
  have hle : liveBefore q' f ≤ liveBefore q f := liveBefore_mono (by omega) f
  have heq : liveBefore q' f = liveBefore q f + 1 := hq'.trans (liveBefore_succ h)
  omega

theorem getElem?_flags {pre post : List Range} {r : Range} {i : Nat} (h1 : extent false pre ≤ i)
    (h2 : i < extent false pre + r.len) : (flags (pre ++ r :: post))[i]? = some r.isLive := by
  rw [flags_append, List.getElem?_append_right (by simpa using h1), flags_cons,
    List.getElem?_append_left (by simp; omega), flags_length, List.getElem?_replicate,
    if_pos (by omega)]

namespace InternalDoc

variable {doc : InternalDoc} {c : Cursor} {pos : Nat}

/-- A position in a range, unless it is the beginning of a live range behind a dead one. -/
theorem isLeast_at {pre post : List Range} {r : Range} (hok : RangesOk (pre ++ r :: post))
    (hle : extent true pre ≤ pos) (hpos : pos ≤ extent true pre + r.size true) (hzero : pos ≠ 0)
    (hend : pos = extent true pre → pre = [] ∨ r.isLive = false) :
    IsLeast {q | liveBefore q (flags (pre ++ r :: post)) = pos}
      (extent false pre + (pos - extent true pre)) := by
  have hplace : liveBefore (extent false pre + (pos - extent true pre))
      (flags (pre ++ r :: post)) = pos := by
    rw [liveBefore_flags (by omega) (by have := r.size_le true; omega)]
    cases hr : r.isLive with
    | true => simp; omega
    | false =>
        rw [Range.size_true, r.liveLen_of_dead hr] at hpos
        simp
        omega
  -- The character in front of the place is live.
  obtain ⟨q, hq, hlive⟩ : ∃ q, extent false pre + (pos - extent true pre) = q + 1 ∧
      (flags (pre ++ r :: post))[q]? = some true := by
    by_cases hat : pos = extent true pre
    · rcases hend hat with rfl | hdead
      · exact absurd hat (by simpa using hzero)
      · obtain ⟨pre₀, r₀, rfl⟩ : ∃ pre₀ r₀, pre = pre₀ ++ [r₀] := by
          have hne : pre ≠ [] := by
            rintro rfl
            exact hzero (by simpa using hat)
          exact ⟨pre.dropLast, pre.getLast hne, (List.dropLast_append_getLast _).symm⟩
        have hlen : 0 < r₀.len := hok.pos r₀ (by simp)
        have hr₀ : r₀.isLive = true := by
          have hmeet : r₀.isLive ≠ r.isLive := hok.meet r₀ (by simp) r (by simp)
          rw [hdead] at hmeet
          simpa using hmeet
        refine ⟨extent false pre₀ + r₀.len - 1, by rw [hat, Nat.sub_self]; simp; omega, ?_⟩
        rw [List.append_assoc, List.singleton_append, getElem?_flags (by omega) (by omega), hr₀]
    · have hr : r.isLive = true := by
        by_contra hdead
        rw [Range.size_true, r.liveLen_of_dead (by simpa using hdead)] at hpos
        omega
      have hsize : r.size true = r.len := r.liveLen_of_live hr
      refine ⟨extent false pre + (pos - extent true pre) - 1, by omega, ?_⟩
      rw [getElem?_flags (by omega) (by omega), hr]
  have hleast := isLeast_liveBefore hlive
  rw [← hq, hplace] at hleast
  exact hleast

/-- The cursor stands at `pos`, at the live range behind a dead one. -/
def BehindDead (doc : InternalDoc) (pos : Nat) (c : Cursor) : Prop :=
  0 < pos ∧ c.editorPos = pos ∧ (c.rangeIdx.bind fun i => doc.ranges[i]?).any Range.isLive

instance (doc : InternalDoc) (pos : Nat) (c : Cursor) : Decidable (doc.BehindDead pos c) :=
  inferInstanceAs (Decidable (_ ∧ _ ∧ _))

/-- Any other cursor leads to the first place. -/
theorem convertPos_least (hok : RangesOk doc.ranges) (hc : CursorOk doc.ranges c)
    (hpos : pos ≤ doc.editorLen) (hbehind : ¬ doc.BehindDead pos c) :
    ∃ q c', doc.convertPos pos c true = some (q, c') ∧
      IsLeast {q | liveBefore q (flags doc.ranges) = pos} q := by
  by_cases hzero : pos = 0
  · obtain ⟨q, c', hconv⟩ := convertPos_spec (b := true) hc hpos
    have hq : q = 0 := by
      have hrun := hconv.editor.1
      rw [convertPos, if_pos hzero] at hrun
      split at hrun <;> cases hrun <;> rfl
    refine ⟨q, c', hconv.editor.1, hconv.editor.2, fun q' _ => ?_⟩
    rw [hq]
    exact Nat.zero_le q'
  · by_cases hat : pos = c.pos true
    · rcases hc with rfl | ⟨pre, r, post, hrs, rfl⟩
      · exact absurd hat hzero
      · rw [Cursor.pos_after] at hat
        have hdead : r.isLive = false := by
          by_contra hlive
          refine hbehind ⟨by omega, hat.symm, ?_⟩
          rw [Cursor.after, Option.bind_some, getElem?_split hrs]
          simpa using hlive
        refine ⟨_, _, by rw [convertPos, if_neg hzero, Cursor.pos_after, if_pos hat], ?_⟩
        rw [hrs] at hok ⊢
        have hleast := isLeast_at hok (Nat.le_of_eq hat.symm) (by omega) hzero fun _ => .inr hdead
        rw [hat, Nat.sub_self, Nat.add_zero, ← hat] at hleast
        exact hleast
    · obtain ⟨pre, r, post, hrs, hle, hge, hend, hrun⟩ :=
        convertPos_search (b := true) hc hpos hzero hat
      refine ⟨_, _, hrun, ?_⟩
      rw [hrs] at hok ⊢
      exact isLeast_at hok hle hge hzero (hend rfl)

/-- A cursor behind a dead range leads to the end of that range. -/
theorem convertPos_behindDead (hok : RangesOk doc.ranges) (hc : CursorOk doc.ranges c)
    (hbehind : doc.BehindDead pos c) :
    doc.convertPos pos c true = some (c.internalPos, c) ∧
      ¬ IsLeast {q | liveBefore q (flags doc.ranges) = pos} c.internalPos := by
  obtain ⟨hzero, hat, hlive⟩ := hbehind
  refine ⟨by rw [convertPos, if_neg (by omega)]; exact if_pos hat.symm, fun hleast => ?_⟩
  rcases hc with rfl | ⟨pre, r, post, hrs, rfl⟩
  · exact absurd hat (Nat.ne_of_lt hzero)
  · rw [Cursor.after, Option.bind_some, getElem?_split hrs] at hlive
    have hextent : extent true pre = pos := hat
    rw [hrs] at hok hleast
    obtain ⟨pre₀, r₀, rfl⟩ : ∃ pre₀ r₀, pre = pre₀ ++ [r₀] := by
      have hne : pre ≠ [] := by
        rintro rfl
        exact Nat.ne_of_gt hzero (by simpa using hextent.symm)
      exact ⟨pre.dropLast, pre.getLast hne, (List.dropLast_append_getLast _).symm⟩
    have hlen : 0 < r₀.len := hok.pos r₀ (by simp)
    have hr₀ : r₀.isLive = false := by
      have hmeet : r₀.isLive ≠ r.isLive := hok.meet r₀ (by simp) r (by simp)
      simpa [show r.isLive = true from hlive] using hmeet
    -- The beginning of the dead range has as many live characters before it.
    have hfirst : liveBefore (extent false pre₀) (flags (pre₀ ++ [r₀] ++ r :: post)) = pos := by
      rw [List.append_assoc, List.singleton_append,
        liveBefore_flags (Nat.le_refl _) (Nat.le_add_right _ _)]
      simpa [hr₀, Range.liveLen_of_dead hr₀] using hextent
    have hle : extent false (pre₀ ++ [r₀]) ≤ extent false pre₀ := hleast.2 hfirst
    simp at hle
    omega

/-- From either cursor `convert_pos` leads from `pos` to `q`, the first place with `pos` live
characters before it.  From there it leads back, and from later positions further. -/
structure Determined (doc : InternalDoc) (pos : Nat) (c₁ c₂ : Cursor) (q : Nat)
    (c₁' c₂' : Cursor) : Prop where
  run₁ : doc.convertPos pos c₁ true = some (q, c₁')
  run₂ : doc.convertPos pos c₂ true = some (q, c₂')
  least : IsLeast {q | liveBefore q (flags doc.ranges) = pos} q
  ok₁ : CursorOk doc.ranges c₁'
  ok₂ : CursorOk doc.ranges c₂'
  back : ∀ c, CursorOk doc.ranges c →
    ∃ c', doc.convertPos q c false = some (pos, c') ∧ CursorOk doc.ranges c'
  mono : ∀ pos' c, pos < pos' → pos' ≤ doc.editorLen → CursorOk doc.ranges c →
    ∃ q' c', doc.convertPos pos' c true = some (q', c') ∧ q < q'

theorem convertPos_cursorOk {q : Nat} {c' : Cursor} (hc : CursorOk doc.ranges c)
    (hpos : pos ≤ doc.editorLen) (hrun : doc.convertPos pos c true = some (q, c')) :
    CursorOk doc.ranges c' ∧ q ≤ doc.internalLen ∧ liveBefore q (flags doc.ranges) = pos := by
  obtain ⟨q₀, c₀, hconv⟩ := convertPos_spec (b := true) hc hpos
  cases hrun.symm.trans hconv.editor.1
  exact ⟨hconv.placed.cursorOk, hconv.le, hconv.editor.2⟩

theorem convertPos_back {q : Nat} (hc : CursorOk doc.ranges c) (hle : q ≤ doc.internalLen) :
    ∃ c', doc.convertPos q c false = some (liveBefore q (flags doc.ranges), c') ∧
      CursorOk doc.ranges c' := by
  obtain ⟨q₀, c', hconv⟩ := convertPos_spec (b := false) hc hle
  exact ⟨c', hconv.internal.2, hconv.placed.cursorOk⟩

/-- Later positions lead further, whatever the cursors. -/
theorem convertPos_mono {pos' q q' : Nat} {c₁ c₂ c₁' c₂' : Cursor} (h₁ : CursorOk doc.ranges c₁)
    (h₂ : CursorOk doc.ranges c₂) (hlt : pos < pos') (hle : pos' ≤ doc.editorLen)
    (hrun₁ : doc.convertPos pos c₁ true = some (q, c₁'))
    (hrun₂ : doc.convertPos pos' c₂ true = some (q', c₂')) : q < q' := by
  obtain ⟨-, -, hq⟩ := convertPos_cursorOk h₁ (Nat.le_trans (Nat.le_of_lt hlt) hle) hrun₁
  obtain ⟨-, -, hq'⟩ := convertPos_cursorOk h₂ hle hrun₂
  by_contra hge
  have := liveBefore_mono (Nat.le_of_not_lt hge) (flags doc.ranges)
  omega

/-- The conversion does not depend on the cursors when and only when neither stands behind
a dead range at the very position. -/
theorem determined_iff (h : Reachable doc) {c₁ c₂ : Cursor} (hpos : pos ≤ doc.editorLen)
    (h₁ : CursorOk doc.ranges c₁) (h₂ : CursorOk doc.ranges c₂) :
    (∃ q c₁' c₂', Determined doc pos c₁ c₂ q c₁' c₂') ↔
      ¬ doc.BehindDead pos c₁ ∧ ¬ doc.BehindDead pos c₂ := by
  have hok : RangesOk doc.ranges := h.ok.ranges
  constructor
  · rintro ⟨q, c₁', c₂', hdet⟩
    refine ⟨fun hbehind => ?_, fun hbehind => ?_⟩
    · obtain ⟨hrun, hnot⟩ := convertPos_behindDead hok h₁ hbehind
      cases hrun.symm.trans hdet.run₁
      exact hnot hdet.least
    · obtain ⟨hrun, hnot⟩ := convertPos_behindDead hok h₂ hbehind
      cases hrun.symm.trans hdet.run₂
      exact hnot hdet.least
  · rintro ⟨hbehind₁, hbehind₂⟩
    obtain ⟨q, c₁', hrun₁, hleast₁⟩ := convertPos_least hok h₁ hpos hbehind₁
    obtain ⟨q₂, c₂', hrun₂, hleast₂⟩ := convertPos_least hok h₂ hpos hbehind₂
    obtain rfl : q = q₂ := Nat.le_antisymm (hleast₁.2 hleast₂.1) (hleast₂.2 hleast₁.1)
    obtain ⟨hc₁', hle, hq⟩ := convertPos_cursorOk h₁ hpos hrun₁
    refine ⟨q, c₁', c₂',
      { run₁ := hrun₁
        run₂ := hrun₂
        least := hleast₁
        ok₁ := hc₁'
        ok₂ := (convertPos_cursorOk h₂ hpos hrun₂).1
        back := fun c hc => ?_
        mono := fun pos' c hlt hle' hc => ?_ }⟩
    · rw [← hq]
      exact convertPos_back hc hle
    · obtain ⟨q', c', hconv⟩ := convertPos_spec (b := true) hc hle'
      exact ⟨q', c', hconv.editor.1, convertPos_mono h₁ hc hlt hle' hrun₁ hconv.editor.1⟩

theorem determined_iff_sample :
    (∃ q c₁' c₂', Determined sampleDoc 2 Cursor.unset ⟨0, 1, some 1⟩ q c₁' c₂') ↔
      ¬ sampleDoc.BehindDead 2 Cursor.unset ∧ ¬ sampleDoc.BehindDead 2 ⟨0, 1, some 1⟩ :=
  determined_iff sampleDoc_reachable (by decide) (.inl rfl)
    (.inr ⟨[.dead 1], .live 2, [.dead 1, .live 1], rfl, rfl⟩)

/-- The place between the two characters and the last one, from the beginning of the
document and from the last range. -/
theorem not_determined :
    Reachable sampleDoc ∧ CursorOk sampleDoc.ranges Cursor.unset ∧
      CursorOk sampleDoc.ranges ⟨2, 4, some 3⟩ ∧
      (sampleDoc.convertPos 2 Cursor.unset true).map Prod.fst = some 3 ∧
      (sampleDoc.convertPos 2 ⟨2, 4, some 3⟩ true).map Prod.fst = some 4 ∧
      ¬ ∃ q c₁' c₂', Determined sampleDoc 2 Cursor.unset ⟨2, 4, some 3⟩ q c₁' c₂' := by
  refine ⟨sampleDoc_reachable, .inl rfl,
    .inr ⟨[.dead 1, .live 2, .dead 1], .live 1, [], rfl, rfl⟩, by decide, by decide, ?_⟩
  rintro ⟨q, c₁', c₂', hdet⟩
  have h₁ : q = 3 := congrArg Prod.fst (Option.some.inj (hdet.run₁.symm.trans rfl))
  have h₂ : q = 4 := congrArg Prod.fst (Option.some.inj (hdet.run₂.symm.trans rfl))
  omega

/-! ## Without a panic -/

/-- A cursor that `convert_pos` has just moved to the internal position `p`. -/
def Moved (doc : InternalDoc) (p : Nat) (c : Cursor) : Prop :=
  ∃ c₀, CursorOk doc.ranges c₀ ∧
    ((∃ pos ≤ doc.editorLen, doc.convertPos pos c₀ true = some (p, c)) ∨
      p ≤ doc.internalLen ∧ ∃ pos, doc.convertPos p c₀ false = some (pos, c))

theorem Moved.placed {p : Nat} (h : doc.Moved p c) : Placed doc.ranges p c := by
  obtain ⟨c₀, hc₀, ⟨pos, hpos, hrun⟩ | ⟨hle, pos, hrun⟩⟩ := h
  · obtain ⟨q, c', hconv⟩ := convertPos_spec (b := true) hc₀ hpos
    cases hrun.symm.trans hconv.editor.1
    exact hconv.placed
  · obtain ⟨q, c', hconv⟩ := convertPos_spec (b := false) hc₀ hle
    obtain ⟨rfl, hrun'⟩ := hconv.internal
    cases hrun.symm.trans hrun'
    exact hconv.placed

/-- On a document that satisfies the invariant nothing that is in range panics: not the
conversion of a position, not an insertion or a mark at the place it leads to, and not an
operation as a whole, of one segment or of many.  The operations keep the invariant. -/
theorem never_panics (h : DocOk doc) :
    (∀ editorPos pos c, CursorOk doc.ranges c →
      pos ≤ (if editorPos then doc.editorLen else doc.internalLen) →
        (doc.convertPos pos c editorPos).isSome) ∧
    (∀ p c, doc.Moved p c →
      (∀ len, 0 < len → (doc.applyIns p len c).isSome) ∧
      (∀ len, 0 < len → p + len ≤ doc.internalLen →
        (doc.applyMarkDead p len c).isSome ∧ (doc.applyMarkLive p len c).isSome) ∧
      (∀ text acc live, text ≠ [] → p + text.length ≤ doc.internalLen →
        (doc.markToInsOrDel p text c acc live).isSome)) ∧
    (∀ (op : EditorOp) site, op.Fits doc.editorLen →
      ∃ op' doc', doc.convertEditorOpAndApply op site = some (op', doc') ∧ DocOk doc') ∧
    (∀ op : Op, op.Fits doc.internalLen →
      ∃ instr doc', doc.convertInternalOpAndApply op = some (instr, doc') ∧ DocOk doc') := by
  refine ⟨fun editorPos pos c hc hpos => ?_, fun p c hmoved => ⟨fun len hlen => ?_,
    fun len hlen hle => ⟨?_, ?_⟩, fun text acc live htext hle => ?_⟩, fun op site hop => ?_,
    fun op hop => ?_⟩
  · have hle : pos ≤ extent editorPos doc.ranges := by cases editorPos <;> exact hpos
    obtain ⟨q, c', hconv⟩ := convertPos_spec hc hle
    rw [hconv.run]
    rfl
  · obtain ⟨c', doc', hrun, _⟩ := applyIns_spec len h.ranges h.cursors hmoved.placed
    rw [hrun]
    rfl
  · obtain ⟨c', doc', hrun, _⟩ :=
      applyMark_spec false h.ranges h.cursors hmoved.placed hlen hle
    rw [applyMarkDead, hrun]
    rfl
  · obtain ⟨c', doc', hrun, _⟩ :=
      applyMark_spec true h.ranges h.cursors hmoved.placed hlen hle
    rw [applyMarkLive, hrun]
    rfl
  · rw [markToInsOrDel_spec live acc h.ranges hmoved.placed htext hle]
    rfl
  · obtain ⟨d, hd⟩ := exists_seq (flags doc.ranges)
    obtain ⟨op', doc', happlied⟩ := convertEditorOpAndApply_spec h hop site d hd
    exact ⟨op', doc', happlied.run, happlied.ok⟩
  · obtain ⟨d, hd⟩ := exists_seq (flags doc.ranges)
    obtain ⟨doc', hrun, _, hok⟩ := convertInternalOpAndApply_spec h (Or.inr hop) d hd
    exact ⟨_, doc', hrun, hok (Op.Fits.nonempty hop)⟩

theorem never_panics_sample :
    DocOk sampleDoc ∧ (sampleDoc.applyMarkLive 0 5 ⟨0, 0, some 0⟩).isSome ∧
      ∃ instr doc', sampleDoc.convertInternalOpAndApply
        (.mark [(3, ['b']), (0, ['a', 'x', 'y', 'b'])] true 7) = some (instr, doc') ∧
          DocOk doc' := by
  obtain ⟨-, hmoved, -, hinternal⟩ := never_panics sampleDoc_reachable.ok
  have hplace : sampleDoc.Moved 0 ⟨0, 0, some 0⟩ :=
    ⟨Cursor.unset, .inl rfl, .inl ⟨0, Nat.zero_le _, rfl⟩⟩
  exact ⟨sampleDoc_reachable.ok, ((hmoved _ _ hplace).2.1 5 (by decide) (by decide)).2,
    hinternal _ (by decide)⟩

end InternalDoc

end CollabMode
