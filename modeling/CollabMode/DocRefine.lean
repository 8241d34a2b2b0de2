import CollabMode.DocMark
import CollabMode.OpSemantics

/-!
# The internal document refines a flagged list

`DocOk` is the invariant of an internal document, and `Reachable` the documents
that its two operations make of a new one.  On such a document the operations
succeed on everything that fits, keep the invariant, and do to the flags what
`Op.apply` does.  The edit instruction that comes back turns the old live text
into the new one.
-/

namespace CollabMode

open Tombstone

/-- The representation invariant. -/
structure DocOk (doc : InternalDoc) : Prop where
  ranges : RangesOk doc.ranges
  cursors : AssocMap.AllVals (CursorOk doc.ranges) doc.cursors

/-- A non-empty edit within `n` characters of the editor. -/
def EditorOp.Fits (n : Nat) : EditorOp → Prop
  | .ins pos content => content ≠ [] ∧ pos ≤ n
  | .del pos content => content ≠ [] ∧ pos + content.length ≤ n
  | .undo _ => False
  | .redo _ => False

instance (n : Nat) (op : EditorOp) : Decidable (op.Fits n) :=
  match op with
  | .ins pos content => inferInstanceAs (Decidable (content ≠ [] ∧ pos ≤ n))
  | .del pos content => inferInstanceAs (Decidable (content ≠ [] ∧ pos + content.length ≤ n))
  | .undo _ => isFalse id
  | .redo _ => isFalse id

/-- The characters an editor's operation names are the ones it deletes. -/
def EditorOp.Matches (live : Text) : EditorOp → Prop
  | .ins _ _ => True
  | .del pos content => (live.drop pos).take content.length = content
  | .undo _ => True
  | .redo _ => True

/-- The live text after an editor's operation. -/
def EditorOp.applyText (text : Text) : EditorOp → Text
  | .ins pos content => insertAt pos content text
  | .del pos content => text.take pos ++ text.drop (pos + content.length)
  | .undo _ => text
  | .redo _ => text

/-- A non-empty operation within `n` characters.  Segments may come in any
order and overlap. -/
def Op.Fits (n : Nat) : Op → Prop
  | .ins (pos, text) _ => text ≠ [] ∧ pos ≤ n
  | .mark segs _ _ => ∀ seg ∈ segs, seg.2 ≠ [] ∧ seg.1 + seg.2.length ≤ n

instance (n : Nat) (op : Op) : Decidable (op.Fits n) :=
  match op with
  | .ins (pos, text) _ => inferInstanceAs (Decidable (text ≠ [] ∧ pos ≤ n))
  | .mark segs _ _ =>
      inferInstanceAs (Decidable (∀ seg ∈ segs, seg.2 ≠ [] ∧ seg.1 + seg.2.length ≤ n))

/-- The documents made from a new one by operations that fit. -/
inductive InternalDoc.Reachable : InternalDoc → Prop where
  | new (initLen : Nat) : Reachable (InternalDoc.new initLen)
  | editor {doc doc' : InternalDoc} {op : EditorOp} {site : SiteId} {op' : Op} :
      Reachable doc → op.Fits doc.editorLen →
      doc.convertEditorOpAndApply op site = some (op', doc') → Reachable doc'
  | internal {doc doc' : InternalDoc} {op : Op} {instr : EditInstruction} :
      Reachable doc → op.Fits doc.internalLen →
      doc.convertInternalOpAndApply op = some (instr, doc') → Reachable doc'

namespace InternalDoc

theorem new_ok (initLen : Nat) : DocOk (InternalDoc.new initLen) := by
  unfold InternalDoc.new
  split
  next h => exact ⟨RangesOk.singleton h, AssocMap.AllVals_nil _⟩
  next => exact ⟨RangesOk.nil, AssocMap.AllVals_nil _⟩

/-! ## Converting a mark -/

section Convert

variable {live : Bool}

/-- The edits for the flipped parts `fl` of one segment. -/
def capture (rs : List Range) (beg : Nat) (text : Text) (fl : List (Nat × Nat)) :
    List (Nat × Text) :=
  fl.map fun f => (liveBefore f.1 (flags rs), (text.drop (f.1 - beg)).take f.2)

/-- The edits for one segment of a mark. -/
def segEdits (rs : List Range) (live : Bool) (seg : Nat × Text) : List (Nat × Text) :=
  capture rs seg.1 seg.2 (overlaps live seg.1 (seg.1 + seg.2.length) 0 rs)

/-- A range emits an edit when the mark flips a part of it. -/
theorem captureRange_spec (live : Bool) (ab ae : Nat) (acc : List (Nat × Text))
    {rs P Q : List Range} {r : Range} {text : Text} {beg : Nat} (hrs : rs = P ++ r :: Q)
    (hpos : 0 < r.len) (ht : 0 < text.length) (hlt : extent false P < beg + text.length) :
    captureRange text live beg (beg + text.length) (.atRange ab ae P r) acc =
      some (acc ++ capture rs beg text
        (overlaps live beg (beg + text.length) (extent false P) [r])) := by
  have hlive : ∀ p, extent false P ≤ p → p ≤ extent false P + r.len →
      liveBefore p (flags rs) = extent true P + if r.isLive then p - extent false P else 0 := by
    intro p h1 h2
    rw [hrs]
    exact liveBefore_flags h1 h2
  unfold captureRange
  by_cases hr : live = r.isLive
  · rw [overlaps_target hr.symm]
    simp [hr, capture]
  · by_cases hbeg : extent false P + r.len ≤ beg
    · have h1 : ¬ beg < extent false P + r.len := by omega
      have h2 : ¬ beg + text.length ≤ extent false P + r.len := by omega
      have h3 : ¬ extent false P > beg := by omega
      rw [overlaps_of_le_beg hbeg]
      simp [h1, h2, h3, capture]
    · have hone : overlaps live beg (beg + text.length) (extent false P) [r] =
          [(max (extent false P) beg,
            min (extent false P + r.len) (beg + text.length) - max (extent false P) beg)] := by
        have hover : max (extent false P) beg <
            min (extent false P + r.len) (beg + text.length) := by omega
        rw [overlaps, if_pos ⟨fun h => hr h.symm, hover⟩]
        rfl
      rw [hone]
      by_cases hle : extent false P ≤ beg
      · -- The mark begins in this range.
        have hmax : max (extent false P) beg = beg := by omega
        have h1 : beg < extent false P + r.len := by omega
        have h2 : beg ≤ min (extent false P + r.len) (beg + text.length) := by omega
        refine (if_pos ⟨hr, hle, h1⟩).trans ?_
        rw [hmax]
        simp only [RangeIterator.atRange_isLive, RangeIterator.atRange_rangeBeg,
          RangeIterator.atRange_rangeEnd, RangeIterator.atRange_editorRangeBeg, capture,
          List.map_cons, List.map_nil, hlive beg hle (by omega), sub?, h2, if_true,
          Option.bind_eq_bind, Option.bind_some, Nat.zero_le, hle, Nat.sub_zero, Nat.sub_self]
        by_cases hl : r.isLive = true <;> simp [hl]
      · have hmax : max (extent false P) beg = extent false P := by omega
        refine (if_neg (fun h => hle h.2.1)).trans ?_
        rw [hmax]
        simp only [capture, List.map_cons, List.map_nil,
          hlive _ (Nat.le_refl _) (Nat.le_add_right _ _), Nat.sub_self, ite_self, Nat.add_zero]
        by_cases hend : beg + text.length ≤ extent false P + r.len
        · -- The mark ends in this range.
          have h1 : extent false P ≤ beg + text.length := by omega
          have h2 : beg ≤ extent false P := by omega
          have h3 : extent false P - beg ≤ text.length := by omega
          have h4 : text.length - (extent false P - beg) =
              min (extent false P + r.len) (beg + text.length) - extent false P := by omega
          refine (if_pos ⟨hr, h1, hend⟩).trans ?_
          simp only [RangeIterator.atRange_rangeBeg, RangeIterator.atRange_editorRangeBeg, hmax,
            sub?, h2, h3, if_true, Option.bind_eq_bind, Option.bind_some, h4]
        · have h1 : extent false P > beg := by omega
          have h2 : extent false P + r.len ≤ beg + text.length := by omega
          have h3 : beg ≤ extent false P := by omega
          have h4 : beg ≤ extent false P + r.len := by omega
          have h5 : extent false P - beg ≤ extent false P + r.len - beg := by omega
          have h6 : extent false P + r.len - beg - (extent false P - beg) =
              min (extent false P + r.len) (beg + text.length) - extent false P := by omega
          refine (if_neg (fun h => hend h.2.2)).trans ((if_pos ⟨hr, h1, h2⟩).trans ?_)
          simp only [RangeIterator.atRange_rangeBeg, RangeIterator.atRange_rangeEnd,
            RangeIterator.atRange_editorRangeBeg, sub?, h3, h4, h5, if_true, Option.bind_eq_bind,
            Option.bind_some, h6]

/-- The loop emits an edit for each range that the mark flips a part of. -/
theorem markToInsOrDelLoop_spec (live : Bool) (ab ae : Nat) {doc : InternalDoc} {text : Text}
    {beg : Nat} (hok : RangesOk doc.ranges) (ht : 0 < text.length) (fuel : Nat) :
    ∀ (P : List Range) (r : Range) (Q : List Range) (acc : List (Nat × Text)),
      doc.ranges = P ++ r :: Q → extent false P < beg + text.length → Q.length < fuel →
      doc.markToInsOrDelLoop text live beg (beg + text.length) fuel (.atRange ab ae P r) acc =
        some (acc ++ capture doc.ranges beg text
          (overlaps live beg (beg + text.length) (extent false P) (r :: Q))) := by
  induction fuel with
  | zero => intro P r Q acc _ _ hfuel; omega
  | succ fuel ih =>
      intro P r Q acc hrs hlt hfuel
      have hpos : 0 < r.len := by
        rw [hrs] at hok
        exact hok.pos r (by simp)
      have hhead := captureRange_spec live ab ae acc hrs hpos ht hlt
      have hsplit : overlaps live beg (beg + text.length) (extent false P) (r :: Q) =
          overlaps live beg (beg + text.length) (extent false P) [r] ++
            overlaps live beg (beg + text.length) (extent false P + r.len) Q := by
        rw [show r :: Q = [r] ++ Q from rfl, overlaps_append]
        simp
      rw [markToInsOrDelLoop, hhead, hsplit]
      simp only [Option.bind_eq_bind, Option.bind_some, RangeIterator.atRange_rangeIdx]
      cases Q with
      | nil =>
          have hlast : P.length + 1 = doc.ranges.length := by simp [hrs]
          refine (if_pos hlast).trans ?_
          simp [overlaps]
      | cons r' Q' =>
          have hmore : ¬ P.length + 1 = doc.ranges.length := by simp [hrs]
          have hbeg : extent false (P ++ [r]) = extent false P + r.len := by simp
          refine (if_neg hmore).trans ?_
          rw [RangeIterator.moveRight_at hrs, ← hbeg]
          by_cases hend : extent false (P ++ [r]) ≥ beg + text.length
          · refine (if_pos hend).trans ?_
            rw [overlaps_of_end_le hend]
            simp
          · refine (if_neg hend).trans ?_
            rw [ih (P ++ [r]) r' Q' _ (by simp [hrs]) (by omega) (by simp at hfuel; omega)]
            simp [capture]

theorem markToInsOrDel_spec (live : Bool) (acc : List (Nat × Text)) {doc : InternalDoc}
    {pos : Nat} {text : Text} {c : Cursor} (hok : RangesOk doc.ranges)
    (hc : Placed doc.ranges pos c) (ht : text ≠ [])
    (hle : pos + text.length ≤ extent false doc.ranges) :
    doc.markToInsOrDel pos text c acc live =
      some (acc ++ segEdits doc.ranges live (pos, text)) := by
  have hlen : 0 < text.length := List.length_pos_iff.mpr ht
  rcases hc with ⟨P, r, Q, hrs, rfl, hP, _⟩ | ⟨hnil, _, _⟩
  · have hfuel : Q.length < doc.ranges.length := by simp [hrs]; omega
    have hbefore : overlaps live pos (pos + text.length) 0 P = [] := by
      refine List.eq_nil_iff_forall_not_mem.mpr fun f hf => ?_
      have := mem_overlaps hf
      omega
    have hlt : extent false P < pos + text.length := by omega
    have hloop := markToInsOrDelLoop_spec live P.length (P.length + 1) hok hlen doc.ranges.length
      P r Q acc hrs hlt hfuel
    rw [markToInsOrDel, if_neg (by omega), RangeIterator.new_after hrs]
    simp only [Option.bind_eq_bind, Option.bind_some]
    rw [hloop, segEdits]
    congr 3
    conv_rhs => rw [hrs, overlaps_append, hbefore, List.nil_append, Nat.zero_add]
  · rw [hnil, extent_nil] at hle
    omega

/-- All segments are converted on the old document. -/
theorem convertSegs_spec (live : Bool) {doc : InternalDoc} (hok : RangesOk doc.ranges)
    (segs : List (Nat × Text)) :
    ∀ (c : Cursor) (acc : List (Nat × Text)), CursorOk doc.ranges c →
      (∀ seg ∈ segs, seg.2 ≠ [] ∧ seg.1 + seg.2.length ≤ extent false doc.ranges) →
      ∃ c', doc.convertSegs live segs c acc =
          some (c', acc ++ segs.flatMap (segEdits doc.ranges live)) ∧ CursorOk doc.ranges c' := by
  induction segs with
  | nil =>
      intro c acc hc _
      exact ⟨c, by simp [convertSegs], hc⟩
  | cons seg segs ih =>
      obtain ⟨pos, text⟩ := seg
      intro c acc hc hsegs
      obtain ⟨ht, hle⟩ := hsegs (pos, text) (by simp)
      have hpos : pos ≤ extent false doc.ranges := Nat.le_trans (Nat.le_add_right _ _) hle
      obtain ⟨q, c₁, hconv⟩ := convertPos_spec hc hpos
      obtain ⟨rfl, hrun⟩ := hconv.internal
      have hmark := markToInsOrDel_spec live acc hok hconv.placed ht hle
      obtain ⟨c', hrest, hc'⟩ := ih c₁ (acc ++ segEdits doc.ranges live (q, text))
        hconv.placed.cursorOk fun seg h => hsegs seg (by simp [h])
      refine ⟨c', ?_, hc'⟩
      rw [convertSegs]
      simp [hrun, hmark, hrest]

/-- The segments are applied one after the other. -/
theorem applySegs_spec (live : Bool) (segs : List (Nat × Text)) :
    ∀ (doc : InternalDoc) (c : Cursor), DocOk doc → CursorOk doc.ranges c →
      (∀ seg ∈ segs, seg.2 ≠ [] ∧ seg.1 + seg.2.length ≤ extent false doc.ranges) →
      ∃ c' doc', applySegs live segs c doc = some (c', doc') ∧ DocOk doc' ∧
        CursorOk doc'.ranges c' ∧
        flags doc'.ranges = paint (covers (segRuns segs)) live (flags doc.ranges) := by
  induction segs with
  | nil =>
      intro doc c hdoc hc _
      refine ⟨c, doc, rfl, hdoc, hc, ?_⟩
      rw [paint_eq_self (by simp)]
  | cons seg segs ih =>
      obtain ⟨pos, text⟩ := seg
      intro doc c hdoc hc hsegs
      obtain ⟨ht, hle⟩ := hsegs (pos, text) (by simp)
      have hpos : pos ≤ extent false doc.ranges := Nat.le_trans (Nat.le_add_right _ _) hle
      obtain ⟨q, c₁, hconv⟩ := convertPos_spec hc hpos
      obtain ⟨rfl, hrun⟩ := hconv.internal
      obtain ⟨c₂, doc₁, happly, hmarked⟩ := applyMark_spec live hdoc.ranges hdoc.cursors
        hconv.placed (List.length_pos_iff.mpr ht) hle
      have hlen : extent false doc₁.ranges = extent false doc.ranges := by
        have := congrArg List.length hmarked.flags_eq
        simpa using this
      obtain ⟨c', doc', hrest, hdoc', hc', hflags⟩ := ih doc₁ c₂
        ⟨hmarked.ranges, hmarked.cursors⟩ hmarked.cursor
        (by rw [hlen]; exact fun seg h => hsegs seg (by simp [h]))
      refine ⟨c', doc', ?_, hdoc', hc', ?_⟩
      · rw [applySegs]
        cases live <;> simp [hrun, applyMarkLive, applyMarkDead, happly, hrest]
      · rw [hflags, hmarked.flags_eq, paint_paint]
        rfl

end Convert

/-! ## Cursors of sites -/

theorem getCursor_spec {doc : InternalDoc}
    (hcs : AssocMap.AllVals (CursorOk doc.ranges) doc.cursors) (site : SiteId) :
    ∃ c doc₁, doc.getCursor site = (c, doc₁) ∧ doc₁.ranges = doc.ranges ∧
      CursorOk doc.ranges c ∧ AssocMap.AllVals (CursorOk doc.ranges) doc₁.cursors := by
  unfold getCursor
  cases hget : AssocMap.get doc.cursors site with
  | some c => exact ⟨c, doc, rfl, rfl, hcs.get hget, hcs⟩
  | none =>
      exact ⟨.unset, { doc with cursors := AssocMap.insert doc.cursors site .unset }, rfl, rfl,
        Or.inl rfl, hcs.insert site (Or.inl rfl)⟩

/-- The cursor is stored, and the check after each operation passes. -/
theorem store_cursor {doc : InternalDoc} {c : Cursor} (site : SiteId)
    (hcs : AssocMap.AllVals (CursorOk doc.ranges) doc.cursors) (hc : CursorOk doc.ranges c) :
    AssocMap.AllVals (CursorOk doc.ranges) (AssocMap.insert doc.cursors site c) ∧
      { doc with cursors := AssocMap.insert doc.cursors site c }.checkCursorPositions = true := by
  have hins : AssocMap.AllVals (CursorOk doc.ranges) (AssocMap.insert doc.cursors site c) :=
    hcs.insert site hc
  exact ⟨hins, checkCursorPositions_of_ok hins⟩

/-! ## The operations -/

/-- The instruction that comes back for an internal operation. -/
def instruction (rs : List Range) : Op → EditInstruction
  | .ins (pos, text) _ => .ins [⟨liveBefore pos (flags rs), text⟩]
  | .mark segs live _ =>
      flipInstruction live
        ((segs.flatMap (segEdits rs live)).map fun (pos, content) => ⟨pos, content⟩)

/-- An internal operation that fits, or an insertion of nothing, succeeds.  The
flags show it, and the invariant is kept. -/
theorem convertInternalOpAndApply_spec {doc : InternalDoc} (hdoc : DocOk doc) {op : Op}
    (hop : op.InRange doc.internalLen ∨ op.Fits doc.internalLen) (d : Seq Char)
    (hd : d.flags = flags doc.ranges) :
    ∃ doc', doc.convertInternalOpAndApply op = some (instruction doc.ranges op, doc') ∧
      flags doc'.ranges = (op.apply d).flags ∧ (op.Nonempty → DocOk doc') := by
  obtain ⟨c, doc₁, hcur, hrs, hc, hcs⟩ := getCursor_spec hdoc.cursors op.site
  have hrs₁ : RangesOk doc₁.ranges := hrs ▸ hdoc.ranges
  have hc₁ : CursorOk doc₁.ranges c := hrs ▸ hc
  have hcs₁ : AssocMap.AllVals (CursorOk doc₁.ranges) doc₁.cursors := hrs ▸ hcs
  cases op with
  | ins op site =>
      obtain ⟨pos, text⟩ := op
      have hpos : pos ≤ extent false doc₁.ranges := by
        rw [hrs]
        rcases hop with hop | hop
        · exact hop
        · exact hop.2
      obtain ⟨q, c₁, hconv⟩ := convertPos_spec (b := false) hc₁ hpos
      obtain ⟨rfl, hrun⟩ := hconv.internal
      obtain ⟨c₂, doc₂, hins, hinserted⟩ := applyIns_spec text.length hrs₁ hcs₁ hconv.placed
      obtain ⟨hcs₂, hcheck⟩ := store_cursor site hinserted.cursors hinserted.cursor
      refine ⟨{ doc₂ with cursors := AssocMap.insert doc₂.cursors site c₂ }, ?_, ?_, ?_⟩
      · rw [convertInternalOpAndApply, hcur]
        simp only [hrun, hins, Option.bind_eq_bind, Option.bind_some, Op.site, assert?,
          hcheck, if_true, hrs]
        rfl
      · rw [hinserted.flags, hrs, ← hd]
        rfl
      · intro ht
        exact ⟨hinserted.ranges (List.length_pos_iff.mpr ht), hcs₂⟩
  | mark segs live site =>
      have hsegs : ∀ seg ∈ segs, seg.2 ≠ [] ∧ seg.1 + seg.2.length ≤ extent false doc₁.ranges := by
        rw [hrs]
        rcases hop with hop | hop
        · have hr : SegsInRange doc.internalLen segs := hop
          exact fun seg h => ⟨hr.nonempty seg h, hr.le seg h⟩
        · exact hop
      obtain ⟨c₁, hconv, hc₁'⟩ := convertSegs_spec live hrs₁ segs c [] hc₁ hsegs
      obtain ⟨c₂, doc₂, happly, hdoc₂, hc₂, hflags⟩ :=
        applySegs_spec live segs doc₁ c₁ ⟨hrs₁, hcs₁⟩ hc₁' hsegs
      obtain ⟨hcs₂, hcheck⟩ := store_cursor site hdoc₂.cursors hc₂
      refine ⟨{ doc₂ with cursors := AssocMap.insert doc₂.cursors site c₂ }, ?_, ?_, ?_⟩
      · rw [convertInternalOpAndApply, hcur]
        simp only [hconv, happly, Option.bind_eq_bind, Option.bind_some, Op.site, assert?,
          hcheck, if_true, hrs, List.nil_append]
        rfl
      · rw [hflags, hrs, ← hd]
        rfl
      · exact fun _ => ⟨hdoc₂.ranges, hcs₂⟩

/-! ## The editor's operations -/

/-- The parts a deletion flips, with the texts cut off the deleted text. -/
theorem cutFlipped_eq {l text : Text} {fl : List (Nat × Nat)} {k : Nat}
    (hle : ∀ f ∈ fl, f.1 + f.2 ≤ l.length) (htext : text.drop k = fl.flatMap (piece l)) :
    cutFlipped text k fl = fl.map fun f => (f.1, piece l f) := by
  induction fl generalizing k with
  | nil => rfl
  | cons f fl ih =>
      have hlen : (piece l f).length = f.2 := piece_length (hle f (by simp))
      rw [List.flatMap_cons] at htext
      have htake : (text.drop k).take f.2 = piece l f := by
        rw [htext, ← hlen, List.take_left]
      have hdrop : text.drop (k + f.2) = fl.flatMap (piece l) := by
        rw [← List.drop_drop, htext, ← hlen, List.drop_left]
      obtain ⟨p, n⟩ := f
      rw [cutFlipped, htake, ih (fun f h => hle f (by simp [h])) hdrop]
      rfl

/-- The runs of the segments that `cut_flipped` makes. -/
theorem segRuns_pieces {l : Text} {fl : List (Nat × Nat)} (hle : ∀ f ∈ fl, f.1 + f.2 ≤ l.length) :
    segRuns (fl.map fun f => (f.1, piece l f)) = fl := by
  induction fl with
  | nil => rfl
  | cons f fl ih =>
      rw [List.map_cons, segRuns_cons, ih fun f h => hle f (by simp [h]),
        piece_length (hle f (by simp))]

/-- The live characters between two positions are those in the parts that a
deletion between them flips. -/
theorem live_between {rs : List Range} {l : Text} (hl : l.length = extent false rs) {p q : Nat}
    (hpq : p ≤ q) (hq : q ≤ extent false rs) :
    ((liveItems l (flags rs)).drop (liveBefore p (flags rs))).take
        (liveBefore q (flags rs) - liveBefore p (flags rs)) =
      (overlaps false p q 0 rs).flatMap (piece l) := by
  have hlen : l.length = (flags rs).length := by rw [flags_length]; exact hl
  rw [liveItems_part hlen hpq (by rw [flags_length]; exact hq),
    ← liveItems_runs (overlaps_ascending 0 rs)
      (fun f hf => by have := mem_overlaps hf; omega)]
  congr 1
  apply List.ext_getElem?
  intro i
  rw [List.getElem?_mapIdx, getElem?_paint, List.getElem?_replicate]
  by_cases hi : i < l.length
  · have hcov : covers (overlaps false p q 0 rs) i = true ↔
        p ≤ i ∧ i < q ∧ 0 ≤ i ∧ (flags rs)[i - 0]? = some (!false) := covers_overlaps
    rw [if_pos hi, List.getElem?_eq_getElem (by omega)]
    rw [Nat.sub_zero, List.getElem?_eq_getElem (by omega), Option.some_inj, Bool.not_false] at hcov
    by_cases hc : covers (overlaps false p q 0 rs) i = true
    · obtain ⟨h1, h2, _, h3⟩ := hcov.mp hc
      simp [hc, h1, h2, h3]
    · have hnot := mt hcov.mpr hc
      simp only [hc, Option.map_some, Option.some_inj]
      cases hf : (flags rs)[i] with
      | false => simp
      | true =>
          simp only [Nat.zero_le, hf, and_true] at hnot
          simp
          omega
  · rw [if_neg hi, List.getElem?_eq_none (by omega)]
    rfl

/-- A deletion that fits marks what lies between the places of its ends. -/
structure Deleted (doc : InternalDoc) (pos : Nat) (content : Text) (site : SiteId) (q q' : Nat)
    (doc' : InternalDoc) : Prop where
  run : doc.convertEditorOpAndApply (.del pos content) site =
    some (.mark (cutFlipped content 0 (overlaps false q q' 0 doc.ranges)) false site, doc')
  ok : DocOk doc'
  flags_eq : flags doc'.ranges = paint (stretch (q, q' - q)) false (flags doc.ranges)
  beg_eq : liveBefore q (flags doc.ranges) = pos
  end_eq : liveBefore q' (flags doc.ranges) = pos + content.length
  lt : q < q'
  le : q' ≤ extent false doc.ranges

theorem deleted_spec {doc : InternalDoc} (hdoc : DocOk doc) {pos : Nat} {content : Text}
    (hop : (EditorOp.del pos content).Fits doc.editorLen) (site : SiteId) :
    ∃ q q' doc', Deleted doc pos content site q q' doc' := by
  obtain ⟨c, doc₁, hcur, hrs, hc, hcs⟩ := getCursor_spec hdoc.cursors site
  have hrs₁ : RangesOk doc₁.ranges := hrs ▸ hdoc.ranges
  have hc₁ : CursorOk doc₁.ranges c := hrs ▸ hc
  have hcs₁ : AssocMap.AllVals (CursorOk doc₁.ranges) doc₁.cursors := hrs ▸ hcs
  obtain ⟨ht, hpos⟩ := hop
  have hn : 0 < content.length := List.length_pos_iff.mpr ht
  have hend₁ : pos + content.length ≤ extent true doc₁.ranges := by rw [hrs]; exact hpos
  have hpos₁ : pos ≤ extent true doc₁.ranges := by omega
  obtain ⟨q, c₁, hconv⟩ := convertPos_spec hc₁ hpos₁
  obtain ⟨hrun, hlive⟩ := hconv.editor
  obtain ⟨q', c₁', hconv'⟩ := convertPos_spec (b := true) hconv.placed.cursorOk hend₁
  obtain ⟨hrun', hlive'⟩ := hconv'.editor
  have hqq : q < q' := by
    by_contra hge
    have := liveBefore_mono (Nat.le_of_not_lt hge) (flags doc₁.ranges)
    omega
  have hlt : 0 < q' - q := by omega
  have hend : q + (q' - q) ≤ extent false doc₁.ranges := by have := hconv'.le; omega
  obtain ⟨c₂, doc₂, hmark, hmarked⟩ :=
    applyMark_spec false hrs₁ hcs₁ hconv.placed hlt hend
  obtain ⟨hcs₂, hcheck⟩ := store_cursor site hmarked.cursors hmarked.cursor
  have hsub : sub? q' q = some (q' - q) := by rw [sub?, if_pos (by omega)]
  rw [show q + (q' - q) = q' by omega] at hmark
  refine ⟨q, q', { doc₂ with cursors := AssocMap.insert doc₂.cursors site c₂ }, ?_,
    ⟨hmarked.ranges, hcs₂⟩, ?_, hrs ▸ hlive, hrs ▸ hlive', hqq, hrs ▸ hconv'.le⟩
  · rw [convertEditorOpAndApply, hcur]
    simp only [hrun, hrun', hsub, applyMarkDead, hmark, Option.bind_eq_bind, Option.bind_some,
      assert?, hcheck, if_true, hrs]
  · rw [← hrs]
    exact hmarked.flags_eq

section Deleted

variable {doc doc' : InternalDoc} {pos q q' : Nat} {content : Text} {site : SiteId}
  (h : Deleted doc pos content site q q' doc') (d : Seq Char) (hd : d.flags = flags doc.ranges)
include h hd

theorem Deleted.overlaps_le : ∀ f ∈ overlaps false q q' 0 doc.ranges,
    f.1 + f.2 ≤ d.items.length := by
  intro f hf
  have := mem_overlaps hf
  have := h.le
  have hlen : d.items.length = extent false doc.ranges := by rw [d.length_eq, hd, flags_length]
  omega

/-- The deleted text is what the flipped parts hold. -/
theorem Deleted.text_eq (hmatch : (EditorOp.del pos content).Matches d.live) :
    content = (overlaps false q q' 0 doc.ranges).flatMap (piece d.items) := by
  have hlen : d.items.length = extent false doc.ranges := by rw [d.length_eq, hd, flags_length]
  have hcontent : (d.live.drop pos).take content.length = content := hmatch
  rw [← live_between hlen (Nat.le_of_lt h.lt) h.le, h.beg_eq, h.end_eq, Nat.add_sub_cancel_left,
    ← hd]
  exact hcontent.symm

/-- What is left of the live text, whatever its characters. -/
theorem Deleted.live_eq (site' : SiteId) {segs : List (Nat × Text)}
    (hsegs : segRuns segs = overlaps false q q' 0 doc.ranges) :
    (Op.apply d (.mark segs false site')).live = (EditorOp.del pos content).applyText d.live := by
  show liveItems d.items (paint (covers (segRuns segs)) false d.flags) = _
  rw [hsegs, hd, paint_overlaps, liveItems_kill_part (by rw [d.length_eq, hd])
    (Nat.le_of_lt h.lt) (by rw [flags_length]; exact h.le), h.beg_eq, h.end_eq, ← hd]
  rfl

end Deleted

/-- What an editor's operation makes of the document and its live text. -/
structure EditorApplied (doc : InternalDoc) (op : EditorOp) (site : SiteId) (d : Seq Char)
    (op' : Op) (doc' : InternalDoc) : Prop where
  run : doc.convertEditorOpAndApply op site = some (op', doc')
  ok : DocOk doc'
  site_eq : op'.site = site
  /-- When the deleted characters are the ones that stand there. -/
  refines : op.Matches d.live → op'.Ok true d.items ∧ flags doc'.ranges = (op'.apply d).flags ∧
    (op'.apply d).live = op.applyText d.live

/-- An operation that fits succeeds and keeps the invariant. -/
theorem convertEditorOpAndApply_spec {doc : InternalDoc} (hdoc : DocOk doc) {op : EditorOp}
    (hop : op.Fits doc.editorLen) (site : SiteId) (d : Seq Char) (hd : d.flags = flags doc.ranges) :
    ∃ op' doc', EditorApplied doc op site d op' doc' := by
  obtain ⟨c, doc₁, hcur, hrs, hc, hcs⟩ := getCursor_spec hdoc.cursors site
  have hrs₁ : RangesOk doc₁.ranges := hrs ▸ hdoc.ranges
  have hc₁ : CursorOk doc₁.ranges c := hrs ▸ hc
  have hcs₁ : AssocMap.AllVals (CursorOk doc₁.ranges) doc₁.cursors := hrs ▸ hcs
  have hlen : d.items.length = extent false doc₁.ranges := by
    rw [d.length_eq, hd, flags_length, hrs]
  cases op with
  | ins pos content =>
      obtain ⟨ht, hpos⟩ := hop
      have hpos₁ : pos ≤ extent true doc₁.ranges := by rw [hrs]; exact hpos
      obtain ⟨q, c₁, hconv⟩ := convertPos_spec (b := true) hc₁ hpos₁
      obtain ⟨hrun, hlive⟩ := hconv.editor
      obtain ⟨c₂, doc₂, hins, hinserted⟩ :=
        applyIns_spec content.length hrs₁ hcs₁ hconv.placed
      obtain ⟨hcs₂, hcheck⟩ := store_cursor site hinserted.cursors hinserted.cursor
      refine ⟨.ins (q, content) site,
        { doc₂ with cursors := AssocMap.insert doc₂.cursors site c₂ }, ?_, ?_, rfl, ?_⟩
      · rw [convertEditorOpAndApply, hcur]
        simp only [hrun, hins, Option.bind_eq_bind, Option.bind_some, assert?, hcheck, if_true]
      · exact ⟨hinserted.ranges (List.length_pos_iff.mpr ht), hcs₂⟩
      · intro _
        have hq : q ≤ d.items.length := by rw [hlen]; exact hconv.le
        refine ⟨Op.ok_ins hq ht, ?_, ?_⟩
        · rw [hinserted.flags, hrs, ← hd]
          rfl
        · have := liveItems_insertAt (s := content) d.length_eq hq
          rw [hd, ← hrs, hlive, hrs, ← hd] at this
          exact this
  | del pos content =>
      obtain ⟨q, q', doc', hdel⟩ := deleted_spec hdoc hop site
      refine ⟨_, doc', hdel.run, hdel.ok, rfl, fun hmatch => ?_⟩
      have hle := hdel.overlaps_le d hd
      have htext : content.drop 0 = (overlaps false q q' 0 doc.ranges).flatMap (piece d.items) :=
        hdel.text_eq d hd hmatch
      rw [cutFlipped_eq hle htext]
      have hruns := segRuns_pieces hle
      refine ⟨⟨⟨?_, ?_, ?_⟩, trivial, fun _ => ?_⟩, ?_, hdel.live_eq d hd site hruns⟩
      · intro seg hseg
        obtain ⟨f, hf, rfl⟩ := List.mem_map.mp hseg
        have := mem_overlaps hf
        exact List.length_pos_iff.mp (by rw [piece_length (hle f hf)]; omega)
      · rw [hruns]
        exact overlaps_ascending 0 _
      · intro seg hseg
        obtain ⟨f, hf, rfl⟩ := List.mem_map.mp hseg
        simp only [piece_length (hle f hf)]
        exact hle f hf
      · intro seg hseg
        obtain ⟨f, hf, rfl⟩ := List.mem_map.mp hseg
        simp only [piece_length (hle f hf)]
        rfl
      · show _ = paint (covers (segRuns _)) false d.flags
        rw [hruns, hdel.flags_eq, hd, paint_overlaps]
  | undo context => exact hop.elim
  | redo context => exact hop.elim

/-! ## Marks whose characters are the stored ones -/

section Stored

variable {rs : List Range} {items : Text} {segs : List (Nat × Text)} {live : Bool}

/-- Everything the segments flip. -/
def flipped (rs : List Range) (live : Bool) (segs : List (Nat × Text)) : List (Nat × Nat) :=
  segs.flatMap fun seg => overlaps live seg.1 (seg.1 + seg.2.length) 0 rs

theorem flipped_ascending (rs : List Range) (live : Bool) (hasc : Ascending (segRuns segs)) :
    Ascending (flipped rs live segs) := by
  refine List.pairwise_flatMap.mpr ⟨fun seg _ => overlaps_ascending 0 rs, ?_⟩
  refine (List.pairwise_map.mp hasc).imp ?_
  intro seg seg' hle f hf f' hf'
  have := mem_overlaps hf
  have := mem_overlaps hf'
  simp only at hle
  omega

theorem covers_flipped {i : Nat} :
    covers (flipped rs live segs) i = true ↔
      covers (segRuns segs) i = true ∧ (flags rs)[i]? = some (!live) := by
  have hmem : covers (flipped rs live segs) i = true ↔
      ∃ seg ∈ segs, covers (overlaps live seg.1 (seg.1 + seg.2.length) 0 rs) i = true := by
    simp only [covers_iff, flipped, List.mem_flatMap]
    constructor
    · rintro ⟨f, ⟨seg, hseg, hf⟩, hi⟩
      exact ⟨seg, hseg, f, hf, hi⟩
    · rintro ⟨seg, hseg, f, hf, hi⟩
      exact ⟨f, ⟨seg, hseg, hf⟩, hi⟩
  rw [hmem, covers_iff]
  simp only [covers_overlaps, segRuns, List.mem_map, Nat.sub_zero]
  constructor
  · rintro ⟨seg, hseg, h1, h2, _, h3⟩
    exact ⟨⟨_, ⟨seg, hseg, rfl⟩, h1, h2⟩, h3⟩
  · rintro ⟨⟨_, ⟨seg, hseg, rfl⟩, h1, h2⟩, h3⟩
    exact ⟨seg, hseg, h1, h2, Nat.zero_le _, h3⟩

theorem paint_flipped :
    paint (covers (flipped rs live segs)) live (flags rs) =
      paint (covers (segRuns segs)) live (flags rs) := by
  refine paint_congr fun i hi => ?_
  rw [Bool.eq_iff_iff, covers_flipped]
  simp [hi]

theorem flipped_pos : ∀ f ∈ flipped rs live segs, 0 < f.2 ∧ f.1 + f.2 ≤ extent false rs := by
  intro f hf
  obtain ⟨seg, _, hf⟩ := List.mem_flatMap.mp hf
  have := mem_overlaps hf
  omega

theorem flipped_allFlag : ∀ f ∈ flipped rs live segs, AllFlag (!live) (flags rs) f := by
  intro f hf
  obtain ⟨seg, _, hf⟩ := List.mem_flatMap.mp hf
  exact overlaps_allFlag f hf

/-- The segments carry the characters of `items` wherever they flip. -/
def FlipsMatch (items : Text) (rs : List Range) (live : Bool) (segs : List (Nat × Text)) : Prop :=
  ∀ seg ∈ segs, ∀ f ∈ overlaps live seg.1 (seg.1 + seg.2.length) 0 rs,
    (seg.2.drop (f.1 - seg.1)).take f.2 = piece items f

/-- A segment that carries the characters that stand at its place does so wherever it flips. -/
theorem flipsMatch_of_segsMatch (hsegs : SegsMatch items segs) :
    FlipsMatch items rs live segs := by
  intro seg hseg f hf
  have := mem_overlaps hf
  rw [← hsegs seg hseg, List.drop_take, List.drop_drop, List.take_take, piece,
    show seg.1 + (f.1 - seg.1) = f.1 by omega,
    show min f.2 (seg.2.length - (f.1 - seg.1)) = f.2 by omega]

/-- The edits then carry the characters of `items`. -/
theorem instruction_matching {site : SiteId} (hsegs : FlipsMatch items rs live segs) :
    instruction rs (.mark segs live site) =
      flipInstruction live (flipEdits items (flags rs) (flipped rs live segs)) := by
  have hseg (seg : Nat × Text) (hseg : seg ∈ segs) :
      (segEdits rs live seg).map (fun (pos, content) => (⟨pos, content⟩ : Edit)) =
        flipEdits items (flags rs) (overlaps live seg.1 (seg.1 + seg.2.length) 0 rs) := by
    rw [segEdits, capture, flipEdits, List.map_map]
    refine List.map_congr_left fun f hf => ?_
    simp only [Function.comp_apply, hsegs seg hseg f hf]
  have hall : ∀ segs' : List (Nat × Text), (∀ seg ∈ segs', seg ∈ segs) →
      (segs'.flatMap (segEdits rs live)).map (fun (pos, content) => (⟨pos, content⟩ : Edit)) =
        flipEdits items (flags rs) (flipped rs live segs') := by
    intro segs' hsub
    induction segs' with
    | nil => rfl
    | cons seg segs' ih =>
        rw [List.flatMap_cons, List.map_append, ih fun s h => hsub s (by simp [h]),
          hseg seg (hsub seg (by simp))]
        simp [flipEdits, flipped]
  rw [instruction, hall segs fun _ h => h]

/-- The edits for a segment have the places and lengths of the flipped parts,
whatever characters it carries. -/
theorem segEdits_shape (rs : List Range) (live : Bool) (seg : Nat × Text) :
    (segEdits rs live seg).map (fun e => (e.1, e.2.length)) =
      (overlaps live seg.1 (seg.1 + seg.2.length) 0 rs).map fun f =>
        (liveBefore f.1 (flags rs), f.2) := by
  rw [segEdits, capture, List.map_map]
  refine List.map_congr_left fun f hf => ?_
  have := mem_overlaps hf
  simp only [Function.comp_apply, List.length_take, List.length_drop, Prod.mk.injEq, true_and]
  omega

/-- A mark that brings nothing back deletes the same, whatever characters it
carries. -/
theorem deleteEdits_unstored (hle : ∀ f ∈ flipped rs false segs, f.1 + f.2 ≤ items.length)
    (buffer : Text) :
    deleteEdits ((segs.flatMap (segEdits rs false)).map
        fun (pos, content) => (⟨pos, content⟩ : Edit)).reverse buffer =
      deleteEdits (flipEdits items (flags rs) (flipped rs false segs)).reverse buffer := by
  refine deleteEdits_congr ?_ buffer
  rw [List.map_reverse, List.map_reverse]
  congr 1
  have hflip : (flipEdits items (flags rs) (flipped rs false segs)).map
      (fun e => (e.pos, e.content.length)) =
      (flipped rs false segs).map fun f => (liveBefore f.1 (flags rs), f.2) := by
    rw [flipEdits, List.map_map]
    refine List.map_congr_left fun f hf => ?_
    simp only [Function.comp_apply, piece_length (hle f hf)]
  rw [hflip, flipped, List.map_flatMap, List.map_flatMap, List.map_flatMap]
  congr 1
  funext seg
  rw [List.map_map]
  exact segEdits_shape rs false seg

end Stored

/-- The instruction for a mark turns the live text into the new one, when the mark carries the
characters of `items` wherever it brings text back. -/
theorem mark_apply {rs : List Range} {items : Text} {segs : List (Nat × Text)} {live : Bool}
    {site : SiteId} (hlen : items.length = (flags rs).length) (hr : SegsInRange items.length segs)
    (hmatch : live = true → FlipsMatch items rs true segs) :
    (instruction rs (.mark segs live site)).apply (liveItems items (flags rs)) =
      some (.ok (), liveItems items (paint (covers (segRuns segs)) live (flags rs))) := by
  have hrange : ∀ f ∈ flipped rs live segs, f.1 + f.2 ≤ (flags rs).length := by
    intro f hf
    have := flipped_pos f hf
    rw [flags_length]
    omega
  have happly := flipInstruction_apply (l := items) live hlen
    (flipped_ascending rs live hr.ascending) hrange flipped_allFlag
  rw [paint_flipped] at happly
  rw [← happly]
  cases live with
  | true => rw [instruction_matching (hmatch rfl)]
  | false =>
      show (EditInstruction.del _).apply _ = (EditInstruction.del _).apply _
      rw [EditInstruction.apply, EditInstruction.apply, deleteEdits_unstored]
      rw [hlen]
      exact hrange

/-- The instruction turns the old live text into the new one.  A mark that brings
text back must carry the characters that stand there. -/
theorem instruction_apply {rs : List Range} (d : Seq Char) (hd : d.flags = flags rs) {op : Op}
    (hop : op.InRange d.items.length) (hmatch : op.Matches d.items ∨ op.Plain) :
    (instruction rs op).apply d.live = some (.ok (), (op.apply d).live) := by
  cases op with
  | ins op site =>
      obtain ⟨pos, text⟩ := op
      have hpos : pos ≤ d.items.length := hop
      have hle : ¬ liveBefore pos d.flags > d.live.length := by
        rw [d.live_length]
        have := liveBefore_le pos d.flags
        omega
      have hlive : (Op.apply d (.ins (pos, text) site)).live =
          insertAt (liveBefore pos d.flags) text d.live :=
        liveItems_insertAt d.length_eq hpos
      rw [hlive]
      simp [instruction, EditInstruction.apply, insertEdits, ← hd, hle]
  | mark segs live site =>
      have hlen : d.items.length = (flags rs).length := hd ▸ d.length_eq
      have happly := @mark_apply rs d.items segs live site hlen hop fun hlive =>
        flipsMatch_of_segsMatch
          (hmatch.resolve_right fun hplain => by cases hplain.symm.trans hlive)
      rw [← hd] at happly
      exact happly

/-! ## Reachable documents -/

/-- A sequence with the flags of the document, whatever its characters. -/
theorem exists_seq (f : List Bool) : ∃ d : Seq Char, d.flags = f :=
  ⟨⟨List.replicate f.length ' ', f, by simp⟩, rfl⟩

theorem Op.Fits.nonempty {n : Nat} {op : Op} (h : op.Fits n) : op.Nonempty := by
  cases op with
  | ins op site => exact h.1
  | mark segs live site => trivial

/-- The operations keep the invariant. -/
theorem Reachable.ok {doc : InternalDoc} (h : Reachable doc) : DocOk doc := by
  induction h with
  | new initLen => exact new_ok initLen
  | @editor doc doc' op site op' _ hop hrun ih =>
      obtain ⟨d, hd⟩ := exists_seq (flags doc.ranges)
      obtain ⟨_, _, happlied⟩ := convertEditorOpAndApply_spec ih hop site d hd
      rw [happlied.run] at hrun
      cases hrun
      exact happlied.ok
  | @internal doc doc' op instr _ hop hrun ih =>
      obtain ⟨d, hd⟩ := exists_seq (flags doc.ranges)
      obtain ⟨_, hspec, _, hok⟩ := convertInternalOpAndApply_spec ih (Or.inr hop) d hd
      rw [hspec] at hrun
      cases hrun
      exact hok (Op.Fits.nonempty hop)

/-- In every reachable document no range is empty, neighbours differ, and every
cursor in use stands at the beginning of its range in both kinds of positions.
So the check of the cursor positions passes, and the next operation succeeds. -/
theorem reachable_representation {doc : InternalDoc} (h : Reachable doc) :
    (∀ r ∈ doc.ranges, r.len ≠ 0) ∧
    (∀ i r r', doc.ranges[i]? = some r → doc.ranges[i + 1]? = some r' → r.isLive ≠ r'.isLive) ∧
    (∀ p ∈ doc.cursors, ∀ i, p.2.rangeIdx = some i →
      i < doc.ranges.length ∧ p.2.internalPos = ((doc.ranges.take i).map Range.len).sum ∧
        p.2.editorPos = ((doc.ranges.take i).map Range.liveLen).sum) ∧
    doc.checkCursorPositions = true ∧
    (∀ (op : EditorOp) (site : SiteId), op.Fits doc.editorLen →
      (doc.convertEditorOpAndApply op site).isSome) ∧
    (∀ op : Op, op.Fits doc.internalLen → (doc.convertInternalOpAndApply op).isSome) := by
  have hok := h.ok
  obtain ⟨d, hd⟩ := exists_seq (flags doc.ranges)
  refine ⟨fun r hr => Nat.pos_iff_ne_zero.mp (hok.ranges.pos r hr), ?_, ?_,
    checkCursorPositions_of_ok hok.cursors, ?_, ?_⟩
  · intro i r r' hr hr'
    obtain ⟨hi, rfl⟩ := List.getElem?_eq_some_iff.mp hr
    obtain ⟨hi', rfl⟩ := List.getElem?_eq_some_iff.mp hr'
    have := List.isChain_iff_getElem.mp hok.ranges.alternating i (by simpa using hi')
    simpa using this
  · intro p hp i hi
    exact (hok.cursors p hp).at_idx hi
  · intro op site hop
    obtain ⟨op', doc', happlied⟩ := convertEditorOpAndApply_spec hok hop site d hd
    rw [happlied.run]
    rfl
  · intro op hop
    obtain ⟨doc', hrun, _⟩ := convertInternalOpAndApply_spec hok (Or.inr hop) d hd
    rw [hrun]
    rfl

/-- Site 1 deleted two of three characters, site 2 put two between them. -/
def sampleDoc : InternalDoc :=
  { ranges := [.dead 1, .live 2, .dead 1, .live 1]
    cursors := [(1, ⟨0, 0, some 0⟩), (2, ⟨0, 1, some 1⟩)] }

theorem sampleDoc_reachable : Reachable sampleDoc := by
  have hdel : (Op.mark [(0, ['a', 'b'])] false 1).Fits (InternalDoc.new 3).internalLen := by decide
  have hfirst : Reachable ⟨[.dead 2, .live 1], [(1, ⟨0, 0, some 0⟩)]⟩ :=
    (Reachable.new 3).internal hdel rfl
  have hins : (Op.ins (1, ['x', 'y']) 2).Fits 3 := by decide
  exact hfirst.internal hins rfl

theorem reachable_representation_sample :
    (∀ r ∈ sampleDoc.ranges, r.len ≠ 0) ∧ sampleDoc.checkCursorPositions = true ∧
      (sampleDoc.convertEditorOpAndApply (.del 1 ['y', 'c']) 3).isSome := by
  obtain ⟨hpos, _, _, hcheck, heditor, _⟩ := reachable_representation sampleDoc_reachable
  exact ⟨hpos, hcheck, heditor (.del 1 ['y', 'c']) 3 (by decide)⟩

/-- Every reachable document refines a flagged list.  The operation succeeds,
leaves the flags of the list after it, and its edits, run last edit first, turn
the old live text into the new one.  A mark emits one edit for each run of
characters that flip, with their own content, and nothing else. -/
theorem convertInternalOpAndApply_refines {doc : InternalDoc} (h : Reachable doc) (d : Seq Char)
    (hd : d.flags = flags doc.ranges) {op : Op} (hop : op.InRange d.items.length)
    (hmatch : op.Matches d.items) :
    ∃ instr doc', doc.convertInternalOpAndApply op = some (instr, doc') ∧
      flags doc'.ranges = (op.apply d).flags ∧
      instr.apply d.live = some (.ok (), (op.apply d).live) ∧
      ∀ segs live site, op = .mark segs live site →
        ∃ fl, Ascending fl ∧ (∀ f ∈ fl, 0 < f.2) ∧
          (∀ i, covers fl i = true ↔
            covers (segRuns segs) i = true ∧ d.flags[i]? = some (!live)) ∧
          instr = flipInstruction live (flipEdits d.items d.flags fl) := by
  have hlen : d.items.length = doc.internalLen := by
    rw [d.length_eq, hd, flags_length, internalLen_eq]
  rw [hlen] at hop
  obtain ⟨doc', hrun, hflags, _⟩ := convertInternalOpAndApply_spec h.ok (Or.inl hop) d hd
  refine ⟨_, doc', hrun, hflags, instruction_apply d hd (hlen ▸ hop) (Or.inl hmatch), ?_⟩
  · rintro segs live site rfl
    have hr : SegsInRange doc.internalLen segs := hop
    refine ⟨flipped doc.ranges live segs, flipped_ascending doc.ranges live hr.ascending,
      fun f hf => (flipped_pos f hf).1, ?_, ?_⟩
    · intro i
      rw [covers_flipped, hd]
    · rw [instruction_matching (flipsMatch_of_segsMatch hmatch), hd]

/-- Undoing the deletion brings back both characters, around the two new ones. -/
theorem convertInternalOpAndApply_refines_sample :
    ∃ instr doc',
      sampleDoc.convertInternalOpAndApply (.mark [(0, ['a']), (3, ['b'])] true 1) =
        some (instr, doc') ∧
      instr.apply ['x', 'y', 'c'] = some (.ok (), ['a', 'x', 'y', 'b', 'c']) := by
  have hrange : Op.InRange 5 (.mark [(0, ['a']), (3, ['b'])] true 1) :=
    ⟨by decide, by unfold Ascending; decide, by decide⟩
  have hmatch : Op.Matches ['a', 'x', 'y', 'b', 'c'] (.mark [(0, ['a']), (3, ['b'])] true 1) := by
    unfold Op.Matches SegsMatch
    decide
  obtain ⟨instr, doc', hrun, _, happly, _⟩ := convertInternalOpAndApply_refines sampleDoc_reachable
    ⟨['a', 'x', 'y', 'b', 'c'], [false, true, true, false, true], rfl⟩ rfl hrange hmatch
  exact ⟨instr, doc', hrun, happly⟩

/-! ## The author's path and the replicas' path -/

section Author

variable {doc doc' : InternalDoc} {pos q q' : Nat} {content : Text} {site : SiteId}

/-- The segments of a deletion stand at the parts that it flips, and hold its text. -/
theorem Deleted.segs (h : Deleted doc pos content site q q' doc') :
    segRuns (cutFlipped content 0 (overlaps false q q' 0 doc.ranges)) =
        overlaps false q q' 0 doc.ranges ∧
      (cutFlipped content 0 (overlaps false q q' 0 doc.ranges)).flatMap Prod.snd = content := by
  -- Some document has the flags, and the deleted text at its place.
  have hle := liveBefore_le q' (flags doc.ranges)
  rw [h.end_eq] at hle
  obtain ⟨d, hd, hlive⟩ := Seq.exists_live (flags doc.ranges)
    (l := List.replicate pos ' ' ++ content ++
      List.replicate ((flags doc.ranges).count true - (pos + content.length)) ' ')
    (by simp only [List.length_append, List.length_replicate]; omega)
  have hmatch : (EditorOp.del pos content).Matches d.live := by
    show (d.live.drop pos).take content.length = content
    rw [hlive, List.append_assoc, List.drop_left' (by simp), List.take_left]
  have hle := h.overlaps_le d hd
  have htext := h.text_eq d hd hmatch
  have hcut : cutFlipped content 0 (overlaps false q q' 0 doc.ranges) = _ :=
    cutFlipped_eq hle htext
  rw [hcut]
  refine ⟨segRuns_pieces hle, ?_⟩
  rw [List.flatMap_map]
  exact htext.symm

/-- The segments of a deletion fit the document. -/
theorem Deleted.inRange (h : Deleted doc pos content site q q' doc') :
    SegsInRange doc.internalLen (cutFlipped content 0 (overlaps false q q' 0 doc.ranges)) := by
  obtain ⟨hruns, _⟩ := h.segs
  have hmem : ∀ seg ∈ cutFlipped content 0 (overlaps false q q' 0 doc.ranges),
      (seg.1, seg.2.length) ∈ overlaps false q q' 0 doc.ranges := by
    intro seg hseg
    rw [← hruns]
    exact List.mem_map_of_mem (f := fun seg : Nat × Text => (seg.1, seg.2.length)) hseg
  refine ⟨fun seg hseg => ?_, ?_, fun seg hseg => ?_⟩
  · have := mem_overlaps (hmem seg hseg)
    exact List.length_pos_iff.mp (by omega)
  · rw [hruns]
    exact overlaps_ascending 0 _
  · have := mem_overlaps (hmem seg hseg)
    have := h.le
    rw [internalLen_eq]
    omega

/-- They cover the live characters of the deleted region, and no others. -/
theorem Deleted.covers (h : Deleted doc pos content site q q' doc') (i : Nat) :
    covers (segRuns (cutFlipped content 0 (overlaps false q q' 0 doc.ranges))) i = true ↔
      (flags doc.ranges)[i]? = some true ∧ pos ≤ liveBefore i (flags doc.ranges) ∧
        liveBefore i (flags doc.ranges) < pos + content.length := by
  rw [h.segs.1, covers_overlaps, Nat.sub_zero, Bool.not_false]
  constructor
  · rintro ⟨hbeg, hend, _, hlive⟩
    refine ⟨hlive, ?_, ?_⟩
    · rw [← h.beg_eq]
      exact liveBefore_mono hbeg _
    · rw [← h.end_eq]
      exact (lt_iff_liveBefore_lt hlive).mp hend
  · rintro ⟨hlive, hbeg, hend⟩
    refine ⟨?_, ?_, Nat.zero_le _, hlive⟩
    · by_contra hlt
      rw [← h.beg_eq] at hbeg
      have := (lt_iff_liveBefore_lt hlive).mp (Nat.lt_of_not_le hlt)
      omega
    · rw [← h.end_eq] at hend
      exact (lt_iff_liveBefore_lt hlive).mpr hend

end Author

/-- What the author's document makes of an operation of the editor, for every text that the
editor may show. -/
structure AuthorApplied (doc : InternalDoc) (op : EditorOp) (site : SiteId) (op' : Op)
    (doc' : InternalDoc) : Prop where
  run : doc.convertEditorOpAndApply op site = some (op', doc')
  ok : DocOk doc'
  inRange : op'.InRange doc.internalLen
  plain : op'.Plain
  nonempty : op'.Nonempty
  applies : ∀ d : Seq Char, d.flags = flags doc.ranges →
    flags doc'.ranges = (op'.apply d).flags ∧ (op'.apply d).live = op.applyText d.live

theorem authorApplied_spec {doc : InternalDoc} (hdoc : DocOk doc) {op : EditorOp}
    (hop : op.Fits doc.editorLen) (site : SiteId) :
    ∃ op' doc', AuthorApplied doc op site op' doc' := by
  cases op with
  | ins pos content =>
      obtain ⟨d, hd⟩ := exists_seq (flags doc.ranges)
      obtain ⟨op', doc', happlied⟩ := convertEditorOpAndApply_spec hdoc hop site d hd
      have hrun := happlied.run
      refine ⟨op', doc', hrun, happlied.ok, ?_, ?_, (happlied.refines trivial).1.nonempty,
        fun d' hd' => ?_⟩
      · have hinRange := (happlied.refines trivial).1.inRange
        rwa [d.length_eq, hd, flags_length, ← internalLen_eq] at hinRange
      · simp only [convertEditorOpAndApply, Option.bind_eq_bind, Option.bind_eq_some_iff,
          Prod.exists] at hrun
        obtain ⟨_, _, _, _, _, _, _, _, _, heq, _, _, hrun⟩ := hrun
        cases heq
        cases hrun
        trivial
      · obtain ⟨_, _, happlied'⟩ := convertEditorOpAndApply_spec hdoc hop site d' hd'
        rw [happlied'.run] at hrun
        cases hrun
        exact (happlied'.refines trivial).2
  | del pos content =>
      obtain ⟨q, q', doc', hdel⟩ := deleted_spec hdoc hop site
      refine ⟨_, doc', hdel.run, hdel.ok, hdel.inRange, rfl, trivial, fun d hd => ⟨?_, ?_⟩⟩
      · show _ = paint (Tombstone.covers (segRuns _)) false d.flags
        rw [hdel.segs.1, hdel.flags_eq, hd, paint_overlaps]
      · exact hdel.live_eq d hd site hdel.segs.1
  | undo context => exact hop.elim
  | redo context => exact hop.elim

/-- The author's document and a copy of it come to the same ranges, one in the editor's
positions and the other in internal ones, and the copy's instruction does to the text what
the editor did.  The segments of a deletion cover the live characters of its region. -/
theorem editor_agrees_internal {doc : InternalDoc} (h : Reachable doc) {copy : InternalDoc}
    (hranges : copy.ranges = doc.ranges)
    (hcursors : AssocMap.AllVals (CursorOk copy.ranges) copy.cursors) {op : EditorOp}
    (hop : op.Fits doc.editorLen) (site : SiteId) :
    ∃ op' doc' instr copy',
      doc.convertEditorOpAndApply op site = some (op', doc') ∧
      copy.convertInternalOpAndApply op' = some (instr, copy') ∧
      copy'.ranges = doc'.ranges ∧
      (∀ text : Text, text.length = doc.editorLen →
        instr.apply text = some (.ok (), op.applyText text)) ∧
      ∀ pos content, op = .del pos content → ∃ segs, op' = .mark segs false site ∧
        (∀ seg ∈ segs, seg.2 ≠ []) ∧ Ascending (segRuns segs) ∧
        (∀ i, covers (segRuns segs) i = true ↔
          (flags doc.ranges)[i]? = some true ∧ pos ≤ liveBefore i (flags doc.ranges) ∧
            liveBefore i (flags doc.ranges) < pos + content.length) ∧
        segs.flatMap Prod.snd = content := by
  obtain ⟨op', doc', happlied⟩ := authorApplied_spec h.ok hop site
  have hcopy : DocOk copy := ⟨hranges ▸ h.ok.ranges, hcursors⟩
  have hinRange : op'.InRange copy.internalLen := by
    rw [internalLen_eq, hranges]
    exact happlied.inRange
  obtain ⟨d, hd⟩ := exists_seq (flags doc.ranges)
  obtain ⟨copy', hrun, hflags, hok⟩ :=
    convertInternalOpAndApply_spec hcopy (.inl hinRange) d (hranges ▸ hd)
  refine ⟨op', doc', _, copy', happlied.run, hrun, ?_, fun text htext => ?_, ?_⟩
  · exact (hok happlied.nonempty).ranges.flags_inj happlied.ok.ranges
      (hflags.trans (happlied.applies d hd).1.symm)
  · obtain ⟨e, he, hlive⟩ := Seq.exists_live (flags doc.ranges) (l := text)
      (by rw [htext, flags_count, editorLen_eq])
    have hlen : e.items.length = copy.internalLen := by
      rw [e.length_eq, he, flags_length, internalLen_eq, hranges]
    rw [← hlive, ← (happlied.applies e he).2]
    exact instruction_apply e (hranges ▸ he) (hlen ▸ hinRange) (.inr happlied.plain)
  · rintro pos content rfl
    obtain ⟨q, q', doc₁, hdel⟩ := deleted_spec h.ok hop site
    have hrun' := happlied.run
    rw [hdel.run] at hrun'
    cases hrun'
    exact ⟨_, rfl, hdel.inRange.nonempty, hdel.inRange.ascending, hdel.covers, hdel.segs.2⟩

/-- A deletion across a tombstone, on a copy that has other cursors. -/
theorem editor_agrees_internal_sample :
    ∃ doc' instr copy',
      sampleDoc.convertEditorOpAndApply (.del 1 ['y', 'c']) 3 =
        some (.mark [(2, ['y']), (4, ['c'])] false 3, doc') ∧
      (InternalDoc.mk sampleDoc.ranges []).convertInternalOpAndApply
        (.mark [(2, ['y']), (4, ['c'])] false 3) = some (instr, copy') ∧
      copy'.ranges = doc'.ranges ∧ instr.apply ['x', 'y', 'c'] = some (.ok (), ['x']) := by
  obtain ⟨op', doc', instr, copy', hauthor, hcopy, hranges, htext, _⟩ :=
    @editor_agrees_internal sampleDoc sampleDoc_reachable ⟨sampleDoc.ranges, []⟩ rfl
      (AssocMap.AllVals_nil _) (.del 1 ['y', 'c']) (by decide) 3
  have hop : op' = .mark [(2, ['y']), (4, ['c'])] false 3 :=
    congrArg Prod.fst (Option.some.inj (hauthor.symm.trans (by rfl)))
  subst hop
  exact ⟨doc', instr, copy', hauthor, hcopy, hranges, htext ['x', 'y', 'c'] rfl⟩

end InternalDoc

end CollabMode
