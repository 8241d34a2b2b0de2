import CollabMode.Passing

/-!
# What an editor shows after a mark

A mark that brings text back puts in the characters that it names, whatever stood there before
(`Op.written`).  They are those of the document in an op whose characters match.  The engine does
not compare them, so that the text of an editor may come to differ from what was typed.
-/

namespace CollabMode

open Tombstone

/-- The character that the segments name at `i`. -/
def segChar (i : Nat) : List (Nat × Text) → Option Char
  | [] => none
  | seg :: segs =>
      if seg.1 ≤ i ∧ i < seg.1 + seg.2.length then seg.2[i - seg.1]? else segChar i segs

/-- The character that the operation names at `i`. -/
def Op.names (i : Nat) : Op → Option Char
  | .ins _ _ => none
  | .mark segs _ _ => segChar i segs

/-- What the text shows after a mark.  The characters that come back are those of the mark. -/
def written (d : Seq Char) (segs : List (Nat × Text)) (live : Bool) : Seq Char where
  items := d.items.mapIdx fun i c =>
    if live = true ∧ d.flags[i]? = some false then (segChar i segs).getD c else c
  flags := paint (covers (segRuns segs)) live d.flags
  length_eq := by rw [List.length_mapIdx, paint_length, d.length_eq]

/-- What the text shows after an operation. -/
def Op.written (d : Seq Char) : Op → Seq Char
  | .ins (p, s) _ => d.insert p s
  | .mark segs live _ => CollabMode.written d segs live

/-- What the text shows after `ops`. -/
abbrev writtenAll (d : Seq Char) (ops : List Op) : Seq Char := Grid.runAll Op.written d ops

@[simp] theorem Op.written_flags (d : Seq Char) (op : Op) :
    (op.written d).flags = (op.apply d).flags := by
  cases op <;> rfl

/-- The flags do not depend on the characters. -/
theorem apply_flags_congr {d e : Seq Char} (h : d.flags = e.flags) (op : Op) :
    (op.apply d).flags = (op.apply e).flags := by
  cases op <;> simp only [Op.apply, Seq.insert_flags, Seq.mark_flags, h]

theorem replay_flags_congr {d e : Seq Char} (h : d.flags = e.flags) (ops : List Op) :
    (replay d ops).flags = (replay e ops).flags := by
  induction ops generalizing d e with
  | nil => exact h
  | cons op ops ih => exact ih (apply_flags_congr h op)

theorem writtenAll_flags (d : Seq Char) (ops : List Op) :
    (writtenAll d ops).flags = (replay d ops).flags := by
  induction ops generalizing d with
  | nil => rfl
  | cons op ops ih => exact (ih _).trans (replay_flags_congr (Op.written_flags d op) ops)

section Segments

variable {segs : List (Nat × Text)} {i : Nat}

/-- The segments name a character wherever they cover. -/
theorem segChar_isSome : (segChar i segs).isSome ↔ covers (segRuns segs) i = true := by
  induction segs with
  | nil => exact ⟨nofun, nofun⟩
  | cons seg segs ih =>
      rw [segChar, segRuns, List.map_cons, covers_cons, Bool.or_eq_true, stretch_iff]
      split
      next hin =>
          refine iff_of_true ?_ (.inl hin)
          rw [List.getElem?_eq_getElem (by omega)]
          rfl
      next hout => exact ih.trans ⟨.inr, fun h => h.resolve_left hout⟩

/-- In segments that do not overlap it is the character of the one that covers `i`. -/
theorem segChar_mem (hasc : Ascending (segRuns segs)) {seg : Nat × Text} (hseg : seg ∈ segs)
    (h1 : seg.1 ≤ i) (h2 : i < seg.1 + seg.2.length) :
    segChar i segs = seg.2[i - seg.1]? := by
  induction segs with
  | nil => cases hseg
  | cons seg' segs ih =>
      obtain ⟨hfirst, hasc⟩ := List.pairwise_cons.mp hasc
      rw [segChar]
      rcases List.mem_cons.mp hseg with rfl | hmem
      · rw [if_pos ⟨h1, h2⟩]
      · have hle : seg'.1 + seg'.2.length ≤ seg.1 :=
          hfirst _ (List.mem_map.mpr ⟨seg, hmem, rfl⟩)
        rw [if_neg (by omega), ih hasc hmem]

end Segments

/-- A mark has in `written` the characters that it names. -/
theorem flipsMatch_written {rs : List Range} (d : Seq Char) (hd : d.flags = flags rs)
    {segs : List (Nat × Text)} (hr : SegsInRange d.items.length segs) :
    InternalDoc.FlipsMatch (written d segs true).items rs true segs := by
  intro seg hseg f hf
  have hin := mem_overlaps hf
  have hle := hr.le seg hseg
  have hdead := overlaps_allFlag f hf
  refine List.ext_getElem? fun k => ?_
  rw [piece, List.getElem?_take, List.getElem?_take, List.getElem?_drop, List.getElem?_drop]
  split
  next hk =>
      have hitem : d.items[f.1 + k]? = some d.items[f.1 + k] :=
        List.getElem?_eq_getElem (by omega)
      rw [written, List.getElem?_mapIdx, hitem, Option.map_some, hd,
        if_pos ⟨rfl, hdead _ (by omega) (by omega)⟩,
        segChar_mem hr.ascending hseg (by omega) (by omega),
        show f.1 + k - seg.1 = f.1 - seg.1 + k by omega,
        List.getElem?_eq_getElem (show f.1 - seg.1 + k < seg.2.length by omega)]
      rfl
  next => rfl

/-- The instruction makes the text that `written` shows. -/
theorem instruction_written {rs : List Range} (d : Seq Char) (hd : d.flags = flags rs) {op : Op}
    (hop : op.InRange d.items.length) :
    (InternalDoc.instruction rs op).apply d.live = some (.ok (), (op.written d).live) := by
  cases op with
  | ins op site => exact InternalDoc.instruction_apply d hd hop (.inl trivial)
  | mark segs live site =>
      have hlen : (written d segs live).items.length = (flags rs).length := by
        rw [Seq.length_eq, written, paint_length, hd]
      -- The items that change are dead, and nobody sees them before.
      have hbefore : d.live = liveItems (written d segs live).items (flags rs) := by
        rw [Seq.live, hd, liveItems_eq_iff (hd ▸ d.length_eq) hlen]
        intro i hi
        rw [written, List.getElem?_mapIdx]
        have hno : ¬ (live = true ∧ d.flags[i]? = some false) := fun h => by
          rw [hd, hi] at h
          cases h.2
        simp only [if_neg hno, Option.map_id_fun', id_eq]
      have hitems : (written d segs live).items.length = d.items.length := by
        rw [hlen, ← hd, d.length_eq]
      rw [hbefore, InternalDoc.mark_apply hlen (hitems.symm ▸ hop), ← hd]
      · rfl
      · rintro rfl
        exact flipsMatch_written d hd hop

/-! ## Marks -/

/-- The operation marks text. -/
def Op.IsMark (op : Op) : Prop := ∃ segs live site, op = .mark segs live site

section Marks

variable {op : Op} {i : Nat}

theorem written_flags_getElem? (hop : op.IsMark) (d : Seq Char) :
    (op.written d).flags[i]? = d.flags[i]?.map fun x => (op.marks i).getD x := by
  obtain ⟨segs, live, site, rfl⟩ := hop
  refine (getElem?_paint ..).trans (congrArg (fun g => d.flags[i]?.map g) ?_)
  funext x
  simp only [Op.marks]
  split <;> rfl

/-- A mark names the characters that it covers. -/
theorem Op.IsMark.names_isSome (hop : op.IsMark) : (op.names i).isSome ↔ op.marks i ≠ none := by
  obtain ⟨segs, live, site, rfl⟩ := hop
  refine segChar_isSome.trans ?_
  simp only [Op.marks]
  split <;> simp_all

/-- The character at `i` after a mark. -/
theorem written_items_getElem? (hop : op.IsMark) (d : Seq Char) :
    (op.written d).items[i]? =
      if op.marks i = some true ∧ d.flags[i]? = some false then op.names i else d.items[i]? := by
  obtain ⟨segs, live, site, rfl⟩ := hop
  have hitems : ((Op.mark segs live site).written d).items[i]? = d.items[i]?.map fun c =>
      if live = true ∧ d.flags[i]? = some false then (segChar i segs).getD c else c :=
    List.getElem?_mapIdx
  have hmarks : (Op.mark segs live site).marks i =
      if (segChar i segs).isSome then some live else none := by
    rw [Op.marks]
    exact if_congr segChar_isSome.symm rfl rfl
  rw [hitems, hmarks, Op.names]
  cases hname : segChar i segs with
  | none => simp
  | some c' =>
      simp only [Option.isSome_some, if_true, Option.some_inj, Option.getD_some]
      split
      next h =>
          have hi : i < d.items.length := by
            rw [d.length_eq]
            exact (List.getElem?_eq_some_iff.mp h.2).1
          rw [List.getElem?_eq_getElem hi]
          rfl
      next => exact Option.map_id_apply

end Marks

end CollabMode
