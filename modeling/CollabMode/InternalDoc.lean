import CollabMode.Edits
import CollabMode.Lib.AssocMap

/-!
# The internal document

`InternalDoc` of `engine.rs`: the ranges of live and dead text, with a cursor for
each site, and the functions that convert positions and apply operations.  An
internal document stores lengths only, no text.

A function that can panic returns `none` when it does: an index out of range, a
subtraction below zero, a failed assertion, an `unwrap` of `None`.  Loops that
walk along the ranges are recursions on what is left to walk, or take the number
of ranges as fuel.  Running out of either is a panic as well, since the source
would index past the end.

`apply_mark_dead` and `apply_mark_live` are one algorithm with the two
livenesses swapped, written once as `applyMark live`.
-/

namespace CollabMode

/-- `a - b`, or a panic. -/
def sub? (a b : Nat) : Option Nat := if b ≤ a then some (a - b) else none

/-- An assertion. -/
def assert? (p : Prop) [Decidable p] : Option Unit := if p then some () else none

/-! ## Ranges and cursors -/

inductive Range where
  | live (len : Nat)
  /-- Tombstone. -/
  | dead (len : Nat)
deriving DecidableEq, Repr

namespace Range

def isLive : Range → Bool
  | .live _ => true
  | .dead _ => false

def isDead (self : Range) : Bool := !self.isLive

def len : Range → Nat
  | .live len => len
  | .dead len => len

/-- The length, or 0 for a dead range. -/
def liveLen (self : Range) : Nat := if self.isLive then self.len else 0

/-- The range of the given liveness. -/
def mk (live : Bool) (len : Nat) : Range := if live then .live len else .dead len

end Range

/-- A cursor stands at the beginning of the range `range_idx`. -/
structure Cursor where
  editorPos : Nat
  internalPos : Nat
  rangeIdx : Option Nat
deriving DecidableEq, Repr

structure RangeIterator where
  rangeIdx : Nat
  rangeBeg : Nat
  rangeEnd : Nat
  isLive : Bool
  editorRangeBeg : Nat
  editorRangeEnd : Nat
  affectedRangesIdxBeg : Nat
  affectedRangesIdxEnd : Nat
deriving DecidableEq, Repr

namespace Cursor

/-- The editor position if `editorPos`, the internal position otherwise. -/
def pos (self : Cursor) (editorPos : Bool) : Nat :=
  if editorPos then self.editorPos else self.internalPos

/-- Move the cursor to the beginning of the current range of `iter`. -/
def moveToBeg (iter : RangeIterator) : Cursor :=
  { internalPos := iter.rangeBeg, editorPos := iter.editorRangeBeg, rangeIdx := some iter.rangeIdx }

/-- Shift the editor position and the range index. -/
def shift (self : Cursor) (editorPosDelta rangeIdxDelta : Int) : Option Cursor := do
  let editorPos ←
    if editorPosDelta > 0 then some (self.editorPos + editorPosDelta.natAbs)
    else sub? self.editorPos editorPosDelta.natAbs
  match self.rangeIdx with
  | none => some { self with editorPos }
  | some rangeIdx =>
      let rangeIdx ←
        if rangeIdxDelta > 0 then some (rangeIdx + rangeIdxDelta.natAbs)
        else sub? rangeIdx rangeIdxDelta.natAbs
      some { self with editorPos, rangeIdx := some rangeIdx }

end Cursor

namespace RangeIterator

def new (ranges : List Range) (cursor : Cursor) : Option RangeIterator := do
  let rangeIdx ← cursor.rangeIdx
  let range ← ranges[rangeIdx]?
  let editorRangeLen := if range.isLive then range.len else 0
  some
    { rangeIdx
      rangeBeg := cursor.internalPos
      rangeEnd := cursor.internalPos + range.len
      isLive := range.isLive
      editorRangeBeg := cursor.editorPos
      editorRangeEnd := cursor.editorPos + editorRangeLen
      affectedRangesIdxBeg := rangeIdx
      affectedRangesIdxEnd := rangeIdx + 1 }

/-- The length of the current range. -/
def rangeLen (self : RangeIterator) : Option Nat := sub? self.rangeEnd self.rangeBeg

def shiftAffectedRangeLeft (self : RangeIterator) : Option RangeIterator := do
  let beg ← sub? self.affectedRangesIdxBeg 1
  let end_ ← sub? self.affectedRangesIdxEnd 1
  some { self with affectedRangesIdxBeg := beg, affectedRangesIdxEnd := end_ }

def extendAffectedRangeRight (self : RangeIterator) : RangeIterator :=
  { self with affectedRangesIdxEnd := self.affectedRangesIdxEnd + 1 }

def contractAffectedRangeRight (self : RangeIterator) : RangeIterator :=
  { self with affectedRangesIdxBeg := self.affectedRangesIdxBeg + 1 }

/-- Move to the left by one, return the current range. -/
def moveLeft (self : RangeIterator) (ranges : List Range) : Option (RangeIterator × Range) := do
  let rangeIdx ← sub? self.rangeIdx 1
  let range ← ranges[rangeIdx]?
  let rangeEnd := self.rangeBeg
  let rangeBeg ← sub? rangeEnd range.len
  let editorRangeLen := if range.isLive then range.len else 0
  let editorRangeEnd := self.editorRangeBeg
  let editorRangeBeg ← sub? editorRangeEnd editorRangeLen
  some
    ({ self with
        rangeIdx, isLive := range.isLive, rangeEnd, rangeBeg, editorRangeEnd, editorRangeBeg },
      range)

/-- Move to the right by one, return the current range. -/
def moveRight (self : RangeIterator) (ranges : List Range) : Option (RangeIterator × Range) := do
  let rangeIdx := self.rangeIdx + 1
  let range ← ranges[rangeIdx]?
  let rangeBeg := self.rangeEnd
  let rangeEnd := rangeBeg + range.len
  let editorRangeLen := if range.isLive then range.len else 0
  let editorRangeBeg := self.editorRangeEnd
  let editorRangeEnd := editorRangeBeg + editorRangeLen
  some
    ({ self with
        rangeIdx, isLive := range.isLive, rangeEnd, rangeBeg, editorRangeEnd, editorRangeBeg },
      range)

end RangeIterator

/-! ## The document -/

structure InternalDoc where
  ranges : List Range
  /-- The cursor of each site. -/
  cursors : List (SiteId × Cursor)
deriving DecidableEq, Repr

namespace InternalDoc

/-- A document of `initLen` live characters. -/
def new (initLen : Nat) : InternalDoc :=
  { ranges := if initLen > 0 then [.live initLen] else [], cursors := [] }

/-- Scan for the cursor's internal position and compare the editor position there. -/
def checkCursor (cursor : Cursor) : Nat → Nat → List Range → Bool
  | _, _, [] => true
  | editorPos, internalPos, range :: ranges =>
      if internalPos = cursor.internalPos then editorPos = cursor.editorPos
      else
        match range with
        | .live len => checkCursor cursor (editorPos + len) (internalPos + len) ranges
        | .dead len => checkCursor cursor editorPos (internalPos + len) ranges

/-- The process exits when this is `false`. -/
def checkCursorPositions (self : InternalDoc) : Bool :=
  self.cursors.all fun (_, cursor) =>
    cursor.rangeIdx.isNone || checkCursor cursor 0 0 self.ranges

/-- The length of the editor document. -/
def editorLen (self : InternalDoc) : Nat := (self.ranges.map Range.liveLen).sum

/-- The length with the tombstones. -/
def internalLen (self : InternalDoc) : Nat := (self.ranges.map Range.len).sum

/-- The cursor of `site`, made if there is none. -/
def getCursor (self : InternalDoc) (site : SiteId) : Cursor × InternalDoc :=
  match AssocMap.get self.cursors site with
  | some cursor => (cursor, self)
  | none =>
      let cursor : Cursor := { editorPos := 0, internalPos := 0, rangeIdx := none }
      (cursor, { self with cursors := AssocMap.insert self.cursors site cursor })

/-! ### Converting positions -/

/-- The loop that goes right until `pos` lies in `range`.  The list holds the
ranges after `range`. -/
def convertPosForward (pos : Nat) (editorPos : Bool) :
    List Range → Range → Nat → Cursor → Option (Range × Nat × Cursor)
  | rest, range, rangeIdx, cursor =>
      if pos > cursor.pos editorPos + (if editorPos then range.liveLen else range.len) then
        match rest with
        | [] => none
        | next :: rest =>
            convertPosForward pos editorPos rest next (rangeIdx + 1)
              { internalPos := cursor.internalPos + range.len
                editorPos := cursor.editorPos + range.liveLen
                rangeIdx := some (rangeIdx + 1) }
      else
        some (range, rangeIdx, cursor)
termination_by structural rest => rest

/-- The loop that goes left until `pos` lies in `range`. -/
def convertPosBackward (ranges : List Range) (pos : Nat) (editorPos : Bool) :
    Nat → Range → Cursor → Option (Range × Nat × Cursor)
  | rangeIdx, range, cursor =>
      if pos < cursor.pos editorPos ||
          -- Of the two ends of a dead range, always pick the beginning.
          (editorPos && pos == cursor.pos editorPos && range.isLive && rangeIdx > 0) then
        match rangeIdx with
        | 0 => none
        | rangeIdx + 1 => do
            let range ← ranges[rangeIdx]?
            let internalPos ← sub? cursor.internalPos range.len
            let editorPos' ← sub? cursor.editorPos range.liveLen
            convertPosBackward ranges pos editorPos rangeIdx range
              { internalPos, editorPos := editorPos', rangeIdx := some rangeIdx }
      else
        some (range, rangeIdx, cursor)
termination_by structural rangeIdx => rangeIdx

/-- Convert an editor position to an internal one if `editorPos`, and the other
way around if not.  Also moves the cursor to around `pos`. -/
def convertPos (self : InternalDoc) (pos : Nat) (cursor : Cursor) (editorPos : Bool) :
    Option (Nat × Cursor) :=
  if pos = 0 then
    if self.ranges.length > 0 then
      some (0, { internalPos := 0, editorPos := 0, rangeIdx := some 0 })
    else some (0, cursor)
  else if pos = cursor.pos editorPos then some (cursor.pos (!editorPos), cursor)
  else if self.ranges.length = 0 then some (0, cursor)
  else do
    let rangeIdx := cursor.rangeIdx.getD 0
    let cursor :=
      if rangeIdx = 0 then { cursor with editorPos := 0, internalPos := 0 } else cursor
    let range ← self.ranges[rangeIdx]?
    let (range, rangeIdx, cursor) ←
      if pos > cursor.pos editorPos then
        convertPosForward pos editorPos (self.ranges.drop (rangeIdx + 1)) range rangeIdx cursor
      else convertPosBackward self.ranges pos editorPos rangeIdx range cursor
    let cursor := { cursor with rangeIdx := some rangeIdx }
    -- `pos` is within `range` and `cursor` at its beginning.
    let offset ← sub? pos (cursor.pos editorPos)
    if editorPos then some (cursor.pos (!editorPos) + offset, cursor)
    else some (cursor.pos (!editorPos) + (if range.isLive then offset else 0), cursor)

/-! ### Insertion -/

/-- Shift the cursors of the ranges from `idx` on to the right. -/
def shiftCursorsRight (self : InternalDoc) (idx delta rangeIdxDelta : Nat) : InternalDoc :=
  { self with
    cursors := self.cursors.map fun (site, cursor) =>
      match cursor.rangeIdx with
      | some cursorIdx =>
          if cursorIdx ≥ idx then
            (site,
              { internalPos := cursor.internalPos + delta
                editorPos := cursor.editorPos + delta
                rangeIdx := some (cursorIdx + rangeIdxDelta) })
          else (site, cursor)
      | none => (site, cursor) }

/-- Insert `len` characters at the internal position `pos`.  `cursor` points to
the range that receives them. -/
def applyIns (self : InternalDoc) (pos len : Nat) (cursor : Cursor) :
    Option (Cursor × InternalDoc) :=
  if self.ranges.length = 0 then
    -- (a)
    some (cursor, { self with ranges := self.ranges ++ [Range.live len] })
  else do
    let rangeIdx ← cursor.rangeIdx
    let range ← self.ranges[rangeIdx]?
    let rangeBeg := cursor.internalPos
    let rangeEnd := rangeBeg + range.len
    assert? (rangeBeg ≤ pos)
    assert? (pos ≤ rangeEnd)
    if range.isLive then
      -- (b)
      let self := { self with ranges := self.ranges.set rangeIdx (.live (range.len + len)) }
      some (cursor, self.shiftCursorsRight (rangeIdx + 1) len 0)
    else if rangeBeg = pos then
      -- At the beginning of a dead range.
      let moved := { cursor with
        internalPos := cursor.internalPos + len, editorPos := cursor.editorPos + len }
      if rangeIdx ≥ 1 then
        -- (c)
        let rangeBefore ← self.ranges[rangeIdx - 1]?
        assert? rangeBefore.isLive
        let self := { self with
          ranges := self.ranges.set (rangeIdx - 1) (.live (rangeBefore.len + len)) }
        some (moved, self.shiftCursorsRight rangeIdx len 0)
      else
        -- (d)
        let self := { self with
          ranges := self.ranges.take rangeIdx ++ [Range.live len] ++ self.ranges.drop rangeIdx }
        some ({ moved with rangeIdx := some (rangeIdx + 1) },
          self.shiftCursorsRight rangeIdx len 1)
    else if rangeEnd = pos then
      -- At the end of a dead range.
      if rangeIdx + 1 < self.ranges.length then
        -- (e)
        let rangeAfter ← self.ranges[rangeIdx + 1]?
        assert? rangeAfter.isLive
        let self := { self with
          ranges := self.ranges.set (rangeIdx + 1) (.live (rangeAfter.len + len)) }
        some (cursor, self.shiftCursorsRight (rangeIdx + 2) len 0)
      else
        -- (f)
        some (cursor, { self with ranges := self.ranges ++ [Range.live len] })
    else
      -- (g) Inside a dead range.
      let mid ← sub? pos rangeBeg
      let right ← sub? range.len mid
      let self := { self with
        ranges := self.ranges.take rangeIdx ++ [Range.dead mid, Range.live len, Range.dead right] ++
          self.ranges.drop (rangeIdx + 1) }
      some ({ cursor with internalPos := pos, rangeIdx := some (rangeIdx + 1) },
        self.shiftCursorsRight (rangeIdx + 1) len 2)

/-! ### Marking -/

/-- The local variables of `apply_mark_dead` and `apply_mark_live`. -/
structure MarkState where
  iter : RangeIterator
  range : Range
  len : Nat
  finalRanges : List Range
  flippedRanges : List (Nat × Nat)
  flippedRangesLen : Nat
  cursor : Cursor
deriving DecidableEq, Repr

namespace MarkState

/-- Push a flipped range.  It must not touch the last one. -/
def pushWoDup (st : MarkState) (range : Nat × Nat) : Option MarkState :=
  let pushed := { st with
    flippedRanges := st.flippedRanges ++ [range]
    flippedRangesLen := st.flippedRangesLen + range.2 }
  match st.flippedRanges.getLast? with
  | none => some pushed
  | some (lbeg, llen) => do
      let lend := lbeg + llen
      let (beg, len) := range
      let end_ := beg + len
      assert? (¬ (beg ≤ lend ∧ lbeg ≤ end_))
      some pushed

/-- The current range begins before the marked range. -/
def markPrefix (live : Bool) (beg end_ : Nat) (st : MarkState) : Option MarkState :=
  if st.iter.rangeBeg < beg then do
    let prefixLen ← sub? beg st.iter.rangeBeg
    if st.range.isLive = live then
      -- Extend the marked range to the left, and move the cursor there.
      some { st with len := st.len + prefixLen, cursor := Cursor.moveToBeg st.iter }
    else
      let st := { st with finalRanges := st.finalRanges ++ [Range.mk (!live) prefixLen] }
      let flippedEnd := min end_ st.iter.rangeEnd
      let flippedLen ← sub? flippedEnd beg
      st.pushWoDup (beg, flippedLen)
  else some st

/-- The current range ends after the marked range. -/
def markSuffix (live : Bool) (beg end_ : Nat) (st : MarkState) : Option MarkState := do
  -- `apply_mark_live` works out the same length from the middle of the range.
  let suffixLen ←
    if live then do
      let suffixMid ← sub? end_ st.iter.rangeBeg
      sub? st.range.len suffixMid
    else sub? st.iter.rangeEnd end_
  if st.range.isLive = live then
    let len := st.len + suffixLen
    some { st with len, finalRanges := st.finalRanges ++ [Range.mk live len] }
  else
    let st := { st with
      finalRanges := st.finalRanges ++ [Range.mk live st.len, Range.mk (!live) suffixLen] }
    if st.iter.rangeBeg < beg then some st
    else do
      let flippedBeg := max st.iter.rangeBeg beg
      let flippedLen ← sub? end_ flippedBeg
      st.pushWoDup (flippedBeg, flippedLen)

/-- Push the current range as flipped, unless its prefix was. -/
def pushWhole (live : Bool) (beg : Nat) (st : MarkState) : Option MarkState :=
  if st.range.isLive ≠ live ∧ ¬ st.iter.rangeBeg < beg then do
    let rangeLen ← st.iter.rangeLen
    st.pushWoDup (st.iter.rangeBeg, rangeLen)
  else some st

/-- The current range ends with the marked range. -/
def markEnd (live : Bool) (ranges : List Range) (beg : Nat) (st : MarkState) :
    Option MarkState := do
  let st ← st.pushWhole live beg
  let st ←
    if st.iter.rangeIdx + 1 < ranges.length then do
      let (iter, nextRange) ← st.iter.moveRight ranges
      if nextRange.isLive = live then do
        let rangeLen ← iter.rangeLen
        some { st with iter := iter.extendAffectedRangeRight, len := st.len + rangeLen }
      else some { st with iter }
    else some st
  some { st with finalRanges := st.finalRanges ++ [Range.mk live st.len] }

/-- One turn of the loop, and whether it breaks. -/
def markTurn (live : Bool) (ranges : List Range) (beg end_ : Nat) (st : MarkState) :
    Option (MarkState × Bool) :=
  if st.iter.rangeEnd < beg then
    some ({ st with iter := st.iter.contractAffectedRangeRight }, false)
  else if st.iter.rangeEnd = beg then
    if st.range.isLive = live then do
      let rangeLen ← st.iter.rangeLen
      some ({ st with len := st.len + rangeLen, cursor := Cursor.moveToBeg st.iter }, false)
    else some ({ st with iter := st.iter.contractAffectedRangeRight }, false)
  else do
    -- The current range overlaps the marked range.
    let st ← st.markPrefix live beg end_
    if st.iter.rangeEnd > end_ then do
      let st ← st.markSuffix live beg end_
      some (st, true)
    else if st.iter.rangeEnd = end_ then do
      let st ← st.markEnd live ranges beg
      some (st, true)
    else do
      let st ← st.pushWhole live beg
      some (st, false)

def markLoop (live : Bool) (ranges : List Range) (beg end_ : Nat) :
    Nat → MarkState → Option MarkState
  | 0, _ => none
  | fuel + 1, st => do
      let (st, broke) ← st.markTurn live ranges beg end_
      if broke then some st
      else do
        let (iter, range) ← st.iter.moveRight ranges
        markLoop live ranges beg end_ fuel
          { st with iter := iter.extendAffectedRangeRight, range }

end MarkState

/-- The cursors of the other sites after the affected ranges were replaced. -/
def moveOtherCursor (iter : RangeIterator) (cursor : Cursor)
    (editorPosDelta rangeIdxDelta : Int) (otherCursor : Cursor) : Option Cursor :=
  match otherCursor.rangeIdx with
  | none => some otherCursor
  | some otherCursorRangeIdx =>
      if otherCursorRangeIdx ≥ iter.affectedRangesIdxBeg ∧
          otherCursorRangeIdx < iter.affectedRangesIdxEnd then some cursor
      else if otherCursorRangeIdx ≥ iter.affectedRangesIdxEnd then
        otherCursor.shift editorPosDelta rangeIdxDelta
      else some otherCursor

/-- Give the characters from `pos` to `pos + len` the liveness `live`.  Returns
the ranges that were actually flipped, as `(pos, len)`. -/
def applyMark (live : Bool) (self : InternalDoc) (pos len : Nat) (cursor : Cursor) :
    Option (List (Nat × Nat) × Cursor × InternalDoc) := do
  let beg := pos
  let end_ := pos + len
  assert? (end_ ≤ self.internalLen)
  let iter ← RangeIterator.new self.ranges cursor
  let range ← self.ranges[iter.rangeIdx]?
  assert? (iter.rangeBeg ≤ beg)
  -- Cover the range that precedes the starting range.
  let (iter, range) ←
    if iter.rangeEnd > beg ∧ iter.rangeIdx > 0 then do
      let (iter, range) ← iter.moveLeft self.ranges
      let iter ← iter.shiftAffectedRangeLeft
      some (iter, range)
    else some (iter, range)
  let st ← MarkState.markLoop live self.ranges beg end_ self.ranges.length
    { iter, range, len, finalRanges := [], flippedRanges := [], flippedRangesLen := 0, cursor }
  let affectedRangesCount ← sub? st.iter.affectedRangesIdxEnd st.iter.affectedRangesIdxBeg
  let rangeIdxDelta : Int := st.finalRanges.length - affectedRangesCount
  let editorPosDelta : Int := if live then st.flippedRangesLen else -st.flippedRangesLen
  let ranges := self.ranges.take st.iter.affectedRangesIdxBeg ++ st.finalRanges ++
    self.ranges.drop st.iter.affectedRangesIdxEnd
  let cursors ← AssocMap.mapValsM
    (moveOtherCursor st.iter st.cursor editorPosDelta rangeIdxDelta) self.cursors
  some (st.flippedRanges, st.cursor, { ranges, cursors })

/-- Mark the characters from `pos` to `pos + len` as dead. -/
def applyMarkDead (self : InternalDoc) (pos len : Nat) (cursor : Cursor) :
    Option (List (Nat × Nat) × Cursor × InternalDoc) :=
  self.applyMark false pos len cursor

/-- Mark the characters from `pos` to `pos + len` as live. -/
def applyMarkLive (self : InternalDoc) (pos len : Nat) (cursor : Cursor) :
    Option (Cursor × InternalDoc) := do
  let (_, cursor, self) ← self.applyMark true pos len cursor
  some (cursor, self)

/-! ### Converting operations -/

/-- The edit for the current range, if the mark flips a part of it. -/
def captureRange (text : Text) (live : Bool) (markedBeg markedEnd : Nat) (iter : RangeIterator)
    (ranges : List (Nat × Text)) : Option (List (Nat × Text)) :=
  if live ≠ iter.isLive ∧ iter.rangeBeg ≤ markedBeg ∧ markedBeg < iter.rangeEnd then do
    let capturedStart := 0
    let capturedEnd ← sub? (min iter.rangeEnd markedEnd) markedBeg
    let capturedLen ← sub? capturedEnd capturedStart
    let capturedText := (text.drop capturedStart).take capturedLen
    let offset ← sub? markedBeg iter.rangeBeg
    let capturedEditorBeg :=
      if iter.isLive then iter.editorRangeBeg + offset else iter.editorRangeBeg
    some (ranges ++ [(capturedEditorBeg, capturedText)])
  else if live ≠ iter.isLive ∧ iter.rangeBeg ≤ markedEnd ∧ markedEnd ≤ iter.rangeEnd then do
    let capturedStart ← sub? (max iter.rangeBeg markedBeg) markedBeg
    let capturedEnd := text.length
    let capturedLen ← sub? capturedEnd capturedStart
    let capturedText := (text.drop capturedStart).take capturedLen
    some (ranges ++ [(iter.editorRangeBeg, capturedText)])
  else if live ≠ iter.isLive ∧ iter.rangeBeg > markedBeg ∧ iter.rangeEnd ≤ markedEnd then do
    let capturedStart ← sub? iter.rangeBeg markedBeg
    let capturedEnd ← sub? iter.rangeEnd markedBeg
    let capturedLen ← sub? capturedEnd capturedStart
    let capturedText := (text.drop capturedStart).take capturedLen
    some (ranges ++ [(iter.editorRangeBeg, capturedText)])
  else if live ≠ iter.isLive ∧ iter.rangeBeg < markedEnd ∧ markedBeg < iter.rangeEnd then
    -- "Unreachable: ranges overlap but no condition matched."
    none
  else some ranges

/-- Convert the part of a mark that flips something to edits of the editor, one
for each range of the other liveness.  `cursor` points to the first range. -/
def markToInsOrDelLoop (self : InternalDoc) (text : Text) (live : Bool)
    (markedBeg markedEnd : Nat) :
    Nat → RangeIterator → List (Nat × Text) → Option (List (Nat × Text))
  | 0, _, _ => none
  | fuel + 1, iter, ranges => do
      let ranges ← captureRange text live markedBeg markedEnd iter ranges
      if iter.rangeIdx + 1 = self.ranges.length then some ranges
      else do
        let (iter, _) ← iter.moveRight self.ranges
        if iter.rangeBeg ≥ markedEnd then some ranges
        else markToInsOrDelLoop self text live markedBeg markedEnd fuel iter ranges

def markToInsOrDel (self : InternalDoc) (pos : Nat) (text : Text) (cursor : Cursor)
    (ranges : List (Nat × Text)) (live : Bool) : Option (List (Nat × Text)) :=
  if text.length = 0 then some ranges
  else do
    let iter ← RangeIterator.new self.ranges cursor
    markToInsOrDelLoop self text live pos (pos + text.length) self.ranges.length iter ranges

/-- The texts of the flipped ranges, cut off `text` one after the other. -/
def cutFlipped (text : Text) : Nat → List (Nat × Nat) → List (Nat × Text)
  | _, [] => []
  | textIdx, (pos, len) :: flipped =>
      (pos, (text.drop textIdx).take len) :: cutFlipped text (textIdx + len) flipped

/-- Convert the position of `op` to the internal document and apply it. -/
def convertEditorOpAndApply (self : InternalDoc) (op : EditorOp) (site : SiteId) :
    Option (Op × InternalDoc) := do
  let (cursor, self) := self.getCursor site
  let (convertedOp, cursor, self) ←
    match op with
    | .ins pos text => do
        let (internalPos, cursor) ← self.convertPos pos cursor true
        let (cursor, self) ← self.applyIns internalPos text.length cursor
        some (Op.ins (internalPos, text) site, cursor, self)
    | .del pos text => do
        let (internalPos, cursor) ← self.convertPos pos cursor true
        let editorEnd := pos + text.length
        let (internalEnd, _) ← self.convertPos editorEnd cursor true
        let internalLen ← sub? internalEnd internalPos
        -- Skip the already dead ranges, so that undoing this op only brings
        -- back what it deleted.
        let (flippedRanges, cursor, self) ← self.applyMarkDead internalPos internalLen cursor
        some (Op.mark (cutFlipped text 0 flippedRanges) false site, cursor, self)
    | .undo _ => none
    | .redo _ => none
  let self := { self with cursors := AssocMap.insert self.cursors site cursor }
  assert? self.checkCursorPositions
  some (convertedOp, self)

/-- Convert all segments of a mark, in one context. -/
def convertSegs (self : InternalDoc) (live : Bool) :
    List (Nat × Text) → Cursor → List (Nat × Text) → Option (Cursor × List (Nat × Text))
  | [], cursor, newEdits => some (cursor, newEdits)
  | (pos, text) :: edits, cursor, newEdits => do
      let (_, cursor) ← self.convertPos pos cursor false
      let newEdits ← self.markToInsOrDel pos text cursor newEdits live
      convertSegs self live edits cursor newEdits

/-- Apply all segments of a mark, one after the other. -/
def applySegs (live : Bool) :
    List (Nat × Text) → Cursor → InternalDoc → Option (Cursor × InternalDoc)
  | [], cursor, self => some (cursor, self)
  | (pos, text) :: edits, cursor, self => do
      let (_, cursor) ← self.convertPos pos cursor false
      let (cursor, self) ←
        if live then self.applyMarkLive pos text.length cursor
        else do
          let (_, cursor, self) ← self.applyMarkDead pos text.length cursor
          some (cursor, self)
      applySegs live edits cursor self

/-- Convert `op` from internal to editor positions and apply it. -/
def convertInternalOpAndApply (self : InternalDoc) (op : Op) :
    Option (EditInstruction × InternalDoc) := do
  let (cursor, self) := self.getCursor op.site
  let (instr, cursor, self) ←
    match op with
    | .ins (pos, text) _ => do
        let (editorPos, cursor) ← self.convertPos pos cursor false
        let (cursor, self) ← self.applyIns pos text.length cursor
        some (EditInstruction.ins [⟨editorPos, text⟩], cursor, self)
    | .mark edits live _ => do
        -- All segments are converted before any is applied, since they belong
        -- to one context.
        let (cursor, newEdits) ← self.convertSegs live edits cursor []
        let (cursor, self) ← applySegs live edits cursor self
        let newEdits := newEdits.map fun (pos, content) => (⟨pos, content⟩ : Edit)
        some (if live then EditInstruction.ins newEdits else EditInstruction.del newEdits,
          cursor, self)
  let self := { self with cursors := AssocMap.insert self.cursors op.site cursor }
  assert? self.checkCursorPositions
  some (instr, self)

end InternalDoc

end CollabMode
