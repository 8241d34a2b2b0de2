import CollabMode.DocCursor
import Mathlib.Data.Bool.Count

/-!
# Marks of the internal document

`overlaps` lists what a mark flips: the parts of the ranges of the other
liveness that lie in the marked stretch.  The loop of `apply_mark_dead` and
`apply_mark_live` replaces some ranges by new ones and collects these parts.
`MarkInv` holds whenever the loop looks at a range, `MarkDone` when it breaks.
-/

namespace CollabMode

open Tombstone

/-! ## What a mark flips -/

/-- The parts between `beg` and `end_` of the ranges that are not `live`, when
the ranges begin at position `o`. -/
def overlaps (live : Bool) (beg end_ : Nat) : Nat → List Range → List (Nat × Nat)
  | _, [] => []
  | o, r :: rs =>
      (if r.isLive ≠ live ∧ max o beg < min (o + r.len) end_ then
        [(max o beg, min (o + r.len) end_ - max o beg)]
      else []) ++ overlaps live beg end_ (o + r.len) rs

section Overlaps

variable {live : Bool} {beg end_ : Nat}

theorem overlaps_append (o : Nat) (rs rs' : List Range) :
    overlaps live beg end_ o (rs ++ rs') =
      overlaps live beg end_ o rs ++ overlaps live beg end_ (o + extent false rs) rs' := by
  induction rs generalizing o with
  | nil => simp [overlaps]
  | cons r rs ih => simp [overlaps, ih, Nat.add_assoc]

theorem mem_overlaps {o : Nat} {rs : List Range} {f : Nat × Nat}
    (h : f ∈ overlaps live beg end_ o rs) :
    beg ≤ f.1 ∧ o ≤ f.1 ∧ 0 < f.2 ∧ f.1 + f.2 ≤ end_ ∧ f.1 + f.2 ≤ o + extent false rs := by
  induction rs generalizing o with
  | nil => cases h
  | cons r rs ih =>
      rw [overlaps, List.mem_append] at h
      simp only [extent_cons, Range.size_false]
      rcases h with h | h
      · split at h
        next hc =>
          rw [List.mem_singleton] at h
          subst h
          simp only
          omega
        next => cases h
      · have := ih h
        omega

theorem overlaps_ascending (o : Nat) (rs : List Range) :
    Ascending (overlaps live beg end_ o rs) := by
  induction rs generalizing o with
  | nil => exact List.Pairwise.nil
  | cons r rs ih =>
      refine List.pairwise_append.mpr ⟨?_, ih _, ?_⟩
      · split
        · exact List.pairwise_singleton _ _
        · exact List.Pairwise.nil
      · intro f hf f' hf'
        have := mem_overlaps hf'
        split at hf
        next hc =>
          rw [List.mem_singleton] at hf
          subst hf
          simp only
          omega
        next => cases hf

/-- A mark flips the characters of the other liveness, and only them. -/
theorem covers_overlaps {o : Nat} {rs : List Range} {i : Nat} :
    covers (overlaps live beg end_ o rs) i = true ↔
      beg ≤ i ∧ i < end_ ∧ o ≤ i ∧ (flags rs)[i - o]? = some (!live) := by
  induction rs generalizing o with
  | nil => simp [overlaps]
  | cons r rs ih =>
      rw [overlaps, covers_append, Bool.or_eq_true, ih, flags_cons]
      have hflag : r.isLive ≠ live ↔ r.isLive = !live := by
        cases r.isLive <;> cases live <;> simp
      by_cases hi : i < o + r.len
      · -- Position `i` lies in this range or before it.
        have hrest : ¬ (beg ≤ i ∧ i < end_ ∧ o + r.len ≤ i ∧
            (flags rs)[i - (o + r.len)]? = some (!live)) := by omega
        by_cases ho : o ≤ i
        · rw [List.getElem?_append_left (by simp; omega), List.getElem?_replicate,
            if_pos (show i - o < r.len by omega), Option.some_inj, ← hflag]
          split
          next hc =>
            simp only [covers_cons, covers_nil, Bool.or_false, stretch_iff, hrest, or_false, hc.1,
              ne_eq, not_false_eq_true, and_true]
            omega
          next hc =>
            simp only [covers_nil, Bool.false_eq_true, hrest, or_false, false_iff]
            rintro ⟨h1, h2, -, h4⟩
            exact hc ⟨h4, by omega⟩
        · simp only [hrest, or_false, ho, false_and, and_false, iff_false]
          split
          · simp only [covers_cons, covers_nil, Bool.or_false, stretch_iff]
            omega
          · simp
      · have hthis : ¬ (covers (if r.isLive ≠ live ∧ max o beg < min (o + r.len) end_ then
            [(max o beg, min (o + r.len) end_ - max o beg)] else []) i = true) := by
          split
          · simp only [covers_cons, covers_nil, Bool.or_false, stretch_iff]
            omega
          · simp
        rw [List.getElem?_append_right (by simp; omega), List.length_replicate,
          show i - o - r.len = i - (o + r.len) by omega]
        simp only [hthis, Bool.false_eq_true, false_or]
        constructor <;> rintro ⟨h1, h2, h3, h4⟩ <;> exact ⟨h1, h2, by omega, h4⟩

theorem overlaps_allFlag {rs : List Range} :
    ∀ f ∈ overlaps live beg end_ 0 rs, AllFlag (!live) (flags rs) f := by
  intro f hf i h1 h2
  have : covers (overlaps live beg end_ 0 rs) i = true := covers_iff.mpr ⟨f, hf, h1, h2⟩
  exact (covers_overlaps.mp this).2.2.2

/-- Painting what flips is painting the whole stretch. -/
theorem paint_overlaps (rs : List Range) :
    paint (covers (overlaps live beg end_ 0 rs)) live (flags rs) =
      paint (stretch (beg, end_ - beg)) live (flags rs) := by
  refine paint_congr fun i hi => ?_
  rw [Bool.eq_iff_iff, covers_overlaps, stretch_iff]
  simp only [Nat.sub_zero, hi, and_true]
  omega

theorem overlaps_of_end_le {o : Nat} (h : end_ ≤ o) (rs : List Range) :
    overlaps live beg end_ o rs = [] := by
  induction rs generalizing o with
  | nil => rfl
  | cons r rs ih =>
      rw [overlaps, ih (by omega), if_neg (by omega)]
      rfl

theorem overlaps_of_le_beg {o : Nat} {r : Range} (h : o + r.len ≤ beg) :
    overlaps live beg end_ o [r] = [] := by
  rw [overlaps, if_neg (by omega)]
  rfl

theorem overlaps_target {o : Nat} {r : Range} (h : r.isLive = live) :
    overlaps live beg end_ o [r] = [] := by
  rw [overlaps, if_neg (by simp [h])]
  rfl

/-- The range before one of the other liveness is not flipped, so the flipped
parts do not touch. -/
theorem overlaps_gap {P Q : List Range} {r : Range} (hok : RangesOk (P ++ r :: Q))
    (hr : r.isLive ≠ live) :
    ∀ f ∈ (overlaps live beg end_ 0 P).getLast?, f.1 + f.2 < extent false P := by
  intro f hf
  have hmem := List.mem_of_getLast? hf
  rcases List.eq_nil_or_concat P with rfl | ⟨P₀, r₀, rfl⟩
  · cases hmem
  · rw [List.concat_eq_append] at *
    have hpos : 0 < r₀.len := hok.pos r₀ (by simp)
    have hne : r₀.isLive ≠ r.isLive := hok.meet r₀ (by simp) r (by simp)
    have hr₀ : r₀.isLive = live := by
      cases h₀ : r₀.isLive <;> cases h₁ : r.isLive <;> cases live <;> simp_all
    rw [overlaps_append, overlaps_target hr₀, List.append_nil] at hmem
    have := mem_overlaps hmem
    simp
    omega

/-- The live characters gained or lost are those in the flipped parts. -/
theorem flags_count_paint (live : Bool) (beg end_ : Nat) (rs : List Range) :
    (paint (stretch (beg, end_ - beg)) live (flags rs)).count true +
        (if live then 0 else ((overlaps live beg end_ 0 rs).map Prod.snd).sum) =
      extent true rs + (if live then ((overlaps live beg end_ 0 rs).map Prod.snd).sum else 0) := by
  have hasc : Ascending (overlaps live beg end_ 0 rs) := overlaps_ascending 0 rs
  have hcount := count_paint_covers (b := live) (f := flags rs) hasc
    (by intro f hf; have := mem_overlaps hf; rw [flags_length]; omega) overlaps_allFlag
  rw [paint_overlaps] at hcount
  cases live with
  | true => simpa using hcount
  | false =>
      have h1 := List.count_true_add_count_false
        (l := paint (stretch (beg, end_ - beg)) false (flags rs))
      have h2 := List.count_true_add_count_false (l := flags rs)
      rw [paint_length] at h1
      rw [flags_count] at h2
      simp only [Bool.false_eq_true, if_false]
      omega

end Overlaps

/-! ## The iterator -/

/-- The iterator at the range behind `P`, with the affected ranges from `ab` to
`ae`. -/
def RangeIterator.atRange (ab ae : Nat) (P : List Range) (r : Range) : RangeIterator :=
  { rangeIdx := P.length
    rangeBeg := extent false P
    rangeEnd := extent false P + r.len
    isLive := r.isLive
    editorRangeBeg := extent true P
    editorRangeEnd := extent true P + r.liveLen
    affectedRangesIdxBeg := ab
    affectedRangesIdxEnd := ae }

namespace RangeIterator

variable {rs P Q : List Range} {r : Range}

theorem new_after (h : rs = P ++ r :: Q) :
    RangeIterator.new rs (Cursor.after P) = some (atRange P.length (P.length + 1) P r) := by
  simp only [new, Cursor.after, getElem?_split h, Option.bind_eq_bind, Option.bind_some]
  rfl

theorem moveRight_at {r' : Range} (h : rs = P ++ r :: r' :: Q) (ab ae : Nat) :
    (atRange ab ae P r).moveRight rs = some (atRange ab ae (P ++ [r]) r', r') := by
  have hget : rs[P.length + 1]? = some r' := by
    have hsplit : rs = (P ++ [r]) ++ r' :: Q := by simp [h]
    simpa using getElem?_split hsplit
  simp only [moveRight, atRange, hget, Option.bind_eq_bind, Option.bind_some]
  simp [Range.liveLen]

theorem moveLeft_at {r₀ : Range} (h : rs = P ++ r₀ :: Q) (ab ae : Nat) :
    (atRange ab ae (P ++ [r₀]) r).moveLeft rs = some (atRange ab ae P r₀, r₀) := by
  have hlen : (if r₀.isLive then r₀.len else 0) = r₀.liveLen := rfl
  simp [moveLeft, atRange, sub?, getElem?_split h, hlen]

theorem shiftAffectedRangeLeft_at (ab ae : Nat) :
    (atRange (ab + 1) (ae + 1) P r).shiftAffectedRangeLeft = some (atRange ab ae P r) := by
  simp [shiftAffectedRangeLeft, atRange, sub?]

theorem rangeLen_at (ab ae : Nat) : (atRange ab ae P r).rangeLen = some r.len := by
  simp [rangeLen, atRange, sub?]

@[simp] theorem extend_at (ab ae : Nat) :
    (atRange ab ae P r).extendAffectedRangeRight = atRange ab (ae + 1) P r := rfl

@[simp] theorem contract_at (ab ae : Nat) :
    (atRange ab ae P r).contractAffectedRangeRight = atRange (ab + 1) ae P r := rfl

@[simp] theorem atRange_rangeIdx (ab ae : Nat) : (atRange ab ae P r).rangeIdx = P.length := rfl
@[simp] theorem atRange_rangeBeg (ab ae : Nat) :
    (atRange ab ae P r).rangeBeg = extent false P := rfl
@[simp] theorem atRange_rangeEnd (ab ae : Nat) :
    (atRange ab ae P r).rangeEnd = extent false P + r.len := rfl
@[simp] theorem atRange_isLive (ab ae : Nat) : (atRange ab ae P r).isLive = r.isLive := rfl
@[simp] theorem atRange_editorRangeBeg (ab ae : Nat) :
    (atRange ab ae P r).editorRangeBeg = extent true P := rfl
@[simp] theorem atRange_affectedRangesIdxBeg (ab ae : Nat) :
    (atRange ab ae P r).affectedRangesIdxBeg = ab := rfl
@[simp] theorem atRange_affectedRangesIdxEnd (ab ae : Nat) :
    (atRange ab ae P r).affectedRangesIdxEnd = ae := rfl

theorem moveToBeg_at (ab ae : Nat) : Cursor.moveToBeg (atRange ab ae P r) = Cursor.after P := rfl

end RangeIterator

/-! ## The flags a mark leaves -/

/-- The flags after the stretch from `beg` to `end_` was marked. -/
def painted (live : Bool) (beg end_ : Nat) (rs : List Range) : List Bool :=
  paint (stretch (beg, end_ - beg)) live (flags rs)

section Painted

variable {live : Bool} {beg end_ k k' : Nat} {rs P Q : List Range} {r : Range}

theorem getElem?_painted (h : rs = P ++ r :: Q) {i : Nat} (h1 : extent false P ≤ i)
    (h2 : i < extent false P + r.len) :
    (painted live beg end_ rs)[i]? = some (if beg ≤ i ∧ i < end_ then live else r.isLive) := by
  have hflag : (flags rs)[i]? = some r.isLive := by
    rw [h, flags_append, List.getElem?_append_right (by simpa using h1), flags_cons,
      List.getElem?_append_left (by simp; omega), List.getElem?_replicate,
      if_pos (by simp; omega)]
  have hcover : stretch (beg, end_ - beg) i = true ↔ beg ≤ i ∧ i < end_ := by
    rw [stretch_iff]
    simp only
    omega
  simp [painted, getElem?_paint, hflag, hcover]

theorem take_outside (h : rs = P ++ r :: Q) (h1 : extent false P ≤ k) (hk : k ≤ k')
    (h2 : k' ≤ extent false P + r.len) (hout : k' ≤ beg ∨ end_ ≤ k) :
    (painted live beg end_ rs).take k' =
      (painted live beg end_ rs).take k ++ List.replicate (k' - k) r.isLive := by
  refine take_extend hk fun i hi hi' => ?_
  rw [getElem?_painted h (by omega) (by omega), if_neg (by omega)]

theorem take_inside (h : rs = P ++ r :: Q) (h1 : extent false P ≤ k) (hk : k ≤ k')
    (h2 : k' ≤ extent false P + r.len) (hin : beg ≤ k ∧ k' ≤ end_ ∨ r.isLive = live) :
    (painted live beg end_ rs).take k' =
      (painted live beg end_ rs).take k ++ List.replicate (k' - k) live := by
  refine take_extend hk fun i hi hi' => ?_
  rw [getElem?_painted h (by omega) (by omega)]
  rcases hin with hin | hin
  · rw [if_pos (by omega)]
  · rw [hin, ite_self]

/-- Before the marked stretch nothing changes. -/
theorem take_unpainted (hk : k ≤ beg) : (painted live beg end_ rs).take k = (flags rs).take k := by
  apply List.ext_getElem?
  intro i
  by_cases hi : i < k
  · have hcover : stretch (beg, end_ - beg) i = false := by
      rw [Bool.eq_false_iff, ne_eq, stretch_iff]
      simp only
      omega
    rw [List.getElem?_take_of_lt hi, List.getElem?_take_of_lt hi, painted, getElem?_paint, hcover]
    simp
  · rw [List.getElem?_eq_none (by simp; omega), List.getElem?_eq_none (by simp; omega)]

end Painted

/-! ## The loop -/

open InternalDoc (MarkState)

/-- The new ranges behind `A`, with the marked range as far as position `k`,
give the flags up to `k`. -/
structure Painted (live : Bool) (beg end_ : Nat) (rs A : List Range) (k : Nat) (st : MarkState) :
    Prop where
  ok : RangesOk (A ++ st.finalRanges)
  flags_eq : ∃ ext, st.len = (end_ - beg) + ext ∧
    flags (A ++ st.finalRanges) ++ List.replicate (ext + (k - beg)) live =
      (painted live beg end_ rs).take k

/-- The flipped ranges collected so far. -/
structure Flipped (fl : List (Nat × Nat)) (st : MarkState) : Prop where
  ranges : st.flippedRanges = fl
  len : st.flippedRangesLen = (fl.map Prod.snd).sum

/-- The loop looks at the range `r` behind `P`.  The ranges `A` stay as they
are. -/
structure MarkInv (live : Bool) (beg end_ : Nat) (rs A P : List Range) (r : Range)
    (Q : List Range) (st : MarkState) : Prop where
  split : rs = P ++ r :: Q
  iter : st.iter = .atRange A.length (P.length + 1) P r
  range : st.range = r
  front : A <+: P
  lt : extent false P < end_
  progress : Painted live beg end_ rs A (extent false P) st
  early : extent false P < beg → A = P ∧ st.finalRanges = [] ∧ st.len = end_ - beg
  edge : beg ≤ extent false P → ∀ x ∈ (A ++ st.finalRanges).getLast?, x.isLive ≠ live
  flips : Flipped (overlaps live beg end_ 0 P) st
  /-- Right after the move to the left the cursor still stands one range
  further right. -/
  cursor : (∃ P', P' <+: A ∧ st.cursor = .after P') ∨
    A = P ∧ extent false P + r.len ≤ beg ∧ st.cursor = .after (P ++ [r])

/-- The range overlaps the marked stretch, and its part before the stretch is
done. -/
structure MarkMid (live : Bool) (beg end_ : Nat) (rs A P : List Range) (r : Range)
    (st : MarkState) : Prop where
  iter : st.iter = .atRange A.length (P.length + 1) P r
  range : st.range = r
  progress : Painted live beg end_ rs A (max (extent false P) beg) st
  edge : ∀ x ∈ (A ++ st.finalRanges).getLast?, x.isLive ≠ live
  flips : Flipped (overlaps live beg end_ 0 P ++
    if r.isLive ≠ live ∧ extent false P < beg then
      [(beg, min end_ (extent false P + r.len) - beg)] else []) st
  cursor : ∃ P', P' <+: A ∧ st.cursor = .after P'

/-- The loop is done: the new ranges replace those from `A` to `B`. -/
structure MarkDone (live : Bool) (beg end_ : Nat) (rs A B C : List Range) (st : MarkState) :
    Prop where
  split : rs = B ++ C
  front : A <+: B
  idxBeg : st.iter.affectedRangesIdxBeg = A.length
  idxEnd : st.iter.affectedRangesIdxEnd = B.length
  nonempty : st.finalRanges ≠ []
  ok : RangesOk (A ++ st.finalRanges ++ C)
  flags_eq : flags (A ++ st.finalRanges) = (painted live beg end_ rs).take (extent false B)
  le : end_ ≤ extent false B
  flips : Flipped (overlaps live beg end_ 0 rs) st
  cursor : ∃ P', P' <+: A ∧ st.cursor = .after P'

section Turn

variable {live : Bool} {beg end_ : Nat} {rs A P Q : List Range} {r : Range} {st : MarkState}

/-- A flipped range is pushed when it does not touch the last one. -/
theorem pushWoDup_spec {fl : List (Nat × Nat)} (h : Flipped fl st) (x : Nat × Nat)
    (hgap : ∀ f ∈ fl.getLast?, f.1 + f.2 < x.1) :
    ∃ st', st.pushWoDup x = some st' ∧ Flipped (fl ++ [x]) st' ∧
      st' = { st with
        flippedRanges := st'.flippedRanges, flippedRangesLen := st'.flippedRangesLen } := by
  refine ⟨{ st with
      flippedRanges := st.flippedRanges ++ [x]
      flippedRangesLen := st.flippedRangesLen + x.2 }, ?_, ⟨?_, ?_⟩, rfl⟩
  · unfold MarkState.pushWoDup
    rw [h.ranges]
    cases hlast : fl.getLast? with
    | none => rfl
    | some f =>
        have := hgap f hlast
        have hno : ¬ (x.1 ≤ f.1 + f.2 ∧ f.1 ≤ x.1 + x.2) := by omega
        simp [assert?, hno]
  · rw [h.ranges]
  · simp [h.len]

/-- A push changes nothing else. -/
theorem Painted.push {k : Nat} {st' : MarkState} (h : Painted live beg end_ rs A k st)
    (heq : st' = { st with
      flippedRanges := st'.flippedRanges, flippedRangesLen := st'.flippedRangesLen }) :
    Painted live beg end_ rs A k st' := by
  rw [heq]
  exact ⟨h.ok, h.flags_eq⟩

/-- What the current range adds to the flipped ranges. -/
theorem overlaps_snoc (hlt : extent false P < end_) (hgt : beg < extent false P + r.len)
    (hbe : beg < end_) (hpos : 0 < r.len) (hr : r.isLive ≠ live) :
    overlaps live beg end_ 0 (P ++ [r]) = overlaps live beg end_ 0 P ++
      [(max (extent false P) beg,
        min (extent false P + r.len) end_ - max (extent false P) beg)] := by
  rw [overlaps_append, Nat.zero_add]
  congr 1
  rw [overlaps, if_pos ⟨hr, by omega⟩]
  rfl

theorem MarkInv.rangesOk (h : MarkInv live beg end_ rs A P r Q st) (hok : RangesOk rs) :
    RangesOk (P ++ r :: Q) := h.split ▸ hok

/-- Before the marked stretch: the range is left alone, or the marked range
grows to the left by a range of its own liveness. -/
theorem MarkInv.before {r' : Range} {Q' : List Range}
    (h : MarkInv live beg end_ rs A P r (r' :: Q') st) (hok : RangesOk rs) (hbe : beg < end_)
    (hle : extent false P + r.len ≤ beg) :
    ∃ st' iter' A', st.markTurn live rs beg end_ = some (st', false) ∧
      st'.iter.moveRight rs = some (iter', r') ∧
      MarkInv live beg end_ rs A' (P ++ [r]) r' Q'
        { st' with iter := iter'.extendAffectedRangeRight, range := r' } := by
  have hok' := h.rangesOk hok
  have hpos : 0 < r.len := hok'.pos r (by simp)
  obtain ⟨rfl, hF, hlen⟩ := h.early (by omega)
  have hmove := RangeIterator.moveRight_at h.split
  have hsplit : rs = (A ++ [r]) ++ r' :: Q' := by rw [h.split]; simp
  have hflips : overlaps live beg end_ 0 (A ++ [r]) = overlaps live beg end_ 0 A := by
    rw [overlaps_append, overlaps_of_le_beg (by omega), List.append_nil]
  have hold := h.progress.flags_eq
  obtain ⟨ext, hext, hflags⟩ := hold
  obtain rfl : ext = 0 := by omega
  have hzero : extent false A - beg = 0 := by omega
  rw [hF, hzero, List.append_nil] at hflags
  have hflags' : flags A = (painted live beg end_ rs).take (extent false A) := by
    simpa using hflags
  have hgrow : (painted live beg end_ rs).take (extent false A + r.len) =
      flags A ++ List.replicate r.len r.isLive := by
    rw [take_outside h.split (Nat.le_refl _) (by omega) (Nat.le_refl _) (Or.inl hle), ← hflags']
    congr 2
    omega
  have hleft : RangesOk (A ++ [r]) := by
    rw [show A ++ r :: r' :: Q' = (A ++ [r]) ++ r' :: Q' by simp] at hok'
    exact hok'.left
  by_cases hmerge : extent false A + r.len = beg ∧ r.isLive = live
  · -- The marked range takes this one in.
    refine ⟨{ st with len := st.len + r.len, cursor := Cursor.after A }, _, A, ?_,
      by rw [h.iter]; exact hmove _ _, ?_⟩
    · have hlt : ¬ extent false A + r.len < beg := by omega
      simp [MarkState.markTurn, h.iter, h.range, hmerge.1, hmerge.2,
        RangeIterator.rangeLen_at, RangeIterator.moveToBeg_at]
    · exact {
        split := hsplit
        iter := by simp
        range := rfl
        front := List.prefix_append A [r]
        lt := by simp; omega
        progress := {
          ok := h.progress.ok
          flags_eq := by
            refine ⟨r.len, by simp only; omega, ?_⟩
            simp only [hF, List.append_nil, extent_append, extent_cons, extent_nil,
              Range.size_false, Nat.add_zero]
            rw [hgrow, hmerge.2]
            congr 2
            omega }
        early := by simp; omega
        edge := by
          intro _ x hx
          simp only [hF, List.append_nil] at hx
          rw [← hmerge.2]
          exact hok'.meet x hx r (by simp)
        flips := ⟨by rw [hflips]; exact h.flips.ranges, by rw [hflips]; exact h.flips.len⟩
        cursor := Or.inl ⟨A, List.prefix_refl A, rfl⟩ }
  · -- This range is not affected.
    refine ⟨{ st with iter := st.iter.contractAffectedRangeRight }, _, A ++ [r], ?_,
      by rw [h.iter]; exact hmove _ _, ?_⟩
    · by_cases hlt : extent false A + r.len < beg
      · simp [MarkState.markTurn, h.iter, hlt]
      · have heq : extent false A + r.len = beg := by omega
        have hr : ¬ r.isLive = live := fun hr => hmerge ⟨heq, hr⟩
        simp [MarkState.markTurn, h.iter, h.range, heq, hr]
    · exact {
        split := hsplit
        iter := by simp
        range := rfl
        front := List.prefix_refl _
        lt := by simp; omega
        progress := {
          ok := by simpa [hF] using hleft
          flags_eq := by
            refine ⟨0, by simp only; omega, ?_⟩
            have hz : extent false A + r.len - beg = 0 := by omega
            simp [hF, hgrow, hz] }
        early := fun _ => ⟨rfl, hF, hlen⟩
        edge := by
          intro hge x hx
          simp only [extent_append, extent_cons, extent_nil, Range.size_false] at hge
          simp only [hF, List.append_nil, List.getLast?_append_of_ne_nil _ (List.cons_ne_nil _ _),
            List.getLast?_singleton, Option.mem_def, Option.some.injEq] at hx
          subst hx
          exact fun hr => hmerge ⟨by omega, hr⟩
        flips := ⟨by rw [hflips]; exact h.flips.ranges, by rw [hflips]; exact h.flips.len⟩
        cursor := by
          rcases h.cursor with ⟨P', hP', hc⟩ | ⟨_, _, hc⟩
          · exact Or.inl ⟨P', hP'.trans (List.prefix_append A [r]), hc⟩
          · exact Or.inl ⟨A ++ [r], List.prefix_refl _, hc⟩ }

/-- The part of an overlapping range before the marked stretch. -/
theorem MarkInv.prefixed (h : MarkInv live beg end_ rs A P r Q st) (hok : RangesOk rs)
    (hbe : beg < end_) (hgt : beg < extent false P + r.len) :
    ∃ st', st.markPrefix live beg end_ = some st' ∧ MarkMid live beg end_ rs A P r st' := by
  have hok' := h.rangesOk hok
  have hcursor : ∃ P', P' <+: A ∧ st.cursor = .after P' := by
    rcases h.cursor with hc | ⟨_, hle, _⟩
    · exact hc
    · omega
  by_cases hlt : extent false P < beg
  · obtain ⟨rfl, hF, hlen⟩ := h.early hlt
    obtain ⟨ext, hext, hflags⟩ := h.progress.flags_eq
    obtain rfl : ext = 0 := by omega
    have hflags' : flags A = (painted live beg end_ rs).take (extent false A) := by
      rw [hF, show extent false A - beg = 0 by omega] at hflags
      simpa using hflags
    have hgrow : (painted live beg end_ rs).take beg =
        flags A ++ List.replicate (beg - extent false A) r.isLive := by
      rw [take_outside h.split (Nat.le_refl _) (by omega) (by omega) (Or.inl (Nat.le_refl _)),
        ← hflags']
    have hmax : max (extent false A) beg = beg := by omega
    have hsub : sub? beg (extent false A) = some (beg - extent false A) := by
      rw [sub?, if_pos (by omega)]
    by_cases hr : r.isLive = live
    · refine ⟨{ st with
          len := st.len + (beg - extent false A), cursor := Cursor.after A }, ?_, ?_⟩
      · simp [MarkState.markPrefix, h.iter, h.range, hlt, hr, hsub, RangeIterator.moveToBeg_at]
      · exact {
          iter := h.iter
          range := h.range
          progress := {
            ok := h.progress.ok
            flags_eq := by
              refine ⟨beg - extent false A, by simp only; omega, ?_⟩
              rw [hmax, hgrow, hr]
              simp [hF] }
          edge := by
            intro x hx
            simp only [hF, List.append_nil] at hx
            rw [← hr]
            exact hok'.meet x hx r (by simp)
          flips := by
            rw [if_neg (fun hc => hc.1 hr), List.append_nil]
            exact ⟨h.flips.ranges, h.flips.len⟩
          cursor := ⟨A, List.prefix_refl A, rfl⟩ }
    · have hr' : r.isLive = !live := by cases hl : r.isLive <;> cases live <;> simp_all
      have hflips : Flipped (overlaps live beg end_ 0 A)
          { st with finalRanges := [Range.mk (!live) (beg - extent false A)] } :=
        ⟨h.flips.ranges, h.flips.len⟩
      obtain ⟨st', hpush, hfl, heq⟩ := pushWoDup_spec hflips
        (beg, min end_ (extent false A + r.len) - beg)
        (fun f hf => Nat.lt_trans (overlaps_gap hok' hr f hf) hlt)
      have hsub' : sub? (min end_ (extent false A + r.len)) beg =
          some (min end_ (extent false A + r.len) - beg) := by
        rw [sub?, if_pos (by omega)]
      refine ⟨st', ?_, ?_⟩
      · rw [h.iter, h.range] at hpush
        simp [MarkState.markPrefix, h.iter, h.range, hlt, hr, hsub, hsub', hF, hpush]
      · have hpre : RangesOk (A ++ [Range.mk (!live) (beg - extent false A)]) := by
          refine h.progress.ok.left.append (RangesOk.singleton (by simp; omega)) ?_
          intro x hx y hy
          have := hok'.meet x hx r (by simp)
          simp only [List.head?_cons, Option.mem_def, Option.some.injEq] at hy
          subst hy
          rw [Range.isLive_mk, ← hr']
          exact this
        have hpainted : Painted live beg end_ rs A (max (extent false A) beg)
            { st with finalRanges := [Range.mk (!live) (beg - extent false A)] } := by
          refine ⟨hpre, 0, hext, ?_⟩
          rw [hmax, hgrow, hr']
          simp
        refine ⟨?_, ?_, hpainted.push heq, ?_, ?_, ?_⟩
        · rw [heq]; exact h.iter
        · rw [heq]; exact h.range
        · rw [heq]
          simp
        · rw [if_pos ⟨hr, hlt⟩]
          exact hfl
        · rw [heq]; exact hcursor
  · have hmax : max (extent false P) beg = extent false P := by omega
    refine ⟨st, by simp [MarkState.markPrefix, h.iter, hlt], h.iter, h.range, ?_,
      h.edge (by omega), ?_, hcursor⟩
    · rw [hmax]; exact h.progress
    · rw [if_neg (fun hc => hlt hc.2), List.append_nil]; exact h.flips

/-- Between the parts before and after the marked stretch the whole overlap has
been flipped, once. -/
theorem MarkMid.pushWhole (h : MarkMid live beg end_ rs A P r st) (hok : RangesOk rs)
    (hsplit : rs = P ++ r :: Q) (hbe : beg < end_) (hgt : beg < extent false P + r.len)
    (hle : extent false P + r.len ≤ end_) :
    ∃ st', st.pushWhole live beg = some st' ∧ Flipped (overlaps live beg end_ 0 (P ++ [r])) st' ∧
      st' = { st with
        flippedRanges := st'.flippedRanges, flippedRangesLen := st'.flippedRangesLen } := by
  have hok' : RangesOk (P ++ r :: Q) := hsplit ▸ hok
  have hpos : 0 < r.len := hok'.pos r (by simp)
  have hfl := h.flips
  by_cases hr : r.isLive = live
  · rw [if_neg (fun hc => hc.1 hr), List.append_nil] at hfl
    rw [overlaps_append, overlaps_target hr, List.append_nil]
    exact ⟨st, by simp [MarkState.pushWhole, h.range, hr], hfl, rfl⟩
  · have hlt : extent false P < end_ := by omega
    have hsnoc := overlaps_snoc hlt hgt hbe hpos hr
    by_cases hbeg : extent false P < beg
    · rw [if_pos ⟨hr, hbeg⟩] at hfl
      refine ⟨st, by simp [MarkState.pushWhole, h.iter, h.range, hbeg], ?_, rfl⟩
      rw [hsnoc, show max (extent false P) beg = beg by omega,
        Nat.min_comm (extent false P + r.len)]
      exact hfl
    · rw [if_neg (fun hc => hbeg hc.2), List.append_nil] at hfl
      obtain ⟨st', hpush, hfl', heq⟩ := pushWoDup_spec hfl (extent false P, r.len)
        (overlaps_gap hok' hr)
      refine ⟨st', ?_, ?_, heq⟩
      · simp [MarkState.pushWhole, h.iter, h.range, hr, hbeg, RangeIterator.rangeLen_at, hpush]
      · rw [hsnoc, show max (extent false P) beg = extent false P by omega,
          show min (extent false P + r.len) end_ - extent false P = r.len by omega]
        exact hfl'

/-- The new ranges with the marked range, as far as position `k`. -/
theorem MarkMid.flags_upto (h : MarkMid live beg end_ rs A P r st) {n k : Nat}
    (hk : max (extent false P) beg ≤ k)
    (htake : (painted live beg end_ rs).take k =
      (painted live beg end_ rs).take (max (extent false P) beg) ++
        List.replicate (k - max (extent false P) beg) live)
    (hn : n + end_ = st.len + k) (hbe : beg < end_) :
    flags (A ++ st.finalRanges) ++ List.replicate n live = (painted live beg end_ rs).take k := by
  obtain ⟨ext, hext, hflags⟩ := h.progress.flags_eq
  rw [htake, ← hflags, List.append_assoc, List.replicate_append_replicate]
  congr 2
  omega

/-- Close the marked range. -/
theorem MarkMid.close (h : MarkMid live beg end_ rs A P r st) {n : Nat} (hn : 0 < n) :
    RangesOk (A ++ (st.finalRanges ++ [Range.mk live n])) := by
  rw [← List.append_assoc]
  refine h.progress.ok.append (RangesOk.singleton (by simpa using hn)) ?_
  intro x hx y hy
  simp only [List.head?_cons, Option.mem_def, Option.some.injEq] at hy
  subst hy
  rw [Range.isLive_mk]
  exact h.edge x hx

/-- Ranges that end like `r` fit before what follows `r`. -/
theorem RangesOk.fits {rs : List Range} {x : Range} (h : RangesOk (rs ++ [x]))
    (hok : RangesOk (P ++ r :: Q)) (hx : x.isLive = r.isLive) : RangesOk (rs ++ [x] ++ Q) := by
  have hright : RangesOk ([r] ++ Q) := hok.right
  refine h.append hright.right ?_
  intro y hy z hz
  rw [List.getLast?_append_of_ne_nil _ (List.cons_ne_nil _ _), List.getLast?_singleton,
    Option.mem_def, Option.some.injEq] at hy
  subst hy
  rw [hx]
  exact hright.meet r (by simp) z hz

/-- What the ranges behind the marked stretch add to the flipped ranges. -/
theorem overlaps_done {B C : List Range} (hsplit : rs = B ++ C) (hle : end_ ≤ extent false B) :
    overlaps live beg end_ 0 rs = overlaps live beg end_ 0 B := by
  rw [hsplit, overlaps_append, overlaps_of_end_le (o := 0 + extent false B) (by omega),
    List.append_nil]

/-- The range ends inside the marked stretch. -/
theorem MarkInv.inside {r' : Range} {Q' : List Range}
    (h : MarkInv live beg end_ rs A P r (r' :: Q') st) (hok : RangesOk rs) (hbe : beg < end_)
    (hgt : beg < extent false P + r.len) (hlt : extent false P + r.len < end_) :
    ∃ st' iter' A', st.markTurn live rs beg end_ = some (st', false) ∧
      st'.iter.moveRight rs = some (iter', r') ∧
      MarkInv live beg end_ rs A' (P ++ [r]) r' Q'
        { st' with iter := iter'.extendAffectedRangeRight, range := r' } := by
  obtain ⟨st₁, hpre, hmid⟩ := h.prefixed hok hbe hgt
  obtain ⟨st₂, hwhole, hfl, heq⟩ := hmid.pushWhole hok h.split hbe hgt (by omega)
  have hiter : st₂.iter = .atRange A.length (P.length + 1) P r := by rw [heq]; exact hmid.iter
  have hup := hmid.flags_upto (k := extent false P + r.len)
    (n := st₁.len + (extent false P + r.len) - end_) (by omega)
    (take_inside h.split (by omega) (by omega) (Nat.le_refl _) (Or.inl ⟨by omega, by omega⟩))
    (by obtain ⟨ext, hext, _⟩ := hmid.progress.flags_eq; omega) hbe
  obtain ⟨ext, hext, _⟩ := hmid.progress.flags_eq
  refine ⟨st₂, _, A, ?_, by rw [hiter]; exact RangeIterator.moveRight_at h.split _ _, ?_⟩
  · have h1 : ¬ extent false P + r.len < beg := by omega
    have h2 : ¬ extent false P + r.len = beg := by omega
    have h3 : ¬ extent false P + r.len > end_ := by omega
    have h4 : ¬ extent false P + r.len = end_ := by omega
    simp [MarkState.markTurn, h.iter, h1, h2, hpre, hmid.iter, h3, h4, hwhole]
  · exact {
      split := by rw [h.split]; simp
      iter := by simp
      range := rfl
      front := h.front.trans (List.prefix_append P [r])
      lt := by simp; omega
      progress := {
        ok := by rw [heq]; exact hmid.progress.ok
        flags_eq := by
          refine ⟨ext, by rw [heq]; exact hext, ?_⟩
          simp only [extent_append, extent_cons, extent_nil, Range.size_false, Nat.add_zero]
          rw [← hup, heq]
          congr 2
          omega }
      early := by simp; omega
      edge := by
        intro _ x hx
        rw [heq] at hx
        exact hmid.edge x hx
      flips := ⟨hfl.ranges, hfl.len⟩
      cursor := by rw [heq]; exact Or.inl hmid.cursor }

/-- Both ways to work out the length of the suffix agree. -/
theorem MarkMid.markSuffix_eq (h : MarkMid live beg end_ rs A P r st) (hlt : extent false P < end_)
    (hgt : end_ < extent false P + r.len) :
    st.markSuffix live beg end_ =
      if r.isLive = live then
        some { st with
          len := st.len + (extent false P + r.len - end_)
          finalRanges := st.finalRanges ++
            [Range.mk live (st.len + (extent false P + r.len - end_))] }
      else if extent false P < beg then
        some { st with
          finalRanges := st.finalRanges ++
            [Range.mk live st.len, Range.mk (!live) (extent false P + r.len - end_)] }
      else
        MarkState.pushWoDup { st with
          finalRanges := st.finalRanges ++
            [Range.mk live st.len, Range.mk (!live) (extent false P + r.len - end_)] }
          (extent false P, end_ - extent false P) := by
  have hsuffix : (if live then do
      let suffixMid ← sub? end_ (extent false P)
      sub? r.len suffixMid
      else sub? (extent false P + r.len) end_) = some (extent false P + r.len - end_) := by
    cases live
    · simp [sub?, Nat.le_of_lt hgt]
    · have h1 : end_ - extent false P ≤ r.len := by omega
      have h2 : r.len - (end_ - extent false P) = extent false P + r.len - end_ := by omega
      simp [sub?, Nat.le_of_lt hlt, h1, h2]
  have hmax : ¬ extent false P < beg → max (extent false P) beg = extent false P := by omega
  have hsub : sub? end_ (extent false P) = some (end_ - extent false P) := by
    rw [sub?, if_pos (by omega)]
  have hiter := h.iter
  have hrange := h.range
  cases live <;>
    simp only [Bool.false_eq_true, if_false, if_true, Option.bind_eq_bind] at hsuffix <;>
    simp only [MarkState.markSuffix, hiter, hrange, RangeIterator.atRange_rangeBeg,
      RangeIterator.atRange_rangeEnd, Bool.false_eq_true, if_false, if_true, Option.bind_eq_bind,
      hsuffix, Option.bind_some] <;>
    split <;> try split
  all_goals simp_all

/-- The range ends behind the marked stretch. -/
theorem MarkMid.suffixed (h : MarkMid live beg end_ rs A P r st) (hok : RangesOk rs)
    (hsplit : rs = P ++ r :: Q) (hfront : A <+: P) (hbe : beg < end_) (hlt : extent false P < end_)
    (hgt : end_ < extent false P + r.len) :
    ∃ st', st.markSuffix live beg end_ = some st' ∧
      MarkDone live beg end_ rs A (P ++ [r]) Q st' := by
  have hok' : RangesOk (P ++ r :: Q) := hsplit ▸ hok
  obtain ⟨ext, hext, _⟩ := h.progress.flags_eq
  have hB : rs = (P ++ [r]) ++ Q := by rw [hsplit]; simp
  have hle : end_ ≤ extent false (P ++ [r]) := by simp; omega
  have hfront' : A <+: P ++ [r] := hfront.trans (List.prefix_append P [r])
  have hidx : (P ++ [r]).length = P.length + 1 := by simp
  have hfl := h.flips
  by_cases hr : r.isLive = live
  · have hup := h.flags_upto (k := extent false P + r.len)
      (n := st.len + (extent false P + r.len - end_)) (by omega)
      (take_inside hsplit (by omega) (by omega) (Nat.le_refl _) (Or.inr hr)) (by omega) hbe
    refine ⟨_, (h.markSuffix_eq hlt hgt).trans (if_pos hr), ?_⟩
    · rw [if_neg (fun hc => hc.1 hr), List.append_nil] at hfl
      exact {
        split := hB
        front := hfront'
        idxBeg := by simp [h.iter]
        idxEnd := by simp [h.iter]
        nonempty := by simp
        ok := by
          have := (h.close (n := st.len + (extent false P + r.len - end_)) (by omega))
          rw [← List.append_assoc] at this
          rw [← List.append_assoc]
          exact this.fits hok' (by simp [hr])
        flags_eq := by
          simp only [extent_append, extent_cons, extent_nil, Range.size_false, Nat.add_zero]
          rw [← hup]
          simp
        le := hle
        flips := by
          rw [overlaps_done hB hle, overlaps_append, overlaps_target hr, List.append_nil]
          exact ⟨hfl.ranges, hfl.len⟩
        cursor := h.cursor }
  · have hr' : r.isLive = !live := by cases hl : r.isLive <;> cases live <;> simp_all
    have hpos : 0 < r.len := hok'.pos r (by simp)
    have hbeg' : beg < extent false P + r.len := by omega
    have hsnoc := overlaps_snoc hlt hbeg' hbe hpos hr
    have hmin : min (extent false P + r.len) end_ = end_ := by omega
    -- The parts of the range inside and behind the marked stretch.
    have hup := h.flags_upto (k := end_) (n := st.len) (by omega)
      (take_inside hsplit (by omega) (by omega) (by omega)
        (Or.inl ⟨Nat.le_max_right _ _, Nat.le_refl _⟩)) rfl hbe
    have hrest : (painted live beg end_ rs).take (extent false P + r.len) =
        (painted live beg end_ rs).take end_ ++
          List.replicate (extent false P + r.len - end_) r.isLive :=
      take_outside hsplit (by omega) (by omega) (Nat.le_refl _) (Or.inr (Nat.le_refl _))
    have hdone : ∀ st', Flipped (overlaps live beg end_ 0 (P ++ [r])) st' →
        st' = { st with
          finalRanges := st.finalRanges ++
            [Range.mk live st.len, Range.mk (!live) (extent false P + r.len - end_)]
          flippedRanges := st'.flippedRanges
          flippedRangesLen := st'.flippedRangesLen } →
        MarkDone live beg end_ rs A (P ++ [r]) Q st' := by
      intro st' hfl' heq
      exact {
        split := hB
        front := hfront'
        idxBeg := by rw [heq]; simp [h.iter]
        idxEnd := by rw [heq]; simp [h.iter]
        nonempty := by rw [heq]; simp
        ok := by
          have hlast := (h.close (n := st.len) (by omega)).append
            (RangesOk.singleton (r := Range.mk (!live) (extent false P + r.len - end_))
              (by simp; omega)) (by simp)
          rw [heq]
          simpa using hlast.fits hok' (by simp [hr'])
        flags_eq := by
          rw [heq]
          simp only [extent_append, extent_cons, extent_nil, Range.size_false, Nat.add_zero]
          rw [hrest, ← hup, hr']
          simp
        le := hle
        flips := by
          rw [overlaps_done hB hle]
          exact hfl'
        cursor := by rw [heq]; exact h.cursor }
    by_cases hbeg : extent false P < beg
    · rw [if_pos ⟨hr, hbeg⟩] at hfl
      refine ⟨_, (h.markSuffix_eq hlt hgt).trans ((if_neg hr).trans (if_pos hbeg)),
        hdone _ ?_ rfl⟩
      · rw [hsnoc, show max (extent false P) beg = beg by omega, hmin]
        rw [Nat.min_comm, hmin] at hfl
        exact ⟨hfl.ranges, hfl.len⟩
    · rw [if_neg (fun hc => hbeg hc.2), List.append_nil] at hfl
      have hmax : max (extent false P) beg = extent false P := by omega
      have hflips : Flipped (overlaps live beg end_ 0 P) { st with
          finalRanges := st.finalRanges ++
            [Range.mk live st.len, Range.mk (!live) (extent false P + r.len - end_)] } :=
        ⟨hfl.ranges, hfl.len⟩
      obtain ⟨st', hpush, hfl', heq⟩ := pushWoDup_spec hflips
        (extent false P, end_ - extent false P) (overlaps_gap hok' hr)
      refine ⟨st', (h.markSuffix_eq hlt hgt).trans ((if_neg hr).trans ((if_neg hbeg).trans hpush)),
        hdone st' ?_ heq⟩
      · rw [hsnoc, hmax, hmin]
        exact hfl'

/-- The range ends with the marked stretch.  A neighbour of the new liveness is
taken in. -/
theorem MarkMid.ended (h : MarkMid live beg end_ rs A P r st) (hok : RangesOk rs)
    (hsplit : rs = P ++ r :: Q) (hfront : A <+: P) (hbe : beg < end_)
    (heq : extent false P + r.len = end_) :
    ∃ st' B C, st.markEnd live rs beg = some st' ∧ MarkDone live beg end_ rs A B C st' := by
  have hok' : RangesOk (P ++ r :: Q) := hsplit ▸ hok
  have hpos : 0 < r.len := hok'.pos r (by simp)
  obtain ⟨ext, hext, _⟩ := h.progress.flags_eq
  obtain ⟨st₂, hwhole, hfl, hst₂⟩ := h.pushWhole hok hsplit hbe (by omega) (by omega)
  have hiter : st₂.iter = .atRange A.length (P.length + 1) P r := by rw [hst₂]; exact h.iter
  have hlen : st₂.len = st.len := by rw [hst₂]
  have hF : st₂.finalRanges = st.finalRanges := by rw [hst₂]
  have hcursor : ∃ P', P' <+: A ∧ st₂.cursor = .after P' := by rw [hst₂]; exact h.cursor
  have htake : (painted live beg end_ rs).take end_ =
      (painted live beg end_ rs).take (max (extent false P) beg) ++
        List.replicate (end_ - max (extent false P) beg) live :=
    take_inside hsplit (by omega) (by omega) (by omega)
      (Or.inl ⟨Nat.le_max_right _ _, Nat.le_refl _⟩)
  have hB : rs = (P ++ [r]) ++ Q := by rw [hsplit]; simp
  have hle : end_ ≤ extent false (P ++ [r]) := by simp; omega
  -- Nothing is taken in: there is no neighbour, or it has the other liveness.
  have hplain : ∀ st', st'.iter.affectedRangesIdxBeg = A.length →
      st'.iter.affectedRangesIdxEnd = P.length + 1 →
      st'.finalRanges = st.finalRanges ++ [Range.mk live st.len] →
      Flipped (overlaps live beg end_ 0 (P ++ [r])) st' →
      st'.cursor = st₂.cursor → (∀ y ∈ Q.head?, y.isLive ≠ live) →
      MarkDone live beg end_ rs A (P ++ [r]) Q st' := by
    intro st' hab hae hF' hfl' hc' hnext
    have hup := h.flags_upto (k := end_) (n := st.len) (by omega) htake rfl hbe
    exact {
      split := hB
      front := hfront.trans (List.prefix_append P [r])
      idxBeg := hab
      idxEnd := by simpa using hae
      nonempty := by simp [hF']
      ok := by
        rw [hF']
        refine (h.close (n := st.len) (by omega)).append hok'.tail ?_
        intro x hx y hy
        rw [← List.append_assoc, List.getLast?_append_of_ne_nil _ (List.cons_ne_nil _ _),
          List.getLast?_singleton, Option.mem_def, Option.some.injEq] at hx
        subst hx
        rw [Range.isLive_mk]
        exact fun he => hnext y hy he.symm
      flags_eq := by
        rw [hF', show extent false (P ++ [r]) = end_ by simpa using heq, ← hup]
        simp
      le := hle
      flips := by rw [overlaps_done hB hle]; exact hfl'
      cursor := by rw [hc']; exact hcursor }
  cases Q with
  | nil =>
      refine ⟨{ st₂ with finalRanges := st₂.finalRanges ++ [Range.mk live st₂.len] }, _, _, ?_,
        hplain _ (by simp [hiter]) (by simp [hiter]) (by simp [hF, hlen]) ⟨hfl.ranges, hfl.len⟩ rfl
          (by simp)⟩
      have hend : ¬ P.length + 1 < rs.length := by simp [hsplit]
      simp [MarkState.markEnd, hwhole, hiter, hend]
  | cons r' Q' =>
      have hmore : P.length + 1 < rs.length := by simp [hsplit]
      have hmove := RangeIterator.moveRight_at hsplit A.length (P.length + 1)
      by_cases hr' : r'.isLive = live
      · have hB' : rs = (P ++ [r, r']) ++ Q' := by rw [hsplit]; simp
        have hle' : end_ ≤ extent false (P ++ [r, r']) := by simp; omega
        have hsplit' : rs = (P ++ [r]) ++ r' :: Q' := by rw [hsplit]; simp
        have htake' : (painted live beg end_ rs).take (end_ + r'.len) =
            (painted live beg end_ rs).take (max (extent false P) beg) ++
              List.replicate (end_ + r'.len - max (extent false P) beg) live := by
          rw [take_inside hsplit' (k := end_) (by simp; omega) (by omega) (by simp; omega)
            (Or.inr hr'), htake, List.append_assoc, List.replicate_append_replicate]
          congr 2
          omega
        have hup := h.flags_upto (k := end_ + r'.len) (n := st.len + r'.len) (by omega) htake'
          (by omega) hbe
        refine ⟨{ st₂ with
            iter := .atRange A.length (P.length + 1 + 1) (P ++ [r]) r'
            len := st.len + r'.len
            finalRanges := st.finalRanges ++ [Range.mk live (st.len + r'.len)] },
          P ++ [r, r'], Q', ?_, ?_⟩
        · simp [MarkState.markEnd, hwhole, hiter, hmore, hmove, hr', RangeIterator.rangeLen_at, hF,
            hlen]
        · exact {
            split := hB'
            front := hfront.trans (List.prefix_append P [r, r'])
            idxBeg := by simp
            idxEnd := by simp
            nonempty := by simp
            ok := by
              have := h.close (n := st.len + r'.len) (by omega)
              rw [← List.append_assoc] at this
              have hok'' : RangesOk ((P ++ [r]) ++ r' :: Q') := hsplit' ▸ hok
              rw [← List.append_assoc]
              exact this.fits hok'' (by simp [hr'])
            flags_eq := by
              have hext' : extent false (P ++ [r, r']) = end_ + r'.len := by simp; omega
              rw [hext', ← hup]
              simp
            le := hle'
            flips := by
              rw [overlaps_done hB' hle', show P ++ [r, r'] = (P ++ [r]) ++ [r'] by simp,
                overlaps_append, overlaps_target hr', List.append_nil]
              exact ⟨hfl.ranges, hfl.len⟩
            cursor := hcursor }
      · refine ⟨{ st₂ with
            iter := .atRange A.length (P.length + 1) (P ++ [r]) r'
            finalRanges := st₂.finalRanges ++ [Range.mk live st₂.len] }, _, _, ?_,
          hplain _ (by simp) (by simp) (by simp [hF, hlen]) ⟨hfl.ranges, hfl.len⟩ rfl
            (by simpa using hr')⟩
        simp [MarkState.markEnd, hwhole, hiter, hmore, hmove, hr']

/-- The loop comes to its end, whatever ranges the stretch covers. -/
theorem MarkInv.loop (hok : RangesOk rs) (hbe : beg < end_) (hend : end_ ≤ extent false rs)
    (fuel : Nat) :
    ∀ {A P : List Range} {r : Range} {Q : List Range} {st : MarkState},
      MarkInv live beg end_ rs A P r Q st → Q.length < fuel →
      ∃ A B C st', MarkState.markLoop live rs beg end_ fuel st = some st' ∧
        MarkDone live beg end_ rs A B C st' := by
  induction fuel with
  | zero => intro A P r Q st _ hfuel; omega
  | succ fuel ih =>
      intro A P r Q st h hfuel
      have htotal : extent false rs = extent false P + (r.len + extent false Q) := by
        rw [h.split]; simp
      -- A turn that does not break goes on to the next range.
      have hnext : ∀ r' Q', Q = r' :: Q' →
          (∃ st' iter' A', st.markTurn live rs beg end_ = some (st', false) ∧
            st'.iter.moveRight rs = some (iter', r') ∧
            MarkInv live beg end_ rs A' (P ++ [r]) r' Q'
              { st' with iter := iter'.extendAffectedRangeRight, range := r' }) →
          ∃ A B C st', MarkState.markLoop live rs beg end_ (fuel + 1) st = some st' ∧
            MarkDone live beg end_ rs A B C st' := by
        rintro r' Q' rfl ⟨st', iter', A', hturn, hmove, hinv⟩
        obtain ⟨A₁, B, C, st₁, hloop, hdone⟩ := ih hinv (by simp at hfuel; omega)
        refine ⟨A₁, B, C, st₁, ?_, hdone⟩
        simp [MarkState.markLoop, hturn, hmove, hloop]
      by_cases hle : extent false P + r.len ≤ beg
      · cases Q with
        | nil => simp at htotal; omega
        | cons r' Q' => exact hnext r' Q' rfl (h.before hok hbe hle)
      · by_cases hlt : extent false P + r.len < end_
        · cases Q with
          | nil => simp at htotal; omega
          | cons r' Q' => exact hnext r' Q' rfl (h.inside hok hbe (by omega) hlt)
        · obtain ⟨st₁, hpre, hmid⟩ := h.prefixed hok hbe (by omega)
          have h1 : ¬ extent false P + r.len < beg := by omega
          have h2 : ¬ extent false P + r.len = beg := by omega
          by_cases heq : extent false P + r.len = end_
          · obtain ⟨st', B, C, hrun, hdone⟩ := hmid.ended hok h.split h.front hbe heq
            refine ⟨A, B, C, st', ?_, hdone⟩
            have h3 : ¬ end_ < beg := by omega
            have h4 : ¬ end_ = beg := by omega
            simp [MarkState.markLoop, MarkState.markTurn, h.iter, heq, h3, h4, hpre, hmid.iter,
              hrun]
          · obtain ⟨st', hrun, hdone⟩ := hmid.suffixed hok h.split h.front hbe h.lt (by omega)
            refine ⟨A, _, _, st', ?_, hdone⟩
            have h3 : end_ < extent false P + r.len := by omega
            simp [MarkState.markLoop, MarkState.markTurn, h.iter, h1, h2, h3, hpre, hmid.iter, hrun]

end Turn

/-! ## The whole mark -/

/-- What a mark leaves behind. -/
structure MarkedDoc (live : Bool) (doc : InternalDoc) (pos len : Nat) (c' : Cursor)
    (doc' : InternalDoc) : Prop where
  flags_eq : flags doc'.ranges = paint (stretch (pos, len)) live (flags doc.ranges)
  ranges : RangesOk doc'.ranges
  cursor : CursorOk doc'.ranges c'
  cursors : AssocMap.AllVals (CursorOk doc'.ranges) doc'.cursors

theorem Cursor.shift_spec {e i e' i' : Nat} {x : Nat} {de di : Int} (he : (e' : Int) = e + de)
    (hi : (i' : Int) = i + di) :
    Cursor.shift ⟨e, x, some i⟩ de di = some ⟨e', x, some i'⟩ := by
  have hpos : (if de > 0 then some (e + de.natAbs) else sub? e de.natAbs) = some e' := by
    split
    · congr 1; omega
    · rw [sub?, if_pos (by omega)]; congr 1; omega
  have hidx : (if di > 0 then some (i + di.natAbs) else sub? i di.natAbs) = some i' := by
    split
    · congr 1; omega
    · rw [sub?, if_pos (by omega)]; congr 1; omega
  by_cases h1 : de > 0 <;> by_cases h2 : di > 0 <;>
    simp only [h1, h2, if_true, if_false, Option.some_inj] at hpos hidx <;>
    simp [Cursor.shift, h1, h2, hpos, hidx]

section Apply

variable {live : Bool} {beg end_ : Nat} {rs A B C : List Range} {st : MarkState}

/-- The new ranges show the painted flags. -/
theorem MarkDone.flags_all (h : MarkDone live beg end_ rs A B C st) :
    flags (A ++ st.finalRanges ++ C) = painted live beg end_ rs := by
  have hrest : (painted live beg end_ rs).drop (extent false B) = flags C := by
    apply List.ext_getElem?
    intro i
    have hcover : stretch (beg, end_ - beg) (extent false B + i) = false := by
      rw [Bool.eq_false_iff, ne_eq, stretch_iff]
      have := h.le
      simp only
      omega
    rw [List.getElem?_drop, painted, getElem?_paint, hcover, h.split, flags_append,
      List.getElem?_append_right (by simp), flags_length, Nat.add_sub_cancel_left]
    simp
  rw [flags_append, h.flags_eq, ← hrest, List.take_append_drop]

/-- The cursors of the other sites still stand at the beginning of a range. -/
theorem MarkDone.moveOther (h : MarkDone live beg end_ rs A B C st) (c : Cursor)
    (hc : CursorOk rs c) :
    ∃ c', InternalDoc.moveOtherCursor st.iter st.cursor
          (if live then (st.flippedRangesLen : Int) else -st.flippedRangesLen)
          (st.finalRanges.length - ((B.length - A.length : Nat) : Int)) c = some c' ∧
      CursorOk (A ++ st.finalRanges ++ C) c' := by
  have hle := h.front.length_le
  obtain ⟨f, fs, hF⟩ := List.exists_cons_of_ne_nil h.nonempty
  -- A cursor not behind the ranges that stay is fine where it is.
  have hstay : ∀ P', P' <+: A → CursorOk (A ++ st.finalRanges ++ C) (.after P') := by
    rintro P' ⟨m, rfl⟩
    obtain ⟨r', post', hpost⟩ : ∃ r' post', m ++ st.finalRanges ++ C = r' :: post' :=
      List.exists_cons_of_ne_nil (by simp [hF])
    exact Or.inr ⟨P', r', post', by rw [← hpost]; simp, rfl⟩
  rcases hc with rfl | ⟨pre, r, post, hrs, rfl⟩
  · exact ⟨.unset, rfl, Or.inl rfl⟩
  · simp only [InternalDoc.moveOtherCursor, Cursor.after, h.idxBeg, h.idxEnd]
    by_cases hin : pre.length ≥ A.length ∧ pre.length < B.length
    · rw [if_pos hin]
      obtain ⟨P', hP', hcur⟩ := h.cursor
      exact ⟨st.cursor, rfl, by rw [hcur]; exact hstay P' hP'⟩
    · rw [if_neg hin]
      by_cases hbehind : pre.length ≥ B.length
      · rw [if_pos hbehind]
        obtain ⟨m, rfl⟩ : B <+: pre :=
          List.prefix_of_prefix_length_le ⟨C, h.split.symm⟩ ⟨r :: post, hrs.symm⟩ hbehind
        obtain rfl : C = m ++ r :: post := by
          have := h.split.symm.trans hrs
          simpa using this
        have hall := congrArg (List.count true) h.flags_all
        have hint := congrArg List.length h.flags_all
        have hcount := flags_count_paint live beg end_ rs
        rw [painted] at hall hint
        rw [← h.flips.ranges] at hcount
        have hsum : (st.flippedRanges.map Prod.snd).sum = st.flippedRangesLen := by
          rw [h.flips.ranges, h.flips.len]
        rw [hsum, ← hall] at hcount
        simp only [flags_count, flags_length, paint_length, extent_append, h.split] at hcount hint
        refine ⟨.after (A ++ st.finalRanges ++ m), ?_,
          Or.inr ⟨A ++ st.finalRanges ++ m, r, post, by simp, rfl⟩⟩
        have hx : extent false (B ++ m) = extent false (A ++ st.finalRanges ++ m) := by
          simp only [extent_append]
          omega
        rw [hx]
        refine Cursor.shift_spec ?_ ?_
        · simp only [extent_append]
          cases live <;> simp only [Bool.false_eq_true, if_false, if_true] at hcount ⊢ <;> omega
        · simp only [List.length_append]
          omega
      · rw [if_neg hbehind]
        obtain ⟨m, hm⟩ := h.front
        have hpre : pre <+: A :=
          List.prefix_of_prefix_length_le ⟨r :: post, hrs.symm⟩
            ⟨m ++ C, by rw [← List.append_assoc, hm, h.split]⟩ (by omega)
        exact ⟨.after pre, rfl, hstay pre hpre⟩

end Apply

namespace InternalDoc

/-- The state the loop starts from. -/
theorem markInv_init (live : Bool) {rs : List Range} {pos len : Nat} {c : Cursor}
    (hok : RangesOk rs) (hc : Located rs pos c) (hlen : 0 < len) :
    ∃ iter₀ range₀ iter range A P Q, RangeIterator.new rs c = some iter₀ ∧
      rs[iter₀.rangeIdx]? = some range₀ ∧ iter₀.rangeBeg ≤ pos ∧
      ((iter₀.rangeEnd > pos ∧ iter₀.rangeIdx > 0) ∧
          (∃ iter₁, iter₀.moveLeft rs = some (iter₁, range) ∧
            iter₁.shiftAffectedRangeLeft = some iter) ∨
        ¬ (iter₀.rangeEnd > pos ∧ iter₀.rangeIdx > 0) ∧ iter = iter₀ ∧ range = range₀) ∧
      MarkInv live pos (pos + len) rs A P range Q
        { iter, range, len, finalRanges := [], flippedRanges := [], flippedRangesLen := 0
          cursor := c } := by
  obtain ⟨pre, r, post, hrs, rfl, hle, hpos⟩ := hc
  have hok' : RangesOk (pre ++ r :: post) := hrs ▸ hok
  have hstart : ∀ {P Q : List Range} {x : Range} {cur : Cursor}, rs = P ++ x :: Q →
      extent false P ≤ pos → (pos = extent false P → P = []) →
      ((∃ P', P' <+: P ∧ cur = .after P') ∨ P = P ∧ extent false P + x.len ≤ pos ∧
        cur = .after (P ++ [x])) →
      MarkInv live pos (pos + len) rs P P x Q
        { iter := .atRange P.length (P.length + 1) P x, range := x, len, finalRanges := []
          flippedRanges := [], flippedRangesLen := 0, cursor := cur } := by
    intro P Q x cur hsplit hP hzero hcur
    have hokP : RangesOk (P ++ x :: Q) := hsplit ▸ hok
    have hnone : overlaps live pos (pos + len) 0 P = [] := by
      refine List.eq_nil_iff_forall_not_mem.mpr fun f hf => ?_
      have := mem_overlaps hf
      omega
    exact {
      split := hsplit
      iter := rfl
      range := rfl
      front := List.prefix_refl P
      lt := by omega
      progress := {
        ok := by simpa using hokP.left
        flags_eq := by
          refine ⟨0, by simp, ?_⟩
          have hpaint : (painted live pos (pos + len) rs).take (extent false P) = flags P := by
            rw [take_unpainted hP, hsplit, flags_append, ← flags_length, List.take_left]
          rw [hpaint, show extent false P - pos = 0 by omega]
          simp }
      early := by simp
      edge := by
        intro hge
        obtain rfl := hzero (by omega)
        simp
      flips := by rw [hnone]; exact ⟨rfl, rfl⟩
      cursor := hcur }
  by_cases hmove : extent false pre + r.len > pos ∧ pre.length > 0
  · obtain ⟨pre₀, r₀, rfl⟩ : ∃ pre₀ r₀, pre = pre₀ ++ [r₀] :=
      ⟨pre.dropLast, pre.getLast (List.ne_nil_of_length_pos hmove.2),
        (List.dropLast_append_getLast _).symm⟩
    have hr₀ : 0 < r₀.len := hok'.pos r₀ (by simp)
    have hrs₀ : rs = pre₀ ++ r₀ :: (r :: post) := by rw [hrs]; simp
    simp only [extent_append, extent_cons, extent_nil, Range.size_false, Nat.add_zero] at hle hmove
    refine ⟨_, r, .atRange pre₀.length (pre₀.length + 1) pre₀ r₀, r₀, pre₀, pre₀, r :: post,
      RangeIterator.new_after hrs, getElem?_split hrs, by simpa using hle, Or.inl ⟨?_, ?_⟩,
      hstart hrs₀ (by omega) (by omega) (Or.inr ⟨rfl, hle, rfl⟩)⟩
    · simpa using hmove
    · refine ⟨_, RangeIterator.moveLeft_at hrs₀ _ _, ?_⟩
      rw [List.length_append, List.length_singleton]
      exact RangeIterator.shiftAffectedRangeLeft_at _ _
  · refine ⟨_, r, .atRange pre.length (pre.length + 1) pre r, r, pre, pre, post,
      RangeIterator.new_after hrs, getElem?_split hrs, hle, Or.inr ⟨hmove, rfl, rfl⟩,
      hstart hrs hle ?_ (Or.inl ⟨pre, List.prefix_refl pre, rfl⟩)⟩
    · intro heq
      have hr : 0 < r.len := hok'.pos r (by simp)
      exact List.eq_nil_of_length_eq_zero (by omega)

/-- `apply_mark_dead` and `apply_mark_live` succeed on every non-empty stretch of
the document, paint it, and return what they flipped. -/
theorem applyMark_spec (live : Bool) {doc : InternalDoc} {pos len : Nat} {c : Cursor}
    (hok : RangesOk doc.ranges) (hcs : AssocMap.AllVals (CursorOk doc.ranges) doc.cursors)
    (hc : Placed doc.ranges pos c) (hlen : 0 < len) (hle : pos + len ≤ extent false doc.ranges) :
    ∃ c' doc', doc.applyMark live pos len c =
        some (overlaps live pos (pos + len) 0 doc.ranges, c', doc') ∧
      MarkedDoc live doc pos len c' doc' := by
  have hloc : Located doc.ranges pos c := by
    rcases hc with hc | ⟨hnil, _, _⟩
    · exact hc
    · rw [hnil] at hle
      simp at hle
      omega
  obtain ⟨iter₀, range₀, iter, range, A₀, P, Q, hnew, hget, hbeg, hstart, hinv⟩ :=
    markInv_init live hok hloc hlen
  have hfuel : Q.length < doc.ranges.length := by
    have := congrArg List.length hinv.split
    simp at this
    omega
  obtain ⟨A, B, C, st, hloop, hdone⟩ := hinv.loop hok (by omega) hle doc.ranges.length hfuel
  have hA : doc.ranges.take A.length = A := by
    obtain ⟨m, hm⟩ := hdone.front
    rw [hdone.split, ← hm, List.append_assoc, List.take_left]
  have hC : doc.ranges.drop B.length = C := by rw [hdone.split, List.drop_left]
  have hsub : sub? B.length A.length = some (B.length - A.length) := by
    rw [sub?, if_pos hdone.front.length_le]
  obtain ⟨cursors, hmap, hcursors⟩ := AssocMap.mapValsM_some
    hdone.moveOther doc.cursors hcs
  obtain ⟨P', ⟨m, hm⟩, hcur⟩ := hdone.cursor
  refine ⟨st.cursor, { ranges := A ++ st.finalRanges ++ C, cursors }, ?_, ?_⟩
  · have hassert : pos + len ≤ doc.internalLen := hle
    rw [← hdone.flips.ranges]
    rcases hstart with ⟨hleft, iter₁, hmove, hshift⟩ | ⟨hleft, rfl, rfl⟩
    · simp only [applyMark, assert?, hassert, if_true, hnew, hget, hbeg, hleft, and_self, hmove,
        hshift, hloop, hdone.idxBeg, hdone.idxEnd, hsub, hA, hC, hmap, Option.bind_eq_bind,
        Option.bind_some]
    · simp only [applyMark, assert?, hassert, if_true, if_false, hnew, hget, hbeg, hleft,
        hloop, hdone.idxBeg, hdone.idxEnd, hsub, hA, hC, hmap, Option.bind_eq_bind,
        Option.bind_some]
  · refine ⟨?_, hdone.ok, ?_, hcursors⟩
    · rw [hdone.flags_all, painted, Nat.add_sub_cancel_left]
    · obtain ⟨r', post', hpost⟩ : ∃ r' post', m ++ st.finalRanges ++ C = r' :: post' :=
        List.exists_cons_of_ne_nil (by simp [hdone.nonempty])
      exact Or.inr ⟨P', r', post', by rw [← hpost, ← hm]; simp, hcur⟩

end InternalDoc

end CollabMode
