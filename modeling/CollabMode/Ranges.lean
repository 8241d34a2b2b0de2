import CollabMode.InternalDoc
import Mathlib.Data.List.Chain

/-!
# Ranges as flags

The ranges of an internal document describe a list of flags, one for each
character (`flags`).  `RangesOk` is what the comments of the source say of them:
no range is empty and neighbours differ in liveness.  Such ranges are determined
by their flags (`RangesOk.flags_inj`).

`extent b pre` is the length of the ranges `pre`, in editor positions if `b`
and in internal positions if not.  `Cursor.after pre` is the cursor that stands
behind `pre`.  `CursorOk` says that a cursor stands at the beginning of a range
or was never used, and `Located` that it stands at a range that contains a
position.
-/

namespace CollabMode

open Tombstone

/-! ## Lengths -/

/-- The length of a range in editor or internal positions. -/
def Range.size (editorPos : Bool) (r : Range) : Nat := if editorPos then r.liveLen else r.len

/-- The length of ranges in editor or internal positions. -/
def extent (editorPos : Bool) (rs : List Range) : Nat := (rs.map (Range.size editorPos)).sum

@[simp] theorem Range.size_false (r : Range) : r.size false = r.len := rfl
@[simp] theorem Range.size_true (r : Range) : r.size true = r.liveLen := rfl
@[simp] theorem Range.isLive_mk (b : Bool) (n : Nat) : (Range.mk b n).isLive = b := by
  cases b <;> rfl
@[simp] theorem Range.len_mk (b : Bool) (n : Nat) : (Range.mk b n).len = n := by
  cases b <;> rfl
@[simp] theorem Range.isLive_live (n : Nat) : (Range.live n).isLive = true := rfl
@[simp] theorem Range.isLive_dead (n : Nat) : (Range.dead n).isLive = false := rfl
@[simp] theorem Range.len_live (n : Nat) : (Range.live n).len = n := rfl
@[simp] theorem Range.len_dead (n : Nat) : (Range.dead n).len = n := rfl
@[simp] theorem Range.liveLen_live (n : Nat) : (Range.live n).liveLen = n := rfl
@[simp] theorem Range.liveLen_dead (n : Nat) : (Range.dead n).liveLen = 0 := rfl

theorem Range.mk_isLive_len (r : Range) : Range.mk r.isLive r.len = r := by
  cases r <;> rfl

theorem Range.liveLen_of_live {r : Range} (h : r.isLive = true) : r.liveLen = r.len := by
  simp [liveLen, h]

theorem Range.liveLen_of_dead {r : Range} (h : r.isLive = false) : r.liveLen = 0 := by
  simp [liveLen, h]

theorem Range.liveLen_le (r : Range) : r.liveLen ≤ r.len := by
  unfold liveLen
  split <;> omega

theorem Range.size_le (b : Bool) (r : Range) : r.size b ≤ r.len := by
  cases b
  · exact Nat.le_refl _
  · exact r.liveLen_le

@[simp] theorem extent_nil (b : Bool) : extent b [] = 0 := rfl
@[simp] theorem extent_cons (b : Bool) (r : Range) (rs : List Range) :
    extent b (r :: rs) = r.size b + extent b rs := by
  simp [extent]
@[simp] theorem extent_append (b : Bool) (rs rs' : List Range) :
    extent b (rs ++ rs') = extent b rs + extent b rs' := by
  simp [extent]

theorem extent_true_le (rs : List Range) : extent true rs ≤ extent false rs := by
  induction rs with
  | nil => exact Nat.le_refl _
  | cons r rs ih =>
      have := r.liveLen_le
      simp only [extent_cons, Range.size_true, Range.size_false]
      omega

theorem InternalDoc.internalLen_eq (doc : InternalDoc) :
    doc.internalLen = extent false doc.ranges := rfl

theorem InternalDoc.editorLen_eq (doc : InternalDoc) :
    doc.editorLen = extent true doc.ranges := rfl

/-! ## Flags -/

/-- One flag for each character. -/
def flags (rs : List Range) : List Bool :=
  rs.flatMap fun r => List.replicate r.len r.isLive

@[simp] theorem flags_nil : flags [] = [] := rfl
@[simp] theorem flags_cons (r : Range) (rs : List Range) :
    flags (r :: rs) = List.replicate r.len r.isLive ++ flags rs := by
  simp [flags]
@[simp] theorem flags_append (rs rs' : List Range) : flags (rs ++ rs') = flags rs ++ flags rs' := by
  simp [flags]

@[simp] theorem flags_length (rs : List Range) : (flags rs).length = extent false rs := by
  induction rs with
  | nil => rfl
  | cons r rs ih => simp [ih]

theorem count_replicate_isLive (r : Range) (n : Nat) :
    (List.replicate n r.isLive).count true = if r.isLive then n else 0 := by
  cases r.isLive <;> simp [List.count_replicate]

@[simp] theorem flags_count (rs : List Range) : (flags rs).count true = extent true rs := by
  induction rs with
  | nil => rfl
  | cons r rs ih => simp [ih, count_replicate_isLive, Range.liveLen]

/-- The live characters before a position of the range behind `pre`. -/
theorem liveBefore_flags {pre post : List Range} {r : Range} {p : Nat}
    (h1 : extent false pre ≤ p) (h2 : p ≤ extent false pre + r.len) :
    liveBefore p (flags (pre ++ r :: post)) =
      extent true pre + if r.isLive then p - extent false pre else 0 := by
  have hlen : (flags pre).length ≤ p := by simpa using h1
  have htake : (flags (pre ++ r :: post)).take p =
      flags pre ++ List.replicate (p - extent false pre) r.isLive := by
    rw [flags_append, List.take_append, List.take_of_length_le hlen, flags_cons,
      List.take_append_of_le_length (by simp; omega), List.take_replicate, flags_length]
    congr 2
    omega
  rw [liveBefore, htake, List.count_append, flags_count, count_replicate_isLive]

/-! ## Well-formed ranges -/

/-- Neighbours differ in liveness. -/
def Alternating (rs : List Range) : Prop := (rs.map Range.isLive).IsChain (· ≠ ·)

/-- No range is empty and neighbours differ. -/
structure RangesOk (rs : List Range) : Prop where
  pos : ∀ r ∈ rs, 0 < r.len
  alternating : Alternating rs

theorem RangesOk.left {rs rs' : List Range} (h : RangesOk (rs ++ rs')) : RangesOk rs :=
  ⟨fun r hr => h.pos r (by simp [hr]),
    List.IsChain.left_of_append (by simpa [Alternating] using h.alternating)⟩

theorem RangesOk.right {rs rs' : List Range} (h : RangesOk (rs ++ rs')) : RangesOk rs' :=
  ⟨fun r hr => h.pos r (by simp [hr]),
    by
      have := h.alternating
      unfold Alternating at this ⊢
      rw [List.map_append] at this
      exact List.IsChain.right_of_append this⟩

theorem RangesOk.tail {pre rs : List Range} {r : Range} (h : RangesOk (pre ++ r :: rs)) :
    RangesOk rs := by
  have : RangesOk ([r] ++ rs) := h.right
  exact this.right

/-- Ranges side by side are well formed when each half is and they differ where
they meet. -/
theorem RangesOk.append {rs rs' : List Range} (h : RangesOk rs) (h' : RangesOk rs')
    (hmeet : ∀ r ∈ rs.getLast?, ∀ r' ∈ rs'.head?, r.isLive ≠ r'.isLive) :
    RangesOk (rs ++ rs') := by
  refine ⟨fun r hr => ?_, ?_⟩
  · rcases List.mem_append.mp hr with hr | hr
    · exact h.pos r hr
    · exact h'.pos r hr
  · unfold Alternating
    rw [List.map_append, List.isChain_append]
    refine ⟨h.alternating, h'.alternating, ?_⟩
    intro x hx y hy
    rw [List.getLast?_map, Option.mem_def, Option.map_eq_some_iff] at hx
    rw [List.head?_map, Option.mem_def, Option.map_eq_some_iff] at hy
    obtain ⟨r, hr, rfl⟩ := hx
    obtain ⟨r', hr', rfl⟩ := hy
    exact hmeet r hr r' hr'

theorem RangesOk.meet {rs rs' : List Range} (h : RangesOk (rs ++ rs')) :
    ∀ r ∈ rs.getLast?, ∀ r' ∈ rs'.head?, r.isLive ≠ r'.isLive := by
  have := h.alternating
  unfold Alternating at this
  rw [List.map_append, List.isChain_append] at this
  intro r hr r' hr'
  have hlast : r.isLive ∈ (rs.map Range.isLive).getLast? := by
    rw [List.getLast?_map, Option.mem_def.mp hr]; rfl
  have hhead : r'.isLive ∈ (rs'.map Range.isLive).head? := by
    rw [List.head?_map, Option.mem_def.mp hr']; rfl
  exact this.2.2 _ hlast _ hhead

/-- Replacing a range by one of the same liveness keeps the pattern. -/
theorem RangesOk.replace {pre post : List Range} {r r' : Range}
    (h : RangesOk (pre ++ r :: post)) (hlive : r'.isLive = r.isLive) (hpos : 0 < r'.len) :
    RangesOk (pre ++ r' :: post) := by
  refine ⟨fun x hx => ?_, ?_⟩
  · rcases List.mem_append.mp hx with hx | hx
    · exact h.pos x (by simp [hx])
    · rcases List.mem_cons.mp hx with rfl | hx
      · exact hpos
      · exact h.pos x (by simp [hx])
  · have := h.alternating
    unfold Alternating at this ⊢
    simpa [hlive] using this

theorem RangesOk.replace_head {rs : List Range} {r r' : Range} (h : RangesOk (r :: rs))
    (hlive : r'.isLive = r.isLive) (hpos : 0 < r'.len) : RangesOk (r' :: rs) := by
  have h' : RangesOk ([] ++ r :: rs) := h
  exact h'.replace hlive hpos

theorem RangesOk.singleton {r : Range} (h : 0 < r.len) : RangesOk [r] :=
  ⟨by simpa using h, by simp [Alternating]⟩

theorem RangesOk.nil : RangesOk [] := ⟨by simp, by simp [Alternating]⟩

/-- Well-formed ranges are determined by their flags. -/
theorem RangesOk.flags_inj : ∀ {rs rs' : List Range}, RangesOk rs → RangesOk rs' →
    flags rs = flags rs' → rs = rs'
  | [], [], _, _, _ => rfl
  | [], r' :: _, _, h', he => by
      have := congrArg List.length he
      have := h'.pos r' (by simp)
      simp at *
      omega
  | r :: _, [], h, _, he => by
      have := congrArg List.length he
      have := h.pos r (by simp)
      simp at *
      omega
  | r :: rs, r' :: rs', h, h', he => by
      have hr := h.pos r (by simp)
      have hr' := h'.pos r' (by simp)
      have hin : ∀ {x : Range} {xs : List Range} {i : Nat}, i < x.len →
          (flags (x :: xs))[i]? = some x.isLive := by
        intro x xs i hi
        rw [flags_cons, List.getElem?_append_left (by simpa using hi)]
        simp [hi]
      -- The first flag gives the liveness, the first change of flag the length.
      have hlive : r.isLive = r'.isLive := by
        have hget : (flags (r :: rs))[0]? = some r.isLive := hin hr
        rw [he, hin hr'] at hget
        exact (Option.some.inj hget).symm
      have hnext : ∀ {x : Range} {xs : List Range}, RangesOk (x :: xs) →
          (flags (x :: xs))[x.len]? ≠ some x.isLive := by
        intro x xs hx hget
        rw [flags_cons, List.getElem?_append_right (by simp)] at hget
        cases xs with
        | nil => simp at hget
        | cons y ys =>
            have hy := hx.pos y (by simp)
            have hx' : RangesOk ([x] ++ y :: ys) := hx
            have hne : x.isLive ≠ y.isLive := hx'.meet x (by simp) y (by simp)
            rw [List.length_replicate, Nat.sub_self, hin hy] at hget
            exact hne (Option.some.inj hget).symm
      have hlen : r.len = r'.len := by
        rcases Nat.lt_trichotomy r.len r'.len with hlt | heq | hgt
        · exact absurd (by rw [he, hin hlt, hlive]) (hnext h)
        · exact heq
        · exact absurd (by rw [← he, hin hgt, hlive]) (hnext h')
      have hrr : r = r' := by
        rw [← r.mk_isLive_len, ← r'.mk_isLive_len, hlive, hlen]
      subst hrr
      rw [flags_cons, flags_cons, List.append_cancel_left_eq] at he
      have htail : RangesOk ([] ++ r :: rs) := h
      have htail' : RangesOk ([] ++ r :: rs') := h'
      rw [flags_inj htail.tail htail'.tail he]

/-! ## Cursors -/

/-- The cursor behind the ranges `pre`. -/
def Cursor.after (pre : List Range) : Cursor :=
  { editorPos := extent true pre, internalPos := extent false pre, rangeIdx := some pre.length }

/-- The cursor of a site that was not used yet. -/
def Cursor.unset : Cursor := { editorPos := 0, internalPos := 0, rangeIdx := none }

@[simp] theorem Cursor.pos_after (pre : List Range) (b : Bool) :
    (Cursor.after pre).pos b = extent b pre := by
  cases b <;> rfl

/-- The cursor is unused or stands at the beginning of a range. -/
def CursorOk (rs : List Range) (c : Cursor) : Prop :=
  c = Cursor.unset ∨ ∃ pre r post, rs = pre ++ r :: post ∧ c = Cursor.after pre

/-- The cursor stands at the beginning of a range that contains `p`, its end
included. -/
def Located (rs : List Range) (p : Nat) (c : Cursor) : Prop :=
  ∃ pre r post, rs = pre ++ r :: post ∧ c = Cursor.after pre ∧
    extent false pre ≤ p ∧ p ≤ extent false pre + r.len

theorem Located.cursorOk {rs : List Range} {p : Nat} {c : Cursor} (h : Located rs p c) :
    CursorOk rs c := by
  obtain ⟨pre, r, post, hrs, hc, _⟩ := h
  exact Or.inr ⟨pre, r, post, hrs, hc⟩

theorem getElem?_split {rs pre post : List Range} {r : Range} (h : rs = pre ++ r :: post) :
    rs[pre.length]? = some r := by
  subst h
  simp

/-- A cursor at a range number stands where the ranges before that number end. -/
theorem CursorOk.at_idx {rs : List Range} {c : Cursor} (h : CursorOk rs c) {i : Nat}
    (hi : c.rangeIdx = some i) :
    i < rs.length ∧ c.internalPos = ((rs.take i).map Range.len).sum ∧
      c.editorPos = ((rs.take i).map Range.liveLen).sum := by
  rcases h with rfl | ⟨pre, r, post, rfl, rfl⟩
  · cases hi
  · have : pre.length = i := Option.some.inj hi
    subst this
    refine ⟨by simp, ?_, ?_⟩
    · rw [List.take_left]; rfl
    · rw [List.take_left]; rfl

/-- The scan of `check_cursor_positions` finds no wrong cursor. -/
theorem checkCursor_after (pre' : List Range) :
    ∀ (pre : List Range) (r : Range) (post : List Range) (c : Cursor),
      c = Cursor.after (pre' ++ pre) →
      InternalDoc.checkCursor c (extent true pre') (extent false pre') (pre ++ r :: post) = true
  | [], r, post, c, hc => by
      subst hc
      simp [InternalDoc.checkCursor, Cursor.after]
  | x :: pre, r, post, c, hc => by
      have hc' : c = Cursor.after ((pre' ++ [x]) ++ pre) := by rw [hc]; simp
      have ih := checkCursor_after (pre' ++ [x]) pre r post c hc'
      by_cases h : extent false pre' = c.internalPos
      · -- Nothing but empty ranges lies between here and the cursor.
        have hzero : extent false (x :: pre) = 0 := by
          rw [hc] at h
          simp only [Cursor.after, extent_append] at h
          omega
        have hle := extent_true_le (x :: pre)
        have : extent true pre' = c.editorPos := by
          rw [hc]
          simp only [Cursor.after, extent_append]
          omega
        simp [InternalDoc.checkCursor, h, this]
      · cases x with
        | live len =>
            simpa [InternalDoc.checkCursor, h, extent_append] using ih
        | dead len =>
            simpa [InternalDoc.checkCursor, h, extent_append] using ih

theorem checkCursorPositions_of_ok {doc : InternalDoc}
    (h : AssocMap.AllVals (CursorOk doc.ranges) doc.cursors) :
    doc.checkCursorPositions = true := by
  unfold InternalDoc.checkCursorPositions
  rw [List.all_eq_true]
  rintro ⟨site, c⟩ hc
  rcases h _ hc with hc | ⟨pre, r, post, hrs, hc⟩
  · simp only at hc
    simp [hc, Cursor.unset]
  · have := checkCursor_after [] pre r post c (by simpa using hc)
    simp only [extent_nil] at this
    simp [hrs, this]

end CollabMode
