import CollabMode.Ranges

/-!
# Positions and insertions of the internal document

What `convert_pos` and `apply_ins` do to the flags and to the cursors.

`Placed` is what `convert_pos` leaves behind: a cursor at a range that contains
the position, or the unused cursor of an empty document.  An insertion replaces
at most one range by others, and `CursorOk.shiftRight` moves the cursors behind
it, whatever the case.
-/

namespace CollabMode

open Tombstone

/-- The cursor stands at a range that contains `p`, if there is any range. -/
def Placed (rs : List Range) (p : Nat) (c : Cursor) : Prop :=
  Located rs p c ∨ rs = [] ∧ p = 0 ∧ c = Cursor.unset

theorem Placed.cursorOk {rs : List Range} {p : Nat} {c : Cursor} (h : Placed rs p c) :
    CursorOk rs c := by
  rcases h with h | ⟨_, _, h⟩
  · exact h.cursorOk
  · exact Or.inl h

theorem CursorOk.eq_unset {c : Cursor} (h : CursorOk [] c) : c = Cursor.unset := by
  rcases h with h | ⟨pre, r, post, h, _⟩
  · exact h
  · cases pre <;> cases h

namespace InternalDoc

/-! ## Converting positions -/

section ConvertPos

variable {pos : Nat} {b : Bool}

/-- Give a cursor the number of its range. -/
theorem after_of_pos {pre : List Range} {c : Cursor} (he : c.editorPos = extent true pre)
    (hi : c.internalPos = extent false pre) :
    { c with rangeIdx := some pre.length } = Cursor.after pre := by
  cases c
  simp_all [Cursor.after]

theorem pos_of_eq {pre : List Range} {c : Cursor} (he : c.editorPos = extent true pre)
    (hi : c.internalPos = extent false pre) (b : Bool) : c.pos b = extent b pre := by
  cases b
  · exact hi
  · exact he

/-- Going right ends at the range of `pos`. -/
theorem convertPosForward_spec (rest : List Range) :
    ∀ (pre : List Range) (r : Range) (c : Cursor),
      c.editorPos = extent true pre → c.internalPos = extent false pre →
      extent b pre < pos → pos ≤ extent b (pre ++ r :: rest) →
      ∃ pre' r' post' c', pre ++ r :: rest = pre' ++ r' :: post' ∧
        convertPosForward pos b rest r pre.length c = some (r', pre'.length, c') ∧
        c'.editorPos = extent true pre' ∧ c'.internalPos = extent false pre' ∧
        extent b pre' < pos ∧ pos ≤ extent b pre' + r'.size b := by
  induction rest with
  | nil =>
      intro pre r c he hi hle hpos
      refine ⟨pre, r, [], c, rfl, ?_, he, hi, hle, by simpa using hpos⟩
      have hsize : ¬ pos > c.pos b + r.size b := by
        rw [pos_of_eq he hi]
        simp at hpos
        omega
      rw [convertPosForward]
      exact if_neg hsize
  | cons next rest ih =>
      intro pre r c he hi hle hpos
      rw [convertPosForward]
      change ∃ pre' r' post' c', _ ∧
        (if pos > c.pos b + r.size b then _ else _) = _ ∧ _
      rw [pos_of_eq he hi]
      by_cases hgt : pos > extent b pre + r.size b
      · rw [if_pos hgt]
        have hlen : pre.length + 1 = (pre ++ [r]).length := by simp
        obtain ⟨pre', r', post', c', hsplit, hrun, hc'⟩ := ih (pre ++ [r]) next
          { internalPos := c.internalPos + r.len
            editorPos := c.editorPos + r.liveLen
            rangeIdx := some (pre.length + 1) }
          (by simp [he]) (by simp [hi]) (by simp; omega) (by simpa using hpos)
        refine ⟨pre', r', post', c', by simpa using hsplit, ?_, hc'⟩
        rw [hlen] at hrun ⊢
        exact hrun
      · rw [if_neg hgt]
        exact ⟨pre, r, next :: rest, c, rfl, rfl, he, hi, hle, by omega⟩

/-- Going left ends at the range of `pos`.  Where that begins at `pos`, it is not a live
range behind a dead one. -/
theorem convertPosBackward_spec {rs : List Range} (n : Nat) :
    ∀ (pre : List Range) (r : Range) (post : List Range) (c : Cursor),
      pre.length = n → rs = pre ++ r :: post →
      c.editorPos = extent true pre → c.internalPos = extent false pre →
      pos ≤ extent b pre + r.size b →
      ∃ pre' r' post' c', rs = pre' ++ r' :: post' ∧
        convertPosBackward rs pos b n r c = some (r', pre'.length, c') ∧
        c'.editorPos = extent true pre' ∧ c'.internalPos = extent false pre' ∧
        extent b pre' ≤ pos ∧ pos ≤ extent b pre' + r'.size b ∧
        (b = true → pos = extent b pre' → pre' = [] ∨ r'.isLive = false) := by
  induction n with
  | zero =>
      intro pre r post c hlen hrs he hi hpos
      obtain rfl := List.eq_nil_of_length_eq_zero hlen
      refine ⟨[], r, post, c, hrs, ?_, he, hi, by simp, hpos, fun _ _ => Or.inl rfl⟩
      have hzero : c.pos b = 0 := by rw [pos_of_eq he hi]; rfl
      simp [convertPosBackward, hzero]
  | succ n ih =>
      intro pre r post c hlen hrs he hi hpos
      rw [convertPosBackward]
      split
      next hcond =>
        have hle : pos ≤ extent b pre := by
          rw [pos_of_eq he hi] at hcond
          simp only [Bool.or_eq_true, Bool.and_eq_true, decide_eq_true_eq, beq_iff_eq] at hcond
          omega
        obtain ⟨pre₀, r₀, rfl⟩ : ∃ pre₀ r₀, pre = pre₀ ++ [r₀] :=
          ⟨pre.dropLast, pre.getLast (List.ne_nil_of_length_eq_add_one hlen),
            (List.dropLast_append_getLast _).symm⟩
        have hlen₀ : pre₀.length = n := by simpa using hlen
        have hrs₀ : rs = pre₀ ++ r₀ :: (r :: post) := by rw [hrs]; simp
        have hget : rs[n]? = some r₀ := by rw [← hlen₀]; exact getElem?_split hrs₀
        simp only [extent_append, extent_cons, extent_nil, Range.size_true,
          Range.size_false] at he hi
        have hi' : sub? c.internalPos r₀.len = some (extent false pre₀) := by
          rw [sub?, if_pos (by omega)]; congr 1; omega
        have he' : sub? c.editorPos r₀.liveLen = some (extent true pre₀) := by
          rw [sub?, if_pos (by omega)]; congr 1; omega
        simp only [hget, hi', he', Option.bind_eq_bind, Option.bind_some]
        exact ih pre₀ r₀ (r :: post) _ hlen₀ hrs₀ rfl rfl (by simpa using hle)
      next hcond =>
        rw [pos_of_eq he hi] at hcond
        simp only [Bool.or_eq_true, decide_eq_true_eq, not_or] at hcond
        refine ⟨pre, r, post, c, hrs, by rw [hlen], he, hi, by omega, hpos, fun hb hat => Or.inr ?_⟩
        simpa [hb, hat] using hcond.2

/-- The result of `convert_pos`: the other position, and a cursor placed at the
internal one. -/
structure Converts (doc : InternalDoc) (c : Cursor) (b : Bool) (pos : Nat) (q : Nat)
    (c' : Cursor) : Prop where
  run : doc.convertPos pos c b = some (if b then q else liveBefore q (flags doc.ranges), c')
  placed : Placed doc.ranges q c'
  le : q ≤ extent false doc.ranges
  pos_eq : pos = if b then liveBefore q (flags doc.ranges) else q

theorem Converts.editor {doc : InternalDoc} {c c' : Cursor} {q : Nat}
    (h : Converts doc c true pos q c') :
    doc.convertPos pos c true = some (q, c') ∧ liveBefore q (flags doc.ranges) = pos :=
  ⟨by simpa using h.run, by simpa using h.pos_eq.symm⟩

theorem Converts.internal {doc : InternalDoc} {c c' : Cursor} {q : Nat}
    (h : Converts doc c false pos q c') :
    q = pos ∧ doc.convertPos pos c false = some (liveBefore pos (flags doc.ranges), c') := by
  obtain rfl : q = pos := by simpa using h.pos_eq.symm
  exact ⟨rfl, by simpa using h.run⟩

/-- A position found at the range behind `pre`. -/
theorem converts_at (c : Cursor) {doc : InternalDoc} {pre post : List Range} {r : Range}
    (hrs : doc.ranges = pre ++ r :: post) (hle : extent b pre ≤ pos)
    (hpos : pos ≤ extent b pre + r.size b)
    (hrun : doc.convertPos pos c b = some (extent (!b) pre +
        (if b then pos - extent b pre else if r.isLive then pos - extent b pre else 0),
      Cursor.after pre)) :
    ∃ q, Converts doc c b pos q (Cursor.after pre) := by
  have hlast : extent false pre + r.len ≤ extent false doc.ranges := by rw [hrs]; simp
  cases b with
  | false =>
      simp only [Range.size_false] at hpos
      refine ⟨pos, ?_, Or.inl ⟨pre, r, post, hrs, rfl, hle, hpos⟩, by omega, by simp⟩
      rw [hrun, hrs, liveBefore_flags hle hpos]
      simp
  | true =>
      have hq : extent false pre + (pos - extent true pre) ≤ extent false pre + r.len := by
        have := r.size_le true
        omega
      have hlive : liveBefore (extent false pre + (pos - extent true pre)) (flags doc.ranges) =
          pos := by
        rw [hrs, liveBefore_flags (by omega) hq]
        cases hr : r.isLive with
        | true => simp; omega
        | false =>
            rw [Range.size_true, r.liveLen_of_dead hr] at hpos
            simp
            omega
      refine ⟨extent false pre + (pos - extent true pre), ?_,
        Or.inl ⟨pre, r, post, hrs, rfl, by omega, hq⟩, by omega, by simp [hlive]⟩
      rw [hrun]
      simp

/-- The range the search starts from, with the cursor at its beginning. -/
theorem search_start {doc : InternalDoc} {c : Cursor} (hc : CursorOk doc.ranges c)
    (hne : ¬ doc.ranges.length = 0) :
    ∃ pre r post c₀, doc.ranges = pre ++ r :: post ∧ c.rangeIdx.getD 0 = pre.length ∧
      (if c.rangeIdx.getD 0 = 0 then { c with editorPos := 0, internalPos := 0 } else c) = c₀ ∧
      c₀.editorPos = extent true pre ∧ c₀.internalPos = extent false pre := by
  rcases hc with rfl | ⟨pre, r, post, hrs, rfl⟩
  · obtain ⟨r, post, hrs⟩ := List.exists_cons_of_ne_nil (mt List.length_eq_zero_iff.mpr hne)
    exact ⟨[], r, post, Cursor.unset, hrs, rfl, rfl, rfl, rfl⟩
  · refine ⟨pre, r, post, Cursor.after pre, hrs, rfl, ?_, rfl, rfl⟩
    split
    next h =>
      obtain rfl : pre = [] := List.eq_nil_of_length_eq_zero h
      rfl
    next => rfl

/-- Where the search ends, and that it does not stop at a live range behind a dead one. -/
theorem convertPos_search {doc : InternalDoc} {c : Cursor} (hc : CursorOk doc.ranges c)
    (hpos : pos ≤ extent b doc.ranges) (hzero : pos ≠ 0) (hat : pos ≠ c.pos b) :
    ∃ pre r post, doc.ranges = pre ++ r :: post ∧
      extent b pre ≤ pos ∧ pos ≤ extent b pre + r.size b ∧
      (b = true → pos = extent b pre → pre = [] ∨ r.isLive = false) ∧
      doc.convertPos pos c b = some (extent (!b) pre +
        (if b then pos - extent b pre else if r.isLive then pos - extent b pre else 0),
        Cursor.after pre) := by
  have hne : ¬ doc.ranges.length = 0 := by
    intro h
    rw [List.eq_nil_of_length_eq_zero h] at hpos
    exact hzero (by simpa using hpos)
  obtain ⟨pre, r, post, c₀, hrs, hidx, hstart, he, hi⟩ := search_start hc hne
  have hsearch : ∃ pre' r' post' c', doc.ranges = pre' ++ r' :: post' ∧
      (if pos > c₀.pos b then
          convertPosForward pos b (doc.ranges.drop (pre.length + 1)) r pre.length c₀
        else convertPosBackward doc.ranges pos b pre.length r c₀) =
          some (r', pre'.length, c') ∧
      c'.editorPos = extent true pre' ∧ c'.internalPos = extent false pre' ∧
      extent b pre' ≤ pos ∧ pos ≤ extent b pre' + r'.size b ∧
      (b = true → pos = extent b pre' → pre' = [] ∨ r'.isLive = false) := by
    rw [pos_of_eq he hi]
    split
    next hgt =>
      have hdrop : doc.ranges.drop (pre.length + 1) = post := by
        rw [hrs, ← List.drop_drop, List.drop_left]; rfl
      rw [hdrop]
      rw [hrs] at hpos ⊢
      obtain ⟨pre', r', post', c', hsplit, hrun, he', hi', hlt, hle⟩ :=
        convertPosForward_spec post pre r c₀ he hi hgt hpos
      exact ⟨pre', r', post', c', hsplit, hrun, he', hi', by omega, hle, fun _ heq => by omega⟩
    next hle =>
      exact convertPosBackward_spec pre.length pre r post c₀ rfl hrs he hi (by omega)
  obtain ⟨pre', r', post', c', hrs', hrun, he', hi', hle', hpos', hend⟩ := hsearch
  refine ⟨pre', r', post', hrs', hle', hpos', hend, ?_⟩
  have hoff : sub? pos (extent b pre') = some (pos - extent b pre') := by
    rw [sub?, if_pos hle']
  rw [convertPos, if_neg hzero, if_neg hat, if_neg hne]
  simp only [hstart]
  simp only [hidx, getElem?_split hrs, Option.bind_eq_bind, Option.bind_some]
  by_cases hgt : pos > c₀.pos b <;>
    simp only [hgt, if_true, if_false] at hrun ⊢ <;>
    simp only [hrun, Option.bind_some, after_of_pos he' hi', Cursor.pos_after, hoff] <;>
    cases b <;> simp

/-- `convert_pos` succeeds on every position of the document. -/
theorem convertPos_spec {doc : InternalDoc} {c : Cursor} (hc : CursorOk doc.ranges c)
    (hpos : pos ≤ extent b doc.ranges) : ∃ q c', Converts doc c b pos q c' := by
  by_cases hzero : pos = 0
  · subst hzero
    cases hrs : doc.ranges with
    | nil =>
        rw [hrs] at hc
        refine ⟨0, c, ?_, Or.inr ⟨hrs, rfl, hc.eq_unset⟩, Nat.zero_le _, ?_⟩
        · cases b <;> simp [convertPos, hrs, liveBefore]
        · cases b <;> simp [liveBefore]
    | cons r post =>
        have hrs' : doc.ranges = [] ++ r :: post := by simpa using hrs
        obtain ⟨q, hq⟩ := converts_at c hrs' (Nat.zero_le 0) (Nat.zero_le _)
          (by cases b <;> simp [convertPos, hrs, Cursor.after])
        exact ⟨q, _, hq⟩
  · by_cases hat : pos = c.pos b
    · -- The cursor is there already.
      rcases hc with rfl | ⟨pre, r, post, hrs, rfl⟩
      · exact absurd hat (by cases b <;> simpa [Cursor.pos, Cursor.unset] using hzero)
      · rw [Cursor.pos_after] at hat
        obtain ⟨q, hq⟩ := converts_at (Cursor.after pre) hrs (Nat.le_of_eq hat.symm)
          (Nat.le_trans (Nat.le_of_eq hat) (Nat.le_add_right _ _)) (by
            rw [convertPos, if_neg hzero, if_pos (by rw [Cursor.pos_after]; exact hat)]
            cases b <;> simp [hat])
        exact ⟨q, _, hq⟩
    · obtain ⟨pre, r, post, hrs, hle, hge, -, hrun⟩ := convertPos_search hc hpos hzero hat
      obtain ⟨q, hq⟩ := converts_at c hrs hle hge hrun
      exact ⟨q, _, hq⟩

/-- Going right past the end panics. -/
theorem convertPosForward_beyond (rest : List Range) :
    ∀ (r : Range) (i : Nat) (c : Cursor), c.pos b + extent b (r :: rest) < pos →
      convertPosForward pos b rest r i c = none := by
  induction rest with
  | nil =>
      intro r i c hpos
      rw [convertPosForward]
      exact if_pos (by simpa [Range.size] using hpos)
  | cons next rest ih =>
      intro r i c hpos
      rw [convertPosForward]
      refine (if_pos ?_).trans (ih next _ _ ?_)
      · simp only [extent_cons, Range.size] at hpos ⊢
        omega
      · cases b <;> simp [Cursor.pos] at hpos ⊢ <;> omega

/-- Beyond the end `convert_pos` panics, but in an empty document it leads to its beginning. -/
theorem convertPos_beyond {doc : InternalDoc} {c : Cursor} (hc : CursorOk doc.ranges c)
    (hpos : extent b doc.ranges < pos) :
    doc.convertPos pos c b = if doc.ranges.length = 0 then some (0, c) else none := by
  have hat : pos ≠ c.pos b := by
    rcases hc with rfl | ⟨pre, r, post, hrs, rfl⟩
    · exact (Nat.ne_of_gt (Nat.zero_lt_of_lt hpos)).trans_eq (by cases b <;> rfl)
    · rw [Cursor.pos_after]
      rw [hrs, extent_append] at hpos
      omega
  rw [convertPos, if_neg (Nat.ne_of_gt (Nat.zero_lt_of_lt hpos)), if_neg hat]
  split
  next => rfl
  next hne =>
      obtain ⟨pre, r, post, c₀, hrs, hidx, hstart, he, hi⟩ := search_start hc hne
      have hdrop : doc.ranges.drop (pre.length + 1) = post := by
        rw [hrs, ← List.drop_drop, List.drop_left]; rfl
      rw [hrs, extent_append] at hpos
      have hgt : pos > c₀.pos b := by
        rw [pos_of_eq he hi]
        omega
      have hnone := convertPosForward_beyond post r pre.length c₀ (by rwa [pos_of_eq he hi])
      simp only [hstart]
      simp only [hidx, getElem?_split hrs, hdrop, Option.bind_eq_bind, Option.bind_some, hgt,
        if_true, hnone, Option.bind_none]

theorem convertPos_keeps_cursorOk {doc : InternalDoc} {c c' : Cursor} {q : Nat}
    (hc : CursorOk doc.ranges c) (hrun : doc.convertPos pos c b = some (q, c')) :
    CursorOk doc.ranges c' := by
  by_cases hpos : pos ≤ extent b doc.ranges
  · obtain ⟨q', c₁, hconv⟩ := convertPos_spec hc hpos
    cases hconv.run.symm.trans hrun
    exact hconv.placed.cursorOk
  · rw [convertPos_beyond hc (Nat.lt_of_not_le hpos)] at hrun
    split at hrun
    · cases hrun
      exact hc
    · cases hrun

end ConvertPos

end InternalDoc

/-! ## Insertion -/

/-- An insertion inside a live range makes it longer. -/
theorem flags_grow {pre post : List Range} {r : Range} {pos len : Nat} (hr : r.isLive = true)
    (hle : extent false pre ≤ pos) (hpos : pos ≤ extent false pre + r.len) :
    flags (pre ++ Range.live (r.len + len) :: post) =
      insertAt pos (List.replicate len true) (flags (pre ++ r :: post)) := by
  have hgrow : insertAt (pos - extent false pre) (List.replicate len true)
      (List.replicate r.len true) = List.replicate (r.len + len) true := by
    simp only [insertAt, List.take_replicate, List.drop_replicate, List.replicate_append_replicate]
    congr 1
    omega
  rw [flags_append, flags_append, insertAt_append_right (by simpa using hle), flags_length,
    flags_cons, flags_cons, hr, insertAt_append_left (by simp; omega), hgrow]
  rfl

/-- An insertion where two lists of ranges meet. -/
theorem flags_between (rs rs' : List Range) (len : Nat) :
    flags (rs ++ Range.live len :: rs') =
      insertAt (extent false rs) (List.replicate len true) (flags (rs ++ rs')) := by
  rw [flags_append, flags_append, ← flags_length, insertAt_length_append]
  simp

/-- The ranges `mid` were replaced by `mid'`, which is longer by live
characters.  A cursor behind them is shifted, one before them stays. -/
theorem CursorOk.shiftRight {pre mid mid' post : List Range} {delta rangeDelta : Nat} {c : Cursor}
    (h : CursorOk (pre ++ mid ++ post) c) (hmid : mid.length ≤ 1) (hne : mid' ≠ [])
    (hsize : ∀ b, extent b mid' = extent b mid + delta)
    (hlen : mid'.length = mid.length + rangeDelta) :
    CursorOk (pre ++ mid' ++ post)
      (match c.rangeIdx with
      | some idx =>
          if idx ≥ pre.length + mid.length then
            { internalPos := c.internalPos + delta
              editorPos := c.editorPos + delta
              rangeIdx := some (idx + rangeDelta) }
          else c
      | none => c) := by
  rcases h with rfl | ⟨pre₁, r₁, post₁, hrs, rfl⟩
  · exact Or.inl rfl
  · simp only [Cursor.after]
    split
    next hge =>
      -- The cursor stands behind `mid`.
      obtain ⟨m, rfl⟩ : ∃ m, pre₁ = pre ++ mid ++ m := by
        have : pre ++ mid <+: pre₁ :=
          List.prefix_of_prefix_length_le ⟨post, rfl⟩ ⟨r₁ :: post₁, hrs.symm⟩ (by simpa using hge)
        obtain ⟨m, hm⟩ := this
        exact ⟨m, hm.symm⟩
      obtain rfl : post = m ++ r₁ :: post₁ := by simpa using hrs
      refine Or.inr ⟨pre ++ mid' ++ m, r₁, post₁, by simp, ?_⟩
      simp only [Cursor.after, extent_append, hsize, List.length_append, hlen]
      congr 1
      · omega
      · omega
      · congr 1; omega
    next hlt =>
      obtain ⟨m, rfl⟩ : ∃ m, pre = pre₁ ++ m := by
        have : pre₁ <+: pre :=
          List.prefix_of_prefix_length_le ⟨r₁ :: post₁, hrs.symm⟩ ⟨mid ++ post, by simp⟩ (by omega)
        obtain ⟨m, hm⟩ := this
        exact ⟨m, hm.symm⟩
      obtain ⟨r', post', hpost⟩ : ∃ r' post', m ++ mid' ++ post = r' :: post' :=
        List.exists_cons_of_ne_nil (by simp [hne])
      refine Or.inr ⟨pre₁, r', post', ?_, rfl⟩
      rw [← hpost]
      simp

namespace InternalDoc

@[simp] theorem shiftCursorsRight_ranges (doc : InternalDoc) (idx delta rangeIdxDelta : Nat) :
    (doc.shiftCursorsRight idx delta rangeIdxDelta).ranges = doc.ranges := rfl

theorem shiftCursorsRight_ok (rangeDelta : Nat) {doc : InternalDoc}
    {pre mid mid' post : List Range} {idx delta : Nat}
    (h : AssocMap.AllVals (CursorOk (pre ++ mid ++ post)) doc.cursors) (hmid : mid.length ≤ 1)
    (hne : mid' ≠ []) (hsize : ∀ b, extent b mid' = extent b mid + delta)
    (hlen : mid'.length = mid.length + rangeDelta) (hidx : idx = pre.length + mid.length) :
    AssocMap.AllVals (CursorOk (pre ++ mid' ++ post))
      (doc.shiftCursorsRight idx delta rangeDelta).cursors := by
  intro p hp
  obtain ⟨⟨site, c⟩, hc, rfl⟩ := List.mem_map.mp hp
  have hok := (h _ hc).shiftRight hmid hne hsize hlen
  rw [← hidx] at hok
  cases hi : c.rangeIdx with
  | none => simpa [hi] using hok
  | some i =>
      simp only [hi] at hok ⊢
      by_cases hge : i ≥ idx
      · simpa [hge] using hok
      · simpa [hge] using hok

/-- What an insertion leaves behind. -/
structure Inserted (doc : InternalDoc) (pos len : Nat) (c' : Cursor) (doc' : InternalDoc) :
    Prop where
  flags : flags doc'.ranges = insertAt pos (List.replicate len true) (flags doc.ranges)
  ranges : 0 < len → RangesOk doc'.ranges
  cursor : CursorOk doc'.ranges c'
  cursors : AssocMap.AllVals (CursorOk doc'.ranges) doc'.cursors

/-- Cases (b), (c) and (e): a live range grows. -/
theorem inserted_grow {doc : InternalDoc} {pre post : List Range} {r : Range} {pos len : Nat}
    {c' : Cursor} (hok : RangesOk doc.ranges)
    (hcs : AssocMap.AllVals (CursorOk doc.ranges) doc.cursors)
    (hrs : doc.ranges = pre ++ r :: post) (hr : r.isLive = true)
    (hle : extent false pre ≤ pos) (hpos : pos ≤ extent false pre + r.len)
    (hc' : CursorOk (pre ++ Range.live (r.len + len) :: post) c') {idx : Nat}
    (hidx : idx = pre.length + 1) :
    Inserted doc pos len c'
      ({ doc with ranges := doc.ranges.set pre.length (.live (r.len + len)) }.shiftCursorsRight
        idx len 0) := by
  have hset : doc.ranges.set pre.length (.live (r.len + len)) =
      pre ++ Range.live (r.len + len) :: post := by
    rw [hrs, List.set_append_right _ _ (Nat.le_refl _)]
    simp
  have hcs' : AssocMap.AllVals (CursorOk (pre ++ Range.live (r.len + len) :: post))
      ({ doc with ranges := doc.ranges.set pre.length (.live (r.len + len)) }.shiftCursorsRight
        idx len 0).cursors := by
    have hcs₀ : AssocMap.AllVals (CursorOk (pre ++ [r] ++ post)) doc.cursors := by
      simpa [hrs] using hcs
    have hsize : ∀ b, extent b [.live (r.len + len)] = extent b [r] + len := by
      intro b
      cases b <;> simp [Range.liveLen_of_live hr]
    have := shiftCursorsRight_ok 0 hcs₀ (by simp) (by simp) hsize rfl hidx
    simpa [shiftCursorsRight] using this
  refine ⟨?_, fun _ => ?_, ?_, ?_⟩
  · rw [shiftCursorsRight_ranges, hset, hrs]
    exact flags_grow hr hle hpos
  · rw [shiftCursorsRight_ranges, hset]
    have := hok.pos r (by simp [hrs])
    rw [hrs] at hok
    exact hok.replace (by simp [hr]) (by simp; omega)
  · rw [shiftCursorsRight_ranges, hset]
    exact hc'
  · rw [shiftCursorsRight_ranges, hset]
    exact hcs'

/-- The insertion succeeds, and the flags show it. -/
def Inserts (doc : InternalDoc) (pos len : Nat) (c : Cursor) : Prop :=
  ∃ c' doc', doc.applyIns pos len c = some (c', doc') ∧ Inserted doc pos len c' doc'

section

variable {doc : InternalDoc} {pos n : Nat} {pre post : List Range} (len : Nat)

/-- (a) The document has no ranges. -/
theorem inserts_empty (hcs : AssocMap.AllVals (CursorOk doc.ranges) doc.cursors)
    (hrs : doc.ranges = []) : doc.Inserts 0 len Cursor.unset := by
  refine ⟨Cursor.unset, { doc with ranges := [.live len] }, by simp [applyIns, hrs], ?_, ?_,
    Or.inl rfl, ?_⟩
  · simp [hrs, insertAt]
  · exact fun hlen => RangesOk.singleton hlen
  · intro p hp
    have := hcs p hp
    rw [hrs] at this
    exact Or.inl this.eq_unset

variable (hok : RangesOk doc.ranges) (hcs : AssocMap.AllVals (CursorOk doc.ranges) doc.cursors)
include hok hcs

/-- (b) The cursor stands at a live range. -/
theorem inserts_live (hrs : doc.ranges = pre ++ .live n :: post) (hle : extent false pre ≤ pos)
    (hpos : pos ≤ extent false pre + n) : doc.Inserts pos len (Cursor.after pre) := by
  have hne : ¬ doc.ranges.length = 0 := by simp [hrs]
  have hget := getElem?_split hrs
  refine ⟨Cursor.after pre, _, ?_, inserted_grow hok hcs hrs rfl hle hpos
    (Or.inr ⟨pre, _, post, rfl, rfl⟩) rfl⟩
  simp [applyIns, hne, Cursor.after, hget, assert?, hle, hpos]

/-- (c) At the beginning of a dead range, behind a live one. -/
theorem inserts_behind_live {r : Range} (hrs : doc.ranges = (pre ++ [r]) ++ .dead n :: post)
    (hbeg : extent false (pre ++ [r]) = pos) :
    doc.Inserts pos len (Cursor.after (pre ++ [r])) := by
  have hne : ¬ doc.ranges.length = 0 := by simp [hrs]
  have hr : r.isLive = true := by
    have hok' := hok
    rw [hrs] at hok'
    simpa using hok'.meet r (by simp) (.dead n) (by simp)
  have hrs' : doc.ranges = pre ++ r :: .dead n :: post := by rw [hrs]; simp
  simp only [extent_append, extent_cons, extent_nil, Range.size_false] at hbeg
  refine ⟨Cursor.after (pre ++ [.live (r.len + len)]), _, ?_,
    inserted_grow hok hcs hrs' hr (by omega) (by omega)
      (Or.inr ⟨pre ++ [.live (r.len + len)], .dead n, post, by simp, rfl⟩) rfl⟩
  have hget : doc.ranges[pre.length]? = some r := getElem?_split hrs'
  have hget' : doc.ranges[pre.length + 1]? = some (.dead n) := by
    simpa using getElem?_split hrs
  simp [applyIns, hne, Cursor.after, hget', hget, assert?, ← hbeg, hr, Range.liveLen_of_live hr]
  omega

/-- (d) At the beginning of the document, which is dead there. -/
theorem inserts_front (hrs : doc.ranges = .dead n :: post) :
    doc.Inserts 0 len (Cursor.after []) := by
  have hcs₀ : AssocMap.AllVals (CursorOk ([] ++ [] ++ doc.ranges)) doc.cursors := hcs
  have hsize : ∀ b, extent b [.live len] = extent b [] + len := by
    intro b
    cases b <;> simp
  have hcs' := shiftCursorsRight_ok 1 hcs₀ (by simp) (by simp) hsize rfl rfl
  refine ⟨Cursor.after [.live len],
    { doc with ranges := [Range.live len] ++ doc.ranges }.shiftCursorsRight 0 len 1,
    ?_, ?_, ?_, ?_, hcs'⟩
  · simp [applyIns, Cursor.after, hrs, assert?]
  · have := flags_between [] doc.ranges len
    simpa using this
  · intro hlen
    refine (RangesOk.singleton (r := .live len) hlen).append hok ?_
    simp [hrs]
  · exact Or.inr ⟨[.live len], .dead n, post, by simp [hrs], rfl⟩

/-- (e) At the end of a dead range, before a live one. -/
theorem inserts_before_live {r : Range} (hrs : doc.ranges = pre ++ .dead n :: r :: post)
    (hend : extent false pre + n = pos) : doc.Inserts pos len (Cursor.after pre) := by
  have hne : ¬ doc.ranges.length = 0 := by simp [hrs]
  have hok' := hok
  rw [hrs] at hok'
  have hn : 0 < n := hok'.pos (.dead n) (by simp)
  have hr : r.isLive = true := by
    have hright : RangesOk ([.dead n] ++ r :: post) := hok'.right
    simpa using hright.meet (.dead n) (by simp) r (by simp)
  have hrs' : doc.ranges = (pre ++ [.dead n]) ++ r :: post := by rw [hrs]; simp
  refine ⟨Cursor.after pre, _, ?_,
    inserted_grow hok hcs hrs' hr (by simp; omega) (by simp; omega)
      (Or.inr ⟨pre, .dead n, .live (r.len + len) :: post, by simp, rfl⟩) rfl⟩
  have hget := getElem?_split hrs
  have hlt : pre.length + 1 < doc.ranges.length := by simp [hrs]
  have hget' : doc.ranges[pre.length + 1] = r := by simp [hrs]
  have hle : extent false pre ≤ pos := by omega
  have hbeg : ¬ extent false pre = pos := by omega
  simp [applyIns, hne, Cursor.after, hget, hget', assert?, hle, hbeg, hend, hlt, hr]

/-- (f) At the end of the document, which is dead there. -/
theorem inserts_back (hrs : doc.ranges = pre ++ [.dead n])
    (hend : extent false pre + n = pos) : doc.Inserts pos len (Cursor.after pre) := by
  have hne : ¬ doc.ranges.length = 0 := by simp [hrs]
  have hn : 0 < n := hok.pos (.dead n) (by simp [hrs])
  refine ⟨Cursor.after pre, { doc with ranges := doc.ranges ++ [.live len] }, ?_, ?_, ?_, ?_, ?_⟩
  · have hget := getElem?_split hrs
    have hlt : ¬ pre.length + 1 < doc.ranges.length := by simp [hrs]
    have hle : extent false pre ≤ pos := by omega
    have hbeg : ¬ extent false pre = pos := by omega
    simp [applyIns, hne, Cursor.after, hget, assert?, hle, hbeg, hend, hlt]
  · have := flags_between doc.ranges [] len
    rw [List.append_nil] at this
    rw [this, ← hend]
    simp [hrs]
  · intro hlen
    refine hok.append (RangesOk.singleton (r := .live len) hlen) ?_
    simp [hrs]
  · exact Or.inr ⟨pre, .dead n, [.live len], by simp [hrs], rfl⟩
  · intro p hp
    rcases hcs p hp with h | ⟨pre₁, r₁, post₁, h, hc₁⟩
    · exact Or.inl h
    · exact Or.inr ⟨pre₁, r₁, post₁ ++ [.live len], by simp [h], hc₁⟩

/-- (g) Inside a dead range.  What is left of it stands on both sides. -/
theorem inserts_inside {left right : Nat} (hrs : doc.ranges = pre ++ .dead (left + right) :: post)
    (hleft : 0 < left) (hright : 0 < right) :
    doc.Inserts (extent false pre + left) len (Cursor.after pre) := by
  have hcs₀ : AssocMap.AllVals (CursorOk (pre ++ [.dead (left + right)] ++ post)) doc.cursors := by
    simpa [hrs] using hcs
  have hsize : ∀ b, extent b [.dead left, .live len, .dead right] =
      extent b [.dead (left + right)] + len := by
    intro b
    cases b <;> simp
    omega
  have hcs' := shiftCursorsRight_ok 2 hcs₀ (by simp) (by simp) hsize rfl rfl
  refine ⟨Cursor.after (pre ++ [.dead left]),
    { doc with ranges := pre ++ [Range.dead left, Range.live len, Range.dead right] ++
      post }.shiftCursorsRight (pre.length + 1) len 2, ?_, ?_, ?_, ?_, hcs'⟩
  · have hne : ¬ doc.ranges.length = 0 := by simp [hrs]
    have hget := getElem?_split hrs
    have htake : doc.ranges.take pre.length = pre := by rw [hrs, List.take_left]
    have hdrop : doc.ranges.drop (pre.length + 1) = post := by
      rw [hrs, ← List.drop_drop, List.drop_left]; rfl
    have hbeg : ¬ left = 0 := by omega
    have hend : ¬ right = 0 := by omega
    simp [applyIns, hne, Cursor.after, hget, assert?, sub?, htake, hdrop, hbeg, hend]
  · have hbetween := flags_between (pre ++ [.dead left]) (.dead right :: post) len
    have hflags : flags doc.ranges = flags (pre ++ [.dead left] ++ .dead right :: post) := by
      rw [hrs]
      simp only [flags_append, flags_cons, flags_nil, List.append_nil, Range.len_dead,
        Range.isLive_dead, List.append_assoc]
      rw [List.replicate_add, List.append_assoc]
    have hp : extent false (pre ++ [Range.dead left]) = extent false pre + left := by simp
    rw [hp, ← hflags] at hbetween
    rw [← hbetween]
    simp
  · intro hlen
    rw [hrs] at hok
    have hpre : RangesOk (pre ++ [.dead left]) := by
      have : RangesOk ((pre ++ [.dead (left + right)]) ++ post) := by simpa using hok
      exact this.left.replace rfl hleft
    have hrest : RangesOk (.dead right :: post) := hok.right.replace_head rfl hright
    have hlive : RangesOk (.live len :: .dead right :: post) :=
      (RangesOk.singleton (r := .live len) hlen).append hrest (by simp)
    simpa using hpre.append hlive (by simp)
  · exact Or.inr ⟨pre ++ [.dead left], .live len, .dead right :: post, by simp, rfl⟩

/-- The cursor stands at a dead range. -/
theorem inserts_dead (hrs : doc.ranges = pre ++ .dead n :: post) (hle : extent false pre ≤ pos)
    (hpos : pos ≤ extent false pre + n) : doc.Inserts pos len (Cursor.after pre) := by
  rcases Nat.eq_or_lt_of_le hle with hbeg | hlt
  · rcases List.eq_nil_or_concat pre with rfl | ⟨pre₀, r₀, rfl⟩
    · obtain rfl : pos = 0 := by simpa using hbeg.symm
      exact inserts_front len hok hcs (by simpa using hrs)
    · rw [List.concat_eq_append] at *
      exact inserts_behind_live len hok hcs hrs hbeg
  · rcases Nat.eq_or_lt_of_le hpos with hend | hgt
    · cases post with
      | nil => exact inserts_back len hok hcs hrs hend.symm
      | cons r post => exact inserts_before_live len hok hcs hrs hend.symm
    · obtain ⟨left, rfl⟩ := Nat.exists_eq_add_of_lt hlt
      obtain ⟨right, rfl⟩ : ∃ right, n = (left + 1) + right := ⟨n - (left + 1), by omega⟩
      exact inserts_inside len hok hcs hrs (by omega) (by omega)

end

/-- `apply_ins` succeeds at a placed cursor, and the flags show the insertion. -/
theorem applyIns_spec (len : Nat) {doc : InternalDoc} {pos : Nat} {c : Cursor}
    (hok : RangesOk doc.ranges) (hcs : AssocMap.AllVals (CursorOk doc.ranges) doc.cursors)
    (hc : Placed doc.ranges pos c) :
    ∃ c' doc', doc.applyIns pos len c = some (c', doc') ∧ Inserted doc pos len c' doc' := by
  rcases hc with ⟨pre, r, post, hrs, rfl, hle, hpos⟩ | ⟨hrs, rfl, rfl⟩
  · cases r with
    | live n => exact inserts_live len hok hcs hrs hle hpos
    | dead n => exact inserts_dead len hok hcs hrs hle hpos
  · exact inserts_empty len hcs hrs

end InternalDoc

end CollabMode
