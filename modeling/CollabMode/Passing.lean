import CollabMode.DocsSpec

/-!
# An operation passes concurrent ones

A client runs an operation of the server after its local ones, the server before
them.  Both end with the same document when the marks of the operation agree with
the last marks that the local operations leave on the same characters
(`Op.Agrees.pass`).  For an insertion nothing is asked.

A mark can be carried past anything.  So the inverse of an operation may run at
the end of any history that the operation is part of (`Op.Ok.inverse`,
`Op.Ok.through_mark`).
-/

namespace CollabMode

open Tombstone

/-! ## The last mark on a character -/

/-- Where the character at `i` stands after the operation. -/
def Op.follow (i : Nat) : Op → Nat
  | .ins (q, u) _ => if i < q then i else i + u.length
  | .mark _ _ _ => i

/-- The liveness that the operation gives to the character at `i`. -/
def Op.marks (i : Nat) : Op → Option Bool
  | .ins _ _ => none
  | .mark segs live _ => if covers (segRuns segs) i then some live else none

/-- The liveness that `ops` leave the character at `i` with, if one of them marks
it. -/
def lastMark (i : Nat) : List Op → Option Bool
  | [] => none
  | op :: ops => (lastMark (op.follow i) ops).or (op.marks i)

/-- No character is marked by `op` in one way and by the last of `ops` that marks it
in the other. -/
def Op.Agrees (op : Op) (ops : List Op) : Prop :=
  match op with
  | .ins _ _ => True
  | .mark segs live _ =>
      ∀ seg ∈ segs, ∀ k < seg.2.length, lastMark (seg.1 + k) ops ≠ some (!live)

instance (op : Op) (ops : List Op) : Decidable (op.Agrees ops) :=
  match op with
  | .ins _ _ => isTrue trivial
  | .mark segs live _ => inferInstanceAs (Decidable
      (∀ seg ∈ segs, ∀ k < seg.2.length, lastMark (seg.1 + k) ops ≠ some (!live)))

section Marks

variable {segs : List (Nat × Text)} {live : Bool} {site : SiteId} {ops : List Op}

theorem Op.agrees_mark : (Op.mark segs live site).Agrees ops ↔
    ∀ i, covers (segRuns segs) i = true → lastMark i ops ≠ some (!live) := by
  constructor
  · intro h i hi
    obtain ⟨r, hr, h1, h2⟩ := covers_iff.mp hi
    obtain ⟨seg, hseg, rfl⟩ := List.mem_map.mp hr
    have := h seg hseg (i - seg.1) (by dsimp only at h1 h2; omega)
    rwa [Nat.add_sub_cancel' h1] at this
  · intro h seg hseg k hk
    refine h _ (covers_iff.mpr ⟨_, List.mem_map_of_mem hseg, Nat.le_add_right _ _, ?_⟩)
    exact Nat.add_lt_add_left hk _

/-- Marks that bring nothing back agree. -/
theorem Op.Plain.agrees {op : Op} (h : op.Plain) (hops : ∀ b ∈ ops, b.Plain) :
    op.Agrees ops := by
  have hlast : ∀ i, lastMark i ops ≠ some true := by
    induction ops with
    | nil =>
        intro i hi
        cases hi
    | cons b ops ih =>
        intro i hi
        rcases Option.or_eq_some_iff.mp hi with hi | ⟨_, hi⟩
        · exact ih (fun b hb => hops b (by simp [hb])) _ hi
        · cases b with
          | ins op s => cases hi
          | mark segs live s =>
              obtain rfl : live = false := hops (.mark segs live s) (by simp)
              simp [Op.marks] at hi
  cases op with
  | ins op s => trivial
  | mark segs live s =>
      obtain rfl : live = false := h
      exact agrees_mark.mpr fun i _ => hlast i

/-- A mark moves nothing. -/
theorem past_mark : Grid.past Op.transform (.mark segs live site) ops = ops := by
  induction ops generalizing segs with
  | nil => rfl
  | cons b ops ih =>
      rw [Grid.past_cons, Op.transform_mark]
      congr 1
      cases b with
      | ins op s => exact ih
      | mark segs' live' s => exact ih

end Marks

/-- A flag that the operations overwrite does not matter. -/
theorem replay_congr {d d' : Seq Char} {ops : List Op}
    (hok : Grid.OkAll Op.applyItems (Op.Ok false) d.items ops) (hitems : d.items = d'.items)
    (hflags : ∀ i, lastMark i ops = none → d.flags[i]? = d'.flags[i]?) :
    replay d ops = replay d' ops := by
  induction ops generalizing d d' with
  | nil => exact Seq.ext hitems (List.ext_getElem? fun i => hflags i rfl)
  | cons op ops ih =>
      obtain ⟨hop, hrest⟩ := hok
      refine ih (by rw [Op.apply_items]; exact hrest) (by rw [Op.apply_items, hitems]; simp) ?_
      intro i hi
      cases op with
      | ins op s =>
          obtain ⟨q, u⟩ := op
          have hq : q ≤ d.flags.length := d.length_eq ▸ hop.ins.1
          have hq' : q ≤ d'.flags.length := by rw [← d'.length_eq, ← hitems]; exact hop.ins.1
          have hfollow : ∀ j, (Op.ins (q, u) s).follow j = i → d.flags[j]? = d'.flags[j]? := by
            rintro j rfl
            exact hflags j (by simp [lastMark, hi, Op.marks])
          simp only [Op.apply, Seq.insert_flags, getElem?_insertAt hq, getElem?_insertAt hq',
            List.length_replicate]
          split_ifs with h1 h2
          · exact hfollow i (by simp [Op.follow, h1])
          · rfl
          · refine hfollow _ ?_
            rw [Op.follow, if_neg (by omega), Nat.sub_add_cancel (by omega)]
      | mark segs live s =>
          simp only [Op.apply, Seq.mark_flags, getElem?_paint]
          by_cases hc : covers (segRuns segs) i = true
          · have hlen : d.flags.length = d'.flags.length := by
              rw [← d.length_eq, ← d'.length_eq, hitems]
            by_cases hlt : i < d.flags.length
            · simp [hc, List.getElem?_eq_getElem hlt, List.getElem?_eq_getElem (hlen ▸ hlt)]
            · rw [List.getElem?_eq_none (by omega), List.getElem?_eq_none (by omega)]
          · rw [hflags i (by simp [lastMark, Op.follow, hi, Op.marks, hc])]

/-! ## Passing a list -/

/-- An insertion carries the agreement along. -/
theorem Op.Agrees.ins {segs : List (Nat × Text)} {live : Bool} {s s' q : Nat} {u : Text}
    {ops : List Op} (hne : ∀ seg ∈ segs, seg.2 ≠ [])
    (h : (Op.mark segs live s).Agrees (.ins (q, u) s' :: ops)) :
    ((Op.mark segs live s).transform (.ins (q, u) s')).Agrees ops := by
  rw [agrees_mark] at h
  show (Op.mark (splitSegs q u s s' segs) live s).Agrees ops
  rw [agrees_mark, covers_splitSegs hne]
  have hlast : ∀ j, lastMark j (.ins (q, u) s' :: ops) =
      lastMark ((Op.ins (q, u) s').follow j) ops := fun j => by simp [lastMark, Op.marks]
  intro i hi
  unfold shift at hi
  split_ifs at hi with h1 h2
  · have := h i hi
    rwa [hlast, Op.follow, if_pos h1] at this
  · have := h (i - u.length) hi
    rwa [hlast, Op.follow, if_neg (by omega), Nat.sub_add_cancel (by omega)] at this

/-- Where two marks meet that set a flag to different values, a later mark must set
it again. -/
theorem Op.Agrees.mark {segs segs' : List (Nat × Text)} {live live' : Bool} {s s' : SiteId}
    {ops : List Op} (h : (Op.mark segs live s).Agrees (.mark segs' live' s' :: ops))
    {d : Seq Char} (hok : Grid.OkAll Op.applyItems (Op.Ok false) d.items ops) :
    replay ((Op.mark segs' live' s').apply ((Op.mark segs live s).apply d)) ops =
        replay ((Op.mark segs live s).apply ((Op.mark segs' live' s').apply d)) ops ∧
      (Op.mark segs live s).Agrees ops := by
  rw [agrees_mark] at h
  constructor
  · refine replay_congr hok rfl fun i hi => ?_
    simp only [Op.apply, Seq.mark_flags, getElem?_paint, Option.map_map]
    congr 1
    funext x
    simp only [Function.comp_apply]
    by_cases hc : covers (segRuns segs) i = true
    · by_cases hc' : covers (segRuns segs') i = true
      · have := h i hc
        simp only [lastMark, Op.follow, hi, Op.marks, hc', if_true, Option.none_or, ne_eq,
          Option.some_inj] at this
        rw [if_pos hc, if_pos hc', if_pos hc, Bool.not_eq_not.mp this]
      · simp [hc']
    · simp [hc]
  · rw [agrees_mark]
    intro i hi hlast
    exact h i hi (by simp [lastMark, Op.follow, hlast])

/-- An operation that agrees with concurrent ones may run before or after them. -/
theorem Op.Agrees.pass {d : Seq Char} {op : Op} {ops : List Op} (hop : op.Ok false d.items)
    (hops : Grid.OkAll Op.applyItems (Op.Ok false) d.items ops)
    (hsite : ∀ b ∈ ops, op.site ≠ b.site) (h : op.Agrees ops) :
    replay (op.apply d) (Grid.past Op.transform op ops) =
      (Grid.through Op.transform op ops).apply (replay d ops) := by
  induction ops generalizing d op with
  | nil => rfl
  | cons b ops ih =>
      obtain ⟨hb, hrest⟩ := hops
      have hne : op.site ≠ b.site := hsite b (by simp)
      obtain ⟨_, hok, _⟩ := itemsSquare false d.items op b hop hb hne
      have ih' := fun h' => @ih (b.apply d) (op.transform b)
        (by rw [Op.apply_items]; exact hok) (by rw [Op.apply_items]; exact hrest)
        (fun c hc => by rw [Op.site_transform]; exact hsite c (by simp [hc])) h'
      have hcell : ¬ op.Clash b → (b.transform op).apply (op.apply d) =
          (op.transform b).apply (b.apply d) := fun hclash =>
        (docSquare false d op b hop hb ⟨hne, hclash⟩).2.2
      rw [Grid.past_cons, Grid.through_cons]
      show replay ((b.transform op).apply (op.apply d)) _ = _
      cases op with
      | ins op s =>
          rw [hcell id]
          exact ih' (by cases b <;> trivial)
      | mark segs live s =>
          cases b with
          | ins op' s' =>
              rw [hcell id]
              exact ih' (h.ins (show SegsInRange _ segs from hop.inRange).nonempty)
          | mark segs' live' s' =>
              -- The marks are carried along as they are.
              obtain ⟨hswap, hagrees⟩ := h.mark (d := d) hrest
              rw [Op.transform_mark, Op.transform_mark, past_mark, hswap]
              have := ih' hagrees
              rwa [Op.transform_mark, past_mark] at this

/-! ## Inverses -/

section Inverse

variable {strict : Bool} {items : List Char}

theorem AllValid.ok {ops : List Op} (h : AllValid items ops) :
    Grid.OkAll Op.applyItems (Op.Ok false) items ops :=
  h.mono fun _ _ h => h.ok

/-- After an operation its inverse may run.  It is a mark. -/
theorem Op.Ok.inverse {op : Op} (h : op.Ok strict items) :
    ∃ segs live, op.inverse = .mark segs live op.site ∧
      (Op.mark segs live op.site).Ok strict (op.applyItems items) := by
  cases op with
  | ins op s =>
      obtain ⟨p, t⟩ := op
      obtain ⟨hp, hne⟩ := h.ins
      refine ⟨[(p, t)], false, rfl, ⟨?_, ?_, ?_⟩, trivial, fun _ => ?_⟩
      · simpa using hne
      · simp [Ascending]
      · simp only [Op.applyItems, insertAt_length, List.mem_singleton, forall_eq]
        omega
      · simp only [Op.Matches, SegsMatch, Op.applyItems, List.mem_singleton, forall_eq]
        exact take_drop_insertAt hp
  | mark segs live s => exact ⟨segs, !live, rfl, h.inRange, trivial, h.matches⟩

/-- A mark may run after any list of operations. -/
theorem Op.Ok.through_mark {segs : List (Nat × Text)} {live : Bool} {site : SiteId}
    {ops : List Op} (h : (Op.mark segs live site).Ok strict items)
    (hops : Grid.OkAll Op.applyItems (Op.Ok false) items ops) :
    ∃ segs', Grid.through Op.transform (.mark segs live site) ops = .mark segs' live site ∧
      (Op.mark segs' live site).Ok strict (Grid.runAll Op.applyItems items ops) := by
  induction ops generalizing items segs with
  | nil => exact ⟨segs, rfl, h⟩
  | cons b ops ih =>
      cases b with
      | ins op s =>
          obtain ⟨q, u⟩ := op
          exact ih (h.mark_ins hops.1.ins.1) hops.2
      | mark segs' live' s => exact ih h hops.2

end Inverse

end CollabMode
