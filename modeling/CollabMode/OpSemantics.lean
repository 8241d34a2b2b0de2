import CollabMode.Op
import CollabMode.Lib.Tombstone

/-!
# What an operation does to a document

A document is a sequence of characters with tombstones.  An insertion puts live
characters in, a mark sets the flag of the characters its segments cover.

`Op.Ok` says when an operation may run on the characters `items`.  Its positions
are in range and its segments are non-empty, ascending and disjoint.  With
`strict` the segments also carry the very characters that stand there.  The
flags do not matter, so `Op.Ok` survives every transform (`itemsSquare`).

Where the flags end up does matter to `docSquare`: two marks of opposite
liveness on one character do not commute, since `transform` leaves a mark alone
when it meets another mark.  `Op.Clash` names that case.
-/

namespace CollabMode

open Tombstone

/-! ## Segments -/

/-- The positions of segments, as runs. -/
def segRuns (segs : List (Nat × Text)) : List (Nat × Nat) :=
  segs.map fun seg => (seg.1, seg.2.length)

@[simp] theorem segRuns_nil : segRuns [] = [] := rfl
@[simp] theorem segRuns_cons (seg : Nat × Text) (segs : List (Nat × Text)) :
    segRuns (seg :: segs) = (seg.1, seg.2.length) :: segRuns segs := rfl

/-- Non-empty, ascending, disjoint and within `n` characters. -/
structure SegsInRange (n : Nat) (segs : List (Nat × Text)) : Prop where
  nonempty : ∀ seg ∈ segs, seg.2 ≠ []
  ascending : Ascending (segRuns segs)
  le : ∀ seg ∈ segs, seg.1 + seg.2.length ≤ n

/-- Every segment carries the characters that stand at its place. -/
def SegsMatch (items : List Char) (segs : List (Nat × Text)) : Prop :=
  ∀ seg ∈ segs, (items.drop seg.1).take seg.2.length = seg.2

/-! ## Running an operation -/

/-- The characters after an operation, live or dead. -/
def Op.applyItems (items : List Char) : Op → List Char
  | .ins (p, s) _ => insertAt p s items
  | .mark _ _ _ => items

/-- The document after an operation. -/
def Op.apply (d : Seq Char) : Op → Seq Char
  | .ins (p, s) _ => d.insert p s
  | .mark segs live _ => d.mark (covers (segRuns segs)) live

@[simp] theorem Op.apply_items (d : Seq Char) (op : Op) :
    (op.apply d).items = op.applyItems d.items := by
  cases op <;> rfl

/-- The positions of an operation fit a document of `n` characters. -/
def Op.InRange (n : Nat) : Op → Prop
  | .ins (p, _) _ => p ≤ n
  | .mark segs _ _ => SegsInRange n segs

/-- An insertion inserts something. -/
def Op.Nonempty : Op → Prop
  | .ins (_, s) _ => s ≠ []
  | .mark _ _ _ => True

/-- The characters a mark names are the ones that stand there. -/
def Op.Matches (items : List Char) : Op → Prop
  | .ins _ _ => True
  | .mark segs _ _ => SegsMatch items segs

/-- The operation may run on `items`. -/
structure Op.Ok (strict : Bool) (items : List Char) (op : Op) : Prop where
  inRange : op.InRange items.length
  nonempty : op.Nonempty
  «matches» : strict = true → op.Matches items

/-- The operation brings no text back. -/
def Op.Plain : Op → Prop
  | .ins _ _ => True
  | .mark _ live _ => live = false

instance (op : Op) : Decidable op.Plain :=
  match op with
  | .ins _ _ => isTrue trivial
  | .mark _ live _ => inferInstanceAs (Decidable (live = false))

@[simp] theorem Op.plain_transform (a b : Op) : (a.transform b).Plain ↔ a.Plain := by
  cases a <;> cases b <;> exact Iff.rfl

/-- Two marks of opposite liveness on one character. -/
def Op.Clash : Op → Op → Prop
  | .mark segs live _, .mark segs' live' _ =>
      live ≠ live' ∧ ∃ i, covers (segRuns segs) i = true ∧ covers (segRuns segs') i = true
  | _, _ => False

/-! ## Segments around an insertion -/

section Split

variable {q : Nat} {u : Text} {s s' : SiteId} {n : Nat} {segs : List (Nat × Text)}

/-- The segments of a mark after `transform`. -/
def splitSegs (q : Nat) (u : Text) (s s' : SiteId) (segs : List (Nat × Text)) :
    List (Nat × Text) :=
  segs.flatMap fun seg => transformDI seg (q, u) s s'

/-- A piece of a segment keeps its characters, at the place they moved to. -/
theorem mem_transformDI {seg piece : Nat × Text} (hseg : seg.2 ≠ [])
    (h : piece ∈ transformDI seg (q, u) s s') :
    piece.2 ≠ [] ∧
      (piece.1 + piece.2.length ≤ q ∧ seg.1 = piece.1 ∧
          piece.2 = seg.2.take piece.2.length ∧ piece.1 + piece.2.length ≤ seg.1 + seg.2.length ∨
        q + u.length ≤ piece.1 ∧ piece.1 + piece.2.length = seg.1 + seg.2.length + u.length ∧
          seg.1 + u.length ≤ piece.1 ∧ piece.2 = seg.2.drop (piece.1 - u.length - seg.1)) := by
  obtain ⟨p, t⟩ := seg
  have ht : 0 < t.length := List.length_pos_iff.mpr hseg
  rw [transformDI_eq hseg] at h
  split_ifs at h with h1 h2
  · simp only [List.mem_singleton] at h
    subst h
    exact ⟨hseg, Or.inl (by simp at h1 ⊢; omega)⟩
  · simp only [List.mem_singleton] at h
    subst h
    refine ⟨hseg, Or.inr ?_⟩
    simp only at h2 ⊢
    refine ⟨by omega, by omega, by omega, ?_⟩
    rw [show p + u.length - u.length - p = 0 by omega, List.drop_zero]
  · simp only [List.mem_cons, List.not_mem_nil, or_false] at h
    simp only at h1 h2
    rcases h with rfl | rfl
    · refine ⟨?_, Or.inl ?_⟩
      · rw [← List.length_pos_iff, List.length_take]; omega
      · simp only [List.length_take]
        refine ⟨by omega, trivial, ?_, by omega⟩
        rw [show min (q - p) t.length = q - p by omega]
    · refine ⟨?_, Or.inr ?_⟩
      · rw [← List.length_pos_iff, List.length_drop]; omega
      · simp only [List.length_drop]
        refine ⟨by omega, by omega, by omega, ?_⟩
        rw [show q + u.length - u.length - p = q - p by omega]

theorem stretch_transformDI (q : Nat) (u : Text) (s s' : SiteId) {seg : Nat × Text}
    (hseg : seg.2 ≠ []) (i : Nat) :
    covers (segRuns (transformDI seg (q, u) s s')) i =
      shift q u.length (stretch (seg.1, seg.2.length)) i := by
  obtain ⟨p, t⟩ := seg
  have ht : 0 < t.length := List.length_pos_iff.mpr hseg
  rw [transformDI_eq hseg, Bool.eq_iff_iff]
  simp only [shift]
  split_ifs <;>
    simp only [segRuns_cons, segRuns_nil, covers_cons, covers_nil, Bool.or_eq_true, stretch_iff,
      List.length_take, List.length_drop, Bool.or_false, iff_false] at * <;>
    omega

/-- A mark covers the same characters before and after. -/
theorem covers_splitSegs (h : ∀ seg ∈ segs, seg.2 ≠ []) :
    covers (segRuns (splitSegs q u s s' segs)) =
      shift q u.length (covers (segRuns segs)) := by
  funext i
  induction segs with
  | nil => simp [splitSegs, shift]
  | cons seg segs ih =>
      have hseg := stretch_transformDI q u s s' (h seg (by simp)) i
      have ih := ih fun t ht => h t (by simp [ht])
      simp only [splitSegs, List.flatMap_cons, segRuns, List.map_append] at ih hseg ⊢
      rw [covers_append, ih, hseg]
      simp only [shift, List.map_cons, covers_cons]
      split_ifs <;> simp

theorem SegsInRange.split (h : SegsInRange n segs) :
    SegsInRange (n + u.length) (splitSegs q u s s' segs) := by
  have hmem : ∀ piece ∈ splitSegs q u s s' segs, ∃ seg ∈ segs,
      piece ∈ transformDI seg (q, u) s s' := by
    intro piece hp
    simpa [splitSegs] using hp
  refine ⟨?_, ?_, ?_⟩
  · intro piece hp
    obtain ⟨seg, hseg, hp⟩ := hmem piece hp
    exact (mem_transformDI (h.nonempty seg hseg) hp).1
  · unfold Ascending segRuns splitSegs
    rw [List.pairwise_map, List.pairwise_flatMap]
    constructor
    · intro seg hseg
      rw [transformDI_eq (h.nonempty seg hseg)]
      split_ifs
      · simp
      · simp
      · simp only [List.pairwise_cons, List.mem_singleton, forall_eq, List.length_take,
          List.not_mem_nil, false_implies, implies_true, List.Pairwise.nil, and_true]
        omega
    · have hasc := h.ascending
      unfold Ascending segRuns at hasc
      rw [List.pairwise_map] at hasc
      refine hasc.imp_of_mem ?_
      intro seg seg' hseg hseg' hle piece hp piece' hp'
      obtain ⟨hne, h1⟩ := mem_transformDI (h.nonempty seg hseg) hp
      obtain ⟨hne', h2⟩ := mem_transformDI (h.nonempty seg' hseg') hp'
      have := List.length_pos_iff.mpr hne
      have := List.length_pos_iff.mpr hne'
      simp only at hle
      omega
  · intro piece hp
    obtain ⟨seg, hseg, hp⟩ := hmem piece hp
    have h1 := (mem_transformDI (h.nonempty seg hseg) hp).2
    have h2 := h.le seg hseg
    omega

theorem SegsMatch.split {items : List Char} (hq : q ≤ items.length)
    (hr : SegsInRange items.length segs) (h : SegsMatch items segs) :
    SegsMatch (insertAt q u items) (splitSegs q u s s' segs) := by
  intro piece hp
  obtain ⟨seg, hseg, hp⟩ : ∃ seg ∈ segs, piece ∈ transformDI seg (q, u) s s' := by
    simpa [splitSegs] using hp
  have hmatch := h seg hseg
  have hle := hr.le seg hseg
  apply List.ext_getElem?
  intro i
  by_cases hi : i < piece.2.length
  · rw [List.getElem?_take_of_lt hi, List.getElem?_drop, getElem?_insertAt hq]
    have hget : ∀ j < seg.2.length, items[seg.1 + j]? = seg.2[j]? := by
      intro j hj
      rw [← List.getElem?_drop, ← List.getElem?_take_of_lt hj, hmatch]
    rcases (mem_transformDI (hr.nonempty seg hseg) hp).2 with
      ⟨h1, h2, h3, h4⟩ | ⟨h1, h2, h3, h4⟩
    · rw [if_pos (by omega), ← h2, hget i (by omega), h3,
        List.getElem?_take_of_lt (by simpa using hi)]
    · rw [if_neg (by omega), if_neg (by omega), h4, List.getElem?_drop]
      rw [show piece.1 + i - u.length = seg.1 + (piece.1 - u.length - seg.1 + i) by omega]
      exact hget _ (by omega)
  · rw [List.getElem?_eq_none (by simp; omega), List.getElem?_eq_none (by omega)]

end Split

/-! ## One cell of the grid -/

section Square

variable {strict : Bool} {items : List Char}

theorem Op.Ok.ins {p : Nat} {t : Text} {site : SiteId} (h : Op.Ok strict items (.ins (p, t) site)) :
    p ≤ items.length ∧ t ≠ [] :=
  ⟨h.inRange, h.nonempty⟩

theorem Op.ok_ins {p : Nat} {t : Text} {site : SiteId} (hp : p ≤ items.length) (ht : t ≠ []) :
    Op.Ok strict items (.ins (p, t) site) :=
  ⟨hp, ht, fun _ => trivial⟩

/-- A mark meets an insertion. -/
theorem Op.Ok.mark_ins {segs : List (Nat × Text)} {live : Bool} {site site' : SiteId} {q : Nat}
    {u : Text} (h : Op.Ok strict items (.mark segs live site)) (hq : q ≤ items.length) :
    Op.Ok strict (insertAt q u items)
      ((Op.mark segs live site).transform (.ins (q, u) site')) := by
  have hr : SegsInRange items.length segs := h.inRange
  refine ⟨?_, trivial, fun hs => ?_⟩
  · show SegsInRange _ _
    rw [insertAt_length]
    exact hr.split
  · exact SegsMatch.split hq hr (h.matches hs)

/-- Two insertions of different sites are in one order or the other. -/
theorem ins_order (p q s s' : Nat) (h : s ≠ s') :
    (p < q ∨ p = q ∧ s < s') ∨ (q < p ∨ q = p ∧ s' < s) := by
  omega

theorem transform_ins_lt {p q s s' : Nat} {t u : Text}
    (h : p < q ∨ p = q ∧ s < s') :
    (Op.ins (p, t) s).transform (.ins (q, u) s') = .ins (p, t) s ∧
      (Op.ins (q, u) s').transform (.ins (p, t) s) = .ins (q + t.length, u) s' := by
  constructor
  · simp [Op.transform, transformII, posLessThan_iff.mpr h]
  · have : ¬ (q < p ∨ q = p ∧ s' < s) := by omega
    simp [Op.transform, transformII, Bool.eq_false_iff.mpr (mt posLessThan_iff.mp this)]

/-- The characters of a document do not depend on the order of two concurrent
operations of different sites, and each may run after the other. -/
theorem itemsSquare (strict : Bool) :
    Grid.Square Op.transform Op.applyItems (Op.Ok strict) fun a b => a.site ≠ b.site := by
  intro items a b ha hb hsite
  cases a with
  | ins op s =>
      obtain ⟨p, t⟩ := op
      obtain ⟨hp, ht⟩ := ha.ins
      cases b with
      | ins op' s' =>
          obtain ⟨q, u⟩ := op'
          obtain ⟨hq, hu⟩ := hb.ins
          rcases ins_order p q s s' hsite with hlt | hlt
          · obtain ⟨h1, h2⟩ := transform_ins_lt (t := t) (u := u) hlt
            rw [h1, h2]
            exact ⟨Op.ok_ins (by simp [Op.applyItems]; omega) hu,
              Op.ok_ins (by simp [Op.applyItems]; omega) ht, insertAt_comm (by omega) hq⟩
          · obtain ⟨h2, h1⟩ := transform_ins_lt (t := u) (u := t) hlt
            rw [h1, h2]
            exact ⟨Op.ok_ins (by simp [Op.applyItems]; omega) hu,
              Op.ok_ins (by simp [Op.applyItems]; omega) ht, (insertAt_comm (by omega) hp).symm⟩
      | mark segs live s' =>
          exact ⟨hb.mark_ins hp, ha, rfl⟩
  | mark segs live s =>
      cases b with
      | ins op' s' =>
          obtain ⟨q, u⟩ := op'
          exact ⟨hb, ha.mark_ins hb.ins.1, rfl⟩
      | mark segs' live' s' =>
          exact ⟨hb, ha, rfl⟩

/-- The flags agree as well, unless the two operations clash. -/
theorem docSquare (strict : Bool) :
    Grid.Square Op.transform Op.apply (fun d op => Op.Ok strict d.items op)
      fun a b => a.site ≠ b.site ∧ ¬ a.Clash b := by
  intro d a b ha hb ⟨hsite, hclash⟩
  obtain ⟨h1, h2, _⟩ := itemsSquare strict d.items a b ha hb hsite
  refine ⟨by simpa using h1, by simpa using h2, ?_⟩
  cases a with
  | ins op s =>
      obtain ⟨p, t⟩ := op
      obtain ⟨hp, ht⟩ := ha.ins
      cases b with
      | ins op' s' =>
          obtain ⟨q, u⟩ := op'
          obtain ⟨hq, hu⟩ := hb.ins
          rcases ins_order p q s s' hsite with hlt | hlt
          · obtain ⟨e1, e2⟩ := transform_ins_lt (t := t) (u := u) hlt
            rw [e1, e2]
            exact Seq.insert_comm t u (by omega) hq
          · obtain ⟨e2, e1⟩ := transform_ins_lt (t := u) (u := t) hlt
            rw [e1, e2]
            exact (Seq.insert_comm u t (by omega) hp).symm
      | mark segs live s' =>
          have hne := (show SegsInRange _ segs from hb.inRange).nonempty
          show (d.insert p t).mark (covers (segRuns (splitSegs p t s' s segs))) live = _
          rw [covers_splitSegs hne]
          exact Seq.mark_shift_insert _ _ _ hp
  | mark segs live s =>
      cases b with
      | ins op' s' =>
          obtain ⟨q, u⟩ := op'
          have hne := (show SegsInRange _ segs from ha.inRange).nonempty
          show _ = (d.insert q u).mark (covers (segRuns (splitSegs q u s s' segs))) live
          rw [covers_splitSegs hne]
          exact (Seq.mark_shift_insert _ _ _ hb.ins.1).symm
      | mark segs' live' s' =>
          refine Seq.mark_comm ?_
          by_cases hl : live = live'
          · exact Or.inl hl
          · exact Or.inr fun i _ hi => hclash ⟨hl, i, hi⟩

/-- TP1 on documents with tombstones: each of two concurrent operations may run after the
other, and both orders give the same characters with the same flags. -/
theorem transform_converges {d : Seq Char} {a b : Op} (ha : a.Ok strict d.items)
    (hb : b.Ok strict d.items) (hsite : a.site ≠ b.site) (hclash : ¬ a.Clash b) :
    (b.transform a).Ok strict (a.apply d).items ∧
      (a.transform b).Ok strict (b.apply d).items ∧
      (b.transform a).apply (a.apply d) = (a.transform b).apply (b.apply d) :=
  docSquare strict d a b ha hb ⟨hsite, hclash⟩

/-- A deletion in two segments meets an insertion that cuts the first. -/
theorem transform_converges_sample :
    let d : Seq Char := ⟨['a', 'b', 'c', 'd'], [true, true, false, true], rfl⟩
    let deletion : Op := .mark [(0, ['a', 'b']), (3, ['d'])] false 1
    let insertion : Op := .ins (1, ['x']) 2
    (insertion.transform deletion).apply (deletion.apply d) =
        (deletion.transform insertion).apply (insertion.apply d) ∧
      (deletion.transform insertion) = .mark [(0, ['a']), (2, ['b']), (4, ['d'])] false 1 := by
  intro d deletion insertion
  have hdeletion : deletion.Ok true d.items := by
    refine ⟨⟨by decide, ?_, by decide⟩, trivial, fun _ => ?_⟩
    · unfold Ascending
      decide
    · unfold Op.Matches SegsMatch
      decide
  have hinsertion : insertion.Ok true d.items := Op.ok_ins (by decide) (by decide)
  exact ⟨(transform_converges hdeletion hinsertion (by decide) id).2.2, by decide⟩

end Square

/-! ## Inverses -/

/-- The deletion of a text stands before an insertion. -/
theorem transformDI_of_before {p q : Nat} {t u : Text} (ht : t ≠ []) {s s' : SiteId}
    (h : p + t.length ≤ q) : transformDI (p, t) (q, u) s s' = [(p, t)] := by
  rw [transformDI_eq ht, if_pos h]

/-- It stands after the insertion. -/
theorem transformDI_of_after {p q : Nat} {t u : Text} (ht : t ≠ []) {s s' : SiteId}
    (h : q ≤ p) : transformDI (p, t) (q, u) s s' = [(p + u.length, t)] := by
  have hlen : ¬p + t.length ≤ q := by
    have := List.length_pos_iff.mpr ht
    omega
  rw [transformDI_eq ht, if_neg hlen, if_pos h]

/-- IP3: the inverse of an operation, transformed past what the other one becomes after it,
is the inverse of the operation transformed past the other one. -/
theorem inverse_transform {a b : Op} (ha : a.Nonempty) (hsite : a.site ≠ b.site) :
    a.inverse.transform (b.transform a) = (a.transform b).inverse := by
  cases a with
  | ins op s =>
      obtain ⟨p, t⟩ := op
      have ht : t ≠ [] := ha
      cases b with
      | ins op' s' =>
          obtain ⟨q, u⟩ := op'
          rcases ins_order p q s s' hsite with hlt | hlt
          · obtain ⟨hkept, hmoved⟩ := transform_ins_lt (t := t) (u := u) hlt
            rw [hkept, hmoved]
            have hbefore : p + t.length ≤ q + t.length := by omega
            simp [Op.inverse, Op.transform, transformDI_of_before ht hbefore]
          · obtain ⟨hkept, hmoved⟩ := transform_ins_lt (t := u) (u := t) hlt
            rw [hkept, hmoved]
            have hafter : q ≤ p := by omega
            simp [Op.inverse, Op.transform, transformDI_of_after ht hafter]
      | mark segs live s' => rfl
  | mark segs live s => cases b <;> rfl

/-- Two insertions at one position, ordered by their sites. -/
theorem inverse_transform_sample :
    let a : Op := .ins (2, ['a', 'b']) 5
    let b : Op := .ins (2, ['x']) 3
    a.inverse.transform (b.transform a) = (a.transform b).inverse ∧
      (a.transform b).inverse = .mark [(3, ['a', 'b'])] false 5 :=
  ⟨inverse_transform (by exact List.cons_ne_nil _ _) (by decide), rfl⟩

end CollabMode
