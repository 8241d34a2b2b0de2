import Mathlib.Algebra.Ring.Nat
import Mathlib.Data.List.Basic
import Mathlib.Tactic.Common

/-!
# Sequences with tombstones

A sequence whose items are never removed, only flagged: `true` for live, `false`
for dead.  Items and flags are kept as two lists of one length, so that a theory
of flags alone (`insertAt`, `paint`) serves structures that store no items.

* `insertAt p s` puts `s` before position `p`.
* `paint c b` sets the flag of every position that `c` covers to `b`.
* `shift q m c` is the cover `c` as seen after `m` items came in at `q`.
* `liveItems` is what a reader sees, and `liveBefore p` the place in it of
  position `p`.

Insertions at distinct places commute up to a shift, paint commutes with
insertion along `shift`, and two coats of paint commute unless they disagree on
a position.  A run is a stretch of positions given by its start and length.
Repainting runs that all had the other flag inserts or deletes their items in
what the reader sees, one edit for each run, last run first.
-/

namespace Tombstone

variable {α : Type*}

/-! ## Insertion -/

/-- Put `s` before position `p`. -/
def insertAt (p : Nat) (s l : List α) : List α := l.take p ++ s ++ l.drop p

@[simp] theorem insertAt_length (p : Nat) (s l : List α) :
    (insertAt p s l).length = l.length + s.length := by
  simp [insertAt]
  omega

@[simp] theorem insertAt_nil_left (p : Nat) (l : List α) : insertAt p [] l = l := by
  simp [insertAt]

theorem insertAt_append_left {p : Nat} {s l l' : List α} (h : p ≤ l.length) :
    insertAt p s (l ++ l') = insertAt p s l ++ l' := by
  simp [insertAt, List.take_append_of_le_length h, List.drop_append_of_le_length h]

theorem insertAt_append_right {p : Nat} {s l l' : List α} (h : l.length ≤ p) :
    insertAt p s (l ++ l') = l ++ insertAt (p - l.length) s l' := by
  simp [insertAt, List.take_append, List.drop_append, List.take_of_length_le h,
    List.drop_of_length_le h]

theorem insertAt_length_append (s l l' : List α) :
    insertAt l.length s (l ++ l') = l ++ s ++ l' := by
  simp [insertAt]

theorem getElem?_insertAt {p : Nat} {s l : List α} (h : p ≤ l.length) (i : Nat) :
    (insertAt p s l)[i]? =
      if i < p then l[i]? else if i < p + s.length then s[i - p]? else l[i - s.length]? := by
  have hlen : (l.take p).length = p := by simp [h]
  by_cases h1 : i < p
  · have : i < (l.take p ++ s).length := by simp; omega
    rw [insertAt, List.getElem?_append_left this, List.getElem?_append_left (by omega)]
    simp [h1]
  · by_cases h2 : i < p + s.length
    · have : i < (l.take p ++ s).length := by simp; omega
      rw [insertAt, List.getElem?_append_left this, List.getElem?_append_right (by omega), hlen]
      simp [h1, h2]
    · have : (l.take p ++ s).length ≤ i := by simp; omega
      rw [insertAt, List.getElem?_append_right this]
      simp only [h1, h2, if_false, List.getElem?_drop, List.length_append, hlen]
      congr 1
      omega

/-- Cut a list around a stretch of `n` positions that starts at `p`. -/
theorem exists_split {p n : Nat} {l : List α} (h : p + n ≤ l.length) :
    ∃ A B C, l = A ++ B ++ C ∧ A.length = p ∧ B.length = n := by
  refine ⟨l.take p, (l.drop p).take n, l.drop (p + n), ?_, by simp; omega, by simp; omega⟩
  rw [List.append_assoc, ← List.drop_drop, List.take_append_drop, List.take_append_drop]

/-- Two insertions, the one further left first or last. -/
theorem insertAt_comm {p q : Nat} {s u l : List α} (hpq : p ≤ q) (hq : q ≤ l.length) :
    insertAt (q + s.length) u (insertAt p s l) = insertAt p s (insertAt q u l) := by
  obtain ⟨A, B, C, rfl, hA, hB⟩ := exists_split (p := p) (n := q - p) (l := l) (by omega)
  have hAB : q = (A ++ B).length := by simp; omega
  have hAs : q + s.length = (A ++ s ++ B).length := by simp; omega
  have h1 : insertAt p s (A ++ B ++ C) = A ++ s ++ B ++ C := by
    rw [← hA, List.append_assoc, insertAt_length_append]; simp
  have h2 : insertAt q u (A ++ B ++ C) = A ++ (B ++ u ++ C) := by
    rw [hAB, insertAt_length_append]; simp
  rw [h1, h2, hAs, insertAt_length_append, ← hA, insertAt_length_append]
  simp

/-- The items after an insertion, in another order. -/
theorem insertAt_perm (p : Nat) (s l : List α) : (insertAt p s l).Perm (s ++ l) := by
  have h := List.perm_append_comm_assoc (l.take p) s (l.drop p)
  rw [List.take_append_drop] at h
  rw [insertAt, List.append_assoc]
  exact h

/-- What was inserted is found where it was put. -/
theorem take_drop_insertAt {p : Nat} {s l : List α} (h : p ≤ l.length) :
    ((insertAt p s l).drop p).take s.length = s := by
  have hlen : (l.take p).length = p := by simp [h]
  rw [insertAt, List.append_assoc, List.drop_append, List.drop_of_length_le (by omega)]
  simp [hlen]

/-! ## Paint -/

/-- Set the flag of every covered position. -/
def paint (c : Nat → Bool) (b : Bool) (f : List Bool) : List Bool :=
  f.mapIdx fun i x => if c i then b else x

@[simp] theorem paint_length (c : Nat → Bool) (b : Bool) (f : List Bool) :
    (paint c b f).length = f.length := by
  simp [paint]

theorem getElem?_paint (c : Nat → Bool) (b : Bool) (f : List Bool) (i : Nat) :
    (paint c b f)[i]? = f[i]?.map fun x => if c i then b else x := by
  simp [paint]

theorem paint_append (c : Nat → Bool) (b : Bool) (f g : List Bool) :
    paint c b (f ++ g) = paint c b f ++ paint (fun i => c (i + f.length)) b g := by
  simp [paint, List.mapIdx_append]

/-- Paint only matters where it covers and changes something. -/
theorem paint_congr {c c' : Nat → Bool} {b : Bool} {f : List Bool}
    (h : ∀ i, f[i]? = some (!b) → c i = c' i) : paint c b f = paint c' b f := by
  apply List.ext_getElem?
  intro i
  rw [getElem?_paint, getElem?_paint]
  cases hi : f[i]? with
  | none => rfl
  | some x =>
      cases hx : decide (x = b) with
      | true =>
          have : x = b := of_decide_eq_true hx
          subst this
          simp
      | false =>
          have hne : x ≠ b := of_decide_eq_false hx
          have hxb : x = !b := by cases x <;> cases b <;> simp_all
          rw [h i (by rw [hi, hxb])]

theorem paint_eq_self {c : Nat → Bool} {b : Bool} {f : List Bool}
    (h : ∀ i, f[i]? = some (!b) → c i = false) : paint c b f = f := by
  have hnone : paint c b f = paint (fun _ => false) b f := paint_congr h
  rw [hnone]
  apply List.ext_getElem?
  intro i
  rw [getElem?_paint]
  cases f[i]? <;> rfl

theorem paint_eq_replicate {c : Nat → Bool} {b : Bool} {f : List Bool}
    (h : ∀ i < f.length, c i = true) : paint c b f = List.replicate f.length b := by
  rw [paint, List.mapIdx_eq_replicate_iff]
  intro i hi
  simp [h i hi]

/-- Two coats of paint commute when they have one colour or no common position. -/
theorem paint_comm {c c' : Nat → Bool} {b b' : Bool} {f : List Bool}
    (h : b = b' ∨ ∀ i < f.length, ¬ (c i = true ∧ c' i = true)) :
    paint c' b' (paint c b f) = paint c b (paint c' b' f) := by
  apply List.ext_getElem?
  intro i
  simp only [getElem?_paint, Option.map_map]
  by_cases hi : i < f.length
  · rw [List.getElem?_eq_getElem hi]
    rcases h with rfl | h
    · by_cases h1 : c i <;> by_cases h2 : c' i <;> simp [h1, h2]
    · have := h i hi
      by_cases h1 : c i <;> by_cases h2 : c' i <;> simp_all
  · rw [List.getElem?_eq_none (by omega)]
    rfl

/-- Two coats of one colour. -/
theorem paint_paint (c c' : Nat → Bool) (b : Bool) (f : List Bool) :
    paint c' b (paint c b f) = paint (fun i => c i || c' i) b f := by
  apply List.ext_getElem?
  intro i
  simp only [getElem?_paint, Option.map_map]
  congr 1
  funext x
  by_cases h1 : c i <;> by_cases h2 : c' i <;> simp [h1, h2]

/-- The cover `c` after `m` positions came in at `q`. -/
def shift (q m : Nat) (c : Nat → Bool) (i : Nat) : Bool :=
  if i < q then c i else if i < q + m then false else c (i - m)

/-- Painting and inserting commute along `shift`. -/
theorem paint_shift_insertAt {q : Nat} {c : Nat → Bool} {b : Bool} {s f : List Bool}
    (hq : q ≤ f.length) :
    paint (shift q s.length c) b (insertAt q s f) = insertAt q s (paint c b f) := by
  apply List.ext_getElem?
  intro i
  rw [getElem?_paint, getElem?_insertAt hq, getElem?_insertAt (by simpa using hq)]
  by_cases h1 : i < q
  · simp [shift, h1, getElem?_paint]
  · by_cases h2 : i < q + s.length
    · simp [shift, h1, h2]
    · simp [shift, h1, h2, getElem?_paint]

/-! ## What a reader sees -/

/-- The live items, in order. -/
def liveItems (l : List α) (f : List Bool) : List α :=
  ((l.zip f).filter (·.2)).map (·.1)

/-- How many live positions come before `p`. -/
def liveBefore (p : Nat) (f : List Bool) : Nat := (f.take p).count true

@[simp] theorem liveItems_nil (f : List Bool) : liveItems ([] : List α) f = [] := by
  simp [liveItems]

theorem liveItems_append {l l' : List α} {f f' : List Bool} (h : l.length = f.length) :
    liveItems (l ++ l') (f ++ f') = liveItems l f ++ liveItems l' f' := by
  simp [liveItems, List.zip_append h]

theorem liveItems_length {l : List α} {f : List Bool} (h : l.length = f.length) :
    (liveItems l f).length = f.count true := by
  induction l generalizing f with
  | nil => cases f <;> simp_all
  | cons a l ih =>
      cases f with
      | nil => simp at h
      | cons x f =>
          have := ih (f := f) (by simpa using h)
          cases x <;> simp_all [liveItems]

theorem liveItems_replicate_true (l : List α) :
    liveItems l (List.replicate l.length true) = l := by
  induction l with
  | nil => simp
  | cons a l ih => simpa [liveItems, List.replicate_succ] using ih

theorem liveItems_replicate_false (l : List α) (n : Nat) :
    liveItems l (List.replicate n false) = [] := by
  induction l generalizing n with
  | nil => simp
  | cons a l ih =>
      cases n with
      | zero => simp [liveItems]
      | succ n => simpa [liveItems, List.replicate_succ] using ih n

/-- Readers see the same when the same items are live. -/
theorem liveItems_eq_iff {l l' : List α} {f : List Bool} (h : l.length = f.length)
    (h' : l'.length = f.length) :
    liveItems l f = liveItems l' f ↔ ∀ i : Nat, f[i]? = some true → l[i]? = l'[i]? := by
  induction f generalizing l l' with
  | nil =>
      obtain rfl := List.eq_nil_of_length_eq_zero h
      obtain rfl := List.eq_nil_of_length_eq_zero h'
      exact iff_of_true rfl fun _ _ => rfl
  | cons x f ih =>
      obtain ⟨a, l, rfl⟩ := List.exists_cons_of_length_eq_add_one h
      obtain ⟨a', l', rfl⟩ := List.exists_cons_of_length_eq_add_one h'
      have hrest := ih (Nat.succ_inj.mp h) (Nat.succ_inj.mp h')
      cases x with
      | false =>
          refine hrest.trans ⟨fun heq i hi => ?_, fun heq i hi => heq (i + 1) hi⟩
          cases i with
          | zero => cases hi
          | succ i => exact heq i hi
      | true =>
          have hcons : liveItems (a :: l) (true :: f) = liveItems (a' :: l') (true :: f) ↔
              a = a' ∧ liveItems l f = liveItems l' f := List.cons_eq_cons
          rw [hcons, hrest]
          constructor
          · rintro ⟨rfl, heq⟩ i hi
            cases i with
            | zero => rfl
            | succ i => exact heq i hi
          · exact fun heq => ⟨Option.some_inj.mp (heq 0 rfl), fun i hi => heq (i + 1) hi⟩

/-- Cut items and flags at one place. -/
theorem exists_split_both {p n : Nat} {l : List α} {f : List Bool} (h : l.length = f.length)
    (hp : p + n ≤ l.length) :
    ∃ A B C F G H, l = A ++ B ++ C ∧ f = F ++ G ++ H ∧ A.length = p ∧ B.length = n ∧
      F.length = p ∧ G.length = n ∧ C.length = H.length := by
  obtain ⟨A, B, C, rfl, hA, hB⟩ := exists_split hp
  obtain ⟨F, G, H, rfl, hF, hG⟩ := exists_split (p := p) (n := n) (l := f) (by omega)
  refine ⟨A, B, C, F, G, H, rfl, rfl, hA, hB, hF, hG, ?_⟩
  simp only [List.length_append] at h
  omega

theorem liveBefore_append_length (f g : List Bool) :
    liveBefore f.length (f ++ g) = f.count true := by
  simp [liveBefore]

theorem liveBefore_le (p : Nat) (f : List Bool) : liveBefore p f ≤ f.count true :=
  (List.take_sublist p f).count_le true

/-- New live items appear at the place of their position. -/
theorem liveItems_insertAt {p : Nat} {s l : List α} {f : List Bool} (h : l.length = f.length)
    (hp : p ≤ l.length) :
    liveItems (insertAt p s l) (insertAt p (List.replicate s.length true) f) =
      insertAt (liveBefore p f) s (liveItems l f) := by
  obtain ⟨A, B, C, F, G, H, rfl, rfl, hA, hB, hF, hG, hC⟩ :=
    exists_split_both (n := 0) h (by omega)
  obtain rfl := List.eq_nil_of_length_eq_zero hB
  obtain rfl := List.eq_nil_of_length_eq_zero hG
  have hAF : A.length = F.length := by omega
  have hk : liveBefore p (F ++ H) = (liveItems A F).length := by
    rw [← hF, liveBefore_append_length, liveItems_length hAF]
  simp only [List.append_nil]
  rw [hk, liveItems_append hAF, insertAt_length_append, ← hA, insertAt_length_append, hAF,
    insertAt_length_append, liveItems_append (by simp [hAF]), liveItems_append hAF,
    liveItems_replicate_true]

/-! ## Runs -/

/-- The positions of a run, given by its start and its length. -/
def stretch (r : Nat × Nat) (i : Nat) : Bool := decide (r.1 ≤ i) && decide (i < r.1 + r.2)

/-- The positions of a list of runs. -/
def covers (rs : List (Nat × Nat)) (i : Nat) : Bool := rs.any fun r => stretch r i

/-- Runs in order, none reaching into the next. -/
def Ascending (rs : List (Nat × Nat)) : Prop := rs.Pairwise fun r r' => r.1 + r.2 ≤ r'.1

/-- Every position of the run has the flag `b`. -/
def AllFlag (b : Bool) (f : List Bool) (r : Nat × Nat) : Prop :=
  ∀ i, r.1 ≤ i → i < r.1 + r.2 → f[i]? = some b

@[simp] theorem stretch_iff (r : Nat × Nat) (i : Nat) :
    stretch r i = true ↔ r.1 ≤ i ∧ i < r.1 + r.2 := by
  simp [stretch]

@[simp] theorem covers_nil (i : Nat) : covers [] i = false := rfl

theorem covers_cons (r : Nat × Nat) (rs : List (Nat × Nat)) (i : Nat) :
    covers (r :: rs) i = (stretch r i || covers rs i) := by
  simp [covers]

theorem covers_append (rs rs' : List (Nat × Nat)) (i : Nat) :
    covers (rs ++ rs') i = (covers rs i || covers rs' i) := by
  simp [covers]

theorem covers_iff {rs : List (Nat × Nat)} {i : Nat} :
    covers rs i = true ↔ ∃ r ∈ rs, r.1 ≤ i ∧ i < r.1 + r.2 := by
  simp [covers]

/-- One of the covered positions holds `x`. -/
def Picks (c : Nat → Bool) (l : List α) (x : α) : Prop := ∃ i, c i = true ∧ l[i]? = some x

/-- A cover picks the same items after others came in. -/
theorem picks_shift_insertAt {q : Nat} {s l : List α} (hq : q ≤ l.length) (c : Nat → Bool)
    (x : α) : Picks (shift q s.length c) (insertAt q s l) x ↔ Picks c l x := by
  constructor
  · rintro ⟨i, hi, hx⟩
    rw [getElem?_insertAt hq] at hx
    unfold shift at hi
    split at hi
    next h1 => exact ⟨i, hi, by simpa [h1] using hx⟩
    next h1 =>
        split at hi
        next h2 => cases hi
        next h2 => exact ⟨i - s.length, hi, by simpa [h1, h2] using hx⟩
  · rintro ⟨i, hi, hx⟩
    by_cases h1 : i < q
    · exact ⟨i, by simpa [shift, h1] using hi, by rw [getElem?_insertAt hq, if_pos h1, hx]⟩
    · have h2 : ¬ i + s.length < q := by omega
      have h3 : ¬ i + s.length < q + s.length := by omega
      refine ⟨i + s.length, by simpa [shift, h2, h1] using hi, ?_⟩
      rw [getElem?_insertAt hq, if_neg h2, if_neg h3, Nat.add_sub_cancel, hx]

/-- The items of a run that was just put in. -/
theorem picks_inserted {p : Nat} {s l : List α} (hp : p ≤ l.length) (x : α) :
    Picks (stretch (p, s.length)) (insertAt p s l) x ↔ x ∈ s := by
  constructor
  · rintro ⟨i, hi, hx⟩
    rw [stretch_iff] at hi
    rw [getElem?_insertAt hp, if_neg (by omega), if_pos hi.2] at hx
    exact List.mem_of_getElem? hx
  · intro hx
    obtain ⟨i, hi, hget⟩ := List.mem_iff_getElem.mp hx
    refine ⟨p + i, by simp [hi], ?_⟩
    rw [getElem?_insertAt hp, if_neg (by omega), if_pos (by omega), Nat.add_sub_cancel_left,
      List.getElem?_eq_getElem hi, hget]

theorem paint_covers_cons (r : Nat × Nat) (rs : List (Nat × Nat)) (b : Bool) (f : List Bool) :
    paint (covers (r :: rs)) b f = paint (stretch r) b (paint (covers rs) b f) := by
  rw [paint_paint]
  congr 1
  funext i
  rw [covers_cons, Bool.or_comm]

/-- Painting one run replaces its flags and leaves the rest. -/
theorem paint_stretch (b : Bool) (F G H : List Bool) :
    paint (stretch (F.length, G.length)) b (F ++ G ++ H) =
      F ++ List.replicate G.length b ++ H := by
  rw [paint_append, paint_append]
  congr 1
  · congr 1
    · apply paint_eq_self
      intro i hi
      obtain ⟨hi, _⟩ := List.getElem?_eq_some_iff.mp hi
      rw [Bool.eq_false_iff]
      simp only [ne_eq, stretch_iff]
      omega
    · apply paint_eq_replicate
      intro i hi
      simp only [stretch_iff]
      omega
  · apply paint_eq_self
    intro i _
    rw [Bool.eq_false_iff]
    simp only [ne_eq, stretch_iff, List.length_append]
    omega

theorem AllFlag.eq_replicate {b : Bool} {F G H : List Bool}
    (h : AllFlag b (F ++ G ++ H) (F.length, G.length)) : G = List.replicate G.length b := by
  apply List.ext_getElem?
  intro i
  by_cases hi : i < G.length
  · have := h (F.length + i) (by simp) (by simpa using hi)
    rw [List.append_assoc, List.getElem?_append_right (by omega),
      List.getElem?_append_left (by omega)] at this
    rw [List.getElem?_replicate, if_pos hi, ← this]
    congr 1
    omega
  · rw [List.getElem?_eq_none (by omega), List.getElem?_eq_none (by simp; omega)]

section Repaint

variable {l : List α} {f : List Bool} {r : Nat × Nat}

/-- Killing a live run deletes its items from what the reader sees. -/
theorem liveItems_kill_run (h : l.length = f.length) (hr : r.1 + r.2 ≤ f.length)
    (hrun : AllFlag true f r) :
    liveItems l (paint (stretch r) false f) =
        (liveItems l f).take (liveBefore r.1 f) ++ (liveItems l f).drop (liveBefore r.1 f + r.2) ∧
      liveBefore r.1 f + r.2 ≤ (liveItems l f).length := by
  obtain ⟨p, n⟩ := r
  obtain ⟨A, B, C, F, G, H, rfl, rfl, hA, hB, rfl, rfl, hC⟩ :=
    exists_split_both (p := p) (n := n) h (by simpa [h] using hr)
  have hG : G = List.replicate B.length true := by rw [hB]; exact hrun.eq_replicate
  have hlive : liveItems (A ++ B ++ C) (F ++ G ++ H) = liveItems A F ++ B ++ liveItems C H := by
    rw [liveItems_append (by simp [hA, hB]), liveItems_append hA]
    conv_lhs => rw [hG, liveItems_replicate_true]
  have hk : liveBefore F.length (F ++ G ++ H) = (liveItems A F).length := by
    rw [List.append_assoc, liveBefore_append_length, liveItems_length hA]
  simp only at hk ⊢
  rw [paint_stretch, hk, hlive, liveItems_append (by simp [hA, hB]), liveItems_append hA,
    liveItems_replicate_false, ← hB]
  have hdrop : (liveItems A F ++ B ++ liveItems C H).drop ((liveItems A F).length + B.length) =
      liveItems C H := by
    rw [← List.length_append, List.drop_left]
  refine ⟨?_, by simp⟩
  rw [hdrop]
  simp

/-- Reviving a dead run inserts its items into what the reader sees. -/
theorem liveItems_revive_run (h : l.length = f.length) (hr : r.1 + r.2 ≤ f.length)
    (hrun : AllFlag false f r) :
    liveItems l (paint (stretch r) true f) =
        insertAt (liveBefore r.1 f) ((l.drop r.1).take r.2) (liveItems l f) ∧
      liveBefore r.1 f ≤ (liveItems l f).length := by
  obtain ⟨p, n⟩ := r
  obtain ⟨A, B, C, F, G, H, rfl, rfl, hA, hB, rfl, rfl, hC⟩ :=
    exists_split_both (p := p) (n := n) h (by simpa [h] using hr)
  have hG : G = List.replicate G.length false := hrun.eq_replicate
  have hlive : liveItems (A ++ B ++ C) (F ++ G ++ H) = liveItems A F ++ liveItems C H := by
    rw [liveItems_append (by simp [hA, hB]), liveItems_append hA]
    conv_lhs => rw [hG, liveItems_replicate_false]
    simp
  have hk : liveBefore F.length (F ++ G ++ H) = (liveItems A F).length := by
    rw [List.append_assoc, liveBefore_append_length, liveItems_length hA]
  simp only at hk ⊢
  rw [paint_stretch, hk, hlive, liveItems_append (by simp [hA, hB]), liveItems_append hA, ← hB,
    liveItems_replicate_true, insertAt_length_append]
  refine ⟨?_, by simp⟩
  congr 2
  rw [← hA, List.append_assoc, List.drop_left, List.take_left]

end Repaint

/-- Runs further right do not disturb what lies before them. -/
theorem getElem?_paint_covers_of_lt {rs : List (Nat × Nat)} {b : Bool} {f : List Bool} {p : Nat}
    (h : ∀ r ∈ rs, p ≤ r.1) {i : Nat} (hi : i < p) : (paint (covers rs) b f)[i]? = f[i]? := by
  rw [getElem?_paint]
  have : covers rs i = false := by
    rw [Bool.eq_false_iff, ne_eq, covers_iff]
    rintro ⟨r, hr, hri, _⟩
    have := h r hr
    omega
  simp [this]

theorem liveBefore_paint_covers {rs : List (Nat × Nat)} {b : Bool} {f : List Bool} {p : Nat}
    (h : ∀ r ∈ rs, p ≤ r.1) : liveBefore p (paint (covers rs) b f) = liveBefore p f := by
  unfold liveBefore
  congr 1
  apply List.ext_getElem?
  intro i
  by_cases hi : i < p
  · rw [List.getElem?_take_of_lt hi, List.getElem?_take_of_lt hi, getElem?_paint_covers_of_lt h hi]
  · rw [List.getElem?_eq_none (by simp; omega), List.getElem?_eq_none (by simp; omega)]

/-! ## Counting flags -/

/-- Painting a run of the other flag gains its length. -/
theorem AllFlag.count_paint {b : Bool} {f : List Bool} {r : Nat × Nat} (h : AllFlag (!b) f r)
    (hr : r.1 + r.2 ≤ f.length) : (paint (stretch r) b f).count b = f.count b + r.2 := by
  obtain ⟨p, n⟩ := r
  obtain ⟨F, G, H, rfl, rfl, rfl⟩ := exists_split (p := p) (n := n) (l := f) hr
  have hG : G.count b = 0 := by
    rw [h.eq_replicate, List.count_replicate]
    cases b <;> rfl
  rw [paint_stretch]
  simp only [List.count_append, List.count_replicate_self, hG]
  omega

/-- A run that the other runs do not touch keeps its flags. -/
theorem AllFlag.paint_covers {b b' : Bool} {f : List Bool} {r : Nat × Nat}
    {rs : List (Nat × Nat)} (h : AllFlag b' f r) (hrs : ∀ r' ∈ rs, r.1 + r.2 ≤ r'.1) :
    AllFlag b' (paint (covers rs) b f) r := by
  intro i h1 h2
  rw [getElem?_paint_covers_of_lt hrs h2]
  exact h i h1 h2

/-- Painting runs of the other flag gains the sum of their lengths. -/
theorem count_paint_covers {b : Bool} {f : List Bool} {rs : List (Nat × Nat)}
    (hasc : Ascending rs) (hle : ∀ r ∈ rs, r.1 + r.2 ≤ f.length)
    (hall : ∀ r ∈ rs, AllFlag (!b) f r) :
    (paint (covers rs) b f).count b = f.count b + (rs.map Prod.snd).sum := by
  induction rs with
  | nil =>
      rw [paint_eq_self (by simp)]
      rfl
  | cons r rs ih =>
      obtain ⟨hfirst, hrest⟩ := List.pairwise_cons.mp hasc
      have hih := ih hrest (fun r' h => hle r' (by simp [h])) fun r' h => hall r' (by simp [h])
      have hr := (hall r (by simp)).paint_covers (b := b) hfirst
      rw [paint_covers_cons, hr.count_paint (by simpa using hle r (by simp)), hih]
      simp
      omega

/-- Extend a front by a stretch of one flag. -/
theorem take_extend {b : Bool} {f : List Bool} {k k' : Nat} (hk : k ≤ k')
    (h : ∀ i, k ≤ i → i < k' → f[i]? = some b) :
    f.take k' = f.take k ++ List.replicate (k' - k) b := by
  apply List.ext_getElem?
  intro i
  by_cases h1 : i < k
  · have hlen : i < (f.take k).length ∨ f.length ≤ i := by simp; omega
    rcases hlen with hlen | hlen
    · rw [List.getElem?_append_left hlen, List.getElem?_take_of_lt (by omega),
        List.getElem?_take_of_lt h1]
    · -- The front ends before `k` only if nothing is to be added.
      by_cases hkk : k < k'
      · obtain ⟨hlt, _⟩ := List.getElem?_eq_some_iff.mp (h k (Nat.le_refl _) hkk)
        omega
      · obtain rfl : k = k' := by omega
        simp
  · by_cases h2 : i < k'
    · obtain ⟨hlt, _⟩ := List.getElem?_eq_some_iff.mp (h i (by omega) h2)
      rw [List.getElem?_take_of_lt h2, h i (by omega) h2,
        List.getElem?_append_right (by simp; omega), List.getElem?_replicate,
        if_pos (by simp; omega)]
    · rw [List.getElem?_eq_none (by simp; omega),
        List.getElem?_eq_none (by simp; omega)]

/-! ## The items of runs -/

/-- The items of a run. -/
def piece (l : List α) (r : Nat × Nat) : List α := (l.drop r.1).take r.2

theorem piece_length {l : List α} {r : Nat × Nat} (h : r.1 + r.2 ≤ l.length) :
    (piece l r).length = r.2 := by
  simp [piece]
  omega

/-- When just the items of some runs are live, a reader sees them one after the
other. -/
theorem liveItems_runs {l : List α} {rs : List (Nat × Nat)} (hasc : Ascending rs)
    (hle : ∀ r ∈ rs, r.1 + r.2 ≤ l.length) :
    liveItems l (paint (covers rs) true (List.replicate l.length false)) =
      rs.flatMap (piece l) := by
  induction rs with
  | nil =>
      rw [paint_eq_self (by simp), liveItems_replicate_false]
      rfl
  | cons r rs ih =>
      obtain ⟨hfirst, hrest⟩ := List.pairwise_cons.mp hasc
      have hih := ih hrest fun r' h => hle r' (by simp [h])
      have hr : r.1 + r.2 ≤ l.length := hle r (by simp)
      have hright : ∀ r' ∈ rs, r.1 ≤ r'.1 := fun r' h => by have := hfirst r' h; omega
      have hdead : AllFlag false (List.replicate l.length false) r := by
        intro i _ hi
        rw [List.getElem?_replicate, if_pos (by omega)]
      have hzero : liveBefore r.1 (List.replicate l.length false) = 0 := by
        simp [liveBefore, List.count_replicate]
      obtain ⟨hrevive, _⟩ := liveItems_revive_run (l := l) (by simp) (by simpa using hr)
        (hdead.paint_covers (b := true) hfirst)
      rw [paint_covers_cons, hrevive, liveBefore_paint_covers hright, hzero, hih]
      simp [insertAt, piece]

/-- What a reader sees of a part of the sequence. -/
theorem liveItems_part {l : List α} {f : List Bool} (h : l.length = f.length) {p q : Nat}
    (hpq : p ≤ q) (hq : q ≤ f.length) :
    ((liveItems l f).drop (liveBefore p f)).take (liveBefore q f - liveBefore p f) =
      liveItems l (f.mapIdx fun i x => x && decide (p ≤ i) && decide (i < q)) := by
  obtain ⟨A, B, C, F, G, H, rfl, rfl, hA, hB, rfl, hG, hC⟩ :=
    exists_split_both (p := p) (n := q - p) h (by omega)
  have hAF : A.length = F.length := hA
  have hBG : B.length = G.length := by omega
  have hp : liveBefore F.length (F ++ G ++ H) = (liveItems A F).length := by
    rw [List.append_assoc, liveBefore_append_length, liveItems_length hAF]
  have hqq : liveBefore q (F ++ G ++ H) = (liveItems A F).length + (liveItems B G).length := by
    rw [show q = (F ++ G).length by simp; omega, liveBefore_append_length, List.count_append,
      liveItems_length hAF, liveItems_length hBG]
  have hmask : (F ++ G ++ H).mapIdx (fun i x => x && decide (F.length ≤ i) && decide (i < q)) =
      List.replicate F.length false ++ G ++ List.replicate H.length false := by
    rw [List.mapIdx_append, List.mapIdx_append]
    congr 1
    · congr 1
      · rw [List.mapIdx_eq_replicate_iff]
        intro i hi
        simp [Nat.not_le.mpr hi]
      · apply List.ext_getElem?
        intro i
        rw [List.getElem?_mapIdx]
        by_cases hi : i < G.length
        · have : i + F.length < q := by omega
          simp [List.getElem?_eq_getElem hi, this]
        · simp [List.getElem?_eq_none (Nat.le_of_not_lt hi)]
    · rw [List.mapIdx_eq_replicate_iff]
      intro i hi
      have : ¬ i + (F.length + G.length) < q := by omega
      simp [this]
  rw [hp, hqq, hmask, liveItems_append (by simp; omega), liveItems_append hAF,
    liveItems_append (by simp; omega), liveItems_append (by simp; omega)]
  simp [liveItems_replicate_false]

/-- Killing a part deletes what a reader sees of it. -/
theorem liveItems_kill_part {l : List α} {f : List Bool} (h : l.length = f.length) {p q : Nat}
    (hpq : p ≤ q) (hq : q ≤ f.length) :
    liveItems l (paint (stretch (p, q - p)) false f) =
      (liveItems l f).take (liveBefore p f) ++ (liveItems l f).drop (liveBefore q f) := by
  obtain ⟨A, B, C, F, G, H, rfl, rfl, hA, hB, rfl, hG, hC⟩ :=
    exists_split_both (p := p) (n := q - p) h (by omega)
  have hAF : A.length = F.length := hA
  have hBG : B.length = G.length := by omega
  have hp : liveBefore F.length (F ++ G ++ H) = (liveItems A F).length := by
    rw [List.append_assoc, liveBefore_append_length, liveItems_length hAF]
  have hqq : liveBefore q (F ++ G ++ H) = (liveItems A F ++ liveItems B G).length := by
    rw [show q = (F ++ G).length by simp; omega, liveBefore_append_length, List.count_append,
      List.length_append, liveItems_length hAF, liveItems_length hBG]
  rw [hp, hqq, ← hG, paint_stretch, liveItems_append (by simp; omega), liveItems_append hAF,
    liveItems_append (by simp; omega), liveItems_append hAF, liveItems_replicate_false,
    List.drop_left]
  simp

theorem liveBefore_mono {p q : Nat} (h : p ≤ q) (f : List Bool) :
    liveBefore p f ≤ liveBefore q f := by
  obtain ⟨k, rfl⟩ := Nat.exists_eq_add_of_le h
  simp only [liveBefore, List.take_add, List.count_append]
  omega

/-- A live position is counted at the next one. -/
theorem liveBefore_succ {f : List Bool} {i : Nat} (h : f[i]? = some true) :
    liveBefore (i + 1) f = liveBefore i f + 1 := by
  rw [liveBefore, List.take_add_one, h]
  simp [liveBefore]

/-- A live position is between two others when its count is. -/
theorem lt_iff_liveBefore_lt {f : List Bool} {i q : Nat} (h : f[i]? = some true) :
    i < q ↔ liveBefore i f < liveBefore q f := by
  have hsucc := liveBefore_succ h
  constructor
  · intro hlt
    have := liveBefore_mono (show i + 1 ≤ q from hlt) f
    omega
  · intro hlt
    by_contra hge
    have := liveBefore_mono (Nat.le_of_not_lt hge) f
    omega

/-! ## Items and flags together -/

/-- A sequence with tombstones. -/
@[ext] structure Seq (α : Type*) where
  items : List α
  flags : List Bool
  length_eq : items.length = flags.length

namespace Seq

/-- The sequence of `l` before anything was deleted. -/
def allLive (l : List α) : Seq α := ⟨l, List.replicate l.length true, by simp⟩

/-- Put live items before position `p`. -/
def insert (p : Nat) (s : List α) (d : Seq α) : Seq α :=
  ⟨insertAt p s d.items, insertAt p (List.replicate s.length true) d.flags, by
    simp [d.length_eq]⟩

/-- Set the flag of the covered positions. -/
def mark (c : Nat → Bool) (b : Bool) (d : Seq α) : Seq α :=
  ⟨d.items, paint c b d.flags, by simp [d.length_eq]⟩

/-- What a reader sees. -/
def live (d : Seq α) : List α := liveItems d.items d.flags

@[simp] theorem allLive_items (l : List α) : (allLive l).items = l := rfl
@[simp] theorem insert_items (p : Nat) (s : List α) (d : Seq α) :
    (d.insert p s).items = insertAt p s d.items := rfl
@[simp] theorem insert_flags (p : Nat) (s : List α) (d : Seq α) :
    (d.insert p s).flags = insertAt p (List.replicate s.length true) d.flags := rfl
@[simp] theorem mark_items (c : Nat → Bool) (b : Bool) (d : Seq α) :
    (d.mark c b).items = d.items := rfl
@[simp] theorem mark_flags (c : Nat → Bool) (b : Bool) (d : Seq α) :
    (d.mark c b).flags = paint c b d.flags := rfl

@[simp] theorem allLive_live (l : List α) : (allLive l).live = l :=
  liveItems_replicate_true l

theorem live_length (d : Seq α) : d.live.length = d.flags.count true :=
  liveItems_length d.length_eq

/-- A sequence with given flags and a given text. -/
theorem exists_live [Inhabited α] (f : List Bool) {l : List α} (h : l.length = f.count true) :
    ∃ d : Seq α, d.flags = f ∧ d.live = l := by
  induction f generalizing l with
  | nil =>
      obtain rfl := List.length_eq_zero_iff.mp h
      exact ⟨⟨[], [], rfl⟩, rfl, rfl⟩
  | cons b f ih =>
      cases b with
      | false =>
          obtain ⟨d, hflags, hlive⟩ := ih (l := l) (by simpa using h)
          refine ⟨⟨default :: d.items, false :: d.flags, by simp [d.length_eq]⟩, ?_, ?_⟩
          · exact congrArg (false :: ·) hflags
          · simpa [live, liveItems] using hlive
      | true =>
          cases l with
          | nil => simp at h
          | cons a l =>
              obtain ⟨d, hflags, hlive⟩ := ih (l := l) (by simpa using h)
              refine ⟨⟨a :: d.items, true :: d.flags, by simp [d.length_eq]⟩, ?_, ?_⟩
              · exact congrArg (true :: ·) hflags
              · simpa [live, liveItems] using hlive

theorem insert_comm {p q : Nat} (s u : List α) {d : Seq α} (hpq : p ≤ q)
    (hq : q ≤ d.items.length) :
    (d.insert p s).insert (q + s.length) u = (d.insert q u).insert p s := by
  ext1
  · exact insertAt_comm hpq hq
  · have := insertAt_comm (s := List.replicate s.length true) (u := List.replicate u.length true)
      hpq (l := d.flags) (by rw [← d.length_eq]; exact hq)
    simpa using this

theorem mark_shift_insert {q : Nat} (c : Nat → Bool) (b : Bool) (s : List α) {d : Seq α}
    (hq : q ≤ d.items.length) :
    (d.insert q s).mark (shift q s.length c) b = (d.mark c b).insert q s := by
  ext1
  · rfl
  · have := paint_shift_insertAt (c := c) (b := b) (s := List.replicate s.length true)
      (f := d.flags) (q := q) (by rw [← d.length_eq]; exact hq)
    simpa using this

theorem mark_comm {c c' : Nat → Bool} {b b' : Bool} {d : Seq α}
    (h : b = b' ∨ ∀ i < d.items.length, ¬ (c i = true ∧ c' i = true)) :
    (d.mark c b).mark c' b' = (d.mark c' b').mark c b := by
  ext1
  · rfl
  · exact paint_comm (by rw [← d.length_eq]; exact h)

/-- One sequence behind the other. -/
def append (d e : Seq α) : Seq α :=
  ⟨d.items ++ e.items, d.flags ++ e.flags, by simp [d.length_eq, e.length_eq]⟩

theorem append_live (d e : Seq α) : (d.append e).live = d.live ++ e.live :=
  liveItems_append d.length_eq

/-- What happens in the first part leaves the rest alone. -/
theorem insert_append {d : Seq α} {p : Nat} (h : p ≤ d.items.length) (s : List α) (e : Seq α) :
    (d.append e).insert p s = (d.insert p s).append e :=
  Seq.ext (insertAt_append_left h) (insertAt_append_left (d.length_eq ▸ h))

theorem mark_append {d : Seq α} {c : Nat → Bool} (h : ∀ i, c i = true → i < d.items.length)
    (b : Bool) (e : Seq α) : (d.append e).mark c b = (d.mark c b).append e := by
  refine Seq.ext rfl ((paint_append ..).trans (congrArg _ (paint_eq_self fun i _ => ?_)))
  refine Bool.eq_false_iff.mpr fun hc => ?_
  have := h _ hc
  rw [d.length_eq] at this
  omega

/-- Cut a sequence in two. -/
theorem exists_append {d : Seq α} {n : Nat} (h : n ≤ d.items.length) :
    ∃ a b : Seq α, d = a.append b ∧ a.items.length = n ∧ a.flags = d.flags.take n := by
  refine ⟨⟨d.items.take n, d.flags.take n, by simp [d.length_eq]⟩,
    ⟨d.items.drop n, d.flags.drop n, by simp [d.length_eq]⟩, ?_, List.length_take_of_le h, rfl⟩
  exact Seq.ext (List.take_append_drop ..).symm (List.take_append_drop ..).symm

end Seq

end Tombstone
