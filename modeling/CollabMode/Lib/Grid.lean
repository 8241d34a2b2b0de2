import Mathlib.Algebra.Ring.Nat
import Mathlib.Data.List.Basic
import Mathlib.Tactic.Common

/-!
# Transformation grids

Operations that were made on one state and are concurrent are reconciled by a
transform: `t a b` is the operation `a`, rewritten so that it can run after `b`.
Two lists of operations span a grid.  A row of the grid carries one operation
through a list (`through`) and pushes the list past that operation (`past`).
`carry as bs` pushes the whole list `bs` past the whole list `as`, one member of
`bs` after the other, and `carried as bs` is what becomes of `as` meanwhile.

Nothing is assumed of `t` in the first half.  The grid can be walked row by row
or column by column (`carry_cons_left`), it can be cut anywhere
(`carry_append_left`), and the front of a list does not depend on its back
(`past_append`).  The second half adds states: `app` runs an operation, `ok`
says when it may run, and `Square` is the law of one cell.  It extends to a row
(`Square.row`) and to the whole grid (`Square.grid`) when every cell satisfies
the side condition `sep`.
-/

namespace Grid

variable {O S : Type*}

/-! ## Rows and grids -/

section Walk

variable (t : O → O → O)

/-- The operation `a` carried through `bs`. -/
def through (a : O) : List O → O
  | [] => a
  | b :: bs => through (t a b) bs

/-- The list `bs` pushed past `a`.  Each member meets the form of `a` that has
already passed the members before it. -/
def past (a : O) : List O → List O
  | [] => []
  | b :: bs => t b a :: past (t a b) bs

/-- The list `bs` pushed past the list `as`, one member of `bs` at a time. -/
def carry (as : List O) : List O → List O
  | [] => []
  | b :: bs => through t b as :: carry (past t b as) bs

/-- What becomes of `as` while `bs` is pushed past it. -/
def carried (as : List O) : List O → List O
  | [] => as
  | b :: bs => carried (past t b as) bs

end Walk

section Laws

variable {t : O → O → O}

@[simp] theorem through_nil (a : O) : through t a [] = a := rfl
@[simp] theorem through_cons (a b : O) (bs : List O) :
    through t a (b :: bs) = through t (t a b) bs := rfl
@[simp] theorem past_nil (a : O) : past t a [] = [] := rfl
@[simp] theorem past_cons (a b : O) (bs : List O) :
    past t a (b :: bs) = t b a :: past t (t a b) bs := rfl
@[simp] theorem carry_nil_right (as : List O) : carry t as [] = [] := rfl
@[simp] theorem carry_cons (as : List O) (b : O) (bs : List O) :
    carry t as (b :: bs) = through t b as :: carry t (past t b as) bs := rfl
@[simp] theorem carried_nil_right (as : List O) : carried t as [] = as := rfl
@[simp] theorem carried_cons (as : List O) (b : O) (bs : List O) :
    carried t as (b :: bs) = carried t (past t b as) bs := rfl

@[simp] theorem past_length (a : O) (bs : List O) : (past t a bs).length = bs.length := by
  induction bs generalizing a with
  | nil => rfl
  | cons b bs ih => simp [ih]

@[simp] theorem carry_length (as bs : List O) : (carry t as bs).length = bs.length := by
  induction bs generalizing as with
  | nil => rfl
  | cons b bs ih => simp [ih]

/-- Carrying an operation through a list can be cut anywhere. -/
theorem through_append (a : O) (bs cs : List O) :
    through t a (bs ++ cs) = through t (through t a bs) cs := by
  induction bs generalizing a with
  | nil => rfl
  | cons b bs ih => exact ih (t a b)

theorem past_take (a : O) (bs : List O) (k : Nat) :
    past t a (bs.take k) = (past t a bs).take k := by
  induction bs generalizing a k with
  | nil => simp
  | cons b bs ih =>
      cases k with
      | zero => simp
      | succ k => simp [ih]

@[simp] theorem carry_nil_left (bs : List O) : carry t [] bs = bs := by
  induction bs with
  | nil => rfl
  | cons b bs ih => simp [ih]

/-- Walking the grid column by column.  The code of a server walks it by rows,
the code of a client by columns, and both end with the same list. -/
theorem carry_cons_left (a : O) (as bs : List O) :
    carry t (a :: as) bs = carry t as (past t a bs) := by
  induction bs generalizing a as with
  | nil => rfl
  | cons b bs ih => simp [ih]

theorem carry_append_left (as as' bs : List O) :
    carry t (as ++ as') bs = carry t as' (carry t as bs) := by
  induction as generalizing bs with
  | nil => simp
  | cons a as ih => rw [List.cons_append, carry_cons_left, carry_cons_left, ih]

/-! ### Changing the operations -/

section Map

variable {O' : Type*} {t' : O' → O' → O'} {f : O → O'}

/-- `f` keeps what the transform looks at. -/
def Hom (t : O → O → O) (t' : O' → O' → O') (f : O → O') : Prop :=
  ∀ a b, f (t a b) = t' (f a) (f b)

theorem Hom.through (h : Hom t t' f) (a : O) (bs : List O) :
    f (through t a bs) = through t' (f a) (bs.map f) := by
  induction bs generalizing a with
  | nil => rfl
  | cons b bs ih => rw [through_cons, ih, h]; rfl

theorem Hom.past (h : Hom t t' f) (a : O) (bs : List O) :
    (past t a bs).map f = past t' (f a) (bs.map f) := by
  induction bs generalizing a with
  | nil => rfl
  | cons b bs ih => simp [ih, h a b, h b a]

theorem Hom.carry (h : Hom t t' f) (as bs : List O) :
    (carry t as bs).map f = carry t' (as.map f) (bs.map f) := by
  induction bs generalizing as with
  | nil => rfl
  | cons b bs ih => simp [ih, h.through b as, h.past b as]

end Map

/-! ### What a transform leaves alone -/

/-- A tag the transform does not change. -/
def Keeps {K : Type*} (t : O → O → O) (key : O → K) : Prop :=
  ∀ a b, key (t a b) = key a

variable {K : Type*} {key : O → K}

theorem Keeps.through (h : Keeps t key) (a : O) (bs : List O) :
    key (through t a bs) = key a := by
  induction bs generalizing a with
  | nil => rfl
  | cons b bs ih => rw [through_cons, ih, h]

theorem Keeps.past (h : Keeps t key) (a : O) (bs : List O) :
    (past t a bs).map key = bs.map key := by
  induction bs generalizing a with
  | nil => rfl
  | cons b bs ih => simp [ih, h b a]

theorem Keeps.carry (h : Keeps t key) (as bs : List O) :
    (carry t as bs).map key = bs.map key := by
  induction bs generalizing as with
  | nil => rfl
  | cons b bs ih => simp [ih, h.through b as]

end Laws

/-! ## States -/

section States

variable (app : S → O → S) (ok : S → O → Prop)

/-- Run a list of operations. -/
def runAll (s : S) (bs : List O) : S := bs.foldl app s

/-- Every operation of the list may run where its turn comes. -/
def OkAll (s : S) : List O → Prop
  | [] => True
  | b :: bs => ok s b ∧ OkAll (app s b) bs

@[simp] theorem runAll_nil (s : S) : runAll app s [] = s := rfl
@[simp] theorem runAll_cons (s : S) (b : O) (bs : List O) :
    runAll app s (b :: bs) = runAll app (app s b) bs := rfl
@[simp] theorem OkAll_nil (s : S) : OkAll app ok s [] ↔ True := Iff.rfl
@[simp] theorem OkAll_cons (s : S) (b : O) (bs : List O) :
    OkAll app ok s (b :: bs) ↔ ok s b ∧ OkAll app ok (app s b) bs := Iff.rfl

theorem runAll_append (s : S) (bs cs : List O) :
    runAll app s (bs ++ cs) = runAll app (runAll app s bs) cs :=
  List.foldl_append

theorem OkAll_append (s : S) (bs cs : List O) :
    OkAll app ok s (bs ++ cs) ↔ OkAll app ok s bs ∧ OkAll app ok (runAll app s bs) cs := by
  induction bs generalizing s with
  | nil => simp
  | cons b bs ih => simp [ih, and_assoc]

variable {app ok} in
/-- The condition of each operation can be weakened. -/
theorem OkAll.mono {ok' : S → O → Prop} (h : ∀ s b, ok s b → ok' s b) {s : S} {bs : List O}
    (hbs : OkAll app ok s bs) : OkAll app ok' s bs := by
  induction bs generalizing s with
  | nil => trivial
  | cons b bs ih => exact ⟨h s b hbs.1, ih hbs.2⟩

end States

section Squares

variable {t : O → O → O} {app : S → O → S} {ok : S → O → Prop} {sep : O → O → Prop}

/-- The law of one cell: two operations that may run on one state, and that the
side condition admits, may each run after the other, and both orders meet. -/
def Square (t : O → O → O) (app : S → O → S) (ok : S → O → Prop) (sep : O → O → Prop) : Prop :=
  ∀ s a b, ok s a → ok s b → sep a b →
    ok (app s a) (t b a) ∧ ok (app s b) (t a b) ∧ app (app s a) (t b a) = app (app s b) (t a b)

/-- The side condition at every cell of a row. -/
def SepRow (t : O → O → O) (sep : O → O → Prop) (a : O) : List O → Prop
  | [] => True
  | b :: bs => sep a b ∧ SepRow t sep (t a b) bs

/-- The side condition at every cell of a grid. -/
def SepGrid (t : O → O → O) (sep : O → O → Prop) : List O → List O → Prop
  | [], _ => True
  | a :: as, bs => SepRow t sep a bs ∧ SepGrid t sep as (past t a bs)

theorem Square.row (h : Square t app ok sep) {s : S} {a : O} {bs : List O}
    (ha : ok s a) (hbs : OkAll app ok s bs) (hsep : SepRow t sep a bs) :
    OkAll app ok (app s a) (past t a bs) ∧ ok (runAll app s bs) (through t a bs) ∧
      runAll app (app s a) (past t a bs) = app (runAll app s bs) (through t a bs) := by
  induction bs generalizing s a with
  | nil => exact ⟨trivial, ha, rfl⟩
  | cons b bs ih =>
      obtain ⟨hb, hbs⟩ := hbs
      obtain ⟨hab, hrow⟩ := hsep
      obtain ⟨hba, hab', heq⟩ := h s a b ha hb hab
      obtain ⟨hpast, hthrough, hrun⟩ := ih hab' hbs hrow
      refine ⟨⟨hba, ?_⟩, hthrough, ?_⟩
      · rw [heq]; exact hpast
      · rw [past_cons, runAll_cons, heq]; exact hrun

theorem Square.grid (h : Square t app ok sep) {s : S} {as bs : List O}
    (has : OkAll app ok s as) (hbs : OkAll app ok s bs) (hsep : SepGrid t sep as bs) :
    OkAll app ok (runAll app s as) (carry t as bs) := by
  induction as generalizing s bs with
  | nil => simpa using hbs
  | cons a as ih =>
      obtain ⟨ha, has⟩ := has
      obtain ⟨hrow, hrest⟩ := hsep
      rw [carry_cons_left]
      exact ih has (h.row ha hbs hrow).1 hrest

/-- A side condition that only compares an unchanging tag holds in a whole row
as soon as it holds of the operations the row started from. -/
theorem SepRow.of_key {K : Type*} {key : O → K} (hk : Keeps t key)
    {a : O} {bs : List O} (h : ∀ b ∈ bs, key a ≠ key b) :
    SepRow t (fun a b => key a ≠ key b) a bs := by
  induction bs generalizing a with
  | nil => trivial
  | cons b bs ih =>
      refine ⟨h b (by simp), ih fun c hc => ?_⟩
      rw [hk]
      exact h c (by simp [hc])

theorem SepGrid.of_key {K : Type*} {key : O → K} (hk : Keeps t key)
    {as bs : List O} (h : ∀ a ∈ as, ∀ b ∈ bs, key a ≠ key b) :
    SepGrid t (fun a b => key a ≠ key b) as bs := by
  induction as generalizing bs with
  | nil => trivial
  | cons a as ih =>
      refine ⟨SepRow.of_key hk (h a (by simp)), ih fun a' ha' b hb => ?_⟩
      have hmem : key b ∈ bs.map key := by
        rw [← hk.past a bs]; exact List.mem_map_of_mem hb
      obtain ⟨c, hc, hcb⟩ := List.mem_map.mp hmem
      rw [← hcb]
      exact h a' (by simp [ha']) c hc

end Squares

end Grid
