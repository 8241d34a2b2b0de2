import CollabMode.Lib.Grid

/-!
# Operations and their transform

The operations of `op.rs`.  Positions count characters of the internal
document, tombstones included.  An insertion carries its position and its text,
a mark carries segments, each a position with the text found there, and the
liveness it gives them.  Every operation names the site that made it.

A string is the list of its characters, so `chars().count()` is the length.
Positions and sequence numbers are natural numbers.

`transform` rewrites an operation to run after another one made on the same
document.  Only an insertion moves anything: an insertion moves to the right of
another one at a smaller place, ties broken by site, and a segment of a mark
moves, or is cut in two, around an insertion.  `symmetric_transform` and
`quatradic_transform` walk the rows and the grid of `Grid`.
-/

namespace CollabMode

/-- Local sequence number, unique on one site, from 1. -/
abbrev LocalSeq := Nat
/-- Global sequence number, from 1. -/
abbrev GlobalSeq := Nat
abbrev DocId := Nat
abbrev SiteId := Nat
/-- Consecutive ops of one group are undone together. -/
abbrev GroupSeq := Nat
/-- A string, as its characters. -/
abbrev Text := List Char

inductive OpKind where
  | original
  /-- Undoes the op this many places before it in the history. -/
  | undo (delta : Nat)
deriving DecidableEq, Repr

/-- What `FatOp` needs of an operation type. -/
class Operation (O : Type) where
  transform : O → O → O
  inverse : O → O

/-! ## Operations -/

inductive Op where
  /-- Insertion of a text at a position. -/
  | ins (op : Nat × Text) (site : SiteId)
  /-- Marking of segments as live or dead. -/
  | mark (ops : List (Nat × Text)) (live : Bool) (site : SiteId)
deriving DecidableEq, Repr

def Op.site : Op → SiteId
  | .ins _ site => site
  | .mark _ _ site => site

def posLessThan (pos1 pos2 : Nat) (site1 site2 : SiteId) : Bool :=
  pos1 < pos2 || (pos1 == pos2 && site1 < site2)

def transformII (op base : Nat × Text) (opSite baseSite : SiteId) : Nat × Text :=
  if posLessThan op.1 base.1 opSite baseSite then
    op
  else
    -- With equal positions and equal sites the op is pushed forward.
    (op.1 + base.2.length, op.2)

def transformDI (op base : Nat × Text) (opSite baseSite : SiteId) : List (Nat × Text) :=
  let pos1 := op.1
  let pos2 := base.1
  let end1 := pos1 + op.2.length
  let end2 := pos2 + base.2.length
  if posLessThan end1 pos2 opSite baseSite then
    -- `op` completely before `base`.
    [op]
  else if posLessThan pos2 pos1 baseSite opSite then
    -- `op` completely after `base`.
    [(pos1 + base.2.length, op.2)]
  else
    -- `base` inside `op`.
    let mid := pos2 - pos1
    let delBeforeIns := (pos1, op.2.take mid)
    let delAfterIns := (end2, op.2.drop mid)
    (if delBeforeIns.2.length > 0 then [delBeforeIns] else []) ++
      (if delAfterIns.2.length > 0 then [delAfterIns] else [])

def Op.inverse : Op → Op
  | .ins (pos, str) site => .mark [(pos, str)] false site
  | .mark ops live site => .mark ops (!live) site

def Op.transform : Op → Op → Op
  | .ins op selfSite, .ins base baseSite => .ins (transformII op base selfSite baseSite) selfSite
  | .mark ops live selfSite, .ins base baseSite =>
      .mark (ops.flatMap fun op => transformDI op base selfSite baseSite) live selfSite
  | self, _ => self

instance : Operation Op := ⟨Op.transform, Op.inverse⟩

@[simp] theorem Op.site_transform (a b : Op) : (a.transform b).site = a.site := by
  cases a <;> cases b <;> rfl

@[simp] theorem Op.site_inverse (a : Op) : a.inverse.site = a.site := by
  cases a <;> rfl

@[simp] theorem Op.transform_mark (a : Op) (segs : List (Nat × Text)) (live : Bool)
    (site : SiteId) : a.transform (.mark segs live site) = a := by
  cases a <;> rfl

theorem posLessThan_iff {p q : Nat} {s u : SiteId} :
    posLessThan p q s u = true ↔ p < q ∨ p = q ∧ s < u := by
  simp [posLessThan]

/-- A non-empty segment is moved, kept or cut by where the insertion falls.  The
sites decide nothing. -/
theorem transformDI_eq {op base : Nat × Text} (hop : op.2 ≠ []) (opSite baseSite : SiteId) :
    transformDI op base opSite baseSite =
      if op.1 + op.2.length ≤ base.1 then [op]
      else if base.1 ≤ op.1 then [(op.1 + base.2.length, op.2)]
      else [(op.1, op.2.take (base.1 - op.1)),
        (base.1 + base.2.length, op.2.drop (base.1 - op.1))] := by
  obtain ⟨p, s⟩ := op
  obtain ⟨q, u⟩ := base
  have hs : 0 < s.length := List.length_pos_iff.mpr hop
  simp only [transformDI, posLessThan_iff, List.length_take, List.length_drop]
  by_cases h1 : p + s.length ≤ q
  · have hn : ¬ (q < p ∨ q = p ∧ baseSite < opSite) := by omega
    have htake : s.take (q - p) = s := List.take_of_length_le (by omega)
    by_cases h2 : p + s.length < q ∨ p + s.length = q ∧ opSite < baseSite
    · rw [if_pos h2, if_pos h1]
    · rw [if_neg h2, if_neg hn, if_pos (show min (q - p) s.length > 0 by omega),
        if_neg (show ¬ s.length - (q - p) > 0 by omega), if_pos h1, htake]
      rfl
  · have hn : ¬ (p + s.length < q ∨ p + s.length = q ∧ opSite < baseSite) := by omega
    rw [if_neg hn, if_neg h1]
    by_cases h2 : q ≤ p
    · rw [if_pos h2]
      by_cases h3 : q < p ∨ q = p ∧ baseSite < opSite
      · rw [if_pos h3]
      · obtain rfl : q = p := by omega
        rw [if_neg h3, if_neg (show ¬ min (q - q) s.length > 0 by omega),
          if_pos (show s.length - (q - q) > 0 by omega)]
        simp
    · rw [if_neg h2, if_neg (show ¬ (q < p ∨ q = p ∧ baseSite < opSite) by omega),
        if_pos (show min (q - p) s.length > 0 by omega),
        if_pos (show s.length - (q - p) > 0 by omega)]
      rfl

/-! ## Operations with their meta data -/

structure FatOp (O : Type) where
  /-- The global sequence number, once the server has given one. -/
  seq : Option GlobalSeq
  op : O
  siteSeq : LocalSeq
  kind : OpKind
  groupSeq : GroupSeq
deriving DecidableEq, Repr

namespace FatOp

section

variable {O : Type} [Operation O]

/-- Transform `self` against `base`, made in the same context. -/
def transform (self base : FatOp O) : FatOp O :=
  { self with op := Operation.transform self.op base.op }

/-- Transform `self` against every op of `ops` in turn. -/
def batchTransform (self : FatOp O) : List (FatOp O) → FatOp O
  | [] => self
  | op :: ops => (self.transform op).batchTransform ops

/-- Transform `self` against every op of `ops` in turn, and meanwhile every op
of `ops` against `self`.  Returns the new `self` and the new `ops`. -/
def symmetricTransform (self : FatOp O) : List (FatOp O) → FatOp O × List (FatOp O)
  | [] => (self, [])
  | op :: ops =>
      let newOp := op.transform self
      let (self', newOps) := (self.transform op).symmetricTransform ops
      (self', newOp :: newOps)

def inverse (self : FatOp O) : FatOp O := { self with op := Operation.inverse self.op }

theorem batchTransform_eq (self : FatOp O) (ops : List (FatOp O)) :
    self.batchTransform ops = Grid.through transform self ops := by
  induction ops generalizing self with
  | nil => rfl
  | cons op ops ih => exact ih (self.transform op)

theorem symmetricTransform_eq (self : FatOp O) (ops : List (FatOp O)) :
    self.symmetricTransform ops =
      (Grid.through transform self ops, Grid.past transform self ops) := by
  induction ops generalizing self with
  | nil => rfl
  | cons op ops ih => simp [symmetricTransform, ih]

@[simp] theorem op_transform (a b : FatOp O) :
    (a.transform b).op = Operation.transform a.op b.op := rfl
@[simp] theorem seq_transform (a b : FatOp O) : (a.transform b).seq = a.seq := rfl
@[simp] theorem siteSeq_transform (a b : FatOp O) : (a.transform b).siteSeq = a.siteSeq := rfl
@[simp] theorem kind_transform (a b : FatOp O) : (a.transform b).kind = a.kind := rfl
@[simp] theorem groupSeq_transform (a b : FatOp O) : (a.transform b).groupSeq = a.groupSeq := rfl

end

/-- The site of the op. -/
def site (self : FatOp Op) : SiteId := self.op.site

@[simp] theorem site_transform (a b : FatOp Op) : (a.transform b).site = a.site :=
  Op.site_transform a.op b.op

@[simp] theorem site_inverse (a : FatOp Op) : a.inverse.site = a.site :=
  Op.site_inverse a.op

/-- A transform keeps the site. -/
theorem keeps_site : Grid.Keeps transform site := site_transform

theorem keeps_siteSeq : Grid.Keeps transform (FatOp.siteSeq (O := Op)) := fun _ _ => rfl

end FatOp

/-- Transform `ops1` against `ops2` and `ops2` against `ops1`. -/
def quatradicTransform {O : Type} [Operation O] (ops1 : List (FatOp O)) :
    List (FatOp O) → List (FatOp O) × List (FatOp O)
  | [] => (ops1, [])
  | op2 :: ops2 =>
      let (op2', ops1') := op2.symmetricTransform ops1
      let (ops1'', ops2') := quatradicTransform ops1' ops2
      (ops1'', op2' :: ops2')

theorem quatradicTransform_eq {O : Type} [Operation O] (ops1 ops2 : List (FatOp O)) :
    quatradicTransform ops1 ops2 =
      (Grid.carried FatOp.transform ops1 ops2, Grid.carry FatOp.transform ops1 ops2) := by
  induction ops2 generalizing ops1 with
  | nil => rfl
  | cons op2 ops2 ih => simp [quatradicTransform, FatOp.symmetricTransform_eq, ih]

end CollabMode
