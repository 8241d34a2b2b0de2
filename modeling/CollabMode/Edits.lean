import CollabMode.Op
import CollabMode.Lib.Tombstone

/-!
# What passes between editor and engine

The editor's operations and the edit instructions it gets back, from `types.rs`,
and how a buffer runs an instruction (`Doc::apply_op` and
`RemoteDoc::apply_edit_instruction_unchecked` in `server.rs`).  The edits of one
instruction belong to one text, so they run last edit first.
-/

namespace CollabMode

open Tombstone

inductive EditorOpKind where
  | original
  | undo
  | redo
deriving DecidableEq, Repr

inductive EditorOp where
  | ins (pos : Nat) (content : Text)
  | del (pos : Nat) (content : Text)
  | undo (context : Nat)
  | redo (context : Nat)
deriving DecidableEq, Repr

def EditorOp.kind : EditorOp → EditorOpKind
  | .ins _ _ => .original
  | .del _ _ => .original
  | .undo _ => .undo
  | .redo _ => .redo

structure Edit where
  pos : Nat
  content : Text
deriving DecidableEq, Repr

inductive EditInstruction where
  | ins (edits : List Edit)
  | del (edits : List Edit)
deriving DecidableEq, Repr

structure EditorFatOp where
  op : EditorOp
  groupSeq : GroupSeq
deriving DecidableEq, Repr

structure EditorLeanOp where
  op : EditInstruction
  siteId : SiteId
deriving DecidableEq, Repr

/-- The error that terminates a document. -/
inductive CollabError where
  | docFatal (msg : String)
deriving DecidableEq, Repr

/-! ## Buffers -/

/-- `GapBuffer::drain(a..b)`, which panics out of range. -/
def drain (buffer : Text) (a b : Nat) : Option Text :=
  if a ≤ b ∧ b ≤ buffer.length then some (buffer.take a ++ buffer.drop b) else none

/-- Insert the texts of `edits`, first edit first.  Returns the buffer also when
an edit is refused. -/
def insertEdits : List Edit → Text → Except CollabError Unit × Text
  | [], buffer => (.ok (), buffer)
  | edit :: edits, buffer =>
      let pos := edit.pos
      let gapbufLen := buffer.length
      if pos > gapbufLen then
        (.error (.docFatal s!"Insertion pos > gapbuf_len, {pos} > {gapbufLen}"), buffer)
      else insertEdits edits (insertAt pos edit.content buffer)

/-- Delete the texts of `edits`, first edit first. -/
def deleteEdits : List Edit → Text → Option Text
  | [], buffer => some buffer
  | edit :: edits, buffer => do
      let buffer ← drain buffer edit.pos (edit.pos + edit.content.length)
      deleteEdits edits buffer

/-- Run an instruction on a buffer.  `none` is a panic. -/
def EditInstruction.apply (instruction : EditInstruction) (buffer : Text) :
    Option (Except CollabError Unit × Text) :=
  match instruction with
  | .ins edits => some (insertEdits edits.reverse buffer)
  | .del edits => (deleteEdits edits.reverse buffer).map fun buffer => (.ok (), buffer)

theorem insertEdits_append (es es' : List Edit) (buffer : Text) :
    insertEdits (es ++ es') buffer =
      match insertEdits es buffer with
      | (.ok _, buffer) => insertEdits es' buffer
      | (.error err, buffer) => (.error err, buffer) := by
  induction es generalizing buffer with
  | nil => rfl
  | cons e es ih =>
      simp only [List.cons_append, insertEdits]
      split
      · rfl
      · exact ih _

theorem deleteEdits_append (es es' : List Edit) (buffer : Text) :
    deleteEdits (es ++ es') buffer = (deleteEdits es buffer).bind (deleteEdits es') := by
  induction es generalizing buffer with
  | nil => rfl
  | cons e es ih =>
      simp only [List.cons_append, deleteEdits, Option.bind_eq_bind, Option.bind_assoc]
      congr 1
      funext b
      exact ih b

/-- Only the lengths of the deleted texts matter. -/
theorem deleteEdits_congr {es es' : List Edit}
    (h : es.map (fun e => (e.pos, e.content.length)) =
      es'.map fun e => (e.pos, e.content.length)) (buffer : Text) :
    deleteEdits es buffer = deleteEdits es' buffer := by
  induction es generalizing es' buffer with
  | nil =>
      obtain rfl : es' = [] := by simpa using h.symm
      rfl
  | cons e es ih =>
      cases es' with
      | nil => simp at h
      | cons e' es' =>
          simp only [List.map_cons, List.cons.injEq, Prod.mk.injEq] at h
          obtain ⟨⟨hpos, hlen⟩, hrest⟩ := h
          simp only [deleteEdits, hpos, hlen]
          congr 1
          funext b
          exact ih hrest b

/-! ## The edits of a flip -/

/-- The edits that show the reader that the runs `rs` got another liveness. -/
def flipEdits (l : Text) (f : List Bool) (rs : List (Nat × Nat)) : List Edit :=
  rs.map fun r => ⟨liveBefore r.1 f, piece l r⟩

/-- The instruction that makes the runs `rs` live or dead. -/
def flipInstruction (live : Bool) (edits : List Edit) : EditInstruction :=
  if live then .ins edits else .del edits

section Flip

variable {l : Text} {f : List Bool} {rs : List (Nat × Nat)}

theorem deleteEdits_flip (h : l.length = f.length) (hasc : Ascending rs)
    (hle : ∀ r ∈ rs, r.1 + r.2 ≤ f.length) (hall : ∀ r ∈ rs, AllFlag true f r) :
    deleteEdits (flipEdits l f rs).reverse (liveItems l f) =
      some (liveItems l (paint (covers rs) false f)) := by
  induction rs with
  | nil =>
      rw [paint_eq_self (by simp)]
      rfl
  | cons r rs ih =>
      obtain ⟨hfirst, hrest⟩ := List.pairwise_cons.mp hasc
      have hih := ih hrest (fun r' h => hle r' (by simp [h])) fun r' h => hall r' (by simp [h])
      have hr := hle r (by simp)
      have hright : ∀ r' ∈ rs, r.1 ≤ r'.1 := fun r' h => by have := hfirst r' h; omega
      -- The runs further right are gone already.
      have hrun : AllFlag true (paint (covers rs) false f) r :=
        (hall r (by simp)).paint_covers hfirst
      obtain ⟨hkill, hlen⟩ := liveItems_kill_run (l := l)
        (by simpa using h) (by simpa using hr) hrun
      rw [liveBefore_paint_covers hright] at hkill hlen
      have hpiece : (piece l r).length = r.2 := piece_length (by omega)
      have hedits : (flipEdits l f (r :: rs)).reverse =
          (flipEdits l f rs).reverse ++ [⟨liveBefore r.1 f, piece l r⟩] := by
        simp [flipEdits]
      rw [hedits, deleteEdits_append, hih, paint_covers_cons, hkill]
      simp [deleteEdits, drain, hpiece, hlen]

theorem insertEdits_flip (h : l.length = f.length) (hasc : Ascending rs)
    (hle : ∀ r ∈ rs, r.1 + r.2 ≤ f.length) (hall : ∀ r ∈ rs, AllFlag false f r) :
    insertEdits (flipEdits l f rs).reverse (liveItems l f) =
      (.ok (), liveItems l (paint (covers rs) true f)) := by
  induction rs with
  | nil =>
      rw [paint_eq_self (by simp)]
      rfl
  | cons r rs ih =>
      obtain ⟨hfirst, hrest⟩ := List.pairwise_cons.mp hasc
      have hih := ih hrest (fun r' h => hle r' (by simp [h])) fun r' h => hall r' (by simp [h])
      have hr := hle r (by simp)
      have hright : ∀ r' ∈ rs, r.1 ≤ r'.1 := fun r' h => by have := hfirst r' h; omega
      have hrun : AllFlag false (paint (covers rs) true f) r :=
        (hall r (by simp)).paint_covers hfirst
      obtain ⟨hrevive, hlen⟩ :=
        liveItems_revive_run (l := l) (by simpa using h) (by simpa using hr) hrun
      rw [liveBefore_paint_covers hright] at hrevive hlen
      have hedits : (flipEdits l f (r :: rs)).reverse =
          (flipEdits l f rs).reverse ++ [⟨liveBefore r.1 f, piece l r⟩] := by
        simp [flipEdits]
      have hok : ¬ liveBefore r.1 f > (liveItems l (paint (covers rs) true f)).length := by omega
      rw [hedits, insertEdits_append, hih, paint_covers_cons, hrevive]
      simp only [insertEdits, hok, if_false]
      rfl

/-- Run last edit first, the edits turn the old live text into the new one. -/
theorem flipInstruction_apply (live : Bool) (h : l.length = f.length) (hasc : Ascending rs)
    (hle : ∀ r ∈ rs, r.1 + r.2 ≤ f.length) (hall : ∀ r ∈ rs, AllFlag (!live) f r) :
    (flipInstruction live (flipEdits l f rs)).apply (liveItems l f) =
      some (.ok (), liveItems l (paint (covers rs) live f)) := by
  cases live with
  | false => simp [flipInstruction, EditInstruction.apply, deleteEdits_flip h hasc hle hall]
  | true => simp [flipInstruction, EditInstruction.apply, insertEdits_flip h hasc hle hall]

end Flip

end CollabMode
