import CollabMode.Lib.Run
import CollabMode.Op

/-!
# Edit tracking

What `collab-mode.el` does to follow the edits in a buffer of Emacs.  Before a change it
saves the text of the region that is about to change, after a change it makes ops of what
is reported, and the ops wait in a list until they are sent.  An op that continues the
newest one in the list is amalgamated with it.

Emacs does not call the two hooks in pairs.  `Editing` is a buffer whose changes are
announced and reported in any order, beside the mirror that `edit-tracking-test.el`
compares it with.  The mirror runs the ops that were sent, and a deletion runs only on the
characters that it carries.

Positions count from one, as they do in Emacs.
-/

namespace CollabMode

namespace EditTracking

/-! ## Texts -/

/-- `buffer-substring-no-properties`. -/
def bufferSubstring (buffer : Text) (beg «end» : Nat) : Text :=
  (buffer.drop (beg - 1)).take («end» - beg)

/-- `substring`, which signals an error out of range. -/
def substring (s : Text) (a b : Nat) : Option Text :=
  if a ≤ b ∧ b ≤ s.length then some ((s.drop a).take (b - a)) else none

/-! ## Ops -/

inductive EditOp where
  | ins (pos : Nat) (str : Text) (groupSeq : Nat)
  | del (pos : Nat) (str : Text) (groupSeq : Nat)
deriving DecidableEq, Repr

namespace EditOp

def str : EditOp → Text
  | .ins _ str _ => str
  | .del _ str _ => str

/-- `collab--op-empty-p`. -/
def emptyP (op : EditOp) : Bool := op.str.isEmpty

end EditOp

/-- `collab--ops-text-len`. -/
def opsTextLen (ops : List EditOp) : Nat := (ops.map fun op => op.str.length).sum

def sendOpsThreshold : Nat := 20

/-- `collab--maybe-amalgamate`.  `stringWidth` counts columns. -/
def maybeAmalgamate (stringWidth : Text → Nat) : EditOp → EditOp → Option EditOp
  | .ins pos1 str1 seq1, .ins pos2 str2 _ =>
      if stringWidth str1 < sendOpsThreshold + 5 ∧ pos2 = pos1 + str1.length then
        some (.ins pos1 (str1 ++ str2) seq1)
      else none
  | .del pos1 str1 seq1, .del pos2 str2 _ =>
      if stringWidth str1 < sendOpsThreshold + 5 ∧ pos2 + str2.length = pos1 then
        some (.del pos2 (str2 ++ str1) seq1)
      else none
  | .ins pos1 str1 seq1, .del pos2 str2 _ =>
      if pos1 ≤ pos2 ∧ pos2 + str2.length = pos1 + str1.length then
        some (.ins pos1 (str1.take (pos2 - pos1)) seq1)
      else none
  | .del _ _ _, .ins _ _ _ => none

/-- The ops, the newest first, of a change that puts `current` in the place of `old`. -/
def replaceOps (groupSeq beg «end» : Nat) (old current : Text) : List EditOp :=
  if beg = «end» then [.del beg old groupSeq]
  -- Only text properties have changed.
  else if old = current then []
  else if old.isPrefixOf current then
    [.ins (beg + old.length) (current.drop old.length) groupSeq]
  else [.ins beg current groupSeq, .del beg old groupSeq]

/-! ## The tracker -/

inductive PendingOps where
  /-- Ops waiting to be sent out, the newest first. -/
  | ops (ops : List EditOp)
  | trackingError (reason : String)
deriving DecidableEq, Repr

structure Tracker where
  inhibitHooks : Bool
  /-- The region that is about to change, with its text. -/
  changingRegion : Option (Nat × Nat × Text)
  pendingOps : PendingOps
  groupSeq : Nat
deriving DecidableEq, Repr

namespace Tracker

def new : Tracker :=
  { inhibitHooks := false, changingRegion := none, pendingOps := .ops [], groupSeq := 1 }

/-- `collab--before-change`. -/
def beforeChange (self : Tracker) (buffer : Text) (beg «end» : Nat) : Tracker :=
  if self.inhibitHooks || beg = «end» then self
  else { self with changingRegion := some (beg, «end», bufferSubstring buffer beg «end») }

/-- The new list of pending ops, when nothing has gone wrong. -/
def pushOps (stringWidth : Text → Nat) (ops pending : List EditOp) : List EditOp :=
  match ops, pending with
  | [thisOp], lastPendingOp :: rest =>
      match maybeAmalgamate stringWidth lastPendingOp thisOp with
      | some op => if op.emptyP then rest else op :: rest
      | none => thisOp :: lastPendingOp :: rest
  | _, _ => ops ++ pending

/-- `collab--push-to-pending-ops`. -/
def pushToPendingOps (stringWidth : Text → Nat) (self : Tracker) (ops : List EditOp) : Tracker :=
  match self.pendingOps with
  | .trackingError _ => self
  | .ops pending => { self with pendingOps := .ops (pushOps stringWidth ops pending) }

/-- The ops of a change, the newest first, or a tracking error.  `none` is an error that
Emacs signals. -/
def changeOps (self : Tracker) (buffer : Text) (beg «end» len : Nat) :
    Option (Except String (List EditOp)) :=
  if len = 0 then some (.ok [.ins beg (bufferSubstring buffer beg «end») self.groupSeq])
  else
    match self.changingRegion with
    | some (rbeg, rend, content) =>
        if rbeg ≤ beg ∧ beg ≤ «end» ∧ «end» ≤ rend then
          (substring content (beg - rbeg) (beg - rbeg + len)).map fun old =>
            .ok (replaceOps self.groupSeq beg «end» old (bufferSubstring buffer beg «end»))
        else
          some (.error
            (s!"Assertion failed: (<= rbeg beg end rend): ({rbeg} {beg} " ++
              toString «end» ++ s!" {rend})"))
    | none => some (.error "Unexpected ‘collab--changing-region’ shape: nil")

/-- `collab--after-change` without its hook. -/
def recordChange (stringWidth : Text → Nat) (self : Tracker) (buffer : Text)
    (beg «end» len : Nat) : Option Tracker :=
  if self.inhibitHooks then some { self with changingRegion := none }
  else
    (self.changeOps buffer beg «end» len).map fun
      | .ok ops => { self with changingRegion := none }.pushToPendingOps stringWidth ops
      | .error reason =>
          { self with changingRegion := none, pendingOps := .trackingError reason }

/-- `collab--send-ops-now`: the ops that are sent, and the tracker after that.  On a
tracking error nothing is sent and the mode is turned off. -/
def sendOpsNow (self : Tracker) : List EditOp × Tracker :=
  match self.pendingOps with
  | .trackingError _ => ([], self)
  | .ops pending =>
      (pending.reverse, { self with pendingOps := .ops [], groupSeq := self.groupSeq + 1 })

/-- The hook after a change: `collab--after-change-hasty`, or
`collab--after-change-default` without its timer. -/
def afterChangeHook (hasty : Bool) (self : Tracker) : List EditOp × Tracker :=
  match self.pendingOps with
  | .trackingError _ => if hasty then self.sendOpsNow else ([], self)
  | .ops pending =>
      if hasty || opsTextLen pending > sendOpsThreshold then self.sendOpsNow else ([], self)

end Tracker

/-! ## A buffer and its mirror -/

/-- Insert and delete, which is possible only where the text is there. -/
def EditOp.apply (text : Text) : EditOp → Option Text
  | .ins pos str _ =>
      if 1 ≤ pos ∧ pos ≤ text.length + 1 then
        some (text.take (pos - 1) ++ str ++ text.drop (pos - 1))
      else none
  | .del pos str _ =>
      if 1 ≤ pos ∧ pos + str.length ≤ text.length + 1 ∧
          bufferSubstring text pos (pos + str.length) = str then
        some (text.take (pos - 1) ++ text.drop (pos - 1 + str.length))
      else none

def applyOps (text : Text) (ops : List EditOp) : Option Text := ops.foldlM EditOp.apply text

structure Editing where
  buffer : Text
  /-- The buffer when the last change was reported. -/
  reported : Text
  /-- What the ops that were sent have made of the first text. -/
  mirror : Option Text
  tracker : Tracker
deriving DecidableEq, Repr

inductive Act where
  | beforeChange (beg «end» : Nat)
  /-- The region gets another text, and this is still to be reported. -/
  | change (beg «end» : Nat) (text : Text)
  /-- A report of all that has changed since the last one. -/
  | afterChange (beg «end» len : Nat)
  /-- The timer sends the ops. -/
  | send
deriving DecidableEq, Repr

namespace Editing

def start (text : Text) : Editing :=
  { buffer := text, reported := text, mirror := some text, tracker := .new }

def InBuffer (self : Editing) (beg «end» : Nat) : Prop :=
  1 ≤ beg ∧ beg ≤ «end» ∧ «end» ≤ self.buffer.length + 1

/-- The report is true: but for the `len` characters at `beg`, which have become the region
up to `end`, the buffer is as it was at the last report. -/
def Describes (self : Editing) (beg «end» len : Nat) : Prop :=
  self.InBuffer beg «end» ∧ beg + len ≤ self.reported.length + 1 ∧
    self.buffer = self.reported.take (beg - 1) ++ bufferSubstring self.buffer beg «end» ++
      self.reported.drop (beg - 1 + len)

instance (self : Editing) (beg «end» : Nat) : Decidable (self.InBuffer beg «end») :=
  inferInstanceAs (Decidable (_ ∧ _))

instance (self : Editing) (beg «end» len : Nat) : Decidable (self.Describes beg «end» len) :=
  inferInstanceAs (Decidable (_ ∧ _))

/-- The mirror runs the ops that are sent. -/
def sent (self : Editing) (r : List EditOp × Tracker) : Editing :=
  { self with mirror := self.mirror.bind fun text => applyOps text r.1, tracker := r.2 }

section

variable (stringWidth : Text → Nat) (hasty : Bool)

/-- `none` means that Emacs does not do this, or that it signals an error. -/
def step (self : Editing) : Act → Option Editing
  | .beforeChange beg «end» =>
      if self.InBuffer beg «end» then
        some { self with tracker := self.tracker.beforeChange self.buffer beg «end» }
      else none
  | .change beg «end» text =>
      if self.InBuffer beg «end» then
        some
          { self with
            buffer := self.buffer.take (beg - 1) ++ text ++ self.buffer.drop («end» - 1) }
      else none
  | .afterChange beg «end» len =>
      if self.Describes beg «end» len then
        (self.tracker.recordChange stringWidth self.buffer beg «end» len).map fun tracker =>
          { self with reported := self.buffer }.sent (tracker.afterChangeHook hasty)
      else none
  | .send => some (self.sent self.tracker.sendOpsNow)

end

/-- The pending ops turn the text last in sync into the buffer as it was reported, unless
there was a tracking error. -/
def Sound (self : Editing) : Prop :=
  ∀ ops, self.tracker.pendingOps = .ops ops →
    (self.mirror.bind fun text => applyOps text ops.reverse) = some self.reported

/-- The saved text, where a report makes use of it, is what the buffer had there when the
last change was reported. -/
def Fresh (self : Editing) : Act → Prop
  | .afterChange beg _ len =>
      ∀ rbeg rend content old, self.tracker.changingRegion = some (rbeg, rend, content) →
        rbeg ≤ beg → substring content (beg - rbeg) (beg - rbeg + len) = some old →
          old = bufferSubstring self.reported beg (beg + len)
  | _ => True

end Editing

/-! ## Running ops -/

/-- A text is what stands before a position and what stands after it. -/
theorem exists_split {text : Text} {pos : Nat} (hpos : 1 ≤ pos) (hle : pos ≤ text.length + 1) :
    ∃ a b, text = a ++ b ∧ a.length + 1 = pos := by
  refine ⟨text.take (pos - 1), text.drop (pos - 1), (List.take_append_drop _ _).symm, ?_⟩
  rw [List.length_take]
  omega

theorem apply_ins_iff {text after : Text} {pos : Nat} {str : Text} {seq : Nat} :
    EditOp.apply text (.ins pos str seq) = some after ↔
      ∃ a b, text = a ++ b ∧ a.length + 1 = pos ∧ after = a ++ str ++ b := by
  constructor
  · intro h
    simp only [EditOp.apply] at h
    split at h
    next hpos =>
        cases h
        obtain ⟨a, b, rfl, rfl⟩ := exists_split hpos.1 hpos.2
        exact ⟨a, b, rfl, rfl, by simp⟩
    next => cases h
  · rintro ⟨a, b, rfl, rfl, rfl⟩
    simp [EditOp.apply]

theorem apply_del_iff {text after : Text} {pos : Nat} {str : Text} {seq : Nat} :
    EditOp.apply text (.del pos str seq) = some after ↔
      ∃ a b, text = a ++ str ++ b ∧ a.length + 1 = pos ∧ after = a ++ b := by
  constructor
  · intro h
    simp only [EditOp.apply] at h
    split at h
    next hpos =>
        cases h
        obtain ⟨hpos, hle, hstr⟩ := hpos
        obtain ⟨a, b, rfl, rfl⟩ := exists_split hpos (Nat.le_trans (Nat.le_add_right _ _) hle)
        have hb : b.take str.length = str := by simpa [bufferSubstring] using hstr
        have hrest : b = str ++ b.drop str.length := by
          conv_lhs => rw [← List.take_append_drop str.length b, hb]
        refine ⟨a, b.drop str.length, ?_, rfl, by simp [List.drop_append]⟩
        rw [List.append_assoc, ← hrest]
    next => cases h
  · rintro ⟨a, b, rfl, rfl, rfl⟩
    simp [EditOp.apply, bufferSubstring, List.drop_append]
    omega

theorem apply_of_emptyP {text after : Text} {op : EditOp} (h : op.emptyP)
    (happly : EditOp.apply text op = some after) : after = text := by
  cases op with
  | ins pos str seq =>
      obtain rfl : str = [] := by simpa [EditOp.emptyP, EditOp.str] using h
      obtain ⟨a, b, rfl, -, rfl⟩ := apply_ins_iff.mp happly
      simp
  | del pos str seq =>
      obtain rfl : str = [] := by simpa [EditOp.emptyP, EditOp.str] using h
      obtain ⟨a, b, rfl, -, rfl⟩ := apply_del_iff.mp happly
      simp

/-! ## Amalgamation -/

/-- The amalgamated op does what the two ops do one after the other. -/
theorem apply_amalgamated {stringWidth : Text → Nat} {text between after : Text}
    {op1 op2 op : EditOp} (h1 : EditOp.apply text op1 = some between)
    (h2 : EditOp.apply between op2 = some after)
    (h : maybeAmalgamate stringWidth op1 op2 = some op) : EditOp.apply text op = some after := by
  cases op1 with
  | ins pos1 str1 seq1 =>
      obtain ⟨a, b, rfl, rfl, rfl⟩ := apply_ins_iff.mp h1
      cases op2 with
      | ins pos2 str2 seq2 =>
          obtain ⟨hcond, heq⟩ := Option.ite_some_none_eq_some.mp h
          subst heq
          obtain ⟨a', b', hsplit, hpos, rfl⟩ := apply_ins_iff.mp h2
          have hlength : a'.length = (a ++ str1).length := by
            rw [List.length_append]
            omega
          obtain ⟨rfl, rfl⟩ := List.append_inj hsplit.symm hlength
          exact apply_ins_iff.mpr ⟨a, b', rfl, rfl, by simp⟩
      | del pos2 str2 seq2 =>
          obtain ⟨hcond, heq⟩ := Option.ite_some_none_eq_some.mp h
          subst heq
          obtain ⟨a', b', hsplit, hpos, rfl⟩ := apply_del_iff.mp h2
          have hlength : (a' ++ str2).length = (a ++ str1).length := by
            simp only [List.length_append]
            omega
          obtain ⟨hfront, rfl⟩ := List.append_inj hsplit.symm hlength
          -- What is left of the insertion is the part before the deletion.
          have htake : a' = a ++ str1.take (pos2 - (a.length + 1)) := by
            have hfront := congrArg (List.take a'.length) hfront
            rw [List.take_left, List.take_append, List.take_of_length_le (by omega)] at hfront
            rw [hfront]
            congr 2
            omega
          exact apply_ins_iff.mpr ⟨a, b', rfl, rfl, by rw [htake]⟩
  | del pos1 str1 seq1 =>
      obtain ⟨a, b, rfl, rfl, rfl⟩ := apply_del_iff.mp h1
      cases op2 with
      | ins pos2 str2 seq2 => cases h
      | del pos2 str2 seq2 =>
          obtain ⟨hcond, heq⟩ := Option.ite_some_none_eq_some.mp h
          subst heq
          obtain ⟨a', b', hsplit, hpos, rfl⟩ := apply_del_iff.mp h2
          have hlength : (a' ++ str2).length = a.length := by
            rw [List.length_append]
            omega
          obtain ⟨rfl, rfl⟩ := List.append_inj hsplit.symm hlength
          exact apply_del_iff.mpr ⟨a', b', by simp, hpos, rfl⟩

theorem applyOps_append (text : Text) (ops ops' : List EditOp) :
    applyOps text (ops ++ ops') = (applyOps text ops).bind fun text => applyOps text ops' :=
  List.foldlM_append

theorem applyOps_singleton (text : Text) (op : EditOp) : applyOps text [op] = op.apply text := by
  simp [applyOps]

/-- The list does what its ops did before, and then what the new ops do. -/
theorem applyOps_pushOps {stringWidth : Text → Nat} {text between after : Text}
    {ops pending : List EditOp} (hpending : applyOps text pending.reverse = some between)
    (hops : applyOps between ops.reverse = some after) :
    applyOps text (Tracker.pushOps stringWidth ops pending).reverse = some after := by
  have happend : applyOps text (ops ++ pending).reverse = some after := by
    rw [List.reverse_append, applyOps_append, hpending]
    exact hops
  unfold Tracker.pushOps
  split
  next thisOp lastPendingOp rest =>
      rw [List.reverse_cons, applyOps_append] at hpending
      obtain ⟨before, hrest, hlast⟩ := Option.bind_eq_some_iff.mp hpending
      rw [applyOps_singleton] at hlast
      rw [List.reverse_singleton, applyOps_singleton] at hops
      split
      next op hamalgamated =>
          have hop := apply_amalgamated hlast hops hamalgamated
          split
          next hempty => rw [hrest, apply_of_emptyP hempty hop]
          next =>
              rw [List.reverse_cons, applyOps_append, hrest]
              exact (applyOps_singleton _ _).trans hop
      next => exact happend
  next => exact happend

/-! ## Reports -/

/-- A true report splits both texts. -/
theorem Editing.Describes.split {self : Editing} {beg «end» len : Nat}
    (h : self.Describes beg «end» len) :
    ∃ a b, a.length + 1 = beg ∧
      self.reported = a ++ bufferSubstring self.reported beg (beg + len) ++ b ∧
      self.buffer = a ++ bufferSubstring self.buffer beg «end» ++ b := by
  obtain ⟨⟨hpos, -, -⟩, hle, hbuffer⟩ := h
  refine ⟨self.reported.take (beg - 1), self.reported.drop (beg - 1 + len), ?_, ?_, hbuffer⟩
  · rw [List.length_take]
    omega
  · rw [bufferSubstring, Nat.add_sub_cancel_left, List.append_assoc, ← List.drop_drop,
      List.take_append_drop, List.take_append_drop]

theorem applyOps_replaceOps {a old current b : Text} {beg «end» seq : Nat}
    (hbeg : a.length + 1 = beg) (hnone : beg = «end» → current = []) :
    applyOps (a ++ old ++ b) (replaceOps seq beg «end» old current).reverse =
      some (a ++ current ++ b) := by
  have hdel : EditOp.apply (a ++ old ++ b) (.del beg old seq) = some (a ++ b) :=
    apply_del_iff.mpr ⟨a, b, rfl, hbeg, rfl⟩
  unfold replaceOps
  split
  next hend => rw [List.reverse_singleton, applyOps_singleton, hdel, hnone hend, List.append_nil]
  next =>
  split
  next heq =>
      rw [heq]
      rfl
  next =>
  split
  next hpre =>
      obtain ⟨rest, rfl⟩ := List.isPrefixOf_iff_prefix.mp hpre
      rw [List.reverse_singleton, applyOps_singleton]
      refine apply_ins_iff.mpr ⟨a ++ old, b, rfl, ?_, ?_⟩
      · rw [List.length_append]
        omega
      · rw [List.drop_left, List.append_assoc a old rest]
  next =>
      have hins : EditOp.apply (a ++ b) (.ins beg current seq) = some (a ++ current ++ b) :=
        apply_ins_iff.mpr ⟨a, b, rfl, hbeg, rfl⟩
      have hops : [EditOp.ins beg current seq, .del beg old seq].reverse =
          [.del beg old seq] ++ [.ins beg current seq] := rfl
      rw [hops, applyOps_append, applyOps_singleton, hdel, Option.bind_some, applyOps_singleton,
        hins]

/-- The ops of a report make of the text before what the buffer is now. -/
theorem applyOps_changeOps {self : Editing} {beg «end» len : Nat} {ops : List EditOp}
    (hdescribes : self.Describes beg «end» len) (hfresh : self.Fresh (.afterChange beg «end» len))
    (h : self.tracker.changeOps self.buffer beg «end» len = some (.ok ops)) :
    applyOps self.reported ops.reverse = some self.buffer := by
  obtain ⟨a, b, hbeg, hreported, hbuffer⟩ := hdescribes.split
  unfold Tracker.changeOps at h
  split at h
  next hlen =>
      cases h
      subst hlen
      have hnone : bufferSubstring self.reported beg (beg + 0) = [] := by simp [bufferSubstring]
      rw [hnone, List.append_nil] at hreported
      rw [List.reverse_singleton, applyOps_singleton]
      exact apply_ins_iff.mpr ⟨a, b, hreported, hbeg, hbuffer⟩
  next =>
  split at h
  next rbeg rend content hregion =>
      split at h
      next hinside =>
          obtain ⟨old, hold, hops⟩ := Option.map_eq_some_iff.mp h
          have hsame := hfresh rbeg rend content old hregion hinside.1 hold
          cases hops
          rw [← hsame] at hreported
          rw [hreported, applyOps_replaceOps hbeg]
          · exact congrArg some hbuffer.symm
          · rintro rfl
            simp [bufferSubstring]
      next => cases h
  next => cases h

namespace Editing

/-! ## One step -/

theorem sound_start (text : Text) : (start text).Sound := by
  intro ops hops
  cases hops
  rfl

theorem Sound.sent_nil {self : Editing} (h : self.Sound) :
    (self.sent ([], self.tracker)).Sound := by
  intro ops hops
  have hmirror : (self.sent ([], self.tracker)).mirror = self.mirror := by
    simp [sent, applyOps]
  rw [hmirror]
  exact h ops hops

/-- The mirror gets the pending ops. -/
theorem Sound.sent_sendOpsNow {self : Editing} (h : self.Sound) :
    (self.sent self.tracker.sendOpsNow).Sound := by
  unfold Tracker.sendOpsNow
  split
  next => exact h.sent_nil
  next pending hpending =>
      intro ops hops
      cases hops
      have hmirror := h pending hpending
      simp only [sent, hmirror]
      rfl

theorem Sound.sent_afterChangeHook {self : Editing} (h : self.Sound) (hasty : Bool) :
    (self.sent (self.tracker.afterChangeHook hasty)).Sound := by
  unfold Tracker.afterChangeHook
  split
  · split
    · exact h.sent_sendOpsNow
    · exact h.sent_nil
  · split
    · exact h.sent_sendOpsNow
    · exact h.sent_nil

section

variable {stringWidth : Text → Nat} {hasty : Bool}

/-- What a true report with a fresh region adds to the pending ops. -/
theorem Sound.recordChange {self : Editing} (h : self.Sound)
    (hinhibit : self.tracker.inhibitHooks = false) {beg «end» len : Nat} {tracker : Tracker}
    (hdescribes : self.Describes beg «end» len) (hfresh : self.Fresh (.afterChange beg «end» len))
    (hrecord : self.tracker.recordChange stringWidth self.buffer beg «end» len = some tracker) :
    Sound { self with reported := self.buffer, tracker } := by
  simp only [Tracker.recordChange, hinhibit, Bool.false_eq_true, if_false] at hrecord
  obtain ⟨result, hchange, hresult⟩ := Option.map_eq_some_iff.mp hrecord
  subst hresult
  intro ops hops
  cases result with
  | error reason => cases hops
  | ok new =>
      simp only [Tracker.pushToPendingOps] at hops
      split at hops
      next reason hpending =>
          rw [hpending] at hops
          cases hops
      next pending hpending =>
          cases hops
          obtain ⟨text, hmirror, hreplay⟩ := Option.bind_eq_some_iff.mp (h pending hpending)
          rw [hmirror]
          exact applyOps_pushOps hreplay (applyOps_changeOps hdescribes hfresh hchange)

/-- The tracker that works is never told to inhibit its hooks. -/
structure Inv (editing : Editing) : Prop where
  sound : editing.Sound
  hooks : editing.tracker.inhibitHooks = false

theorem hooks_beforeChange (tracker : Tracker) (buffer : Text) (beg «end» : Nat) :
    (tracker.beforeChange buffer beg «end»).inhibitHooks = tracker.inhibitHooks ∧
      (tracker.beforeChange buffer beg «end»).pendingOps = tracker.pendingOps := by
  unfold Tracker.beforeChange
  split <;> exact ⟨rfl, rfl⟩

theorem hooks_sendOpsNow (tracker : Tracker) :
    tracker.sendOpsNow.2.inhibitHooks = tracker.inhibitHooks := by
  unfold Tracker.sendOpsNow
  split <;> rfl

theorem hooks_afterChangeHook (tracker : Tracker) :
    (tracker.afterChangeHook hasty).2.inhibitHooks = tracker.inhibitHooks := by
  unfold Tracker.afterChangeHook
  split <;> split <;> first | exact hooks_sendOpsNow _ | rfl

theorem hooks_recordChange {tracker after : Tracker} {buffer : Text} {beg «end» len : Nat}
    (h : tracker.recordChange stringWidth buffer beg «end» len = some after) :
    after.inhibitHooks = tracker.inhibitHooks := by
  unfold Tracker.recordChange at h
  split at h
  · cases h
    rfl
  · obtain ⟨result, -, rfl⟩ := Option.map_eq_some_iff.mp h
    cases result with
    | error reason => rfl
    | ok ops =>
        simp only [Tracker.pushToPendingOps]
        split <;> rfl

theorem Inv.step {self after : Editing} {act : Act} (h : self.Inv) (hfresh : self.Fresh act)
    (hstep : self.step stringWidth hasty act = some after) : after.Inv := by
  cases act with
  | beforeChange beg «end» =>
      obtain ⟨-, heq⟩ := Option.ite_some_none_eq_some.mp hstep
      subst heq
      obtain ⟨hhooks, hpending⟩ := hooks_beforeChange self.tracker self.buffer beg «end»
      exact ⟨fun ops hops => h.sound ops (hpending.symm.trans hops), hhooks.trans h.hooks⟩
  | change beg «end» text =>
      obtain ⟨-, heq⟩ := Option.ite_some_none_eq_some.mp hstep
      subst heq
      exact ⟨h.sound, h.hooks⟩
  | afterChange beg «end» len =>
      simp only [Editing.step] at hstep
      split at hstep
      next hdescribes =>
          obtain ⟨tracker, hrecord, rfl⟩ := Option.map_eq_some_iff.mp hstep
          have hsound := h.sound.recordChange h.hooks hdescribes hfresh hrecord
          refine ⟨hsound.sent_afterChangeHook hasty, ?_⟩
          exact (hooks_afterChangeHook tracker).trans ((hooks_recordChange hrecord).trans h.hooks)
      next => cases hstep
  | send =>
      cases hstep
      exact ⟨h.sound.sent_sendOpsNow, (hooks_sendOpsNow _).trans h.hooks⟩

/-! ## Runs -/

/-- Tracking is sound in every run whose reports find a fresh region. -/
theorem sound_of_fresh (text : Text) {acts : List Act} {editing : Editing}
    (hfresh : Run.Meets (step stringWidth hasty) Fresh (start text) acts)
    (hrun : Run.run (step stringWidth hasty) (start text) acts = some editing) :
    editing.Sound :=
  (Run.invariant (fun _ _ _ h hfresh hstep => Inv.step h hfresh hstep)
    ⟨sound_start text, rfl⟩ hfresh hrun).sound

/-- A region is saved only when there is nothing to report. -/
def Balanced (self : Editing) : Act → Prop
  | .beforeChange beg «end» => beg = «end» ∨ self.buffer = self.reported
  | _ => True

/-- The saved text is what the buffer had there when the last change was reported. -/
def Saved (self : Editing) : Prop :=
  ∀ rbeg rend content, self.tracker.changingRegion = some (rbeg, rend, content) →
    1 ≤ rbeg ∧ content = bufferSubstring self.reported rbeg rend

theorem Saved.fresh {self : Editing} (h : self.Saved) (act : Act) : self.Fresh act := by
  cases act with
  | afterChange beg «end» len =>
      intro rbeg rend content old hregion hle hold
      obtain ⟨hpos, rfl⟩ := h rbeg rend content hregion
      obtain ⟨⟨-, hlength⟩, rfl⟩ := Option.ite_some_none_eq_some.mp hold
      simp only [bufferSubstring, List.length_take, List.length_drop] at hlength ⊢
      rw [List.drop_take, List.drop_drop, List.take_take]
      have hinside : min (beg - rbeg + len - (beg - rbeg)) (rend - rbeg - (beg - rbeg)) =
          beg + len - beg := by omega
      have hstart : rbeg - 1 + (beg - rbeg) = beg - 1 := by omega
      rw [hinside, hstart]
  | _ => trivial

theorem region_sendOpsNow (tracker : Tracker) :
    tracker.sendOpsNow.2.changingRegion = tracker.changingRegion := by
  unfold Tracker.sendOpsNow
  split <;> rfl

theorem region_afterChangeHook (tracker : Tracker) :
    (tracker.afterChangeHook hasty).2.changingRegion = tracker.changingRegion := by
  unfold Tracker.afterChangeHook
  split <;> split <;> first | exact region_sendOpsNow _ | rfl

theorem region_recordChange {tracker after : Tracker} {buffer : Text} {beg «end» len : Nat}
    (h : tracker.recordChange stringWidth buffer beg «end» len = some after) :
    after.changingRegion = none := by
  unfold Tracker.recordChange at h
  split at h
  · cases h
    rfl
  · obtain ⟨result, -, rfl⟩ := Option.map_eq_some_iff.mp h
    cases result with
    | error reason => rfl
    | ok ops =>
        simp only [Tracker.pushToPendingOps]
        split <;> rfl

theorem Saved.step {self after : Editing} {act : Act} (h : self.Saved)
    (hbalanced : self.Balanced act) (hstep : self.step stringWidth hasty act = some after) :
    after.Saved := by
  cases act with
  | beforeChange beg «end» =>
      obtain ⟨⟨hpos, -, -⟩, heq⟩ := Option.ite_some_none_eq_some.mp hstep
      subst heq
      intro rbeg rend content hregion
      simp only [Tracker.beforeChange] at hregion
      split at hregion
      next => exact h rbeg rend content hregion
      next hsaved =>
          cases hregion
          have hne : beg ≠ «end» := by
            rintro rfl
            simp at hsaved
          exact ⟨hpos, by rw [hbalanced.resolve_left hne]⟩
  | change beg «end» text =>
      obtain ⟨-, heq⟩ := Option.ite_some_none_eq_some.mp hstep
      subst heq
      exact h
  | afterChange beg «end» len =>
      simp only [Editing.step] at hstep
      split at hstep
      next =>
          obtain ⟨tracker, hrecord, rfl⟩ := Option.map_eq_some_iff.mp hstep
          intro rbeg rend content hregion
          have hnone : (tracker.afterChangeHook hasty).2.changingRegion = none :=
            (region_afterChangeHook tracker).trans (region_recordChange hrecord)
          cases hnone.symm.trans hregion
      next => cases hstep
  | send =>
      cases hstep
      intro rbeg rend content hregion
      exact h rbeg rend content ((region_sendOpsNow _).symm.trans hregion)

/-- Tracking is sound in every run in which regions are saved only when there is nothing to
report. -/
theorem sound_of_balanced (text : Text) {acts : List Act} {editing : Editing}
    (hbalanced : Run.Meets (step stringWidth hasty) Balanced (start text) acts)
    (hrun : Run.run (step stringWidth hasty) (start text) acts = some editing) :
    editing.Sound :=
  (@Run.invariant _ _ _ Balanced (fun editing : Editing => editing.Inv ∧ editing.Saved)
    (fun _ act _ h hbalanced hstep =>
      ⟨h.1.step (h.2.fresh act) hstep, h.2.step hbalanced hstep⟩)
    _ _ _ ⟨⟨sound_start text, rfl⟩, nofun⟩ hbalanced hrun).1.sound

end

/-! ## Two deletions -/

/-- A wide region is announced, then a part of it, which is deleted. -/
def wideRegion : List Act :=
  [.beforeChange 1 4, .beforeChange 2 3, .change 2 3 [], .afterChange 2 2 1]

theorem sound_of_fresh_wide : ∃ editing,
    Run.run (step List.length false) (start ['a', 'b', 'c']) wideRegion = some editing ∧
      editing.tracker.pendingOps = .ops [.del 2 ['b'] 1] ∧ editing.Sound := by
  obtain ⟨editing, hrun, hops⟩ : ∃ editing,
      Run.run (step List.length false) (start ['a', 'b', 'c']) wideRegion = some editing ∧
        editing.tracker.pendingOps = .ops [.del 2 ['b'] 1] := ⟨_, rfl, rfl⟩
  refine ⟨editing, hrun, hops, sound_of_fresh _ ?_ hrun⟩
  refine ⟨trivial, fun _ h => ?_⟩
  cases h
  refine ⟨trivial, fun _ h => ?_⟩
  cases h
  refine ⟨trivial, fun _ h => ?_⟩
  cases h
  refine ⟨fun rbeg rend content old hregion _ hold => ?_, fun _ _ => trivial⟩
  cases hregion
  cases hold
  rfl

/-- Two deletions are announced one by one and reported together. -/
theorem not_sound :
    ¬∀ (text : Text) (acts : List Act) (editing : Editing),
      Run.run (step List.length false) (start text) acts = some editing → editing.Sound := by
  intro h
  obtain ⟨editing, hrun, ops, hops, hmirror⟩ : ∃ editing,
      Run.run (step List.length false) (start ['a', 'b', 'c', 'd'])
          [.beforeChange 1 5, .change 1 2 [], .beforeChange 1 4, .change 1 2 [],
            .afterChange 1 1 2] = some editing ∧
        ∃ ops, editing.tracker.pendingOps = .ops ops ∧
          (editing.mirror.bind fun text => applyOps text ops.reverse) ≠ some editing.reported :=
    ⟨_, rfl, _, rfl, by decide⟩
  exact hmirror (h _ _ editing hrun ops hops)

end Editing

end EditTracking

end CollabMode
