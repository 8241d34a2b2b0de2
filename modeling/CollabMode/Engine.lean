import CollabMode.InternalDoc

/-!
# The engines

`GlobalHistory`, `ClientEngine` and `ServerEngine` of `engine.rs`.

A client keeps the history twice.  `global` holds the operations the server has
ordered, `localOps` its own operations that have not come back yet.  The undo
queue points into both.  Its entries are places in `global ++ localOps`, counted
from 1.

A method returns what the source returns, and the object it leaves behind, also
when it fails.  `none` is a panic, as in `InternalDoc`.
-/

namespace CollabMode

inductive EngineError where
  | opMissing (op : FatOp Op)
  | opMismatch (op localOp : FatOp Op)
  | seqMismatch (expected : GlobalSeq) (op : FatOp Op)
  | siteSeqMismatch (expected : LocalSeq) (op : EditorOp)
  | seqMissing (op : FatOp Op)
  | emptyInsert (op : EditorOp)
  | deleteInEmptyDoc
  | undoError (msg : String)
deriving DecidableEq, Repr

/-- Some ops sent by a client to the server, made on the history up to `context`. -/
structure ContextOps where
  context : GlobalSeq
  doc : DocId
  ops : List (FatOp Op)
deriving DecidableEq, Repr

/-! ## The history -/

structure GlobalHistory where
  /-- The ops that have a global sequence number. -/
  global : List (FatOp Op)
  /-- The ops that have not. -/
  localOps : List (FatOp Op)
  /-- Pointers to the ops the editor can undo. -/
  undoQueue : List GlobalSeq
  /-- An index into the queue: the op undone last. -/
  undoTip : Option Nat
deriving DecidableEq, Repr

namespace GlobalHistory

def new : GlobalHistory := { global := [], localOps := [], undoQueue := [], undoTip := none }

/-- The length of the global and the local history. -/
def totalLen (self : GlobalHistory) : Nat := self.global.length + self.localOps.length

/-- The global ops after `seq`. -/
def opsAfter (self : GlobalHistory) (seq : GlobalSeq) : List (FatOp Op) :=
  if seq < self.global.length then self.global.drop seq else []

/-- The global and the local ops after `seq`. -/
def allOpsAfter (self : GlobalHistory) (seq : GlobalSeq) : Option (List (FatOp Op)) :=
  if seq < self.global.length then some (self.global.drop seq ++ self.localOps)
  else do
    let idx ← sub? seq self.global.length
    assert? (idx ≤ self.localOps.length)
    some (self.localOps.drop idx)

/-- The op that the pointer at `idxidx` refers to. -/
def nthInUndoQueue (self : GlobalHistory) (idxidx : Nat) : Option (FatOp Op) := do
  let seq ← self.undoQueue[idxidx]?
  let idx ← sub? seq 1
  if idx < self.global.length then self.global[idx]?
  else self.localOps[idx - self.global.length]?

/-- Record a local op in the undo queue and work out its kind.  `opSeq` is the
global sequence number inferred for it. -/
def processOpkind (self : GlobalHistory) (kind : EditorOpKind) (opSeq : GlobalSeq) :
    Option (Except EngineError OpKind × GlobalHistory) :=
  let seqOfNewOp := self.global.length + self.localOps.length + 1 + 1
  match kind with
  | .original =>
      match self.undoTip with
      | some idx => do
          -- What was undone cannot be redone after an edit.
          assert? (idx ≤ self.undoQueue.length)
          some (.ok .original,
            { self with undoTip := none, undoQueue := self.undoQueue.take idx ++ [opSeq] })
      | none => some (.ok .original, { self with undoQueue := self.undoQueue ++ [opSeq] })
  | .undo =>
      -- Without a tip the last op is undone.
      match self.undoTip.getD self.undoQueue.length with
      | 0 => some (.error (.undoError "No more op to undo"), self)
      | tip + 1 => do
          let idxOfOrig ← self.undoQueue[tip]?
          let delta ← sub? seqOfNewOp (idxOfOrig + 1)
          some (.ok (.undo delta),
            { self with undoTip := some tip, undoQueue := self.undoQueue.set tip opSeq })
  | .redo =>
      match self.undoTip with
      | none => some (.error (.undoError "No ops to redo"), self)
      | some idx => do
          let idxOfInverse ← self.undoQueue[idx]?
          let delta ← sub? seqOfNewOp (idxOfInverse + 1)
          some (.ok (.undo delta),
            { self with
              undoTip := if idx + 1 = self.undoQueue.length then none else some (idx + 1)
              undoQueue := self.undoQueue.set idx opSeq })

/-- The places of the undo queue from the tip on, in the order an undo or a redo
visits them. -/
def undoPlaces (self : GlobalHistory) (redo : Bool) : List Nat :=
  if redo then
    match self.undoTip with
    | none => []
    | some tip => List.range' tip (self.undoQueue.length - tip)
  else (List.range (self.undoTip.getD self.undoQueue.length)).reverse

/-- The loop over the places.  It ends with the group of the first op. -/
def generateUndoLoop (self : GlobalHistory) :
    List Nat → Option GroupSeq → List (FatOp Op) → Option (List (FatOp Op))
  | [], _, ops => some ops
  | idxidx :: places, prevGroupSeq, ops => do
      let op ← self.nthInUndoQueue idxidx
      if prevGroupSeq.any fun groupSeq => groupSeq != op.groupSeq then some ops
      else do
        let seq ← self.undoQueue[idxidx]?
        let transformBase ← self.allOpsAfter seq
        let undoOp := op.inverse.batchTransform (transformBase ++ ops)
        generateUndoLoop self places (some op.groupSeq) (ops ++ [undoOp])

/-- The undo or redo ops from the tip on.  Only their `op` is of use. -/
def generateUndoOp1 (self : GlobalHistory) (redo : Bool) : Option (List (FatOp Op)) :=
  self.generateUndoLoop (self.undoPlaces redo) none []

/-- One turn of the loop that adds local ops to the history. -/
def recordOp (self : GlobalHistory) (kind : EditorOpKind) (siteSeq : LocalSeq)
    (groupSeq : GroupSeq) (op : Op) : Option (Except EngineError Unit × GlobalHistory) := do
  let inferredSeq := self.global.length + self.localOps.length + 1
  let (opKind, self) ← self.processOpkind kind inferredSeq
  match opKind with
  | .error err => some (.error err, self)
  | .ok opKind =>
      let fatOp : FatOp Op := { seq := none, op, siteSeq, kind := opKind, groupSeq }
      some (.ok (), { self with localOps := self.localOps ++ [fatOp] })

def recordOps (kind : EditorOpKind) (siteSeq : LocalSeq) (groupSeq : GroupSeq) :
    List Op → GlobalHistory → Option (Except EngineError Unit × GlobalHistory)
  | [], self => some (.ok (), self)
  | op :: ops, self => do
      let (res, self) ← self.recordOp kind siteSeq groupSeq op
      match res with
      | .error err => some (.error err, self)
      | .ok () => recordOps kind siteSeq groupSeq ops self

end GlobalHistory

/-! ## The client -/

structure ClientEngine where
  gh : GlobalHistory
  internalDoc : InternalDoc
  site : SiteId
  /-- The largest global sequence number seen. -/
  currentSeq : GlobalSeq
  /-- The largest local sequence number seen. -/
  currentSiteSeq : LocalSeq
  /-- The local sequence number of the last op sent to the server.  No more ops
  are sent before it is acked. -/
  lastSiteSeqSentOut : LocalSeq
deriving DecidableEq, Repr

namespace ClientEngine

def new (site : SiteId) (baseSeq : GlobalSeq) (internalDoc : InternalDoc) : ClientEngine :=
  { gh := GlobalHistory.new, internalDoc, site, currentSeq := baseSeq
    currentSiteSeq := 0, lastSiteSeqSentOut := 0 }

def editorLen (self : ClientEngine) : Nat := self.internalDoc.editorLen

/-- Whether the ops sent before have been acked. -/
def prevOpAcked (self : ClientEngine) : Bool :=
  match self.gh.localOps.head? with
  | some op => op.siteSeq == self.lastSiteSeqSentOut + 1
  | none => false

def packageLocalOps (self : ClientEngine) (doc : DocId) : Option ContextOps :=
  let ops := self.gh.localOps
  if ops.length > 0 then some { doc, context := self.currentSeq, ops } else none

/-- The local ops, if there are any and it is time to send them. -/
def maybePackageLocalOps (self : ClientEngine) (doc : DocId) :
    Option ContextOps × ClientEngine :=
  if self.prevOpAcked then
    match self.packageLocalOps doc with
    | some contextOps =>
        match contextOps.ops.getLast? with
        | some op => (some contextOps, { self with lastSiteSeqSentOut := op.siteSeq })
        | none => (none, self)
    | none => (none, self)
  else (none, self)

/-- Apply `op` to the internal document, and convert it for the editor. -/
def convertInternalOpAndApply (self : ClientEngine) (op : Op) :
    Option (EditorLeanOp × ClientEngine) := do
  let (convertedOp, internalDoc) ← self.internalDoc.convertInternalOpAndApply op
  some ({ op := convertedOp, siteId := op.site }, { self with internalDoc })

/-- Apply undo or redo ops to the internal document. -/
def applyUndoOps : List (FatOp Op) → ClientEngine →
    Option (List Op × List EditInstruction × ClientEngine)
  | [], self => some ([], [], self)
  | fatOp :: fatOps, self => do
      let (leanOp, self) ← self.convertInternalOpAndApply fatOp.op
      let (ops, instructions, self) ← applyUndoOps fatOps self
      some (fatOp.op :: ops, leanOp.op :: instructions, self)

/-- The ops of an undo or a redo that the editor asks for in `context`. -/
def undoOps (self : ClientEngine) (redo : Bool) (context : Nat) :
    Option (Except EngineError (List Op × List EditInstruction) × ClientEngine) :=
  if self.gh.totalLen ≠ context then
    let expected := self.gh.totalLen
    some (.error (.undoError (s!"Undo context mismatch: expected {expected}, got {context}, " ++
      "this means editor sent ops between getting the undo op and sending the undo op " ++
      "back to server")), self)
  else do
    let fatOps ← self.gh.generateUndoOp1 redo
    let (ops, instructions, self) ← applyUndoOps fatOps self
    some (.ok (ops, instructions), self)

/-- Apply the editor's op to the internal document.  Returns the internal ops and
the edit instructions. -/
def localOpsOf (self : ClientEngine) (op : EditorOp) :
    Option (Except EngineError (List Op × List EditInstruction) × ClientEngine) :=
  match op with
  | .ins pos text =>
      if text.length = 0 then some (.error (.emptyInsert op), self)
      else do
        let (op', internalDoc) ← self.internalDoc.convertEditorOpAndApply op self.site
        some (.ok ([op'], [.ins [⟨pos, text⟩]]), { self with internalDoc })
  | .del pos text =>
      if self.internalDoc.ranges.length = 0 then some (.error .deleteInEmptyDoc, self)
      else do
        let (op', internalDoc) ← self.internalDoc.convertEditorOpAndApply op self.site
        some (.ok ([op'], [.del [⟨pos, text⟩]]), { self with internalDoc })
  | .undo context => self.undoOps false context
  | .redo context => self.undoOps true context

/-- Process an op of the editor: apply it to the internal document and add it to
the history. -/
def processLocalOp (self : ClientEngine) (editorOp : EditorFatOp) (siteSeq : LocalSeq) :
    Option (Except EngineError (List EditInstruction) × ClientEngine) :=
  let op := editorOp.op
  if siteSeq ≠ self.currentSiteSeq + 1 then
    some (.error (.siteSeqMismatch (self.currentSiteSeq + 1) op), self)
  else do
    let self := { self with currentSiteSeq := siteSeq }
    let (res, self) ← self.localOpsOf op
    match res with
    | .error err => some (.error err, self)
    | .ok (ops, instructions) => do
        let (res, gh) ← self.gh.recordOps op.kind siteSeq editorOp.groupSeq ops
        match res with
        | .error err => some (.error err, { self with gh })
        | .ok () => some (.ok instructions, { self with gh })

/-- Update the undo deltas of the local ops, which stand at `offset` and after. -/
def bumpUndoDeltas : Nat → List (FatOp Op) → List (FatOp Op)
  | _, [] => []
  | offset, op :: ops =>
      let op :=
        match op.kind with
        | .undo delta => if offset < delta then { op with kind := .undo (delta + 1) } else op
        | .original => op
      op :: bumpUndoDeltas (offset + 1) ops

/-- Process an op of the server, transform it and add it to the history.  Returns
what the editor is to apply, if anything. -/
def processRemoteOp (self : ClientEngine) (op : FatOp Op) :
    Option (Except EngineError (Option (EditorLeanOp × GlobalSeq)) × ClientEngine) :=
  match op.seq with
  | none => some (.error (.seqMissing op), self)
  | some seq =>
      if seq ≠ self.currentSeq + 1 then
        some (.error (.seqMismatch (self.currentSeq + 1) op), self)
      else if op.site = self.site then
        -- The op moves from the local part to the global part.
        match self.gh.localOps with
        | [] => some (.error (.opMissing op), self)
        | localOp :: localOps =>
            let self := { self with gh := { self.gh with localOps } }
            if localOp.site ≠ op.site ∨ localOp.siteSeq ≠ op.siteSeq then
              some (.error (.opMismatch op localOp), self)
            else
              some (.ok none,
                { self with
                  currentSeq := seq
                  gh := { self.gh with global := self.gh.global ++ [op] } })
      else do
        let (op, newLocalOps) := op.symmetricTransform self.gh.localOps
        let prevCurrentSeq := self.currentSeq
        let gh : GlobalHistory :=
          { self.gh with
            localOps := bumpUndoDeltas 0 newLocalOps
            global := self.gh.global ++ [op]
            -- The local ops move on by one, and so do the pointers to them.
            undoQueue := self.gh.undoQueue.map fun e => if e > prevCurrentSeq then e + 1 else e }
        let (leanOp, self) ← { self with currentSeq := seq, gh }.convertInternalOpAndApply op.op
        some (.ok (some (leanOp, seq)), self)

/-- Convert `ops` for the editor without applying them. -/
def convertInternalOpsDontApply (self : ClientEngine) (ops : List (FatOp Op)) :
    Option (List EditInstruction) := do
  let (_, instructions, _) ← applyUndoOps ops self
  some instructions

/-- The next undo op, and the context that the editor sends back with it. -/
def generateUndoOp (self : ClientEngine) : Option (List EditInstruction × Nat) := do
  let ops ← self.gh.generateUndoOp1 false
  let instructions ← self.convertInternalOpsDontApply ops
  some (instructions, self.gh.totalLen)

/-- The next redo op. -/
def generateRedoOp (self : ClientEngine) : Option (List EditInstruction × Nat) := do
  let ops ← self.gh.generateUndoOp1 true
  let instructions ← self.convertInternalOpsDontApply ops
  some (instructions, self.gh.totalLen)

/-- The calls that change an engine. -/
inductive Call where
  | processLocalOp (editorOp : EditorFatOp) (siteSeq : LocalSeq)
  | processRemoteOp (op : FatOp Op)
  | maybePackageLocalOps (doc : DocId)
deriving DecidableEq, Repr

/-- The engine after a call that it accepts. -/
def accept (self : ClientEngine) : Call → Option ClientEngine
  | .processLocalOp editorOp siteSeq =>
      match self.processLocalOp editorOp siteSeq with
      | some (.ok _, self) => some self
      | _ => none
  | .processRemoteOp op =>
      match self.processRemoteOp op with
      | some (.ok _, self) => some self
      | _ => none
  | .maybePackageLocalOps doc => some (self.maybePackageLocalOps doc).2

end ClientEngine

/-! ## The server -/

structure ServerEngine where
  gh : GlobalHistory
  internalDoc : InternalDoc
  /-- The largest global sequence number assigned. -/
  currentSeq : GlobalSeq
deriving DecidableEq, Repr

namespace ServerEngine

def new (initLen : Nat) : ServerEngine :=
  { gh := GlobalHistory.new, internalDoc := InternalDoc.new initLen, currentSeq := 0 }

def globalOpsAfter (self : ServerEngine) (seq : GlobalSeq) : List (FatOp Op) :=
  self.gh.opsAfter seq

def editorLen (self : ServerEngine) : Nat := self.internalDoc.editorLen

def convertInternalOpAndApply (self : ServerEngine) (op : FatOp Op) :
    Option (EditInstruction × ServerEngine) := do
  let (convertedOp, internalDoc) ← self.internalDoc.convertInternalOpAndApply op.op
  some (convertedOp, { self with internalDoc })

/-- Number the ops from `seq` on. -/
def assignSeqs : GlobalSeq → List (FatOp Op) → List (FatOp Op)
  | _, [] => []
  | seq, op :: ops => { op with seq := some seq } :: assignSeqs (seq + 1) ops

/-- Process the ops of a client, return the transformed ops.  This never fails. -/
def processOps (self : ServerEngine) (ops : List (FatOp Op)) (context : GlobalSeq) :
    List (FatOp Op) × ServerEngine :=
  let l1 := self.gh.opsAfter context
  let (_, ops) := quatradicTransform l1 ops
  let ops := assignSeqs (self.currentSeq + 1) ops
  (ops,
    { self with
      currentSeq := self.currentSeq + ops.length
      gh := { self.gh with global := self.gh.global ++ ops } })

end ServerEngine

end CollabMode
