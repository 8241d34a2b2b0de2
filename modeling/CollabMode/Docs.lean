import CollabMode.Engine

/-!
# Documents of the server program

`Doc` and `RemoteDoc` of `server.rs`: an engine beside the text it is to agree
with.  A host keeps a `Doc` for each file it shares, and each peer, the host
itself included, a `RemoteDoc`.  Texts are lists of characters, and a host is
known by a number.

The loops of the handlers that run on a document are here.  What the handlers
send is with the protocols that use them.
-/

namespace CollabMode

/-- A host, by number. -/
abbrev ServerId := Nat

/-- The site of the ops that stand for changes other programs made to the file. -/
def externalProcessSiteId : SiteId := 2 ^ 32 - 1

/-- What ends a document. -/
inductive DocError where
  | engine (err : EngineError)
  | collab (err : CollabError)
deriving DecidableEq, Repr

/-- Engine and buffer must count the same characters. -/
def checkLen (engineLen bufferLen : Nat) : Except CollabError Unit :=
  if engineLen ≠ bufferLen then
    .error (.docFatal s!"Engine editor_len {engineLen} doesn't match buffer len {bufferLen}")
  else .ok ()

/-! ## The host's document -/

structure Doc where
  engine : ServerEngine
  buffer : Text
  /-- The hosts that get new ops, each with the last local seq received from it. -/
  subscribers : List (ServerId × LocalSeq)
  /-- The local seq of the next op that stands for a change of another program. -/
  nextExternalSiteSeq : LocalSeq
deriving DecidableEq, Repr

namespace Doc

def new (content : Text) (engine : ServerEngine) : Doc :=
  { engine, buffer := content, subscribers := [], nextExternalSiteSeq := 1 }

def applyOp (self : Doc) (op : FatOp Op) : Option (Except CollabError Unit × Doc) := do
  let (instr, engine) ← self.engine.convertInternalOpAndApply op
  let (res, buffer) ← instr.apply self.buffer
  let self := { self with engine, buffer }
  match res with
  | .error err => some (.error err, self)
  | .ok () => some (checkLen self.engine.editorLen self.buffer.length, self)

/-- The loop over the ops that were just processed. -/
def applyOps : List (FatOp Op) → Doc → Option (Except CollabError Unit × Doc)
  | [], self => some (.ok (), self)
  | op :: ops, self => do
      let (res, self) ← self.applyOp op
      match res with
      | .error err => some (.error err, self)
      | .ok () => applyOps ops self

/-- Process the ops of a client and apply them.  Returns what is sent to the
subscribers. -/
def processAndApply (self : Doc) (ops : List (FatOp Op)) (context : GlobalSeq) :
    Option (Except CollabError (List (FatOp Op)) × Doc) := do
  let (processed, engine) := self.engine.processOps ops context
  let (res, self) ← applyOps processed { self with engine }
  match res with
  | .error err => some (.error err, self)
  | .ok () => some (.ok processed, self)

end Doc

/-! ## Changes of other programs -/

/-- A piece of a diff between two texts. -/
inductive Chunk where
  | equal (s : Text)
  | insert (s : Text)
  | delete (s : Text)
deriving DecidableEq, Repr

namespace Chunk

def text : Chunk → Text
  | .equal s => s
  | .insert s => s
  | .delete s => s

/-- What the chunk covers of the old text. -/
def old : Chunk → Text
  | .equal s => s
  | .insert _ => []
  | .delete s => s

end Chunk

/-- The loop over the chunks.  `pos` counts the characters of the old text. -/
def chunksToRawOps (siteId : SiteId) : Nat → List Chunk → List Op
  | _, [] => []
  | pos, .equal s :: chunks => chunksToRawOps siteId (pos + s.length) chunks
  | pos, .insert s :: chunks => .ins (pos, s) siteId :: chunksToRawOps siteId pos chunks
  | pos, .delete s :: chunks =>
      .mark [(pos, s)] false siteId :: chunksToRawOps siteId (pos + s.length) chunks

/-- Number the ops from `nextSeq` on. -/
def numberExternalOps : LocalSeq → List Op → List (FatOp Op)
  | _, [] => []
  | nextSeq, op :: ops =>
      { seq := none, op, siteSeq := nextSeq, kind := .original, groupSeq := 0 } ::
        numberExternalOps (nextSeq + 1) ops

/-- The ops for a diff, last change first, with positions in the old text.  Also
returns the next number. -/
def chunksToOps (chunks : List Chunk) (siteId : SiteId) (nextSeq : LocalSeq) :
    List (FatOp Op) × LocalSeq :=
  let raw := (chunksToRawOps siteId 0 chunks).reverse
  (numberExternalOps nextSeq raw, nextSeq + raw.length)

/-- Take over a change of the file by another program. -/
def Doc.resetFromDisk (self : Doc) (chunks : List Chunk) :
    Option (Except CollabError (List (FatOp Op)) × Doc) :=
  let (ops, nextSeq) := chunksToOps chunks externalProcessSiteId self.nextExternalSiteSeq
  let self := { self with nextExternalSiteSeq := nextSeq }
  if ops.isEmpty then some (.ok [], self)
  else self.processAndApply ops self.engine.currentSeq

/-! ## A peer's document -/

structure RemoteDoc where
  /-- The local seq of the next local op. -/
  nextSiteSeq : LocalSeq
  /-- The ops that arrived and have not been processed. -/
  remoteOpBuffer : List (FatOp Op)
  engine : ClientEngine
  buffer : Text
deriving DecidableEq, Repr

namespace RemoteDoc

def new (content : Text) (engine : ClientEngine) : RemoteDoc :=
  { nextSiteSeq := 1, remoteOpBuffer := [], engine, buffer := content }

def applyEditInstructionUnchecked (self : RemoteDoc) (instruction : EditInstruction) :
    Option (Except CollabError Unit × RemoteDoc) := do
  let (res, buffer) ← instruction.apply self.buffer
  some (res, { self with buffer })

def verifyBufferEngineSync (self : RemoteDoc) : Except CollabError Unit :=
  checkLen self.engine.editorLen self.buffer.length

def applyEditInstruction (self : RemoteDoc) (instruction : EditInstruction) :
    Option (Except CollabError Unit × RemoteDoc) := do
  let (res, self) ← self.applyEditInstructionUnchecked instruction
  match res with
  | .error err => some (.error err, self)
  | .ok () => some (self.verifyBufferEngineSync, self)

/-- The instructions of one op of the editor. -/
def applyInstructions : List EditInstruction → RemoteDoc →
    Option (Except CollabError Unit × RemoteDoc)
  | [], self => some (.ok (), self)
  | instr :: instrs, self => do
      let (res, self) ← self.applyEditInstructionUnchecked instr
      match res with
      | .error err => some (.error err, self)
      | .ok () => applyInstructions instrs self

/-- One turn of the loop over the ops of the editor. -/
def processEditorOp (self : RemoteDoc) (editorOp : EditorFatOp) :
    Option (Except DocError Unit × RemoteDoc) := do
  let siteSeq := self.nextSiteSeq
  let (res, engine) ← self.engine.processLocalOp editorOp siteSeq
  let self := { self with nextSiteSeq := siteSeq + 1, engine }
  match res with
  | .error err => some (.error (.engine err), self)
  | .ok instructions => do
      let (res, self) ← applyInstructions instructions self
      match res with
      | .error err => some (.error (.collab err), self)
      | .ok () =>
          match self.verifyBufferEngineSync with
          | .error err => some (.error (.collab err), self)
          | .ok () => some (.ok (), self)

def processEditorOps : List EditorFatOp → RemoteDoc → Option (Except DocError Unit × RemoteDoc)
  | [], self => some (.ok (), self)
  | op :: ops, self => do
      let (res, self) ← self.processEditorOp op
      match res with
      | .error err => some (.error err, self)
      | .ok () => processEditorOps ops self

/-- One turn of the loop over the ops that arrived.  Returns what the editor is to
apply. -/
def processServerOp (self : RemoteDoc) (remoteOp : FatOp Op) :
    Option (Except DocError (List EditorLeanOp) × RemoteDoc) := do
  let (res, engine) ← self.engine.processRemoteOp remoteOp
  let self := { self with engine }
  match res with
  | .error err => some (.error (.engine err), self)
  | .ok none => some (.ok [], self)
  | .ok (some (leanOp, _)) => do
      let (res, self) ← self.applyEditInstruction leanOp.op
      match res with
      | .error err => some (.error (.collab err), self)
      | .ok () => some (.ok [leanOp], self)

def processServerOps : List (FatOp Op) → RemoteDoc →
    Option (Except DocError (List EditorLeanOp) × RemoteDoc)
  | [], self => some (.ok [], self)
  | op :: ops, self => do
      let (res, self) ← self.processServerOp op
      match res with
      | .error err => some (.error err, self)
      | .ok leanOps => do
          let (res, self) ← processServerOps ops self
          match res with
          | .error err => some (.error err, self)
          | .ok leanOps' => some (.ok (leanOps ++ leanOps'), self)

end RemoteDoc

end CollabMode
