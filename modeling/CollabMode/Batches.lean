import CollabMode.Creation

/-!
# Batches of a client

What a host does with the batch of a client.  Four checks can refuse it.  A batch that
passes is recorded in the history first and applied to the document afterwards, op by
op, and the record stays when an op cannot be applied.

`Fits` says that ops can be applied one after the other.  It is all that stands between
the handler and atomicity, and valid ops on a document in order have it.
-/

namespace CollabMode

open Tombstone

/-- The edit of each op is within the text, and the lengths agree after it. -/
def Fits : List Op → InternalDoc → Text → Prop
  | [], _, _ => True
  | op :: ops, doc, text =>
      ∃ instr doc' text', doc.convertInternalOpAndApply op = some (instr, doc') ∧
        instr.apply text = some (.ok (), text') ∧ doc'.editorLen = text'.length ∧
        Fits ops doc' text'

theorem checkLen_ok {n m : Nat} {u : Unit} : checkLen n m = .ok u ↔ n = m := by
  unfold checkLen
  split
  next h => simp [h]
  next h => simpa using h

/-- Valid ops fit a document in order. -/
theorem Shows.fits {ops : List Op} {doc : InternalDoc} {text : Text} {d : Seq Char}
    (h : Shows doc text d) (hops : AllValid d.items ops) : Fits ops doc text := by
  induction ops generalizing doc text d with
  | nil => trivial
  | cons op ops ih =>
      obtain ⟨hop, hrest⟩ := hops
      obtain ⟨instr, doc', hrun, happly, hshows⟩ := h.internal hop
      exact ⟨instr, doc', _, hrun, happly, hshows.editorLen_eq,
        ih hshows (by rw [Op.apply_items]; exact hrest)⟩

namespace Doc

theorem applyOps_of_fits {ops : List (FatOp Op)} {self : Doc}
    (h : Fits (ops.map FatOp.op) self.engine.internalDoc self.buffer) :
    ∃ instrs internalDoc buffer,
      InternalDoc.convertAll (ops.map FatOp.op) self.engine.internalDoc =
        some (instrs, internalDoc) ∧
      runInstructions instrs self.buffer = some buffer ∧
      applyOps ops self = some (.ok (), self.setText internalDoc buffer) := by
  induction ops generalizing self with
  | nil => exact ⟨[], _, _, rfl, rfl, rfl⟩
  | cons op ops ih =>
      obtain ⟨instr, doc, text, hconv, happly, hlen, hrest⟩ := h
      have hrest : Fits (ops.map FatOp.op) (self.setText doc text).engine.internalDoc
          (self.setText doc text).buffer := hrest
      obtain ⟨instrs, internalDoc, buffer, hconvs, hrun, happlies⟩ := ih hrest
      have hone : self.applyOp op = some (.ok (), self.setText doc text) := by
        have hcheck : checkLen doc.editorLen text.length = .ok () := checkLen_ok.mpr hlen
        simp [applyOp, ServerEngine.convertInternalOpAndApply, hconv, happly,
          ServerEngine.editorLen, hcheck, setText]
      refine ⟨instr :: instrs, internalDoc, buffer, ?_, ?_, ?_⟩
      · have hconvs : InternalDoc.convertAll (ops.map FatOp.op) doc =
            some (instrs, internalDoc) := hconvs
        simp [InternalDoc.convertAll, hconv, hconvs]
      · have hrun : runInstructions instrs text = some buffer := hrun
        simp [runInstructions, happly, hrun]
      · simp only [applyOps, hone, Option.bind_eq_bind, Option.bind_some]
        exact happlies

theorem fits_of_applyOps {ops : List (FatOp Op)} {self self' : Doc} {u : Unit}
    (h : applyOps ops self = some (.ok u, self')) :
    Fits (ops.map FatOp.op) self.engine.internalDoc self.buffer := by
  induction ops generalizing self with
  | nil => trivial
  | cons op ops ih =>
      simp only [applyOps, applyOp, ServerEngine.convertInternalOpAndApply, Option.bind_eq_bind,
        Option.bind_eq_some_iff] at h
      obtain ⟨⟨res, self₁⟩, ⟨_, ⟨⟨instr, doc⟩, hconv, heq⟩, ⟨res', buffer⟩, happly, h₁⟩, h⟩ := h
      cases heq
      cases res' with
      | error err => cases h₁; cases h
      | ok u' =>
          cases h₁
          dsimp only at h
          split at h
          next => cases h
          next hcheck => exact ⟨instr, doc, buffer, hconv, happly, checkLen_ok.mp hcheck, ih h⟩

/-- Applying leaves the history alone. -/
theorem gh_of_applyOps {ops : List (FatOp Op)} {self self' : Doc} {res : Except CollabError Unit}
    (h : applyOps ops self = some (res, self')) : self'.engine.gh = self.engine.gh := by
  induction ops generalizing self with
  | nil => cases h; rfl
  | cons op ops ih =>
      simp only [applyOps, applyOp, ServerEngine.convertInternalOpAndApply, Option.bind_eq_bind,
        Option.bind_eq_some_iff] at h
      obtain ⟨⟨res, self₁⟩, ⟨_, ⟨⟨instr, doc⟩, hconv, heq⟩, ⟨res', buffer⟩, happly, h₁⟩, h⟩ := h
      cases heq
      cases res' with
      | error err' => cases h₁; cases h; rfl
      | ok u' =>
          cases h₁
          dsimp only at h
          split at h
          next => cases h; rfl
          next => exact (ih h :)

end Doc

/-- The message says that a batch was refused. -/
def Msg.refuses : Msg → Bool
  | .permissionDenied _ => true
  | .badRequest _ => true
  | .docFatal _ _ => true
  | _ => false

def Effect.refuses : Effect → Bool
  | .send _ _ msg => msg.refuses
  | _ => false

def Effect.broadcasts : Effect → Bool
  | .send _ _ (.opFromServer _ _) => true
  | _ => false

namespace Server

/-- A check refuses the batch. -/
def Refuses (self : Server) (contextOps : ContextOps) (host : ServerId) : Prop :=
  self.config.writeAllowed host = false ∨
    ∀ doc lastSeq, self.doc? contextOps.doc = some doc →
      AssocMap.get doc.subscribers host = some lastSeq →
        ∃ op, contextOps.ops.head? = some op ∧ op.siteSeq ≠ lastSeq + 1

/-- What a batch that passed the checks finds. -/
structure Passes (before : Server) (contextOps : ContextOps) (host : ServerId) (doc : DocEntry)
    (lastSeq : LocalSeq) : Prop where
  get : before.doc? contextOps.doc = some doc
  subscribed : AssocMap.get doc.subscribers host = some lastSeq
  first : ∀ op, contextOps.ops.head? = some op → op.siteSeq = lastSeq + 1

theorem Passes.not_refuses {self : Server} {contextOps : ContextOps} {host : ServerId}
    {doc : DocEntry} {lastSeq : LocalSeq} (h : self.Passes contextOps host doc lastSeq)
    (hallowed : self.config.writeAllowed host = true) : ¬self.Refuses contextOps host := by
  rintro (hdenied | hrefused)
  · rw [hallowed] at hdenied
    cases hdenied
  · obtain ⟨op, hop, hne⟩ := hrefused doc lastSeq h.get h.subscribed
    exact hne (h.first op hop)

/-- The batch is refused with a message, or goes on. -/
theorem handleOpFromClient_cases (self : Server) (reqId : Option RequestId)
    (contextOps : ContextOps) (host : ServerId) :
    (self.Refuses contextOps host ∧ ∃ msg : Msg, msg.refuses = true ∧
      (∀ d, msg.told? = some d → d = contextOps.doc) ∧
      self.handleOpFromClient reqId contextOps host =
        some (.ok (), self, [.send host reqId msg])) ∨
    (self.config.writeAllowed host = true ∧ ∃ doc lastSeq,
      self.Passes contextOps host doc lastSeq ∧
      self.handleOpFromClient reqId contextOps host =
        self.acceptOps reqId contextOps.doc doc contextOps host) := by
  unfold handleOpFromClient
  dsimp only
  cases hallowed : self.config.writeAllowed host with
  | false => exact .inl ⟨.inl hallowed, .permissionDenied _, rfl, (fun _ hd => by cases hd), rfl⟩
  | true =>
      simp only [Bool.not_true, Bool.false_eq_true, if_false]
      cases hdoc : self.doc? contextOps.doc with
      | none =>
          refine .inl ⟨.inr fun doc _ h => ?_, .badRequest _, rfl, (fun _ hd => by cases hd), rfl⟩
          rw [hdoc] at h
          cases h
      | some doc =>
          dsimp only
          cases hsub : AssocMap.get doc.subscribers host with
          | none =>
              refine .inl ⟨.inr fun doc' _ h hsub' => ?_, .badRequest _, rfl,
                (fun _ hd => by cases hd), rfl⟩
              cases hdoc.symm.trans h
              rw [hsub] at hsub'
              cases hsub'
          | some lastSeq =>
              dsimp only
              cases hhead : contextOps.ops.head? with
              | none =>
                  refine .inr ⟨trivial, doc, lastSeq, ⟨hdoc, hsub, ?_⟩, rfl⟩
                  simp [hhead]
              | some op =>
                  dsimp only
                  split
                  next hne =>
                      refine .inl ⟨.inr fun doc' lastSeq' h hsub' => ⟨op, hhead, ?_⟩,
                        .docFatal _ _, rfl, fun d hd => (Option.some.inj hd).symm, rfl⟩
                      cases hdoc.symm.trans h
                      cases hsub.symm.trans hsub'
                      exact hne
                  next heq =>
                      refine .inr ⟨trivial, doc, lastSeq, ⟨hdoc, hsub, fun op' hop => ?_⟩, rfl⟩
                      cases hhead.symm.trans hop
                      exact not_not.mp heq

/-- The document with the batch in its history, before it is applied. -/
def recorded (doc : Doc) (contextOps : ContextOps) (host : ServerId) : Doc :=
  { doc.append (doc.ordered contextOps.ops contextOps.context) with
    subscribers :=
      match contextOps.ops.getLast? with
      | some lastOp => AssocMap.insert doc.subscribers host lastOp.siteSeq
      | none => doc.subscribers }

theorem acceptOps_eq (self : Server) (reqId : Option RequestId) (docId : DocId) (doc : DocEntry)
    (contextOps : ContextOps) (host : ServerId) :
    self.acceptOps reqId docId doc contextOps host =
      (Doc.applyOps (doc.ordered contextOps.ops contextOps.context)
        (recorded doc.toDoc contextOps host)).map fun (res, applied) =>
          (res, self.setDoc docId { doc with toDoc := applied },
            match res with
            | .error _ => []
            | .ok () =>
                broadcastOps applied reqId docId
                  (doc.ordered contextOps.ops contextOps.context)) := by
  simp only [acceptOps, Doc.processOps_eq]
  show (Doc.applyOps _ (recorded doc.toDoc contextOps host)).bind _ = _
  cases Doc.applyOps _ (recorded doc.toDoc contextOps host) with
  | none => rfl
  | some r =>
      obtain ⟨res, applied⟩ := r
      cases res <;> rfl

/-! ## All or nothing -/

/-- What the sender sees of a document. -/
def facing (host : ServerId) (doc : DocEntry) : ServerEngine × Text × Option LocalSeq :=
  (doc.engine, doc.buffer, AssocMap.get doc.subscribers host)

/-- The handler did nothing, or all of it. -/
structure AllOrNothing (before : Server) (reqId : Option RequestId) (contextOps : ContextOps)
    (host : ServerId) (res : Except CollabError Unit) (after : Server)
    (effects : List Effect) : Prop where
  /-- A refusal and an error leave everything as it was. -/
  nothing : (∃ e ∈ effects, e.refuses = true) ∨ (∃ err, res = .error err) →
    (after.doc? contextOps.doc).map (facing host) =
        (before.doc? contextOps.doc).map (facing host) ∧
      ∀ e ∈ effects, e.broadcasts = false
  /-- What is recorded is applied and sent to all subscribers. -/
  all : ∀ doc doc', before.doc? contextOps.doc = some doc →
    after.doc? contextOps.doc = some doc' → ∃ new,
      doc'.engine.gh.global = doc.engine.gh.global ++ new ∧
      (new ≠ [] →
        (∃ instrs, InternalDoc.convertAll (new.map FatOp.op) doc.engine.internalDoc =
            some (instrs, doc'.engine.internalDoc) ∧
          runInstructions instrs doc.buffer = some doc'.buffer) ∧
        ∀ subscriber ∈ AssocMap.keys doc'.subscribers,
          .send subscriber reqId (.opFromServer contextOps.doc new) ∈ effects)

/-- The batch is handled, all of it or nothing. -/
def Atomic (self : Server) (reqId : Option RequestId) (contextOps : ContextOps)
    (host : ServerId) : Prop :=
  ∃ res after effects,
    self.handleOpFromClient reqId contextOps host = some (res, after, effects) ∧
    AllOrNothing self reqId contextOps host res after effects

/-- A check refuses the batch, or its ops fit the document. -/
def RefusesOrFits (self : Server) (contextOps : ContextOps) (host : ServerId) : Prop :=
  self.Refuses contextOps host ∨
    ∀ doc, self.doc? contextOps.doc = some doc →
      Fits ((doc.ordered contextOps.ops contextOps.context).map FatOp.op)
        doc.engine.internalDoc doc.buffer

/-- A batch is handled atomically when and only when it is refused, or its ops, carried
past those that the host has ordered since its context, can be applied. -/
theorem atomic_iff (self : Server) (reqId : Option RequestId) (contextOps : ContextOps)
    (host : ServerId) :
    self.Atomic reqId contextOps host ↔ self.RefusesOrFits contextOps host := by
  rcases self.handleOpFromClient_cases reqId contextOps host with
    ⟨hrefuses, msg, hmsg, _, hhandle⟩ | ⟨hallowed, doc, lastSeq, hpasses, hhandle⟩
  · refine iff_of_true ⟨_, _, _, hhandle, ?_, ?_⟩ (.inl hrefuses)
    · refine fun _ => ⟨rfl, fun e he => ?_⟩
      cases List.mem_singleton.mp he
      cases msg <;> first | rfl | cases hmsg
    · intro doc doc' hget hget'
      cases hget.symm.trans hget'
      exact ⟨[], (List.append_nil _).symm, fun hne => absurd rfl hne⟩
  · rw [acceptOps_eq] at hhandle
    constructor
    · rintro ⟨res, after, effects, hrun, hall⟩
      refine .inr fun doc' hget => ?_
      cases hpasses.get.symm.trans hget
      rw [hhandle] at hrun
      obtain ⟨⟨res', applied⟩, happly, heq⟩ := Option.map_eq_some_iff.mp hrun
      cases heq
      cases res with
      | ok u => exact (Doc.fits_of_applyOps happly :)
      | error err =>
          -- The batch is in the history, so the document is not what it was.
          have hsame := (hall.nothing (.inr ⟨err, rfl⟩)).1
          rw [doc?_setDoc, if_pos rfl, hpasses.get, Option.map_some, Option.map_some] at hsame
          have hgh : applied.engine.gh = doc.engine.gh :=
            congrArg (fun x => x.1.gh) (Option.some.inj hsame)
          have hglobal := congrArg GlobalHistory.global ((Doc.gh_of_applyOps happly).symm.trans hgh)
          have hnil : doc.ordered contextOps.ops contextOps.context = [] :=
            List.append_right_eq_self.mp hglobal
          rw [hnil] at happly
          cases happly
    · rintro (hrefuses | hfits)
      · exact absurd hrefuses (hpasses.not_refuses hallowed)
      · have hfits : Fits ((doc.ordered contextOps.ops contextOps.context).map FatOp.op)
            (recorded doc.toDoc contextOps host).engine.internalDoc
            (recorded doc.toDoc contextOps host).buffer := hfits doc hpasses.get
        obtain ⟨instrs, internalDoc, buffer, hconv, hrun, happly⟩ := Doc.applyOps_of_fits hfits
        rw [happly] at hhandle
        refine ⟨_, _, _, hhandle, ?_, ?_⟩
        · rintro (⟨e, he, hrefuses⟩ | ⟨err, herr⟩)
          · obtain ⟨_, _, rfl⟩ := List.mem_map.mp he
            cases hrefuses
          · cases herr
        · intro old new hold hnew
          cases hpasses.get.symm.trans hold
          rw [doc?_setDoc, if_pos rfl] at hnew
          cases hnew
          refine ⟨doc.ordered contextOps.ops contextOps.context, rfl,
            fun _ => ⟨⟨instrs, hconv, hrun⟩, ?_⟩⟩
          intro subscriber hsub
          exact List.mem_map.mpr ⟨subscriber, hsub, rfl⟩

/-- A host that shares `abc` with a peer. -/
def serving : Server := ((sharing ['a', 'b', 'c']).1.handleRequestOps none 1 0 5).1

theorem serving_reachable : serving.Reachable :=
  ⟨0, _, WorldState.new,
    [(Os.bare, .request 1 (.shareFile ['a'] ['a', 'b', 'c'])),
      (Os.bare, .message { host := 5, body := .requestOps 1 0, reqId := none })], rfl⟩

/-- A deletion that has one character twice. -/
def twiceDeleted : ContextOps :=
  { context := 0, doc := 1
    ops := [{ seq := none, op := .mark [(0, ['a']), (0, ['a'])] false 1, siteSeq := 1
              kind := .original, groupSeq := 0 }] }

/-- The deletion stays in the history, and nobody hears of it. -/
theorem not_atomic :
    serving.Reachable ∧
      (serving.handleOpFromClient none twiceDeleted 5).map
          (fun turn => (turn.1, turn.2.2)) =
        some (.error (.docFatal "Engine editor_len 2 doesn't match buffer len 1"), []) ∧
      (serving.handleOpFromClient none twiceDeleted 5).map
          (fun turn => (turn.2.1.doc? 1).map fun doc => doc.engine.gh.global.length) =
        some (some 1) ∧
      ¬serving.Atomic none twiceDeleted 5 := by
  refine ⟨serving_reachable, by decide, by decide, ?_⟩
  rintro ⟨res, after, effects, hhandle, hall⟩
  have hres : res = .error (.docFatal "Engine editor_len 2 doesn't match buffer len 1") := by
    have hrun : (serving.handleOpFromClient none twiceDeleted 5).map Prod.fst =
        some (.error (.docFatal "Engine editor_len 2 doesn't match buffer len 1")) := by decide
    rw [hhandle] at hrun
    exact Option.some.inj hrun
  have hlen : (after.doc? 1).map (fun doc => doc.engine.gh.global.length) = some 1 := by
    have hrun : (serving.handleOpFromClient none twiceDeleted 5).map
        (fun turn => (turn.2.1.doc? 1).map fun doc => doc.engine.gh.global.length) =
          some (some 1) := by decide
    rw [hhandle] at hrun
    exact Option.some.inj hrun
  have hsame := congrArg (Option.map fun x => x.1.gh.global.length)
    (hall.nothing (.inr ⟨_, hres⟩)).1
  rw [Option.map_map, Option.map_map] at hsame
  exact absurd (hlen.symm.trans hsame) (by decide)

/-- On a document in order, with ops that are valid there, the handler is atomic. -/
theorem refusesOrFits_of_valid {self : Server} {contextOps : ContextOps} {host : ServerId}
    (h : ∀ doc, self.doc? contextOps.doc = some doc → ∃ d, doc.toDoc.Shows d ∧
      AllValid d.items ((doc.ordered contextOps.ops contextOps.context).map FatOp.op)) :
    self.RefusesOrFits contextOps host := by
  refine .inr fun doc hget => ?_
  obtain ⟨d, hshows, hvalid⟩ := h doc hget
  exact hshows.fits hvalid

end Server

end CollabMode
