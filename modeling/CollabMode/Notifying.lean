import CollabMode.Following
import CollabMode.Lib.Run

/-!
# Telling the editor of ops

A peer keeps the ops of a batch that are next in turn and tells its editor once for the whole
batch.  It looks at the site of the first op only.  A batch that was put together from the
history may begin with an op of the peer itself and go on with ops of others, and of those the
editor hears nothing (`Hides`).
-/

namespace CollabMode

namespace RemoteDoc

/-- The ops of a batch that are next in turn, when the peer has the ops up to `held`. -/
def inTurn : GlobalSeq → List (FatOp Op) → List (FatOp Op)
  | _, [] => []
  | held, op :: ops =>
      if op.seq = some (held + 1) then op :: inTurn (held + 1) ops else inTurn held ops

/-- A batch has an op without a number, or its ops that are next in turn are kept. -/
theorem keepServerOps_inTurn (ops : List (FatOp Op)) (self : RemoteDoc) :
    (keepServerOps ops self).1 = decide (∀ op ∈ ops, op.seq ≠ none) ∧
      ((∀ op ∈ ops, op.seq ≠ none) →
        (keepServerOps ops self).2.2 =
          { self with remoteOpBuffer := self.remoteOpBuffer ++ inTurn self.held ops }) := by
  induction ops generalizing self with
  | nil => simp [keepServerOps, inTurn]
  | cons op ops ih =>
      cases hseq : op.seq with
      | none => simp [keepServerOps, hseq]
      | some gseq =>
          simp only [keepServerOps, inTurn, hseq, List.forall_mem_cons, ne_eq, reduceCtorEq,
            not_false_eq_true, true_and, Option.some.injEq]
          have hexpected : self.expectedGseq = self.held + 1 := rfl
          rw [hexpected]
          split
          next hlt =>
              rw [if_neg (Nat.ne_of_lt hlt)]
              exact ih self
          next hge =>
              split
              next hgt =>
                  rw [if_neg (Nat.ne_of_gt hgt)]
                  exact ih self
              next hle =>
                  rw [if_pos (Nat.le_antisymm (Nat.le_of_not_lt hle) (Nat.le_of_not_lt hge))]
                  have hkept := ih { self with remoteOpBuffer := self.remoteOpBuffer ++ [op] }
                  refine ⟨hkept.1, fun hall => ?_⟩
                  rw [hkept.2 hall]
                  simp [held, Nat.add_assoc]

/-- The last op that is next in turn has a number. -/
theorem inTurn_numbered {held : GlobalSeq} {ops : List (FatOp Op)} {op : FatOp Op}
    (h : op ∈ inTurn held ops) : op ∈ ops ∧ op.seq ≠ none := by
  induction ops generalizing held with
  | nil => cases h
  | cons first ops ih =>
      simp only [inTurn] at h
      split at h
      next hseq =>
          rcases List.mem_cons.mp h with rfl | h
          · exact ⟨List.mem_cons_self, by rw [hseq]; exact Option.some_ne_none _⟩
          · exact ⟨List.mem_cons_of_mem _ (ih h).1, (ih h).2⟩
      next => exact ⟨List.mem_cons_of_mem _ (ih h).1, (ih h).2⟩

end RemoteDoc

namespace Server

/-- When handling the batch adds ops of other sites to the document, the editor is told, with
the number of the last op that is kept. -/
def TellsOfOps (self : Server) (turn : Os × Event) : Prop :=
  ∀ reqId docId ops host, turn.2 = .message { host, body := .opFromServer docId ops, reqId } →
    ∀ after effects, self.handle turn.1 turn.2 = some (after, effects) →
      ∀ old new added, self.remoteDocs.get host docId = some old →
        after.remoteDocs.get host docId = some new →
        new.remoteOpBuffer = old.remoteOpBuffer ++ added →
        (∃ op ∈ added, op.site ≠ old.engine.site) →
        ∃ op lastSeq, new.remoteOpBuffer.getLast? = some op ∧ op.seq = some lastSeq ∧
          .notif (.remoteOpsArrived (EditorFileDesc.new old.fileDesc host) lastSeq) ∈ effects

/-- A batch of numbered ops begins with an op of the peer, and an op of another site is next
in turn when it comes up. -/
def Hides (self : Server) (turn : Os × Event) : Prop :=
  ∃ reqId docId op ops host old,
    turn.2 = .message { host, body := .opFromServer docId (op :: ops), reqId } ∧
    self.remoteDocs.get host docId = some old ∧
    (∀ op' ∈ op :: ops, op'.seq ≠ none) ∧ op.site = old.engine.site ∧
    ∃ op' ∈ RemoteDoc.inTurn old.held (op :: ops), op'.site ≠ old.engine.site

/-- What handling a batch does to the document, when all its ops have numbers. -/
theorem handleOpFromServer_numbered {self after : Server} {reqId : Option RequestId}
    {docId : DocId} {op : FatOp Op} {ops : List (FatOp Op)} {host : ServerId}
    {effects : List Effect} {old : RemoteDocEntry}
    (h : self.handleOpFromServer reqId docId (op :: ops) host = (after, effects))
    (hold : self.remoteDocs.get host docId = some old)
    (hnumbers : ∀ op' ∈ op :: ops, op'.seq ≠ none) :
    ∃ (new : RemoteDocEntry) (asked : List GlobalSeq), after.remoteDocs.get host docId = some new ∧
      new.remoteOpBuffer = old.remoteOpBuffer ++ RemoteDoc.inTurn old.held (op :: ops) ∧
      effects = asked.map (fun n => .send host reqId (.requestOps docId n)) ++
        match new.remoteOpBuffer.getLast?.bind FatOp.seq with
        | some lastSeq =>
            if op.site ≠ old.engine.site ∧ RemoteDoc.inTurn old.held (op :: ops) ≠ [] then
              [.notif (.remoteOpsArrived (EditorFileDesc.new old.fileDesc host) lastSeq)]
            else []
        | none => [] := by
  have hkeep := RemoteDoc.keepServerOps_inTurn (op :: ops) old.toRemoteDoc
  cases hcall : RemoteDoc.keepServerOps (op :: ops) old.toRemoteDoc with
  | mk numbered rest =>
      obtain ⟨asked, doc⟩ := rest
      rw [hcall] at hkeep
      obtain ⟨hnumbered, hdoc⟩ := hkeep
      have hnumbered : numbered = true := hnumbered.trans (decide_eq_true hnumbers)
      have hdoc : doc = { old.toRemoteDoc with remoteOpBuffer :=
          old.remoteOpBuffer ++ RemoteDoc.inTurn old.held (op :: ops) } := hdoc hnumbers
      simp only [handleOpFromServer, hold, hcall, hnumbered, Bool.not_true, Bool.false_eq_true,
        if_false] at h
      cases h
      refine ⟨{ old with toRemoteDoc := doc }, asked, AssocMap.get_insert_self _ _ _, ?_, ?_⟩
      · rw [hdoc]
      · have hgrew : doc.remoteOpBuffer.length > old.remoteOpBuffer.length ↔
            RemoteDoc.inTurn old.held (op :: ops) ≠ [] := by
          rw [hdoc, ← List.length_pos_iff]
          simp only [List.length_append]
          omega
        congr 1
        split
        next lastSeq hlast =>
            simp only [hlast, Bool.and_eq_true, bne_iff_ne, decide_eq_true_eq, hgrew]
        next hlast => simp only [hlast]

/-- An op without a number ends the document. -/
theorem handleOpFromServer_unnumbered {self after : Server} {reqId : Option RequestId}
    {docId : DocId} {ops : List (FatOp Op)} {host : ServerId}
    {effects : List Effect} {old : RemoteDocEntry}
    (h : self.handleOpFromServer reqId docId ops host = (after, effects))
    (hold : self.remoteDocs.get host docId = some old)
    (hnumbers : ¬∀ op ∈ ops, op.seq ≠ none) : after.remoteDocs.get host docId = none := by
  cases ops with
  | nil => simp at hnumbers
  | cons op ops =>
      have hkeep := (RemoteDoc.keepServerOps_inTurn (op :: ops) old.toRemoteDoc).1
      rw [decide_eq_false hnumbers] at hkeep
      simp only [handleOpFromServer, hold, hkeep, Bool.not_false, if_true] at h
      cases h
      rw [RemoteDocs.get_remove, if_pos rfl]

theorem not_tellsOfOps {self : Server} {turn : Os × Event} (h : self.Hides turn) :
    ¬self.TellsOfOps turn := by
  obtain ⟨reqId, docId, op, ops, host, old, hturn, hold, hnumbers, hown, hforeign⟩ := h
  intro htells
  cases hcall : self.handleOpFromServer reqId docId (op :: ops) host with
  | mk after effects =>
      obtain ⟨new, asked, hnew, hbuffer, heffects⟩ :=
        handleOpFromServer_numbered hcall hold hnumbers
      have hhandle : self.handle turn.1 turn.2 = some (after, effects) := by
        rw [hturn]
        exact congrArg some hcall
      obtain ⟨_, lastSeq, _, _, hmem⟩ :=
        htells reqId docId (op :: ops) host hturn _ _ hhandle old new _ hold hnew hbuffer hforeign
      rw [heffects] at hmem
      rcases List.mem_append.mp hmem with hmem | hmem
      · simp at hmem
      · rw [hown] at hmem
        split at hmem <;> simp at hmem

theorem tellsOfOps_of_not {self : Server} {turn : Os × Event} (h : ¬self.Hides turn) :
    self.TellsOfOps turn := by
  intro reqId docId ops host hturn after effects hhandle old new added hold hnew hbuffer hforeign
  rw [hturn] at hhandle
  have hcall : self.handleOpFromServer reqId docId ops host = (after, effects) :=
    Option.some.inj hhandle
  cases ops with
  | nil =>
      cases hcall
      rw [hold] at hnew
      cases hnew
      rw [List.self_eq_append_right.mp hbuffer] at hforeign
      simp at hforeign
  | cons op ops =>
      have hnumbers : ∀ op' ∈ op :: ops, op'.seq ≠ none := by
        by_contra hnone
        rw [handleOpFromServer_unnumbered hcall hold hnone] at hnew
        cases hnew
      obtain ⟨new', asked, hnew', hbuffer', rfl⟩ :=
        handleOpFromServer_numbered hcall hold hnumbers
      obtain rfl := Option.some.inj (hnew'.symm.trans hnew)
      obtain rfl := List.append_cancel_left (hbuffer.symm.trans hbuffer')
      have hsite : op.site ≠ old.engine.site := fun hown =>
        h ⟨reqId, docId, op, ops, host, old, hturn, hold, hnumbers, hown, hforeign⟩
      have hne : RemoteDoc.inTurn old.held (op :: ops) ≠ [] := by
        rintro hnil
        rw [hnil] at hforeign
        simp at hforeign
      -- The last op that is kept is one of the batch.
      have hlast := List.getLast?_eq_some_getLast hne
      have hbufferLast : new'.remoteOpBuffer.getLast? =
          some ((RemoteDoc.inTurn old.held (op :: ops)).getLast hne) := by
        rw [hbuffer', List.getLast?_append, hlast, Option.some_or]
      obtain ⟨lastSeq, hseq⟩ := Option.ne_none_iff_exists'.mp
        (RemoteDoc.inTurn_numbered (List.getLast_mem hne)).2
      refine ⟨_, lastSeq, hbufferLast, hseq, List.mem_append_right _ ?_⟩
      rw [hbufferLast, Option.bind_some, hseq]
      simp [hsite, hne]

/-- In a run with any events the editor is told of every batch, as long as no batch hides
ops. -/
theorem tellsOfOps_iff (self : Server) (turns : List (Os × Event)) :
    Run.Meets step TellsOfOps self turns ↔
      Run.Meets step (fun server turn => ¬server.Hides turn) self turns := by
  constructor
  · exact Run.Meets.mono fun server turn h hhides => not_tellsOfOps hhides h
  · exact Run.Meets.mono fun server turn h => tellsOfOps_of_not h

/-- The editor of site 1 inserts a text, and the peer does not hear of it again.  It asks for
ops, and gets its own and one of site 2. -/
def ownFirst : List (Os × Event) :=
  [(Os.bare, .request 2 (.sendOps [{ op := .ins 0 ['b'], groupSeq := 0 }] followed)),
    (Os.bare, .message
      { host := 7
        body := .opFromServer 3
          [{ seq := some 1, op := .ins (0, ['b']) 1, siteSeq := 1, kind := .original,
              groupSeq := 0 },
            { seq := some 2, op := .ins (0, ['c']) 2, siteSeq := 1, kind := .original
              groupSeq := 0 }]
        reqId := none })]

theorem not_tellsOfOps_ownFirst : ¬Run.Meets step TellsOfOps following ownFirst := by
  intro h
  obtain ⟨edited, hedited⟩ : ∃ edited, step following ownFirst[0] = some edited := ⟨_, rfl⟩
  refine not_tellsOfOps ?_ (h.2 edited hedited).1
  cases hedited
  exact ⟨none, 3, _, _, 7, _, rfl, rfl, by decide, by decide, by decide⟩

end Server

end CollabMode
