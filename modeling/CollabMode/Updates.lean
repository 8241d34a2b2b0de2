import CollabMode.Embedding
import CollabMode.Lib.CatchUp

/-!
# No update is missed for good

A host sends every new op to the subscribers of a document, and a client that finds a gap asks for
the ops after those it holds.  So the history of the document is a log, and the copy is a reader
that catches up with it (`Network.log`).  What the servers do are steps of such a reader, as long
as a batch or a change of the file that is recorded is also applied.

The messages with ops may be late and in any order, and be lost as long as another one on its way
goes as far (`NotCutOff`).
-/

namespace CollabMode

/-! ## Messages of the log -/

/-- What the client of a document asks for. -/
def Msg.request? (d : DocId) : Msg → Option CatchUp.Request
  | .requestOps doc since => if doc = d then some (.ask since) else none
  | .stopSendingOps doc => if doc = d then some .stop else none
  | _ => none

/-- The number of the last op of a message to the clients of a document. -/
def Msg.top? (d : DocId) : Msg → Option Nat
  | .opFromServer doc ops => if doc = d then ops.getLast?.bind FatOp.seq else none
  | _ => none

@[simp] theorem Msg.request?_requestOps (d : DocId) (since : GlobalSeq) :
    (Msg.requestOps d since).request? d = some (.ask since) := if_pos rfl

@[simp] theorem Msg.request?_stopSendingOps (d : DocId) :
    (Msg.stopSendingOps d).request? d = some .stop := if_pos rfl

theorem Msg.asked?_of_request? {d : DocId} {msg : Msg} {request : CatchUp.Request}
    (h : msg.request? d = some request) : msg.asked? = some d := by
  cases msg with
  | requestOps | stopSendingOps =>
      rw [request?, Option.ite_none_right_eq_some] at h
      exact congrArg some h.1
  | _ => cases h

theorem Msg.of_top? {d : DocId} {msg : Msg} {top : Nat} (h : msg.top? d = some top) :
    ∃ ops op, msg = .opFromServer d ops ∧ ops.getLast? = some op ∧ op.seq = some top := by
  cases msg with
  | opFromServer doc ops =>
      rw [top?, Option.ite_none_right_eq_some] at h
      obtain ⟨rfl, h⟩ := h
      obtain ⟨op, hop, hseq⟩ := Option.bind_eq_some_iff.mp h
      exact ⟨ops, op, rfl, hop, hseq⟩
  | _ => cases h

theorem Msg.told?_of_top? {d : DocId} {msg : Msg} {top : Nat} (h : msg.top? d = some top) :
    msg.told? = some d := by
  obtain ⟨ops, op, rfl, -⟩ := Msg.of_top? h
  rfl

/-- A piece of the history goes as far as its last op. -/
theorem top_of_piece {history ops : List (FatOp Op)} (hh : IsHistory history) {i : Nat}
    (hops : ops <+: history.drop i) {op : FatOp Op} (hlast : ops.getLast? = some op) :
    op.seq = some (i + ops.length) ∧ i + ops.length ≤ history.length := by
  obtain ⟨init, rfl⟩ := List.getLast?_eq_some_iff.mp hlast
  have hget : history[i + init.length]? = some op := by
    rw [← List.getElem?_drop, drop_of_prefix hops, List.append_assoc, List.getElem?_append_right
      (Nat.le_refl _), Nat.sub_self]
    rfl
  rw [List.length_append, List.length_singleton, ← Nat.add_assoc]
  exact ⟨hh _ _ hget, (List.getElem?_eq_some_iff.mp hget).1⟩

theorem Msg.Tells.top_le {d : DocId} {history : List (FatOp Op)} (hh : IsHistory history)
    {msg : Msg} (h : msg.Tells d history) {top : Nat} (htop : msg.top? d = some top) :
    top ≤ history.length := by
  obtain ⟨ops, op, rfl, hlast, hseq⟩ := Msg.of_top? htop
  obtain ⟨i, hi⟩ := h rfl
  obtain ⟨hseq', hle⟩ := top_of_piece hh hi hlast
  rw [hseq, Option.some_inj] at hseq'
  exact hseq' ▸ hle

/-! ## What a copy holds -/

namespace RemoteDoc

variable {history : List (FatOp Op)} {self doc : RemoteDoc}

theorem Replicates.held_le (h : self.Replicates history) : self.held ≤ history.length := by
  have hlen := h.inOrder.length_le
  rw [List.length_drop] at hlen
  rw [held, Nat.add_comm]
  exact Nat.add_le_of_le_sub h.engine.le hlen

/-- A piece of the history is kept to its end, or the ops after those that are held are asked
for. -/
theorem reads_of_keepServerOps (hh : IsHistory history) {ops : List (FatOp Op)} {i : Nat}
    (hops : ops <+: history.drop i) (h : self.InOrder history) {numbered : Bool}
    {asks : List GlobalSeq} (hkeeps : keepServerOps ops self = (numbered, asks, doc)) :
    self.held ≤ doc.held ∧ (∀ since ∈ asks, since ≤ doc.held) ∧
      (ops ≠ [] → i + ops.length ≤ doc.held ∨ asks ≠ []) := by
  induction ops generalizing self i numbered asks with
  | nil =>
      cases hkeeps
      exact ⟨Nat.le_refl _, nofun, absurd rfl⟩
  | cons op ops ih =>
      obtain ⟨hget, hrest⟩ := cons_prefix_drop hops
      have hseq := hh i op hget
      -- The rest of the piece, when the op itself is held.
      have hrest {held : Nat} (hheld : i + 1 ≤ held) {asks : List GlobalSeq}
          (hle : held ≤ doc.held) (hreads : ops ≠ [] → i + 1 + ops.length ≤ doc.held ∨
            asks ≠ []) : i + (op :: ops).length ≤ doc.held ∨ asks ≠ [] := by
        by_cases hnil : ops = []
        · subst hnil
          exact .inl (hheld.trans hle)
        · refine (hreads hnil).imp_left fun hread => ?_
          rw [List.length_cons]
          omega
      simp only [keepServerOps, hseq] at hkeeps
      split at hkeeps
      next hlt =>
          obtain ⟨hle, hcovers, hreads⟩ := ih ‹_› h hkeeps
          exact ⟨hle, hcovers, fun _ => hrest (Nat.le_of_lt_succ hlt) hle hreads⟩
      next hge =>
          split at hkeeps
          next =>
              generalize hkeep : keepServerOps ops self = kept at hkeeps
              obtain ⟨numbered, asked, kept⟩ := kept
              cases hkeeps
              obtain ⟨hle, hcovers, -⟩ := ih ‹_› h hkeep
              exact ⟨hle, List.forall_mem_cons.mpr ⟨hle, hcovers⟩, fun _ =>
                .inr (List.cons_ne_nil _ _)⟩
          next hle =>
              have hnext : i = self.held := by
                have hge : ¬i + 1 < self.held + 1 := hge
                have hle : ¬i + 1 > self.held + 1 := hle
                omega
              let kept : RemoteDoc := { self with remoteOpBuffer := self.remoteOpBuffer ++ [op] }
              have hpush : kept.InOrder history :=
                prefix_snoc h (by rw [← hget, hnext]; rfl)
              have hheld : kept.held = self.held + 1 := by
                show _ + (self.remoteOpBuffer ++ [op]).length = _
                rw [List.length_append]
                rfl
              obtain ⟨hle, hcovers, hreads⟩ := ih ‹_› hpush hkeeps
              rw [hheld] at hle
              exact ⟨(Nat.le_succ _).trans hle, hcovers, fun _ =>
                hrest (Nat.le_of_eq (congrArg (· + 1) hnext)) hle hreads⟩

theorem held_of_sendOps {docId : DocId} {ops : List EditorFatOp}
    {r : List EditorLeanOp × Option ContextOps} (h : self.sendOps docId ops = some (.ok r, doc)) :
    doc.held = self.held := by
  obtain ⟨-, hseq, hbuffer⟩ := sendOps_ok h
  rw [held, hseq, hbuffer]
  rfl

end RemoteDoc

/-! ## The host -/

/-- What a client asks for with the message. -/
def Event.request? (p : ServerId) (d : DocId) : Event → Option CatchUp.Request
  | .message msg => if msg.host = p then msg.body.request? d else none
  | _ => none

/-- A message with ops, by the number of its last op. -/
def Event.top? (h : ServerId) (d : DocId) : Event → Option Nat
  | .message msg => if msg.host = h then msg.body.top? d else none
  | _ => none

theorem Event.request?_of_unasked {p : ServerId} {d : DocId} {event : Event}
    (h : event.asks d = false) : event.request? p d = none := by
  cases event with
  | message msg =>
      cases hrequest : msg.body.request? d with
      | none => simp [request?, hrequest]
      | some request => simp [asks, Msg.asked?_of_request? hrequest] at h
  | _ => rfl

/-- The messages with ops that a client is sent, each by the number of its last op. -/
def tops (p : ServerId) (d : DocId) (sent : List (ServerId × Msg)) : List Nat :=
  sent.filterMap fun sent => if sent.1 = p then sent.2.top? d else none

/-- The history of the document as the log of a reader. -/
def Doc.log (self : Doc) (p : ServerId) (held : Option Nat) (requests : List CatchUp.Request)
    (tops : List Nat) : CatchUp.State :=
  { length := self.engine.currentSeq
    subscribed := (AssocMap.get self.subscribers p).isSome
    held, requests, tops }

/-- A message is taken from those on their way. -/
def Removes {α : Type} (a : α) (l l' : List α) : Prop :=
  ∃ front rest, l = front ++ a :: rest ∧ l' = front ++ rest

/-- The same for a request.  A question comes after the notices that were sent before it. -/
def RemovesInOrder (request : CatchUp.Request) (requests requests' : List CatchUp.Request) :
    Prop :=
  ∃ front rest, requests = front ++ request :: rest ∧ requests' = front ++ rest ∧
    (request.isAsk = true → .stop ∉ front)

@[simp] theorem tops_nil (p : ServerId) (d : DocId) : tops p d [] = [] := rfl

theorem tops_quiet {p : ServerId} {d : DocId} {sent : List (ServerId × Msg)}
    (h : ∀ s ∈ sent, s.1 = p → s.2.top? d = none) : tops p d sent = [] := by
  refine List.filterMap_eq_nil_iff.mpr fun s hs => ?_
  split
  next hp => exact h s hs hp
  next => rfl

theorem Msg.top?_opFromServer {d : DocId} {ops : List (FatOp Op)} :
    (Msg.opFromServer d ops).top? d = ops.getLast?.bind FatOp.seq := if_pos rfl

section Log

variable {history ops : List (FatOp Op)} {doc doc' : Doc} {p : ServerId} {d : DocId}
  {held : Option Nat} {requests : List CatchUp.Request} {downs : List Nat}

theorem tops_tell_nil : tops p d (doc.tell d []) = [] := by
  refine tops_quiet fun s hs _ => ?_
  obtain ⟨_, -, rfl⟩ := List.mem_map.mp hs
  exact Msg.top?_opFromServer

/-- The number of the newest op. -/
theorem Doc.Logs.top (h : doc.Logs (history ++ ops)) {op : FatOp Op}
    (hlast : ops.getLast? = some op) : op.seq = some doc.engine.currentSeq := by
  have hpiece : ops <+: (history ++ ops).drop history.length := by simp
  rw [(top_of_piece h.isHistory hpiece hlast).1, h.currentSeq, List.length_append]

/-- What is ordered is told to all subscribers. -/
theorem Doc.Logs.grow (h : doc.Logs history) (h' : doc'.Logs (history ++ ops))
    (hsubscribed : (AssocMap.get doc'.subscribers p).isSome =
      (AssocMap.get doc.subscribers p).isSome) :
    CatchUp.Step (doc.log p held requests downs)
      (doc'.log p held requests (downs ++ tops p d (doc'.tell d ops))) := by
  have hlen : doc'.engine.currentSeq = doc.engine.currentSeq + ops.length := by
    rw [h'.currentSeq, h.currentSeq, List.length_append]
  have heq : doc'.log p held requests (downs ++ tops p d (doc'.tell d ops)) =
      { doc.log p held requests downs with
        length := doc'.engine.currentSeq
        tops := (doc.log p held requests downs).tops ++ tops p d (doc'.tell d ops) } := by
    simp only [Doc.log, hsubscribed]
  rw [heq]
  refine .grow (hlen ▸ Nat.le_add_right _ _) (fun top hmem => ?_) fun hlt hsub => ?_
  · obtain ⟨s, hs, htop⟩ := List.mem_filterMap.mp hmem
    obtain ⟨_, -, rfl⟩ := List.mem_map.mp hs
    simp only [Option.ite_none_right_eq_some, Msg.top?_opFromServer] at htop
    obtain ⟨op, hlast, hseq⟩ := Option.bind_eq_some_iff.mp htop.2
    exact Option.some.inj (hseq.symm.trans (h'.top hlast))
  · have hne : ops ≠ [] := by
      rintro rfl
      exact absurd hlt (hlen ▸ Nat.lt_irrefl _)
    have hlast := List.getLast?_eq_some_getLast hne
    refine List.mem_filterMap.mpr ⟨(p, .opFromServer d ops), List.mem_map.mpr ⟨p, ?_, rfl⟩, ?_⟩
    · obtain ⟨seq, hget⟩ := Option.isSome_iff_exists.mp (hsubscribed.trans hsub)
      exact AssocMap.mem_keys (AssocMap.mem_of_get hget)
    · rw [if_pos rfl, Msg.top?_opFromServer, hlast]
      exact h'.top hlast

/-- What a question is answered with. -/
theorem Doc.Logs.tops_answer (h : doc.Logs history) {since : GlobalSeq} :
    tops p d (if (doc.engine.globalOpsAfter since).isEmpty then []
      else [(p, .opFromServer d (doc.engine.globalOpsAfter since))]) =
      if since < doc.engine.currentSeq then [doc.engine.currentSeq] else [] := by
  have hops : doc.engine.globalOpsAfter since = history.drop since := by
    rw [ServerEngine.globalOpsAfter, GlobalHistory.opsAfter_eq, h.global]
  rw [hops, h.currentSeq]
  by_cases hlt : since < history.length
  · have hne : history.drop since ≠ [] := List.drop_eq_nil_iff.not.mpr (Nat.not_le_of_lt hlt)
    have hlast := List.getLast?_eq_some_getLast hne
    have htop := (top_of_piece h.isHistory (List.prefix_refl _) hlast).1
    rw [List.length_drop, Nat.add_sub_of_le hlt.le] at htop
    rw [if_neg (by simpa using hlt), if_pos hlt, tops, List.filterMap_cons_some]
    · rfl
    · rw [if_pos rfl, Msg.top?_opFromServer, hlast]
      exact htop
  · rw [if_neg hlt, if_pos (by simpa using hlt)]
    rfl

end Log

namespace Server

variable {os : Os} {before : Server} {event : Event} {d : DocId} {doc doc' : Doc}
  {sent : List (ServerId × Msg)} {history : List (FatOp Op)} {p : ServerId}

theorem isSome_get_insert {subscribers : List (ServerId × LocalSeq)} {host : ServerId}
    {seq : LocalSeq} (h : p ≠ host ∨ (AssocMap.get subscribers p).isSome = true) :
    (AssocMap.get (AssocMap.insert subscribers host seq) p).isSome =
      (AssocMap.get subscribers p).isSome := by
  rw [AssocMap.get_insert]
  split
  next hp => exact (h.resolve_left (absurd hp)).symm
  next => rfl

/-- The turn of the host is a step of the log, when what is recorded is also applied. -/
theorem HostStep.log (hstep : HostStep os before d event (some doc) (some doc') sent)
    (hlogs : doc.Logs history)
    (hbatch : ∀ host ops reqId res applied, ops.doc = d →
      event = .message { host, body := .opFromClient ops, reqId } →
        Doc.applyOps (doc.ordered ops.ops ops.context) (recorded doc ops host) =
          some (res, applied) → res = .ok ())
    (hreset : ∀ content res applied, doc.resetFromDisk (os.diff doc.buffer content) =
      some (res, applied) → ∃ processed, res = .ok processed)
    {held : Option Nat} {requests requests' : List CatchUp.Request} {downs : List Nat}
    (hrequest : ∀ request, event.request? p d = some request →
      RemovesInOrder request requests requests')
    (hsame : event.request? p d = none → requests' = requests) :
    Relation.ReflTransGen CatchUp.Step (doc.log p held requests downs)
      (doc'.log p held requests' (downs ++ tops p d sent)) := by
  have hstill (hnone : event.request? p d = none)
      (hquiet : ∀ s ∈ sent, s.1 = p → s.2.top? d = none)
      (hsubscribed : (AssocMap.get doc'.subscribers p).isSome =
        (AssocMap.get doc.subscribers p).isSome)
      (hseq : doc'.engine.currentSeq = doc.engine.currentSeq) :
      Relation.ReflTransGen CatchUp.Step (doc.log p held requests downs)
        (doc'.log p held requests' (downs ++ tops p d sent)) := by
    rw [hsame hnone, tops_quiet hquiet, List.append_nil, Doc.log, Doc.log, hsubscribed, hseq]
  cases hstep with
  | still unasked => exact hstill (Event.request?_of_unasked unasked) nofun rfl rfl
  | refused _ _ fatal =>
      refine hstill (ite_self none) (fun s hs _ => ?_) rfl rfl
      obtain ⟨reason, rfl⟩ := fatal s hs
      rfl
  | @accepted host reqId ops entry lastSeq res applied about _ passes applies =>
      obtain rfl := hbatch _ _ _ _ _ about rfl applies
      rw [hsame (ite_self none)]
      refine .single (hlogs.grow (hlogs.applyOps applies rfl) ?_)
      rw [Doc.subscribers_of_applyOps applies, recorded]
      dsimp only
      split
      next =>
          refine isSome_get_insert ?_
          by_cases hp : p = host
          · exact .inr (hp ▸ passes.subscribed ▸ rfl)
          · exact .inl hp
      next => rfl
  | @subscribed host reqId since =>
      by_cases hp : host = p
      · subst hp
        obtain ⟨front, rest, hfront, rfl, hinOrder⟩ :=
          hrequest (.ask since) (by simp [Event.request?, Msg.request?])
        have hstep := CatchUp.Step.answer (s := doc.log host held requests downs)
          hfront (hinOrder rfl)
        convert Relation.ReflTransGen.single hstep using 1
        rw [Doc.log, hlogs.tops_answer, AssocMap.get_insert_self]
        rfl
      · refine hstill (if_neg hp) (fun s hs heq => ?_) ?_ rfl
        · split at hs
          next => cases hs
          next => cases List.mem_singleton.mp hs; exact absurd heq hp
        · exact isSome_get_insert (.inl (Ne.symm hp))
  | @unsubscribed host =>
      by_cases hp : host = p
      · subst hp
        obtain ⟨front, rest, hfront, rfl, -⟩ :=
          hrequest .stop (by simp [Event.request?, Msg.request?])
        have hstep := CatchUp.Step.unsubscribe (s := doc.log host held requests downs)
          hfront
        convert Relation.ReflTransGen.single hstep using 1
        rw [Doc.log, AssocMap.get_erase, if_pos rfl, tops_nil, List.append_nil]
        rfl
      · refine hstill (if_neg hp) nofun ?_ rfl
        rw [AssocMap.get_erase, if_neg (Ne.symm hp)]
  | found =>
      refine hstill (ite_self none) (fun s hs _ => ?_) rfl rfl
      cases List.mem_singleton.mp hs
      rfl
  | openedOwn =>
      by_cases hp : p = before.hostId
      · subst hp
        rw [hsame rfl, tops_nil, List.append_nil]
        have hstep := CatchUp.Step.subscribe (s := doc.log before.hostId held requests downs)
        convert Relation.ReflTransGen.single hstep using 1
        rw [Doc.log, AssocMap.get_insert_self]
        rfl
      · exact hstill rfl nofun (isSome_get_insert (.inl hp)) rfl
  | reset unasked applies tells all =>
      obtain ⟨new, hlogs', hnew⟩ := hlogs.resetFromDisk applies
      obtain ⟨processed, rfl⟩ := hreset _ _ _ applies
      obtain rfl := hnew processed rfl
      rw [hsame (Event.request?_of_unasked unasked)]
      have htops : tops p d sent = tops p d (doc'.tell d processed) := by
        rcases all processed rfl with rfl | rfl
        · rcases tells with rfl | ⟨_, heq, rfl⟩
          · exact tops_tell_nil.symm
          · cases heq
            rfl
        · rfl
      rw [htops]
      exact .single (hlogs.grow hlogs' (by rw [Doc.subscribers_of_resetFromDisk applies]))

/-! ## The client -/

variable {after : Server} {effects : List Effect} {h : ServerId}

/-- Ops of a host arrive. -/
theorem kept_of_handleOpFromServer {reqId : Option RequestId} {ops : List (FatOp Op)}
    (hne : ops ≠ []) (hturn : before.handleOpFromServer reqId d ops h = (after, effects)) :
    before.remoteDocs.get h d = none ∧ after.remoteDocs.get h d = none ∧
        asked h d effects = [.stopSendingOps d] ∨
      ∃ entry numbered asks doc, before.remoteDocs.get h d = some entry ∧
        RemoteDoc.keepServerOps ops entry.toRemoteDoc = (numbered, asks, doc) ∧
        asked h d effects = asks.map (.requestOps d) ∧
        (numbered = true →
          after.remoteDocs.get h d = some { entry with toRemoteDoc := doc }) := by
  obtain ⟨op, rest, rfl⟩ := List.exists_cons_of_ne_nil hne
  simp only [handleOpFromServer] at hturn
  split at hturn
  next hnone =>
      cases hturn
      exact .inl ⟨hnone, hnone, asked_send_of_eq rfl reqId []⟩
  next entry hget =>
      generalize hkeeps : RemoteDoc.keepServerOps (op :: rest) entry.toRemoteDoc = kept at hturn
      obtain ⟨numbered, asks, doc⟩ := kept
      refine .inr ⟨entry, numbered, asks, doc, hget, hkeeps, ?_⟩
      have hasked (rest : List Effect)
          (hrest : ∀ host reqId msg, .send host reqId msg ∈ rest → msg.asked? = none) :
          asked h d ((asks.map fun since => Effect.send h reqId (.requestOps d since)) ++ rest) =
            asks.map (.requestOps d) := by
        rw [asked_append, asked_map (fun _ => rfl) (fun _ _ => rfl), asked_eq_nil hrest,
          List.append_nil, if_pos rfl]
      split at hturn
      next hunnumbered =>
          cases hturn
          refine ⟨hasked _ (by simp), fun hnumbered => ?_⟩
          rw [hnumbered] at hunnumbered
          cases hunnumbered
      next =>
          cases hturn
          refine ⟨hasked _ fun host reqId msg hmem => ?_, fun _ => ?_⟩
          · split at hmem
            next => split at hmem <;> simp at hmem
            next => cases hmem
          · rw [RemoteDocs.get_set, if_pos rfl]

section Log

variable {doc : Doc} {requests : List CatchUp.Request} {downs downs' : List Nat}

/-- The client has no copy any more. -/
theorem log_leave (hdowns : downs' = downs ∨ ∃ top, Removes top downs downs')
    (held : Option Nat) :
    Relation.ReflTransGen CatchUp.Step (doc.log p held requests downs)
      (doc.log p none requests downs') := by
  have hleave : CatchUp.Step (doc.log p held requests downs) (doc.log p none requests downs) :=
    .leave
  rcases hdowns with rfl | ⟨top, front, rest, heq, rfl⟩
  · exact .single hleave
  · exact (Relation.ReflTransGen.single hleave).tail (.ignore heq rfl)

/-- The same, and it tells the host. -/
theorem log_dismiss (hdowns : downs' = downs ∨ ∃ top, Removes top downs downs')
    (held : Option Nat) :
    Relation.ReflTransGen CatchUp.Step (doc.log p held requests downs)
      (doc.log p none (requests ++ [.stop]) downs') :=
  (log_leave hdowns held).tail (.dismiss rfl)

/-- Ops of the host arrive. -/
theorem log_read {reqId : Option RequestId} {ops : List (FatOp Op)}
    (hturn : before.handleOpFromServer reqId d ops h = (after, effects)) (hlogs : doc.Logs history)
    (hcopy : ∀ entry, before.remoteDocs.get h d = some entry → entry.Replicates history)
    {i : Nat} (hops : ops <+: history.drop i) {op : FatOp Op} (hlast : ops.getLast? = some op)
    {top : Nat} (hseq : op.seq = some top) (hdowns : Removes top downs downs') :
    Relation.ReflTransGen CatchUp.Step
      (doc.log p ((before.remoteDocs.get h d).map fun entry => entry.held) requests downs)
      (doc.log p ((after.remoteDocs.get h d).map fun entry => entry.held)
        (requests ++ (asked h d effects).filterMap (Msg.request? d)) downs') := by
  have hne : ops ≠ [] := by
    rintro rfl
    cases hlast
  rcases kept_of_handleOpFromServer hne hturn with
    ⟨hnone, hnone', hasked⟩ | ⟨entry, numbered, asks, copy, hget, hkeeps, hasked, hkept⟩
  · rw [hnone, hnone', hasked, List.filterMap_cons_some (Msg.request?_stopSendingOps d)]
    exact log_dismiss (.inr ⟨top, hdowns⟩) _
  · have hreplicates := hcopy entry hget
    obtain ⟨rfl, hreplicates'⟩ := hreplicates.keepServerOps hlogs.isHistory hops hkeeps
    obtain ⟨hmore, hcovers, hreads⟩ :=
      RemoteDoc.reads_of_keepServerOps hlogs.isHistory hops hreplicates.inOrder hkeeps
    obtain ⟨front, rest, hfront, rfl⟩ := hdowns
    have htop := (top_of_piece hlogs.isHistory hops hlast).1
    rw [hseq, Option.some_inj] at htop
    have hrequests : (asks.map (Msg.requestOps d)).filterMap (Msg.request? d) =
        asks.map .ask := by
      rw [List.filterMap_map, ← List.filterMap_eq_map]
      exact List.filterMap_congr fun since _ => Msg.request?_requestOps d since
    rw [hget, hkept rfl, hasked, hrequests]
    refine .single (.read (s := doc.log p _ requests downs) hfront rfl hmore ?_ hcovers ?_)
    · exact hreplicates'.held_le.trans_eq hlogs.currentSeq.symm
    · rw [htop]
      exact hreads hne

/-- What a turn of a client does to its copy, and what it asks for, is a row of steps of the
reader. -/
def ReaderSteps (before after : Server) (effects : List Effect) (h : ServerId) (d : DocId)
    (p : ServerId) (doc : Doc) (requests : List CatchUp.Request) (downs downs' : List Nat) : Prop :=
  Relation.ReflTransGen CatchUp.Step
    (doc.log p ((before.remoteDocs.get h d).map fun entry => entry.held) requests downs)
    (doc.log p ((after.remoteDocs.get h d).map fun entry => entry.held)
      (requests ++ (asked h d effects).filterMap (Msg.request? d)) downs')

theorem log_still (hsame : downs' = downs)
    (hafter : after.remoteDocs.get h d = before.remoteDocs.get h d)
    (hasked : (asked h d effects).filterMap (Msg.request? d) = []) :
    before.ReaderSteps after effects h d p doc requests downs downs' := by
  rw [ReaderSteps, hsame, hafter, hasked, List.append_nil]

theorem log_ends (hdowns : downs' = downs ∨ ∃ top, Removes top downs downs')
    (hnone : after.remoteDocs.get h d = none)
    (hasked : (asked h d effects).filterMap (Msg.request? d) = []) :
    before.ReaderSteps after effects h d p doc requests downs downs' := by
  rw [ReaderSteps, hnone, hasked, List.append_nil]
  exact log_leave hdowns _

/-- The host's own editor opens files. -/
theorem log_opens (hhandled : Handled os before event after effects)
    (hopen : opensFile event = true) (hown : after.hosted d = some doc)
    (hjoins : before.opening event = some d → before.keepsCopy event = false → .stop ∉ requests)
    (hsame : downs' = downs) :
    before.ReaderSteps after effects before.hostId d before.hostId doc requests downs downs' := by
  have hasked : (asked before.hostId d effects).filterMap (Msg.request? d) = [] := by
    rw [hhandled.asked_of_opens hopen before.hostId d]
    rfl
  cases hhandled.openStep hopen d with
  | still _ copy => exact log_still hsame copy hasked
  | kept _ _ _ copy => exact log_still hsame copy hasked
  | opened opens keeps recorded _ hosted entry copy internalDoc made =>
      cases hown.symm.trans hosted
      have hheld : entry.held = doc.engine.currentSeq := by
        rw [made]
        rfl
      rw [ReaderSteps, hsame, hasked, List.append_nil, copy, Option.map_some, hheld]
      refine .single (.join (s := doc.log before.hostId _ requests downs) ?_ (hjoins opens keeps))
      rw [hosted_bind_subscribers hosted] at recorded
      exact congrArg Option.isSome recorded

/-- The editor sends ops, and the client packages them. -/
theorem log_sendOps {reqId : RequestId} {ops : List EditorFatOp} {file : EditorFileDesc}
    (hhandled : Handled os before (.request reqId (.sendOps ops file)) after effects)
    (hsame : downs' = downs) :
    before.ReaderSteps after effects h d p doc requests downs downs' := by
  cases hhandled with
  | idle away tables quiet =>
      refine log_still hsame (by rw [remoteDocs_of_tables tables]) ?_
      rw [asked_of_quiet quiet]
      rfl
  | sendOps hturn =>
      rcases copy_of_sendOps hturn h d with ⟨hafter, hasked⟩ | ⟨hnone, hasked⟩ |
          ⟨entry, leanOps, batch, rd, -, -, hget, hsends, hafter, hasked⟩
      · exact log_still hsame hafter (hasked ▸ rfl)
      · exact log_ends (.inl hsame) hnone (hasked ▸ rfl)
      · have hheld : rd.held = entry.held := RemoteDoc.held_of_sendOps hsends
        have hnone : (asked h d effects).filterMap (Msg.request? d) = [] := by
          rw [hasked]
          cases batch <;> rfl
        rw [ReaderSteps, hsame, hnone, List.append_nil, hget, hafter, Option.map_some,
          Option.map_some, hheld]

/-- Nothing with ops arrives, and the editor neither opens files of its own host nor sends ops. -/
theorem log_plain (hhandled : Handled os before event after effects) (hlogs : doc.Logs history)
    (harrived : ∀ msg, event = .message msg → msg.host = h → msg.body.Tells d history)
    (hopen : ¬(h = before.hostId ∧ opensFile event = true))
    (hsend : ∀ reqId ops file, event ≠ .request reqId (.sendOps ops file))
    (htop : event.top? h d = none) (hsame : downs' = downs) :
    before.ReaderSteps after effects h d p doc requests downs downs' := by
  have hrequest : ∀ reqId req, event = .request reqId req → h = before.hostId →
      after.remoteDocs.get h d = before.remoteDocs.get h d ∨ after.remoteDocs.get h d = none := by
    rintro reqId req rfl hh
    refine hhandled.copy_of_request ?_ (fun ops file heq => hsend reqId ops file (heq ▸ rfl)) h d
    simpa [hh] using hopen
  -- Without ops nothing is kept and nothing is asked for.
  have hempty {reqId : Option RequestId} {ops : List (FatOp Op)}
      (heq : event = .message { host := h, body := .opFromServer d ops, reqId }) : ops = [] := by
    by_contra hne
    obtain ⟨i, hi⟩ := harrived _ heq rfl rfl
    have hlast := List.getLast?_eq_some_getLast hne
    have hseq := (top_of_piece hlogs.isHistory hi hlast).1
    rw [heq, Event.top?, if_pos rfl, Msg.top?_opFromServer, hlast, Option.bind_some, hseq] at htop
    cases htop
  have hstep := hhandled.clientStep h d
  rw [ReaderSteps]
  generalize before.remoteDocs.get h d = copy at *
  generalize after.remoteDocs.get h d = copy' at *
  generalize asked h d effects = asks at *
  subst hsame
  have hstill : Relation.ReflTransGen CatchUp.Step
      (doc.log p (copy.map fun entry => entry.held) requests downs')
      (doc.log p (copy.map fun entry => entry.held) (requests ++ []) downs') := by
    rw [List.append_nil]
  have hends : Relation.ReflTransGen CatchUp.Step
      (doc.log p (copy.map fun entry => entry.held) requests downs')
      (doc.log p none (requests ++ []) downs') := by
    rw [List.append_nil]
    exact log_leave (.inl rfl) _
  cases hstep with
  | still => exact hstill
  | ended | closed => exact hends
  | kept keeps =>
      obtain rfl := hempty rfl
      cases keeps
      exact hstill
  | unnumbered keeps =>
      obtain rfl := hempty rfl
      cases keeps
  | stray =>
      rw [List.filterMap_cons_some (Msg.request?_stopSendingOps d)]
      exact log_dismiss (.inl rfl) _
  | dropped =>
      rw [List.filterMap_cons_some (Msg.request?_stopSendingOps d)]
      exact log_dismiss (.inl rfl) _
  | @opened reqId snapshot copy entry about made =>
      have hgiven : snapshot.seq ≤ history.length := harrived _ rfl rfl about
      have hheld : entry.held = snapshot.seq := by
        rw [made]
        rfl
      rw [List.filterMap_cons_some (Msg.request?_requestOps d snapshot.seq), Option.map_some, hheld]
      exact .single (.start (s := doc.log p _ requests _)
        (hgiven.trans_eq hlogs.currentSeq.symm))
  | openedOwn own =>
      rcases hrequest _ _ rfl own with rfl | hnone
      · exact hstill
      · cases hnone
  | sent => exact absurd rfl (hsend _ _ _)

end Log

/-- The turn of a client is a row of steps of the reader. -/
theorem Handled.log {doc : Doc} (hturn : before.handle os event = some (after, effects))
    (hhandled : Handled os before event after effects) (hlogs : doc.Logs history)
    (hcopy : ∀ entry, before.remoteDocs.get h d = some entry → entry.Replicates history)
    (harrived : ∀ msg, event = .message msg → msg.host = h → msg.body.Tells d history)
    (hp : before.hostId = p) (hown : h = p → after.hosted d = some doc)
    {requests : List CatchUp.Request} {downs downs' : List Nat}
    (hjoins : h = p → before.opening event = some d → before.keepsCopy event = false →
      .stop ∉ requests)
    (htop : ∀ top, event.top? h d = some top → Removes top downs downs')
    (hsame : event.top? h d = none → downs' = downs) :
    before.ReaderSteps after effects h d p doc requests downs downs' := by
  by_cases hopen : h = before.hostId ∧ opensFile event = true
  · obtain ⟨rfl, hopen⟩ := hopen
    have hevent : event.top? before.hostId d = none := by
      cases event <;> first | rfl | cases hopen
    subst hp
    exact log_opens hhandled hopen (hown rfl) (hjoins rfl) (hsame hevent)
  cases hevent : event.top? h d with
  | some top =>
      cases event with
      | message msg =>
          obtain ⟨hhost, hmsg⟩ := Option.ite_none_right_eq_some.mp hevent
          obtain ⟨ops, op, hbody, hlast, hseq⟩ := Msg.of_top? hmsg
          obtain ⟨host, body, reqId⟩ := msg
          obtain rfl : host = h := hhost
          obtain rfl : body = .opFromServer d ops := hbody
          obtain ⟨i, hi⟩ := harrived _ rfl rfl rfl
          exact log_read (Option.some.inj hturn) hlogs hcopy hi hlast hseq (htop top hevent)
      | _ => cases hevent
  | none =>
      by_cases hsend : ∃ reqId ops file, event = .request reqId (.sendOps ops file)
      · obtain ⟨reqId, ops, file, rfl⟩ := hsend
        exact log_sendOps hhandled (hsame hevent)
      · exact log_plain hhandled hlogs harrived hopen
          (fun reqId ops file heq => hsend ⟨reqId, ops, file, heq⟩) hevent (hsame hevent)

end Server

/-! ## The network -/

namespace Network

section Log

variable (p h : ServerId) (d : DocId) (net : Network)

/-- What the client asks the host for, and has not arrived. -/
def requests : List CatchUp.Request := net.wire.filterMap (Packet.pick p h (Msg.request? d))

/-- The messages with ops on their way to the client, each by the number of its last op. -/
def tops : List Nat := net.wire.filterMap (Packet.pick h p (Msg.top? d))

/-- The history of the document with the copy of the client as its reader. -/
def log (doc : Doc) : CatchUp.State :=
  doc.log p ((net.copy p h d).map fun entry => entry.held) (net.requests p h d) (net.tops p h d)

/-- The client is not cut off: no question of it is lost, and it arrives after the notices that
were sent before it.  Ops for it are lost only when a message with later ones is on its way.  The
host's own editor opens the document anew when no notice of it is on its way. -/
def NotCutOff : Act → Prop
  | .turn _ id event => id = h → p = h → (net.servers h).opening event = some d →
      (net.servers h).keepsCopy event = false → .stop ∉ net.requests h h d
  | .deliver _ index => ∀ packet ∈ net.wire[index]?,
      ∀ request ∈ packet.pick p h (Msg.request? d), request.isAsk = true →
        .stop ∉ (net.wire.take index).filterMap (Packet.pick p h (Msg.request? d))
  | .lose index => ∀ packet ∈ net.wire[index]?,
      (∀ request ∈ packet.pick p h (Msg.request? d), request.isAsk = false) ∧
        ∀ top ∈ packet.pick h p (Msg.top? d), ∃ other ∈ (net.take index).tops p h d, top ≤ other

instance (act : Act) : Decidable (net.NotCutOff p h d act) :=
  match act with
  | .turn _ _ _ => inferInstanceAs (Decidable (_ → _ → _ → _ → _))
  | .deliver _ index => inferInstanceAs (Decidable (∀ packet ∈ net.wire[index]?,
      ∀ request ∈ packet.pick p h (Msg.request? d), _ → _))
  | .lose index => inferInstanceAs (Decidable (∀ packet ∈ net.wire[index]?,
      (∀ request ∈ packet.pick p h (Msg.request? d), _) ∧
        ∀ top ∈ packet.pick h p (Msg.top? d), ∃ other ∈ (net.take index).tops p h d, top ≤ other))

end Log

/-- `before` is `net` without the message that is handled. -/
structure Clears (p h : ServerId) (d : DocId) (net before : Network) (id : ServerId)
    (event : Event) : Prop where
  request : ∀ request, id = h → event.request? p d = some request →
    RemovesInOrder request (net.requests p h d) (before.requests p h d)
  requests : (id = h → event.request? p d = none) → before.requests p h d = net.requests p h d
  top : ∀ top, id = p → event.top? h d = some top →
    Removes top (net.tops p h d) (before.tops p h d)
  tops : (id = p → event.top? h d = none) → before.tops p h d = net.tops p h d

variable {p h : ServerId} {d : DocId} {net net' : Network} {id : ServerId} {event : Event}

theorem clears_local (hlocal : event.isLocal = true) : Clears p h d net net id event := by
  have hnone : event.request? p d = none ∧ event.top? h d = none := by
    cases event with
    | message msg =>
        obtain ⟨host, body, reqId⟩ := msg
        cases body <;> first | exact ⟨ite_self none, ite_self none⟩ | cases hlocal
    | _ => exact ⟨rfl, rfl⟩
  refine ⟨fun _ _ heq => ?_, fun _ => rfl, fun _ _ heq => ?_, fun _ => rfl⟩
  · cases hnone.1.symm.trans heq
  · cases hnone.2.symm.trans heq

theorem pick_event {packet : Packet} {β : Type} {f : Msg → Option β} :
    packet.pick p h f = if packet.dest = h then
      (if packet.source = p then f packet.body else none) else none := by
  rw [Packet.pick]
  split
  next hand => rw [if_pos hand.2, if_pos hand.1]
  next hand =>
      split
      next hdest => rw [if_neg fun hsource => hand ⟨hsource, hdest⟩]
      next => rfl

theorem clears_deliver {os : Os} {index : Nat} {packet : Packet}
    (hpacket : net.wire[index]? = some packet)
    (hnotCutOff : net.NotCutOff p h d (.deliver os index)) :
    Clears p h d net (net.take index) packet.dest packet.event where
  request request hdest hrequest := by
    have hpick : packet.pick p h (Msg.request? d) = some request := by
      rw [pick_event, if_pos hdest]
      exact hrequest
    obtain ⟨hsplit, herase⟩ := filterMap_split hpacket hpick
    exact ⟨_, _, hsplit, herase, hnotCutOff packet hpacket request hpick⟩
  requests hnone := by
    refine filterMap_eraseIdx_of_none hpacket ?_
    rw [pick_event]
    split
    next hdest => exact hnone hdest
    next => rfl
  top top hdest htop := by
    have hpick : packet.pick h p (Msg.top? d) = some top := by
      rw [pick_event, if_pos hdest]
      exact htop
    obtain ⟨hsplit, herase⟩ := filterMap_split hpacket hpick
    exact ⟨_, _, hsplit, herase⟩
  tops hnone := by
    refine filterMap_eraseIdx_of_none hpacket ?_
    rw [pick_event]
    split
    next hdest => exact hnone hdest
    next => rfl

section Turn

variable {P : Text → Doc → Prop} {Q : Text → Doc → SiteId → Site → Prop}
  {editC : Doc → RemoteDoc → EditorFatOp → Prop} {deliverC : RemoteDoc → FatOp Op → Prop}
  {os : Os} {before after : Network} {effects : List Effect} {history new : List (FatOp Op)}
  {doc doc' : Doc}

theorem Turn.requests (hturn : Turn os before id event after effects) :
    after.requests p h d = before.requests p h d ++
      if id = p then (asked h d effects).filterMap (Msg.request? d) else [] :=
  hturn.pick_asked fun _ _ => Msg.asked?_of_request?

theorem Turn.tops (hturn : Turn os before id event after effects) :
    after.tops p h d = before.tops p h d ++
      if id = h then CollabMode.tops p d (told d effects) else [] :=
  hturn.pick_told fun _ _ => Msg.told?_of_top?

/-- What the host orders it applies. -/
theorem Embeds.applies (hnet : net.Embeds P Q h d)
    (hs : ∀ content, System.Serves (P content) (Q content) editC deliverC)
    (hdoc : net.doc h d = some doc) {host : ServerId} {ops : ContextOps} {up : List ContextOps}
    (hup : (net.peer host h d).up = ops :: up) {res : Except CollabError Unit} {applied : Doc}
    (happly : Doc.applyOps (doc.ordered ops.ops ops.context) (Server.recorded doc ops host) =
      some (res, applied)) : res = .ok () := by
  obtain ⟨content, hP, hpeers⟩ := hnet.served doc hdoc
  have hsubscribed := (hpeers host).subscribers (hs content)
    (Server.recorded doc ops host).subscribers
  exact (hsubscribed.receive (hs content) ((hs content).doc_subscribers _ _ hP) hup happly).1

/-- What a turn of a server does to the document and its client. -/
theorem Embeds.log_turn (hnet : net.Embeds P Q h d)
    (hs : ∀ content, System.Serves (P content) (Q content) editC deliverC) (hdiff : Diffs os.diff)
    (hturn : Turn os before id event after effects) (htakes : Takes h d net before id event)
    (hclears : Clears p h d net before id event)
    (harrived : ∀ msg, event = .message msg → msg.body.isOfConnection = true ∨
      ∃ packet ∈ net.wire, packet.source = msg.host ∧ packet.body = msg.body)
    (hjoins : id = h → p = h → (net.servers h).opening event = some d →
      (net.servers h).keepsCopy event = false → .stop ∉ net.requests h h d)
    (hshares : net.Shares h d history) (hshares' : after.Shares h d (history ++ new))
    (hdoc : net.doc h d = some doc) (hdoc' : after.doc h d = some doc') :
    Relation.ReflTransGen CatchUp.Step (net.log p h d doc) (after.log p h d doc') := by
  have hservers := htakes.hands.servers
  have hok : before.Ok := ⟨hservers ▸ hnet.sited.ok.hostId, hservers ▸ hnet.sited.ok.ids⟩
  have hbefore : before.doc h d = some doc := by
    rw [Network.doc, hservers]
    exact hdoc
  have hcopy (p : ServerId) : before.copy p h d = net.copy p h d := by
    rw [copy, hservers]
    rfl
  let sent := if id = h then CollabMode.tops p d (told d effects) else []
  have hhost : Relation.ReflTransGen CatchUp.Step (net.log p h d doc)
      (doc'.log p ((before.copy p h d).map fun entry => entry.held) (before.requests p h d)
        (net.tops p h d ++ sent)) := by
    rw [hcopy]
    by_cases hid : id = h
    · subst hid
      have hstep := hturn.hostStep hok d
      rw [hbefore, hdoc'] at hstep
      rw [show sent = _ from if_pos rfl]
      refine hstep.log (hshares.logs doc hdoc) (fun host ops reqId res applied habout hevent => ?_)
        (fun content res applied hreset => ?_) (fun request => hclears.request request rfl)
        fun hnone => hclears.requests fun _ => hnone
      · exact hnet.applies hs hdoc (htakes.batch host ops reqId rfl habout hevent).1
      · obtain ⟨content', hP, -⟩ := hnet.served doc hdoc
        obtain ⟨processed, applied', hok⟩ := (hs content').resets doc _ hP
          ⟨hdiff.old doc.buffer content, hdiff.nonempty doc.buffer content⟩
        cases hreset.symm.trans hok
        exact ⟨processed, rfl⟩
    · have hsame : doc' = doc := by
        rw [hturn.doc_of_ne (Ne.symm hid), hbefore] at hdoc'
        exact (Option.some.inj hdoc').symm
      rw [hsame, hclears.requests fun hh => absurd hh hid, show sent = _ from if_neg hid,
        List.append_nil]
      exact .refl
  refine hhost.trans ?_
  rw [Network.log, hturn.requests, hturn.tops]
  by_cases hp : id = p
  · subst hp
    have hcopies : ∀ entry, (before.servers id).remoteDocs.get h d = some entry →
        entry.Replicates (history ++ new) :=
      fun entry hentry => (hshares.copies id entry ((hcopy id).symm.trans hentry)).mono new
    rw [if_pos rfl]
    refine Server.Handled.log hturn.handle hturn.handled (hshares'.logs doc' hdoc') hcopies
      (fun msg hmsg hhost => ?_) (hok.hostId id) ?_ ?_ (fun top htop => ?_) fun hnone => ?_
    · rcases harrived msg hmsg with hconn | ⟨packet, hmem, hsource, hbody⟩
      · exact Msg.tells_of_isOfConnection hconn
      · rw [← hbody]
        exact (hshares.wire packet hmem (hsource.trans hhost)).mono new
    · rintro rfl
      exact hdoc'
    · rintro rfl hopens hkeeps hmem
      rw [hservers] at hopens hkeeps
      refine hjoins rfl rfl hopens hkeeps ?_
      rw [← hclears.requests fun _ => ?_]
      · exact hmem
      · cases event <;> first | rfl | cases hopens
    · obtain ⟨front, rest, hfront, hrest⟩ := hclears.top top rfl htop
      exact ⟨front, rest ++ sent, by simp [hfront], by simp [hrest, sent]⟩
    · rw [hclears.tops fun _ => hnone]
  · rw [if_neg hp, List.append_nil, hclears.tops fun hh => absurd hh hp,
      hturn.copy_of_ne (Ne.symm hp)]

/-- Nothing on its way goes further than the history. -/
theorem Shares.log_le (hshares : net.Shares h d history) (hdoc : net.doc h d = some doc) :
    (∀ top ∈ net.tops p h d, top ≤ doc.engine.currentSeq) ∧
      ∀ entry, net.copy p h d = some entry → entry.held ≤ doc.engine.currentSeq := by
  rw [(hshares.logs doc hdoc).currentSeq]
  refine ⟨fun top hmem => ?_, fun entry hentry => (hshares.copies p entry hentry).held_le⟩
  obtain ⟨packet, hpacket, htop⟩ := List.mem_filterMap.mp hmem
  obtain ⟨hsource, -, htop⟩ := Packet.pick_some htop
  exact (hshares.wire packet hpacket hsource).top_le hshares.isHistory htop

/-- The document is made. -/
theorem Embeds.log_made (hnet : net.Embeds P Q h d)
    (hturn : Turn os before id event after effects) (htakes : Takes h d net before id event)
    (hclears : Clears p h d net before id event)
    (hjoins : id = h → p = h → (net.servers h).opening event = some d →
      (net.servers h).keepsCopy event = false → .stop ∉ net.requests h h d)
    (hshares' : after.Shares h d history) (hdoc : net.doc h d = none)
    (hdoc' : after.doc h d = some doc') : (after.log p h d doc').Ok := by
  have hservers := htakes.hands.servers
  have hok : before.Ok := ⟨hservers ▸ hnet.sited.ok.hostId, hservers ▸ hnet.sited.ok.ids⟩
  have hbefore : before.doc h d = none := by
    rw [Network.doc, hservers]
    exact hdoc
  obtain rfl : id = h := by
    by_contra hid
    rw [hturn.doc_of_ne (Ne.symm hid), hbefore] at hdoc'
    cases hdoc'
  have hearly : (net.servers id).nextDocId ≤ d := by
    by_contra hlt
    have hstep := hturn.hostStep hok d
    rw [hbefore] at hstep
    rw [← hservers] at hlt
    cases (hstep.none_of_lt (Nat.lt_of_not_le hlt)).symm.trans hdoc'
  obtain ⟨hcopy, -, hsnapshots⟩ := hnet.early hearly p
  obtain ⟨htops, hheld⟩ := hshares'.log_le hdoc' (p := p)
  refine ⟨htops, fun held heq => ?_, fun held heq => ?_⟩
  · obtain ⟨entry, hentry, rfl⟩ := Option.map_eq_some_iff.mp heq
    exact hheld entry hentry
  · obtain ⟨entry, hentry, rfl⟩ := Option.map_eq_some_iff.mp heq
    have hnone : before.copy p id d = none := by
      rw [copy, hservers]
      exact hcopy
    by_cases hp : p = id
    · subst hp
      have hsnapshot (made : NewSnapshot) (reqId : Option RequestId)
          (hevent : event = .message { host := p, body := .snapshot made, reqId }) :
          made.docId ≠ d := by
        intro habout
        obtain ⟨hmem, -⟩ := htakes.opens made reqId habout hevent
        rw [hsnapshots] at hmem
        cases hmem
      rcases hturn.handled.copy_of_none hnone hsnapshot with
        ⟨hstill, -⟩ | ⟨-, hopens, hkeeps, hasked, hrecorded, doc, entry', _, hosted, hget, hmade⟩
      · cases hstill.symm.trans hentry
      · cases hosted.symm.trans hdoc'
        cases hget.symm.trans hentry
        rw [hservers] at hopens hkeeps
        refine .follows ?_ ?_ (.inl ?_)
        · rw [Server.hosted_bind_subscribers hdoc'] at hrecorded
          exact congrArg Option.isSome hrecorded
        · show .stop ∉ after.requests p p d
          rw [hturn.requests, if_pos rfl, hasked, List.filterMap_nil, List.append_nil,
            hclears.requests fun _ => ?_]
          · exact hjoins rfl rfl hopens hkeeps
          · cases event <;> first | rfl | cases hopens
        · show entry.held = doc'.engine.currentSeq
          rw [hmade]
          rfl
    · rw [hturn.copy_of_ne hp, hnone] at hentry
      cases hentry

end Turn

/-- The client misses nothing for good. -/
def Updated (p h : ServerId) (d : DocId) (net : Network) : Prop :=
  ∀ doc, net.doc h d = some doc → (net.log p h d doc).Ok

theorem updated_start (p h : ServerId) (d : DocId) (config : ServerId → Config)
    (idealWorld : ServerId → WorldState) : (start config idealWorld).Updated p h d := nofun

/-- A message is lost. -/
theorem Updated.lose (hnet : net.Updated p h d) {index : Nat}
    (hnotCutOff : net.NotCutOff p h d (.lose index)) : (net.take index).Updated p h d := by
  intro doc hdoc
  have hlog := hnet doc hdoc
  cases hpacket : net.wire[index]? with
  | none =>
      have hwire : (net.take index).wire = net.wire :=
        List.eraseIdx_of_length_le (List.getElem?_eq_none_iff.mp hpacket)
      rw [Network.log, requests, tops, hwire]
      exact hlog
  | some packet =>
      obtain ⟨hasks, htops⟩ := hnotCutOff packet hpacket
      have hsteps : Relation.ReflTransGen CatchUp.Step (net.log p h d doc)
          ((net.take index).log p h d doc) := by
        have hrequests : Relation.ReflTransGen CatchUp.Step (net.log p h d doc)
            { net.log p h d doc with requests := (net.take index).requests p h d } := by
          cases hpick : packet.pick p h (Msg.request? d) with
          | none =>
              have hsame : (net.take index).requests p h d = net.requests p h d :=
                filterMap_eraseIdx_of_none hpacket hpick
              rw [hsame]
              exact .refl
          | some request =>
              obtain ⟨hsplit, herase⟩ := filterMap_split hpacket hpick
              have hstop : request = .stop := by
                cases request with
                | ask => cases hasks _ hpick
                | stop => rfl
              subst hstop
              rw [show (net.take index).requests p h d = _ from herase]
              exact .single (.loseStop hsplit)
        refine hrequests.trans ?_
        cases hpick : packet.pick h p (Msg.top? d) with
        | none =>
            have hsame : (net.take index).tops p h d = net.tops p h d :=
              filterMap_eraseIdx_of_none hpacket hpick
            rw [Network.log, Network.log, hsame]
            exact .refl
        | some top =>
            obtain ⟨hsplit, herase⟩ := filterMap_split hpacket hpick
            obtain ⟨other, hother, hle⟩ := htops top hpick
            rw [show (net.take index).tops p h d = _ from herase] at hother
            rw [Network.log, Network.log, show (net.take index).tops p h d = _ from herase]
            exact .single (.lose hsplit hother hle)
      exact CatchUp.ok_of_steps hsteps hlog

section Run

variable {P : Text → Doc → Prop} {Q : Text → Doc → SiteId → Site → Prop}
  {editC : Doc → RemoteDoc → EditorFatOp → Prop} {deliverC : RemoteDoc → FatOp Op → Prop}

theorem Embeds.updated (hnet : net.Embeds P Q h d)
    (hs : ∀ content, System.Serves (P content) (Q content) editC deliverC) {act : Act}
    (hdiff : act.Diffs) (horder : net.GoesInOrder editC deliverC h d act)
    (hnotCutOff : net.NotCutOff p h d act) (hupdated : net.Updated p h d)
    (hstep : net.step act = some net') : net'.Updated p h d := by
  obtain ⟨history, hshares⟩ := hnet.shares
  obtain ⟨-, new, hshares'⟩ := hshares.step hnet.sited.ok hstep
  -- A turn of a server, with the message or without it.
  have hturn {os : Os} {before : Network} {id : ServerId} {event : Event} {effects : List Effect}
      (hdiff : CollabMode.Diffs os.diff) (hturn : Turn os before id event net' effects)
      (htakes : Takes h d net before id event) (hclears : Clears p h d net before id event)
      (harrived : ∀ msg, event = .message msg → msg.body.isOfConnection = true ∨
        ∃ packet ∈ net.wire, packet.source = msg.host ∧ packet.body = msg.body)
      (hjoins : id = h → p = h → (net.servers h).opening event = some d →
        (net.servers h).keepsCopy event = false → .stop ∉ net.requests h h d) :
      net'.Updated p h d := by
    intro doc' hdoc'
    cases hdoc : net.doc h d with
    | none => exact hnet.log_made hturn htakes hclears hjoins hshares' hdoc hdoc'
    | some doc =>
        exact CatchUp.ok_of_steps (hnet.log_turn hs hdiff hturn htakes hclears harrived hjoins
          hshares hshares' hdoc hdoc') (hupdated doc hdoc)
  cases act with
  | turn os id event =>
      simp only [Network.step] at hstep
      split at hstep
      next hlocal =>
          obtain ⟨effects, hrun⟩ := turn_of_handle hstep
          refine hturn hdiff hrun (takes_local hlocal) (clears_local hlocal) (fun msg hmsg => ?_)
            hnotCutOff
          rw [hmsg] at hlocal
          exact .inl hlocal
      next => cases hstep
  | deliver os index =>
      simp only [Network.step, Option.bind_eq_bind, Option.bind_eq_some_iff] at hstep
      obtain ⟨packet, hpacket, hhandle⟩ := hstep
      obtain ⟨effects, hrun⟩ := turn_of_handle hhandle
      refine hturn hdiff hrun (takes_deliver hpacket horder.arrives)
        (clears_deliver hpacket hnotCutOff) (fun msg hmsg => ?_) fun _ _ hopens => by cases hopens
      cases hmsg
      exact .inr ⟨packet, List.mem_of_getElem? hpacket, rfl, rfl⟩
  | lose index =>
      simp only [Network.step] at hstep
      split at hstep
      next =>
          cases hstep
          exact hupdated.lose hnotCutOff
      next => cases hstep

/-- A client that is not cut off misses nothing for good in a run in order. -/
theorem updated_run (hs : ∀ content, System.Serves (P content) (Q content) editC deliverC)
    (hstart : ∀ content, P content (System.start content).doc) {config : ServerId → Config}
    {idealWorld : ServerId → WorldState} {acts : List Act} (hdiff : ∀ act ∈ acts, act.Diffs)
    (horder : Run.Meets Network.step
      (fun net act => net.GoesInOrder editC deliverC h d act ∧ net.NotCutOff p h d act)
      (start config idealWorld) acts)
    (hrun : Run.run Network.step (start config idealWorld) acts = some net) :
    net.Embeds P Q h d ∧ net.Updated p h d := by
  have hkeeps : ∀ (net : Network) (act : Act) (net' : Network),
      net.Embeds P Q h d ∧ net.Updated p h d →
        act.Diffs ∧ net.GoesInOrder editC deliverC h d act ∧ net.NotCutOff p h d act →
          net.step act = some net' → net'.Embeds P Q h d ∧ net'.Updated p h d := by
    rintro net act net' ⟨hnet, hupdated⟩ ⟨hdiff, horder, hnotCutOff⟩ hstep
    exact ⟨hnet.step hs hstart hdiff horder hstep,
      hnet.updated hs hdiff horder hnotCutOff hupdated hstep⟩
  exact Run.invariant hkeeps
    ⟨embeds_start config idealWorld, updated_start p h d config idealWorld⟩
    (Run.meets_and.mpr ⟨.of_forall hdiff _, horder⟩) hrun

end Run

end Network

end CollabMode
