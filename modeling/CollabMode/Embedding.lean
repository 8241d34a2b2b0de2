import CollabMode.Resetting
import CollabMode.Serving
import CollabMode.Replicas

/-!
# What the servers keep of the system

The clients of a document are sites of the system, and what the servers do with the document are
steps of it: a batch that arrives is received, a request of the editor is a row of edits,
deliveries and a batch, a file that is read again is an external change.  So an invariant of the
system holds of the servers, in every run that goes on in order (`GoesInOrder`).

In order means: batches arrive as they were sent and are taken, a copy is opened for a client of
which nothing is left, and a document starts with a text of which each character is one byte.
-/

namespace CollabMode

/-! ## Messages on the wire -/

/-- The batch of a document. -/
def Msg.batch? (d : DocId) : Msg → Option ContextOps
  | .opFromClient ops => if ops.doc = d then some ops else none
  | _ => none

/-- The snapshot of a document. -/
def Msg.snapshot? (d : DocId) : Msg → Option NewSnapshot
  | .snapshot made => if made.docId = d then some made else none
  | _ => none

theorem Msg.batch?_some {d : DocId} {msg : Msg} {ops : ContextOps} (h : msg.batch? d = some ops) :
    msg = .opFromClient ops ∧ ops.doc = d := by
  cases msg with
  | opFromClient ops' =>
      simp only [batch?, Option.ite_none_right_eq_some, Option.some_inj] at h
      exact ⟨congrArg _ h.2, h.2 ▸ h.1⟩
  | _ => cases h

theorem Msg.snapshot?_some {d : DocId} {msg : Msg} {made : NewSnapshot}
    (h : msg.snapshot? d = some made) : msg = .snapshot made ∧ made.docId = d := by
  cases msg with
  | snapshot made' =>
      simp only [snapshot?, Option.ite_none_right_eq_some, Option.some_inj] at h
      exact ⟨congrArg _ h.2, h.2 ▸ h.1⟩
  | _ => cases h

theorem Msg.docId?_of_asked? {d : DocId} {msg : Msg} (h : msg.asked? = some d) :
    msg.docId? = some d := by
  cases msg <;> first | exact h | cases h

namespace Network

section Pick

variable {β : Type} (p q : ServerId) (f : Msg → Option β)

/-- What `f` picks from a message of `p` to `q`. -/
def Packet.pick (packet : Packet) : Option β :=
  if packet.source = p ∧ packet.dest = q then f packet.body else none

variable {p q f}

theorem Packet.pick_some {packet : Packet} {b : β} (h : packet.pick p q f = some b) :
    packet.source = p ∧ packet.dest = q ∧ f packet.body = some b := by
  rw [pick, Option.ite_none_right_eq_some] at h
  exact ⟨h.1.1, h.1.2, h.2⟩

/-- What is picked from new messages is picked from what a server says about documents. -/
theorem pick_effects (hf : ∀ msg b, f msg = some b → msg.docId? ≠ none) (id : ServerId)
    (effects : List Effect) :
    (effects.filterMap (Effect.packet? id)).filterMap (Packet.pick p q f) =
      if id = p then (docMsgs effects).filterMap fun sent =>
        if sent.1 = q then f sent.2 else none
      else [] := by
  by_cases hid : id = p
  · subst hid
    rw [if_pos rfl, docMsgs, List.filterMap_filterMap, List.filterMap_filterMap]
    refine List.filterMap_congr fun e _ => ?_
    cases e with
    | send dest reqId body =>
        rw [Effect.packet?, Option.bind_some, Packet.pick, Effect.docMsg?]
        cases hdoc : body.docId? with
        | some d => simp
        | none =>
            have hnone : f body = none := by
              cases hb : f body with
              | none => rfl
              | some b => exact absurd hdoc (hf body b hb)
            simp [hnone]
    | _ => rfl
  · rw [if_neg hid]
    refine List.filterMap_eq_nil_iff.mpr fun packet hpacket => ?_
    obtain ⟨e, -, he⟩ := List.mem_filterMap.mp hpacket
    cases e with
    | send => cases he; exact if_neg fun hand => hid hand.1
    | _ => cases he

end Pick

/-- What the network has of the client `p` of document `d` of `h`. -/
def peer (self : Network) (p h : ServerId) (d : DocId) : Peer :=
  { copy := self.copy p h d
    up := self.wire.filterMap (Packet.pick p h (Msg.batch? d))
    snapshots := self.wire.filterMap (Packet.pick h p (Msg.snapshot? d)) }

section Turn

variable {os : Os} {net before after : Network} {id p h : ServerId} {event : Event}
  {effects : List Effect} {d : DocId}

/-- What is picked from the messages to the host goes on with what the client asks. -/
theorem Turn.pick_asked (hturn : Turn os before id event after effects) {β : Type}
    {f : Msg → Option β} (hf : ∀ msg b, f msg = some b → msg.asked? = some d) :
    after.wire.filterMap (Packet.pick p h f) = before.wire.filterMap (Packet.pick p h f) ++
      if id = p then (asked h d effects).filterMap f else [] := by
  rw [hturn.wire, List.filterMap_append, pick_effects]
  · congr 1
    refine if_congr Iff.rfl ?_ rfl
    rw [asked, List.filterMap_map, List.filterMap_filter]
    refine List.filterMap_congr fun sent _ => ?_
    cases hpick : f sent.2 with
    | none => simp [hpick]
    | some b => simp [hpick, hf _ _ hpick]
  · intro msg b hpick hdoc
    rw [Msg.docId?_of_asked? (hf msg b hpick)] at hdoc
    cases hdoc

/-- What is picked from the messages to a client goes on with what the host tells it. -/
theorem Turn.pick_told (hturn : Turn os before id event after effects) {β : Type}
    {f : Msg → Option β} (hf : ∀ msg b, f msg = some b → msg.told? = some d) :
    after.wire.filterMap (Packet.pick h p f) = before.wire.filterMap (Packet.pick h p f) ++
      if id = h then (told d effects).filterMap fun sent => if sent.1 = p then f sent.2 else none
      else [] := by
  rw [hturn.wire, List.filterMap_append, pick_effects]
  · congr 1
    refine if_congr Iff.rfl ?_ rfl
    rw [told, List.filterMap_filter]
    refine List.filterMap_congr fun sent _ => ?_
    cases hpick : f sent.2 with
    | none => simp
    | some b => simp [hf _ _ hpick]
  · intro msg b hpick hdoc
    rw [Msg.docId?_of_told? (hf msg b hpick)] at hdoc
    cases hdoc

theorem Turn.up (hturn : Turn os before id event after effects) :
    (after.peer p h d).up = (before.peer p h d).up ++
      if id = p then (asked h d effects).filterMap (Msg.batch? d) else [] :=
  hturn.pick_asked fun msg ops hbatch => by
    obtain ⟨rfl, hdoc⟩ := Msg.batch?_some hbatch
    exact congrArg some hdoc

theorem Turn.snapshots (hturn : Turn os before id event after effects) :
    (after.peer p h d).snapshots = (before.peer p h d).snapshots ++
      if id = h then (told d effects).filterMap fun sent =>
        if sent.1 = p then sent.2.snapshot? d else none
      else [] :=
  hturn.pick_told fun msg made hmade => by
    obtain ⟨rfl, hdoc⟩ := Msg.snapshot?_some hmade
    exact congrArg some hdoc

end Turn

/-! ## Runs in order -/

/-- The ops that the editor of a server sends for a file. -/
def Act.sends? : Act → Option (ServerId × List EditorFatOp × EditorFileDesc)
  | .turn _ id (.request _ (.sendOps ops file)) => some (id, ops, file)
  | _ => none

section GoesInOrder

variable (editC : Doc → RemoteDoc → EditorFatOp → Prop) (deliverC : RemoteDoc → FatOp Op → Prop)
  (h : ServerId) (d : DocId) (net : Network)

/-- A batch arrives before what its client sent later, and is taken.  None is lost. -/
def Arrives : Act → Prop
  | .turn _ _ _ => True
  | .lose index => ∀ packet ∈ net.wire[index]?, packet.dest = h → packet.body.batch? d = none
  | .deliver _ index => ∀ packet ∈ net.wire[index]?, packet.dest = h →
      ∀ ops ∈ packet.body.batch? d,
        (net.wire.take index).filterMap (Packet.pick packet.source h (Msg.batch? d)) = [] ∧
          (net.servers h).accepts ops packet.source = true

/-- A copy is opened for a client of which nothing is left. -/
def Joins : Act → Prop
  | .turn _ id event => id = h → (net.servers h).opening event = some d →
      (net.servers h).keepsCopy event = false →
        (net.peer h h d).up = [] ∧ (net.peer h h d).snapshots = []
  | .lose _ => True
  | .deliver os index => ∀ packet ∈ net.wire[index]?, packet.dest = h →
      ∀ turn ∈ (net.servers h).handle os packet.event, ∀ sent ∈ told d turn.2,
        sent.2.snapshot? d ≠ none → (net.peer sent.1 h d).Idle

/-- What the editor of a client sends meets the conditions. -/
def Edits (act : Act) : Prop :=
  ∀ sent ∈ act.sends?, sent.2.2.hostId = h → ∀ doc ∈ net.doc h d,
    ∀ found ∈ (net.servers sent.1).remoteDocs.getByEditorDesc sent.2.2,
      found.1 = d → found.2.SendMeets (editC doc) deliverC sent.2.1

/-- A new document has a text of which each character is one byte. -/
def Begins (act : Act) : Prop :=
  net.doc h d = none → ∀ net' ∈ net.step act, ∀ doc ∈ net'.doc h d, IsAscii doc.buffer

/-- The network goes on in order, and the host has site ids left. -/
structure GoesInOrder (act : Act) : Prop where
  arrives : net.Arrives h d act
  joins : net.Joins h d act
  edits : net.Edits editC deliverC h d act
  begins : net.Begins h d act
  left : (net.servers h).nextSiteId < externalProcessSiteId

instance (self : Peer) : Decidable self.Idle := inferInstanceAs (Decidable (_ ∧ _ ∧ _))

instance (act : Act) : Decidable (net.Arrives h d act) :=
  match act with
  | .turn _ _ _ => isTrue trivial
  | .lose index => inferInstanceAs (Decidable (∀ packet ∈ net.wire[index]?, _ → _))
  | .deliver _ index => inferInstanceAs (Decidable (∀ packet ∈ net.wire[index]?, _ →
      ∀ ops ∈ packet.body.batch? d, _ ∧ _))

instance (act : Act) : Decidable (net.Joins h d act) :=
  match act with
  | .turn _ _ _ => inferInstanceAs (Decidable (_ → _ → _ → _ ∧ _))
  | .lose _ => isTrue trivial
  | .deliver os index => inferInstanceAs (Decidable (∀ packet ∈ net.wire[index]?, _ →
      ∀ turn ∈ (net.servers h).handle os packet.event, ∀ sent ∈ told d turn.2, _ → _))

instance (act : Act) : Decidable (net.Begins h d act) :=
  inferInstanceAs (Decidable (_ → ∀ net' ∈ net.step act, ∀ doc ∈ net'.doc h d, _))

instance [∀ doc rd op, Decidable (editC doc rd op)] [∀ rd op, Decidable (deliverC rd op)]
    (act : Act) : Decidable (net.Edits editC deliverC h d act) :=
  inferInstanceAs (Decidable (∀ sent ∈ act.sends?, _ → ∀ doc ∈ net.doc h d,
    ∀ found ∈ (net.servers sent.1).remoteDocs.getByEditorDesc sent.2.2, _ → _))

instance [∀ doc rd op, Decidable (editC doc rd op)] [∀ rd op, Decidable (deliverC rd op)]
    (act : Act) : Decidable (net.GoesInOrder editC deliverC h d act) :=
  decidable_of_iff (net.Arrives h d act ∧ net.Joins h d act ∧
      net.Edits editC deliverC h d act ∧ net.Begins h d act ∧
      (net.servers h).nextSiteId < externalProcessSiteId)
    ⟨fun ⟨arrives, joins, edits, begins, left⟩ => ⟨arrives, joins, edits, begins, left⟩,
      fun h => ⟨h.arrives, h.joins, h.edits, h.begins, h.left⟩⟩

end GoesInOrder

/-- `before` is `net` without the message that is handled, which was the next of its client if it
is a batch. -/
structure Takes (h : ServerId) (d : DocId) (net before : Network) (id : ServerId) (event : Event) :
    Prop where
  hands : Hands net before id event
  up : ∀ p, (before.peer p h d).up = (net.peer p h d).up ∨ ∃ ops reqId, id = h ∧ ops.doc = d ∧
    event = .message { host := p, body := .opFromClient ops, reqId }
  batch : ∀ p ops reqId, id = h → ops.doc = d →
    event = .message { host := p, body := .opFromClient ops, reqId } →
      (net.peer p h d).up = ops :: (before.peer p h d).up ∧ (net.servers h).accepts ops p = true
  snapshots : ∀ p, (before.peer p h d).snapshots.Sublist (net.peer p h d).snapshots
  opens : ∀ made reqId, made.docId = d →
    event = .message { host := h, body := .snapshot made, reqId } →
      made ∈ (net.peer id h d).snapshots ∧
        (before.peer id h d).snapshots.length < (net.peer id h d).snapshots.length

section Takes

variable {net : Network} {id h : ServerId} {d : DocId} {event : Event}

theorem takes_local (hlocal : event.isLocal = true) : Takes h d net net id event where
  hands := hands_local hlocal
  up _ := .inl rfl
  batch p ops reqId _ _ heq := by
    rw [heq] at hlocal
    cases hlocal
  snapshots _ := .refl _
  opens made reqId _ heq := by
    rw [heq] at hlocal
    cases hlocal

theorem takes_deliver {os : Os} {index : Nat} {packet : Packet}
    (hpacket : net.wire[index]? = some packet) (harrives : net.Arrives h d (.deliver os index)) :
    Takes h d net (net.take index) packet.dest packet.event where
  hands := hands_take hpacket
  up p := by
    cases hpick : packet.pick p h (Msg.batch? d) with
    | none => exact .inl (filterMap_eraseIdx_of_none hpacket hpick)
    | some ops =>
        obtain ⟨hsource, hdest, hbatch⟩ := Packet.pick_some hpick
        obtain ⟨hbody, hdoc⟩ := Msg.batch?_some hbatch
        refine .inr ⟨ops, packet.reqId, hdest, hdoc, ?_⟩
        rw [Packet.event, hsource, hbody]
  batch p ops reqId hdest hdoc heq := by
    obtain ⟨hsource, hbody, -⟩ := Message.mk.inj (Event.message.inj heq)
    have hbatch : packet.body.batch? d = some ops := by
      rw [hbody, Msg.batch?, if_pos hdoc]
    have hpick : packet.pick p h (Msg.batch? d) = some ops :=
      (if_pos ⟨hsource, hdest⟩).trans hbatch
    obtain ⟨hfirst, haccepts⟩ := harrives packet hpacket hdest ops hbatch
    rw [hsource] at hfirst haccepts
    exact ⟨filterMap_eraseIdx_of_first hpacket hpick hfirst, haccepts⟩
  snapshots p := (List.eraseIdx_sublist _ _).filterMap _
  opens made reqId hdoc heq := by
    obtain ⟨hsource, hbody, -⟩ := Message.mk.inj (Event.message.inj heq)
    have hpick : packet.pick h packet.dest (Msg.snapshot? d) = some made := by
      rw [Packet.pick, if_pos ⟨hsource, rfl⟩, hbody, Msg.snapshot?, if_pos hdoc]
    refine ⟨List.mem_filterMap.mpr ⟨packet, List.mem_of_getElem? hpacket, hpick⟩, ?_⟩
    exact length_filterMap_eraseIdx hpacket hpick

end Takes

end Network

/-! ## The host -/

/-- The client when the host has left `up` of its batches and has sent it what is in `sent`. -/
def Peer.handed (self : Peer) (up : List ContextOps) (sent : List (ServerId × Msg)) (p : ServerId)
    (d : DocId) : Peer :=
  { self with
    up
    snapshots := self.snapshots ++ sent.filterMap fun sent =>
      if sent.1 = p then sent.2.snapshot? d else none }

theorem Peer.handed_of_quiet {self : Peer} {sent : List (ServerId × Msg)} {p : ServerId}
    {d : DocId} (hsent : ∀ s ∈ sent, s.1 = p → s.2.snapshot? d = none) (up : List ContextOps) :
    self.handed up sent p d = { self with up } := by
  have hnil : (sent.filterMap fun sent =>
      if sent.1 = p then sent.2.snapshot? d else none) = [] := by
    refine List.filterMap_eq_nil_iff.mpr fun s hs => ?_
    split
    next hp => exact hsent s hs hp
    next => rfl
  rw [handed, hnil, List.append_nil]

theorem Peer.handed_snapshot {self : Peer} {p : ServerId} {d : DocId} {made : NewSnapshot}
    (hdoc : made.docId = d) (up : List ContextOps) :
    self.handed up [(p, .snapshot made)] p d =
      { self with up, snapshots := self.snapshots ++ [made] } := by
  simp [handed, Msg.snapshot?, hdoc]

theorem snapshot?_of_tell {doc : Doc} {d d' : DocId} {ops : List (FatOp Op)} :
    ∀ s ∈ doc.tell d' ops, s.2.snapshot? d = none := by
  intro s hs
  obtain ⟨_, -, rfl⟩ := List.mem_map.mp hs
  rfl

section

variable {P : Doc → Prop} {Q : Doc → SiteId → Site → Prop}
  {editC : Doc → RemoteDoc → EditorFatOp → Prop} {deliverC : RemoteDoc → FatOp Op → Prop}
  (hs : System.Serves P Q editC deliverC) {d : DocId} {doc : Doc}

/-- Nothing of the client is handled or sent. -/
theorem Peer.Served.still {self : Peer} {worksAs : SiteId → Prop}
    (h : self.Served Q worksAs doc) {up : List ContextOps} (hup : up = self.up)
    {sent : List (ServerId × Msg)} {p : ServerId}
    (hquiet : ∀ s ∈ sent, s.1 = p → s.2.snapshot? d = none) :
    (self.handed up sent p d).Served Q worksAs doc := by
  rw [handed_of_quiet hquiet, hup]
  exact h

variable {peers : ServerId → Peer} {up : ServerId → List ContextOps}
  {worksAs : ServerId → SiteId → Prop}

include hs

/-- Nothing of any client is handled, and no snapshot is sent.  Subscribers may come and go. -/
theorem served_subscribers (hserved : ∀ p, (peers p).Served Q (worksAs p) doc)
    (subscribers : List (ServerId × LocalSeq)) (hleft : ∀ p, up p = (peers p).up)
    {sent : List (ServerId × Msg)} (hquiet : ∀ s ∈ sent, s.2.snapshot? d = none) (p : ServerId) :
    ((peers p).handed (up p) sent p d).Served Q (worksAs p) { doc with subscribers } :=
  ((hserved p).subscribers hs subscribers).still (hleft p) fun s hmem _ => hquiet s hmem

/-- One client, which has no copy, is sent what the document is now. -/
theorem served_opened (hdoc : P doc) (hnum : Numbered doc) {host : ServerId} {made : NewSnapshot}
    (habout : made.docId = d) (hmade : made.opens = (Site.join doc made.siteId).doc)
    (hidle : (peers host).Idle) (hid : worksAs host made.siteId)
    (hne : made.siteId ≠ externalProcessSiteId) (hleft : ∀ p, up p = (peers p).up)
    (hserved : ∀ p, p ≠ host → (peers p).Served Q (worksAs p) doc) (p : ServerId) :
    ((peers p).handed (up p) [(host, .snapshot made)] p d).Served Q (worksAs p) doc := by
  by_cases hp : p = host
  · subst hp
    obtain ⟨hcopy, hempty, hnil⟩ := hidle
    rw [Peer.handed_snapshot habout, hcopy, hnil, hleft p, hempty]
    refine .joined hs hdoc hnum hid hne rfl (Nat.le_refl 1) (fun _ hcopy => by cases hcopy)
      fun other hother => ?_
    cases List.mem_singleton.mp hother
    exact hmade
  · refine (hserved p hp).still (hleft p) fun s hmem heq => ?_
    cases List.mem_singleton.mp hmem
    exact absurd heq.symm hp

/-- The next batch of one client is handled.  It can be applied, and whoever is told of its ops
is sent no snapshot. -/
theorem served_accepted (hdoc : P doc) (hserved : ∀ p, (peers p).Served Q (worksAs p) doc)
    {host : ServerId} {ops : ContextOps} (hhead : (peers host).up = ops :: up host)
    (hleft : ∀ p, p ≠ host → up p = (peers p).up)
    (hapart : ∀ p q id, p ≠ q → worksAs p id → worksAs q id → False)
    {res : Except CollabError Unit} {applied : Doc}
    (applies : Doc.applyOps (doc.ordered ops.ops ops.context) (Server.recorded doc ops host) =
      some (res, applied)) :
    res = .ok () ∧ P applied ∧ ∀ p,
      ((peers p).handed (up p) (applied.tell d (doc.ordered ops.ops ops.context)) p d).Served Q
        (worksAs p) applied := by
  have hsubscribed := fun p => (hserved p).subscribers hs (Server.recorded doc ops host).subscribers
  obtain ⟨hok, hdoc', hself, hothers⟩ := (hsubscribed host).receive hs
    (hs.doc_subscribers _ _ hdoc) hhead applies
  refine ⟨hok, hdoc', fun p => ?_⟩
  rw [Peer.handed_of_quiet fun s hmem _ => snapshot?_of_tell s hmem]
  by_cases hp : p = host
  · subst hp
    exact hself
  · rw [hleft p hp]
    exact hothers (peers p) (worksAs p) (fun id => hapart host p id (Ne.symm hp)) (hsubscribed p)

end

namespace Server

variable {P : Text → Doc → Prop} {Q : Text → Doc → SiteId → Site → Prop}
  {editC : Doc → RemoteDoc → EditorFatOp → Prop} {deliverC : RemoteDoc → FatOp Op → Prop}
  {os : Os} {before : Server} {d : DocId} {event : Event} {now next : Option Doc}
  {sent : List (ServerId × Msg)}

/-- The host's turn is a step of the system, or none. -/
theorem HostStep.serves (hstep : HostStep os before d event now next sent)
    (hs : ∀ content, System.Serves (P content) (Q content) editC deliverC)
    (hstart : ∀ content, P content (System.start content).doc) (hdiff : Diffs os.diff)
    (peers : ServerId → Peer) (up : ServerId → List ContextOps)
    (worksAs : ServerId → SiteId → Prop)
    (hserved : ∀ doc, now = some doc → ∃ content, P content doc ∧
      ∀ p, (peers p).Served (Q content) (worksAs p) doc)
    (hearly : before.nextDocId ≤ d → ∀ p, (peers p).Idle)
    (hup : ∀ p, up p = (peers p).up ∨ ∃ ops reqId, ops.doc = d ∧
      event = .message { host := p, body := .opFromClient ops, reqId })
    (hbatch : ∀ p ops reqId, ops.doc = d →
      event = .message { host := p, body := .opFromClient ops, reqId } →
        (peers p).up = ops :: up p ∧ before.accepts ops p = true)
    (hjoins : ∀ s ∈ sent, s.2.snapshot? d ≠ none → (peers s.1).Idle)
    (hascii : now = none → ∀ doc, next = some doc → IsAscii doc.buffer)
    (hnumbered : ∀ doc, next = some doc → Numbered doc)
    (hsites : ∀ p made, (p, .snapshot made) ∈ sent →
      worksAs p made.siteId ∧ made.siteId ≠ externalProcessSiteId)
    (hapart : ∀ p q id, p ≠ q → worksAs p id → worksAs q id → False) :
    ∀ doc, next = some doc → ∃ content, P content doc ∧
      (now = none → doc.engine.internalDoc = InternalDoc.new doc.buffer.length) ∧
      ∀ p, ((peers p).handed (up p) sent p d).Served (Q content) (worksAs p) doc := by
  intro doc' hnext
  have hleft (hplain : ∀ p ops reqId, ops.doc = d →
      event ≠ .message { host := p, body := .opFromClient ops, reqId }) (p : ServerId) :
      up p = (peers p).up := by
    refine (hup p).resolve_right ?_
    rintro ⟨ops, reqId, hdoc, heq⟩
    exact hplain p ops reqId hdoc heq
  have hplain (hevent : event.asks d = false) : ∀ p ops reqId, ops.doc = d →
      event ≠ .message { host := p, body := .opFromClient ops, reqId } := by
    rintro p ops reqId hdoc rfl
    simp [Event.asks, Msg.asked?, hdoc] at hevent
  -- A document that is there is not made.
  have hthere {doc : Doc} {prop : Prop} (hnone : some doc = none) : prop := by cases hnone
  -- The client that is sent a snapshot has no copy.
  have hidle {host : ServerId} {made : NewSnapshot} (hsent : sent = [(host, .snapshot made)])
      (habout : made.docId = d) : (peers host).Idle ∧ worksAs host made.siteId ∧
        made.siteId ≠ externalProcessSiteId := by
    have hmem : (host, .snapshot made) ∈ sent := hsent ▸ List.mem_singleton_self _
    exact ⟨hjoins _ hmem (by simp [Msg.snapshot?, habout]), hsites host made hmem⟩
  cases hstep with
  | still unasked =>
      obtain ⟨content, hdoc, hpeers⟩ := hserved doc' hnext
      exact ⟨content, hdoc, fun hnone => hthere (hnext.symm.trans hnone), fun p =>
        (hpeers p).still (hleft (hplain unasked) p) (List.forall_mem_nil _)⟩
  | absent => cases hnext
  | refused about refuses =>
      exact absurd refuses (not_refuses_of_accepts (hbatch _ _ _ about rfl).2)
  | @accepted host reqId ops entry lastSeq res applied about allowed passes applies =>
      cases hnext
      obtain ⟨content, hdoc, hpeers⟩ := hserved _ rfl
      have hothers (p : ServerId) (hp : p ≠ host) : up p = (peers p).up := by
        refine (hup p).resolve_right ?_
        rintro ⟨_, _, -, heq⟩
        exact hp (Message.mk.inj (Event.message.inj heq)).1.symm
      obtain ⟨rfl, hdoc', hpeers'⟩ := served_accepted (hs content) hdoc hpeers
        (hbatch _ _ _ about rfl).1 hothers hapart applies
      exact ⟨content, hdoc', hthere, hpeers'⟩
  | subscribed =>
      cases hnext
      obtain ⟨content, hdoc, hpeers⟩ := hserved _ rfl
      refine ⟨content, (hs content).doc_subscribers _ _ hdoc, hthere,
        served_subscribers (hs content) hpeers _ (hleft (by simp)) fun s hmem => ?_⟩
      split at hmem
      next => cases hmem
      next => cases List.mem_singleton.mp hmem; rfl
  | unsubscribed =>
      cases hnext
      obtain ⟨content, hdoc, hpeers⟩ := hserved _ rfl
      exact ⟨content, (hs content).doc_subscribers _ _ hdoc, hthere,
        served_subscribers (hs content) hpeers _ (hleft (by simp)) (List.forall_mem_nil _)⟩
  | found =>
      cases hnext
      obtain ⟨content, hdoc, hpeers⟩ := hserved _ rfl
      obtain ⟨hidle, hid, hne⟩ := hidle rfl rfl
      exact ⟨content, hdoc, hthere, served_opened (hs content) hdoc (hnumbered _ rfl) rfl rfl hidle
        hid hne (hleft (by simp)) fun p _ => hpeers p⟩
  | @made host reqId file mode content name next =>
      cases hnext
      have hlen := (utf8Len_eq_length content).mpr (hascii rfl _ rfl)
      rw [hlen] at hnumbered ⊢
      obtain ⟨hidle, hid, hne⟩ := hidle rfl rfl
      exact ⟨content, hstart content, fun _ => rfl, served_opened (hs content) (hstart content)
        (hnumbered _ rfl) rfl rfl hidle hid hne (hleft (by simp))
        fun p _ => .inl (hearly (Nat.le_of_eq next.symm) p)⟩
  | @madeOwn _ content unasked next =>
      cases hnext
      have hlen := (utf8Len_eq_length content).mpr (hascii rfl _ rfl)
      rw [hlen]
      exact ⟨content, (hs content).doc_subscribers _ _ (hstart content), fun _ => rfl, fun p =>
        Peer.Served.still (.inl (hearly (Nat.le_of_eq next.symm) p)) (hleft (hplain unasked) p)
          (List.forall_mem_nil _)⟩
  | openedOwn =>
      cases hnext
      obtain ⟨content, hdoc, hpeers⟩ := hserved _ rfl
      exact ⟨content, (hs content).doc_subscribers _ _ hdoc, hthere,
        served_subscribers (hs content) hpeers _ (hleft (by simp)) (List.forall_mem_nil _)⟩
  | reset unasked applies tells =>
      cases hnext
      obtain ⟨content, hdoc, hpeers⟩ := hserved _ rfl
      obtain ⟨hdoc', hreset⟩ := Peer.Served.reset (hs content) hdoc
        ⟨hdiff.old _ _, hdiff.nonempty _ _⟩ applies
      refine ⟨content, hdoc', hthere, fun p =>
        (hreset _ _ (hpeers p)).still (hleft (hplain unasked) p) fun s hmem _ => ?_⟩
      rcases tells with rfl | ⟨processed, -, rfl⟩
      · cases hmem
      · exact snapshot?_of_tell s hmem
  | closed => cases hnext

/-! ## The client -/

variable {after : Server} {effects : List Effect} {h : ServerId}

theorem asked?_of_asked {msg : Msg} (hmem : msg ∈ asked h d effects) : msg.asked? = some d := by
  obtain ⟨sent, hsent, rfl⟩ := List.mem_map.mp hmem
  exact (of_decide_eq_true (List.mem_filter.mp hsent).2).2

/-- The ops of the editor leave the documents of the host alone. -/
theorem Handled.docs_of_sendOps {reqId : RequestId} {ops : List EditorFatOp}
    {file : EditorFileDesc} (hturn : Handled os before (.request reqId (.sendOps ops file)) after
      effects) : after.docs = before.docs := by
  cases hturn with
  | idle _ tables => exact docs_of_tables tables
  | sendOps hturn =>
      simp only [handleSendOpsFromEditor] at hturn
      split at hturn
      next => cases hturn; rfl
      next =>
          simp only [Option.bind_eq_bind, Option.bind_eq_some_iff, Prod.exists] at hturn
          obtain ⟨res, doc, -, hturn⟩ := hturn
          split at hturn <;> cases hturn <;> rfl

/-- The turn of the client is a row of steps of its site, or opens a copy. -/
theorem Handled.serves (hturn : Handled os before event after effects) {content : Text}
    (hs : System.Serves (P content) (Q content) editC deliverC) {self self' : Peer}
    {worksAs : SiteId → Prop} {doc : Doc} (hdoc : P content doc) (hnumbered : Numbered doc)
    (hserved : self.Served (Q content) worksAs doc)
    (hcopy : self.copy = before.remoteDocs.get h d)
    (hcopy' : self'.copy = after.remoteDocs.get h d)
    (hup : self'.up = self.up ++ (asked h d effects).filterMap (Msg.batch? d))
    (hless : self'.snapshots.Sublist self.snapshots)
    (hinOrder : ∀ entry, self.copy = some entry → entry.InOrder doc.engine.gh.global)
    (hopens : ∀ made reqId, made.docId = d →
      event = .message { host := h, body := .snapshot made, reqId } →
        made ∈ self.snapshots ∧ self'.snapshots.length < self.snapshots.length)
    (hmeets : ∀ reqId ops file entry, event = .request reqId (.sendOps ops file) →
      file.hostId = h → before.remoteDocs.getByEditorDesc file = some (d, entry) →
        entry.SendMeets (editC doc) deliverC ops)
    (hhosted : h = before.hostId → after.hosted d = some doc)
    (hown : h = before.hostId → before.opening event = some d → before.keepsCopy event = false →
      self.up = [] ∧ self.snapshots = [] ∧ worksAs before.siteId ∧
        before.siteId ≠ externalProcessSiteId ∧
        (d = before.nextDocId → doc.engine.internalDoc = InternalDoc.new doc.buffer.length)) :
    self'.Served (Q content) worksAs doc := by
  have hquiet (hasked : ∀ msg ∈ asked h d effects, ∀ ops, msg ≠ .opFromClient ops) :
      self'.up = self.up := by
    rw [hup, List.filterMap_eq_nil_iff.mpr, List.append_nil]
    intro msg hmem
    cases hbatch : msg.batch? d with
    | none => rfl
    | some ops => exact absurd (Msg.batch?_some hbatch).1 (hasked msg hmem ops)
  have hsame (hafter : after.remoteDocs.get h d = before.remoteDocs.get h d)
      (hasked : asked h d effects = []) : self'.Served (Q content) worksAs doc := by
    refine hserved.less (hquiet (hasked ▸ List.forall_mem_nil _)) (.inr ?_) hless
    rw [hcopy', hafter, hcopy]
  have hends (hafter : after.remoteDocs.get h d = none)
      (hasked : ∀ msg ∈ asked h d effects, ∀ ops, msg ≠ .opFromClient ops) :
      self'.Served (Q content) worksAs doc :=
    hserved.less (hquiet hasked) (.inl (hcopy'.trans hafter)) hless
  by_cases hopen : h = before.hostId ∧ opensFile event = true
  · obtain ⟨rfl, hopen⟩ := hopen
    have hasked := hturn.asked_of_opens hopen before.hostId d
    cases hturn.openStep hopen d with
    | still _ copy => exact hsame copy hasked
    | kept _ _ _ copy => exact hsame copy hasked
    | opened opens keeps _ _ hosted entry copy internalDoc made internal =>
        cases (hhosted rfl).symm.trans hosted
        obtain ⟨hempty, hnil, hid, hne, hnew⟩ := hown rfl opens keeps
        rw [hnil, List.sublist_nil] at hless
        refine .joined hs hdoc hnumbered hid hne ?_ ?_ ?_ ?_
        · rw [hquiet (hasked ▸ List.forall_mem_nil _), hempty]
        · rw [hcopy', copy, hless]
          exact Nat.le_refl 1
        · intro entry' hentry
          cases hentry.symm.trans (hcopy'.trans copy)
          rcases internal with rfl | ⟨hmade, rfl⟩
          · exact made
          · rw [made, ← hnew hmade]
            rfl
        · rw [hless]
          exact nofun
  by_cases hsend : ∃ reqId ops file, event = .request reqId (.sendOps ops file)
  · obtain ⟨reqId, ops, file, rfl⟩ := hsend
    cases hturn with
    | idle away tables quiet =>
        exact hsame (by rw [remoteDocs_of_tables tables]) (asked_of_quiet quiet h d)
    | sendOps hturn =>
        rcases copy_of_sendOps hturn h d with ⟨hafter, hasked⟩ | ⟨hnone, hasked⟩ |
            ⟨entry, leanOps, batch, rd, hfile, hfound, hget, hsends, hafter, hasked⟩
        · exact hsame hafter hasked
        · exact hends hnone (hasked ▸ List.forall_mem_nil _)
        · have hentry := hcopy.trans hget
          have hbatch : (asked h d effects).filterMap (Msg.batch? d) = batch.toList := by
            cases batch with
            | none => rw [hasked]; rfl
            | some ops =>
                have hdoc : ops.doc = d := Option.some.inj
                  (asked?_of_asked (hasked ▸ List.mem_singleton_self _ :
                    .opFromClient ops ∈ asked h d effects))
                rw [hasked]
                exact List.filterMap_cons_some (if_pos hdoc)
          exact hserved.sent hs hdoc hentry (hinOrder entry hentry)
            (hmeets reqId ops file entry rfl hfile hfound) hsends (hbatch ▸ hup)
            (hcopy'.trans hafter) hless
  have hrequest : ∀ reqId req, event = .request reqId req → h = before.hostId →
      after.remoteDocs.get h d = before.remoteDocs.get h d ∨ after.remoteDocs.get h d = none := by
    rintro reqId req rfl hh
    refine hturn.copy_of_request ?_ (fun ops file heq => hsend ⟨reqId, ops, file, heq ▸ rfl⟩) h d
    simpa [hh] using hopen
  have hstep := hturn.clientStep h d
  generalize hbefore : before.remoteDocs.get h d = copy at *
  generalize hafter : after.remoteDocs.get h d = copy' at *
  generalize asked h d effects = asks at *
  cases hstep with
  | still => exact hsame rfl rfl
  | ended | closed => exact hends rfl nofun
  | kept keeps =>
      refine hserved.kept hcopy (RemoteDoc.bare_of_keepServerOps keeps) (hquiet ?_) hcopy' hless
      intro msg hmem ops heq
      obtain ⟨_, -, rfl⟩ := List.mem_map.mp hmem
      cases heq
  | unnumbered =>
      refine hends rfl fun msg hmem ops heq => ?_
      obtain ⟨_, -, rfl⟩ := List.mem_map.mp hmem
      cases heq
  | stray | dropped => exact hends rfl (by simp)
  | opened about made =>
      obtain ⟨hmem, hlt⟩ := hopens _ _ about rfl
      exact hserved.opened hmem made (hquiet (by simp)) hcopy' hlt
  | openedOwn own => 
      rcases hrequest _ _ rfl own with hkept | hnone
      · exact hsame hkept rfl
      · cases hnone
  | sent => exact absurd ⟨_, _, _, rfl⟩ hsend

/-- A client without a copy gets one from a snapshot, or is the host itself and opens one. -/
theorem Handled.copy_of_none (hturn : Handled os before event after effects)
    (hcopy : before.remoteDocs.get h d = none)
    (hsnapshot : ∀ made reqId, event = .message { host := h, body := .snapshot made, reqId } →
      made.docId ≠ d) :
    (after.remoteDocs.get h d = none ∧
        ∀ msg ∈ asked h d effects, ∀ ops, msg ≠ .opFromClient ops) ∨
      h = before.hostId ∧ before.opening event = some d ∧ before.keepsCopy event = false ∧
        asked h d effects = [] ∧ after.recordedOf h d = some 0 ∧
        ∃ doc entry internalDoc, after.hosted d = some doc ∧
          after.remoteDocs.get h d = some entry ∧
          entry.toRemoteDoc = RemoteDoc.new doc.buffer
            (ClientEngine.new before.siteId doc.engine.currentSeq internalDoc) := by
  by_cases hopen : h = before.hostId ∧ opensFile event = true
  · obtain ⟨rfl, hopen⟩ := hopen
    have hasked := hturn.asked_of_opens hopen before.hostId d
    cases hturn.openStep hopen d with
    | still _ copy => exact .inl ⟨copy.trans hcopy, hasked ▸ List.forall_mem_nil _⟩
    | kept _ _ _ copy => exact .inl ⟨copy.trans hcopy, hasked ▸ List.forall_mem_nil _⟩
    | opened opens keeps recorded doc hosted entry copy internalDoc made =>
        exact .inr ⟨rfl, opens, keeps, hasked, recorded, doc, entry, internalDoc, hosted, copy,
          made⟩
  · refine .inl (hturn.copy_none (fun hh => ?_) hcopy hsnapshot)
    simpa [hh] using hopen

end Server

/-! ## The network -/

theorem exists_send_of_told {effects : List Effect} {d : DocId} {host : ServerId} {msg : Msg}
    (h : (host, msg) ∈ told d effects) : ∃ reqId, .send host reqId msg ∈ effects := by
  obtain ⟨e, he, hdoc⟩ := List.mem_filterMap.mp (List.mem_filter.mp h).1
  cases e with
  | send dest reqId body =>
      obtain ⟨_, -, heq⟩ := Option.map_eq_some_iff.mp hdoc
      cases heq
      exact ⟨reqId, he⟩
  | _ => cases hdoc

namespace Network

variable {P : Text → Doc → Prop} {Q : Text → Doc → SiteId → Site → Prop}
  {editC : Doc → RemoteDoc → EditorFatOp → Prop} {deliverC : RemoteDoc → FatOp Op → Prop}
  {h : ServerId} {d : DocId}

/-- The document and its clients are the host and the sites of a system in which `P` and `Q`
hold. -/
structure Embeds (P : Text → Doc → Prop) (Q : Text → Doc → SiteId → Site → Prop) (h : ServerId)
    (d : DocId) (net : Network) : Prop where
  sited : net.Sited
  shares : ∃ history, net.Shares h d history
  early : (net.servers h).nextDocId ≤ d → ∀ p, (net.peer p h d).Idle
  served : ∀ doc, net.doc h d = some doc → ∃ content, P content doc ∧
    ∀ p, (net.peer p h d).Served (Q content) (net.WorksAs p h) doc

theorem embeds_start (config : ServerId → Config) (idealWorld : ServerId → WorldState) :
    (start config idealWorld).Embeds P Q h d where
  sited := sited_start config idealWorld
  shares := ⟨[], shares_start h d config idealWorld⟩
  early _ _ := ⟨rfl, rfl, rfl⟩
  served := nofun

section Turn

variable {os : Os} {net before after : Network} {id : ServerId} {event : Event}
  {effects : List Effect}

/-- Before the document is made there is nothing of a client. -/
theorem Turn.idle (hturn : Turn os before id event after effects)
    (htakes : Takes h d net before id event) (hok : before.Ok)
    (hidle : ∀ p, (net.peer p h d).Idle) (hearly : (after.servers h).nextDocId ≤ d) (p : ServerId) :
    (after.peer p h d).Idle := by
  have hnone : after.doc h d = none := ((hturn.ok hok).ids h).hosted_of_le hearly
  obtain ⟨hcopy, hup, hsnapshots⟩ := hidle p
  have hleft : (before.peer p h d).up = [] := by
    rcases htakes.up p with hsame | ⟨ops, reqId, hid, hdoc, hevent⟩
    · exact hsame.trans hup
    · cases (htakes.batch p ops reqId hid hdoc hevent).1.symm.trans hup
  have hcopy : before.copy p h d = none := by rw [copy, htakes.hands.servers]; exact hcopy
  have hclient : id = p → after.copy p h d = none ∧
      ∀ msg ∈ asked h d effects, ∀ ops, msg ≠ .opFromClient ops := by
    rintro rfl
    have hsnapshot (made : NewSnapshot) (reqId : Option RequestId)
        (hevent : event = .message { host := h, body := .snapshot made, reqId }) :
        made.docId ≠ d := by
      intro hdoc
      obtain ⟨hmem, -⟩ := htakes.opens made reqId hdoc hevent
      rw [hsnapshots] at hmem
      cases hmem
    rcases hturn.handled.copy_of_none hcopy hsnapshot with
      hstill | ⟨hhost, -, -, -, -, doc, _, _, hosted, -⟩
    · exact hstill
    · -- A document that was opened would be there.
      rw [hok.hostId] at hhost
      subst hhost
      cases hnone.symm.trans hosted
  refine ⟨?_, ?_, ?_⟩
  · by_cases hp : id = p
    · exact (hclient hp).1
    · exact (hturn.copy_of_ne (Ne.symm hp) h d).trans hcopy
  · rw [hturn.up, hleft]
    split
    next hp =>
        refine List.filterMap_eq_nil_iff.mpr fun msg hmem => ?_
        cases hbatch : msg.batch? d with
        | none => rfl
        | some ops => exact absurd (Msg.batch?_some hbatch).1 ((hclient hp).2 msg hmem ops)
    next => rfl
  · have hkept : (before.peer p h d).snapshots = [] :=
      List.sublist_nil.mp (hsnapshots ▸ htakes.snapshots p)
    rw [hturn.snapshots, hkept]
    split
    next hid =>
        subst hid
        refine List.filterMap_eq_nil_iff.mpr fun sent hmem => ?_
        split
        next =>
            cases hmade : sent.2.snapshot? d with
            | none => rfl
            | some made =>
                obtain ⟨host, msg⟩ := sent
                obtain ⟨rfl, -⟩ := Msg.snapshot?_some hmade
                exact absurd hnone ((hturn.hostStep hok d).snapshot hmem)
        next => rfl
    next => rfl

/-- What a client has when the host has handled its message, and nothing but what the host sends
has come of the turn yet. -/
def handedOver (net before : Network) (h : ServerId) (d : DocId) (id : ServerId)
    (effects : List Effect) (p : ServerId) : Peer :=
  (net.peer p h d).handed (before.peer p h d).up (if id = h then told d effects else []) p d

/-- What is sent to the client comes after what was on its way, with the message or without it. -/
theorem Turn.snapshots_sublist (hturn : Turn os before id event after effects)
    (htakes : Takes h d net before id event) (p : ServerId) :
    (after.peer p h d).snapshots.Sublist (net.handedOver before h d id effects p).snapshots ∧
      ((before.peer p h d).snapshots.length < (net.peer p h d).snapshots.length →
        (after.peer p h d).snapshots.length <
          (net.handedOver before h d id effects p).snapshots.length) := by
  have hsnapshots : (after.peer p h d).snapshots = (before.peer p h d).snapshots ++
      (if id = h then told d effects else []).filterMap fun sent =>
        if sent.1 = p then sent.2.snapshot? d else none := by
    rw [hturn.snapshots]
    split
    next => rfl
    next => rfl
  rw [hsnapshots]
  refine ⟨(htakes.snapshots p).append (.refl _), fun hlt => ?_⟩
  rw [handedOver, Peer.handed, List.length_append, List.length_append]
  exact Nat.add_lt_add_right hlt _

/-- A host that opens the file for its own editor sends nobody a snapshot. -/
theorem Turn.quiet_of_opening (hturn : Turn os before h event after effects) (hok : before.Ok)
    (hopens : (before.servers h).opening event = some d) :
    ∀ sent ∈ told d effects, sent.2.snapshot? d = none := by
  rintro ⟨host, msg⟩ hmem
  cases hmade : msg.snapshot? d with
  | none => rfl
  | some made =>
      obtain ⟨rfl, -⟩ := Msg.snapshot?_some hmade
      obtain ⟨-, _, _, _, rfl⟩ := (hturn.hostStep hok d).of_snapshot hmem
      cases hopens

/-- Then nothing is on the way to the host's own copy, if nothing was. -/
theorem Turn.own_handedOver (hturn : Turn os before h event after effects) (hok : before.Ok)
    (htakes : Takes h d net before h event) (hopens : (before.servers h).opening event = some d)
    (hidle : (net.peer h h d).up = [] ∧ (net.peer h h d).snapshots = []) :
    (net.handedOver before h d h effects h).up = [] ∧
      (net.handedOver before h d h effects h).snapshots = [] := by
  constructor
  · show (before.peer h h d).up = []
    rcases htakes.up h with hsame | ⟨_, _, -, -, rfl⟩
    · exact hsame.trans hidle.1
    · cases hopens
  · rw [handedOver, if_pos rfl,
      Peer.handed_of_quiet fun sent hmem _ => hturn.quiet_of_opening hok hopens sent hmem]
    exact hidle.2

/-- The editor's ops leave the document as it is. -/
theorem Turn.doc_of_sendOps {reqId : RequestId} {ops : List EditorFatOp} {file : EditorFileDesc}
    (hturn : Turn os before id (.request reqId (.sendOps ops file)) after effects) :
    after.doc h d = before.doc h d := by
  by_cases hid : h = id
  · rw [hid, Network.doc, Server.hosted_of_docs hturn.handled.docs_of_sendOps]
    rfl
  · exact hturn.doc_of_ne hid d

section

variable (hnet : net.Embeds P Q h d)
  (hs : ∀ content, System.Serves (P content) (Q content) editC deliverC)
  (hturn : Turn os before id event after effects) (htakes : Takes h d net before id event)
  {history : List (FatOp Op)} (hshares : after.Shares h d history) {doc : Doc}
  (hdoc : after.doc h d = some doc)
include hnet hs hturn htakes hshares hdoc

/-- What the host does. -/
theorem Embeds.host_serves (hstart : ∀ content, P content (System.start content).doc)
    (hdiff : Diffs os.diff) (hsited : after.Sited)
    (hworks : ∀ p site, net.WorksAs p h site → after.WorksAs p h site)
    (hjoins : id = h → ∀ sent ∈ told d effects, sent.2.snapshot? d ≠ none →
      (net.peer sent.1 h d).Idle)
    (hascii : net.doc h d = none → ∀ doc, after.doc h d = some doc → IsAscii doc.buffer)
    (hleft : (net.servers h).nextSiteId < externalProcessSiteId) :
    ∃ content, P content doc ∧
      (net.doc h d = none → doc.engine.internalDoc = InternalDoc.new doc.buffer.length) ∧
      ∀ p, (net.handedOver before h d id effects p).Served (Q content) (after.WorksAs p h) doc := by
  have hservers := htakes.hands.servers
  have hok : before.Ok := ⟨hservers ▸ hnet.sited.ok.hostId, hservers ▸ hnet.sited.ok.ids⟩
  simp only [handedOver]
  by_cases hid : id = h
  · subst hid
    rw [if_pos rfl]
    have hstep := hturn.hostStep hok d
    rw [Network.doc, hservers] at hstep
    refine hstep.serves hs hstart hdiff (fun p => net.peer p id d)
      (fun p => (before.peer p id d).up) (fun p => after.WorksAs p id) (fun doc hdoc => ?_)
      hnet.early (fun p => ?_) (fun p ops reqId => htakes.batch p ops reqId rfl) (hjoins rfl)
      hascii (fun doc hdoc => (hshares.logs doc hdoc).numbered) (fun p made hmem => ?_)
      (fun p q site hne hp hq => hne (hsited.eq_of_worksAs hp hq)) doc hdoc
    · obtain ⟨content, hP, hpeers⟩ := hnet.served doc hdoc
      exact ⟨content, hP, fun p => (hpeers p).mono (hworks p)⟩
    · refine (htakes.up p).imp_right ?_
      rintro ⟨ops, reqId, -, hbatch⟩
      exact ⟨ops, reqId, hbatch⟩
    · obtain ⟨reqId, hsend⟩ := exists_send_of_told hmem
      have hget := hturn.handled.snapshot_site (hok.ids id) hsend
      have hlt := ((hsited.sites id).range p made.siteId hget).2
      have hnext := hturn.handled.sites_next_le
      rw [hservers] at hnext
      exact ⟨.inr hget, Nat.ne_of_lt (hlt.trans_le (hnext.trans hleft))⟩
  · rw [hturn.doc_of_ne (Ne.symm hid), Network.doc, hservers] at hdoc
    obtain ⟨content, hP, hpeers⟩ := hnet.served doc hdoc
    refine ⟨content, hP, (fun hnone => by cases hnone.symm.trans hdoc), fun p => ?_⟩
    rw [if_neg hid]
    refine ((hpeers p).mono (hworks p)).still ((htakes.up p).resolve_right ?_)
      (List.forall_mem_nil _)
    rintro ⟨_, _, heq, -⟩
    exact hid heq

/-- What the client does whose turn it is. -/
theorem Embeds.client_serves {content : Text} (hP : P content doc)
    (hnew : net.doc h d = none →
      doc.engine.internalDoc = InternalDoc.new doc.buffer.length)
    (hpeer : (net.handedOver before h d id effects id).Served (Q content) (after.WorksAs id h) doc)
    (hcopies : ∀ entry, net.copy id h d = some entry → entry.InOrder history)
    (hown : id = h → (net.servers h).opening event = some d →
      (net.servers h).keepsCopy event = false →
        (net.peer h h d).up = [] ∧ (net.peer h h d).snapshots = [])
    (hedits : ∀ reqId ops file entry doc, event = .request reqId (.sendOps ops file) →
      file.hostId = h → net.doc h d = some doc →
        (net.servers id).remoteDocs.getByEditorDesc file = some (d, entry) →
          entry.SendMeets (editC doc) deliverC ops) :
    (after.peer id h d).Served (Q content) (after.WorksAs id h) doc := by
  have hservers := htakes.hands.servers
  have hok : before.Ok := ⟨hservers ▸ hnet.sited.ok.hostId, hservers ▸ hnet.sited.ok.ids⟩
  have hnumbered := (hshares.logs doc hdoc).numbered
  obtain ⟨hless, hshorter⟩ := hturn.snapshots_sublist htakes id
  refine hturn.handled.serves (hs content) hP hnumbered hpeer ?_ rfl ?_ hless ?_ ?_ ?_ ?_ ?_
  · rw [hservers]
    rfl
  · rw [hturn.up, if_pos rfl]
    rfl
  · rw [(hshares.logs doc hdoc).global]
    exact hcopies
  · intro made reqId habout hevent
    obtain ⟨hmem, hlt⟩ := htakes.opens made reqId habout hevent
    exact ⟨List.mem_append_left _ hmem, hshorter hlt⟩
  · intro reqId ops file entry hevent hfile hfound
    subst hevent
    rw [hservers] at hfound
    have hsame : after.doc h d = net.doc h d := by
      rw [hturn.doc_of_sendOps, Network.doc, hservers]
      rfl
    exact hedits reqId ops file entry doc rfl hfile (hsame ▸ hdoc) hfound
  · intro hh
    rw [hok.hostId] at hh
    exact hh ▸ hdoc
  · intro hh hopens hkeeps
    rw [hok.hostId] at hh
    subst hh
    rw [hservers] at hopens hkeeps
    obtain ⟨hup, hnil⟩ := hturn.own_handedOver hok htakes (hservers ▸ hopens)
      (hown rfl hopens hkeeps)
    rw [hservers]
    refine ⟨hup, hnil, .inl ⟨rfl, hnet.sited.own h⟩, ?_, fun hmade => hnew ?_⟩
    · rw [hnet.sited.own h]
      decide
    · exact (hnet.sited.ok.ids h).hosted_of_le (Nat.le_of_eq hmade.symm)

end

/-- A turn of a server. -/
theorem Embeds.turn (hnet : net.Embeds P Q h d)
    (hs : ∀ content, System.Serves (P content) (Q content) editC deliverC)
    (hstart : ∀ content, P content (System.start content).doc) (hdiff : Diffs os.diff)
    (hturn : Turn os before id event after effects) (htakes : Takes h d net before id event)
    (hsited : after.Sited) (hworks : ∀ p site, net.WorksAs p h site → after.WorksAs p h site)
    {history : List (FatOp Op)} (hshares : after.Shares h d history)
    (hcopies : ∀ p entry, net.copy p h d = some entry → entry.InOrder history)
    (hjoins : id = h → ∀ sent ∈ told d effects, sent.2.snapshot? d ≠ none →
      (net.peer sent.1 h d).Idle)
    (hown : id = h → (net.servers h).opening event = some d →
      (net.servers h).keepsCopy event = false →
        (net.peer h h d).up = [] ∧ (net.peer h h d).snapshots = [])
    (hedits : ∀ reqId ops file entry doc, event = .request reqId (.sendOps ops file) →
      file.hostId = h → net.doc h d = some doc →
        (net.servers id).remoteDocs.getByEditorDesc file = some (d, entry) →
          entry.SendMeets (editC doc) deliverC ops)
    (hascii : net.doc h d = none → ∀ doc, after.doc h d = some doc → IsAscii doc.buffer)
    (hleft : (net.servers h).nextSiteId < externalProcessSiteId) : after.Embeds P Q h d := by
  have hservers := htakes.hands.servers
  have hok : before.Ok := ⟨hservers ▸ hnet.sited.ok.hostId, hservers ▸ hnet.sited.ok.ids⟩
  have hearly (hle : (after.servers h).nextDocId ≤ d) : (net.servers h).nextDocId ≤ d := by
    by_cases hid : id = h
    · subst hid
      rw [← hservers]
      exact hturn.handled.nextDocId_le.trans hle
    · rwa [hturn.others h (Ne.symm hid), hservers] at hle
  refine ⟨hsited, ⟨history, hshares⟩,
    fun hle => hturn.idle htakes hok (hnet.early (hearly hle)) hle, fun doc hdoc => ?_⟩
  obtain ⟨content, hP, hnew, hpeers⟩ := hnet.host_serves hs hturn htakes hshares hdoc hstart hdiff
    hsited hworks hjoins hascii hleft
  refine ⟨content, hP, fun p => ?_⟩
  by_cases hp : id = p
  · subst hp
    exact hnet.client_serves hs hturn htakes hshares hdoc hP hnew (hpeers id) (hcopies id) hown
      hedits
  · refine (hpeers p).less ?_ (.inr ?_) (hturn.snapshots_sublist htakes p).1
    · rw [hturn.up, if_neg hp, List.append_nil]
      rfl
    · rw [show (after.peer p h d).copy = _ from hturn.copy_of_ne (Ne.symm hp) h d, copy, hservers]
      rfl

end Turn

/-- What the system of the step says about changed files is a diff. -/
def Act.Diffs : Act → Prop
  | .turn os _ _ => CollabMode.Diffs os.diff
  | .deliver os _ => CollabMode.Diffs os.diff
  | .lose _ => True

variable {net net' : Network}

/-- A message is lost that is no batch. -/
theorem Embeds.lose (hnet : net.Embeds P Q h d) {index : Nat}
    (harrives : net.Arrives h d (.lose index)) (hsited : (net.take index).Sited)
    (hshares : ∃ history, (net.take index).Shares h d history) :
    (net.take index).Embeds P Q h d := by
  have hup (p : ServerId) : ((net.take index).peer p h d).up = (net.peer p h d).up := by
    cases hpacket : net.wire[index]? with
    | none =>
        have hlen := List.getElem?_eq_none_iff.mp hpacket
        show (net.wire.eraseIdx index).filterMap _ = _
        rw [List.eraseIdx_of_length_le hlen]
        rfl
    | some packet =>
        refine filterMap_eraseIdx_of_none hpacket ?_
        rw [Packet.pick]
        split
        next hand => exact harrives packet hpacket hand.2
        next => rfl
  have hless (p : ServerId) :
      ((net.take index).peer p h d).snapshots.Sublist (net.peer p h d).snapshots :=
    (List.eraseIdx_sublist _ _).filterMap _
  refine ⟨hsited, hshares, fun hle p => ?_, fun doc hdoc => ?_⟩
  · obtain ⟨hcopy, hempty, hnil⟩ := hnet.early hle p
    exact ⟨hcopy, (hup p).trans hempty, List.sublist_nil.mp (hnil ▸ hless p)⟩
  · obtain ⟨content, hP, hpeers⟩ := hnet.served doc hdoc
    exact ⟨content, hP, fun p => (hpeers p).less (hup p) (.inr rfl) (hless p)⟩

theorem Embeds.step (hnet : net.Embeds P Q h d)
    (hs : ∀ content, System.Serves (P content) (Q content) editC deliverC)
    (hstart : ∀ content, P content (System.start content).doc) {act : Act} (hdiff : act.Diffs)
    (horder : net.GoesInOrder editC deliverC h d act) (hstep : net.step act = some net') :
    net'.Embeds P Q h d := by
  obtain ⟨hsited, hworks⟩ := hnet.sited.step hstep
  obtain ⟨history, hshares⟩ := hnet.shares
  obtain ⟨-, new, hshares'⟩ := hshares.step hnet.sited.ok hstep
  have hcopies (p : ServerId) (entry : RemoteDocEntry) (hcopy : net.copy p h d = some entry) :
      entry.InOrder (history ++ new) :=
    ((hshares.copies p entry hcopy).mono new).inOrder
  have hascii (hnone : net.doc h d = none) := horder.begins hnone net' hstep
  cases act with
  | turn os id event =>
      simp only [Network.step] at hstep
      split at hstep
      next hlocal =>
          obtain ⟨effects, hturn⟩ := turn_of_handle hstep
          refine hnet.turn hs hstart hdiff hturn (takes_local hlocal) hsited
            (fun p site => hworks p h site) hshares' hcopies ?_ horder.joins ?_ hascii horder.left
          · rintro - ⟨host, msg⟩ hmem hsome
            obtain ⟨made, hmade⟩ := Option.ne_none_iff_exists'.mp hsome
            obtain ⟨rfl, -⟩ := Msg.snapshot?_some hmade
            obtain ⟨-, _, _, _, rfl⟩ := (hturn.hostStep hnet.sited.ok d).of_snapshot hmem
            cases hlocal
          · rintro reqId ops file entry doc rfl hfile hdoc hfound
            exact horder.edits _ rfl hfile doc hdoc (d, entry) hfound rfl
      next => cases hstep
  | deliver os index =>
      simp only [Network.step, Option.bind_eq_bind, Option.bind_eq_some_iff] at hstep
      obtain ⟨packet, hpacket, hhandle⟩ := hstep
      obtain ⟨effects, hturn⟩ := turn_of_handle hhandle
      refine hnet.turn hs hstart hdiff hturn (takes_deliver hpacket horder.arrives) hsited
        (fun p site => hworks p h site) hshares' hcopies ?_ (fun _ hopens => by cases hopens)
        (fun _ _ _ _ _ heq => by cases heq) hascii horder.left
      rintro rfl sent hmem hsome
      exact horder.joins packet hpacket rfl _ hturn.handle sent hmem hsome
  | lose index =>
      simp only [Network.step] at hstep
      split at hstep
      next =>
          cases hstep
          exact hnet.lose horder.arrives hsited ⟨_, hshares'⟩
      next => cases hstep

/-- What the steps of the system keep holds at the servers after a run in order. -/
theorem embeds_run (hs : ∀ content, System.Serves (P content) (Q content) editC deliverC)
    (hstart : ∀ content, P content (System.start content).doc) {config : ServerId → Config}
    {idealWorld : ServerId → WorldState} {acts : List Act} (hdiff : ∀ act ∈ acts, act.Diffs)
    (horder : Run.Meets Network.step (GoesInOrder editC deliverC h d) (start config idealWorld)
      acts)
    (hrun : Run.run Network.step (start config idealWorld) acts = some net) :
    net.Embeds P Q h d :=
  Run.invariant (fun _ _ _ hnet hcond hstep => hnet.step hs hstart hcond.1 hcond.2 hstep)
    (embeds_start config idealWorld)
    (Run.meets_and.mpr ⟨.of_forall hdiff _, horder⟩) hrun

end Network

end CollabMode
