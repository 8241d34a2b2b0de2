import CollabMode.Network
import CollabMode.Replying
import CollabMode.Lib.Run

/-!
# Subscriptions

A client that keeps a copy of a document gets its ops while the host serves the document and has
the client among the subscribers.  The client asks for that right after the snapshot has come
(`Asking`).  From then on both ends hold it, or the question is on its way.

Three things break this.  A host that closes a document tells the clients, and they keep their
copies.  A question that is lost is not asked again.  And a StopSendingOps may arrive when the
client has opened the document again.  `SparesSubscriptions` excludes them.
-/

namespace CollabMode

/-! ## Subscribers of a document -/

/-- The ops of the document are sent to the host. -/
def Doc.HasSubscriber (self : Doc) (p : ServerId) : Prop := AssocMap.get self.subscribers p ≠ none

instance (self : Doc) (p : ServerId) : Decidable (self.HasSubscriber p) :=
  inferInstanceAs (Decidable (_ ≠ _))

theorem Doc.hasSubscriber_insert (self : Doc) (host p : ServerId) (seq : LocalSeq) :
    ({ self with subscribers := AssocMap.insert self.subscribers host seq } : Doc).HasSubscriber
        p ↔ p = host ∨ self.HasSubscriber p := by
  unfold HasSubscriber
  rw [AssocMap.get_insert]
  split
  next heq => exact iff_of_true (Option.some_ne_none _) (.inl heq)
  next hne => exact (or_iff_right hne).symm

namespace Server

variable {os : Os} {before : Server} {d : DocId} {event : Event} {now next : Option Doc}
  {sent : List (ServerId × Msg)}

theorem hasSubscriber_recorded {doc : Doc} {p : ServerId} (h : doc.HasSubscriber p)
    (ops : ContextOps) (host : ServerId) : (recorded doc ops host).HasSubscriber p := by
  unfold recorded
  split
  next => exact (Doc.hasSubscriber_insert ..).mpr (.inr h)
  next => exact h

/-- A document is served until it is closed. -/
theorem HostStep.served (h : HostStep os before d event now next sent) (hnow : now ≠ none)
    (hopen : d ∉ before.closing event) : next ≠ none := by
  cases h with
  | closed _ closing => exact absurd closing hopen
  | still | refused => exact hnow
  | absent => exact hnow
  | _ => exact Option.some_ne_none _

/-- A subscriber stays one until it says that it stops, or the document is closed. -/
theorem HostStep.subscriber (h : HostStep os before d event now next sent) {doc : Doc}
    (hnow : now = some doc) {p : ServerId} (hp : doc.HasSubscriber p)
    (hopen : d ∉ before.closing event)
    (hstops : ∀ reqId, event ≠ .message { host := p, body := .stopSendingOps d, reqId }) :
    ∃ doc', next = some doc' ∧ doc'.HasSubscriber p := by
  cases h with
  | still | refused => exact ⟨doc, hnow, hp⟩
  | absent | made | madeOwn => cases hnow
  | found => cases hnow; exact ⟨_, rfl, hp⟩
  | accepted _ _ _ applies =>
      cases hnow
      refine ⟨_, rfl, ?_⟩
      rw [Doc.HasSubscriber, Doc.subscribers_of_applyOps applies]
      exact hasSubscriber_recorded hp _ _
  | subscribed | openedOwn =>
      cases hnow
      exact ⟨_, rfl, (Doc.hasSubscriber_insert ..).mpr (.inr hp)⟩
  | @unsubscribed host =>
      cases hnow
      refine ⟨_, rfl, ?_⟩
      have hne : p ≠ host := by
        rintro rfl
        exact hstops _ rfl
      rw [Doc.HasSubscriber, AssocMap.get_erase, if_neg hne]
      exact hp
  | reset _ applies =>
      cases hnow
      refine ⟨_, rfl, ?_⟩
      rw [Doc.HasSubscriber, Doc.subscribers_of_resetFromDisk applies]
      exact hp
  | closed _ closing => exact absurd closing hopen

/-- A client that asks for the ops of a document is a subscriber then. -/
theorem HostStep.subscribes {p : ServerId} {reqId : Option RequestId} {seq : GlobalSeq}
    (h : HostStep os before d (.message { host := p, body := .requestOps d seq, reqId }) now next
      sent) (hnow : now ≠ none) :
    ∃ doc', next = some doc' ∧ doc'.HasSubscriber p := by
  cases h with
  | still unasked => simp [Event.asks, Msg.asked?] at unasked
  | absent => exact absurd rfl hnow
  | subscribed => exact ⟨_, rfl, (Doc.hasSubscriber_insert ..).mpr (.inl rfl)⟩
  | madeOwn unasked => simp [Event.asks, Msg.asked?] at unasked
  | reset unasked => simp [Event.asks, Msg.asked?] at unasked
  | closed unasked => simp [Event.asks, Msg.asked?] at unasked

/-- A snapshot is sent of a document that is served. -/
theorem HostStep.snapshot (h : HostStep os before d event now next sent) {host : ServerId}
    {snapshot : NewSnapshot} (hmem : (host, .snapshot snapshot) ∈ sent) : next ≠ none := by
  cases h with
  | still | absent | unsubscribed | madeOwn | openedOwn | closed => cases hmem
  | refused _ _ fatal =>
      obtain ⟨reason, heq⟩ := fatal _ hmem
      cases heq
  | accepted _ _ _ _ => exact Option.some_ne_none _
  | subscribed => exact Option.some_ne_none _
  | found | made => exact Option.some_ne_none _
  | reset _ _ _ => exact Option.some_ne_none _

/-! ## The copy of a client -/

/-- Where a copy comes from: it was there, it is of a snapshot and its ops are asked for, or it
is the host's own. -/
theorem ClientStep.copy {before after : Server} {h : ServerId} {copy copy' : Option RemoteDocEntry}
    {asks : List Msg} (hstep : ClientStep before after h d event copy copy' asks)
    (hcopy : copy' ≠ none) :
    copy ≠ none ∨
      (∃ snapshot reqId, event = .message { host := h, body := .snapshot snapshot, reqId } ∧
        snapshot.docId = d ∧ .requestOps d snapshot.seq ∈ asks) ∨
      h = before.hostId ∧ ∃ doc, after.hosted d = some doc ∧ doc.HasSubscriber h := by
  cases hstep with
  | still => exact .inl hcopy
  | ended | closed | unnumbered | stray | dropped => exact absurd rfl hcopy
  | kept | sent => exact .inl (Option.some_ne_none _)
  | opened about => exact .inr (.inl ⟨_, _, rfl, about, List.mem_cons_self⟩)
  | openedOwn own hosted subscribed =>
      refine .inr (.inr ⟨own, _, hosted, ?_⟩)
      rw [Doc.HasSubscriber, subscribed]
      exact Option.some_ne_none _

end Server

/-! ## Both ends -/

namespace Network

/-- Host `h` serves the document with `p` among the subscribers. -/
def Subscribed (self : Network) (p h : ServerId) (d : DocId) : Prop :=
  ∃ doc, self.doc h d = some doc ∧ doc.HasSubscriber p

/-- The client's question for the ops is on its way. -/
def Asking (self : Network) (p h : ServerId) (d : DocId) : Prop :=
  ∃ reqId seq, { source := p, dest := h, reqId, body := .requestOps d seq } ∈ self.wire

/-- Nobody else has a copy of what is closed, and no snapshot of it is on its way. -/
def ClosesFree (self : Network) (h : ServerId) (event : Event) : Prop :=
  ∀ d ∈ (self.servers h).closing event, (∀ p, p ≠ h → self.copy p h d = none) ∧
    ∀ packet ∈ self.wire, packet.source = h →
      ∀ snapshot, packet.body = .snapshot snapshot → snapshot.docId ≠ d

/-- A client without the subscription has no copy, or asks. -/
def Covered (self : Network) (p h : ServerId) (d : DocId) : Prop :=
  self.copy p h d = none ∨ self.Asking p h d

/-- What is left of a step when the three things do not happen. -/
def SparesSubscriptions (self : Network) : Act → Prop
  | .turn _ id event => self.ClosesFree id event
  | .deliver _ index => ∀ packet, self.wire[index]? = some packet →
      (self.take index).ClosesFree packet.dest packet.event ∧
        ∀ d, packet.body = .stopSendingOps d →
          (self.take index).Covered packet.source packet.dest d
  | .lose index => ∀ packet, self.wire[index]? = some packet →
      ∀ d seq, packet.body = .requestOps d seq →
        self.Subscribed packet.source packet.dest d ∨
          (self.take index).Covered packet.source packet.dest d

/-- Both ends hold a subscription, or the client asks for it. -/
structure Agree (net : Network) : Prop where
  ok : net.Ok
  copies : ∀ p h d, net.copy p h d ≠ none →
    net.doc h d ≠ none ∧ (net.Subscribed p h d ∨ net.Asking p h d)
  snapshots : ∀ packet ∈ net.wire, ∀ snapshot, packet.body = .snapshot snapshot →
    net.doc packet.source snapshot.docId ≠ none

theorem agree_start (config : ServerId → Config) (idealWorld : ServerId → WorldState) :
    (start config idealWorld).Agree :=
  ⟨ok_start config idealWorld, fun _ _ _ hcopy => absurd rfl hcopy, fun _ hmem => nomatch hmem⟩

section Turn

variable {os : Os} {net before after : Network} {id : ServerId} {event : Event}
  {effects : List Effect}

theorem Turn.hostStep (h : Turn os before id event after effects) (hok : before.Ok) (d : DocId) :
    Server.HostStep os (before.servers id) d event (before.doc id d) (after.doc id d)
      (told d effects) :=
  h.handled.hostStep (hok.ids id) d

theorem Turn.clientStep (h : Turn os before id event after effects) (host : ServerId)
    (d : DocId) :
    Server.ClientStep (before.servers id) (after.servers id) host d event
      (before.copy id host d) (after.copy id host d) (asked host d effects) :=
  h.handled.clientStep host d

theorem Turn.copy_of_ne (h : Turn os before id event after effects) {p : ServerId} (hp : p ≠ id)
    (host : ServerId) (d : DocId) : after.copy p host d = before.copy p host d := by
  rw [copy, h.others p hp]
  rfl

theorem Turn.doc_of_ne (h : Turn os before id event after effects) {host : ServerId}
    (hne : host ≠ id) (d : DocId) : after.doc host d = before.doc host d := by
  rw [doc, h.others host hne]
  rfl

/-- What is closed is closed everywhere. -/
theorem Turn.copy_closed (h : Turn os before id event after effects) (hok : before.Ok)
    (hfree : before.ClosesFree id event) {d : DocId}
    (hclosing : d ∈ (before.servers id).closing event) (p : ServerId) :
    after.copy p id d = none := by
  by_cases hp : p = id
  · have hown := Server.get_closed h.handle hclosing
    rw [hok.hostId id] at hown
    rw [hp]
    exact hown
  · rw [h.copy_of_ne hp]
    exact (hfree d hclosing).1 p hp

/-- `before` is `net` without the message that is handled, if it is one. -/
structure Hands (net before : Network) (id : ServerId) (event : Event) : Prop where
  servers : before.servers = net.servers
  kept : ∀ packet ∈ before.wire, packet ∈ net.wire
  taken : ∀ packet ∈ net.wire, packet ∈ before.wire ∨ packet.dest = id ∧ packet.event = event
  snapshot : ∀ host snapshot reqId,
    event = .message { host, body := .snapshot snapshot, reqId } →
      ∃ packet ∈ net.wire, packet.source = host ∧ packet.body = .snapshot snapshot

theorem hands_local (hlocal : event.isLocal = true) : Hands net net id event where
  servers := rfl
  kept _ hmem := hmem
  taken _ hmem := .inl hmem
  snapshot host snapshot reqId heq := by
    rw [heq] at hlocal
    cases hlocal

theorem mem_take {index : Nat} {packet other : Packet} (h : net.wire[index]? = some packet)
    (hmem : other ∈ net.wire) : other ∈ (net.take index).wire ∨ other = packet := by
  by_cases hother : other = packet
  · exact .inr hother
  · obtain ⟨j, hj⟩ := List.mem_iff_getElem?.mp hmem
    refine .inl (List.mem_eraseIdx_iff_getElem?.mpr ⟨j, ?_, hj⟩)
    rintro rfl
    exact hother (Option.some.inj (hj.symm.trans h))

theorem hands_take {index : Nat} {packet : Packet} (h : net.wire[index]? = some packet) :
    Hands net (net.take index) packet.dest packet.event where
  servers := rfl
  kept _ hmem := List.mem_of_mem_eraseIdx hmem
  taken other hmem := by
    rcases mem_take h hmem with hkept | rfl
    · exact .inl hkept
    · exact .inr ⟨rfl, rfl⟩
  snapshot host snapshot reqId heq := by
    cases packet
    cases heq
    exact ⟨_, List.mem_of_getElem? h, rfl, rfl⟩

/-- The wire only loses the message that is handled. -/
theorem Turn.mem_wire (h : Turn os before id event after effects) {packet : Packet}
    (hmem : packet ∈ before.wire) : packet ∈ after.wire := by
  rw [h.wire]
  exact List.mem_append_left _ hmem

/-- A document that is not closed is served on. -/
theorem Turn.served (h : Turn os before id event after effects) (hok : before.Ok)
    {host : ServerId} {d : DocId} (hserved : before.doc host d ≠ none)
    (hopen : host = id → d ∉ (before.servers id).closing event) : after.doc host d ≠ none := by
  by_cases hhost : host = id
  · rw [hhost] at hserved ⊢
    exact (h.hostStep hok d).served hserved (hopen hhost)
  · rw [h.doc_of_ne hhost]
    exact hserved

/-- A client that had a copy, and still may. -/
theorem Turn.subscribed (h : Turn os before id event after effects) (hnet : net.Agree)
    (hhands : Hands net before id event)
    (hstops : ∀ d host reqId, event = .message { host, body := .stopSendingOps d, reqId } →
      before.Covered host id d) {p host : ServerId} {d : DocId}
    (hcopy : before.copy p host d ≠ none)
    (hopen : host = id → d ∉ (before.servers id).closing event) :
    after.Subscribed p host d ∨ after.Asking p host d := by
  have hsame : before.Ok := ⟨hhands.servers ▸ hnet.ok.hostId, hhands.servers ▸ hnet.ok.ids⟩
  obtain ⟨hserved, hheld⟩ := hnet.copies p host d (by
    rw [copy, ← hhands.servers]
    exact hcopy)
  have hdoc (k : DocId) : net.doc host k = before.doc host k := by
    rw [doc, ← hhands.servers]
    rfl
  rw [hdoc] at hserved
  rcases hheld with ⟨served, hget, hp⟩ | ⟨reqId, seq, hmem⟩
  · rw [hdoc] at hget
    by_cases hhost : host = id
    · subst hhost
      by_cases hstop : ∃ reqId, event = .message { host := p, body := .stopSendingOps d, reqId }
      · obtain ⟨reqId, hstop⟩ := hstop
        rcases hstops d p reqId hstop with hnone | ⟨reqId', seq, hmem⟩
        · exact absurd hnone hcopy
        · exact .inr ⟨reqId', seq, h.mem_wire hmem⟩
      · exact .inl ((h.hostStep hsame d).subscriber hget hp (hopen rfl) fun reqId heq =>
          hstop ⟨reqId, heq⟩)
    · exact .inl ⟨served, (h.doc_of_ne hhost d).trans hget, hp⟩
  · rcases hhands.taken _ hmem with hkept | ⟨hdest, hevent⟩
    · exact .inr ⟨reqId, seq, h.mem_wire hkept⟩
    · -- The question is the message that is handled.
      obtain rfl : host = id := hdest
      have hstep := h.hostStep hsame d
      rw [← hevent] at hstep
      exact .inl (hstep.subscribes hserved)

theorem Turn.agree (h : Turn os before id event after effects) (hnet : net.Agree)
    (hhands : Hands net before id event) (hfree : before.ClosesFree id event)
    (hstops : ∀ d host reqId, event = .message { host, body := .stopSendingOps d, reqId } →
      before.Covered host id d) : after.Agree := by
  have hok : before.Ok := ⟨hhands.servers ▸ hnet.ok.hostId, hhands.servers ▸ hnet.ok.ids⟩
  have hdoc (host : ServerId) (d : DocId) : net.doc host d = before.doc host d := by
    rw [doc, ← hhands.servers]
    rfl
  refine ⟨h.ok hok, fun p host d hcopy => ?_, fun packet hmem snapshot hbody => ?_⟩
  · have hopen (hhost : host = id) : d ∉ (before.servers id).closing event := by
      subst hhost
      exact fun hclosing => hcopy (h.copy_closed hok hfree hclosing p)
    have hcases : before.copy p host d ≠ none ∨
        (∃ snapshot reqId, event = .message { host, body := .snapshot snapshot, reqId } ∧
          snapshot.docId = d ∧ after.Asking p host d) ∨
        host = id ∧ after.Subscribed p host d := by
      by_cases hp : p = id
      · subst hp
        rcases (h.clientStep host d).copy hcopy with
          hold | ⟨snapshot, reqId, hevent, habout, hask⟩ | ⟨hown, doc, hhosted, hsub⟩
        · exact .inl hold
        · obtain ⟨reqId', hmem⟩ := h.mem_wire_of_asked hask
          exact .inr (.inl ⟨snapshot, reqId, hevent, habout, reqId', _, hmem⟩)
        · rw [hok.hostId p] at hown
          subst hown
          exact .inr (.inr ⟨rfl, doc, hhosted, hsub⟩)
      · exact .inl (h.copy_of_ne hp host d ▸ hcopy)
    rcases hcases with hold | ⟨snapshot, reqId, hevent, habout, hasking⟩ | ⟨-, hsub⟩
    · refine ⟨h.served hok ?_ hopen, h.subscribed hnet hhands hstops hold hopen⟩
      rw [← hdoc]
      refine (hnet.copies p host d ?_).1
      rw [copy, ← hhands.servers]
      exact hold
    · obtain ⟨packet, hmem, hsource, hbody⟩ := hhands.snapshot host snapshot reqId hevent
      have hserved := hnet.snapshots packet hmem snapshot hbody
      rw [hsource, habout, hdoc] at hserved
      exact ⟨h.served hok hserved hopen, .inr hasking⟩
    · obtain ⟨doc, hget, hp⟩ := hsub
      exact ⟨by rw [hget]; exact Option.some_ne_none _, .inl ⟨doc, hget, hp⟩⟩
  · rw [h.wire] at hmem
    rcases List.mem_append.mp hmem with hold | hnew
    · have hserved := hnet.snapshots packet (hhands.kept packet hold) snapshot hbody
      rw [hdoc] at hserved
      exact h.served hok hserved fun hhost hclosing =>
        (hfree _ hclosing).2 packet hold hhost snapshot hbody rfl
    · have hdocId : packet.body.docId? = some snapshot.docId := by rw [hbody]; rfl
      obtain ⟨hsource, hsent⟩ := Turn.mem_docMsgs hnew hdocId
      rw [hsource]
      refine (h.hostStep hok snapshot.docId).snapshot
        (List.mem_filter.mpr ⟨hbody ▸ hsent, ?_⟩)
      exact decide_eq_true rfl

end Turn

/-! ## Runs -/

theorem Agree.step {self after : Network} {act : Act} (h : self.Agree)
    (hspares : self.SparesSubscriptions act) (hstep : self.step act = some after) :
    after.Agree := by
  cases act with
  | turn os id event =>
      simp only [Network.step] at hstep
      split at hstep
      next hlocal =>
          obtain ⟨effects, hturn⟩ := turn_of_handle hstep
          refine hturn.agree h (hands_local hlocal) hspares fun d host reqId heq => ?_
          rw [heq] at hlocal
          cases hlocal
      next => cases hstep
  | deliver os index =>
      simp only [Network.step, Option.bind_eq_bind, Option.bind_eq_some_iff] at hstep
      obtain ⟨packet, hpacket, hhandle⟩ := hstep
      obtain ⟨effects, hturn⟩ := turn_of_handle hhandle
      obtain ⟨hfree, hstops⟩ := hspares packet hpacket
      refine hturn.agree h (hands_take hpacket) hfree fun d host reqId heq => ?_
      cases packet
      cases heq
      exact hstops d rfl
  | lose index =>
      simp only [Network.step] at hstep
      split at hstep
      next hlt =>
          cases hstep
          refine ⟨⟨h.ok.hostId, h.ok.ids⟩, fun p host d hcopy => ?_, fun packet hmem =>
            h.snapshots packet (List.mem_of_mem_eraseIdx hmem)⟩
          obtain ⟨hserved, hheld⟩ := h.copies p host d hcopy
          refine ⟨hserved, ?_⟩
          rcases hheld with hsub | ⟨reqId, seq, hmem⟩
          · exact .inl hsub
          · have hpacket : self.wire[index]? = some self.wire[index] :=
              List.getElem?_eq_getElem hlt
            rcases mem_take hpacket hmem with hkept | heq
            · exact .inr ⟨reqId, seq, hkept⟩
            · -- The question is lost.
              rw [← heq] at hpacket
              rcases hspares _ hpacket d seq rfl with hsub | hnone | hask
              · exact .inl hsub
              · exact absurd hnone hcopy
              · exact .inr hask
      next => cases hstep

/-- Every copy is of a document that its host serves with the client among the subscribers. -/
def Agreed (self : Network) : Prop :=
  ∀ p h d, self.copy p h d ≠ none → self.Subscribed p h d

/-- In a run without the three things, both ends agree whenever no message is on its way. -/
theorem agreed_of_spares {config : ServerId → Config} {idealWorld : ServerId → WorldState}
    {acts : List Act} {net : Network}
    (hspares : Run.Meets step SparesSubscriptions (start config idealWorld) acts)
    (hrun : Run.run step (start config idealWorld) acts = some net) (hquiet : net.wire = []) :
    net.Agreed := by
  intro p h d hcopy
  have hagree : net.Agree :=
    Run.invariant (fun _ _ _ hinv hmeets hstep => hinv.step hmeets hstep)
      (agree_start config idealWorld) hspares hrun
  rcases (hagree.copies p h d hcopy).2 with hsub | ⟨reqId, seq, hmem⟩
  · exact hsub
  · rw [hquiet] at hmem
    cases hmem

/-- Nothing is closed, stopped or lost. -/
def plain (self : Network) : Act → Bool
  | .turn _ id event => ((self.servers id).closing event).isEmpty
  | .deliver _ index =>
      (self.wire[index]?).all fun packet =>
        ((self.servers packet.dest).closing packet.event).isEmpty &&
          match packet.body with
          | .stopSendingOps _ => false
          | _ => true
  | .lose _ => false

theorem spares_of_plain {self : Network} {act : Act} (h : self.plain act = true) :
    self.SparesSubscriptions act := by
  have hfree {net : Network} {id : ServerId} {event : Event}
      (hclosing : ((net.servers id).closing event).isEmpty = true) : net.ClosesFree id event := by
    intro d hd
    rw [List.isEmpty_iff.mp hclosing] at hd
    cases hd
  cases act with
  | turn os id event => exact hfree h
  | deliver os index =>
      intro packet hpacket
      simp only [plain, hpacket, Option.all_some, Bool.and_eq_true] at h
      refine ⟨hfree h.1, fun d hbody => ?_⟩
      rw [hbody] at h
      cases h.2
  | lose index => cases h

def noConfig (_ : ServerId) : Config := ⟨none, [], []⟩

def nobodyWanted (_ : ServerId) : WorldState := .new

open Server (sharedFile)

/-- Host 0 shares a buffer, and host 1 connects and opens it. -/
def session : List Act :=
  let addr := "wss://a".toList
  [.turn Os.bare 0 (.request 1 (.shareFile ['a'] ['x'])),
    .turn Os.bare 1 (.notification (.acceptConnection addr)),
    .turn Os.bare 1 (.signaling addr (.bound 1 [])),
    .turn Os.bare 1 (.notification (.connect 0 (.sctp addr))),
    .turn Os.bare 1 .fixWorld,
    .turn Os.bare 1 (.message { host := 0, body := Server.helloMsg, reqId := none }),
    .turn Os.bare 1 (.request 1 (.openFile sharedFile .open)),
    .deliver Os.bare 0, .deliver Os.bare 0, .deliver Os.bare 0]

/-- The copy of host 1 is subscribed. -/
theorem agreed_of_spares_sample :
    ∃ net, Run.run step (start noConfig nobodyWanted) session = some net ∧
      net.copy 1 0 1 ≠ none ∧ net.Agreed := by
  have hplain : Run.Meets step (fun net act => net.plain act = true)
      (start noConfig nobodyWanted) session := by decide +kernel
  refine ⟨_, rfl, by decide +kernel, ?_⟩
  exact agreed_of_spares (hplain.mono fun _ _ => spares_of_plain) rfl rfl

/-- The editor of host 0 closes the buffer.  Host 1 is told, and keeps its copy. -/
theorem not_agreed :
    ∃ net, Run.run step (start noConfig nobodyWanted)
        (session ++ [.turn Os.bare 0 (.request 2 (.closeFile sharedFile)), .deliver Os.bare 0]) =
          some net ∧
      net.wire = [] ∧ net.copy 1 0 1 ≠ none ∧ net.doc 0 1 = none ∧ ¬net.Agreed := by
  have hcopy : ((Run.run step (start noConfig nobodyWanted)
      (session ++ [.turn Os.bare 0 (.request 2 (.closeFile sharedFile)),
        .deliver Os.bare 0])).map fun net => (net.wire, (net.copy 1 0 1).isSome, net.doc 0 1)) =
          some ([], true, none) := by decide +kernel
  obtain ⟨net, hrun, hnet⟩ := Option.map_eq_some_iff.mp hcopy
  obtain ⟨hwire, hcopy, hdoc⟩ := Prod.mk.inj hnet |>.imp id Prod.mk.inj
  have hkept : net.copy 1 0 1 ≠ none := Option.isSome_iff_ne_none.mp hcopy
  refine ⟨net, hrun, hwire, hkept, hdoc, fun h => ?_⟩
  obtain ⟨doc, hserved, -⟩ := h 1 0 1 hkept
  cases hdoc.symm.trans hserved

end Network

end CollabMode
