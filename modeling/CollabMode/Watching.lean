import Mathlib.Data.List.InsertIdx
import CollabMode.Sequencing

/-!
# A network that is watched

`Watch` runs a network and keeps the books of one client, one host and one document.  What the
client has sent to the host and what has not arrived are the items of a session, and the host's
number is level with them (`Watch.Inv`).

The client's messages arrive in the order they were sent, and all of them do.  What the host
sends may be late, lost or in another order.
-/

namespace CollabMode

open Sessions

/-- A message to the host about a document, as an item of the session it is from. -/
def Msg.item? (d : DocId) (session : Nat) : Msg → Option Item
  | .requestOps doc _ => if doc = d then some (.ask session) else none
  | .stopSendingOps doc => if doc = d then some .stop else none
  | .opFromClient ops =>
      if ops.doc = d then
        match ops.ops.head?, ops.ops.getLast? with
        | some first, some last => some (.batch session first.siteSeq last.siteSeq)
        | _, _ => none
      else none
  | _ => none

theorem Msg.asked?_of_item? {d : DocId} {session : Nat} {msg : Msg} {item : Item}
    (h : msg.item? d session = some item) : msg.asked? = some d := by
  have hite {doc : DocId} {found : Option Item}
      (h : (if doc = d then found else none) = some item) : some doc = some d := by
    split at h
    next hd => exact congrArg some hd
    next => cases h
  unfold Msg.item? at h
  split at h
  next => exact hite h
  next => exact hite h
  next => exact hite h
  next => cases h

theorem Msg.session_of_item? {d : DocId} {session : Nat} {msg : Msg} {item : Item}
    (h : msg.item? d session = some item) : item = .stop ∨ item.session? = some session := by
  unfold Msg.item? at h
  split at h
  next => split at h <;> cases h; exact .inr rfl
  next => split at h <;> cases h; exact .inl rfl
  next =>
      split at h
      next => split at h <;> cases h; exact .inr rfl
      next => cases h
  next => cases h

theorem Msg.not_batch_of_item? {d : DocId} {session : Nat} {msg : Msg} {item : Item}
    (h : msg.item? d session = some item) (hmsg : ∀ ops, msg ≠ .opFromClient ops) :
    item.isBatch = false := by
  unfold Msg.item? at h
  split at h
  next => split at h <;> cases h; rfl
  next => split at h <;> cases h; rfl
  next ops => exact absurd rfl (hmsg ops)
  next => cases h

/-! ## Lists that lose an element -/

section List

variable {α β : Type} {f : α → Option β} {l : List α} {i : Nat} {a : α}

theorem filterMap_eraseIdx_of_none (h : l[i]? = some a) (ha : f a = none) :
    (l.eraseIdx i).filterMap f = l.filterMap f := by
  obtain ⟨hlt, rfl⟩ := List.getElem?_eq_some_iff.mp h
  conv_rhs => rw [← List.take_append_drop i l, List.drop_eq_getElem_cons hlt]
  rw [List.eraseIdx_eq_take_drop_succ, List.filterMap_append, List.filterMap_append,
    List.filterMap_cons_none ha]

theorem filterMap_split {b : β} (h : l[i]? = some a) (ha : f a = some b) :
    l.filterMap f = (l.take i).filterMap f ++ b :: (l.drop (i + 1)).filterMap f ∧
      (l.eraseIdx i).filterMap f = (l.take i).filterMap f ++ (l.drop (i + 1)).filterMap f := by
  obtain ⟨hlt, rfl⟩ := List.getElem?_eq_some_iff.mp h
  refine ⟨?_, ?_⟩
  · conv_lhs => rw [← List.take_append_drop i l, List.drop_eq_getElem_cons hlt]
    rw [List.filterMap_append, List.filterMap_cons_some ha]
  · rw [List.eraseIdx_eq_take_drop_succ, List.filterMap_append]

theorem filterMap_eraseIdx_of_first {b : β} (h : l[i]? = some a) (ha : f a = some b)
    (hfirst : (l.take i).filterMap f = []) : l.filterMap f = b :: (l.eraseIdx i).filterMap f := by
  obtain ⟨hsplit, herase⟩ := filterMap_split h ha
  rw [hsplit, herase, hfirst]
  rfl

theorem length_filterMap_eraseIdx {b : β} (h : l[i]? = some a) (ha : f a = some b) :
    ((l.eraseIdx i).filterMap f).length < (l.filterMap f).length := by
  obtain ⟨hsplit, herase⟩ := filterMap_split h ha
  rw [hsplit, herase, List.length_append, List.length_append]
  exact Nat.add_lt_add_left (Nat.lt_succ_self _) _

end List

/-! ## The books -/

namespace Network

/-- A message of the client to the host, as an item of the session it is from. -/
def Packet.item? (p h : ServerId) (d : DocId) (sent : Packet × Nat) : Option Item :=
  if sent.1.source = p ∧ sent.1.dest = h then sent.1.body.item? d sent.2 else none

structure Watch where
  net : Network
  /-- The number of the client's engine.  It goes up with every turn that leaves an engine that
  has sent nothing, so no two engines that have sent something share one. -/
  engine : Nat
  /-- The messages on the wire, each with the client's engine when it was sent. -/
  wire : List (Packet × Nat)
  /-- The number of the last op that the host has accepted of each engine. -/
  accepted : Nat → LocalSeq
  /-- The engines that had a batch refused because the client may not write. -/
  refused : Nat → Bool

namespace Watch

def start (config : ServerId → Config) (idealWorld : ServerId → WorldState) : Watch :=
  { net := Network.start config idealWorld, engine := 0, wire := [], accepted := fun _ => 0
    refused := fun _ => false }

section Session

variable (p h : ServerId) (d : DocId) (self : Watch)

def items : List Item := self.wire.filterMap (Packet.item? p h d)

/-- The item that is handled. -/
def itemAt (index : Nat) : Option Item := self.wire[index]?.bind (Packet.item? p h d)

/-- The number of the last op that the client has sent. -/
def sent : Option LocalSeq := (self.net.copy p h d).map RemoteDocEntry.sent

def ledger : Ledger :=
  { recorded := (self.net.servers h).recordedOf p d, accepted := self.accepted
    refused := self.refused }

/-- Enter a batch that is handled. -/
def enter (packet : Packet) (item : Option Item) : (Nat → LocalSeq) × (Nat → Bool) :=
  match packet.body, item with
  | .opFromClient ops, some (.batch session _ last) =>
      if (self.net.servers h).accepts ops p then
        (Function.update self.accepted session last, self.refused)
      else if (self.net.servers h).config.writeAllowed p then (self.accepted, self.refused)
      else (self.accepted, Function.update self.refused session true)
  | _, _ => (self.accepted, self.refused)

/-- What is left of the wire when the message is taken, and the books after it. -/
def taking : Act → List (Packet × Nat) × (Nat → LocalSeq) × (Nat → Bool)
  | .turn _ _ _ => (self.wire, self.accepted, self.refused)
  | .lose index => (self.wire.eraseIdx index, self.accepted, self.refused)
  | .deliver _ index =>
      match self.wire[index]? with
      | none => (self.wire, self.accepted, self.refused)
      | some (packet, engine) =>
          (self.wire.eraseIdx index, self.enter p h packet (Packet.item? p h d (packet, engine)))

/-- The number of the engine after a turn. -/
def nextEngine (sent : Option LocalSeq) : Nat :=
  if sent = some 0 then self.engine + 1 else self.engine

def step (act : Act) : Option Watch := do
  let net ← self.net.step act
  let engine := self.nextEngine ((net.copy p h d).map RemoteDocEntry.sent)
  let (wire, accepted, refused) := self.taking p h d act
  some { net, engine, accepted, refused
         wire := wire ++ (net.wire.drop wire.length).map fun packet => (packet, engine) }

/-- The client's messages arrive, in the order they were sent. -/
def inOrder : Act → Bool
  | .turn _ _ _ => true
  | .lose index => (self.itemAt p h d index).isNone
  | .deliver _ index =>
      (self.itemAt p h d index).isNone ||
        ((self.wire.take index).filterMap (Packet.item? p h d)).isEmpty

/-- The host handles a question only while nothing of the engine that asks is accepted, and no
batch of an engine after one that it had to refuse.  Its own editor opens a document that it has
open while nothing of it is accepted, and another one while only questions about it are on
their way. -/
def steady : Act → Bool
  | .turn _ id event =>
      if id = h ∧ p = h ∧ (self.net.servers h).opening event = some d then
        if (self.net.servers h).keepsCopy event ∧ (self.net.copy h h d).isSome then
          (self.net.servers h).recordedOf h d = some 0
        else (self.items p h d).all Item.isAsk
      else true
  | .deliver _ index =>
      match self.itemAt p h d index with
      | some (.ask session) => self.accepted session = 0
      | some (.batch session _ _) =>
          (self.net.servers h).config.writeAllowed p → self.refused session = false
      | _ => true
  | .lose _ => true

/-- What `steady` asks of the item that the host handles. -/
def Awaits : Item → Prop
  | .ask session => self.accepted session = 0
  | .batch session _ _ =>
      (self.net.servers h).config.writeAllowed p = true → self.refused session = false
  | .stop => True

/-- The host that handles a batch of the client has the number of the last op it accepted of the
engine that has sent it, and does not say that the batch does not go on from there. -/
def Expects : Act → Prop
  | .deliver os index =>
      ∀ packet session ops, self.wire[index]? = some (packet, session) →
        packet.source = p → packet.dest = h → packet.body = .opFromClient ops → ops.doc = d →
        (∀ doc, self.net.doc h d = some doc →
          AssocMap.get doc.subscribers p = some (self.accepted session)) ∧
        ∀ after effects, (self.net.servers h).handle os packet.event = some (after, effects) →
          ∀ reqId reason, .send p reqId (.docFatal d reason) ∉ effects
  | _ => True

end Session

/-! ## What the client sends -/

/-- What is asked of the host becomes items, and the client is level with it. -/
theorem inStep_sends {d : DocId} {led : Ledger} {items : List Item} {engine : Nat}
    {sent sent' : Option LocalSeq} {asks : List Msg} (hsends : CopySends d sent sent' asks)
    (hbound : ∀ item ∈ items, ∀ s, item.session? = some s → s ≤ engine)
    (hfresh : led.Fresh (engine + 1)) (h : InStep led items engine sent) {engine' : Nat}
    (hengine : engine' = if sent' = some 0 then engine + 1 else engine) :
    InStep led (items ++ asks.filterMap (Msg.item? d engine')) engine' sent' := by
  have hnew : ∀ item ∈ items, item.session? ≠ some (engine + 1) := by
    intro item hmem heq
    exact absurd (hbound item hmem _ heq) (Nat.not_succ_le_self engine)
  cases hsends with
  | @asks _ seqs =>
      have hasked : ∀ item ∈ (seqs.map (Msg.requestOps d)).filterMap (Msg.item? d engine'),
          item = .ask engine' := by
        intro item hmem
        obtain ⟨msg, hmsg, hitem⟩ := List.mem_filterMap.mp hmem
        obtain ⟨seq, -, rfl⟩ := List.mem_map.mp hmsg
        rw [Msg.item?, if_pos rfl] at hitem
        exact (Option.some.inj hitem).symm
      refine InStep.asks hasked ?_
      by_cases hzero : sent = some 0
      · rw [if_pos hzero] at hengine
        rw [hengine, hzero]
        rw [hzero] at h
        exact h.renumber hnew hfresh
      · rw [if_neg hzero] at hengine
        rw [hengine]
        exact h
  | leaves plain =>
      refine h.leave fun item hmem => ?_
      obtain ⟨msg, hmsg, hitem⟩ := List.mem_filterMap.mp hmem
      exact Msg.not_batch_of_item? hitem (plain msg hmsg)
  | @opens _ seq =>
      rw [if_pos rfl] at hengine
      have hask : (Msg.requestOps d seq).item? d engine' = some (.ask engine') := if_pos rfl
      have hitem : [Msg.requestOps d seq].filterMap (Msg.item? d engine') = [.ask engine'] :=
        List.filterMap_cons_some hask
      rw [hitem, hengine]
      exact h.start hnew hfresh
  | @batch n n' batch next =>
      obtain ⟨first, hfirst, hfirstSeq⟩ := next.first
      obtain ⟨last, hlast, hlastSeq⟩ := next.last
      have hpos : ¬some n' = some 0 := fun heq => absurd (Option.some.inj heq) next.pos.ne'
      rw [if_neg hpos] at hengine
      have hitem : [Msg.opFromClient batch].filterMap (Msg.item? d engine') =
          [.batch engine' (n + 1) n'] := by
        rw [List.filterMap_cons_some]
        · rfl
        · rw [Msg.item?, if_pos next.doc, hfirst, hlast, ← hfirstSeq, ← hlastSeq]
      rw [hitem, hengine]
      exact h.send next.pos

theorem item?_of_asked {p h : ServerId} {d : DocId} {engine : Nat} (reqId : Option RequestId)
    (dest : ServerId) (body : Msg) :
    [(({ source := p, dest, reqId, body } : Packet), engine)].filterMap (Packet.item? p h d) =
      (if dest = h ∧ body.asked? = some d then [body] else []).filterMap (Msg.item? d engine) := by
  let sent : Packet × Nat := ({ source := p, dest, reqId, body }, engine)
  by_cases hdest : dest = h
  · have hsent : Packet.item? p h d sent = body.item? d engine := if_pos ⟨rfl, hdest⟩
    cases hitem : body.item? d engine with
    | none =>
        rw [List.filterMap_cons_none (hsent.trans hitem)]
        have hnone : [body].filterMap (Msg.item? d engine) = [] := List.filterMap_cons_none hitem
        split
        next => exact hnone.symm
        next => rfl
    | some item =>
        rw [List.filterMap_cons_some (hsent.trans hitem),
          if_pos ⟨hdest, Msg.asked?_of_item? hitem⟩, List.filterMap_cons_some hitem]
        rfl
  · have hsent : Packet.item? p h d sent = none := if_neg fun hand => hdest hand.2
    rw [if_neg fun hand => hdest hand.1]
    exact List.filterMap_cons_none hsent

/-- The new items are what the client asks of the host. -/
theorem items_of_effects {p h : ServerId} {d : DocId} (id : ServerId) (engine : Nat)
    (effects : List Effect) :
    ((effects.filterMap (Effect.packet? id)).map fun packet => (packet, engine)).filterMap
        (Packet.item? p h d) =
      if id = p then (asked h d effects).filterMap (Msg.item? d engine) else [] := by
  by_cases hid : id = p
  · subst hid
    rw [if_pos rfl]
    induction effects with
    | nil => rfl
    | cons e effects ih =>
        cases e with
        | send dest reqId body =>
            rw [asked_send, List.filterMap_append, ← ih, ← item?_of_asked reqId,
              ← List.filterMap_append]
            rfl
        | _ => exact ih
  · rw [if_neg hid]
    refine List.filterMap_eq_nil_iff.mpr fun sent hsent => ?_
    obtain ⟨packet, hpacket, rfl⟩ := List.mem_map.mp hsent
    obtain ⟨e, _, he⟩ := List.mem_filterMap.mp hpacket
    cases e with
    | send => cases he; exact if_neg fun hand => hid hand.1
    | _ => cases he

/-! ## The invariant -/

/-- What holds in a run in which the client's messages arrive in order. -/
structure Inv (p h : ServerId) (d : DocId) (watch : Watch) : Prop where
  ok : watch.net.Ok
  wire : watch.wire.map Prod.fst = watch.net.wire
  bound : ∀ sent ∈ watch.wire, sent.2 ≤ watch.engine
  fresh : ∀ session, watch.engine < session → (watch.ledger p h d).Fresh session
  numbered : Server.CopyNumbered (watch.net.copy p h d)
  /-- A message about the document is an item. -/
  full : ∀ sent ∈ watch.wire, sent.1.source = p → sent.1.dest = h → sent.1.body.asked? = some d →
    Packet.item? p h d sent ≠ none
  /-- Before the document is made, nothing refers to it. -/
  early : (watch.net.servers h).nextDocId ≤ d → watch.net.copy p h d = none ∧
    (∀ item ∈ watch.items p h d, item.isBatch = false) ∧
    ∀ packet ∈ watch.net.wire, packet.source = h → ∀ snapshot, packet.body = .snapshot snapshot →
      snapshot.docId ≠ d
  flow : watch.net.doc h d ≠ none →
    InStep (watch.ledger p h d) (watch.items p h d) watch.engine (watch.sent p h d)

theorem inv_start (p h : ServerId) (d : DocId) (config : ServerId → Config)
    (idealWorld : ServerId → WorldState) : (start config idealWorld).Inv p h d where
  ok := ok_start config idealWorld
  wire := rfl
  bound := List.forall_mem_nil _
  fresh _ _ := ⟨rfl, rfl⟩
  numbered := Server.copyNumbered_none
  full := List.forall_mem_nil _
  early _ := ⟨rfl, List.forall_mem_nil _, List.forall_mem_nil _⟩
  flow hdoc := absurd rfl hdoc

section Step

variable {p h : ServerId} {d : DocId} {w : Watch}

theorem Inv.bound_items (hinv : w.Inv p h d) :
    ∀ item ∈ w.items p h d, ∀ s, item.session? = some s → s ≤ w.engine := by
  intro item hmem s hs
  obtain ⟨sent, hsent, hitem⟩ := List.mem_filterMap.mp hmem
  rw [Packet.item?] at hitem
  split at hitem
  next =>
      rcases Msg.session_of_item? hitem with rfl | hsession
      · cases hs
      · rw [hsession] at hs
        exact Option.some.inj hs ▸ hinv.bound sent hsent
  next => cases hitem

/-- The number of an engine that has sent nothing goes up. -/
theorem Inv.flow_idle (hinv : w.Inv p h d) {engine : Nat}
    (hengine : engine = w.nextEngine (w.sent p h d)) (hdoc : w.net.doc h d ≠ none) :
    InStep (w.ledger p h d) (w.items p h d) engine (w.sent p h d) := by
  have hsends : CopySends d (w.sent p h d) (w.sent p h d) [] := .idle
  rw [← List.append_nil (w.items p h d)]
  exact inStep_sends hsends hinv.bound_items (hinv.fresh _ (Nat.lt_succ_self _)) (hinv.flow hdoc)
    hengine

variable {os : Os} {before after : Network} {id : ServerId} {event : Event}
  {effects : List Effect}

/-- The host's number stays when a turn is about something else. -/
theorem Inv.recorded_still (hinv : w.Inv p h d) (hturn : Turn os before id event after effects)
    (hservers : before.servers = w.net.servers)
    (hask : id = h → Server.isAskOf p d event = false)
    (hown : id = h → p = h → Server.opensFile event = false) (hdoc : w.net.doc h d ≠ none)
    (hdoc' : after.doc h d ≠ none) :
    (after.servers h).recordedOf p d = (w.net.servers h).recordedOf p d := by
  by_cases hid : id = h
  · subst hid
    obtain ⟨doc, hdoc⟩ := Option.ne_none_iff_exists'.mp hdoc
    obtain ⟨doc', hdoc'⟩ := Option.ne_none_iff_exists'.mp hdoc'
    have hok : before.Ok := ⟨hservers ▸ hinv.ok.hostId, hservers ▸ hinv.ok.ids⟩
    have hbefore : before.doc id d = some doc := by
      rw [Network.doc, hservers]
      exact hdoc
    rw [Server.hosted_bind_subscribers hdoc', Server.hosted_bind_subscribers hdoc]
    refine (hturn.hostStep hok d).recorded_still hbefore hdoc' (hask rfl) fun hp => ?_
    rw [hok.hostId] at hp
    exact hown rfl hp
  · rw [hturn.others h (Ne.symm hid), hservers]

/-- The host handles an item. -/
theorem Inv.handles (hinv : w.Inv p h d) {packet : Packet} {session : Nat} {item : Item}
    (hitem : Packet.item? p h d (packet, session) = some item)
    (hturn : Turn os before packet.dest packet.event after effects)
    (hservers : before.servers = w.net.servers) {items : List Item} {engine : Nat}
    {sent : Option LocalSeq} (hsteady : w.Awaits p h item)
    (hflow : InStep (w.ledger p h d) (item :: items) engine sent) (hdoc : w.net.doc h d ≠ none)
    (hdoc' : after.doc h d ≠ none) :
    InStep { recorded := (after.servers h).recordedOf p d
             accepted := (w.enter p h packet (some item)).1
             refused := (w.enter p h packet (some item)).2 } items engine sent := by
  obtain ⟨source, dest, reqId, body⟩ := packet
  have hand : source = p ∧ dest = h := by
    by_contra hne
    rw [Packet.item?, if_neg hne] at hitem
    cases hitem
  have hbody : body.item? d session = some item := (if_pos hand).symm.trans hitem
  have hturn : Turn os before dest (.message { host := source, body, reqId }) after effects := hturn
  obtain ⟨rfl, rfl⟩ := hand
  obtain ⟨doc, hdoc⟩ := Option.ne_none_iff_exists'.mp hdoc
  obtain ⟨doc', hdoc'⟩ := Option.ne_none_iff_exists'.mp hdoc'
  have hok : before.Ok := ⟨hservers ▸ hinv.ok.hostId, hservers ▸ hinv.ok.ids⟩
  have hbefore : before.doc dest d = some doc := by
    rw [Network.doc, hservers]
    exact hdoc
  have hstep := hturn.hostStep hok d
  rw [Server.hosted_bind_subscribers hdoc']
  cases body with
  | requestOps docId seq =>
      rw [Msg.item?] at hbody
      split at hbody
      next hd =>
          cases hbody
          subst hd
          rw [hstep.recorded_ask hbefore hdoc']
          exact hflow hsteady
      next => cases hbody
  | stopSendingOps docId =>
      rw [Msg.item?] at hbody
      split at hbody
      next hd =>
          cases hbody
          subst hd
          rw [hstep.recorded_stop hbefore hdoc']
          exact hflow
      next => cases hbody
  | opFromClient ops =>
      rw [Msg.item?] at hbody
      split at hbody
      next hd =>
          subst hd
          split at hbody
          next first last hfirst hlast =>
              cases hbody
              obtain ⟨hrecorded, haccept, hrefuse⟩ := hflow
              have hafter := hstep.recorded_batch hbefore hdoc'
              rw [hservers, hlast] at hafter
              rw [hafter]
              simp only [enter]
              cases haccepts : (w.net.servers dest).accepts ops source with
              | true =>
                  rw [Server.accepts, Bool.and_eq_true] at haccepts
                  exact (haccept (hsteady haccepts.1)).2
              | false =>
                  have hsame : AssocMap.get doc.subscribers source =
                      (w.net.servers dest).recordedOf source ops.doc :=
                    (Server.hosted_bind_subscribers hdoc source).symm
                  cases hallowed : (w.net.servers dest).config.writeAllowed source with
                  | true =>
                      -- The batch goes on from the number that is kept.
                      have hnext := (haccept (hsteady hallowed)).1
                      have hrecorded : (w.net.servers dest).recordedOf source ops.doc =
                        some (w.accepted session) := hrecorded
                      rw [Server.accepts, hallowed, hrecorded, hfirst] at haccepts
                      have hne : ¬first.siteSeq = w.accepted session + 1 := by
                        simpa using haccepts
                      exact absurd hnext hne
                  | false =>
                      simp only [hsame]
                      exact hrefuse
          next => cases hbody
      next => cases hbody
  | _ => cases hbody

/-! ## A turn -/

/-- The turn of a server, with the message it takes. -/
structure Moves (w w' : Watch) (p h : ServerId) (d : DocId) (os : Os) (before : Network)
    (id : ServerId) (event : Event) (effects : List Effect) (left : List (Packet × Nat)) :
    Prop where
  turn : Turn os before id event w'.net effects
  hands : Hands w.net before id event
  kept : left.map Prod.fst = before.wire
  sub : ∀ sent ∈ left, sent ∈ w.wire
  wire : w'.wire =
    left ++ (effects.filterMap (Effect.packet? id)).map fun packet => (packet, w'.engine)
  engine : w'.engine = w.nextEngine (w'.sent p h d)
  fresh : ∀ session, w.engine < session → (w'.ledger p h d).Fresh session

namespace Moves

variable {w' : Watch} {left : List (Packet × Nat)}

theorem engine_le (h' : Moves w w' p h d os before id event effects left) :
    w.engine ≤ w'.engine := by
  rw [h'.engine, nextEngine]
  split
  next => exact Nat.le_succ _
  next => exact Nat.le_refl _

theorem items (h' : Moves w w' p h d os before id event effects left) :
    w'.items p h d = left.filterMap (Packet.item? p h d) ++
      if id = p then (asked h d effects).filterMap (Msg.item? d w'.engine) else [] := by
  rw [Watch.items, h'.wire, List.filterMap_append, items_of_effects]

theorem ok (h' : Moves w w' p h d os before id event effects left) (hinv : w.Inv p h d) :
    before.Ok :=
  ⟨h'.hands.servers ▸ hinv.ok.hostId, h'.hands.servers ▸ hinv.ok.ids⟩

/-- What the client has and asks in a turn that does not open a document of its own host. -/
theorem sends (h' : Moves w w' p h d os before id event effects left) (hinv : w.Inv p h d)
    (hown : id = p → h = p → Server.opensFile event = false) :
    CopySends d (w.sent p h d) (w'.sent p h d) (if id = p then asked h d effects else []) ∧
      Server.CopyNumbered (w'.net.copy p h d) := by
  by_cases hid : id = p
  · subst hid
    rw [if_pos rfl, sent, sent, copy, copy, ← h'.hands.servers]
    refine h'.turn.handled.sends (fun hh => hown rfl ?_) ?_
    · rw [hh]
      exact (h'.ok hinv).hostId id
    · have hnumbered := hinv.numbered
      rw [copy, ← h'.hands.servers] at hnumbered
      exact hnumbered
  · rw [if_neg hid]
    have hcopy : w'.net.copy p h d = w.net.copy p h d := by
      rw [h'.turn.copy_of_ne (Ne.symm hid), copy, copy, h'.hands.servers]
    rw [sent, sent, hcopy]
    exact ⟨.idle, hinv.numbered⟩

/-- The flow goes on from what is left after the message is taken. -/
theorem flow (h' : Moves w w' p h d os before id event effects left) (hinv : w.Inv p h d)
    (hown : id = p → h = p → Server.opensFile event = false)
    (hflow : InStep (w'.ledger p h d) (left.filterMap (Packet.item? p h d)) w.engine
      (w.sent p h d)) :
    InStep (w'.ledger p h d) (w'.items p h d) w'.engine (w'.sent p h d) := by
  obtain ⟨hsends, -⟩ := h'.sends hinv hown
  have hitems : w'.items p h d = left.filterMap (Packet.item? p h d) ++
      (if id = p then asked h d effects else []).filterMap (Msg.item? d w'.engine) := by
    rw [h'.items]
    split <;> rfl
  rw [hitems]
  refine inStep_sends hsends (fun item hmem s hs => ?_) (h'.fresh _ (Nat.lt_succ_self _)) hflow
    h'.engine
  obtain ⟨sent, hsent, hitem⟩ := List.mem_filterMap.mp hmem
  exact hinv.bound_items item (List.mem_filterMap.mpr ⟨sent, h'.sub sent hsent, hitem⟩) s hs

/-- Before the document is made, a turn leaves no copy and no batch. -/
theorem quiet (h' : Moves w w' p h d os before id event effects left) (hinv : w.Inv p h d)
    (hearly : (w.net.servers h).nextDocId ≤ d)
    (hown : id = p → h = p → Server.opensFile event = false) :
    w'.net.copy p h d = none ∧ ∀ item ∈ w'.items p h d, item.isBatch = false := by
  obtain ⟨hcopy, hitems, hsnapshots⟩ := hinv.early hearly
  have hleft : ∀ item ∈ left.filterMap (Packet.item? p h d), item.isBatch = false := by
    intro item hmem
    obtain ⟨sent, hsent, hitem⟩ := List.mem_filterMap.mp hmem
    exact hitems item (List.mem_filterMap.mpr ⟨sent, h'.sub sent hsent, hitem⟩)
  rw [h'.items]
  by_cases hid : id = p
  · subst hid
    rw [copy, ← h'.hands.servers] at hcopy
    obtain ⟨hnone, hasked⟩ := h'.turn.handled.copy_none
      (fun hh => hown rfl (hh.trans ((h'.ok hinv).hostId id))) hcopy fun snapshot reqId heq => by
        obtain ⟨packet, hmem, hsource, hbody⟩ := h'.hands.snapshot h snapshot reqId heq
        exact hsnapshots packet hmem hsource snapshot hbody
    refine ⟨hnone, List.forall_mem_append.mpr ⟨hleft, ?_⟩⟩
    rw [if_pos rfl]
    intro item hmem
    obtain ⟨msg, hmsg, hitem⟩ := List.mem_filterMap.mp hmem
    exact Msg.not_batch_of_item? hitem (hasked msg hmsg)
  · rw [h'.turn.copy_of_ne (Ne.symm hid), copy, h'.hands.servers, if_neg hid, List.append_nil]
    exact ⟨hcopy, hleft⟩

theorem full (h' : Moves w w' p h d os before id event effects left) (hinv : w.Inv p h d)
    (hsends : ∀ msg ∈ if id = p then asked h d effects else [], ∀ s, msg.item? d s ≠ none) :
    ∀ sent ∈ w'.wire, sent.1.source = p → sent.1.dest = h → sent.1.body.asked? = some d →
      Packet.item? p h d sent ≠ none := by
  rw [h'.wire]
  refine List.forall_mem_append.mpr ⟨fun sent hsent => hinv.full sent (h'.sub sent hsent), ?_⟩
  intro sent hsent hsource hdest hasked
  obtain ⟨packet, hpacket, rfl⟩ := List.mem_map.mp hsent
  have hdoc : packet.body.docId? = some d := by
    cases hbody : packet.body <;> rw [hbody] at hasked <;> first | exact hasked | cases hasked
  obtain ⟨hid, hmsgs⟩ := Turn.mem_docMsgs hpacket hdoc
  rw [if_pos (hid.symm.trans hsource)] at hsends
  rw [Packet.item?, if_pos ⟨hsource, hdest⟩]
  refine hsends packet.body (List.mem_map.mpr ⟨_, List.mem_filter.mpr ⟨hmsgs, ?_⟩, rfl⟩) _
  exact decide_eq_true ⟨hdest, hasked⟩

/-- Before the document is made, no snapshot of it is sent. -/
theorem snapshots (h' : Moves w w' p h d os before id event effects left) (hinv : w.Inv p h d)
    (hearly : (w'.net.servers h).nextDocId ≤ d) :
    ∀ packet ∈ w'.net.wire, packet.source = h → ∀ snapshot, packet.body = .snapshot snapshot →
      snapshot.docId ≠ d := by
  intro packet hmem hsource snapshot hbody habout
  have hbefore : (w.net.servers h).nextDocId ≤ d := by
    by_cases hid : id = h
    · subst hid
      rw [← h'.hands.servers]
      exact h'.turn.handled.nextDocId_le.trans hearly
    · rw [h'.turn.others h (Ne.symm hid), h'.hands.servers] at hearly
      exact hearly
  rw [h'.turn.wire] at hmem
  rcases List.mem_append.mp hmem with hold | hnew
  · exact (hinv.early hbefore).2.2 packet (h'.hands.kept packet hold) hsource snapshot hbody habout
  · have hdoc : packet.body.docId? = some d := by
      rw [hbody, ← habout]
      rfl
    obtain ⟨hid, hmsgs⟩ := Turn.mem_docMsgs hnew hdoc
    obtain rfl : id = h := hid.symm.trans hsource
    have htold : (packet.dest, .snapshot snapshot) ∈ told d effects :=
      List.mem_filter.mpr ⟨hbody ▸ hmsgs, decide_eq_true (congrArg some habout)⟩
    exact (h'.turn.hostStep (h'.ok hinv) d).snapshot htold
      (((h'.turn.ok (h'.ok hinv)).ids id).hosted_of_le hearly)

end Moves

theorem full_of_sends {sent sent' : Option LocalSeq} {asks : List Msg}
    (hsends : CopySends d sent sent' asks) (habout : ∀ msg ∈ asks, msg.asked? = some d) :
    ∀ msg ∈ asks, ∀ s, msg.item? d s ≠ none := by
  intro msg hmsg s
  have hask := habout msg hmsg
  cases msg with
  | requestOps doc seq =>
      rw [Msg.item?, if_pos (Option.some.inj hask)]
      exact Option.some_ne_none _
  | stopSendingOps doc =>
      rw [Msg.item?, if_pos (Option.some.inj hask)]
      exact Option.some_ne_none _
  | opFromClient ops =>
      cases hsends with
      | asks => obtain ⟨_, -, heq⟩ := List.mem_map.mp hmsg; cases heq
      | leaves plain => exact absurd rfl (plain _ hmsg ops)
      | opens => cases List.mem_singleton.mp hmsg
      | batch next =>
          cases List.mem_singleton.mp hmsg
          obtain ⟨first, hfirst, -⟩ := next.first
          obtain ⟨last, hlast, -⟩ := next.last
          rw [Msg.item?, if_pos next.doc, hfirst, hlast]
          exact Option.some_ne_none _
  | _ => cases hask

namespace Moves

variable {w' : Watch} {left : List (Packet × Nat)}

theorem wire_eq (h' : Moves w w' p h d os before id event effects left) :
    w'.wire.map Prod.fst = w'.net.wire := by
  rw [h'.wire, List.map_append, List.map_map, h'.kept, h'.turn.wire]
  exact congrArg (before.wire ++ ·) (List.map_id _)

theorem bound (h' : Moves w w' p h d os before id event effects left) (hinv : w.Inv p h d) :
    ∀ sent ∈ w'.wire, sent.2 ≤ w'.engine := by
  rw [h'.wire]
  refine List.forall_mem_append.mpr ⟨fun sent hsent => ?_, fun sent hsent => ?_⟩
  · exact (hinv.bound sent (h'.sub sent hsent)).trans h'.engine_le
  · obtain ⟨packet, -, rfl⟩ := List.mem_map.mp hsent
    exact Nat.le_refl _

theorem fresh_next (h' : Moves w w' p h d os before id event effects left) :
    ∀ session, w'.engine < session → (w'.ledger p h d).Fresh session :=
  fun session hlt => h'.fresh session (Nat.lt_of_le_of_lt h'.engine_le hlt)

/-- The counter of the documents was below `d` before the turn. -/
theorem early (h' : Moves w w' p h d os before id event effects left)
    (hearly : (w'.net.servers h).nextDocId ≤ d) : (w.net.servers h).nextDocId ≤ d := by
  by_cases hid : id = h
  · subst hid
    rw [← h'.hands.servers]
    exact h'.turn.handled.nextDocId_le.trans hearly
  · rw [h'.turn.others h (Ne.symm hid), h'.hands.servers] at hearly
    exact hearly

/-- A document that is not there is made later or not at all. -/
theorem early_of_none (h' : Moves w w' p h d os before id event effects left)
    (hinv : w.Inv p h d) (hdoc : w.net.doc h d = none) (hdoc' : w'.net.doc h d ≠ none) :
    (w.net.servers h).nextDocId ≤ d := by
  by_contra hlt
  by_cases hid : id = h
  · subst hid
    have hstep := h'.turn.hostStep (h'.ok hinv) d
    rw [Network.doc, ← h'.hands.servers] at hdoc
    have hdoc : before.doc id d = none := hdoc
    rw [← h'.hands.servers] at hlt
    rw [hdoc] at hstep
    exact hdoc' (hstep.none_of_lt (Nat.lt_of_not_le hlt))
  · rw [h'.turn.doc_of_ne (Ne.symm hid), Network.doc, h'.hands.servers] at hdoc'
    exact hdoc' hdoc

/-- A turn that does not open a document of the client's own host. -/
theorem inv_plain (h' : Moves w w' p h d os before id event effects left) (hinv : w.Inv p h d)
    (hown : id = p → h = p → Server.opensFile event = false)
    (hledger : w.net.doc h d ≠ none → w'.net.doc h d ≠ none →
      InStep (w'.ledger p h d) (left.filterMap (Packet.item? p h d)) w.engine (w.sent p h d)) :
    w'.Inv p h d where
  ok := h'.turn.ok (h'.ok hinv)
  wire := h'.wire_eq
  bound := h'.bound hinv
  fresh := h'.fresh_next
  numbered := (h'.sends hinv hown).2
  full := by
    refine h'.full hinv (full_of_sends (h'.sends hinv hown).1 fun msg hmsg => ?_)
    split at hmsg
    next =>
        obtain ⟨sent, hsent, rfl⟩ := List.mem_map.mp hmsg
        exact (of_decide_eq_true (List.mem_filter.mp hsent).2).2
    next => cases hmsg
  early hearly := by
    obtain ⟨hcopy, hitems⟩ := h'.quiet hinv (h'.early hearly) hown
    exact ⟨hcopy, hitems, h'.snapshots hinv hearly⟩
  flow hdoc' := by
    by_cases hdoc : w.net.doc h d = none
    · obtain ⟨hcopy, hitems⟩ := h'.quiet hinv (h'.early_of_none hinv hdoc hdoc') hown
      have hsent : w'.sent p h d = none := by rw [sent, hcopy]; rfl
      rw [hsent]
      exact .of_quiet hitems
    · exact h'.flow hinv hown (hledger hdoc hdoc')

/-- The own editor of the host opens a document. -/
theorem inv_open (h' : Moves w w' p p d os before p event effects w.wire) (hinv : w.Inv p p d)
    (hopens : Server.opensFile event = true)
    (hbooks : w'.accepted = w.accepted ∧ w'.refused = w.refused)
    (hsteady : (w.net.servers p).opening event = some d →
      if (w.net.servers p).keepsCopy event = true ∧ (w.net.copy p p d).isSome = true then
        (w.net.servers p).recordedOf p d = some 0
      else ∀ item ∈ w.items p p d, item.isAsk = true) : w'.Inv p p d := by
  have hservers := h'.hands.servers
  have hhost := (h'.ok hinv).hostId p
  have hasked := h'.turn.handled.asked_of_opens hopens p d
  have hitems : w'.items p p d = w.items p p d := by
    rw [h'.items, if_pos rfl, hasked]
    exact List.append_nil _
  have hfull : ∀ msg ∈ if p = p then asked p d effects else [], ∀ s, msg.item? d s ≠ none := by
    rw [if_pos rfl, hasked]
    exact List.forall_mem_nil _
  have hbuild (hnumbered : Server.CopyNumbered (w'.net.copy p p d))
      (hearly : (w'.net.servers p).nextDocId ≤ d → w'.net.copy p p d = w.net.copy p p d)
      (hflow : w'.net.doc p d ≠ none →
        InStep (w'.ledger p p d) (w.items p p d) w'.engine (w'.sent p p d)) : w'.Inv p p d :=
    { ok := h'.turn.ok (h'.ok hinv), wire := h'.wire_eq, bound := h'.bound hinv
      fresh := h'.fresh_next, numbered := hnumbered, full := h'.full hinv hfull
      flow := hitems ▸ hflow
      early := fun hlt => by
        obtain ⟨hcopy, hquiet, -⟩ := hinv.early (h'.early hlt)
        exact ⟨(hearly hlt).trans hcopy, hitems ▸ hquiet, h'.snapshots hinv hlt⟩ }
  -- A document with a number is there, so its id is given.
  have hmade (hrecorded : (w'.net.servers p).recordedOf p d = some 0)
      (hlt : (w'.net.servers p).nextDocId ≤ d) : False := by
    rw [Server.recordedOf, ((h'.turn.ok (h'.ok hinv)).ids p).hosted_of_le hlt] at hrecorded
    cases hrecorded
  have hledger (hrecorded : (w'.net.servers p).recordedOf p d = (w.net.servers p).recordedOf p d) :
      w'.ledger p p d = w.ledger p p d := by
    rw [ledger, hrecorded, hbooks.1, hbooks.2]
    rfl
  have hidle (hcopy : w'.net.copy p p d = w.net.copy p p d) (hdoc : w.net.doc p d ≠ none)
      (hrecorded : (w'.net.servers p).recordedOf p d = (w.net.servers p).recordedOf p d) :
      InStep (w'.ledger p p d) (w.items p p d) w'.engine (w'.sent p p d) := by
    have hsent : w'.sent p p d = w.sent p p d := by rw [sent, sent, hcopy]
    rw [hledger hrecorded, hsent]
    exact hinv.flow_idle (hsent ▸ h'.engine) hdoc
  cases h'.turn.handled.openStep hopens d with
  | still hosted copy =>
      rw [hhost, hservers] at copy
      rw [hservers] at hosted
      have hdoc : w'.net.doc p d = w.net.doc p d := hosted
      have hcopy : w'.net.copy p p d = w.net.copy p p d := copy
      refine hbuild (hcopy ▸ hinv.numbered) (fun _ => hcopy) fun hsome => ?_
      refine hidle hcopy (hdoc ▸ hsome) ?_
      rw [Server.recordedOf, hosted]
      rfl
  | kept opens keeps recorded copy =>
      rw [hhost] at recorded copy
      rw [hservers] at opens keeps copy
      have hcopy : w'.net.copy p p d = w.net.copy p p d := copy
      refine hbuild (hcopy ▸ hinv.numbered) (fun _ => hcopy) fun hsome => ?_
      have hsteady := hsteady opens
      by_cases hnone : w.net.copy p p d = none
      · have hsent : w'.sent p p d = none := by rw [sent, hcopy, hnone]; rfl
        rw [if_neg fun hand => by simp [hnone] at hand] at hsteady
        rw [hsent]
        refine .of_quiet fun item hmem => ?_
        cases item with
        | ask | stop => rfl
        | batch => cases hsteady _ hmem
      · rw [if_pos ⟨keeps, Option.isSome_iff_ne_none.mpr hnone⟩] at hsteady
        have hdoc : w.net.doc p d ≠ none := by
          obtain ⟨doc, hdoc, -⟩ := Option.bind_eq_some_iff.mp hsteady
          rw [Network.doc, hdoc]
          exact Option.some_ne_none _
        exact hidle hcopy hdoc (recorded.trans hsteady.symm)
  | opened opens keeps recorded _ _ entry copy _ made =>
      obtain ⟨hfresh, hnumbered⟩ := Server.sent_of_made made
      rw [hhost] at recorded copy
      rw [hservers] at opens keeps
      have hsteady := hsteady opens
      rw [if_neg fun hand => by simp [keeps] at hand] at hsteady
      have hcopy : w'.net.copy p p d = some entry := copy
      have hsent : w'.sent p p d = some 0 := by
        rw [sent, hcopy, Option.map_some, hfresh]
      refine hbuild ?_ (fun hlt => (hmade recorded hlt).elim) fun _ => ?_
      · rw [hcopy]
        exact hnumbered
      · have hengine : w'.engine = w.engine + 1 := by
          rw [h'.engine, nextEngine, if_pos hsent]
        rw [hsent, hengine]
        exact .of_asks hsteady (h'.fresh _ (Nat.lt_succ_self _)) recorded

end Moves

/-! ## Runs -/

variable {w' : Watch}

theorem step_eq {act : Act} (hstep : w.step p h d act = some w') :
    w.net.step act = some w'.net ∧ w'.engine = w.nextEngine (w'.sent p h d) ∧
      w'.wire = (w.taking p h d act).1 ++
        (w'.net.wire.drop (w.taking p h d act).1.length).map (fun packet => (packet, w'.engine)) ∧
      w'.accepted = (w.taking p h d act).2.1 ∧ w'.refused = (w.taking p h d act).2.2 := by
  simp only [Watch.step, Option.bind_eq_bind, Option.bind_eq_some_iff] at hstep
  obtain ⟨net, hnet, hw⟩ := hstep
  cases hw
  exact ⟨hnet, rfl, rfl, rfl, rfl⟩

/-- The new messages are those that the turn sends. -/
theorem wire_of_turn {left : List (Packet × Nat)} {engine : Nat}
    (hturn : Turn os before id event after effects) (hleft : left.map Prod.fst = before.wire) :
    (after.wire.drop left.length).map (fun packet => (packet, engine)) =
      (effects.filterMap (Effect.packet? id)).map fun packet => (packet, engine) := by
  rw [hturn.wire, ← hleft, List.drop_left']
  exact List.length_map _

theorem Inv.moves_turn (hinv : w.Inv p h d)
    (hstep : w.step p h d (.turn os id event) = some w') :
    event.isLocal = true ∧ (w'.accepted = w.accepted ∧ w'.refused = w.refused) ∧
      ∃ effects, Moves w w' p h d os w.net id event effects w.wire := by
  obtain ⟨hnet, hengine, hwire, haccepted, hrefused⟩ := step_eq hstep
  simp only [Network.step] at hnet
  split at hnet
  next hlocal =>
      obtain ⟨effects, hturn⟩ := turn_of_handle hnet
      refine ⟨hlocal, ⟨haccepted, hrefused⟩, effects, ?_⟩
      refine ⟨hturn, hands_local hlocal, hinv.wire, fun _ hsent => hsent, ?_, hengine, ?_⟩
      · rw [hwire, ← wire_of_turn hturn hinv.wire]
        rfl
      · intro session hlt
        rw [ledger, haccepted, hrefused]
        exact hinv.fresh session hlt
  next => cases hnet

theorem Inv.fresh_enter (hinv : w.Inv p h d) {packet : Packet} {session : Nat}
    (hmem : (packet, session) ∈ w.wire) {s : Nat} (hlt : w.engine < s) :
    (w.enter p h packet (Packet.item? p h d (packet, session))).1 s = 0 ∧
      (w.enter p h packet (Packet.item? p h d (packet, session))).2 s = false := by
  have hfresh := hinv.fresh s hlt
  have hne (session' : Nat) (first last : LocalSeq)
      (hitem : Packet.item? p h d (packet, session) = some (.batch session' first last)) :
      s ≠ session' := by
    have hmem : .batch session' first last ∈ w.items p h d :=
      List.mem_filterMap.mpr ⟨_, hmem, hitem⟩
    exact Nat.ne_of_gt (Nat.lt_of_le_of_lt (hinv.bound_items _ hmem _ rfl) hlt)
  unfold enter
  split
  next ops session' first last _ hitem =>
      split
      next => exact ⟨(Function.update_of_ne (hne _ _ _ hitem) ..).trans hfresh.1, hfresh.2⟩
      next =>
          split
          next => exact hfresh
          next => exact ⟨hfresh.1, (Function.update_of_ne (hne _ _ _ hitem) ..).trans hfresh.2⟩
  next => exact hfresh

/-- A packet that is handled, with the books after it. -/
theorem Inv.moves_deliver (hinv : w.Inv p h d) {index : Nat}
    (hstep : w.step p h d (.deliver os index) = some w') :
    ∃ packet session effects, w.wire[index]? = some (packet, session) ∧
      Moves w w' p h d os (w.net.take index) packet.dest packet.event effects
        (w.wire.eraseIdx index) ∧
      (w'.accepted, w'.refused) =
        w.enter p h packet (Packet.item? p h d (packet, session)) := by
  obtain ⟨hnet, hengine, hwire, haccepted, hrefused⟩ := step_eq hstep
  simp only [Network.step, Option.bind_eq_bind, Option.bind_eq_some_iff] at hnet
  obtain ⟨packet, hpacket, hhandle⟩ := hnet
  obtain ⟨effects, hturn⟩ := turn_of_handle hhandle
  have hsent := hpacket
  rw [← hinv.wire, List.getElem?_map, Option.map_eq_some_iff] at hsent
  obtain ⟨⟨packet', session⟩, hsent, rfl⟩ := hsent
  have hkept : (w.wire.eraseIdx index).map Prod.fst = (w.net.take index).wire := by
    rw [← List.eraseIdx_map, hinv.wire]
    rfl
  simp only [taking, hsent] at hwire haccepted hrefused
  refine ⟨packet', session, effects, hsent, ⟨hturn, hands_take hpacket, hkept,
    fun _ hmem => List.mem_of_mem_eraseIdx hmem, ?_, hengine, fun s hlt => ?_⟩,
    Prod.ext haccepted hrefused⟩
  · rw [hwire, ← wire_of_turn hturn hkept]
  · rw [ledger, haccepted, hrefused]
    exact hinv.fresh_enter (List.mem_of_getElem? hsent) hlt

theorem isAskOf_of_local (hlocal : event.isLocal = true) : Server.isAskOf p d event = false := by
  cases event with
  | message msg =>
      obtain ⟨host, body, reqId⟩ := msg
      cases body <;> first | (cases hlocal; done) | simp [Server.isAskOf, Msg.asked?]
  | _ => rfl

/-- What a packet that is delivered leaves on the way. -/
theorem Inv.ledger_deliver (hinv : w.Inv p h d) {index : Nat} {packet : Packet} {session : Nat}
    (hsent : w.wire[index]? = some (packet, session))
    (h' : Moves w w' p h d os (w.net.take index) packet.dest packet.event effects
      (w.wire.eraseIdx index))
    (hbooks : (w'.accepted, w'.refused) =
      w.enter p h packet (Packet.item? p h d (packet, session)))
    (horder : w.inOrder p h d (.deliver os index) = true)
    (hsteady : w.steady p h d (.deliver os index) = true) (hdoc : w.net.doc h d ≠ none)
    (hdoc' : w'.net.doc h d ≠ none) :
    InStep (w'.ledger p h d) ((w.wire.eraseIdx index).filterMap (Packet.item? p h d)) w.engine
      (w.sent p h d) := by
  have haccepted : w'.accepted = _ := congrArg Prod.fst hbooks
  have hrefused : w'.refused = _ := congrArg Prod.snd hbooks
  have hflow := hinv.flow hdoc
  have hitemAt : w.itemAt p h d index = Packet.item? p h d (packet, session) := by
    rw [itemAt, hsent, Option.bind_some]
  cases hitem : Packet.item? p h d (packet, session) with
  | none =>
      have hask (hdest : packet.dest = h) : Server.isAskOf p d packet.event = false := by
        by_contra hne
        rw [Bool.not_eq_false] at hne
        obtain ⟨hsource, hasked⟩ := of_decide_eq_true hne
        exact hinv.full _ (List.mem_of_getElem? hsent) hsource hdest hasked hitem
      have hrecorded := hinv.recorded_still h'.turn rfl hask (fun _ _ => rfl) hdoc hdoc'
      rw [filterMap_eraseIdx_of_none hsent hitem, ledger, haccepted, hrefused, hitem, hrecorded]
      have henter : w.enter p h packet none = (w.accepted, w.refused) := by
        unfold enter
        split
        next heq => cases heq
        next => rfl
      rw [henter]
      exact hflow
  | some item =>
      rw [inOrder, hitemAt, hitem, Option.isNone_some, Bool.false_or, List.isEmpty_iff] at horder
      rw [Watch.items, filterMap_eraseIdx_of_first hsent hitem horder] at hflow
      rw [ledger, haccepted, hrefused, hitem]
      refine hinv.handles hitem h'.turn rfl ?_ hflow hdoc hdoc'
      rw [steady, hitemAt, hitem] at hsteady
      cases item with
      | ask session => exact (of_decide_eq_true hsteady : w.accepted session = 0)
      | stop => trivial
      | batch session =>
          have hsteady : _ → w.refused session = false := of_decide_eq_true hsteady
          exact hsteady

/-- A message that is not an item is lost. -/
theorem Inv.lose (hinv : w.Inv p h d) {index : Nat} (hnet : w.net.take index = w'.net)
    (hengine : w'.engine = w.nextEngine (w'.sent p h d))
    (hwire : w'.wire = (w.taking p h d (.lose index)).1 ++
      (w'.net.wire.drop (w.taking p h d (.lose index)).1.length).map fun packet =>
        (packet, w'.engine))
    (haccepted : w'.accepted = w.accepted) (hrefused : w'.refused = w.refused)
    (horder : w.inOrder p h d (.lose index) = true) : w'.Inv p h d := by
  have hkept : (w.wire.eraseIdx index).map Prod.fst = w'.net.wire := by
    rw [← List.eraseIdx_map, hinv.wire, ← hnet]
    rfl
  have hwire : w'.wire = w.wire.eraseIdx index := by
    rw [hwire, taking, ← hkept, ← List.length_map Prod.fst, List.drop_length]
    exact List.append_nil _
  have hsub : ∀ sent ∈ w'.wire, sent ∈ w.wire := by
    rw [hwire]
    exact fun sent hsent => List.mem_of_mem_eraseIdx hsent
  have hitems : w'.items p h d = w.items p h d := by
    rw [Watch.items, hwire]
    cases hsent : w.wire[index]? with
    | none => rw [List.eraseIdx_of_length_le (List.getElem?_eq_none_iff.mp hsent)]; rfl
    | some sent =>
        rw [inOrder, itemAt, hsent, Option.bind_some, Option.isNone_iff_eq_none] at horder
        exact filterMap_eraseIdx_of_none hsent horder
  have hledger : w'.ledger p h d = w.ledger p h d := by
    rw [ledger, haccepted, hrefused, ← hnet]
    rfl
  have hle : w.engine ≤ w'.engine := by
    rw [hengine, nextEngine]
    split
    next => exact Nat.le_succ _
    next => exact Nat.le_refl _
  have hservers : w'.net.servers = w.net.servers := by rw [← hnet]; rfl
  have hcopy : w'.net.copy p h d = w.net.copy p h d := by rw [copy, hservers]; rfl
  have hsent : w'.sent p h d = w.sent p h d := by rw [sent, hcopy]; rfl
  rw [hsent] at hengine
  exact
    { ok := ⟨hservers ▸ hinv.ok.hostId, hservers ▸ hinv.ok.ids⟩
      wire := hwire ▸ hkept
      bound := fun sent hsent => (hinv.bound sent (hsub sent hsent)).trans hle
      fresh := fun session hlt => hledger ▸ hinv.fresh session (Nat.lt_of_le_of_lt hle hlt)
      numbered := hcopy ▸ hinv.numbered
      full := fun sent hsent => hinv.full sent (hsub sent hsent)
      early := fun hearly => by
        rw [hservers] at hearly
        obtain ⟨hnone, hquiet, hsnapshots⟩ := hinv.early hearly
        refine ⟨hcopy.trans hnone, hitems ▸ hquiet, fun packet hmem => ?_⟩
        rw [← hnet] at hmem
        exact hsnapshots packet (List.mem_of_mem_eraseIdx hmem)
      flow := fun hdoc => by
        rw [Network.doc, hservers] at hdoc
        rw [hledger, hitems, hsent]
        exact hinv.flow_idle hengine hdoc }

theorem Inv.step (hinv : w.Inv p h d) {act : Act}
    (hcond : w.inOrder p h d act = true ∧ w.steady p h d act = true)
    (hstep : w.step p h d act = some w') : w'.Inv p h d := by
  obtain ⟨horder, hsteady⟩ := hcond
  cases act with
  | turn os id event =>
      obtain ⟨hlocal, hbooks, effects, h'⟩ := hinv.moves_turn hstep
      by_cases hown : id = p ∧ h = p ∧ Server.opensFile event = true
      · obtain ⟨rfl, rfl, hopens⟩ := hown
        refine h'.inv_open hinv hopens hbooks fun hopening => ?_
        rw [steady, if_pos ⟨rfl, rfl, hopening⟩] at hsteady
        split
        next hkept =>
            rw [if_pos hkept] at hsteady
            exact of_decide_eq_true hsteady
        next hkept =>
            rw [if_neg hkept] at hsteady
            exact List.all_eq_true.mp hsteady
      · refine h'.inv_plain hinv (fun hid hh => ?_) fun hdoc hdoc' => ?_
        · cases hopens : Server.opensFile event with
          | false => rfl
          | true => exact absurd ⟨hid, hh, hopens⟩ hown
        · have hrecorded := hinv.recorded_still h'.turn rfl (fun _ => isAskOf_of_local hlocal)
            (fun hid hp => ?_) hdoc hdoc'
          · rw [ledger, hrecorded, hbooks.1, hbooks.2]
            exact hinv.flow hdoc
          · cases hopens : Server.opensFile event with
            | false => rfl
            | true => exact absurd ⟨hid.trans hp.symm, hp.symm, hopens⟩ hown
  | deliver os index =>
      obtain ⟨packet, session, effects, hsent, h', hbooks⟩ := hinv.moves_deliver hstep
      exact h'.inv_plain hinv (fun _ _ => rfl) fun hdoc hdoc' =>
        hinv.ledger_deliver hsent h' hbooks horder hsteady hdoc hdoc'
  | lose index =>
      obtain ⟨hnet, hengine, hwire, haccepted, hrefused⟩ := step_eq hstep
      simp only [Network.step] at hnet
      split at hnet
      next hlt => exact hinv.lose (Option.some.inj hnet) hengine hwire haccepted hrefused horder
      next => cases hnet

/-- A batch is at its turn, and the host's number is the last one accepted of its engine. -/
theorem Inv.expects (hinv : w.Inv p h d) {act : Act}
    (hcond : w.inOrder p h d act = true ∧ w.steady p h d act = true) : w.Expects p h d act := by
  cases act with
  | turn | lose => trivial
  | deliver os index =>
      rintro ⟨source, dest, reqId, body⟩ session ops hsent rfl rfl rfl rfl
      obtain ⟨horder, hsteady⟩ := hcond
      have hitem := hinv.full _ (List.mem_of_getElem? hsent) rfl rfl rfl
      obtain ⟨item, hitem⟩ := Option.ne_none_iff_exists'.mp hitem
      have hitemAt : w.itemAt source dest ops.doc index = some item := by
        rw [itemAt, hsent, Option.bind_some, hitem]
      have hbatch : ∃ first last, ops.ops.head? = some first ∧
          item = .batch session first.siteSeq last := by
        rw [Packet.item?, if_pos ⟨rfl, rfl⟩, Msg.item?, if_pos rfl] at hitem
        split at hitem
        next first last hfirst hlast => exact ⟨first, _, hfirst, (Option.some.inj hitem).symm⟩
        next => cases hitem
      obtain ⟨first, last, hfirst, rfl⟩ := hbatch
      rw [inOrder, hitemAt, Option.isNone_some, Bool.false_or, List.isEmpty_iff] at horder
      rw [steady, hitemAt] at hsteady
      have hflow (hdoc : w.net.doc dest ops.doc ≠ none) :
          (w.net.servers dest).recordedOf source ops.doc = some (w.accepted session) ∧
            (w.refused session = false → first.siteSeq = w.accepted session + 1) := by
        have hflow := hinv.flow hdoc
        rw [Watch.items, filterMap_eraseIdx_of_first hsent hitem horder] at hflow
        exact ⟨hflow.1, fun hrefused => (hflow.2.1 hrefused).1⟩
      refine ⟨fun doc hdoc => ?_, fun after effects hhandle reqId' reason hmem => ?_⟩
      · rw [← Server.hosted_bind_subscribers hdoc]
        exact (hflow (by rw [hdoc]; exact Option.some_ne_none _)).1
      · have hturn := Server.handled hhandle
        cases hturn with
        | opFromClient hrun =>
            obtain ⟨hallowed, entry, lastSeq, op, hget, hsub, hop, hne⟩ :=
              Server.mismatch_of_docFatal hrun hmem
            have hhosted := Server.hosted_of_get hget
            obtain ⟨hrecorded, hnext⟩ := hflow (by
              rw [Network.doc, hhosted]
              exact Option.some_ne_none _)
            rw [Server.hosted_bind_subscribers hhosted] at hrecorded
            cases hsub.symm.trans hrecorded
            cases hop.symm.trans hfirst
            exact hne (hnext (of_decide_eq_true hsteady hallowed))
        | noted _ _ _ plain => cases plain
        | idle away => cases away

end Step

/-- In every run in which the client's messages arrive in order, and a question finds nothing
accepted of the engine that asks, a batch of the client is never told that its number is wrong. -/
theorem expects_of_steady (p h : ServerId) (d : DocId) {config : ServerId → Config}
    {idealWorld : ServerId → WorldState} {acts : List Act}
    (hcond : Run.Meets (step p h d)
      (fun w act => w.inOrder p h d act = true ∧ w.steady p h d act = true)
      (start config idealWorld) acts) :
    Run.Meets (step p h d) (fun w act => w.Expects p h d act) (start config idealWorld) acts :=
  Run.Meets.of_invariant (fun _ _ _ hinv hcond hstep => hinv.step hcond hstep)
    (fun _ _ hinv hcond => hinv.expects hcond) (inv_start p h d config idealWorld) hcond

theorem batch_of_itemAt {p h : ServerId} {d : DocId} {w : Watch} {index session : Nat}
    {first last : LocalSeq} (hitem : w.itemAt p h d index = some (.batch session first last)) :
    ∃ packet ops, w.wire[index]? = some (packet, session) ∧ packet.source = p ∧
      packet.dest = h ∧ packet.body = .opFromClient ops ∧ ops.doc = d := by
  obtain ⟨⟨packet, engine⟩, hsent, hitem⟩ := Option.bind_eq_some_iff.mp hitem
  rw [Packet.item?] at hitem
  split at hitem
  next hand =>
      obtain ⟨source, dest, reqId, body⟩ := packet
      cases body with
      | opFromClient ops =>
          rw [Msg.item?] at hitem
          split at hitem
          next hdoc =>
              split at hitem <;> cases hitem
              exact ⟨_, ops, hsent, hand.1, hand.2, rfl, hdoc⟩
          next => cases hitem
      | requestOps | stopSendingOps =>
          rw [Msg.item?] at hitem
          split at hitem <;> cases hitem
      | _ => cases hitem
  next => cases hitem

open Server (sharedFile)

/-- The editor of host 1 types into the buffer that it has opened. -/
def types (reqId : RequestId) (pos : Nat) (group : GroupSeq) : Act :=
  .turn Os.bare 1 (.request reqId (.sendOps [⟨.ins pos ['y'], group⟩] sharedFile))

/-- Host 0 types twice into its own buffer, and the first of the two does not come to host 1,
which asks for it.  Then host 1 sends two batches. -/
def twoBatches : List Act :=
  session ++
    [.turn Os.bare 0 (.request 2 (.sendOps [⟨.ins 0 ['z'], 1⟩] sharedFile)), .deliver Os.bare 0,
      .deliver Os.bare 0, .lose 0, .turn Os.bare 0 (.request 3 (.sendOps [] sharedFile)),
      .turn Os.bare 0 (.request 4 (.sendOps [⟨.ins 0 ['z'], 2⟩] sharedFile)), .deliver Os.bare 0,
      .deliver Os.bare 1, .deliver Os.bare 1, .deliver Os.bare 1, types 2 0 1, .deliver Os.bare 1,
      .deliver Os.bare 2, types 3 0 2, types 4 0 3, .deliver Os.bare 2]

theorem expects_of_steady_sample :
    Run.Meets (step 1 0 1) (fun w act => w.Expects 1 0 1 act) (start noConfig nobodyWanted)
        twoBatches ∧
      ((Run.run (step 1 0 1) (start noConfig nobodyWanted) twoBatches).map fun w =>
        ((w.ledger 1 0 1).recorded, w.engine)) = some (some 2, 12) :=
  ⟨expects_of_steady 1 0 1 (by decide +kernel), by decide +kernel⟩

/-- Host 1 has sent a batch before it finds the gap. -/
def asksLate : List Act :=
  session ++
    [types 2 1 1, .deliver Os.bare 0, .lose 1,
      .turn Os.bare 0 (.request 2 (.sendOps [⟨.ins 0 ['z'], 1⟩] sharedFile)), .deliver Os.bare 1,
      .deliver Os.bare 2, .deliver Os.bare 2, .deliver Os.bare 2, types 3 0 2]

/-- Then the host has set its number to 0, and refuses the next batch. -/
theorem not_expects :
    Run.Meets (step 1 0 1) (fun w act => w.inOrder 1 0 1 act = true) (start noConfig nobodyWanted)
        (asksLate ++ [.deliver Os.bare 2]) ∧
      ¬Run.Meets (step 1 0 1) (fun w act => w.Expects 1 0 1 act) (start noConfig nobodyWanted)
        (asksLate ++ [.deliver Os.bare 2]) := by
  refine ⟨by decide +kernel, fun h => ?_⟩
  have hview : ((Run.run (step 1 0 1) (start noConfig nobodyWanted) asksLate).map fun w =>
      (w.itemAt 1 0 1 2, (w.net.doc 0 1).map fun doc => AssocMap.get doc.subscribers 1,
        w.accepted 2)) = some (some (.batch 2 2 2), some (some 0), 1) := rfl
  obtain ⟨w, hrun, hview⟩ := Option.map_eq_some_iff.mp hview
  obtain ⟨hitem, hview⟩ := Prod.mk.inj hview
  obtain ⟨hnumber, haccepted⟩ := Prod.mk.inj hview
  obtain ⟨packet, ops, hsent, hsource, hdest, hbody, hdoc⟩ := batch_of_itemAt hitem
  obtain ⟨doc, hserved, hnumber⟩ := Option.map_eq_some_iff.mp hnumber
  have hlevel := (h.of_run hrun packet 2 ops hsent hsource hdest hbody hdoc).1 doc hserved
  rw [hnumber, haccepted] at hlevel
  cases hlevel

end Watch

end Network

end CollabMode
