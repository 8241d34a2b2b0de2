import CollabMode.DocsSpec
import CollabMode.Lib.Run

/-!
# A host and its peers

One host and any number of peers on one document.  A peer joins with the host's
snapshot.  Between a peer and the host there are two channels, `up` for its
batches and `down` for the ops the host sends to all.  Channels keep the order.

The steps are the turns of the loops in the handlers.  They can come in any
order, and a step that the program would refuse, or that would end the document,
is not taken.  What an editor sends is any op that the engine accepts, whether it
fits the text that the editor shows or not.  The chunks of a change made by another
program spell the host's text.

`Keeps` lists what each step has to preserve when an invariant says one thing
about the host's document and one about every peer.
-/

namespace CollabMode

/-! ## States -/

structure Site where
  doc : RemoteDoc
  /-- The sequence number of the snapshot the peer started with. -/
  base : GlobalSeq
  snapshot : InternalDoc
  /-- Batches on their way to the host. -/
  up : List ContextOps
  /-- Ops on their way from the host. -/
  down : List (FatOp Op)
deriving DecidableEq, Repr

structure System where
  doc : Doc
  sites : List (SiteId × Site)
deriving DecidableEq, Repr

/-! ## Steps -/

namespace Site

/-- A peer that starts with the host's snapshot. -/
def join (doc : Doc) (id : SiteId) : Site :=
  { doc := RemoteDoc.new doc.buffer
      (ClientEngine.new id doc.engine.currentSeq doc.engine.internalDoc)
    base := doc.engine.currentSeq
    snapshot := doc.engine.internalDoc
    up := []
    down := [] }

/-- The peer sends its local ops if it is time to.  There is only one document, so
any id will do. -/
def send (site : Site) : Site :=
  let (batch, engine) := site.doc.engine.maybePackageLocalOps 0
  { site with doc := { site.doc with engine }, up := site.up ++ batch.toList }

/-- The host sends ops to the peer. -/
def push (site : Site) (ops : List (FatOp Op)) : Site := { site with down := site.down ++ ops }

end Site

/-- The chunks are a diff of `text`. -/
def Spells (text : Text) (chunks : List Chunk) : Prop :=
  chunks.flatMap Chunk.old = text ∧ ∀ chunk ∈ chunks, chunk.text ≠ []

instance (text : Text) (chunks : List Chunk) : Decidable (Spells text chunks) :=
  inferInstanceAs (Decidable (_ ∧ _))

inductive Act where
  | join (id : SiteId)
  | edit (id : SiteId) (editorOp : EditorFatOp)
  | send (id : SiteId)
  | receive (id : SiteId)
  | deliver (id : SiteId)
  | external (chunks : List Chunk)
deriving DecidableEq, Repr

namespace System

/-- A host with a new document and no peers. -/
def start (content : Text) : System :=
  { doc := Doc.new content (ServerEngine.new content.length), sites := [] }

def site? (sys : System) (id : SiteId) : Option Site := AssocMap.get sys.sites id

def setSite (sys : System) (id : SiteId) (site : Site) : System :=
  { sys with sites := AssocMap.insert sys.sites id site }

/-- The host sends `ops` to all. -/
def broadcast (sys : System) (ops : List (FatOp Op)) : System :=
  { sys with sites := AssocMap.mapVals (Site.push · ops) sys.sites }

def step (sys : System) (act : Act) : Option System :=
  match act with
  | .join id =>
      match sys.site? id with
      | some _ => none
      | none =>
          if id = externalProcessSiteId then none
          else some (sys.setSite id (Site.join sys.doc id))
  | .edit id editorOp => do
      let site ← sys.site? id
      match site.doc.processEditorOp editorOp with
      | some (.ok _, doc) => some (sys.setSite id { site with doc })
      | _ => none
  | .send id => do
      let site ← sys.site? id
      some (sys.setSite id site.send)
  | .receive id => do
      let site ← sys.site? id
      match site.up with
      | [] => none
      | batch :: up =>
          match sys.doc.processAndApply batch.ops batch.context with
          | some (.ok processed, doc) =>
              some (({ sys with doc }.setSite id { site with up }).broadcast processed)
          | _ => none
  | .deliver id => do
      let site ← sys.site? id
      match site.down with
      | [] => none
      | op :: down =>
          match site.doc.processServerOp op with
          | some (.ok _, doc) => some (sys.setSite id { site with doc, down })
          | _ => none
  | .external chunks => do
      assert? (Spells sys.doc.buffer chunks)
      match sys.doc.resetFromDisk chunks with
      | some (.ok processed, doc) => some ({ sys with doc }.broadcast processed)
      | _ => none

theorem site?_setSite_self (sys : System) (id : SiteId) (site : Site) :
    (sys.setSite id site).site? id = some site :=
  AssocMap.get_insert_self _ _ _

theorem site?_setSite_ne {sys : System} {id id' : SiteId} {site : Site} (h : id' ≠ id) :
    (sys.setSite id site).site? id' = sys.site? id' :=
  AssocMap.get_insert_of_ne h

theorem site?_broadcast (sys : System) (ops : List (FatOp Op)) (id : SiteId) :
    (sys.broadcast ops).site? id = (sys.site? id).map (Site.push · ops) :=
  AssocMap.get_mapVals (Site.push · ops) sys.sites id

/-! ## Invariants -/

variable {P : Doc → Prop} {Q : Doc → SiteId → Site → Prop}
  {editC : Doc → Site → EditorFatOp → Prop} {deliverC : Doc → Site → FatOp Op → Prop}

/-- `P` holds of the host's document, and `Q` of every peer. -/
structure Inv (P : Doc → Prop) (Q : Doc → SiteId → Site → Prop) (sys : System) : Prop where
  doc : P sys.doc
  sites : ∀ id site, sys.site? id = some site → Q sys.doc id site

/-- Conditions on the edits and on the ops that peers take. -/
def Cond (editC : Doc → Site → EditorFatOp → Prop) (deliverC : Doc → Site → FatOp Op → Prop)
    (sys : System) : Act → Prop
  | .edit id editorOp => ∀ site, sys.site? id = some site → editC sys.doc site editorOp
  | .deliver id => ∀ site, sys.site? id = some site →
      ∀ op down, site.down = op :: down → deliverC sys.doc site op
  | _ => True

instance [∀ doc site editorOp, Decidable (editC doc site editorOp)]
    [∀ doc site op, Decidable (deliverC doc site op)] (sys : System) (act : Act) :
    Decidable (Cond editC deliverC sys act) :=
  match act with
  | .edit id editorOp =>
      match h : sys.site? id with
      | none => isTrue fun site hsite => by rw [h] at hsite; cases hsite
      | some site => decidable_of_iff (editC sys.doc site editorOp) (by simp [Cond, h])
  | .deliver id =>
      match h : sys.site? id with
      | none => isTrue fun site hsite => by rw [h] at hsite; cases hsite
      | some site =>
          match hdown : site.down with
          | [] => isTrue fun site' hsite op down hop => by
              rw [h] at hsite
              cases hsite
              rw [hdown] at hop
              cases hop
          | op :: _ => decidable_of_iff (deliverC sys.doc site op) (by simp [Cond, h, hdown])
  | .join _ => isTrue trivial
  | .send _ => isTrue trivial
  | .receive _ => isTrue trivial
  | .external _ => isTrue trivial

/-- What the steps have to preserve. -/
structure Keeps (P : Doc → Prop) (Q : Doc → SiteId → Site → Prop)
    (editC : Doc → Site → EditorFatOp → Prop) (deliverC : Doc → Site → FatOp Op → Prop) :
    Prop where
  join : ∀ doc id, P doc → id ≠ externalProcessSiteId → Q doc id (Site.join doc id)
  edit : ∀ doc id site editorOp rd, P doc → Q doc id site → editC doc site editorOp →
    site.doc.processEditorOp editorOp = some (.ok (), rd) → Q doc id { site with doc := rd }
  send : ∀ doc id site, P doc → Q doc id site → Q doc id site.send
  receive : ∀ doc id site batch up processed doc', P doc → Q doc id site →
    site.up = batch :: up →
    doc.processAndApply batch.ops batch.context = some (.ok processed, doc') →
    P doc' ∧ Q doc' id ({ site with up }.push processed) ∧
      ∀ id' site', id' ≠ id → Q doc id' site' → Q doc' id' (site'.push processed)
  deliver : ∀ doc id site op down rd leanOps, P doc → Q doc id site → deliverC doc site op →
    site.down = op :: down → site.doc.processServerOp op = some (.ok leanOps, rd) →
    Q doc id { site with doc := rd, down }
  external : ∀ doc chunks processed doc', P doc → Spells doc.buffer chunks →
    doc.resetFromDisk chunks = some (.ok processed, doc') →
    P doc' ∧ ∀ id site, Q doc id site → Q doc' id (site.push processed)

theorem Inv.setSite {sys : System} (h : Inv P Q sys) {id : SiteId} {site : Site}
    (hsite : Q sys.doc id site) : Inv P Q (sys.setSite id site) := by
  refine ⟨h.doc, fun id' site' hget => ?_⟩
  by_cases hid : id' = id
  · subst hid
    rw [site?_setSite_self, Option.some_inj] at hget
    rw [← hget]
    exact hsite
  · rw [site?_setSite_ne hid] at hget
    exact h.sites id' site' hget

theorem Keeps.step (hk : Keeps P Q editC deliverC) {sys sys' : System} {act : Act}
    (h : Inv P Q sys) (hc : Cond editC deliverC sys act) (hstep : sys.step act = some sys') :
    Inv P Q sys' := by
  cases act with
  | join id =>
      simp only [System.step] at hstep
      split at hstep
      next => cases hstep
      next =>
          split at hstep
          next => cases hstep
          next hid =>
              cases hstep
              exact h.setSite (hk.join sys.doc id h.doc hid)
  | edit id editorOp =>
      simp only [System.step, Option.bind_eq_bind, Option.bind_eq_some_iff] at hstep
      obtain ⟨site, hget, hstep⟩ := hstep
      split at hstep
      next u doc hrun =>
          cases hstep
          exact h.setSite (hk.edit _ _ _ _ _ h.doc (h.sites id site hget) (hc site hget) hrun)
      next => cases hstep
  | send id =>
      simp only [System.step, Option.bind_eq_bind, Option.bind_eq_some_iff] at hstep
      obtain ⟨site, hget, hstep⟩ := hstep
      cases hstep
      exact h.setSite (hk.send _ _ _ h.doc (h.sites id site hget))
  | receive id =>
      simp only [System.step, Option.bind_eq_bind, Option.bind_eq_some_iff] at hstep
      obtain ⟨site, hget, hstep⟩ := hstep
      split at hstep
      next => cases hstep
      next batch up hup =>
          split at hstep
          next processed doc hrun =>
              cases hstep
              obtain ⟨hP, hself, hothers⟩ :=
                hk.receive _ _ _ _ _ _ _ h.doc (h.sites id site hget) hup hrun
              refine ⟨hP, fun id' site' hget' => ?_⟩
              rw [site?_broadcast] at hget'
              obtain ⟨site₁, hget₁, rfl⟩ := Option.map_eq_some_iff.mp hget'
              by_cases hid : id' = id
              · subst hid
                rw [site?_setSite_self, Option.some_inj] at hget₁
                rw [← hget₁]
                exact hself
              · rw [site?_setSite_ne hid] at hget₁
                exact hothers id' site₁ hid (h.sites id' site₁ hget₁)
          next => cases hstep
  | deliver id =>
      simp only [System.step, Option.bind_eq_bind, Option.bind_eq_some_iff] at hstep
      obtain ⟨site, hget, hstep⟩ := hstep
      split at hstep
      next => cases hstep
      next op down hdown =>
          split at hstep
          next leanOps doc hrun =>
              cases hstep
              exact h.setSite (hk.deliver _ _ _ _ _ _ _ h.doc (h.sites id site hget)
                (hc site hget op down hdown) hdown hrun)
          next => cases hstep
  | external chunks =>
      simp only [System.step, Option.bind_eq_bind, Option.bind_eq_some_iff, assert?_some] at hstep
      obtain ⟨_, hspells, hstep⟩ := hstep
      split at hstep
      next processed doc hrun =>
          cases hstep
          obtain ⟨hP, hsites⟩ := hk.external _ _ _ _ h.doc hspells hrun
          refine ⟨hP, fun id site hget => ?_⟩
          rw [site?_broadcast] at hget
          obtain ⟨site₁, hget₁, rfl⟩ := Option.map_eq_some_iff.mp hget
          exact hsites id site₁ (h.sites id site₁ hget₁)
      next => cases hstep

/-- An invariant that the steps keep holds after every run that meets the
conditions. -/
theorem Keeps.run (hk : Keeps P Q editC deliverC) {content : Text} {acts : List Act}
    {sys : System} (hstart : P (start content).doc)
    (hc : Run.Meets System.step (Cond editC deliverC) (start content) acts)
    (hrun : Run.run System.step (start content) acts = some sys) : Inv P Q sys := by
  refine Run.invariant (fun s a t hs hcond hst => hk.step hs hcond hst) ⟨hstart, ?_⟩ hc hrun
  intro id site hget
  cases hget

end System

end CollabMode
