import CollabMode.Convergence
import CollabMode.SiteIds

/-!
# A client as a site of the system

`System` knows sites: a peer's document, what it has sent and what it has not yet taken.  In the
network a client has these in several places.  Its copy keeps ops that it has not processed, its
batches are on the wire, a snapshot is on its way to it, and the ops that it is still to get are
wherever they are: they are the rest of the host's history, since nothing else is ever taken.
`Stands` says which site a client is.  One request of its editor is many steps of that site.

So what the steps of the system keep is kept by what the server programs do (`Served`).
-/

namespace CollabMode

/-! ## Conditions on a request of the editor -/

namespace RemoteDoc

variable (editC : RemoteDoc → EditorFatOp → Prop) (deliverC : RemoteDoc → FatOp Op → Prop)

/-- Each op of the editor meets the condition when it is processed. -/
def EditsMeet : List EditorFatOp → RemoteDoc → Prop
  | [], _ => True
  | op :: ops, self =>
      editC self op ∧
        match self.processEditorOp op with
        | some (.ok _, self) => EditsMeet ops self
        | _ => True

/-- Each op that has arrived meets the condition when it is processed. -/
def DeliversMeet : List (FatOp Op) → RemoteDoc → Prop
  | [], _ => True
  | op :: ops, self =>
      deliverC self op ∧
        match self.processServerOp op with
        | some (.ok _, self) => DeliversMeet ops self
        | _ => True

/-- The editor's ops meet the conditions, and so do the ops that arrived before. -/
def SendMeets (ops : List EditorFatOp) (self : RemoteDoc) : Prop :=
  EditsMeet editC ops { self with remoteOpBuffer := [] } ∧
    match processEditorOps ops { self with remoteOpBuffer := [] } with
    | some (.ok _, edited) => DeliversMeet deliverC self.remoteOpBuffer edited
    | _ => True

variable {editC deliverC}

instance decidableEditsMeet [∀ doc op, Decidable (editC doc op)] :
    ∀ (ops : List EditorFatOp) (self : RemoteDoc), Decidable (EditsMeet editC ops self)
  | [], _ => isTrue trivial
  | op :: ops, self =>
      match h : self.processEditorOp op with
      | some (.ok _, next) =>
          have : Decidable (EditsMeet editC ops next) := decidableEditsMeet ops next
          decidable_of_iff (editC self op ∧ EditsMeet editC ops next) (by simp [EditsMeet, h])
      | some (.error _, _) => decidable_of_iff (editC self op) (by simp [EditsMeet, h])
      | none => decidable_of_iff (editC self op) (by simp [EditsMeet, h])

instance decidableDeliversMeet [∀ doc op, Decidable (deliverC doc op)] :
    ∀ (ops : List (FatOp Op)) (self : RemoteDoc), Decidable (DeliversMeet deliverC ops self)
  | [], _ => isTrue trivial
  | op :: ops, self =>
      match h : self.processServerOp op with
      | some (.ok _, next) =>
          have : Decidable (DeliversMeet deliverC ops next) := decidableDeliversMeet ops next
          decidable_of_iff (deliverC self op ∧ DeliversMeet deliverC ops next)
            (by simp [DeliversMeet, h])
      | some (.error _, _) => decidable_of_iff (deliverC self op) (by simp [DeliversMeet, h])
      | none => decidable_of_iff (deliverC self op) (by simp [DeliversMeet, h])

instance [∀ doc op, Decidable (editC doc op)] [∀ doc op, Decidable (deliverC doc op)]
    (ops : List EditorFatOp) (self : RemoteDoc) : Decidable (SendMeets editC deliverC ops self) :=
  match h : processEditorOps ops { self with remoteOpBuffer := [] } with
  | some (.ok _, edited) =>
      decidable_of_iff (EditsMeet editC ops { self with remoteOpBuffer := [] } ∧
        DeliversMeet deliverC self.remoteOpBuffer edited) (by simp [SendMeets, h])
  | some (.error _, _) =>
      decidable_of_iff (EditsMeet editC ops { self with remoteOpBuffer := [] })
        (by simp [SendMeets, h])
  | none =>
      decidable_of_iff (EditsMeet editC ops { self with remoteOpBuffer := [] })
        (by simp [SendMeets, h])

end RemoteDoc

namespace System

/-- The steps of the system keep `P` and `Q`, batches and diffs are then applied, and the
subscribers do not matter. -/
structure Serves (P : Doc → Prop) (Q : Doc → SiteId → Site → Prop)
    (editC : Doc → RemoteDoc → EditorFatOp → Prop) (deliverC : RemoteDoc → FatOp Op → Prop) :
    Prop where
  keeps : Keeps P Q (fun doc site op => editC doc site.doc op)
    (fun _ site op => deliverC site.doc op)
  applies : ∀ doc id site batch up, P doc → Q doc id site → site.up = batch :: up →
    ∃ doc', Doc.applyOps (doc.ordered batch.ops batch.context)
      (doc.append (doc.ordered batch.ops batch.context)) = some (.ok (), doc')
  resets : ∀ doc chunks, P doc → Spells doc.buffer chunks →
    ∃ processed doc', doc.resetFromDisk chunks = some (.ok processed, doc')
  doc_subscribers : ∀ (doc : Doc) subscribers, P doc → P { doc with subscribers }
  site_subscribers : ∀ (doc : Doc) subscribers id site, Q doc id site →
    Q { doc with subscribers } id site

variable {P : Doc → Prop} {Q : Doc → SiteId → Site → Prop}
  {editC : Doc → RemoteDoc → EditorFatOp → Prop} {deliverC : RemoteDoc → FatOp Op → Prop}

namespace Serves

variable {doc : Doc} {id : SiteId}

/-- The ops of the editor are edits of the site. -/
theorem edits (hs : Serves P Q editC deliverC) (hdoc : P doc) {ops : List EditorFatOp}
    {site : Site} {rd : RemoteDoc} (hsite : Q doc id site)
    (hmeets : site.doc.EditsMeet (editC doc) ops)
    (hrun : RemoteDoc.processEditorOps ops site.doc = some (.ok (), rd)) :
    Q doc id { site with doc := rd } := by
  induction ops generalizing site with
  | nil => cases hrun; exact hsite
  | cons op ops ih =>
      simp only [RemoteDoc.processEditorOps, Option.bind_eq_bind, Option.bind_eq_some_iff] at hrun
      obtain ⟨⟨res, next⟩, hone, hrun⟩ := hrun
      cases res with
      | error err => cases hrun
      | ok u =>
          obtain ⟨hedit, hrest⟩ := hmeets
          rw [hone] at hrest
          have hnext := hs.keeps.edit doc id site op next hdoc hsite hedit hone
          have hall := ih hnext hrest hrun
          exact hall

/-- The ops that have arrived are deliveries to the site. -/
theorem delivered (hs : Serves P Q editC deliverC) (hdoc : P doc) {ops down : List (FatOp Op)}
    {site : Site} {rd : RemoteDoc} {leanOps : List EditorLeanOp} (hsite : Q doc id site)
    (hdown : site.down = ops ++ down) (hmeets : site.doc.DeliversMeet deliverC ops)
    (hrun : RemoteDoc.processServerOps ops site.doc = some (.ok leanOps, rd)) :
    Q doc id { site with doc := rd, down } := by
  induction ops generalizing site leanOps with
  | nil =>
      cases hrun
      rw [List.nil_append] at hdown
      rw [← hdown]
      exact hsite
  | cons op ops ih =>
      simp only [RemoteDoc.processServerOps, Option.bind_eq_bind, Option.bind_eq_some_iff] at hrun
      obtain ⟨⟨res, next⟩, hone, hrun⟩ := hrun
      cases res with
      | error err => cases hrun
      | ok leanOps₁ =>
          simp only [Option.bind_eq_some_iff] at hrun
          obtain ⟨⟨res, last⟩, hall, hrun⟩ := hrun
          cases res with
          | error err => cases hrun
          | ok leanOps₂ =>
              cases hrun
              obtain ⟨hdeliver, hrest⟩ := hmeets
              rw [hone] at hrest
              have hnext := hs.keeps.deliver doc id site op (ops ++ down) next leanOps₁ hdoc hsite
                hdeliver hdown hone
              have hlast := ih hnext rfl hrest hall
              exact hlast

end Serves

/-- The sites take what their editors do and what arrives. -/
structure Takes (P : Doc → Prop) (Q : Doc → SiteId → Site → Prop)
    (editC : Doc → RemoteDoc → EditorFatOp → Prop) : Prop where
  edit : ∀ doc id (site : Site) editorOp, P doc → Q doc id site → editC doc site.doc editorOp →
      ∃ rd, site.doc.processEditorOp editorOp = some (.ok (), rd)
  deliver : ∀ doc id site op down, P doc → Q doc id site → site.down = op :: down →
    ∃ leanOps rd, site.doc.processServerOp op = some (.ok leanOps, rd)

namespace Takes

theorem mono (ht : Takes P Q editC) {Q' : Doc → SiteId → Site → Prop}
    (h : ∀ doc id site, Q' doc id site → Q doc id site) : Takes P Q' editC where
  edit doc id site editorOp hdoc hsite := ht.edit doc id site editorOp hdoc (h doc id site hsite)
  deliver doc id site op down hdoc hsite :=
    ht.deliver doc id site op down hdoc (h doc id site hsite)

variable {doc : Doc} {id : SiteId}

theorem edits (ht : Takes P Q editC) (hs : Serves P Q editC deliverC) (hdoc : P doc)
    {ops : List EditorFatOp} {site : Site} (hsite : Q doc id site)
    (hmeets : site.doc.EditsMeet (editC doc) ops) :
    ∃ rd, RemoteDoc.processEditorOps ops site.doc = some (.ok (), rd) := by
  induction ops generalizing site with
  | nil => exact ⟨site.doc, rfl⟩
  | cons op ops ih =>
      obtain ⟨hedit, hrest⟩ := hmeets
      obtain ⟨next, hone⟩ := ht.edit doc id site op hdoc hsite hedit
      rw [hone] at hrest
      obtain ⟨rd, hall⟩ := ih (hs.keeps.edit doc id site op next hdoc hsite hedit hone) hrest
      refine ⟨rd, ?_⟩
      simp only [RemoteDoc.processEditorOps, hone, hall, Option.bind_eq_bind, Option.bind_some]

theorem delivered (ht : Takes P Q editC) (hs : Serves P Q editC deliverC) (hdoc : P doc)
    {ops down : List (FatOp Op)} {site : Site} (hsite : Q doc id site)
    (hdown : site.down = ops ++ down) (hmeets : site.doc.DeliversMeet deliverC ops) :
    ∃ leanOps rd, RemoteDoc.processServerOps ops site.doc = some (.ok leanOps, rd) := by
  induction ops generalizing site with
  | nil => exact ⟨[], site.doc, rfl⟩
  | cons op ops ih =>
      obtain ⟨hdeliver, hrest⟩ := hmeets
      obtain ⟨leanOps₁, next, hone⟩ := ht.deliver doc id site op (ops ++ down) hdoc hsite hdown
      rw [hone] at hrest
      have hnext := hs.keeps.deliver doc id site op (ops ++ down) next leanOps₁ hdoc hsite
        hdeliver hdown hone
      obtain ⟨leanOps₂, rd, hall⟩ := ih hnext rfl hrest
      refine ⟨leanOps₁ ++ leanOps₂, rd, ?_⟩
      simp only [RemoteDoc.processServerOps, hone, hall, Option.bind_eq_bind, Option.bind_some]

end Takes

end System

/-! ## Clients -/

/-- What a network has of a client of a document: its copy, its batches on their way to the host
and the snapshots on their way to it. -/
structure Peer where
  copy : Option RemoteDocEntry
  up : List ContextOps
  snapshots : List NewSnapshot

/-- The copy that a snapshot opens. -/
def NewSnapshot.opens (self : NewSnapshot) : RemoteDoc :=
  RemoteDoc.new self.content (ClientEngine.new self.siteId self.seq self.internalDoc)

/-- The batch of a document that goes by no id. -/
def ContextOps.bare (self : ContextOps) : ContextOps := { self with doc := 0 }

/-- The batch is the same, whatever its document goes by. -/
theorem ClientEngine.maybePackageLocalOps_bare {eng eng' : ClientEngine} {d : DocId}
    {batch : Option ContextOps} (h : eng.maybePackageLocalOps d = (batch, eng')) :
    eng.maybePackageLocalOps 0 = (batch.map ContextOps.bare, eng') := by
  rw [maybePackageLocalOps_eq] at h ⊢
  cases hfirst : eng.gh.localOps.head? with
  | none =>
      rw [hfirst] at h
      cases h
      rfl
  | some first =>
      cases hlast : eng.gh.localOps.getLast? with
      | none =>
          rw [hfirst, hlast] at h
          cases h
          rfl
      | some last =>
          rw [hfirst, hlast] at h
          dsimp only at h ⊢
          split at h
          next hnext =>
              cases h
              rw [if_pos hnext]
              rfl
          next hnext =>
              cases h
              rw [if_neg hnext]
              rfl

theorem Site.send_eq {site : Site} {batch : Option ContextOps} {engine : ClientEngine}
    (h : site.doc.engine.maybePackageLocalOps 0 = (batch, engine)) :
    site.send = { site with doc := { site.doc with engine }, up := site.up ++ batch.toList } := by
  unfold send
  rw [h]

/-- The site is what the client is, when the host has ordered `global`. -/
structure Site.Stands (global : List (FatOp Op)) (peer : Peer) (site : Site) : Prop where
  le : site.doc.engine.currentSeq ≤ global.length
  down : site.down = global.drop site.doc.engine.currentSeq
  up : site.up = peer.up.map ContextOps.bare
  copy : ∀ entry, peer.copy = some entry → site.doc = entry.bare
  snapshots : ∀ made ∈ peer.snapshots, site.doc = made.opens
  /-- A client has a copy, or one is on its way to it. -/
  single : peer.copy.toList.length + peer.snapshots.length ≤ 1

/-- The host orders more ops. -/
theorem Site.Stands.push {global global' new : List (FatOp Op)} {peer : Peer} {site : Site}
    (h : site.Stands global peer) (hglobal : global' = global ++ new) :
    (site.push new).Stands global' peer := by
  refine ⟨?_, ?_, h.up, h.copy, h.snapshots, h.single⟩
  · rw [hglobal, List.length_append]
    exact Nat.le_add_right_of_le h.le
  · show site.down ++ new = global'.drop site.doc.engine.currentSeq
    rw [hglobal, List.drop_append_of_le_length h.le, h.down]

/-- There is nothing of the client. -/
def Peer.Idle (self : Peer) : Prop := self.copy = none ∧ self.up = [] ∧ self.snapshots = []

/-- The client is a site that `Q` holds of, with an id that it may work under. -/
def Peer.Served (Q : Doc → SiteId → Site → Prop) (worksAs : SiteId → Prop) (doc : Doc)
    (self : Peer) : Prop :=
  self.Idle ∨ ∃ id site, worksAs id ∧ Q doc id site ∧ site.Stands doc.engine.gh.global self

namespace Peer.Served

variable {P : Doc → Prop} {Q : Doc → SiteId → Site → Prop}
  {editC : Doc → RemoteDoc → EditorFatOp → Prop} {deliverC : RemoteDoc → FatOp Op → Prop}
  {worksAs : SiteId → Prop} {doc doc' : Doc} {self self' : Peer}

theorem mono (h : self.Served Q worksAs doc) {worksAs' : SiteId → Prop}
    (hworks : ∀ id, worksAs id → worksAs' id) : self.Served Q worksAs' doc := by
  refine h.imp_right ?_
  rintro ⟨id, site, hid, hsite, hstands⟩
  exact ⟨id, site, hworks id hid, hsite, hstands⟩

theorem subscribers (h : self.Served Q worksAs doc) (hs : System.Serves P Q editC deliverC)
    (subscribers : List (ServerId × LocalSeq)) :
    self.Served Q worksAs { doc with subscribers } := by
  refine h.imp_right ?_
  rintro ⟨id, site, hid, hsite, hstands⟩
  exact ⟨id, site, hid, hs.site_subscribers doc subscribers id site hsite, hstands⟩

/-- The client has lost its copy, or a snapshot on its way to it. -/
theorem less (h : self.Served Q worksAs doc) (hup : self'.up = self.up)
    (hcopy : self'.copy = none ∨ self'.copy = self.copy)
    (hsnapshots : self'.snapshots.Sublist self.snapshots) : self'.Served Q worksAs doc := by
  rcases h with ⟨hnone, hquiet, hempty⟩ | ⟨id, site, hid, hsite, hstands⟩
  · refine .inl ⟨hcopy.elim id fun heq => heq.trans hnone, hup.trans hquiet, ?_⟩
    rw [hempty] at hsnapshots
    exact List.sublist_nil.mp hsnapshots
  · have hlen := hsnapshots.length_le
    have hsingle := hstands.single
    refine .inr ⟨id, site, hid, hsite, hstands.le, hstands.down, hup ▸ hstands.up, ?_, ?_, ?_⟩
    · intro entry hentry
      rcases hcopy with hnone | heq
      · cases hnone.symm.trans hentry
      · exact hstands.copy entry (heq ▸ hentry)
    · exact fun made hmem => hstands.snapshots made (hsnapshots.subset hmem)
    · rcases hcopy with hnone | heq
      · rw [hnone, Option.toList_none, List.length_nil]
        omega
      · rw [heq]
        omega

/-- A snapshot opens the copy. -/
theorem opened (h : self.Served Q worksAs doc) {made : NewSnapshot} (hmem : made ∈ self.snapshots)
    {entry : RemoteDocEntry} (hentry : entry.toRemoteDoc = made.opens) (hup : self'.up = self.up)
    (hcopy : self'.copy = some entry)
    (hsnapshots : self'.snapshots.length < self.snapshots.length) :
    self'.Served Q worksAs doc := by
  rcases h with ⟨-, -, hempty⟩ | ⟨id, site, hid, hsite, hstands⟩
  · rw [hempty] at hmem
    cases hmem
  · have hsingle := hstands.single
    have hnil : self'.snapshots = [] := List.eq_nil_of_length_eq_zero (by omega)
    refine .inr ⟨id, site, hid, hsite, hstands.le, hstands.down, hup ▸ hstands.up, ?_, ?_, ?_⟩
    · intro entry' hentry'
      cases hcopy.symm.trans hentry'
      rw [hstands.snapshots made hmem, RemoteDoc.bare, hentry]
      rfl
    · rw [hnil]
      exact nofun
    · rw [hnil, hcopy]
      exact Nat.le_refl 1

/-- The ops that the copy keeps are no part of the site. -/
theorem kept (h : self.Served Q worksAs doc) {entry entry' : RemoteDocEntry}
    (hentry : self.copy = some entry) (hsame : entry'.toRemoteDoc.bare = entry.toRemoteDoc.bare)
    (hup : self'.up = self.up) (hcopy : self'.copy = some entry')
    (hsnapshots : self'.snapshots.Sublist self.snapshots) : self'.Served Q worksAs doc := by
  rcases h with ⟨hnone, -⟩ | ⟨id, site, hid, hsite, hstands⟩
  · cases hnone.symm.trans hentry
  · refine .inr ⟨id, site, hid, hsite, hstands.le, hstands.down, hup ▸ hstands.up, ?_,
      fun made hmem => hstands.snapshots made (hsnapshots.subset hmem), ?_⟩
    · intro entry'' hentry'
      cases hcopy.symm.trans hentry'
      exact (hstands.copy entry hentry).trans hsame.symm
    · have hsingle := hstands.single
      rw [hentry] at hsingle
      rw [hcopy]
      exact (Nat.add_le_add_left hsnapshots.length_le _).trans hsingle

/-- A client that the host's document is opened for. -/
theorem joined (hs : System.Serves P Q editC deliverC) (hdoc : P doc) (hnum : Numbered doc)
    {id : SiteId} (hid : worksAs id) (hne : id ≠ externalProcessSiteId) (hup : self.up = [])
    (hsingle : self.copy.toList.length + self.snapshots.length ≤ 1)
    (hcopy : ∀ entry, self.copy = some entry → entry.toRemoteDoc = (Site.join doc id).doc)
    (hsnapshots : ∀ made ∈ self.snapshots, made.opens = (Site.join doc id).doc) :
    self.Served Q worksAs doc := by
  refine .inr ⟨id, Site.join doc id, hid, hs.keeps.join doc id hdoc hne, ?_, ?_, ?_, ?_, ?_,
    hsingle⟩
  · exact Nat.le_of_eq hnum.counted
  · exact (List.drop_eq_nil_of_le (Nat.le_of_eq hnum.counted.symm)).symm
  · rw [hup]
    rfl
  · intro entry hentry
    rw [RemoteDoc.bare, hcopy entry hentry]
    rfl
  · exact fun made hmem => (hsnapshots made hmem).symm

/-- The editor's request is a row of edits, the deliveries of what was kept, and a batch if it is
time to send one. -/
theorem sent (h : self.Served Q worksAs doc) (hs : System.Serves P Q editC deliverC)
    (hdoc : P doc) {entry entry' : RemoteDocEntry} (hentry : self.copy = some entry)
    (horder : entry.InOrder doc.engine.gh.global) {d : DocId} {ops : List EditorFatOp}
    {leanOps : List EditorLeanOp} {batch : Option ContextOps}
    (hmeets : entry.SendMeets (editC doc) deliverC ops)
    (hsends : entry.sendOps d ops = some (.ok (leanOps, batch), entry'.toRemoteDoc))
    (hup : self'.up = self.up ++ batch.toList) (hcopy : self'.copy = some entry')
    (hsnapshots : self'.snapshots.Sublist self.snapshots) : self'.Served Q worksAs doc := by
  rcases h with ⟨hnone, -⟩ | ⟨id, site, hid, hsite, hstands⟩
  · cases hnone.symm.trans hentry
  obtain ⟨edited, received, engine, hedit, hserver, hpackage, hresult⟩ :=
    RemoteDoc.sendOps_stages hsends
  obtain ⟨-, hseq', hbuffer'⟩ := RemoteDoc.sendOps_ok hsends
  obtain ⟨hedits, hdelivers⟩ := hmeets
  rw [hedit] at hdelivers
  have hbare := hstands.copy entry hentry
  have hseq : site.doc.engine.currentSeq = entry.engine.currentSeq := by rw [hbare]; rfl
  have hedits : site.doc.EditsMeet (editC doc) ops := by rw [hbare]; exact hedits
  have hedit : RemoteDoc.processEditorOps ops site.doc = some (.ok (), edited) := by
    rw [hbare]
    exact hedit
  have hdrop : site.down = entry.remoteOpBuffer ++
      doc.engine.gh.global.drop (entry.engine.currentSeq + entry.remoteOpBuffer.length) := by
    rw [hstands.down, hseq]
    exact drop_of_prefix horder
  have hedited := hs.edits hdoc hsite hedits hedit
  have hreceived := hs.delivered hdoc hedited hdrop hdelivers hserver
  have hsent := hs.keeps.send doc id _ hdoc hreceived
  -- The batch of the site is the batch of the client, whatever its document goes by.
  have hpackage' : received.engine.maybePackageLocalOps 0 = (batch.map ContextOps.bare, engine) :=
    ClientEngine.maybePackageLocalOps_bare hpackage
  have hsite' : entry'.toRemoteDoc.bare = { received with engine } := by
    rw [RemoteDoc.bare, ← hbuffer', hresult]
  rw [Site.send_eq hpackage'] at hsent
  have hlen := horder.length_le
  rw [List.length_drop] at hlen
  have hle := hstands.le
  have hnow : engine.currentSeq = entry.engine.currentSeq + entry.remoteOpBuffer.length :=
    (congrArg (fun doc => doc.engine.currentSeq) hresult).symm.trans hseq'
  refine .inr ⟨id, _, hid, hsent, ?_, ?_, ?_, ?_, ?_, ?_⟩
  · show engine.currentSeq ≤ doc.engine.gh.global.length
    rw [hnow]
    exact Nat.add_le_of_le_sub' (hseq ▸ hle) hlen
  · show doc.engine.gh.global.drop _ = doc.engine.gh.global.drop engine.currentSeq
    rw [hnow]
  · show site.up ++ (batch.map ContextOps.bare).toList = self'.up.map ContextOps.bare
    rw [hup, List.map_append, hstands.up]
    cases batch <;> rfl
  · intro entry'' hentry'
    cases hcopy.symm.trans hentry'
    exact hsite'.symm
  · have hsingle := hstands.single
    have hless := hsnapshots.length_le
    rw [hentry, Option.toList_some, List.length_singleton] at hsingle
    have hnil : self'.snapshots = [] := List.eq_nil_of_length_eq_zero (by omega)
    rw [hnil]
    exact nofun
  · have hsingle := hstands.single
    rw [hentry] at hsingle
    rw [hcopy]
    exact (Nat.add_le_add_left hsnapshots.length_le _).trans hsingle

/-- Such a request is taken. -/
theorem takes (h : self.Served Q worksAs doc) (hs : System.Serves P Q editC deliverC)
    (ht : System.Takes P Q editC) (hdoc : P doc) {entry : RemoteDocEntry}
    (hentry : self.copy = some entry) (horder : entry.InOrder doc.engine.gh.global)
    {ops : List EditorFatOp} (hmeets : entry.SendMeets (editC doc) deliverC ops) (d : DocId) :
    ∃ leanOps batch rd, entry.sendOps d ops = some (.ok (leanOps, batch), rd) := by
  rcases h with ⟨hnone, -⟩ | ⟨id, site, hid, hsite, hstands⟩
  · cases hnone.symm.trans hentry
  obtain ⟨hedits, hdelivers⟩ := hmeets
  have hbare := hstands.copy entry hentry
  have hseq : site.doc.engine.currentSeq = entry.engine.currentSeq := by rw [hbare]; rfl
  have hedits : site.doc.EditsMeet (editC doc) ops := by rw [hbare]; exact hedits
  obtain ⟨edited, hedit⟩ := ht.edits hs hdoc hsite hedits
  have hedited := hs.edits hdoc hsite hedits hedit
  rw [hbare] at hedit
  rw [RemoteDoc.bare] at hedit
  rw [hedit] at hdelivers
  have hdrop : site.down = entry.remoteOpBuffer ++
      doc.engine.gh.global.drop (entry.engine.currentSeq + entry.remoteOpBuffer.length) := by
    rw [hstands.down, hseq]
    exact drop_of_prefix horder
  obtain ⟨leanOps, received, hserver⟩ := ht.delivered hs hdoc hedited hdrop hdelivers
  refine ⟨leanOps, (received.engine.maybePackageLocalOps d).1,
    { received with engine := (received.engine.maybePackageLocalOps d).2 }, ?_⟩
  simp only [RemoteDoc.sendOps, hedit, Option.bind_eq_bind, Option.bind_some]
  rw [hserver]
  rfl

/-- The host orders a batch of the client. -/
theorem receive (h : self.Served Q worksAs doc) (hs : System.Serves P Q editC deliverC)
    (hdoc : P doc) {ops : ContextOps} {up : List ContextOps} (hup : self.up = ops :: up)
    {res : Except CollabError Unit} {applied : Doc}
    (happly : Doc.applyOps (doc.ordered ops.ops ops.context)
      (doc.append (doc.ordered ops.ops ops.context)) = some (res, applied)) :
    res = .ok () ∧ P applied ∧ { self with up }.Served Q worksAs applied ∧
      ∀ (other : Peer) (worksAs' : SiteId → Prop), (∀ id, worksAs id → worksAs' id → False) →
        other.Served Q worksAs' doc → other.Served Q worksAs' applied := by
  rcases h with ⟨-, hnone, -⟩ | ⟨id, site, hid, hsite, hstands⟩
  · cases hup.symm.trans hnone
  have hsiteUp : site.up = ops.bare :: up.map ContextOps.bare := by
    rw [hstands.up, hup]
    rfl
  obtain ⟨doc', hok⟩ := hs.applies doc id site ops.bare _ hdoc hsite hsiteUp
  cases happly.symm.trans hok
  have hrun := Doc.processAndApply_of hok
  obtain ⟨hdoc', hself, hothers⟩ :=
    hs.keeps.receive doc id site ops.bare _ _ applied hdoc hsite hsiteUp hrun
  have hglobal := Doc.applyOps_global hok
  have hpush {peer : Peer} {site : Site} (hstands : site.Stands doc.engine.gh.global peer) :
      (site.push (doc.ordered ops.ops ops.context)).Stands applied.engine.gh.global peer :=
    hstands.push hglobal
  refine ⟨rfl, hdoc', .inr ⟨id, _, hid, hself, ?_⟩, fun other worksAs' hapart hother => ?_⟩
  · have hstands' : ({ site with up := up.map ContextOps.bare } : Site).Stands
        doc.engine.gh.global { self with up } :=
      ⟨hstands.le, hstands.down, rfl, hstands.copy, hstands.snapshots, hstands.single⟩
    exact hpush hstands'
  · refine hother.imp_right ?_
    rintro ⟨id', site', hid', hsite', hstands'⟩
    have hne : id' ≠ id := fun heq => hapart id hid (heq ▸ hid')
    exact ⟨id', _, hid', hothers id' site' hne hsite', hpush hstands'⟩

/-- Another program changes the file. -/
theorem reset (hs : System.Serves P Q editC deliverC) (hdoc : P doc) {chunks : List Chunk}
    (hspells : Spells doc.buffer chunks) {res : Except CollabError (List (FatOp Op))}
    {applied : Doc} (hrun : doc.resetFromDisk chunks = some (res, applied)) :
    P applied ∧ ∀ (peer : Peer) (worksAs : SiteId → Prop),
      peer.Served Q worksAs doc → peer.Served Q worksAs applied := by
  obtain ⟨processed, doc', hok⟩ := hs.resets doc chunks hdoc hspells
  cases hrun.symm.trans hok
  obtain ⟨hdoc', hsites⟩ := hs.keeps.external doc chunks processed applied hdoc hspells hok
  obtain ⟨seq, happly, -⟩ := Doc.resetFromDisk_ok hok
  have hglobal := Doc.applyOps_global happly
  refine ⟨hdoc', fun peer worksAs hpeer => hpeer.imp_right ?_⟩
  rintro ⟨id, site, hid, hsite, hstands⟩
  exact ⟨id, _, hid, hsites id site hsite, hstands.push hglobal⟩

end Peer.Served

end CollabMode
