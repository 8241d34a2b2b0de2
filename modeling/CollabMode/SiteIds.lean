import CollabMode.Lib.Registry
import CollabMode.Watching

/-!
# Site ids

A host gives each of its clients a site id when the client first asks for a file, and has 0 for
its own editor.  The id goes to the client with every snapshot, and the ops that the client makes
on the copy carry it.  Ops of two clients are told apart by nothing else.
-/

namespace CollabMode

namespace Server

/-- The site ids that a host has given. -/
def sites (self : Server) : Registry ServerId :=
  { next := self.nextSiteId, given := self.siteIdMap }

theorem siteIdOf_eq (self : Server) (host : ServerId) :
    (self.siteIdOf host).1 = (self.sites.issue host).1 ∧
      (self.siteIdOf host).2.sites = (self.sites.issue host).2 := by
  unfold siteIdOf
  split
  next hget => simp [Registry.issue, Registry.get, sites, hget]
  next hget => simp [Registry.issue, Registry.get, sites, hget]

/-! ## Turns -/

variable {os : Os} {before after : Server} {effects : List Effect}

theorem sites_of_tables (h : after.tables = before.tables) : after.sites = before.sites := by
  have hnext : after.nextSiteId = before.nextSiteId := congrArg Tables.nextSiteId h
  have hgiven : after.siteIdMap = before.siteIdMap := congrArg Tables.siteIdMap h
  rw [sites, hnext, hgiven]
  rfl

theorem sites_removeDocs (os : Os) (self : Server) (docIds : List DocId) :
    (self.removeDocs os docIds).1.sites = self.sites := by
  induction docIds generalizing self with
  | nil => rfl
  | cons docId docIds ih =>
      simp only [removeDocs]
      rw [ih]
      rfl

theorem sites_handleCloseFileLocally (os : Os) (self : Server) (file : FileDesc) (delete : Bool) :
    (self.handleCloseFileLocally os file delete).2.1.sites = self.sites := by
  unfold handleCloseFileLocally
  split
  next => rfl
  next docIds _ _ _ =>
      dsimp only
      split <;> exact sites_removeDocs os self docIds

theorem sites_moveFileOnDisk (os : Os) (self : Server) (project : ProjectId)
    (oldPath newPath : Text) :
    (self.moveFileOnDisk os project oldPath newPath).2.1.sites = self.sites := by
  unfold moveFileOnDisk
  split
  next => rfl
  next =>
      dsimp only
      split <;> rfl

theorem sites_saveFileToDisk (os : Os) (self : Server) (docId : DocId) :
    (self.saveFileToDisk os docId).2.1.sites = self.sites := by
  unfold saveFileToDisk
  split <;> rfl

theorem sites_resetDocFromDisk {reqId : Option RequestId} {path : UnixPath.Path}
    {timestamp : Option Instant} {res : Except String Unit}
    (h : before.resetDocFromDisk os reqId path timestamp = some (res, after, effects)) :
    after.sites = before.sites := by
  simp only [resetDocFromDisk] at h
  split at h
  next => cases h; rfl
  next =>
      split at h
      next => cases h; rfl
      next =>
          split at h
          next => cases h; rfl
          next => cases h; rfl
          next =>
              simp only [Option.bind_eq_bind, Option.bind_eq_some_iff, Prod.exists] at h
              obtain ⟨res, reset, _, h⟩ := h
              split at h <;> cases h <;> rfl

theorem sites_handleOpFromServer (self : Server) (reqId : Option RequestId) (docId : DocId)
    (ops : List (FatOp Op)) (host : ServerId) :
    (self.handleOpFromServer reqId docId ops host).1.sites = self.sites := by
  unfold handleOpFromServer
  split
  next => rfl
  next =>
      split
      next => rfl
      next =>
          dsimp only
          split <;> rfl

theorem sites_acceptOps {reqId : Option RequestId} {docId : DocId} {doc : DocEntry}
    {contextOps : ContextOps} {host : ServerId} {res : Except CollabError Unit}
    (h : before.acceptOps reqId docId doc contextOps host = some (res, after, effects)) :
    after.sites = before.sites := by
  simp only [acceptOps, Option.bind_eq_bind, Option.bind_eq_some_iff, Prod.exists] at h
  obtain ⟨res, applied, _, h⟩ := h
  split at h <;> cases h <;> rfl

theorem sites_handleOpFromClient {reqId : Option RequestId} {contextOps : ContextOps}
    {host : ServerId} {res : Except CollabError Unit}
    (h : before.handleOpFromClient reqId contextOps host = some (res, after, effects)) :
    after.sites = before.sites := by
  simp only [handleOpFromClient] at h
  split at h
  next => cases h; rfl
  next =>
      split at h
      next => cases h; rfl
      next =>
          split at h
          next => cases h; rfl
          next =>
              split at h
              next => exact sites_acceptOps h
              next =>
                  split at h
                  next => cases h; rfl
                  next => exact sites_acceptOps h

theorem sites_handleRequestOps (self : Server) (reqId : Option RequestId) (docId : DocId)
    (seq : GlobalSeq) (host : ServerId) :
    (self.handleRequestOps reqId docId seq host).1.sites = self.sites := by
  unfold handleRequestOps
  split <;> rfl

/-- A client that asks for a file has a site id then, or the file cannot be there. -/
theorem sites_handleRequestFile (os : Os) (self : Server) (reqId : Option RequestId)
    (file : FileDesc) (host : ServerId) (mode : OpenMode) :
    (self.handleRequestFile os reqId file host mode).1.sites = self.sites ∧
        docMsgs (self.handleRequestFile os reqId file host mode).2 = [] ∨
      (self.handleRequestFile os reqId file host mode).1.sites =
        (self.sites.issue host).2 := by
  have hsite := (self.siteIdOf_eq host).2
  unfold handleRequestFile
  split
  next => exact .inl ⟨rfl, rfl⟩
  next =>
      refine .inr ?_
      dsimp only
      split
      next => exact hsite
      next =>
          split
          next => exact hsite
          next =>
              split
              next => exact hsite
              next => exact hsite

theorem sites_handleResetFromDisk {reqId : Option RequestId} {docId : DocId} {host : ServerId}
    (h : before.handleResetFromDisk os reqId docId host = some (after, effects)) :
    after.sites = before.sites := by
  simp only [handleResetFromDisk] at h
  split at h
  next => cases h; rfl
  next =>
      simp only [Option.bind_eq_bind, Option.bind_eq_some_iff, Prod.exists] at h
      obtain ⟨res, reset, effects', hreset, h⟩ := h
      split at h <;> cases h <;> exact sites_resetDocFromDisk hreset

theorem sites_handleSendOpsFromEditor {reqId : RequestId} {ops : List EditorFatOp}
    {file : EditorFileDesc}
    (h : before.handleSendOpsFromEditor reqId ops file = some (after, effects)) :
    after.sites = before.sites := by
  simp only [handleSendOpsFromEditor] at h
  split at h
  next => cases h; rfl
  next =>
      simp only [Option.bind_eq_bind, Option.bind_eq_some_iff, Prod.exists] at h
      obtain ⟨res, doc, _, h⟩ := h
      split at h <;> cases h <;> rfl

theorem sites_openOwnDoc (self : Server) (reqId : RequestId) (docId : DocId) (doc : DocEntry)
    (file : EditorFileDesc) : (self.openOwnDoc reqId docId doc file).1.sites = self.sites := by
  unfold openOwnDoc
  dsimp only
  split <;> rfl

theorem sites_openFileFromEditor (os : Os) (self : Server) (reqId : RequestId)
    (file : EditorFileDesc) (mode : OpenMode) :
    (self.openFileFromEditor os reqId file mode).1.sites = self.sites := by
  unfold openFileFromEditor
  dsimp only
  split
  next =>
      split
      next => rfl
      next =>
          split
          next => rfl
          next =>
              split
              next => exact sites_openOwnDoc self reqId ..
              next =>
                  split
                  next => rfl
                  next => exact sites_openOwnDoc _ reqId ..
  next => split <;> rfl

theorem sites_handleResetFromDiskFromEditor {reqId : RequestId} {file : EditorFileDesc}
    (h : before.handleResetFromDiskFromEditor os reqId file = some (after, effects)) :
    after.sites = before.sites := by
  simp only [handleResetFromDiskFromEditor] at h
  split at h
  next => split at h <;> cases h <;> rfl
  next =>
      split at h
      next => cases h; rfl
      next =>
          split at h
          next => cases h; rfl
          next =>
              simp only [Option.bind_eq_bind, Option.bind_eq_some_iff, Prod.exists] at h
              obtain ⟨res, reset, effects', hreset, h⟩ := h
              cases h
              exact sites_resetDocFromDisk hreset

/-- The client that a request for a file comes from. -/
def asker : Event → Option ServerId
  | .message { host, body := .requestFile _ _, .. } => some host
  | _ => none

/-- What a turn does to the site ids. -/
theorem Handled.sites {event : Event} (h : Handled os before event after effects) :
    after.sites = before.sites ∨
      ∃ host, asker event = some host ∧ after.sites = (before.sites.issue host).2 := by
  have hturn {turn : Turn} (hturn : turn.1.sites = before.sites) (h : turn = (after, effects)) :
      after.sites = before.sites := by
    rwa [h] at hturn
  cases h with
  | idle _ tables | noted tables => exact .inl (sites_of_tables tables)
  | strayInfo | listFiles => exact .inl rfl
  | hey h => cases h; exact .inl rfl
  | requestFile h =>
      rcases sites_handleRequestFile os before _ _ _ _ with hsame | hnew
      · exact .inl (hturn hsame.1 h)
      · rw [h] at hnew
        exact .inr ⟨_, rfl, hnew⟩
  | declareProjects h =>
      obtain ⟨projects, rfl⟩ := after_handleDeclareProjects h
      exact .inl rfl
  | makeDirectory _ h =>
      exact .inl (hturn (congrArg Server.sites (rest_handleMakeDirectory ..)) h)
  | snapshot h => exact .inl (hturn (by unfold handleSnapshot; split <;> rfl) h)
  | opFromClient h => exact .inl (sites_handleOpFromClient h)
  | opFromServer h => exact .inl (hturn (sites_handleOpFromServer ..) h)
  | requestOps h => exact .inl (hturn (sites_handleRequestOps ..) h)
  | moveFile _ h =>
      refine .inl (hturn ?_ h)
      unfold handleMoveFile
      dsimp only
      split <;> exact sites_moveFileOnDisk os before _ _ _
  | saveFile _ h => exact .inl (hturn (sites_saveFileToDisk os before _) h)
  | resetFromDisk _ h => exact .inl (sites_handleResetFromDisk h)
  | stopSendingOps h =>
      refine .inl (hturn ?_ h)
      unfold handleStopSendingOps
      split <;> rfl
  | closeFile h =>
      refine .inl (hturn ?_ h)
      unfold handleCloseFileFromRemote
      split
      next => rfl
      next =>
          dsimp only
          split <;> exact sites_handleCloseFileLocally os before _ _
  | docFatal h => exact .inl (hturn rfl h)
  | openFile h => exact .inl (hturn (sites_openFileFromEditor ..) h)
  | sendOps h => exact .inl (sites_handleSendOpsFromEditor h)
  | shareFile h =>
      refine .inl (hturn ?_ h)
      unfold handleShareFileFromEditor
      dsimp only
      split
      next => rfl
      next => split <;> rfl
  | moveFileFromEditor h =>
      refine .inl (hturn ?_ h)
      unfold handleMoveFileFromEditor
      split
      next => rfl
      next =>
          dsimp only
          split <;> exact sites_moveFileOnDisk os before _ _ _
  | saveFileFromEditor h =>
      refine .inl (hturn ?_ h)
      unfold handleSaveFileFromEditor
      split
      next => split <;> rfl
      next =>
          split
          next => rfl
          next => exact sites_saveFileToDisk os before _
  | resetFromDiskFromEditor h => exact .inl (sites_handleResetFromDiskFromEditor h)
  | disconnectFromFile h =>
      refine .inl (hturn ?_ h)
      unfold handleDisconnectFromFile
      split <;> rfl
  | closeFileFromEditor h | deleteFileFromEditor h =>
      refine .inl (hturn ?_ h)
      unfold handleCloseFileFromEditor
      dsimp only
      split
      next => rfl
      next => split <;> exact sites_handleCloseFileLocally os before _ _
  | fileChanged h => exact .inl (sites_resetDocFromDisk h)

/-- A snapshot is sent to the client that asks for the file. -/
theorem HostStep.of_snapshot {event : Event} {d : DocId} {now next : Option Doc}
    {sent : List (ServerId × Msg)} (hstep : HostStep os before d event now next sent)
    {host : ServerId} {made : NewSnapshot} (hmem : (host, .snapshot made) ∈ sent) :
    made.siteId = (before.siteIdOf host).1 ∧
      ∃ reqId file mode, event = .message { host, body := .requestFile file mode, reqId } := by
  cases hstep with
  | still | absent | unsubscribed | madeOwn | openedOwn | closed => cases hmem
  | refused _ _ fatal =>
      obtain ⟨reason, heq⟩ := fatal _ hmem
      cases heq
  | accepted =>
      split at hmem
      next => cases hmem
      next =>
          obtain ⟨_, -, heq⟩ := List.mem_map.mp hmem
          cases heq
  | subscribed =>
      split at hmem
      next => cases hmem
      next => cases List.mem_singleton.mp hmem
  | found | made =>
      obtain ⟨rfl, heq⟩ := Prod.mk.inj (List.mem_singleton.mp hmem)
      exact ⟨congrArg NewSnapshot.siteId (Msg.snapshot.inj heq), _, _, _, rfl⟩
  | reset _ _ tells =>
      rcases tells with rfl | ⟨_, -, rfl⟩
      · cases hmem
      · obtain ⟨_, -, heq⟩ := List.mem_map.mp hmem
        cases heq

/-- A snapshot carries the site id of the client that it is for. -/
theorem Handled.snapshot_site {event : Event} (h : Handled os before event after effects)
    (hids : before.IdsOk) {host : ServerId} {reqId : Option RequestId} {made : NewSnapshot}
    (hmem : .send host reqId (.snapshot made) ∈ effects) :
    after.sites.get host = some made.siteId := by
  have hdoc : (host, .snapshot made) ∈ docMsgs effects := List.mem_filterMap.mpr ⟨_, hmem, rfl⟩
  have htold : (host, .snapshot made) ∈ told made.docId effects :=
    List.mem_filter.mpr ⟨hdoc, decide_eq_true rfl⟩
  have hasked := (h.hostStep hids made.docId).of_snapshot htold
  obtain ⟨hsite, reqId', file, mode, rfl⟩ := hasked
  have hissue : after.sites = (before.sites.issue host).2 := by
    cases h with
    | idle away => cases away
    | noted _ quiet =>
        rw [quiet] at hdoc
        cases hdoc
    | requestFile h =>
        rcases sites_handleRequestFile os before _ file host mode with ⟨-, hquiet⟩ | hnew
        · rw [h] at hquiet
          rw [hquiet] at hdoc
          cases hdoc
        · rw [h] at hnew
          exact hnew
  rw [hissue, Registry.get_issue, if_pos rfl, hsite, (before.siteIdOf_eq host).1]

/-- A client that has a site id keeps it. -/
theorem Handled.site_kept {event : Event} (h : Handled os before event after effects)
    {p : ServerId} {site : SiteId} (hget : before.sites.get p = some site) :
    after.sites.get p = some site := by
  rcases h.sites with hsame | ⟨host, -, hnew⟩
  · rw [hsame]
    exact hget
  · rw [hnew]
    exact Registry.issue_of_get hget

/-- A turn gives one site id at most. -/
theorem Handled.sites_next_le {event : Event} (h : Handled os before event after effects) :
    after.nextSiteId ≤ before.nextSiteId + 1 := by
  rcases h.sites with hsame | ⟨host, -, hnew⟩
  · exact (Nat.le_of_eq (congrArg Registry.next hsame)).trans (Nat.le_succ _)
  · have hnext : after.nextSiteId = (before.sites.issue host).2.next := congrArg Registry.next hnew
    rw [hnext]
    exact before.sites.issue_next_le host

theorem Handled.sitesOk {event : Event} (h : Handled os before event after effects)
    (hsites : before.sites.Ok 1) : after.sites.Ok 1 := by
  rcases h.sites with hsame | ⟨host, -, hnew⟩
  · exact hsame ▸ hsites
  · exact hnew ▸ hsites.issue host

/-- The site of a copy stays, and a new copy has the site of the snapshot, or 0 when it is the
host's own. -/
theorem ClientStep.site {event : Event} {h : ServerId} {d : DocId}
    {copy copy' : Option RemoteDocEntry}
    {asks : List Msg} (hstep : ClientStep before after h d event copy copy' asks)
    {entry' : RemoteDocEntry} (hcopy : copy' = some entry') :
    (∃ entry, copy = some entry ∧ entry.engine.site = entry'.engine.site) ∨
      (∃ made reqId, event = .message { host := h, body := .snapshot made, reqId } ∧
        entry'.engine.site = made.siteId) ∨
      h = before.hostId ∧ entry'.engine.site = before.siteId := by
  cases hstep with
  | still => exact .inl ⟨entry', hcopy, rfl⟩
  | ended | closed | unnumbered | stray | dropped => cases hcopy
  | kept keeps =>
      cases hcopy
      refine .inl ⟨_, rfl, ?_⟩
      show _ = ClientEngine.site _
      rw [RemoteDoc.engine_of_keepServerOps keeps]
  | opened about made =>
      cases hcopy
      refine .inr (.inl ⟨_, _, rfl, ?_⟩)
      rw [made]
      rfl
  | openedOwn own _ _ made =>
      cases hcopy
      refine .inr (.inr ⟨own, ?_⟩)
      rw [made]
      rfl
  | @sent _ _ _ entry _ _ _ sends =>
      cases hcopy
      refine .inl ⟨entry, rfl, ?_⟩
      obtain ⟨eng, heng, hpackage⟩ :=
        RemoteDoc.sendOps_engine (P := fun eng => entry.engine.site = eng.site)
          (fun _ _ _ _ _ _ _ _ hstep hP => by rw [hstep.result]; exact hP)
          (fun _ _ _ _ _ _ _ hstep hP => by rw [hstep.result]; exact hP)
          (fun _ _ _ _ _ _ _ hstep hP => by rw [hstep.result]; exact hP) sends rfl
      obtain ⟨sent, hsent⟩ := eng.maybePackageLocalOps_sent d
      rw [hpackage] at hsent
      exact heng.trans (congrArg ClientEngine.site hsent).symm

end Server

/-! ## Runs -/

namespace Network

/-- The site id under which `p` works on the documents of `h`. -/
def WorksAs (self : Network) (p h : ServerId) (site : SiteId) : Prop :=
  p = h ∧ site = 0 ∨ (self.servers h).sites.get p = some site

/-- Clients have the site ids that their hosts gave them. -/
structure Sited (net : Network) : Prop where
  ok : net.Ok
  sites : ∀ h, (net.servers h).sites.Ok 1
  own : ∀ h, (net.servers h).siteId = 0
  snapshots : ∀ packet ∈ net.wire, ∀ made, packet.body = .snapshot made →
    (net.servers packet.source).sites.get packet.dest = some made.siteId
  copies : ∀ p h d entry, net.copy p h d = some entry → net.WorksAs p h entry.engine.site

theorem sited_start (config : ServerId → Config) (idealWorld : ServerId → WorldState) :
    (start config idealWorld).Sited :=
  ⟨ok_start config idealWorld, fun _ => Registry.ok_empty 1, fun _ => rfl, nofun, nofun⟩

/-- No two clients work under one site id. -/
theorem Sited.eq_of_worksAs {net : Network} (hnet : net.Sited) {p q h : ServerId} {site : SiteId}
    (hp : net.WorksAs p h site) (hq : net.WorksAs q h site) : p = q := by
  have hpos {p : ServerId} (hget : (net.servers h).sites.get p = some 0) : False :=
    absurd ((hnet.sites h).range p 0 hget).1 (by decide)
  rcases hp with ⟨rfl, rfl⟩ | hp
  · rcases hq with ⟨rfl, -⟩ | hq
    · rfl
    · exact (hpos hq).elim
  · rcases hq with ⟨rfl, rfl⟩ | hq
    · exact (hpos hp).elim
    · exact (hnet.sites h).inj p q site hp hq

section Turn

variable {os : Os} {net before after : Network} {id : ServerId} {event : Event}
  {effects : List Effect}

theorem Turn.worksAs (hturn : Turn os before id event after effects)
    (hservers : before.servers = net.servers) {p h : ServerId} {site : SiteId}
    (hp : net.WorksAs p h site) : after.WorksAs p h site := by
  refine hp.imp_right fun hget => ?_
  rw [← hservers] at hget
  by_cases hid : h = id
  · subst hid
    exact hturn.handled.site_kept hget
  · rw [hturn.others h hid]
    exact hget

theorem Sited.turn (hnet : net.Sited) (hservers : before.servers = net.servers)
    (hkept : ∀ packet ∈ before.wire, packet ∈ net.wire)
    (harrived : ∀ msg, event = .message msg → msg.body.isOfConnection = true ∨
      ∃ packet ∈ net.wire, packet.source = msg.host ∧ packet.dest = id ∧ packet.body = msg.body)
    (hturn : Turn os before id event after effects) : after.Sited := by
  have hok : before.Ok := ⟨hservers ▸ hnet.ok.hostId, hservers ▸ hnet.ok.ids⟩
  have hother {h : ServerId} (hid : h ≠ id) : after.servers h = net.servers h := by
    rw [hturn.others h hid, hservers]
  refine ⟨hturn.ok hok, fun h => ?_, fun h => ?_, fun packet hmem made hbody => ?_,
    fun p h d entry hcopy => ?_⟩
  · by_cases hid : h = id
    · rw [hid]
      exact hturn.handled.sitesOk (hservers ▸ hnet.sites id)
    · rw [hother hid]
      exact hnet.sites h
  · by_cases hid : h = id
    · rw [hid, hturn.handled.projects.2.1, hservers]
      exact hnet.own id
    · rw [hother hid]
      exact hnet.own h
  · rw [hturn.wire] at hmem
    rcases List.mem_append.mp hmem with hold | hnew
    · have hgiven := hnet.snapshots packet (hkept packet hold) made hbody
      by_cases hid : packet.source = id
      · rw [hid] at hgiven ⊢
        exact hturn.handled.site_kept (hservers ▸ hgiven)
      · rw [hother hid]
        exact hgiven
    · obtain ⟨e, he, hpacket⟩ := List.mem_filterMap.mp hnew
      cases e with
      | send dest reqId body =>
          cases hpacket
          cases hbody
          exact hturn.handled.snapshot_site (hok.ids id) he
      | _ => cases hpacket
  · by_cases hp : p = id
    · subst hp
      rcases (hturn.clientStep h d).site hcopy with ⟨old, hold, hsite⟩ | ⟨made, reqId, rfl, hsite⟩ |
          ⟨hown, hsite⟩
      · rw [copy, hservers] at hold
        exact hsite ▸ hturn.worksAs hservers (hnet.copies p h d old hold)
      · rcases harrived _ rfl with hconn | ⟨packet, hmem, hsource, hdest, hbody⟩
        · cases hconn
        · have hgiven := hnet.snapshots packet hmem made hbody
          rw [hsource, hdest] at hgiven
          exact hsite ▸ hturn.worksAs hservers (.inr hgiven)
      · rw [hok.hostId] at hown
        rw [hservers, hnet.own] at hsite
        exact .inl ⟨hown.symm, hsite⟩
    · rw [hturn.copy_of_ne hp, copy, hservers] at hcopy
      exact hturn.worksAs hservers (hnet.copies p h d entry hcopy)

end Turn

variable {net net' : Network}

theorem Sited.step (hnet : net.Sited) {act : Act} (hstep : net.step act = some net') :
    net'.Sited ∧ ∀ p h site, net.WorksAs p h site → net'.WorksAs p h site := by
  cases act with
  | turn os id event =>
      simp only [Network.step] at hstep
      split at hstep
      next hlocal =>
          obtain ⟨effects, hturn⟩ := turn_of_handle hstep
          refine ⟨hnet.turn rfl (fun _ hmem => hmem) (fun msg hmsg => ?_) hturn,
            fun p h site => hturn.worksAs rfl⟩
          rw [hmsg] at hlocal
          exact .inl hlocal
      next => cases hstep
  | deliver os index =>
      simp only [Network.step, Option.bind_eq_bind, Option.bind_eq_some_iff] at hstep
      obtain ⟨packet, hpacket, hhandle⟩ := hstep
      obtain ⟨effects, hturn⟩ := turn_of_handle hhandle
      have hservers : (net.take index).servers = net.servers := rfl
      refine ⟨hnet.turn hservers (fun _ => List.mem_of_mem_eraseIdx) (fun msg hmsg => ?_) hturn,
        fun p h site => hturn.worksAs rfl⟩
      cases hmsg
      exact .inr ⟨packet, List.mem_of_getElem? hpacket, rfl, rfl, rfl⟩
  | lose index =>
      simp only [Network.step] at hstep
      split at hstep
      next =>
          cases hstep
          refine ⟨⟨⟨hnet.ok.hostId, hnet.ok.ids⟩, hnet.sites, hnet.own, fun packet hmem => ?_,
            hnet.copies⟩, fun _ _ _ hp => hp⟩
          exact hnet.snapshots packet (List.mem_of_mem_eraseIdx hmem)
      next => cases hstep

theorem Sited.run (hnet : net.Sited) {acts : List Act}
    (hrun : Run.run Network.step net acts = some net') :
    net'.Sited ∧ ∀ p h site, net.WorksAs p h site → net'.WorksAs p h site := by
  induction acts generalizing net with
  | nil =>
      cases hrun
      exact ⟨hnet, fun _ _ _ hp => hp⟩
  | cons act acts ih =>
      obtain ⟨mid, hstep, hrest⟩ := Run.run_cons_some.mp hrun
      obtain ⟨hmid, hkept⟩ := hnet.step hstep
      obtain ⟨hnet', hkept'⟩ := ih hmid hrest
      exact ⟨hnet', fun p h site hp => hkept' p h site (hkept p h site hp)⟩

/-- Copies of two clients never have one site id, and a client that comes back has the id that it
had before, whatever was closed, lost or opened again in between. -/
theorem sites_apart {config : ServerId → Config} {idealWorld : ServerId → WorldState}
    {acts acts' : List Act} (hrun : Run.run step (start config idealWorld) acts = some net)
    (hrun' : Run.run step net acts' = some net') {p q h : ServerId} {d d' : DocId}
    {entry entry' : RemoteDocEntry} (hcopy : net.copy p h d = some entry)
    (hcopy' : net'.copy q h d' = some entry') :
    (p ≠ q → entry.engine.site ≠ entry'.engine.site) ∧
      (p = q → p ≠ h → entry.engine.site = entry'.engine.site) := by
  obtain ⟨hnet, -⟩ := (sited_start config idealWorld).run hrun
  obtain ⟨hnet', hkept⟩ := hnet.run hrun'
  have hp := hkept _ _ _ (hnet.copies p h d entry hcopy)
  have hq := hnet'.copies q h d' entry' hcopy'
  refine ⟨fun hne heq => hne (hnet'.eq_of_worksAs (heq ▸ hp) hq), fun heq hne => ?_⟩
  subst heq
  rcases hp with ⟨hown, -⟩ | hp
  · exact absurd hown hne
  · rcases hq with ⟨hown, -⟩ | hq
    · exact absurd hown hne
    · exact Option.some.inj (hp.symm.trans hq)

/-- The copies of host 0, and of host 1 after it has asked for an op that was lost. -/
theorem sites_apart_sample :
    ∃ net net' entry entry', Run.run step (start noConfig nobodyWanted) session = some net ∧
      Run.run step net (Watch.twoBatches.drop session.length) = some net' ∧
      net.copy 0 0 1 = some entry ∧ net'.copy 1 0 1 = some entry' ∧
      entry.engine.site ≠ entry'.engine.site := by
  have hcopies : ((Run.run step (start noConfig nobodyWanted) session).bind fun net =>
      (Run.run step net (Watch.twoBatches.drop session.length)).map fun net' =>
        (net.copy 0 0 1).isSome && (net'.copy 1 0 1).isSome) = some true := by
    decide +kernel
  obtain ⟨net, hrun, hcopies⟩ := Option.bind_eq_some_iff.mp hcopies
  obtain ⟨net', hrun', hcopies⟩ := Option.map_eq_some_iff.mp hcopies
  obtain ⟨hcopy, hcopy'⟩ := (Bool.and_eq_true _ _).mp hcopies
  obtain ⟨entry, hcopy⟩ := Option.isSome_iff_exists.mp hcopy
  obtain ⟨entry', hcopy'⟩ := Option.isSome_iff_exists.mp hcopy'
  exact ⟨net, net', entry, entry', hrun, hrun', hcopy, hcopy',
    (sites_apart hrun hrun' hcopy hcopy').1 (by decide)⟩

end Network

end CollabMode
