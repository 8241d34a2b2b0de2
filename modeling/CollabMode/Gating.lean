import CollabMode.Calls

/-!
# Permissions

What a message of a peer does to documents and files, by what the peer is allowed.
`Permitted` goes through the calls on the file system and says which permission
each needs.  `Gated` puts it together by permission.

A Hey is outside of this.  It makes the server write its own configuration file,
whatever the permissions of the sender.
-/

namespace CollabMode

namespace FsCall

/-- A file that is there changes, or gets another name. -/
def overwrites : FsCall → Bool
  | .overwrite _ => true
  | .rename _ _ => true
  | .saveConfig => true
  | _ => false

/-- The configuration file gets a directory if there is none. -/
def makesDirectory : FsCall → Bool
  | .createDirAll _ => true
  | .saveConfig => true
  | _ => false

def makesFile : FsCall → Bool
  | .open _ create => create
  | .saveConfig => true
  | _ => false

def deletes : FsCall → Bool
  | .removeDirAll _ => true
  | .removeFile _ => true
  | _ => false

end FsCall

namespace Server

/-- The call saves a document that the turn closes. -/
def SavesClosed (before after : Server) (call : FsCall) : Prop :=
  ∃ docId doc path, before.doc? docId = some doc ∧ after.doc? docId = none ∧
    doc.diskFile = some path ∧ call = .overwrite path

/-- What a message may do without a permission. -/
structure Gated (before after : Server) (sender : ServerId) (cs : List FsCall) : Prop where
  text : before.config.writeAllowed sender = false → ∀ docId doc doc',
    before.doc? docId = some doc → after.doc? docId = some doc' →
    doc'.engine = doc.engine ∧ doc'.buffer = doc.buffer
  files : before.config.writeAllowed sender = false → ∀ call ∈ cs, call.overwrites →
    before.config.deleteAllowed sender = true ∧ SavesClosed before after call
  directories : before.config.writeAllowed sender = false → ∀ call ∈ cs, ¬call.makesDirectory
  newFiles : before.config.createAllowed sender = false → ∀ call ∈ cs, ¬call.makesFile
  docs : before.config.deleteAllowed sender = false → ∀ docId doc,
    before.doc? docId = some doc → ∃ doc', after.doc? docId = some doc'
  deletions : before.config.deleteAllowed sender = false → ∀ call ∈ cs, ¬call.deletes

/-- The permission that a call needs. -/
inductive Permitted (before after : Server) (msg : Message) : FsCall → Prop where
  | stat (path : UnixPath.Path) : Permitted before after msg (.stat path)
  | readDir (path : UnixPath.Path) : Permitted before after msg (.readDir path)
  | canonicalize (path : UnixPath.Path) : Permitted before after msg (.canonicalize path)
  | open (path : UnixPath.Path) (create : Bool)
      (allowed : create = true → before.config.createAllowed msg.host = true) :
      Permitted before after msg (.open path create)
  | overwrite (path : UnixPath.Path) (allowed : before.config.writeAllowed msg.host = true) :
      Permitted before after msg (.overwrite path)
  | save (call : FsCall) (allowed : before.config.deleteAllowed msg.host = true)
      (closed : SavesClosed before after call) : Permitted before after msg call
  | createDirAll (path : UnixPath.Path) (allowed : before.config.writeAllowed msg.host = true) :
      Permitted before after msg (.createDirAll path)
  | rename (old new : UnixPath.Path) (allowed : before.config.writeAllowed msg.host = true) :
      Permitted before after msg (.rename old new)
  | removeDirAll (path : UnixPath.Path) (allowed : before.config.deleteAllowed msg.host = true) :
      Permitted before after msg (.removeDirAll path)
  | removeFile (path : UnixPath.Path) (allowed : before.config.deleteAllowed msg.host = true) :
      Permitted before after msg (.removeFile path)
  | saveConfig (hey : HeyMessage) (greets : msg.body = .hey hey) :
      Permitted before after msg .saveConfig

namespace Permitted

variable {before after : Server} {msg : Message} {call : FsCall}
  (h : Permitted before after msg call)
include h

theorem of_overwrites (hne : call ≠ .saveConfig) (hover : call.overwrites) :
    before.config.writeAllowed msg.host = true ∨
      before.config.deleteAllowed msg.host = true ∧ SavesClosed before after call := by
  cases h with
  | overwrite path allowed => exact .inl allowed
  | rename old new allowed => exact .inl allowed
  | save call allowed closed => exact .inr ⟨allowed, closed⟩
  | saveConfig hey greets => exact absurd rfl hne
  | _ => cases hover

theorem of_makesDirectory (hne : call ≠ .saveConfig) (hmakes : call.makesDirectory) :
    before.config.writeAllowed msg.host = true := by
  cases h with
  | createDirAll path allowed => exact allowed
  | saveConfig hey greets => exact absurd rfl hne
  | save call allowed closed =>
      obtain ⟨_, _, _, _, _, _, rfl⟩ := closed
      cases hmakes
  | _ => cases hmakes

theorem of_makesFile (hne : call ≠ .saveConfig) (hmakes : call.makesFile) :
    before.config.createAllowed msg.host = true := by
  cases h with
  | «open» path create allowed => exact allowed hmakes
  | saveConfig hey greets => exact absurd rfl hne
  | save call allowed closed =>
      obtain ⟨_, _, _, _, _, _, rfl⟩ := closed
      cases hmakes
  | _ => cases hmakes

theorem of_deletes (hdeletes : call.deletes) : before.config.deleteAllowed msg.host = true := by
  cases h with
  | removeDirAll path allowed => exact allowed
  | removeFile path allowed => exact allowed
  | save call allowed closed => exact allowed
  | _ => cases hdeletes

theorem of_saveConfig (heq : call = .saveConfig) : ∃ hey, msg.body = .hey hey := by
  cases h with
  | saveConfig hey greets => exact ⟨hey, greets⟩
  | save call allowed closed =>
      obtain ⟨_, _, _, _, _, _, rfl⟩ := closed
      cases heq
  | _ => cases heq

end Permitted

/-- All calls of a turn have their permission. -/
abbrev AllPermitted (before after : Server) (msg : Message) (effects : List Effect) : Prop :=
  ∀ call ∈ calls effects, Permitted before after msg call

theorem allPermitted_of_nil {before after : Server} {msg : Message} {effects : List Effect}
    (h : calls effects = []) : AllPermitted before after msg effects := by
  intro call hcall
  rw [h] at hcall
  cases hcall

/-! ## Every message -/

theorem permitted_requestFile {os : Os} {before : Server} {msg : Message} {file : FileDesc}
    {mode : OpenMode} {after : Server} {effects : List Effect}
    (h : before.handleRequestFile os msg.reqId file msg.host mode = (after, effects)) :
    AllPermitted before after msg effects := by
  have hcalls :
      calls effects = calls (before.handleRequestFile os msg.reqId file msg.host mode).2 :=
    by rw [h]
  cases file with
  | project id =>
      rw [calls_handleRequestFile_project] at hcalls
      exact allPermitted_of_nil hcalls
  | projectFile project path =>
      rw [calls_handleRequestFile] at hcalls
      intro call hcall
      rw [hcalls] at hcall
      split at hcall
      next => cases hcall
      next =>
          split at hcall
          next => cases hcall
          next =>
              rcases List.mem_append.mp hcall with hcall | hcall
              · obtain ⟨fullPath, _, rfl | rfl⟩ := calls_openFileFromDisk hcall
                · exact .stat fullPath
                · exact .open fullPath _ fun hcreate => by simp at hcreate; exact hcreate.2
              · split at hcall
                next => cases hcall
                next =>
                    cases List.mem_singleton.mp hcall
                    exact .canonicalize _

theorem permitted_closeFile {os : Os} {before : Server} {msg : Message} {file : FileDesc}
    {delete : Bool} {after : Server} {effects : List Effect}
    (h : before.handleCloseFileFromRemote os msg.reqId file msg.host delete = (after, effects)) :
    AllPermitted before after msg effects := by
  have hcalls := calls_handleCloseFileFromRemote os before msg.reqId file msg.host delete
  have hafter := server_handleCloseFileFromRemote os before msg.reqId file msg.host delete
  rw [h] at hcalls hafter
  intro call hcall
  rw [show calls effects = _ from hcalls] at hcall
  split at hcall
  next hallowed =>
      rw [if_pos hallowed, server_handleCloseFileLocally] at hafter
      rw [calls_handleCloseFileLocally] at hcall
      split at hcall
      next => cases hcall
      next docIds path subscribers hfind =>
          simp only [hfind] at hafter
          rcases List.mem_append.mp hcall with hcall | hcall
          · obtain ⟨docId, hmem, doc, hget, path, hfile, rfl⟩ := mem_removeDocs hcall
            refine .save _ hallowed ⟨docId, doc, path, hget, ?_, hfile, rfl⟩
            rw [show after = _ from hafter, (closes_removeDocs os before docIds).doc?, if_pos hmem]
          · split at hcall
            next =>
                rcases mem_deletePath hcall with rfl | rfl | rfl
                · exact .stat _
                · exact .removeDirAll _ hallowed
                · exact .removeFile _ hallowed
            next => cases hcall
  next => cases hcall

theorem permitted {os : Os} {before after : Server} {msg : Message} {effects : List Effect}
    (h : before.handleRemoteMessage os msg = some (after, effects)) :
    AllPermitted before after msg effects := by
  cases handled_message h with
  | idle away tables quiet => cases away
  | noted tables quiet still => exact allPermitted_of_nil still
  | strayInfo stray => exact allPermitted_of_nil rfl
  | requestFile h => exact permitted_requestFile h
  | closeFile h => exact permitted_closeFile h
  | @hey host reqId hey _ _ h =>
      intro call hcall
      rw [show calls effects = _ from h ▸ calls_handleHey os before hey host] at hcall
      cases List.mem_singleton.mp hcall
      exact .saveConfig hey rfl
  | listFiles reply snap =>
      intro call hcall
      rw [calls_sent] at hcall
      rcases mem_listFilesFromDisk hcall with ⟨path, rfl⟩ | ⟨path, rfl⟩
      · exact .stat path
      · exact .readDir path
  | makeDirectory allowed h =>
      unfold handleMakeDirectory at h
      split at h
      next => cases h; exact allPermitted_of_nil rfl
      next =>
          cases h
          intro call hcall
          rw [calls_sent] at hcall
          obtain ⟨path, rfl⟩ := mem_makeDirectoryOnDisk hcall
          exact .createDirAll path allowed
  | moveFile allowed h =>
      intro call hcall
      rw [show calls effects = _ from h ▸ calls_handleMoveFile ..] at hcall
      obtain ⟨old, new, hcall⟩ := mem_moveFileOnDisk hcall
      rcases mem_moveCalls hcall with rfl | ⟨parent, rfl⟩ | rfl
      · exact .stat new
      · exact .createDirAll parent allowed
      · exact .rename old new allowed
  | saveFile allowed h =>
      cases h
      intro call hcall
      rw [calls_sent] at hcall
      obtain ⟨path, rfl⟩ := mem_saveFileToDisk hcall
      exact .overwrite path allowed
  | resetFromDisk allowed h =>
      intro call hcall
      obtain ⟨path, rfl⟩ := mem_handleResetFromDisk h call hcall
      exact .open path false nofun
  | snapshot h =>
      unfold handleSnapshot at h
      split at h <;> cases h <;> exact allPermitted_of_nil rfl
  | opFromClient h => exact allPermitted_of_nil (calls_handleOpFromClient h)
  | opFromServer h =>
      refine allPermitted_of_nil ?_
      rw [← calls_handleOpFromServer before, h]
  | requestOps h =>
      unfold handleRequestOps at h
      split at h
      next => cases h; exact allPermitted_of_nil rfl
      next => cases h; refine allPermitted_of_nil ?_; split <;> rfl
  | stopSendingOps h =>
      unfold handleStopSendingOps at h
      split at h <;> cases h <;> exact allPermitted_of_nil rfl
  | docFatal h => cases h; exact allPermitted_of_nil rfl

/-- The text and the history of a document that stays are the same. -/
def SameText (before after : Server) : Prop :=
  ∀ docId doc doc', before.doc? docId = some doc → after.doc? docId = some doc' →
    doc'.engine = doc.engine ∧ doc'.buffer = doc.buffer

theorem SameText.of_docs {before after : Server} (h : after.docs = before.docs) :
    SameText before after := by
  intro docId doc doc' hget hget'
  rw [doc?, h] at hget'
  cases hget.symm.trans hget'
  exact ⟨rfl, rfl⟩

theorem SameText.setDoc {self : Server} {docId : DocId} {doc doc' : DocEntry}
    (hget : self.doc? docId = some doc) (hengine : doc'.engine = doc.engine)
    (hbuffer : doc'.buffer = doc.buffer) : SameText self (self.setDoc docId doc') := by
  intro k old new hold hnew
  rw [doc?_setDoc] at hnew
  split at hnew
  next heq =>
      subst heq
      cases hnew
      cases hget.symm.trans hold
      exact ⟨hengine, hbuffer⟩
  next =>
      cases hold.symm.trans hnew
      exact ⟨rfl, rfl⟩

/-- A sender without write permission changes no text and no history. -/
theorem sameText {os : Os} {before after : Server} {msg : Message} {effects : List Effect}
    (hids : before.IdsOk) (hdenied : before.config.writeAllowed msg.host = false)
    (h : before.handleRemoteMessage os msg = some (after, effects)) : SameText before after := by
  have hcannot {P : Prop} (hallowed : before.config.writeAllowed msg.host = true) : P := by
    rw [hdenied] at hallowed
    cases hallowed
  cases handled_message h with
  | idle away tables quiet => cases away
  | noted tables quiet still => exact .of_docs (docs_of_tables tables)
  | strayInfo stray => exact .of_docs rfl
  | hey h => cases h; exact .of_docs rfl
  | listFiles reply snap => exact .of_docs rfl
  | makeDirectory allowed h => exact hcannot allowed
  | moveFile allowed h => exact hcannot allowed
  | saveFile allowed h => exact hcannot allowed
  | resetFromDisk allowed h => exact hcannot allowed
  | opFromClient h =>
      simp only [handleOpFromClient, hdenied] at h
      cases h
      exact .of_docs rfl
  | snapshot h =>
      unfold handleSnapshot at h
      split at h <;> cases h <;> exact .of_docs rfl
  | opFromServer h =>
      obtain ⟨hdocs, _⟩ := docs_handleOpFromServer before ..
      rw [h] at hdocs
      exact .of_docs hdocs
  | docFatal h => cases h; exact .of_docs rfl
  | requestOps h =>
      unfold handleRequestOps at h
      split at h
      next => cases h; exact .of_docs rfl
      next doc hget => cases h; exact .setDoc hget rfl rfl
  | stopSendingOps h =>
      unfold handleStopSendingOps at h
      split at h
      next => cases h; exact .of_docs rfl
      next doc hget => cases h; exact .setDoc hget rfl rfl
  | requestFile h =>
      rcases docs_handleRequestFile h with ⟨hdocs, _⟩ | ⟨new, hdocs, _⟩
      · exact .of_docs hdocs
      · intro docId doc doc' hget hget'
        have hne : docId ≠ before.nextDocId :=
          Nat.ne_of_lt (hids.lt docId (AssocMap.mem_keys (AssocMap.mem_of_get hget)))
        rw [doc?, hdocs, AssocMap.get_insert_of_ne hne] at hget'
        cases hget.symm.trans hget'
        exact ⟨rfl, rfl⟩
  | closeFile h =>
      have hclose := closes_handleCloseFileFromRemote h
      intro docId doc doc' hget hget'
      rw [hclose.doc?] at hget'
      split at hget'
      next => cases hget'
      next =>
          cases hget.symm.trans hget'
          exact ⟨rfl, rfl⟩

/-- A sender without the permission to delete closes no document. -/
theorem keepsDocs {os : Os} {before after : Server} {msg : Message} {effects : List Effect}
    (hdenied : before.config.deleteAllowed msg.host = false)
    (h : before.handleRemoteMessage os msg = some (after, effects)) {docId : DocId}
    {doc : DocEntry} (hget : before.doc? docId = some doc) :
    ∃ doc', after.doc? docId = some doc' := by
  rcases (handled_message h).docsStep with hstep | ⟨hcloses, _⟩
  · exact hstep.keeps hget
  · obtain ⟨host, body, reqId⟩ := msg
    cases body <;> try cases hcloses
    simp only [handleRemoteMessage, handleCloseFileFromRemote, hdenied] at h
    cases h
    exact ⟨doc, hget⟩

/-- What a message does without permission, but for the server's configuration file,
which only a Hey has it write. -/
theorem gated_but_config {os : Os} {before after : Server} {msg : Message}
    {effects : List Effect} (hreach : before.Reachable)
    (h : before.handleRemoteMessage os msg = some (after, effects)) :
    Gated before after msg.host ((calls effects).filter (· ≠ .saveConfig)) ∧
      (.saveConfig ∈ calls effects → ∃ hey, msg.body = .hey hey) := by
  have hcalls := permitted h
  constructor
  · have hall : ∀ call ∈ (calls effects).filter (· ≠ .saveConfig),
        Permitted before after msg call ∧ call ≠ .saveConfig := by
      intro call hcall
      obtain ⟨hmem, hne⟩ := List.mem_filter.mp hcall
      exact ⟨hcalls call hmem, by simpa using hne⟩
    have hdenies {allowed : Bool} (hdenied : allowed = false) : ¬allowed = true := by
      rw [hdenied]
      exact Bool.false_ne_true
    refine ⟨fun hdenied => sameText hreach.idsOk hdenied h, fun hdenied call hcall hover => ?_,
      fun hdenied call hcall hmakes => ?_, fun hdenied call hcall hmakes => ?_,
      fun hdenied docId doc hget => keepsDocs hdenied h hget, fun hdenied call hcall hdeletes => ?_⟩
    · obtain ⟨hperm, hne⟩ := hall call hcall
      exact (hperm.of_overwrites hne hover).resolve_left (hdenies hdenied)
    · obtain ⟨hperm, hne⟩ := hall call hcall
      exact hdenies hdenied (hperm.of_makesDirectory hne hmakes)
    · obtain ⟨hperm, hne⟩ := hall call hcall
      exact hdenies hdenied (hperm.of_makesFile hne hmakes)
    · exact hdenies hdenied ((hall call hcall).1.of_deletes hdeletes)
  · exact fun hmem => (hcalls _ hmem).of_saveConfig rfl

/-- A host with a peer that may do nothing. -/
def guarded : Server :=
  new 0 ⟨none, [(5, { write := false, create := false, delete := false })], []⟩ WorldState.new

theorem guarded_reachable : guarded.Reachable := ⟨0, _, WorldState.new, [], rfl⟩

/-- Its editor has shared the text "b". -/
def guardedText : Server := (guarded.handleShareFileFromEditor Os.bare 1 ['a'] ['b']).1

theorem guardedText_reachable : guardedText.Reachable :=
  ⟨0, _, WorldState.new, [(Os.bare, .request 1 (.shareFile ['a'] ['b']))], rfl⟩

/-- The peer deletes the text. -/
def deletesText : Message :=
  { host := 5
    body := .opFromClient
      ⟨0, 1, [{ seq := none, op := .mark [(0, ['b'])] false 1, siteSeq := 1
                kind := .original, groupSeq := 1 }]⟩
    reqId := some 1 }

theorem gated_but_config_sample :
    ∃ after effects, guardedText.handleRemoteMessage Os.bare deletesText = some (after, effects) ∧
      (∃ doc, guardedText.doc? 1 = some doc ∧ doc.buffer = ['b']) ∧
      Gated guardedText after 5 ((calls effects).filter (· ≠ .saveConfig)) ∧
      (.saveConfig ∈ calls effects → ∃ hey, deletesText.body = .hey hey) :=
  ⟨_, _, rfl, ⟨_, rfl, rfl⟩, @gated_but_config Os.bare _ _ deletesText _ guardedText_reachable rfl⟩

/-- The Hey of a peer that may do nothing has the configuration file written. -/
theorem not_gated_hey :
    guarded.Reachable ∧ guarded.handleRemoteMessage Os.bare
        { host := 5, body := helloMsg, reqId := none } =
      some (guarded.handleHey Os.bare ⟨"Nice to meet ya", "", "v1.0.0"⟩ 5) ∧
    ¬Gated guarded (guarded.handleHey Os.bare ⟨"Nice to meet ya", "", "v1.0.0"⟩ 5).1 5
      (calls (guarded.handleHey Os.bare ⟨"Nice to meet ya", "", "v1.0.0"⟩ 5).2) := by
  refine ⟨guarded_reachable, rfl, fun h => ?_⟩
  exact h.directories (by decide) .saveConfig (by decide) rfl

end Server

end CollabMode
