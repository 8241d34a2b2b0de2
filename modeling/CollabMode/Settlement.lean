import CollabMode.Books

/-!
# What a message puts into the books

A turn takes one entry out of the books, the message that it handles, and puts one in when the
message is settled.  A reset that is settled is only taken out.  So the books stay as they are,
whatever else the two servers do (`outstanding_handle`).

A message that is not settled is lost, or is answered with a refusal that counts for one
(`outstanding_refused_reset`).
-/

namespace CollabMode

namespace Answering

namespace Parties

variable {c : Parties} {here source dest : ServerId}

/-! ## Messages of peers -/

/-- The editor of `client` may wait for what becomes of the message. -/
def Concerns (c : Parties) (here : ServerId) (msg : Message) : Prop :=
  msg.reqId = some c.reqId ∧ (if msg.body.role = .reply then here else msg.host) = c.client

/-- What is promised of a message that concerns the editor. -/
structure Fair (c : Parties) (os : Os) (before : Server) (msg : Message) : Prop where
  settles : c.Concerns before.hostId msg → before.settles os msg.host msg.body = true
  source : c.Concerns before.hostId msg → msg.body.role = .reply → c.has msg.host = true
  plain : c.Concerns before.hostId msg → msg.body.role ≠ .batch

/-- What a message that is settled gives back to the books. -/
def returned (c : Parties) (here : ServerId) (msg : Message) : Nat :=
  if msg.body.role = .reset then 0 else c.owed msg.host here msg.reqId msg.body

theorem owed_of_not_concerns {msg : Message} (h : ¬c.Concerns here msg) :
    c.owed msg.host here msg.reqId msg.body = 0 := by
  by_cases hid : msg.reqId = some c.reqId
  · have hne := fun hne => h ⟨hid, hne⟩
    cases hrole : msg.body.role with
    | reply => exact owed_of_dest_ne hrole (by simpa [hrole] using hne) ..
    | _ => exact owed_of_source_ne (by simp [hrole]) (by simpa [hrole] using hne) ..
  · simp [owed, hid]

/-- A reply to a message for which the editor does not wait. -/
theorem owed_unasked {msg : Message} (h : ¬c.Concerns here msg) (hrole : msg.body.role ≠ .reply)
    {r : Msg} (hreply : r.role = .reply) : c.owed here msg.host msg.reqId r = 0 := by
  by_cases hid : msg.reqId = some c.reqId
  · exact owed_of_dest_ne hreply (fun hhost => h ⟨hid, by rw [if_neg hrole, hhost]⟩) ..
  · simp [owed, hid]

/-- Hosts are told, one of them with the request id. -/
theorem outstanding_tell {hosts : List ServerId} (hnodup : hosts.Nodup) (here asker : ServerId)
    (reqId : Option RequestId) (msg : Msg) :
    c.outstanding here (hosts.map fun host =>
        .send host (if asker = host then reqId else none) msg) =
      if asker ∈ hosts then c.owed here asker reqId msg else 0 := by
  induction hosts with
  | nil => rfl
  | cons host hosts ih =>
      obtain ⟨hnew, hnodup⟩ := List.nodup_cons.mp hnodup
      rw [List.map_cons, outstanding_cons, ih hnodup]
      by_cases hask : asker = host
      · subst hask
        simp [effectOwed, hnew]
      · simp [effectOwed, hask]

section

variable {os : Os} {before after : Server} {effects : List Effect} {msg : Message}

theorem outstanding_handleMoveFile {project : ProjectId} {source dest : Text}
    (hbody : msg.body = .moveFile project source dest)
    (hallowed : before.config.writeAllowed msg.host = true) (hfair : c.Fair os before msg)
    (h : before.handleMoveFile os msg.reqId project source dest msg.host = (after, effects)) :
    c.outstanding before.hostId effects = c.owed msg.host before.hostId msg.reqId msg.body := by
  have hask : msg.body.role = .question := by rw [hbody]; rfl
  simp only [Server.handleMoveFile] at h
  split at h
  next => cases h; simp [effectOwed, owed_reply hask (r := .errorResp _ _ _) rfl]
  next hosts hmove =>
      cases h
      obtain ⟨hcan, hnodup, hhosts⟩ := Server.moveFileOnDisk_ok hmove
      rw [outstanding_append, outstanding_fs, Nat.zero_add, outstanding_tell hnodup]
      split
      next => exact owed_reply hask rfl ..
      next hout =>
          refine (owed_of_not_concerns fun hconcerns => hout ?_).symm
          have hsettles := hfair.settles hconcerns
          rw [hbody] at hsettles
          exact (hhosts msg.host).mpr (by simpa [Server.settles, hallowed, hcan] using hsettles)

/-- The requester is told once, as a subscriber or not. -/
theorem outstanding_closed {hosts : List ServerId} (hnodup : hosts.Nodup)
    (here asker own : ServerId) (reqId : Option RequestId) (msg : Msg) :
    c.outstanding here
        ((hosts.filterMap fun host =>
          if host = asker then some (.send host reqId msg)
          else if host ≠ own then some (.send host none msg) else none) ++
        if hosts.contains asker then [] else [.send asker reqId msg]) =
      c.owed here asker reqId msg := by
  have htold : c.outstanding here (hosts.filterMap fun host =>
      if host = asker then some (.send host reqId msg)
      else if host ≠ own then some (.send host none msg) else none) =
      if asker ∈ hosts then c.owed here asker reqId msg else 0 := by
    induction hosts with
    | nil => rfl
    | cons host hosts ih =>
        obtain ⟨hnew, hnodup⟩ := List.nodup_cons.mp hnodup
        have ih := ih hnodup
        rw [List.filterMap_cons]
        simp only [ne_eq, ite_not] at ih ⊢
        by_cases hask : host = asker
        · subst hask
          simp [effectOwed, ih, hnew]
        · have hask' : asker ≠ host := Ne.symm hask
          by_cases hown : host = own
          · subst hown
            simp [ih, hask, hask']
          · simp [effectOwed, ih, hask, hask', hown]
  rw [outstanding_append, htold]
  by_cases hmem : asker ∈ hosts <;> simp [effectOwed, hmem]

theorem outstanding_handleCloseFileFromRemote {file : FileDesc} {delete : Bool}
    (hbody : msg.body = .closeFile file delete) (hkeys : before.KeysOk)
    (hfair : c.Fair os before msg)
    (h : before.handleCloseFileFromRemote os msg.reqId file msg.host delete = (after, effects)) :
    c.outstanding before.hostId effects = c.owed msg.host before.hostId msg.reqId msg.body := by
  have hask : msg.body.role = .question := by rw [hbody]; rfl
  simp only [Server.handleCloseFileFromRemote] at h
  split at h
  next => cases h; simp [effectOwed, owed_reply hask (r := .permissionDenied _) rfl]
  next hallowed =>
      split at h
      next =>
          cases h
          simp [effectOwed, outstanding_handleCloseFileLocally,
            owed_reply hask (r := .errorResp _ _ _) rfl]
      next hosts hclose =>
          cases h
          obtain ⟨docIds, path, hfound⟩ : ∃ docIds path,
              before.findDocsAndPathToDelete file = .ok (docIds, path, hosts) := by
            unfold Server.handleCloseFileLocally at hclose
            split at hclose
            next => cases hclose
            next docIds path hosts' hfound =>
                dsimp only at hclose
                split at hclose
                next => cases hclose
                next => cases hclose; exact ⟨docIds, path, hfound⟩
          rw [List.append_assoc, outstanding_append, outstanding_handleCloseFileLocally,
            Nat.zero_add, outstanding_closed (hkeys.nodup_found hfound)]
          cases delete with
          | true => exact owed_reply hask rfl ..
          | false =>
              rw [Server.closedMsg, if_neg Bool.false_ne_true, owed_other rfl]
              refine (owed_of_not_concerns fun hconcerns => ?_).symm
              have hsettles := hfair.settles hconcerns
              rw [hbody] at hsettles
              simp [Server.settles, Server.knows_of_found hfound] at hsettles
              simp [hsettles] at hallowed

theorem outstanding_handleRequestFile {file : FileDesc} {mode : OpenMode}
    (hbody : msg.body = .requestFile file mode) (hfair : c.Fair os before msg)
    (h : before.handleRequestFile os msg.reqId file msg.host mode = (after, effects)) :
    c.outstanding before.hostId effects = c.owed msg.host before.hostId msg.reqId msg.body := by
  have hask : msg.body.role = .question := by rw [hbody]; rfl
  unfold Server.handleRequestFile at h
  split at h
  next => cases h; simp [effectOwed, owed_reply hask (r := .errorResp _ _ _) rfl]
  next pathId hpath =>
      dsimp only at h
      split at h
      next id =>
          cases h
          refine Eq.trans (by simp [effectOwed, owed_other (m := .badRequest _) rfl])
            (owed_of_not_concerns fun hconcerns => ?_).symm
          have hsettles := hfair.settles hconcerns
          rw [hbody] at hsettles
          simp only [Server.settles, Option.isNone_iff_eq_none] at hsettles
          simp [Server.pathIdFromFileDesc, Server.project?, hsettles] at hpath
      next =>
          split at h
          next => cases h; simp [effectOwed, owed_reply hask (r := .snapshot _) rfl]
          next =>
              split at h
              next => cases h; simp [effectOwed, owed_reply hask (r := .errorResp _ _ _) rfl]
              next =>
                  cases h
                  simp [effectOwed, Server.watchFiles,
                    owed_reply hask (r := .snapshot _) rfl]

theorem outstanding_handleOpFromClient {ops : ContextOps} {res : Except CollabError Unit}
    (hbody : msg.body = .opFromClient ops) (hfair : c.Fair os before msg)
    (h : before.handleOpFromClient msg.reqId ops msg.host = some (res, after, effects)) :
    c.outstanding before.hostId effects = c.owed msg.host before.hostId msg.reqId msg.body := by
  have hbatch : msg.body.role = .batch := by rw [hbody]; rfl
  have hfree : ¬c.Concerns before.hostId msg := fun hconcerns => hfair.plain hconcerns hbatch
  have haccept {docId : DocId} {doc : DocEntry}
      (h : before.acceptOps msg.reqId docId doc ops msg.host = some (res, after, effects)) :
      c.outstanding before.hostId effects = 0 := by
    simp only [Server.acceptOps, Option.bind_eq_bind, Option.bind_eq_some_iff, Prod.exists] at h
    obtain ⟨res, applied, _, h⟩ := h
    split at h <;> cases h
    next => rfl
    next => exact outstanding_broadcastOps ..
  rw [owed_of_not_concerns hfree]
  simp only [Server.handleOpFromClient] at h
  split at h
  next =>
      cases h
      simp [effectOwed, owed_unasked hfree (by simp [hbatch]) (r := .permissionDenied _) rfl]
  next =>
      split at h
      next => cases h; simp [effectOwed, owed_other (m := .badRequest _) rfl]
      next =>
          split at h
          next => cases h; simp [effectOwed, owed_other (m := .badRequest _) rfl]
          next =>
              split at h
              next => exact haccept h
              next =>
                  split at h
                  next => cases h; simp [effectOwed, owed_other (m := .docFatal _ _) rfl]
                  next => exact haccept h

theorem outstanding_handleOpFromServer {reqId : Option RequestId} {docId : DocId}
    {ops : List (FatOp Op)} {host : ServerId}
    (h : before.handleOpFromServer reqId docId ops host = (after, effects)) :
    c.outstanding here effects = 0 := by
  have hasked (asked : List GlobalSeq) : c.outstanding here
      (asked.map fun after => .send host reqId (.requestOps docId after)) = 0 := by
    refine outstanding_eq_zero fun e he => ?_
    obtain ⟨after, _, rfl⟩ := List.mem_map.mp he
    exact owed_other (m := .requestOps docId after) rfl ..
  unfold Server.handleOpFromServer at h
  split at h
  next => cases h; rfl
  next =>
      split at h
      next => cases h; simp [effectOwed, owed_other (m := .stopSendingOps _) rfl]
      next =>
          dsimp only at h
          split at h
          next => cases h; simp [effectOwed, hasked]
          next =>
              cases h
              rw [outstanding_append, hasked]
              split
              next => split <;> rfl
              next => rfl

theorem outstanding_handleResetFromDisk {docId : DocId} (hbody : msg.body = .resetFromDisk docId)
    (hallowed : before.config.writeAllowed msg.host = true) (hfair : c.Fair os before msg)
    (h : before.handleResetFromDisk os msg.reqId docId msg.host = some (after, effects)) :
    c.outstanding before.hostId effects = 0 := by
  have hrole : msg.body.role ≠ .reply := by rw [hbody]; simp [Msg.role]
  have hcan (hconcerns : c.Concerns before.hostId msg) : before.canReset os docId = true := by
    have hsettles := hfair.settles hconcerns
    rw [hbody] at hsettles
    simpa [Server.settles, hallowed] using hsettles
  simp only [Server.handleResetFromDisk] at h
  split at h
  next hpath =>
      cases h
      have hfree : ¬c.Concerns before.hostId msg := fun hconcerns => by
        simpa [Server.canReset, hpath] using hcan hconcerns
      simp [effectOwed, owed_unasked hfree hrole (r := .errorResp _ _ _) rfl]
  next path hpath =>
      simp only [Option.bind_eq_bind, Option.bind_eq_some_iff, Prod.exists] at h
      obtain ⟨res, reset, effects', hreset, h⟩ := h
      split at h
      next err =>
          cases h
          have hfree : ¬c.Concerns before.hostId msg := fun hconcerns => by
            simpa [Server.canReset_of_error hpath hreset] using hcan hconcerns
          simp [effectOwed, outstanding_resetDocFromDisk hreset,
            owed_unasked hfree hrole (r := .errorResp _ _ _) rfl]
      next => cases h; exact outstanding_resetDocFromDisk hreset

/-- A question that needs write permission. -/
theorem outstanding_ifWriteAllowed {turn : Option Turn} (hask : msg.body.role = .question)
    (h : before.ifWriteAllowed msg turn = some (after, effects))
    (hturn : before.config.writeAllowed msg.host = true → turn = some (after, effects) →
      c.outstanding before.hostId effects = c.owed msg.host before.hostId msg.reqId msg.body) :
    c.outstanding before.hostId effects = c.owed msg.host before.hostId msg.reqId msg.body := by
  unfold Server.ifWriteAllowed at h
  split at h
  next hallowed => exact hturn hallowed h
  next => cases h; simp [effectOwed, owed_reply hask (r := .permissionDenied _) rfl]

theorem outstanding_question (hask : msg.body.role = .question) (hkeys : before.KeysOk)
    (hfair : c.Fair os before msg)
    (h : before.handleRemoteMessage os msg = some (after, effects)) :
    c.outstanding before.hostId effects = c.owed msg.host before.hostId msg.reqId msg.body := by
  obtain ⟨host, body, reqId⟩ := msg
  cases body with
  | listFiles dir =>
      cases reqId with
      | none => cases h; simp [effectOwed]
      | some reqId =>
          cases Server.turn_of_some h
          rw [outstanding_calls_send]
          exact owed_reply rfl (by split <;> rfl) ..
  | requestFile file mode =>
      cases reqId with
      | none => cases h; simp [effectOwed]
      | some reqId => exact outstanding_handleRequestFile rfl hfair (Option.some.inj h)
  | makeDirectory file =>
      refine outstanding_ifWriteAllowed rfl h fun _ h => ?_
      have h := Option.some.inj h
      unfold Server.handleMakeDirectory at h
      split at h
      next =>
          cases h
          rw [outstanding_cons, outstanding_nil, Nat.add_zero, effectOwed]
          exact owed_reply rfl rfl ..
      next =>
          cases h
          rw [outstanding_calls_send]
          exact owed_reply rfl (by split <;> rfl) ..
  | moveFile project source dest =>
      exact outstanding_ifWriteAllowed rfl h fun hallowed h =>
        outstanding_handleMoveFile rfl hallowed hfair (Option.some.inj h)
  | saveFile doc =>
      refine outstanding_ifWriteAllowed rfl h fun _ h => ?_
      cases h
      rw [outstanding_calls_send]
      exact owed_reply rfl (by split <;> rfl) ..
  | closeFile file delete =>
      exact outstanding_handleCloseFileFromRemote rfl hkeys hfair (Option.some.inj h)
  | _ => cases hask

theorem outstanding_reply (hreply : msg.body.role = .reply) (hhere : c.has before.hostId = true)
    (hfair : c.Fair os before msg)
    (h : before.handleRemoteMessage os msg = some (after, effects)) :
    c.outstanding before.hostId effects = c.owed msg.host before.hostId msg.reqId msg.body := by
  have hanswer {reqId : RequestId} (hid : msg.reqId = some reqId) :
      c.owed msg.host before.hostId msg.reqId msg.body = c.answered before.hostId reqId := by
    rw [hid]
    refine owed_answer hreply hhere fun hme hours => ?_
    exact hfair.source ⟨by rw [hid, hours], by rw [if_pos hreply, hme]⟩ hreply
  obtain ⟨host, body, reqId⟩ := msg
  cases body with
  | fileList | errorResp | fileMoved | fileDeleted | permissionDenied =>
      cases reqId <;> cases h
      · simp [effectOwed]
      · simp [effectOwed, hanswer rfl]
  | directoryMade file =>
      cases reqId <;> cases h
      · simp
      · simp [effectOwed, hanswer rfl]
  | snapshot snapshot =>
      cases reqId with
      | none => cases h; simp
      | some reqId =>
          have h := Option.some.inj h
          unfold Server.handleSnapshot at h
          split at h <;> cases h
          next => simp [effectOwed, hanswer rfl]
          next => simp [effectOwed, hanswer rfl, owed_other (m := .requestOps _ _) rfl]
  | fileSaved doc =>
      cases reqId with
      | none => cases h; simp [effectOwed]
      | some reqId =>
          simp only [Server.handleRemoteMessage] at h
          split at h
          next => cases h; simp [effectOwed, hanswer rfl]
          next hlost =>
              cases h
              refine (owed_of_not_concerns fun hconcerns => ?_).symm
              simpa [Server.settles, hlost] using hfair.settles hconcerns
  | _ => cases hreply

/-- A reset that is settled is not replied to. -/
theorem outstanding_reset (hreset : msg.body.role = .reset) (hfair : c.Fair os before msg)
    (h : before.handleRemoteMessage os msg = some (after, effects)) :
    c.outstanding before.hostId effects = 0 := by
  obtain ⟨host, body, reqId⟩ := msg
  cases body with
  | resetFromDisk doc =>
      simp only [Server.handleRemoteMessage, Server.ifWriteAllowed] at h
      split at h
      next hallowed => exact outstanding_handleResetFromDisk rfl hallowed hfair h
      next hdenied =>
          cases h
          have hfree : ¬c.Concerns before.hostId { host, body := .resetFromDisk doc, reqId } :=
            fun hconcerns => by simpa [Server.settles, hdenied] using hfair.settles hconcerns
          rw [outstanding_cons, outstanding_nil, Nat.add_zero, effectOwed]
          exact owed_unasked hfree (by simp [Msg.role]) rfl
  | _ => cases hreset

/-- A message that neither asks nor replies, and is not replied to. -/
theorem outstanding_notice (hother : msg.body.role = .other)
    (h : before.handleRemoteMessage os msg = some (after, effects)) :
    c.outstanding before.hostId effects = 0 := by
  obtain ⟨host, body, reqId⟩ := msg
  cases body with
  | opFromServer doc ops => exact outstanding_handleOpFromServer (Option.some.inj h)
  | requestOps doc seq =>
      have h := Option.some.inj h
      unfold Server.handleRequestOps at h
      split at h
      next => cases h; simp [effectOwed, owed_other (m := .badRequest _) rfl]
      next =>
          cases h
          split
          next => rfl
          next => simp [effectOwed, owed_other (m := .opFromServer _ _) rfl]
  | stopSendingOps doc =>
      have h := Option.some.inj h
      unfold Server.handleStopSendingOps at h
      split at h <;> cases h <;> rfl
  | infoFromClient info =>
      simp only [Server.handleRemoteMessage, Server.broadcastInfo] at h
      cases hdoc : before.doc? info.docId with
      | none => simp only [hdoc] at h; cases h; rfl
      | some doc =>
          simp only [hdoc] at h
          cases h
          exact outstanding_send fun _ _ => owed_other rfl ..
  | infoFromServer info =>
      simp only [Server.handleRemoteMessage] at h
      split at h
      next => split at h <;> cases h <;> rfl
      next => cases h; simp [effectOwed, owed_other (m := .stopSendingOps _) rfl]
  | failedToConnect | connectionBroke =>
      simp only [Server.handleRemoteMessage, Server.attemptFailed] at h
      split at h
      next => cases h; rfl
      next => split at h <;> cases h <;> rfl
  | hey hey =>
      cases Server.turn_of_some h
      rw [outstanding_append]
      split <;> rfl
  | bye | docFatal | fileClosed | iceProgress | shareSingleFile | fileShared | info | envoyInit
  | envoyInitError | serializationErr | badRequest => cases h; rfl
  | _ => cases hother

/-- What a message that is settled takes out of the books is put in again. -/
theorem outstanding_message (hhere : c.has before.hostId = true) (hkeys : before.KeysOk)
    (hfair : c.Fair os before msg)
    (h : before.handleRemoteMessage os msg = some (after, effects)) :
    c.outstanding before.hostId effects = c.returned before.hostId msg := by
  rw [returned]
  cases hrole : msg.body.role with
  | question => exact outstanding_question hrole hkeys hfair h
  | reply => exact outstanding_reply hrole hhere hfair h
  | reset => exact outstanding_reset hrole hfair h
  | other =>
      rw [if_neg (by simp), owed_other hrole]
      exact outstanding_notice hrole h
  | batch =>
      rw [if_neg (by simp)]
      obtain ⟨host, body, reqId⟩ := msg
      cases body with
      | opFromClient ops =>
          obtain ⟨⟨res, self', effects'⟩, h, heq⟩ := Option.map_eq_some_iff.mp h
          cases heq
          exact outstanding_handleOpFromClient rfl hfair h
      | _ => cases hrole

/-! ## Messages that are not settled -/

/-- Only the hosts that have a moved document open are told of the move. -/
theorem outstanding_lost_move {project : ProjectId} {source dest : Text} {asker : ServerId}
    {reqId : Option RequestId} (hcan : before.canMove os project source dest = true)
    (hout : before.followsMove os asker project source = false)
    (h : before.handleMoveFile os reqId project source dest asker = (after, effects)) :
    c.outstanding here effects = 0 := by
  obtain ⟨hosts, hmove⟩ := Server.exists_moveFileOnDisk hcan
  obtain ⟨-, hnodup, hhosts⟩ := Server.moveFileOnDisk_ok hmove
  simp only [Server.handleMoveFile, hmove] at h
  cases h
  rw [outstanding_append, outstanding_fs, Nat.zero_add, outstanding_tell hnodup, if_neg]
  rw [hhosts, hout]
  exact Bool.false_ne_true

/-- The message that says that a file was closed is only noted. -/
theorem outstanding_lost_close {file : FileDesc} {asker : ServerId} {reqId : Option RequestId}
    (hkeys : before.KeysOk) (hallowed : before.config.deleteAllowed asker = true)
    (hknows : before.knows file = true)
    (h : before.handleCloseFileFromRemote os reqId file asker false = (after, effects)) :
    c.outstanding before.hostId effects = 0 := by
  obtain ⟨⟨docIds, path, hosts⟩, hfound⟩ := Server.exists_found hknows
  have hclosed : (before.handleCloseFileLocally os file false).1 = .ok hosts := by
    simp only [Server.handleCloseFileLocally, hfound]
  simp only [Server.handleCloseFileFromRemote, hallowed, Bool.not_true, Bool.false_eq_true,
    if_false, hclosed] at h
  cases h
  rw [List.append_assoc, outstanding_append, outstanding_handleCloseFileLocally, Nat.zero_add,
    outstanding_closed (hkeys.nodup_found hfound)]
  exact owed_other rfl ..

/-- A question that is not settled is not replied to. -/
theorem outstanding_lost_question (hask : msg.body.role = .question) (hkeys : before.KeysOk)
    (hnot : before.settles os msg.host msg.body = false)
    (h : before.handleRemoteMessage os msg = some (after, effects)) :
    c.outstanding before.hostId effects = 0 := by
  obtain ⟨host, body, reqId⟩ := msg
  cases body with
  | requestFile file mode =>
      cases file with
      | projectFile project file => cases hnot
      | project id =>
          cases reqId with
          | none => cases h; simp [effectOwed]
          | some reqId =>
              simp only [Server.settles, Option.isNone_eq_false_iff] at hnot
              obtain ⟨proj, hproj⟩ := Option.isSome_iff_exists.mp hnot
              have h := Option.some.inj h
              simp only [Server.handleRequestFile, Server.pathIdFromFileDesc, Server.project?,
                hproj] at h
              cases h
              simp [effectOwed, owed_other (m := .badRequest _) rfl]
  | moveFile project source dest =>
      simp only [Server.settles, Bool.or_eq_false_iff, Bool.not_eq_false'] at hnot
      obtain ⟨⟨hallowed, hcan⟩, hout⟩ := hnot
      simp only [Server.handleRemoteMessage, Server.ifWriteAllowed, hallowed, if_true] at h
      exact outstanding_lost_move hcan hout (Option.some.inj h)
  | closeFile file delete =>
      cases delete with
      | true => cases hnot
      | false =>
          simp only [Server.settles, Bool.or_eq_false_iff, Bool.not_eq_false'] at hnot
          exact outstanding_lost_close hkeys hnot.1 hnot.2 (Option.some.inj h)
  | listFiles | makeDirectory | saveFile => cases hnot
  | _ => cases hask

/-- A reply that is not settled is not turned into an answer. -/
theorem outstanding_lost_reply (hreply : msg.body.role = .reply)
    (hnot : before.settles os msg.host msg.body = false) {reqId : RequestId}
    (hid : msg.reqId = some reqId)
    (h : before.handleRemoteMessage os msg = some (after, effects)) :
    c.outstanding here effects = 0 := by
  obtain ⟨host, body, _⟩ := msg
  obtain rfl := hid
  cases body with
  | fileSaved doc =>
      simp only [Server.settles, Option.isSome_eq_false_iff, Option.isNone_iff_eq_none] at hnot
      simp only [Server.handleRemoteMessage, hnot] at h
      cases h
      rfl
  | fileList | errorResp | snapshot | directoryMade | fileMoved | fileDeleted
  | permissionDenied => cases hnot
  | _ => cases hreply

/-- A reset that is not settled is refused. -/
theorem outstanding_refused_reset (c : Parties) (here : ServerId)
    (hreset : msg.body.role = .reset)
    (hnot : before.settles os msg.host msg.body = false)
    (h : before.handleRemoteMessage os msg = some (after, effects)) :
    ∃ unasked reply, effects = unasked ++ [.send msg.host msg.reqId reply] ∧
      c.outstanding here unasked = 0 ∧ reply.role = .reply ∧ reply.isRefusal = true := by
  obtain ⟨host, body, reqId⟩ := msg
  cases body with
  | resetFromDisk docId =>
      simp only [Server.handleRemoteMessage, Server.ifWriteAllowed] at h
      split at h
      next hallowed =>
          simp only [Server.settles, hallowed, Bool.true_and] at hnot
          simp only [Server.handleResetFromDisk] at h
          split at h
          next =>
              cases h
              exact ⟨[], .errorResp _ _ _, rfl, rfl, rfl, rfl⟩
          next path hpath =>
              obtain ⟨err, reset, unasked, herror⟩ :=
                Server.error_of_not_canReset os reqId hpath hnot
              simp only [herror, Option.bind_eq_bind, Option.bind_some] at h
              cases h
              exact ⟨unasked, .errorResp _ _ _, rfl, outstanding_resetDocFromDisk herror, rfl, rfl⟩
      next =>
          cases h
          exact ⟨[], .permissionDenied _, rfl, rfl, rfl, rfl⟩
  | _ => cases hreset

end

/-! ## Connections -/

/-- Nothing is answered, and no message is sent to a peer. -/
def Idles (c : Parties) (here : ServerId) (effects : List Effect) : Prop :=
  ∀ e ∈ effects, c.effectOwed here e = 0

theorem Idles.append {effects effects' : List Effect} (h : c.Idles here effects)
    (h' : c.Idles here effects') : c.Idles here (effects ++ effects') := fun e he =>
  (List.mem_append.mp he).elim (h e) (h' e)

theorem idles_forEach {h : ServerId} {α : Type} {f : Server → α → Turn}
    (hf : ∀ self a, c.Idles h (f self a).2) (self : Server) (as : List α) :
    c.Idles h (self.forEach f as).2 :=
  (Server.forEach_rule (P := fun _ => True) (fun s a _ _ => ⟨trivial, hf s a⟩) trivial).2

theorem idles_sendConnectMessage (os : Os) (self : Server) (peerId : ServerId) (addr : Text)
    (initiator : Bool) :
    c.Idles here (self.sendConnectMessage os peerId addr initiator).2 := by
  unfold Server.sendConnectMessage
  dsimp only
  split <;> simp [Idles, effectOwed]

theorem idles_tryConnectRemote (os : Os) (self : Server) (hostId : ServerId)
    (transport : TransportConfig) : c.Idles here (self.tryConnectRemote os hostId transport).2 := by
  unfold Server.tryConnectRemote
  split
  next => simp [Idles]
  next =>
      cases transport with
      | sshStdio sshHost command projects =>
          simp only [Server.tryConnectRemoteSsh]
          split <;> simp [Idles, effectOwed]
      | sctp addr =>
          simp only [Server.tryConnectRemoteSctp]
          intro e he
          rcases List.mem_cons.mp he with rfl | he
          · rfl
          · exact idles_sendConnectMessage os _ hostId addr true e he

theorem idles_fixWorld (os : Os) (self : Server) : c.Idles here (self.fixWorld os).2 := by
  have hfail := idles_forEach (c := c) (h := here) (f := Server.failBind) fun s addr => by
    simp [Server.failBind, Idles, effectOwed]
  have hdrop := idles_forEach (c := c) (h := here) (f := Server.dropSignaling) fun s addr => by
    simp [Server.dropSignaling, Idles, effectOwed]
  have hbind := idles_forEach (c := c) (h := here) (f := Server.bindSignaling os) fun s addr => by
    unfold Server.bindSignaling
    dsimp only
    split <;> simp [Idles, effectOwed]
  have hsync := idles_forEach (c := c) (h := here) (f := Server.syncTrust os) fun s addr => by
    simp [Server.syncTrust, Idles, effectOwed]
  have hremote := idles_forEach (c := c) (h := here) (f := Server.dropRemote) fun s peer => by
    simp [Server.dropRemote, Idles, effectOwed]
  have hstart := idles_forEach (c := c) (h := here) (f := Server.startRemote os) fun s entry => by
    unfold Server.startRemote
    split
    next => exact idles_tryConnectRemote os s entry.1 entry.2
    next => simp [Idles]
  have htime := idles_forEach (c := c) (h := here) (f := Server.timeOut os) fun s entry => by
    simp [Server.timeOut, Idles, effectOwed]
  simp only [Server.fixWorld, Server.fixWorldSignaling, Server.fixWorldRemotes,
    Server.fixWorldTimeouts]
  exact (((((hfail _ _).append (hdrop _ _)).append (hbind _ _)).append (hsync _ _)).append
    ((hremote _ _).append (hstart _ _))).append (htime _ _)

theorem idles_handleEditorNotification (os : Os) (self : Server) (notif : EditorNotification) :
    c.Idles here (self.handleEditorNotification os notif).2 := by
  cases notif with
  | acceptConnection addr =>
      simp only [Server.handleEditorNotification, Server.handleAcceptConnection]
      split
      next => simp [Idles, effectOwed]
      next => simp [Idles]
      next => split <;> simp [Idles, effectOwed]
  | connect hostId transport =>
      simp only [Server.handleEditorNotification, Server.handleConnect]
      refine Idles.append ?_ (by simp [Idles, effectOwed])
      split <;> simp [Idles, effectOwed]
  | sendInfo info file =>
      simp only [Server.handleEditorNotification, Server.handleSendInfoFromEditor]
      split <;> simp [Idles, effectOwed]
  | stopAccepting addr =>
      simp [Server.handleEditorNotification, Server.handleStopAccepting, Idles, effectOwed]
  | unknown method => simp [Server.handleEditorNotification, Idles]

theorem idles_handleSignalingMsg (os : Os) (self : Server) (addr : Text) (msg : SignalingMsg) :
    c.Idles here (self.handleSignalingMsg os addr msg).2 := by
  cases msg with
  | connect sender receiver initiator =>
      simp only [Server.handleSignalingMsg, Server.handleSignalingConnectMsg]
      split
      next => simp [Idles]
      next =>
          split
          next => simp [Idles, effectOwed]
          next =>
              refine Idles.append ?_ (by simp [Idles, effectOwed])
              split
              next => exact idles_sendConnectMessage os _ sender addr false
              next => simp [Idles]
  | _ => simp [Server.handleSignalingMsg, Idles, effectOwed]

/-- The request and the message of an event are as the lemmas about them demand. -/
def Admits (c : Parties) (os : Os) (before : Server) : Event → Prop
  | .request reqId req => c.Fits before.hostId reqId req
  | .message msg => c.Fair os before msg
  | _ => True

/-- What an event that is settled puts into the books. -/
def brought (c : Parties) (before : Server) : Event → Nat
  | .request reqId req =>
      (if before.forwardsReset req then 3 else 1) * c.answered before.hostId reqId
  | .message msg => c.returned before.hostId msg
  | _ => 0

/-- What a turn puts into the books, when it handles a message that is settled. -/
theorem outstanding_handle {os : Os} {before after : Server} {event : Event}
    {effects : List Effect} (hhere : c.has before.hostId = true) (hkeys : before.KeysOk)
    (hadmits : c.Admits os before event) (h : before.handle os event = some (after, effects)) :
    c.outstanding before.hostId effects = c.brought before event := by
  have hidle {turn : Turn} (hturn : c.Idles before.hostId turn.2)
      (h : some turn = some (after, effects)) : c.outstanding before.hostId effects = 0 := by
    rw [Server.turn_of_some h] at hturn
    exact outstanding_eq_zero hturn
  cases event with
  | request reqId req =>
      rw [brought]
      split
      next hforwards => exact outstanding_forwardsReset hhere hadmits hforwards h
      next hstays =>
          rw [Nat.one_mul]
          exact outstanding_request hhere hadmits (Bool.eq_false_iff.mpr hstays) h
  | message msg => exact outstanding_message hhere hkeys hadmits h
  | notification notif => exact hidle (idles_handleEditorNotification os before notif) h
  | signaling addr msg => exact hidle (idles_handleSignalingMsg os before addr msg) h
  | acceptStopped addr reason => cases h; rfl
  | fixWorld => exact hidle (idles_fixWorld os before) h
  | fileChanged path timestamp =>
      obtain ⟨⟨res, self', effects'⟩, h, heq⟩ := Option.map_eq_some_iff.mp h
      cases heq
      exact outstanding_resetDocFromDisk h

end Parties

end Answering

end CollabMode
