import CollabMode.Changes

/-!
# `fix_world` settles

Each pass of `fix_world` lists what differs between the worlds and does something about it.  A
server is `Settled` when all of the lists are empty, up to peers that are waiting for their
signaling server.  One run of `fix_world` leaves the server so, whatever becomes of the steps
that it takes, and on a settled server it does nothing.
-/

namespace CollabMode

namespace WorldState

/-- The maps have each key once, and no peer is retried without a pause. -/
structure Ok (world : WorldState) : Prop where
  signaling : (AssocMap.keys world.signaling).Nodup
  remotes : (AssocMap.keys world.remotes).Nodup
  strides : ∀ peer r, world.remote? peer = some r → 0 < r.retryStrideSecs

theorem ok_new : WorldState.new.Ok := ⟨List.nodup_nil, List.nodup_nil, nofun⟩

theorem remote?_insertRemote (world : WorldState) (peer peer' : ServerId) (state : RemoteState) :
    (world.insertRemote peer state).remote? peer' =
      if peer' = peer then some state else world.remote? peer' := AssocMap.get_insert ..

theorem remote?_modifyRemote (world : WorldState) (peer peer' : ServerId)
    (f : RemoteState → RemoteState) :
    (world.modifyRemote peer f).remote? peer' =
      if peer' = peer then (world.remote? peer').map f else world.remote? peer' :=
  AssocMap.get_modify ..

theorem remote?_setRemoteAttempt (world : WorldState) (peer peer' : ServerId)
    (transport : TransportConfig) (status : RemoteStatus) (connectionId : ConnectionId) :
    ∃ r, r.transport = transport ∧ r.status = status ∧
      (world.setRemoteAttempt peer transport status connectionId).remote? peer' =
        if peer' = peer then some r else world.remote? peer' := by
  rw [setRemoteAttempt]
  exact ⟨_, rfl, rfl, remote?_insertRemote ..⟩

/-- A peer that waits already is left as it is. -/
theorem setRemotePending_of_pending {world : WorldState} {peer : ServerId} {cur : RemoteState}
    (hget : world.remote? peer = some cur) (hstatus : cur.status = .pending)
    (connectionId : ConnectionId) :
    world.setRemotePending connectionId peer cur.transport = world := by
  simp only [setRemotePending, setRemoteAttempt, insertRemote, hget]
  rw [← hstatus, AssocMap.insert_of_get hget]

theorem remote?_removeRemote (world : WorldState) (peer peer' : ServerId) :
    (world.removeRemote peer).remote? peer' =
      if peer' = peer then none else world.remote? peer' := AssocMap.get_erase ..

theorem signaling?_upsertSignaling (world : WorldState) (addr addr' : Text)
    (f : SignalingState → SignalingState) (status : SignalingStatus) :
    (world.upsertSignaling addr f status).signaling? addr' =
      if addr' = addr then some ((world.signaling? addr).elim { status } f)
      else world.signaling? addr' := by
  rw [upsertSignaling, signaling?]
  dsimp only
  rw [AssocMap.get_insert]
  cases world.signaling? addr <;> rfl

theorem signaling?_upsertSignaling_of_ne {world : WorldState} {addr addr' : Text}
    (hne : addr' ≠ addr) (f : SignalingState → SignalingState) (status : SignalingStatus) :
    (world.upsertSignaling addr f status).signaling? addr' = world.signaling? addr' := by
  rw [signaling?_upsertSignaling, if_neg hne]

theorem status_upsertSignaling (world : WorldState) (addr : Text)
    {f : SignalingState → SignalingState} {status : SignalingStatus}
    (hf : ∀ s, (f s).status = status) :
    ∃ s, (world.upsertSignaling addr f status).signaling? addr = some s ∧ s.status = status := by
  rw [signaling?_upsertSignaling, if_pos rfl]
  cases world.signaling? addr with
  | none => exact ⟨_, rfl, rfl⟩
  | some s => exact ⟨_, rfl, hf s⟩

theorem signaling?_modifySignaling (world : WorldState) (addr addr' : Text)
    (f : SignalingState → SignalingState) :
    (world.modifySignaling addr f).signaling? addr' =
      if addr' = addr then (world.signaling? addr').map f else world.signaling? addr' :=
  AssocMap.get_modify ..

theorem signaling?_removeSignaling (world : WorldState) (addr addr' : Text) :
    (world.removeSignaling addr).signaling? addr' =
      if addr' = addr then none else world.signaling? addr' := AssocMap.get_erase ..

theorem Ok.setRemoteAttempt {world : WorldState} (h : world.Ok) (peer : ServerId)
    (transport : TransportConfig) (status : RemoteStatus) (connectionId : ConnectionId) :
    (world.setRemoteAttempt peer transport status connectionId).Ok := by
  refine ⟨h.signaling, AssocMap.nodup_insert h.remotes peer _, fun peer' r hr => ?_⟩
  rw [WorldState.setRemoteAttempt, remote?_insertRemote] at hr
  split at hr
  next =>
      cases hr
      split
      next r hr => exact h.strides peer r hr
      next => exact Nat.one_pos
  next => exact h.strides peer' r hr

theorem Change.ok {newId : ServerId → ConnectionId} {world world' : WorldState}
    (hchange : Change newId world world') (h : world.Ok) : world'.Ok := by
  cases hchange with
  | attempt peer transport status => exact h.setRemoteAttempt peer transport status _
  | pending peer transport => exact h.setRemoteAttempt peer transport .pending _
  | @mark peer f id stride =>
      refine ⟨h.signaling, AssocMap.nodup_modify h.remotes peer f, fun peer' r hr => ?_⟩
      rw [remote?_modifyRemote] at hr
      split at hr
      next =>
          obtain ⟨r', hr', rfl⟩ := Option.map_eq_some_iff.mp hr
          exact stride r' (h.strides peer' r' hr')
      next => exact h.strides peer' r hr
  | remove peer =>
      refine ⟨h.signaling, AssocMap.nodup_erase h.remotes peer, fun peer' r hr => ?_⟩
      rw [remote?_removeRemote] at hr
      split at hr
      next => cases hr
      next => exact h.strides peer' r hr
  | signaling remotes nodup =>
      refine ⟨nodup h.signaling, by rw [remotes]; exact h.remotes, fun peer r hr => ?_⟩
      rw [remote?, remotes] at hr
      exact h.strides peer r hr

end WorldState

namespace Server

open WorldState

/-- Both worlds are ones that a server can have. -/
structure WorldsOk (server : Server) : Prop where
  current : server.currentWorld.Ok
  ideal : (AssocMap.keys server.idealWorld.remotes).Nodup

theorem Changes.worldsOk {os : Os} {before after : Server} (hchanges : Changes os before after)
    (h : before.WorldsOk) : after.WorldsOk := by
  have hkept : ∀ world, Relation.ReflTransGen (WorldState.Change os.newConnectionId)
      before.currentWorld world → world.Ok := by
    intro world hworld
    induction hworld with
    | refl => exact h.current
    | tail _ hchange ih => exact hchange.ok ih
  exact ⟨hkept _ hchanges.current, hchanges.ideal h.ideal⟩

/-- The worlds of a server that runs are in order, when it starts with an ideal world that
has each peer once. -/
theorem worldsOk_of_run {hostId : ServerId} {config : Config} {idealWorld : WorldState}
    (hideal : (AssocMap.keys idealWorld.remotes).Nodup) {turns : List (Os × Event)}
    {self : Server} (hrun : Run.run step (Server.new hostId config idealWorld) turns = some self) :
    self.WorldsOk :=
  Run.invariant_all (fun _ _ _ h hstep => (changes_step hstep).worldsOk h)
    ⟨WorldState.ok_new, hideal⟩ hrun

/-- Each turn of a loop settles something and unsettles nothing else, and what the loop leaves
out is settled already. -/
theorem forEach_settles {α K : Type} {f : Server → α → Turn} {c : α → K} {J : Server → Prop}
    {G : Server → K → Prop} {as : List α}
    (hf : ∀ s, ∀ a ∈ as, J s →
      J (f s a).1 ∧ G (f s a).1 (c a) ∧ ∀ k, k ≠ c a → G s k → G (f s a).1 k)
    {self : Server} (hself : J self) (hrest : ∀ k, (∀ a ∈ as, c a ≠ k) → G self k) :
    J (self.forEach f as).1 ∧ ∀ k, G (self.forEach f as).1 k := by
  have hloop : J (self.forEach f as).1 ∧ (∀ a ∈ as, G (self.forEach f as).1 (c a)) ∧
      ∀ k, G self k → G (self.forEach f as).1 k := by
    clear hrest
    induction as generalizing self with
    | nil => exact ⟨hself, nofun, fun _ h => h⟩
    | cons a as ih =>
        obtain ⟨hfirst, hsettled, hothers⟩ := hf self a (by simp) hself
        obtain ⟨hlast, hsettled', hkept⟩ := ih (fun s b hb => hf s b (by simp [hb])) hfirst
        refine ⟨hlast, fun b hb => ?_, fun k hk => hkept k ?_⟩
        · rcases List.mem_cons.mp hb with rfl | hb
          · exact hkept _ hsettled
          · exact hsettled' b hb
        · by_cases heq : k = c a
          · rw [heq]
            exact hsettled
          · exact hothers k heq hk
  refine ⟨hloop.1, fun k => ?_⟩
  by_cases hk : ∃ a ∈ as, c a = k
  · obtain ⟨a, ha, rfl⟩ := hk
    exact hloop.2.1 a ha
  · exact hloop.2.2 k (hrest k fun a ha heq => hk ⟨a, ha, heq⟩)

/-- There is nothing to do for `fix_world` at this instant. -/
structure Settled (os : Os) (server : Server) : Prop where
  bindTimedOut : server.bindTimedOut os = []
  signalingNotWanted : server.signalingNotWanted = []
  toBind : server.toBind os = []
  toSync : server.toSync os = []
  notWanted : server.notWanted = []
  /-- What is left to start is waiting, or is the server itself. -/
  toStart : ∀ entry ∈ server.toStart os, ∀ os', startRemote os' server entry = (server, [])
  timedOut : server.timedOut os = []

theorem forEach_still {α : Type} {f : Server → α → Turn} {self : Server} {as : List α}
    (hf : ∀ a ∈ as, f self a = (self, [])) : self.forEach f as = (self, []) := by
  induction as with
  | nil => rfl
  | cons a as ih =>
      simp only [forEach, hf a (by simp), ih fun b hb => hf b (by simp [hb]), List.append_nil]

theorem fixWorld_of_settled {os os' : Os} {self : Server} (h : self.Settled os)
    (hnow : os'.now = os.now) (hsecs : os'.unixEpochSecs = os.unixEpochSecs) :
    self.fixWorld os' = (self, []) := by
  have htimedOut : self.bindTimedOut os' = [] := by
    rw [← h.bindTimedOut, bindTimedOut, bindTimedOut, hnow]
  have hbind : self.toBind os' = [] := by rw [← h.toBind, toBind, toBind, hnow]
  have hsync : self.toSync os' = [] := by rw [← h.toSync, toSync, toSync, hsecs]
  have hneeds : self.needsStart os' = self.needsStart os := by
    funext peer
    simp only [needsStart, hnow]
  have hstart : self.forEach (startRemote os') (self.toStart os') = (self, []) := by
    refine forEach_still fun entry hentry => h.toStart entry ?_ os'
    rwa [toStart, hneeds] at hentry
  have htime : self.timedOut os' = [] := by rw [← h.timedOut, timedOut, timedOut, hnow]
  simp only [fixWorld, fixWorldSignaling, fixWorldRemotes, fixWorldTimeouts, htimedOut,
    h.signalingNotWanted, hbind, hsync, h.notWanted, hstart, htime, forEach, List.append_nil]

/-! ## Signaling servers -/

section

variable (os : Os) (self : Server) (addr : Text)

/-- The bind has not timed out. -/
def BindsInTime : Prop :=
  ∀ s since, self.currentWorld.signaling? addr = some s → s.status = .binding since →
    os.now - since ≤ 10000

/-- The signaling server is one that the ideal world has. -/
def SignalingWanted : Prop :=
  self.currentWorld.signaling? addr ≠ none → self.idealWorld.signaling? addr ≠ none

/-- A bind was tried, and it is not time for the next try. -/
def BindTried : Prop :=
  self.idealWorld.signaling? addr ≠ none → ∃ s, self.currentWorld.signaling? addr = some s ∧
    s.status ≠ .pending ∧ ∀ nextRetryAt stride, s.status = .disconnected nextRetryAt stride →
      os.now < nextRetryAt

/-- The server knows who is trusted, or was told a moment ago. -/
def TrustTold : Prop :=
  ∀ s, self.currentWorld.signaling? addr = some s → s.status = .bound →
    sameHosts s.trusted self.idealWorld.trusted = false →
      ∃ t, s.trustSentAt = some t ∧ os.unixEpochSecs - t < 5

end

variable {os : Os} {ideal : WorldState}

theorem signaling?_failBind {self : Server} {addr addr' : Text} {s : SignalingState}
    (h : (self.failBind addr).1.currentWorld.signaling? addr' = some s) :
    addr' = addr ∧ s.status = .failed "bind timeout" ∨
      addr' ≠ addr ∧ self.currentWorld.signaling? addr' = some s := by
  by_cases hsame : addr' = addr
  · subst hsame
    obtain ⟨s', hget, hstatus⟩ := @status_upsertSignaling self.currentWorld addr'
      (fun s => { s with status := .failed "bind timeout" }) (.failed "bind timeout") fun _ => rfl
    cases hget.symm.trans h
    exact .inl ⟨rfl, hstatus⟩
  · exact .inr ⟨hsame, (signaling?_upsertSignaling_of_ne hsame _ _).symm.trans h⟩

theorem settles_failBind {self : Server} :
    (self.forEach failBind (self.bindTimedOut os)).1.idealWorld = self.idealWorld ∧
      ∀ addr, (self.forEach failBind (self.bindTimedOut os)).1.BindsInTime os addr := by
  refine forEach_settles (c := id) (J := fun s => s.idealWorld = self.idealWorld)
    (G := fun s addr => s.BindsInTime os addr) (fun s addr _ hs => ⟨hs, ?_, ?_⟩) rfl ?_
  · intro s' since hget hstatus
    rcases signaling?_failBind hget with ⟨_, hfailed⟩ | ⟨hne, _⟩
    · rw [hfailed] at hstatus
      cases hstatus
    · exact absurd rfl hne
  · intro addr' hne hintime s' since hget
    rcases signaling?_failBind hget with ⟨heq, _⟩ | ⟨_, hsame⟩
    · exact absurd heq hne
    · exact hintime s' since hsame
  · intro addr hrest s since hget hstatus
    by_contra hlate
    refine hrest addr (List.mem_filterMap.mpr ⟨(addr, s), AssocMap.mem_of_get hget, ?_⟩) rfl
    simp only [hstatus]
    exact if_pos (Nat.lt_of_not_le hlate)

theorem signaling?_dropSignaling (self : Server) (addr addr' : Text) :
    (self.dropSignaling addr).1.currentWorld.signaling? addr' =
      if addr' = addr then none else self.currentWorld.signaling? addr' :=
  signaling?_removeSignaling ..

theorem settles_dropSignaling {self : Server} (hintime : ∀ addr, self.BindsInTime os addr) :
    ((self.forEach dropSignaling self.signalingNotWanted).1.idealWorld = self.idealWorld ∧
      ∀ addr, (self.forEach dropSignaling self.signalingNotWanted).1.BindsInTime os addr) ∧
      ∀ addr, (self.forEach dropSignaling self.signalingNotWanted).1.SignalingWanted addr := by
  refine forEach_settles (c := id)
    (J := fun s => s.idealWorld = self.idealWorld ∧ ∀ addr, s.BindsInTime os addr)
    (G := fun s addr => s.SignalingWanted addr)
    (fun s addr _ hs => ⟨⟨hs.1, ?_⟩, ?_, ?_⟩) ⟨rfl, hintime⟩ ?_
  · intro addr' s' since hget
    rw [signaling?_dropSignaling] at hget
    split at hget
    next => cases hget
    next => exact hs.2 addr' s' since hget
  · intro hthere
    rw [signaling?_dropSignaling] at hthere
    exact absurd (if_pos rfl) hthere
  · intro addr' hne hwanted hthere
    rw [signaling?_dropSignaling, if_neg (by exact hne)] at hthere
    exact hwanted hthere
  · intro addr hrest hthere hnone
    obtain ⟨s, hget⟩ := Option.ne_none_iff_exists'.mp hthere
    refine hrest addr (List.mem_filter.mpr ⟨?_, by simp [hnone]⟩) rfl
    exact AssocMap.mem_keys (AssocMap.mem_of_get hget)

/-- After the try the server is binding, or the bind has failed. -/
theorem signaling?_bindSignaling (os : Os) (self : Server) (addr : Text) :
    ∃ s, (bindSignaling os self addr).1.currentWorld.signaling? addr = some s ∧
      (s.status = .binding os.now ∨ s.status = .failed "") := by
  simp only [bindSignaling]
  split
  next =>
      obtain ⟨s, hget, hstatus⟩ := @status_upsertSignaling self.currentWorld addr
        (fun s => { s with status := .binding os.now }) (.binding os.now) fun _ => rfl
      exact ⟨s, hget, .inl hstatus⟩
  next =>
      obtain ⟨s, hget, hstatus⟩ := @status_upsertSignaling
        (self.currentWorld.setSignalingBinding os.now addr) addr
        (fun s => { s with status := .failed "" }) (.failed "") fun _ => rfl
      exact ⟨s, hget, .inr hstatus⟩

theorem signaling?_bindSignaling_of_ne (os : Os) (self : Server) {addr addr' : Text}
    (hne : addr' ≠ addr) :
    (bindSignaling os self addr).1.currentWorld.signaling? addr' =
      self.currentWorld.signaling? addr' := by
  simp only [bindSignaling]
  split
  next => exact signaling?_upsertSignaling_of_ne hne _ _
  next =>
      exact (signaling?_upsertSignaling_of_ne hne _ _).trans
        (signaling?_upsertSignaling_of_ne hne _ _)

theorem idealWorld_bindSignaling (os : Os) (self : Server) (addr : Text) :
    (bindSignaling os self addr).1.idealWorld = self.idealWorld := by
  simp only [bindSignaling]
  split <;> rfl

theorem settles_bindSignaling {self : Server} (hintime : ∀ addr, self.BindsInTime os addr)
    (hwanted : ∀ addr, self.SignalingWanted addr) :
    ((self.forEach (bindSignaling os) (self.toBind os)).1.idealWorld = self.idealWorld ∧
      (∀ addr, (self.forEach (bindSignaling os) (self.toBind os)).1.BindsInTime os addr) ∧
      ∀ addr, (self.forEach (bindSignaling os) (self.toBind os)).1.SignalingWanted addr) ∧
      ∀ addr, (self.forEach (bindSignaling os) (self.toBind os)).1.BindTried os addr := by
  refine forEach_settles (c := id)
    (J := fun s => s.idealWorld = self.idealWorld ∧ (∀ addr, s.BindsInTime os addr) ∧
      ∀ addr, s.SignalingWanted addr)
    (G := fun s addr => s.BindTried os addr) ?_ ⟨rfl, hintime, hwanted⟩ ?_
  · rintro s addr hmem ⟨hideal, hintime, hwanted⟩
    have hideal' : (bindSignaling os s addr).1.idealWorld = self.idealWorld :=
      (idealWorld_bindSignaling os s addr).trans hideal
    obtain ⟨new, hnew, hstatus⟩ := signaling?_bindSignaling os s addr
    refine ⟨⟨hideal', fun addr' s' since hget hbinding => ?_, fun addr' hthere => ?_⟩,
      fun _ => ⟨new, hnew, ?_, fun nextRetryAt stride hdisconnected => ?_⟩,
      fun addr' hne htried hthere => ?_⟩
    · by_cases hsame : addr' = addr
      · subst hsame
        cases hnew.symm.trans hget
        rcases hstatus with hstatus | hstatus
        · rw [hstatus] at hbinding
          cases hbinding
          simp
        · rw [hstatus] at hbinding
          cases hbinding
      · rw [signaling?_bindSignaling_of_ne os s hsame] at hget
        exact hintime addr' s' since hget hbinding
    · rw [hideal']
      by_cases hsame : addr' = addr
      · subst hsame
        obtain ⟨entry, hentry, heq⟩ := List.mem_map.mp (List.mem_filter.mp hmem).1
        rw [← heq]
        exact AssocMap.get_ne_none_of_mem hentry
      · rw [signaling?_bindSignaling_of_ne os s hsame] at hthere
        rw [← hideal]
        exact hwanted addr' hthere
    · rcases hstatus with hstatus | hstatus <;> simp [hstatus]
    · rcases hstatus with hstatus | hstatus <;> simp [hstatus] at hdisconnected
    · rw [signaling?_bindSignaling_of_ne os s (show addr' ≠ addr from hne)]
      rw [idealWorld_bindSignaling] at hthere
      exact htried hthere
  · intro addr hrest hideal
    have hquiet : addr ∉ self.toBind os := fun hdue => hrest addr hdue rfl
    have hkey : addr ∈ AssocMap.keys self.idealWorld.signaling := by
      obtain ⟨s, hget⟩ := Option.ne_none_iff_exists'.mp hideal
      exact AssocMap.mem_keys (AssocMap.mem_of_get hget)
    simp only [toBind, List.mem_filter, hkey, true_and] at hquiet
    cases hget : self.currentWorld.signaling? addr with
    | none => simp [hget] at hquiet
    | some s =>
        refine ⟨s, rfl, fun hpending => ?_, fun nextRetryAt stride hdisconnected => ?_⟩
        · simp [hget, hpending] at hquiet
        · simpa [hget, hdisconnected] using hquiet

theorem signaling?_syncTrust (os : Os) (self : Server) (addr addr' : Text) :
    (syncTrust os self addr).1.currentWorld.signaling? addr' =
      if addr' = addr then (self.currentWorld.signaling? addr').map fun s =>
        { s with trustSentAt := some os.unixEpochSecs }
      else self.currentWorld.signaling? addr' :=
  signaling?_modifySignaling ..

/-- A state after the signaling server was told has the status of one before. -/
theorem status_syncTrust {self : Server} {addr addr' : Text} {s : SignalingState}
    (h : (syncTrust os self addr).1.currentWorld.signaling? addr' = some s) :
    ∃ s', self.currentWorld.signaling? addr' = some s' ∧ s'.status = s.status := by
  rw [signaling?_syncTrust] at h
  split at h
  next heq =>
      obtain ⟨s', hget, rfl⟩ := Option.map_eq_some_iff.mp h
      exact ⟨s', hget, rfl⟩
  next => exact ⟨s, h, rfl⟩

theorem exists_syncTrust {self : Server} {addr addr' : Text} {s : SignalingState}
    (h : self.currentWorld.signaling? addr' = some s) :
    ∃ s', (syncTrust os self addr).1.currentWorld.signaling? addr' = some s' ∧
      s'.status = s.status := by
  rw [signaling?_syncTrust]
  split
  next =>
      rw [h]
      exact ⟨_, rfl, rfl⟩
  next => exact ⟨s, h, rfl⟩

theorem settles_syncTrust {self : Server} (hintime : ∀ addr, self.BindsInTime os addr)
    (hwanted : ∀ addr, self.SignalingWanted addr) (htried : ∀ addr, self.BindTried os addr) :
    ((self.forEach (syncTrust os) (self.toSync os)).1.idealWorld = self.idealWorld ∧
      (∀ addr, (self.forEach (syncTrust os) (self.toSync os)).1.BindsInTime os addr) ∧
      (∀ addr, (self.forEach (syncTrust os) (self.toSync os)).1.SignalingWanted addr) ∧
      ∀ addr, (self.forEach (syncTrust os) (self.toSync os)).1.BindTried os addr) ∧
      ∀ addr, (self.forEach (syncTrust os) (self.toSync os)).1.TrustTold os addr := by
  refine forEach_settles (c := id)
    (J := fun s => s.idealWorld = self.idealWorld ∧ (∀ addr, s.BindsInTime os addr) ∧
      (∀ addr, s.SignalingWanted addr) ∧ ∀ addr, s.BindTried os addr)
    (G := fun s addr => s.TrustTold os addr) ?_ ⟨rfl, hintime, hwanted, htried⟩ ?_
  · intro s addr _ ⟨hideal, hintime, hwanted, htried⟩
    refine ⟨⟨hideal, fun addr' s' since hget hbinding => ?_, fun addr' hthere => ?_,
      fun addr' hthere => ?_⟩, fun s' hget _ _ => ?_, fun addr' hne htold s' hget => ?_⟩
    · obtain ⟨s'', hget', hstatus⟩ := status_syncTrust hget
      exact hintime addr' s'' since hget' (hstatus.trans hbinding)
    · obtain ⟨s', hget⟩ := Option.ne_none_iff_exists'.mp hthere
      obtain ⟨s'', hget', _⟩ := status_syncTrust hget
      exact hwanted addr' (by rw [hget']; exact Option.some_ne_none _)
    · obtain ⟨s', hget, hpending, hlater⟩ := htried addr' hthere
      obtain ⟨s'', hget', hstatus⟩ := @exists_syncTrust os s addr addr' s' hget
      refine ⟨s'', hget', ?_, ?_⟩
      · rwa [hstatus]
      · rwa [hstatus]
    · have hsent := (signaling?_syncTrust os s addr addr).symm.trans hget
      rw [if_pos rfl] at hsent
      obtain ⟨_, _, rfl⟩ := Option.map_eq_some_iff.mp hsent
      exact ⟨_, rfl, by simp⟩
    · rw [signaling?_syncTrust, if_neg (by exact hne)] at hget
      exact htold s' hget
  · intro addr hrest s hget hbound hother
    have hquiet : ¬(!s.trustSentAt.any fun t => decide (os.unixEpochSecs - t < 5)) = true := by
      intro hdue
      refine hrest addr (List.mem_map.mpr ⟨(addr, s), ?_, rfl⟩) rfl
      refine List.mem_filter.mpr ⟨AssocMap.mem_of_get hget, ?_⟩
      simp [hbound, hother, hdue]
    cases hsent : s.trustSentAt with
    | none => simp [hsent] at hquiet
    | some t => exact ⟨t, rfl, by simpa [hsent] using hquiet⟩

/-! ## Peers -/

section

variable (os : Os) (self : Server) (peer : ServerId)

/-- The peer is one that the ideal world has. -/
def RemoteWanted : Prop :=
  self.currentWorld.remote? peer ≠ none → self.idealWorld.remote? peer ≠ none

/-- There is no need to start a connection, or the peer is the server itself, or it is noted
as waiting for the signaling server. -/
def Started : Prop :=
  ∀ r, self.idealWorld.remote? peer = some r →
    self.needsStart os peer = false ∨
      (peer = self.hostId ∧ self.signalingReady r.transport = true) ∨
      (self.signalingReady r.transport = false ∧ ∃ cur,
        self.currentWorld.remote? peer = some cur ∧ cur.status = .pending ∧
          cur.transport = r.transport)

/-- The attempt to connect has not timed out. -/
def ConnectsInTime : Prop :=
  ∀ r, self.currentWorld.remote? peer = some r →
    (∀ since, r.status = .connectingStage1 since → os.now - since ≤ 10000) ∧
      ∀ since, r.status = .connectingStage2 since → os.now - since ≤ 30000

end

/-- What the passes over the peers leave alone. -/
structure SameAround (before after : Server) : Prop where
  idealWorld : after.idealWorld = before.idealWorld
  hostId : after.hostId = before.hostId
  signaling : after.currentWorld.signaling = before.currentWorld.signaling

theorem SameAround.refl (server : Server) : SameAround server server := ⟨rfl, rfl, rfl⟩

theorem SameAround.trans {s t u : Server} (h : SameAround s t) (h' : SameAround t u) :
    SameAround s u :=
  ⟨h'.idealWorld.trans h.idealWorld, h'.hostId.trans h.hostId, h'.signaling.trans h.signaling⟩

theorem SameAround.signaling? {before after : Server} (h : SameAround before after) :
    after.currentWorld.signaling? = before.currentWorld.signaling? := by
  funext addr
  rw [WorldState.signaling?, h.signaling, WorldState.signaling?]

theorem SameAround.signalingReady {before after : Server} (h : SameAround before after) :
    after.signalingReady = before.signalingReady := by
  funext transport
  cases transport with
  | sctp addr => simp only [Server.signalingReady, h.signaling?]
  | sshStdio => rfl

theorem sameAround_startRemote (os : Os) (self : Server) (entry : ServerId × TransportConfig) :
    SameAround self (startRemote os self entry).1 := by
  obtain ⟨peer, transport⟩ := entry
  simp only [startRemote]
  split
  next =>
      simp only [tryConnectRemote]
      split
      next => exact .refl self
      next =>
          cases transport with
          | sshStdio sshHost command projects =>
              simp only [tryConnectRemoteSsh]
              split <;> exact ⟨rfl, rfl, rfl⟩
          | sctp addr =>
              simp only [tryConnectRemoteSctp, sendConnectMessage]
              split <;> exact ⟨rfl, rfl, rfl⟩
  next => exact ⟨rfl, rfl, rfl⟩

theorem sameAround_timeOut (os : Os) (self : Server) (entry : ServerId × String) :
    SameAround self (timeOut os self entry).1 := by
  simp only [timeOut]
  split <;> exact ⟨rfl, rfl, rfl⟩

theorem needsStart_of_failed {self : Server} {peer : ServerId} {r : RemoteState}
    (hget : self.currentWorld.remote? peer = some r) {reason : String}
    (hstatus : r.status = .failed reason) : self.needsStart os peer = false := by
  simp only [needsStart, hget, hstatus]

theorem needsStart_of_connecting {self : Server} {peer : ServerId} {r : RemoteState}
    (hget : self.currentWorld.remote? peer = some r) {since : Instant}
    (hstatus : r.status = .connectingStage1 since) : self.needsStart os peer = false := by
  simp only [needsStart, hget, hstatus]

/-- Another peer's record is not touched. -/
theorem remote?_startRemote_of_ne (os : Os) (self : Server) (entry : ServerId × TransportConfig)
    {peer : ServerId} (hne : peer ≠ entry.1) :
    (startRemote os self entry).1.currentWorld.remote? peer =
      self.currentWorld.remote? peer := by
  obtain ⟨q, transport⟩ := entry
  have hattempt (status : RemoteStatus) (id : ConnectionId) :
      (self.currentWorld.setRemoteAttempt q transport status id).remote? peer =
        self.currentWorld.remote? peer :=
    (remote?_insertRemote ..).trans (if_neg hne)
  have hfailed (world : WorldState) (reason : String) :
      (world.markRemoteFailed q reason).remote? peer = world.remote? peer :=
    (remote?_modifyRemote ..).trans (if_neg hne)
  simp only [startRemote]
  split
  next =>
      simp only [tryConnectRemote]
      split
      next => rfl
      next =>
          cases transport with
          | sshStdio sshHost command projects =>
              simp only [tryConnectRemoteSsh]
              split
              next => exact (hfailed _ _).trans (hattempt _ _)
              next => exact hattempt _ _
          | sctp addr =>
              simp only [tryConnectRemoteSctp, sendConnectMessage]
              split
              next => exact hattempt _ _
              next => exact (hfailed _ _).trans (hattempt _ _)
  next => exact hattempt _ _

/-- The peer's own record. -/
theorem started_startRemote (os : Os) (self : Server) (peer : ServerId)
    (transport : TransportConfig) :
    (startRemote os self (peer, transport)).1.needsStart os peer = false ∨
      (peer = self.hostId ∧ self.signalingReady transport = true) ∨
      (self.signalingReady transport = false ∧ ∃ cur,
        (startRemote os self (peer, transport)).1.currentWorld.remote? peer = some cur ∧
          cur.status = .pending ∧ cur.transport = transport) := by
  have hattempt (status : RemoteStatus) (id : ConnectionId) :
      ∃ r, (self.currentWorld.setRemoteAttempt peer transport status id).remote? peer = some r ∧
        r.transport = transport ∧ r.status = status := by
    obtain ⟨r, htransport, hstatus, hget⟩ :=
      remote?_setRemoteAttempt self.currentWorld peer peer transport status id
    exact ⟨r, by rw [hget, if_pos rfl], htransport, hstatus⟩
  cases hready : self.signalingReady transport with
  | false =>
      right
      right
      simp only [startRemote, hready, Bool.false_eq_true, if_false]
      obtain ⟨r, hget, htransport, hstatus⟩ := hattempt .pending _
      exact ⟨trivial, r, hget, hstatus, htransport⟩
  | true =>
      by_cases hself : peer = self.hostId
      · exact .inr (.inl ⟨hself, rfl⟩)
      · left
        obtain ⟨r, hget, _, hstatus⟩ :=
          hattempt (.connectingStage1 os.now) (os.newConnectionId peer)
        have hfailed (reason : String) :
            ((self.currentWorld.setRemoteConnecting1 os.now (os.newConnectionId peer) peer
              transport).markRemoteFailed peer reason).remote? peer =
                some { r with status := .failed reason } := by
          rw [markRemoteFailed, remote?_modifyRemote, if_pos rfl, setRemoteConnecting1, hget]
          rfl
        simp only [startRemote, hready, if_true, tryConnectRemote, hself, if_false]
        cases transport with
        | sshStdio sshHost command projects =>
            simp only [tryConnectRemoteSsh]
            split
            next => exact needsStart_of_failed (hfailed _) rfl
            next => exact needsStart_of_connecting hget hstatus
        | sctp addr =>
            simp only [tryConnectRemoteSctp, sendConnectMessage]
            split
            next => exact needsStart_of_connecting hget hstatus
            next => exact needsStart_of_failed (hfailed _) rfl

theorem settles_dropRemote (self : Server) :
    SameAround self (self.forEach dropRemote self.notWanted).1 ∧
      ∀ peer, (self.forEach dropRemote self.notWanted).1.RemoteWanted peer := by
  have hget (s : Server) (peer peer' : ServerId) :
      (s.dropRemote peer).1.currentWorld.remote? peer' =
        if peer' = peer then none else s.currentWorld.remote? peer' := remote?_removeRemote ..
  refine forEach_settles (c := id) (J := fun s => SameAround self s)
    (G := fun s peer => s.RemoteWanted peer)
    (fun s peer _ hs => ⟨hs.trans ⟨rfl, rfl, rfl⟩, ?_, ?_⟩) (.refl self) ?_
  · intro hthere
    rw [hget] at hthere
    exact absurd (if_pos rfl) hthere
  · intro peer' hne hwanted hthere
    rw [hget, if_neg (by exact hne)] at hthere
    exact hwanted hthere
  · intro peer hrest hthere hnone
    obtain ⟨r, hr⟩ := Option.ne_none_iff_exists'.mp hthere
    refine hrest peer (List.mem_filter.mpr ⟨?_, by simp [hnone]⟩) rfl
    exact AssocMap.mem_keys (AssocMap.mem_of_get hr)

/-- An entry that is to be started is the one of the ideal world. -/
theorem mem_toStart {self : Server} (hideal : (AssocMap.keys self.idealWorld.remotes).Nodup)
    {entry : ServerId × TransportConfig} (hmem : entry ∈ self.toStart os) :
    ∃ r, self.idealWorld.remote? entry.1 = some r ∧ r.transport = entry.2 := by
  obtain ⟨⟨peer, r⟩, hr, rfl⟩ := List.mem_map.mp hmem
  exact ⟨r, AssocMap.get_of_mem hideal (List.mem_filter.mp hr).1, rfl⟩

theorem Started.of_same {before after : Server} {peer : ServerId}
    (h : before.Started os peer) (haround : SameAround before after)
    (hsame : after.currentWorld.remote? peer = before.currentWorld.remote? peer) :
    after.Started os peer := by
  intro r hr
  rw [haround.idealWorld] at hr
  have hneeds : after.needsStart os peer = before.needsStart os peer := by
    simp only [needsStart, hsame]
  rw [hneeds, hsame, haround.hostId, haround.signalingReady]
  exact h r hr

theorem settles_startRemote {self : Server}
    (hideal : (AssocMap.keys self.idealWorld.remotes).Nodup)
    (hwanted : ∀ peer, self.RemoteWanted peer) :
    (SameAround self (self.forEach (startRemote os) (self.toStart os)).1 ∧
      ∀ peer, (self.forEach (startRemote os) (self.toStart os)).1.RemoteWanted peer) ∧
      ∀ peer, (self.forEach (startRemote os) (self.toStart os)).1.Started os peer := by
  refine forEach_settles (c := Prod.fst)
    (J := fun s => SameAround self s ∧ ∀ peer, s.RemoteWanted peer)
    (G := fun s peer => s.Started os peer) ?_ ⟨.refl self, hwanted⟩ ?_
  · intro s entry hmem ⟨haround, hwanted⟩
    have hstep := sameAround_startRemote os s entry
    obtain ⟨r, hr, htransport⟩ := mem_toStart hideal hmem
    refine ⟨⟨haround.trans hstep, fun peer hthere => ?_⟩, fun r' hr' => ?_,
      fun peer hne hstarted r' hr' => ?_⟩
    · rw [hstep.idealWorld]
      by_cases hsame : peer = entry.1
      · rw [hsame, haround.idealWorld, hr]
        exact Option.some_ne_none r
      · rw [remote?_startRemote_of_ne os s entry hsame] at hthere
        exact hwanted peer hthere
    · rw [hstep.idealWorld, haround.idealWorld, hr] at hr'
      cases hr'
      rw [hstep.hostId, hstep.signalingReady, htransport]
      exact started_startRemote os s entry.1 entry.2
    · exact hstarted.of_same hstep (remote?_startRemote_of_ne os s entry hne) r' hr'
  · intro peer hrest r hr
    left
    by_contra hneeds
    refine hrest (peer, r.transport) (List.mem_map.mpr ⟨(peer, r), ?_, rfl⟩) rfl
    exact List.mem_filter.mpr ⟨AssocMap.mem_of_get hr, by simpa using hneeds⟩

/-- Records are left as they are, but for the one that is marked. -/
theorem remote?_timeOut (os : Os) (self : Server) (entry : ServerId × String) (peer : ServerId) :
    ((timeOut os self entry).1.currentWorld.remote? peer = self.currentWorld.remote? peer ∧
        (peer = entry.1 → self.currentWorld.remote? peer = none)) ∨
      peer = entry.1 ∧ ∃ r r', self.currentWorld.remote? peer = some r ∧
        (timeOut os self entry).1.currentWorld.remote? peer = some r' ∧
          (r'.status = .failed entry.2 ∨
            ∃ stride, r'.status = .disconnected (os.now + r.retryStrideSecs * 1000) stride) := by
  by_cases heq : peer = entry.1
  · cases hr : self.currentWorld.remote? peer with
    | none =>
        refine .inl ⟨?_, fun _ => rfl⟩
        simp only [timeOut]
        split <;> exact (remote?_modifyRemote ..).trans (by rw [hr]; exact ite_self none)
    | some r =>
        refine .inr ⟨heq, r, ?_⟩
        simp only [timeOut]
        split
        next =>
            exact ⟨_, trivial, (remote?_modifyRemote ..).trans (by rw [if_pos heq, hr]; rfl),
              .inr ⟨_, rfl⟩⟩
        next =>
            exact ⟨_, trivial, (remote?_modifyRemote ..).trans (by rw [if_pos heq, hr]; rfl),
              .inl rfl⟩
  · refine .inl ⟨?_, fun h => absurd h heq⟩
    simp only [timeOut]
    split <;> exact (remote?_modifyRemote ..).trans (if_neg heq)

theorem settles_timeOut {self : Server} (hok : self.WorldsOk)
    (hwanted : ∀ peer, self.RemoteWanted peer) (hstarted : ∀ peer, self.Started os peer) :
    (SameAround self (self.forEach (timeOut os) (self.timedOut os)).1 ∧
      (self.forEach (timeOut os) (self.timedOut os)).1.WorldsOk ∧
      (∀ peer, (self.forEach (timeOut os) (self.timedOut os)).1.RemoteWanted peer) ∧
      ∀ peer, (self.forEach (timeOut os) (self.timedOut os)).1.Started os peer) ∧
      ∀ peer, (self.forEach (timeOut os) (self.timedOut os)).1.ConnectsInTime os peer := by
  refine forEach_settles (c := Prod.fst)
    (J := fun s => SameAround self s ∧ s.WorldsOk ∧ (∀ peer, s.RemoteWanted peer) ∧
      ∀ peer, s.Started os peer)
    (G := fun s peer => s.ConnectsInTime os peer) ?_ ⟨.refl self, hok, hwanted, hstarted⟩ ?_
  · intro s entry _ ⟨haround, hok, hwanted, hstarted⟩
    have hstep := sameAround_timeOut os s entry
    refine ⟨⟨haround.trans hstep, (changes_timeOut os s entry).worldsOk hok, fun peer hthere => ?_,
      fun peer r hr => ?_⟩, fun r hr => ?_, fun peer hne hintime r hr => ?_⟩
    · rw [hstep.idealWorld]
      refine hwanted peer ?_
      rcases remote?_timeOut os s entry peer with ⟨hsame, _⟩ | ⟨_, r, _, hr, _⟩
      · rwa [hsame] at hthere
      · rw [hr]
        exact Option.some_ne_none r
    · rcases remote?_timeOut os s entry peer with ⟨hsame, _⟩ | ⟨_, r₀, r', hr₀, hr', hstatus⟩
      · exact (hstarted peer).of_same hstep hsame r hr
      · left
        rcases hstatus with hstatus | ⟨stride, hstatus⟩
        · exact needsStart_of_failed hr' hstatus
        · have hpause := hok.current.strides peer r₀ hr₀
          simp only [needsStart, hr', hstatus]
          exact decide_eq_false (Nat.not_le_of_lt
            (Nat.lt_add_of_pos_right (Nat.mul_pos hpause (by decide))))
    · rcases remote?_timeOut os s entry entry.1 with ⟨hsame, hnone⟩ | ⟨_, _, r', _, hr', hstatus⟩
      · rw [hsame, hnone rfl] at hr
        cases hr
      · cases hr'.symm.trans hr
        rcases hstatus with hstatus | ⟨_, hstatus⟩ <;> simp [hstatus]
    · rcases remote?_timeOut os s entry peer with ⟨hsame, _⟩ | ⟨heq, _⟩
      · exact hintime r (hsame.symm.trans hr)
      · exact absurd heq hne
  · intro peer hrest r hr
    have hmem := AssocMap.mem_of_get hr
    refine ⟨fun since hstatus => ?_, fun since hstatus => ?_⟩
    · by_contra hlate
      refine hrest (peer, "stage1 timeout") (List.mem_filterMap.mpr ⟨(peer, r), hmem, ?_⟩) rfl
      simp only [hstatus]
      exact if_pos (Nat.lt_of_not_le hlate)
    · by_contra hlate
      refine hrest (peer, "stage2 timeout") (List.mem_filterMap.mpr ⟨(peer, r), hmem, ?_⟩) rfl
      simp only [hstatus]
      exact if_pos (Nat.lt_of_not_le hlate)

/-! ## One run settles -/

/-- When every signaling server and every peer is settled, the lists are empty. -/
theorem settled_of_forall {self : Server} (hok : self.WorldsOk)
    (hintime : ∀ addr, self.BindsInTime os addr) (hsignaling : ∀ addr, self.SignalingWanted addr)
    (htried : ∀ addr, self.BindTried os addr) (htold : ∀ addr, self.TrustTold os addr)
    (hwanted : ∀ peer, self.RemoteWanted peer) (hstarted : ∀ peer, self.Started os peer)
    (hconnects : ∀ peer, self.ConnectsInTime os peer) : self.Settled os where
  bindTimedOut := by
    refine List.filterMap_eq_nil_iff.mpr fun entry hentry => ?_
    have hget := AssocMap.get_of_mem hok.current.signaling hentry
    split
    next since hstatus =>
        exact if_neg (Nat.not_lt_of_le (hintime entry.1 entry.2 since hget hstatus))
    next => rfl
  signalingNotWanted := by
    refine List.filter_eq_nil_iff.mpr fun addr haddr => ?_
    obtain ⟨entry, hentry, rfl⟩ := List.mem_map.mp haddr
    have hideal := hsignaling entry.1 (AssocMap.get_ne_none_of_mem hentry)
    rwa [Option.isNone_iff_eq_none]
  toBind := by
    refine List.filter_eq_nil_iff.mpr fun addr haddr => ?_
    obtain ⟨entry, hentry, rfl⟩ := List.mem_map.mp haddr
    obtain ⟨s, hget, hpending, hlater⟩ := htried entry.1 (AssocMap.get_ne_none_of_mem hentry)
    rw [hget]
    dsimp only
    split
    next hstatus => exact absurd hstatus hpending
    next nextRetryAt stride hstatus =>
        simpa using hlater nextRetryAt stride hstatus
    next => exact Bool.false_ne_true
  toSync := by
    refine List.map_eq_nil_iff.mpr (List.filter_eq_nil_iff.mpr fun entry hentry hdue => ?_)
    have hget := AssocMap.get_of_mem hok.current.signaling hentry
    simp only [Bool.and_eq_true, beq_iff_eq, Bool.not_eq_true'] at hdue
    obtain ⟨⟨hbound, hother⟩, hsilent⟩ := hdue
    obtain ⟨t, hsent, hrecent⟩ := htold entry.1 entry.2 hget hbound hother
    simp [hsent, hrecent] at hsilent
  notWanted := by
    refine List.filter_eq_nil_iff.mpr fun peer hpeer => ?_
    obtain ⟨entry, hentry, rfl⟩ := List.mem_map.mp hpeer
    have hideal := hwanted entry.1 (AssocMap.get_ne_none_of_mem hentry)
    rwa [Option.isNone_iff_eq_none]
  toStart entry hentry os' := by
    obtain ⟨r, hr, htransport⟩ := mem_toStart hok.ideal hentry
    have hneeds : self.needsStart os entry.1 = true := by
      obtain ⟨_, hmem, rfl⟩ := List.mem_map.mp hentry
      exact (List.mem_filter.mp hmem).2
    obtain ⟨peer, transport⟩ := entry
    dsimp only at hr htransport hneeds
    subst htransport
    rcases hstarted peer r hr with hstill | ⟨hself, hready⟩ | ⟨hready, cur, hcur, hpending, hsame⟩
    · rw [hneeds] at hstill
      cases hstill
    · simp only [startRemote, hready, if_true, tryConnectRemote, hself]
    · rw [← hsame] at hready ⊢
      simp only [startRemote, hready, Bool.false_eq_true, if_false,
        setRemotePending_of_pending hcur hpending]
  timedOut := by
    refine List.filterMap_eq_nil_iff.mpr fun entry hentry => ?_
    have hget := AssocMap.get_of_mem hok.current.remotes hentry
    obtain ⟨hstage1, hstage2⟩ := hconnects entry.1 entry.2 hget
    split
    next since hstatus => exact if_neg (Nat.not_lt_of_le (hstage1 since hstatus))
    next since hstatus => exact if_neg (Nat.not_lt_of_le (hstage2 since hstatus))
    next => rfl

/-- The signaling servers are settled after their pass. -/
theorem settles_fixWorldSignaling (os : Os) (self : Server) :
    (self.fixWorldSignaling os).1.idealWorld = self.idealWorld ∧
      (∀ addr, (self.fixWorldSignaling os).1.BindsInTime os addr) ∧
      (∀ addr, (self.fixWorldSignaling os).1.SignalingWanted addr) ∧
      (∀ addr, (self.fixWorldSignaling os).1.BindTried os addr) ∧
      ∀ addr, (self.fixWorldSignaling os).1.TrustTold os addr := by
  obtain ⟨hfailed, hintime⟩ := @settles_failBind os self
  obtain ⟨⟨hdropped, hintime⟩, hwanted⟩ := settles_dropSignaling hintime
  obtain ⟨⟨hbound, hintime, hwanted⟩, htried⟩ := settles_bindSignaling hintime hwanted
  obtain ⟨⟨hsynced, hintime, hwanted, htried⟩, htold⟩ :=
    settles_syncTrust hintime hwanted htried
  simp only [fixWorldSignaling]
  exact ⟨hsynced.trans (hbound.trans (hdropped.trans hfailed)), hintime, hwanted, htried, htold⟩

theorem settles_fixWorldRemotes {self : Server}
    (hideal : (AssocMap.keys self.idealWorld.remotes).Nodup) :
    (SameAround self (self.fixWorldRemotes os).1 ∧
      ∀ peer, (self.fixWorldRemotes os).1.RemoteWanted peer) ∧
      ∀ peer, (self.fixWorldRemotes os).1.Started os peer := by
  obtain ⟨haround, hwanted⟩ := settles_dropRemote self
  rw [← haround.idealWorld] at hideal
  obtain ⟨⟨haround', hwanted⟩, hstarted⟩ := @settles_startRemote os _ hideal hwanted
  exact ⟨⟨haround.trans haround', hwanted⟩, hstarted⟩

theorem settled_fixWorld {self : Server} (hok : self.WorldsOk) :
    (self.fixWorld os).1.idealWorld = self.idealWorld ∧ (self.fixWorld os).1.Settled os := by
  obtain ⟨hideal, hintime, hsignaling, htried, htold⟩ := settles_fixWorldSignaling os self
  have hbound := (changes_fixWorldSignaling os self).worldsOk hok
  obtain ⟨⟨haround, hwanted⟩, hstarted⟩ := @settles_fixWorldRemotes os _ hbound.ideal
  have hremotes := (changes_fixWorldRemotes os _).worldsOk hbound
  obtain ⟨⟨haround', hafter, hwanted, hstarted⟩, hconnects⟩ :=
    settles_timeOut hremotes hwanted hstarted
  have hsame := haround.trans haround'
  simp only [fixWorld, fixWorldTimeouts]
  refine ⟨hsame.idealWorld.trans hideal, settled_of_forall hafter ?_ ?_ ?_ ?_ hwanted hstarted
    hconnects⟩
  · simpa only [BindsInTime, hsame.signaling?] using hintime
  · simpa only [SignalingWanted, hsame.signaling?, hsame.idealWorld] using hsignaling
  · simpa only [BindTried, hsame.signaling?, hsame.idealWorld] using htried
  · simpa only [TrustTold, hsame.signaling?, hsame.idealWorld] using htold

/-- A second run of `fix_world` at the same instant does nothing, however binds and messages
fare in either.  What the current world has after a run the ideal world has, too. -/
theorem fixWorld_settles {self : Server} (hok : self.WorldsOk) {os os' : Os}
    (hnow : os'.now = os.now) (hsecs : os'.unixEpochSecs = os.unixEpochSecs) :
    (self.fixWorld os).1.fixWorld os' = ((self.fixWorld os).1, []) ∧
      (∀ peer ∈ AssocMap.keys (self.fixWorld os).1.currentWorld.remotes,
        peer ∈ AssocMap.keys self.idealWorld.remotes) ∧
      ∀ addr ∈ AssocMap.keys (self.fixWorld os).1.currentWorld.signaling,
        addr ∈ AssocMap.keys self.idealWorld.signaling := by
  obtain ⟨hideal, hsettled⟩ := @settled_fixWorld os self hok
  refine ⟨fixWorld_of_settled hsettled hnow hsecs, fun peer hpeer => ?_, fun addr haddr => ?_⟩
  · have hwanted := List.filter_eq_nil_iff.mp hsettled.notWanted peer hpeer
    rw [Option.isNone_iff_eq_none, hideal] at hwanted
    obtain ⟨r, hr⟩ := Option.ne_none_iff_exists'.mp hwanted
    exact AssocMap.mem_keys (AssocMap.mem_of_get hr)
  · have hwanted := List.filter_eq_nil_iff.mp hsettled.signalingNotWanted addr haddr
    rw [Option.isNone_iff_eq_none, hideal] at hwanted
    obtain ⟨s, hs⟩ := Option.ne_none_iff_exists'.mp hwanted
    exact AssocMap.mem_keys (AssocMap.mem_of_get hs)

/-- A server that is to connect to the peer 5 through a signaling server. -/
def starting : Server :=
  .new 0 ⟨none, [], []⟩
    ((WorldState.new.markSignalingBound ['s']).insertRemote 5
      { transport := .sctp ['s'], status := .connected, everConnected := false
        retryStrideSecs := initialRetryStrideSecs, connectionId := 1 })

/-- The bind succeeds in the first run, and could not in the second. -/
theorem fixWorld_settles_starting :
    (starting.fixWorld Os.bare).2 ≠ [] ∧
      (starting.fixWorld Os.bare).1.fixWorld { Os.bare with signalingBind := fun _ => false } =
        ((starting.fixWorld Os.bare).1, []) ∧
      (∀ peer ∈ AssocMap.keys (starting.fixWorld Os.bare).1.currentWorld.remotes,
        peer ∈ AssocMap.keys starting.idealWorld.remotes) ∧
      ∀ addr ∈ AssocMap.keys (starting.fixWorld Os.bare).1.currentWorld.signaling,
        addr ∈ AssocMap.keys starting.idealWorld.signaling :=
  ⟨by decide, fixWorld_settles ⟨ok_new, by decide⟩ rfl rfl⟩

end Server

end CollabMode
