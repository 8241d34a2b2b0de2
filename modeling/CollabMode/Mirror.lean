import CollabMode.Ack
import CollabMode.Passing

/-!
# What a peer's document mirrors

The host's document shows its history (`Hosts`).  A peer that has taken the first
`c` ops of it shows what the host had then, and on top of that its local ops
(`Mirrors`).  Here is what each step of the system does to this.

Three things are asked for.  An edit must fit the text that the peer shows
(`EditorOp.FitsText`).  An op of another site must agree with the local ops
(`Op.Agrees`).  And what an undo takes from the undo queue must be an own op that
stands in the peer's history as it stands in the host's, with everything after it
(`UndoesAsOrdered`).
-/

namespace CollabMode

open Tombstone

/-- The operations of a history. -/
abbrev opsOf (history : List (FatOp Op)) : List Op := history.map FatOp.op

theorem opsOf_append (xs ys : List (FatOp Op)) : opsOf (xs ++ ys) = opsOf xs ++ opsOf ys :=
  List.map_append

theorem opsOf_drop (xs : List (FatOp Op)) (k : Nat) : opsOf (xs.drop k) = (opsOf xs).drop k :=
  List.map_drop

theorem payloads_fst (xs : List (FatOp Op)) : (payloads xs).map Prod.fst = opsOf xs :=
  List.map_map

/-- A transform changes nothing but the operation. -/
theorem FatOp.through_eq (op : FatOp Op) (ops : List (FatOp Op)) :
    Grid.through FatOp.transform op ops =
      { op with op := (Grid.through FatOp.transform op ops).op } := by
  induction ops generalizing op with
  | nil => rfl
  | cons b ops ih => exact ih (op.transform b)

theorem FatOp.through_eq_self {op : FatOp Op} {ops : List (FatOp Op)}
    (h : (Grid.through FatOp.transform op ops).op = op.op) :
    Grid.through FatOp.transform op ops = op := by
  rw [FatOp.through_eq, h]

theorem FatOp.hom_op : Grid.Hom FatOp.transform Op.transform FatOp.op := fun _ _ => rfl

theorem FatOp.op_batchTransform (op : FatOp Op) (base : List (FatOp Op)) :
    (op.batchTransform base).op = Grid.through Op.transform op.op (opsOf base) := by
  rw [batchTransform_eq, hom_op.through]

/-! ## The host -/

/-- What the host's document was after its first `c` ops. -/
def Doc.version (self : Doc) (content : Text) (c : Nat) : Seq Char :=
  replay (Seq.allLive content) (opsOf (self.engine.gh.global.take c))

/-- What the host's document is after all its ops. -/
def Doc.latest (self : Doc) (content : Text) : Seq Char :=
  replay (Seq.allLive content) (opsOf self.engine.gh.global)

/-- The document started with `content` and shows its history. -/
structure Hosts (content : Text) (doc : Doc) : Prop where
  numbered : Numbered doc
  valid : AllValid content (opsOf doc.engine.gh.global)
  shows : doc.Shows (doc.latest content)

namespace Doc

variable {doc doc' : Doc} {content : Text} {c : Nat}

theorem version_length (h : doc.engine.gh.global.length ≤ c) :
    doc.version content c = doc.latest content := by
  rw [version, List.take_of_length_le h]
  rfl

/-- What has happened since a version. -/
theorem latest_eq (c : Nat) : doc.latest content =
    replay (doc.version content c) (opsOf (doc.engine.gh.global.drop c)) := by
  rw [version, ← replay_append, ← opsOf_append, List.take_append_drop]
  rfl

/-- The next version. -/
theorem version_succ (content : Text) {op : FatOp Op} {down : List (FatOp Op)}
    (h : doc.engine.gh.global.drop c = op :: down) :
    doc.version content (c + 1) = op.op.apply (doc.version content c) := by
  have hget : doc.engine.gh.global[c]? = some op := by
    have := congrArg List.head? h
    rwa [List.head?_drop] at this
  rw [version, List.take_add_one, hget, Option.toList_some, opsOf_append, replay_append]
  rfl

/-- New ops leave the old versions alone. -/
theorem version_append (content : Text) {new : List (FatOp Op)}
    (h : doc'.engine.gh.global = doc.engine.gh.global ++ new)
    (hc : c ≤ doc.engine.gh.global.length) : doc'.version content c = doc.version content c := by
  rw [version, h, List.take_append_of_le_length hc]
  rfl

end Doc

namespace Hosts

variable {content : Text} {doc doc' : Doc} {c : Nat}

theorem start (content : Text) : Hosts content (System.start content).doc :=
  ⟨Numbered.start content, trivial, Shows.new content⟩

/-- The ops after a version are valid on it. -/
theorem valid_drop (h : Hosts content doc) (c : Nat) :
    AllValid content (opsOf (doc.engine.gh.global.take c)) ∧
      AllValid (doc.version content c).items (opsOf (doc.engine.gh.global.drop c)) := by
  have hv := h.valid
  rw [← List.take_append_drop c doc.engine.gh.global, opsOf_append] at hv
  exact (AllValid.append_iff (d := Seq.allLive content)).mp hv

/-- The host orders valid ops. -/
theorem append (h : Hosts content doc) {ops : List (FatOp Op)} {context : GlobalSeq}
    (hops : AllValid (doc.latest content).items (opsOf (doc.ordered ops context)))
    (hrun : Doc.applyOps (doc.ordered ops context) (doc.append (doc.ordered ops context)) =
      some (.ok (), doc')) : Hosts content doc' := by
  have hshows : (doc.append (doc.ordered ops context)).Shows (doc.latest content) := h.shows
  obtain ⟨internalDoc, hrun', hshows'⟩ := Doc.applyOps_shows hshows hops
  rw [hrun'] at hrun
  cases hrun
  have hlatest : replay (doc.latest content) (opsOf (doc.ordered ops context)) =
      replay (Seq.allLive content)
        (opsOf (doc.engine.gh.global ++ doc.ordered ops context)) := by
    rw [opsOf_append, replay_append]
    rfl
  refine ⟨(h.numbered.append ops context).of_applyOps hrun', ?_, ?_⟩
  · show AllValid content (opsOf (doc.engine.gh.global ++ doc.ordered ops context))
    rw [opsOf_append]
    exact (AllValid.append_iff (d := Seq.allLive content)).mpr ⟨h.valid, hops⟩
  · show Doc.Shows _ (replay (Seq.allLive content)
      (opsOf (doc.engine.gh.global ++ doc.ordered ops context)))
    rw [← hlatest]
    exact hshows'

/-- The number of the next external op does not matter. -/
theorem of_nextExternalSiteSeq (h : Hosts content doc) (n : LocalSeq) :
    Hosts content { doc with nextExternalSiteSeq := n } :=
  ⟨⟨h.numbered.counted, h.numbered.seqs⟩, h.valid, h.shows⟩

end Hosts

/-! ## Undoing -/

/-- The ops that an undo or a redo takes from the undo queue are own ops.  From each
of them on, the peer's global history is the host's. -/
def UndoesAsOrdered (doc : Doc) (site : Site) (op : EditorOp) : Prop :=
  ∀ redo, op = .undoing redo site.doc.engine.gh.totalLen →
    ∀ entry ∈ site.doc.engine.gh.undoEntries redo,
      entry.2.site = site.doc.engine.site ∧
        opsOf (site.doc.engine.gh.global.drop (entry.1 - 1)) =
          opsOf ((doc.engine.gh.global.take site.doc.engine.currentSeq).drop
            (site.base + (entry.1 - 1)))

instance (doc : Doc) (site : Site) (op : EditorOp) : Decidable (UndoesAsOrdered doc site op) :=
  inferInstanceAs (Decidable (∀ redo : Bool, op = .undoing redo site.doc.engine.gh.totalLen →
    ∀ entry ∈ site.doc.engine.gh.undoEntries redo, _ ∧ _))

theorem UndoesAsOrdered.ownUndos {doc : Doc} {site : Site} {op : EditorOp}
    (h : UndoesAsOrdered doc site op) : OwnUndos site.doc.engine op :=
  fun redo hop entry hentry => (h redo hop entry hentry).1

/-- The op of the entry was valid, and so was all that came after it, up to the
document `items`. -/
def StandsIn (gh : GlobalHistory) (items : List Char) (entry : GlobalSeq × FatOp Op) : Prop :=
  ∃ before, entry.2.op.Ok true before ∧
    Grid.OkAll Op.applyItems (Op.Ok false) (entry.2.op.applyItems before)
      (opsOf (gh.history.drop entry.1)) ∧
    Grid.runAll Op.applyItems (entry.2.op.applyItems before) (opsOf (gh.history.drop entry.1)) =
      items

/-- The inverse of such an op may run at the end of the history. -/
theorem GlobalHistory.inverses_ok {gh : GlobalHistory} {items : List Char}
    {entries : List (GlobalSeq × FatOp Op)} {acc : List (FatOp Op)}
    (hentries : ∀ entry ∈ entries, StandsIn gh items entry)
    (hacc : Grid.OkAll Op.applyItems (Op.Ok true) items (opsOf acc)) :
    Grid.OkAll Op.applyItems (Op.Ok true) items (opsOf (gh.inverses entries acc)) := by
  induction entries generalizing acc with
  | nil => exact hacc
  | cons entry entries ih =>
      obtain ⟨seq, op⟩ := entry
      obtain ⟨before, hop, hrest, hend⟩ := hentries (seq, op) (by simp)
      dsimp only at hop hrest hend
      refine ih (fun entry h => hentries entry (by simp [h])) ?_
      obtain ⟨segs, live, hinv, hok⟩ := hop.inverse
      have hweak : Grid.OkAll Op.applyItems (Op.Ok false) items (opsOf acc) :=
        hacc.mono fun _ _ h => h.weaken
      have hall : Grid.OkAll Op.applyItems (Op.Ok false) (op.op.applyItems before)
          (opsOf (gh.history.drop seq ++ acc)) := by
        rw [opsOf_append, Grid.OkAll_append, hend]
        exact ⟨hrest, hweak⟩
      obtain ⟨segs', hthrough, hok'⟩ := hok.through_mark hall
      rw [opsOf_append, Grid.runAll_append, hend] at hok'
      rw [opsOf_append, Grid.OkAll_append]
      refine ⟨hacc, ?_, trivial⟩
      rw [FatOp.batchTransform_eq, FatOp.hom_op.through,
        show op.inverse.op = op.op.inverse from rfl, hinv, hthrough]
      exact hok'

/-! ## The peer -/

/-- Sending sets the number of the op sent last, if anything. -/
theorem Site.send_engine (site : Site) : ∃ q, site.send.doc = { site.doc with
    engine := { site.doc.engine with lastSiteSeqSentOut := q } } := by
  obtain ⟨q, hq⟩ : ∃ q, (site.doc.engine.maybePackageLocalOps 0).2 =
      { site.doc.engine with lastSiteSeqSentOut := q } := by
    rw [ClientEngine.maybePackageLocalOps_eq]
    split
    · split
      · exact ⟨_, rfl⟩
      · exact ⟨_, rfl⟩
    · exact ⟨_, rfl⟩
  refine ⟨q, ?_⟩
  rw [← hq]
  rfl

/-- The local ops are of another site than an op of another site. -/
theorem Wired.ne_site {doc : Doc} {id : SiteId} {m : Nat} {site : Site}
    (h : Wired doc id m site) {op : FatOp Op} (hsite : op.site ≠ id) :
    ∀ b ∈ opsOf site.doc.engine.gh.localOps, op.op.site ≠ b.site := by
  intro b hb heq
  obtain ⟨x, hx, rfl⟩ := List.mem_map.mp hb
  exact hsite (heq.trans (h.own x hx))

/-- What the host makes of a batch is what it would make of the local ops that were
sent. -/
theorem Wired.opsOf_ordered {doc : Doc} {id : SiteId} {m : Nat} {site : Site}
    (h : Wired doc id m site) {batch : ContextOps} {up : List ContextOps}
    (hup : site.up = batch :: up) :
    opsOf (doc.ordered batch.ops batch.context) = Grid.carry Op.transform
        (opsOf (doc.engine.gh.global.drop site.doc.engine.currentSeq))
        (opsOf (site.doc.engine.gh.localOps.take m)) ∧
      ∀ op ∈ doc.engine.gh.global.drop site.doc.engine.currentSeq, op.site ≠ id := by
  have hout := h.outstanding
  rw [show site.onItsWay = some (batch.context, payloads batch.ops) by
    simp [Site.onItsWay, hup]] at hout
  obtain ⟨hcarry, hothers⟩ := hout.order_eq (by rw [List.length_map]; exact h.seen)
  have hfst : Grid.Hom payloadTransform Op.transform Prod.fst := fun _ _ => rfl
  have heq := congrArg (List.map Prod.fst) ((payloads_ordered doc _ _).trans hcarry)
  rw [hfst.carry, List.map_drop, payloads_fst, payloads_fst, payloads_fst, ← opsOf_drop] at heq
  refine ⟨heq, fun op hop => hothers op.payload ?_⟩
  rw [← List.map_drop]
  exact List.mem_map_of_mem hop

/-- The peer shows the version of the host's document that it has seen, with its
local ops. -/
structure Mirrors (content : Text) (doc : Doc) (site : Site) : Prop where
  counted : site.doc.engine.currentSeq = site.base + site.doc.engine.gh.global.length
  valid : AllValid (doc.version content site.doc.engine.currentSeq).items
    (opsOf site.doc.engine.gh.localOps)
  shows : site.doc.Shows (replay (doc.version content site.doc.engine.currentSeq)
    (opsOf site.doc.engine.gh.localOps))

namespace Mirrors

variable {content : Text} {doc doc' : Doc} {id : SiteId} {m : Nat} {site : Site}

theorem join (hdoc : Hosts content doc) : Mirrors content doc (Site.join doc id) := by
  refine ⟨rfl, trivial, ?_⟩
  show Shows doc.engine.internalDoc doc.buffer (doc.version content doc.engine.currentSeq)
  rw [Doc.version_length (Nat.le_of_eq hdoc.numbered.counted.symm)]
  exact hdoc.shows

/-- What an undo takes stands in the peer's history. -/
theorem standsIn (h : Mirrors content doc site) (hwired : Wired doc id m site)
    (hdoc : Hosts content doc) {op : EditorOp} (hundo : UndoesAsOrdered doc site op) {redo : Bool}
    (hop : op = .undoing redo site.doc.engine.gh.totalLen) :
    ∀ entry ∈ site.doc.engine.gh.undoEntries redo,
      StandsIn site.doc.engine.gh (replay (doc.version content site.doc.engine.currentSeq)
        (opsOf site.doc.engine.gh.localOps)).items entry := by
  intro entry hentry
  obtain ⟨hsite, hglobal⟩ := hundo redo hop entry hentry
  obtain ⟨hpos, hget, _⟩ := GlobalHistory.groupEntries_mem hentry
  -- The whole history of the peer, with what the host had before the peer joined.
  have hall : AllValid content (opsOf (doc.engine.gh.global.take site.doc.engine.currentSeq) ++
      opsOf site.doc.engine.gh.localOps) :=
    (AllValid.append_iff (d := Seq.allLive content)).mpr
      ⟨(hdoc.valid_drop _).1, h.valid⟩
  have hdrop : opsOf (site.doc.engine.gh.history.drop (entry.1 - 1)) =
      (opsOf (doc.engine.gh.global.take site.doc.engine.currentSeq) ++
        opsOf site.doc.engine.gh.localOps).drop (site.base + (entry.1 - 1)) := by
    have hlen : (opsOf (doc.engine.gh.global.take site.doc.engine.currentSeq)).length =
        site.base + site.doc.engine.gh.global.length := by
      rw [List.length_map, List.length_take, Nat.min_eq_left hwired.seen, h.counted]
    rw [GlobalHistory.history, List.drop_append, opsOf_append, hglobal,
      List.drop_append, hlen, Nat.add_sub_add_left, opsOf_drop, opsOf_drop]
  have hcons : site.doc.engine.gh.history.drop (entry.1 - 1) =
      entry.2 :: site.doc.engine.gh.history.drop entry.1 := by
    obtain ⟨hlt, hval⟩ := List.getElem?_eq_some_iff.mp hget
    rw [List.drop_eq_getElem_cons hlt, hval, Nat.sub_add_cancel hpos]
  rw [replay_items, show (doc.version content site.doc.engine.currentSeq).items = _ from
    replay_items _ _, ← Grid.runAll_append]
  generalize opsOf (doc.engine.gh.global.take site.doc.engine.currentSeq) ++
    opsOf site.doc.engine.gh.localOps = ops at hall hdrop ⊢
  rw [hcons, opsOf, List.map_cons] at hdrop
  rw [← List.take_append_drop (site.base + (entry.1 - 1)) ops, ← hdrop] at hall ⊢
  obtain ⟨_, hvalid, hrest⟩ := (Grid.OkAll_append _ _ _ _ _).mp hall
  refine ⟨_, hvalid.strict ?_, AllValid.ok hrest, ?_⟩
  · show entry.2.site ≠ _
    rw [hsite, hwired.site_eq]
    exact hwired.notExternal
  · rw [Grid.runAll_append]
    rfl

/-- An op of the editor. -/
theorem edit (h : Mirrors content doc site) (hwired : Wired doc id m site)
    (hdoc : Hosts content doc) {editorOp : EditorFatOp}
    (hundo : UndoesAsOrdered doc site editorOp.op)
    (hfits : editorOp.op.FitsText site.doc.buffer) {rd : RemoteDoc}
    (hrun : site.doc.processEditorOp editorOp = some (.ok (), rd)) :
    Mirrors content doc { site with doc := rd } := by
  obtain ⟨ops, instrs, idoc, gh, eng, buffer, hstep, hbuffer, rfl⟩ :=
    RemoteDoc.processEditorOp_ok hrun
  obtain ⟨hglobal, new, hnew, hops, _⟩ := GlobalHistory.recordOps_ok hstep.records
  have hlocal : opsOf gh.localOps = opsOf site.doc.engine.gh.localOps ++ ops := by
    rw [hnew, opsOf_append, ← hops]
  have hmade : AllValid (replay (doc.version content site.doc.engine.currentSeq)
        (opsOf site.doc.engine.gh.localOps)).items ops ∧
      Shows idoc buffer (replay (replay (doc.version content site.doc.engine.currentSeq)
        (opsOf site.doc.engine.gh.localOps)) ops) := by
    have hmakes := hstep.makes
    generalize hop : editorOp.op = op at hmakes hfits hundo
    cases hmakes with
    | ins hne hconv =>
        obtain ⟨op', doc', hconv', hok, _, happly, hshows⟩ :=
          h.shows.ins hne hfits site.doc.engine.site
        rw [hconv] at hconv'
        cases hconv'
        simp only [runInstructions, happly, Option.some_inj] at hbuffer
        subst hbuffer
        exact ⟨⟨hok.valid, trivial⟩, hshows⟩
    | del hconv =>
        obtain ⟨op', doc', hconv', hok, _, happly, hshows⟩ :=
          h.shows.del hfits.1 hfits.2 site.doc.engine.site
        rw [hconv] at hconv'
        cases hconv'
        simp only [runInstructions, happly, Option.some_inj] at hbuffer
        subst hbuffer
        exact ⟨⟨hok.valid, trivial⟩, hshows⟩
    | undo redo hops hall =>
        have hok : Grid.OkAll Op.applyItems (Op.Ok true) _ (opsOf
            (site.doc.engine.gh.inverses (site.doc.engine.gh.undoEntries redo) [])) :=
          GlobalHistory.inverses_ok (h.standsIn hwired hdoc hundo rfl) trivial
        rw [show opsOf _ = ops from hops.symm] at hok
        have hvalid := hok.mono fun _ _ h => h.valid
        obtain ⟨instrs', doc', hall', hbuffer', hshows⟩ := h.shows.convertAll hvalid
        rw [hall] at hall'
        cases hall'
        rw [hbuffer] at hbuffer'
        cases hbuffer'
        exact ⟨hvalid, hshows⟩
  rw [hstep.result]
  refine ⟨?_, ?_, ?_⟩
  · show _ = _ + gh.global.length
    rw [hglobal]
    exact h.counted
  · show AllValid _ (opsOf gh.localOps)
    rw [hlocal]
    exact AllValid.append_iff.mpr ⟨h.valid, hmade.1⟩
  · show Shows idoc buffer (replay _ (opsOf gh.localOps))
    rw [hlocal, replay_append]
    exact hmade.2

/-- Sending changes none of it. -/
theorem send (h : Mirrors content doc site) : Mirrors content doc site.send := by
  obtain ⟨q, hsend⟩ := Site.send_engine site
  have hbase : site.send.base = site.base := rfl
  refine ⟨?_, ?_, ?_⟩
  · rw [hsend, hbase]
    exact h.counted
  · rw [hsend]
    exact h.valid
  · rw [hsend]
    exact h.shows

/-- The host orders ops. -/
theorem push (h : Mirrors content doc site)
    (hseen : site.doc.engine.currentSeq ≤ doc.engine.gh.global.length)
    {new : List (FatOp Op)} (hglobal : doc'.engine.gh.global = doc.engine.gh.global ++ new)
    (ops : List (FatOp Op)) : Mirrors content doc' (site.push ops) := by
  have hversion := Doc.version_append content hglobal hseen
  refine ⟨h.counted, ?_, ?_⟩
  · show AllValid (doc'.version content site.doc.engine.currentSeq).items _
    rw [hversion]
    exact h.valid
  · show Shows _ _ (replay (doc'.version content site.doc.engine.currentSeq) _)
    rw [hversion]
    exact h.shows

/-- The batch on its way is valid where the host puts it. -/
theorem order (h : Mirrors content doc site) (hwired : Wired doc id m site)
    (hdoc : Hosts content doc) {batch : ContextOps} {up : List ContextOps}
    (hup : site.up = batch :: up) :
    AllValid (doc.latest content).items (opsOf (doc.ordered batch.ops batch.context)) := by
  obtain ⟨hops, hothers⟩ := hwired.opsOf_ordered hup
  obtain ⟨hbefore, hdown⟩ := hdoc.valid_drop site.doc.engine.currentSeq
  have hheld : AllValid (doc.version content site.doc.engine.currentSeq).items
      (opsOf (site.doc.engine.gh.localOps.take m)) := by
    have := h.valid
    rw [← List.take_append_drop m site.doc.engine.gh.localOps, opsOf_append] at this
    exact (AllValid.append_iff.mp this).1
  have hsep : Grid.SepGrid Op.transform (fun a b => a.site ≠ b.site)
      (opsOf (doc.engine.gh.global.drop site.doc.engine.currentSeq))
      (opsOf (site.doc.engine.gh.localOps.take m)) := by
    refine Grid.SepGrid.of_key Op.site_transform fun a ha b hb heq => ?_
    obtain ⟨x, hx, rfl⟩ := List.mem_map.mp ha
    obtain ⟨y, hy, rfl⟩ := List.mem_map.mp hb
    exact hothers x hx (heq.trans (hwired.own y (List.mem_of_mem_take hy)))
  have hgrid := validSquare.grid hdown hheld hsep
  rw [hops, Doc.latest_eq site.doc.engine.currentSeq, replay_items]
  exact hgrid

/-- The peer takes its own op. -/
theorem ack (h : Mirrors content doc site) (hwired : Wired doc id m site) {op : FatOp Op}
    {down : List (FatOp Op)} (hdown : site.down = op :: down) (hsite : op.site = id)
    {localOp : FatOp Op} {localOps : List (FatOp Op)} {engine : ClientEngine}
    (hack : site.doc.engine.AckStep op localOp localOps engine) :
    Mirrors content doc { site with doc := { site.doc with engine }, down } := by
  obtain ⟨localOp', localOps', _, hlocal, _, hpayload, _⟩ := hwired.next_own hdown hsite
  rw [hack.localOps_eq] at hlocal
  obtain ⟨rfl, rfl⟩ := List.cons.inj hlocal
  have hop : op.op = localOp.op := congrArg Prod.fst hpayload
  have hversion := Doc.version_succ content (hwired.down.symm.trans hdown)
  have hvalid := h.valid
  have hshows := h.shows
  rw [hack.localOps_eq] at hvalid hshows
  rw [hack.result]
  refine ⟨?_, ?_, ?_⟩
  · show site.doc.engine.currentSeq + 1 = site.base + (site.doc.engine.gh.global ++ [op]).length
    rw [List.length_append, h.counted]
    rfl
  · show AllValid (doc.version content (site.doc.engine.currentSeq + 1)).items (opsOf localOps)
    rw [hversion, Op.apply_items, hop]
    exact hvalid.2
  · show Shows _ _ (replay (doc.version content (site.doc.engine.currentSeq + 1)) (opsOf localOps))
    rw [hversion, hop]
    exact hshows

/-- The peer takes an op of another site. -/
theorem foreign (h : Mirrors content doc site) (hwired : Wired doc id m site)
    (hdoc : Hosts content doc) {op : FatOp Op} {down : List (FatOp Op)}
    (hdown : site.down = op :: down) (hsite : op.site ≠ id)
    (hagrees : op.op.Agrees (opsOf site.doc.engine.gh.localOps)) {instr : EditInstruction}
    {idoc : InternalDoc} {engine : ClientEngine}
    (hforeign : site.doc.engine.ForeignStep op instr idoc engine) {buffer : Text}
    (happly : instr.apply site.doc.buffer = some (.ok (), buffer)) :
    Mirrors content doc { site with doc := { site.doc with engine, buffer }, down } := by
  have hdrop := hwired.down.symm.trans hdown
  have hversion := Doc.version_succ content hdrop
  have hop := (hdoc.valid_drop site.doc.engine.currentSeq).2
  rw [hdrop] at hop
  have hsites := hwired.ne_site hsite
  obtain ⟨hpast, hthrough, _⟩ := validSquare.row hop.1 h.valid
    (Grid.SepRow.of_key Op.site_transform hsites)
  have hpass := hagrees.pass hop.1.ok h.valid.ok hsites
  have hcarried : (Grid.through FatOp.transform op site.doc.engine.gh.localOps).op =
      Grid.through Op.transform op.op (opsOf site.doc.engine.gh.localOps) :=
    FatOp.hom_op.through op _
  have hlocal : opsOf (ClientEngine.bumpUndoDeltas 0
      (Grid.past FatOp.transform op site.doc.engine.gh.localOps)) =
      Grid.past Op.transform op.op (opsOf site.doc.engine.gh.localOps) := by
    rw [opsOf, ClientEngine.map_bumpUndoDeltas fun _ _ => rfl]
    exact FatOp.hom_op.past op _
  rw [← replay_items] at hthrough
  obtain ⟨instr', doc', hconv, happly', hshows⟩ := h.shows.internal hthrough
  have hrun := hforeign.run
  rw [hcarried, hconv] at hrun
  cases hrun
  rw [happly'] at happly
  cases happly
  rw [hforeign.result]
  refine ⟨?_, ?_, ?_⟩
  · show site.doc.engine.currentSeq + 1 = site.base + (site.doc.engine.gh.global ++ [_]).length
    rw [List.length_append, h.counted]
    rfl
  · show AllValid (doc.version content (site.doc.engine.currentSeq + 1)).items (opsOf _)
    rw [hversion, Op.apply_items, hlocal]
    exact hpast
  · show Shows idoc _ (replay (doc.version content (site.doc.engine.currentSeq + 1)) (opsOf _))
    rw [hversion, hlocal, hpass]
    exact hshows

end Mirrors

/-! ## The steps -/

/-- An op of another site that arrives agrees with the local ops. -/
def AgreesWithLocal (site : Site) (op : FatOp Op) : Prop :=
  op.site ≠ site.doc.engine.site → op.op.Agrees (opsOf site.doc.engine.gh.localOps)

instance (site : Site) (op : FatOp Op) : Decidable (AgreesWithLocal site op) :=
  inferInstanceAs (Decidable (_ → _))

theorem mirror_keeps (content : Text) :
    System.Keeps (Hosts content)
      (fun doc id site => (∃ m, Wired doc id m site) ∧ Mirrors content doc site)
      (fun doc site editorOp => editorOp.op.FitsText site.doc.buffer ∧
        UndoesAsOrdered doc site editorOp.op)
      (fun _ site op => AgreesWithLocal site op) where
  join _ _ hdoc hid := ⟨⟨0, Wired.join hdoc.numbered hid⟩, Mirrors.join hdoc⟩
  edit _ _ _ _ _ hdoc h hedit hrun := by
    obtain ⟨⟨m, hwired⟩, h⟩ := h
    obtain ⟨hfits, hundo⟩ := hedit
    exact ⟨⟨m, hwired.edit hundo.ownUndos hrun⟩, h.edit hwired hdoc hundo hfits hrun⟩
  send _ _ _ _ h := ⟨h.1.elim fun _ h => h.send, h.2.send⟩
  receive doc id site batch up processed doc' hdoc h hup hrun := by
    obtain ⟨⟨m, hwired⟩, h⟩ := h
    obtain ⟨rfl, happly⟩ := Doc.processAndApply_ok hrun
    have hglobal := Doc.applyOps_global happly
    obtain ⟨hown, hwired'⟩ := hwired.order hup hglobal
    refine ⟨hdoc.append (h.order hwired hdoc hup) happly, ⟨⟨m, hwired'⟩, ?_⟩, ?_⟩
    · have h' : Mirrors content doc { site with up } := ⟨h.counted, h.valid, h.shows⟩
      exact h'.push hwired.seen hglobal _
    · rintro id' site' hne ⟨⟨m', h'⟩, hmirror⟩
      exact ⟨⟨m', h'.push hglobal fun op hop heq => hne (heq.symm.trans (hown op hop))⟩,
        hmirror.push h'.seen hglobal _⟩
  deliver doc id site op down rd leanOps hdoc h hagrees hdown hrun := by
    obtain ⟨⟨m, hwired⟩, h⟩ := h
    obtain ⟨_, ⟨hsite, localOp, localOps, engine, hack, rfl⟩ |
      ⟨hsite, instr, idoc, engine, buffer, hforeign, happly, rfl⟩⟩ :=
        RemoteDoc.processServerOp_ok hrun
    · have hsite := hsite.trans hwired.site_eq
      exact ⟨hwired.ack hdown hsite hack, h.ack hwired hdown hsite hack⟩
    · have hother : op.site ≠ id := fun heq => hsite (heq.trans hwired.site_eq.symm)
      exact ⟨⟨m, hwired.foreign hdown hother hforeign buffer⟩,
        h.foreign hwired hdoc hdown hother (hagrees hsite) hforeign happly⟩
  external doc chunks processed doc' hdoc hspells hrun := by
    obtain ⟨n, happly, hproc⟩ := Doc.resetFromDisk_ok hrun
    have hglobal := Doc.applyOps_global happly
    have hvalid := hdoc.shows.chunksToOps_valid hspells.1 hspells.2 doc.nextExternalSiteSeq
    have hops : opsOf processed =
        opsOf (chunksToOps chunks externalProcessSiteId doc.nextExternalSiteSeq).1 := by
      rw [hproc, Doc.ordered, opsOf, ServerEngine.map_assignSeqs fun _ _ => rfl,
        List.drop_eq_nil_of_le (Nat.le_of_eq hdoc.numbered.counted.symm), Grid.carry_nil_left]
    refine ⟨?_, ?_⟩
    · rw [← opsOf, ← hops] at hvalid
      rw [hproc] at happly hvalid
      exact (hdoc.of_nextExternalSiteSeq n).append hvalid happly
    · have hexternal : ∀ op ∈ processed, op.site = externalProcessSiteId := by
        rw [hproc]
        exact Doc.site_ordered (site_chunksToOps hspells.2)
      rintro id site ⟨⟨m, hwired⟩, h⟩
      refine ⟨⟨m, hwired.push hglobal fun op hop => ?_⟩, h.push hwired.seen hglobal _⟩
      rw [hexternal op hop]
      exact hwired.notExternal.symm

end CollabMode
