import CollabMode.EngineSpec
import CollabMode.Lib.Run
import Mathlib.Data.List.Nodup
import Mathlib.Data.List.Range

/-!
# The undo queue of a client

The entries of the undo queue are places in the history, inferred when an op is
recorded and corrected whenever an op of another site comes in.  To say which op
an entry was recorded for, a run is followed with a record beside the engine.
The ops of the own site are numbered in the order they are made.  `tags` runs
parallel to the history, `owners` parallel to the undo queue, and neither looks
at the entries.  `Linked` says that an entry leads to the op with its owner's
number.

`process_remote_op` corrects the entries above `current_seq`, which counts from
the sequence number the client started with, while the entries count from the
beginning of the client's own history.  `Shifts` is the condition under which
the two agree on what is a local op.
-/

namespace CollabMode

open ClientEngine

/-! ## The record -/

/-- Record several ops in a queue, one after the other. -/
def placeEntries {α : Type} (kind : EditorOpKind) :
    List α → List α → Option Nat → List α
  | [], queue, _ => queue
  | x :: xs, queue, tip =>
      placeEntries kind xs (placeEntry kind x queue tip) (moveTip kind queue.length tip)

/-- An engine with the record of its own ops. -/
structure Tracked where
  engine : ClientEngine
  /-- The number of each op of the history, for the own ones. -/
  tags : List (Option Nat)
  /-- The number of the op each entry of the undo queue was recorded for. -/
  owners : List Nat
  /-- The number of the next op. -/
  next : Nat
deriving DecidableEq, Repr

namespace Tracked

def start (engine : ClientEngine) : Tracked := { engine, tags := [], owners := [], next := 0 }

/-- An accepted call.  The record sees how many ops it made, and whether an op of
another site entered the history. -/
def step (t : Tracked) (call : Call) : Option Tracked := do
  let engine ← t.engine.accept call
  match call with
  | .processLocalOp editorOp _ =>
      let made := List.range' t.next (engine.gh.localOps.length - t.engine.gh.localOps.length)
      some
        { engine
          tags := t.tags ++ made.map some
          owners := placeEntries editorOp.op.kind made t.owners t.engine.gh.undoTip
          next := t.next + made.length }
  | .processRemoteOp op =>
      if op.site = t.engine.site then some { t with engine }
      else
        let n := t.engine.gh.global.length
        some { t with engine, tags := t.tags.take n ++ none :: t.tags.drop n }
  | .maybePackageLocalOps _ => some { t with engine }

end Tracked

/-- The number of the op that an entry leads to. -/
def tagAt (tags : List (Option Nat)) (entry : GlobalSeq) : Option Nat :=
  if entry = 0 then none else (tags[entry - 1]?).join

/-! ## The invariant -/

/-- The history and the queue match the record. -/
structure Linked (site : SiteId) (gh : GlobalHistory) (tags : List (Option Nat))
    (owners : List Nat) (next : Nat) : Prop where
  /-- The ops with a number are those of the own site. -/
  own : gh.history.map (fun op => decide (op.site = site)) = tags.map Option.isSome
  localOwn : ∀ op ∈ gh.localOps, op.site = site
  /-- Every number is given once, in order. -/
  order : tags.filterMap id = List.range next
  resolves : gh.undoQueue.map (tagAt tags) = owners.map some
  distinct : owners.Nodup
  fresh : ∀ owner ∈ owners, owner < next
  tip : ∀ tip, gh.undoTip = some tip → tip < gh.undoQueue.length

namespace Linked

variable {site : SiteId} {gh : GlobalHistory} {tags : List (Option Nat)} {owners : List Nat}
  {next : Nat}

theorem tags_length (h : Linked site gh tags owners next) : tags.length = gh.totalLen := by
  have := congrArg List.length h.own
  simpa [eq_comm] using this

theorem owners_length (h : Linked site gh tags owners next) :
    owners.length = gh.undoQueue.length := by
  have := congrArg List.length h.resolves
  simpa [eq_comm] using this

theorem nodup (h : Linked site gh tags owners next) : gh.undoQueue.Nodup := by
  refine List.Nodup.of_map (tagAt tags) ?_
  rw [h.resolves]
  exact h.distinct.map fun _ _ heq => Option.some.inj heq

/-- An entry leads to an op of the own site. -/
theorem entry (h : Linked site gh tags owners next) {seq : GlobalSeq} (hseq : seq ∈ gh.undoQueue) :
    0 < seq ∧ ∃ op, gh.history[seq - 1]? = some op ∧ op.site = site := by
  have hmem : tagAt tags seq ∈ owners.map some := by
    rw [← h.resolves]
    exact List.mem_map_of_mem hseq
  obtain ⟨owner, _, howner⟩ := List.mem_map.mp hmem
  unfold tagAt at howner
  split at howner
  · cases howner
  next hpos =>
      have htag : tags[seq - 1]? = some (some owner) := Option.join_eq_some_iff.mp howner.symm
      have hown := congrArg (fun l => l[seq - 1]?) h.own
      simp only [List.getElem?_map, htag, Option.map_some, Option.isSome_some,
        Option.map_eq_some_iff, decide_eq_true_eq] at hown
      exact ⟨Nat.pos_of_ne_zero hpos, hown⟩

theorem tagAt_append {entry : GlobalSeq} {owner : Nat} (h : tagAt tags entry = some owner)
    (more : List (Option Nat)) : tagAt (tags ++ more) entry = some owner := by
  unfold tagAt at h ⊢
  split at h
  · cases h
  next hpos =>
      have htag := Option.join_eq_some_iff.mp h
      have hlt := (List.getElem?_eq_some_iff.mp htag).1
      rw [if_neg hpos, List.getElem?_append_left hlt, htag]
      rfl

/-- The entries lead to the same ops in a longer history. -/
theorem resolves_append (h : Linked site gh tags owners next) (more : List (Option Nat)) :
    gh.undoQueue.map (tagAt (tags ++ more)) = owners.map some := by
  rw [← h.resolves]
  refine List.map_congr_left fun seq hseq => ?_
  have hmem : tagAt tags seq ∈ owners.map some := by
    rw [← h.resolves]
    exact List.mem_map_of_mem hseq
  obtain ⟨owner, _, howner⟩ := List.mem_map.mp hmem
  rw [← howner]
  exact tagAt_append howner.symm more

/-- Recording an own op. -/
theorem record (h : Linked site gh tags owners next) {kind : EditorOpKind} (hfits : gh.TipFits kind)
    {op : FatOp Op} (hop : op.site = site) :
    Linked site
      { global := gh.global
        localOps := gh.localOps ++ [op]
        undoQueue := placeEntry kind (gh.totalLen + 1) gh.undoQueue gh.undoTip
        undoTip := moveTip kind gh.undoQueue.length gh.undoTip }
      (tags ++ [some next]) (placeEntry kind next owners gh.undoTip) (next + 1) := by
  have hnew : tagAt (tags ++ [some next]) (gh.totalLen + 1) = some next := by
    simp [tagAt, ← h.tags_length]
  refine ⟨?_, ?_, ?_, ?_, ?_, ?_, ?_⟩
  · have := h.own
    simp only [GlobalHistory.history] at this ⊢
    rw [← List.append_assoc, List.map_append, this]
    simp [hop]
  · intro x hx
    rcases List.mem_append.mp hx with hx | hx
    · exact h.localOwn x hx
    · rw [List.mem_singleton.mp hx, hop]
  · rw [List.filterMap_append, h.order]
    simp [List.range_succ]
  · rw [map_placeEntry, map_placeEntry, h.resolves_append, hnew]
  · exact nodup_placeEntry h.distinct fun hmem => Nat.lt_irrefl _ (h.fresh next hmem)
  · intro owner howner
    rcases mem_placeEntry howner with rfl | hmem
    · exact Nat.lt_succ_self _
    · exact Nat.lt_succ_of_lt (h.fresh owner hmem)
  · exact hfits.lt _

/-- Recording the ops of one call. -/
theorem records (kind : EditorOpKind) (siteSeq : LocalSeq) (groupSeq : GroupSeq) (ops : List Op) :
    ∀ {gh gh' : GlobalHistory} {tags : List (Option Nat)} {owners : List Nat} {next : Nat},
      Linked site gh tags owners next → (∀ op ∈ ops, op.site = site) →
      GlobalHistory.recordOps kind siteSeq groupSeq ops gh = some (.ok (), gh') →
      Linked site gh' (tags ++ (List.range' next ops.length).map some)
        (placeEntries kind (List.range' next ops.length) owners gh.undoTip)
        (next + ops.length) := by
  induction ops with
  | nil =>
      intro gh gh' tags owners next h _ hrun
      cases hrun
      simpa [placeEntries] using h
  | cons op ops ih =>
      intro gh gh' tags owners next h hsites hrun
      obtain ⟨gh₁, hfirst, hrest⟩ := GlobalHistory.recordOps_cons hrun
      obtain ⟨hfits, fatOp, hop, _, rfl⟩ := GlobalHistory.recordOp_ok hfirst
      have hsite : fatOp.site = site := by
        rw [FatOp.site, hop]
        exact hsites op (by simp)
      have := ih (h.record hfits hsite) (fun op hmem => hsites op (by simp [hmem])) hrest
      simp only [h.owners_length.symm] at this
      simpa [List.range'_succ, placeEntries, Nat.add_assoc, Nat.add_comm 1] using this

/-- The echo of the own op changes nothing the queue can see. -/
theorem ack (h : Linked site gh tags owners next) {op localOp : FatOp Op}
    {localOps : List (FatOp Op)} (hlocal : gh.localOps = localOp :: localOps)
    (hls : localOp.site = site) (hop : op.site = site) :
    Linked site { gh with localOps, global := gh.global ++ [op] } tags owners next := by
  refine ⟨?_, ?_, h.order, h.resolves, h.distinct, h.fresh, h.tip⟩
  · rw [← h.own]
    simp [GlobalHistory.history, hlocal, hls, hop]
  · intro x hx
    exact h.localOwn x (by simp [hlocal, hx])

/-- The place of an op of the history once another op stands at `n`. -/
theorem tagAt_insert {n : Nat} (hn : n ≤ tags.length) (entry : Nat) :
    tagAt (tags.take n ++ none :: tags.drop n) (if entry > n then entry + 1 else entry) =
      tagAt tags entry := by
  have hlen : (tags.take n).length = n := List.length_take_of_le hn
  by_cases h0 : entry = 0
  · simp [tagAt, h0]
  · by_cases hgt : entry > n
    · rw [if_pos hgt]
      simp only [tagAt, h0, if_false, Nat.succ_ne_zero, Nat.add_sub_cancel]
      rw [List.getElem?_append_right (by omega), hlen,
        show entry - n = (entry - 1 - n) + 1 by omega, List.getElem?_cons_succ,
        List.getElem?_drop, show n + (entry - 1 - n) = entry - 1 by omega]
    · rw [if_neg hgt]
      simp only [tagAt, h0, if_false]
      rw [List.getElem?_append_left (by omega), List.getElem?_take_of_lt (by omega)]

/-- An op of another site moves the local ops, and the entries that point there. -/
theorem foreign (h : Linked site gh tags owners next) {op : FatOp Op} {localOps : List (FatOp Op)}
    (hop : op.site ≠ site) (hsites : localOps.map FatOp.site = gh.localOps.map FatOp.site) :
    Linked site
      { gh with
        localOps
        global := gh.global ++ [op]
        undoQueue := gh.undoQueue.map fun e => if e > gh.global.length then e + 1 else e }
      (tags.take gh.global.length ++ none :: tags.drop gh.global.length) owners next := by
  have hn : gh.global.length ≤ tags.length := by
    rw [h.tags_length]
    exact Nat.le_add_right _ _
  have hlocal : localOps.map (fun op => decide (op.site = site)) =
      gh.localOps.map (fun op => decide (op.site = site)) := by
    have := congrArg (List.map fun s => decide (s = site)) hsites
    simpa only [List.map_map, Function.comp_def] using this
  have hown := h.own
  simp only [GlobalHistory.history, List.map_append] at hown
  have htake : gh.global.map (fun op => decide (op.site = site)) =
      (tags.take gh.global.length).map Option.isSome := by
    rw [List.map_take, ← hown, List.take_left' (by simp)]
  have hdrop : gh.localOps.map (fun op => decide (op.site = site)) =
      (tags.drop gh.global.length).map Option.isSome := by
    rw [List.map_drop, ← hown, List.drop_left' (by simp)]
  refine ⟨?_, ?_, ?_, ?_, h.distinct, h.fresh, ?_⟩
  · simp [GlobalHistory.history, hlocal, htake, hdrop, hop]
  · intro x hx
    have hmem : x.site ∈ gh.localOps.map FatOp.site := by
      rw [← hsites]
      exact List.mem_map_of_mem hx
    obtain ⟨y, hy, hxy⟩ := List.mem_map.mp hmem
    rw [← hxy]
    exact h.localOwn y hy
  · rw [← h.order]
    conv_rhs => rw [← List.take_append_drop gh.global.length tags]
    simp
  · rw [← h.resolves, List.map_map]
    exact List.map_congr_left fun entry _ => tagAt_insert hn entry
  · intro tip htip
    simpa using h.tip tip htip

end Linked

/-! ## Runs -/

/-- No entry of the undo queue points to a local op, and is yet at most
`current_seq`, when an op of another site comes in. -/
def Shifts (eng : ClientEngine) : Call → Prop
  | .processRemoteOp op => op.site ≠ eng.site →
      ∀ entry ∈ eng.gh.undoQueue, ¬ (eng.gh.global.length < entry ∧ entry ≤ eng.currentSeq)
  | _ => True

instance (eng : ClientEngine) (call : Call) : Decidable (Shifts eng call) :=
  match call with
  | .processLocalOp _ _ => isTrue trivial
  | .processRemoteOp op => inferInstanceAs (Decidable (op.site ≠ eng.site →
      ∀ entry ∈ eng.gh.undoQueue, ¬ (eng.gh.global.length < entry ∧ entry ≤ eng.currentSeq)))
  | .maybePackageLocalOps _ => isTrue trivial

namespace Tracked

/-- The invariant of a run. -/
structure Ok (t : Tracked) : Prop where
  linked : Linked t.engine.site t.engine.gh t.tags t.owners t.next
  counted : t.engine.gh.global.length ≤ t.engine.currentSeq

theorem start_ok (site : SiteId) (baseSeq : GlobalSeq) (doc : InternalDoc) :
    (start (ClientEngine.new site baseSeq doc)).Ok :=
  ⟨⟨rfl, fun _ h => (by cases h), rfl, rfl, List.nodup_nil, fun _ h => (by cases h),
    fun _ h => (by cases h)⟩, Nat.zero_le _⟩

theorem step_ok {t t' : Tracked} {call : Call} (h : t.Ok) (hshift : Shifts t.engine call)
    (hstep : t.step call = some t') : t'.Ok := by
  simp only [step, Option.bind_eq_bind, Option.bind_eq_some_iff] at hstep
  obtain ⟨eng', haccept, hstep⟩ := hstep
  cases call with
  | processLocalOp editorOp siteSeq =>
      cases hstep
      obtain ⟨ops, instrs, doc, gh, hlocal⟩ := accept_processLocalOp haccept
      have hsites : ∀ op ∈ ops, op.site = t.engine.site :=
        hlocal.makes.site fun redo _ entry hentry => by
          obtain ⟨_, hget, hmem⟩ := GlobalHistory.groupEntries_mem hentry
          obtain ⟨_, op, hop, hsite⟩ := h.linked.entry hmem
          rw [hget] at hop
          cases hop
          exact hsite
      obtain ⟨hglobal, new, hnew, hops, _⟩ := GlobalHistory.recordOps_ok hlocal.records
      have hmade : gh.localOps.length - t.engine.gh.localOps.length = ops.length := by
        rw [hnew, List.length_append, Nat.add_sub_cancel_left, ← hops, List.length_map]
      have hlinked := h.linked.records _ _ _ ops hsites hlocal.records
      have hcounted : gh.global.length ≤ t.engine.currentSeq := by
        rw [hglobal]
        exact h.counted
      rw [hlocal.result]
      refine ⟨?_, hcounted⟩
      simpa only [hmade, List.length_range'] using hlinked
  | processRemoteOp op =>
      obtain ⟨_, ⟨hsite, localOp, localOps, hack⟩ | ⟨hsite, instr, doc, hforeign⟩⟩ :=
        accept_processRemoteOp haccept
      · dsimp only at hstep
        rw [if_pos hsite] at hstep
        cases hstep
        rw [hack.result]
        refine ⟨h.linked.ack hack.localOps_eq hack.site_eq hsite, ?_⟩
        have hlt := Nat.succ_le_succ h.counted
        simpa using hlt
      · dsimp only at hstep
        rw [if_neg hsite] at hstep
        cases hstep
        have hqueue : (t.engine.gh.undoQueue.map fun e => if e > t.engine.currentSeq then e + 1
            else e) = t.engine.gh.undoQueue.map fun e => if e > t.engine.gh.global.length then e + 1
            else e := by
          refine List.map_congr_left fun entry hentry => ?_
          have hiff : entry > t.engine.currentSeq ↔ entry > t.engine.gh.global.length :=
            ⟨fun hgt => Nat.lt_of_le_of_lt h.counted hgt,
              fun hgt => Nat.lt_of_not_le fun hle => hshift hsite entry hentry ⟨hgt, hle⟩⟩
          simp only [hiff]
        have hthrough : (Grid.through FatOp.transform op t.engine.gh.localOps).site ≠
            t.engine.site := by
          rw [FatOp.keeps_site.through]
          exact hsite
        have hpast : (bumpUndoDeltas 0
            (Grid.past FatOp.transform op t.engine.gh.localOps)).map FatOp.site =
            t.engine.gh.localOps.map FatOp.site := by
          rw [map_bumpUndoDeltas fun _ _ => rfl, FatOp.keeps_site.past]
        have hlinked := h.linked.foreign hthrough hpast
        rw [hforeign.result, hqueue]
        refine ⟨hlinked, ?_⟩
        have hlt := Nat.succ_le_succ h.counted
        simpa using hlt
  | maybePackageLocalOps doc =>
      cases hstep
      cases haccept
      rw [maybePackageLocalOps_eq]
      split
      · split
        · exact ⟨h.linked, h.counted⟩
        · exact h
      · exact h

/-- What the undo queue is to guarantee. -/
structure UndoIntegrity (t : Tracked) : Prop where
  /-- Every entry leads to an op of the own site, the one it was recorded for. -/
  resolves : ∀ idxidx < t.engine.gh.undoQueue.length, ∃ seq op owner,
    t.engine.gh.undoQueue[idxidx]? = some seq ∧ t.engine.gh.nthInUndoQueue idxidx = some op ∧
      op.site = t.engine.site ∧ t.owners[idxidx]? = some owner ∧
      t.tags[seq - 1]? = some (some owner)
  nodup : t.engine.gh.undoQueue.Nodup
  tip : ∀ tip, t.engine.gh.undoTip = some tip → tip < t.engine.gh.undoQueue.length
  /-- An undo or a redo finds its ops, and they are of the own site. -/
  generates : ∀ redo, ∃ ops, t.engine.gh.generateUndoOp1 redo = some ops ∧
    ∀ op ∈ ops, op.site = t.engine.site

theorem Ok.integrity {t : Tracked} (h : t.Ok) : t.UndoIntegrity := by
  have hnth : ∀ idxidx < t.engine.gh.undoQueue.length, ∃ seq op owner,
      t.engine.gh.undoQueue[idxidx]? = some seq ∧ t.engine.gh.nthInUndoQueue idxidx = some op ∧
        op.site = t.engine.site ∧ t.owners[idxidx]? = some owner ∧
        t.tags[seq - 1]? = some (some owner) := by
    intro idxidx hlt
    have hseq := List.getElem?_eq_getElem hlt
    obtain ⟨hpos, op, hop, hsite⟩ := h.linked.entry (List.getElem_mem hlt)
    have howner := congrArg (fun l => l[idxidx]?) h.linked.resolves
    simp only [List.getElem?_map, hseq, Option.map_some] at howner
    obtain ⟨owner, howner, heq⟩ := Option.map_eq_some_iff.mp howner.symm
    unfold tagAt at heq
    rw [if_neg (Nat.pos_iff_ne_zero.mp hpos), eq_comm, Option.join_eq_some_iff] at heq
    exact ⟨_, op, owner, hseq,
      GlobalHistory.nthInUndoQueue_some.mpr ⟨_, hseq, hpos, hop⟩, hsite, howner, heq⟩
  refine ⟨hnth, h.linked.nodup, h.linked.tip, fun redo => ?_⟩
  have hplaces : ∀ i ∈ t.engine.gh.undoPlaces redo, i < t.engine.gh.undoQueue.length := by
    intro i hi
    unfold GlobalHistory.undoPlaces at hi
    split at hi
    · split at hi
      · cases hi
      · have := List.mem_range'_1.mp hi
        omega
    · rw [List.mem_reverse, List.mem_range] at hi
      cases htip : t.engine.gh.undoTip with
      | none => simpa [htip] using hi
      | some tip =>
          have := h.linked.tip tip htip
          simp only [htip, Option.getD_some] at hi
          omega
  have hsome : (t.engine.gh.generateUndoOp1 redo).isSome :=
    GlobalHistory.generateUndoLoop_isSome (fun i hi => by
      obtain ⟨_, op, _, _, hop, _⟩ := hnth i (hplaces i hi)
      rw [hop]
      rfl) none []
  obtain ⟨ops, hops⟩ := Option.isSome_iff_exists.mp hsome
  refine ⟨ops, hops, ?_⟩
  rw [GlobalHistory.generateUndoLoop_some hops]
  refine GlobalHistory.inverses_site (P := fun s => s = t.engine.site) ?_ fun _ h => by cases h
  intro entry hentry
  obtain ⟨_, hget, hmem⟩ := GlobalHistory.groupEntries_mem hentry
  obtain ⟨_, op, hop, hsite⟩ := h.linked.entry hmem
  rw [hget] at hop
  cases hop
  exact hsite

/-- The undo queue of a client is sound after every run in which the ops of other
sites come in while no entry lies between the two counters. -/
theorem undoQueue_integrity (site : SiteId) (baseSeq : GlobalSeq) (doc : InternalDoc)
    {calls : List Call} {t : Tracked}
    (hshift : Run.Meets step (fun t call => Shifts t.engine call)
      (start (ClientEngine.new site baseSeq doc)) calls)
    (hrun : Run.run step (start (ClientEngine.new site baseSeq doc)) calls = some t) :
    t.UndoIntegrity :=
  Ok.integrity (Run.invariant (fun _ _ _ => step_ok) (start_ok site baseSeq doc) hshift hrun)

/-- An edit of a client, an op of site 1 that the server ordered before it, and
an undo. -/
def undoAfterRemote (baseSeq : GlobalSeq) : List Call :=
  [ .processLocalOp ⟨.ins 0 ['a'], 1⟩ 1,
    .processRemoteOp ⟨some (baseSeq + 1), .ins (0, ['b']) 1, 1, .original, 1⟩,
    .processLocalOp ⟨.undo 2, 2⟩ 2 ]

/-- In a document opened at sequence number 0, the undo takes back the edit. -/
theorem undoQueue_integrity_sample :
    ∃ t, Run.run step (start (ClientEngine.new 2 0 (InternalDoc.new 3))) (undoAfterRemote 0) =
        some t ∧ t.UndoIntegrity ∧ t.engine.gh.localOps.map FatOp.op =
          [.ins (1, ['a']) 2, .mark [(1, ['a'])] false 2] := by
  obtain ⟨t, ht⟩ := Option.isSome_iff_exists.mp (show (Run.run step
    (start (ClientEngine.new 2 0 (InternalDoc.new 3))) (undoAfterRemote 0)).isSome by decide)
  refine ⟨t, ht, undoQueue_integrity 2 0 (InternalDoc.new 3) (by decide) ht, ?_⟩
  cases ht
  rfl

/-- In a document opened at sequence number 5, the entry of the edit leads to the
op of site 1, and the undo takes that one back. -/
theorem undoQueue_integrity_fails :
    ∃ t, Run.run step (start (ClientEngine.new 2 5 (InternalDoc.new 3))) (undoAfterRemote 5) =
        some t ∧ ¬ t.UndoIntegrity ∧ t.engine.gh.localOps.map FatOp.op =
          [.ins (1, ['a']) 2, .mark [(0, ['b'])] false 1] := by
  obtain ⟨t, ht⟩ := Option.isSome_iff_exists.mp (show (Run.run step
    (start (ClientEngine.new 2 5 (InternalDoc.new 3))) (undoAfterRemote 5)).isSome by decide)
  refine ⟨t, ht, fun h => ?_, ?_⟩
  · cases ht
    obtain ⟨_, op, _, _, hop, hsite, _⟩ := h.resolves 0 (by decide)
    cases hop
    exact absurd hsite (by decide)
  · cases ht
    rfl

end Tracked

end CollabMode
