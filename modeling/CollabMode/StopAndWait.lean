import CollabMode.EngineSpec
import CollabMode.Lib.Run
import Mathlib.Data.List.Nodup
import Mathlib.Data.List.Range

/-!
# Stop and wait

A client sends its local ops in batches and waits for the last batch to come
back before it sends the next.  The engine does not store which local ops it has
sent.  It compares the number of the head with the number of the last op sent.

`Window` is what these numbers always satisfy: they never decrease, and the last
number sent divides the ops sent from the ops not sent.  `Tight` adds that the
first op not sent carries the very next number, which is what the comparison
looks for.  A number is used up by every op of the editor, also by an undo that
finds nothing to undo.  `Paced` is the condition under which no such gap comes to
lie between two batches.
-/

namespace CollabMode

open ClientEngine

/-! ## Numbers of local ops -/

/-- The numbers `seqs` of the local ops, of which the first `m` were sent, when
the last number sent is `last` and the last number used is `current`. -/
structure Window (seqs : List Nat) (m last current : Nat) : Prop where
  le : m ≤ seqs.length
  before : ∀ q ∈ seqs.take m, q ≤ last
  after : ∀ q ∈ seqs.drop m, last < q
  ordered : seqs.Pairwise (· ≤ ·)
  bounded : ∀ q ∈ seqs, q ≤ current
  last_le : last ≤ current

namespace Window

variable {seqs : List Nat} {m last current : Nat}

theorem nil : Window [] 0 0 0 :=
  ⟨Nat.le_refl _, by simp, by simp, List.Pairwise.nil, by simp, Nat.le_refl _⟩

/-- An op of the editor adds `n` local ops with the next number. -/
theorem push (h : Window seqs m last current) (n : Nat) :
    Window (seqs ++ List.replicate n (current + 1)) m last (current + 1) := by
  have := h.last_le
  refine ⟨?_, ?_, ?_, ?_, ?_, by omega⟩
  · have := h.le
    simp only [List.length_append]
    omega
  · rw [List.take_append_of_le_length h.le]
    exact h.before
  · rw [List.drop_append_of_le_length h.le]
    intro q hq
    rcases List.mem_append.mp hq with hq | hq
    · exact h.after q hq
    · have := List.eq_of_mem_replicate hq
      omega
  · refine List.pairwise_append.mpr ⟨h.ordered, ?_, ?_⟩
    · exact List.pairwise_replicate.mpr (Or.inr (Nat.le_refl _))
    · intro q hq r hr
      have := h.bounded q hq
      have := List.eq_of_mem_replicate hr
      omega
  · intro q hq
    rcases List.mem_append.mp hq with hq | hq
    · have := h.bounded q hq
      omega
    · exact Nat.le_of_eq (List.eq_of_mem_replicate hq)

/-- The head of the local ops comes back. -/
theorem pop {q : Nat} (h : Window (q :: seqs) (m + 1) last current) :
    Window seqs m last current :=
  ⟨Nat.le_of_succ_le_succ h.le, fun r hr => h.before r (by simp [hr]),
    fun r hr => h.after r (by simpa using hr), (List.pairwise_cons.mp h.ordered).2,
    fun r hr => h.bounded r (by simp [hr]), h.last_le⟩

/-- All local ops are sent. -/
theorem flush {q : Nat} (h : Window seqs m last current) (hq : seqs.getLast? = some q) :
    Window seqs seqs.length q current := by
  have hmem : q ∈ seqs := List.mem_of_getLast? hq
  obtain ⟨init, hinit⟩ := List.getLast?_eq_some_iff.mp hq
  refine ⟨Nat.le_refl _, ?_, by simp, h.ordered, h.bounded, h.bounded q hmem⟩
  rw [List.take_length]
  intro r hr
  have hord := h.ordered
  rw [hinit, List.pairwise_append] at hord
  rw [hinit] at hr
  rcases List.mem_append.mp hr with hr | hr
  · exact hord.2.2 r hr q (by simp)
  · exact Nat.le_of_eq (List.mem_singleton.mp hr)

/-- When the head carries a later number than the last op sent, every op sent has
come back. -/
theorem eq_zero_of_head {q : Nat} (h : Window seqs m last current) (hq : seqs.head? = some q)
    (hlt : last < q) : m = 0 := by
  cases m with
  | zero => rfl
  | succ m =>
      obtain ⟨rest, rfl⟩ := List.head?_eq_some_iff.mp hq
      have := h.before q (by simp)
      omega

end Window

/-- The first op not sent carries the next number. -/
structure Tight (seqs : List Nat) (m last current : Nat) : Prop where
  window : Window seqs m last current
  next : ∀ q, seqs[m]? = some q → q = last + 1
  caught : seqs.length = m → current = last

namespace Tight

variable {seqs : List Nat} {m last current : Nat}

theorem nil : Tight [] 0 0 0 := ⟨Window.nil, by simp, fun _ => rfl⟩

/-- A number is used up without an op only while there is an op not sent. -/
theorem push (h : Tight seqs m last current) {n : Nat}
    (hn : n = 0 → ∃ q ∈ seqs, last < q) :
    Tight (seqs ++ List.replicate n (current + 1)) m last (current + 1) := by
  have hle := h.window.le
  have hmore : n = 0 → m < seqs.length := by
    intro h0
    obtain ⟨q, hq, hlt⟩ := hn h0
    by_contra hge
    have hm : m = seqs.length := by omega
    have := h.window.before q (by rw [hm, List.take_length]; exact hq)
    omega
  refine ⟨h.window.push n, fun q hq => ?_, fun hlen => ?_⟩
  · by_cases hlt : m < seqs.length
    · rw [List.getElem?_append_left hlt] at hq
      exact h.next q hq
    · have hcaught := h.caught (by omega)
      rw [List.getElem?_append_right (by omega), List.getElem?_replicate] at hq
      split at hq
      · cases hq
        omega
      · cases hq
  · simp only [List.length_append, List.length_replicate] at hlen
    have := hmore (by omega)
    omega

theorem pop {q : Nat} (h : Tight (q :: seqs) (m + 1) last current) : Tight seqs m last current :=
  ⟨h.window.pop, fun r hr => h.next r (by simpa using hr), fun hlen => h.caught (by simp [hlen])⟩

/-- All local ops are sent, while the last of them carries the last number. -/
theorem flush (h : Tight seqs m last current) (hq : seqs.getLast? = some current) :
    Tight seqs seqs.length current current :=
  ⟨h.window.flush hq, fun r hr => by simp at hr, fun _ => rfl⟩

end Tight

/-! ## Runs with a record -/

/-- An undo or a redo that finds nothing comes only while there is an op not sent,
and no batch is sent between it and the next op. -/
def Paced (eng : ClientEngine) : Call → Prop
  | .processLocalOp editorOp _ => ∀ redo, editorOp.op = .undoing redo eng.gh.totalLen →
      eng.gh.undoEntries redo = [] → ∃ op ∈ eng.gh.localOps, eng.lastSiteSeqSentOut < op.siteSeq
  | .processRemoteOp _ => True
  | .maybePackageLocalOps _ => eng.prevOpAcked = true →
      (eng.gh.localOps.map FatOp.siteSeq).getLast? = some eng.currentSiteSeq

instance (eng : ClientEngine) (call : Call) : Decidable (Paced eng call) :=
  match call with
  | .processLocalOp editorOp _ => inferInstanceAs (Decidable (∀ redo : Bool,
      editorOp.op = .undoing redo eng.gh.totalLen → eng.gh.undoEntries redo = [] →
        ∃ op ∈ eng.gh.localOps, eng.lastSiteSeqSentOut < op.siteSeq))
  | .processRemoteOp _ => isTrue trivial
  | .maybePackageLocalOps _ => inferInstanceAs (Decidable (eng.prevOpAcked = true →
      (eng.gh.localOps.map FatOp.siteSeq).getLast? = some eng.currentSiteSeq))

/-- An engine with a record of what became of its local ops, which are numbered
in the order they are made. -/
structure Outbox where
  engine : ClientEngine
  /-- The numbers of the local ops. -/
  tags : List Nat
  /-- The number of the next local op. -/
  next : Nat
  /-- The batches sent. -/
  sent : List (List Nat)
  /-- The ops that have come back. -/
  acked : List Nat
deriving DecidableEq, Repr

namespace Outbox

def start (engine : ClientEngine) : Outbox :=
  { engine, tags := [], next := 0, sent := [], acked := [] }

/-- An accepted call.  Only an op that was sent can come back. -/
def step (t : Outbox) (call : Call) : Option Outbox := do
  let engine ← t.engine.accept call
  match call with
  | .processLocalOp _ _ =>
      let made := List.range' t.next (engine.gh.localOps.length - t.engine.gh.localOps.length)
      some { t with engine, tags := t.tags ++ made, next := t.next + made.length }
  | .processRemoteOp op =>
      if op.site = t.engine.site then
        match t.tags with
        | [] => none
        | tag :: tags =>
            if tag ∈ t.sent.flatten then some { t with engine, tags, acked := t.acked ++ [tag] }
            else none
      else some { t with engine }
  | .maybePackageLocalOps doc =>
      if (t.engine.maybePackageLocalOps doc).1.isSome then
        some { t with engine, sent := t.sent ++ [t.tags] }
      else some { t with engine }

/-- What stop-and-wait is to guarantee. -/
structure Exact (t : Outbox) : Prop where
  /-- Every batch but the last has come back. -/
  one : ∀ batch ∈ t.sent.dropLast, ∀ tag ∈ batch, tag ∈ t.acked
  /-- Every local op has come back or is still there. -/
  placed : t.acked ++ t.tags = List.range t.next
  /-- The ops are sent in order, each once. -/
  packaged : t.sent.flatten <+: List.range t.next
  /-- When everything sent has come back, everything is sent. -/
  live : (∀ tag ∈ t.sent.flatten, tag ∈ t.acked) → t.engine.gh.localOps ≠ [] → ∀ doc,
    (t.engine.maybePackageLocalOps doc).1 =
      some ⟨t.engine.currentSeq, doc, t.engine.gh.localOps⟩


/-- The invariant of a run, with `m` local ops sent. -/
structure OkAt (m : Nat) (t : Outbox) : Prop where
  placed : t.acked ++ t.tags = List.range t.next
  aligned : t.tags.length = t.engine.gh.localOps.length
  sent : t.sent.flatten = t.acked ++ t.tags.take m
  one : ∀ batch ∈ t.sent.dropLast, ∀ tag ∈ batch, tag ∈ t.acked
  tight : Tight (t.engine.gh.localOps.map FatOp.siteSeq) m t.engine.lastSiteSeqSentOut
    t.engine.currentSiteSeq

theorem start_ok (site : SiteId) (baseSeq : GlobalSeq) (doc : InternalDoc) :
    (start (ClientEngine.new site baseSeq doc)).OkAt 0 :=
  ⟨rfl, rfl, rfl, by simp [start], Tight.nil⟩

theorem OkAt.le {m : Nat} {t : Outbox} (h : t.OkAt m) : m ≤ t.tags.length := by
  have := h.tight.window.le
  rwa [List.length_map, ← h.aligned] at this

/-- Local ops enter the history. -/
theorem OkAt.place {m : Nat} {t : Outbox} (h : t.OkAt m) {eng' : ClientEngine}
    {new : List (FatOp Op)} (hlocal : eng'.gh.localOps = t.engine.gh.localOps ++ new)
    (hseqs : ∀ op ∈ new, op.siteSeq = t.engine.currentSiteSeq + 1)
    (hcurrent : eng'.currentSiteSeq = t.engine.currentSiteSeq + 1)
    (hlast : eng'.lastSiteSeqSentOut = t.engine.lastSiteSeqSentOut)
    (hpaced : new = [] → ∃ op ∈ t.engine.gh.localOps,
      t.engine.lastSiteSeqSentOut < op.siteSeq) :
    OkAt m { t with
      engine := eng', tags := t.tags ++ List.range' t.next new.length
      next := t.next + new.length } := by
  have hnew : new.map FatOp.siteSeq =
      List.replicate new.length (t.engine.currentSiteSeq + 1) := by
    refine List.eq_replicate_iff.mpr ⟨List.length_map _, fun q hq => ?_⟩
    obtain ⟨op, hop, rfl⟩ := List.mem_map.mp hq
    exact hseqs op hop
  refine ⟨?_, by simp [hlocal, h.aligned], ?_, h.one, ?_⟩
  · rw [← List.append_assoc, h.placed, List.range_eq_range', List.range_eq_range',
      ← List.range'_append_1, Nat.zero_add]
  · rw [List.take_append_of_le_length h.le]
    exact h.sent
  · rw [hlocal, List.map_append, hnew, hcurrent, hlast]
    refine h.tight.push fun h0 => ?_
    obtain ⟨op, hop, hlt⟩ := hpaced (List.length_eq_zero_iff.mp h0)
    exact ⟨op.siteSeq, List.mem_map_of_mem hop, hlt⟩

/-- The head of the local ops comes back. -/
theorem OkAt.ack {m : Nat} {t : Outbox} (h : t.OkAt m) {eng' : ClientEngine} {localOp : FatOp Op}
    {localOps : List (FatOp Op)} (hlocal : t.engine.gh.localOps = localOp :: localOps)
    (hlocal' : eng'.gh.localOps = localOps) {tag : Nat} {tags : List Nat}
    (htags : t.tags = tag :: tags) (hsent : tag ∈ t.sent.flatten)
    (hcurrent : eng'.currentSiteSeq = t.engine.currentSiteSeq)
    (hlast : eng'.lastSiteSeqSentOut = t.engine.lastSiteSeqSentOut) :
    ∃ m', OkAt m' { t with engine := eng', tags, acked := t.acked ++ [tag] } := by
  have hplaced := h.placed
  have hs := h.sent
  have htight := h.tight
  rw [htags] at hplaced hs
  rw [hlocal, List.map_cons] at htight
  have hnotin : tag ∉ t.acked := by
    intro hmem
    have hnodup := List.nodup_range (n := t.next)
    rw [← hplaced] at hnodup
    exact (List.nodup_append.mp hnodup).2.2 tag hmem tag (by simp) rfl
  cases m with
  | zero =>
      rw [hs] at hsent
      simp [hnotin] at hsent
  | succ m =>
      refine ⟨m, by simpa using hplaced, ?_, by simpa using hs, ?_, ?_⟩
      · have := h.aligned
        simpa [htags, hlocal, hlocal'] using this
      · intro batch hbatch tag' htag'
        exact List.mem_append_left _ (h.one batch hbatch tag' htag')
      · rw [hlocal', hcurrent, hlast]
        exact htight.pop

/-- All local ops are sent. -/
theorem OkAt.package {m : Nat} {t : Outbox} (h : t.OkAt m) {first : FatOp Op}
    (hfirst : t.engine.gh.localOps.head? = some first)
    (hnext : first.siteSeq = t.engine.lastSiteSeqSentOut + 1)
    (hcurrent : (t.engine.gh.localOps.map FatOp.siteSeq).getLast? = some t.engine.currentSiteSeq)
    {last : LocalSeq} (hlast : last = t.engine.currentSiteSeq) :
    OkAt t.tags.length { t with
      engine := { t.engine with lastSiteSeqSentOut := last }, sent := t.sent ++ [t.tags] } := by
  have hm : m = 0 := by
    refine h.tight.window.eq_zero_of_head (q := first.siteSeq) ?_ ?_
    · rw [List.head?_map, hfirst]
      rfl
    · rw [hnext]
      exact Nat.lt_succ_self _
  subst hm
  have hs : t.sent.flatten = t.acked := by simpa using h.sent
  refine ⟨h.placed, h.aligned, by simp [hs], ?_, ?_⟩
  · intro batch hbatch tag htag
    rw [List.dropLast_concat] at hbatch
    rw [← hs]
    exact List.mem_flatten.mpr ⟨batch, hbatch, htag⟩
  · have hflush := h.tight.flush hcurrent
    rw [List.length_map, ← h.aligned] at hflush
    rw [hlast]
    exact hflush

theorem step_ok {t t' : Outbox} {call : Call} (h : ∃ m, t.OkAt m) (hpaced : Paced t.engine call)
    (hstep : t.step call = some t') : ∃ m, t'.OkAt m := by
  obtain ⟨m, h⟩ := h
  simp only [step, Option.bind_eq_bind, Option.bind_eq_some_iff] at hstep
  obtain ⟨eng', haccept, hstep⟩ := hstep
  cases call with
  | processLocalOp editorOp siteSeq =>
      cases hstep
      obtain ⟨ops, instrs, doc, gh, hlocal⟩ := accept_processLocalOp haccept
      obtain ⟨_, new, hnew, hops, hseqs⟩ := GlobalHistory.recordOps_ok hlocal.records
      rw [hlocal.result]
      have hmade : gh.localOps.length - t.engine.gh.localOps.length = new.length := by
        rw [hnew, List.length_append, Nat.add_sub_cancel_left]
      have hempty : new = [] → ∃ op ∈ t.engine.gh.localOps,
          t.engine.lastSiteSeqSentOut < op.siteSeq := by
        rintro rfl
        obtain rfl : ops = [] := hops.symm
        have hmakes := hlocal.makes
        generalize hop : editorOp.op = op at hmakes
        cases hmakes with
        | undo redo hinv _ =>
            refine hpaced redo hop ?_
            have := congrArg List.length hinv
            rw [List.length_map, GlobalHistory.inverses_length] at this
            simpa using this.symm
      let eng₁ : ClientEngine :=
        { t.engine with currentSiteSeq := siteSeq, internalDoc := doc, gh }
      have hplace := h.place (show eng₁.gh.localOps = _ from hnew)
        (fun op hop => (hseqs op hop).trans hlocal.siteSeq_eq) hlocal.siteSeq_eq rfl hempty
      refine ⟨m, ?_⟩
      simpa only [hmade, List.length_range'] using hplace
  | processRemoteOp op =>
      dsimp only at hstep
      obtain ⟨_, ⟨hsite, localOp, localOps, hack⟩ | ⟨hsite, instr, doc, hforeign⟩⟩ :=
        accept_processRemoteOp haccept
      · rw [if_pos hsite] at hstep
        split at hstep
        next => cases hstep
        next tag tags htags =>
            split at hstep
            next hsent =>
                cases hstep
                rw [hack.result]
                exact h.ack hack.localOps_eq rfl htags hsent rfl rfl
            next => cases hstep
      · rw [if_neg hsite] at hstep
        cases hstep
        rw [hforeign.result]
        have hseqs : (bumpUndoDeltas 0
            (Grid.past FatOp.transform op t.engine.gh.localOps)).map FatOp.siteSeq =
            t.engine.gh.localOps.map FatOp.siteSeq := by
          rw [map_bumpUndoDeltas fun _ _ => rfl, FatOp.keeps_siteSeq.past]
        refine ⟨m, h.placed, ?_, h.sent, h.one, ?_⟩
        · rw [h.aligned]
          have := congrArg List.length hseqs
          rw [List.length_map, List.length_map] at this
          exact this.symm
        · dsimp only
          rw [hseqs]
          exact h.tight
  | maybePackageLocalOps doc =>
      cases haccept
      have hpackage := maybePackageLocalOps_eq t.engine doc
      dsimp only at hstep
      split at hpackage
      next first last hfirst hlast =>
          split at hpackage
          next hnext =>
              rw [hpackage] at hstep
              cases hstep
              have hacked : t.engine.prevOpAcked = true := by simp [prevOpAcked, hfirst, hnext]
              have hcurrent := hpaced hacked
              have heq := hcurrent
              rw [List.getLast?_map, hlast, Option.map_some, Option.some_inj] at heq
              exact ⟨_, h.package hfirst hnext hcurrent heq⟩
          next =>
              rw [hpackage] at hstep
              cases hstep
              exact ⟨m, h⟩
      next =>
          rw [hpackage] at hstep
          cases hstep
          exact ⟨m, h⟩

theorem OkAt.exact {m : Nat} {t : Outbox} (h : t.OkAt m) : t.Exact := by
  refine ⟨h.one, h.placed, ?_, fun hacked hne doc => ?_⟩
  · rw [← h.placed, h.sent]
    exact List.prefix_append_right_inj _ |>.mpr (List.take_prefix m t.tags)
  · -- Nothing sent is still there, so the head is the first op not sent.
    have hm : m = 0 := by
      by_contra hpos
      obtain ⟨op, ops, hlocal⟩ := List.exists_cons_of_ne_nil hne
      obtain ⟨tag, tags, htags⟩ : ∃ tag tags, t.tags = tag :: tags := by
        refine List.exists_cons_of_length_pos ?_
        rw [h.aligned, hlocal]
        exact Nat.succ_pos _
      obtain ⟨k, rfl⟩ := Nat.exists_eq_succ_of_ne_zero hpos
      have hmem : tag ∈ t.acked := hacked tag (by simp [h.sent, htags])
      have hnodup := List.nodup_range (n := t.next)
      rw [← h.placed, htags] at hnodup
      exact (List.nodup_append.mp hnodup).2.2 tag hmem tag (by simp) rfl
    subst hm
    obtain ⟨first, rest, hlocal⟩ := List.exists_cons_of_ne_nil hne
    have hnext := h.tight.next first.siteSeq (by simp [hlocal])
    obtain ⟨last, hlast⟩ : ∃ last, (first :: rest).getLast? = some last :=
      ⟨_, List.getLast?_eq_some_getLast (by simp)⟩
    rw [maybePackageLocalOps_eq, hlocal]
    simp only [List.head?_cons, hlast]
    rw [if_pos hnext]

/-- Stop-and-wait is live and exact after every run in which an undo or a redo
that finds nothing leaves no gap between two batches. -/
theorem stopAndWait_exact (site : SiteId) (baseSeq : GlobalSeq) (doc : InternalDoc)
    {calls : List Call} {t : Outbox}
    (hpaced : Run.Meets step (fun t call => Paced t.engine call)
      (start (ClientEngine.new site baseSeq doc)) calls)
    (hrun : Run.run step (start (ClientEngine.new site baseSeq doc)) calls = some t) :
    t.Exact := by
  obtain ⟨m, h⟩ := Run.invariant (fun _ _ _ => step_ok) ⟨0, start_ok site baseSeq doc⟩ hpaced hrun
  exact h.exact

/-- An edit is sent, a second one and an undo with nothing to redo wait for it,
and it comes back. -/
def editsInTwoBatches : List Call :=
  [ .processLocalOp ⟨.ins 0 ['a'], 1⟩ 1, .maybePackageLocalOps 0,
    .processLocalOp ⟨.ins 1 ['b'], 2⟩ 2, .processLocalOp ⟨.redo 2, 3⟩ 3,
    .processLocalOp ⟨.ins 2 ['c'], 4⟩ 4,
    .processRemoteOp ⟨some 1, .ins (0, ['a']) 2, 1, .original, 1⟩ ]

theorem stopAndWait_exact_sample :
    ∃ t, Run.run step (start (ClientEngine.new 2 0 (InternalDoc.new 0))) editsInTwoBatches =
        some t ∧ t.Exact ∧ t.engine.gh.localOps.length = 2 := by
  obtain ⟨t, ht⟩ := Option.isSome_iff_exists.mp (show (Run.run step
    (start (ClientEngine.new 2 0 (InternalDoc.new 0))) editsInTwoBatches).isSome by decide)
  refine ⟨t, ht, stopAndWait_exact 2 0 (InternalDoc.new 0) (by decide) ht, ?_⟩
  cases ht
  rfl

/-- After an undo with nothing to undo, the first edit is never sent. -/
theorem stopAndWait_exact_fails :
    ∃ t, Run.run step (start (ClientEngine.new 2 0 (InternalDoc.new 0)))
        [.processLocalOp ⟨.undo 0, 1⟩ 1, .processLocalOp ⟨.ins 0 ['a'], 2⟩ 2] = some t ∧
      ¬ t.Exact := by
  obtain ⟨t, ht⟩ := Option.isSome_iff_exists.mp (show (Run.run step
    (start (ClientEngine.new 2 0 (InternalDoc.new 0)))
    [.processLocalOp ⟨.undo 0, 1⟩ 1, .processLocalOp ⟨.ins 0 ['a'], 2⟩ 2]).isSome by decide)
  refine ⟨t, ht, fun h => ?_⟩
  cases ht
  exact absurd (h.live (by decide) (by decide) 0) (by decide)

end Outbox

end CollabMode
