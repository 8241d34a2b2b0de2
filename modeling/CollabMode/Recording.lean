import CollabMode.TwoLevel
import CollabMode.Undoing

/-!
# Recording what was undone

An undo or a redo takes the places of the undo queue before or behind the tip, one for each
op that it generates (`recordOps_undo`, `recordOps_redo`), and what it finds can always be
recorded (`generate_records`).  So an op of the editor that is refused leaves the engine as
it was, but for the number of the op (`processLocalOp_cases`).
-/

namespace CollabMode

theorem Op.isMark_inverse (op : Op) : ∃ segs, op.inverse = .mark segs (!op.sets) op.site := by
  cases op <;> exact ⟨_, rfl⟩

theorem Op.isMark_through (segs : List (Nat × Text)) (live : Bool) (site : SiteId)
    (ops : List Op) :
    ∃ segs', Grid.through Op.transform (.mark segs live site) ops = .mark segs' live site := by
  induction ops generalizing segs with
  | nil => exact ⟨segs, rfl⟩
  | cons b ops ih => cases b <;> exact ih _

namespace GlobalHistory

variable {gh : GlobalHistory} {siteSeq : LocalSeq} {groupSeq : GroupSeq}

/-! ## Recording -/

/-- The op is recorded when the entry it takes the place of is in the history. -/
theorem recordOp_of {kind : EditorOpKind} (hfits : gh.TipFits kind)
    (hentry : ∀ i e, (kind = .undo ∧ i = gh.undoTip.getD gh.undoQueue.length - 1 ∨
      kind = .redo ∧ i = gh.undoTip.getD 0) → gh.undoQueue[i]? = some e → e ≤ gh.totalLen + 1)
    (siteSeq : LocalSeq) (groupSeq : GroupSeq) (op : Op) :
    ∃ fatOp : FatOp Op, fatOp.op = op ∧ fatOp.groupSeq = groupSeq ∧
      gh.recordOp kind siteSeq groupSeq op = some (.ok (),
        { global := gh.global
          localOps := gh.localOps ++ [fatOp]
          undoQueue := placeEntry kind (gh.totalLen + 1) gh.undoQueue gh.undoTip
          undoTip := moveTip kind gh.undoQueue.length gh.undoTip }) := by
  have hkind : ∃ opKind, gh.processOpkind kind (gh.totalLen + 1) = some (.ok opKind,
      { gh with
        undoQueue := placeEntry kind (gh.totalLen + 1) gh.undoQueue gh.undoTip
        undoTip := moveTip kind gh.undoQueue.length gh.undoTip }) := by
    cases kind with
    | original =>
        cases htip : gh.undoTip with
        | none => exact ⟨.original, by simp [processOpkind, placeEntry, moveTip, htip]⟩
        | some tip =>
            have hle : tip ≤ gh.undoQueue.length := by simpa [TipFits, htip] using hfits
            exact ⟨.original, by simp [processOpkind, placeEntry, moveTip, htip, assert?, hle]⟩
    | undo =>
        obtain ⟨hpos, hlt⟩ := hfits
        obtain ⟨tip, htip⟩ := Nat.exists_eq_succ_of_ne_zero (Nat.ne_of_gt hpos)
        rw [htip, Nat.succ_sub_one] at hlt
        have hget := List.getElem?_eq_getElem hlt
        have hle := hentry tip _ (.inl ⟨rfl, by rw [htip, Nat.succ_sub_one]⟩) hget
        have hle : gh.undoQueue[tip] ≤ gh.global.length + gh.localOps.length + 1 := hle
        exact ⟨.undo _, by simp [processOpkind, placeEntry, moveTip, htip, sub?, hget, hle]; rfl⟩
    | redo =>
        obtain ⟨hsome, hlt⟩ := hfits
        obtain ⟨tip, htip⟩ := Option.isSome_iff_exists.mp hsome
        rw [htip] at hlt
        have hlt : tip < gh.undoQueue.length := hlt
        have hget := List.getElem?_eq_getElem hlt
        have hle := hentry tip _ (.inr ⟨rfl, by rw [htip]; rfl⟩) hget
        have hle : gh.undoQueue[tip] ≤ gh.global.length + gh.localOps.length + 1 := hle
        exact ⟨.undo _, by simp [processOpkind, placeEntry, moveTip, htip, sub?, hget, hle]; rfl⟩
  obtain ⟨opKind, hkind⟩ := hkind
  refine ⟨⟨none, op, siteSeq, opKind, groupSeq⟩, rfl, rfl, ?_⟩
  rw [totalLen] at hkind
  simp [recordOp, hkind, totalLen]

/-- The ops `ops` were added to the history, as `new`. -/
structure Recorded (gh gh' : GlobalHistory) (groupSeq : GroupSeq) (ops : List Op)
    (new : List (FatOp Op)) : Prop where
  global_eq : gh'.global = gh.global
  localOps_eq : gh'.localOps = gh.localOps ++ new
  ops_eq : opsOf new = ops
  group_eq : ∀ x ∈ new, x.groupSeq = groupSeq
  length_eq : gh'.undoQueue.length = gh.undoQueue.length

theorem Recorded.nil : Recorded gh gh groupSeq [] [] :=
  ⟨rfl, (List.append_nil _).symm, rfl, nofun, rfl⟩

theorem Recorded.history_eq {gh' : GlobalHistory} {ops : List Op} {new : List (FatOp Op)}
    (h : Recorded gh gh' groupSeq ops new) : gh'.history = gh.history ++ new := by
  rw [history, h.global_eq, h.localOps_eq, history, List.append_assoc]

/-- One more op in front. -/
theorem Recorded.cons {gh' : GlobalHistory} {fatOp : FatOp Op} {ops : List Op}
    {new : List (FatOp Op)} {queue : List GlobalSeq} {tip : Option Nat}
    (hgroup : fatOp.groupSeq = groupSeq) (hlen : queue.length = gh.undoQueue.length)
    (h : Recorded ⟨gh.global, gh.localOps ++ [fatOp], queue, tip⟩ gh' groupSeq ops new) :
    Recorded gh gh' groupSeq (fatOp.op :: ops) (fatOp :: new) where
  global_eq := h.global_eq
  localOps_eq := h.localOps_eq.trans (List.append_assoc ..)
  ops_eq := congrArg (List.cons fatOp.op) h.ops_eq
  group_eq := List.forall_mem_cons.mpr ⟨hgroup, h.group_eq⟩
  length_eq := h.length_eq.trans hlen

/-- The ops of an undo take the places of the queue before the tip, from the last to the
first. -/
theorem recordOps_undo {ops : List Op} {gh : GlobalHistory} {t : Nat}
    (htip : gh.undoTip.getD gh.undoQueue.length = t) (hlen : ops.length ≤ t)
    (hqueue : ∀ i, t - ops.length ≤ i → i < t →
      ∃ e, gh.undoQueue[i]? = some e ∧ e ≤ gh.totalLen) :
    ∃ new gh', recordOps .undo siteSeq groupSeq ops gh = some (.ok (), gh') ∧
      Recorded gh gh' groupSeq ops new ∧
      gh'.undoTip = (if ops = [] then gh.undoTip else some (t - ops.length)) ∧
      ∀ i, gh'.undoQueue[i]? =
        if t - ops.length ≤ i ∧ i < t then some (gh.totalLen + (t - i)) else gh.undoQueue[i]? := by
  induction ops generalizing gh t with
  | nil =>
      refine ⟨[], gh, rfl, Recorded.nil, rfl, fun i => ?_⟩
      rw [if_neg (by simp)]
  | cons op ops ih =>
      obtain ⟨t, rfl⟩ : ∃ t', t = t' + 1 := ⟨t - 1, by simp at hlen; omega⟩
      rw [List.length_cons] at hlen hqueue
      obtain ⟨e, he, hle⟩ := hqueue t (by omega) (Nat.lt_succ_self t)
      have hlt : t < gh.undoQueue.length := (List.getElem?_eq_some_iff.mp he).1
      have hfits : gh.TipFits .undo := by
        rw [TipFits, htip]
        exact ⟨Nat.succ_pos t, hlt⟩
      have hentry : ∀ i e, (EditorOpKind.undo = .undo ∧
          i = gh.undoTip.getD gh.undoQueue.length - 1 ∨
          EditorOpKind.undo = .redo ∧ i = gh.undoTip.getD 0) →
          gh.undoQueue[i]? = some e → e ≤ gh.totalLen + 1 := by
        rintro i e' (⟨-, rfl⟩ | ⟨hkind, -⟩) he'
        · rw [htip, Nat.add_sub_cancel, he] at he'
          cases he'
          exact Nat.le_succ_of_le hle
        · cases hkind
      obtain ⟨fatOp, rfl, hgroup, hrec⟩ := recordOp_of hfits hentry siteSeq groupSeq op
      simp only [placeEntry, moveTip, htip, Nat.add_sub_cancel] at hrec
      obtain ⟨new, gh', hrun, hnew, htip', hqueue'⟩ := @ih
        ⟨gh.global, gh.localOps ++ [fatOp], gh.undoQueue.set t (gh.totalLen + 1), some t⟩ t
        rfl (Nat.le_of_succ_le_succ hlen) (fun i hi hi' => by
          obtain ⟨e', he', hle'⟩ := hqueue i (by omega) (Nat.lt_succ_of_lt hi')
          refine ⟨e', ?_, Nat.le_trans hle' (by simp [totalLen])⟩
          rw [List.getElem?_set_ne (Nat.ne_of_gt hi'), he'])
      refine ⟨fatOp :: new, gh', ?_, hnew.cons hgroup (List.length_set ..), ?_, fun i => ?_⟩
      · simp only [recordOps, hrec, Option.bind_eq_bind, Option.bind_some]
        exact hrun
      · rw [htip', if_neg (List.cons_ne_nil _ _), List.length_cons, Nat.add_sub_add_right]
        split
        next h => simp [h]
        next => rfl
      · have htotal : totalLen ⟨gh.global, gh.localOps ++ [fatOp],
            gh.undoQueue.set t (gh.totalLen + 1), some t⟩ = gh.totalLen + 1 := by
          simp [totalLen, Nat.add_assoc]
        rw [hqueue', htotal, List.length_cons, Nat.add_sub_add_right]
        rcases Nat.lt_trichotomy i t with h | rfl | h
        · simp only [show i < t + 1 by omega, h, and_true]
          split
          · congr 1; omega
          · rw [List.getElem?_set_ne (Nat.ne_of_gt h)]
        · have hin : i - ops.length ≤ i ∧ i < i + 1 := by omega
          rw [if_neg (fun h => Nat.lt_irrefl i h.2), if_pos hin, List.getElem?_set_self hlt,
            Nat.add_sub_cancel_left]
        · rw [if_neg (by omega), if_neg (by omega), List.getElem?_set_ne (Nat.ne_of_lt h)]

/-- The ops of a redo take the places of the queue from the tip on. -/
theorem recordOps_redo {ops : List Op} {gh : GlobalHistory} {t : Nat}
    (htip : ops ≠ [] → gh.undoTip = some t)
    (hqueue : ∀ i, t ≤ i → i < t + ops.length →
      ∃ e, gh.undoQueue[i]? = some e ∧ e ≤ gh.totalLen) :
    ∃ new gh', recordOps .redo siteSeq groupSeq ops gh = some (.ok (), gh') ∧
      Recorded gh gh' groupSeq ops new ∧
      gh'.undoTip = (if ops = [] then gh.undoTip
        else if t + ops.length = gh.undoQueue.length then none else some (t + ops.length)) := by
  induction ops generalizing gh t with
  | nil => exact ⟨[], gh, rfl, Recorded.nil, rfl⟩
  | cons op ops ih =>
      have htip := htip (List.cons_ne_nil _ _)
      rw [List.length_cons] at hqueue
      obtain ⟨e, he, hle⟩ := hqueue t (Nat.le_refl t) (by omega)
      have hlt : t < gh.undoQueue.length := (List.getElem?_eq_some_iff.mp he).1
      have hfits : gh.TipFits .redo := by
        rw [TipFits, htip]
        exact ⟨rfl, hlt⟩
      have htip0 : gh.undoTip.getD 0 = t := by rw [htip, Option.getD_some]
      have hentry : ∀ i e, (EditorOpKind.redo = .undo ∧
          i = gh.undoTip.getD gh.undoQueue.length - 1 ∨
          EditorOpKind.redo = .redo ∧ i = gh.undoTip.getD 0) →
          gh.undoQueue[i]? = some e → e ≤ gh.totalLen + 1 := by
        rintro i e' (⟨hkind, -⟩ | ⟨-, rfl⟩) he'
        · cases hkind
        · rw [htip0, he] at he'
          cases he'
          exact Nat.le_succ_of_le hle
      obtain ⟨fatOp, rfl, hgroup, hrec⟩ := recordOp_of hfits hentry siteSeq groupSeq op
      simp only [placeEntry, moveTip, htip0] at hrec
      have hlast : ops ≠ [] → t + 1 ≠ gh.undoQueue.length := fun hne heq => by
        have hpos := List.length_pos_iff.mpr hne
        obtain ⟨e', he', -⟩ := hqueue (t + 1) (by omega) (by omega)
        have := (List.getElem?_eq_some_iff.mp he').1
        omega
      obtain ⟨new, gh', hrun, hnew, htip'⟩ := @ih
        ⟨gh.global, gh.localOps ++ [fatOp], gh.undoQueue.set t (gh.totalLen + 1),
          if t + 1 = gh.undoQueue.length then none else some (t + 1)⟩ (t + 1)
        (fun hne => if_neg (hlast hne)) (fun i hi hi' => by
          obtain ⟨e', he', hle'⟩ := hqueue i (by omega) (by omega)
          refine ⟨e', ?_, Nat.le_trans hle' (by simp [totalLen])⟩
          rw [List.getElem?_set_ne (by omega), he'])
      refine ⟨fatOp :: new, gh', ?_, hnew.cons hgroup (List.length_set ..), ?_⟩
      · simp only [recordOps, hrec, Option.bind_eq_bind, Option.bind_some]
        exact hrun
      · rw [htip', if_neg (List.cons_ne_nil _ _), List.length_cons, List.length_set]
        split
        next h => simp [h]
        next => rw [show t + 1 + ops.length = t + (ops.length + 1) by omega]

/-! ## What is generated -/

/-- The op that takes back the op of an entry, at the end of the history. -/
def undone (gh : GlobalHistory) (entry : GlobalSeq × FatOp Op) : Op :=
  Grid.through Op.transform entry.2.op.inverse ((opsOf gh.history).drop entry.1)

theorem isMark_undone (gh : GlobalHistory) (entry : GlobalSeq × FatOp Op) :
    ∃ segs, gh.undone entry = .mark segs (!entry.2.op.sets) entry.2.op.site := by
  obtain ⟨segs, hinv⟩ := entry.2.op.isMark_inverse
  rw [undone, hinv]
  exact Op.isMark_through segs _ _ _

/-- What is made for one entry does not depend on what was made before it. -/
theorem opsOf_inverses (gh : GlobalHistory) (entries : List (GlobalSeq × FatOp Op))
    {acc : List (FatOp Op)} (hacc : ∀ b ∈ opsOf acc, ∃ segs live site, b = .mark segs live site) :
    opsOf (gh.inverses entries acc) = opsOf acc ++ entries.map gh.undone := by
  induction entries generalizing acc with
  | nil => exact (List.append_nil _).symm
  | cons entry entries ih =>
      obtain ⟨seq, op⟩ := entry
      have hop : (op.inverse.batchTransform (gh.history.drop seq ++ acc)).op =
          gh.undone (seq, op) := by
        rw [FatOp.op_batchTransform, opsOf_append, Grid.through_append, through_marks hacc, undone,
          opsOf_drop]
        rfl
      rw [inverses, ih, opsOf_append, List.append_assoc]
      · show opsOf acc ++ ((op.inverse.batchTransform _).op :: _) = _
        rw [hop]
        rfl
      · rw [opsOf_append]
        refine List.forall_mem_append.mpr ⟨hacc, fun b hb => ?_⟩
        obtain ⟨segs, hmark⟩ := gh.isMark_undone (seq, op)
        rw [List.mem_singleton.mp hb, hop, hmark]
        exact ⟨_, _, _, rfl⟩

theorem opsOf_generated {redo : Bool} {fatOps : List (FatOp Op)}
    (h : gh.generateUndoOp1 redo = some fatOps) :
    opsOf fatOps = (gh.undoEntries redo).map gh.undone := by
  have hnone : ∀ b ∈ opsOf [], ∃ segs live site, b = .mark segs live site := nofun
  rw [generateUndoOp1_some h, opsOf_inverses gh _ hnone]
  rfl

/-! ## Recording what was generated -/

/-- The entries that the loop over the places has visited. -/
theorem generateUndoLoop_entries {places : List Nat} {prev : Option GroupSeq}
    {ops res : List (FatOp Op)} (h : gh.generateUndoLoop places prev ops = some res) :
    ∃ k ≤ places.length, res.length = ops.length + k ∧ ∀ j < k, ∃ i e, places[j]? = some i ∧
      gh.undoQueue[i]? = some e ∧ e ≤ gh.totalLen := by
  induction places generalizing prev ops with
  | nil =>
      cases h
      exact ⟨0, Nat.le_refl 0, rfl, nofun⟩
  | cons i places ih =>
      simp only [generateUndoLoop, Option.bind_eq_bind, Option.bind_eq_some_iff] at h
      obtain ⟨op, -, h⟩ := h
      split at h
      next =>
          cases h
          exact ⟨0, Nat.zero_le _, rfl, nofun⟩
      next =>
          simp only [Option.bind_eq_some_iff] at h
          obtain ⟨e, he, base, hbase, h⟩ := h
          obtain ⟨k, hk, hlen, hplaces⟩ := ih h
          refine ⟨k + 1, Nat.succ_le_succ hk, ?_, fun j hj => ?_⟩
          · rw [hlen, List.length_append]
            simp [Nat.add_comm, Nat.add_left_comm]
          · cases j with
            | zero => exact ⟨i, e, rfl, he, (allOpsAfter_some.mp hbase).1⟩
            | succ j => exact hplaces j (Nat.lt_of_succ_lt_succ hj)

section Generate

variable {fatOps : List (FatOp Op)}

/-- What an undo generates is recorded before the tip. -/
theorem generate_undo (h : gh.generateUndoOp1 false = some fatOps) (siteSeq : LocalSeq)
    (groupSeq : GroupSeq) :
    fatOps.length ≤ gh.undoTip.getD gh.undoQueue.length ∧
    ∃ new gh', recordOps .undo siteSeq groupSeq (opsOf fatOps) gh = some (.ok (), gh') ∧
      Recorded gh gh' groupSeq (opsOf fatOps) new ∧
      gh'.undoTip = (if opsOf fatOps = [] then gh.undoTip
        else some (gh.undoTip.getD gh.undoQueue.length - fatOps.length)) ∧
      ∀ i, gh'.undoQueue[i]? =
        if gh.undoTip.getD gh.undoQueue.length - fatOps.length ≤ i ∧
            i < gh.undoTip.getD gh.undoQueue.length then
          some (gh.totalLen + (gh.undoTip.getD gh.undoQueue.length - i))
        else gh.undoQueue[i]? := by
  obtain ⟨k, hk, hlen, hentries⟩ := generateUndoLoop_entries h
  obtain rfl : fatOps.length = k := by simpa using hlen
  have hle : fatOps.length ≤ gh.undoTip.getD gh.undoQueue.length := by simpa [undoPlaces] using hk
  refine ⟨hle, ?_⟩
  have hlen' : (opsOf fatOps).length = fatOps.length := List.length_map ..
  rw [← hlen'] at hle hentries ⊢
  refine recordOps_undo rfl hle fun i hi hlt => ?_
  obtain ⟨i', e, hi', he, hle'⟩ := hentries (gh.undoTip.getD gh.undoQueue.length - 1 - i) (by omega)
  rw [undoPlaces, if_neg Bool.false_ne_true, List.getElem?_reverse (by simp; omega),
    List.length_range, List.getElem?_range (by omega)] at hi'
  cases hi'
  refine ⟨e, ?_, hle'⟩
  rw [← he]
  congr 1
  omega

/-- What a redo generates is recorded from the tip on. -/
theorem generate_redo (h : gh.generateUndoOp1 true = some fatOps) (siteSeq : LocalSeq)
    (groupSeq : GroupSeq) :
    ∃ new gh', recordOps .redo siteSeq groupSeq (opsOf fatOps) gh = some (.ok (), gh') ∧
      Recorded gh gh' groupSeq (opsOf fatOps) new ∧
      gh'.undoTip = (if opsOf fatOps = [] then gh.undoTip
        else if gh.undoTip.getD 0 + fatOps.length = gh.undoQueue.length then none
        else some (gh.undoTip.getD 0 + fatOps.length)) := by
  obtain ⟨k, hk, hlen, hentries⟩ := generateUndoLoop_entries h
  obtain rfl : fatOps.length = k := by simpa using hlen
  have hlen' : (opsOf fatOps).length = fatOps.length := List.length_map ..
  have htip : opsOf fatOps ≠ [] → gh.undoTip = some (gh.undoTip.getD 0) := fun hne => by
    have hpos := List.length_pos_iff.mpr hne
    rw [hlen'] at hpos
    cases htip : gh.undoTip with
    | none =>
        rw [undoPlaces, if_pos rfl, htip] at hk
        exact absurd hk (Nat.not_le.mpr hpos)
    | some tip => rfl
  rw [← hlen'] at hentries ⊢
  refine recordOps_redo htip fun i hi hlt => ?_
  have htip := htip (List.ne_nil_of_length_pos (by omega))
  generalize gh.undoTip.getD 0 = t at *
  obtain ⟨i', e, hi', he, hle'⟩ := hentries (i - t) (by omega)
  rw [undoPlaces, if_pos rfl, htip] at hi'
  obtain ⟨_, rfl⟩ := List.getElem?_eq_some_iff.mp hi'
  rw [List.getElem_range', Nat.one_mul, Nat.add_sub_cancel' hi] at he
  exact ⟨e, he, hle'⟩

theorem generate_records {redo : Bool} {context : Nat} (h : gh.generateUndoOp1 redo = some fatOps)
    (siteSeq : LocalSeq) (groupSeq : GroupSeq) :
    ∃ new gh', recordOps (EditorOp.undoing redo context).kind siteSeq groupSeq (opsOf fatOps) gh =
        some (.ok (), gh') ∧ Recorded gh gh' groupSeq (opsOf fatOps) new := by
  cases redo with
  | false =>
      obtain ⟨-, new, gh', hrun, hnew, -⟩ := generate_undo h siteSeq groupSeq
      exact ⟨new, gh', hrun, hnew⟩
  | true =>
      obtain ⟨new, gh', hrun, hnew, -⟩ := generate_redo h siteSeq groupSeq
      exact ⟨new, gh', hrun, hnew⟩

end Generate

end GlobalHistory

namespace ClientEngine

variable {eng eng' : ClientEngine}

/-! ## Undoing -/

theorem applyUndoOps_eq (fatOps : List (FatOp Op)) (eng : ClientEngine) :
    applyUndoOps fatOps eng = (eng.internalDoc.convertAll (opsOf fatOps)).map fun r =>
      (opsOf fatOps, r.1, { eng with internalDoc := r.2 }) := by
  induction fatOps generalizing eng with
  | nil => rfl
  | cons fatOp fatOps ih =>
      simp only [applyUndoOps, convertInternalOpAndApply, opsOf, List.map_cons,
        InternalDoc.convertAll]
      cases hconv : eng.internalDoc.convertInternalOpAndApply fatOp.op with
      | none => rfl
      | some r =>
          simp only [Option.bind_eq_bind, Option.bind_some, ih]
          cases r.2.convertAll (fatOps.map FatOp.op) <;> rfl

/-- The ops of an undo or a redo in the context that the engine is in. -/
theorem localOpsOf_undoing (eng : ClientEngine) (redo : Bool) :
    eng.localOpsOf (.undoing redo eng.gh.totalLen) =
      (eng.gh.generateUndoOp1 redo).bind fun fatOps =>
        (eng.internalDoc.convertAll (opsOf fatOps)).map fun r =>
          (.ok (opsOf fatOps, r.1), { eng with internalDoc := r.2 }) := by
  have hundo : eng.localOpsOf (.undoing redo eng.gh.totalLen) =
      eng.undoOps redo eng.gh.totalLen := by
    cases redo <;> rfl
  rw [hundo, undoOps, if_neg (not_not_intro rfl)]
  cases eng.gh.generateUndoOp1 redo with
  | none => rfl
  | some fatOps =>
      simp only [Option.bind_eq_bind, Option.bind_some, applyUndoOps_eq]
      cases eng.internalDoc.convertAll (opsOf fatOps) <;> rfl

/-- What the engine shows the editor of the next undo or redo. -/
def preview (eng : ClientEngine) (redo : Bool) : Option (List EditInstruction × Nat) :=
  if redo then eng.generateRedoOp else eng.generateUndoOp

theorem preview_some {redo : Bool} {instrs : List EditInstruction} {context : Nat} :
    eng.preview redo = some (instrs, context) ↔ context = eng.gh.totalLen ∧
      ∃ fatOps doc, eng.gh.generateUndoOp1 redo = some fatOps ∧
        eng.internalDoc.convertAll (opsOf fatOps) = some (instrs, doc) := by
  have hpreview : eng.preview redo = (eng.gh.generateUndoOp1 redo).bind fun fatOps =>
      (eng.internalDoc.convertAll (opsOf fatOps)).map fun r => (r.1, eng.gh.totalLen) := by
    have hrun (fatOps : List (FatOp Op)) : eng.convertInternalOpsDontApply fatOps =
        (eng.internalDoc.convertAll (opsOf fatOps)).map Prod.fst := by
      rw [convertInternalOpsDontApply, applyUndoOps_eq]
      cases eng.internalDoc.convertAll (opsOf fatOps) <;> rfl
    have hboth : eng.preview redo = (eng.gh.generateUndoOp1 redo).bind fun fatOps =>
        (eng.convertInternalOpsDontApply fatOps).bind fun instrs =>
          some (instrs, eng.gh.totalLen) := by
      cases redo <;> rfl
    rw [hboth]
    refine congrArg _ (funext fun fatOps => ?_)
    rw [hrun]
    cases eng.internalDoc.convertAll (opsOf fatOps) <;> rfl
  rw [hpreview]
  simp only [Option.bind_eq_some_iff, Option.map_eq_some_iff, Prod.mk.injEq]
  constructor
  · rintro ⟨fatOps, hgen, ⟨_, doc⟩, hconv, rfl, rfl⟩
    exact ⟨rfl, fatOps, doc, hgen, hconv⟩
  · rintro ⟨rfl, fatOps, doc, hgen, hconv⟩
    exact ⟨fatOps, hgen, ⟨instrs, doc⟩, hconv, rfl, rfl⟩

/-- An undo or a redo in the context that the engine is in does what it generates, and is
recorded. -/
theorem processLocalOp_undoing {redo : Bool} {fatOps : List (FatOp Op)}
    {instrs : List EditInstruction} {doc : InternalDoc}
    (hgen : eng.gh.generateUndoOp1 redo = some fatOps)
    (hconv : eng.internalDoc.convertAll (opsOf fatOps) = some (instrs, doc))
    (groupSeq : GroupSeq) :
    ∃ new gh, eng.processLocalOp ⟨.undoing redo eng.gh.totalLen, groupSeq⟩
        (eng.currentSiteSeq + 1) = some (.ok instrs,
          { eng with currentSiteSeq := eng.currentSiteSeq + 1, internalDoc := doc, gh }) ∧
      GlobalHistory.recordOps (EditorOp.undoing redo eng.gh.totalLen).kind
        (eng.currentSiteSeq + 1) groupSeq (opsOf fatOps) eng.gh = some (.ok (), gh) ∧
      GlobalHistory.Recorded eng.gh gh groupSeq (opsOf fatOps) new := by
  obtain ⟨new, gh, hrec, hnew⟩ := GlobalHistory.generate_records hgen (eng.currentSiteSeq + 1)
    groupSeq
  refine ⟨new, gh, ?_, hrec, hnew⟩
  have hmade : localOpsOf { eng with currentSiteSeq := eng.currentSiteSeq + 1 }
      (.undoing redo eng.gh.totalLen) = some (.ok (opsOf fatOps, instrs),
        { eng with currentSiteSeq := eng.currentSiteSeq + 1, internalDoc := doc }) := by
    refine (localOpsOf_undoing { eng with currentSiteSeq := eng.currentSiteSeq + 1 } redo).trans ?_
    simp only [hgen, hconv, Option.bind_some, Option.map_some]
  simp only [processLocalOp, ne_eq, not_true_eq_false, if_false, hmade, Option.bind_eq_bind,
    Option.bind_some, hrec]

/-! ## Refused calls -/

/-- A refused op of the editor has made nothing. -/
theorem localOpsOf_error {op : EditorOp} {err : EngineError}
    (h : eng.localOpsOf op = some (.error err, eng')) : eng' = eng := by
  have hundo : ∀ redo context, eng.undoOps redo context = some (.error err, eng') →
      eng' = eng := by
    intro redo context h
    simp only [undoOps] at h
    split at h
    next =>
        cases h
        rfl
    next =>
        simp only [Option.bind_eq_bind, Option.bind_eq_some_iff] at h
        obtain ⟨_, _, _, _, heq⟩ := h
        cases heq
  cases op with
  | ins pos text =>
      simp only [localOpsOf] at h
      split at h
      next =>
          cases h
          rfl
      next =>
          simp only [Option.bind_eq_bind, Option.bind_eq_some_iff] at h
          obtain ⟨_, _, heq⟩ := h
          cases heq
  | del pos text =>
      simp only [localOpsOf] at h
      split at h
      next =>
          cases h
          rfl
      next =>
          simp only [Option.bind_eq_bind, Option.bind_eq_some_iff] at h
          obtain ⟨_, _, heq⟩ := h
          cases heq
  | undo context => exact hundo false context h
  | redo context => exact hundo true context h

/-- An edit makes one op, an undo or a redo those that are generated. -/
theorem localOpsOf_made {op : EditorOp} {ops : List Op} {instrs : List EditInstruction}
    (h : eng.localOpsOf op = some (.ok (ops, instrs), eng')) :
    (op.kind = .original ∧ ∃ op', ops = [op']) ∨
      ∃ redo fatOps, op = .undoing redo eng.gh.totalLen ∧
        eng.gh.generateUndoOp1 redo = some fatOps ∧ ops = opsOf fatOps := by
  obtain ⟨doc, hmakes, -⟩ := localOpsOf_ok h
  cases hmakes with
  | ins _ _ => exact .inl ⟨rfl, _, rfl⟩
  | del _ => exact .inl ⟨rfl, _, rfl⟩
  | undo redo _ _ =>
      rw [localOpsOf_undoing] at h
      simp only [Option.bind_eq_some_iff, Option.map_eq_some_iff] at h
      obtain ⟨fatOps, hgen, _, _, heq⟩ := h
      cases heq
      exact .inr ⟨redo, fatOps, rfl, hgen, rfl⟩

/-- What was made is recorded. -/
theorem records_made {op : EditorOp} {ops : List Op} {instrs : List EditInstruction}
    (h : eng.localOpsOf op = some (.ok (ops, instrs), eng')) (siteSeq : LocalSeq)
    (groupSeq : GroupSeq) {err : EngineError} {gh : GlobalHistory} :
    GlobalHistory.recordOps op.kind siteSeq groupSeq ops eng.gh ≠ some (.error err, gh) := by
  intro hrec
  rcases localOpsOf_made h with ⟨hkind, op', rfl⟩ | ⟨redo, fatOps, rfl, hgen, rfl⟩
  · simp only [hkind, GlobalHistory.recordOps, GlobalHistory.recordOp, GlobalHistory.processOpkind,
      Option.bind_eq_bind, Option.bind_eq_some_iff] at hrec
    obtain ⟨r, ⟨⟨opKind, gh₁⟩, hkind, hr⟩, hrec⟩ := hrec
    have hok : opKind = .ok .original := by
      split at hkind
      next =>
          simp only [Option.bind_eq_some_iff] at hkind
          obtain ⟨_, _, heq⟩ := hkind
          cases heq
          rfl
      next =>
          cases hkind
          rfl
    subst hok
    cases hr
    cases hrec
  · obtain ⟨_, _, hok, -⟩ := GlobalHistory.generate_records hgen siteSeq groupSeq
    cases hok.symm.trans hrec

/-- An op of the editor is taken, or refused for its number, or refused with the number
counted. -/
theorem processLocalOp_cases {editorOp : EditorFatOp} {siteSeq : LocalSeq}
    {res : Except EngineError (List EditInstruction)}
    (h : eng.processLocalOp editorOp siteSeq = some (res, eng')) :
    (siteSeq ≠ eng.currentSiteSeq + 1 ∧ (∃ err, res = .error err) ∧ eng' = eng) ∨
      (siteSeq = eng.currentSiteSeq + 1 ∧
        ((∃ err, res = .error err ∧ eng' = { eng with currentSiteSeq := siteSeq }) ∨
          ∃ instrs ops doc gh, res = .ok instrs ∧
            eng.LocalStep editorOp siteSeq ops instrs doc gh eng')) := by
  by_cases hseq : siteSeq = eng.currentSiteSeq + 1
  · refine .inr ⟨hseq, ?_⟩
    cases res with
    | ok instrs =>
        obtain ⟨ops, doc, gh, hstep⟩ := processLocalOp_ok h
        exact .inr ⟨instrs, ops, doc, gh, rfl, hstep⟩
    | error err =>
        refine .inl ⟨err, rfl, ?_⟩
        simp only [processLocalOp, hseq, ne_eq, not_true_eq_false, if_false, Option.bind_eq_bind,
          Option.bind_eq_some_iff] at h
        obtain ⟨⟨made, eng₁⟩, hmade, h⟩ := h
        cases made with
        | error err' =>
            cases h
            rw [localOpsOf_error hmade, hseq]
        | ok made =>
            simp only [Option.bind_eq_some_iff] at h
            obtain ⟨⟨recorded, gh⟩, hrec, h⟩ := h
            cases recorded with
            | error err' =>
                obtain ⟨doc, -, rfl⟩ := localOpsOf_ok hmade
                exact absurd hrec (records_made hmade _ _)
            | ok u => cases h
  · rw [processLocalOp, if_pos hseq] at h
    cases h
    exact .inl ⟨hseq, ⟨_, rfl⟩, rfl⟩

end ClientEngine

end CollabMode
