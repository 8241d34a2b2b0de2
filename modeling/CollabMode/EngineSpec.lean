import CollabMode.Engine

/-!
# What the methods of the engines do

One lemma for each method, which says all that a successful call does.  Later
modules use these and do not unfold the methods.

`history` is the global and the local part in one list, the list that the undo
queue points into.  `placeEntry` and `moveTip` say what a new operation does to
the queue and its tip.  They are generic in the entries, so that the same update
can be made to a list that runs parallel to the queue.
-/

namespace CollabMode

theorem sub?_some {a b c : Nat} : sub? a b = some c ↔ b ≤ a ∧ c = a - b := by
  unfold sub?
  split
  next h => simp [h, eq_comm]
  next h => simp [h]

theorem assert?_some {p : Prop} [Decidable p] {u : Unit} : assert? p = some u ↔ p := by
  unfold assert?
  split
  next h => simp [h]
  next h => simp [h]

/-! ## The undo queue -/

section Queue

variable {α β : Type}

/-- The queue after an op of kind `kind` was recorded as `x`. -/
def placeEntry (kind : EditorOpKind) (x : α) (queue : List α) (tip : Option Nat) : List α :=
  match kind with
  | .original => queue.take (tip.getD queue.length) ++ [x]
  | .undo => queue.set (tip.getD queue.length - 1) x
  | .redo => queue.set (tip.getD 0) x

/-- The tip after an op of kind `kind` was recorded in a queue of `n` entries. -/
def moveTip (kind : EditorOpKind) (n : Nat) (tip : Option Nat) : Option Nat :=
  match kind with
  | .original => none
  | .undo => some (tip.getD n - 1)
  | .redo => if tip.getD 0 + 1 = n then none else some (tip.getD 0 + 1)

theorem map_placeEntry (f : α → β) (kind : EditorOpKind) (x : α) (queue : List α)
    (tip : Option Nat) :
    (placeEntry kind x queue tip).map f = placeEntry kind (f x) (queue.map f) tip := by
  cases kind <;> simp [placeEntry, List.map_take, List.map_set]

theorem mem_placeEntry {kind : EditorOpKind} {x y : α} {queue : List α} {tip : Option Nat}
    (h : y ∈ placeEntry kind x queue tip) : y = x ∨ y ∈ queue := by
  cases kind with
  | original =>
      rcases List.mem_append.mp h with h | h
      · exact Or.inr (List.mem_of_mem_take h)
      · exact Or.inl (List.mem_singleton.mp h)
  | undo => exact (List.mem_or_eq_of_mem_set h).symm
  | redo => exact (List.mem_or_eq_of_mem_set h).symm

theorem nodup_set {queue : List α} {x : α} (h : queue.Nodup) (hx : x ∉ queue) (i : Nat) :
    (queue.set i x).Nodup := by
  induction queue generalizing i with
  | nil => simp
  | cons y queue ih =>
      obtain ⟨hy, hrest⟩ := List.nodup_cons.mp h
      have hxy : x ≠ y := fun heq => hx (by simp [heq])
      have hxq : x ∉ queue := fun hmem => hx (by simp [hmem])
      cases i with
      | zero => exact List.nodup_cons.mpr ⟨hxq, hrest⟩
      | succ i =>
          refine List.nodup_cons.mpr ⟨fun hmem => ?_, ih hrest hxq i⟩
          rcases List.mem_or_eq_of_mem_set hmem with hmem | rfl
          · exact hy hmem
          · exact hxy rfl

/-- A new entry keeps the entries distinct. -/
theorem nodup_placeEntry {kind : EditorOpKind} {x : α} {queue : List α} {tip : Option Nat}
    (h : queue.Nodup) (hx : x ∉ queue) : (placeEntry kind x queue tip).Nodup := by
  cases kind with
  | original =>
      have hx' : x ∉ queue.take (tip.getD queue.length) := fun hm => hx (List.mem_of_mem_take hm)
      refine List.nodup_append.mpr
        ⟨h.sublist (List.take_sublist _ _), by simp, ?_⟩
      rintro y hy z hz rfl
      rw [List.mem_singleton] at hz
      exact hx' (hz ▸ hy)
  | undo => exact nodup_set h hx _
  | redo => exact nodup_set h hx _

end Queue

namespace GlobalHistory

/-- The global and the local ops. -/
def history (gh : GlobalHistory) : List (FatOp Op) := gh.global ++ gh.localOps

@[simp] theorem history_length (gh : GlobalHistory) : gh.history.length = gh.totalLen :=
  List.length_append

theorem opsAfter_eq (gh : GlobalHistory) (seq : GlobalSeq) :
    gh.opsAfter seq = gh.global.drop seq := by
  unfold opsAfter
  split
  next => rfl
  next h => rw [List.drop_eq_nil_of_le (Nat.le_of_not_lt h)]

/-- Where the ops after `seq` exist, they are the rest of the history. -/
theorem allOpsAfter_some {gh : GlobalHistory} {seq : Nat} {ops : List (FatOp Op)} :
    gh.allOpsAfter seq = some ops ↔ seq ≤ gh.totalLen ∧ ops = gh.history.drop seq := by
  unfold allOpsAfter history totalLen
  split
  next h =>
      have hle : seq ≤ gh.global.length + gh.localOps.length :=
        Nat.le_trans (Nat.le_of_lt h) (Nat.le_add_right _ _)
      rw [Option.some_inj, List.drop_append_of_le_length (Nat.le_of_lt h), eq_comm (b := ops)]
      simp [hle]
  next h =>
      have hdrop : (gh.global ++ gh.localOps).drop seq =
          gh.localOps.drop (seq - gh.global.length) := by
        rw [List.drop_append, List.drop_eq_nil_of_le (Nat.le_of_not_lt h), List.nil_append]
      have hsub : sub? seq gh.global.length = some (seq - gh.global.length) :=
        sub?_some.mpr ⟨Nat.le_of_not_lt h, rfl⟩
      rw [hsub, hdrop]
      by_cases hle : seq - gh.global.length ≤ gh.localOps.length
      · have hseq : seq ≤ gh.global.length + gh.localOps.length := by omega
        simp [assert?, hle, hseq, eq_comm]
      · have hseq : ¬ seq ≤ gh.global.length + gh.localOps.length := by omega
        simp [assert?, hle, hseq]

/-- An entry is a place in the history, counted from 1. -/
theorem nthInUndoQueue_some {gh : GlobalHistory} {idxidx : Nat} {op : FatOp Op} :
    gh.nthInUndoQueue idxidx = some op ↔
      ∃ seq, gh.undoQueue[idxidx]? = some seq ∧ 0 < seq ∧ gh.history[seq - 1]? = some op := by
  unfold nthInUndoQueue history
  simp only [Option.bind_eq_bind, Option.bind_eq_some_iff, sub?_some]
  constructor
  · rintro ⟨seq, hseq, idx, ⟨hle, rfl⟩, hget⟩
    refine ⟨seq, hseq, hle, ?_⟩
    rw [List.getElem?_append]
    exact hget
  · rintro ⟨seq, hseq, hpos, hget⟩
    refine ⟨seq, hseq, seq - 1, ⟨hpos, rfl⟩, ?_⟩
    rw [List.getElem?_append] at hget
    exact hget

/-! ## Recording local ops -/

/-- What recording an op of kind `kind` needs of the tip. -/
def TipFits (gh : GlobalHistory) : EditorOpKind → Prop
  | .original => gh.undoTip.getD gh.undoQueue.length ≤ gh.undoQueue.length
  | .undo => 0 < gh.undoTip.getD gh.undoQueue.length ∧
      gh.undoTip.getD gh.undoQueue.length - 1 < gh.undoQueue.length
  | .redo => gh.undoTip.isSome ∧ gh.undoTip.getD 0 < gh.undoQueue.length

/-- The new tip is a place of the new queue. -/
theorem TipFits.lt {gh : GlobalHistory} {kind : EditorOpKind} (h : gh.TipFits kind)
    (seq : GlobalSeq) : ∀ tip, moveTip kind gh.undoQueue.length gh.undoTip = some tip →
      tip < (placeEntry kind seq gh.undoQueue gh.undoTip).length := by
  intro tip htip
  cases kind with
  | original => cases htip
  | undo =>
      cases htip
      simpa [placeEntry] using h.2
  | redo =>
      simp only [moveTip] at htip
      split at htip
      · cases htip
      · cases htip
        have := h.2
        simp only [placeEntry, List.length_set]
        omega

theorem processOpkind_ok {gh gh' : GlobalHistory} {kind : EditorOpKind} {opSeq : GlobalSeq}
    {opKind : OpKind} (h : gh.processOpkind kind opSeq = some (.ok opKind, gh')) :
    gh.TipFits kind ∧
      gh' = { gh with
        undoQueue := placeEntry kind opSeq gh.undoQueue gh.undoTip
        undoTip := moveTip kind gh.undoQueue.length gh.undoTip } := by
  cases kind with
  | original =>
      simp only [processOpkind] at h
      split at h
      next idx htip =>
          simp only [Option.bind_eq_bind, Option.bind_eq_some_iff, assert?_some] at h
          obtain ⟨_, hle, heq⟩ := h
          cases heq
          simp [TipFits, placeEntry, moveTip, htip, hle]
      next htip =>
          cases h
          simp [TipFits, placeEntry, moveTip, htip]
  | undo =>
      simp only [processOpkind] at h
      split at h
      next => cases h
      next tip htip =>
          simp only [Option.bind_eq_bind, Option.bind_eq_some_iff] at h
          obtain ⟨orig, horig, delta, _, heq⟩ := h
          cases heq
          have hlt := (List.getElem?_eq_some_iff.mp horig).1
          simp [TipFits, placeEntry, moveTip, htip, hlt]
  | redo =>
      simp only [processOpkind] at h
      split at h
      next => cases h
      next idx htip =>
          simp only [Option.bind_eq_bind, Option.bind_eq_some_iff] at h
          obtain ⟨inverse, hinv, delta, _, heq⟩ := h
          cases heq
          have hlt := (List.getElem?_eq_some_iff.mp hinv).1
          simp [TipFits, placeEntry, moveTip, htip, hlt]

/-- The op that was added to the history. -/
theorem recordOp_ok {gh gh' : GlobalHistory} {kind : EditorOpKind} {siteSeq : LocalSeq}
    {groupSeq : GroupSeq} {op : Op} {u : Unit}
    (h : gh.recordOp kind siteSeq groupSeq op = some (.ok u, gh')) :
    gh.TipFits kind ∧ ∃ fatOp : FatOp Op, fatOp.op = op ∧ fatOp.siteSeq = siteSeq ∧
      gh' =
        { global := gh.global
          localOps := gh.localOps ++ [fatOp]
          undoQueue := placeEntry kind (gh.totalLen + 1) gh.undoQueue gh.undoTip
          undoTip := moveTip kind gh.undoQueue.length gh.undoTip } := by
  simp only [recordOp, Option.bind_eq_bind, Option.bind_eq_some_iff] at h
  obtain ⟨⟨res, gh₁⟩, hkind, h⟩ := h
  cases res with
  | error err => cases h
  | ok opKind =>
      obtain ⟨hfits, rfl⟩ := processOpkind_ok hkind
      cases h
      exact ⟨hfits, _, rfl, rfl, rfl⟩

theorem recordOps_cons {gh gh' : GlobalHistory} {kind : EditorOpKind} {siteSeq : LocalSeq}
    {groupSeq : GroupSeq} {op : Op} {ops : List Op} {u : Unit}
    (h : recordOps kind siteSeq groupSeq (op :: ops) gh = some (.ok u, gh')) :
    ∃ gh₁, gh.recordOp kind siteSeq groupSeq op = some (.ok (), gh₁) ∧
      recordOps kind siteSeq groupSeq ops gh₁ = some (.ok u, gh') := by
  simp only [recordOps, Option.bind_eq_bind, Option.bind_eq_some_iff] at h
  obtain ⟨⟨res, gh₁⟩, hrec, h⟩ := h
  cases res with
  | error err => cases h
  | ok u => exact ⟨gh₁, hrec, h⟩

/-- The ops that were added to the history. -/
theorem recordOps_ok {kind : EditorOpKind} {siteSeq : LocalSeq} {groupSeq : GroupSeq}
    {ops : List Op} {u : Unit} {gh gh' : GlobalHistory}
    (h : recordOps kind siteSeq groupSeq ops gh = some (.ok u, gh')) :
    gh'.global = gh.global ∧ ∃ new : List (FatOp Op), gh'.localOps = gh.localOps ++ new ∧
      new.map FatOp.op = ops ∧ ∀ x ∈ new, x.siteSeq = siteSeq := by
  induction ops generalizing gh with
  | nil =>
      cases h
      exact ⟨rfl, [], by simp⟩
  | cons op ops ih =>
      obtain ⟨gh₁, hrec, hrest⟩ := recordOps_cons h
      obtain ⟨_, fatOp, hop, hseq, rfl⟩ := recordOp_ok hrec
      obtain ⟨hglobal, new, hlocal, hnew, hseqs⟩ := ih hrest
      refine ⟨hglobal, fatOp :: new, by simp [hlocal], by simp [hop, hnew], ?_⟩
      intro x hx
      rcases List.mem_cons.mp hx with rfl | hx
      · exact hseq
      · exact hseqs x hx

/-- The entries of the queue are old or lead to the new ops, and the tip is one of them. -/
theorem recordOps_queue {kind : EditorOpKind} {siteSeq : LocalSeq} {groupSeq : GroupSeq}
    {ops : List Op} {u : Unit} {gh gh' : GlobalHistory}
    (h : recordOps kind siteSeq groupSeq ops gh = some (.ok u, gh'))
    (htip : ∀ tip, gh.undoTip = some tip → tip < gh.undoQueue.length) :
    (∀ e : Nat, e ∈ gh'.undoQueue → e ∈ gh.undoQueue ∨ gh.totalLen < e ∧ e ≤ gh'.totalLen) ∧
      ∀ tip, gh'.undoTip = some tip → tip < gh'.undoQueue.length := by
  induction ops generalizing gh with
  | nil =>
      cases h
      exact ⟨fun e he => .inl he, htip⟩
  | cons op ops ih =>
      obtain ⟨gh₁, hrec, hrest⟩ := recordOps_cons h
      obtain ⟨hfits, fatOp, -, -, rfl⟩ := recordOp_ok hrec
      obtain ⟨hqueue, htip'⟩ := ih hrest (hfits.lt _)
      refine ⟨fun e he => ?_, htip'⟩
      obtain ⟨hglobal, new, hlocal, -⟩ := recordOps_ok hrest
      have hlen : gh.totalLen + 1 ≤ gh'.totalLen := by
        simp only [totalLen, hglobal, hlocal, List.length_append, List.length_singleton]
        omega
      have hlen₁ : totalLen ⟨gh.global, gh.localOps ++ [fatOp],
          placeEntry kind (gh.totalLen + 1) gh.undoQueue gh.undoTip,
          moveTip kind gh.undoQueue.length gh.undoTip⟩ = gh.totalLen + 1 := by
        simp [totalLen, Nat.add_assoc]
      rcases hqueue e he with he | ⟨hlt, hle⟩
      · rcases mem_placeEntry he with rfl | he
        · exact .inr ⟨Nat.lt_succ_self _, hlen⟩
        · exact .inl he
      · rw [hlen₁] at hlt
        exact .inr ⟨Nat.lt_of_succ_lt hlt, hle⟩

/-! ## Undo ops -/

/-- The entries of one group, in the order of `places`, with the ops they refer
to. -/
def groupEntries (gh : GlobalHistory) :
    List Nat → Option GroupSeq → List (GlobalSeq × FatOp Op)
  | [], _ => []
  | idxidx :: places, prevGroupSeq =>
      match gh.undoQueue[idxidx]?, gh.nthInUndoQueue idxidx with
      | some seq, some op =>
          if prevGroupSeq.any fun groupSeq => groupSeq != op.groupSeq then []
          else (seq, op) :: groupEntries gh places (some op.groupSeq)
      | _, _ => []

/-- The entries of the undo queue that the next undo or redo takes. -/
def undoEntries (gh : GlobalHistory) (redo : Bool) : List (GlobalSeq × FatOp Op) :=
  gh.groupEntries (gh.undoPlaces redo) none

/-- The inverse of the ops of the entries, each carried to the end of the history
and past the inverses made before it. -/
def inverses (gh : GlobalHistory) : List (GlobalSeq × FatOp Op) → List (FatOp Op) →
    List (FatOp Op)
  | [], ops => ops
  | (seq, op) :: entries, ops =>
      inverses gh entries (ops ++ [op.inverse.batchTransform (gh.history.drop seq ++ ops)])

theorem groupEntries_mem {gh : GlobalHistory} {places : List Nat} {prev : Option GroupSeq}
    {entry : GlobalSeq × FatOp Op} (h : entry ∈ gh.groupEntries places prev) :
    0 < entry.1 ∧ gh.history[entry.1 - 1]? = some entry.2 ∧ entry.1 ∈ gh.undoQueue := by
  induction places generalizing prev with
  | nil => cases h
  | cons idxidx places ih =>
      simp only [groupEntries] at h
      split at h
      next seq op hseq hop =>
          obtain ⟨seq', hseq', hpos, hget⟩ := nthInUndoQueue_some.mp hop
          rw [hseq] at hseq'
          cases hseq'
          split at h
          · cases h
          · rcases List.mem_cons.mp h with rfl | h
            · exact ⟨hpos, hget, List.mem_of_getElem? hseq⟩
            · exact ih h
      next => cases h

theorem generateUndoLoop_some {gh : GlobalHistory} {places : List Nat} {prev : Option GroupSeq}
    {ops res : List (FatOp Op)} (h : gh.generateUndoLoop places prev ops = some res) :
    res = gh.inverses (gh.groupEntries places prev) ops := by
  induction places generalizing prev ops with
  | nil =>
      cases h
      rfl
  | cons idxidx places ih =>
      simp only [generateUndoLoop, Option.bind_eq_bind, Option.bind_eq_some_iff] at h
      obtain ⟨op, hop, h⟩ := h
      obtain ⟨seq, hseq, _, _⟩ := nthInUndoQueue_some.mp hop
      simp only [groupEntries, hseq, hop]
      split at h
      next hgroup =>
          cases h
          rw [if_pos hgroup]
          rfl
      next hgroup =>
          rw [if_neg hgroup]
          simp only [hseq, Option.bind_some, Option.bind_eq_some_iff] at h
          obtain ⟨base, hbase, h⟩ := h
          obtain ⟨_, rfl⟩ := allOpsAfter_some.mp hbase
          exact ih h

/-- The ops of an undo or a redo. -/
theorem generateUndoOp1_some {gh : GlobalHistory} {redo : Bool} {ops : List (FatOp Op)}
    (h : gh.generateUndoOp1 redo = some ops) : ops = gh.inverses (gh.undoEntries redo) [] :=
  generateUndoLoop_some h

/-- When every entry refers to an op, the loop does not panic. -/
theorem generateUndoLoop_isSome {gh : GlobalHistory} {places : List Nat}
    (hnth : ∀ i ∈ places, (gh.nthInUndoQueue i).isSome) (prev : Option GroupSeq)
    (ops : List (FatOp Op)) : (gh.generateUndoLoop places prev ops).isSome := by
  induction places generalizing prev ops with
  | nil => rfl
  | cons idxidx places ih =>
      obtain ⟨op, hop⟩ := Option.isSome_iff_exists.mp (hnth idxidx (by simp))
      obtain ⟨seq, hseq, hpos, hget⟩ := nthInUndoQueue_some.mp hop
      have hlt := (List.getElem?_eq_some_iff.mp hget).1
      rw [history_length] at hlt
      have hbase : gh.allOpsAfter seq = some (gh.history.drop seq) :=
        allOpsAfter_some.mpr ⟨Nat.le_of_pred_lt hlt, rfl⟩
      simp only [generateUndoLoop, hop, hseq, hbase, Option.bind_eq_bind, Option.bind_some]
      split
      · rfl
      · exact ih (fun i hi => hnth i (by simp [hi])) _ _

theorem inverses_length (gh : GlobalHistory) (entries : List (GlobalSeq × FatOp Op))
    (ops : List (FatOp Op)) : (gh.inverses entries ops).length = ops.length + entries.length := by
  induction entries generalizing ops with
  | nil => rfl
  | cons entry entries ih =>
      rw [inverses, ih, List.length_append, List.length_cons, List.length_cons, List.length_nil]
      omega

/-- The inverses have the sites of the ops they invert. -/
theorem inverses_site {gh : GlobalHistory} {entries : List (GlobalSeq × FatOp Op)}
    {ops : List (FatOp Op)} {P : SiteId → Prop} (hentries : ∀ entry ∈ entries, P entry.2.site)
    (hops : ∀ op ∈ ops, P op.site) : ∀ op ∈ gh.inverses entries ops, P op.site := by
  induction entries generalizing ops with
  | nil => exact hops
  | cons entry entries ih =>
      obtain ⟨seq, op⟩ := entry
      refine ih (fun entry h => hentries entry (by simp [h])) ?_
      intro x hx
      rcases List.mem_append.mp hx with hx | hx
      · exact hops x hx
      · rw [List.mem_singleton] at hx
        subst hx
        rw [FatOp.batchTransform_eq, FatOp.keeps_site.through, FatOp.site_inverse]
        exact hentries (seq, op) (by simp)

end GlobalHistory

/-! ## The client -/

/-- The undo or the redo of the editor. -/
def EditorOp.undoing (redo : Bool) (context : Nat) : EditorOp :=
  if redo then .redo context else .undo context

/-- Apply internal ops one after the other. -/
def InternalDoc.convertAll : List Op → InternalDoc → Option (List EditInstruction × InternalDoc)
  | [], self => some ([], self)
  | op :: ops, self => do
      let (instr, self) ← self.convertInternalOpAndApply op
      let (instrs, self) ← convertAll ops self
      some (instr :: instrs, self)

namespace ClientEngine

theorem applyUndoOps_some {fatOps : List (FatOp Op)} {eng eng' : ClientEngine} {ops : List Op}
    {instrs : List EditInstruction} (h : applyUndoOps fatOps eng = some (ops, instrs, eng')) :
    ops = fatOps.map FatOp.op ∧ ∃ doc, eng.internalDoc.convertAll ops = some (instrs, doc) ∧
      eng' = { eng with internalDoc := doc } := by
  induction fatOps generalizing eng ops instrs with
  | nil =>
      cases h
      exact ⟨rfl, _, rfl, rfl⟩
  | cons fatOp fatOps ih =>
      simp only [applyUndoOps, convertInternalOpAndApply, Option.bind_eq_bind,
        Option.bind_eq_some_iff] at h
      obtain ⟨_, ⟨⟨instr, doc₁⟩, hconv, heq⟩, ⟨ops₁, instrs₁, eng₂⟩, hrest, h⟩ := h
      cases heq
      cases h
      obtain ⟨rfl, doc, hall, rfl⟩ := ih hrest
      exact ⟨rfl, doc, by simp [InternalDoc.convertAll, hconv, hall], rfl⟩

/-- The ops made from an editor's op, before they enter the history. -/
inductive Makes (eng : ClientEngine) :
    EditorOp → List Op → List EditInstruction → InternalDoc → Prop where
  | ins {pos : Nat} {text : Text} {op : Op} {doc : InternalDoc} : text ≠ [] →
      eng.internalDoc.convertEditorOpAndApply (.ins pos text) eng.site = some (op, doc) →
      Makes eng (.ins pos text) [op] [.ins [⟨pos, text⟩]] doc
  | del {pos : Nat} {text : Text} {op : Op} {doc : InternalDoc} :
      eng.internalDoc.convertEditorOpAndApply (.del pos text) eng.site = some (op, doc) →
      Makes eng (.del pos text) [op] [.del [⟨pos, text⟩]] doc
  | undo (redo : Bool) {ops : List Op} {instrs : List EditInstruction} {doc : InternalDoc} :
      ops = (eng.gh.inverses (eng.gh.undoEntries redo) []).map FatOp.op →
      eng.internalDoc.convertAll ops = some (instrs, doc) →
      Makes eng (.undoing redo eng.gh.totalLen) ops instrs doc

theorem undoOps_ok {eng eng' : ClientEngine} {redo : Bool} {context : Nat} {ops : List Op}
    {instrs : List EditInstruction}
    (h : eng.undoOps redo context = some (.ok (ops, instrs), eng')) :
    ∃ doc, eng.Makes (.undoing redo context) ops instrs doc ∧
      eng' = { eng with internalDoc := doc } := by
  unfold undoOps at h
  split at h
  next => cases h
  next hctx =>
      obtain rfl : eng.gh.totalLen = context := Decidable.not_not.mp hctx
      simp only [Option.bind_eq_bind, Option.bind_eq_some_iff] at h
      obtain ⟨fatOps, hgen, ⟨ops₁, instrs₁, eng₁⟩, happly, heq⟩ := h
      cases heq
      obtain rfl := GlobalHistory.generateUndoOp1_some hgen
      obtain ⟨rfl, doc, hall, rfl⟩ := applyUndoOps_some happly
      exact ⟨doc, .undo redo rfl hall, rfl⟩

theorem localOpsOf_ok {eng eng' : ClientEngine} {op : EditorOp} {ops : List Op}
    {instrs : List EditInstruction} (h : eng.localOpsOf op = some (.ok (ops, instrs), eng')) :
    ∃ doc, eng.Makes op ops instrs doc ∧ eng' = { eng with internalDoc := doc } := by
  cases op with
  | ins pos text =>
      simp only [localOpsOf] at h
      split at h
      next => cases h
      next hlen =>
          simp only [Option.bind_eq_bind, Option.bind_eq_some_iff] at h
          obtain ⟨⟨op', doc⟩, hconv, heq⟩ := h
          cases heq
          exact ⟨doc, .ins (fun hnil => hlen (by simp [hnil])) hconv, rfl⟩
  | del pos text =>
      simp only [localOpsOf] at h
      split at h
      next => cases h
      next =>
          simp only [Option.bind_eq_bind, Option.bind_eq_some_iff] at h
          obtain ⟨⟨op', doc⟩, hconv, heq⟩ := h
          cases heq
          exact ⟨doc, .del hconv, rfl⟩
  | undo context => exact undoOps_ok h
  | redo context => exact undoOps_ok h

theorem convertEditorOpAndApply_site {doc doc' : InternalDoc} {op : EditorOp} {site : SiteId}
    {op' : Op} (h : doc.convertEditorOpAndApply op site = some (op', doc')) : op'.site = site := by
  cases op with
  | ins pos text =>
      simp only [InternalDoc.convertEditorOpAndApply, Option.bind_eq_bind,
        Option.bind_eq_some_iff] at h
      obtain ⟨_, _, _, _, _, heq, _, _, h⟩ := h
      cases heq
      cases h
      rfl
  | del pos text =>
      simp only [InternalDoc.convertEditorOpAndApply, Option.bind_eq_bind,
        Option.bind_eq_some_iff] at h
      obtain ⟨_, _, _, _, _, _, _, _, _, heq, _, _, h⟩ := h
      cases heq
      cases h
      rfl
  | undo context => cases h
  | redo context => cases h

/-- The ops are of the own site when those that are undone are. -/
theorem Makes.site {eng : ClientEngine} {op : EditorOp} {ops : List Op}
    {instrs : List EditInstruction} {doc : InternalDoc} (h : eng.Makes op ops instrs doc)
    (hown : ∀ redo, op = .undoing redo eng.gh.totalLen →
      ∀ entry ∈ eng.gh.undoEntries redo, entry.2.site = eng.site) :
    ∀ op ∈ ops, op.site = eng.site := by
  intro op hop
  cases h with
  | ins hne hconv =>
      rw [List.mem_singleton.mp hop]
      exact convertEditorOpAndApply_site hconv
  | del hconv =>
      rw [List.mem_singleton.mp hop]
      exact convertEditorOpAndApply_site hconv
  | undo redo hops _ =>
      rw [hops] at hop
      obtain ⟨fatOp, hmem, rfl⟩ := List.mem_map.mp hop
      exact GlobalHistory.inverses_site (P := fun s => s = eng.site)
        (hown redo rfl) (fun _ h => by cases h) fatOp hmem

/-- What an accepted op of the editor does. -/
structure LocalStep (eng : ClientEngine) (editorOp : EditorFatOp) (siteSeq : LocalSeq)
    (ops : List Op) (instrs : List EditInstruction) (doc : InternalDoc) (gh : GlobalHistory)
    (eng' : ClientEngine) : Prop where
  siteSeq_eq : siteSeq = eng.currentSiteSeq + 1
  makes : eng.Makes editorOp.op ops instrs doc
  records : GlobalHistory.recordOps editorOp.op.kind siteSeq editorOp.groupSeq ops eng.gh =
    some (.ok (), gh)
  result : eng' = { eng with currentSiteSeq := siteSeq, internalDoc := doc, gh }

/-- What is made does not depend on the number of the op. -/
theorem Makes.of_siteSeq {eng : ClientEngine} {siteSeq : LocalSeq} {op : EditorOp} {ops : List Op}
    {instrs : List EditInstruction} {doc : InternalDoc}
    (h : Makes { eng with currentSiteSeq := siteSeq } op ops instrs doc) :
    eng.Makes op ops instrs doc := by
  cases h with
  | ins hne hconv => exact .ins hne hconv
  | del hconv => exact .del hconv
  | undo redo hops hall => exact .undo redo hops hall

theorem processLocalOp_ok {eng eng' : ClientEngine} {editorOp : EditorFatOp} {siteSeq : LocalSeq}
    {instrs : List EditInstruction}
    (h : eng.processLocalOp editorOp siteSeq = some (.ok instrs, eng')) :
    ∃ ops doc gh, eng.LocalStep editorOp siteSeq ops instrs doc gh eng' := by
  unfold processLocalOp at h
  split at h
  next => cases h
  next hseq =>
      simp only [Option.bind_eq_bind, Option.bind_eq_some_iff] at h
      obtain ⟨⟨res, eng₁⟩, hmake, h⟩ := h
      cases res with
      | error err => cases h
      | ok made =>
          obtain ⟨ops, instrs₁⟩ := made
          obtain ⟨doc, hmakes, rfl⟩ := localOpsOf_ok hmake
          simp only [Option.bind_eq_some_iff] at h
          obtain ⟨⟨res, gh⟩, hrec, h⟩ := h
          cases res with
          | error err => cases h
          | ok u =>
              cases h
              exact ⟨ops, doc, gh, Decidable.not_not.mp hseq, hmakes.of_siteSeq, hrec, rfl⟩

/-- The echo of the own op at the head of the local history. -/
structure AckStep (eng : ClientEngine) (op localOp : FatOp Op) (localOps : List (FatOp Op))
    (eng' : ClientEngine) : Prop where
  localOps_eq : eng.gh.localOps = localOp :: localOps
  site_eq : localOp.site = eng.site
  siteSeq_eq : localOp.siteSeq = op.siteSeq
  result : eng' = { eng with
    currentSeq := eng.currentSeq + 1
    gh := { eng.gh with localOps, global := eng.gh.global ++ [op] } }

/-- An op of another site, carried through the local history. -/
structure ForeignStep (eng : ClientEngine) (op : FatOp Op) (instr : EditInstruction)
    (doc : InternalDoc) (eng' : ClientEngine) : Prop where
  run : eng.internalDoc.convertInternalOpAndApply
    (Grid.through FatOp.transform op eng.gh.localOps).op = some (instr, doc)
  result : eng' = { eng with
    currentSeq := eng.currentSeq + 1
    internalDoc := doc
    gh := { eng.gh with
      localOps := bumpUndoDeltas 0 (Grid.past FatOp.transform op eng.gh.localOps)
      global := eng.gh.global ++ [Grid.through FatOp.transform op eng.gh.localOps]
      undoQueue := eng.gh.undoQueue.map fun e => if e > eng.currentSeq then e + 1 else e } }

/-- A successful call took the next op, either the echo of the own op at the head
of the local history or an op of another site. -/
theorem processRemoteOp_ok {eng eng' : ClientEngine} {op : FatOp Op}
    {r : Option (EditorLeanOp × GlobalSeq)} (h : eng.processRemoteOp op = some (.ok r, eng')) :
    op.seq = some (eng.currentSeq + 1) ∧
      ((op.site = eng.site ∧ r = none ∧ ∃ localOp localOps, eng.AckStep op localOp localOps eng') ∨
        (op.site ≠ eng.site ∧ ∃ instr doc, eng.ForeignStep op instr doc eng' ∧
          r = some (⟨instr, op.site⟩, eng.currentSeq + 1))) := by
  unfold processRemoteOp at h
  split at h
  next => cases h
  next seq hseq =>
      split at h
      next => cases h
      next hnext =>
          obtain rfl : seq = eng.currentSeq + 1 := Decidable.not_not.mp hnext
          refine ⟨hseq, ?_⟩
          split at h
          next hsite =>
              split at h
              next => cases h
              next localOp localOps hlocal =>
                  dsimp only at h
                  split at h
                  next => cases h
                  next hmatch =>
                      cases h
                      obtain ⟨hs, hq⟩ := not_or.mp hmatch
                      exact Or.inl ⟨hsite, rfl, localOp, localOps, hlocal,
                        (Decidable.not_not.mp hs).trans hsite, Decidable.not_not.mp hq, rfl⟩
          next hsite =>
              simp only [FatOp.symmetricTransform_eq, convertInternalOpAndApply,
                Option.bind_eq_bind, Option.bind_eq_some_iff] at h
              obtain ⟨_, ⟨⟨instr, doc⟩, hconv, heq⟩, h⟩ := h
              cases heq
              cases h
              refine Or.inr ⟨hsite, instr, doc, ⟨hconv, rfl⟩, ?_⟩
              rw [show (Grid.through FatOp.transform op eng.gh.localOps).op.site = op.site from
                FatOp.keeps_site.through op eng.gh.localOps]

/-- The echo of the own op at the head of the local history is taken. -/
theorem processRemoteOp_ack {eng : ClientEngine} {op localOp : FatOp Op}
    {localOps : List (FatOp Op)} (hseq : op.seq = some (eng.currentSeq + 1))
    (hsite : op.site = eng.site) (hlocal : eng.gh.localOps = localOp :: localOps)
    (hls : localOp.site = eng.site) (hlq : localOp.siteSeq = op.siteSeq) :
    ∃ eng', eng.processRemoteOp op = some (.ok none, eng') ∧
      eng.AckStep op localOp localOps eng' := by
  refine ⟨_, ?_, hlocal, hls, hlq, rfl⟩
  simp [processRemoteOp, hseq, hsite, hlocal, hls, hlq]

/-- An op of another site is taken when the internal document takes it. -/
theorem processRemoteOp_foreign {eng : ClientEngine} {op : FatOp Op}
    (hseq : op.seq = some (eng.currentSeq + 1)) (hsite : op.site ≠ eng.site)
    {instr : EditInstruction} {doc : InternalDoc}
    (hrun : eng.internalDoc.convertInternalOpAndApply
      (Grid.through FatOp.transform op eng.gh.localOps).op = some (instr, doc)) :
    ∃ eng', eng.processRemoteOp op =
        some (.ok (some (⟨instr, op.site⟩, eng.currentSeq + 1)), eng') ∧
      eng.ForeignStep op instr doc eng' := by
  refine ⟨_, ?_, hrun, rfl⟩
  have hthrough : (Grid.through FatOp.transform op eng.gh.localOps).op.site = op.site :=
    FatOp.keeps_site.through op eng.gh.localOps
  simp [processRemoteOp, hseq, hsite, FatOp.symmetricTransform_eq, convertInternalOpAndApply,
    hrun, hthrough]

/-- The only other way an op of another site can end is a panic. -/
theorem processRemoteOp_foreign_error {eng eng' : ClientEngine} {op : FatOp Op}
    (hseq : op.seq = some (eng.currentSeq + 1)) (hsite : op.site ≠ eng.site) {err : EngineError} :
    eng.processRemoteOp op ≠ some (.error err, eng') := by
  intro h
  simp only [processRemoteOp, hseq, ne_eq, not_true_eq_false, if_false, hsite,
    FatOp.symmetricTransform_eq, Option.bind_eq_bind, Option.bind_eq_some_iff] at h
  obtain ⟨_, _, h⟩ := h
  cases h

theorem accept_processLocalOp {eng eng' : ClientEngine} {editorOp : EditorFatOp}
    {siteSeq : LocalSeq} (h : eng.accept (.processLocalOp editorOp siteSeq) = some eng') :
    ∃ ops instrs doc gh, eng.LocalStep editorOp siteSeq ops instrs doc gh eng' := by
  simp only [accept] at h
  split at h
  next instrs eng₁ hrun =>
      cases h
      obtain ⟨ops, doc, gh, hstep⟩ := processLocalOp_ok hrun
      exact ⟨ops, instrs, doc, gh, hstep⟩
  next => cases h

theorem accept_processRemoteOp {eng eng' : ClientEngine} {op : FatOp Op}
    (h : eng.accept (.processRemoteOp op) = some eng') :
    op.seq = some (eng.currentSeq + 1) ∧
      ((op.site = eng.site ∧ ∃ localOp localOps, eng.AckStep op localOp localOps eng') ∨
        (op.site ≠ eng.site ∧ ∃ instr doc, eng.ForeignStep op instr doc eng')) := by
  simp only [accept] at h
  split at h
  next r eng₁ hrun =>
      cases h
      obtain ⟨hseq, ⟨hsite, _, hack⟩ | ⟨hsite, instr, doc, hforeign, _⟩⟩ := processRemoteOp_ok hrun
      · exact ⟨hseq, Or.inl ⟨hsite, hack⟩⟩
      · exact ⟨hseq, Or.inr ⟨hsite, instr, doc, hforeign⟩⟩
  next => cases h

/-- The deltas are all that changes. -/
theorem map_bumpUndoDeltas {β : Type} {f : FatOp Op → β}
    (hf : ∀ op kind, f { op with kind } = f op) (offset : Nat) (ops : List (FatOp Op)) :
    (bumpUndoDeltas offset ops).map f = ops.map f := by
  induction ops generalizing offset with
  | nil => rfl
  | cons op ops ih =>
      simp only [bumpUndoDeltas, List.map_cons, ih]
      congr 1
      split
      · split
        · exact hf op _
        · rfl
      · rfl

/-- What is packaged is all of the local history, and only when its head is the
op after the last one sent. -/
theorem maybePackageLocalOps_eq (eng : ClientEngine) (doc : DocId) :
    eng.maybePackageLocalOps doc =
      match eng.gh.localOps.head?, eng.gh.localOps.getLast? with
      | some first, some last =>
          if first.siteSeq = eng.lastSiteSeqSentOut + 1 then
            (some ⟨eng.currentSeq, doc, eng.gh.localOps⟩,
              { eng with lastSiteSeqSentOut := last.siteSeq })
          else (none, eng)
      | _, _ => (none, eng) := by
  cases hlocal : eng.gh.localOps with
  | nil => simp [maybePackageLocalOps, prevOpAcked, hlocal]
  | cons first rest =>
      obtain ⟨last, hlast⟩ : ∃ last, (first :: rest).getLast? = some last :=
        ⟨_, List.getLast?_eq_some_getLast (by simp)⟩
      simp only [maybePackageLocalOps, prevOpAcked, packageLocalOps, hlocal, List.head?_cons,
        hlast, beq_iff_eq, List.length_cons, Nat.succ_pos, gt_iff_lt, if_true]

end ClientEngine

/-! ## The server -/

namespace ServerEngine

/-- The numbers are all that changes. -/
theorem map_assignSeqs {β : Type} {f : FatOp Op → β} (hf : ∀ op seq, f { op with seq } = f op)
    (seq : GlobalSeq) (ops : List (FatOp Op)) : (assignSeqs seq ops).map f = ops.map f := by
  induction ops generalizing seq with
  | nil => rfl
  | cons op ops ih => simp [assignSeqs, ih, hf]

@[simp] theorem assignSeqs_length (seq : GlobalSeq) (ops : List (FatOp Op)) :
    (assignSeqs seq ops).length = ops.length := by
  induction ops generalizing seq with
  | nil => rfl
  | cons op ops ih => simp [assignSeqs, ih]

theorem assignSeqs_getElem {seq : Nat} {ops : List (FatOp Op)} {i : Nat} {op : FatOp Op}
    (h : (assignSeqs seq ops)[i]? = some op) : op.seq = some (seq + i) := by
  induction ops generalizing seq i with
  | nil => simp [assignSeqs] at h
  | cons op' ops ih =>
      cases i with
      | zero =>
          simp only [assignSeqs, List.getElem?_cons_zero, Option.some_inj] at h
          subst h
          rfl
      | succ i =>
          simp only [assignSeqs, List.getElem?_cons_succ] at h
          rw [ih h, show seq + 1 + i = seq + (i + 1) by omega]

theorem processOps_eq (eng : ServerEngine) (ops : List (FatOp Op)) (context : GlobalSeq) :
    eng.processOps ops context =
      let new := assignSeqs (eng.currentSeq + 1)
        (Grid.carry FatOp.transform (eng.gh.global.drop context) ops)
      (new, { eng with
        currentSeq := eng.currentSeq + ops.length
        gh := { eng.gh with global := eng.gh.global ++ new } }) := by
  simp [processOps, GlobalHistory.opsAfter_eq, quatradicTransform_eq]

end ServerEngine

end CollabMode
