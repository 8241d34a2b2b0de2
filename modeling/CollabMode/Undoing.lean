import CollabMode.Mirror

/-!
# What an undo marks

Every character has an identity, the op of the history that inserted it and its place in
the inserted text, and keeps it wherever it moves.  The op that an undo makes is an inverse,
carried past all that came after the op that is undone.  It marks the characters that this
op inserted or marked (`Follows`), since an insertion that carries the segments of a mark
along, or cuts them, carries the same characters along.
-/

namespace CollabMode

open Tombstone

/-! ## Identities -/

/-- The number of the op that inserted the character, 0 for the text that the history
starts from, and the place in the inserted text. -/
abbrev CharId := Nat × Nat

/-- The identities of `n` characters that op number `k` inserts. -/
def insertedIds (k n : Nat) : List CharId := (List.range n).map (Prod.mk k)

@[simp] theorem insertedIds_length (k n : Nat) : (insertedIds k n).length = n := by
  simp [insertedIds]

theorem insertedIds_nodup (k n : Nat) : (insertedIds k n).Nodup :=
  List.nodup_range.map fun _ _ heq => (Prod.mk.inj heq).2

theorem mem_insertedIds {k n : Nat} {x : CharId} : x ∈ insertedIds k n ↔ x.1 = k ∧ x.2 < n := by
  obtain ⟨k', j⟩ := x
  simp [insertedIds, and_comm, eq_comm]

/-- The identities of the characters after op number `k`. -/
def Op.applyIds (k : Nat) (ids : List CharId) : Op → List CharId
  | .ins (p, s) _ => insertAt p (insertedIds k s.length) ids
  | .mark _ _ _ => ids

/-- The identities after `ops`, which are numbered from `k` on. -/
def idsFrom : Nat → List CharId → List Op → List CharId
  | _, ids, [] => ids
  | k, ids, op :: ops => idsFrom (k + 1) (op.applyIds k ids) ops

/-- The identities after the history `ops` of a text of `n` characters. -/
def idsAfter (n : Nat) (ops : List Op) : List CharId := idsFrom 1 (insertedIds 0 n) ops

theorem idsFrom_append (k : Nat) (ids : List CharId) (ops ops' : List Op) :
    idsFrom k ids (ops ++ ops') = idsFrom (k + ops.length) (idsFrom k ids ops) ops' := by
  induction ops generalizing k ids with
  | nil => rfl
  | cons op ops ih =>
      rw [List.cons_append, idsFrom, ih, List.length_cons, Nat.add_right_comm]
      rfl

/-- There are as many identities as characters. -/
theorem Op.applyIds_length {items : List Char} {k : Nat} {ids : List CharId}
    (h : ids.length = items.length) (op : Op) :
    (op.applyIds k ids).length = (op.applyItems items).length := by
  cases op with
  | ins op site => simp [applyIds, applyItems, h]
  | mark segs live site => exact h

theorem idsFrom_length {ops : List Op} {items : List Char} {k : Nat} {ids : List CharId}
    (h : ids.length = items.length) :
    (idsFrom k ids ops).length = (Grid.runAll Op.applyItems items ops).length := by
  induction ops generalizing k ids items with
  | nil => exact h
  | cons op ops ih => exact ih (op.applyIds_length h)

/-- No two characters have the same identity. -/
theorem idsFrom_nodup {ops : List Op} {k : Nat} {ids : List CharId} (h : ids.Nodup)
    (hk : ∀ x ∈ ids, x.1 < k) : (idsFrom k ids ops).Nodup := by
  induction ops generalizing k ids with
  | nil => exact h
  | cons op ops ih =>
      cases op with
      | ins op site =>
          obtain ⟨p, s⟩ := op
          have hperm := insertAt_perm p (insertedIds k s.length) ids
          refine ih (hperm.nodup_iff.mpr (List.nodup_append'.mpr
            ⟨insertedIds_nodup k s.length, h, fun x hx hx' => ?_⟩)) fun x hx => ?_
          · have := (mem_insertedIds.mp hx).1
            have := hk x hx'
            omega
          · rcases List.mem_append.mp (hperm.mem_iff.mp hx) with hx | hx
            · have := (mem_insertedIds.mp hx).1
              omega
            · have := hk x hx
              omega
      | mark segs live site => exact ih h fun x hx => Nat.lt_succ_of_lt (hk x hx)

theorem idsAfter_nodup (n : Nat) (ops : List Op) : (idsAfter n ops).Nodup :=
  idsFrom_nodup (insertedIds_nodup 0 n) fun x hx => by
    rw [(mem_insertedIds.mp hx).1]
    exact Nat.one_pos

/-! ## Carrying a mark -/

/-- Op number `k`, made where the characters are `ids`, inserts or marks `x`. -/
def Op.Touches (k : Nat) (ids : List CharId) (x : CharId) : Op → Prop
  | .ins (_, s) _ => x ∈ insertedIds k s.length
  | .mark segs _ _ => Picks (covers (segRuns segs)) ids x

/-- The liveness that the op gives to the characters it inserts or marks. -/
def Op.sets : Op → Bool
  | .ins _ _ => true
  | .mark _ live _ => live

section Carry

variable {strict : Bool} {items : List Char} {segs segs' : List (Nat × Text)} {live : Bool}
  {site : SiteId} {ids : List CharId}

/-- A mark picks the same characters after it was carried past other ops. -/
theorem picks_through {ops : List Op} (hlen : ids.length = items.length)
    (h : (Op.mark segs live site).Ok strict items)
    (hops : Grid.OkAll Op.applyItems (Op.Ok false) items ops)
    (hthrough : Grid.through Op.transform (.mark segs live site) ops = .mark segs' live site)
    (k : Nat) (x : CharId) :
    Picks (covers (segRuns segs')) (idsFrom k ids ops) x ↔ Picks (covers (segRuns segs)) ids x := by
  induction ops generalizing items segs ids k with
  | nil =>
      cases hthrough
      rfl
  | cons b ops ih =>
      have hlen' := b.applyIds_length (k := k) hlen
      cases b with
      | ins op s =>
          obtain ⟨q, u⟩ := op
          have hq : q ≤ items.length := hops.1.ins.1
          have hcovers : covers (segRuns (splitSegs q u site s segs)) = _ :=
            covers_splitSegs h.inRange.nonempty
          refine (ih hlen' (h.mark_ins hq) hops.2 hthrough (k + 1)).trans ?_
          show Picks (covers (segRuns (splitSegs q u site s segs))) _ x ↔ _
          rw [hcovers]
          have hpicks := picks_shift_insertAt (s := insertedIds k u.length) (hlen ▸ hq)
            (covers (segRuns segs)) x
          rw [insertedIds_length] at hpicks
          exact hpicks
      | mark segs₁ live₁ s => exact ih hlen h hops.2 hthrough (k + 1)

/-- The inverse of an op marks what the op inserted or marked. -/
theorem Op.Ok.inverse_picks {op : Op} (hlen : ids.length = items.length)
    (h : op.Ok strict items) (k : Nat) : ∃ segs, op.inverse = .mark segs (!op.sets) op.site ∧
      (Op.mark segs (!op.sets) op.site).Ok strict (op.applyItems items) ∧
      ∀ x, Picks (covers (segRuns segs)) (op.applyIds k ids) x ↔ op.Touches k ids x := by
  obtain ⟨segs, live, hinv, hok⟩ := h.inverse
  cases op with
  | ins op site =>
      obtain ⟨p, s⟩ := op
      cases hinv
      refine ⟨_, rfl, hok, fun x => ?_⟩
      have hpicks := picks_inserted (s := insertedIds k s.length) (hlen ▸ h.ins.1) x
      rw [insertedIds_length] at hpicks
      refine Iff.trans ?_ hpicks
      simp [Picks, covers, segRuns, Op.applyIds]
  | mark segs' live' site =>
      cases hinv
      exact ⟨_, rfl, hok, fun x => Iff.rfl⟩

end Carry

/-! ## Undo ops -/

/-- `undo` marks the characters that `op`, number `seq` of the history `ops` of the text
`items`, inserted or marked.  Its segments stand in order where these characters are now. -/
structure Follows (items : Text) (ops : List Op) (seq : GlobalSeq) (op undo : Op)
    (segs : List (Nat × Text)) : Prop where
  pos : 0 < seq
  at_seq : ops[seq - 1]? = some op
  eq : undo = .mark segs (!op.sets) op.site
  picks : ∀ x, Picks (covers (segRuns segs)) (idsAfter items.length ops) x ↔
    op.Touches seq (idsAfter items.length (ops.take (seq - 1))) x
  inRange : SegsInRange (Grid.runAll Op.applyItems items ops).length segs
  own : op.Matches (Grid.runAll Op.applyItems items (ops.take (seq - 1))) →
    SegsMatch (Grid.runAll Op.applyItems items ops) segs

/-- Marks carry nothing. -/
theorem through_marks {a : Op} {ops : List Op}
    (h : ∀ b ∈ ops, ∃ segs live site, b = .mark segs live site) :
    Grid.through Op.transform a ops = a := by
  induction ops with
  | nil => rfl
  | cons b ops ih =>
      obtain ⟨hb, hops⟩ := List.forall_mem_cons.mp h
      obtain ⟨segs, live, site, rfl⟩ := hb
      rw [Grid.through, Op.transform_mark]
      exact ih hops

section Undo

variable {items : Text} {ops : List Op} {seq : GlobalSeq} {op : Op}

theorem split_history (hpos : 0 < seq) (hget : ops[seq - 1]? = some op) :
    ops = ops.take (seq - 1) ++ op :: ops.drop seq ∧ (ops.take (seq - 1)).length = seq - 1 := by
  obtain ⟨hlt, hval⟩ := List.getElem?_eq_some_iff.mp hget
  have hdrop : ops.drop (seq - 1) = op :: ops.drop seq := by
    rw [List.drop_eq_getElem_cons hlt, hval, Nat.sub_add_cancel hpos]
  refine ⟨?_, ?_⟩
  · rw [← hdrop, List.take_append_drop]
  · rw [List.length_take]
    omega

/-- The inverse of an op, carried to the end of the history and past other marks. -/
theorem follows_inverse (hvalid : Grid.OkAll Op.applyItems (Op.Ok false) items ops)
    (hpos : 0 < seq) (hget : ops[seq - 1]? = some op) {acc : List Op}
    (hacc : ∀ b ∈ acc, ∃ segs live site, b = .mark segs live site) :
    ∃ segs, Follows items ops seq op
      (Grid.through Op.transform op.inverse (ops.drop seq ++ acc)) segs := by
  obtain ⟨hsplit, hlen⟩ := split_history hpos hget
  have hparts := hvalid
  rw [hsplit] at hparts
  obtain ⟨-, hop, hlater⟩ := (Grid.OkAll_append ..).mp hparts
  have hids : (idsAfter items.length (ops.take (seq - 1))).length =
      (Grid.runAll Op.applyItems items (ops.take (seq - 1))).length :=
    idsFrom_length (insertedIds_length 0 items.length)
  obtain ⟨segs, hinv, hok, hpicks⟩ := hop.inverse_picks hids seq
  obtain ⟨segs', hthrough, hok'⟩ := hok.through_mark hlater
  -- What there is at the end of the history.
  have hend : Grid.runAll Op.applyItems items ops = Grid.runAll Op.applyItems
      (op.applyItems (Grid.runAll Op.applyItems items (ops.take (seq - 1)))) (ops.drop seq) := by
    conv_lhs => rw [hsplit, Grid.runAll_append]
    rfl
  have hidsEnd : idsAfter items.length ops =
      idsFrom (seq + 1) (op.applyIds seq (idsAfter items.length (ops.take (seq - 1))))
        (ops.drop seq) := by
    conv_lhs => rw [hsplit, idsAfter, idsFrom_append, hlen, Nat.add_sub_cancel' hpos]
    rfl
  refine ⟨segs', hpos, hget, ?_, fun x => ?_, ?_, fun hmatches => ?_⟩
  · rw [Grid.through_append, through_marks hacc, hinv, hthrough]
  · rw [hidsEnd]
    exact (picks_through (op.applyIds_length hids) hok hlater hthrough (seq + 1) x).trans (hpicks x)
  · rw [hend]
    exact hok'.inRange
  · have hstrict : op.Ok true _ := ⟨hop.inRange, hop.nonempty, fun _ => hmatches⟩
    obtain ⟨segs₁, hinv₁, hok₁, -⟩ := hstrict.inverse_picks hids seq
    cases hinv.symm.trans hinv₁
    obtain ⟨segs₂, hthrough₂, hok₂⟩ := hok₁.through_mark hlater
    cases hthrough.symm.trans hthrough₂
    rw [hend]
    exact hok₂.matches rfl

end Undo

namespace GlobalHistory

variable {gh : GlobalHistory} {items : Text}

/-- Each op of the group is followed by the inverse that is made for it. -/
theorem inverses_follow (hvalid : Grid.OkAll Op.applyItems (Op.Ok false) items (opsOf gh.history))
    {entries : List (GlobalSeq × FatOp Op)}
    (hentries : ∀ entry ∈ entries, 0 < entry.1 ∧ gh.history[entry.1 - 1]? = some entry.2)
    {acc : List (FatOp Op)} (hacc : ∀ b ∈ opsOf acc, ∃ segs live site, b = .mark segs live site) :
    ∃ new, gh.inverses entries acc = acc ++ new ∧
      List.Forall₂ (fun entry undo => ∃ segs,
        Follows items (opsOf gh.history) entry.1 entry.2.op undo.op segs) entries new := by
  induction entries generalizing acc with
  | nil => exact ⟨[], (List.append_nil acc).symm, .nil⟩
  | cons entry entries ih =>
      obtain ⟨seq, op⟩ := entry
      obtain ⟨⟨hpos, hget⟩, hrest⟩ := List.forall_mem_cons.mp hentries
      have hget' : (opsOf gh.history)[seq - 1]? = some op.op := by
        rw [List.getElem?_map, hget]
        rfl
      obtain ⟨segs, hfollows⟩ := follows_inverse hvalid hpos hget' hacc
      have hop : (op.inverse.batchTransform (gh.history.drop seq ++ acc)).op =
          Grid.through Op.transform op.op.inverse ((opsOf gh.history).drop seq ++ opsOf acc) := by
        rw [FatOp.op_batchTransform, opsOf_append, opsOf_drop]
        rfl
      have hacc' : ∀ b ∈ opsOf (acc ++ [op.inverse.batchTransform (gh.history.drop seq ++ acc)]),
          ∃ segs live site, b = .mark segs live site := by
        rw [opsOf_append]
        refine List.forall_mem_append.mpr ⟨hacc, fun b hb => ?_⟩
        rw [List.mem_singleton.mp hb, hop]
        exact ⟨_, _, _, hfollows.eq⟩
      obtain ⟨new, hnew, hall⟩ := ih hrest hacc'
      refine ⟨op.inverse.batchTransform (gh.history.drop seq ++ acc) :: new, ?_, .cons ?_ hall⟩
      · rw [inverses, hnew, List.append_assoc]
        rfl
      · rw [hop]
        exact ⟨segs, hfollows⟩

/-- When the entries of the queue are places of the history, an undo or a redo finds its
ops. -/
theorem generateUndoOp1_isSome (hqueue : ∀ seq ∈ gh.undoQueue, 0 < seq ∧ seq ≤ gh.totalLen)
    (htip : gh.undoTip.getD gh.undoQueue.length ≤ gh.undoQueue.length) (redo : Bool) :
    (gh.generateUndoOp1 redo).isSome := by
  refine generateUndoLoop_isSome (fun i hi => ?_) none []
  have hlt : i < gh.undoQueue.length := by
    unfold undoPlaces at hi
    split at hi
    next =>
        split at hi
        next => cases hi
        next => simp at hi; omega
    next => simp at hi; omega
  obtain ⟨hpos, hle⟩ := hqueue _ (List.getElem_mem hlt)
  have hplace : gh.undoQueue[i] - 1 < gh.history.length := by
    rw [history_length]
    exact Nat.lt_of_lt_of_le (Nat.sub_lt hpos Nat.one_pos) hle
  rw [nthInUndoQueue_some.mpr ⟨_, List.getElem?_eq_getElem hlt, hpos,
    List.getElem?_eq_getElem hplace⟩]
  rfl

/-- Whatever came after an op, and whatever was undone with it, the op that undoes it marks
the characters it inserted or marked, where they are now and with their own content. -/
theorem undo_follows (hvalid : Grid.OkAll Op.applyItems (Op.Ok false) items (opsOf gh.history))
    (redo : Bool) :
    (idsAfter items.length (opsOf gh.history)).Nodup ∧
    ((∀ seq ∈ gh.undoQueue, 0 < seq ∧ seq ≤ gh.totalLen) →
      gh.undoTip.getD gh.undoQueue.length ≤ gh.undoQueue.length →
        (gh.generateUndoOp1 redo).isSome) ∧
    ∀ ops, gh.generateUndoOp1 redo = some ops → List.Forall₂ (fun entry undo => ∃ segs,
      Follows items (opsOf gh.history) entry.1 entry.2.op undo.op segs)
      (gh.undoEntries redo) ops := by
  refine ⟨idsAfter_nodup _ _, fun hqueue htip => generateUndoOp1_isSome hqueue htip redo,
    fun ops hops => ?_⟩
  have hentries : ∀ entry ∈ gh.undoEntries redo,
      0 < entry.1 ∧ gh.history[entry.1 - 1]? = some entry.2 := fun entry hmem =>
    ⟨(groupEntries_mem hmem).1, (groupEntries_mem hmem).2.1⟩
  have hnone : ∀ b ∈ opsOf [], ∃ segs live site, b = .mark segs live site := nofun
  obtain ⟨new, hnew, hall⟩ := inverses_follow hvalid hentries hnone
  rw [generateUndoOp1_some hops, hnew]
  exact hall

/-- Site 1 inserts three characters, site 2 puts one between them, and site 1 adds one at
their end. -/
def cutInsertion : GlobalHistory :=
  { global := [⟨some 1, .ins (0, ['a', 'b', 'c']) 1, 1, .original, 1⟩,
      ⟨some 2, .ins (1, ['x']) 2, 1, .original, 1⟩]
    localOps := [⟨none, .ins (4, ['d']) 1, 2, .original, 2⟩]
    undoQueue := [1]
    undoTip := none }

theorem undo_follows_sample : ∃ segs, Follows ['z'] (opsOf cutInsertion.history) 1
    (.ins (0, ['a', 'b', 'c']) 1) (.mark [(0, ['a']), (2, ['b', 'c'])] false 1) segs := by
  have hvalid : Grid.OkAll Op.applyItems (Op.Ok false) ['z'] (opsOf cutInsertion.history) :=
    ⟨Op.ok_ins (Nat.zero_le _) (by simp), Op.ok_ins (by decide) (by simp),
      Op.ok_ins (by decide) (by simp), trivial⟩
  have hall := (undo_follows hvalid false).2.2 _ rfl
  cases hall with
  | cons hhead _ => exact hhead

end GlobalHistory

end CollabMode
