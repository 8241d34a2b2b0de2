import CollabMode.Feeding

/-!
# Marks and their inverses

An undo makes a mark for each op of the group, the last op first.  A redo right after it makes
the inverse of each, the last mark first, since a mark carries nothing.  So each character ends
as the first of the marks that covers it would not have it (`lastMark_inverses`).  That is how
it was before when that mark changed it.

An editor gets its text back when besides the characters that the redo puts in for those that the
undo has taken out (`broughtBack`) are the ones that stood there.
-/

namespace CollabMode

open Tombstone

/-! ## Flags -/

/-- The liveness that the first of `ops` to mark the character at `i` gives it. -/
def firstMark (i : Nat) : List Op → Option Bool
  | [] => none
  | op :: ops => (op.marks i).or (firstMark i ops)

theorem Op.marks_inverse {op : Op} (h : op.IsMark) (i : Nat) :
    op.inverse.marks i = (op.marks i).map not := by
  obtain ⟨segs, live, site, rfl⟩ := h
  simp only [inverse, marks]
  split <;> rfl

/-- The inverses of marks are marks. -/
theorem isMark_inverses {ops : List Op} (hops : ∀ op ∈ ops, op.IsMark) :
    ∀ op ∈ ops.reverse.map Op.inverse, op.IsMark := by
  intro op hop
  obtain ⟨b, hb, rfl⟩ := List.mem_map.mp hop
  obtain ⟨segs, live, site, rfl⟩ := hops b (List.mem_reverse.mp hb)
  exact ⟨segs, !live, site, rfl⟩

theorem lastMark_append {ops : List Op} (hops : ∀ op ∈ ops, op.IsMark) (op : Op) (i : Nat) :
    lastMark i (ops ++ [op]) = (op.marks i).or (lastMark i ops) := by
  induction ops with
  | nil => simp [lastMark]
  | cons b ops ih =>
      obtain ⟨⟨segs, live, site, rfl⟩, hrest⟩ := List.forall_mem_cons.mp hops
      rw [List.cons_append, lastMark, lastMark, Op.follow, ih hrest, Option.or_assoc]

/-- The inverses in the opposite order undo the first mark last. -/
theorem lastMark_inverses {ops : List Op} (hops : ∀ op ∈ ops, op.IsMark) (i : Nat) :
    lastMark i (ops.reverse.map Op.inverse) = (firstMark i ops).map not := by
  induction ops with
  | nil => rfl
  | cons op ops ih =>
      obtain ⟨hop, hops⟩ := List.forall_mem_cons.mp hops
      rw [List.reverse_cons, List.map_append, List.map_singleton,
        lastMark_append (isMark_inverses hops), ih hops, Op.marks_inverse hop, firstMark]
      cases op.marks i <;> rfl

/-- A character that the ops mark is marked first and last by one of them. -/
theorem firstMark_isNone {ops : List Op} (hops : ∀ op ∈ ops, op.IsMark) (i : Nat) :
    firstMark i ops = none ↔ lastMark i ops = none := by
  induction ops with
  | nil => exact Iff.rfl
  | cons op ops ih =>
      obtain ⟨⟨segs, live, site, rfl⟩, hrest⟩ := List.forall_mem_cons.mp hops
      rw [firstMark, lastMark, Op.follow, Option.or_eq_none_iff, Option.or_eq_none_iff, ih hrest,
        and_comm]

/-- What marks do to a flag. -/
theorem flags_marks {ops : List Op} (hops : ∀ op ∈ ops, op.IsMark) (d : Seq Char) (i : Nat) :
    (replay d ops).flags[i]? = d.flags[i]?.map fun x => (lastMark i ops).getD x := by
  induction ops generalizing d with
  | nil => simp [replay, lastMark]
  | cons op ops ih =>
      obtain ⟨hop, hrest⟩ := List.forall_mem_cons.mp hops
      have hmark := written_flags_getElem? (i := i) hop d
      rw [Op.written_flags] at hmark
      obtain ⟨segs, live, site, rfl⟩ := hop
      show (replay ((Op.mark segs live site).apply d) ops).flags[i]? = _
      rw [ih hrest, hmark, Option.map_map, lastMark, Op.follow]
      congr 1
      funext x
      cases lastMark i ops <;> rfl

/-- What marks and then their inverses do to a flag. -/
theorem replay_inverses_flags {ops : List Op} (hops : ∀ op ∈ ops, op.IsMark) (d : Seq Char)
    (i : Nat) :
    (replay (replay d ops) (ops.reverse.map Op.inverse)).flags[i]? =
      d.flags[i]?.map fun x => ((firstMark i ops).map not).getD x := by
  rw [flags_marks (isMark_inverses hops), flags_marks hops, Option.map_map, lastMark_inverses hops]
  congr 1
  funext x
  cases hfirst : firstMark i ops with
  | none =>
      rw [(firstMark_isNone hops i).mp hfirst]
      rfl
  | some live => rfl

/-- Every character that one of the ops marks is as the first of them would not have it. -/
def Turned (f : List Bool) (ops : List Op) : Prop :=
  ∀ i live, firstMark i ops = some live → i < f.length → f[i]? = some (!live)

/-- Marks and then their inverses leave the flags as they were when and only when every mark
that comes first on a character changes it. -/
theorem replay_inverses_iff {ops : List Op} (hops : ∀ op ∈ ops, op.IsMark) (d : Seq Char) :
    (replay (replay d ops) (ops.reverse.map Op.inverse)).flags = d.flags ↔ Turned d.flags ops := by
  have hflag := replay_inverses_flags hops d
  constructor
  · intro h i live hfirst hi
    have := hflag i
    rw [h, hfirst, List.getElem?_eq_getElem hi] at this
    rw [List.getElem?_eq_getElem hi]
    exact this
  · intro h
    refine List.ext_getElem? fun i => ?_
    rw [hflag i]
    rcases Nat.lt_or_ge i d.flags.length with hi | hi
    · cases hfirst : firstMark i ops with
      | none => simp
      | some live =>
          rw [h i live hfirst hi]
          rfl
    · rw [List.getElem?_eq_none hi]
      rfl

/-- What every reader sees determines the flags. -/
theorem flags_eq_of_live {f f' : List Bool} (hlen : f.length = f'.length)
    (h : ∀ items : Text, items.length = f.length → liveItems items f = liveItems items f') :
    f = f' := by
  induction f generalizing f' with
  | nil => exact (List.eq_nil_of_length_eq_zero hlen.symm).symm
  | cons x f ih =>
      cases f' with
      | nil => cases hlen
      | cons y f' =>
          have hlen' : f.length = f'.length := Nat.succ_inj.mp hlen
          have hcons (c : Char) (items : Text) (x : Bool) (f : List Bool) :
              liveItems (c :: items) (x :: f) = (if x then [c] else []) ++ liveItems items f := by
            cases x <;> rfl
          -- A reader who marks the first character with its own letter.
          have hfirst : x = y := by
            have hsees := h ('a' :: List.replicate f.length 'b') (by simp)
            rw [hcons, hcons] at hsees
            have hrest (f : List Bool) (n : Nat) : 'a' ∉ liveItems (List.replicate n 'b') f := by
              intro hmem
              obtain ⟨p, hp, heq⟩ := List.mem_map.mp hmem
              have := (List.of_mem_zip (List.mem_of_mem_filter hp)).1
              rw [heq] at this
              cases List.eq_of_mem_replicate this
            have hmem : 'a' ∈ (if x then ['a'] else []) ++
                  liveItems (List.replicate f.length 'b') f ↔
                'a' ∈ (if y then ['a'] else []) ++ liveItems (List.replicate f.length 'b') f' := by
              rw [hsees]
            simp only [List.mem_append, hrest, or_false] at hmem
            cases x <;> cases y <;> simp_all
          subst hfirst
          rw [ih hlen' fun items hitems => ?_]
          have hsees := h ('a' :: items) (by simp [hitems])
          rw [hcons, hcons] at hsees
          exact List.append_cancel_left hsees

/-! ## Characters -/

/-- The character that the inverses of `ops` put in at `i` for one that the first of them to mark
it takes out. -/
def broughtBack (i : Nat) : List Op → Option Char
  | [] => none
  | op :: ops =>
      match op.marks i with
      | none => broughtBack i ops
      | some false => (broughtBack i ops).or (op.names i)
      | some true => none

theorem Op.names_inverse {op : Op} (h : op.IsMark) (i : Nat) : op.inverse.names i = op.names i := by
  obtain ⟨segs, live, site, rfl⟩ := h
  rfl

theorem broughtBack_isSome {ops : List Op} (hops : ∀ op ∈ ops, op.IsMark) (i : Nat) :
    (broughtBack i ops).isSome ↔ firstMark i ops = some false := by
  induction ops with
  | nil => exact ⟨nofun, nofun⟩
  | cons op ops ih =>
      obtain ⟨hop, hrest⟩ := List.forall_mem_cons.mp hops
      have hname := hop.names_isSome (i := i)
      rw [broughtBack, firstMark]
      split
      next hnone => rw [hnone, Option.none_or, ih hrest]
      next hdead =>
          rw [Option.isSome_or, hname.mpr (by rw [hdead]; exact Option.some_ne_none _), hdead]
          simp
      next hlive =>
          rw [hlive]
          exact ⟨nofun, nofun⟩

theorem writtenAll_append (d : Seq Char) (ops ops' : List Op) :
    writtenAll d (ops ++ ops') = writtenAll (writtenAll d ops) ops' :=
  Grid.runAll_append Op.written d ops ops'

theorem written_items_length (d : Seq Char) {op : Op} (hop : op.IsMark) :
    (op.written d).items.length = d.items.length := by
  obtain ⟨segs, live, site, rfl⟩ := hop
  exact List.length_mapIdx

/-- The flag at `i` after marks and their inverses. -/
theorem writtenAll_inverses_flags {ops : List Op} (hops : ∀ op ∈ ops, op.IsMark) (d : Seq Char)
    (i : Nat) :
    (writtenAll (writtenAll d ops) (ops.reverse.map Op.inverse)).flags[i]? =
      d.flags[i]?.map fun x => ((firstMark i ops).map not).getD x := by
  rw [writtenAll_flags, replay_flags_congr (writtenAll_flags d ops), replay_inverses_flags hops]

/-- The character at `i` after marks and their inverses. -/
theorem writtenAll_inverses_items {ops : List Op} (hops : ∀ op ∈ ops, op.IsMark) (d : Seq Char)
    {i : Nat} (hi : i < d.items.length) :
    (firstMark i ops = none →
      (writtenAll (writtenAll d ops) (ops.reverse.map Op.inverse)).items[i]? = d.items[i]?) ∧
    (firstMark i ops = some false →
      (writtenAll (writtenAll d ops) (ops.reverse.map Op.inverse)).items[i]? =
        broughtBack i ops) := by
  induction ops generalizing d with
  | nil => exact ⟨fun _ => rfl, nofun⟩
  | cons op ops ih =>
      obtain ⟨hop, hrest⟩ := List.forall_mem_cons.mp hops
      have hinv : op.inverse.IsMark := by
        obtain ⟨segs, live, site, rfl⟩ := hop
        exact ⟨segs, !live, site, rfl⟩
      -- The last inverse is that of the first mark.
      have hsplit : writtenAll (writtenAll d (op :: ops)) ((op :: ops).reverse.map Op.inverse) =
          op.inverse.written
            (writtenAll (writtenAll (op.written d) ops) (ops.reverse.map Op.inverse)) := by
        rw [List.reverse_cons, List.map_append, writtenAll_append]
        rfl
      have hflag := writtenAll_inverses_flags hrest (op.written d) i
      obtain ⟨hnone, hdead⟩ := ih hrest (op.written d) (by rwa [written_items_length d hop])
      rw [hsplit, written_items_getElem? hinv, Op.marks_inverse hop, Op.names_inverse hop]
      rw [written_flags_getElem? hop] at hflag
      rw [written_items_getElem? hop] at hnone
      generalize writtenAll (writtenAll (op.written d) ops) (ops.reverse.map Op.inverse) = e at *
      rw [firstMark, broughtBack]
      cases hmark : op.marks i with
      | none =>
          simp only [hmark, Option.map_none, Option.none_or, reduceCtorEq, false_and, if_false]
            at hnone ⊢
          exact ⟨hnone, hdead⟩
      | some live =>
          cases live with
          | true => exact ⟨nofun, nofun⟩
          | false =>
              refine ⟨nofun, fun _ => ?_⟩
              have hback := broughtBack_isSome hrest i
              rw [hmark, List.getElem?_eq_getElem (show i < d.flags.length from d.length_eq ▸ hi),
                Option.map_some, Option.map_some] at hflag
              -- A later mark that takes the character out again brings it back before this one.
              by_cases hfirst : firstMark i ops = some false
              · rw [hfirst] at hflag
                have hlive : ¬ (some true = some true ∧ e.flags[i]? = some false) := fun h => by
                  cases hflag.symm.trans h.2
                refine (if_neg hlive).trans ((hdead hfirst).trans ?_)
                exact (Option.or_of_isSome (hback.mpr hfirst)).symm
              · have hflag : e.flags[i]? = some false := by
                  rw [hflag]
                  cases hlive : firstMark i ops with
                  | none => rfl
                  | some live =>
                      cases live with
                      | true => rfl
                      | false => exact absurd hlive hfirst
                rw [if_pos ⟨rfl, hflag⟩,
                  Option.not_isSome_iff_eq_none.mp fun h => hfirst (hback.mp h), Option.none_or]

/-- Of the live text the inverses bring back what stood there. -/
def BringsBack (d : Seq Char) (ops : List Op) : Prop :=
  ∀ i c, d.flags[i]? = some true → broughtBack i ops = some c → d.items[i]? = some c

/-- Marks that change what they cover and then their inverses restore the text when and only when
what they bring back is what stood there. -/
theorem live_inverses_iff {ops : List Op} (hops : ∀ op ∈ ops, op.IsMark) (d : Seq Char)
    (hturned : Turned d.flags ops) :
    (writtenAll (writtenAll d ops) (ops.reverse.map Op.inverse)).live = d.live ↔
      BringsBack d ops := by
  have hflags : (writtenAll (writtenAll d ops) (ops.reverse.map Op.inverse)).flags = d.flags := by
    rw [writtenAll_flags, replay_flags_congr (writtenAll_flags d ops)]
    exact (replay_inverses_iff hops d).mpr hturned
  have hitems (i : Nat) (hi : i < d.items.length) := writtenAll_inverses_items hops d hi
  have hback := broughtBack_isSome hops
  generalize writtenAll (writtenAll d ops) (ops.reverse.map Op.inverse) = e at hflags hitems ⊢
  rw [Seq.live, Seq.live, hflags, liveItems_eq_iff (hflags ▸ e.length_eq) d.length_eq]
  refine forall_congr' fun i => ?_
  constructor
  · intro h c hlive hc
    have hi : i < d.items.length := d.length_eq ▸ (List.getElem?_eq_some_iff.mp hlive).1
    have hfirst := (hback i).mp (by rw [hc]; rfl)
    rw [← h hlive, (hitems i hi).2 hfirst, hc]
  · intro h hlive
    have hi := (List.getElem?_eq_some_iff.mp hlive).1
    obtain ⟨hnone, hdead⟩ := hitems i (d.length_eq ▸ hi)
    cases hfirst : firstMark i ops with
    | none => exact hnone hfirst
    | some live =>
        obtain rfl : live = false := by
          have := hlive.symm.trans (hturned i live hfirst hi)
          cases live <;> simp_all
        obtain ⟨c, hc⟩ := Option.isSome_iff_exists.mp ((hback i).mpr hfirst)
        rw [hdead hfirst, hc, h c hlive hc]

end CollabMode
