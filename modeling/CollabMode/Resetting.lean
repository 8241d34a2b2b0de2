import CollabMode.Creation
import CollabMode.Feeding
import CollabMode.Replying

/-!
# Resetting a document from disk

A change of the file by another program is turned into ops whose positions are places of the
text.  The ops run on the internal document, where tombstones count.  So they act where the diff
means them to just when no tombstone comes before the end of the last change (`changesEnd`).
-/

namespace CollabMode

open Tombstone

/-! ## Ops in the first part of a sequence -/

/-- Ops that lie in the first part leave the rest alone. -/
theorem replay_append_right {ops : List Op} {d : Seq Char}
    (h : ∀ op ∈ ops, op.InRange d.items.length) (e : Seq Char) :
    replay (d.append e) ops = (replay d ops).append e := by
  induction ops generalizing d with
  | nil => rfl
  | cons op ops ih =>
      obtain ⟨hop, hops⟩ := List.forall_mem_cons.mp h
      have hone : op.apply (d.append e) = (op.apply d).append e := by
        cases op with
        | ins op site => exact Seq.insert_append hop ..
        | mark segs live site =>
            refine Seq.mark_append (fun i hi => ?_) ..
            obtain ⟨r, hr, hle, hlt⟩ := covers_iff.mp hi
            obtain ⟨seg, hseg, rfl⟩ := List.mem_map.mp hr
            exact Nat.lt_of_lt_of_le hlt (SegsInRange.le hop seg hseg)
      show replay (op.apply (d.append e)) ops = (replay (op.apply d) ops).append e
      rw [hone, ih fun b hb => (hops b hb).mono ?_]
      rw [Op.apply_items]
      exact op.applyItems_length_le _

/-! ## Diffs -/

namespace Chunk

/-- What the chunk covers of the new text. -/
def new : Chunk → Text
  | .equal s => s
  | .insert s => s
  | .delete _ => []

/-- The same change, maybe of other characters. -/
inductive Alike : Chunk → Chunk → Prop where
  | equal {s s' : Text} (h : s'.length = s.length) : Alike (.equal s) (.equal s')
  | insert {s s' : Text} (h : s'.length = s.length) : Alike (.insert s) (.insert s')
  | delete {s s' : Text} (h : s'.length = s.length) : Alike (.delete s) (.delete s')

/-- The chunk with `c` for every character. -/
def fill (c : Char) : Chunk → Chunk
  | .equal s => .equal (List.replicate s.length c)
  | .insert s => .insert (List.replicate s.length c)
  | .delete s => .delete (List.replicate s.length c)

theorem Alike.refl (chunk : Chunk) : chunk.Alike chunk := by
  cases chunk <;> constructor <;> rfl

theorem alike_fill (c : Char) (chunk : Chunk) : chunk.Alike (chunk.fill c) := by
  cases chunk <;> constructor <;> exact List.length_replicate

theorem old_fill (c : Char) (chunk : Chunk) :
    (chunk.fill c).old = List.replicate chunk.old.length c := by
  cases chunk <;> rfl

theorem new_fill (c : Char) (chunk : Chunk) :
    (chunk.fill c).new = List.replicate chunk.new.length c := by
  cases chunk <;> rfl

theorem Alike.lengths {chunk chunk' : Chunk} (h : chunk.Alike chunk') :
    chunk'.old.length = chunk.old.length ∧ chunk'.text.length = chunk.text.length := by
  cases h with
  | equal h => exact ⟨h, h⟩
  | insert h => exact ⟨rfl, h⟩
  | delete h => exact ⟨h, h⟩

end Chunk

theorem nonempty_alike {chunks chunks' : List Chunk} (h : List.Forall₂ Chunk.Alike chunks chunks')
    (hne : ∀ chunk ∈ chunks, chunk.text ≠ []) : ∀ chunk ∈ chunks', chunk.text ≠ [] := by
  induction h with
  | nil => exact hne
  | cons hone _ ih =>
      obtain ⟨htext, hrest⟩ := List.forall_mem_cons.mp hne
      refine List.forall_mem_cons.mpr ⟨List.ne_nil_of_length_pos ?_, ih hrest⟩
      rw [hone.lengths.2]
      exact List.length_pos_iff.mpr htext

theorem old_length_alike {chunks chunks' : List Chunk}
    (h : List.Forall₂ Chunk.Alike chunks chunks') :
    (chunks'.flatMap Chunk.old).length = (chunks.flatMap Chunk.old).length := by
  induction h with
  | nil => rfl
  | cons hone _ ih =>
      rw [List.flatMap_cons, List.flatMap_cons, List.length_append, List.length_append, ih,
        hone.lengths.1]

/-- Where the last change of a diff ends in the old text, of which `pos` characters come before
the diff. -/
def changesEnd (pos : Nat) : List Chunk → Nat
  | [] => 0
  | .equal s :: chunks => changesEnd (pos + s.length) chunks
  | .insert _ :: chunks => max pos (changesEnd pos chunks)
  | .delete s :: chunks => max (pos + s.length) (changesEnd (pos + s.length) chunks)

theorem changesEnd_le (pos : Nat) (chunks : List Chunk) :
    changesEnd pos chunks ≤ pos + (chunks.flatMap Chunk.old).length := by
  induction chunks generalizing pos with
  | nil => exact Nat.zero_le _
  | cons chunk chunks ih =>
      rw [List.flatMap_cons, List.length_append]
      cases chunk with
      | equal s => exact (ih (pos + s.length)).trans_eq (Nat.add_assoc ..)
      | insert s =>
          simp only [Chunk.old, List.length_nil, Nat.zero_add, changesEnd]
          exact Nat.max_le.mpr ⟨Nat.le_add_right .., ih pos⟩
      | delete s =>
          simp only [Chunk.old, changesEnd]
          have := ih (pos + s.length)
          omega

theorem changesEnd_alike {chunks chunks' : List Chunk}
    (h : List.Forall₂ Chunk.Alike chunks chunks') (pos : Nat) :
    changesEnd pos chunks' = changesEnd pos chunks := by
  induction h generalizing pos with
  | nil => rfl
  | cons hone _ ih =>
      cases hone with
      | equal hlen => simp only [changesEnd, ih, hlen]
      | insert _ => simp only [changesEnd, ih]
      | delete hlen => simp only [changesEnd, ih, hlen]

/-- The ops lie before the end of the last change. -/
theorem chunksToRawOps_inRange {site : SiteId} {pos : Nat} {chunks : List Chunk}
    (hne : ∀ chunk ∈ chunks, chunk.text ≠ []) :
    ∀ op ∈ chunksToRawOps site pos chunks, op.InRange (changesEnd pos chunks) := by
  induction chunks generalizing pos with
  | nil => nofun
  | cons chunk chunks ih =>
      obtain ⟨htext, hrest⟩ := List.forall_mem_cons.mp hne
      cases chunk with
      | equal s => exact ih hrest
      | insert s =>
          refine List.forall_mem_cons.mpr ⟨Nat.le_max_left .., fun op hop => ?_⟩
          exact (ih hrest op hop).mono (Nat.le_max_right ..)
      | delete s =>
          refine List.forall_mem_cons.mpr ⟨⟨?_, ?_, ?_⟩, fun op hop => ?_⟩
          · simpa using show s ≠ [] from htext
          · exact List.pairwise_singleton ..
          · simp only [List.mem_singleton, forall_eq]
            exact Nat.le_max_left ..
          · exact (ih hrest op hop).mono (Nat.le_max_right ..)

/-- A diff that makes no op changes nothing. -/
theorem new_eq_old_of_rawOps {site : SiteId} {pos : Nat} {chunks : List Chunk}
    (h : chunksToRawOps site pos chunks = []) :
    chunks.flatMap Chunk.new = chunks.flatMap Chunk.old := by
  induction chunks generalizing pos with
  | nil => rfl
  | cons chunk chunks ih =>
      cases chunk with
      | equal s => exact congrArg (s ++ ·) (ih h)
      | insert s => cases h
      | delete s => cases h

/-! ## Resetting a text without tombstones in front -/

theorem liveBefore_front {f : List Bool} {p : Nat} (h : ∀ i < p, f[i]? = some true) :
    liveBefore p f = p := by
  have htake := take_extend (Nat.zero_le p) fun i _ hi => h i hi
  rw [liveBefore, htake, List.take_zero, List.nil_append, Nat.sub_zero, List.count_replicate_self]

theorem apply_ins_front {d : Seq Char} {p : Nat} (h : ∀ i < p, d.flags[i]? = some true)
    (hp : p ≤ d.items.length) (s : Text) (site : SiteId) :
    ((Op.ins (p, s) site).apply d).live = d.live.take p ++ s ++ d.live.drop p ∧
      ∀ i < p, ((Op.ins (p, s) site).apply d).flags[i]? = d.flags[i]? := by
  constructor
  · refine (liveItems_insertAt d.length_eq hp).trans ?_
    rw [liveBefore_front h]
    rfl
  · intro i hi
    refine (getElem?_insertAt (d.length_eq ▸ hp) i).trans ?_
    rw [if_pos hi]

theorem apply_del_front {d : Seq Char} {p : Nat} {s : Text}
    (h : ∀ i < p + s.length, d.flags[i]? = some true) (site : SiteId) :
    ((Op.mark [(p, s)] false site).apply d).live =
        d.live.take p ++ d.live.drop (p + s.length) ∧
      ∀ i < p, ((Op.mark [(p, s)] false site).apply d).flags[i]? = d.flags[i]? := by
  have hcovers : covers (segRuns [(p, s)]) = stretch (p, s.length) := by
    funext i
    simp [covers, segRuns]
  have hflags : ((Op.mark [(p, s)] false site).apply d).flags =
      paint (stretch (p, s.length)) false d.flags := congrArg (paint · false d.flags) hcovers
  constructor
  · have hle : p + s.length ≤ d.flags.length := by
      rcases Nat.eq_zero_or_pos (p + s.length) with hzero | hpos
      · omega
      · have := (List.getElem?_eq_some_iff.mp (h _ (Nat.sub_lt hpos Nat.one_pos))).1
        omega
    have hlive := liveItems_kill_part d.length_eq (Nat.le_add_right p s.length) hle
    rw [Nat.add_sub_cancel_left, liveBefore_front h,
      liveBefore_front fun i hi => h i (Nat.lt_add_right _ hi)] at hlive
    rw [Seq.live, hflags]
    exact hlive
  · intro i hi
    rw [hflags, getElem?_paint]
    have hout : stretch (p, s.length) i = false :=
      Bool.eq_false_iff.mpr fun hin => absurd ((stretch_iff ..).mp hin).1 (Nat.not_le.mpr hi)
    simp [hout]

/-- With no tombstone before the end of the last change, the ops turn the old text into the
new one.  The induction goes from the end of the text, where the ops start. -/
theorem replay_reset {d : Seq Char} {site : SiteId} {pos : Nat} {chunks : List Chunk}
    (hold : d.live.drop pos = chunks.flatMap Chunk.old) (hpos : pos ≤ d.live.length)
    (hfront : ∀ i < changesEnd pos chunks, d.flags[i]? = some true) :
    (replay d (chunksToRawOps site pos chunks).reverse).live =
        d.live.take pos ++ chunks.flatMap Chunk.new ∧
      d.items.length ≤ (replay d (chunksToRawOps site pos chunks).reverse).items.length ∧
      ∀ i < pos, (replay d (chunksToRawOps site pos chunks).reverse).flags[i]? = d.flags[i]? := by
  induction chunks generalizing pos with
  | nil =>
      refine ⟨?_, Nat.le_refl _, fun _ _ => rfl⟩
      have hnil : d.live.drop pos = [] := hold
      show d.live = d.live.take pos ++ []
      rw [← hnil, List.take_append_drop]
  | cons chunk chunks ih =>
      have hlive : d.live.length ≤ d.items.length := by
        rw [Seq.live_length, d.length_eq]
        exact List.count_le_length
      -- What the chunk covers, and what comes behind it.
      rw [List.flatMap_cons] at hold
      have hrest : d.live.drop (pos + chunk.old.length) = chunks.flatMap Chunk.old := by
        rw [← List.drop_drop, hold, List.drop_left]
      have htake : d.live.take (pos + chunk.old.length) = d.live.take pos ++ chunk.old := by
        rw [List.take_add, hold, List.take_left]
      have hle : pos + chunk.old.length ≤ d.live.length := by
        have := congrArg List.length hold
        rw [List.length_drop, List.length_append] at this
        omega
      cases chunk with
      | equal s =>
          obtain ⟨hnew, hlen, hsame⟩ := ih hrest hle hfront
          refine ⟨?_, hlen, fun i hi => hsame i (Nat.lt_add_right _ hi)⟩
          rw [List.flatMap_cons, ← List.append_assoc]
          exact hnew.trans (congrArg (· ++ _) htake)
      | insert s =>
          obtain ⟨hnew, hlen, hsame⟩ :=
            @ih pos hrest hpos fun i hi => hfront i (lt_max_of_lt_right hi)
          rw [chunksToRawOps, List.reverse_cons, replay_append]
          have hins := apply_ins_front
            (fun i hi => (hsame i hi).trans (hfront i (lt_max_of_lt_left hi)))
            (Nat.le_trans hpos (Nat.le_trans hlive hlen)) s site
          refine ⟨hins.1.trans ?_, ?_, fun i hi => (hins.2 i hi).trans (hsame i hi)⟩
          · have hlen' : (d.live.take pos).length = pos := List.length_take_of_le hpos
            rw [hnew, List.take_left' hlen', List.drop_left' hlen']
            exact List.append_assoc ..
          · show d.items.length ≤ ((Op.ins (pos, s) site).apply _).items.length
            rw [Op.apply_items]
            exact hlen.trans (Op.applyItems_length_le ..)
      | delete s =>
          obtain ⟨hnew, hlen, hsame⟩ :=
            @ih (pos + s.length) hrest hle fun i hi => hfront i (lt_max_of_lt_right hi)
          rw [chunksToRawOps, List.reverse_cons, replay_append]
          have hdel := apply_del_front
            (fun i hi => (hsame i hi).trans (hfront i (lt_max_of_lt_left hi))) site
          refine ⟨hdel.1.trans ?_, hlen, fun i hi =>
            (hdel.2 i hi).trans (hsame i (Nat.lt_add_right _ hi))⟩
          have hlen' : (d.live.take (pos + s.length)).length = pos + s.length :=
            List.length_take_of_le hle
          rw [hnew, List.drop_left' hlen', List.take_append_of_le_length (by omega),
            List.take_take, Nat.min_eq_left (Nat.le_add_right ..)]
          rfl

/-! ## Tombstones in front -/

/-- The last change of a diff. -/
theorem changesEnd_cases (pos : Nat) (chunks : List Chunk) :
    (changesEnd pos chunks = 0 ∧ ∀ chunk ∈ chunks, ∃ s, chunk = .equal s) ∨
    ∃ front last back, chunks = front ++ last :: back ∧ (∀ chunk ∈ back, ∃ s, chunk = .equal s) ∧
      (∀ s, last ≠ .equal s) ∧
      changesEnd pos chunks = pos + (front.flatMap Chunk.old).length + last.old.length := by
  induction chunks generalizing pos with
  | nil => exact .inl ⟨rfl, nofun⟩
  | cons chunk chunks ih =>
      -- A later change is the last one, else this chunk may be it.
      have hlater : ∀ {end' : Nat}, changesEnd pos (chunk :: chunks) = max end' (changesEnd
          (pos + chunk.old.length) chunks) → end' ≤ pos + chunk.old.length →
          (∃ front last back, chunks = front ++ last :: back ∧
            (∀ chunk ∈ back, ∃ s, chunk = .equal s) ∧ (∀ s, last ≠ .equal s) ∧
            changesEnd (pos + chunk.old.length) chunks =
              pos + chunk.old.length + (front.flatMap Chunk.old).length + last.old.length) →
          ∃ front last back, chunk :: chunks = front ++ last :: back ∧
            (∀ chunk ∈ back, ∃ s, chunk = .equal s) ∧ (∀ s, last ≠ .equal s) ∧
            changesEnd pos (chunk :: chunks) =
              pos + (front.flatMap Chunk.old).length + last.old.length := by
        rintro end' heq hle ⟨front, last, back, rfl, hback, hlast, hend⟩
        refine ⟨chunk :: front, last, back, rfl, hback, hlast, ?_⟩
        rw [heq, hend, List.flatMap_cons, List.length_append]
        omega
      rcases ih (pos + chunk.old.length) with ⟨hzero, hequal⟩ | hchange
      · cases chunk with
        | equal s =>
            exact .inl ⟨hzero, List.forall_mem_cons.mpr ⟨⟨s, rfl⟩, hequal⟩⟩
        | insert s =>
            refine .inr ⟨[], .insert s, chunks, rfl, hequal, nofun, ?_⟩
            exact (congrArg (max pos) hzero).trans (Nat.max_zero pos)
        | delete s =>
            refine .inr ⟨[], .delete s, chunks, rfl, hequal, nofun, ?_⟩
            exact (congrArg (max _) hzero).trans (Nat.max_zero _)
      · cases chunk with
        | equal s => exact .inr (hlater (Nat.zero_max _).symm (Nat.zero_le _) hchange)
        | insert s => exact .inr (hlater rfl (Nat.le_refl _) hchange)
        | delete s => exact .inr (hlater rfl (Nat.le_refl _) hchange)

theorem flatMap_fill {f : Chunk → Text} {c : Char}
    (hf : ∀ chunk, f (chunk.fill c) = List.replicate (f chunk).length c) (chunks : List Chunk) :
    (chunks.map (Chunk.fill c)).flatMap f = List.replicate (chunks.flatMap f).length c := by
  induction chunks with
  | nil => rfl
  | cons chunk chunks ih =>
      rw [List.map_cons, List.flatMap_cons, List.flatMap_cons, hf, ih, List.length_append,
        List.replicate_append_replicate]

/-- Fewer characters of the text than places lie in front of `k` when a tombstone does. -/
theorem count_take_lt {f : List Bool} {k i : Nat} (hk : k ≤ f.length) (hi : i < k)
    (hdead : f[i]? ≠ some true) : (f.take k).count true < k := by
  have hlen : (f.take k).length = k := List.length_take_of_le hk
  refine Nat.lt_of_le_of_ne (List.count_le_length.trans_eq hlen) fun heq => hdead ?_
  have hall := List.count_eq_length.mp (heq.trans hlen.symm)
  have hget : (f.take k)[i]? = f[i]? := List.getElem?_take_of_lt hi
  rw [← hget, List.getElem?_eq_getElem (hlen.symm ▸ hi)]
  exact congrArg some (hall _ (List.getElem_mem _)).symm

/-- With a tombstone before the end of the last change, some text of this shape is not reset.
The characters of the last change are all the same and no others are like them. -/
theorem exists_misplaced {f : List Bool} {chunks : List Chunk} (site : SiteId)
    (hne : ∀ chunk ∈ chunks, chunk.text ≠ [])
    (hlen : (chunks.flatMap Chunk.old).length = f.count true) {i : Nat}
    (hi : i < changesEnd 0 chunks) (hdead : f[i]? ≠ some true) :
    ∃ chunks', List.Forall₂ Chunk.Alike chunks chunks' ∧
      ∀ d : Seq Char, d.flags = f → d.live = chunks'.flatMap Chunk.old →
        (replay d (chunksToRawOps site 0 chunks').reverse).live ≠ chunks'.flatMap Chunk.new := by
  rcases changesEnd_cases 0 chunks with ⟨hzero, -⟩ | ⟨front, last, back, rfl, hback, hlast, hend⟩
  · exact absurd (hzero ▸ hi) (Nat.not_lt_zero i)
  generalize hk : changesEnd 0 (front ++ last :: back) = k at hi hend
  rw [Nat.zero_add] at hend
  have hrefl (chunks : List Chunk) (c : Char) :
      List.Forall₂ Chunk.Alike chunks (chunks.map (Chunk.fill c)) :=
    List.forall₂_map_right_iff.mpr (List.forall₂_same.mpr fun chunk _ => chunk.alike_fill c)
  have halike : List.Forall₂ Chunk.Alike (front ++ last :: back)
      (front.map (Chunk.fill 'a') ++ last.fill 'b' :: back.map (Chunk.fill 'a')) :=
    List.rel_append (hrefl front 'a') (.cons (last.alike_fill 'b') (hrefl back 'a'))
  refine ⟨_, halike, fun d hflags hlive heq => ?_⟩
  -- The ops act on the first `k` places only.
  have hk' : k ≤ f.length := by
    have := changesEnd_le 0 (front ++ last :: back)
    have := @List.count_le_length _ _ true f
    omega
  obtain ⟨d₁, d₂, rfl, hlen₁, hflags₁⟩ := Seq.exists_append (d.length_eq ▸ hflags ▸ hk' :
    k ≤ d.items.length)
  have hne' := nonempty_alike halike hne
  have hrange : ∀ op ∈ (chunksToRawOps site 0 (front.map (Chunk.fill 'a') ++
      last.fill 'b' :: back.map (Chunk.fill 'a'))).reverse, op.InRange d₁.items.length := by
    intro op hop
    have := chunksToRawOps_inRange hne' op (List.mem_reverse.mp hop)
    rwa [changesEnd_alike halike, hk, ← hlen₁] at this
  rw [replay_append_right hrange, Seq.append_live] at heq
  rw [Seq.append_live] at hlive
  have hlt : d₁.live.length < k := by
    rw [Seq.live_length, hflags₁, hflags]
    exact count_take_lt hk' hi hdead
  -- What the diff covers and what it makes, in letters.
  have hold := flatMap_fill (Chunk.old_fill 'a')
  have hnew := flatMap_fill (Chunk.new_fill 'a')
  rw [List.flatMap_append, List.flatMap_cons, hold, hold, Chunk.old_fill] at hlive
  rw [List.flatMap_append, List.flatMap_cons, hnew, hnew, Chunk.new_fill] at heq
  have hrest := congrArg (List.drop d₁.live.length) hlive
  rw [List.drop_left] at hrest
  have hsame : back.flatMap Chunk.new = back.flatMap Chunk.old := by
    refine congrArg List.flatten (List.map_congr_left fun chunk hmem => ?_)
    obtain ⟨s, rfl⟩ := hback chunk hmem
    rfl
  have htext := hne last (by simp)
  generalize (front.flatMap Chunk.old).length = m at hlive hrest hend
  generalize (front.flatMap Chunk.new).length = m' at heq
  generalize (replay d₁ _).live = text at heq
  rw [hsame] at heq
  cases last with
  | equal s => exact hlast s rfl
  | delete s =>
      -- The last letter that is to be deleted stays.
      have hpos : 0 < s.length := List.length_pos_iff.mpr htext
      have hend : k = m + s.length := hend
      have hget : d₂.live[k - 1 - d₁.live.length]? = some 'b' := by
        have hplace : d₁.live.length + (k - 1 - d₁.live.length) - m < s.length := by omega
        rw [hrest, List.getElem?_drop, List.getElem?_append_right (by simp; omega),
          List.length_replicate, List.getElem?_append_left (by rwa [List.length_replicate])]
        exact List.getElem?_replicate_of_lt hplace
      have hmem : 'b' ∈ text ++ d₂.live := List.mem_append_right _ (List.mem_of_getElem? hget)
      rw [heq] at hmem
      simp [Chunk.new] at hmem
  | insert s =>
      -- Seen from the end, the inserted letters come too late.
      have hpos : 0 < s.length := List.length_pos_iff.mpr htext
      have hrest : d₂.live = List.replicate (m + (back.flatMap Chunk.old).length -
          d₁.live.length) 'a' := by
        rw [hrest]
        simp [Chunk.old]
      have hend : k = m := hend
      have hback := congrArg (fun l => l.reverse[(back.flatMap Chunk.old).length]?) heq
      simp only [List.reverse_append, List.reverse_replicate, hrest] at hback
      rw [List.getElem?_append_left (by simp; omega),
        List.getElem?_replicate_of_lt (by omega)] at hback
      simp [Chunk.new, hpos] at hback

/-! ## Buffers that are too short -/

theorem deleteEdits_pad {edits : List Edit} {buffer buffer' : Text} (pad : Text)
    (h : deleteEdits edits buffer = some buffer') :
    deleteEdits edits (buffer ++ pad) = some (buffer' ++ pad) := by
  induction edits generalizing buffer with
  | nil =>
      cases h
      rfl
  | cons edit edits ih =>
      simp only [deleteEdits, Option.bind_eq_bind, Option.bind_eq_some_iff] at h ⊢
      obtain ⟨buffer₁, hdrain, h⟩ := h
      refine ⟨buffer₁ ++ pad, ?_, ih h⟩
      unfold drain at hdrain ⊢
      split at hdrain
      next hle =>
          cases hdrain
          rw [if_pos ⟨hle.1, hle.2.trans (by simp)⟩,
            List.take_append_of_le_length (hle.1.trans hle.2),
            List.drop_append_of_le_length hle.2, List.append_assoc]
      next => cases hdrain

theorem insertEdits_length_le (edits : List Edit) (buffer : Text) :
    buffer.length ≤ (insertEdits edits buffer).2.length := by
  induction edits generalizing buffer with
  | nil => exact Nat.le_refl _
  | cons edit edits ih =>
      simp only [insertEdits]
      split
      next => exact Nat.le_refl _
      next => exact Nat.le_trans (by simp) (ih _)

theorem insertEdits_pad (edits : List Edit) (buffer pad : Text) :
    (insertEdits edits buffer).2.length + pad.length ≤
      (insertEdits edits (buffer ++ pad)).2.length ∨
    ∃ err, (insertEdits edits (buffer ++ pad)).1 = .error err := by
  induction edits generalizing buffer with
  | nil => exact .inl (List.length_append ..).ge
  | cons edit edits ih =>
      by_cases hpos : edit.pos > buffer.length
      · have hshort : insertEdits (edit :: edits) buffer = (.error (.docFatal
            s!"Insertion pos > gapbuf_len, {edit.pos} > {buffer.length}"), buffer) := by
          simp only [insertEdits, if_pos hpos]
        rw [hshort]
        exact .inl ((List.length_append ..).ge.trans (insertEdits_length_le _ _))
      · have hpad : ¬ edit.pos > (buffer ++ pad).length := by
          rw [List.length_append]
          omega
        simp only [insertEdits, if_neg hpos, if_neg hpad]
        rw [insertAt_append_left (Nat.not_lt.mp hpos)]
        exact ih _

/-- What is missing at the end of a buffer is missing afterwards too. -/
theorem EditInstruction.apply_pad {instr : EditInstruction} {buffer buffer' pad text : Text}
    {res : Except CollabError Unit} (h : instr.apply buffer = some (res, buffer'))
    (hpad : instr.apply (buffer ++ pad) = some (.ok (), text)) :
    buffer'.length + pad.length ≤ text.length := by
  cases instr with
  | ins edits =>
      simp only [EditInstruction.apply, Option.some.injEq] at h hpad
      rcases insertEdits_pad edits.reverse buffer pad with hle | ⟨err, herr⟩
      · rwa [h, hpad] at hle
      · rw [hpad] at herr
        cases herr
  | del edits =>
      simp only [EditInstruction.apply, Option.map_eq_some_iff, Prod.mk.injEq] at h hpad
      obtain ⟨_, hdel, -, rfl⟩ := h
      obtain ⟨_, hdel', -, rfl⟩ := hpad
      rw [deleteEdits_pad pad hdel] at hdel'
      cases hdel'
      rw [List.length_append]

/-! ## Hosted documents -/

namespace Doc

variable {self self' : Doc}

/-- What happens to a hosted document. -/
inductive Call where
  | processAndApply (ops : List (FatOp Op)) (context : GlobalSeq)
  | resetFromDisk (chunks : List Chunk)
  | setSubscribers (subscribers : List (ServerId × LocalSeq))

/-- The document after the call, also when it fails. -/
def after (self : Doc) : Call → Option Doc
  | .processAndApply ops context => (self.processAndApply ops context).map Prod.snd
  | .resetFromDisk chunks => (self.resetFromDisk chunks).map Prod.snd
  | .setSubscribers subscribers => some { self with subscribers }

/-- Each op, carried past what came before it, lies within the document when it runs, and a
diff is one of the text. -/
def Sound (self : Doc) : Call → Prop
  | .processAndApply ops context =>
      Grid.OkAll (fun n op => n + op.grows) (fun n op => op.Nonempty ∧ op.InRange n)
        self.engine.internalDoc.internalLen (opsOf (self.ordered ops context))
  | .resetFromDisk chunks => Spells self.buffer chunks
  | .setSubscribers _ => True

/-- The documents that come of a file by sound calls.  A new engine counts bytes. -/
def Reachable (content : Text) (doc : Doc) : Prop :=
  ∃ calls, Run.Meets after Sound (Doc.new content (ServerEngine.new (utf8Len content))) calls ∧
    Run.run after (Doc.new content (ServerEngine.new (utf8Len content))) calls = some doc

/-- What holds of every document. -/
structure Kept (doc : Doc) : Prop where
  ok : DocOk doc.engine.internalDoc
  counted : doc.engine.currentSeq = doc.engine.gh.global.length

theorem Kept.append (h : Kept self) (new : List (FatOp Op)) : Kept (self.append new) where
  ok := h.ok
  counted := by
    show self.engine.currentSeq + new.length = (self.engine.gh.global ++ new).length
    rw [h.counted, List.length_append]

/-- The ops that a diff is turned into run as they are. -/
theorem Kept.ordered_external (h : Kept self) (ops : List (FatOp Op)) :
    self.ordered ops self.engine.currentSeq =
      ServerEngine.assignSeqs (self.engine.currentSeq + 1) ops := by
  rw [ordered, h.counted, List.drop_length, Grid.carry_nil_left]

/-- The engine agrees with the text. -/
structure Synced (doc : Doc) : Prop extends Kept doc where
  length : doc.buffer.length = doc.engine.internalDoc.editorLen

/-- Some characters stand behind the text. -/
theorem Synced.exists_shows (h : Synced self) : ∃ d, self.Shows d := by
  obtain ⟨d, hflags, hlive⟩ := Seq.exists_live (flags self.engine.internalDoc.ranges)
    (h.length.trans (by rw [flags_count, InternalDoc.editorLen_eq]))
  exact ⟨d, h.ok, hflags, hlive.symm⟩

/-- Ops in range are applied. -/
theorem Synced.applyOps {ops : List (FatOp Op)} (h : Synced self)
    (hops : Grid.OkAll (fun n op => n + op.grows) (fun n op => op.Nonempty ∧ op.InRange n)
      self.engine.internalDoc.internalLen (opsOf ops)) :
    ∃ self', Doc.applyOps ops self = some (.ok (), self') ∧ Synced self' := by
  induction ops generalizing self with
  | nil => exact ⟨self, rfl, h⟩
  | cons op ops ih =>
      obtain ⟨⟨hne, hrange⟩, hrest⟩ := hops
      obtain ⟨instr, doc, hrun, happlied⟩ := applied_inRange h.ok hne hrange
      obtain ⟨text, hedit, htext⟩ := happlied.edits h.length
      have hone : self.applyOp op = some (.ok (), self.setText doc text) := by
        have hcheck : checkLen doc.editorLen text.length = .ok () := by
          rw [checkLen, if_neg (not_not_intro htext.symm)]
        simp only [applyOp, ServerEngine.convertInternalOpAndApply, hrun, hedit,
          Option.bind_eq_bind, Option.bind_some, ServerEngine.editorLen, hcheck]
        rfl
      have hsynced : Synced (self.setText doc text) := ⟨⟨happlied.ok, h.counted⟩, htext⟩
      obtain ⟨self', hruns, h'⟩ := ih hsynced (by
        show Grid.OkAll _ _ doc.internalLen _
        rw [happlied.length]
        exact hrest)
      refine ⟨self', ?_, h'⟩
      simp only [Doc.applyOps, hone, hruns, Option.bind_eq_bind, Option.bind_some]

/-- A diff of the text is taken, and gives what the replay of its ops shows. -/
theorem Synced.reset (h : Synced self) {d : Seq Char} (hshows : self.Shows d)
    {chunks : List Chunk} (hspells : Spells self.buffer chunks) :
    ∃ processed self', self.resetFromDisk chunks = some (.ok processed, self') ∧
      processed = ServerEngine.assignSeqs (self.engine.currentSeq + 1)
        (chunksToOps chunks externalProcessSiteId self.nextExternalSiteSeq).1 ∧
      self'.Shows (replay d (chunksToRawOps externalProcessSiteId 0 chunks).reverse) ∧
      Synced self' := by
  have hops := chunksToOps_op chunks externalProcessSiteId self.nextExternalSiteSeq
  have hvalid := hshows.chunksToOps_valid hspells.1 hspells.2 self.nextExternalSiteSeq
  simp only [resetFromDisk]
  generalize hchunks : chunksToOps chunks externalProcessSiteId self.nextExternalSiteSeq = made at *
  obtain ⟨ops, nextExternalSiteSeq⟩ := made
  dsimp only at hops hvalid ⊢
  split
  next hempty =>
      obtain rfl := List.isEmpty_iff.mp hempty
      refine ⟨[], _, rfl, rfl, ?_, ⟨h.ok, h.counted⟩, h.length⟩
      rw [← hops]
      exact hshows
  next =>
      -- The ops are numbered and run.
      have h' : Kept { self with nextExternalSiteSeq } := ⟨h.ok, h.counted⟩
      have hordered := h'.ordered_external ops
      have hsame : (ServerEngine.assignSeqs (self.engine.currentSeq + 1) ops).map FatOp.op =
          ops.map FatOp.op := ServerEngine.map_assignSeqs (fun _ _ => rfl) _ _
      have hshows' : ({ self with nextExternalSiteSeq }.append
          (ServerEngine.assignSeqs (self.engine.currentSeq + 1) ops)).Shows d := hshows
      obtain ⟨internalDoc, hrun, hresult⟩ := applyOps_shows hshows' (by rwa [hsame])
      rw [hsame, hops] at hrun hresult
      refine ⟨_, _, (processAndApply_of (by rw [hordered]; exact hrun)).trans ?_, rfl, hresult,
        ⟨hresult.ok, (h'.append _).counted⟩, hresult.editorLen_eq.symm⟩
      rw [hordered]

/-- The engine counts more than the text has. -/
structure Behind (doc : Doc) : Prop extends Kept doc where
  length : doc.buffer.length < doc.engine.internalDoc.editorLen

/-- Then no op is applied, and the engine still counts more. -/
theorem Behind.applyOp (h : Behind self) {op : FatOp Op} (hne : op.op.Nonempty)
    (hrange : op.op.InRange self.engine.internalDoc.internalLen)
    {res : Except CollabError Unit} (hrun : self.applyOp op = some (res, self')) :
    (∃ err, res = .error err) ∧ Behind self' := by
  obtain ⟨instr, doc, hconv, happlied⟩ := applied_inRange h.ok hne hrange
  have hlen : (self.buffer ++ List.replicate
      (self.engine.internalDoc.editorLen - self.buffer.length) 'a').length =
      self.engine.internalDoc.editorLen := by
    rw [List.length_append, List.length_replicate, Nat.add_sub_cancel' (Nat.le_of_lt h.length)]
  obtain ⟨text, hedit, htext⟩ := happlied.edits hlen
  simp only [Doc.applyOp, ServerEngine.convertInternalOpAndApply, hconv, Option.bind_eq_bind,
    Option.bind_some, Option.bind_eq_some_iff, Prod.exists] at hrun
  obtain ⟨res', buffer, happly, hrun⟩ := hrun
  have hlt : buffer.length < doc.editorLen := by
    have hle := EditInstruction.apply_pad happly hedit
    have := h.length
    rw [List.length_replicate] at hle
    omega
  have hbehind : Behind { self with
      engine := { self.engine with internalDoc := doc }, buffer } :=
    ⟨⟨happlied.ok, h.counted⟩, hlt⟩
  cases res' with
  | error err =>
      cases hrun
      exact ⟨⟨err, rfl⟩, hbehind⟩
  | ok u =>
      cases hrun
      have hcheck : ∃ err, checkLen doc.editorLen buffer.length = .error err :=
        ⟨_, if_pos (Nat.ne_of_gt hlt)⟩
      exact ⟨hcheck, hbehind⟩

theorem Behind.applyOps {ops : List (FatOp Op)} (h : Behind self)
    (hops : Grid.OkAll (fun n op => n + op.grows) (fun n op => op.Nonempty ∧ op.InRange n)
      self.engine.internalDoc.internalLen (opsOf ops))
    {res : Except CollabError Unit} (hrun : Doc.applyOps ops self = some (res, self')) :
    (ops ≠ [] → ∃ err, res = .error err) ∧ Behind self' := by
  cases ops with
  | nil =>
      cases hrun
      exact ⟨fun hne => absurd rfl hne, h⟩
  | cons op ops =>
      obtain ⟨⟨hne, hrange⟩, -⟩ := hops
      simp only [Doc.applyOps, Option.bind_eq_bind, Option.bind_eq_some_iff, Prod.exists] at hrun
      obtain ⟨res₁, doc₁, hone, hrun⟩ := hrun
      obtain ⟨⟨err, rfl⟩, hbehind⟩ := h.applyOp hne hrange hone
      cases hrun
      exact ⟨fun _ => ⟨err, rfl⟩, hbehind⟩

theorem Behind.processAndApply {ops : List (FatOp Op)} {context : GlobalSeq} (h : Behind self)
    (hsound : self.Sound (.processAndApply ops context))
    {res : Except CollabError (List (FatOp Op))}
    (hrun : self.processAndApply ops context = some (res, self')) :
    (ops ≠ [] → ∃ err, res = .error err) ∧ Behind self' := by
  have happend : Behind (self.append (self.ordered ops context)) :=
    ⟨h.toKept.append _, h.length⟩
  rw [Doc.processAndApply, processOps_eq] at hrun
  simp only [Option.bind_eq_bind, Option.bind_eq_some_iff, Prod.exists] at hrun
  obtain ⟨res', doc, happly, hrun⟩ := hrun
  obtain ⟨hfails, hbehind⟩ := happend.applyOps hsound happly
  cases res' with
  | error err =>
      cases hrun
      exact ⟨fun _ => ⟨err, rfl⟩, hbehind⟩
  | ok u =>
      cases hrun
      refine ⟨fun hne => ?_, hbehind⟩
      have hordered : self.ordered ops context ≠ [] := fun hnil => hne
        (List.eq_nil_of_length_eq_zero ((self.ordered_length ops context).symm.trans
          (congrArg List.length hnil)))
      obtain ⟨err, herr⟩ := hfails hordered
      cases herr

theorem okAll_external {n : Nat} {ops : List Op} (h : ∀ op ∈ ops, op.Nonempty ∧ op.InRange n) :
    Grid.OkAll (fun n op => n + op.grows) (fun n op => op.Nonempty ∧ op.InRange n) n ops := by
  induction ops generalizing n with
  | nil => trivial
  | cons op ops ih =>
      obtain ⟨hop, hops⟩ := List.forall_mem_cons.mp h
      exact ⟨hop, ih fun b hb => ⟨(hops b hb).1, (hops b hb).2.mono (Nat.le_add_right ..)⟩⟩

/-- A reset of such a document fails, unless there is nothing to change. -/
theorem Behind.reset (h : Behind self) {chunks : List Chunk} (hspells : Spells self.buffer chunks)
    {res : Except CollabError (List (FatOp Op))}
    (hrun : self.resetFromDisk chunks = some (res, self')) :
    (chunksToRawOps externalProcessSiteId 0 chunks ≠ [] → ∃ err, res = .error err) ∧
      Behind self' := by
  have hops := chunksToOps_op chunks externalProcessSiteId self.nextExternalSiteSeq
  simp only [resetFromDisk] at hrun
  generalize hchunks : chunksToOps chunks externalProcessSiteId self.nextExternalSiteSeq = made
    at hops hrun
  obtain ⟨ops, nextExternalSiteSeq⟩ := made
  dsimp only at hops hrun
  split at hrun
  next hempty =>
      obtain rfl := List.isEmpty_iff.mp hempty
      cases hrun
      exact ⟨fun hne => absurd (List.reverse_eq_nil_iff.mp hops.symm) hne,
        ⟨h.ok, h.counted⟩, h.length⟩
  next hempty =>
      have h' : Behind { self with nextExternalSiteSeq } := ⟨⟨h.ok, h.counted⟩, h.length⟩
      have hsame : (ServerEngine.assignSeqs (self.engine.currentSeq + 1) ops).map FatOp.op =
          ops.map FatOp.op := ServerEngine.map_assignSeqs (fun _ _ => rfl) _ _
      -- The ops lie within the text, and so within the document.
      have hlen : 0 + (chunks.flatMap Chunk.old).length ≤
          self.engine.internalDoc.internalLen := by
        have hle : self.engine.internalDoc.editorLen ≤ self.engine.internalDoc.internalLen := by
          rw [InternalDoc.editorLen_eq, InternalDoc.internalLen_eq, ← flags_count, ← flags_length]
          exact List.count_le_length
        rw [hspells.1, Nat.zero_add]
        exact Nat.le_trans (Nat.le_of_lt h.length) hle
      have hsound : Sound { self with nextExternalSiteSeq }
          (.processAndApply ops self.engine.currentSeq) := by
        have hordered := h'.toKept.ordered_external ops
        show Grid.OkAll _ _ _ (opsOf (ordered { self with nextExternalSiteSeq } ops
          self.engine.currentSeq))
        rw [hordered, opsOf, hsame, hops]
        refine okAll_external fun op hop => ?_
        have hok := chunksToRawOps_ok hspells.2 hlen op (List.mem_reverse.mp hop)
        exact ⟨hok.2.1, hok.1⟩
      obtain ⟨hfails, hbehind⟩ := h'.processAndApply hsound hrun
      exact ⟨fun _ => hfails fun hnil => hempty (by rw [hnil]; rfl), hbehind⟩

/-- Engine and text agree or never will. -/
theorem Kept.after {call : Call} (hsound : self.Sound call) (hrun : self.after call = some self')
    (h : Synced self ∨ Behind self) : Synced self' ∨ Behind self' := by
  rcases h with h | h
  · cases call with
    | processAndApply ops context =>
        have happend : Synced (self.append (self.ordered ops context)) :=
          ⟨h.toKept.append _, h.length⟩
        obtain ⟨doc, happly, hdoc⟩ := happend.applyOps hsound
        rw [Doc.after, processAndApply_of happly] at hrun
        cases hrun
        exact .inl hdoc
    | resetFromDisk chunks =>
        obtain ⟨d, hshows⟩ := h.exists_shows
        obtain ⟨processed, doc, hreset, -, -, hdoc⟩ := h.reset hshows hsound
        rw [Doc.after, hreset] at hrun
        cases hrun
        exact .inl hdoc
    | setSubscribers subscribers =>
        cases hrun
        exact .inl ⟨⟨h.ok, h.counted⟩, h.length⟩
  · cases call with
    | processAndApply ops context =>
        obtain ⟨⟨res, doc⟩, hcall, rfl⟩ := Option.map_eq_some_iff.mp hrun
        exact .inr (h.processAndApply hsound hcall).2
    | resetFromDisk chunks =>
        obtain ⟨⟨res, doc⟩, hcall, rfl⟩ := Option.map_eq_some_iff.mp hrun
        exact .inr (h.reset hsound hcall).2
    | setSubscribers subscribers =>
        cases hrun
        exact .inr ⟨⟨h.ok, h.counted⟩, h.length⟩

theorem Reachable.kept {content : Text} (h : Reachable content self) :
    Synced self ∨ Behind self := by
  obtain ⟨calls, hmeets, hrun⟩ := h
  refine Run.invariant (fun _ _ _ h hsound hstep => Kept.after hsound hstep h) ?_ hmeets hrun
  have hok := InternalDoc.new_ok (utf8Len content)
  have hlen := InternalDoc.new_editorLen (utf8Len content)
  rcases Nat.eq_or_lt_of_le (length_le_utf8Len content) with heq | hlt
  · exact .inl ⟨⟨hok, rfl⟩, heq.trans hlen.symm⟩
  · exact .inr ⟨⟨hok, rfl⟩, hlt.trans_eq hlen.symm⟩

end Doc

namespace RemoteDoc

variable {rd : RemoteDoc} {d : Seq Char}

/-- Ops of other sites that come in order, with no local op, show what the replay shows. -/
theorem processServerOps_shows {ops : List (FatOp Op)} (h : rd.Shows d)
    (hlocal : rd.engine.gh.localOps = []) (hsites : ∀ op ∈ ops, op.site ≠ rd.engine.site)
    (hvalid : AllValid d.items (opsOf ops)) :
    ∃ leanOps rd', rd.processServerOps
        (ServerEngine.assignSeqs (rd.engine.currentSeq + 1) ops) = some (.ok leanOps, rd') ∧
      rd'.Shows (replay d (opsOf ops)) := by
  induction ops generalizing rd d with
  | nil => exact ⟨[], rd, rfl, h⟩
  | cons op ops ih =>
      obtain ⟨hsite, hsites⟩ := List.forall_mem_cons.mp hsites
      obtain ⟨hop, hrest⟩ := hvalid
      obtain ⟨instr, doc, hconv, hedit, hshows⟩ := h.internal hop
      -- Nothing local is in the way.
      have hthrough : ∀ op' : FatOp Op, (Grid.through FatOp.transform op'
          rd.engine.gh.localOps).op = op'.op := fun op' => by rw [hlocal]; rfl
      have hseq : ({ op with seq := some (rd.engine.currentSeq + 1) } : FatOp Op).seq =
          some (rd.engine.currentSeq + 1) := rfl
      obtain ⟨engine, hcall, -, hengine⟩ := ClientEngine.processRemoteOp_foreign hseq hsite
        ((congrArg rd.engine.internalDoc.convertInternalOpAndApply (hthrough _)).trans hconv)
      have hengine' : engine.internalDoc = doc ∧ engine.site = rd.engine.site ∧
          engine.currentSeq = rd.engine.currentSeq + 1 ∧ engine.gh.localOps = [] := by
        rw [hengine, hlocal]
        exact ⟨rfl, rfl, rfl, rfl⟩
      obtain ⟨hdoc, hsite', hcurrent, hlocal'⟩ := hengine'
      have hshows' : RemoteDoc.Shows { rd with engine, buffer := (op.op.apply d).live }
          (op.op.apply d) := by
        show CollabMode.Shows engine.internalDoc _ _
        rw [hdoc]
        exact hshows
      have hone : rd.processServerOp { op with seq := some (rd.engine.currentSeq + 1) } =
          some (.ok [⟨instr, op.site⟩],
            { rd with engine, buffer := (op.op.apply d).live }) := by
        have hcheck : checkLen engine.editorLen (op.op.apply d).live.length = .ok () :=
          hshows'.checkLen
        simp only [processServerOp, hcall, Option.bind_eq_bind, Option.bind_some,
          applyEditInstruction, applyEditInstructionUnchecked, hedit, verifyBufferEngineSync,
          hcheck]
        rfl
      have hrest' : AllValid (op.op.apply d).items (opsOf ops) := by
        rw [Op.apply_items]
        exact hrest
      obtain ⟨leanOps, rd', hruns, hrd'⟩ := ih hshows' hlocal'
        (fun op hop => by rw [hsite']; exact hsites op hop) hrest'
      refine ⟨[⟨instr, op.site⟩] ++ leanOps, rd', ?_, hrd'⟩
      rw [hcurrent] at hruns
      simp only [ServerEngine.assignSeqs, processServerOps, hone, hruns, Option.bind_eq_bind,
        Option.bind_some]

end RemoteDoc

namespace Doc

variable {self : Doc} {chunks : List Chunk}

/-- A subscriber with the history of the document: its text, with the same tombstones, and no op
on the way. -/
structure UpToDate (doc : Doc) (rd : RemoteDoc) : Prop where
  ok : DocOk rd.engine.internalDoc
  flags : flags rd.engine.internalDoc.ranges = flags doc.engine.internalDoc.ranges
  buffer : rd.buffer = doc.buffer
  seq : rd.engine.currentSeq = doc.engine.currentSeq
  localOps : rd.engine.gh.localOps = []
  site : rd.engine.site ≠ externalProcessSiteId

/-- The ops that are broadcast lead every subscriber to the text. -/
def LeadsTo (doc : Doc) (processed : List (FatOp Op)) (text : Text) : Prop :=
  ∀ rd, UpToDate doc rd → ∃ leanOps rd', rd.processServerOps processed = some (.ok leanOps, rd') ∧
    rd'.buffer = text

/-- The diff is taken, and document and subscribers end with the new text. -/
def ResetsTo (doc : Doc) (chunks : List Chunk) : Prop :=
  ∃ processed doc', doc.resetFromDisk chunks = some (.ok processed, doc') ∧
    doc'.buffer = chunks.flatMap Chunk.new ∧ doc.LeadsTo processed (chunks.flatMap Chunk.new)

/-- No tombstone comes before the end of the last change. -/
def LiveInFront (doc : Doc) (chunks : List Chunk) : Prop :=
  ∀ i < changesEnd 0 chunks, (flags doc.engine.internalDoc.ranges)[i]? = some true

instance (doc : Doc) (chunks : List Chunk) : Decidable (doc.LiveInFront chunks) :=
  Nat.decidableBallLT _ _

/-- Document and subscribers always end with one text. -/
theorem Synced.reset_leads (h : Synced self) (hspells : Spells self.buffer chunks) {d : Seq Char}
    (hshows : self.Shows d) :
    ∃ processed self', self.resetFromDisk chunks = some (.ok processed, self') ∧
      self'.buffer = (replay d (chunksToRawOps externalProcessSiteId 0 chunks).reverse).live ∧
      self.LeadsTo processed self'.buffer := by
  obtain ⟨processed, self', hreset, rfl, hshows', -⟩ := h.reset hshows hspells
  refine ⟨_, self', hreset, hshows'.text_eq, fun rd hrd => ?_⟩
  have hops := chunksToOps_op chunks externalProcessSiteId self.nextExternalSiteSeq
  have hrd' : rd.Shows d :=
    ⟨hrd.ok, hshows.flags.trans hrd.flags.symm, hrd.buffer.trans hshows.text_eq⟩
  obtain ⟨leanOps, rd', hrun, hresult⟩ := RemoteDoc.processServerOps_shows hrd' hrd.localOps
    (fun op hop => (site_chunksToOps hspells.2 op hop).trans_ne hrd.site.symm)
    (hshows.chunksToOps_valid hspells.1 hspells.2 self.nextExternalSiteSeq)
  rw [hrd.seq] at hrun
  refine ⟨leanOps, rd', hrun, hresult.text_eq.trans ?_⟩
  rw [hshows'.text_eq, opsOf, hops]

theorem Synced.resetsTo (h : Synced self) (hspells : Spells self.buffer chunks)
    (hfront : self.LiveInFront chunks) : self.ResetsTo chunks := by
  obtain ⟨d, hshows⟩ := h.exists_shows
  obtain ⟨processed, self', hreset, hbuffer, hleads⟩ := h.reset_leads hspells hshows
  have hnew := (@replay_reset d externalProcessSiteId 0 chunks
    (hshows.text_eq.symm.trans hspells.1.symm) (Nat.zero_le _)
    fun i hi => (congrArg (·[i]?) hshows.flags).trans (hfront i hi)).1
  rw [List.take_zero, List.nil_append] at hnew
  rw [hnew] at hbuffer
  exact ⟨processed, self', hreset, hbuffer, hbuffer ▸ hleads⟩

/-- All texts with these tombstones are reset by diffs of this shape when and only when no
tombstone comes before the end of the last change. -/
theorem Synced.resetsTo_iff (h : Synced self) (hspells : Spells self.buffer chunks) :
    (∀ chunks', List.Forall₂ Chunk.Alike chunks chunks' →
      ResetsTo { self with buffer := chunks'.flatMap Chunk.old } chunks') ↔
    self.LiveInFront chunks := by
  have hsynced {chunks' : List Chunk} (halike : List.Forall₂ Chunk.Alike chunks chunks') :
      Synced { self with buffer := chunks'.flatMap Chunk.old } :=
    ⟨⟨h.ok, h.counted⟩, (old_length_alike halike).trans (hspells.1 ▸ h.length)⟩
  constructor
  · intro hall i hi
    by_contra hdead
    have hlen : (chunks.flatMap Chunk.old).length =
        (flags self.engine.internalDoc.ranges).count true := by
      rw [hspells.1, h.length, flags_count, InternalDoc.editorLen_eq]
    obtain ⟨chunks', halike, hmisplaced⟩ :=
      exists_misplaced externalProcessSiteId hspells.2 hlen hi hdead
    obtain ⟨d, hshows⟩ := (hsynced halike).exists_shows
    obtain ⟨processed, doc', hreset, hbuffer, -⟩ :=
      (hsynced halike).reset_leads ⟨rfl, nonempty_alike halike hspells.2⟩ hshows
    obtain ⟨processed', doc'', hreset', hnew, -⟩ := hall chunks' halike
    cases hreset.symm.trans hreset'
    exact hmisplaced d hshows.flags hshows.text_eq.symm (hbuffer.symm.trans hnew)
  · intro hfront chunks' halike
    refine (hsynced halike).resetsTo ⟨rfl, nonempty_alike halike hspells.2⟩ fun i hi => ?_
    rw [changesEnd_alike halike] at hi
    exact hfront i hi

end Doc

/-! ## Files -/

/-- What a diff of two texts is. -/
structure Diffs (diff : Text → Text → List Chunk) : Prop where
  old : ∀ text text', (diff text text').flatMap Chunk.old = text
  new : ∀ text text', (diff text text').flatMap Chunk.new = text'
  nonempty : ∀ text text', ∀ chunk ∈ diff text text', chunk.text ≠ []

namespace Server

variable {os : Os} {self : Server} {path : UnixPath.Path} {docId : DocId} {entry : DocEntry}
  {newContent : Text}

/-- A reset that is taken for a changed file leaves document and subscribers with one text.  That
is the content of the file when no tombstone comes before the end of the last change.  Nothing
less will do, for when a tombstone does, another text with these tombstones is not reset by a
diff of this shape.  A change that is older than the last save is skipped. -/
theorem reset_doc_iff (hdiff : Diffs os.diff) (hfound : self.docOfFile path = some (docId, entry))
    {content : Text} (hreach : Doc.Reachable content entry.toDoc) {isBinary : Bool}
    (hread : os.openFile path false = .opened isBinary (some newContent))
    (hchanged : newContent ≠ entry.buffer) {reqId : Option RequestId}
    {timestamp : Option Instant} {after : Server} {effects : List Effect}
    (h : self.resetDocFromDisk os reqId path timestamp = some (.ok (), after, effects)) :
    if timestamp.any (· ≤ entry.lastSavedAt) then after = self ∧ effects = []
    else ∃ processed reset, (after.doc? docId).map DocEntry.toDoc = some reset ∧
      effects = .fs (.open path false) :: broadcastOps reset reqId docId processed ∧
      entry.toDoc.LeadsTo processed reset.buffer ∧
      (entry.toDoc.LiveInFront (os.diff entry.buffer newContent) → reset.buffer = newContent) ∧
      ((∀ chunks, List.Forall₂ Chunk.Alike (os.diff entry.buffer newContent) chunks →
          Doc.ResetsTo { entry.toDoc with buffer := chunks.flatMap Chunk.old } chunks) ↔
        entry.toDoc.LiveInFront (os.diff entry.buffer newContent)) := by
  have hspells : Spells entry.buffer (os.diff entry.buffer newContent) :=
    ⟨hdiff.old _ _, hdiff.nonempty _ _⟩
  have hsome : chunksToRawOps externalProcessSiteId 0 (os.diff entry.buffer newContent) ≠ [] := by
    intro hnil
    have hsame := new_eq_old_of_rawOps hnil
    rw [hdiff.new, hdiff.old] at hsame
    exact hchanged hsame
  have hops := chunksToOps_op (os.diff entry.buffer newContent) externalProcessSiteId
    entry.nextExternalSiteSeq
  have hops : (chunksToOps (os.diff entry.buffer newContent) externalProcessSiteId
      entry.nextExternalSiteSeq).1.isEmpty = false := by
    refine Bool.eq_false_iff.mpr fun hempty => hsome (List.reverse_eq_nil_iff.mp ?_)
    rw [← hops, List.isEmpty_iff.mp hempty]
    rfl
  simp only [resetDocFromDisk] at h
  split at h
  next hnone => cases hfound.symm.trans ((self.find?_docOfFile path).symm.trans hnone)
  next hfind =>
      cases hfound.symm.trans ((self.find?_docOfFile path).symm.trans hfind)
      split at h
      next hgate =>
          cases h
          rw [if_pos hgate]
          exact ⟨rfl, rfl⟩
      next hgate =>
          rw [if_neg hgate]
          simp only [hread, hops, Bool.false_eq_true, if_false, Option.bind_eq_bind,
            Option.bind_eq_some_iff, Prod.exists] at h
          obtain ⟨res, reset, hreset, h⟩ := h
          cases res with
          | error err => cases h
          | ok processed =>
              cases h
              -- The engine agrees with the text, since the reset was taken.
              have hsynced : entry.toDoc.Synced := hreach.kept.resolve_right fun hbehind => by
                obtain ⟨err, herr⟩ := (hbehind.reset hspells hreset).1 hsome
                cases herr
              obtain ⟨d, hshows⟩ := hsynced.exists_shows
              obtain ⟨_, _, hreset', -, hleads⟩ := hsynced.reset_leads hspells hshows
              cases hreset.symm.trans hreset'
              refine ⟨processed, reset, ?_, rfl, hleads, fun hfront => ?_,
                hsynced.resetsTo_iff hspells⟩
              · rw [doc?_setDoc_self]
                rfl
              · obtain ⟨_, _, hreset', hnew, -⟩ := hsynced.resetsTo hspells hfront
                cases hreset.symm.trans hreset'
                exact hnew.trans (hdiff.new _ _)

/-- A diff that looks for no more than one equal character in front. -/
def headDiff (old new : Text) : List Chunk :=
  let n := if old.take 1 = new.take 1 then 1 else 0
  [.equal (old.take n), .delete (old.drop n), .insert (new.drop n)].filter fun chunk =>
    !chunk.text.isEmpty

theorem headDiff_diffs : Diffs headDiff := by
  have hfilter {f : Chunk → Text} (hf : ∀ chunk, chunk.text = [] → f chunk = [])
      (chunks : List Chunk) :
      (chunks.filter fun chunk => !chunk.text.isEmpty).flatMap f = chunks.flatMap f := by
    induction chunks with
    | nil => rfl
    | cons chunk chunks ih =>
        rw [List.filter_cons, List.flatMap_cons]
        cases htext : chunk.text with
        | nil => rw [hf chunk htext, List.nil_append]; exact ih
        | cons c s => exact congrArg (f chunk ++ ·) ih
  refine ⟨fun old new => ?_, fun old new => ?_, fun old new chunk hchunk => ?_⟩
  · rw [headDiff, hfilter (f := Chunk.old) fun chunk h => by cases chunk <;> first | exact h | rfl]
    simp [Chunk.old]
  · rw [headDiff, hfilter (f := Chunk.new) fun chunk h => by cases chunk <;> first | exact h | rfl]
    have htake : old.take (if old.take 1 = new.take 1 then 1 else 0) =
        new.take (if old.take 1 = new.take 1 then 1 else 0) := by
      split
      next h => exact h
      next => rfl
    simp only [List.flatMap_cons, List.flatMap_nil, Chunk.new, htake, List.append_nil,
      List.nil_append]
    exact List.take_append_drop ..
  · simpa using (List.mem_filter.mp hchunk).2

/-- Another program has written `ac` into the file. -/
def rewritten : Os :=
  { Os.bare with openFile := fun _ _ => .opened false (some ['a', 'c']), diff := headDiff }

/-- The text `ab`, of which a client has deleted an `x` at place `p`. -/
def withoutX (p : Nat) (ranges : List Range) : Doc :=
  { engine :=
      { gh :=
          { global := [⟨some 1, .mark [(p, ['x'])] false 1, 1, .original, 1⟩]
            localOps := []
            undoQueue := []
            undoTip := none }
        internalDoc := { ranges, cursors := [(1, ⟨0, 0, some 0⟩)] }
        currentSeq := 1 }
    buffer := ['a', 'b']
    subscribers := []
    nextExternalSiteSeq := 1 }

/-- The entry of a document that is a file. -/
def asFile (doc : Doc) : DocEntry :=
  { toDoc := doc
    name := ['f']
    absFilename := .path ['/', 'f']
    canonFilename := some ['/', 'f']
    fileDesc := .projectFile ['p'] ['f']
    diskFile := some ['/', 'f']
    lastSavedAt := 0 }

/-- A host of the document. -/
def hostOf (doc : Doc) : Server := { fresh with docs := [(1, asFile doc)], nextDocId := 2 }

theorem withoutX_reachable {content : Text} {p : Nat} {ranges : List Range}
    (hrange : SegsInRange (utf8Len content) [(p, ['x'])])
    (hrun : ((Doc.new content (ServerEngine.new (utf8Len content))).processAndApply
      [⟨none, .mark [(p, ['x'])] false 1, 1, .original, 1⟩] 0).map Prod.snd =
        some (withoutX p ranges)) : Doc.Reachable content (withoutX p ranges) := by
  refine ⟨[.processAndApply [⟨none, .mark [(p, ['x'])] false 1, 1, .original, 1⟩] 0],
    ⟨⟨⟨trivial, ?_⟩, trivial⟩, fun _ _ => trivial⟩, ?_⟩
  · show SegsInRange (InternalDoc.new (utf8Len content)).internalLen _
    rwa [InternalDoc.new_internalLen]
  · simp only [Run.run, Doc.after, hrun, Option.bind_some]

/-- The tombstone is behind the change. -/
theorem reset_doc_iff_sample :
    ∃ after effects reset, (hostOf (withoutX 2 [.live 2, .dead 1])).resetDocFromDisk rewritten none
        ['/', 'f'] none = some (.ok (), after, effects) ∧
      (after.doc? 1).map DocEntry.toDoc = some reset ∧ reset.buffer = ['a', 'c'] := by
  have hreach : Doc.Reachable ['a', 'b', 'x'] (withoutX 2 [.live 2, .dead 1]) :=
    withoutX_reachable ⟨by decide, by simp [Ascending], by decide⟩ (by decide +kernel)
  have hfound : (hostOf (withoutX 2 [.live 2, .dead 1])).docOfFile ['/', 'f'] =
      some (1, asFile (withoutX 2 [.live 2, .dead 1])) := rfl
  have hreset := @reset_doc_iff rewritten _ _ _ _ ['a', 'c'] headDiff_diffs hfound _ hreach false
    rfl (by decide) none none _ _ rfl
  obtain ⟨processed, reset, hdoc, -, -, hnew, -⟩ := hreset
  exact ⟨_, _, reset, rfl, hdoc, hnew (by decide)⟩

/-- The tombstone is in front, and the wrong character is deleted. -/
theorem not_reset :
    Diffs headDiff ∧ Doc.Reachable ['x', 'a', 'b'] (withoutX 0 [.dead 1, .live 2]) ∧
      ∃ after effects reset, (hostOf (withoutX 0 [.dead 1, .live 2])).resetDocFromDisk rewritten
          none ['/', 'f'] none = some (.ok (), after, effects) ∧
        (after.doc? 1).map DocEntry.toDoc = some reset ∧ reset.buffer = ['c', 'b'] :=
  ⟨headDiff_diffs,
    withoutX_reachable ⟨by decide, by simp [Ascending], by decide⟩ (by decide +kernel),
    _, _, _, rfl, rfl, by decide +kernel⟩

end Server

end CollabMode
