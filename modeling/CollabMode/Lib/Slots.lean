import Mathlib.Logic.Function.Basic
import Mathlib.Tactic.Common

/-!
# Slots that many parties claim

A slot stands under a key.  A party claims a slot, by which it puts out who was there,
and it has a value there.  Later it may write another value, and at the end it releases
the slot.  Neither looks at who stands in the slot.  So a party that was put out can
still write over the value of the next one, and it can empty the slot.

`MayWrite` and `MayRelease` say when a party does no such harm.
-/

/-- The slots, and what the parties have done so far.  A party has at most one key. -/
structure Slots (K O V : Type*) where
  /-- Who stands in the slot. -/
  owner : K → Option O
  value : K → V
  /-- Who claimed the slot last. -/
  latest : K → Option O
  key : O → Option K
  /-- The party has claimed a slot and has not released it. -/
  holding : O → Prop
  /-- The value that the party wants to have in its slot. -/
  declared : O → V

namespace Slots

variable {K O V : Type*}

/-- The party that claimed a slot last stands in it until it releases it. -/
structure Kept (s : Slots K O V) : Prop where
  key : ∀ k o, s.latest k = some o → s.key o = some k
  owner : ∀ k o, s.owner k = some o ↔ s.latest k = some o ∧ s.holding o

/-- A party that is live finds its own value where it claimed last. -/
def Told (s : Slots K O V) (live : O → Prop) : Prop :=
  ∀ k o, s.latest k = some o → live o → s.value k = s.declared o

/-- No party that claimed later is still to release the slot. -/
def MayRelease (s : Slots K O V) (k : K) (o : O) : Prop :=
  ∀ p, s.latest k = some p → p = o ∨ ¬s.holding p

/-- No party that claimed later is live and wants another value. -/
def MayWrite (s : Slots K O V) (live : O → Prop) (k : K) (o : O) (v : V) : Prop :=
  ∀ p, s.latest k = some p → live p → p = o ∨ s.declared p = v

section

variable {s : Slots K O V} {k k' : K} {o p : O} {live live' : O → Prop}

theorem Kept.ne_of_new (h : s.Kept) (hnew : s.key o = none) (hp : s.latest k = some p) :
    p ≠ o := by
  rintro rfl
  rw [h.key k p hp] at hnew
  cases hnew

theorem Kept.ne_of_key (h : s.Kept) (hkey : s.key o = some k) (hp : s.latest k' = some p)
    (hk : k' ≠ k) : p ≠ o := by
  rintro rfl
  exact hk (Option.some.inj ((h.key k' p hp).symm.trans hkey))

/-- A party puts out nobody but itself when, and only when, it may release the slot. -/
theorem Kept.owner_eq_iff (h : s.Kept) :
    (∀ p, s.owner k = some p → p = o) ↔ s.MayRelease k o := by
  constructor
  · intro hown p hlatest
    by_cases hholding : s.holding p
    · exact .inl (hown p ((h.owner k p).mpr ⟨hlatest, hholding⟩))
    · exact .inr hholding
  · intro hmay p hp
    obtain ⟨hlatest, hholding⟩ := (h.owner k p).mp hp
    exact (hmay p hlatest).resolve_right (not_not.mpr hholding)

theorem Told.mono (h : s.Told live) (hlive : ∀ p, live' p → live p) : s.Told live' :=
  fun k o hlatest ho => h k o hlatest (hlive o ho)

end

/-! ## Releasing a slot -/

section

variable [DecidableEq K]

/-- `o` empties the slot under `k`. -/
def release (s : Slots K O V) (k : K) (o : O) : Slots K O V :=
  { s with
    owner := Function.update s.owner k none
    holding := fun p => p ≠ o ∧ s.holding p }

variable {s : Slots K O V} {k : K} {o : O} {live : O → Prop}

theorem Kept.release (h : s.Kept) (hkey : s.key o = some k) (hmay : s.MayRelease k o) :
    (s.release k o).Kept where
  key := h.key
  owner k' p := by
    simp only [Slots.release, Function.update_apply]
    split
    next hk =>
        subst hk
        constructor
        · intro hp
          cases hp
        · rintro ⟨hlatest, hne, hholding⟩
          rcases hmay p hlatest with rfl | hnot
          · exact absurd rfl hne
          · exact absurd hholding hnot
    next hk =>
        rw [h.owner k' p]
        refine and_congr_right fun hp => ?_
        simp [h.ne_of_key hkey hp hk]

theorem Told.release (h : s.Told live) : (s.release k o).Told live := h

end

/-! ## Claiming a slot and writing to it -/

section

variable [DecidableEq K] [DecidableEq O]

/-- `o` claims the slot under `k`. -/
def claim (s : Slots K O V) (k : K) (o : O) (v : V) : Slots K O V where
  owner := Function.update s.owner k (some o)
  value := Function.update s.value k v
  latest := Function.update s.latest k (some o)
  key := Function.update s.key o (some k)
  holding p := p = o ∨ s.holding p
  declared := Function.update s.declared o v

/-- `o` writes a value into the slot under `k`. -/
def write (s : Slots K O V) (k : K) (o : O) (v : V) : Slots K O V :=
  { s with
    value := Function.update s.value k v
    declared := Function.update s.declared o v }

variable {s : Slots K O V} {k : K} {o : O} {v : V} {live live' : O → Prop}

theorem Kept.claim (h : s.Kept) (hnew : s.key o = none) : (s.claim k o v).Kept where
  key k' p hp := by
    simp only [Slots.claim, Function.update_apply] at hp ⊢
    split at hp
    next hk =>
        cases hp
        rw [if_pos rfl, hk]
    next => rw [if_neg (h.ne_of_new hnew hp), h.key k' p hp]
  owner k' p := by
    simp only [Slots.claim, Function.update_apply]
    split
    next => simp +contextual [eq_comm]
    next =>
        rw [h.owner k' p]
        refine and_congr_right fun hp => ?_
        simp [h.ne_of_new hnew hp]

theorem Kept.write (h : s.Kept) : (s.write k o v).Kept := ⟨h.key, h.owner⟩

theorem Told.claim (hkept : s.Kept) (h : s.Told live) (hnew : s.key o = none)
    (hlive : ∀ p, live' p → p = o ∨ live p) : (s.claim k o v).Told live' := by
  intro k' p hp hlive'
  simp only [Slots.claim, Function.update_apply] at hp ⊢
  split at hp
  next hk =>
      cases hp
      rw [if_pos hk, if_pos rfl]
  next hk =>
      have hne := hkept.ne_of_new hnew hp
      rw [if_neg hk, if_neg hne]
      exact h k' p hp ((hlive p hlive').resolve_left hne)

/-- A party may write exactly when every live party still finds its own value. -/
theorem Told.write_iff (hkept : s.Kept) (h : s.Told live) (hkey : s.key o = some k) :
    (s.write k o v).Told live ↔ s.MayWrite live k o v := by
  constructor
  · intro htold p hlatest hlive
    by_cases hne : p = o
    · exact .inl hne
    · have hvalue := htold k p hlatest hlive
      simp only [Slots.write, Function.update_self, Function.update_of_ne hne] at hvalue
      exact .inr hvalue.symm
  · intro hmay k' p hlatest hlive
    simp only [Slots.write, Function.update_apply]
    split
    next hk =>
        subst hk
        split
        next => rfl
        next hne => exact ((hmay p hlatest hlive).resolve_left hne).symm
    next hk =>
        rw [if_neg (hkept.ne_of_key hkey hlatest hk)]
        exact h k' p hlatest hlive

end

end Slots
