import CollabMode.Lib.AssocMap

/-!
# Numbers that are given once

A `Registry` gives every key a number, the next one when the key is new, and the same one
whenever it comes again.  So no two keys have the same number (`Ok.inj`), and a number that was
given stays (`issue_of_get`).
-/

structure Registry (K : Type) where
  next : Nat
  given : List (K × Nat)

namespace Registry

variable {K : Type} [DecidableEq K]

/-- The number of a key. -/
def get (self : Registry K) (k : K) : Option Nat := AssocMap.get self.given k

/-- The number of a key, and the registry that has it. -/
def issue (self : Registry K) (k : K) : Nat × Registry K :=
  match self.get k with
  | some n => (n, self)
  | none => (self.next, { next := self.next + 1, given := AssocMap.insert self.given k self.next })

/-- Numbers from `first` on were given, each of them once. -/
structure Ok (first : Nat) (registry : Registry K) : Prop where
  first_le : first ≤ registry.next
  range : ∀ k n, registry.get k = some n → first ≤ n ∧ n < registry.next
  inj : ∀ k k' n, registry.get k = some n → registry.get k' = some n → k = k'

variable {self : Registry K} {first : Nat}

theorem ok_empty (first : Nat) : ({ next := first, given := [] } : Registry K).Ok first :=
  ⟨Nat.le_refl first, nofun, nofun⟩

theorem get_issue (self : Registry K) (k k' : K) :
    (self.issue k).2.get k' = if k' = k then some (self.issue k).1 else self.get k' := by
  unfold issue
  split
  next n hk =>
      dsimp only
      split
      next heq => rw [heq, hk]
      next => rfl
  next => exact AssocMap.get_insert self.given k k' self.next

/-- A key that has a number keeps it. -/
theorem issue_of_get {k k' : K} {n : Nat} (h : self.get k' = some n) :
    (self.issue k).2.get k' = some n := by
  rw [get_issue]
  split
  next heq =>
      rw [← heq, issue, h]
  next => exact h

theorem next_le_issue (self : Registry K) (k : K) : self.next ≤ (self.issue k).2.next := by
  unfold issue
  split
  next => exact Nat.le_refl _
  next => exact Nat.le_succ _

theorem issue_next_le (self : Registry K) (k : K) : (self.issue k).2.next ≤ self.next + 1 := by
  unfold issue
  split
  next => exact Nat.le_succ _
  next => exact Nat.le_refl _

/-- The number of a key is given to it before, or it is the next one. -/
theorem issue_fst (self : Registry K) (k : K) :
    self.get k = some (self.issue k).1 ∨
      (self.issue k).1 = self.next ∧ (self.issue k).2.next = self.next + 1 := by
  unfold issue
  split
  next hk => exact .inl hk
  next => exact .inr ⟨rfl, rfl⟩

namespace Ok

theorem ne_next (h : self.Ok first) {k : K} {n : Nat} (hk : self.get k = some n) :
    n ≠ self.next := Nat.ne_of_lt (h.range k n hk).2

theorem issue (h : self.Ok first) (k : K) : (self.issue k).2.Ok first := by
  refine ⟨Nat.le_trans h.first_le (self.next_le_issue k), fun k' n hk' => ?_,
    fun k₁ k₂ n h₁ h₂ => ?_⟩
  · rw [get_issue] at hk'
    split at hk'
    next =>
        cases hk'
        rcases self.issue_fst k with hget | ⟨hfst, hnext⟩
        · obtain ⟨hle, hlt⟩ := h.range k _ hget
          exact ⟨hle, Nat.lt_of_lt_of_le hlt (self.next_le_issue k)⟩
        · rw [hfst, hnext]
          exact ⟨h.first_le, Nat.lt_succ_self _⟩
    next =>
        obtain ⟨hle, hlt⟩ := h.range k' n hk'
        exact ⟨hle, Nat.lt_of_lt_of_le hlt (self.next_le_issue k)⟩
  · -- Another key cannot have the number that is given now.
    have hother {k' : K} (hne : k' ≠ k) (hk' : self.get k' = some (self.issue k).1) : False := by
      rcases self.issue_fst k with hget | ⟨hfst, -⟩
      · exact hne (h.inj k' k _ hk' hget)
      · exact h.ne_next hk' hfst
    rw [get_issue] at h₁ h₂
    split at h₁ <;> split at h₂
    next h₁' h₂' => exact h₁'.trans h₂'.symm
    next _ hne =>
        cases h₁
        exact (hother hne h₂).elim
    next hne _ =>
        cases h₂
        exact (hother hne h₁).elim
    next => exact h.inj k₁ k₂ n h₁ h₂

end Ok

end Registry
