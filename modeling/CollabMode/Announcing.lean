import CollabMode.EditTracking

/-!
# Changes inside the announced region

Emacs announces a region, changes a part of it, and reports the change.  The part can get longer
or shorter, and the region with it.  The tracker compares the end of the report with the end of
the region as it was before.  So it takes what grows past that end for an error of Emacs.
-/

namespace CollabMode

namespace EditTracking

namespace Editing

/-- The tracker works, and the report is of a change inside the region that was announced.
`reported` is the text before the change and `buffer` the text after it. -/
structure Regular (editing : Editing) (rbeg rend beg «end» len : Nat) : Prop where
  hooks : editing.tracker.inhibitHooks = false
  tracking : ∃ pending, editing.tracker.pendingOps = .ops pending
  region : 1 ≤ rbeg ∧ rend ≤ editing.reported.length + 1
  inside : rbeg ≤ beg ∧ beg + len ≤ rend
  report : editing.Describes beg «end» len

/-- The tracker after the announcement and the report. -/
def announced (stringWidth : Text → Nat) (self : Editing) (rbeg rend beg «end» len : Nat) :
    Option Tracker :=
  (self.tracker.beforeChange self.reported rbeg rend).recordChange stringWidth self.buffer beg
    «end» len

/-- The change is recorded: there is no error, and pending ops that lead to the text before
lead with the new ones to the text after. -/
def Records (stringWidth : Text → Nat) (self : Editing) (rbeg rend beg «end» len : Nat) : Prop :=
  ∃ after pending pending', self.announced stringWidth rbeg rend beg «end» len = some after ∧
    self.tracker.pendingOps = .ops pending ∧ after.pendingOps = .ops pending' ∧
    ∀ text, applyOps text pending.reverse = some self.reported →
      applyOps text pending'.reverse = some self.buffer

variable {stringWidth : Text → Nat} {self : Editing} {rbeg rend beg «end» len : Nat}

/-- The region that a report makes use of is the one that was announced. -/
theorem Regular.changingRegion (h : self.Regular rbeg rend beg «end» len) (hlen : len ≠ 0) :
    (self.tracker.beforeChange self.reported rbeg rend).changingRegion =
      some (rbeg, rend, bufferSubstring self.reported rbeg rend) := by
  have hne : rbeg ≠ rend := by
    have hinside := h.inside
    omega
  simp [Tracker.beforeChange, h.hooks, hne]

theorem Regular.fresh (h : self.Regular rbeg rend beg «end» len) :
    Fresh { self with tracker := self.tracker.beforeChange self.reported rbeg rend }
      (.afterChange beg «end» len) := by
  by_cases hlen : len = 0
  · subst hlen
    intro _ _ content old _ _ hold
    obtain ⟨-, rfl⟩ := Option.ite_some_none_eq_some.mp hold
    simp [bufferSubstring]
  · refine Saved.fresh (fun rbeg' rend' content hregion => ?_) _
    rw [h.changingRegion hlen] at hregion
    cases hregion
    exact ⟨h.region.1, rfl⟩

/-- What the tracker makes of the report. -/
theorem Regular.changeOps (h : self.Regular rbeg rend beg «end» len) :
    (∃ ops, (self.tracker.beforeChange self.reported rbeg rend).changeOps self.buffer beg «end»
      len = some (.ok ops)) ↔ len = 0 ∨ «end» ≤ rend := by
  by_cases hlen : len = 0
  · simp [Tracker.changeOps, hlen]
  · have hinside := h.inside
    have horder := h.report.1.2.1
    have hregion := h.region
    have hold : substring (bufferSubstring self.reported rbeg rend) (beg - rbeg)
        (beg - rbeg + len) ≠ none := by
      rw [substring, if_pos]
      · exact Option.some_ne_none _
      · simp only [bufferSubstring, List.length_take, List.length_drop]
        omega
    obtain ⟨old, hold⟩ := Option.ne_none_iff_exists'.mp hold
    simp only [Tracker.changeOps, h.changingRegion hlen, hlen, if_false, false_or]
    by_cases hend : «end» ≤ rend
    · rw [if_pos ⟨hinside.1, horder, hend⟩, hold]
      exact iff_of_true ⟨_, rfl⟩ hend
    · rw [if_neg (fun hall => hend hall.2.2)]
      refine iff_of_false ?_ hend
      rintro ⟨ops, hops⟩
      cases hops

/-- The change is recorded just when nothing is replaced or the new text stays within the
region as it was announced. -/
theorem Regular.records_iff (h : self.Regular rbeg rend beg «end» len) :
    self.Records stringWidth rbeg rend beg «end» len ↔ len = 0 ∨ «end» ≤ rend := by
  obtain ⟨pending, hpending⟩ := h.tracking
  obtain ⟨hhooks, hsame⟩ := hooks_beforeChange self.tracker self.reported rbeg rend
  rw [← h.changeOps]
  constructor
  · rintro ⟨after, _, pending', hafter, -, hpending', -⟩
    simp only [announced, Tracker.recordChange, hhooks, h.hooks, Bool.false_eq_true,
      if_false] at hafter
    obtain ⟨result, hresult, rfl⟩ := Option.map_eq_some_iff.mp hafter
    cases result with
    | error reason => cases hpending'
    | ok ops => exact ⟨ops, hresult⟩
  · rintro ⟨ops, hops⟩
    refine ⟨{ self.tracker.beforeChange self.reported rbeg rend with
      changingRegion := none
      pendingOps := .ops (Tracker.pushOps stringWidth ops pending) }, pending,
      Tracker.pushOps stringWidth ops pending, ?_, hpending, rfl, fun text htext => ?_⟩
    · simp [announced, Tracker.recordChange, hhooks, h.hooks, hops, Tracker.pushToPendingOps,
        hsame, hpending]
    · exact applyOps_pushOps htext
        (@applyOps_changeOps
          { self with tracker := self.tracker.beforeChange self.reported rbeg rend } _ _ _ _
          h.report h.fresh hops)

/-- A buffer in which `before` has become `after`. -/
def edited (before after : Text) : Editing :=
  { buffer := after, reported := before, mirror := some before, tracker := .new }

/-- In `abc` the last two characters are announced and become one. -/
theorem regular_records_shorter :
    (edited ['a', 'b', 'c'] ['a', 'd']).Records List.length 2 4 2 3 2 ↔ 2 = 0 ∨ 3 ≤ 4 := by
  refine Regular.records_iff ⟨rfl, ⟨[], rfl⟩, by decide, by decide, by decide⟩

/-- The character of `a` is announced and becomes two.  This is an error. -/
theorem not_records_longer :
    (edited ['a'] ['b', 'c']).Regular 1 2 1 3 1 ∧
      ¬(edited ['a'] ['b', 'c']).Records List.length 1 2 1 3 1 ∧
      ((edited ['a'] ['b', 'c']).announced List.length 1 2 1 3 1).map Tracker.pendingOps =
        some (.trackingError "Assertion failed: (<= rbeg beg end rend): (1 1 3 2)") := by
  have hregular : (edited ['a'] ['b', 'c']).Regular 1 2 1 3 1 :=
    ⟨rfl, ⟨[], rfl⟩, by decide, by decide, by decide⟩
  refine ⟨hregular, fun hrecords => ?_, by decide⟩
  obtain ⟨after, pending, pending', hafter, -, hpending', -⟩ := hrecords
  cases hafter
  cases hpending'

end Editing

end EditTracking

end CollabMode
