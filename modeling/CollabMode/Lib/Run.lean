import Mathlib.Logic.Basic
import Mathlib.Tactic.Common

/-!
# Runs of a step function

A system is a function `step` that takes a state and an action to the next state,
or to nothing when the action cannot be taken.  `run` takes a list of actions.
`Meets cond` says that every action of a run is taken in a state that satisfies
`cond`, and `invariant` carries a property of states along such a run.
-/

namespace Run

variable {S A : Type*} (step : S → A → Option S)

/-- Take the actions one after the other. -/
def run (s : S) : List A → Option S
  | [] => some s
  | a :: as => (step s a).bind fun s => run s as

/-- Every action is taken in a state that meets the condition. -/
def Meets (cond : S → A → Prop) (s : S) : List A → Prop
  | [] => True
  | a :: as => cond s a ∧ ∀ t, step s a = some t → Meets cond t as

variable {step}

@[simp] theorem run_nil (s : S) : run step s [] = some s := rfl

theorem run_cons (s : S) (a : A) (as : List A) :
    run step s (a :: as) = (step s a).bind fun s => run step s as := rfl

/-- The first step of a run. -/
theorem run_cons_some {s t : S} {a : A} {as : List A} :
    run step s (a :: as) = some t ↔ ∃ u, step s a = some u ∧ run step u as = some t := by
  rw [run_cons, Option.bind_eq_some_iff]

theorem Meets.true (s : S) (as : List A) : Meets step (fun _ _ => True) s as := by
  induction as generalizing s with
  | nil => trivial
  | cons a as ih => exact ⟨trivial, fun t _ => ih t⟩

/-- A condition on actions alone. -/
theorem Meets.of_forall {cond : A → Prop} {as : List A} (h : ∀ a ∈ as, cond a) (s : S) :
    Meets step (fun _ a => cond a) s as := by
  induction as generalizing s with
  | nil => trivial
  | cons a as ih => exact ⟨h a (by simp), fun t _ => ih (fun b hb => h b (by simp [hb])) t⟩

theorem Meets.mono {cond cond' : S → A → Prop} (h : ∀ s a, cond s a → cond' s a) {s : S}
    {as : List A} (hm : Meets step cond s as) : Meets step cond' s as := by
  induction as generalizing s with
  | nil => trivial
  | cons a as ih => exact ⟨h s a hm.1, fun t ht => ih (hm.2 t ht)⟩

theorem meets_and {cond cond' : S → A → Prop} {s : S} {as : List A} :
    Meets step (fun s a => cond s a ∧ cond' s a) s as ↔
      Meets step cond s as ∧ Meets step cond' s as := by
  induction as generalizing s with
  | nil => simp [Meets]
  | cons a as ih =>
      simp only [Meets, ih]
      constructor
      · rintro ⟨⟨hcond, hcond'⟩, hrest⟩
        exact ⟨⟨hcond, fun t ht => (hrest t ht).1⟩, hcond', fun t ht => (hrest t ht).2⟩
      · rintro ⟨⟨hcond, hrest⟩, hcond', hrest'⟩
        exact ⟨⟨hcond, hcond'⟩, fun t ht => ⟨hrest t ht, hrest' t ht⟩⟩

/-- The condition is met where a part of the run arrives. -/
theorem Meets.of_run {cond : S → A → Prop} {s t : S} {as bs : List A} {b : A}
    (hm : Meets step cond s (as ++ b :: bs)) (hrun : run step s as = some t) : cond t b := by
  induction as generalizing s with
  | nil =>
      cases hrun
      exact hm.1
  | cons a as ih =>
      obtain ⟨u, hu, hrest⟩ := run_cons_some.mp hrun
      exact ih (hm.2 u hu) hrest

/-- One more action. -/
theorem run_concat {s t : S} {a : A} {as : List A} (hrun : run step s as = some t) :
    run step s (as ++ [a]) = step t a := by
  induction as generalizing s with
  | nil =>
      cases hrun
      exact Option.bind_fun_some _
  | cons b as ih =>
      obtain ⟨u, hu, hrest⟩ := run_cons_some.mp hrun
      rw [List.cons_append, run_cons, hu, Option.bind_some, ih hrest]

theorem Meets.concat {cond : S → A → Prop} {s t : S} {a : A} {as : List A}
    (hm : Meets step cond s as) (hrun : run step s as = some t) (ha : cond t a) :
    Meets step cond s (as ++ [a]) := by
  induction as generalizing s with
  | nil =>
      cases hrun
      exact ⟨ha, fun _ _ => trivial⟩
  | cons b as ih =>
      obtain ⟨u, hu, hrest⟩ := run_cons_some.mp hrun
      refine ⟨hm.1, fun t ht => ?_⟩
      cases hu.symm.trans ht
      exact ih (hm.2 u hu) hrest

instance decidableMeets {cond : S → A → Prop} [∀ s a, Decidable (cond s a)] :
    ∀ (s : S) (as : List A), Decidable (Meets step cond s as)
  | _, [] => isTrue trivial
  | s, a :: as =>
      match h : step s a with
      | none => decidable_of_iff (cond s a) (by simp [Meets, h])
      | some t =>
          have : Decidable (Meets step cond t as) := decidableMeets t as
          decidable_of_iff (cond s a ∧ Meets step cond t as) (by simp [Meets, h])

/-- What every step keeps when the condition is met holds wherever such a run
arrives. -/
theorem invariant {cond : S → A → Prop} {Inv : S → Prop}
    (hstep : ∀ s a t, Inv s → cond s a → step s a = some t → Inv t) {s t : S} {as : List A}
    (hs : Inv s) (hm : Meets step cond s as) (hrun : run step s as = some t) : Inv t := by
  induction as generalizing s with
  | nil =>
      cases hrun
      exact hs
  | cons a as ih =>
      obtain ⟨u, hu, hrest⟩ := run_cons_some.mp hrun
      exact ih (hstep s a u hs hm.1 hu) (hm.2 u hu) hrest

/-- A condition that gives another one where the invariant holds, and keeps it. -/
theorem Meets.of_invariant {cond cond' : S → A → Prop} {Inv : S → Prop}
    (hstep : ∀ s a t, Inv s → cond s a → step s a = some t → Inv t)
    (himp : ∀ s a, Inv s → cond s a → cond' s a) {s : S} {as : List A} (hs : Inv s)
    (hm : Meets step cond s as) : Meets step cond' s as := by
  induction as generalizing s with
  | nil => trivial
  | cons a as ih =>
      exact ⟨himp s a hs hm.1, fun t ht => ih (hstep s a t hs hm.1 ht) (hm.2 t ht)⟩

/-- Two conditions that agree where the invariant holds, one of which keeps it, are met
by the same runs. -/
theorem Meets.congr {cond cond' : S → A → Prop} {Inv : S → Prop}
    (hstep : ∀ s a t, Inv s → cond s a → step s a = some t → Inv t)
    (hiff : ∀ s a, Inv s → (cond s a ↔ cond' s a)) {s : S} {as : List A} (hs : Inv s) :
    Meets step cond s as ↔ Meets step cond' s as := by
  induction as generalizing s with
  | nil => exact Iff.rfl
  | cons a as ih =>
      rw [Meets, Meets, ← hiff s a hs]
      refine and_congr_right fun hcond => ?_
      exact forall_congr' fun t => imp_congr_right fun ht => ih (hstep s a t hs hcond ht)

/-- Where keeping the condition keeps a state good, and breaking it spoils it for ever, a run
meets the condition and arrives at a good state, or does neither. -/
theorem meets_or {cond : S → A → Prop} {Good Bad : S → Prop}
    (hkeeps : ∀ s a t, Good s → cond s a → step s a = some t → Good t)
    (hspoils : ∀ s a t, Good s → ¬cond s a → step s a = some t → Bad t)
    (hstays : ∀ s a t, Bad s → step s a = some t → Bad t) {s t : S} {as : List A} (hs : Good s)
    (hrun : run step s as = some t) :
    Meets step cond s as ∧ Good t ∨ ¬Meets step cond s as ∧ Bad t := by
  induction as generalizing s with
  | nil =>
      cases hrun
      exact .inl ⟨trivial, hs⟩
  | cons a as ih =>
      obtain ⟨u, hu, hrest⟩ := run_cons_some.mp hrun
      by_cases hcond : cond s a
      · refine (ih (hkeeps s a u hs hcond hu) hrest).imp ?_ ?_
        · rintro ⟨hmeets, ht⟩
          refine ⟨⟨hcond, fun v hv => ?_⟩, ht⟩
          cases hu.symm.trans hv
          exact hmeets
        · rintro ⟨hnot, ht⟩
          exact ⟨fun hmeets => hnot (hmeets.2 u hu), ht⟩
      · exact .inr ⟨fun hmeets => hcond hmeets.1,
          invariant (fun s a t h _ => hstays s a t h) (hspoils s a u hs hcond hu)
            (Meets.true u as) hrest⟩

/-- What every step keeps holds wherever a run arrives. -/
theorem invariant_all {Inv : S → Prop} (hstep : ∀ s a t, Inv s → step s a = some t → Inv t)
    {s t : S} {as : List A} (hs : Inv s) (hrun : run step s as = some t) : Inv t :=
  invariant (fun s a t h _ => hstep s a t h) hs (Meets.true s as) hrun

end Run
