import Mathlib.Logic.Function.Basic
import Mathlib.Tactic.Common

/-!
# A sender that numbers what it sends in sessions

A sender numbers its items from 1 on in each of its sessions, and a receiver keeps the number of
the last item it has accepted.  Items arrive in the order they were sent.  A session starts with
a question, which sets the number to 0.

`InStep` says of the items on their way that every batch will find the number it continues.  A
batch may be refused, and then nothing is promised about the later batches of its session.  A
question that finds an accepted item of its own session breaks the promise as well.
-/

namespace Sessions

inductive Item where
  | ask (session : Nat)
  | batch (session first last : Nat)
  | stop
deriving DecidableEq, Repr

namespace Item

def session? : Item → Option Nat
  | .ask session => some session
  | .batch session _ _ => some session
  | .stop => none

def isAsk : Item → Bool
  | .ask _ => true
  | _ => false

def isBatch : Item → Bool
  | .batch _ _ _ => true
  | _ => false

end Item

/-- The books of the receiver. -/
structure Ledger where
  /-- The number that is kept, as long as the sender is known. -/
  recorded : Option Nat
  /-- The number of the last item accepted in each session. -/
  accepted : Nat → Nat
  /-- A batch of the session was refused. -/
  refused : Nat → Bool

namespace Ledger

def ask (self : Ledger) : Ledger := { self with recorded := some 0 }

def stop (self : Ledger) : Ledger := { self with recorded := none }

def accept (self : Ledger) (session last : Nat) : Ledger :=
  { self with
    recorded := some last, accepted := Function.update self.accepted session last }

def refuse (self : Ledger) (session : Nat) : Ledger :=
  { self with refused := Function.update self.refused session true }

@[simp] theorem accepted_accept (self : Ledger) (session last : Nat) :
    (self.accept session last).accepted session = last := Function.update_self ..

@[simp] theorem refused_refuse (self : Ledger) (session : Nat) :
    (self.refuse session).refused session = true := Function.update_self ..

/-- Nothing is known of the session. -/
def Fresh (self : Ledger) (session : Nat) : Prop :=
  self.accepted session = 0 ∧ self.refused session = false

/-- A sender that is in a session, and has sent its items up to `sent`. -/
def Level (self : Ledger) (session : Nat) (sent : Option Nat) : Prop :=
  ∀ n, sent = some n → self.recorded = some (self.accepted session) ∧
    (self.refused session = false → n = self.accepted session) ∧
    (n = 0 → self.refused session = false)

theorem level_none (self : Ledger) (session : Nat) : self.Level session none := nofun

theorem Level.of_fresh {self : Ledger} {session : Nat} (h : self.Fresh session)
    (hrecorded : self.recorded = some 0) : self.Level session (some 0) := by
  intro n hn
  cases hn
  exact ⟨by rw [hrecorded, h.1], fun _ => h.1.symm, fun _ => h.2⟩

/-- A session that has sent nothing may be given another number. -/
theorem Level.renumber {self : Ledger} {session session' : Nat} (h : self.Level session (some 0))
    (hfresh : self.Fresh session') : self.Level session' (some 0) := by
  obtain ⟨hrecorded, haccepted, hrefused⟩ := h 0 rfl
  refine .of_fresh hfresh ?_
  rw [hrecorded, ← haccepted (hrefused rfl)]

end Ledger

/-- Every item will find the number it continues, and the sender is level with the receiver when
all of them have arrived. -/
def InStep : Ledger → List Item → Nat → Option Nat → Prop
  | led, [], session, sent => led.Level session sent
  | led, .ask s :: items, session, sent => led.accepted s = 0 → InStep led.ask items session sent
  | led, .stop :: items, session, sent => InStep led.stop items session sent
  | led, .batch s first last :: items, session, sent =>
      led.recorded = some (led.accepted s) ∧
        (led.refused s = false →
          first = led.accepted s + 1 ∧ InStep (led.accept s last) items session sent) ∧
        InStep (led.refuse s) items session sent

namespace InStep

variable {led : Ledger} {items tail : List Item} {s s' : Nat} {sent sent' : Option Nat}

/-- What holds at the end of the items may be changed there. `K` is what the items keep. -/
theorem extend {K : Ledger → Prop} (hask : ∀ led, K led → K led.ask)
    (hstop : ∀ led, K led → K led.stop)
    (hbatch : ∀ led t first last, .batch t first last ∈ items → K led →
      K (led.accept t last) ∧ K (led.refuse t))
    (hend : ∀ led, K led → led.Level s sent → InStep led tail s' sent') (hK : K led)
    (h : InStep led items s sent) : InStep led (items ++ tail) s' sent' := by
  induction items generalizing led with
  | nil => exact hend led hK h
  | cons item items ih =>
      have ih {led : Ledger} := @ih led fun led t first last hmem =>
        hbatch led t first last (List.mem_cons_of_mem _ hmem)
      cases item with
      | ask t => exact fun haccepted => ih (hask led hK) (h haccepted)
      | stop => exact ih (hstop led hK) h
      | batch t first last =>
          obtain ⟨hrecorded, haccept, hrefuse⟩ := h
          obtain ⟨hK₁, hK₂⟩ := hbatch led t first last List.mem_cons_self hK
          refine ⟨hrecorded, fun hrefused => ?_, ih hK₂ hrefuse⟩
          obtain ⟨hfirst, hrest⟩ := haccept hrefused
          exact ⟨hfirst, ih hK₁ hrest⟩

/-- The same when nothing has to be kept. -/
theorem append (hend : ∀ led : Ledger, led.Level s sent → InStep led tail s' sent')
    (h : InStep led items s sent) : InStep led (items ++ tail) s' sent' :=
  h.extend (K := fun _ => True) (fun _ _ => trivial) (fun _ _ => trivial)
    (fun _ _ _ _ _ _ => ⟨trivial, trivial⟩) (fun led _ => hend led) trivial

/-- The same with a session that has no item yet. -/
theorem append_fresh (hitems : ∀ item ∈ items, item.session? ≠ some s') (hfresh : led.Fresh s')
    (hend : ∀ led : Ledger, led.Fresh s' → led.Level s sent → InStep led tail s' sent')
    (h : InStep led items s sent) : InStep led (items ++ tail) s' sent' := by
  refine h.extend (fun _ hK => hK) (fun _ hK => hK) (fun led t first last hmem hK => ?_) hend
    hfresh
  have hne : s' ≠ t := fun heq => hitems _ hmem (by rw [heq]; rfl)
  exact ⟨⟨(Function.update_of_ne hne ..).trans hK.1, hK.2⟩,
    hK.1, (Function.update_of_ne hne ..).trans hK.2⟩

/-- The sender sends the batch that comes next. -/
theorem send {n last : Nat} (hlast : 0 < last) (h : InStep led items s (some n)) :
    InStep led (items ++ [.batch s (n + 1) last]) s (some last) := by
  refine h.append fun led hlevel => ?_
  obtain ⟨hrecorded, haccepted, -⟩ := hlevel n rfl
  refine ⟨hrecorded, fun hrefused => ⟨by rw [haccepted hrefused], ?_⟩, ?_⟩
  · intro m hm
    cases hm
    refine ⟨?_, fun _ => (led.accepted_accept s last).symm, fun hzero => ?_⟩
    · rw [led.accepted_accept]
      rfl
    · exact absurd hzero (Nat.ne_of_gt hlast)
  · intro m hm
    cases hm
    refine ⟨hrecorded, fun hrefused => ?_, fun hzero => absurd hzero (Nat.ne_of_gt hlast)⟩
    rw [led.refused_refuse] at hrefused
    cases hrefused

/-- The sender asks again. -/
theorem asks {asked : List Item} (hasked : ∀ item ∈ asked, item = .ask s)
    (h : InStep led items s sent) : InStep led (items ++ asked) s sent := by
  refine h.append fun led hlevel => ?_
  induction asked generalizing led with
  | nil => exact hlevel
  | cons item asked ih =>
      obtain ⟨rfl, hrest⟩ := List.forall_mem_cons.mp hasked
      intro haccepted
      refine ih hrest _ fun n hn => ⟨congrArg some haccepted.symm, ?_⟩
      exact (hlevel n hn).2

/-- The sender starts a session. -/
theorem start (hitems : ∀ item ∈ items, item.session? ≠ some s') (hfresh : led.Fresh s')
    (h : InStep led items s sent) : InStep led (items ++ [.ask s']) s' (some 0) :=
  h.append_fresh hitems hfresh fun _ hfresh _ _ => .of_fresh hfresh rfl

/-- A session that has sent nothing may be given another number. -/
theorem renumber (hitems : ∀ item ∈ items, item.session? ≠ some s') (hfresh : led.Fresh s')
    (h : InStep led items s (some 0)) : InStep led items s' (some 0) := by
  rw [← List.append_nil items]
  exact h.append_fresh hitems hfresh fun _ hfresh hlevel => hlevel.renumber hfresh

/-- The sender is in no session any more. -/
theorem leave {last : List Item} (hlast : ∀ item ∈ last, item.isBatch = false)
    (h : InStep led items s sent) : InStep led (items ++ last) s' none := by
  refine h.append fun led hlevel => ?_
  clear hlevel
  induction last generalizing led with
  | nil => exact led.level_none s'
  | cons item last ih =>
      obtain ⟨hitem, hrest⟩ := List.forall_mem_cons.mp hlast
      cases item with
      | ask t => exact fun _ => ih hrest _
      | stop => exact ih hrest _
      | batch t first last => cases hitem

/-- A receiver that starts a session by itself, with only questions on their way. -/
theorem of_asks (hitems : ∀ item ∈ items, item.isAsk = true) (hfresh : led.Fresh s)
    (hrecorded : led.recorded = some 0) : InStep led items s (some 0) := by
  induction items generalizing led with
  | nil => exact .of_fresh hfresh hrecorded
  | cons item items ih =>
      obtain ⟨hitem, hrest⟩ := List.forall_mem_cons.mp hitems
      cases item with
      | ask t => exact fun _ => ih hrest hfresh rfl
      | stop | batch => cases hitem

/-- Without batches nothing can go wrong. -/
theorem of_quiet (hitems : ∀ item ∈ items, item.isBatch = false) : InStep led items s none := by
  have hempty : InStep led [] s none := led.level_none s
  exact hempty.leave hitems

end InStep

end Sessions
