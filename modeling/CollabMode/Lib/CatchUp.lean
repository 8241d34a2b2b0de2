import Mathlib.Logic.Relation
import Mathlib.Order.Nat
import Mathlib.Tactic.Common

/-!
# A reader that catches up with a log

A server keeps a log of entries that are numbered from 1, and sends what is new to its
subscribers.  A reader holds the entries up to a number.  It keeps what goes on from there, and
when what arrives begins later it asks again for what it misses.  It also tells the server when
it stops.

The messages to the reader may be late, in any order, or lost as long as another one that is on
its way goes as far.  What the reader sends is not lost, and a question arrives after the notices
that were sent before it.  Then nothing is missed for good: the reader holds the whole log, or a
message with the newest entry is on its way to it, or a question of it is on its way (`Due`).
-/

namespace CatchUp

/-- What the reader sends. -/
inductive Request where
  /-- Send the entries after this one, and those to come. -/
  | ask (since : Nat)
  | stop
deriving DecidableEq, Repr

def Request.isAsk : Request → Bool
  | .ask _ => true
  | .stop => false

structure State where
  /-- The number of the newest entry. -/
  length : Nat
  subscribed : Bool
  /-- The number of the last entry that the reader holds, as long as it reads. -/
  held : Option Nat
  /-- The requests on their way, in the order they were sent. -/
  requests : List Request
  /-- The messages on their way to the reader, each by the number of its last entry. -/
  tops : List Nat
deriving DecidableEq, Repr

inductive Step : State → State → Prop where
  /-- Entries are added, and the subscribers are sent them. -/
  | grow {s : State} {length : Nat} {sent : List Nat} (longer : s.length ≤ length)
      (newest : ∀ top ∈ sent, top = length)
      (told : s.length < length → s.subscribed = true → length ∈ sent) :
      Step s { s with length, tops := s.tops ++ sent }
  | answer {s : State} {before after : List Request} {since : Nat}
      (requests : s.requests = before ++ .ask since :: after) (inOrder : .stop ∉ before) :
      Step s { s with
        subscribed := true, requests := before ++ after
        tops := s.tops ++ if since < s.length then [s.length] else [] }
  | unsubscribe {s : State} {before after : List Request}
      (requests : s.requests = before ++ .stop :: after) :
      Step s { s with subscribed := false, requests := before ++ after }
  | subscribe {s : State} : Step s { s with subscribed := true }
  /-- The reader takes a message as far as it goes on from what it holds, or asks. -/
  | read {s : State} {before after : List Nat} {top held held' : Nat} {asks : List Nat}
      (tops : s.tops = before ++ top :: after) (holds : s.held = some held)
      (more : held ≤ held') (most : held' ≤ s.length) (covers : ∀ since ∈ asks, since ≤ held')
      (reads : top ≤ held' ∨ asks ≠ []) :
      Step s { s with
        held := some held', tops := before ++ after
        requests := s.requests ++ asks.map .ask }
  /-- A message arrives when there is no reader. -/
  | ignore {s : State} {before after : List Nat} {top : Nat}
      (tops : s.tops = before ++ top :: after) (absent : s.held = none) :
      Step s { s with tops := before ++ after }
  | dismiss {s : State} (absent : s.held = none) :
      Step s { s with requests := s.requests ++ [.stop] }
  /-- A reader starts from what it was given. -/
  | start {s : State} {since : Nat} (given : since ≤ s.length) :
      Step s { s with held := some since, requests := s.requests ++ [.ask since] }
  /-- A reader starts next to the log. -/
  | join {s : State} (subscribed : s.subscribed = true) (stays : .stop ∉ s.requests) :
      Step s { s with held := some s.length }
  | leave {s : State} : Step s { s with held := none }
  /-- A message is lost that another one goes as far as. -/
  | lose {s : State} {before after : List Nat} {top other : Nat}
      (tops : s.tops = before ++ top :: after) (goes : other ∈ before ++ after)
      (far : top ≤ other) : Step s { s with tops := before ++ after }
  | loseStop {s : State} {before after : List Request}
      (requests : s.requests = before ++ .stop :: after) :
      Step s { s with requests := before ++ after }

/-- A question is on its way that what is held has no gap before, and no notice comes after it. -/
def Asked (held : Nat) (requests : List Request) : Prop :=
  ∃ before since after, requests = before ++ .ask since :: after ∧ since ≤ held ∧ .stop ∉ after

namespace Asked

variable {held held' : Nat} {requests before after : List Request} {request : Request}

theorem ne_nil (h : Asked held requests) : requests ≠ [] := by
  obtain ⟨before, since, after, rfl, -⟩ := h
  exact List.append_ne_nil_of_right_ne_nil _ (List.cons_ne_nil _ _)

theorem mono (h : Asked held requests) (hle : held ≤ held') : Asked held' requests := by
  obtain ⟨before, since, after, heq, hsince, hstays⟩ := h
  exact ⟨before, since, after, heq, hsince.trans hle, hstays⟩

theorem append_asks (h : Asked held requests) (asks : List Nat) :
    Asked held (requests ++ asks.map .ask) := by
  obtain ⟨before, since, after, rfl, hsince, hstays⟩ := h
  refine ⟨before, since, after ++ asks.map .ask, List.append_assoc .., hsince, fun hmem => ?_⟩
  rcases List.mem_append.mp hmem with hmem | hmem
  · exact hstays hmem
  · obtain ⟨_, -, heq⟩ := List.mem_map.mp hmem
    cases heq

theorem of_asks {asks : List Nat} (hasks : asks ≠ []) (hcovers : ∀ since ∈ asks, since ≤ held)
    (requests : List Request) : Asked held (requests ++ asks.map .ask) := by
  obtain ⟨since, rest, rfl⟩ := List.exists_cons_of_ne_nil hasks
  refine ⟨requests, since, rest.map .ask, rfl, hcovers since List.mem_cons_self, fun hmem => ?_⟩
  obtain ⟨_, -, heq⟩ := List.mem_map.mp hmem
  cases heq

/-- One request arrives or is lost. -/
theorem erase (h : Asked held (before ++ request :: after)) :
    Asked held (before ++ after) ∨
      ∃ since, request = .ask since ∧ since ≤ held ∧ .stop ∉ after := by
  obtain ⟨front, since, rest, heq, hsince, hstays⟩ := h
  rcases List.append_eq_append_iff.mp heq with ⟨mid, rfl, htail⟩ | ⟨mid, rfl, htail⟩
  · rcases List.cons_eq_append_iff.mp htail with ⟨rfl, hcons⟩ | ⟨mid, rfl, rfl⟩
    · obtain ⟨rfl, rfl⟩ := List.cons.inj hcons
      exact .inr ⟨since, rfl, hsince, hstays⟩
    · exact .inl ⟨before ++ mid, since, rest, (List.append_assoc ..).symm, hsince, hstays⟩
  · rcases List.cons_eq_append_iff.mp htail with ⟨rfl, hcons⟩ | ⟨mid, rfl, rfl⟩
    · obtain ⟨rfl, rfl⟩ := List.cons.inj hcons
      exact .inr ⟨since, rfl, hsince, hstays⟩
    · refine .inl ⟨front, since, mid ++ after, by simp, hsince, fun hmem => hstays ?_⟩
      rcases List.mem_append.mp hmem with hmem | hmem
      · exact List.mem_append_left _ hmem
      · exact List.mem_append_right _ (List.mem_cons_of_mem _ hmem)

/-- A notice arrives or is lost. -/
theorem erase_stop (h : Asked held (before ++ .stop :: after)) : Asked held (before ++ after) :=
  h.erase.resolve_right fun ⟨_, heq, _⟩ => nomatch heq

end Asked

namespace State

/-- Nothing is missed for good by a reader that holds the entries up to `held`. -/
inductive Due (s : State) (held : Nat) : Prop where
  | asked (asked : Asked held s.requests)
  | follows (subscribed : s.subscribed = true) (stays : .stop ∉ s.requests)
      (newest : held = s.length ∨ s.length ∈ s.tops)

structure Ok (s : State) : Prop where
  tops_le : ∀ top ∈ s.tops, top ≤ s.length
  held_le : ∀ held, s.held = some held → held ≤ s.length
  due : ∀ held, s.held = some held → s.Due held

/-- A reader that nothing is on its way to or from holds the whole log. -/
theorem Ok.complete {s : State} (h : s.Ok) (hrequests : s.requests = []) (htops : s.tops = [])
    {held : Nat} (hheld : s.held = some held) : held = s.length := by
  cases h.due held hheld with
  | asked asked => exact absurd hrequests asked.ne_nil
  | follows _ _ newest =>
      rw [htops] at newest
      exact newest.resolve_right List.not_mem_nil

end State

theorem mem_of_mem_erase {before after : List Nat} {top n : Nat} (h : n ∈ before ++ after) :
    n ∈ before ++ top :: after := by
  rcases List.mem_append.mp h with h | h
  · exact List.mem_append_left _ h
  · exact List.mem_append_right _ (List.mem_cons_of_mem _ h)

theorem eq_or_mem_erase {before after : List Nat} {top n : Nat}
    (h : n ∈ before ++ top :: after) : n = top ∨ n ∈ before ++ after := by
  simp only [List.mem_append, List.mem_cons] at h ⊢
  tauto

variable {s t : State}

theorem Step.ok (h : Step s t) (hs : s.Ok) : t.Ok := by
  cases h with
  | @grow length sent longer newest told =>
      refine ⟨fun top hmem => ?_, fun held hheld => (hs.held_le held hheld).trans longer,
        fun held hheld => ?_⟩
      · rcases List.mem_append.mp hmem with hmem | hmem
        · exact (hs.tops_le top hmem).trans longer
        · exact (newest top hmem).le
      · cases hs.due held hheld with
        | asked asked => exact .asked asked
        | follows subscribed stays newest =>
            refine .follows subscribed stays ?_
            rcases longer.lt_or_eq with hlt | heq
            · exact .inr (List.mem_append_right _ (told hlt subscribed))
            · exact newest.imp (fun h => h.trans heq) fun h => List.mem_append_left _ (heq ▸ h)
  | @answer before after since requests inOrder =>
      refine ⟨fun top hmem => ?_, hs.held_le, fun held hheld => ?_⟩
      · rcases List.mem_append.mp hmem with hmem | hmem
        · exact hs.tops_le top hmem
        · split at hmem
          next => exact (List.mem_singleton.mp hmem).le
          next => cases hmem
      · have hanswered (hsince : since ≤ held) (hstays : .stop ∉ before ++ after) :
            State.Due { s with
              subscribed := true, requests := before ++ after
              tops := s.tops ++ if since < s.length then [s.length] else [] } held := by
          refine .follows rfl hstays ?_
          split
          next => exact .inr (List.mem_append_right _ (List.mem_singleton_self _))
          next hge =>
              have hle := hs.held_le held hheld
              exact .inl (Nat.le_antisymm hle ((Nat.le_of_not_lt hge).trans hsince))
        have hdue := hs.due held hheld
        cases hdue with
        | asked asked =>
            rw [requests] at asked
            rcases asked.erase with hother | ⟨_, heq, hsince, hstays⟩
            · exact .asked hother
            · cases heq
              refine hanswered hsince fun hmem => ?_
              exact (List.mem_append.mp hmem).elim inOrder hstays
        | follows subscribed stays newest =>
            refine .follows rfl (fun hmem => stays ?_)
              (newest.imp id fun hmem => List.mem_append_left _ hmem)
            rw [requests]
            rcases List.mem_append.mp hmem with hmem | hmem
            · exact List.mem_append_left _ hmem
            · exact List.mem_append_right _ (List.mem_cons_of_mem _ hmem)
  | @unsubscribe before after requests =>
      refine ⟨hs.tops_le, hs.held_le, fun held hheld => ?_⟩
      have hdue := hs.due held hheld
      cases hdue with
      | asked asked => exact .asked (requests ▸ asked).erase_stop
      | follows _ stays =>
          rw [requests] at stays
          exact absurd (List.mem_append_right _ List.mem_cons_self) stays
  | subscribe =>
      refine ⟨hs.tops_le, hs.held_le, fun held hheld => ?_⟩
      cases hs.due held hheld with
      | asked asked => exact .asked asked
      | follows _ stays newest => exact .follows rfl stays newest
  | @read before after top held held' asks tops holds more most covers reads =>
      refine ⟨fun n hmem => hs.tops_le n (tops ▸ mem_of_mem_erase hmem), ?_, ?_⟩
      · intro n hn
        cases hn
        exact most
      · intro n hn
        cases hn
        cases hs.due held holds with
        | asked asked => exact .asked ((asked.mono more).append_asks asks)
        | follows subscribed stays newest =>
            by_cases hasks : asks = []
            · refine .follows subscribed ?_ ?_
              · rw [hasks]
                exact fun hmem => stays (List.append_nil s.requests ▸ hmem)
              · rcases newest with heq | hmem
                · exact .inl (Nat.le_antisymm most (heq ▸ more))
                · rw [tops] at hmem
                  rcases eq_or_mem_erase hmem with heq | hmem
                  · have htop := reads.resolve_right (absurd hasks)
                    exact .inl (Nat.le_antisymm most (heq ▸ htop))
                  · exact .inr hmem
            · exact .asked (.of_asks hasks covers s.requests)
  | @ignore before after top tops absent =>
      refine ⟨fun n hmem => hs.tops_le n (tops ▸ mem_of_mem_erase hmem), hs.held_le, ?_⟩
      intro held hheld
      cases absent.symm.trans hheld
  | dismiss absent =>
      refine ⟨hs.tops_le, hs.held_le, ?_⟩
      intro held hheld
      cases absent.symm.trans hheld
  | @start since given =>
      refine ⟨hs.tops_le, ?_, ?_⟩
      · intro held hheld
        cases hheld
        exact given
      · intro held hheld
        cases hheld
        exact .asked ⟨s.requests, since, [], rfl, Nat.le_refl since, List.not_mem_nil⟩
  | join subscribed stays =>
      refine ⟨hs.tops_le, ?_, ?_⟩
      · intro held hheld
        cases hheld
        exact Nat.le_refl s.length
      · intro held hheld
        cases hheld
        exact .follows subscribed stays (.inl rfl)
  | leave => exact ⟨hs.tops_le, nofun, nofun⟩
  | @lose before after top other tops goes far =>
      refine ⟨fun n hmem => hs.tops_le n (tops ▸ mem_of_mem_erase hmem), hs.held_le, ?_⟩
      intro held hheld
      cases hs.due held hheld with
      | asked asked => exact .asked asked
      | follows subscribed stays newest =>
          refine .follows subscribed stays (newest.imp_right fun hmem => ?_)
          rw [tops] at hmem
          rcases eq_or_mem_erase hmem with heq | hmem
          · have hother := hs.tops_le other (tops ▸ mem_of_mem_erase goes)
            rwa [Nat.le_antisymm (heq ▸ far) hother]
          · exact hmem
  | @loseStop before after requests =>
      refine ⟨hs.tops_le, hs.held_le, fun held hheld => ?_⟩
      have hdue := hs.due held hheld
      cases hdue with
      | asked asked => exact .asked (requests ▸ asked).erase_stop
      | follows _ stays =>
          rw [requests] at stays
          exact absurd (List.mem_append_right _ List.mem_cons_self) stays

/-- Nothing is missed for good in a run. -/
theorem ok_of_steps (h : Relation.ReflTransGen Step s t) (hs : s.Ok) : t.Ok := by
  induction h with
  | refl => exact hs
  | tail _ hstep ih => exact hstep.ok ih

end CatchUp
