import CollabMode.Lib.Grid

/-!
# One batch outstanding

A server orders the operations of many clients in one history.  A client sends
its operations in batches, made in a context it has seen, and carries those that
are outstanding past every operation of the others that it takes from the
history.  The server carries a batch past what it ordered since the context, and
appends it.

`Outstanding` relates the two.  Either the batch is on its way, and the client's
form of it is what the server would make of it had it ordered nothing since.  Or
it is part of the history, and the client turns into it on the way there.  When
an operation of the own batch comes back, it is the head of the client's.
-/

namespace Grid

variable {O : Type*} (t : O → O → O) (own : O → Prop)

/-- The client has taken the first `c` operations of the history and holds `held`
as outstanding.  `up` is the batch on its way, with its context. -/
inductive Outstanding (history : List O) (c : Nat) : Option (Nat × List O) → List O → Prop where
  | sent {context : Nat} {batch held : List O} : held ≠ [] → context ≤ c →
      (∀ op ∈ history.drop context, ¬ own op) → (∀ op ∈ batch, own op) →
      held = carry t ((history.take c).drop context) batch →
      Outstanding history c (some (context, batch)) held
  | ordered {x y z held : List O} : history.drop c = x ++ y ++ z →
      (∀ op ∈ x, ¬ own op) → (∀ op ∈ y, own op) → (∀ op ∈ z, ¬ own op) →
      y = carry t x held → Outstanding history c none held

namespace Outstanding

variable {t own} {history held : List O} {c : Nat} {up : Option (Nat × List O)}

/-- Nothing is outstanding. -/
theorem idle (h : ∀ op ∈ history.drop c, ¬ own op) : Outstanding t own history c none [] :=
  .ordered (x := []) (y := []) (by simp) (by simp) (by simp) h (carry_nil_right []).symm

theorem of_nil (h : Outstanding t own history c up []) :
    up = none ∧ ∀ op ∈ history.drop c, ¬ own op := by
  cases h with
  | sent hne => exact absurd rfl hne
  | ordered hdrop hbefore hmine hafter heq =>
      rw [carry_nil_right] at heq
      subst heq
      refine ⟨rfl, fun op hop => ?_⟩
      rw [hdrop, List.append_nil] at hop
      exact (List.mem_append.mp hop).elim (hbefore op) (hafter op)

/-- A batch is sent when none is outstanding. -/
theorem send (h : Outstanding t own history c up []) {batch : List O} (hne : batch ≠ [])
    (hown : ∀ op ∈ batch, own op) : Outstanding t own history c (some (c, batch)) batch := by
  refine .sent hne (Nat.le_refl c) h.of_nil.2 hown ?_
  rw [List.drop_eq_nil_of_le (List.length_take_le c history), carry_nil_left]

/-- The server orders operations of others. -/
theorem append (h : Outstanding t own history c up held) (hc : c ≤ history.length)
    {new : List O} (hnew : ∀ op ∈ new, ¬ own op) :
    Outstanding t own (history ++ new) c up held := by
  cases h with
  | sent hne hle hnone hown heq =>
      refine .sent hne hle ?_ hown ?_
      · rw [List.drop_append_of_le_length (Nat.le_trans hle hc)]
        exact fun op hop => (List.mem_append.mp hop).elim (hnone op) (hnew op)
      · rw [List.take_append_of_le_length hc]
        exact heq
  | @ordered before mine after _ hdrop hbefore hmine hafter heq =>
      refine .ordered (z := after ++ new) ?_ hbefore hmine ?_ heq
      · rw [List.drop_append_of_le_length hc, hdrop, List.append_assoc]
      · exact fun op hop => (List.mem_append.mp hop).elim (hafter op) (hnew op)

/-- The server makes of the batch what it would make of what the client holds. -/
theorem order_eq {context : Nat} {batch : List O}
    (h : Outstanding t own history c (some (context, batch)) held) (hc : c ≤ history.length) :
    carry t (history.drop context) batch = carry t (history.drop c) held ∧
      ∀ op ∈ history.drop c, ¬ own op := by
  cases h with
  | sent hne hle hnone hown heq =>
      have hsplit : history.drop context = (history.take c).drop context ++ history.drop c := by
        conv_lhs => rw [← List.take_append_drop c history]
        rw [List.drop_append_of_le_length (by rw [List.length_take]; omega)]
      refine ⟨by rw [heq, hsplit, carry_append_left], fun op hop => hnone op ?_⟩
      rw [hsplit]
      exact List.mem_append_right _ hop

/-- The server orders the batch. -/
theorem order {context : Nat} {batch : List O}
    (h : Outstanding t own history c (some (context, batch)) held) (hc : c ≤ history.length)
    (hkeeps : Keeps t own) :
    (∀ op ∈ carry t (history.drop context) batch, own op) ∧
      Outstanding t own (history ++ carry t (history.drop context) batch) c none held := by
  obtain ⟨hcarry, hbefore⟩ := h.order_eq hc
  cases h with
  | sent hne hle hnone hown heq =>
      have hnew : ∀ op ∈ carry t (history.drop context) batch, own op := by
        intro op hop
        have hmem : own op ∈ batch.map own := by
          rw [← hkeeps.carry (history.drop context) batch]
          exact List.mem_map_of_mem hop
        obtain ⟨op', hop', hiff⟩ := List.mem_map.mp hmem
        rw [← hiff]
        exact hown op' hop'
      refine ⟨hnew, .ordered (x := history.drop c) (z := []) ?_ hbefore hnew (by simp) hcarry⟩
      rw [List.drop_append_of_le_length hc, List.append_nil]

/-- The next operation is the client's own.  It is the head of what is held. -/
theorem ack (h : Outstanding t own history c up held) {op : O} {down : List O}
    (hdrop : history.drop c = op :: down) (hop : own op) :
    ∃ held', held = op :: held' ∧ Outstanding t own history (c + 1) up held' := by
  have hnext : history.drop (c + 1) = down := by
    rw [← List.drop_drop, hdrop]
    rfl
  cases h with
  | @sent context batch _ hne hle hnone hown heq =>
      refine absurd hop (hnone op ?_)
      have hmem : op ∈ history.drop c := by simp [hdrop]
      rw [show c = context + (c - context) by omega, ← List.drop_drop] at hmem
      exact List.mem_of_mem_drop hmem
  | @ordered before mine after _ hparts hbefore hmine hafter heq =>
      rw [hdrop] at hparts
      cases before with
      | cons b before =>
          obtain ⟨rfl, _⟩ := List.cons.inj hparts
          exact absurd hop (hbefore op (by simp))
      | nil =>
          rw [carry_nil_left] at heq
          subst heq
          cases mine with
          | nil =>
              refine absurd hop (hafter op ?_)
              rw [show after = op :: down from hparts.symm]
              simp
          | cons m mine =>
              obtain ⟨rfl, hrest⟩ := List.cons.inj hparts
              refine ⟨mine, rfl, .ordered (x := []) (z := after) ?_ (by simp)
                (fun op hop => hmine op (by simp [hop])) hafter (carry_nil_left mine).symm⟩
              rw [hnext, hrest]
              rfl

/-- The next operation is another client's.  What is held is carried past it. -/
theorem foreign (h : Outstanding t own history c up held) {op : O} {down : List O}
    (hdrop : history.drop c = op :: down) (hop : ¬ own op) :
    Outstanding t own history (c + 1) up (past t op held) := by
  have hnext : history.drop (c + 1) = down := by
    rw [← List.drop_drop, hdrop]
    rfl
  cases h with
  | @sent context batch _ hne hle hnone hown heq =>
      have hget : history[c]? = some op := by
        have := congrArg List.head? hdrop
        rwa [List.head?_drop] at this
      have htake : (history.take (c + 1)).drop context =
          (history.take c).drop context ++ [op] := by
        have hlt := (List.getElem?_eq_some_iff.mp hget).1
        rw [List.take_add_one, hget, Option.toList_some,
          List.drop_append_of_le_length (by rw [List.length_take]; omega)]
      refine .sent ?_ (Nat.le_succ_of_le hle) hnone hown ?_
      · intro hnil
        have := congrArg List.length hnil
        rw [past_length] at this
        exact hne (List.length_eq_zero_iff.mp this)
      · rw [htake, carry_append_left, ← heq, carry_cons_left, carry_nil_left]
  | @ordered before mine after _ hparts hbefore hmine hafter heq =>
      rw [hdrop] at hparts
      cases before with
      | cons b before =>
          obtain ⟨rfl, hrest⟩ := List.cons.inj hparts
          refine .ordered (x := before) (z := after) ?_
            (fun op hop => hbefore op (by simp [hop])) hmine hafter ?_
          · rw [hnext, hrest]
            rfl
          · rw [heq, carry_cons_left]
      | nil =>
          rw [carry_nil_left] at heq
          subst heq
          cases mine with
          | cons m mine =>
              obtain ⟨rfl, _⟩ := List.cons.inj hparts
              exact absurd (hmine op (by simp)) hop
          | nil =>
              refine idle fun op' hop' => hafter op' ?_
              rw [hnext] at hop'
              rw [show after = op :: down from hparts.symm]
              exact List.mem_cons_of_mem _ hop'

end Outstanding

end Grid
