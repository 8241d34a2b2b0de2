import Mathlib.Data.List.Basic
import Mathlib.Tactic.Common

/-!
# Finite maps as association lists

A map is the list of its entries, in no particular order.  `insert` replaces the
entry of a key that is there and adds one otherwise, so a map built from the
empty one has one entry for each key.  `mapValsM` runs a function that may fail
over all values.
-/

namespace AssocMap

variable {K V W : Type}

/-- Run `f` on every value. -/
def mapValsM (f : V → Option W) (m : List (K × V)) : Option (List (K × W)) :=
  match m with
  | [] => some []
  | (k, v) :: m => do
      let w ← f v
      let m ← mapValsM f m
      some ((k, w) :: m)

/-- Change every value. -/
def mapVals (f : V → W) (m : List (K × V)) : List (K × W) := m.map fun p => (p.1, f p.2)

/-- Every value of the map. -/
def AllVals (P : V → Prop) (m : List (K × V)) : Prop := ∀ p ∈ m, P p.2

instance (P : V → Prop) [DecidablePred P] (m : List (K × V)) : Decidable (AllVals P m) :=
  inferInstanceAs (Decidable (∀ p ∈ m, P p.2))

@[simp] theorem AllVals_nil (P : V → Prop) : AllVals P ([] : List (K × V)) := by
  intro p hp
  cases hp

/-- A run over all values succeeds when it does at each of them. -/
theorem mapValsM_some {f : V → Option W} {P : V → Prop} {Q : W → Prop}
    (hf : ∀ v, P v → ∃ w, f v = some w ∧ Q w) :
    ∀ m : List (K × V), AllVals P m → ∃ m', mapValsM f m = some m' ∧ AllVals Q m'
  | [], _ => ⟨[], rfl, AllVals_nil Q⟩
  | (k, v) :: m, h => by
      obtain ⟨w, hw, hQ⟩ := hf v (h (k, v) (by simp))
      obtain ⟨m', hm', hQ'⟩ := mapValsM_some hf m fun p hp => h p (List.mem_cons_of_mem _ hp)
      refine ⟨(k, w) :: m', by simp [mapValsM, hw, hm'], ?_⟩
      intro p hp
      rcases List.mem_cons.mp hp with rfl | hp
      · exact hQ
      · exact hQ' p hp

def keys (m : List (K × V)) : List K := m.map Prod.fst

theorem keys_mapVals (f : V → W) (m : List (K × V)) : keys (mapVals f m) = keys m := by
  simp [keys, mapVals, Function.comp_def]

theorem mem_keys {m : List (K × V)} {p : K × V} (h : p ∈ m) : p.1 ∈ keys m :=
  List.mem_map_of_mem h

variable [DecidableEq K]

/-- The value at `k`. -/
def get (m : List (K × V)) (k : K) : Option V :=
  match m with
  | [] => none
  | (k', v) :: m => if k' = k then some v else get m k

/-- Set the value at `k`. -/
def insert (m : List (K × V)) (k : K) (v : V) : List (K × V) :=
  match m with
  | [] => [(k, v)]
  | (k', v') :: m => if k' = k then (k, v) :: m else (k', v') :: insert m k v

/-- Drop the entry at `k`. -/
def erase (m : List (K × V)) (k : K) : List (K × V) := m.filter fun p => p.1 ≠ k

/-- Change the value at `k`, if there is one. -/
def modify (m : List (K × V)) (k : K) (f : V → V) : List (K × V) :=
  match get m k with
  | some v => insert m k (f v)
  | none => m

@[simp] theorem get_nil (k : K) : get ([] : List (K × V)) k = none := rfl

@[simp] theorem get_insert_self (m : List (K × V)) (k : K) (v : V) :
    get (insert m k v) k = some v := by
  induction m with
  | nil => simp [insert, get]
  | cons p m ih =>
      obtain ⟨k', v'⟩ := p
      by_cases h : k' = k
      · simp [insert, get, h]
      · simp [insert, get, h, ih]

theorem get_insert_of_ne {m : List (K × V)} {k k' : K} {v : V} (h : k' ≠ k) :
    get (insert m k v) k' = get m k' := by
  induction m with
  | nil => simp [insert, get, h.symm]
  | cons p m ih =>
      obtain ⟨k₀, v₀⟩ := p
      by_cases h₀ : k₀ = k
      · subst h₀
        simp [insert, get, h.symm]
      · rw [insert, if_neg h₀, get, get, ih]

theorem get_insert (m : List (K × V)) (k k' : K) (v : V) :
    get (insert m k v) k' = if k' = k then some v else get m k' := by
  split
  next h => rw [h, get_insert_self]
  next h => exact get_insert_of_ne h

theorem get_erase (m : List (K × V)) (k k' : K) :
    get (erase m k) k' = if k' = k then none else get m k' := by
  induction m with
  | nil => simp [erase]
  | cons p m ih =>
      obtain ⟨k₀, v₀⟩ := p
      by_cases h₀ : k₀ = k
      · subst h₀
        have herase : erase ((k₀, v₀) :: m) k₀ = erase m k₀ := by simp [erase]
        rw [herase, ih]
        by_cases h : k' = k₀
        · simp [h]
        · simp [get, h, Ne.symm h]
      · have herase : erase ((k₀, v₀) :: m) k = (k₀, v₀) :: erase m k := by simp [erase, h₀]
        rw [herase, get, ih]
        by_cases h : k₀ = k'
        · subst h
          simp [get, h₀]
        · simp [get, h]

theorem erase_insert (m : List (K × V)) (k : K) (v : V) : erase (insert m k v) k = erase m k := by
  induction m with
  | nil => simp [insert, erase]
  | cons p m ih =>
      obtain ⟨k', v'⟩ := p
      unfold insert
      split
      next h => simp [erase, h]
      next h => simpa [erase, h] using ih

theorem get_modify (m : List (K × V)) (k k' : K) (f : V → V) :
    get (modify m k f) k' = if k' = k then (get m k').map f else get m k' := by
  unfold modify
  split
  next v hv =>
      rw [get_insert]
      split
      next h => rw [h, hv, Option.map_some]
      next => rfl
  next hv =>
      split
      next h => rw [h, hv, Option.map_none]
      next => rfl

theorem get_mapVals (f : V → W) (m : List (K × V)) (k : K) :
    get (mapVals f m) k = (get m k).map f := by
  induction m with
  | nil => rfl
  | cons p m ih =>
      obtain ⟨k', v⟩ := p
      by_cases h : k' = k
      · simp [mapVals, get, h]
      · simp only [mapVals, List.map_cons, get, h, if_false]
        exact ih

theorem mem_of_get {m : List (K × V)} {k : K} {v : V} (h : get m k = some v) : (k, v) ∈ m := by
  induction m with
  | nil => cases h
  | cons p m ih =>
      obtain ⟨k', v'⟩ := p
      simp only [get] at h
      split at h
      next hk =>
        cases h
        simp [hk]
      next => exact List.mem_cons_of_mem _ (ih h)

theorem get_ne_none_of_mem {m : List (K × V)} {p : K × V} (h : p ∈ m) : get m p.1 ≠ none := by
  induction m with
  | nil => cases h
  | cons q m ih =>
      obtain ⟨k', v'⟩ := q
      by_cases hk : k' = p.1
      · simp [get, hk]
      · rw [get, if_neg hk]
        rcases List.mem_cons.mp h with rfl | h
        · exact absurd rfl hk
        · exact ih h

theorem insert_insert (m : List (K × V)) (k : K) (v v' : V) :
    insert (insert m k v) k v' = insert m k v' := by
  induction m with
  | nil => simp [insert]
  | cons p m ih =>
      obtain ⟨k', v₀⟩ := p
      by_cases h : k' = k
      · simp [insert, h]
      · simp [insert, h, ih]

theorem mem_insert {m : List (K × V)} {k : K} {v : V} {p : K × V} (h : p ∈ insert m k v) :
    p = (k, v) ∨ p ∈ m := by
  induction m with
  | nil => exact .inl (List.mem_singleton.mp h)
  | cons q m ih =>
      simp only [insert] at h
      split at h
      next => exact (List.mem_cons.mp h).imp_right (List.mem_cons_of_mem q)
      next =>
          rcases List.mem_cons.mp h with rfl | h
          · exact .inr List.mem_cons_self
          · exact (ih h).imp_right (List.mem_cons_of_mem q)

theorem insert_of_not_mem {m : List (K × V)} {k : K} (h : k ∉ keys m) (v : V) :
    insert m k v = m ++ [(k, v)] := by
  induction m with
  | nil => rfl
  | cons p m ih =>
      obtain ⟨hne, hrest⟩ := not_or.mp (mt List.mem_cons.mpr h)
      simp [insert, Ne.symm hne, ih hrest]

/-- What is the same of the value that was there and of the new one stays. -/
theorem map_insert_of_mem {m : List (K × V)} (h : (keys m).Nodup) {k : K} {v v' : V}
    (hmem : (k, v) ∈ m) {f : K × V → W} (hf : f (k, v') = f (k, v)) :
    (insert m k v').map f = m.map f := by
  induction m with
  | nil => cases hmem
  | cons p m ih =>
      obtain ⟨hnot, hrest⟩ := List.nodup_cons.mp h
      rcases List.mem_cons.mp hmem with rfl | hmem
      · simp [insert, hf]
      · have hne : p.1 ≠ k := fun heq => hnot (heq ▸ mem_keys hmem)
        simp [insert, hne, ih hrest hmem]

theorem mem_erase {m : List (K × V)} {k : K} {p : K × V} : p ∈ erase m k ↔ p ∈ m ∧ p.1 ≠ k := by
  simp [erase]

theorem mem_keys_insert {m : List (K × V)} {k k' : K} {v : V} (h : k' ∈ keys (insert m k v)) :
    k' = k ∨ k' ∈ keys m := by
  obtain ⟨p, hp, rfl⟩ := List.mem_map.mp h
  rcases mem_insert hp with rfl | hp
  · exact .inl rfl
  · exact .inr (mem_keys hp)

theorem nodup_insert {m : List (K × V)} (h : (keys m).Nodup) (k : K) (v : V) :
    (keys (insert m k v)).Nodup := by
  induction m with
  | nil => simp [insert, keys]
  | cons p m ih =>
      obtain ⟨k', v'⟩ := p
      obtain ⟨hnot, hrest⟩ := List.nodup_cons.mp h
      simp only [insert]
      split
      next heq => exact List.nodup_cons.mpr ⟨heq ▸ hnot, hrest⟩
      next hne =>
          refine List.nodup_cons.mpr ⟨fun hmem => ?_, ih hrest⟩
          rcases mem_keys_insert hmem with heq | hmem
          · exact hne heq
          · exact hnot hmem

theorem nodup_modify {m : List (K × V)} (h : (keys m).Nodup) (k : K) (f : V → V) :
    (keys (modify m k f)).Nodup := by
  unfold modify
  split
  next => exact nodup_insert h _ _
  next => exact h

theorem nodup_erase {m : List (K × V)} (h : (keys m).Nodup) (k : K) : (keys (erase m k)).Nodup :=
  h.sublist (List.filter_sublist.map Prod.fst)

/-- What is there already is put in again. -/
theorem insert_of_get {m : List (K × V)} {k : K} {v : V} (h : get m k = some v) :
    insert m k v = m := by
  induction m with
  | nil => cases h
  | cons p m ih =>
      obtain ⟨k', v'⟩ := p
      simp only [get] at h
      simp only [insert]
      split at h
      next heq =>
          cases h
          rw [if_pos heq, heq]
      next hne => rw [if_neg hne, ih h]

theorem get_of_mem {m : List (K × V)} (h : (keys m).Nodup) {k : K} {v : V} (hmem : (k, v) ∈ m) :
    get m k = some v := by
  induction m with
  | nil => cases hmem
  | cons p m ih =>
      obtain ⟨hnot, hrest⟩ := List.nodup_cons.mp h
      rcases List.mem_cons.mp hmem with rfl | hmem
      · simp [get]
      · have hne : p.1 ≠ k := fun heq => hnot (heq ▸ mem_keys hmem)
        simpa [get, hne] using ih hrest hmem

theorem AllVals.insert {P : V → Prop} {m : List (K × V)} (h : AllVals P m) (k : K) {v : V}
    (hv : P v) : AllVals P (insert m k v) := by
  induction m with
  | nil =>
      intro p hp
      simp only [AssocMap.insert, List.mem_singleton] at hp
      subst hp
      exact hv
  | cons p₀ m ih =>
      have hm : AllVals P m := fun p hp => h p (List.mem_cons_of_mem _ hp)
      have hp₀ : P p₀.2 := h p₀ (by simp)
      intro p hp
      simp only [AssocMap.insert] at hp
      split at hp
      · rcases List.mem_cons.mp hp with rfl | hp
        · exact hv
        · exact hm p hp
      · rcases List.mem_cons.mp hp with rfl | hp
        · exact hp₀
        · exact ih hm p hp

theorem AllVals.get {P : V → Prop} {m : List (K × V)} (h : AllVals P m) {k : K} {v : V}
    (hk : get m k = some v) : P v :=
  h _ (mem_of_get hk)

end AssocMap
