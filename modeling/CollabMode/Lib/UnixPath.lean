import Mathlib.Data.List.Basic
import Mathlib.Data.List.Infix
import Mathlib.Tactic.Common

/-!
# Paths as strings

A path is a string, and two paths are the same when they have the same
components.  Repeated slashes and inner dots do not count.  `join` puts one path
after another, unless the second is absolute.

`resolve` follows the components of an absolute path from the root directory, as
if there were no links, and gives the names on the way down.  A relative path
climbs a number of directories and then goes down some names, `relative`.
`stays_iff` says when a path that is joined to a directory is still under it, in
terms of the joined string alone.
-/

namespace UnixPath

abbrev Path := List Char

abbrev Name := List Char

inductive Component where
  | rootDir
  | curDir
  | parentDir
  | normal (name : Name)
deriving DecidableEq, Repr

/-! ## Components -/

/-- What stands between two slashes. -/
def segment (s : List Char) : Option Component :=
  if s = [] then none
  else if s = ['.'] then none
  else if s = ['.', '.'] then some .parentDir
  else some (.normal s)

/-- The components after the beginning of the path. -/
def body (p : Path) : List Component := (p.splitOn '/').filterMap segment

def isAbsolute (p : Path) : Bool := p.head? == some '/'

/-- A dot counts at the beginning only. -/
def beginning (p : Path) : List Component :=
  if isAbsolute p then [.rootDir]
  else if (p.splitOn '/').head? = some ['.'] then [.curDir]
  else []

def components (p : Path) : List Component := beginning p ++ body p

/-- Whether the paths have the same components. -/
def same (p q : Path) : Bool := components p == components q

def startsWith (p q : Path) : Bool := (components q).isPrefixOf (components p)

def join (p q : Path) : Path :=
  if isAbsolute q then q
  else if p = [] ∨ p.getLast? = some '/' then p ++ q
  else p ++ '/' :: q

/-- Spell a component. -/
def spell : Component → List Char
  | .rootDir => []
  | .curDir => ['.']
  | .parentDir => ['.', '.']
  | .normal name => name

/-- The path with these components. -/
def ofComponents (cs : List Component) : Path :=
  if cs = [.rootDir] then ['/'] else ['/'].intercalate (cs.map spell)

/-- The path without its last component. -/
def parent (p : Path) : Option Path :=
  match (components p).getLast? with
  | none => none
  | some .rootDir => none
  | some _ => some (ofComponents (components p).dropLast)

def fileName (p : Path) : Option Name :=
  match (components p).getLast? with
  | some (.normal name) => some name
  | _ => none

theorem same_iff {p q : Path} : same p q = true ↔ components p = components q := by
  simp [same]

theorem startsWith_iff {p q : Path} : startsWith p q = true ↔ components q <+: components p :=
  List.isPrefixOf_iff_prefix

@[simp] theorem body_nil : body [] = [] := rfl

theorem body_append_slash (p q : Path) : body (p ++ '/' :: q) = body p ++ body q := by
  rw [body, List.splitOn_append_cons_self, List.filterMap_append]
  rfl

theorem isAbsolute_append {p : Path} (hp : isAbsolute p = true) (q : Path) :
    isAbsolute (p ++ q) = true := by
  cases p with
  | nil => cases hp
  | cons c p => exact hp

/-- A relative path goes on where the directory ends. -/
theorem components_join {p q : Path} (hp : isAbsolute p = true) (hq : isAbsolute q = false) :
    components (join p q) = components p ++ body q := by
  have habs : ∀ r, beginning (p ++ r) = beginning p := by
    intro r
    rw [beginning, beginning, if_pos hp, if_pos (isAbsolute_append hp r)]
  have hne : p ≠ [] := by
    rintro rfl
    cases hp
  simp only [join, hq, Bool.false_eq_true, if_false, hne, false_or, components]
  split
  next hlast =>
    obtain ⟨p', rfl⟩ := List.getLast?_eq_some_iff.mp hlast
    rw [habs, List.append_assoc p', List.singleton_append, body_append_slash,
      body_append_slash, body_nil, List.append_nil, List.append_assoc]
  next => rw [habs, body_append_slash, List.append_assoc]

theorem join_of_isAbsolute {p q : Path} (hq : isAbsolute q = true) : join p q = q := if_pos hq

/-! ## Following a path -/

/-- One step from a directory, given by the names that lead to it. -/
def step (at_ : List Name) : Component → List Name
  | .rootDir => []
  | .curDir => at_
  | .parentDir => at_.dropLast
  | .normal name => at_ ++ [name]

/-- Follow the components from the directory `at_`. -/
def follow (at_ : List Name) (cs : List Component) : List Name := cs.foldl step at_

/-- The names that lead from the root directory to an absolute path. -/
def resolve (p : Path) : List Name := follow [] (components p)

/-- `p` is `root` or below it. -/
def Under (root p : Path) : Prop := resolve root <+: resolve p

instance (root p : Path) : Decidable (Under root p) :=
  inferInstanceAs (Decidable (resolve root <+: resolve p))

theorem follow_append (at_ : List Name) (cs ds : List Component) :
    follow at_ (cs ++ ds) = follow (follow at_ cs) ds :=
  List.foldl_append

/-- The directories to climb and the names to go down, one component further. -/
def stepRelative : Nat × List Name → Component → Nat × List Name
  | (ups, names), .parentDir => if names = [] then (ups + 1, []) else (ups, names.dropLast)
  | (ups, names), .normal name => (ups, names ++ [name])
  | s, .rootDir => s
  | s, .curDir => s

/-- What the components come to when they are followed from anywhere. -/
def relative (cs : List Component) : Nat × List Name := cs.foldl stepRelative (0, [])

theorem segment_ne_rootDir {s : List Char} : segment s ≠ some .rootDir := by
  simp only [segment]
  split_ifs <;> simp

theorem not_mem_body_rootDir (p : Path) : Component.rootDir ∉ body p := by
  intro h
  obtain ⟨s, _, hs⟩ := List.mem_filterMap.mp h
  exact segment_ne_rootDir hs

theorem rootDir_mem_components {p : Path} : .rootDir ∈ components p ↔ isAbsolute p = true := by
  rw [components, List.mem_append, or_iff_left (not_mem_body_rootDir p), beginning]
  split
  next habs => simp [habs]
  next habs => split <;> simp [habs]

theorem step_climb (at_ : List Name) (ups : Nat) (names : List Name) {c : Component}
    (hc : c ≠ .rootDir) :
    step (at_.take (at_.length - ups) ++ names) c =
      at_.take (at_.length - (stepRelative (ups, names) c).1) ++
        (stepRelative (ups, names) c).2 := by
  cases c with
  | rootDir => exact absurd rfl hc
  | curDir => rfl
  | normal name => simp [step, stepRelative]
  | parentDir =>
      by_cases hn : names = []
      · subst hn
        simp only [step, stepRelative, if_true, List.append_nil]
        rw [List.dropLast_eq_take, List.take_take, List.length_take]
        congr 1
        omega
      · simp [step, stepRelative, hn, List.dropLast_append_of_ne_nil]

/-- Components that do not begin at the root directory climb and go down. -/
theorem follow_eq_relative (at_ : List Name) {cs : List Component} (hcs : .rootDir ∉ cs) :
    follow at_ cs = at_.take (at_.length - (relative cs).1) ++ (relative cs).2 := by
  induction cs using List.reverseRecOn with
  | nil => simp [follow, relative]
  | append_singleton cs c ih =>
      rw [List.mem_append, not_or, List.mem_singleton] at hcs
      rw [follow_append, ih hcs.1]
      simp only [follow, relative, List.foldl_append, List.foldl_cons, List.foldl_nil]
      exact step_climb at_ _ _ (Ne.symm hcs.2)

/-- A path below `root` that climbs out of it has to come back in. -/
def Returns (root : List Name) (cs : List Component) : Prop :=
  root.drop (root.length - (relative cs).1) <+: (relative cs).2

instance (root : List Name) (cs : List Component) : Decidable (Returns root cs) :=
  inferInstanceAs (Decidable (_ <+: _))

theorem prefix_follow_iff {root : List Name} {cs : List Component} (hcs : .rootDir ∉ cs) :
    root <+: follow root cs ↔ Returns root cs := by
  rw [follow_eq_relative root hcs, Returns]
  conv_lhs => lhs; rw [← List.take_append_drop (root.length - (relative cs).1) root]
  exact List.prefix_append_right_inj _

/-- What a string must be for the path it names in `root` to be under `root`. -/
def Stays (root q : Path) : Prop :=
  if isAbsolute q then Under root q else Returns (resolve root) (body q)

instance (root q : Path) : Decidable (Stays root q) :=
  inferInstanceAs
    (Decidable (if isAbsolute q then Under root q else Returns (resolve root) (body q)))

theorem stays_iff {root q : Path} (hroot : isAbsolute root = true) :
    Under root (join root q) ↔ Stays root q := by
  unfold Stays
  cases hq : isAbsolute q with
  | true => rw [join_of_isAbsolute hq, if_pos rfl]
  | false =>
      rw [if_neg Bool.false_ne_true, Under, resolve, resolve, components_join hroot hq,
        follow_append]
      exact prefix_follow_iff (not_mem_body_rootDir q)

@[simp] theorem under_refl (root : Path) : Under root root := List.prefix_rfl

/-- A name that a directory can have an entry under. -/
def IsName (name : Name) : Prop :=
  '/' ∉ name ∧ name ≠ [] ∧ name ≠ ['.'] ∧ name ≠ ['.', '.']

theorem body_of_isName {name : Name} (h : IsName name) : body name = [.normal name] := by
  obtain ⟨hslash, hne, hdot, hdots⟩ := h
  have hsplit : name.splitOn '/' = [name] := List.splitOn_eq_singleton hslash
  rw [body, hsplit]
  simp [segment, hne, hdot, hdots]

theorem isAbsolute_of_isName {name : Name} (h : IsName name) : isAbsolute name = false := by
  cases name with
  | nil => rfl
  | cons c name =>
      have hc : c ≠ '/' := fun hc => h.1 (hc ▸ List.mem_cons_self)
      simpa [isAbsolute] using hc

/-- The entries of a directory are under what the directory is under. -/
theorem Under.join_name {root p : Path} (h : Under root p) (hp : isAbsolute p = true)
    {name : Name} (hname : IsName name) : Under root (join p name) := by
  have hresolve : resolve (join p name) = resolve p ++ [name] := by
    rw [resolve, components_join hp (isAbsolute_of_isName hname), follow_append,
      body_of_isName hname]
    rfl
  rw [Under, hresolve]
  exact List.IsPrefix.trans h (List.prefix_append _ _)

theorem isAbsolute_join {p : Path} (hp : isAbsolute p = true) (q : Path) :
    isAbsolute (join p q) = true := by
  unfold join
  split
  next hq => exact hq
  next =>
      split
      next => exact isAbsolute_append hp q
      next => exact isAbsolute_append hp _

/-! ## Slashes at the end -/

theorem body_append_slashes (p : Path) (n : Nat) : body (p ++ List.replicate n '/') = body p := by
  induction n with
  | zero => rw [List.replicate_zero, List.append_nil]
  | succ n ih =>
      rw [List.replicate_succ', ← List.append_assoc, body_append_slash, ih, body_nil,
        List.append_nil]

/-- Slashes at the end do not count. -/
theorem components_append_slashes {p : Path} (hp : p ≠ []) (n : Nat) :
    components (p ++ List.replicate n '/') = components p := by
  have habs : isAbsolute (p ++ List.replicate n '/') = isAbsolute p := by
    cases p with
    | nil => exact absurd rfl hp
    | cons c p => rfl
  have hhead : ((p ++ List.replicate n '/').splitOn '/').head? = (p.splitOn '/').head? := by
    cases n with
    | zero => rw [List.replicate_zero, List.append_nil]
    | succ n =>
        rw [List.replicate_succ, List.splitOn_append_cons_self,
          List.head?_append_of_ne_nil _ (List.splitOn_ne_nil _ _)]
  rw [components, components, body_append_slashes, beginning, beginning, habs, hhead]

/-- Two strings that name the same path name the same path in a directory. -/
theorem components_join_congr {p q r : Path} (hp : isAbsolute p = true)
    (hq : isAbsolute q = false) (hr : isAbsolute r = false) (hbody : body q = body r) :
    components (join p q) = components (join p r) := by
  rw [components_join hp hq, components_join hp hr, hbody]

/-! ## From a directory to what is below it -/

theorem slash_notMem_of_mem_splitOn {p s : List Char} (h : s ∈ p.splitOn '/') : '/' ∉ s := by
  induction p generalizing s with
  | nil =>
      rw [List.splitOn_nil] at h
      rw [List.mem_singleton.mp h]
      exact List.not_mem_nil
  | cons c p ih =>
      rw [List.splitOn_cons_eq_if_modifyHead] at h
      split at h
      next =>
          rcases List.mem_cons.mp h with rfl | h
          · exact List.not_mem_nil
          · exact ih h
      next hc =>
          obtain ⟨first, rest, hsplit⟩ := List.exists_cons_of_ne_nil (List.splitOn_ne_nil '/' p)
          rw [hsplit] at h ih
          rcases List.mem_cons.mp h with rfl | h
          · refine fun hmem =>
              (List.mem_cons.mp hmem).elim (fun heq => hc ?_) (ih List.mem_cons_self)
            rw [← heq]
            rfl
          · exact ih (List.mem_cons_of_mem _ h)

/-- A component is read back from its spelling. -/
theorem body_spell {p : Path} {c : Component} (h : c ∈ body p) :
    body (spell c) = [c] ∧ isAbsolute (spell c) = false ∧ spell c ≠ [] := by
  obtain ⟨s, hs, hseg⟩ := List.mem_filterMap.mp h
  have hslash := slash_notMem_of_mem_splitOn hs
  unfold segment at hseg
  split at hseg
  next => cases hseg
  next hne =>
      split at hseg
      next => cases hseg
      next hdot =>
          split at hseg
          next =>
              cases hseg
              exact ⟨rfl, rfl, by simp [spell]⟩
          next hdots =>
              cases hseg
              have hname : IsName s := ⟨hslash, hne, hdot, hdots⟩
              exact ⟨body_of_isName hname, isAbsolute_of_isName hname, hne⟩

theorem body_intercalate {cs : List Component} {p : Path} (h : ∀ c ∈ cs, c ∈ body p) :
    body (['/'].intercalate (cs.map spell)) = cs ∧
      isAbsolute (['/'].intercalate (cs.map spell)) = false := by
  induction cs with
  | nil => exact ⟨rfl, rfl⟩
  | cons c cs ih =>
      obtain ⟨hc, hcs⟩ := List.forall_mem_cons.mp h
      obtain ⟨hbody, habs, hne⟩ := body_spell hc
      cases cs with
      | nil => simpa using ⟨hbody, habs⟩
      | cons c' cs =>
          have hcons : ['/'].intercalate ((c :: c' :: cs).map spell) =
              spell c ++ '/' :: ['/'].intercalate ((c' :: cs).map spell) := by
            simp [List.intercalate_cons_cons]
          rw [hcons, body_append_slash, hbody, (ih hcs).1]
          refine ⟨rfl, ?_⟩
          obtain ⟨first, rest, hspell⟩ := List.exists_cons_of_ne_nil hne
          rw [hspell] at habs ⊢
          exact habs

/-- The relative path from a directory to a path that starts with it. -/
def below (p base : Path) : Option Path :=
  if startsWith p base then
    some (['/'].intercalate (((components p).drop (components base).length).map spell))
  else none

theorem below_of_startsWith {p base : Path} (hbase : isAbsolute base = true)
    (h : startsWith p base = true) :
    ∃ rel, below p base = some rel ∧ isAbsolute rel = false ∧
      components p = components base ++ body rel := by
  obtain ⟨rest, hrest⟩ := startsWith_iff.mp h
  have hdrop : (components p).drop (components base).length = rest := by
    rw [← hrest, List.drop_left]
  have hp : isAbsolute p = true := by
    rw [← rootDir_mem_components, ← hrest]
    exact List.mem_append_left _ (rootDir_mem_components.mpr hbase)
  have hbody : body base ++ rest = body p := by
    rw [components, components, beginning, beginning, if_pos hp, if_pos hbase, List.append_assoc]
      at hrest
    exact List.append_cancel_left hrest
  obtain ⟨hread, habs⟩ := body_intercalate fun c (hc : c ∈ rest) =>
    hbody ▸ List.mem_append_right (body base) hc
  refine ⟨_, if_pos h, ?_, ?_⟩
  · rw [hdrop]
    exact habs
  · rw [hdrop, hread, hrest]

end UnixPath
