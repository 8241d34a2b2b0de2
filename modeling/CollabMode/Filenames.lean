import CollabMode.Op
import Mathlib.Data.List.DropRight

/-!
# Names of files in Emacs

`collab-mode.el` writes a file as `/host/project/file`, and reads such a name by its parts between
slashes.  The reader drops parts that are empty and trims whitespace off the others.  The host
is shown with a display property on the middle of its id, and to put it there can fail.

Whitespace is what the syntax table of the buffer says it is.
-/

namespace CollabMode

namespace Filename

/-- A syntax table, for whitespace.  A slash is not whitespace in any of them. -/
structure SyntaxTable where
  whitespace : Char → Bool
  slash : whitespace '/' = false

/-- FILE-DESC. -/
structure FileDesc where
  hostId : Text
  project : Text
  file : Text
deriving DecidableEq, Repr

/-! ## Texts -/

/-- `string-search`. -/
def stringSearch (needle : Text) : Text → Option Nat
  | [] => if needle.isEmpty then some 0 else none
  | c :: rest =>
      if needle.isPrefixOf (c :: rest) then some 0
      else (stringSearch needle rest).map (· + 1)

/-- `put-text-property`, of which only the error matters here: the range has to be inside the
string, whichever of its ends comes first. -/
def putTextProperty (start «end» : Nat) (s : Text) : Option Text :=
  if max start «end» ≤ s.length then some s else none

def trim (table : SyntaxTable) (s : Text) : Text :=
  (s.dropWhile table.whitespace).rdropWhile table.whitespace

/-- `string-split` at slashes, with parts that are trimmed and no empty ones. -/
def stringSplit (table : SyntaxTable) (s : Text) : List Text :=
  ((s.splitOn '/').map (trim table)).filter fun segment => !segment.isEmpty

/-! ## Names -/

/-- `collab--id-name`. -/
def idName (hostId : Text) : Option Text :=
  match stringSearch [':', ':'] hostId with
  | some idx => if idx > 0 then some (hostId.take idx) else none
  | none => none

/-- `collab--prettify-host-id`.  `none` is an error. -/
def prettifyHostId (hostId : Text) : Option Text :=
  match idName hostId with
  | some name =>
      let split := name.length
      (putTextProperty (split + 4) (hostId.length - 2) hostId).bind fun fullStr =>
        putTextProperty 0 fullStr.length fullStr
  | none =>
      -- The property is not quoted, and there is no variable `display`.
      if hostId.length > 5 then none else some hostId

/-- `collab--parse-filename`. -/
def parseFilename (table : SyntaxTable) (filename : Text) : Option FileDesc :=
  match stringSplit table filename with
  | hostId :: project :: segments => some { hostId, project, file := ['/'].intercalate segments }
  | _ => none

/-- `collab--encode-filename`. -/
def encodeFilename (fileDesc : FileDesc) : Option Text :=
  (prettifyHostId fileDesc.hostId).map fun hostId =>
    if fileDesc.file = [] then '/' :: hostId ++ '/' :: fileDesc.project
    else '/' :: hostId ++ '/' :: fileDesc.project ++ '/' :: fileDesc.file

/-! ## Descriptors -/

/-- The names of the host and of the project are names. -/
structure FileDesc.Named (desc : FileDesc) : Prop where
  host : desc.hostId ≠ [] ∧ '/' ∉ desc.hostId
  project : desc.project ≠ [] ∧ '/' ∉ desc.project

/-- The parts of a name between slashes. -/
def FileDesc.parts (self : FileDesc) : List Text :=
  self.hostId :: self.project :: if self.file = [] then [] else self.file.splitOn '/'

/-- No part is empty, and none begins or ends with whitespace. -/
def FileDesc.Tidy (table : SyntaxTable) (self : FileDesc) : Prop :=
  ∀ part ∈ self.parts, part ≠ [] ∧ trim table part = part

/-- The id has a name and two characters of the hash, or no name and no more than five
characters. -/
def Shown (hostId : Text) : Prop :=
  match idName hostId with
  | some name => name.length + 4 ≤ hostId.length
  | none => hostId.length ≤ 5

/-- The name that is written for the file is read as the file. -/
def RoundTrips (table : SyntaxTable) (desc : FileDesc) : Prop :=
  ∃ name, encodeFilename desc = some name ∧ parseFilename table name = some desc

variable {table : SyntaxTable}

/-! ## The name of the host -/

theorem putTextProperty_eq_some {start «end» : Nat} {s t : Text} :
    putTextProperty start «end» s = some t ↔ max start «end» ≤ s.length ∧ t = s := by
  rw [putTextProperty, Option.ite_some_none_eq_some]
  exact and_congr_right fun _ => eq_comm

theorem prettifyHostId_eq_some {hostId shown : Text} :
    prettifyHostId hostId = some shown ↔ Shown hostId ∧ shown = hostId := by
  unfold prettifyHostId Shown
  cases idName hostId with
  | none =>
      simp only
      split
      next hlong => exact iff_of_false nofun (fun h => by omega)
      next hshort =>
          rw [Option.some.injEq, eq_comm]
          exact ⟨fun h => ⟨by omega, h⟩, And.right⟩
  | some name =>
      simp only [Option.bind_eq_some_iff, putTextProperty_eq_some]
      constructor
      · rintro ⟨fullStr, ⟨hrange, rfl⟩, -, rfl⟩
        exact ⟨by omega, rfl⟩
      · rintro ⟨hrange, rfl⟩
        exact ⟨shown, ⟨by omega, rfl⟩, by omega, rfl⟩

theorem encodeFilename_eq_some {desc : FileDesc} {name : Text} :
    encodeFilename desc = some name ↔ Shown desc.hostId ∧
      name = ['/'].intercalate ([] :: desc.parts) := by
  have hname : ['/'].intercalate ([] :: desc.parts) =
      if desc.file = [] then '/' :: desc.hostId ++ '/' :: desc.project
      else '/' :: desc.hostId ++ '/' :: desc.project ++ '/' :: desc.file := by
    simp only [FileDesc.parts]
    split
    next => simp
    next hfile =>
        rw [List.intercalate_cons_cons, List.intercalate_cons_cons,
          List.intercalate_cons_of_ne_nil (List.splitOn_ne_nil _ _), List.intercalate_splitOn]
        simp
  simp only [encodeFilename, Option.map_eq_some_iff, prettifyHostId_eq_some, hname]
  constructor
  · rintro ⟨shown, ⟨hshown, rfl⟩, rfl⟩
    exact ⟨hshown, rfl⟩
  · rintro ⟨hshown, rfl⟩
    exact ⟨_, ⟨hshown, rfl⟩, rfl⟩

/-! ## Parts -/

theorem trim_starts (s : Text) : trim table s <+: s.dropWhile table.whitespace :=
  List.rdropWhile_prefix _ _

theorem trim_trim (s : Text) : trim table (trim table s) = trim table s := by
  have hfront : (trim table s).dropWhile table.whitespace = trim table s := by
    rw [List.dropWhile_eq_self_iff]
    intro hpos
    -- What is left begins as the text does after its first whitespace.
    have hhead := (trim_starts s).getElem hpos
    rw [hhead]
    exact List.dropWhile_get_zero_not _ _ _
  rw [trim, hfront]
  exact List.rdropWhile_idempotent ..

theorem not_mem_of_mem_splitOn {s part : Text} (h : part ∈ s.splitOn '/') : '/' ∉ part := by
  induction s generalizing part with
  | nil =>
      cases List.mem_singleton.mp h
      exact List.not_mem_nil
  | cons c s ih =>
      rw [List.splitOn_cons_eq_if_modifyHead] at h
      split at h
      next =>
          rcases List.mem_cons.mp h with rfl | h
          · exact List.not_mem_nil
          · exact ih h
      next hc =>
          cases hsplit : s.splitOn '/' with
          | nil => exact absurd hsplit (List.splitOn_ne_nil _ _)
          | cons first rest =>
              rw [hsplit] at h ih
              rcases List.mem_cons.mp h with rfl | h
              · intro hmem
                rcases List.mem_cons.mp hmem with rfl | hmem
                · exact hc (beq_self_eq_true _)
                · exact ih List.mem_cons_self hmem
              · exact ih (List.mem_cons_of_mem _ h)

theorem of_mem_stringSplit {s part : Text} (h : part ∈ stringSplit table s) :
    (part ≠ [] ∧ trim table part = part) ∧ '/' ∉ part := by
  obtain ⟨hmem, hpart⟩ := List.mem_filter.mp h
  obtain ⟨whole, hwhole, rfl⟩ := List.mem_map.mp hmem
  refine ⟨⟨by simpa using hpart, trim_trim whole⟩, fun hslash => ?_⟩
  refine not_mem_of_mem_splitOn hwhole ?_
  exact (List.dropWhile_suffix _).subset ((trim_starts whole).subset hslash)

theorem FileDesc.Named.parts {desc : FileDesc} (h : desc.Named) :
    ∀ part ∈ desc.parts, '/' ∉ part := by
  intro part hpart
  rcases List.mem_cons.mp hpart with rfl | hpart
  · exact h.host.2
  rcases List.mem_cons.mp hpart with rfl | hpart
  · exact h.project.2
  split at hpart
  next => cases hpart
  next => exact not_mem_of_mem_splitOn hpart

/-! ## Reading and writing -/

/-- What is read is tidy. -/
theorem tidy_parseFilename {s : Text} {desc : FileDesc}
    (h : parseFilename table s = some desc) : desc.Named ∧ desc.Tidy table := by
  unfold parseFilename at h
  split at h
  next hostId project segments hsplit =>
      cases h
      have hall : ∀ part ∈ hostId :: project :: segments,
          (part ≠ [] ∧ trim table part = part) ∧ '/' ∉ part :=
        fun part hpart => of_mem_stringSplit (hsplit ▸ hpart)
      have hparts : FileDesc.parts { hostId, project, file := ['/'].intercalate segments } =
          hostId :: project :: segments := by
        simp only [FileDesc.parts]
        congr 2
        cases segments with
        | nil => rfl
        | cons first rest =>
            rw [List.splitOn_intercalate '/' (fun part hpart => (hall part (by simp [hpart])).2)
              (List.cons_ne_nil _ _), if_neg]
            intro hnil
            have hfirst := (hall first (by simp)).1.1
            cases rest with
            | nil => exact hfirst (by rwa [List.intercalate_singleton] at hnil)
            | cons second rest =>
                rw [List.intercalate_cons_cons] at hnil
                simp at hnil
      refine ⟨⟨?_, ?_⟩, fun part hpart => (hall part (hparts ▸ hpart)).1⟩
      · exact ⟨(hall hostId (by simp)).1.1, (hall hostId (by simp)).2⟩
      · exact ⟨(hall project (by simp)).1.1, (hall project (by simp)).2⟩
  next => cases h

theorem FileDesc.intercalate_parts (self : FileDesc) :
    ['/'].intercalate (if self.file = [] then [] else self.file.splitOn '/') = self.file := by
  split
  next hfile => rw [hfile]; rfl
  next => exact List.intercalate_splitOn _

/-- A tidy name is read as what was written. -/
theorem parseFilename_intercalate {desc : FileDesc} (hnamed : desc.Named)
    (htidy : desc.Tidy table) :
    parseFilename table (['/'].intercalate ([] :: desc.parts)) = some desc := by
  have hsplit : stringSplit table (['/'].intercalate ([] :: desc.parts)) = desc.parts := by
    rw [stringSplit, List.splitOn_intercalate '/' ?_ (List.cons_ne_nil _ _)]
    · have hmap : desc.parts.map (trim table) = desc.parts :=
        (List.map_congr_left fun part hpart => (htidy part hpart).2).trans (List.map_id' _)
      have hempty : trim table [] = [] := rfl
      rw [List.map_cons, hmap, hempty, List.filter_cons_of_neg (by simp), List.filter_eq_self]
      intro part hpart
      simpa using (htidy part hpart).1
    · intro part hpart
      rcases List.mem_cons.mp hpart with rfl | hpart
      · exact List.not_mem_nil
      · exact hnamed.parts part hpart
  rw [parseFilename, hsplit]
  simp only [FileDesc.parts, desc.intercalate_parts]

theorem roundTrips_iff_tidy {desc : FileDesc} (hnamed : desc.Named) :
    RoundTrips table desc ↔ Shown desc.hostId ∧ desc.Tidy table := by
  constructor
  · rintro ⟨name, hname, hparse⟩
    exact ⟨(encodeFilename_eq_some.mp hname).1, (tidy_parseFilename hparse).2⟩
  · rintro ⟨hshown, htidy⟩
    exact ⟨_, encodeFilename_eq_some.mpr ⟨hshown, rfl⟩, parseFilename_intercalate hnamed htidy⟩

/-- Two files do not have the same name. -/
theorem encodeFilename_inj {desc desc' : FileDesc} {name : Text} (hnamed : desc.Named)
    (hnamed' : desc'.Named) (h : encodeFilename desc = some name)
    (h' : encodeFilename desc' = some name) : desc = desc' := by
  have hsplit : ∀ {desc : FileDesc}, desc.Named →
      (['/'].intercalate ([] :: desc.parts)).splitOn '/' = [] :: desc.parts := by
    intro desc hnamed
    refine List.splitOn_intercalate '/' (fun part hpart => ?_) (List.cons_ne_nil _ _)
    rcases List.mem_cons.mp hpart with rfl | hpart
    · exact List.not_mem_nil
    · exact hnamed.parts part hpart
  have hparts : desc.parts = desc'.parts := by
    have hnames := (encodeFilename_eq_some.mp h).2.symm.trans (encodeFilename_eq_some.mp h').2
    have hlists := congrArg (List.splitOn '/') hnames
    rw [hsplit hnamed, hsplit hnamed'] at hlists
    exact (List.cons.inj hlists).2
  obtain ⟨hhost, hrest⟩ := List.cons.inj hparts
  obtain ⟨hproject, hfile⟩ := List.cons.inj hrest
  have hfile := congrArg (['/'].intercalate ·) hfile
  simp only [FileDesc.intercalate_parts] at hfile
  obtain ⟨hostId, project, file⟩ := desc
  obtain ⟨hostId', project', file'⟩ := desc'
  dsimp only at hhost hproject hfile
  rw [hhost, hproject, hfile]

/-- A name is read as the file it was written for when the host can be shown and the file is
tidy.  What was read is tidy.  No two files have one name. -/
theorem roundTrips_iff (table : SyntaxTable) (desc desc' : FileDesc) (s : Text)
    (hnamed : desc.Named) (hnamed' : desc'.Named) :
    (RoundTrips table desc ↔ Shown desc.hostId ∧ desc.Tidy table) ∧
      (∀ parsed, parseFilename table s = some parsed →
        (RoundTrips table parsed ↔ Shown parsed.hostId)) ∧
      (∀ name, encodeFilename desc = some name → encodeFilename desc' = some name →
        desc = desc') := by
  refine ⟨roundTrips_iff_tidy hnamed, fun parsed hparsed => ?_,
    fun name h h' => encodeFilename_inj hnamed hnamed' h h'⟩
  obtain ⟨hnamed, htidy⟩ := tidy_parseFilename hparsed
  exact (roundTrips_iff_tidy hnamed).trans (and_iff_left htidy)

/-- ASCII whitespace. -/
def ascii : SyntaxTable :=
  { whitespace := fun c => c = ' ' || c = '\t' || c = '\n' || c = '\r', slash := by decide }

/-- A file with a blank in its name. -/
def blank : FileDesc :=
  { hostId := "ada::0a1b".toList, project := "notes".toList, file := "src/a b.txt".toList }

example : RoundTrips ascii blank := ⟨"/ada::0a1b/notes/src/a b.txt".toList, by decide, by decide⟩

/-- The file beside it that ends with the blank. -/
def trailing : FileDesc := { blank with file := "src/a ".toList }

theorem roundTrips_blank :
    (RoundTrips ascii blank ↔ Shown blank.hostId ∧ blank.Tidy ascii) ∧
      (∀ parsed, parseFilename ascii "ada::0a1b/notes//src /".toList = some parsed →
        (RoundTrips ascii parsed ↔ Shown parsed.hostId)) ∧
      encodeFilename blank = some "/ada::0a1b/notes/src/a b.txt".toList ∧
      encodeFilename trailing ≠ some "/ada::0a1b/notes/src/a b.txt".toList := by
  have hname : encodeFilename blank = some "/ada::0a1b/notes/src/a b.txt".toList := by decide
  obtain ⟨hround, hparsed, hinj⟩ := roundTrips_iff ascii blank trailing
    "ada::0a1b/notes//src /".toList ⟨by decide, by decide⟩ ⟨by decide, by decide⟩
  exact ⟨hround, hparsed, hname, fun h => absurd (hinj _ hname h) (by decide)⟩

/-- The host has no name and six characters or more.  The path is absolute.  A directory ends
with a blank. -/
theorem not_roundTrips :
    encodeFilename ⟨"host-id".toList, "my-project".toList, "file.txt".toList⟩ = none ∧
      ¬RoundTrips ascii ⟨"host-id".toList, "my-project".toList, "file.txt".toList⟩ ∧
      ¬RoundTrips ascii ⟨"ada::0a1b".toList, "_files".toList, "/home/a".toList⟩ ∧
      ¬RoundTrips ascii ⟨"ada::0a1b".toList, "notes".toList, "src /a".toList⟩ := by
  refine ⟨by decide, fun h => ?_, fun h => ?_, fun h => ?_⟩
  · obtain ⟨name, hname, -⟩ := h
    have hnone : encodeFilename
        ⟨"host-id".toList, "my-project".toList, "file.txt".toList⟩ = none := by decide
    cases hnone.symm.trans hname
  · obtain ⟨name, hname, hparse⟩ := h
    exact ((tidy_parseFilename hparse).2 [] (by decide)).1 rfl
  · obtain ⟨name, hname, hparse⟩ := h
    exact absurd ((tidy_parseFilename hparse).2 "src ".toList (by decide)).2 (by decide)

end Filename

end CollabMode
