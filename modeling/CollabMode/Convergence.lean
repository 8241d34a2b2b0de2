import CollabMode.Mirror

/-!
# Convergence

When nothing is left to send, to order or to deliver, the host and all its peers
show one text.  This holds as long as an edit fits the text that its peer shows, the
ops that arrive agree with the local ones, and what is undone stands in the history as
the host ordered it.

Without the second, two marks that set one character to different values are kept by
`transform` as they are, and the last one wins.  On the host that is another one
than on the peer.
-/

namespace CollabMode

open Tombstone

/-- The peer has seen all and has nothing of its own to send. -/
def Site.Quiet (seq : GlobalSeq) (site : Site) : Prop :=
  site.doc.engine.gh.localOps = [] ∧ site.up = [] ∧ site.down = [] ∧
    site.doc.engine.currentSeq = seq

instance (seq : GlobalSeq) (site : Site) : Decidable (site.Quiet seq) :=
  inferInstanceAs (Decidable (_ ∧ _))

/-- Nothing is left to do. -/
def System.Quiescent (sys : System) : Prop :=
  AssocMap.AllVals (Site.Quiet sys.doc.engine.currentSeq) sys.sites

instance (sys : System) : Decidable sys.Quiescent :=
  inferInstanceAs (Decidable (AssocMap.AllVals _ _))

/-- The text of the editor and the live part of the internal document are both
`text`.  `items` are the characters of the document, live or dead. -/
def RemoteDoc.Displays (self : RemoteDoc) (items : List Char) (text : Text) : Prop :=
  self.buffer = text ∧ liveItems items (flags self.engine.internalDoc.ranges) = text

theorem quiescent_converged {content : Text} {acts : List Act} {sys : System}
    (hcond : Run.Meets System.step (System.Cond
      (fun doc site editorOp => editorOp.op.FitsText site.doc.buffer ∧
        UndoesAsOrdered doc site editorOp.op)
      (fun _ site op => AgreesWithLocal site op)) (System.start content) acts)
    (hrun : Run.run System.step (System.start content) acts = some sys)
    (hquiet : sys.Quiescent) :
    sys.doc.buffer = (sys.doc.latest content).live ∧
      ∀ id site, sys.site? id = some site →
        site.doc.Displays (sys.doc.latest content).items sys.doc.buffer := by
  have hinv := (mirror_keeps content).run (Hosts.start content) hcond hrun
  have hhost : sys.doc.buffer = (sys.doc.latest content).live := hinv.doc.shows.text_eq
  refine ⟨hhost, fun id site hsite => ?_⟩
  obtain ⟨_, hmirror⟩ := hinv.sites id site hsite
  obtain ⟨hlocal, _, _, hseq⟩ := hquiet.get hsite
  have hshows := hmirror.shows
  rw [hlocal, hseq,
    Doc.version_length (Nat.le_of_eq hinv.doc.numbered.counted.symm)] at hshows
  have hshows : site.doc.Shows (sys.doc.latest content) := hshows
  rw [hhost]
  refine ⟨hshows.text_eq, ?_⟩
  rw [← hshows.flags]
  rfl

/-- Two peers delete the same character.  Peer 2 undoes this, and all is delivered. -/
def deletedTwice : List Act :=
  [ .join 1, .join 2, .edit 1 ⟨.del 0 ['x'], 1⟩, .edit 2 ⟨.del 0 ['x'], 1⟩, .send 1, .send 2,
    .receive 1, .receive 2, .deliver 1, .deliver 1, .deliver 2, .deliver 2,
    .edit 2 ⟨.undo 2, 2⟩, .send 2, .receive 2, .deliver 1, .deliver 2 ]

theorem quiescent_converged_sample :
    ∃ sys site, Run.run System.step (System.start ['x']) deletedTwice = some sys ∧
      sys.site? 1 = some site ∧ sys.doc.buffer = ['x'] ∧ site.doc.buffer = ['x'] := by
  obtain ⟨sys, hrun⟩ := Option.isSome_iff_exists.mp (show (Run.run System.step
    (System.start ['x']) deletedTwice).isSome by decide)
  have hquiet : sys.Quiescent := by
    cases hrun
    decide
  obtain ⟨site, hsite⟩ := Option.isSome_iff_exists.mp (show (sys.site? 1).isSome by
    cases hrun
    rfl)
  have hconv := (quiescent_converged (by decide) hrun hquiet).2 1 site hsite
  have htext : sys.doc.buffer = ['x'] := by
    cases hrun
    rfl
  exact ⟨sys, site, hrun, hsite, htext, hconv.1.trans htext⟩

/-- Then peer 2 redoes its deletion while peer 1 undoes its own. -/
def redoMeetsUndo : List Act :=
  deletedTwice ++
  [ .edit 2 ⟨.redo 3, 3⟩, .edit 1 ⟨.undo 3, 2⟩, .send 2, .send 1, .receive 2, .receive 1,
    .deliver 1, .deliver 1, .deliver 2, .deliver 2 ]

/-- The host shows the character and peer 1 does not. -/
theorem quiescent_converged_fails :
    ∃ sys site, Run.run System.step (System.start ['x']) redoMeetsUndo = some sys ∧
      sys.Quiescent ∧ sys.site? 1 = some site ∧
      sys.doc.buffer = ['x'] ∧ site.doc.buffer = [] := by
  obtain ⟨sys, hrun⟩ := Option.isSome_iff_exists.mp (show (Run.run System.step
    (System.start ['x']) redoMeetsUndo).isSome by decide)
  have hquiet : sys.Quiescent := by
    cases hrun
    decide
  cases hrun
  exact ⟨_, _, rfl, hquiet, rfl, rfl, rfl⟩

end CollabMode
