import LispReader.Proofs.CommandLine.Parse
import LispReader.Proofs.Host.Appending

/-!
What a run comes to. All that a run notes goes to its log and to the diagnostic output. So the
verdict on a path, which is how the run ends and what it writes, is one of the settings and the text
that are found, as long as the notes are taken. Whether they are or not, no file is changed but the
log.
-/

namespace LispReader

open CommandLine

namespace World

/-- Every text that is written is taken. -/
structure TakesAll (world : World) : Prop where
  file : ∀ place content text, world.fileFault? place content text = none
  diagnostics : ∀ before text, world.diagnosticsFault? before text = none

/-- What noting leaves of a world: the log may have grown, and diagnostics have been written. -/
structure Noted (log : Option String) (world later : World) : Prop where
  tree : FileTree.Logged world.directory log world.tree later.tree
  takesAll : world.TakesAll → later.TakesAll
  directory : later.directory = world.directory
  input : later.input = world.input
  output : later.output = world.output

namespace Noted

variable {log : Option String} {world later last : World}

theorem refl (world : World) : Noted log world world :=
  ⟨.refl world.tree, id, rfl, rfl, rfl⟩

theorem trans (h : Noted log world later) (hLast : Noted log later last) :
    Noted log world last where
  tree := h.tree.trans (h.directory ▸ hLast.tree)
  takesAll hTakes := hLast.takesAll (h.takesAll hTakes)
  directory := hLast.directory.trans h.directory
  input := hLast.input.trans h.input
  output := hLast.output.trans h.output

theorem diagnostics (world : World) (text : String) :
    Noted log world { world with diagnostics := text } :=
  ⟨.refl world.tree, fun ⟨hFile, hDiagnostics⟩ => ⟨hFile, hDiagnostics⟩, rfl, rfl, rfl⟩

/-- To put a content into a file that can be appended to is noting, if the file has grown by it. -/
theorem put {file : String} {place : List String}
    (hPlace : world.tree.resolveForAppending world.directory file = .ok place)
    {content : List UInt8}
    (hOld : ∀ old, world.tree.entry? place = some (.file old) → old <+: content) :
    Noted (some file) world { world with tree := world.tree.put place content } := by
  obtain ⟨parent, hAppendable, rfl⟩ := FileTree.resolveForAppending_eq_ok_iff.mp hPlace
  exact ⟨.inr ⟨file, _, rfl, hPlace, hAppendable.appended_put hOld⟩,
    fun ⟨hFile, hDiagnostics⟩ => ⟨hFile, hDiagnostics⟩, rfl, rfl, rfl⟩

theorem appendLog (world : World) (file text : String) :
    Noted (some file) world (world.appendLog file text).2 := by
  unfold World.appendLog
  cases hPlace : world.tree.resolveForAppending world.directory file with
  | error fault => exact refl world
  | ok place =>
      dsimp only
      split
      · next content hContent =>
          have hGrown (bytes : List UInt8) : Noted (some file) world
              { world with tree := world.tree.put place (content ++ bytes) } := by
            apply put hPlace
            intro old hOld
            cases hContent.symm.trans hOld
            exact List.prefix_append content bytes
          split <;> exact hGrown _
      · exact refl world

theorem openLog (world : World) (file : String) :
    Noted (some file) world (world.openLog file).2 := by
  unfold World.openLog
  cases hPlace : world.tree.resolveForAppending world.directory file with
  | error fault => exact refl world
  | ok place =>
      dsimp only
      split
      · exact refl world
      · next hNone =>
          apply put hPlace
          intro old hOld
          cases hNone.symm.trans hOld

end Noted

theorem TakesAll.appendLog {world : World} (h : world.TakesAll) (file text : String) :
    (world.appendLog file text).1 = .ok () := by
  unfold World.appendLog
  split
  · rfl
  · split
    · simp only [h.file]
    · rfl

theorem TakesAll.writeDiagnostics {world : World} (h : world.TakesAll) (text : String) :
    (world.writeDiagnostics text).1 = .ok () := by
  simp only [World.writeDiagnostics, h.diagnostics]

/-- An action does nothing but note, and succeeds if all texts are taken. -/
structure Notes (log : Option String) (action : StateM World (Except StreamFault Unit)) : Prop where
  noted : ∀ world, Noted log world (action.run world).2
  taken : ∀ world, world.TakesAll → (action.run world).1 = .ok ()

namespace Notes

variable {log : Option String}

theorem pure : Notes log (Pure.pure (.ok ())) :=
  ⟨.refl, fun _ _ => rfl⟩

theorem bind {action next : ExceptT StreamFault (StateM World) Unit} (h : Notes log action.run)
    (hNext : Notes log next.run) : Notes log (action >>= fun _ => next).run := by
  rw [ExceptT.run_bind]
  constructor <;> intro world
  · have hNoted := h.noted world
    cases hRun : action.run.run world with
    | mk outcome later =>
        rw [hRun] at hNoted
        rw [run_bind_of_run hRun]
        cases outcome with
        | ok _ => exact hNoted.trans (hNext.noted later)
        | error fault => exact hNoted
  · intro hTakes
    have hRun : action.run.run world = (.ok (), (action.run.run world).2) :=
      Prod.ext (h.taken world hTakes) rfl
    rw [run_bind_of_run hRun]
    exact hNext.taken _ ((h.noted world).takesAll hTakes)

theorem forM {α : Type} {items : List α} {action : α → ExceptT StreamFault (StateM World) Unit}
    (h : ∀ item, Notes log (action item).run) : Notes log (items.forM action).run := by
  induction items with
  | nil => exact pure
  | cons item items ih => exact (h item).bind ih

theorem appendLog (file text : String) : Notes (some file) (host.appendLog file text) :=
  ⟨fun world => .appendLog world file text, fun _ hTakes => hTakes.appendLog file text⟩

theorem writeDiagnostics (text : String) : Notes log (host.writeDiagnostics text) := by
  refine ⟨fun world => ?_, fun _ hTakes => hTakes.writeDiagnostics text⟩
  change Noted log world (world.writeDiagnostics text).2
  unfold World.writeDiagnostics
  split
  · exact .diagnostics world _
  · exact .refl world

theorem note (job : Job) (message : String) : Notes job.log (note host job message) := by
  have hShown (log : Option String) : Notes log (ExceptT.run (if job.verbose then
      ExceptT.mk (host.writeDiagnostics s!"[{programName}] {message}\n") else Pure.pure ())) := by
    split
    · exact writeDiagnostics _
    · exact pure
  unfold CommandLine.note
  cases job.log with
  | none => exact hShown none
  | some path => exact bind (appendLog path _) (hShown (some path))

theorem noteSettings (job : Job) (settings : Settings) :
    Notes job.log (noteSettings host job settings) := by
  unfold CommandLine.noteSettings
  cases settings.path with
  | none => exact pure
  | some path => exact (note job _).bind (forM fun _ => note job _)

end Notes

end World

namespace CommandLine

/-- How a run ends, and what it writes. -/
abbrev Verdict : Type := Exit × String

/-- What a text comes to by settings. -/
def parseVerdict (settings : Settings) (text : List Char) : Verdict :=
  match readText text settings.keepComments settings.maxDepth with
  | .error error =>
    match excessDigits? error with
    | some count => (.breakdown (.tooManyDigits count), "")
    | none => (.status 1, "")
  | .ok forms =>
    match Record.encodeLines (forms.map .token) with
    | .error _ => (.status 1, "")
    | .ok lines => (.status 0, lines.text)

/-- What the settings and the text that are found come to. -/
def verdict : Except SettingsFault Settings → Except SourceFault (List Char) → Verdict
  | .error _, _ => (.status 1, "")
  | .ok _, .error (.file .nullCharacter) => (.breakdown .nullCharacter, "")
  | .ok _, .error .tooLong => (.breakdown .noMemory, "")
  | .ok _, .error _ => (.status 1, "")
  | .ok settings, .ok text => parseVerdict settings text

/-- Whether a run has broken off over a diagnostic that was not written. -/
def Exit.isUnwritten : Exit → Bool
  | .breakdown (.unwritten _) => true
  | _ => false

/-- A run comes to a verdict, unless it breaks off over a diagnostic, which it does not if all texts
are taken; and it has changed no file but the log. -/
structure Comes (log : Option String) (world : World) (verdict : Verdict)
    (result : Exit × World) : Prop where
  written : result.1.isUnwritten = false →
    result.1 = verdict.1 ∧ result.2.output = world.output ++ verdict.2
  taken : world.TakesAll → result.1.isUnwritten = false
  tree : FileTree.Logged world.directory log world.tree result.2.tree

variable {log : Option String} {world later : World} {result : Exit × World}

/-- Noting first does not change what a run comes to. -/
theorem Comes.after {verdict : Verdict} (hNoted : World.Noted log world later)
    (h : Comes log later verdict result) : Comes log world verdict result where
  written := hNoted.output ▸ h.written
  taken hTakes := h.taken (hNoted.takesAll hTakes)
  tree := hNoted.tree.trans (hNoted.directory ▸ h.tree)

/-- A run that has nothing left to do comes to its end. -/
theorem Comes.pure {exit : Exit} (hExit : exit.isUnwritten = false) (world : World) :
    Comes log world (exit, "") ((Pure.pure exit : StateM World Exit).run world) :=
  ⟨fun _ => ⟨rfl, String.append_empty.symm⟩, fun _ => hExit, .refl world.tree⟩

/-- What is written first does not change what a run comes to. -/
theorem Comes.afterWriting {verdict : Verdict} {written : StateM World (Except StreamFault Unit)}
    (hWritten : World.Notes log written) {next : StateM World Exit}
    (hNext : Comes log (written.run world).2 verdict (next.run (written.run world).2)) :
    Comes log world verdict ((afterWriting written next).run world) := by
  have hNoted := hWritten.noted world
  have hTaken := hWritten.taken world
  unfold CommandLine.afterWriting
  cases hRun : written.run world with
  | mk outcome later =>
      rw [hRun] at hNoted hNext hTaken
      rw [World.run_bind_of_run hRun]
      cases outcome with
      | ok _ => exact .after hNoted hNext
      | error fault =>
          refine ⟨fun hWhole => ?_, fun hTakes => ?_, hNoted.tree⟩
          · cases hWhole
          · cases hTaken hTakes

theorem comes_failWith (report : String) (world : World) :
    Comes log world (.status 1, "") ((failWith World.host report).run world) :=
  .afterWriting (.writeDiagnostics report) (.pure rfl _)

theorem comes_reportFailure (job : Job) (heading account : String) (world : World) :
    Comes job.log world (.status 1, "")
      ((reportFailure World.host job heading account).run world) := by
  apply Comes.afterWriting (.writeDiagnostics _)
  split
  · exact comes_failWith _ _
  · exact .pure rfl _

theorem comes_parseText (job : Job) (settings : Settings) (text : List Char) (world : World) :
    Comes job.log world (parseVerdict settings text)
      ((parseText World.host job settings text).run world) := by
  unfold parseText parseVerdict
  cases readText text settings.keepComments settings.maxDepth with
  | error error =>
      dsimp only
      cases excessDigits? error with
      | some count => exact .pure rfl world
      | none => exact comes_reportFailure job _ _ world
  | ok forms =>
      dsimp only
      cases Record.encodeLines (forms.map .token) with
      | error fault => exact comes_reportFailure job _ _ world
      | ok lines =>
          have hEnd : Comes job.log { world with output := world.output ++ lines.text }
              (.status 0, "") ((afterWriting (note World.host job s!"Wrote {lines.count} forms")
                (Pure.pure (Exit.status 0))).run
                  { world with output := world.output ++ lines.text }) :=
            .afterWriting (World.Notes.note job _) (.pure rfl _)
          refine ⟨fun hNot => ?_, fun ⟨hFile, hDiagnostics⟩ => hEnd.taken ⟨hFile, hDiagnostics⟩,
            hEnd.tree⟩
          obtain ⟨hExit, hOutput⟩ := hEnd.written hNot
          exact ⟨hExit, hOutput.trans String.append_empty⟩

/-- Taking the text from the standard input does not change what a run comes to. -/
theorem Comes.of_taken {verdict : Verdict} (path : String)
    (h : Comes log (world.taken path) verdict result) : Comes log world verdict result := by
  unfold World.taken at h
  split at h
  · exact ⟨h.written, fun ⟨hFile, hDiagnostics⟩ => h.taken ⟨hFile, hDiagnostics⟩, h.tree⟩
  · exact h

/-- What a run comes to once the settings are there. -/
theorem comes_readSource (job : Job) (path : String) (settings : Settings) (noted : World) :
    Comes job.log noted (verdict (.ok settings) (noted.source path))
      ((do
        match ← readSource World.host path with
        | .error (.file .nullCharacter) => return .breakdown .nullCharacter
        | .error .tooLong => return .breakdown .noMemory
        | .error fault => failWith World.host s!"Error: {fault.message path}\n"
        | .ok text =>
          afterWriting (note World.host job s!"Read {text.length} characters from {path}")
            (parseText World.host job settings text) : StateM World Exit).run noted) := by
  apply Comes.of_taken path
  rw [World.run_bind_of_run (run_readSource noted path)]
  cases noted.source path with
  | error fault =>
      cases fault with
      | encoding fault => exact comes_failWith _ _
      | tooLong => exact .pure rfl _
      | file fault =>
          cases fault with
          | nullCharacter => exact .pure rfl _
          | _ => exact comes_failWith _ _
  | ok text =>
      exact .afterWriting (World.Notes.note job _) (comes_parseText job settings text _)

/-- The settings are found before anything is noted, and the text is found after the settings have
been. -/
theorem comes_readPath (job : Job) (path : String) (world : World) :
    ∃ noted, World.Noted job.log world noted ∧
      Comes job.log world
        (verdict (world.settings (some (world.settingsStart path))) (noted.source path))
        ((readPath World.host job path).run world) := by
  unfold readPath
  rw [World.asks_workingDirectory.run_bind]
  dsimp only
  rw [(Settings.asks_load _).run_bind, ← World.settingsStart]
  cases world.settings (some (world.settingsStart path)) with
  | error fault => exact ⟨world, .refl world, comes_failWith _ world⟩
  | ok settings =>
      refine ⟨((noteSettings World.host job settings).run world).2,
        (World.Notes.noteSettings job settings).noted world, ?_⟩
      exact .afterWriting (World.Notes.noteSettings job settings)
        (comes_readSource job path settings _)

end CommandLine

end LispReader
