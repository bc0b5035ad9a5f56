import LispReader.Proofs.CommandLine.Flags
import LispReader.Proofs.CommandLine.Noting
import LispReader.Proofs.Settings.Apart

/-!
Diagnostics have no part in the result, as long as they are taken where they go. Where the log is
neither the input nor a settings file by its name, the settings and the text are found as they are
found without it, or are missing as they are without it. So the verdict is the same.
-/

namespace LispReader

open CommandLine

namespace CommandLine

/-- Settings that are there on one side only would make a difference; reasons for there being none
do not. -/
theorem verdict_congr {settings settings' : Except SettingsFault Settings}
    (h : ∀ found, settings = .ok found ↔ settings' = .ok found)
    (source : Except SourceFault (List Char)) :
    verdict settings source = verdict settings' source := by
  cases settings with
  | ok found => rw [(h found).mp rfl]
  | error fault =>
      cases settings' with
      | ok found => cases (h found).mpr rfl
      | error fault' => rfl

theorem verdict_of_absent {fault : FileFault} (h : fault ≠ .nullCharacter)
    (settings : Except SettingsFault Settings) :
    verdict settings (.error (.file fault)) = (.status 1, "") := by
  cases settings with
  | error other => rfl
  | ok found =>
      cases fault with
      | nullCharacter => exact absurd rfl h
      | _ => rfl

section

variable {place : List String} {other : World} {path : String}
  (h : World.AgreeBut place world other)
  (hPath : path ≠ standardInput → world.tree.resolve world.directory path ≠ .ok place)
include h hPath

/-- A file that is not the one to be read does not change what there is to be read. -/
theorem verdict_source (settings : Except SettingsFault Settings) :
    verdict settings (other.source path) = verdict settings (world.source path) := by
  by_cases hInput : path = standardInput
  · simp only [World.source, World.bytes, if_pos hInput, h.input]
  · have hRead := h.read (hPath hInput)
    simp only [World.source, World.bytes, if_neg hInput]
    generalize world.tree.read _ _ = answer at hRead
    generalize other.tree.read _ _ = answer' at hRead
    cases hRead with
    | same => rfl
    | absent hNull hNull' => rw [verdict_of_absent hNull, verdict_of_absent hNull']

/-- Nor does it change what the settings are, if it has not the name of a settings file. -/
theorem verdict_settings (hPlace : place.getLast? ≠ some Settings.fileName) (hNotRoot : place ≠ [])
    (source : Except SourceFault (List Char)) :
    verdict (other.settings (some (other.settingsStart path))) source =
      verdict (world.settings (some (world.settingsStart path))) source := by
  have hStart : world.tree.resolve world.directory (world.settingsStart path) = .ok place →
      (world.settingsStart path).toList.head? = some '/' := by
    unfold World.settingsStart
    split
    · exact fun _ => AbsolutePath.head?_toString _
    · next hInput => exact fun hResolve => absurd hResolve (hPath hInput)
  have hSame : other.settingsStart path = world.settingsStart path := by
    rw [World.settingsStart, h.directory, World.settingsStart]
  rw [hSame]
  exact verdict_congr (fun _ => (h.settings_eq_ok_iff hPlace hStart hNotRoot).symm) source

end

end CommandLine

namespace World

/-- What a request comes to, wherever its diagnostics go. -/
def verdictOn (world : World) : Request → Verdict
  | .help screen => (.status 0, screen.help)
  | .version => (.status 0, versionText)
  | .nothing => (.status 1, "")
  | .complaint _ _ => (.status 2, "")
  | .parse job =>
    match job.input with
    | none => (.breakdown .noPath, "")
    | some path => verdict (world.settings (some (world.settingsStart path))) (world.source path)

theorem verdictOn_withDiagnostics (world : World) (verbose : Bool) (log : Option String)
    (request : Request) :
    world.verdictOn (request.withDiagnostics verbose log) = world.verdictOn request := by
  cases request <;> rfl

/-- A file can be appended to, and nothing is read from it: it is not the input, and it has not the
name of a settings file. -/
structure SetAside (world : World) (input : Option String) (file : String) : Prop where
  opens : (world.openLog file).1 = .ok ()
  notInput : ∀ path place, input = some path → path ≠ standardInput →
    world.tree.resolve world.directory path = .ok place →
    world.tree.resolveForAppending world.directory file ≠ .ok place
  notSettings : Path.baseName file ≠ Settings.fileName

section

variable {world later : World} {file : String} {input : Option String}

/-- A file that can be appended to is set aside if the input leads elsewhere. -/
theorem setAside_of_appendable {parent place : List String} {path : String}
    (h : world.tree.Appendable world.directory file parent)
    (hPlace : parent ++ [Path.baseName file] ≠ place)
    (hPath : world.tree.resolve world.directory path = .ok place)
    (hName : Path.baseName file ≠ Settings.fileName) : world.SetAside (some path) file := by
  have hFile : world.tree.resolveForAppending world.directory file =
      .ok (parent ++ [Path.baseName file]) :=
    FileTree.resolveForAppending_eq_ok_iff.mpr ⟨parent, h, rfl⟩
  refine ⟨?_, ?_, hName⟩
  · unfold openLog
    rw [hFile]
    dsimp only
    split <;> rfl
  · rintro _ place' ⟨⟩ - hResolve hSame
    cases hPath.symm.trans hResolve
    exact hPlace (Except.ok.inj (hFile.symm.trans hSame))

theorem SetAside.exists_place (h : world.SetAside input file) :
    ∃ place, world.tree.resolveForAppending world.directory file = .ok place := by
  have hOpens := h.opens
  unfold openLog at hOpens
  cases hPlace : world.tree.resolveForAppending world.directory file with
  | ok place => exact ⟨place, rfl⟩
  | error fault =>
      rw [hPlace] at hOpens
      cases hOpens

theorem SetAside.ne_empty (h : world.SetAside input file) : file ≠ "" := by
  rintro rfl
  obtain ⟨place, hPlace⟩ := h.exists_place
  obtain ⟨parent, hAppendable, -⟩ := FileTree.resolveForAppending_eq_ok_iff.mp hPlace
  exact hAppendable.isName (by decide)

theorem Noted.agreeBut {place : List String} (h : Noted (some file) world later)
    (hPlace : world.tree.resolveForAppending world.directory file = .ok place) :
    AgreeBut place world later := by
  refine ⟨?_, h.directory, h.input⟩
  rcases h.tree with hSame | ⟨file', place', hFile, hPlace', hAppended⟩
  · obtain ⟨parent, hAppendable, rfl⟩ := FileTree.resolveForAppending_eq_ok_iff.mp hPlace
    rw [hSame]
    exact ⟨fun _ _ => rfl, hAppendable.noDirectory, hAppendable.noDirectory⟩
  · cases hFile
    cases hPlace.symm.trans hPlace'
    exact hAppended.agreeBut

/-- Without a log, noting changes no text. -/
theorem Noted.source_eq (h : Noted none world later) (path : String) :
    later.source path = world.source path := by
  rcases h.tree with hTree | ⟨file, place, hFile, -⟩
  · simp only [source, bytes, hTree, h.directory, h.input]
  · cases hFile

/-- Noting in a file that is set aside does not change the verdict on a path, whether it comes
before the settings are found or after that. -/
theorem SetAside.verdict_eq {path : String} {noted : World} (h : world.SetAside (some path) file)
    (hLater : Noted (some file) world later) (hNoted : Noted (some file) world noted) :
    verdict (later.settings (some (later.settingsStart path))) (noted.source path) =
      verdict (world.settings (some (world.settingsStart path))) (world.source path) := by
  obtain ⟨place, hPlace⟩ := h.exists_place
  have hInput : path ≠ standardInput → world.tree.resolve world.directory path ≠ .ok place :=
    fun hPath hResolve => h.notInput path place rfl hPath hResolve hPlace
  obtain ⟨parent, -, hName⟩ := FileTree.resolveForAppending_eq_ok_iff.mp hPlace
  have hLast : place.getLast? ≠ some Settings.fileName := by
    rw [hName, List.getLast?_concat]
    exact fun hSame => h.notSettings (Option.some.inj hSame)
  have hNotRoot : place ≠ [] := by
    rw [hName]
    exact List.append_ne_nil_of_right_ne_nil _ (List.cons_ne_nil _ _)
  rw [verdict_settings (hLater.agreeBut hPlace) hInput hLast hNotRoot,
    verdict_source (hNoted.agreeBut hPlace) hInput]

end

end World

namespace CommandLine

/-- A run for a job, from a world in which its log has been opened. -/
theorem comes_runJob (job : Job) {world opened : World}
    (hOpened : World.Noted job.log world opened) :
    ∃ noted, World.Noted job.log world noted ∧
      Comes job.log world
        (match job.input with
          | none => (.breakdown .noPath, "")
          | some path =>
            verdict (opened.settings (some (opened.settingsStart path))) (noted.source path))
        ((runJob World.host job).run opened) := by
  unfold runJob
  cases job.input with
  | none => exact ⟨opened, hOpened, .after hOpened (.pure rfl opened)⟩
  | some path =>
      obtain ⟨noted, hNoted, hComes⟩ := comes_readPath job path opened
      exact ⟨noted, hOpened.trans hNoted, .after hOpened hComes⟩

/-- Without a log, a run for a job comes to the verdict on the world. -/
theorem comes_runJob_of_no_log (input : Option String) (verbose : Bool) (world : World) :
    Comes none world (world.verdictOn (.parse ⟨input, verbose, none⟩))
      ((runJob World.host ⟨input, verbose, none⟩).run world) := by
  obtain ⟨noted, hNoted, hComes⟩ := comes_runJob ⟨input, verbose, none⟩ (.refl world)
  cases input with
  | none => exact hComes
  | some path =>
      dsimp only at hComes
      rw [hNoted.source_eq path] at hComes
      exact hComes

/-- So it does with a log that is set aside, after the log has been opened. -/
theorem comes_runJob_of_setAside {input : Option String} {file : String} (verbose : Bool)
    (h : world.SetAside input file) :
    Comes (some file) world (world.verdictOn (.parse ⟨input, verbose, some file⟩))
      ((runJob World.host ⟨input, verbose, some file⟩).run (world.openLog file).2) := by
  have hOpened : World.Noted (some file) world (world.openLog file).2 := .openLog world file
  obtain ⟨noted, hNoted, hComes⟩ := comes_runJob ⟨input, verbose, some file⟩ hOpened
  cases input with
  | none => exact hComes
  | some path =>
      dsimp only at hComes
      rw [h.verdict_eq hOpened hNoted] at hComes
      exact hComes

/-- A log that can be opened is opened first. -/
theorem run_runLogged {file : String} {world : World} (h : (world.openLog file).1 = .ok ())
    (input : Option String) (verbose : Bool) :
    (runLogged World.host ⟨input, verbose, some file⟩).run world =
      (runJob World.host ⟨input, verbose, some file⟩).run (world.openLog file).2 := by
  have hOpen : (World.host.openLog file).run world = (.ok (), (world.openLog file).2) :=
    Prod.ext h rfl
  unfold runLogged
  dsimp only
  rw [World.run_bind_of_run hOpen]

/-- Help and complaints come to their status, whether or not they are taken. -/
theorem comes_discard {log : Option String} (text : String) (code : Nat) (world : World) :
    Comes log world (.status code, "") ((do
      discard (World.host.writeDiagnostics text)
      return .status code : StateM World Exit).run world) := by
  have hNoted : World.Noted log world ((World.host.writeDiagnostics text).run world).2 :=
    (World.Notes.writeDiagnostics text).noted world
  exact .after hNoted (.pure rfl _)

/-- A run without a log, or with one that is set aside, comes to the verdict on the world. -/
theorem comes_runRequest {request : Request} {world : World}
    (hLog : ∀ file, request.log? = some file → world.SetAside request.input? file) :
    Comes request.log? world (world.verdictOn request)
      ((runRequest World.host request).run world) := by
  cases request with
  | help screen => exact ⟨fun _ => ⟨rfl, rfl⟩, fun _ => rfl, .refl _⟩
  | version => exact ⟨fun _ => ⟨rfl, rfl⟩, fun _ => rfl, .refl _⟩
  | nothing => exact comes_discard _ _ world
  | complaint screen fault => exact comes_discard _ _ world
  | parse job =>
      obtain ⟨input, verbose, log⟩ := job
      cases log with
      | none => exact comes_runJob_of_no_log input verbose world
      | some file =>
          have hAside : world.SetAside input file := hLog file rfl
          change Comes _ _ _ ((runLogged World.host ⟨input, verbose, some file⟩).run world)
          rw [run_runLogged hAside.opens]
          exact comes_runJob_of_setAside verbose hAside

/-- Whatever a run comes to, it changes no file but its log, and it breaks off over no diagnostic if
all texts are taken. -/
theorem exists_comes_runRequest (request : Request) (world : World) :
    ∃ verdict, Comes request.log? world verdict ((runRequest World.host request).run world) := by
  cases request with
  | help | version | nothing | complaint =>
      refine ⟨_, comes_runRequest fun file hFile => ?_⟩
      cases hFile
  | parse job =>
      obtain ⟨input, verbose, log⟩ := job
      cases log with
      | none => exact ⟨_, comes_runJob_of_no_log input verbose world⟩
      | some file =>
          have hOpened : World.Noted (some file) world (world.openLog file).2 := .openLog world file
          change ∃ verdict, Comes (some file) world verdict
            ((runLogged World.host ⟨input, verbose, some file⟩).run world)
          cases hResult : (world.openLog file).1 with
          | ok _ =>
              obtain ⟨noted, -, hComes⟩ := comes_runJob ⟨input, verbose, some file⟩ hOpened
              rw [run_runLogged hResult]
              exact ⟨_, hComes⟩
          | error fault =>
              have hOpen : (World.host.openLog file).run world =
                  (.error fault, (world.openLog file).2) := Prod.ext hResult rfl
              unfold runLogged
              dsimp only
              rw [World.run_bind_of_run hOpen]
              cases fault with
              | nullCharacter => exact ⟨_, .after hOpened (.pure rfl _)⟩
              | _ => exact ⟨_, .after hOpened (comes_failWith _ _)⟩

/-- Flags for diagnostics in front of the command change neither how a run ends nor what it writes,
if their files are taken for values and are set aside, and if neither run breaks off over a
diagnostic; and no run does in a world that takes all texts. No run changes a file but its log, and
what the log has held before stays in front. -/
theorem run_with_flags (world : World) :
    (∀ file, (file.toList.head? ≠ some '-' → TakesLog file) ∧
      (¬ TakesLog file → ∀ arguments, ∃ fault,
        Request.ofArguments ("--log" :: file :: arguments) = .complaint .main fault)) ∧
    (∀ (flags : List Flag) (arguments : List String),
      (∀ file, .log file ∈ flags → TakesLog file ∧
        world.SetAside (Request.ofArguments ("parse" :: arguments)).input? file) →
      let plain := (run World.host ("parse" :: arguments)).run world
      let noted := (run World.host (flags.flatMap Flag.arguments ++ "parse" :: arguments)).run world
      plain.1.isUnwritten = false → noted.1.isUnwritten = false →
        noted.1 = plain.1 ∧ noted.2.output = plain.2.output) ∧
    (world.TakesAll → ∀ arguments : List String,
      ((run World.host arguments).run world).1.isUnwritten = false) ∧
    (∀ (arguments : List String) (place : List String),
      let later := ((run World.host arguments).run world).2.tree
      later.entry? place = world.tree.entry? place ∨
        ∃ file content, (Request.ofArguments arguments).log? = some file ∧
          world.tree.resolveForAppending world.directory file = .ok place ∧
          later.entry? place = some (.file content) ∧
          ∀ old, world.tree.entry? place = some (.file old) → old <+: content) := by
  refine ⟨?_, ?_, ?_, ?_⟩
  · intro file
    exact ⟨takesLog, fun hNot => Request.ofArguments_of_not_takesLog hNot⟩
  · intro flags arguments hFlags plain noted hPlainWritten hNotedWritten
    have hTaken : ∀ file, .log file ∈ flags → TakesLog file ∧ file ≠ "" :=
      fun file hFile => ⟨(hFlags file hFile).1, (hFlags file hFile).2.ne_empty⟩
    obtain ⟨verbose, log, hLog, hRequest⟩ :=
      Request.exists_ofRest_flags hTaken false none arguments
    set request := Request.ofArguments ("parse" :: arguments)
    have hPlain : Comes request.log? world (world.verdictOn request) plain := by
      apply comes_runRequest
      intro file hFile
      cases (Request.log?_ofArguments_parse arguments).symm.trans hFile
    have hNoted : Comes (request.withDiagnostics verbose log).log? world
        (world.verdictOn (request.withDiagnostics verbose log))
        ((runRequest World.host (request.withDiagnostics verbose log)).run world) := by
      apply comes_runRequest
      intro file hFile
      rw [Request.input?_withDiagnostics]
      rcases hLog file (Request.of_log?_withDiagnostics hFile) with hNone | hFlag
      · cases hNone
      · exact (hFlags file hFlag).2
    rw [World.verdictOn_withDiagnostics, ← hRequest] at hNoted
    obtain ⟨hPlainExit, hPlainOutput⟩ := hPlain.written hPlainWritten
    obtain ⟨hNotedExit, hNotedOutput⟩ := hNoted.written hNotedWritten
    exact ⟨hNotedExit.trans hPlainExit.symm, hNotedOutput.trans hPlainOutput.symm⟩
  · intro hTakes arguments
    obtain ⟨verdict, hComes⟩ := exists_comes_runRequest (Request.ofArguments arguments) world
    exact hComes.taken hTakes
  · intro arguments place later
    obtain ⟨verdict, hComes⟩ := exists_comes_runRequest (Request.ofArguments arguments) world
    rcases hComes.tree with
      hSame | ⟨file, place', hFile, hPlace, hElsewhere, -, content, hContent, hGrows⟩
    · exact .inl (congrArg (fun tree => FileTree.entry? tree place) hSame)
    · by_cases hAt : place = place'
      · rw [hAt]
        exact .inr ⟨file, content, hFile, hPlace, hContent, hGrows⟩
      · exact .inl (hElsewhere place hAt)

section

variable {world : World} (hDirectory : world.directory = .root)
  (hRead : world.tree.read .root "p" = .ok [])
  (hFile : world.tree.read .root "/kelp.it" = .error .notFound)
include hDirectory hRead

theorem source_of_empty_text : world.source "p" = .ok [] := by
  have hBytes : world.bytes "p" = .ok [] := by
    rw [World.bytes, if_neg (by decide), hDirectory, hRead]
  rw [World.source, hBytes]
  decide

include hFile

theorem settings_of_empty_text : world.settings (some "p") = .ok {} := by
  apply World.settings_of_root (by decide) _ (by rw [hDirectory]; exact hFile)
  simp only [World.searchStart, World.isFile, hDirectory, hRead]
  decide

theorem run_of_empty_text :
    Writes world "" ((run World.host ["parse", "--input", "p"]).run world) := by
  have hInput : Request.ofArguments ["parse", "--input", "p"] = .parse (.silent "p") := by
    decide +kernel
  have hText : readText [] ({} : Settings).keepComments ({} : Settings).maxDepth = .ok [] := by
    have hScan : scan [] = [] := by decide +kernel
    rw [readText_eq_conclude, hScan]
    rfl
  have hReads : world.Reads "p" [] [] :=
    ⟨{}, settings_of_empty_text hDirectory hRead hFile, source_of_empty_text hDirectory hRead,
      hText⟩
  obtain ⟨lines, hLines, hWrites⟩ := writes_readPath hReads
  cases hLines
  rw [run, hInput]
  exact hWrites

/-- A log that does not take what is said of the text breaks the run off. -/
theorem run_readPath_of_unwritten {file : String} {fault : StreamFault}
    (hFault : (world.appendLog file "Read 0 characters from p\n").1 = .error fault) :
    ((readPath World.host ⟨some "p", false, some file⟩ "p").run world).1 =
      .breakdown (.unwritten fault) := by
  have hSettings : world.settings (some "p") = .ok {} :=
    settings_of_empty_text hDirectory hRead hFile
  have hSource := run_readSource world "p"
  rw [source_of_empty_text hDirectory hRead, World.taken, if_neg (by decide)] at hSource
  have hAppend : (World.host.appendLog file "Read 0 characters from p\n").run world =
      (.error fault, (world.appendLog file "Read 0 characters from p\n").2) := Prod.ext hFault rfl
  have hNote : (note World.host ⟨some "p", false, some file⟩ "Read 0 characters from p").run world =
      (.error fault, (world.appendLog file "Read 0 characters from p\n").2) := by
    unfold note
    dsimp only
    rw [ExceptT.run_bind]
    exact World.run_bind_of_run hAppend _
  have hNone : noteSettings World.host ⟨some "p", false, some file⟩ {} = pure (.ok ()) := rfl
  have hPath : ¬"p" = standardInput := by decide
  simp only [readPath, World.asks_workingDirectory.run_bind, (Settings.asks_load _).run_bind,
    if_neg hPath, hSettings, hNone, afterWriting_pure]
  rw [World.run_bind_of_run hSource]
  change ((afterWriting (note World.host _ "Read 0 characters from p") _).run world).1 = _
  rw [afterWriting, World.run_bind_of_run hNote]
  rfl

end

/-- So does a log that is there, if its device is full. -/
theorem run_of_full_log {fault : StreamFault}
    (hFault : ∀ place content text, world.fileFault? place content text = some (fault, 0))
    (hDirectory : world.directory = .root)
    (hRead : world.tree.read .root "p" = .ok [])
    (hFile : world.tree.read .root "/kelp.it" = .error .notFound)
    (hLog : world.tree.resolveForAppending .root "l" = .ok ["l"])
    (hOpen : world.tree.entry? ["l"] = some (.file [])) :
    ((run World.host ["--log", "l", "parse", "--input", "p"]).run world).1 =
      .breakdown (.unwritten fault) := by
  have hRequest : Request.ofArguments ["--log", "l", "parse", "--input", "p"] =
      .parse ⟨some "p", false, some "l"⟩ := by
    decide +kernel
  have hOpened : world.openLog "l" = (.ok (), world) := by
    simp only [World.openLog, hDirectory, hLog, hOpen]
  have hAppend : (world.appendLog "l" "Read 0 characters from p\n").1 = .error fault := by
    simp only [World.appendLog, hDirectory, hLog, hOpen, hFault]
  rw [run, hRequest]
  change ((runLogged World.host ⟨some "p", false, some "l"⟩).run world).1 = _
  rw [run_runLogged (congrArg Prod.fst hOpened), hOpened]
  exact run_readPath_of_unwritten hDirectory hRead hFile hAppend

theorem run_with_flags_of_empty_text :
    let world : World := { tree := ⟨[(["p"], .file [])]⟩, directory := .root }
    let plain := (run World.host ["parse", "--input", "p"]).run world
    let noted := (run World.host ["-v", "--log", "l", "parse", "--input", "p"]).run world
    plain.1 = .status 0 ∧ plain.2.output = "" ∧ noted.1 = .status 0 ∧ noted.2.output = "" := by
  intro world plain noted
  have hInput : Request.ofArguments ["parse", "--input", "p"] = .parse (.silent "p") := by
    decide +kernel
  have hAppendable : world.tree.Appendable world.directory "l" [] :=
    ⟨FileTree.checkPath_eq_ok_iff.mpr (by decide), by decide +kernel, by decide, by decide,
      by decide, by decide +kernel⟩
  have hResolve : world.tree.resolve world.directory "p" = .ok ["p"] :=
    FileTree.resolve_of_walk (FileTree.checkPath_eq_ok_iff.mpr (by decide)) (by decide +kernel)
  have hRead : world.tree.read .root "p" = .ok [] := by
    rw [FileTree.read_of_checkPath _ _ (FileTree.checkPath_eq_ok_iff.2 (by decide))]
    decide +kernel
  have hFile : world.tree.read .root "/kelp.it" = .error .notFound := by
    rw [FileTree.read_of_checkPath _ _ (FileTree.checkPath_eq_ok_iff.2 (by decide))]
    decide +kernel
  obtain ⟨hExit, hOutput⟩ := run_of_empty_text rfl hRead hFile
  obtain ⟨hTakes, hRun, hTaken, -⟩ := run_with_flags world
  have hAll : world.TakesAll := ⟨fun _ _ _ => rfl, fun _ _ => rfl⟩
  obtain ⟨hSameExit, hSameOutput⟩ := hRun [.verbose, .log "l"] ["--input", "p"]
    (by
      intro file hFlag
      obtain rfl : file = "l" := by simpa using hFlag
      rw [hInput]
      exact ⟨(hTakes "l").1 (by decide),
        World.setAside_of_appendable hAppendable (by decide) hResolve (by decide)⟩)
    (hTaken hAll _) (hTaken hAll _)
  exact ⟨hExit, hOutput, hSameExit.trans hExit, hSameOutput.trans hOutput⟩

/-- A file whose name begins with a dash is not taken for the value of its switch, although it can
be appended to. And a file that can be appended to need not take what is written: on a full device,
the notes break a run off that ends well without them. -/
theorem run_with_flags_of_unfit_log :
    let world : World := { tree := ⟨[(["p"], .file []), (["l"], .file [])]⟩, directory := .root }
    let fault : StreamFault := .system 28 "No space left on device"
    let full : World := { world with fileFault? := fun _ _ _ => some (fault, 0) }
    (world.SetAside (some "p") "-x" ∧
      ((run World.host ["parse", "--input", "p"]).run world).1 = .status 0 ∧
      ((run World.host ["--log", "-x", "parse", "--input", "p"]).run world).1 = .status 2) ∧
    TakesLog "l" ∧ full.SetAside (some "p") "l" ∧
      ((run World.host ["parse", "--input", "p"]).run full).1 = .status 0 ∧
      ((run World.host ["--log", "l", "parse", "--input", "p"]).run full).1 =
        .breakdown (.unwritten fault) := by
  intro world fault full
  have hDashed : world.tree.Appendable .root "-x" [] :=
    ⟨FileTree.checkPath_eq_ok_iff.mpr (by decide), by decide +kernel, by decide, by decide,
      by decide, by decide +kernel⟩
  have hFullLog : full.tree.Appendable full.directory "l" [] :=
    ⟨FileTree.checkPath_eq_ok_iff.mpr (by decide), by decide +kernel, by decide, by decide,
      by decide, by decide +kernel⟩
  have hResolve : world.tree.resolve .root "p" = .ok ["p"] :=
    FileTree.resolve_of_walk (FileTree.checkPath_eq_ok_iff.mpr (by decide)) (by decide +kernel)
  have hRead : world.tree.read .root "p" = .ok [] := by
    rw [FileTree.read_of_checkPath _ _ (FileTree.checkPath_eq_ok_iff.2 (by decide))]
    decide +kernel
  have hFile : world.tree.read .root "/kelp.it" = .error .notFound := by
    rw [FileTree.read_of_checkPath _ _ (FileTree.checkPath_eq_ok_iff.2 (by decide))]
    decide +kernel
  have hPlain : Writes full "" ((run World.host ["parse", "--input", "p"]).run full) :=
    run_of_empty_text rfl hRead hFile
  refine ⟨⟨?_, (run_of_empty_text rfl hRead hFile).exit, ?_⟩, takesLog (by decide), ?_,
    hPlain.exit, ?_⟩
  · exact World.setAside_of_appendable hDashed (by decide) hResolve (by decide)
  · have hRequest : Request.ofArguments ["--log", "-x", "parse", "--input", "p"] =
        .complaint .main (.misuse (.expectedArgument .log)) := by
      decide +kernel
    rw [run, hRequest]
    rfl
  · exact World.setAside_of_appendable hFullLog (by decide) hResolve (by decide)
  · have hLogged : full.tree.resolveForAppending .root "l" = .ok ["l"] :=
      FileTree.resolveForAppending_eq_ok_iff.mpr ⟨[], hFullLog, rfl⟩
    exact run_of_full_log (fun _ _ _ => rfl) rfl hRead hFile hLogged (by decide +kernel)

end CommandLine

end LispReader
