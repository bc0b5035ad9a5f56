import LispReader.CommandLine.Run
import LispReader.Proofs.Record.Lines
import LispReader.Proofs.Settings.Load

/-!
Reading a file or the standard input from the command line. If the path is taken for the value of
its switch, the settings are there, the text is there and it is read, then the run ends well and has
written the forms, one to a line. Everything else is known before the first line is written, so any
other run ends otherwise and has written nothing.
-/

namespace LispReader

open CommandLine Record

namespace World

/-- The path from which the settings for a path are searched for. -/
def settingsStart (world : World) (path : String) : String :=
  if path = standardInput then world.directory.toString else path

/-- The bytes of a file, or of the standard input. -/
def bytes (world : World) (path : String) : Except FileFault (List UInt8) :=
  if path = standardInput then .ok world.input else world.tree.read world.directory path

/-- The text that a path stands for. -/
def source (world : World) (path : String) : Except SourceFault (List Char) :=
  match world.bytes path with
  | .error fault => .error (.file fault)
  | .ok bytes => sourceOfBytes bytes

/-- A text that is there can be held. -/
theorem length_le_of_source {world : World} {path : String} {text : List Char}
    (hSource : world.source path = .ok text) : text.length ≤ Text.lengthLimit := by
  unfold source at hSource
  split at hSource
  · cases hSource
  · unfold sourceOfBytes at hSource
    split at hSource
    · cases hSource
    · dsimp only at hSource
      split at hSource
      · cases hSource
      · next hLength =>
          cases hSource
          exact Nat.le_of_not_lt hLength

/-- A path stands for a text that is read to forms, by the settings for the path. -/
def Reads (world : World) (path : String) (text : List Char) (forms : List Form) : Prop :=
  ∃ settings, world.settings (some (world.settingsStart path)) = .ok settings ∧
    world.source path = .ok text ∧
      readText text settings.keepComments settings.maxDepth = .ok forms

/-- What is left when a text has been taken. -/
def taken (world : World) (path : String) : World :=
  if path = standardInput then { world with input := [] } else world

@[simp]
theorem output_writeDiagnostics (world : World) (text : String) :
    (world.writeDiagnostics text).2.output = world.output := by
  unfold writeDiagnostics
  split <;> rfl

@[simp]
theorem output_taken (world : World) (path : String) :
    (world.taken path).output = world.output := by
  unfold taken
  split <;> rfl

end World

namespace CommandLine

open World (Asks)

/-- A job without diagnostics. -/
def Job.silent (path : String) : Job :=
  { input := some path, verbose := false, log := none }

/-- A run ends well, and what it has written is a text. -/
structure Writes (world : World) (text : String) (result : Exit × World) : Prop where
  exit : result.1 = .status 0
  output : result.2.output = world.output ++ text

/-- A run does not end well, and has written nothing. -/
structure Fails (world : World) (result : Exit × World) : Prop where
  exit : result.1 ≠ .status 0
  output : result.2.output = world.output

theorem Exit.status_succ_ne (code : Nat) : Exit.status (code + 1) ≠ .status 0 := by
  simp

theorem Exit.breakdown_ne (breakdown : Breakdown) : Exit.breakdown breakdown ≠ .status 0 := by
  simp

variable {world : World} {path : String} {text : List Char} {settings : Settings}
  {forms : List Form}

/-- Nothing is noted for such a job. -/
theorem noteSettings_silent (path : String) (settings : Settings) :
    noteSettings World.host (.silent path) settings = pure (.ok ()) := by
  have hKeys (message : String → String) (keys : List String) :
      keys.forM (fun key => ExceptT.mk (note World.host (.silent path) (message key))) =
        pure () := by
    induction keys with
    | nil => rfl
    | cons key rest ih => exact ih
  unfold noteSettings
  cases settings.path with
  | none => rfl
  | some file => exact hKeys _ settings.unknownKeys

theorem afterWriting_pure (next : StateM World Exit) :
    afterWriting (pure (.ok ())) next = next := by
  rw [afterWriting, pure_bind]

/-- A failure that is reported leaves nothing written, whether or not the report is taken. -/
theorem fails_failWith (report : String) (world : World) :
    Fails world ((failWith World.host report).run world) := by
  unfold failWith afterWriting
  have hRun : (World.host.writeDiagnostics report).run world = world.writeDiagnostics report := rfl
  cases hWritten : world.writeDiagnostics report with
  | mk outcome later =>
      have hOutput : later.output = world.output := by
        rw [← world.output_writeDiagnostics report, hWritten]
      rw [World.run_bind_of_run (hRun.trans hWritten)]
      cases outcome with
      | ok _ => exact ⟨Exit.status_succ_ne 0, hOutput⟩
      | error fault => exact ⟨Exit.breakdown_ne _, hOutput⟩

/-- Reading a text asks for it, and takes it from the standard input. -/
theorem run_readSource (world : World) (path : String) :
    (readSource World.host path).run world = (world.source path, world.taken path) := by
  unfold readSource World.source World.bytes World.taken
  split
  · have hInput : (Except.ok <$> World.host.readInput).run world =
        ((.ok world.input : Except FileFault _), { world with input := [] }) := rfl
    rw [World.run_bind_of_run hInput]
    rfl
  · rw [(World.asks_readFile path).run_bind]
    cases world.tree.read world.directory path <;> rfl

/-- A text that is read has its forms written, one to a line. -/
theorem writes_parseText (job : String) (world : World)
    (hRead : readText text settings.keepComments settings.maxDepth = .ok forms)
    (hLength : text.length ≤ Text.lengthLimit) :
    ∃ lines, List.Forall₂ LineOf forms lines ∧
      Writes world (unlines lines)
        ((parseText World.host (.silent job) settings text).run world) := by
  have hShort : text.length < 10 ^ Decimal.digitLimit := by
    have hDigits : (10 : Nat) ^ 19 ≤ 10 ^ Decimal.digitLimit :=
      Nat.pow_le_pow_right (by decide) (by decide)
    unfold Text.lengthLimit at hLength
    omega
  obtain ⟨lines, hWritten, hLines⟩ := exists_encodeLines_of_readText hRead hShort
  refine ⟨lines, hLines, ?_⟩
  simp only [parseText, hRead, hWritten]
  exact ⟨rfl, rfl⟩

/-- A text that is not read has nothing written. -/
theorem fails_parseText (job : String) (world : World) {error : ReadError}
    (hRead : readText text settings.keepComments settings.maxDepth = .error error) :
    Fails world ((parseText World.host (.silent job) settings text).run world) := by
  simp only [parseText, hRead]
  cases excessDigits? error with
  | some count => exact ⟨Exit.breakdown_ne _, rfl⟩
  | none => exact fails_failWith _ world

/-- With the settings there, the text is taken and read. -/
theorem run_readPath_of_settings
    (hSettings : world.settings (some (world.settingsStart path)) = .ok settings) :
    (readPath World.host (.silent path) path).run world =
      (match world.source path with
        | .error (.file .nullCharacter) => return .breakdown .nullCharacter
        | .error .tooLong => return .breakdown .noMemory
        | .error fault => failWith World.host s!"Error: {fault.message path}\n"
        | .ok text => parseText World.host (.silent path) settings text :
          StateM World Exit).run (world.taken path) := by
  simp only [World.settingsStart] at hSettings
  simp only [readPath, World.asks_workingDirectory.run_bind, (Settings.asks_load _).run_bind,
    hSettings, noteSettings_silent, afterWriting_pure]
  rw [World.run_bind_of_run (run_readSource world path)]
  rfl

theorem writes_readPath (hReads : world.Reads path text forms) :
    ∃ lines, List.Forall₂ LineOf forms lines ∧
      Writes world (unlines lines) ((readPath World.host (.silent path) path).run world) := by
  obtain ⟨settings, hSettings, hSource, hRead⟩ := hReads
  obtain ⟨lines, hLines, hExit, hOutput⟩ := writes_parseText path (world.taken path) hRead
    (World.length_le_of_source hSource)
  rw [World.output_taken] at hOutput
  rw [run_readPath_of_settings hSettings, hSource]
  exact ⟨lines, hLines, hExit, hOutput⟩

theorem fails_readPath (hNot : ¬ ∃ text forms, world.Reads path text forms) :
    Fails world ((readPath World.host (.silent path) path).run world) := by
  cases hSettings : world.settings (some (world.settingsStart path)) with
  | error fault =>
      simp only [World.settingsStart] at hSettings
      simp only [readPath, World.asks_workingDirectory.run_bind, (Settings.asks_load _).run_bind,
        hSettings]
      exact fails_failWith _ world
  | ok settings =>
      rw [run_readPath_of_settings hSettings]
      cases hSource : world.source path with
      | error fault =>
          split
          · exact ⟨Exit.breakdown_ne _, world.output_taken path⟩
          · exact ⟨Exit.breakdown_ne _, world.output_taken path⟩
          · obtain ⟨hExit, hOutput⟩ := fails_failWith _ (world.taken path)
            exact ⟨hExit, hOutput.trans (world.output_taken path)⟩
          · next hText => cases hText
      | ok text =>
          cases hRead : readText text settings.keepComments settings.maxDepth with
          | ok forms => exact absurd ⟨text, forms, settings, hSettings, hSource, hRead⟩ hNot
          | error error =>
              obtain ⟨hExit, hOutput⟩ := fails_parseText path (world.taken path) hRead
              exact ⟨hExit, hOutput.trans (world.output_taken path)⟩

/-- A path is taken for the value of the switch in front of it. -/
def TakesInput (path : String) : Prop :=
  Request.ofArguments ["parse", "--input", path] = .parse (.silent path)

instance (path : String) : Decidable (TakesInput path) :=
  inferInstanceAs (Decidable (_ = _))

theorem classifyAll_cons {switches : List Switch} {argument : String} {word : Word}
    (hWord : classify switches argument = .ok word) (hMark : argument ≠ terminator)
    (rest : List String) :
    classifyAll switches (argument :: rest) =
      ((argument, word) :: ·) <$> classifyAll switches rest := by
  rw [classifyAll, if_neg hMark, hWord]
  rfl

theorem classifyAll_singleton (switches : List Switch) (argument : String) :
    (∃ ambiguity, classifyAll switches [argument] = .error ambiguity) ∨
      ∃ word, classifyAll switches [argument] = .ok [(argument, word)] := by
  by_cases hMark : argument = terminator
  · rw [classifyAll, if_pos hMark]
    exact .inr ⟨.terminator, rfl⟩
  · rw [classifyAll, if_neg hMark]
    cases classify switches argument with
    | error ambiguity => exact .inl ⟨ambiguity, rfl⟩
    | ok word => exact .inr ⟨word, rfl⟩

section

variable {path : String} {before : Word}

/-- In front of the command, the path may be ambiguous. -/
theorem ofArguments_of_ambiguous {ambiguity : Ambiguity}
    (hBefore : classifyAll Screen.main.switches [path] = .error ambiguity) :
    Request.ofArguments ["parse", "--input", path] = .complaint .main (.ambiguous ambiguity) := by
  have hCommand : classify Screen.main.switches "parse" = .ok .operand := rfl
  have hUnknown : classify Screen.main.switches "--input" = .ok .unknown := rfl
  rw [Request.ofArguments, classifyAll_cons hCommand (by decide),
    classifyAll_cons hUnknown (by decide), hBefore]
  rfl

/-- If it is not, all arguments behind the command are left to the command. -/
theorem ofArguments_eq_ofSteps
    (hBefore : classifyAll Screen.main.switches [path] = .ok [(path, before)]) :
    Request.ofArguments ["parse", "--input", path] =
      Request.ofSteps false none []
        (.operand "parse" ["--input", path] ::
          steps Screen.main.switches [("--input", .unknown), (path, before)]) := by
  have hCommand : classify Screen.main.switches "parse" = .ok .operand := rfl
  have hUnknown : classify Screen.main.switches "--input" = .ok .unknown := rfl
  have hMain : classifyAll Screen.main.switches ["parse", "--input", path] =
      .ok [("parse", .operand), ("--input", .unknown), (path, before)] := by
    rw [classifyAll_cons hCommand (by decide), classifyAll_cons hUnknown (by decide), hBefore]
    rfl
  rw [Request.ofArguments, hMain]
  dsimp only
  rw [steps]
  rfl

/-- Behind the command, the path may be ambiguous too. -/
theorem ofArguments_of_ambiguous_value {ambiguity : Ambiguity}
    (hBefore : classifyAll Screen.main.switches [path] = .ok [(path, before)])
    (hValue : classifyAll Screen.parse.switches [path] = .error ambiguity) :
    Request.ofArguments ["parse", "--input", path] = .complaint .parse (.ambiguous ambiguity) := by
  have hSwitch : classify Screen.parse.switches "--input" = .ok (.switch .input true none) := rfl
  have hName : "parse" = parseName := rfl
  rw [ofArguments_eq_ofSteps hBefore, Request.ofSteps, if_pos hName,
    classifyAll_cons hSwitch (by decide), hValue]
  rfl

/-- Otherwise the switch has the path for its value if the path is taken for an operand, and none if
it is not. -/
theorem ofArguments_of_value {word : Word}
    (hBefore : classifyAll Screen.main.switches [path] = .ok [(path, before)])
    (hValue : classifyAll Screen.parse.switches [path] = .ok [(path, word)]) :
    Request.ofArguments ["parse", "--input", path] =
      if word = .operand then .parse (.silent path)
      else .complaint .parse (.misuse (.expectedArgument .input)) := by
  have hSwitch : classify Screen.parse.switches "--input" = .ok (.switch .input true none) := rfl
  have hName : "parse" = parseName := rfl
  have hSteps : Request.ofArguments ["parse", "--input", path] =
      Request.ofCommand false none none [] (steps Screen.parse.switches
        [("--input", .switch .input true none), (path, word)]) := by
    rw [ofArguments_eq_ofSteps hBefore, Request.ofSteps, if_pos hName,
      classifyAll_cons hSwitch (by decide), hValue]
    rfl
  rw [hSteps, steps]
  simp only [Bundle.ofSwitch, Bundle.single, Switch.takesValue]
  cases word with
  | operand => simp [flagSteps, steps, Request.ofCommand, Job.silent]
  | terminator | unknown | switch => simp [Request.ofCommand]

end

/-- A path is taken for the value of its switch, or else the command line is complained of. -/
theorem takesInput_or_complaint (path : String) :
    TakesInput path ∨
      ∃ screen fault, Request.ofArguments ["parse", "--input", path] = .complaint screen fault := by
  obtain ⟨ambiguity, hBefore⟩ | ⟨before, hBefore⟩ :=
    classifyAll_singleton Screen.main.switches path
  · exact .inr ⟨_, _, ofArguments_of_ambiguous hBefore⟩
  · obtain ⟨ambiguity, hValue⟩ | ⟨word, hValue⟩ := classifyAll_singleton Screen.parse.switches path
    · exact .inr ⟨_, _, ofArguments_of_ambiguous_value hBefore hValue⟩
    · have hRequest := ofArguments_of_value hBefore hValue
      by_cases hWord : word = .operand
      · rw [if_pos hWord] at hRequest
        exact .inl hRequest
      · rw [if_neg hWord] at hRequest
        exact .inr ⟨_, _, hRequest⟩

/-- A path that does not begin with a dash is taken for the value of its switch, and so is the dash
of the standard input. -/
theorem takesInput {path : String} (h : path = standardInput ∨ path.toList.head? ≠ some '-') :
    TakesInput path := by
  have hMark : path ≠ terminator := by
    rintro rfl
    obtain hInput | hDash := h
    · exact absurd hInput (by decide)
    · exact hDash rfl
  have hOperand (switches : List Switch) (hNone : (spelled switches).lookup standardInput = none) :
      classifyAll switches [path] = .ok [(path, .operand)] := by
    have hWord : classify switches path = .ok .operand := by
      obtain rfl | hDash := h
      · simp only [classify, hNone]
        rfl
      · rw [classify, if_pos hDash]
    rw [classifyAll_cons hWord hMark]
    rfl
  exact ofArguments_of_value (hOperand Screen.main.switches rfl)
    (hOperand Screen.parse.switches rfl)

theorem run_of_takesInput (h : TakesInput path) :
    run World.host ["parse", "--input", path] = readPath World.host (.silent path) path := by
  rw [run, h]
  rfl

theorem fails_of_not_takesInput (h : ¬ TakesInput path) (world : World) :
    Fails world ((run World.host ["parse", "--input", path]).run world) := by
  obtain ⟨screen, fault, hRequest⟩ := (takesInput_or_complaint path).resolve_left h
  rw [run, hRequest]
  exact ⟨Exit.status_succ_ne 1, world.output_writeDiagnostics _⟩

end CommandLine

end LispReader
