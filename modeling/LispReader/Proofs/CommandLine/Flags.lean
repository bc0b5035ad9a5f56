import LispReader.Proofs.CommandLine.Parse

/-!
Flags for diagnostics in front of the command. They say where diagnostics go, and nothing else of
what is asked for depends on them.
-/

namespace LispReader.CommandLine

/-- A flag for diagnostics: to show them, or to append them to a file. -/
inductive Flag where
  | verbose
  | log (file : String)
  deriving Repr, DecidableEq

def Flag.arguments : Flag → List String
  | .verbose => ["-v"]
  | .log file => ["--log", file]

/-- A file is taken for the value of the switch for the log. -/
def TakesLog (file : String) : Prop :=
  file ≠ terminator ∧ classify Screen.main.switches file = .ok .operand

/-- A file whose name does not begin with a dash is taken for the value of its switch. -/
theorem takesLog {file : String} (h : file.toList.head? ≠ some '-') : TakesLog file := by
  constructor
  · rintro rfl
    exact h rfl
  · rw [classify, if_pos h]

/-- A switch that nothing is attached to has its value in the next argument, if it has one. -/
theorem steps_flag {switches : List Switch} {switch : Switch} (hValue : switch.takesValue = false)
    (argument : String) (long : Bool) (words : List (String × Word)) :
    steps switches ((argument, .switch switch long none) :: words) =
      .switch switch none :: steps switches words := by
  rw [steps]
  simp [Bundle.ofSwitch, Bundle.single, hValue, flagSteps]

theorem steps_value {switches : List Switch} {switch : Switch} (hValue : switch.takesValue = true)
    (argument value : String) (long : Bool) (words : List (String × Word)) :
    steps switches ((argument, .switch switch long none) :: (value, .operand) :: words) =
      .switch switch (some value) :: steps switches words := by
  rw [steps]
  simp [Bundle.ofSwitch, Bundle.single, hValue, flagSteps]

theorem steps_no_value {switches : List Switch} {switch : Switch} {word : Word}
    (hValue : switch.takesValue = true) (hWord : word ≠ .operand) (argument value : String)
    (long : Bool) (words : List (String × Word)) :
    steps switches ((argument, .switch switch long none) :: (value, word) :: words) =
      [.fault (.expectedArgument switch)] := by
  rw [steps]
  simp only [Bundle.ofSwitch, Bundle.single, hValue, if_true]
  cases word with
  | operand => exact absurd rfl hWord
  | terminator | unknown | switch => rfl

namespace Request

/-- A request with its diagnostics sent elsewhere. -/
def withDiagnostics (verbose : Bool) (log : Option String) : Request → Request
  | .parse job => .parse { job with verbose, log }
  | other => other

/-- The path that a request is to read. -/
def input? : Request → Option String
  | .parse job => job.input
  | _ => none

/-- The file that the diagnostics of a request are appended to. -/
def log? : Request → Option String
  | .parse job => job.log
  | _ => none

variable {verbose : Bool} {log : Option String}

theorem input?_withDiagnostics (request : Request) :
    (request.withDiagnostics verbose log).input? = request.input? := by
  cases request <;> rfl

theorem of_log?_withDiagnostics {request : Request} {file : String}
    (h : (request.withDiagnostics verbose log).log? = some file) : log = some file := by
  cases request with
  | parse job => exact h
  | help | version | nothing | complaint => cases h

theorem ofCommand_eq (verbose : Bool) (log : Option String) (input : Option (Option String))
    (extras : List String) (steps : List Step) : ofCommand verbose log input extras steps =
      (ofCommand false none input extras steps).withDiagnostics verbose log := by
  induction steps generalizing input extras with
  | nil =>
      unfold ofCommand
      cases input with
      | none => rfl
      | some input =>
          dsimp only
          split <;> rfl
  | cons step steps ih =>
      cases step with
      | fault fault => rfl
      | extra text => exact ih _ _
      | operand text rest => exact ih _ _
      | switch switch value =>
          cases switch with
          | help => rfl
          | _ => exact ih _ _

/-- Behind the command, it does not matter where diagnostics go. -/
theorem ofSteps_operand_eq (verbose : Bool) (log : Option String) (extras : List String)
    (text : String) (arguments : List String) (steps : List Step) :
    ofSteps verbose log extras (.operand text arguments :: steps) =
      (ofSteps false none extras (.operand text arguments :: steps)).withDiagnostics verbose
        log := by
  unfold ofSteps
  split
  · split
    · rfl
    · exact ofCommand_eq _ _ _ _ _
  · rfl

/-- The request of arguments, given where diagnostics go so far. -/
def ofRest (verbose : Bool) (log : Option String) (arguments : List String) : Request :=
  match classifyAll Screen.main.switches arguments with
  | .error ambiguity => .complaint .main (.ambiguous ambiguity)
  | .ok words => ofSteps verbose log [] (steps Screen.main.switches words)

theorem ofRest_cons {argument : String} {word : Word}
    (hWord : classify Screen.main.switches argument = .ok word) (hMark : argument ≠ terminator)
    (arguments : List String) : ofRest verbose log (argument :: arguments) =
      match classifyAll Screen.main.switches arguments with
      | .error ambiguity => .complaint .main (.ambiguous ambiguity)
      | .ok words =>
        ofSteps verbose log [] (steps Screen.main.switches ((argument, word) :: words)) := by
  rw [ofRest, classifyAll_cons hWord hMark]
  cases classifyAll Screen.main.switches arguments <;> rfl

theorem ofRest_verbose (verbose : Bool) (log : Option String) (arguments : List String) :
    ofRest verbose log ("-v" :: arguments) = ofRest true log arguments := by
  have hWord : classify Screen.main.switches "-v" = .ok (.switch .verbose false none) := rfl
  rw [ofRest_cons hWord (by decide), ofRest]
  cases classifyAll Screen.main.switches arguments with
  | error ambiguity => rfl
  | ok words =>
      dsimp only
      rw [steps_flag rfl, ofSteps]

theorem ofRest_log (verbose : Bool) (log : Option String) {file : String} (hFile : TakesLog file)
    (hName : file ≠ "") (arguments : List String) :
    ofRest verbose log ("--log" :: file :: arguments) = ofRest verbose (some file) arguments := by
  have hWord : classify Screen.main.switches "--log" = .ok (.switch .log true none) := rfl
  have hValue : (some file).filter (fun path => path != "") = some file := by
    simpa using hName
  rw [ofRest_cons hWord (by decide), classifyAll_cons hFile.2 hFile.1, ofRest]
  cases classifyAll Screen.main.switches arguments with
  | error ambiguity => rfl
  | ok words =>
      change ofSteps verbose log [] (steps _ (("--log", _) :: (file, .operand) :: words)) = _
      rw [steps_value rfl, ofSteps, hValue]

theorem ofRest_parse (verbose : Bool) (log : Option String) (arguments : List String) :
    ofRest verbose log ("parse" :: arguments) =
      (ofRest false none ("parse" :: arguments)).withDiagnostics verbose log := by
  have hWord : classify Screen.main.switches "parse" = .ok .operand := rfl
  rw [ofRest_cons hWord (by decide), ofRest_cons hWord (by decide)]
  cases classifyAll Screen.main.switches arguments with
  | error ambiguity => rfl
  | ok words => exact ofSteps_operand_eq verbose log [] _ _ _

/-- Without flags there is no log. -/
theorem log?_ofArguments_parse (arguments : List String) :
    (ofArguments ("parse" :: arguments)).log? = none := by
  have hRequest : ofArguments ("parse" :: arguments) =
      (ofArguments ("parse" :: arguments)).withDiagnostics false none :=
    ofRest_parse false none arguments
  rw [hRequest, Option.eq_none_iff_forall_ne_some]
  intro file hFile
  cases of_log?_withDiagnostics hFile

/-- Flags in front of the command say where diagnostics go, if their files are taken for values. -/
theorem exists_ofRest_flags {flags : List Flag}
    (hFlags : ∀ file, .log file ∈ flags → TakesLog file ∧ file ≠ "") (verbose : Bool)
    (log : Option String) (arguments : List String) :
    ∃ verbose' log', (∀ file, log' = some file → log = some file ∨ .log file ∈ flags) ∧
      ofRest verbose log (flags.flatMap Flag.arguments ++ "parse" :: arguments) =
        (ofArguments ("parse" :: arguments)).withDiagnostics verbose' log' := by
  induction flags generalizing verbose log with
  | nil => exact ⟨verbose, log, fun file hFile => .inl hFile, ofRest_parse verbose log arguments⟩
  | cons flag flags ih =>
      have hRest (file : String) (hFile : .log file ∈ flags) : TakesLog file ∧ file ≠ "" :=
        hFlags file (List.mem_cons_of_mem flag hFile)
      cases flag with
      | verbose =>
          obtain ⟨verbose', log', hLog, hRequest⟩ := ih hRest true log
          refine ⟨verbose', log', ?_, (ofRest_verbose _ _ _).trans hRequest⟩
          intro file hFile
          exact (hLog file hFile).imp_right (List.mem_cons_of_mem _)
      | log file =>
          obtain ⟨hTakes, hName⟩ := hFlags file List.mem_cons_self
          obtain ⟨verbose', log', hLog, hRequest⟩ := ih hRest verbose (some file)
          refine ⟨verbose', log', ?_, (ofRest_log _ _ hTakes hName _).trans hRequest⟩
          intro other hOther
          rcases hLog other hOther with hSame | hLater
          · cases hSame
            exact .inr List.mem_cons_self
          · exact .inr (List.mem_cons_of_mem _ hLater)

/-- A file that is not taken for the value of its switch is complained of. -/
theorem ofArguments_of_not_takesLog {file : String} (hFile : ¬ TakesLog file)
    (arguments : List String) :
    ∃ fault, ofArguments ("--log" :: file :: arguments) = .complaint .main fault := by
  have hWord : classify Screen.main.switches "--log" = .ok (.switch .log true none) := rfl
  have hRequest : ofArguments ("--log" :: file :: arguments) =
      ofRest false none ("--log" :: file :: arguments) := rfl
  rw [hRequest, ofRest_cons hWord (by decide)]
  by_cases hMark : file = terminator
  · rw [classifyAll, if_pos hMark]
    dsimp only
    rw [steps_no_value rfl (by decide)]
    exact ⟨_, rfl⟩
  · cases hOwn : classify Screen.main.switches file with
    | error ambiguity =>
        rw [classifyAll, if_neg hMark, hOwn]
        exact ⟨_, rfl⟩
    | ok word =>
        rw [classifyAll_cons hOwn hMark]
        cases classifyAll Screen.main.switches arguments with
        | error ambiguity => exact ⟨_, rfl⟩
        | ok words =>
            have hWord : word ≠ .operand := by
              rintro rfl
              exact hFile ⟨hMark, hOwn⟩
            change ∃ fault, ofSteps _ _ _ (steps _ (("--log", _) :: (file, word) :: words)) = _
            rw [steps_no_value rfl hWord]
            exact ⟨_, rfl⟩

end Request

end LispReader.CommandLine
