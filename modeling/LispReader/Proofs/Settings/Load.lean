import LispReader.Proofs.Host.World
import LispReader.Settings

/-!
Where settings come from in a world. They are searched for by asking alone, so loading them changes
nothing: they are those of the nearest file of the fixed name, on the way from what is read up to
the root, or of the path itself if that is its name.
-/

namespace LispReader

namespace World

variable (world : World)

/-- The directory of a file, and any other path itself; the working directory where there is no
path. -/
def searchStart : Option String → AbsolutePath
  | none => world.directory
  | some start =>
    let path := AbsolutePath.ofText world.directory start
    if world.isFile start then path.parent else path

/-- A directory holds a settings file. -/
def holdsSettings (directory : AbsolutePath) : Bool :=
  world.isFile (directory.child Settings.fileName).toString

/-- The settings file for what is to be read. -/
def settingsFile? (start : Option String) : Option AbsolutePath :=
  let nearest := ((world.searchStart start).ancestors.find? world.holdsSettings).map
    fun directory => directory.child Settings.fileName
  match start with
  | some path =>
    if Path.baseName path = Settings.fileName then some (.ofText world.directory path) else nearest
  | none => nearest

/-- The settings for what is to be read. -/
def settings (start : Option String) : Except SettingsFault Settings :=
  match world.settingsFile? start with
  | none => .ok {}
  | some path =>
    match world.tree.read world.directory path.toString with
    | .error fault => .error (.file fault path.toString)
    | .ok bytes => Settings.ofBytes path bytes

variable {world}

/-- Without a settings file on the way up, everything stays as it is. -/
theorem settings_of_not_holdsSettings {start : String}
    (hName : Path.baseName start ≠ Settings.fileName)
    (hNone : ∀ directory ∈ (world.searchStart (some start)).ancestors,
      world.holdsSettings directory = false) : world.settings (some start) = .ok {} := by
  have hFind : (world.searchStart (some start)).ancestors.find? world.holdsSettings = none :=
    List.find?_eq_none.2 fun directory hDirectory => by simp [hNone directory hDirectory]
  simp only [settings, settingsFile?, if_neg hName, hFind, Option.map_none]

theorem settings_of_root {start : String} {fault : FileFault}
    (hName : Path.baseName start ≠ Settings.fileName)
    (hRoot : (world.searchStart (some start)).ancestors = [.root])
    (hFile : world.tree.read world.directory "/kelp.it" = .error fault) :
    world.settings (some start) = .ok {} := by
  have hPath : (AbsolutePath.root.child Settings.fileName).toString = "/kelp.it" := by decide
  refine settings_of_not_holdsSettings hName ?_
  simp only [hRoot, List.forall_mem_singleton, holdsSettings, isFile, hPath, hFile]

end World

namespace Settings

open World

theorem asks_searchStart (start : Option String) :
    Asks (searchStart host start) fun world => world.searchStart start := by
  intro world
  cases start with
  | none => rfl
  | some start =>
      simp only [searchStart, asks_workingDirectory.run_bind, (asks_isFile start).run_bind,
        World.searchStart]
      split <;> rfl

theorem asks_findRoot (start : Option String) :
    Asks (findRoot host start) fun world =>
      (world.searchStart start).ancestors.find? world.holdsSettings :=
  (asks_searchStart start).bind fun _ => .findM? fun _ => asks_isFile _

theorem asks_findFile (start : Option String) :
    Asks (findFile host start) fun world => world.settingsFile? start := by
  have hNearest := (asks_findRoot start).bind fun root =>
    Asks.pure (root.map fun directory : AbsolutePath => directory.child fileName)
  cases start with
  | none => exact hNearest
  | some path =>
      intro world
      simp only [findFile, World.settingsFile?]
      split
      · rw [asks_workingDirectory.run_bind]
        rfl
      · exact hNearest world

/-- Loading the settings changes nothing. -/
theorem asks_load (start : Option String) :
    Asks (load host start) fun world => world.settings start := by
  intro world
  simp only [load, (asks_findFile start).run_bind, World.settings]
  cases world.settingsFile? start with
  | none => rfl
  | some path =>
      simp only [(asks_readFile path.toString).run_bind]
      cases world.tree.read world.directory path.toString <;> rfl

end Settings

end LispReader
