import Quorum.Host.Bootstrap
import Quorum.Logging
import Quorum.Settings.Document
import Quorum.StateMachine.Memory

/-! # The server program

The program reads its settings from a file, lets the environment override some of them,
and starts a node for every store. It stops them when its input ends. The groups live in
memory.
-/

namespace Quorum.Program

/-- The file of the settings unless another is named. -/
def usualPath : String := "server.toml"

/-- The settings in a file, as they are seen from a directory. -/
def load (directory path : String) : IO (Except String Settings) := do
  match ← (IO.FS.readFile path).toBaseIO with
  | .error error => return .error ("Failed to read config file: " ++ toString error)
  | .ok text => return (Settings.parse directory text).mapError SettingsError.message

/-- The settings with what the environment overrides, ready for use. -/
def prepare (directory : String) (settings : Settings) : IO (Except String Settings) := do
  let values ← Settings.variableNames.mapM fun name => return (name, ← IO.getEnv name)
  let settings := settings.override fun name => (values.lookup name).join
  return (settings.finish directory).mapError SettingsFault.message

/-- Starts the server, and stops it when the input ends. -/
def serve (settings : Settings) : IO UInt32 := do
  match LogFilter.ofLevels settings.logging.level settings.logging.targets with
  | .error message => IO.eprintln ("Error: " ++ message); return 1
  | .ok _ =>
      match Host.bootstrap Memory.machine (fun _ => .ok ()) settings {} {} with
      | (_, .error (.failed fault)) => IO.eprintln ("Error: " ++ fault.message); return 1
      | (_, .error .overflow) => IO.eprintln "Arithmetic overflow"; return 101
      | (host, .ok nodes) =>
          IO.eprintln ("storenode ready: " ++ toString host.routes.groups.length
            ++ " group(s) on " ++ settings.listen.address)
          let _ ← (← IO.getStdin).getLine
          let stopped := host.shutdown nodes
          unless stopped.isServing do IO.eprintln "Shutdown complete"
          return 0

end Quorum.Program

open Quorum in
/-- The first argument names the file of the settings. -/
def main (arguments : List String) : IO UInt32 := do
  let path := arguments.head?.getD Program.usualPath
  let directory := (← IO.currentDir).toString
  match ← Program.load directory path with
  | .error message =>
      IO.eprintln ("FATAL: Failed to load " ++ path ++ ": " ++ message)
      IO.eprintln "Server cannot start without valid configuration"
      return 1
  | .ok settings =>
      IO.eprintln ("Loaded config from: " ++ path)
      match ← Program.prepare directory settings with
      | .error message => IO.eprintln ("Error: " ++ message); return 1
      | .ok settings => Program.serve settings
