import MessageCatalog.Command.Run

/-! The program: looks at the files that a command needs, runs it, and prints what it answers. -/
namespace MessageCatalog.Main

structure Observation where
  path : Path
  status : Except FileError FileStatus
  contents : Except FileError ByteArray

def fileError : IO.Error → FileError
  | .noFileOrDirectory .. => .notFound
  | error => .other error.toString

def observe (path : Path) : IO Observation := do
  try
    if ← (← IO.FS.realPath path).isDir then
      return ⟨path, .ok .directory, .error .isDirectory⟩
    let contents ← IO.FS.readBinFile path
    return ⟨path, .ok ⟨.file, contents.size⟩, .ok contents⟩
  catch error =>
    return ⟨path, .error (fileError error), .error (fileError error)⟩

/-- The files that were looked at; there are no others. -/
def seen (observations : List Observation) : Files where
  status path := match observations.find? (·.path == path) with
    | some observation => observation.status
    | none => .error .notFound
  read path := match observations.find? (·.path == path) with
    | some observation => observation.contents
    | none => .error .notFound

def environment : IO Environment := do
  let values ← localeVariables.mapM fun name => return (name, ← IO.getEnv name)
  return fun name => (values.lookup name).join

/-- Runs a command after two looks at the files, since settings that are seen in the first may name
files for the second. -/
def perform (env : Environment) (command : Command) : IO (Except Command.Failure String) := do
  let first ← (command.paths (seen []) env).mapM observe
  let second ← (command.paths (seen first) env).mapM observe
  return command.run (seen second) env

end MessageCatalog.Main

open MessageCatalog in
def main (args : List String) : IO UInt32 := do
  let result ← match Command.read args with
    | .error error => pure (.error (.usage error))
    | .ok command => Main.perform (← Main.environment) command
  let outcome := Command.outcome result
  IO.print outcome.output
  IO.eprint outcome.errors
  return outcome.code
