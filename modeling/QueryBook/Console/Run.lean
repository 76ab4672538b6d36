import QueryBook.Console.Report
import QueryBook.Console.VariableFile
import QueryBook.Files.Sources

/-!
The command line as a whole: words, environment and files in, texts and an exit code out.
-/

namespace QueryBook.Console

/-- What the program ends with. -/
structure Outcome where
  exitCode : Nat
  out : String
  err : String
  /-- The database, if there is one, after the program. -/
  database : Option Database

/-- The bytes of the file with variables in a directory, if it has one. -/
def variableFile (root : Files.Node) : List UInt8 :=
  match Files.readFile root ".env" with
  | .ok bytes => bytes
  | .error _ => []

/-- The variables of an environment, with those of a file that the environment lacks. -/
def allVariables (environment : Environment) (file : List UInt8) : Environment :=
  VariableFile.extend environment (VariableFile.lines file)

/-- The text that names the program and its version. -/
def versionLine : String := "quire 0.1.0\n"

/-- What a use of the command line ends with, given the sources in a directory. -/
def Usage.run (usage : Usage) (getVariable : String → Option String)
    (sources : String → Except LoadError (List Source)) (server : Option Connection.Endpoint) :
    Outcome :=
  match usage with
  | .misuse => ⟨2, "", "", server.map (·.database)⟩
  | .version => ⟨0, versionLine, "", server.map (·.database)⟩
  | .perform command overrides =>
    let settings := Settings.resolve overrides getVariable
    let report := command.run ⟨settings, sources settings.queriesDir, server⟩
    ⟨report.exitCode, report.out, report.err, report.database⟩

/-- Runs the program in a directory. If there is a database, it answers on every socket. -/
def run (words : List String) (environment : Environment) (root : Files.Node)
    (database : Option Database) : Outcome :=
  let found := allVariables environment (variableFile root)
  let server := database.map fun db => ⟨fun path => Files.isSocket root path, db⟩
  (Usage.read words).run found.get? (fun path => Source.ofDirectory root path) server

end QueryBook.Console
