import QueryBook.Settings

/-!
The command line's words: one command, and options that may stand before or after it. Each option is
given at most once before the command and at most once after it; what is given after it counts.
-/

namespace QueryBook.Console

inductive Command where
  | migrate
  | status
  /-- Lists the queries, with their statements if `statements` holds. -/
  | queries (statements : Bool)
  deriving DecidableEq, Repr

/-- What a command line asks for. -/
inductive Usage where
  | perform (command : Command) (overrides : Overrides)
  | version
  /-- The command line cannot be understood. -/
  | misuse
  deriving DecidableEq, Repr

/-- The options that take a value. -/
inductive OptionName where
  | databaseUrl
  | queriesDir
  | patchPrefix
  deriving DecidableEq, Repr

def OptionName.word : OptionName → String
  | .databaseUrl => "--database-url"
  | .queriesDir => "--queries-dir"
  | .patchPrefix => "--patch-prefix"

def OptionName.ofWord? (word : String) : Option OptionName :=
  [.databaseUrl, .queriesDir, .patchPrefix].find? (·.word == word)

def OptionName.get (given : Overrides) : OptionName → Option String
  | .databaseUrl => given.databaseUrl
  | .queriesDir => given.queriesDir
  | .patchPrefix => given.patchPrefix

/-- The overrides with an option that has not been given yet. A directory cannot be empty. -/
def OptionName.give? (name : OptionName) (given : Overrides) (value : String) : Option Overrides :=
  if (name.get given).isSome then none
  else match name with
    | .databaseUrl => some { given with databaseUrl := some value }
    | .queriesDir => if value.isEmpty then none else some { given with queriesDir := some value }
    | .patchPrefix => some { given with patchPrefix := some value }

/-- A word that begins with a hyphen is an option; a single hyphen is not. -/
def looksLikeOption (word : String) : Bool :=
  word.toList.head? == some '-' && word != "-"

/-- A word cut at its first equals sign. -/
def cutAtEquals (word : String) : String × Option String :=
  let name := word.toList.takeWhile (· != '=')
  match word.toList.drop name.length with
  | [] => (word, none)
  | _ :: value => (String.ofList name, some (String.ofList value))

/-- What one word is. -/
inductive Word where
  /-- An option with a value, which is the next word if it is not given here. -/
  | valued (name : OptionName) (value : Option String)
  /-- The flag that asks for statements. -/
  | statements
  | version
  /-- Two hyphens, after which no word is an option. -/
  | endOfOptions
  | unknownOption
  | plain (word : String)
  deriving DecidableEq, Repr

def Word.read (word : String) : Word :=
  if !looksLikeOption word then .plain word
  else if word == "--" then .endOfOptions
  else if word == "--sql" then .statements
  else if word == "--version" || (List.isPrefixOf? "-V".toList word.toList).isSome then .version
  else
    let (name, value) := cutAtEquals word
    match OptionName.ofWord? name with
    | some name => .valued name value
    | none => .unknownOption

/-- Overrides given before the command, with those given after it in their place. -/
def merge (before after : Overrides) : Overrides where
  databaseUrl := after.databaseUrl <|> before.databaseUrl
  queriesDir := after.queriesDir <|> before.queriesDir
  patchPrefix := after.patchPrefix <|> before.patchPrefix

/-- Reads the words after a command. `awaiting` is the option whose value comes next. -/
def readAfter (before given : Overrides) (command : Command) (awaiting : Option OptionName) :
    List String → Usage
  | [] => if awaiting.isSome then .misuse else .perform command (merge before given)
  | word :: rest =>
    match awaiting with
    | some name =>
      if looksLikeOption word then .misuse
      else match name.give? given word with
        | none => .misuse
        | some given => readAfter before given command none rest
    | none =>
      match Word.read word with
      | .valued name (some value) =>
        match name.give? given value with
        | none => .misuse
        | some given => readAfter before given command none rest
      | .valued name none => readAfter before given command (some name) rest
      | .statements =>
        match command with
        | .queries false => readAfter before given (.queries true) none rest
        | _ => .misuse
      | .endOfOptions => if rest.isEmpty then .perform command (merge before given) else .misuse
      | _ => .misuse

/-- Reads the words up to the command. -/
def readBefore (given : Overrides) (awaiting : Option OptionName) : List String → Usage
  | [] => .misuse
  | word :: rest =>
    match awaiting with
    | some name =>
      if looksLikeOption word then .misuse
      else match name.give? given word with
        | none => .misuse
        | some given => readBefore given none rest
    | none =>
      match Word.read word with
      | .valued name (some value) =>
        match name.give? given value with
        | none => .misuse
        | some given => readBefore given none rest
      | .valued name none => readBefore given (some name) rest
      | .version => .version
      | .plain "migrate" => readAfter given {} .migrate none rest
      | .plain "status" => readAfter given {} .status none rest
      | .plain "queries" => readAfter given {} (.queries false) none rest
      | _ => .misuse

/-- What the words of a command line ask for. -/
def Usage.read (words : List String) : Usage :=
  readBefore {} none words

end QueryBook.Console
