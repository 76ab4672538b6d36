/-!
The environment of a program: a list of texts `NAME=value`.
-/

namespace QueryBook.Console

structure Environment where
  entries : List (List Char)
  deriving DecidableEq, Repr

namespace Environment

/-- The text under which a variable stands in the environment. -/
def entry (name value : String) : List Char :=
  name.toList ++ '=' :: value.toList

/-- An environment with these variables, in this order. -/
def ofList (given : List (String × String)) : Environment :=
  ⟨given.map fun (name, value) => entry name value⟩

/-- The value of a name: what follows the name and an equals sign in the first entry that begins
with them. Where an entry's value has an equals sign, a longer name finds the part after it. -/
def get? (e : Environment) (name : String) : Option String :=
  if name.isEmpty then none
  else
    (e.entries.findSome? fun entry => List.isPrefixOf? (name.toList ++ ['=']) entry).map
      String.ofList

/-- The environment with one more variable at its end. -/
def add (e : Environment) (name value : String) : Environment :=
  ⟨e.entries ++ [entry name value]⟩

end Environment

end QueryBook.Console
