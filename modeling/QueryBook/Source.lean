import QueryBook.LoadError
import QueryBook.Text.Utf8

/-!
Sources: named texts that define queries, most often the files of a directory.
-/

namespace QueryBook

structure Source where
  name : String
  text : String
  deriving DecidableEq, Repr

/-- A source from bytes, which must be UTF-8. -/
def Source.ofBytes (name : String) (bytes : List UInt8) : Except LoadError Source :=
  match Text.Utf8.decode bytes with
  | .ok text => .ok ⟨name, text⟩
  | .error _ => .error (.notUtf8 name)

end QueryBook
