import QueryBook.Catalog

/-!
Patches: queries that change the schema of a database and are run once each, in the order of their
versions. A patch is a query whose name is a prefix, a version in digits, a hyphen and a
description, such as `patch-0007-add-index`.
-/

namespace QueryBook

structure Patch where
  version : Int64
  /-- The name of the query that holds the statement. -/
  name : String
  deriving DecidableEq, Repr

namespace Patch

/-- A patch as it is shown to people. -/
def display (p : Patch) : String :=
  s!"{p.name} (v{Text.Decimal.ofInt p.version.toInt})"

/-- The greatest version: versions are whole numbers of 64 bits with a sign. -/
def maxVersion : Nat := 9223372036854775807

/-- The version in a patch's name without its prefix: the number before the first hyphen, written
in digits alone, above zero and at most the greatest version. -/
def readVersion (rest : String) : Option Int64 :=
  let head := rest.toList.takeWhile (· != '-')
  let significant := head.dropWhile (· == '0')
  if !rest.toList.contains '-' || !head.all Text.Decimal.isDigit || significant.isEmpty then none
  else if Text.Decimal.value significant ≤ maxVersion then
    some (Int64.ofNat (Text.Decimal.value significant))
  else none

/-- The name of a query without the prefix, if it begins with it. -/
def rest? (patchPrefix name : String) : Option String :=
  (List.isPrefixOf? patchPrefix.toList name.toList).map String.ofList

/-- Makes a patch of every name that begins with the prefix, given the patches made before. -/
def collect (patchPrefix : String) (found : List Patch) :
    List String → Except LoadError (List Patch)
  | [] => .ok found
  | name :: names =>
    match rest? patchPrefix name with
    | none => collect patchPrefix found names
    | some rest =>
      match readVersion rest with
      | none => .error (.invalidPatchName name)
      | some version =>
        match found.find? (·.version == version) with
        | some first => .error (.duplicatePatchVersion version first.name name)
        | none => collect patchPrefix (found ++ [⟨version, name⟩]) names

/-- Patches in ascending order of their versions. -/
def sortByVersion (patches : List Patch) : List Patch :=
  patches.mergeSort fun a b => a.version ≤ b.version

/-- The patches of a catalog. It is an error if a name that begins with the prefix has no version,
if two have the same version, or if there is none. -/
def discover (catalog : Catalog) (patchPrefix : String) : Except LoadError (List Patch) :=
  match collect patchPrefix [] (catalog.toList.map (·.name)) with
  | .error e => .error e
  | .ok [] => .error (.noPatches patchPrefix)
  | .ok patches => .ok (sortByVersion patches)

end Patch

end QueryBook
