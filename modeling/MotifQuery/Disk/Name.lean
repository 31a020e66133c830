import MotifQuery.Text.Split

/-!
# `MotifQuery.Disk.Name`: names at the end of paths

The name of a path is its last component; empty components and single dots do not count,
and a path that ends in two dots has no name. The extension of a name is what follows its
last dot, unless the name starts with that dot.
-/

set_option autoImplicit false

namespace MotifQuery

open Text

/-- The last component of a path. -/
def fileName? (path : String) : Option String :=
  let parts := (pieces '/' path.toList).filter fun part => !part.isEmpty && part != ['.']
  match parts.getLast? with
  | some part => if part = ['.', '.'] then none else some (String.ofList part)
  | none => none

/-- What follows the last dot of a name. -/
def extension? (path : String) : Option String :=
  match (fileName? path).bind fun name => splitLast? '.' name.toList with
  | some (stem, rest) => if stem.isEmpty then none else some (String.ofList rest)
  | none => none

end MotifQuery
