/-!
# Paths

A path names a file: the names on the way to it, with slashes between them, and the name itself.

* `parts`: the directory, the name and the extension that a path is made of.
* `join`: the path of a name in a directory.
* `hostMessage`: what the host says when no file can be created there.
-/

namespace PatchDynamics.Path

/-! ## Parts -/

/-- The last name in a path, without its extension; the extension, if there is one; and the
directory, if the path has one. The root has no directory, and a path that ends in no name has no
last name. -/
structure Parts where
  /-- the directory, empty for the current one -/
  directory : Option String
  /-- the name without extension -/
  stem : Option String
  /-- the extension without its point -/
  extension : Option String
  deriving DecidableEq, Repr

/-- The name and the extension of a file name: the extension follows the last point, unless that
point is the first character. -/
def splitName (name : List Char) : String × Option String :=
  let behind := (name.reverse.takeWhile (· ≠ '.')).reverse
  let before := (name.take (name.length - behind.length)).dropLast
  if before.isEmpty then (String.ofList name, none)
  else (String.ofList before, some (String.ofList behind))

/-- A path without separators and single points at its end. -/
def trimEnd (root : Nat) : Nat → List Char → List Char
  | 0, path => path
  | fuel + 1, path =>
    if path.length ≤ root then path
    else match path.reverse with
      | '/' :: _ => trimEnd root fuel path.dropLast
      | '.' :: '/' :: _ => trimEnd root fuel path.dropLast
      | _ => path

/-- The characters at the start of a path that always belong to its directory: the root, or the
point of the current directory. -/
def rootLength : List Char → Nat
  | '/' :: _ => 1
  | ['.'] => 1
  | '.' :: '/' :: _ => 1
  | _ => 0

/-- The parts of a path. -/
def parts (path : String) : Parts :=
  let cs := path.toList
  let root := rootLength cs
  let trimmed := trimEnd root cs.length cs
  let last := ((trimmed.drop root).reverse.takeWhile (· ≠ '/')).reverse
  if last.isEmpty then
    -- nothing follows: the root has no directory, the point has the current one
    ⟨if trimmed = ['/'] then none else some "", none, none⟩
  else
    let directory := trimmed.take (trimmed.length - last.length)
    let directory := some (String.ofList (trimEnd root directory.length directory))
    if last = ['.', '.'] then ⟨directory, none, none⟩
    else
      let (stem, extension) := splitName last
      ⟨directory, some stem, extension⟩

/-- A name in a directory. -/
def join (directory name : String) : String :=
  if directory.isEmpty then name
  else if directory.endsWith "/" then directory ++ name
  else directory ++ "/" ++ name

/-- The wording of a reason that the host numbers, why a file cannot be created. -/
def hostMessage (reason : String) (number : Nat) : String := s!"{reason} (os error {number})"

end PatchDynamics.Path
