import DocFlatten.Text.Blank

/-! # Paths

Paths are texts with slashes. What a path means is decided on its components: empty ones
and single dots count for nothing, two dots step back where there is something to step back
from. There are no links, so a path can be resolved by its text alone.
-/

namespace DocFlatten.Path

open DocFlatten.Text

/-- The components of a path: what stands between slashes, without empty parts and dots. -/
def components (path : String) : List String :=
  (splitAt (· == '/') path).filter fun part => part != "" && part != "."

/-- Whether a path starts at the root. -/
def isAbsolute (path : String) : Bool :=
  path.startsWith "/"

/-- The slashes a path starts with as they count: exactly two are kept, otherwise at most
one. -/
def rootOf (path : String) : String :=
  if path.startsWith "//" && !path.startsWith "///" then "//"
  else if isAbsolute path then "/"
  else ""

/-- A path from its root and components. -/
def build (root : String) (parts : List String) : String :=
  if root == "" && parts.isEmpty then "." else root ++ "/".intercalate parts

/-- A path without what counts for nothing in it. -/
def tidy (path : String) : String :=
  build (rootOf path) (components path)

/-- A path below a directory; an absolute path stays as it is. -/
def join (dir path : String) : String :=
  if isAbsolute path || dir == "" then tidy path
  else if dir.endsWith "/" then tidy (dir ++ path)
  else tidy (dir ++ "/" ++ path)

/-- One more component on a stack of them: two dots take the last one away, unless there is
none or it is two dots itself. At the root they have no effect. -/
def push (absolute : Bool) (stack : List String) (part : String) : List String :=
  if part == ".." then
    match stack with
    | [] => if absolute then [] else [part]
    | top :: rest => if top == ".." then part :: stack else rest
  else part :: stack

/-- Components with every step back carried out that can be. -/
def reduceParts (absolute : Bool) (parts : List String) : List String :=
  (parts.foldl (push absolute) []).reverse

/-- A path with every step back carried out that can be. -/
def normalize (path : String) : String :=
  build (rootOf path) (reduceParts (isAbsolute path) (components path))

/-- The components of a path seen from a directory that is given by its own. -/
def resolveParts (workingDir : List String) (path : String) : List String :=
  reduceParts true (if isAbsolute path then components path else workingDir ++ components path)

/-- The absolute path with the given components. -/
def ofParts (parts : List String) : String :=
  build "/" parts

/-- The absolute path that a path means, seen from a directory. -/
def resolve (workingDir : List String) (path : String) : String :=
  ofParts (resolveParts workingDir path)

/-- The rest of a path below a directory, if it lies there. -/
def below? (dir path : List String) : Option (List String) :=
  if dir.isPrefixOf path then some (path.drop dir.length) else none

/-- The part of a path after its last slash. -/
def baseName (path : String) : String :=
  ((splitAt (· == '/') path).getLast?).getD ""

/-- The part of a path before its last slash, without slashes at its end unless it is the
root. -/
def dirName (path : String) : String :=
  let base := (baseName path).length
  let head := path.toList.take (path.length - base)
  let trimmed := dropEndWhile (· == '/') head
  String.ofList (if trimmed.isEmpty then head else trimmed)

/-- The last component of a path. -/
def name (path : String) : String :=
  ((components path).getLast?).getD ""

/-- The directory that a path lies in. -/
def parent (path : String) : String :=
  let parts := components path
  if parts.isEmpty then tidy path else build (rootOf path) parts.dropLast

/-- A name cut before its last dot: the stem and the suffix with its dot. A dot at the
start or at the end of the name starts no suffix. -/
def splitSuffix (name : String) : String × String :=
  let cs := name.toList
  let suffix := (cs.reverse.takeWhile (· != '.')).reverse
  let before := cs.take (cs.length - suffix.length - 1)
  if suffix.length < cs.length && !suffix.isEmpty && !before.isEmpty then
    (String.ofList before, String.ofList ('.' :: suffix))
  else (name, "")

/-- A path without the extension of its last part: what follows the last dot, unless only
dots precede it. -/
def withoutExtension (path : String) : String :=
  let base := (baseName path).toList
  let extension := base.reverse.takeWhile (· != '.')
  let stem := base.take (base.length - extension.length - 1)
  if extension.length < base.length && stem.any (· != '.') then
    String.ofList (path.toList.take (path.length - extension.length - 1))
  else path

/-! ## Home directories -/

/-- The home directories of users by name. The empty name means the user who runs the
program. -/
abbrev Homes := String → Option String

/-- The wording of the error if a home directory is not known. -/
def homeMessage : String := "Could not determine home directory."

/-- A path with the home directory put in that a tilde in front stands for. There is none if the
home directory is not known. -/
def expand? (homes : Homes) (path : String) : Option String :=
  match components path with
  | first :: rest =>
    if !isAbsolute path && first.startsWith "~" then
      (homes (String.ofList first.toList.tail)).map fun home =>
        build (rootOf home) (components home ++ rest)
    else some path
  | [] => some path

end DocFlatten.Path
