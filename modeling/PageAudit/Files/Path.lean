/-!
# Paths

A path is a text of segments between slashes. Empty segments and `.` have no meaning, except a `.` at the
front of a relative path; `..` is never resolved in a text.
-/

namespace PageAudit.Files

/-- The segments of a path between slashes, empty ones included. -/
def splitSlash : List Char → List (List Char)
  | [] => [[]]
  | c :: rest =>
    if c == '/' then [] :: splitSlash rest
    else
      match splitSlash rest with
      | [] => [[c]]
      | s :: more => (c :: s) :: more

/-- Segments with slashes between them. -/
def joinSlash : List (List Char) → List Char
  | [] => []
  | [s] => s
  | s :: more => s ++ '/' :: joinSlash more

/-- A path that starts at the root. -/
def isAbsolute (path : String) : Bool :=
  path.toList.head? == some '/'

/-- The segments after the root, or all segments of a relative path. -/
def segments (path : String) : List String :=
  let cs := path.toList
  let body := if isAbsolute path then cs.drop 1 else cs
  if body.isEmpty then [] else (splitSlash body).map String.ofList

/-- A segment without meaning; `leading` for the first segment of a relative path. -/
def isIdle (leading : Bool) (segment : String) : Bool :=
  segment == "" || (segment == "." && !leading)

/-- The segments with a meaning. -/
def significant (absolute : Bool) : List String → List String
  | [] => []
  | first :: rest =>
    (if isIdle (!absolute) first then [] else [first]) ++ rest.filter (!isIdle false ·)

/-- What a path means: whether it starts at the root, and its segments with a meaning. -/
def components (path : String) : Bool × List String :=
  (isAbsolute path, significant (isAbsolute path) (segments path))

/-- Two paths with the same components. -/
def samePath (a b : String) : Bool :=
  components a == components b

/-- Drops the segments without meaning at the end. -/
def dropIdle (absolute : Bool) (ss : List String) : List String :=
  let kept := (ss.drop 1).reverse.dropWhile (isIdle false) |>.reverse
  match ss, kept with
  | [], _ => []
  | first :: _, [] => if isIdle (!absolute) first then [] else [first]
  | first :: _, kept => first :: kept

/-- The text of segments. -/
def ofSegments (absolute : Bool) (ss : List String) : String :=
  String.ofList ((if absolute then ['/'] else []) ++ joinSlash (ss.map String.toList))

/-- The path without its last component; none for the root and the empty path. -/
def parent? (path : String) : Option String :=
  let absolute := isAbsolute path
  match dropIdle absolute (segments path) with
  | [] => none
  | ss => some (ofSegments absolute (dropIdle absolute ss.dropLast))

/-- A path below another one. An absolute path stays as it is. -/
def join (base path : String) : String :=
  if isAbsolute path then path
  else if base.isEmpty || base.toList.getLast? == some '/' then base ++ path
  else base ++ "/" ++ path

end PageAudit.Files
