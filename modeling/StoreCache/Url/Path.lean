import StoreCache.Url.Percent

/-!
# Paths

The path of a URL is the list of its segments, each in its encoded form; the root path is one empty
segment. A path is made in two ways. **Reading** one from a URL resolves the dot segments: `.` goes,
`..` takes the segment before it along. **Appending** a name to a path takes the name as data: what
would delimit or escape is encoded, so that a name becomes one segment whatever it contains.

There are three exceptions to that, which `append` states: a name that is one dot or two adds
nothing, tabs and line ends are left out of a name, and a name that is one dot or two only without
them is resolved.
-/

namespace StoreCache.Url

/-- Whether a character is left out of a URL wherever it stands. -/
def isDropped (c : Char) : Bool := c = '\t' || c = '\n' || c = '\r'

/-- Whether a segment stands for the place it is in. -/
def isDot (s : List Char) : Bool := [".", "%2e", "%2E"].contains (String.ofList s)

/-- Whether a segment stands for the place above. -/
def isDoubleDot (s : List Char) : Bool :=
  ["..", ".%2e", ".%2E", "%2e.", "%2E.", "%2e%2e", "%2e%2E", "%2E%2e", "%2E%2E"].contains
    (String.ofList s)

/-- Whether a segment names a drive: a letter and a colon or a bar. -/
def isDrive (s : String) : Bool :=
  match s.toList with
  | [c, d] => c.isAlpha && (d = ':' || d = '|')
  | _ => false

/-- The segments of a path. -/
abbrev Path := List String

namespace Path

/-- The path of a URL that has none. -/
def root : Path := [""]

/-- The path without its last segment; a drive is never left. -/
def parent (path : Path) : Path := if path.getLast?.any isDrive then path else path.dropLast

/-- Go on from the segments read so far to the segments that follow. -/
def resolve (path : Path) : List (List Char) → Path
  | [] => path
  | [s] =>
    if isDoubleDot s then path.parent ++ [""]
    else if isDot s then path ++ [""]
    else path ++ [String.ofList (encode isPathChar s)]
  | s :: rest =>
    if isDoubleDot s then resolve path.parent rest
    else if isDot s then resolve path rest
    else resolve (path ++ [String.ofList (encode isPathChar s)]) rest

/-- Whether a character separates segments. -/
def isSeparator (c : Char) : Bool := c = '/' || c = '\\'

/-- Read the part of a URL behind its host; the slash it begins with may be missing. -/
def ofText (s : List Char) : Path :=
  let s := match s with
    | c :: rest => if isSeparator c then rest else s
    | [] => []
  resolve [] (s.splitOnP isSeparator)

/-- The path without an empty last segment. -/
def withoutTrailingSlash (path : Path) : Path :=
  if 1 < path.length ∧ path.getLast? = some "" then path.dropLast else path

/-- Append a segment; the empty segment of the root makes room for it. -/
def push (path : Path) (segment : String) : Path :=
  if path = root then [segment] else path ++ [segment]

/-- Append a name as a segment. -/
def append (path : Path) (name : String) : Path :=
  if name = "." ∨ name = ".." then path
  else
    let s := name.toList.filter (!isDropped ·)
    if s = ['.', '.'] then path.parent ++ [""]
    else if s = ['.'] then path.push ""
    else path.push (String.ofList (encode isSegmentChar s))

/-- Write a path. -/
def render (path : Path) : String := String.join (path.map ("/" ++ ·))

end Path

end StoreCache.Url
