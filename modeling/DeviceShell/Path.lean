import DeviceShell.Text.Ends

/-!
# Resolving paths

A path is resolved against a directory by its segments: an absolute path starts afresh, a single
dot stays, two dots go up one level and stop at the root, and empty segments count for nothing. The
result is absolute and has no slash at its end, the root itself apart.
-/
namespace DeviceShell.Path

def isAbsolute (path : String) : Bool := Text.hasPrefix "/" path

/-- Extends the segments behind a point by one character in front. -/
def extend (c : Char) : List (List Char) → List (List Char)
  | [] => if c = '/' then [[], []] else [[c]]
  | segment :: later => if c = '/' then [] :: segment :: later else (c :: segment) :: later

def segments (path : String) : List String :=
  (path.toList.foldr extend [[]]).map String.ofList

/-- Goes along one segment; the directories passed come innermost first. -/
def walk (directories : List String) (segment : String) : List String :=
  if segment = "" ∨ segment = "." then directories
  else if segment = ".." then directories.drop 1
  else segment :: directories

/-- The segments that lead from the root to a path seen from a directory. -/
def seenFrom (base : List String) (path : String) : List String :=
  (segments path).foldl walk (if isAbsolute path then [] else base)

/-- Resolves the paths one after another, each seen from the one before. -/
def resolve (paths : List String) : String :=
  "/" ++ "/".intercalate (paths.foldl seenFrom []).reverse

end DeviceShell.Path
