/-!
# Paths

A path is a sequence of names with slashes between them. Empty names and `.` stand for the directory
they are met in, `..` for the one above.
-/

namespace ScrewLang

namespace File

/-- The names of a path, in order, empty ones included. -/
def names (path : String) : List (List Char) :=
  path.toList.splitOn '/'

/-- Whether a name stands for the directory it is met in. -/
def isHere (name : List Char) : Bool :=
  name == [] || name == ['.']

/-- Whether a name stands for the directory above. -/
def isUp (name : List Char) : Bool :=
  name == ['.', '.']

/-- The last name of a path that does not stand for a directory by itself. A path that ends in `..`
has none. -/
def baseName? (path : String) : Option (List Char) :=
  ((names path).filter (!isHere ·)).getLast?.filter (!isUp ·)

end File

end ScrewLang
