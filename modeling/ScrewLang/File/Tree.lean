import ScrewLang.Device.Fault
import ScrewLang.File.Name
import ScrewLang.Text.Utf8

/-!
# Directory trees

A tree of directories and files, and what reading at a path finds in it. A path is followed name by
name from the root or from the working directory; every name but the last has to lead to a directory.
-/

namespace ScrewLang

namespace File

/-- A file or a directory. -/
inductive Node where
  | file (content : List UInt8)
  | directory
deriving DecidableEq, Repr

/-- The names that lead from the root to a node. -/
abbrev Route := List (List Char)

/-- The nodes of a tree by their routes. The root is always there. -/
structure Tree where
  nodes : List (Route × Node)
deriving DecidableEq, Repr

/-- The greatest number of bytes in a name. -/
def maxName : Nat := 255

/-- The greatest number of bytes in a path. -/
def maxPath : Nat := 4095

namespace Tree

/-- A tree with nothing but its root. -/
def empty : Tree := ⟨[]⟩

/-- The node at a route. -/
def get? (tree : Tree) (route : Route) : Option Node :=
  if route = [] then some .directory else tree.nodes.lookup route

/-- Put a node at a route, in place of one that was there. -/
def put (tree : Tree) (route : Route) (node : Node) : Tree :=
  ⟨(route, node) :: tree.nodes.filter (·.1 != route)⟩

/-- Make the directories that lead to a route, the outermost first. -/
def makeParents (tree : Tree) (route : Route) : Tree :=
  ((List.range route.length).map route.take).foldl
    (fun grown parent => if (grown.get? parent).isSome then grown else grown.put parent .directory)
    tree

/-- Put a node at a route, and the directories above it. -/
def add (tree : Tree) (route : Route) (node : Node) : Tree :=
  (tree.makeParents route).put route node

/-- The route of a path, read in a working directory, as far as it is a matter of names. -/
def routeOf (working : Route) (path : String) : Route :=
  let inner := (names path).filter (!isHere ·)
  if path.toList.head? = some '/' then inner else working ++ inner

/-- Follow names from a directory. -/
def walk (tree : Tree) : (reached : Route) → List (List Char) → Except Device.Fault Route
  | reached, [] => .ok reached
  | reached, name :: rest =>
    match tree.get? reached with
    | none => .error .noSuchFile
    | some (.file _) => .error .notADirectory
    | some .directory =>
      if isHere name then walk tree reached rest
      else if isUp name then walk tree reached.dropLast rest
      else if maxName < (name.flatMap String.utf8EncodeChar).length then .error .nameTooLong
      else walk tree (reached ++ [name]) rest

/-- The bytes of the file that a path names, read in a working directory. -/
def read (tree : Tree) (working : Route) (path : String) : Except Device.Fault (List UInt8) :=
  if path.toList.contains '\x00' then .error .nulInName
  else if path.isEmpty then .error .noSuchFile
  else if maxPath < (Text.bytes path).length then .error .nameTooLong
  else
    match tree.walk (if path.toList.head? = some '/' then [] else working) (names path) with
    | .error cause => .error cause
    | .ok route =>
      match tree.get? route with
      | none => .error .noSuchFile
      | some (.file content) => .ok content
      | some .directory => .error .isADirectory

end Tree

end File

end ScrewLang
