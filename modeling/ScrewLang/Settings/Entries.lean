import ScrewLang.Text.Blank
import ScrewLang.Text.Lines

/-!
# Entries of a settings file

A settings file has one statement a line: a section header `[name]`, an assignment `key = value`, or
nothing that counts. A value in quotes reaches to the next quote; any other ends before a `#`. An
assignment belongs to the section of the last header before it, and a later assignment to the same
key of the same section replaces an earlier one.
Spec guidance: `SPEC_FULL.md` §14, component `config`.
-/

namespace ScrewLang

namespace Settings

/-- What a line of a settings file says. -/
inductive Statement where
  | header (heading : String)
  | assignment (key value : String)
  | nothing
deriving DecidableEq, Repr

namespace Statement

/-- The value that stands to the right of an equals sign. -/
def value (text : List Char) : List Char :=
  match Text.trim text with
  | '"' :: rest => rest.takeWhile (· != '"')
  | rest => Text.trim (rest.takeWhile (· != '#'))

/-- What a trimmed line that is neither blank nor a comment says. -/
def ofContent (line : List Char) : Statement :=
  if line.head? = some '[' ∧ line.getLast? = some ']' then
    .header (String.ofList (Text.trim line.tail.dropLast))
  else if line.contains '=' then
    .assignment (String.ofList (Text.trim (line.takeWhile (· != '='))))
      (String.ofList (value (line.dropWhile (· != '=')).tail))
  else .nothing

/-- What a line says. -/
def ofLine (line : List Char) : Statement :=
  match Text.trim line with
  | [] => .nothing
  | '#' :: _ => .nothing
  | content => ofContent content

end Statement

/-- A value given to a key of a section. -/
structure Entry where
  heading : String
  key : String
  value : String
deriving DecidableEq, Repr

/-- The entries in force, at most one for every key of a section. -/
abbrev Entries := List Entry

namespace Entries

/-- Put an entry in force in place of an earlier one for the same key. -/
def insert (entries : Entries) (entry : Entry) : Entries :=
  entry :: entries.filter fun old => !(old.heading == entry.heading && old.key == entry.key)

/-- The value in force for a key of a section. -/
def get? (entries : Entries) (heading key : String) : Option String :=
  (entries.find? fun entry => entry.heading == heading && entry.key == key).map Entry.value

/-- Obey one statement, given the current section and the entries in force. -/
def obey (current : String × Entries) (statement : Statement) : String × Entries :=
  match statement with
  | .header heading => (heading, current.2)
  | .assignment key value => (current.1, current.2.insert ⟨current.1, key, value⟩)
  | .nothing => current

/-- The entries of a settings file. Before the first header the section is the empty name. Follows
`parse_entries`. -/
def parse (text : String) : Entries :=
  (((Text.lines text.toList).map Statement.ofLine).foldl obey ("", [])).2

end Entries

end Settings

end ScrewLang
