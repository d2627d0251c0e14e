/-!
# Outlines

Nested data as text: every part on lines of its own, indented by four spaces per level.
-/

namespace LibraryContract

mutual

/-- Nested data in the form in which it is shown. -/
inductive Outline
  | atom (text : String)
  /-- Entries between an opening and a closing text. -/
  | block (opening closing : String) (entries : List OutlineEntry)

/-- An entry of a block; the label stands before the value. -/
inductive OutlineEntry
  | mk (label : String) (value : Outline)

end

namespace Outline

/-- Named fields of a record. -/
def record (name : String) (fields : List (String × Outline)) : Outline :=
  .block (name ++ " \x7b") "\x7d" (fields.map fun f => .mk (f.1 ++ ": ") f.2)

/-- A case with a content. -/
def variant (name : String) (content : Outline) : Outline :=
  .block (name ++ "(") ")" [.mk "" content]

/-- The items of a list. -/
def list (items : List Outline) : Outline := .block "[" "]" (items.map fun i => .mk "" i)

/-- Something that may be absent. -/
def option (outline : α → Outline) : Option α → Outline
  | none => .atom "None"
  | some a => variant "Some" (outline a)

/-- The spaces at the start of a line. -/
def indent (level : Nat) : String := String.ofList (List.replicate (4 * level) ' ')

mutual

/-- The text of an outline that starts on a line of this level. -/
def renderAt (level : Nat) : Outline → String
  | .atom text => text
  | .block opening closing [] => opening ++ closing
  | .block opening closing (entry :: rest) =>
    opening ++ "\n" ++ renderEntry (level + 1) entry ++ renderEntries (level + 1) rest ++
      indent level ++ closing

/-- The lines of an entry. -/
def renderEntry (level : Nat) : OutlineEntry → String
  | .mk label value => indent level ++ label ++ value.renderAt level ++ ",\n"

/-- The lines of some entries. -/
def renderEntries (level : Nat) : List OutlineEntry → String
  | [] => ""
  | entry :: rest => renderEntry level entry ++ renderEntries level rest

end

/-- The text of an outline, with a line feed at the end. -/
def render (o : Outline) : String := o.renderAt 0 ++ "\n"

end Outline

end LibraryContract
