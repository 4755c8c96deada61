import XQuerySyntax.Number.Binary64

/-!
JSON values and their text. The fields of an object keep their order. The text is spread over lines,
two spaces for each level; characters outside ASCII are written as they are.
-/

namespace XQuerySyntax

/-- A JSON value. -/
inductive Json where
  | null
  | bool (value : Bool)
  | number (value : Nat)
  | real (value : Binary64)
  | string (value : String)
  | array (items : List Json)
  | object (fields : List (String × Json))

namespace Json

instance : Inhabited Json := ⟨null⟩

/-! ### Building values -/

/-- An object with one field, named for the alternative that its value belongs to. -/
def variant (name : String) (value : Json) : Json := object [(name, value)]

/-- An alternative with several named parts. -/
def record (name : String) (fields : List (String × Json)) : Json := variant name (object fields)

/-- An alternative with several parts in order. -/
def tuple (name : String) (parts : List Json) : Json := variant name (array parts)

/-- An array. -/
def list {α : Type} (encode : α → Json) (items : List α) : Json := array (items.map encode)

/-- A value that may be missing. -/
def optional {α : Type} (encode : α → Json) (value : Option α) : Json := value.elim null encode

/-! ### Text -/

/-- Two spaces for each level. -/
def indentation (level : Nat) : String := String.ofList (List.replicate (2 * level) ' ')

/-- The four hexadecimal digits of a control character. -/
def hexDigits (c : Char) : List Char :=
  let digits := Nat.toDigits 16 c.toNat
  List.replicate (4 - digits.length) '0' ++ digits

/-- A character of a string. -/
def escape (c : Char) : List Char :=
  if c = '"' then ['\\', '"']
  else if c = '\\' then ['\\', '\\']
  else if c = '\n' then ['\\', 'n']
  else if c = '\r' then ['\\', 'r']
  else if c = '\t' then ['\\', 't']
  else if c = '\x08' then ['\\', 'b']
  else if c = '\x0c' then ['\\', 'f']
  else if c.toNat < 32 then '\\' :: 'u' :: hexDigits c
  else [c]

/-- A string between double quotes. -/
def quote (s : String) : String := String.ofList ('"' :: s.toList.flatMap escape ++ ['"'])

/-- Lines with commas between them, inside brackets that stand on lines of their own. Without any
line the brackets stand together. -/
def enclose (opening closing : String) (level : Nat) (lines : List String) : String :=
  if lines.isEmpty then opening ++ closing
  else
    let indented := lines.map fun line => indentation (level + 1) ++ line
    opening ++ "\n" ++ String.intercalate ",\n" indented ++ "\n" ++ indentation level ++ closing

mutual

/-- The text of a value that stands at a level. -/
def render (level : Nat) : Json → String
  | null => "null"
  | bool value => if value then "true" else "false"
  | number value => toString value
  | real value => if value.isFinite then value.toText else "null"
  | string value => quote value
  | array items => enclose "[" "]" level (renderItems (level + 1) items)
  | object fields => enclose "\x7b" "\x7d" level (renderFields (level + 1) fields)

/-- The texts of the items of an array. -/
def renderItems (level : Nat) : List Json → List String
  | [] => []
  | item :: items => render level item :: renderItems level items

/-- The texts of the fields of an object. -/
def renderFields (level : Nat) : List (String × Json) → List String
  | [] => []
  | (name, value) :: fields =>
    (quote name ++ ": " ++ render level value) :: renderFields level fields

end

/-- The text of a value. -/
def toText (value : Json) : String := render 0 value

end Json

end XQuerySyntax
