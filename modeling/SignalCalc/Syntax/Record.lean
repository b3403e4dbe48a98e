import SignalCalc.Number.Written
import SignalCalc.Text.Quoted

/-!
# Records

Nested data from outside: single data, lists, and records with named fields.  Nothing is taken
for granted about them: a field may be missing, and anything may stand in any place.  Every way
to look into a record therefore says what went wrong.
-/

namespace SignalCalc.Syntax

/-- Nested data. -/
inductive Record where
  | null
  | bool (b : Bool)
  | whole (n : Int)
  | real (x : Float)
  | text (s : String)
  | list (items : List Record)
  /-- Named fields in their order; no name stands twice. -/
  | fields (entries : List (String × Record))

/-- Why records do not hold what is looked for. -/
inductive RecordError where
  /-- A field is missing. -/
  | missingField
  /-- A tag is unknown, or the text of a number is none. -/
  | badValue
  /-- A datum of another kind stands where a field is looked up or items are listed. -/
  | wrongKind
  /-- A datum that is no record stands where one with optional fields should. -/
  | noRecord
  /-- A whole number beyond every float stands where a real should. -/
  | tooLarge
  deriving DecidableEq, Repr

namespace Record

/-! ## Looking into records -/

/-- A field that may be missing. -/
def find? (entries : List (String × Record)) (key : String) : Option Record :=
  (entries.find? (·.1 == key)).map (·.2)

/-- A field that has to be there. -/
def get (r : Record) (key : String) : Except RecordError Record :=
  match r with
  | fields entries =>
    match find? entries key with
    | some value => .ok value
    | none => .error .missingField
  | _ => .error .wrongKind

/-- An optional field of a record, null if it is missing. -/
def optional (r : Record) (key : String) : Except RecordError Record :=
  match r with
  | fields entries => .ok ((find? entries key).getD null)
  | _ => .error .noRecord

/-- Nothing stands here: no datum, zero, or something empty. -/
def isVacant : Record → Bool
  | null => true
  | bool b => !b
  | whole n => n == 0
  | real x => x == 0.0
  | text s => s.isEmpty
  | list items => items.isEmpty
  | fields entries => entries.isEmpty

/-- The items of a list, the characters of a text, the names of fields. -/
def items : Record → Except RecordError (List Record)
  | list items => .ok items
  | fields entries => .ok (entries.map fun entry => text entry.1)
  | text s => .ok (s.toList.map fun c => text c.toString)
  | _ => .error .wrongKind

/-- The items of an optional list, none if it is vacant. -/
def optionalItems (r : Record) (key : String) : Except RecordError (List Record) := do
  let value ← r.optional key
  if value.isVacant then return [] else value.items

/-- The first item of a list, the first character of a text. -/
def first : Record → Except RecordError Record
  | list (item :: _) => .ok item
  | text s =>
    match s.toList with
    | c :: _ => .ok (text c.toString)
    | [] => .error .missingField
  | list [] | fields _ => .error .missingField
  | _ => .error .wrongKind

/-- A list or a text without its first and its last item. -/
def inner : Record → Except RecordError Record
  | list items => .ok (list (items.drop 1).dropLast)
  | text s => .ok (text (String.ofList (s.toList.drop 1).dropLast))
  | _ => .error .wrongKind

/-! ## The text of a record -/

mutual
/-- A datum in a listing. -/
def literal : Record → String
  | null => "None"
  | bool true => "True"
  | bool false => "False"
  | whole n => Number.wholeText n
  | real x => Number.exactText x
  | text s => Text.quoted s
  | list items => "[" ++ ", ".intercalate (literals items) ++ "]"
  | fields entries => "\x7b" ++ ", ".intercalate (fieldLiterals entries) ++ "\x7d"

/-- The items of a list in a listing. -/
def literals : List Record → List String
  | [] => []
  | r :: rest => r.literal :: literals rest

/-- Named fields in a listing. -/
def fieldLiterals : List (String × Record) → List String
  | [] => []
  | (name, r) :: rest => (Text.quoted name ++ ": " ++ r.literal) :: fieldLiterals rest
end

/-- A datum by itself: a text as it is, all else as in a listing. -/
def shown : Record → String
  | text s => s
  | r => r.literal

end Record

end SignalCalc.Syntax
