import SignalCalc.Syntax.Record
import SignalCalc.Number.Read

/-!
# Trees read from records

A parse tree may be handed in as nested records with a tag, a text, a place and children.
`Sketch.ofRecord` reads a syntax tree from them.  Only the shape of the tree is checked: its names,
texts, operators and places may be any data, so the result is a `Sketch` and no tree that could be
evaluated.

Data that are no records pass through unchanged, and a list becomes a list of sketches.

Records may be nested as deep as they like: the bound of `Sketch.ofRecordWithin` is always taken large
enough, and the one that the host's stack sets is left out.
-/

namespace SignalCalc.Syntax

/-- A place as records tell it. -/
structure SketchPlace where
  line : Record
  col : Record
  tag : Record
  text : Record

/-- A syntax tree whose names, texts and operators are any data. -/
inductive Sketch where
  | datum (r : Record)
  | list (items : List Sketch)
  | number (place : Option SketchPlace) (value : Float)
  | string (place : Option SketchPlace) (text : Record)
  | identifier (place : Option SketchPlace) (name : Record)
  | unary (place : Option SketchPlace) (op : Record) (operand : Sketch)
  | binary (place : Option SketchPlace) (op : Record) (left right : Sketch)
  | keyword (place : Option SketchPlace) (name : Record) (value : Sketch)
  | invocation (place : Option SketchPlace) (callee : Sketch) (args : List Sketch)
  | assignment (place : Option SketchPlace) (name : Record) (value : Sketch)
  | definition (place : Option SketchPlace) (name : Record) (params : List Record)
      (body : Sketch)
  | empty (place : Option SketchPlace)

/-- The place of a record; none unless both line and column are given. -/
def SketchPlace.ofFields (entries : List (String × Record)) : Option SketchPlace :=
  let field (name : String) : Record := (Record.find? entries name).getD .null
  match field "line", field "col" with
  | .null, _ | _, .null => none
  | line, col => some ⟨line, col, field "tag", field "text"⟩

/-- The place of a datum, if it is a record. -/
def SketchPlace.of? : Record → Option SketchPlace
  | .fields entries => ofFields entries
  | _ => none

/-- The real that a datum stands for. -/
def Record.realValue : Record → Except RecordError Float
  | text s =>
    match Number.readReal? s with
    | some x => .ok x
    | none => .error .badValue
  | whole n =>
    match Number.wholeFloat? n with
    | some x => .ok x
    | none => .error .tooLarge
  | real x => .ok x
  | bool b => .ok (if b then 1.0 else 0.0)
  | _ => .error .wrongKind

/-- The nesting of records. -/
def Record.depth : Record → Nat
  | list items => depths items + 1
  | fields entries => fieldDepths entries + 1
  | _ => 0
where
  /-- The deepest nesting in a list. -/
  depths : List Record → Nat
    | [] => 0
    | r :: rest => max r.depth (depths rest)
  /-- The deepest nesting in fields. -/
  fieldDepths : List (String × Record) → Nat
    | [] => 0
    | (_, r) :: rest => max r.depth (fieldDepths rest)

namespace Sketch

open Record

/-- The tree of a record, with records nested less deep than the bound. -/
def ofRecordWithin : Nat → Record → Except RecordError Sketch
  | 0, r => .ok (.datum r)
  | depth + 1, .list items => do
    return .list (← items.mapM (ofRecordWithin depth))
  | depth + 1, .fields entries => do
    let self : Record := .fields entries
    let place := SketchPlace.ofFields entries
    let children := (find? entries "children").getD (.list [])
    match find? entries "tag" with
    | some (.text "program") => return .list (← (← children.items).mapM (ofRecordWithin depth))
    | some (.text "number") => return .number place (← (← self.get "text").realValue)
    | some (.text "string") => return .string place (← (← self.get "text").inner)
    | some (.text "identifier") => return .identifier place (← self.get "text")
    | some (.text "group") =>
      if children.isVacant then return .empty place
      ofRecordWithin depth (← children.first)
    | some (.text "binary_op") =>
      let op ← self.get "op"
      let symbol ← op.get "text"
      let left ← ofRecordWithin depth (← self.get "left")
      let right ← ofRecordWithin depth (← self.get "right")
      return .binary (SketchPlace.of? op) symbol left right
    | some (.text "unary") =>
      let symbol ← (← children.get "op").get "text"
      return .unary place symbol (← ofRecordWithin depth (← children.get "operand"))
    | some (.text "postfix") =>
      let callee ← ofRecordWithin depth (← children.get "callee")
      let calls ← children.optional "calls"
      let calls ← match calls with
        | .fields callEntries => pure (if callEntries.isEmpty then [] else [calls])
        | _ => if calls.isVacant then pure [] else calls.items
      calls.foldlM (fun callee call => do
        let args ← (← call.optionalItems "children").mapM (ofRecordWithin depth)
        return .invocation place callee args) callee
    | some (.text "keyword") =>
      let name ← (← children.get "name").get "text"
      return .keyword place name (← ofRecordWithin depth (← children.get "value"))
    | some (.text "assignment") =>
      let name ← (← children.get "target").get "text"
      return .assignment place name (← ofRecordWithin depth (← children.get "value"))
    | some (.text "definition") =>
      let name ← (← children.get "name").get "text"
      let params ← (← (← children.get "params").optionalItems "children").mapM (·.get "text")
      return .definition place name params (← ofRecordWithin depth (← children.get "body"))
    | _ => throw .badValue
  | _ + 1, r => .ok (.datum r)

/-- The tree of a record. -/
def ofRecord (r : Record) : Except RecordError Sketch :=
  ofRecordWithin (r.depth + 1) r

end Sketch

end SignalCalc.Syntax
