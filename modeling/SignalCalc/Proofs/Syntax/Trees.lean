import Mathlib.Data.List.Forall2
import SignalCalc.Proofs.Number.Argument
import SignalCalc.Syntax.Sketch

/-!
# Trees of the grammar as records

The rules of the grammar build nested records.  `r.IsTreeOf node` says which of them stand for a node,
rule by rule: parentheses only group, a chain of calls is one record with a list of calls, and a binary
operator carries the place of the node.  A rule that finds no parts may give an empty list or leave it
out.

Records from outside may have any shape, and reading them can fail in many ways.  For trees of the
grammar it does not fail, and gives the node they stand for (`ofRecord_of_isProgramOf`).
-/

namespace SignalCalc.Syntax

open SignalCalc.Syntax.Token

/-! ## Nodes as sketches -/

/-- A text that may be missing, as a datum. -/
def Record.ofText? (text : Option String) : Record := (text.map Record.text).getD .null

/-- A place as records tell it. -/
def Location.sketch (loc : Location) : SketchPlace :=
  ⟨.whole loc.line, .whole loc.col, .ofText? loc.tag, .ofText? loc.text⟩

namespace Node

mutual
/-- The sketch of a tree. -/
def sketch : Node → Sketch
  | number loc value => .number (loc.map Location.sketch) value
  | string loc text => .string (loc.map Location.sketch) (.text text)
  | identifier loc name => .identifier (loc.map Location.sketch) (.text name)
  | unary loc op operand => .unary (loc.map Location.sketch) (.text op.symbol) operand.sketch
  | binary loc op left right =>
    .binary (loc.map Location.sketch) (.text op.symbol) left.sketch right.sketch
  | keyword loc name value => .keyword (loc.map Location.sketch) (.text name) value.sketch
  | invocation loc callee args =>
    .invocation (loc.map Location.sketch) callee.sketch (sketches args)
  | assignment loc name value => .assignment (loc.map Location.sketch) (.text name) value.sketch
  | definition loc name params body =>
    .definition (loc.map Location.sketch) (.text name) (params.map Record.text) body.sketch
  | empty loc => .empty (loc.map Location.sketch)
  | block statements => .list (sketches statements)
  | missing => .datum .null

/-- The sketches of a list of trees. -/
def sketches : List Node → List Sketch
  | [] => []
  | node :: rest => node.sketch :: sketches rest
end

lemma sketches_eq_map (nodes : List Node) : sketches nodes = nodes.map sketch := by
  induction nodes with
  | nil => rfl
  | cons node rest ih => rw [sketches, ih, List.map_cons]

end Node

/-! ## Trees of the grammar -/

namespace Record

/-- The fields of a record that a rule of the grammar has given, with its place and its text. -/
structure HasPlace (entries : List (String × Record)) (loc : Location) (tag text : String) :
    Prop where
  tagField : find? entries "tag" = some (.text tag)
  textField : find? entries "text" = some (.text text)
  lineField : find? entries "line" = some (.whole loc.line)
  colField : find? entries "col" = some (.whole loc.col)
  locTag : loc.tag = some tag
  locText : loc.text = some text

/-- The parts that a rule has found.  If there are none, the list may be left out. -/
def HasChildren (entries : List (String × Record)) (items : List Record) : Prop :=
  find? entries "children" = some (.list items) ∨ items = [] ∧ find? entries "children" = none

/-- The calls behind a callee.  A single one may stand without a list, and the list may be left out
if there are none. -/
def HasCalls (children : List (String × Record)) (calls : List (List (String × Record))) : Prop :=
  find? children "calls" = some (.list (calls.map .fields)) ∨
    (∃ call, call ≠ [] ∧ calls = [call] ∧ find? children "calls" = some (.fields call)) ∨
    calls = [] ∧ find? children "calls" = none

/-- The record is a name in a tree. -/
def IsNameRecord (r : Record) (x : String) : Prop :=
  ∃ entries loc, r = .fields entries ∧ HasPlace entries loc "identifier" x

/-- The record is a tree that the rules of the grammar build, and stands for the node. -/
inductive IsTreeOf : Record → Node → Prop
  | number {entries loc text value} (hplace : HasPlace entries loc "number" text)
      (hvalue : IsNumeral text.toList value) :
      IsTreeOf (.fields entries) (.number (some loc) value)
  | string {entries loc text} (hplace : HasPlace entries loc "string" text) :
      IsTreeOf (.fields entries) (.string (some loc) (unquoted text))
  | identifier {entries loc x} (hplace : HasPlace entries loc "identifier" x) :
      IsTreeOf (.fields entries) (.identifier (some loc) x)
  | empty {entries loc text} (hplace : HasPlace entries loc "group" text)
      (hchildren : HasChildren entries []) :
      IsTreeOf (.fields entries) (.empty (some loc))
  | group {entries loc text inner node} (hplace : HasPlace entries loc "group" text)
      (hchildren : HasChildren entries [inner]) (hinner : IsTreeOf inner node) :
      IsTreeOf (.fields entries) node
  | unary {entries loc text children sign signLoc operand node} {op : UnaryOperator}
      (hplace : HasPlace entries loc "unary" text)
      (hchildren : find? entries "children" = some (.fields children))
      (hsign : find? children "op" = some (.fields sign))
      (hop : HasPlace sign signLoc "unary_op" op.symbol)
      (hoperand : find? children "operand" = some operand) (hnode : IsTreeOf operand node) :
      IsTreeOf (.fields entries) (.unary (some loc) op node)
  | binary {entries sign loc tag left right a b} {op : BinaryOperator}
      (htag : find? entries "tag" = some (.text "binary_op"))
      (hsign : find? entries "op" = some (.fields sign)) (hop : HasPlace sign loc tag op.symbol)
      (hleft : find? entries "left" = some left) (hright : find? entries "right" = some right)
      (ha : IsTreeOf left a) (hb : IsTreeOf right b) :
      IsTreeOf (.fields entries) (.binary (some loc) op a b)
  | calls {entries loc text children callee f calls lists argumentLists}
      (hplace : HasPlace entries loc "postfix" text)
      (hchildren : find? entries "children" = some (.fields children))
      (hcallee : find? children "callee" = some callee) (hf : IsTreeOf callee f)
      (hcalls : HasCalls children calls) (hlists : List.Forall₂ HasChildren calls lists)
      (hargs : List.Forall₂ (List.Forall₂ IsTreeOf) lists argumentLists) :
      IsTreeOf (.fields entries)
        (argumentLists.foldl (fun f args => .invocation (some loc) f args) f)
  | keyword {entries loc text children name x value node}
      (hplace : HasPlace entries loc "keyword" text)
      (hchildren : find? entries "children" = some (.fields children))
      (hname : find? children "name" = some name) (hx : IsNameRecord name x)
      (hvalue : find? children "value" = some value) (hnode : IsTreeOf value node) :
      IsTreeOf (.fields entries) (.keyword (some loc) x node)
  | assignment {entries loc text children name x value node}
      (hplace : HasPlace entries loc "assignment" text)
      (hchildren : find? entries "children" = some (.fields children))
      (hname : find? children "target" = some name) (hx : IsNameRecord name x)
      (hvalue : find? children "value" = some value) (hnode : IsTreeOf value node) :
      IsTreeOf (.fields entries) (.assignment (some loc) x node)
  | definition {entries loc text children name x params names xs body node}
      (hplace : HasPlace entries loc "definition" text)
      (hchildren : find? entries "children" = some (.fields children))
      (hname : find? children "name" = some name) (hx : IsNameRecord name x)
      (hparams : find? children "params" = some (.fields params))
      (hnames : HasChildren params names) (hxs : List.Forall₂ IsNameRecord names xs)
      (hbody : find? children "body" = some body) (hnode : IsTreeOf body node) :
      IsTreeOf (.fields entries) (.definition (some loc) x xs node)

/-- The record is the tree of a program with these statements. -/
def IsProgramOf (r : Record) (statements : List Node) : Prop :=
  ∃ entries items, r = .fields entries ∧ find? entries "tag" = some (.text "program") ∧
    HasChildren entries items ∧ List.Forall₂ IsTreeOf items statements

/-! ## Building trees -/

/-- The fields of a rule at a place. -/
def placed (loc : Location) (tag text : String) (more : List (String × Record)) :
    List (String × Record) :=
  ("tag", .text tag) :: ("text", .text text) :: ("line", .whole loc.line) ::
    ("col", .whole loc.col) :: more

lemma hasPlace_placed {loc : Location} {tag text : String} (htag : loc.tag = some tag)
    (htext : loc.text = some text) (more : List (String × Record)) :
    HasPlace (placed loc tag text more) loc tag text :=
  ⟨rfl, rfl, rfl, rfl, htag, htext⟩

lemma exists_isNameRecord (x : String) : ∃ r, IsNameRecord r x :=
  ⟨_, _, ⟨1, 1, some "identifier", some x⟩, rfl, hasPlace_placed rfl rfl []⟩

end Record

namespace Node

variable {loc : Location} {tag text x : String} {node : Node}

/-- Some tree of the grammar stands for the node. -/
def HasTree (node : Node) : Prop := ∃ r : Record, r.IsTreeOf node

open Record

lemma exists_trees {nodes : List Node} (h : ∀ node ∈ nodes, node.HasTree) :
    ∃ items, List.Forall₂ IsTreeOf items nodes := by
  induction nodes with
  | nil => exact ⟨[], .nil⟩
  | cons node nodes ih =>
    obtain ⟨⟨r, hr⟩, hrest⟩ := List.forall_mem_cons.1 h
    obtain ⟨items, hitems⟩ := ih hrest
    exact ⟨r :: items, .cons hr hitems⟩

lemma hasTree_number {value : Float} (htag : loc.tag = some "number") (htext : loc.text = some text)
    (hvalue : IsNumeral text.toList value) : (number (some loc) value).HasTree :=
  ⟨_, .number (hasPlace_placed htag htext []) hvalue⟩

lemma hasTree_string (htag : loc.tag = some "string") (htext : loc.text = some text) :
    (string (some loc) (unquoted text)).HasTree :=
  ⟨_, .string (hasPlace_placed htag htext [])⟩

lemma hasTree_identifier (htag : loc.tag = some "identifier") (htext : loc.text = some x) :
    (identifier (some loc) x).HasTree :=
  ⟨_, .identifier (hasPlace_placed htag htext [])⟩

lemma hasTree_empty (htag : loc.tag = some "group") (htext : loc.text = some text) :
    (empty (some loc)).HasTree :=
  ⟨_, .empty (hasPlace_placed htag htext []) (.inr ⟨rfl, rfl⟩)⟩

lemma HasTree.unary (h : node.HasTree) (op : UnaryOperator) (htag : loc.tag = some "unary")
    (htext : loc.text = some text) : (Node.unary (some loc) op node).HasTree := by
  obtain ⟨operand, hoperand⟩ := h
  let signLoc : Location := ⟨1, 1, some "unary_op", some op.symbol⟩
  let sign := placed signLoc "unary_op" op.symbol []
  have hsign : HasPlace sign signLoc "unary_op" op.symbol := hasPlace_placed rfl rfl []
  exact ⟨_, .unary (hasPlace_placed htag htext
    [("children", .fields [("op", .fields sign), ("operand", operand)])]) rfl rfl hsign rfl hoperand⟩

lemma HasTree.binary {a b : Node} {op : BinaryOperator} (ha : a.HasTree) (hb : b.HasTree)
    (htag : loc.tag = some tag) (htext : loc.text = some op.symbol) :
    (Node.binary (some loc) op a b).HasTree := by
  obtain ⟨left, hleft⟩ := ha
  obtain ⟨right, hright⟩ := hb
  have hop := hasPlace_placed htag htext []
  exact ⟨.fields [("tag", .text "binary_op"), ("op", .fields _), ("left", left), ("right", right)],
    .binary rfl rfl hop rfl rfl hleft hright⟩

lemma HasTree.calls {f : Node} {argumentLists : List (List Node)} (hf : f.HasTree)
    (hargs : ∀ args ∈ argumentLists, ∀ arg ∈ args, arg.HasTree) (htag : loc.tag = some "postfix")
    (htext : loc.text = some text) :
    (argumentLists.foldl (fun f args => .invocation (some loc) f args) f).HasTree := by
  obtain ⟨callee, hcallee⟩ := hf
  have hlists : ∃ calls lists, List.Forall₂ HasChildren calls lists ∧
      List.Forall₂ (List.Forall₂ IsTreeOf) lists argumentLists := by
    induction argumentLists with
    | nil => exact ⟨[], [], .nil, .nil⟩
    | cons args argumentLists ih =>
      obtain ⟨hfirst, hrest⟩ := List.forall_mem_cons.1 hargs
      obtain ⟨items, hitems⟩ := exists_trees hfirst
      obtain ⟨calls, lists, hcalls, htrees⟩ := ih hrest
      exact ⟨[("children", .list items)] :: calls, items :: lists, .cons (.inl rfl) hcalls,
        .cons hitems htrees⟩
  obtain ⟨calls, lists, hcalls, htrees⟩ := hlists
  exact ⟨_, .calls (hasPlace_placed htag htext
    [("children", .fields [("callee", callee), ("calls", .list (calls.map .fields))])]) rfl rfl
    hcallee (.inl rfl) hcalls htrees⟩

lemma HasTree.keyword (h : node.HasTree) (x : String) (htag : loc.tag = some "keyword")
    (htext : loc.text = some text) : (Node.keyword (some loc) x node).HasTree := by
  obtain ⟨value, hvalue⟩ := h
  obtain ⟨name, hname⟩ := exists_isNameRecord x
  exact ⟨_, .keyword (hasPlace_placed htag htext
    [("children", .fields [("name", name), ("value", value)])]) rfl rfl hname rfl hvalue⟩

lemma HasTree.assignment (h : node.HasTree) (x : String) (htag : loc.tag = some "assignment")
    (htext : loc.text = some text) : (Node.assignment (some loc) x node).HasTree := by
  obtain ⟨value, hvalue⟩ := h
  obtain ⟨name, hname⟩ := exists_isNameRecord x
  exact ⟨_, .assignment (hasPlace_placed htag htext
    [("children", .fields [("target", name), ("value", value)])]) rfl rfl hname rfl hvalue⟩

lemma HasTree.definition (h : node.HasTree) (x : String) (xs : List String)
    (htag : loc.tag = some "definition") (htext : loc.text = some text) :
    (Node.definition (some loc) x xs node).HasTree := by
  obtain ⟨body, hbody⟩ := h
  obtain ⟨name, hname⟩ := exists_isNameRecord x
  have hnames : ∃ names, List.Forall₂ IsNameRecord names xs := by
    induction xs with
    | nil => exact ⟨[], .nil⟩
    | cons x xs ih =>
      obtain ⟨r, hr⟩ := exists_isNameRecord x
      obtain ⟨names, hnames⟩ := ih
      exact ⟨r :: names, .cons hr hnames⟩
  obtain ⟨names, hnames⟩ := hnames
  exact ⟨_, .definition (hasPlace_placed htag htext
    [("children", .fields [("name", name), ("params", .fields [("children", .list names)]),
      ("body", body)])]) rfl rfl hname rfl (.inl rfl) hnames rfl hbody⟩

end Node

namespace Record

lemma exists_isProgramOf {statements : List Node} (h : ∀ statement ∈ statements, statement.HasTree) :
    ∃ r : Record, r.IsProgramOf statements := by
  obtain ⟨items, hitems⟩ := Node.exists_trees h
  exact ⟨_, [("tag", .text "program"), ("children", .list items)], items, rfl, rfl, .inl rfl, hitems⟩

/-! ## Nesting -/

variable {entries children : List (String × Record)} {loc : Location} {tag key text x : String}
  {r inner : Record} {items : List Record} {node : Node} {nodes : List Node} {bound : ℕ}

lemma depth_le_of_mem (h : r ∈ items) : r.depth ≤ Record.depth.depths items := by
  induction items with
  | nil => cases h
  | cons item items ih =>
    rw [Record.depth.depths]
    rcases List.mem_cons.1 h with rfl | hmem
    · exact le_max_left _ _
    · exact (ih hmem).trans (le_max_right _ _)

lemma depth_le_of_find? (h : find? entries key = some r) :
    r.depth ≤ Record.depth.fieldDepths entries := by
  obtain ⟨⟨name, value⟩, hentry, rfl⟩ := Option.map_eq_some_iff.1 h
  have hmem := List.mem_of_find?_eq_some hentry
  clear h hentry
  induction entries with
  | nil => cases hmem
  | cons entry entries ih =>
    rw [Record.depth.fieldDepths]
    rcases List.mem_cons.1 hmem with rfl | hmem
    · exact le_max_left _ _
    · exact (ih hmem).trans (le_max_right _ _)

/-- What stands in a field is nested less deep than the record. -/
lemma depth_lt_of_find? (h : find? entries key = some r) (hdepth : (fields entries).depth ≤ bound) :
    r.depth < bound := by
  have hle := depth_le_of_find? h
  rw [Record.depth] at hdepth
  omega

lemma HasChildren.depth_lt (h : HasChildren entries items) (hdepth : (fields entries).depth ≤ bound)
    (hmem : r ∈ items) : r.depth < bound := by
  obtain hlist | ⟨rfl, -⟩ := h
  · have hle := depth_le_of_mem hmem
    have hlt := depth_lt_of_find? hlist hdepth
    rw [Record.depth] at hlt
    omega
  · cases hmem

lemma HasCalls.depth_lt {calls : List (List (String × Record))} (h : HasCalls children calls)
    (hdepth : (fields children).depth ≤ bound) {call : List (String × Record)} (hmem : call ∈ calls) :
    (fields call).depth < bound := by
  obtain hlist | ⟨only, -, rfl, hsingle⟩ | ⟨rfl, -⟩ := h
  · have hle := depth_le_of_mem (List.mem_map_of_mem (f := Record.fields) hmem)
    have hlt := depth_lt_of_find? hlist hdepth
    rw [Record.depth] at hlt
    omega
  · obtain rfl := List.mem_singleton.1 hmem
    exact depth_lt_of_find? hsingle hdepth
  · cases hmem

lemma HasCalls.forall_depth_lt {calls : List (List (String × Record))} {lists : List (List Record)}
    (h : HasCalls children calls) (hlists : List.Forall₂ HasChildren calls lists)
    (hdepth : (fields children).depth ≤ bound) : ∀ list ∈ lists, ∀ arg ∈ list, arg.depth < bound := by
  have hcalls := (List.forall₂_and_left _ _).2
    ⟨fun call hcall => (h.depth_lt hdepth hcall).le, hlists⟩
  refine ((List.forall₂_and_left (R := fun _ _ => True) _ _).1 (hcalls.flip.imp ?_)).1
  exact fun list call hcall => ⟨fun arg harg => hcall.2.depth_lt hcall.1 harg, trivial⟩

/-! ## Reading trees -/

lemma ok_bind {α β : Type} (a : α) (f : α → Except RecordError β) : (Except.ok a >>= f) = f a := rfl

lemma HasPlace.sketch (h : HasPlace entries loc tag text) :
    SketchPlace.ofFields entries = some loc.sketch := by
  unfold SketchPlace.ofFields
  simp only [h.tagField, h.textField, h.lineField, h.colField, Option.getD_some]
  rw [Location.sketch, h.locTag, h.locText]
  rfl

lemma HasPlace.get_text (h : HasPlace entries loc tag text) :
    (fields entries).get "text" = .ok (.text text) := by
  rw [get, h.textField]

lemma get_of_find? (h : find? entries key = some r) : (fields entries).get key = .ok r := by
  rw [get, h]

lemma HasChildren.getD (h : HasChildren entries items) :
    (find? entries "children").getD (.list []) = .list items := by
  obtain hlist | ⟨rfl, hnone⟩ := h
  · rw [hlist, Option.getD_some]
  · rw [hnone, Option.getD_none]

lemma HasChildren.optionalItems (h : HasChildren entries items) :
    (fields entries).optionalItems "children" = .ok items := by
  obtain hlist | ⟨rfl, hnone⟩ := h
  · simp only [Record.optionalItems, optional, hlist, Option.getD_some]
    cases items with
    | nil => rfl
    | cons item items => rfl
  · simp only [Record.optionalItems, optional, hnone]
    rfl

lemma mapM_of_forall₂ {α β : Type} {f : Record → Except RecordError α} {g : β → α} {bs : List β}
    (h : List.Forall₂ (fun r b => f r = .ok (g b)) items bs) : items.mapM f = .ok (bs.map g) := by
  induction h with
  | nil => rfl
  | cons hfirst _ ih =>
    rw [List.mapM_cons, hfirst, ih]
    rfl

lemma IsNameRecord.get_text (h : IsNameRecord r x) : r.get "text" = .ok (.text x) := by
  obtain ⟨entries, loc, rfl, hplace⟩ := h
  exact hplace.get_text

/-- Reading a record within a depth gives the node. -/
def Reads (bound : ℕ) (r : Record) (node : Node) : Prop :=
  Sketch.ofRecordWithin bound r = .ok node.sketch

lemma mapM_of_reads (h : List.Forall₂ (Reads bound) items nodes) :
    items.mapM (Sketch.ofRecordWithin bound) = .ok (Node.sketches nodes) := by
  rw [Node.sketches_eq_map]
  exact mapM_of_forall₂ h

-- Every rule below is one of the equations of the reader.
attribute [simp] Sketch.ofRecordWithin

lemma reads_number {value : Float} (hplace : HasPlace entries loc "number" text)
    (hvalue : IsNumeral text.toList value) :
    Reads (bound + 1) (.fields entries) (.number (some loc) value) := by
  have hreal : (Record.text text).realValue = .ok value := by
    rw [Record.realValue, Number.readReal?_of_isNumeral hvalue]
  simp only [Reads, Sketch.ofRecordWithin, hplace.tagField, hplace.get_text, hplace.sketch, ok_bind,
    hreal]
  rfl

lemma reads_string (hplace : HasPlace entries loc "string" text) :
    Reads (bound + 1) (.fields entries) (.string (some loc) (unquoted text)) := by
  simp only [Reads, Sketch.ofRecordWithin, hplace.tagField, hplace.get_text, hplace.sketch]
  rfl

lemma reads_identifier (hplace : HasPlace entries loc "identifier" x) :
    Reads (bound + 1) (.fields entries) (.identifier (some loc) x) := by
  simp only [Reads, Sketch.ofRecordWithin, hplace.tagField, hplace.get_text, hplace.sketch]
  rfl

lemma reads_empty (hplace : HasPlace entries loc "group" text) (hchildren : HasChildren entries []) :
    Reads (bound + 1) (.fields entries) (.empty (some loc)) := by
  simp only [Reads, Sketch.ofRecordWithin, hplace.tagField, hchildren.getD, hplace.sketch]
  rfl

lemma reads_group (hplace : HasPlace entries loc "group" text) (hchildren : HasChildren entries [inner])
    (hinner : Reads bound inner node) : Reads (bound + 1) (.fields entries) node := by
  simp only [Reads, Sketch.ofRecordWithin, hplace.tagField, hchildren.getD]
  exact hinner

lemma reads_unary {sign : List (String × Record)} {signLoc : Location} {op : UnaryOperator}
    {operand : Record} (hplace : HasPlace entries loc "unary" text)
    (hchildren : find? entries "children" = some (.fields children))
    (hsign : find? children "op" = some (.fields sign))
    (hop : HasPlace sign signLoc "unary_op" op.symbol)
    (hoperand : find? children "operand" = some operand) (hnode : Reads bound operand node) :
    Reads (bound + 1) (.fields entries) (.unary (some loc) op node) := by
  rw [Reads] at hnode ⊢
  simp only [Sketch.ofRecordWithin, hplace.tagField, hplace.sketch, hchildren, Option.getD_some,
    get_of_find? hsign, hop.get_text, get_of_find? hoperand, ok_bind, hnode]
  rfl

lemma reads_binary {sign : List (String × Record)} {op : BinaryOperator} {left right : Record}
    {a b : Node} (htag : find? entries "tag" = some (.text "binary_op"))
    (hsign : find? entries "op" = some (.fields sign)) (hop : HasPlace sign loc tag op.symbol)
    (hleft : find? entries "left" = some left) (hright : find? entries "right" = some right)
    (ha : Reads bound left a) (hb : Reads bound right b) :
    Reads (bound + 1) (.fields entries) (.binary (some loc) op a b) := by
  rw [Reads] at ha hb ⊢
  simp only [Sketch.ofRecordWithin, htag, get_of_find? hsign, hop.get_text, get_of_find? hleft,
    get_of_find? hright, ok_bind, SketchPlace.of?, hop.sketch, ha, hb]
  rfl

lemma reads_keyword {name value : Record} (hplace : HasPlace entries loc "keyword" text)
    (hchildren : find? entries "children" = some (.fields children))
    (hname : find? children "name" = some name) (hx : IsNameRecord name x)
    (hvalue : find? children "value" = some value) (hnode : Reads bound value node) :
    Reads (bound + 1) (.fields entries) (.keyword (some loc) x node) := by
  rw [Reads] at hnode ⊢
  simp only [Sketch.ofRecordWithin, hplace.tagField, hplace.sketch, hchildren, Option.getD_some,
    get_of_find? hname, hx.get_text, get_of_find? hvalue, ok_bind, hnode]
  rfl

lemma reads_assignment {name value : Record} (hplace : HasPlace entries loc "assignment" text)
    (hchildren : find? entries "children" = some (.fields children))
    (hname : find? children "target" = some name) (hx : IsNameRecord name x)
    (hvalue : find? children "value" = some value) (hnode : Reads bound value node) :
    Reads (bound + 1) (.fields entries) (.assignment (some loc) x node) := by
  rw [Reads] at hnode ⊢
  simp only [Sketch.ofRecordWithin, hplace.tagField, hplace.sketch, hchildren, Option.getD_some,
    get_of_find? hname, hx.get_text, get_of_find? hvalue, ok_bind, hnode]
  rfl

lemma reads_definition {params : List (String × Record)} {names : List Record} {xs : List String}
    {name body : Record} (hplace : HasPlace entries loc "definition" text)
    (hchildren : find? entries "children" = some (.fields children))
    (hname : find? children "name" = some name) (hx : IsNameRecord name x)
    (hparams : find? children "params" = some (.fields params)) (hnames : HasChildren params names)
    (hxs : List.Forall₂ IsNameRecord names xs) (hbody : find? children "body" = some body)
    (hnode : Reads bound body node) :
    Reads (bound + 1) (.fields entries) (.definition (some loc) x xs node) := by
  have htexts : names.mapM (·.get "text") = .ok (xs.map Record.text) :=
    mapM_of_forall₂ (hxs.imp fun _ _ h => h.get_text)
  rw [Reads] at hnode ⊢
  simp only [Sketch.ofRecordWithin, hplace.tagField, hplace.sketch, hchildren, Option.getD_some,
    get_of_find? hname, hx.get_text, get_of_find? hparams, hnames.optionalItems, htexts,
    get_of_find? hbody, ok_bind, hnode]
  rfl

/-- The calls behind a callee, from left to right. -/
lemma foldlM_calls (loc : Location) {calls : List (List (String × Record))} {lists : List (List Record)}
    {argumentLists : List (List Node)} (hlists : List.Forall₂ HasChildren calls lists)
    (hargs : List.Forall₂ (List.Forall₂ (Reads bound)) lists argumentLists) (f : Node) :
    (calls.map Record.fields).foldlM (fun callee call => do
        let args ← (← call.optionalItems "children").mapM (Sketch.ofRecordWithin bound)
        return .invocation (some loc.sketch) callee args) f.sketch =
      .ok (argumentLists.foldl (fun f args => .invocation (some loc) f args) f).sketch := by
  induction hlists generalizing argumentLists f with
  | nil =>
    cases hargs
    rfl
  | cons hchildren _ ih =>
    cases hargs with
    | @cons _ args _ _ hfirst hrest =>
      rw [List.map_cons, List.foldlM_cons, hchildren.optionalItems]
      simp only [ok_bind, mapM_of_reads hfirst]
      exact ih hrest (.invocation (some loc) f args)

lemma reads_calls {callee : Record} {f : Node} {calls : List (List (String × Record))}
    {lists : List (List Record)} {argumentLists : List (List Node)}
    (hplace : HasPlace entries loc "postfix" text)
    (hchildren : find? entries "children" = some (.fields children))
    (hcallee : find? children "callee" = some callee) (hf : Reads bound callee f)
    (hcalls : HasCalls children calls) (hlists : List.Forall₂ HasChildren calls lists)
    (hargs : List.Forall₂ (List.Forall₂ (Reads bound)) lists argumentLists) :
    Reads (bound + 1) (.fields entries)
      (argumentLists.foldl (fun f args => .invocation (some loc) f args) f) := by
  have hfold := foldlM_calls loc hlists hargs f
  rw [Reads] at hf ⊢
  simp only [Sketch.ofRecordWithin, hplace.tagField, hplace.sketch, hchildren, Option.getD_some,
    get_of_find? hcallee, hf, ok_bind, optional]
  obtain hlist | ⟨call, hne, rfl, hsingle⟩ | ⟨rfl, hnone⟩ := hcalls
  · rw [hlist]
    cases calls with
    | nil => exact hfold
    | cons call calls => exact hfold
  · rw [hsingle]
    cases call with
    | nil => exact absurd rfl hne
    | cons entry entries => exact hfold
  · rw [hnone]
    exact hfold

/-- A tree of the grammar is read as the node it stands for. -/
lemma IsTreeOf.reads (h : r.IsTreeOf node) (hdepth : r.depth < bound) : Reads bound r node := by
  induction bound generalizing r node with
  | zero => exact absurd hdepth (Nat.not_lt_zero _)
  | succ bound ih =>
    have hle : r.depth ≤ bound := Nat.le_of_lt_succ hdepth
    have hpart {entries : List (String × Record)} {key : String} {part : Record} {inner : Node}
        (hfield : find? entries key = some part) (hinner : part.IsTreeOf inner)
        (hdepth : (fields entries).depth ≤ bound) : Reads bound part inner :=
      ih hinner (depth_lt_of_find? hfield hdepth)
    cases h with
    | number hplace hvalue => exact reads_number hplace hvalue
    | string hplace => exact reads_string hplace
    | identifier hplace => exact reads_identifier hplace
    | empty hplace hchildren => exact reads_empty hplace hchildren
    | group hplace hchildren hinner =>
      have hlt := hchildren.depth_lt hle List.mem_cons_self
      exact reads_group hplace hchildren (ih hinner hlt)
    | unary hplace hchildren hsign hop hoperand hnode =>
      have hchild := depth_lt_of_find? hchildren hle
      exact reads_unary hplace hchildren hsign hop hoperand (hpart hoperand hnode hchild.le)
    | binary htag hsign hop hleft hright ha hb =>
      exact reads_binary htag hsign hop hleft hright (hpart hleft ha hle) (hpart hright hb hle)
    | calls hplace hchildren hcallee hf hcalls hlists hargs =>
      have hchild := depth_lt_of_find? hchildren hle
      refine reads_calls hplace hchildren hcallee (hpart hcallee hf hchild.le) hcalls hlists ?_
      have hdeep := hcalls.forall_depth_lt hlists hchild.le
      refine ((List.forall₂_and_left _ _).2 ⟨hdeep, hargs⟩).imp fun list args hlist => ?_
      exact ((List.forall₂_and_left _ _).2 hlist).imp fun arg inner harg => ih harg.2 harg.1
    | keyword hplace hchildren hname hx hvalue hnode =>
      have hchild := depth_lt_of_find? hchildren hle
      exact reads_keyword hplace hchildren hname hx hvalue (hpart hvalue hnode hchild.le)
    | assignment hplace hchildren hname hx hvalue hnode =>
      have hchild := depth_lt_of_find? hchildren hle
      exact reads_assignment hplace hchildren hname hx hvalue (hpart hvalue hnode hchild.le)
    | definition hplace hchildren hname hx hparams hnames hxs hbody hnode =>
      have hchild := depth_lt_of_find? hchildren hle
      exact reads_definition hplace hchildren hname hx hparams hnames hxs hbody
        (hpart hbody hnode hchild.le)

/-- **Trees of the grammar are read.**  Whatever tree the grammar builds for a program, reading it
succeeds and gives its statements. -/
lemma IsProgramOf.ofRecord_eq {statements : List Node} (h : r.IsProgramOf statements) :
    Sketch.ofRecord r = .ok (.list (statements.map Node.sketch)) := by
  obtain ⟨entries, items, rfl, htag, hchildren, hitems⟩ := h
  have hreads : List.Forall₂ (Reads (fields entries).depth) items statements :=
    ((List.forall₂_and_left _ _).2 ⟨fun item hitem => hchildren.depth_lt le_rfl hitem, hitems⟩).imp
      fun item node hitem => hitem.2.reads hitem.1
  simp only [Sketch.ofRecord, Sketch.ofRecordWithin, htag, hchildren.getD, Record.items, ok_bind,
    mapM_of_reads hreads, Node.sketches_eq_map]
  rfl

end Record

end SignalCalc.Syntax
