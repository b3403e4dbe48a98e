import SignalCalc.Proofs.Evaluation.Lasting
import SignalCalc.Proofs.Number.Kinds
import SignalCalc.Proofs.Syntax.Parsed
import SignalCalc.Syntax.Outline

/-!
# Programs that differ in layout alone

`Node.same` compares trees without their places, and the numbers in them as floats.  That says less than
that the trees without their places are one tree, since the two zeros are equal and a program can tell
them apart.  But a numeral has no sign: of trees that were read from texts, both say the same
(`bareAll_eq_of_parse`).
-/

namespace SignalCalc.Syntax

open SignalCalc.Number
open SignalCalc.Syntax.Token
open List

/-! ## Numerals -/

/-- Numerals that are equal as floats have one value. -/
lemma Token.IsNumeral.eq_of_beq {digits digits' : List Char} {v w : Float} (h : IsNumeral digits v)
    (h' : IsNumeral digits' w) (hbeq : (v == w) = true) : v = w := by
  have hzero {ds : List Char} {x : Float} (hx : IsNumeral ds x) (hbeq : (x == 0.0) = true) :
      x = 0.0 := by
    refine (zero_or_negZero hbeq).resolve_right ?_
    rintro rfl
    obtain ⟨n, -, hn⟩ := hx
    have hplus := hasPlus_value n
    rw [hn] at hplus
    cases hplus
  rcases eq_or_zeros hbeq with hsame | ⟨hv, hw⟩
  · exact hsame
  · rw [hzero h hv, hzero h' hw]

namespace Node

/-- If the node is a number, it is the value of a numeral. -/
def IsNumeric : Node → Prop
  | number _ value => ∃ digits, IsNumeral digits value
  | _ => True

lemma isWithin_cons {N : Node → Prop} {node : Node} {inner : List Node}
    (hparts : node.parts = node :: inner) (hself : N node) (hinner : ∀ part ∈ inner, N part) :
    node.IsWithin N := by
  rw [IsWithin, hparts]
  exact forall_mem_cons.2 ⟨hself, hinner⟩

lemma isWithin_partsOf {N : Node → Prop} {nodes : List Node} (h : ∀ node ∈ nodes, node.IsWithin N) :
    ∀ part ∈ partsOf nodes, N part := by
  intro part hpart
  obtain ⟨node, hnode, hmem⟩ := mem_partsOf.1 hpart
  exact h node hnode part hmem

/-- Calls of a callee, one behind the other. -/
lemma isNumeric_calls (loc : Option Location) {argumentLists : List (List Node)} {f : Node}
    (hf : f.IsWithin IsNumeric)
    (hargs : ∀ args ∈ argumentLists, ∀ arg ∈ args, arg.IsWithin IsNumeric) :
    (argumentLists.foldl (fun f args => invocation loc f args) f).IsWithin IsNumeric := by
  induction argumentLists generalizing f with
  | nil => exact hf
  | cons args rest ih =>
    obtain ⟨hfirst, hrest⟩ := forall_mem_cons.1 hargs
    exact ih (isWithin_cons rfl trivial (forall_mem_append.2 ⟨hf, isWithin_partsOf hfirst⟩)) hrest

end Node

lemma forall_of_forall₂ {α β : Type} {P : β → Prop} {as : List α} {bs : List β}
    (h : Forall₂ (fun _ b => P b) as bs) : ∀ b ∈ bs, P b := by
  induction h with
  | nil => exact forall_mem_nil _
  | cons hfirst _ ih => exact forall_mem_cons.2 ⟨hfirst, ih⟩

namespace Record

open Node

/-- In a tree of the grammar every number is written as a numeral. -/
lemma IsTreeOf.isNumeric {bound : ℕ} {r : Record} {node : Node} (h : r.IsTreeOf node)
    (hdepth : r.depth < bound) : node.IsWithin IsNumeric := by
  induction bound generalizing r node with
  | zero => exact absurd hdepth (Nat.not_lt_zero _)
  | succ bound ih =>
    have hle : r.depth ≤ bound := Nat.le_of_lt_succ hdepth
    have hpart {entries : List (String × Record)} {key : String} {part : Record} {inner : Node}
        (hfield : find? entries key = some part) (hinner : part.IsTreeOf inner)
        (hdepth : (fields entries).depth ≤ bound) : inner.IsWithin IsNumeric :=
      ih hinner (depth_lt_of_find? hfield hdepth)
    cases h with
    | number _ hvalue => exact isWithin_cons rfl ⟨_, hvalue⟩ nofun
    | string | identifier | empty => exact isWithin_cons rfl trivial nofun
    | group _ hchildren hinner => exact ih hinner (hchildren.depth_lt hle mem_cons_self)
    | unary _ hchildren _ _ hoperand hnode =>
      have hchild := depth_lt_of_find? hchildren hle
      exact isWithin_cons rfl trivial (hpart hoperand hnode hchild.le)
    | binary _ _ _ hleft hright ha hb =>
      exact isWithin_cons rfl trivial
        (forall_mem_append.2 ⟨hpart hleft ha hle, hpart hright hb hle⟩)
    | @calls _ loc _ _ _ _ _ lists argumentLists _ hchildren hcallee hf hcalls hlists hargs =>
      have hchild := depth_lt_of_find? hchildren hle
      have hdeep := hcalls.forall_depth_lt hlists hchild.le
      have hread : Forall₂ (fun _ args => ∀ arg ∈ args, arg.IsWithin IsNumeric) lists argumentLists := by
        refine ((forall₂_and_left _ _).2 ⟨hdeep, hargs⟩).imp fun list args hlist => ?_
        exact forall_of_forall₂ (((forall₂_and_left _ _).2 hlist).imp fun arg inner harg =>
          ih harg.2 harg.1)
      exact isNumeric_calls _ (hpart hcallee hf hchild.le) (forall_of_forall₂ hread)
    | keyword _ hchildren _ _ hvalue hnode | assignment _ hchildren _ _ hvalue hnode =>
      have hchild := depth_lt_of_find? hchildren hle
      exact isWithin_cons rfl trivial (hpart hvalue hnode hchild.le)
    | definition _ hchildren _ _ _ _ _ hbody hnode =>
      have hchild := depth_lt_of_find? hchildren hle
      exact isWithin_cons rfl trivial (hpart hbody hnode hchild.le)

end Record

/-- The numbers in a program are written in its text. -/
lemma isNumeric_of_parse {source : String} {statements : List Node}
    (h : parse source = .ok statements) :
    ∀ statement ∈ statements, statement.IsWithin Node.IsNumeric := by
  intro statement hmem
  obtain ⟨r, hr⟩ := (isReadStatement_of_parse h statement hmem).2.hasTree
  exact hr.isNumeric (Nat.lt_succ_self _)

/-! ## Equal trees -/

namespace Node

mutual
/-- Equal trees are one tree without its places, if their numbers are written. -/
lemma bare_eq_of_same {node other : Node} (hnode : node.IsWithin IsNumeric)
    (hother : other.IsWithin IsNumeric) (h : node.same other = true) : node.bare = other.bare := by
  cases node with
  | number loc v =>
    cases other with
    | number loc' w =>
      obtain ⟨digits, hv⟩ := hnode.self
      obtain ⟨digits', hw⟩ := hother.self
      rw [bare, bare, hv.eq_of_beq hw h]
    | _ => cases h
  | string loc text =>
    cases other with
    | string loc' text' => rw [bare, bare, beq_iff_eq.1 h]
    | _ => cases h
  | identifier loc name =>
    cases other with
    | identifier loc' name' => rw [bare, bare, beq_iff_eq.1 h]
    | _ => cases h
  | unary loc op operand =>
    cases other with
    | unary loc' op' operand' =>
      obtain ⟨hop, hoperand⟩ := Bool.and_eq_true_iff.1 h
      rw [bare, bare, beq_iff_eq.1 hop, bare_eq_of_same hnode.operand hother.operand hoperand]
    | _ => cases h
  | binary loc op left right =>
    cases other with
    | binary loc' op' left' right' =>
      obtain ⟨hparts, hright⟩ := Bool.and_eq_true_iff.1 h
      obtain ⟨hop, hleft⟩ := Bool.and_eq_true_iff.1 hparts
      rw [bare, bare, beq_iff_eq.1 hop, bare_eq_of_same hnode.left hother.left hleft,
        bare_eq_of_same hnode.right hother.right hright]
    | _ => cases h
  | keyword loc name e =>
    cases other with
    | keyword loc' name' e' =>
      obtain ⟨hname, he⟩ := Bool.and_eq_true_iff.1 h
      rw [bare, bare, beq_iff_eq.1 hname, bare_eq_of_same hnode.keyword hother.keyword he]
    | _ => cases h
  | invocation loc callee args =>
    cases other with
    | invocation loc' callee' args' =>
      obtain ⟨hcallee, hargs⟩ := Bool.and_eq_true_iff.1 h
      rw [bare, bare, bare_eq_of_same hnode.callee hother.callee hcallee,
        bareAll_eq_of_sameAll (fun _ => hnode.argument) (fun _ => hother.argument) hargs]
    | _ => cases h
  | assignment loc name e =>
    cases other with
    | assignment loc' name' e' =>
      obtain ⟨hname, he⟩ := Bool.and_eq_true_iff.1 h
      rw [bare, bare, beq_iff_eq.1 hname, bare_eq_of_same hnode.assigned hother.assigned he]
    | _ => cases h
  | definition loc name params body =>
    cases other with
    | definition loc' name' params' body' =>
      obtain ⟨hhead, hbody⟩ := Bool.and_eq_true_iff.1 h
      obtain ⟨hname, hparams⟩ := Bool.and_eq_true_iff.1 hhead
      rw [bare, bare, beq_iff_eq.1 hname, beq_iff_eq.1 hparams,
        bare_eq_of_same hnode.body hother.body hbody]
    | _ => cases h
  | empty loc =>
    cases other with
    | empty loc' => rfl
    | _ => cases h
  | block statements =>
    cases other with
    | block statements' =>
      rw [bare, bare,
        bareAll_eq_of_sameAll (fun _ => hnode.statement) (fun _ => hother.statement) h]
    | _ => cases h
  | missing =>
    cases other with
    | missing => rfl
    | _ => cases h

lemma bareAll_eq_of_sameAll {nodes others : List Node}
    (hnodes : ∀ node ∈ nodes, node.IsWithin IsNumeric)
    (hothers : ∀ node ∈ others, node.IsWithin IsNumeric) (h : sameAll nodes others = true) :
    bareAll nodes = bareAll others := by
  cases nodes with
  | nil =>
    cases others with
    | nil => rfl
    | cons => cases h
  | cons node rest =>
    cases others with
    | nil => cases h
    | cons other rest' =>
      obtain ⟨hfirst, hrest⟩ := Bool.and_eq_true_iff.1 h
      obtain ⟨hnode, hnodes⟩ := forall_mem_cons.1 hnodes
      obtain ⟨hother, hothers⟩ := forall_mem_cons.1 hothers
      rw [bareAll, bareAll, bare_eq_of_same hnode hother hfirst,
        bareAll_eq_of_sameAll hnodes hothers hrest]
end

end Node

/-- **Equal programs differ in their places alone.** -/
theorem bareAll_eq_of_parse {source source' : String} {statements statements' : List Node}
    (h : parse source = .ok statements) (h' : parse source' = .ok statements')
    (hsame : Node.sameAll statements statements' = true) :
    Node.bareAll statements = Node.bareAll statements' :=
  Node.bareAll_eq_of_sameAll (isNumeric_of_parse h) (isNumeric_of_parse h') hsame

/-! ## Outlines -/

namespace Node

mutual
/-- Outlines tell no places. -/
lemma outline_bare : ∀ node : Node, node.bare.outline = node.outline
  | number _ value => Eq.refl ("Number<" ++ exactText value ++ ">")
  | string _ text => Eq.refl ("String<" ++ Text.quoted text ++ ">")
  | identifier _ name => Eq.refl ("Identifier<" ++ Text.quoted name ++ ">")
  | unary _ op operand =>
    congrArg (fun inner => "Unary<" ++ op.symbol ++ " " ++ inner ++ ">") (outline_bare operand)
  | binary _ op left right =>
    congrArg₂ (fun inner inner' => "Binary<" ++ inner ++ " " ++ op.symbol ++ " " ++ inner' ++ ">")
      (outline_bare left) (outline_bare right)
  | keyword _ name value =>
    congrArg (fun inner => "KeywordArgument<" ++ name ++ "=" ++ inner ++ ">") (outline_bare value)
  | invocation _ callee args =>
    congrArg₂ (fun inner items => "Invocation<" ++ inner ++ " [" ++ ", ".intercalate items ++ "]>")
      (outline_bare callee) (outlines_bareAll args)
  | assignment _ name value =>
    congrArg (fun inner => "Assignment<" ++ name ++ " = " ++ inner ++ ">") (outline_bare value)
  | definition _ name params body =>
    congrArg (fun inner => "Definition<" ++ name ++ "(" ++ ", ".intercalate params ++ ") = " ++
      inner ++ ">") (outline_bare body)
  | empty _ => Eq.refl "Empty<>"
  | block statements =>
    congrArg (fun items => "[" ++ ", ".intercalate items ++ "]") (outlines_bareAll statements)
  | missing => Eq.refl "None"

lemma outlines_bareAll : ∀ nodes : List Node, outlines (bareAll nodes) = outlines nodes
  | [] => rfl
  | node :: rest => congrArg₂ List.cons (outline_bare node) (outlines_bareAll rest)
end

lemma outline_eq {node other : Node} (h : node.bare = other.bare) : node.outline = other.outline := by
  rw [← node.outline_bare, h, other.outline_bare]

end Node

end SignalCalc.Syntax
