import SignalCalc.Proofs.Syntax.Programs

/-!
# Every program can be written

A tree can be written when its words can: a number needs a numeral, a string must fit between
quotes, and a name must be one.  Then it has a text in every place, with parentheses round those
operands alone that bind looser than their place.
-/

namespace SignalCalc.Syntax

open SignalCalc.Syntax.Layout
open SignalCalc.Syntax.Token

namespace Node

mutual
/-- Every word of the tree can be written. -/
def IsSpelled : Node → Prop
  | number _ value => ∃ digits, IsNumeral digits value
  | string _ text => IsQuotable text.toList
  | identifier _ name => IsName name.toList
  | unary _ _ operand => operand.IsSpelled
  | binary _ _ left right => left.IsSpelled ∧ right.IsSpelled
  | keyword _ name value => IsName name.toList ∧ value.IsSpelled
  | invocation _ callee args => callee.IsSpelled ∧ AreSpelled args
  | assignment _ name value => IsName name.toList ∧ value.IsSpelled
  | definition _ name params body =>
    IsName name.toList ∧ (∀ x ∈ params, IsName x.toList) ∧ body.IsSpelled
  | empty _ => True
  | block statements => AreSpelled statements
  | missing => True

/-- Every word of the trees can be written. -/
def AreSpelled : List Node → Prop
  | [] => True
  | node :: rest => node.IsSpelled ∧ AreSpelled rest
end

/-- A statement of program text. -/
def IsStatement : Node → Prop
  | assignment _ _ value => value.IsExpression
  | definition _ _ _ body => body.IsExpression
  | node => node.IsExpression

/-- How tight the operator of an expression binds; the other expressions need no parentheses. -/
def level : Node → ℕ
  | unary _ _ _ => 6
  | binary _ op _ _ => op.level
  | _ => 7

end Node

variable {e : Node} {t : List Char} {k : ℕ}

/-- An operand may bind tighter than its place needs. -/
lemma Written.loosen {k' : ℕ} (hk : k ≤ k') (hk' : k' ≤ 7) (h : Written (.level k') e t) :
    Written (.level k) e t := by
  induction hk with
  | refl => exact h
  | @step m _ ih => exact ih (by omega) (.tighter (by omega) h)

/-- An expression that binds too loose for its place can be put in parentheses. -/
lemma exists_written_at (h : ∃ t, Written (.level e.level) e t) (he : e.level ≤ 7) (hk : k ≤ 7) :
    ∃ t, Written (.level k) e t := by
  obtain ⟨t, ht⟩ := h
  by_cases hle : k ≤ e.level
  · exact ⟨t, ht.loosen hle he⟩
  · exact ⟨_, (Written.parentheses (ht.loosen (Nat.zero_le _) he) .nil .nil).loosen hk le_rfl⟩

lemma exists_separated (ts : List (List Char)) : ∃ u, Separated ts u := by
  induction ts with
  | nil => exact ⟨[], .nil⟩
  | cons t ts ih =>
    obtain ⟨u, hu⟩ := ih
    cases ts with
    | nil => exact ⟨t, .single t⟩
    | cons t' ts => exact ⟨_, .cons hu .nil .nil⟩

lemma isGap_space : IsGap [' '] := .blank (.inl rfl) .nil

lemma noComment_space (rest : List Char) : NoComment ([' '] ++ rest) :=
  ⟨fun h => absurd (Option.some.inj h) (by decide), fun h => absurd (Option.some.inj h) (by decide)⟩

lemma BinaryOperator.level_le {op : BinaryOperator} (hop : op.IsWritten) : op.level ≤ 6 := by
  cases op with
  | arithmetic op => cases op <;> decide
  | other symbol => exact hop.elim
  | _ => decide

lemma BinaryOperator.eq_pow_of_level {op : BinaryOperator} (hop : op.IsWritten)
    (h : ¬op.level ≤ 5) : op = .arithmetic .pow := by
  cases op with
  | arithmetic op =>
    cases op with
    | pow => rfl
    | _ => exact absurd (by decide) h
  | other symbol => exact hop.elim
  | _ => exact absurd (by decide) h

lemma Node.level_le (he : e.IsExpression) : e.level ≤ 7 := by
  cases e with
  | unary loc op operand => exact Nat.le_succ 6
  | binary loc op left right => exact (BinaryOperator.level_le he.1).trans (Nat.le_succ 6)
  | _ => exact le_rfl

mutual
/-- An expression has a text. -/
lemma exists_written : ∀ e : Node, e.IsExpression → e.IsSpelled →
    ∃ t, Written (.level e.level) e t
  | .number _ _, _, ⟨_, hdigits⟩ => ⟨_, .number hdigits⟩
  | .string _ _, _, hs => ⟨_, .string hs⟩
  | .identifier _ _, _, hx => ⟨_, .identifier hx⟩
  | .empty _, _, _ => ⟨_, .empty .nil⟩
  | .unary _ op operand, ⟨hop, he⟩, hs => by
    obtain ⟨t, ht⟩ := exists_written_at (k := 6) (exists_written operand he hs)
      (Node.level_le he) (by omega)
    exact ⟨_, .unary hop ht isGap_space fun _ => noComment_space t⟩
  | .binary _ op left right, ⟨hop, hl, hr⟩, ⟨hsl, hsr⟩ => by
    have hleft := fun k (hk : k ≤ 7) =>
      exists_written_at (exists_written left hl hsl) (Node.level_le hl) hk
    have hright := fun k (hk : k ≤ 7) =>
      exists_written_at (exists_written right hr hsr) (Node.level_le hr) hk
    by_cases hlevel : op.level ≤ 5
    · obtain ⟨t, ht⟩ := hleft op.level (by omega)
      obtain ⟨t', ht'⟩ := hright (op.level + 1) (by omega)
      exact ⟨_, .binary hlevel ht ht' isGap_space isGap_space fun _ => noComment_space t'⟩
    · obtain rfl := BinaryOperator.eq_pow_of_level hop hlevel
      obtain ⟨t, ht⟩ := hleft 7 le_rfl
      obtain ⟨t', ht'⟩ := hright 6 (by omega)
      exact ⟨_, .power ht ht' isGap_space isGap_space⟩
  | .invocation _ callee args, ⟨hc, hargs⟩, ⟨hsc, hsargs⟩ => by
    obtain ⟨t, ht⟩ := exists_written_at (k := 7) (exists_written callee hc hsc)
      (Node.level_le hc) le_rfl
    obtain ⟨texts, rfl, htexts⟩ := exists_written_arguments args hargs hsargs
    obtain ⟨u, hu⟩ := exists_separated (texts.map Prod.snd)
    exact ⟨_, .call ht htexts hu .nil .nil⟩

/-- Arguments have texts. -/
lemma exists_written_arguments : ∀ args : List Node, Node.AreArguments args →
    Node.AreSpelled args → ∃ texts : List (Node × List Char), texts.map Prod.fst = args ∧
      ∀ arg ∈ texts, Written .argument arg.1 arg.2
  | [], _, _ => ⟨[], rfl, by simp⟩
  | arg :: rest, hargs, ⟨hs, hsrest⟩ => by
    have harg : Node.AreArguments rest ∧ ∃ t, Written .argument arg t := by
      cases arg with
      | keyword loc x value =>
        obtain ⟨t, ht⟩ := exists_written_at (k := 0) (exists_written value hargs.1 hs.2)
          (Node.level_le hargs.1) (by omega)
        exact ⟨hargs.2, _, .keyword hs.1 ht .nil isGap_space⟩
      | _ =>
        obtain ⟨t, ht⟩ := exists_written_at (k := 0) (exists_written _ hargs.1 hs)
          (Node.level_le hargs.1) (by omega)
        exact ⟨hargs.2, t, .positional ht⟩
    obtain ⟨hrest, t, ht⟩ := harg
    obtain ⟨texts, rfl, htexts⟩ := exists_written_arguments rest hrest hsrest
    exact ⟨(arg, t) :: texts, rfl, List.forall_mem_cons.2 ⟨ht, htexts⟩⟩
end

lemma exists_writtenStatement {node : Node} (h : node.IsStatement) (hs : node.IsSpelled) :
    ∃ t, WrittenStatement node t := by
  have hexpression : ∀ {e : Node}, e.IsExpression → e.IsSpelled → ∃ t, Written (.level 0) e t :=
    fun he hs => exists_written_at (exists_written _ he hs) (Node.level_le he) (by omega)
  cases node with
  | assignment loc x value =>
    obtain ⟨t, ht⟩ := hexpression h hs.2
    exact ⟨_, .assignment hs.1 ht isGap_space isGap_space⟩
  | definition loc f params body =>
    obtain ⟨hf, hparams, hbody⟩ := hs
    obtain ⟨t, ht⟩ := hexpression h hbody
    obtain ⟨u, hu⟩ := exists_separated (params.map String.toList)
    exact ⟨_, .definition hf hparams hu ht .nil .nil .nil isGap_space isGap_space⟩
  | _ =>
    obtain ⟨t, ht⟩ := hexpression h hs
    exact ⟨t, .expression ht⟩

lemma exists_writtenProgram {statements : List Node}
    (h : ∀ node ∈ statements, node.IsStatement ∧ node.IsSpelled) :
    ∃ text, WrittenProgram statements text := by
  have hline : IsSeparator ['\n'] := .mark .nil (.inr rfl) .nil
  cases statements with
  | nil => exact ⟨[], .empty .nil⟩
  | cons first others =>
    suffices hwritten : ∃ u, WrittenStatements (first :: others) u by
      obtain ⟨u, hu⟩ := hwritten
      exact ⟨_, .statements .nil hu⟩
    induction others generalizing first with
    | nil =>
      obtain ⟨hfirst, hs⟩ := h first List.mem_cons_self
      obtain ⟨t, ht⟩ := exists_writtenStatement hfirst hs
      exact ⟨_, .last ht (.inr hline)⟩
    | cons second others ih =>
      obtain ⟨hfirst, hs⟩ := h first List.mem_cons_self
      obtain ⟨t, ht⟩ := exists_writtenStatement hfirst hs
      obtain ⟨u, hu⟩ := ih second fun node hnode => h node (List.mem_cons_of_mem first hnode)
      exact ⟨_, .cons ht hline hu⟩

/-- **Programs are read back.** Every list of statements whose words can be written has a text, and
every text of it, whatever its layout and its needless parentheses, is read as these statements. -/
theorem parse_written {statements : List Node}
    (h : ∀ node ∈ statements, node.IsStatement ∧ node.IsSpelled) :
    (∃ text, WrittenProgram statements text) ∧
      ∀ text, WrittenProgram statements text →
        ∃ nodes, parse (String.ofList text) = .ok nodes ∧
          nodes.map Node.bare = statements.map Node.bare :=
  ⟨exists_writtenProgram h, fun _ htext => htext.parse_eq⟩

/-- A definition that divides by a prefixed operand, and a comparison that starts like it. -/
def comparedHalves : List Node :=
  [.definition none "f" ["x"] (.binary none (.arithmetic .div) (.identifier none "x")
    (.unary none .slash (.identifier none "x"))),
   .binary none .equal (.invocation none (.identifier none "f") [.number none 2])
    (.identifier none "y")]

theorem parse_written_comparedHalves :
    ∃ nodes, parse (String.ofList "f(x) = x / /x\nf(2) == y".toList) = .ok nodes ∧
      nodes.map Node.bare = comparedHalves.map Node.bare := by
  have hname : ∀ c : Char, startsName c = true → IsName [c] := fun c hc => ⟨c, [], rfl, hc, nofun⟩
  have hf : IsName ['f'] := hname 'f' (by decide)
  have hx : IsName ['x'] := hname 'x' (by decide)
  have hy : IsName ['y'] := hname 'y' (by decide)
  have htwo : IsNumeral ['2'] 2 := ⟨_, rfl, by decide⟩
  have hspelled : ∀ node ∈ comparedHalves, node.IsStatement ∧ node.IsSpelled := by
    refine List.forall_mem_cons.2 ⟨⟨⟨trivial, trivial, trivial, trivial⟩, hf, ?_, hx, hx⟩,
      List.forall_mem_singleton.2 ⟨⟨trivial, ⟨trivial, trivial, trivial⟩, trivial⟩,
        ⟨hf, ⟨_, htwo⟩, trivial⟩, hy⟩⟩
    exact List.forall_mem_singleton.2 hx
  have hidentifier : ∀ x : String, IsName x.toList →
      Written (.level 7) (.identifier none x) x.toList := fun _ => .identifier
  have hprefixed : Written (.level 6) (.unary none .slash (.identifier none "x")) ['/', 'x'] :=
    @Written.unary none .slash _ ['x'] [] trivial (.tighter le_rfl (hidentifier "x" hx)) .nil
      fun _ => ⟨by decide, by decide⟩
  have hquotient : Written (.level 5) (.binary none (.arithmetic .div) (.identifier none "x")
      (.unary none .slash (.identifier none "x"))) "x / /x".toList :=
    @Written.binary none (.arithmetic .div) _ _ ['x'] ['/', 'x'] [' '] [' '] le_rfl
      ((hidentifier "x" hx).loosen (by decide) le_rfl) hprefixed isGap_space isGap_space
      fun _ => noComment_space _
  have hcall : Written (.level 7) (.invocation none (.identifier none "f") [.number none 2])
      "f(2)".toList :=
    @Written.call none _ ['f'] ['2'] [] [] [(.number none 2, ['2'])] (hidentifier "f" hf)
      (List.forall_mem_singleton.2 (.positional ((Written.number htwo).loosen (by decide) le_rfl)))
      (.single ['2']) .nil .nil
  have hcompared : Written (.level 2) (.binary none .equal (.invocation none (.identifier none "f")
      [.number none 2]) (.identifier none "y")) "f(2) == y".toList :=
    @Written.binary none .equal _ _ _ ['y'] [' '] [' '] (by decide)
      (hcall.loosen (by decide) le_rfl) ((hidentifier "y" hy).loosen (by decide) le_rfl)
      isGap_space isGap_space nofun
  have hdefinition : WrittenStatement (.definition none "f" ["x"] (.binary none (.arithmetic .div)
      (.identifier none "x") (.unary none .slash (.identifier none "x"))))
      "f(x) = x / /x".toList :=
    @WrittenStatement.definition none "f" ["x"] _ _ ['x'] [] [] [] [' '] [' '] hf
      (List.forall_mem_singleton.2 hx) (.single ['x']) (hquotient.loosen (by decide) (by decide))
      .nil .nil .nil isGap_space isGap_space
  have hprogram : WrittenProgram comparedHalves "f(x) = x / /x\nf(2) == y".toList :=
    @WrittenProgram.statements _ [] _ .nil (@WrittenStatements.cons _ _ _ ['\n'] _ hdefinition
      (.mark .nil (.inr rfl) .nil)
      (@WrittenStatements.last _ _ [] (.expression (hcompared.loosen (by decide) (by decide)))
        (.inl nofun)))
  exact (parse_written hspelled).2 _ hprogram

end SignalCalc.Syntax
