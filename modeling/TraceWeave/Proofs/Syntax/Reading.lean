import Mathlib.Data.List.Forall2
import TraceWeave.Proofs.Syntax.Scanning
import TraceWeave.Syntax.Reader

/-!
Reading concrete trees of formulas back.

`Stands source row expr tree` says that a concrete tree on one row reads as an expression,
with its identifiers numbered in source order.
-/

namespace TraceWeave.Syntax

/-! ## Numbering -/

/-- The identifier under the next number. -/
def Ident.numbered (ident : Ident) : Numbered Ident := do
  let id ← get
  set (id + 1)
  return { ident with id }

mutual

def Expr.numbered : Expr → Numbered Expr
  | ⟨kind, decs⟩ => do return ⟨← kind.numbered, decs⟩

/-- The expression with its identifiers numbered in source order. -/
def ExprKind.numbered : ExprKind → Numbered ExprKind
  | .ident ident => do return .ident (← ident.numbered)
  | .selector operand member => do
      let operand ← operand.numbered
      return .selector operand (← member.numbered)
  | .call ⟨callee, args, spread, closesLine⟩ => do
      let callee ← callee.numbered
      return .call ⟨callee, ← numberedExprs args, spread, closesLine⟩
  | .star operand => do return .star (← operand.numbered)
  | .unary op operand => do return .unary op (← operand.numbered)
  | .binary left op right => do
      let left ← left.numbered
      return .binary left op (← right.numbered)
  | .paren inner => do return .paren (← inner.numbered)
  | kind => pure kind

def numberedExprs : List Expr → Numbered (List Expr)
  | [] => pure []
  | expr :: exprs => do
      let expr ← expr.numbered
      return expr :: (← numberedExprs exprs)

end

/-! ## Lexemes in a source text -/

/-- The lexeme stands in the source text where its span says. -/
def Source.Holds (source : Source) (lexeme : Lexeme) : Prop :=
  ∃ front back, source.chars.toList = front ++ lexeme.text.toList ++ back ∧
    lexeme.span.start = front.length ∧
    lexeme.span.stop = front.length + lexeme.text.toList.length

theorem Source.Holds.slice_eq {source : Source} {lexeme : Lexeme} (h : source.Holds lexeme) :
    source.slice lexeme.span.start lexeme.span.stop = lexeme.text := by
  obtain ⟨front, back, hchars, hstart, hstop⟩ := h
  rw [Source.slice, Array.toList_extract, hchars, hstart, hstop, List.extract_eq_take_drop,
    List.append_assoc, List.drop_left, Nat.add_sub_cancel_left, List.take_left, String.ofList_toList]

/-- Cutting a lexeme leaves both parts where they stand. -/
theorem Source.Holds.split {source : Source} {lexeme : Lexeme} (h : source.Holds lexeme)
    {count : Nat} (hcount : count ≤ lexeme.text.toList.length) :
    source.Holds (lexeme.split count).1 ∧ source.Holds (lexeme.split count).2 := by
  obtain ⟨front, back, hchars, hstart, hstop⟩ := h
  have hparts : source.chars.toList =
      front ++ lexeme.text.toList.take count ++ (lexeme.text.toList.drop count ++ back) := by
    rw [hchars, List.append_assoc, List.append_assoc,
      ← List.append_assoc (lexeme.text.toList.take count), List.take_append_drop]
  constructor
  · refine ⟨front, lexeme.text.toList.drop count ++ back, ?_, hstart, ?_⟩
    · rw [hparts]
      simp [Lexeme.split]
    · simp [Lexeme.split, hstart, Nat.min_eq_left hcount]
  · refine ⟨front ++ lexeme.text.toList.take count, back, ?_, ?_, ?_⟩
    · rw [hparts]
      simp only [Lexeme.split, String.toList_ofList, List.append_assoc]
    · simp [Lexeme.split, hstart, Nat.min_eq_left hcount]
    · simp [Lexeme.split, hstop, Nat.min_eq_left hcount]
      omega

/-! ## Nodes and leaves -/

namespace Concrete

variable {kind : NodeKind} {role : Role} {tree : Concrete} {lexeme : Lexeme}

@[simp]
theorem isComment_as : (tree.as role).isComment = tree.isComment := rfl

@[simp]
theorem isNamed_as : (tree.as role).isNamed = tree.isNamed := rfl

@[simp]
theorem isComment_token : (token lexeme).isComment = false := rfl

@[simp]
theorem isNamed_token : (token lexeme).isNamed = false := rfl

@[simp]
theorem hasComment_node (children : List Concrete) :
    (node kind children).hasComment = children.any isComment := rfl

@[simp]
theorem named_node (children : List Concrete) :
    (node kind children).named = children.filter isNamed := rfl

theorem height_lt {child parent : Concrete} (h : child ∈ parent.children) :
    child.height < parent.height := by
  have hle : ∀ trees : List Concrete, child ∈ trees → child.height ≤ heights trees := by
    intro trees hmem
    induction trees with
    | nil => simp at hmem
    | cons tree trees ih =>
        rw [heights]
        obtain rfl | hmem := List.mem_cons.1 hmem
        · exact Nat.le_max_left _ _
        · exact Nat.le_trans (ih hmem) (Nat.le_max_right _ _)
  obtain ⟨kind, role, span, children⟩ := parent
  have hchild := hle children h
  rw [height.eq_1 kind role span children]
  omega

variable (kind)

theorem startRow_node (first : Concrete) (rest : List Concrete) :
    (node kind (first :: rest)).span.startRow = first.span.startRow := by
  cases rest with
  | nil => rfl
  | cons second rest => simp [node, List.getLast?_cons, Span.through]

theorem stopRow_node (front : List Concrete) (last : Concrete) :
    (node kind (front ++ [last])).span.stopRow = last.span.stopRow := by
  cases front with
  | nil => rfl
  | cons first front =>
      have hlast : (first :: front ++ [last]).getLast? = some last := List.getLast?_concat
      rw [node, hlast]
      rfl

end Concrete

/-! ## Trees that read as expressions -/

def formulaKinds : List NodeKind := [.identifier, .selector, .call, .unary, .binary, .paren]

/-- The tree lies on one row and reads as the expression. -/
structure Stands (source : Source) (row : Nat) (expr : Expr) (tree : Concrete) : Prop where
  kind_mem : tree.kind ∈ formulaKinds
  startRow : tree.span.startRow = row
  stopRow : tree.span.stopRow = row
  reads : ∀ height, tree.height ≤ height →
    (Reading.readers source height).expr tree = expr.numbered
  isGeneric : ∀ limit, Grammar.isGenericType limit tree = false

namespace Stands

variable {source : Source} {row : Nat} {expr : Expr} {tree : Concrete}

theorem isNamed (h : Stands source row expr tree) : tree.isNamed = true := by
  have hkind := h.kind_mem
  unfold Concrete.isNamed
  split
  · next heq =>
    rw [heq] at hkind
    simp [formulaKinds] at hkind
  · rfl

/-- The tree is none of the nodes that are treated in a way of their own. -/
theorem kind_ne (h : Stands source row expr tree) {kind : NodeKind} (hkind : kind ∉ formulaKinds) :
    (tree.kind == kind) = false := by
  refine beq_eq_false_iff_ne.2 fun heq => hkind ?_
  rw [← heq]
  exact h.kind_mem

theorem isComment (h : Stands source row expr tree) : tree.isComment = false :=
  h.kind_ne (by decide)

theorem isSpread (h : Stands source row expr tree) : (tree.kind == .spreadArgument) = false :=
  h.kind_ne (by decide)

theorem as (h : Stands source row expr tree) (role : Role) :
    Stands source row expr (tree.as role) := by
  obtain ⟨kind, _, span, children⟩ := tree
  refine ⟨h.kind_mem, h.startRow, h.stopRow, fun height hheight => ?_, fun limit => ?_⟩
  · rw [← h.reads height hheight]
    cases height <;> rfl
  · rw [← h.isGeneric limit]
    cases limit <;> rfl

theorem reads_child {child parent : Concrete} {height : Nat} (h : Stands source row expr child)
    (hmem : child ∈ parent.children) (hheight : parent.height ≤ height + 1) :
    (Reading.readers source height).expr child = expr.numbered := by
  have hlt := Concrete.height_lt hmem
  exact h.reads height (by omega)

/-- A tree on one row reads as an expression if its reader says so at every height. -/
theorem of_reader (hkind : tree.kind ∈ formulaKinds) (hstart : tree.span.startRow = row)
    (hstop : tree.span.stopRow = row)
    (hreads : ∀ height, tree.height ≤ height + 1 →
      Reading.expr source (Reading.readers source height) tree = expr.numbered)
    (hgeneric : ∀ limit, Grammar.isGenericType limit tree = false) :
    Stands source row expr tree where
  kind_mem := hkind
  startRow := hstart
  stopRow := hstop
  reads height hheight := by
    cases height with
    | zero =>
        obtain ⟨kind, role, span, children⟩ := tree
        simp [Concrete.height] at hheight
    | succ height => exact hreads height hheight
  isGeneric := hgeneric

theorem reads_ident {lexeme : Lexeme} {ident : Ident} (his : lexeme.Is row .word ident.name)
    (hholds : source.Holds lexeme) :
    Reading.ident source (.leaf .identifier lexeme) = ident.numbered := by
  have htext : source.text (.leaf .identifier lexeme) = ident.name :=
    hholds.slice_eq.trans his.text_eq
  rw [Reading.ident, htext]
  rfl

theorem name {lexeme : Lexeme} {ident : Ident} (his : lexeme.Is row .word ident.name)
    (hholds : source.Holds lexeme) :
    Stands source row ⟨.ident ident, {}⟩ (.leaf .identifier lexeme) := by
  have hident := reads_ident his hholds
  refine of_reader (show NodeKind.identifier ∈ _ by decide) his.startRow_eq his.stopRow_eq
    (fun height _ => ?_) fun limit => ?_
  · have hkind : (Concrete.leaf .identifier lexeme).kind = .identifier := rfl
    have hcomment : (Concrete.leaf .identifier lexeme).hasComment = false := rfl
    simp [Reading.expr, hkind, hcomment, hident, Expr.numbered, ExprKind.numbered]
  · cases limit <;> rfl

theorem selector {operand : Expr} {base : Concrete} {lexeme : Lexeme} {member : Ident}
    (hbase : Stands source row operand base) (dot : Lexeme)
    (his : lexeme.Is row .word member.name) (hholds : source.Holds lexeme) :
    Stands source row ⟨.selector operand member, {}⟩
      (.node .selector
        [base.as .operand, .token dot, (Concrete.leaf .identifier lexeme).as .member]) := by
  have hident := reads_ident his hholds
  refine of_reader (show NodeKind.selector ∈ _ by decide) hbase.startRow his.stopRow_eq
    (fun height hheight => ?_) fun limit => ?_
  · have hreads := (hbase.as .operand).reads_child (by simp [Concrete.node]) hheight
    have hcomment : (Concrete.node .selector
        [base.as .operand, .token dot, (Concrete.leaf .identifier lexeme).as .member]).hasComment =
          false := by
      simp [hbase.isComment]
      rfl
    generalize htree : Concrete.node .selector _ = tree at hcomment ⊢
    have hkind : tree.kind = .selector := by rw [← htree]; rfl
    have hoperand : tree.child? .operand = some (base.as .operand) := by rw [← htree]; rfl
    have hmember : tree.child? .member =
        some ((Concrete.leaf .identifier lexeme).as .member) := by rw [← htree]; rfl
    have hident' : Reading.ident source ((Concrete.leaf .identifier lexeme).as .member) =
        member.numbered := hident
    simp [Reading.expr, hkind, hcomment, hoperand, hmember, hreads, hident', Expr.numbered,
      ExprKind.numbered]
  · cases limit <;> rfl

theorem paren {inner : Expr} {opening closing : Lexeme} (h : Stands source row inner tree)
    (hopening : opening.Is row .symbol "(") (hclosing : closing.Is row .symbol ")") :
    Stands source row ⟨.paren inner, {}⟩
      (.node .paren [.token opening, tree, .token closing]) := by
  have hnamed : (Concrete.node .paren [.token opening, tree, .token closing]).named = [tree] := by
    simp [h.isNamed]
  refine of_reader (show NodeKind.paren ∈ _ by decide) hopening.startRow_eq hclosing.stopRow_eq
    (fun height hheight => ?_) fun limit => ?_
  · have hreads := h.reads_child (by simp [Concrete.node]) hheight
    have hcomment : (Concrete.node .paren [.token opening, tree, .token closing]).hasComment =
        false := by
      simp [h.isComment]
    generalize htree : Concrete.node .paren _ = node at hcomment hnamed ⊢
    have hkind : node.kind = .paren := by rw [← htree]; rfl
    simp [Reading.expr, hkind, hcomment, hnamed, hreads, Expr.numbered, ExprKind.numbered]
  · cases limit with
    | zero => rfl
    | succ limit =>
        show (Concrete.named _).head?.any _ = false
        rw [hnamed]
        exact h.isGeneric limit

/-- A sign in front of an operand; a star is a kind of its own. -/
theorem sign {operand : Expr} {lexeme : Lexeme} {op : String} (h : Stands source row operand tree)
    (his : lexeme.Is row .symbol op) (hholds : source.Holds lexeme) :
    Stands source row ⟨if op = "*" then .star operand else .unary op operand, {}⟩
      (.node .unary [(Concrete.token lexeme).as .op, tree.as .operand]) := by
  refine of_reader (show NodeKind.unary ∈ _ by decide) his.startRow_eq h.stopRow
    (fun height hheight => ?_) fun limit => ?_
  · have hreads := (h.as .operand).reads_child (by simp [Concrete.node]) hheight
    have hcomment : (Concrete.node .unary
        [(Concrete.token lexeme).as .op, tree.as .operand]).hasComment = false := by
      simp [h.isComment]
    have htext : source.text ((Concrete.token lexeme).as .op) = op :=
      hholds.slice_eq.trans his.text_eq
    generalize htree : Concrete.node .unary _ = node at hcomment ⊢
    have hkind : node.kind = .unary := by rw [← htree]; rfl
    have hop : node.child? .op = some ((Concrete.token lexeme).as .op) := by rw [← htree]; rfl
    have hoperand : node.child? .operand = some (tree.as .operand) := by rw [← htree]; rfl
    by_cases hstar : op = "*" <;>
      simp [Reading.expr, hkind, hcomment, Reading.unary, hop, hoperand, hreads, htext, hstar,
        Expr.numbered, ExprKind.numbered]
  · cases limit with
    | zero => rfl
    | succ limit =>
        show (_ && Grammar.isGenericType limit (tree.as .operand)) = false
        rw [(h.as .operand).isGeneric limit, Bool.and_false]

theorem binary {left right : Expr} {first second : Concrete} {lexeme : Lexeme} {op : String}
    (hleft : Stands source row left first) (hright : Stands source row right second)
    (his : lexeme.Is row .symbol op) (hholds : source.Holds lexeme) :
    Stands source row ⟨.binary left op right, {}⟩
      (.node .binary [first.as .left, (Concrete.token lexeme).as .op, second.as .right]) := by
  refine of_reader (show NodeKind.binary ∈ _ by decide) hleft.startRow hright.stopRow
    (fun height hheight => ?_) fun limit => ?_
  · have hfirst := (hleft.as .left).reads_child (by simp [Concrete.node]) hheight
    have hsecond := (hright.as .right).reads_child (by simp [Concrete.node]) hheight
    have hcomment : (Concrete.node .binary
        [first.as .left, (Concrete.token lexeme).as .op, second.as .right]).hasComment = false := by
      simp [hleft.isComment, hright.isComment]
    have htext : source.text ((Concrete.token lexeme).as .op) = op :=
      hholds.slice_eq.trans his.text_eq
    have hrows : (first.as .left).span.stopRow = (second.as .right).span.startRow :=
      hleft.stopRow.trans hright.startRow.symm
    generalize htree : Concrete.node .binary _ = node at hcomment ⊢
    have hkind : node.kind = .binary := by rw [← htree]; rfl
    have hchildren : node.child? .left = some (first.as .left) ∧
        node.child? .op = some ((Concrete.token lexeme).as .op) ∧
        node.child? .right = some (second.as .right) := by
      rw [← htree]
      exact ⟨rfl, rfl, rfl⟩
    simp [Reading.expr, hkind, hcomment, Reading.binary, hchildren, hrows, hfirst, hsecond, htext,
      Expr.numbered, ExprKind.numbered]
  · cases limit <;> rfl

/-! ### Calls -/

/-- Nodes on the row of the opening have neither room nor comments around them. -/
theorem attach_eq (trees : List Concrete)
    (h : ∀ tree ∈ trees, tree.isComment = false ∧ tree.span.startRow = row ∧ tree.span.stopRow = row) :
    attach source row trees = ⟨trees.map (·, {}), []⟩ := by
  have hfold : ∀ done, trees.foldl (Attaching.add source) { done, row } =
      { done := (trees.map (·, {})).reverse ++ done, row } := by
    induction trees with
    | nil => exact fun done => rfl
    | cons tree trees ih =>
        intro done
        obtain ⟨hcomment, hstart, hstop⟩ := h tree List.mem_cons_self
        have hadd : Attaching.add source { done, row } tree =
            { done := (tree, {}) :: done, row } := by
          simp [Attaching.add, hcomment, Attaching.addNode, hstart, hstop, rowGap]
        rw [List.foldl_cons, hadd, ih fun other hmem => h other (List.mem_cons_of_mem _ hmem)]
        simp
  unfold attach
  rw [hfold]
  simp [Attaching.finish]

/-- Reading the arguments of a call one after the other. -/
theorem reads_args {args : List Expr} {trees : List Concrete}
    (h : List.Forall₂ (Stands source row) args trees) (hdecs : ∀ arg ∈ args, arg.decs = {})
    {below : Reading.Below}
    (hbelow : ∀ tree ∈ trees, ∀ arg, Stands source row arg tree → below.expr tree = arg.numbered) :
    (trees.map (·, ({} : Decorations))).mapM (fun (item, decs) => do
        let target := if item.kind == .spreadArgument then item.named.head?.getD item else item
        let arg ← below.expr target
        return { arg with decs }) = numberedExprs args := by
  induction h with
  | nil => rfl
  | @cons arg tree args trees hstands _ ih =>
      have harg := hbelow tree List.mem_cons_self arg hstands
      have hrest := ih (fun arg hmem => hdecs arg (List.mem_cons_of_mem _ hmem))
        fun tree hmem => hbelow tree (List.mem_cons_of_mem _ hmem)
      have hnone := hdecs arg List.mem_cons_self
      obtain ⟨kind, decs⟩ := arg
      dsimp only at hnone
      subst hnone
      simp only [List.map_cons, List.mapM_cons, hrest, hstands.isSpread, Bool.false_eq_true, if_false,
        harg, numberedExprs]
      simp [Expr.numbered]

theorem rows {args : List Expr} {trees : List Concrete}
    (h : List.Forall₂ (Stands source row) args trees) :
    ∀ tree ∈ trees, tree.isComment = false ∧ tree.span.startRow = row ∧
      tree.span.stopRow = row := by
  induction h with
  | nil => exact fun tree hmem => absurd hmem List.not_mem_nil
  | cons hstands _ ih =>
      intro tree hmem
      obtain rfl | hmem := List.mem_cons.1 hmem
      · exact ⟨hstands.isComment, hstands.startRow, hstands.stopRow⟩
      · exact ih tree hmem

theorem call {callee : Expr} {base : Concrete} {args : List Expr} {trees items : List Concrete}
    {opening closing : Lexeme} (hcallee : Stands source row callee base)
    (hargs : List.Forall₂ (Stands source row) args trees) (hdecs : ∀ arg ∈ args, arg.decs = {})
    (hitems : items.filter Concrete.isNamed = trees)
    (hplain : ∀ item ∈ items, (item.kind == .spreadArgument) = false)
    (hopening : opening.Is row .symbol "(") (hclosing : closing.Is row .symbol ")") :
    Stands source row ⟨.call ⟨callee, args, false, false⟩, {}⟩
      (.node .call [base.as .callee, (Concrete.node .argumentList
        (.token opening :: items ++ [.token closing])).as .args]) := by
  generalize harguments : (Concrete.node .argumentList
    (.token opening :: items ++ [.token closing])).as .args = arguments
  have hchildren : arguments.children = .token opening :: items ++ [.token closing] := by
    rw [← harguments]
    rfl
  have hlisted : arguments.kind = .argumentList := by
    rw [← harguments]
    rfl
  have hstart : arguments.span.startRow = row := by
    rw [← harguments]
    exact (Concrete.startRow_node .argumentList _ _).trans hopening.startRow_eq
  have hstop : arguments.span.stopRow = row := by
    rw [← harguments]
    exact (Concrete.stopRow_node .argumentList (.token opening :: items) (.token closing)).trans
      hclosing.stopRow_eq
  have hnamed : arguments.named = trees := by
    simp [Concrete.named, hchildren, hitems]
  have hspread : arguments.children.any (·.kind == .spreadArgument) = false := by
    have hany : items.any (·.kind == .spreadArgument) = false := by
      refine List.any_eq_false.2 fun item hmem => ?_
      rw [hplain item hmem]
      exact Bool.false_ne_true
    simp only [hchildren, List.any_append, List.any_cons, List.any_nil, hany]
    rfl
  have hlast : ((trees.map (·, ({} : Decorations))).getLast?.map (·.1.span.stopRow)).getD row =
      row := by
    cases hgetLast : trees.getLast? with
    | none => simp [hgetLast]
    | some tree =>
        have hrow := rows hargs tree (List.mem_of_getLast? hgetLast)
        simp [hgetLast, hrow]
  refine of_reader (show NodeKind.call ∈ _ by decide) hcallee.startRow hstop
    (fun height hheight => ?_) fun limit => ?_
  · have hreads := (hcallee.as .callee).reads_child (by simp [Concrete.node]) hheight
    have hbelow : ∀ tree ∈ trees, ∀ arg, Stands source row arg tree →
        (Reading.readers source height).expr tree = arg.numbered := by
      intro tree hmem arg hstands
      have hinside : tree ∈ arguments.children := by
        rw [← hnamed] at hmem
        exact List.mem_of_mem_filter hmem
      have hlt := Concrete.height_lt hinside
      have hbelow := @Concrete.height_lt arguments
        (.node .call [base.as .callee, arguments]) (by simp [Concrete.node])
      exact hstands.reads height (by omega)
    have hattach := @attach_eq source row trees (rows hargs)
    have hread := reads_args hargs hdecs hbelow
    have hcomment : (Concrete.node .call [base.as .callee, arguments]).hasComment = false := by
      have hargument : arguments.isComment = false := by
        rw [Concrete.isComment, hlisted]
        rfl
      simp [hcallee.isComment, hargument]
    generalize htree : Concrete.node .call _ = node at hcomment ⊢
    have hkind : node.kind = .call := by rw [← htree]; rfl
    have hparts : node.child? .callee = some (base.as .callee) ∧
        node.child? .args = some arguments ∧ node.child? .typeArgs = none := by
      rw [← htree, ← harguments]
      exact ⟨rfl, rfl, rfl⟩
    have hcall : Reading.call source (Reading.readers source height) node = do
        let callee ← callee.numbered
        let args ← numberedExprs args
        return { kind := .call ⟨callee, args, false, false⟩ } := by
      unfold Reading.call
      simp only [hparts, hreads, hspread, hnamed, hstart, hattach, List.isEmpty_nil, if_true]
      rw [hread]
      simp only [hlast, hstop, gt_iff_lt, Nat.lt_irrefl, decide_false, Bool.and_false,
        pure_bind]
    simp [Reading.expr, hkind, hcomment, hcall, Expr.numbered, ExprKind.numbered]
  · cases limit <;> rfl

end Stands

end TraceWeave.Syntax
