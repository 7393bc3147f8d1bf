import TraceWeave.Proofs.Syntax.Layout
import TraceWeave.Proofs.Syntax.Reading

/-!
Reading concrete trees of statements back.

A tree that stands for a statement may go down several rows.  The room in front of a
statement is the difference between its first row and the last row of what stands in front
of it, so the rows of the trees in a block give back the layout of the block.
-/

namespace TraceWeave.Syntax

/-! ## Numbering -/

mutual

/-- The plain statement with its identifiers numbered in source order. -/
def StmtKind.numbered : StmtKind → Numbered StmtKind
  | .expr value => do return .expr (← value.numbered)
  | .assign left op right => do
      let left ← numberedExprs left
      return .assign left op (← numberedExprs right)
  | .spawn call => do return .spawn (← call.numbered)
  | .defer call => do return .defer (← call.numbered)
  | .ret results => do return .ret (← numberedExprs results)
  | .block block => do return .block (← block.numbered)
  | .cond none test body none => do
      let test ← test.numbered
      return .cond none test (← body.numbered) none
  | .cond none test body (some ⟨kind, decs⟩) => do
      let test ← test.numbered
      let body ← body.numbered
      return .cond none test body (some ⟨← kind.numbered, decs⟩)
  | .loop .infinite body => do return .loop .infinite (← body.numbered)
  | .loop (.cond test) body => do
      let test ← test.numbered
      return .loop (.cond test) (← body.numbered)
  | kind => pure kind

def Block.numbered : Block → Numbered Block
  | ⟨stmts, trailing, inline⟩ => do return ⟨← numberedStmts stmts, trailing, inline⟩

def numberedStmts : List Stmt → Numbered (List Stmt)
  | [] => pure []
  | ⟨kind, decs⟩ :: stmts => do
      let kind ← kind.numbered
      return ⟨kind, decs⟩ :: (← numberedStmts stmts)

end

variable {source : Source}

/-! ## Lists of expressions -/

/-- The tree is a list on one row that reads as the expressions. -/
structure StandsList (source : Source) (row : Nat) (exprs : List Expr) (tree : Concrete) : Prop where
  kind_eq : tree.kind = .exprList
  startRow : tree.span.startRow = row
  stopRow : tree.span.stopRow = row
  reads : ∀ height, tree.height ≤ height + 1 →
    Reading.exprList (Reading.readers source height) tree = numberedExprs exprs
  single : ∀ expr, exprs = [expr] →
    ∃ value, tree.children = [value] ∧ value.role = .plain ∧ Stands source row expr value

theorem mapM_expr {row : Nat} {exprs : List Expr} {trees : List Concrete}
    (h : List.Forall₂ (Stands source row) exprs trees) {below : Reading.Below}
    (hbelow : ∀ tree ∈ trees, ∀ expr, Stands source row expr tree → below.expr tree = expr.numbered) :
    trees.mapM below.expr = numberedExprs exprs := by
  induction h with
  | nil => rfl
  | cons hstands _ ih =>
      have hexpr := hbelow _ List.mem_cons_self _ hstands
      have hrest := ih fun tree hmem => hbelow tree (List.mem_cons_of_mem _ hmem)
      rw [List.mapM_cons, hexpr, hrest, numberedExprs]

theorem stands_list {row : Nat} {expr : Expr} {exprs : List Expr} {tree : Concrete}
    {trees items : List Concrete} (hfirst : Stands source row expr tree) (hrole : tree.role = .plain)
    (hrest : List.Forall₂ (Stands source row) exprs trees)
    (hitems : items.filter Concrete.isNamed = trees)
    (hrows : ∀ item ∈ items, item.span.stopRow = row) (hnil : exprs = [] → items = []) :
    StandsList source row (expr :: exprs) (.node .exprList (tree :: items)) where
  kind_eq := rfl
  startRow := (Concrete.startRow_node .exprList tree items).trans hfirst.startRow
  stopRow := by
    have hlast : ∀ item ∈ tree :: items, item.span.stopRow = row := by
      intro item hmem
      obtain rfl | hmem := List.mem_cons.1 hmem
      · exact hfirst.stopRow
      · exact hrows item hmem
    obtain ⟨front, last, hsplit⟩ := List.eq_nil_or_concat (tree :: items) |>.resolve_left
      (List.cons_ne_nil _ _)
    rw [hsplit, List.concat_eq_append, Concrete.stopRow_node]
    exact hlast last (by simp [hsplit])
  reads height hheight := by
    have hall : List.Forall₂ (Stands source row) (expr :: exprs) (tree :: trees) :=
      .cons hfirst hrest
    have hnamed : (Concrete.node .exprList (tree :: items)).named.filter (!·.isComment) =
        tree :: trees := by
      have hnone : ∀ other ∈ tree :: trees, other.isComment = false := fun other hmem =>
        (Stands.rows hall other hmem).1
      rw [Concrete.named_node, List.filter_cons_of_pos hfirst.isNamed, hitems,
        List.filter_eq_self.2 fun other hmem => by simp [hnone other hmem]]
    have hkind : (Concrete.node .exprList (tree :: items)).kind = .exprList := rfl
    rw [Reading.exprList, if_pos (by rw [hkind]; rfl), hnamed]
    refine mapM_expr hall fun other hmem expr hstands => hstands.reads_child ?_ hheight
    obtain rfl | hmem := List.mem_cons.1 hmem
    · exact List.mem_cons_self
    · rw [← hitems] at hmem
      exact List.mem_cons_of_mem _ (List.mem_of_mem_filter hmem)
  single other hother := by
    obtain ⟨rfl, rfl⟩ := List.cons.inj hother
    rw [hnil rfl]
    exact ⟨tree, rfl, hrole, hfirst⟩

theorem StandsList.reads_child {row : Nat} {exprs : List Expr} {child parent : Concrete}
    {height : Nat} (h : StandsList source row exprs child) (hmem : child ∈ parent.children)
    (hheight : parent.height ≤ height + 1) :
    Reading.exprList (Reading.readers source height) child = numberedExprs exprs := by
  have hlt := Concrete.height_lt hmem
  exact h.reads height (by omega)

theorem StandsList.as {row : Nat} {exprs : List Expr} {tree : Concrete}
    (h : StandsList source row exprs tree) (role : Role) :
    StandsList source row exprs (tree.as role) := by
  obtain ⟨kind, _, span, children⟩ := tree
  obtain rfl : kind = .exprList := h.kind_eq
  refine ⟨rfl, h.startRow, h.stopRow, fun height hheight => ?_, h.single⟩
  rw [← h.reads height hheight]
  rfl

/-! ## Trees that read as statements -/

def statementKinds : List NodeKind :=
  [.exprStmt, .shortVar, .assignment, .spawnStmt, .deferStmt, .returnStmt, .block, .ifStmt, .forStmt]

/-- The tree goes from one row to another and reads as the statement. -/
structure StandsStmt (source : Source) (row last : Nat) (kind : StmtKind) (tree : Concrete) :
    Prop where
  kind_mem : tree.kind ∈ statementKinds
  startRow : tree.span.startRow = row
  stopRow : tree.span.stopRow = last
  reads : ∀ height, tree.height ≤ height + 1 →
    Reading.stmt source (Reading.readers source height) tree = kind.numbered

/-- The tree goes from one row to another and reads as the block. -/
structure StandsBlock (source : Source) (row last : Nat) (block : Block) (tree : Concrete) :
    Prop where
  kind_eq : tree.kind = .block
  startRow : tree.span.startRow = row
  stopRow : tree.span.stopRow = last
  reads : ∀ height, tree.height ≤ height + 1 →
    Reading.block source (Reading.readers source height) tree = block.numbered

namespace StandsStmt

variable {row last : Nat} {kind : StmtKind} {tree : Concrete}

/-- The tree is none of the nodes that are treated in a way of their own. -/
theorem kind_ne (h : StandsStmt source row last kind tree) {special : NodeKind}
    (hspecial : special ∉ statementKinds) : (tree.kind == special) = false := by
  refine beq_eq_false_iff_ne.2 fun heq => hspecial ?_
  rw [← heq]
  exact h.kind_mem

theorem isNamed (h : StandsStmt source row last kind tree) : tree.isNamed = true := by
  have hkind := h.kind_mem
  unfold Concrete.isNamed
  split
  · next heq =>
    rw [heq] at hkind
    simp [statementKinds] at hkind
  · rfl

theorem isComment (h : StandsStmt source row last kind tree) : tree.isComment = false :=
  h.kind_ne (by decide)

theorem as (h : StandsStmt source row last kind tree) (role : Role) :
    StandsStmt source row last kind (tree.as role) := by
  obtain ⟨kind, _, span, children⟩ := tree
  refine ⟨h.kind_mem, h.startRow, h.stopRow, fun height hheight => ?_⟩
  rw [← h.reads height hheight]
  rfl

theorem reads_child {child parent : Concrete} {height : Nat}
    (h : StandsStmt source row last kind child) (hmem : child ∈ parent.children)
    (hheight : parent.height ≤ height + 1) :
    (Reading.readers source height).stmt child = kind.numbered := by
  have hlt := Concrete.height_lt hmem
  cases height with
  | zero =>
      obtain ⟨_, _, _, children⟩ := child
      simp [Concrete.height] at hlt
      omega
  | succ height => exact h.reads height (by omega)

/-! ### Simple statements -/

theorem expr {value : Expr} {tree list : Concrete} (hlist : StandsList source row [value] list)
    (htree : list.children = [tree]) :
    StandsStmt source row row (.expr value) (.node .exprStmt [tree]) := by
  obtain ⟨other, hother, hrole, h⟩ := hlist.single value rfl
  obtain rfl : tree = other := by simpa [htree] using hother
  refine ⟨show NodeKind.exprStmt ∈ _ by decide, h.startRow, h.stopRow, fun height hheight => ?_⟩
  have hreads := h.reads_child (by simp [Concrete.node]) hheight
  have hnamed : (Concrete.node .exprStmt [tree]).named = [tree] := by simp [h.isNamed]
  have hcomment : (Concrete.node .exprStmt [tree]).hasComment = false := by simp [h.isComment]
  generalize hnode : Concrete.node .exprStmt _ = node at hcomment hnamed ⊢
  have hkind : node.kind = .exprStmt := by rw [← hnode]; rfl
  simp [Reading.stmt, hkind, hcomment, hnamed, hreads, StmtKind.numbered]

def assignTree (op : AssignOp) (first : Concrete) (sign : Lexeme) (second : Concrete) : Concrete :=
  match op with
  | .define => .node .shortVar [first.as .left, .token sign, second.as .right]
  | .assign => .node .assignment [first.as .left, (Concrete.token sign).as .op, second.as .right]

theorem assign {left right : List Expr} {first second : Concrete} {lexeme : Lexeme}
    {op : AssignOp} (hleft : StandsList source row left first)
    (hright : StandsList source row right second) (his : lexeme.Is row .symbol op.symbol) :
    StandsStmt source row row (.assign left op right)
      (assignTree op first lexeme second) := by
  have hnot : first.isComment = false ∧ second.isComment = false := by
    rw [Concrete.isComment, Concrete.isComment, hleft.kind_eq, hright.kind_eq]
    exact ⟨rfl, rfl⟩
  cases op with
  | define =>
      rw [assignTree]
      refine ⟨show NodeKind.shortVar ∈ _ by decide, hleft.startRow, hright.stopRow,
        fun height hheight => ?_⟩
      have hfirst := (hleft.as .left).reads_child (by simp [Concrete.node]) hheight
      have hsecond := (hright.as .right).reads_child (by simp [Concrete.node]) hheight
      have hcomment : (Concrete.node .shortVar
          [first.as .left, .token lexeme, second.as .right]).hasComment = false := by simp [hnot]
      generalize hnode : Concrete.node .shortVar _ = node at hcomment ⊢
      have hkind : node.kind = .shortVar := by rw [← hnode]; rfl
      have hchildren : node.child? .left = some (first.as .left) ∧
          node.child? .right = some (second.as .right) := by
        rw [← hnode]
        exact ⟨rfl, rfl⟩
      simp [Reading.stmt, hkind, hcomment, Reading.exprListIn, hchildren, hfirst, hsecond,
        StmtKind.numbered]
  | assign =>
      rw [assignTree]
      refine ⟨show NodeKind.assignment ∈ _ by decide, hleft.startRow, hright.stopRow,
        fun height hheight => ?_⟩
      have hfirst := (hleft.as .left).reads_child (by simp [Concrete.node]) hheight
      have hsecond := (hright.as .right).reads_child (by simp [Concrete.node]) hheight
      have hcomment : (Concrete.node .assignment [first.as .left, (Concrete.token lexeme).as .op,
          second.as .right]).hasComment = false := by simp [hnot]
      have hsign : ((Concrete.token lexeme).as .op).isToken "=" = true := by
        show (NodeKind.token lexeme.text == .token "=") = true
        rw [his.text_eq]
        rfl
      generalize hnode : Concrete.node .assignment _ = node at hcomment ⊢
      have hkind : node.kind = .assignment := by rw [← hnode]; rfl
      have hchildren : node.child? .left = some (first.as .left) ∧
          node.child? .op = some ((Concrete.token lexeme).as .op) ∧
          node.child? .right = some (second.as .right) := by
        rw [← hnode]
        exact ⟨rfl, rfl, rfl⟩
      simp [Reading.stmt, hkind, hcomment, Reading.exprListIn, hchildren, hsign, hfirst, hsecond,
        StmtKind.numbered]

/-- A call behind a keyword. -/
theorem launch {call : Expr} {word : Lexeme} {text : String} {tree : Concrete}
    (h : Stands source row call tree) (his : word.Is row .word text) :
    StandsStmt source row row (.spawn call) (.node .spawnStmt [.token word, tree]) ∧
      StandsStmt source row row (.defer call) (.node .deferStmt [.token word, tree]) := by
  have hread : ∀ kind height, (Concrete.node kind [.token word, tree]).height ≤ height + 1 →
      (Reading.readers source height).expr tree = call.numbered :=
    fun kind height hheight => h.reads_child (by simp [Concrete.node]) hheight
  have hnamed : ∀ kind, (Concrete.node kind [.token word, tree]).named = [tree] := by
    simp [h.isNamed]
  have hcomment : ∀ kind, (Concrete.node kind [.token word, tree]).hasComment = false := by
    simp [h.isComment]
  constructor
  · refine ⟨show NodeKind.spawnStmt ∈ _ by decide, his.startRow_eq, h.stopRow,
      fun height hheight => ?_⟩
    have hkind : (Concrete.node .spawnStmt [.token word, tree]).kind = .spawnStmt := rfl
    simp only [Reading.stmt, hkind, hcomment, hnamed, hread _ height hheight, StmtKind.numbered]
    rfl
  · refine ⟨show NodeKind.deferStmt ∈ _ by decide, his.startRow_eq, h.stopRow,
      fun height hheight => ?_⟩
    have hkind : (Concrete.node .deferStmt [.token word, tree]).kind = .deferStmt := rfl
    simp only [Reading.stmt, hkind, hcomment, hnamed, hread _ height hheight, StmtKind.numbered]
    rfl

theorem ret_nil {word : Lexeme} {text : String} (his : word.Is row .word text) :
    StandsStmt source row row (.ret []) (.node .returnStmt [.token word]) :=
  ⟨show NodeKind.returnStmt ∈ _ by decide, his.startRow_eq, his.stopRow_eq, fun _ _ => rfl⟩

theorem ret {results : List Expr} {word : Lexeme} {text : String} {list : Concrete}
    (h : StandsList source row results list) (his : word.Is row .word text) :
    StandsStmt source row row (.ret results) (.node .returnStmt [.token word, list]) := by
  refine ⟨show NodeKind.returnStmt ∈ _ by decide, his.startRow_eq, h.stopRow,
    fun height hheight => ?_⟩
  have hread := h.reads_child (by simp [Concrete.node]) hheight
  have hlisted : list.isNamed = true ∧ list.isComment = false := by
    rw [Concrete.isNamed, Concrete.isComment, h.kind_eq]
    exact ⟨rfl, rfl⟩
  have hnamed : (Concrete.node .returnStmt [.token word, list]).named = [list] := by simp [hlisted]
  have hcomment : (Concrete.node .returnStmt [.token word, list]).hasComment = false := by
    simp [hlisted]
  have hkind : (Concrete.node .returnStmt [.token word, list]).kind = .returnStmt := rfl
  simp only [Reading.stmt, hkind, hcomment, hnamed, hread, StmtKind.numbered]
  rfl

end StandsStmt

/-! ### Blocks -/

theorem rowGap_rows (row : Nat) (gap : Gap) : rowGap row (row + gap.rows) = gap := by
  cases gap <;> simp [rowGap, Gap.rows]

/-- The trees stand where the room in front of each of them says. -/
inductive Rowed : Nat → List Decorations → List Concrete → Prop where
  | nil {row : Nat} : Rowed row [] []
  | cons {row : Nat} {decs : Decorations} {others : List Decorations} {tree : Concrete}
      {trees : List Concrete} : decs.isRoom = true → tree.isComment = false →
      tree.span.startRow = row + decs.before.rows → Rowed tree.span.stopRow others trees →
      Rowed row (decs :: others) (tree :: trees)

/-- The rows of the trees give back the decorations. -/
theorem Rowed.attach_eq {row : Nat} {decorations : List Decorations} {trees : List Concrete}
    (h : Rowed row decorations trees) : attach source row trees = ⟨trees.zip decorations, []⟩ := by
  have hfold : ∀ done, ∃ last, trees.foldl (Attaching.add source) { done, row } =
      { done := (trees.zip decorations).reverse ++ done, row := last } := by
    induction h with
    | nil => exact fun done => ⟨_, rfl⟩
    | @cons row decs others tree trees hroom hcomment hstart _ ih =>
        intro done
        have hadd : Attaching.add source { done, row } tree =
            { done := (tree, decs) :: done, row := tree.span.stopRow } := by
          have hdecs : decs = { before := decs.before } := eq_of_beq hroom
          rw [hdecs]
          simp [Attaching.add, hcomment, Attaching.addNode, hstart, rowGap_rows]
        obtain ⟨last, hrest⟩ := ih ((tree, decs) :: done)
        refine ⟨last, ?_⟩
        rw [List.foldl_cons, hadd, hrest]
        simp
  obtain ⟨last, hlast⟩ := hfold []
  unfold attach
  rw [hlast]
  simp [Attaching.finish]

/-- The trees stand for the statements, each behind its room. -/
inductive StandsStmts (source : Source) : Nat → List Stmt → List Concrete → Prop where
  | nil {row : Nat} : StandsStmts source row [] []
  | cons {row last : Nat} {kind : StmtKind} {decs : Decorations} {stmts : List Stmt}
      {tree : Concrete} {trees : List Concrete} : decs.isRoom = true →
      StandsStmt source (row + decs.before.rows) last kind tree →
      StandsStmts source last stmts trees →
      StandsStmts source row (⟨kind, decs⟩ :: stmts) (tree :: trees)

namespace StandsStmts

variable {row : Nat} {stmts : List Stmt} {trees : List Concrete}

theorem listed (h : StandsStmts source row stmts trees) :
    ∀ tree ∈ trees, (tree.isNamed && tree.kind != .emptyStmt) = true := by
  induction h with
  | nil => simp
  | cons _ hstands _ ih =>
      intro tree hmem
      obtain rfl | hmem := List.mem_cons.1 hmem
      · rw [hstands.isNamed, bne, hstands.kind_ne (by decide)]
        rfl
      · exact ih tree hmem

theorem rowed (h : StandsStmts source row stmts trees) : Rowed row (stmts.map (·.decs)) trees := by
  induction h with
  | nil => exact .nil
  | cons hroom hstands _ ih =>
      exact .cons hroom hstands.isComment hstands.startRow (hstands.stopRow ▸ ih)

theorem reads (h : StandsStmts source row stmts trees) {below : Reading.Below}
    (hbelow : ∀ tree ∈ trees, ∀ {row last kind}, StandsStmt source row last kind tree →
      below.stmt tree = kind.numbered) :
    Reading.stmts below (trees.zip (stmts.map (·.decs))) = numberedStmts stmts := by
  induction h with
  | nil => rfl
  | cons _ hstands _ ih =>
      have hstmt := hbelow _ List.mem_cons_self hstands
      have hrest := ih fun tree hmem => hbelow tree (List.mem_cons_of_mem _ hmem)
      rw [Reading.stmts] at hrest ⊢
      simp only [List.map_cons, List.zip_cons_cons, List.mapM_cons, hrest, hstmt, numberedStmts]
      simp

end StandsStmts

namespace StandsBlock

variable {row last : Nat} {block : Block} {tree : Concrete}

theorem of_stmts {stmts : List Stmt} {inline : Bool} {trees items : List Concrete}
    {opening closing : Lexeme} (h : StandsStmts source row stmts trees)
    (hitems : Reading.listItems items = trees) (hopening : opening.Is row .symbol "\x7b")
    (hclosing : closing.Is last .symbol "\x7d") (hinline : inline = (last == row)) :
    StandsBlock source row last ⟨stmts, [], inline⟩
      (.node .block (.token opening :: items ++ [.token closing])) := by
  refine ⟨rfl, (Concrete.startRow_node .block _ _).trans hopening.startRow_eq,
    (Concrete.stopRow_node .block (.token opening :: items) (.token closing)).trans
      hclosing.stopRow_eq, fun height hheight => ?_⟩
  generalize hnode : Concrete.node .block (.token opening :: items ++ [.token closing]) = node
    at hheight ⊢
  have hstart : node.span.startRow = row := by
    rw [← hnode]
    exact (Concrete.startRow_node .block _ _).trans hopening.startRow_eq
  have hstop : node.span.stopRow = last := by
    rw [← hnode]
    exact (Concrete.stopRow_node .block (.token opening :: items) (.token closing)).trans
      hclosing.stopRow_eq
  have hchildren : node.children = .token opening :: items ++ [.token closing] := by
    rw [← hnode]
    rfl
  have hlist : Reading.listItems node.children = trees := by
    rw [hchildren, ← hitems]
    simp [Reading.listItems]
  have hreads := h.reads fun tree hmem {row last kind} hstands => hstands.reads_child
    (List.mem_of_mem_filter (hlist ▸ hmem : tree ∈ Reading.listItems node.children)) hheight
  unfold Reading.block
  rw [hlist, hstart, h.rowed.attach_eq]
  dsimp only
  rw [hreads, hstop, hinline]
  rfl

theorem as (h : StandsBlock source row last block tree) (role : Role) :
    StandsBlock source row last block (tree.as role) := by
  obtain ⟨kind, _, span, children⟩ := tree
  refine ⟨h.kind_eq, h.startRow, h.stopRow, fun height hheight => ?_⟩
  rw [← h.reads height hheight]
  rfl

theorem isComment (h : StandsBlock source row last block tree) : tree.isComment = false := by
  rw [Concrete.isComment, h.kind_eq]
  rfl

theorem reads_child {child parent : Concrete} {height : Nat}
    (h : StandsBlock source row last block child) (hmem : child ∈ parent.children)
    (hheight : parent.height ≤ height + 1) :
    (Reading.readers source height).block child = block.numbered := by
  have hlt := Concrete.height_lt hmem
  cases height with
  | zero =>
      obtain ⟨_, _, _, children⟩ := child
      simp [Concrete.height] at hlt
      omega
  | succ height => exact h.reads height (by omega)

/-- A block that is a statement by itself. -/
theorem stmt (h : StandsBlock source row last block tree) :
    StandsStmt source row last (.block block) tree := by
  refine ⟨h.kind_eq ▸ by decide, h.startRow, h.stopRow, fun height hheight => ?_⟩
  have hreads := h.reads height hheight
  simp [Reading.stmt, h.kind_eq, hreads, StmtKind.numbered]

end StandsBlock

/-! ### Conditionals and loops -/

namespace StandsStmt

variable {row last : Nat} {test : Expr} {body : Block} {word : Lexeme} {text : String}
variable {condition tree : Concrete}

theorem cond (his : word.Is row .word text) (htest : Stands source row test condition)
    (hbody : StandsBlock source row last body tree) :
    StandsStmt source row last (.cond none test body none)
      (.node .ifStmt [.token word, condition.as .condition, tree.as .body]) := by
  refine ⟨show NodeKind.ifStmt ∈ _ by decide, his.startRow_eq, hbody.stopRow,
    fun height hheight => ?_⟩
  have hexpr := (htest.as .condition).reads_child (by simp [Concrete.node]) hheight
  have hblock := (hbody.as .body).reads_child (by simp [Concrete.node]) hheight
  have hcomment : (Concrete.node .ifStmt
      [.token word, condition.as .condition, tree.as .body]).hasComment = false := by
    simp [htest.isComment, hbody.isComment]
  generalize hnode : Concrete.node .ifStmt _ = node at hcomment ⊢
  have hkind : node.kind = .ifStmt := by rw [← hnode]; rfl
  have hchildren : node.child? .condition = some (condition.as .condition) ∧
      node.child? .body = some (tree.as .body) ∧ node.child? .init = none ∧
      node.child? .alternative = none := by
    rw [← hnode]
    exact ⟨rfl, rfl, rfl, rfl⟩
  simp [Reading.stmt, hkind, hcomment, Reading.ifStmt, hchildren, hexpr, hblock, StmtKind.numbered]

theorem condElse {middle : Nat} {kind : StmtKind} {otherwise : Lexeme} {alternative : Concrete}
    (his : word.Is row .word text) (htest : Stands source row test condition)
    (hbody : StandsBlock source row middle body tree)
    (halternative : StandsStmt source middle last kind alternative) :
    StandsStmt source row last (.cond none test body (some ⟨kind, {}⟩))
      (.node .ifStmt [.token word, condition.as .condition, tree.as .body, .token otherwise,
        alternative.as .alternative]) := by
  refine ⟨show NodeKind.ifStmt ∈ _ by decide, his.startRow_eq, halternative.stopRow,
    fun height hheight => ?_⟩
  have hexpr := (htest.as .condition).reads_child (by simp [Concrete.node]) hheight
  have hblock := (hbody.as .body).reads_child (by simp [Concrete.node]) hheight
  have hstmt := (halternative.as .alternative).reads_child (by simp [Concrete.node]) hheight
  have hcomment : (Concrete.node .ifStmt [.token word, condition.as .condition, tree.as .body,
      .token otherwise, alternative.as .alternative]).hasComment = false := by
    simp [htest.isComment, hbody.isComment, halternative.isComment]
  generalize hnode : Concrete.node .ifStmt _ = node at hcomment ⊢
  have hkind : node.kind = .ifStmt := by rw [← hnode]; rfl
  have hchildren : node.child? .condition = some (condition.as .condition) ∧
      node.child? .body = some (tree.as .body) ∧ node.child? .init = none ∧
      node.child? .alternative = some (alternative.as .alternative) := by
    rw [← hnode]
    exact ⟨rfl, rfl, rfl, rfl⟩
  simp [Reading.stmt, hkind, hcomment, Reading.ifStmt, hchildren, hexpr, hblock, Reading.bareStmt,
    hstmt, StmtKind.numbered]

theorem forever (his : word.Is row .word text) (hbody : StandsBlock source row last body tree) :
    StandsStmt source row last (.loop .infinite body)
      (.node .forStmt [.token word, tree.as .body]) := by
  refine ⟨show NodeKind.forStmt ∈ _ by decide, his.startRow_eq, hbody.stopRow,
    fun height hheight => ?_⟩
  have hblock := (hbody.as .body).reads_child (by simp [Concrete.node]) hheight
  have hcomment : (Concrete.node .forStmt [.token word, tree.as .body]).hasComment = false := by
    simp [hbody.isComment]
  have hheader : (Concrete.node .forStmt [.token word, tree.as .body]).named.filter
      (·.role != .body) = [] := by
    rw [Concrete.named_node, List.filter_filter]
    simp [Concrete.as]
  generalize hnode : Concrete.node .forStmt _ = node at hcomment hheader ⊢
  have hkind : node.kind = .forStmt := by rw [← hnode]; rfl
  have hchild : node.child? .body = some (tree.as .body) := by rw [← hnode]; rfl
  simp [Reading.stmt, hkind, hcomment, Reading.forStmt, hchild, hheader, hblock, StmtKind.numbered]

theorem loop (his : word.Is row .word text) (hrole : condition.role = .plain)
    (htest : Stands source row test condition) (hbody : StandsBlock source row last body tree) :
    StandsStmt source row last (.loop (.cond test) body)
      (.node .forStmt [.token word, condition, tree.as .body]) := by
  refine ⟨show NodeKind.forStmt ∈ _ by decide, his.startRow_eq, hbody.stopRow,
    fun height hheight => ?_⟩
  have hexpr := htest.reads_child (by simp [Concrete.node]) hheight
  have hblock := (hbody.as .body).reads_child (by simp [Concrete.node]) hheight
  have hcomment : (Concrete.node .forStmt
      [.token word, condition, tree.as .body]).hasComment = false := by
    simp [htest.isComment, hbody.isComment]
  have hheader : (Concrete.node .forStmt [.token word, condition, tree.as .body]).named.filter
      (·.role != .body) = [condition] := by
    rw [Concrete.named_node, List.filter_filter]
    simp [Concrete.as, htest.isNamed, hrole]
  have hclauses : condition.kind ≠ .loopClauses ∧ condition.kind ≠ .rangeClause := by
    constructor
    · exact beq_eq_false_iff_ne.1 (htest.kind_ne (by decide))
    · exact beq_eq_false_iff_ne.1 (htest.kind_ne (by decide))
  generalize hnode : Concrete.node .forStmt _ = node at hcomment hheader ⊢
  have hkind : node.kind = .forStmt := by rw [← hnode]; rfl
  have hchild : node.child? .body = some (tree.as .body) := by
    rw [← hnode]
    simp [Concrete.child?, Concrete.node, Concrete.token, Concrete.leaf, Concrete.as, hrole]
  simp [Reading.stmt, hkind, hcomment, Reading.forStmt, hchild, hheader, hexpr, hblock, hclauses,
    StmtKind.numbered]

end StandsStmt

end TraceWeave.Syntax
