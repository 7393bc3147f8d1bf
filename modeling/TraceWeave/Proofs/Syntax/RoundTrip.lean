import TraceWeave.Proofs.Syntax.Files
import TraceWeave.Syntax.Build

/-!
Plain files are read back as they were printed.

The grammar parses the lexemes of a plain file into a tree with one item for each declaration, and
reading the tree gives the file with its identifiers numbered.
-/

namespace TraceWeave.Syntax

open TraceWeave.Syntax.Parser TraceWeave.Syntax.Grammar

variable {source : Source}

/-! ## Functions -/

/-- No type starts with a bracket that closes a list or opens a body. -/
theorem read_type_bracket {lexeme : Lexeme} {row : Nat} {text : String}
    (his : lexeme.Is row .symbol text) (htext : text ∈ [")", "\x7b"]) (n : Nat) (breaks : Bool)
    (rest : List Lexeme) : read n (.type breaks) (lexeme :: rest) = none := by
  cases n with
  | zero => rfl
  | succ n =>
      show typeRule (read n) breaks (lexeme :: rest) = none
      rw [typeRule, run_bind (run_upcoming _ _), front_cons his.isTrivia_symbol]
      simp only [his.kind_eq, his.text_eq]
      obtain rfl | rfl : text = ")" ∨ text = "\x7b" := by simpa using htext
      all_goals rfl

/-- A name in front of a symbol is missing. -/
theorem Lexeme.Is.run_name_none {lexeme : Lexeme} {row : Nat} {text : String}
    (his : lexeme.Is row .symbol text) (rest : List Lexeme) : name (lexeme :: rest) = none := by
  rw [name, run_bind_none (run_take_none his.isTrivia_symbol (by simp [his.kind_eq]) rest)]

theorem run_orElse_none {α : Type} {first second : Parser α} {input : List Lexeme}
    (hfirst : first input = none) (hsecond : second input = none) :
    (first <|> second) input = none := by
  show (first input).orElse _ = _
  rw [hfirst]
  exact hsecond

theorem run_parameterEntry_none {closing : Lexeme} {row : Nat} (his : closing.Is row .symbol ")")
    (n : Nat) (rest : List Lexeme) : parameterEntry (read n) (closing :: rest) = none := by
  have hname := his.run_name_none rest
  unfold parameterEntry
  refine run_orElse_none ?_ (run_orElse_none ?_ ?_)
  · rw [run_bind (run_maybe_none hname)]
    exact run_bind_none (his.run_symbol_none (show ")" ≠ "..." by decide) rest)
  · rw [run_bind (run_upcoming _ _), front_cons his.isTrivia_symbol]
    simp only [his.text_eq]
    exact run_bind_none hname
  · exact run_bind_none (read_type_bracket his (by simp) n false rest)

theorem run_parameterList_nil {opening closing : Lexeme} {row : Nat}
    (hopening : opening.Is row .symbol "(") (hclosing : closing.Is row .symbol ")") (n : Nat)
    (rest : List Lexeme) :
    parameterList (read n) (opening :: closing :: rest) =
      some (.node .parameterList [.token opening, .token closing], rest) := by
  have hcomma := run_maybe_none (hclosing.run_symbol_none (show ")" ≠ "," by decide) rest)
  rw [parameterList, run_bind (hopening.run_symbol _),
    run_bind (RunsMany.nil (run_bind_none (run_parameterEntry_none hclosing n rest))).run_many]
  simp only [List.isEmpty_nil, if_true]
  rw [run_bind hcomma, run_bind (hclosing.run_symbol _)]
  rfl

theorem run_result_nil {opening : Lexeme} {row : Nat} (his : opening.Is row .symbol "\x7b") (n : Nat)
    (rest : List Lexeme) :
    result (read n) true (opening :: rest) = some ([], opening :: rest) := by
  have hfront : front true (opening :: rest) = some opening := front_cons his.isTrivia_symbol _ _
  have hparen : (front true (opening :: rest)).any (·.isSymbol "(") = false := by
    simp [hfront, his.isSymbol]
  rw [result, run_bind (run_nextIs _ _ _), hparen, if_neg Bool.false_ne_true,
    run_bind (run_upcoming _ _), hfront]
  simp only [his.kind_eq]
  rw [if_neg (by decide), run_bind (run_maybe_none (read_type_bracket his (by simp) n true rest))]
  rfl

/-- The tree of a function without parameters. -/
def funcTree (word name opening closing : Lexeme) (body : Concrete) : Concrete :=
  .node .funcDecl [.token word, (Concrete.leaf .identifier name).as .name,
    (Concrete.node .parameterList [.token opening, .token closing]).as .params, body.as .body]

theorem run_funcDecl {word name opening closing brace : Lexeme} {row row' : Nat} {text : String}
    (hword : word.Is row .word "func") (hname : name.Is row .word text)
    (hopening : opening.Is row .symbol "(") (hclosing : closing.Is row .symbol ")")
    (hbrace : brace.Is row' .symbol "\x7b") {n : Nat} {inner rest : List Lexeme} {body : Concrete}
    (hbody : read n .block (brace :: inner) = some (body, rest)) :
    funcDecl (read n) (word :: name :: opening :: closing :: brace :: inner) =
      some (funcTree word name opening closing body, rest) := by
  have hreceiver : ∀ rest, (front false (name :: rest)).any (·.isSymbol "(") = false := by
    intro rest
    rw [front_cons hname.isTrivia_word]
    exact hname.isSymbol_word _
  have hbracket : ∀ rest, (front false (opening :: rest)).any (·.isSymbol "[") = false := by
    intro rest
    rw [front_cons hopening.isTrivia_symbol]
    simp [hopening.isSymbol]
  have hopens : (front true (brace :: inner)).any (·.isSymbol "\x7b") = true := by
    rw [front_cons hbrace.isTrivia_symbol]
    simp [hbrace.isSymbol]
  rw [funcDecl, run_bind (hword.run_keyword _), run_bind (run_nextIs _ _ _), hreceiver,
    if_neg Bool.false_ne_true, pure_bind]
  dsimp only
  rw [run_bind (hname.run_name _), run_bind (run_nextIs _ _ _), hbracket, Bool.and_false,
    if_neg Bool.false_ne_true, pure_bind]
  rw [run_bind (run_parameterList_nil hopening hclosing n _), run_bind (run_result_nil hbrace n _),
    run_bind (run_nextIs _ _ _), hopens, if_pos rfl, run_bind hbody]
  rfl

/-! ## Reading functions -/

/-- The function with its identifiers numbered in source order. -/
def FuncDecl.numbered (decl : FuncDecl) : Numbered FuncDecl := do
  let name ← decl.name.numbered
  return { decl with name, body := ← decl.body.mapM Block.numbered }

/-- The tree goes from one row to another and reads as the function. -/
structure StandsFunc (source : Source) (row last : Nat) (decl : FuncDecl) (tree : Concrete) :
    Prop where
  kind_eq : tree.kind = .funcDecl
  startRow : tree.span.startRow = row
  stopRow : tree.span.stopRow = last
  reads : ∀ height, tree.height ≤ height + 1 →
    Reading.funcDecl source (Reading.readers source height) tree = decl.numbered

theorem stands_func {word name : Lexeme} (opening closing : Lexeme) {row last : Nat}
    {ident : Ident} {body : Block} {tree : Concrete} (hword : word.Is row .word "func")
    (hname : name.Is row .word ident.name) (hholds : source.Holds name)
    (hbody : StandsBlock source row last body tree) :
    StandsFunc source row last ⟨none, ident, none, ⟨[], false⟩, none, some body⟩
      (funcTree word name opening closing tree) := by
  refine ⟨rfl, hword.startRow_eq, hbody.stopRow, fun height hheight => ?_⟩
  have hident := Stands.reads_ident hname hholds
  have hblock := (hbody.as .body).reads_child (by simp [funcTree, Concrete.node]) hheight
  have hlist : ∀ below, Reading.fieldList source below
      ((Concrete.node .parameterList [.token opening, .token closing]).as .params) =
        pure ⟨[], false⟩ := fun _ => rfl
  generalize hnode : funcTree word name opening closing tree = node
  have hchildren : node.child? .receiver = none ∧
      node.child? .name = some ((Concrete.leaf .identifier name).as .name) ∧
      node.child? .typeParams = none ∧
      node.child? .params =
        some ((Concrete.node .parameterList [.token opening, .token closing]).as .params) ∧
      node.child? .result = none ∧ node.child? .body = some (tree.as .body) := by
    rw [← hnode]
    exact ⟨rfl, rfl, rfl, rfl, rfl, rfl⟩
  have hread : Reading.ident source ((Concrete.leaf .identifier name).as .name) = ident.numbered :=
    hident
  simp [Reading.funcDecl, Reading.paramsOf, Reading.resultsOf, hchildren, hread, hlist, hblock,
    FuncDecl.numbered]

/-! ## Items of a file -/

/-- The trees stand for the declarations, each behind its room. -/
inductive StandsDecls (source : Source) : Nat → List Decl → List Concrete → Prop where
  | nil {row : Nat} : StandsDecls source row [] []
  | cons {row last : Nat} {decl : FuncDecl} {decs : Decorations} {decls : List Decl}
      {tree : Concrete} {trees : List Concrete} : decs.isRoom = true →
      StandsFunc source (row + decs.before.rows) last decl tree →
      StandsDecls source last decls trees →
      StandsDecls source row (⟨.func decl, decs⟩ :: decls) (tree :: trees)

def Decl.numbered : Decl → Numbered Decl
  | ⟨.func decl, decs⟩ => do return ⟨.func (← decl.numbered), decs⟩
  | decl => pure decl

def File.numbered (file : File) : Numbered File := do
  return { file with decls := ← file.decls.mapM Decl.numbered }

namespace StandsDecls

variable {row : Nat} {decls : List Decl} {trees : List Concrete}

theorem rowed (h : StandsDecls source row decls trees) : Rowed row (decls.map (·.decs)) trees := by
  induction h with
  | nil => exact .nil
  | cons hroom hstands _ ih =>
      refine .cons hroom ?_ hstands.startRow (hstands.stopRow ▸ ih)
      rw [Concrete.isComment, hstands.kind_eq]
      rfl

theorem reads (h : StandsDecls source row decls trees) {height : Nat}
    (hheight : ∀ tree ∈ trees, tree.height ≤ height + 1) (file : File) :
    (trees.zip (decls.map (·.decs))).foldlM
        (Reading.fileItem source (Reading.readers source height)) file =
      (do return { file with decls := file.decls ++ (← decls.mapM Decl.numbered) }) := by
  induction h generalizing file with
  | nil => simp
  | @cons _ _ decl decs decls tree trees _ hstands _ ih =>
      have hread := hstands.reads height (hheight _ List.mem_cons_self)
      have hrest := ih fun tree hmem => hheight tree (List.mem_cons_of_mem _ hmem)
      have hitem : Reading.fileItem source (Reading.readers source height) file (tree, decs) =
          (do return { file with decls := file.decls ++ [⟨.func (← decl.numbered), decs⟩] }) := by
        simp [Reading.fileItem, hstands.kind_eq, hread]
      simp [hitem, hrest, Decl.numbered]

end StandsDecls

/-! ## Parsing files -/

theorem run_fileItem_func {rules : Rules} {word : Lexeme} {row : Nat} (his : word.Is row .word "func")
    {input rest : List Lexeme} {tree : Concrete}
    (h : funcDecl rules (word :: input) = some (tree, rest)) :
    fileItem rules (word :: input) = some (tree, rest) := by
  have hword : ∀ text, (front false (word :: input)).any (·.isWord text) = ("func" == text) := by
    intro text
    rw [front_cons his.isTrivia_word]
    exact his.isWord text
  rw [fileItem, run_bind (run_nextIsWord _ _), hword, if_neg (by decide),
    run_bind (run_nextIsWord _ _), hword, if_neg (by decide),
    run_bind (run_nextIsWord _ _), hword, if_pos (by decide)]
  exact run_orElse h

theorem run_fileItem_package {rules : Rules} {word name : Lexeme} {row : Nat} {text : String}
    (hword : word.Is row .word "package") (hname : name.Is row .word text) (rest : List Lexeme) :
    fileItem rules (word :: name :: rest) =
      some (.node .packageClause [.token word, .leaf .identifier name], rest) := by
  have hfront : (front false (word :: name :: rest)).any (·.isWord "package") = true := by
    rw [front_cons hword.isTrivia_word]
    simp [hword.isWord]
  rw [fileItem, run_bind (run_nextIsWord _ _), hfront, if_pos rfl, packageClause,
    run_bind (hword.run_keyword _), run_bind (hname.run_name _)]
  rfl

/-- An item and the line break behind it. -/
theorem run_fileItems_cons {rules : Rules} {first lexeme : Lexeme} {input middle : List Lexeme}
    {tree : Concrete} {items : List Concrete} {limit : Nat} (hfirst : first.isTrivia = false)
    (hitem : fileItem rules (first :: input) = some (tree, lexeme :: middle))
    (hkind : lexeme.kind = .breaks) (hrest : fileItems rules limit middle = some (items, [])) :
    fileItems rules (limit + 1) (first :: input) = some (tree :: .token lexeme :: items, []) := by
  rw [fileItems, run_bind (run_upcoming _ _), front_cons hfirst]
  dsimp only
  rw [run_bind hitem, run_bind (run_statementEnd hkind middle), run_bind hrest]
  rfl

/-- The marks of declarations and the line break at the end of the file start with a line break. -/
theorem marks_decls {decls : List Decl} (h : ∀ decl ∈ decls, PlainDecl decl) :
    ∃ count marks, decls.flatMap Decl.marks ++ [.breaks 1] = .breaks count :: marks := by
  cases decls with
  | nil => exact ⟨_, _, rfl⟩
  | cons decl decls =>
      cases h decl List.mem_cons_self
      exact ⟨_, _, rfl⟩

theorem reread_decls {decls : List Decl} (hplain : ∀ decl ∈ decls, PlainDecl decl) {row : Nat}
    {lexeme : Lexeme} {input : List Lexeme}
    (hlexed : Lexed row (lexeme :: input) (decls.flatMap Decl.marks ++ [.breaks 1]))
    (hholds : ∀ lexeme ∈ input, source.Holds lexeme) :
    lexeme.kind = .breaks ∧ ∃ items trees : List Concrete, StandsDecls source row decls trees ∧
      items.filter Concrete.isNamed = trees ∧ ∀ {n limit : Nat},
        total Mark.weight (decls.flatMap Decl.marks) + 1 < n → input.length ≤ limit →
        Colonless input → fileItems (read n) (limit + 1) input = some (items, []) := by
  induction decls generalizing row lexeme input with
  | nil =>
      obtain ⟨_, _, hcons, hkind, hrest⟩ := hlexed.breaks_inv
      obtain ⟨rfl, rfl⟩ := List.cons.inj hcons
      cases hrest
      exact ⟨hkind, [], [], .nil, rfl, fun _ _ _ => rfl⟩
  | cons decl decls ih =>
      have hdecls : ∀ decl ∈ decls, PlainDecl decl := fun decl hmem =>
        hplain decl (List.mem_cons_of_mem _ hmem)
      cases hplain decl List.mem_cons_self with
      | @func ident body decs _ hlaid hbody hroom =>
        have hblock : RereadBlock source body :=
          hlaid.reread fun stmt hmem => (hbody stmt hmem).reread source
        simp only [List.flatMap_cons, Decl.marks, marksOfFunc, List.cons_append,
          List.append_assoc] at hlexed
        obtain ⟨_, _, hcons, hkind, hrest⟩ := hlexed.breaks_inv
        obtain ⟨rfl, rfl⟩ := List.cons.inj hcons
        obtain ⟨word, rest, rfl, hword, hrest⟩ := hrest.keyword_inv
        obtain ⟨name, rest, rfl, hname, hrest⟩ := hrest.word_inv
        obtain ⟨opening, rest, rfl, hopening, hrest⟩ := hrest.symbol_inv
        obtain ⟨closing, rest, rfl, hclosing, hrest⟩ := hrest.symbol_inv
        obtain ⟨count, marks, hmarks⟩ := marks_decls hdecls
        have hlines := hrest.blank_inv
        rw [hmarks] at hlines
        obtain ⟨inner, back, rfl, hinner, hback⟩ := hlines.append rfl
        obtain ⟨brk, input, rfl, hbrk, -⟩ := hback.breaks_inv
        rw [← hmarks] at hback
        obtain ⟨tree, htree, ⟨brace, more, rfl, hbrace⟩, hrun⟩ :=
          hblock 0 hinner fun lexeme hmem => hholds lexeme (by simp [hmem])
        obtain ⟨-, items, trees, htrees, hitems, hruns⟩ := ih hdecls hback
          fun lexeme hmem => hholds lexeme (by simp [hmem])
        have hfunc := stands_func opening closing hword hname (hholds name (by simp)) htree
        refine ⟨hkind, funcTree word name opening closing tree :: .token brk :: items, _ :: trees,
          .cons hroom hfunc htrees, ?_,
          fun {n limit} hdepth hlimit hcolon => ?_⟩
        · have hnamed : (funcTree word name opening closing tree).isNamed = true := rfl
          simp [hnamed, hitems]
        · simp only [List.flatMap_cons, Decl.marks, marksOfFunc, List.cons_append, total_append,
            total_cons, Mark.weight] at hdepth
          simp only [List.length_append, List.length_cons] at hlimit
          obtain ⟨limit, rfl⟩ := Nat.exists_eq_succ_of_ne_zero (show limit ≠ 0 by omega)
          have hcolons : Colonless (brace :: more ++ brk :: input) := hcolon.tail.tail.tail.tail
          have hread := hrun (show _ < n by omega) hcolons
          have hrest := hruns (show _ < n by omega) (show input.length ≤ limit by omega)
            hcolons.right.tail
          exact run_fileItems_cons hword.isTrivia_word (run_fileItem_func hword
            (run_funcDecl hword hname hopening hclosing hbrace hread)) hbrk hrest

mutual

/-- Without comments a tree stays as it is. -/
theorem Concrete.place_nil : ∀ tree : Concrete, tree.place [] = tree
  | ⟨_, _, _, children⟩ => by rw [place, placeAmong_nil children]

theorem Concrete.placeAmong_nil : ∀ trees : List Concrete, placeAmong [] trees = trees
  | [] => rfl
  | tree :: trees => by
      rw [placeAmong]
      show [] ++ tree.place [] :: placeAmong [] trees = _
      rw [place_nil tree, placeAmong_nil trees, List.nil_append]

end

/-! ## The text of a plain file -/

/-- The text of a plain file is scanned into the lexemes of its marks. -/
theorem File.Plain.scan {file : File} (h : file.Plain) :
    ∃ lexemes, scan? file.print.toList = some lexemes ∧ Lexed 0 lexemes file.marks ∧
      ∀ lexeme ∈ lexemes, (Source.ofString file.print).Holds lexeme := by
  obtain ⟨lexemes, hlexed, hscan⟩ := scans_of_apart h.apart 0 0 []
  have hstart : scan? file.print.toList = scanFrom file.print.toList 0 0 [] := by
    rw [h.toList_print]
    rfl
  rw [← h.toList_print] at hscan
  refine ⟨lexemes, hstart.trans hscan, hlexed, ?_⟩
  exact @holds_of_scanFrom _ _ _ _ _ _ hscan [] (by simp [Source.ofString]) rfl (by simp)

/-- The text of a plain file is parsed into a tree that reads as the file. -/
theorem File.Plain.parse {file : File} (h : file.Plain) :
    ∃ tree, Grammar.file? file.print.toList = some tree ∧
      Reading.file (Source.ofString file.print) tree = file.numbered := by
  obtain ⟨lexemes, hscan, hlexed, hholds⟩ := h.scan
  have hcolon := hlexed.colonless h.colons_marks
  have hcomments : lexemes.filter (·.kind == .comment) = [] :=
    List.filter_eq_nil_iff.2 fun lexeme hmem => by simp [hlexed.isComment lexeme hmem]
  have hweight := hlexed.weight_le
  rw [File.marks] at hlexed hweight
  simp only [List.cons_append, total_cons, total_append, Mark.weight] at hlexed hweight
  obtain ⟨word, rest, rfl, hword, hrest⟩ := hlexed.keyword_inv
  obtain ⟨name, rest, rfl, hname, hrest⟩ := hrest.word_inv
  obtain ⟨count, marks, hmarks⟩ := marks_decls h.decls
  obtain ⟨brk, input, rfl, hbrk, -⟩ := (hmarks ▸ hrest).breaks_inv
  obtain ⟨-, items, trees, htrees, hitems, hruns⟩ :=
    reread_decls h.decls hrest fun lexeme hmem => hholds lexeme (by simp [hmem])
  let clause := Concrete.node .packageClause [.token word, .leaf .identifier name]
  let tree := Concrete.node .file (clause :: .token brk :: items)
  refine ⟨tree, ?_, ?_⟩
  · simp only [List.length_cons] at hweight
    have hrun := hruns (show _ < 4 * (input.length + 3) + 4 by omega)
      (show input.length ≤ input.length + 2 by omega) hcolon.tail.tail.tail
    have hfile := run_fileItems_cons hword.isTrivia_word (run_fileItem_package hword hname _) hbrk hrun
    rw [Grammar.file?, hscan]
    show ((fileItems _ _) _).bind _ = _
    rw [List.length_cons, List.length_cons, List.length_cons, hfile]
    simp [hcomments, Concrete.place_nil, tree, clause]
  · have hnamed : tree.named = clause :: trees := by
      have hclause : clause.isNamed = true := rfl
      rw [Concrete.named_node, List.filter_cons_of_pos hclause,
        List.filter_cons_of_neg (by simp), hitems]
    have hrowed : Rowed 0 ({} :: file.decls.map (·.decs)) (clause :: trees) := by
      refine .cons rfl rfl hword.startRow_eq ?_
      have hstop : clause.span.stopRow = 0 := hname.stopRow_eq
      rw [hstop]
      exact htrees.rowed
    have hpackage : (Source.ofString file.print).text (.leaf .identifier name) = file.package :=
      (hholds name (by simp)).slice_eq.trans hname.text_eq
    have hclause : Reading.fileItem (Source.ofString file.print)
        (Reading.readers (Source.ofString file.print) tree.height)
        ⟨"", {}, [], []⟩ (clause, {}) = pure ⟨file.package, {}, [], []⟩ := by
      rw [← hpackage]
      rfl
    have hheight : ∀ other ∈ trees, other.height ≤ tree.height + 1 := by
      intro other hmem
      have hchild : other ∈ tree.children :=
        List.mem_of_mem_filter (hnamed ▸ List.mem_cons_of_mem _ hmem : other ∈ tree.named)
      have hlt := Concrete.height_lt hchild
      omega
    rw [Reading.file, hnamed, hrowed.attach_eq]
    dsimp only
    rw [List.zip_cons_cons, List.foldlM_cons, hclause, pure_bind, htrees.reads hheight]
    obtain ⟨package, decs, decls, trailing⟩ := file
    obtain rfl : decs = {} := h.decs
    obtain rfl : trailing = [] := h.trailing
    rfl

/--
Reading the text of a plain file gives the file back: apart from the numbers of its identifiers
nothing changes.
-/
theorem File.Plain.read_print {file : File} (h : file.Plain) (id : Nat) :
    (File.read? file.print).run id = some (file.numbered.run id) := by
  obtain ⟨tree, htree, hreads⟩ := h.parse
  rw [File.read?, htree]
  dsimp only
  rw [hreads]
  rfl

/-- `x = -f(y)*z` in front of `for x { g() }`. -/
def scaling : Block where
  stmts :=
    [⟨.assign [.ident "x"] .assign
        [.binary (.unary "-" (.call (.ident "f") [.ident "y"])) "*" (.ident "z")], .ownLine⟩,
      ⟨.loop (.cond (.ident "x")) { stmts := [⟨.expr (.call (.ident "g") []), .ownLine⟩] },
        { before := .blankLine }⟩]

theorem plain_scaling : ∀ stmt ∈ scaling.stmts, Plain stmt.kind := by
  have hname : ∀ text ∈ ["x", "y", "z", "f", "g"], isName text = true := by decide +kernel
  have hident : ∀ {level : Nat}, ∀ text ∈ ["x", "y", "z", "f", "g"], Formula level (.ident text) :=
    fun text hmem => .name (hname text hmem)
  have hcall : ∀ {level : Nat}, Formula level (.call (.ident "g") []) :=
    .call (hident _ (by simp)) (by simp)
  have hsign : Formula 5 (.unary "-" (.call (.ident "f") [.ident "y"])) :=
    .unary (by decide) (by decide) (by decide)
      (.call (hident _ (by simp)) (by simpa using hident "y" (by simp)))
  simp only [scaling, List.forall_mem_cons]
  refine ⟨.assign (List.cons_ne_nil _ _) (List.cons_ne_nil _ _) ?_ ?_, .loop ?_ ?_ ?_ ?_, by simp⟩
  · simpa using hident "x" (by simp)
  · have hproduct : Formula 1 (.binary (.unary "-" (.call (.ident "f") [.ident "y"])) "*" (.ident "z")) :=
      .binary (by decide) (by decide) hsign (hident _ (by simp)) (by decide)
    simpa using hproduct
  · exact hident "x" (by simp)
  · exact fun inner => ExprKind.noConfusion
  · exact ⟨rfl, by decide, by simp [Decorations.ownLine], by simp; decide⟩
  · simpa using Plain.expr hcall

/-- A file with one function around the statements. -/
def scalingFile : File where
  package := "p"
  packageDecs := {}
  decls := [⟨.func ⟨none, { name := "main" }, none, ⟨[], false⟩, none, some scaling⟩,
    { before := .blankLine }⟩]
  trailing := []

theorem plain_scalingFile : scalingFile.Plain where
  package := by decide +kernel
  decs := rfl
  trailing := rfl
  decls := by
    have hlaid : scaling.Laid := ⟨rfl, by decide, by simp [scaling, Decorations.ownLine], by decide⟩
    have hname : isWordChars "main".toList = true := by decide +kernel
    have hdecl : PlainDecl ⟨.func ⟨none, { name := "main" }, none, ⟨[], false⟩, none, some scaling⟩,
        { before := .blankLine }⟩ := .func hname hlaid plain_scaling rfl rfl
    simpa [scalingFile] using hdecl

theorem read_print_scalingFile :
    scalingFile.Plain ∧ (File.read? scalingFile.print).run 1 = some (scalingFile.numbered.run 1) :=
  ⟨plain_scalingFile, plain_scalingFile.read_print 1⟩

end TraceWeave.Syntax
