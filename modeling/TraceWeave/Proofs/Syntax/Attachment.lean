import Mathlib.Data.List.Forall2
import Mathlib.Data.List.TakeWhile
import TraceWeave.Syntax.Attach

/-!
Attaching comments loses none of them and keeps their order.

The siblings fall into clusters, each a node with the comments above it and behind it,
and comments that no node follows.  `Attaching.Reads` says so of the siblings read so
far; each sibling keeps it.  Written out cluster by cluster, the siblings come back
(`attach_keepsComments`).  What stands in a band tells whether it was read above the node or
behind it (`attach_fromSource`).
-/

namespace TraceWeave.Text

theorem trimEndChars_cons {c : Char} (hc : isBlank c = false) (cs : List Char) :
    ∃ rest, trimEndChars (c :: cs) = c :: rest := by
  unfold trimEndChars
  rw [List.reverse_cons, List.dropWhile_append]
  split
  · exact ⟨[], by simp [hc]⟩
  · exact ⟨_, by rw [List.reverse_append]; rfl⟩

theorem trimStart_append {pad : String} (hpad : ∀ c ∈ pad.toList, isBlank c = true)
    (text : String) : trimStart (pad ++ text) = trimStart text := by
  unfold trimStart
  rw [String.toList_append, List.dropWhile_append, List.dropWhile_eq_nil_iff.2 hpad]
  rfl

theorem isBlank_of_mem_blankEnd {text : String} {c : Char} (h : c ∈ (blankEnd text).toList) :
    isBlank c = true := by
  rw [blankEnd, String.toList_ofList, List.mem_reverse] at h
  exact List.mem_takeWhile_imp h

end TraceWeave.Text

namespace TraceWeave.Syntax

open TraceWeave.Text

/-! ## Comments in a source text -/

/-- A comment without the blanks at its end. -/
def Source.comment (source : Source) (tree : Concrete) : String := trimEnd (source.text tree)

/-- The text of every comment among the trees starts with a slash. -/
def Source.HoldsComments (source : Source) (trees : List Concrete) : Prop :=
  ∀ tree ∈ trees, tree.isComment = true → (source.text tree).toList.head? = some '/'

namespace Source.HoldsComments

variable {source : Source} {trees : List Concrete} {tree : Concrete}

theorem comment_eq (h : source.HoldsComments trees) (hmem : tree ∈ trees)
    (hcomment : tree.isComment = true) :
    ∃ rest, source.comment tree = String.ofList ('/' :: rest) := by
  obtain ⟨rest, hrest⟩ := List.head?_eq_some_iff.1 (h tree hmem hcomment)
  obtain ⟨kept, hkept⟩ := trimEndChars_cons (c := '/') rfl rest
  exact ⟨kept, by rw [Source.comment, trimEnd, hrest, hkept]⟩

theorem comment_isEmpty (h : source.HoldsComments trees) (hmem : tree ∈ trees)
    (hcomment : tree.isComment = true) : (source.comment tree).isEmpty = false := by
  obtain ⟨rest, hrest⟩ := h.comment_eq hmem hcomment
  simp [hrest, String.isEmpty_eq_false_iff]

/-- The padding in front of a trailing comment can be told from the comment. -/
theorem trimStart_padded (h : source.HoldsComments trees) (hmem : tree ∈ trees)
    (hcomment : tree.isComment = true) (between : String) :
    trimStart (Attaching.padding between ++ source.comment tree) = source.comment tree := by
  have hpad : ∀ c ∈ (Attaching.padding between).toList, isBlank c = true := by
    unfold Attaching.padding
    dsimp only
    split
    · intro c hc
      obtain rfl : c = ' ' := by simpa using hc
      rfl
    · exact fun c => isBlank_of_mem_blankEnd
  obtain ⟨rest, hrest⟩ := h.comment_eq hmem hcomment
  rw [trimStart_append hpad, hrest, trimStart, String.toList_ofList]
  rfl

end Source.HoldsComments

/-! ## Nodes and their comments -/

/-- A node between the comments that belong to it. -/
structure Cluster where
  lead : List Concrete
  node : Concrete
  trail : List Concrete

def Cluster.trees (cluster : Cluster) : List Concrete :=
  cluster.lead ++ cluster.node :: cluster.trail

def isLine (line : String) : Bool := !line.isEmpty

/--
The bands of a node hold the comments of its cluster, and the comments behind the node start on
its last row.
-/
structure Cluster.Decorated (source : Source) (cluster : Cluster) (item : Concrete × Decorations) :
    Prop where
  node_eq : item.1 = cluster.node
  isNode : cluster.node.isComment = false
  areComments : ∀ tree ∈ cluster.lead ++ cluster.trail, tree.isComment = true
  lead_eq : item.2.lead.filter isLine = cluster.lead.map source.comment
  trail_eq : item.2.trail.map trimStart = cluster.trail.map source.comment
  sameRow : ∀ tree ∈ cluster.trail, tree.span.startRow = cluster.node.span.stopRow

/-- Comments that do not start on the row on which the node in front of them ends. -/
def Detached (node : Concrete) (comments : List Concrete) : Prop :=
  ∀ first ∈ comments.head?, first.span.startRow ≠ node.span.stopRow

/-- No comments wait that could stand behind a node; the latest cluster comes first. -/
def Separated : List Cluster → List Concrete → Prop
  | [], _ => True
  | cluster :: clusters, waiting => Detached cluster.node waiting ∧ Separated clusters cluster.lead

/-! ## One sibling after the other -/

/-- The siblings read so far fall into clusters, the latest first, and waiting comments. -/
structure Attaching.Reads (source : Source) (trees : List Concrete) (state : Attaching)
    (clusters : List Cluster) (waiting : List Concrete) : Prop where
  trees_eq : trees = clusters.reverse.flatMap Cluster.trees ++ waiting
  areComments : ∀ tree ∈ waiting, tree.isComment = true
  decorated : List.Forall₂ (Cluster.Decorated source) clusters state.done
  waiting_eq : state.waiting.filter isLine = waiting.map source.comment
  waiting_nil : state.waiting = [] ↔ waiting = []
  separated : Separated clusters waiting

namespace Attaching.Reads

variable {source : Source} {trees waiting : List Concrete} {tree : Concrete} {state : Attaching}
  {clusters : List Cluster}

/-- A comment joins the others that wait. -/
theorem wait (h : Reads source trees state clusters waiting) (hcomment : tree.isComment = true)
    (hline : isLine (source.comment tree) = true)
    (hdetached : ∀ cluster ∈ clusters.head?, waiting = [] → Detached cluster.node [tree])
    {state' : Attaching} (hdone : state'.done = state.done)
    (hwaiting : ∃ room, state'.waiting = state.waiting ++ room ++ [source.comment tree] ∧
      room.filter isLine = []) :
    Reads source (trees ++ [tree]) state' clusters (waiting ++ [tree]) := by
  obtain ⟨room, hlines, hroom⟩ := hwaiting
  refine ⟨?_, ?_, ?_, ?_, ?_, ?_⟩
  · rw [h.trees_eq, List.append_assoc]
  · exact List.forall_mem_append.2 ⟨h.areComments, by simpa using hcomment⟩
  · rw [hdone]
    exact h.decorated
  · simp [hlines, hroom, h.waiting_eq, hline]
  · simp [hlines]
  · cases clusters with
    | nil => trivial
    | cons cluster clusters =>
        refine ⟨?_, h.separated.2⟩
        cases waiting with
        | nil => exact hdetached cluster rfl rfl
        | cons first waiting => exact h.separated.1

/-- A comment is put behind the latest node. -/
theorem behind {cluster : Cluster} {last : Concrete} {decs : Decorations}
    {done : List (Concrete × Decorations)}
    (h : Reads source trees state (cluster :: clusters) []) (hcomment : tree.isComment = true)
    (hrow : last.span.stopRow = tree.span.startRow) (hstate : state.done = (last, decs) :: done)
    {text : String} (htext : trimStart text = source.comment tree) {state' : Attaching}
    (hdone : state'.done = (last, { decs with trail := decs.trail ++ [text] }) :: done)
    (hwaiting : state'.waiting = []) :
    Reads source (trees ++ [tree]) state'
      ({ cluster with trail := cluster.trail ++ [tree] } :: clusters) [] := by
  have hdecorated := h.decorated
  rw [hstate] at hdecorated
  obtain ⟨hcluster, hclusters⟩ := List.forall₂_cons.1 hdecorated
  refine ⟨?_, ?_, ?_, ?_, ?_, ⟨?_, h.separated.2⟩⟩
  · rw [h.trees_eq]
    simp [Cluster.trees]
  · simp
  · rw [hdone]
    refine .cons ⟨hcluster.node_eq, hcluster.isNode, ?_, hcluster.lead_eq, ?_, ?_⟩ hclusters
    · intro other hother
      rw [← List.append_assoc, List.mem_append, List.mem_singleton] at hother
      rcases hother with hother | rfl
      · exact hcluster.areComments other hother
      · exact hcomment
    · simp [hcluster.trail_eq, htext]
    · intro other hother
      rw [List.mem_append, List.mem_singleton] at hother
      rcases hother with hother | rfl
      · exact hcluster.sameRow other hother
      · rw [← hrow, ← hcluster.node_eq]
  · simp [hwaiting]
  · simp [hwaiting]
  · simp [Detached]

/-- A node takes the comments that wait. -/
theorem node (h : Reads source trees state clusters waiting) (hnode : tree.isComment = false) :
    Reads source (trees ++ [tree]) (state.addNode tree) (⟨waiting, tree, []⟩ :: clusters) [] := by
  refine ⟨?_, ?_, .cons ⟨rfl, hnode, ?_, ?_, ?_, ?_⟩ h.decorated, ?_, ?_, ⟨?_, h.separated⟩⟩
  · rw [h.trees_eq]
    simp [Cluster.trees]
  · simp
  · simpa using h.areComments
  · dsimp only
    split
    · next hnone =>
      rw [h.waiting_nil.1 (List.isEmpty_iff.1 hnone)]
      rfl
    · dsimp only
      split
      · rw [List.filter_append, h.waiting_eq]
        simp [isLine]
      · exact h.waiting_eq
  · dsimp only
    split <;> rfl
  · simp
  · simp [addNode]
  · simp [addNode]
  · simp [Detached]

/-- A comment stands behind the latest node or waits for the next one. -/
theorem comment (h : Reads source trees state clusters waiting)
    (hall : source.HoldsComments (trees ++ [tree])) (hcomment : tree.isComment = true) :
    ∃ clusters waiting,
      Reads source (trees ++ [tree]) (state.addComment source tree) clusters waiting := by
  have hmem : tree ∈ trees ++ [tree] := List.mem_append_right _ List.mem_cons_self
  have hline : isLine (source.comment tree) = true := by
    simp [isLine, hall.comment_isEmpty hmem hcomment]
  unfold addComment
  dsimp only
  -- Two of the three branches end in the same state, in which the comment waits.
  generalize hwait : (ite (state.waiting.isEmpty = true) _ _ : Attaching) = wait
  have hdone : wait.done = state.done := by
    rw [← hwait]
    split <;> [rfl; split <;> rfl]
  have hwaiting : ∃ room, wait.waiting = state.waiting ++ room ++ [source.comment tree] ∧
      room.filter isLine = [] := by
    rw [← hwait]
    split
    · next hnone => exact ⟨[], by simp [List.isEmpty_iff.1 hnone, Source.comment], rfl⟩
    · split
      · exact ⟨[""], by simp [Source.comment], rfl⟩
      · exact ⟨[], by simp [Source.comment], rfl⟩
  have hwaits
      (hdetached : ∀ cluster ∈ clusters.head?, waiting = [] → Detached cluster.node [tree]) :
      ∃ clusters waiting, Reads source (trees ++ [tree]) wait clusters waiting :=
    ⟨clusters, waiting ++ [tree], h.wait hcomment hline hdetached hdone hwaiting⟩
  have hdecorated := h.decorated
  split
  · next hnone =>
    rw [hnone, List.forall₂_nil_right_iff] at hdecorated
    exact hwaits (by simp [hdecorated])
  · next last decs done hsome =>
    rw [hsome] at hdecorated
    obtain ⟨cluster, earlier, hcluster, -, rfl⟩ := List.forall₂_cons_right_iff.1 hdecorated
    split
    · next hbehind =>
      simp only [Bool.and_eq_true, List.isEmpty_iff, beq_iff_eq] at hbehind
      obtain rfl := h.waiting_nil.1 hbehind.1
      exact ⟨_, [], h.behind hcomment hbehind.2 hsome
        (hall.trimStart_padded hmem hcomment _) rfl hbehind.1⟩
    · next hbehind =>
      -- It waits although none waits before it: then it is on another row than the node.
      refine hwaits fun other hother hnone => ?_
      obtain rfl := Option.some.inj hother
      have hrow : last.span.stopRow ≠ tree.span.startRow := by
        simpa [h.waiting_nil.2 hnone] using hbehind
      simpa [Detached, ← hcluster.node_eq] using hrow.symm

/-- Every sibling keeps what holds of the siblings in front of it. -/
theorem add (h : Reads source trees state clusters waiting)
    (hall : source.HoldsComments (trees ++ [tree])) :
    ∃ clusters waiting,
      Reads source (trees ++ [tree]) (state.add source tree) clusters waiting := by
  unfold Attaching.add
  split
  · next hcomment => exact h.comment hall hcomment
  · next hnode => exact ⟨_, _, h.node (Bool.eq_false_iff.2 hnode)⟩

/-- So does a run over siblings. -/
theorem run {others : List Concrete} (h : Reads source trees state clusters waiting)
    (hall : source.HoldsComments (trees ++ others)) :
    ∃ clusters waiting, Reads source (trees ++ others) (others.foldl (Attaching.add source) state)
      clusters waiting := by
  induction others generalizing trees state clusters waiting with
  | nil => exact ⟨clusters, waiting, by simpa using h⟩
  | cons tree others ih =>
      rw [List.append_cons] at hall ⊢
      obtain ⟨clusters, waiting, hadd⟩ :=
        h.add fun other hmem => hall other (List.mem_append_left _ hmem)
      exact ih hadd hall

end Attaching.Reads

/-! ## Bands from a source -/

/-- Bands as they are read from a source: comments above the node start with a slash, and blanks
stand in front of the comments behind it. -/
structure Decorations.FromSource (decs : Decorations) : Prop where
  lead : ∀ line ∈ decs.lead, isLine line = true → line.toList.head? = some '/'
  trail : ∀ text ∈ decs.trail, text.toList.head?.any isBlank = true

/-- Every node so far has bands from the source, and so has the next one. -/
structure Attaching.FromSource (state : Attaching) : Prop where
  done : ∀ item ∈ state.done, item.2.FromSource
  waiting : ∀ line ∈ state.waiting, isLine line = true → line.toList.head? = some '/'

theorem isBlank_padding (between text : String) :
    (Attaching.padding between ++ text).toList.head?.any isBlank = true := by
  unfold Attaching.padding
  dsimp only
  split
  · simp only [String.toList_append]
    rfl
  · next hpad =>
    cases hchars : (blankEnd between).toList with
    | nil => simp [String.toList_eq_nil_iff.1 hchars] at hpad
    | cons c rest =>
        have hmem : c ∈ (blankEnd between).toList := hchars ▸ List.mem_cons_self
        simp [hchars, isBlank_of_mem_blankEnd hmem]

namespace Attaching.FromSource

variable {source : Source} {trees : List Concrete} {state : Attaching} {tree : Concrete}

theorem comment (h : FromSource state) (hsource : source.HoldsComments trees)
    (hmem : tree ∈ trees) (hcomment : tree.isComment = true) :
    FromSource (state.addComment source tree) := by
  have htext : (source.comment tree).toList.head? = some '/' := by
    obtain ⟨rest, hrest⟩ := hsource.comment_eq hmem hcomment
    rw [hrest, String.toList_ofList]
    rfl
  have hroom : ∀ line ∈ ["", source.comment tree],
      isLine line = true → line.toList.head? = some '/' := by
    simp [isLine, htext]
  unfold addComment
  dsimp only
  generalize hwait : (ite (state.waiting.isEmpty = true) _ _ : Attaching) = wait
  have hwaits : FromSource wait := by
    rw [← hwait]
    split
    · exact ⟨h.done, fun line hline => hroom line (List.mem_cons_of_mem _ hline)⟩
    · split
      · exact ⟨h.done, List.forall_mem_append.2 ⟨h.waiting, hroom⟩⟩
      · exact ⟨h.done, List.forall_mem_append.2
          ⟨h.waiting, fun line hline => hroom line (List.mem_cons_of_mem _ hline)⟩⟩
  split
  · exact hwaits
  · next last decs done hsome =>
    have hdone := h.done
    rw [hsome, List.forall_mem_cons] at hdone
    split
    · refine ⟨List.forall_mem_cons.2 ⟨⟨hdone.1.lead, ?_⟩, hdone.2⟩, h.waiting⟩
      exact List.forall_mem_append.2 ⟨hdone.1.trail,
        List.forall_mem_singleton.2 (isBlank_padding _ _)⟩
    · exact hwaits

theorem node (h : FromSource state) : FromSource (state.addNode tree) := by
  refine ⟨List.forall_mem_cons.2 ⟨?_, h.done⟩, fun _ hline => nomatch hline⟩
  dsimp only
  split
  · exact ⟨fun _ hline => (nomatch hline), fun _ htext => nomatch htext⟩
  · refine ⟨?_, fun _ htext => nomatch htext⟩
    dsimp only
    split
    · exact List.forall_mem_append.2 ⟨h.waiting, by simp [isLine]⟩
    · exact h.waiting

theorem run (h : FromSource state) (hsource : source.HoldsComments trees) {others : List Concrete}
    (hsubset : others ⊆ trees) : FromSource (others.foldl (Attaching.add source) state) := by
  induction others generalizing state with
  | nil => exact h
  | cons tree others ih =>
      obtain ⟨hmem, hsubset⟩ := List.cons_subset.1 hsubset
      refine ih ?_ hsubset
      unfold Attaching.add
      split
      · exact h.comment hsource hmem ‹_›
      · exact h.node

end Attaching.FromSource

/-- What attachment makes of siblings are bands from the source. -/
theorem attach_fromSource {source : Source} {trees : List Concrete} (openingRow : Nat)
    (hsource : source.HoldsComments trees) :
    ∀ item ∈ (attach source openingRow trees).items, item.2.FromSource := by
  have hstart : Attaching.FromSource { row := openingRow } :=
    ⟨fun _ hitem => (nomatch hitem), fun _ hline => nomatch hline⟩
  intro item hitem
  exact (hstart.run hsource fun _ => id).done item (List.mem_reverse.1 hitem)

/-! ## Writing back -/

/-- A sibling, a comment standing for its text. -/
inductive Sibling where
  | comment (text : String)
  | node (tree : Concrete)

def Sibling.of (source : Source) (tree : Concrete) : Sibling :=
  if tree.isComment then .comment (source.comment tree) else .node tree

/-- A node behind the lines above it, and the comments behind it without their padding. -/
def Attached.itemSiblings (item : Concrete × Decorations) : List Sibling :=
  (item.2.lead.filter isLine).map .comment ++
    .node item.1 :: (item.2.trail.map trimStart).map .comment

/-- The nodes and comments in the order in which they are written. -/
def Attached.siblings (attached : Attached) : List Sibling :=
  attached.items.flatMap itemSiblings ++ (attached.trailing.filter isLine).map .comment

theorem Sibling.of_comments {source : Source} {trees : List Concrete}
    (h : ∀ tree ∈ trees, tree.isComment = true) :
    trees.map (Sibling.of source) = (trees.map source.comment).map .comment := by
  rw [List.map_map]
  exact List.map_congr_left fun tree hmem => by simp [Sibling.of, h tree hmem]

namespace Cluster.Decorated

variable {source : Source} {cluster : Cluster} {item : Concrete × Decorations}

theorem siblings_eq (h : cluster.Decorated source item) :
    Attached.itemSiblings item = cluster.trees.map (Sibling.of source) := by
  have hcomments := List.forall_mem_append.1 h.areComments
  rw [Attached.itemSiblings, h.lead_eq, h.trail_eq, h.node_eq, Cluster.trees, List.map_append,
    List.map_cons, Sibling.of_comments hcomments.1, Sibling.of_comments hcomments.2,
    Sibling.of.eq_def source cluster.node, if_neg (by simp [h.isNode])]

theorem nodes_eq (h : cluster.Decorated source item) :
    cluster.trees.filter (!·.isComment) = [item.1] := by
  have hcomments := List.forall_mem_append.1 h.areComments
  have hlead : cluster.lead.filter (!·.isComment) = [] := by simpa using hcomments.1
  have htrail : cluster.trail.filter (!·.isComment) = [] := by simpa using hcomments.2
  simp [Cluster.trees, hlead, htrail, h.isNode, h.node_eq]

end Cluster.Decorated

theorem siblings_of_clusters {source : Source} {clusters : List Cluster}
    {items : List (Concrete × Decorations)}
    (h : List.Forall₂ (Cluster.Decorated source) clusters items) :
    items.flatMap Attached.itemSiblings =
      (clusters.flatMap Cluster.trees).map (Sibling.of source) := by
  induction h with
  | nil => rfl
  | cons hcluster _ ih => simp only [List.flatMap_cons, List.map_append, hcluster.siblings_eq, ih]

theorem nodes_of_clusters {source : Source} {clusters : List Cluster}
    {items : List (Concrete × Decorations)}
    (h : List.Forall₂ (Cluster.Decorated source) clusters items) :
    items.map Prod.fst = (clusters.flatMap Cluster.trees).filter (!·.isComment) := by
  induction h with
  | nil => rfl
  | cons hcluster _ ih =>
      simp only [List.flatMap_cons, List.filter_append, List.map_cons, hcluster.nodes_eq, ih,
        List.singleton_append]

/--
Every comment among the siblings is kept, in its place among the others: the siblings fall into
clusters whose nodes are the items, the nodes and comments come back in their order, and a comment
stands behind a node only where it starts on the last row of the node with no other one waiting.
-/
theorem attach_keepsComments (source : Source) (openingRow : Nat) (trees : List Concrete)
    (h : source.HoldsComments trees) :
    (attach source openingRow trees).items.map Prod.fst = trees.filter (!·.isComment) ∧
    (attach source openingRow trees).siblings = trees.map (Sibling.of source) ∧
    ∃ clusters rest, trees = clusters.flatMap Cluster.trees ++ rest ∧
      List.Forall₂ (Cluster.Decorated source) clusters (attach source openingRow trees).items ∧
      (∀ tree ∈ rest, tree.isComment = true) ∧
      (attach source openingRow trees).trailing.filter isLine = rest.map source.comment ∧
      Separated clusters.reverse rest := by
  have hempty : Attaching.Reads source [] { row := openingRow } [] [] :=
    ⟨rfl, by simp, .nil, rfl, by simp, trivial⟩
  obtain ⟨latest, rest, hreads⟩ := hempty.run h
  have hdecorated : List.Forall₂ (Cluster.Decorated source) latest.reverse
      (attach source openingRow trees).items := List.rel_reverse hreads.decorated
  have htrailing : (attach source openingRow trees).trailing.filter isLine =
      rest.map source.comment := by
    rw [← hreads.waiting_eq]
    unfold attach Attaching.finish
    dsimp only
    split
    · next hnone => rw [List.isEmpty_iff.1 hnone]
    · split <;> rfl
  have hrest : rest.filter (!·.isComment) = [] := by simpa using hreads.areComments
  refine ⟨?_, ?_, latest.reverse, rest, hreads.trees_eq, hdecorated, hreads.areComments,
    htrailing, ?_⟩
  · rw [nodes_of_clusters hdecorated]
    conv_rhs => rw [show trees = _ from hreads.trees_eq]
    rw [List.filter_append, hrest, List.append_nil]
  · rw [Attached.siblings, siblings_of_clusters hdecorated, htrailing,
      ← Sibling.of_comments hreads.areComments, ← List.map_append]
    exact congrArg _ hreads.trees_eq.symm
  · rw [List.reverse_reverse]
    exact hreads.separated

/-- A call between comments above it, behind it and below it. -/
def workSource : Source :=
  .ofString "// lead\n\nwork() /* unit */ // trail\n// tail"

def workTrees : List Concrete :=
  [⟨.comment, .plain, ⟨0, 7, 1, 1⟩, []⟩, ⟨.exprStmt, .plain, ⟨9, 15, 3, 3⟩, []⟩,
    ⟨.comment, .plain, ⟨16, 26, 3, 3⟩, []⟩, ⟨.comment, .plain, ⟨27, 35, 3, 3⟩, []⟩,
    ⟨.comment, .plain, ⟨36, 43, 4, 4⟩, []⟩]

theorem holdsComments_workTrees : workSource.HoldsComments workTrees := by
  unfold Source.HoldsComments
  decide

theorem attach_keepsComments_workTrees :
    workSource.HoldsComments workTrees ∧
      (attach workSource 0 workTrees).items.map Prod.fst = workTrees.filter (!·.isComment) ∧
      (attach workSource 0 workTrees).siblings = workTrees.map (Sibling.of workSource) ∧
      ∃ clusters rest, workTrees = clusters.flatMap Cluster.trees ++ rest ∧
        List.Forall₂ (Cluster.Decorated workSource) clusters (attach workSource 0 workTrees).items ∧
        (∀ tree ∈ rest, tree.isComment = true) ∧
        (attach workSource 0 workTrees).trailing.filter isLine = rest.map workSource.comment ∧
        Separated clusters.reverse rest :=
  ⟨holdsComments_workTrees, attach_keepsComments workSource 0 workTrees holdsComments_workTrees⟩

example : (attach workSource 0 workTrees).items.map (·.2) =
    [{ before := .newLine, lead := ["// lead", ""], trail := [" /* unit */", " // trail"] }] ∧
      (attach workSource 0 workTrees).trailing = ["// tail"] := by
  decide

end TraceWeave.Syntax
