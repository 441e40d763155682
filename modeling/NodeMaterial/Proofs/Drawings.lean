import Mathlib.Data.List.Basic
import Mathlib.Data.List.Forall2
import NodeMaterial.Graph.Dot
import NodeMaterial.Proofs.Compilation
import NodeMaterial.Proofs.Numerals

/-!
# Drawings and the labels in them

A drawing has a line for each node and a line for each occurrence of an edge.  The
label of a node stands between quotes; a reader takes everything up to the next quote
for the label, so what is in the label decides where it ends.

The name of a node is shown with underscores for whatever could end the label.  Its
tag is shown as it is.  All tags are harmless but for those of unknown kinds, which
are authored texts: a drawing is well formed exactly when these are harmless, too.
-/

namespace NodeMaterial

/-! ## Lines -/

/-- The characters of lines, each of which is followed by a line feed. -/
def joinLines (lines : List String) : List Char :=
  lines.flatMap fun line => line.toList ++ ['\n']

/-- A text consists of lines, none of which has a line feed inside. -/
structure HasLines (text : String) (lines : List String) : Prop where
  joined : text.toList = joinLines lines
  unbroken : ∀ line ∈ lines, '\n' ∉ line.toList

/-- The first of several marks is where both texts have it. -/
theorem eq_of_append_mark {mark : Char} {front other back rest : List Char}
    (absent : mark ∉ front) (otherAbsent : mark ∉ other)
    (same : front ++ mark :: back = other ++ mark :: rest) : front = other ∧ back = rest := by
  have taken (text after : List Char) (unmarked : mark ∉ text) :
      (text ++ mark :: after).takeWhile (· ≠ mark) = text := by
    have others : ∀ character ∈ text, decide (character ≠ mark) = true := fun _ member =>
      decide_eq_true (ne_of_mem_of_not_mem member unmarked)
    rw [List.takeWhile_append_of_pos others]
    simp
  have fronts : front = other := by
    rw [← taken front back absent, same, taken other rest otherAbsent]
  subst fronts
  simpa using same

theorem count_joinLines_cons (line : String) (lines : List String) :
    (joinLines (line :: lines)).count '\n' =
      line.toList.count '\n' + 1 + (joinLines lines).count '\n' := by
  simp only [joinLines, List.flatMap_cons, List.count_append, List.count_singleton_self]

/-- A text has at least as many line breaks as it is made of lines. -/
theorem length_le_count_joinLines (lines : List String) :
    lines.length ≤ (joinLines lines).count '\n' := by
  induction lines with
  | nil => exact Nat.le_refl _
  | cons line lines fewer =>
      rw [count_joinLines_cons, List.length_cons]
      omega

/-- There are as many line feeds as lines if no line has one inside. -/
theorem count_joinLines_eq_length_iff {lines : List String} :
    (joinLines lines).count '\n' = lines.length ↔ ∀ line ∈ lines, '\n' ∉ line.toList := by
  induction lines with
  | nil => simp [joinLines]
  | cons line lines following =>
      have fewer := length_le_count_joinLines lines
      rw [List.forall_mem_cons, ← following, ← List.count_eq_zero, count_joinLines_cons,
        List.length_cons]
      omega

/-- Lines that have no line feed inside are found again in the text. -/
theorem joinLines_injective {lines others : List String}
    (unbroken : ∀ line ∈ lines, '\n' ∉ line.toList)
    (othersUnbroken : ∀ line ∈ others, '\n' ∉ line.toList)
    (same : joinLines lines = joinLines others) : lines = others := by
  induction lines generalizing others with
  | nil =>
      cases others with
      | nil => rfl
      | cons other others => simp [joinLines] at same
  | cons line lines following =>
      cases others with
      | nil => simp [joinLines] at same
      | cons other others =>
          simp only [joinLines, List.flatMap_cons, List.append_assoc, List.singleton_append] at same
          obtain ⟨first, rest⟩ := eq_of_append_mark (unbroken line List.mem_cons_self)
            (othersUnbroken other List.mem_cons_self) same
          rw [String.toList_inj.1 first, following
            (fun line member => unbroken line (List.mem_cons_of_mem _ member))
            (fun line member => othersUnbroken line (List.mem_cons_of_mem _ member)) rest]

/-- Lines are found again among as many texts that are joined to the same text. -/
theorem HasLines.eq_of_joined {text : String} {lines others : List String}
    (has : HasLines text lines) (joined : text.toList = joinLines others)
    (length : others.length = lines.length) : others = lines := by
  have same : joinLines lines = joinLines others := has.joined.symm.trans joined
  have feeds := count_joinLines_eq_length_iff.2 has.unbroken
  rw [same, ← length] at feeds
  exact (joinLines_injective has.unbroken (count_joinLines_eq_length_iff.1 feeds) same).symm

/-! ## Quoted labels -/

/--
Reads on behind an opening quote and gives the text up to the closing quote and what
follows it.  A quote behind a backslash does not close.
-/
def readQuoted : List Char → Option (List Char × List Char)
  | [] => none
  | '"' :: rest => some ([], rest)
  | '\\' :: '"' :: rest => (readQuoted rest).map fun (label, after) => ('\\' :: '"' :: label, after)
  | character :: rest => (readQuoted rest).map fun (label, after) => (character :: label, after)

/-- What is read up to a quote is the front of the text. -/
theorem eq_of_readQuoted {text label rest : List Char}
    (read : readQuoted text = some (label, rest)) : text = label ++ '"' :: rest := by
  fun_induction readQuoted text generalizing label with
  | case1 => cases read
  | case2 rest =>
      cases read
      rfl
  | case3 text following =>
      obtain ⟨⟨inner, after⟩, found, same⟩ := Option.map_eq_some_iff.1 read
      cases same
      rw [following found]
      rfl
  | case4 character text _ _ following =>
      obtain ⟨⟨inner, after⟩, found, same⟩ := Option.map_eq_some_iff.1 read
      cases same
      rw [following found]
      rfl

/-- Neither a quote nor a backslash nor the end of a line. -/
def isHarmless (character : Char) : Bool :=
  !(character == '"' || character == '\\' || character == '\n' || character == '\r')

/-- Quotes, backslashes and line breaks are all that can do harm. -/
theorem isHarmless_eq_false_iff {character : Char} :
    isHarmless character = false ↔
      character = '"' ∨ character = '\\' ∨ character = '\n' ∨ character = '\r' := by
  simp only [isHarmless, Bool.not_eq_false', Bool.or_eq_true, beq_iff_eq, or_assoc]

/-- A text that a label may hold. -/
def Harmless (text : List Char) : Prop :=
  ∀ character ∈ text, isHarmless character = true

instance (text : List Char) : Decidable (Harmless text) :=
  decidable_of_iff (text.all isHarmless = true) List.all_eq_true

@[simp]
theorem harmless_append {front back : List Char} :
    Harmless (front ++ back) ↔ Harmless front ∧ Harmless back :=
  List.forall_mem_append

theorem Harmless.notMem {text : List Char} (harmless : Harmless text) {character : Char}
    (hazard : isHarmless character = false) : character ∉ text := by
  intro member
  rw [harmless character member] at hazard
  cases hazard

theorem readQuoted_cons {character : Char} (harmless : isHarmless character = true)
    (rest : List Char) :
    readQuoted (character :: rest) =
      (readQuoted rest).map fun (label, after) => (character :: label, after) := by
  rw [readQuoted.eq_def]
  split
  next empty => cases empty
  next same =>
    cases same
    cases harmless
  next same =>
    cases same
    cases harmless
  next same =>
    cases same
    rfl

/-- Harmless characters are read as they are. -/
theorem readQuoted_append {front : List Char} (harmless : Harmless front) (rest : List Char) :
    readQuoted (front ++ rest) =
      (readQuoted rest).map fun (label, after) => (front ++ label, after) := by
  induction front with
  | nil => simp
  | cons character front following =>
      rw [Harmless, List.forall_mem_cons] at harmless
      rw [List.cons_append, readQuoted_cons harmless.1, following harmless.2, Option.map_map]
      rfl

/-- A label of two harmless rows is read to its end. -/
theorem readQuoted_rows {upper lower : List Char} (upperHarmless : Harmless upper)
    (lowerHarmless : Harmless lower) (rest : List Char) :
    readQuoted (upper ++ '\\' :: 'n' :: (lower ++ '"' :: rest)) =
      some (upper ++ '\\' :: 'n' :: lower, rest) := by
  have separator (rest : List Char) : readQuoted ('\\' :: 'n' :: rest) =
      (readQuoted rest).map fun (label, after) => ('\\' :: 'n' :: label, after) := by
    cases read : readQuoted rest <;> simp [readQuoted, read]
  have closing : readQuoted ('"' :: rest) = some ([], rest) := rfl
  rw [readQuoted_append upperHarmless, separator, readQuoted_append lowerHarmless, closing]
  simp

/-! ## Statements -/

/-- A text shown in place of another: only what could do harm is replaced. -/
def Shows (given shown : List Char) : Prop :=
  List.Forall₂ (fun before after => after = before ∨
    after = '_' ∧ (before = '"' ∨ before = '\\' ∨ isControl before = true)) given shown

/-- An attribute that needs no quotes. -/
def IsWord (text : String) : Prop :=
  text ≠ "" ∧ ∀ character ∈ text.toList, character.isAlphanum = true

instance (text : String) : Decidable (IsWord text) :=
  decidable_of_iff (text ≠ "" ∧ text.toList.all Char.isAlphanum = true)
    (and_congr_right' List.all_eq_true)

/-- A node statement up to its label. -/
def nodeOpening (id : NodeId) (shape color : String) : String :=
  "    n" ++ toString id ++ " [shape=" ++ shape ++ ", style=filled, fillcolor=" ++ color ++
    ", label="

/--
A line that states a node.  Its label is read up to the end of the statement; it has
the tag and the name in two rows, and the escape between them is the only one.
-/
inductive StatesNode (node : Node) (line : String) : Prop
  | intro (shape color : String) (written upper lower : List Char)
      (shaped : IsWord shape) (colored : IsWord color)
      (opened : line.toList = (nodeOpening node.id shape color).toList ++ '"' :: written)
      (closed : readQuoted written = some (upper ++ '\\' :: 'n' :: lower, [']', ';']))
      (tag : Shows node.kind.tag.toList upper) (name : Shows node.name.toList lower)
      (harmless : Harmless (upper ++ lower))

/-- The shape and the colour of a node. -/
def Node.dotStyle (node : Node) (isOutput : Bool) : String × String :=
  if isOutput then ("doubleoctagon", "gold") else node.kind.dotStyle

/-- The line of a node, without its end. -/
def Node.dotStatement (node : Node) (isOutput : Bool) : String :=
  "    n" ++ toString node.id ++ " [shape=" ++ (node.dotStyle isOutput).1 ++
    ", style=filled, fillcolor=" ++ (node.dotStyle isOutput).2 ++
    ", label=\"" ++ node.kind.tag ++ "\\n" ++ dotLabel node.name ++ "\"];"

/-- The line of an edge, without its end. -/
def Edge.dotStatement (edge : Edge) : String :=
  "    n" ++ toString edge.source ++ " -> n" ++ toString edge.target ++ " [label=\"" ++
    toString edge.outSocket ++ "→" ++ toString edge.inSocket ++ "\"];"

-- Taken apart from their use, where searching for the literals is slow.
theorem toList_append_closing (front : String) :
    (front ++ "\"];\n").toList = (front ++ "\"];").toList ++ ['\n'] := by
  simp

theorem toList_append_label (front upper lower : String) :
    (front ++ ", label=\"" ++ upper ++ "\\n" ++ lower ++ "\"];").toList =
      (front ++ ", label=").toList ++
        '"' :: (upper.toList ++ '\\' :: 'n' :: (lower.toList ++ ['"', ']', ';'])) := by
  simp

theorem Node.toList_dotLine (node : Node) (isOutput : Bool) :
    (node.dotLine isOutput).toList = (node.dotStatement isOutput).toList ++ ['\n'] :=
  toList_append_closing _

theorem Edge.toList_dotLine (edge : Edge) :
    edge.dotLine.toList = edge.dotStatement.toList ++ ['\n'] :=
  toList_append_closing _

/-- The statement of a node quotes its tag and its name, with a line break between them. -/
theorem Node.toList_dotStatement (node : Node) (isOutput : Bool) :
    (node.dotStatement isOutput).toList =
      (nodeOpening node.id (node.dotStyle isOutput).1 (node.dotStyle isOutput).2).toList ++
        '"' :: (node.kind.tag.toList ++
          '\\' :: 'n' :: ((dotLabel node.name).toList ++ ['"', ']', ';'])) :=
  toList_append_label _ _ _

/-! ## Tags and names in labels -/

theorem isHarmless_of_isAlphanum {character : Char} (letter : character.isAlphanum = true) :
    isHarmless character = true := by
  by_contra hazard
  rcases isHarmless_eq_false_iff.1 (Bool.eq_false_of_not_eq_true hazard) with
    rfl | rfl | rfl | rfl <;> exact absurd letter (by decide)

/-- Digits are harmless. -/
theorem harmless_toString (number : Nat) : Harmless (toString number).toList := by
  intro character member
  rw [Nat.toString_eq_repr, Nat.toList_repr] at member
  have digit := Json.isDigit_of_mem_toDigits member
  rw [Json.isDigit_eq] at digit
  exact isHarmless_of_isAlphanum (by simp [Char.isAlphanum, digit])

theorem IsWord.harmless {text : String} (word : IsWord text) : Harmless text.toList :=
  fun character member => isHarmless_of_isAlphanum (word.2 character member)

/-- Nothing in front of the label of a node is harmful. -/
theorem harmless_nodeOpening (id : NodeId) {shape color : String} (shaped : IsWord shape)
    (colored : IsWord color) : Harmless (nodeOpening id shape color).toList := by
  unfold nodeOpening
  simp only [String.toList_append, harmless_append]
  refine ⟨⟨⟨⟨⟨⟨?_, harmless_toString id⟩, ?_⟩, shaped.harmless⟩, ?_⟩, colored.harmless⟩, ?_⟩ <;>
    decide +kernel

/-- Every tag is harmless that is not an authored text. -/
theorem Kind.harmless_tag (kind : Kind)
    (authored : ∀ tag, kind = .generic tag → Harmless tag.toList) : Harmless kind.tag.toList := by
  cases kind with
  | generic tag => exact authored tag rfl
  | geometry facet => cases facet <;> decide +kernel
  | group variant => cases variant <;> decide +kernel
  | math operation => cases operation <;> decide +kernel
  | mixRgb mode => cases mode <;> decide +kernel
  | vectorMath operation => cases operation <;> decide +kernel
  | vertexChannels count =>
      rw [Kind.tag, String.toList_append, harmless_append]
      exact ⟨by decide +kernel, harmless_toString count⟩
  | texture sampler lanes =>
      rw [Kind.tag, String.toList_append, harmless_append]
      refine ⟨by cases sampler <;> decide +kernel, ?_⟩
      split
      · exact harmless_toString lanes
      · decide +kernel
  | _ => decide +kernel

/-- An escaped name shows the name. -/
theorem shows_dotLabel (name : String) : Shows name.toList (dotLabel name).toList := by
  rw [Shows, dotLabel, String.toList_ofList, List.forall₂_map_right_iff, List.forall₂_same]
  intro character _
  split
  next replaced => exact .inr ⟨rfl, by simpa [or_assoc] using replaced⟩
  next => exact .inl rfl

/-- An escaped name holds nothing that ends its label. -/
theorem harmless_dotLabel (name : String) : Harmless (dotLabel name).toList := by
  rw [dotLabel, String.toList_ofList]
  intro shown member
  obtain ⟨character, -, rfl⟩ := List.mem_map.1 member
  split
  next => decide
  next kept =>
    by_contra hazard
    rcases isHarmless_eq_false_iff.1 (Bool.eq_false_of_not_eq_true hazard) with
      rfl | rfl | rfl | rfl <;> exact kept (by decide)

/-- Shapes and colours are words. -/
theorem Node.isWord_dotStyle (node : Node) (isOutput : Bool) :
    IsWord (node.dotStyle isOutput).1 ∧ IsWord (node.dotStyle isOutput).2 := by
  rw [dotStyle]
  split
  · decide +kernel
  · rw [Kind.dotStyle.eq_def]
    split <;> decide +kernel

section Statements

variable {node : Node} {isOutput : Bool}

/-- With a harmless tag, the statement of a node states it. -/
theorem statesNode_dotStatement (harmless : Harmless node.kind.tag.toList) :
    StatesNode node (node.dotStatement isOutput) := by
  have ⟨shaped, colored⟩ := node.isWord_dotStyle isOutput
  have name := harmless_dotLabel node.name
  refine .intro _ _ _ node.kind.tag.toList (dotLabel node.name).toList shaped colored
    (node.toList_dotStatement isOutput) (readQuoted_rows harmless name [']', ';'])
    ?_ (shows_dotLabel _) (harmless_append.2 ⟨harmless, name⟩)
  exact List.forall₂_same.2 fun _ _ => .inl rfl

/-- A line from which a harmless label is read was written with a harmless tag. -/
theorem StatesNode.harmless_tag (states : StatesNode node (node.dotStatement isOutput)) :
    Harmless node.kind.tag.toList := by
  obtain ⟨shape, color, written, upper, lower, shaped, colored, opened, closed, -, -, harmless⟩ :=
    states
  have ⟨styled, painted⟩ := node.isWord_dotStyle isOutput
  rw [harmless_append] at harmless
  rw [node.toList_dotStatement] at opened
  obtain ⟨-, same⟩ := eq_of_append_mark
    ((harmless_nodeOpening node.id styled painted).notMem (by decide))
    ((harmless_nodeOpening node.id shaped colored).notMem (by decide)) opened
  have label : upper ++ '\\' :: 'n' :: lower =
      node.kind.tag.toList ++ '\\' :: 'n' :: (dotLabel node.name).toList := by
    rw [eq_of_readQuoted closed] at same
    apply (List.append_left_inj ['"', ']', ';']).1
    simpa using same.symm
  -- The only backslash of the label is where the separator was written.
  have behind : '\\' ∉ 'n' :: lower := by
    simpa using harmless.2.notMem (by decide)
  obtain ⟨tag, -⟩ :=
    (List.append_cons_inj_of_notMem (harmless.1.notMem (by decide)) behind).1 label
  exact tag ▸ harmless.1

theorem Harmless.unbroken {text : List Char} (harmless : Harmless text) : '\n' ∉ text :=
  harmless.notMem (by decide)

/-- With a harmless tag, the statement of a node stays on its line. -/
theorem unbroken_dotStatement (harmless : Harmless node.kind.tag.toList) :
    '\n' ∉ (node.dotStatement isOutput).toList := by
  have ⟨shaped, colored⟩ := node.isWord_dotStyle isOutput
  rw [node.toList_dotStatement]
  simp [(harmless_nodeOpening node.id shaped colored).unbroken, harmless.unbroken,
    (harmless_dotLabel node.name).unbroken]

theorem Edge.unbroken_dotStatement (edge : Edge) : '\n' ∉ edge.dotStatement.toList := by
  have digits (number : Nat) : '\n' ∉ (toString number).toList :=
    (harmless_toString number).unbroken
  unfold dotStatement
  simp only [String.toList_append, List.mem_append, not_or]
  refine ⟨⟨⟨⟨⟨⟨⟨⟨?_, digits _⟩, ?_⟩, digits _⟩, ?_⟩, digits _⟩, ?_⟩, digits _⟩, ?_⟩ <;>
    decide +kernel

end Statements

/-! ## Drawings -/

namespace Graph

/-- The lines in front of the statements. -/
def headerLines : List String :=
  ["digraph nmc \x7b", "    rankdir=LR;", "    node [fontname=\"Helvetica\", fontsize=10];",
   "    edge [fontname=\"Helvetica\", fontsize=9];"]

/-- Lines after a blank line, or none at all. -/
def separated : List String → List String
  | [] => []
  | line :: lines => "" :: line :: lines

/-- The lines of a drawing with statements for nodes and edges. -/
def drawing (nodeLines edgeLines : List String) : List String :=
  headerLines ++ separated nodeLines ++ separated edgeLines ++ ["\x7d"]

/--
A text draws a graph: between fixed first and last lines it has one line for each node
and one line for each occurrence of an edge, and a label is read from each node's line.
-/
def DrawnBy (graph : Graph) (text : String) : Prop :=
  ∃ nodeLines edgeLines,
    HasLines text (drawing nodeLines edgeLines) ∧
    List.Forall₂ StatesNode graph.nodes nodeLines ∧
    List.Forall₂ (fun edge line => line = edge.dotStatement) graph.edges edgeLines

/-- A statement for each node; that of the output is marked. -/
def nodeStatements (graph : Graph) : List String :=
  graph.nodes.map fun node => node.dotStatement (graph.output == some node.id)

/-- A statement for each occurrence of an edge. -/
def edgeStatements (graph : Graph) : List String :=
  graph.edges.map Edge.dotStatement

theorem length_separated {first second : List String} (same : first.length = second.length) :
    (separated first).length = (separated second).length := by
  cases first <;> cases second <;> simp_all [separated]

/-- Statements can be told from the blank lines between them. -/
theorem separated_injective : Function.Injective separated := by
  intro first second same
  cases first <;> cases second <;> simp_all [separated]

/-- The statements are found again in a drawing. -/
theorem eq_of_drawing {nodeLines otherNodeLines edgeLines otherEdgeLines : List String}
    (length : nodeLines.length = otherNodeLines.length)
    (same : drawing nodeLines edgeLines = drawing otherNodeLines otherEdgeLines) :
    nodeLines = otherNodeLines := by
  simp only [drawing, List.append_assoc, List.append_cancel_left_eq] at same
  exact separated_injective (List.append_inj_left same (length_separated length))

theorem toList_dotHeader : dotHeader.toList = joinLines headerLines := by
  decide +kernel

/-- A section is one statement a line, behind a blank line if there is any. -/
theorem toList_dotSection {α : Type} (items : List α) (line statement : α → String)
    (ends : ∀ item, (line item).toList = (statement item).toList ++ ['\n']) :
    (dotSection (items.map line)).toList = joinLines (separated (items.map statement)) := by
  cases items with
  | nil => rfl
  | cons item items => simp [dotSection, separated, joinLines, ends, List.flatMap_map]

theorem joinLines_append (front back : List String) :
    joinLines (front ++ back) = joinLines front ++ joinLines back :=
  List.flatMap_append

/-- A drawing is made of its lines. -/
theorem toList_dot (graph : Graph) :
    graph.dot.toList = joinLines (drawing graph.nodeStatements graph.edgeStatements) := by
  have nodes := toList_dotSection graph.nodes _ _ fun node =>
    node.toList_dotLine (graph.output == some node.id)
  have edges := toList_dotSection graph.edges _ _ Edge.toList_dotLine
  simp only [dot, String.toList_append, toList_dotHeader, nodes, edges, drawing, joinLines_append]
  rfl

/-- The lines of a drawing are as many as its statements ask for. -/
theorem length_drawing {nodeLines otherNodeLines edgeLines otherEdgeLines : List String}
    (nodes : nodeLines.length = otherNodeLines.length)
    (edges : edgeLines.length = otherEdgeLines.length) :
    (drawing nodeLines edgeLines).length = (drawing otherNodeLines otherEdgeLines).length := by
  simp only [drawing, List.length_append, length_separated nodes, length_separated edges]

/-- No line of a drawing is broken if no statement is. -/
theorem unbroken_drawing {nodeLines edgeLines : List String}
    (nodes : ∀ line ∈ nodeLines, '\n' ∉ line.toList)
    (edges : ∀ line ∈ edgeLines, '\n' ∉ line.toList) :
    ∀ line ∈ drawing nodeLines edgeLines, '\n' ∉ line.toList := by
  have blank : '\n' ∉ "".toList := by decide +kernel
  have header : ∀ line ∈ headerLines, '\n' ∉ line.toList := by decide +kernel
  have footer : '\n' ∉ "\x7d".toList := by decide +kernel
  have afterBlank {lines : List String} (unbroken : ∀ line ∈ lines, '\n' ∉ line.toList) :
      ∀ line ∈ separated lines, '\n' ∉ line.toList := by
    cases lines with
    | nil => exact unbroken
    | cons line lines => exact List.forall_mem_cons.2 ⟨blank, unbroken⟩
  simp only [drawing, List.forall_mem_append, List.forall_mem_singleton]
  exact ⟨⟨⟨header, afterBlank nodes⟩, afterBlank edges⟩, footer⟩

/-- A node whose statement is drawn with a readable label has a harmless tag. -/
theorem DrawnBy.harmless_tag {graph : Graph} (drawn : graph.DrawnBy graph.dot) {node : Node}
    (present : node ∈ graph.nodes) : Harmless node.kind.tag.toList := by
  obtain ⟨nodeLines, edgeLines, lines, nodes, edges⟩ := drawn
  have nodeLength : graph.nodeStatements.length = nodeLines.length := by
    rw [nodeStatements, List.length_map, nodes.length_eq]
  have edgeLength : graph.edgeStatements.length = edgeLines.length := by
    rw [edgeStatements, List.length_map, edges.length_eq]
  have same := lines.eq_of_joined graph.toList_dot (length_drawing nodeLength edgeLength)
  rw [← eq_of_drawing nodeLength same, nodeStatements, List.forall₂_map_right_iff,
    List.forall₂_same] at nodes
  exact (nodes node present).harmless_tag

/--
The drawing of a graph is well formed exactly if no tag of an unknown kind holds a
quote, a backslash or the end of a line.
-/
theorem drawnBy_dot_iff (graph : Graph) :
    graph.DrawnBy graph.dot ↔
      ∀ node ∈ graph.nodes, ∀ tag, node.kind = .generic tag → Harmless tag.toList := by
  constructor
  · intro drawn node present tag kind
    have harmless := drawn.harmless_tag present
    rwa [kind] at harmless
  · intro authored
    have harmless : ∀ node ∈ graph.nodes, Harmless node.kind.tag.toList := fun node present =>
      node.kind.harmless_tag (authored node present)
    refine ⟨graph.nodeStatements, graph.edgeStatements, ⟨graph.toList_dot, ?_⟩, ?_, ?_⟩
    · apply unbroken_drawing
      · intro line member
        obtain ⟨node, present, rfl⟩ := List.mem_map.1 member
        exact unbroken_dotStatement (harmless node present)
      · intro line member
        obtain ⟨edge, -, rfl⟩ := List.mem_map.1 member
        exact edge.unbroken_dotStatement
    · rw [nodeStatements, List.forall₂_map_right_iff, List.forall₂_same]
      exact fun node present => statesNode_dotStatement (harmless node present)
    · rw [edgeStatements, List.forall₂_map_right_iff, List.forall₂_same]
      exact fun _ _ => rfl

end Graph

/-- A node whose kind is unknown and is spelled with a quote feeds the output. -/
def quotedType : Authored.Tree :=
  { nodes :=
      [{ name := "Invert", type := "IN\"VERT",
         outputs := [.titled "Color" true .zero] },
       { name := "Out", type := "OUTPUT", inputs := [.titled "Color" true .zero] }]
    links := [⟨"Invert", "Color", "Out", "Color"⟩] }

/-- It compiles, but the quote in the tag ends the label. -/
theorem quotedType_breaks_out :
    ∃ graph, (quotedType.compile {}).1 = .ok graph ∧ ¬ graph.DrawnBy graph.dot := by
  have compiles : (quotedType.compile {}).1.map (fun graph => graph.nodes.map (·.kind)) =
      .ok [.generic "IN\"VERT", .output] := by
    decide +kernel
  rcases exists_of_map_eq_ok compiles with ⟨graph, compiled, kinds⟩
  refine ⟨graph, compiled, fun drawn => ?_⟩
  have listed : Kind.generic "IN\"VERT" ∈ graph.nodes.map (·.kind) := by
    rw [kinds]
    exact List.mem_cons_self
  obtain ⟨node, present, kind⟩ := List.mem_map.1 listed
  have harmless := drawn.harmless_tag present
  rw [kind] at harmless
  revert harmless
  decide +kernel

end NodeMaterial
