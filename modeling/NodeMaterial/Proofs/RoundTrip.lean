import NodeMaterial.Authored.Format
import NodeMaterial.Proofs.Digests
import NodeMaterial.Proofs.Numerals
import NodeMaterial.Proofs.WrittenRecords

/-!
# Authored trees survive their canonical text

Reading the canonical text of a tree gives the tree back, provided that all its
numbers are finite; other numbers are written as `null`.  So the canonical text
tells such trees apart, and their fingerprints agree only for equal trees or for
a collision of the hash.  This holds for every number format that reads its own
numerals back, and for every hash.
-/

namespace NodeMaterial.Authored

open Json (Draft NumberFormat Read RecordField Value Written)
open Json.Draft (readText_draft readFlag_draft readNumber_draft)

variable {format : NumberFormat}

/-! ## The numbers of a tree -/

/-- The numbers that JSON can hold. -/
def AllFinite (numbers : List Binary64) : Prop :=
  ∀ number ∈ numbers, number.isFinite = true

instance (numbers : List Binary64) : Decidable (AllFinite numbers) :=
  inferInstanceAs (Decidable (∀ number ∈ numbers, number.isFinite = true))

/-- The numbers of a material. -/
def Material.numbers (material : Material) : List Binary64 :=
  [material.roughness, material.diffuseFresnel, material.diffuseFresnelFactor,
   material.specularIntensity, material.specularHardness, material.specularSlope]

/-- The numbers of a node: defaults of its sockets, its material and its transformations. -/
def Node.numbers (node : Node) : List Binary64 :=
  (node.inputs ++ node.outputs).flatMap (·.defaultValue.components) ++
  node.material.toList.flatMap Material.numbers ++
  [node.translation, node.rotation, node.scale, node.minClip, node.maxClip].flatMap Triple.toList

/-- Every number that a tree holds. -/
def Tree.numbers (tree : Tree) : List Binary64 :=
  tree.nodes.flatMap Node.numbers

@[simp]
theorem allFinite_append {front back : List Binary64} :
    AllFinite (front ++ back) ↔ AllFinite front ∧ AllFinite back :=
  List.forall_mem_append

@[simp]
theorem allFinite_flatMap {α : Type} {items : List α} {numbers : α → List Binary64} :
    AllFinite (items.flatMap numbers) ↔ ∀ item ∈ items, AllFinite (numbers item) :=
  List.forall_mem_flatMap

@[simp]
theorem allFinite_cons {number : Binary64} {others : List Binary64} :
    AllFinite (number :: others) ↔ number.isFinite = true ∧ AllFinite others :=
  List.forall_mem_cons

/-! ## Default values and triples -/

theorem fault?_number {double : Binary64} (finite : double.isFinite = true) (depth : Nat) :
    ((Value.number double).draft format).fault? depth = none := by
  simp [Value.draft, finite, Draft.fault?]

theorem itemsFault?_numbers {components : List Binary64} (finite : AllFinite components)
    (depth : Nat) :
    Draft.itemsFault? depth (Value.itemDrafts format (components.map .number)) = none := by
  induction components with
  | nil => rfl
  | cons component others faultless =>
      rw [allFinite_cons] at finite
      simp [Value.itemDrafts, Draft.itemsFault?, fault?_number finite.1, faultless finite.2]

/-- A value is read back as the scalar or the vector that it is. -/
theorem readSocketValue_json {value : SocketValue} (finite : AllFinite value.components) :
    readSocketValue ((socketValueJson value).draft format) = .ok value := by
  cases value with
  | scalar component =>
      have number : component.isFinite = true := finite component List.mem_cons_self
      simp only [socketValueJson, readSocketValue, fault?_number number]
      simp [Value.draft, number]
  | vector components =>
      have faultless :
          Draft.itemsFault? 121 (Value.itemDrafts format (components.map .number)) = none :=
        itemsFault?_numbers finite 121
      have items : Draft.readItems Draft.readNumber
          (Value.itemDrafts format (components.map .number)) = .ok components :=
        Draft.readItems_map fun component member => readNumber_draft (finite component member)
      simp [socketValueJson, readSocketValue, Value.draft, Draft.fault?, valueDepth, faultless,
        items, Json.Ending.fault?]

theorem readTriple_json {triple : Triple} (finite : AllFinite triple.toList) :
    readTriple ((tripleJson triple).draft format) = .ok triple := by
  simp only [Triple.toList, allFinite_cons] at finite
  obtain ⟨x, y, z, -⟩ := finite
  have drafts : (tripleJson triple).draft format =
      .array [(Value.number triple.x).draft format, (Value.number triple.y).draft format,
        (Value.number triple.z).draft format] .closed :=
    rfl
  simp [drafts, readTriple, tripleFields, Draft.readInOrder, RecordField.need, readNumber_draft x,
    readNumber_draft y, readNumber_draft z, Draft.closing, Json.Ending.fault?]

/-! ## Records -/

/-- A socket is read back if its default value is finite. -/
theorem readSocket_json {socket : Socket} (finite : AllFinite socket.defaultValue.components) :
    readSocket ((socketJson socket).draft format) = .ok socket := by
  apply Written.readRecord_eq
  · exact .need (readText_draft _) <| .need (readText_draft _) <| .allow (readFlag_draft _) <|
      .allow (readSocketValue_json finite) <| .nil _
  · decide

theorem readTexture_json (texture : Texture) :
    readTexture ((textureJson texture).draft format) = .ok texture := by
  apply Written.readRecord_eq
  · exact .need (readText_draft _) <| .allow (readText_draft _) <| .nil _
  · decide

/-- A material is read back if its numbers are finite. -/
theorem readMaterial_json {material : Material} (finite : AllFinite material.numbers) :
    readMaterial ((materialJson material).draft format) = .ok material := by
  simp only [Material.numbers, allFinite_cons] at finite
  obtain ⟨roughness, fresnel, factor, intensity, hardness, slope, -⟩ := finite
  apply Written.readRecord_eq
  · exact .allow (readText_draft _) <| .allow (readText_draft _) <| .allow (readText_draft _) <|
      .allow (readNumber_draft roughness) <| .allow (readNumber_draft fresnel) <|
      .allow (readNumber_draft factor) <| .allow (readNumber_draft intensity) <|
      .allow (readNumber_draft hardness) <| .allow (readNumber_draft slope) <| .nil _
  · decide

theorem readLink_json (link : Link) : readLink ((linkJson link).draft format) = .ok link := by
  apply Written.readRecord_eq
  · exact .need (readText_draft _) <| .need (readText_draft _) <| .need (readText_draft _) <|
      .need (readText_draft _) <| .nil _
  · decide

/-- A property is written if the node has it, and read as missing if it is not written. -/
theorem written_property {α β : Type} {name : String} {read : Draft → Read (Option β)}
    {set : Option β → α → α} {json : β → Value} {content : Option β}
    {fields : List (RecordField α)} {members : List (String × Value)} {record final : α}
    (reads : ∀ value ∈ content, read ((json value).draft format) = .ok (some value))
    (blank : set none record = record)
    (others : Written format fields members (set content record) final) :
    Written format (.allow name read set :: fields) (property name json content ++ members)
      record final := by
  cases content with
  | none =>
      rw [blank] at others
      exact .leftOut rfl others
  | some value => exact .allow (reads value rfl) others

theorem readOptional_object {α : Type} {read : Draft → Read α} {members : List (String × Value)}
    {content : α} (reads : read ((Value.object members).draft format) = .ok content) :
    Draft.readOptional read ((Value.object members).draft format) = .ok (some content) := by
  change some <$> read ((Value.object members).draft format) = _
  rw [reads]
  rfl

/-- A node is read back if its numbers are finite. -/
theorem readNode_json {node : Node} (finite : AllFinite node.numbers) :
    readNode ((nodeJson node).draft format) = .ok node := by
  simp only [Node.numbers, allFinite_append, allFinite_flatMap, List.forall_mem_append] at finite
  obtain ⟨⟨⟨inputs, outputs⟩, material⟩, triples⟩ := finite
  simp only [List.forall_mem_cons] at triples
  obtain ⟨translation, rotation, scale, minClip, maxClip, -⟩ := triples
  have note {content : Option String} : ∀ text ∈ content,
      readNote ((Value.string text).draft format) = .ok (some text) := fun _ _ => rfl
  rw [nodeJson]
  simp only [List.append_assoc]
  apply Written.readRecord_eq
  · refine .need (readText_draft _) <| .need (readText_draft _) <|
      .allow (Draft.readList_map fun socket member => readSocket_json (inputs socket member)) <|
      .allow (Draft.readList_map fun socket member => readSocket_json (outputs socket member)) <|
      written_property note rfl <| written_property note rfl <| written_property note rfl <|
      written_property note rfl <| written_property note rfl <|
      written_property (fun texture _ => readOptional_object (readTexture_json texture)) rfl <|
      written_property (fun _ has => readOptional_object (readMaterial_json (material _ ?_))) rfl <|
      .allow (readTriple_json translation) <| .allow (readTriple_json rotation) <|
      .allow (readTriple_json scale) <| .allow (readFlag_draft _) <| .allow (readFlag_draft _) <|
      .allow (readTriple_json minClip) <| .allow (readTriple_json maxClip) <|
      .allow (readFlag_draft _) <| .allow (readFlag_draft _) <| .nil _
    simpa using has
  · decide

/-- A tree is read back if its numbers are finite. -/
theorem readTree_json {tree : Tree} (finite : AllFinite tree.numbers) :
    readTree ((treeJson tree).draft format) = .ok tree := by
  rw [Tree.numbers, allFinite_flatMap] at finite
  apply Written.readRecord_eq
  · exact .need (Draft.readList_map fun node member => readNode_json (finite node member)) <|
      .allow (Draft.readList_map fun link _ => readLink_json link) <| .nil _
  · decide

/-- Reading undoes writing. -/
theorem ofText_canonical (faithful : format.Faithful) {tree : Tree}
    (finite : AllFinite tree.numbers) :
    Tree.ofText format (tree.canonical format) = .ok tree := by
  rw [Tree.ofText, Tree.canonical, Json.readText_compact faithful, readTree_json finite]

/--
The format of trees loses nothing, provided that printing a finite double and
reading it back gives the same double: the text of a tree with finite numbers is
read as this tree.  So two such trees have the same text only if they are equal,
and the same fingerprint only if they are equal or the hash of their texts
collides.
-/
theorem Tree.canonical_round_trip (faithful : format.Faithful)
    (hash : List UInt8 → List UInt8) {tree : Tree} (finite : AllFinite tree.numbers) :
    Tree.ofText format (tree.canonical format) = .ok tree ∧
      ∀ other : Tree, AllFinite other.numbers →
        (tree.canonical format = other.canonical format ↔ tree = other) ∧
        (tree.fingerprint format hash = other.fingerprint format hash ↔
          tree = other ∨ Text.Digest.Collision hash (tree.canonical format).toUTF8.toList
            (other.canonical format).toUTF8.toList) := by
  refine ⟨ofText_canonical faithful finite, fun other otherFinite => ?_⟩
  have texts : tree.canonical format = other.canonical format ↔ tree = other := by
    refine ⟨fun same => ?_, fun same => by rw [same]⟩
    have read := ofText_canonical faithful finite
    rw [same, ofText_canonical faithful otherFinite] at read
    exact (Except.ok.inj read).symm
  exact ⟨texts, by rw [fingerprint, fingerprint, Text.Digest.hex_eq_iff, texts]⟩

/-- A node with a quote, a line break and a code in its name, and with the extreme doubles. -/
def oddNode (first : SocketValue) : Node :=
  { name := "a \"quoted\\ \n\x01 é"
    type := "GROUP"
    inputs := [⟨"", "first", true, first⟩, ⟨"", "none", false, .vector []⟩]
    groupName := some ""
    material := some {}
    rotation := ⟨⟨0x8000000000000000⟩, ⟨1⟩, ⟨0x7FEFFFFFFFFFFFFF⟩⟩ }

/-- A scalar and a vector of one component are told apart by the program's own format. -/
theorem Tree.canonical_round_trip_oddNode :
    NumberFormat.shortest.Faithful ∧
    AllFinite (Tree.mk [oddNode (.scalar .one)] []).numbers ∧
    AllFinite (Tree.mk [oddNode (.vector [.one])] []).numbers ∧
    Tree.ofText .shortest ((Tree.mk [oddNode (.scalar .one)] []).canonical .shortest) =
      .ok (Tree.mk [oddNode (.scalar .one)] []) ∧
    (Tree.mk [oddNode (.scalar .one)] []).canonical .shortest ≠
      (Tree.mk [oddNode (.vector [.one])] []).canonical .shortest := by
  have faithful := NumberFormat.shortest_faithful
  have finite : AllFinite (Tree.mk [oddNode (.scalar .one)] []).numbers := by decide +kernel
  have otherFinite : AllFinite (Tree.mk [oddNode (.vector [.one])] []).numbers := by
    decide +kernel
  obtain ⟨read, apart⟩ := Tree.canonical_round_trip faithful Text.Digest.sha256 finite
  refine ⟨faithful, finite, otherFinite, read, fun same => ?_⟩
  exact absurd ((apart _ otherFinite).1.1 same) (by decide +kernel)

end NodeMaterial.Authored
