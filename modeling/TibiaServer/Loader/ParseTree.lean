import TibiaServer.Loader.OTB
/-!
# Parsing the encoding of a tree

`locate` says where the nodes of a tree stand in its encoding.  The parser finds just
these nodes, and what it finds in any other file are ranges without a marker.
-/

namespace TibiaServer.OTB

open TibiaServer.Library
open TibiaServer.Library.Escape

mutual

/-- The node that stands for a tree whose encoding starts at `it`. -/
def locate (it : ℕ) : Tree → Node
  | .node type props children =>
    .mk type (it + 2) (it + 2 + (escape ESCAPE special props).length)
      (locateAll (it + 2 + (escape ESCAPE special props).length) children)

def locateAll (it : ℕ) : List Tree → List Node
  | [] => []
  | tree :: trees => locate it tree :: locateAll (it + (encode tree).length) trees

end

/-- A node that has got the children which stand at `it`. -/
def Node.adopt : Node → ℕ → List Tree → Node
  | .mk type propsBegin propsEnd children, it, trees =>
    .mk type propsBegin (if children.isEmpty ∧ trees ≠ [] then it else propsEnd)
      (children ++ locateAll it trees)

section Reading

variable {it : ℕ} {bytes : List UInt8} {parse : Parse}

theorem special_ESCAPE : special ESCAPE = true := rfl

theorem not_special {byte : UInt8} (h : special byte = false) :
    byte ≠ START ∧ byte ≠ END ∧ byte ≠ ESCAPE := by
  unfold special at h
  simp only [Bool.or_eq_false_iff, decide_eq_false_iff_not] at h
  exact ⟨h.1.2, h.2, h.1.1⟩

theorem parseLoop_plain {byte : UInt8} (h : special byte = false) :
    parseLoop it (byte :: bytes) parse = parseLoop (it + 1) bytes parse := by
  obtain ⟨hstart, hend, hescape⟩ := not_special h
  rw [parseLoop.eq_def]
  simp [hstart, hend, hescape]

theorem parseLoop_escape (byte : UInt8) :
    parseLoop it (ESCAPE :: byte :: bytes) parse = parseLoop (it + 2) bytes parse := by
  rw [parseLoop]
  rfl

/-- Text without a marker of its own is passed over. -/
theorem parseLoop_clean {text : List UInt8} (h : Clean ESCAPE special text) :
    parseLoop it (text ++ bytes) parse = parseLoop (it + text.length) bytes parse := by
  induction text using Clean.induct ESCAPE generalizing it with
  | case1 => rfl
  | case2 => simp [Clean] at h
  | case3 byte rest ih =>
    rw [clean_cons_escaped] at h
    rw [List.cons_append, List.cons_append, parseLoop_escape, ih h]
    congr 1
    simp only [List.length_cons]
    omega
  | case4 byte rest hbyte ih =>
    unfold Clean at h
    rw [if_neg hbyte] at h
    rw [List.cons_append, parseLoop_plain h.1, ih h.2]
    congr 1
    simp only [List.length_cons]
    omega

theorem parseLoop_start (type : UInt8) (currentNode : Node) (rest : List Node) :
    parseLoop it (START :: type :: bytes) { parseStack := currentNode :: rest } =
      parseLoop (it + 2) bytes
        { parseStack := .mk type (it + 2) 0 [] :: currentNode.endProps it :: rest } := by
  rw [parseLoop]
  rfl

theorem parseLoop_end (currentNode : Node) (rest : List Node) :
    parseLoop it (END :: bytes) { parseStack := currentNode :: rest } =
      parseLoop (it + 1) bytes (Parse.pop (currentNode.endProps it) rest) := by
  rw [parseLoop.eq_def]
  rfl

end Reading

/-! ## The encoding of a tree -/

section Encoding

variable {it : ℕ} {bytes : List UInt8}

theorem adopt_nil (node : Node) : node.adopt it [] = node := by
  cases node with
  | mk type propsBegin propsEnd children => simp [Node.adopt, locateAll]

/-- The first child ends the properties, and each is added behind the ones before. -/
theorem adopt_cons (node : Node) (tree : Tree) (trees : List Tree) :
    (((node.endProps it).addChild (locate it tree)).adopt (it + (encode tree).length) trees) =
      node.adopt it (tree :: trees) := by
  cases node with
  | mk type propsBegin propsEnd children =>
    simp [Node.adopt, Node.endProps, Node.addChild, locateAll]

/-- The node is as it is located once its own end is found. -/
theorem endProps_adopt (type : UInt8) (props : List UInt8) (children : List Tree) :
    ((Node.mk type (it + 2) 0 []).adopt (it + 2 + (escape ESCAPE special props).length)
        children).endProps
        (it + 2 + (escape ESCAPE special props).length + (encodeAll children).length) =
      locate it (.node type props children) := by
  cases children with
  | nil => simp [Node.adopt, Node.endProps, locate, locateAll, encodeAll]
  | cons tree trees => simp [Node.adopt, Node.endProps, locate, locateAll]

theorem length_encode (type : UInt8) (props : List UInt8) (children : List Tree) :
    (encode (.node type props children)).length =
      2 + (escape ESCAPE special props).length + (encodeAll children).length + 1 := by
  rw [encode]
  simp only [List.length_cons, List.length_append, List.length_nil]
  omega

mutual

/-- From behind its type to its end, a node is read and closed. -/
theorem parseLoop_body (tree : Tree) (it : ℕ) (bytes : List UInt8) (rest : List Node) :
    ∀ type props children, tree = .node type props children →
      parseLoop (it + 2)
          (escape ESCAPE special props ++ (encodeAll children ++ END :: bytes))
          { parseStack := .mk type (it + 2) 0 [] :: rest } =
        parseLoop (it + (encode tree).length) bytes (Parse.pop (locate it tree) rest) := by
  match tree with
  | .node type props children =>
    rintro _ _ _ ⟨⟩
    calc parseLoop (it + 2)
          (escape ESCAPE special props ++ (encodeAll children ++ END :: bytes))
          { parseStack := .mk type (it + 2) 0 [] :: rest }
        = parseLoop (it + 2 + (escape ESCAPE special props).length)
            (encodeAll children ++ END :: bytes)
            { parseStack := .mk type (it + 2) 0 [] :: rest } :=
          parseLoop_clean (clean_escape special_ESCAPE props)
      _ = parseLoop
            (it + 2 + (escape ESCAPE special props).length + (encodeAll children).length)
            (END :: bytes)
            { parseStack := (Node.mk type (it + 2) 0 []).adopt
                (it + 2 + (escape ESCAPE special props).length) children :: rest } :=
          parseLoop_encodeAll children _ _ _ _
      _ = parseLoop (it + (encode (.node type props children)).length) bytes
            (Parse.pop (locate it (.node type props children)) rest) := by
          rw [parseLoop_end, endProps_adopt, length_encode]
          congr 1
          omega

theorem parseLoop_encodeAll (trees : List Tree) (it : ℕ) (bytes : List UInt8)
    (currentNode : Node) (rest : List Node) :
    parseLoop it (encodeAll trees ++ bytes) { parseStack := currentNode :: rest } =
      parseLoop (it + (encodeAll trees).length) bytes
        { parseStack := currentNode.adopt it trees :: rest } := by
  match trees with
  | [] =>
    rw [adopt_nil]
    rfl
  | .node type props children :: trees =>
    have hbody := parseLoop_body (.node type props children) it (encodeAll trees ++ bytes)
      (currentNode.endProps it :: rest) type props children rfl
    have hencode : encodeAll (.node type props children :: trees) ++ bytes =
        START :: type :: (escape ESCAPE special props ++
          (encodeAll children ++ END :: (encodeAll trees ++ bytes))) := by
      simp [encodeAll, encode]
    rw [hencode, parseLoop_start, hbody]
    simp only [Parse.pop]
    rw [parseLoop_encodeAll trees, adopt_cons]
    congr 1
    rw [encodeAll, List.length_append]
    omega

end

theorem parseTree_encode (identifier : Vector UInt8 4) (tree : Tree) :
    parseTree (identifier.toList ++ encode tree) = .ok (locate identifierSize tree) := by
  obtain ⟨type, props, children⟩ := tree
  have hdrop : (identifier.toList ++ encode (.node type props children)).drop identifierSize =
      encode (.node type props children) :=
    List.drop_left' identifier.length_toList
  have hbody := parseLoop_body (.node type props children) identifierSize [] [] type props
    children rfl
  unfold parseTree
  rw [hdrop, encode]
  simp only [ne_eq, not_true_eq_false, if_false]
  rw [hbody, parseLoop]
  rfl

end Encoding

/-! ## What the nodes of an encoding hold -/

theorem slice_append {a n : ℕ} {pre mid post : List UInt8} (ha : pre.length = a)
    (hn : mid.length = n) : ((pre ++ (mid ++ post)).take (a + n)).drop a = mid := by
  rw [← List.append_assoc, List.take_left' (by simp [ha, hn]), List.drop_left' ha]

mutual

/-- The nodes of an encoding read back as the tree. -/
theorem tree_locate (tree : Tree) (pre post : List UInt8) {it : ℕ} (hit : pre.length = it) :
    (locate it tree).tree (pre ++ (encode tree ++ post)) = tree := by
  match tree with
  | .node type props children =>
    have hcontents : pre ++ (encode (.node type props children) ++ post) =
        (pre ++ [START, type]) ++ (escape ESCAPE special props ++
          (encodeAll children ++ (END :: post))) := by
      simp [encode]
    have hprops : ∀ nodes, getProps (pre ++ (encode (.node type props children) ++ post))
        (.mk type (it + 2) (it + 2 + (escape ESCAPE special props).length) nodes) =
          if (escape ESCAPE special props).length = 0 then none else some props := by
      intro nodes
      unfold getProps Node.props
      simp only [Node.propsBegin, Node.propsEnd, hcontents]
      rw [slice_append (by simp [hit]) rfl, unescape_escape special_ESCAPE]
    have hchildren := trees_locateAll children (pre ++ [START, type] ++
      escape ESCAPE special props) (END :: post)
      (show _ = it + 2 + (escape ESCAPE special props).length by simp [hit]; omega)
    rw [locate, Node.tree, hprops]
    congr 1
    · split
      next hempty =>
        have hnil : escape ESCAPE special props = [] := List.length_eq_zero_iff.mp hempty
        have hread := unescape_escape special_ESCAPE props
        rw [hnil] at hread
        exact hread
      next => rfl
    · rw [hcontents, ← List.append_assoc]
      exact hchildren

theorem trees_locateAll (trees : List Tree) (pre post : List UInt8) {it : ℕ}
    (hit : pre.length = it) :
    Node.trees (pre ++ (encodeAll trees ++ post)) (locateAll it trees) = trees := by
  match trees with
  | [] => rfl
  | tree :: trees =>
    have hcontents : pre ++ (encodeAll (tree :: trees) ++ post) =
        pre ++ (encode tree ++ (encodeAll trees ++ post)) := by
      simp [encodeAll]
    have hlater : pre ++ (encode tree ++ (encodeAll trees ++ post)) =
        (pre ++ encode tree) ++ (encodeAll trees ++ post) := by
      simp
    have hhead := tree_locate tree pre (encodeAll trees ++ post) hit
    have htail := trees_locateAll trees (pre ++ encode tree) post
      (show _ = it + (encode tree).length by simp [hit])
    rw [locateAll, Node.trees, hcontents, hhead, hlater, htail]

end

/-!
## Ranges of properties

Whatever the file is, the range of a node that is parsed lies in it and holds no
marker of its own.  The parser has this of every closed node and of those below the
innermost one, whose range is still open while it has no children.
-/

/-- The file has clean text from `propsBegin` to `propsEnd`. -/
def Placed (fileContents : List UInt8) (propsBegin propsEnd : ℕ) : Prop :=
  ∃ pre mid post, fileContents = pre ++ (mid ++ post) ∧ pre.length = propsBegin ∧
    propsBegin + mid.length = propsEnd ∧ Clean ESCAPE special mid

/-- The range of a node lies in the file and has no marker of its own. -/
structure Ranged (fileContents : List UInt8) (node : Node) : Prop where
  le : node.propsBegin ≤ node.propsEnd
  inside : node.propsEnd ≤ fileContents.length
  clean : Clean ESCAPE special (node.props fileContents)

/-- A node with its range found, but for what is below it. -/
structure Closed (fileContents : List UInt8) (node : Node) : Prop where
  placed : Placed fileContents node.propsBegin node.propsEnd
  below : Node.AllOf (Ranged fileContents) node.children

/-- The innermost node at the offset `it`. -/
structure Open (fileContents : List UInt8) (it : ℕ) (node : Node) : Prop where
  childless : node.children.isEmpty = true → Placed fileContents node.propsBegin it
  placed : node.children.isEmpty = false → Placed fileContents node.propsBegin node.propsEnd
  below : Node.AllOf (Ranged fileContents) node.children

def StackClosed (fileContents : List UInt8) (it : ℕ) : List Node → Prop
  | [] => True
  | currentNode :: rest =>
    Open fileContents it currentNode ∧ ∀ node ∈ rest, Closed fileContents node

/-- What the loop has at the offset `it` with `bytes` to go. -/
structure Reads (fileContents : List UInt8) (it : ℕ) (bytes : List UInt8) (parse : Parse) :
    Prop where
  offset : ∃ done, fileContents = done ++ bytes ∧ done.length = it
  stack : StackClosed fileContents it parse.parseStack
  root : ∀ root, parse.root = some root → root.All (Ranged fileContents)

section Ranges

variable {fileContents bytes : List UInt8} {it propsBegin propsEnd : ℕ}

theorem ranged_of_placed {node : Node}
    (h : Placed fileContents node.propsBegin node.propsEnd) : Ranged fileContents node := by
  obtain ⟨pre, mid, post, hcontents, hpre, hmid, hclean⟩ := h
  have hprops : node.props fileContents = mid := by
    unfold Node.props
    rw [hcontents, ← hmid]
    exact slice_append hpre rfl
  refine ⟨by omega, ?_, ?_⟩
  · rw [hcontents]
    simp only [List.length_append]
    omega
  · rw [hprops]
    exact hclean

/-- The text grows up to the offset by a clean piece. -/
theorem placed_extend {piece : List UInt8}
    (hoffset : ∃ done, fileContents = done ++ (piece ++ bytes) ∧ done.length = it)
    (hpiece : Clean ESCAPE special piece) (h : Placed fileContents propsBegin it) :
    Placed fileContents propsBegin (it + piece.length) := by
  obtain ⟨done, hdone, hlength⟩ := hoffset
  obtain ⟨pre, mid, post, hcontents, hpre, hmid, hclean⟩ := h
  have hsplit : (pre ++ mid) ++ post = done ++ (piece ++ bytes) := by
    rw [List.append_assoc, ← hcontents, hdone]
  have hpost : post = piece ++ bytes := by
    apply (List.append_inj hsplit ?_).2
    rw [List.length_append]
    omega
  refine ⟨pre, mid ++ piece, bytes, ?_, hpre, ?_, hclean.append hpiece⟩
  · rw [hcontents, hpost, List.append_assoc]
  · rw [List.length_append]
    omega

theorem offset_extend {piece : List UInt8}
    (hoffset : ∃ done, fileContents = done ++ (piece ++ bytes) ∧ done.length = it) :
    ∃ done, fileContents = done ++ bytes ∧ done.length = it + piece.length := by
  obtain ⟨done, hdone, hlength⟩ := hoffset
  refine ⟨done ++ piece, ?_, ?_⟩
  · rw [hdone, List.append_assoc]
  · rw [List.length_append, hlength]

/-- A piece of text leaves every node as it is. -/
theorem Reads.text {piece : List UInt8} {parse : Parse}
    (h : Reads fileContents it (piece ++ bytes) parse) (hpiece : Clean ESCAPE special piece) :
    Reads fileContents (it + piece.length) bytes parse := by
  refine ⟨offset_extend h.offset, ?_, h.root⟩
  have hstack := h.stack
  cases hparse : parse.parseStack with
  | nil => exact trivial
  | cons currentNode rest =>
    rw [hparse] at hstack
    refine ⟨⟨fun hempty => ?_, hstack.1.placed, hstack.1.below⟩, hstack.2⟩
    exact placed_extend h.offset hpiece (hstack.1.childless hempty)

/-- The first marker behind the properties closes the range. -/
theorem closed_endProps {node : Node} (h : Open fileContents it node) :
    Closed fileContents (node.endProps it) := by
  obtain ⟨type, propsBegin, propsEnd, children⟩ := node
  refine ⟨?_, h.below⟩
  simp only [Node.endProps, Node.propsBegin, Node.propsEnd]
  split
  next hempty => exact h.childless hempty
  next hempty => exact h.placed (Bool.eq_false_iff.mpr hempty)

theorem allOf_append {P : Node → Prop} {nodes : List Node} {node : Node}
    (hnodes : Node.AllOf P nodes) (hnode : node.All P) : Node.AllOf P (nodes ++ [node]) := by
  induction nodes with
  | nil => exact ⟨hnode, trivial⟩
  | cons first rest ih => exact ⟨hnodes.1, ih hnodes.2⟩

theorem all_of_closed {node : Node} (h : Closed fileContents node) :
    node.All (Ranged fileContents) := by
  obtain ⟨type, propsBegin, propsEnd, children⟩ := node
  exact ⟨ranged_of_placed h.placed, h.below⟩

/-- A node with a child has its range, wherever the parser is. -/
theorem open_addChild {node child : Node} (h : Closed fileContents node)
    (hchild : child.All (Ranged fileContents)) : Open fileContents it (node.addChild child) := by
  obtain ⟨type, propsBegin, propsEnd, children⟩ := node
  refine ⟨fun hempty => ?_, fun _ => h.placed, allOf_append h.below hchild⟩
  simp [Node.addChild, Node.children] at hempty

theorem reads_start {type : UInt8} {currentNode : Node} {rest : List Node} {root : Option Node}
    (h : Reads fileContents it (START :: type :: bytes) ⟨currentNode :: rest, root⟩) :
    Reads fileContents (it + 2) bytes
      ⟨.mk type (it + 2) 0 [] :: currentNode.endProps it :: rest, root⟩ := by
  have hoffset := offset_extend (show ∃ done, fileContents = done ++ ([START, type] ++ bytes) ∧
    done.length = it from h.offset)
  refine ⟨hoffset, ⟨?_, ?_⟩, h.root⟩
  · refine ⟨fun _ => ?_, fun hempty => absurd hempty (by simp [Node.children]), trivial⟩
    obtain ⟨done, hdone, hlength⟩ := hoffset
    exact ⟨done, [], bytes, hdone, hlength, rfl, trivial⟩
  · intro node hnode
    rcases List.mem_cons.mp hnode with rfl | hmem
    · exact closed_endProps h.stack.1
    · exact h.stack.2 node hmem

theorem reads_end {currentNode : Node} {rest : List Node} {root : Option Node}
    (h : Reads fileContents it (END :: bytes) ⟨currentNode :: rest, root⟩) :
    Reads fileContents (it + 1) bytes (Parse.pop (currentNode.endProps it) rest) := by
  have hoffset := offset_extend (show ∃ done, fileContents = done ++ ([END] ++ bytes) ∧
    done.length = it from h.offset)
  have hclosed := all_of_closed (closed_endProps h.stack.1)
  cases rest with
  | nil =>
    refine ⟨hoffset, trivial, fun root hroot => ?_⟩
    rw [← Option.some.inj hroot]
    exact hclosed
  | cons parent rest =>
    refine ⟨hoffset, ⟨open_addChild (h.stack.2 parent List.mem_cons_self) hclosed, ?_⟩, ?_⟩
    · exact fun node hnode => h.stack.2 node (List.mem_cons_of_mem _ hnode)
    · intro root hroot
      cases hroot

/-- Every way through the loop keeps what it has. -/
theorem reads_parseLoop (bytes : List UInt8) (it : ℕ) (parse final : Parse)
    (h : Reads fileContents it bytes parse) (hfinal : parseLoop it bytes parse = .ok final) :
    ∀ root, final.root = some root → root.All (Ranged fileContents) := by
  induction it, bytes, parse using parseLoop.induct with
  | case1 it parse =>
    rw [parseLoop] at hfinal
    cases hfinal
    exact h.root
  | case2 it parse bytes hstack =>
    rw [parseLoop.eq_def] at hfinal
    simp [hstack] at hfinal
  | case3 it parse currentNode rest hstack =>
    rw [parseLoop.eq_def] at hfinal
    simp [hstack] at hfinal
  | case4 it parse currentNode rest hstack type bytes ih =>
    obtain ⟨parseStack, root⟩ := parse
    subst hstack
    rw [parseLoop.eq_def] at hfinal
    exact ih (reads_start h) hfinal
  | case5 it parse bytes hstack hstart =>
    rw [parseLoop.eq_def] at hfinal
    simp [hstack, hstart] at hfinal
  | case6 it parse bytes currentNode rest hstack hstart ih =>
    obtain ⟨parseStack, root⟩ := parse
    subst hstack
    rw [parseLoop.eq_def] at hfinal
    exact ih (reads_end h) hfinal
  | case7 it parse hstart hend =>
    rw [parseLoop.eq_def] at hfinal
    simp [hstart, hend] at hfinal
  | case8 it parse byte bytes hstart hend ih =>
    rw [parseLoop_escape] at hfinal
    exact ih (Reads.text (show Reads fileContents it ([ESCAPE, byte] ++ bytes) parse from h)
      ((clean_cons_escaped byte []).mpr trivial)) hfinal
  | case9 it parse byte bytes hstart hend hescape ih =>
    have hplain : special byte = false := by simp [special, hstart, hend, hescape]
    rw [parseLoop_plain hplain] at hfinal
    exact ih (Reads.text (show Reads fileContents it ([byte] ++ bytes) parse from h)
      ((clean_cons_plain hescape hplain []).mpr trivial)) hfinal

theorem root_of_finish {parse : Parse} {root : Node} (h : parse.finish = .ok root) :
    parse.root = some root := by
  obtain ⟨parseStack, found⟩ := parse
  cases parseStack with
  | nil =>
    cases found with
    | none => cases h
    | some found =>
      injection h with heq
      rw [heq]
  | cons currentNode rest => cases h

/-- The root is open behind its type. -/
theorem reads_root {byte type : UInt8}
    (h : fileContents.drop identifierSize = byte :: type :: bytes) :
    Reads fileContents (identifierSize + 2) bytes
      { parseStack := [.mk type (identifierSize + 2) 0 []] } := by
  have hoffset : ∃ done, fileContents = done ++ ([byte, type] ++ bytes) ∧
      done.length = identifierSize := by
    refine ⟨fileContents.take identifierSize, ?_, ?_⟩
    · calc fileContents
          = fileContents.take identifierSize ++ fileContents.drop identifierSize :=
            (List.take_append_drop _ _).symm
        _ = fileContents.take identifierSize ++ ([byte, type] ++ bytes) := by rw [h]; rfl
    · have hlength := congrArg List.length h
      rw [List.length_drop, List.length_cons, List.length_cons] at hlength
      rw [List.length_take]
      omega
  have hbegin := offset_extend hoffset
  refine ⟨hbegin, ⟨⟨fun _ => ?_, fun hempty => ?_, trivial⟩, fun node hnode => ?_⟩, ?_⟩
  · obtain ⟨done, hdone, hlength⟩ := hbegin
    exact ⟨done, [], bytes, hdone, hlength, rfl, trivial⟩
  · simp [Node.children] at hempty
  · cases hnode
  · intro root hroot
    cases hroot

/-- Every node of a tree that is parsed has a range in the file without a marker. -/
theorem ranged_parseTree {root : Node} (h : parseTree fileContents = .ok root) :
    root.All (Ranged fileContents) := by
  unfold parseTree at h
  split at h
  next byte type bytes hdrop =>
    split at h
    · cases h
    next hstart =>
      cases hfinal : parseLoop (identifierSize + 2) bytes
          { parseStack := [.mk type (identifierSize + 2) 0 []] } with
      | error error =>
        rw [hfinal] at h
        cases h
      | ok final =>
        rw [hfinal] at h
        exact reads_parseLoop bytes _ _ final (reads_root hdrop) hfinal root
          (root_of_finish h)
  next => cases h

end Ranges

/-! ## The format -/

/-- The parser reads the encoding of every tree back, and in every other file that it
accepts the properties of each node are a range of the file without a marker. -/
theorem parseTree_reads_back :
    (∀ (identifier : Vector UInt8 4) (tree : Tree), ∃ root,
      parseTree (identifier.toList ++ encode tree) = .ok root ∧
        root.tree (identifier.toList ++ encode tree) = tree) ∧
      ∀ (fileContents : List UInt8) (root : Node), parseTree fileContents = .ok root →
        root.All (Ranged fileContents) := by
  constructor
  · intro identifier tree
    refine ⟨locate identifierSize tree, parseTree_encode identifier tree, ?_⟩
    have hread := tree_locate tree identifier.toList [] identifier.length_toList
    rw [List.append_nil] at hread
    exact hread
  · exact fun fileContents root h => ranged_parseTree h

end TibiaServer.OTB
