import AstroMine.Lib.Ranking
import AstroMine.Mind.BehaviorTree

/-!
# Behaviour trees as XML (`mind/bt/xml.py`)

`parseBehaviorTree` reads a document into a tree, `toXml` renders a tree back. The XML library is
a pair of functions between documents and elements of which only the tag, the attributes and the
child elements are read; what it renders (indented, with a final newline) it reads back.

Results:
* `parseNode_wellFormed`: what is read is well formed.
* `parseNode_toElement`: a well-formed tree is read back, but for the empty `ID`s of its
  composites and decorators, which come back as absent ones.
* `parse_toXml_iff`: a document that is accepted is read back to the same tree exactly if none of
  the composites and decorators of its tree carries an empty `ID`.
-/

namespace AstroMine.Mind

/-! ## Elements -/

/-- An element: its tag, its attributes and its child elements. -/
inductive Element
  | mk (tag : String) (attrib : Dict String String) (children : List Element)

namespace Element

/-- The tag. -/
def tag : Element → String
  | .mk tag _ _ => tag

/-- The attributes. -/
def attrib : Element → Dict String String
  | .mk _ attrib _ => attrib

/-- The child elements. -/
def children : Element → List Element
  | .mk _ _ children => children

/-- An attribute. -/
def get (el : Element) (attr : String) : Option String := el.attrib.get? attr

@[simp]
theorem tag_mk (tag : String) (attrib : Dict String String) (children : List Element) :
    (Element.mk tag attrib children).tag = tag := rfl

@[simp]
theorem children_mk (tag : String) (attrib : Dict String String) (children : List Element) :
    (Element.mk tag attrib children).children = children := rfl

@[simp]
theorem get_mk (tag : String) (attrib : Dict String String) (children : List Element)
    (attr : String) : (Element.mk tag attrib children).get attr = attrib.get? attr := rfl

end Element

/-- The XML library: `fromstring`, `none` where it raises, and `tostring` of the indented element. -/
structure ElementTree (δ : Type) where
  fromstring : δ → Option Element
  tostring : Element → δ
  fromstring_tostring : ∀ el, fromstring (tostring el) = some el

/-! ## The vocabulary -/

/-- `_CONTROL_TAGS` (lines 39–44). -/
def controlTags : List (String × ControlKind) :=
  [("Sequence", .sequence), ("ReactiveSequence", .sequence), ("Fallback", .fallback),
    ("ReactiveFallback", .fallback)]

/-- `_CONTROL_OUT` (lines 45–48). -/
def controlOut : ControlKind → String
  | .sequence => "Sequence"
  | .fallback => "Fallback"

/-- `_DECORATOR_TAGS` (lines 49–53). -/
def decoratorTags : List (String × DecoratorKind) :=
  [("Inverter", .inverter), ("ForceSuccess", .forceSuccess), ("ForceFailure", .forceFailure)]

/-- `_DECORATOR_OUT` (line 54). -/
def decoratorOut : DecoratorKind → String
  | .inverter => "Inverter"
  | .forceSuccess => "ForceSuccess"
  | .forceFailure => "ForceFailure"

/-- `_RESERVED_ATTRS` (line 56). -/
def reservedAttrs : List String := ["ID", "kind", "tier", "action"]

/-- The values of `InvokeKind`. -/
def InvokeKind.value : InvokeKind → String
  | .planner => "planner"
  | .policy => "policy"
  | .primitive => "primitive"

/-- `InvokeKind(kind)`. -/
def InvokeKind.ofValue (kind : String) : Option InvokeKind :=
  [InvokeKind.planner, .policy, .primitive].find? fun k => k.value = kind

/-- The values of `ConditionKind`. -/
def ConditionKind.value : ConditionKind → String
  | .freshUpstream => "fresh_upstream"

/-- `ConditionKind(kind)`. -/
def ConditionKind.ofValue (kind : String) : Option ConditionKind :=
  [ConditionKind.freshUpstream].find? fun k => k.value = kind

/-- `BehaviorTreeXMLError` (lines 59–60), with what its messages name. -/
inductive BehaviorTreeXMLError
  /-- `invalid BT XML: …` -/
  | invalidXml
  /-- `<root> contains no <BehaviorTree>` -/
  | noBehaviorTree
  /-- `expected <root> or <BehaviorTree>, got <…>` -/
  | unexpectedRoot (tag : String)
  /-- `multiple <BehaviorTree> present but no main_tree_to_execute set` -/
  | noMainTree
  /-- `main_tree_to_execute … matches no <BehaviorTree ID=..>` -/
  | unknownMainTree (main : String)
  /-- `<BehaviorTree> is missing its ID` -/
  | missingTreeId
  /-- `BehaviorTree … must have exactly one root node, found …` -/
  | rootNodes (treeId : String) (found : ℕ)
  /-- `<…> must have at least one child` -/
  | noChild (tag : String)
  /-- `<…> decorator must have exactly one child` -/
  | notOneChild (tag : String)
  /-- `unknown behavior-tree node <…>` -/
  | unknownNode (tag : String)
  /-- `Action …: unknown kind …`, `Condition …: unknown kind …` -/
  | unknownKind (tag nodeId kind : String)
  /-- `<…> is missing required attribute …` -/
  | missingAttribute (tag attr : String)
  deriving DecidableEq

/-! ## Parsing -/

/-- `_require` (lines 152–156). -/
def require (tag : String) (attrib : Dict String String) (attr : String) :
    Except BehaviorTreeXMLError String :=
  match attrib.get? attr with
  | some value => if value = "" then .error (.missingAttribute tag attr) else .ok value
  | none => .error (.missingAttribute tag attr)

/-- Whether an attribute is one of a leaf's free parameters. -/
def isParam (p : String × String) : Bool := p.1 ∉ reservedAttrs

/-- `_params` (lines 159–160). -/
def params (attrib : Dict String String) : Dict String String :=
  .ofList (attrib.sortedEntries.filter isParam)

/-- The attribute that names what an action invokes. -/
def refAttr (invoke : InvokeKind) : String := if invoke = .primitive then "action" else "tier"

/-- `_parse_action` (lines 131–139). -/
def parseAction (attrib : Dict String String) : Except BehaviorTreeXMLError BTNode := do
  let nodeId ← require "Action" attrib "ID"
  let kind ← require "Action" attrib "kind"
  match InvokeKind.ofValue kind with
  | none => .error (.unknownKind "Action" nodeId kind)
  | some invoke =>
    let ref ← require "Action" attrib (refAttr invoke)
    return .action invoke ref nodeId (params attrib)

/-- `_parse_condition` (lines 142–149). -/
def parseCondition (attrib : Dict String String) : Except BehaviorTreeXMLError BTNode := do
  let nodeId ← require "Condition" attrib "ID"
  let kind ← require "Condition" attrib "kind"
  match ConditionKind.ofValue kind with
  | none => .error (.unknownKind "Condition" nodeId kind)
  | some check => return .condition check nodeId (params attrib)

mutual

/-- `_parse_node` (lines 110–128). -/
def parseNode : Element → Except BehaviorTreeXMLError BTNode
  | .mk tag attrib children =>
    match controlTags.lookup tag with
    | some kind => do
      let nodes ← parseNodes children
      if nodes.isEmpty then throw (.noChild tag)
      return .control kind nodes (attrib.get? "ID")
    | none =>
      match decoratorTags.lookup tag with
      | some kind =>
        match children with
        | [kid] => do
          let child ← parseNode kid
          return .decorator kind child (attrib.get? "ID")
        | _ => .error (.notOneChild tag)
      | none =>
        if tag = "Action" then parseAction attrib
        else if tag = "Condition" then parseCondition attrib
        else .error (.unknownNode tag)

/-- The children of a composite, one after the other. -/
def parseNodes : List Element → Except BehaviorTreeXMLError (List BTNode)
  | [] => .ok []
  | el :: els => do
    let node ← parseNode el
    let nodes ← parseNodes els
    return node :: nodes

end

/-- `_select_tree` (lines 97–107). -/
def selectTree (trees : List Element) (main : Option String) :
    Except BehaviorTreeXMLError Element :=
  match main with
  | none =>
    match trees with
    | [tree] => .ok tree
    | _ => .error .noMainTree
  | some main =>
    match trees.find? fun tree => tree.get "ID" = some main with
    | some tree => .ok tree
    | none => .error (.unknownMainTree main)

/-- The format version and the `<BehaviorTree>` of a document (lines 73–86). -/
def executedTree (root : Element) : Except BehaviorTreeXMLError (String × Element) :=
  if root.tag = "root" then
    let fmt := (root.get "BTCPP_format").getD "4"
    let trees := root.children.filter fun el => el.tag = "BehaviorTree"
    if trees.isEmpty then .error .noBehaviorTree
    else do
      let tree ← selectTree trees (root.get "main_tree_to_execute")
      return (fmt, tree)
  else if root.tag = "BehaviorTree" then .ok ("4", root)
  else .error (.unexpectedRoot root.tag)

/-- The tree of a `<BehaviorTree>` element (lines 88–95). -/
def parseTree (fmt : String) (tree : Element) : Except BehaviorTreeXMLError BehaviorTree :=
  match tree.get "ID" with
  | none => .error .missingTreeId
  | some treeId =>
    if treeId = "" then .error .missingTreeId
    else
      match tree.children with
      | [child] => do
        let root ← parseNode child
        return { treeId, root, formatVersion := fmt }
      | children => .error (.rootNodes treeId children.length)

/-- `parse_behavior_tree` (lines 63–95), of a document that is already decoded. -/
def parseBehaviorTree {δ : Type} (lib : ElementTree δ) (source : δ) :
    Except BehaviorTreeXMLError BehaviorTree :=
  match lib.fromstring source with
  | none => .error .invalidXml
  | some root => do
    let (fmt, tree) ← executedTree root
    parseTree fmt tree

/-! ## Rendering -/

/-- `_id_attr` (lines 192–193). -/
def idAttr (nodeId : Option String) : Dict String String :=
  match nodeId with
  | none => .empty
  | some nodeId => if nodeId = "" then .empty else .ofList [("ID", nodeId)]

mutual

/-- `_to_element` (lines 174–189). -/
def toElement : BTNode → Element
  | .control kind children nodeId => .mk (controlOut kind) (idAttr nodeId) (toElements children)
  | .decorator kind child nodeId => .mk (decoratorOut kind) (idAttr nodeId) [toElement child]
  | .action invoke ref nodeId params =>
    .mk "Action" ((Dict.ofList [("ID", nodeId), ("kind", invoke.value),
      (refAttr invoke, ref)]).setAll params.entries) []
  | .condition check nodeId params =>
    .mk "Condition" ((Dict.ofList [("ID", nodeId), ("kind", check.value)]).setAll params.entries) []

/-- The children of a composite. -/
def toElements : List BTNode → List Element
  | [] => []
  | node :: nodes => toElement node :: toElements nodes

end

/-- `to_xml` (lines 163–171). -/
def toXml {δ : Type} (lib : ElementTree δ) (tree : BehaviorTree) : δ :=
  lib.tostring (.mk "root"
    (.ofList [("BTCPP_format", tree.formatVersion), ("main_tree_to_execute", tree.treeId)])
    [.mk "BehaviorTree" (.ofList [("ID", tree.treeId)]) [toElement tree.root]])

/-! ## What is read is well formed -/

/-- Parameters as `_params` leaves them: sorted by name, none of them reserved. -/
structure Canonical (ps : Dict String String) : Prop where
  sorted : ps.entries.Pairwise fun a b => a.1 < b.1
  free : ∀ p ∈ ps.entries, isParam p = true

mutual

/-- A tree that has an element: no composite is empty, leaves have their names and references. -/
def BTNode.WellFormed : BTNode → Prop
  | .control _ children _ => children ≠ [] ∧ AllWellFormed children
  | .decorator _ child _ => child.WellFormed
  | .action _ ref nodeId ps => ref ≠ "" ∧ nodeId ≠ "" ∧ Canonical ps
  | .condition _ nodeId ps => nodeId ≠ "" ∧ Canonical ps

/-- Every node of the list is well formed. -/
def AllWellFormed : List BTNode → Prop
  | [] => True
  | node :: nodes => node.WellFormed ∧ AllWellFormed nodes

end

theorem sortedParams_pairwise (attrib : Dict String String) :
    (attrib.sortedEntries.filter isParam).Pairwise fun a b => a.1 < b.1 :=
  (sortOn_pairwise_lt attrib.keys_nodup).filter isParam

theorem entries_params (attrib : Dict String String) :
    (params attrib).entries = attrib.sortedEntries.filter isParam :=
  Dict.entries_ofList
    (List.pairwise_map.mpr ((sortedParams_pairwise attrib).imp fun hab => ne_of_lt hab))

theorem params_canonical (attrib : Dict String String) : Canonical (params attrib) := by
  refine ⟨?_, ?_⟩
  · rw [entries_params]
    exact sortedParams_pairwise attrib
  · intro p hp
    rw [entries_params] at hp
    exact (List.mem_filter.mp hp).2

theorem require_eq_ok {tag attr value : String} {attrib : Dict String String} :
    require tag attrib attr = .ok value ↔ attrib.get? attr = some value ∧ value ≠ "" := by
  unfold require
  cases attrib.get? attr with
  | none => simp
  | some v =>
    by_cases hv : v = ""
    · subst hv
      simp only [if_pos, reduceCtorEq, Option.some.injEq, false_iff, not_and, not_not]
      exact fun h => h.symm
    · simp only [if_neg hv, Except.ok.injEq, Option.some.injEq]
      constructor
      · rintro rfl
        exact ⟨rfl, hv⟩
      · exact fun h => h.1

theorem parseAction_eq_ok {attrib : Dict String String} {node : BTNode} :
    parseAction attrib = .ok node ↔ ∃ nodeId kind invoke ref,
      (attrib.get? "ID" = some nodeId ∧ nodeId ≠ "") ∧
      (attrib.get? "kind" = some kind ∧ kind ≠ "") ∧
      InvokeKind.ofValue kind = some invoke ∧
      (attrib.get? (refAttr invoke) = some ref ∧ ref ≠ "") ∧
      node = .action invoke ref nodeId (params attrib) := by
  unfold parseAction
  simp only [bind_eq_ok, require_eq_ok]
  constructor
  · rintro ⟨nodeId, hid, kind, hkind, h⟩
    cases hk : InvokeKind.ofValue kind with
    | none => rw [hk] at h; cases h
    | some invoke =>
      rw [hk] at h
      obtain ⟨ref, href, h⟩ := bind_eq_ok.1 h
      cases h
      exact ⟨nodeId, kind, invoke, ref, hid, hkind, hk, require_eq_ok.1 href, rfl⟩
  · rintro ⟨nodeId, kind, invoke, ref, hid, hkind, hk, href, rfl⟩
    refine ⟨nodeId, hid, kind, hkind, ?_⟩
    rw [hk]
    exact bind_eq_ok.2 ⟨ref, require_eq_ok.2 href, rfl⟩

theorem parseCondition_eq_ok {attrib : Dict String String} {node : BTNode} :
    parseCondition attrib = .ok node ↔ ∃ nodeId kind check,
      (attrib.get? "ID" = some nodeId ∧ nodeId ≠ "") ∧
      (attrib.get? "kind" = some kind ∧ kind ≠ "") ∧
      ConditionKind.ofValue kind = some check ∧
      node = .condition check nodeId (params attrib) := by
  unfold parseCondition
  simp only [bind_eq_ok, require_eq_ok]
  constructor
  · rintro ⟨nodeId, hid, kind, hkind, h⟩
    cases hk : ConditionKind.ofValue kind with
    | none => rw [hk] at h; cases h
    | some check =>
      rw [hk] at h
      cases h
      exact ⟨nodeId, kind, check, hid, hkind, hk, rfl⟩
  · rintro ⟨nodeId, kind, check, hid, hkind, hk, rfl⟩
    refine ⟨nodeId, hid, kind, hkind, ?_⟩
    rw [hk]
    rfl

/-- The four ways an element is read. -/
theorem parseNode_cases {tag : String} {attrib : Dict String String} {children : List Element}
    {node : BTNode} (h : parseNode (.mk tag attrib children) = .ok node) :
    (∃ kind nodes, controlTags.lookup tag = some kind ∧ parseNodes children = .ok nodes ∧
      nodes ≠ [] ∧ node = .control kind nodes (attrib.get? "ID")) ∨
    (∃ kind kid child, controlTags.lookup tag = none ∧ decoratorTags.lookup tag = some kind ∧
      children = [kid] ∧ parseNode kid = .ok child ∧
      node = .decorator kind child (attrib.get? "ID")) ∨
    (tag = "Action" ∧ parseAction attrib = .ok node) ∨
    (tag = "Condition" ∧ parseCondition attrib = .ok node) := by
  rw [parseNode] at h
  cases hc : controlTags.lookup tag with
  | some kind =>
    rw [hc] at h
    obtain ⟨nodes, hn, h⟩ := bind_eq_ok.1 h
    cases nodes with
    | nil => cases h
    | cons n ns =>
      cases h
      exact .inl ⟨kind, n :: ns, rfl, hn, List.cons_ne_nil n ns, rfl⟩
  | none =>
    rw [hc] at h
    cases hd : decoratorTags.lookup tag with
    | some kind =>
      rw [hd] at h
      match children with
      | [kid] =>
        obtain ⟨child, hk, h⟩ := bind_eq_ok.1 h
        cases h
        exact .inr (.inl ⟨kind, kid, child, rfl, rfl, rfl, hk, rfl⟩)
      | [] => cases h
      | _ :: _ :: _ => cases h
    | none =>
      rw [hd] at h
      simp only at h
      split_ifs at h with ha hcond
      · exact .inr (.inr (.inl ⟨ha, h⟩))
      · exact .inr (.inr (.inr ⟨hcond, h⟩))

theorem parseNodes_cons_eq_ok {el : Element} {els : List Element} {nodes : List BTNode} :
    parseNodes (el :: els) = .ok nodes ↔ ∃ node rest, parseNode el = .ok node ∧
      parseNodes els = .ok rest ∧ nodes = node :: rest := by
  rw [parseNodes]
  simp only [bind_eq_ok]
  constructor
  · rintro ⟨node, hn, rest, hr, h⟩
    cases h
    exact ⟨node, rest, hn, hr, rfl⟩
  · rintro ⟨node, rest, hn, hr, rfl⟩
    exact ⟨node, hn, rest, hr, rfl⟩

mutual

/-- What is read is well formed. -/
theorem parseNode_wellFormed (el : Element) (node : BTNode) (h : parseNode el = .ok node) :
    node.WellFormed := by
  match el with
  | .mk tag attrib children =>
    rcases parseNode_cases h with ⟨kind, nodes, -, hn, hne, rfl⟩ |
      ⟨kind, kid, child, -, -, rfl, hk, rfl⟩ | ⟨-, ha⟩ | ⟨-, hc⟩
    · rw [BTNode.WellFormed]
      exact ⟨hne, parseNodes_wellFormed children nodes hn⟩
    · rw [BTNode.WellFormed]
      exact parseNode_wellFormed kid child hk
    · obtain ⟨nodeId, kind, invoke, ref, hid, -, -, href, rfl⟩ := parseAction_eq_ok.1 ha
      rw [BTNode.WellFormed]
      exact ⟨href.2, hid.2, params_canonical attrib⟩
    · obtain ⟨nodeId, kind, check, hid, -, -, rfl⟩ := parseCondition_eq_ok.1 hc
      rw [BTNode.WellFormed]
      exact ⟨hid.2, params_canonical attrib⟩

theorem parseNodes_wellFormed (els : List Element) (nodes : List BTNode)
    (h : parseNodes els = .ok nodes) : AllWellFormed nodes := by
  match els with
  | [] =>
    rw [parseNodes] at h
    cases h
    rw [AllWellFormed]
    trivial
  | el :: els =>
    obtain ⟨node, rest, hn, hr, rfl⟩ := parseNodes_cons_eq_ok.1 h
    rw [AllWellFormed]
    exact ⟨parseNode_wellFormed el node hn, parseNodes_wellFormed els rest hr⟩

end

/-! ## A well-formed tree is read back -/

/-- A name as it is read back: an empty one is not rendered. -/
def keptId (nodeId : Option String) : Option String := nodeId.filter fun name => name ≠ ""

mutual

/-- The tree with the empty `ID`s of its composites and decorators left out. -/
def BTNode.dropEmptyIds : BTNode → BTNode
  | .control kind children nodeId => .control kind (dropAllEmptyIds children) (keptId nodeId)
  | .decorator kind child nodeId => .decorator kind child.dropEmptyIds (keptId nodeId)
  | .action invoke ref nodeId ps => .action invoke ref nodeId ps
  | .condition check nodeId ps => .condition check nodeId ps

/-- The list with the empty `ID`s left out. -/
def dropAllEmptyIds : List BTNode → List BTNode
  | [] => []
  | node :: nodes => node.dropEmptyIds :: dropAllEmptyIds nodes

end

theorem get?_idAttr (nodeId : Option String) : (idAttr nodeId).get? "ID" = keptId nodeId := by
  cases nodeId with
  | none => rfl
  | some name =>
    by_cases hn : name = ""
    · subst hn
      rfl
    · rw [idAttr, keptId, if_neg hn, Option.filter_some, if_pos (by simpa using hn)]
      rfl

theorem controlTags_controlOut (kind : ControlKind) :
    controlTags.lookup (controlOut kind) = some kind := by cases kind <;> rfl

theorem controlTags_decoratorOut (kind : DecoratorKind) :
    controlTags.lookup (decoratorOut kind) = none := by cases kind <;> rfl

theorem decoratorTags_decoratorOut (kind : DecoratorKind) :
    decoratorTags.lookup (decoratorOut kind) = some kind := by cases kind <;> rfl

theorem InvokeKind.ofValue_value (invoke : InvokeKind) :
    InvokeKind.ofValue invoke.value = some invoke := by cases invoke <;> rfl

theorem ConditionKind.ofValue_value (check : ConditionKind) :
    ConditionKind.ofValue check.value = some check := by cases check; rfl

section Attributes

variable {base : List (String × String)} {ps : Dict String String}

/-- The attributes of a leaf: the reserved ones, and the parameters after them. -/
theorem entries_leafAttrs (hb : (base.map Prod.fst).Nodup)
    (hbase : ∀ p ∈ base, p.1 ∈ reservedAttrs) (hps : Canonical ps) :
    ((Dict.ofList base).setAll ps.entries).entries = base ++ ps.entries := by
  have hkeys : (Dict.ofList base).keys = base.map Prod.fst := by
    rw [Dict.keys, Dict.entries_ofList hb]
  rw [Dict.entries_setAll, Dict.entries_ofList hb]
  rw [hkeys]
  refine hb.append ps.keys_nodup ?_
  intro key hkb hkp
  obtain ⟨p, hp, rfl⟩ := List.mem_map.mp hkb
  obtain ⟨q, hq, hqp⟩ := List.mem_map.mp hkp
  have hfree := of_decide_eq_true (hps.free q hq)
  rw [hqp] at hfree
  exact hfree (hbase p hp)

/-- The parameters are read back. -/
theorem params_leafAttrs (hb : (base.map Prod.fst).Nodup)
    (hbase : ∀ p ∈ base, p.1 ∈ reservedAttrs) (hps : Canonical ps) :
    params ((Dict.ofList base).setAll ps.entries) = ps := by
  have hentries := entries_leafAttrs hb hbase hps
  have hnone : base.filter isParam = [] := by
    rw [List.filter_eq_nil_iff]
    intro p hp
    simpa [isParam] using hbase p hp
  have heq : (params ((Dict.ofList base).setAll ps.entries)).entries = ps.entries := by
    rw [entries_params, Dict.sortedEntries, sortOn_filter (Dict.keys_nodup _), hentries,
      List.filter_append, hnone, List.nil_append, List.filter_eq_self.mpr hps.free]
    exact sortOn_of_pairwise_lt hps.sorted
  cases ps
  cases h : params _
  rw [h] at heq
  cases heq
  rfl

/-- A reserved attribute is read back. -/
theorem get?_leafAttrs {attr value : String} (hb : (base.map Prod.fst).Nodup)
    (hbase : ∀ p ∈ base, p.1 ∈ reservedAttrs) (hps : Canonical ps) (h : (attr, value) ∈ base) :
    ((Dict.ofList base).setAll ps.entries).get? attr = some value := by
  rw [Dict.get?_eq_some_iff, entries_leafAttrs hb hbase hps]
  exact List.mem_append_left _ h

end Attributes

theorem parseAction_toElement {invoke : InvokeKind} {ref nodeId : String}
    {ps : Dict String String} (href : ref ≠ "") (hid : nodeId ≠ "") (hps : Canonical ps) :
    parseAction ((Dict.ofList [("ID", nodeId), ("kind", invoke.value),
      (refAttr invoke, ref)]).setAll ps.entries) = .ok (.action invoke ref nodeId ps) := by
  have hb : ([("ID", nodeId), ("kind", invoke.value), (refAttr invoke, ref)].map
      Prod.fst).Nodup := by cases invoke <;> simp [refAttr]
  have hbase : ∀ p ∈ [("ID", nodeId), ("kind", invoke.value), (refAttr invoke, ref)],
      p.1 ∈ reservedAttrs := by
    intro p hp
    have hkey : p.1 ∈ ["ID", "kind", refAttr invoke] := by simpa using List.mem_map_of_mem hp
    generalize p.1 = key at hkey
    revert hkey
    cases invoke <;> simp [refAttr, reservedAttrs] <;> tauto
  refine parseAction_eq_ok.2 ⟨nodeId, invoke.value, invoke, ref,
    ⟨get?_leafAttrs hb hbase hps (by simp), hid⟩,
    ⟨get?_leafAttrs hb hbase hps (by simp), by cases invoke <;> decide⟩,
    InvokeKind.ofValue_value invoke, ⟨get?_leafAttrs hb hbase hps (by simp), href⟩, ?_⟩
  rw [params_leafAttrs hb hbase hps]

theorem parseCondition_toElement {check : ConditionKind} {nodeId : String}
    {ps : Dict String String} (hid : nodeId ≠ "") (hps : Canonical ps) :
    parseCondition ((Dict.ofList [("ID", nodeId), ("kind", check.value)]).setAll ps.entries) =
      .ok (.condition check nodeId ps) := by
  have hb : ([("ID", nodeId), ("kind", check.value)].map Prod.fst).Nodup := by simp
  have hbase : ∀ p ∈ [("ID", nodeId), ("kind", check.value)], p.1 ∈ reservedAttrs := by
    intro p hp
    have hkey : p.1 ∈ ["ID", "kind"] := by simpa using List.mem_map_of_mem hp
    simp only [reservedAttrs, List.mem_cons] at hkey ⊢
    tauto
  refine parseCondition_eq_ok.2 ⟨nodeId, check.value, check,
    ⟨get?_leafAttrs hb hbase hps (by simp), hid⟩,
    ⟨get?_leafAttrs hb hbase hps (by simp), by cases check; decide⟩,
    ConditionKind.ofValue_value check, ?_⟩
  rw [params_leafAttrs hb hbase hps]

theorem dropAllEmptyIds_eq_nil {nodes : List BTNode} :
    dropAllEmptyIds nodes = [] ↔ nodes = [] := by
  cases nodes with
  | nil => rw [dropAllEmptyIds]
  | cons node nodes =>
    rw [dropAllEmptyIds]
    exact ⟨fun h => absurd h (List.cons_ne_nil _ _), fun h => absurd h (List.cons_ne_nil _ _)⟩

mutual

/-- A well-formed tree is read back, but for the empty `ID`s of its composites and decorators. -/
theorem parseNode_toElement (node : BTNode) (h : node.WellFormed) :
    parseNode (toElement node) = .ok node.dropEmptyIds := by
  match node with
  | .control kind children nodeId =>
    rw [BTNode.WellFormed] at h
    rw [toElement, BTNode.dropEmptyIds, parseNode, controlTags_controlOut]
    refine bind_eq_ok.2 ⟨dropAllEmptyIds children, parseNodes_toElements children h.2, ?_⟩
    have hne : (dropAllEmptyIds children).isEmpty = false := by
      rw [List.isEmpty_eq_false_iff, Ne, dropAllEmptyIds_eq_nil]
      exact h.1
    rw [hne, get?_idAttr]
    rfl
  | .decorator kind child nodeId =>
    rw [BTNode.WellFormed] at h
    rw [toElement, BTNode.dropEmptyIds, parseNode, controlTags_decoratorOut,
      decoratorTags_decoratorOut]
    refine bind_eq_ok.2 ⟨child.dropEmptyIds, parseNode_toElement child h, ?_⟩
    rw [get?_idAttr]
    rfl
  | .action invoke ref nodeId ps =>
    rw [BTNode.WellFormed] at h
    rw [toElement, BTNode.dropEmptyIds, parseNode]
    exact parseAction_toElement h.1 h.2.1 h.2.2
  | .condition check nodeId ps =>
    rw [BTNode.WellFormed] at h
    rw [toElement, BTNode.dropEmptyIds, parseNode]
    exact parseCondition_toElement h.1 h.2

theorem parseNodes_toElements (nodes : List BTNode) (h : AllWellFormed nodes) :
    parseNodes (toElements nodes) = .ok (dropAllEmptyIds nodes) := by
  match nodes with
  | [] => rw [toElements, parseNodes, dropAllEmptyIds]
  | node :: nodes =>
    rw [AllWellFormed] at h
    rw [toElements, dropAllEmptyIds]
    exact parseNodes_cons_eq_ok.2 ⟨node.dropEmptyIds, dropAllEmptyIds nodes,
      parseNode_toElement node h.1, parseNodes_toElements nodes h.2, rfl⟩

end

/-- A tree as it is read back. -/
def BehaviorTree.dropEmptyIds (tree : BehaviorTree) : BehaviorTree :=
  { tree with root := tree.root.dropEmptyIds }

theorem parseTree_eq_ok {fmt : String} {el : Element} {tree : BehaviorTree} :
    parseTree fmt el = .ok tree ↔ ∃ treeId child root, el.get "ID" = some treeId ∧ treeId ≠ "" ∧
      el.children = [child] ∧ parseNode child = .ok root ∧
      tree = { treeId, root, formatVersion := fmt } := by
  unfold parseTree
  constructor
  · intro h
    split at h
    · cases h
    · rename_i treeId hget
      split_ifs at h with hid
      split at h
      · rename_i child hchildren
        obtain ⟨root, hroot, h⟩ := bind_eq_ok.1 h
        cases h
        exact ⟨treeId, child, root, hget, hid, hchildren, hroot, rfl⟩
      · cases h
  · rintro ⟨treeId, child, root, hget, hid, hchildren, hroot, rfl⟩
    rw [hget, hchildren]
    simp only [if_neg hid]
    exact bind_eq_ok.2 ⟨root, hroot, rfl⟩

/-- The `<BehaviorTree>` that a rendered document executes is its only one. -/
theorem executedTree_toXml (tree : BehaviorTree) :
    executedTree (.mk "root"
      (.ofList [("BTCPP_format", tree.formatVersion), ("main_tree_to_execute", tree.treeId)])
      [.mk "BehaviorTree" (.ofList [("ID", tree.treeId)]) [toElement tree.root]]) =
    .ok (tree.formatVersion,
      .mk "BehaviorTree" (.ofList [("ID", tree.treeId)]) [toElement tree.root]) := by
  have hid : (Dict.ofList [("ID", tree.treeId)]).get? "ID" = some tree.treeId := rfl
  have hfmt : (Dict.ofList [("BTCPP_format", tree.formatVersion),
      ("main_tree_to_execute", tree.treeId)]).get? "BTCPP_format" = some tree.formatVersion := rfl
  have hmain : (Dict.ofList [("BTCPP_format", tree.formatVersion),
      ("main_tree_to_execute", tree.treeId)]).get? "main_tree_to_execute" = some tree.treeId := rfl
  simp only [executedTree, Element.tag_mk, Element.get_mk, Element.children_mk, hfmt, hmain,
    selectTree, List.filter_cons, List.filter_nil, List.find?_cons, hid, if_true, decide_true,
    List.isEmpty_cons, Bool.false_eq_true, if_false, Option.getD_some]
  rfl

/-- A tree with a name and a well-formed root is read back. -/
theorem parse_toXml {δ : Type} (lib : ElementTree δ) {tree : BehaviorTree}
    (hid : tree.treeId ≠ "") (h : tree.root.WellFormed) :
    parseBehaviorTree lib (toXml lib tree) = .ok tree.dropEmptyIds := by
  rw [parseBehaviorTree, toXml, lib.fromstring_tostring]
  refine bind_eq_ok.2 ⟨_, executedTree_toXml tree, ?_⟩
  exact parseTree_eq_ok.2 ⟨tree.treeId, toElement tree.root, tree.root.dropEmptyIds, rfl, hid,
    rfl, parseNode_toElement tree.root h, rfl⟩

/-! ## Which documents come back -/

mutual

/-- No composite or decorator of the element carries an empty `ID`. -/
def Element.namesKept : Element → Bool
  | .mk tag attrib children =>
    if (controlTags.lookup tag).isSome || (decoratorTags.lookup tag).isSome then
      attrib.get? "ID" ≠ some "" && allNamesKept children
    else true

/-- No element of the list does. -/
def allNamesKept : List Element → Bool
  | [] => true
  | el :: els => el.namesKept && allNamesKept els

end

theorem keptId_eq_self {nodeId : Option String} : keptId nodeId = nodeId ↔ nodeId ≠ some "" := by
  cases nodeId with
  | none => simp [keptId]
  | some name => by_cases hn : name = "" <;> simp [keptId, hn]

mutual

/-- A node comes back exactly if none of the composites and decorators it was read from carries an
empty `ID`. -/
theorem dropEmptyIds_eq_self (el : Element) (node : BTNode) (h : parseNode el = .ok node) :
    node.dropEmptyIds = node ↔ el.namesKept = true := by
  match el with
  | .mk tag attrib children =>
    rw [Element.namesKept]
    rcases parseNode_cases h with ⟨kind, nodes, htag, hn, -, rfl⟩ |
      ⟨kind, kid, child, -, htag, rfl, hk, rfl⟩ | ⟨rfl, ha⟩ | ⟨rfl, hc⟩
    · rw [BTNode.dropEmptyIds, htag, if_pos (by simp), BTNode.control.injEq, keptId_eq_self,
        dropAllEmptyIds_eq_self children nodes hn]
      simp [and_comm]
    · rw [BTNode.dropEmptyIds, htag, if_pos (by simp), BTNode.decorator.injEq, keptId_eq_self,
        dropEmptyIds_eq_self kid child hk, allNamesKept, allNamesKept]
      simp [and_comm]
    · obtain ⟨nodeId, kind, invoke, ref, -, -, -, -, rfl⟩ := parseAction_eq_ok.1 ha
      rw [BTNode.dropEmptyIds, if_neg (by decide)]
      simp
    · obtain ⟨nodeId, kind, check, -, -, -, rfl⟩ := parseCondition_eq_ok.1 hc
      rw [BTNode.dropEmptyIds, if_neg (by decide)]
      simp

theorem dropAllEmptyIds_eq_self (els : List Element) (nodes : List BTNode)
    (h : parseNodes els = .ok nodes) : dropAllEmptyIds nodes = nodes ↔ allNamesKept els = true := by
  match els with
  | [] =>
    rw [parseNodes] at h
    cases h
    rw [dropAllEmptyIds, allNamesKept]
    simp
  | el :: els =>
    obtain ⟨node, rest, hn, hr, rfl⟩ := parseNodes_cons_eq_ok.1 h
    rw [dropAllEmptyIds, allNamesKept, List.cons.injEq, dropEmptyIds_eq_self el node hn,
      dropAllEmptyIds_eq_self els rest hr, Bool.and_eq_true]

end

/-- No composite or decorator of the tree that a document executes carries an empty `ID`. -/
def NamesKept {δ : Type} (lib : ElementTree δ) (source : δ) : Prop :=
  ∀ root fmt tree, lib.fromstring source = some root → executedTree root = .ok (fmt, tree) →
    allNamesKept tree.children = true

/-- **Main theorem.** The rendering of an accepted document is accepted, and it is read back to the
same tree exactly if no composite or decorator of that tree carries an empty `ID` attribute. -/
theorem parse_toXml_iff {δ : Type} (lib : ElementTree δ) (source : δ) (tree : BehaviorTree)
    (h : parseBehaviorTree lib source = .ok tree) :
    (∃ tree', parseBehaviorTree lib (toXml lib tree) = .ok tree') ∧
      (parseBehaviorTree lib (toXml lib tree) = .ok tree ↔ NamesKept lib source) := by
  unfold parseBehaviorTree at h
  cases hs : lib.fromstring source with
  | none => rw [hs] at h; cases h
  | some root =>
    rw [hs] at h
    obtain ⟨⟨fmt, el⟩, hexec, hparse⟩ := bind_eq_ok.1 h
    obtain ⟨treeId, child, node, -, hid, hchildren, hnode, rfl⟩ := parseTree_eq_ok.1 hparse
    have hround : parseBehaviorTree lib (toXml lib { treeId, root := node, formatVersion := fmt }) =
        .ok (BehaviorTree.dropEmptyIds { treeId, root := node, formatVersion := fmt }) :=
      parse_toXml lib hid (parseNode_wellFormed child node hnode)
    refine ⟨⟨_, hround⟩, ?_⟩
    have hkept : NamesKept lib source ↔ child.namesKept = true := by
      constructor
      · intro hall
        have := hall root fmt el hs hexec
        rw [hchildren, allNamesKept, allNamesKept, Bool.and_true] at this
        exact this
      · intro hchild root' fmt' el' hs' hexec'
        rw [hs] at hs'
        cases hs'
        rw [hexec] at hexec'
        cases hexec'
        rw [hchildren, allNamesKept, allNamesKept, Bool.and_true]
        exact hchild
    rw [hround, hkept, ← dropEmptyIds_eq_self child node hnode, Except.ok.injEq,
      BehaviorTree.dropEmptyIds, BehaviorTree.mk.injEq]
    simp

/-! ## An empty name -/

/-- The library on documents that are their own elements. -/
def elementDocuments : ElementTree Element where
  fromstring := some
  tostring el := el
  fromstring_tostring _ := rfl

/-- `<BehaviorTree ID="T"><Sequence …><Condition ID="c" kind="fresh_upstream"/></Sequence>`. -/
def sequenceDocument (attrs : Dict String String) : Element :=
  .mk "BehaviorTree" (.ofList [("ID", "T")]) [.mk "Sequence" attrs
    [.mk "Condition" (.ofList [("ID", "c"), ("kind", "fresh_upstream")]) []]]

/-- A sequence with a name comes back as it was. -/
theorem namedSequence_roundTrips : ∃ tree,
    parseBehaviorTree elementDocuments (sequenceDocument (.ofList [("ID", "Main")])) = .ok tree ∧
      parseBehaviorTree elementDocuments (toXml elementDocuments tree) = .ok tree := by
  refine ⟨_, rfl, ?_⟩
  rw [(parse_toXml_iff elementDocuments (sequenceDocument (.ofList [("ID", "Main")])) _ rfl).2]
  intro root fmt tree hroot hexec
  cases hroot
  cases hexec
  rfl

/-- **Counterexample.** A sequence with an empty `ID` is read with the name `""`, and its rendering
without a name. -/
theorem emptyId_not_roundTrip :
    ¬ ∀ (source : Element) (tree : BehaviorTree),
      parseBehaviorTree elementDocuments source = .ok tree →
        parseBehaviorTree elementDocuments (toXml elementDocuments tree) = .ok tree := by
  intro h
  have hround := h (sequenceDocument (.ofList [("ID", "")])) _ rfl
  cases hround

end AstroMine.Mind
