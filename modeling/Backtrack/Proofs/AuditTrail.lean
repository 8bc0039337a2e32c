import Backtrack.Proofs.Literals
import Backtrack.Proofs.Outline
import Backtrack.Script.Primitive

/-! The audit trail of a tree has one line for each recorded failure. The literal form of a failure that is
data stays on one line, so the lines of the trail are those that were joined; and with an indent of spaces
the depth and the literal form can be read off each line, which gives back the outline and so the tree. -/

namespace Backtrack

namespace Text

theorem linesFrom_cons_of_plain {c : Char} (hPlain : isLineBoundary c = false)
    (line rest : List Char) : linesFrom line (c :: rest) = linesFrom (c :: line) rest := by
  have hReturns : c ≠ '\r' := by
    rintro rfl
    simp [isLineBoundary] at hPlain
  rw [linesFrom.eq_def]
  split
  · contradiction
  · rename_i hSame
    exact absurd (List.cons.inj hSame).1 hReturns
  · rename_i hSame
    cases hSame
    simp [hPlain]

theorem linesFrom_append {text : List Char} (hUnbroken : Unbroken text) (line rest : List Char) :
    linesFrom line (text ++ rest) = linesFrom (text.reverse ++ line) rest := by
  induction text generalizing line with
  | nil => rfl
  | cons c text ih =>
      obtain ⟨hPlain, hUnbroken⟩ := unbroken_cons.mp hUnbroken
      rw [List.cons_append, linesFrom_cons_of_plain hPlain, ih hUnbroken, List.reverse_cons,
        List.append_assoc, List.singleton_append]

theorem lines_append_feed {line : String} (hOneLine : OneLine line) (rest : String) :
    lines (line ++ "\n" ++ rest) = line :: lines rest := by
  have hFeed (rest : List Char) :
      linesFrom line.toList.reverse ('\n' :: rest) = line.toList :: linesFrom [] rest := by
    simp [linesFrom, isLineBoundary]
  simp [lines, linesFrom_append hOneLine, hFeed]

theorem lines_of_oneLine {line : String} (hOneLine : OneLine line) (hNonempty : line ≠ "") :
    lines line = [line] := by
  have hEnded := linesFrom_append hOneLine [] []
  simp only [List.append_nil] at hEnded
  simp [lines, hEnded, linesFrom, hNonempty]

theorem lines_intercalate_append {before rest : List String}
    (hOneLine : ∀ line ∈ before, OneLine line) (hNonempty : rest ≠ []) :
    lines ("\n".intercalate (before ++ rest)) = before ++ lines ("\n".intercalate rest) := by
  induction before with
  | nil => rfl
  | cons line before ih =>
      obtain ⟨hFirst, hOthers⟩ := List.forall_mem_cons.mp hOneLine
      have hMore : before ++ rest ≠ [] := by simp [hNonempty]
      rw [List.cons_append, String.intercalate_cons_of_ne_nil hMore, lines_append_feed hFirst,
        ih hOthers, List.cons_append]

theorem lines_intercalate {joined : List String}
    (hShown : ∀ line ∈ joined, OneLine line ∧ line ≠ "") :
    lines ("\n".intercalate joined) = joined := by
  obtain rfl | ⟨before, last, rfl⟩ := joined.eq_nil_or_concat
  · rfl
  · obtain ⟨hOneLine, hNonempty⟩ := hShown last (by simp)
    rw [List.concat_eq_append] at *
    rw [lines_intercalate_append (fun line hAmong => (hShown line (by simp [hAmong])).1) (by simp),
      String.intercalate_singleton, lines_of_oneLine hOneLine hNonempty]

theorem oneLine_commas {parts : List String} (hOneLine : ∀ part ∈ parts, OneLine part) :
    OneLine (", ".intercalate parts) := by
  induction parts with
  | nil => decide
  | cons part parts ih =>
      obtain ⟨hFirst, hOthers⟩ := List.forall_mem_cons.mp hOneLine
      by_cases hLast : parts = []
      · simpa [hLast] using hFirst
      · rw [String.intercalate_cons_of_ne_nil hLast, oneLine_append, oneLine_append]
        exact ⟨⟨hFirst, by decide⟩, ih hOthers⟩

theorem oneLine_parenthesized {parts : List String} (hOneLine : ∀ part ∈ parts, OneLine part) :
    OneLine (parenthesized parts) := by
  unfold parenthesized
  split
  · decide
  · simp only [oneLine_append]
    exact ⟨⟨by decide, hOneLine _ (.head _)⟩, by decide⟩
  · simp only [oneLine_append]
    exact ⟨⟨by decide, oneLine_commas hOneLine⟩, by decide⟩

end Text

open Text

/-- The literal form of a mapping stays on one line if those of its keys and values do. -/
def MappingType.StaysOneLine (type : MappingType) : Prop :=
  ∀ parts : List (String × String), (∀ part ∈ parts, OneLine part.1 ∧ OneLine part.2) →
    OneLine (type.literal parts)

theorem Script.frozendict_staysOneLine : Script.frozendict.StaysOneLine := by
  intro parts hParts
  show OneLine (_ ++ _ ++ _)
  rw [oneLine_append, oneLine_append]
  refine ⟨⟨by decide, oneLine_commas (List.forall_mem_map.mpr fun part hPart => ?_)⟩, by decide⟩
  rw [oneLine_append, oneLine_append]
  exact ⟨⟨(hParts part hPart).1, by decide⟩, (hParts part hPart).2⟩

namespace Value

variable {κ : Type}

/-- Data: nothing, truth values, numbers and texts, and the collections, results and trees of these. -/
inductive IsData : Value κ → Prop where
  | null : IsData .null
  | bool (b : Bool) : IsData (.bool b)
  | int (n : Int) : IsData (.int n)
  | str (text : String) : IsData (.str text)
  | list {items : List (Value κ)} : (∀ item ∈ items, IsData item) → IsData (.list items)
  | tuple {items : List (Value κ)} : (∀ item ∈ items, IsData item) → IsData (.tuple items)
  | dict {type : MappingType} {entries : List (Value κ × Value κ)} : type.StaysOneLine →
      (∀ entry ∈ entries, IsData entry.1) → (∀ entry ∈ entries, IsData entry.2) →
      IsData (.dict type entries)
  | ok {value : Value κ} : IsData value → IsData (.ok value)
  | err {error : Value κ} : IsData error → IsData (.err error)
  | tree {value : Value κ} {children : List (Value κ)} : IsData value →
      (∀ child ∈ children, IsData child) → IsData (.tree value children)

theorem IsData.oneLine {value : Value κ} (hData : value.IsData) : OneLine value.repr := by
  induction hData with
  | null =>
      rw [repr_null]
      decide
  | bool b =>
      rw [repr_bool]
      cases b <;> decide
  | int n =>
      rw [repr_int]
      exact oneLine_number n
  | str text =>
      rw [repr_str]
      exact oneLine_quoted text
  | list _ ih =>
      rw [repr_list, oneLine_append, oneLine_append]
      exact ⟨⟨by decide, oneLine_commas (List.forall_mem_map.mpr ih)⟩, by decide⟩
  | tuple _ ih =>
      rw [repr_tuple]
      exact oneLine_parenthesized (List.forall_mem_map.mpr ih)
  | dict hStaysOneLine _ _ hKeyIh hValueIh =>
      rw [repr_dict]
      exact hStaysOneLine _ (List.forall_mem_map.mpr fun entry hAmong =>
        ⟨hKeyIh entry hAmong, hValueIh entry hAmong⟩)
  | ok _ ih =>
      rw [repr_ok, oneLine_append, oneLine_append]
      exact ⟨⟨by decide, ih⟩, by decide⟩
  | err _ ih =>
      rw [repr_err, oneLine_append, oneLine_append]
      exact ⟨⟨by decide, ih⟩, by decide⟩
  | tree _ _ ih hChildrenIh =>
      simp only [repr_tree, oneLine_append]
      have hListed := oneLine_parenthesized (List.forall_mem_map.mpr hChildrenIh)
      exact ⟨⟨⟨⟨by decide, ih⟩, by decide⟩, hListed⟩, by decide⟩

end Value

namespace ErrorTree

variable {α β : Type}

mutual
def map (f : α → β) : ErrorTree α → ErrorTree β
  | node value children => node (f value) (mapAll f children)

def mapAll (f : α → β) : List (ErrorTree α) → List (ErrorTree β)
  | [] => []
  | tree :: rest => map f tree :: mapAll f rest
end

theorem mapAll_eq_map (f : α → β) (trees : List (ErrorTree α)) :
    mapAll f trees = trees.map (map f) := by
  induction trees with
  | nil => rfl
  | cons tree rest ih => rw [mapAll, ih, List.map_cons]

theorem map_node (f : α → β) (value : α) (children : List (ErrorTree α)) :
    map f (node value children) = node (f value) (children.map (map f)) := by
  rw [map, mapAll_eq_map]

theorem walkFrom_map (f : α → β) (pending : List (Nat × ErrorTree α)) :
    walkFrom (pending.map fun entry => (entry.1, entry.2.map f)) =
      (walkFrom pending).map fun entry => (entry.1, entry.2.map f) := by
  induction pending using visitInduction with
  | done => simp
  | visit depth value children pending ih =>
      rw [List.map_append, List.map_map] at ih
      simp only [List.map_cons, map_node, walkFrom_cons, ← ih, List.map_map, Function.comp_def]

theorem walk_map (f : α → β) (tree : ErrorTree α) :
    (tree.map f).walk = tree.walk.map fun entry => (entry.1, entry.2.map f) :=
  walkFrom_map f [(0, tree)]

@[simp] theorem value_map (f : α → β) (tree : ErrorTree α) : (tree.map f).value = f tree.value := by
  cases tree with
  | node value children => rw [map_node, value_node, value_node]

theorem trailLine_map (text : α → String) (indent : String) (entry : Nat × ErrorTree α) :
    trailLine id indent (entry.1, entry.2.map text) = trailLine text indent entry := by
  obtain ⟨depth, value, children⟩ := entry
  simp [trailLine, marker, isLeaf, map_node]

/-- A trail depends on the texts of the failures only. -/
theorem render_map (text : α → String) (indent : String) (tree : ErrorTree α) :
    (tree.map text).render id indent = tree.render text indent := by
  simp only [render, walk_map, List.map_map, Function.comp_def, trailLine_map]

theorem oneLine_marker (tree : ErrorTree α) : OneLine tree.marker := by
  unfold marker
  split <;> decide

theorem oneLine_trailLine {text : α → String} {indent : String} {entry : Nat × ErrorTree α}
    (hIndents : OneLine indent) (hOneLine : OneLine (text entry.2.value)) :
    OneLine (trailLine text indent entry) := by
  have hLevel : OneLine (String.join (List.replicate entry.1 indent)) := by
    intro c hAmong
    rw [String.toList_join] at hAmong
    obtain ⟨part, hRepeated, hWithin⟩ := List.mem_flatMap.mp hAmong
    rw [List.eq_of_mem_replicate hRepeated] at hWithin
    exact hIndents c hWithin
  simp only [trailLine, oneLine_append]
  exact ⟨⟨⟨hLevel, oneLine_marker entry.2⟩, by decide⟩, hOneLine⟩

theorem trailLine_ne_empty (text : α → String) (indent : String) (entry : Nat × ErrorTree α) :
    trailLine text indent entry ≠ "" := by
  simp [trailLine]

theorem lines_render {text : α → String} {indent : String} {tree : ErrorTree α}
    (hIndents : OneLine indent) (hOneLine : ∀ value ∈ tree.values, OneLine (text value)) :
    lines (tree.render text indent) = tree.walk.map (trailLine text indent) := by
  refine lines_intercalate (List.forall_mem_map.mpr fun entry hAmong => ?_)
  have hRecorded : entry.2.value ∈ tree.values := List.mem_map_of_mem hAmong
  exact ⟨oneLine_trailLine hIndents (hOneLine _ hRecorded), trailLine_ne_empty text indent entry⟩

def spaces (width : Nat) : String :=
  String.ofList (List.replicate width ' ')

theorem oneLine_spaces (width : Nat) : OneLine (spaces width) := by
  intro c hAmong
  rw [spaces, String.toList_ofList] at hAmong
  rw [List.eq_of_mem_replicate hAmong]
  decide

/-- The depth and the literal form that a line of a trail shows. -/
def readTrailLine (width : Nat) (line : String) : Nat × String :=
  ((line.toList.takeWhile (· == ' ')).length / width,
    String.ofList ((line.toList.dropWhile (· == ' ')).drop 2))

theorem readTrailLine_trailLine {width : Nat} (hIndents : 0 < width) (text : α → String)
    (entry : Nat × ErrorTree α) :
    readTrailLine width (trailLine text (spaces width) entry) = (entry.1, text entry.2.value) := by
  obtain ⟨mark, hMarks, hSpelled⟩ : ∃ mark, mark ≠ ' ' ∧ entry.2.marker.toList = [mark] := by
    unfold marker
    split
    · exact ⟨'-', by decide, rfl⟩
    · exact ⟨'+', by decide, rfl⟩
  have hLevel : (String.join (List.replicate entry.1 (spaces width))).toList =
      List.replicate (entry.1 * width) ' ' := by
    rw [String.toList_join, List.flatMap_replicate]
    simp [spaces]
  have hShown : (trailLine text (spaces width) entry).toList =
      List.replicate (entry.1 * width) ' ' ++ mark :: ' ' :: (text entry.2.value).toList := by
    simp [trailLine, hLevel, hSpelled]
  simp [readTrailLine, hShown, hMarks, Nat.mul_div_cancel _ hIndents]

theorem decode_render {width : Nat} (hIndents : 0 < width) {text : α → String} {tree : ErrorTree α}
    (hOneLine : ∀ value ∈ tree.values, OneLine (text value)) :
    decode ((lines (tree.render text (spaces width))).map (readTrailLine width)) =
      some (tree.map text) := by
  rw [lines_render (oneLine_spaces width) hOneLine, List.map_map, decode_eq_some_iff, outline,
    walk_map, List.map_map]
  refine List.map_congr_left fun entry _ => ?_
  simp only [Function.comp_apply, value_map, readTrailLine_trailLine hIndents]

theorem render_inj {width : Nat} (hIndents : 0 < width) {text : α → String}
    {first second : ErrorTree α} (hOneLine : ∀ value ∈ first.values, OneLine (text value))
    (hOtherOneLine : ∀ value ∈ second.values, OneLine (text value)) :
    first.render text (spaces width) = second.render text (spaces width) ↔
      first.map text = second.map text := by
  constructor
  · intro hSame
    have hRead := decode_render hIndents hOneLine
    rw [hSame, decode_render hIndents hOtherOneLine] at hRead
    exact (Option.some.inj hRead).symm
  · intro hSame
    rw [← render_map, hSame, render_map]

/-- The lines of an audit trail: for each node of the walk the indent of its levels, a marker, which is
`-` for leaves only, and the literal form of the failure. -/
def trail {κ : Type} (indent : String) (tree : ErrorTree (Value κ)) : List String :=
  tree.walk.map fun entry =>
    String.join (List.replicate entry.1 indent) ++
      (if entry.2.children.isEmpty then "-" else "+") ++ " " ++ entry.2.value.repr

end ErrorTree

section Reports

variable {κ : Type} {indent : String} {tree : ErrorTree (Value κ)}

theorem lines_render_of_data (hIndents : OneLine indent)
    (hData : ∀ value ∈ tree.values, value.IsData) :
    lines (tree.render Value.repr indent) = tree.trail indent :=
  ErrorTree.lines_render hIndents fun value hAmong => (hData value hAmong).oneLine

theorem statusLines_of_tree (indent : String) (tree : ErrorTree (Value κ)) :
    statusLines indent (.err (.ofTree tree)) =
      .ok (["Status: error", "Failures recorded: " ++ toString tree.size, "Error tree:"] ++
        (lines (tree.render Value.repr indent)).map (indent ++ ·)) := by
  have hFound : (Value.ofTree tree).treeFor "size" (Value.lacks "children") = .ok tree := by
    have hRead := Value.toTree_ofTree tree
    obtain ⟨value, children⟩ := tree
    rw [Value.ofTree] at hRead ⊢
    simp only [Value.treeFor, hRead, Except.mapError]
  simp only [statusLines, Value.error?, hFound, bind, Except.bind]

theorem lines_report {status : List String} {state : Value κ} {flag : String}
    (hOneLine : ∀ line ∈ status, OneLine line) :
    lines (report status state flag) =
      [rule, "Alternative RunResult", rule] ++ status ++
        lines ("State: " ++ state.repr ++ "\n" ++ ("Aborted: " ++ flag)) := by
  have hHeaded : ∀ line ∈ [rule, "Alternative RunResult", rule] ++ status, OneLine line := by
    refine List.forall_mem_append.mpr ⟨?_, hOneLine⟩
    decide
  rw [report, lines_intercalate_append hHeaded (by simp), String.intercalate_cons_cons,
    String.intercalate_singleton]

theorem display_of_tree {state aborted : Value κ} {flag : String}
    (hShown : aborted.text = .ok flag) :
    (Value.outcome (.err (.ofTree tree)) state aborted).display indent =
      .ok (report (["Status: error", "Failures recorded: " ++ toString tree.size, "Error tree:"] ++
        (lines (tree.render Value.repr indent)).map (indent ++ ·)) state flag) := by
  simp only [Value.display, statusLines_of_tree, hShown, bind, Except.bind]

theorem oneLine_status (hIndents : OneLine indent) (hData : ∀ value ∈ tree.values, value.IsData) :
    ∀ line ∈ ["Status: error", "Failures recorded: " ++ toString tree.size, "Error tree:"] ++
      (tree.trail indent).map (indent ++ ·), OneLine line := by
  refine List.forall_mem_append.mpr ⟨?_, List.forall_mem_map.mpr fun line hAmong => ?_⟩
  · have hCounted : OneLine ("Failures recorded: " ++ toString tree.size) :=
      oneLine_append.mpr ⟨by decide, oneLine_count tree.size⟩
    simp only [List.forall_mem_cons]
    exact ⟨by decide, hCounted, by decide, by simp⟩
  · obtain ⟨entry, hVisited, rfl⟩ := List.mem_map.mp hAmong
    have hRecorded : entry.2.value ∈ tree.values := List.mem_map_of_mem hVisited
    exact oneLine_append.mpr
      ⟨hIndents, ErrorTree.oneLine_trailLine hIndents (hData _ hRecorded).oneLine⟩

theorem lines_closing {state : Value κ} {flag : String} (hData : state.IsData)
    (hFlagged : OneLine flag) :
    lines ("State: " ++ state.repr ++ "\n" ++ ("Aborted: " ++ flag)) =
      ["State: " ++ state.repr, "Aborted: " ++ flag] := by
  have hFirst : OneLine ("State: " ++ state.repr) := oneLine_append.mpr ⟨by decide, hData.oneLine⟩
  have hLast : OneLine ("Aborted: " ++ flag) := oneLine_append.mpr ⟨by decide, hFlagged⟩
  rw [lines_append_feed hFirst, lines_of_oneLine hLast (by simp)]

theorem lines_message (hData : ∀ value ∈ tree.values, value.IsData) :
    lines (Fault.failed tree).message =
      ("Alternative failed with " ++ toString tree.size ++ " recorded failure(s):") ::
        tree.trail "  " := by
  have hHeading : OneLine
      ("Alternative failed with " ++ toString tree.size ++ " recorded failure(s):") :=
    oneLine_append.mpr ⟨oneLine_append.mpr ⟨by decide, oneLine_count tree.size⟩, by decide⟩
  have hTold : (Fault.failed tree).message =
      "Alternative failed with " ++ toString tree.size ++ (" recorded failure(s):" ++ "\n") ++
        tree.render Value.repr "  " := rfl
  rw [hTold, ← String.append_assoc, lines_append_feed hHeading,
    lines_render_of_data (by decide) hData]

end Reports

/-- The audit trail of a tree of data has one line for each recorded failure, and so have the report of a
run and the message of the exception that show it, which count them. With an indent of spaces it tells trees
apart up to the literal forms of their failures. -/
theorem audit_trail_faithful {κ : Type} :
    (∀ (tree : ErrorTree (Value κ)) (indent : String), (∀ value ∈ tree.values, value.IsData) →
      OneLine indent →
      (lines (tree.render Value.repr indent) = tree.trail indent ∧
        (tree.trail indent).length = tree.size) ∧
      ∀ state aborted flag, aborted.text = .ok flag →
        ∃ shown, (Value.outcome (.err (.ofTree tree)) state aborted).display indent = .ok shown ∧
          lines shown =
            [rule, "Alternative RunResult", rule, "Status: error",
              "Failures recorded: " ++ toString tree.size, "Error tree:"] ++
            (tree.trail indent).map (indent ++ ·) ++
            lines ("State: " ++ state.repr ++ "\n" ++ ("Aborted: " ++ flag)) ∧
          (state.IsData → OneLine flag →
            lines ("State: " ++ state.repr ++ "\n" ++ ("Aborted: " ++ flag)) =
              ["State: " ++ state.repr, "Aborted: " ++ flag])) ∧
    (∀ tree : ErrorTree (Value κ), (∀ value ∈ tree.values, value.IsData) →
      ∃ message, (Raised.fault (.failed tree)).message = .ok message ∧
        lines message =
          ("Alternative failed with " ++ toString tree.size ++ " recorded failure(s):") ::
            tree.trail "  ") ∧
    ∀ first second : ErrorTree (Value κ), (∀ value ∈ first.values, value.IsData) →
      (∀ value ∈ second.values, value.IsData) → ∀ width, 0 < width →
      (first.render Value.repr (ErrorTree.spaces width) =
          second.render Value.repr (ErrorTree.spaces width) ↔
        first.map Value.repr = second.map Value.repr) := by
  refine ⟨fun tree indent hData hIndents => ?_, fun tree hData => ⟨_, rfl, lines_message hData⟩, ?_⟩
  · have hTrail := lines_render_of_data hIndents hData
    have hSized : (tree.trail indent).length = tree.size := by
      simp [ErrorTree.trail, ErrorTree.size]
    refine ⟨⟨hTrail, hSized⟩, fun state aborted flag hShown => ?_⟩
    refine ⟨_, display_of_tree hShown, ?_, lines_closing⟩
    rw [hTrail, lines_report (oneLine_status hIndents hData)]
    rfl
  · intro first second hData hOtherData width hWide
    exact ErrorTree.render_inj hWide (fun value hAmong => (hData value hAmong).oneLine)
      fun value hAmong => (hOtherData value hAmong).oneLine

def ErrorTree.jagged : ErrorTree (Value Empty) :=
  .node (.str "it's\n- over") [.leaf (.list [.str "\x85\"", .bool true])]

/-- The boundaries are escaped, so the trail keeps to its two lines, and a mapping to one. -/
theorem audit_trail_faithful_over_boundaries :
    lines (ErrorTree.jagged.render Value.repr "\t") =
        ["+ \"it's\\n- over\"", "\t- ['\\x85\"', True]"] ∧
      (∃ shown, (Value.outcome (.err (.ofTree ErrorTree.jagged))
          (.dict Script.frozendict [(.str "\n", .null)]) (.bool true)).display "\t" = .ok shown ∧
        (lines shown).drop 4 = ["Failures recorded: 2", "Error tree:", "\t+ \"it's\\n- over\"",
          "\t\t- ['\\x85\"', True]", "State: frozendict.frozendict(\x7b'\\n': None\x7d)",
          "Aborted: True"]) ∧
      (∃ message, (Raised.fault (.failed ErrorTree.jagged)).message = .ok message ∧
        (lines message).length = 3) ∧
      ErrorTree.jagged.render Value.repr (ErrorTree.spaces 1) ≠
        (ErrorTree.leaf (.str "it's\n- over") : ErrorTree (Value Empty)).render Value.repr
          (ErrorTree.spaces 1) := by
  obtain ⟨hListed, hTold, hUnambiguous⟩ := audit_trail_faithful (κ := Empty)
  have hData : ∀ value ∈ ErrorTree.jagged.values, value.IsData := by
    have hCollected : (Value.list [.str "\x85\"", .bool true] : Value Empty).IsData := by
      refine .list fun item hAmong => ?_
      obtain rfl | rfl : item = .str "\x85\"" ∨ item = .bool true := by simpa using hAmong
      · exact .str _
      · exact .bool _
    simp [ErrorTree.jagged, Value.IsData.str, hCollected]
  have hWalk : ErrorTree.jagged.walk =
      [(0, ErrorTree.jagged), (1, .leaf (.list [.str "\x85\"", .bool true]))] := by
    simp [ErrorTree.walk, ErrorTree.jagged, ErrorTree.leaf, ErrorTree.walkFrom_cons]
  have hTrail : ErrorTree.jagged.trail "\t" =
      ["+ \"it's\\n- over\"", "\t- ['\\x85\"', True]"] := by
    rw [ErrorTree.trail, hWalk]
    rfl
  obtain ⟨⟨hLines_eq, hSized⟩, hDisplay⟩ := hListed ErrorTree.jagged "\t" hData (by decide)
  obtain ⟨shown, hDisplayed, hSplit, hClosing⟩ :=
    hDisplay (.dict Script.frozendict [(.str "\n", .null)]) (.bool true) "True" rfl
  have hState : (Value.dict Script.frozendict [(.str "\n", .null)] : Value Empty).IsData :=
    .dict Script.frozendict_staysOneLine (List.forall_mem_singleton.mpr (.str _))
      (List.forall_mem_singleton.mpr .null)
  obtain ⟨message, hTexted, hHeaded⟩ := hTold ErrorTree.jagged hData
  refine ⟨hLines_eq.trans hTrail, ⟨shown, hDisplayed, ?_⟩, ⟨message, hTexted, ?_⟩, ?_⟩
  · have hCounted : "Failures recorded: " ++ toString ErrorTree.jagged.size =
        "Failures recorded: 2" := by
      rw [← hSized, hTrail]
      rfl
    rw [hSplit, hClosing hState (by decide), hCounted, hTrail]
    simp only [List.cons_append, List.drop_succ_cons, List.drop_zero, List.nil_append, List.map_cons,
      List.map_nil]
    rfl
  · rw [hHeaded, ErrorTree.trail, hWalk]
    rfl
  · rw [Ne, hUnambiguous _ _ hData (by simp [Value.IsData.str]) 1 (by decide)]
    simp [ErrorTree.jagged, ErrorTree.leaf, ErrorTree.map_node]

end Backtrack
