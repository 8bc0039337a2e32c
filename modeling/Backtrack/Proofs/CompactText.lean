import Backtrack.Proofs.Literals
import Backtrack.Proofs.Outline
import Backtrack.Value.Text
import Mathlib

/-! The compact text of a tree determines the tree, if the failures are texts, numbers or truth values. It
nests braces and brackets around literal forms that may hold any of these characters. But a quoted text says
where it ends, and a number ends at the colon; so from the front each part of the compact text ends in one
place only, whatever follows. -/

namespace Backtrack

open Text

theorem append_cons_inj_of_not_mem {c : Char} {first second rest other : List Char}
    (hAbsent : c ∉ first) (hOtherAbsent : c ∉ second)
    (hSame : first ++ c :: rest = second ++ c :: other) : first = second ∧ rest = other := by
  induction first generalizing second with
  | nil =>
      cases second with
      | nil => exact ⟨rfl, (List.cons.inj hSame).2⟩
      | cons head second =>
          have hBegins : c = head := (List.cons.inj hSame).1
          exact absurd (hBegins ▸ List.mem_cons_self) hOtherAbsent
  | cons head first ih =>
      cases second with
      | nil =>
          have hBegins : head = c := (List.cons.inj hSame).1
          exact absurd (hBegins ▸ List.mem_cons_self) hAbsent
      | cons head' second =>
          obtain ⟨rfl, hRemains⟩ := List.cons.inj hSame
          obtain ⟨rfl, rfl⟩ := ih (fun hAmong => hAbsent (.tail _ hAmong))
            (fun hAmong => hOtherAbsent (.tail _ hAmong)) hRemains
          exact ⟨rfl, rfl⟩

namespace Value

variable {κ : Type}

inductive IsWord : Value κ → Prop where
  | int (n : Int) : IsWord (.int n)
  | bool (b : Bool) : IsWord (.bool b)

inductive IsPlain : Value κ → Prop where
  | str (text : String) : IsPlain (.str text)
  | word {value : Value κ} : IsWord value → IsPlain value

namespace IsWord

variable {value first second : Value κ}

theorem not_mem_repr {c : Char} (hPunctuates : c = ':' ∨ IsQuote c) (hWord : value.IsWord) :
    c ∉ value.repr.toList := by
  cases hWord with
  | int n =>
      intro hAmong
      have hBounds := (inNumber_of_mem hAmong).toNat_bounds
      obtain rfl | ⟨⟩ | ⟨⟩ := hPunctuates <;> simp at hBounds
  | bool b =>
      rw [repr_bool]
      obtain rfl | ⟨⟩ | ⟨⟩ := hPunctuates <;> cases b <;> decide

theorem repr_int_ne_bool (n : Int) (b : Bool) :
    (Value.int n : Value κ).repr ≠ (Value.bool b : Value κ).repr := by
  intro hSame
  have hLetter : 'e' ∈ (Value.bool b : Value κ).repr.toList := by
    rw [repr_bool]
    cases b <;> decide
  rw [← hSame] at hLetter
  have hBounds := (inNumber_of_mem hLetter).toNat_bounds
  simp at hBounds

theorem repr_inj (hWord : first.IsWord) (hOtherWord : second.IsWord)
    (hSame : first.repr = second.repr) : first = second := by
  cases hWord with
  | int n =>
      cases hOtherWord with
      | int m => exact congrArg Value.int (Int.repr_injective hSame)
      | bool b => exact absurd hSame (repr_int_ne_bool n b)
  | bool b =>
      cases hOtherWord with
      | int m => exact absurd hSame.symm (repr_int_ne_bool m b)
      | bool b' => cases b <;> cases b' <;> first | rfl | simp [repr_bool] at hSame

theorem not_quoted (hWord : value.IsWord) (text rest other : List Char) :
    quotedChars text ++ rest ≠ value.repr.toList ++ ':' :: other := by
  intro hSame
  have hQuote := isQuote_delimiter text
  cases hSpelled : value.repr.toList with
  | nil =>
      rw [hSpelled] at hSame
      have hBegins : delimiter text = ':' := (List.cons.inj hSame).1
      rw [hBegins] at hQuote
      cases hQuote
  | cons head letters =>
      rw [hSpelled] at hSame
      have hBegins : delimiter text = head := (List.cons.inj hSame).1
      have hAbsent := hWord.not_mem_repr (.inr (hBegins ▸ hQuote))
      rw [hSpelled] at hAbsent
      exact hAbsent List.mem_cons_self

end IsWord

theorem toList_repr_str (text : String) :
    (str text : Value κ).repr.toList = quotedChars text.toList := by
  rw [repr_str, quoted, String.toList_ofList]

theorem IsPlain.repr_colon_inj {first second : Value κ} {rest other : List Char}
    (hPlain : first.IsPlain) (hOtherPlain : second.IsPlain)
    (hSame : first.repr.toList ++ ':' :: rest = second.repr.toList ++ ':' :: other) :
    first = second ∧ rest = other := by
  cases hPlain with
  | str text =>
      rw [toList_repr_str] at hSame
      cases hOtherPlain with
      | str text' =>
          rw [toList_repr_str] at hSame
          obtain ⟨hTexts, hRemains⟩ := quotedChars_append_inj hSame
          exact ⟨congrArg Value.str (String.toList_inj.mp hTexts), (List.cons.inj hRemains).2⟩
      | word hOtherWord => exact absurd hSame (hOtherWord.not_quoted _ _ _)
  | word hWord =>
      cases hOtherPlain with
      | str text =>
          rw [toList_repr_str] at hSame
          exact absurd hSame.symm (hWord.not_quoted _ _ _)
      | word hOtherWord =>
          obtain ⟨hSpelled, hRemains⟩ := append_cons_inj_of_not_mem
            (hWord.not_mem_repr (.inl rfl)) (hOtherWord.not_mem_repr (.inl rfl)) hSame
          exact ⟨hWord.repr_inj hOtherWord (String.toList_inj.mp hSpelled), hRemains⟩

theorem IsPlain.equals_self {value : Value κ} (hPlain : value.IsPlain) :
    value.equals value = true := by
  cases hPlain with
  | str text => simp [equals]
  | word hWord => cases hWord <;> simp [equals, number?]

end Value

namespace ErrorTree

variable {κ : Type}

mutual
def compact : ErrorTree (Value κ) → List Char
  | node value children => '\x7b' :: ' ' ::
      (value.repr.toList ++ ':' :: ' ' :: '[' :: compactRow [] children)

def compactRow (separator : List Char) : List (ErrorTree (Value κ)) → List Char
  | [] => [']', ' ', '\x7d']
  | child :: later => separator ++ compact child ++ compactRow [',', ' '] later
end

theorem toList_intercalate_compact (child : ErrorTree (Value κ)) (later : List (ErrorTree (Value κ))) :
    (", ".intercalate ((child :: later).map fun tree => String.ofList tree.compact)).toList ++
        [']', ' ', '\x7d'] = child.compact ++ compactRow [',', ' '] later := by
  induction later generalizing child with
  | nil => simp [compactRow]
  | cons next later ih =>
      have hJoined := ih next
      rw [List.map_cons] at hJoined
      rw [List.map_cons, List.map_cons, String.intercalate_cons_cons, String.toList_append,
        List.append_assoc, hJoined]
      simp [compactRow]

mutual
theorem text_ofTree (tree : ErrorTree (Value κ)) :
    (Value.ofTree tree).text = .ok (String.ofList tree.compact) := by
  cases tree with
  | node value children =>
      rw [Value.ofTree, Value.text_tree (texts_ofTrees children)]
      refine congrArg Except.ok (String.toList_inj.mp ?_)
      cases children with
      | nil => simp [compact, compactRow]
      | cons child later =>
          have hJoined := toList_intercalate_compact child later
          simp [compact, compactRow, ← hJoined]

theorem texts_ofTrees (trees : List (ErrorTree (Value κ))) :
    Value.texts (Value.ofTrees trees) = .ok (trees.map fun tree => String.ofList tree.compact) := by
  cases trees with
  | nil => rfl
  | cons tree rest => exact Value.texts_cons (text_ofTree tree) (texts_ofTrees rest)
end

inductive Separates : List Char → Prop where
  | first : Separates []
  | later : Separates [',', ' ']

theorem Separates.head?_ne {separator : List Char} (hSeparates : Separates separator)
    (tree : ErrorTree (Value κ)) (rest : List Char) :
    (separator ++ tree.compact ++ rest).head? ≠ some ']' := by
  cases tree with
  | node value children => cases hSeparates <;> simp [compact]

mutual
theorem compact_append_inj {first second : ErrorTree (Value κ)} {rest other : List Char}
    (hPlain : ∀ value ∈ first.values, value.IsPlain)
    (hOtherPlain : ∀ value ∈ second.values, value.IsPlain)
    (hSame : first.compact ++ rest = second.compact ++ other) : first = second ∧ rest = other := by
  match first, second with
  | node value children, node value' children' =>
      rw [values_node, List.forall_mem_cons] at hPlain hOtherPlain
      simp only [compact, List.cons_append, List.append_assoc, List.cons.injEq, true_and] at hSame
      obtain ⟨rfl, hRemains⟩ := hPlain.1.repr_colon_inj hOtherPlain.1 hSame
      simp only [List.cons.injEq, true_and] at hRemains
      obtain ⟨rfl, rfl⟩ := compactRow_append_inj .first hPlain.2 hOtherPlain.2 hRemains
      exact ⟨rfl, rfl⟩

theorem compactRow_append_inj {first second : List (ErrorTree (Value κ))}
    {separator rest other : List Char} (hSeparates : Separates separator)
    (hPlain : ∀ value ∈ first.flatMap values, value.IsPlain)
    (hOtherPlain : ∀ value ∈ second.flatMap values, value.IsPlain)
    (hSame : compactRow separator first ++ rest = compactRow separator second ++ other) :
    first = second ∧ rest = other := by
  match first, second with
  | [], [] => exact ⟨rfl, List.append_cancel_left hSame⟩
  | [], child :: later =>
      have hBegins := congrArg List.head? hSame
      rw [compactRow, compactRow, List.append_assoc] at hBegins
      exact absurd hBegins.symm (hSeparates.head?_ne child _)
  | child :: later, [] =>
      have hBegins := congrArg List.head? hSame
      rw [compactRow, compactRow, List.append_assoc] at hBegins
      exact absurd hBegins (hSeparates.head?_ne child _)
  | child :: later, child' :: later' =>
      rw [List.flatMap_cons, List.forall_mem_append] at hPlain hOtherPlain
      simp only [compactRow, List.append_assoc, List.append_cancel_left_eq] at hSame
      obtain ⟨rfl, hRemains⟩ := compact_append_inj hPlain.1 hOtherPlain.1 hSame
      obtain ⟨rfl, rfl⟩ := compactRow_append_inj .later hPlain.2 hOtherPlain.2 hRemains
      exact ⟨rfl, rfl⟩
end

theorem equals_self {tree : ErrorTree (Value κ)} (hPlain : ∀ value ∈ tree.values, value.IsPlain) :
    (Value.ofTree tree).equals (Value.ofTree tree) = true := by
  have hRecorded : ∀ entry ∈ tree.outline, EqualEntries entry entry := by
    refine List.forall_mem_map.mpr fun entry hAmong => ⟨rfl, ?_⟩
    exact (hPlain _ (List.mem_map_of_mem hAmong)).equals_self
  have hGathered := equalPending_gather (List.forall₂_same.mpr hRecorded)
  rw [gather_outline] at hGathered
  cases hGathered with
  | cons hHead _ => exact hHead.2

end ErrorTree

/-- Every tree of texts, numbers and truth values has a compact text, and no other of these trees has the
same; the trees that share one are equal also to the values' own equality. -/
theorem compact_text_unambiguous {κ : Type} (first second : ErrorTree (Value κ))
    (hPlain : ∀ value ∈ first.values, value.IsPlain)
    (hOtherPlain : ∀ value ∈ second.values, value.IsPlain) :
    ∃ text other, (Value.ofTree first).text = .ok text ∧ (Value.ofTree second).text = .ok other ∧
      (text = other ↔ first = second) ∧
      (text = other → (Value.ofTree first).equals (Value.ofTree second) = true) := by
  have hInj (hSame : String.ofList first.compact = String.ofList second.compact) :
      first = second := by
    have hLetters : first.compact ++ [] = second.compact ++ [] := by
      rw [String.ofList_injective hSame]
    exact (ErrorTree.compact_append_inj hPlain hOtherPlain hLetters).1
  refine ⟨_, _, ErrorTree.text_ofTree first, ErrorTree.text_ofTree second, ⟨hInj, ?_⟩, ?_⟩
  · rintro rfl
    rfl
  · intro hSame
    rw [← hInj hSame]
    exact ErrorTree.equals_self hPlain

def ErrorTree.retried : ErrorTree (Value Empty) :=
  .node (.str "a") [.leaf (.str "it's \"b\"")]

def ErrorTree.imitation : ErrorTree (Value Empty) :=
  .leaf (.str "a': [\x7b 'it\\'s \"b\"': [] \x7d")

/-- The quotes of the imitated text are escaped, so that the texts differ. -/
theorem compact_text_unambiguous_of_imitation :
    (Value.ofTree ErrorTree.retried).text =
        .ok "\x7b 'a': [\x7b 'it\\'s \"b\"': [] \x7d] \x7d" ∧
      (Value.ofTree ErrorTree.imitation).text =
        .ok "\x7b 'a\\': [\x7b \\'it\\\\\\'s \"b\"\\': [] \x7d': [] \x7d" ∧
      (Value.ofTree ErrorTree.retried).text ≠ (Value.ofTree ErrorTree.imitation).text := by
  obtain ⟨text, other, hShown, hOtherShown, hSame, -⟩ :=
    compact_text_unambiguous ErrorTree.retried ErrorTree.imitation
      (by simp [ErrorTree.retried, Value.IsPlain.str])
      (by simp [ErrorTree.imitation, Value.IsPlain.str])
  refine ⟨rfl, rfl, ?_⟩
  rw [hShown, hOtherShown, Ne, Except.ok.injEq, hSame]
  simp [ErrorTree.retried, ErrorTree.imitation, ErrorTree.leaf]

end Backtrack
