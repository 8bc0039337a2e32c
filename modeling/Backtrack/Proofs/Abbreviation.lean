import Backtrack.Value.Text

namespace Backtrack

namespace Text

variable {limit : Int} {text : String}

/-- The text as it is while the limit allows it, else a beginning of it closed by dots. -/
inductive Abbreviates (limit : Int) (text : String) : String → Prop where
  | whole (fits : text.length ≤ limit) : Abbreviates limit text text
  | cut {kept rest : String} (exceeds : limit < text.length) (splits : text = kept ++ rest) :
      Abbreviates limit text (kept ++ "...")

theorem abbreviates_abbreviated (limit : Int) (text : String) :
    Abbreviates limit text (abbreviated limit text) := by
  by_cases hFits : text.length ≤ limit
  · rw [abbreviated_of_fits hFits]
    exact .whole hFits
  · have hExceeds : limit < text.length := Int.not_le.mp hFits
    have hSplits : text =
        String.ofList (text.toList.take (headLength text.length (limit - 3))) ++
          String.ofList (text.toList.drop (headLength text.length (limit - 3))) := by
      rw [← String.ofList_append, List.take_append_drop, String.ofList_toList]
    rw [abbreviated_of_exceeds hExceeds]
    exact .cut hExceeds hSplits

theorem length_abbreviated (hExceeds : limit < text.length) :
    (abbreviated limit text).length = headLength text.length (limit - 3) + 3 := by
  have hKept : (text.toList.take (headLength text.length (limit - 3))).length =
      headLength text.length (limit - 3) := by
    rw [List.length_take, String.length_toList]
    exact Nat.min_eq_left (headLength_le text.length (limit - 3))
  rw [abbreviated_of_exceeds hExceeds, String.length_append, String.length_ofList, hKept]
  rfl

theorem length_abbreviated_of_room (hRoom : 3 ≤ limit) (hExceeds : limit < text.length) :
    (abbreviated limit text).length = limit := by
  rw [length_abbreviated hExceeds, headLength_of_nonneg (Int.sub_nonneg_of_le hRoom)]
  omega

theorem length_abbreviated_of_short (hShort : limit < 3) (hExceeds : limit < text.length) :
    (abbreviated limit text).length = max 3 (text.length + limit) := by
  rw [length_abbreviated hExceeds, headLength_of_neg (Int.sub_neg_of_lt hShort)]
  omega

theorem length_abbreviated_le_limit (hRoom : 3 ≤ limit) : (abbreviated limit text).length ≤ limit := by
  by_cases hFits : text.length ≤ limit
  · rwa [abbreviated_of_fits hFits]
  · exact Int.le_of_eq (length_abbreviated_of_room hRoom (Int.not_le.mp hFits))

theorem length_abbreviated_le_iff : (abbreviated limit text).length ≤ text.length ↔
    text.length ≤ limit ∨ 3 ≤ limit ∨ limit ≤ 0 ∧ 3 ≤ text.length := by
  by_cases hFits : text.length ≤ limit
  · simp [abbreviated_of_fits hFits, hFits]
  · have hExceeds : limit < text.length := Int.not_le.mp hFits
    by_cases hRoom : 3 ≤ limit
    · have hLength := length_abbreviated_of_room hRoom hExceeds
      omega
    · have hLength := length_abbreviated_of_short (Int.not_le.mp hRoom) hExceeds
      omega

end Text

namespace Value

variable {κ : Type}

/-- The short form of a value is its literal form while the limit allows it, else a beginning of it closed by
dots. With room for the dots it keeps to the limit, and meets it if it is cut. Without room its length goes
with that of the literal form: it is longer, unless the limit is not positive and the dots are no longer than
the literal form. -/
theorem shortRepr_truncates (value : Value κ) (limit : Int) :
    Text.Abbreviates limit value.repr (value.shortRepr limit) ∧
      ((value.shortRepr limit).length ≤ value.repr.length ↔
        value.repr.length ≤ limit ∨ 3 ≤ limit ∨ limit ≤ 0 ∧ 3 ≤ value.repr.length) ∧
      (3 ≤ limit → (value.shortRepr limit).length ≤ limit ∧
        (limit < value.repr.length → (value.shortRepr limit).length = limit)) ∧
      (limit < 3 → limit < value.repr.length →
        (value.shortRepr limit).length = max 3 (value.repr.length + limit)) :=
  ⟨Text.abbreviates_abbreviated limit value.repr, Text.length_abbreviated_le_iff,
    fun hRoom => ⟨Text.length_abbreviated_le_limit hRoom, Text.length_abbreviated_of_room hRoom⟩,
    Text.length_abbreviated_of_short⟩

/-- A number of three digits grows under a limit of two. -/
theorem shortRepr_outgrows_repr :
    (int 100 : Value Empty).repr = "100" ∧ (int 100 : Value Empty).shortRepr 2 = "10..." ∧
      ¬ ((int 100 : Value Empty).shortRepr 2).length ≤ (int 100 : Value Empty).repr.length := by
  decide +kernel

end Value

end Backtrack
