namespace Backtrack.Text

/-- How many characters stand before position `stop`, a negative position counting from the end. -/
def headLength (length : Nat) (stop : Int) : Nat :=
  if stop < 0 then (stop + length).toNat else min stop.toNat length

theorem headLength_of_neg {length : Nat} {stop : Int} (hNegative : stop < 0) :
    headLength length stop = (stop + length).toNat :=
  if_pos hNegative

theorem headLength_of_nonneg {length : Nat} {stop : Int} (hNonnegative : 0 ≤ stop) :
    headLength length stop = min stop.toNat length :=
  if_neg (Int.not_lt.mpr hNonnegative)

theorem headLength_le (length : Nat) (stop : Int) : headLength length stop ≤ length := by
  unfold headLength
  split <;> omega

def abbreviatedChars (limit : Int) (text : List Char) : List Char :=
  if limit < text.length then text.take (headLength text.length (limit - 3)) ++ ['.', '.', '.']
  else text

def abbreviated (limit : Int) (text : String) : String :=
  String.ofList (abbreviatedChars limit text.toList)

variable {limit : Int} {text : String}

theorem abbreviated_of_fits (hFits : text.length ≤ limit) : abbreviated limit text = text := by
  have hWithin : ¬ limit < text.toList.length := by
    rw [String.length_toList]
    exact Int.not_lt.mpr hFits
  rw [abbreviated, abbreviatedChars, if_neg hWithin, String.ofList_toList]

theorem abbreviated_of_exceeds (hExceeds : limit < text.length) :
    abbreviated limit text =
      String.ofList (text.toList.take (headLength text.length (limit - 3))) ++ "..." := by
  have hBeyond : limit < text.toList.length := by rwa [String.length_toList]
  rw [abbreviated, abbreviatedChars, if_pos hBeyond, String.length_toList, String.ofList_append]

end Backtrack.Text
