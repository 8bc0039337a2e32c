import Backtrack.Text.Lines
import Backtrack.Text.Quoted
import Mathlib.Algebra.Group.Nat.Defs
import Mathlib.Tactic.SplitIfs

/-! The literal forms of texts and numbers. The quoted form of a text stays on one line, whatever the text
holds, and can be read back: where it stands before anything else, it says itself where it ends. So two
quoted forms agree only if the texts do, even if what follows them differs. A number is spelled by digits,
perhaps after a sign. -/

namespace Backtrack.Text

def Unbroken (text : List Char) : Prop :=
  ∀ c ∈ text, isLineBoundary c = false

@[simp] theorem unbroken_nil : Unbroken [] := by
  simp [Unbroken]

@[simp] theorem unbroken_cons {c : Char} {text : List Char} :
    Unbroken (c :: text) ↔ isLineBoundary c = false ∧ Unbroken text := by
  simp [Unbroken]

@[simp] theorem unbroken_append {first second : List Char} :
    Unbroken (first ++ second) ↔ Unbroken first ∧ Unbroken second := by
  simp [Unbroken, or_imp, forall_and]

def OneLine (text : String) : Prop := Unbroken text.toList

instance (text : String) : Decidable (OneLine text) :=
  List.decidableBAll (fun c => isLineBoundary c = false) text.toList

theorem oneLine_append {first second : String} :
    OneLine (first ++ second) ↔ OneLine first ∧ OneLine second := by
  simp [OneLine]

theorem isPrintable_of_isLineBoundary {c : Char} (hBoundary : isLineBoundary c = true) :
    isPrintable c = false := by
  simp only [isLineBoundary, Bool.or_eq_true, Bool.and_eq_true, decide_eq_true_eq,
    beq_iff_eq] at hBoundary
  unfold isPrintable
  split
  · simp only [decide_eq_false_iff_not]
    omega
  · have hBeyond : c.toNat = 0x85 ∨ c.toNat = 0x2028 ∨ c.toNat = 0x2029 := by omega
    obtain hFound | hFound | hFound := hBeyond <;> rw [hFound] <;> decide +kernel

theorem unbroken_hexDigits (width n : Nat) : Unbroken (hexDigits width n) := by
  have hDigits : ∀ digit < 16, isLineBoundary (hexDigit digit) = false := by decide
  induction width generalizing n with
  | zero => simp [hexDigits]
  | succ width ih => simp [hexDigits, ih, hDigits (n % 16) (Nat.mod_lt n (by decide))]

theorem unbroken_numericEscape (n : Nat) : Unbroken (numericEscape n) := by
  unfold numericEscape
  split_ifs <;> simp [isLineBoundary, unbroken_hexDigits]

inductive IsQuote : Char → Prop where
  | single : IsQuote '\''
  | double : IsQuote '"'

theorem isQuote_delimiter (text : List Char) : IsQuote (delimiter text) := by
  unfold delimiter
  split
  · exact .double
  · exact .single

theorem IsQuote.unbroken {d : Char} (hQuote : IsQuote d) : isLineBoundary d = false := by
  cases hQuote <;> decide

theorem unbroken_escape {d : Char} (hQuote : IsQuote d) (c : Char) : Unbroken (escape d c) := by
  unfold escape
  split_ifs with hEscaped _ _ _ hPrintable
  · have hPlain : isLineBoundary c = false := by
      obtain rfl | rfl := hEscaped
      · exact hQuote.unbroken
      · decide
    have hBackslash : isLineBoundary '\\' = false := by decide
    simp [hPlain, hBackslash]
  · simp [isLineBoundary]
  · simp [isLineBoundary]
  · simp [isLineBoundary]
  · cases hBoundary : isLineBoundary c with
    | false => simp [hBoundary]
    | true =>
        rw [isPrintable_of_isLineBoundary hBoundary] at hPrintable
        cases hPrintable
  · exact unbroken_numericEscape c.toNat

theorem oneLine_quoted (text : String) : OneLine (quoted text) := by
  have hQuote := isQuote_delimiter text.toList
  have hEscaped : Unbroken (text.toList.flatMap (escape (delimiter text.toList))) := by
    intro c hAmong
    obtain ⟨source, _, hWithin⟩ := List.mem_flatMap.mp hAmong
    exact unbroken_escape hQuote source c hWithin
  simp [OneLine, quoted, quotedChars, hQuote.unbroken, hEscaped]

def hexValue (digit : Char) : Nat :=
  if digit.isDigit then digit.toNat - '0'.toNat else digit.toNat - 'a'.toNat + 10

def readHex (digits : List Char) : Nat :=
  digits.foldl (fun number digit => 16 * number + hexValue digit) 0

theorem readHex_hexDigits {width n : Nat} (hFits : n < 16 ^ width) :
    readHex (hexDigits width n) = n := by
  have hValues : ∀ digit < 16, hexValue (hexDigit digit) = digit := by decide
  induction width generalizing n with
  | zero =>
      have hZero : n = 0 := by simpa using hFits
      rw [hZero]
      rfl
  | succ width ih =>
      have hLess : n / 16 < 16 ^ width := by
        rw [Nat.pow_succ] at hFits
        exact Nat.div_lt_of_lt_mul (by omega)
      have hLeading : (hexDigits width (n / 16)).foldl
          (fun number digit => 16 * number + hexValue digit) 0 = n / 16 := ih hLess
      simp only [hexDigits, readHex, List.foldl_append, hLeading, List.foldl_cons, List.foldl_nil,
        hValues (n % 16) (Nat.mod_lt n (by decide))]
      exact Nat.div_add_mod n 16

def readNumeric (width : Nat) (text : List Char) : Char × List Char :=
  (Char.ofNat (readHex (text.take width)), text.drop width)

theorem readNumeric_hexDigits {width : Nat} {c : Char} (hFits : c.toNat < 16 ^ width)
    (rest : List Char) : readNumeric width (hexDigits width c.toNat ++ rest) = (c, rest) := by
  have hSpelled : (hexDigits width c.toNat).length = width := length_hexDigits width c.toNat
  rw [readNumeric, List.take_left' hSpelled, List.drop_left' hSpelled, readHex_hexDigits hFits,
    Char.ofNat_toNat]

def readEscaped : List Char → Option (Char × List Char)
  | '\\' :: 'x' :: rest => some (readNumeric 2 rest)
  | '\\' :: 'u' :: rest => some (readNumeric 4 rest)
  | '\\' :: 'U' :: rest => some (readNumeric 8 rest)
  | '\\' :: 't' :: rest => some ('\t', rest)
  | '\\' :: 'n' :: rest => some ('\n', rest)
  | '\\' :: 'r' :: rest => some ('\r', rest)
  | '\\' :: c :: rest => some (c, rest)
  | c :: rest => some (c, rest)
  | [] => none

theorem readEscaped_numericEscape (c : Char) (rest : List Char) :
    readEscaped (numericEscape c.toNat ++ rest) = some (c, rest) := by
  unfold numericEscape
  split_ifs with hTwo hFour
  · exact congrArg some (readNumeric_hexDigits hTwo rest)
  · exact congrArg some (readNumeric_hexDigits hFour rest)
  · have hEight : c.toNat < 16 ^ 8 := c.val.toNat_lt
    exact congrArg some (readNumeric_hexDigits hEight rest)

theorem readEscaped_escape {d : Char} (hQuote : IsQuote d) (c : Char) (rest : List Char) :
    readEscaped (escape d c ++ rest) = some (c, rest) := by
  unfold escape
  split_ifs with hEscaped hTab hFeed hReturn_ printable
  · obtain rfl | rfl := hEscaped
    · cases hQuote <;> rfl
    · rfl
  · rw [hTab]
    rfl
  · rw [hFeed]
    rfl
  · rw [hReturn_]
    rfl
  · have hPlain : c ≠ '\\' := fun hSame => hEscaped (.inr hSame)
    simp [readEscaped, hPlain]
  · exact readEscaped_numericEscape c rest

theorem head?_escape_append {d : Char} (hQuote : IsQuote d) (c : Char) (rest : List Char) :
    (escape d c ++ rest).head? ≠ some d := by
  have hBackslash : '\\' ≠ d := by cases hQuote <;> decide
  unfold escape
  split_ifs with hEscaped
  · simpa using hBackslash
  · simpa using hBackslash
  · simpa using hBackslash
  · simpa using hBackslash
  · simpa using fun hSame => hEscaped (.inl hSame)
  · unfold numericEscape
    split_ifs <;> simpa using hBackslash

theorem escaped_append_inj {d : Char} (hQuote : IsQuote d) {first second rest other : List Char}
    (hSame : first.flatMap (escape d) ++ d :: rest = second.flatMap (escape d) ++ d :: other) :
    first = second ∧ rest = other := by
  induction first generalizing second with
  | nil =>
      cases second with
      | nil => simpa using hSame
      | cons c second =>
          have hBegins := congrArg List.head? hSame
          rw [List.flatMap_cons, List.append_assoc] at hBegins
          exact absurd hBegins.symm (head?_escape_append hQuote c _)
  | cons c first ih =>
      cases second with
      | nil =>
          have hBegins := congrArg List.head? hSame
          rw [List.flatMap_cons, List.append_assoc] at hBegins
          exact absurd hBegins (head?_escape_append hQuote c _)
      | cons c' second =>
          have hRead := congrArg readEscaped hSame
          simp only [List.flatMap_cons, List.append_assoc, readEscaped_escape hQuote,
            Option.some.injEq, Prod.mk.injEq] at hRead
          obtain ⟨rfl, hRemains⟩ := hRead
          obtain ⟨rfl, rfl⟩ := ih hRemains
          exact ⟨rfl, rfl⟩

theorem quotedChars_append_inj {first second rest other : List Char}
    (hSame : quotedChars first ++ rest = quotedChars second ++ other) :
    first = second ∧ rest = other := by
  simp only [quotedChars, List.cons_append, List.append_assoc, List.nil_append,
    List.cons.injEq] at hSame
  obtain ⟨hDelimiters, hSame⟩ := hSame
  rw [← hDelimiters] at hSame
  exact escaped_append_inj (isQuote_delimiter first) hSame

def InNumber (c : Char) : Prop :=
  c = '-' ∨ c.isDigit = true

theorem isDigit_of_mem {count : Nat} {c : Char} (hAmong : c ∈ (toString count).toList) :
    c.isDigit = true := by
  have hSpelled : c ∈ count.repr.toList := hAmong
  rw [Nat.toList_repr] at hSpelled
  exact Nat.isDigit_of_mem_toDigits (by decide) (Nat.le_refl 10) hSpelled

theorem inNumber_of_mem {n : Int} {c : Char} (hAmong : c ∈ (toString n).toList) : InNumber c := by
  cases n with
  | ofNat m => exact .inr (isDigit_of_mem hAmong)
  | negSucc m =>
      have hSpelled : c ∈ ("-" ++ toString (m + 1)).toList := hAmong
      rw [String.toList_append] at hSpelled
      obtain hSign | hDigits := List.mem_append.mp hSpelled
      · exact .inl (List.mem_singleton.mp hSign)
      · exact .inr (isDigit_of_mem hDigits)

theorem InNumber.toNat_bounds {c : Char} (hAmong : InNumber c) : 45 ≤ c.toNat ∧ c.toNat ≤ 57 := by
  obtain rfl | hDigit := hAmong
  · decide
  · simp only [Char.isDigit, Bool.and_eq_true, decide_eq_true_eq, ge_iff_le,
      UInt32.le_iff_toNat_le] at hDigit
    exact ⟨Nat.le_trans (by decide) hDigit.1, hDigit.2⟩

theorem InNumber.plain {c : Char} (hAmong : InNumber c) : isLineBoundary c = false := by
  have hBounds := hAmong.toNat_bounds
  simp only [isLineBoundary, Bool.or_eq_false_iff, Bool.and_eq_false_iff, decide_eq_false_iff_not,
    beq_eq_false_iff_ne]
  omega

theorem oneLine_number (n : Int) : OneLine (toString n) :=
  fun _ hAmong => (inNumber_of_mem hAmong).plain

theorem oneLine_count (count : Nat) : OneLine (toString count) :=
  fun _ hAmong => InNumber.plain (.inr (isDigit_of_mem hAmong))

end Backtrack.Text
