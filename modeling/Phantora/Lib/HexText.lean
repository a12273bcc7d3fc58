import Mathlib.Data.Nat.Digits.Lemmas

/-!
# Hexadecimal numbers in text

Numbers printed with a least number of upper-case digits, as the conversion
`%0wX` does, and read back as the conversion `%X` does: after blanks, a sign and
a mark `0x`, up to the first character that is no digit.
-/

namespace HexText

def digit (value : ℕ) : Char :=
  ['0', '1', '2', '3', '4', '5', '6', '7', '8', '9', 'A', 'B', 'C', 'D', 'E', 'F'].getD value '0'

/-- The value of a digit of either case. -/
def digitValue (c : Char) : Option ℕ :=
  if '0' ≤ c ∧ c ≤ '9' then some (c.toNat - 48)
  else if 'A' ≤ c ∧ c ≤ 'F' then some (c.toNat - 55)
  else if 'a' ≤ c ∧ c ≤ 'f' then some (c.toNat - 87)
  else none

def isBlank (c : Char) : Bool :=
  c = ' ' ∨ (9 ≤ c.toNat ∧ c.toNat ≤ 13)

theorem digitValue_digit : ∀ value < 16, digitValue (digit value) = some value := by
  decide

/-- A digit is none of the characters that may stand before a number. -/
theorem digit_plain : ∀ value < 16, isBlank (digit value) = false ∧ digit value ≠ '-' ∧
    digit value ≠ '+' ∧ digit value ≠ 'x' ∧ digit value ≠ 'X' := by
  decide

/-- The digits of a number, the highest first, at least as many as the width. -/
def padded (width n : ℕ) : List ℕ :=
  ((Nat.digits 16 n).reverse).leftpad (max width 1) 0

def print (width n : ℕ) : List Char :=
  (padded width n).map digit

/-- The digits at the front of a text, and the rest of it. -/
def takeDigits : List Char → List ℕ × List Char
  | [] => ([], [])
  | c :: text =>
      match digitValue c with
      | some value => (value :: (takeDigits text).1, (takeDigits text).2)
      | none => ([], c :: text)

/-- Whether a minus sign stands at the front, and the text after the sign. -/
def dropSign : List Char → Bool × List Char
  | '-' :: text => (true, text)
  | '+' :: text => (false, text)
  | text => (false, text)

def dropMark : List Char → List Char
  | '0' :: 'x' :: text => text
  | '0' :: 'X' :: text => text
  | text => text

/-- The number at the front of a text, and the rest of it. -/
def scan (text : List Char) : Option (ℤ × List Char) :=
  let (negative, text) := dropSign (text.dropWhile isBlank)
  match takeDigits (dropMark text) with
  | ([], _) => none
  | (digits, rest) =>
      let value : ℤ := (Nat.ofDigits 16 digits.reverse : ℕ)
      some (if negative then -value else value, rest)

/-- The text after a character that has to stand at the front. -/
def expect (c : Char) : List Char → Option (List Char)
  | [] => none
  | first :: rest => if first = c then some rest else none

/-- A number ends before this text. -/
def Ends (rest : List Char) : Prop :=
  ∀ c text, rest = c :: text → digitValue c = none ∧ c ≠ 'x' ∧ c ≠ 'X'

theorem padded_ne_nil (width n : ℕ) : padded width n ≠ [] := by
  intro empty
  rw [padded, List.leftpad, List.append_eq_nil_iff, List.reverse_eq_nil_iff] at empty
  rcases empty with ⟨padding, digits⟩
  rw [digits, List.replicate_eq_nil_iff] at padding
  simp at padding

theorem padded_lt {width n value : ℕ} (mem : value ∈ padded width n) : value < 16 := by
  rw [padded, List.leftpad, List.mem_append] at mem
  rcases mem with mem | mem
  · rw [(List.mem_replicate.mp mem).2]
    decide
  · exact Nat.digits_lt_base (by decide) (List.mem_reverse.mp mem)

/-- The padding does not change the number. -/
theorem ofDigits_padded (width n : ℕ) : Nat.ofDigits 16 (padded width n).reverse = n := by
  rw [padded, List.leftpad, List.reverse_append, List.reverse_reverse, List.reverse_replicate,
    Nat.ofDigits_append_replicate_zero, Nat.ofDigits_digits]

theorem takeDigits_append {digits : List ℕ} (small : ∀ value ∈ digits, value < 16)
    {rest : List Char} (ends : Ends rest) :
    takeDigits (digits.map digit ++ rest) = (digits, rest) := by
  induction digits with
  | nil =>
      rcases rest with _ | ⟨c, text⟩
      · rfl
      · simp [takeDigits, (ends c text rfl).1]
  | cons value digits ih =>
      have known := digitValue_digit value (small value List.mem_cons_self)
      have later := ih fun value mem => small value (List.mem_cons_of_mem _ mem)
      simp [takeDigits, known, later]

theorem dropSign_of_ne {c : Char} {text : List Char} (minus : c ≠ '-') (plus : c ≠ '+') :
    dropSign (c :: text) = (false, c :: text) := by
  unfold dropSign
  split
  · rename_i same
    exact absurd (List.cons.inj same).1 minus
  · rename_i same
    exact absurd (List.cons.inj same).1 plus
  · rfl

theorem dropMark_of_ne {c : Char} {text : List Char}
    (unmarked : ∀ second after, text = second :: after → second ≠ 'x' ∧ second ≠ 'X') :
    dropMark (c :: text) = c :: text := by
  unfold dropMark
  split
  · rename_i after same
    exact absurd rfl (unmarked 'x' after (List.cons.inj same).2).1
  · rename_i after same
    exact absurd rfl (unmarked 'X' after (List.cons.inj same).2).2
  · rfl

/-- A printed number is read back, and what follows is left. -/
theorem scan_print_append (width n : ℕ) {rest : List Char} (ends : Ends rest) :
    scan (print width n ++ rest) = some ((n : ℤ), rest) := by
  have read := takeDigits_append (fun value mem => @padded_lt width n value mem) ends
  rcases shape : padded width n with _ | ⟨first, others⟩
  · exact absurd shape (padded_ne_nil width n)
  · have firstMem : first ∈ padded width n := shape ▸ List.mem_cons_self
    rcases digit_plain first (padded_lt firstMem) with ⟨blank, minus, plus, _, _⟩
    have text : print width n ++ rest = digit first :: (others.map digit ++ rest) := by
      rw [print, shape, List.map_cons, List.cons_append]
    have unmarked : ∀ second after, others.map digit ++ rest = second :: after →
        second ≠ 'x' ∧ second ≠ 'X' := by
      intro second after same
      rcases others with _ | ⟨next, others⟩
      · exact (ends second after same).2
      · have nextMem : next ∈ padded width n := shape ▸ by simp
        rw [List.map_cons, List.cons_append, List.cons.injEq] at same
        rw [← same.1]
        exact (digit_plain next (padded_lt nextMem)).2.2.2
    have kept : (print width n ++ rest).dropWhile isBlank = print width n ++ rest := by
      rw [text, List.dropWhile_cons_of_neg (by simp [blank])]
    have digits : takeDigits (print width n ++ rest) = (first :: others, rest) := by
      rw [print, read, shape]
    simp only [scan, kept]
    rw [text, dropSign_of_ne minus plus]
    simp only [dropMark_of_ne unmarked]
    rw [← text, digits]
    simp only [Bool.false_eq_true, if_false]
    rw [← shape, ofDigits_padded]

end HexText
