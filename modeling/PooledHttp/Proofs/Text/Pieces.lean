import Mathlib
import PooledHttp.Text.Decimal

/-!
# Pieces of a text

A text is cut where a character of some kind stands first, or where a separator stands last. The
piece in front of the first such character and the piece behind the last separator are determined
by what they are (`takeWhile_append_of_stop`, `afterLast?_eq_some_iff`). Lower case makes letters
out of letters only, so that it moves no separator. A numeral is read as the number that it denotes,
up to the limit of the reader, and the written form of a number denotes it.
-/

set_option autoImplicit false

namespace PooledHttp

namespace Text

variable {sep c d : Char} {t x y : Text} {p : Char → Bool}

/-- A character of another kind than all those of a text does not stand in it. -/
theorem not_mem_of_forall (ht : ∀ c ∈ t, p c = true) (hc : p c = false) : c ∉ t := by
  intro hmem
  rw [ht c hmem] at hc
  cases hc

/-- A text whose characters are all of one kind is cut off exactly where one of another kind
follows. -/
theorem takeWhile_append_of_stop (hx : ∀ c ∈ x, p c = true)
    (hy : ∀ c, y.head? = some c → p c = false) : (x ++ y).takeWhile p = x := by
  rw [List.takeWhile_append_of_pos hx]
  cases y with
  | nil => simp
  | cons c y => simp [hy c rfl]

/-- The text in front of the first separator is cut off exactly there. -/
theorem takeWhile_ne_append (hx : sep ∉ x) (hy : ∀ c, y.head? = some c → c = sep) :
    (x ++ y).takeWhile (· != sep) = x := by
  apply takeWhile_append_of_stop
  · intro c hc
    have hne : c ≠ sep := by
      rintro rfl
      exact hx hc
    simpa using hne
  · intro c hc
    simp [hy c hc]

/-- What is left behind the characters of one kind begins with the first of another kind. -/
theorem drop_length_takeWhile (t : Text) : t.drop (t.takeWhile p).length = t.dropWhile p := by
  calc t.drop (t.takeWhile p).length
      = (t.takeWhile p ++ t.dropWhile p).drop (t.takeWhile p).length := by
        rw [List.takeWhile_append_dropWhile]
    _ = t.dropWhile p := List.drop_left

/-- The copies of one character in front of a text are the part that is dropped. -/
theorem exists_replicate (c : Char) (t : Text) :
    ∃ n, t = List.replicate n c ++ t.dropWhile (· == c) := by
  have hall : ∀ d ∈ t.takeWhile (· == c), d = c := fun d hd => by
    simpa using List.mem_takeWhile_imp hd
  refine ⟨(t.takeWhile (· == c)).length, ?_⟩
  rw [← List.eq_replicate_of_mem hall, List.takeWhile_append_dropWhile]

/-- Copies of a character are dropped up to a text that begins otherwise. -/
theorem dropWhile_replicate_append (n : Nat) (hx : ∀ d, x.head? = some d → d ≠ c) :
    (List.replicate n c ++ x).dropWhile (· == c) = x := by
  rw [List.dropWhile_append_of_pos (by simp)]
  cases x with
  | nil => rfl
  | cons d x => exact List.dropWhile_cons_of_neg (by simpa using hx d rfl)

/-- The octets of two texts one behind the other add up. -/
theorem octetLength_append (x y : Text) : octetLength (x ++ y) = octetLength x + octetLength y := by
  induction x with
  | nil => simp [octetLength]
  | cons c x ih =>
    simp only [octetLength, List.cons_append, List.foldr_cons] at ih ⊢
    omega

/-! ## Parts behind a mark -/

/-- A part that may be absent, behind the character that announces it. -/
def behind (mark : Char) (part : Option Text) : Text := part.elim [] (mark :: ·)

/-- A part behind a mark begins with the mark. -/
theorem eq_of_head?_behind {mark : Char} {part : Option Text}
    (h : (behind mark part).head? = some c) : c = mark := by
  cases part with
  | none => cases h
  | some t => simpa [behind, eq_comm] using h

/-- A text is what stands in front of the first mark, and a part behind it if there is a mark. -/
theorem exists_behind (mark : Char) (t : Text) :
    ∃ part, t = t.takeWhile (· != mark) ++ behind mark part := by
  induction t with
  | nil => exact ⟨none, rfl⟩
  | cons c t ih =>
    by_cases hc : c = mark
    · exact ⟨some t, by simp [hc, behind]⟩
    · obtain ⟨part, ht⟩ := ih
      refine ⟨part, ?_⟩
      rw [List.takeWhile_cons_of_pos (by simpa using hc), List.cons_append, ← ht]

/-! ## The last separator -/

/-- There is no last piece exactly if the separator does not occur. -/
theorem afterLast?_eq_none_iff : afterLast? sep t = none ↔ sep ∉ t := by
  simp [afterLast?]

/-- What stands behind a separator and holds none itself is the last piece. -/
theorem afterLast?_append (hy : sep ∉ y) : afterLast? sep (x ++ sep :: y) = some y := by
  have hrest : (x ++ sep :: y).reverse.takeWhile (· != sep) = y.reverse := by
    rw [List.reverse_append, List.reverse_cons, List.append_assoc]
    exact takeWhile_ne_append (by simpa using hy) (by simp)
  rw [afterLast?, if_pos (by simp), hrest, List.reverse_reverse]

/-- The last piece follows a separator and holds none itself. -/
theorem afterLast?_eq_some_iff : afterLast? sep t = some y ↔ ∃ x, t = x ++ sep :: y ∧ sep ∉ y := by
  constructor
  · intro h
    have hmem : sep ∈ t := by
      by_contra hmem
      rw [afterLast?_eq_none_iff.2 hmem] at h
      cases h
    -- the last separator is the first one of the reversed text
    obtain ⟨a, b, hsplit, ha⟩ := List.eq_append_cons_of_mem (List.mem_reverse.2 hmem)
    have ht : t = b.reverse ++ sep :: a.reverse := by
      simpa using congrArg List.reverse hsplit
    have hnot : sep ∉ a.reverse := by simpa using ha
    rw [ht, afterLast?_append hnot] at h
    cases h
    exact ⟨b.reverse, ht, hnot⟩
  · rintro ⟨x, rfl, hy⟩
    exact afterLast?_append hy

/-! ## Letter case -/

/-- A character that is no lower-case letter is the lower case of itself only. -/
theorem eq_of_toLower_eq (hd : d.isLower = false) (h : c.toLower = d) : c = d := by
  have halpha : c.isAlpha = false := by
    rw [← Char.isLower_toLower_eq_isAlpha, h, hd]
  have hupper : ¬c.isUpper = true := by
    intro hupper
    simp [Char.isAlpha, hupper] at halpha
  rw [← h, Char.toLower_eq_of_not_isUpper hupper]

/-- Lower case leaves the number of occurrences of every character that is no letter. -/
theorem count_lower (hd : d.isLower = false) (hupper : d.isUpper = false) :
    (lower t).count d = t.count d := by
  rw [List.count_eq_countP, List.count_eq_countP, lower, List.countP_map]
  apply List.countP_congr
  intro c _
  simp only [Function.comp_apply, beq_iff_eq]
  constructor
  · intro hlower
    exact eq_of_toLower_eq hd hlower
  · rintro rfl
    exact Char.toLower_eq_of_not_isUpper (by simp [hupper])

/-- Lower case brings in and takes away no character that is no letter. -/
theorem mem_lower_iff (hd : d.isLower = false) (hupper : d.isUpper = false) :
    d ∈ lower t ↔ d ∈ t := by
  rw [← List.count_pos_iff, ← List.count_pos_iff, count_lower hd hupper]

/-- Only letters have another lower case. -/
theorem eq_of_lower_eq (h : lower t = x) (hx : ∀ c ∈ x, c.isLower = false) : t = x := by
  induction x generalizing t with
  | nil => exact List.map_eq_nil_iff.1 h
  | cons d x ih =>
    obtain ⟨c, t', rfl, hc, ht⟩ := List.map_eq_cons_iff.1 h
    have hd : d.isLower = false := hx d List.mem_cons_self
    rw [eq_of_toLower_eq hd hc, ih ht fun e he => hx e (List.mem_cons_of_mem d he)]

/-- Lower case makes letters out of letters, so it stays within the characters of any kind that all
letters and digits belong to. -/
theorem forall_mem_lower (hp : ∀ c, c.isAlphanum = true → p c = true) (ht : ∀ c ∈ t, p c = true) :
    ∀ c ∈ lower t, p c = true := by
  intro c hc
  obtain ⟨d, hd, rfl⟩ := List.mem_map.1 hc
  by_cases hupper : d.isUpper = true
  · have halpha : d.toLower.isAlpha = true := by
      simp [Char.isAlpha, Char.isLower_toLower_eq_isAlpha, hupper]
    exact hp _ (by simp [Char.isAlphanum, halpha])
  · rw [Char.toLower_eq_of_not_isUpper hupper]
    exact ht d hd

/-- Lower case is taken piece by piece. -/
theorem lower_append (x y : Text) : lower (x ++ y) = lower x ++ lower y := List.map_append

/-- Lower case keeps the length. -/
theorem length_lower (t : Text) : (lower t).length = t.length := List.length_map _

/-- A text in lower case is its own lower case. -/
theorem lower_lower (t : Text) : lower (lower t) = lower t := by
  simp [lower]

end Text

namespace Decimal

variable {t : Text} {n limit : Nat} {c : Char}

/-- A text denotes a number: decimal digits, at least one of them, behind an optional `+`. -/
def Denotes (t : Text) (n : Nat) : Prop :=
  ∃ digits, (t = digits ∨ t = '+' :: digits) ∧ isNumeral digits = true ∧ value digits = n

/-- A numeral is at least one digit and nothing else. -/
theorem isNumeral_iff : isNumeral t = true ↔ t ≠ [] ∧ ∀ c ∈ t, c.isDigit = true := by
  simp [isNumeral]

/-- A text that denotes a number is not empty. -/
theorem Denotes.ne_nil (h : Denotes t n) : t ≠ [] := by
  obtain ⟨digits, hwritten, hdigits, -⟩ := h
  rcases hwritten with rfl | rfl
  · exact (isNumeral_iff.1 hdigits).1
  · exact List.cons_ne_nil _ _

/-- Digits and plus signs are all that a text that denotes a number holds. -/
theorem Denotes.not_mem (h : Denotes t n) (hdigit : c.isDigit = false) (hplus : c ≠ '+') :
    c ∉ t := by
  obtain ⟨digits, hwritten, hdigits, -⟩ := h
  have hnot : c ∉ digits := Text.not_mem_of_forall (isNumeral_iff.1 hdigits).2 hdigit
  rcases hwritten with rfl | rfl
  · exact hnot
  · simp [hplus, hnot]

/-- A numeral is read as its value if the value is within the limit. -/
theorem read?_of_isNumeral (h : isNumeral t = true) :
    read? limit t = if value t ≤ limit then some (value t) else none := by
  obtain ⟨-, hdigits⟩ := isNumeral_iff.1 h
  unfold read?
  split
  · have hplus := hdigits '+' List.mem_cons_self
    cases hplus
  · simp [h]

/-- Reading accepts what denotes a number within the limit, and nothing else. -/
theorem read?_eq_some_iff : read? limit t = some n ↔ Denotes t n ∧ n ≤ limit := by
  constructor
  · intro h
    unfold read? at h
    extract_lets digits at h
    obtain ⟨hnumeral, hle, hvalue⟩ :
        isNumeral digits = true ∧ value digits ≤ limit ∧ value digits = n := by
      simpa [and_assoc] using h
    refine ⟨⟨digits, ?_, hnumeral, hvalue⟩, hvalue ▸ hle⟩
    unfold digits
    split
    · exact .inr rfl
    · exact .inl rfl
  · rintro ⟨⟨digits, hwritten, hnumeral, rfl⟩, hle⟩
    rcases hwritten with rfl | rfl
    · rw [read?_of_isNumeral hnumeral, if_pos hle]
    · simp [read?, hnumeral, hle]

/-- A number is written with digits only. -/
theorem isDigit_of_mem_write (hc : c ∈ write n) : c.isDigit = true :=
  Nat.isDigit_of_mem_toDigits (by decide) (by decide) hc

/-- The written form of a number denotes it. -/
theorem denotes_write (n : Nat) : Denotes (write n) n := by
  have hnumeral : isNumeral (write n) = true :=
    isNumeral_iff.2 ⟨Nat.toDigits_ne_nil, fun _ hc => isDigit_of_mem_write hc⟩
  refine ⟨write n, .inl rfl, hnumeral, ?_⟩
  calc value (write n)
      = Nat.ofDigitChars 10 (Nat.toDigits 10 n) 0 := Nat.ofDigitChars_eq_foldl.symm
    _ = n := Nat.ofDigitChars_ten_toDigits

end Decimal
end PooledHttp
