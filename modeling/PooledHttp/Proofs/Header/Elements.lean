import PooledHttp.Header
import PooledHttp.Proofs.Text.Pieces

/-!
# The elements of a list header

A list header has its elements between the commas of its values, over all lines of its name; a line
that cannot be read as text does not count. `Header.Lists` says this without cutting anything: some
texts without commas, joined line by line with commas, are the values. The elements that are read are
just these (`Header.lists_iff`). Two values on one line, with a comma between them, have the elements
that they have on two lines (`Text.cut_intercalate`).
-/

set_option autoImplicit false

namespace PooledHttp

namespace Text

variable {sep : Char} {t x lead trail value : Text} {elements : List Text}

/-! ## Blanks at the ends -/

/-- A text is its trimmed form with blanks around it. -/
theorem exists_blanks (t : Text) : ∃ lead trail, (∀ c ∈ lead, isBlank c = true) ∧
    (∀ c ∈ trail, isBlank c = true) ∧ t = lead ++ (trim t ++ trail) := by
  refine ⟨t.takeWhile isBlank, ((t.dropWhile isBlank).reverse.takeWhile isBlank).reverse, ?_, ?_, ?_⟩
  · exact fun c hc => List.mem_takeWhile_imp hc
  · exact fun c hc => List.mem_takeWhile_imp (List.mem_reverse.1 hc)
  · have hback : trim t ++ ((t.dropWhile isBlank).reverse.takeWhile isBlank).reverse =
        t.dropWhile isBlank := by
      rw [trim, ← List.reverse_append, List.takeWhile_append_dropWhile, List.reverse_reverse]
    rw [hback, List.takeWhile_append_dropWhile]

/-- Blanks around a text make no difference to its trimmed form. -/
theorem trim_append (hlead : ∀ c ∈ lead, isBlank c = true) (htrail : ∀ c ∈ trail, isBlank c = true) :
    trim (lead ++ (x ++ trail)) = trim x := by
  rw [trim, trim, List.dropWhile_append_of_pos hlead, List.dropWhile_append]
  split
  case isTrue hblank =>
    have hnone : trail.dropWhile isBlank = [] := List.dropWhile_eq_nil_iff.2 htrail
    rw [hnone, List.isEmpty_iff.1 hblank]
  case isFalse =>
    rw [List.reverse_append, List.dropWhile_append_of_pos]
    exact fun c hc => htrail c (List.mem_reverse.1 hc)

/-- A text without blanks is its own trimmed form. -/
theorem trim_eq_self (hspace : ' ' ∉ x) (htab : '\t' ∉ x) : trim x = x := by
  have hblank {c : Char} (hc : c ∈ x) : isBlank c = false := by
    rw [isBlank, Bool.or_eq_false_iff, beq_eq_false_iff_ne, beq_eq_false_iff_ne]
    exact ⟨ne_of_mem_of_not_mem hc hspace, ne_of_mem_of_not_mem hc htab⟩
  have hkept (y : Text) (hy : y ⊆ x) : y.dropWhile isBlank = y := by
    cases y with
    | nil => rfl
    | cons c y => exact List.dropWhile_cons_of_neg (by simp [hblank (hy List.mem_cons_self)])
  rw [trim, hkept x (List.Subset.refl x), hkept x.reverse (List.reverse_subset.2 (List.Subset.refl x)),
    List.reverse_reverse]

/-! ## Values and their elements -/

/-- Cutting at a separator is splitting the list of characters there. -/
theorem cut_eq_splitOn (sep : Char) (t : Text) : cut sep t = t.splitOn sep := by
  induction t with
  | nil => rfl
  | cons c t ih =>
    obtain ⟨piece, rest, hrest⟩ := List.exists_cons_of_ne_nil (List.splitOn_ne_nil sep t)
    rw [cut, List.splitOn_cons_eq_if_modifyHead, ih, hrest]
    simp only [beq_iff_eq, List.modifyHead_cons]

/-- The pieces of a cut do not hold the separator. -/
theorem not_mem_of_mem_cut {piece : Text} (h : piece ∈ cut sep t) : sep ∉ piece := by
  induction t generalizing piece with
  | nil =>
    rw [cut, List.mem_singleton] at h
    simp [h]
  | cons c t ih =>
    obtain ⟨first, rest, hrest⟩ := List.exists_cons_of_ne_nil (List.splitOn_ne_nil sep t)
    rw [← cut_eq_splitOn] at hrest
    rw [cut] at h
    split at h
    case isTrue =>
      rcases List.mem_cons.1 h with rfl | h
      · exact List.not_mem_nil
      · exact ih h
    case isFalse hne =>
      rw [hrest] at h ih
      rcases List.mem_cons.1 h with rfl | h
      · simp [Ne.symm hne, ih List.mem_cons_self]
      · exact ih (List.mem_cons_of_mem _ h)

/-- Values that are joined on one line are cut as they are on lines of their own. -/
theorem cut_intercalate {values : List Text} (hne : values ≠ []) :
    cut sep (List.intercalate [sep] values) = values.flatMap (cut sep) := by
  induction values with
  | nil => exact absurd rfl hne
  | cons v values ih =>
    cases values with
    | nil => simp
    | cons w values =>
      rw [List.flatMap_cons, ← ih (List.cons_ne_nil _ _), List.intercalate_cons_cons,
        List.append_assoc, List.singleton_append]
      simp only [cut_eq_splitOn, List.splitOn_append_cons_self]

/-- The value has these elements: they hold no comma, and with commas between them they are the
value. -/
def HasElements (value : Text) (elements : List Text) : Prop :=
  elements ≠ [] ∧ (∀ e ∈ elements, ',' ∉ e) ∧ List.intercalate [','] elements = value

/-- A value has exactly one list of elements, which is the one it is cut into. -/
theorem hasElements_iff : value.HasElements elements ↔ cut ',' value = elements := by
  constructor
  · rintro ⟨hne, hcomma, rfl⟩
    rw [cut_eq_splitOn, List.splitOn_intercalate _ hcomma hne]
  · rintro rfl
    refine ⟨?_, fun e he => not_mem_of_mem_cut he, ?_⟩
    · rw [cut_eq_splitOn]
      exact List.splitOn_ne_nil _ _
    · rw [cut_eq_splitOn, List.intercalate_splitOn]

end Text

namespace Header

variable {h : Header} {name : Text} {elements : List Text}

/-- The lines of the name that can be read as text have these elements, one line after the other. -/
def Lists (h : Header) (name : Text) (elements : List Text) : Prop :=
  ∃ lines, List.Forall₂ Text.HasElements
    ((h.getAll name).filter fun value => value.all Text.isPlain) lines ∧ elements = lines.flatten

/-- The elements of a header are those of its plain values, in their order. -/
theorem elements_eq (h : Header) (name : Text) : h.elements name =
    (((h.getAll name).filter fun value => value.all Text.isPlain).map (Text.cut ',')).flatten := by
  have hreadable : readable? = Option.guard fun value => value.all Text.isPlain := by
    funext value
    rw [readable?, Option.guard]
  rw [elements, hreadable, List.filterMap_eq_filter, List.flatMap_def]

/-- The elements that are read are those that are listed. -/
theorem lists_iff : h.Lists name elements ↔ h.elements name = elements := by
  have hlines (values : List Text) (lines : List (List Text)) :
      List.Forall₂ Text.HasElements values lines ↔ values.map (Text.cut ',') = lines := by
    calc List.Forall₂ Text.HasElements values lines
        ↔ List.Forall₂ (fun value elements => Text.cut ',' value = elements) values lines := by
          simp only [← Text.hasElements_iff]
      _ ↔ List.Forall₂ Eq (values.map (Text.cut ',')) lines := List.forall₂_map_left_iff.symm
      _ ↔ values.map (Text.cut ',') = lines := by rw [List.forall₂_eq_eq_eq]
  rw [elements_eq]
  constructor
  · rintro ⟨lines, hall, rfl⟩
    rw [(hlines _ _).1 hall]
  · rintro rfl
    exact ⟨_, (hlines _ _).2 rfl, rfl⟩

end Header
end PooledHttp
