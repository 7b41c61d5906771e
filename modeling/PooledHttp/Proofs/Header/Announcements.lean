import PooledHttp.KeepAlive
import PooledHttp.Proofs.Header.Elements

/-!
# How a server announces the idle time

An element that announces a time has the form `timeout=n`, and may go on with parameters after a
semicolon. Its name may be in any letter case, blanks may stand around name and value, and the value
is a number, with or without a `+` in front of it, bare or in one pair of quotes. `Announcement n` has
all parts of such an element as they are written.

The elements in which seconds can be read are exactly the announcements of a number that fits a word
(`KeepAlive.seconds?_text`, `KeepAlive.exists_of_seconds?`), and their time is used when its
milliseconds fit a word as well (`KeepAlive.time?_eq_some_iff`). The first element whose time is used decides
(`KeepAlive.first_announcement_decides`).
-/

set_option autoImplicit false

namespace PooledHttp

namespace Text

variable {sep mark : Char} {t x y : Text}

/-- A text is cut at its first separator. -/
theorem cutOnce?_append (hx : sep ∉ x) : cutOnce? sep (x ++ sep :: y) = some (x, y) := by
  induction x with
  | nil => simp [cutOnce?]
  | cons c x ih =>
    rw [List.mem_cons, not_or] at hx
    rw [List.cons_append, cutOnce?, if_neg (Ne.symm hx.1), ih hx.2]
    rfl

/-- The two pieces of a cut make up the text with the separator between them. -/
theorem eq_of_cutOnce? (h : cutOnce? sep t = some (x, y)) : t = x ++ sep :: y := by
  induction t generalizing x with
  | nil => cases h
  | cons c t ih =>
    rw [cutOnce?] at h
    split at h
    case isTrue hc =>
      cases h
      rw [hc, List.nil_append]
    case isFalse =>
      obtain ⟨⟨x', y'⟩, hcut, hpieces⟩ := Option.map_eq_some_iff.1 h
      cases hpieces
      rw [ih hcut, List.cons_append]

/-- A mark is dropped in front exactly if it stands there. -/
theorem dropFront?_eq_some_iff : dropFront? mark t = some x ↔ t = mark :: x := by
  cases t with
  | nil => simp [dropFront?]
  | cons c t => simp [dropFront?]

/-- A mark is dropped at the end exactly if it stands there. -/
theorem dropBack?_eq_some_iff : dropBack? mark t = some x ↔ t = x ++ [mark] := by
  rw [dropBack?, Option.map_eq_some_iff]
  constructor
  · rintro ⟨y, hy, rfl⟩
    rw [← List.reverse_cons, ← dropFront?_eq_some_iff.1 hy, List.reverse_reverse]
  · rintro rfl
    exact ⟨x.reverse, dropFront?_eq_some_iff.2 (by simp), List.reverse_reverse x⟩

/-- Quotes around a text are taken off. -/
theorem unquote_quoted (t : Text) : unquote ('"' :: (t ++ ['"'])) = t := by
  rw [unquote, dropFront?_eq_some_iff.2 rfl, Option.bind_some, dropBack?_eq_some_iff.2 rfl,
    Option.getD_some]

/-- A text without quotes stays as it is. -/
theorem unquote_of_not_mem (ht : '"' ∉ t) : unquote t = t := by
  have hnone : dropFront? '"' t = none := by
    rw [Option.eq_none_iff_forall_ne_some]
    rintro x hx
    simp [dropFront?_eq_some_iff.1 hx] at ht
  rw [unquote, hnone, Option.bind_none, Option.getD_none]

/-- A text is what is left without quotes, bare or between two of them. -/
theorem eq_unquote_or (t : Text) : t = unquote t ∨ t = '"' :: (unquote t ++ ['"']) := by
  cases h : (dropFront? '"' t).bind (dropBack? '"') with
  | none => exact .inl (by rw [unquote, h, Option.getD_none])
  | some inner =>
    obtain ⟨rest, hrest, hinner⟩ := Option.bind_eq_some_iff.1 h
    refine .inr ?_
    rw [unquote, h, Option.getD_some, ← dropBack?_eq_some_iff.1 hinner]
    exact dropFront?_eq_some_iff.1 hrest

end Text

namespace KeepAlive

/-- An element that announces `n` seconds, by its parts: blanks, the name, blanks up to the equals
sign, blanks, the number with or without quotes, blanks, and parameters. -/
structure Announcement (n : Nat) where
  lead : Text
  name : Text
  gap : Text
  pad : Text
  numeral : Text
  quoted : Bool
  trail : Text
  params : Option Text
  lead_blank : ∀ c ∈ lead, Text.isBlank c = true
  gap_blank : ∀ c ∈ gap, Text.isBlank c = true
  pad_blank : ∀ c ∈ pad, Text.isBlank c = true
  trail_blank : ∀ c ∈ trail, Text.isBlank c = true
  name_eq : Text.lower name = elementName
  denotes : Decimal.Denotes numeral n

namespace Announcement

variable {n : Nat} {c : Char}

/-- The value as it is written. -/
def value (a : Announcement n) : Text :=
  if a.quoted then '"' :: (a.numeral ++ ['"']) else a.numeral

/-- The element. -/
def text (a : Announcement n) : Text :=
  a.lead ++ (a.name ++ a.gap) ++ '=' :: (a.pad ++ (a.value ++ a.trail)) ++ Text.behind ';' a.params

/-- Only letters stand in the name of an announcement. -/
theorem not_mem_name (a : Announcement n) (hlower : c.isLower = false) (hupper : c.isUpper = false)
    (hc : c ∉ elementName) : c ∉ a.name := by
  rwa [← Text.mem_lower_iff hlower hupper, a.name_eq]

/-- The name of an announcement has no blanks around it. -/
theorem trim_name (a : Announcement n) : Text.trim a.name = a.name :=
  Text.trim_eq_self (a.not_mem_name (by decide) (by decide) (by decide))
    (a.not_mem_name (by decide) (by decide) (by decide))

/-- What stands in front of the equals sign has no characters besides those of the name and blanks. -/
theorem not_mem_front (a : Announcement n) (hlower : c.isLower = false) (hupper : c.isUpper = false)
    (hc : c ∉ elementName) (hblank : Text.isBlank c = false) : c ∉ a.lead ++ (a.name ++ a.gap) := by
  simp only [List.mem_append, not_or]
  exact ⟨Text.not_mem_of_forall a.lead_blank hblank, a.not_mem_name hlower hupper hc,
    Text.not_mem_of_forall a.gap_blank hblank⟩

/-- The value of an announcement holds digits, a plus sign and quotes only. -/
theorem not_mem_value (a : Announcement n) (hdigit : c.isDigit = false) (hplus : c ≠ '+')
    (hquote : c ≠ '"') : c ∉ a.value := by
  have hnot := a.denotes.not_mem hdigit hplus
  unfold value
  split <;> simp [hnot, hquote]

/-- The value of an announcement has no blanks around it. -/
theorem trim_value (a : Announcement n) : Text.trim a.value = a.value :=
  Text.trim_eq_self (a.not_mem_value (by decide) (by decide) (by decide))
    (a.not_mem_value (by decide) (by decide) (by decide))

/-- The value of an announcement is its numeral, quoted or not. -/
theorem unquote_value (a : Announcement n) : Text.unquote a.value = a.numeral := by
  unfold value
  split
  · exact Text.unquote_quoted a.numeral
  · exact Text.unquote_of_not_mem (a.denotes.not_mem (by decide) (by decide))

/-- An announcement is cut at its first equals sign into name and value with their blanks. -/
theorem cut_text (a : Announcement n) : Text.cutOnce? '=' (a.text.takeWhile (· != ';')) =
    some (a.lead ++ (a.name ++ a.gap), a.pad ++ (a.value ++ a.trail)) := by
  -- the first semicolon stands in front of the parameters, and the first equals sign behind the name
  have hvalue : ';' ∉ a.pad ++ (a.value ++ a.trail) := by
    simp only [List.mem_append, not_or]
    exact ⟨Text.not_mem_of_forall a.pad_blank (by decide),
      a.not_mem_value (by decide) (by decide) (by decide),
      Text.not_mem_of_forall a.trail_blank (by decide)⟩
  have hsemicolon : ';' ∉ a.lead ++ (a.name ++ a.gap) ++ '=' :: (a.pad ++ (a.value ++ a.trail)) := by
    rw [List.mem_append, List.mem_cons, not_or, not_or]
    exact ⟨a.not_mem_front (by decide) (by decide) (by decide) (by decide), by decide, hvalue⟩
  rw [text, Text.takeWhile_ne_append hsemicolon fun c hc => Text.eq_of_head?_behind hc]
  exact Text.cutOnce?_append (a.not_mem_front (by decide) (by decide) (by decide) (by decide))

end Announcement

variable {n : Nat} {element : Text} {time : Millis}

/-- The seconds of an announcement are read when they fit a word. -/
theorem seconds?_text (a : Announcement n) (hn : n ≤ Decimal.maxWord) : seconds? a.text = some n := by
  have hname : Text.sameLetters (Text.trim (a.lead ++ (a.name ++ a.gap))) elementName = true := by
    rw [Text.trim_append a.lead_blank a.gap_blank, a.trim_name, Text.sameLetters, a.name_eq]
    decide
  have hvalue : Text.unquote (Text.trim (a.pad ++ (a.value ++ a.trail))) = a.numeral := by
    rw [Text.trim_append a.pad_blank a.trail_blank, a.trim_value, a.unquote_value]
  simp only [seconds?, a.cut_text, hname, hvalue, if_true]
  exact Decimal.read?_eq_some_iff.2 ⟨a.denotes, hn⟩

/-- Where seconds can be read, there is an announcement of them. -/
theorem exists_of_seconds? (h : seconds? element = some n) :
    n ≤ Decimal.maxWord ∧ ∃ a : Announcement n, a.text = element := by
  unfold seconds? at h
  split at h
  case h_1 => cases h
  case h_2 name value hcut =>
    split at h
    case isFalse => cases h
    case isTrue hname =>
      obtain ⟨hdenotes, hle⟩ := Decimal.read?_eq_some_iff.1 h
      obtain ⟨params, hparams⟩ := Text.exists_behind ';' element
      obtain ⟨lead, gap, hlead, hgap, hnameText⟩ := Text.exists_blanks name
      obtain ⟨pad, trail, hpad, htrail, hvalueText⟩ := Text.exists_blanks value
      have hlower : Text.lower (Text.trim name) = elementName := by
        rw [Text.sameLetters, beq_iff_eq] at hname
        exact hname.trans (by decide)
      let bare : Announcement n := ⟨lead, Text.trim name, gap, pad, Text.unquote (Text.trim value),
        false, trail, params, hlead, hgap, hpad, htrail, hlower, hdenotes⟩
      have htext (written : Text) (hwritten : written = Text.trim value) : element =
          lead ++ (Text.trim name ++ gap) ++ '=' :: (pad ++ (written ++ trail)) ++
            Text.behind ';' params := by
        rw [hwritten, ← hnameText, ← hvalueText, ← Text.eq_of_cutOnce? hcut]
        exact hparams
      refine ⟨hle, ?_⟩
      rcases Text.eq_unquote_or (Text.trim value) with hvalue | hvalue
      · exact ⟨bare, (htext _ hvalue.symm).symm⟩
      · exact ⟨{ bare with quoted := true }, (htext _ hvalue.symm).symm⟩

/-- The time of an element is used when the element announces a number of seconds whose milliseconds
fit a word. -/
theorem time?_eq_some_iff : time? element = some time ↔
    ∃ n, (∃ a : Announcement n, a.text = element) ∧ 1000 * n < 2 ^ 64 ∧ time = 1000 * n := by
  have hword : Decimal.maxWord = 2 ^ 64 - 1 := rfl
  rw [time?, Option.bind_eq_some_iff]
  constructor
  · rintro ⟨n, hseconds, hmillis⟩
    obtain ⟨-, hannounced⟩ := exists_of_seconds? hseconds
    unfold millis? at hmillis
    split at hmillis
    case isFalse => cases hmillis
    case isTrue hfits =>
      obtain rfl := Option.some.inj hmillis
      exact ⟨n, hannounced, by omega, Nat.mul_comm n 1000⟩
  · rintro ⟨n, ⟨a, rfl⟩, hfits, rfl⟩
    refine ⟨n, seconds?_text a (by omega), ?_⟩
    rw [millis?, if_pos (by omega), Nat.mul_comm]

/-- The element announces a number of seconds whose milliseconds fit a word. -/
def IsUsable (element : Text) : Prop :=
  ∃ n, (∃ a : Announcement n, a.text = element) ∧ 1000 * n < 2 ^ 64

/-- An element gives no time exactly if it is not usable. -/
theorem time?_eq_none_iff : time? element = none ↔ ¬ IsUsable element := by
  rw [Option.eq_none_iff_forall_ne_some]
  constructor
  · rintro hnone ⟨n, hannounced, hfits⟩
    exact hnone _ (time?_eq_some_iff.2 ⟨n, hannounced, hfits, rfl⟩)
  · rintro hnot time htime
    obtain ⟨n, hannounced, hfits, -⟩ := time?_eq_some_iff.1 htime
    exact hnot ⟨n, hannounced, hfits⟩

/-- Of the elements of the `Keep-Alive` lines, those that announce no time, or one that does not fit,
are passed over; the first other one decides, with exactly the time that it announces. Without one the
fallback holds. -/
theorem first_announcement_decides (policy : KeepAlive) {h : Header} {elements : List Text}
    (helements : h.Lists "keep-alive".toList elements) :
    (∀ (n : Nat) (a : Announcement n) (before after : List Text),
      elements = before ++ a.text :: after → (∀ e ∈ before, ¬ IsUsable e) → 1000 * n < 2 ^ 64 →
      policy.duration h = 1000 * n) ∧
    ((∀ e ∈ elements, ¬ IsUsable e) → policy.duration h = policy.fallback) := by
  rw [duration, Header.lists_iff.1 helements]
  constructor
  · rintro n a before after rfl hbefore hfits
    have hfirst : (before ++ a.text :: after).findSome? time? = some (1000 * n) := by
      refine List.findSome?_eq_some_iff.2 ⟨before, a.text, after, rfl, ?_, ?_⟩
      · exact time?_eq_some_iff.2 ⟨n, ⟨a, rfl⟩, hfits, rfl⟩
      · exact fun e he => time?_eq_none_iff.2 (hbefore e he)
    rw [hfirst, Option.getD_some]
  · intro hnone
    have hunused : elements.findSome? time? = none :=
      List.findSome?_eq_none_iff.2 fun e he => time?_eq_none_iff.2 (hnone e he)
    rw [hunused, Option.getD_none]

/-- A number that does not fit, a line that cannot be read, and then seven seconds with blanks, a plus
sign, quotes and a parameter. -/
theorem first_announcement_decides_quoted :
    let h : Header := ⟨[("keep-alive".toList, "max=5, timeout=99999999999999999999".toList),
      ("keep-alive".toList, "é, timeout=1".toList),
      ("keep-alive".toList, ",TimeOut =\t\"+07\" ;x=1, timeout=9".toList)]⟩
    KeepAlive.standard.duration h = 7000 := by
  intro h
  let a : Announcement 7 :=
    { lead := [], name := "TimeOut".toList, gap := [' '], pad := ['\t'], numeral := "+07".toList
      quoted := true, trail := [' '], params := some "x=1".toList
      lead_blank := by simp
      gap_blank := by simp [Text.isBlank]
      pad_blank := by simp [Text.isBlank]
      trail_blank := by simp [Text.isBlank]
      name_eq := by decide
      denotes := ⟨"07".toList, .inr rfl, by decide, by decide⟩ }
  let before : List Text := ["max=5".toList, " timeout=99999999999999999999".toList, []]
  have helements : h.Lists "keep-alive".toList (before ++ a.text :: [" timeout=9".toList]) :=
    Header.lists_iff.2 (by decide)
  have hbefore : ∀ e ∈ before, ¬ IsUsable e := by
    have hnone : ∀ e ∈ before, time? e = none := by decide
    exact fun e he => time?_eq_none_iff.1 (hnone e he)
  exact (first_announcement_decides .standard helements).1 7 a before _ rfl hbefore (by decide)

end KeepAlive
end PooledHttp
