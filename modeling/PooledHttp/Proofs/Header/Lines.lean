import PooledHttp.Message
import PooledHttp.Proofs.Header.Announcements

/-!
# Header lines that are joined or split

On its way, lines of one name may be joined into one line, with commas between their values, and be
split again. The elements stay the same (`Header.elements_of_joined`), and so does what is read from
them. Whether the connection is to be closed depends only on the elements up to their order, letter
case and blanks; the idle time is not affected by elements of other names (`Header.lines_combine`).
-/

set_option autoImplicit false

namespace PooledHttp

namespace Text

variable {c : Char} {t x y : Text} {p : Text → Prop} {elements others : List Text}

/-- Letter case does not matter for whether a character is a blank. -/
theorem isBlank_toLower (c : Char) : isBlank c.toLower = isBlank c := by
  have hspace : c.toLower = ' ' ↔ c = ' ' :=
    ⟨eq_of_toLower_eq (by decide), by rintro rfl; decide⟩
  have htab : c.toLower = '\t' ↔ c = '\t' :=
    ⟨eq_of_toLower_eq (by decide), by rintro rfl; decide⟩
  rw [isBlank, isBlank, Bool.eq_iff_iff]
  simp [hspace, htab]

/-- Trimming and lower case can be done in either order. -/
theorem trim_lower (t : Text) : trim (lower t) = lower (trim t) := by
  have hblank : isBlank ∘ Char.toLower = isBlank := funext isBlank_toLower
  rw [trim, trim, lower, List.dropWhile_map, ← List.map_reverse, List.dropWhile_map,
    ← List.map_reverse, hblank]
  rfl

/-- Two elements that differ in letter case and in the blanks around them only. -/
def SameToken (x y : Text) : Prop :=
  ∃ lead core trail lead' core' trail' : Text,
    (∀ c ∈ lead ++ trail ++ lead' ++ trail', isBlank c = true) ∧
    x = lead ++ (core ++ trail) ∧ y = lead' ++ (core' ++ trail') ∧ lower core = lower core'

/-- The same token in other letters and blanks has the same trimmed lower case. -/
theorem SameToken.lower_trim_eq (h : SameToken x y) : lower (trim x) = lower (trim y) := by
  obtain ⟨lead, core, trail, lead', core', trail', hblank, rfl, rfl, hcore⟩ := h
  simp only [List.mem_append, or_imp, forall_and] at hblank
  obtain ⟨⟨⟨hlead, htrail⟩, hlead'⟩, htrail'⟩ := hblank
  rw [trim_append hlead htrail, trim_append hlead' htrail', ← trim_lower, ← trim_lower, hcore]

/-- The second list has the elements of the first one in their order, and anywhere among them others
of a certain kind. -/
inductive Inserts (p : Text → Prop) : List Text → List Text → Prop
  | nil : Inserts p [] []
  | keep (e : Text) {elements others : List Text} (h : Inserts p elements others) :
    Inserts p (e :: elements) (e :: others)
  | insert {e : Text} (he : p e) {elements others : List Text} (h : Inserts p elements others) :
    Inserts p elements (e :: others)

/-- Elements in which nothing is found change no search where they are inserted. -/
theorem Inserts.findSome?_eq {α : Type} {f : Text → Option α} (h : Inserts p elements others)
    (hnone : ∀ e, p e → f e = none) : others.findSome? f = elements.findSome? f := by
  induction h with
  | nil => rfl
  | keep e _ ih => rw [List.findSome?_cons, List.findSome?_cons, ih]
  | insert he _ ih => rw [List.findSome?_cons, hnone _ he, ih]

/-- Plain values joined by commas are plain. -/
theorem isPlain_of_mem_intercalate {values : List Text}
    (hplain : ∀ v ∈ values, v.all isPlain = true) :
    (List.intercalate [','] values).all isPlain = true := by
  induction values with
  | nil => rfl
  | cons v values ih =>
    have hv := hplain v List.mem_cons_self
    cases values with
    | nil => simpa using hv
    | cons w values =>
      rw [List.intercalate_cons_cons, List.all_append, List.all_append, hv,
        ih fun u hu => hplain u (List.mem_cons_of_mem _ hu)]
      decide

end Text

namespace KeepAlive

/-- The element's name, up to an equals sign or the parameters and without blanks around it, is
`timeout` in any letter case. -/
def IsNamed (element : Text) : Prop :=
  Text.lower (Text.trim (element.takeWhile fun c => c != '=' && c != ';')) = elementName

/-- Only elements of this name announce a time. -/
theorem Announcement.isNamed {n : Nat} (a : Announcement n) : IsNamed a.text := by
  have hequals : '=' ∉ a.lead ++ (a.name ++ a.gap) :=
    a.not_mem_front (by decide) (by decide) (by decide) (by decide)
  have hsemicolon : ';' ∉ a.lead ++ (a.name ++ a.gap) :=
    a.not_mem_front (by decide) (by decide) (by decide) (by decide)
  have hfront : a.text.takeWhile (fun c => c != '=' && c != ';') = a.lead ++ (a.name ++ a.gap) := by
    rw [text, List.append_assoc]
    apply Text.takeWhile_append_of_stop
    · intro c hc
      rw [Bool.and_eq_true, bne_iff_ne, bne_iff_ne]
      exact ⟨ne_of_mem_of_not_mem hc hequals, ne_of_mem_of_not_mem hc hsemicolon⟩
    · intro c hc
      obtain rfl : '=' = c := by simpa using hc
      decide
  rw [IsNamed, hfront, Text.trim_append a.lead_blank a.gap_blank, a.trim_name, a.name_eq]

/-- An element of another name gives no time. -/
theorem time?_eq_none_of_not_isNamed {element : Text} (h : ¬ IsNamed element) :
    time? element = none := by
  rw [time?_eq_none_iff]
  rintro ⟨n, ⟨a, rfl⟩, -⟩
  exact h a.isNamed

end KeepAlive

namespace Header

variable {h joined other : Header} {name : Text} {groups : List (List Text)}
  {elements mid others : List Text}

/-- Lines that are joined in groups have the elements that they have on lines of their own. -/
theorem elements_of_joined (hne : ∀ g ∈ groups, g ≠ [])
    (hplain : ∀ g ∈ groups, ∀ v ∈ g, v.all Text.isPlain = true)
    (hlines : h.getAll name = groups.flatten)
    (hjoined : joined.getAll name = groups.map (List.intercalate [','])) :
    joined.elements name = h.elements name := by
  have hall : ∀ v ∈ h.getAll name, v.all Text.isPlain = true := by
    intro v hv
    obtain ⟨g, hg, hvg⟩ := List.mem_flatten.1 (hlines ▸ hv)
    exact hplain g hg v hvg
  have hallJoined : ∀ v ∈ joined.getAll name, v.all Text.isPlain = true := by
    intro v hv
    obtain ⟨g, hg, rfl⟩ := List.mem_map.1 (hjoined ▸ hv)
    exact Text.isPlain_of_mem_intercalate (hplain g hg)
  rw [elements_eq, elements_eq, List.filter_eq_self.2 hall, List.filter_eq_self.2 hallJoined, hlines,
    hjoined]
  calc ((groups.map (List.intercalate [','])).map (Text.cut ',')).flatten
      = (groups.map fun g => g.flatMap (Text.cut ',')).flatten := by
        rw [List.map_map]
        congr 1
        apply List.map_congr_left
        exact fun g hg => Text.cut_intercalate (hne g hg)
    _ = (groups.flatten.map (Text.cut ',')).flatten := by
        rw [List.map_flatten, List.flatten_flatten, List.map_map]
        rfl

/-- The elements may be permuted, and each of them written in another way. -/
theorem wantsClose_of_perm (helements : h.Lists "connection".toList elements)
    (hothers : other.Lists "connection".toList others) (hperm : elements.Perm mid)
    (hsame : List.Forall₂ Text.SameToken mid others) : other.wantsClose = h.wantsClose := by
  rw [wantsClose, wantsClose, lists_iff.1 helements, lists_iff.1 hothers, hperm.any_eq]
  clear helements hothers hperm
  induction hsame with
  | nil => rfl
  | cons htoken _ ih =>
    rw [List.any_cons, List.any_cons, ih, Text.sameLetters, Text.sameLetters, htoken.lower_trim_eq]

/-- The lines of one name may be joined in any groups of lines that follow one another: neither the
idle time nor whether the connection is to be closed changes, as long as all of them can be read. The
elements of the `Connection` lines may stand in any order and be written in any letter case and with
any blanks around them. Among those of the `Keep-Alive` lines may be any others of another name. -/
theorem lines_combine (policy : KeepAlive) :
    (∀ (h joined : Header) (groups : List (List Text)), (∀ g ∈ groups, g ≠ []) →
      (∀ g ∈ groups, ∀ v ∈ g, v.all Text.isPlain = true) →
        (h.getAll "keep-alive".toList = groups.flatten →
          joined.getAll "keep-alive".toList = groups.map (List.intercalate [',']) →
          policy.duration joined = policy.duration h) ∧
        (h.getAll "connection".toList = groups.flatten →
          joined.getAll "connection".toList = groups.map (List.intercalate [',']) →
          joined.wantsClose = h.wantsClose)) ∧
    (∀ (h other : Header) (elements mid others : List Text),
      h.Lists "connection".toList elements → other.Lists "connection".toList others →
      elements.Perm mid → List.Forall₂ Text.SameToken mid others →
      other.wantsClose = h.wantsClose) ∧
    (∀ (h other : Header) (elements others : List Text),
      h.Lists "keep-alive".toList elements → other.Lists "keep-alive".toList others →
      Text.Inserts (fun e => ¬ KeepAlive.IsNamed e) elements others →
      policy.duration other = policy.duration h) := by
  refine ⟨?_, ?_, ?_⟩
  · intro h joined groups hne hplain
    constructor
    · intro hlines hjoined
      rw [KeepAlive.duration, elements_of_joined hne hplain hlines hjoined, KeepAlive.duration]
    · intro hlines hjoined
      rw [wantsClose, elements_of_joined hne hplain hlines hjoined, wantsClose]
  · intro h other elements mid others helements hothers hperm hsame
    exact wantsClose_of_perm helements hothers hperm hsame
  · intro h other elements others helements hothers hinserts
    have hfirst := hinserts.findSome?_eq fun e => KeepAlive.time?_eq_none_of_not_isNamed
    rw [KeepAlive.duration, KeepAlive.duration, lists_iff.1 helements, lists_iff.1 hothers, hfirst]

/-- Lines with an empty element and one of blanks only are joined; then the elements of `Connection` are
written the other way round, and one of another name is put in front of the time. -/
theorem lines_combine_proxied :
    let h : Header := ⟨[("keep-alive".toList, "timeout=x,".toList),
      ("connection".toList, "upgrade".toList), ("keep-alive".toList, " ".toList),
      ("connection".toList, " Close\t".toList), ("keep-alive".toList, "Timeout=4".toList)]⟩
    let joined : Header := ⟨[("keep-alive".toList, "timeout=x,, ".toList),
      ("connection".toList, "upgrade, Close\t".toList), ("keep-alive".toList, "Timeout=4".toList)]⟩
    let other : Header := ⟨[("connection".toList, "CLOSE,Upgrade ".toList),
      ("keep-alive".toList, "timeout=x,, ,max=9,Timeout=4".toList)]⟩
    (KeepAlive.standard.duration joined = KeepAlive.standard.duration h ∧
      joined.wantsClose = h.wantsClose) ∧
    other.wantsClose = h.wantsClose ∧
    KeepAlive.standard.duration other = KeepAlive.standard.duration h := by
  intro h joined other
  obtain ⟨hgroups, hperm, hinserts⟩ := lines_combine KeepAlive.standard
  have hclose : Text.SameToken " Close\t".toList "CLOSE".toList :=
    ⟨[' '], "Close".toList, ['\t'], [], "CLOSE".toList, [], by simp [Text.isBlank], rfl, rfl,
      by decide⟩
  have hupgrade : Text.SameToken "upgrade".toList "Upgrade ".toList :=
    ⟨[], "upgrade".toList, [], [], "Upgrade".toList, [' '], by simp [Text.isBlank], rfl, rfl,
      by decide⟩
  have hmax : ¬ KeepAlive.IsNamed "max=9".toList := by
    unfold KeepAlive.IsNamed
    decide
  refine ⟨⟨?_, ?_⟩, ?_, ?_⟩
  · exact (hgroups h joined [["timeout=x,".toList, " ".toList], ["Timeout=4".toList]] (by decide)
      (by decide)).1 (by decide) (by decide)
  · exact (hgroups h joined [["upgrade".toList, " Close\t".toList]] (by decide) (by decide)).2
      (by decide) (by decide)
  · exact hperm h other ["upgrade".toList, " Close\t".toList] [" Close\t".toList, "upgrade".toList]
      ["CLOSE".toList, "Upgrade ".toList] (lists_iff.2 (by decide)) (lists_iff.2 (by decide))
      (.swap _ _ _) (.cons hclose (.cons hupgrade .nil))
  · exact hinserts h other ["timeout=x".toList, [], " ".toList, "Timeout=4".toList]
      ["timeout=x".toList, [], " ".toList, "max=9".toList, "Timeout=4".toList]
      (lists_iff.2 (by decide)) (lists_iff.2 (by decide))
      (.keep _ (.keep _ (.keep _ (.insert hmax (.keep _ .nil)))))

end Header
end PooledHttp
