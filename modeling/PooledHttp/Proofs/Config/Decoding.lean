import Mathlib.Data.List.Nodup
import PooledHttp.Config.Codec

/-!
# Configurations as they are read

A configuration has seven settings, and each of them has a name, a largest number, a standard number
and a value in a configuration: `settings` is the table of these. What is read from named fields is told
by what the fields hold under the name of each setting (`ofFields?_eq_some_iff`,
`isSome_ofFields?_iff`), and so neither their order nor any other field matters.

A list is read on its own, item by item, and comes to the same as the fields that give its items the
names of the settings, in order (`ofItems?_eq`).
-/

set_option autoImplicit false

namespace PooledHttp

namespace Value

/-- Two numbers are written alike only if they are the same. -/
theorem ofNat_inj {m n : ℕ} : ofNat m = ofNat n ↔ m = n := by
  rw [ofNat, ofNat, integer.injEq, Int.ofNat_inj]

/-- A natural number is read from the value that holds it, if it is within the limit. -/
theorem natural?_eq_some_iff {limit n : ℕ} {v : Value} :
    v.natural? limit = some n ↔ v = ofNat n ∧ n ≤ limit := by
  unfold natural?
  split
  case h_1 m =>
    have hm : Value.integer (.ofNat m) = ofNat m := rfl
    rw [hm, ofNat_inj]
    split
    case isTrue hle =>
      rw [Option.some_inj]
      exact ⟨fun h => ⟨h, h ▸ hle⟩, fun h => h.1⟩
    case isFalse hlarge =>
      refine ⟨nofun, ?_⟩
      rintro ⟨rfl, hle⟩
      exact absurd hle hlarge
  case h_2 hother =>
    refine ⟨nofun, ?_⟩
    rintro ⟨rfl, -⟩
    exact absurd rfl (hother n)

end Value

namespace Configuration

/-- What is particular to a setting. -/
structure Setting where
  name : String
  /-- The largest number that the setting can be. -/
  largest : ℕ
  /-- The number that the setting is when it is absent. -/
  standard : ℕ
  /-- What the setting is in a configuration. -/
  value : Configuration → ℕ

/-- The settings, in order. -/
def settings : List Setting :=
  [⟨"max_per_route", UInt64.size - 1, 25, fun c => c.maxPerRoute.toNat⟩,
    ⟨"max_total", UInt64.size - 1, 50, fun c => c.maxTotal.toNat⟩,
    ⟨"socket_timeout_ms", UInt64.size - 1, 50000, fun c => c.socketTimeout.toNat⟩,
    ⟨"connect_timeout_ms", UInt64.size - 1, 5000, fun c => c.connectTimeout.toNat⟩,
    ⟨"connection_request_timeout_ms", UInt64.size - 1, 5000,
      fun c => c.connectionRequestTimeout.toNat⟩,
    ⟨"request_socket_timeout_ms", UInt64.size - 1, 50000, fun c => c.requestSocketTimeout.toNat⟩,
    ⟨"max_execution_count", UInt32.size - 1, 100, fun c => c.maxExecutionCount.toNat⟩]

/-- The table gives the defaults that the standard configuration has. -/
theorem value_standard : ∀ s ∈ settings, s.value standard = s.standard := by
  simp [settings, standard]

/-- A value that the setting can be read from: a natural number of its width. -/
def Setting.Fits (s : Setting) (v : Value) : Prop := ∃ n, v = .ofNat n ∧ n ≤ s.largest

/-- No setting is given twice. Other fields may be. -/
def GivenOnce (fields : List (String × Value)) : Prop :=
  ∀ s ∈ settings, (fields.map Prod.fst).count s.name ≤ 1

variable {α : Type} {read? : Value → Option α} {toNat : α → ℕ} {largest : ℕ} {x standard' : α}
  {fields others : List (String × Value)} {key : String} {v : Value} {c : Configuration}

/-! ## Numbers of a width -/

/-- The numbers up to `largest` are read from the values that hold them, and from no others. -/
structure Reads (read? : Value → Option α) (toNat : α → ℕ) (largest : ℕ) : Prop where
  eq_some_iff : ∀ v x, read? v = some x ↔ v = .ofNat (toNat x)
  exists_iff : ∀ n, (∃ x, toNat x = n) ↔ n ≤ largest

/-- Numbers of a width are read when reading is the inverse of their value up to the largest. -/
theorem Reads.of_inverse {ofNat : ℕ → α} (hvalue : ∀ x, ofNat (toNat x) = x)
    (hle : ∀ x, toNat x ≤ largest) (hnumber : ∀ n ≤ largest, toNat (ofNat n) = n) :
    Reads (fun v => (v.natural? largest).map ofNat) toNat largest where
  eq_some_iff v x := by
    rw [Option.map_eq_some_iff]
    constructor
    · rintro ⟨n, hn, rfl⟩
      obtain ⟨rfl, hfits⟩ := Value.natural?_eq_some_iff.1 hn
      rw [hnumber n hfits]
    · rintro rfl
      exact ⟨toNat x, Value.natural?_eq_some_iff.2 ⟨rfl, hle x⟩, hvalue x⟩
  exists_iff n := by
    constructor
    · rintro ⟨x, rfl⟩
      exact hle x
    · exact fun hn => ⟨ofNat n, hnumber n hn⟩

/-- The wide numbers are read up to the largest of 64 bits. -/
theorem reads_wide : Reads wide? UInt64.toNat (UInt64.size - 1) :=
  .of_inverse (fun _ => UInt64.ofNat_toNat) (fun x => Nat.le_pred_of_lt x.toNat_lt)
    fun _ hn => UInt64.toNat_ofNat_of_lt' (Nat.lt_of_le_pred (by decide) hn)

/-- The narrow numbers are read up to the largest of 32 bits. -/
theorem reads_narrow : Reads narrow? UInt32.toNat (UInt32.size - 1) :=
  .of_inverse (fun _ => UInt32.ofNat_toNat) (fun x => Nat.le_pred_of_lt x.toNat_lt)
    fun _ hn => UInt32.toNat_ofNat_of_lt' (Nat.lt_of_le_pred (by decide) hn)

/-- Two numbers of a width are the same if their values are. -/
theorem Reads.toNat_inj (h : Reads read? toNat largest) {y : α} : toNat x = toNat y ↔ x = y := by
  constructor
  · intro heq
    have hx : read? (.ofNat (toNat y)) = some x := (h.eq_some_iff _ x).2 (congrArg _ heq.symm)
    have hy : read? (.ofNat (toNat y)) = some y := (h.eq_some_iff _ y).2 rfl
    exact Option.some.inj (hx.symm.trans hy)
  · exact congrArg toNat

/-! ## Named fields -/

/-- The values of a key are those that a field gives for it. -/
theorem mem_valuesOf : v ∈ valuesOf fields key ↔ (key, v) ∈ fields := by
  simp [valuesOf]

/-- There is no value of a key exactly if no field gives one. -/
theorem valuesOf_eq_nil_iff : valuesOf fields key = [] ↔ ∀ v, (key, v) ∉ fields := by
  simp [List.eq_nil_iff_forall_not_mem, mem_valuesOf]

/-- There are as many values under a name as fields with this name. -/
theorem length_valuesOf : (valuesOf fields key).length = (fields.map Prod.fst).count key := by
  rw [valuesOf, List.length_map, ← List.countP_eq_length_filter, List.count, List.countP_map]
  rfl

/-- A name that stands only once stands for one value. -/
theorem valuesOf_of_mem (honce : (fields.map Prod.fst).count key ≤ 1) (hv : (key, v) ∈ fields) :
    valuesOf fields key = [v] := by
  rw [← length_valuesOf] at honce
  have hmem : v ∈ valuesOf fields key := mem_valuesOf.2 hv
  match h : valuesOf fields key with
  | [] => simp [h] at hmem
  | [u] => simpa [h, eq_comm] using hmem
  | _ :: _ :: _ => simp [h] at honce

/-- A field is its default if the key is absent, or what its only value holds. -/
theorem Reads.field?_eq_some_iff (h : Reads read? toNat largest) :
    field? read? fields key standard' = some x ↔
      (valuesOf fields key = [] ∧ toNat x = toNat standard') ∨
        valuesOf fields key = [.ofNat (toNat x)] := by
  unfold field?
  split
  case h_1 hnone => simp [hnone, h.toNat_inj, eq_comm]
  case h_2 v hone => simp [hone, h.eq_some_iff]
  case h_3 hnone hone =>
    refine ⟨nofun, ?_⟩
    rintro (⟨hnil, -⟩ | hvalue)
    · exact absurd hnil hnone
    · exact absurd hvalue (hone _)

/-- A field can be read exactly if the key is absent or its only value is a number that fits. -/
theorem Reads.isSome_field?_iff (h : Reads read? toNat largest) :
    (field? read? fields key standard').isSome ↔
      valuesOf fields key = [] ∨ ∃ n ≤ largest, valuesOf fields key = [.ofNat n] := by
  rw [Option.isSome_iff_exists]
  simp only [h.field?_eq_some_iff, exists_or]
  refine or_congr ⟨?_, fun hnone => ⟨standard', hnone, rfl⟩⟩ ⟨?_, ?_⟩
  · exact fun ⟨_, hnone, _⟩ => hnone
  · exact fun ⟨x, hvalue⟩ => ⟨toNat x, (h.exists_iff _).1 ⟨x, rfl⟩, hvalue⟩
  · rintro ⟨n, hn, hvalue⟩
    obtain ⟨x, rfl⟩ := (h.exists_iff n).2 hn
    exact ⟨x, hvalue⟩

/-- A configuration is read from fields when each setting is read from its own. -/
theorem ofFields?_eq_some :
    ofFields? fields = some c ↔
      field? wide? fields "max_per_route" standard.maxPerRoute = some c.maxPerRoute ∧
      field? wide? fields "max_total" standard.maxTotal = some c.maxTotal ∧
      field? wide? fields "socket_timeout_ms" standard.socketTimeout = some c.socketTimeout ∧
      field? wide? fields "connect_timeout_ms" standard.connectTimeout = some c.connectTimeout ∧
      field? wide? fields "connection_request_timeout_ms" standard.connectionRequestTimeout =
        some c.connectionRequestTimeout ∧
      field? wide? fields "request_socket_timeout_ms" standard.requestSocketTimeout =
        some c.requestSocketTimeout ∧
      field? narrow? fields "max_execution_count" standard.maxExecutionCount =
        some c.maxExecutionCount := by
  simp only [ofFields?, Option.bind_eq_bind, Option.bind_eq_some_iff, Option.pure_def,
    Option.some_inj]
  constructor
  · rintro ⟨a, ha, b, hb, d, hd, e, he, f, hf, g, hg, i, hi, rfl⟩
    exact ⟨ha, hb, hd, he, hf, hg, hi⟩
  · rintro ⟨ha, hb, hd, he, hf, hg, hi⟩
    exact ⟨_, ha, _, hb, _, hd, _, he, _, hf, _, hg, _, hi, rfl⟩

/-- A configuration is read from the fields if each setting is in it what they hold under its name,
which is one number, or is standard when they hold nothing there. -/
theorem ofFields?_eq_some_iff :
    ofFields? fields = some c ↔ ∀ s ∈ settings,
      (valuesOf fields s.name = [] ∧ s.value c = s.value standard) ∨
        valuesOf fields s.name = [.ofNat (s.value c)] := by
  simp only [ofFields?_eq_some, reads_wide.field?_eq_some_iff, reads_narrow.field?_eq_some_iff,
    settings, List.forall_mem_cons, List.not_mem_nil, false_imp_iff, implies_true, and_true]

/-- The fields can be read if they hold a number of its width, or nothing, for every setting. -/
theorem isSome_ofFields?_iff :
    (ofFields? fields).isSome ↔ ∀ s ∈ settings,
      valuesOf fields s.name = [] ∨ ∃ n ≤ s.largest, valuesOf fields s.name = [.ofNat n] := by
  have hparts : (ofFields? fields).isSome ↔
      (field? wide? fields "max_per_route" standard.maxPerRoute).isSome ∧
      (field? wide? fields "max_total" standard.maxTotal).isSome ∧
      (field? wide? fields "socket_timeout_ms" standard.socketTimeout).isSome ∧
      (field? wide? fields "connect_timeout_ms" standard.connectTimeout).isSome ∧
      (field? wide? fields "connection_request_timeout_ms"
        standard.connectionRequestTimeout).isSome ∧
      (field? wide? fields "request_socket_timeout_ms" standard.requestSocketTimeout).isSome ∧
      (field? narrow? fields "max_execution_count" standard.maxExecutionCount).isSome := by
    simp only [Option.isSome_iff_exists, ofFields?_eq_some]
    constructor
    · rintro ⟨c, ha, hb, hd, he, hf, hg, hi⟩
      exact ⟨⟨_, ha⟩, ⟨_, hb⟩, ⟨_, hd⟩, ⟨_, he⟩, ⟨_, hf⟩, ⟨_, hg⟩, ⟨_, hi⟩⟩
    · rintro ⟨⟨a, ha⟩, ⟨b, hb⟩, ⟨d, hd⟩, ⟨e, he⟩, ⟨f, hf⟩, ⟨g, hg⟩, ⟨i, hi⟩⟩
      exact ⟨⟨a, b, d, e, f, g, i⟩, ha, hb, hd, he, hf, hg, hi⟩
  simp only [hparts, reads_wide.isSome_field?_iff, reads_narrow.isSome_field?_iff, settings,
    List.forall_mem_cons, List.not_mem_nil, false_imp_iff, implies_true, and_true]

/-! ## Lists -/

/-- The settings have different names. -/
theorem nodup_keys : keys.Nodup := by decide

/-- Items that are given names in order get different ones. -/
theorem nodup_names_zip (items : List Value) : ((keys.zip items).map Prod.fst).Nodup := by
  rw [List.zip_eq_zip_take_min, List.map_fst_zip (by simp)]
  exact (List.take_sublist _ _).nodup nodup_keys

/-- The item at the place of a name is its value. -/
theorem mem_zip_iff {items : List Value} {i : ℕ} (hi : keys[i]? = some key) :
    (key, v) ∈ keys.zip items ↔ items[i]? = some v := by
  rw [List.mem_iff_getElem?]
  constructor
  · rintro ⟨j, hj⟩
    obtain ⟨hkey, hv⟩ := List.getElem?_zip_eq_some.1 hj
    have hlt : i < keys.length := (List.getElem?_eq_some_iff.1 hi).1
    obtain rfl := (List.getElem?_inj hlt nodup_keys).1 (hi.trans hkey.symm)
    exact hv
  · exact fun hv => ⟨i, List.getElem?_zip_eq_some.2 ⟨hi, hv⟩⟩

/-- The item at a place of a list is what the fields hold under the name at this place. -/
theorem field?_zip (items : List Value) (i : ℕ) (hi : keys[i]? = some key) :
    field? read? (keys.zip items) key standard' = items[i]?.elim (some standard') read? := by
  unfold field?
  cases hitem : items[i]? with
  | none =>
    have hnone : valuesOf (keys.zip items) key = [] := by
      refine valuesOf_eq_nil_iff.2 fun v hv => ?_
      simp [(mem_zip_iff hi).1 hv] at hitem
    rw [hnone, Option.elim_none]
  | some v =>
    have hone : valuesOf (keys.zip items) key = [v] :=
      valuesOf_of_mem (List.nodup_iff_count_le_one.1 (nodup_names_zip items) key)
        ((mem_zip_iff hi).2 hitem)
    rw [hone, Option.elim_some]

/-- Reading on from a place in a list. -/
theorem item?_drop (items : List Value) (i : ℕ) :
    item? read? (items.drop i) standard' =
      (items[i]?.elim (some standard') read?).map (·, items.drop (i + 1)) := by
  cases hitem : items[i]? with
  | none =>
    have hend : items.length ≤ i := List.getElem?_eq_none_iff.1 hitem
    rw [List.drop_eq_nil_of_le hend, List.drop_eq_nil_of_le (Nat.le_succ_of_le hend)]
    rfl
  | some v =>
    obtain ⟨hlt, rfl⟩ := List.getElem?_eq_some_iff.1 hitem
    rw [List.drop_eq_getElem_cons hlt]
    rfl

/-- A list is read like the fields that give its items the names of the settings, in order, unless it
has more items than there are settings. -/
theorem ofItems?_eq (items : List Value) :
    ofItems? items = if items.length ≤ keys.length then ofFields? (keys.zip items) else none := by
  have hfirst : item? wide? items standard.maxPerRoute =
      (items[0]?.elim (some standard.maxPerRoute) wide?).map (·, items.drop 1) := item?_drop items 0
  simp only [ofItems?, ofFields?, hfirst, item?_drop, Option.bind_eq_bind, Option.bind_map,
    Function.comp_def, field?_zip items 0 rfl, field?_zip items 1 rfl, field?_zip items 2 rfl,
    field?_zip items 3 rfl, field?_zip items 4 rfl, field?_zip items 5 rfl, field?_zip items 6 rfl]
  have hempty : (items.drop (6 + 1)).isEmpty = true ↔ items.length ≤ keys.length := by
    rw [List.isEmpty_iff, List.drop_eq_nil_iff]
    rfl
  simp only [hempty]
  split
  case isTrue => rfl
  case isFalse => simp only [Option.bind_fun_none]

/-! ## Configurations -/

/-- A configuration is encoded as an object with one field for each setting, in order. -/
theorem encode_eq (c : Configuration) :
    c.encode = .object (settings.map fun s => (s.name, .ofNat (s.value c))) := rfl

/-- What is decoded from an encoded configuration is that configuration. -/
theorem decode?_encode (c : Configuration) : decode? c.encode = some c := by
  rw [encode_eq]
  refine ofFields?_eq_some_iff.2 fun s hs => .inr ?_
  exact valuesOf_of_mem (List.nodup_iff_count_le_one.1 nodup_keys s.name) (List.mem_map.2 ⟨s, hs, rfl⟩)

/-- Given at most once and with values that fit is the same as absent or one number that fits. -/
theorem once_and_fits_iff (s : Setting) :
    ((fields.map Prod.fst).count s.name ≤ 1 ∧ ∀ v, (s.name, v) ∈ fields → s.Fits v) ↔
      valuesOf fields s.name = [] ∨ ∃ n ≤ s.largest, valuesOf fields s.name = [.ofNat n] := by
  constructor
  · rintro ⟨honce, hfits⟩
    cases hvalues : valuesOf fields s.name with
    | nil => exact .inl rfl
    | cons v rest =>
      have hv : (s.name, v) ∈ fields := mem_valuesOf.1 (hvalues ▸ List.mem_cons_self)
      obtain ⟨n, rfl, hn⟩ := hfits v hv
      exact .inr ⟨n, hn, hvalues.symm.trans (valuesOf_of_mem honce hv)⟩
  · intro hvalues
    rw [← length_valuesOf]
    refine ⟨?_, fun v hv => ?_⟩
    · rcases hvalues with hnone | ⟨n, -, hone⟩
      · rw [hnone]
        exact Nat.zero_le 1
      · rw [hone]
        exact Nat.le_refl 1
    · have hmem : v ∈ valuesOf fields s.name := mem_valuesOf.2 hv
      rcases hvalues with hnone | ⟨n, hn, hone⟩
      · rw [hnone] at hmem
        cases hmem
      · rw [hone, List.mem_singleton] at hmem
        exact ⟨n, hmem, hn⟩

/-- Only the fields that hold a setting matter. -/
theorem ofFields?_congr (hfields : GivenOnce fields) (hothers : GivenOnce others)
    (hsame : ∀ s ∈ settings, ∀ v, (s.name, v) ∈ others ↔ (s.name, v) ∈ fields) :
    ofFields? others = ofFields? fields := by
  have hvalues : ∀ s ∈ settings, valuesOf others s.name = valuesOf fields s.name := by
    intro s hs
    cases hv : valuesOf fields s.name with
    | nil =>
      rw [valuesOf_eq_nil_iff] at hv ⊢
      exact fun v hmem => hv v ((hsame s hs v).1 hmem)
    | cons v rest =>
      have hmem : (s.name, v) ∈ fields := mem_valuesOf.1 (hv ▸ List.mem_cons_self)
      rw [← hv, valuesOf_of_mem (hfields s hs) hmem,
        valuesOf_of_mem (hothers s hs) ((hsame s hs v).2 hmem)]
  ext c
  simp only [ofFields?_eq_some_iff]
  exact forall₂_congr fun s hs => by rw [hvalues s hs]

/-- Every configuration is read back from what it is written as. An object can be read if and only if
no setting is given twice and each setting that is present holds a natural number of its width; then
the setting is this number, and a setting that is absent is the number that the table of settings gives
as standard, whatever the order of the fields and whatever other fields there are. A list of up to
seven items comes to the same as the object that gives them the names of the first settings in order.
Longer lists, and all values that are neither lists nor objects, cannot be read. -/
theorem decoding_exact :
    (∀ c : Configuration, decode? c.encode = some c) ∧
    (∀ fields : List (String × Value),
      ((decode? (.object fields)).isSome ↔
        GivenOnce fields ∧ ∀ s ∈ settings, ∀ v, (s.name, v) ∈ fields → s.Fits v) ∧
      (∀ c, decode? (.object fields) = some c → ∀ s ∈ settings,
        (∀ v, (s.name, v) ∈ fields → v = .ofNat (s.value c)) ∧
          ((∀ v, (s.name, v) ∉ fields) → s.value c = s.standard)) ∧
      ∀ others : List (String × Value), GivenOnce fields → GivenOnce others →
        (∀ s ∈ settings, ∀ v, (s.name, v) ∈ others ↔ (s.name, v) ∈ fields) →
        decode? (.object others) = decode? (.object fields)) ∧
    (∀ items : List Value, items.length ≤ 7 →
      decode? (.list items) = decode? (.object ((settings.map Setting.name).zip items))) ∧
    (∀ items : List Value, 7 < items.length → decode? (.list items) = none) ∧
    ∀ v : Value, (∀ fields, v ≠ .object fields) → (∀ items, v ≠ .list items) → decode? v = none := by
  refine ⟨decode?_encode, fun fields => ⟨?_, ?_, ?_⟩, ?_, ?_, ?_⟩
  · refine isSome_ofFields?_iff.trans ?_
    simp only [← once_and_fits_iff, GivenOnce]
    exact forall₂_and
  · -- a setting is read from its only value, or is its default
    intro c hc s hs
    rcases ofFields?_eq_some_iff.1 hc s hs with ⟨hnone, hstandard⟩ | hone
    · have habsent : ∀ v, (s.name, v) ∉ fields := valuesOf_eq_nil_iff.1 hnone
      exact ⟨fun v hv => absurd hv (habsent v), fun _ => hstandard.trans (value_standard s hs)⟩
    · have hv : (s.name, .ofNat (s.value c)) ∈ fields := mem_valuesOf.1 (hone ▸ List.mem_cons_self)
      refine ⟨fun v hmem => ?_, fun habsent => absurd hv (habsent _)⟩
      simpa [hone] using mem_valuesOf.2 hmem
  · intro others hfields hothers hsame
    exact ofFields?_congr hfields hothers hsame
  · intro items hlength
    exact (ofItems?_eq items).trans (if_pos hlength)
  · intro items hlength
    exact (ofItems?_eq items).trans (if_neg (Nat.not_le.2 hlength))
  · intro v hobject hlist
    cases v with
    | object fields => exact absurd rfl (hobject fields)
    | list items => exact absurd rfl (hlist items)
    | null | boolean | integer | decimal | text => rfl

/-- Two settings in another order than that of the table, and another field twice: the remaining five
settings are standard. A list with the same two settings has to begin with the first one. A setting
that is given twice cannot be read, nor a number that is too large, and no more can eight items. -/
theorem decoding_exact_partial :
    let fields : List (String × Value) :=
      [("max_execution_count", .ofNat 3), ("comment", .null), ("max_total", .ofNat 200),
        ("comment", .null)]
    let swapped : List (String × Value) :=
      [("max_total", .ofNat 200), ("max_execution_count", .ofNat 3)]
    let twice : List (String × Value) := [("max_total", .ofNat 200), ("max_total", .ofNat 200)]
    let large : List (String × Value) := [("max_execution_count", .ofNat UInt32.size)]
    let items : List Value := [.ofNat 25, .ofNat 200]
    (∃ c, decode? (.object fields) = some c ∧
      settings.map (fun s => s.value c) = [25, 200, 50000, 5000, 5000, 50000, 3]) ∧
    decode? (.object swapped) = decode? (.object fields) ∧
    ¬ (decode? (.object twice)).isSome ∧ ¬ (decode? (.object large)).isSome ∧
    decode? (.list items) =
      decode? (.object [("max_per_route", .ofNat 25), ("max_total", .ofNat 200)]) ∧
    decode? (.list (List.replicate 8 (.ofNat 1))) = none := by
  intro fields swapped twice large items
  obtain ⟨-, hobject, hlist, hlong, -⟩ := decoding_exact
  obtain ⟨hreads, hsettings, hcongr⟩ := hobject fields
  have honce : GivenOnce fields := by unfold GivenOnce; decide
  refine ⟨?_, hcongr swapped honce (by unfold GivenOnce; decide) ?_, ?_, ?_, hlist items (by decide),
    hlong _ (by decide)⟩
  · have hfits : ∀ s ∈ settings, ∀ v, (s.name, v) ∈ fields → s.Fits v := by
      simp [settings, fields, Setting.Fits, Value.ofNat_inj]
    obtain ⟨c, hc⟩ := Option.isSome_iff_exists.1 (hreads.2 ⟨honce, hfits⟩)
    have hvalue := hsettings c hc
    refine ⟨c, hc, ?_⟩
    simpa [settings, fields, Value.ofNat_inj, eq_comm] using hvalue
  · simp [settings, fields, swapped]
  · intro hsome
    exact absurd ((hobject twice).1.1 hsome).1 (by unfold GivenOnce; decide)
  · intro hsome
    obtain ⟨n, hn, hle⟩ := ((hobject large).1.1 hsome).2 settings[6] (List.getElem_mem _)
      (.ofNat UInt32.size) (by simp [settings, large])
    rw [← Value.ofNat_inj.1 hn] at hle
    exact absurd hle (by decide)

end Configuration
end PooledHttp
