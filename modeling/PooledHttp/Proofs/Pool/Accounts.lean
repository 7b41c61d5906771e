import Mathlib.Algebra.BigOperators.Group.Finset.Basic
import Mathlib.Algebra.Order.BigOperators.Group.Finset
import PooledHttp.Pool.Claim

/-!
# The account of a route

The books of a pool are a list of routes with their entries, from which unused routes are removed and
to which new ones are added. What an operation means does not depend on the list: the account of a
route, which is blank for a route without an entry, says how many connections are leased, which are
idle, and how many leases wait. Forgetting unused routes changes no account. Where the difference
matters, operations are described by the entries that can be found after them (`State.find?`).

A figure summed over the entries is a finite sum over accounts (`State.total_eq_sum`), so that an
operation which changes the account of one route changes the sum by what that account changes
(`State.total_of_change`). Both need that every route has at most one entry (`State.Keyed`).
-/

set_option autoImplicit false

namespace PooledHttp.Pool

/-- What decides claims on a route, the counts of connections created and reused left out. -/
structure Account where
  leased : Nat
  idle : List IdleConnection
  pending : Nat

/-- The account of a route of which the books know nothing. -/
def Account.blank : Account := ⟨0, [], 0⟩

/-- The account in an entry. -/
def RoutePool.account (p : RoutePool) : Account := ⟨p.leased, p.idle, p.pending⟩

/-- A fresh entry has the blank account. -/
@[simp]
theorem RoutePool.account_fresh : RoutePool.fresh.account = .blank := rfl

/-- An unused entry is one whose account is blank. -/
theorem RoutePool.isUnused_iff (p : RoutePool) : p.isUnused = true ↔ p.account = .blank := by
  obtain ⟨leased, idle, pending, created, reused⟩ := p
  simp only [RoutePool.isUnused, RoutePool.account, Account.blank, Account.mk.injEq,
    Bool.and_eq_true, beq_iff_eq, List.isEmpty_iff]
  tauto

/-! ## Looking up a list of entries -/

section Lookup

variable {routes : List (Route × RoutePool)} {route : Route}

/-- Changing the entries but not their routes changes what is found. -/
theorem lookup_map_entries (routes : List (Route × RoutePool)) (route : Route)
    (g : Route → RoutePool → RoutePool) :
    (routes.map fun e => (e.1, g e.1 e.2)).lookup route = (routes.lookup route).map (g route) := by
  induction routes with
  | nil => rfl
  | cons e rest ih =>
    obtain ⟨r, p⟩ := e
    by_cases h : route = r
    · subst h
      simp
    · have hne : (route == r) = false := by simpa using h
      simp only [List.map_cons, List.lookup_cons, hne, ih]

/-- A route without an entry is not found. -/
theorem lookup_eq_none_of_not_mem (h : route ∉ routes.map Prod.fst) :
    routes.lookup route = none := by
  rw [List.lookup_eq_none_iff]
  intro e he
  simpa using fun heq : route = e.1 => h (heq ▸ List.mem_map_of_mem he)

/-- Where every route has one entry, an entry is found under its route. -/
theorem lookup_eq_some_iff_mem (hn : (routes.map Prod.fst).Nodup) {p : RoutePool} :
    routes.lookup route = some p ↔ (route, p) ∈ routes := by
  induction routes with
  | nil => simp
  | cons e rest ih =>
    obtain ⟨r, q⟩ := e
    simp only [List.map_cons, List.nodup_cons] at hn
    by_cases h : route = r
    · subst h
      have hrest : (route, p) ∉ rest := fun hm => hn.1 (List.mem_map_of_mem hm)
      simp [hrest, eq_comm]
    · have hne : (route == r) = false := by simpa using h
      simp [List.lookup_cons, hne, ih hn.2, h]

/-- Where every route has one entry, removing entries by a test removes what is found by the same
test. -/
theorem lookup_filter_entries (hn : (routes.map Prod.fst).Nodup) (keep : RoutePool → Bool) :
    (routes.filter fun e => keep e.2).lookup route = (routes.lookup route).filter keep := by
  have hsub : ((routes.filter fun e => keep e.2).map Prod.fst).Nodup :=
    (List.filter_sublist.map Prod.fst).nodup hn
  ext p
  rw [lookup_eq_some_iff_mem hsub, Option.filter_eq_some_iff, lookup_eq_some_iff_mem hn,
    List.mem_filter]

end Lookup

/-! ## Entries -/

namespace State

/-- Every route has at most one entry. -/
def Keyed (s : State) : Prop := (s.routes.map Prod.fst).Nodup

/-- Changing the entry of a route if there is one, as a change of all entries. -/
theorem modifyKnown_eq (s : State) (route : Route) (f : RoutePool → RoutePool) :
    s.modifyKnown route f =
      { s with routes := s.routes.map fun e => (e.1, if e.1 = route then f e.2 else e.2) } := by
  unfold modifyKnown
  congr 2
  funext e
  split <;> rfl

/-- Changing every entry in the same way. -/
theorem find?_map (s : State) (f : RoutePool → RoutePool) (route : Route) :
    ({ s with routes := s.routes.map fun e => (e.1, f e.2) } : State).find? route =
      (s.find? route).map f :=
  lookup_map_entries s.routes route fun _ => f

/-- Modifying an entry that is there changes the entry of its route only. -/
theorem find?_modifyKnown (s : State) (route : Route) (f : RoutePool → RoutePool) (r : Route) :
    (s.modifyKnown route f).find? r = if r = route then (s.find? route).map f else s.find? r := by
  have hl := lookup_map_entries s.routes r fun q p => if q = route then f p else p
  simp only [modifyKnown_eq, State.find?, hl]
  split
  case isTrue hr => rw [hr]
  case isFalse => exact Option.map_id' ..

/-- Modifying the entry of a route makes it if it is missing, and changes no other. -/
theorem find?_modify (s : State) (route : Route) (f : RoutePool → RoutePool) (r : Route) :
    (s.modify route f).find? r = if r = route then some (f (s.get route)) else s.find? r := by
  unfold modify
  split
  case isTrue hknown =>
    have hsome : (s.find? route).isSome := by
      rw [State.find?, List.lookup_isSome_iff]
      obtain ⟨e, he, heq⟩ := List.any_eq_true.1 hknown
      exact ⟨e, he, beq_iff_eq.2 (beq_iff_eq.1 heq).symm⟩
    obtain ⟨p, hp⟩ := Option.isSome_iff_exists.1 hsome
    refine (find?_modifyKnown s route f r).trans ?_
    simp [State.get, hp]
  case isFalse hunknown =>
    have hnone : s.routes.lookup route = none := by
      apply lookup_eq_none_of_not_mem
      intro hmem
      obtain ⟨e, he, heq⟩ := List.mem_map.1 hmem
      exact hunknown (List.any_eq_true.2 ⟨e, he, by simpa using heq⟩)
    by_cases hr : r = route
    · subst hr
      simp [State.get, State.find?, List.lookup_append, hnone]
    · have hne : (r == route) = false := by simpa using hr
      simp [State.find?, List.lookup_append, List.lookup_cons, hne, hr]

/-- Pruning forgets the unused routes. -/
theorem find?_prune {s : State} (hs : s.Keyed) (route : Route) :
    s.prune.find? route = (s.find? route).filter fun p => !p.isUnused :=
  lookup_filter_entries hs fun p => !p.isUnused

/-- Entries in another order are those of different routes as before. -/
theorem Keyed.reorder {s : State} (hs : s.Keyed) {routes : List (Route × RoutePool)}
    (h : s.routes.Perm routes) : ({ s with routes := routes } : State).Keyed :=
  (h.map Prod.fst).nodup_iff.1 hs

/-- The order of the entries does not matter. -/
theorem find?_reorder {s : State} (hs : s.Keyed) {routes : List (Route × RoutePool)}
    (h : s.routes.Perm routes) (route : Route) :
    ({ s with routes := routes } : State).find? route = s.find? route := by
  ext p
  rw [State.find?, State.find?, lookup_eq_some_iff_mem (hs.reorder h), lookup_eq_some_iff_mem hs,
    h.mem_iff]

/-! ## Accounts -/

/-- The account of a route. -/
def account (s : State) (route : Route) : Account := (s.get route).account

/-- The account of a route is that of its entry. -/
theorem account_of_find {s : State} {route : Route} {p : RoutePool} (h : s.find? route = some p) :
    s.account route = p.account := by
  simp [account, State.get, h]

/-- The account of an entry that is found. -/
theorem account_of_mem {s : State} (hs : s.Keyed) {route : Route} {p : RoutePool}
    (h : (route, p) ∈ s.routes) : s.account route = p.account :=
  account_of_find ((lookup_eq_some_iff_mem hs).2 h)

/-- Changing every entry in the same way changes the accounts accordingly. -/
theorem account_map (s : State) (f : RoutePool → RoutePool) (hf : (f .fresh).account = .blank)
    (route : Route) :
    ({ s with routes := s.routes.map fun e => (e.1, f e.2) } : State).account route =
      (f (s.get route)).account := by
  rw [account, State.get, find?_map, State.get]
  cases s.find? route with
  | none => exact hf.symm
  | some p => rfl

/-- Changing the entry of a route changes its account alone. A blank account stays blank when the
route has no entry. -/
theorem account_modifyKnown (s : State) (route : Route) (f : RoutePool → RoutePool)
    (hf : (s.find? route).isSome ∨ (f .fresh).account = .blank) (r : Route) :
    (s.modifyKnown route f).account r =
      if r = route then (f (s.get route)).account else s.account r := by
  rw [account, State.get, find?_modifyKnown]
  split
  case isFalse => rfl
  case isTrue =>
    cases hl : s.find? route with
    | none =>
      have hblank : (f .fresh).account = .blank := by simpa [hl] using hf
      simp [State.get, hl, hblank]
    | some p => simp [State.get, hl]

/-- Changing the entry of a route, known or not, changes its account alone. -/
theorem account_modify (s : State) (route : Route) (f : RoutePool → RoutePool) (r : Route) :
    (s.modify route f).account r =
      if r = route then (f (s.get route)).account else s.account r := by
  rw [account, State.get, find?_modify]
  split <;> rfl

/-- Forgetting unused routes changes no account. -/
theorem account_prune {s : State} (hs : s.Keyed) (route : Route) :
    s.prune.account route = s.account route := by
  rw [account, account, State.get, State.get, find?_prune hs]
  cases s.find? route with
  | none => rfl
  | some p =>
    by_cases hp : p.isUnused
    · simp [Option.filter, hp, (RoutePool.isUnused_iff p).1 hp]
    · simp [Option.filter, hp]

/-- The order of the entries does not matter for the accounts. -/
theorem account_reorder {s : State} (hs : s.Keyed) {routes : List (Route × RoutePool)}
    (h : s.routes.Perm routes) (route : Route) :
    ({ s with routes := routes } : State).account route = s.account route := by
  rw [account, State.get, find?_reorder hs h, account, State.get]

/-! ## Each route keeps one entry -/

/-- Modifying an entry that is there leaves one entry for each route. -/
theorem Keyed.modifyKnown {s : State} (hs : s.Keyed) (route : Route) (f : RoutePool → RoutePool) :
    (s.modifyKnown route f).Keyed := by
  rw [modifyKnown_eq]
  simpa [Keyed, Function.comp_def] using hs

/-- Modifying or making an entry leaves one entry for each route. -/
theorem Keyed.modify {s : State} (hs : s.Keyed) (route : Route) (f : RoutePool → RoutePool) :
    (s.modify route f).Keyed := by
  unfold State.modify
  split
  case isTrue => exact hs.modifyKnown route f
  case isFalse hunknown =>
    simp only [Keyed, List.map_append, List.map_cons, List.map_nil, List.nodup_append,
      List.nodup_singleton, List.mem_singleton, true_and]
    refine ⟨hs, ?_⟩
    rintro r hr _ rfl rfl
    obtain ⟨e, he, heq⟩ := List.mem_map.1 hr
    exact hunknown (List.any_eq_true.2 ⟨e, he, by simpa using heq⟩)

/-- Changing entries in their places leaves one entry for each route. -/
theorem Keyed.map {s : State} (hs : s.Keyed) (f : RoutePool → RoutePool) :
    ({ s with routes := s.routes.map fun e => (e.1, f e.2) } : State).Keyed := by
  simpa [Keyed, Function.comp_def] using hs

/-- Removing unused entries leaves one entry for each route. -/
theorem Keyed.prune {s : State} (hs : s.Keyed) : s.prune.Keyed :=
  (List.filter_sublist.map Prod.fst).nodup hs

/-! ## Sums over all entries -/

/-- A sum over the entries is zero exactly if each of its parts is. -/
theorem sumOver_eq_zero_iff {routes : List (Route × RoutePool)} {figure : RoutePool → Nat} :
    sumOver routes figure = 0 ↔ ∀ e ∈ routes, figure e.2 = 0 := by
  induction routes with
  | nil => simp [sumOver]
  | cons e rest ih =>
    rw [List.forall_mem_cons, ← ih]
    exact Nat.add_eq_zero_iff

/-- A figure of the accounts, summed over the entries. -/
def total (m : Account → Nat) (s : State) : Nat := sumOver s.routes fun p => m p.account

variable {m : Account → Nat}

/-- Totals add up. -/
theorem total_add (m m' : Account → Nat) (s : State) :
    s.total (fun a => m a + m' a) = s.total m + s.total m' := by
  unfold total
  induction s.routes with
  | nil => rfl
  | cons e rest ih =>
    simp only [sumOver, List.foldr_cons] at ih ⊢
    omega

/-- Summing over the entries is summing over the accounts of any routes that include the known ones,
because the other accounts are blank. -/
theorem total_eq_sum {s : State} (hs : s.Keyed) (hm : m .blank = 0) (known : Finset Route)
    (hknown : ∀ r ∈ s.routes.map Prod.fst, r ∈ known) :
    s.total m = ∑ r ∈ known, m (s.account r) := by
  obtain ⟨routes, lt, it, created, reused, closed⟩ := s
  induction routes generalizing known with
  | nil => simp [total, sumOver, account, State.get, State.find?, hm]
  | cons e rest ih =>
    obtain ⟨route, p⟩ := e
    simp only [Keyed, List.map_cons, List.nodup_cons] at hs
    have hroute : route ∈ known := hknown route (by simp)
    have hothers : ∀ r ∈ rest.map Prod.fst, r ∈ known.erase route := by
      intro r hr
      refine Finset.mem_erase.2 ⟨?_, hknown r (List.mem_cons_of_mem _ hr)⟩
      rintro rfl
      exact hs.1 hr
    have hrest := ih (known.erase route) hs.2 hothers
    rw [← Finset.add_sum_erase known _ hroute]
    simp only [total, sumOver, List.foldr_cons] at hrest ⊢
    rw [hrest]
    congr 1
    · simp [account, State.get, State.find?]
    · refine Finset.sum_congr rfl fun r hr => ?_
      have hne : (r == route) = false := by simpa using (Finset.mem_erase.1 hr).1
      simp only [account, State.get, State.find?, List.lookup_cons, hne]

/-- The account of a route is part of the sum. -/
theorem le_total {s : State} (hs : s.Keyed) (hm : m .blank = 0) (route : Route) :
    m (s.account route) ≤ s.total m := by
  let known := insert route (s.routes.map Prod.fst).toFinset
  have hknown : ∀ r ∈ s.routes.map Prod.fst, r ∈ known := fun r hr => by
    simp only [known, Finset.mem_insert, List.mem_toFinset, hr, or_true]
  rw [total_eq_sum hs hm known hknown]
  exact Finset.single_le_sum (f := fun r => m (s.account r)) (fun _ _ => Nat.zero_le _)
    (Finset.mem_insert_self _ _)

/-- A figure that grows in no account does not grow in the sum. -/
theorem total_mono {s t : State} (hs : s.Keyed) (ht : t.Keyed) (hm : m .blank = 0)
    (h : ∀ r, m (t.account r) ≤ m (s.account r)) : t.total m ≤ s.total m := by
  let known := (s.routes.map Prod.fst ++ t.routes.map Prod.fst).toFinset
  rw [total_eq_sum hs hm known (by simp +contextual [known]),
    total_eq_sum ht hm known (by simp +contextual [known])]
  exact Finset.sum_le_sum fun r _ => h r

/-- Two figures that agree on the accounts have the same sums. -/
theorem total_eq_total {s t : State} (hs : s.Keyed) (ht : t.Keyed) (hm : m .blank = 0)
    {m' : Account → Nat} (hm' : m' .blank = 0) (h : ∀ r, m' (t.account r) = m (s.account r)) :
    t.total m' = s.total m := by
  let known := (s.routes.map Prod.fst ++ t.routes.map Prod.fst).toFinset
  rw [total_eq_sum hs hm known (by simp +contextual [known]),
    total_eq_sum ht hm' known (by simp +contextual [known])]
  exact Finset.sum_congr rfl fun r _ => h r

/-- Books with the same accounts have the same sums. -/
theorem total_congr {s t : State} (hs : s.Keyed) (ht : t.Keyed) (hm : m .blank = 0)
    (h : ∀ r, m (t.account r) = m (s.account r)) : t.total m = s.total m :=
  total_eq_total hs ht hm hm h

/-- When one account changes, the sum changes by what that account changes. -/
theorem total_of_change {s t : State} (hs : s.Keyed) (ht : t.Keyed) (hm : m .blank = 0)
    (route : Route) (h : ∀ r, r ≠ route → m (t.account r) = m (s.account r)) :
    t.total m + m (s.account route) = s.total m + m (t.account route) := by
  let known := insert route (s.routes.map Prod.fst ++ t.routes.map Prod.fst).toFinset
  have hroute : route ∈ known := Finset.mem_insert_self _ _
  rw [total_eq_sum hs hm known (by simp +contextual [known]),
    total_eq_sum ht hm known (by simp +contextual [known]),
    ← Finset.add_sum_erase known _ hroute, ← Finset.add_sum_erase known _ hroute,
    Finset.sum_congr rfl fun r hr => h r (Finset.mem_erase.1 hr).1]
  omega

end State
end PooledHttp.Pool
