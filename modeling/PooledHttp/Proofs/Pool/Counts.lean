import PooledHttp.Proofs.Pool.Claiming

/-!
# The counts of connections created and reused

Each route counts the connections that it has created and reused for as long as it has an entry, and
the pool counts them for all routes. Two operations count; the others keep all counts and make no
entry (`State.Retains`), but for the entering of a lease, which may make one with both counts zero.

A claim may forget the entry of its route and make it again, so that the counts start anew although
the route has an entry before and afterwards. `State.claimStages` are the books it goes through, and
`State.claim_traced` says that the counts are then those of the last of them.
-/

set_option autoImplicit false

namespace PooledHttp.Pool.State

/-- Every entry of `t` is in `s` as well, and all counts of connections created and reused are the
same. -/
structure Retains (s t : State) : Prop where
  created : t.created = s.created
  reused : t.reused = s.reused
  entry : ∀ r p, t.find? r = some p →
    ∃ q, s.find? r = some q ∧ q.created = p.created ∧ q.reused = p.reused

variable {s t u : State} {route : Route}

/-- Books retain all that they have. -/
theorem Retains.refl (s : State) : Retains s s := ⟨rfl, rfl, fun _ p hp => ⟨p, hp, rfl, rfl⟩⟩

/-- What is retained twice is retained. -/
theorem Retains.trans (h : Retains s t) (h' : Retains t u) : Retains s u := by
  refine ⟨h'.created.trans h.created, h'.reused.trans h.reused, ?_⟩
  intro r p hp
  obtain ⟨q, hq, hcreated, hreused⟩ := h'.entry r p hp
  obtain ⟨q', hq', hcreated', hreused'⟩ := h.entry r q hq
  exact ⟨q', hq', hcreated'.trans hcreated, hreused'.trans hreused⟩

/-- A route that is not known has not become known. -/
theorem Retains.find?_eq_none (h : Retains s t) {r : Route} (hr : s.find? r = none) :
    t.find? r = none := by
  cases hp : t.find? r with
  | none => rfl
  | some p =>
    obtain ⟨q, hq, -⟩ := h.entry r p hp
    rw [hr] at hq
    cases hq

/-- Removing unused entries brings no counts in and changes none. -/
theorem Retains.prune (hs : s.Keyed) : Retains s s.prune := by
  refine ⟨rfl, rfl, ?_⟩
  intro r p hp
  rw [find?_prune hs, Option.filter_eq_some_iff] at hp
  exact ⟨p, hp.1, rfl, rfl⟩

/-- Changing the entry of a route that has one. -/
theorem find?_modify_of_known {f : RoutePool → RoutePool} (hknown : (s.find? route).isSome)
    {r : Route} {p : RoutePool} (hp : (s.modify route f).find? r = some p) :
    ∃ q, s.find? r = some q ∧ p = if r = route then f q else q := by
  rw [find?_modify] at hp
  split at hp
  case isFalse hr => exact ⟨p, hp, (if_neg hr).symm⟩
  case isTrue hr =>
    subst hr
    obtain ⟨q, hq⟩ := Option.isSome_iff_exists.1 hknown
    rw [State.get, hq, Option.getD_some] at hp
    exact ⟨q, hq, by rw [if_pos rfl, Option.some.inj hp]⟩

section Change

variable {f : RoutePool → RoutePool} (hf : ∀ p, (f p).created = p.created ∧ (f p).reused = p.reused)

include hf

/-- Changing the other parts of the entries keeps their counts. -/
theorem Retains.map :
    Retains s { s with routes := s.routes.map fun e => (e.1, f e.2) } := by
  refine ⟨rfl, rfl, ?_⟩
  intro r p hp
  rw [find?_map] at hp
  obtain ⟨q, hq, rfl⟩ := Option.map_eq_some_iff.1 hp
  exact ⟨q, hq, (hf q).1.symm, (hf q).2.symm⟩

/-- Changing the other parts of an entry that is there keeps its counts. -/
theorem Retains.modifyKnown (route : Route) : Retains s (s.modifyKnown route f) := by
  refine ⟨rfl, rfl, ?_⟩
  intro r p hp
  rw [find?_modifyKnown] at hp
  split at hp
  case isFalse => exact ⟨p, hp, rfl, rfl⟩
  case isTrue hr =>
    subst hr
    obtain ⟨q, hq, rfl⟩ := Option.map_eq_some_iff.1 hp
    exact ⟨q, hq, (hf q).1.symm, (hf q).2.symm⟩

/-- Changing an entry in its other parts keeps its counts, if it need not be made. -/
theorem Retains.modify (hknown : (s.find? route).isSome) : Retains s (s.modify route f) := by
  refine ⟨created_modify .., reused_modify .., ?_⟩
  intro r p hp
  obtain ⟨q, hq, rfl⟩ := find?_modify_of_known hknown hp
  refine ⟨q, hq, ?_⟩
  split
  · exact ⟨(hf q).1.symm, (hf q).2.symm⟩
  · exact ⟨rfl, rfl⟩

end Change

/-- Removing idle connections keeps the counts of the entries that stay. -/
theorem Retains.evict (hs : s.Keyed) (live : ConnId → Bool) (keep : IdleConnection → Bool) :
    Retains s (s.evict live keep).2 := by
  have hkept : Retains s (s.keepOnly live keep) :=
    .map (f := fun p => { p with idle := p.idle.filter fun c => live c.conn && keep c })
      fun _ => ⟨rfl, rfl⟩
  have hkeyed : ({ s.keepOnly live keep with
      idleTotal := s.idleTotal - (s.evict live keep).1 } : State).Keyed := keyed_keepOnly hs live keep
  have hsame : Retains s { s.keepOnly live keep with
      idleTotal := s.idleTotal - (s.evict live keep).1 } := ⟨hkept.created, hkept.reused, hkept.entry⟩
  exact hsame.trans (.prune hkeyed)

/-- Thinning the idle connections of a route keeps its counts. -/
theorem Retains.thin (route : Route) (f : List IdleConnection → List IdleConnection) :
    Retains s (s.thin route f) := by
  have hknown : Retains s (s.modifyKnown route fun p => { p with idle := f p.idle }) :=
    .modifyKnown (f := fun p => { p with idle := f p.idle }) (fun _ => ⟨rfl, rfl⟩) route
  exact ⟨hknown.created, hknown.reused, hknown.entry⟩

/-- A lease that gives up waiting leaves the counts as they are. -/
theorem Retains.removePending (hs : s.Keyed) (route : Route) : Retains s (s.removePending route) := by
  have hknown : Retains s (s.modifyKnown route fun p => { p with pending := p.pending - 1 }) :=
    .modifyKnown (f := fun p => { p with pending := p.pending - 1 }) (fun _ => ⟨rfl, rfl⟩) route
  exact hknown.trans (.prune (hs.modifyKnown route _))

/-- A route with leased connections has an entry. -/
theorem find?_isSome_of_leased (h : 0 < (s.account route).leased) : (s.find? route).isSome := by
  by_contra hunknown
  have hnone : s.find? route = none := by simpa using hunknown
  simp [account, State.get, hnone, Account.blank] at h

/-- A lease that gives back its place leaves the counts as they are. -/
theorem Retains.finishLease (hs : s.Keyed) (hknown : (s.find? route).isSome) (live : ConnId → Bool)
    (back : Option IdleConnection) : Retains s (s.finishLease live route back) := by
  have hended : Retains s (s.endLease route) := by
    have hmodify : Retains s (s.modify route fun p => { p with leased := p.leased - 1 }) :=
      .modify (fun _ => ⟨rfl, rfl⟩) hknown
    exact ⟨hmodify.created, hmodify.reused, hmodify.entry⟩
  rw [finishLease_eq]
  cases s.kept live back with
  | none => exact hended.trans (.prune (keyed_endLease route hs))
  | some c =>
    have hstill : ((s.endLease route).find? route).isSome := by
      have hfind : (s.endLease route).find? route =
          if route = route then some { s.get route with leased := (s.get route).leased - 1 }
          else s.find? route := find?_modify s route (fun p => { p with leased := p.leased - 1 }) route
      rw [hfind, if_pos rfl, Option.isSome_some]
    have hparked : Retains (s.endLease route)
        ((s.endLease route).modify route fun p => { p with idle := p.idle ++ [c] }) :=
      .modify (fun _ => ⟨rfl, rfl⟩) hstill
    exact hended.trans ⟨hparked.created, hparked.reused, hparked.entry⟩

/-- Entries in another order have the same counts. -/
theorem Retains.reorder (hs : s.Keyed) {routes : List (Route × RoutePool)}
    (h : s.routes.Perm routes) : Retains s { s with routes := routes } := by
  refine ⟨rfl, rfl, ?_⟩
  intro r p hp
  rw [find?_reorder hs h] at hp
  exact ⟨p, hp, rfl, rfl⟩

/-- Making room for a connection leaves the counts as they are. -/
theorem Retains.makeRoom (hs : s.Balanced) {maxTotal : Nat} (h : s.makeRoom? maxTotal = some t) :
    Retains s t := by
  unfold makeRoom? at h
  split at h
  case isFalse => exact Option.some.inj h ▸ .refl s
  case isTrue =>
    obtain ⟨other, p, c, rest, -, -, -, rfl⟩ := evictOldest?_thin hs h
    have hkeyed : (s.thin other List.tail).Keyed :=
      hs.keyed.modifyKnown other fun p => { p with idle := p.idle.tail }
    exact (Retains.thin other List.tail).trans (.prune hkeyed)

/-! ## Claims -/

/-- The books that a claim goes through before it enters the lease: those without the dead idle
connections, and those with room for one more connection. -/
def claimStages (s : State) (settings : PoolSettings) (live still : ConnId → Bool) (now : Millis)
    (route : Route) : List State :=
  let clean := (s.closeExpired live now).2
  match clean.reuse still now route with
  | (some _, _) => [clean]
  | (none, swept) =>
    if (swept.get route).leased ≥ settings.maxPerRoute then [clean]
    else clean :: (swept.makeRoom? settings.maxTotal).toList

/-- Choosing among the idle connections of a route forgets no entry. -/
theorem find?_thin_eq_none {f : List IdleConnection → List IdleConnection}
    (h : (s.thin route f).find? route = none) : s.find? route = none := by
  rw [find?_thin, if_pos rfl] at h
  exact Option.map_eq_none_iff.1 h

/-- The lease is entered on books that keep the counts of all stages, and from which the dead idle
connections have been swept. Where these have no entry for the route, it has been forgotten on the
way. -/
theorem claim_traced (hs : s.Balanced) {settings : PoolSettings} {live still : ConnId → Bool}
    {now : Millis} {outcome : Claim}
    (h : s.claim settings live still now route = (outcome, t)) :
    ∃ last, Retains s last ∧ Swept (s.closeExpired live now).2 last ∧
      (∀ b ∈ s.claimStages settings live still now route, Retains b last) ∧
      (last.find? route = none →
        ∃ b ∈ s.claimStages settings live still now route, b.find? route = none) ∧
      (outcome = .wait ∧ t = last ∨ outcome ≠ .wait ∧ t = last.addLease route) := by
  have hclean : Retains s (s.closeExpired live now).2 := .evict hs.keyed live _
  have hbooks : (s.closeExpired live now).2.Balanced := (Swept.evict hs live _).balanced
  have hreuse := reuse_eq (s.closeExpired live now).2 still now route
  unfold claim at h
  unfold claimStages
  split at hreuse
  case h_1 c older htake =>
    -- the entry whose idle connection is taken stays
    obtain ⟨rfl, rfl⟩ : .reuse c = outcome ∧
        ((s.closeExpired live now).2.thin route fun _ => older).addLease route = t := by
      simpa [hreuse] using h
    have hthin : Retains (s.closeExpired live now).2 _ := .thin route fun _ => older
    have hsub : older.Sublist ((s.closeExpired live now).2.account route).idle := by
      obtain ⟨newer, hidle, -⟩ := takeLatest?_some htake
      exact hidle ▸ List.sublist_append_left ..
    refine ⟨_, hclean.trans hthin, .thin (f := fun _ => older) hsub hbooks, ?_, ?_,
      .inr ⟨by simp, rfl⟩⟩
    · intro b hb
      obtain rfl : b = (s.closeExpired live now).2 := by simpa [hreuse] using hb
      exact hthin
    · intro hnone
      exact ⟨(s.closeExpired live now).2, by simp [hreuse], find?_thin_eq_none hnone⟩
  case h_2 =>
    have hthin : Retains (s.closeExpired live now).2
        ((s.closeExpired live now).2.thin route fun _ => []) := .thin route fun _ => []
    have hswept := (reuse_none hbooks hreuse).1
    simp only [hreuse] at h ⊢
    split at h
    case isTrue hfull =>
      obtain ⟨rfl, rfl⟩ := Prod.mk.inj h
      rw [if_pos hfull]
      refine ⟨_, hclean.trans hthin, hswept, ?_, ?_, .inl ⟨rfl, rfl⟩⟩
      · intro b hb
        rw [List.mem_singleton.1 hb]
        exact hthin
      · intro hnone
        exact ⟨_, List.mem_singleton_self _, find?_thin_eq_none hnone⟩
    case isFalse hbelow =>
      rw [if_neg hbelow]
      split at h
      case h_1 hroom =>
        obtain ⟨rfl, rfl⟩ := Prod.mk.inj h
        refine ⟨_, hclean.trans hthin, hswept, ?_, ?_, .inl ⟨rfl, rfl⟩⟩
        · intro b hb
          rw [hroom, Option.toList_none, List.mem_singleton] at hb
          rw [hb]
          exact hthin
        · intro hnone
          exact ⟨_, List.mem_cons_self, find?_thin_eq_none hnone⟩
      case h_2 roomy hroom =>
        obtain ⟨rfl, rfl⟩ := Prod.mk.inj h
        have hroomy := hthin.trans (.makeRoom hswept.balanced hroom)
        have hfewer := hswept.trans (makeRoom?_some hswept.balanced hroom).1
        rw [hroom, Option.toList_some]
        refine ⟨roomy, hclean.trans hroomy, hfewer, ?_, ?_, .inr ⟨by simp, rfl⟩⟩
        · intro b hb
          rcases List.mem_cons.1 hb with rfl | hb
          · exact hroomy
          · rw [List.mem_singleton.1 hb]
            exact .refl roomy
        · intro hnone
          exact ⟨roomy, by simp, hnone⟩

/-- A claim leaves some of the idle connections that are not dead, in their order. -/
theorem idle_claim_sublist (hs : s.Balanced) {settings : PoolSettings} {live still : ConnId → Bool}
    {now : Millis} {outcome : Claim} (h : s.claim settings live still now route = (outcome, t))
    (r : Route) : (t.account r).idle.Sublist ((s.closeExpired live now).2.account r).idle := by
  obtain ⟨last, -, hswept, -, -, ⟨-, rfl⟩ | ⟨-, rfl⟩⟩ := claim_traced hs h
  · exact hswept.idle r
  · rw [idle_addLease]
    exact hswept.idle r

/-- What is idle after a claim was idle before, and it was not dead. -/
theorem idle_of_claim (hs : s.Balanced) {settings : PoolSettings} {live still : ConnId → Bool}
    {now : Millis} {outcome : Claim} (h : s.claim settings live still now route = (outcome, t))
    {r : Route} {k : IdleConnection} (hk : k ∈ (t.account r).idle) :
    k ∈ ((s.closeExpired live now).2.account r).idle :=
  (idle_claim_sublist hs h r).subset hk

/-- A claim counts nothing for the pool. -/
theorem counts_claim (hs : s.Balanced) {settings : PoolSettings} {live still : ConnId → Bool}
    {now : Millis} {outcome : Claim} (h : s.claim settings live still now route = (outcome, t)) :
    t.created = s.created ∧ t.reused = s.reused := by
  obtain ⟨last, hlast, -, -, -, ⟨-, rfl⟩ | ⟨-, rfl⟩⟩ := claim_traced hs h
  · exact ⟨hlast.created, hlast.reused⟩
  · rw [addLease]
    simp [hlast.created, hlast.reused]

end PooledHttp.Pool.State
