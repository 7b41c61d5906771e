import Mathlib.Data.List.TakeWhile
import PooledHttp.Proofs.Pool.Operations

/-!
# What a claim does to the books

A claim sweeps and then, unless it has to wait, enters a lease. What it may come to is listed once
(`State.Claimed`), with what it knew of the swept books when it decided. Of this each outcome has a
statement that leaves out how the books were swept (`State.claim_reuse`, `State.claim_connect`,
`State.claim_wait`). That a claim has to wait when a cap is in the way and there is nothing to take
follows from the first two.
-/

set_option autoImplicit false

namespace PooledHttp.Pool.State

/-! ## Taking an idle connection -/

/-- The connection taken is the last usable one of the idle ones; those parked after it are gone as
well. -/
theorem takeLatest?_some {usable : IdleConnection → Bool} {idle older : List IdleConnection}
    {c : IdleConnection} (h : takeLatest? usable idle = some (c, older)) :
    ∃ newer, idle = older ++ c :: newer ∧ usable c = true ∧ ∀ d ∈ newer, usable d = false := by
  unfold takeLatest? at h
  split at h
  case h_1 => cases h
  case h_2 d before hrest =>
    obtain ⟨rfl, rfl⟩ : d = c ∧ before.reverse = older := by simpa using h
    have hsplit := List.takeWhile_append_dropWhile (p := fun c => !usable c) (l := idle.reverse)
    rw [hrest] at hsplit
    refine ⟨(idle.reverse.takeWhile fun c => !usable c).reverse, ?_, ?_, ?_⟩
    · simpa using (congrArg List.reverse hsplit).symm
    · have hhead := List.head?_dropWhile_not (fun c => !usable c) idle.reverse
      rw [hrest] at hhead
      simpa using hhead
    · intro other hother
      have hskipped := List.mem_takeWhile_imp (List.mem_reverse.1 hother)
      simpa using hskipped

/-- Nothing can be taken where nothing is idle. -/
theorem takeLatest?_nil (usable : IdleConnection → Bool) : takeLatest? usable [] = none := rfl

/-- Where none is taken, none is usable. -/
theorem takeLatest?_none {usable : IdleConnection → Bool} {idle : List IdleConnection}
    (h : takeLatest? usable idle = none) : ∀ d ∈ idle, usable d = false := by
  unfold takeLatest? at h
  split at h
  case h_2 => cases h
  case h_1 hrest =>
    intro d hd
    have hskipped := List.dropWhile_eq_nil_iff.1 hrest d (List.mem_reverse.2 hd)
    simpa using hskipped

/-- A usable connection that was parked last is taken. -/
theorem takeLatest?_concat {usable : IdleConnection → Bool} (older : List IdleConnection)
    {c : IdleConnection} (h : usable c = true) :
    takeLatest? usable (older ++ [c]) = some (c, older) := by
  simp [takeLatest?, h]

/-- Taking an idle connection, as a choice among the idle connections of the route. -/
theorem reuse_eq (s : State) (live : ConnId → Bool) (now : Millis) (route : Route) :
    s.reuse live now route =
      match takeLatest? (fun c => c.isReusable live now) (s.account route).idle with
      | some (c, older) => (some c, (s.thin route fun _ => older).addLease route)
      | none => (none, s.thin route fun _ => []) := rfl

/-- What is left when an idle connection of a route has been taken, before the lease is entered. -/
theorem swept_thin_older {s : State} (hs : s.Balanced) {route : Route}
    {older newer : List IdleConnection} {c : IdleConnection}
    (hidle : (s.account route).idle = older ++ c :: newer) :
    let mid := s.thin route fun _ => older
    Swept s mid ∧ (mid.account route).idle.length < (s.account route).idle.length ∧
      ∀ test, mid.idleCount test + (if test c then 1 else 0) ≤ s.idleCount test := by
  intro mid
  have hsub : older.Sublist (s.account route).idle := hidle ▸ List.sublist_append_left ..
  refine ⟨.thin (f := fun _ => older) hsub hs, ?_, fun test => ?_⟩
  · rw [account_thin (f := fun _ => older) hsub, if_pos rfl, hidle]
    simp
  · have hcount := idleCount_thin (f := fun _ => older) hsub hs.keyed test
    rw [hidle, List.countP_append, List.countP_cons] at hcount
    show (s.thin route fun _ => older).idleCount test + _ ≤ _
    omega

/-- What is left without the idle connections of a route. -/
theorem swept_thin_nil {s : State} (hs : s.Balanced) (route : Route) :
    let mid := s.thin route fun _ => []
    Swept s mid ∧ (mid.account route).idle = [] := by
  intro mid
  have hsub : [].Sublist (s.account route).idle := List.nil_sublist _
  refine ⟨.thin (f := fun _ => []) hsub hs, ?_⟩
  exact congrArg Account.idle ((account_thin (f := fun _ => []) hsub route).trans (if_pos rfl))

/-- Where no idle connection can be taken, the route is left without idle connections. -/
theorem reuse_none {s t : State} (hs : s.Balanced) {live : ConnId → Bool} {now : Millis}
    {route : Route} (h : s.reuse live now route = (none, t)) :
    Swept s t ∧ (t.account route).idle = [] := by
  rw [reuse_eq] at h
  split at h
  case h_1 => simp at h
  case h_2 =>
    obtain rfl : _ = t := by simpa using h
    exact swept_thin_nil hs route

/-! ## Making room -/

/-- Where there is no oldest idle connection, no connection is idle. -/
theorem oldestIdle_none {routes : List (Route × RoutePool)} (h : oldestIdle routes = none) :
    ∀ e ∈ routes, e.2.idle = [] := by
  induction routes with
  | nil => simp
  | cons e rest ih =>
    obtain ⟨r, p⟩ := e
    unfold oldestIdle at h
    cases hhead : p.idle.head? with
    | some c =>
      cases hrest : oldestIdle rest <;> simp only [hhead, hrest] at h
      · cases h
      · split at h <;> cases h
    | none =>
      simp only [hhead] at h
      intro e he
      rcases List.mem_cons.1 he with rfl | he
      · exact List.head?_eq_none_iff.1 hhead
      · exact ih h e he

/-- The oldest idle connection is the first one of its route, and no route has one first that has
been idle for longer. -/
theorem oldestIdle_some {routes : List (Route × RoutePool)} {route : Route} {since : Millis}
    (h : oldestIdle routes = some (route, since)) :
    ∃ p c rest, (route, p) ∈ routes ∧ p.idle = c :: rest ∧ c.idleSince = since ∧
      ∀ e ∈ routes, ∀ d ∈ e.2.idle.head?, since ≤ d.idleSince := by
  induction routes generalizing route since with
  | nil => cases h
  | cons e others ih =>
    obtain ⟨r, p⟩ := e
    unfold oldestIdle at h
    cases hhead : p.idle.head? with
    | none =>
      rw [hhead] at h
      obtain ⟨q, c, rest, hq, hidle, hc, hleast⟩ := ih h
      refine ⟨q, c, rest, List.mem_cons_of_mem _ hq, hidle, hc, List.forall_mem_cons.2 ⟨?_, hleast⟩⟩
      simp [hhead]
    | some first =>
      obtain ⟨tail, hlist⟩ := List.head?_eq_some_iff.1 hhead
      rw [hhead] at h
      -- what is first here is compared with the oldest of the others
      cases hothers : oldestIdle others with
      | none =>
        simp only [hothers, Option.some.injEq, Prod.mk.injEq] at h
        obtain ⟨rfl, rfl⟩ := h
        refine ⟨p, first, tail, List.mem_cons_self, hlist, rfl, List.forall_mem_cons.2 ⟨?_, ?_⟩⟩
        · simp [hhead]
        · intro e he d hd
          rw [oldestIdle_none hothers e he] at hd
          cases hd
      | some found =>
        obtain ⟨other, since'⟩ := found
        obtain ⟨q, c, rest, hq, hidle, hc, hleast⟩ := ih hothers
        simp only [hothers] at h
        split at h
        case isTrue hle =>
          simp only [Option.some.injEq, Prod.mk.injEq] at h
          obtain ⟨rfl, rfl⟩ := h
          refine ⟨p, first, tail, List.mem_cons_self, hlist, rfl, List.forall_mem_cons.2 ⟨?_, ?_⟩⟩
          · simp [hhead]
          · intro e he d hd
            exact hle.trans (hleast e he d hd)
        case isFalse hgt =>
          simp only [Option.some.injEq, Prod.mk.injEq] at h
          obtain ⟨rfl, rfl⟩ := h
          refine ⟨q, c, rest, List.mem_cons_of_mem _ hq, hidle, hc,
            List.forall_mem_cons.2 ⟨?_, hleast⟩⟩
          simpa [hhead] using Nat.le_of_not_le hgt

/-- Removing the oldest idle connection takes it off the list of its route. -/
theorem evictOldest?_thin {s t : State} (hs : s.Balanced) (h : s.evictOldest? = some t) :
    ∃ route p c rest, s.find? route = some p ∧ p.idle = c :: rest ∧
      (∀ r q, s.find? r = some q → ∀ d ∈ q.idle.head?, c.idleSince ≤ d.idleSince) ∧
      t = (s.thin route List.tail).prune := by
  unfold evictOldest? at h
  obtain ⟨⟨route, since⟩, holdest, rfl⟩ := Option.map_eq_some_iff.1 h
  obtain ⟨p, c, rest, hp, hidle, rfl, hleast⟩ := oldestIdle_some holdest
  have hfind : s.find? route = some p := (lookup_eq_some_iff_mem hs.keyed).2 hp
  refine ⟨route, p, c, rest, hfind, hidle, ?_, ?_⟩
  · intro r q hq
    exact hleast (r, q) ((lookup_eq_some_iff_mem hs.keyed).1 hq)
  · -- a list of idle connections that is not empty loses one with its head
    have hone : (s.get route).idle.length - (s.get route).idle.tail.length = 1 := by
      simp [State.get, hfind, hidle]
    simp only [thin, hone]

/-- Removing the oldest idle connection removes one. -/
theorem evictOldest?_some {s t : State} (hs : s.Balanced) (h : s.evictOldest? = some t) :
    Swept s t ∧ t.idleTotal + 1 = s.idleTotal := by
  obtain ⟨route, p, c, rest, hp, hidle, -, rfl⟩ := evictOldest?_thin hs h
  have hthin := Swept.thin (f := List.tail) (List.tail_sublist (s.account route).idle) hs
  refine ⟨hthin.trans (.prune hthin.balanced), ?_⟩
  have haccount : (s.account route).idle = c :: rest := by
    rw [account_of_find hp]
    exact hidle
  have hle := idle_length_le hs route
  show s.idleTotal - ((s.account route).idle.length - (s.account route).idle.tail.length) + 1 = _
  rw [haccount, List.length_cons] at hle
  rw [haccount, List.length_cons, List.tail_cons]
  omega

/-- Where the oldest idle connection cannot be removed, no connection is idle. -/
theorem evictOldest?_none {s : State} (hs : s.Balanced) (h : s.evictOldest? = none) :
    s.idleTotal = 0 := by
  have hnone := oldestIdle_none (Option.map_eq_none_iff.1 h)
  rw [hs.idle, total, sumOver_eq_zero_iff]
  intro e he
  exact List.length_eq_zero_iff.2 (hnone e he)

/-- There is room under the cap over all routes, or one idle connection fewer than before. -/
theorem makeRoom?_some {s t : State} (hs : s.Balanced) {maxTotal : Nat}
    (h : s.makeRoom? maxTotal = some t) :
    Swept s t ∧ (t.leasedTotal + t.idleTotal < maxTotal ∨ t.idleTotal < s.idleTotal) := by
  unfold makeRoom? at h
  split at h
  case isTrue =>
    obtain ⟨hswept, hfewer⟩ := evictOldest?_some hs h
    exact ⟨hswept, .inr (by omega)⟩
  case isFalse hroom =>
    obtain rfl : s = t := by simpa using h
    exact ⟨.refl hs, .inl (by omega)⟩

/-- Where no room can be made, the leases alone have reached the cap over all routes. -/
theorem makeRoom?_none {s : State} (hs : s.Balanced) {maxTotal : Nat}
    (h : s.makeRoom? maxTotal = none) : maxTotal ≤ s.leasedTotal := by
  unfold makeRoom? at h
  split at h
  case isTrue hfull =>
    have hnone := evictOldest?_none hs h
    omega
  case isFalse => cases h

/-! ## The outcomes -/

section Claim

variable {s t swept : State} {settings : PoolSettings} {live still : ConnId → Bool} {now : Millis}
  {route : Route}

/-- What a claim comes to and what it leaves. It has removed the dead idle connections of all
routes, and then those of its own route that it found dead when it looked for one to take. -/
inductive Claimed (s : State) (settings : PoolSettings) (live still : ConnId → Bool) (now : Millis)
    (route : Route) : Claim → State → Prop
  | reuse {older newer : List IdleConnection} {c : IdleConnection}
    (hidle : ((s.closeExpired live now).2.account route).idle = older ++ c :: newer)
    (hnewer : ∀ d ∈ newer, d.isReusable still now = false) :
    Claimed s settings live still now route (.reuse c)
      (((s.closeExpired live now).2.thin route fun _ => older).addLease route)
  | wait {swept : State}
    (hswept : swept = (s.closeExpired live now).2.thin route fun _ => [])
    (hnone : ∀ d ∈ ((s.closeExpired live now).2.account route).idle,
      d.isReusable still now = false)
    (hfull : settings.maxPerRoute ≤ (swept.account route).leased ∨
      swept.makeRoom? settings.maxTotal = none) :
    Claimed s settings live still now route .wait swept
  | connect {swept : State}
    (hswept : swept = (s.closeExpired live now).2.thin route fun _ => [])
    (hnone : ∀ d ∈ ((s.closeExpired live now).2.account route).idle,
      d.isReusable still now = false)
    (hbelow : (swept.account route).leased < settings.maxPerRoute)
    (hroom : swept.leasedTotal + swept.idleTotal < settings.maxTotal) :
    Claimed s settings live still now route .connect (swept.addLease route)
  /-- One more connection is closed to make room. -/
  | evict {swept roomy : State}
    (hswept : swept = (s.closeExpired live now).2.thin route fun _ => [])
    (hnone : ∀ d ∈ ((s.closeExpired live now).2.account route).idle,
      d.isReusable still now = false)
    (hbelow : (swept.account route).leased < settings.maxPerRoute)
    (hfull : settings.maxTotal ≤ swept.leasedTotal + swept.idleTotal)
    (hevict : swept.evictOldest? = some roomy) :
    Claimed s settings live still now route .connect (roomy.addLease route)

/-- A claim comes to one of its outcomes and leaves what goes with it. -/
theorem claimed {outcome : Claim} (h : s.claim settings live still now route = (outcome, t)) :
    Claimed s settings live still now route outcome t := by
  have hreuse := reuse_eq (s.closeExpired live now).2 still now route
  unfold claim at h
  split at hreuse
  case h_1 c older htake =>
    obtain ⟨rfl, rfl⟩ : .reuse c = outcome ∧
        ((s.closeExpired live now).2.thin route fun _ => older).addLease route = t := by
      simpa [hreuse] using h
    obtain ⟨newer, hidle, -, hnewer⟩ := takeLatest?_some htake
    exact .reuse hidle hnewer
  case h_2 htake =>
    have hnone := takeLatest?_none htake
    simp only [hreuse] at h
    split at h
    case isTrue hfull =>
      obtain ⟨rfl, rfl⟩ := Prod.mk.inj h
      exact .wait rfl hnone (.inl hfull)
    case isFalse hbelow =>
      have hbelow := Nat.lt_of_not_le hbelow
      split at h
      case h_1 hroom =>
        obtain ⟨rfl, rfl⟩ := Prod.mk.inj h
        exact .wait rfl hnone (.inr hroom)
      case h_2 roomy hroom =>
        obtain ⟨rfl, rfl⟩ := Prod.mk.inj h
        unfold makeRoom? at hroom
        split at hroom
        case isTrue hfull => exact .evict rfl hnone hbelow hfull hroom
        case isFalse hroomy =>
          obtain rfl := Option.some.inj hroom
          exact .connect rfl hnone hbelow (Nat.lt_of_not_le hroomy)

/-- A lease that takes an idle connection: what is left before the lease is entered lacks it. -/
theorem claim_reuse (hs : s.Balanced) {c : IdleConnection}
    (h : s.claim settings live still now route = (.reuse c, t)) :
    ∃ mid, Swept s mid ∧ t = mid.addLease route ∧ c ∈ (s.account route).idle ∧
      (mid.account route).idle.length < (s.account route).idle.length ∧
      ∀ test, mid.idleCount test + (if test c then 1 else 0) ≤ s.idleCount test := by
  have hexpired : Swept s (s.closeExpired live now).2 := .evict hs live _
  cases claimed h with
  | reuse hidle =>
    obtain ⟨hmid, hlength, hcount⟩ := swept_thin_older hexpired.balanced hidle
    have hsub := hexpired.idle route
    refine ⟨_, hexpired.trans hmid, rfl, hsub.subset (by simp [hidle]),
      hlength.trans_le hsub.length_le, fun test => ?_⟩
    exact (hcount test).trans (hexpired.idleCount_le hs test)

/-- What is left when a claim takes nothing: no connection of the route is idle. -/
theorem swept_of_eq (hs : s.Balanced)
    (hswept : swept = (s.closeExpired live now).2.thin route fun _ => []) :
    Swept s swept ∧ (swept.account route).idle = [] := by
  subst hswept
  have hexpired : Swept s (s.closeExpired live now).2 := .evict hs live _
  obtain ⟨hthin, hnone⟩ := swept_thin_nil hexpired.balanced route
  exact ⟨hexpired.trans hthin, hnone⟩

/-- What a claim that takes nothing has swept away: no connection of the route is idle. -/
theorem claim_swept (hs : s.Balanced)
    (h : (s.closeExpired live now).2.reuse still now route = (none, swept)) :
    Swept s swept ∧ (swept.account route).idle = [] := by
  have hexpired : Swept s (s.closeExpired live now).2 := .evict hs live _
  obtain ⟨hswept, hnone⟩ := reuse_none hexpired.balanced h
  exact ⟨hexpired.trans hswept, hnone⟩

/-- A lease that may connect: the route has no idle connections and fewer leases than its cap, and
there is room under the cap over all routes or has just been made. -/
theorem claim_connect (hs : s.Balanced)
    (h : s.claim settings live still now route = (.connect, t)) :
    ∃ mid, Swept s mid ∧ t = mid.addLease route ∧ (mid.account route).idle = [] ∧
      (mid.account route).leased < settings.maxPerRoute ∧
      (mid.leasedTotal + mid.idleTotal < settings.maxTotal ∨ mid.idleTotal < s.idleTotal) := by
  cases claimed h with
  | connect hswept _ hbelow hroom =>
    obtain ⟨hfewer, hnone⟩ := swept_of_eq hs hswept
    exact ⟨_, hfewer, rfl, hnone, hbelow, .inl hroom⟩
  | evict hswept _ hbelow _ hevict =>
    obtain ⟨hfewer, hnone⟩ := swept_of_eq hs hswept
    obtain ⟨hroomy, hone⟩ := evictOldest?_some hfewer.balanced hevict
    have hle := hfewer.idleTotal_le hs
    refine ⟨_, hfewer.trans hroomy, rfl, ?_, ?_, .inr (by omega)⟩
    · exact List.sublist_nil.1 (hnone ▸ hroomy.idle route)
    · rwa [hroomy.leased route]

/-- A lease that has to wait: its route, or all routes together, have as many leases as the cap
allows. -/
theorem claim_wait (hs : s.Balanced) (h : s.claim settings live still now route = (.wait, t)) :
    Swept s t ∧
      (settings.maxPerRoute ≤ (s.account route).leased ∨ settings.maxTotal ≤ s.leasedTotal) := by
  cases claimed h with
  | wait hswept _ hfull =>
    obtain ⟨hfewer, -⟩ := swept_of_eq hs hswept
    refine ⟨hfewer, hfull.imp (fun hroute => ?_) fun hroom => ?_⟩
    · rwa [← hfewer.leased route]
    · rw [← hfewer.leasedTotal]
      exact makeRoom?_none hfewer.balanced hroom

/-- A lease has to wait when a cap is in the way and nothing can be taken or closed to help. -/
theorem claim_fst_eq_wait (hs : s.Balanced) (hidle : (s.account route).idle = [])
    (hcap : settings.maxPerRoute ≤ (s.account route).leased ∨
      settings.maxTotal ≤ s.leasedTotal ∧ s.idleTotal = 0) :
    (s.claim settings live still now route).1 = .wait := by
  cases h : s.claim settings live still now route with
  | mk outcome t =>
    cases outcome with
    | wait => rfl
    | reuse c =>
      obtain ⟨_, -, -, hmem, -⟩ := claim_reuse hs h
      simp [hidle] at hmem
    | connect =>
      obtain ⟨mid, hmid, -, -, hbelow, hroom⟩ := claim_connect hs h
      have hleased := hmid.leased route
      have hleasedTotal := hmid.leasedTotal
      omega

end Claim

end PooledHttp.Pool.State
