import PooledHttp.Proofs.Pool.Undoing

/-!
# A lease gets past closed connections

The idle connection that a lease has taken may turn out closed. Then the lease gives back its place
and claims once more, with nothing to tell it how often it has done so. What becomes less is the list
of idle connections of its route: a claim takes the connection off this list, and giving back the
place does not put it back (`State.Search`). So from one wait to the next a lease makes one pass more,
at most, than there were idle connections, whichever of them turn out closed
(`System.passes_bounded`).
-/

set_option autoImplicit false

namespace PooledHttp.Pool

namespace State

/-- How far a lease has come that has made so many passes since it has found the books `was`. -/
inductive Search (was : State) (route : Route) (passes : Nat) : Phase → State → Prop where
  | claiming {books : State} (hbeside : was.Beside route 0 0 books)
    (hfewer : passes + (books.account route).idle.length ≤ (was.account route).idle.length) :
    Search was route passes .claiming books
  | readying {c : IdleConnection} {books : State} (hbeside : was.Beside route 1 0 books)
    (hfewer : passes + (books.account route).idle.length ≤ (was.account route).idle.length) :
    Search was route passes (.readying c) books
  | stopped {phase : Phase} {books : State} (hstopped : phase.isSearching = false)
    (hpasses : passes ≤ (was.account route).idle.length + 1) : Search was route passes phase books

/-- What a lease that claims once more after so many passes has left of the books `s`. -/
structure Searched (s : State) (route : Route) (passes : Nat) (t : State) : Prop where
  /-- Each pass has taken off the list at least one idle connection of the route. -/
  shorter : passes + (t.get route).idle.length ≤ (s.get route).idle.length
  order : ∀ r, (t.get r).idle.Sublist (s.get r).idle
  leased : ∀ r, (t.get r).leased = (s.get r).leased
  leasedTotal : t.leasedTotal = s.leasedTotal
  pending : ∀ r, (t.get r).pending = (s.get r).pending

variable {was books t : State} {route : Route} {passes : Nat} {phase : Phase}

/-- A search begins with no pass made. -/
theorem search_refl (was : State) (route : Route) : Search was route 0 .claiming was :=
  .claiming (.refl was route) (Nat.zero_add _).le

/-- A search makes at most one pass more than there were idle connections of its route. -/
theorem Search.passes_le (h : Search was route passes phase books) :
    passes ≤ (was.account route).idle.length + 1 := by
  cases h with
  | claiming _ hfewer | readying _ hfewer => omega
  | stopped _ hpasses => exact hpasses

/-- A claim that takes a connection takes it off the list, and any other claim ends the search. -/
theorem Search.claim (h : Search was route passes .claiming books) (hbooks : books.Balanced)
    {settings : PoolSettings} {live still : ConnId → Bool} {now : Millis} {outcome : Claim}
    (hclaim : books.claim settings live still now route = (outcome, t)) :
    Search was route (passes + 1) outcome.phase (outcome.record route t) := by
  have hpasses : passes + 1 ≤ (was.account route).idle.length + 1 := by
    cases h with
    | claiming _ hfewer => omega
    | stopped hstopped => cases hstopped
  cases claimed hclaim with
  | wait | connect | evict => exact .stopped rfl hpasses
  | @reuse older newer c hidle =>
    have hclean := Swept.closeExpired hbooks live now
    obtain ⟨hthin, hless, -⟩ := swept_thin_older hclean.balanced hidle
    have hretains : Retains books ((books.closeExpired live now).2.thin route fun _ => older) :=
      (Retains.evict hbooks.keyed live _).trans (.thin route fun _ => older)
    have hle := (hclean.idle route).length_le
    cases h with
    | claiming hbeside hfewer =>
      refine .readying (hbeside.sweep hretains (hclean.trans hthin)).addLease ?_
      rw [Claim.record, idle_addLease]
      omega
    | stopped hstopped => cases hstopped

/-- A connection that turns out closed is discarded, and the search goes on with one fewer. -/
theorem Search.unready {c : IdleConnection} (h : Search was route passes (.readying c) books)
    (hbooks : books.Keyed) (live : ConnId → Bool) :
    Search was route passes .claiming (books.finishLease live route none) := by
  cases h with
  | readying hbeside hfewer =>
    refine .claiming (hbeside.finishLease hbooks live) ?_
    rwa [idle_finishLease_none hbooks]
  | stopped hstopped => cases hstopped

/-- The order of the entries does not matter for a search. -/
theorem Search.reorder (h : Search was route passes phase books) (hbooks : books.Keyed)
    {routes : List (Route × RoutePool)} (hperm : books.routes.Perm routes) :
    Search was route passes phase { books with routes := routes } := by
  have haccount := account_reorder hbooks hperm route
  cases h with
  | claiming hbeside hfewer => exact .claiming (hbeside.reorder hbooks hperm) (by rwa [haccount])
  | readying hbeside hfewer => exact .readying (hbeside.reorder hbooks hperm) (by rwa [haccount])
  | stopped hstopped hpasses => exact .stopped hstopped hpasses

/-- A search that is back at claiming has left nothing behind but fewer idle connections. -/
theorem Search.searched (h : Search was route passes .claiming books) (hwas : was.Balanced)
    (hbooks : books.Balanced) : Searched was route passes books := by
  cases h with
  | stopped hstopped => cases hstopped
  | claiming hbeside hfewer =>
    refine ⟨hfewer, hbeside.idle, fun r => ?_, hbeside.leasedTotal hwas hbooks, fun r => ?_⟩
    · have hleased := hbeside.leased r
      rwa [ite_self, Nat.add_zero] at hleased
    · have hpending := hbeside.pending r
      rwa [ite_self, Nat.add_zero] at hpending

end State

namespace System

variable {settings : PoolSettings} {s : System} {l : LeaseId} {lease : Lease} {was : State}
  {passes : Nat} {a : Act} {acts : List Act}

/-- The search of a lease goes on as long as it does not wait. -/
theorem Lone.search {next : Phase} {books : State} (hlone : s.Lone l lease a next books)
    (hbooks : s.books.Balanced) (hwait : a ≠ .event (.resume l))
    (h : was.Search lease.route passes lease.phase s.books) :
    was.Search lease.route (passes + (s.pass? l a).toList.length) next books := by
  have hunseen {next : Phase} {books : State} (hnone : s.pass? l a = none)
      (h : was.Search lease.route passes next books) :
      was.Search lease.route (passes + (s.pass? l a).toList.length) next books := by
    rwa [hnone]
  cases hlone with
  | still hnone => exact hunseen hnone.1 h
  | wake hparked hnone => exact hunseen hnone.1 (.stopped rfl h.passes_le)
  | reorder hperm hnone => exact hunseen hnone.1 (h.reorder hbooks.keyed hperm)
  | shut hphase =>
    rw [hphase] at h
    have hone : (s.pass? l a).toList.length ≤ 1 := by cases s.pass? l a <;> simp
    cases h with
    | claiming _ hfewer => exact .stopped rfl (by omega)
    | stopped hstopped => cases hstopped
  | claim hphase hclaim hpass =>
    rw [hphase] at h
    rw [hpass]
    exact h.claim hbooks hclaim
  | unready hphase hpass =>
    rw [hphase] at h
    exact hunseen hpass (h.unready hbooks.keyed s.live)
  | refuse _ e hnone => exact hunseen hnone.1 (.stopped rfl h.passes_le)
  | resume _ _ hresume => exact absurd hresume hwait
  | expire _ hnone => exact hunseen hnone.1 (.stopped rfl h.passes_le)
  | part _ hnone hnext => exact hunseen hnone.1 (.stopped hnext h.passes_le)

/-- How far a lease has come after a run of its own acts in which it does not wait. -/
theorem Reachable.search_play (hs : Reachable settings s) (hl : s.leases[l]? = some lease)
    (h : was.Search lease.route passes lease.phase s.books) (hown : ∀ a ∈ acts, a.isOwn l = true)
    (hwait : .event (.resume l) ∉ acts) :
    ∃ next, (s.play acts).leases[l]? = some { lease with phase := next } ∧
      was.Search lease.route (passes + (s.passes l acts).length) next (s.play acts).books := by
  induction acts generalizing s lease passes with
  | nil => exact ⟨lease.phase, hl, h⟩
  | cons a acts ih =>
    have hafter : Reachable settings (s.act a) := Relation.ReflTransGen.trans hs (reaches_act s a)
    have hne : a ≠ .event (.resume l) := by
      rintro rfl
      exact hwait List.mem_cons_self
    obtain ⟨next, hnext, hlone⟩ := goesOn_act hl (hown a List.mem_cons_self)
    have hfirst := hlone.search hs.accounted.balanced hne h
    have hrest := ih hafter hnext hfirst (fun b hb => hown b (.tail a hb))
      fun hmem => hwait (.tail a hmem)
    rwa [System.passes, List.length_append, ← Nat.add_assoc]

/-- The connection that the lease has taken turns out closed: the lease claims once more. -/
theorem phase?_unready {c : IdleConnection} (hphase : s.phase? l = some (.readying c)) :
    (s.step (.unready l)).phase? l = some .claiming := by
  obtain ⟨lease, hl, hreadying⟩ := Option.map_eq_some_iff.1 hphase
  have hstep : s.step (.unready l) = (s.finish lease.route none).setPhase l .claiming := by
    simp [step_of_lease (e := .unready l) rfl hl, stepLease, hreadying]
  rw [hstep]
  exact phase?_of_lease (getElem?_setPhase (s := s.finish lease.route none) hl _)

/-- Let a lease be about to claim, in any state of any run, and let no other party act until it waits,
connects or returns. Then it makes one pass more, at most, than its route has idle connections,
whichever connections are closed meanwhile. Each time it claims again, its route has lost at least one
idle connection for each pass, and everything else is as it was: in particular a single pass whose
connection turns out closed makes the list strictly shorter. The totals are right all the time. -/
theorem passes_bounded (h : Reachable settings s) (hl : s.leases[l]? = some lease)
    (hclaiming : lease.phase = .claiming) (hown : ∀ a ∈ acts, a.isOwn l = true)
    (hwait : .event (.resume l) ∉ acts) :
    (s.passes l acts).length ≤ (s.books.get lease.route).idle.length + 1 ∧
    ((s.play acts).phase? l = some .claiming →
      s.books.Searched lease.route (s.passes l acts).length (s.play acts).books) ∧
    (∀ failing c, (s.step (.claim l failing)).phase? l = some (.readying c) →
      let t := (s.step (.claim l failing)).step (.unready l)
      t.phase? l = some .claiming ∧ s.books.Searched lease.route 1 t.books) ∧
    (s.play acts).books.leasedTotal = State.sumOver (s.play acts).books.routes (fun p => p.leased) ∧
    (s.play acts).books.idleTotal =
      State.sumOver (s.play acts).books.routes fun p => p.idle.length := by
  have hbooks {s : System} (h : Reachable settings s) : s.books.Balanced := h.accounted.balanced
  have hstart : s.books.Search lease.route 0 lease.phase s.books :=
    hclaiming ▸ State.search_refl s.books lease.route
  have hsearched {acts : List Act} (hown : ∀ a ∈ acts, a.isOwn l = true)
      (hwait : .event (.resume l) ∉ acts) (hagain : (s.play acts).phase? l = some .claiming) :
      s.books.Searched lease.route (s.passes l acts).length (s.play acts).books := by
    have hend : Reachable settings (s.play acts) :=
      Relation.ReflTransGen.trans h (reaches_play s acts)
    obtain ⟨next, hnext, hsearch⟩ := h.search_play hl hstart hown hwait
    rw [phase?_of_lease hnext, Option.some.injEq] at hagain
    obtain rfl : next = .claiming := hagain
    rw [Nat.zero_add] at hsearch
    exact hsearch.searched (hbooks h) (hbooks hend)
  have hend : Reachable settings (s.play acts) := Relation.ReflTransGen.trans h (reaches_play s acts)
  refine ⟨?_, hsearched hown hwait, ?_, (hbooks hend).leased, (hbooks hend).idle⟩
  · obtain ⟨next, -, hsearch⟩ := h.search_play hl hstart hown hwait
    have hle := hsearch.passes_le
    rwa [Nat.zero_add] at hle
  · intro failing c hreadying t
    have hagain : t.phase? l = some .claiming := phase?_unready hreadying
    refine ⟨hagain, ?_⟩
    -- one pass and its failure are a search of their own
    have hone : (s.passes l [.event (.claim l failing), .event (.unready l)]).length = 1 := by
      simp [System.passes, pass?, phase?_of_lease hl, hclaiming]
    rw [← hone]
    exact hsearched (by simp [Act.isOwn, Act.isAlone]) (by simp) hagain

/-- Two idle connections turn out closed one after the other, and the lease connects: three passes
for two connections. -/
theorem passes_bounded_two_closed :
    let settings : PoolSettings := ⟨2, 2, .standard⟩
    let route : Route := ⟨.http, ['h'], 80⟩
    let s := (init settings).run
      [.start route none, .claim 0 [], .connected 0, .start route none, .claim 1 [], .connected 1,
        .release 0 0, .release 1 0, .start route none]
    let acts : List Act := [Event.claim 2 [], .closed 1, .unready 2, .claim 2 [], .closed 0,
      .unready 2, .claim 2 []].map .event
    s.leases[2]? = some ⟨route, none, .claiming⟩ ∧ (∀ a ∈ acts, a.isOwn 2 = true) ∧
      (s.passes 2 acts).length = 3 ∧ (s.books.get route).idle.length = 2 ∧
      (s.play acts).phase? 2 = some .connecting ∧
      (s.passes 2 acts).length ≤ (s.books.get route).idle.length + 1 := by
  intro settings route s acts
  have hl : s.leases[2]? = some ⟨route, none, .claiming⟩ := by decide
  have hown : ∀ a ∈ acts, a.isOwn 2 = true := List.all_eq_true.1 (by decide)
  have hwait : .event (.resume 2) ∉ acts := by simp [acts]
  exact ⟨hl, hown, by decide, by decide, by decide,
    (passes_bounded (reaches_run _ _ : Reachable settings s) hl rfl hown hwait).1⟩

end System
end PooledHttp.Pool
