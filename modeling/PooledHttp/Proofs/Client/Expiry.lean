import PooledHttp.Proofs.Client.Reuse
import PooledHttp.Proofs.Pool.Idling

/-!
# How long a connection may stay idle

After a whole response, the connection is handed back with the time that the response allows it to stay
idle. The entry that the pool makes of it keeps this time through the idle period
(`Service.InRun.parks_after`), however often the connection has been idle before. What the time then
decides is `Service.HonoursExpiry`.
-/

set_option autoImplicit false

namespace PooledHttp

namespace Pool.System

variable {s : System} {k : IdleConnection} {events : List Event}

/-- The work of calls with their leases leaves a connection at rest as it is. -/
theorem Rests.run (h : s.Rests k) (hcalls : ∀ e ∈ events, e.isOfCall = true) :
    (s.run events).Rests k := by
  refine List.foldlRecOn (motive := fun p => p.Rests k) events step h ?_
  intro p hp e he
  apply hp.act_of_ne (a := .event e)
  rintro l failing ⟨⟩
  exact absurd (hcalls _ he) Bool.false_ne_true

/-- The work of calls with their leases is not the clearing away of connections. -/
theorem removes_of_isOfCall {e : Event} (he : e.isOfCall = true) :
    (Act.event e).removes = false := by
  cases e with
  | start | cancel | drop | release => rfl
  | claim | ready | unready | connected | refused | broadcast | broadcastRemoval | resume | expire
  | closed | tick | closeExpired | closeIdle | shutdown => cases he

/-- The work of calls with their leases leaves a parked entry parked. -/
theorem Parks.run (hacc : s.Accounted) (hk : s.Parks k)
    (hcalls : ∀ e ∈ events, e.isOfCall = true) : (s.run events).Parks k := by
  suffices h : (s.run events).Accounted ∧ (s.run events).Parks k from h.2
  refine List.foldlRecOn (motive := fun p => p.Accounted ∧ p.Parks k) events step ⟨hacc, hk⟩ ?_
  rintro p ⟨hacc, hk⟩ e he
  exact ⟨hacc.effect (effect_step e), hk.act hacc (removes_of_isOfCall (hcalls e he))⟩

end Pool.System

namespace Client

open Pool

namespace Service

variable {s t : Service} {x : Happening} {i : CallId} {call : Call} {a : Attempt} {c : ConnId}
  {pool : PoolSettings} {e : Ending} {k : IdleConnection} {p q : System} {l : LeaseId}

/-! ## The entry of an idle period -/

/-- A lease that holds the connection of an idle period has claimed it before its time was over. -/
theorem Drives.claim_of_heldBy (h : Drives p x q) (hr : p.Rests k) (hheld : q.HeldBy k.conn l) :
    ∃ failing, x = .event (.pool (.claim l failing)) ∧ k.isExpired p.now = false := by
  cases h with
  | act act hact =>
    obtain ⟨failing, rfl, -, hlater⟩ := hr.heldBy_act hheld
    exact ⟨failing, hact, hlater⟩
  | shutdown =>
    obtain ⟨failing, hact, -⟩ := hr.heldBy_act hheld
    cases hact
  | calls events hcalls => exact absurd hheld ((hr.run hcalls).unheld l)

/-- As long as a connection is idle, its entry stays. -/
theorem Drives.parks (h : Drives p x q) (hr : p.Rests k) (hidle : q.Idle k.conn) : q.Parks k := by
  have hact (act : Act) (hidle : (p.act act).Idle k.conn) : (p.act act).Parks k := by
    obtain ⟨i, hi, hc⟩ := System.idle_iff.1 hidle
    exact hr.entry_act hi hc ▸ hi
  cases h with
  | act | shutdown => exact hact _ hidle
  | calls events hcalls => exact (hr.run hcalls).parks hidle

/-- In a run, every happening drives the pool in one of its ways. -/
theorem InRun.drives (h : s.InRun pool) (x : Happening) : Drives s.pool x (s.happen x).pool :=
  (h.turn_happen x).drives

/-- Through an idle period the entry stays the same. -/
theorem InRun.parks_after (h : s.InRun pool) (hk : s.pool.Parks k) (ys : List Happening)
    (hidle : ∀ zs, zs <+: ys → (s.after zs).pool.Idle k.conn) : (s.after ys).pool.Parks k := by
  induction ys generalizing s with
  | nil => exact hk
  | cons y ys ih =>
    have hr := h.reachable.owning.rests hk
    have hfirst : (s.happen y).pool.Idle k.conn :=
      hidle [y] (List.cons_prefix_cons.2 ⟨rfl, List.nil_prefix⟩)
    apply ih (h.happen y) ((h.drives y).parks hr hfirst)
    intro zs hzs
    exact hidle (y :: zs) (List.cons_prefix_cons.2 ⟨rfl, hzs⟩)

/-- After a clean end of an attempt, its connection is idle with the time that the response allows. -/
theorem Uses.parks_clean (hu : s.Uses i a c) (h : s.InRun pool) (hclean : s.EndsCleanly i c x)
    {head : ResponseHead} (hhead : s.head? i = some head) (hidle : (s.happen x).pool.Idle c) :
    ∃ k, (s.happen x).pool.Parks k ∧ k.conn = c ∧ k.idleSince = s.pool.now ∧
      k.expiry = if s.settings.keepAlive.duration head.header = 0 then none
        else some (s.pool.now + s.settings.keepAlive.duration head.header) := by
  obtain ⟨rfl, ⟨head', hhead', hclose⟩, -, -⟩ := hclean
  obtain rfl : head = head' := Option.some.inj (hhead.symm.trans hhead')
  obtain ⟨call, b, reading, hi, hstage, hread⟩ := exchanging_of_head hhead
  obtain rfl : a = b := by
    have hb := (attempt?_of_call hi).symm.trans hu.1
    rw [hstage] at hb
    exact (Option.some.inj hb).symm
  have hpool : (s.happen (.event (.arrive i .finished))).pool =
      s.pool.act (.event (.release a.lease (s.settings.keepAlive.duration head.header))) := by
    rw [happen_of_ends (.answered hi hstage hread), conclude]
    have hstays : ¬ head.wantsClose = true := mt Header.wantsClose_iff.1 hclose
    simp only [RetryPolicy.verdict, pool_setStage, pool_settle, handing, if_neg hstays]
    rfl
  rw [hpool] at hidle ⊢
  obtain ⟨k, hk, hc⟩ := System.idle_iff.1 hidle
  refine ⟨k, hk, hc, ?_⟩
  rcases System.parks_of_act h.reachable.owning.accounted hk with
    hbefore | ⟨l, keepAlive, hact, -, hsince, hexpiry⟩
  · -- the connection was held until now
    obtain ⟨r, hmem⟩ := hbefore
    exact absurd (hc ▸ hu.2) (h.reachable.owning.not_held_of_idle hmem a.lease)
  · cases hact
    exact ⟨hsince, hexpiry⟩

/-! ## What the time decides -/

/-- A connection that has been idle from `since` on and may stay idle for `time`, without a limit if
that is zero, may not be used at `now`. -/
def TimeOver (since time now : Millis) : Prop := 0 < time ∧ since + time ≤ now

/-- A connection is expired exactly when its time, counted from when it was given back, is over. -/
theorem isExpired_iff {since time : Millis}
    (hexpiry : k.expiry = if time = 0 then none else some (since + time)) (now : Millis) :
    k.isExpired now = true ↔ TimeOver since time now := by
  rw [IdleConnection.isExpired, hexpiry, TimeOver]
  split
  case isTrue hzero => simp [hzero]
  case isFalse hpos => simp [Nat.pos_of_ne_zero hpos]

/-- What ends the idle period of a connection that has been idle from `since` on. -/
inductive EndsIdle (s : Service) (c : ConnId) (since : Millis) : Happening → Prop
  | claim (l : LeaseId) (failing : List ConnId) : EndsIdle s c since (.event (.pool (.claim l failing)))
  | closeExpired : EndsIdle s c since (.event (.pool .closeExpired))
  /-- It has been idle for too long, or has been closed. -/
  | closeIdle (time : Millis) (h : s.pool.live c = true → time ≤ s.pool.now - since) :
    EndsIdle s c since (.event (.pool (.closeIdle time)))
  /-- A removal that takes its time does not keep it, or finds it closed. -/
  | evict (live : ConnId → Bool) (keep : IdleConnection → Bool)
    (h : live c = true → ∃ k, s.pool.Parks k ∧ k.conn = c ∧ keep k = false) :
    EndsIdle s c since (.aside (.evict live keep))
  | shutdown : EndsIdle s c since (.event (.pool .shutdown))
  | abandon : EndsIdle s c since (.event (.abandon true))

/-- The time `time` is honoured for a connection that has been idle from `since` on: nothing but a
claim before the time is over takes it, claims and removals of expired connections close it once the
time is over, and they leave it alone before. -/
structure HonoursExpiry (s : Service) (c : ConnId) (since time : Millis) : Prop where
  taken : ∀ x l, (s.happen x).pool.HeldBy c l →
    (∃ failing, x = .event (.pool (.claim l failing))) ∧ ¬ TimeOver since time s.pool.now
  claimed : ∀ l failing, s.pool.phase? l = some .claiming →
    let t := (s.happen (.event (.pool (.claim l failing)))).pool
    (TimeOver since time s.pool.now → t.Gone c) ∧
      (¬ TimeOver since time s.pool.now → t.Idle c ∨ t.HeldBy c l ∨ t.live c = false ∨
        t.phase? l = some .connecting ∧
          s.pool.settings.maxTotal ≤ s.pool.books.leasedTotal + s.pool.books.idleTotal)
  swept :
    let t := (s.happen (.event (.pool .closeExpired))).pool
    (TimeOver since time s.pool.now → t.Gone c) ∧
      (¬ TimeOver since time s.pool.now → (t.Idle c ↔ s.pool.live c = true))
  /-- A removal that has read the clock some time before it comes to the books, and to which `live`
  tells which connections are open. -/
  sweptLate : ∀ live now,
    let t := (s.happen (.aside (.evict live fun k => !k.isExpired now))).pool
    (TimeOver since time now → t.Gone c) ∧
      (¬ TimeOver since time now → (t.Idle c ↔ live c = true))
  /-- Nothing else ends the idle period because of the time. -/
  ends : ∀ x, ¬ (s.happen x).pool.Idle c → s.EndsIdle c since x

/-- What ends an idle period. -/
theorem InRun.endsIdle (h : s.InRun pool) (hk : s.pool.Parks k)
    (hends : ¬ (s.happen x).pool.Idle k.conn) : s.EndsIdle k.conn k.idleSince x := by
  have hacc := h.reachable.accounted
  have hr := h.reachable.owning.rests hk
  have hdrives := h.drives x
  generalize (s.happen x).pool = q at hends hdrives
  cases hdrives with
  | shutdown hx => exact hx ▸ .abandon
  | calls events hcalls => exact absurd (hk.run hacc hcalls).idle hends
  | act act hx =>
    subst hx
    have hrests (hnot : ∀ l failing, act ≠ .event (.claim l failing)) : (s.pool.act act).Rests k :=
      hr.act_of_ne hnot
    cases hact : act.removes with
    | false => exact absurd (hk.act hacc hact).idle hends
    | true =>
      cases act with
      | aside other =>
        cases other with
        | evict live keep =>
          have hkept := (hr.evict hk (hrests nofun) live keep rfl).1
          refine .evict live keep ?_
          intro hlive
          exact ⟨k, hk, rfl, by simpa [hlive] using mt hkept.2 hends⟩
        | clock | reorder | wakeEarly | expireWoken => cases hact
      | event e =>
        cases e with
        | claim l failing => exact .claim l failing
        | closeExpired => exact .closeExpired
        | shutdown => exact .shutdown
        | closeIdle time =>
          have hkept := (hr.evict hk (hrests nofun) s.pool.live
            (fun i => decide (s.pool.now - i.idleSince < time)) rfl).1
          refine .closeIdle time ?_
          intro hlive
          simpa [hlive] using mt hkept.2 hends
        | start | ready | unready | connected | refused | broadcast | broadcastRemoval | resume
        | expire | cancel | release | drop | closed | tick => cases hact

/-- The time that the entry of an idle connection carries is honoured. -/
theorem InRun.honoursExpiry (h : s.InRun pool) (hk : s.pool.Parks k) {time : Millis}
    (hexpiry : k.expiry = if time = 0 then none else some (k.idleSince + time)) :
    s.HonoursExpiry k.conn k.idleSince time := by
  have hr := h.reachable.owning.rests hk
  have hopen : s.pool.books.closed = false := by
    cases hclosed : s.pool.books.closed with
    | false => rfl
    | true =>
      obtain ⟨r, hmem⟩ := hk
      rw [h.reachable.drained hclosed r] at hmem
      cases hmem
  have hover (now : Millis) : ¬ TimeOver k.idleSince time now ↔ k.isExpired now = false := by
    rw [← isExpired_iff hexpiry, Bool.not_eq_true]
  -- both removals of expired connections do the same to the books
  have hswept (t : System) (ht : t.Rests k) (live : ConnId → Bool) (now : Millis)
      (hbooks : t.books = (s.pool.books.evict live fun i => !i.isExpired now).2) :
      (TimeOver k.idleSince time now → t.Gone k.conn) ∧
        (¬ TimeOver k.idleSince time now → (t.Idle k.conn ↔ live k.conn = true)) := by
    obtain ⟨hidle, hgone⟩ := hr.evict hk ht live _ hbooks
    rw [← isExpired_iff hexpiry]
    constructor
    · intro hexpired
      apply hgone
      simp [hexpired]
    · intro hlater
      simpa [hlater] using hidle
  refine ⟨?_, ?_, ?_, ?_, fun x => h.endsIdle hk⟩
  · intro x l hheld
    obtain ⟨failing, hx, hlater⟩ := (h.drives x).claim_of_heldBy hr hheld
    exact ⟨⟨failing, hx⟩, (hover _).2 hlater⟩
  · intro l failing hclaiming
    obtain ⟨lease, hl, hphase⟩ := Option.map_eq_some_iff.1 hclaiming
    obtain ⟨hgone, hkept⟩ := hr.claim hk hopen hl hphase failing rfl
    exact ⟨fun hexpired => hgone ((isExpired_iff hexpiry _).2 hexpired),
      fun hlater => hkept ((hover _).1 hlater)⟩
  · exact hswept _ (hr.act_of_ne (a := .event .closeExpired) nofun) s.pool.live s.pool.now rfl
  · intro live now
    exact hswept _ (hr.act_of_ne (a := .aside (.evict live _)) nofun) live now rfl

/-- In any run of a pool with any clients, let a happening make the connection of an attempt idle. Then
the attempt has just read a whole response. As long as the connection stays idle, whatever else
happens, the time that the keep-alive policy finds in the head of this response is honoured, counted
from this moment. -/
theorem keepAlive_honoured (settings : Settings) (pool : PoolSettings) (xs : List Happening)
    {i : CallId} {a : Attempt} {c : ConnId} (hu : ((init settings pool).after xs).Uses i a c)
    (x : Happening) (hidle : (((init settings pool).after xs).happen x).pool.Idle c) :
    let s := (init settings pool).after xs
    x = .event (.arrive i .finished) ∧ ∃ head, s.head? i = some head ∧
      ∀ ys, (∀ zs, zs <+: ys → ((s.happen x).after zs).pool.Idle c) →
        ((s.happen x).after ys).HonoursExpiry c s.pool.now
          (settings.keepAlive.duration head.header) := by
  intro s
  have hrun : s.InRun pool := (inRun_init settings pool).after xs
  have hsettings : s.settings = settings := (inRun_init settings pool).settings_after xs
  have hclean : s.EndsCleanly i c x := by
    rcases hrun.uses_happen hu x with ⟨hstill, -⟩ | ⟨-, hparting⟩
    · obtain ⟨r, j, hj⟩ := hidle
      exact absurd hj ((hrun.happen x).reachable.owning.not_idle_of_held hstill.2 r j)
    · exact hparting.idle.1 hidle
  obtain ⟨head, hhead, -⟩ := hclean.read
  refine ⟨hclean.finished, head, hhead, ?_⟩
  intro ys hstays
  obtain ⟨k, hk, rfl, hsince, hexpiry⟩ := hu.parks_clean hrun hclean hhead hidle
  rw [hsettings, ← hsince] at hexpiry
  rw [← hsince]
  exact ((hrun.happen x).after ys).honoursExpiry ((hrun.happen x).parks_after hk ys hstays) hexpiry

/-- A connection is used by two calls, one after the other. The first response allows half a minute of
idle time and the second one five seconds; after five seconds a claim closes the connection. -/
theorem keepAlive_honoured_shorter :
    let request : Request :=
      ⟨.get, ⟨some ['h', 't', 't', 'p'], some ['h'], ['/'], none⟩, .http11, ⟨[]⟩, []⟩
    let route : Route := ⟨.http, ['h'], 80⟩
    let head : ResponseHead := ⟨200, ⟨[("keep-alive".toList, "timeout=5".toList)]⟩⟩
    let s := (init ⟨⟨true, none, none, none⟩, ⟨1⟩, .standard⟩ ⟨1, 1, .standard⟩).after
      [.event (.submit request), .event (.pool (.claim 0 [])), .event (.pool (.connected 0)),
        .event (.proceed 0), .event (.arrive 0 (.head ⟨200, ⟨[]⟩⟩)), .event (.arrive 0 .finished),
        .event (.submit request), .event (.pool (.claim 1 [])), .event (.pool (.ready 1)),
        .event (.proceed 1), .event (.arrive 1 (.head head)), .event (.pool (.tick 7))]
    let idle := s.happen (.event (.arrive 1 .finished))
    let ys : List Happening := [.event (.pool (.start route none)), .event (.pool (.tick 5000))]
    s.Uses 1 ⟨route, 1, 1⟩ 0 ∧ idle.pool.Idle 0 ∧
      (∀ zs, zs <+: ys → (idle.after zs).pool.Idle 0) ∧
      ((idle.after ys).happen (.event (.pool (.claim 2 [])))).pool.Gone 0 := by
  intro request route head s idle ys
  have hu : s.Uses 1 ⟨route, 1, 1⟩ 0 := ⟨by decide, by rw [System.HeldBy]; decide⟩
  have hidle : idle.pool.Idle 0 := ⟨route, 0, by rw [System.IdleAt]; decide⟩
  have hstays (zs : List Happening) (hzs : zs <+: ys) : (idle.after zs).pool.Idle 0 := by
    refine ⟨route, 0, ?_⟩
    rw [System.IdleAt]
    rw [← List.mem_inits] at hzs
    rcases List.mem_cons.1 hzs with rfl | hzs
    · decide
    · rcases List.mem_cons.1 hzs with rfl | hzs
      · decide
      · rw [List.mem_singleton.1 hzs]
        decide
  refine ⟨hu, hidle, hstays, ?_⟩
  obtain ⟨-, head', hhead', hhonoured⟩ := keepAlive_honoured _ _ _ hu _ hidle
  obtain rfl : head = head' := Option.some.inj ((by decide : some head = _).trans hhead')
  have hover : TimeOver s.pool.now (KeepAlive.standard.duration head.header)
      (idle.after ys).pool.now := by
    unfold TimeOver
    decide
  exact ((hhonoured ys hstays).claimed 2 [] (by decide)).1 hover

end Service
end Client
end PooledHttp
