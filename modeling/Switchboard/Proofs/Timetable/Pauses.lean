import Switchboard.Proofs.Timetable.Deliveries

/-!
# Time passes

When nobody can go on, all work that is left waits for a moment that lies ahead: a handler takes its
time, or a step waits for its collection. No such moment is passed by.

* `Roster.Rest` : nobody can go on; `Roster.Rest.tickets_eq_nil` : then nobody stands in line;
* `Roster.Covers.tick` : time may pass up to the next moment for which some work waits;
* `Run.lt_nextTime`, `Run.nextTime_le_alarm` : and so far it does.
-/

namespace Switchboard

namespace Sweeper

/-- A run at or after a time is not before that. -/
theorem le_nextRun {s : Sweeper} (h : 0 < s.interval) (now : Nat) : now ≤ s.nextRun now := by
  have hdiv := Nat.div_add_mod (now - s.startedAt + (s.interval - 1)) s.interval
  have hmod := Nat.mod_lt (now - s.startedAt + (s.interval - 1)) h
  have hcomm := Nat.mul_comm s.interval ((now - s.startedAt + (s.interval - 1)) / s.interval)
  unfold nextRun
  omega

theorem lt_nextUse {s : Sweeper} (h : 0 < s.interval) {now time : Nat} {c : Collector}
    (hnext : s.nextUse now c = some time) : now < time := by
  obtain ⟨e, -, rfl⟩ := List.mem_map.mp (List.min?_mem hnext)
  refine Nat.lt_of_lt_of_le ?_ (le_nextRun h _)
  split
  · exact Nat.lt_succ_self now
  · exact Nat.lt_of_lt_of_le (Nat.lt_succ_self now) (Nat.le_max_left _ _)

end Sweeper

namespace Run

variable {α : Type} {r : Run α}

theorem lt_foldl_min {now : Nat} {times : List Nat} {limit : Nat} (hlimit : now < limit)
    (h : ∀ t ∈ times, now < t) : now < times.foldl min limit := by
  induction times generalizing limit with
  | nil => exact hlimit
  | cons t times ih =>
    obtain ⟨ht, hrest⟩ := List.forall_mem_cons.mp h
    exact ih (Nat.lt_min.mpr ⟨hlimit, ht⟩) hrest

/-- The clock goes on if no alarm is due. -/
theorem lt_nextTime (hlimit : r.world.now < r.limit)
    (hsweeper : ∀ s ∈ r.world.sweeper, 0 < s.interval)
    (halarms : ∀ c ∈ r.calls, r.world.now < c.1.time) : r.world.now < r.nextTime := by
  refine lt_foldl_min hlimit fun t ht => ?_
  rcases List.mem_append.mp ht with ht | ht
  · obtain ⟨c, hc, rfl⟩ := List.mem_map.mp ht
    exact halarms c hc
  · obtain ⟨s, hs, huse⟩ := Option.bind_eq_some_iff.mp (Option.mem_toList.mp ht)
    exact Sweeper.lt_nextUse (hsweeper s hs) huse

end Run

namespace Roster

variable {r : Roster} {n : Nat} {w : World} {ps : List (Assignment × Branch)}

/-- Nobody can go on. -/
structure Rest (w : World) (ps : List (Assignment × Branch)) : Prop where
  queue : w.bus.queue = []
  inbox : ∀ i, ¬ w.bus.HasMail i
  handlings : ∀ h ∈ w.handlings, h.thread.Blocked w.bus w.now
  steps : ∀ p ∈ ps, p.2.Blocked w.bus w.now

/-- The handling of a reply does not wait. -/
theorem not_blocked_of_noting {t : Thread Unit} (h : t.Noting) {bus : Bus} {now : Nat} :
    ¬ t.Blocked bus now := by
  intro hblocked
  obtain ⟨code, parking, wave, belongings⟩ := t
  obtain rfl : wave = none := h.wave
  have hcode : code.Closing := h.code
  cases hcode <;> exact hblocked

theorem not_blocked_of_quiet {o : Operation} (ho : o.Quiet)
    {next : (Effect.plain o).Answer → Program Unit} {parking : Parking} {bus : Bus} {now : Nat} :
    ¬ (⟨.ask (.plain o) next, parking, none, {}⟩ : Thread Unit).Blocked bus now := by
  intro hblocked
  cases o with
  | clock | attached | providers | directory | agentNames | turn | stamp | note | track | untrack =>
    exact hblocked
  | _ => exact ho

/-- Whoever is about to serve a request does not wait. -/
theorem not_blocked_of_starts {x : Assignment} {code : Program Unit} (h : code.Starts x) {bus : Bus}
    {now : Nat} : ¬ (({ code } : Thread Unit)).Blocked bus now := by
  intro hblocked
  cases h with
  | serves h =>
    generalize x.post.delay = d at h
    cases h with
    | pause ms h =>
      obtain ⟨a, ha, -⟩ := hblocked
      cases ha
    | quiet ho h => exact not_blocked_of_quiet ho hblocked
    | send hm h =>
      obtain ⟨k, hk, -⟩ := hblocked
      cases hk
    | attached | settle | hold => exact hblocked
  | quiet ho h => exact not_blocked_of_quiet ho hblocked
  | enter => exact hblocked

/-- A request that is being served, and waits: its handler takes its time, or the reply stands in
line. -/
theorem serving_of_blocked {x : Assignment} {now : Nat} {t : Thread Unit} (h : x.Serving now t)
    {bus : Bus} (hblocked : t.Blocked bus now) :
    (∃ k, t.parking.ticket = some k ∧ k ∉ bus.gate.granted) ∨
      ∃ a, t.parking = { alarm := some a } ∧ t.wave = none ∧ now < a.time ∧ a.time ≤ x.due ∧
        ∀ time ≤ a.time, x.Serving time t := by
  cases h with
  | begun h => exact absurd hblocked (not_blocked_of_starts h)
  | pausing h hd hnow hms number hb =>
    obtain ⟨a, ha, hlater⟩ := hblocked
    obtain rfl := Option.some.inj ha
    exact .inr ⟨_, rfl, rfl, hlater, Nat.le.intro hd,
      fun time' hle => .pausing h hd hle hms number hb⟩
  | inLine =>
    obtain ⟨k, hk, hfree⟩ := hblocked
    exact .inl ⟨k, hk, hfree⟩

/-- Nobody stands in line when nobody can go on: all places are free. -/
theorem Covers.tickets_eq_nil (hr : r.Sound) (h : r.Covers n w ps) (hrest : Rest w ps) :
    tickets w.handlings ps = [] := by
  have hplaces := h.places
  rw [hrest.queue] at hplaces
  refine hplaces.tickets_eq_nil hr.places fun k hk => ?_
  rcases List.mem_append.mp hk with hk | hk
  · obtain ⟨h₁, hh, hticket⟩ := List.mem_filterMap.mp hk
    have hblocked := hrest.handlings h₁ hh
    rcases h.handlings h₁ hh with hnoting | ⟨x, -, hserving⟩
    · exact absurd hblocked (not_blocked_of_noting hnoting)
    · rcases serving_of_blocked hserving hblocked with ⟨k', hk', hfree⟩ | ⟨a, hparking, -⟩
      · rw [hk'] at hticket
        exact Option.some.inj hticket ▸ hfree
      · rw [hparking] at hticket
        cases hticket
  · obtain ⟨⟨x, b⟩, hp, hticket⟩ := List.mem_filterMap.mp hk
    have hblocked := hrest.steps _ hp
    have hat : x.At w.now w.bus.collector (x.Underway w) b := (h.steps _ hp).2
    cases hat with
    | fresh => cases hticket
    | ended => cases hticket
    | waiting => cases hticket
    | sending hm hnext hnow hstands ticket =>
      obtain ⟨k', hk', hfree⟩ := hblocked
      exact Option.some.inj (hk'.symm.trans hticket) ▸ hfree

/-- A request that is being served while nobody can go on: its handler takes its time. -/
theorem Covers.serving_later (hr : r.Sound) (h : r.Covers n w ps) (hrest : Rest w ps)
    {h₁ : Handling} (hh : h₁ ∈ w.handlings) {x : Assignment}
    (hserving : x.Serving w.now h₁.thread) :
    ∃ a, h₁.thread.parking = { alarm := some a } ∧ h₁.thread.wave = none ∧ w.now < a.time ∧
      a.time ≤ x.due ∧ ∀ time ≤ a.time, x.Serving time h₁.thread := by
  refine (serving_of_blocked hserving (hrest.handlings h₁ hh)).resolve_left ?_
  rintro ⟨k, hk, -⟩
  have hmem : k ∈ tickets w.handlings ps :=
    List.mem_append_left _ (List.mem_filterMap.mpr ⟨h₁, hh, hk⟩)
  rw [h.tickets_eq_nil hr hrest] at hmem
  cases hmem

/-- A step that has not ended while nobody can go on: it waits for its collection. -/
theorem Covers.waiting_later (hr : r.Sound) (h : r.Covers n w ps) (hrest : Rest w ps)
    {x : Assignment} {s : Strand StepOutcome} (hp : (x, .going s) ∈ ps) :
    ∃ handle a, w.bus.collector.standing handle = .collecting x.collection ∧ x.Underway w ∧
      s = ⟨x.call.await (x.pending handle), { alarm := some a }⟩ ∧ a.time = x.limit ∧
      w.now < a.time := by
  have hblocked := hrest.steps _ hp
  have hat : x.At w.now w.bus.collector (x.Underway w) (.going s) := (h.steps _ hp).2
  cases hat with
  | fresh => exact hblocked.elim
  | sending hm hnext hnow hstands ticket =>
    obtain ⟨k, hk, -⟩ := hblocked
    have hmem : k ∈ tickets w.handlings ps :=
      List.mem_append_right _ (List.mem_filterMap.mpr ⟨_, hp, hk⟩)
    rw [h.tickets_eq_nil hr hrest] at hmem
    cases hmem
  | @waiting handle hstands hunderway alarm halarm =>
    obtain ⟨hopen, a, rfl, hlater⟩ := hblocked
    rcases hstands with ⟨answer, ha, -⟩ | ⟨hcollecting, -⟩
    · have hmem := (Collector.standing_eq_answered_iff h.table).mp ha
      exact absurd (List.mem_map.mpr ⟨_, hmem, rfl⟩) hopen
    · exact ⟨handle, a, hcollecting, hunderway hcollecting, rfl, halarm a rfl, hlater⟩

/-- What is under way while nobody can go on is a request whose handler takes its time. -/
theorem Covers.serving_of_underway (hrest : Rest w ps) {x : Assignment} (h : x.Underway w) :
    ∃ h₁ ∈ w.handlings, x.Serving w.now h₁.thread := by
  cases h with
  | asking h hm =>
    rw [hrest.queue] at hm
    cases hm
  | mailed h hlane hm => exact absurd ⟨_, hlane, List.ne_nil_of_mem hm⟩ (hrest.inbox _)
  | serving h hh => exact ⟨_, hh, h⟩
  | answering h hm =>
    rw [hrest.queue] at hm
    cases hm

/-- Nobody has begun to serve another request when time has passed. -/
theorem Covers.serving_of_later (hr : r.Sound) (h : r.Covers n w ps) {h₁ : Handling}
    (hh : h₁ ∈ w.handlings) {x : Assignment} (hx : x ∈ r.steps) {time : Nat}
    (hserving : x.Serving time h₁.thread) : x.Serving w.now h₁.thread := by
  obtain ⟨y, hy, hs⟩ := (h.handlings h₁ hh).resolve_left fun hnoting =>
    not_serving_of_noting hnoting hserving
  exact hr.eq_of_serving hx hy hserving hs ▸ hs

/-- Time passes up to the next moment for which some work waits. -/
theorem Covers.tick (hr : r.Sound) (h : r.Covers n w ps) (hrest : Rest w ps) {time : Nat}
    (hlater : w.now ≤ time)
    (hhandlings : ∀ h ∈ w.handlings, ∀ a, h.thread.parking.alarm = some a → time ≤ a.time)
    (hsteps : ∀ p ∈ ps, ∀ a, p.2.parking.alarm = some a → time ≤ a.time) :
    r.Covers n { w with now := time } ps := by
  have hserving : ∀ h₁ ∈ w.handlings, ∀ x : Assignment, x.Serving w.now h₁.thread →
      x.Serving time h₁.thread ∧ time ≤ x.due := by
    intro h₁ hh x hx
    obtain ⟨a, hparking, -, -, hdue, hstill⟩ := h.serving_later hr hrest hh hx
    have hle := hhandlings h₁ hh a (by rw [hparking])
    exact ⟨hstill time hle, Nat.le_trans hle hdue⟩
  refine
    { grounds := h.grounds
      queue := by
        rw [show ({ w with now := time } : World).bus.queue = [] from hrest.queue]
        exact nofun
      inbox := fun i lane hlane m hm => absurd ⟨lane, hlane, List.ne_nil_of_mem hm⟩ (hrest.inbox i)
      handlings := fun h₁ hh => ?_
      numbers := h.numbers
      distinct := h.distinct
      steps := fun p hp => ⟨(h.steps p hp).1, ?_⟩
      table := h.table
      places := h.places
      seen := h.seen
      guards := h.guards.mono rfl (fun x hx => ?_) fun x _ h₁ hh hs =>
        ⟨hh, (hserving h₁ hh x hs).1⟩
      load := h.load }
  · exact (h.handlings h₁ hh).imp id fun ⟨x, hx, hs⟩ => ⟨x, hx, (hserving h₁ hh x hs).1⟩
  · obtain ⟨x, b⟩ := p
    cases b with
    | ended o =>
      have hat : x.At w.now w.bus.collector (x.Underway w) (.ended o) := (h.steps _ hp).2
      cases hat with
      | ended hstop => exact .ended (Nat.le_trans hstop hlater)
    | going s =>
      obtain ⟨handle, a, hcollecting, hunderway, rfl, hlimit, -⟩ := h.waiting_later hr hrest hp
      obtain ⟨h₁, hh, hs⟩ := serving_of_underway hrest hunderway
      obtain ⟨hstill, hdue⟩ := hserving h₁ hh x hs
      refine .waiting (.inr ⟨hcollecting, ?_, hdue⟩) (fun _ => .serving hstill hh) fun a' ha => ?_
      · exact hlimit ▸ hsteps _ hp a rfl
      · obtain rfl := Option.some.inj ha
        exact hlimit
  · have hserved : (w.handlings.map fun h₁ => x.served time h₁.thread).sum ≤
        (w.handlings.map fun h₁ => x.served w.now h₁.thread).sum :=
      List.sum_le_sum fun h₁ hh => Assignment.served_le fun hs =>
        Nat.le_of_eq (Assignment.served_of_serving (h.serving_of_later hr hh hx hs)).symm
    unfold Assignment.requests
    dsimp only
    omega

end Roster

end Switchboard
