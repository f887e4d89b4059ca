import Switchboard.Agent.Scripted
import Switchboard.Proofs.Bus.Expectations

/-!
# Whose place is cleared

The wait of somebody who wants a first reply ends when its time is up. He clears the place for his
request some time later, and by the id alone: if the id was registered again in between, it is the new
waiter who loses his place.

* `lapsed` : who waited in vain and has not given up yet; `Network.course_awaitReply` : only such a
  waiter gives up; `Earnest` : everybody keeps to this;
* `Overtaken` : who registers while somebody is about to give up, and loses his place to him;
  `World.removes_successor` : this happens;
* `Clear` : no id is registered while somebody is about to give it up;
* `World.Passage.evicted_iff_overtaken` : what waiters obtain, and who is evicted.
-/

namespace Switchboard

/-! ## Waits in vain -/

/-- Who is about to give up, after one more event. -/
def lapsedAfter (vs : List Waiter) : Happening → List Waiter
  | .answered ⟨.reply v _, .error (.timeout ..)⟩ => vs ++ [v]
  | .answered ⟨.giveUp v, _⟩ => vs.erase v
  | _ => vs

/-- Who waited in vain and has not given up yet. -/
def lapsed (xs : List Happening) : List Waiter := xs.foldl lapsedAfter []

theorem lapsed_concat (xs : List Happening) (x : Happening) :
    lapsed (xs ++ [x]) = lapsedAfter (lapsed xs) x := by
  rw [lapsed, List.foldl_concat]
  rfl

/-- Who is about to give up was so before, or his wait just ended. -/
theorem mem_lapsedAfter {vs : List Waiter} {v : Waiter} {x : Happening} (h : v ∈ lapsedAfter vs x) :
    v ∈ vs ∨ ∃ timeout message attempts,
      x = .answered ⟨.reply v timeout, .error (.timeout message attempts)⟩ := by
  unfold lapsedAfter at h
  split at h
  · rcases List.mem_append.mp h with hold | hnew
    · exact .inl hold
    · obtain rfl := List.mem_singleton.mp hnew
      exact .inr ⟨_, _, _, rfl⟩
  · exact .inl (List.mem_of_mem_erase h)
  · exact .inl h

/-- What is left to do when a wait for a reply has ended. -/
def Network.afterReply (v : Waiter) (answer : Except Fault Message) :
    Routine (Except Fault Message) :=
  match answer with
  | .error (.timeout ..) => .ask (.giveUp v) fun _ => .done answer
  | _ => .done answer

theorem Network.awaitReply_eq (v : Waiter) (timeout : Nat) :
    awaitReply v timeout = .ask (.reply v timeout) (afterReply v) := by
  refine congrArg (Flow.ask _) (funext fun answer => ?_)
  cases answer with
  | ok m => rfl
  | error f => cases f <;> rfl

theorem Network.afterReply_cases (v : Waiter) (answer : Except Fault Message) :
    (∃ message attempts, answer = .error (.timeout message attempts)) ∨
      afterReply v answer = .done answer := by
  cases answer with
  | ok m => exact .inr rfl
  | error f =>
    cases f with
    | timeout message attempts => exact .inl ⟨message, attempts, rfl⟩
    | _ => exact .inr rfl

/-- Whoever waits for a reply gives up only when his wait has ended in vain. -/
theorem Network.course_awaitReply {v u : Waiter} {timeout : Nat} {xs : List Answered}
    {r : Routine (Except Fault Message)} (h : Routine.Course (awaitReply v timeout) xs r)
    (hu : Answered.mk (.giveUp u) () ∈ xs) :
    u = v ∧ ∃ message attempts, xs =
      [⟨.reply v timeout, .error (.timeout message attempts)⟩, ⟨.giveUp v, ()⟩] := by
  have hother : ∀ answer, Answered.mk (.giveUp u) () ≠ ⟨.reply v timeout, answer⟩ :=
    fun answer heq => by cases heq
  rw [awaitReply_eq] at h
  cases h with
  | stay => cases hu
  | go answer h =>
    obtain ⟨message, attempts, rfl⟩ | hdone := afterReply_cases v answer
    · cases h with
      | stay => exact absurd (List.mem_singleton.mp hu) (hother _)
      | go answer h =>
        cases h
        have hlast := (List.mem_cons.mp hu).resolve_left (hother _)
        cases List.mem_singleton.mp hlast
        exact ⟨rfl, _, _, rfl⟩
    · rw [hdone] at h
      cases h
      exact absurd (List.mem_singleton.mp hu) (hother _)

/-- Who waits registered before, and who gives up waited in vain. -/
def Earnest (xs : List Happening) : Prop :=
  ∀ i < xs.length,
    (∀ v ∈ (xs[i]?).bind Happening.waits?, v ∈ (expectations (xs.take i)).map (·.waiter)) ∧
      ∀ v ∈ (xs[i]?).bind Happening.givesUp?, v ∈ lapsed (xs.take i)

instance (xs : List Happening) : Decidable (Earnest xs) :=
  inferInstanceAs (Decidable (∀ i < xs.length,
    (∀ v ∈ (xs[i]?).bind Happening.waits?, v ∈ (expectations (xs.take i)).map (·.waiter)) ∧
      ∀ v ∈ (xs[i]?).bind Happening.givesUp?, v ∈ lapsed (xs.take i)))

namespace Earnest

variable {xs ys : List Happening} {x : Happening} {v : Waiter}

theorem at_append (h : Earnest (xs ++ x :: ys)) :
    (∀ v ∈ x.waits?, v ∈ (expectations xs).map (·.waiter)) ∧ ∀ v ∈ x.givesUp?, v ∈ lapsed xs := by
  have hx := h xs.length (by simp)
  rwa [List.getElem?_append_right (Nat.le_refl _), Nat.sub_self, List.take_left] at hx

theorem of_append (h : Earnest (xs ++ ys)) : Earnest xs := by
  intro i hi
  have hall := h i (by rw [List.length_append]; omega)
  rwa [List.getElem?_append_left hi, List.take_append_of_le_length (Nat.le_of_lt hi)] at hall

theorem concat (h : Earnest xs) (hwaits : ∀ v ∈ x.waits?, v ∈ (expectations xs).map (·.waiter))
    (hgivesUp : ∀ v ∈ x.givesUp?, v ∈ lapsed xs) : Earnest (xs ++ [x]) := by
  intro i hi
  rcases Nat.lt_or_ge i xs.length with hlt | hge
  · rw [List.getElem?_append_left hlt, List.take_append_of_le_length (Nat.le_of_lt hlt)]
    exact h i hlt
  · obtain rfl : i = xs.length := by
      rw [List.length_append, List.length_singleton] at hi
      omega
    rw [List.getElem?_append_right (Nat.le_refl _), Nat.sub_self, List.take_left]
    exact ⟨hwaits, hgivesUp⟩

/-- Who is about to give up registered before. -/
theorem of_lapsed (h : Earnest xs) (hv : v ∈ lapsed xs) : ∃ e ∈ expectations xs, e.waiter = v := by
  induction xs using List.reverseRecOn with
  | nil => cases hv
  | append_singleton xs x ih =>
    have hold : (∃ e ∈ expectations xs, e.waiter = v) → ∃ e ∈ expectations (xs ++ [x]), e.waiter = v := by
      rintro ⟨e, he, hwaiter⟩
      rw [expectations_append]
      exact ⟨_, List.mem_append_left _ (List.mem_map_of_mem he), hwaiter⟩
    rw [lapsed_concat] at hv
    refine hold ?_
    rcases mem_lapsedAfter hv with hv | ⟨timeout, message, attempts, rfl⟩
    · exact ih h.of_append hv
    · exact List.mem_map.mp (h.at_append.1 v rfl)

end Earnest

/-! ## Who loses his place to whom -/

/-- He registered while somebody was about to give up his request, and this one cleared the place
before anything else was decided about him. -/
def Overtaken (xs : List Happening) (e : Expectation) : Prop :=
  ∃ earlier x v before after, xs = earlier ++ x :: e.since ∧ x.waiter? = some e.waiter ∧
    v ∈ lapsed earlier ∧ v.requestId = e.waiter.requestId ∧
      e.since = before ++ .answered ⟨.giveUp v, ()⟩ :: after ∧
        before.findSome? e.waiter.outcomeIn? = none

/-- No id is registered while somebody is about to give it up. -/
def Clear (xs : List Happening) : Prop :=
  ∀ i < xs.length, ∀ u ∈ (xs[i]?).bind Happening.waiter?, ∀ v ∈ lapsed (xs.take i),
    v.requestId ≠ u.requestId

instance (xs : List Happening) : Decidable (Clear xs) :=
  inferInstanceAs (Decidable (∀ i < xs.length, ∀ u ∈ (xs[i]?).bind Happening.waiter?,
    ∀ v ∈ lapsed (xs.take i), v.requestId ≠ u.requestId))

theorem Clear.not_overtaken {xs : List Happening} (h : Clear xs) (e : Expectation) :
    ¬ Overtaken xs e := by
  rintro ⟨earlier, x, v, before, after, hxs, hx, hv, hid, -, -⟩
  subst hxs
  refine h earlier.length (by simp) e.waiter ?_ v ?_ hid
  · rw [List.getElem?_append_right (Nat.le_refl _), Nat.sub_self]
    exact hx
  · rwa [List.take_left]

theorem exists_of_mem_expectations {xs : List Happening} {e : Expectation} (he : e ∈ expectations xs) :
    ∃ earlier x, xs = earlier ++ x :: e.since ∧ x.waiter? = some e.waiter := by
  induction xs with
  | nil => cases he
  | cons x xs ih =>
    rcases List.mem_append.mp he with hfirst | hlater
    · obtain ⟨v, hx, rfl⟩ := Option.map_eq_some_iff.mp (Option.mem_toList.mp hfirst)
      exact ⟨[], x, rfl, hx⟩
    · obtain ⟨earlier, y, rfl, hy⟩ := ih hlater
      exact ⟨x :: earlier, y, rfl, hy⟩

/-- Only somebody else of his request who gives up evicts a waiter. -/
theorem Waiter.outcomeIn?_eq_evicted_iff {u : Waiter} {x : Happening} :
    u.outcomeIn? x = some .evicted ↔
      ∃ v, x = .answered ⟨.giveUp v, ()⟩ ∧ v.requestId = u.requestId ∧ v ≠ u := by
  constructor
  · intro h
    cases x with
    | taken m => cases (Option.ite_none_right_eq_some.mp h).2
    | answered x =>
      obtain ⟨o, a⟩ := x
      cases o with
      | expect id => cases (Option.ite_none_right_eq_some.mp h).2
      | giveUp v =>
        obtain ⟨hid, hother⟩ := Option.ite_none_right_eq_some.mp h
        refine ⟨v, rfl, hid, fun heq => ?_⟩
        rw [if_pos heq] at hother
        cases hother
      | _ => cases h
    | _ => cases h
  · rintro ⟨v, rfl, hid, hne⟩
    exact (if_pos hid).trans (congrArg some (if_neg hne))

/-- Only who has his place is told that his time is up. -/
theorem Waiter.eq_none_of_told {v : Waiter} {timeout : Nat} {timeIsUp : Bool}
    {o : Option Waiter.Outcome} {message : String} {attempts : Option UInt32}
    (h : v.told timeout timeIsUp o = some (.error (.timeout message attempts))) : o = none := by
  rcases o with _ | o
  · rfl
  · cases o <;> cases h

namespace World

variable {w w' : World} {xs ys : List Happening}

namespace Attends

variable {u v : Waiter}

/-- Whoever registers for the request of a waiter decides about him. -/
theorem outcomeIn?_of_waiter? (h : w.Attends xs) {x : Happening} (hmem : x ∈ xs)
    (hx : x.waiter? = some v) (hid : v.requestId = u.requestId) :
    u.outcomeIn? x = some .superseded := by
  cases x with
  | answered x =>
    obtain ⟨o, a⟩ := x
    cases o with
    | expect id =>
      obtain rfl := Option.some.inj hx
      exact if_pos ((h.named id _ hmem).symm.trans hid)
    | _ => cases hx
  | _ => cases hx

/-- Whose time was up had his place then. -/
theorem outcome?_of_late (h : w.Attends xs) {earlier later : List Happening} {e : Expectation}
    {timeout : Nat} {message : String} {attempts : Option UInt32}
    (hxs : xs = earlier ++
      .answered ⟨.reply e.waiter timeout, .error (.timeout message attempts)⟩ :: later)
    (he : e ∈ expectations earlier) : e.outcome? = none := by
  let now : Happening := .answered ⟨.reply e.waiter timeout, .error (.timeout message attempts)⟩
  have hmem : e.extend (now :: later) ∈ expectations xs := by
    rw [hxs, expectations_append]
    exact List.mem_append_left _ (List.mem_map_of_mem he)
  have hnow : (e.since ++ now :: later)[e.since.length]? = some now := by simp
  obtain ⟨timeIsUp, htold⟩ := h.informed _ hmem _ timeout _ hnow
  have hsame : (e.extend (now :: later)).upTo e.since.length = e :=
    congrArg (Expectation.mk e.waiter) List.take_left
  rw [hsame] at htold
  exact Waiter.eq_none_of_told htold

/-- Of two waiters for one request at most one has his place: the one who registered later decides
about the other. -/
theorem not_open_of_open (h : w.Attends xs) {earlier before later : List Happening} {x : Happening}
    {e : Expectation} (hxs : xs = (earlier ++ x :: before) ++ later)
    (he : e ∈ expectations (earlier ++ x :: before)) (hx : x.waiter? = some u)
    (hopen : before.findSome? u.outcomeIn? = none) (hid : e.waiter.requestId = u.requestId)
    (hne : e.waiter ≠ u) : e.outcome? ≠ none := by
  intro hnone
  have hmem : ∀ z ∈ x :: before, z ∈ xs := fun z hz => by
    rw [hxs]
    exact List.mem_append_left _ (List.mem_append_right _ hz)
  rw [expectations_append, expectations, hx] at he
  rcases List.mem_append.mp he with hold | hnew
  · obtain ⟨e₀, -, rfl⟩ := List.mem_map.mp hold
    rw [e₀.outcome?_extend, Option.or_eq_none_iff, List.findSome?_eq_none_iff] at hnone
    have hsuperseded := h.outcomeIn?_of_waiter? (hmem x List.mem_cons_self) hx hid.symm
    cases (hnone.2 x List.mem_cons_self).symm.trans hsuperseded
  · rcases List.mem_append.mp hnew with hfirst | hlater
    · obtain rfl := List.mem_singleton.mp hfirst
      exact hne rfl
    · obtain ⟨start, z, rfl, hz⟩ := exists_of_mem_expectations hlater
      have hbetween : z ∈ start ++ z :: e.since := List.mem_append_right _ List.mem_cons_self
      have hsuperseded := h.outcomeIn?_of_waiter? (hmem z (List.mem_cons_of_mem _ hbetween)) hz hid
      cases (List.findSome?_eq_none_iff.mp hopen z hbetween).symm.trans hsuperseded

/-- While a waiter has his place, nobody else of his request is told that his time is up: whoever is
about to give it up was so before. -/
theorem lapsed_of_open (h : w.Attends xs) (hearnest : Earnest xs) {earlier before later : List Happening}
    {x : Happening} (hxs : xs = earlier ++ x :: (before ++ later)) (hx : x.waiter? = some u)
    (hopen : before.findSome? u.outcomeIn? = none) (hid : v.requestId = u.requestId) (hne : v ≠ u)
    (hv : v ∈ lapsed (earlier ++ x :: before)) : v ∈ lapsed earlier := by
  induction before using List.reverseRecOn generalizing later with
  | nil =>
    rw [lapsed_concat] at hv
    rcases mem_lapsedAfter hv with hv | ⟨timeout, message, attempts, rfl⟩
    · exact hv
    · cases hx
  | append_singleton before y ih =>
    rw [List.findSome?_append, Option.or_eq_none_iff] at hopen
    rw [← List.cons_append, ← List.append_assoc, lapsed_concat] at hv
    rw [List.append_assoc] at hxs
    rcases mem_lapsedAfter hv with hv | ⟨timeout, message, attempts, rfl⟩
    · exact ih hxs hopen.1 hv
    · exfalso
      -- he had his place when his wait ended, so he registered neither before the other one nor after
      let now : Happening := .answered ⟨.reply v timeout, .error (.timeout message attempts)⟩
      have hsplit : xs = (earlier ++ x :: before) ++ now :: later := by
        rw [hxs]
        simp [now]
      obtain ⟨e, he, rfl⟩ := List.mem_map.mp ((hsplit ▸ hearnest).at_append.1 v rfl)
      exact h.not_open_of_open hsplit he hx hopen.1 hid hne (h.outcome?_of_late hsplit he)

/-- Whoever is overtaken is evicted: the other one registered before him, and is not he. -/
theorem evicted_of_overtaken (h : w.Attends xs) (hearnest : Earnest xs) {e : Expectation}
    (hover : Overtaken xs e) : e.outcome? = some .evicted := by
  obtain ⟨earlier, x, v, before, after, hxs, hx, hv, hid, hsince, hopen⟩ := hover
  have hother : v ≠ e.waiter := by
    obtain ⟨e₀, he₀, rfl⟩ := (hxs ▸ hearnest).of_append.of_lapsed hv
    have hhandles := h.handles
    rw [hxs, expectations_append, expectations, hx, List.map_append] at hhandles
    have hearlier : e₀.waiter.handle ∈
        ((expectations earlier).map (·.extend (x :: e.since))).map (·.waiter.handle) := by
      rw [List.map_map]
      exact List.mem_map_of_mem he₀
    exact fun heq => (List.nodup_append.mp hhandles).2.2 _ hearlier _ List.mem_cons_self
      (congrArg Waiter.handle heq)
  rw [Expectation.outcome?, hsince, List.findSome?_append, hopen, Option.none_or,
    List.findSome?_cons, Waiter.outcomeIn?_eq_evicted_iff.mpr ⟨v, rfl, hid, hother⟩]

/-- Whoever is evicted was overtaken: the other one's time was up before he registered. -/
theorem overtaken_of_evicted (h : w.Attends xs) (hearnest : Earnest xs) {e : Expectation}
    (he : e ∈ expectations xs) (hevicted : e.outcome? = some .evicted) : Overtaken xs e := by
  obtain ⟨earlier, x, hxs, hx⟩ := exists_of_mem_expectations he
  obtain ⟨before, y, after, hsince, hy, hbefore⟩ := List.findSome?_eq_some_iff.mp hevicted
  obtain ⟨v, rfl, hid, hne⟩ := Waiter.outcomeIn?_eq_evicted_iff.mp hy
  have hopen : before.findSome? e.waiter.outcomeIn? = none :=
    List.findSome?_eq_none_iff.mpr hbefore
  have hall : xs = earlier ++ x :: (before ++ .answered ⟨.giveUp v, ()⟩ :: after) := by
    rw [hxs, hsince]
  have hsplit : xs = (earlier ++ x :: before) ++ .answered ⟨.giveUp v, ()⟩ :: after := by
    rw [hall]
    simp
  have hv : v ∈ lapsed (earlier ++ x :: before) := (hsplit ▸ hearnest).at_append.2 v rfl
  exact ⟨earlier, x, v, before, after, hxs, hx, h.lapsed_of_open hearnest hall hx hopen hid hne hv,
    hid, hsince, hopen⟩

end Attends

/-- Whoever registers for a request that somebody is about to give up can be evicted by him. -/
theorem Passage.exists_evicted {settings : Settings} (h : (World.opened settings).Passage xs w)
    (hearnest : Earnest xs) {v : Waiter} (hv : v ∈ lapsed xs) :
    ∃ u w', let ys := xs ++ [.answered ⟨.expect v.requestId, u⟩, .answered ⟨.giveUp v, ()⟩]
      (World.opened settings).Passage ys w' ∧ Earnest ys ∧
        Expectation.outcome? ⟨u, [.answered ⟨.giveUp v, ()⟩]⟩ = some .evicted := by
  let u := (w.bus.waiters.expect v.requestId).2
  let registers : Happening := .answered ⟨.expect v.requestId, u⟩
  let clears : Happening := .answered ⟨.giveUp v, ()⟩
  have hregistered := h.step (.asks { world := w } (.expect v.requestId))
  have hcleared := hregistered.step (.asks { world := _ } (.giveUp v))
  have hys : (xs ++ [registers]) ++ [clears] = xs ++ [registers, clears] := by simp
  have hv' : v ∈ lapsed (xs ++ [registers]) := by
    rwa [lapsed_concat]
  have hearnest' : Earnest (xs ++ [registers, clears]) := by
    rw [← hys]
    refine (hearnest.concat (by simp [registers, Happening.waits?])
      (by simp [registers, Happening.givesUp?])).concat (by simp [clears, Happening.waits?]) ?_
    rintro u ⟨⟩
    exact hv'
  have hpassage : (World.opened settings).Passage (xs ++ [registers, clears]) _ := hys ▸ hcleared
  refine ⟨u, _, hpassage, hearnest', hpassage.attends.evicted_of_overtaken hearnest' ?_⟩
  exact ⟨xs, registers, v, [], [], rfl, rfl, hv, rfl, rfl, rfl⟩

/-- **Everybody who waits for a reply is told the first one, and no two the same; who gives up takes
away his own place and no other, unless he overtakes somebody who registered after his time was up.** -/
theorem Passage.evicted_iff_overtaken {settings : Settings}
    (h : (World.opened settings).Passage xs w) (hearnest : Earnest xs) :
    w.Heeds xs ∧
      (∀ e ∈ expectations xs, e.outcome? = some .evicted ↔ Overtaken xs e) ∧
      (Clear xs → ∀ e ∈ expectations xs, e.outcome? ≠ some .evicted) ∧
      ∀ v ∈ lapsed xs, ∃ u w',
        let ys := xs ++ [.answered ⟨.expect v.requestId, u⟩, .answered ⟨.giveUp v, ()⟩]
        (World.opened settings).Passage ys w' ∧ Earnest ys ∧
          Expectation.outcome? ⟨u, [.answered ⟨.giveUp v, ()⟩]⟩ = some .evicted := by
  have hattends := h.attends
  refine ⟨h.heeds, fun e he => ⟨hattends.overtaken_of_evicted hearnest he,
    hattends.evicted_of_overtaken hearnest⟩, fun hclear e he hevicted => ?_, fun v hv => ?_⟩
  · exact hclear.not_overtaken e (hattends.overtaken_of_evicted hearnest he hevicted)
  · exact h.exists_evicted hearnest hv

/-! ## A place that is cleared by somebody else -/

/-- A world with its history, after somebody asked something in it. -/
def ask (p : World × List Happening) (o : Operation) : World × List Happening :=
  let s : Scene := { world := p.1 }
  ((s.attempt o).1.world, p.2 ++ s.answered o)

theorem Passage.asks {p : World × List Happening} (h : w.Passage p.2 p.1) (os : List Operation) :
    w.Passage (os.foldl ask p).2 (os.foldl ask p).1 := by
  induction os generalizing p with
  | nil => exact h
  | cons o os ih => exact ih (h.step (.asks { world := p.1 } o))

/-- A waiter registers for the request "r" and waits in vain. Before he clears the place, another one
registers. -/
def succeeded : World × List Happening :=
  [.expect "r", .reply ⟨0, "r"⟩ 0, .expect "r"].foldl ask (opened {}, [])

/-- Who gives up takes away the place of the one who registered in between. -/
theorem removes_successor :
    ¬ ∀ (settings : Settings) (w : World) (xs : List Happening),
      (opened settings).Passage xs w → Earnest xs → ∀ v ∈ lapsed xs, ∀ s : Scene, s.world = w →
        ∀ place ∈ w.bus.waiters.entries, place.2 ≠ v.handle →
          place ∈ (s.attempt (.giveUp v)).1.world.bus.waiters.entries := by
  intro h
  have hpassage : (opened {}).Passage succeeded.2 succeeded.1 := Passage.asks .stay _
  have hkept := h {} _ _ hpassage (by decide +kernel) ⟨0, "r"⟩ (by decide +kernel)
    { world := succeeded.1 } rfl ("r", 1) (by decide +kernel) (by decide)
  exact absurd hkept (by decide +kernel)

/-- The reply that the waiters and a collection want. -/
def wanted : Message := .response ⟨"m", default⟩ "p" "u" (.bool true) "r" "q"

/-- The second waiter loses his place when the first one gives up. Two more register for the request
"r", and a collection is started for it. Then the reply is sent to the agent "u" and delivered, and the
three wait. -/
def rivals : World × List Happening :=
  let (w, u) := (opened {}).create (Agent.scripted "u" [] [] [])
  let p := [.expect "r", .reply ⟨0, "r"⟩ 0, .expect "r", .giveUp ⟨0, "r"⟩, .expect "r", .expect "r",
    .collect "r" "a" ["p"] .all none, .send wanted none].foldl ask
      ((w.register u).start, [.registered "u", .started])
  [.reply ⟨1, "r"⟩ 100, .reply ⟨2, "r"⟩ 100, .reply ⟨3, "r"⟩ 100].foldl ask
    (p.1.deliverOne, p.2 ++ [.taken wanted])

/-- The last one is told the reply and the others that their places are lost; the message is in the
lane of its addressee. -/
theorem evicted_iff_overtaken_rivals :
    (opened {}).Passage rivals.2 rivals.1 ∧ Earnest rivals.2 ∧ rivals.1.Heeds rivals.2 ∧
      (∀ e ∈ expectations rivals.2, e.outcome? = some .evicted ↔ Overtaken rivals.2 e) ∧
      (expectations rivals.2).map (fun e => (e.waiter, e.outcome?)) =
        [(⟨0, "r"⟩, some .superseded), (⟨1, "r"⟩, some .evicted), (⟨2, "r"⟩, some .superseded),
          (⟨3, "r"⟩, some (.reply wanted))] ∧
      inboxAt rivals.1.bus.lanes 0 = [wanted] := by
  have hpassage : (opened {}).Passage rivals.2 rivals.1 := by
    have hcreated : (opened {}).Passage [] ((opened {}).create (Agent.scripted "u" [] [] [])).1 :=
      .single (.aside ⟨rfl, rfl, rfl, rfl, fun h hh => by cases hh⟩)
    have hstarted := (hcreated.step (@Step.registers _ 0 _ rfl)).step (.starts _)
    exact Passage.asks ((Passage.asks hstarted _).step (.delivers rfl rfl)) _
  have hearnest : Earnest rivals.2 := by decide +kernel
  obtain ⟨hheeds, hevicted, -, -⟩ := Passage.evicted_iff_overtaken hpassage hearnest
  exact ⟨hpassage, hearnest, hheeds, hevicted, by decide +kernel, by decide +kernel⟩

end World

end Switchboard
