import Switchboard.Proofs.Orchestrate.Records
import Switchboard.Proofs.Orchestrate.Schedules
import Switchboard.Proofs.Orchestrate.Steps

/-!
# The course of a schedule

* `Orchestrator.Brief` : what an orchestrator runs: its request, schedule and deadline;
* `Brief.Ended` : how a step came to its end: by the answer of its collection, or by the deadline;
* `Brief.addsAll_of_course` : in the end the ends of all steps are written down, wave by wave;
* `Brief.Reached` : some waves are done, and the records say how their steps ended;
* `Brief.Reached.finish` : what the records say in the end;
* `Brief.Reached.exists_wave`, `Brief.Reached.exists_step` : what is sent belongs to a step whose
  wave was reached before.
-/

namespace Switchboard

/-- What does not stand in the first part of a list comes after it. -/
theorem exists_of_append_eq_append_cons {α : Type} {xs ys before after : List α} {x : α}
    (hx : x ∉ xs) (h : xs ++ ys = before ++ x :: after) :
    ∃ before', before = xs ++ before' ∧ ys = before' ++ x :: after := by
  rcases List.append_eq_append_iff.mp h with ⟨zs, hbefore, hys⟩ | ⟨zs, hxs, hrest⟩
  · exact ⟨zs, hbefore, hys⟩
  · rcases zs with _ | ⟨y, zs⟩
    · exact ⟨[], by simpa using hxs.symm, by simpa using hrest.symm⟩
    · obtain ⟨rfl, -⟩ := List.cons.inj hrest
      exact absurd (hxs ▸ List.mem_append_right _ List.mem_cons_self) hx

/-- What an orchestrator runs, until when. -/
structure Orchestrator.Brief where
  orchestrator : Orchestrator
  requestId : String
  schedule : Schedule
  deadline : Nat

namespace Orchestrator.Brief

/-- The step at a position. -/
def call? (b : Brief) (p : Progress) (position : Nat) : Option StepCall :=
  b.orchestrator.call? b.requestId b.schedule b.deadline p position

def calls (b : Brief) (p : Progress) (wave : List Nat) : List StepCall :=
  wave.filterMap (b.call? p)

/-- The waves from one on. -/
def run (b : Brief) (n : Nat) (waves : List (List Nat)) (p : Progress) : Program Progress :=
  b.orchestrator.runWaves b.requestId b.schedule b.deadline n waves p

theorem run_cons (b : Brief) (n : Nat) (wave : List Nat) (rest : List (List Nat))
    (p : Progress) :
    b.run n (wave :: rest) p =
      .ask (.plain .clock) fun (now : Nat) =>
        if b.deadline ≤ now then b.run (n + 1) rest (p.skipWave b.schedule n wave)
        else .ask (.wave (b.calls p wave)) fun (outcomes : List StepOutcome) =>
          b.run (n + 1) rest (p.recordWave b.schedule n wave outcomes) := rfl

/-- A step came to its end in these exchanges: its collection was answered, or its wave found the
deadline past. -/
def Ended (b : Brief) (xs : List Answered) (e : StepEnd) : Prop :=
  (∃ p call, b.call? p e.position = some call ∧ call.EndedIn xs e.outcome) ∨
    e.outcome = Progress.skipped ∧ ∃ now : Nat, b.deadline ≤ now ∧ ⟨.clock, now⟩ ∈ xs

theorem Ended.mono {b : Brief} {xs ys : List Answered} {e : StepEnd} (h : b.Ended xs e)
    (hsub : xs.Sublist ys) : b.Ended ys e := by
  rcases h with ⟨p, call, hcall, hend⟩ | ⟨hskip, now, hlate, hmem⟩
  · exact .inl ⟨p, call, hcall, hend.mono hsub⟩
  · exact .inr ⟨hskip, now, hlate, hsub.subset hmem⟩

theorem Ended.plain {b : Brief} {xs : List Answered} {e : StepEnd} (h : b.Ended xs e) :
    e.outcome.Plain := by
  rcases h with ⟨p, call, -, providers, now, pending, answer, -, ho⟩ | ⟨hskip, -⟩
  · rw [ho]
    exact call.plain_outcome answer
  · rw [hskip]
    exact fun _ => ⟨rfl, _, rfl⟩

/-- There is a step at each position. -/
def Fits (b : Brief) (wave : List Nat) : Prop := ∀ i ∈ wave, i < b.schedule.steps.length

theorem exists_call? {b : Brief} (p : Progress) {i : Nat} (hi : i < b.schedule.steps.length) :
    ∃ call, b.call? p i = some call := by
  rw [call?, Orchestrator.call?, List.getElem?_eq_getElem hi]
  exact ⟨_, rfl⟩

theorem getElem?_calls {b : Brief} (p : Progress) {wave : List Nat} (hfits : b.Fits wave) {j i : Nat}
    (hj : wave[j]? = some i) : (b.calls p wave)[j]? = b.call? p i := by
  induction wave generalizing j with
  | nil => simp at hj
  | cons k rest ih =>
    obtain ⟨hk, hrest⟩ := List.forall_mem_cons.mp hfits
    obtain ⟨call, hcall⟩ := exists_call? p hk
    rw [calls, List.filterMap_cons_some hcall]
    cases j with
    | zero =>
      obtain rfl : k = i := by simpa using hj
      exact hcall.symm
    | succ j => exact ih hrest (by simpa using hj)

theorem length_calls {b : Brief} (p : Progress) {wave : List Nat} (hfits : b.Fits wave) :
    (b.calls p wave).length = wave.length := by
  induction wave with
  | nil => rfl
  | cons k rest ih =>
    obtain ⟨hk, hrest⟩ := List.forall_mem_cons.mp hfits
    obtain ⟨call, hcall⟩ := exists_call? p hk
    rw [calls, List.filterMap_cons_some hcall, List.length_cons, List.length_cons, ← ih hrest]
    rfl

/-- When all steps of a wave have ended, each had the answer of its collection. -/
theorem ended_of_sideBySide {b : Brief} {p : Progress} {wave : List Nat} (hfits : b.Fits wave)
    {xs : List Answered} {outcomes : List StepOutcome}
    (h : SideBySide ((b.calls p wave).map StepCall.run) xs (outcomes.map .done)) (n : Nat) :
    outcomes.length = wave.length ∧ ∀ e ∈ StepEnd.ofWave n wave outcomes, b.Ended xs e := by
  have hlength : outcomes.length = wave.length := by
    have heq := h.length_eq
    rwa [List.length_map, List.length_map, length_calls p hfits] at heq
  refine ⟨hlength, fun e he => ?_⟩
  obtain ⟨⟨i, o⟩, hx, rfl⟩ := List.mem_map.mp he
  obtain ⟨j, hj⟩ := List.getElem?_of_mem hx
  obtain ⟨hi, ho⟩ : wave[j]? = some i ∧ outcomes[j]? = some o := by
    simpa [List.getElem?_zip_eq_some] using hj
  obtain ⟨call, hcall⟩ := exists_call? p (hfits i (List.mem_of_getElem? hi))
  have hrun : ((b.calls p wave).map StepCall.run)[j]? = some call.run := by
    simp [getElem?_calls p hfits hi, hcall]
  have hdone : (outcomes.map Flow.done : List (Routine StepOutcome))[j]? = some (.done o) := by
    simp [ho]
  obtain ⟨ys, hsub, hcourse⟩ := h.course hrun hdone
  exact .inl ⟨p, call, hcall, (StepCall.endedIn_of_course hcourse).mono hsub⟩

/-- In the end the ends of all steps have been written down, wave by wave. -/
theorem addsAll_of_course {b : Brief} {n : Nat} {waves : List (List Nat)} {p p' : Progress}
    {xs : List Answered} (hfits : ∀ wave ∈ waves, b.Fits wave)
    (hcourse : Program.Course (b.run n waves p) xs ⟨.done p', none⟩) :
    ∃ ends, ends.map (·.place) = inWaves n waves ∧ (∀ e ∈ ends, b.Ended xs e) ∧
      Progress.AddsAll b.schedule ends p p' := by
  induction waves generalizing xs p n with
  | nil =>
    cases hcourse
    exact ⟨[], rfl, by simp, .nil _⟩
  | cons wave rest ih =>
    obtain ⟨hwave, hrest⟩ := List.forall_mem_cons.mp hfits
    rw [run_cons] at hcourse
    cases hcourse with
    | plain now hcourse =>
      dsimp only at hcourse
      split at hcourse
      · next hlate =>
        obtain ⟨later, hplaces, hended, hadds⟩ := ih hrest hcourse
        refine ⟨_, ?_, fun e he => ?_, (Progress.addsAll_skipWave _ n wave p).append hadds⟩
        · rw [List.map_append, StepEnd.places_ofWave (List.length_map _), hplaces, inWaves]
        · rcases List.mem_append.mp he with he | he
          · rw [Progress.ofWave_skipped] at he
            obtain ⟨i, -, rfl⟩ := List.mem_map.mp he
            exact .inr ⟨rfl, now, hlate, List.mem_cons_self⟩
          · exact (hended e he).mono (List.sublist_cons_self _ _)
      · cases hcourse with
        | wave hside hcourse =>
          obtain ⟨hlength, hnow⟩ := ended_of_sideBySide hwave hside n
          obtain ⟨later, hplaces, hended, hadds⟩ := ih hrest hcourse
          refine ⟨_, ?_, fun e he => ?_, (Progress.addsAll_recordWave _ n wave p _).append hadds⟩
          · rw [List.map_append, StepEnd.places_ofWave hlength, hplaces, inWaves]
          · rcases List.mem_append.mp he with he | he
            · exact ((hnow e he).mono (List.sublist_append_left _ _)).mono (List.sublist_cons_self _ _)
            · exact ((hended e he).mono (List.sublist_append_right _ _)).mono
                (List.sublist_cons_self _ _)

/-- What is sent while the steps of a wave are under way is the request of one of them. -/
theorem exists_call_of_sideBySide {b : Brief} {p : Progress} {wave : List Nat}
    {xs : List Answered} {steps : List (Routine StepOutcome)}
    (h : SideBySide ((b.calls p wave).map StepCall.run) xs steps) {x : Answered} (hx : x ∈ xs)
    {m : Message} {patience : Option Nat} (hsend : x.operation = .send m patience) :
    ∃ i ∈ wave, ∃ call, b.call? p i = some call ∧ call.Requests m := by
  obtain ⟨j, r, r', ys, hr, -, -, hcourse, hmem⟩ := h.exists_course_of_mem hx
  rw [List.getElem?_map] at hr
  obtain ⟨call, hcall, rfl⟩ := Option.map_eq_some_iff.mp hr
  obtain ⟨i, hi, hcall⟩ := List.mem_filterMap.mp (List.mem_of_getElem? hcall)
  exact ⟨i, hi, call, hcall, StepCall.requests_of_course hcourse hmem hsend⟩

/-! ## Waves that are done -/

/-- Certain steps came to their end in these exchanges, and the records say how. -/
structure Reached (b : Brief) (xs : List Answered) (ends : List StepEnd) (p : Progress) :
    Prop where
  records : p.Records b.schedule ends
  ended : ∀ e ∈ ends, b.Ended xs e

namespace Reached

variable {b : Brief} {xs ys : List Answered} {ends : List StepEnd} {p p' : Progress} {n : Nat}
  {wave : List Nat} {rest : List (List Nat)}

/-- A wave after those that are done finds the deadline past. -/
theorem skip (h : b.Reached xs ends p) {now : Nat} (hlate : b.deadline ≤ now)
    (hnew : ((ends.map (·.place) ++ wave.map fun i => (n, i)).map
      fun x => b.schedule.key x.2).Nodup) :
    b.Reached (xs ++ [⟨.clock, now⟩])
      (ends ++ StepEnd.ofWave n wave (wave.map fun _ => Progress.skipped))
      (p.skipWave b.schedule n wave) where
  records := by
    refine h.records.addAll (Progress.addsAll_skipWave ..) ?_
    rw [StepEnd.map_key_eq, List.map_append, StepEnd.places_ofWave (by simp)]
    exact hnew
  ended := by
    intro e he
    rcases List.mem_append.mp he with he | he
    · exact (h.ended e he).mono (List.sublist_append_left _ _)
    · rw [Progress.ofWave_skipped] at he
      obtain ⟨i, -, rfl⟩ := List.mem_map.mp he
      exact .inr ⟨rfl, now, hlate, List.mem_append_right _ (List.mem_singleton.mpr rfl)⟩

/-- The steps of a wave after those that are done have ended. -/
theorem record (h : b.Reached xs ends p) (hfits : b.Fits wave) {outcomes : List StepOutcome}
    (hside : SideBySide ((b.calls p wave).map StepCall.run) ys (outcomes.map .done))
    (hnew : ((ends.map (·.place) ++ wave.map fun i => (n, i)).map
      fun x => b.schedule.key x.2).Nodup) :
    b.Reached (xs ++ ys) (ends ++ StepEnd.ofWave n wave outcomes)
      (p.recordWave b.schedule n wave outcomes) := by
  obtain ⟨hlength, hended⟩ := ended_of_sideBySide hfits hside n
  refine ⟨h.records.addAll (Progress.addsAll_recordWave ..) ?_, fun e he => ?_⟩
  · rw [StepEnd.map_key_eq, List.map_append, StepEnd.places_ofWave hlength]
    exact hnew
  · rcases List.mem_append.mp he with he | he
    · exact (h.ended e he).mono (List.sublist_append_left _ _)
    · exact (hended e he).mono (List.sublist_append_right _ _)

theorem mono (h : b.Reached xs ends p) (hsub : xs.Sublist ys) : b.Reached ys ends p :=
  ⟨h.records, fun e he => (h.ended e he).mono hsub⟩

/-- The waves from one on come after those that are done, each position once. -/
def Follow (b : Brief) (ends : List StepEnd) (n : Nat) (waves : List (List Nat)) : Prop :=
  (∀ wave ∈ waves, b.Fits wave) ∧
    ((ends.map (·.place) ++ inWaves n waves).map fun x => b.schedule.key x.2).Nodup

theorem Follow.first (h : Follow b ends n (wave :: rest)) :
    b.Fits wave ∧ ((ends.map (·.place) ++ wave.map fun i => (n, i)).map
      fun x => b.schedule.key x.2).Nodup := by
  refine ⟨h.1 wave List.mem_cons_self, h.2.sublist ?_⟩
  exact ((List.sublist_append_left _ _).append_left _).map _

theorem Follow.next (h : Follow b ends n (wave :: rest)) {outcomes : List StepOutcome}
    (hlength : outcomes.length = wave.length) :
    Follow b (ends ++ StepEnd.ofWave n wave outcomes) (n + 1) rest := by
  refine ⟨fun w hw => h.1 w (List.mem_cons_of_mem _ hw), ?_⟩
  have hnodup := h.2
  rwa [inWaves, ← List.append_assoc, ← StepEnd.places_ofWave hlength, ← List.map_append] at hnodup

/-- Nothing is done yet. -/
theorem start (b : Brief) : b.Reached [] [] (.start b.schedule) :=
  ⟨Progress.records_start _, by simp⟩

/-- All waves of a schedule come after nothing. -/
theorem Follow.all (h : b.schedule.Sound) : Follow b [] 0 b.schedule.waves := by
  refine ⟨fun wave hw i hi => ?_, h.perm_keys.nodup_iff.mpr h.nodup_keys⟩
  exact List.mem_range.mp (h.perm.mem_iff.mp (List.mem_flatten.mpr ⟨wave, hw, hi⟩))

/-- In the end all steps have come to their ends, wave by wave. -/
theorem finish {waves : List (List Nat)} (h : b.Reached xs ends p)
    (hcourse : Program.Course (b.run n waves p) ys ⟨.done p', none⟩)
    (hfollow : Follow b ends n waves) :
    ∃ later, later.map (·.place) = inWaves n waves ∧ b.Reached (xs ++ ys) (ends ++ later) p' := by
  obtain ⟨later, hplaces, hended, hadds⟩ := addsAll_of_course hfollow.1 hcourse
  refine ⟨later, hplaces, h.records.addAll hadds ?_, fun e he => ?_⟩
  · rw [StepEnd.map_key_eq, List.map_append, hplaces]
    exact hfollow.2
  · rcases List.mem_append.mp he with he | he
    · exact (h.ended e he).mono (List.sublist_append_left _ _)
    · exact (hended e he).mono (List.sublist_append_right _ _)

/-- What is sent is the request of a step, whose wave had been reached before. -/
theorem exists_wave {waves : List (List Nat)} {r : Program.Rest Progress}
    (h : b.Reached xs ends p) (hcourse : Program.Course (b.run n waves p) ys r)
    (hfollow : Follow b ends n waves) {earlier later : List Answered} {x : Answered}
    (hx : ys = earlier ++ x :: later) {m : Message} {patience : Option Nat}
    (hsend : x.operation = .send m patience) :
    ∃ k wave rest before after done q, waves.drop k = wave :: rest ∧
      ys = before ++ after ∧ before <+: earlier ∧
      done.map (·.place) = ends.map (·.place) ++ inWaves n (waves.take k) ∧
      b.Reached (xs ++ before) done q ∧ Follow b done (n + k) (wave :: rest) ∧
      Program.Course (b.run (n + k) (wave :: rest) q) after r ∧
      ∃ i ∈ wave, ∃ call, b.call? q i = some call ∧ call.Requests m := by
  induction waves generalizing xs ys ends p n earlier with
  | nil =>
    cases hcourse
    simp at hx
  | cons wave rest ih =>
    obtain ⟨hfits, hnew⟩ := hfollow.first
    by_cases hhere : ∃ i ∈ wave, ∃ call, b.call? p i = some call ∧ call.Requests m
    · refine ⟨0, wave, rest, [], ys, ends, p, rfl, rfl, List.nil_prefix, ?_, ?_, hfollow,
        hcourse, hhere⟩
      · simp [inWaves]
      · simpa using h
    -- the request belongs to a later wave, so it is sent once this one is done
    suffices hlater : ∃ before after outcomes earlier' q, outcomes.length = wave.length ∧
        ys = before ++ after ∧ earlier = before ++ earlier' ∧ after = earlier' ++ x :: later ∧
        b.Reached (xs ++ before) (ends ++ StepEnd.ofWave n wave outcomes) q ∧
        Program.Course (b.run (n + 1) rest q) after r by
      obtain ⟨before, after, outcomes, earlier', q, hlength, rfl, rfl, hafter, hreached, hrest⟩ :=
        hlater
      obtain ⟨k, w, rest', before', after', done, q', hwaves, rfl, hprefix, hdone, hreached',
        hfollow', hcourse', hcall⟩ := ih hreached hrest (hfollow.next hlength) hafter
      refine ⟨k + 1, w, rest', before ++ before', after', done, q', hwaves, ?_, ?_, ?_, ?_, ?_,
        ?_, hcall⟩
      · rw [List.append_assoc]
      · exact (List.prefix_append_right_inj before).mpr hprefix
      · rw [hdone, List.map_append, StepEnd.places_ofWave hlength, List.take_succ_cons, inWaves,
          List.append_assoc]
      · rwa [← List.append_assoc]
      · rwa [show n + (k + 1) = n + 1 + k by omega]
      · rwa [show n + (k + 1) = n + 1 + k by omega]
    rw [run_cons] at hcourse
    cases hcourse with
    | stop => simp at hx
    | @plain _ _ zs _ now hcourse =>
      cases earlier with
      | nil =>
        obtain ⟨rfl, -⟩ := List.cons.inj hx
        cases hsend
      | cons y earlier =>
        obtain ⟨rfl, hzs⟩ := List.cons.inj hx
        dsimp only at hcourse
        split at hcourse
        · rename_i hlate
          exact ⟨[_], zs, wave.map fun _ => Progress.skipped, earlier, _, List.length_map _, rfl,
            rfl, hzs, h.skip hlate hnew, hcourse⟩
        · cases hcourse with
          | stop => simp at hzs
          | within hside =>
            exact absurd (exists_call_of_sideBySide hside (by simp [hzs]) hsend) hhere
          | @wave _ _ mid after outcomes _ hside hcourse =>
            have hmid : x ∉ mid := fun hx =>
              hhere (exists_call_of_sideBySide hside hx hsend)
            obtain ⟨earlier', rfl, hafter⟩ := exists_of_append_eq_append_cons hmid hzs
            have hreached := (h.mono (List.sublist_append_left xs [⟨.clock, now⟩])).record
              (n := n) hfits hside hnew
            exact ⟨⟨.clock, now⟩ :: mid, after, outcomes, earlier', _,
              (ended_of_sideBySide hfits hside n).1, rfl, rfl, hafter, by simpa using hreached,
              hcourse⟩

/-- What is sent in the course of a schedule is the request of a step of some wave. All steps of
the waves before had ended, and the ends of all steps go on from theirs. -/
theorem exists_step {r : Program.Rest Progress} (hsound : b.schedule.Sound)
    (hcourse : Program.Course (b.run 0 b.schedule.waves (.start b.schedule)) xs r)
    {earlier later : List Answered} {x : Answered} (hx : xs = earlier ++ x :: later) {m : Message}
    {patience : Option Nat} (hsend : x.operation = .send m patience) :
    ∃ k wave done q i call, b.schedule.waves[k]? = some wave ∧
      done.map (·.place) = inWaves 0 (b.schedule.waves.take k) ∧
      (done.map (·.key b.schedule)).Nodup ∧ b.Reached earlier done q ∧
      i ∈ wave ∧ b.call? q i = some call ∧ call.Requests m ∧
      ∀ p, r = ⟨.done p, none⟩ → ∃ more,
        (done ++ more).map (·.place) = b.schedule.places ∧ b.Reached xs (done ++ more) p := by
  obtain ⟨k, wave, rest, before, after, done, q, hdrop, rfl, hinitial, hplaces, hreached, hfollow,
    hrest, i, hi, call, hcall, hm⟩ := (Reached.start b).exists_wave hcourse (Follow.all hsound) hx hsend
  have hwave : b.schedule.waves[k]? = some wave := by
    rw [← List.head?_drop, hdrop]
    rfl
  have hnodup : (done.map (·.key b.schedule)).Nodup := by
    have hall := hfollow.2
    rw [List.map_append] at hall
    rw [StepEnd.map_key_eq]
    exact (List.nodup_append.mp hall).1
  refine ⟨k, wave, done, q, i, call, hwave, hplaces, hnodup, hreached.mono hinitial.sublist, hi,
    hcall, hm, fun p hp => ?_⟩
  subst hp
  obtain ⟨more, hmore, hfinal⟩ := hreached.finish hrest hfollow
  refine ⟨more, ?_, hfinal⟩
  have hlt : k < b.schedule.waves.length := (List.getElem?_eq_some_iff.mp hwave).1
  rw [List.map_append, hplaces, hmore, Schedule.places]
  conv_rhs => rw [← List.take_append_drop k b.schedule.waves, hdrop, inWaves_append,
    List.length_take_of_le (Nat.le_of_lt hlt)]
  rfl

end Reached

end Orchestrator.Brief

end Switchboard
