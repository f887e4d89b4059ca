import Switchboard.Proofs.Orchestrate.Accounts

/-!
# What a step is told

* `HistoryEntry.told` : what a later step is told of a step;
* `Orchestrator.Brief.Reached.context_eq` : a step is told of those it depends on that came in an
  earlier wave, as the records have them;
* `Orchestrator.Over` : a step has come to its end;
* `Orchestrator.contexts_of_course` : what every request carries, whatever the surroundings answer.
-/

namespace Switchboard

/-- What a later step is told of a step. -/
def HistoryEntry.told (e : HistoryEntry) : Json :=
  .obj [
    ("capability", .str e.key),
    ("from_agent", Json.ofOption .str e.fromAgent),
    ("result", e.result)]

open CapabilityGraph (waveOf)

namespace Orchestrator

variable {o : Orchestrator} {r : GraphRequest} {entries : List (String × List String)}
  {start : Nat}

/-! ## Steps that are done -/

/-- What the records say of a step that is done. -/
def noted? (s : Schedule) (done : List StepEnd) (key : String) : Option HistoryEntry :=
  (done.find? (·.key s == key)).map (·.entry s)

theorem noted?_eq_some_iff {s : Schedule} {done : List StepEnd} (hd : (done.map (·.key s)).Nodup)
    {key : String} {e : HistoryEntry} :
    noted? s done key = some e ↔ ∃ f ∈ done, f.key s = key ∧ f.entry s = e := by
  rw [noted?, Option.map_eq_some_iff]
  constructor
  · rintro ⟨f, hf, rfl⟩
    obtain ⟨hmem, hkey⟩ := (find?_key_eq_some_iff hd).mp hf
    exact ⟨f, hmem, hkey, rfl⟩
  · rintro ⟨f, hmem, hkey, rfl⟩
    exact ⟨f, (find?_key_eq_some_iff hd).mpr ⟨hmem, hkey⟩, rfl⟩

theorem noted?_eq_none_iff {s : Schedule} {done : List StepEnd} {key : String} :
    noted? s done key = none ↔ key ∉ done.map (·.key s) := by
  rw [noted?, Option.map_eq_none_iff, find?_key_eq_none_iff]

/-- A step that depends on others is told of those that are done. -/
theorem Brief.Reached.context_eq {b : Brief} {xs : List Answered} {done : List StepEnd}
    {p : Progress} (h : b.Reached xs done p) (hd : (done.map (·.key b.schedule)).Nodup)
    (j : Job) :
    p.context .dependencies j =
      (j.dependsOn.filterMap (noted? b.schedule done)).map HistoryEntry.told := by
  rw [Progress.context, if_neg (by simp), List.map_filterMap]
  refine List.filterMap_congr fun dep _ => ?_
  cases hentry : noted? b.schedule done dep with
  | none => simp [h.records.get?_results_eq_none (noted?_eq_none_iff.mp hentry)]
  | some e =>
    obtain ⟨f, hf, rfl, rfl⟩ := (noted?_eq_some_iff hd).mp hentry
    rw [h.records.get?_results hd hf, Option.map_some, Option.map_some, Progress.contextEntry,
      h.records.replier f hf]
    rfl

/-! ## Steps of a graph -/

section OfGraph

variable {xs : List Answered} {done : List StepEnd} {p : Progress} {k : Nat}

theorem keys_done (hplaces : done.map (·.place) =
      inWaves 0 ((o.brief r entries start).schedule.waves.take k)) :
    done.map (fun e => (e.wave, e.key (o.brief r entries start).schedule)) =
      inWaves 0 ((r.kept entries).plan.waves.take k) := by
  rw [← Schedule.inWaves_keys r (r.kept entries) k]
  change _ = (inWaves 0 ((o.brief r entries start).schedule.waves.take k)).map _
  rw [← hplaces, List.map_map]
  rfl

/-- The steps that are done are those of the waves before. -/
theorem mem_keys_done_iff (hd : (r.kept entries).names.Nodup)
    (hk : k ≤ (r.kept entries).plan.waves.length)
    (hplaces : done.map (·.place) =
      inWaves 0 ((o.brief r entries start).schedule.waves.take k)) {d : String} :
    d ∈ done.map (·.key (o.brief r entries start).schedule) ↔
      waveOf (r.kept entries).plan.waves d < k := by
  have hwaves := (r.kept entries).perm_plan.nodup_iff.mpr hd
  rw [CapabilityGraph.waveOf_lt_iff hwaves hk, ← map_snd_inWaves 0, ← keys_done hplaces,
    List.map_map]
  rfl

theorem waveOf_done (hd : (r.kept entries).names.Nodup)
    (hplaces : done.map (·.place) =
      inWaves 0 ((o.brief r entries start).schedule.waves.take k)) {e : StepEnd} (he : e ∈ done) :
    e.wave = waveOf (r.kept entries).plan.waves (e.key (o.brief r entries start).schedule) := by
  have hmem : (e.wave, e.key (o.brief r entries start).schedule) ∈
      inWaves 0 ((r.kept entries).plan.waves.take k) := by
    rw [← keys_done hplaces]
    exact List.mem_map.mpr ⟨e, he, rfl⟩
  obtain ⟨i, wave, hi, hname, hwave⟩ := mem_inWaves.mp hmem
  have hin : (r.kept entries).plan.waves[i]? = some wave := by
    rw [List.getElem?_take] at hi
    split at hi
    · exact hi
    · cases hi
  rw [CapabilityGraph.waveOf_eq ((r.kept entries).perm_plan.nodup_iff.mpr hd) ⟨wave, hin, hname⟩]
  simpa using hwave

/-- Of dependencies, those that came in an earlier wave are done. -/
theorem keys_filterMap_noted? (hd : (r.kept entries).names.Nodup)
    (hk : k ≤ (r.kept entries).plan.waves.length)
    (hplaces : done.map (·.place) =
      inWaves 0 ((o.brief r entries start).schedule.waves.take k)) (deps : List String)
    (hnodup : (done.map (·.key (o.brief r entries start).schedule)).Nodup) :
    (deps.filterMap (noted? (o.brief r entries start).schedule done)).map (·.key) =
      deps.filter fun d => decide (waveOf (r.kept entries).plan.waves d < k) := by
  induction deps with
  | nil => rfl
  | cons d deps ih =>
    have hdone := mem_keys_done_iff hd hk hplaces (d := d)
    cases hentry : noted? (o.brief r entries start).schedule done d with
    | none =>
      rw [List.filterMap_cons_none hentry, ih, List.filter_cons_of_neg]
      have hnot := noted?_eq_none_iff.mp hentry
      simpa [hdone] using hnot
    | some e =>
      obtain ⟨f, hf, rfl, rfl⟩ := (noted?_eq_some_iff hnodup).mp hentry
      rw [List.filterMap_cons_some hentry, List.map_cons, ih, List.filter_cons_of_pos]
      · rfl
      · exact decide_eq_true (hdone.mp (List.mem_map_of_mem hf))

end OfGraph

/-! ## Requests -/

/-- A step has come to its end in these exchanges: its collection was answered, or its turn came
when the time of the whole request was over. -/
def Over (o : Orchestrator) (r : GraphRequest) (start : Nat) (xs : List Answered)
    (e : HistoryEntry) : Prop :=
  (∃ (call : StepCall) (out : StepOutcome), call.capability = e.key ∧
    call.requestId = StepCall.subId r.requestId e.key ∧ call.EndedIn xs out ∧
    e.fromAgent = out.fromAgent ∧ e.result = out.result) ∨
  e.fromAgent = none ∧ e.result = Progress.tooLate ∧
    ∃ now : Nat, start + o.requestTimeout ≤ now ∧ ⟨.clock, now⟩ ∈ xs

theorem Over.mono {xs ys : List Answered} {e : HistoryEntry} (h : Over o r start xs e)
    (hsub : xs.Sublist ys) : Over o r start ys e := by
  rcases h with ⟨call, out, hcapability, hid, hend, hentry⟩ | ⟨hagent, hresult, now, hlate, hmem⟩
  · exact .inl ⟨call, out, hcapability, hid, hend.mono hsub, hentry⟩
  · exact .inr ⟨hagent, hresult, now, hlate, hsub.subset hmem⟩

theorem over_of_ended {xs : List Answered} {e : StepEnd}
    (h : (o.brief r entries start).Ended xs e) :
    Over o r start xs (e.entry (o.brief r entries start).schedule) := by
  rcases h with ⟨p, call, hcall, hend⟩ | ⟨hskip, now, hlate, hmem⟩
  · obtain ⟨x, hx, rfl⟩ := Option.map_eq_some_iff.mp hcall
    have hkey : (e.entry (o.brief r entries start).schedule).key = x.1 := Schedule.key_eq hx
    refine .inl ⟨_, e.outcome, ?_, ?_, hend, rfl, rfl⟩
    · rw [hkey]
      exact Schedule.capability_ofGraph hx
    · rw [hkey]
      rfl
  · refine .inr ⟨?_, ?_, now, hlate, hmem⟩
    · rw [StepEnd.entry, hskip]
      rfl
    · rw [StepEnd.entry, hskip]
      rfl

/-- A message is the request of a capability, which carries what the records say of those that it
depends on, as far as they came in an earlier wave. All of these had ended before. -/
structure Informs (o : Orchestrator) (r : GraphRequest) (entries : List (String × List String))
    (start : Nat) (earlier : List Answered) (c : String) (m : Message)
    (told : List HistoryEntry) : Prop where
  kept : c ∈ (r.kept entries).names
  request : ∃ stamp provider data,
    m = .request stamp o.name provider c data (StepCall.subId r.requestId c)
  context : (m.data.getD "context").get? "previous_results" =
    some (.arr (told.map HistoryEntry.told))
  keys : told.map (·.key) = (r.graph.dependencies c).filter fun d =>
    decide (d ∈ (r.kept entries).names) &&
      decide (waveOf (r.kept entries).plan.waves d < waveOf (r.kept entries).plan.waves c)
  nodup : (told.map (·.key)).Nodup
  wave : ∀ e ∈ told, e.wave = waveOf (r.kept entries).plan.waves e.key
  ended : ∀ e ∈ told, Over o r start earlier e

/-- The request of a step that is about to start. -/
theorem informs_of_reached (hg : CapabilityGraph.Built r.graph) {xs : List Answered}
    {done : List StepEnd} {p : Progress} {k : Nat} {wave : List Nat} {i : Nat} {call : StepCall}
    {m : Message} (h : (o.brief r entries start).Reached xs done p)
    (hplaces : done.map (·.place) =
      inWaves 0 ((o.brief r entries start).schedule.waves.take k))
    (hnodup : (done.map (·.key (o.brief r entries start).schedule)).Nodup)
    (hwave : (o.brief r entries start).schedule.waves[k]? = some wave) (hi : i ∈ wave)
    (hcall : (o.brief r entries start).call? p i = some call) (hm : call.Requests m) :
    ∃ told, Informs o r entries start xs call.capability m told ∧
      ∀ e ∈ told, ∃ f ∈ done, f.entry (o.brief r entries start).schedule = e := by
  have hd : (r.kept entries).names.Nodup :=
    CapabilityGraph.nodup_names_retain hg.nodup_names _
  obtain ⟨x, hx, rfl⟩ := Option.map_eq_some_iff.mp hcall
  obtain ⟨n, hn, rfl⟩ : ∃ n ∈ (r.kept entries).nodes, (n.1, r.job n.2 n.1) = x := by
    have hmem := List.mem_of_getElem? hx
    simpa [brief, Schedule.ofGraph, GraphRequest.jobs, GraphRequest.job] using hmem
  have hdeps : (r.kept entries).dependencies n.1 = n.2 :=
    CapabilityGraph.dependencies_of_mem hd hn
  have hkept : n.1 ∈ (r.kept entries).names := List.mem_map_of_mem hn
  -- the capability stands in the wave that is about to start
  have hin : InWave (r.kept entries).plan.waves k n.1 := by
    refine ⟨_, Schedule.keys_wave_ofGraph r hwave, List.mem_map.mpr ⟨i, hi, ?_⟩⟩
    exact Schedule.key_eq hx
  have hk : waveOf (r.kept entries).plan.waves n.1 = k :=
    CapabilityGraph.waveOf_eq ((r.kept entries).perm_plan.nodup_iff.mpr hd) hin
  have hlength : k ≤ (r.kept entries).plan.waves.length := by
    obtain ⟨w, hw, -⟩ := hin
    exact Nat.le_of_lt (List.getElem?_eq_some_iff.mp hw).1
  obtain ⟨stamp, provider, rfl⟩ := hm
  have hkeys : (n.2.filterMap (noted? (o.brief r entries start).schedule done)).map (·.key) =
      (r.graph.dependencies n.1).filter fun d => decide (d ∈ (r.kept entries).names) &&
        decide (waveOf (r.kept entries).plan.waves d <
          waveOf (r.kept entries).plan.waves n.1) := by
    rw [keys_filterMap_noted? hd hlength hplaces n.2 hnodup, ← hdeps, GraphRequest.kept,
      CapabilityGraph.dependencies_retain hg.nodup_names hkept, List.filter_filter, ← hk]
    refine List.filter_congr fun d _ => ?_
    rw [Bool.and_comm, List.contains_eq_mem]
    rfl
  have hdone : ∀ e ∈ n.2.filterMap (noted? (o.brief r entries start).schedule done),
      ∃ f ∈ done, f.entry (o.brief r entries start).schedule = e := by
    intro e he
    obtain ⟨d, -, hentry⟩ := List.mem_filterMap.mp he
    obtain ⟨f, hf, -, heq⟩ := (noted?_eq_some_iff hnodup).mp hentry
    exact ⟨f, hf, heq⟩
  refine ⟨_, ⟨hkept, ⟨stamp, provider, _, rfl⟩, ?_, hkeys, ?_, fun e he => ?_, fun e he => ?_⟩,
    hdone⟩
  · exact congrArg (fun context => some (Json.arr context)) (h.context_eq hnodup _)
  · rw [hkeys]
    exact (hg.nodupDeps.dependencies _).filter _
  · obtain ⟨f, hf, rfl⟩ := hdone e he
    exact waveOf_done hd hplaces hf
  · obtain ⟨f, hf, rfl⟩ := hdone e he
    exact over_of_ended (h.ended f hf)

/-- Without a cycle all that a capability depends on and that is provided comes in an earlier
wave. -/
theorem waveOf_lt_of_acyclic (hd : r.graph.names.Nodup)
    (hacyclic : ¬ ∃ a, Relation.TransGen (r.kept entries).DependsOn a a) {c d : String}
    (hc : c ∈ (r.kept entries).names) (hin : d ∈ (r.kept entries).names)
    (hdep : d ∈ r.graph.dependencies c) :
    waveOf (r.kept entries).plan.waves d < waveOf (r.kept entries).plan.waves c := by
  have hdkept : (r.kept entries).names.Nodup := CapabilityGraph.nodup_names_retain hd _
  have hback : (r.kept entries).plan.fellBack = false := by
    rw [← Bool.not_eq_true,
      CapabilityGraph.fellBack_iff_cycle hdkept (CapabilityGraph.closed_retain hd _)]
    exact hacyclic
  obtain ⟨n, hn, rfl⟩ := List.mem_map.mp hc
  have hdeps : d ∈ n.2 := by
    rw [← CapabilityGraph.dependencies_of_mem hdkept hn]
    refine (CapabilityGraph.dependencies_retain hd hc).symm ▸ List.mem_filter.mpr ⟨hdep, ?_⟩
    exact List.contains_iff_mem.mpr hin
  exact ((CapabilityGraph.layers_plan hdkept hback).before n hn d hdeps).2

/-- **Every step sees exactly its finished dependencies.** Whatever the surroundings answer, each
request that is sent carries one entry for each dependency that is provided and came in an earlier
wave, as the history of the request has it in the end. All of these had ended before; without a
cycle these are all that are provided. -/
theorem contexts_of_course (hg : CapabilityGraph.Built r.graph) {xs : List Answered}
    {rest : Program.Rest RunReport} (h : Program.Course (o.execute r) xs rest)
    {earlier later : List Answered} {x : Answered} (hx : xs = earlier ++ x :: later) {m : Message}
    {patience : Option Nat} (hsend : x.operation = .send m patience) :
    ∃ entries start before c told,
      earlier = ⟨.directory, entries⟩ :: ⟨.clock, start⟩ :: before ∧
      Informs o r entries start earlier c m told ∧
      ((¬ ∃ a, Relation.TransGen (r.kept entries).DependsOn a a) →
        told.map (·.key) =
          (r.graph.dependencies c).filter fun d => decide (d ∈ (r.kept entries).names)) ∧
      ∀ report, rest = ⟨.done report, none⟩ →
        ∃ history, Accounts r entries report history ∧ ∀ e ∈ told, e ∈ history := by
  have hd : r.graph.names.Nodup := hg.nodup_names
  rcases course_execute h with ⟨hfirst, -⟩ | ⟨entries, start, ys, rest', rfl, hcourse, hend⟩
  · have hdirectory := hfirst x (hx ▸ List.mem_append_right _ List.mem_cons_self)
    rw [hsend] at hdirectory
    cases hdirectory
  have hdkept : (r.kept entries).names.Nodup := CapabilityGraph.nodup_names_retain hd _
  have hsound : (o.brief r entries start).schedule.Sound := Schedule.sound_ofGraph r hdkept
  obtain ⟨before, rfl, hys⟩ : ∃ before,
      earlier = ⟨.directory, entries⟩ :: ⟨.clock, start⟩ :: before ∧
        ys = before ++ x :: later := by
    rcases earlier with _ | ⟨y, _ | ⟨z, before⟩⟩
    · obtain ⟨rfl, -⟩ := List.cons.inj hx
      cases hsend
    · obtain ⟨rfl, -⟩ := List.cons.inj (List.cons.inj hx).2
      cases hsend
    · rw [List.cons_append, List.cons_append, List.cons.injEq, List.cons.injEq] at hx
      obtain ⟨rfl, rfl, hys⟩ := hx
      exact ⟨before, rfl, hys⟩
  obtain ⟨k, wave, waves, mid, after, done, q, hdrop, rfl, hinitial, hplaces, hreached, hfollow,
    hrest, i, hi, call, hcall, hm⟩ :=
    (Brief.Reached.start _).exists_wave hcourse (Brief.Reached.Follow.all hsound) hys hsend
  have hwave : (o.brief r entries start).schedule.waves[k]? = some wave := by
    rw [← List.head?_drop, hdrop]
    rfl
  have hnodup : (done.map (·.key (o.brief r entries start).schedule)).Nodup := by
    have hall := hfollow.2
    rw [List.map_append] at hall
    rw [StepEnd.map_key_eq]
    exact (List.nodup_append.mp hall).1
  obtain ⟨told, hinforms, htold⟩ :=
    informs_of_reached hg hreached hplaces hnodup hwave hi hcall hm
  refine ⟨entries, start, before, call.capability, told, rfl, ?_, fun hacyclic => ?_,
    fun report hreport => ?_⟩
  · have hsub : ([] ++ mid).Sublist (⟨.directory, entries⟩ :: ⟨.clock, start⟩ :: before) :=
      (hinitial.sublist.cons _).cons _
    exact { hinforms with ended := fun e he => (hinforms.ended e he).mono hsub }
  · rw [hinforms.keys]
    refine List.filter_congr fun d hdep => ?_
    by_cases hin : d ∈ (r.kept entries).names
    · rw [decide_eq_true hin, Bool.true_and, decide_eq_true]
      exact waveOf_lt_of_acyclic hd hacyclic hinforms.kept hin hdep
    · rw [decide_eq_false hin, Bool.false_and]
  · obtain ⟨p, rfl, rfl⟩ := hend report hreport
    obtain ⟨more, hmore, hfinal⟩ := hreached.finish hrest hfollow
    have hlt : k < (o.brief r entries start).schedule.waves.length :=
      (List.getElem?_eq_some_iff.mp hwave).1
    have hall : (done ++ more).map (·.place) = (o.brief r entries start).schedule.places := by
      rw [List.map_append, hplaces, hmore, Schedule.places]
      conv_rhs => rw [← List.take_append_drop k (o.brief r entries start).schedule.waves, hdrop,
        inWaves_append, List.length_take_of_le (Nat.le_of_lt hlt)]
      rfl
    refine ⟨_, accounts_of_reached hd hfinal hall, fun e he => ?_⟩
    obtain ⟨f, hf, rfl⟩ := htold e he
    exact List.mem_map_of_mem (List.mem_append_left _ hf)

/-- A step is told of the failure of the one that it depends on. -/
theorem contexts_of_failed_dependency :
    let o : Orchestrator := ⟨"o", 10, 30⟩
    let r : GraphRequest :=
      { requestId := "r", graph := (({} : CapabilityGraph).add "a" []).add "b" ["a", "x"] }
    ∃ earlier rest m, Program.Course (o.execute r) (earlier ++ [⟨.send m none, true⟩]) rest ∧
      ∃ entries start told, Informs o r entries start earlier "b" m told ∧
        told.map (·.key) = ["a"] := by
  intro o r
  let entries := [("a", ["p"]), ("b", ["q"])]
  let b := o.brief r entries 0
  let pending : Pending := ⟨0, "r:a", "a", .first, 10⟩
  have hfirst : SideBySide ((b.calls (.start b.schedule) [0]).map StepCall.run) _
      ([_].map .done) :=
    .go (i := 0) (o := .providers "a") rfl ["p"] <|
    .go (i := 0) (o := .clock) rfl (0 : Nat) <|
    .go (i := 0) (o := .collect ..) rfl pending <|
    .go (i := 0) (o := .providers "a") rfl ["p"] <|
    .go (i := 0) (o := .stamp) rfl (⟨"m0", .ofMillis 0⟩ : Stamp) <|
    .go (i := 0) (o := .send ..) rfl true <|
    .go (i := 0) (o := .collected _) rfl pending.lost <| .stay _
  have hbefore : Program.Course (o.execute r) _ _ :=
    .plain (o := .directory) entries <| .plain (o := .clock) (0 : Nat) <|
    .plain (o := .clock) (0 : Nat) <| .wave hfirst <|
    .plain (o := .clock) (10 : Nat) <| .within <|
    .go (i := 0) (o := .providers "b") rfl ["q"] <|
    .go (i := 0) (o := .clock) rfl (10 : Nat) <|
    .go (i := 0) (o := .collect ..) rfl (⟨1, "r:b", "b", .first, 20⟩ : Pending) <|
    .go (i := 0) (o := .providers "b") rfl ["q"] <|
    .go (i := 0) (o := .stamp) rfl (⟨"m1", .ofMillis 10⟩ : Stamp) <| .stay _
  have hsend := hbefore.append_within (.go (i := 0) (o := .send ..) rfl true (.stay _))
  have hg : CapabilityGraph.Built r.graph := .add (.add .empty _ _) _ _
  obtain ⟨entries', start, before, c, told, hearlier, hinforms, -, -⟩ :=
    contexts_of_course hg hsend rfl rfl
  obtain rfl : entries = entries' :=
    eq_of_heq (Answered.mk.inj (List.cons.inj hearlier).1).2
  obtain ⟨_, _, _, hm⟩ := hinforms.request
  have hcapability : some "b" = some c := congrArg Message.capability? hm
  obtain rfl := Option.some.inj hcapability
  refine ⟨_, _, _, hsend, entries, start, told, hinforms, ?_⟩
  rw [hinforms.keys]
  decide

end Orchestrator

end Switchboard
