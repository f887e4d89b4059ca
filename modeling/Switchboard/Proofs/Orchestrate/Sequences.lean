import Switchboard.Proofs.Orchestrate.Contexts
import Switchboard.Proofs.Orchestrate.Keys

/-!
# Sequences

A sequence does the jobs that somebody can do one after another, each a wave of its own. Its records
go by the keys of the jobs, so they tell the jobs apart exactly if no capability reads like the key
of one that comes up again.

* `Progress.Holds` : under which keys there are results, whether or not keys meet;
* `Schedule.sound_ofSequence` : jobs with keys of their own make a sound schedule;
* `Orchestrator.course_sequence` : a sequence reads the directory, the names and the clock, and then
  runs the jobs that are left;
* `Orchestrator.Recounts`, `Orchestrator.KeepsResults` : what a request carries of the steps before
  it, and what a report says of all steps;
* `Orchestrator.keepsResults_iff` : when every step keeps its result.
-/

namespace Switchboard

/-! ## Results by key -/

namespace Fields

theorem mem_keys_putSorted {fields : Fields} {key k : String} {value : Json} :
    k ∈ (fields.putSorted key value).map (·.1) ↔ k = key ∨ k ∈ fields.map (·.1) := by
  induction fields with
  | nil => simp [putSorted]
  | cons field rest ih =>
    obtain ⟨first, v⟩ := field
    unfold putSorted
    split
    · simp
    · split
      · rename_i heq
        obtain rfl : first = key := by simpa using heq
        simp
      · rw [List.map_cons, List.mem_cons, ih, List.map_cons, List.mem_cons]
        exact or_left_comm

theorem sorted_putSorted {fields : Fields} (h : (fields.map (·.1)).Pairwise (· < ·))
    (key : String) (value : Json) :
    ((fields.putSorted key value).map (·.1)).Pairwise (· < ·) := by
  induction fields with
  | nil => exact List.pairwise_singleton _ _
  | cons field rest ih =>
    obtain ⟨first, v⟩ := field
    obtain ⟨hfirst, hrest⟩ := List.pairwise_cons.mp h
    unfold putSorted
    split
    · rename_i hlt
      refine List.pairwise_cons.mpr ⟨fun k hk => ?_, h⟩
      rcases List.mem_cons.mp hk with rfl | hk
      · exact hlt
      · exact String.lt_trans hlt (hfirst k hk)
    · rename_i hge
      split
      · rename_i heq
        obtain rfl : first = key := by simpa using heq
        exact h
      · rename_i hne
        refine List.pairwise_cons.mpr ⟨fun k hk => ?_, ih hrest⟩
        rcases mem_keys_putSorted.mp hk with rfl | hk
        · have hdiffer : first ≠ k := by simpa using hne
          by_contra hnot
          exact hdiffer (String.le_antisymm (String.not_lt.mp hge) (String.not_lt.mp hnot))
        · exact hfirst k hk

end Fields

/-- There is one result under each of these keys, and none under another. -/
structure Progress.Holds (p : Progress) (keys : List String) : Prop where
  sorted : (p.results.map (·.1)).Pairwise (· < ·)
  mem_iff : ∀ key, key ∈ p.results.map (·.1) ↔ key ∈ keys

namespace Progress.Holds

variable {s : Schedule} {p p' : Progress} {keys : List String}

theorem start (s : Schedule) : (Progress.start s).Holds [] :=
  ⟨.nil, fun _ => .rfl⟩

theorem add (h : p.Holds keys) {e : StepEnd} (hadd : Adds s e p p') :
    p'.Holds (keys ++ [e.key s]) where
  sorted := by
    rw [hadd.results]
    exact Fields.sorted_putSorted h.sorted _ _
  mem_iff := by
    intro key
    rw [hadd.results, Fields.mem_keys_putSorted, h.mem_iff, List.mem_append, List.mem_singleton]
    exact or_comm

theorem addAll {ends : List StepEnd} (h : p.Holds keys) (hall : AddsAll s ends p p') :
    p'.Holds (keys ++ ends.map (·.key s)) := by
  induction hall generalizing keys with
  | nil => simpa using h
  | cons hadd _ ih =>
    have hrest := ih (h.add hadd)
    rwa [List.append_assoc, List.singleton_append] at hrest

/-- There are as many results as there are different keys. -/
theorem perm (h : p.Holds keys) : (p.results.map (·.1)).Perm keys.dedup := by
  have hnodup : (p.results.map (·.1)).Nodup :=
    h.sorted.imp fun hlt => by
      rintro rfl
      exact String.lt_irrefl _ hlt
  refine (List.perm_ext_iff_of_nodup hnodup (List.nodup_dedup _)).mpr fun key => ?_
  rw [h.mem_iff, List.mem_dedup]

theorem length_eq_iff (h : p.Holds keys) : p.results.length = keys.length ↔ keys.Nodup := by
  have hlength : p.results.length = keys.dedup.length := by
    rw [← h.perm.length_eq, List.length_map]
  rw [hlength, ← List.dedup_eq_self]
  exact ⟨(List.dedup_sublist keys).eq_of_length, fun heq => by rw [heq]⟩

end Progress.Holds

/-- In the end there are the results of all steps, wave by wave. -/
theorem Orchestrator.Brief.holds_of_course {b : Brief} {n : Nat} {waves : List (List Nat)}
    {p p' : Progress} {keys : List String} {xs : List Answered}
    (hfits : ∀ wave ∈ waves, b.Fits wave) (h : p.Holds keys)
    (hcourse : Program.Course (b.run n waves p) xs ⟨.done p', none⟩) :
    p'.Holds (keys ++ waves.flatten.map b.schedule.key) := by
  obtain ⟨ends, hplaces, -, hadds⟩ := addsAll_of_course hfits hcourse
  have hkeys : ends.map (·.key b.schedule) = waves.flatten.map b.schedule.key := by
    rw [StepEnd.map_key_eq, hplaces, ← map_snd_inWaves n waves, List.map_map]
    rfl
  exact hkeys ▸ h.addAll hadds

/-! ## The schedule of a sequence -/

theorem inWaves_singletons {α : Type} (n : Nat) (items : List α) :
    inWaves n (items.map fun x => [x]) = (items.zipIdx n).map fun x => (x.2, x.1) := by
  induction items generalizing n with
  | nil => rfl
  | cons x items ih => rw [List.map_cons, inWaves, ih, List.zipIdx_cons, List.map_cons]; rfl

namespace Schedule

variable {jobs : List Job} {i : Nat}

theorem keys_ofSequence (jobs : List Job) : (ofSequence jobs).steps.map (·.1) = Job.keys jobs :=
  List.map_fst_zip (Nat.le_of_eq (Job.length_keys jobs))

theorem jobs_ofSequence (jobs : List Job) : (ofSequence jobs).steps.map (·.2) = jobs :=
  List.map_snd_zip (Nat.le_of_eq (Job.length_keys jobs).symm)

theorem length_ofSequence (jobs : List Job) : (ofSequence jobs).steps.length = jobs.length := by
  rw [← List.length_map (f := (·.2)), jobs_ofSequence]

theorem flatten_ofSequence (jobs : List Job) :
    (ofSequence jobs).waves.flatten = List.range jobs.length := by
  rw [ofSequence, ← List.flatMap_def]
  exact List.flatMap_singleton' _

theorem map_key_ofSequence (jobs : List Job) :
    (List.range jobs.length).map (ofSequence jobs).key = Job.keys jobs := by
  rw [← length_ofSequence, map_key_range, keys_ofSequence]

/-- Jobs with keys of their own make a sound schedule. -/
theorem sound_ofSequence (h : (Job.keys jobs).Nodup) : (ofSequence jobs).Sound where
  nodup_keys := keys_ofSequence jobs ▸ h
  perm := by rw [flatten_ofSequence, length_ofSequence]

/-- Each job is in the wave of its number. -/
theorem getElem?_waves_ofSequence {wave : List Nat} (h : (ofSequence jobs).waves[i]? = some wave) :
    i < jobs.length ∧ wave = [i] := by
  obtain ⟨k, hk, rfl⟩ := Option.map_eq_some_iff.mp ((List.getElem?_map ..).symm.trans h)
  obtain ⟨hlt, hk⟩ := List.getElem?_eq_some_iff.mp hk
  rw [List.getElem_range] at hk
  exact ⟨by simpa using hlt, by rw [hk]⟩

theorem inWaves_ofSequence (h : i ≤ jobs.length) :
    inWaves 0 ((ofSequence jobs).waves.take i) = (List.range i).map fun j => (j, j) := by
  have htake : (ofSequence jobs).waves.take i = (List.range i).map fun j => [j] := by
    rw [ofSequence, ← List.map_take, List.take_range, Nat.min_eq_left h]
  rw [htake, inWaves_singletons]
  refine List.ext_getElem (by simp) fun j _ _ => ?_
  simp

end Schedule

namespace Orchestrator

/-- What is run of jobs that are done one after another from a time on. -/
def sequenceBrief (o : Orchestrator) (requestId : String) (kept : List Job) (start : Nat) :
    Brief :=
  ⟨o, requestId, .ofSequence kept, start + o.requestTimeout⟩

theorem sequence_eq (o : Orchestrator) (requestId : String) (jobs : List Job) :
    o.sequence requestId jobs =
      .ask (.plain .directory) fun (entries : List (String × List String)) =>
      .ask (.plain .agentNames) fun (agents : List String) =>
      .ask (.plain .clock) fun (start : Nat) =>
      (o.sequenceBrief requestId (jobs.filter (isReachable entries agents)) start).runAll.bind
        fun p => .done (p.report requestId
          ((jobs.filter fun j => !isReachable entries agents j).map (·.capability)) false) := by
  simp only [sequence, List.partition_eq_filter_filter]
  rfl

/-- A sequence reads the directory, the names and the clock, and then runs the jobs that are
left. -/
theorem course_sequence {o : Orchestrator} {requestId : String} {jobs : List Job}
    {xs : List Answered} {rest : Program.Rest RunReport}
    (h : Program.Course (o.sequence requestId jobs) xs rest) :
    (∀ x ∈ xs, x.operation = .directory ∨ x.operation = .agentNames) ∧
      (∀ report, rest.code ≠ .done report) ∨
    ∃ entries agents start ys rest',
      xs = [⟨.directory, entries⟩, ⟨.agentNames, agents⟩, ⟨.clock, start⟩] ++ ys ∧
      Program.Course
        (o.sequenceBrief requestId (jobs.filter (isReachable entries agents)) start).runAll
        ys rest' ∧
      ∀ report, rest = ⟨.done report, none⟩ → ∃ p dropped, rest' = ⟨.done p, none⟩ ∧
        report = p.report requestId dropped false := by
  rw [sequence_eq] at h
  cases h with
  | stop => exact .inl ⟨by simp, fun report h => nomatch h⟩
  | plain entries h =>
  cases h with
  | stop => exact .inl ⟨by simp, fun report h => nomatch h⟩
  | plain agents h =>
  cases h with
  | stop => exact .inl ⟨by simp, fun report h => nomatch h⟩
  | plain start h =>
    obtain ⟨rest', hcourse, hend⟩ := h.of_bind_done
    refine .inr ⟨entries, agents, start, _, rest', rfl, hcourse, fun report hreport => ?_⟩
    obtain ⟨p, hp, rfl⟩ := hend report hreport
    exact ⟨p, _, hp, rfl⟩

/-! ## What a step is told -/

/-- A step that depends on nothing is told of all steps before it, with their own results and
responders. -/
theorem Brief.Reached.context_earlier {b : Brief} {xs : List Answered} {done : List StepEnd}
    {p : Progress} (h : b.Reached xs done p) {j : Job} (hj : j.dependsOn = []) :
    p.context .earlierSteps j =
      (done.map (·.entry b.schedule)).map HistoryEntry.told := by
  rw [Progress.context, if_pos ⟨rfl, hj⟩, h.records.history, List.map_map, List.map_map]
  refine List.map_congr_left fun e he => ?_
  rw [Function.comp_apply, Progress.contextEntry]
  change Json.obj [_, ("from_agent", Json.ofOption .str (p.responder (e.key b.schedule))), _] = _
  rw [h.records.replier e he]
  rfl

/-- A message is the request of the job at a position. If the job depends on nothing, the request
carries the entries of the steps before it, each of which had come to its end with this result and
from this agent. -/
structure Recounts (b : Brief) (kept : List Job) (earlier : List Answered) (i : Nat) (m : Message)
    (told : List HistoryEntry) : Prop where
  request : ∃ job stamp provider data, kept[i]? = some job ∧
    m = .request stamp b.orchestrator.name provider job.capability data
      (StepCall.subId b.requestId (b.schedule.key i)) ∧
    (job.dependsOn = [] → (data.getD "context").get? "previous_results" =
      some (.arr (told.map HistoryEntry.told)))
  keys : told.map (·.key) = (Job.keys kept).take i
  waves : told.map (·.wave) = List.range i
  ended : ∀ e ∈ told, ∃ f, b.Ended earlier f ∧ f.entry b.schedule = e

/-- The report of a sequence has one result for each job, and it is the one that the history has
for the step, and the job itself. -/
structure KeepsResults (kept : List Job) (report : RunReport) (history : List HistoryEntry) :
    Prop where
  nodup : (Job.keys kept).Nodup
  count : report.results.length = kept.length
  history_eq : report.history = history.map HistoryEntry.toJson
  keys : history.map (·.key) = Job.keys kept
  waves : history.map (·.wave) = List.range kept.length
  jobs : report.jobs.length = kept.length
  same : ∀ (i : Nat) (e : HistoryEntry), history[i]? = some e →
    Fields.get? report.results e.key = some e.result ∧
    ∃ job : Job, kept[i]? = some job ∧
      report.jobs[i]? = some { job with result := some e.result }

section Kept

variable {o : Orchestrator} {requestId : String} {kept : List Job} {start i : Nat}
  {xs : List Answered} {ends : List StepEnd} {p : Progress}

/-- Steps that are done one after another have the keys of the first jobs. -/
theorem keys_of_places (hi : i ≤ kept.length)
    (h : ends.map (·.place) = (List.range i).map fun j => (j, j)) :
    (ends.map (·.entry (.ofSequence kept))).map (·.key) = (Job.keys kept).take i ∧
      (ends.map (·.entry (.ofSequence kept))).map (·.wave) = List.range i := by
  constructor
  · have hkeys : (ends.map (·.entry (.ofSequence kept))).map (·.key) =
        (ends.map (·.place)).map fun x => Schedule.key (.ofSequence kept) x.2 := by
      rw [← StepEnd.map_key_eq, List.map_map]
      rfl
    rw [hkeys, h, ← Schedule.map_key_ofSequence, ← List.map_take, List.take_range,
      Nat.min_eq_left hi, List.map_map]
    rfl
  · have hwaves : (ends.map (·.entry (.ofSequence kept))).map (·.wave) =
        (ends.map (·.place)).map (·.1) := by
      rw [List.map_map, List.map_map]
      rfl
    rw [hwaves, h, List.map_map]
    exact List.map_id _

theorem places_sequenceBrief (hi : i ≤ kept.length) :
    inWaves 0 ((o.sequenceBrief requestId kept start).schedule.waves.take i) =
      (List.range i).map fun j => (j, j) :=
  Schedule.inWaves_ofSequence hi

/-- Every step keeps its result once all steps have ended, if their keys differ. -/
theorem keepsResults_of_reached (hd : (Job.keys kept).Nodup)
    (h : (o.sequenceBrief requestId kept start).Reached xs ends p)
    (hplaces : ends.map (·.place) = (o.sequenceBrief requestId kept start).schedule.places)
    (dropped : List String) :
    KeepsResults kept (p.report requestId dropped false) p.history := by
  have hall : ends.map (·.place) = (List.range kept.length).map fun j => (j, j) := by
    have hwaves : (o.sequenceBrief requestId kept start).schedule.waves.length = kept.length := by
      simp [sequenceBrief, Schedule.ofSequence]
    rw [hplaces, Schedule.places, ← places_sequenceBrief (Nat.le_refl _), ← hwaves,
      List.take_length]
  obtain ⟨hkeys, hwaves⟩ := keys_of_places (Nat.le_refl _) hall
  rw [← Job.length_keys, List.take_length] at hkeys
  have hnodup : (ends.map (·.key (.ofSequence kept))).Nodup := by
    rw [List.map_map] at hkeys
    exact hkeys ▸ hd
  have hhistory : p.history = ends.map (·.entry (.ofSequence kept)) := h.records.history
  have hjobs : p.jobs.length = kept.length :=
    h.records.length.trans (Schedule.length_ofSequence kept)
  refine
    { nodup := hd
      count := ?_
      history_eq := rfl
      keys := hhistory ▸ hkeys
      waves := hhistory ▸ hwaves
      jobs := hjobs
      same := fun i e he => ?_ }
  · change p.results.length = _
    rw [h.records.results.length_eq, List.length_map, ← Job.length_keys, ← hkeys, List.length_map,
      List.length_map]
  · rw [hhistory, List.getElem?_map] at he
    obtain ⟨f, hf, rfl⟩ := Option.map_eq_some_iff.mp he
    have hmem : f ∈ ends := List.mem_of_getElem? hf
    refine ⟨h.records.get?_results hnodup hmem, ?_⟩
    have hplace : ((List.range kept.length).map fun j => (j, j))[i]? = some f.place := by
      rw [← hall, List.getElem?_map, hf]
      rfl
    obtain ⟨hi, hplace⟩ := List.getElem?_eq_some_iff.mp hplace
    rw [List.getElem_map, List.getElem_range] at hplace
    have hlt : i < kept.length := by simpa using hi
    have hstep : i < (Schedule.ofSequence kept).steps.length := by
      rwa [Schedule.length_ofSequence]
    obtain ⟨result, hjob, hresult⟩ := h.records.jobs i _ (List.getElem?_eq_getElem hstep)
    have hkept : (Schedule.ofSequence kept).steps[i].2 = kept[i] := by
      have hget : ((Schedule.ofSequence kept).steps.map (·.2))[i]? = kept[i]? := by
        rw [Schedule.jobs_ofSequence]
      rw [List.getElem?_map, List.getElem?_eq_getElem hstep, List.getElem?_eq_getElem hlt] at hget
      exact Option.some.inj hget
    refine ⟨kept[i], List.getElem?_eq_getElem hlt, ?_⟩
    rw [hresult f hmem (Prod.mk.inj hplace).2.symm, hkept] at hjob
    exact hjob

/-- The request of a step says what the steps before it ended with, if the keys differ. -/
theorem recounts_of_course (hd : (Job.keys kept).Nodup) {rest : Program.Rest Progress}
    (hcourse : Program.Course (o.sequenceBrief requestId kept start).runAll xs rest)
    {earlier later : List Answered} {x : Answered} (hx : xs = earlier ++ x :: later) {m : Message}
    {patience : Option Nat} (hsend : x.operation = .send m patience) :
    ∃ i told, Recounts (o.sequenceBrief requestId kept start) kept earlier i m told ∧
      ∀ p, rest = ⟨.done p, none⟩ → told = p.history.take i := by
  have hsound : (o.sequenceBrief requestId kept start).schedule.Sound :=
    Schedule.sound_ofSequence hd
  obtain ⟨k, wave, done, q, i, call, hwave, hplaces, hnodup, hreached, hi, hcall, hm, hend⟩ :=
    Brief.Reached.exists_step hsound hcourse hx hsend
  obtain ⟨hk, rfl⟩ := Schedule.getElem?_waves_ofSequence hwave
  obtain rfl := List.mem_singleton.mp hi
  rw [places_sequenceBrief (Nat.le_of_lt hk)] at hplaces
  obtain ⟨hkeys, hwaves⟩ := keys_of_places (Nat.le_of_lt hk) hplaces
  refine ⟨i, done.map (·.entry (.ofSequence kept)), ⟨?_, hkeys, hwaves, fun e he => ?_⟩,
    fun p hp => ?_⟩
  · obtain ⟨⟨key, job⟩, hstep, rfl⟩ := Option.map_eq_some_iff.mp hcall
    obtain ⟨stamp, provider, rfl⟩ := hm
    have hjob : kept[i]? = some job := by
      have hget := congrArg (·[i]?) (Schedule.jobs_ofSequence kept)
      rw [List.getElem?_map] at hget
      rw [← hget]
      exact congrArg (Option.map _) hstep
    have hkey : (o.sequenceBrief requestId kept start).schedule.key i = key :=
      Schedule.key_eq hstep
    refine ⟨job, stamp, provider, q.requestData .earlierSteps job, hjob, ?_, fun hfree => ?_⟩
    · rw [hkey]
      rfl
    · exact congrArg (fun context => some (Json.arr context)) (hreached.context_earlier hfree)
  · obtain ⟨f, hf, rfl⟩ := List.mem_map.mp he
    exact ⟨f, hreached.ended f hf, rfl⟩
  · obtain ⟨more, -, hfinal⟩ := hend p hp
    have hlength : done.length = i := by
      rw [← List.length_map (f := StepEnd.place), hplaces, List.length_map, List.length_range]
    rw [hfinal.records.history, List.map_append, List.take_append_of_le_length, List.take_of_length_le]
    · rfl
    · simp [hlength]
    · simp [hlength]

/-- There are as many results as jobs if and only if the keys differ. -/
theorem length_results_of_course
    (hcourse : Program.Course (o.sequenceBrief requestId kept start).runAll xs ⟨.done p, none⟩) :
    p.results.length = kept.length ↔ Job.Unnumbered kept := by
  have hfits : ∀ wave ∈ (o.sequenceBrief requestId kept start).schedule.waves,
      (o.sequenceBrief requestId kept start).Fits wave := by
    intro wave hwave j hj
    obtain ⟨k, hk⟩ := List.getElem?_of_mem hwave
    obtain ⟨hlt, rfl⟩ := Schedule.getElem?_waves_ofSequence hk
    rw [List.mem_singleton.mp hj]
    exact hlt.trans_eq (Schedule.length_ofSequence kept).symm
  have hholds := Brief.holds_of_course hfits (.start _) hcourse
  have hkeys : (o.sequenceBrief requestId kept start).schedule.waves.flatten.map
      (o.sequenceBrief requestId kept start).schedule.key = Job.keys kept := by
    change (Schedule.ofSequence kept).waves.flatten.map _ = _
    rw [Schedule.flatten_ofSequence]
    exact Schedule.map_key_ofSequence kept
  rw [List.nil_append, hkeys] at hholds
  rw [← Job.nodup_keys_iff, ← hholds.length_eq_iff, Job.length_keys]

end Kept

/-- Each request that is sent recounts the first entries of the history. -/
def Recounted (b : Brief) (kept : List Job) (history : List HistoryEntry) (xs : List Answered) :
    Prop :=
  ∀ earlier x later m patience, xs = earlier ++ x :: later → x.operation = .send m patience →
    ∃ i, Recounts b kept earlier i m (history.take i)

section Sequence

variable {o : Orchestrator} {requestId : String} {jobs : List Job} {xs : List Answered}

/-- What the report of a sequence holds when it has come to its end. -/
theorem keepsResults_of_course {report : RunReport}
    (h : Program.Course (o.sequence requestId jobs) xs ⟨.done report, none⟩) :
    ∃ entries agents start ys,
      xs = [⟨.directory, entries⟩, ⟨.agentNames, agents⟩, ⟨.clock, start⟩] ++ ys ∧
      let kept := jobs.filter (isReachable entries agents)
      (report.results.length = kept.length ↔ Job.Unnumbered kept) ∧
      (Job.Unnumbered kept → ∃ history, KeepsResults kept report history ∧
        Recounted (o.sequenceBrief requestId kept start) kept history ys) := by
  rcases course_sequence h with
    ⟨-, hunfinished⟩ | ⟨entries, agents, start, ys, rest, rfl, hcourse, hend⟩
  · exact absurd rfl (hunfinished report)
  obtain ⟨p, dropped, rfl, rfl⟩ := hend report rfl
  refine ⟨entries, agents, start, ys, rfl, length_results_of_course hcourse, fun hplain => ?_⟩
  have hd := (Job.nodup_keys_iff _).mpr hplain
  obtain ⟨ends, hplaces, hreached⟩ := (Brief.Reached.start _).finish hcourse
    (Brief.Reached.Follow.all (Schedule.sound_ofSequence hd))
  refine ⟨p.history, keepsResults_of_reached hd hreached hplaces dropped, ?_⟩
  intro earlier x later m patience hx hsend
  obtain ⟨i, told, hrecounts, htold⟩ := recounts_of_course hd hcourse hx hsend
  exact ⟨i, htold p rfl ▸ hrecounts⟩

/-- What the request of a step of a sequence says, also when the sequence does not end. -/
theorem recounts_of_sequence {rest : Program.Rest RunReport}
    (h : Program.Course (o.sequence requestId jobs) xs rest) {before after : List Answered}
    {x : Answered} (hx : xs = before ++ x :: after) {m : Message} {patience : Option Nat}
    (hsend : x.operation = .send m patience) :
    ∃ entries agents start earlier,
      before = [⟨.directory, entries⟩, ⟨.agentNames, agents⟩, ⟨.clock, start⟩] ++ earlier ∧
      let kept := jobs.filter (isReachable entries agents)
      (Job.Unnumbered kept →
        ∃ i told, Recounts (o.sequenceBrief requestId kept start) kept earlier i m told) := by
  rcases course_sequence h with
    ⟨honly, -⟩ | ⟨entries, agents, start, ys, rest', rfl, hcourse, -⟩
  · rcases honly x (hx ▸ List.mem_append_right _ List.mem_cons_self) with hop | hop <;>
      rw [hsend] at hop <;> cases hop
  · have hfirst : x ∉ [⟨.directory, entries⟩, ⟨.agentNames, agents⟩, ⟨.clock, start⟩] := by
      intro hmem
      simp only [List.mem_cons, List.not_mem_nil, or_false] at hmem
      rcases hmem with rfl | rfl | rfl <;> cases hsend
    obtain ⟨earlier, rfl, hys⟩ := exists_of_append_eq_append_cons hfirst hx
    refine ⟨entries, agents, start, earlier, rfl, fun hplain => ?_⟩
    obtain ⟨i, told, hrecounts, -⟩ :=
      recounts_of_course ((Job.nodup_keys_iff _).mpr hplain) hcourse hys hsend
    exact ⟨i, told, hrecounts⟩

end Sequence

/-- **When every step of a sequence keeps its result.** Whatever the surroundings answer, the report
of a sequence has as many results as there are jobs that somebody can do if and only if none of
their capabilities reads like the key of one that comes up again. Then the keys differ, each result
is that of its step, and a step that depends on nothing is told of all steps before it, with their
own results and responders, also when the sequence does not end. So is each one that ends in a
world. -/
theorem keepsResults_iff (o : Orchestrator) (requestId : String) (jobs : List Job) :
    (∀ xs report, Program.Course (o.sequence requestId jobs) xs ⟨.done report, none⟩ →
      ∃ entries agents start ys,
        xs = [⟨.directory, entries⟩, ⟨.agentNames, agents⟩, ⟨.clock, start⟩] ++ ys ∧
        let kept := jobs.filter (isReachable entries agents)
        (report.results.length = kept.length ↔ Job.Unnumbered kept) ∧
        (Job.Unnumbered kept → ∃ history, KeepsResults kept report history ∧
          Recounted (o.sequenceBrief requestId kept start) kept history ys)) ∧
    (∀ xs rest, Program.Course (o.sequence requestId jobs) xs rest →
      ∀ before x after m patience, xs = before ++ x :: after → x.operation = .send m patience →
        ∃ entries agents start earlier,
          before = [⟨.directory, entries⟩, ⟨.agentNames, agents⟩, ⟨.clock, start⟩] ++ earlier ∧
          let kept := jobs.filter (isReachable entries agents)
          (Job.Unnumbered kept →
            ∃ i told, Recounts (o.sequenceBrief requestId kept start) kept earlier i m told)) ∧
    ∀ (w : World) report, (w.run (o.sequence requestId jobs)).2 = .ended report →
      ∃ entries agents,
        let kept := jobs.filter (isReachable entries agents)
        (report.results.length = kept.length ↔ Job.Unnumbered kept) ∧
        (Job.Unnumbered kept → ∃ history, KeepsResults kept report history) := by
  refine ⟨fun _ _ h => keepsResults_of_course h,
    fun _ _ h _ _ _ _ _ hx hsend => recounts_of_sequence h hx hsend, fun w report hrun => ?_⟩
  obtain ⟨xs, hcourse⟩ := World.course_run hrun
  obtain ⟨entries, agents, start, ys, -, hcount, hkeeps⟩ := keepsResults_of_course hcourse
  refine ⟨entries, agents, hcount, fun hplain => ?_⟩
  obtain ⟨history, hhistory, -⟩ := hkeeps hplain
  exact ⟨history, hhistory⟩

/-- The second job with a capability has the key that reads like the third one's capability, whose
result takes the place of its own. -/
theorem result_replaced :
    let o : Orchestrator := ⟨"o", 10, 50⟩
    let jobs : List Job := [{ capability := "a" }, { capability := "a" }, { capability := "a#2" }]
    let entries := [("a", ["p"]), ("a#2", ["p"])]
    jobs.filter (isReachable entries ["p"]) = jobs ∧ ¬ (Job.keys jobs).Nodup ∧
      ∃ xs report, Program.Course (o.sequence "r" jobs)
        (⟨.directory, entries⟩ :: ⟨.agentNames, ["p"]⟩ :: xs) ⟨.done report, none⟩ ∧
        report.jobs.map (·.result) = [some (.nat 0), some (.nat 1), some (.nat 2)] ∧
        report.results = [("a", .nat 0), ("a#2", .nat 2)] := by
  intro o jobs entries
  let pending (requestId capability : String) : Pending := ⟨0, requestId, capability, .first, 10⟩
  let answer (call : StepCall) (n : Nat) : Collected :=
    { (pending call.requestId call.capability).lost with
      content := .nat n, error := none, receivedFrom := ["p"], timedOut := false }
  have hstep : ∀ (call : StepCall) (n : Nat), call.assignedAgent = none →
      ∃ xs, SideBySide [call.run] xs ([call.outcome (answer call n)].map .done) := by
    rintro ⟨sender, requestId, capability, -, data, timeout, deadline⟩ n rfl
    exact ⟨_, .go (i := 0) (o := .providers capability) rfl ["p"] <|
      .go (i := 0) (o := .clock) rfl (0 : Nat) <|
      .go (i := 0) (o := .collect ..) rfl (pending requestId capability) <|
      .go (i := 0) (o := .providers capability) rfl ["p"] <|
      .go (i := 0) (o := .stamp) rfl (⟨"m0", .ofMillis 0⟩ : Stamp) <|
      .go (i := 0) (o := .send ..) rfl true <|
      .go (i := 0) (o := .collected _) rfl (answer _ n) <| .stay _⟩
  have hcourse : Program.Course (o.sequence "r" jobs) _ _ :=
    .plain (o := .directory) entries <| .plain (o := .agentNames) ["p"] <|
    .plain (o := .clock) (0 : Nat) <|
    .plain (o := .clock) (0 : Nat) <| .wave (hstep _ 0 rfl).choose_spec <|
    .plain (o := .clock) (0 : Nat) <| .wave (hstep _ 1 rfl).choose_spec <|
    .plain (o := .clock) (0 : Nat) <| .wave (hstep _ 2 rfl).choose_spec <| .stop _
  exact ⟨by decide, by decide +kernel, _, _, hcourse, rfl, by decide +kernel⟩

end Orchestrator

end Switchboard
