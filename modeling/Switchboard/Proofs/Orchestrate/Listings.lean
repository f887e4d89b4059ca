import Switchboard.Proofs.Orchestrate.Sequences

/-!
# In which order a report lists its jobs

* `Progress.file`, `Progress.AddsAll.jobs` : the jobs with the results of certain ends of steps;
* `Progress.Complete`, `Progress.AddsAll.complete` : in the end every job has the result of its entry
  in the history;
* `CapabilityGraph.ListedByWave`, `CapabilityGraph.order_eq_names_iff` : when the plan of a graph
  keeps the order in which the graph lists its capabilities;
* `RunReport.InOrder` : jobs that are listed in the order of the history;
* `Orchestrator.Listed`, `Orchestrator.ListedInSequence` : what is listed of a graph, and of a
  sequence;
* `Orchestrator.inOrder_iff_listedByWave` : which reports list their jobs in the order of their plan.
-/

namespace Switchboard

/-! ## Results at their positions -/

namespace Progress

/-- Jobs with the results that certain steps ended with. -/
def file (jobs : List Job) (ends : List StepEnd) : List Job :=
  ends.foldl (fun jobs e => withResult jobs e.position e.outcome.result) jobs

theorem capabilities_withResult (jobs : List Job) (i : Nat) (result : Json) :
    (withResult jobs i result).map (·.capability) = jobs.map (·.capability) := by
  refine List.ext_getElem (by simp [withResult]) fun k _ _ => ?_
  simp only [withResult, List.getElem_map, List.getElem_modify]
  split <;> rfl

theorem capabilities_file (jobs : List Job) (ends : List StepEnd) :
    (file jobs ends).map (·.capability) = jobs.map (·.capability) := by
  induction ends generalizing jobs with
  | nil => rfl
  | cons e ends ih => exact (ih _).trans (capabilities_withResult _ _ _)

theorem getElem?_file_of_notMem {jobs : List Job} {ends : List StepEnd} {i : Nat}
    (h : i ∉ ends.map (·.position)) : (file jobs ends)[i]? = jobs[i]? := by
  induction ends generalizing jobs with
  | nil => rfl
  | cons e ends ih =>
    obtain ⟨hne, hrest⟩ : i ≠ e.position ∧ i ∉ ends.map (·.position) := by simpa using h
    have hstep : (withResult jobs e.position e.outcome.result)[i]? = jobs[i]? := by
      simp [withResult, hne.symm]
    exact (ih hrest).trans hstep

/-- A job has the result of the step at its position. -/
theorem getElem?_file {jobs : List Job} {ends : List StepEnd}
    (hd : (ends.map (·.position)).Nodup) {e : StepEnd} (he : e ∈ ends) :
    (file jobs ends)[e.position]? =
      jobs[e.position]?.map fun j => { j with result := some e.outcome.result } := by
  induction ends generalizing jobs with
  | nil => cases he
  | cons f ends ih =>
    obtain ⟨hnew, hd⟩ := List.nodup_cons.mp hd
    rcases List.mem_cons.mp he with rfl | he
    · refine (getElem?_file_of_notMem hnew).trans ?_
      simp [withResult]
    · have hne : f.position ≠ e.position := fun heq => hnew (List.mem_map.mpr ⟨e, he, heq.symm⟩)
      refine (ih hd he).trans ?_
      simp [withResult, hne]

theorem AddsAll.jobs {s : Schedule} {ends : List StepEnd} {p p' : Progress}
    (h : AddsAll s ends p p') : p'.jobs = file p.jobs ends := by
  induction h with
  | nil => rfl
  | cons hadd _ ih => rw [ih, hadd.jobs, file, file, List.foldl_cons]

/-- The records of jobs and history when all steps of a schedule have ended. -/
structure Complete (s : Schedule) (p : Progress) : Prop where
  capabilities : p.jobs.map (·.capability) = s.steps.map (·.2.capability)
  keys : p.history.map (·.key) = s.waves.flatten.map s.key
  own : ∀ k i : Nat, s.waves.flatten[k]? = some i → ∃ (j : Job) (e : HistoryEntry),
    p.jobs[i]? = some j ∧ p.history[k]? = some e ∧ e.key = s.key i ∧ j.result = some e.result
  filled : ∀ j ∈ p.jobs, j.result.isSome = true

theorem positions_of_places {s : Schedule} {ends : List StepEnd}
    (hplaces : ends.map (·.place) = s.places) :
    ends.map (·.position) = s.waves.flatten := by
  rw [← map_snd_inWaves 0]
  change _ = s.places.map _
  rw [← hplaces, List.map_map]
  rfl

/-- A step that is written down has its result in its job. -/
theorem AddsAll.exists_job {s : Schedule} {ends : List StepEnd} {p : Progress} {e : StepEnd}
    (h : AddsAll s ends (.start s) p) (hd : (ends.map (·.position)).Nodup) (he : e ∈ ends)
    (hlt : e.position < s.steps.length) :
    ∃ j, p.jobs[e.position]? = some j ∧ j.result = some e.outcome.result := by
  refine ⟨{ s.steps[e.position].2 with result := some e.outcome.result }, ?_, rfl⟩
  rw [h.jobs, getElem?_file hd he, start, List.getElem?_map, List.getElem?_eq_getElem hlt]
  rfl

/-- The ends of all steps leave complete records. -/
theorem AddsAll.complete {s : Schedule} {ends : List StepEnd} {p : Progress}
    (h : AddsAll s ends (.start s) p) (hperm : s.waves.flatten.Perm (List.range s.steps.length))
    (hplaces : ends.map (·.place) = s.places) : Complete s p := by
  have hcapabilities : p.jobs.map (·.capability) = s.steps.map (·.2.capability) := by
    rw [h.jobs, capabilities_file, start, List.map_map]
    rfl
  have hhistory : p.history = ends.map (·.entry s) := h.history
  have hpositions := positions_of_places hplaces
  have hmem {i : Nat} : i ∈ ends.map (·.position) ↔ i < s.steps.length := by
    rw [hpositions, hperm.mem_iff, List.mem_range]
  have hjob : ∀ e ∈ ends, ∃ j, p.jobs[e.position]? = some j ∧ j.result = some e.outcome.result :=
    fun e he => h.exists_job (hpositions ▸ hperm.nodup_iff.mpr List.nodup_range) he
      (hmem.mp (List.mem_map_of_mem he))
  refine ⟨hcapabilities, ?_, fun k i hk => ?_, fun j hj => ?_⟩
  · rw [hhistory, ← hpositions, List.map_map, List.map_map]
    rfl
  · rw [← hpositions, List.getElem?_map] at hk
    obtain ⟨e, he, rfl⟩ := Option.map_eq_some_iff.mp hk
    obtain ⟨j, hj, hresult⟩ := hjob e (List.mem_of_getElem? he)
    refine ⟨j, e.entry s, hj, ?_, rfl, hresult⟩
    rw [hhistory, List.getElem?_map, he]
    rfl
  · obtain ⟨i, hi⟩ := List.getElem?_of_mem hj
    have hlt : i < s.steps.length := by
      have hlength : p.jobs.length = s.steps.length := by
        simpa using congrArg List.length hcapabilities
      exact hlength ▸ (List.getElem?_eq_some_iff.mp hi).1
    obtain ⟨e, he, rfl⟩ := List.mem_map.mp (hmem.mpr hlt)
    obtain ⟨j', hj', hresult⟩ := hjob e he
    obtain rfl := Option.some.inj (hi.symm.trans hj')
    rw [hresult]
    rfl

/-- Steps that are done in the order of their positions leave their results in this order. -/
theorem Complete.results {s : Schedule} {p : Progress} (h : Complete s p)
    (horder : s.waves.flatten = List.range s.steps.length) :
    p.jobs.map (·.result) = p.history.map fun e => some e.result := by
  have hjobs : p.jobs.length = s.steps.length := by
    simpa using congrArg List.length h.capabilities
  have hhistory : p.history.length = s.steps.length := by
    simpa [horder] using congrArg List.length h.keys
  refine List.ext_getElem? fun k => ?_
  rw [List.getElem?_map, List.getElem?_map]
  by_cases hk : k < s.steps.length
  · obtain ⟨j, e, hj, he, -, hresult⟩ := h.own k k (by rw [horder, List.getElem?_range hk])
    rw [hj, he, Option.map_some, Option.map_some, hresult]
  · rw [List.getElem?_eq_none (by omega), List.getElem?_eq_none (by omega)]
    rfl

end Progress

/-! ## The order of a graph -/

namespace CapabilityGraph

/-- No capability is listed before one of an earlier wave. -/
def ListedByWave (g : CapabilityGraph) : Prop :=
  g.names.Pairwise fun a b => waveOf g.plan.waves a ≤ waveOf g.plan.waves b

instance (g : CapabilityGraph) : Decidable g.ListedByWave :=
  inferInstanceAs (Decidable (g.names.Pairwise _))

theorem sublist_names_of_mem_plan {g : CapabilityGraph} (hg : Built g) {wave : List String}
    (hwave : wave ∈ g.plan.waves) : wave.Sublist g.names := by
  cases hback : g.plan.fellBack with
  | false => exact (layers_plan hg.nodup_names hback).inOrder wave hwave
  | true =>
    obtain ⟨-, -, -, -, hlinear⟩ := plan_order hg
    obtain ⟨name, rfl⟩ := List.length_eq_one_iff.mp ((hlinear hback).single wave hwave)
    refine List.singleton_sublist.mpr (g.perm_plan.mem_iff.mp ?_)
    exact List.mem_flatten.mpr ⟨[name], hwave, List.mem_singleton.mpr rfl⟩

/-- Waves that keep an order are this order, one after another, if and only if nothing stands in it
before what comes in an earlier wave. -/
theorem flatten_eq_iff {waves : List (List String)} {items : List String} (hd : items.Nodup)
    (hperm : waves.flatten.Perm items) (hsub : ∀ wave ∈ waves, wave.Sublist items) :
    waves.flatten = items ↔ items.Pairwise fun a b => waveOf waves a ≤ waveOf waves b := by
  have hwave : ∀ {i a}, InWave waves i a → waveOf waves a = i :=
    waveOf_eq (hperm.nodup_iff.mpr hd)
  -- what holds across waves and within each of them holds of all waves one after another
  have hflatten : ∀ {r : String → String → Prop},
      (∀ i a j b, InWave waves i a → InWave waves j b → i < j → r a b) →
      (∀ wave ∈ waves, wave.Pairwise r) → waves.flatten.Pairwise r := by
    intro r hacross hwithin
    refine List.pairwise_flatten.mpr ⟨hwithin, List.pairwise_iff_getElem.mpr ?_⟩
    intro i j hi hj hij a ha b hb
    exact hacross i a j b ⟨_, List.getElem?_eq_getElem hi, ha⟩
      ⟨_, List.getElem?_eq_getElem hj, hb⟩ hij
  constructor
  · intro heq
    rw [← heq]
    refine hflatten (fun i a j b ha hb hij => ?_) fun wave hmem => ?_
    · rw [hwave ha, hwave hb]
      exact Nat.le_of_lt hij
    · obtain ⟨i, hi⟩ := List.getElem?_of_mem hmem
      refine List.pairwise_of_forall_mem_list fun a ha b hb => ?_
      rw [hwave ⟨wave, hi, ha⟩, hwave ⟨wave, hi, hb⟩]
  · intro hlisted
    have hitems : items.Pairwise fun a b => items.idxOf a < items.idxOf b := by
      refine List.pairwise_iff_getElem.mpr fun i j hi hj hij => ?_
      rwa [hd.idxOf_getElem, hd.idxOf_getElem]
    have hwaves : waves.flatten.Pairwise fun a b => items.idxOf a < items.idxOf b := by
      refine hflatten (fun i a j b ha hb hij => ?_) fun wave hmem => hitems.sublist (hsub wave hmem)
      by_contra hnot
      have hmem : ∀ {k c}, InWave waves k c → c ∈ items := fun hc =>
        hperm.mem_iff.mp (mem_flatten_iff_inWave.mpr ⟨_, hc⟩)
      have hne : items.idxOf b ≠ items.idxOf a := by
        intro heq
        rw [(List.idxOf_inj (hmem hb)).mp heq] at hb
        rw [← hwave ha, hwave hb] at hij
        exact Nat.lt_irrefl _ hij
      have hle := List.pairwise_iff_getElem.mp hlisted _ _ (List.idxOf_lt_length_of_mem (hmem hb))
        (List.idxOf_lt_length_of_mem (hmem ha)) (by omega)
      rw [List.getElem_idxOf, List.getElem_idxOf, hwave ha, hwave hb] at hle
      omega
    exact hperm.eq_of_pairwise (fun a b _ _ hab hba => absurd hab (Nat.lt_asymm hba)) hwaves hitems

theorem order_eq_names_iff {g : CapabilityGraph} (hg : Built g) :
    g.plan.order = g.names ↔ g.ListedByWave :=
  flatten_eq_iff hg.nodup_names g.perm_plan fun _ hwave => sublist_names_of_mem_plan hg hwave

end CapabilityGraph

/-! ## Reports -/

/-- The jobs are listed in the order of the history: these are the keys of both, one by one, and
each job has a result, which is that of its entry. -/
structure RunReport.InOrder (report : RunReport) (keys : List String) : Prop where
  keys : report.history.map (·.get? "capability") = keys.map fun key => some (.str key)
  filled : ∀ j ∈ report.jobs, j.result.isSome = true
  results : report.jobs.map (·.result) = report.history.map (·.get? "result")

section Report

variable (p : Progress) (requestId : String) (dropped : List String) (fellBack : Bool)

theorem Progress.keys_report :
    (p.report requestId dropped fellBack).history.map (·.get? "capability") =
      (p.history.map (·.key)).map fun key => some (.str key) := by
  rw [report, List.map_map, List.map_map]
  rfl

theorem Progress.results_report :
    (p.report requestId dropped fellBack).history.map (·.get? "result") =
      p.history.map fun e => some e.result := by
  rw [report, List.map_map]
  rfl

end Report

/-- A report is in order if the steps are done in the order of their positions. -/
theorem Progress.Complete.inOrder {s : Schedule} {p : Progress} (h : p.Complete s)
    (horder : s.waves.flatten = List.range s.steps.length) (requestId : String)
    (dropped : List String) (fellBack : Bool) :
    (p.report requestId dropped fellBack).InOrder (s.steps.map (·.1)) where
  keys := by rw [keys_report, h.keys, horder, Schedule.map_key_range]
  filled := h.filled
  results := (h.results horder).trans (results_report ..).symm

namespace Orchestrator

/-- What a report lists of the capabilities of a graph that were run: the jobs in the order of the
graph, the history in the order of its plan, and each job with the result of its entry. -/
structure Listed (g : CapabilityGraph) (report : RunReport) : Prop where
  jobs : report.jobs.map (·.capability) = g.names
  history : report.history.map (·.get? "capability") = g.plan.order.map fun c => some (.str c)
  filled : ∀ j ∈ report.jobs, j.result.isSome = true
  own : ∀ j ∈ report.jobs, ∃ step ∈ report.history,
    step.get? "capability" = some (.str j.capability) ∧ step.get? "result" = j.result
  inOrder_iff : report.InOrder (report.jobs.map (·.capability)) ↔ g.ListedByWave

theorem complete_of_course {b : Brief} {p : Progress} {xs : List Answered}
    (hperm : b.schedule.waves.flatten.Perm (List.range b.schedule.steps.length))
    (hcourse : Program.Course b.runAll xs ⟨.done p, none⟩) : p.Complete b.schedule := by
  have hfits : ∀ wave ∈ b.schedule.waves, b.Fits wave := fun wave hw i hi =>
    List.mem_range.mp (hperm.mem_iff.mp (List.mem_flatten.mpr ⟨wave, hw, hi⟩))
  obtain ⟨ends, hplaces, -, hadds⟩ := Brief.addsAll_of_course hfits hcourse
  exact hadds.complete hperm hplaces

section OfGraph

variable {r : GraphRequest} {g : CapabilityGraph} {p : Progress}

theorem keys_of_complete (h : p.Complete (.ofGraph r g)) : p.history.map (·.key) = g.plan.order := by
  rw [h.keys, List.map_flatten, Schedule.map_keys_waves, WavePlan.order]

theorem capabilities_of_complete (h : p.Complete (.ofGraph r g)) :
    p.jobs.map (·.capability) = g.names := by
  rw [h.capabilities, ← Schedule.keys_ofGraph r g]
  refine List.map_congr_left fun x hx => ?_
  obtain ⟨i, hi⟩ := List.getElem?_of_mem hx
  exact Schedule.capability_ofGraph hi

theorem listed_of_complete (hg : CapabilityGraph.Built g) (h : p.Complete (.ofGraph r g))
    (requestId : String) (dropped : List String) (fellBack : Bool) :
    Listed g (p.report requestId dropped fellBack) := by
  have hsound : (Schedule.ofGraph r g).Sound := Schedule.sound_ofGraph r hg.nodup_names
  refine
    { jobs := capabilities_of_complete h
      history := by rw [Progress.keys_report, keys_of_complete h]
      filled := h.filled
      own := fun j hj => ?_
      inOrder_iff := ?_ }
  · obtain ⟨i, hi⟩ := List.getElem?_of_mem hj
    have hlt : i < (Schedule.ofGraph r g).steps.length := by
      rw [← List.length_map (f := (·.2.capability)), ← h.capabilities, List.length_map]
      exact (List.getElem?_eq_some_iff.mp hi).1
    obtain ⟨k, hk⟩ := List.getElem?_of_mem (hsound.perm.mem_iff.mpr (List.mem_range.mpr hlt))
    obtain ⟨j', e, hj', he, hkey, hresult⟩ := h.own k i hk
    obtain rfl := Option.some.inj (hi.symm.trans hj')
    have hcapability : j.capability = (Schedule.ofGraph r g).key i := by
      have hget := congrArg (·[i]?) h.capabilities
      rw [List.getElem?_map, List.getElem?_map, hj', List.getElem?_eq_getElem hlt] at hget
      rw [Schedule.key_eq (List.getElem?_eq_getElem hlt),
        ← Schedule.capability_ofGraph (List.getElem?_eq_getElem hlt)]
      exact Option.some.inj hget
    refine ⟨e.toJson, List.mem_map_of_mem (List.mem_of_getElem? he), ?_, hresult.symm⟩
    rw [hcapability, ← hkey]
    rfl
  · rw [← CapabilityGraph.order_eq_names_iff hg]
    constructor
    · intro hinorder
      have hkeys := hinorder.keys
      rw [Progress.keys_report, keys_of_complete h] at hkeys
      exact (List.map_injective_iff.mpr (fun _ _ heq => by simpa using heq) hkeys).trans
        (capabilities_of_complete h)
    · intro horder
      have hpositions : (Schedule.ofGraph r g).waves.flatten =
          List.range (Schedule.ofGraph r g).steps.length := by
        have hlength : (Schedule.ofGraph r g).steps.length = g.names.length := by
          rw [← Schedule.keys_ofGraph r g, List.length_map]
        rw [Schedule.waves_ofGraph, ← List.map_flatten, hlength, ← map_idxOf hg.nodup_names]
        exact congrArg _ horder
      have hinorder := h.inOrder hpositions requestId dropped fellBack
      rwa [Schedule.keys_ofGraph, ← capabilities_of_complete h] at hinorder

end OfGraph

/-- What a report lists of jobs that were done one after another: these jobs in their order, which
is that of the history. -/
structure ListedInSequence (kept : List Job) (report : RunReport) : Prop where
  jobs : report.jobs.map (·.capability) = kept.map (·.capability)
  inOrder : report.InOrder (Job.keys report.jobs)

theorem keys_congr {jobs jobs' : List Job}
    (h : jobs.map (·.capability) = jobs'.map (·.capability)) : Job.keys jobs = Job.keys jobs' := by
  rw [Job.keys, Job.keysAfter_eq, h, ← Job.keysAfter_eq, Job.keys]

theorem listedInSequence_of_complete {kept : List Job} {p : Progress}
    (h : p.Complete (.ofSequence kept)) (requestId : String) (dropped : List String)
    (fellBack : Bool) : ListedInSequence kept (p.report requestId dropped fellBack) := by
  have hjobs : p.jobs.map (·.capability) = kept.map (·.capability) := by
    have hsteps : (Schedule.ofSequence kept).steps.map (·.2.capability) =
        ((Schedule.ofSequence kept).steps.map (·.2)).map (·.capability) := by
      rw [List.map_map]
      rfl
    rw [h.capabilities, hsteps, Schedule.jobs_ofSequence]
  have hpositions : (Schedule.ofSequence kept).waves.flatten =
      List.range (Schedule.ofSequence kept).steps.length := by
    rw [Schedule.flatten_ofSequence, Schedule.length_ofSequence]
  have hinorder := h.inOrder hpositions requestId dropped fellBack
  rw [Schedule.keys_ofSequence, ← keys_congr hjobs] at hinorder
  exact ⟨hjobs, hinorder⟩

theorem listed_of_course {o : Orchestrator} {r : GraphRequest}
    (hg : CapabilityGraph.Built r.graph) {xs : List Answered} {report : RunReport}
    (h : Program.Course (o.execute r) xs ⟨.done report, none⟩) :
    ∃ entries later, xs = ⟨.directory, entries⟩ :: later ∧ Listed (r.kept entries) report := by
  rcases course_execute h with ⟨-, hunfinished⟩ | ⟨entries, start, ys, rest, rfl, hcourse, hend⟩
  · exact absurd rfl (hunfinished report)
  obtain ⟨p, rfl, rfl⟩ := hend report rfl
  have hkept : CapabilityGraph.Built (r.kept entries) := hg.retain _
  have hcomplete : p.Complete (.ofGraph r (r.kept entries)) :=
    complete_of_course (Schedule.sound_ofGraph r hkept.nodup_names).perm hcourse
  exact ⟨entries, _, rfl, listed_of_complete hkept hcomplete ..⟩

theorem listedInSequence_of_course {o : Orchestrator} {requestId : String} {jobs : List Job}
    {xs : List Answered} {report : RunReport}
    (h : Program.Course (o.sequence requestId jobs) xs ⟨.done report, none⟩) :
    ∃ entries agents later, xs = ⟨.directory, entries⟩ :: ⟨.agentNames, agents⟩ :: later ∧
      ListedInSequence (jobs.filter (isReachable entries agents)) report := by
  rcases course_sequence h with
    ⟨-, hunfinished⟩ | ⟨entries, agents, start, ys, rest, rfl, hcourse, hend⟩
  · exact absurd rfl (hunfinished report)
  obtain ⟨p, dropped, rfl, rfl⟩ := hend report rfl
  have hperm : (Schedule.ofSequence (jobs.filter (isReachable entries agents))).waves.flatten.Perm
      (List.range (Schedule.ofSequence (jobs.filter (isReachable entries agents))).steps.length) := by
    rw [Schedule.flatten_ofSequence, Schedule.length_ofSequence]
  exact ⟨entries, agents, _, rfl, listedInSequence_of_complete (complete_of_course hperm hcourse) ..⟩

/-- **In which order a report lists its jobs.** Whatever the surroundings answer, the report of a
request lists the capabilities that were run in the order of their graph, each with the result that
its history has for it, while the history goes by the plan: the one follows the other if and only if
the graph lists no capability before one of an earlier wave. The report of a sequence lists its jobs
in the order of its history, whatever their keys. So does each one that ends in a world. -/
theorem inOrder_iff_listedByWave (o : Orchestrator) :
    (∀ r, CapabilityGraph.Built r.graph →
      (∀ xs report, Program.Course (o.execute r) xs ⟨.done report, none⟩ →
        ∃ entries later, xs = ⟨.directory, entries⟩ :: later ∧ Listed (r.kept entries) report) ∧
      ∀ (w : World) report, (w.run (o.execute r)).2 = .ended report →
        ∃ entries, Listed (r.kept entries) report) ∧
    ∀ requestId jobs,
      (∀ xs report, Program.Course (o.sequence requestId jobs) xs ⟨.done report, none⟩ →
        ∃ entries agents later, xs = ⟨.directory, entries⟩ :: ⟨.agentNames, agents⟩ :: later ∧
          ListedInSequence (jobs.filter (isReachable entries agents)) report) ∧
      ∀ (w : World) report, (w.run (o.sequence requestId jobs)).2 = .ended report →
        ∃ entries agents, ListedInSequence (jobs.filter (isReachable entries agents)) report := by
  refine ⟨fun r hg => ⟨fun _ _ h => listed_of_course hg h, fun w report hrun => ?_⟩,
    fun requestId jobs => ⟨fun _ _ h => listedInSequence_of_course h, fun w report hrun => ?_⟩⟩
  · obtain ⟨xs, hcourse⟩ := World.course_run hrun
    obtain ⟨entries, -, -, hlisted⟩ := listed_of_course hg hcourse
    exact ⟨entries, hlisted⟩
  · obtain ⟨xs, hcourse⟩ := World.course_run hrun
    obtain ⟨entries, agents, -, -, hlisted⟩ := listedInSequence_of_course hcourse
    exact ⟨entries, agents, hlisted⟩

/-- A step may end with any number for its result. -/
theorem exists_sideBySide_nat (call : StepCall) (h : call.assignedAgent = none) (n : Nat) :
    ∃ xs, SideBySide [call.run] xs ([⟨.nat n, some "p", false⟩].map .done) := by
  obtain ⟨sender, requestId, capability, assignedAgent, data, timeout, deadline⟩ := call
  obtain rfl : assignedAgent = none := h
  let pending : Pending := ⟨0, requestId, capability, .first, 10⟩
  let answer : Collected :=
    { pending.lost with
      content := .nat n, error := none, receivedFrom := ["p"], timedOut := false }
  exact ⟨_, .go (i := 0) (o := .providers capability) rfl ["p"] <|
    .go (i := 0) (o := .clock) rfl (0 : Nat) <|
    .go (i := 0) (o := .collect ..) rfl pending <|
    .go (i := 0) (o := .providers capability) rfl ["p"] <|
    .go (i := 0) (o := .stamp) rfl (⟨"m0", .ofMillis 0⟩ : Stamp) <|
    .go (i := 0) (o := .send ..) rfl true <|
    .go (i := 0) (o := .collected _) rfl answer <| .stay _⟩

/-- A graph that lists what comes first, and a sequence of which two steps have one key. -/
theorem inOrder_graph_sequence :
    let o : Orchestrator := ⟨"o", 10, 50⟩
    let r : GraphRequest :=
      { requestId := "r", graph := (({} : CapabilityGraph).add "a" []).add "b" ["a"] }
    let jobs : List Job := [{ capability := "a" }, { capability := "a" }, { capability := "a#2" }]
    (∃ xs report, Program.Course (o.execute r) xs ⟨.done report, none⟩ ∧
      report.jobs.map (·.capability) = ["a", "b"] ∧
      report.InOrder (report.jobs.map (·.capability))) ∧
    ∃ xs report, Program.Course (o.sequence "r" jobs) xs ⟨.done report, none⟩ ∧
      Job.keys report.jobs = ["a", "a#2", "a#2"] ∧ report.InOrder (Job.keys report.jobs) := by
  intro o r jobs
  have hg : CapabilityGraph.Built r.graph := .add (.add .empty _ _) _ _
  have hgraph : Program.Course (o.execute r) _ _ :=
    .plain (o := .directory) [("a", ["p"]), ("b", ["p"])] <| .plain (o := .clock) (0 : Nat) <|
    .plain (o := .clock) (0 : Nat) <| .wave (exists_sideBySide_nat _ rfl 0).choose_spec <|
    .plain (o := .clock) (0 : Nat) <| .wave (exists_sideBySide_nat _ rfl 1).choose_spec <| .stop _
  have hsequence : Program.Course (o.sequence "r" jobs) _ _ :=
    .plain (o := .directory) [("a", ["p"]), ("a#2", ["p"])] <| .plain (o := .agentNames) ["p"] <|
    .plain (o := .clock) (0 : Nat) <|
    .plain (o := .clock) (0 : Nat) <| .wave (exists_sideBySide_nat _ rfl 0).choose_spec <|
    .plain (o := .clock) (0 : Nat) <| .wave (exists_sideBySide_nat _ rfl 1).choose_spec <|
    .plain (o := .clock) (0 : Nat) <| .wave (exists_sideBySide_nat _ rfl 2).choose_spec <| .stop _
  obtain ⟨hexecute, hsequences⟩ := inOrder_iff_listedByWave o
  obtain ⟨entries, later, heq, hlisted⟩ := (hexecute r hg).1 _ _ hgraph
  obtain ⟨entries', agents, later', -, hdone⟩ := (hsequences "r" jobs).1 _ _ hsequence
  obtain ⟨hfirst, -⟩ := List.cons.inj heq
  obtain rfl : [("a", ["p"]), ("b", ["p"])] = entries := eq_of_heq (Answered.mk.inj hfirst).2
  exact ⟨⟨_, _, hgraph, by decide, hlisted.inOrder_iff.mpr (by decide)⟩,
    _, _, hsequence, by decide +kernel, hdone.inOrder⟩

/-- The capability that depends on the other one is listed first and done last. -/
theorem listed_before_dependency :
    let o : Orchestrator := ⟨"o", 10, 50⟩
    let r : GraphRequest :=
      { requestId := "r", graph := (({} : CapabilityGraph).add "a" ["b"]).add "b" [] }
    let entries := [("a", ["p"]), ("b", ["q"])]
    CapabilityGraph.Built r.graph ∧ ∃ xs report,
      Program.Course (o.execute r) (⟨.directory, entries⟩ :: xs) ⟨.done report, none⟩ ∧
      report.timedOut = [] ∧ report.fellBack = false ∧
      report.jobs.map (·.capability) = ["a", "b"] ∧
      report.jobs.map (·.result) = [some (.nat 1), some (.nat 0)] ∧
      report.history.map (·.get? "capability") = [some (.str "b"), some (.str "a")] ∧
      ¬ report.InOrder (report.jobs.map (·.capability)) := by
  intro o r entries
  have hcourse : Program.Course (o.execute r) _ _ :=
    .plain (o := .directory) entries <| .plain (o := .clock) (0 : Nat) <|
    .plain (o := .clock) (0 : Nat) <| .wave (exists_sideBySide_nat _ rfl 0).choose_spec <|
    .plain (o := .clock) (0 : Nat) <| .wave (exists_sideBySide_nat _ rfl 1).choose_spec <| .stop _
  refine ⟨.add (.add .empty _ _) _ _, _, _, hcourse, by decide +kernel, by decide, by decide, rfl,
    by decide +kernel, fun hinorder => ?_⟩
  exact absurd hinorder.keys (by decide +kernel)

end Orchestrator

end Switchboard
