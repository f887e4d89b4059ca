import Switchboard.Proofs.Graph.Cycles
import Switchboard.Proofs.Orchestrate.Waves
import Switchboard.Proofs.World.Courses

/-!
# The account of a request

* `Orchestrator.course_execute` : a request reads the directory and the clock, and then runs the
  schedule of what is provided;
* `Orchestrator.Accounts` : the records of a report agree with each other and with the plan;
* `Orchestrator.accounts_of_execute` : they do whatever the surroundings answer.
-/

namespace Switchboard

/-- The part of the graph of a request that somebody provides. -/
def GraphRequest.kept (r : GraphRequest) (entries : List (String × List String)) :
    CapabilityGraph :=
  (r.graph.retain (Directory.mk entries).has).1

namespace Orchestrator

/-- What is run of a request that starts at a time. -/
def brief (o : Orchestrator) (r : GraphRequest) (entries : List (String × List String))
    (start : Nat) : Brief :=
  ⟨o, r.requestId, .ofGraph r (r.kept entries), start + o.requestTimeout⟩

/-- The report of a request with these records. -/
def reportOf (r : GraphRequest) (entries : List (String × List String)) (p : Progress) :
    RunReport :=
  p.report r.requestId (r.graph.retain (Directory.mk entries).has).2 (r.kept entries).plan.fellBack

/-- All waves of a request. -/
def Brief.runAll (b : Brief) : Program Progress := b.run 0 b.schedule.waves (.start b.schedule)

theorem execute_eq (o : Orchestrator) (r : GraphRequest) :
    o.execute r =
      .ask (.plain .directory) fun (entries : List (String × List String)) =>
      .ask (.plain .clock) fun (start : Nat) =>
      (o.brief r entries start).runAll.bind fun p => .done (reportOf r entries p) := rfl

/-- A request reads the directory and the clock, and then runs the schedule of what is provided. -/
theorem course_execute {o : Orchestrator} {r : GraphRequest} {xs : List Answered}
    {rest : Program.Rest RunReport} (h : Program.Course (o.execute r) xs rest) :
    (∀ x ∈ xs, x.operation = .directory) ∧ (∀ report, rest.code ≠ .done report) ∨
    ∃ entries start ys rest', xs = ⟨.directory, entries⟩ :: ⟨.clock, start⟩ :: ys ∧
      Program.Course (o.brief r entries start).runAll ys rest' ∧
      ∀ report, rest = ⟨.done report, none⟩ →
        ∃ p, rest' = ⟨.done p, none⟩ ∧ report = reportOf r entries p := by
  rw [execute_eq] at h
  cases h with
  | stop => exact .inl ⟨by simp, fun report h => nomatch h⟩
  | plain entries h =>
  cases h with
  | stop => exact .inl ⟨by simp, fun report h => nomatch h⟩
  | plain start h =>
  obtain ⟨rest', hcourse, hend⟩ := h.of_bind_done
  exact .inr ⟨entries, start, _, rest', rfl, hcourse, hend⟩

/-- The records of a report agree with each other and with the plan of what is provided. -/
structure Accounts (r : GraphRequest) (entries : List (String × List String))
    (report : RunReport) (history : List HistoryEntry) : Prop where
  dropped : report.dropped = r.graph.names.filter fun c => !(Directory.mk entries).has c
  parted : (report.dropped ++ report.results.map (·.1)).Perm r.graph.names
  nodup : (report.dropped ++ report.results.map (·.1)).Nodup
  jobs : report.jobs.map (·.capability) = (r.kept entries).names
  history_eq : report.history = history.map HistoryEntry.toJson
  in_waves : history.map (fun e => (e.wave, e.key)) = inWaves 0 (r.kept entries).plan.waves
  once : (history.map (·.key)).Perm (r.kept entries).names
  same : ∀ e ∈ history, Fields.get? report.results e.key = some e.result ∧
    ∀ j ∈ report.jobs, j.capability = e.key → j.result = some e.result
  timedOut : report.timedOut.Sublist (history.map (·.key))
  nodup_timedOut : report.timedOut.Nodup
  late : ∀ e ∈ history, e.key ∈ report.timedOut →
    e.fromAgent = none ∧ ∃ text, e.result = failureOf text
  fellBack : report.fellBack = (r.kept entries).plan.fellBack

section Reached

variable {o : Orchestrator} {r : GraphRequest} {entries : List (String × List String)}
  {start : Nat} {xs : List Answered} {ends : List StepEnd} {p : Progress}

/-- The job of a capability has the result that its step ended with. -/
theorem result_of_reached (hd : (r.kept entries).names.Nodup)
    (h : (o.brief r entries start).Reached xs ends p)
    (hplaces : ends.map (·.place) = (o.brief r entries start).schedule.places) {e : StepEnd}
    (he : e ∈ ends) {j : Job} (hj : j ∈ p.jobs)
    (hkey : j.capability = e.key (o.brief r entries start).schedule) :
    j.result = some e.outcome.result := by
  have hsound : (o.brief r entries start).schedule.Sound := Schedule.sound_ofGraph r hd
  obtain ⟨i, hi⟩ := List.getElem?_of_mem hj
  have hlt : i < (o.brief r entries start).schedule.steps.length :=
    h.records.length ▸ (List.getElem?_eq_some_iff.mp hi).1
  obtain ⟨result, hjob, hresult⟩ := h.records.jobs i _ (List.getElem?_eq_getElem hlt)
  obtain rfl := Option.some.inj (hjob.symm.trans hi)
  have hplace : e.place ∈ (o.brief r entries start).schedule.places :=
    hplaces ▸ List.mem_map_of_mem he
  refine hresult e he (hsound.eq_of_key_eq (hsound.lt_of_mem_places hplace) hlt ?_)
  rw [Schedule.key_eq (List.getElem?_eq_getElem hlt)]
  exact hkey.symm.trans (Schedule.capability_ofGraph (List.getElem?_eq_getElem hlt))

/-- The records agree once all steps have ended. -/
theorem accounts_of_reached (hd : r.graph.names.Nodup)
    (h : (o.brief r entries start).Reached xs ends p)
    (hplaces : ends.map (·.place) = (o.brief r entries start).schedule.places) :
    Accounts r entries (reportOf r entries p)
      (ends.map (·.entry (o.brief r entries start).schedule)) := by
  set s := (o.brief r entries start).schedule
  have hdkept : (r.kept entries).names.Nodup := CapabilityGraph.nodup_names_retain hd _
  have hsound : s.Sound := Schedule.sound_ofGraph r hdkept
  have hkeys : (ends.map (·.key s)).Perm (r.kept entries).names := by
    rw [StepEnd.map_key_eq, hplaces, ← Schedule.keys_ofGraph r (r.kept entries)]
    exact hsound.perm_keys
  have hdkeys : (ends.map (·.key s)).Nodup := hkeys.nodup_iff.mpr hdkept
  have hhistory : (ends.map (·.entry s)).map (·.key) = ends.map (·.key s) := by
    rw [List.map_map]
    rfl
  have hlate : (reportOf r entries p).timedOut =
      (ends.filter (·.outcome.timedOut)).map (·.key s) := h.records.timedOut
  have hparted : ((r.graph.retain (Directory.mk entries).has).2 ++ p.results.map (·.1)).Perm
      r.graph.names := by
    have hresults : (p.results.map (·.1)).Perm (r.kept entries).names := by
      refine (h.records.results.map (·.1)).trans ?_
      rw [List.map_map]
      exact hkeys
    refine (hresults.append_left _).trans (List.perm_append_comm.trans ?_)
    rw [CapabilityGraph.dropped_retain, GraphRequest.kept, CapabilityGraph.names_retain]
    exact List.filter_append_perm _ _
  refine
    { dropped := CapabilityGraph.dropped_retain _ _
      parted := hparted
      nodup := hparted.nodup_iff.mpr hd
      jobs := ?_
      history_eq := congrArg _ h.records.history
      in_waves := ?_
      once := hhistory ▸ hkeys
      same := ?_
      timedOut := ?_
      nodup_timedOut := ?_
      late := ?_
      fellBack := rfl }
  · rw [← Schedule.keys_ofGraph r (r.kept entries)]
    refine h.records.capabilities.trans (List.map_congr_left fun x hx => ?_)
    obtain ⟨i, hi⟩ := List.getElem?_of_mem hx
    exact Schedule.capability_ofGraph hi
  · rw [← Schedule.map_keys_waves r (r.kept entries), inWaves_map, List.map_map]
    change _ = s.places.map fun x => (x.1, s.key x.2)
    rw [← hplaces, List.map_map]
    rfl
  · intro entry hentry
    obtain ⟨e, he, rfl⟩ := List.mem_map.mp hentry
    exact ⟨h.records.get?_results hdkeys he,
      fun j hj hkey => result_of_reached hdkept h hplaces he hj hkey⟩
  · rw [hhistory, hlate]
    exact List.filter_sublist.map _
  · rw [hlate]
    exact hdkeys.sublist (List.filter_sublist.map _)
  · intro entry hentry hmem
    obtain ⟨e, he, rfl⟩ := List.mem_map.mp hentry
    rw [hlate] at hmem
    obtain ⟨e', he', hkey⟩ := List.mem_map.mp hmem
    obtain ⟨he', hout⟩ := List.mem_filter.mp he'
    obtain rfl : e' = e := List.inj_on_of_nodup_map hdkeys he' he hkey
    exact (h.ended e' he').plain hout

end Reached

/-- **The account of a request.** Whatever the surroundings answer, a request that ends has left out
exactly what nobody provided when it started, and says of everything else once how it ended, in
the order of the plan and the same in all its records. So does each one that ends in a world. -/
theorem accounts_of_execute {o : Orchestrator} {r : GraphRequest}
    (hg : CapabilityGraph.Built r.graph) :
    (∀ xs report, Program.Course (o.execute r) xs ⟨.done report, none⟩ →
      ∃ entries later, xs = ⟨.directory, entries⟩ :: later ∧
        ∃ history, Accounts r entries report history) ∧
    ∀ (w : World) report, (w.run (o.execute r)).2 = .ended report →
      ∃ entries history, Accounts r entries report history := by
  have hcourses : ∀ xs report, Program.Course (o.execute r) xs ⟨.done report, none⟩ →
      ∃ entries later, xs = ⟨.directory, entries⟩ :: later ∧
        ∃ history, Accounts r entries report history := by
    intro xs report h
    rcases course_execute h with ⟨-, hunfinished⟩ | ⟨entries, start, ys, rest, rfl, hcourse, hend⟩
    · exact absurd rfl (hunfinished report)
    obtain ⟨p, rfl, rfl⟩ := hend report rfl
    have hd : r.graph.names.Nodup := hg.nodup_names
    have hsound : (o.brief r entries start).schedule.Sound :=
      Schedule.sound_ofGraph r (CapabilityGraph.nodup_names_retain hd _)
    obtain ⟨ends, hplaces, hreached⟩ :=
      (Brief.Reached.start _).finish hcourse (Brief.Reached.Follow.all hsound)
    exact ⟨entries, _, rfl, _, accounts_of_reached hd hreached hplaces⟩
  refine ⟨hcourses, fun w report hrun => ?_⟩
  obtain ⟨xs, hcourse⟩ := World.course_run hrun
  obtain ⟨entries, -, -, haccounts⟩ := hcourses xs report hcourse
  exact ⟨entries, haccounts⟩

/-- One capability has no provider, one replies, and the third one's turn comes too late. -/
theorem accounts_of_late_wave :
    let o : Orchestrator := ⟨"o", 10, 5⟩
    let r : GraphRequest :=
      { requestId := "r"
        graph := ((({} : CapabilityGraph).add "a" []).add "x" []).add "b" ["a"] }
    ∃ xs report, Program.Course (o.execute r) xs ⟨.done report, none⟩ ∧
      report.dropped = ["x"] ∧ report.timedOut = ["b"] ∧
      ∃ entries history, Accounts r entries report history := by
  intro o r
  let entries := [("a", ["p"]), ("b", ["q"])]
  let b := o.brief r entries 0
  let pending : Pending := ⟨0, "r:a", "a", .first, 5⟩
  let answer : Collected :=
    { pending.lost with content := .null, error := none, receivedFrom := ["p"], timedOut := false }
  have hside : SideBySide ((b.calls (.start b.schedule) [0]).map StepCall.run) _
      ([_].map .done) :=
    .go (i := 0) (o := .providers "a") rfl ["p"] <|
    .go (i := 0) (o := .clock) rfl (0 : Nat) <|
    .go (i := 0) (o := .collect ..) rfl pending <|
    .go (i := 0) (o := .providers "a") rfl ["p"] <|
    .go (i := 0) (o := .stamp) rfl (⟨"m0", .ofMillis 0⟩ : Stamp) <|
    .go (i := 0) (o := .send ..) rfl true <|
    .go (i := 0) (o := .collected _) rfl answer <| .stay _
  have hcourse : Program.Course (o.execute r) _ ⟨.done (reportOf r entries _), none⟩ :=
    .plain (o := .directory) entries <| .plain (o := .clock) (0 : Nat) <|
    .plain (o := .clock) (0 : Nat) <| .wave hside <|
    .plain (o := .clock) (7 : Nat) <| .stop _
  have hg : CapabilityGraph.Built r.graph := .add (.add (.add .empty _ _) _ _) _ _
  obtain ⟨entries, -, -, history, haccounts⟩ := (accounts_of_execute hg).1 _ _ hcourse
  exact ⟨_, _, hcourse, by decide, by decide +kernel, entries, history, haccounts⟩

end Orchestrator

end Switchboard
