import Switchboard.Agent.Orchestrating
import Switchboard.Proofs.Bus.Histories
import Switchboard.Proofs.Flow.Endings
import Switchboard.Proofs.Orchestrate.Apart
import Switchboard.Proofs.Reports
import Switchboard.Proofs.Timetable.Handlers

/-!
# How a request is answered

An agent that is given a request does some work and sends one message afterwards. The handler itself
sends it when there is a value; a fault, and work that breaks off, are answered by whoever serves the
request.

* `Answered.Live` : what an agent is told on a network that is kept;
* `Message.AnsweredBy`, `Message.AnsweredAfter` : a message answers a request; and it is the only one
  that was sent after the work was done;
* `Agent.serve_eq_closing` : an agent does the work, and closes the request;
* `Agent.answered_closing` : the one message of the end;
* `Agent.Invokes`, `Agent.answered_offering` : an agent that offers capabilities, with or without
  breakers;
* `Agent.Orchestrates`, `Agent.answered_orchestrating` : an agent that orchestrates.
-/

namespace Switchboard

/-! ## Answers -/

/-- What may be asked by who does not send an answer to the message of an id. -/
def Operation.LeavesUnanswered (id : String) : Operation → Prop
  | .send m _ => m.replyTo ≠ some id
  | _ => True

/-- What an agent that belongs to a network is told while the network is kept. -/
def Answered.Live (agent : Nat) : Answered → Prop
  | ⟨.hold, live⟩ => live = true
  | ⟨.attached other, attached⟩ => other = agent → attached = true
  | ⟨.send _ none, sent⟩ => sent = true
  | _ => True

namespace Message

/-- A message answers a request on which work was done that ended in this way. -/
structure AnsweredBy (m : Message) (name : String) (verdict : Verdict) (reply : Message) : Prop where
  fromAgent : reply.fromAgent = name
  toAgent : reply.toAgent = some m.fromAgent
  requestId : reply.requestId = m.requestId
  replyTo : reply.replyTo = some m.id
  value : ∀ v, verdict = .ok (.ok v) → reply.kind = .capabilityResponse ∧ reply.content = v
  fault : ∀ f, verdict.fault? = some f → reply.kind = .error ∧ reply.faultReport? = some f.report

/-- Some work was done for a request, and after it one message was put into the queue, which answers
the request. -/
def AnsweredAfter (m : Message) (name : String) (Work : List Answered → Verdict → Prop)
    (told : List Answered) : Prop :=
  ∃ work verdict closing reply, told = work ++ closing ∧ Work work verdict ∧
    closing.filterMap Answered.accepted? = [reply] ∧ m.AnsweredBy name verdict reply

/-- How many of the messages that some work put into the queue answer a request. -/
def answersIn (m : Message) (told : List Answered) : Nat :=
  (told.filterMap Answered.accepted?).countP (·.replyTo == some m.id)

/-- A request is answered once, unless its work itself sends an answer to it. -/
theorem AnsweredAfter.once {m : Message} {name : String} {Work : List Answered → Verdict → Prop}
    {told : List Answered} (h : m.AnsweredAfter name Work told)
    (hwork : ∀ work verdict, Work work verdict →
      ∀ sent ∈ work.filterMap Answered.accepted?, sent.replyTo ≠ some m.id) :
    m.answersIn told = 1 := by
  obtain ⟨work, verdict, closing, reply, rfl, hworked, hclosing, hanswers⟩ := h
  have hnone : (work.filterMap Answered.accepted?).countP (·.replyTo == some m.id) = 0 :=
    List.countP_eq_zero.mpr fun sent hsent heq =>
      hwork work verdict hworked sent hsent (eq_of_beq heq)
  rw [answersIn, List.filterMap_append, List.countP_append, hnone, hclosing]
  simp [hanswers.replyTo]

end Message

/-- A message that was accepted was sent. -/
theorem Answered.operation_of_accepted {x : Answered} {sent : Message}
    (h : x.accepted? = some sent) : ∃ patience, x.operation = .send sent patience := by
  obtain ⟨o, answer⟩ := x
  cases o with
  | send m patience =>
    unfold accepted? at h
    cases answer with
    | false => cases h
    | true =>
      obtain rfl := Option.some.inj h
      exact ⟨patience, rfl⟩
  | _ => cases h

namespace Agent

variable {agent : Nat} {name : String} {m : Message} {xs : List Answered} {verdict : Verdict}

/-! ## The end of a request -/

/-- How a request is answered on which the work has ended. -/
def closing (agent : Nat) (name : String) (m : Message) : Verdict → Program Unit
  | .ok (.ok v) =>
    (Flow.attempt (respond agent name m v).program).bind (Program.afterwards name m)
  | .ok (.error f) => (reportFailure name m f).program
  | .error text => (reportFailure name m (broken text)).program

/-- A value is sent by the handler, a fault by whoever serves the request. -/
theorem serve_eq_closing {a : Agent} (hlog : a.keepsLog = false) (hm : m.kind = .capabilityRequest)
    {work : Program (Except Fault Json)}
    (hwork : a.onRequest agent m = work.bind fun result => (finish agent a.name m result).program) :
    a.serve agent m = (Flow.attempt work).bind (closing agent a.name m) := by
  have hhandle : a.handle agent m = a.onRequest agent m := by
    unfold handle
    rw [hm, hlog]
    rfl
  have hafter : ∀ r f, failure? r = some f →
      Program.afterwards a.name m r = (reportFailure a.name m f).program := by
    intro r f hf
    unfold Program.afterwards
    rw [hf, hm]
  rw [Program.serve_eq, hhandle, hwork, Flow.attempt_bind, Flow.bind_assoc]
  refine congrArg (Flow.bind _) (funext fun result => ?_)
  rcases result with text | f | v
  · exact hafter _ _ rfl
  · exact hafter _ _ rfl
  · rfl

/-- A fault is answered with one error message. -/
theorem answered_reportFailure {f : Fault} (hf : verdict.fault? = some f)
    (h : Program.Course (reportFailure name m f).program xs ⟨.done (), none⟩)
    (hlive : ∀ x ∈ xs, x.Live agent) :
    ∃ reply, xs.filterMap Answered.accepted? = [reply] ∧ m.AnsweredBy name verdict reply := by
  obtain ⟨live, ys, rfl, hheld⟩ := h.exists_answer (o := .hold)
  obtain rfl : live = true := hlive _ List.mem_cons_self
  obtain ⟨stamp, ys, rfl, hstamped⟩ := hheld.exists_answer (o := .stamp)
  obtain ⟨sent, ys, rfl, hsent⟩ := hstamped.exists_answer (o := .send _ none)
  obtain rfl : sent = true := hlive ⟨.send _ none, sent⟩ (by simp)
  obtain ⟨u, ys, rfl, hreleased⟩ := hsent.exists_answer (o := .release)
  cases hreleased
  refine ⟨_, rfl, rfl, rfl, rfl, rfl, fun v hv => ?_, fun f' hf' => ?_⟩
  · rw [hv] at hf
    cases hf
  · obtain rfl := Option.some.inj (hf.symm.trans hf')
    exact ⟨rfl, congrArg some (FaultReport.ofContent_content f)⟩

/-- A value is answered with one response. -/
theorem answered_respond {v : Json}
    (h : Program.Course
      ((Flow.attempt (respond agent name m v).program).bind (Program.afterwards name m)) xs
      ⟨.done (), none⟩) (hlive : ∀ x ∈ xs, x.Live agent) :
    ∃ reply, xs.filterMap Answered.accepted? = [reply] ∧
      m.AnsweredBy name (.ok (.ok v)) reply := by
  obtain ⟨attached, ys, rfl, hattached⟩ := h.exists_answer (o := .attached agent)
  obtain rfl : attached = true := hlive _ List.mem_cons_self rfl
  obtain ⟨live, ys, rfl, hheld⟩ := hattached.exists_answer (o := .hold)
  obtain rfl : live = true := hlive ⟨.hold, live⟩ (by simp)
  obtain ⟨stamp, ys, rfl, hstamped⟩ := hheld.exists_answer (o := .stamp)
  obtain ⟨sent, ys, rfl, hsent⟩ := hstamped.exists_answer (o := .send _ none)
  obtain rfl : sent = true := hlive ⟨.send _ none, sent⟩ (by simp)
  obtain ⟨u, ys, rfl, hreleased⟩ := hsent.exists_answer (o := .release)
  have hdone : Program.Course (.done ()) ys ⟨.done (), none⟩ := hreleased
  cases hdone
  refine ⟨_, rfl, rfl, rfl, rfl, rfl, fun v' hv => ?_, fun f hf => by cases hf⟩
  cases hv
  exact ⟨rfl, rfl⟩

/-- However the work ended, one message answers the request. -/
theorem answered_closing (h : Program.Course (closing agent name m verdict) xs ⟨.done (), none⟩)
    (hlive : ∀ x ∈ xs, x.Live agent) :
    ∃ reply, xs.filterMap Answered.accepted? = [reply] ∧ m.AnsweredBy name verdict reply := by
  rcases verdict with text | f | v
  · exact answered_reportFailure rfl h hlive
  · exact answered_reportFailure rfl h hlive
  · exact answered_respond h hlive

/-- An agent that has served a request has done its work and has answered with one message. -/
theorem answered_serve {a : Agent} (hlog : a.keepsLog = false) (hm : m.kind = .capabilityRequest)
    {work : Program (Except Fault Json)}
    (hwork : a.onRequest agent m = work.bind fun result => (finish agent a.name m result).program)
    (h : Program.Course (a.serve agent m) xs ⟨.done (), none⟩) (hlive : ∀ x ∈ xs, x.Live agent) :
    m.AnsweredAfter a.name
      (fun ys verdict => (∀ x ∈ ys, x.Live agent) ∧
        Program.Course (Flow.attempt work) ys ⟨.done verdict, none⟩) xs := by
  rw [serve_eq_closing hlog hm hwork] at h
  obtain ⟨verdict, ys, zs, rfl, hworked, hclosed⟩ := h.exists_of_bind
  obtain ⟨hbefore, hafter⟩ := List.forall_mem_append.mp hlive
  obtain ⟨reply, haccepted, hanswers⟩ := answered_closing hclosed hafter
  exact ⟨ys, verdict, zs, reply, rfl, ⟨hbefore, hworked⟩, haccepted, hanswers⟩

/-! ## Agents that offer capabilities -/

end Agent

/-- What a breaker is told of a call that ended in this way. -/
def Verdict.settlement : Verdict → Settlement
  | .ok result => Breaker.settlementOf result
  | .error _ => .abandoned

/-- A guarded call has ended: it was refused and nothing was done, or the work was done and the
breaker was told how it ended. -/
theorem guarded_cases {agent : Nat} {capability : String} {work : Routine (Except Fault Json)}
    {xs : List Answered} {verdict : Verdict}
    (h : Routine.Course (Flow.attempt (guarded agent capability work)) xs (.done verdict)) :
    (∃ f, xs = [⟨.enter agent capability, .error f⟩] ∧ verdict = .ok (.error f)) ∨
    ∃ permit ys, Routine.Course (Flow.attempt work) ys (.done verdict) ∧
      xs = ⟨.enter agent capability, .ok permit⟩ :: ys ++
        [⟨.settle agent capability permit verdict.settlement, ()⟩] := by
  obtain ⟨admission, ys, rfl, hentered⟩ := h.exists_answer (o := .enter agent capability)
  cases admission with
  | error f =>
    have hdone : Routine.Course (.done (.ok (.error f))) ys (.done verdict) := hentered
    cases hdone
    exact .inl ⟨f, rfl, rfl⟩
  | ok permit =>
    refine .inr ⟨permit, ?_⟩
    have hcall : Routine.Course (Flow.attempt ((Flow.attempt work).bind _)) ys (.done verdict) :=
      hentered
    rw [Flow.attempt_attempt_bind] at hcall
    obtain ⟨result, us, vs, rfl, hwork, hsettled⟩ := hcall.exists_of_bind
    have hend : result = verdict ∧
        vs = [⟨.settle agent capability permit verdict.settlement, ()⟩] := by
      cases result with
      | ok value =>
        obtain ⟨u, ws, rfl, hend⟩ := hsettled.exists_answer
          (o := .settle agent capability permit (Breaker.settlementOf value))
        cases hend
        exact ⟨rfl, rfl⟩
      | error text =>
        obtain ⟨u, ws, rfl, hend⟩ := hsettled.exists_answer
          (o := .settle agent capability permit .abandoned)
        cases hend
        exact ⟨rfl, rfl⟩
    obtain ⟨rfl, rfl⟩ := hend
    exact ⟨us, hwork, rfl⟩

namespace Agent

variable {agent : Nat} {name : String} {m : Message} {xs : List Answered} {verdict : Verdict}

/-- What an agent that offers capabilities does for a request before it is answered, and how that
ends. A capability that is refused by its breaker is not run. -/
inductive Invokes (name : String) (capabilities : List Capability) (hasBreakers : Bool)
    (agent : Nat) (capability : String) (data : Json) : List Answered → Verdict → Prop
  | unknown (hc : find? capabilities capability = none) :
      Invokes name capabilities hasBreakers agent capability data []
        (.ok (.error (notOffered name capability)))
  | unguarded {c : Capability} {xs : List Answered} {verdict : Verdict}
      (hc : find? capabilities capability = some c) (hbreakers : hasBreakers = false)
      (hrun : Routine.Course (Flow.attempt (c.run agent data)) xs (.done verdict)) :
      Invokes name capabilities hasBreakers agent capability data xs verdict
  | refused {c : Capability} (hc : find? capabilities capability = some c)
      (hbreakers : hasBreakers = true) (f : Fault) :
      Invokes name capabilities hasBreakers agent capability data
        [⟨.enter agent capability, .error f⟩] (.ok (.error f))
  | admitted {c : Capability} {xs : List Answered} {verdict : Verdict}
      (hc : find? capabilities capability = some c) (hbreakers : hasBreakers = true)
      (permit : Permit)
      (hrun : Routine.Course (Flow.attempt (c.run agent data)) xs (.done verdict)) :
      Invokes name capabilities hasBreakers agent capability data
        (⟨.enter agent capability, .ok permit⟩ :: xs ++
          [⟨.settle agent capability permit verdict.settlement, ()⟩]) verdict

theorem invokes_of_course {capabilities : List Capability} {hasBreakers : Bool}
    {capability : String} {data : Json}
    (h : Routine.Course
      (Flow.attempt (invokeWith name capabilities hasBreakers agent capability data)) xs
      (.done verdict)) :
    Invokes name capabilities hasBreakers agent capability data xs verdict := by
  unfold invokeWith at h
  cases hc : find? capabilities capability with
  | none =>
    rw [hc] at h
    cases h
    exact .unknown hc
  | some c =>
    rw [hc] at h
    cases hasBreakers with
    | false => exact .unguarded hc rfl h
    | true =>
      rcases guarded_cases h with ⟨f, rfl, rfl⟩ | ⟨permit, ys, hrun, rfl⟩
      · exact .refused hc rfl f
      · exact .admitted hc rfl permit hrun

/-- What is asked besides what the capability asks is asked of its breaker. -/
theorem Invokes.only {capabilities : List Capability} {hasBreakers : Bool} {capability : String}
    {data : Json} {P : Operation → Prop}
    (h : Invokes name capabilities hasBreakers agent capability data xs verdict)
    (hruns : ∀ c ∈ capabilities, (c.run agent data).Only P) (henter : P (.enter agent capability))
    (hsettle : ∀ permit how, P (.settle agent capability permit how)) :
    ∀ x ∈ xs, P x.operation := by
  have hrun : ∀ {c : Capability} {xs : List Answered} {verdict : Verdict},
      find? capabilities capability = some c →
      Routine.Course (Flow.attempt (c.run agent data)) xs (.done verdict) →
      ∀ x ∈ xs, P x.operation := by
    intro c xs verdict hc hcourse
    have hmem : c ∈ capabilities := List.mem_reverse.mp (List.mem_of_find?_eq_some hc)
    exact ((hruns c hmem).of_course hcourse.ending_of_attempt).1
  cases h with
  | unknown => simp
  | unguarded hc _ hcourse => exact hrun hc hcourse
  | refused => simpa using henter
  | admitted hc _ permit hcourse =>
    intro x hx
    rcases List.mem_append.mp hx with hx | hx
    · rcases List.mem_cons.mp hx with rfl | hx
      · exact henter
      · exact hrun hc hcourse x hx
    · obtain rfl := List.mem_singleton.mp hx
      exact hsettle permit _

/-- An agent that offers capabilities has answered a request that it has served. -/
theorem answered_offering {capabilities : List Capability} {description : String}
    {breakers : Option BreakerPolicy} (hm : m.kind = .capabilityRequest)
    (h : Program.Course ((offering name capabilities description breakers).serve agent m) xs
      ⟨.done (), none⟩) (hlive : ∀ x ∈ xs, x.Live agent) :
    m.AnsweredAfter name
      (Invokes name capabilities breakers.isSome agent (m.capability?.getD "") m.data) xs := by
  let invoked := invokeWith name capabilities breakers.isSome agent (m.capability?.getD "") m.data
  have hwork : (offering name capabilities description breakers).onRequest agent m =
      (Routine.program invoked).bind fun result => (finish agent name m result).program := by
    have hfinish : (offering name capabilities description breakers).onRequest agent m =
        Routine.program (invoked.bind (finish agent name m)) :=
      congrArg (fun f => Routine.program (Flow.bind invoked f)) (funext fun
        | .error f => rfl
        | .ok v => rfl)
    exact hfinish.trans (Routine.program_bind invoked _)
  obtain ⟨ys, verdict, zs, reply, rfl, ⟨-, hworked⟩, haccepted, hanswers⟩ :=
    answered_serve rfl hm hwork h hlive
  refine ⟨ys, verdict, zs, reply, rfl, invokes_of_course ?_, haccepted, hanswers⟩
  rw [← Routine.program_attempt] at hworked
  exact hworked.done_of_program

/-- Where no capability sends an answer by itself, a request is answered once. -/
theorem once_of_invokes {capabilities : List Capability} {hasBreakers : Bool} {capability : String}
    {data : Json}
    (h : m.AnsweredAfter name (Invokes name capabilities hasBreakers agent capability data) xs)
    (hruns : ∀ c ∈ capabilities, (c.run agent data).Only (Operation.LeavesUnanswered m.id)) :
    m.answersIn xs = 1 :=
  h.once fun work verdict hwork sent hsent => by
    obtain ⟨x, hx, haccepted⟩ := List.mem_filterMap.mp hsent
    obtain ⟨patience, hsend⟩ := Answered.operation_of_accepted haccepted
    have hleaves := hwork.only hruns trivial (fun _ _ => trivial) x hx
    rwa [hsend] at hleaves

/-! ## Agents that orchestrate -/

/-- What an orchestrator does for a request before it is answered. -/
def pursue (o : Orchestrator) (wording : Json → String) (m : Message) :
    Program (Except Fault Json) :=
  if m.capability? = some orchestrateCapability then
    .ask (.plain .hold) fun (live : Bool) =>
      if live then
        match orchestration o wording m.requestId m.data with
        | .error f => .ask (.plain .release) fun _ => .done (.error f)
        | .ok work => work.bind fun report =>
          .ask (.plain .release) fun _ => .done (.ok (reportValue report))
      else .done (.error (Network.detached o.name))
  else .done (.error (notOffered o.name (m.capability?.getD "")))

theorem onRequest_orchestrating (s : OrchestratorSettings) (wording : Json → String) :
    (orchestrating name s wording).onRequest agent m =
      (pursue (.ofSettings name s) wording m).bind fun result => (finish agent name m result).program := by
  change (if m.capability? = some orchestrateCapability then _ else _) = _
  unfold pursue
  split
  · refine congrArg (Flow.ask (Effect.plain .hold)) (funext fun (live : Bool) => ?_)
    cases live with
    | false => rfl
    | true =>
      change (match orchestration (.ofSettings name s) wording m.requestId m.data with
        | .error f => _
        | .ok work => _) = Flow.bind (match orchestration (.ofSettings name s) wording m.requestId m.data with
        | .error f => _
        | .ok work => _) _
      split
      · rfl
      · rename_i work _
        refine Eq.trans ?_ (Flow.bind_assoc work _ _).symm
        rfl
  · rfl

/-- What an orchestrator does for a request before it is answered, and how that ends. -/
inductive Orchestrates (o : Orchestrator) (wording : Json → String) (m : Message) :
    List Answered → Verdict → Prop
  | declined (hc : m.capability? ≠ some orchestrateCapability) :
      Orchestrates o wording m [] (.ok (.error (notOffered o.name (m.capability?.getD ""))))
  | malformed {f : Fault} (hc : m.capability? = some orchestrateCapability)
      (hf : orchestration o wording m.requestId m.data = .error f) :
      Orchestrates o wording m [⟨.hold, true⟩, ⟨.release, ()⟩] (.ok (.error f))
  | ran {work : Program RunReport} {xs : List Answered} {report : RunReport}
      (hc : m.capability? = some orchestrateCapability)
      (hwork : orchestration o wording m.requestId m.data = .ok work)
      (hrun : work.Course xs ⟨.done report, none⟩) :
      Orchestrates o wording m (⟨.hold, true⟩ :: xs ++ [⟨.release, ()⟩]) (.ok (.ok (reportValue report)))

/-- What an orchestrator is asked to run is a graph or a list of jobs. -/
theorem exists_orchestration {o : Orchestrator} {wording : Json → String} {requestId : String}
    {data : Json} {work : Program RunReport} (h : orchestration o wording requestId data = .ok work) :
    ∃ t : Orchestration, work = t.program o := by
  unfold orchestration at h
  split at h
  · rename_i tasks _
    cases hjobs : jobsOfData wording tasks with
    | error f =>
      rw [hjobs] at h
      cases h
    | ok jobs =>
      rw [hjobs] at h
      cases h
      exact ⟨.sequence requestId jobs, rfl⟩
  · cases hgraph : GraphRequest.ofData requestId data with
    | error f =>
      rw [hgraph] at h
      cases h
    | ok r =>
      rw [hgraph] at h
      cases h
      exact ⟨.graph r, rfl⟩

theorem unbroken_pursue (o : Orchestrator) (wording : Json → String) (m : Message) :
    (pursue o wording m).Unbroken := by
  unfold pursue
  split
  · refine .ask fun (live : Bool) => ?_
    cases live with
    | false => exact .done _
    | true =>
      simp only [if_true]
      cases hwork : orchestration o wording m.requestId m.data with
      | error f => exact .ask fun _ => .done _
      | ok work =>
        have hunbroken : work.Unbroken := by
          obtain ⟨t, rfl⟩ := exists_orchestration hwork
          cases t with
          | graph r => exact o.unbroken_execute r
          | sequence requestId jobs => exact o.unbroken_sequence requestId jobs
        exact hunbroken.bind fun report => .ask fun _ => .done _
  · exact .done _

theorem orchestrates_of_course {o : Orchestrator} {wording : Json → String}
    (h : Program.Course (Flow.attempt (pursue o wording m)) xs ⟨.done verdict, none⟩)
    (hlive : ∀ x ∈ xs, x.Live agent) : Orchestrates o wording m xs verdict := by
  have hcourse := h.ending_of_attempt
  have hend := hcourse.unbroken (unbroken_pursue o wording m)
  cases verdict with
  | error text => cases hend
  | ok result =>
    have hdone : Program.Course (pursue o wording m) xs ⟨.done result, none⟩ := hcourse
    unfold pursue at hdone
    split at hdone
    · rename_i hc
      obtain ⟨live, ys, rfl, hheld⟩ := hdone.exists_answer (o := .hold)
      obtain rfl : live = true := hlive ⟨.hold, live⟩ List.mem_cons_self
      simp only [if_true] at hheld
      cases hwork : orchestration o wording m.requestId m.data with
      | error f =>
        rw [hwork] at hheld
        obtain ⟨u, zs, rfl, hreleased⟩ := hheld.exists_answer (o := .release)
        cases hreleased
        exact .malformed hc hwork
      | ok work =>
        rw [hwork] at hheld
        obtain ⟨report, us, vs, rfl, hrun, hrest⟩ := hheld.exists_of_bind
        obtain ⟨u, zs, rfl, hreleased⟩ := hrest.exists_answer (o := .release)
        cases hreleased
        exact .ran hc hwork hrun
    · rename_i hc
      cases hdone
      exact .declined hc

/-- An orchestrator asks for capabilities only while it works on a request; it answers nobody. -/
theorem Orchestrates.sends {o : Orchestrator} {wording : Json → String}
    (h : Orchestrates o wording m xs verdict) :
    ∀ sent ∈ xs.filterMap Answered.accepted?,
      sent.kind = .capabilityRequest ∧ sent.replyTo = none := by
  cases h with
  | declined hc => simp
  | malformed hc hf => simp [Answered.accepted?]
  | ran hc hwork hrun =>
    rename_i ys report
    obtain ⟨t, rfl⟩ := exists_orchestration hwork
    intro sent hsent
    have hwithin : sent ∈ ys.filterMap Answered.accepted? := by
      simpa [Answered.accepted?] using hsent
    obtain ⟨x, hx, haccepted⟩ := List.mem_filterMap.mp hwithin
    obtain ⟨patience, hsend⟩ := Answered.operation_of_accepted haccepted
    rcases hrun.exists_of_mem (t.made_program o) hx with
      hlooks | ⟨call, zs, r, -, -, hcourse, hmem⟩
    · rw [hsend] at hlooks
      cases hlooks
    · obtain ⟨stamp, provider, rfl⟩ := StepCall.requests_of_course hcourse hmem hsend
      exact ⟨rfl, rfl⟩

/-- An orchestrator answers a request once. -/
theorem once_of_orchestrates {o : Orchestrator} {wording : Json → String}
    (h : m.AnsweredAfter name (Orchestrates o wording m) xs) :
    m.answersIn xs = 1 :=
  h.once fun work verdict hwork sent hsent => by
    rw [(hwork.sends sent hsent).2]
    nofun

/-- An agent that orchestrates has answered a request that it has served. -/
theorem answered_orchestrating {s : OrchestratorSettings} {wording : Json → String}
    (hm : m.kind = .capabilityRequest)
    (h : Program.Course ((orchestrating name s wording).serve agent m) xs ⟨.done (), none⟩)
    (hlive : ∀ x ∈ xs, x.Live agent) :
    m.AnsweredAfter name (Orchestrates (.ofSettings name s) wording m) xs := by
  obtain ⟨ys, verdict, zs, reply, rfl, ⟨hlive, hworked⟩, haccepted, hanswers⟩ :=
    answered_serve rfl hm (onRequest_orchestrating s wording) h hlive
  exact ⟨ys, verdict, zs, reply, rfl, orchestrates_of_course hworked hlive, haccepted, hanswers⟩

end Agent

end Switchboard
