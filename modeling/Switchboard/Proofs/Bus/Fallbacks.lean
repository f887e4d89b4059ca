import Switchboard.Proofs.Bus.Requests
import Switchboard.Proofs.Flow.Endings
import Switchboard.Proofs.Json.Fields

/-!
# Requests that may go to the fallback

Whoever asks for a capability that nobody provides may be served by the fallback. Which of the two
is asked, and with what data, is decided by who provides what; either all providers of one of them
are asked or nobody is.

* `Network.Route`, `Network.route` : whom a request goes to, if anybody;
* `Network.Rerouted`, `Network.rerouted_spec` : the data of a request that goes to the fallback;
* `Answered.Tells` : what is looked up is told as these are the providers;
* `Network.askThen` : ask some agents and go on; `Network.course_request_bind`,
  `Network.advance_request_bind` : a request and what comes after it;
* `Network.OnWay`, `Network.course_requestOrFallback` : how far a request has come, whatever happens
  meanwhile; `Network.AtOnce`, `Network.advance_requestOrFallback` : all its way in one turn;
* `Network.exists_tells` : no capability is looked up twice;
* `Network.follows_route` : whatever the providers, the settings and the data are;
* `Network.unplaced_request` : a queue without a place.
-/

namespace Switchboard

namespace Network

/-! ## Routes -/

/-- The agents that are asked, for what, and with which data. -/
structure Route where
  capability : String
  data : Json
  names : List String
  deriving DecidableEq

/-- Whom a request goes to: the providers of the capability, or of the fallback if there are none;
nobody if that is no other capability, or has no providers either. -/
def route (settings : NetworkSettings) (providers : String → List String) (c : String)
    (data : Json) : Option Route :=
  let other := Text.trim settings.fallbackCapability
  if providers c ≠ [] then some ⟨c, data, providers c⟩
  else if other ≠ "" ∧ other ≠ c ∧ providers other ≠ [] then
    some ⟨other, rerouted c data, providers other⟩
  else none

/-- The data as they go to the fallback: an object has all its fields, in their places, and the
capability asked for under one key; any other value is put beside it. -/
def Rerouted (c : String) : Json → Json → Prop
  | .obj fields, routed => ∃ fields', routed = .obj fields' ∧
      (∀ key, Fields.get? fields' key =
        if key = "original_capability" then some (.str c) else Fields.get? fields key) ∧
      fields'.map (·.1) =
        if "original_capability" ∈ fields.map (·.1) then fields.map (·.1)
        else fields.map (·.1) ++ ["original_capability"]
  | other, routed => routed = .obj [("original_capability", .str c), ("data", other)]

theorem rerouted_spec (c : String) (data : Json) : Rerouted c data (rerouted c data) := by
  cases data with
  | obj fields =>
    exact ⟨_, rfl, fun key => Fields.get?_insert fields key _ _, Fields.keys_insert fields _ _⟩
  | _ => rfl

variable {settings : NetworkSettings} {providers : String → List String} {c : String} {data : Json}

/-- A request does not go to no agents. -/
theorem route_ne_nil : ∀ t ∈ route settings providers c data, t.names ≠ [] := by
  intro t ht
  simp only [route] at ht
  split at ht
  · obtain rfl := Option.some.inj ht
    assumption
  · split at ht
    · rename_i hother
      obtain rfl := Option.some.inj ht
      exact hother.2.2
    · cases ht

theorem fallback_filter (settings : NetworkSettings) (c : String) :
    settings.fallback.filter (· != c) =
      if Text.trim settings.fallbackCapability ≠ "" ∧ Text.trim settings.fallbackCapability ≠ c then
        some (Text.trim settings.fallbackCapability)
      else none := by
  unfold NetworkSettings.fallback
  by_cases hempty : Text.trim settings.fallbackCapability = ""
  · simp [hempty]
  · by_cases hsame : Text.trim settings.fallbackCapability = c
    · simp [hsame]
    · simp [hempty, hsame]

theorem route_of_providers (h : providers c ≠ []) :
    route settings providers c data = some ⟨c, data, providers c⟩ :=
  if_pos h

theorem route_of_fallback (settings : NetworkSettings) (data : Json) (h : providers c = []) :
    route settings providers c data =
      (settings.fallback.filter (· != c)).bind fun other =>
        if providers other = [] then none else some ⟨other, rerouted c data, providers other⟩ := by
  rw [fallback_filter]
  simp only [route, h, ne_eq, not_true, if_false]
  split
  · rename_i hother
    rw [if_pos ⟨hother.1, hother.2.1⟩, Option.bind_some, if_neg hother.2.2]
  · rename_i hnone
    split
    · rename_i hother
      have hempty : providers (Text.trim settings.fallbackCapability) = [] := by
        by_contra hne
        exact hnone ⟨hother.1, hother.2, hne⟩
      rw [Option.bind_some, if_pos hempty]
    · rfl

end Network

/-! ## A request and what comes after it -/

/-- What is looked up is told as these are the providers. -/
def Answered.Tells (providers : String → List String) : Answered → Prop
  | ⟨.providers c, names⟩ => names = providers c
  | _ => True

namespace Network

variable {β : Type} {settings : NetworkSettings} {providers : String → List String}
  {fallback : Option String} {sender c requestId : String} {data : Json} {names : List String}
  {xs : List Answered}

/-- Requests are sent without any lookup. -/
theorem only_sendRequests (names : List String) (b : β) :
    Routine.Only (fun o => o = .stamp ∨ ∃ m, o = .send m none)
      ((sendRequests sender c data requestId names).bind fun _ => .done b) := by
  induction names with
  | nil => exact .done b
  | cons name rest ih => exact .ask (.inl rfl) fun stamp => .ask (.inr ⟨_, rfl⟩) fun sent => ih

/-- Ask these agents, and go on after that. -/
def askThen (sender c : String) (data : Json) (requestId : String) (names : List String)
    (k : List String → Routine β) : Routine β :=
  ((sendRequests sender c data requestId names).bind fun _ => .done names).bind k

theorem request_bind (k : List String → Routine β) :
    (request sender c data requestId).bind k =
      .ask (.providers c) fun names : List String => askThen sender c data requestId names k := rfl

theorem askThen_nil (k : List String → Routine β) :
    askThen sender c data requestId [] k = k [] := rfl

/-- How far it has come who asks some agents and goes on after that: he is at the next one, or has
asked them all. -/
theorem course_askThen {k : List String → Routine β} {r : Routine β}
    (h : (askThen sender c data requestId names k).Course xs r) :
    ∃ us vs, xs = us ++ vs ∧ (∀ x ∈ us, ∀ other, x.operation ≠ .providers other) ∧
      ((vs = [] ∧ ∃ n < names.length,
          Asked sender c data requestId (sentIn us) (names.take n) ∧
          ∃ o next, r = .ask o next ∧ (o = .stamp ∨ ∃ m, o = .send m none)) ∨
        Asked sender c data requestId (sentIn us) names ∧ (k names).Course vs r) := by
  have hquiet : ∀ {us : List Answered} {q : Routine (List String)},
      Routine.Course ((sendRequests sender c data requestId names).bind fun _ => .done names) us q →
        ∀ x ∈ us, ∀ other, x.operation ≠ .providers other := by
    intro us q hcourse x hx other heq
    have hsends := ((only_sendRequests names names).of_course hcourse).1 x hx
    rw [heq] at hsends
    rcases hsends with hstamp | ⟨m, hsend⟩
    · cases hstamp
    · cases hsend
  rcases Routine.Course.of_bind h with ⟨q, hcourse, rfl⟩ | ⟨b, us, vs, rfl, hcourse, hrest⟩
  · obtain ⟨n, -, hasked, hend⟩ := course_sendRequests hcourse
    refine ⟨xs, [], (List.append_nil xs).symm, hquiet hcourse, ?_⟩
    rcases hend with ⟨rfl, rfl⟩ | ⟨hn, o, next, rfl, ho⟩
    · rw [List.take_length] at hasked
      exact .inr ⟨hasked, .stay _⟩
    · exact .inl ⟨rfl, n, hn, hasked, o, _, rfl, ho⟩
  · obtain ⟨n, -, hasked, hend⟩ := course_sendRequests hcourse
    refine ⟨us, vs, rfl, hquiet hcourse, .inr ?_⟩
    rcases hend with ⟨rfl, hdone⟩ | ⟨-, o, next, hask, -⟩
    · obtain rfl := Flow.done.inj hdone
      rw [List.take_length] at hasked
      exact ⟨hasked, hrest⟩
    · cases hask

/-- A request with something after it is at its lookup, or it was told the agents. -/
theorem course_request_bind {k : List String → Routine β} {r : Routine β}
    (h : Routine.Course ((request sender c data requestId).bind k) xs r) :
    (xs = [] ∧ ∃ next, r = .ask (.providers c) next) ∨
    ∃ (names : List String) (ys : List Answered), xs = ⟨.providers c, names⟩ :: ys ∧
      (askThen sender c data requestId names k).Course ys r := by
  rw [request_bind] at h
  cases h with
  | stay => exact .inl ⟨rfl, _, rfl⟩
  | go names h => exact .inr ⟨names, _, rfl, h⟩

/-- With places for all messages a request asks the providers without a pause, and what comes after
it goes on. -/
theorem advance_request_bind (sender : String) (data : Json) (requestId : String)
    (k : List String → Routine β) {s : Scene}
    (hplaces : (s.world.bus.directory.providers c).length ≤ s.world.bus.gate.places) :
    ∃ s' ms, Routine.advance ((request sender c data requestId).bind k) s =
        Routine.advance (k (s.world.bus.directory.providers c)) s' ∧
      s'.world.bus.queue = s.world.bus.queue ++ ms ∧
      Asked sender c data requestId ms (s.world.bus.directory.providers c) := by
  obtain ⟨s', ms, hadvance, hqueue, hasked⟩ : ∃ s' ms,
      Routine.advance ((sendRequests sender c data requestId
        (s.world.bus.directory.providers c)).bind
          fun _ => k (s.world.bus.directory.providers c)) { s with parking := {} } =
        Routine.advance (k (s.world.bus.directory.providers c)) s' ∧
      s'.world.bus.queue = s.world.bus.queue ++ ms ∧
      Asked sender c data requestId ms (s.world.bus.directory.providers c) :=
    advance_sendRequests _ hplaces
  refine ⟨s', ms, ?_, hqueue, hasked⟩
  rw [← hadvance, request_bind]
  refine (Routine.advance_of_some rfl).trans ?_
  exact congrArg (Routine.advance · { s with parking := {} }) (Flow.bind_assoc _ _ _)

/-- A request for what nobody provides changes nothing in the world. -/
theorem advance_request_bind_nil (k : List String → Routine β) {s : Scene}
    (hnone : s.world.bus.directory.providers c = []) :
    Routine.advance ((request sender c data requestId).bind k) s =
      Routine.advance (k []) { s with parking := {} } := by
  rw [request_bind]
  refine (Routine.advance_of_some rfl).trans ?_
  rw [hnone]
  rfl

/-! ## On the way -/

/-- How far a request has come: of those whom it goes to the first were asked, in their order, and
it has ended with all of them when these were all; if it goes to nobody then nobody was asked, and
it ends with the fault of the capability asked for. -/
def OnWay (sender c requestId : String) (xs : List Answered)
    (r : Routine (Except Fault (List String))) : Option Route → Prop
  | some t => ∃ n ≤ t.names.length,
      Asked sender t.capability t.data requestId (sentIn xs) (t.names.take n) ∧
      (n = t.names.length ∧ r = .done (.ok t.names) ∨
        n < t.names.length ∧ ∃ o next, r = .ask o next ∧
          ((∃ other, o = .providers other) ∨ o = .stamp ∨ ∃ m, o = .send m none))
  | none => sentIn xs = [] ∧
      (r = .done (.error (.notAvailable c)) ∨ ∃ other next, r = .ask (.providers other) next)

section OnWay

variable {r : Routine (Except Fault (List String))} {way : Option Route} {other : String}

/-- A lookup asks nobody. -/
theorem OnWay.lookup (h : OnWay sender c requestId xs r way) :
    OnWay sender c requestId (⟨.providers other, names⟩ :: xs) r way := by
  cases way with
  | some t => exact h
  | none => exact h

/-- At a lookup nobody has been asked. -/
theorem onWay_at_lookup {next : List String → Routine (Except Fault (List String))}
    (hway : ∀ t ∈ way, t.names ≠ []) :
    OnWay sender c requestId [] (.ask (.providers other) next) way := by
  cases way with
  | none => exact ⟨rfl, .inr ⟨other, next, rfl⟩⟩
  | some t =>
    have hpos : 0 < t.names.length := List.length_pos_iff.mpr (hway t rfl)
    exact ⟨0, Nat.zero_le _, .nil, .inr ⟨hpos, _, _, rfl, .inl ⟨other, rfl⟩⟩⟩

/-- A request that ends with the agents it asks is on its way to them. -/
theorem onWay_request {k : List String → Routine (Except Fault (List String))} {d : Json}
    (hk : k names = .done (.ok names))
    (h : (askThen sender other d requestId names k).Course xs r) :
    OnWay sender c requestId xs r (some ⟨other, d, names⟩) := by
  obtain ⟨us, vs, rfl, -, ⟨rfl, n, hn, hasked, o, next, rfl, ho⟩ | ⟨hasked, hrest⟩⟩ :=
    course_askThen h
  · rw [List.append_nil]
    exact ⟨n, Nat.le_of_lt hn, hasked, .inr ⟨hn, o, next, rfl, .inr ho⟩⟩
  · rw [hk] at hrest
    cases hrest
    rw [List.append_nil]
    refine ⟨names.length, Nat.le_refl _, ?_, .inl ⟨rfl, rfl⟩⟩
    rwa [List.take_length]

end OnWay

/-! ## The whole request -/

/-- What is returned for the providers of the fallback. -/
def outcomeFor (c : String) (names : List String) : Except Fault (List String) :=
  if names = [] then .error (.notAvailable c) else .ok names

/-- The request to the fallback, if there is one that is another capability. -/
def requestRerouted (fallback : Option String) (sender c : String) (data : Json)
    (requestId : String) : Routine (Except Fault (List String)) :=
  match fallback.filter (· != c) with
  | none => .done (.error (.notAvailable c))
  | some other =>
    (request sender other (rerouted c data) requestId).bind fun names => .done (outcomeFor c names)

theorem requestOrFallback_eq (fallback : Option String) (sender c : String) (data : Json)
    (requestId : String) :
    requestOrFallback fallback sender c data requestId =
      (request sender c data requestId).bind fun names =>
        if names = [] then requestRerouted fallback sender c data requestId
        else .done (.ok names) := by
  refine congrArg ((request sender c data requestId).bind ·) (funext fun names => ?_)
  cases names with
  | cons name rest => rfl
  | nil =>
    change (match fallback.filter (· != c) with
      | none => _
      | some other => _) = requestRerouted fallback sender c data requestId
    unfold requestRerouted
    cases fallback.filter (· != c) with
    | none => rfl
    | some other =>
      refine congrArg ((request sender other (rerouted c data) requestId).bind ·) ?_
      funext names
      cases names <;> rfl

/-- While it is told the same providers, the request to the fallback goes its way. -/
theorem course_requestRerouted {r : Routine (Except Fault (List String))} (hown : providers c = [])
    (h : Routine.Course (requestRerouted settings.fallback sender c data requestId) xs r)
    (htells : ∀ x ∈ xs, x.Tells providers) :
    OnWay sender c requestId xs r (route settings providers c data) := by
  have hroute := route_of_fallback settings data hown
  unfold requestRerouted at h
  cases hfallback : settings.fallback.filter (· != c) with
  | none =>
    rw [hfallback] at h hroute
    rw [hroute]
    cases h
    exact ⟨rfl, .inl rfl⟩
  | some other =>
    rw [hfallback] at h hroute
    rw [Option.bind_some] at hroute
    dsimp only at h
    rcases course_request_bind h with ⟨rfl, next, rfl⟩ | ⟨names, ys, rfl, hrest⟩
    · exact onWay_at_lookup route_ne_nil
    · obtain rfl : names = providers other := htells _ List.mem_cons_self
      refine OnWay.lookup ?_
      rw [hroute]
      split
      · rename_i hnone
        rw [hnone, askThen_nil, outcomeFor, if_pos rfl] at hrest
        cases hrest
        exact ⟨rfl, .inl rfl⟩
      · rename_i hsome
        exact onWay_request (congrArg Flow.done (if_neg hsome)) hrest

/-- While it is told the same providers, a request goes its way. -/
theorem course_requestOrFallback {r : Routine (Except Fault (List String))}
    (h : Routine.Course (requestOrFallback settings.fallback sender c data requestId) xs r)
    (htells : ∀ x ∈ xs, x.Tells providers) :
    OnWay sender c requestId xs r (route settings providers c data) := by
  rw [requestOrFallback_eq] at h
  rcases course_request_bind h with ⟨rfl, next, rfl⟩ | ⟨names, ys, rfl, hrest⟩
  · exact onWay_at_lookup route_ne_nil
  · obtain rfl : names = providers c := htells _ List.mem_cons_self
    have hothers : ∀ x ∈ ys, x.Tells providers := fun x hx => htells x (List.mem_cons_of_mem _ hx)
    refine OnWay.lookup ?_
    by_cases hown : providers c = []
    · rw [hown, askThen_nil, if_pos rfl] at hrest
      exact course_requestRerouted hown hrest hothers
    · rw [route_of_providers hown]
      exact onWay_request (if_neg hown) hrest

/-- With places for all messages a request goes all its way at once, and if it goes to nobody the
world stays as it is. -/
def AtOnce (sender c requestId : String) (before : World)
    (result : Scene × Turn (Routine (Except Fault (List String))) (Except Fault (List String))) :
    Option Route → Prop
  | some t => t.names.length ≤ before.bus.gate.places →
      ∃ ms, result.2 = .ended (.ok t.names) ∧
        result.1.world.bus.queue = before.bus.queue ++ ms ∧
        Asked sender t.capability t.data requestId ms t.names
  | none => result.2 = .ended (.error (.notAvailable c)) ∧ result.1.world = before

theorem advance_requestRerouted {s : Scene} (hown : s.world.bus.directory.providers c = []) :
    AtOnce sender c requestId s.world
      (Routine.advance (requestRerouted settings.fallback sender c data requestId) s)
      (route settings s.world.bus.directory.providers c data) := by
  rw [route_of_fallback settings data hown]
  unfold requestRerouted
  cases settings.fallback.filter (· != c) with
  | none => exact ⟨rfl, rfl⟩
  | some other =>
    rw [Option.bind_some]
    dsimp only
    split
    · rename_i hnone
      rw [advance_request_bind_nil _ hnone]
      exact ⟨rfl, rfl⟩
    · rename_i hsome
      intro hplaces
      obtain ⟨s', ms, hadvance, hqueue, hasked⟩ := advance_request_bind sender (rerouted c data)
        requestId (fun names => .done (outcomeFor c names)) hplaces
      rw [outcomeFor, if_neg hsome] at hadvance
      rw [hadvance]
      exact ⟨ms, rfl, hqueue, hasked⟩

theorem advance_requestOrFallback (settings : NetworkSettings) (sender c : String) (data : Json)
    (requestId : String) (s : Scene) :
    AtOnce sender c requestId s.world
      (Routine.advance (requestOrFallback settings.fallback sender c data requestId) s)
      (route settings s.world.bus.directory.providers c data) := by
  rw [requestOrFallback_eq]
  by_cases hown : s.world.bus.directory.providers c = []
  · rw [advance_request_bind_nil _ hown, if_pos rfl]
    exact advance_requestRerouted (s := { s with parking := {} }) hown
  · rw [route_of_providers hown]
    intro hplaces
    obtain ⟨s', ms, hadvance, hqueue, hasked⟩ := advance_request_bind sender data requestId
      (fun names => if names = [] then requestRerouted settings.fallback sender c data requestId
        else .done (.ok names)) hplaces
    rw [if_neg hown] at hadvance
    rw [hadvance]
    exact ⟨ms, rfl, hqueue, hasked⟩

/-! ## What it is told -/

theorem tells_of_quiet {x : Answered} (h : ∀ other, x.operation ≠ .providers other) :
    x.Tells providers := by
  obtain ⟨o, answer⟩ := x
  cases o with
  | providers other => exact absurd rfl (h other)
  | _ => trivial

/-- The request to the fallback looks up one capability, which is not the one asked for. -/
theorem tells_requestRerouted {r : Routine (Except Fault (List String))}
    (h : Routine.Course (requestRerouted fallback sender c data requestId) xs r) :
    ∃ names, ∀ providers : String → List String,
      (∀ other, other ≠ c → providers other = names) → ∀ x ∈ xs, x.Tells providers := by
  unfold requestRerouted at h
  cases hfallback : fallback.filter (· != c) with
  | none =>
    rw [hfallback] at h
    cases h
    exact ⟨[], fun _ _ x hx => by cases hx⟩
  | some other =>
    rw [hfallback] at h
    have hother : other ≠ c := by simpa using (Option.filter_eq_some_iff.mp hfallback).2
    rcases course_request_bind h with ⟨rfl, -⟩ | ⟨names, ys, rfl, hrest⟩
    · exact ⟨[], fun _ _ x hx => by cases hx⟩
    · refine ⟨names, fun providers hproviders => ?_⟩
      obtain ⟨us, vs, rfl, hquiet, hend⟩ := course_askThen hrest
      have hlast : vs = [] := by
        rcases hend with ⟨rfl, -⟩ | ⟨-, hdone⟩
        · rfl
        · cases hdone
          rfl
      rw [hlast, List.append_nil]
      intro x hx
      rcases List.mem_cons.mp hx with rfl | hx
      · exact (hproviders other hother).symm
      · exact tells_of_quiet (hquiet x hx)

/-- No capability is looked up twice: whatever the request is told, it could be told as these are
the providers. -/
theorem exists_tells {r : Routine (Except Fault (List String))}
    (h : Routine.Course (requestOrFallback fallback sender c data requestId) xs r) :
    ∃ providers, ∀ x ∈ xs, x.Tells providers := by
  rw [requestOrFallback_eq] at h
  rcases course_request_bind h with ⟨rfl, -⟩ | ⟨names, ys, rfl, hrest⟩
  · exact ⟨fun _ => [], fun x hx => by cases hx⟩
  · obtain ⟨us, vs, rfl, hquiet, hend⟩ := course_askThen hrest
    obtain ⟨others, hothers⟩ : ∃ others, ∀ providers : String → List String,
        (∀ other, other ≠ c → providers other = others) → ∀ x ∈ vs, x.Tells providers := by
      rcases hend with ⟨rfl, -⟩ | ⟨-, hafter⟩
      · exact ⟨[], fun _ _ x hx => by cases hx⟩
      · split at hafter
        · exact tells_requestRerouted hafter
        · cases hafter
          exact ⟨[], fun _ _ x hx => by cases hx⟩
    -- the two lookups are of different capabilities, so one function can have told both
    refine ⟨fun other => if other = c then names else others, fun x hx => ?_⟩
    rcases List.mem_cons.mp hx with rfl | hx
    · exact (if_pos rfl).symm
    · rcases List.mem_append.mp hx with hx | hx
      · exact tells_of_quiet (hquiet x hx)
      · exact hothers _ (fun other hother => if_neg hother) x hx

theorem capability?_of_asked {ms : List Message} (h : Asked sender c data requestId ms names) :
    ∀ m ∈ ms, m.capability? = some c := by
  induction h with
  | nil => simp
  | cons hm _ ih =>
    obtain ⟨stamp, rfl⟩ := hm
    exact List.forall_mem_cons.mpr ⟨rfl, ih⟩

theorem OnWay.exists_capability {r : Routine (Except Fault (List String))} {way : Option Route}
    (h : OnWay sender c requestId xs r way) :
    ∃ other, ∀ m ∈ sentIn xs, m.capability? = some other := by
  cases way with
  | some t =>
    obtain ⟨n, -, hasked, -⟩ := h
    exact ⟨t.capability, capability?_of_asked hasked⟩
  | none => exact ⟨c, by simp [h.1]⟩

theorem OnWay.ne_nil {way : Option Route} (hway : ∀ t ∈ way, t.names ≠ [])
    (h : OnWay sender c requestId xs (.done (.ok names)) way) : names ≠ [] := by
  cases way with
  | some t =>
    obtain ⟨n, -, -, ⟨-, hdone⟩ | ⟨-, o, next, hask, -⟩⟩ := h
    · obtain rfl := Except.ok.inj (Flow.done.inj hdone)
      exact hway t rfl
    · cases hask
  | none =>
    rcases h.2 with hdone | ⟨other, next, hask⟩
    · cases Flow.done.inj hdone
    · cases hask

/-! ## All requests -/

/-- A request that may go to the fallback goes to the providers of the one or the other capability,
or to nobody. -/
structure FollowsRoute (settings : NetworkSettings) (sender c : String) (data : Json)
    (requestId : String) : Prop where
  /-- Whatever happens meanwhile, it goes the way that the providers say it was told of. -/
  onWay : ∀ providers xs r,
    Routine.Course (requestOrFallback settings.fallback sender c data requestId) xs r →
      (∀ x ∈ xs, x.Tells providers) →
        OnWay sender c requestId xs r (route settings providers c data)
  /-- It can always be told so. -/
  told : ∀ xs r,
    Routine.Course (requestOrFallback settings.fallback sender c data requestId) xs r →
      ∃ providers, ∀ x ∈ xs, x.Tells providers
  /-- In a world that has places for all messages it ends at once; if it goes to nobody it ends at
  once in any world, and changes nothing there. -/
  atOnce : ∀ s : Scene, AtOnce sender c requestId s.world
    (Routine.advance (requestOrFallback settings.fallback sender c data requestId) s)
    (route settings s.world.bus.directory.providers c data)
  /-- A message waits for a place in the queue, and for nothing else. -/
  patient : ∀ (s : Scene) m, (s.parking = {} ∨ ∃ k, s.parking = { ticket := some k }) →
    s.HasPlace ∧ (∃ gate, s.attempt (.send m none) = (s.accept gate m, some true)) ∨
    ¬ s.HasPlace ∧ ∃ s', s.attempt (.send m none) = (s', none) ∧
      s'.world.bus.queue = s.world.bus.queue
  /-- All its messages are for one capability. -/
  oneCapability : ∀ xs r,
    Routine.Course (requestOrFallback settings.fallback sender c data requestId) xs r →
      ∃ other, ∀ m ∈ sentIn xs, m.capability? = some other
  /-- It never ends well without anybody asked. -/
  someAgents : ∀ xs names,
    Routine.Course (requestOrFallback settings.fallback sender c data requestId) xs
      (.done (.ok names)) → names ≠ []
  rerouted : Rerouted c data (rerouted c data)

/-- **Requests go to the capability asked for, or else to the fallback.** Whatever the settings, the
providers and the data are, all providers of the one or of the other are asked, in their order and
for nothing else, and a request that goes to nobody leaves the world as it is. It waits before each
message until there is a place in the queue. -/
theorem follows_route (settings : NetworkSettings) (sender c : String) (data : Json)
    (requestId : String) : FollowsRoute settings sender c data requestId where
  onWay := fun _ _ _ h htells => course_requestOrFallback h htells
  told := fun _ _ h => exists_tells h
  atOnce := advance_requestOrFallback settings sender c data requestId
  patient := fun _ m h => Scene.attempt_send h m
  oneCapability := by
    intro xs r h
    obtain ⟨providers, htells⟩ := exists_tells h
    exact (course_requestOrFallback h htells).exists_capability
  someAgents := by
    intro xs names h
    obtain ⟨providers, htells⟩ := exists_tells h
    exact (course_requestOrFallback h htells).ne_nil route_ne_nil
  rerouted := rerouted_spec c data

/-- One agent, who provides the usual fallback. -/
def chatting : World :=
  let (w, agent) := (World.opened {}).create { Agent.scripted "c" [] [] [] with
    capabilities := ["chat"] }
  w.register agent

/-- Nobody provides music, so the agent is asked to chat, with the song and what was asked for. -/
theorem follows_route_chat :
    let routed : Json := .obj [("song", .str "x"), ("original_capability", .str "play_music")]
    ∃ s' ms, Routine.advance
        (requestOrFallback ({} : NetworkSettings).fallback "nlu" "play_music"
          (.obj [("song", .str "x")]) "r") { world := chatting } = (s', .ended (.ok ["c"])) ∧
      s'.world.bus.queue = ms ∧ Asked "nlu" "chat" routed "r" ms ["c"] := by
  intro routed
  have hway := (follows_route {} "nlu" "play_music" (.obj [("song", .str "x")]) "r").atOnce
    { world := chatting }
  have hroute : route {} chatting.bus.directory.providers "play_music"
      (.obj [("song", .str "x")]) = some ⟨"chat", routed, ["c"]⟩ := by
    decide +kernel
  rw [hroute] at hway
  obtain ⟨ms, hended, hqueue, hasked⟩ := hway (by decide +kernel)
  exact ⟨_, ms, Prod.ext rfl hended, hqueue, hasked⟩

/-! ## A queue without a place -/

/-- The user asks both providers of a capability, with the usual fallback. -/
def routing (places : UInt64) : Run (Except Fault (List String)) :=
  Run.start (Orchestrator.undelivered places)
    (requestOrFallback ({} : NetworkSettings).fallback "o" "a" .null "r").program World.userPatience

/-- With one place in a queue that is not delivered the second message waits until the user gives
up, so the request ends neither with its providers nor with a fault. -/
theorem unplaced_request :
    route {} (Orchestrator.undelivered 1).bus.directory.providers "a" .null =
        some ⟨"a", .null, ["p", "q"]⟩ ∧
      ∀ n outcome, ((routing 1).go n).user ≠ .ended outcome := by
  have hstuck : ((routing 1).go 4).user = .stuck := by
    have hkernel : (match ((routing 1).go 4).user with | .stuck => true | _ => false) = true := by
      decide +kernel
    split at hkernel
    · assumption
    · cases hkernel
  have hproviders : (Orchestrator.undelivered 1).bus.directory.providers "a" = ["p", "q"] := by
    decide +kernel
  refine ⟨?_, Run.not_ended_of_stuck hstuck⟩
  rw [route_of_providers (by rw [hproviders]; decide), hproviders]

end Network

end Switchboard
