import Mathlib.Data.List.Perm.Basic
import Switchboard.Agent.Scripted
import Switchboard.Proofs.Bus.Providers
import Switchboard.Proofs.Runs

/-!
# Registrations that overlap

An agent that registers is put into the table of the agents, and after that the directory is
amended; in between other calls may do either. The table follows the calls in the order in which
they began, the directory in the order in which they amend it. When these orders differ for a name,
the two may disagree for good.

* `Registrar` : the bus, and the amendments that are due; `Registrar.step` : half of a call;
* `Bus.Agrees` : the directory lists each agent under exactly its capabilities, and nobody else;
* `Registrar.registrations_crossed` : it need not, once all calls are over;
* `Amendment.latest` : what a sequence of calls leaves of a name;
* `Registrar.Follows`, `Registrar.follows_run` : which calls the table and the directory show;
* `Registrar.Queued`, `Registrar.queued_run` : amendments of a name that are made in turn;
* `Registrar.agrees_run_iff` : when the table and the directory agree;
* `Registrar.agrees_of_apart` : they do when calls on one name do not overlap.
-/

namespace Switchboard

/-- What a call that has changed the table of the agents has yet to write down. -/
inductive Amendment where
  | enroll (name : String) (capabilities : List String)
  | withdraw (name : String)
  deriving DecidableEq, Repr

namespace Amendment

def name : Amendment → String
  | enroll name _ | withdraw name => name

/-- The capabilities that the name is listed under afterwards. -/
def capabilities : Amendment → List String
  | enroll _ capabilities => capabilities
  | withdraw _ => []

def make (b : Bus) : Amendment → Bus
  | enroll name capabilities => b.enroll name capabilities
  | withdraw name => b.withdraw name

/-- What the last amendment of a name lists it under. -/
def latest (amendments : List Amendment) (name : String) : List String :=
  ((amendments.filter (·.name == name)).getLast?.map (·.capabilities)).getD []

end Amendment

/-- The bus, and the amendments of its directory that are due, those of earlier calls first. -/
structure Registrar where
  bus : Bus
  due : List Amendment := []
  deriving DecidableEq

namespace Registrar

/-- Half of a call. -/
inductive Half where
  /-- An agent, given by its number, is put into the table. -/
  | register (agent : Nat)
  /-- A name is taken from the table. -/
  | unregister (name : String)
  /-- The amendment at this place is made, which ends its call. -/
  | amend (place : Nat)
  deriving DecidableEq, Repr

section

variable (agents : List Agent)

/-- The amendment that falls due. There is none when nobody had the name that is unregistered. -/
def falling (r : Registrar) : Half → Option Amendment
  | .register agent => agents[agent]?.map fun a => .enroll a.name a.capabilities
  | .unregister name => if (r.bus.leave name).2 then some (.withdraw name) else none
  | .amend _ => none

/-- The amendment that is made. -/
def made (r : Registrar) : Half → Option Amendment
  | .amend place => r.due[place]?
  | _ => none

/-- Whether no amendment of the same name fell due before the one that is made. -/
def yields (r : Registrar) : Half → Bool
  | .amend place =>
    r.due[place]?.all fun amendment => (r.due.take place).all (·.name != amendment.name)
  | _ => true

def step (r : Registrar) : Half → Registrar
  | .register agent =>
    match agents[agent]? with
    | none => r
    | some a =>
      { bus := r.bus.join a.name agent, due := r.due ++ [.enroll a.name a.capabilities] }
  | .unregister name =>
    match r.bus.leave name with
    | (bus, true) => { bus, due := r.due ++ [.withdraw name] }
    | (bus, false) => { r with bus }
  | .amend place =>
    match r.due[place]? with
    | none => r
    | some amendment => { bus := amendment.make r.bus, due := r.due.eraseIdx place }

/-- A bus without agents. -/
def opened (settings : NetworkSettings) : Registrar := { bus := .opened settings }

variable (settings : NetworkSettings) (halves : List Half)

def run : Registrar := halves.foldl (step agents) (opened settings)

/-- Each half with what it meets. -/
def history : List (Encounter Registrar Half) := encounters (step agents) (opened settings) halves

/-- The amendments in the order in which their calls began. -/
def begun : List Amendment :=
  (history agents settings halves).filterMap fun m => m.before.falling agents m.event

/-- The amendments in the order in which they were made. -/
def ended : List Amendment :=
  (history agents settings halves).filterMap fun m => m.before.made m.event

end

end Registrar

/-- What the agent that is registered under a name declares. -/
def Bus.declared (b : Bus) (agents : List Agent) (name : String) : List String :=
  (((b.member? name).bind fun m => agents[m.agent]?).map (·.capabilities)).getD []

/-- Whoever is listed in the directory is registered, and a registered agent is listed under exactly
its capabilities, once under each. -/
structure Bus.Agrees (b : Bus) (agents : List Agent) : Prop where
  registered : ∀ entry ∈ b.directory.sorted, ∀ name ∈ entry.2, name ∈ b.members.map (·.name)
  listed : ∀ m ∈ b.members, ∃ a, agents[m.agent]? = some a ∧ a.name = m.name ∧
    ∀ c, m.name ∈ b.directory.providers c ↔ c ∈ a.capabilities
  once : ∀ c, (b.directory.providers c).Nodup

namespace Registrar

/-- Two agents of one name that provide different things. -/
def twins : List Agent :=
  [{ Agent.scripted "n" [] [] [] with capabilities := ["a"] },
    { Agent.scripted "n" [] [] [] with capabilities := ["b"] }]

/-- Two agents register under one name, and the first of them amends the directory last: the table
has the second agent, and the directory what the first one provides. -/
theorem registrations_crossed :
    ¬ ∀ (agents : List Agent) (settings : NetworkSettings) (halves : List Half),
      (∀ a ∈ agents, a.capabilities.Nodup) → (run agents settings halves).due = [] →
      (run agents settings halves).bus.Agrees agents := by
  intro h
  have hagrees := h twins {} [.register 0, .register 1, .amend 1, .amend 0] (by decide) (by decide)
  obtain ⟨a, ha, -, hlisted⟩ := hagrees.listed ⟨"n", 1, 1⟩ (by decide)
  obtain rfl : { Agent.scripted "n" [] [] [] with capabilities := ["b"] } = a := by
    simpa [twins] using ha
  exact absurd ((hlisted "a").mp (by decide)) (by decide)

end Registrar

/-! ## What a sequence of calls leaves -/

theorem Amendment.latest_concat (amendments : List Amendment) (amendment : Amendment)
    (name : String) :
    latest (amendments ++ [amendment]) name =
      if amendment.name = name then amendment.capabilities else latest amendments name := by
  unfold latest
  by_cases h : amendment.name = name <;> simp [h]

/-- To withdraw a name is to list it under nothing. -/
theorem Amendment.make_eq (amendment : Amendment) (b : Bus) :
    amendment.make b = b.enroll amendment.name amendment.capabilities := by
  cases amendment <;> rfl

/-- After an amendment a name is listed under what it says, and every other name as before. -/
theorem Amendment.mem_providers_make {b : Bus} (h : b.directory.Tidy) {amendment : Amendment}
    (hset : amendment.capabilities.Nodup) (name c : String) :
    name ∈ (amendment.make b).directory.providers c ↔
      if amendment.name = name then c ∈ amendment.capabilities
      else name ∈ b.directory.providers c := by
  rw [make_eq, Bus.enroll, Directory.providers_enroll h hset]
  by_cases hname : amendment.name = name
  · by_cases hc : c ∈ amendment.capabilities <;> simp [hname, hc]
  · by_cases hc : c ∈ amendment.capabilities <;> simp [hname, hc, Ne.symm hname]

/-- A name that is taken out and put at the end is there once. -/
theorem nodup_filter_concat {names : List String} (h : names.Nodup) (name : String) :
    (names.filter (· != name) ++ [name]).Nodup := by
  have hnot : name ∉ names.filter (· != name) := by simp
  simpa using (h.filter (· != name)).concat hnot

theorem Amendment.nodup_providers_make {b : Bus} (h : b.directory.Tidy)
    (honce : ∀ c, (b.directory.providers c).Nodup) {amendment : Amendment}
    (hset : amendment.capabilities.Nodup) (c : String) :
    ((amendment.make b).directory.providers c).Nodup := by
  rw [make_eq, Bus.enroll, Directory.providers_enroll h hset]
  split
  · exact nodup_filter_concat (honce c) amendment.name
  · simpa using (honce c).filter (· != amendment.name)

namespace Bus

variable {b : Bus} {agents : List Agent} {name : String} {agent : Nat}

theorem member?_leave (b : Bus) (name other : String) :
    (b.leave name).1.member? other = if name = other then none else b.member? other := by
  rw [member?, leave, List.find?_filter, member?]
  split
  · rename_i heq
    simp [heq]
  · rename_i hne
    congr 1
    funext m
    by_cases h : m.name = other <;> simp [h, Ne.symm hne]

theorem member?_join (b : Bus) (name other : String) (agent : Nat) :
    (b.join name agent).member? other =
      if name = other then some ⟨name, agent, b.lanes.length⟩ else b.member? other := by
  have hrest := member?_leave b name other
  rw [leave, member?] at hrest
  rw [member?, join, List.find?_append, hrest]
  by_cases h : name = other <;> simp [h]

/-- To unregister a name that nobody has changes nothing. -/
theorem leave_of_nobody (h : (b.leave name).2 = false) : (b.leave name).1 = b := by
  have hnone : b.member? name = none := by simpa [leave] using h
  have hall : b.members.filter (·.name != name) = b.members := by
    refine List.filter_eq_self.mpr fun m hm => ?_
    have hnot := find?_key_eq_none_iff.mp hnone
    have hne : m.name ≠ name := fun heq => hnot (List.mem_map.mpr ⟨m, hm, heq⟩)
    simpa using hne
  rw [leave, hall]

theorem mem_names_of_declared {c : String} (h : c ∈ b.declared agents name) :
    name ∈ b.members.map (·.name) := by
  by_contra hnot
  have hnone : b.member? name = none := find?_key_eq_none_iff.mpr hnot
  simp [declared, hnone] at h

theorem declared_join {a : Agent} (h : agents[agent]? = some a) (other : String) :
    (b.join name agent).declared agents other =
      if name = other then a.capabilities else b.declared agents other := by
  rw [declared, member?_join, declared]
  split
  · simp [h]
  · rfl

theorem declared_leave (other : String) :
    (b.leave name).1.declared agents other =
      if name = other then [] else b.declared agents other := by
  rw [declared, member?_leave, declared]
  split <;> rfl

end Bus

namespace Registrar

/-- The table of the agents is as these calls have left it, in the order in which they began, and
the directory as the amendments made so far have left it. -/
structure Follows (agents : List Agent) (r : Registrar) (starts ends : List Amendment) : Prop where
  nodup : (r.bus.members.map (·.name)).Nodup
  stored : ∀ m ∈ r.bus.members, ∃ a, agents[m.agent]? = some a ∧ a.name = m.name
  declared : ∀ name, r.bus.declared agents name = Amendment.latest starts name
  tidy : r.bus.directory.Tidy
  once : ∀ c, (r.bus.directory.providers c).Nodup
  listed : ∀ name c, name ∈ r.bus.directory.providers c ↔ c ∈ Amendment.latest ends name
  sets : ∀ amendment ∈ r.due, amendment.capabilities.Nodup
  accounts : starts.Perm (ends ++ r.due)

/-- Of the amendments of each name the first ones have been made, and the others are due in the
order in which their calls began. -/
def Queued (r : Registrar) (starts ends : List Amendment) : Prop :=
  ∀ name, starts.filter (·.name == name) =
    ends.filter (·.name == name) ++ r.due.filter (·.name == name)

variable {agents : List Agent} {r : Registrar} {starts ends : List Amendment}

/-! ## Half of a call -/

/-- A call has changed the table. -/
theorem Follows.fall (h : r.Follows agents starts ends) {bus : Bus} {amendment : Amendment}
    (hdirectory : bus.directory = r.bus.directory) (hnodup : (bus.members.map (·.name)).Nodup)
    (hstored : ∀ m ∈ bus.members, ∃ a, agents[m.agent]? = some a ∧ a.name = m.name)
    (hdeclared : ∀ name, bus.declared agents name =
      if amendment.name = name then amendment.capabilities else r.bus.declared agents name)
    (hset : amendment.capabilities.Nodup) :
    Follows agents ⟨bus, r.due ++ [amendment]⟩ (starts ++ [amendment]) ends where
  nodup := hnodup
  stored := hstored
  declared := fun name => by rw [hdeclared, Amendment.latest_concat, h.declared]
  tidy := hdirectory ▸ h.tidy
  once := hdirectory ▸ h.once
  listed := hdirectory ▸ h.listed
  sets := fun other hother => (List.mem_append.mp hother).elim (h.sets other)
    fun hnew => List.mem_singleton.mp hnew ▸ hset
  accounts := by
    rw [← List.append_assoc]
    exact h.accounts.append_right _

theorem Follows.register (h : r.Follows agents starts ends) {agent : Nat} {a : Agent}
    (ha : agents[agent]? = some a) (hset : a.capabilities.Nodup) :
    Follows agents ⟨r.bus.join a.name agent, r.due ++ [.enroll a.name a.capabilities]⟩
      (starts ++ [.enroll a.name a.capabilities]) ends := by
  have hmembers : (r.bus.join a.name agent).members =
      r.bus.members.filter (·.name != a.name) ++ [⟨a.name, agent, r.bus.lanes.length⟩] := rfl
  refine h.fall rfl ?_ ?_ (Bus.declared_join ha) hset
  · have hnames := nodup_filter_concat h.nodup a.name
    rw [List.filter_map] at hnames
    rw [hmembers, List.map_append]
    exact hnames
  · intro m hm
    rw [hmembers] at hm
    rcases List.mem_append.mp hm with hold | hnew
    · exact h.stored m (List.mem_of_mem_filter hold)
    · obtain rfl := List.mem_singleton.mp hnew
      exact ⟨a, ha, rfl⟩

theorem Follows.unregister (h : r.Follows agents starts ends) (name : String) :
    Follows agents ⟨(r.bus.leave name).1, r.due ++ [.withdraw name]⟩
      (starts ++ [.withdraw name]) ends :=
  h.fall rfl (h.nodup.sublist (List.filter_sublist.map _))
    (fun m hm => h.stored m (List.mem_of_mem_filter hm)) Bus.declared_leave .nil

/-- An amendment is made. -/
theorem Follows.amend (h : r.Follows agents starts ends) {place : Nat} {amendment : Amendment}
    (hdue : r.due[place]? = some amendment) :
    Follows agents ⟨amendment.make r.bus, r.due.eraseIdx place⟩ starts (ends ++ [amendment]) := by
  have hset := h.sets amendment (List.mem_of_getElem? hdue)
  have hmembers : (amendment.make r.bus).members = r.bus.members := by
    rw [Amendment.make_eq]
    rfl
  have hdeclared : (amendment.make r.bus).declared agents = r.bus.declared agents := by
    funext name
    rw [Bus.declared, Bus.member?, hmembers]
    rfl
  exact
    { nodup := hmembers ▸ h.nodup
      stored := hmembers ▸ h.stored
      declared := hdeclared ▸ h.declared
      tidy := by
        rw [Amendment.make_eq]
        exact h.tidy.enroll _ _
      once := Amendment.nodup_providers_make h.tidy h.once hset
      listed := by
        intro name c
        rw [Amendment.mem_providers_make h.tidy hset, Amendment.latest_concat, h.listed]
        split <;> rfl
      sets := fun other hother => h.sets other (List.mem_of_mem_eraseIdx hother)
      accounts := by
        obtain ⟨hlt, hget⟩ := List.getElem?_eq_some_iff.mp hdue
        have hperm := (List.getElem_cons_eraseIdx_perm hlt).symm
        rw [hget] at hperm
        rw [List.append_assoc]
        exact h.accounts.trans (hperm.append_left ends) }

/-- What half of a call does, if it does anything. -/
theorem step_cases (agents : List Agent) (r : Registrar) (half : Half) :
    (r.step agents half = r ∧ r.falling agents half = none ∧ r.made half = none) ∨
    (∃ agent a, agents[agent]? = some a ∧
      r.step agents half =
        ⟨r.bus.join a.name agent, r.due ++ [.enroll a.name a.capabilities]⟩ ∧
      r.falling agents half = some (.enroll a.name a.capabilities) ∧ r.made half = none) ∨
    (∃ name, r.step agents half = ⟨(r.bus.leave name).1, r.due ++ [.withdraw name]⟩ ∧
      r.falling agents half = some (.withdraw name) ∧ r.made half = none) ∨
    (∃ place amendment, half = .amend place ∧ r.due[place]? = some amendment ∧
      r.step agents half = ⟨amendment.make r.bus, r.due.eraseIdx place⟩ ∧
      r.falling agents half = none ∧ r.made half = some amendment) := by
  cases half with
  | register agent =>
    cases ha : agents[agent]? with
    | none => exact .inl ⟨by simp [step, ha], by simp [falling, ha], rfl⟩
    | some a => exact .inr (.inl ⟨agent, a, ha, by simp [step, ha], by simp [falling, ha], rfl⟩)
  | unregister name =>
    cases hleft : (r.bus.leave name).2 with
    | false =>
      have hleave : r.bus.leave name = (r.bus, false) := Prod.ext (Bus.leave_of_nobody hleft) hleft
      exact .inl ⟨by rw [step, hleave], by simp [falling, hleft], rfl⟩
    | true =>
      have hleave : r.bus.leave name = ((r.bus.leave name).1, true) := Prod.ext rfl hleft
      exact .inr (.inr (.inl ⟨name, by rw [step, hleave], by simp [falling, hleft], rfl⟩))
  | amend place =>
    cases hdue : r.due[place]? with
    | none => exact .inl ⟨by simp [step, hdue], rfl, hdue⟩
    | some amendment =>
      exact .inr (.inr (.inr ⟨place, amendment, rfl, hdue, by simp [step, hdue], rfl, hdue⟩))

/-- A call that is not interrupted registers the agent. -/
theorem amend_register {agent : Nat} {a : Agent} (ha : agents[agent]? = some a) :
    (r.step agents (.register agent)).step agents (.amend r.due.length) =
      { r with bus := r.bus.register a.name agent a.capabilities } := by
  simp [step, ha, Amendment.make, Bus.register, List.eraseIdx_append_of_length_le]

/-- A call that is not interrupted removes the agent. -/
theorem amend_unregister {name : String} (h : (r.bus.leave name).2 = true) :
    (r.step agents (.unregister name)).step agents (.amend r.due.length) =
      { r with bus := (r.bus.unregister name).1 } := by
  have hleave : r.bus.leave name = ((r.bus.leave name).1, true) := Prod.ext rfl h
  simp only [step, Bus.unregister]
  rw [hleave]
  simp [Amendment.make, List.eraseIdx_append_of_length_le]

theorem Follows.step (hsets : ∀ a ∈ agents, a.capabilities.Nodup)
    (h : r.Follows agents starts ends) (half : Half) :
    (r.step agents half).Follows agents (starts ++ (r.falling agents half).toList)
      (ends ++ (r.made half).toList) := by
  rcases step_cases agents r half with ⟨hstep, hfalling, hmade⟩ |
    ⟨agent, a, ha, hstep, hfalling, hmade⟩ | ⟨name, hstep, hfalling, hmade⟩ |
    ⟨place, amendment, -, hdue, hstep, hfalling, hmade⟩
  · simpa [hstep, hfalling, hmade] using h
  · simpa [hstep, hfalling, hmade] using h.register ha (hsets a (List.mem_of_getElem? ha))
  · simpa [hstep, hfalling, hmade] using h.unregister name
  · simpa [hstep, hfalling, hmade] using h.amend hdue

theorem Queued.fall (h : r.Queued starts ends) (bus : Bus) (amendment : Amendment) :
    Queued ⟨bus, r.due ++ [amendment]⟩ (starts ++ [amendment]) ends := by
  intro name
  rw [List.filter_append, List.filter_append, h name, List.append_assoc]

/-- The first of its name that is due is made. -/
theorem Queued.amend (h : r.Queued starts ends) (bus : Bus) {place : Nat} {amendment : Amendment}
    (hdue : r.due[place]? = some amendment)
    (hfirst : ∀ other ∈ r.due.take place, other.name ≠ amendment.name) :
    Queued ⟨bus, r.due.eraseIdx place⟩ starts (ends ++ [amendment]) := by
  intro name
  obtain ⟨hlt, hget⟩ := List.getElem?_eq_some_iff.mp hdue
  have hsplit : r.due = r.due.take place ++ amendment :: r.due.drop (place + 1) := by
    rw [← hget, List.getElem_cons_drop, List.take_append_drop]
  have hqueue := h name
  rw [hsplit, List.filter_append] at hqueue
  -- what is due before it has other names, so it is the next one of its own name
  change _ = _ ++ (r.due.eraseIdx place).filter _
  rw [hqueue, List.eraseIdx_eq_take_drop_succ, List.filter_append, List.filter_append]
  by_cases hname : amendment.name = name
  · have hnone : (r.due.take place).filter (·.name == name) = [] := by
      simpa [← hname] using hfirst
    simp [hnone, hname]
  · simp [hname]

/-- Amendments of one name that are made in the order in which they fell due stay in order. -/
theorem Queued.step (h : r.Queued starts ends) {half : Half} (hyields : r.yields half = true) :
    (r.step agents half).Queued (starts ++ (r.falling agents half).toList)
      (ends ++ (r.made half).toList) := by
  rcases step_cases agents r half with ⟨hstep, hfalling, hmade⟩ |
    ⟨agent, a, ha, hstep, hfalling, hmade⟩ | ⟨name, hstep, hfalling, hmade⟩ |
    ⟨place, amendment, hhalf, hdue, hstep, hfalling, hmade⟩
  · simpa [hstep, hfalling, hmade] using h
  · simpa [hstep, hfalling, hmade] using h.fall _ _
  · simpa [hstep, hfalling, hmade] using h.fall _ _
  · have hfirst : ∀ other ∈ r.due.take place, other.name ≠ amendment.name := by
      simpa [hhalf, yields, hdue] using hyields
    simpa [hstep, hfalling, hmade] using h.amend _ hdue hfirst

/-- Calls on one name that do not overlap amend the directory in turn. -/
theorem yields_of_apart (h : (r.due.map (·.name)).Nodup) (half : Half) :
    r.yields half = true := by
  cases half with
  | amend place =>
    cases hdue : r.due[place]? with
    | none => simp [yields, hdue]
    | some amendment =>
      obtain ⟨hlt, hget⟩ := List.getElem?_eq_some_iff.mp hdue
      rw [← List.take_append_drop place r.due, ← List.getElem_cons_drop hlt, hget,
        List.map_append, List.map_cons] at h
      have hapart := (List.nodup_append.mp h).2.2
      have hfirst : ∀ other ∈ r.due.take place, other.name ≠ amendment.name := fun other hother =>
        hapart _ (List.mem_map_of_mem hother) _ List.mem_cons_self
      simpa [yields, hdue] using hfirst
  | _ => rfl

/-! ## Runs -/

section Runs

variable {settings : NetworkSettings} {halves : List Half}

theorem run_concat (half : Half) :
    run agents settings (halves ++ [half]) = (run agents settings halves).step agents half := by
  rw [run, List.foldl_append]
  rfl

theorem history_concat (half : Half) :
    history agents settings (halves ++ [half]) =
      history agents settings halves ++ [⟨run agents settings halves, half⟩] := by
  rw [history, encounters_append]
  rfl

theorem begun_concat (half : Half) :
    begun agents settings (halves ++ [half]) =
      begun agents settings halves ++ ((run agents settings halves).falling agents half).toList := by
  rw [begun, history_concat, List.filterMap_append, ← begun]
  cases h : (run agents settings halves).falling agents half <;> simp [h]

theorem ended_concat (half : Half) :
    ended agents settings (halves ++ [half]) =
      ended agents settings halves ++ ((run agents settings halves).made half).toList := by
  rw [ended, history_concat, List.filterMap_append, ← ended]
  cases h : (run agents settings halves).made half <;> simp [h]

/-- The table follows the calls as they begin, and the directory follows the amendments as they
are made. -/
theorem follows_run (hsets : ∀ a ∈ agents, a.capabilities.Nodup) (settings : NetworkSettings)
    (halves : List Half) :
    (run agents settings halves).Follows agents (begun agents settings halves)
      (ended agents settings halves) := by
  induction halves using List.reverseRecOn with
  | nil =>
    exact
      { nodup := .nil
        stored := by simp [run, opened, Bus.opened]
        declared := fun _ => rfl
        tidy := ⟨.nil, by simp [run, opened, Bus.opened]⟩
        once := fun _ => .nil
        listed := fun name c => by
          simp [run, opened, Bus.opened, Directory.providers, ended, history, encounters,
            Amendment.latest]
        sets := by simp [run, opened]
        accounts := .nil }
  | append_singleton halves half ih =>
    rw [run_concat, begun_concat, ended_concat]
    exact ih.step hsets half

theorem queued_run (hyields : ∀ m ∈ history agents settings halves, m.before.yields m.event = true) :
    (run agents settings halves).Queued (begun agents settings halves)
      (ended agents settings halves) := by
  induction halves using List.reverseRecOn with
  | nil => exact fun _ => rfl
  | append_singleton halves half ih =>
    rw [history_concat] at hyields
    rw [run_concat, begun_concat, ended_concat]
    have hearlier := ih fun m hm => hyields m (List.mem_append_left _ hm)
    exact hearlier.step (hyields _ (List.mem_append_right _ List.mem_cons_self))

end Runs

/-! ## When the table and the directory agree -/

theorem Follows.declared_of_mem (h : r.Follows agents starts ends) {m : Member}
    (hm : m ∈ r.bus.members) {a : Agent} (ha : agents[m.agent]? = some a) :
    r.bus.declared agents m.name = a.capabilities := by
  have hmember : r.bus.member? m.name = some m := (find?_key_eq_some_iff h.nodup).mpr ⟨hm, rfl⟩
  simp [Bus.declared, hmember, ha]

/-- The two agree when each name is listed under what its agent declares. -/
theorem Follows.agrees_iff_declared (h : r.Follows agents starts ends) :
    r.bus.Agrees agents ↔
      ∀ name c, c ∈ r.bus.declared agents name ↔ name ∈ r.bus.directory.providers c := by
  constructor
  · intro hagrees name c
    by_cases hname : name ∈ r.bus.members.map (·.name)
    · obtain ⟨m, hm, rfl⟩ := List.mem_map.mp hname
      obtain ⟨a, ha, -, hlisted⟩ := hagrees.listed m hm
      rw [h.declared_of_mem hm ha]
      exact (hlisted c).symm
    · refine iff_of_false (fun hc => hname (Bus.mem_names_of_declared hc)) fun hlisted => hname ?_
      have hentry : (c, r.bus.directory.providers c) ∈ r.bus.directory.sorted :=
        h.tidy.mem_sorted_iff.mpr ⟨rfl, List.ne_nil_of_mem hlisted⟩
      exact hagrees.registered _ hentry name hlisted
  · intro hsame
    refine
      { registered := fun entry hentry name hname => ?_
        listed := fun m hm => ?_
        once := h.once }
    · rw [← (h.tidy.mem_sorted_iff.mp hentry).1, ← hsame] at hname
      exact Bus.mem_names_of_declared hname
    · obtain ⟨a, ha, hname⟩ := h.stored m hm
      refine ⟨a, ha, hname, fun c => ?_⟩
      rw [← h.declared_of_mem hm ha]
      exact (hsame m.name c).symm

/-- The two agree when the calls that began and the amendments that were made leave the same. -/
theorem Follows.agrees_iff (h : r.Follows agents starts ends) :
    r.bus.Agrees agents ↔
      ∀ name c, c ∈ Amendment.latest starts name ↔ c ∈ Amendment.latest ends name := by
  rw [h.agrees_iff_declared]
  refine forall₂_congr fun name c => ?_
  rw [h.declared, h.listed]

/-- When nothing is due any more, both have been through the calls of each name in one order. -/
theorem Queued.latest_eq (h : r.Queued starts ends) (hdone : r.due = []) :
    Amendment.latest starts = Amendment.latest ends := by
  funext name
  have hsame := h name
  rw [hdone, List.filter_nil, List.append_nil] at hsame
  rw [Amendment.latest, hsame, Amendment.latest]

theorem agrees_of_yields (hsets : ∀ a ∈ agents, a.capabilities.Nodup)
    {settings : NetworkSettings} {halves : List Half}
    (hdone : (run agents settings halves).due = [])
    (hyields : ∀ m ∈ history agents settings halves, m.before.yields m.event = true) :
    (run agents settings halves).bus.Agrees agents := by
  have hsame := (queued_run hyields).latest_eq hdone
  exact (follows_run hsets settings halves).agrees_iff.mpr fun name c => by rw [hsame]

/-- The two agree when no two calls on one name were under way at the same time. -/
theorem agrees_of_apart (hsets : ∀ a ∈ agents, a.capabilities.Nodup)
    {settings : NetworkSettings} {halves : List Half}
    (hdone : (run agents settings halves).due = [])
    (hapart : ∀ m ∈ history agents settings halves, (m.before.due.map (·.name)).Nodup) :
    (run agents settings halves).bus.Agrees agents :=
  agrees_of_yields hsets hdone fun m hm => yields_of_apart (hapart m hm) m.event

/-- **The directory and the table of the agents.** However the halves of calls alternate, when all
calls are over each of them has been made, and the directory agrees with the table if and only if,
for every name, the call that amended the directory last leaves it with the same capabilities as
the call that changed the table last. They agree when amendments of one name are made in the order
in which they fell due, and so when no two calls on one name overlap. -/
theorem agrees_run_iff (hsets : ∀ a ∈ agents, a.capabilities.Nodup) (settings : NetworkSettings)
    (halves : List Half) (hdone : (run agents settings halves).due = []) :
    (begun agents settings halves).Perm (ended agents settings halves) ∧
    ((run agents settings halves).bus.Agrees agents ↔
      ∀ name c, c ∈ Amendment.latest (begun agents settings halves) name ↔
        c ∈ Amendment.latest (ended agents settings halves) name) ∧
    ((∀ m ∈ history agents settings halves, m.before.yields m.event = true) →
      (run agents settings halves).bus.Agrees agents) ∧
    ((∀ m ∈ history agents settings halves, (m.before.due.map (·.name)).Nodup) →
      (run agents settings halves).bus.Agrees agents) := by
  have hfollows := follows_run hsets settings halves
  refine ⟨?_, hfollows.agrees_iff, agrees_of_yields hsets hdone, agrees_of_apart hsets hdone⟩
  simpa [hdone] using hfollows.accounts

/-- Two calls on one name overlap, and the directory is amended for the first and then for the
second of them. -/
theorem agrees_of_twins :
    let halves := [Half.register 0, .register 1, .amend 0, .amend 0]
    (∀ a ∈ twins, a.capabilities.Nodup) ∧ (run twins {} halves).due = [] ∧
    (∀ m ∈ history twins {} halves, m.before.yields m.event = true) ∧
    (run twins {} halves).bus.Agrees twins ∧
    (run twins {} halves).bus.directory.providers "b" = ["n"] := by
  intro halves
  have hsets : ∀ a ∈ twins, a.capabilities.Nodup := by decide
  have hyields : ∀ m ∈ history twins {} halves, m.before.yields m.event = true := by decide
  obtain ⟨-, -, hagrees, -⟩ := agrees_run_iff hsets {} halves (by decide)
  exact ⟨hsets, by decide, hyields, hagrees hyields, by decide⟩

end Registrar

end Switchboard
