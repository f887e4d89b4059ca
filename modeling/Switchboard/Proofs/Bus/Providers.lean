import Mathlib.Data.List.Induction
import Switchboard.Proofs.Keyed
import Switchboard.Proofs.World.Grounds

/-!
# Who provides what

The directory is kept beside the table of the agents: each change of one goes with a change of the
other, and together they are those of the latest registrations.

* `Directory.providers_enroll`, `Directory.providers_withdraw` : what an agent that registers, and
  one that leaves, does to the list of a capability;
* `World.Change`, `World.lasting` : agents come and go, and those that are there in the end;
* `Bus.Lists` : the bus has these agents and the directory says what they provide;
* `World.lists_changes` : it does after any sequence of changes.
-/

namespace Switchboard

namespace Directory

variable {d : Directory} {entries : List (String × List String)} {agent capability c : String}
  {capabilities : List String}

/-- Each capability has one list, which is not empty. -/
structure Tidy (d : Directory) : Prop where
  nodup : (d.entries.map (·.1)).Nodup
  nonempty : ∀ entry ∈ d.entries, entry.2 ≠ []

/-! ## Lookup -/

theorem providers_cons (entry : String × List String) :
    (Directory.mk (entry :: entries)).providers c =
      if entry.1 = c then entry.2 else (Directory.mk entries).providers c := by
  unfold providers
  by_cases h : entry.1 = c <;> simp [h]

theorem providers_eq_nil (h : c ∉ entries.map (·.1)) : (Directory.mk entries).providers c = [] := by
  rw [providers, find?_key_eq_none_iff.mpr h]
  rfl

theorem providers_of_mem (hd : (d.entries.map (·.1)).Nodup) {entry : String × List String}
    (h : entry ∈ d.entries) : d.providers entry.1 = entry.2 := by
  rw [providers, (find?_key_eq_some_iff hd).mpr ⟨h, rfl⟩]
  rfl

/-! ## Changes of the lists -/

theorem providers_append :
    (Directory.mk (append entries capability agent)).providers c =
      (Directory.mk entries).providers c ++ if c = capability then [agent] else [] := by
  induction entries with
  | nil =>
    rw [append, providers_cons]
    by_cases h : capability = c
    · simp [h, providers]
    · simp [h, Ne.symm h]
  | cons entry rest ih =>
    unfold append
    split
    · rename_i heq
      obtain rfl : entry.1 = capability := by simpa using heq
      rw [providers_cons, providers_cons]
      by_cases h : entry.1 = c
      · simp [h]
      · simp [h, Ne.symm h]
    · rename_i hne
      have hne : entry.1 ≠ capability := by simpa using hne
      rw [providers_cons, ih, providers_cons]
      by_cases h : entry.1 = c
      · simp [h, h ▸ hne]
      · simp [h]

theorem keys_append :
    (append entries capability agent).map (·.1) = entries.map (·.1) ∨
      capability ∉ entries.map (·.1) ∧
        (append entries capability agent).map (·.1) = entries.map (·.1) ++ [capability] := by
  induction entries with
  | nil => exact .inr ⟨List.not_mem_nil, rfl⟩
  | cons entry rest ih =>
    unfold append
    split
    · exact .inl rfl
    · rename_i hne
      have hne : capability ≠ entry.1 := fun heq => hne (by simp [heq])
      rcases ih with hsame | ⟨hnew, hmore⟩
      · exact .inl (congrArg (entry.1 :: ·) hsame)
      · refine .inr ⟨fun hmem => ?_, congrArg (entry.1 :: ·) hmore⟩
        exact (List.mem_cons.mp hmem).elim hne hnew

theorem nodup_append (h : (entries.map (·.1)).Nodup) :
    ((append entries capability agent).map (·.1)).Nodup := by
  rcases @keys_append entries agent capability with
    hsame | ⟨hnew, hmore⟩
  · rwa [hsame]
  · rw [hmore]
    simpa using h.concat hnew

theorem nodup_appends (h : (entries.map (·.1)).Nodup) :
    ((capabilities.foldl (fun entries c => append entries c agent) entries).map (·.1)).Nodup := by
  induction capabilities generalizing entries with
  | nil => exact h
  | cons capability rest ih => exact ih (nodup_append h)

/-- An agent is added to the list of each of its capabilities. -/
theorem providers_appends (hset : capabilities.Nodup) :
    (Directory.mk (capabilities.foldl (fun entries c => append entries c agent) entries)).providers
        c =
      (Directory.mk entries).providers c ++ if c ∈ capabilities then [agent] else [] := by
  induction capabilities generalizing entries with
  | nil => simp
  | cons capability rest ih =>
    obtain ⟨hnew, hrest⟩ := List.nodup_cons.mp hset
    rw [List.foldl_cons, ih hrest, providers_append, List.append_assoc]
    by_cases h : c = capability
    · simp [h, hnew]
    · simp [h]

theorem keys_strike (d : Directory) (agent : String) :
    (d.strike agent).entries.map (·.1) = d.entries.map (·.1) := by
  simp [strike, Function.comp_def]

theorem providers_strike :
    (d.strike agent).providers c = (d.providers c).filter (· != agent) := by
  obtain ⟨entries⟩ := d
  induction entries with
  | nil => rfl
  | cons entry rest ih =>
    change (Directory.mk ((entry.1, entry.2.filter (· != agent)) :: _)).providers c = _
    rw [providers_cons, providers_cons]
    split
    · rfl
    · exact ih

theorem tidy_compact (h : (d.entries.map (·.1)).Nodup) : d.compact.Tidy where
  nodup := h.sublist (List.filter_sublist.map _)
  nonempty := by
    intro entry hentry
    simpa using (List.mem_filter.mp hentry).2

theorem providers_compact (h : (d.entries.map (·.1)).Nodup) :
    d.compact.providers c = d.providers c := by
  obtain ⟨entries⟩ := d
  induction entries with
  | nil => rfl
  | cons entry rest ih =>
    obtain ⟨hnew, hrest⟩ := List.nodup_cons.mp h
    have hih : (Directory.mk (rest.filter fun entry => !entry.2.isEmpty)).providers c =
        (Directory.mk rest).providers c := ih hrest
    rw [compact, List.filter_cons, providers_cons]
    split
    · rw [providers_cons, hih]
    · rename_i hempty
      rw [hih]
      split
      · rename_i heq
        rw [providers_eq_nil (heq ▸ hnew)]
        simpa using hempty
      · rfl

/-! ## Agents that come and go -/

theorem Tidy.enroll (h : d.Tidy) (agent : String) (capabilities : List String) :
    (d.enroll agent capabilities).Tidy :=
  tidy_compact (nodup_appends (keys_strike d agent ▸ h.nodup))

theorem Tidy.withdraw (h : d.Tidy) (agent : String) : (d.withdraw agent).Tidy :=
  tidy_compact (keys_strike d agent ▸ h.nodup)

/-- An agent that registers is taken off all lists and put at the end of those of its
capabilities. -/
theorem providers_enroll (h : d.Tidy) (hset : capabilities.Nodup) :
    (d.enroll agent capabilities).providers c =
      (d.providers c).filter (· != agent) ++ if c ∈ capabilities then [agent] else [] := by
  rw [Directory.enroll, providers_compact (nodup_appends (keys_strike d agent ▸ h.nodup)),
    providers_appends hset]
  change (d.strike agent).providers c ++ _ = _
  rw [providers_strike]

theorem providers_withdraw (h : d.Tidy) :
    (d.withdraw agent).providers c = (d.providers c).filter (· != agent) := by
  rw [Directory.withdraw, providers_compact (keys_strike d agent ▸ h.nodup), providers_strike]

/-- The account of all capabilities has the list of each one that is provided, and no other. -/
theorem Tidy.mem_sorted_iff (h : d.Tidy) {entry : String × List String} :
    entry ∈ d.sorted ↔ d.providers entry.1 = entry.2 ∧ entry.2 ≠ [] := by
  rw [sorted, List.mem_mergeSort]
  constructor
  · intro hmem
    exact ⟨providers_of_mem h.nodup hmem, h.nonempty entry hmem⟩
  · rintro ⟨hlist, hnonempty⟩
    by_contra hmem
    have hkey : entry.1 ∈ d.entries.map (·.1) := by
      by_contra hnot
      exact hnonempty (hlist.symm.trans (providers_eq_nil hnot))
    obtain ⟨other, hother, hkey⟩ := List.mem_map.mp hkey
    have hsame : other.2 = entry.2 := by
      rw [← providers_of_mem h.nodup hother, hkey, hlist]
    exact hmem (Prod.ext hkey hsame ▸ hother)

end Directory

namespace Agent

/-- Of items in order, each is kept once. -/
theorem pairwise_eraseReps_loop {item : String} {items kept : List String}
    (hkept : (kept.reverse ++ [item]).Pairwise (· < ·)) (hitems : (item :: items).Pairwise (· ≤ ·)) :
    (List.eraseRepsBy.loop (· == ·) item items kept).Pairwise (· < ·) := by
  induction items generalizing item kept with
  | nil => simpa [List.eraseRepsBy.loop] using hkept
  | cons next items ih =>
    obtain ⟨hle, hnext⟩ := List.pairwise_cons.mp hitems
    unfold List.eraseRepsBy.loop
    split
    · rename_i heq
      obtain rfl : item = next := by simpa using heq
      exact ih hkept hnext
    · rename_i hne
      have hne : item ≠ next := by simpa using hne
      refine ih ?_ hnext
      rw [List.reverse_cons]
      refine List.pairwise_append.mpr ⟨hkept, List.pairwise_singleton _ _, fun x hx y hy => ?_⟩
      obtain rfl := List.mem_singleton.mp hy
      have hlt : item < y := by
        by_contra hnot
        exact hne (String.le_antisymm (hle y List.mem_cons_self) (String.not_lt.mp hnot))
      rcases List.mem_append.mp hx with hx | hx
      · exact String.lt_trans
          ((List.pairwise_append.mp hkept).2.2 x hx item (List.mem_singleton.mpr rfl)) hlt
      · rwa [List.mem_singleton.mp hx]

/-- However often a capability is declared, an agent has it once. -/
theorem nodup_capabilitySet (names : List String) : (capabilitySet names).Nodup := by
  have hsorted : (names.mergeSort (· ≤ ·)).Pairwise (· ≤ ·) := by
    have hall : (names.mergeSort (· ≤ ·)).Pairwise fun a b => decide (a ≤ b) = true :=
      List.pairwise_mergeSort (by simpa using fun a b c => String.le_trans)
        (by simpa using String.le_total) names
    exact hall.imp of_decide_eq_true
  have hkept : (capabilitySet names).Pairwise (· < ·) := by
    unfold capabilitySet List.eraseReps List.eraseRepsBy
    split
    · exact .nil
    · rename_i item items heq
      rw [heq] at hsorted
      exact pairwise_eraseReps_loop (List.pairwise_singleton _ _) hsorted
  refine hkept.imp fun hlt => ?_
  rintro rfl
  exact String.lt_irrefl _ hlt

end Agent

/-! ## Changes -/

namespace World

/-- An agent comes or goes. -/
inductive Change where
  | register (agent : Nat)
  | unregister (name : String)
  deriving DecidableEq, Repr

/-- What the user does. -/
def change (w : World) : Change → World
  | .register agent => w.register agent
  | .unregister name => (w.unregister name).1

/-- The agents that there are, registered or not. -/
def agents (w : World) : List Agent := w.actors.map (·.agent)

/-- Whether a change is about a name. -/
def Change.concerns (agents : List Agent) (name : String) : Change → Bool
  | .register agent => (agents[agent]?).any (·.name == name)
  | .unregister other => other == name

/-- The agents whose registration was not followed by another change that is about their name, in
the order in which they were registered. -/
def lasting (agents : List Agent) : List Change → List Agent
  | [] => []
  | .register agent :: rest =>
    match agents[agent]? with
    | some a =>
      if rest.any (·.concerns agents a.name) then lasting agents rest
      else a :: lasting agents rest
    | none => lasting agents rest
  | .unregister _ :: rest => lasting agents rest

section Lasting

variable {agents : List Agent} {changes : List Change}

theorem concerns_register {agent : Nat} {a : Agent} (h : agents[agent]? = some a)
    (name : String) : (Change.register agent).concerns agents name = (a.name == name) := by
  rw [Change.concerns, h]
  rfl

/-- One more change takes the one who had the name off, and puts the one who registers at the
end. -/
theorem lasting_concat (change : Change) :
    lasting agents (changes ++ [change]) =
      (lasting agents changes).filter (fun a => !change.concerns agents a.name) ++
        lasting agents [change] := by
  induction changes with
  | nil => rfl
  | cons first rest ih =>
    cases first with
    | unregister name => exact ih
    | register agent =>
      rw [List.cons_append, lasting, lasting]
      cases agents[agent]? with
      | none => exact ih
      | some a =>
        dsimp only
        rw [List.any_append, List.any_cons, List.any_nil, Bool.or_false, ih]
        cases rest.any (·.concerns agents a.name) <;>
          cases hlast : change.concerns agents a.name <;> simp [hlast]

theorem nodup_lasting (agents : List Agent) (changes : List Change) :
    ((lasting agents changes).map (·.name)).Nodup := by
  induction changes using List.reverseRecOn with
  | nil => exact .nil
  | append_singleton changes change ih =>
    have hold : (((lasting agents changes).filter
        fun a => !change.concerns agents a.name).map (·.name)).Nodup :=
      ih.sublist (List.filter_sublist.map _)
    rw [lasting_concat]
    cases change with
    | unregister name => simpa [lasting] using hold
    | register agent =>
      cases ha : agents[agent]? with
      | none => simpa [lasting, ha] using hold
      | some a =>
        have hlast : lasting agents [.register agent] = [a] := by simp [lasting, ha]
        rw [hlast, List.map_append, List.map_singleton]
        refine List.nodup_append.mpr ⟨hold, List.nodup_singleton _, fun name hname other hother => ?_⟩
        obtain ⟨b, hb, rfl⟩ := List.mem_map.mp hname
        have hkept := (List.mem_filter.mp hb).2
        rw [concerns_register ha] at hkept
        rw [List.mem_singleton.mp hother]
        exact fun heq => by simp [heq] at hkept

end Lasting

end World

/-! ## The bus -/

/-- The bus has these agents in this order, and its directory says what they provide. -/
structure Bus.Lists (b : Bus) (current : List Agent) : Prop where
  members : b.members.map (·.name) = current.map (·.name)
  providers : ∀ c, b.directory.providers c =
    (current.filter (·.capabilities.contains c)).map (·.name)
  tidy : b.directory.Tidy

namespace Bus.Lists

variable {b : Bus} {current : List Agent}

theorem empty {b : Bus} (hmembers : b.members = []) (hdirectory : b.directory = {}) :
    b.Lists [] where
  members := by rw [hmembers]; rfl
  providers := fun c => by rw [hdirectory]; rfl
  tidy := by
    rw [hdirectory]
    exact ⟨.nil, by simp⟩

theorem members_filter (h : b.Lists current) (name : String) :
    (b.members.filter (·.name != name)).map (·.name) =
      (current.filter (·.name != name)).map (·.name) := by
  have hmembers := congrArg (List.filter (· != name)) h.members
  rwa [List.filter_map, List.filter_map] at hmembers

theorem providers_filter (h : b.Lists current) (name c : String) :
    (b.directory.providers c).filter (· != name) =
      ((current.filter (·.name != name)).filter (·.capabilities.contains c)).map (·.name) := by
  rw [h.providers, List.filter_map, List.filter_comm]
  rfl

theorem register (h : b.Lists current) (agent : Nat) {a : Agent} (hset : a.capabilities.Nodup) :
    (b.register a.name agent a.capabilities).Lists (current.filter (·.name != a.name) ++ [a]) where
  members := by
    have hjoin : (b.register a.name agent a.capabilities).members =
        b.members.filter (·.name != a.name) ++ [⟨a.name, agent, b.lanes.length⟩] := rfl
    rw [hjoin, List.map_append, h.members_filter, List.map_append]
    rfl
  providers := by
    intro c
    change (b.directory.enroll a.name a.capabilities).providers c = _
    rw [Directory.providers_enroll h.tidy hset, h.providers_filter, List.filter_append,
      List.map_append]
    by_cases hc : c ∈ a.capabilities <;> simp [hc]
  tidy := h.tidy.enroll a.name a.capabilities

theorem unregister (h : b.Lists current) (name : String) :
    (b.unregister name).1.Lists (current.filter (·.name != name)) := by
  cases hmember : b.member? name with
  | some m =>
    have hbus : (b.unregister name).1 = (b.leave name).1.withdraw name := by
      simp [Bus.unregister, Bus.leave, hmember]
    rw [hbus]
    refine ⟨h.members_filter name, fun c => ?_, h.tidy.withdraw name⟩
    change (b.directory.withdraw name).providers c = _
    rw [Directory.providers_withdraw h.tidy, h.providers_filter]
  | none =>
    have hbus : (b.unregister name).1 = (b.leave name).1 := by
      simp [Bus.unregister, Bus.leave, hmember]
    have hnobody : ∀ a ∈ current, (a.name != name) = true := by
      have hnot : name ∉ current.map (·.name) := h.members ▸ find?_key_eq_none_iff.mp hmember
      intro a ha
      have hne : a.name ≠ name := fun heq => hnot (List.mem_map.mpr ⟨a, ha, heq⟩)
      simpa using hne
    rw [hbus, List.filter_eq_self.mpr hnobody]
    refine ⟨(h.members_filter name).trans ?_, h.providers, h.tidy⟩
    rw [List.filter_eq_self.mpr hnobody]

end Bus.Lists

namespace World

variable {w : World}

theorem agents_change (change : Change) : (w.change change).agents = w.agents := by
  cases change with
  | unregister name => rfl
  | register agent =>
    rw [World.change, World.register]
    split
    · rfl
    · have hflag : ∀ a : Actor, ({ a with attached := true } : Actor).agent = a.agent := fun _ => rfl
      exact map_modify_of_eq hflag w.actors agent

theorem agents_changes (changes : List Change) :
    (changes.foldl World.change w).agents = w.agents := by
  induction changes generalizing w with
  | nil => rfl
  | cons change rest ih => rw [List.foldl_cons, ih, agents_change]

theorem register_of_none {agent : Nat} (h : w.agents[agent]? = none) : w.register agent = w := by
  rw [agents, List.getElem?_map, Option.map_eq_none_iff] at h
  rw [World.register, h]

theorem bus_register {agent : Nat} {a : Agent} (h : w.agents[agent]? = some a) :
    (w.register agent).bus = w.bus.register a.name agent a.capabilities := by
  rw [agents, List.getElem?_map] at h
  obtain ⟨actor, hactor, rfl⟩ := Option.map_eq_some_iff.mp h
  rw [World.register, hactor]
  rfl

/-- After any changes the bus has the agents of the latest registrations, and the directory says
what they provide. -/
theorem lists_changes (hmembers : w.bus.members = []) (hdirectory : w.bus.directory = {})
    (hsets : ∀ a ∈ w.agents, a.capabilities.Nodup) (changes : List Change) :
    (changes.foldl World.change w).bus.Lists (lasting w.agents changes) := by
  induction changes using List.reverseRecOn with
  | nil => exact .empty hmembers hdirectory
  | append_singleton changes change ih =>
    rw [List.foldl_append, List.foldl_cons, List.foldl_nil, lasting_concat]
    have hagents := agents_changes (w := w) changes
    cases change with
    | unregister name =>
      have hfilter : (lasting w.agents changes).filter
          (fun a => !(Change.unregister name).concerns w.agents a.name) =
          (lasting w.agents changes).filter (·.name != name) := by
        refine List.filter_congr fun a _ => ?_
        rw [Change.concerns, bne, Bool.beq_comm]
      rw [lasting, lasting, List.append_nil, hfilter]
      exact ih.unregister name
    | register agent =>
      cases ha : w.agents[agent]? with
      | none =>
        have hnobody : ∀ a ∈ lasting w.agents changes,
            (!(Change.register agent).concerns w.agents a.name) = true := by
          simp [Change.concerns, ha]
        rw [List.filter_eq_self.mpr hnobody, World.change, register_of_none (hagents ▸ ha)]
        simpa [lasting, ha] using ih
      | some a =>
        have hfilter : (lasting w.agents changes).filter
            (fun b => !(Change.register agent).concerns w.agents b.name) =
            (lasting w.agents changes).filter (·.name != a.name) := by
          refine List.filter_congr fun b _ => ?_
          rw [concerns_register ha, bne, Bool.beq_comm]
        have hlast : lasting w.agents [.register agent] = [a] := by simp [lasting, ha]
        rw [hfilter, hlast, World.change, bus_register (hagents ▸ ha)]
        exact ih.register agent (hsets a (List.mem_of_getElem? ha))

end World

end Switchboard
