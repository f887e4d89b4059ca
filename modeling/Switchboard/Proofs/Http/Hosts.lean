import Mathlib.Data.List.TakeWhile
import Switchboard.Http.Proxy

/-!
# Which host a URL is taken for

A URL has a scheme or none, an authority with a host, and whatever follows. The host is sought
without reading the parts in order: behind the first `://`, before the first slash after it, behind
the last `@` of that, and there in brackets or before a colon.

* `Url` : the parts of a URL; `Url.text` : the URL as it is written;
* `Url.trail` : what follows the authority up to the first slash;
* `Url.decoy?` : the text that is read in the place of the authority, if another one is;
* `Url.host_text` : the host that is found; `Url.host_of_path` : after a scheme and before a path it
  is the right one;
* `Proxy.decide_eq_direct_iff`, `Url.findsHost_iff` : when it is the right one, and the proxy is
  passed by for that host.
-/

namespace Switchboard

/-- A host as it stands in a URL. -/
inductive UrlHost where
  /-- A name, or an address in decimal numbers. -/
  | name (text : List Char) (ne_nil : text ≠ [])
      (plain : ∀ c ∈ text, c ∉ ['/', '?', '#', '@', ':', '[', ']'])
  /-- An address in brackets. -/
  | address (text : List Char) (plain : ∀ c ∈ text, c ∉ ['/', '?', '#', '@', '[', ']'])

namespace UrlHost

/-- The host itself. -/
def chars : UrlHost → List Char
  | name text .. => text
  | address text .. => text

/-- The host with its brackets. -/
def written : UrlHost → List Char
  | name text .. => text
  | address text .. => '[' :: text ++ [']']

def isAddress : UrlHost → Bool
  | name .. => false
  | address .. => true

theorem notMem_written (h : UrlHost) {c : Char} (hc : c ∈ ['/', '@']) : c ∉ h.written := by
  intro hmem
  cases h with
  | name text ne_nil plain =>
    have hplain := plain c hmem
    simp only [List.mem_cons, List.not_mem_nil, or_false] at hc hplain
    rcases hc with rfl | rfl <;> simp at hplain
  | address text plain =>
    simp only [written, List.cons_append, List.mem_cons, List.mem_append, List.not_mem_nil,
      or_false] at hmem hc
    rcases hmem with rfl | hmem | rfl
    · simp at hc
    · have hplain := plain c hmem
      rcases hc with rfl | rfl <;> simp at hplain
    · simp at hc

end UrlHost

/-- The parts of a URL. -/
structure Url where
  scheme : Option (List Char)
  user : Option (List Char)
  host : UrlHost
  port : Option (List Char)
  /-- What follows the authority. -/
  rest : List Char
  scheme_plain : ∀ s ∈ scheme, ∀ c ∈ s, c ∉ ['/', '?', '#', '@', ':']
  user_plain : ∀ s ∈ user, ∀ c ∈ s, c ∉ ['/', '?', '#', '@']
  port_plain : ∀ s ∈ port, ∀ c ∈ s, c ∉ ['/', '?', '#', '@']
  rest_delimited : ∀ c ∈ rest.head?, c ∈ ['/', '?', '#']

/-! ## Cutting texts -/

/-- A cut before a character does not fall into a text that does not hold it. -/
theorem takeWhile_ne_append {x : Char} {a : List Char} (h : x ∉ a) (b : List Char) :
    (a ++ b).takeWhile (· ≠ x) = a ++ b.takeWhile (· ≠ x) := by
  apply List.takeWhile_append_of_pos
  intro c hc
  simpa using fun heq : c = x => h (heq ▸ hc)

theorem Text.isEmpty_trim (s : String) : (Text.trim s).isEmpty = Text.isAllBlank s := by
  have hnil : ∀ cs : List Char, Text.trimStart cs = [] ↔ ∀ c ∈ cs, Text.isBlank c = true :=
    fun cs => List.dropWhile_eq_nil_iff
  rw [Bool.eq_iff_iff, Text.trim, Text.isAllBlank, List.all_eq_true, ← hnil, String.isEmpty_iff,
    String.ofList_eq_empty_iff, List.reverse_eq_nil_iff, hnil]
  simp only [List.mem_reverse]
  -- what is left of the text starts with a character that is not blank
  constructor
  · intro h
    cases hleft : Text.trimStart s.toList with
    | nil => rfl
    | cons c cs =>
      have hfirst := List.head?_dropWhile_not Text.isBlank s.toList
      have hblank : Text.isBlank c = true := h c (hleft ▸ List.mem_cons_self)
      rw [← Text.trimStart, hleft, List.head?_cons] at hfirst
      simp [hblank] at hfirst
  · intro h
    simp [h]

namespace Proxy

theorem find?_append {s : List Char} (hs : ':' ∉ s) (cs : List Char) :
    afterScheme.find? (s ++ ':' :: '/' :: '/' :: cs) = some cs := by
  induction s with
  | nil => rfl
  | cons c s ih =>
    obtain ⟨hc, hs⟩ := not_or.mp (mt List.mem_cons.mpr hs)
    rw [List.cons_append, afterScheme.find?, ih hs]
    intro rest heq
    exact absurd heq.symm hc

theorem afterUser_append_cons {b : List Char} (h : '@' ∉ b) (a : List Char) :
    afterUser (a ++ '@' :: b) = b := by
  have hb : '@' ∉ b.reverse := mt List.mem_reverse.mp h
  rw [afterUser, List.reverse_append, List.reverse_cons, List.append_assoc, takeWhile_ne_append hb]
  simp

theorem afterUser_of_notMem {cs : List Char} (h : '@' ∉ cs) : afterUser cs = cs := by
  have hcs : '@' ∉ cs.reverse := mt List.mem_reverse.mp h
  have hall : cs.reverse.takeWhile (· ≠ '@') = cs.reverse := by
    simpa using takeWhile_ne_append hcs []
  rw [afterUser, hall, List.reverse_reverse]

theorem afterUser_append_of_mem {b : List Char} (h : '@' ∈ b) (a : List Char) :
    afterUser (a ++ b) = afterUser b := by
  have hcut : ¬ (b.reverse.takeWhile (· ≠ '@')).length = b.reverse.length := by
    intro hlength
    have hself := (List.takeWhile_prefix (· ≠ '@')).eq_of_length hlength
    have hnone := List.takeWhile_eq_self_iff.mp hself '@' (List.mem_reverse.mpr h)
    simp at hnone
  rw [afterUser, List.reverse_append, List.takeWhile_append, if_neg hcut, afterUser]

/-- The host at the start of a text: in brackets, or before the port. -/
def leading (cs : List Char) : List Char :=
  match cs with
  | '[' :: _ => (cs.takeWhile (· ≠ ']')).dropWhile (· = '[')
  | _ => cs.takeWhile (· ≠ ':')

theorem leading_bracketed {text : List Char} (hopen : '[' ∉ text) (hclose : ']' ∉ text)
    (cs : List Char) : leading ('[' :: text ++ ']' :: cs) = text := by
  have hbefore : ']' ∉ '[' :: text := by
    rw [List.mem_cons, not_or]
    exact ⟨by decide, hclose⟩
  have hself : text.dropWhile (· = '[') = text := by
    cases text with
    | nil => rfl
    | cons c text =>
      have hc : ¬ c = '[' := fun heq => hopen (heq ▸ List.mem_cons_self)
      simp [hc]
  change List.dropWhile _ (List.takeWhile _ ('[' :: text ++ ']' :: cs)) = text
  rw [takeWhile_ne_append hbefore]
  simpa using hself

theorem leading_of_ne {c : Char} (hc : c ≠ '[') (cs : List Char) :
    leading (c :: cs) = (c :: cs).takeWhile (· ≠ ':') := by
  unfold leading
  split
  · next heq => exact absurd (List.cons.inj heq).1 hc
  · rfl

theorem host_eq (cs : List Char) :
    host (String.ofList cs) =
      String.ofList (leading (afterUser ((afterScheme cs).takeWhile (· ≠ '/')))) := by
  unfold host
  rw [String.toList_ofList]
  rfl

/-- With a proxy a service is called without it just if its host is exempt. -/
theorem decide_eq_direct_iff {proxy : String} (hproxy : Text.isAllBlank proxy = false)
    (rules : List String) (url : String) :
    decide (some proxy) rules url = .direct ↔ isExempt (host url) rules = true := by
  have htrim : (Text.trim proxy).isEmpty = false := by
    rw [Text.isEmpty_trim, hproxy]
  unfold decide
  cases isExempt (host url) rules <;> simp [htrim]

end Proxy

/-! ## The parts of a URL -/

namespace Url

variable (u : Url)

/-- The scheme with what divides it from the authority. -/
def schemePart : List Char := u.scheme.elim [] (· ++ [':', '/', '/'])

/-- The user with what divides it from the host. -/
def userPart : List Char := u.user.elim [] (· ++ ['@'])

/-- The port with what divides it from the host. -/
def portPart : List Char := u.port.elim [] (':' :: ·)

/-- The host with its port. -/
def site : List Char := u.host.written ++ u.portPart

/-- What stands between the scheme and whatever follows. -/
def authority : List Char := u.userPart ++ u.site

/-- The characters of a URL. -/
def chars : List Char := u.schemePart ++ (u.authority ++ u.rest)

/-- A URL as it is written. -/
def text : String := String.ofList u.chars

/-- What follows the authority up to the first slash. -/
def trail : List Char := u.rest.takeWhile (· ≠ '/')

theorem notMem_portPart {c : Char} (hc : c ∈ ['/', '@']) : c ∉ u.portPart := by
  unfold portPart
  cases hport : u.port with
  | none => simp
  | some p =>
    simp only [Option.elim_some, List.mem_cons, not_or]
    have hplain : c ∈ p → c ∉ ['/', '?', '#', '@'] := u.port_plain p hport c
    simp only [List.mem_cons, List.not_mem_nil, or_false] at hc hplain
    refine ⟨?_, fun hmem => hplain hmem ?_⟩
    · rcases hc with rfl | rfl <;> decide
    · rcases hc with rfl | rfl <;> simp

theorem notMem_site {c : Char} (hc : c ∈ ['/', '@']) : c ∉ u.site := by
  rw [site, List.mem_append, not_or]
  exact ⟨u.host.notMem_written hc, u.notMem_portPart hc⟩

theorem slash_notMem_authority : '/' ∉ u.authority := by
  rw [authority, List.mem_append, not_or]
  refine ⟨?_, u.notMem_site (by decide)⟩
  unfold userPart
  cases huser : u.user with
  | none => simp
  | some s =>
    have hplain : '/' ∈ s → '/' ∉ ['/', '?', '#', '@'] := u.user_plain s huser '/'
    simp only [Option.elim_some, List.mem_append, not_or]
    exact ⟨fun hmem => hplain hmem (by decide), by decide⟩

/-- The first slash behind the scheme is not in the authority. -/
theorem takeWhile_authority :
    (u.authority ++ u.rest).takeWhile (· ≠ '/') = u.authority ++ u.trail := by
  rw [takeWhile_ne_append u.slash_notMem_authority, trail]

/-- The user is left out. -/
theorem afterUser_authority (h : '@' ∉ u.trail) :
    Proxy.afterUser (u.authority ++ u.trail) = u.site ++ u.trail := by
  have hsite : '@' ∉ u.site ++ u.trail := by
    rw [List.mem_append, not_or]
    exact ⟨u.notMem_site (by decide), h⟩
  rw [authority, List.append_assoc]
  unfold userPart
  cases u.user with
  | none => exact Proxy.afterUser_of_notMem hsite
  | some s =>
    rw [Option.elim_some, List.append_assoc]
    exact Proxy.afterUser_append_cons hsite s

theorem trail_eq_nil_iff : u.trail = [] ↔ u.rest = [] ∨ u.rest.head? = some '/' := by
  unfold trail
  cases u.rest with
  | nil => simp
  | cons c rest => by_cases h : c = '/' <;> simp [h]

/-- No colon is the first of what follows the authority. -/
theorem takeWhile_trail_eq_nil_iff : u.trail.takeWhile (· ≠ ':') = [] ↔ u.trail = [] := by
  have hdelimited := u.rest_delimited
  unfold trail
  cases hrest : u.rest with
  | nil => simp
  | cons c rest =>
    rw [hrest] at hdelimited
    have hc : c ∈ ['/', '?', '#'] := hdelimited c rfl
    simp only [List.mem_cons, List.not_mem_nil, or_false] at hc
    rcases hc with rfl | rfl | rfl <;> simp

/-! ## What is found -/

/-- What is found where the host and whatever follows it are read: a name without a port is not told
from what follows. -/
theorem leading_site :
    Proxy.leading (u.site ++ u.trail) =
      if u.host.isAddress = true ∨ u.port.isSome = true then u.host.chars
      else u.host.chars ++ u.trail.takeWhile (· ≠ ':') := by
  unfold site
  cases u.host with
  | address text plain =>
    have hopen : '[' ∉ text := fun hmem => plain _ hmem (by decide)
    have hclose : ']' ∉ text := fun hmem => plain _ hmem (by decide)
    rw [if_pos (.inl rfl), UrlHost.written, List.append_assoc, List.append_assoc,
      List.singleton_append, Proxy.leading_bracketed hopen hclose, UrlHost.chars]
  | name text ne_nil plain =>
    obtain ⟨c, text, rfl⟩ := List.exists_cons_of_ne_nil ne_nil
    have hc : c ≠ '[' := by
      rintro rfl
      exact plain _ List.mem_cons_self (by decide)
    have hport : ':' ∉ c :: text := fun hmem => plain _ hmem (by decide)
    rw [UrlHost.written, List.append_assoc, List.cons_append, Proxy.leading_of_ne hc,
      ← List.cons_append, takeWhile_ne_append hport, UrlHost.chars]
    unfold portPart
    cases u.port <;> simp [UrlHost.isAddress]

/-- The text that is read in the place of the authority: what follows a `://` without a scheme
before it, or what follows an `@` behind the authority. -/
def decoy? : Option (List Char) :=
  match u.scheme, Proxy.afterScheme.find? u.chars with
  | none, some cs => some (Proxy.afterUser (cs.takeWhile (· ≠ '/')))
  | _, _ => if '@' ∈ u.trail then some (Proxy.afterUser u.trail) else none

/-- Behind the scheme, or where no `://` is: the authority is read, unless an `@` follows it. -/
theorem leading_authority :
    Proxy.leading (Proxy.afterUser ((u.authority ++ u.rest).takeWhile (· ≠ '/'))) =
      match if '@' ∈ u.trail then some (Proxy.afterUser u.trail) else none with
      | some other => Proxy.leading other
      | none =>
        if u.host.isAddress = true ∨ u.port.isSome = true then u.host.chars
        else u.host.chars ++ u.trail.takeWhile (· ≠ ':') := by
  rw [takeWhile_authority]
  by_cases h : '@' ∈ u.trail
  · rw [if_pos h, Proxy.afterUser_append_of_mem h]
  · rw [if_neg h, u.afterUser_authority h, leading_site]

/-- The host that is found: that of the text that is read for the authority, if another one is; and
else its own, with what follows up to a colon if nothing divides them. -/
theorem host_text :
    Proxy.host u.text = String.ofList (
      match u.decoy? with
      | some other => Proxy.leading other
      | none =>
        if u.host.isAddress = true ∨ u.port.isSome = true then u.host.chars
        else u.host.chars ++ u.trail.takeWhile (· ≠ ':')) := by
  rw [text, Proxy.host_eq]
  apply congrArg String.ofList
  unfold decoy?
  cases hscheme : u.scheme with
  | some s =>
    have hplain : ':' ∉ s := fun hmem => u.scheme_plain s hscheme _ hmem (by decide)
    have hchars : u.chars = s ++ ':' :: '/' :: '/' :: (u.authority ++ u.rest) := by
      simp [chars, schemePart, hscheme]
    rw [Proxy.afterScheme, hchars, Proxy.find?_append hplain, Option.getD_some]
    exact u.leading_authority
  | none =>
    have hchars : u.chars = u.authority ++ u.rest := by simp [chars, schemePart, hscheme]
    rw [Proxy.afterScheme]
    cases hfind : Proxy.afterScheme.find? u.chars with
    | some cs => rfl
    | none =>
      rw [Option.getD_none, hchars]
      exact u.leading_authority

example : Proxy.host "http://roku.local?mail=a@b" = "b" := by decide

example : Proxy.host "roku.local/go?to=http://b" = "b" := by decide

/-- When the host that is found is the host of the URL. -/
theorem host_text_eq_iff :
    Proxy.host u.text = String.ofList u.host.chars ↔
      match u.decoy? with
      | some other => Proxy.leading other = u.host.chars
      | none => u.trail = [] ∨ u.host.isAddress = true ∨ u.port.isSome = true := by
  rw [host_text, String.ofList_inj]
  cases u.decoy? with
  | some other => rfl
  | none =>
    by_cases h : u.host.isAddress = true ∨ u.port.isSome = true
    · simp [h]
    · simp only [h, if_false, List.append_right_eq_self, u.takeWhile_trail_eq_nil_iff,
        or_false]

/-- Behind a scheme and before a path the host is found. -/
theorem host_of_path (hscheme : u.scheme.isSome = true)
    (hrest : u.rest = [] ∨ u.rest.head? = some '/') :
    Proxy.host u.text = String.ofList u.host.chars := by
  have htrail : u.trail = [] := u.trail_eq_nil_iff.mpr hrest
  have hdecoy : u.decoy? = none := by
    obtain ⟨s, hs⟩ := Option.isSome_iff_exists.mp hscheme
    simp [decoy?, hs, htrail]
  rw [host_text_eq_iff, hdecoy]
  exact .inl htrail

/-! ## The decision -/

/-- The host of a URL is found; and with a proxy, its service is called without it just if that host
is exempt. -/
structure FindsHost : Prop where
  host : Proxy.host u.text = String.ofList u.host.chars
  decides : ∀ (proxy : String) (rules : List String), Text.isAllBlank proxy = false →
    (Proxy.decide (some proxy) rules u.text = .direct ↔
      Proxy.isExempt (String.ofList u.host.chars) rules = true)

/-- The host of a URL is found just if it ends the authority before a path, or brackets or a port
end it, and no other text is read in the place of the authority; or if that one has the same host. -/
theorem findsHost_iff :
    u.FindsHost ↔
      match u.decoy? with
      | some other => Proxy.leading other = u.host.chars
      | none => u.trail = [] ∨ u.host.isAddress = true ∨ u.port.isSome = true := by
  rw [← host_text_eq_iff]
  constructor
  · intro h
    exact h.host
  · intro h
    refine ⟨h, fun proxy rules hproxy => ?_⟩
    rw [Proxy.decide_eq_direct_iff hproxy, h]

/-- A service with a query behind its host. -/
def queried : Url where
  scheme := some "http".toList
  user := none
  host := .name "roku.local".toList (by simp) (by simp)
  port := none
  rest := "?q=1".toList
  scheme_plain := by simp
  user_plain := by simp
  port_plain := by simp
  rest_delimited := by simp

/-- The query is read as a part of the host, and a service is called through the proxy though its
host is exempt. -/
theorem misreads_query :
    queried.text = "http://roku.local?q=1" ∧
      Proxy.host queried.text = "roku.local?q=1" ∧
      Proxy.isExempt (String.ofList queried.host.chars) ["roku.local"] = true ∧
      Proxy.decide (some "http://proxy:3128") ["roku.local"] queried.text =
        .throughProxy "http://proxy:3128" ∧
      ¬ queried.FindsHost := by
  refine ⟨by decide, by decide, by decide, by decide, fun h => ?_⟩
  have hhost := h.host
  revert hhost
  decide

end Url

end Switchboard
