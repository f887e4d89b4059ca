import Switchboard.Http.Proxy

/-!
# Which hosts a rule covers

A rule is compared with the characters at the end of a host, and it is meant to speak of the labels
of the host, the parts between its dots. The dot that stands before the domain of a rule makes both
the same: where the characters match, they match from the start of a label.

* `Proxy.labels` : the labels of a host; `Proxy.labels_suffix_iff`, `Proxy.labels_below_iff` : what
  it is in characters that one host ends with the labels of another;
* `HostRule` : a rule by its shape; `HostRule.written` : the rule as it is written;
  `HostRule.Covers` : what it says of the labels of a host;
* `Proxy.ruleCovers_written` : what a written rule covers; `Proxy.exists_written` : every text is
  one;
* `Proxy.isExempt_iff_covers` : the hosts that are called without the proxy.
-/

namespace Switchboard

namespace Proxy

/-! ## Labels -/

/-- The labels of a host, between its dots. -/
def labels (host : List Char) : List (List Char) := host.splitOn '.'

variable {domain host : List Char}

theorem labels_append (before domain : List Char) :
    labels (before ++ '.' :: domain) = labels before ++ labels domain :=
  List.splitOn_append_cons_self before domain

theorem labels_ne_nil (host : List Char) : labels host ≠ [] := List.splitOn_ne_nil '.' host

/-- Labels with dots between them are the host again. -/
theorem intercalate_labels (host : List Char) : ['.'].intercalate (labels host) = host :=
  List.intercalate_splitOn '.'

theorem labels_inj : labels domain = labels host ↔ domain = host := by
  refine ⟨fun h => ?_, congrArg labels⟩
  rw [← intercalate_labels domain, h, intercalate_labels]

/-- More labels before those of a domain end in a dot. -/
theorem exists_intercalate_append {more : List (List Char)} (hmore : more ≠ [])
    (domain : List Char) :
    ∃ before, ['.'].intercalate (more ++ labels domain) = before ++ '.' :: domain := by
  induction more with
  | nil => exact absurd rfl hmore
  | cons label more ih =>
    have hrest : more ++ labels domain ≠ [] :=
      List.append_ne_nil_of_right_ne_nil more (labels_ne_nil domain)
    rw [List.cons_append, List.intercalate_cons_of_ne_nil hrest]
    cases more with
    | nil => exact ⟨label, by simp [intercalate_labels]⟩
    | cons next more =>
      obtain ⟨before, hbefore⟩ := ih (List.cons_ne_nil next more)
      refine ⟨label ++ '.' :: before, ?_⟩
      rw [hbefore, List.append_assoc, List.append_assoc]
      rfl

/-- A host has more labels before those of a domain just if it ends with the domain and the dot
before it. -/
theorem labels_below_iff :
    (labels domain <:+ labels host ∧ labels domain ≠ labels host) ↔ '.' :: domain <:+ host := by
  constructor
  · rintro ⟨⟨more, hmore⟩, hproper⟩
    have hne : more ≠ [] := by
      rintro rfl
      exact hproper hmore
    obtain ⟨before, hbefore⟩ := exists_intercalate_append hne domain
    rw [hmore, intercalate_labels] at hbefore
    exact ⟨before, hbefore.symm⟩
  · rintro ⟨before, rfl⟩
    rw [labels_append]
    refine ⟨List.suffix_append _ _, fun heq => labels_ne_nil before ?_⟩
    exact List.self_eq_append_left.mp heq

/-- A host ends with the labels of a domain just if it is the domain, or ends with it and the dot
before it. -/
theorem labels_suffix_iff :
    labels domain <:+ labels host ↔ host = domain ∨ '.' :: domain <:+ host := by
  rw [← labels_below_iff]
  by_cases h : host = domain
  · simp [h]
  · have hne : labels domain ≠ labels host := fun heq => h (labels_inj.mp heq).symm
    simp [h, hne]

end Proxy

/-! ## Rules -/

/-- A rule by its shape. -/
inductive HostRule where
  /-- What lies below a domain. -/
  | below (domain : List Char)
  /-- A domain and what lies below it. -/
  | within (domain : List Char)
  /-- One host. -/
  | only (host : List Char) (star : ¬ ['*', '.'] <+: host) (dot : ¬ ['.'] <+: host)

namespace HostRule

/-- A rule as it is written. -/
def written : HostRule → List Char
  | below domain => '*' :: '.' :: domain
  | within domain => '.' :: domain
  | only host .. => host

/-- The domain or the host that a rule names. -/
def named : HostRule → List Char
  | below domain | within domain => domain
  | only host .. => host

/-- What a rule says of the labels of a host. -/
def Covers (host : List Char) : HostRule → Prop
  | below domain =>
    Proxy.labels domain <:+ Proxy.labels host ∧ Proxy.labels domain ≠ Proxy.labels host
  | within domain => Proxy.labels domain <:+ Proxy.labels host
  | only name .. => host = name

/-- A rule does not cover a host that goes on with other characters before the name. -/
theorem not_covers_inside {c : Char} (hc : c ≠ '.') (rule : HostRule) (before : List Char) :
    ¬ rule.Covers (before ++ c :: rule.named) := by
  have hlonger : ∀ name : List Char, before ++ c :: name ≠ name := by
    intro name heq
    have hlength := congrArg List.length heq
    simp at hlength
    omega
  have hdot : ∀ name : List Char, ¬ '.' :: name <:+ before ++ c :: name := by
    intro name hsuffix
    have hsame : '.' :: name <:+ c :: name :=
      List.suffix_of_suffix_length_le hsuffix (List.suffix_append before _) (Nat.le_refl _)
    exact hc (List.cons.inj (hsame.eq_of_length rfl)).1.symm
  cases rule with
  | below domain => exact fun h => hdot domain (Proxy.labels_below_iff.mp h)
  | within domain =>
    intro h
    rcases Proxy.labels_suffix_iff.mp h with heq | hsuffix
    · exact hlonger domain heq
    · exact hdot domain hsuffix
  | only name star dot => exact hlonger name

end HostRule

namespace Proxy

/-- A written rule covers the hosts that it speaks of. -/
theorem ruleCovers_written (rule : HostRule) (host : List Char) :
    ruleCovers rule.written host = true ↔ rule.Covers host := by
  cases rule with
  | below domain =>
    rw [HostRule.Covers, labels_below_iff, ← List.isSuffixOf_iff_suffix]
    rfl
  | within domain =>
    rw [HostRule.Covers, labels_suffix_iff, ← List.isSuffixOf_iff_suffix]
    simp [HostRule.written, ruleCovers]
  | only name star dot =>
    change ruleCovers name host = true ↔ host = name
    unfold ruleCovers
    split
    · next domain => exact absurd (List.prefix_append ['*', '.'] domain) star
    · next domain => exact absurd (List.prefix_append ['.'] domain) dot
    · exact decide_eq_true_iff

/-- Every text is a rule. -/
theorem exists_written (text : List Char) : ∃ rule : HostRule, rule.written = text := by
  by_cases hstar : ['*', '.'] <+: text
  · obtain ⟨domain, rfl⟩ := hstar
    exact ⟨.below domain, rfl⟩
  by_cases hdot : ['.'] <+: text
  · obtain ⟨domain, rfl⟩ := hdot
    exact ⟨.within domain, rfl⟩
  · exact ⟨.only text hstar hdot, rfl⟩

/-- A host is exempt if one of the rules is not blank and covers it. -/
theorem isExempt_iff (host : String) (rules : List String) :
    isExempt host rules = true ↔
      ∃ rule ∈ rules, normalize rule ≠ [] ∧
        ruleCovers (normalize rule) (Text.lower host).toList = true := by
  simp [isExempt]

/-- **Rules speak of labels.** A host is called without the proxy just if one of the rules, without
blanks around it and in lower case, is not empty and says so of the labels of the host in lower
case. Rules do not cover a host that ends with the name in the middle of a label, and more rules,
or the same ones in another order, cover all that was covered. -/
theorem isExempt_iff_covers (host : String) (rules : List String) :
    (isExempt host rules = true ↔
      ∃ text ∈ rules, normalize text ≠ [] ∧
        ∃ rule : HostRule, rule.written = normalize text ∧
          rule.Covers (Text.lower host).toList) ∧
    (∀ (text : String) (rule : HostRule) (before : List Char) (c : Char),
      rule.written = normalize text → c ≠ '.' →
        (Text.lower host).toList = before ++ c :: rule.named → isExempt host [text] = false) ∧
    ∀ more : List String, rules ⊆ more → isExempt host rules = true →
      isExempt host more = true := by
  refine ⟨?_, fun text rule before c hwritten hc hhost => ?_, fun more hmore hexempt => ?_⟩
  · rw [isExempt_iff]
    refine exists_congr fun text => and_congr_right fun _ => and_congr_right fun _ => ?_
    constructor
    · intro hcovers
      obtain ⟨rule, hwritten⟩ := exists_written (normalize text)
      rw [← hwritten, ruleCovers_written] at hcovers
      exact ⟨rule, hwritten, hcovers⟩
    · rintro ⟨rule, hwritten, hcovers⟩
      rw [← hwritten, ruleCovers_written]
      exact hcovers
  · rw [Bool.eq_false_iff, Ne, isExempt_iff]
    rintro ⟨other, hother, -, hcovers⟩
    obtain rfl := List.mem_singleton.mp hother
    rw [← hwritten, ruleCovers_written, hhost] at hcovers
    exact rule.not_covers_inside hc before hcovers
  · obtain ⟨text, htext, hcovers⟩ := (isExempt_iff host rules).mp hexempt
    exact (isExempt_iff host more).mpr ⟨text, hmore htext, hcovers⟩

/-- A rule in capitals between blanks covers a host below its domain, among other rules too, and
none whose first label ends with the name of the domain. -/
theorem isExempt_below_bridge :
    let rule : HostRule := .below "hue-bridge.net".toList
    rule.written = normalize " *.Hue-Bridge.NET " ∧
      rule.Covers (Text.lower "API.hue-bridge.net").toList ∧
      isExempt "API.hue-bridge.net" ["", " *.Hue-Bridge.NET "] = true ∧
      isExempt "API.hue-bridge.net" [" *.Hue-Bridge.NET ", "localhost", ""] = true ∧
      isExempt "api-hue-bridge.net" [" *.Hue-Bridge.NET "] = false := by
  intro rule
  have hwritten : rule.written = normalize " *.Hue-Bridge.NET " := by decide
  have hcovers : rule.Covers (Text.lower "API.hue-bridge.net").toList :=
    labels_below_iff.mpr ⟨"api".toList, by decide⟩
  obtain ⟨hiff, -, hmore⟩ := isExempt_iff_covers "API.hue-bridge.net" ["", " *.Hue-Bridge.NET "]
  obtain ⟨-, hinside, -⟩ := isExempt_iff_covers "api-hue-bridge.net" []
  have hexempt := hiff.mpr ⟨_, by simp, by decide, rule, hwritten, hcovers⟩
  exact ⟨hwritten, hcovers, hexempt, hmore _ (by simp) hexempt,
    hinside _ rule "api".toList '-' hwritten (by decide) (by decide)⟩

end Proxy

end Switchboard
