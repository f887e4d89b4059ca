import Switchboard.Orchestrate.Report
import Switchboard.Proofs.Json.Printer
import Mathlib.Data.List.Forall2

/-!
# One line for each step

* `Text.lines` : the lines of a text, `Text.lines_intercalate` : those of texts one below another;
* `Text.charStart?`, `Text.upTo?` : where a character starts in bytes, and what stands before;
* `RunReport.cutInBytes?_eq` : a line is cut where a character starts;
* `RunReport.Shortened`, `RunReport.Says`, `RunReport.Shows` : what a summary shows of a step;
* `RunReport.newline_notMem_line` : a break in a line is one of a text that the line quotes;
* `RunReport.lines_summary` : the lines of a summary are those of what it shows, step by step;
* `RunReport.oneLineEach_iff` : a summary has one line for each step if and only if no line break
  stands among the characters that it shows of a step.
-/

namespace Switchboard

namespace Text

/-! ## Lines -/

/-- The lines of a text; the empty one has none. -/
def lines (text : String) : List String :=
  if text = "" then [] else (text.toList.splitOn '\n').map String.ofList

/-- A piece between separators is a part of the list and has none of them. -/
theorem sublist_of_mem_splitOn {a : Char} {xs piece : List Char} (h : piece ∈ xs.splitOn a) :
    piece.Sublist xs ∧ a ∉ piece := by
  induction xs generalizing piece with
  | nil =>
    obtain rfl : piece = [] := by simpa using h
    exact ⟨.slnil, List.not_mem_nil⟩
  | cons x xs ih =>
    rw [List.splitOn_cons_eq_if_modifyHead] at h
    split at h
    · rcases List.mem_cons.mp h with rfl | h
      · exact ⟨List.nil_sublist _, List.not_mem_nil⟩
      · exact ⟨(ih h).1.cons x, (ih h).2⟩
    · next hx =>
      obtain ⟨first, rest, hpieces⟩ := List.exists_cons_of_ne_nil (List.splitOn_ne_nil a xs)
      rw [hpieces] at h ih
      rcases List.mem_cons.mp h with rfl | h
      · obtain ⟨hsub, hnot⟩ := ih List.mem_cons_self
        have hne : a ≠ x := fun heq => hx (beq_iff_eq.mpr heq.symm)
        exact ⟨hsub.cons_cons x, List.not_mem_cons_of_ne_of_not_mem hne hnot⟩
      · obtain ⟨hsub, hnot⟩ := ih (List.mem_cons_of_mem _ h)
        exact ⟨hsub.cons x, hnot⟩

/-- A line is a part of its text and has no line break. -/
theorem sublist_of_mem_lines {text line : String} (h : line ∈ lines text) :
    line.toList.Sublist text.toList ∧ '\n' ∉ line.toList := by
  unfold lines at h
  split at h
  · cases h
  · obtain ⟨piece, hpiece, rfl⟩ := List.mem_map.mp h
    rw [String.toList_ofList]
    exact sublist_of_mem_splitOn hpiece

theorem lines_of_notMem {text : String} (hne : text ≠ "") (h : '\n' ∉ text.toList) :
    lines text = [text] := by
  rw [lines, if_neg hne, List.splitOn_eq_singleton h, List.map_singleton, String.ofList_toList]

/-- Texts one below another have the lines of each of them. -/
theorem lines_intercalate {texts : List String} (h : ∀ t ∈ texts, t ≠ "") :
    lines ("\n".intercalate texts) = texts.flatMap lines := by
  induction texts with
  | nil => rfl
  | cons t texts ih =>
    obtain ⟨ht, hrest⟩ := List.forall_mem_cons.mp h
    cases texts with
    | nil => simp
    | cons u texts =>
      obtain ⟨hu, -⟩ := List.forall_mem_cons.mp hrest
      have hbelow : "\n".intercalate (u :: texts) ≠ "" := by
        cases texts <;> simp [hu]
      rw [List.flatMap_cons, ← ih hrest, String.intercalate_cons_cons, lines, lines, lines,
        if_neg ht, if_neg hbelow, if_neg (by simp [ht]), ← List.map_append, String.toList_append,
        String.toList_append, List.append_assoc]
      exact congrArg _ (List.splitOn_append_cons_self _ _)

theorem eq_append_drop (text : String) (n : Nat) :
    text = String.ofList (text.toList.take n) ++ String.ofList (text.toList.drop n) := by
  rw [← String.ofList_append, List.take_append_drop, String.ofList_toList]

/-! ## Bytes -/

/-- Where the character with a number starts, in bytes. -/
def charStart? : List Char → Nat → Option Nat
  | [], _ => none
  | _ :: _, 0 => some 0
  | c :: cs, n + 1 => (charStart? cs n).map (c.utf8Size + ·)

/-- What stands before an offset in bytes; nothing if it is not where a character starts. -/
def upTo? (text : String) (offset : Nat) : Option String :=
  (text.pos? ⟨offset⟩).map fun p => (text.sliceTo p).copy

theorem charStart?_eq (cs : List Char) (n : Nat) :
    charStart? cs n =
      if cs.length ≤ n then none else some (String.ofList (cs.take n)).utf8ByteSize := by
  induction cs generalizing n with
  | nil => simp [charStart?]
  | cons c cs ih =>
    cases n with
    | zero => simp [charStart?]
    | succ n =>
      rw [charStart?, ih]
      split
      · next hle => rw [if_pos (by simpa using hle)]; rfl
      · next hlt =>
        rw [if_neg (by simpa using hlt), List.take_succ_cons, String.ofList_cons,
          String.utf8ByteSize_append, String.utf8ByteSize_singleton]
        rfl

theorem upTo?_append (kept rest : String) : upTo? (kept ++ rest) kept.utf8ByteSize = some kept := by
  have hvalid : String.Pos.Raw.IsValid (kept ++ rest) ⟨kept.utf8ByteSize⟩ :=
    String.Pos.Raw.isValid_iff_exists_append.mpr ⟨kept, rest, rfl, rfl⟩
  have hpos : (kept ++ rest).pos? ⟨kept.utf8ByteSize⟩ = some (String.pos _ _ hvalid) := by
    rw [String.pos?, String.Slice.pos?, dif_pos (by simpa using hvalid)]
    rfl
  have hsplits : (String.pos _ _ hvalid).Splits kept rest := ⟨rfl, String.offset_pos⟩
  rw [upTo?, hpos, Option.map_some, hsplits.copy_sliceTo_eq]

end Text

namespace RunReport

open Text

/-! ## Cutting -/

/-- A line that is cut at the byte at which the first character starts that is too many; nothing if
no character starts there. -/
def cutInBytes? (limit : Nat) (text : String) : Option String :=
  match charStart? text.toList limit with
  | some offset => (upTo? text offset).map (· ++ "...")
  | none => some text

/-- A text as it is shown: all of it, or as many characters as there may be and dots. -/
inductive Shortened (limit : Nat) (text : String) : String → Prop
  | whole (h : text.length ≤ limit) : Shortened limit text text
  | short {kept rest : String} (h : text = kept ++ rest) (hkept : kept.length = limit)
    (hrest : rest ≠ "") : Shortened limit text (kept ++ "...")

variable {limit : Nat} {text : String}

/-- The line is always cut where a character starts. -/
theorem cutInBytes?_eq (limit : Nat) (text : String) :
    cutInBytes? limit text = some (cut limit text) := by
  rw [cutInBytes?, charStart?_eq, cut, String.length_toList]
  by_cases h : text.length ≤ limit
  · rw [if_pos h, if_pos h]
  · rw [if_neg h, if_neg h]
    have hupTo := upTo?_append (String.ofList (text.toList.take limit))
      (String.ofList (text.toList.drop limit))
    rw [← eq_append_drop] at hupTo
    dsimp only
    rw [hupTo, Option.map_some]

example : cutInBytes? 2 "aéü" = some "aé..." ∧ upTo? "aéü" 2 = none := by decide +kernel

theorem shortened_cut (limit : Nat) (text : String) : Shortened limit text (cut limit text) := by
  unfold cut
  split
  · next h => exact .whole h
  · next h =>
    refine .short (eq_append_drop text limit) ?_ ?_
    · rw [String.length_ofList, List.length_take, String.length_toList]
      omega
    · rw [Ne, String.ofList_eq_empty_iff, List.drop_eq_nil_iff, String.length_toList]
      exact h

theorem Shortened.eq_cut {line : String} (h : Shortened limit text line) :
    line = cut limit text := by
  cases h with
  | whole h => rw [cut, if_pos h]
  | @short kept rest h hkept hrest =>
    subst h
    have hlength : rest.length ≠ 0 := by simpa using hrest
    rw [cut, if_neg (by rw [String.length_append]; omega), String.toList_append,
      List.take_left' (by rwa [String.length_toList]), String.ofList_toList]

theorem Shortened.length_le {line : String} (h : Shortened limit text line) :
    line.length ≤ limit + 3 := by
  cases h with
  | whole h => omega
  | short h hkept hrest =>
    rw [String.length_append, hkept]
    exact Nat.le_refl _

theorem cut_ne_empty (h : text ≠ "") : cut limit text ≠ "" := by
  unfold cut
  split <;> simp [h]

theorem newline_notMem_cut_iff :
    '\n' ∉ (cut limit text).toList ↔ '\n' ∉ text.toList.take limit := by
  unfold cut
  split
  · next h => rw [List.take_of_length_le (by rwa [String.length_toList])]
  · simp

/-! ## What a line shows -/

/-- The name of a step. -/
def nameOf (step : Json) : String := ((step.get? "capability").bind Json.string?).getD "unknown"

/-- What a result says: its error, else its response, its text or its JSON. -/
inductive Says (result : Json) : String → Prop
  | error {wording : String} (h : errorOf result = some wording) :
    Says result ("failed (" ++ wording ++ ")")
  | response {text : String} (hno : errorOf result = none)
    (h : (result.get? "response").bind Json.string? = some text) : Says result text
  | text {text : String} (h : result = .str text) : Says result text
  | json (herror : errorOf result = none)
    (hresponse : (result.get? "response").bind Json.string? = none)
    (htext : result.string? = none) : Says result result.compact

/-- A line shows the name of a step and what its result says, cut when it is too long. -/
def Shows (step : Json) (line : String) : Prop :=
  ∃ said, Says (step.getD "result") said ∧ Shortened lineLimit (nameOf step ++ ": " ++ said) line

/-- The text that a result quotes, unless it is told in JSON. -/
def quoted? (result : Json) : Option String :=
  errorOf result <|> (result.get? "response").bind Json.string? <|> result.string?

theorem says_resultText (result : Json) : Says result (resultText result) := by
  unfold resultText
  split
  · next h => exact .error h
  · next hno h => exact .response hno h
  · exact .text rfl
  · next result _ _ _ hother herror hresponse =>
    refine .json herror hresponse ?_
    cases result with
    | str s => exact absurd rfl (hother s)
    | _ => rfl

theorem Says.eq_resultText {result : Json} (h : Says result text) : text = resultText result := by
  cases h with
  | error h => simp only [resultText, h]
  | response hno h => simp only [resultText, hno, h]
  -- a string has no fields, so it has neither error nor response
  | text h => subst h; rfl
  | json herror hresponse htext =>
    unfold resultText
    rw [herror, hresponse]
    cases result with
    | str s => cases htext
    | _ => rfl

theorem shows_iff {step : Json} {shown : String} :
    Shows step shown ↔ shown = cut lineLimit (line step) := by
  constructor
  · rintro ⟨said, hsaid, hshown⟩
    rw [hshown.eq_cut, hsaid.eq_resultText]
    rfl
  · rintro rfl
    exact ⟨_, says_resultText _, shortened_cut _ _⟩

/-- What a result says is on one line unless a text that it quotes is not. -/
theorem Says.newline_notMem {result : Json} (h : Says result text)
    (hquoted : ∀ t ∈ quoted? result, '\n' ∉ t.toList) : '\n' ∉ text.toList := by
  cases h with
  | error h =>
    have hwording := hquoted _ (by rw [quoted?, h]; rfl)
    simp [hwording]
  | response hno h => exact hquoted _ (by rw [quoted?, hno, h]; rfl)
  | text h => exact hquoted _ (by subst h; rfl)
  | json => exact (Json.graphic_compact _).newline_notMem

/-- A line has no break but those of the name of its step and of the text that it quotes. -/
theorem newline_notMem_line {step : Json} (hname : '\n' ∉ (nameOf step).toList)
    (hquoted : ∀ t ∈ quoted? (step.getD "result"), '\n' ∉ t.toList) :
    '\n' ∉ (line step).toList := by
  have hsaid := (says_resultText (step.getD "result")).newline_notMem hquoted
  have hline : line step = nameOf step ++ ": " ++ resultText (step.getD "result") := rfl
  rw [hline, String.toList_append, String.toList_append, List.mem_append, List.mem_append]
  exact not_or.mpr ⟨not_or.mpr ⟨hname, by decide⟩, hsaid⟩

theorem line_ne_empty (step : Json) : line step ≠ "" := by
  simp [line]

/-! ## Summaries -/

/-- A summary has one line for each step, in order, and this line shows the step. -/
def OneLineEach (r : RunReport) : Prop := List.Forall₂ Shows r.history (lines r.summary)

theorem forall₂_shows_iff {steps : List Json} {shown : List String} :
    List.Forall₂ Shows steps shown ↔ shown = steps.map fun step => cut lineLimit (line step) := by
  constructor
  · intro h
    induction h with
    | nil => rfl
    | cons hshows _ ih => rw [List.map_cons, shows_iff.mp hshows, ih]
  · rintro rfl
    rw [List.forall₂_map_right_iff, List.forall₂_same]
    exact fun _ _ => shows_iff.mpr rfl

/-- Steps are shown one below another, each by its lines. -/
theorem lines_summary {r : RunReport} (h : r.results ≠ []) :
    lines r.summary = (r.history.map fun step => cut lineLimit (line step)).flatMap lines := by
  rw [summary, if_neg (by simpa [isEmpty] using h)]
  refine lines_intercalate fun t ht => ?_
  obtain ⟨step, -, rfl⟩ := List.mem_map.mp ht
  exact cut_ne_empty (line_ne_empty step)

theorem oneLineEach_iff_forall {r : RunReport} (h : r.results ≠ []) :
    OneLineEach r ↔ ∀ step ∈ r.history, '\n' ∉ (line step).toList.take lineLimit := by
  rw [OneLineEach, forall₂_shows_iff]
  constructor
  · intro hlines step hstep
    have hmem : cut lineLimit (line step) ∈ lines r.summary := by
      rw [hlines]
      exact List.mem_map_of_mem hstep
    exact newline_notMem_cut_iff.mp (sublist_of_mem_lines hmem).2
  · intro hunbroken
    have hsingle : ∀ t ∈ r.history.map fun step => cut lineLimit (line step), lines t = [t] := by
      intro t ht
      obtain ⟨step, hstep, rfl⟩ := List.mem_map.mp ht
      exact lines_of_notMem (cut_ne_empty (line_ne_empty step))
        (newline_notMem_cut_iff.mpr (hunbroken step hstep))
    rw [lines_summary h, List.flatMap_congr hsingle, List.flatMap_singleton']

/-- A summary with lines that are cut in bytes; nothing if one cannot be cut. -/
def summaryInBytes? (r : RunReport) : Option String :=
  if r.isEmpty then some nothingDone
  else (r.history.mapM fun step => cutInBytes? lineLimit (line step)).map "\n".intercalate

theorem summaryInBytes?_eq (r : RunReport) : r.summaryInBytes? = some r.summary := by
  have hlines : (r.history.mapM fun step => cutInBytes? lineLimit (line step)) =
      some (r.history.map fun step => cut lineLimit (line step)) := by
    simp only [cutInBytes?_eq]
    exact List.mapM_pure
  rw [summaryInBytes?, summary, hlines]
  split <;> rfl

/-- **A summary and the steps it gives account of.** No line of a summary fails to be cut, and none
has more than the greatest number of characters and the dots. It shows the steps of the history one
below another, each with its name and what its result says. There is one line for each step if and
only if no line break stands among those characters of a step that are shown. The break is then
one of its name, or of a text that its result quotes: what is told in JSON is on one line. -/
theorem oneLineEach_iff (r : RunReport) (h : r.results ≠ []) :
    r.summaryInBytes? = some r.summary ∧
    (∀ l ∈ lines r.summary, l.length ≤ lineLimit + 3) ∧
    (∃ shown, List.Forall₂ Shows r.history shown ∧ lines r.summary = shown.flatMap lines) ∧
    (OneLineEach r ↔ ∀ step ∈ r.history, '\n' ∉ (line step).toList.take lineLimit) ∧
    ((∀ step ∈ r.history, '\n' ∉ (nameOf step).toList ∧
      ∀ t ∈ quoted? (step.getD "result"), '\n' ∉ t.toList) → OneLineEach r) := by
  refine ⟨summaryInBytes?_eq r, fun l hl => ?_,
    ⟨_, forall₂_shows_iff.mpr rfl, lines_summary h⟩, oneLineEach_iff_forall h, fun hplain => ?_⟩
  · rw [lines_summary h] at hl
    obtain ⟨shown, hshown, hl⟩ := List.mem_flatMap.mp hl
    obtain ⟨step, -, rfl⟩ := List.mem_map.mp hshown
    have hle := (sublist_of_mem_lines hl).1.length_le
    rw [String.length_toList, String.length_toList] at hle
    exact Nat.le_trans hle (shortened_cut ..).length_le
  · refine (oneLineEach_iff_forall h).mpr fun step hstep hmem => ?_
    obtain ⟨hname, hquoted⟩ := hplain step hstep
    exact newline_notMem_line hname hquoted (List.mem_of_mem_take hmem)

/-- A step that answers in a text, and one without a name whose result is told in JSON. -/
theorem one_line_for_each_of_two :
    let r : RunReport :=
      { requestId := "r", results := [("a", .null)],
        history := [
          .obj [("capability", .str "a"), ("result", .obj [("response", .str "é")])],
          .obj [("result", .arr [.str "x\ny"])]] }
    r.results ≠ [] ∧ OneLineEach r ∧ lines r.summary = ["a: é", "unknown: [\"x\\ny\"]"] := by
  intro r
  have hresults : r.results ≠ [] := by simp [r]
  obtain ⟨-, -, -, hiff, -⟩ := oneLineEach_iff r hresults
  exact ⟨hresults, hiff.mpr (by decide +kernel), by decide +kernel⟩

/-- A response of two lines takes two lines of the summary. -/
theorem two_lines_for_one_step :
    let result : Json := .obj [("response", .str "x\ny")]
    let r : RunReport :=
      { requestId := "r", results := [("a", result)],
        history := [.obj [("capability", .str "a"), ("result", result)]] }
    r.results ≠ [] ∧ r.history.length = 1 ∧ lines r.summary = ["a: x", "y"] ∧ ¬ OneLineEach r := by
  intro result r
  have hlines : lines r.summary = ["a: x", "y"] := by decide +kernel
  refine ⟨by simp [r], rfl, hlines, fun hone => ?_⟩
  have hlength := hone.length_eq
  rw [hlines] at hlength
  exact absurd hlength (by decide)

end RunReport

end Switchboard
