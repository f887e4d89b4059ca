import Switchboard.Collect.Basic
import Switchboard.Proofs.Json.Fields

/-!
# What merged replies keep

The fields of all objects come under one roof: the first value under a key stays, and arrays under
one key become one. Texts, values that are no objects and the first error are put beside them, under
three keys that the objects may use as well.

* `united` : what becomes of the values under one key;
* `Merging.unite`, `Merging.addField_eq`, `Merging.add_eq` : one more field, one more reply;
* `Merging.ofReplies_eq` : all replies, as fields, texts and values apart;
* `Merging.get?_complete`, `Merging.filter_keys_complete` : what stands under a key, and in which
  order the keys come; `Merging.nodup_keys_merge` : no key comes twice;
* `merge_unites` : under a key without a meaning of its own stands what the objects have there;
* `preserves_iff` : when no text, no value and no error is lost.
-/

namespace Switchboard

/-! ## The values under one key -/

/-- What becomes of the values under one key: the first stays, and if it is an array the items of
the later arrays follow its own. -/
def united : List Json → Option Json
  | [] => none
  | .arr items :: later => some (.arr (items ++ (later.filterMap Json.items?).flatten))
  | value :: _ => some value

/-- A value under a key that may have one. -/
def joined : Option Json → Json → Json
  | none, value => value
  | some (.arr items), .arr more => .arr (items ++ more)
  | some old, _ => old

theorem united_concat (values : List Json) (value : Json) :
    united (values ++ [value]) = some (joined (united values) value) := by
  cases values with
  | nil => cases value <;> simp [united, joined]
  | cons first later =>
    cases first with
    | arr items => cases value <;> simp [united, joined, Json.items?]
    | _ => rfl

theorem united_eq_none_iff {values : List Json} : united values = none ↔ values = [] := by
  cases values with
  | nil => simp [united]
  | cons first later => cases first <;> simp [united]

/-- The text of a reply: a string, or what stands under `response` in an object. -/
def Json.text? : Json → Option String
  | .str text => some text
  | .obj fields => (Fields.get? fields "response").bind string?
  | _ => none

/-- Booleans, numbers and arrays, which have neither fields nor a text. -/
def Json.isLoose : Json → Bool
  | .bool _ | .num _ | .arr _ => true
  | _ => false

namespace Merging

/-! ## One more reply -/

/-- Fields with one more. -/
def unite (fields : Fields) (entry : String × Json) : Fields :=
  match fields.get? entry.1, entry.2 with
  | none, value => fields.insert entry.1 value
  | some (.arr items), .arr more => fields.insert entry.1 (.arr (items ++ more))
  | some _, _ => fields

theorem get?_unite (fields : Fields) (entry : String × Json) (key : String) :
    (unite fields entry).get? key =
      if key = entry.1 then some (joined (fields.get? key) entry.2) else fields.get? key := by
  unfold unite
  split
  · next hnone =>
    rw [Fields.get?_insert]
    split
    · next heq => rw [heq, hnone]; rfl
    · rfl
  · next hitems hmore =>
    rw [Fields.get?_insert]
    split
    · next heq => rw [heq, hitems, hmore]; rfl
    · rfl
  · next old hold hother =>
    split
    · next heq =>
      rw [heq, hold]
      cases old with
      | arr items =>
        cases hvalue : entry.2 with
        | arr more => exact (hother items more hvalue rfl).elim
        | _ => rfl
      | _ => rfl
    · rfl

theorem keys_unite (fields : Fields) (entry : String × Json) :
    (unite fields entry).map (·.1) =
      if entry.1 ∈ fields.map (·.1) then fields.map (·.1)
      else fields.map (·.1) ++ [entry.1] := by
  unfold unite
  split
  · exact Fields.keys_insert fields entry.1 _
  · exact Fields.keys_insert fields entry.1 _
  · next hsome _ =>
    have hmem : entry.1 ∈ fields.map (·.1) := by
      rw [← Fields.isSome_get?_iff, hsome]
      rfl
    rw [if_pos hmem]

/-- The text that a field of an object is taken for, if it is one. -/
def textOf? (entry : String × Json) : Option String :=
  if entry.1 = "response" then entry.2.string? else none

theorem addField_eq (m : Merging) (entry : String × Json) :
    m.addField entry.1 entry.2 =
      match textOf? entry with
      | some text => { m with texts := m.texts ++ [text] }
      | none => { m with fields := unite m.fields entry } := by
  obtain ⟨key, value⟩ := entry
  unfold addField
  split
  · next text hkey hvalue =>
    obtain rfl : value = .str text := hvalue
    have htext : textOf? (key, .str text) = some text := if_pos (by simpa using hkey)
    rw [htext]
  · next hnot =>
    have hnone : textOf? (key, value) = none := by
      unfold textOf?
      split
      · next hkey =>
        cases value with
        | str text => exact (hnot text (by simpa using hkey) rfl).elim
        | _ => rfl
      · rfl
    rw [hnone]
    unfold unite
    dsimp only
    cases Fields.get? m.fields key with
    | none => rfl
    | some old => cases old <;> cases value <;> rfl

/-- The fields of a reply that are no texts. -/
def entriesOf : Json → Fields
  | .obj fields => fields.filter fun entry => (textOf? entry).isNone
  | _ => []

/-- The texts of a reply, of which a value that repeats no key has one at most. -/
def textsOf : Json → List String
  | .str text => [text]
  | .obj fields => fields.filterMap textOf?
  | _ => []

theorem foldl_addField (m : Merging) (fields : Fields) :
    fields.foldl (fun m entry => m.addField entry.1 entry.2) m =
      { m with
        fields := (entriesOf (.obj fields)).foldl unite m.fields
        texts := m.texts ++ textsOf (.obj fields) } := by
  induction fields generalizing m with
  | nil => simp [entriesOf, textsOf]
  | cons entry rest ih =>
    rw [List.foldl_cons, ih, addField_eq]
    cases htext : textOf? entry <;> simp [entriesOf, textsOf, htext]

theorem add_eq (m : Merging) (v : Json) :
    m.add v =
      { fields := (entriesOf v).foldl unite m.fields
        texts := m.texts ++ textsOf v
        loose := m.loose ++ [v].filter Json.isLoose } := by
  cases v with
  | obj fields =>
    rw [add, foldl_addField]
    simp [Json.isLoose]
  | _ => simp [add, entriesOf, textsOf, List.filter_cons, Json.isLoose]

/-! ## All replies -/

/-- Replies as they are merged. -/
def ofReplies (responses : List (String × Json)) : Merging :=
  responses.foldl (fun m reply => m.add reply.2) {}

/-- The fields of some replies that are no texts, one after another. -/
def entries (responses : List (String × Json)) : Fields :=
  responses.flatMap fun reply => entriesOf reply.2

theorem ofReplies_eq (responses : List (String × Json)) :
    ofReplies responses =
      { fields := (entries responses).foldl unite []
        texts := responses.flatMap fun reply => textsOf reply.2
        loose := (responses.map (·.2)).filter Json.isLoose } := by
  induction responses using List.reverseRecOn with
  | nil => rfl
  | append_singleton responses reply ih =>
    have hsnoc : ofReplies (responses ++ [reply]) = (ofReplies responses).add reply.2 := by
      simp [ofReplies]
    rw [hsnoc, ih, add_eq]
    simp [entries]

/-- Under a key stands what becomes of all values under it. -/
theorem get?_foldl_unite (es : Fields) (key : String) :
    Fields.get? (es.foldl unite []) key = united ((es.filter (·.1 == key)).map (·.2)) := by
  induction es using List.reverseRecOn with
  | nil => rfl
  | append_singleton es entry ih =>
    rw [List.foldl_concat, get?_unite, ih, List.filter_append, List.map_append]
    by_cases h : key = entry.1
    · simp [h, united_concat]
    · have hne : ¬ entry.1 = key := Ne.symm h
      simp [h, hne]

/-- The keys come in the order in which they occur for the first time. -/
theorem keys_foldl_unite (es : Fields) :
    (es.foldl unite []).map (·.1) = (es.map (·.1)).eraseDups := by
  induction es using List.reverseRecOn with
  | nil => rfl
  | append_singleton es entry ih =>
    rw [List.foldl_concat, keys_unite, ih, List.map_append, List.map_singleton, eraseDups_concat]
    simp only [List.mem_eraseDups, List.contains_iff_mem]

/-! ## What is put beside the fields -/

theorem get?_offer (fields : Fields) (key : String) (value : Json) (k : String) :
    (offer fields key value).get? k =
      (fields.get? k).or (if k = key then some value else none) := by
  unfold offer
  split
  · next hhas =>
    split
    · next heq =>
      obtain ⟨old, hold⟩ : ∃ old, fields.get? key = some old :=
        Option.isSome_iff_exists.mp
          ((fields.isSome_get?_iff key).mpr ((fields.has_iff key).mp hhas))
      rw [heq, hold]
      rfl
    · rw [Option.or_none]
  · next hhas =>
    rw [Fields.get?_insert]
    split
    · next heq =>
      have hnone : fields.get? key = none :=
        (fields.get?_eq_none_iff key).mpr fun hmem => hhas ((fields.has_iff key).mpr hmem)
      rw [heq, hnone]
      rfl
    · rw [Option.or_none]

/-- How an error is told in a merge. -/
def errorText (error : String × Json) : String :=
  error.1 ++ ": " ++ (FaultReport.ofContent error.2).message

/-- The texts as they stand in a merge. -/
def text (m : Merging) : String := "\n".intercalate m.texts

/-- The fields, and what is put beside them. -/
def complete (m : Merging) (errors : List (String × Json)) : Fields :=
  let fields := if m.texts.isEmpty then m.fields else m.fields.insert "response" (.str m.text)
  let fields := if m.loose.isEmpty then fields else offer fields "values" (.arr m.loose)
  match errors with
  | [] => fields
  | e :: _ => offer fields "error" (.str (errorText e))

theorem merge_eq (responses errors : List (String × Json)) :
    merge responses errors = .obj ((ofReplies responses).complete errors) := by
  cases errors <;> rfl

variable (m : Merging) (errors : List (String × Json))

/-- The texts come in the place of a field, and the rest only where there is no field. -/
theorem get?_complete (key : String) :
    (m.complete errors).get? key =
      if key = "response" ∧ m.texts ≠ [] then some (.str m.text)
      else (Fields.get? m.fields key).or
        (if key = "values" ∧ m.loose ≠ [] then some (.arr m.loose)
        else if key = "error" then errors.head?.map fun e => .str (errorText e) else none) := by
  unfold complete
  cases m.texts <;> cases m.loose <;> cases errors <;>
    simp [get?_offer, Fields.get?_insert] <;> grind

/-- The keys under which a merge puts something of its own. -/
def ownKeys : List String := ["response", "values", "error"]

/-- What the fields satisfy, a merge satisfies if a write under one of its own keys keeps it. -/
theorem complete_induction {P : Fields → Prop} (hfields : P m.fields)
    (hinsert : ∀ fields : Fields, ∀ key ∈ ownKeys, ∀ value, P fields →
      P (fields.insert key value)) :
    P (m.complete errors) := by
  have hoffer : ∀ fields : Fields, ∀ key ∈ ownKeys, ∀ value, P fields →
      P (offer fields key value) := by
    intro fields key hown value hP
    unfold offer
    split
    · exact hP
    · exact hinsert fields key hown value hP
  have htexts : P (if m.texts.isEmpty then m.fields
      else m.fields.insert "response" (.str m.text)) := by
    split
    · exact hfields
    · exact hinsert _ _ (by decide) _ hfields
  unfold complete
  dsimp only
  generalize (if m.texts.isEmpty then m.fields
    else m.fields.insert "response" (.str m.text)) = fields at htexts ⊢
  have hloose : P (if m.loose.isEmpty then fields
      else offer fields "values" (.arr m.loose)) := by
    split
    · exact htexts
    · exact hoffer _ _ (by decide) _ htexts
  cases errors with
  | nil => exact hloose
  | cons e errors => exact hoffer _ _ (by decide) _ hloose

/-- The other keys stay where they are. -/
theorem filter_keys_complete :
    ((m.complete errors).map (·.1)).filter (· ∉ ownKeys) =
      (m.fields.map (·.1)).filter (· ∉ ownKeys) := by
  apply complete_induction m errors (P := fun fields =>
    (fields.map (·.1)).filter (· ∉ ownKeys) = (m.fields.map (·.1)).filter (· ∉ ownKeys))
  · rfl
  · intro fields key hown value ih
    rw [Fields.keys_insert, ← ih]
    split
    · rfl
    · simp [hown]

/-- A merge repeats no key, whatever is merged. -/
theorem nodup_keys_merge (responses errors : List (String × Json)) :
    (merge responses errors).keys.Nodup := by
  rw [merge_eq]
  apply complete_induction (P := fun fields => (fields.map (·.1)).Nodup)
  · rw [ofReplies_eq, keys_foldl_unite]
    exact nodup_eraseDups _
  · intro fields key _ value hd
    exact Fields.nodup_keys_insert fields key hd value

/-! ## Objects without repeated keys -/

/-- Under a key other than `response` stand no texts. -/
theorem filter_entriesOf (v : Json) {key : String} (hne : key ≠ "response") :
    (entriesOf v).filter (·.1 == key) = (v.fields?.getD []).filter (·.1 == key) := by
  cases v with
  | obj fields =>
    rw [entriesOf, List.filter_filter]
    refine List.filter_congr fun entry _ => ?_
    by_cases h : entry.1 = key
    · have hnot : ¬ entry.1 = "response" := h ▸ hne
      simp [textOf?, hnot]
    · simp [h]
  | _ => rfl

section Distinct

variable {v : Json} (hd : v.keys.Nodup)

include hd

theorem textsOf_eq : textsOf v = v.text?.toList := by
  cases v with
  | obj fields =>
    have hfields : fields.filterMap textOf? =
        ((fields.filter (·.1 == "response")).map (·.2)).filterMap Json.string? := by
      rw [List.filterMap_map, List.filterMap_filter]
      refine List.filterMap_congr fun entry _ => ?_
      simp [textOf?]
    rw [textsOf, hfields, Fields.values_eq_get? fields _ hd, Json.text?]
    cases Fields.get? fields "response" with
    | none => rfl
    | some value => cases value <;> rfl
  | _ => rfl

theorem values_entriesOf {key : String} (hne : key ≠ "response") :
    ((entriesOf v).filter (·.1 == key)).map (·.2) = (v.get? key).toList := by
  rw [filter_entriesOf v hne]
  cases v with
  | obj fields => exact Fields.values_eq_get? fields key hd
  | _ => rfl

end Distinct

section Replies

variable {responses : List (String × Json)} (hkeys : ∀ r ∈ responses, r.2.keys.Nodup)

include hkeys

theorem texts_ofReplies : (ofReplies responses).texts = responses.filterMap (·.2.text?) := by
  rw [ofReplies_eq, List.filterMap_eq_flatMap_toList]
  exact List.flatMap_congr fun r hr => textsOf_eq (hkeys r hr)

theorem get?_ofReplies {key : String} (hne : key ≠ "response") :
    Fields.get? (ofReplies responses).fields key = united (responses.filterMap (·.2.get? key)) := by
  rw [ofReplies_eq, get?_foldl_unite, entries, List.filter_flatMap, List.map_flatMap,
    List.filterMap_eq_flatMap_toList]
  exact congrArg united (List.flatMap_congr fun r hr => values_entriesOf (hkeys r hr) hne)

end Replies

theorem filter_keys_ofReplies (responses : List (String × Json)) :
    ((ofReplies responses).fields.map (·.1)).filter (· ∉ ownKeys) =
      (responses.flatMap (·.2.keys)).eraseDups.filter (· ∉ ownKeys) := by
  rw [ofReplies_eq, keys_foldl_unite, filter_eraseDups, filter_eraseDups, entries,
    List.map_flatMap, List.filter_flatMap, List.filter_flatMap]
  refine congrArg List.eraseDups (List.flatMap_congr fun r _ => ?_)
  cases r.2 with
  | obj fields =>
    rw [entriesOf, Json.keys, List.filter_map, List.filter_map, List.filter_filter]
    refine congrArg _ (List.filter_congr fun entry _ => ?_)
    by_cases h : entry.1 = "response" <;> simp [textOf?, ownKeys, h]
  | _ => rfl

end Merging

/-! ## The union -/

open Merging in
/-- **Objects are merged side by side.** Under a key without a meaning of its own stands the first
value that an object has there, and behind an array the items of all later arrays. The keys come in
the order in which they occur for the first time. -/
theorem merge_unites (responses errors : List (String × Json))
    (hkeys : ∀ r ∈ responses, r.2.keys.Nodup) :
    (∀ key ∉ ownKeys,
      (key ∈ (merge responses errors).keys ↔ ∃ r ∈ responses, key ∈ r.2.keys) ∧
      (merge responses errors).get? key = united (responses.filterMap (·.2.get? key))) ∧
    (merge responses errors).keys.filter (· ∉ ownKeys) =
      (responses.flatMap (·.2.keys)).eraseDups.filter (· ∉ ownKeys) := by
  rw [merge_eq]
  refine ⟨fun key hown => ?_, ?_⟩
  · simp only [ownKeys, List.mem_cons, List.not_mem_nil, or_false, not_or] at hown
    obtain ⟨hresponse, hvalues, herror⟩ := hown
    have hget : (Json.obj ((ofReplies responses).complete errors)).get? key =
        united (responses.filterMap (·.2.get? key)) := by
      rw [Json.get?, get?_complete, get?_ofReplies hkeys hresponse]
      simp [hresponse, hvalues, herror]
    refine ⟨?_, hget⟩
    rw [← Json.isSome_get?_iff, hget, Option.isSome_iff_ne_none, Ne, united_eq_none_iff,
      List.filterMap_eq_nil_iff]
    simp [← Json.isSome_get?_iff, Option.isSome_iff_ne_none]
  · exact (filter_keys_complete _ errors).trans (filter_keys_ofReplies responses)

/-- Three objects, a text and a number: two arrays become one, around a value of another kind, and
an array behind a value of another kind is left out. -/
theorem merge_unites_three :
    let responses : List (String × Json) :=
      [("a", .obj [("x", .arr [.nat 1]), ("error", .null), ("y", .str "first")]), ("b", .str "hi"),
        ("c", .obj [("z", .null), ("y", .arr [.nat 2]), ("x", .bool true)]), ("d", .nat 7),
        ("e", .obj [("x", .arr [.nat 3, .nat 4])])]
    (∀ r ∈ responses, r.2.keys.Nodup) ∧
      (merge responses []).get? "x" = some (.arr [.nat 1, .nat 3, .nat 4]) ∧
      (merge responses []).get? "y" = some (.str "first") ∧
      (merge responses []).keys.filter (· ∉ Merging.ownKeys) = ["x", "y", "z"] := by
  intro responses
  have hkeys : ∀ r ∈ responses, r.2.keys.Nodup := by decide
  obtain ⟨hunited, horder⟩ := merge_unites responses [] hkeys
  exact ⟨hkeys, (hunited "x" (by decide)).2, (hunited "y" (by decide)).2, horder.trans (by decide)⟩

/-! ## What may be lost -/

/-- No text, no value and no error is lost. -/
structure Preserves (responses errors : List (String × Json)) : Prop where
  /-- The texts stand under `response`, and no value of another kind was given up for them. -/
  texts : (∃ r ∈ responses, r.2.text?.isSome = true) →
    (merge responses errors).get? "response" =
      some (.str ("\n".intercalate (responses.filterMap (·.2.text?)))) ∧
    ∀ r ∈ responses, ∀ v, r.2.get? "response" = some v → v.string? = none →
      (merge responses errors).get? "response" = some v
  /-- Replies that are neither objects nor texts are among the values. -/
  values : ∀ r ∈ responses, r.2.isLoose = true →
    ∃ items, (merge responses errors).get? "values" = some (.arr items) ∧ r.2 ∈ items
  /-- The first error is told. -/
  error : ∀ e, errors.head? = some e →
    (merge responses errors).get? "error" = some (.str (Merging.errorText e))

/-- No object has a field where something is put beside the fields: no value of another kind under
`response` where there are texts, no field `values` where there are such values, unless it is an
array that holds them anyway, and no field `error` where there is an error, unless it says the
same. -/
structure NoClash (responses errors : List (String × Json)) : Prop where
  response : (∃ r ∈ responses, r.2.text?.isSome = true) →
    ∀ r ∈ responses, ∀ v, r.2.get? "response" = some v → v.string?.isSome = true
  values : ∀ w, united (responses.filterMap (·.2.get? "values")) = some w →
    ∀ r ∈ responses, r.2.isLoose = true → ∃ items, w = .arr items ∧ r.2 ∈ items
  error : ∀ w, united (responses.filterMap (·.2.get? "error")) = some w →
    ∀ e, errors.head? = some e → w = .str (Merging.errorText e)

section Distinct

variable {responses : List (String × Json)} (hkeys : ∀ r ∈ responses, r.2.keys.Nodup)
  (errors : List (String × Json))

include hkeys

open Merging

/-- Texts take the place of whatever stands under `response`. -/
theorem get?_merge_response (htexts : ∃ r ∈ responses, r.2.text?.isSome = true) :
    (merge responses errors).get? "response" =
      some (.str ("\n".intercalate (responses.filterMap (·.2.text?)))) := by
  obtain ⟨r, hr, htext⟩ := htexts
  have hne : (ofReplies responses).texts ≠ [] := by
    rw [texts_ofReplies hkeys, Ne, List.filterMap_eq_nil_iff]
    intro hnone
    simp [hnone r hr] at htext
  rw [merge_eq, Json.get?, get?_complete, if_pos ⟨rfl, hne⟩, text, texts_ofReplies hkeys]

/-- Values of other kinds come under `values` unless objects have something there. -/
theorem get?_merge_values (hloose : ∃ r ∈ responses, r.2.isLoose = true) :
    (merge responses errors).get? "values" =
      (united (responses.filterMap (·.2.get? "values"))).or
        (some (.arr ((responses.map (·.2)).filter Json.isLoose))) := by
  obtain ⟨r, hr, hloose⟩ := hloose
  have hne : (ofReplies responses).loose ≠ [] := by
    rw [ofReplies_eq]
    exact List.ne_nil_of_mem (List.mem_filter.mpr ⟨List.mem_map_of_mem hr, hloose⟩)
  rw [merge_eq, Json.get?, get?_complete, if_neg (by simp), if_pos ⟨rfl, hne⟩,
    get?_ofReplies hkeys (by decide), ofReplies_eq]

/-- The first error comes under `error` unless objects have something there. -/
theorem get?_merge_error {e : String × Json} (he : errors.head? = some e) :
    (merge responses errors).get? "error" =
      (united (responses.filterMap (·.2.get? "error"))).or (some (.str (errorText e))) := by
  rw [merge_eq, Json.get?, get?_complete, if_neg (by simp), if_neg (by simp), if_pos rfl,
    get?_ofReplies hkeys (by decide), he, Option.map_some]

/-- **Texts, values and the first error are kept unless a field is in the way.** -/
theorem preserves_iff : Preserves responses errors ↔ NoClash responses errors := by
  constructor
  · intro h
    refine ⟨fun htexts r hr v hv => ?_, fun w hw r hr hloose => ?_, fun w hw e he => ?_⟩
    · by_contra hkind
      have hnone : v.string? = none := by simpa using hkind
      have hkept := (h.texts htexts).2 r hr v hv hnone
      rw [get?_merge_response hkeys errors htexts] at hkept
      obtain rfl := Option.some.inj hkept
      cases hnone
    · obtain ⟨items, hitems, hmem⟩ := h.values r hr hloose
      rw [get?_merge_values hkeys errors ⟨r, hr, hloose⟩, hw] at hitems
      exact ⟨items, Option.some.inj hitems, hmem⟩
    · have htold := h.error e he
      rw [get?_merge_error hkeys errors he, hw] at htold
      exact Option.some.inj htold
  · intro h
    refine ⟨fun htexts => ⟨get?_merge_response hkeys errors htexts, fun r hr v hv hnone => ?_⟩,
      fun r hr hloose => ?_, fun e he => ?_⟩
    · have hstring := h.response htexts r hr v hv
      rw [hnone] at hstring
      cases hstring
    · rw [get?_merge_values hkeys errors ⟨r, hr, hloose⟩]
      cases hw : united (responses.filterMap (·.2.get? "values")) with
      | none => exact ⟨_, rfl, List.mem_filter.mpr ⟨List.mem_map_of_mem hr, hloose⟩⟩
      | some w =>
        obtain ⟨items, rfl, hmem⟩ := h.values w hw r hr hloose
        exact ⟨items, rfl, hmem⟩
    · rw [get?_merge_error hkeys errors he]
      cases hw : united (responses.filterMap (·.2.get? "error")) with
      | none => rfl
      | some w =>
        rw [h.error w hw e he]
        rfl

end Distinct

/-- An object whose `response` is a text, a text, a number and an error: nothing is lost. -/
theorem preserves_mixed :
    let responses : List (String × Json) :=
      [("a", .obj [("response", .str "one"), ("plan", .null)]), ("b", .str "two"), ("c", .nat 3)]
    let errors : List (String × Json) := [("d", .obj [("error", .str "down")])]
    (∀ r ∈ responses, r.2.keys.Nodup) ∧ Preserves responses errors ∧
      merge responses errors =
        .obj [("plan", .null), ("response", .str "one\ntwo"), ("values", .arr [.nat 3]),
          ("error", .str "d: down")] := by
  intro responses errors
  have hkeys : ∀ r ∈ responses, r.2.keys.Nodup := by decide
  have hstrings : ∀ r ∈ responses, ∀ v ∈ r.2.get? "response", v.string?.isSome = true := by decide
  have hclear : NoClash responses errors := by
    refine ⟨fun _ r hr v hv => hstrings r hr v hv, fun w hw => ?_, fun w hw => ?_⟩
    · cases hw
    · cases hw
  exact ⟨hkeys, (preserves_iff hkeys errors).mpr hclear, by decide⟩

/-- A field `values` keeps a number out, a field `error` hides an error, and a `response` that is
no text makes room for one. -/
theorem loses_on_clash :
    let responses : List (String × Json) :=
      [("a", .obj [("values", .arr [.nat 1]), ("error", .str "none")]), ("b", .nat 3)]
    let errors : List (String × Json) := [("c", .obj [("error", .str "down")])]
    merge responses errors = .obj [("values", .arr [.nat 1]), ("error", .str "none")] ∧
      ¬ Preserves responses errors ∧
      merge [("a", .obj [("response", .nat 7)]), ("b", .str "done")] [] =
        .obj [("response", .str "done")] ∧
      ¬ Preserves [("a", .obj [("response", .nat 7)]), ("b", .str "done")] [] := by
  intro responses errors
  refine ⟨by decide, fun h => ?_, by decide, fun h => ?_⟩
  · have htold := h.error _ rfl
    revert htold
    decide
  · have hsame := (h.texts ⟨("b", .str "done"), by decide, rfl⟩).2 ("a", .obj [("response", .nat 7)])
      (by decide) (.nat 7) rfl rfl
    revert hsame
    decide

end Switchboard
