import Switchboard.Fault

/-!
# Reports between agents

The content of an error message has its own names for the parts of a report and writes null for a
part that is absent. Reading takes any content at all.

* `FaultReport.ofContent_content_eq` : what is read back is the report, but null is no details;
* `FaultReport.ofContent_content` : a report can be read off the message that carries it;
* `FaultReport.number?`, `Fault.number?_report` : the numbers of a fault among the details;
* `FaultReport.details_ofContent_ne_null` : no content has null for its details;
* `FaultReport.content_survives` : which reports come back as they were.
-/

namespace Switchboard

theorem Json.word?_nat {n : Nat} (h : n < UInt64.size) :
    (Json.nat n).word? = some (UInt64.ofNat n) := by
  have hbound : (0 : Int) ≤ n ∧ (n : Int) < UInt64.size :=
    ⟨Int.natCast_nonneg n, Int.ofNat_lt.mpr h⟩
  rw [Json.word?, if_pos hbound, Int.toNat_natCast]

theorem Json.word?_word64 (n : UInt64) : (Json.word64 n).word? = some n := by
  rw [Json.word64, Json.word?_nat n.toNat_lt_size, UInt64.ofNat_toNat]

namespace Fault

/-- The last status that was answered. -/
def status : Fault → Option UInt16
  | unavailable _ _ s _ => s
  | _ => none

/-- How many attempts were made. -/
def attempts : Fault → Option UInt32
  | unavailable _ _ _ a | timeout _ a => a
  | _ => none

/-- A fault with no number to tell has no details, and null is none. -/
theorem details_report_ne_null (f : Fault) : f.report.details ≠ some .null := by
  unfold report
  dsimp only
  split <;> simp

end Fault

namespace FaultReport

/-- A number among the details. -/
def number? (r : FaultReport) (key : String) : Option UInt64 :=
  (r.details.bind (·.get? key)).bind Json.word?

/-- What is read back is the report, but null is no details. -/
theorem ofContent_content_eq (r : FaultReport) :
    ofContent r.content = { r with details := r.details.filter fun d => !d.isNull } := by
  obtain ⟨errorType, message, details, retryAfter⟩ := r
  have hretry : (Json.ofOption Json.word64 retryAfter).word? = retryAfter := by
    cases retryAfter with
    | none => rfl
    | some n => exact Json.word?_word64 n
  have hdetails : (some (details.getD .null)).filter (fun d => !d.isNull) =
      details.filter fun d => !d.isNull := by
    cases details <;> rfl
  calc ofContent (content ⟨errorType, message, details, retryAfter⟩)
      = ⟨errorType, message, (some (details.getD .null)).filter fun d => !d.isNull,
          (Json.ofOption Json.word64 retryAfter).word?⟩ := rfl
    _ = _ := by rw [hdetails, hretry]

/-- No content has null for its details. -/
theorem details_ofContent_ne_null (content : Json) : (ofContent content).details ≠ some .null := by
  intro h
  have hkept := (Option.filter_eq_some_iff.mp h).2
  simp [Json.isNull] at hkept

theorem ofContent_content_iff (r : FaultReport) :
    ofContent r.content = r ↔ r.details ≠ some .null := by
  obtain ⟨errorType, message, details, retryAfter⟩ := r
  rw [ofContent_content_eq]
  cases details with
  | none => simp
  | some d => cases d <;> simp [Json.isNull]

/-- The report of a fault can be read off the content that it is sent as. -/
theorem ofContent_content (f : Fault) : ofContent f.report.content = f.report :=
  (ofContent_content_iff _).mpr f.details_report_ne_null

end FaultReport

namespace Fault

theorem get?_status_details (f : Fault) :
    Fields.get? f.details "status_code" = f.status.map fun n => Json.nat n.toNat := by
  cases f with
  | unavailable text retryAfter status attempts => cases status <;> cases attempts <;> rfl
  | timeout text attempts => cases attempts <;> rfl
  | _ => rfl

theorem get?_attempts_details (f : Fault) :
    Fields.get? f.details "attempts" = f.attempts.map fun n => Json.nat n.toNat := by
  cases f with
  | unavailable text retryAfter status attempts => cases status <;> cases attempts <;> rfl
  | timeout text attempts => cases attempts <;> rfl
  | _ => rfl

theorem get?_details_report (f : Fault) (key : String) :
    f.report.details.bind (·.get? key) = Fields.get? f.details key := by
  unfold report
  dsimp only
  split
  · next hempty => rw [List.isEmpty_iff.mp hempty]; rfl
  · rfl

/-- The numbers of a fault stand among the details of its report. -/
theorem number?_report (f : Fault) :
    f.report.number? "status_code" = f.status.map UInt16.toUInt64 ∧
      f.report.number? "attempts" = f.attempts.map UInt32.toUInt64 := by
  rw [FaultReport.number?, FaultReport.number?, get?_details_report, get?_details_report,
    get?_status_details, get?_attempts_details]
  constructor
  · cases f.status with
    | none => rfl
    | some n =>
      have hlt : n.toNat < UInt64.size := Nat.lt_trans n.toNat_lt_size (by decide)
      rw [Option.map_some, Option.bind_some, Json.word?_nat hlt, UInt64.ofNat_uInt16ToNat,
        Option.map_some]
  · cases f.attempts with
    | none => rfl
    | some n =>
      have hlt : n.toNat < UInt64.size := Nat.lt_trans n.toNat_lt_size (by decide)
      rw [Option.map_some, Option.bind_some, Json.word?_nat hlt, UInt64.ofNat_uInt32ToNat,
        Option.map_some]

end Fault

/-- **Which reports come back as they were.** The content made of the report of a fault is read as
this very report, with the numbers of the fault among its details and its time to wait, whatever
they are. Of all reports only those come back changed that have null for their details. What any
content at all is taken for comes back unchanged. -/
theorem FaultReport.content_survives :
    (∀ f : Fault,
      let back := ofContent f.report.content
      back = f.report ∧ back.number? "status_code" = f.status.map UInt16.toUInt64 ∧
        back.number? "attempts" = f.attempts.map UInt32.toUInt64 ∧
        back.retryAfter = f.retryAfter) ∧
    (∀ r : FaultReport, ofContent r.content = r ↔ r.details ≠ some .null) ∧
    ∀ content : Json, ofContent (ofContent content).content = ofContent content := by
  refine ⟨fun f => ?_, ofContent_content_iff, fun content => ?_⟩
  · dsimp only
    rw [ofContent_content]
    exact ⟨rfl, f.number?_report.1, f.number?_report.2, rfl⟩
  · exact (ofContent_content_iff _).mpr (details_ofContent_ne_null content)

end Switchboard
