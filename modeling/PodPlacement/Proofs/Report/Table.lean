import PodPlacement.CommandLine.Response
import PodPlacement.Proofs.Report.Grid

/-! # Reports that cannot be laid out

A text of more than 65535 characters in one of its grids keeps the whole report of a simulation from being laid out.
The program then breaks off before it writes anything.

* `table?_eq_none_iff` — when there is no report.
* `outcomeResponse_exitCode_eq_iff` — when the program breaks off. -/

namespace PodPlacement

namespace Report

/-- There is no report exactly if there is a text in one of its grids that is too long. -/
theorem table?_eq_none_iff (o : Simulation.Outcome) :
    table? o = none ↔ ∃ text, ((podGrid o.schedule).HasText text ∨ (jobGrid o.schedule).HasText text) ∧
      65535 < text.length := by
  have hgrids : table? o = none ↔ (podGrid o.schedule).text? = none ∨ (jobGrid o.schedule).text? = none := by
    rw [table?]
    cases (podGrid o.schedule).text? <;> cases (jobGrid o.schedule).text? <;> simp
  simp only [hgrids, Grid.text?_eq_none_iff, or_and_right, exists_or]

end Report

namespace CommandLine

/-- A response with an output has another exit code. -/
theorem Response.exitCode_report_ne (complete : Bool) (output : String) (notices : List Notice) :
    (Response.report complete output notices).exitCode ≠ 101 := by
  cases complete <;> simp [report]

/-- The program breaks off exactly if it is to write a table and there is a text in it that is too long. -/
theorem outcomeResponse_exitCode_eq_iff (format : OutputFormat) (o : Simulation.Outcome) :
    (outcomeResponse format o).exitCode = 101 ↔
      format = .table ∧ ∃ text, ((Report.podGrid o.schedule).HasText text ∨
        (Report.jobGrid o.schedule).HasText text) ∧ 65535 < text.length := by
  cases format with
  | table =>
    rw [← Report.table?_eq_none_iff, outcomeResponse]
    cases Report.table? o with
    | none => simp [Response.breakdown]
    | some text => simpa using Response.exitCode_report_ne _ _ _
  | yaml => simpa [outcomeResponse] using Response.exitCode_report_ne _ _ _

end CommandLine

end PodPlacement
