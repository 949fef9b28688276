import RailYard.Store.Schema
import RailYard.Scheduler.LogReader

/-! What leaves the store for an audit of the scheduler. -/
namespace RailYard.Store
open Scheduler

/-- `SELECT record_json FROM decision_log ORDER BY sequence`. -/
def decisionRecords (db : Database) : List Record :=
  (db.decisionLog.rows.insertionSort fun a b => a.1 ≤ b.1).map fun entry => entry.2.record

/-- What `ExportDecisionLog` writes: one record a line. -/
def exportDecisionLog (db : Database) : List UInt8 :=
  (decisionRecords db).flatMap fun record => record.line ++ [10]

end RailYard.Store
