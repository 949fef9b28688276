import RailYard.Properties.Reaper
import RailYard.Properties.Acquisition
import RailYard.Properties.Completions
import RailYard.Properties.Decisions
import RailYard.Properties.Replay
import RailYard.Properties.Fairness
import RailYard.Properties.Workers
import RailYard.Properties.Clocks
import RailYard.Properties.Queueing
import RailYard.Properties.Cron
import RailYard.Properties.Redis
import RailYard.Properties.Transitions
import RailYard.Properties.Oracle
import RailYard.Properties.Evidence
import RailYard.Properties.Interfaces
import RailYard.Properties.Expiry
import RailYard.Properties.Scheduling
import RailYard.Properties.Bypass
import RailYard.Properties.Workflows
import RailYard.Properties.Histories
import RailYard.Properties.Tenants
import RailYard.Properties.Dag
import RailYard.Properties.Migration
import RailYard.Properties.Telemetry
import RailYard.Properties.WriteGate
import RailYard.Properties.Statistics
import RailYard.Properties.Attempts
