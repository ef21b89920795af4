import Bom.Backend
import Bom.Json.Domain
import Bom.Proofs.Order.Timing
import Bom.Proofs.Tree.Limit
import Bom.Proofs.Tree.Reference
import Bom.Proofs.Order.Isolation
import Bom.Proofs.Service.Make
import Bom.Proofs.Calendar.Text
import Bom.Proofs.Decimal.Text
import Bom.Proofs.Tree.Rendition
import Bom.Proofs.Tables.Rows
import Bom.Proofs.Tables.Load
import Bom.Proofs.Tree.Cut
import Bom.Proofs.Service.Build
import Bom.Proofs.Service.Components
import Bom.Proofs.Tree.Ways
import Bom.Proofs.Tree.Implosion
import Bom.Proofs.Service.Level
import Bom.Proofs.Tables.Present
import Bom.Proofs.Tree.Schedule
import Bom.Proofs.Tree.Answers
import Bom.Proofs.Tree.Slice
import Bom.Proofs.Calendar.Reading
import Bom.Proofs.Resolution
import Bom.Proofs.Tables.Numbers
import Bom.Proofs.Tables.Orders
import Bom.Proofs.Tree.Root
import Bom.Proofs.Service.Requirements
import Bom.Proofs.Tree.Refusal
import Bom.Proofs.Order.Inheritance
import Bom.Proofs.Order.BestEffort
import Bom.Proofs.Service.Facility
import Bom.Proofs.Tables.Placement
import Bom.Proofs.Tables.Rules
import Bom.Proofs.Tables.Validity
import Bom.Proofs.Tables.Edges
import Bom.Proofs.Json.Texts
import Bom.Proofs.Tables.Settings
import Bom.Proofs.Tables.Restore
import Bom.Proofs.Tables.Usable
import Bom.Proofs.Tree.Unconfigured
import Bom.Proofs.Tree.Selection
import Bom.Proofs.Decimal.Magnitude
import Bom.Proofs.Tree.Units
import Bom.Proofs.Calendar.Range
import Bom.Proofs.Order.Range
import Bom.Proofs.Tables.Features
import Bom.Proofs.Tree.Unmeasured
import Bom.Proofs.Tables.Insert
import Bom.Proofs.Tables.Readable
import Bom.Proofs.Calendar.Grammar
import Bom.Proofs.Text.Bytes
import Bom.Proofs.Tables.Windows
import Bom.Proofs.Tree.Loop
