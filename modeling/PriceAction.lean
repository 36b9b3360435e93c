import PriceAction.Bar
import PriceAction.Bar.Codec
import PriceAction.Calendar.Instant
import PriceAction.Calendar.Text
import PriceAction.Command.Arguments
import PriceAction.Command.FileSystem
import PriceAction.Command.Frame
import PriceAction.Command.Run
import PriceAction.Command.Tree
import PriceAction.Context
import PriceAction.Context.Codec
import PriceAction.Decimal.Binary
import PriceAction.Decimal.Fixed
import PriceAction.Decimal.Nearest
import PriceAction.Decimal.Notation
import PriceAction.Decimal.Scaled
import PriceAction.Decimal.Shortest
import PriceAction.Digest.NameId
import PriceAction.Digest.Sha1
import PriceAction.Direction
import PriceAction.Fault
import PriceAction.Json.Decode
import PriceAction.Json.Number
import PriceAction.Json.Reader
import PriceAction.Json.Value
import PriceAction.Json.Writer
import PriceAction.Liquidity.Cluster
import PriceAction.Liquidity.Encoding
import PriceAction.Liquidity.Magnet
import PriceAction.Liquidity.Phase
import PriceAction.Liquidity.Pool
import PriceAction.Liquidity.State
import PriceAction.Liquidity.Sweep
import PriceAction.Main
import PriceAction.Power
import PriceAction.Register
import PriceAction.Scalar
import PriceAction.Scalar.Floating
import PriceAction.Scalar.Rational
import PriceAction.Scenario.Decision
import PriceAction.Scenario.Encoding
import PriceAction.Scenario.Gates
import PriceAction.Scenario.Stable
import PriceAction.Scenario.Store
import PriceAction.Selection
import PriceAction.Settings.Basic
import PriceAction.Settings.Codec
import PriceAction.Settings.Validation
import PriceAction.Snapshot.Analysis
import PriceAction.Snapshot.Codec
import PriceAction.Snapshot.Encoding
import PriceAction.Snapshot.Engine
import PriceAction.Snapshot.Limits
import PriceAction.Snapshot.Market
import PriceAction.Snapshot.Run
import PriceAction.Snapshot.Sanitation
import PriceAction.Structure.Break
import PriceAction.Structure.Encoding
import PriceAction.Structure.Leg
import PriceAction.Structure.Range
import PriceAction.Structure.Retracement
import PriceAction.Structure.State
import PriceAction.Structure.Swing
import PriceAction.Structure.Volatility
import PriceAction.Text.Blank
import PriceAction.Timeframe
import PriceAction.Zone.Basic
import PriceAction.Zone.Breaker
import PriceAction.Zone.Confluence
import PriceAction.Zone.Encoding
import PriceAction.Zone.Imbalance
import PriceAction.Zone.Lifecycle
import PriceAction.Zone.OrderBlock
import PriceAction.Zone.Report
import PriceAction.Proofs.Calendar.Order
import PriceAction.Proofs.Scenario.History
import PriceAction.Proofs.Scenario.Reflection
import PriceAction.Proofs.Floating.Order
import PriceAction.Proofs.Floating.Packing
import PriceAction.Proofs.Scenario.Hysteresis
import PriceAction.Proofs.Floating.Rounding
import PriceAction.Proofs.Floating.Sum
import PriceAction.Proofs.Scenario.Confidence
import PriceAction.Proofs.Snapshot.Named
import PriceAction.Proofs.DisjointSet
import PriceAction.Proofs.Scalar.Rational
import PriceAction.Proofs.Zone.Groups
import PriceAction.Proofs.Zone.Sweep
import PriceAction.Proofs.Zone.Composite
import PriceAction.Proofs.Zone.Components
import PriceAction.Proofs.Zone.Arrangement
import PriceAction.Proofs.Register
import PriceAction.Proofs.Scenario.Fresh
import PriceAction.Proofs.Snapshot.Repetition
import PriceAction.Proofs.Snapshot.Schedule
import PriceAction.Proofs.Structure.Leg
import PriceAction.Proofs.Structure.Break
import PriceAction.Proofs.Structure.Extension
import PriceAction.Proofs.Structure.Bias
import PriceAction.Proofs.Snapshot.Cleaned
import PriceAction.Proofs.Rescaling.Basic
import PriceAction.Proofs.Rescaling.Break
import PriceAction.Proofs.Rescaling.Liquidity
import PriceAction.Proofs.Rescaling.Market
import PriceAction.Proofs.Snapshot.Replay
import PriceAction.Proofs.Structure.Swing
import PriceAction.Proofs.Liquidity.Sweep
import PriceAction.Proofs.Calendar.Text
import PriceAction.Proofs.Digest.NameId
import PriceAction.Proofs.Digest.Numbers
import PriceAction.Proofs.Structure.Dated
import PriceAction.Proofs.Liquidity.Pool
import PriceAction.Proofs.Zone.Report
import PriceAction.Proofs.Zone.Identity
import PriceAction.Proofs.Zone.Integrity
import PriceAction.Proofs.Snapshot.Roles
import PriceAction.Proofs.Indexed.Basic
import PriceAction.Proofs.Indexed.Swing
import PriceAction.Proofs.Indexed.Break
import PriceAction.Proofs.Indexed.Range
import PriceAction.Proofs.Indexed.Structure
import PriceAction.Proofs.Indexed.Pool
import PriceAction.Proofs.Indexed.Liquidity
import PriceAction.Proofs.Indexed.Zone
import PriceAction.Proofs.Indexed.Confluence
import PriceAction.Proofs.Indexed.Report
import PriceAction.Proofs.Indexed.Market
import PriceAction.Proofs.Scalar.Lawful
import PriceAction.Proofs.Sorting
import PriceAction.Proofs.Liquidity.Listing
import PriceAction.Proofs.Snapshot.Gating
import PriceAction.Proofs.Latest
import PriceAction.Proofs.Search
import PriceAction.Proofs.Scenario.Gates
import PriceAction.Proofs.Bounds.Basic
import PriceAction.Proofs.Bounds.Structure
import PriceAction.Proofs.Bounds.Liquidity
import PriceAction.Proofs.Bounds.Zone
import PriceAction.Proofs.Bounds.Market
import PriceAction.Proofs.Floating.Number
import PriceAction.Proofs.Extreme
import PriceAction.Proofs.Structure.Pivot
import PriceAction.Proofs.Structure.Agreement
import PriceAction.Proofs.Structure.Heading
import PriceAction.Proofs.Structure.Appended
import PriceAction.Proofs.Structure.Closing
import PriceAction.Proofs.Structure.Dating
import PriceAction.Proofs.Zone.Turning
import PriceAction.Proofs.Structure.Window
import PriceAction.Proofs.Scenario.Staleness
import PriceAction.Proofs.Zone.Precedence
import PriceAction.Proofs.Zone.Retention
import PriceAction.Proofs.Scenario.Hastening
import PriceAction.Proofs.Snapshot.Rejection
import PriceAction.Proofs.Floating.Bound
import PriceAction.Proofs.Structure.Range
import PriceAction.Proofs.Liquidity.Range
import PriceAction.Proofs.Liquidity.Cluster
import PriceAction.Proofs.Liquidity.Magnet
import PriceAction.Proofs.Zone.Filling
import PriceAction.Proofs.Liquidity.Fading
import PriceAction.Proofs.Snapshot.Lag
import PriceAction.Proofs.Structure.Drift
import PriceAction.Proofs.Zone.Lifecycle
import PriceAction.Proofs.Structure.Retracement
import PriceAction.Proofs.Liquidity.Grouping
import PriceAction.Proofs.Calendar.Reading
import PriceAction.Proofs.Json.Record
import PriceAction.Proofs.Settings.Codec
import PriceAction.Proofs.Snapshot.Files
import PriceAction.Structure
