import StripeBrush.Canvas
import StripeBrush.Desktop.Host
import StripeBrush.Desktop.Painter
import StripeBrush.Preset.Standard
import StripeBrush.Proofs.Binary.Conversion
import StripeBrush.Proofs.Binary.Integers
import StripeBrush.Proofs.Binary.Monotone
import StripeBrush.Proofs.Binary.Nonneg
import StripeBrush.Proofs.Binary.Order
import StripeBrush.Proofs.Binary.Quotients
import StripeBrush.Proofs.Binary.Rounding
import StripeBrush.Proofs.Binary.SameValue
import StripeBrush.Proofs.Binary.Sums
import StripeBrush.Proofs.Binary.Values
import StripeBrush.Proofs.Binary.WholeNumbers
import StripeBrush.Proofs.Controls.Offering
import StripeBrush.Proofs.Controls.Shown
import StripeBrush.Proofs.Decimal.Digits
import StripeBrush.Proofs.Decimal.Midpoints
import StripeBrush.Proofs.Decimal.Narrowing
import StripeBrush.Proofs.Decimal.Shortest
import StripeBrush.Proofs.Desktop.Faithful
import StripeBrush.Proofs.Drawing.Caps
import StripeBrush.Proofs.Drawing.Painting
import StripeBrush.Proofs.Drawing.PathLength
import StripeBrush.Proofs.Geometry.Length
import StripeBrush.Proofs.Geometry.Orientation
import StripeBrush.Proofs.Geometry.Rescaling
import StripeBrush.Proofs.Geometry.Straight
import StripeBrush.Proofs.Geometry.Symmetry
import StripeBrush.Proofs.Json.Forms
import StripeBrush.Proofs.Json.Laws
import StripeBrush.Proofs.Json.Number
import StripeBrush.Proofs.Json.PowersOfTen
import StripeBrush.Proofs.Json.Printed
import StripeBrush.Proofs.Json.Range
import StripeBrush.Proofs.Json.Scaling
import StripeBrush.Proofs.Json.Significand
import StripeBrush.Proofs.Json.Skip
import StripeBrush.Proofs.Json.Standard
import StripeBrush.Proofs.Json.Text
import StripeBrush.Proofs.Panel.Building
import StripeBrush.Proofs.Panel.Chains
import StripeBrush.Proofs.Panel.Clamping
import StripeBrush.Proofs.Panel.Commuting
import StripeBrush.Proofs.Panel.Editing
import StripeBrush.Proofs.Panel.Fallback
import StripeBrush.Proofs.Panel.Staging
import StripeBrush.Proofs.Panel.Syncing
import StripeBrush.Proofs.Panel.Unbounded
import StripeBrush.Proofs.Panel.Wiring
import StripeBrush.Proofs.Pointer.Counting
import StripeBrush.Proofs.Pointer.Finiteness
import StripeBrush.Proofs.Pointer.Gating
import StripeBrush.Proofs.Pointer.Limits
import StripeBrush.Proofs.Pointer.Sampling
import StripeBrush.Proofs.Pointer.Splitting
import StripeBrush.Proofs.Preset.Members
import StripeBrush.Proofs.Preset.Objects
import StripeBrush.Proofs.Preset.RoundTrip
import StripeBrush.Proofs.Preset.Standard
import StripeBrush.Proofs.Session.Activation
import StripeBrush.Proofs.Session.Alike
import StripeBrush.Proofs.Session.Bounds
import StripeBrush.Proofs.Session.Flags
import StripeBrush.Proofs.Session.Frames
import StripeBrush.Proofs.Session.Resuming
import StripeBrush.Proofs.Session.Runs
import StripeBrush.Proofs.Session.Unread
import StripeBrush.Proofs.Workspace.Frames
import StripeBrush.Proofs.Workspace.Growth
import StripeBrush.Proofs.Workspace.Shifting
import StripeBrush.Proofs.Workspace.Spacing
