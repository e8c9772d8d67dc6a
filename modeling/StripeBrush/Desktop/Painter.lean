/-
**The painter of a desktop.**

Main definitions:

* `desktopPainter` — **what becomes of a stroke on a desktop**.
-/

import StripeBrush.Canvas

set_option relaxedAutoImplicit false
set_option autoImplicit false

namespace StripeBrush

/-- A line without a positive width, or in the transparent colour, leaves no trace, and is stroked in
the transparent colour with width zero. -/
def desktopPainter : Painter where
  stroke width color := if width ≤ 0 ∨ color = .transparent then (0, .transparent) else (width, color)

end StripeBrush
