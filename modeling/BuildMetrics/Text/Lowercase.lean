/-!
# Lowercase forms

The lowercase form of a character, as far as a metric name can show it. Names keep
ASCII characters only, and outside `A` to `Z` just two characters have a lowercase form
with an ASCII character in it: the capital dotted i, whose form is two characters, and
the kelvin sign. Every other form is a single character outside ASCII, so it is enough
to leave such a character as it is. This holds of the two forms of the final sigma as
well, so no form depends on the characters around it.
-/

namespace BuildMetrics.Text

/-- The lowercase form of a character, up to the choice of characters outside ASCII. -/
def lowercase (c : Char) : List Char :=
  if c = '\u0130' then ['i', '\u0307']
  else if c = '\u212a' then ['k']
  else [c.toLower]

/-- No character is lost when it becomes a small letter. -/
theorem lowercase_ne_nil (c : Char) : lowercase c ≠ [] := by
  unfold lowercase
  split
  · exact List.cons_ne_nil _ _
  · split <;> exact List.cons_ne_nil _ _

end BuildMetrics.Text
