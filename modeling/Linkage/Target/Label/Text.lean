import Linkage.Number.Text
import Linkage.Target.Label
import Linkage.Text.Layout
import Linkage.Text.Quoted

/-!
# Linkage.Target.Label.Text — how labels are written

The label of a built-in target is its short name with the parameters as given, identifiers between quotes.
-/

namespace Linkage

open Number (shortest) in
open Text (applied quoted) in
/-- The text of a label. -/
def Label.text : Label Float → String
  | .lengthMin least => applied "len.min" [shortest least]
  | .lengthMax most => applied "len.max" [shortest most]
  | .lengthRange least most => applied "len.range" [shortest least, shortest most]
  | .lengthFrom ref factor => applied "len.from" [quoted ref, shortest factor]
  | .angleMin least => applied "ang.min" [shortest least]
  | .angleMax most => applied "ang.max" [shortest most]
  | .angleRange least most => applied "ang.range" [shortest least, shortest most]
  | .angleFrom ref offset => applied "ang.from" [quoted ref, shortest offset]
  | .posFrom ref => applied "ang.posFrom" [quoted ref]
  | .negFrom ref => applied "ang.negFrom" [quoted ref]
  | .acuteFrom ref => applied "ang.acuteFrom" [quoted ref]
  | .obtuseFrom ref => applied "ang.obtuseFrom" [quoted ref]
  | .rangeFrom ref least most => applied "ang.rangeFrom" [quoted ref, shortest least, shortest most]
  | .delta first second scale => applied "ang.delta" [quoted first, quoted second, shortest scale]
  | .custom name => name

/-- A computed target as it is shown. -/
def Label.shown (name : Label Float) : String := Text.applied "Combinator" [name.text]

end Linkage
