/-!
# Linkage.Target.Label — names of computed targets

A computed target is shown by a label.  The labels of the built-in ones hold their parameters as given; any other has
a name of its own.
-/

namespace Linkage

/-- The name of a computed target. -/
inductive Label (α : Type) where
  | lengthMin (least : α)
  | lengthMax (most : α)
  | lengthRange (least most : α)
  | lengthFrom (ref : String) (factor : α)
  | angleMin (least : α)
  | angleMax (most : α)
  | angleRange (least most : α)
  | angleFrom (ref : String) (offset : α)
  | posFrom (ref : String)
  | negFrom (ref : String)
  | acuteFrom (ref : String)
  | obtuseFrom (ref : String)
  | rangeFrom (ref : String) (least most : α)
  | delta (first second : String) (scale : α)
  | custom (name : String)

end Linkage
