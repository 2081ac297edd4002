import TypedJson.Decoder.Basic

/-!
# Labels of decoders

A decoder is shown by the label of the type it yields, whatever it is built from.
-/

namespace TypedJson

/-- Types that have a short label. -/
class Labelled (α : Type) where
  label : String

instance : Labelled Binary64 := ⟨"f64"⟩

instance : Labelled Bool := ⟨"bool"⟩

instance : Labelled Unit := ⟨"()"⟩

/-- The label of a decoder, from that of its type. -/
def Decoder.label {ι : Type} {τ : ι → Type} {α : Type} [Labelled α] (_ : Decoder τ α) : String :=
  "Decoder<" ++ Labelled.label α ++ ">"

end TypedJson
