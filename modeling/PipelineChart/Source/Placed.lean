import PipelineChart.Source.Span
import PipelineChart.Text.Glyph

/-!
Characters that remember where they stood. Offsets count UTF-8 bytes from the start of the source,
and stay with a character when others around it are removed.
-/

namespace PipelineChart

open Text

structure Placed where
  char : Char
  offset : Nat
  deriving DecidableEq

namespace Placed

instance : Glyph Placed := ⟨Placed.char⟩

def stop (glyph : Placed) : Nat := glyph.offset + glyph.char.utf8Size

def locate (offset : Nat) : List Char → List Placed
  | [] => []
  | char :: text => ⟨char, offset⟩ :: locate (offset + char.utf8Size) text

def span (text : List Placed) : Span :=
  match text.head?, text.getLast? with
  | some first, some last => Span.ofBounds first.offset last.stop
  | _, _ => Span.ofBounds 0 0

theorem chars_locate (offset : Nat) (text : List Char) : chars (locate offset text) = text := by
  induction text generalizing offset with
  | nil => rfl
  | cons char text ih => simpa [chars, locate, Glyph.char] using ih (offset + char.utf8Size)

end Placed

end PipelineChart
