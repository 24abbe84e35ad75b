import PipelineChart.Text.Glyph

/-!
Blocks: a keyword, blanks, and a brace with everything up to the brace that matches it. Braces are
counted wherever they stand, inside quotes too. A keyword needs no word boundary, and may be empty.
-/

namespace PipelineChart

open Text

structure Block (α : Type) where
  keyword : List α
  body : List α
  rest : List α

namespace Block

variable {α : Type} [Glyph α]

structure Opening (α : Type) where
  keyword : List α
  inside : List α

inductive Fault (α : Type) where
  | missing
  | unterminated (keyword : List α)

def opening? (keyword : List Char) (text : List α) : Option (Opening α) :=
  (after? keyword text).bind fun rest =>
    (after? ['{'] (dropBlanks rest)).map fun inside => ⟨upTo rest text, inside⟩

/-- Splits the text inside a block at the brace that closes it, while `depth` blocks inside it are
still open. -/
def close? : Nat → List α → Option (List α × List α)
  | _, [] => none
  | depth, glyph :: text =>
      if Glyph.char glyph = '}' then
        match depth with
        | 0 => some ([], text)
        | depth + 1 => (close? depth text).map fun (interior, rest) => (glyph :: interior, rest)
      else
        (close? (if Glyph.char glyph = '{' then depth + 1 else depth) text).map
          fun (interior, rest) => (glyph :: interior, rest)

def locate (keyword : List Char) (text : List α) : Except (Fault α) (Block α) :=
  match leftmost? (opening? keyword) text with
  | none => .error .missing
  | some opening =>
      match close? 0 opening.inside with
      | none => .error (.unterminated opening.keyword)
      | some (interior, rest) => .ok ⟨opening.keyword, trim interior, rest⟩

def extract? (keyword text : String) : Option String :=
  match locate keyword.toList text.toList with
  | .ok block => some (String.ofList block.body)
  | .error _ => none

theorem opening?_shorter {keyword : List Char} {text : List α} {opening : Opening α}
    (found : opening? keyword text = some opening) : opening.inside.length < text.length := by
  obtain ⟨rest, begun, opened⟩ := Option.bind_eq_some_iff.mp found
  obtain ⟨inside, brace, rfl⟩ := Option.map_eq_some_iff.mp opened
  have first := after?_length begun
  have second := after?_length brace
  have blanks := dropBlanks_length rest
  simp only [List.length_cons, List.length_nil] at second
  change inside.length < text.length
  omega

theorem close?_split {depth : Nat} {text interior rest : List α}
    (found : close? depth text = some (interior, rest)) :
    ∃ brace, Glyph.char brace = '}' ∧ text = interior ++ brace :: rest := by
  induction text generalizing depth interior with
  | nil => simp [close?] at found
  | cons glyph text ih =>
    unfold close? at found
    split at found
    · rename_i brace
      split at found
      · simp only [Option.some.injEq, Prod.mk.injEq] at found
        obtain ⟨rfl, rfl⟩ := found
        exact ⟨glyph, brace, rfl⟩
      · obtain ⟨⟨inner, last⟩, closed, same⟩ := Option.map_eq_some_iff.mp found
        simp only [Prod.mk.injEq] at same
        obtain ⟨rfl, rfl⟩ := same
        obtain ⟨mark, isBrace, split⟩ := ih closed
        exact ⟨mark, isBrace, by simp [split]⟩
    · obtain ⟨⟨inner, last⟩, closed, same⟩ := Option.map_eq_some_iff.mp found
      simp only [Prod.mk.injEq] at same
      obtain ⟨rfl, rfl⟩ := same
      obtain ⟨mark, isBrace, split⟩ := ih closed
      exact ⟨mark, isBrace, by simp [split]⟩

theorem close?_length {depth : Nat} {text interior rest : List α}
    (found : close? depth text = some (interior, rest)) :
    interior.length + rest.length + 1 = text.length := by
  obtain ⟨brace, _, rfl⟩ := close?_split found
  simp only [List.length_append, List.length_cons]
  omega

theorem locate_shorter {keyword : List Char} {text : List α} {block : Block α}
    (found : locate keyword text = .ok block) : block.body.length + block.rest.length < text.length := by
  unfold locate at found
  split at found
  · cases found
  · rename_i opening opened
    split at found
    · cases found
    · rename_i interior rest closed
      cases found
      obtain ⟨before, last, rfl, reading⟩ := leftmost?_suffix opened
      have inner := opening?_shorter reading
      have whole := close?_length closed
      have body := trim_length interior
      simp only [List.length_append]
      omega

end Block

end PipelineChart
