import PipelineChart.Proofs.Text.Lines

/-!
Blocks as they are written: a heading, an opening brace at the end of its line, lines, and a closing
brace on a line of its own. Where the braces in a text match, the brace that closes a block around it is
the one that was written for it.
-/

namespace PipelineChart.Block

open Text

def write (heading : String) (texts : List (List Char)) : List Char :=
  heading.toList ++ ' ' :: '{' :: '\n' :: (lines texts ++ ['}'])

def Balanced (text : List Char) : Prop :=
  ∀ depth rest, close? depth (text ++ rest) =
    (close? depth rest).map fun (interior, after) => (text ++ interior, after)

namespace Balanced

variable {text rest : List Char}

theorem append (balanced : Balanced text) (balanced' : Balanced rest) : Balanced (text ++ rest) := by
  intro depth after
  rw [List.append_assoc, balanced, balanced', Option.map_map]
  congr 1
  funext ⟨interior, behind⟩
  simp only [Function.comp_apply, List.append_assoc]

theorem additive : Additive Balanced where
  nil := by
    intro depth rest
    rw [List.nil_append]
    exact (congrFun Option.map_id (close? depth rest)).symm
  append := append

theorem glyph {glyph : Char} (opened : glyph ≠ '{') (closed : glyph ≠ '}') : Balanced [glyph] := by
  intro depth rest
  rw [List.singleton_append, close?.eq_def]
  simp only [char_self, if_neg opened, if_neg closed]
  rfl

theorem of_unbraced (opened : '{' ∉ text) (closed : '}' ∉ text) : Balanced text := by
  apply additive.of_glyphs
  intro first member
  exact glyph (ne_of_mem_of_not_mem member opened) (ne_of_mem_of_not_mem member closed)

theorem enclose (balanced : Balanced text) : Balanced ('{' :: (text ++ ['}'])) := by
  intro depth rest
  rw [List.cons_append, close?.eq_def]
  simp only [char_self, List.append_assoc, List.singleton_append]
  rw [if_neg (by decide), if_true, balanced, close?.eq_def]
  simp only [char_self, if_true, Option.map_map]
  congr 1
  funext ⟨interior, behind⟩
  simp

theorem lines {texts : List (List Char)} (balanced : ∀ text ∈ texts, Balanced text) :
    Balanced (lines texts) := by
  apply additive.lines
  intro text listed
  exact (balanced text listed).append (glyph (by decide) (by decide))

theorem write {heading : String} {texts : List (List Char)} (balanced : Balanced heading.toList)
    (balanced' : ∀ text ∈ texts, Balanced text) : Balanced (write heading texts) := by
  have space : Balanced [' '] := glyph (by decide) (by decide)
  have newline : Balanced ['\n'] := glyph (by decide) (by decide)
  exact balanced.append (space.append (newline.append (lines balanced')).enclose)

theorem close (balanced : Balanced text) (rest : List Char) :
    close? 0 (text ++ '}' :: rest) = some (text, rest) := by
  rw [balanced, close?]
  simp

end Balanced

theorem opening?_write (heading inside : List Char) :
    opening? heading (heading ++ ' ' :: '{' :: inside) = some ⟨heading, inside⟩ := by
  have begun : after? heading (heading ++ ' ' :: '{' :: inside) = some (' ' :: '{' :: inside) :=
    after?_eq_some_iff.mpr ⟨heading, chars_self heading, rfl⟩
  have brace : after? ['{'] (dropBlanks (' ' :: '{' :: inside)) = some inside := rfl
  rw [opening?, begun, Option.bind_some, brace, Option.map_some, upTo_append]

theorem locate_write (heading : String) {texts : List (List Char)}
    (balanced : ∀ text ∈ texts, Balanced text) (rest : List Char) :
    locate heading.toList (write heading texts ++ rest) =
      .ok ⟨heading.toList, trim ('\n' :: lines texts), rest⟩ := by
  have newline : Balanced ['\n'] := Balanced.glyph (by decide) (by decide)
  have closed := (newline.append (Balanced.lines balanced)).close rest
  have whole : write heading texts ++ rest =
      heading.toList ++ ' ' :: '{' :: (['\n'] ++ lines texts ++ '}' :: rest) := by simp [write]
  rw [whole, locate, leftmost?_of_some (opening?_write heading.toList _)]
  simp only [closed]
  rfl

theorem locate_write_missing {keyword : List Char} {heading : String} {texts : List (List Char)}
    (short : heading.toList.length + 1 < keyword.length) (plain : '{' ∉ heading.toList)
    (plain' : ∀ text ∈ texts, '{' ∉ text) : locate keyword (write heading texts) = .error .missing := by
  have absent : leftmost? (opening? keyword) (write heading texts) = none := by
    rw [leftmost?_eq_none_iff]
    intro before rest split
    rw [Option.eq_none_iff_forall_ne_some]
    intro opening found
    obtain ⟨behind, begun, opened⟩ := Option.bind_eq_some_iff.mp found
    obtain ⟨inside, brace, rfl⟩ := Option.map_eq_some_iff.mp opened
    obtain ⟨front, spelled, rfl⟩ := after?_eq_some_iff.mp begun
    obtain ⟨gap, mark, _, rfl, rfl⟩ := (after?_dropBlanks_eq_some_iff rfl).mp brace
    have whole : (heading.toList ++ [' ']) ++ '{' :: '\n' :: (lines texts ++ ['}']) =
        (before ++ front ++ gap) ++ '{' :: inside := by
      rw [List.append_assoc before, List.append_assoc before, List.append_assoc front]
      exact (List.append_assoc _ _ _).trans split
    obtain ⟨lead, fronts, behind⟩ := split_behind whole (by simpa using plain)
    cases lead with
    | nil =>
      have lengths := congrArg List.length fronts
      have word := congrArg List.length spelled
      simp only [chars_length, List.length_append, List.length_nil,
        List.length_singleton] at lengths word
      omega
    | cons glyph lead =>
      have member : '{' ∈ '\n' :: (lines texts ++ ['}']) := by
        rw [(List.cons.inj behind).2]
        simp
      rw [List.mem_cons, List.mem_append, mem_lines (by decide), List.mem_singleton] at member
      rcases member with impossible | ⟨text, listed, held⟩ | impossible
      · exact absurd impossible (by decide)
      · exact plain' text listed held
      · exact absurd impossible (by decide)
  rw [locate, absent]

end PipelineChart.Block
