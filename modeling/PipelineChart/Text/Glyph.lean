/-!
Texts are lists of glyphs. A glyph is a character, or a character together with the place where it
stood, so that one matcher serves plain text and text whose places matter.
-/

namespace PipelineChart.Text

class Glyph (α : Type) where
  char : α → Char

instance : Glyph Char := ⟨id⟩

variable {α : Type} [Glyph α]

def chars (text : List α) : List Char := text.map Glyph.char

def string (text : List α) : String := String.ofList (chars text)

/-- The Unicode property White_Space. -/
def isBlankCode (code : Nat) : Bool :=
  (9 ≤ code && code ≤ 13) || code = 32 || code = 0x85 || code = 0xA0 || code = 0x1680 ||
    (0x2000 ≤ code && code ≤ 0x200A) || code = 0x2028 || code = 0x2029 || code = 0x202F ||
    code = 0x205F || code = 0x3000

def isBlank (glyph : α) : Bool := isBlankCode (Glyph.char glyph).toNat

def isNewline (glyph : α) : Bool := Glyph.char glyph == '\n'

/-- Quotes of both kinds are read alike: either may close what the other opened. -/
def isQuote (glyph : α) : Bool := Glyph.char glyph == '\'' || Glyph.char glyph == '"'

def dropBlanks (text : List α) : List α := text.dropWhile isBlank

def dropBlanksEnd (text : List α) : List α := (text.reverse.dropWhile isBlank).reverse

def trim (text : List α) : List α := dropBlanksEnd (dropBlanks text)

def after? : List Char → List α → Option (List α)
  | [], text => some text
  | _ :: _, [] => none
  | letter :: word, glyph :: text =>
      if Glyph.char glyph = letter then after? word text else none

def afterQuote? : List α → Option (List α)
  | [] => none
  | glyph :: text => if isQuote glyph then some text else none

/-- The front of `text` up to where its end `rest` begins. -/
def upTo (rest text : List α) : List α := text.take (text.length - rest.length)

/-- The reading at the first place of a text, its end included, where `read` accepts. -/
def leftmost? {β : Type} (read : List α → Option β) : List α → Option β
  | [] => read []
  | glyph :: text =>
      match read (glyph :: text) with
      | some found => some found
      | none => leftmost? read text

theorem after?_length {word : List Char} {text rest : List α} (found : after? word text = some rest) :
    rest.length + word.length = text.length := by
  induction word generalizing text with
  | nil => simp_all [after?]
  | cons letter word ih =>
    cases text with
    | nil => simp [after?] at found
    | cons glyph text =>
      simp only [after?] at found
      split at found
      · have := ih found
        simp only [List.length_cons]
        omega
      · simp at found

theorem afterQuote?_length {text rest : List α} (found : afterQuote? text = some rest) :
    rest.length + 1 = text.length := by
  cases text with
  | nil => simp [afterQuote?] at found
  | cons glyph text =>
    simp only [afterQuote?] at found
    split at found <;> simp_all

theorem dropBlanks_length (text : List α) : (dropBlanks text).length ≤ text.length :=
  (List.dropWhile_sublist _).length_le

theorem trim_length (text : List α) : (trim text).length ≤ text.length := by
  have front := dropBlanks_length text
  have back : ((dropBlanks text).reverse.dropWhile isBlank).length ≤ (dropBlanks text).reverse.length :=
    (List.dropWhile_sublist _).length_le
  simp only [List.length_reverse] at back
  simp only [trim, dropBlanksEnd, List.length_reverse]
  omega

omit [Glyph α] in
theorem leftmost?_suffix {β : Type} {read : List α → Option β} {text : List α} {found : β}
    (reading : leftmost? read text = some found) :
    ∃ before rest, text = before ++ rest ∧ read rest = some found := by
  induction text with
  | nil => exact ⟨[], [], rfl, reading⟩
  | cons glyph text ih =>
    simp only [leftmost?] at reading
    split at reading
    · exact ⟨[], glyph :: text, rfl, by simp_all⟩
    · obtain ⟨before, rest, split, here⟩ := ih reading
      exact ⟨glyph :: before, rest, by simp [split], here⟩

end PipelineChart.Text
