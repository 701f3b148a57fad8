/-!
Styled text: text for a terminal, in runs with a style of their own.

One styled text has two readings, with and without colours, so what is written
is laid out once. The text of a run may hold control sequences of its own. One
that ends every style would end the style of the run as well, so with colours
the style begins again after it (`Style.resume`).
-/

namespace LineCheck

/-- A terminal style, as the parameters of its control sequence. -/
structure Style where
  parameters : List Nat
deriving DecidableEq, Repr

namespace Style

def bold : Style := ⟨[1]⟩
def red : Style := ⟨[31]⟩
def boldRed : Style := ⟨[1, 31]⟩
def boldBlue : Style := ⟨[1, 34]⟩
def green : Style := ⟨[32]⟩
def boldGreen : Style := ⟨[1, 32]⟩
def italicGreen : Style := ⟨[3, 32]⟩
def brightBlack : Style := ⟨[90]⟩

/-- A colour of the palette of 256. -/
def palette (n : Nat) : Style := ⟨[38, 5, n]⟩

/-- The control sequence that begins a style. -/
def begin (s : Style) : String :=
  "\x1b[" ++ ";".intercalate (s.parameters.map toString) ++ "m"

/-- The control sequence that ends every style. -/
def reset : String := "\x1b[0m"

/-- A text in a style: after each control sequence in it that ends every style,
    the style begins again. -/
def resume (s : Style) : List Char → List Char
  | [] => []
  | '\x1b' :: '[' :: '0' :: 'm' :: text => reset.toList ++ s.begin.toList ++ resume s text
  | c :: text => c :: resume s text

theorem resume_reset_append (s : Style) (text : List Char) :
    s.resume (reset.toList ++ text) = reset.toList ++ s.begin.toList ++ s.resume text :=
  rfl

/-- A text without control sequences stays as it is. -/
theorem resume_of_not_mem (s : Style) {text : List Char} (h : '\x1b' ∉ text) :
    s.resume text = text := by
  fun_induction resume s text with
  | case1 => rfl
  | case2 => simp at h
  | case3 c text _ ih => rw [ih fun hm => h (List.mem_cons_of_mem c hm)]

end Style

/-- A run of text, styled or not. -/
structure Run where
  style : Option Style
  text : String
deriving DecidableEq, Repr

/-- Text for a terminal. -/
abbrev StyledText := List Run

namespace StyledText

/-- Text without a style. -/
def plain (text : String) : StyledText := [⟨none, text⟩]

/-- Text in a style. -/
def styled (style : Style) (text : String) : StyledText := [⟨some style, text⟩]

/-- The characters of a run. With colours a styled run stands between two
    control sequences, also if it is empty. -/
def renderRun (colors : Bool) (run : Run) : String :=
  match run.style, colors with
  | some style, true =>
    style.begin ++ String.ofList (style.resume run.text.toList) ++ Style.reset
  | _, _ => run.text

/-- The characters of a styled text, with or without colours. -/
def render (colors : Bool) (text : StyledText) : String :=
  String.join (text.map (renderRun colors))

end StyledText

end LineCheck
