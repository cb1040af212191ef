/-
Module: BuildImpact.Report.Paint
Layer: Reports
Purpose: Colours and weights of text on a terminal.
Imports: none
Trusted boundary: none
Main exports: Paint, Paint.code, Paint.on, Paint.on_false
Open obligations: none
-/

namespace BuildImpact

/-- What a piece of text is in a report. -/
inductive Paint where
  /-- What a report is about. -/
  | heading
  /-- The unit that a report is about. -/
  | subject
  /-- A unit that there is nothing to say about. -/
  | mention
  /-- A unit along a route. -/
  | hop
  /-- Marks, remarks and labels. -/
  | aside
  /-- The number in a summary. -/
  | count
  | depth
  | compile
  | reexport
  | runtime
  /-- The label of a fault. -/
  | fault
deriving Repr, DecidableEq, Inhabited

namespace Paint

/-- The terminal's code for each paint: weight, then colour. -/
def code : Paint → String
  | .heading => "1;37"
  | .subject => "1;36"
  | .mention => "36"
  | .hop => "37"
  | .aside => "2"
  | .count => "32"
  | .depth => "33"
  | .compile => "1;31"
  | .reexport => "1;33"
  | .runtime => "1;32"
  | .fault => "1;31"

/-- Ends every paint. -/
def reset : String := "\x1b[0m"

/-- The text that begins a paint. -/
def start (paint : Paint) : String := "\x1b[" ++ paint.code ++ "m"

/-- The characters of a text in a paint.  Where the text itself ends every paint, the
paint begins anew. -/
def resumed (paint : Paint) : List Char → List Char
  | '\x1b' :: '[' :: '0' :: 'm' :: rest => (reset ++ paint.start).toList ++ paint.resumed rest
  | char :: rest => char :: paint.resumed rest
  | [] => []

/-- A text in a paint, if there are paints at all. -/
def on (paint : Paint) (isColored : Bool) (text : String) : String :=
  if isColored then paint.start ++ String.ofList (paint.resumed text.toList) ++ reset else text

/-- Without paints a text stays as it is. -/
@[simp] theorem on_false (paint : Paint) (text : String) : paint.on false text = text := rfl

end Paint

end BuildImpact
