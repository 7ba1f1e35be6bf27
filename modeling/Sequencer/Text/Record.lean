import Sequencer.Text.Quoted

/-! The form in which values are shown for diagnosis: a name, then the fields in order. -/
namespace Sequencer.Text

def braced (name : String) (fields : List (String × String)) : String :=
  name ++ " \x7b " ++ ", ".intercalate
    (fields.map fun field => field.1 ++ ": " ++ field.2) ++ " \x7d"

def optional (render : α → String) : Option α → String
  | none => "None"
  | some a => "Some(" ++ render a ++ ")"

end Sequencer.Text
