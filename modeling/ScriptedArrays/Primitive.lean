import ScriptedArrays.Display
import ScriptedArrays.Action
import ScriptedArrays.Number.Numeral

/-! Primitive conversions of script values. An object converts through the host value
behind it: a view through the text of its array, a box through the value in it. -/

namespace ScriptedArrays

/-- A whole number as scripts write it: all digits and no point. -/
def Double.scriptText (x : Double) (other : String) : String :=
  match x with
  | .nan => "NaN"
  | .infinite s => if s then "-Infinity" else "Infinity"
  | .finite s n _ => if x.isWhole then toString (Double.signed s (n / Double.one)) else other

/-- An integer as a number, unless it is beyond all doubles. -/
def Double.ofInt? (i : Int) : Except HostFault Double :=
  if (Double.ofInt i).isFinite then .ok (Double.ofInt i) else .error .overflow

def textNumber (s : String) : Except HostFault Double :=
  match Numeral.read s with
  | .number x => .ok x
  | .tooLarge => .error .overflow

namespace World

/-- The number of a host value in a box: that of a number, or else of the value's text. -/
def boxedNumber (w : World) (v : Value) : Except HostFault Double :=
  match v.plain with
  | .int i => Double.ofInt? i
  | .number x => .ok x
  | _ => do textNumber (← w.display? v)

/-- The number of a script value. -/
def numberOf (w : World) (v : Value) : Except HostFault Double :=
  match v.plain with
  | .undefined => .ok .nan
  | .null => .ok .zero
  | .bool b => .ok (Double.ofInt (if b then 1 else 0))
  | .int i => Double.ofInt? i
  | .number x => .ok x
  | .text s => textNumber s
  | .box r => w.boxedNumber (w.boxes.get r).value
  | _ => .ok .nan

/-- The text of a script value. -/
def textOf (w : World) (v : Value) : String :=
  match v.content with
  | .undefined => "undefined"
  | .null => "null"
  | .bool b => if b then "true" else "false"
  | .int i => toString i
  | .number x => x.scriptText (NumberText.ofDouble x)
  | .text s => s
  | .scalar ⟨.real .double, _⟩ (.number x) => x.scriptText (w.quote v)
  | .view r => w.display (.array (w.views.get r).array)
  | .box r => w.display (w.boxes.get r).value
  | .record _ => "[object Object]"
  | v => w.display v

/-- The text of a script value is written. -/
def hasText (w : World) (v : Value) : Bool :=
  match v.content with
  | .view r => w.displayable (.array (w.views.get r).array)
  | .box r => w.displayable (w.boxes.get r).value
  | .record _ => true
  | v => w.displayable v

/-- The text of a script value, if it is written. -/
def textOf? (w : World) (v : Value) : Except HostFault String :=
  Display.written (w.hasText v) (w.textOf v)

/-- The plain text of a value as a value; a text is left as it is. -/
def displayValue (w : World) (v : Value) : Value :=
  match v.content with
  | .text _ => v
  | _ => .text (w.display v)

/-- The text of a script value as a value; a text, also one in a box, is left as it is, and
the texts of values without parts are literals. -/
def textValue (w : World) (v : Value) : Value :=
  match v.content with
  | .scalar ⟨.text _, _⟩ _ | .text _ => v
  | .box r => w.displayValue (w.boxes.get r).value
  | .undefined | .null | .bool _ | .record _ => (Value.text (w.textOf v)).literal
  | .number x =>
    if x.isFinite then .text (w.textOf v) else (Value.text (w.textOf v)).literal
  | _ => .text (w.textOf v)

/-- The number of a script value as a value; a number, also one in a box, is left as it is,
and the numbers of words and of values without parts are literals. -/
def numberValue (w : World) (v : Value) : Except HostFault Value := do
  let x := Value.number (← w.numberOf v)
  match v.content with
  | .number _ => return v
  | .null | .bool _ | .view _ => return x.literal
  | .text s | .scalar ⟨.text _, _⟩ (.text s) =>
    return if ["", "Infinity", "+Infinity"].contains (stripText s) then x.literal else x
  | .box r => match (w.boxes.get r).value.content with
    | .number _ => return (w.boxes.get r).value
    | _ => return x
  | _ => return x

/-- The host value behind a view or a box; other values are themselves. -/
def hostValue (w : World) (v : Value) : Value :=
  match v with
  | .view r => .array (w.views.get r).array
  | .box r => (w.boxes.get r).value
  | v => v

end World

def Value.isWrapper : Value → Bool
  | .view _ | .box _ => true
  | _ => false

/-- The number of a value, in an action. -/
def numberOf (v : Value) : Action Double := fun w =>
  match w.numberOf v with
  | .ok x => .ok x w
  | .error f => .error (.host f) w

end ScriptedArrays
