import ScriptedArrays.Slot

/-! Members of host values. A member is a value, computed when it is read, or a method.
Which names a value has follows from its kind. -/

namespace ScriptedArrays

inductive Member
  | value (v : Value)
  /-- A sequence that is made when it is read. -/
  | tuple (vs : List Value)
  | method
  deriving DecidableEq

namespace HostMember

def textMethods : List String := [
  "capitalize", "casefold", "center", "count", "encode", "endswith", "expandtabs", "find",
  "format", "format_map", "index", "isalnum", "isalpha", "isascii", "isdecimal", "isdigit",
  "isidentifier", "islower", "isnumeric", "isprintable", "isspace", "istitle", "isupper", "join",
  "ljust", "lower", "lstrip", "maketrans", "partition", "removeprefix", "removesuffix", "replace",
  "rfind", "rindex", "rjust", "rpartition", "rsplit", "rstrip", "split", "splitlines",
  "startswith", "strip", "swapcase", "title", "translate", "upper", "zfill"]

def byteMethods : List String := [
  "capitalize", "center", "count", "decode", "endswith", "expandtabs", "find", "fromhex", "hex",
  "index", "isalnum", "isalpha", "isascii", "isdigit", "islower", "isspace", "istitle", "isupper",
  "join", "ljust", "lower", "lstrip", "maketrans", "partition", "removeprefix", "removesuffix",
  "replace", "rfind", "rindex", "rjust", "rpartition", "rsplit", "rstrip", "split", "splitlines",
  "startswith", "strip", "swapcase", "title", "translate", "upper", "zfill"]

def listMethods : List String := [
  "append", "clear", "copy", "count", "extend", "index", "insert", "pop", "remove", "reverse",
  "sort"]

def tupleMethods : List String := ["count", "index"]

def recordMethods : List String := [
  "clear", "copy", "fromkeys", "get", "items", "keys", "pop", "popitem", "setdefault", "update",
  "values"]

def integerMethods : List String := [
  "as_integer_ratio", "bit_count", "bit_length", "conjugate", "from_bytes", "to_bytes"]

def numberMethods : List String := [
  "as_integer_ratio", "conjugate", "fromhex", "hex", "is_integer"]

/-- Methods that arrays and typed cell contents share. -/
def arrayMethods : List String := [
  "all", "any", "argmax", "argmin", "argsort", "astype", "byteswap", "choose", "clip", "compress",
  "conj", "conjugate", "copy", "cumprod", "cumsum", "diagonal", "dump", "dumps", "fill",
  "flatten", "getfield", "item", "max", "mean", "min", "nonzero", "prod", "put", "ravel",
  "repeat", "reshape", "resize", "round", "searchsorted", "setfield", "setflags", "sort",
  "squeeze", "std", "sum", "swapaxes", "take", "to_device", "tobytes", "tofile", "tolist",
  "trace", "transpose", "var", "view"]

def named (methods : List String) (name : String) : Option Member :=
  if name ∈ methods then some .method else none

/-- The lengths of the axes of an array. -/
def axes (shape : List Nat) : Member := .tuple (shape.map fun (n : Nat) => .int n)

/-- Members that describe the cells of an array or of a single typed content. -/
def described? (t : CellType) (shape : List Nat) (name : String) : Option Member :=
  match name with
  | "dtype" => some (.value (.cellType t))
  | "shape" => some (axes shape)
  | "ndim" => some (.value (.int shape.length))
  | "size" => some (.value (.int (cellCount shape)))
  | "itemsize" => some (.value (.int t.content.size))
  | "nbytes" => some (.value (.int (cellCount shape * t.content.size)))
  | name => named arrayMethods name

def cellType? (t : CellType) (name : String) : Option Member :=
  match name with
  | "itemsize" => some (.value (.int t.content.size))
  | "ndim" => some (.value (.int 0))
  | "shape" => some (axes [])
  | "kind" => some (.value (.text (String.singleton t.kind)))
  | "name" => some (.value (.text t.content.family))
  | _ => none

/-- Members of slot types. -/
def slotType? (v : Value) (t : SlotType) (name : String) : Option Member :=
  match name with
  | "dtype" => some (.value ((Value.cellType t.cell).heldBy v name))
  | "shape" => some (axes t.shape)
  | "kind" => some (.value (.text (String.singleton t.cell.kind)))
  | "name" => some (.value (.text t.name))
  | "is_nested" => some (.value (.bool t.isNested))
  | name => named ["of_array", "is_instance"] name

def scopeMethods : List String := ["chain", "owner", "lookup", "get", "set_local", "set", "top_level"]

def searchMethods : List String := ["scan", "start_offset", "predicate"]

/-- Methods that views and boxes share. -/
def boxMethods : List String := [
  "unwrap", "resolve_prototype", "has_property", "get_property", "set_property",
  "coerces_to_primitive"]

def viewMethods : List String := [
  "wrap", "has_index", "get_index", "set_index", "list_own_keys", "has_symbol_key",
  "get_symbol_key", "delete_symbol_key", "instance_check"]

/-- The name of a function. The names of the library's own functions are its literals. -/
def functionName (r : Ref .function) (f : Function) : Value :=
  match f.name, f.body with
  | none, _ => .null
  | some s, .callback _ | some s, .hostMethod .. => (Value.text s).heldBy (.function r) "name"
  | some s, _ => (Value.text s).literal

def function? (r : Ref .function) (f : Function) (name : String) : Option Member :=
  if f.isBare then none
  else match name with
    | "name" => some (.value (functionName r f))
    | "prototype" => some (.value (.record f.prototype))
    | "call" => some .method
    | "native_impl" => some (match f.body with
      | .callback .nothing | .search .. => .value .null
      | _ => .method)
    | name => match f.body with
      | .search _ array _ =>
        if name = "array" then some (.value (.array array))
        else if name = "function_name" then some (.value (functionName r f))
        else named searchMethods name
      | .construct _ => named ["make_array"] name
      | _ => none

def integer? (i : Int) (name : String) : Option Member :=
  match name with
  | "real" | "numerator" => some (.value (.int i))
  | "imag" => some (.value (.int 0))
  | "denominator" => some (.value (.int 1))
  | name => named integerMethods name

def number? (x : Double) (name : String) : Option Member :=
  match name with
  | "real" => some (.value (.number x))
  | "imag" => some (.value (.number .zero))
  | name => named numberMethods name

def complex? (re im : Double) (name : String) : Option Member :=
  match name with
  | "real" => some (.value (.number re))
  | "imag" => some (.value (.number im))
  | name => named ["conjugate"] name

/-- Members of plain values. -/
def plain? (v : Value) (name : String) : Option Member :=
  match v.content with
  | .bool b => integer? (if b then 1 else 0) name
  | .int i => integer? i name
  | .number x => number? x name
  | .complex re im => complex? re im name
  | .text _ => named textMethods name
  | .bytes _ => named byteMethods name
  | .list _ => named listMethods name
  | .tuple _ => named tupleMethods name
  | .record _ => named recordMethods name
  | .symbol s => match name with
    | "name" => some (.value ((Value.text s.name).literal))
    | "IS_CONCAT_SPREADABLE" => some (.value (.symbol .isConcatSpreadable))
    | "ITERATOR" => some (.value (.symbol .iterator))
    | _ => none
  | .cellType t => cellType? t name
  | .slotType t => slotType? v t name
  | _ => none

end HostMember

/-- The type of a host value, as it is named to scripts. -/
def World.typeName (w : World) (v : Value) : String :=
  match v.content with
  | .undefined => "jsbridge.runtime.Undefined"
  | .missing => "jsbridge.runtime._NotFound"
  | .null => "builtins.NoneType"
  | .bool _ => "builtins.bool"
  | .int _ => "builtins.int"
  | .number _ => "builtins.float"
  | .complex .. => "builtins.complex"
  | .text _ => "builtins.str"
  | .bytes _ => "builtins.bytes"
  | .scalar t _ => "numpy." ++ (match t.content with
    | .text _ => "str_"
    | .bytes _ => "bytes_"
    | c => c.family)
  | .date _ => "datetime.date"
  | .duration _ => "datetime.timedelta"
  | .symbol _ => "jsbridge.runtime.SymbolKey"
  | .cellType t => "numpy.dtypes." ++ (match t.content with
    | .bool => "Bool"
    | .int true n => "Int" ++ toString (8 * n)
    | .int false n => "UInt" ++ toString (8 * n)
    | .real p => "Float" ++ toString (8 * p.bytes)
    | .complex p => "Complex" ++ toString (16 * p.bytes)
    | .text _ => "Str"
    | .bytes _ => "Bytes"
    | .object => "Object"
    | .date _ => "DateTime64"
    | .duration _ => "TimeDelta64"
    | .raw _ => "Void") ++ "DType"
  | .slotType _ => "jsbridge.element_type.ElementType"
  | .list _ => "builtins.list"
  | .tuple _ => "builtins.tuple"
  | .record _ => "builtins.dict"
  | .array _ => "numpy.ndarray"
  | .function r =>
    let f := w.functions.get r
    if f.isBare then "builtins.function"
    else match f.body with
      | .search .bare .. => "jsbridge.search.IndexSearch"
      | .search .indexOf .. => "jsbridge.search.FindIndex"
      | .search .includes .. => "jsbridge.search.Contains"
      | _ => "jsbridge.runtime.NativeFunction"
  | .view _ => "jsbridge.bridge.ArrayBridge"
  | .box _ => "jsbridge.host.HostObject"
  | .scope _ => "jsbridge.runtime.Scope"
  | .method .. => "builtins.builtin_function_or_method"
  | .kept .. | .member .. => ""

namespace HostMember

/-- Members of a box or view that holds a host value. -/
def boxed? (w : World) (className : String) (scope value : Value) (exposed : List String)
    (name : String) : Option Member :=
  match name with
  | "value" => some (.value value)
  | "class_name" => some (.value (Value.text className).literal)
  | "host_type_name" => some (.value (.text (w.typeName value)))
  | "parent_scope" => some (.value scope)
  | "exposed_members" => some (.tuple (exposed.map .text))
  | "wrapper" => some (.value .undefined)
  | name => named boxMethods name

def view? (w : World) (r : Ref .view) (name : String) : Option Member :=
  let view := w.views.get r
  match name with
  | "array" => some (.value (.array view.array))
  | "length" => some (.value ((Value.int view.length).heldBy (.view r) name))
  | "element_type" => some (.value ((Value.slotType view.slot).heldBy (.view r) name))
  | "BUILTIN_MEMBERS" => some (.tuple (["length", "indexOf", "includes"].map .text))
  | "coercion" | "resolver" => some (.value .undefined)
  | name => (named viewMethods name).or
      (boxed? w "HostArray" view.scope (.array view.array) view.exposed name)

end HostMember

namespace World

/-- The member of a host value under a name. -/
def member? (w : World) (v : Value) (name : String) : Option Member :=
  match v.content with
  | .scalar t x => (HostMember.described? t [] name).or
      (if v.plain = v.content then none else HostMember.plain? x name)
  | .array r =>
    let win := w.arrays.get r
    match name with
    | "dtype" => some (.value ((Value.cellType win.type).heldBy (.array r) name))
    | name => HostMember.described? win.type win.shape name
  | .function r => HostMember.function? r (w.functions.get r) name
  | .scope r =>
    let s := w.scopes.get r
    match name with
    | "vars" => some (.value (.record s.vars))
    | "parent" => some (.value (match s.parent with
      | some p => .scope p
      | none => .null))
    | name => HostMember.named HostMember.scopeMethods name
  | .view r => HostMember.view? w r name
  | .box r =>
    let box := w.boxes.get r
    HostMember.boxed? w "HostObject" box.scope box.value box.exposed name
  | v => HostMember.plain? v name

end World

/-- The value of a member; a sequence becomes a new tuple and a method stays bound. -/
def memberValue (owner : Value) (name : String) : Member → Action Value
  | .value v => return v
  | .tuple vs => newTuple vs
  | .method => return .method owner name

end ScriptedArrays
