import BlockScript.Value.Basic

/-! Errors of running programs: the causes, their classes, and what they say. -/

namespace BlockScript

/-- Why a name cannot be assigned to. -/
inductive AssignBar where
  | isMethodOf (typeName : String)
  /-- Rebinding would need the declaration `keyword`. -/
  | isOuter (keyword : String)
  deriving DecidableEq, Repr, Inhabited

def AssignBar.message : AssignBar → String
  | isMethodOf t => s!"it is a method of '{t}'"
  | isOuter keyword =>
    s!"it belongs to an enclosing scope; declare it '{keyword}' to rebind it"

inductive AttributeFault where
  | missing (typeName name : String)
  | missingOnClass (className name : String)
  /-- Declared, but without a value so far. -/
  | unset (typeName name : String)
  | readOnly (typeName name : String)
  /-- An object of the embedding application says why. -/
  | host (message : String)
  deriving DecidableEq, Repr, Inhabited

def AttributeFault.message : AttributeFault → String
  | missing t name => s!"'{t}' object has no attribute '{name}'"
  | missingOnClass c name => s!"type object '{c}' has no attribute '{name}'"
  | unset t name => s!"property '{name}' of '{t}' object has no value"
  | readOnly t name => s!"'{t}' object attribute '{name}' is read-only"
  | host message => message

inductive TypeFault where
  -- calls
  | notCallable (typeName : String)
  | unexpectedKeyword (function keyword : String)
  | wrongCount (function : String) (least greatest given : Nat)
  | tooManyPositional (function : String) (declared given : Nat)
  | multipleValues (function name : String)
  | missingArgument (function name : String)
  | noArguments (className : String)
  | atMostOneArgument (function : String) (given : Nat)
  | keywordsOnly
  | keywordNotStr
  | notMapping (typeName : String)
  -- containers
  | notIterable (typeName : String)
  | notSubscriptable (typeName : String)
  | notItemAssignable (typeName : String)
  | unhashable (typeName : String)
  | indexNotInt (container typeName : String)
  | sliceBoundNotInt
  | straySlice
  | insertIndexNotInt
  | noLength (typeName : String)
  | notStrInStr (typeName : String)
  -- operators
  | unsupportedOperands (symbol left right : String)
  | badOperand (symbol typeName : String)
  | unordered (left right : String)
  -- statements
  | notAssignable
  | notAugAssignable
  | baseNotClass (typeName : String)
  | caughtNotClass (typeName : String)
  | raisedNotException (typeName : String)
  -- arguments of functions and methods
  | notStr (what typeName : String)
  | joinItemNotStr (index : Nat) (typeName : String)
  | maxsplitNotInt
  | notNumeric (function typeName : String)
  | notIntegerIn (function typeName : String)
  | notClassInfo (typeName : String)
  | attributeNameNotStr (function : String)
  | nameNotStr (typeName : String)
  | initNeedsInstance
  | notFunction (typeName : String)
  -- formatting
  | formatNeedsMapping
  | tooFewFormatArguments
  | tooManyFormatArguments
  /-- An object of the embedding application says why. -/
  | host (message : String)
  deriving DecidableEq, Repr, Inhabited

/-- A number of arguments, or the least and the greatest if they differ. -/
def countRange (least greatest : Nat) : String :=
  if least = greatest then toString least else s!"{least} to {greatest}"

def TypeFault.message : TypeFault → String
  | notCallable t => s!"'{t}' object is not callable"
  | unexpectedKeyword f keyword => s!"{f}() got an unexpected keyword argument '{keyword}'"
  | wrongCount f least greatest given =>
    f ++ "() takes " ++ countRange least greatest ++ s!" arguments ({given} given)"
  | tooManyPositional f declared given =>
    s!"{f}() takes {declared} positional arguments but {given} were given"
  | multipleValues f name => s!"{f}() got multiple values for argument '{name}'"
  | missingArgument f name => s!"{f}() missing required argument: '{name}'"
  | noArguments c => s!"{c}() takes no arguments"
  | atMostOneArgument f given => s!"{f} expected at most 1 argument, got {given}"
  | keywordsOnly => "namespace() takes keyword arguments only"
  | keywordNotStr => "keywords must be strings"
  | notMapping t => s!"argument after ** must be a mapping, not '{t}'"
  | notIterable t => s!"'{t}' object is not iterable"
  | notSubscriptable t => s!"'{t}' object is not subscriptable"
  | notItemAssignable t => s!"'{t}' object does not support item assignment"
  | unhashable t => s!"unhashable type: '{t}'"
  | indexNotInt container t => s!"{container} indices must be integers, not '{t}'"
  | sliceBoundNotInt => "slice indices must be integers or None"
  | straySlice => "slice outside of a subscript"
  | insertIndexNotInt => "list.insert() index must be an integer"
  | noLength t => s!"object of type '{t}' has no len()"
  | notStrInStr t => s!"'in <string>' requires string as left operand, not {t}"
  | unsupportedOperands symbol left right =>
    s!"unsupported operand type(s) for {symbol}: '{left}' and '{right}'"
  | badOperand symbol t => s!"bad operand type for {symbol}: '{t}'"
  | unordered left right => s!"'<' not supported between instances of '{left}' and '{right}'"
  | notAssignable => "cannot assign to expression"
  | notAugAssignable => "illegal expression for augmented assignment"
  | baseNotClass t => s!"class base must be a class, not '{t}'"
  | caughtNotClass t => s!"catching '{t}' that does not inherit from Exception is not allowed"
  | raisedNotException t => s!"exceptions must derive from Exception, not '{t}'"
  | notStr what t => s!"{what} must be str, not '{t}'"
  | joinItemNotStr index t => s!"sequence item {index}: expected str instance, {t} found"
  | maxsplitNotInt => "maxsplit must be int"
  | notNumeric f t => s!"{f}() argument must be a string or a number, not '{t}'"
  | notIntegerIn f t => s!"'{t}' object cannot be interpreted as an integer in {f}()"
  | notClassInfo t => s!"isinstance() arg 2 must be a type or tuple of types, not '{t}'"
  | attributeNameNotStr f => s!"{f}(): attribute name must be string"
  | nameNotStr t => s!"names must be str, not '{t}'"
  | initNeedsInstance => "exception __init__ needs an instance"
  | notFunction t => s!"cannot make a closure of '{t}'"
  | formatNeedsMapping => "format requires a mapping"
  | tooFewFormatArguments => "not enough arguments for format string"
  | tooManyFormatArguments => "not all arguments converted during string formatting"
  | host message => message

inductive ValueFault where
  | overflow
  | wrongUnpackCount (expected given : Nat)
  | zeroSliceStep
  | zeroRangeStep
  | negativeShift
  | notFinite (text : String)
  | emptySeparator
  | notInList (item : String)
  | removedNotInList
  | pairLength (length : Nat)
  | emptySequence (function : String)
  | badBase
  | badInt (radix : Nat) (text : String)
  | badFloat (text : String)
  -- formatting
  | unclosedField
  | loneBrace
  | badSpec (spec : String)
  | unknownCode (code : Char) (typeName : String)
  | incompleteFormat
  | unsupportedFormat (code : Char)
  deriving DecidableEq, Repr, Inhabited

def ValueFault.message : ValueFault → String
  | overflow => "integer overflow"
  | wrongUnpackCount expected given => s!"expected {expected} values to unpack, got {given}"
  | zeroSliceStep => "slice step cannot be zero"
  | zeroRangeStep => "range() arg 3 must not be zero"
  | negativeShift => "negative shift count"
  | notFinite text => s!"cannot convert float {text} to integer"
  | emptySeparator => "empty separator"
  | notInList item => s!"{item} is not in list"
  | removedNotInList => "list.remove(x): x not in list"
  | pairLength length =>
    s!"dictionary update sequence element has length {length}; 2 is required"
  | emptySequence f => s!"{f}() arg is an empty sequence"
  | badBase => "int() base must be >= 2 and <= 36"
  | badInt radix text => s!"invalid literal for int() with base {radix}: {text}"
  | badFloat text => s!"could not convert string to float: {text}"
  | unclosedField => "expected '\x7d' before end of string"
  | loneBrace => "single '\x7d' encountered in format string"
  | badSpec spec => s!"invalid format specifier '{spec}'"
  | unknownCode code t => s!"unknown format code '{code}' for object of type '{t}'"
  | incompleteFormat => "incomplete format"
  | unsupportedFormat code => s!"unsupported format character '{code}'"

inductive RuntimeFault where
  | recursionLimit
  | yieldOutsideFunction
  | noNonlocal (name : String)
  | nothingToReraise
  deriving DecidableEq, Repr, Inhabited

def RuntimeFault.message : RuntimeFault → String
  | recursionLimit => "maximum recursion depth exceeded"
  | yieldOutsideFunction => "'yield' outside function"
  | noNonlocal name => s!"no binding for nonlocal '{name}' found"
  | nothingToReraise => "no active exception to reraise"

/-- What ends a run. Every error has a class that handlers can name. -/
inductive RuntimeError where
  /-- With the layers of the scope stack that were searched. -/
  | nameNotFound (name : String) (scopes : List String)
  | cannotAssign (name : String) (bar : AssignBar)
  | attribute (fault : AttributeFault)
  /-- An object of the embedding application rejected a write. -/
  | property (message : String)
  | type (fault : TypeFault)
  | value (fault : ValueFault)
  | key (text : String)
  | indexOutOfRange (container : String)
  | popFromEmpty
  | zeroDivision (operation : String)
  | assertion (message : String)
  | noModule (name : String)
  | cannotImport (name module : String)
  | runtime (fault : RuntimeFault)
  | raised (className message : String) (value : Value)
  deriving Inhabited

namespace RuntimeError

def message : RuntimeError → String
  | nameNotFound name scopes =>
    s!"name '{name}' is not defined" ++
      (if scopes.isEmpty then "" else " (scope stack: " ++ ", ".intercalate scopes ++ ")")
  | cannotAssign name bar => s!"cannot assign to '{name}': " ++ bar.message
  | .attribute fault => fault.message
  | property message => message
  | type fault => fault.message
  | value fault => fault.message
  | key text => text
  | indexOutOfRange container => s!"{container} index out of range"
  | popFromEmpty => "pop from empty list"
  | zeroDivision operation => s!"{operation} by zero"
  | assertion message => message
  | noModule name => s!"no module named '{name}'"
  | cannotImport name module => s!"cannot import name '{name}' from '{module}'"
  | runtime fault => fault.message
  | raised _ message _ => message

def className : RuntimeError → String
  | nameNotFound .. => "NameError"
  | cannotAssign .. => "AssignmentError"
  | .attribute _ => "AttributeError"
  | property _ => "PropertyError"
  | type _ => "TypeError"
  | value _ => "ValueError"
  | key _ => "KeyError"
  | indexOutOfRange _ | popFromEmpty => "IndexError"
  | zeroDivision _ => "ZeroDivisionError"
  | assertion _ => "AssertionError"
  | noModule _ | cannotImport .. => "ImportError"
  | runtime _ => "RuntimeError"
  | raised className _ _ => className

def isAttribute : RuntimeError → Bool
  | .attribute _ => true
  | _ => false

/-- The class and the message, as an error that nothing handles is reported. -/
def report (e : RuntimeError) : String :=
  if e.message.isEmpty then e.className else e.className ++ ": " ++ e.message

end RuntimeError

end BlockScript
