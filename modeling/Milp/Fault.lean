import Milp.Phrase

/-!
# Faults

Why a call could not be carried out. A fault is a cause with the data that belongs to it; its
wording is given in one place, `Fault.message`, and the name of its class in another,
`Fault.className`.
-/

namespace Milp

/-! ## Causes -/

/-- Why no solver can be had under a name. -/
inductive Unavailability where
  | unknownName (name : String)
  | notLoaded (name reason : String)
  /-- The plugin is there, but not the program behind it. -/
  | notUsable (name : Value) (usable : List String)
  | reported (message : String)
  deriving Repr

/-- Where a number stands that should have been whole. -/
inductive Place where
  | objective
  | coefficient (constraint : Value)
  | rhs (constraint : Value)
  | named (v : Value)
  deriving Repr

/-- What is wrong with the arguments of a call. -/
inductive ArgumentFault where
  | missing (names : List String)
  /-- There are more arguments than the call takes, the object it is made on included. -/
  | tooMany (least most given : Nat)
  | unexpected (name : String)
  | repeated (name : String)
  | notOne (given : Nat)
  | anyGiven (given : Nat)
  | notExactly (count given : Nat)
  | belowLeast (least given : Nat)
  | aboveMost (most given : Nat)
  /-- The call takes arguments in order only. -/
  | byName
  deriving Repr

/-- Why arrays do not go together. -/
inductive Misfit where
  /-- The first cannot take in what both of them make. -/
  | output (size broadcast : Nat)
  /-- Arrays of these shapes, and perhaps that of their result, have no common shape. -/
  | operands (shapes : List Shape)
  | keys (shapes : List Shape)
  deriving Repr

/-- Why a list or the like cannot do what it is asked to. -/
inductive CollectionFault where
  /-- Nothing can be taken off an empty list. -/
  | empty
  /-- A list does not have the value that it is asked for the place of. -/
  | notListed (value : Value)
  /-- The value that a call is to find is not there. -/
  | notFound (kind call : String)
  | placeTooLarge
  /-- The end of a range of places is no whole number. -/
  | badRange
  | settingTooLarge
  /-- The call takes arguments by name only. -/
  | inOrder (call : String)
  deriving Repr

/-- Why a type cannot be called with some arguments. -/
inductive ConversionFault where
  /-- There are more arguments than so many. -/
  | tooMany (call : String) (most given : Nat)
  | tooManyNamed (call : String) (most given : Nat)
  | invalidName (call name : String)
  | repeated (call name : String) (position : Nat)
  | notText (call name kind : String)
  /-- A text is read from raw data only. -/
  | decoded (kind : String)
  | decodedText
  /-- The part of a complex number is no number. -/
  | notComplex (position kind : String)
  | secondText
  | secondBesidesText
  | badComplex
  | baseWithoutText
  | baseAlone
  | badBase
  | badDigits (base : Int) (text : String)
  deriving Repr

/-- A side of a range. -/
inductive Side where
  | lower
  | upper
  deriving Repr, DecidableEq

def Side.name : Side → String
  | lower => "lower"
  | upper => "upper"

/-- Why an engine cannot hold a row in whole numbers of 64 bits. -/
inductive MachineFault where
  /-- The bound of a sum is out of range. -/
  | bound (sign : Relation) (sum : String) (bound : Int)
  /-- The bound is the last one in its direction. -/
  | limit (sign : Relation)
  | coefficient (sum : String)
  deriving Repr

mutual

/-- Why an engine is counted as failed. -/
inductive EngineFailure where
  | highsModel
  /-- HiGHS broke off; the text describes the state of its model. -/
  | highsRun (state : String)
  /-- HiGHS ended in a state that says nothing about the model. -/
  | highsState (state : String)
  /-- SciPy was given arrays that it does not take. -/
  | scipyArrays (cause : Fault)
  /-- SciPy ended with a code that says nothing about the model. -/
  | scipyCode (code : Value)
  | cpsatModel (reason : String)
  /-- The program behind a plugin broke off. -/
  | plugin (name : Value) (cause : Fault)
  /-- The plugin ended in a condition that says nothing about the model. -/
  | pluginCondition (condition : String)
  | gurobiRun (cause : Fault)
  /-- Gurobi ended with a code that says nothing about the model. -/
  | gurobiCode (code : Value)
  | reported (message : String)
  deriving Repr

/-- Why a call could not be carried out. -/
inductive Fault where
  | unknownRelation (given : Value)
  | countMismatch (coefficients vars : Nat)
  | unassigned (var : Value)
  | notBoolean (var : Value) (domain : Domain) (engine : Value)
  | notWhole (value engine : Value) (place : Place)
  /-- The engine failed, which is named where it is known. -/
  | engineFailed (engine : Option Value) (failure : EngineFailure)
  | unavailable (why : Unavailability)
  | noSolver
  /-- A constraint was given in none of the ways there are. -/
  | constraintLayout
  | notName
  | constraintNamedTwice
  | termParts (given : Nat)
  | termNotIterable (kind : String)
  | arguments (call : String) (why : ArgumentFault)
  | withoutObject (call : String)
  | notIterable (kind : String)
  /-- The value is not made of two parts, since it has none. -/
  | notUnpackable (kind : String)
  | tooFewParts (given : Nat)
  | tooManyParts
  | noLength (kind : String)
  | notCallable (kind : String)
  | notSubscriptable (kind : String)
  | typeNotSubscriptable (name : String)
  | noItemAssignment (kind : String)
  /-- A list was indexed with something else than a whole number. -/
  | badIndexKind (sequence kind : String)
  | notContainer (kind : String)
  /-- Only texts are contained in texts. -/
  | notTextual (kind : String)
  | unhashable (kind : String)
  | noAttribute (kind member : String)
  | typeNoAttribute (name member : String)
  | readOnly (kind member : String)
  /-- A part of a term was written. -/
  | frozenTerm
  | notOrdered (sign left right : String)
  /-- An operation is not defined between values of these kinds. -/
  | unsupported (sign left right : String)
  /-- A sequence was multiplied by something that does not count. -/
  | notRepeatable (kind : String)
  | badOperand (sign kind : String)
  /-- A flag of fixed size has no opposite number. -/
  | flagNegated
  | noLoop (operation left right : String)
  | notTestable
  | notNumeric (kind : String)
  | notOneNumber
  | badNumeral (text : String)
  | tooLarge
  /-- A whole number does not fit a number of fixed size. -/
  | tooLargeForMachine
  | notANumberToInt
  | infinityToInt
  | missingKey (key : Value)
  | indexOutOfRange (sequence : String)
  /-- A whole number is too large to be a place anywhere. -/
  | indexTooLarge
  | scalarIndex
  | arrayIndexKind
  /-- The parts of a key for an array are neither places nor truth values. -/
  | arrayIndexParts
  | tooManyIndices (dimensions given : Nat)
  /-- A key for an array does not have a truth value for every part of it along an axis. -/
  | flagCount (axis size given : Nat)
  | matrixPlace (place : Int)
  | matrixKey
  | notWholeNumeric (kind : String)
  | badWholeNumeral (text : String)
  | placeOutOfRange (place : Int) (axis size : Nat)
  /-- A matrix has fewer columns. -/
  | columnExceeds (column : Int) (columns : Nat)
  | columnNegative (column : Int)
  /-- The columns of a matrix are no plain list of numbers. -/
  | columnsNested
  | misfit (why : Misfit)
  /-- Nobody can tell whether all of the array counts. -/
  | ambiguousTruth
  | emptyTruth
  | matrixLength
  | matrixTruth
  /-- The parts of a value are not equally long. -/
  | unevenParts (dimensions : Nat) (shape : List Nat)
  /-- What should be the entries of a dictionary has a part that is none. -/
  | entryKind (position : Nat)
  | entryLength (position length : Nat)
  | frozenField (field : String)
  /-- A member that makes a symbol what it is was written. -/
  | frozenSymbol (member : String)
  | frozenType (name member : String)
  | collection (why : CollectionFault)
  | conversion (why : ConversionFault)
  | notIndex (kind : String)
  | machine (why : MachineFault)
  | unknownKind (kind : String)
  /-- A plugin was given a bound that is no number on its side. -/
  | nonFinite (component : String) (side : Side) (shown : String)
  /-- A fault of another class, as an engine or a hook raised it. -/
  | raised (cls message : String)
  /-- An object holds itself too deep to be gone through. -/
  | tooDeep
  /-- The number of steps allowed for a search was spent. -/
  | unfinished
  deriving Repr

end

/-! ## Wording -/

/-- The names under which solvers are known, in alphabetical order. -/
def knownSolvers : List String :=
  ["cbc", "cplex", "cpsat", "glpk", "gurobi", "highs", "scip", "scipy"]

/-- A list of names, each in quotes. -/
def nameList (names : List String) : String :=
  "[" ++ ", ".intercalate (names.map Text.quoted) ++ "]"

namespace Unavailability

/-- The wording of the reason. -/
def message : Unavailability → Phrase
  | unknownName name =>
    "Unknown solver '" ++ name ++ "'. Known solvers: " ++ nameList knownSolvers
  | notLoaded name reason => "Solver '" ++ name ++ "' is not available: " ++ reason
  | notUsable name usable =>
    "Solver '" ++ Phrase.within name ++ "' is not available. Available solvers: " ++
      nameList usable
  | reported message => message

/-- The name that was asked for, where it is known. -/
def name? : Unavailability → Option Value
  | unknownName name => some (.text name)
  | notLoaded name _ => some (.text name)
  | notUsable name _ => some name
  | reported _ => none

end Unavailability

def Place.message : Place → Phrase
  | objective => "objective coefficient"
  | coefficient name => "coefficient in constraint " ++ Phrase.literal name
  | rhs name => "right-hand side of constraint " ++ Phrase.literal name
  | named v => Phrase.within v

/-- What a fault words of the place of a number. The name of a constraint is worded before its
numbers are read, and so before there is a fault. -/
def Place.composed : Place → Phrase
  | named v => Phrase.within v
  | _ => ""

/-- Names in quotes, the last one set apart. -/
def ArgumentFault.nameSeries : List String → String
  | [] => ""
  | [a] => "'" ++ a ++ "'"
  | [a, b] => "'" ++ a ++ "' and '" ++ b ++ "'"
  | names =>
    ", ".intercalate (names.dropLast.map fun n => "'" ++ n ++ "'") ++ ", and '" ++
      names.getLastD "" ++ "'"

/-- The ending of a noun that is counted. -/
def ArgumentFault.plural (n : Nat) : String :=
  if n = 1 then "" else "s"

def ArgumentFault.message : ArgumentFault → String
  | missing names =>
    "missing " ++ Nat.repr names.length ++ " required positional argument" ++
      plural names.length ++ ": " ++ nameSeries names
  | tooMany least most given =>
    let count := if least = most then Nat.repr most
      else "from " ++ Nat.repr least ++ " to " ++ Nat.repr most
    "takes " ++ count ++ " positional argument" ++ (if least = most then plural most else "s") ++
      " but " ++
      Nat.repr given ++ (if given = 1 then " was given" else " were given")
  | unexpected name => "got an unexpected keyword argument '" ++ name ++ "'"
  | repeated name => "got multiple values for argument '" ++ name ++ "'"
  | notOne given => "takes exactly one argument (" ++ Nat.repr given ++ " given)"
  | anyGiven given => "takes no arguments (" ++ Nat.repr given ++ " given)"
  | notExactly count given => expected "" count given
  | belowLeast least given => expected "at least " least given
  | aboveMost most given => expected "at most " most given
  | byName => "takes no keyword arguments"
where
  expected (bound : String) (count given : Nat) : String :=
    "expected " ++ bound ++ Nat.repr count ++ " argument" ++ plural count ++ ", got " ++
      Nat.repr given

/-- The name of a call in front of the wording of what is wrong with its arguments. -/
def ArgumentFault.subject (call : String) : ArgumentFault → String
  | notExactly _ _ => call
  | belowLeast _ _ => call
  | aboveMost _ _ => call
  | _ => call ++ "()"

def Misfit.message : Misfit → String
  | output size broadcast =>
    "non-broadcastable output operand with shape (" ++ Nat.repr size ++
      ",) doesn't match the broadcast shape (" ++ Nat.repr broadcast ++ ",)"
  | operands shapes =>
    "operands could not be broadcast together with shapes " ++
      "".intercalate (shapes.map fun s => Shape.text s ++ " ")
  | keys shapes =>
    "shape mismatch: indexing arrays could not be broadcast together with shapes " ++
      "".intercalate (shapes.map fun s => Shape.text s ++ " ")

/-- The wording of why a list or the like cannot do what it is asked to. -/
def CollectionFault.message : CollectionFault → Phrase
  | empty => "pop from empty list"
  | notListed value => Phrase.literal value ++ " is not in list"
  | notFound kind call => kind ++ "." ++ call ++ "(x): x not in " ++ kind
  | placeTooLarge => "Python int too large to convert to C ssize_t"
  | badRange => "slice indices must be integers or have an __index__ method"
  | settingTooLarge => "Python int too large to convert to C int"
  | inOrder call => call ++ "() takes no positional arguments"

def CollectionFault.className : CollectionFault → String
  | empty => "IndexError"
  | notListed _ => "ValueError"
  | notFound _ _ => "ValueError"
  | placeTooLarge => "OverflowError"
  | badRange => "TypeError"
  | settingTooLarge => "OverflowError"
  | inOrder _ => "TypeError"

/-- The wording of why a type cannot be called. -/
def ConversionFault.message : ConversionFault → String
  | tooMany call most given =>
    call ++ "() takes at most " ++ Nat.repr most ++ " arguments (" ++ Nat.repr given ++ " given)"
  | tooManyNamed call most given =>
    call ++ "() takes at most " ++ Nat.repr most ++ " keyword arguments (" ++ Nat.repr given ++
      " given)"
  | invalidName call name => "'" ++ name ++ "' is an invalid keyword argument for " ++ call ++ "()"
  | repeated call name position =>
    "argument for " ++ call ++ "() given by name ('" ++ name ++ "') and position (" ++
      Nat.repr position ++ ")"
  | notText call name kind =>
    call ++ "() argument '" ++ name ++ "' must be str, not " ++ kind
  | decoded kind => "decoding to str: need a bytes-like object, " ++ kind ++ " found"
  | decodedText => "decoding str is not supported"
  | notComplex position kind =>
    "complex() " ++ position ++ " argument must be a " ++
      (if position = "first" then "string or a number" else "number") ++ ", not '" ++ kind ++ "'"
  | secondText => "complex() second arg can't be a string"
  | secondBesidesText => "complex() can't take second arg if first is a string"
  | badComplex => "complex() arg is a malformed string"
  | baseWithoutText => "int() can't convert non-string with explicit base"
  | baseAlone => "int() missing string argument"
  | badBase => "int() base must be >= 2 and <= 36, or 0"
  | badDigits base text =>
    "invalid literal for int() with base " ++ Int.repr base ++ ": " ++ Text.quoted text

/-- The wording of what an engine in whole numbers of 64 bits cannot hold. -/
def MachineFault.message : MachineFault → String
  | bound sign sum n =>
    let operation := match sign with
      | .le => "__le__"
      | .ge => "__ge__"
      | .eq => "__eq__"
    let expression := "ortools.sat.python.cp_model_helper.LinearExpr"
    let result := "operations_research::sat::python::BoundedLinearExpression"
    let form (number other : String) : String :=
      "    " ++ number ++ ". (self: " ++ expression ++ ", arg0: " ++ other ++ ") -> " ++ result ++
        "\n"
    operation ++ "(): incompatible function arguments. " ++
      "The following argument types are supported:\n" ++ form "1" expression ++ form "2" "int" ++
      "\nInvoked with: " ++ sum ++ ", " ++ Int.repr n
  | limit .le => "<= INT_MIN is not supported"
  | limit _ => ">= INT_MAX is not supported"
  | coefficient sum =>
    "Linear constraints only accept integer values and coefficients: " ++ sum

namespace Fault

def installHint : String :=
  "No solver available. Install one of: highspy, scipy, ortools, gurobipy, " ++
  "or a Pyomo-supported executable (glpk, cbc, scip, cplex)."

/-- The wording of a wrong number of parts of a term. -/
def termPartsMessage : Nat → String
  | 0 => "Term.__new__() missing 2 required positional arguments: 'variable' and 'coefficient'"
  | 1 => "Term.__new__() missing 1 required positional argument: 'coefficient'"
  | n => "Term.__new__() takes 3 positional arguments but " ++ Nat.repr (n + 1) ++ " were given"

/-- The wording of the fault of an array with several entries that is taken for a truth value. -/
def ambiguity : String :=
  "The truth value of an array with more than one element is ambiguous. Use a.any() or a.all()"

end Fault

mutual

/-- The wording of the failure of an engine, which ends with that of its cause. -/
def EngineFailure.message : EngineFailure → Phrase
  | .highsModel => "HiGHS rejected the model"
  | .highsRun state => "HiGHS failed with model status " ++ state
  | .highsState state => "HiGHS terminated with status " ++ state
  | .scipyArrays cause => "SciPy rejected the model: " ++ cause.message
  | .scipyCode code => "SciPy solver failed with status " ++ Phrase.within code
  | .cpsatModel reason => "CP-SAT rejected the model: " ++ reason
  | .plugin name cause => "Solver '" ++ Phrase.within name ++ "' failed: " ++ cause.message
  | .pluginCondition condition => "Solver terminated with status " ++ condition
  | .gurobiRun cause => "Gurobi failed: " ++ cause.message
  | .gurobiCode code => "Gurobi terminated with status code " ++ Phrase.within code
  | .reported message => message

def Fault.message : Fault → Phrase
  | .unknownRelation given => "Unknown relational operator: " ++ Phrase.literal given
  | .countMismatch c v =>
    "The number of coefficients and variables must be equal (got " ++ Nat.repr c ++
      " coefficients and " ++ Nat.repr v ++ " variables)"
  | .unassigned var =>
    "The variable " ++ Phrase.literal var ++ " is missing in the given assignment"
  | .notBoolean var domain engine =>
    "Variable " ++ Phrase.literal var ++ " is of type " ++ domain.name ++ "; backend '" ++
      Phrase.within engine ++ "' can only solve 0-1 problems"
  | .notWhole value engine place =>
    "Backend '" ++ Phrase.within engine ++ "' requires integer coefficients; found " ++
      place.message ++ " " ++ Phrase.literal value
  | .engineFailed _ failure => failure.message
  | .unavailable why => why.message
  | .noSolver => Fault.installHint
  | .constraintLayout =>
    "add() expects (constraint), (lhs, operator, rhs) or (name, lhs, operator, rhs)"
  | .notName => "bad argument type for built-in operation"
  | .constraintNamedTwice => "add() got the constraint name twice"
  | .termParts given => Fault.termPartsMessage given
  | .termNotIterable kind =>
    "ilpkit.linear.Term() argument after * must be an iterable, not " ++ kind
  | .arguments call why => why.subject call ++ " " ++ why.message
  | .withoutObject call => "unbound method " ++ call ++ "() needs an argument"
  | .notIterable kind => "'" ++ kind ++ "' object is not iterable"
  | .notUnpackable kind => "cannot unpack non-iterable " ++ kind ++ " object"
  | .tooFewParts given => "not enough values to unpack (expected 2, got " ++ Nat.repr given ++ ")"
  | .tooManyParts => "too many values to unpack (expected 2)"
  | .noLength kind => "object of type '" ++ kind ++ "' has no len()"
  | .notCallable kind => "'" ++ kind ++ "' object is not callable"
  | .notSubscriptable kind => "'" ++ kind ++ "' object is not subscriptable"
  | .typeNotSubscriptable name => "type '" ++ name ++ "' is not subscriptable"
  | .noItemAssignment kind => "'" ++ kind ++ "' object does not support item assignment"
  | .badIndexKind sequence kind =>
    if sequence = "string" then "string indices must be integers, not '" ++ kind ++ "'"
    else sequence ++ " indices must be integers or slices, not " ++ kind
  | .notContainer kind => "argument of type '" ++ kind ++ "' is not iterable"
  | .notTextual kind => "'in <string>' requires string as left operand, not " ++ kind
  | .unhashable kind => "unhashable type: '" ++ kind ++ "'"
  | .noAttribute kind member =>
    "'" ++ kind ++ "' object has no attribute '" ++ member ++ "'"
  | .typeNoAttribute name member =>
    "type object '" ++ name ++ "' has no attribute '" ++ member ++ "'"
  | .readOnly kind member =>
    "property '" ++ member ++ "' of '" ++ kind ++ "' object has no setter"
  | .frozenTerm => "can't set attribute"
  | .notOrdered sign left right =>
    "'" ++ sign ++ "' not supported between instances of '" ++ left ++ "' and '" ++ right ++ "'"
  | .unsupported sign left right =>
    "unsupported operand type(s) for " ++ sign ++ ": '" ++ left ++ "' and '" ++ right ++ "'"
  | .notRepeatable kind => "can't multiply sequence by non-int of type '" ++ kind ++ "'"
  | .badOperand sign kind => "bad operand type for unary " ++ sign ++ ": '" ++ kind ++ "'"
  | .flagNegated =>
    "The numpy boolean negative, the " ++ "\x60-\x60" ++ " operator, is not supported, use the " ++
      "\x60~\x60" ++ " operator or the logical_not function instead."
  | .noLoop operation left right =>
    "ufunc '" ++ operation ++ "' did not contain a loop with signature matching types " ++
      "(<class 'numpy.dtypes." ++ left ++ "'>, <class 'numpy.dtypes." ++ right ++ "'>) -> None"
  | .notTestable =>
    "ufunc 'isnan' not supported for the input types, and the inputs could not be safely " ++
      "coerced to any supported types according to the casting rule ''safe''"
  | .notNumeric kind =>
    "float() argument must be a string or a real number, not '" ++ kind ++ "'"
  | .notOneNumber => "only 0-dimensional arrays can be converted to Python scalars"
  | .badNumeral text => "could not convert string to float: " ++ Text.quoted text
  | .tooLarge => "int too large to convert to float"
  | .tooLargeForMachine => "Python int too large to convert to C long"
  | .notANumberToInt => "cannot convert float NaN to integer"
  | .infinityToInt => "cannot convert float infinity to integer"
  | .missingKey key => Phrase.literal key
  | .indexOutOfRange sequence => sequence ++ " index out of range"
  | .indexTooLarge => "cannot fit 'int' into an index-sized integer"
  | .scalarIndex => "invalid index to scalar variable."
  | .arrayIndexKind =>
    "only integers, slices (\x60:\x60), ellipsis (\x60...\x60), numpy.newaxis (\x60None\x60) " ++
      "and integer or boolean arrays are valid indices"
  | .arrayIndexParts => "arrays used as indices must be of integer (or boolean) type"
  | .tooManyIndices dimensions given =>
    "too many indices for array: array is " ++ Nat.repr dimensions ++ "-dimensional, but " ++
      Nat.repr given ++ " were indexed"
  | .flagCount axis size given =>
    "boolean index did not match indexed array along axis " ++ Nat.repr axis ++
      "; size of axis is " ++ Nat.repr size ++ " but size of corresponding boolean axis is " ++
      Nat.repr given
  | .matrixPlace place => "index (" ++ Int.repr place ++ ") out of range"
  | .matrixKey => "Index dimension must be 1 or 2"
  | .notWholeNumeric kind =>
    "int() argument must be a string, a bytes-like object or a real number, not '" ++ kind ++ "'"
  | .badWholeNumeral text =>
    "invalid literal for int() with base 10: " ++ Text.quoted text
  | .placeOutOfRange place axis size =>
    "index " ++ Int.repr place ++ " is out of bounds for axis " ++ Nat.repr axis ++
      " with size " ++ Nat.repr size
  | .columnExceeds column columns =>
    "axis 1 index " ++ Int.repr column ++ " exceeds matrix dimension " ++ Nat.repr columns
  | .columnNegative column => "negative axis 1 index: " ++ Int.repr column
  | .columnsNested => "coordinates and data arrays must be 1-D"
  | .misfit why => why.message
  | .ambiguousTruth => Fault.ambiguity
  | .matrixLength =>
    "sparse array length is ambiguous; use getnnz() or shape[0] or shape[1]"
  | .matrixTruth => Fault.ambiguity ++ "."
  | .emptyTruth =>
    "The truth value of an empty array is ambiguous. Use \x60array.size > 0\x60 to check that " ++
      "an array is not empty."
  | .unevenParts dimensions shape =>
    "setting an array element with a sequence. The requested array has an inhomogeneous shape " ++
      "after " ++ Nat.repr dimensions ++ " dimensions. The detected shape was " ++
      Shape.text shape ++ " + inhomogeneous part."
  | .entryKind position =>
    "cannot convert dictionary update sequence element #" ++ Nat.repr position ++
      " to a sequence"
  | .entryLength position length =>
    "dictionary update sequence element #" ++ Nat.repr position ++ " has length " ++
      Nat.repr length ++ "; 2 is required"
  | .frozenField field => "cannot assign to field '" ++ field ++ "'"
  | .frozenSymbol member => "<enum 'Enum'> cannot set attribute '" ++ member ++ "'"
  | .frozenType name member =>
    "cannot set '" ++ member ++ "' attribute of immutable type '" ++ name ++ "'"
  | .collection why => why.message
  | .conversion why => why.message
  | .notIndex kind => "'" ++ kind ++ "' object cannot be interpreted as an integer"
  | .machine why => why.message
  | .unknownKind kind => "Cannot evaluate object with unknown type: " ++ kind
  | .nonFinite component side shown =>
    component ++ " created with an invalid non-finite " ++ side.name ++ " bound (" ++ shown ++ ")."
  | .raised cls message => if cls = "KeyError" then Text.quoted message else message
  | .tooDeep => "maximum recursion depth exceeded"
  | .unfinished => "the search was not finished within the allowed number of steps"

end

/-- What a fault words as soon as it arises. A key and a variable that are missing are worded only
when the fault is shown. -/
def Fault.composed : Fault → Phrase
  | .unassigned _ => ""
  | .missingKey _ => ""
  | .notWhole value engine place =>
    Phrase.within engine ++ place.composed ++ Phrase.literal value
  | f => f.message

/-- The fault that an engine's failure was made of. -/
def EngineFailure.cause? : EngineFailure → Option Fault
  | scipyArrays cause => some cause
  | plugin _ cause => some cause
  | gurobiRun cause => some cause
  | _ => none

namespace Fault

/-! ## Classes -/

def className : Fault → String
  | unknownRelation _ => "MalformedOperatorError"
  | countMismatch _ _ => "VariableCountMismatchError"
  | unassigned _ => "MissingVariableEvaluationError"
  | notBoolean _ _ _ => "DomainViolationError"
  | notWhole _ _ _ => "CoefficientDomainError"
  | engineFailed _ _ => "BackendError"
  | unavailable _ => "SolverUnavailableError"
  | noSolver => "RuntimeError"
  | tooLarge => "OverflowError"
  | tooLargeForMachine => "OverflowError"
  | infinityToInt => "OverflowError"
  | notANumberToInt => "ValueError"
  | badNumeral _ => "ValueError"
  | badWholeNumeral _ => "ValueError"
  | tooFewParts _ => "ValueError"
  | tooManyParts => "ValueError"
  | columnExceeds _ _ => "ValueError"
  | columnNegative _ => "ValueError"
  | columnsNested => "ValueError"
  | misfit (.keys _) => "IndexError"
  | misfit _ => "ValueError"
  | nonFinite _ _ _ => "ValueError"
  | collection why => why.className
  | conversion .badComplex => "ValueError"
  | conversion .badBase => "ValueError"
  | conversion (.badDigits _ _) => "ValueError"
  | machine (.limit _) => "ArithmeticError"
  | noLoop _ _ _ => "UFuncTypeError"
  | ambiguousTruth => "ValueError"
  | matrixTruth => "ValueError"
  | emptyTruth => "ValueError"
  | unevenParts _ _ => "ValueError"
  | entryLength _ _ => "ValueError"
  | missingKey _ => "KeyError"
  | indexOutOfRange _ => "IndexError"
  | indexTooLarge => "IndexError"
  | scalarIndex => "IndexError"
  | arrayIndexKind => "IndexError"
  | arrayIndexParts => "IndexError"
  | tooManyIndices _ _ => "IndexError"
  | flagCount _ _ _ => "IndexError"
  | matrixPlace _ => "IndexError"
  | matrixKey => "IndexError"
  | placeOutOfRange _ _ _ => "IndexError"
  | noAttribute _ _ => "AttributeError"
  | typeNoAttribute _ _ => "AttributeError"
  | readOnly _ _ => "AttributeError"
  | frozenTerm => "AttributeError"
  | frozenField _ => "FrozenInstanceError"
  | frozenSymbol _ => "AttributeError"
  | raised cls _ => cls
  | tooDeep => "RecursionError"
  | unfinished => "RuntimeError"
  | _ => "TypeError"

/-- The classes of faults that can be handled by class. -/
inductive Class where
  | value
  | type
  | member
  | runtime
  | system
  | key
  | engine
  | other
  deriving Repr, DecidableEq

def Class.ofName (name : String) : Class :=
  if ["ValueError", "UnicodeError", "UnicodeDecodeError", "UnicodeEncodeError",
      "UnicodeTranslateError", "MalformedOperatorError", "VariableCountMismatchError",
      "DomainViolationError", "CoefficientDomainError"].contains name then .value
  else if ["TypeError", "UFuncTypeError"].contains name then .type
  else if ["AttributeError", "FrozenInstanceError"].contains name then .member
  else if ["RuntimeError", "NotImplementedError", "RecursionError"].contains name then .runtime
  else if ["OSError", "BlockingIOError", "BrokenPipeError", "ChildProcessError",
      "ConnectionError", "ConnectionAbortedError", "ConnectionRefusedError",
      "ConnectionResetError", "FileExistsError", "FileNotFoundError", "InterruptedError",
      "IsADirectoryError", "NotADirectoryError", "PermissionError", "ProcessLookupError",
      "TimeoutError"].contains name then .system
  else if ["KeyError", "MissingVariableEvaluationError"].contains name then .key
  else if ["BackendError", "SolverUnavailableError"].contains name then .engine
  else .other

def cls (f : Fault) : Class :=
  .ofName f.className

/-- The fault that is reported by the name of its class with a message. Some classes want to be told
more. -/
def ofReport (cls message : String) : Fault :=
  let lacking (names : List String) : Fault := .arguments (cls ++ ".__init__") (.missing names)
  match cls with
  | "BackendError" => .engineFailed none (.reported message)
  | "SolverUnavailableError" => .unavailable (.reported message)
  | "MalformedOperatorError" => .unknownRelation (.text message)
  | "MissingVariableEvaluationError" => .unassigned (.text message)
  | "VariableCountMismatchError" => lacking ["num_variables"]
  | "DomainViolationError" => lacking ["var_type", "backend"]
  | "CoefficientDomainError" => lacking ["backend"]
  | cls => .raised cls message

/-- What a fault says of itself besides its wording. -/
inductive Detail where
  | value (v : Value)
  | phrase (p : Phrase)
  deriving Repr

/-- What a fault says of itself, by name. -/
def details : Fault → List (String × Detail)
  | unknownRelation v => [("operator", .value v)]
  | countMismatch c v =>
    [("num_coefficients", .value (.int c)), ("num_variables", .value (.int v))]
  | unassigned v => [("variable", .value v)]
  | notBoolean v d engine =>
    [("variable", .value v), ("var_type", .value (.symbol (.domain d))),
      ("backend", .value engine)]
  | notWhole v engine place =>
    let shown := match place with
      | .named w => Detail.value w
      | p => .phrase p.message
    [("value", .value v), ("backend", .value engine), ("where", shown)]
  | engineFailed engine _ => [("backend", .value (.ofOption engine))]
  | unavailable why => [("backend", .value (.ofOption why.name?))]
  | _ => []

end Fault

namespace Value

def lacks (v : Value) (member : String) : Fault :=
  match v with
  | .type t => .typeNoAttribute t.name member
  | v => .noAttribute v.kindName member

end Value

end Milp
