import DataDiode.PyString

/-!
# Configuration Files

Python's `configparser`: sections of options, in the order in which they were added, options by
their names in lower case, defaults for all sections, and values that may refer to others by
`%(name)s`. Lower case is a parameter.
-/

namespace ConfigParser

/-- A `dict`: pairs in the order in which the keys were added. -/
abbrev Dict (α : Type) := List (List Char × α)

/-- `d[k] = v` -/
def insert {α : Type} (d : Dict α) (k : List Char) (v : α) : Dict α :=
  match d with
  | [] => [(k, v)]
  | (k', v') :: d => if k' = k then (k, v) :: d else (k', v') :: insert d k v

/-- A configuration. -/
structure Config where
  defaults : Dict (List Char)
  sections : Dict (Dict (List Char))

/-- What `configparser` raises. -/
inductive Error where
  | noSection
  | interpolation
  | badValue
  deriving DecidableEq, Repr

/-! ### References -/

/-- A value is made up of characters and of references to other options. -/
inductive Token where
  | char (c : Char)
  | reference (name : List Char)

/-- The name in `(name)s`, and the number of characters that it takes up. -/
def keyName (s : List Char) : Option (List Char × ℕ) :=
  match s with
  | '(' :: s =>
      let name := s.takeWhile (· ≠ ')')
      if name ≠ [] ∧ [')', 's'].isPrefixOf (s.drop name.length) then some (name, name.length + 3)
      else none
  | _ => none

/-- The tokens of a value. The first argument counts the characters to pass over. -/
def tokens : ℕ → List Char → Option (List Token)
  | _, [] => some []
  | skip + 1, _ :: s => tokens skip s
  | 0, '%' :: '%' :: s => (Token.char '%' :: ·) <$> tokens 1 ('%' :: s)
  | 0, '%' :: s =>
      match keyName s with
      | some (name, n) => (Token.reference name :: ·) <$> tokens n s
      | none => none
  | 0, c :: s => (Token.char c :: ·) <$> tokens 0 s

/-- `BasicInterpolation.before_get`: references are followed to a depth. -/
def interpolate (lower : List Char → List Char) (map : List Char → Option (List Char)) :
    ℕ → List Char → Option (List Char)
  | 0, _ => none
  | depth + 1, value => do
      let parts ← (← tokens 0 value).mapM fun
        | .char c => some [c]
        | .reference name => do
            let v ← map (lower name)
            if '%' ∈ v then interpolate lower map depth v else some v
      return parts.flatten

/-- `MAX_INTERPOLATION_DEPTH` -/
def maxDepth : ℕ := 10

/-- A value without its references. -/
def dropReferences : ℕ → List Char → List Char
  | _, [] => []
  | skip + 1, _ :: s => dropReferences skip s
  | 0, c :: s =>
      match if c = '%' then keyName s else none with
      | some (_, n) => dropReferences n s
      | none => c :: dropReferences 0 s

/-- `BasicInterpolation.before_set` -/
def isValue (v : List Char) : Bool := '%' ∉ dropReferences 0 (PyString.replace ['%', '%'] [] v)

/-! ### Options -/

namespace Config

variable (lower : List Char → List Char) (config : Config)

/-- `config.sections()` -/
def sectionNames : List (List Char) := config.sections.map Prod.fst

/-- What an option is looked up in. -/
def lookup (sec name : List Char) : Option (List Char) :=
  ((config.sections.lookup sec).getD []).lookup name |>.or (config.defaults.lookup name)

/-- `config.get(section, option, fallback=None)` -/
def get (sec option : List Char) : Except Error (Option (List Char)) :=
  match config.sections.lookup sec, config.lookup sec (lower option) with
  | some _, some value =>
      match interpolate lower (config.lookup sec) maxDepth value with
      | some value => .ok (some value)
      | none => .error .interpolation
  | _, _ => .ok none

/-- `config.set(section, option, value)` -/
def set (sec option value : List Char) : Except Error Config :=
  if isValue value = false then .error .badValue
  else
    match config.sections.lookup sec with
    | none => .error .noSection
    | some options =>
        let options := insert options (lower option) value
        .ok { config with sections := insert config.sections sec options }

/-- `config.add_section(section)`, for one that is not there. -/
def addSection (sec : List Char) : Config :=
  { config with sections := config.sections ++ [(sec, [])] }

/-- `config.options(section)` -/
def options (sec : List Char) : List (List Char) :=
  let own := ((config.sections.lookup sec).getD []).map Prod.fst
  own ++ (config.defaults.map Prod.fst).filter (· ∉ own)

end Config

end ConfigParser
