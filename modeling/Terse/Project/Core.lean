import Terse.Project.Interface

/-!
# The core library

The modules that every program can use, with what they expose, and the imports that every module
has without writing them.
-/

namespace Terse.Core

/-! ## Names of modules -/

/-- Booleans, numbers, and functions on functions. -/
def basics : ModuleName := ⟨["Basics"]⟩

/-- Lists. -/
def list : ModuleName := ⟨["List"]⟩

/-- Values that may be missing. -/
def maybe : ModuleName := ⟨["Maybe"]⟩

/-- Values or errors. -/
def result : ModuleName := ⟨["Result"]⟩

/-- Texts. -/
def string : ModuleName := ⟨["String"]⟩

/-- Characters. -/
def char : ModuleName := ⟨["Char"]⟩

/-- Pairs. -/
def tuple : ModuleName := ⟨["Tuple"]⟩

/-- Looking into a running program. -/
def debug : ModuleName := ⟨["Debug"]⟩

/-- Sets. -/
def set : ModuleName := ⟨["Set"]⟩

/-- Dictionaries. -/
def dict : ModuleName := ⟨["Dict"]⟩

/-- Programs. -/
def platform : ModuleName := ⟨["Platform"]⟩

/-- Commands. -/
def cmd : ModuleName := ⟨["Platform", "Cmd"]⟩

/-- Subscriptions. -/
def sub : ModuleName := ⟨["Platform", "Sub"]⟩

/-! ## Interfaces -/

/-- The interfaces of the core modules. -/
def interfaces : List Interface :=
  [ ((((((Interface.empty basics).withType "Bool" ["True", "False"]).withType "Order"
        ["LT", "EQ", "GT"]).withType "Int" []).withType "Float" []).withType "Never" []).withValues
      ["identity", "always", "not", "xor", "negate", "never", "compare", "min", "max", "abs",
       "clamp", "sqrt", "logBase", "toFloat", "round", "floor", "ceiling", "truncate", "modBy",
       "remainderBy", "isNaN", "isInfinite", "e", "pi", "cos", "sin", "tan", "acos", "asin", "atan",
       "atan2", "degrees", "radians", "turns", "toPolar", "fromPolar"],
    ((Interface.empty list).withType "List" []).withValues
      ["singleton", "repeat", "range", "map", "indexedMap", "foldl", "foldr", "filter",
       "filterMap", "length", "reverse", "member", "all", "any", "maximum", "minimum", "sum",
       "product", "append", "concat", "concatMap", "intersperse", "map2", "map3", "map4", "map5",
       "sort", "sortBy", "sortWith", "isEmpty", "head", "tail", "take", "drop", "partition",
       "unzip"],
    ((Interface.empty maybe).withType "Maybe" ["Just", "Nothing"]).withValues
      ["withDefault", "map", "map2", "map3", "map4", "map5", "andThen"],
    ((Interface.empty result).withType "Result" ["Ok", "Err"]).withValues
      ["map", "map2", "map3", "map4", "map5", "andThen", "withDefault", "toMaybe", "fromMaybe",
       "mapError"],
    ((Interface.empty string).withType "String" []).withValues
      ["isEmpty", "length", "reverse", "repeat", "replace", "append", "concat", "split", "join",
       "words", "lines", "slice", "left", "right", "dropLeft", "dropRight", "contains",
       "startsWith", "endsWith", "indexes", "indices", "toInt", "fromInt", "toFloat", "fromFloat",
       "fromChar", "cons", "uncons", "toList", "fromList", "toUpper", "toLower", "pad", "padLeft",
       "padRight", "trim", "trimLeft", "trimRight", "map", "filter", "foldl", "foldr", "any",
       "all"],
    ((Interface.empty char).withType "Char" []).withValues
      ["isUpper", "isLower", "isAlpha", "isAlphaNum", "isDigit", "isOctDigit", "isHexDigit",
       "toUpper", "toLower", "toLocaleUpper", "toLocaleLower", "toCode", "fromCode"],
    (Interface.empty tuple).withValues
      ["pair", "first", "second", "mapFirst", "mapSecond", "mapBoth"],
    (Interface.empty debug).withValues ["toString", "log", "todo"],
    ((Interface.empty set).withType "Set" []).withValues
      ["empty", "singleton", "insert", "remove", "isEmpty", "member", "size", "union",
       "intersect", "diff", "toList", "fromList", "map", "foldl", "foldr", "filter", "partition"],
    ((Interface.empty dict).withType "Dict" []).withValues
      ["empty", "singleton", "insert", "update", "remove", "isEmpty", "member", "get", "size",
       "keys", "values", "toList", "fromList", "map", "foldl", "foldr", "filter", "partition",
       "union", "intersect", "diff", "merge"],
    ((Interface.empty platform).withType "Program" []).withValues ["worker"],
    ((Interface.empty cmd).withType "Cmd" []).withValues ["none", "batch", "map"],
    ((Interface.empty sub).withType "Sub" []).withValues ["none", "batch", "map"] ]

/-! ## Imports -/

/-- An import that is not written. -/
def implicit (path : ModuleName) (shortName : Option ModuleName) (exposing : Option Exposing) :
    Import := ⟨⟨path, Range.nowhere⟩, shortName, exposing⟩

/-- Expose a single type. -/
def onlyType (name : String) (isOpen : Bool) : Option Exposing :=
  some (.only [.type name isOpen])

/-- The imports that every module has. -/
def defaultImports : List Import :=
  [ implicit basics none (some .all),
    implicit list none (some (.only [.type "List" false, .operator "::"])),
    implicit maybe none (onlyType "Maybe" true),
    implicit result none (onlyType "Result" true),
    implicit string none (onlyType "String" false),
    implicit char none (onlyType "Char" false),
    implicit tuple none none,
    implicit debug none none,
    implicit platform none (onlyType "Program" false),
    implicit cmd (some ⟨["Cmd"]⟩) (onlyType "Cmd" false),
    implicit sub (some ⟨["Sub"]⟩) (onlyType "Sub" false) ]

end Terse.Core
