/-!
This module contains the names that every program can use without declaring them, and the script
that defines them.
-/

namespace LiterateFun.Prelude

/-- The builtin names, which own the lowest ids in this order. -/
def builtins : List String :=
  ["__builtins", "print", "Array", "Map"]

def lines : List String :=
  ["const FUN___builtins = \x7b",
   "console,",
   "createArray: function() \x7b return new Array(); \x7d,",
   "createMap: function() \x7b return new Map(); \x7d,",
   "\x7d;",
   "function FUN_print(FUN_str) \x7b",
   "FUN___builtins.console.log(FUN_str);",
   "\x7d",
   "function FUN_Array() \x7b",
   "return FUN___builtins.createArray();",
   "\x7d",
   "function FUN_Map() \x7b",
   "return FUN___builtins.createMap();",
   "\x7d"]

def script : String :=
  String.join (lines.map (· ++ "\n"))

end LiterateFun.Prelude
