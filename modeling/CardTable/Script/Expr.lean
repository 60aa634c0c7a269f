import CardTable.Script.Token
import CardTable.Value.Basic

set_option autoImplicit false

/-!
# Expressions and statements

A module body is a list of statements. The body is read up to the first breach of the syntax, and
what has been read so far is still evaluated, part by part in the order of the text: a part that
cannot be evaluated is reported before a breach behind it. So the tree of a body may end in a
*cut*, which stands where the reading stopped.

## Main definitions

* `CardTable.Script.Expr` — expressions.
* `CardTable.Script.Link` — the accesses behind an expression.
* `CardTable.Script.Statement` — statements.
-/

namespace CardTable.Script

mutual

/-- An expression. -/
inductive Expr where
  /-- A value or `undefined`. -/
  | constant (v : Option Value)
  /-- A name in scope. -/
  | name (word : String)
  /-- A template: its first chunk, and the expressions with the chunks behind them. -/
  | template (head : String) (parts : List (Expr × String))
  /-- An object literal. -/
  | object (entries : List Entry)
  /-- An array literal. -/
  | array (items : List Item)
  /-- A plus or minus sign in front of an expression. -/
  | signed (negative : Bool) (operand : Expr)
  /-- Accesses to the value of an expression, one behind the other. -/
  | chain (base : Expr) (links : List Link)
  /-- The reading stopped, behind an expression if there is one. -/
  | cut (read : Option Expr) (fault : Fault)

/-- A part of an object literal. -/
inductive Entry where
  /-- A property with its own value. -/
  | property (key : String) (value : Expr)
  /-- A property whose name is computed. -/
  | computed (key value : Expr)
  /-- A property with the value of the name in scope. -/
  | shorthand (word : String)
  /-- All properties of a value. -/
  | spread (source : Expr)
  /-- The reading stopped in front of the property. -/
  | cut (fault : Fault)

/-- A part of an array literal. -/
inductive Item where
  /-- A place left empty. -/
  | hole
  /-- One value. -/
  | value (e : Expr)
  /-- All items of a value. -/
  | spread (source : Expr)

/-- An access to a property; an optional one gives up on null and `undefined`. -/
inductive Link where
  /-- By a name written out. -/
  | named (optional : Bool) (key : String)
  /-- By a computed name. -/
  | computed (optional : Bool) (key : Expr)

end

/-- A statement. -/
inductive Statement where
  /-- Brings a name into scope. -/
  | declare (name : String) (value : Expr)
  /-- Evaluates an expression for its errors only. -/
  | evaluate (e : Expr)
  /-- Ends the body with a value. -/
  | result (e : Expr)
  /-- The reading stopped. -/
  | cut (fault : Fault)

end CardTable.Script
