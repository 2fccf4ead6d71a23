import FlowGraph.Value.Basic

/-!
# Stores

A store keeps one value from one pulse to the next. It starts out with nothing in it and reads as its
default until something is written; resetting brings that state back. A default that has been written
reads the same as one that has not, but the store knows the difference.
-/

namespace FlowGraph

structure Store (α : Type) where
  default : α
  kept : Option α := none
deriving DecidableEq

namespace Store

variable {α : Type}

def read (s : Store α) : α :=
  s.kept.getD s.default

def write (s : Store α) (a : α) : Store α :=
  { s with kept := some a }

/-- Replaces the value by a function of the one read. -/
def update (s : Store α) (f : α → α) : Store α :=
  s.write (f s.read)

def reset (s : Store α) : Store α :=
  { s with kept := none }

def isSet (s : Store α) : Bool :=
  s.kept.isSome

/-- The store's description for a developer. -/
def summary {t : ValueType} (s : Store t.Carrier) : String :=
  "GlobalStore \x7b value: " ++ t.shown s.read ++ ", is_set: " ++ ValueType.bool.shown s.isSet ++ " \x7d"

@[simp] theorem read_write (s : Store α) (a : α) : (s.write a).read = a := rfl

@[simp] theorem read_update (s : Store α) (f : α → α) : (s.update f).read = f s.read := rfl

@[simp] theorem read_reset (s : Store α) : s.reset.read = s.default := rfl

end Store

end FlowGraph
