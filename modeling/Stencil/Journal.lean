import Stencil.Token

/-!
# The journal

What is reported while a template is worked on. A logged result is a value with the
events that led to it, in order.
-/

namespace Stencil

inductive Event where
  /-- A token other than literal text ends at this byte of the template. -/
  | lexed (token : Token) (offset : Nat)
  | tokenized (bytes tokens : Nat)
  | parsed (statements : Nat)
  /-- A name that was text is now a flag. -/
  | promoted (name : Text)
  | compiled (declared : Nat)
  | loaded (bindings : Nat)
  deriving DecidableEq, Repr

inductive Level where
  | trace
  | debug
  deriving DecidableEq, Repr

namespace Event

def level : Event → Level
  | lexed _ _ => .trace
  | _ => .debug

def message : Event → String
  | lexed token offset => "lexed " ++ String.ofList token.display ++ " at " ++ toString offset
  | tokenized bytes tokens =>
      "tokenized " ++ toString bytes ++ " bytes into " ++ toString tokens ++ " tokens"
  | parsed statements => "parsed " ++ toString statements ++ " top-level statements"
  | promoted name =>
      "variable `" ++ String.ofList name ++ "` is used as a flag, declaring it Bool"
  | compiled declared => "compiled template with " ++ toString declared ++ " variables"
  | loaded bindings => "loaded " ++ toString bindings ++ " bindings"

end Event

structure Logged (α : Type) where
  value : α
  events : List Event
  deriving Repr

namespace Logged

variable {α β : Type}

def bind (first : Logged α) (next : α → Logged β) : Logged β :=
  ⟨(next first.value).value, first.events ++ (next first.value).events⟩

instance : Monad Logged where
  pure value := ⟨value, []⟩
  bind := bind

def report (events : List Event) : Logged Unit := ⟨(), events⟩

@[simp] theorem value_pure (value : α) : (pure value : Logged α).value = value := rfl

@[simp] theorem events_pure (value : α) : (pure value : Logged α).events = [] := rfl

@[simp] theorem value_bind (first : Logged α) (next : α → Logged β) :
    (first >>= next).value = (next first.value).value := rfl

@[simp] theorem events_bind (first : Logged α) (next : α → Logged β) :
    (first >>= next).events = first.events ++ (next first.value).events := rfl

@[simp] theorem events_report (events : List Event) : (report events).events = events := rfl

end Logged

end Stencil
