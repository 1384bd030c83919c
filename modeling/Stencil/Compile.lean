import Stencil.Binding.Document
import Stencil.Journal
import Stencil.Template.Reader
import Stencil.Template.Render
import Stencil.Template.Variables
import Stencil.Token.Layout

/-!
# Compiling and executing

The whole way from the text of a template to its statements and variables, or to
the rendered text. Each step is given with the events that it reports; the events
never change the result.
-/

namespace Stencil

/-- A template, and each of its variables once. -/
structure Compilation where
  template : Template
  declared : List Variable
  deriving Repr

inductive ExecutionError where
  | bindings (error : BindingsError)
  | template (error : SyntaxError)
  deriving DecidableEq, Repr

def ExecutionError.message : ExecutionError → String
  | bindings error => error.message
  | template error => error.message

/-! ## Results -/

def Template.ofText (text : Text) : Except SyntaxError Template :=
  Template.ofTokens (tokenize text)

def compile (text : Text) : Except SyntaxError Compilation :=
  (Template.ofText text).map fun template => ⟨template, template.declared⟩

def execute (text : Text) (bindings : Bindings) : Except SyntaxError Text :=
  (Template.ofText text).map (Template.render bindings)

/-- The bindings are read first, so that their error counts. -/
def executeDocument (text document : Text)
    (read : Json.DocumentReader := Json.parse) : Except ExecutionError Text :=
  match Bindings.ofDocument document read with
  | .error error => .error (.bindings error)
  | .ok bindings => (execute text bindings).mapError .template

/-! ## Results with their events -/

/-- The events of lexemes that begin at byte `offset`, each placed at its end. -/
def lexedEvents (offset : Nat) : List Lexeme → List Event
  | [] => []
  | lexeme :: rest =>
      let stop := offset + lexeme.skipped.bytes + lexeme.source.bytes
      let later := lexedEvents stop rest
      if lexeme.token.isRaw then later else .lexed lexeme.token stop :: later

namespace Logged

def tokenize (text : Text) : Logged (List Token) := do
  let lexemes := (Scanner.ofText text).lexemes
  report (lexedEvents 0 lexemes)
  let tokens := arrange (lexemes.map Lexeme.token)
  report [.tokenized text.bytes tokens.length]
  return tokens

def parse (text : Text) : Logged (Except SyntaxError Template) := do
  let tokens ← tokenize text
  match Template.ofTokens tokens with
  | .error error => return .error error
  | .ok template =>
      report [.parsed template.length]
      return .ok template

def compile (text : Text) : Logged (Except SyntaxError Compilation) := do
  match ← parse text with
  | .error error => return .error error
  | .ok template =>
      let declarations := template.declarations
      report (declarations.promoted.map .promoted)
      report [.compiled declarations.declared.length]
      return .ok ⟨template, declarations.declared⟩

def execute (text : Text) (bindings : Bindings) : Logged (Except SyntaxError Text) := do
  return (← parse text).map (Template.render bindings)

def loadBindings (document : Text) (read : Json.DocumentReader := Json.parse) :
    Logged (Except BindingsError Bindings) := do
  match Bindings.ofDocument document read with
  | .error error => return .error error
  | .ok bindings =>
      report [.loaded bindings.size]
      return .ok bindings

def executeDocument (text document : Text)
    (read : Json.DocumentReader := Json.parse) :
    Logged (Except ExecutionError Text) := do
  match ← loadBindings document read with
  | .error error => return .error (.bindings error)
  | .ok bindings => return (← execute text bindings).mapError .template

end Logged

/-! ## Events never change the result -/

theorem Logged.value_tokenize (text : Text) :
    (Logged.tokenize text).value = Stencil.tokenize text := rfl

theorem Logged.value_parse (text : Text) : (Logged.parse text).value = Template.ofText text := by
  simp only [Logged.parse, value_bind, value_tokenize, Template.ofText]
  split
  · next h => simp [h]
  · next h => simp [h]

theorem Logged.value_compile (text : Text) :
    (Logged.compile text).value = Stencil.compile text := by
  simp only [Logged.compile, value_bind, value_parse, Stencil.compile]
  split
  · next h =>
      rw [h]
      rfl
  · next h =>
      rw [h]
      rfl

theorem Logged.value_execute (text : Text) (bindings : Bindings) :
    (Logged.execute text bindings).value = Stencil.execute text bindings := by
  simp only [Logged.execute, value_bind, value_parse, value_pure, Stencil.execute]

theorem Logged.value_loadBindings (document : Text) (read : Json.DocumentReader) :
    (Logged.loadBindings document read).value = Bindings.ofDocument document read := by
  simp only [Logged.loadBindings]
  split
  · next h => simp [h]
  · next h => simp [h]

theorem Logged.value_executeDocument (text document : Text)
    (read : Json.DocumentReader) :
    (Logged.executeDocument text document read).value =
      Stencil.executeDocument text document read := by
  simp only [Logged.executeDocument, value_bind, value_loadBindings, Stencil.executeDocument]
  split
  · rfl
  · simp only [value_bind, value_execute, value_pure]

end Stencil
