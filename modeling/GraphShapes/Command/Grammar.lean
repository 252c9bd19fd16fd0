/-
GraphShapes.Command.Grammar — options among the words of a command.

An option is a flag or takes a value. A long option begins with two dashes and
may carry its value behind an equals sign; a short one is a dash and a letter
and may carry its value right behind it. Otherwise the value is the next word,
whatever it looks like. Two dashes alone end the options. All other words, a
lone dash and the empty word among them, are positional.
-/
namespace GraphShapes.Command

/-- What an option does to the settings. -/
inductive Switch (σ : Type) where
  | flag (set : σ → σ)
  | valued (set : String → σ → σ)

/-- The options of a command. -/
structure Grammar (σ : Type) where
  long : String → Option (Switch σ)
  short : Char → Option (Switch σ)

/-- What a word is. -/
inductive Word (σ : Type) where
  | positional
  /-- Two dashes. -/
  | dashes
  /-- An option that is complete. -/
  | complete (set : σ → σ)
  /-- An option whose value is the next word. -/
  | pending (set : String → σ → σ)
  /-- No option of the command, or one with a value that it does not take. -/
  | wrong

namespace Grammar

variable {σ : Type}

/-- A long option without its dashes. -/
def longWord (g : Grammar σ) (body : List Char) : Word σ :=
  let name := String.ofList (body.takeWhile (· ≠ '='))
  match g.long name, body.dropWhile (· ≠ '=') with
  | some (.flag set), [] => .complete set
  | some (.valued set), [] => .pending set
  | some (.valued set), _ :: value => .complete (set (String.ofList value))
  | _, _ => .wrong

/-- A short option and what is right behind it. -/
def shortWord (g : Grammar σ) (letter : Char) (value : List Char) : Word σ :=
  match g.short letter, value with
  | some (.flag set), [] => .complete set
  | some (.valued set), [] => .pending set
  | some (.valued set), value => .complete (set (String.ofList value))
  | _, _ => .wrong

/-- What a word is. -/
def word (g : Grammar σ) (w : String) : Word σ :=
  match w.toList with
  | ['-', '-'] => .dashes
  | '-' :: '-' :: body => g.longWord body
  | '-' :: letter :: value => g.shortWord letter value
  | _ => .positional

/-- The settings that the words of a command make, and its positional words. -/
def read (g : Grammar σ) : σ → List String → Option (σ × List String)
  | s, [] => some (s, [])
  | s, [w] =>
    match g.word w with
    | .positional => some (s, [w])
    | .dashes => some (s, [])
    | .complete set => some (set s, [])
    | .pending _ => none
    | .wrong => none
  | s, w :: v :: rest =>
    match g.word w with
    | .positional => (g.read s (v :: rest)).map fun (s, ws) => (s, w :: ws)
    | .dashes => some (s, v :: rest)
    | .complete set => g.read (set s) (v :: rest)
    | .pending set => g.read (set v s) rest
    | .wrong => none

end Grammar

end GraphShapes.Command
