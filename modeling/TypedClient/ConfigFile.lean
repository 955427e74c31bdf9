import TypedClient.Client
import TypedClient.Toml.Document

/-!
# Configuration files

The choices about a client can be given in a TOML document, as the table `generator`.

## Main definitions

* `Config.ofText?`: the choices of a document
-/

namespace TypedClient

namespace Config

/-- A text value. -/
def text? : Toml → Option String
  | .string s => some s
  | _ => none

/-- A truth value. -/
def flag? : Toml → Option Bool
  | .bool b => some b
  | _ => none

/-- The choices with one of them changed by its key. Other keys say nothing. -/
def set? (config : Config) (key : String) (value : Toml) : Option Config :=
  match key with
  | "class_name" => (fun s => { config with className := s }) <$> text? value
  | "sync" => (fun b => { config with sync := b }) <$> flag? value
  | "additional_method_comment" =>
    (fun b => { config with extendedComment := b }) <$> flag? value
  | "runtime_module" => (fun s => { config with runtimeModule := some s }) <$> text? value
  | _ => some config

/-- The keys of the choices, in the order in which they are given without keys. -/
def keys : List String :=
  ["class_name", "sync", "additional_method_comment", "runtime_module"]

/-- The choices of a value: a table, or an array of the first few of them in order. A point
in time counts as a table without any of them. -/
def ofToml? : Toml → Option Config
  | .table entries => entries.foldlM (fun config (key, value) => config.set? key value) {}
  | .array values =>
    (keys.zip values).foldlM (fun config (key, value) => config.set? key value) {}
  | .datetime _ => some {}
  | _ => none

/-- The choices of a document, the usual ones if it has no table of them. -/
def ofText? (text : String) : Option Config := do
  match (← Toml.ofText? text).lookup "generator" with
  | some value => ofToml? value
  | none => return {}

end Config

end TypedClient
