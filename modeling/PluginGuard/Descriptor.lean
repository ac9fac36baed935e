import PluginGuard.Text.Character
import PluginGuard.Yaml.Format

/-!
# Plugin descriptors

The `plugin.yml` inside a plugin archive. A plugin needs a name of one word.
-/
namespace PluginGuard

structure Descriptor where
  name : String
  /-- The class that the plugin starts with, dotted. -/
  main : String
  version : Option String
  description : Option String
  author : Option String
  authors : List String
  depend : List String
  deriving DecidableEq, Repr

inductive DescriptorError
  | unreadable
  | noName
  | blankInName (name : String)
  deriving DecidableEq, Repr

def DescriptorError.message : DescriptorError → String
  | .unreadable => "not a descriptor"
  | .noName => "Plugin descriptor missing 'name'"
  | .blankInName name => s!"Plugin name '{name}' contains whitespace"

def DocumentFormat.descriptor {ν : Type} (f : DocumentFormat ν) (node : ν) :
    Reading Descriptor := do
  let fs ← f.record ["name", "main", "version", "description", "author", "authors", "depend"] node
  return {
    name := ← required fs "name" f.text
    main := ← field fs "main" "" f.text
    version := ← f.setting fs "version" f.text
    description := ← f.setting fs "description" f.text
    author := ← f.setting fs "author" f.text
    authors := ← field fs "authors" [] (f.listOf f.text)
    depend := ← field fs "depend" [] (f.listOf f.text) }

namespace Descriptor

def fileName : String := "plugin.yml"

def fault? (d : Descriptor) : Option DescriptorError :=
  if Text.allBlank d.name then some .noName
  else if d.name.toList.any Text.isBlank then some (.blankInName d.name)
  else none

def parse (text : String) : Except DescriptorError Descriptor :=
  match Yaml.read? DocumentFormat.descriptor text with
  | some d =>
    match d.fault? with
    | some e => .error e
    | none => .ok d
  | none => .error .unreadable

end Descriptor

end PluginGuard
