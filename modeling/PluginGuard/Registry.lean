import PluginGuard.Path
import PluginGuard.Table

/-!
# The registry of plugins

What is asked of whoever knows the plugins, and a registry of plugins that are all
known from the start. A class belongs to the plugin that was registered first with
it.
-/
namespace PluginGuard

structure Plugin where
  jar : Path
  displayName : String
  /-- Dotted class names, in order and each once. -/
  classNames : List String
  contentHash : String
  deriving DecidableEq, Repr

def Plugin.owns (p : Plugin) (className : String) : Bool := p.classNames.contains className

structure PluginLookup where
  byClass : String → Option Plugin
  byFile : Path → Option Plugin
  byName : String → Option Plugin
  /-- In the order of their registration. -/
  plugins : List Plugin

structure Registry where
  plugins : List Plugin
  /-- Each class with the place of its owner. -/
  owners : List (String × Fin plugins.length)

namespace Registry

/-- A class that has an owner keeps it. -/
def claim {α : Type} (place : α) (owners : List (String × α)) (className : String) :
    List (String × α) :=
  if owners.any (·.1 == className) then owners else owners ++ [(className, place)]

def ofList (ps : List Plugin) : Registry where
  plugins := ps
  owners :=
    (List.finRange ps.length).foldl (fun owners i => ps[i].classNames.foldl (claim i) owners) []

def byClass (r : Registry) (className : String) : Option Plugin :=
  (r.owners.find? (·.1 == className)).map fun e => r.plugins[e.2]

def byFile (r : Registry) (file : Path) : Option Plugin := r.plugins.find? (·.jar.same file)

def byName (r : Registry) (name : String) : Option Plugin :=
  r.plugins.find? (·.displayName == name)

def lookup (r : Registry) : PluginLookup := ⟨r.byClass, r.byFile, r.byName, r.plugins⟩

instance : Coe Registry PluginLookup := ⟨lookup⟩

end Registry

end PluginGuard
