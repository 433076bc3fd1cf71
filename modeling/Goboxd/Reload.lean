import Goboxd.Config
import Goboxd.Lib.Family
import Mathlib.Logic.Function.Basic

/-!
# Reloading the registry

`LoadRegistry` as it touches memory: it makes a map, fills it entry by entry,
deletes from it in two passes, and stores its address in `registry`. `Registry`
loads that address, and whoever called it looks things up in the map at that
address, at any time afterwards. Any number of both may be under way at once.

A map's address is the number of the call that makes it; no call makes two. The
first of the two passes ranges over a Go map, so the order in which it comes to
the keys is the scheduler's choice.

The YAML file is read and decoded before all this; a call that fails there has
touched nothing, and every other one starts with its languages.
-/

namespace Goboxd.Config

open Go

/-- The arguments of one `LoadRegistry`: the decoded file and what it reads from
the environment. -/
structure LoadArgs where
  path : GoString
  languages : List LanguageYAML
  langs : GoString
  excludeLangs : GoString
deriving DecidableEq, Repr

/-- `LoadRegistry` up to where it makes its map. -/
def decodeLoad (path : GoString) (getenv : Env) (file : Except GoString GoString)
    (unmarshal : GoString → Except GoString ConfigYAML) : Except LoadErr LoadArgs :=
  match file with
  | .error err => .error (.reading path err)
  | .ok data =>
      match unmarshal data with
      | .error err => .error (.parsing path err)
      | .ok cfg =>
          .ok
            { path := path
              languages := cfg.languages
              langs := getenv "GOBOXD_LANGS"
              excludeLangs := getenv "GOBOXD_EXCLUDE_LANGS" }

/-- What `LoadRegistry` does next. -/
inductive LoadPc where
  | checkLanguages
  | addLanguage (rest : List LanguageYAML)
  /-- Ranging over the map; these keys were visited. -/
  | keep (visited : List GoString)
  | exclude (rest : List GoString)
  | store
  | returned (err : Option LoadErr)
deriving DecidableEq, Repr

/-- `delete(newRegistry, id)`. -/
def deleteKey (id : GoString) (m : Registry) : Registry := m.filter fun e => e.1 ≠ id

/-- What comes after the languages: the first pass, where there is a filter. -/
def LoadArgs.afterAdd (a : LoadArgs) : LoadPc :=
  if a.langs ≠ [] ∧ a.langs ≠ str "all" then .keep []
  else if a.excludeLangs ≠ [] then .exclude (split 44 a.excludeLangs)
  else .store

/-- What comes after the first pass. -/
def LoadArgs.afterKeep (a : LoadArgs) : LoadPc :=
  if a.excludeLangs ≠ [] then .exclude (split 44 a.excludeLangs) else .store

/-- A step of `LoadRegistry` on its own map, up to the store. `key` is what the
range comes to next, or that it ends. -/
def loadStep (a : LoadArgs) (m : Registry) (key : Option GoString) :
    LoadPc → Option (Registry × LoadPc)
  | .checkLanguages =>
      if a.languages = [] then some (m, .returned (some (.noLanguages a.path)))
      else some ([], .addLanguage a.languages)
  | .addLanguage [] => some (m, a.afterAdd)
  | .addLanguage (lang :: rest) =>
      if lang.id = [] then some (m, .returned (some (.emptyId a.path)))
      else if (m.lookup lang.id).isSome then
        some (m, .returned (some (.duplicateId lang.id a.path)))
      else some (m ++ [(lang.id, newLanguageConfig lang)], .addLanguage rest)
  | .keep visited =>
      match key with
      | some id =>
          if (m.lookup id).isSome ∧ id ∉ visited then
            some (if id ∈ idList a.langs then m else deleteKey id m, .keep (id :: visited))
          else none
      | none =>
          -- a range ends when every key that is there was visited
          if m.all fun e => e.1 ∈ visited then some (m, a.afterKeep) else none
  | .exclude [] => some (m, .store)
  | .exclude (item :: rest) =>
      some (if trimSpace item ≠ [] then deleteKey (trimSpace item) m else m, .exclude rest)
  | .store => none
  | .returned _ => none

/-- A call: of `LoadRegistry`, or of `Registry`, which returns an address. -/
inductive RegistryCall where
  | load (args : LoadArgs) (pc : LoadPc)
  /-- A load that could not read or decode its file. -/
  | refused (err : LoadErr)
  | read (result : Option ℕ)
deriving DecidableEq, Repr

/-- The maps, by address, and the pointer `registry`. -/
structure RegistryHeap where
  maps : ℕ → Registry
  registry : Option ℕ

def RegistryHeap.write (h : RegistryHeap) (p : ℕ) (m : Registry) : RegistryHeap :=
  { h with maps := Function.update h.maps p m }

def registryStep (p : ℕ) (h : RegistryHeap) (c : RegistryCall) (key : Option GoString) :
    Option (RegistryHeap × RegistryCall) :=
  match c with
  | .load a .store => some ({ h with registry := some p }, .load a (.returned none))
  | .load a pc =>
      (loadStep a (h.maps p) key pc).map fun r => (h.write p r.1, .load a r.2)
  | .refused _ => none
  | .read none =>
      match h.registry with
      | some r => some (h, .read (some r))
      -- no load has succeeded yet: an empty map of its own
      | none => some (h.write p [], .read (some p))
  | .read (some _) => none

inductive RegistryEvent where
  | loadRegistry (decoded : Except LoadErr LoadArgs)
  | registry
deriving DecidableEq, Repr

def registryEvent (h : RegistryHeap) : RegistryEvent → RegistryHeap × List RegistryCall
  | .loadRegistry (.ok a) => (h, [.load a .checkLanguages])
  | .loadRegistry (.error err) => (h, [.refused err])
  | .registry => (h, [.read none])

/-- Any number of loads and reads. -/
def registryCalls : Family RegistryHeap RegistryCall (Option GoString) RegistryEvent where
  init h := h.registry = none
  own p h c key := registryStep p h c key
  env h e := some (registryEvent h e)

/-! ## What a registry is for -/

/-- A registry as a map from ids. -/
abbrev LanguageMap := GoString → Option LanguageConfig

/-- The items of a comma-separated list. -/
def items (s : GoString) : List GoString := (split 44 s).map trimSpace

/-- `GOBOXD_LANGS` keeps the id. -/
def Kept (langs id : GoString) : Prop :=
  langs = [] ∨ langs = str "all" ∨ id ∈ items langs

instance (langs id : GoString) : Decidable (Kept langs id) :=
  inferInstanceAs (Decidable (_ ∨ _ ∨ _))

/-- A list of languages that can be loaded. -/
structure Loadable (languages : List LanguageYAML) : Prop where
  nonempty : languages ≠ []
  ids : ∀ lang ∈ languages, lang.id ≠ []
  unique : (languages.map LanguageYAML.id).Nodup

/-- The map that a load should publish. -/
def LoadArgs.published (a : LoadArgs) : LanguageMap := fun id =>
  if Kept a.langs id ∧ id ∉ items a.excludeLangs then
    (a.languages.find? fun lang => lang.id = id).map newLanguageConfig
  else none

/-- A call of the abstract registry. A load either takes effect at once or fails, and a
read answers with a map. -/
inductive SpecCall where
  | loading (args : LoadArgs)
  | loaded
  | failed
  | reading
  | read (m : LanguageMap)

/-- A read is the map at its address, as it is now. -/
def RegistryCall.view (h : RegistryHeap) : RegistryCall → SpecCall
  | .load _ (.returned none) => .loaded
  | .load _ (.returned (some _)) => .failed
  | .load a _ => .loading a
  | .refused _ => .failed
  | .read none => .reading
  | .read (some r) => .read fun id => (h.maps r).lookup id

def RegistryHeap.current (h : RegistryHeap) : LanguageMap :=
  match h.registry with
  | none => fun _ => none
  | some r => fun id => (h.maps r).lookup id

end Goboxd.Config
