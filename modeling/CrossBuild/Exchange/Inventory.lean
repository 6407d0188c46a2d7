import CrossBuild.Inventory.Basic
import CrossBuild.Json.Basic

/-!
Directives, platforms, projects and inventories as JSON.
-/

namespace CrossBuild

def NameSet.toJson (s : NameSet) : Json := .ofTexts s.keys

def Directive.toJson (d : Directive) : Json :=
  .object (d.links.toList.map fun (name, linked) => (name, linked.toJson))

def PlatformKind.toJson : PlatformKind → Json
  | .hdl role simulator =>
    .object [("model", .text "hdl"), ("role", .text role.name), ("simulator", .bool simulator)]
  | .rcc role => .object [("model", .text "rcc"), ("role", .text role.name)]

def Platform.toJson (p : Platform) : Json :=
  .object ([("name", .text p.name), ("project", .text p.project), ("kind", p.kind.toJson)] ++
    if p.linked.isEmpty then [] else [("linked", p.linked.toJson)])

def Library.toJson (l : Library) : Json :=
  .object [("name", .text l.name), ("kind", .text l.kind.name), ("path", .text l.path)]

def Project.toJson (p : Project) : Json :=
  .object [("name", .text p.name), ("libraries", .array (p.libraries.map (·.toJson)))]

def Inventory.toJson (i : Inventory) : Json :=
  .object [("projects", .array (i.projects.map (·.toJson))),
    ("platforms", .array (i.platforms.map (·.toJson)))]

def Role.ofJson? (j : Json) : Option Role :=
  j.text?.bind fun s => if s == "host" then some .host else if s == "cross" then some .cross else none

def PlatformKind.ofJson? (j : Json) : Option PlatformKind := do
  match ← j.field? "model" Json.text? with
  | "hdl" => return .hdl (← j.field? "role" Role.ofJson?) (← j.field? "simulator" Json.bool?)
  | "rcc" => return .rcc (← j.field? "role" Role.ofJson?)
  | _ => none

def Platform.ofJson? (j : Json) : Option Platform := do
  return {
    name := ← j.field? "name" Json.text?
    project := ← j.field? "project" Json.text?
    kind := ← j.field? "kind" PlatformKind.ofJson?
    linked := .ofList (← j.fieldOr? "linked" [] Json.texts?) }

def LibraryKind.ofJson? (j : Json) : Option LibraryKind := j.text?.bind LibraryKind.ofName?

def Library.ofJson? (j : Json) : Option Library := do
  return {
    name := ← j.field? "name" Json.text?
    kind := ← j.field? "kind" LibraryKind.ofJson?
    path := ← j.field? "path" Json.text? }

def Project.ofJson? (j : Json) : Option Project := do
  return {
    name := ← j.field? "name" Json.text?
    libraries := ← j.field? "libraries" (·.list? Library.ofJson?) }

def Inventory.ofJson? (j : Json) : Option Inventory := do
  return {
    projects := ← j.field? "projects" (·.list? Project.ofJson?)
    platforms := ← j.field? "platforms" (·.list? Platform.ofJson?) }

end CrossBuild
